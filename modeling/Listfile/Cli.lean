import Listfile.Node.Dump
import Listfile.Parse

/-!
# The command line

A run of the tool is a function of its arguments and of what reading a file
gives. Every file is reported on its own, one after the other, and a file that
cannot be read or parsed does not stop the others.
-/

namespace Listfile.Cli

open Text

/-- Why a file cannot be read. -/
inductive FileError where
  | missing
  | directory
  /-- The bytes are no text. -/
  | notText
  /-- Any other reason, in the words of the system. -/
  | other (message : String)
  deriving DecidableEq

/-- The wording of a file error. -/
def FileError.message : FileError → String
  | .missing => "No such file or directory (os error 2)"
  | .directory => "Is a directory (os error 21)"
  | .notText => "stream did not contain valid UTF-8"
  | .other message => message

/-- What reading a file gives. -/
abbrev Files := String → Except FileError String

/-- What a run prints and how it exits. -/
structure Outcome where
  code : Nat
  stdout : String
  stderr : String
  deriving DecidableEq

/-- What is printed about one file, and whether something was wrong with
it. -/
structure Report where
  stdout : String
  stderr : String
  failed : Bool
  deriving DecidableEq

namespace Report

/-- Nothing to report. -/
def empty : Report :=
  ⟨"", "", false⟩

/-- One report after another. -/
def append (r s : Report) : Report :=
  ⟨r.stdout ++ s.stdout, r.stderr ++ s.stderr, r.failed || s.failed⟩

/-- A file with something wrong. -/
def failure (path message : String) : Report :=
  ⟨"", path ++ ": " ++ message ++ "\n", true⟩

/-- The exit of a run that only reports. -/
def outcome (r : Report) : Outcome :=
  ⟨if r.failed then 1 else 0, r.stdout, r.stderr⟩

end Report

/-- What the tool can do with a file. -/
inductive Mode where
  | validate
  | tokens
  | tree
  deriving DecidableEq

/-- The mode of a command word. -/
def Mode.ofName? (word : String) : Option Mode :=
  match word with
  | "validate" => some .validate
  | "tokens" => some .tokens
  | "tree" => some .tree
  | _ => none

/-- Says whether a file parses and how many nodes it has. -/
def validate (options : ParseOptions) (path source : String) : Report :=
  match (parseTree options source).toExcept with
  | .ok nodes =>
    ⟨"", path ++ ": valid (" ++ toString nodes.length ++ " top-level node(s), " ++
      toString (Node.sizeList nodes) ++ " total)\n", false⟩
  | .error e => .failure path e.message

/-- One line for a token: its place, its kind and what it says. -/
def tokenLine (t : Token) : String :=
  toString t.line ++ ":" ++ toString t.column ++ "\t" ++ t.kind.name ++ "\t" ++
    quote (t.text?.getD "") ++ "\n"

/-- Prints the tokens of a file. -/
def printTokens (source : String) : Report :=
  ⟨String.join ((scan source).map tokenLine), "", false⟩

/-- Prints the nodes of a file up to the first error. -/
def printTree (options : ParseOptions) (path source : String) : Report :=
  let r := parseTree options source
  let nodes : Report :=
    ⟨String.join (r.items.map fun n => n.dump.spread 0 ++ "\n"), "", false⟩
  match r.error with
  | none => nodes
  | some e => nodes.append (.failure path e.message)

/-- What a mode reports of the text of a file. -/
def Mode.report (mode : Mode) (options : ParseOptions) (path source : String) : Report :=
  match mode with
  | .validate => Cli.validate options path source
  | .tokens => printTokens source
  | .tree => printTree options path source

/-- What a mode reports of a file. -/
def Mode.reportFile (mode : Mode) (options : ParseOptions) (files : Files) (path : String) :
    Report :=
  match files path with
  | .ok source => mode.report options path source
  | .error e => .failure path e.message

/-- Goes through the files for a command that does not exist: this shows only
once a file has been read. -/
def runUnknown (word : String) (files : Files) : List String → Outcome
  | [] => Report.empty.outcome
  | path :: paths =>
    match files path with
    | .ok _ => ⟨2, "", "Unknown command: " ++ word ++ "\n"⟩
    | .error e =>
      let first := Report.failure path e.message
      let rest := runUnknown word files paths
      ⟨if rest.code = 2 then 2 else 1, first.stdout ++ rest.stdout, first.stderr ++ rest.stderr⟩

/-- How to use the tool. -/
def usage : String :=
  "Usage: cmake-parse <command> [--skip-comments] [files...]\n" ++
  "\n" ++
  "Commands:\n" ++
  "  validate  Check that listfile(s) parse\n" ++
  "  tokens    Print the token stream of listfile(s)\n" ++
  "  tree      Print the parsed tree of listfile(s)\n" ++
  "\n" ++
  "Environment:\n" ++
  "  CMAKE_PARSER_LOG  log filter, e.g. debug or cmake_parser_rs::eval=trace\n" ++
  "                    (default: warn)\n"

/-- The flag that leaves comments out, wherever it stands after the command. -/
def skipFlag : String := "--skip-comments"

/-- A run of the tool on its arguments. -/
def run (args : List String) (files : Files) : Outcome :=
  match args with
  | [] => ⟨2, "", usage⟩
  | word :: rest =>
    if word == "--help" || word == "-h" then ⟨2, "", usage⟩
    else
      let options : ParseOptions := ⟨rest.contains skipFlag⟩
      let paths := rest.filter (· != skipFlag)
      if paths.isEmpty then ⟨2, "", "Error: no files specified\n"⟩
      else
        match Mode.ofName? word with
        | none => runUnknown word files paths
        | some mode =>
          (paths.foldr (fun path r => (mode.reportFile options files path).append r)
            .empty).outcome

end Listfile.Cli
