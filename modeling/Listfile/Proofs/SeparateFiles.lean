import Listfile.Cli
import Listfile.Proofs.CommentSkipping
import Listfile.Proofs.NodeCount

/-!
# Files are reported separately

A run of the command line on several files prints what the runs on each of them
print, one after the other, and fails exactly if one of them does. Whether a
file parses does not depend on its comments being left out.

* `stdout_reportAll`, `stderr_reportAll`, `failed_reportAll` — what is reported
  of files is put together from what is reported of each;
* `parseTree_error_eq` — leaving comments out makes no text parse or fail;
* `Mode.accepts_iff` — which files are reported without a failure;
* `run_alone`, `code_run` — what a run on one file prints, and how any run exits;
* `run_separately` — the output and the exit of a run.
-/

namespace Listfile.Cli

/-! ## Modes and arguments -/

/-- The command word of a mode. -/
def Mode.word : Mode → String
  | .validate => "validate"
  | .tokens => "tokens"
  | .tree => "tree"

/-- The files among the arguments behind the command word. -/
def paths (args : List String) : List String :=
  args.filter (· != skipFlag)

/-- The flags among them. -/
def flags (args : List String) : List String :=
  args.filter (· == skipFlag)

/-- What the flags ask for. -/
def options (args : List String) : ParseOptions :=
  ⟨args.contains skipFlag⟩

/-- The file can be read as text and, if it is to be parsed, is without an
error, comments included. -/
def Mode.Accepts (mode : Mode) (files : Files) (path : String) : Prop :=
  ∃ source, files path = .ok source ∧ (mode ≠ .tokens → ∃ nodes, parse source = .ok nodes)

/-! ## Reports -/

/-- What a mode reports of files. -/
def reportAll (mode : Mode) (options : ParseOptions) (files : Files) (paths : List String) :
    Report :=
  paths.foldr (fun path r => (mode.reportFile options files path).append r) .empty

section Reports

variable (mode : Mode) (options : ParseOptions) (files : Files) (paths : List String)

theorem stdout_reportAll : (reportAll mode options files paths).stdout =
    String.join (paths.map fun path => (mode.reportFile options files path).stdout) := by
  induction paths with
  | nil => rfl
  | cons path paths ih =>
      rw [List.map_cons, String.join_cons, ← ih]
      rfl

theorem stderr_reportAll : (reportAll mode options files paths).stderr =
    String.join (paths.map fun path => (mode.reportFile options files path).stderr) := by
  induction paths with
  | nil => rfl
  | cons path paths ih =>
      rw [List.map_cons, String.join_cons, ← ih]
      rfl

theorem failed_reportAll : (reportAll mode options files paths).failed =
    paths.any fun path => (mode.reportFile options files path).failed := by
  induction paths with
  | nil => rfl
  | cons path paths ih =>
      rw [List.any_cons, ← ih]
      rfl

theorem reportAll_singleton (path : String) :
    reportAll mode options files [path] = mode.reportFile options files path := by
  show Report.append _ .empty = _
  unfold Report.append Report.empty
  rw [String.append_empty, String.append_empty, Bool.or_false]

end Reports

/-! ## Files that are accepted -/

/-- Comments that are left out make no text parse, and none fail. -/
theorem parseTree_error_eq (options : ParseOptions) (source : String) :
    (parseTree options source).error = (parseTree ⟨false⟩ source).error := by
  obtain ⟨skipComments⟩ := options
  cases skipComments with
  | false => rfl
  | true => exact congrArg (Option.map _) (sameReading_fold source).error.symm

theorem exists_parse_iff (options : ParseOptions) (source : String) :
    (∃ nodes, parse source = .ok nodes) ↔ (parseTree options source).error = none := by
  rw [parseTree_error_eq]
  constructor
  · rintro ⟨nodes, h⟩
    rw [parse, Reading.toExcept_eq_ok_iff] at h
    rw [h]
  · intro h
    exact ⟨_, Reading.toExcept_eq_ok_iff.mpr (Reading.eq_of_error_eq_none h)⟩

/-- A text is reported without a failure if it parses, and its tokens always are. -/
theorem Mode.failed_report (mode : Mode) (options : ParseOptions) (path source : String) :
    (mode.report options path source).failed = false ↔
      (mode ≠ .tokens → (parseTree options source).error = none) := by
  cases mode with
  | tokens => exact iff_of_true rfl fun h => absurd rfl h
  | validate =>
      show (Cli.validate options path source).failed = false ↔ _
      cases herror : (parseTree options source).error <;>
        simp [Cli.validate, Reading.toExcept, herror, Report.failure]
  | tree =>
      show (printTree options path source).failed = false ↔ _
      cases herror : (parseTree options source).error <;>
        simp [printTree, herror, Report.append, Report.failure]

theorem Mode.accepts_iff (mode : Mode) (options : ParseOptions) (files : Files) (path : String) :
    mode.Accepts files path ↔ (mode.reportFile options files path).failed = false := by
  unfold Mode.Accepts Mode.reportFile
  cases files path with
  | error e => simp [Report.failure]
  | ok source => simp [mode.failed_report, exists_parse_iff options]

/-! ## Runs -/

/-- A run on at least one file only reports. -/
theorem run_mode (mode : Mode) {args : List String} (files : Files) (h : paths args ≠ []) :
    run (mode.word :: args) files =
      (reportAll mode (options args) files (paths args)).outcome := by
  have hfiles : (paths args).isEmpty = false := by
    rw [List.isEmpty_eq_false_iff]
    exact h
  unfold paths at hfiles
  cases mode <;> simp only [run, Mode.word, hfiles] <;> rfl

section Alone

variable {args : List String} {path : String}

/-- One of the files among the arguments, behind all the flags. -/
def alone (args : List String) (path : String) : List String :=
  flags args ++ [path]

theorem paths_alone (h : path ∈ paths args) : paths (alone args path) = [path] := by
  have hflags : (flags args).filter (· != skipFlag) = [] := by
    rw [List.filter_eq_nil_iff]
    intro arg harg
    rw [beq_iff_eq.mp (List.mem_filter.mp harg).2, bne_self_eq_false]
    exact Bool.false_ne_true
  have hpath : (path != skipFlag) = true := (List.mem_filter.mp h).2
  rw [paths, alone, List.filter_append, hflags, List.filter_singleton, hpath]
  rfl

theorem options_alone (h : path ∈ paths args) : options (alone args path) = options args := by
  have hpath : skipFlag ≠ path := (bne_iff_ne.mp (List.mem_filter.mp h).2).symm
  have hflag : skipFlag ∈ alone args path ↔ skipFlag ∈ args := by
    rw [alone, List.mem_append, List.mem_singleton, or_iff_left hpath, flags, List.mem_filter,
      and_iff_left BEq.rfl]
  unfold options
  rw [List.contains_eq_mem, List.contains_eq_mem, decide_eq_decide.mpr hflag]

/-- A run on one file says of it what every run with these flags says of it. -/
theorem run_alone (mode : Mode) (files : Files) (h : path ∈ paths args) :
    run (mode.word :: alone args path) files =
      (mode.reportFile (options args) files path).outcome := by
  have hpaths := paths_alone h
  rw [run_mode mode files (hpaths ▸ List.cons_ne_nil path []), hpaths, options_alone h,
    reportAll_singleton]

end Alone

/-! ## What a run amounts to -/

section Runs

variable {args : List String} (mode : Mode) (files : Files)

/-- A run succeeds or it fails, and it fails for a file that is not accepted. -/
theorem code_run (h : paths args ≠ []) :
    ((run (mode.word :: args) files).code = 0 ∧ ∀ path ∈ paths args, mode.Accepts files path) ∨
      ((run (mode.word :: args) files).code = 1 ∧
        ∃ path ∈ paths args, ¬ mode.Accepts files path) := by
  have hany := failed_reportAll mode (options args) files (paths args)
  rw [run_mode mode files h]
  unfold Report.outcome
  cases hfailed : (reportAll mode (options args) files (paths args)).failed with
  | false =>
      rw [hfailed, eq_comm, List.any_eq_false] at hany
      refine .inl ⟨rfl, fun path hpath => ?_⟩
      rw [mode.accepts_iff (options args)]
      exact Bool.eq_false_iff.mpr (hany path hpath)
  | true =>
      rw [hfailed, eq_comm, List.any_eq_true] at hany
      obtain ⟨path, hpath, hreport⟩ := hany
      refine .inr ⟨rfl, path, hpath, ?_⟩
      rw [mode.accepts_iff (options args), hreport]
      exact Bool.noConfusion

/-- Neither the flags nor the order or the number of times in which the files
are named matter for the exit. -/
theorem code_run_congr {args' : List String} (h : paths args ≠ [])
    (hsame : ∀ path, path ∈ paths args' ↔ path ∈ paths args) :
    (run (mode.word :: args') files).code = (run (mode.word :: args) files).code := by
  have h' : paths args' ≠ [] := by
    obtain ⟨path, hpath⟩ := List.exists_mem_of_ne_nil _ h
    exact List.ne_nil_of_mem ((hsame path).mpr hpath)
  rcases code_run mode files h with ⟨hcode, hall⟩ | ⟨hcode, path, hpath, hnot⟩ <;>
    rcases code_run mode files h' with ⟨hcode', hall'⟩ | ⟨hcode', path', hpath', hnot'⟩
  · rw [hcode, hcode']
  · exact absurd (hall path' ((hsame path').mp hpath')) hnot'
  · exact absurd (hall' path ((hsame path).mpr hpath)) hnot
  · rw [hcode, hcode']

end Runs

/-- What `validate` says of a text that parses. -/
theorem stderr_validate {options : ParseOptions} {source : String} (path : String)
    (h : (parseTree options source).error = none) :
    (validate options path source).stderr =
      path ++ ": valid (" ++ toString (parseTree options source).items.length ++
        " top-level node(s), " ++ toString (Node.sizeList (parseTree options source).items) ++
        " total)\n" := by
  have hok : (parseTree options source).toExcept = .ok (parseTree options source).items :=
    Reading.toExcept_eq_ok_iff.mpr (Reading.eq_of_error_eq_none h)
  rw [validate, hok]

/-- **Files are reported separately.** A run on several files prints what runs
on each of them print that are given the same flags. It exits with success
exactly if every file is text and, unless only its tokens are asked for, parses,
whatever the flags and in whatever order the files are named. The nodes that
`validate` counts in a file that parses are its statements, but for the closers
that are used up. -/
theorem run_separately (mode : Mode) (args : List String) (files : Files)
    (h : paths args ≠ []) :
    let outcome := run (mode.word :: args) files
    let single := fun path => run (mode.word :: alone args path) files
    outcome.stdout = String.join ((paths args).map fun path => (single path).stdout) ∧
    outcome.stderr = String.join ((paths args).map fun path => (single path).stderr) ∧
    (outcome.code = 0 ↔ ∀ path ∈ paths args, mode.Accepts files path) ∧
    (outcome.code = 1 ↔ ∃ path ∈ paths args, ¬ mode.Accepts files path) ∧
    (∀ args', (∀ path, path ∈ paths args' ↔ path ∈ paths args) →
      (run (mode.word :: args') files).code = outcome.code) ∧
    (mode = .validate → ∀ path ∈ paths args, ∀ source, files path = .ok source →
      (∃ nodes, parse source = .ok nodes) →
      let statements := (parseFlat (options args) source).items
      let nodes := (parseTree (options args) source).items
      let closers := usedClosers statements nodes
      (single path).stderr =
        path ++ ": valid (" ++ toString nodes.length ++ " top-level node(s), " ++
          toString (statements.length - closers.length) ++ " total)\n" ∧
      (∀ s ∈ closers, s.IsCloser) ∧ closers.length = Node.closersList source nodes) := by
  intro outcome single
  have hsingle : ∀ path ∈ paths args,
      single path = (mode.reportFile (options args) files path).outcome :=
    fun path hpath => run_alone mode files hpath
  have houtcome : outcome = (reportAll mode (options args) files (paths args)).outcome :=
    run_mode mode files h
  refine ⟨?_, ?_, ?_, ?_, ?_, ?_⟩
  · rw [houtcome, List.map_congr_left fun path hpath => by rw [hsingle path hpath]]
    exact stdout_reportAll mode (options args) files (paths args)
  · rw [houtcome, List.map_congr_left fun path hpath => by rw [hsingle path hpath]]
    exact stderr_reportAll mode (options args) files (paths args)
  · rcases code_run mode files h with ⟨hcode, hall⟩ | ⟨hcode, path, hpath, hnot⟩
    · exact iff_of_true hcode hall
    · exact iff_of_false (hcode ▸ Nat.one_ne_zero) fun hall => hnot (hall path hpath)
  · rcases code_run mode files h with ⟨hcode, hall⟩ | ⟨hcode, hexists⟩
    · refine iff_of_false (hcode ▸ Nat.zero_ne_one) ?_
      rintro ⟨path, hpath, hnot⟩
      exact hnot (hall path hpath)
    · exact iff_of_true hcode hexists
  · exact fun args' hsame => code_run_congr mode files h hsame
  · rintro rfl path hpath source hsource hparses statements nodes closers
    have herror := (exists_parse_iff (options args) source).mp hparses
    obtain ⟨hsize, hclosers, hlength⟩ := sizeList_parseTree (options args) source herror
    refine ⟨?_, hclosers, hlength⟩
    rw [hsingle path hpath, ← hsize, ← stderr_validate path herror, Mode.reportFile, hsource]
    rfl

/-- The flag stands between two files, of which the second does not exist. In
the first, a comment is left out, and `else` and `endif` are used up. -/
theorem run_separately_of_flag_between :
    let source := "if(A)\nf()\nelseif(B)\n# c\nelse()\nendif()\n"
    let files : Files := fun path => if path = "a" then .ok source else .error .missing
    let args := ["a", "--skip-comments", "b"]
    (run ("validate" :: args) files).stderr = String.join (["a", "b"].map fun path =>
      (run ["validate", "--skip-comments", path] files).stderr) ∧
    (run ("validate" :: args) files).code = 1 ∧
    (run ["validate", "--skip-comments", "a"] files).stderr =
      "a: valid (1 top-level node(s), 3 total)\n" := by
  intro source files args
  obtain ⟨-, hstderr, -, hcode, -, hvalid⟩ := run_separately .validate args files (by decide)
  have hmissing : ¬ Mode.validate.Accepts files "b" := by
    rintro ⟨source, hsource, -⟩
    cases hsource
  have hparses : ∃ nodes, parse source = .ok nodes := by
    rw [exists_parse_iff ⟨false⟩]
    decide +kernel
  obtain ⟨htotal, -⟩ := hvalid rfl "a" (by decide) source rfl hparses
  refine ⟨hstderr, hcode.mpr ⟨"b", by decide, hmissing⟩, htotal.trans ?_⟩
  decide +kernel

end Listfile.Cli
