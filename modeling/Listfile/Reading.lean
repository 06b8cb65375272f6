/-!
# Readings

A `Reading` is what a reader delivers: items in order, and the error that cut
the sequence short, if one did. A `Reader` is a machine that delivers one: it
takes one input at a time, may deliver one item for it, and says at the end of
the input whether it may stop there.
-/

namespace Listfile

/-- Items in order, and the error that ended them. -/
structure Reading (α ε : Type) where
  items : List α
  error : Option ε

namespace Reading

variable {α β ε ε' : Type}

/-- The reading with one more item in front. -/
def cons (a : α) (r : Reading α ε) : Reading α ε :=
  ⟨a :: r.items, r.error⟩

/-- The same items with the error restated. -/
def mapError (f : ε → ε') (r : Reading α ε) : Reading α ε' :=
  ⟨r.items, r.error.map f⟩

/-- All items, if no error ended them. -/
def toExcept (r : Reading α ε) : Except ε (List α) :=
  match r.error with
  | none => .ok r.items
  | some e => .error e

/-- Each item and, last, the error. -/
def outcomes (r : Reading α ε) : List (Except ε α) :=
  r.items.map .ok ++ (r.error.map .error).toList

end Reading

/-- A machine that takes inputs of type `α` and delivers items of type `β`. -/
structure Reader (σ α β ε : Type) where
  /-- Takes one input: fails, or moves on and perhaps delivers an item. -/
  step : σ → α → Except ε (Option β × σ)
  /-- The error of an input that ends here, if it may not. -/
  finish : σ → Option ε

namespace Reader

variable {σ α β ε ν : Type}

/-- Runs the machine over inputs that may themselves have been cut short: that
error then ends the reading too. -/
def runFrom (m : Reader σ α β ε) (cut : Option ε) : σ → List α → Reading β ε
  | s, [] => ⟨[], cut <|> m.finish s⟩
  | s, a :: as =>
    match m.step s a with
    | .error e => ⟨[], some e⟩
    | .ok (none, s') => m.runFrom cut s' as
    | .ok (some b, s') => (m.runFrom cut s' as).cons b

/-- Runs the machine over a reading. -/
def run (m : Reader σ α β ε) (s : σ) (r : Reading α ε) : Reading β ε :=
  m.runFrom r.error s r.items

/-- What `note` says of the inputs that the machine takes, in groups: those
that lead up to each item delivered, and those after the last item. -/
def notesFrom (m : Reader σ α β ε) (note : σ → α → List ν) : σ → List ν → List α → List (List ν)
  | _, noted, [] => [noted]
  | s, noted, a :: as =>
    match m.step s a with
    | .error _ => [noted ++ note s a]
    | .ok (none, s') => m.notesFrom note s' (noted ++ note s a) as
    | .ok (some _, s') => (noted ++ note s a) :: m.notesFrom note s' [] as

end Reader

end Listfile
