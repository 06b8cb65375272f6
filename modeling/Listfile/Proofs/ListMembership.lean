import Listfile.Proofs.Resolving

/-!
# Membership in a list

`IN_LIST` looks up a variable by its bare name and goes through the elements of
its value. An unquoted reference to the variable is read piece by piece, replaced
by the value and then split into arguments. Both ways lead to the same elements.

* `Expands.plain` — text without backslashes, dollar signs and closing braces
  stands for itself, also inside of a reference;
* `Token.resolve_variable` — a reference to a variable becomes one argument for
  each element of the value;
* `evaluate_inList` — what `IN_LIST` finds are the values of these arguments.
-/

namespace Listfile

/-- No backslash, dollar sign or closing brace stands in the text. -/
structure IsPlainName (cs : List Char) : Prop where
  escape : '\\' ∉ cs
  dollar : '$' ∉ cs
  brace : '}' ∉ cs

section Expansion

variable {ctx : Context} {place : Place} {cs after value rest : List Char}

/-- Such a text stands for itself, whatever follows it. -/
theorem Expands.plain (h : IsPlainName cs) (hafter : Expands ctx place after value rest) :
    Expands ctx place (cs ++ after) (cs ++ value) rest := by
  induction cs with
  | nil => exact hafter
  | cons c cs ih =>
      obtain ⟨hescape, hdollar, hbrace⟩ := h
      simp only [List.mem_cons, not_or] at hescape hdollar hbrace
      have hrest := ih ⟨hescape.2, hdollar.2, hbrace.2⟩
      have hopen : ¬ OpensReference (c :: (cs ++ after)) :=
        not_opensReference_of_ne _ (Ne.symm hdollar.1)
      exact .literal (Ne.symm hescape.1) (Ne.symm hbrace.1) hopen hrest

/-- A reference to a variable stands for the value of the variable. -/
theorem expands_variable (ctx : Context) {name : String} (h : IsPlainName name.toList) :
    Expands ctx .outside ("$\x7b" ++ name ++ "\x7d").toList
      ((ctx.var? name).getD "").toList [] := by
  have hname : Expands ctx .inside (name.toList ++ ['}']) (name.toList ++ []) ['}'] :=
    Expands.plain h .done
  have hreference : Expands ctx .outside (Store.variables.opener ++ (name.toList ++ ['}']))
      ((ctx.value .variables (String.ofList (name.toList ++ []))).toList ++ []) [] :=
    .reference hname .done
  rw [Context.value_eq, List.append_nil, List.append_nil, String.ofList_toList] at hreference
  rw [String.toList_append, String.toList_append, List.append_assoc]
  exact hreference

/-- An unquoted reference to a variable becomes one argument for each element of
the value. -/
theorem Token.resolve_variable (ctx : Context) {name : String} (h : IsPlainName name.toList)
    (place : Location) :
    let t : Token := ⟨.raw, "$\x7b" ++ name ++ "\x7d", place⟩
    t.resolve ctx.lookup = .ok ((splitList ((ctx.var? name).getD "")).map t.withValue) := by
  intro t
  have hexpand := expand_eq_ok_of_expands (expands_variable ctx h)
  rw [String.ofList_toList] at hexpand
  have hvalue : t.expand ctx.lookup = .ok ((ctx.var? name).getD "") := by
    unfold Token.expand
    rw [hexpand]
  show (t.expand ctx.lookup).map _ = _
  rw [hvalue]
  rfl

end Expansion

/-- **Membership agrees with expansion.** A quoted text is in the list of a
variable exactly if it is the value of one of the arguments that an unquoted
reference to the variable becomes. Both the reference and the membership can be
evaluated, whether the variable is bound or not. -/
theorem evaluate_inList (engine : PatternEngine) (ctx : Context) (text name : String)
    (h : IsPlainName name.toList) (left middle right place : Location) :
    ∃ arguments, resolve ctx.lookup [⟨.raw, "$\x7b" ++ name ++ "\x7d", place⟩] = .ok arguments ∧
      evaluate engine ctx [⟨.quoted, text, left⟩, ⟨.raw, "IN_LIST", middle⟩, ⟨.raw, name, right⟩] =
        .ok (decide (text ∈ arguments.map (·.value))) := by
  let t : Token := ⟨.raw, "$\x7b" ++ name ++ "\x7d", place⟩
  let elements := splitList ((ctx.var? name).getD "")
  have hresolve : resolve ctx.lookup [t] = .ok (elements.map t.withValue ++ []) := by
    unfold resolve
    rw [Token.resolve_variable ctx h place]
    rfl
  have hvalues : (elements.map t.withValue ++ []).map Token.value = elements := by
    rw [List.append_nil, List.map_map]
    exact List.map_id elements
  have hoperand : Token.IsOperand ⟨.quoted, text, left⟩ :=
    ⟨by simp, by simp, Token.operator?_of_ne (by simp)⟩
  have hoperator : Token.operator? ⟨.raw, "IN_LIST", middle⟩ = some (.relation .inList) :=
    Token.operator?_of_name rfl rfl
  refine ⟨_, hresolve, ?_⟩
  rw [evaluate_relation hoperand hoperator rfl rfl, hvalues]
  show Except.ok (elements.contains text) = _
  rw [List.contains_eq_mem]

/-- A value with an empty element, an escaped semicolon, and dollar signs and
backslashes that a reference in the source text would have read. -/
theorem evaluate_inList_of_escaped_semicolon :
    let engine : PatternEngine := fun _ => .ok fun _ => false
    let ctx := ((Context.empty fun _ => .ok false).setVar "my list"
      "a;;b\\;$\x7bA\x7d;\\n").setVar "A" "x"
    let place : Location := ⟨1, 1, ⟨0, 0⟩⟩
    IsPlainName "my list".toList ∧
      (∃ arguments,
        resolve ctx.lookup [⟨.raw, "$\x7b" ++ "my list" ++ "\x7d", place⟩] = .ok arguments ∧
        evaluate engine ctx [⟨.quoted, "b;$\x7bA\x7d", place⟩, ⟨.raw, "IN_LIST", place⟩,
          ⟨.raw, "my list", place⟩] =
            .ok (decide ("b;$\x7bA\x7d" ∈ arguments.map (·.value)))) ∧
      evaluate engine ctx [⟨.quoted, "b;$\x7bA\x7d", place⟩, ⟨.raw, "IN_LIST", place⟩,
        ⟨.raw, "my list", place⟩] = .ok true := by
  intro engine ctx place
  have hname : IsPlainName "my list".toList := ⟨by decide, by decide, by decide⟩
  exact ⟨hname, evaluate_inList engine ctx "b;$\x7bA\x7d" "my list" hname place place place place,
    by decide +kernel⟩

end Listfile
