import Mathlib.Data.Set.List
import TypeBridge.Proofs.VisitOrder

/-!
Lists of values. The declarations whose values can be listed are the aliases of a union of literals,
at least one and all of one kind. The pass that lists them leaves every declaration in its place as it
is and adds others after them: one under the plural of the name of each such alias, unless something is
declared under it. Where several aliases have one plural, the first of them is listed.
-/

namespace TypeBridge

/-- The name under which the values of a type are listed. -/
def Identifier.plural (name : Identifier) : Identifier := { name with name := pluralOf name.name }

/-- A name that ends in `x`, `s`, `z`, `ch` or `sh`. -/
def Sibilant (name : String) : Prop :=
  ∃ stem, name = stem ++ "x" ∨ name = stem ++ "s" ∨ name = stem ++ "z" ∨ name = stem ++ "ch" ∨
    name = stem ++ "sh"

theorem isSuffixOf_toList_iff {ending name : String} :
    ending.toList.isSuffixOf name.toList = true ↔ ∃ stem, name = stem ++ ending := by
  rw [List.isSuffixOf_iff_suffix]
  constructor
  · rintro ⟨stem, hstem⟩
    exact ⟨.ofList stem, by rw [← String.toList_inj, String.toList_append, String.toList_ofList, hstem]⟩
  · rintro ⟨stem, rfl⟩
    exact ⟨stem.toList, String.toList_append.symm⟩

/-- The plural of a name has `es` added after a sibilant, and `s` after anything else. -/
theorem pluralOf_cases (name : String) :
    Sibilant name ∧ pluralOf name = name ++ "es" ∨ ¬ Sibilant name ∧ pluralOf name = name ++ "s" := by
  have hsibilant : (["x", "s", "z", "ch", "sh"].any fun ending =>
      ending.toList.isSuffixOf name.toList) = true ↔ Sibilant name := by
    simp only [List.any_cons, List.any_nil, Bool.or_false, Bool.or_eq_true, isSuffixOf_toList_iff,
      Sibilant, exists_or]
  have hplural : pluralOf name = name ++ if (["x", "s", "z", "ch", "sh"].any fun ending =>
      ending.toList.isSuffixOf name.toList) = true then "es" else "s" := rfl
  by_cases h : Sibilant name
  · exact .inl ⟨h, by rw [hplural, if_pos (hsibilant.mpr h)]⟩
  · exact .inr ⟨h, by rw [hplural, if_neg (hsibilant.not.mpr h)]⟩

namespace Declaration

/-- The constant `const names: name[] = [values]`, from the file of the type and exported as it is. -/
def listOf (d : Declaration) (name : Identifier) (values : List Literal) : Declaration where
  modifiers := if .exported ∈ d.modifiers then [.exported] else []
  source := d.source
  form := .constant name.plural (some (.array (.reference name [])))
    (.arrayLiteral (values.map .literal))

end Declaration

namespace Graph

variable {g : Graph} {key : String}

end Graph

end TypeBridge
