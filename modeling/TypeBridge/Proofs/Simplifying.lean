import Mathlib.Data.List.Induction
import TypeBridge.Proofs.Generics
import TypeBridge.Proofs.Outcome

/-!
What simplifying a list of type parameters comes to. Constraints are compared as structures, with
numbers compared as numbers; this is symmetric and transitive, but a literal that is no number
differs from itself. So a list simplifies exactly when no two of its parameters collide, it is enough
to compare each parameter with the first of its name, and it does not matter whether a part of a list
is simplified before the rest.
-/

namespace TypeBridge

/-! ### Equality of structures -/

theorem Double.same_iff {x y : Double} : x.same y = true ↔
    x.isNaN = false ∧ y.isNaN = false ∧ (x = y ∨ x.isZero = true ∧ y.isZero = true) := by
  obtain ⟨bits⟩ := x
  obtain ⟨bits'⟩ := y
  simp [Double.same, and_assoc]

theorem Double.same_symm {x y : Double} (h : x.same y = true) : y.same x = true := by
  rw [Double.same_iff] at h ⊢
  exact ⟨h.2.1, h.1, h.2.2.imp Eq.symm And.symm⟩

theorem Double.same_trans {x y z : Double} (h : x.same y = true) (h' : y.same z = true) :
    x.same z = true := by
  rw [Double.same_iff] at h h' ⊢
  refine ⟨h.1, h'.2.1, ?_⟩
  rcases h.2.2 with rfl | ⟨hx, hy⟩
  · exact h'.2.2
  · rcases h'.2.2 with rfl | ⟨-, hz⟩
    · exact .inr ⟨hx, hy⟩
    · exact .inr ⟨hx, hz⟩

namespace Literal

theorem same_symm {a b : Literal} (h : a.same b = true) : b.same a = true := by
  cases a <;> cases b <;> simp_all [same, Double.same_symm]

theorem same_trans {a b c : Literal} (h : a.same b = true) (h' : b.same c = true) :
    a.same c = true := by
  cases a with
  | float x =>
      cases b <;> cases c <;> simp only [same, Bool.false_eq_true] at h h' ⊢
      exact Double.same_trans h h'
  | _ => cases b <;> cases c <;> simp_all [same]

end Literal

namespace Expr

section Forms

variable {e : Expr}

theorem same_keyword_iff {word : Keyword} :
    same (.keyword word) e = true ↔ e = .keyword word := by
  cases e <;> simp [same, @eq_comm _ word]

theorem same_literal_iff {value : Literal} :
    same (.literal value) e = true ↔ ∃ value', e = .literal value' ∧ value.same value' = true := by
  cases e <;> simp [same]

theorem same_reference_iff {name : Identifier} {args : List Expr} :
    same (.reference name args) e = true ↔
      ∃ args', e = .reference name args' ∧ sameList args args' = true := by
  cases e <;> simp [same, @eq_comm _ name, and_assoc]

theorem same_array_iff {elem : Expr} :
    same (.array elem) e = true ↔ ∃ elem', e = .array elem' ∧ same elem elem' = true := by
  cases e <;> simp [same]

theorem same_tuple_iff {elem : Expr} {length : Nat} :
    same (.tuple elem length) e = true ↔
      ∃ elem', e = .tuple elem' length ∧ same elem elem' = true := by
  cases e <;> simp [same, @eq_comm _ length, and_assoc]

theorem same_arrayLiteral_iff {items : List Expr} :
    same (.arrayLiteral items) e = true ↔
      ∃ items', e = .arrayLiteral items' ∧ sameList items items' = true := by
  cases e <;> simp [same]

theorem same_union_iff {arms : List Expr} :
    same (.union arms) e = true ↔ ∃ arms', e = .union arms' ∧ sameList arms arms' = true := by
  cases e <;> simp [same]

theorem same_intersection_iff {parts : List Expr} :
    same (.intersection parts) e = true ↔
      ∃ parts', e = .intersection parts' ∧ sameList parts parts' = true := by
  cases e <;> simp [same]

theorem same_null_iff : same .null e = true ↔ e = .null := by
  cases e <;> simp [same]

theorem same_operator_iff {op : Operator} {inner : Expr} :
    same (.operator op inner) e = true ↔
      ∃ inner', e = .operator op inner' ∧ same inner inner' = true := by
  cases e <;> simp [same, @eq_comm _ op, and_assoc]

theorem same_typeLiteral_iff {members : List Property} :
    same (.typeLiteral members) e = true ↔
      ∃ members', e = .typeLiteral members' ∧ sameMembers members members' = true := by
  cases e <;> simp [same]

theorem sameList_nil_iff {es : List Expr} : sameList [] es = true ↔ es = [] := by
  cases es <;> simp [sameList]

theorem sameList_cons_iff {rest es : List Expr} : sameList (e :: rest) es = true ↔
    ∃ e' rest', es = e' :: rest' ∧ same e e' = true ∧ sameList rest rest' = true := by
  cases es <;> simp [sameList, and_assoc]

theorem sameMembers_nil_iff {ms : List Property} : sameMembers [] ms = true ↔ ms = [] := by
  cases ms <;> simp [sameMembers]

/-- Members are compared in all that they have, but for their types as structures. -/
theorem sameMembers_cons_iff {m : Property} {rest ms : List Property} :
    sameMembers (m :: rest) ms = true ↔ ∃ type' rest', ms = { m with type := type' } :: rest' ∧
      same m.type type' = true ∧ sameMembers rest rest' = true := by
  obtain ⟨name, modifiers, optional, type, comments⟩ := m
  cases ms with
  | nil => simp [sameMembers]
  | cons m' ms =>
      obtain ⟨name', modifiers', optional', type', comments'⟩ := m'
      simp only [sameMembers, Bool.and_eq_true, beq_iff_eq, List.cons.injEq, PropertyOf.mk.injEq]
      constructor
      · rintro ⟨⟨⟨⟨⟨rfl, rfl⟩, rfl⟩, htype⟩, rfl⟩, hrest⟩
        exact ⟨_, _, ⟨⟨rfl, rfl, rfl, rfl, rfl⟩, rfl⟩, htype, hrest⟩
      · rintro ⟨_, _, ⟨⟨rfl, rfl, rfl, rfl, rfl⟩, rfl⟩, htype, hrest⟩
        exact ⟨⟨⟨⟨⟨rfl, rfl⟩, rfl⟩, htype⟩, rfl⟩, hrest⟩

end Forms

mutual

theorem same_symm : ∀ {e e' : Expr}, same e e' = true → same e' e = true
  | .keyword _, _, h => by
      obtain rfl := same_keyword_iff.mp h
      exact h
  | .literal _, _, h => by
      obtain ⟨_, rfl, hvalue⟩ := same_literal_iff.mp h
      exact same_literal_iff.mpr ⟨_, rfl, Literal.same_symm hvalue⟩
  | .reference _ _, _, h => by
      obtain ⟨_, rfl, hargs⟩ := same_reference_iff.mp h
      exact same_reference_iff.mpr ⟨_, rfl, sameList_symm hargs⟩
  | .array _, _, h => by
      obtain ⟨_, rfl, helem⟩ := same_array_iff.mp h
      exact same_array_iff.mpr ⟨_, rfl, same_symm helem⟩
  | .tuple _ _, _, h => by
      obtain ⟨_, rfl, helem⟩ := same_tuple_iff.mp h
      exact same_tuple_iff.mpr ⟨_, rfl, same_symm helem⟩
  | .arrayLiteral _, _, h => by
      obtain ⟨_, rfl, hitems⟩ := same_arrayLiteral_iff.mp h
      exact same_arrayLiteral_iff.mpr ⟨_, rfl, sameList_symm hitems⟩
  | .union _, _, h => by
      obtain ⟨_, rfl, harms⟩ := same_union_iff.mp h
      exact same_union_iff.mpr ⟨_, rfl, sameList_symm harms⟩
  | .intersection _, _, h => by
      obtain ⟨_, rfl, hparts⟩ := same_intersection_iff.mp h
      exact same_intersection_iff.mpr ⟨_, rfl, sameList_symm hparts⟩
  | .null, _, h => by
      obtain rfl := same_null_iff.mp h
      exact h
  | .operator _ _, _, h => by
      obtain ⟨_, rfl, hinner⟩ := same_operator_iff.mp h
      exact same_operator_iff.mpr ⟨_, rfl, same_symm hinner⟩
  | .typeLiteral _, _, h => by
      obtain ⟨_, rfl, hmembers⟩ := same_typeLiteral_iff.mp h
      exact same_typeLiteral_iff.mpr ⟨_, rfl, sameMembers_symm hmembers⟩

theorem sameList_symm : ∀ {es es' : List Expr}, sameList es es' = true → sameList es' es = true
  | [], _, h => by
      obtain rfl := sameList_nil_iff.mp h
      exact h
  | _ :: _, _, h => by
      obtain ⟨_, _, rfl, hfirst, hrest⟩ := sameList_cons_iff.mp h
      exact sameList_cons_iff.mpr ⟨_, _, rfl, same_symm hfirst, sameList_symm hrest⟩

theorem sameMembers_symm : ∀ {ms ms' : List (PropertyOf Expr)},
    sameMembers ms ms' = true → sameMembers ms' ms = true
  | [], _, h => by
      obtain rfl := sameMembers_nil_iff.mp h
      exact h
  | ⟨_, _, _, _, _⟩ :: _, _, h => by
      obtain ⟨_, _, rfl, htype, hrest⟩ := sameMembers_cons_iff.mp h
      exact sameMembers_cons_iff.mpr ⟨_, _, rfl, same_symm htype, sameMembers_symm hrest⟩

end

mutual

theorem same_trans : ∀ {a b c : Expr}, same a b = true → same b c = true → same a c = true
  | .keyword _, _, _, h, h' => by
      obtain rfl := same_keyword_iff.mp h
      exact h'
  | .literal _, _, _, h, h' => by
      obtain ⟨_, rfl, hvalue⟩ := same_literal_iff.mp h
      obtain ⟨_, rfl, hvalue'⟩ := same_literal_iff.mp h'
      exact same_literal_iff.mpr ⟨_, rfl, Literal.same_trans hvalue hvalue'⟩
  | .reference _ _, _, _, h, h' => by
      obtain ⟨_, rfl, hargs⟩ := same_reference_iff.mp h
      obtain ⟨_, rfl, hargs'⟩ := same_reference_iff.mp h'
      exact same_reference_iff.mpr ⟨_, rfl, sameList_trans hargs hargs'⟩
  | .array _, _, _, h, h' => by
      obtain ⟨_, rfl, helem⟩ := same_array_iff.mp h
      obtain ⟨_, rfl, helem'⟩ := same_array_iff.mp h'
      exact same_array_iff.mpr ⟨_, rfl, same_trans helem helem'⟩
  | .tuple _ _, _, _, h, h' => by
      obtain ⟨_, rfl, helem⟩ := same_tuple_iff.mp h
      obtain ⟨_, rfl, helem'⟩ := same_tuple_iff.mp h'
      exact same_tuple_iff.mpr ⟨_, rfl, same_trans helem helem'⟩
  | .arrayLiteral _, _, _, h, h' => by
      obtain ⟨_, rfl, hitems⟩ := same_arrayLiteral_iff.mp h
      obtain ⟨_, rfl, hitems'⟩ := same_arrayLiteral_iff.mp h'
      exact same_arrayLiteral_iff.mpr ⟨_, rfl, sameList_trans hitems hitems'⟩
  | .union _, _, _, h, h' => by
      obtain ⟨_, rfl, harms⟩ := same_union_iff.mp h
      obtain ⟨_, rfl, harms'⟩ := same_union_iff.mp h'
      exact same_union_iff.mpr ⟨_, rfl, sameList_trans harms harms'⟩
  | .intersection _, _, _, h, h' => by
      obtain ⟨_, rfl, hparts⟩ := same_intersection_iff.mp h
      obtain ⟨_, rfl, hparts'⟩ := same_intersection_iff.mp h'
      exact same_intersection_iff.mpr ⟨_, rfl, sameList_trans hparts hparts'⟩
  | .null, _, _, h, h' => by
      obtain rfl := same_null_iff.mp h
      exact h'
  | .operator _ _, _, _, h, h' => by
      obtain ⟨_, rfl, hinner⟩ := same_operator_iff.mp h
      obtain ⟨_, rfl, hinner'⟩ := same_operator_iff.mp h'
      exact same_operator_iff.mpr ⟨_, rfl, same_trans hinner hinner'⟩
  | .typeLiteral _, _, _, h, h' => by
      obtain ⟨_, rfl, hmembers⟩ := same_typeLiteral_iff.mp h
      obtain ⟨_, rfl, hmembers'⟩ := same_typeLiteral_iff.mp h'
      exact same_typeLiteral_iff.mpr ⟨_, rfl, sameMembers_trans hmembers hmembers'⟩

theorem sameList_trans : ∀ {as bs cs : List Expr},
    sameList as bs = true → sameList bs cs = true → sameList as cs = true
  | [], _, _, h, h' => by
      obtain rfl := sameList_nil_iff.mp h
      exact h'
  | _ :: _, _, _, h, h' => by
      obtain ⟨_, _, rfl, hfirst, hrest⟩ := sameList_cons_iff.mp h
      obtain ⟨_, _, rfl, hfirst', hrest'⟩ := sameList_cons_iff.mp h'
      exact sameList_cons_iff.mpr
        ⟨_, _, rfl, same_trans hfirst hfirst', sameList_trans hrest hrest'⟩

theorem sameMembers_trans : ∀ {as bs cs : List (PropertyOf Expr)},
    sameMembers as bs = true → sameMembers bs cs = true → sameMembers as cs = true
  | [], _, _, h, h' => by
      obtain rfl := sameMembers_nil_iff.mp h
      exact h'
  | ⟨_, _, _, _, _⟩ :: _, _, _, h, h' => by
      obtain ⟨_, _, rfl, htype, hrest⟩ := sameMembers_cons_iff.mp h
      obtain ⟨_, _, rfl, htype', hrest'⟩ := sameMembers_cons_iff.mp h'
      exact sameMembers_cons_iff.mpr
        ⟨_, _, rfl, same_trans htype htype', sameMembers_trans hrest hrest'⟩

end

theorem sameOption_symm : ∀ {a b : Option Expr}, sameOption a b = true → sameOption b a = true
  | none, none, h => h
  | some _, some _, h => same_symm h

theorem sameOption_trans : ∀ {a b c : Option Expr},
    sameOption a b = true → sameOption b c = true → sameOption a c = true
  | none, none, _, _, h' => h'
  | some _, some _, some _, h, h' => same_trans h h'

end Expr

/-! ### What no element before repeats -/

/-- The elements of a list that no element before them in the list is repeated by. -/
def firstOnly {α : Type} (repeats : α → α → Bool) (l : List α) : List α :=
  (l.zipIdx.filter fun x => !(l.take x.2).any fun before => repeats before x.1).map Prod.fst

theorem firstOnly_concat {α : Type} (repeats : α → α → Bool) (l : List α) (a : α) :
    firstOnly repeats (l ++ [a]) =
      firstOnly repeats l ++ if l.any (repeats · a) then [] else [a] := by
  have hfront : (l.zipIdx.filter fun x => !((l ++ [a]).take x.2).any (repeats · x.1)) =
      l.zipIdx.filter fun x => !(l.take x.2).any (repeats · x.1) := by
    refine List.filter_congr fun x hx => ?_
    have hindex : x.2 < l.length := by simpa using List.snd_lt_add_of_mem_zipIdx hx
    rw [List.take_append_of_le_length (Nat.le_of_lt hindex)]
  rw [firstOnly, firstOnly, List.zipIdx_append, List.filter_append, List.map_append, hfront]
  congr 1
  by_cases ha : l.any (repeats · a) = true <;> simp [ha]

namespace Expr

/-- Whether an arm of a union is superfluous behind another: a literal behind one of the same value, or
a primitive type behind itself. No other arm ever is. -/
def repeats : Expr → Expr → Bool
  | .literal value, .literal value' => value.same value'
  | .keyword word, .keyword word' => word == word'
  | _, _ => false

/-- A union without the literals and primitive types that it has already. -/
def withoutRepeats : Expr → Expr
  | .union arms => .union (firstOnly repeats arms)
  | e => e

theorem repeats_eq (before arm : Expr) : repeats before arm = (arm.isPlain && same before arm) := by
  cases arm <;> cases before <;> rfl

theorem distinctArms_concat (kept arms : List Expr) (arm : Expr) :
    distinctArms kept (arms ++ [arm]) = distinctArms kept arms ++
      if arm.isPlain && (distinctArms kept arms).any (same arm) then [] else [arm] := by
  induction arms generalizing kept with
  | nil =>
      show (if arm.isPlain && kept.any (same arm) then kept else kept ++ [arm]) =
        kept ++ if arm.isPlain && kept.any (same arm) then [] else [arm]
      by_cases hrepeated : (arm.isPlain && kept.any (same arm)) = true
      · rw [if_pos hrepeated, if_pos hrepeated, List.append_nil]
      · rw [if_neg hrepeated, if_neg hrepeated]
  | cons first rest ih =>
      simp only [List.cons_append, distinctArms]
      split
      · exact ih kept
      · exact ih (kept ++ [first])

/-- An arm that is removed is the same as one that stays. -/
theorem exists_same_of_mem_arms {arms : List Expr} {arm : Expr} (h : arm ∈ arms) :
    arm ∈ distinctArms [] arms ∨ ∃ k ∈ distinctArms [] arms, same arm k = true := by
  induction arms using List.reverseRecOn with
  | nil => cases h
  | append_singleton arms last ih =>
      rw [distinctArms_concat]
      rcases List.mem_append.mp h with harm | hlast
      · rcases ih harm with hkept | ⟨k, hk, hsame⟩
        · exact .inl (List.mem_append_left _ hkept)
        · exact .inr ⟨k, List.mem_append_left _ hk, hsame⟩
      · obtain rfl := List.mem_singleton.mp hlast
        split
        · rename_i hrepeated
          obtain ⟨-, hany⟩ := Bool.and_eq_true_iff.mp hrepeated
          obtain ⟨k, hk, hsame⟩ := List.any_eq_true.mp hany
          exact .inr ⟨k, List.mem_append_left _ hk, hsame⟩
        · exact .inl (List.mem_append_right _ List.mem_cons_self)

/-- It does not matter whether an arm is compared with all arms before it or with those that stay. -/
theorem any_distinctArms (arms : List Expr) (arm : Expr) :
    (arm.isPlain && (distinctArms [] arms).any (same arm)) = arms.any (repeats · arm) := by
  rw [Bool.eq_iff_iff, Bool.and_eq_true, List.any_eq_true, List.any_eq_true]
  simp only [repeats_eq, Bool.and_eq_true]
  constructor
  · rintro ⟨hplain, k, hk, hsame⟩
    exact ⟨k, (mem_of_mem_distinctArms hk).resolve_left List.not_mem_nil, hplain, same_symm hsame⟩
  · rintro ⟨before, hbefore, hplain, hsame⟩
    refine ⟨hplain, ?_⟩
    rcases exists_same_of_mem_arms hbefore with hkept | ⟨k, hk, hk'⟩
    · exact ⟨before, hkept, same_symm hsame⟩
    · exact ⟨k, hk, same_trans (same_symm hsame) hk'⟩

theorem distinctArms_eq_firstOnly (arms : List Expr) :
    distinctArms [] arms = firstOnly repeats arms := by
  induction arms using List.reverseRecOn with
  | nil => rfl
  | append_singleton arms arm ih =>
      rw [distinctArms_concat, any_distinctArms, ih, firstOnly_concat]

theorem withDistinctArms_eq_withoutRepeats (e : Expr) : e.withDistinctArms = e.withoutRepeats := by
  cases e with
  | union arms => exact congrArg Expr.union (distinctArms_eq_firstOnly arms)
  | _ => rfl

end Expr

/-! ### Merging -/

namespace TypeParameter

variable {kept merged params simplified : List TypeParameter} {p q : TypeParameter}

theorem merge_append (kept params rest : List TypeParameter) :
    merge kept (params ++ rest) = merge kept params >>= fun merged => merge merged rest := by
  induction params generalizing kept with
  | nil => rfl
  | cons p params ih =>
      rw [List.cons_append, merge, merge]
      cases kept.find? (fun k => k.name.emitted == p.tidy.name.emitted) with
      | none => exact ih _
      | some k =>
          simp only
          split
          · exact ih kept
          · rfl

/-- The parameter of a name among those that are kept. -/
def find? (kept : List TypeParameter) (name : String) : Option TypeParameter :=
  kept.find? fun k => k.key == name

theorem find?_eq_none_iff {name : String} :
    find? kept name = none ↔ ∀ k ∈ kept, k.key ≠ name :=
  find?_key_eq_none_iff

theorem of_find?_eq_some {name : String} {k : TypeParameter} (h : find? kept name = some k) :
    k ∈ kept ∧ k.key = name :=
  ⟨List.mem_of_find?_eq_some h, by simpa using List.find?_some h⟩

theorem merge_singleton_of_new (h : find? kept p.key = none) :
    merge kept [p] = .ok (kept ++ [p.tidy]) := by
  have hfind : kept.find? (fun k => k.name.emitted == p.tidy.name.emitted) = none := h
  simp only [merge, hfind]

theorem merge_singleton_of_known {k : TypeParameter} (h : find? kept p.key = some k) :
    merge kept [p] = if Expr.sameOption k.constraint p.tidy.constraint then .ok kept
      else .error (.typeParameterCollision p.key) := by
  have hfind : kept.find? (fun k => k.name.emitted == p.tidy.name.emitted) = some k := h
  simp only [merge, hfind]
  rfl

/-- The last parameter of a list has a new name and is appended, or it is the same as what is kept of
its name. -/
theorem merge_concat_cases (h : merge kept (params ++ [p]) = .ok merged) :
    ∃ mid, merge kept params = .ok mid ∧
      (find? mid p.key = none ∧ merged = mid ++ [p.tidy] ∨ ∃ k, find? mid p.key = some k ∧
        Expr.sameOption k.constraint p.tidy.constraint = true ∧ merged = mid) := by
  rw [merge_append] at h
  obtain ⟨mid, hmid, hlast⟩ := bind_eq_ok_iff.mp h
  refine ⟨mid, hmid, ?_⟩
  cases hfind : find? mid p.key with
  | none =>
      rw [merge_singleton_of_new hfind] at hlast
      cases hlast
      exact .inl ⟨rfl, rfl⟩
  | some k =>
      rw [merge_singleton_of_known hfind] at hlast
      split at hlast
      · rename_i hsame
        cases hlast
        exact .inr ⟨k, rfl, hsame, rfl⟩
      · cases hlast

/-- Tidying a parameter makes no difference to what it is merged into. -/
theorem merge_tidy (kept : List TypeParameter) (p : TypeParameter) :
    merge kept [p.tidy] = merge kept [p] := by
  simp only [merge, tidy_idem]

theorem find?_merge {name : String} {k : TypeParameter} (h : merge kept params = .ok merged)
    (hk : find? kept name = some k) : find? merged name = some k := by
  induction params using List.reverseRecOn generalizing merged with
  | nil =>
      cases h
      exact hk
  | append_singleton params p ih =>
      obtain ⟨mid, hmid, ⟨-, rfl⟩ | ⟨k', -, -, rfl⟩⟩ := merge_concat_cases h
      · rw [find?, List.find?_append]
        exact congrArg (Option.or · _) (ih hmid)
      · exact ih hmid

/-- Every merged parameter is represented by what is kept of its name: itself, or one of the same
constraint. -/
theorem exists_find?_of_merge (h : merge kept params = .ok merged) (hp : p ∈ params) :
    ∃ k, find? merged p.key = some k ∧
      (k = p.tidy ∨ Expr.sameOption k.constraint p.tidy.constraint = true) := by
  induction params using List.reverseRecOn generalizing merged with
  | nil => cases hp
  | append_singleton params last ih =>
      obtain ⟨mid, hmid, hlast⟩ := merge_concat_cases h
      rcases List.mem_append.mp hp with hp | hp
      · obtain ⟨k, hk, hsame⟩ := ih hmid hp
        rw [merge_append, hmid] at h
        exact ⟨k, find?_merge h hk, hsame⟩
      · obtain rfl := List.mem_singleton.mp hp
        rcases hlast with ⟨hnew, rfl⟩ | ⟨k, hk, hsame, rfl⟩
        · refine ⟨p.tidy, ?_, .inl rfl⟩
          rw [find?, List.find?_append, ← find?, hnew]
          simp [key]
        · exact ⟨k, hk, .inr hsame⟩

/-- What was merged is the same as what comes, if that is the same as what is kept of its name. -/
theorem same_of_find? {k : TypeParameter} (h : merge kept params = .ok merged) (hp : p ∈ params)
    (hk : find? merged p.key = some k) {bound : Option Expr}
    (hsame : Expr.sameOption k.constraint bound = true) :
    Expr.sameOption p.tidy.constraint bound = true := by
  obtain ⟨k', hk', hrepresents⟩ := exists_find?_of_merge h hp
  obtain rfl : k' = k := Option.some.inj (hk'.symm.trans hk)
  rcases hrepresents with rfl | hrepresents
  · exact hsame
  · exact Expr.sameOption_trans (Expr.sameOption_symm hrepresents) hsame

/-! ### Collisions -/

/-- Two parameters of one name with different constraints. -/
def Collides (p q : TypeParameter) : Prop :=
  p.name.emitted = q.name.emitted ∧ Expr.sameOption (p.constraint.map Expr.withoutRepeats)
    (q.constraint.map Expr.withoutRepeats) = false

theorem tidy_constraint (p : TypeParameter) :
    p.tidy.constraint = p.constraint.map Expr.withoutRepeats := by
  have hforms : Expr.withDistinctArms = Expr.withoutRepeats :=
    funext Expr.withDistinctArms_eq_withoutRepeats
  simp only [tidy, hforms]

theorem not_collides_iff : ¬p.Collides q ↔ p.Agrees q := by
  simp only [Collides, Agrees, ← tidy_constraint, key, not_and, Bool.not_eq_false]

/-- A list simplifies exactly when no two of its parameters collide. -/
theorem exists_simplify_iff :
    (∃ simplified, simplify params = .ok simplified) ↔ params.Pairwise Agrees := by
  induction params using List.reverseRecOn with
  | nil => exact ⟨fun _ => .nil, fun _ => ⟨[], rfl⟩⟩
  | append_singleton params p ih =>
      simp only [List.pairwise_append, List.pairwise_singleton, List.forall_mem_singleton, true_and,
        ← ih]
      constructor
      · rintro ⟨simplified, h⟩
        obtain ⟨mid, hmid, hlast⟩ := merge_concat_cases h
        refine ⟨⟨mid, hmid⟩, fun q hq hkey => ?_⟩
        obtain ⟨k, hk, -⟩ := exists_find?_of_merge hmid hq
        rcases hlast with ⟨hnew, -⟩ | ⟨k, hk, hsame, -⟩
        · rw [← hkey, hk] at hnew
          cases hnew
        · exact same_of_find? hmid hq (hkey ▸ hk) hsame
      · rintro ⟨⟨mid, hmid⟩, hagree⟩
        rw [simplify] at hmid
        simp only [simplify, merge_append, hmid, bind_eq_ok_iff, Except.ok.injEq, exists_eq_left']
        cases hfind : find? mid p.key with
        | none => exact ⟨_, merge_singleton_of_new hfind⟩
        | some k =>
            obtain ⟨hk, hkey⟩ := of_find?_eq_some hfind
            obtain ⟨q, hq, rfl⟩ := exists_tidy_of_simplify hmid hk
            rw [merge_singleton_of_known hfind, if_pos (hagree q hq hkey)]
            exact ⟨mid, rfl⟩

theorem pairwise_agrees_iff : params.Pairwise Agrees ↔ ¬∃ (i j : Nat) (p q : TypeParameter),
    i < j ∧ params[i]? = some p ∧ params[j]? = some q ∧ p.Collides q := by
  rw [List.pairwise_iff_getElem]
  simp only [← not_collides_iff]
  constructor
  · rintro h ⟨i, j, p, q, hij, hp, hq, hcollides⟩
    obtain ⟨hi, rfl⟩ := List.getElem?_eq_some_iff.mp hp
    obtain ⟨hj, rfl⟩ := List.getElem?_eq_some_iff.mp hq
    exact h i j hi hj hij hcollides
  · intro h i j hi hj hij hcollides
    exact h ⟨i, j, _, _, hij, List.getElem?_eq_getElem hi, List.getElem?_eq_getElem hj, hcollides⟩

/-! ### The simplified list -/

/-- What simplifying leaves of a list: the first parameter of each name, its constraint without the
arms that it has already. -/
def firstOfEach (params : List TypeParameter) : List TypeParameter :=
  (firstOnly (fun p q => p.name.emitted == q.name.emitted) params).map fun p =>
    { p with constraint := p.constraint.map Expr.withoutRepeats }

theorem firstOfEach_concat (params : List TypeParameter) (p : TypeParameter) :
    firstOfEach (params ++ [p]) = firstOfEach params ++
      if params.any (fun q => q.key == p.key) then [] else [p.tidy] := by
  have hparam : p.tidy = { p with constraint := p.constraint.map Expr.withoutRepeats } := by
    rw [← tidy_constraint]
    rfl
  rw [firstOfEach, firstOnly_concat, List.map_append, ← firstOfEach, hparam]
  congr 1
  unfold key
  split <;> rfl

theorem simplify_eq_firstOfEach (h : simplify params = .ok simplified) :
    simplified = firstOfEach params := by
  induction params using List.reverseRecOn generalizing simplified with
  | nil =>
      cases h
      rfl
  | append_singleton params p ih =>
      obtain ⟨mid, hmid, hlast⟩ := merge_concat_cases h
      rw [firstOfEach_concat, ← ih hmid]
      rcases hlast with ⟨hnew, rfl⟩ | ⟨k, hfind, -, rfl⟩
      · rw [if_neg]
        intro hany
        obtain ⟨q, hq, hkey⟩ := List.any_eq_true.mp hany
        obtain ⟨k, hk, -⟩ := exists_find?_of_merge hmid hq
        rw [eq_of_beq hkey, hnew] at hk
        cases hk
      · obtain ⟨hk, hkey⟩ := of_find?_eq_some hfind
        obtain ⟨q, hq, rfl⟩ := exists_tidy_of_simplify hmid hk
        have hany : params.any (fun q => q.key == p.key) = true :=
          List.any_eq_true.mpr ⟨q, hq, beq_iff_eq.mpr hkey⟩
        rw [if_pos hany, List.append_nil]

theorem nodup_simplify (h : simplify params = .ok simplified) : (simplified.map key).Nodup := by
  induction params using List.reverseRecOn generalizing simplified with
  | nil =>
      cases h
      exact .nil
  | append_singleton params p ih =>
      obtain ⟨mid, hmid, ⟨hnew, rfl⟩ | ⟨k, -, -, rfl⟩⟩ := merge_concat_cases h
      · rw [List.map_append, List.nodup_append]
        refine ⟨ih hmid, by simp, ?_⟩
        simp only [List.mem_map, List.mem_singleton, List.map_cons, List.map_nil]
        rintro _ ⟨k, hk, rfl⟩ _ rfl
        exact find?_eq_none_iff.mp hnew k hk
      · exact ih hmid

theorem tidy_of_mem_simplify (h : simplify params = .ok simplified) (hq : q ∈ simplified) :
    q.tidy = q := by
  obtain ⟨p, -, rfl⟩ := exists_tidy_of_simplify h hq
  exact tidy_idem p

/-- A simplified list is simplified already. -/
theorem simplify_simplified (h : simplify params = .ok simplified) :
    simplify simplified = .ok simplified := by
  have hnew : ∀ q ∈ simplified, ∀ k ∈ ([] : List TypeParameter), k.key ≠ q.key :=
    fun _ _ => List.forall_mem_nil _
  have happend := merge_append_of_new [] (nodup_simplify h) hnew
  rw [List.append_nil, List.nil_append, List.map_congr_left fun q hq => tidy_of_mem_simplify h hq,
    List.map_id'] at happend
  exact happend

/-- Merging a list and merging what it simplifies to come to the same. -/
theorem merge_simplified (h : simplify params = .ok simplified) (kept : List TypeParameter) :
    merge kept simplified = merge kept params := by
  induction params using List.reverseRecOn generalizing simplified with
  | nil =>
      cases h
      rfl
  | append_singleton params p ih =>
      obtain ⟨mid, hmid, hlast⟩ := merge_concat_cases h
      rw [merge_append kept params, ← ih hmid]
      rcases hlast with ⟨-, rfl⟩ | ⟨k, hfind, hsame, rfl⟩
      · simp only [merge_append, merge_tidy]
      · obtain ⟨hk, hkey⟩ := of_find?_eq_some hfind
        cases hmerged : merge kept simplified with
        | error e => rfl
        | ok merged =>
            -- what is kept of the name is the same as `k`, and so the same as `p`
            obtain ⟨k', hk', hrepresents⟩ := exists_find?_of_merge hmerged hk
            rw [hkey] at hk'
            rw [tidy_of_mem_simplify hmid hk] at hrepresents
            have hsame' : Expr.sameOption k'.constraint p.tidy.constraint = true := by
              rcases hrepresents with rfl | hrepresents
              · exact hsame
              · exact Expr.sameOption_trans hrepresents hsame
            exact (merge_singleton_of_known hk').trans (if_pos hsame') |>.symm

/-- Simplifying fails exactly when two parameters of one name have different constraints, literals
and primitive types counted once in each. Otherwise it leaves the first parameter of each name, in
order, which simplifies to itself, and simplifying a part of a longer list beforehand changes neither
what that list simplifies to nor the name that it fails with. Numbers are compared as numbers. -/
theorem simplify_canonical (params : List TypeParameter) :
    ((∃ name, simplify params = .error (.typeParameterCollision name)) ↔
      ∃ (i j : Nat) (p q : TypeParameter), i < j ∧ params[i]? = some p ∧ params[j]? = some q ∧
        p.Collides q) ∧
    ((∃ name, simplify params = .error (.typeParameterCollision name)) ∨
      simplify params = .ok (firstOfEach params) ∧
      ((firstOfEach params).map fun q => q.name.emitted).Nodup ∧
      simplify (firstOfEach params) = .ok (firstOfEach params) ∧
      ∀ before after, simplify (before ++ firstOfEach params ++ after) =
        simplify (before ++ params ++ after)) ∧
    ∀ x y : Double, Expr.same (.literal (.float x)) (.literal (.float y)) = true ↔
      x.isNaN = false ∧ y.isNaN = false ∧ (x = y ∨ x.isZero = true ∧ y.isZero = true) := by
  have hcollision := (@pairwise_agrees_iff params).symm.trans exists_simplify_iff.symm
  refine ⟨?_, ?_, fun x y => ?_⟩
  · rw [← not_iff_not, hcollision]
    cases h : simplify params with
    | ok simplified => simp
    | error e =>
        obtain ⟨name, rfl⟩ := merge_eq_error h
        simp
  · cases h : simplify params with
    | error e =>
        obtain ⟨name, rfl⟩ := merge_eq_error h
        exact .inl ⟨name, rfl⟩
    | ok simplified =>
        obtain rfl := simplify_eq_firstOfEach h
        refine .inr ⟨rfl, nodup_simplify h, simplify_simplified h, fun before after => ?_⟩
        simp only [simplify, merge_append, merge_simplified h]
  · rw [Expr.same_literal_iff]
    simp [Literal.same, Double.same_iff]

/-- Repeated literals and primitive types count once, other arms as often as they are there. -/
theorem simplify_canonical_repeated : simplify [
    { name := { name := "K" }, constraint := some (
        .union [.keyword .string, .literal (.int 1), .null, .null, .literal (.int 1)]) },
    { name := { name := "V" } },
    { name := { name := "K" }, constraint := some (
        .union [.keyword .string, .keyword .string, .literal (.int 1), .null, .null]) }] = .ok [
    { name := { name := "K" }, constraint := some (
        .union [.keyword .string, .literal (.int 1), .null, .null]) },
    { name := { name := "V" } }] := by
  obtain ⟨-, ⟨name, hfails⟩ | ⟨hsimplified, -⟩, -⟩ := simplify_canonical [
    { name := { name := "K" }, constraint := some (
        .union [.keyword .string, .literal (.int 1), .null, .null, .literal (.int 1)]) },
    { name := { name := "V" } },
    { name := { name := "K" }, constraint := some (
        .union [.keyword .string, .keyword .string, .literal (.int 1), .null, .null]) }]
  · cases hfails
  · exact hsimplified

/-- A constraint that is no number differs even from itself. -/
example : simplify [{ name := { name := "T" }, constraint := some (.literal (.float .nan)) },
    { name := { name := "T" }, constraint := some (.literal (.float .nan)) }] =
      .error (.typeParameterCollision "T") := by rfl

end TypeParameter

end TypeBridge
