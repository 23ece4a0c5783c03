import TypeBridge.Proofs.EmptyUnions
import TypeBridge.Proofs.Meaning

/-!
Unions and intersections of one member. Nothing of them is printed but the member, and what an
expression stands for has the member in their place. The printer looks at them alone, though, when it
decides whether an operand wants parentheses, and leaves out those that the member of a member wants.
Where no operand lacks its parentheses the text of an expression means what the expression stands for.
-/

namespace TypeBridge

namespace Expr

variable {e : Expr}

/-! ### Members in place of what holds nothing else -/

/-- Takes the member of a union or an intersection of one in its place. -/
def loneStep : Expr → Expr
  | .union [e] => e
  | .intersection [e] => e
  | e => e

/-- The expression with the member in place of every union and every intersection of one. -/
def collapsed (e : Expr) : Expr := e.mapSubterms loneStep

theorem collapsed_eq (e : Expr) : e.collapsed = loneStep (e.mapChildren collapsed) :=
  mapSubterms_eq loneStep e

theorem loneStep_cases (e : Expr) : loneStep e = e ∨ loneStep e ∈ e.children := by
  unfold loneStep
  split
  · exact .inr (List.mem_singleton_self _)
  · exact .inr (List.mem_singleton_self _)
  · exact .inl rfl

/-- What a step keeps if it holds of all expressions inside an expression. -/
theorem forall_subterms_loneStep {P : Expr → Prop} (h : ∀ t ∈ e.subterms, P t) :
    ∀ t ∈ (loneStep e).subterms, P t := by
  rcases loneStep_cases e with hself | hchild
  · rwa [hself]
  · exact (forall_subterms_iff.mp h).1 _ hchild

theorem isSolid_true_mapChildren (f : Expr → Expr) (e : Expr) :
    (e.mapChildren f).isSolid true = e.isSolid true := by
  cases e <;> simp [mapChildren, isSolid]

theorem Solid.collapsed (h : e.Solid true) : e.collapsed.Solid true :=
  forall_subterms_mapSubterms (fun e hself => (isSolid_true_mapChildren _ e).trans hself)
    (fun _ => forall_subterms_loneStep) h

/-- No union and no intersection of one member is left. -/
theorem loneStep_of_mem_collapsed (e : Expr) : ∀ t ∈ e.collapsed.subterms, loneStep t = t := by
  refine eq_self_of_mem_mapSubterms (fun e t ht => ?_) e
  rcases loneStep_cases e with hself | hchild
  · rw [hself, subterms_eq, List.mem_append, List.mem_flatMap, List.mem_singleton] at ht
    rcases ht with hinside | rfl
    · exact .inr hinside
    · exact .inl hself
  · exact .inr ⟨_, hchild, ht⟩

theorem collapsed_collapsed (e : Expr) : e.collapsed.collapsed = e.collapsed :=
  mapSubterms_eq_self e.loneStep_of_mem_collapsed

/-- The type that an expression stands for, without unions directly in unions and intersections
directly in intersections. -/
def meant (e : Expr) : Expr := e.collapsed.flattened

theorem meant_eq (h : loneStep (e.mapChildren collapsed) = e.mapChildren collapsed) :
    e.meant = flattenStep (e.mapChildren meant) := by
  rw [meant, collapsed_eq, h, flattened_eq, mapChildren_mapChildren]
  rfl

theorem meant_union_singleton (e : Expr) : (union [e]).meant = e.meant := by
  rw [meant, collapsed_eq]
  rfl

theorem meant_intersection_singleton (e : Expr) : (intersection [e]).meant = e.meant := by
  rw [meant, collapsed_eq]
  rfl

theorem meant_collapsed (e : Expr) : e.collapsed.meant = e.meant :=
  congrArg flattened e.collapsed_collapsed

/-! ### Strength of a text -/

theorem ne_of_mem_children {child : Expr} (h : child ∈ e.children) : child ≠ e := fun heq =>
  Nat.lt_irrefl _ (heq ▸ sizeOf_lt_of_mem_children h)

/-- How strongly the text of an expression binds, if parentheses stand wherever they must. -/
def strength : Expr → Strength
  | .union [e] => e.strength
  | .union _ => .union
  | .intersection [e] => if e.isUnion then .bracket else e.strength
  | .intersection _ => .intersection
  | .operator _ _ => .operator
  | _ => .bracket

/-- An operand that is printed without parentheses and binds too weakly for its place. -/
def isExposed : Expr → Bool
  | .array elem => !elem.needsParens && elem.strength != .bracket
  | .operator _ inner =>
      !inner.needsParens && (inner.strength == .union || inner.strength == .intersection)
  | _ => false

/-- Somewhere inside an expression an operand lacks its parentheses. -/
def Exposed (e : Expr) : Prop := ∃ t ∈ e.subterms, t.isExposed = true

instance (e : Expr) : Decidable e.Exposed :=
  inferInstanceAs (Decidable (∃ t ∈ e.subterms, t.isExposed = true))

theorem not_exposed_iff :
    ¬ e.Exposed ↔ (∀ child ∈ e.children, ¬ child.Exposed) ∧ e.isExposed = false := by
  simp only [Exposed, not_exists, not_and, Bool.not_eq_true]
  exact forall_subterms_iff

theorem strength_ne_union (h : e.isUnion = false) : e.strength ≠ .union := by
  fun_induction strength e with
  | case1 => cases h
  | case2 => cases h
  | case4 e hpart ih => exact ih (Bool.eq_false_iff.mpr hpart)
  | _ => exact nofun

/-- Where no union and no intersection has one member, all weak operands stand in parentheses. -/
theorem strength_of_not_lone (hlone : loneStep e = e) (hsolid : e.isSolid true = true)
    (hparens : e.needsParens = false) : e.strength = .bracket := by
  cases e with
  | union arms =>
      rcases arms with _ | ⟨arm, _ | ⟨_, _⟩⟩
      · cases hsolid
      · exact absurd hlone (ne_of_mem_children (List.mem_singleton_self arm))
      · simp [needsParens] at hparens
  | intersection parts =>
      rcases parts with _ | ⟨part, _ | ⟨_, _⟩⟩
      · cases hsolid
      · exact absurd hlone (ne_of_mem_children (List.mem_singleton_self part))
      · simp [needsParens] at hparens
  | operator => cases hparens
  | _ => rfl

theorem not_exposed_of_not_lone (h : ∀ t ∈ e.subterms, loneStep t = t ∧ t.isSolid true = true) :
    ¬ e.Exposed := by
  induction e using children_induction with
  | inherited e ih =>
      have hchildren := (forall_subterms_iff.mp h).1
      refine not_exposed_iff.mpr ⟨fun child hchild => ih child hchild (hchildren child hchild), ?_⟩
      have hoperand : ∀ child ∈ e.children, child.needsParens = false → child.strength = .bracket :=
        fun child hchild hparens =>
          have hself := (forall_subterms_iff.mp (hchildren child hchild)).2
          strength_of_not_lone hself.1 hself.2 hparens
      cases e with
      | array elem =>
          have helem := hoperand elem (List.mem_singleton_self _)
          cases hparens : elem.needsParens <;> simp_all [isExposed]
      | operator op inner =>
          have hinner := hoperand inner (List.mem_singleton_self _)
          cases hparens : inner.needsParens <;> simp_all [isExposed]
      | _ => rfl

theorem not_exposed_collapsed (h : e.Solid true) : ¬ e.collapsed.Exposed :=
  not_exposed_of_not_lone fun t ht => ⟨e.loneStep_of_mem_collapsed t ht, h.collapsed t ht⟩

end Expr

/-! ### What printed texts mean -/

section Printed

variable {style : Style} {depth : Nat} {k : Strength} {s : String} {e t : Expr} {es : List Expr}
  {texts : List String}

theorem forall₂_exprs (hs : style.exprs depth es = .ok texts) :
    List.Forall₂ (fun e s => style.expr depth e = .ok s) es texts := by
  induction es generalizing texts with
  | nil =>
      cases hs
      exact .nil
  | cons e es ih =>
      obtain ⟨s, htext, hlist⟩ := bind_eq_ok_iff.mp hs
      obtain ⟨rest, hrest, htexts⟩ := bind_eq_ok_iff.mp hlist
      cases htexts
      exact .cons htext (ih hrest)

theorem forall₂_intersectionParts (hs : style.intersectionParts depth es = .ok texts) :
    List.Forall₂ (fun e s => ∃ text, style.expr depth e = .ok text ∧
      s = if e.isUnion then parenthesized text else text) es texts := by
  induction es generalizing texts with
  | nil =>
      cases hs
      exact .nil
  | cons e es ih =>
      obtain ⟨s, htext, hlist⟩ := bind_eq_ok_iff.mp hs
      obtain ⟨rest, hrest, htexts⟩ := bind_eq_ok_iff.mp hlist
      cases htexts
      exact .cons ⟨s, htext, rfl⟩ (ih hrest)

theorem exists_lines {members : List Property} (hs : style.properties depth members = .ok s) :
    ∃ lines, s = String.join lines ∧ List.Forall₂ (fun m line => ∃ text,
      style.expr depth m.type = .ok text ∧ line = style.memberLine depth (text, m)) members lines := by
  induction members generalizing s with
  | nil =>
      cases hs
      exact ⟨[], rfl, .nil⟩
  | cons m members ih =>
      obtain ⟨text, htext, hlist⟩ := bind_eq_ok_iff.mp hs
      obtain ⟨rest, hrest, hlines⟩ := bind_eq_ok_iff.mp hlist
      cases hlines
      obtain ⟨lines, rfl, hall⟩ := ih hrest
      exact ⟨_, String.join_cons.symm, .cons ⟨text, htext, rfl⟩ hall⟩

theorem Means.weaken (h : Means style depth k s t) : Means style depth .union s t := by
  cases k with
  | union => exact h
  | intersection => exact h.ofIntersection
  | operator => exact h.ofOperator.ofIntersection
  | bracket => exact h.ofBracket.ofOperator.ofIntersection

theorem Means.of_ne_union (h : Means style depth k s t) (hk : k ≠ .union) :
    Means style depth .intersection s t := by
  cases k with
  | union => exact absurd rfl hk
  | intersection => exact h
  | operator => exact h.ofOperator
  | bracket => exact h.ofBracket.ofOperator

/-- An expression is printed as texts of the type that it stands for. -/
def Expr.PrintedAsMeant (style : Style) (e : Expr) : Prop :=
  ∀ depth s, style.expr depth e = .ok s → Means style depth e.strength s e.meant

/-- What the texts of a list come from, one by one. -/
theorem exists_map_eq {α β γ : Type} {f : γ → β} {S : α → γ → Prop} {xs : List α} {ys : List β}
    (h : List.Forall₂ (fun x y => ∃ z, f z = y ∧ S x z) xs ys) :
    ∃ zs, zs.map f = ys ∧ List.Forall₂ S xs zs := by
  induction h with
  | nil => exact ⟨[], rfl, .nil⟩
  | cons hfirst _ ih =>
      obtain ⟨z, rfl, hz⟩ := hfirst
      obtain ⟨zs, rfl, hzs⟩ := ih
      exact ⟨z :: zs, rfl, .cons hz hzs⟩

theorem map_eq_map_of_forall₂ {α β γ : Type} {f : α → γ} {g : β → γ} {S : α → β → Prop} {xs : List α}
    {ys : List β} (h : List.Forall₂ S xs ys) (himp : ∀ x y, S x y → g y = f x) :
    ys.map g = xs.map f := by
  induction h with
  | nil => rfl
  | cons hfirst _ ih => rw [List.map_cons, List.map_cons, himp _ _ hfirst, ih]

theorem forall_mem_of_forall₂ {α β : Type} {S : α → β → Prop} {P : β → Prop} {xs : List α}
    {ys : List β} (h : List.Forall₂ S xs ys) (himp : ∀ x y, S x y → P y) : ∀ y ∈ ys, P y := by
  induction h with
  | nil => exact nofun
  | cons hfirst _ ih => exact List.forall_mem_cons.mpr ⟨himp _ _ hfirst, ih⟩

/-- Texts of what some expressions stand for, beside what they stand for. -/
theorem exists_pairs (h : List.Forall₂ (fun e s => Means style depth k s e.meant) es texts) :
    ∃ pairs : List (String × Expr), pairs.map Prod.fst = texts ∧
      pairs.map Prod.snd = es.map Expr.meant ∧ ∀ p ∈ pairs, Means style depth k p.1 p.2 := by
  obtain ⟨pairs, htexts, hpairs⟩ := exists_map_eq (f := Prod.fst)
    (S := fun (e : Expr) (p : String × Expr) => Means style depth k p.1 p.2 ∧ p.2 = e.meant)
    (h.imp fun e s hs => ⟨(s, e.meant), rfl, hs, rfl⟩)
  exact ⟨pairs, htexts, map_eq_map_of_forall₂ hpairs fun _ _ h => h.2,
    forall_mem_of_forall₂ hpairs fun _ _ h => h.1⟩

theorem forall₂_means_exprs (h : ∀ e ∈ es, e.PrintedAsMeant style)
    (hs : style.exprs depth es = .ok texts) :
    List.Forall₂ (fun e s => Means style depth .union s e.meant) es texts :=
  (List.forall₂_and_left _ _).mpr ⟨h, forall₂_exprs hs⟩ |>.imp fun _ s h => (h.1 depth s h.2).weaken

theorem forall₂_means_intersectionParts (h : ∀ e ∈ es, e.PrintedAsMeant style)
    (hs : style.intersectionParts depth es = .ok texts) :
    List.Forall₂ (fun e s => Means style depth .intersection s e.meant) es texts := by
  refine (List.forall₂_and_left _ _).mpr ⟨h, forall₂_intersectionParts hs⟩ |>.imp ?_
  rintro e _ ⟨hprinted, text, htext, rfl⟩
  have hself := hprinted depth text htext
  cases hunion : e.isUnion with
  | true => exact hself.weaken.parenthesized.ofBracket.ofOperator
  | false => exact hself.of_ne_union (Expr.strength_ne_union hunion)

/-- Two texts or more with a separator between them mean a type with the members of their types, if
two of them do. -/
theorem means_joined {sep : String} {make : List Expr → Expr} {members : Expr → List Expr}
    (hjoin : ∀ {s s' t t'}, Means style depth k s t → Means style depth k s' t' →
      Means style depth k (s ++ sep ++ s') (make (members t ++ members t')))
    (hmake : ∀ ts, members (make ts) = ts) {p q : String × Expr} {pairs : List (String × Expr)}
    (h : ∀ p' ∈ p :: q :: pairs, Means style depth k p'.1 p'.2) :
    Means style depth k (String.intercalate sep ((p :: q :: pairs).map Prod.fst))
      (make (((p :: q :: pairs).map Prod.snd).flatMap members)) := by
  induction pairs generalizing p q with
  | nil =>
      have hboth := hjoin (h p List.mem_cons_self) (h q (List.mem_cons_of_mem _ List.mem_cons_self))
      simpa [String.intercalate_cons_cons] using hboth
  | cons q' pairs ih =>
      obtain ⟨hp, hrest⟩ := List.forall_mem_cons.mp h
      have hall := hjoin hp (ih hrest)
      rw [hmake] at hall
      simpa only [List.map_cons, List.flatMap_cons, String.intercalate_cons_cons] using hall

/-- The operand of brackets or an operator, in parentheses if it wants them. -/
theorem means_operand (h : e.PrintedAsMeant style) (hs : style.expr depth e = .ok s) :
    Means style depth (if e.needsParens then .bracket else e.strength)
      (if e.needsParens then parenthesized s else s) e.meant := by
  cases e.needsParens with
  | true => exact (h depth s hs).weaken.parenthesized
  | false => exact h depth s hs

end Printed

namespace Expr.PrintedAsMeant

variable {style : Style} {e : Expr} {es : List Expr}

theorem reference (name : Identifier) (h : ∀ arg ∈ es, arg.PrintedAsMeant style) :
    (reference name es).PrintedAsMeant style := by
  intro depth s hs
  obtain ⟨texts, htexts, htext⟩ := bind_eq_ok_iff.mp hs
  obtain ⟨pairs, rfl, htypes, hmeans⟩ := exists_pairs (forall₂_means_exprs h htexts)
  rw [meant_eq rfl, mapChildren, ← htypes]
  cases pairs with
  | nil =>
      cases htext
      exact .name name
  | cons p pairs =>
      cases htext
      exact .reference name (List.cons_ne_nil _ _) hmeans

theorem array (h : e.PrintedAsMeant style) (hexposed : (Expr.array e).isExposed = false) :
    (Expr.array e).PrintedAsMeant style := by
  intro depth s hs
  obtain ⟨text, htext, rfl⟩ := map_eq_ok_iff.mp hs
  have hoperand := means_operand h htext
  have hstrength : (if e.needsParens then .bracket else e.strength) = Strength.bracket := by
    cases hparens : e.needsParens <;> simp_all [isExposed]
  rw [hstrength] at hoperand
  rw [meant_eq rfl]
  exact hoperand.array

theorem operator (op : Operator) (h : e.PrintedAsMeant style)
    (hexposed : (Expr.operator op e).isExposed = false) :
    (Expr.operator op e).PrintedAsMeant style := by
  intro depth s hs
  obtain ⟨text, htext, rfl⟩ := map_eq_ok_iff.mp hs
  have hoperand := means_operand h htext
  have hstrength : (if e.needsParens then .bracket else e.strength) = Strength.bracket ∨
      (if e.needsParens then .bracket else e.strength) = Strength.operator := by
    cases hparens : e.needsParens <;> cases hstrength : e.strength <;> simp_all [isExposed]
  rw [meant_eq rfl]
  rcases hstrength with hstrength | hstrength
  · rw [hstrength] at hoperand
    exact hoperand.ofBracket.operator op
  · rw [hstrength] at hoperand
    exact hoperand.operator op

theorem tuple (length : Nat) (h : e.PrintedAsMeant style) :
    (Expr.tuple e length).PrintedAsMeant style := by
  intro depth s hs
  obtain ⟨text, htext, rfl⟩ := map_eq_ok_iff.mp hs
  rw [meant_eq rfl]
  exact .tuple length (h depth text htext).weaken

theorem arrayLiteral (h : ∀ item ∈ es, item.PrintedAsMeant style) :
    (Expr.arrayLiteral es).PrintedAsMeant style := by
  intro depth s hs
  obtain ⟨texts, htexts, rfl⟩ := map_eq_ok_iff.mp hs
  obtain ⟨pairs, rfl, htypes, hmeans⟩ := exists_pairs (forall₂_means_exprs h htexts)
  rw [meant_eq rfl, mapChildren, ← htypes]
  exact .arrayLiteral hmeans

theorem typeLiteral {members : List Property} (h : ∀ m ∈ members, m.type.PrintedAsMeant style) :
    (Expr.typeLiteral members).PrintedAsMeant style := by
  intro depth s hs
  cases members with
  | nil =>
      cases hs
      exact .noMembers
  | cons m members =>
      obtain ⟨lines, hlines, rfl⟩ := map_eq_ok_iff.mp hs
      obtain ⟨texts, rfl, hall⟩ := exists_lines hlines
      obtain ⟨pairs, rfl, hpairs⟩ := exists_map_eq (f := style.memberLine (depth + 1))
        (S := fun (m : Property) (p : String × Property) =>
          Means style (depth + 1) .union p.1 p.2.type ∧ p.2 = m.mapType meant)
        ((List.forall₂_and_left _ _).mpr ⟨h, hall⟩ |>.imp fun m line ⟨hm, text, htext, hline⟩ =>
          ⟨(text, m.mapType meant), hline.symm, (hm _ text htext).weaken, rfl⟩)
      have htypes := map_eq_map_of_forall₂ hpairs fun _ _ h => h.2
      have hne : pairs ≠ [] := by
        rintro rfl
        cases hpairs
      rw [meant_eq rfl, mapChildren, ← htypes]
      exact .typeLiteral hne (forall_mem_of_forall₂ hpairs fun _ _ h => h.1)

theorem union (hsolid : es ≠ []) (h : ∀ arm ∈ es, arm.PrintedAsMeant style) :
    (Expr.union es).PrintedAsMeant style := by
  intro depth s hs
  obtain ⟨texts, htexts, rfl⟩ := map_eq_ok_iff.mp hs
  match es, hsolid with
  | [arm], _ =>
      obtain ⟨s, htext, hlist⟩ := bind_eq_ok_iff.mp htexts
      cases hlist
      rw [String.intercalate_singleton, meant_union_singleton]
      exact h arm (List.mem_singleton_self arm) depth s htext
  | arm :: arm' :: arms, _ =>
      obtain ⟨pairs, rfl, htypes, hmeans⟩ := exists_pairs (forall₂_means_exprs h htexts)
      obtain ⟨p, pairs, rfl, -, htypes'⟩ := List.map_eq_cons_iff.mp htypes
      obtain ⟨q, pairs, rfl, -, -⟩ := List.map_eq_cons_iff.mp htypes'
      rw [meant_eq rfl, mapChildren, ← htypes, flattenStep]
      exact means_joined Means.union (fun _ => rfl) hmeans

theorem intersection (hsolid : es ≠ []) (h : ∀ part ∈ es, part.PrintedAsMeant style) :
    (Expr.intersection es).PrintedAsMeant style := by
  intro depth s hs
  obtain ⟨texts, htexts, rfl⟩ := map_eq_ok_iff.mp hs
  match es, hsolid with
  | [part], _ =>
      obtain ⟨s, htext, hlist⟩ := bind_eq_ok_iff.mp htexts
      cases hlist
      rw [String.intercalate_singleton, meant_intersection_singleton, strength]
      have hpart := h part (List.mem_singleton_self part) depth s htext
      cases part.isUnion with
      | true => exact hpart.weaken.parenthesized
      | false => exact hpart
  | part :: part' :: parts, _ =>
      obtain ⟨pairs, rfl, htypes, hmeans⟩ := exists_pairs (forall₂_means_intersectionParts h htexts)
      obtain ⟨p, pairs, rfl, -, htypes'⟩ := List.map_eq_cons_iff.mp htypes
      obtain ⟨q, pairs, rfl, -, -⟩ := List.map_eq_cons_iff.mp htypes'
      rw [meant_eq rfl, mapChildren, ← htypes, flattenStep]
      exact means_joined Means.intersection (fun _ => rfl) hmeans

end Expr.PrintedAsMeant

namespace Expr

/-- Where no operand lacks its parentheses, an expression is printed as what it stands for. -/
theorem printedAsMeant (style : Style) {e : Expr} (hsolid : e.Solid true) (hexposed : ¬ e.Exposed) :
    e.PrintedAsMeant style := by
  induction e using children_induction with
  | inherited e ih =>
      obtain ⟨hsolids, hself⟩ := solid_iff.mp hsolid
      obtain ⟨hcovered, htop⟩ := not_exposed_iff.mp hexposed
      have hprinted : ∀ child ∈ e.children, child.PrintedAsMeant style := fun child hchild =>
        ih child hchild (hsolids child hchild) (hcovered child hchild)
      cases e with
      | keyword word =>
          intro depth s hs
          cases hs
          exact .keyword word
      | literal value => exact fun depth s hs => .literal hs
      | null =>
          intro depth s hs
          cases hs
          exact .null
      | reference name args => exact .reference name hprinted
      | array elem => exact .array (hprinted elem (List.mem_singleton_self _)) htop
      | tuple elem length => exact .tuple length (hprinted elem (List.mem_singleton_self _))
      | arrayLiteral items => exact .arrayLiteral hprinted
      | union arms => exact .union (by rintro rfl; cases hself) hprinted
      | intersection parts => exact .intersection (by rintro rfl; cases hself) hprinted
      | operator op inner => exact .operator op (hprinted inner (List.mem_singleton_self _)) htop
      | typeLiteral members => exact .typeLiteral (List.forall_mem_map.mp hprinted)

end Expr

/-! ### What cannot be printed -/

/-- The error of a computation that has none of its results. -/
def errorOf {ε α : Type} : Except ε α → Option ε
  | .error e => some e
  | .ok _ => none

theorem errorOf_map {ε α β : Type} (x : Except ε α) (f : α → β) : errorOf (x.map f) = errorOf x := by
  cases x <;> rfl

theorem errorOf_bind {ε α β : Type} {x : Except ε α} {f : α → Except ε β} {error : Option ε}
    (h : ∀ a, errorOf (f a) = error) : errorOf (x >>= f) = (errorOf x).or error := by
  cases x with
  | error e => rfl
  | ok a => exact h a

theorem errorOf_eq_none_iff {ε α : Type} {x : Except ε α} : errorOf x = none ↔ ∃ a, x = .ok a := by
  cases x <;> simp [errorOf]

namespace Expr

/-- Why an expression has no text of its own. -/
def printError? : Expr → Option PrintError
  | .literal value => errorOf value.print
  | _ => none

/-- What stands against printing an expression, in the order in which it is met. -/
def printErrors (e : Expr) : List PrintError := e.subterms.flatMap fun t => t.printError?.toList

theorem printErrors_eq (e : Expr) :
    e.printErrors = e.children.flatMap printErrors ++ e.printError?.toList := by
  rw [printErrors, subterms_eq, List.flatMap_append, List.flatMap_assoc, List.flatMap_singleton]
  rfl

theorem printErrors_loneStep (e : Expr) : (loneStep e).printErrors = e.printErrors := by
  unfold loneStep
  split
  · simp [printErrors_eq (.union _), children, printError?]
  · simp [printErrors_eq (.intersection _), children, printError?]
  · rfl

theorem printErrors_collapsed (e : Expr) : e.collapsed.printErrors = e.printErrors := by
  induction e using children_induction with
  | inherited e ih =>
      have hself : (e.mapChildren collapsed).printError? = e.printError? := by cases e <;> rfl
      rw [collapsed_eq, printErrors_loneStep, printErrors_eq, children_mapChildren, List.flatMap_map,
        List.flatMap_congr ih, hself, ← printErrors_eq]

end Expr

section Errors

variable {style : Style} {e : Expr} {es : List Expr}

/-- Printing an expression at any depth fails with the first thing that stands against it. -/
def Expr.FailsAsFound (style : Style) (e : Expr) : Prop :=
  ∀ depth, errorOf (style.expr depth e) = e.printErrors.head?

theorem errorOf_exprs (h : ∀ e ∈ es, e.FailsAsFound style) (depth : Nat) :
    errorOf (style.exprs depth es) = (es.flatMap Expr.printErrors).head? := by
  induction es with
  | nil => rfl
  | cons e es ih =>
      obtain ⟨hfirst, hlater⟩ := List.forall_mem_cons.mp h
      rw [List.flatMap_cons, List.head?_append, ← hfirst depth, ← ih hlater]
      exact errorOf_bind fun text => errorOf_map (style.exprs depth es) _

theorem errorOf_intersectionParts (h : ∀ e ∈ es, e.FailsAsFound style) (depth : Nat) :
    errorOf (style.intersectionParts depth es) = (es.flatMap Expr.printErrors).head? := by
  induction es with
  | nil => rfl
  | cons e es ih =>
      obtain ⟨hfirst, hlater⟩ := List.forall_mem_cons.mp h
      rw [List.flatMap_cons, List.head?_append, ← hfirst depth, ← ih hlater]
      exact errorOf_bind fun text => errorOf_map (style.intersectionParts depth es) _

theorem errorOf_properties {members : List Property} (h : ∀ m ∈ members, m.type.FailsAsFound style)
    (depth : Nat) : errorOf (style.properties depth members) =
      (members.flatMap fun m => m.type.printErrors).head? := by
  induction members with
  | nil => rfl
  | cons m members ih =>
      obtain ⟨hfirst, hlater⟩ := List.forall_mem_cons.mp h
      rw [List.flatMap_cons, List.head?_append, ← hfirst depth, ← ih hlater]
      exact errorOf_bind fun text => errorOf_map (style.properties depth members) _

theorem Expr.head?_printErrors (h : e.printError? = none) :
    e.printErrors.head? = (e.children.flatMap printErrors).head? := by
  rw [printErrors_eq, h, Option.toList_none, List.append_nil]

theorem Expr.head?_printErrors_of_child {child : Expr} (h : e.printError? = none)
    (hchild : e.children = [child]) : e.printErrors.head? = child.printErrors.head? := by
  rw [head?_printErrors h, hchild, List.flatMap_singleton]

/-- Printing fails with the first literal that has no text, if there is one. -/
theorem Expr.failsAsFound (style : Style) (e : Expr) : e.FailsAsFound style := by
  induction e using children_induction with
  | inherited e ih =>
      intro depth
      have hall : errorOf (style.exprs depth e.children) = (e.children.flatMap printErrors).head? :=
        errorOf_exprs ih depth
      have hone : ∀ child ∈ e.children, errorOf (style.expr depth child) = child.printErrors.head? :=
        fun child hchild => ih child hchild depth
      cases e with
      | keyword word => rfl
      | literal value =>
          rw [printErrors_eq]
          exact Option.head?_toList.symm
      | null => rfl
      | reference name args =>
          exact (errorOf_map _ _).trans (hall.trans (head?_printErrors rfl).symm)
      | array elem =>
          exact (errorOf_map _ _).trans ((hone elem (List.mem_singleton_self _)).trans
            (head?_printErrors_of_child rfl rfl).symm)
      | tuple elem length =>
          exact (errorOf_map _ _).trans ((hone elem (List.mem_singleton_self _)).trans
            (head?_printErrors_of_child rfl rfl).symm)
      | arrayLiteral items =>
          exact (errorOf_map _ _).trans (hall.trans (head?_printErrors rfl).symm)
      | union arms => exact (errorOf_map _ _).trans (hall.trans (head?_printErrors rfl).symm)
      | intersection parts =>
          exact (errorOf_map _ _).trans
            ((errorOf_intersectionParts ih depth).trans (head?_printErrors rfl).symm)
      | operator op inner =>
          exact (errorOf_map _ _).trans ((hone inner (List.mem_singleton_self _)).trans
            (head?_printErrors_of_child rfl rfl).symm)
      | typeLiteral members =>
          have hlines := errorOf_properties (List.forall_mem_map.mp ih) (depth + 1)
          rw [head?_printErrors rfl, children, List.flatMap_map, ← hlines]
          cases members with
          | nil => rfl
          | cons m members => exact errorOf_map _ _

end Errors

end TypeBridge
