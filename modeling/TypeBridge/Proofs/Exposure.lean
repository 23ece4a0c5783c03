import Mathlib.Algebra.GroupWithZero.Nat
import TypeBridge.Proofs.LoneMembers

/-!
Operands that lack their parentheses. Brackets behind a text that binds too weakly belong to its last
operand only, and an operator in front of it to the first one. Such a text is no longer read as what was
printed: if all that stands under brackets and operators is weighed, the type that it means is lighter.
So the text of an expression means what the expression stands for exactly if no operand lacks its
parentheses.
-/

namespace TypeBridge

namespace Expr

variable {e : Expr}

/-- The weight of an expression, given the sum of what its children weigh. What stands under brackets
counts twice, and under an operator once more. -/
def gather : Expr → Nat → Nat
  | .array _, n => 2 * n
  | .operator _ _, n => 2 * n + 1
  | .union _, n => n
  | .intersection _, n => n
  | _, n => n + 1

theorem gather_mono (e : Expr) {n m : Nat} (h : n ≤ m) : e.gather n ≤ e.gather m := by
  cases e <;> simp only [gather] <;> omega

theorem gather_inj {e : Expr} {n m : Nat} : e.gather n = e.gather m ↔ n = m := by
  cases e <;> simp only [gather] <;> omega

def weight (e : Expr) : Nat := e.gather (e.children.attach.map fun child => weight child.1).sum
termination_by sizeOf e
decreasing_by exact sizeOf_lt_of_mem_children child.2

theorem weight_eq (e : Expr) : e.weight = e.gather (e.children.map weight).sum := by
  rw [weight, List.attach_map_val]

theorem gather_mapChildren (f : Expr → Expr) (e : Expr) : (e.mapChildren f).gather = e.gather := by
  cases e <;> rfl

theorem weight_mapChildren {f : Expr → Expr}
    (h : ∀ child ∈ e.children, (f child).weight = child.weight) :
    (e.mapChildren f).weight = e.weight := by
  have hchildren : (e.children.map f).map weight = e.children.map weight := by
    rw [List.map_map]
    exact List.map_congr_left h
  rw [weight_eq, weight_eq e, gather_mapChildren, children_mapChildren, hchildren]

/-- A walk keeps the weight if its steps do. -/
theorem weight_mapSubterms {f : Expr → Expr} (h : ∀ e, (f e).weight = e.weight) (e : Expr) :
    (e.mapSubterms f).weight = e.weight := by
  induction e using children_induction with
  | inherited e ih => rw [mapSubterms_eq, h, weight_mapChildren ih]

theorem weight_union (arms : List Expr) : (union arms).weight = (arms.map weight).sum := weight_eq _

theorem weight_intersection (parts : List Expr) :
    (intersection parts).weight = (parts.map weight).sum := weight_eq _

theorem weight_array (e : Expr) : (array e).weight = 2 * e.weight := by
  rw [weight_eq]
  simp [gather, children]

theorem weight_operator (op : Operator) (e : Expr) : (operator op e).weight = 2 * e.weight + 1 := by
  rw [weight_eq]
  simp [gather, children]

theorem weight_nameStep (e : Expr) : (nameStep e).weight = e.weight := by
  cases e with
  | reference name args =>
      rw [nameStep, builtin, weight_eq, weight_eq]
      rfl
  | _ => rfl

theorem weight_loneStep (e : Expr) : (loneStep e).weight = e.weight := by
  unfold loneStep
  split
  · simp [weight_union]
  · simp [weight_intersection]
  · rfl

theorem sum_weight_unionArms (e : Expr) : (e.unionArms.map weight).sum = e.weight := by
  cases e with
  | union arms => exact (weight_union arms).symm
  | _ => exact List.sum_singleton

theorem sum_weight_intersectionParts (e : Expr) : (e.intersectionParts.map weight).sum = e.weight := by
  cases e with
  | intersection parts => exact (weight_intersection parts).symm
  | _ => exact List.sum_singleton

theorem weight_unite (t t' : Expr) : (t.unite t').weight = t.weight + t'.weight := by
  rw [unite, weight_union, List.map_append, List.sum_append, sum_weight_unionArms, sum_weight_unionArms]

theorem weight_meet (t t' : Expr) : (t.meet t').weight = t.weight + t'.weight := by
  rw [meet, weight_intersection, List.map_append, List.sum_append, sum_weight_intersectionParts,
    sum_weight_intersectionParts]

theorem sum_weight_flatMap {f : Expr → List Expr} (h : ∀ e, ((f e).map weight).sum = e.weight)
    (es : List Expr) : ((es.flatMap f).map weight).sum = (es.map weight).sum := by
  induction es with
  | nil => rfl
  | cons e es ih => rw [List.flatMap_cons, List.map_append, List.sum_append, h, ih, List.map_cons,
      List.sum_cons]

theorem weight_flattenStep (e : Expr) : (flattenStep e).weight = e.weight := by
  cases e with
  | union arms => rw [flattenStep, weight_union, weight_union, sum_weight_flatMap sum_weight_unionArms]
  | intersection parts =>
      rw [flattenStep, weight_intersection, weight_intersection,
        sum_weight_flatMap sum_weight_intersectionParts]
  | _ => rfl

theorem weight_meant (e : Expr) : e.meant.weight = e.weight :=
  (weight_mapSubterms weight_flattenStep _).trans (weight_mapSubterms weight_loneStep e)

theorem weight_byName (e : Expr) : e.byName.weight = e.weight := weight_mapSubterms weight_nameStep e

end Expr

/-! ### Rows of operands -/

/-- A type to which brackets may be added, one with operators in front, and several with separators
between them. -/
inductive Shape where
  | core
  | operand
  | row
deriving DecidableEq

def Strength.shape : Strength → Shape
  | .bracket => .core
  | .operator => .operand
  | _ => .row

open Reading (Alphabet Lexical)

/-- Texts of operands with separators between them, and their weight. Nothing is said about which of
the operands belong together. -/
inductive Row (a : Alphabet) (style : Style) (depth : Nat) : Shape → String → Nat → Prop
  | core {s t} (h : Means style depth .bracket s t) (hlexical : Lexical a t) :
      Row a style depth .core s t.weight
  | operator {k s n} (op : Operator) (hk : k ≠ .row) (h : Row a style depth k s n) :
      Row a style depth .operand (op.word ++ " " ++ s) (2 * n + 1)
  | joined {k k' s s' n n' sep} (hsep : sep = " & " ∨ sep = " | ") (hk : k ≠ .row)
      (h : Row a style depth k s n) (h' : Row a style depth k' s' n') :
      Row a style depth .row (s ++ sep ++ s') (n + n')

section Rows

variable {a : Alphabet} {style : Style} {depth : Nat} {k k' : Shape} {s s' sep : String} {n n' : Nat}
  {t : Expr}

theorem Means.weight_pos {strength : Strength} (h : Means style depth strength s t) : 0 < t.weight := by
  induction h with
  | array _ ih =>
      rw [Expr.weight_array]
      omega
  | intersection _ _ ih ih' =>
      rw [Expr.weight_meet]
      omega
  | union _ _ ih ih' =>
      rw [Expr.weight_unite]
      omega
  | parenthesized _ ih => exact ih
  | ofBracket _ ih => exact ih
  | ofOperator _ ih => exact ih
  | ofIntersection _ ih => exact ih
  | _ =>
      rw [Expr.weight_eq]
      exact Nat.succ_pos _

namespace Row

theorem pos (h : Row a style depth k s n) : 0 < n := by
  induction h with
  | core h => exact h.weight_pos
  | operator => exact Nat.succ_pos _
  | joined _ _ _ _ ih => omega

/-- A single operand is the text of a type. -/
theorem exists_means_operator (h : Row a style depth k s n) (hk : k ≠ .row) :
    ∃ t, Means style depth .operator s t ∧ Lexical a t ∧ t.weight = n := by
  induction h with
  | @core s t h hlexical => exact ⟨t, h.ofBracket, hlexical, rfl⟩
  | operator op hinner _ ih =>
      obtain ⟨t, hmeans, hlexical, rfl⟩ := ih hinner
      refine ⟨.operator op t, hmeans.operator op, ?_, Expr.weight_operator op t⟩
      exact Reading.lexical_iff.mpr ⟨List.forall_mem_singleton.mpr hlexical, trivial⟩
  | joined => exact absurd rfl hk

/-- The operands of a row up to the first bar, and the rest of them. -/
theorem exists_split (h : Row a style depth k s n) :
    ∃ first t, Means style depth .intersection first t ∧ Lexical a t ∧
      (s = first ∧ t.weight = n ∨ ∃ rest t', s = first ++ " | " ++ rest ∧
        Means style depth .union rest t' ∧ Lexical a t' ∧ t.weight + t'.weight = n) := by
  induction h with
  | core h hlexical => exact ⟨_, _, h.ofBracket.ofOperator, hlexical, .inl ⟨rfl, rfl⟩⟩
  | operator op hk h _ =>
      obtain ⟨t, hmeans, hlexical, hweight⟩ := (Row.operator op hk h).exists_means_operator nofun
      exact ⟨_, t, hmeans.ofOperator, hlexical, .inl ⟨rfl, hweight⟩⟩
  | joined hsep hk h _ _ ih =>
      obtain ⟨t₀, hmeans₀, hlexical₀, rfl⟩ := h.exists_means_operator hk
      obtain ⟨first, t, hfirst, hlexical, hrest⟩ := ih
      rcases hsep with rfl | rfl
      · refine ⟨_, t₀.meet t, hmeans₀.ofOperator.intersection hfirst,
          Reading.lexical_meet_iff.mpr ⟨hlexical₀, hlexical⟩, ?_⟩
        rw [Expr.weight_meet]
        rcases hrest with ⟨rfl, rfl⟩ | ⟨rest, t', rfl, hmeans, hlexical', rfl⟩
        · exact .inl ⟨rfl, rfl⟩
        · refine .inr ⟨rest, t', ?_, hmeans, hlexical', Nat.add_assoc _ _ _⟩
          simp only [String.append_assoc]
      · refine ⟨_, t₀, hmeans₀.ofOperator, hlexical₀, ?_⟩
        rcases hrest with ⟨rfl, rfl⟩ | ⟨rest, t', rfl, hmeans, hlexical', rfl⟩
        · exact .inr ⟨_, t, rfl, hfirst.ofIntersection, hlexical, rfl⟩
        · refine .inr ⟨_, t.unite t', rfl, hfirst.ofIntersection.union hmeans,
            Reading.lexical_unite_iff.mpr ⟨hlexical, hlexical'⟩, ?_⟩
          rw [Expr.weight_unite]

/-- A row is the text of a type of its weight. -/
theorem exists_means (h : Row a style depth k s n) :
    ∃ t, Means style depth .union s t ∧ Lexical a t ∧ t.weight = n := by
  obtain ⟨first, t, hfirst, hlexical, ⟨rfl, hweight⟩ | ⟨rest, t', rfl, hrest, hlexical', hweight⟩⟩ :=
    h.exists_split
  · exact ⟨t, hfirst.ofIntersection, hlexical, hweight⟩
  · refine ⟨t.unite t', hfirst.ofIntersection.union hrest,
      Reading.lexical_unite_iff.mpr ⟨hlexical, hlexical'⟩, ?_⟩
    rw [Expr.weight_unite, hweight]

theorem append (hsep : sep = " & " ∨ sep = " | ") (h : Row a style depth k s n)
    (h' : Row a style depth k' s' n') : Row a style depth .row (s ++ sep ++ s') (n + n') := by
  induction h with
  | core h hlexical => exact .joined hsep (k := .core) nofun (.core h hlexical) h'
  | operator op hk h _ => exact .joined hsep (k := .operand) nofun (.operator op hk h) h'
  | @joined _ _ s₁ s₂ n₁ n₂ sep' hsep' hk h _ _ ih =>
      have htext : s₁ ++ sep' ++ s₂ ++ sep ++ s' = s₁ ++ sep' ++ (s₂ ++ sep ++ s') := by
        simp only [String.append_assoc]
      rw [htext, Nat.add_assoc]
      exact .joined hsep' hk h ih

/-- Brackets after a row belong to its last core: the row is lighter than it would be in parentheses,
unless it is no more than a core. -/
theorem exists_brackets (h : Row a style depth k s n) :
    ∃ n', Row a style depth k (s ++ "[]") n' ∧ n' ≤ 2 * n ∧ (n' = 2 * n ↔ k = .core) := by
  induction h with
  | @core s t h hlexical =>
      refine ⟨_, .core h.array ?_, ?_⟩
      · exact Reading.lexical_iff.mpr ⟨List.forall_mem_singleton.mpr hlexical, trivial⟩
      · simp [Expr.weight_array]
  | @operator k s n op hk h ih =>
      obtain ⟨n', hrow, hle, -⟩ := ih
      rw [String.append_assoc]
      refine ⟨_, .operator op hk hrow, by omega, ?_⟩
      simp only [reduceCtorEq, iff_false]
      omega
  | @joined k k' s s' n n' sep hsep hk h h' ih ih' =>
      obtain ⟨m, hrow, hle, -⟩ := ih'
      have hpos := h.pos
      rw [String.append_assoc]
      refine ⟨_, .joined hsep hk h hrow, by omega, ?_⟩
      simp only [reduceCtorEq, iff_false]
      omega

/-- An operator before a row belongs to its first operand. -/
theorem exists_operator (op : Operator) (h : Row a style depth k s n) :
    ∃ k' n', Row a style depth k' (op.word ++ " " ++ s) n' ∧ n' ≤ 2 * n + 1 ∧
      (n' = 2 * n + 1 ↔ k ≠ .row) ∧ (k ≠ .row → k' = .operand) := by
  cases h with
  | core h hlexical =>
      exact ⟨_, _, .operator op (k := .core) nofun (.core h hlexical), Nat.le_refl _,
        iff_of_true rfl nofun, fun _ => rfl⟩
  | operator op' hk h =>
      exact ⟨_, _, .operator op (k := .operand) nofun (.operator op' hk h), Nat.le_refl _,
        iff_of_true rfl nofun, fun _ => rfl⟩
  | joined hsep hk h h' =>
      have hpos := h'.pos
      rw [← String.append_assoc, ← String.append_assoc]
      refine ⟨_, _, .joined hsep (k := .operand) nofun (.operator op hk h) h', by omega, ?_,
        fun hrow => absurd rfl hrow⟩
      simp only [ne_eq, not_true_eq_false, iff_false]
      omega

end Row

end Rows

/-! ### What is printed weighs -/

namespace Expr

variable {e : Expr} {es : List Expr} {n m : Nat}

/-- A text weighs no more than its expression, and as much where no operand lacks its parentheses. -/
def Counts (e : Expr) (n : Nat) : Prop := n ≤ e.weight ∧ (n = e.weight ↔ ¬ e.Exposed)

/-- The texts of some expressions together. -/
def CountAll (es : List Expr) (n : Nat) : Prop :=
  n ≤ (es.map weight).sum ∧ (n = (es.map weight).sum ↔ ∀ e ∈ es, ¬ e.Exposed)

theorem CountAll.nil : CountAll [] 0 := ⟨Nat.le_refl _, iff_of_true rfl nofun⟩

theorem CountAll.cons (h : e.Counts n) (hrest : CountAll es m) : CountAll (e :: es) (n + m) := by
  obtain ⟨hle, hiff⟩ := h
  obtain ⟨hle', hiff'⟩ := hrest
  rw [CountAll, List.map_cons, List.sum_cons, List.forall_mem_cons, ← hiff, ← hiff']
  omega

/-- The text of an expression whose own operand stands in its parentheses. -/
theorem CountAll.counts (h : CountAll e.children n) (htop : e.isExposed = false) :
    e.Counts (e.gather n) := by
  obtain ⟨hle, hiff⟩ := h
  rw [Counts, weight_eq, gather_inj, not_exposed_iff, and_iff_left htop]
  exact ⟨gather_mono e hle, hiff⟩

theorem CountAll.single (h : e.Counts n) : CountAll [e] n := CountAll.nil.cons h

theorem countAll_of_forall₂ {β : Type} {weigh : β → Nat} {S : Expr → β → Prop} {ys : List β}
    (h : List.Forall₂ S es ys) (himp : ∀ e y, S e y → e.Counts (weigh y)) :
    CountAll es (ys.map weigh).sum := by
  induction h with
  | nil => exact .nil
  | cons hfirst _ ih => exact .cons (himp _ _ hfirst) ih

/-- An expression is printed as a row of operands that weighs what counts for it. -/
def PrintedInRow (a : Alphabet) (style : Style) (e : Expr) : Prop :=
  ∀ depth s, style.expr depth e = .ok s →
    ∃ k n, Row a style depth k s n ∧ e.Counts n ∧ (¬ e.Exposed → k = e.strength.shape)

end Expr

section Printed

variable {a : Alphabet} {style : Style} {depth : Nat} {s sep : String} {texts : List String} {e : Expr}
  {es : List Expr}

/-- A text of an expression that means some lexical type of its weight. -/
theorem Expr.PrintedInRow.exists_means (h : e.PrintedInRow a style) (hs : style.expr depth e = .ok s) :
    ∃ t, Means style depth .union s t ∧ Lexical a t ∧ e.Counts t.weight := by
  obtain ⟨k, n, hrow, hcounts, -⟩ := h depth s hs
  obtain ⟨t, hmeans, hlexical, rfl⟩ := hrow.exists_means
  exact ⟨t, hmeans, hlexical, hcounts⟩

theorem exists_typed (h : ∀ e ∈ es, e.PrintedInRow a style) (hs : style.exprs depth es = .ok texts) :
    ∃ pairs : List (String × Expr), pairs.map Prod.fst = texts ∧
      (∀ p ∈ pairs, Means style depth .union p.1 p.2) ∧ (∀ p ∈ pairs, Lexical a p.2) ∧
      Expr.CountAll es ((pairs.map Prod.snd).map Expr.weight).sum := by
  obtain ⟨pairs, htexts, hpairs⟩ := exists_map_eq (f := Prod.fst)
    (S := fun (e : Expr) (p : String × Expr) =>
      Means style depth .union p.1 p.2 ∧ Lexical a p.2 ∧ e.Counts p.2.weight)
    ((List.forall₂_and_left _ _).mpr ⟨h, forall₂_exprs hs⟩ |>.imp fun e s ⟨he, hs⟩ =>
      have ⟨t, ht⟩ := he.exists_means hs
      ⟨(s, t), rfl, ht⟩)
  refine ⟨pairs, htexts, forall_mem_of_forall₂ hpairs fun _ _ h => h.1,
    forall_mem_of_forall₂ hpairs fun _ _ h => h.2.1, ?_⟩
  rw [List.map_map]
  exact Expr.countAll_of_forall₂ hpairs fun _ _ h => h.2.2

/-- Rows with separators between them are a row. -/
theorem exists_joined (hsep : sep = " & " ∨ sep = " | ") (hne : es ≠ [])
    (h : List.Forall₂ (fun e s => ∃ k n, Row a style depth k s n ∧ e.Counts n) es texts) :
    ∃ k n, Row a style depth k (String.intercalate sep texts) n ∧ Expr.CountAll es n ∧
      (2 ≤ es.length → k = .row) := by
  induction h with
  | nil => exact absurd rfl hne
  | @cons e s es texts hfirst hall ih =>
      obtain ⟨k, n, hrow, hcounts⟩ := hfirst
      cases hall with
      | nil =>
          rw [String.intercalate_singleton]
          exact ⟨k, n, hrow, .single hcounts, fun htwo => absurd htwo (Nat.lt_irrefl 1)⟩
      | cons hsecond hall =>
          obtain ⟨k', n', hrow', hcounts', -⟩ := ih (List.cons_ne_nil _ _)
          rw [String.intercalate_cons_cons]
          exact ⟨.row, _, hrow.append hsep hrow', hcounts'.cons hcounts, fun _ => rfl⟩

end Printed

namespace Expr.PrintedInRow

variable {a : Alphabet} {style : Style} {e : Expr} {es : List Expr}

/-- An expression without operands of its own, printed as a type to which brackets may be added. -/
theorem of_core {t : Expr} {depth : Nat} {s : String} (h : Means style depth .bracket s t)
    (hlexical : Lexical a t) (hcounts : e.Counts t.weight) (hstrength : e.strength = .bracket) :
    ∃ k n, Row a style depth k s n ∧ e.Counts n ∧ (¬ e.Exposed → k = e.strength.shape) :=
  ⟨.core, _, .core h hlexical, hcounts, fun _ => by rw [hstrength, Strength.shape]⟩

theorem leaf (hchildren : e.children = []) (hlexical : Lexical a e) (hexposed : e.isExposed = false)
    (hstrength : e.strength = .bracket)
    (h : ∀ depth s, style.expr depth e = .ok s → Means style depth .bracket s e) :
    e.PrintedInRow a style := by
  intro depth s hs
  refine of_core (h depth s hs) hlexical ⟨Nat.le_refl _, iff_of_true rfl ?_⟩ hstrength
  rw [not_exposed_iff, hchildren]
  exact ⟨nofun, hexposed⟩

theorem reference {name : Identifier} (hlexical : Reading.IsLexical a (.reference name es))
    (h : ∀ arg ∈ es, arg.PrintedInRow a style) : (Expr.reference name es).PrintedInRow a style := by
  intro depth s hs
  obtain ⟨texts, htexts, htext⟩ := bind_eq_ok_iff.mp hs
  obtain ⟨pairs, rfl, hmeans, hlexicals, hcounts⟩ := exists_typed h htexts
  have hcounts' : (Expr.reference name es).Counts (Expr.reference name (pairs.map Prod.snd)).weight := by
    rw [weight_eq]
    exact CountAll.counts (e := .reference name es) hcounts rfl
  have hlexical' : Lexical a (.reference name (pairs.map Prod.snd)) :=
    Reading.lexical_iff.mpr ⟨List.forall_mem_map.mpr hlexicals, hlexical⟩
  cases pairs with
  | nil =>
      cases htext
      exact of_core (.name name) hlexical' hcounts' rfl
  | cons p pairs =>
      cases htext
      exact of_core (.reference name (List.cons_ne_nil _ _) hmeans) hlexical' hcounts' rfl

theorem arrayLiteral (h : ∀ item ∈ es, item.PrintedInRow a style) :
    (Expr.arrayLiteral es).PrintedInRow a style := by
  intro depth s hs
  obtain ⟨texts, htexts, rfl⟩ := map_eq_ok_iff.mp hs
  obtain ⟨pairs, rfl, hmeans, hlexicals, hcounts⟩ := exists_typed h htexts
  refine of_core (.arrayLiteral hmeans)
    (Reading.lexical_iff.mpr ⟨List.forall_mem_map.mpr hlexicals, trivial⟩) ?_ rfl
  rw [weight_eq]
  exact CountAll.counts (e := .arrayLiteral es) hcounts rfl

theorem array (h : e.PrintedInRow a style) : (Expr.array e).PrintedInRow a style := by
  intro depth s hs
  obtain ⟨text, htext, rfl⟩ := map_eq_ok_iff.mp hs
  cases hparens : e.needsParens with
  | true =>
      obtain ⟨t, hmeans, hlexical, hcounts⟩ := h.exists_means htext
      refine of_core hmeans.parenthesized.array
        (Reading.lexical_iff.mpr ⟨List.forall_mem_singleton.mpr hlexical, trivial⟩) ?_ rfl
      rw [weight_array]
      exact CountAll.counts (e := .array e) (.single hcounts) (by simp [isExposed, hparens])
  | false =>
      obtain ⟨k, n, hrow, ⟨hle, hiff⟩, hshape⟩ := h depth text htext
      obtain ⟨n', hrow', hle', hiff'⟩ := hrow.exists_brackets
      have htop : (Expr.array e).isExposed = false ↔ e.strength.shape = .core := by
        cases hstrength : e.strength <;> simp [isExposed, hparens, hstrength, Strength.shape]
      have hexposed : ¬ (Expr.array e).Exposed ↔ ¬ e.Exposed ∧ e.strength.shape = .core := by
        rw [not_exposed_iff, htop]
        exact and_congr_left' List.forall_mem_singleton
      refine ⟨k, n', hrow', ?_, fun hnot => ?_⟩
      · rw [Counts, weight_array, hexposed]
        refine ⟨by omega, fun heq => ?_, fun hboth => ?_⟩
        · have hinner := hiff.mp (by omega)
          exact ⟨hinner, hshape hinner ▸ hiff'.mp (by omega)⟩
        · obtain ⟨hinner, hcore⟩ := hboth
          rw [hiff'.mpr ((hshape hinner).trans hcore), hiff.mpr hinner]
      · obtain ⟨hinner, hcore⟩ := hexposed.mp hnot
        exact (hshape hinner).trans hcore

theorem operator (op : Operator) (h : e.PrintedInRow a style) :
    (Expr.operator op e).PrintedInRow a style := by
  intro depth s hs
  obtain ⟨text, htext, rfl⟩ := map_eq_ok_iff.mp hs
  cases hparens : e.needsParens with
  | true =>
      obtain ⟨t, hmeans, hlexical, hcounts⟩ := h.exists_means htext
      refine ⟨_, _, .operator op (k := .core) nofun (.core hmeans.parenthesized hlexical), ?_,
        fun _ => rfl⟩
      exact CountAll.counts (e := .operator op e) (.single hcounts) (by simp [isExposed, hparens])
  | false =>
      obtain ⟨k, n, hrow, ⟨hle, hiff⟩, hshape⟩ := h depth text htext
      obtain ⟨k', n', hrow', hle', hiff', hshape'⟩ := hrow.exists_operator op
      have htop : (Expr.operator op e).isExposed = false ↔ e.strength.shape ≠ .row := by
        cases hstrength : e.strength <;> simp [isExposed, hparens, hstrength, Strength.shape]
      have hexposed : ¬ (Expr.operator op e).Exposed ↔ ¬ e.Exposed ∧ e.strength.shape ≠ .row := by
        rw [not_exposed_iff, htop]
        exact and_congr_left' List.forall_mem_singleton
      refine ⟨k', n', hrow', ?_, fun hnot => ?_⟩
      · rw [Counts, weight_operator, hexposed]
        refine ⟨by omega, fun heq => ?_, fun hboth => ?_⟩
        · have hinner := hiff.mp (by omega)
          exact ⟨hinner, hshape hinner ▸ hiff'.mp (by omega)⟩
        · obtain ⟨hinner, hoperand⟩ := hboth
          rw [hiff'.mpr (hshape hinner ▸ hoperand), hiff.mpr hinner]
      · obtain ⟨hinner, hoperand⟩ := hexposed.mp hnot
        exact hshape' (hshape hinner ▸ hoperand)

theorem union (hsolid : es ≠ []) (h : ∀ arm ∈ es, arm.PrintedInRow a style) :
    (Expr.union es).PrintedInRow a style := by
  intro depth s hs
  obtain ⟨texts, htexts, rfl⟩ := map_eq_ok_iff.mp hs
  match es, hsolid with
  | [arm], _ =>
      obtain ⟨s, htext, hlist⟩ := bind_eq_ok_iff.mp htexts
      cases hlist
      obtain ⟨k, n, hrow, hcounts, hshape⟩ := h arm (List.mem_singleton_self arm) depth s htext
      rw [String.intercalate_singleton]
      refine ⟨k, n, hrow, CountAll.counts (e := .union [arm]) (.single hcounts) rfl, fun hnot => ?_⟩
      exact hshape ((not_exposed_iff.mp hnot).1 arm (List.mem_singleton_self arm))
  | arm :: arm' :: arms, _ =>
      have hrows := (List.forall₂_and_left _ _).mpr ⟨h, forall₂_exprs htexts⟩
      obtain ⟨k, n, hrow, hcounts, hshape⟩ := exists_joined (.inr rfl) (List.cons_ne_nil _ _)
        (hrows.imp fun e s ⟨he, hs⟩ => have ⟨k, n, hrow, hcounts, _⟩ := he depth s hs
          ⟨k, n, hrow, hcounts⟩)
      refine ⟨k, n, hrow, CountAll.counts (e := .union _) hcounts rfl, fun _ => ?_⟩
      exact hshape (Nat.le_add_left 2 _)

/-- A part of an intersection: a union stands in parentheses. -/
theorem part (h : e.PrintedInRow a style) {depth : Nat} {s : String}
    (hs : style.expr depth e = .ok s) :
    ∃ k n, Row a style depth k (if e.isUnion then parenthesized s else s) n ∧ e.Counts n ∧
      (¬ e.Exposed → k = (Expr.intersection [e]).strength.shape) := by
  rw [strength]
  cases e.isUnion with
  | true =>
      obtain ⟨t, hmeans, hlexical, hcounts⟩ := h.exists_means hs
      exact ⟨_, _, .core hmeans.parenthesized hlexical, hcounts, fun _ => rfl⟩
  | false => exact h depth s hs

theorem intersection (hsolid : es ≠ []) (h : ∀ part ∈ es, part.PrintedInRow a style) :
    (Expr.intersection es).PrintedInRow a style := by
  intro depth s hs
  obtain ⟨texts, htexts, rfl⟩ := map_eq_ok_iff.mp hs
  match es, hsolid with
  | [part], _ =>
      obtain ⟨s, htext, hlist⟩ := bind_eq_ok_iff.mp htexts
      cases hlist
      obtain ⟨k, n, hrow, hcounts, hshape⟩ := (h part (List.mem_singleton_self part)).part htext
      rw [String.intercalate_singleton]
      refine ⟨k, n, hrow, CountAll.counts (e := .intersection [part]) (.single hcounts) rfl,
        fun hnot => ?_⟩
      exact hshape ((not_exposed_iff.mp hnot).1 part (List.mem_singleton_self part))
  | part :: part' :: parts, _ =>
      have hrows := (List.forall₂_and_left _ _).mpr ⟨h, forall₂_intersectionParts htexts⟩
      obtain ⟨k, n, hrow, hcounts, hshape⟩ := exists_joined (.inl rfl) (List.cons_ne_nil _ _)
        (hrows.imp fun e s ⟨he, text, htext, hs⟩ =>
          have ⟨k, n, hrow, hcounts, _⟩ := he.part htext
          ⟨k, n, hs ▸ hrow, hcounts⟩)
      refine ⟨k, n, hrow, CountAll.counts (e := .intersection _) hcounts rfl, fun _ => ?_⟩
      exact hshape (Nat.le_add_left 2 _)

theorem typeLiteral {members : List Property} (hlexical : Reading.IsLexical a (.typeLiteral members))
    (h : ∀ m ∈ members, m.type.PrintedInRow a style) :
    (Expr.typeLiteral members).PrintedInRow a style := by
  intro depth s hs
  cases members with
  | nil =>
      cases hs
      refine of_core .noMembers (Reading.lexical_iff.mpr ⟨nofun, hlexical⟩) ?_ rfl
      rw [weight_eq]
      exact CountAll.counts (e := .typeLiteral []) .nil rfl
  | cons m members =>
      obtain ⟨lines, hlines, rfl⟩ := map_eq_ok_iff.mp hs
      obtain ⟨texts, rfl, hall⟩ := exists_lines hlines
      have hboth : ∀ m' ∈ m :: members, m'.type.PrintedInRow a style ∧ m'.comments = [] ∧
          (m'.modifiers = [] ∨ m'.modifiers = [.readonly]) :=
        fun m' hm => ⟨h m' hm, hlexical m' hm⟩
      have htyped := (List.forall₂_and_left _ _).mpr ⟨hboth, hall⟩
      obtain ⟨pairs, rfl, hpairs⟩ := exists_map_eq (f := style.memberLine (depth + 1))
        (S := fun (m : Property) (p : String × Property) =>
          Means style (depth + 1) .union p.1 p.2.type ∧ Lexical a p.2.type ∧
            m.type.Counts p.2.type.weight ∧ p.2.comments = [] ∧
            (p.2.modifiers = [] ∨ p.2.modifiers = [.readonly]))
        (htyped.imp fun m line ⟨⟨hm, hplain⟩, text, htext, hline⟩ =>
          have ⟨t, hmeans, ht, hcounts⟩ := hm.exists_means htext
          ⟨(text, { m with type := t }), hline.symm, hmeans, ht, hcounts, hplain⟩)
      have hne : pairs ≠ [] := by
        rintro rfl
        cases hpairs
      have hweights : List.Forall₂ (fun (m : Property) (p : String × Property) =>
          m.type.Counts p.2.type.weight) (m :: members) pairs := hpairs.imp fun _ _ h => h.2.2.1
      have hcounts : CountAll (Expr.typeLiteral (m :: members)).children
          (pairs.map fun p => p.2.type.weight).sum :=
        countAll_of_forall₂ (List.forall₂_map_left_iff.mpr hweights) fun _ _ h => h
      have hlexicals : ∀ p ∈ pairs, Lexical a p.2.type :=
        forall_mem_of_forall₂ hpairs fun _ _ h => h.2.1
      refine of_core (.typeLiteral hne (forall_mem_of_forall₂ hpairs fun _ _ h => h.1))
        (Reading.lexical_iff.mpr ⟨?_, ?_⟩) ?_ rfl
      · exact List.forall_mem_map.mpr (List.forall_mem_map.mpr hlexicals)
      · exact List.forall_mem_map.mpr (forall_mem_of_forall₂ hpairs fun _ _ h => h.2.2.2)
      · rw [weight_eq, children, List.map_map, List.map_map]
        exact hcounts.counts rfl

end Expr.PrintedInRow

/-- Every lexical expression is printed as a row that weighs what counts for it. -/
theorem Expr.printedInRow {a : Alphabet} (style : Style) {e : Expr} (hsolid : e.Solid true)
    (hlexical : Lexical a e) : e.PrintedInRow a style := by
  induction e using children_induction with
  | inherited e ih =>
      obtain ⟨hsolids, hself⟩ := solid_iff.mp hsolid
      obtain ⟨hlexicals, htop⟩ := Reading.lexical_iff.mp hlexical
      have hprinted : ∀ child ∈ e.children, child.PrintedInRow a style := fun child hchild =>
        ih child hchild (hsolids child hchild) (hlexicals child hchild)
      cases e with
      | keyword word =>
          refine .leaf rfl hlexical rfl rfl fun depth s hs => ?_
          cases hs
          exact .keyword word
      | literal value => exact .leaf rfl hlexical rfl rfl fun depth s hs => .literal hs
      | null =>
          refine .leaf rfl hlexical rfl rfl fun depth s hs => ?_
          cases hs
          exact .null
      | reference name args => exact .reference htop hprinted
      | array elem => exact .array (hprinted elem (List.mem_singleton_self _))
      | tuple elem length => exact htop.elim
      | arrayLiteral items => exact .arrayLiteral hprinted
      | union arms => exact .union (by rintro rfl; cases hself) hprinted
      | intersection parts => exact .intersection (by rintro rfl; cases hself) hprinted
      | operator op inner => exact .operator op (hprinted inner (List.mem_singleton_self _))
      | typeLiteral members => exact .typeLiteral htop (List.forall_mem_map.mp hprinted)

/-! ### Both texts -/

namespace Reading

variable {a : Alphabet} {e : Expr}

theorem isLexical_mapChildren (f : Expr → Expr) (h : IsLexical a e) : IsLexical a (e.mapChildren f) := by
  cases e with
  | typeLiteral members => exact List.forall_mem_map.mpr h
  | _ => exact h

theorem Lexical.flattenStep (h : Lexical a e) : Lexical a (Expr.flattenStep e) := by
  cases e with
  | union arms =>
      refine lexical_iff.mpr ⟨List.forall_mem_flatMap.mpr fun arm harm => ?_, trivial⟩
      exact lexical_iff_unionArms.mp ((lexical_iff.mp h).1 arm harm)
  | intersection parts =>
      refine lexical_iff.mpr ⟨List.forall_mem_flatMap.mpr fun part hpart => ?_, trivial⟩
      exact lexical_iff_intersectionParts.mp ((lexical_iff.mp h).1 part hpart)
  | _ => exact h

theorem Lexical.meant (h : Lexical a e) : Lexical a e.meant := by
  have hcollapsed : Lexical a e.collapsed := Expr.forall_subterms_mapSubterms (P := IsLexical a)
    (fun _ => isLexical_mapChildren _) (fun _ => Expr.forall_subterms_loneStep) h
  exact Expr.forall_subterms_mapSubterms (P := IsLexical a) (fun _ => isLexical_mapChildren _)
    (fun _ => Lexical.flattenStep) hcollapsed

/-- The text of an expression is read as what it stands for unless an operand lacks its parentheses. -/
theorem parse_printed_iff {style : Style} {depth : Nat} {s : String} (hsolid : e.Solid true)
    (hlexical : Lexical a e) (hs : style.expr depth e = .ok s) :
    (parse a s).map Expr.flattened = some e.meant.byName ↔ ¬ e.Exposed := by
  constructor
  · intro hread
    obtain ⟨t, hmeans, ht, -, hiff⟩ := (Expr.printedInRow style hsolid hlexical).exists_means hs
    have hsame : t.byName = e.meant.byName :=
      Option.some.inj ((parse_of_means hmeans ht).symm.trans hread)
    have hweight : t.weight = e.weight := by
      rw [← Expr.weight_byName, hsame, Expr.weight_byName, Expr.weight_meant]
    exact hiff.mp hweight
  · intro hexposed
    exact parse_of_means (Expr.printedAsMeant style hsolid hexposed depth s hs).weaken hlexical.meant

end Reading

/-- Unions and intersections of one member do not show in a text. With their members in their place an
expression has the same error when it is printed, or both have texts. That of the other means the type
that the expression stands for, and its own text does unless some operand lacks its parentheses. Where
all names are words the reader tells: it reads both texts alike exactly if no operand lacks them. -/
theorem Expr.lone_members_unseen (style : Style) (depth : Nat) {e : Expr} (h : e.Solid true) :
    (∃ err, style.expr depth e = .error err ∧ style.expr depth e.collapsed = .error err) ∨
    ∃ s s', style.expr depth e = .ok s ∧ style.expr depth e.collapsed = .ok s' ∧
      Means style depth .union s' e.meant ∧ (¬ e.Exposed → Means style depth .union s e.meant) ∧
      ∀ a, Lexical a e → (Reading.parse a s').map flattened = some e.meant.byName ∧
        ((Reading.parse a s).map flattened = some e.meant.byName ↔ ¬ e.Exposed) := by
  have herror : errorOf (style.expr depth e) = errorOf (style.expr depth e.collapsed) := by
    rw [failsAsFound, failsAsFound, printErrors_collapsed]
  cases hs : style.expr depth e with
  | error err =>
      rw [hs] at herror
      cases hs' : style.expr depth e.collapsed with
      | error err' =>
          rw [hs'] at herror
          exact .inl ⟨err, rfl, congrArg Except.error (Option.some.inj herror).symm⟩
      | ok s' =>
          rw [hs'] at herror
          cases herror
  | ok s =>
      rw [hs] at herror
      obtain ⟨s', hs'⟩ := errorOf_eq_none_iff.mp herror.symm
      have hmeans' : Means style depth .union s' e.meant := by
        have hother := (printedAsMeant style h.collapsed (not_exposed_collapsed h) depth s' hs').weaken
        rwa [meant_collapsed] at hother
      refine .inr ⟨s, s', rfl, hs', hmeans', fun hexposed => ?_, fun a hlexical => ⟨?_, ?_⟩⟩
      · exact (printedAsMeant style h hexposed depth s hs).weaken
      · exact Reading.parse_of_means hmeans' hlexical.meant
      · exact Reading.parse_printed_iff h hlexical hs

/-- The keys of the keys of a row, with a union around the inner ones. -/
def keysOfKeys : Expr := .operator .keyof (.union [.operator .keyof (.builtin "Row" [])])

/-- The text in the middle of an operator binds strongly enough without parentheses. -/
theorem lone_members_unseen_keys :
    keysOfKeys.Solid true ∧ Style.expr {} 0 keysOfKeys = .ok "keyof keyof Row" ∧
    Style.expr {} 0 keysOfKeys.collapsed = .ok "keyof (keyof Row)" ∧
    (Reading.parse Reading.ascii "keyof keyof Row").map Expr.flattened =
      (Reading.parse Reading.ascii "keyof (keyof Row)").map Expr.flattened := by
  have hsolid : keysOfKeys.Solid true := by
    unfold Expr.Solid
    decide
  have hname : Reading.IsLexical Reading.ascii (.builtin "Row" []) :=
    ⟨Reading.isWord_of_isIdentifierName (by decide), rfl, rfl, rfl⟩
  have hlexical : Lexical Reading.ascii keysOfKeys :=
    Reading.lexical_iff.mpr ⟨List.forall_mem_singleton.mpr (Reading.lexical_iff.mpr
      ⟨List.forall_mem_singleton.mpr (Reading.lexical_iff.mpr
        ⟨List.forall_mem_singleton.mpr (Reading.lexical_iff.mpr ⟨nofun, hname⟩), trivial⟩), trivial⟩),
      trivial⟩
  have htext : Style.expr {} 0 keysOfKeys = .ok "keyof keyof Row" := by rfl
  have htext' : Style.expr {} 0 keysOfKeys.collapsed = .ok "keyof (keyof Row)" := by rfl
  obtain ⟨err, herror, -⟩ | ⟨s, s', hs, hs', -, -, hread⟩ :=
    keysOfKeys.lone_members_unseen {} 0 hsolid
  · rw [htext] at herror
    cases herror
  · obtain rfl : "keyof keyof Row" = s := Except.ok.inj (htext.symm.trans hs)
    obtain rfl : "keyof (keyof Row)" = s' := Except.ok.inj (htext'.symm.trans hs')
    obtain ⟨hother, hself⟩ := hread _ hlexical
    exact ⟨hsolid, htext, htext', (hself.mpr (by decide)).trans hother.symm⟩

/-- An array of strings or nothing, with a union around the union. -/
def nestedUnion : Expr := .array (.union [.union [.keyword .string, .null]])

/-- The brackets in the text of `nestedUnion` belong to `null` alone. -/
theorem nested_union_exposed :
    nestedUnion.Solid true ∧ Style.expr {} 0 nestedUnion = .ok "string | null[]" ∧
    Style.expr {} 0 nestedUnion.collapsed = .ok "(string | null)[]" ∧
    (Reading.parse Reading.ascii "string | null[]").map Expr.flattened =
      some (.union [.keyword .string, .array .null]) ∧
    (Reading.parse Reading.ascii "(string | null)[]").map Expr.flattened =
      some (.array (.union [.keyword .string, .null])) ∧
    ¬ ∃ t, Lexical Reading.ascii t ∧ Means {} 0 .union "string | null[]" t ∧
      Means {} 0 .union "(string | null)[]" t := by
  have hsolid : nestedUnion.Solid true := by
    unfold Expr.Solid
    decide
  have hstring : Lexical Reading.ascii (.keyword .string) := Reading.lexical_iff.mpr ⟨nofun, trivial⟩
  have hnull : Lexical Reading.ascii .null := Reading.lexical_iff.mpr ⟨nofun, trivial⟩
  have hunion : Lexical Reading.ascii (.union [.keyword .string, .null]) :=
    Reading.lexical_unite_iff.mpr ⟨hstring, hnull⟩
  have harray : ∀ {t}, Lexical Reading.ascii t → Lexical Reading.ascii (.array t) := fun h =>
    Reading.lexical_iff.mpr ⟨List.forall_mem_singleton.mpr h, trivial⟩
  have hbare : Means {} 0 .union "string | null[]" (.union [.keyword .string, .array .null]) :=
    (Means.keyword .string).weaken.union Means.null.array.weaken
  have hcovered : Means {} 0 .union "(string | null)[]" (.array (.union [.keyword .string, .null])) :=
    ((Means.keyword .string).weaken.union Means.null.weaken).parenthesized.array.weaken
  have hread := Reading.parse_of_means hbare (Reading.lexical_unite_iff.mpr ⟨hstring, harray hnull⟩)
  have hread' := Reading.parse_of_means hcovered (harray hunion)
  refine ⟨hsolid, by rfl, by rfl, hread, hread', ?_⟩
  rintro ⟨t, hlexical, hmeans, hmeans'⟩
  -- the reader would find the one type in both texts
  have hsame := (Reading.parse_of_means hmeans hlexical).symm.trans hread
  have hsame' := (Reading.parse_of_means hmeans' hlexical).symm.trans hread'
  cases hsame.symm.trans hsame'

end TypeBridge
