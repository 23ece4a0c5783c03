import TypeBridge.Proofs.Outcome
import TypeBridge.Proofs.Spelling
import TypeBridge.Proofs.Strength
import TypeBridge.Proofs.Walk

/-!
Printed types read back as written. Every expression that types are made of has a text at every depth
of nesting, and reading the text gives the expression again. Two things do not show in a text: where a
name comes from, of which it has only what is emitted, and unions directly in unions or intersections
directly in intersections, which stand there without parentheses.
-/

namespace TypeBridge

namespace Expr

/-- Takes the arms of a union in a union as its own, and likewise for intersections. -/
def flattenStep : Expr → Expr
  | .union arms => .union (arms.flatMap unionArms)
  | .intersection parts => .intersection (parts.flatMap intersectionParts)
  | e => e

/-- The expression without unions directly in unions and intersections directly in intersections. -/
def flattened (e : Expr) : Expr := e.mapSubterms flattenStep

/-- Knows a reference by its emitted name alone. -/
def nameStep : Expr → Expr
  | .reference name args => .builtin name.emitted args
  | e => e

/-- The expression with names as they are emitted. -/
def byName (e : Expr) : Expr := e.mapSubterms nameStep

theorem flattened_eq (e : Expr) : e.flattened = flattenStep (e.mapChildren flattened) :=
  mapSubterms_eq flattenStep e

theorem byName_eq (e : Expr) : e.byName = nameStep (e.mapChildren byName) := mapSubterms_eq nameStep e

/-- What the text of an expression shows. -/
def shown (e : Expr) : Expr := e.byName.flattened

theorem mapChildren_nameStep (f : Expr → Expr) (e : Expr) :
    (nameStep e).mapChildren f = nameStep (e.mapChildren f) := by
  cases e <;> rfl

/-- What a text shows of an expression, in terms of what it shows of the expressions inside. -/
theorem shown_eq (e : Expr) : e.shown = flattenStep (nameStep (e.mapChildren shown)) :=
  calc e.shown
      = (nameStep (e.mapChildren byName)).flattened := congrArg flattened (byName_eq e)
    _ = flattenStep ((nameStep (e.mapChildren byName)).mapChildren flattened) := flattened_eq _
    _ = flattenStep (nameStep (e.mapChildren shown)) := by
        rw [mapChildren_nameStep, mapChildren_mapChildren]
        rfl

theorem isUnion_shown (e : Expr) : e.shown.isUnion = e.isUnion := by
  rw [shown_eq]
  cases e <;> rfl

/-- All names of an expression are emitted as they are: none has a package or a prefix. -/
def Bare (e : Expr) : Prop :=
  ∀ name args, .reference name args ∈ e.subterms → name.package = none ∧ name.namePrefix = ""

theorem Bare.nameStep_eq_self {e t : Expr} (h : e.Bare) (ht : t ∈ e.subterms) : nameStep t = t := by
  cases t with
  | reference name args =>
      have hname := h name args ht
      obtain ⟨name, package, namePrefix⟩ := name
      obtain ⟨rfl, rfl⟩ : package = none ∧ namePrefix = "" := hname
      rw [nameStep, builtin, Identifier.emitted, String.empty_append]
  | _ => rfl

theorem byName_eq_self {e : Expr} (h : e.Bare) : e.byName = e :=
  mapSubterms_eq_self fun _ => h.nameStep_eq_self

end Expr

namespace Reading

variable {a : Alphabet}

/-- The expressions that types are made of, in an alphabet for the names. -/
inductive Readable (a : Alphabet) : Expr → Prop
  | keyword (word : Keyword) : Readable a (.keyword word)
  | null : Readable a .null
  | string (value : String) : Readable a (.literal (.string value))
  | int (value : Int64) : Readable a (.literal (.int value))
  | bool (value : Bool) : Readable a (.literal (.bool value))
  | reference {name : Identifier} {args : List Expr} (hword : IsWord a name.emitted)
      (hname : IsName a name.emitted) (hargs : ∀ arg ∈ args, Readable a arg) :
      Readable a (.reference name args)
  | array {elem : Expr} (helem : Readable a elem) : Readable a (.array elem)
  | arrayLiteral {items : List Expr} (hitems : ∀ item ∈ items, Readable a item) :
      Readable a (.arrayLiteral items)
  | operator (op : Operator) {inner : Expr} (hinner : Readable a inner) :
      Readable a (.operator op inner)
  | typeLiteral {members : List Property}
      (hplain : ∀ m ∈ members, m.comments = [] ∧ (m.modifiers = [] ∨ m.modifiers = [.readonly]))
      (htypes : ∀ m ∈ members, Readable a m.type) : Readable a (.typeLiteral members)
  | union {arms : List Expr} (hmany : 2 ≤ arms.length) (harms : ∀ arm ∈ arms, Readable a arm) :
      Readable a (.union arms)
  | intersection {parts : List Expr} (hmany : 2 ≤ parts.length)
      (hparts : ∀ part ∈ parts, Readable a part) : Readable a (.intersection parts)

/-- Whatever needs no parentheses when it is printed needs none when it is read. -/
theorem Readable.needsParens_shown {e : Expr} (h : Readable a e) (hprinted : e.needsParens = false) :
    e.shown.needsParens = false := by
  rw [Expr.shown_eq]
  cases h with
  | union hmany =>
      simp only [Expr.needsParens, decide_eq_false_iff_not] at hprinted
      omega
  | intersection hmany =>
      simp only [Expr.needsParens, decide_eq_false_iff_not] at hprinted
      omega
  | operator => cases hprinted
  | _ => rfl

/-! ### Texts of composite types -/

section Composite

variable {s w lines : String} {texts : List String} {ts : List Lexeme} {tss : List (List Lexeme)}

theorem spells_reference (hword : IsWord a w)
    (h : List.Forall₂ (fun s ts => Spells a s.toList ts) texts tss) :
    Spells a (w ++ "<" ++ String.intercalate ", " texts ++ ">").toList
      (.word w :: .mark '<' :: ([.mark ','].intercalate tss ++ [.mark '>'])) := by
  have hargs := (separator_comma.spells_intercalate h).between (o := '<') (c := '>') (by decide)
    (by decide)
  have hall := hword.spells.append_closes hargs (.cons rfl _) (List.cons_ne_nil _ _)
  rw [String.toList_append, String.toList_append, String.toList_append, List.append_assoc,
    List.append_assoc]
  exact hall.spells

theorem spells_arrayLiteral (h : List.Forall₂ (fun s ts => Spells a s.toList ts) texts tss) :
    Spells a ("[" ++ String.intercalate ", " texts ++ "]").toList
      (.mark '[' :: ([.mark ','].intercalate tss ++ [.mark ']'])) := by
  rw [String.toList_append, String.toList_append]
  exact ((separator_comma.spells_intercalate h).between (by decide) (by decide)).spells

theorem spells_array (h : Spells a s.toList ts) :
    Spells a (s ++ "[]").toList (ts ++ [.mark '[', .mark ']']) := by
  have hbrackets : Closes a "[]".toList [.mark '[', .mark ']'] :=
    (closes_mark (c := '[') (by decide)).append (closes_mark (c := ']') (by decide))
  rw [String.toList_append]
  exact (h.append_closes hbrackets (.cons rfl _) (List.cons_ne_nil _ _)).spells

theorem spells_operator (op : Operator) (h : Spells a s.toList ts) :
    Spells a (op.word ++ " " ++ s).toList (.word op.word :: ts) := by
  rw [String.toList_append]
  exact (closes_operator op).append_spells h

theorem spells_noMembers : Spells a "\x7b\x7d".toList [.mark '\x7b', .mark '\x7d'] :=
  ((closes_mark (c := '\x7b') (by decide)).append (closes_mark (c := '\x7d') (by decide))).spells

theorem spells_typeLiteral (style : Style) (depth : Nat) (h : Closes a lines.toList ts) :
    Spells a ("\x7b\n" ++ lines ++ style.pad depth ++ "\x7d").toList
      (.mark '\x7b' :: (ts ++ [.mark '\x7d'])) := by
  have hopen : Closes a "\x7b\n".toList [.mark '\x7b'] :=
    (closes_mark (c := '\x7b') (by decide)).append (closes_layout (by decide))
  have hclose : Closes a "\x7d".toList [.mark '\x7d'] := closes_mark (by decide)
  rw [String.toList_append, String.toList_append, String.toList_append, List.append_assoc,
    List.append_assoc]
  exact (hopen.append (h.append ((closes_pad style depth).append hclose))).spells

end Composite

/-! ### Texts and what they show -/

/-- An expression is printed as lexemes that are read as what its text shows. -/
def Printed (a : Alphabet) (style : Style) (e : Expr) : Prop :=
  ∀ depth, ∃ s ts, style.expr depth e = .ok s ∧ Spells a s.toList ts ∧ Stands a ts e.shown

variable {style : Style} {depth : Nat} {es : List Expr} {e : Expr}

theorem exists_exprs (h : ∀ e ∈ es, Printed a style e) (depth : Nat) :
    ∃ texts tss, style.exprs depth es = .ok texts ∧
      List.Forall₂ (fun s ts => Spells a s.toList ts) texts tss ∧
      List.Forall₂ (Stands a) tss (es.map Expr.shown) := by
  induction es with
  | nil => exact ⟨[], [], rfl, .nil, .nil⟩
  | cons e es ih =>
      obtain ⟨hfirst, hlater⟩ := List.forall_mem_cons.mp h
      obtain ⟨s, ts, hs, hspells, hstands⟩ := hfirst depth
      obtain ⟨texts, tss, htexts, hspellsAll, hstandsAll⟩ := ih hlater
      refine ⟨s :: texts, ts :: tss, ?_, .cons hspells hspellsAll, .cons hstands hstandsAll⟩
      exact bind_ok hs (bind_ok htexts rfl)

/-- A type in parentheses where it wants them, and as it is otherwise. -/
theorem spells_parenthesized {s : String} {ts : List Lexeme} (h : Spells a s.toList ts) :
    Closes a (parenthesized s).toList (.mark '(' :: (ts ++ [.mark ')'])) := by
  rw [parenthesized, String.toList_append, String.toList_append]
  exact h.between (by decide) (by decide)

/-- The operand of an operator or of brackets, in parentheses where it wants them. -/
theorem exists_operand (h : Readable a e) {s : String} {ts : List Lexeme}
    (hspells : Spells a s.toList ts) (hstands : Stands a ts e.shown) :
    ∃ ts', Spells a (if e.needsParens then parenthesized s else s).toList ts' ∧
      ∀ n, ts'.length ≤ n + 1 → Tight a (readType a n) ts' e.shown := by
  cases hparens : e.needsParens with
  | true =>
      refine ⟨_, (spells_parenthesized hspells).spells, fun n hn => hstands.whole.parenthesized ?_⟩
      simp only [List.length_cons, List.length_append] at hn
      omega
  | false =>
      exact ⟨ts, hspells, fun n hn => (hstands n hn).asOperand (h.needsParens_shown hparens)⟩

/-- Lexemes that are read as parts of an intersection. -/
def PartStands (a : Alphabet) (ts : List Lexeme) (e : Expr) : Prop :=
  ∀ n, ts.length ≤ n + 1 →
    Listed (readOperand a (readType a n)) '&' ['<', '['] ts e.intersectionParts

/-- A part of an intersection: only a union wants parentheses. -/
theorem exists_part {s : String} {ts : List Lexeme} (hspells : Spells a s.toList ts)
    (hstands : Stands a ts e.shown) :
    ∃ ts', Spells a (if e.isUnion then parenthesized s else s).toList ts' ∧
      PartStands a ts' e.shown := by
  cases hunion : e.isUnion with
  | true =>
      -- in its parentheses a union is a single part
      refine ⟨_, (spells_parenthesized hspells).spells, fun n hn => ?_⟩
      have hparts : e.shown.intersectionParts = [e.shown] := by
        rw [Expr.shown_eq]
        cases e <;> first | rfl | cases hunion
      rw [hparts]
      simp only [List.length_cons, List.length_append] at hn
      exact .single (hstands.whole.parenthesized (by omega)).gives (by decide)
  | false =>
      refine ⟨ts, hspells, fun n hn => (hstands n hn).asParts ?_⟩
      rw [Expr.isUnion_shown, hunion]

theorem exists_intersectionParts (h : ∀ e ∈ es, Printed a style e) (depth : Nat) :
    ∃ texts tss, style.intersectionParts depth es = .ok texts ∧
      List.Forall₂ (fun s ts => Spells a s.toList ts) texts tss ∧
      List.Forall₂ (PartStands a) tss (es.map Expr.shown) := by
  induction es with
  | nil => exact ⟨[], [], rfl, .nil, .nil⟩
  | cons e es ih =>
      obtain ⟨hfirst, hlater⟩ := List.forall_mem_cons.mp h
      obtain ⟨s, ts, hs, hspells, hstands⟩ := hfirst depth
      obtain ⟨ts', hspells', hpart⟩ := exists_part hspells hstands
      obtain ⟨texts, tss, htexts, hspellsAll, hpartsAll⟩ := ih hlater
      refine ⟨_ :: texts, ts' :: tss, ?_, .cons hspells' hspellsAll, .cons hpart hpartsAll⟩
      exact bind_ok hs (bind_ok htexts rfl)

/-! ### Members -/

theorem memberName?_nameLexeme (name : String) : memberName? (nameLexeme name) = some name := by
  rw [nameLexeme]
  split <;> rfl

theorem closes_modifierText {modifiers : List Modifier}
    (h : modifiers = [] ∨ modifiers = [.readonly]) :
    Closes a (modifierText modifiers).toList (modifiers.map fun m => .word m.word) := by
  rcases h with rfl | rfl
  · exact .nil
  · exact closes_operator .readonly

/-- The line of a member without comments. -/
theorem closes_propertyLine (style : Style) (depth : Nat) (name : String) {modifiers : List Modifier}
    (hmodifiers : modifiers = [] ∨ modifiers = [.readonly]) (optional : Bool) {s : String}
    {ts : List Lexeme} (hspells : Spells a s.toList ts) :
    Closes a (style.propertyLine depth name modifiers optional [] s).toList
      (memberLexemes modifiers (nameLexeme name) optional ts) := by
  -- from the end of the line to its front: where a word ends depends on what comes after it
  have hend : Closes a [';', '\n'] [.mark ';'] :=
    (closes_mark (c := ';') (by decide)).append (closes_layout (by decide))
  have htype : Closes a (s.toList ++ [';', '\n']) (ts ++ [.mark ';']) :=
    hspells.append_closes hend (.cons rfl _) (List.cons_ne_nil _ _)
  have hcolon : Closes a (':' :: ' ' :: (s.toList ++ [';', '\n'])) (.mark ':' :: (ts ++ [.mark ';'])) :=
    (closes_mark (c := ':') (by decide)).append ((closes_layout (c := ' ') (by decide)).append htype)
  have hoptional : Closes a
      ((if optional then "?" else "").toList ++ ':' :: ' ' :: (s.toList ++ [';', '\n']))
      ((if optional then [.mark '?'] else []) ++ .mark ':' :: (ts ++ [.mark ';'])) := by
    cases optional with
    | false => exact hcolon
    | true => exact (closes_mark (c := '?') (by decide)).append hcolon
  have hname := (spells_propertyName name).append_closes hoptional
    (by cases optional <;> exact .cons rfl _) (by cases optional <;> exact List.cons_ne_nil _ _)
  have hline := (closes_pad style depth).append ((closes_modifierText hmodifiers).append hname)
  have htext : (style.propertyLine depth name modifiers optional [] s).toList =
      (style.pad depth).toList ++ ((modifierText modifiers).toList ++ ((propertyName name).toList ++
        ((if optional then "?" else "").toList ++ ':' :: ' ' :: (s.toList ++ [';', '\n'])))) := by
    simp [Style.propertyLine, Comment.leadingText, Comment.trailingText]
  rw [htext]
  exact hline

theorem exists_properties {members : List Property}
    (hplain : ∀ m ∈ members, m.comments = [] ∧ (m.modifiers = [] ∨ m.modifiers = [.readonly]))
    (h : ∀ m ∈ members, Printed a style m.type) (depth : Nat) :
    ∃ lines tss, style.properties depth members = .ok lines ∧ Closes a lines.toList tss.flatten ∧
      List.Forall₂ (MemberStands a) tss (members.map (Property.mapType Expr.shown)) := by
  induction members with
  | nil => exact ⟨"", [], rfl, .nil, .nil⟩
  | cons m members ih =>
      obtain ⟨hfirst, hlater⟩ := List.forall_mem_cons.mp h
      obtain ⟨hfirstPlain, hlaterPlain⟩ := List.forall_mem_cons.mp hplain
      obtain ⟨name, modifiers, optional, type, comments⟩ := m
      obtain ⟨rfl, hmodifiers⟩ : comments = [] ∧ (modifiers = [] ∨ modifiers = [.readonly]) :=
        hfirstPlain
      obtain ⟨s, ts, hs, hspells, hstands⟩ := hfirst depth
      obtain ⟨lines, tss, hlines, hcloses, hmembers⟩ := ih hlaterPlain hlater
      have hline := closes_propertyLine style depth name hmodifiers optional hspells
      have hmember : MemberStands a (memberLexemes modifiers (nameLexeme name) optional ts)
          ⟨name, modifiers, optional, type.shown, []⟩ :=
        hstands.whole.member (memberName?_nameLexeme name) hmodifiers
      refine ⟨style.propertyLine depth name modifiers optional [] s ++ lines, _ :: tss, ?_, ?_,
        .cons hmember hmembers⟩
      · exact bind_ok hs (bind_ok hlines rfl)
      · rw [String.toList_append, List.flatten_cons]
        exact hline.append hcloses

/-! ### Expressions -/

section Constructors

variable {name : Identifier} {args arms parts items : List Expr} {elem inner : Expr}
  {members : List Property}

theorem Printed.keyword (word : Keyword) : Printed a style (.keyword word) := fun _ =>
  ⟨_, _, rfl, spells_keyword word, .keyword word⟩

theorem Printed.null : Printed a style .null := fun _ =>
  ⟨_, _, rfl, (isWord_of_isIdentifierName (by decide)).spells, .null⟩

theorem Printed.string (value : String) : Printed a style (.literal (.string value)) := fun _ =>
  ⟨_, _, rfl, (closes_literalString value).spells, .string value⟩

theorem Printed.bool (value : Bool) : Printed a style (.literal (.bool value)) := fun _ =>
  ⟨_, _, rfl, (isWord_of_isIdentifierName (by cases value <;> decide)).spells, .bool value⟩

theorem Printed.int (value : Int64) : Printed a style (.literal (.int value)) := by
  intro depth
  obtain ⟨ts, hspells, ⟨rfl, hpositive⟩ | ⟨rfl, hnegative⟩⟩ := spells_intText (a := a) value
  · exact ⟨_, _, rfl, hspells, .natural hpositive⟩
  · exact ⟨_, _, rfl, hspells, .negative hnegative⟩

theorem Printed.reference (hword : IsWord a name.emitted) (hname : IsName a name.emitted)
    (hargs : ∀ arg ∈ args, Printed a style arg) : Printed a style (.reference name args) := by
  intro depth
  obtain ⟨texts, tss, htexts, hspells, hstands⟩ := exists_exprs hargs depth
  suffices hprinted : ∃ s ts, style.expr depth (.reference name args) = .ok s ∧ Spells a s.toList ts ∧
      Stands a ts (.builtin name.emitted (args.map Expr.shown)) by
    rw [Expr.shown_eq]
    exact hprinted
  rw [Style.expr, htexts]
  cases hspells with
  | nil =>
      rw [List.forall₂_nil_left_iff.mp hstands]
      exact ⟨name.emitted, _, rfl, hword.spells, .name hname⟩
  | @cons s ts texts tss hfirst hlater =>
      exact ⟨name.emitted ++ "<" ++ String.intercalate ", " (s :: texts) ++ ">", _, rfl,
        spells_reference hword (.cons hfirst hlater),
        .reference hname (hstands.imp fun _ _ h => h.whole) (List.cons_ne_nil _ _)⟩

theorem Printed.array (helem : Readable a elem) (h : Printed a style elem) :
    Printed a style (.array elem) := by
  intro depth
  obtain ⟨s, ts, hs, hspells, hstands⟩ := h depth
  obtain ⟨ts', hspells', htight⟩ := exists_operand helem hspells hstands
  rw [Expr.shown_eq]
  exact ⟨(if elem.needsParens then parenthesized s else s) ++ "[]", ts' ++ [.mark '[', .mark ']'],
    bind_ok hs rfl, spells_array hspells', .array htight⟩

theorem Printed.arrayLiteral (hitems : ∀ item ∈ items, Printed a style item) :
    Printed a style (.arrayLiteral items) := by
  intro depth
  obtain ⟨texts, tss, htexts, hspells, hstands⟩ := exists_exprs hitems depth
  rw [Expr.shown_eq]
  exact ⟨"[" ++ String.intercalate ", " texts ++ "]", _, bind_ok htexts rfl,
    spells_arrayLiteral hspells, .arrayLiteral (hstands.imp fun _ _ h => h.whole)⟩

theorem Printed.operator (op : Operator) (hinner : Readable a inner) (h : Printed a style inner) :
    Printed a style (.operator op inner) := by
  intro depth
  obtain ⟨s, ts, hs, hspells, hstands⟩ := h depth
  obtain ⟨ts', hspells', htight⟩ := exists_operand hinner hspells hstands
  rw [Expr.shown_eq]
  refine ⟨op.word ++ " " ++ (if inner.needsParens then parenthesized s else s),
    .word op.word :: ts', bind_ok hs rfl, spells_operator op hspells', fun n hn => ?_⟩
  exact .operator (htight n (Nat.le_of_succ_le hn)).gives op

theorem Printed.typeLiteral
    (hplain : ∀ m ∈ members, m.comments = [] ∧ (m.modifiers = [] ∨ m.modifiers = [.readonly]))
    (htypes : ∀ m ∈ members, Printed a style m.type) : Printed a style (.typeLiteral members) := by
  intro depth
  rw [Expr.shown_eq]
  cases members with
  | nil => exact ⟨_, _, rfl, spells_noMembers, .typeLiteral .nil⟩
  | cons m members =>
      obtain ⟨lines, tss, hlines, hcloses, hmembers⟩ := exists_properties hplain htypes (depth + 1)
      exact ⟨"\x7b\n" ++ lines ++ style.pad depth ++ "\x7d", _, bind_ok hlines rfl,
        spells_typeLiteral style depth hcloses, .typeLiteral hmembers⟩

theorem Printed.union (hmany : 2 ≤ arms.length) (harms : ∀ arm ∈ arms, Printed a style arm) :
    Printed a style (.union arms) := by
  intro depth
  obtain ⟨texts, tss, htexts, hspells, hstands⟩ := exists_exprs harms depth
  have hlength := hstands.length_eq
  rw [List.length_map] at hlength
  rw [Expr.shown_eq]
  refine ⟨String.intercalate " | " texts, _, ?_, (Separator.spaced (by decide) rfl).spells_intercalate hspells, ?_⟩
  · exact bind_ok htexts rfl
  · intro n hn
    have harmsListed := forall₂_map_of_mem hstands fun ts hts e he =>
      (he n (Nat.le_trans (length_le_intercalate hts _) hn)).asArms
    obtain ⟨hall, htwo⟩ := Listed.intercalate_of_two_le harmsListed (hlength ▸ hmany)
    exact .union hall htwo

theorem Printed.intersection (hmany : 2 ≤ parts.length)
    (hparts : ∀ part ∈ parts, Printed a style part) : Printed a style (.intersection parts) := by
  intro depth
  obtain ⟨texts, tss, htexts, hspells, hstands⟩ := exists_intersectionParts hparts depth
  have hlength := hstands.length_eq
  rw [List.length_map] at hlength
  rw [Expr.shown_eq]
  refine ⟨String.intercalate " & " texts, _, ?_, (Separator.spaced (by decide) rfl).spells_intercalate hspells, ?_⟩
  · exact bind_ok htexts rfl
  · intro n hn
    have hpartsListed := forall₂_map_of_mem hstands fun ts hts e he =>
      he n (Nat.le_trans (length_le_intercalate hts _) hn)
    obtain ⟨hall, htwo⟩ := Listed.intercalate_of_two_le hpartsListed (hlength ▸ hmany)
    exact .intersection hall htwo

end Constructors

/-- Every expression that types are made of is printed as what it stands for. -/
theorem Readable.printed (h : Readable a e) (style : Style) : Printed a style e := by
  induction h with
  | keyword word => exact .keyword word
  | null => exact .null
  | string value => exact .string value
  | int value => exact .int value
  | bool value => exact .bool value
  | reference hword hname _ ih => exact .reference hword hname ih
  | array helem ih => exact .array helem ih
  | arrayLiteral _ ih => exact .arrayLiteral ih
  | operator op hinner ih => exact .operator op hinner ih
  | typeLiteral hplain _ ih => exact .typeLiteral hplain ih
  | union hmany _ ih => exact .union hmany ih
  | intersection hmany _ ih => exact .intersection hmany ih

theorem parse_eq_of_spells {s : String} {ts : List Lexeme} (hspells : Spells a s.toList ts)
    (hwhole : Whole a ts e) : parse a s = some e := by
  have hlex := hspells [] .nil
  have hread := (hwhole _ (Nat.le_refl _)).reads [] (.nil _)
  rw [List.append_nil, lex, Option.map_some, List.append_nil] at hlex
  rw [List.append_nil] at hread
  rw [parse, hlex, Option.bind_eq_bind, Option.bind_some, hread]

/-- Printed types read back as written, with any indentation, at any depth and in any alphabet: the
text of an expression that types are made of is read as the expression, with names as they are emitted
and without unions directly in unions and intersections directly in intersections. Where no name has a
package or a prefix, the names are those of the expression. -/
theorem parse_printed (a : Alphabet) (style : Style) (depth : Nat) (e : Expr) (h : Readable a e) :
    ∃ s, style.expr depth e = .ok s ∧ parse a s = some e.byName.flattened ∧
      (e.Bare → parse a s = some e.flattened) := by
  obtain ⟨s, ts, hs, hspells, hstands⟩ := h.printed style depth
  have hread : parse a s = some e.byName.flattened := parse_eq_of_spells hspells hstands.whole
  refine ⟨s, hs, hread, fun hbare => ?_⟩
  rw [hread, Expr.byName_eq_self hbare]

/-- Names of ASCII letters, none of them kept from being names. -/
def ascii : Alphabet := ⟨fun _ => false, fun _ => false, fun _ => false⟩

/-- A member that is called as its modifier. -/
def rowKeys : Expr :=
  .typeLiteral [⟨"readonly", [.readonly], true, .operator .keyof (.builtin "Row" [.keyword .any]), []⟩]

/-- A union in a union in an intersection in an array. -/
def nestedExpr : Expr :=
  .array (.intersection
    [rowKeys, .union [.null, .union [.literal (.int (-1)), .literal (.string "a\"\n")]]])

def nestedText : String :=
  "(\x7b\n    readonly readonly?: keyof Row<any>;\n  \x7d & (null | -1 | \"a\\\"\\n\"))[]"

theorem parse_printed_nested :
    Style.expr { indent := 2 } 1 nestedExpr = .ok nestedText ∧
    parse ascii nestedText = some (.array (.intersection
      [rowKeys, .union [.null, .literal (.int (-1)), .literal (.string "a\"\n")]])) := by
  have pair : ∀ {x y : Expr}, Readable ascii x → Readable ascii y → ∀ e ∈ [x, y], Readable ascii e := by
    intro x y hx hy
    simp [hx, hy]
  have hrow : Readable ascii (.builtin "Row" [.keyword .any]) :=
    .reference (isWord_of_isIdentifierName (by decide)) ⟨rfl, rfl, rfl⟩
      (List.forall_mem_singleton.mpr (.keyword .any))
  have hkeys : Readable ascii rowKeys :=
    .typeLiteral (by simp) (List.forall_mem_singleton.mpr (.operator .keyof hrow))
  have hliterals : Readable ascii (.union [.literal (.int (-1)), .literal (.string "a\"\n")]) :=
    .union (by decide) (pair (.int _) (.string _))
  have hnested : Readable ascii nestedExpr :=
    .array (.intersection (by decide) (pair hkeys (.union (by decide) (pair .null hliterals))))
  have hbare : nestedExpr.Bare := by
    intro name args hmem
    simp [nestedExpr, rowKeys, Expr.subterms, Expr.subtermsList, Expr.subtermsMembers,
      Expr.builtin] at hmem
    obtain ⟨rfl, -⟩ := hmem
    exact ⟨rfl, rfl⟩
  obtain ⟨s, hs, -, hread⟩ := parse_printed ascii { indent := 2 } 1 nestedExpr hnested
  have htext : Style.expr { indent := 2 } 1 nestedExpr = .ok nestedText := by rfl
  obtain rfl : nestedText = s := Except.ok.inj (htext.symm.trans hs)
  exact ⟨htext, hread hbare⟩

end Reading

end TypeBridge
