import TypeBridge.Proofs.ReadBack

/-!
What the texts of types mean. A text means a type by the rules of the grammar, in the order in which
types bind: a union, an intersection, an operand with its operators, and a type to which brackets may
be added. Parentheses around a text only make it bind, and the arms of a union in a union are arms of
both, with parentheses or without, as are the parts of intersections. The rules say nothing about how
a text is read; where the names in it are words, the reader finds the one type that it means.
-/

namespace TypeBridge

namespace Expr

/-- A union of two types with the arms of both. -/
def unite (t t' : Expr) : Expr := .union (t.unionArms ++ t'.unionArms)

/-- An intersection of two types with the parts of both. -/
def meet (t t' : Expr) : Expr := .intersection (t.intersectionParts ++ t'.intersectionParts)

end Expr

/-- The line of a member whose type has some text. -/
def Style.memberLine (style : Style) (depth : Nat) (m : String × Property) : String :=
  style.propertyLine depth m.2.name m.2.modifiers m.2.optional m.2.comments m.1

/-- How strongly a text binds, from the weakest. -/
inductive Strength where
  | union
  | intersection
  | operator
  | bracket
deriving DecidableEq

/-- The texts, as a style lays them out at some depth, that mean a type and bind with some strength. -/
inductive Means (style : Style) : Nat → Strength → String → Expr → Prop
  | keyword {depth} (word : Keyword) : Means style depth .bracket word.word (.keyword word)
  | literal {depth value s} (hs : value.print = .ok s) : Means style depth .bracket s (.literal value)
  | null {depth} : Means style depth .bracket "null" .null
  | name {depth} (name : Identifier) : Means style depth .bracket name.emitted (.reference name [])
  | reference {depth} (name : Identifier) {args : List (String × Expr)} (hne : args ≠ [])
      (hargs : ∀ arg ∈ args, Means style depth .union arg.1 arg.2) :
      Means style depth .bracket
        (name.emitted ++ "<" ++ String.intercalate ", " (args.map Prod.fst) ++ ">")
        (.reference name (args.map Prod.snd))
  | tuple {depth s elem} (length : Nat) (helem : Means style depth .union s elem) :
      Means style depth .bracket ("[" ++ String.intercalate ", " (List.replicate length s) ++ "]")
        (.tuple elem length)
  | arrayLiteral {depth} {items : List (String × Expr)}
      (hitems : ∀ item ∈ items, Means style depth .union item.1 item.2) :
      Means style depth .bracket ("[" ++ String.intercalate ", " (items.map Prod.fst) ++ "]")
        (.arrayLiteral (items.map Prod.snd))
  | noMembers {depth} : Means style depth .bracket "\x7b\x7d" (.typeLiteral [])
  | typeLiteral {depth} {members : List (String × Property)} (hne : members ≠ [])
      (hmembers : ∀ m ∈ members, Means style (depth + 1) .union m.1 m.2.type) :
      Means style depth .bracket
        ("\x7b\n" ++ String.join (members.map (style.memberLine (depth + 1))) ++ style.pad depth
          ++ "\x7d")
        (.typeLiteral (members.map Prod.snd))
  | parenthesized {depth s t} (h : Means style depth .union s t) :
      Means style depth .bracket (parenthesized s) t
  | array {depth s t} (h : Means style depth .bracket s t) :
      Means style depth .bracket (s ++ "[]") (.array t)
  | ofBracket {depth s t} (h : Means style depth .bracket s t) : Means style depth .operator s t
  | operator {depth s t} (op : Operator) (h : Means style depth .operator s t) :
      Means style depth .operator (op.word ++ " " ++ s) (.operator op t)
  | ofOperator {depth s t} (h : Means style depth .operator s t) : Means style depth .intersection s t
  | intersection {depth s s' t t'} (h : Means style depth .intersection s t)
      (h' : Means style depth .intersection s' t') :
      Means style depth .intersection (s ++ " & " ++ s') (t.meet t')
  | ofIntersection {depth s t} (h : Means style depth .intersection s t) : Means style depth .union s t
  | union {depth s s' t t'} (h : Means style depth .union s t)
      (h' : Means style depth .union s' t') :
      Means style depth .union (s ++ " | " ++ s') (t.unite t')

namespace Expr

variable {t t' : Expr} {ts ts' : List Expr}

theorem unionArms_byName (t : Expr) : t.byName.unionArms = t.unionArms.map byName := by
  rw [byName_eq]
  cases t with
  | union arms => rfl
  | _ => exact congrArg ([·]) (byName_eq _).symm

theorem intersectionParts_byName (t : Expr) :
    t.byName.intersectionParts = t.intersectionParts.map byName := by
  rw [byName_eq]
  cases t with
  | intersection parts => rfl
  | _ => exact congrArg ([·]) (byName_eq _).symm

theorem byName_unite (t t' : Expr) : (t.unite t').byName = t.byName.unite t'.byName := by
  rw [unite, unite, unionArms_byName, unionArms_byName, ← List.map_append, byName_eq]
  rfl

theorem byName_meet (t t' : Expr) : (t.meet t').byName = t.byName.meet t'.byName := by
  rw [meet, meet, intersectionParts_byName, intersectionParts_byName, ← List.map_append, byName_eq]
  rfl

theorem flattened_union (ts : List Expr) :
    (union ts).flattened = .union (ts.flatMap fun t => t.flattened.unionArms) := by
  rw [flattened_eq, mapChildren, flattenStep, List.flatMap_map]

theorem flattened_intersection (ts : List Expr) :
    (intersection ts).flattened = .intersection (ts.flatMap fun t => t.flattened.intersectionParts) := by
  rw [flattened_eq, mapChildren, flattenStep, List.flatMap_map]

/-- The arms of arms that make one type. -/
theorem unionArms_flattened_combine (hne : ts ≠ []) :
    (Reading.combine .union ts).flattened.unionArms = ts.flatMap fun t => t.flattened.unionArms := by
  match ts, hne with
  | [t], _ => rw [Reading.combine, List.flatMap_singleton]
  | t :: t' :: ts, _ => exact congrArg unionArms (flattened_union _)

theorem intersectionParts_flattened_combine (hne : ts ≠ []) :
    (Reading.combine .intersection ts).flattened.intersectionParts =
      ts.flatMap fun t => t.flattened.intersectionParts := by
  match ts, hne with
  | [t], _ => rw [Reading.combine, List.flatMap_singleton]
  | t :: t' :: ts, _ => exact congrArg intersectionParts (flattened_intersection _)

theorem two_le_length_append (hne : ts ≠ []) (hne' : ts' ≠ []) : 2 ≤ (ts ++ ts').length := by
  have hpos := List.length_pos_iff.mpr hne
  have hpos' := List.length_pos_iff.mpr hne'
  rw [List.length_append]
  omega

theorem flattened_combine_union (hne : ts ≠ []) (hne' : ts' ≠ []) :
    (Reading.combine .union (ts ++ ts')).flattened =
      (Reading.combine .union ts).flattened.unite (Reading.combine .union ts').flattened := by
  rw [Reading.Reads.combine_of_two_le _ (two_le_length_append hne hne'), flattened_union,
    List.flatMap_append, unite, unionArms_flattened_combine hne, unionArms_flattened_combine hne']

theorem flattened_combine_intersection (hne : ts ≠ []) (hne' : ts' ≠ []) :
    (Reading.combine .intersection (ts ++ ts')).flattened =
      (Reading.combine .intersection ts).flattened.meet
        (Reading.combine .intersection ts').flattened := by
  rw [Reading.Reads.combine_of_two_le _ (two_le_length_append hne hne'), flattened_intersection,
    List.flatMap_append, meet, intersectionParts_flattened_combine hne,
    intersectionParts_flattened_combine hne']

end Expr

namespace Reading

variable {a : Alphabet} {style : Style} {depth : Nat} {ts ts' : List Lexeme} {t t' : Expr}

/-- What `Readable` wants of a type by itself, whatever stands inside it. -/
def IsLexical (a : Alphabet) : Expr → Prop
  | .literal (.float _) => False
  | .reference name _ => IsWord a name.emitted ∧ IsName a name.emitted
  | .tuple _ _ => False
  | .typeLiteral members =>
      ∀ m ∈ members, m.comments = [] ∧ (m.modifiers = [] ∨ m.modifiers = [.readonly])
  | _ => True

/-- A type in which all names are words, without tuples, fractions and comments. -/
def Lexical (a : Alphabet) (t : Expr) : Prop := ∀ x ∈ t.subterms, IsLexical a x

/-- Lexemes that are read with some strength as a type, up to unions in unions and intersections in
intersections. -/
def ReadAs (a : Alphabet) (ts : List Lexeme) (t : Expr) : Strength → Prop
  | .bracket => ∃ e, e.flattened = t ∧ ∀ n, ts.length ≤ n + 1 → Tight a (readType a n) ts e
  | .operator => ∃ e, e.flattened = t ∧
      ∀ n, ts.length ≤ n + 1 → Gives (readOperand a (readType a n)) ['<', '['] ts e
  | .intersection => ∃ es, (combine .intersection es).flattened = t ∧
      ∀ n, ts.length ≤ n + 1 → Listed (readOperand a (readType a n)) '&' ['<', '['] ts es
  | .union => ∃ es, (combine .union es).flattened = t ∧
      ∀ n, ts.length ≤ n + 1 → Listed (readIntersection a (readType a n)) '|' ['&', '<', '['] ts es

namespace ReadAs

theorem operator_of_bracket (h : ReadAs a ts t .bracket) : ReadAs a ts t .operator := by
  obtain ⟨e, hflat, htight⟩ := h
  exact ⟨e, hflat, fun n hn => (htight n hn).gives⟩

theorem intersection_of_operator (h : ReadAs a ts t .operator) : ReadAs a ts t .intersection := by
  obtain ⟨e, hflat, hgives⟩ := h
  exact ⟨[e], hflat, fun n hn => .single (hgives n hn) (by decide)⟩

theorem union_of_intersection (h : ReadAs a ts t .intersection) : ReadAs a ts t .union := by
  obtain ⟨es, hflat, hlisted⟩ := h
  exact ⟨[combine .intersection es], hflat, fun n hn =>
    .single ((hlisted n hn).gives .intersection) (by decide)⟩

/-- What stands by itself is read as any type. -/
theorem whole (h : ReadAs a ts t .union) : ∃ e, e.flattened = t ∧ Whole a ts e := by
  obtain ⟨es, hflat, hlisted⟩ := h
  have hne : ts ≠ [] := (hlisted _ (Nat.le_succ _)).ne_nil
  exact ⟨_, hflat, .of_succ hne fun n hn => (hlisted n hn).gives .union⟩

theorem of_stands {e : Expr} (h : Stands a ts e) (hparens : e.needsParens = false)
    (hflat : e.flattened = t) : ReadAs a ts t .bracket :=
  ⟨e, hflat, fun n hn => (h n hn).asOperand hparens⟩

theorem parenthesized (h : ReadAs a ts t .union) :
    ReadAs a (.mark '(' :: (ts ++ [.mark ')'])) t .bracket := by
  obtain ⟨e, hflat, hwhole⟩ := h.whole
  refine ⟨e, hflat, fun n hn => hwhole.parenthesized ?_⟩
  simp only [List.length_cons, List.length_append] at hn
  omega

theorem array (h : ReadAs a ts t .bracket) :
    ReadAs a (ts ++ [.mark '[', .mark ']']) (.array t) .bracket := by
  obtain ⟨e, rfl, htight⟩ := h
  refine ⟨.array e, rfl, fun n hn => (htight n ?_).array⟩
  simp only [List.length_append] at hn
  omega

theorem operator (op : Operator) (h : ReadAs a ts t .operator) :
    ReadAs a (.word op.word :: ts) (.operator op t) .operator := by
  obtain ⟨e, rfl, hgives⟩ := h
  exact ⟨.operator op e, rfl, fun n hn => (hgives n (Nat.le_of_succ_le hn)).operator op⟩

theorem intersection (h : ReadAs a ts t .intersection) (h' : ReadAs a ts' t' .intersection) :
    ReadAs a (ts ++ [.mark '&'] ++ ts') (t.meet t') .intersection := by
  obtain ⟨es, rfl, hlisted⟩ := h
  obtain ⟨es', rfl, hlisted'⟩ := h'
  have hne : es ≠ [] := (hlisted _ (Nat.le_succ _)).items_ne_nil
  have hne' : es' ≠ [] := (hlisted' _ (Nat.le_succ _)).items_ne_nil
  refine ⟨es ++ es', Expr.flattened_combine_intersection hne hne', fun n hn => ?_⟩
  simp only [List.length_append] at hn
  rw [List.append_assoc]
  exact (hlisted n (by omega)).append (hlisted' n (by omega))

theorem union (h : ReadAs a ts t .union) (h' : ReadAs a ts' t' .union) :
    ReadAs a (ts ++ [.mark '|'] ++ ts') (t.unite t') .union := by
  obtain ⟨es, rfl, hlisted⟩ := h
  obtain ⟨es', rfl, hlisted'⟩ := h'
  have hne : es ≠ [] := (hlisted _ (Nat.le_succ _)).items_ne_nil
  have hne' : es' ≠ [] := (hlisted' _ (Nat.le_succ _)).items_ne_nil
  refine ⟨es ++ es', Expr.flattened_combine_union hne hne', fun n hn => ?_⟩
  simp only [List.length_append] at hn
  rw [List.append_assoc]
  exact (hlisted n (by omega)).append (hlisted' n (by omega))

end ReadAs

/-- A text spells lexemes that are read with some strength as a type, by its emitted names. -/
def SpellsAs (a : Alphabet) (s : String) (t : Expr) (k : Strength) : Prop :=
  ∃ ts, Spells a s.toList ts ∧ ReadAs a ts t.byName k

theorem lexical_iff : Lexical a t ↔ (∀ child ∈ t.children, Lexical a child) ∧ IsLexical a t :=
  Expr.forall_subterms_iff

/-- A union is lexical where its arms are. -/
theorem lexical_iff_unionArms : Lexical a t ↔ ∀ arm ∈ t.unionArms, Lexical a arm := by
  cases t with
  | union arms => exact lexical_iff.trans (and_iff_left trivial)
  | _ => exact List.forall_mem_singleton.symm

theorem lexical_iff_intersectionParts :
    Lexical a t ↔ ∀ part ∈ t.intersectionParts, Lexical a part := by
  cases t with
  | intersection parts => exact lexical_iff.trans (and_iff_left trivial)
  | _ => exact List.forall_mem_singleton.symm

theorem lexical_unite_iff : Lexical a (t.unite t') ↔ Lexical a t ∧ Lexical a t' := by
  rw [lexical_iff_unionArms, lexical_iff_unionArms (t := t), lexical_iff_unionArms (t := t')]
  exact List.forall_mem_append

theorem lexical_meet_iff : Lexical a (t.meet t') ↔ Lexical a t ∧ Lexical a t' := by
  rw [lexical_iff_intersectionParts, lexical_iff_intersectionParts (t := t),
    lexical_iff_intersectionParts (t := t')]
  exact List.forall_mem_append

theorem exists_wholes {items : List (String × Expr)}
    (h : ∀ item ∈ items, SpellsAs a item.1 item.2 .union) :
    ∃ tss es, List.Forall₂ (fun s ts => Spells a s.toList ts) (items.map Prod.fst) tss ∧
      List.Forall₂ (Whole a) tss es ∧
      es.map Expr.flattened = (items.map Prod.snd).map Expr.byName := by
  induction items with
  | nil => exact ⟨[], [], .nil, .nil, rfl⟩
  | cons item items ih =>
      obtain ⟨hfirst, hlater⟩ := List.forall_mem_cons.mp h
      obtain ⟨ts, hspells, hreads⟩ := hfirst
      obtain ⟨e, hflat, hwhole⟩ := hreads.whole
      obtain ⟨tss, es, hspellsAll, hwholes, hflats⟩ := ih hlater
      refine ⟨ts :: tss, e :: es, .cons hspells hspellsAll, .cons hwhole hwholes, ?_⟩
      rw [List.map_cons, List.map_cons, List.map_cons, hflat, hflats]

theorem exists_members (style : Style) (depth : Nat) {members : List (String × Property)}
    (hplain : ∀ m ∈ members.map Prod.snd,
      m.comments = [] ∧ (m.modifiers = [] ∨ m.modifiers = [.readonly]))
    (h : ∀ m ∈ members, SpellsAs a m.1 m.2.type .union) :
    ∃ tss ms, Closes a (String.join (members.map (style.memberLine depth))).toList tss.flatten ∧
      List.Forall₂ (MemberStands a) tss ms ∧ ms.map (Property.mapType Expr.flattened) =
        (members.map Prod.snd).map (Property.mapType Expr.byName) := by
  induction members with
  | nil => exact ⟨[], [], .nil, .nil, rfl⟩
  | cons m members ih =>
      obtain ⟨hfirst, hlater⟩ := List.forall_mem_cons.mp h
      obtain ⟨hfirstPlain, hlaterPlain⟩ := List.forall_mem_cons.mp hplain
      obtain ⟨s, name, modifiers, optional, type, comments⟩ := m
      obtain ⟨rfl, hmodifiers⟩ : comments = [] ∧ (modifiers = [] ∨ modifiers = [.readonly]) :=
        hfirstPlain
      obtain ⟨ts, hspells, hreads⟩ := hfirst
      obtain ⟨e, hflat, hwhole⟩ := hreads.whole
      obtain ⟨tss, ms, hcloses, hstands, hflats⟩ := ih hlaterPlain hlater
      have hmember : MemberStands a (memberLexemes modifiers (nameLexeme name) optional ts)
          ⟨name, modifiers, optional, e, []⟩ :=
        hwhole.member (memberName?_nameLexeme name) hmodifiers
      refine ⟨_ :: tss, _ :: ms, ?_, .cons hmember hstands, ?_⟩
      · rw [List.map_cons, String.join_cons, String.toList_append, List.flatten_cons]
        exact (closes_propertyLine style depth name hmodifiers optional hspells).append hcloses
      · rw [List.map_cons, List.map_cons, List.map_cons, hflats]
        exact congrArg (fun type => (⟨name, modifiers, optional, type, []⟩ : Property) :: _) hflat

/-- The text of a lexical type is read as the type, with its strength. -/
theorem spellsAs_of_means {k : Strength} {s : String} (h : Means style depth k s t)
    (hlexical : Lexical a t) : SpellsAs a s t k := by
  induction h with
  | keyword word => exact ⟨_, spells_keyword word, .of_stands (.keyword word) rfl rfl⟩
  | @literal _ value _ hs =>
      cases value with
      | string value =>
          cases hs
          exact ⟨_, (closes_literalString value).spells, .of_stands (.string value) rfl rfl⟩
      | int value =>
          cases hs
          obtain ⟨ts, hspells, ⟨rfl, hpositive⟩ | ⟨rfl, hnegative⟩⟩ := spells_intText (a := a) value
          · exact ⟨_, hspells, .of_stands (.natural hpositive) rfl rfl⟩
          · exact ⟨_, hspells, .of_stands (.negative hnegative) rfl rfl⟩
      | float value => exact (lexical_iff.mp hlexical).2.elim
      | bool value =>
          cases hs
          exact ⟨_, (isWord_of_isIdentifierName (by cases value <;> decide)).spells,
            .of_stands (.bool value) rfl rfl⟩
  | null => exact ⟨_, (isWord_of_isIdentifierName (by decide)).spells, .of_stands .null rfl rfl⟩
  | name name =>
      obtain ⟨hword, hname⟩ := (lexical_iff.mp hlexical).2
      exact ⟨_, hword.spells, .of_stands (.name hname) rfl rfl⟩
  | reference name hne _ ih =>
      obtain ⟨hargs, hword, hname⟩ := lexical_iff.mp hlexical
      obtain ⟨tss, es, hspells, hwholes, hflats⟩ := exists_wholes fun arg harg =>
        ih arg harg (hargs arg.2 (List.mem_map_of_mem harg))
      have hsome : tss ≠ [] := List.ne_nil_of_length_pos
        (hspells.length_eq ▸ List.length_pos_iff.mpr (mt List.map_eq_nil_iff.mp hne))
      refine ⟨_, spells_reference hword hspells, ?_⟩
      refine .of_stands (.reference hname hwholes hsome) rfl ((Expr.flattened_eq _).trans ?_)
      rw [Expr.byName_eq]
      exact congrArg (Expr.builtin name.emitted) hflats
  | tuple => exact (lexical_iff.mp hlexical).2.elim
  | arrayLiteral _ ih =>
      obtain ⟨tss, es, hspells, hwholes, hflats⟩ := exists_wholes fun item hitem =>
        ih item hitem ((lexical_iff.mp hlexical).1 item.2 (List.mem_map_of_mem hitem))
      refine ⟨_, spells_arrayLiteral hspells, ?_⟩
      refine .of_stands (.arrayLiteral hwholes) rfl ((Expr.flattened_eq _).trans ?_)
      rw [Expr.byName_eq]
      exact congrArg Expr.arrayLiteral hflats
  | noMembers => exact ⟨_, spells_noMembers, .of_stands (.typeLiteral .nil) rfl rfl⟩
  | typeLiteral _ _ ih =>
      obtain ⟨htypes, hplain⟩ := lexical_iff.mp hlexical
      obtain ⟨tss, ms, hcloses, hstands, hflats⟩ := exists_members style _ hplain fun m hm =>
        ih m hm (htypes m.2.type (List.mem_map_of_mem (List.mem_map_of_mem hm)))
      refine ⟨_, spells_typeLiteral style _ hcloses, ?_⟩
      refine .of_stands (.typeLiteral hstands) rfl ((Expr.flattened_eq _).trans ?_)
      rw [Expr.byName_eq]
      exact congrArg Expr.typeLiteral hflats
  | parenthesized _ ih =>
      obtain ⟨ts, hspells, hreads⟩ := ih hlexical
      exact ⟨_, (spells_parenthesized hspells).spells, hreads.parenthesized⟩
  | array _ ih =>
      obtain ⟨ts, hspells, hreads⟩ := ih ((lexical_iff.mp hlexical).1 _ (List.mem_singleton_self _))
      exact ⟨_, spells_array hspells, hreads.array⟩
  | ofBracket _ ih =>
      obtain ⟨ts, hspells, hreads⟩ := ih hlexical
      exact ⟨ts, hspells, hreads.operator_of_bracket⟩
  | operator op _ ih =>
      obtain ⟨ts, hspells, hreads⟩ := ih ((lexical_iff.mp hlexical).1 _ (List.mem_singleton_self _))
      exact ⟨_, spells_operator op hspells, hreads.operator op⟩
  | ofOperator _ ih =>
      obtain ⟨ts, hspells, hreads⟩ := ih hlexical
      exact ⟨ts, hspells, hreads.intersection_of_operator⟩
  | intersection _ _ ih ih' =>
      obtain ⟨hleft, hright⟩ := lexical_meet_iff.mp hlexical
      obtain ⟨ts, hspells, hreads⟩ := ih hleft
      obtain ⟨ts', hspells', hreads'⟩ := ih' hright
      refine ⟨_, ?_, Expr.byName_meet _ _ ▸ hreads.intersection hreads'⟩
      rw [String.toList_append, String.toList_append]
      exact (Separator.spaced (c := '&') (by decide) rfl).spells_append hspells hspells'
  | ofIntersection _ ih =>
      obtain ⟨ts, hspells, hreads⟩ := ih hlexical
      exact ⟨ts, hspells, hreads.union_of_intersection⟩
  | union _ _ ih ih' =>
      obtain ⟨hleft, hright⟩ := lexical_unite_iff.mp hlexical
      obtain ⟨ts, hspells, hreads⟩ := ih hleft
      obtain ⟨ts', hspells', hreads'⟩ := ih' hright
      refine ⟨_, ?_, Expr.byName_unite _ _ ▸ hreads.union hreads'⟩
      rw [String.toList_append, String.toList_append]
      exact (Separator.spaced (c := '|') (by decide) rfl).spells_append hspells hspells'

/-- The reader finds the type that a text means: whatever it makes of the text is that type, up to
unions directly in unions and intersections directly in intersections. -/
theorem parse_of_means {s : String} (h : Means style depth .union s t)
    (hlexical : Lexical a t) : (parse a s).map Expr.flattened = some t.byName := by
  obtain ⟨ts, hspells, hreads⟩ := spellsAs_of_means h hlexical
  obtain ⟨e, hflat, hwhole⟩ := hreads.whole
  rw [parse_eq_of_spells hspells hwhole, Option.map_some, hflat]

end Reading

end TypeBridge
