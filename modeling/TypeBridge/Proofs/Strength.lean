import Mathlib.Data.List.Forall2
import TypeBridge.Declaration.Printer
import TypeBridge.Proofs.TypeReader

/-!
What the readers of types make of their lexemes. A reader takes some lexemes for a type whenever what
comes after them does not go on with it; the weaker a reader binds, the more may go on. What is read
with a certain strength is read by all weaker readers as well, a list is read item by item, and marks
around a type let it stand anywhere.
-/

namespace TypeBridge

namespace Expr

/-- The arms that an expression adds to a union around it. -/
def unionArms : Expr → List Expr
  | .union arms => arms
  | e => [e]

/-- The parts that an expression adds to an intersection around it. -/
def intersectionParts : Expr → List Expr
  | .intersection parts => parts
  | e => [e]

end Expr

namespace Reading

variable {a : Alphabet} {inner item : Reader Expr} {c : Char} {stops : List Char}
  {ts ts' : List Lexeme} {e : Expr} {es es' : List Expr}

/-- None of some marks comes next. -/
def Stops (cs : List Char) (rest : List Lexeme) : Prop := ∀ c ∈ cs, rest.head? ≠ some (.mark c)

theorem Stops.nil (cs : List Char) : Stops cs [] := fun _ _ h => nomatch h

theorem Stops.mark {cs : List Char} (h : c ∉ cs) (rest : List Lexeme) : Stops cs (.mark c :: rest) := by
  rintro d hd hhead
  cases hhead
  exact h hd

theorem Stops.mono {cs cs' : List Char} {rest : List Lexeme} (h : Stops cs rest) (hsub : cs' ⊆ cs) :
    Stops cs' rest := fun d hd => h d (hsub hd)

/-- A reader takes lexemes for a type, when none of some marks comes after them. -/
structure Gives (read : Reader Expr) (stops : List Char) (ts : List Lexeme) (e : Expr) : Prop where
  ne_nil : ts ≠ []
  reads : ∀ rest, Stops stops rest → read (ts ++ rest) = some (e, rest)

theorem closing_mark {α : Type} (x : α) (c : Char) (rest : List Lexeme) :
    closing c (x, .mark c :: rest) = some (x, rest) := if_pos rfl

/-! ### Lists -/

/-- Lexemes that are read as items with a mark between them, at the end of a list and within it. -/
structure Listed (item : Reader Expr) (c : Char) (stops : List Char) (ts : List Lexeme)
    (es : List Expr) : Prop where
  length_le : es.length ≤ ts.length
  more : ∀ k rest, separated item c (es.length + k) (ts ++ .mark c :: rest) =
    (separated item c k rest).map fun read => (es ++ read.1, read.2)
  last : ∀ k rest, Stops (c :: stops) rest →
    separated item c (es.length + k) (ts ++ rest) = some (es, rest)

namespace Listed

theorem single (h : Gives item stops ts e) (hc : c ∉ stops) : Listed item c stops ts [e] where
  length_le := List.length_pos_iff.mpr h.ne_nil
  more k rest := by
    rw [List.length_singleton, Nat.add_comm, separated, h.reads _ (.mark hc rest), Option.bind_some]
    exact if_pos rfl
  last k rest hrest := by
    have hstops := hrest.mono (List.subset_cons_self c stops)
    rw [List.length_singleton, Nat.add_comm, separated, h.reads rest hstops, Option.bind_some,
      if_neg (hrest c List.mem_cons_self)]

theorem append (h : Listed item c stops ts es) (h' : Listed item c stops ts' es') :
    Listed item c stops (ts ++ .mark c :: ts') (es ++ es') where
  length_le := by
    have := h.length_le
    have := h'.length_le
    simp only [List.length_append, List.length_cons]
    omega
  more k rest := by
    rw [List.length_append, Nat.add_assoc, List.append_assoc, List.cons_append, h.more, h'.more,
      Option.map_map]
    simp [Function.comp_def]
  last k rest hrest := by
    rw [List.length_append, Nat.add_assoc, List.append_assoc, List.cons_append, h.more,
      h'.last k rest hrest, Option.map_some]

theorem intercalate {tss : List (List Lexeme)} {ess : List (List Expr)}
    (h : List.Forall₂ (Listed item c stops) tss ess) (hne : tss ≠ []) :
    Listed item c stops ([.mark c].intercalate tss) ess.flatten := by
  induction h with
  | nil => exact absurd rfl hne
  | @cons ts es tss ess hfirst hall ih =>
      cases hall with
      | nil => simpa using hfirst
      | cons hsecond hall =>
          rw [List.intercalate_cons_cons, List.append_assoc, List.flatten_cons]
          exact hfirst.append (ih (List.cons_ne_nil _ _))

theorem reads (h : Listed item c stops ts es) {rest : List Lexeme} (hrest : Stops (c :: stops) rest)
    {k : Nat} (hk : ts.length ≤ k) : separated item c k (ts ++ rest) = some (es, rest) := by
  obtain ⟨more, rfl⟩ := Nat.exists_eq_add_of_le (Nat.le_trans h.length_le hk)
  exact h.last more rest hrest

/-- A list up to the mark that closes it. -/
theorem closed (h : Listed item c stops ts es) {close : Char} (hclose : close ∉ c :: stops) {k : Nat}
    (hk : ts.length ≤ k) (rest : List Lexeme) :
    (separated item c k (ts ++ .mark close :: rest)).bind (closing close) = some (es, rest) := by
  rw [h.reads (.mark hclose rest) hk, Option.bind_some, closing_mark]

/-- There is at least one item. -/
theorem items_ne_nil (h : Listed item c stops ts es) : es ≠ [] := by
  rintro rfl
  have hread := h.last 0 [] (.nil _)
  cases hread

theorem ne_nil (h : Listed item c stops ts es) : ts ≠ [] := by
  rintro rfl
  exact h.items_ne_nil (List.length_eq_zero_iff.mp (Nat.le_zero.mp h.length_le))

/-- Lists that are put together have at least one item each. -/
theorem length_le_flatten {tss : List (List Lexeme)} {ess : List (List Expr)}
    (h : List.Forall₂ (Listed item c stops) tss ess) : tss.length ≤ ess.flatten.length := by
  induction h with
  | nil => exact Nat.le_refl _
  | cons hfirst _ ih =>
      have hpos := List.length_pos_iff.mpr hfirst.items_ne_nil
      rw [List.flatten_cons, List.length_append, List.length_cons]
      omega

/-- Two lists or more that are put together have two items or more. -/
theorem intercalate_of_two_le {tss : List (List Lexeme)} {ess : List (List Expr)}
    (h : List.Forall₂ (Listed item c stops) tss ess) (hmany : 2 ≤ tss.length) :
    Listed item c stops ([.mark c].intercalate tss) ess.flatten ∧ 2 ≤ ess.flatten.length :=
  ⟨intercalate h (List.ne_nil_of_length_pos (by omega)), Nat.le_trans hmany (length_le_flatten h)⟩

/-- A list of items makes one type. -/
theorem gives (h : Listed item c stops ts es) (make : List Expr → Expr) :
    Gives (fun ts => (separated item c ts.length ts).map fun read => (combine make read.1, read.2))
      (c :: stops) ts (combine make es) where
  ne_nil := h.ne_nil
  reads rest hrest := by
    have hlength : ts.length ≤ (ts ++ rest).length := by
      rw [List.length_append]
      omega
    simp only [h.reads hrest hlength, Option.map_some]

end Listed

theorem length_le_intercalate {tss : List (List Lexeme)} (h : ts ∈ tss) (t : Lexeme) :
    ts.length ≤ ([t].intercalate tss).length := by
  induction tss with
  | nil => cases h
  | cons first tss ih =>
      cases tss with
      | nil => simp_all
      | cons second tss =>
          rw [List.intercalate_cons_cons, List.length_append, List.length_append]
          rcases List.mem_cons.mp h with rfl | hlater
          · omega
          · have := ih hlater
            omega

/-- Relates lists element by element to what the elements of one of them make. -/
theorem forall₂_map_of_mem {α β γ : Type} {R : α → β → Prop} {S : α → γ → Prop} {f : β → γ}
    {xs : List α} {ys : List β} (h : List.Forall₂ R xs ys)
    (himp : ∀ x ∈ xs, ∀ y, R x y → S x (f y)) : List.Forall₂ S xs (ys.map f) := by
  induction h with
  | nil => exact .nil
  | cons hfirst _ ih =>
      exact .cons (himp _ List.mem_cons_self _ hfirst)
        (ih fun x hx => himp x (List.mem_cons_of_mem _ hx))

/-! ### Operands -/

/-- Lexemes that are read as a type to which brackets may be added. -/
structure Tight (a : Alphabet) (inner : Reader Expr) (ts : List Lexeme) (e : Expr) : Prop where
  reads : ∀ rest, Stops ['<'] rest → readBracketed a inner (ts ++ rest) = some (readBrackets e rest)

theorem readBrackets_of_stops {rest : List Lexeme} (h : Stops ['['] rest) (e : Expr) :
    readBrackets e rest = (e, rest) := by
  rw [readBrackets.eq_2]
  rintro more rfl
  exact h '[' (List.mem_singleton_self _) rfl

theorem wordType?_operator (op : Operator) : wordType? op.word = none := by
  cases op <;> decide

theorem operator?_word (op : Operator) : operator? op.word = some op := by
  cases op <;> decide

theorem eq_word_of_operator? {w : String} {op : Operator} (h : operator? w = some op) : w = op.word := by
  have hsame : (op.word == w) = true := List.find?_some (p := fun op : Operator => op.word == w) h
  exact (beq_iff_eq.mp hsame).symm

/-- Operators are not atoms. -/
theorem readBracketed_operator (op : Operator) (rest : List Lexeme) :
    readBracketed a inner (.word op.word :: rest) = none := by
  simp [readBracketed, readAtom, wordType?_operator, operator?_word]

namespace Tight

theorem ofAtom (h : ∀ rest, Stops ['<'] rest → readAtom a inner (ts ++ rest) = some (e, rest)) :
    Tight a inner ts e where
  reads rest hrest := by
    rw [readBracketed, h rest hrest, Option.map_some]

theorem array (h : Tight a inner ts e) :
    Tight a inner (ts ++ [.mark '[', .mark ']']) (.array e) where
  reads rest hrest := by
    have hbrackets : Stops ['<'] ([.mark '[', .mark ']'] ++ rest) := .mark (by decide) _
    rw [List.append_assoc, h.reads _ hbrackets]
    rfl

theorem gives (h : Tight a inner ts e) : Gives (readOperand a inner) ['<', '['] ts e := by
  have hself := h.reads [] (.nil _)
  rw [List.append_nil] at hself
  have hne : ts ≠ [] := by
    rintro rfl
    cases hself
  refine ⟨hne, fun rest hrest => ?_⟩
  have hbracketed : readBracketed a inner (ts ++ rest) = some (e, rest) := by
    rw [h.reads rest (hrest.mono (by decide)), readBrackets_of_stops (hrest.mono (by decide))]
  obtain ⟨first, more, rfl⟩ := List.exists_cons_of_ne_nil hne
  rw [← hbracketed]
  cases first with
  | word w =>
      cases hop : operator? w with
      | none => simp only [List.cons_append, readOperand, hop]
      | some op =>
          -- no atom starts with an operator, so this one would not have been read
          rw [eq_word_of_operator? hop, readBracketed_operator] at hself
          cases hself
  | _ => rfl

end Tight

theorem Gives.operator (h : Gives (readOperand a inner) stops ts e) (op : Operator) :
    Gives (readOperand a inner) stops (.word op.word :: ts) (.operator op e) where
  ne_nil := List.cons_ne_nil _ _
  reads rest hrest := by
    simp only [List.cons_append, readOperand, operator?_word, h.reads rest hrest, Option.map_some]

/-! ### Types in any place -/

/-- Lexemes that are read as a type by every reader that may meet them, where types that bind too
weakly stand in parentheses. Inside of the lexemes up to `n` types may lie inside each other. -/
structure Reads (a : Alphabet) (n : Nat) (ts : List Lexeme) (e : Expr) : Prop where
  asArms : Listed (readIntersection a (readType a n)) '|' ['&', '<', '['] ts e.unionArms
  combined : combine .union e.unionArms = e
  asParts : e.isUnion = false →
    Listed (readOperand a (readType a n)) '&' ['<', '['] ts e.intersectionParts
  asOperand : e.needsParens = false → Tight a (readType a n) ts e

namespace Reads

variable {n : Nat}

/-- What binds stronger than a union is an arm of its own. -/
theorem ofParts (h : Listed (readOperand a (readType a n)) '&' ['<', '['] ts e.intersectionParts)
    (hcombined : combine .intersection e.intersectionParts = e) (hunion : e.unionArms = [e])
    (hoperand : e.needsParens = false → Tight a (readType a n) ts e) : Reads a n ts e where
  asArms := by
    have hgives := h.gives .intersection
    rw [hcombined] at hgives
    rw [hunion]
    exact .single hgives (by decide)
  combined := by rw [hunion, combine]
  asParts _ := h
  asOperand := hoperand

theorem ofOperand (h : Gives (readOperand a (readType a n)) ['<', '['] ts e)
    (hparts : e.intersectionParts = [e]) (hunion : e.unionArms = [e])
    (hoperand : e.needsParens = false → Tight a (readType a n) ts e) : Reads a n ts e := by
  refine ofParts ?_ ?_ hunion hoperand
  · rw [hparts]
    exact .single h (by decide)
  · rw [hparts, combine]

theorem ofTight (h : Tight a (readType a n) ts e) (hparts : e.intersectionParts = [e])
    (hunion : e.unionArms = [e]) : Reads a n ts e :=
  ofOperand h.gives hparts hunion fun _ => h

theorem operator (h : Gives (readOperand a (readType a n)) ['<', '['] ts e) (op : Operator) :
    Reads a n (.word op.word :: ts) (.operator op e) :=
  ofOperand (h.operator op) rfl rfl fun hoperand => nomatch hoperand

theorem combine_of_two_le (make : List Expr → Expr) (h : 2 ≤ es.length) : combine make es = make es := by
  match es, h with
  | _ :: _ :: _, _ => rfl

theorem intersection (h : Listed (readOperand a (readType a n)) '&' ['<', '['] ts es)
    (hmany : 2 ≤ es.length) : Reads a n ts (.intersection es) :=
  ofParts h (combine_of_two_le _ hmany) rfl fun hoperand => by
    simp only [Expr.needsParens, decide_eq_false_iff_not] at hoperand
    omega

theorem union (h : Listed (readIntersection a (readType a n)) '|' ['&', '<', '['] ts es)
    (hmany : 2 ≤ es.length) : Reads a n ts (.union es) where
  asArms := h
  combined := combine_of_two_le _ hmany
  asParts hunion := nomatch hunion
  asOperand hoperand := by
    simp only [Expr.needsParens, decide_eq_false_iff_not] at hoperand
    omega

theorem gives (h : Reads a n ts e) : Gives (readType a (n + 1)) ['|', '&', '<', '['] ts e := by
  have hgives := h.asArms.gives .union
  rw [h.combined] at hgives
  exact hgives

end Reads

/-- The words that name types. -/
structure IsName (a : Alphabet) (w : String) : Prop where
  notType : wordType? w = none
  notOperator : operator? w = none
  notReserved : a.reserved w = false

/-- Lexemes that are read as a type with room for as many types inside each other as they have. -/
def Stands (a : Alphabet) (ts : List Lexeme) (e : Expr) : Prop := ∀ n, ts.length ≤ n + 1 → Reads a n ts e

/-- Lexemes that are read as a type where marks set it apart, with room for as many types inside each
other as they have. -/
def Whole (a : Alphabet) (ts : List Lexeme) (e : Expr) : Prop :=
  ∀ n, ts.length ≤ n → Gives (readType a n) ['|', '&', '<', '['] ts e

/-- No type is read from nothing, so there is room for one where there is room for its lexemes. -/
theorem Whole.of_succ (hne : ts ≠ []) (h : ∀ n, ts.length ≤ n + 1 →
    Gives (readType a (n + 1)) ['|', '&', '<', '['] ts e) : Whole a ts e := by
  intro n hn
  obtain ⟨m, rfl⟩ := Nat.exists_eq_add_of_le' (Nat.le_trans (List.length_pos_iff.mpr hne) hn)
  exact h m hn

/-- In parentheses a type may stand anywhere. -/
theorem Whole.parenthesized (h : Whole a ts e) {n : Nat} (hn : ts.length ≤ n) :
    Tight a (readType a n) (.mark '(' :: (ts ++ [.mark ')'])) e := by
  refine .ofAtom fun rest _ => ?_
  rw [List.cons_append, List.append_assoc, List.singleton_append, readAtom,
    (h n hn).reads _ (.mark (by decide) rest), Option.bind_some, closing_mark]

namespace Stands

variable {n : Nat}

theorem ne_nil (h : Stands a ts e) : ts ≠ [] := by
  rintro rfl
  exact (h 0 (Nat.zero_le _)).asArms.ne_nil rfl

theorem whole (h : Stands a ts e) : Whole a ts e := .of_succ h.ne_nil fun n hn => (h n hn).gives

/-- An atom stands everywhere. -/
theorem ofAtom (hparts : e.intersectionParts = [e]) (hunion : e.unionArms = [e])
    (h : ∀ n, ts.length ≤ n + 1 → ∀ rest, Stops ['<'] rest →
      readAtom a (readType a n) (ts ++ rest) = some (e, rest)) : Stands a ts e :=
  fun n hn => .ofTight (.ofAtom (h n hn)) hparts hunion

theorem word {w : String} (h : wordType? w = some e) (hparts : e.intersectionParts = [e])
    (hunion : e.unionArms = [e]) : Stands a [.word w] e :=
  ofAtom hparts hunion fun n _ rest _ => by simp only [List.singleton_append, readAtom, h]

theorem keyword (k : Keyword) : Stands a [.word k.word] (.keyword k) :=
  word (by cases k <;> rfl) rfl rfl

theorem null : Stands a [.word "null"] .null := word rfl rfl rfl

theorem bool (b : Bool) : Stands a [.word (if b then "true" else "false")] (.literal (.bool b)) :=
  word (by cases b <;> rfl) rfl rfl

theorem string (s : String) : Stands a [.text s] (.literal (.string s)) :=
  ofAtom rfl rfl fun _ _ _ _ => rfl

theorem integer?_toInt (n : Int64) : integer? n.toInt = some (.literal (.int n)) := by
  rw [integer?, Int64.ofInt_toInt, if_pos rfl]

theorem natural {n : Int64} (h : 0 ≤ n.toInt) :
    Stands a [.number n.toInt.natAbs] (.literal (.int n)) := by
  refine ofAtom rfl rfl fun _ _ rest _ => ?_
  rw [List.singleton_append, readAtom, Int.natAbs_of_nonneg h, integer?_toInt, Option.map_some]

theorem negative {n : Int64} (h : n.toInt < 0) :
    Stands a [.mark '-', .number n.toInt.natAbs] (.literal (.int n)) := by
  refine ofAtom rfl rfl fun _ _ rest _ => ?_
  have hvalue : -(n.toInt.natAbs : Int) = n.toInt := by omega
  rw [List.cons_append, List.singleton_append, readAtom, hvalue, integer?_toInt, Option.map_some]

theorem array (hoperand : ∀ n, ts.length ≤ n + 1 → Tight a (readType a n) ts e) :
    Stands a (ts ++ [.mark '[', .mark ']']) (.array e) := by
  intro n hn
  rw [List.length_append] at hn
  exact .ofTight (hoperand n (by omega)).array rfl rfl

/-- The types of a list with commas between them. -/
theorem listed {tss : List (List Lexeme)} (h : List.Forall₂ (Whole a) tss es) (hne : tss ≠ [])
    (hn : ([.mark ','].intercalate tss).length ≤ n) :
    Listed (readType a n) ',' ['|', '&', '<', '['] ([.mark ','].intercalate tss) es := by
  have hitems : List.Forall₂ (Listed (readType a n) ',' ['|', '&', '<', '[']) tss (es.map ([·])) :=
    forall₂_map_of_mem h fun ts hts e he =>
      .single (he n (Nat.le_trans (length_le_intercalate hts _) hn)) (by decide)
  have hall := Listed.intercalate hitems hne
  rwa [← List.flatMap_def, List.flatMap_singleton'] at hall

theorem name {w : String} (h : IsName a w) : Stands a [.word w] (.builtin w []) := by
  refine ofAtom rfl rfl fun n _ rest hrest => ?_
  have harguments : readArguments (readType a n) rest = some ([], rest) :=
    if_neg (hrest '<' (List.mem_singleton_self _))
  simp only [List.singleton_append, readAtom, h.notType, h.notOperator, h.notReserved, harguments]
  rfl

theorem reference {w : String} (h : IsName a w) {tss : List (List Lexeme)}
    (hargs : List.Forall₂ (Whole a) tss es) (hne : tss ≠ []) :
    Stands a (.word w :: .mark '<' :: ([.mark ','].intercalate tss ++ [.mark '>'])) (.builtin w es) := by
  refine ofAtom rfl rfl fun n hn rest _ => ?_
  simp only [List.length_cons, List.length_append] at hn
  have hlisted := listed hargs hne (show _ ≤ n by omega)
  have harguments : readArguments (readType a n)
      (.mark '<' :: ([.mark ','].intercalate tss ++ .mark '>' :: rest)) = some (es, rest) := by
    refine (if_pos rfl).trans (hlisted.closed (by decide) ?_ rest)
    simp only [List.length_cons, List.length_append]
    omega
  simp only [List.cons_append, List.append_assoc, List.nil_append, readAtom, h.notType,
    h.notOperator, h.notReserved, harguments]
  rfl

/-- No type starts with the bracket that closes an array literal. -/
theorem separated_bracket (n k : Nat) (rest : List Lexeme) :
    separated (readType a n) ',' k (.mark ']' :: rest) = none := by
  cases k with
  | zero => rfl
  | succ k => cases n <;> rfl

theorem arrayLiteral {tss : List (List Lexeme)} (hitems : List.Forall₂ (Whole a) tss es) :
    Stands a (.mark '[' :: ([.mark ','].intercalate tss ++ [.mark ']'])) (.arrayLiteral es) := by
  refine ofAtom rfl rfl fun n hn rest _ => ?_
  simp only [List.length_cons, List.length_append] at hn
  suffices hread : readItems (readType a n) ([.mark ','].intercalate tss ++ .mark ']' :: rest) =
      some (es, rest) by
    simp only [List.cons_append, List.append_assoc, List.nil_append, readAtom, hread, Option.map_some]
  cases hitems with
  | nil => rfl
  | cons hfirst hlater =>
      have hlisted := listed (.cons hfirst hlater) (List.cons_ne_nil _ _) (show _ ≤ n by omega)
      have hclosed : ∀ k, _ ≤ k → _ := fun k hk => hlisted.closed (by decide : ']' ∉ _) hk rest
      refine (if_neg fun hhead => ?_).trans (hclosed _ ?_)
      · -- the first item would start with the bracket
        obtain ⟨more, hmore⟩ := List.head?_eq_some_iff.mp hhead
        have hread := hclosed _ (Nat.le_refl _)
        rw [hmore, separated_bracket] at hread
        cases hread
      · rw [List.length_append]
        omega

end Stands

/-! ### Members -/

/-- The lexemes of a member whose type has some lexemes. -/
def memberLexemes (modifiers : List Modifier) (name : Lexeme) (optional : Bool) (ts : List Lexeme) :
    List Lexeme :=
  modifiers.map (fun m => .word m.word) ++
    name :: ((if optional then [.mark '?'] else []) ++ .mark ':' :: (ts ++ [.mark ';']))

/-- Lexemes that are read as a member. -/
structure MemberStands (a : Alphabet) (ts : List Lexeme) (m : Property) : Prop where
  ne_nil : ts ≠ []
  notClosed : ∀ rest, (ts ++ rest).head? ≠ some (.mark '\x7d')
  reads : ∀ n, ts.length ≤ n → ∀ rest, readMember (readType a n) (ts ++ rest) = some (m, rest)

section Members

variable {modifiers : List Modifier} {name : Lexeme} {w : String} {optional : Bool}

/-- A name is not a modifier, even if it is the word of one: no name comes after it. -/
theorem readModifiers_memberLexemes (hname : memberName? name = some w)
    (hmodifiers : modifiers = [] ∨ modifiers = [.readonly]) (rest : List Lexeme) :
    readModifiers (memberLexemes modifiers name optional ts ++ rest) =
      (modifiers, memberLexemes [] name optional ts ++ rest) := by
  rcases hmodifiers with rfl | rfl
  · cases name with
    | word word => cases optional <;> simp [memberLexemes, readModifiers, memberName?]
    | text text => rfl
    | number value => cases hname
    | mark c => cases hname
  · simp [memberLexemes, readModifiers, hname, Modifier.word]

theorem Whole.member (h : Whole a ts e) (hname : memberName? name = some w)
    (hmodifiers : modifiers = [] ∨ modifiers = [.readonly]) :
    MemberStands a (memberLexemes modifiers name optional ts) ⟨w, modifiers, optional, e, []⟩ where
  ne_nil := by simp [memberLexemes]
  notClosed rest hhead := by
    rcases hmodifiers with rfl | rfl
    · cases hhead
      cases hname
    · cases hhead
  reads n hn rest := by
    have hlength : ts.length ≤ n := by
      simp only [memberLexemes, List.length_append, List.length_cons] at hn
      omega
    have htype := (h n hlength).reads (.mark ';' :: rest) (.mark (by decide) rest)
    rw [readMember, readModifiers_memberLexemes hname hmodifiers]
    cases optional <;>
      simp [memberLexemes, readOptional, hname, closing_mark, htype]

theorem readMembers_eq {tss : List (List Lexeme)} {ms : List Property} {n k : Nat}
    (h : List.Forall₂ (MemberStands a) tss ms) (hn : tss.flatten.length ≤ n) (hk : ms.length < k)
    (rest : List Lexeme) :
    readMembers (readType a n) k (tss.flatten ++ .mark '\x7d' :: rest) = some (ms, rest) := by
  induction h generalizing k with
  | nil =>
      obtain ⟨k, rfl⟩ := Nat.exists_eq_add_of_le' hk
      exact if_pos rfl
  | @cons ts m tss ms hfirst hall ih =>
      obtain ⟨k, rfl⟩ := Nat.exists_eq_add_of_le' (show 1 ≤ k by omega)
      rw [List.flatten_cons, List.length_append] at hn
      rw [List.length_cons] at hk
      rw [List.flatten_cons, List.append_assoc, readMembers, if_neg (hfirst.notClosed _),
        hfirst.reads n (by omega)]
      simp only [Option.bind_eq_bind, Option.bind_some, ih (show _ ≤ n by omega) (show _ < k by omega),
        Option.map_some]

theorem members_length_le {tss : List (List Lexeme)} {ms : List Property}
    (h : List.Forall₂ (MemberStands a) tss ms) : ms.length ≤ tss.flatten.length := by
  induction h with
  | nil => exact Nat.le_refl _
  | cons hfirst _ ih =>
      have hpos := List.length_pos_iff.mpr hfirst.ne_nil
      rw [List.flatten_cons, List.length_append, List.length_cons]
      omega

theorem Stands.typeLiteral {tss : List (List Lexeme)} {ms : List Property}
    (h : List.Forall₂ (MemberStands a) tss ms) :
    Stands a (.mark '\x7b' :: (tss.flatten ++ [.mark '\x7d'])) (.typeLiteral ms) := by
  refine ofAtom rfl rfl fun n hn rest _ => ?_
  simp only [List.length_cons, List.length_append] at hn
  have hlength : ms.length < (tss.flatten ++ .mark '\x7d' :: rest).length := by
    have := members_length_le h
    simp only [List.length_cons, List.length_append]
    omega
  have hread := readMembers_eq h (show _ ≤ n by omega) hlength rest
  simp only [List.cons_append, List.append_assoc, List.nil_append, readAtom, hread, Option.map_some]

end Members

end Reading

end TypeBridge
