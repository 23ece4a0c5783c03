import TypeBridge.Proofs.Describing
import TypeBridge.Proofs.Rendering
import TypeBridge.Proofs.TagBytes

/-!
Tokens tile the text. Every token is a text of the pattern of its kind that no following character
could lengthen, the tokens follow each other without overlapping, and what lies between them is blank.
A text has one such tiling at most. Scanning gives the tiling of the whole text, and fails exactly when
the tiling of a part of the text ends in front of a character that no token starts with.
-/

namespace TypeBridge.TypeText

open Text (byteLength byteLength_append byteLength_pos)

/-! ### Patterns -/

/-- The characters between tokens. -/
def Blank (c : Char) : Prop := c = ' ' ∨ c = '\t' ∨ c = '\r' ∨ c = '\n'

def Digit (c : Char) : Prop := '0' ≤ c ∧ c ≤ '9'

def Letter (c : Char) : Prop := 'a' ≤ c ∧ c ≤ 'z' ∨ 'A' ≤ c ∧ c ≤ 'Z'

/-- The texts of each kind of token. A keyword is also a text of the pattern of names. -/
def TokenKind.Pattern : TokenKind → List Char → Prop
  | .star, cs => cs = ['*']
  | .bracketOpen, cs => cs = ['[']
  | .bracketClose, cs => cs = [']']
  | .braceOpen, cs => cs = ['\x7b']
  | .braceClose, cs => cs = ['\x7d']
  | .comma, cs => cs = [',']
  | .kwMap, cs => cs = ['m', 'a', 'p']
  | .kwChan, cs => cs = ['c', 'h', 'a', 'n']
  | .kwInterface, cs => cs = ['i', 'n', 't', 'e', 'r', 'f', 'a', 'c', 'e']
  | .kwStruct, cs => cs = ['s', 't', 'r', 'u', 'c', 't']
  | .int, cs => cs ≠ [] ∧ ∀ c ∈ cs, Digit c
  | .name, cs => ∃ first others, cs = first :: others ∧ (Letter first ∨ first = '_') ∧
      ∀ c ∈ others, Letter c ∨ Digit c ∨ c = '_' ∨ c = '.' ∨ c = '/' ∨ c = '-'

def keywords : List TokenKind := [.kwMap, .kwChan, .kwInterface, .kwStruct]

/-- A text is spelled as a kind of token: it has the pattern, and the kind is a keyword exactly if the
text is that keyword. -/
structure TokenKind.Spells (kind : TokenKind) (cs : List Char) : Prop where
  pattern : kind.Pattern cs
  keyword : ∀ word ∈ keywords, kind = word ↔ word.Pattern cs

/-- No token starts with the character, and it is not blank. -/
def StartsNothing (c : Char) : Prop := ¬ Blank c ∧ ∀ kind more, ¬ TokenKind.Pattern kind (c :: more)

theorem isSpace_iff (c : Char) : isSpace c = true ↔ Blank c := by
  simp [isSpace, Blank, or_assoc]

theorem isDigit_iff (c : Char) : c.isDigit = true ↔ Digit c := by
  simp [Char.isDigit, Digit, Char.le_def]

theorem isAlpha_iff (c : Char) : c.isAlpha = true ↔ Letter c := by
  have hupper : c.isUpper = true ↔ 'A' ≤ c ∧ c ≤ 'Z' := decide_eq_true_iff
  have hlower : c.isLower = true ↔ 'a' ≤ c ∧ c ≤ 'z' :=
    Bool.and_eq_true_iff.trans (and_congr decide_eq_true_iff decide_eq_true_iff)
  rw [Letter, ← hlower, ← hupper, or_comm]
  exact Bool.or_eq_true_iff

theorem isNameStart_iff (c : Char) : isNameStart c = true ↔ Letter c ∨ c = '_' := by
  simp [isNameStart, isAlpha_iff]

theorem isNameChar_iff (c : Char) : isNameChar c = true ↔
    Letter c ∨ Digit c ∨ c = '_' ∨ c = '.' ∨ c = '/' ∨ c = '-' := by
  simp [isNameChar, Char.isAlphanum, isAlpha_iff, isDigit_iff, or_assoc]

/-! ### Where a pattern starts -/

instance (c : Char) : Decidable (Digit c) := inferInstanceAs (Decidable ('0' ≤ c ∧ c ≤ '9'))

instance (c : Char) : Decidable (Letter c) :=
  inferInstanceAs (Decidable ('a' ≤ c ∧ c ≤ 'z' ∨ 'A' ≤ c ∧ c ≤ 'Z'))

theorem Blank.not_digit {c : Char} (h : Blank c) : ¬ Digit c := by
  rcases h with rfl | rfl | rfl | rfl <;> decide

theorem Blank.not_letter {c : Char} (h : Blank c) : ¬ (Letter c ∨ c = '_') := by
  rcases h with rfl | rfl | rfl | rfl <;> decide

theorem Digit.not_letter {c : Char} (h : Digit c) : ¬ (Letter c ∨ c = '_') := by
  simp only [Digit, Letter, Char.le_def, UInt32.le_iff_toNat_le] at *
  rintro (hletter | rfl)
  · simp at *
    omega
  · revert h
    decide

theorem Start.of?_digit {c : Char} (h : Digit c) : Start.of? c = some .digit := by
  have hspace : ¬ isSpace c = true := fun hc => ((isSpace_iff c).mp hc).not_digit h
  rw [Start.of?, if_neg hspace, if_pos ((isDigit_iff c).mpr h)]

theorem Start.of?_letter {c : Char} (h : Letter c ∨ c = '_') : Start.of? c = some .letter := by
  have hspace : ¬ isSpace c = true := fun hc => ((isSpace_iff c).mp hc).not_letter h
  have hdigit : ¬ c.isDigit = true := fun hc => ((isDigit_iff c).mp hc).not_letter h
  rw [Start.of?, if_neg hspace, if_neg hdigit, if_pos ((isNameStart_iff c).mpr h)]

/-- The first character of a text of a pattern tells where the text may end, and except for words also
which pattern it is. -/
theorem TokenKind.Pattern.start {kind : TokenKind} {c : Char} {more : List Char}
    (h : kind.Pattern (c :: more)) : ∃ start, Start.of? c = some start ∧ start ≠ .space ∧
      (∀ d ∈ more, start.continues d = true) ∧
      (start.kind? (c :: more) = some kind ∨ start = .letter ∧ kind = .name) := by
  cases kind with
  | int =>
      obtain ⟨hc, hmore⟩ := List.forall_mem_cons.mp h.2
      exact ⟨.digit, Start.of?_digit hc, by decide, fun d hd => (isDigit_iff d).mpr (hmore d hd),
        .inl rfl⟩
  | name =>
      obtain ⟨first, others, heq, hfirst, hothers⟩ := h
      cases heq
      exact ⟨.letter, Start.of?_letter hfirst, by decide,
        fun d hd => (isNameChar_iff d).mpr (hothers d hd), .inr ⟨rfl, rfl⟩⟩
  | kwMap | kwChan | kwInterface | kwStruct =>
      cases h
      exact ⟨.letter, by decide, by decide, List.all_eq_true.mp (by decide), .inl (by decide)⟩
  | star | bracketOpen | bracketClose | braceOpen | braceClose | comma =>
      cases h
      exact ⟨.mark _, by decide, by decide, List.forall_mem_nil _, .inl rfl⟩

theorem TokenKind.Spells.start {kind : TokenKind} {c : Char} {more : List Char}
    (h : kind.Spells (c :: more)) : ∃ start, Start.of? c = some start ∧ start ≠ .space ∧
      (∀ d ∈ more, start.continues d = true) ∧ start.kind? (c :: more) = some kind := by
  obtain ⟨start, hstart, hne, hmore, hkind | ⟨rfl, rfl⟩⟩ := h.pattern.start
  · exact ⟨start, hstart, hne, hmore, hkind⟩
  · refine ⟨.letter, hstart, hne, hmore, ?_⟩
    have hword := h.keyword
    simp only [keywords, List.forall_mem_cons, TokenKind.Pattern, reduceCtorEq, false_iff] at hword
    simp [Start.kind?, wordKind, hword]

theorem wordKind_pattern {word : List Char} (h : TokenKind.name.Pattern word) :
    (wordKind word).Pattern word := by
  unfold wordKind
  split_ifs with hmap hchan hinterface hstruct
  · exact hmap
  · exact hchan
  · exact hinterface
  · exact hstruct
  · exact h

theorem pattern_of_mark {c : Char} {kind : TokenKind} (h : markKind? c = some kind) :
    kind.Pattern [c] := by
  unfold markKind? at h
  split_ifs at h <;> cases h <;> subst_vars <;> rfl

/-- What the first character of a lexeme may be. -/
theorem Start.of?_eq_some {c : Char} {start : Start} (h : Start.of? c = some start)
    (hne : start ≠ .space) : start = .digit ∧ Digit c ∨
      start = .letter ∧ (Letter c ∨ c = '_') ∨
      ∃ kind, start = .mark kind ∧ markKind? c = some kind := by
  unfold Start.of? at h
  split_ifs at h with hspace hdigit hname
  · cases h
    exact absurd rfl hne
  · cases h
    exact .inl ⟨rfl, (isDigit_iff c).mp hdigit⟩
  · cases h
    exact .inr (.inl ⟨rfl, (isNameStart_iff c).mp hname⟩)
  · obtain ⟨kind, hkind, rfl⟩ := Option.map_eq_some_iff.mp h
    exact .inr (.inr ⟨kind, rfl, hkind⟩)

theorem Start.pattern {c : Char} {start : Start} {kind : TokenKind} {more : List Char}
    (h : Start.of? c = some start) (hne : start ≠ .space)
    (hmore : ∀ d ∈ more, start.continues d = true) (hkind : start.kind? (c :: more) = some kind) :
    kind.Pattern (c :: more) := by
  rcases Start.of?_eq_some h hne with ⟨rfl, hc⟩ | ⟨rfl, hc⟩ | ⟨mark, rfl, hmark⟩
  · cases hkind
    exact ⟨List.cons_ne_nil _ _,
      List.forall_mem_cons.mpr ⟨hc, fun d hd => (isDigit_iff d).mp (hmore d hd)⟩⟩
  · cases hkind
    exact wordKind_pattern ⟨c, more, rfl, hc, fun d hd => (isNameChar_iff d).mp (hmore d hd)⟩
  · cases hkind
    cases more with
    | nil => exact pattern_of_mark hmark
    | cons d more => exact absurd (hmore d List.mem_cons_self) Bool.false_ne_true

/-- A lexeme is spelled as its kind. -/
theorem Start.spells {c : Char} {start : Start} {kind : TokenKind} {more : List Char}
    (h : Start.of? c = some start) (hne : start ≠ .space)
    (hmore : ∀ d ∈ more, start.continues d = true) (hkind : start.kind? (c :: more) = some kind) :
    kind.Spells (c :: more) := by
  have hpattern := Start.pattern h hne hmore hkind
  refine ⟨hpattern, fun word hword => ⟨fun heq => heq ▸ hpattern, fun hother => ?_⟩⟩
  obtain ⟨start', hstart', -, -, hkind' | ⟨-, rfl⟩⟩ := hother.start
  · cases h.symm.trans hstart'
    exact Option.some.inj (hkind.symm.trans hkind')
  · exact absurd hword (by decide)

/-- A lexeme cannot be lengthened by a character that does not continue it. -/
theorem Start.longest {c d : Char} {start : Start} (h : Start.of? c = some start) {more : List Char}
    (hd : start.continues d = false) (kind : TokenKind) : ¬ kind.Pattern (c :: more ++ [d]) := by
  intro hpattern
  obtain ⟨start', hstart', -, hmore, -⟩ := hpattern.start
  cases h.symm.trans hstart'
  have htrue := hmore d (List.mem_append_right _ List.mem_cons_self)
  rw [hd] at htrue
  cases htrue

/-- A lexeme that cannot be lengthened goes on to the next character that does not continue it. -/
theorem Start.stops {c d : Char} {start : Start} {more : List Char} (h : Start.of? c = some start)
    (hne : start ≠ .space) (hmore : ∀ d ∈ more, start.continues d = true)
    (hlongest : ∀ kind : TokenKind, ¬ kind.Pattern (c :: more ++ [d])) :
    start.continues d = false := by
  by_contra hd
  have hall : ∀ e ∈ more ++ [d], start.continues e = true := by
    intro e he
    rcases List.mem_append.mp he with he | he
    · exact hmore e he
    · rw [List.mem_singleton.mp he]
      exact Bool.not_eq_false _ ▸ hd
  obtain ⟨kind, hkind⟩ := start.exists_kind hne (c :: (more ++ [d]))
  exact hlongest kind (Start.pattern h hne hall hkind)

/-- The characters that start nothing are those at which scanning fails. -/
theorem Start.of?_eq_none_iff (c : Char) : Start.of? c = none ↔ StartsNothing c := by
  constructor
  · intro h
    refine ⟨fun hblank => ?_, fun kind more hpattern => ?_⟩
    · rw [Start.of?_of_isSpace ((isSpace_iff c).mpr hblank)] at h
      cases h
    · obtain ⟨start, hstart, -⟩ := hpattern.start
      cases h.symm.trans hstart
  · rintro ⟨hblank, hpattern⟩
    rcases Start.of?_cases c with hnone | hspace | ⟨start, hstart, hne⟩
    · exact hnone
    · exact absurd ((isSpace_iff c).mp hspace) hblank
    · obtain ⟨kind, hkind⟩ := start.exists_kind hne [c]
      exact absurd (Start.pattern hstart hne (List.forall_mem_nil _) hkind) (hpattern kind [])

/-! ### Tilings -/

/-- Tokens tile the characters that stand from one offset up to another: each lies between two of
them and cannot be lengthened by the character after it, they come one after another, and between
them are only blanks. -/
structure Tiles (offset : Nat) (cs : List Char) (stop : Nat) (ts : List Token) : Prop where
  nonempty : ∀ t ∈ ts, t.start < t.stop
  ascending : ts.Pairwise fun t u => t.stop ≤ u.start
  within : ∀ t ∈ ts, t.stop ≤ stop
  spells : ∀ t ∈ ts, t.kind.Spells t.text.toList
  stands : ∀ t ∈ ts, ∃ before after, cs = before ++ (t.text.toList ++ after) ∧
    t.start = offset + byteLength before ∧
    ∀ c ∈ after.head?, ∀ kind : TokenKind, ¬ kind.Pattern (t.text.toList ++ [c])
  blank : ∀ before c after, cs = before ++ c :: after → offset + byteLength before < stop →
    (∀ t ∈ ts, offset + byteLength before < t.start ∨ t.stop ≤ offset + byteLength before) → Blank c

/-- Texts that are the same together are cut at the same place or at a later one. -/
theorem exists_append_of_byteLength_le {front back front' back' : List Char}
    (h : front ++ back = front' ++ back') (hle : byteLength front ≤ byteLength front') :
    ∃ more, front' = front ++ more ∧ back = more ++ back' := by
  rcases List.append_eq_append_iff.mp h with ⟨more, hfront, hback⟩ | ⟨more, hfront, hback⟩
  · exact ⟨more, hfront, hback⟩
  · have hnil : more = [] := by
      by_contra hne
      have hpos := byteLength_pos hne
      rw [hfront, byteLength_append] at hle
      omega
    subst hnil
    exact ⟨[], by simpa using hfront.symm, by simpa using hback.symm⟩

namespace Tiles

variable {offset stop : Nat} {c : Char} {cs rest : List Char} {ts : List Token}

theorem start_le (h : Tiles offset cs stop ts) {t : Token} (ht : t ∈ ts) : offset ≤ t.start := by
  obtain ⟨before, after, -, hstart, -⟩ := h.stands t ht
  omega

/-- Nothing tiles no characters. -/
theorem nil (offset : Nat) (cs : List Char) : Tiles offset cs offset [] where
  nonempty := List.forall_mem_nil _
  ascending := .nil
  within := List.forall_mem_nil _
  spells := List.forall_mem_nil _
  stands := List.forall_mem_nil _
  blank := fun before c after _ hlt => absurd hlt (by omega)

theorem eq_nil (h : Tiles offset cs offset ts) : ts = [] := by
  refine List.eq_nil_iff_forall_not_mem.mpr fun t ht => ?_
  have hstart := h.start_le ht
  have hstop := h.within t ht
  have hlt := h.nonempty t ht
  omega

/-- The text of a token does not start with a blank. -/
theorem exists_cons (h : Tiles offset cs stop ts) {t : Token} (ht : t ∈ ts) :
    ∃ d more, t.text.toList = d :: more ∧ ¬ Blank d := by
  cases htext : t.text.toList with
  | nil =>
      have hlt := h.nonempty t ht
      simp [Token.stop, htext, byteLength] at hlt
  | cons d more =>
      refine ⟨d, more, rfl, fun hblank => ?_⟩
      obtain ⟨start, hstart, hne, -⟩ := (htext ▸ h.spells t ht).start
      rw [Start.of?_of_isSpace ((isSpace_iff d).mpr hblank)] at hstart
      cases hstart
      exact hne rfl

/-- A blank at the front may be left out. -/
theorem cons_blank_iff (hc : Blank c) :
    Tiles offset (c :: rest) stop ts ↔ Tiles (offset + c.utf8Size) rest stop ts := by
  constructor
  · intro h
    refine { h with stands := fun t ht => ?_, blank := fun before d after hsplit hlt hout => ?_ }
    · obtain ⟨d, more, htext, hd⟩ := h.exists_cons ht
      obtain ⟨before, after, hsplit, hstart, hlongest⟩ := h.stands t ht
      cases before with
      | nil =>
          rw [htext] at hsplit
          exact absurd ((List.cons.inj hsplit).1 ▸ hc) hd
      | cons e before =>
          obtain ⟨rfl, rfl⟩ := List.cons.inj hsplit
          exact ⟨before, after, rfl, by rw [hstart, byteLength, Nat.add_assoc], hlongest⟩
    · have hplace : offset + byteLength (c :: before) = offset + c.utf8Size + byteLength before := by
        rw [byteLength, Nat.add_assoc]
      exact h.blank (c :: before) d after (congrArg (c :: ·) hsplit) (hplace ▸ hlt) (hplace ▸ hout)
  · intro h
    refine { h with stands := fun t ht => ?_, blank := fun before d after hsplit hlt hout => ?_ }
    · obtain ⟨before, after, rfl, hstart, hlongest⟩ := h.stands t ht
      exact ⟨c :: before, after, rfl, by rw [hstart, byteLength, Nat.add_assoc], hlongest⟩
    · cases before with
      | nil => exact (List.cons.inj hsplit).1 ▸ hc
      | cons e before =>
          obtain ⟨rfl, rfl⟩ := List.cons.inj hsplit
          have hplace : offset + byteLength (c :: before) =
              offset + c.utf8Size + byteLength before := by rw [byteLength, Nat.add_assoc]
          rw [hplace] at hlt hout
          exact h.blank before d after rfl hlt hout

/-- A token at the front may be taken off. -/
theorem cons_token_iff {t : Token} (hstart : t.start = offset) (hpos : t.start < t.stop)
    (hwithin : t.stop ≤ stop) (hspells : t.kind.Spells t.text.toList)
    (hlongest : ∀ c ∈ rest.head?, ∀ kind : TokenKind, ¬ kind.Pattern (t.text.toList ++ [c])) :
    Tiles offset (t.text.toList ++ rest) stop (t :: ts) ↔ Tiles t.stop rest stop ts := by
  have hplace : ∀ before, t.stop + byteLength before =
      offset + byteLength (t.text.toList ++ before) := by
    intro before
    rw [byteLength_append, Token.stop, hstart, Nat.add_assoc]
  constructor
  · intro h
    obtain ⟨hfirst, hascending⟩ := List.pairwise_cons.mp h.ascending
    have hmem : ∀ u ∈ ts, u ∈ t :: ts := fun u hu => List.mem_cons_of_mem t hu
    refine ⟨fun u hu => h.nonempty u (hmem u hu), hascending, fun u hu => h.within u (hmem u hu),
      fun u hu => h.spells u (hmem u hu), fun u hu => ?_, fun before d after hsplit hlt hout => ?_⟩
    · obtain ⟨before, after, hsplit, hplaced, hlongest⟩ := h.stands u (hmem u hu)
      have hle : byteLength t.text.toList ≤ byteLength before := by
        have hafter := hfirst u hu
        rw [Token.stop, hstart] at hafter
        omega
      obtain ⟨more, rfl, hmore⟩ := exists_append_of_byteLength_le hsplit hle
      exact ⟨more, after, hmore, by rw [hplaced, hplace], hlongest⟩
    · refine h.blank (t.text.toList ++ before) d after ?_ (hplace before ▸ hlt) ?_
      · rw [hsplit, List.append_assoc]
      · rw [← hplace]
        exact List.forall_mem_cons.mpr ⟨.inr (Nat.le_add_right _ _), hout⟩
  · intro h
    refine ⟨List.forall_mem_cons.mpr ⟨hpos, h.nonempty⟩,
      List.pairwise_cons.mpr ⟨fun u hu => h.start_le hu, h.ascending⟩,
      List.forall_mem_cons.mpr ⟨hwithin, h.within⟩, List.forall_mem_cons.mpr ⟨hspells, h.spells⟩,
      List.forall_mem_cons.mpr ⟨⟨[], rest, rfl, by rw [hstart]; rfl, hlongest⟩, fun u hu => ?_⟩,
      fun before d after hsplit hlt hout => ?_⟩
    · obtain ⟨before, after, rfl, hplaced, hlongest⟩ := h.stands u hu
      refine ⟨t.text.toList ++ before, after, ?_, by rw [hplaced, hplace], hlongest⟩
      rw [List.append_assoc]
    · obtain ⟨hfirst, hout⟩ := List.forall_mem_cons.mp hout
      have hle : byteLength t.text.toList ≤ byteLength before := by
        rw [Token.stop, hstart] at hfirst
        omega
      obtain ⟨more, rfl, hmore⟩ := exists_append_of_byteLength_le hsplit hle
      rw [← hplace] at hlt hout
      exact h.blank more d after hmore hlt hout

/-- A character that is tiled and not blank is the first of the first token. -/
theorem exists_first (h : Tiles offset (c :: rest) stop ts) (hc : ¬ Blank c) (hlt : offset < stop) :
    ∃ t later after, ts = t :: later ∧ t.start = offset ∧ c :: rest = t.text.toList ++ after ∧
      ∀ c ∈ after.head?, ∀ kind : TokenKind, ¬ kind.Pattern (t.text.toList ++ [c]) := by
  have hcovered : ∃ t ∈ ts, t.start ≤ offset ∧ offset < t.stop := by
    by_contra hnone
    push Not at hnone
    refine hc (h.blank [] c rest rfl hlt fun t ht => ?_)
    have hout := hnone t ht
    simp only [byteLength, Nat.add_zero]
    omega
  obtain ⟨t, ht, hstart, hstop⟩ := hcovered
  obtain ⟨before, after, hsplit, hplaced, hlongest⟩ := h.stands t ht
  have hbefore : before = [] := by
    by_contra hne
    have hpos := byteLength_pos hne
    omega
  obtain ⟨earlier, later, rfl⟩ := List.append_of_mem ht
  have hearlier : earlier = [] := by
    refine List.eq_nil_iff_forall_not_mem.mpr fun u hu => ?_
    have hmem : u ∈ earlier ++ t :: later := List.mem_append_left _ hu
    have horder := (List.pairwise_append.mp h.ascending).2.2 u hu t List.mem_cons_self
    have hfirst := h.start_le hmem
    have hnonempty := h.nonempty u hmem
    omega
  subst hbefore hearlier
  exact ⟨t, later, after, rfl, by omega, hsplit, hlongest⟩

end Tiles

/-! ### Scanning along a tiling -/

/-- What scanning gives that found some tokens up to an offset: it fails if anything is left. -/
def found (offset : Nat) (ts : List Token) : List Char → Except TypeTextError (List Token)
  | [] => .ok ts
  | _ :: _ => .error (.garbage offset)

theorem map_found (offset : Nat) (t : Token) (ts : List Token) (left : List Char) :
    (found offset ts left).map (t :: ·) = found offset (t :: ts) left := by
  cases left <;> rfl

/-- The token of a lexeme cannot be lengthened. -/
theorem Start.longest_takeWhile {c : Char} {start : Start} (h : Start.of? c = some start)
    (rest : List Char) : ∀ d ∈ (rest.dropWhile start.continues).head?, ∀ kind : TokenKind,
      ¬ kind.Pattern (c :: rest.takeWhile start.continues ++ [d]) := by
  intro d hd kind
  have hfalse := List.head?_dropWhile_not start.continues rest
  rw [Option.mem_def.mp hd] at hfalse
  exact Start.longest h hfalse kind

/-- The characters up to the end of the text, or up to one that starts nothing, are tiled. -/
theorem exists_tiles (offset : Nat) (cs : List Char) : ∃ ts front left, cs = front ++ left ∧
    Tiles offset cs (offset + byteLength front) ts ∧ ∀ c ∈ left.head?, StartsNothing c := by
  induction cs using scan_induction generalizing offset with
  | nil => exact ⟨[], [], [], rfl, .nil _ _, by simp⟩
  | garbage c rest hnone =>
      refine ⟨[], [], c :: rest, rfl, .nil _ _, fun d hd => ?_⟩
      cases hd
      exact (Start.of?_eq_none_iff c).mp hnone
  | space c rest hspace ih =>
      obtain ⟨ts, front, left, hsplit, htiles, hleft⟩ := ih (offset + c.utf8Size)
      refine ⟨ts, c :: front, left, congrArg (c :: ·) hsplit, ?_, hleft⟩
      rw [Tiles.cons_blank_iff ((isSpace_iff c).mp hspace), byteLength, ← Nat.add_assoc]
      exact htiles
  | lexeme c rest start hstart hne ih =>
      obtain ⟨kind, hkind⟩ := start.exists_kind hne (c :: rest.takeWhile start.continues)
      let t : Token := ⟨kind, String.ofList (c :: rest.takeWhile start.continues), offset⟩
      obtain ⟨ts, front, left, hsplit, htiles, hleft⟩ := ih t.stop
      have htext : t.text.toList = c :: rest.takeWhile start.continues := String.toList_ofList
      have hcs : c :: rest = t.text.toList ++ rest.dropWhile start.continues := by
        rw [htext, List.cons_append, List.takeWhile_append_dropWhile]
      have hstop : offset + byteLength (t.text.toList ++ front) = t.stop + byteLength front := by
        rw [byteLength_append, Token.stop, Nat.add_assoc]
      refine ⟨t :: ts, t.text.toList ++ front, left, ?_, ?_, hleft⟩
      · rw [hcs, hsplit, List.append_assoc]
      · rw [hcs, hstop]
        refine (Tiles.cons_token_iff rfl ?_ (Nat.le_add_right _ _) ?_ ?_).mpr htiles
        · have hpos := byteLength_pos (List.cons_ne_nil c (rest.takeWhile start.continues))
          rw [Token.stop, htext]
          exact Nat.lt_add_of_pos_right hpos
        · rw [htext]
          exact Start.spells hstart hne (fun d hd => List.mem_takeWhile_imp hd) hkind
        · rw [htext]
          exact Start.longest_takeWhile hstart rest

/-- The lexeme at the front of a text is the only token that may stand there. -/
theorem eq_lexeme {c : Char} {start : Start} {kind : TokenKind} {text rest after : List Char}
    (h : Start.of? c = some start) (hspells : kind.Spells text) (hsplit : c :: rest = text ++ after)
    (hne : text ≠ [])
    (hlongest : ∀ d ∈ after.head?, ∀ kind : TokenKind, ¬ kind.Pattern (text ++ [d])) :
    text = c :: rest.takeWhile start.continues ∧ after = rest.dropWhile start.continues ∧
      start.kind? text = some kind := by
  obtain ⟨first, more, rfl⟩ := List.exists_cons_of_ne_nil hne
  rw [List.cons_append] at hsplit
  obtain ⟨rfl, rfl⟩ := List.cons.inj hsplit
  obtain ⟨start', hstart', hspace, hmore, hkind⟩ := hspells.start
  cases h.symm.trans hstart'
  have hafter : after.takeWhile start.continues = [] ∧ after.dropWhile start.continues = after := by
    cases after with
    | nil => exact ⟨rfl, rfl⟩
    | cons d after =>
        have hd : ¬ start.continues d = true :=
          Bool.not_eq_true _ ▸ Start.stops h hspace hmore (hlongest d rfl)
        exact ⟨List.takeWhile_cons_of_neg hd, List.dropWhile_cons_of_neg hd⟩
  rw [List.takeWhile_append_of_pos hmore, List.dropWhile_append_of_pos hmore, hafter.1, hafter.2,
    List.append_nil]
  exact ⟨rfl, rfl, hkind⟩

/-- No tiling goes on past a character that starts nothing: a token would have to start with it. -/
theorem Tiles.not_past {offset stop : Nat} {c : Char} {rest : List Char} {ts : List Token}
    (h : Tiles offset (c :: rest) stop ts) (hnothing : StartsNothing c) : ¬ offset < stop := by
  intro hlt
  obtain ⟨t, later, after, rfl, -, hfirst, -⟩ := h.exists_first hnothing.1 hlt
  obtain ⟨e, more, htext, -⟩ := h.exists_cons List.mem_cons_self
  have hpattern := (h.spells t List.mem_cons_self).pattern
  rw [htext] at hfirst hpattern
  rw [← (List.cons.inj hfirst).1] at hpattern
  exact hnothing.2 t.kind more hpattern

theorem lt_offset_cons (offset : Nat) (c : Char) (front : List Char) :
    offset < offset + byteLength (c :: front) :=
  Nat.lt_add_of_pos_right (byteLength_pos (List.cons_ne_nil c front))

/-- A tiling that goes on past a character that starts a token has the lexeme there as its first
token, and goes on behind it. -/
theorem Tiles.exists_lexeme {offset : Nat} {c : Char} {start : Start} {rest front left : List Char}
    {ts : List Token} (h : Tiles offset (c :: rest) (offset + byteLength (c :: front)) ts)
    (hstart : Start.of? c = some start) (hblank : ¬ Blank c)
    (hsplit : c :: rest = c :: front ++ left) :
    ∃ kind later front', start.kind? (c :: rest.takeWhile start.continues) = some kind ∧
      ts = ⟨kind, String.ofList (c :: rest.takeWhile start.continues), offset⟩ :: later ∧
      offset + byteLength (c :: front) =
        offset + byteLength (c :: rest.takeWhile start.continues) + byteLength front' ∧
      Tiles (offset + byteLength (c :: rest.takeWhile start.continues))
        (rest.dropWhile start.continues) (offset + byteLength (c :: front)) later ∧
      rest.dropWhile start.continues = front' ++ left := by
  obtain ⟨t, later, after, rfl, hplaced, hfirst, hlongest⟩ :=
    h.exists_first hblank (lt_offset_cons offset c front)
  have hpos := h.nonempty t List.mem_cons_self
  have hwithin := h.within t List.mem_cons_self
  have hspells := h.spells t List.mem_cons_self
  obtain ⟨e, more, htext, -⟩ := h.exists_cons List.mem_cons_self
  obtain ⟨hlexeme, hafter, hkind⟩ := eq_lexeme hstart hspells hfirst
    (htext ▸ List.cons_ne_nil e more) hlongest
  rw [hfirst] at h hsplit
  have hstop : t.stop = offset + byteLength t.text.toList := by rw [Token.stop, hplaced]
  have hle : byteLength t.text.toList ≤ byteLength (c :: front) := by
    rw [hstop] at hwithin
    omega
  obtain ⟨front', hfront, hrest⟩ := exists_append_of_byteLength_le hsplit hle
  have htoken : t = ⟨t.kind, String.ofList t.text.toList, offset⟩ := by
    rw [String.ofList_toList, ← hplaced]
  have hlater := (Tiles.cons_token_iff hplaced hpos hwithin hspells hlongest).mp h
  rw [← hlexeme, ← hafter, ← hstop]
  refine ⟨t.kind, later, front', hkind, congrArg (· :: later) htoken, ?_, hlater, hrest⟩
  rw [hfront, byteLength_append, hstop, Nat.add_assoc]

/-- Scanning follows every tiling up to the end of the text, or up to a character that starts
nothing. -/
theorem Tiles.scan_eq {offset : Nat} {cs front left : List Char} {ts : List Token}
    (h : Tiles offset cs (offset + byteLength front) ts) (hsplit : cs = front ++ left)
    (hleft : ∀ c ∈ left.head?, StartsNothing c) :
    scan offset cs = found (offset + byteLength front) ts left := by
  induction cs using scan_induction generalizing offset front ts with
  | nil =>
      obtain ⟨rfl, rfl⟩ := List.append_eq_nil_iff.mp hsplit.symm
      rw [h.eq_nil, scan]
      rfl
  | garbage c rest hnone =>
      cases front with
      | nil =>
          rw [List.nil_append] at hsplit
          subst hsplit
          exact scan_garbage hnone offset rest
      | cons d front =>
          have hnothing := (Start.of?_eq_none_iff c).mp hnone
          exact absurd (lt_offset_cons offset d front) (h.not_past hnothing)
  | space c rest hspace ih =>
      have hblank := (isSpace_iff c).mp hspace
      cases front with
      | nil =>
          rw [List.nil_append] at hsplit
          exact absurd hblank (hleft c (hsplit ▸ rfl)).1
      | cons d front =>
          obtain ⟨rfl, hrest⟩ := List.cons.inj hsplit
          have hplace : offset + byteLength (c :: front) = offset + c.utf8Size + byteLength front := by
            rw [byteLength, Nat.add_assoc]
          rw [hplace] at h ⊢
          rw [scan_space hspace]
          exact ih ((Tiles.cons_blank_iff hblank).mp h) hrest
  | lexeme c rest start hstart hne ih =>
      have hsome : ¬ StartsNothing c := fun hnothing => by
        rw [(Start.of?_eq_none_iff c).mpr hnothing] at hstart
        cases hstart
      have hblank : ¬ Blank c := fun hblank => by
        rw [Start.of?_of_isSpace ((isSpace_iff c).mpr hblank)] at hstart
        cases hstart
        exact hne rfl
      cases front with
      | nil =>
          rw [List.nil_append] at hsplit
          exact absurd (hleft c (hsplit ▸ rfl)) hsome
      | cons d front =>
          obtain rfl : c = d := (List.cons.inj hsplit).1
          obtain ⟨kind, later, front', hkind, rfl, hstop, hlater, hrest⟩ :=
            h.exists_lexeme hstart hblank hsplit
          rw [hstop] at hlater ⊢
          rw [scan_lexeme hstart hkind, ih hlater hrest, map_found]

/-! ### Spans in the bytes of a text -/

theorem length_utf8 (s : String) : (Text.utf8 s).length = byteLength s.toList := by
  rw [Text.utf8_eq_flatMap]
  exact Tag.length_bytes s.toList

theorem utf8_append (s t : String) : Text.utf8 (s ++ t) = Text.utf8 s ++ Text.utf8 t := by
  rw [Text.utf8_eq_flatMap, Text.utf8_eq_flatMap, Text.utf8_eq_flatMap, String.toList_append,
    List.flatMap_append]

theorem byteLength_toList (s : String) : byteLength s.toList = s.utf8ByteSize := by
  rw [← length_utf8]
  rfl

/-- A space, a tab, and the two bytes of line breaks. -/
def blankBytes : List UInt8 := [0x20, 0x09, 0x0D, 0x0A]

/-- The spans of tokens in the bytes of a text: their ends are boundaries of characters, what lies
between them is the text of the token, and every byte outside of them is blank. -/
structure Spans (source : String) (ts : List Token) : Prop where
  boundary : ∀ t ∈ ts, (⟨t.start⟩ : String.Pos.Raw).IsValid source ∧
    (⟨t.stop⟩ : String.Pos.Raw).IsValid source
  text : ∀ t ∈ ts, ((Text.utf8 source).drop t.start).take (t.stop - t.start) = Text.utf8 t.text
  blank : ∀ i b, (Text.utf8 source)[i]? = some b → (∀ t ∈ ts, i < t.start ∨ t.stop ≤ i) →
    b ∈ blankBytes

theorem isValid_append (front back : String) :
    (⟨front.utf8ByteSize⟩ : String.Pos.Raw).IsValid (front ++ back) :=
  String.Pos.Raw.isValid_rawEndPos.append_right back

/-- Every byte belongs to a character. -/
theorem exists_char_at {cs : List Char} {i : Nat} (h : i < byteLength cs) :
    ∃ before c after, cs = before ++ c :: after ∧ byteLength before ≤ i ∧
      i < byteLength before + c.utf8Size := by
  induction cs generalizing i with
  | nil => exact absurd h (Nat.not_lt_zero i)
  | cons c cs ih =>
      by_cases hi : i < c.utf8Size
      · exact ⟨[], c, cs, rfl, Nat.zero_le i, by simpa [byteLength] using hi⟩
      · rw [byteLength] at h
        obtain ⟨before, d, after, rfl, hle, hlt⟩ := ih (i := i - c.utf8Size) (by omega)
        refine ⟨c :: before, d, after, rfl, ?_, ?_⟩ <;> rw [byteLength] <;> omega

theorem Blank.utf8EncodeChar {c : Char} (h : Blank c) : c.utf8Size = 1 ∧
    String.utf8EncodeChar c = [UInt8.ofNat c.toNat] ∧ UInt8.ofNat c.toNat ∈ blankBytes := by
  rcases h with rfl | rfl | rfl | rfl <;> decide

namespace Tiles

variable {source : String} {ts : List Token}

/-- Every token cuts the text in three. -/
theorem exists_parts (h : Tiles 0 source.toList (byteLength source.toList) ts) {t : Token}
    (ht : t ∈ ts) : ∃ before after, source = before ++ (t.text ++ after) ∧
      t.start = before.utf8ByteSize ∧ t.stop = (before ++ t.text).utf8ByteSize := by
  obtain ⟨before, after, hsplit, hplaced, -⟩ := h.stands t ht
  refine ⟨String.ofList before, String.ofList after, ?_, ?_, ?_⟩
  · rw [← String.toList_inj, hsplit]
    simp
  · rw [hplaced, ← byteLength_toList, String.toList_ofList, Nat.zero_add]
  · rw [Token.stop, hplaced, ← byteLength_toList, String.toList_append, byteLength_append,
      String.toList_ofList, Nat.zero_add]

/-- No token ends inside of a character. -/
theorem stop_le (h : Tiles 0 source.toList (byteLength source.toList) ts) {t : Token} (ht : t ∈ ts)
    {before after : List Char} {c : Char} (hsplit : source.toList = before ++ c :: after)
    (hstop : t.stop < byteLength before + c.utf8Size) : t.stop ≤ byteLength before := by
  by_contra hinside
  obtain ⟨front, back, hcut, hplaced, -⟩ := h.stands t ht
  have hend : t.stop = byteLength (front ++ t.text.toList) := by
    rw [byteLength_append, Token.stop, hplaced, Nat.zero_add]
  have hsame : before ++ c :: after = (front ++ t.text.toList) ++ back := by
    rw [← hsplit, hcut, List.append_assoc]
  obtain ⟨more, hmore, hrest⟩ := exists_append_of_byteLength_le hsame (by omega)
  rw [hend, hmore, byteLength_append] at hstop hinside
  cases more with
  | nil => exact hinside (Nat.le_refl _)
  | cons d more =>
      obtain ⟨rfl, -⟩ := List.cons.inj hrest
      rw [byteLength] at hstop
      omega

/-- A byte outside of the tokens is that of a blank. -/
theorem mem_blankBytes (h : Tiles 0 source.toList (byteLength source.toList) ts) {i : Nat}
    {b : UInt8} (hb : (Text.utf8 source)[i]? = some b)
    (hout : ∀ t ∈ ts, i < t.start ∨ t.stop ≤ i) : b ∈ blankBytes := by
  have hi : i < byteLength source.toList := by
    rw [← length_utf8]
    exact (List.getElem?_eq_some_iff.mp hb).1
  obtain ⟨before, c, after, hsplit, hle, hlt⟩ := exists_char_at hi
  have hplace : byteLength before < byteLength source.toList := Nat.lt_of_le_of_lt hle hi
  have hblank : Blank c := by
    refine h.blank before c after hsplit (by simpa using hplace) fun t ht => ?_
    rw [Nat.zero_add]
    rcases hout t ht with hbefore | hafter
    · exact .inl (by omega)
    · exact .inr (h.stop_le ht hsplit (Nat.lt_of_le_of_lt hafter hlt))
  obtain ⟨hsize, hencode, hbyte⟩ := hblank.utf8EncodeChar
  have hindex : i = (before.flatMap String.utf8EncodeChar).length := by
    have hlength := Tag.length_bytes before
    rw [Tag.bytes] at hlength
    omega
  rw [Text.utf8_eq_flatMap, hsplit, List.flatMap_append, List.flatMap_cons, hencode, hindex,
    List.getElem?_append_right (Nat.le_refl _), Nat.sub_self] at hb
  cases hb
  exact hbyte

theorem spans (h : Tiles 0 source.toList (byteLength source.toList) ts) : Spans source ts where
  boundary t ht := by
    obtain ⟨before, after, rfl, hstart, hstop⟩ := h.exists_parts ht
    rw [hstart, hstop]
    refine ⟨isValid_append _ _, ?_⟩
    rw [← String.append_assoc]
    exact isValid_append _ _
  text t ht := by
    obtain ⟨before, after, rfl, hstart, hstop⟩ := h.exists_parts ht
    have hsize : ∀ s : String, s.utf8ByteSize = (Text.utf8 s).length := fun _ => rfl
    rw [hstart, hstop, String.utf8ByteSize_append, Nat.add_sub_cancel_left, hsize, hsize,
      utf8_append, utf8_append, List.drop_left, List.take_left]
  blank _ _ hb hout := h.mem_blankBytes hb hout

end Tiles

/-- Scanning succeeds with the tokens that tile the text, whose spans lie between characters and leave
out blanks only. It fails exactly if the tiling of a part of the text ends in front of a character that
starts nothing, with the offset of that character. -/
theorem tokens_tile (source : String) :
    (∀ ts, tokens source = .ok ts ↔ Tiles 0 source.toList (byteLength source.toList) ts) ∧
    (∀ ts, tokens source = .ok ts → Spans source ts) ∧
    ∀ e, tokens source = .error e ↔ ∃ ts front c back, source.toList = front ++ c :: back ∧
      Tiles 0 source.toList (byteLength front) ts ∧ StartsNothing c ∧
      e = .garbage (byteLength front) := by
  obtain ⟨ts, front, left, hsplit, htiles, hleft⟩ := exists_tiles 0 source.toList
  have hscan : tokens source = found (0 + byteLength front) ts left := htiles.scan_eq hsplit hleft
  rw [Nat.zero_add] at htiles hscan
  have hok : ∀ ts, tokens source = .ok ts ↔ Tiles 0 source.toList (byteLength source.toList) ts := by
    intro ts'
    constructor
    · intro hts
      rw [hscan] at hts
      cases left with
      | nil =>
          cases hts
          rw [List.append_nil] at hsplit
          rwa [hsplit] at htiles ⊢
      | cons c back => cases hts
    · intro h
      rw [← Nat.zero_add (byteLength source.toList)] at h
      exact h.scan_eq (List.append_nil _).symm (by simp)
  refine ⟨hok, fun ts hts => ((hok ts).mp hts).spans, fun e => ?_⟩
  constructor
  · intro he
    rw [hscan] at he
    cases left with
    | nil => cases he
    | cons c back =>
        cases he
        exact ⟨ts, front, c, back, hsplit, htiles, hleft c rfl, rfl⟩
  · rintro ⟨ts', front', c, back, hsplit', h, hnothing, rfl⟩
    rw [← Nat.zero_add (byteLength front')] at h
    have hfails : tokens source = found (0 + byteLength front') ts' (c :: back) :=
      h.scan_eq hsplit' fun d hd => by
        cases hd
        exact hnothing
    rw [hfails, Nat.zero_add]
    rfl

end TypeBridge.TypeText
