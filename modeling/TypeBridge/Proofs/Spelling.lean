import Mathlib.Data.List.Forall2
import Mathlib.Data.List.TakeWhile
import TypeBridge.Declaration.Printer
import TypeBridge.Proofs.TypeReader

/-!
The lexemes of printed texts. A text spells some lexemes when they are what it is cut into, whatever
comes after it; a text that ends in a word or a number needs something after it that does not go on
with that word. Texts that are put together spell their lexemes one after another, so the lexemes of
anything printed follow from those of its pieces.
-/

namespace TypeBridge.Reading

variable {a : Alphabet}

/-- A text in front of which a word ends. -/
def Breaks (a : Alphabet) (cs : List Char) : Prop := ∀ c, cs.head? = some c → a.continuesWord c = false

/-- A text that is cut into lexemes, no matter what comes after it. -/
def Closes (a : Alphabet) (cs : List Char) (ts : List Lexeme) : Prop :=
  ∀ rest, lex a (cs ++ rest) = (lex a rest).map (ts ++ ·)

/-- A text that is cut into lexemes when a word may end after it. -/
def Spells (a : Alphabet) (cs : List Char) (ts : List Lexeme) : Prop :=
  ∀ rest, Breaks a rest → lex a (cs ++ rest) = (lex a rest).map (ts ++ ·)

theorem Closes.spells {cs : List Char} {ts : List Lexeme} (h : Closes a cs ts) : Spells a cs ts :=
  fun rest _ => h rest

theorem Closes.nil : Closes a [] [] := by
  intro rest
  simp

theorem Breaks.nil : Breaks a [] := fun _ h => nomatch h

theorem Breaks.cons {c : Char} (h : a.continuesWord c = false) (cs : List Char) :
    Breaks a (c :: cs) := by
  intro d hd
  cases hd
  exact h

theorem Breaks.append {cs : List Char} (h : Breaks a cs) (hne : cs ≠ []) (rest : List Char) :
    Breaks a (cs ++ rest) := by
  intro c hc
  rw [List.head?_append_of_ne_nil _ hne] at hc
  exact h c hc

theorem map_append_map (read : Option (List Lexeme)) (ts ts' : List Lexeme) :
    (read.map (ts' ++ ·)).map (ts ++ ·) = read.map (ts ++ ts' ++ ·) := by
  simp [Function.comp_def]

theorem Closes.append {cs cs' : List Char} {ts ts' : List Lexeme} (h : Closes a cs ts)
    (h' : Closes a cs' ts') : Closes a (cs ++ cs') (ts ++ ts') := by
  intro rest
  rw [List.append_assoc, h, h', map_append_map]

theorem Closes.append_spells {cs cs' : List Char} {ts ts' : List Lexeme} (h : Closes a cs ts)
    (h' : Spells a cs' ts') : Spells a (cs ++ cs') (ts ++ ts') := by
  intro rest hrest
  rw [List.append_assoc, h, h' rest hrest, map_append_map]

/-- A word ends where the next piece starts with something else. -/
theorem Spells.append_closes {cs cs' : List Char} {ts ts' : List Lexeme} (h : Spells a cs ts)
    (h' : Closes a cs' ts') (hbreaks : Breaks a cs') (hne : cs' ≠ []) :
    Closes a (cs ++ cs') (ts ++ ts') := by
  intro rest
  rw [List.append_assoc, h _ (hbreaks.append hne rest), h', map_append_map]

/-! ### Pieces -/

theorem closes_layout {c : Char} (h : isLayout c = true) : Closes a [c] [] := by
  intro rest
  rw [List.singleton_append, lex, if_pos h]
  simp

/-- What the marks have in common: none of them can be taken for another kind of lexeme. -/
theorem not_of_mem_marks {c : Char} (h : c ∈ marks) : isLayout c = false ∧ c.isAlphanum = false ∧
    c ≠ '_' ∧ c ≠ '$' ∧ c.toNat ≤ 0x7F ∧ c ≠ '"' := by
  have hall : (marks.all fun c => !isLayout c && !c.isAlphanum && c != '_' && c != '$' &&
      decide (c.toNat ≤ 0x7F) && c != '"') = true := by decide
  simpa [and_assoc] using List.all_eq_true.mp hall c h

theorem continuesWord_of_mem_marks {c : Char} (h : c ∈ marks) : a.continuesWord c = false := by
  obtain ⟨-, halnum, hunderscore, hdollar, hascii, -⟩ := not_of_mem_marks h
  simp [Alphabet.continuesWord, halnum, hunderscore, hdollar, Nat.not_lt.mpr hascii]

theorem closes_mark {c : Char} (h : c ∈ marks) : Closes a [c] [.mark c] := by
  intro rest
  obtain ⟨hlayout, halnum, hunderscore, hdollar, hascii, hquote⟩ := not_of_mem_marks h
  obtain ⟨halpha, hdigit⟩ := Bool.or_eq_false_iff.mp halnum
  have hword : a.startsWord c = false := by
    simp [Alphabet.startsWord, halpha, hunderscore, hdollar, Nat.not_lt.mpr hascii]
  rw [List.singleton_append, lex]
  simp [hlayout, hword, hdigit, hquote, h]

/-- A word that starts and goes on with letters. -/
def IsWord (a : Alphabet) (w : String) : Prop :=
  ∃ first more, w.toList = first :: more ∧ a.startsWord first = true ∧
    ∀ c ∈ more, a.continuesWord c = true

theorem isLayout_eq_false_of_startsWord {c : Char} (h : a.startsWord c = true) : isLayout c = false := by
  rw [Bool.eq_false_iff]
  intro hlayout
  simp only [isLayout, Bool.or_eq_true, beq_iff_eq] at hlayout
  rcases hlayout with ((rfl | rfl) | rfl) | rfl <;> cases h

theorem Breaks.takeWhile_append {p : Char → Bool} (hp : ∀ c, p c = true → a.continuesWord c = true)
    {front rest : List Char} (hfront : ∀ c ∈ front, p c = true) (h : Breaks a rest) :
    (front ++ rest).takeWhile p = front ∧ (front ++ rest).dropWhile p = rest := by
  have hstop : rest.takeWhile p = [] ∧ rest.dropWhile p = rest := by
    cases rest with
    | nil => exact ⟨rfl, rfl⟩
    | cons c rest =>
        have hc : ¬ p c = true := fun hpc => by simpa [h c rfl] using hp c hpc
        exact ⟨List.takeWhile_cons_of_neg hc, List.dropWhile_cons_of_neg hc⟩
  rw [List.takeWhile_append_of_pos hfront, List.dropWhile_append_of_pos hfront, hstop.1, hstop.2,
    List.append_nil]
  exact ⟨rfl, rfl⟩

theorem IsWord.spells {w : String} (h : IsWord a w) : Spells a w.toList [.word w] := by
  obtain ⟨first, more, hw, hfirst, hmore⟩ := h
  intro rest hrest
  obtain ⟨htake, hdrop⟩ := hrest.takeWhile_append (fun _ => id) hmore
  have hlayout := isLayout_eq_false_of_startsWord hfirst
  rw [hw, List.cons_append, lex, if_neg (by simp [hlayout]), if_pos hfirst, htake, hdrop, ← hw,
    String.ofList_toList]
  rfl

/-- Names that can stand without quotes are words in every alphabet. -/
theorem isWord_of_isIdentifierName {w : String} (h : isIdentifierName w = true) : IsWord a w := by
  rw [isIdentifierName] at h
  split at h
  · cases h
  · rename_i first more hw
    simp only [isIdentifierStart, isIdentifierChar, Bool.and_eq_true, List.all_eq_true] at h
    refine ⟨first, more, hw, ?_, fun c hc => ?_⟩
    · rw [Alphabet.startsWord, h.1, Bool.true_or]
    · rw [Alphabet.continuesWord, h.2 c hc, Bool.true_or]

/-! ### Literals -/

/-- No number but zero has a zero in front. -/
theorem head?_toDigits {n : Nat} (h : (Nat.toDigits 10 n).head? = some '0') :
    Nat.toDigits 10 n = ['0'] := by
  induction n using Nat.strong_induction_on with
  | _ n ih =>
      rw [Nat.toDigits_eq_if (by decide)] at h ⊢
      split at h
      · rename_i hsmall
        rw [if_pos hsmall]
        exact congrArg (fun c => [c]) (Option.some.inj h)
      · rename_i hlarge
        rw [List.head?_append_of_ne_nil _ Nat.toDigits_ne_nil] at h
        have hvalue := Nat.ofDigitChars_ten_toDigits (n := n / 10)
        rw [ih (n / 10) (by omega) h] at hvalue
        have hzero : 0 = n / 10 := hvalue
        omega

theorem readNumber_toDigits (n : Nat) : readNumber (Nat.toDigits 10 n) = some n := by
  rw [readNumber, if_neg fun h => h.2 (head?_toDigits h.1)]
  exact congrArg some Nat.ofDigitChars_ten_toDigits

theorem not_of_isDigit {c : Char} (h : c.isDigit = true) :
    isLayout c = false ∧ a.startsWord c = false ∧ a.continuesWord c = true := by
  have hrange : 48 ≤ c.toNat ∧ c.toNat ≤ 57 := by
    simpa [Char.isDigit, UInt32.le_iff_toNat_le] using h
  have halpha : c.isAlpha = false := by
    rw [Bool.eq_false_iff]
    intro hletter
    rcases Bool.or_eq_true_iff.mp hletter with hupper | hlower
    · have hle : 65 ≤ c.toNat := UInt32.le_iff_toNat_le.mp (of_decide_eq_true hupper).1
      omega
    · have hle : 97 ≤ c.toNat :=
        UInt32.le_iff_toNat_le.mp (of_decide_eq_true (Bool.and_eq_true_iff.mp hlower).1)
      omega
  have hother : ∀ d : Char, 57 < d.toNat ∨ d.toNat < 48 → c ≠ d := by
    rintro d hd rfl
    omega
  refine ⟨?_, ?_, ?_⟩
  · simp [isLayout, hother]
  · simp [Alphabet.startsWord, halpha, hother, show ¬ 0x7F < c.toNat by omega]
  · simp [Alphabet.continuesWord, Char.isAlphanum, h]

theorem spells_toDigits (n : Nat) : Spells a (Nat.toDigits 10 n) [.number n] := by
  intro rest hrest
  have hdigits : ∀ c ∈ Nat.toDigits 10 n, c.isDigit = true := fun c hc =>
    Nat.isDigit_of_mem_toDigits (by decide) (by decide) hc
  have hvalue := readNumber_toDigits n
  obtain ⟨first, more, hcons⟩ := List.exists_cons_of_ne_nil (Nat.toDigits_ne_nil (n := n) (b := 10))
  rw [hcons] at hdigits hvalue ⊢
  obtain ⟨hfirst, hmore⟩ := List.forall_mem_cons.mp hdigits
  obtain ⟨hlayout, hword, -⟩ := not_of_isDigit (a := a) hfirst
  obtain ⟨htake, hdrop⟩ := hrest.takeWhile_append (fun c hc => (not_of_isDigit hc).2.2) hmore
  rw [List.cons_append, lex, if_neg (by simp [hlayout]), if_neg (by simp [hword]), if_pos hfirst, htake,
    hdrop, hvalue]
  rfl

theorem spells_intText (n : Int64) : ∃ ts, Spells a (intText n.toInt).toList ts ∧
    (ts = [.number n.toInt.natAbs] ∧ 0 ≤ n.toInt ∨
      ts = [.mark '-', .number n.toInt.natAbs] ∧ n.toInt < 0) := by
  have hdigits := spells_toDigits (a := a) n.toInt.natAbs
  rw [intText, String.toList_append, Text.digitString, String.toList_ofList]
  split
  · rename_i hnegative
    exact ⟨_, (closes_mark (by decide)).append_spells hdigits, .inr ⟨rfl, hnegative⟩⟩
  · rename_i hpositive
    exact ⟨_, hdigits, .inl ⟨rfl, by omega⟩⟩

/-- A character of a string is written as an escape that stands for it, or as it is. -/
theorem literalChar_cases (c : Char) :
    (∃ written, literalChar c = ['\\', written] ∧ escaped? written = some c) ∨
    (literalChar c = [c] ∧ c ≠ '"' ∧ c ≠ '\\' ∧ c ≠ '\n' ∧ c ≠ '\r') := by
  by_cases hescape : c ∈ ['"', '\\', '\n', '\r', '\t']
  · left
    simp only [List.mem_cons, List.not_mem_nil, or_false] at hescape
    rcases hescape with rfl | rfl | rfl | rfl | rfl <;> exact ⟨_, rfl, by decide⟩
  · right
    simp only [List.mem_cons, List.not_mem_nil, or_false, not_or] at hescape
    obtain ⟨hquote, hbackslash, hnewline, hreturn, htab⟩ := hescape
    refine ⟨?_, hquote, hbackslash, hnewline, hreturn⟩
    rw [literalChar, if_neg hquote, if_neg hbackslash, if_neg hnewline, if_neg hreturn, if_neg htab]

theorem readText_literalChar (c : Char) (cs : List Char) : readText (literalChar c ++ cs) =
    (readText cs).map fun read => (c :: read.1, read.2) := by
  -- the five characters that would end the string or the line are the ones with an escape
  rcases literalChar_cases c with ⟨written, hwritten, hescape⟩ | ⟨hplain, hquote, hbackslash, hbreak⟩
  · rw [hwritten, List.cons_append, List.singleton_append, readText, hescape]
    cases readText cs <;> rfl
  · rw [hplain, List.singleton_append, readText.eq_4 _ _ hquote (fun _ _ h _ => hbackslash h),
      if_neg (by simp [hbackslash, hbreak])]

theorem readText_flatMap (cs rest : List Char) :
    readText (cs.flatMap literalChar ++ '"' :: rest) = some (cs, rest) := by
  induction cs with
  | nil => rfl
  | cons c cs ih => rw [List.flatMap_cons, List.append_assoc, readText_literalChar, ih, Option.map_some]

theorem closes_literalString (s : String) : Closes a (literalString s).toList [.text s] := by
  intro rest
  have hread := readText_flatMap s.toList rest
  rw [literalString, String.toList_ofList, List.append_assoc, List.append_assoc,
    List.singleton_append, List.singleton_append, lex, if_neg (by decide),
    if_neg (by simp [Alphabet.startsWord]), if_neg (by decide), if_pos rfl]
  split
  · rename_i hnone
    rw [hread] at hnone
    cases hnone
  · rename_i text more hsome
    rw [hread] at hsome
    cases hsome
    rw [String.ofList_toList]
    rfl

/-! ### Names, words and layout -/

/-- The lexeme that the name of a member is written as. -/
def nameLexeme (name : String) : Lexeme := if isIdentifierName name then .word name else .text name

theorem spells_propertyName (name : String) :
    Spells a (propertyName name).toList [nameLexeme name] := by
  rw [propertyName, nameLexeme]
  split
  · rename_i hname
    exact (isWord_of_isIdentifierName hname).spells
  · exact (closes_literalString name).spells

theorem spells_keyword (k : Keyword) : Spells a k.word.toList [.word k.word] :=
  (isWord_of_isIdentifierName (by cases k <;> decide)).spells

theorem closes_operator (op : Operator) : Closes a (op.word ++ " ").toList [.word op.word] := by
  have hword : Spells a op.word.toList [.word op.word] :=
    (isWord_of_isIdentifierName (by cases op <;> decide)).spells
  rw [String.toList_append]
  exact hword.append_closes (closes_layout (by decide)) (.cons rfl _) (List.cons_ne_nil _ _)

theorem closes_spaces (n : Nat) : Closes a (List.replicate n ' ') [] := by
  induction n with
  | zero => exact .nil
  | succ n ih => exact (closes_layout (c := ' ') (by decide)).append ih

theorem closes_pad (style : Style) (depth : Nat) : Closes a (style.pad depth).toList [] := by
  rw [Style.pad, String.toList_ofList]
  exact closes_spaces _

/-- A separator: a mark with spaces around it. -/
structure Separator (a : Alphabet) (text : String) (c : Char) : Prop where
  closes : Closes a text.toList [.mark c]
  breaks : Breaks a text.toList
  ne_nil : text.toList ≠ []

theorem separator_comma : Separator a ", " ',' where
  closes := (closes_mark (c := ',') (by decide)).append (closes_layout (by decide))
  breaks := .cons rfl _
  ne_nil := List.cons_ne_nil _ _

theorem Separator.spaced {text : String} {c : Char} (hc : c ∈ marks)
    (htext : text.toList = [' ', c, ' ']) : Separator a text c where
  closes := by
    have hspace : Closes a [' '] [] := closes_layout (by decide)
    rw [htext]
    exact hspace.append ((closes_mark hc).append hspace)
  breaks := by
    rw [htext]
    exact .cons rfl _
  ne_nil := by
    rw [htext]
    exact List.cons_ne_nil _ _

theorem Separator.spells_append {text : String} {c : Char} (h : Separator a text c) {cs cs' : List Char}
    {ts ts' : List Lexeme} (hcs : Spells a cs ts) (hcs' : Spells a cs' ts') :
    Spells a (cs ++ text.toList ++ cs') (ts ++ [.mark c] ++ ts') :=
  (hcs.append_closes h.closes h.breaks h.ne_nil).append_spells hcs'

/-- Texts with a separator between them spell their lexemes with its mark between them. -/
theorem Separator.spells_intercalate {text : String} {c : Char} (h : Separator a text c)
    {texts : List String} {tss : List (List Lexeme)}
    (hall : List.Forall₂ (fun s ts => Spells a s.toList ts) texts tss) :
    Spells a (text.intercalate texts).toList ([.mark c].intercalate tss) := by
  rw [String.toList_intercalate]
  induction hall with
  | nil => exact Closes.nil.spells
  | @cons s ts texts tss hs hall ih =>
      cases hall with
      | nil => simpa using hs
      | cons hs' hall =>
          simp only [List.map_cons] at ih ⊢
          rw [List.intercalate_cons_cons, List.intercalate_cons_cons]
          exact h.spells_append hs ih

/-- A text between a mark that opens and one that closes. -/
theorem Spells.between {cs : List Char} {ts : List Lexeme} (h : Spells a cs ts) {o c : Char}
    (ho : o ∈ marks) (hc : c ∈ marks) :
    Closes a (o :: (cs ++ [c])) (.mark o :: (ts ++ [.mark c])) :=
  (closes_mark ho).append (h.append_closes (closes_mark hc)
    (.cons (continuesWord_of_mem_marks hc) _) (List.cons_ne_nil _ _))

end TypeBridge.Reading
