import Mathlib.Data.List.TakeWhile
import TypeBridge.Proofs.Outcome
import TypeBridge.TypeText.Parser

/-!
The grammar of type expressions. A sequence of lexemes denotes a type by the rules of the grammar,
which say nothing about how it is read. The parser accepts exactly the sequences that denote a type,
and returns the type that they denote, so that no sequence denotes two. Where a lexeme stands in the
text plays no part in this.
-/

namespace TypeBridge.TypeText

/-- A token without its place. -/
structure Lexeme where
  kind : TokenKind
  text : String

def Token.lexeme (t : Token) : Lexeme := ⟨t.kind, t.text⟩

/-- What a name says: without a dot it is no more than itself, and otherwise its last dot parts the
path of a package from a name in it. -/
def Names (text : String) : Option String → String → Prop
  | none, name => '.' ∉ text.toList ∧ name = text
  | some package, name =>
      text = package ++ "." ++ name ∧ '.' ∉ name.toList ∧ package ≠ "" ∧ name ≠ "" ∧
        '/' ∉ name.toList

mutual

/-- The sequences of lexemes that denote a type. -/
inductive Denotes : List Lexeme → SourceType → Prop
  | pointer {a ts t} : Denotes ts t → Denotes (⟨.star, a⟩ :: ts) (.pointer t)
  | slice {a b ts t} :
      Denotes ts t → Denotes (⟨.bracketOpen, a⟩ :: ⟨.bracketClose, b⟩ :: ts) (.slice t)
  | array {a b text ts t} {length : UInt64} :
      Text.digitsValue text.toList = length.toNat → Denotes ts t →
      Denotes (⟨.bracketOpen, a⟩ :: ⟨.int, text⟩ :: ⟨.bracketClose, b⟩ :: ts) (.array length t)
  | map {a b c ks k vs v} : Denotes ks k → Denotes vs v →
      Denotes (⟨.kwMap, a⟩ :: ⟨.bracketOpen, b⟩ :: (ks ++ ⟨.bracketClose, c⟩ :: vs)) (.map k v)
  | chan {a ts t} : Denotes ts t → Denotes (⟨.kwChan, a⟩ :: ts) (.chan t)
  | interface {a b c} :
      Denotes [⟨.kwInterface, a⟩, ⟨.braceOpen, b⟩, ⟨.braceClose, c⟩] .emptyInterface
  | struct {a b c} : Denotes [⟨.kwStruct, a⟩, ⟨.braceOpen, b⟩, ⟨.braceClose, c⟩] (.struct [])
  | basic {text kind} :
      BasicKind.ofSpelling? text = some kind → Denotes [⟨.name, text⟩] (.basic kind)
  | name {text package name} : BasicKind.ofSpelling? text = none → Names text package name →
      Denotes [⟨.name, text⟩] (.named ⟨package, name, [], none⟩)
  | instantiated {a text package name ts args} : Names text package name → DenotesArgs ts args →
      Denotes (⟨.name, text⟩ :: ⟨.bracketOpen, a⟩ :: ts) (.named ⟨package, name, args, none⟩)

/-- The sequences of lexemes that denote type arguments, with the bracket that closes them. -/
inductive DenotesArgs : List Lexeme → List SourceType → Prop
  | last {a ts t} : Denotes ts t → DenotesArgs (ts ++ [⟨.bracketClose, a⟩]) [t]
  | more {a ts t us args} : Denotes ts t → DenotesArgs us args →
      DenotesArgs (ts ++ ⟨.comma, a⟩ :: us) (t :: args)

end

/-! ### Names and lengths -/

theorem arrayLength_eq_ok_iff {text : String} {length : UInt64} :
    arrayLength text = .ok length ↔ Text.digitsValue text.toList = length.toNat := by
  unfold arrayLength
  simp only
  constructor
  · intro h
    split at h
    · rename_i hsize
      cases h
      rw [UInt64.toNat_ofNat_of_lt' hsize]
    · cases h
  · intro h
    have hsize : Text.digitsValue text.toList < UInt64.size := h ▸ length.toNat_lt
    rw [if_pos hsize, h, UInt64.ofNat_toNat]

theorem splitLastDot_of_notMem {cs : List Char} (h : '.' ∉ cs) : splitLastDot cs = none := by
  have hall : cs.reverse.takeWhile (· != '.') = cs.reverse := by
    refine List.takeWhile_eq_self_iff.mpr fun c hc => ?_
    exact bne_iff_ne.mpr fun heq => h (heq ▸ List.mem_reverse.mp hc)
  simp [splitLastDot, hall]

theorem splitLastDot_append {package name : List Char} (h : '.' ∉ name) :
    splitLastDot (package ++ '.' :: name) = some (package, name) := by
  have hlast : ((package ++ '.' :: name).reverse.takeWhile (· != '.')).reverse = name := by
    have hname : ∀ c ∈ name.reverse, (c != '.') = true := fun c hc =>
      bne_iff_ne.mpr fun heq => h (heq ▸ List.mem_reverse.mp hc)
    rw [List.reverse_append, List.reverse_cons, List.append_assoc,
      List.takeWhile_append_of_pos hname]
    simp
  have hlength : (package ++ '.' :: name).length = package.length + 1 + name.length := by
    simp only [List.length_append, List.length_cons]
    omega
  simp only [splitLastDot, hlast]
  rw [if_neg (by omega), hlength, Nat.add_sub_cancel, Nat.add_sub_cancel, List.take_left]

/-- A name with a dot has a last one. -/
theorem exists_last_dot {cs : List Char} (h : '.' ∈ cs) :
    ∃ package name, cs = package ++ '.' :: name ∧ '.' ∉ name := by
  obtain ⟨back, front, hcs, hback⟩ := List.eq_append_cons_of_mem (List.mem_reverse.mpr h)
  refine ⟨front.reverse, back.reverse, ?_, fun hmem => hback (List.mem_reverse.mp hmem)⟩
  rw [← List.reverse_reverse cs, hcs]
  simp

theorem names_iff_of_notMem {text name : String} {package : Option String}
    (h : '.' ∉ text.toList) : Names text package name ↔ package = none ∧ name = text := by
  cases package with
  | none => simp [Names, h]
  | some package =>
      refine ⟨fun hnames => absurd ?_ h, fun heq => nomatch heq.1⟩
      simp [hnames.1]

theorem names_iff_of_append {text name : String} {package : Option String} {front back : List Char}
    (htext : text.toList = front ++ '.' :: back) (hback : '.' ∉ back) :
    Names text package name ↔ ¬(front = [] ∨ back = [] ∨ '/' ∈ back) ∧
      package = some (String.ofList front) ∧ name = String.ofList back := by
  cases package with
  | none => simp [Names, htext]
  | some package =>
      constructor
      · rintro ⟨rfl, hdot, hpackage, hname, hslash⟩
        have hlist : (package ++ "." ++ name).toList = package.toList ++ '.' :: name.toList := by
          simp
        have hsplit : splitLastDot (package ++ "." ++ name).toList =
            some (package.toList, name.toList) := hlist ▸ splitLastDot_append hdot
        rw [htext, splitLastDot_append hback] at hsplit
        cases hsplit
        simp_all
      · rintro ⟨hwell, hpackage, rfl⟩
        cases hpackage
        have heq : text = String.ofList front ++ "." ++ String.ofList back := by
          rw [← String.toList_inj, htext]
          simp
        simpa [Names, heq, hback, not_or] using hwell

theorem resolveName_of_basic {text : String} {kind : BasicKind}
    (h : BasicKind.ofSpelling? text = some kind) : resolveName text [] = .ok (.basic kind) := by
  simp only [resolveName, h]

/-- A name that spells no basic type, or has arguments, denotes what it names. -/
theorem resolveName_eq_ok_iff {text : String} {args : List SourceType} {t : SourceType}
    (h : args = [] → BasicKind.ofSpelling? text = none) :
    resolveName text args = .ok t ↔
      ∃ package name, Names text package name ∧ t = .named ⟨package, name, args, none⟩ := by
  unfold resolveName
  split
  · rename_i kind hkind
    rw [h rfl] at hkind
    cases hkind
  · by_cases hdot : '.' ∈ text.toList
    · obtain ⟨front, back, htext, hback⟩ := exists_last_dot hdot
      simp only [htext, splitLastDot_append hback, names_iff_of_append htext hback]
      by_cases hill : front = [] ∨ back = [] ∨ '/' ∈ back
      · simp [hill]
      · rw [if_neg hill]
        constructor
        · rintro heq
          cases heq
          exact ⟨_, _, ⟨hill, rfl, rfl⟩, rfl⟩
        · rintro ⟨_, _, ⟨-, rfl, rfl⟩, rfl⟩
          rfl
    · rw [splitLastDot_of_notMem hdot]
      constructor
      · rintro heq
        cases heq
        exact ⟨none, text, (names_iff_of_notMem hdot).mpr ⟨rfl, rfl⟩, rfl⟩
      · rintro ⟨package, name, hnames, rfl⟩
        obtain ⟨rfl, rfl⟩ := (names_iff_of_notMem hdot).mp hnames
        rfl

theorem resolveName_of_names {text name : String} {package : Option String}
    (hnames : Names text package name) (args : List SourceType)
    (h : args = [] → BasicKind.ofSpelling? text = none) :
    resolveName text args = .ok (.named ⟨package, name, args, none⟩) :=
  (resolveName_eq_ok_iff h).mpr ⟨package, name, hnames, rfl⟩

/-! ### Reading -/

/-- Reads type arguments after the bracket or the comma before them. -/
def parseArgList (fuel : Nat) (ts : List Token) :
    Except TypeTextError (List SourceType × List Token) := do
  let (first, ts) ← parseType fuel ts
  let (others, ts) ← parseMoreArgs fuel ts
  return (first :: others, ts)

theorem parseArgs_open (fuel : Nat) (text : String) (start : Nat) (ts : List Token) :
    parseArgs (fuel + 1) (⟨.bracketOpen, text, start⟩ :: ts) = parseArgList fuel ts := by
  rw [parseArgs]
  rfl

theorem parseMoreArgs_comma (fuel : Nat) (text : String) (start : Nat) (ts : List Token) :
    parseMoreArgs (fuel + 1) (⟨.comma, text, start⟩ :: ts) = parseArgList fuel ts := by
  rw [parseMoreArgs]
  rfl

theorem parseMoreArgs_close (fuel : Nat) (text : String) (start : Nat) (ts : List Token) :
    parseMoreArgs fuel (⟨.bracketClose, text, start⟩ :: ts) = .ok ([], ts) := by
  cases fuel <;> rw [parseMoreArgs]

theorem parseArgs_cases {fuel : Nat} {ts rest : List Token} {args : List SourceType}
    (h : parseArgs fuel ts = .ok (args, rest)) : args = [] ∧ rest = ts ∨
      ∃ fuel' text start ts', fuel = fuel' + 1 ∧ ts = ⟨.bracketOpen, text, start⟩ :: ts' ∧
        parseArgList fuel' ts' = .ok (args, rest) := by
  rw [parseArgs.eq_def] at h
  split at h
  · exact .inr ⟨_, _, _, _, rfl, rfl, h⟩
  · cases h
    exact .inl ⟨rfl, rfl⟩

theorem parseMoreArgs_cases {fuel : Nat} {ts rest : List Token} {args : List SourceType}
    (h : parseMoreArgs fuel ts = .ok (args, rest)) :
    args = [] ∧ (∃ text start, ts = ⟨.bracketClose, text, start⟩ :: rest) ∨
      ∃ fuel' text start ts', fuel = fuel' + 1 ∧ ts = ⟨.comma, text, start⟩ :: ts' ∧
        parseArgList fuel' ts' = .ok (args, rest) := by
  rw [parseMoreArgs.eq_def] at h
  split at h
  · exact .inr ⟨_, _, _, _, rfl, rfl, h⟩
  · cases h
    exact .inl ⟨rfl, _, _, rfl⟩
  · cases h

theorem expect_eq_ok_iff {kind : TokenKind} {wanted : Wanted} {ts rest : List Token} :
    expect kind wanted ts = .ok rest ↔ ∃ text start, ts = ⟨kind, text, start⟩ :: rest := by
  cases ts with
  | nil => simp [expect]
  | cons token ts =>
      obtain ⟨found, text, start⟩ := token
      by_cases h : found = kind <;> simp [expect, h]

theorem expectBraces_eq_ok_iff {ts rest : List Token} :
    expectBraces ts = .ok rest ↔ ∃ a i b j, ts = ⟨.braceOpen, a, i⟩ :: ⟨.braceClose, b, j⟩ :: rest := by
  simp only [expectBraces, bind_eq_ok_iff, expect_eq_ok_iff]
  constructor
  · rintro ⟨_, ⟨a, i, rfl⟩, b, j, rfl⟩
    exact ⟨a, i, b, j, rfl⟩
  · rintro ⟨a, i, b, j, rfl⟩
    exact ⟨_, ⟨a, i, rfl⟩, b, j, rfl⟩

/-! ### What is read denotes its type -/

/-- The tokens up to a rest satisfy a predicate, wherever they stand. -/
def Consumes (P : List Lexeme → Prop) (ts rest : List Token) : Prop :=
  ∃ used, ts = used ++ rest ∧ P (used.map Token.lexeme)

/-- The lexemes that go on with arguments after a type, and close them. -/
def GoesOn (args : List SourceType) (ls : List Lexeme) : Prop :=
  ∀ ts t, Denotes ts t → DenotesArgs (ts ++ ls) (t :: args)

/-- What each of the three parsers reads with a given amount of fuel. -/
structure Sound (fuel : Nat) : Prop where
  type : ∀ ts t rest, parseType fuel ts = .ok (t, rest) → Consumes (Denotes · t) ts rest
  args : ∀ ts args rest, parseArgs fuel ts = .ok (args, rest) → args = [] ∧ rest = ts ∨
    args ≠ [] ∧ ∃ text start ts', ts = ⟨.bracketOpen, text, start⟩ :: ts' ∧
      Consumes (DenotesArgs · args) ts' rest
  moreArgs : ∀ ts args rest, parseMoreArgs fuel ts = .ok (args, rest) →
    Consumes (GoesOn args) ts rest

theorem Sound.argList {fuel : Nat} (h : Sound fuel) {ts rest : List Token} {args : List SourceType}
    (hargs : parseArgList fuel ts = .ok (args, rest)) :
    args ≠ [] ∧ Consumes (DenotesArgs · args) ts rest := by
  simp only [parseArgList, bind_eq_ok_iff] at hargs
  obtain ⟨⟨first, mid⟩, hfirst, ⟨others, last⟩, hothers, hresult⟩ := hargs
  cases hresult
  obtain ⟨used, rfl, hused⟩ := h.type _ _ _ hfirst
  obtain ⟨used', rfl, hused'⟩ := h.moreArgs _ _ _ hothers
  refine ⟨List.cons_ne_nil _ _, used ++ used', (List.append_assoc _ _ _).symm, ?_⟩
  rw [List.map_append]
  exact hused' _ _ hused

theorem Sound.parseType_succ {fuel : Nat} (h : Sound fuel) {ts rest : List Token} {t : SourceType}
    (ht : parseType (fuel + 1) ts = .ok (t, rest)) : Consumes (Denotes · t) ts rest := by
  cases ts with
  | nil => simp [parseType] at ht
  | cons token ts =>
      obtain ⟨kind, text, start⟩ := token
      cases kind with
      | star =>
          simp only [parseType, bind_eq_ok_iff] at ht
          obtain ⟨⟨elem, left⟩, helem, hresult⟩ := ht
          cases hresult
          obtain ⟨used, rfl, hused⟩ := h.type _ _ _ helem
          exact ⟨_ :: used, rfl, .pointer hused⟩
      | bracketOpen =>
          simp only [parseType] at ht
          split at ht
          · simp only [bind_eq_ok_iff] at ht
            obtain ⟨⟨elem, left⟩, helem, hresult⟩ := ht
            cases hresult
            obtain ⟨used, rfl, hused⟩ := h.type _ _ _ helem
            exact ⟨_ :: _ :: used, rfl, .slice hused⟩
          · simp only [bind_eq_ok_iff, arrayLength_eq_ok_iff, expect_eq_ok_iff] at ht
            obtain ⟨length, hlength, _, ⟨a, i, rfl⟩, ⟨elem, left⟩, helem, hresult⟩ := ht
            cases hresult
            obtain ⟨used, rfl, hused⟩ := h.type _ _ _ helem
            exact ⟨_ :: _ :: _ :: used, rfl, .array hlength hused⟩
          · cases ht
      | kwMap =>
          simp only [parseType, bind_eq_ok_iff, expect_eq_ok_iff] at ht
          obtain ⟨_, ⟨a, i, rfl⟩, ⟨key, _⟩, hkey, left, ⟨b, j, hleft⟩, ⟨value, _⟩, hvalue, hresult⟩ := ht
          cases hresult
          obtain ⟨used, rfl, hused⟩ := h.type _ _ _ hkey
          obtain ⟨used', rfl, hused'⟩ := h.type _ _ _ hvalue
          refine ⟨⟨.kwMap, text, start⟩ :: ⟨.bracketOpen, a, i⟩ ::
            (used ++ ⟨.bracketClose, b, j⟩ :: used'), ?_, ?_⟩
          · simp only at hleft
            rw [hleft, List.cons_append, List.cons_append, List.append_assoc, List.cons_append]
          · rw [List.map_cons, List.map_cons, List.map_append, List.map_cons]
            exact .map hused hused'
      | kwChan =>
          simp only [parseType, bind_eq_ok_iff] at ht
          obtain ⟨⟨elem, left⟩, helem, hresult⟩ := ht
          cases hresult
          obtain ⟨used, rfl, hused⟩ := h.type _ _ _ helem
          exact ⟨_ :: used, rfl, .chan hused⟩
      | kwInterface =>
          simp only [parseType, bind_eq_ok_iff, expectBraces_eq_ok_iff] at ht
          obtain ⟨_, ⟨a, i, b, j, rfl⟩, hresult⟩ := ht
          cases hresult
          exact ⟨[_, _, _], rfl, .interface⟩
      | kwStruct =>
          simp only [parseType, bind_eq_ok_iff, expectBraces_eq_ok_iff] at ht
          obtain ⟨_, ⟨a, i, b, j, rfl⟩, hresult⟩ := ht
          cases hresult
          exact ⟨[_, _, _], rfl, .struct⟩
      | name =>
          simp only [parseType, bind_eq_ok_iff] at ht
          obtain ⟨⟨args, left⟩, hargs, type, htype, hresult⟩ := ht
          cases hresult
          rcases h.args _ _ _ hargs with ⟨rfl, rfl⟩ | ⟨hne, a, i, _, rfl, used, rfl, hused⟩
          · refine ⟨[⟨.name, text, start⟩], rfl, ?_⟩
            cases hkind : BasicKind.ofSpelling? text with
            | some kind =>
                cases (resolveName_of_basic hkind).symm.trans htype
                exact .basic hkind
            | none =>
                obtain ⟨package, name, hnames, rfl⟩ :=
                  (resolveName_eq_ok_iff fun _ => hkind).mp htype
                exact .name hkind hnames
          · obtain ⟨package, name, hnames, rfl⟩ :=
              (resolveName_eq_ok_iff fun hnil => absurd hnil hne).mp htype
            exact ⟨_ :: _ :: used, rfl, .instantiated hnames hused⟩
      | _ => simp [parseType] at ht

/-- Every call takes a unit of fuel from the calls that it makes. -/
theorem Sound.step {fuel : Nat} (h : ∀ fuel', fuel = fuel' + 1 → Sound fuel') : Sound fuel where
  type ts t rest ht := by
    cases fuel with
    | zero => simp [parseType] at ht
    | succ fuel => exact (h fuel rfl).parseType_succ ht
  args ts args rest hargs := by
    rcases parseArgs_cases hargs with hnone | ⟨fuel', a, i, ts', hfuel, hts, hlist⟩
    · exact .inl hnone
    · obtain ⟨hne, hconsumes⟩ := (h fuel' hfuel).argList hlist
      exact .inr ⟨hne, a, i, ts', hts, hconsumes⟩
  moreArgs ts args rest hargs := by
    rcases parseMoreArgs_cases hargs with ⟨rfl, a, i, rfl⟩ | ⟨fuel', a, i, ts', hfuel, rfl, hlist⟩
    · exact ⟨[⟨.bracketClose, a, i⟩], rfl, fun _ _ ht => .last ht⟩
    · obtain ⟨-, used, rfl, hused⟩ := (h fuel' hfuel).argList hlist
      exact ⟨⟨.comma, a, i⟩ :: used, rfl, fun _ _ ht => .more ht hused⟩

theorem sound (fuel : Nat) : Sound fuel := by
  induction fuel with
  | zero => exact .step fun _ heq => nomatch heq
  | succ fuel ih => exact .step fun _ heq => Nat.succ.inj heq ▸ ih

/-! ### What denotes a type is read -/

/-- No arguments follow: the next token, if any, is no opening bracket. -/
def Closed (rest : List Token) : Prop := ∀ text start ts, rest ≠ ⟨.bracketOpen, text, start⟩ :: ts

theorem parseArgs_of_closed {fuel : Nat} {rest : List Token} (h : Closed rest) :
    parseArgs fuel rest = .ok ([], rest) := by
  rw [parseArgs.eq_def]
  split
  · exact absurd rfl (h _ _ _)
  · rfl

theorem map_lexeme_eq_cons_iff {ts : List Token} {kind : TokenKind} {text : String}
    {ls : List Lexeme} : ts.map Token.lexeme = ⟨kind, text⟩ :: ls ↔
      ∃ start ts', ts = ⟨kind, text, start⟩ :: ts' ∧ ts'.map Token.lexeme = ls := by
  rw [List.map_eq_cons_iff]
  constructor
  · rintro ⟨token, ts', rfl, hlexeme, hls⟩
    cases hlexeme
    exact ⟨token.start, ts', rfl, hls⟩
  · rintro ⟨start, ts', rfl, hls⟩
    exact ⟨⟨kind, text, start⟩, ts', rfl, rfl, hls⟩

theorem DenotesArgs.ne_nil {ls : List Lexeme} {args : List SourceType} (h : DenotesArgs ls args) :
    args ≠ [] := by
  cases h <;> exact List.cons_ne_nil _ _

theorem closed_close (text : String) (start : Nat) (ts : List Token) :
    Closed (⟨.bracketClose, text, start⟩ :: ts) := by
  intro _ _ _ heq
  cases heq

theorem closed_comma (text : String) (start : Nat) (ts : List Token) :
    Closed (⟨.comma, text, start⟩ :: ts) := by
  intro _ _ _ heq
  cases heq

mutual

/-- With a unit of fuel for every token, a type is read up to a rest that does not extend it. -/
theorem Denotes.parseType_eq {ls : List Lexeme} {t : SourceType} (h : Denotes ls t)
    {ts rest : List Token} (hts : ts.map Token.lexeme = ls) (hrest : Closed rest) (fuel : Nat)
    (hfuel : ts.length ≤ fuel) : parseType fuel (ts ++ rest) = .ok (t, rest) := by
  cases fuel with
  | zero =>
      obtain rfl : ts = [] := List.length_eq_zero_iff.mp (Nat.le_zero.mp hfuel)
      nomatch hts ▸ h
  | succ fuel =>
      match h with
      | .pointer ht =>
          obtain ⟨i, elems, rfl, helems⟩ := map_lexeme_eq_cons_iff.mp hts
          have helem := ht.parseType_eq helems hrest fuel (Nat.le_of_succ_le_succ hfuel)
          simp only [List.cons_append, parseType, helem]
          rfl
      | .slice ht =>
          obtain ⟨i, _, rfl, hclose⟩ := map_lexeme_eq_cons_iff.mp hts
          obtain ⟨j, elems, rfl, helems⟩ := map_lexeme_eq_cons_iff.mp hclose
          have helem := ht.parseType_eq helems hrest fuel (by grind)
          simp only [List.cons_append, parseType, helem]
          rfl
      | .array hlength ht =>
          obtain ⟨i, _, rfl, hint⟩ := map_lexeme_eq_cons_iff.mp hts
          obtain ⟨j, _, rfl, hclose⟩ := map_lexeme_eq_cons_iff.mp hint
          obtain ⟨k, elems, rfl, helems⟩ := map_lexeme_eq_cons_iff.mp hclose
          have helem := ht.parseType_eq helems hrest fuel (by grind)
          simp only [List.cons_append, parseType, arrayLength_eq_ok_iff.mpr hlength, expect,
            if_true, bind, Except.bind, helem]
          rfl
      | .map (c := c) hk hv =>
          obtain ⟨i, _, rfl, hopen⟩ := map_lexeme_eq_cons_iff.mp hts
          obtain ⟨j, _, rfl, hinside⟩ := map_lexeme_eq_cons_iff.mp hopen
          obtain ⟨keys, _, rfl, hkeys, hclose⟩ := List.map_eq_append_iff.mp hinside
          obtain ⟨k, values, rfl, hvalues⟩ := map_lexeme_eq_cons_iff.mp hclose
          have hkey := hk.parseType_eq hkeys (closed_close c k (values ++ rest)) fuel (by grind)
          have hvalue := hv.parseType_eq hvalues hrest fuel (by grind)
          simp only [List.cons_append, List.append_assoc, parseType, expect, if_true, bind,
            Except.bind, hkey, hvalue]
          rfl
      | .chan ht =>
          obtain ⟨i, elems, rfl, helems⟩ := map_lexeme_eq_cons_iff.mp hts
          have helem := ht.parseType_eq helems hrest fuel (Nat.le_of_succ_le_succ hfuel)
          simp only [List.cons_append, parseType, helem]
          rfl
      | .interface | .struct =>
          obtain ⟨i, _, rfl, hopen⟩ := map_lexeme_eq_cons_iff.mp hts
          obtain ⟨j, _, rfl, hclose⟩ := map_lexeme_eq_cons_iff.mp hopen
          obtain ⟨k, _, rfl, hnil⟩ := map_lexeme_eq_cons_iff.mp hclose
          cases List.map_eq_nil_iff.mp hnil
          rfl
      | .basic hkind =>
          obtain ⟨i, _, rfl, hnil⟩ := map_lexeme_eq_cons_iff.mp hts
          cases List.map_eq_nil_iff.mp hnil
          simp only [List.cons_append, List.nil_append, parseType, parseArgs_of_closed hrest, bind,
            Except.bind, resolveName_of_basic hkind]
          rfl
      | .name hkind hnames =>
          obtain ⟨i, _, rfl, hnil⟩ := map_lexeme_eq_cons_iff.mp hts
          cases List.map_eq_nil_iff.mp hnil
          have hname := resolveName_of_names hnames [] fun _ => hkind
          simp only [List.cons_append, List.nil_append, parseType, parseArgs_of_closed hrest, bind,
            Except.bind, hname]
          rfl
      | .instantiated hnames hargs =>
          obtain ⟨i, _, rfl, hopen⟩ := map_lexeme_eq_cons_iff.mp hts
          obtain ⟨j, args, rfl, hlist⟩ := map_lexeme_eq_cons_iff.mp hopen
          obtain ⟨fuel, rfl⟩ := Nat.exists_eq_add_one_of_ne_zero (n := fuel) (by grind)
          have hread := hargs.parseArgList_eq hlist rest fuel (by grind)
          have hname := resolveName_of_names hnames _ fun hnil => absurd hnil hargs.ne_nil
          simp only [List.cons_append, parseType, parseArgs_open, hread, bind, Except.bind, hname]
          rfl

theorem DenotesArgs.parseArgList_eq {ls : List Lexeme} {args : List SourceType}
    (h : DenotesArgs ls args) {ts : List Token} (hts : ts.map Token.lexeme = ls)
    (rest : List Token) (fuel : Nat) (hfuel : ts.length ≤ fuel) :
    parseArgList fuel (ts ++ rest) = .ok (args, rest) := by
  match h with
  | .last (a := a) ht =>
      obtain ⟨elems, _, rfl, helems, hclose⟩ := List.map_eq_append_iff.mp hts
      obtain ⟨i, _, rfl, hnil⟩ := map_lexeme_eq_cons_iff.mp hclose
      cases List.map_eq_nil_iff.mp hnil
      have helem := ht.parseType_eq helems (closed_close a i rest) fuel (by grind)
      simp only [List.append_assoc, List.cons_append, List.nil_append, parseArgList, bind,
        Except.bind, helem, parseMoreArgs_close]
      rfl
  | .more (a := a) ht hargs =>
      obtain ⟨elems, _, rfl, helems, hcomma⟩ := List.map_eq_append_iff.mp hts
      obtain ⟨i, others, rfl, hothers⟩ := map_lexeme_eq_cons_iff.mp hcomma
      obtain ⟨fuel, rfl⟩ := Nat.exists_eq_add_one_of_ne_zero (n := fuel) (by grind)
      have helem := ht.parseType_eq helems (closed_comma a i (others ++ rest)) (fuel + 1) (by grind)
      have hmore := hargs.parseArgList_eq hothers rest fuel (by grind)
      rw [List.append_assoc, List.cons_append, parseArgList]
      simp only [bind, Except.bind, helem, parseMoreArgs_comma, hmore]
      rfl

end

theorem closed_nil : Closed [] := nofun

/-- The parser accepts the sequences of tokens that denote a type. -/
theorem parseTokens_eq_ok_iff {ts : List Token} {t : SourceType} :
    parseTokens ts = .ok t ↔ Denotes (ts.map Token.lexeme) t := by
  constructor
  · intro h
    simp only [parseTokens, bind_eq_ok_iff] at h
    obtain ⟨⟨type, rest⟩, hread, hend⟩ := h
    cases rest with
    | nil =>
        cases hend
        obtain ⟨used, rfl, hused⟩ := (sound _).type _ _ _ hread
        rwa [List.append_nil]
    | cons => cases hend
  · intro h
    have hread := h.parseType_eq rfl closed_nil ts.length le_rfl
    rw [List.append_nil] at hread
    simp only [parseTokens, hread, bind, Except.bind]
    rfl

theorem parse_eq_ok_iff {s : String} {t : SourceType} :
    parse s = .ok t ↔ ∃ ts, tokens s = .ok ts ∧ Denotes (ts.map Token.lexeme) t := by
  simp only [parse, bind_eq_ok_iff, parseTokens_eq_ok_iff]

/-- No sequence of lexemes denotes two types, since the parser returns one. -/
theorem Denotes.unique {ls : List Lexeme} {t t' : SourceType} (h : Denotes ls t)
    (h' : Denotes ls t') : t = t' := by
  have hplaced : (ls.map fun l => (⟨l.kind, l.text, 0⟩ : Token)).map Token.lexeme = ls := by
    simp [Function.comp_def, Token.lexeme]
  rw [← hplaced, ← parseTokens_eq_ok_iff] at h h'
  exact Except.ok.inj (h.symm.trans h')

end TypeBridge.TypeText
