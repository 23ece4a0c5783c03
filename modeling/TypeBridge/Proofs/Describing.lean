import TypeBridge.Proofs.Scanning

/-!
Descriptions of types, read back. A description puts its parts behind each other without a separator,
except behind the word for a channel; no lexeme goes on over the brackets and stars in between, so the
lexemes of a description are those of its parts. They denote the described type by the grammar, and
therefore the parser returns it.
-/

namespace TypeBridge

namespace SourceType

/-- The types whose description can be read: basic types that have a spelling, named types without
arguments whose qualified name is one word, and what is made of them. -/
inductive Readable : SourceType → Prop
  | basic {spelling kind} (h : BasicKind.ofSpelling? spelling = some kind) : Readable (.basic kind)
  | pointer {elem} (h : Readable elem) : Readable (.pointer elem)
  | slice {elem} (h : Readable elem) : Readable (.slice elem)
  | array {elem} (length : UInt64) (h : Readable elem) : Readable (.array length elem)
  | map {key value} (hkey : Readable key) (hvalue : Readable value) : Readable (.map key value)
  | chan {elem} (h : Readable elem) : Readable (.chan elem)
  | named {package : Option String} {name : String}
      (hword : TypeText.tokens (qualifiedName package name) =
        .ok [⟨.name, qualifiedName package name, 0⟩])
      (hbasic : BasicKind.ofSpelling? (qualifiedName package name) = none)
      (hpackage : package ≠ some "") (hname : name ≠ "") (hdot : '.' ∉ name.toList)
      (hslash : package ≠ none → '/' ∉ name.toList) :
      Readable (.named ⟨package, name, [], none⟩)

end SourceType

namespace TypeText

/-! ### Lexemes of a text in parts -/

def marks : List Char := ['*', '[', ']', '\x7b', '\x7d', ',']

theorem mem_marks {c : Char} {kind : TokenKind} (h : markKind? c = some kind) : c ∈ marks := by
  by_contra hc
  simp only [marks, List.mem_cons, List.not_mem_nil, or_false, not_or] at hc
  simp [markKind?, hc] at h

theorem Start.of?_of_markKind? {c : Char} {kind : TokenKind} (h : markKind? c = some kind) :
    Start.of? c = some (.mark kind) := by
  have hall : marks.all (fun d => Start.of? d = (markKind? d).map .mark) = true := by decide
  have hc : Start.of? c = (markKind? c).map .mark := by
    simpa using List.all_eq_true.mp hall c (mem_marks h)
  rw [hc, h]
  rfl

/-- No lexeme goes on over a mark. -/
theorem Start.takeWhile_mark {start : Start} (hstart : start ≠ .space) {c : Char} {kind : TokenKind}
    (h : markKind? c = some kind) (rest : List Char) : (c :: rest).takeWhile start.continues = [] := by
  have hall : marks.all (fun d => !d.isDigit && !isNameChar d) = true := by decide
  obtain ⟨hdigit, hletter⟩ : c.isDigit = false ∧ isNameChar c = false := by
    simpa using List.all_eq_true.mp hall c (mem_marks h)
  refine List.takeWhile_cons_of_neg (Bool.not_eq_true _ ▸ ?_)
  cases start with
  | space => exact absurd rfl hstart
  | mark kind => rfl
  | digit => exact hdigit
  | letter => exact hletter

/-- A text may be cut in front of a mark. -/
theorem cut_before_mark {c : Char} {kind : TokenKind} (h : markKind? c = some kind)
    (front rest : List Char) (offset : Nat) : Cut offset front (c :: rest) :=
  cut_induction (P := fun _ _ => True) (fun _ _ _ _ _ => trivial)
    (fun _ _ _ _ _ _ _ _ => trivial)
    (fun _ _ _ _ _ hne _ _ => Start.takeWhile_mark hne h rest) trivial

/-- The characters have some lexemes, wherever they stand. -/
def Scans (cs : List Char) (ls : List Lexeme) : Prop :=
  ∀ offset, ∃ ts, scan offset cs = .ok ts ∧ ts.map Token.lexeme = ls

namespace Scans

variable {front back : List Char} {ls ls' : List Lexeme}

theorem of_tokens {s : String} {ts : List Token} (h : tokens s = .ok ts) :
    Scans s.toList (ts.map Token.lexeme) :=
  fun offset => exists_scan_at h offset

theorem append (hfront : Scans front ls) (hback : Scans back ls')
    (hcut : ∀ offset, Cut offset front back) : Scans (front ++ back) (ls ++ ls') := by
  intro offset
  obtain ⟨us, hus, rfl⟩ := hfront offset
  obtain ⟨vs, hvs, rfl⟩ := hback (offset + Text.byteLength front)
  refine ⟨us ++ vs, ?_, List.map_append⟩
  rw [hcut offset, hus]
  exact map_eq_ok_iff.mpr ⟨vs, hvs, rfl⟩

theorem space {c : Char} (h : isSpace c = true) (hback : Scans back ls) : Scans (c :: back) ls := by
  intro offset
  rw [scan_space h]
  exact hback _

theorem append_space {c : Char} (h : isSpace c = true) (hfront : Scans front ls)
    (hback : Scans back ls') : Scans (front ++ c :: back) (ls ++ ls') :=
  hfront.append (hback.space h) fun offset => cut_before_space h front back offset

theorem mark {c : Char} {kind : TokenKind} (h : markKind? c = some kind) (hback : Scans back ls) :
    Scans (c :: back) (⟨kind, String.ofList [c]⟩ :: ls) := by
  intro offset
  have htake : back.takeWhile (Start.mark kind).continues = [] := by
    cases back <;> simp [Start.continues]
  have hdrop : back.dropWhile (Start.mark kind).continues = back := by
    cases back <;> simp [Start.continues]
  rw [scan_lexeme (Start.of?_of_markKind? h) rfl, htake, hdrop]
  obtain ⟨ts, hts, rfl⟩ := hback (offset + Text.byteLength [c])
  exact ⟨_, map_eq_ok_iff.mpr ⟨ts, hts, rfl⟩, rfl⟩

theorem append_mark {c : Char} {kind : TokenKind} (h : markKind? c = some kind)
    (hfront : Scans front ls) (hback : Scans back ls') :
    Scans (front ++ c :: back) (ls ++ ⟨kind, String.ofList [c]⟩ :: ls') :=
  hfront.append (hback.mark h) fun offset => cut_before_mark h front back offset

theorem digits {cs : List Char} (hne : cs ≠ []) (h : ∀ c ∈ cs, c.isDigit = true) :
    Scans cs [⟨.int, String.ofList cs⟩] := by
  obtain ⟨c, rest, rfl⟩ := List.exists_cons_of_ne_nil hne
  obtain ⟨hfirst, hrest⟩ := List.forall_mem_cons.mp h
  have hstart : Start.of? c = some .digit := by
    have hspace : isSpace c = false := by
      rw [Bool.eq_false_iff]
      intro hspace
      simp only [isSpace, Bool.or_eq_true, beq_iff_eq] at hspace
      rcases hspace with ((rfl | rfl) | rfl) | rfl <;> cases hfirst
    simp [Start.of?, hspace, hfirst]
  have htake : rest.takeWhile Start.digit.continues = rest := List.takeWhile_eq_self_iff.mpr hrest
  have hdrop : rest.dropWhile Start.digit.continues = [] := List.dropWhile_eq_nil_iff.mpr hrest
  intro offset
  rw [scan_lexeme hstart rfl, htake, hdrop, scan]
  exact ⟨_, rfl, rfl⟩

end Scans

/-! ### Descriptions -/

theorem label_of_isSpelled {kind : BasicKind} (h : kind.isSpelled = true) :
    BasicKind.ofSpelling? kind.label = some kind ∧
      tokens kind.label = .ok [⟨.name, kind.label, 0⟩] := by
  cases kind <;> first | (cases h; done) | exact ⟨by decide, by decide +kernel⟩

theorem isSpelled_of_ofSpelling? {spelling : String} {kind : BasicKind}
    (h : BasicKind.ofSpelling? spelling = some kind) : kind.isSpelled = true := by
  have hfound := List.find?_some (p := fun k : BasicKind => k.isSpelled && k.name == spelling) h
  exact (Bool.and_eq_true_iff.mp hfound).1

/-- The last dot of a qualified name parts the package from the name. -/
theorem names_qualifiedName {package : Option String} {name : String} (hpackage : package ≠ some "")
    (hname : name ≠ "") (hdot : '.' ∉ name.toList) (hslash : package ≠ none → '/' ∉ name.toList) :
    Names (qualifiedName package name) package name := by
  cases package with
  | none => exact ⟨hdot, rfl⟩
  | some path => exact ⟨rfl, hdot, fun h => hpackage (h ▸ rfl), hname, hslash nofun⟩

/-- The lexemes of a description denote the described type. -/
theorem exists_scans_describe {t : SourceType} (h : t.Readable) :
    ∃ ls, Denotes ls t ∧ Scans t.describe.toList ls := by
  induction h with
  | basic h =>
      obtain ⟨hspelling, htokens⟩ := label_of_isSpelled (isSpelled_of_ofSpelling? h)
      refine ⟨_, .basic hspelling, ?_⟩
      rw [SourceType.describe]
      exact .of_tokens htokens
  | @pointer elem _ ih =>
      obtain ⟨ls, helem, hscans⟩ := ih
      have htext : (SourceType.pointer elem).describe.toList = '*' :: elem.describe.toList := by
        simp [SourceType.describe]
      exact ⟨_, .pointer helem, htext ▸ hscans.mark rfl⟩
  | @slice elem _ ih =>
      obtain ⟨ls, helem, hscans⟩ := ih
      have htext : (SourceType.slice elem).describe.toList = '[' :: ']' :: elem.describe.toList := by
        simp [SourceType.describe]
      exact ⟨_, .slice helem, htext ▸ (hscans.mark rfl).mark rfl⟩
  | @array elem length _ ih =>
      obtain ⟨ls, helem, hscans⟩ := ih
      have htext : (SourceType.array length elem).describe.toList =
          '[' :: (Nat.toDigits 10 length.toNat ++ ']' :: elem.describe.toList) := by
        simp [SourceType.describe, Text.digitString]
      have hdigits : Scans (Nat.toDigits 10 length.toNat) _ := .digits Nat.toDigits_ne_nil
        fun c hc => Nat.isDigit_of_mem_toDigits (by decide) (by decide) hc
      have hvalue : Text.digitsValue (String.ofList (Nat.toDigits 10 length.toNat)).toList =
          length.toNat := by
        rw [String.toList_ofList]
        exact Nat.ofDigitChars_ten_toDigits
      exact ⟨_, .array hvalue helem, htext ▸ (hdigits.append_mark rfl hscans).mark rfl⟩
  | @map key value _ _ ihkey ihvalue =>
      obtain ⟨ks, hkey, hkeys⟩ := ihkey
      obtain ⟨vs, hvalue, hvalues⟩ := ihvalue
      have htext : (SourceType.map key value).describe.toList =
          "map".toList ++ '[' :: (key.describe.toList ++ ']' :: value.describe.toList) := by
        simp [SourceType.describe]
      have hword : tokens "map" = .ok [⟨.kwMap, "map", 0⟩] := by decide +kernel
      exact ⟨_, .map hkey hvalue, htext ▸
        (Scans.of_tokens hword).append_mark rfl (hkeys.append_mark rfl hvalues)⟩
  | @chan elem _ ih =>
      obtain ⟨ls, helem, hscans⟩ := ih
      have htext : (SourceType.chan elem).describe.toList =
          "chan".toList ++ ' ' :: elem.describe.toList := by
        simp [SourceType.describe]
      have hword : tokens "chan" = .ok [⟨.kwChan, "chan", 0⟩] := by decide +kernel
      exact ⟨_, .chan helem, htext ▸ (Scans.of_tokens hword).append_space rfl hscans⟩
  | named hword hbasic hpackage hname hdot hslash =>
      refine ⟨_, .name hbasic (names_qualifiedName hpackage hname hdot hslash), ?_⟩
      rw [SourceType.describe]
      exact .of_tokens hword

end TypeText

namespace SourceType

/-- A type is read back from its description. -/
theorem parse_describe {t : SourceType} (h : t.Readable) : TypeText.parse t.describe = .ok t := by
  obtain ⟨ls, ht, hscans⟩ := TypeText.exists_scans_describe h
  obtain ⟨ts, hts, rfl⟩ := hscans 0
  exact TypeText.parse_eq_ok_iff.mpr ⟨ts, hts, ht⟩

/-- Channels of pointers to a type with a dotted path, in the longest arrays there are, by key. -/
def feeds : SourceType :=
  .map (.named ⟨none, "Key", [], none⟩) (.slice (.array 18446744073709551615
    (.chan (.pointer (.named ⟨some "gopkg.in/feed.v3", "Item", [], none⟩)))))

theorem parse_describe_feeds :
    feeds.describe = "map[Key][][18446744073709551615]chan *gopkg.in/feed.v3.Item" ∧
      TypeText.parse feeds.describe = .ok feeds := by
  have hitem : Readable (.named ⟨some "gopkg.in/feed.v3", "Item", [], none⟩) :=
    .named (by decide +kernel) (by decide) (by decide) (by decide) (by decide) fun _ => by decide
  have hkey : Readable (.named ⟨none, "Key", [], none⟩) :=
    .named (by decide +kernel) (by decide) nofun (by decide) (by decide) fun h => absurd rfl h
  exact ⟨by decide +kernel, parse_describe (.map hkey (.slice (.array _ (.chan (.pointer hitem)))))⟩

end SourceType

end TypeBridge
