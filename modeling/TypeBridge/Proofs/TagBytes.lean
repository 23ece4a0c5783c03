import TypeBridge.Proofs.TagGrammar

/-!
Struct tags read by their bytes. The scanner holds a position in the bytes of a text, looks at one
byte at a time, and takes parts of the text between two positions. It faults when it looks at a byte
that is not there, or takes a part whose ends are not between two characters. No text makes it fault:
every position that it takes a part at is the end of some characters of the text, and from there it
reads what reading by characters reads.
-/

namespace TypeBridge

namespace Tag

open Text (byteLength byteLength_append)

/-! ### The scanner -/

/-- The bytes of a text. -/
def bytes (cs : List Char) : List UInt8 := cs.flatMap String.utf8EncodeChar

/-- The characters from a position on, unless it lies outside of the text or within a character. -/
def dropBytes? : List Char → Nat → Option (List Char)
  | cs, 0 => some cs
  | [], _ + 1 => none
  | c :: rest, n + 1 => if c.utf8Size ≤ n + 1 then dropBytes? rest (n + 1 - c.utf8Size) else none

/-- The characters up to a position, unless it lies outside of the text or within a character. -/
def takeBytes? : List Char → Nat → Option (List Char)
  | _, 0 => some []
  | [], _ + 1 => none
  | c :: rest, n + 1 =>
      if c.utf8Size ≤ n + 1 then (takeBytes? rest (n + 1 - c.utf8Size)).map (c :: ·) else none

/-- The part of a text between two positions. -/
def slice? (text : List Char) (start stop : Nat) : Option (List Char) :=
  if start ≤ stop then dropBytes? text start >>= (takeBytes? · (stop - start)) else none

def isKeyByte (b : UInt8) : Bool := 0x20 < b && b != 0x3A && b != 0x22 && b != 0x7F

/-- Moves over the bytes of a class. -/
def skipWhile (p : UInt8 → Bool) (bs : List UInt8) (pos : Nat) : Option Nat :=
  if pos < bs.length then do
    let b ← bs[pos]?
    if p b then skipWhile p bs (pos + 1) else some pos
  else some pos
termination_by bs.length - pos

/-- Moves to the quote that ends a body. An escape takes two bytes, whatever comes after it. -/
def quoteEnd (bs : List UInt8) (pos : Nat) : Option Nat :=
  if pos < bs.length then do
    let b ← bs[pos]?
    if b = 0x22 then some pos
    else if b = 0x5C then quoteEnd bs (pos + 2)
    else quoteEnd bs (pos + 1)
  else some pos
termination_by bs.length - pos

/-- Decodes the escapes of a body. -/
def unquote : List Char → Option (List Char)
  | [] => some []
  | '\\' :: c :: rest => do
      let plain ← unescape? c
      return plain :: (← unquote rest)
  | c :: rest => if c = '\\' then none else (unquote rest).map (c :: ·)

/-- Reads a body that starts at a position, and says where the next entry may start. -/
def bodyAt (text : List Char) (start : Nat) : Option (Option (List Char × Nat)) := do
  let close ← quoteEnd (bytes text) start
  if (bytes text).length ≤ close then return none
  else
    let raw ← slice? text start close
    return (unquote raw).map fun body => (body, close + 1)

/-- Reads what follows the key between two positions. -/
def pairAt (text : List Char) (start stop : Nat) : Option (Except TagError (Tag × Nat)) :=
  if (bytes text).length ≤ stop + 1 then some (.error (.pair stop))
  else do
    let colon ← (bytes text)[stop]?
    if colon ≠ 0x3A then return .error (.pair stop)
    else
      let quote ← (bytes text)[stop + 1]?
      if quote ≠ 0x22 then return .error (.value (stop + 1))
      else
        let key ← slice? text start stop
        match ← bodyAt text (stop + 2) with
        | none => return .error (.value (stop + 1))
        | some (body, next) => return .ok (ofBody key body, next)

/-- Reads the entry that starts at a position, and says where the next one may start. -/
def entryAt (text : List Char) (start : Nat) : Option (Except TagError (Tag × Nat)) := do
  let stop ← skipWhile isKeyByte (bytes text) start
  if stop = start then return .error (.key start) else pairAt text start stop

theorem skipWhile_eq (p : UInt8 → Bool) (bs : List UInt8) (pos : Nat) :
    skipWhile p bs pos = some (pos + ((bs.drop pos).takeWhile p).length) := by
  fun_induction skipWhile p bs pos with
  | case1 pos hpos ih =>
      rw [List.drop_eq_getElem_cons hpos, List.getElem?_eq_getElem hpos, Option.bind_eq_bind,
        Option.bind_some]
      split
      · rename_i hp
        rw [ih, List.takeWhile_cons_of_pos hp, List.length_cons]
        congr 1
        omega
      · rename_i hp
        rw [List.takeWhile_cons_of_neg hp]
        rfl
  | case2 pos hpos =>
      rw [List.drop_eq_nil_of_le (by omega)]
      rfl

theorem le_of_quoteEnd {bs : List UInt8} {pos close : Nat} (h : quoteEnd bs pos = some close) :
    pos ≤ close := by
  fun_induction quoteEnd bs pos with
  | case1 pos hpos ih₁ ih₂ =>
      rw [Option.bind_eq_bind, Option.bind_eq_some_iff] at h
      obtain ⟨b, hb, h⟩ := h
      split at h
      · cases h
        exact Nat.le_refl _
      · split at h
        · have := ih₁ h
          omega
        · have := ih₂ h
          omega
  | case2 pos hpos =>
      cases h
      exact Nat.le_refl _

theorem le_of_skipWhile {p : UInt8 → Bool} {bs : List UInt8} {pos stop : Nat}
    (h : skipWhile p bs pos = some stop) : pos ≤ stop := by
  rw [skipWhile_eq, Option.some.injEq] at h
  omega

theorem lt_of_bodyAt {text : List Char} {start next : Nat} {body : List Char}
    (h : bodyAt text start = some (some (body, next))) :
    start < next ∧ next ≤ (bytes text).length := by
  simp only [bodyAt, Option.bind_eq_bind, Option.bind_eq_some_iff] at h
  obtain ⟨close, hclose, h⟩ := h
  split at h
  · cases h
  · obtain ⟨raw, -, h⟩ := Option.bind_eq_some_iff.mp h
    obtain ⟨body, -, hnext⟩ := Option.map_eq_some_iff.mp (Option.some.inj h)
    cases hnext
    have := le_of_quoteEnd hclose
    omega

theorem lt_of_pairAt {text : List Char} {start stop next : Nat} {tag : Tag}
    (h : pairAt text start stop = some (.ok (tag, next))) :
    stop < next ∧ next ≤ (bytes text).length := by
  rw [pairAt] at h
  split at h
  · cases h
  obtain ⟨colon, -, h⟩ := Option.bind_eq_some_iff.mp h
  split at h
  · cases h
  obtain ⟨quote, -, h⟩ := Option.bind_eq_some_iff.mp h
  split at h
  · cases h
  obtain ⟨key, -, h⟩ := Option.bind_eq_some_iff.mp h
  obtain ⟨_ | ⟨body, after⟩, hbody, h⟩ := Option.bind_eq_some_iff.mp h
  · cases h
  · cases h
    have := lt_of_bodyAt hbody
    omega

/-- The next entry starts further on in the text. -/
theorem lt_of_entryAt {text : List Char} {start next : Nat} {tag : Tag}
    (h : entryAt text start = some (.ok (tag, next))) :
    start < next ∧ next ≤ (bytes text).length := by
  obtain ⟨stop, hstop, h⟩ := Option.bind_eq_some_iff.mp h
  split at h
  · cases h
  · have := le_of_skipWhile hstop
    have := lt_of_pairAt h
    omega

/-- Reads the entries from a position on. -/
def entriesFrom (text : List Char) (pos : Nat) : Option (Except TagError (List Tag)) :=
  match _hstart : skipWhile (· == 0x20) (bytes text) pos with
  | none => none
  | some start =>
      if start = (bytes text).length then some (.ok [])
      else match _hentry : entryAt text start with
        | none => none
        | some (.error e) => some (.error e)
        | some (.ok (tag, next)) => (entriesFrom text next).map (Except.map (tag :: ·))
termination_by (bytes text).length - pos
decreasing_by
  have := le_of_skipWhile _hstart
  have := lt_of_entryAt _hentry
  omega

/-! ### Bytes of characters -/

theorem length_bytes (cs : List Char) : (bytes cs).length = byteLength cs := by
  induction cs with
  | nil => rfl
  | cons c rest ih => rw [bytes, List.flatMap_cons, List.length_append, String.length_utf8EncodeChar,
      ← bytes, ih, byteLength]

theorem bytes_append (cs cs' : List Char) : bytes (cs ++ cs') = bytes cs ++ bytes cs' :=
  List.flatMap_append

theorem bytes_cons (c : Char) (cs : List Char) :
    bytes (c :: cs) = String.utf8EncodeChar c ++ bytes cs := List.flatMap_cons

theorem toNat_ofNat_of_lt {n : Nat} (h : n < 0x100) : (UInt8.ofNat n).toNat = n := by
  rw [UInt8.toNat_ofNat', Nat.mod_eq_of_lt h]

/-- A byte that a character has in common with no other kind of character: the character itself when
it takes one byte, and a large byte when it takes several. -/
def IsByteOf (b : UInt8) (c : Char) : Prop :=
  b.toNat = c.toNat ∧ c.toNat < 0x80 ∨ 0x80 ≤ b.toNat ∧ 0x80 ≤ c.toNat

theorem isByteOf_of_mem {b : UInt8} {c : Char} (h : b ∈ String.utf8EncodeChar c) : IsByteOf b c := by
  have hvalue : c.val.toNat = c.toNat := rfl
  simp only [String.utf8EncodeChar, hvalue] at h
  split at h
  · obtain rfl := List.mem_singleton.mp h
    left
    rw [toNat_ofNat_of_lt (by omega)]
    omega
  · right
    refine ⟨?_, by omega⟩
    split at h
    · simp only [List.mem_cons, List.not_mem_nil, or_false] at h
      rcases h with rfl | rfl <;> rw [toNat_ofNat_of_lt (by omega)] <;> omega
    · split at h
      · simp only [List.mem_cons, List.not_mem_nil, or_false] at h
        rcases h with rfl | rfl | rfl <;> rw [toNat_ofNat_of_lt (by omega)] <;> omega
      · simp only [List.mem_cons, List.not_mem_nil, or_false] at h
        rcases h with rfl | rfl | rfl | rfl <;> rw [toNat_ofNat_of_lt (by omega)] <;> omega

/-- A byte of a one-byte character tells it from all others. -/
theorem IsByteOf.eq_iff {b : UInt8} {c : Char} (h : IsByteOf b c) {d : Char} (hd : d.toNat < 0x80) :
    b.toNat = d.toNat ↔ c = d := by
  rw [← Char.toNat_inj]
  rcases h with h | h <;> omega

/-- A character of one byte. -/
theorem utf8EncodeChar_of_lt {c : Char} (h : c.toNat < 0x80) :
    String.utf8EncodeChar c = [UInt8.ofNat c.toNat] := by
  have hvalue : c.val.toNat = c.toNat := rfl
  simp only [String.utf8EncodeChar, hvalue]
  rw [if_pos (by omega)]

theorem isKeyByte_eq {b : UInt8} {c : Char} (h : b ∈ String.utf8EncodeChar c) :
    isKeyByte b = isKeyChar c := by
  have hb := isByteOf_of_mem h
  have hcolon := hb.eq_iff (d := ':') (by decide)
  have hquote := hb.eq_iff (d := '"') (by decide)
  have hdelete := hb.eq_iff (d := '\x7F') (by decide)
  have hspace : 0x20 < b.toNat ↔ ' ' < c := by
    rw [Char.lt_def, UInt32.lt_iff_toNat_lt]
    show _ ↔ 0x20 < c.toNat
    rcases hb with hb | hb <;> omega
  rw [Bool.eq_iff_iff, isKeyChar_iff, ← hspace, ne_eq, ne_eq, ne_eq, ← hcolon, ← hquote, ← hdelete]
  simp only [isKeyByte, Bool.and_eq_true, decide_eq_true_eq, bne_iff_ne, ne_eq, and_assoc,
    UInt8.lt_iff_toNat_lt, ← UInt8.toNat_inj]
  rfl

theorem isSpaceByte_eq {b : UInt8} {c : Char} (h : b ∈ String.utf8EncodeChar c) :
    (b == 0x20) = (c == ' ') := by
  rw [Bool.eq_iff_iff, beq_iff_eq, beq_iff_eq, ← (isByteOf_of_mem h).eq_iff (d := ' ') (by decide),
    ← UInt8.toNat_inj]
  rfl

/-- Only the first byte of a character may be small. -/
theorem le_of_mem_tail {c : Char} {b : UInt8} {more : List UInt8}
    (h : String.utf8EncodeChar c = b :: more) {b' : UInt8} (hb : b' ∈ more) : 0x80 ≤ b'.toNat := by
  have hmem : b' ∈ String.utf8EncodeChar c := h ▸ List.mem_cons_of_mem b hb
  rcases isByteOf_of_mem hmem with ⟨-, hsmall⟩ | ⟨hlarge, -⟩
  · rw [utf8EncodeChar_of_lt hsmall] at h
    obtain ⟨-, rfl⟩ := List.cons.inj h
    cases hb
  · exact hlarge

theorem utf8EncodeChar_ne_nil (c : Char) : String.utf8EncodeChar c ≠ [] := by
  rw [ne_eq, ← List.length_eq_zero_iff, String.length_utf8EncodeChar]
  exact c.utf8Size_pos.ne'

/-- A class of characters that their bytes show. -/
theorem takeWhile_bytes {p : UInt8 → Bool} {q : Char → Bool}
    (h : ∀ {b c}, b ∈ String.utf8EncodeChar c → p b = q c) (cs : List Char) :
    (bytes cs).takeWhile p = bytes (cs.takeWhile q) := by
  induction cs with
  | nil => rfl
  | cons c rest ih =>
      rw [bytes_cons]
      by_cases hc : q c = true
      · rw [List.takeWhile_append_of_pos fun b hb => (h hb).trans hc, ih, List.takeWhile_cons_of_pos hc,
          bytes_cons]
      · obtain ⟨b, more, hencode⟩ := List.exists_cons_of_ne_nil (utf8EncodeChar_ne_nil c)
        have hb : ¬ p b = true := h (b := b) (c := c) (by simp [hencode]) ▸ hc
        rw [List.takeWhile_cons_of_neg hc, hencode, List.cons_append, List.takeWhile_cons_of_neg hb]
        rfl

/-! ### Positions between characters -/

theorem dropBytes?_cons {c : Char} {n : Nat} (h : c.utf8Size ≤ n) (rest : List Char) :
    dropBytes? (c :: rest) n = dropBytes? rest (n - c.utf8Size) := by
  cases n with
  | zero => exact absurd h (Nat.not_le_of_lt c.utf8Size_pos)
  | succ n => rw [dropBytes?, if_pos h]

theorem takeBytes?_cons {c : Char} {n : Nat} (h : c.utf8Size ≤ n) (rest : List Char) :
    takeBytes? (c :: rest) n = (takeBytes? rest (n - c.utf8Size)).map (c :: ·) := by
  cases n with
  | zero => exact absurd h (Nat.not_le_of_lt c.utf8Size_pos)
  | succ n => rw [takeBytes?, if_pos h]

theorem dropBytes?_byteLength (front rest : List Char) :
    dropBytes? (front ++ rest) (byteLength front) = some rest := by
  induction front with
  | nil => exact dropBytes?.eq_1 rest
  | cons c front ih =>
      rw [List.cons_append, byteLength, dropBytes?_cons (Nat.le_add_right _ _),
        Nat.add_sub_cancel_left, ih]

theorem takeBytes?_byteLength (front rest : List Char) :
    takeBytes? (front ++ rest) (byteLength front) = some front := by
  induction front with
  | nil => exact takeBytes?.eq_1 rest
  | cons c front ih =>
      rw [List.cons_append, byteLength, takeBytes?_cons (Nat.le_add_right _ _),
        Nat.add_sub_cancel_left, ih, Option.map_some]

/-- The characters from a position on. -/
structure At (text : List Char) (pos : Nat) (rest : List Char) : Prop where
  exists_front : ∃ front, text = front ++ rest ∧ pos = byteLength front

namespace At

variable {text front rest : List Char} {pos : Nat}

theorem start (text : List Char) : At text 0 text := ⟨[], rfl, rfl⟩

theorem size_eq (h : At text pos rest) : pos + byteLength rest = byteLength text := by
  obtain ⟨front, rfl, rfl⟩ := h
  exact (byteLength_append front rest).symm

theorem append (front : List Char) (h : At text pos (front ++ rest)) :
    At text (pos + byteLength front) rest := by
  obtain ⟨before, rfl, rfl⟩ := h
  exact ⟨before ++ front, (List.append_assoc ..).symm, (byteLength_append ..).symm⟩

theorem dropWhile (q : Char → Bool) (h : At text pos rest) :
    At text (pos + byteLength (rest.takeWhile q)) (rest.dropWhile q) :=
  append _ (List.takeWhile_append_dropWhile.symm ▸ h)

theorem drop_bytes (h : At text pos rest) : (bytes text).drop pos = bytes rest := by
  obtain ⟨front, rfl, rfl⟩ := h
  rw [bytes_append, ← length_bytes, List.drop_left]

theorem getElem? (h : At text pos rest) (i : Nat) : (bytes text)[pos + i]? = (bytes rest)[i]? := by
  rw [← h.drop_bytes, List.getElem?_drop]

/-- What lies between two positions between characters can be taken. -/
theorem slice?_eq (h : At text pos (front ++ rest)) :
    slice? text pos (pos + byteLength front) = some front := by
  have hdrop : dropBytes? text pos = some (front ++ rest) := by
    obtain ⟨before, rfl, rfl⟩ := h
    exact dropBytes?_byteLength before _
  rw [slice?, if_pos (Nat.le_add_right _ _), hdrop, Nat.add_sub_cancel_left]
  exact takeBytes?_byteLength front rest

theorem slice?_takeWhile (q : Char → Bool) (h : At text pos rest) :
    slice? text pos (pos + byteLength (rest.takeWhile q)) = some (rest.takeWhile q) := by
  have hparts : At text pos (rest.takeWhile q ++ rest.dropWhile q) :=
    List.takeWhile_append_dropWhile.symm ▸ h
  exact hparts.slice?_eq

theorem skipWhile_eq {p : UInt8 → Bool} {q : Char → Bool} (h : At text pos rest)
    (hpq : ∀ {b c}, b ∈ String.utf8EncodeChar c → p b = q c) :
    skipWhile p (bytes text) pos = some (pos + byteLength (rest.takeWhile q)) := by
  rw [Tag.skipWhile_eq, h.drop_bytes, takeWhile_bytes hpq, length_bytes]

end At

/-! ### Bodies -/

section QuoteEnd

variable {bs : List UInt8} {pos : Nat}

theorem quoteEnd_nil (h : bs.drop pos = []) : quoteEnd bs pos = some pos := by
  rw [quoteEnd, if_neg (by simpa using h)]

theorem quoteEnd_cons {b : UInt8} {more : List UInt8} (h : bs.drop pos = b :: more) :
    quoteEnd bs pos =
      if b = 0x22 then some pos
      else if b = 0x5C then quoteEnd bs (pos + 2) else quoteEnd bs (pos + 1) := by
  have hb : bs[pos]? = some b := by
    have hfirst := congrArg List.head? h
    rwa [List.head?_drop] at hfirst
  have hpos : pos < bs.length := (List.getElem?_eq_some_iff.mp hb).1
  rw [quoteEnd, if_pos hpos, hb]
  rfl

theorem quoteEnd_append {front more : List UInt8} (hfront : ∀ b ∈ front, b ≠ 0x22 ∧ b ≠ 0x5C)
    (h : bs.drop pos = front ++ more) : quoteEnd bs pos = quoteEnd bs (pos + front.length) := by
  induction front generalizing pos with
  | nil => rfl
  | cons b front ih =>
      obtain ⟨⟨hquote, hescape⟩, hlater⟩ := List.forall_mem_cons.mp hfront
      have hnext : bs.drop (pos + 1) = front ++ more := by
        rw [← List.drop_drop, h]
        rfl
      rw [quoteEnd_cons h, if_neg hquote, if_neg hescape, ih hlater hnext, List.length_cons]
      congr 1
      omega

end QuoteEnd

theorem At.quoteEnd_plain {text rest : List Char} {pos : Nat} {c : Char} (h : At text pos (c :: rest))
    (hquote : c ≠ '"') (hescape : c ≠ '\\') :
    quoteEnd (bytes text) pos = quoteEnd (bytes text) (pos + c.utf8Size) := by
  have hbytes : ∀ b ∈ String.utf8EncodeChar c, b ≠ 0x22 ∧ b ≠ 0x5C := by
    intro b hb
    have hbyte := isByteOf_of_mem hb
    have hneQuote := mt (hbyte.eq_iff (d := '"') (by decide)).mp hquote
    have hneEscape := mt (hbyte.eq_iff (d := '\\') (by decide)).mp hescape
    exact ⟨fun heq => hneQuote (congrArg UInt8.toNat heq),
      fun heq => hneEscape (congrArg UInt8.toNat heq)⟩
  rw [quoteEnd_append hbytes (h.drop_bytes.trans (bytes_cons c rest)), String.length_utf8EncodeChar]

/-- Two bytes further on the scanner may be within the escaped character, but not at a quote. -/
theorem At.quoteEnd_escape {text rest : List Char} {pos : Nat} {c : Char}
    (h : At text pos ('\\' :: c :: rest)) :
    quoteEnd (bytes text) pos = quoteEnd (bytes text) (pos + (1 + c.utf8Size)) := by
  obtain ⟨b, more, hencode⟩ := List.exists_cons_of_ne_nil (utf8EncodeChar_ne_nil c)
  have hsize : more.length + 1 = c.utf8Size := by
    rw [← String.length_utf8EncodeChar, hencode, List.length_cons]
  have hdrop : (bytes text).drop pos = 0x5C :: b :: (more ++ bytes rest) := by
    rw [h.drop_bytes, bytes_cons, bytes_cons, hencode]
    rfl
  have hlater : (bytes text).drop (pos + 2) = more ++ bytes rest := by
    rw [← List.drop_drop, hdrop]
    rfl
  have hmore : ∀ b' ∈ more, b' ≠ 0x22 ∧ b' ≠ 0x5C := by
    intro b' hb'
    have hlarge := le_of_mem_tail hencode hb'
    constructor <;> rintro rfl <;> exact absurd hlarge (by decide)
  rw [quoteEnd_cons hdrop, if_neg (by decide), if_pos rfl, quoteEnd_append hmore hlater]
  congr 1
  omega

theorem At.quoteEnd_quote {text rest : List Char} {pos : Nat} (h : At text pos ('"' :: rest)) :
    quoteEnd (bytes text) pos = some pos := by
  have hdrop : (bytes text).drop pos = 0x22 :: bytes rest := h.drop_bytes
  rw [quoteEnd_cons hdrop, if_pos rfl]

theorem At.quoteEnd_lone {text : List Char} {pos : Nat} (h : At text pos ['\\']) :
    quoteEnd (bytes text) pos = some (pos + 2) := by
  have hdrop : (bytes text).drop pos = [0x5C] := h.drop_bytes
  have hlater : (bytes text).drop (pos + 2) = [] := by
    rw [← List.drop_drop, hdrop]
    rfl
  rw [quoteEnd_cons hdrop, if_neg (by decide), if_pos rfl, quoteEnd_nil hlater]

theorem unquote_escape (c : Char) (raw : List Char) :
    unquote ('\\' :: c :: raw) = unescape? c >>= fun plain => (unquote raw).map (plain :: ·) := by
  rw [unquote]
  cases unescape? c <;> cases unquote raw <;> rfl

theorem unquote_plain {c : Char} (h : c ≠ '\\') (raw : List Char) :
    unquote (c :: raw) = (unquote raw).map (c :: ·) := by
  rw [unquote.eq_3 _ _ (fun _ _ hc _ => h hc), if_neg h]

/-- The quote that ends a body, and the body before it, are the ones that reading by characters finds.
The scanner goes past the end of the text when there is none. -/
theorem At.quoteEnd_readBody {text cs : List Char} {pos : Nat} (h : At text pos cs) :
    (∃ raw rest, cs = raw ++ '"' :: rest ∧ quoteEnd (bytes text) pos = some (pos + byteLength raw) ∧
      readBody cs = (unquote raw).map fun body => (body, rest)) ∨
    ∃ close, byteLength text ≤ close ∧ quoteEnd (bytes text) pos = some close ∧ readBody cs = none := by
  fun_induction readBody cs generalizing pos with
  | case1 => exact .inr ⟨pos, h.size_eq.ge, quoteEnd_nil h.drop_bytes, rfl⟩
  | case2 rest => exact .inl ⟨[], rest, rfl, h.quoteEnd_quote, rfl⟩
  | case3 c more ih =>
      -- after an escape both go on behind the escaped character
      have hnext : At text (pos + (1 + c.utf8Size)) more := h.append ['\\', c]
      rw [h.quoteEnd_escape]
      rcases ih hnext with ⟨raw, rest, rfl, hclose, hread⟩ | ⟨close, hpast, hclose, hread⟩
      · refine .inl ⟨'\\' :: c :: raw, rest, rfl, ?_, ?_⟩
        · rw [hclose]
          simp only [byteLength]
          congr 1
          have : '\\'.utf8Size = 1 := rfl
          omega
        · rw [unquote_escape, hread]
          cases unescape? c <;> cases unquote raw <;> rfl
      · refine .inr ⟨close, hpast, hclose, ?_⟩
        rw [hread]
        cases unescape? c <;> rfl
  | case4 rest _ hlone =>
      cases rest with
      | nil =>
          -- a backslash at the end of the text: the two bytes of its escape go beyond it
          have hsize : pos + 1 = byteLength text := h.size_eq
          exact .inr ⟨pos + 2, by omega, h.quoteEnd_lone, rfl⟩
      | cons c rest => exact (hlone c rest rfl rfl).elim
  | case5 c rest hquote _ hescape ih =>
      have hnext : At text (pos + c.utf8Size) rest := h.append [c]
      rw [h.quoteEnd_plain hquote hescape]
      rcases ih hnext with ⟨raw, rest, rfl, hclose, hread⟩ | ⟨close, hpast, hclose, hread⟩
      · refine .inl ⟨c :: raw, rest, rfl, ?_, ?_⟩
        · rw [hclose, byteLength, Nat.add_assoc]
        · rw [unquote_plain hescape, hread, Option.map_map, Option.map_map]
          rfl
      · exact .inr ⟨close, hpast, hclose, by rw [hread, Option.map_none]⟩

/-- A body is read from the bytes as it is read from the characters. -/
theorem At.bodyAt_eq {text cs : List Char} {pos : Nat} (h : At text pos cs) :
    bodyAt text pos =
      some ((readBody cs).map fun read => (read.1, byteLength text - byteLength read.2)) := by
  rcases h.quoteEnd_readBody with ⟨raw, rest, rfl, hclose, hread⟩ | ⟨close, hpast, hclose, hread⟩
  · have hsize : pos + byteLength raw + (1 + byteLength rest) = byteLength text := (h.append raw).size_eq
    rw [bodyAt, hclose, hread, length_bytes]
    simp only [Option.bind_eq_bind, Option.bind_some]
    rw [if_neg (by omega), h.slice?_eq, Option.map_map, Option.bind_some]
    have hnext : byteLength text - byteLength rest = pos + byteLength raw + 1 := by omega
    simp only [Function.comp_def, hnext]
    rfl
  · rw [bodyAt, hclose, hread, length_bytes]
    simp only [Option.bind_eq_bind, Option.bind_some]
    rw [if_pos hpast, Option.map_none]
    rfl

/-! ### Entries -/

theorem At.exists_byte {text rest : List Char} {pos : Nat} {c : Char} (h : At text pos (c :: rest)) :
    ∃ b, (bytes text)[pos]? = some b ∧ IsByteOf b c := by
  obtain ⟨b, more, hencode⟩ := List.exists_cons_of_ne_nil (utf8EncodeChar_ne_nil c)
  have hbyte := h.getElem? 0
  rw [bytes_cons, hencode] at hbyte
  exact ⟨b, hbyte, isByteOf_of_mem (hencode ▸ List.mem_cons_self)⟩

/-- Where no colon with something after it follows the key, the pair is at fault. -/
theorem At.pairAt_pair {text rest : List Char} {start stop : Nat} (h : At text stop rest)
    (hrest : ∀ c more, rest ≠ ':' :: c :: more) :
    pairAt text start stop = some (.error (.pair stop)) := by
  rw [pairAt, length_bytes]
  by_cases hend : byteLength text ≤ stop + 1
  · rw [if_pos hend]
  · have hsize := h.size_eq
    obtain ⟨c, more, rfl⟩ : ∃ c more, rest = c :: more := by
      refine List.exists_cons_of_ne_nil ?_
      rintro rfl
      rw [byteLength] at hsize
      omega
    have hc : c ≠ ':' := by
      rintro rfl
      cases more with
      | nil => exact hend hsize.ge
      | cons d more => exact hrest d more rfl
    obtain ⟨b, hb, hbyte⟩ := h.exists_byte
    have hcolon : b ≠ 0x3A := fun heq =>
      hc ((hbyte.eq_iff (d := ':') (by decide)).mp (congrArg UInt8.toNat heq))
    rw [if_neg hend, hb]
    exact if_pos hcolon

theorem At.pairAt_value {text more : List Char} {start stop : Nat} {c : Char}
    (h : At text stop (':' :: c :: more)) (hc : c ≠ '"') :
    pairAt text start stop = some (.error (.value (stop + 1))) := by
  have hcolon : (bytes text)[stop]? = some 0x3A := h.getElem? 0
  have hquote : At text (stop + 1) (c :: more) := h.append [':']
  obtain ⟨b, hb, hbyte⟩ := hquote.exists_byte
  have hne : b ≠ 0x22 := fun heq =>
    hc ((hbyte.eq_iff (d := '"') (by decide)).mp (congrArg UInt8.toNat heq))
  have hsize := hquote.size_eq
  have hpos := Text.byteLength_pos (List.cons_ne_nil c more)
  rw [pairAt, length_bytes, if_neg (by omega), hcolon, hb]
  exact if_pos hne

theorem At.pairAt_body {text key quoted : List Char} {start stop : Nat}
    (h : At text stop (':' :: '"' :: quoted)) (hkey : slice? text start stop = some key) :
    pairAt text start stop = some (match readBody quoted with
      | some (body, rest) => .ok (ofBody key body, byteLength text - byteLength rest)
      | none => .error (.value (stop + 1))) := by
  have hcolon : (bytes text)[stop]? = some 0x3A := h.getElem? 0
  have hquote : (bytes text)[stop + 1]? = some 0x22 := h.getElem? 1
  have hbody : At text (stop + 2) quoted := h.append [':', '"']
  have hsize := hbody.size_eq
  rw [pairAt, length_bytes, if_neg (by omega), hcolon, hquote, hkey, hbody.bodyAt_eq]
  cases readBody quoted <;> rfl

/-- An entry is read from the bytes as it is read from the characters. -/
theorem At.entryAt_eq {text cs : List Char} {pos : Nat} (h : At text pos cs) :
    entryAt text pos = some ((readEntry (byteLength text) cs).map fun read =>
      (read.1, byteLength text - byteLength read.2)) := by
  have hkey := h.slice?_takeWhile isKeyChar
  have hrest := h.dropWhile isKeyChar
  have hstart : byteLength text - byteLength cs = pos := by
    have := h.size_eq
    omega
  have hstop : byteLength text - byteLength (cs.dropWhile isKeyChar) =
      pos + byteLength (cs.takeWhile isKeyChar) := by
    have := hrest.size_eq
    omega
  rw [entryAt, h.skipWhile_eq isKeyByte_eq, readEntry]
  simp only [Option.bind_eq_bind, Option.bind_some, hstart, hstop]
  by_cases hnil : cs.takeWhile isKeyChar = []
  · rw [hnil, if_pos (show pos + byteLength [] = pos from rfl)]
    rfl
  · have hlong := Text.byteLength_pos hnil
    rw [if_neg (by omega), if_neg (by simpa using hnil)]
    split
    · rename_i quoted hdrop
      rw [hdrop] at hrest
      rw [hrest.pairAt_body hkey]
      cases readBody quoted <;> rfl
    · rename_i c more hquote hdrop
      rw [hdrop] at hrest
      rw [hrest.pairAt_value hquote]
      rfl
    · rename_i hquote hvalue
      rw [hrest.pairAt_pair hvalue]
      rfl

/-! ### Tags -/

theorem At.entriesFrom_nil {text cs : List Char} {pos : Nat} (h : At text pos cs)
    (hnil : cs.dropWhile (· == ' ') = []) : entriesFrom text pos = some (.ok []) := by
  have hsize := (h.dropWhile (· == ' ')).size_eq
  have hskip := h.skipWhile_eq isSpaceByte_eq
  rw [hnil, byteLength, Nat.add_zero] at hsize
  rw [hsize, ← length_bytes] at hskip
  rw [entriesFrom]
  split
  · simp_all
  · rename_i start hstart
    rw [hskip] at hstart
    cases hstart
    rw [if_pos rfl]

theorem At.entriesFrom_cons {text cs : List Char} {pos : Nat} (h : At text pos cs)
    (hcons : cs.dropWhile (· == ' ') ≠ []) : entriesFrom text pos =
      entryAt text (pos + byteLength (cs.takeWhile (· == ' '))) >>= fun
        | .error e => some (.error e)
        | .ok (tag, next) => (entriesFrom text next).map (Except.map (tag :: ·)) := by
  have hsize := (h.dropWhile (· == ' ')).size_eq
  have hmore := Text.byteLength_pos hcons
  have hskip := h.skipWhile_eq isSpaceByte_eq
  rw [entriesFrom]
  split
  · simp_all
  · rename_i start hstart
    rw [hskip] at hstart
    cases hstart
    rw [length_bytes, if_neg (by omega)]
    rcases entryAt text (pos + byteLength (cs.takeWhile (· == ' '))) with _ | _ | _ <;> rfl

/-- Tags are read from the bytes as they are read from the characters. -/
theorem At.entriesFrom_eq {text cs : List Char} {pos : Nat} (h : At text pos cs) :
    entriesFrom text pos = some (readEntries (byteLength text) cs) := by
  induction hlength : cs.length using Nat.strong_induction_on generalizing cs pos with
  | _ n ih =>
      subst hlength
      by_cases hdrop : cs.dropWhile (· == ' ') = []
      · rw [h.entriesFrom_nil hdrop, readEntries_nil hdrop]
      · have hentry := h.dropWhile (· == ' ')
        rw [h.entriesFrom_cons hdrop, readEntries_cons hdrop, hentry.entryAt_eq]
        cases hread : readEntry (byteLength text) (cs.dropWhile (· == ' ')) with
        | error e => rfl
        | ok read =>
            obtain ⟨tag, rest⟩ := read
            obtain ⟨-, entry, hsplit, -⟩ := readEntry_eq_ok_iff.mp hread
            have hnext := (hsplit ▸ hentry).append entry
            have hshorter : rest.length < cs.length :=
              lt_of_lt_of_le (readEntry_length hread) (List.dropWhile_sublist _).length_le
            have hpos : byteLength text - byteLength rest =
                pos + byteLength (cs.takeWhile (· == ' ')) + byteLength entry := by
              have := hnext.size_eq
              omega
            simp only [Except.map, Option.bind_eq_bind, Option.bind_some, hpos, ih _ hshorter hnext rfl]
            rfl

/-- The bytes of a text are those that encode it. -/
theorem bytes_toList (s : String) : bytes s.toList = s.toUTF8.data.toList := by
  have hencode : s.toUTF8 = (bytes s.toList).toByteArray := String.utf8Encode_toList.symm
  rw [hencode, List.data_toByteArray]

end Tag

namespace StructTags

/-- Parses a struct tag by its bytes. There is no result when the scanner faults. -/
def parseBytes (tag : String) : Option (Except TagError StructTags) :=
  (Tag.entriesFrom tag.toList 0).map (Except.map StructTags.mk)

theorem parseBytes_eq (tag : String) : parseBytes tag = some (parse tag) := by
  rw [parseBytes, (Tag.At.start tag.toList).entriesFrom_eq]
  rfl

/-- The parser accepts exactly the texts that a list of tags may be written as. So it undoes the usual
way to write tags, and any other. The scanner that goes through the bytes of the encoded text never
looks at a byte outside of it, never takes a part that ends within a character, and has the same
results. -/
theorem parse_iff_written :
    (∀ s tags, parse s = .ok ⟨tags⟩ ↔ (∀ tag ∈ tags, tag.CommaFree) ∧ Tag.Entries s.toList tags) ∧
    (∀ tags : List Tag, (∀ tag ∈ tags, tag.CommaFree) → (∀ tag ∈ tags, Tag.IsKey tag.key.toList) →
      parse (String.ofList (Tag.renderAll tags)) = .ok ⟨tags⟩) ∧
    ∀ s, Tag.bytes s.toList = s.toUTF8.data.toList ∧ parseBytes s = some (parse s) := by
  refine ⟨fun s tags => parse_eq_ok_iff, fun tags hfree hkeys => ?_,
    fun s => ⟨Tag.bytes_toList s, parseBytes_eq s⟩⟩
  refine parse_eq_ok_iff.mpr ⟨hfree, ?_⟩
  rw [String.toList_ofList]
  exact Tag.entries_renderAll hkeys

/-- A name with quotes and letters of two bytes, and an empty option. -/
def nameTag : Tag := ⟨"näme", "say \"ja\"", [""]⟩

theorem parse_iff_written_name :
    parse "  näme:\"say \\\"ja\\\",\" " = .ok ⟨[nameTag]⟩ ∧
    parse (String.ofList (Tag.renderAll [nameTag])) = .ok ⟨[nameTag]⟩ ∧
    parseBytes "a:\"\\ä\"" = some (parse "a:\"\\ä\"") := by
  obtain ⟨haccepts, hrender, hbytes⟩ := parse_iff_written
  have hfree : ∀ tag ∈ [nameTag], tag.CommaFree := by
    unfold Tag.CommaFree
    decide
  have hkeys : ∀ tag ∈ [nameTag], Tag.IsKey tag.key.toList := by
    have hvisible : ("näme".toList.all Tag.isKeyChar) = true := by decide
    exact List.forall_mem_singleton.mpr
      ⟨by decide, fun c hc => Tag.isKeyChar_iff.mp (List.all_eq_true.mp hvisible c hc)⟩
  refine ⟨(haccepts _ _).mpr ⟨hfree, ?_⟩, hrender _ hfree hkeys, (hbytes _).2⟩
  have hentry := Tag.entry_render (hkeys nameTag (List.mem_singleton_self _))
  exact @Tag.Entries.cons [' ', ' '] nameTag.render [' '] _ _ (by simp) hentry (.nil (by simp))

end StructTags

end TypeBridge
