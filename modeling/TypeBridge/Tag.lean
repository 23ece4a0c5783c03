import TypeBridge.Text.Basic

/-!
Struct tags: entries `key:"name,option,option"` with spaces around them. A tag that is not a
sequence of such entries is refused as a whole. Offsets in errors count bytes.
-/

namespace TypeBridge

/-- One entry of a struct tag. -/
structure Tag where
  key : String
  name : String
  options : List String
deriving DecidableEq, Inhabited

def Tag.hasOption (t : Tag) (option : String) : Bool := t.options.contains option

/-- Which part of an entry is wrong, and the offset of the trouble. -/
inductive TagError where
  | key (offset : Nat)
  | pair (offset : Nat)
  | value (offset : Nat)
deriving DecidableEq, Repr

def TagError.message : TagError → String
  | key offset => "bad syntax for struct tag key at offset " ++ Text.digitString offset
  | pair offset => "bad syntax for struct tag pair at offset " ++ Text.digitString offset
  | value offset => "bad syntax for struct tag value at offset " ++ Text.digitString offset

namespace Tag

/-- The characters of a key: anything visible to the tag, except the colon and the quote. -/
def isKeyChar (c : Char) : Bool := ' ' < c && c != ':' && c != '"' && c.toNat != 0x7F

/-- The character that an escape stands for. -/
def unescape? (c : Char) : Option Char :=
  if c = '\\' ∨ c = '"' ∨ c = '\x27' then some c
  else if c = 'n' then some '\n'
  else if c = 't' then some '\t'
  else if c = 'r' then some '\r'
  else none

/-- Reads a quoted value up to its closing quote and decodes its escapes. -/
def readBody : List Char → Option (List Char × List Char)
  | [] => none
  | '"' :: rest => some ([], rest)
  | '\\' :: c :: rest => do
      let plain ← unescape? c
      let (body, rest) ← readBody rest
      return (plain :: body, rest)
  | c :: rest =>
      if c = '\\' then none
      else (readBody rest).map fun read => (c :: read.1, read.2)

/-- The first piece of a value is the name and the others are options. -/
def ofBody (key body : List Char) : Tag :=
  match Text.splitChars ',' body with
  | [] => ⟨String.ofList key, "", []⟩
  | name :: options => ⟨String.ofList key, String.ofList name, options.map String.ofList⟩

/-- Reads one entry at the front of the text. `size` is the length of the whole tag, from which the
offset of any remainder follows. -/
def readEntry (size : Nat) (cs : List Char) : Except TagError (Tag × List Char) :=
  let key := cs.takeWhile isKeyChar
  let rest := cs.dropWhile isKeyChar
  let offset (remaining : List Char) : Nat := size - Text.byteLength remaining
  if key.isEmpty then .error (.key (offset cs))
  else match rest with
    | ':' :: '"' :: quotedBody =>
        match readBody quotedBody with
        | some (body, remaining) => .ok (ofBody key body, remaining)
        | none => .error (.value (offset rest + 1))
    | ':' :: _ :: _ => .error (.value (offset rest + 1))
    | _ => .error (.pair (offset rest))

theorem readBody_length {cs body rest : List Char} (h : readBody cs = some (body, rest)) :
    rest.length < cs.length := by
  fun_induction readBody cs generalizing body with
  | case1 => simp at h
  | case2 => simp_all
  | case3 c more ih =>
      simp only [bind, Option.bind_eq_some_iff] at h
      obtain ⟨plain, _, ⟨read, left⟩, hread, hrest⟩ := h
      simp only [pure, Option.some.injEq, Prod.mk.injEq] at hrest
      have := ih (hrest.2 ▸ hread)
      simp only [List.length_cons]
      omega
  | case4 => simp at h
  | case5 c more _ _ _ ih =>
      obtain ⟨⟨read, left⟩, hread, hrest⟩ := Option.map_eq_some_iff.mp h
      simp only [Prod.mk.injEq] at hrest
      have := ih (hrest.2 ▸ hread)
      simp only [List.length_cons]
      omega

theorem readEntry_length {size : Nat} {cs rest : List Char} {tag : Tag}
    (h : readEntry size cs = .ok (tag, rest)) : rest.length < cs.length := by
  have hdrop : (cs.dropWhile isKeyChar).length ≤ cs.length :=
    (List.dropWhile_sublist _).length_le
  simp only [readEntry] at h
  split at h
  · simp at h
  · split at h
    · rename_i hcs
      split at h
      · rename_i hbody
        have hlen := readBody_length hbody
        have hrest := congrArg List.length hcs
        simp only [List.length_cons] at hrest
        simp only [Except.ok.injEq, Prod.mk.injEq] at h
        rw [← h.2]
        omega
      · simp at h
    · simp at h
    · simp at h

/-- Reads the entries of a tag, skipping the spaces before each. -/
def readEntries (size : Nat) (cs : List Char) : Except TagError (List Tag) :=
  match _hcs : cs.dropWhile (· == ' ') with
  | [] => .ok []
  | c :: more =>
      match _h : readEntry size (c :: more) with
      | .error e => .error e
      | .ok (tag, rest) => (readEntries size rest).map (tag :: ·)
termination_by cs.length
decreasing_by
  have hlen := readEntry_length _h
  have hdrop : (cs.dropWhile (· == ' ')).length ≤ cs.length := (List.dropWhile_sublist _).length_le
  rw [_hcs] at hdrop
  omega

end Tag

/-- The entries of one struct tag, in order. -/
structure StructTags where
  tags : List Tag
deriving DecidableEq, Inhabited

namespace StructTags

/-- The first entry of a key. -/
def get? (t : StructTags) (key : String) : Option Tag := t.tags.find? (fun tag => tag.key == key)

/-- Parses a raw struct tag, without its backquotes. -/
def parse (tag : String) : Except TagError StructTags :=
  (Tag.readEntries (Text.byteLength tag.toList) tag.toList).map fun tags => ⟨tags⟩

end StructTags

end TypeBridge
