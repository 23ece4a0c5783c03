import Mathlib.Data.List.TakeWhile
import Mathlib.Order.Basic
import TypeBridge.Proofs.Outcome
import TypeBridge.Proofs.Text
import TypeBridge.Tag

/-!
The grammar of struct tags. A tag is a sequence of entries with spaces around them, an entry is a key
and a quoted body, and a body is a way to write a text with escapes. Each reader is described by what
it accepts: the text it has gone through is a form of the value it returns, and the rest is what was
left. So the parser accepts the texts of the grammar, and undoes every way to write a list of tags.
-/

namespace TypeBridge

namespace Tag

/-! ### The grammar -/

/-- The characters that may be escaped, with what their escapes stand for. -/
def escapes : List (Char × Char) :=
  [('\\', '\\'), ('"', '"'), ('\x27', '\x27'), ('n', '\n'), ('t', '\t'), ('r', '\r')]

/-- A way to write a text between quotes. -/
inductive Body : List Char → List Char → Prop
  | nil : Body [] []
  | plain {c : Char} {written text : List Char} (hquote : c ≠ '"') (hescape : c ≠ '\\')
      (rest : Body written text) : Body (c :: written) (c :: text)
  | escape {c d : Char} {written text : List Char} (hescape : (c, d) ∈ escapes)
      (rest : Body written text) : Body ('\\' :: c :: written) (d :: text)

/-- The keys that can be written. -/
structure IsKey (key : List Char) : Prop where
  ne_nil : key ≠ []
  visible : ∀ c ∈ key, ' ' < c ∧ c ≠ ':' ∧ c ≠ '"' ∧ c ≠ '\x7F'

/-- The name and the options of an entry. -/
def parts (tag : Tag) : List (List Char) := (tag.name :: tag.options).map String.toList

/-- The text that the body of an entry stands for. -/
def joined (tag : Tag) : List Char := [','].intercalate tag.parts

/-- Commas only separate the parts of an entry. -/
def CommaFree (tag : Tag) : Prop := ∀ part ∈ tag.parts, ',' ∉ part

/-- A text that an entry may be written as. -/
inductive Entry (tag : Tag) : List Char → Prop
  | intro {body : List Char} (hkey : IsKey tag.key.toList) (hbody : Body body tag.joined) :
      Entry tag (tag.key.toList ++ ':' :: '"' :: body ++ ['"'])

/-- A text that a list of entries may be written as. -/
inductive Entries : List Char → List Tag → Prop
  | nil {spaces : List Char} (hspaces : ∀ c ∈ spaces, c = ' ') : Entries spaces []
  | cons {spaces entry rest : List Char} {tag : Tag} {tags : List Tag}
      (hspaces : ∀ c ∈ spaces, c = ' ') (hentry : Entry tag entry) (later : Entries rest tags) :
      Entries (spaces ++ entry ++ rest) (tag :: tags)

/-! ### Bodies -/

theorem unescape?_eq_some_iff {c d : Char} : unescape? c = some d ↔ (c, d) ∈ escapes := by
  simp only [unescape?, escapes, List.mem_cons, Prod.mk.injEq, List.not_mem_nil, or_false]
  grind

theorem readBody_escape {c d : Char} (h : unescape? c = some d) (cs : List Char) :
    readBody ('\\' :: c :: cs) = (readBody cs).map fun read => (d :: read.1, read.2) := by
  rw [readBody, h]
  cases readBody cs <;> rfl

theorem readBody_plain {c : Char} (hquote : c ≠ '"') (hescape : c ≠ '\\') (cs : List Char) :
    readBody (c :: cs) = (readBody cs).map fun read => (c :: read.1, read.2) := by
  rw [readBody.eq_4 _ _ hquote (fun _ _ h _ => hescape h), if_neg hescape]

theorem Body.readBody_eq {written text : List Char} (h : Body written text) (rest : List Char) :
    readBody (written ++ '"' :: rest) = some (text, rest) := by
  induction h with
  | nil => rw [List.nil_append, readBody]
  | plain hquote hescape _ ih =>
      rw [List.cons_append, readBody_plain hquote hescape, ih, Option.map_some]
  | escape hescape _ ih =>
      rw [List.cons_append, List.cons_append, readBody_escape (unescape?_eq_some_iff.mpr hescape), ih,
        Option.map_some]

theorem exists_body_of_readBody {cs text rest : List Char} (h : readBody cs = some (text, rest)) :
    ∃ written, cs = written ++ '"' :: rest ∧ Body written text := by
  fun_induction readBody cs generalizing text with
  | case1 => cases h
  | case2 =>
      cases h
      exact ⟨[], rfl, .nil⟩
  | case3 c more ih =>
      simp only [bind, Option.bind_eq_some_iff] at h
      obtain ⟨plain, hplain, ⟨read, left⟩, hread, hresult⟩ := h
      cases hresult
      obtain ⟨written, rfl, hwritten⟩ := ih hread
      exact ⟨'\\' :: c :: written, rfl, .escape (unescape?_eq_some_iff.mp hplain) hwritten⟩
  | case4 => cases h
  | case5 c more hquote _ hescape ih =>
      obtain ⟨⟨read, left⟩, hread, hresult⟩ := Option.map_eq_some_iff.mp h
      cases hresult
      obtain ⟨written, rfl, hwritten⟩ := ih hread
      exact ⟨c :: written, rfl, .plain hquote hescape hwritten⟩

/-- A body is read up to the quote that ends it. -/
theorem readBody_eq_some_iff {cs text rest : List Char} : readBody cs = some (text, rest) ↔
    ∃ written, cs = written ++ '"' :: rest ∧ Body written text := by
  constructor
  · exact exists_body_of_readBody
  · rintro ⟨written, rfl, hwritten⟩
    exact hwritten.readBody_eq rest

/-! ### Entries -/

theorem isKeyChar_iff {c : Char} :
    isKeyChar c = true ↔ ' ' < c ∧ c ≠ ':' ∧ c ≠ '"' ∧ c ≠ '\x7F' := by
  have hdelete : c.toNat = 0x7F ↔ c = '\x7F' := (Char.toNat_inj (c := c) (d := '\x7F'))
  simp only [isKeyChar, Bool.and_eq_true, decide_eq_true_eq, bne_iff_ne, ne_eq, hdelete, and_assoc]

theorem key_ofBody (key body : List Char) : (ofBody key body).key = String.ofList key := by
  rw [ofBody]
  split <;> rfl

theorem parts_ofBody (key body : List Char) : (ofBody key body).parts = Text.splitChars ',' body := by
  have htoList : String.toList ∘ String.ofList = id := funext fun _ => String.toList_ofList
  rw [ofBody, parts]
  split
  · rename_i hnil
    exact absurd hnil (Text.splitChars_ne_nil _ _)
  · rename_i hpieces
    rw [hpieces, List.map_cons, String.toList_ofList, List.map_map, htoList, List.map_id]

/-- An entry is its key and its parts. -/
theorem eq_of_parts {tag tag' : Tag} (hkey : tag.key = tag'.key) (hparts : tag.parts = tag'.parts) :
    tag = tag' := by
  have hstrings : tag.name :: tag.options = tag'.name :: tag'.options :=
    List.map_inj_right (fun _ _ => String.toList_inj.mp) |>.mp hparts
  obtain ⟨hname, hoptions⟩ := List.cons.inj hstrings
  rw [Tag.mk.injEq]
  exact ⟨hkey, hname, hoptions⟩

theorem ofBody_eq_iff {key body : List Char} {tag : Tag} : ofBody key body = tag ↔
    tag.key.toList = key ∧ tag.CommaFree ∧ tag.joined = body := by
  have hne : tag.parts ≠ [] := List.cons_ne_nil _ _
  have hsplit := Text.splitChars_eq_iff ',' body hne
  constructor
  · rintro rfl
    exact ⟨by rw [key_ofBody, String.toList_ofList], hsplit.mp (parts_ofBody key body).symm⟩
  · rintro ⟨rfl, hvalue⟩
    refine eq_of_parts ?_ ?_
    · rw [key_ofBody, String.ofList_toList]
    · rw [parts_ofBody, hsplit.mpr hvalue]

/-- An entry is read when a colon and a quoted body follow its key. -/
theorem readEntry_eq_ok_iff_dropWhile {size : Nat} {cs rest : List Char} {tag : Tag} :
    readEntry size cs = .ok (tag, rest) ↔
      cs.takeWhile isKeyChar ≠ [] ∧ ∃ quoted body, cs.dropWhile isKeyChar = ':' :: '"' :: quoted ∧
        readBody quoted = some (body, rest) ∧ ofBody (cs.takeWhile isKeyChar) body = tag := by
  simp only [readEntry, List.isEmpty_iff]
  constructor
  · intro h
    split at h
    · cases h
    · rename_i hkey
      split at h
      · rename_i quoted hdrop
        cases hbody : readBody quoted with
        | none =>
            rw [hbody] at h
            cases h
        | some read =>
            rw [hbody] at h
            cases h
            exact ⟨hkey, quoted, read.1, hdrop, hbody, rfl⟩
      · cases h
      · cases h
  · rintro ⟨hkey, quoted, body, hdrop, hbody, rfl⟩
    simp only [if_neg hkey, hdrop, hbody]

theorem takeWhile_isKeyChar {key : List Char} (h : IsKey key) (rest : List Char) :
    (key ++ ':' :: rest).takeWhile isKeyChar = key := by
  rw [List.takeWhile_append_of_pos fun c hc => isKeyChar_iff.mpr (h.visible c hc),
    List.takeWhile_cons_of_neg (by decide), List.append_nil]

theorem dropWhile_isKeyChar {key : List Char} (h : IsKey key) (rest : List Char) :
    (key ++ ':' :: rest).dropWhile isKeyChar = ':' :: rest := by
  rw [List.dropWhile_append_of_pos fun c hc => isKeyChar_iff.mpr (h.visible c hc),
    List.dropWhile_cons_of_neg (by decide)]

/-- An entry is read up to the quote that ends its body. -/
theorem readEntry_eq_ok_iff {size : Nat} {cs rest : List Char} {tag : Tag} :
    readEntry size cs = .ok (tag, rest) ↔
      tag.CommaFree ∧ ∃ entry, cs = entry ++ rest ∧ Entry tag entry := by
  simp only [readEntry_eq_ok_iff_dropWhile, readBody_eq_some_iff, ofBody_eq_iff]
  constructor
  · rintro ⟨hne, quoted, body, hdrop, ⟨written, rfl, hwritten⟩, hkey, hfree, rfl⟩
    have hvisible : ∀ c ∈ tag.key.toList, ' ' < c ∧ c ≠ ':' ∧ c ≠ '"' ∧ c ≠ '\x7F' :=
      fun c hc => isKeyChar_iff.mp (List.mem_takeWhile_imp (hkey ▸ hc))
    refine ⟨hfree, _, ?_, .intro ⟨hkey ▸ hne, hvisible⟩ hwritten⟩
    have hparts : cs.takeWhile isKeyChar ++ cs.dropWhile isKeyChar = cs :=
      List.takeWhile_append_dropWhile
    rw [← hparts, hdrop, hkey]
    simp
  · rintro ⟨hfree, entry, rfl, hkey, hbody⟩
    rw [List.append_assoc, List.append_assoc]
    simp only [List.cons_append, takeWhile_isKeyChar hkey, dropWhile_isKeyChar hkey]
    exact ⟨hkey.ne_nil, _, _, rfl, ⟨_, rfl, hbody⟩, trivial, hfree, rfl⟩

/-! ### Tags -/

/-- An entry starts with the first character of its key. -/
theorem Entry.exists_cons {tag : Tag} {entry : List Char} (h : Entry tag entry) :
    ∃ c rest, entry = c :: rest ∧ c ≠ ' ' := by
  obtain ⟨hkey, hbody⟩ := h
  obtain ⟨c, key, hcons⟩ := List.exists_cons_of_ne_nil hkey.ne_nil
  refine ⟨c, _, by rw [hcons]; rfl, ?_⟩
  rintro rfl
  exact absurd (hkey.visible ' ' (by simp [hcons])).1 (by decide)

theorem readEntries_nil {size : Nat} {cs : List Char} (h : cs.dropWhile (· == ' ') = []) :
    readEntries size cs = .ok [] := by
  rw [readEntries]
  split
  · rfl
  · simp_all

theorem readEntries_cons {size : Nat} {cs : List Char} (h : cs.dropWhile (· == ' ') ≠ []) :
    readEntries size cs = readEntry size (cs.dropWhile (· == ' ')) >>= fun read =>
      (readEntries size read.2).map (read.1 :: ·) := by
  rw [readEntries]
  split
  · rename_i hnil
    exact absurd hnil h
  · rename_i c more hcons
    rw [hcons]
    cases readEntry size (c :: more) <;> rfl

theorem Entries.readEntries_eq {cs : List Char} {tags : List Tag} (h : Entries cs tags)
    (hfree : ∀ tag ∈ tags, tag.CommaFree) (size : Nat) : readEntries size cs = .ok tags := by
  induction h with
  | nil hspaces =>
      refine readEntries_nil (List.dropWhile_eq_nil_iff.mpr fun c hc => ?_)
      simp [hspaces c hc]
  | @cons spaces entry rest tag tags hspaces hentry later ih =>
      obtain ⟨c, more, hcons, hc⟩ := hentry.exists_cons
      have hdrop : (spaces ++ entry ++ rest).dropWhile (· == ' ') = entry ++ rest := by
        rw [List.append_assoc, List.dropWhile_append_of_pos (by simpa using hspaces), hcons,
          List.cons_append, List.dropWhile_cons_of_neg (by simpa using hc)]
      have hread : readEntry size (entry ++ rest) = .ok (tag, rest) :=
        readEntry_eq_ok_iff.mpr ⟨hfree tag List.mem_cons_self, entry, rfl, hentry⟩
      rw [readEntries_cons (by rw [hdrop, hcons]; exact List.cons_ne_nil _ _), hdrop, hread,
        bind_eq_ok_iff]
      exact ⟨_, rfl, map_eq_ok_iff.mpr
        ⟨tags, ih fun later hlater => hfree later (List.mem_cons_of_mem tag hlater), rfl⟩⟩

theorem entries_of_readEntries {size : Nat} {cs : List Char} {tags : List Tag}
    (h : readEntries size cs = .ok tags) : (∀ tag ∈ tags, tag.CommaFree) ∧ Entries cs tags := by
  induction hlength : cs.length using Nat.strong_induction_on generalizing cs tags with
  | _ n ih =>
      subst hlength
      have hsplit : cs.takeWhile (· == ' ') ++ cs.dropWhile (· == ' ') = cs :=
        List.takeWhile_append_dropWhile
      have hspaces : ∀ c ∈ cs.takeWhile (· == ' '), c = ' ' := fun c hc =>
        beq_iff_eq.mp (List.mem_takeWhile_imp (p := (· == ' ')) hc)
      by_cases hdrop : cs.dropWhile (· == ' ') = []
      · rw [readEntries_nil hdrop] at h
        cases h
        rw [hdrop, List.append_nil] at hsplit
        exact ⟨by simp, .nil (hsplit ▸ hspaces)⟩
      · rw [readEntries_cons hdrop, bind_eq_ok_iff] at h
        obtain ⟨⟨tag, rest⟩, hread, hmore⟩ := h
        obtain ⟨later, hlater, rfl⟩ := map_eq_ok_iff.mp hmore
        have hshorter : rest.length < cs.length :=
          lt_of_lt_of_le (readEntry_length hread) (List.dropWhile_sublist _).length_le
        obtain ⟨hfree, entry, hentry, hform⟩ := readEntry_eq_ok_iff.mp hread
        obtain ⟨hlaterFree, hlaterForm⟩ := ih _ hshorter hlater rfl
        refine ⟨List.forall_mem_cons.mpr ⟨hfree, hlaterFree⟩, ?_⟩
        rw [← hsplit, hentry, ← List.append_assoc]
        exact .cons hspaces hform hlaterForm

end Tag

/-- The parser accepts the texts of the grammar. -/
theorem StructTags.parse_eq_ok_iff {s : String} {tags : List Tag} :
    StructTags.parse s = .ok ⟨tags⟩ ↔ (∀ tag ∈ tags, tag.CommaFree) ∧ Tag.Entries s.toList tags := by
  rw [parse, map_eq_ok_iff]
  constructor
  · rintro ⟨read, hread, hsame⟩
    cases hsame
    exact Tag.entries_of_readEntries hread
  · rintro ⟨hfree, hentries⟩
    exact ⟨tags, hentries.readEntries_eq hfree _, rfl⟩

/-! ### Writing tags -/

namespace Tag

/-- A text between quotes, with the least number of escapes. -/
def quoted (text : List Char) : List Char :=
  text.flatMap fun c => if c = '"' ∨ c = '\\' then ['\\', c] else [c]

theorem body_quoted (text : List Char) : Body (quoted text) text := by
  induction text with
  | nil => exact .nil
  | cons c text ih =>
      rw [quoted, List.flatMap_cons]
      split
      · rename_i hc
        refine .escape ?_ ih
        rcases hc with rfl | rfl <;> decide
      · rename_i hc
        obtain ⟨hquote, hescape⟩ := not_or.mp hc
        exact .plain hquote hescape ih

/-- The usual way to write an entry. -/
def render (tag : Tag) : List Char :=
  tag.key.toList ++ ':' :: '"' :: quoted tag.joined ++ ['"']

theorem entry_render {tag : Tag} (h : IsKey tag.key.toList) : Entry tag tag.render :=
  .intro h (body_quoted _)

/-- The usual way to write a list of entries: one space after each. -/
def renderAll (tags : List Tag) : List Char := tags.flatMap fun tag => tag.render ++ [' ']

theorem Entries.space {cs : List Char} {tags : List Tag} (h : Entries cs tags) :
    Entries (' ' :: cs) tags := by
  cases h with
  | nil hspaces => exact .nil (List.forall_mem_cons.mpr ⟨rfl, hspaces⟩)
  | cons hspaces hentry later =>
      exact @Entries.cons (' ' :: _) _ _ _ _ (List.forall_mem_cons.mpr ⟨rfl, hspaces⟩) hentry later

theorem entries_renderAll {tags : List Tag} (h : ∀ tag ∈ tags, IsKey tag.key.toList) :
    Entries (renderAll tags) tags := by
  induction tags with
  | nil => exact .nil (by simp [renderAll])
  | cons tag tags ih =>
      obtain ⟨hkey, hkeys⟩ := List.forall_mem_cons.mp h
      rw [renderAll, List.flatMap_cons, List.append_assoc]
      exact @Entries.cons [] _ _ _ _ (by simp) (entry_render hkey) (ih hkeys).space

end Tag

end TypeBridge
