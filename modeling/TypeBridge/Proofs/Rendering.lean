import TypeBridge.Proofs.Outcome
import TypeBridge.Proofs.Reordering

/-!
What is rendered, and how often. The text of a graph is made of the texts of its declarations in the
order of their keys, smaller bytes first; it fails at the first key whose declaration has no text. Only
what stands under the keys matters, not the history of the graph. Whatever comes of the first call, all
calls after it are refused.
-/

namespace TypeBridge

/-! ### The order of bytes -/

namespace Text

/-- The bytes of a text. -/
def utf8 (s : String) : List UInt8 := s.toUTF8.data.toList

theorem utf8_eq_flatMap (s : String) : utf8 s = s.toList.flatMap String.utf8EncodeChar := by
  rw [utf8, String.toUTF8, ← String.utf8Encode_toList, List.utf8Encode, List.toList_data_toByteArray]

theorem ofNat_lt_ofNat {n m : Nat} (hn : n < 0x100) (hm : m < 0x100) :
    UInt8.ofNat n < UInt8.ofNat m ↔ n < m := by
  rw [UInt8.lt_iff_toNat_lt, UInt8.toNat_ofNat', UInt8.toNat_ofNat', Nat.mod_eq_of_lt hn, Nat.mod_eq_of_lt hm]

theorem ofNat_eq_ofNat {n m : Nat} (hn : n < 0x100) (hm : m < 0x100) :
    UInt8.ofNat n = UInt8.ofNat m ↔ n = m := by
  rw [← UInt8.toNat_inj, UInt8.toNat_ofNat', UInt8.toNat_ofNat', Nat.mod_eq_of_lt hn, Nat.mod_eq_of_lt hm]

/-- The bytes of a smaller character are smaller, whatever comes after them. -/
theorem utf8EncodeChar_append_lt {c d : Char} (h : c < d) (x y : List UInt8) :
    String.utf8EncodeChar c ++ x < String.utf8EncodeChar d ++ y := by
  have hlt : c.val.toNat < d.val.toNat := UInt32.lt_iff_toNat_lt.mp h
  have hd : d.val.toNat < 0x110000 := by
    rcases d.valid with hsmall | hlarge
    · exact Nat.lt_trans hsmall (by decide)
    · exact hlarge.2
  generalize hcv : c.val.toNat = m at hlt
  generalize hdv : d.val.toNat = n at hlt hd
  -- both are written in digits of six bits, after a first byte that grows with their number
  have hdigits : ∀ k, k / 4096 = k / 64 / 64 ∧ k / 262144 = k / 64 / 64 / 64 := fun k => by omega
  simp only [String.utf8EncodeChar, hcv, hdv, (hdigits _).1, (hdigits _).2]
  split_ifs <;>
    simp (disch := omega) only [List.cons_append, List.nil_append, List.cons_lt_cons_iff, ofNat_lt_ofNat,
      ofNat_eq_ofNat] <;> omega

/-- Texts are in the order of their bytes. -/
theorem utf8_lt {s t : String} (h : s < t) : utf8 s < utf8 t := by
  have hchars : ∀ {cs ds : List Char}, List.Lex (· < ·) cs ds →
      cs.flatMap String.utf8EncodeChar < ds.flatMap String.utf8EncodeChar := by
    intro cs ds hlex
    induction hlex with
    | @nil d ds =>
        obtain ⟨b, bs, hbytes⟩ := List.exists_cons_of_ne_nil (String.utf8EncodeChar_ne_nil (c := d))
        rw [List.flatMap_cons, hbytes]
        exact List.nil_lt_cons b _
    | cons _ ih => exact List.append_left_lt ih
    | rel hless => exact utf8EncodeChar_append_lt hless _ _
  rw [utf8_eq_flatMap, utf8_eq_flatMap]
  exact hchars (String.lt_iff.mp h)

end Text

namespace Graph

variable {g : Graph} {printer : Printer} {keys : List String} {text : String}

/-! ### Texts of declarations in a row -/

/-- The declaration of a key has a text. -/
def Renders (g : Graph) (printer : Printer) (key text : String) : Prop :=
  ∃ d, g.get? key = some d ∧ printer.print d = .ok text

/-- The declaration of a key has no text. -/
def Refuses (g : Graph) (printer : Printer) (key : String) (cause : PrintError) : Prop :=
  ∃ d, g.get? key = some d ∧ printer.print d = .error cause

theorem Renders.not_refuses {key : String} {cause : PrintError} (h : g.Renders printer key text) :
    ¬ g.Refuses printer key cause := by
  obtain ⟨d, hget, hprint⟩ := h
  rintro ⟨d', hget', hprint'⟩
  cases hget.symm.trans hget'
  cases hprint.symm.trans hprint'

/-- The texts of declarations, each with a blank line after it. -/
def paragraphs (texts : List String) : String := String.join (texts.map (· ++ "\n\n"))

theorem paragraphs_cons (text : String) (texts : List String) :
    paragraphs (text :: texts) = text ++ "\n\n" ++ paragraphs texts := by
  rw [paragraphs, List.map_cons, String.join_cons]
  rfl

/-- Keys whose declarations have texts are rendered to these texts. -/
theorem renderKeys_of_renders {texts : List String}
    (h : List.Forall₂ (g.Renders printer) keys texts) :
    g.renderKeys printer keys = .ok (paragraphs texts) := by
  induction h with
  | nil => rfl
  | @cons key text keys texts hfirst _ ih =>
      obtain ⟨d, hget, hprint⟩ := hfirst
      rw [renderKeys, hget]
      simp only [hprint, ih, paragraphs_cons]
      rfl

/-- Rendering fails at the first key whose declaration has no text. -/
theorem renderKeys_of_refuses {front : List String} {key : String} {cause : PrintError}
    (hfront : ∀ before ∈ front, ∃ text, g.Renders printer before text)
    (hkey : g.Refuses printer key cause) (back : List String) :
    g.renderKeys printer (front ++ key :: back) = .error (.render key cause) := by
  induction front with
  | nil =>
      obtain ⟨d, hget, hprint⟩ := hkey
      rw [List.nil_append, renderKeys, hget]
      simp only [hprint]
  | cons before front ih =>
      obtain ⟨⟨text, d, hget, hprint⟩, hlater⟩ := List.forall_mem_cons.mp hfront
      rw [List.cons_append, renderKeys, hget]
      simp only [hprint, ih hlater]
      rfl

/-- Keys that stand in the graph have texts one and all, or one of them is the first without. -/
theorem renders_or_refuses (printer : Printer) (hkeys : ∀ key ∈ keys, ∃ d, g.get? key = some d) :
    (∃ texts, List.Forall₂ (g.Renders printer) keys texts) ∨
      ∃ front key back cause, keys = front ++ key :: back ∧
        (∀ before ∈ front, ∃ text, g.Renders printer before text) ∧ g.Refuses printer key cause := by
  induction keys with
  | nil => exact .inl ⟨[], .nil⟩
  | cons key keys ih =>
      obtain ⟨⟨d, hget⟩, hlater⟩ := List.forall_mem_cons.mp hkeys
      cases hprint : printer.print d with
      | error cause => exact .inr ⟨[], key, keys, cause, rfl, nofun, d, hget, hprint⟩
      | ok text =>
          have hkey : g.Renders printer key text := ⟨d, hget, hprint⟩
          rcases ih hlater with ⟨texts, htexts⟩ | ⟨front, stop, back, cause, rfl, hfront, hstop⟩
          · exact .inl ⟨text :: texts, .cons hkey htexts⟩
          · exact .inr ⟨key :: front, stop, back, cause, rfl,
              List.forall_mem_cons.mpr ⟨⟨text, hkey⟩, hfront⟩, hstop⟩

theorem exists_renders_of_mem {texts : List String} (h : List.Forall₂ (g.Renders printer) keys texts)
    {key : String} (hkey : key ∈ keys) : ∃ text, g.Renders printer key text := by
  induction h with
  | nil => cases hkey
  | cons hfirst _ ih =>
      rcases List.mem_cons.mp hkey with rfl | hlater
      · exact ⟨_, hfirst⟩
      · exact ih hlater

/-! ### All keys, in the order of their bytes -/

/-- The keys of a graph, each of them once, smaller bytes first. -/
structure ListsAscending (g : Graph) (keys : List String) : Prop where
  mem_iff : ∀ key, key ∈ keys ↔ ∃ d, g.get? key = some d
  ascends : keys.Pairwise fun key key' => Text.utf8 key < Text.utf8 key'

theorem listsAscending_sortKeys (g : Graph) : g.ListsAscending (sortKeys g.keys) where
  mem_iff key := by
    rw [(sortKeys_perm g.keys).mem_iff]
    exact Keyed.mem_keys_iff
  ascends := by
    have hdistinct : (sortKeys g.keys).Nodup := (sortKeys_perm g.keys).nodup_iff.mpr g.nodes.nodup
    exact ((pairwise_sortKeys g.keys).and hdistinct).imp fun ⟨hle, hne⟩ =>
      Text.utf8_lt (Std.lt_of_le_of_ne hle hne)

theorem ListsAscending.notMem_of_lt {front back : List String} {key before : String}
    (h : g.ListsAscending (front ++ key :: back)) (hlt : Text.utf8 before < Text.utf8 key) :
    before ∉ key :: back := by
  intro hmem
  have hafter := (List.pairwise_append.mp h.ascends).2.1
  rcases List.mem_cons.mp hmem with rfl | hback
  · exact List.lt_irrefl _ hlt
  · exact List.lt_asymm hlt (List.rel_of_pairwise_cons hafter hback)

/-- A key is refused first exactly when all keys of smaller bytes have texts. -/
theorem ListsAscending.exists_split_iff (h : g.ListsAscending keys) {key : String} {cause : PrintError}
    (hkey : g.Refuses printer key cause) :
    (∃ front back, keys = front ++ key :: back ∧
        ∀ before ∈ front, ∃ text, g.Renders printer before text) ↔
      ∀ before d, Text.utf8 before < Text.utf8 key → g.get? before = some d →
        ∃ text, printer.print d = .ok text := by
  constructor
  · rintro ⟨front, back, rfl, hfront⟩ before d hlt hget
    have hmem := (h.mem_iff before).mpr ⟨d, hget⟩
    rcases List.mem_append.mp hmem with hbefore | hlater
    · obtain ⟨text, d', hget', hprint⟩ := hfront before hbefore
      cases hget.symm.trans hget'
      exact ⟨text, hprint⟩
    · exact absurd hlater (h.notMem_of_lt hlt)
  · intro hsmaller
    obtain ⟨d, hget, -⟩ := hkey
    obtain ⟨front, back, rfl⟩ := List.append_of_mem ((h.mem_iff key).mpr ⟨d, hget⟩)
    refine ⟨front, back, rfl, fun before hbefore => ?_⟩
    obtain ⟨d', hget'⟩ := (h.mem_iff before).mp (List.mem_append_left _ hbefore)
    have hlt := (List.pairwise_append.mp h.ascends).2.2 before hbefore key List.mem_cons_self
    obtain ⟨text, hprint⟩ := hsmaller before d' hlt hget'
    exact ⟨text, d', hget', hprint⟩

/-- What comes of rendering all keys: their texts, or the refusal of the least key without a text. -/
theorem ListsAscending.renderKeys_iff (printer : Printer) (h : g.ListsAscending keys) :
    (∀ text, g.renderKeys printer keys = .ok text ↔
      ∃ texts, List.Forall₂ (g.Renders printer) keys texts ∧ text = paragraphs texts) ∧
    (∀ e, g.renderKeys printer keys = .error e ↔
      ∃ key cause, e = .render key cause ∧ g.Refuses printer key cause ∧
        ∀ before d, Text.utf8 before < Text.utf8 key → g.get? before = some d →
          ∃ text, printer.print d = .ok text) := by
  have hgot : ∀ key ∈ keys, ∃ d, g.get? key = some d := fun key hkey => (h.mem_iff key).mp hkey
  rcases renders_or_refuses printer hgot with
    ⟨texts, htexts⟩ | ⟨front, stop, back, cause, rfl, hfront, hstop⟩
  · have hresult := renderKeys_of_renders htexts
    constructor
    · intro text
      constructor
      · intro hok
        cases hresult.symm.trans hok
        exact ⟨texts, htexts, rfl⟩
      · rintro ⟨texts', htexts', rfl⟩
        exact renderKeys_of_renders htexts'
    · intro e
      refine iff_of_false (by simp [hresult]) ?_
      rintro ⟨key, cause, -, hrefuses, -⟩
      obtain ⟨d, hget, -⟩ := id hrefuses
      obtain ⟨text, hrenders⟩ := exists_renders_of_mem htexts ((h.mem_iff key).mpr ⟨d, hget⟩)
      exact hrenders.not_refuses hrefuses
  · have hresult := renderKeys_of_refuses hfront hstop back
    constructor
    · intro text
      refine iff_of_false (by simp [hresult]) ?_
      rintro ⟨texts, htexts, -⟩
      obtain ⟨text, hrenders⟩ := exists_renders_of_mem htexts
        (List.mem_append_right front List.mem_cons_self)
      exact hrenders.not_refuses hstop
    · intro e
      constructor
      · intro herror
        cases hresult.symm.trans herror
        exact ⟨stop, cause, rfl, hstop, (h.exists_split_iff hstop).mp ⟨front, back, rfl, hfront⟩⟩
      · rintro ⟨key, cause', rfl, hrefuses, hsmaller⟩
        obtain ⟨front', back', hkeys, hfront'⟩ := (h.exists_split_iff hrefuses).mpr hsmaller
        rw [hkeys]
        exact renderKeys_of_refuses hfront' hrefuses _

/-! ### Calls one after another -/

/-- The ways to render a graph: in the order of its keys or in an order of the caller's, with the
standard printer or with one of the caller's. -/
inductive RenderCall where
  | sorted
  | inOrder (order : List String → List String)
  | custom (printer : Printer) (order : List String → List String)

/-- What a call answers, and the graph it leaves behind. -/
def RenderCall.run : RenderCall → Graph → Except Error String × Graph
  | sorted, g => g.render (Style.printer {}) sortKeys
  | inOrder order, g => g.render (Style.printer {}) order
  | custom printer order, g => g.render printer order

/-- The answers to calls one after another. -/
def answers : List RenderCall → Graph → List (Except Error String)
  | [], _ => []
  | call :: calls, g => (call.run g).1 :: answers calls (call.run g).2

theorem serialized_render (g : Graph) (printer : Printer) (order : List String → List String) :
    (g.render printer order).2.serialized = true := by
  unfold render
  split
  · assumption
  · rfl

theorem serialized_run (call : RenderCall) (g : Graph) : (call.run g).2.serialized = true := by
  cases call <;> exact serialized_render g _ _

theorem run_of_serialized (h : g.serialized = true) (call : RenderCall) :
    call.run g = (.error .alreadySerialized, g) := by
  cases call <;> exact if_pos h

/-- A graph that was rendered answers nothing any more. -/
theorem answers_of_serialized (h : g.serialized = true) (calls : List RenderCall) :
    answers calls g = List.replicate calls.length (.error .alreadySerialized) := by
  induction calls with
  | nil => rfl
  | cons call calls ih => rw [answers, run_of_serialized h, ih, List.length_cons, List.replicate_succ]

theorem render_of_not_serialized (h : g.serialized = false) (printer : Printer)
    (order : List String → List String) : (g.render printer order).1 =
      (g.renderKeys printer (order (sortKeys g.keys))).map (printer.header ++ ·) := by
  rw [render, h]
  rfl

/-- Only the declarations that stand under the keys decide what is rendered; in the order of the keys
that is the header and the text of every declaration, or the refusal of the least key without a text;
and after the first call every call is refused. -/
theorem rendered_by_contents (printer : Printer) (order : List String → List String) :
    (∀ g g' : Graph, g.serialized = false → g'.serialized = false →
      (∀ key, g'.get? key = g.get? key) →
        (g'.render printer order).1 = (g.render printer order).1) ∧
    (∀ g : Graph, g.serialized = false → ∃ keys, g.ListsAscending keys ∧
      (∀ text, (g.render printer id).1 = .ok text ↔ ∃ texts,
        List.Forall₂ (g.Renders printer) keys texts ∧ text = printer.header ++ paragraphs texts) ∧
      (∀ e, (g.render printer id).1 = .error e ↔
        ∃ key cause, e = .render key cause ∧ g.Refuses printer key cause ∧
          ∀ before d, Text.utf8 before < Text.utf8 key → g.get? before = some d →
            ∃ text, printer.print d = .ok text)) ∧
    (∀ (g : Graph) (call : RenderCall) (calls : List RenderCall), answers (call :: calls) g =
      (call.run g).1 :: List.replicate calls.length (.error .alreadySerialized)) := by
  refine ⟨fun g g' hg hg' h => render_congr h (hg'.trans hg.symm) printer order, fun g hg => ?_,
    fun g call calls => ?_⟩
  · have hkeys := g.listsAscending_sortKeys
    obtain ⟨hok, herror⟩ := hkeys.renderKeys_iff printer
    refine ⟨_, hkeys, fun text => ?_, fun e => ?_⟩
    · rw [render_of_not_serialized hg, map_eq_ok_iff]
      simp only [id_eq, hok]
      constructor
      · rintro ⟨_, ⟨texts, htexts, rfl⟩, rfl⟩
        exact ⟨texts, htexts, rfl⟩
      · rintro ⟨texts, htexts, rfl⟩
        exact ⟨_, ⟨texts, htexts, rfl⟩, rfl⟩
    · rw [render_of_not_serialized hg, ← herror, id_eq]
      cases g.renderKeys printer (sortKeys g.keys) <;> simp [Except.map]
  · rw [answers, answers_of_serialized (serialized_run call g)]

end Graph

/-- Two declarations that were created in the order of their keys. -/
def fruit : Graph :=
  { nodes := ⟨[("Apple", .ofAlias { name := "Apple" } (.keyword .string)),
      ("Zest", .ofAlias { name := "Zest" } (.keyword .number))], by decide⟩ }

/-- The same declarations, created the other way round. -/
def fruitReversed : Graph :=
  { nodes := ⟨[("Zest", .ofAlias { name := "Zest" } (.keyword .number)),
      ("Apple", .ofAlias { name := "Apple" } (.keyword .string))], by decide⟩ }

theorem get?_fruitReversed (key : String) : fruitReversed.get? key = fruit.get? key := by
  simp only [fruitReversed, fruit, Graph.get?, Keyed.get?, List.lookup_cons, List.lookup_nil]
  by_cases hkey : key = "Apple"
  · subst hkey
    rfl
  · simp [beq_eq_false_iff_ne.mpr hkey]

theorem rendered_by_contents_fruit :
    (∀ key, fruitReversed.get? key = fruit.get? key) ∧
    (fruitReversed.render (Style.printer {}) List.reverse).1 =
      (fruit.render (Style.printer {}) List.reverse).1 ∧
    (∃ keys, fruit.ListsAscending keys ∧ ∀ text, (fruit.render (Style.printer {}) id).1 = .ok text ↔
      ∃ texts, List.Forall₂ (fruit.Renders (Style.printer {})) keys texts ∧
        text = (Style.printer {}).header ++ Graph.paragraphs texts) ∧
    Graph.answers [.inOrder List.reverse, .sorted, .custom (Style.printer {}) id] fruit =
      (fruit.render (Style.printer {}) List.reverse).1 ::
        List.replicate 2 (.error .alreadySerialized) := by
  obtain ⟨hcontents, hsorted, hcalls⟩ := Graph.rendered_by_contents (Style.printer {}) List.reverse
  obtain ⟨keys, hkeys, hok, -⟩ := hsorted fruit rfl
  exact ⟨get?_fruitReversed, hcontents fruit fruitReversed rfl rfl get?_fruitReversed, ⟨keys, hkeys, hok⟩,
    hcalls fruit (.inOrder List.reverse) [.sorted, .custom (Style.printer {}) id]⟩

end TypeBridge
