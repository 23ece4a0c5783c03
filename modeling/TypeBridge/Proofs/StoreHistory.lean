import Mathlib.Data.List.Induction
import TypeBridge.Proofs.Store

/-!
Stores by the history of all operations on them, in any order and number, the refused ones included.
The keys stand in the order in which operations first named them. A key has the declaration that last
replaced another; where none did, it has the one that the very first operation on it defined, or else
the first that was filled in. The members queued for it are kept in the order of their arrival. An
operation whose key is taken is refused and leaves no trace. Finishing such a store succeeds exactly
if all its entries can be finished, and otherwise blames the first that cannot.
-/

namespace TypeBridge

/-- An operation on a store. -/
inductive StoreOp where
  | define (key : String) (d : Declaration)
  | fill (key : String) (d : Declaration)
  | replace (key : String) (d : Declaration)
  | queue (key : String) (members : List EnumMember)

namespace StoreOp

def key : StoreOp → String
  | define key _ => key
  | fill key _ => key
  | replace key _ => key
  | queue key _ => key

/-! ### What operations amount to -/

/-- The declaration for a key that nothing was recorded for. -/
def definition? : StoreOp → Option Declaration
  | define _ d => some d
  | _ => none

/-- The declaration for a key that has none. -/
def filling? : StoreOp → Option Declaration
  | fill _ d => some d
  | _ => none

/-- The declaration for a key, whatever it has. -/
def replacement? : StoreOp → Option Declaration
  | replace _ d => some d
  | _ => none

def members : StoreOp → List EnumMember
  | queue _ members => members
  | _ => []

/-- The operations on one key. -/
def onKey (key : String) (ops : List StoreOp) : List StoreOp := ops.filter fun op => op.key == key

/-- The declaration that the operations on one key leave it with. -/
def declared? (own : List StoreOp) : Option Declaration :=
  (own.filterMap replacement?).getLast?.or
    ((own.head?.bind definition?).or (own.filterMap filling?).head?)

/-- The entry that the operations on one key leave behind. -/
def entryOf (own : List StoreOp) : StoreEntry := ⟨declared? own, own.flatMap members⟩

/-- Whether an operation comes too late after others on its key. -/
def clashes (own : List StoreOp) : StoreOp → Bool
  | define _ _ => !own.isEmpty
  | fill _ _ => (declared? own).isSome
  | _ => false

/-- The entry that an operation makes of another. -/
def update (e : StoreEntry) : StoreOp → StoreEntry
  | queue _ members => { e with pending := e.pending ++ members }
  | define _ d => { e with node := some d }
  | fill _ d => { e with node := some d }
  | replace _ d => { e with node := some d }

theorem onKey_concat_self (ops : List StoreOp) (op : StoreOp) :
    onKey op.key (ops ++ [op]) = onKey op.key ops ++ [op] := by
  simp [onKey]

theorem onKey_concat_of_ne (ops : List StoreOp) {op : StoreOp} {key : String} (h : key ≠ op.key) :
    onKey key (ops ++ [op]) = onKey key ops := by
  simp [onKey, Ne.symm h]

theorem onKey_eq_nil_iff {ops : List StoreOp} {key : String} :
    onKey key ops = [] ↔ key ∉ ops.map StoreOp.key := by
  simp [onKey, List.filter_eq_nil_iff]

theorem declared?_concat (own : List StoreOp) (op : StoreOp) :
    declared? (own ++ [op]) =
      op.replacement?.or ((own.filterMap replacement?).getLast?.or
        (((own.head?.or (some op)).bind definition?).or
          ((own.filterMap filling?).head?.or op.filling?))) := by
  have hlast : ([op].filterMap replacement?).getLast? = op.replacement? := by
    cases op <;> rfl
  have hfirst : ([op].filterMap filling?).head? = op.filling? := by
    cases op <;> rfl
  rw [declared?, List.filterMap_append, List.filterMap_append, List.getLast?_append,
    List.head?_append, List.head?_append, hlast, hfirst, Option.or_assoc]
  rfl

/-- Only a definition can count for being the first operation. -/
theorem bind_definition? (own : List StoreOp) {op : StoreOp} (h : op.definition? = none) :
    (own.head?.or (some op)).bind definition? = own.head?.bind definition? := by
  cases own with
  | nil => exact h
  | cons first rest => rfl

/-- A filling comes after whatever is there. -/
theorem declared?_fill (own : List StoreOp) (key : String) (d : Declaration) :
    declared? (own ++ [.fill key d]) = (declared? own).or (some d) := by
  rw [declared?_concat, bind_definition? own rfl, declared?, Option.or_assoc, Option.or_assoc]
  rfl

/-- One more operation: it changes the entry, unless it comes too late. -/
theorem entryOf_concat (own : List StoreOp) (op : StoreOp) :
    entryOf (own ++ [op]) = if op.clashes own then entryOf own else op.update (entryOf own) := by
  have hmembers : (own ++ [op]).flatMap members = own.flatMap members ++ op.members := by
    rw [List.flatMap_append, List.flatMap_singleton]
  rw [entryOf, hmembers]
  cases op with
  | define key d =>
      rw [declared?_concat]
      cases own with
      | nil => rfl
      | cons first rest =>
          simp [entryOf, declared?, clashes, replacement?, filling?, members]
  | fill key d =>
      rw [declared?_fill]
      cases hnode : declared? own <;> simp [entryOf, update, clashes, members, hnode]
  | replace key d =>
      rw [declared?_concat]
      simp [entryOf, update, clashes, replacement?, members]
  | queue key members =>
      rw [declared?_concat, bind_definition? own rfl]
      simp [entryOf, declared?, update, clashes, replacement?, filling?, StoreOp.members]

end StoreOp

namespace Store

/-! ### One operation -/

/-- Makes an empty entry for a key that has none. -/
def touch (s : Store) (key : String) : Store := ⟨s.entries.insert key (s.entry key)⟩

/-- The outcome of an operation that leaves `left` behind if it is refused. -/
def attempt (left : Store) : Except Error Store → Outcome Store
  | .ok s => .done s
  | .error e => .stopped left e

/-- Performs an operation in place. Every operation but a definition makes the entry that it wants
before it looks at it. -/
def perform (s : Store) : StoreOp → Outcome Store
  | .define key d => attempt s (s.define key d)
  | .fill key d => attempt (s.touch key) ((s.touch key).fill key d)
  | .replace key d => .done ((s.touch key).replace key d)
  | .queue key members => .done ((s.touch key).queue key members)

/-- The store that a sequence of operations leaves behind, whichever of them were refused. -/
def afterAll (ops : List StoreOp) : Store := ops.foldl (fun s op => (s.perform op).state) {}

/-- Whether the key of an operation is taken. -/
def refuses (s : Store) : StoreOp → Bool
  | .define key _ => s.contains key
  | .fill key _ => (s.get? key).isSome
  | _ => false

variable {s : Store} {key : String}

theorem entry_touch (s : Store) (key : String) : (s.touch key).entry key = s.entry key := by
  rw [touch, entry_insert, if_pos rfl]

theorem insert_touch (s : Store) (key : String) (e : StoreEntry) :
    (s.touch key).entries.insert key e = s.entries.insert key e :=
  Keyed.insert_insert s.entries key (s.entry key) e

theorem touch_eq_self (h : s.contains key = true) : s.touch key = s := by
  rw [touch, Keyed.insert_eq_self (get?_entries_of_contains h)]

theorem result_attempt (left : Store) (r : Except Error Store) : (attempt left r).result = r := by
  cases r <;> rfl

theorem fill_touch (s : Store) (key : String) (d : Declaration) :
    (s.touch key).fill key d = s.fill key d := by
  rw [fill, fill, entry_touch, insert_touch]

theorem contains_of_get? (h : (s.get? key).isSome = true) : s.contains key = true := by
  by_contra hnew
  rw [get?, entry_of_contains_eq_false (Bool.eq_false_iff.mpr hnew)] at h
  cases h

theorem contains_of_refuses {op : StoreOp} (h : s.refuses op = true) :
    s.contains op.key = true := by
  cases op with
  | define key d => exact h
  | fill key d => exact contains_of_get? h
  | replace key d => cases h
  | queue key members => cases h

/-- A refused operation changes nothing: the entry that it would have made is there. Any other
operation sets the entry of its key. -/
theorem perform_eq (s : Store) (op : StoreOp) :
    s.perform op = if s.refuses op then .stopped s (.duplicateNode op.key)
      else .done ⟨s.entries.insert op.key (op.update (s.entry op.key))⟩ := by
  cases op with
  | define key d =>
      rw [perform, define, refuses]
      split
      · rfl
      · rename_i hnew
        rw [StoreOp.key, entry_of_contains_eq_false (Bool.eq_false_iff.mpr hnew)]
        rfl
  | fill key d =>
      rw [perform, fill_touch, fill, refuses, get?]
      split
      · rename_i hnode
        rw [touch_eq_self (contains_of_get? hnode)]
        rfl
      · rfl
  | replace key d =>
      rw [perform, replace, insert_touch, entry_touch]
      rfl
  | queue key members =>
      rw [perform, queue, insert_touch, entry_touch]
      rfl

/-! ### All operations -/

theorem afterAll_concat (ops : List StoreOp) (op : StoreOp) :
    afterAll (ops ++ [op]) = ((afterAll ops).perform op).state := by
  rw [afterAll, List.foldl_append]
  rfl

/-- The keys stand in the order in which operations first named them. -/
theorem keys_afterAll (ops : List StoreOp) :
    (afterAll ops).entries.keys = (ops.map StoreOp.key).eraseDups := by
  induction ops using List.reverseRecOn with
  | nil => rfl
  | append_singleton ops op ih =>
      rw [afterAll_concat, perform_eq, List.map_append, List.map_singleton]
      cases hrefuses : (afterAll ops).refuses op with
      | true =>
          have hmem : op.key ∈ ops.map StoreOp.key := by
            rw [← List.mem_eraseDups, ← ih, ← Keyed.contains_iff]
            exact contains_of_refuses hrefuses
          rw [Keyed.eraseDups_concat, if_pos hmem]
          exact ih
      | false => exact Keyed.keys_insert_of_history ih op.key _

theorem contains_afterAll (ops : List StoreOp) (key : String) :
    (afterAll ops).contains key = !(StoreOp.onKey key ops).isEmpty := by
  rw [Bool.eq_iff_iff, contains, Keyed.contains_iff, keys_afterAll, List.mem_eraseDups,
    Bool.not_eq_true', List.isEmpty_eq_false_iff, Ne, StoreOp.onKey_eq_nil_iff, not_not]

/-- The entry of a key holds what the operations on it amount to. -/
theorem entry_afterAll (ops : List StoreOp) (key : String) :
    (afterAll ops).entry key = StoreOp.entryOf (StoreOp.onKey key ops) := by
  induction ops using List.reverseRecOn with
  | nil => rfl
  | append_singleton ops op ih =>
      rw [afterAll_concat, perform_eq]
      by_cases hkey : key = op.key
      · subst hkey
        have hclash : (afterAll ops).refuses op = op.clashes (StoreOp.onKey op.key ops) := by
          cases op with
          | define key d => exact contains_afterAll ops key
          | fill key d => exact congrArg (fun e => e.node.isSome) ih
          | replace key d => rfl
          | queue key members => rfl
        rw [StoreOp.onKey_concat_self, StoreOp.entryOf_concat, hclash, ← ih]
        split
        · rfl
        · exact (entry_insert _ _ _ _).trans (if_pos rfl)
      · rw [StoreOp.onKey_concat_of_ne ops hkey, ← ih]
        split
        · rfl
        · exact (entry_insert _ _ _ _).trans (if_neg hkey)

end Store

/-! ### Finishing -/

/-- Whether enum members can be attached to a declaration of this form. -/
def Form.takesMembers : Form → Bool
  | .typeAlias _ _ _ => true
  | .enumeration _ _ => true
  | _ => false

namespace StoreEntry

/-- An entry with a declaration, and with one that takes members if any are queued. -/
def Finishable (e : StoreEntry) : Prop :=
  ∃ node, e.node = some node ∧ (e.pending = [] ∨ node.form.takesMembers = true)

/-- What an entry has where a declaration that takes members is wanted. -/
def found (e : StoreEntry) : String :=
  match e.node with
  | none => "no declaration"
  | some node => node.form.label

end StoreEntry

/-- What a declaration becomes with the members that were queued for it. -/
structure Declaration.FinishedAs (node : Declaration) (queued : List EnumMember)
    (d : Declaration) : Prop where
  unchanged : queued = [] → d = node
  upgraded : ∀ name params type, node.form = .typeAlias name params type → queued ≠ [] →
    d = { node with form := .enumeration name queued }
  extended : ∀ name members, node.form = .enumeration name members →
    d = { node with form := .enumeration name (members ++ queued) }

theorem Declaration.finishedAs_withMembers (node : Declaration) (queued : List EnumMember) :
    node.FinishedAs queued (node.withMembers queued) := by
  cases queued with
  | nil =>
      refine ⟨fun _ => rfl, fun _ _ _ _ hne => absurd rfl hne, fun name members hform => ?_⟩
      rw [withMembers, List.append_nil, ← hform]
  | cons m rest =>
      constructor
      · intro hnil
        cases hnil
      · intro name params type hform _
        rw [withMembers, hform]
      · intro name members hform
        rw [withMembers, hform]

namespace Store

variable {s : Store}

/-- An entry is finished, or it names what it has instead of a declaration that takes members. -/
theorem finishEntry_cases (key : String) (e : StoreEntry) :
    (e.Finishable ∧ ∃ d, finishEntry key e = .ok d) ∨
      (¬e.Finishable ∧ finishEntry key e = .error (.enumUpgrade key e.found)) := by
  obtain ⟨node, pending⟩ := e
  cases node with
  | none =>
      refine Or.inr ⟨fun ⟨_, hnode, _⟩ => (nomatch hnode), ?_⟩
      cases pending <;> rfl
  | some node =>
      cases pending with
      | nil => exact Or.inl ⟨⟨node, rfl, Or.inl rfl⟩, node, rfl⟩
      | cons m rest =>
          have hrefused : node.form.takesMembers = false →
              ¬(⟨some node, m :: rest⟩ : StoreEntry).Finishable := by
            rintro hform ⟨_, hnode, hnone | htakes⟩
            · cases hnone
            · cases hnode
              cases hform.symm.trans htakes
          obtain ⟨modifiers, source, comments, form⟩ := node
          cases form with
          | typeAlias name params type =>
              exact Or.inl ⟨⟨_, rfl, Or.inr rfl⟩,
                exists_finishEntry key rfl (Or.inr ⟨name, params, type, rfl⟩)⟩
          | enumeration name old =>
              have hattach := attachMembers_enumeration key
                ⟨modifiers, source, comments, .enumeration name old⟩ name old (m :: rest)
              refine Or.inl ⟨⟨_, rfl, Or.inr rfl⟩,
                ⟨modifiers, source, comments, .enumeration name (old ++ m :: rest)⟩, ?_⟩
              rw [finishEntry, hattach]
              rfl
          | record name params heritage fields => exact Or.inr ⟨hrefused rfl, rfl⟩
          | statement kind bindings => exact Or.inr ⟨hrefused rfl, rfl⟩

theorem finishEntry_iff {key : String} {e : StoreEntry} :
    (∃ d, finishEntry key e = .ok d) ↔ e.Finishable := by
  rcases finishEntry_cases key e with ⟨hfinishable, hok⟩ | ⟨hnot, herror⟩
  · exact iff_of_true hok hfinishable
  · refine iff_of_false ?_ hnot
    rintro ⟨d, hd⟩
    cases herror.symm.trans hd

theorem exists_finalize_iff :
    (∃ g, s.finalize = .ok g) ↔ ∀ key ∈ s.entries.keys, (s.entry key).Finishable := by
  constructor
  · rintro ⟨g, hg⟩ key hkey
    obtain ⟨d, hd⟩ := exists_get?_of_finalize hg ((Keyed.contains_iff _ _).mpr hkey)
    exact finishEntry_iff.mp ⟨d, ((get?_of_finalize hg key d).mp hd).2⟩
  · intro h
    refine exists_finalize fun key hkey => finishEntry_iff.mpr (h key ?_)
    exact (Keyed.contains_iff _ _).mp hkey

/-- What stops finishing is the first entry that cannot be finished. -/
theorem finishEntries_eq_error {entries : List (String × StoreEntry)} {err : Error}
    (h : finishEntries entries = .error err) :
    ∃ before key e after, entries = before ++ (key, e) :: after ∧
      (∀ entry ∈ before, entry.2.Finishable) ∧ ¬e.Finishable ∧ err = .enumUpgrade key e.found := by
  induction entries with
  | nil => cases h
  | cons entry rest ih =>
      obtain ⟨key, e⟩ := entry
      rw [finishEntries] at h
      rcases finishEntry_cases key e with ⟨hfinishable, d, hd⟩ | ⟨hnot, herror⟩
      · cases hrest : finishEntries rest with
        | ok nodes =>
            rw [hd, hrest] at h
            cases h
        | error err' =>
            rw [hd, hrest] at h
            cases h
            obtain ⟨before, key', e', after, hsplit, hbefore, hblamed⟩ := ih hrest
            refine ⟨(key, e) :: before, key', e', after, by rw [hsplit]; rfl, ?_, hblamed⟩
            intro entry hentry
            rcases List.mem_cons.mp hentry with rfl | hentry
            · exact hfinishable
            · exact hbefore entry hentry
      · rw [herror] at h
        cases h
        exact ⟨[], key, e, rest, rfl, List.forall_mem_nil _, hnot, rfl⟩

theorem finalize_eq_error {err : Error} (h : s.finalize = .error err) :
    ∃ before key after, s.entries.keys = before ++ key :: after ∧
      (∀ other ∈ before, (s.entry other).Finishable) ∧ ¬(s.entry key).Finishable ∧
      err = .enumUpgrade key (s.entry key).found := by
  have hentries : finishEntries s.entries.entries = .error err := by
    rw [finalize] at h
    cases hnodes : finishEntries s.entries.entries with
    | error e =>
        rw [hnodes] at h
        cases h
        rfl
    | ok nodes =>
        rw [hnodes] at h
        cases h
  obtain ⟨before, key, e, after, hsplit, hbefore, hnot, herr⟩ := finishEntries_eq_error hentries
  have hmem : ∀ entry ∈ before ++ (key, e) :: after, s.entry entry.1 = entry.2 :=
    fun entry hentry => (mem_entries_iff.mp (hsplit ▸ hentry)).2
  have hkey : s.entry key = e := hmem (key, e) (List.mem_append_right _ List.mem_cons_self)
  refine ⟨before.map Prod.fst, key, after.map Prod.fst, ?_, ?_, by rw [hkey]; exact hnot,
    by rw [hkey]; exact herr⟩
  · rw [Keyed.keys, hsplit, List.map_append, List.map_cons]
  · intro other hother
    obtain ⟨entry, hentry, rfl⟩ := List.mem_map.mp hother
    rw [hmem entry (List.mem_append_left _ hentry)]
    exact hbefore entry hentry

/-! ### Stores and their histories -/

theorem failure_perform_iff (s : Store) (op : StoreOp) :
    (s.perform op).failure ≠ none ↔ s.refuses op = true := by
  rw [perform_eq]
  cases s.refuses op <;> simp [Outcome.done, Outcome.stopped]

/-- After any operations, a store has the keys in the order in which they were first named, each
once, with the declaration and the members that the operations on the key amount to. The next
operation is refused exactly if it wants a key that is there, or a declaration where one is, and then
the store stays as it is. Finishing succeeds exactly if every key has a declaration, one that takes
members if any are queued, and attaches the members; otherwise it blames the first key that has
not. -/
theorem follows_history (ops : List StoreOp) :
    let s := afterAll ops
    s.entries.keys = (ops.map StoreOp.key).eraseDups ∧ s.entries.keys.Nodup ∧
    (∀ key, s.entry key = StoreOp.entryOf (StoreOp.onKey key ops)) ∧
    (∀ key d, (s.perform (.define key d)).result = s.define key d ∧
      ((s.perform (.define key d)).failure ≠ none ↔ key ∈ s.entries.keys)) ∧
    (∀ key d, (s.perform (.fill key d)).result = s.fill key d ∧
      ((s.perform (.fill key d)).failure ≠ none ↔ ∃ node, s.get? key = some node)) ∧
    (∀ key d, s.perform (.replace key d) = .done (s.replace key d)) ∧
    (∀ key members, s.perform (.queue key members) = .done (s.queue key members)) ∧
    (∀ op, (s.perform op).failure ≠ none → (s.perform op).state = s) ∧
    ((∃ g, s.finalize = .ok g) ↔ ∀ key ∈ s.entries.keys, (s.entry key).Finishable) ∧
    (∀ g, s.finalize = .ok g → g.keys = s.entries.keys ∧
      ∀ key ∈ s.entries.keys, ∃ node d, s.get? key = some node ∧ g.get? key = some d ∧
        node.FinishedAs (s.entry key).pending d) ∧
    ∀ err, s.finalize = .error err → ∃ before key after,
      s.entries.keys = before ++ key :: after ∧
      (∀ other ∈ before, (s.entry other).Finishable) ∧ ¬(s.entry key).Finishable ∧
      err = .enumUpgrade key (s.entry key).found := by
  intro s
  refine ⟨keys_afterAll ops, s.entries.nodup, entry_afterAll ops, ?_, ?_, ?_, ?_, ?_,
    exists_finalize_iff, ?_, fun err => finalize_eq_error⟩
  · intro key d
    refine ⟨result_attempt s (s.define key d), ?_⟩
    rw [failure_perform_iff]
    exact Keyed.contains_iff s.entries key
  · intro key d
    refine ⟨by rw [perform, result_attempt, fill_touch], ?_⟩
    rw [failure_perform_iff]
    exact Option.isSome_iff_exists
  · intro key d
    rw [perform_eq]
    rfl
  · intro key members
    rw [perform_eq]
    rfl
  · intro op hfailure
    rw [perform_eq, if_pos ((failure_perform_iff s op).mp hfailure)]
    rfl
  · intro g hg
    refine ⟨(finalize_eq_ok hg).2.1, fun key hkey => ?_⟩
    obtain ⟨d, hd⟩ := exists_get?_of_finalize hg ((Keyed.contains_iff _ _).mpr hkey)
    obtain ⟨node, hnode, rfl⟩ := finishEntry_eq_ok ((get?_of_finalize hg key d).mp hd).2
    exact ⟨node, _, hnode, hd, node.finishedAs_withMembers _⟩

end Store

end TypeBridge
