import TypeBridge.Conversion
import TypeBridge.Pass.Forms
import TypeBridge.Proofs.Keyed

/-!
Stores by the history of what was emitted into them. An entry holds the one declaration that was
emitted for its key and the members that were emitted for it, in order, and no key is declared twice.
A finished graph has the same keys: an entry without members keeps its declaration, and an alias with
members becomes the enum of exactly these members.
-/

namespace TypeBridge

namespace Emission

/-- The key that an emission is for. -/
def key? : Emission → Option String
  | .nothing => none
  | .define key _ => some key
  | .fill key _ => some key
  | .member key _ => some key

/-- The declaration that is emitted for a key. -/
def declaration? (key : String) : Emission → Option Declaration
  | .define other d => if other = key then some d else none
  | .fill other d => if other = key then some d else none
  | _ => none

/-- The member that is emitted for a key. -/
def member? (key : String) : Emission → Option EnumMember
  | .member other m => if other = key then some m else none
  | _ => none

@[simp] theorem declaration?_define_eq_some {key other : String} {d node : Declaration} :
    (define other d).declaration? key = some node ↔ other = key ∧ d = node := by
  rw [declaration?, Option.ite_none_right_eq_some, Option.some.injEq]

@[simp] theorem declaration?_fill_eq_some {key other : String} {d node : Declaration} :
    (fill other d).declaration? key = some node ↔ other = key ∧ d = node := by
  rw [declaration?, Option.ite_none_right_eq_some, Option.some.injEq]

@[simp] theorem member?_member_eq_some {key other : String} {m m' : EnumMember} :
    (member other m).member? key = some m' ↔ other = key ∧ m = m' := by
  rw [member?, Option.ite_none_right_eq_some, Option.some.injEq]

theorem eq_member_of_member? {e : Emission} {key : String} {m : EnumMember}
    (h : e.member? key = some m) : e = .member key m := by
  cases e with
  | member other m' =>
      obtain ⟨rfl, rfl⟩ := member?_member_eq_some.mp h
      rfl
  | _ => cases h

theorem key?_of_declaration? {e : Emission} {key : String} {d : Declaration}
    (h : e.declaration? key = some d) : e.key? = some key := by
  cases e with
  | nothing => cases h
  | member other m => cases h
  | define other d' => rw [key?, (declaration?_define_eq_some.mp h).1]
  | fill other d' => rw [key?, (declaration?_fill_eq_some.mp h).1]

theorem declares_or_member {e : Emission} {key : String} (h : e.key? = some key) :
    (∃ d, e.declaration? key = some d) ∨ ∃ m, e.member? key = some m := by
  cases e with
  | nothing => cases h
  | define other d => exact Or.inl ⟨d, declaration?_define_eq_some.mpr ⟨Option.some.inj h, rfl⟩⟩
  | fill other d => exact Or.inl ⟨d, declaration?_fill_eq_some.mpr ⟨Option.some.inj h, rfl⟩⟩
  | member other m => exact Or.inr ⟨m, member?_member_eq_some.mpr ⟨Option.some.inj h, rfl⟩⟩

end Emission

namespace Store

theorem entry_insert (entries : Keyed StoreEntry) (key other : String) (e : StoreEntry) :
    (⟨entries.insert key e⟩ : Store).entry other =
      if other = key then e else (⟨entries⟩ : Store).entry other := by
  rw [entry, Keyed.get?_insert]
  split <;> rfl

theorem contains_insert (entries : Keyed StoreEntry) (key other : String) (e : StoreEntry) :
    (⟨entries.insert key e⟩ : Store).contains other = true ↔
      other = key ∨ (⟨entries⟩ : Store).contains other = true := by
  rw [contains, contains, Keyed.contains_iff_isSome, Keyed.contains_iff_isSome, Keyed.get?_insert]
  by_cases h : other = key <;> simp [h]

theorem entry_of_contains_eq_false {s : Store} {key : String} (h : s.contains key = false) :
    s.entry key = {} := by
  have hnone : s.entries.get? key = none := by
    rw [← Option.not_isSome_iff_eq_none, ← Keyed.contains_iff_isSome]
    exact fun hcontains => Bool.false_ne_true (h.symm.trans hcontains)
  rw [entry, hnone]
  rfl

theorem get?_entries_of_contains {s : Store} {key : String} (h : s.contains key = true) :
    s.entries.get? key = some (s.entry key) := by
  obtain ⟨e, he⟩ := Option.isSome_iff_exists.mp ((Keyed.contains_iff_isSome _ _).mp h)
  rw [entry, he]
  rfl

/-- What one emission does to an entry; nothing overwrites a declaration. -/
theorem entry_emit {s s' : Store} {e : Emission} (h : s.emit e = .ok s') (key : String) :
    s'.entry key = ⟨(s.entry key).node.or (e.declaration? key),
      (s.entry key).pending ++ (e.member? key).toList⟩ := by
  cases e with
  | nothing =>
      cases h
      simp [Emission.declaration?, Emission.member?]
  | define other d =>
      rw [emit, define] at h
      split at h
      · cases h
      · rename_i hnew
        cases h
        have hempty := entry_of_contains_eq_false (Bool.eq_false_iff.mpr hnew)
        rw [entry_insert]
        by_cases hkey : key = other
        · subst hkey
          simp [hempty, Emission.declaration?, Emission.member?]
        · simp [Emission.declaration?, Emission.member?, hkey, Ne.symm hkey]
  | fill other d =>
      rw [emit, fill] at h
      split at h
      · cases h
      · rename_i hnone
        cases h
        rw [entry_insert]
        by_cases hkey : key = other
        · subst hkey
          simp only [Bool.not_eq_true, Option.isSome_eq_false_iff, Option.isNone_iff_eq_none] at hnone
          simp [hnone, Emission.declaration?, Emission.member?]
        · simp [Emission.declaration?, Emission.member?, hkey, Ne.symm hkey]
  | member other m =>
      cases h
      rw [queue, entry_insert]
      by_cases hkey : key = other
      · subst hkey
        simp [Emission.declaration?, Emission.member?]
      · simp [Emission.declaration?, Emission.member?, hkey, Ne.symm hkey]

theorem contains_emit {s s' : Store} {e : Emission} (h : s.emit e = .ok s') (key : String) :
    s'.contains key = true ↔ e.key? = some key ∨ s.contains key = true := by
  cases e with
  | nothing =>
      cases h
      simp [Emission.key?]
  | define other d =>
      rw [emit, define] at h
      split at h
      · cases h
      · cases h
        rw [contains_insert, Emission.key?, Option.some.injEq, eq_comm]
  | fill other d =>
      rw [emit, fill] at h
      split at h
      · cases h
      · cases h
        rw [contains_insert, Emission.key?, Option.some.injEq, eq_comm]
  | member other m =>
      cases h
      rw [queue, contains_insert, Emission.key?, Option.some.injEq, eq_comm]

/-- A declaration is emitted only where none was. -/
theorem node_of_emit {s s' : Store} {e : Emission} (h : s.emit e = .ok s') {key : String}
    {d : Declaration} (hd : e.declaration? key = some d) : (s.entry key).node = none := by
  cases e with
  | nothing => cases hd
  | member other m => cases hd
  | define other d' =>
      obtain ⟨rfl, -⟩ := Emission.declaration?_define_eq_some.mp hd
      rw [emit, define] at h
      split at h
      · cases h
      · rename_i hnew
        rw [entry_of_contains_eq_false (Bool.eq_false_iff.mpr hnew)]
  | fill other d' =>
      obtain ⟨rfl, -⟩ := Emission.declaration?_fill_eq_some.mp hd
      rw [emit, fill] at h
      split at h
      · cases h
      · rename_i hnone
        simpa using hnone

/-- What is in the way of an emission: any entry for a new key, or a declaration where one is to be
filled in. -/
theorem emit_eq_error {s : Store} {e : Emission} {err : Error} (h : s.emit e = .error err) :
    (∃ key d, e = .define key d ∧ s.contains key = true) ∨
      ∃ key d, e = .fill key d ∧ (s.entry key).node.isSome = true := by
  cases e with
  | nothing => cases h
  | member key m => cases h
  | define key d =>
      rw [emit, define] at h
      split at h
      · rename_i hkey
        exact Or.inl ⟨key, d, rfl, hkey⟩
      · cases h
  | fill key d =>
      rw [emit, fill] at h
      split at h
      · rename_i hkey
        exact Or.inr ⟨key, d, rfl, hkey⟩
      · cases h

/-- The only error that emitting knows is a key that is taken. -/
theorem exists_duplicate_of_emit {s : Store} {e : Emission} {err : Error}
    (h : s.emit e = .error err) : ∃ key, err = .duplicateNode key := by
  cases e with
  | nothing => cases h
  | member key m => cases h
  | define key d =>
      rw [emit, define] at h
      split at h
      · cases h
        exact ⟨key, rfl⟩
      · cases h
  | fill key d =>
      rw [emit, fill] at h
      split at h
      · cases h
        exact ⟨key, rfl⟩
      · cases h

end Store

/-- The store that emissions leave behind, one after another. -/
inductive Built : List Emission → Store → Prop
  | empty : Built [] {}
  | emit {emissions : List Emission} {s s' : Store} {e : Emission} (before : Built emissions s)
      (h : s.emit e = .ok s') : Built (emissions ++ [e]) s'

namespace Built

variable {emissions : List Emission} {s : Store}

theorem entry_eq (h : Built emissions s) (key : String) :
    s.entry key = ⟨emissions.findSome? (Emission.declaration? key),
      emissions.filterMap (Emission.member? key)⟩ := by
  induction h with
  | empty => rfl
  | emit before h ih =>
      rw [Store.entry_emit h, ih, List.findSome?_append, List.filterMap_append,
        List.findSome?_singleton, List.filterMap_cons, List.filterMap_nil]
      cases Emission.member? key _ <;> rfl

theorem contains_iff (h : Built emissions s) (key : String) :
    s.contains key = true ↔ ∃ e ∈ emissions, e.key? = some key := by
  induction h with
  | empty => simp [Store.contains, Keyed.contains, Keyed.keys, EmptyCollection.emptyCollection,
      Keyed.empty]
  | emit before h ih =>
      rw [Store.contains_emit h, ih]
      simp only [List.mem_append, List.mem_singleton]
      constructor
      · rintro (hkey | ⟨e, he, hkey⟩)
        · exact ⟨_, Or.inr rfl, hkey⟩
        · exact ⟨e, Or.inl he, hkey⟩
      · rintro ⟨e, he | rfl, hkey⟩
        · exact Or.inr ⟨e, he, hkey⟩
        · exact Or.inl hkey

/-- No key is declared twice. -/
theorem pairwise_declared (h : Built emissions s) :
    emissions.Pairwise fun e e' =>
      ∀ key d d', e.declaration? key = some d → e'.declaration? key ≠ some d' := by
  induction h with
  | empty => exact List.Pairwise.nil
  | @emit emissions s s' e before h ih =>
      refine List.pairwise_append.mpr ⟨ih, List.pairwise_singleton _ _, ?_⟩
      intro earlier hearlier last hlast key d d' hd hd'
      cases List.mem_singleton.mp hlast
      have hnone := Store.node_of_emit h hd'
      rw [before.entry_eq] at hnone
      have hearly := List.findSome?_eq_none_iff.mp hnone earlier hearlier
      rw [hd] at hearly
      cases hearly

/-- The declaration of a key is the one that was emitted for it. -/
theorem node_eq (h : Built emissions s) {e : Emission} (he : e ∈ emissions) {key : String}
    {d : Declaration} (hd : e.declaration? key = some d) : (s.entry key).node = some d := by
  induction h with
  | empty => cases he
  | emit before hemit ih =>
      rw [Store.entry_emit hemit]
      rcases List.mem_append.mp he with he | he
      · rw [ih he]
        rfl
      · cases List.mem_singleton.mp he
        rw [Store.node_of_emit hemit hd, hd]
        rfl

theorem exists_emission (h : Built emissions s) {key : String} {d : Declaration}
    (hd : (s.entry key).node = some d) : ∃ e ∈ emissions, e.declaration? key = some d := by
  rw [h.entry_eq] at hd
  exact List.exists_of_findSome?_eq_some hd

end Built

/-! ### Finished graphs -/

/-- A declaration with members attached: an alias becomes the enum of the members, and an enum gets
more of them. -/
def Declaration.withMembers (d : Declaration) : List EnumMember → Declaration
  | [] => d
  | member :: rest =>
      match d.form with
      | .typeAlias name _ _ => { d with form := .enumeration name (member :: rest) }
      | .enumeration name old => { d with form := .enumeration name (old ++ member :: rest) }
      | _ => d

theorem attachMembers_enumeration (key : String) (d : Declaration) (name : Identifier)
    (old members : List EnumMember) :
    attachMembers key (some { d with form := .enumeration name old }) members =
      .ok (some { d with form := .enumeration name (old ++ members) }) := by
  induction members generalizing old with
  | nil => rw [attachMembers, List.append_nil]
  | cons m rest ih =>
      have hstep := ih (old ++ [m])
      rw [List.append_assoc, List.singleton_append] at hstep
      exact hstep

theorem withMembers_of_attachMembers {key : String} {d : Declaration} {members : List EnumMember}
    {result : Option Declaration} (h : attachMembers key (some d) members = .ok result) :
    result = some (d.withMembers members) := by
  cases members with
  | nil =>
      cases h
      rfl
  | cons m rest =>
      obtain ⟨modifiers, source, comments, form⟩ := d
      rw [Declaration.withMembers]
      cases form with
      | typeAlias name params type =>
          have hrest := attachMembers_enumeration key ⟨modifiers, source, comments,
            .typeAlias name params type⟩ name [m] rest
          exact (Except.ok.inj (hrest.symm.trans h)).symm
      | enumeration name old =>
          have hrest := attachMembers_enumeration key ⟨modifiers, source, comments,
            .enumeration name old⟩ name old (m :: rest)
          exact (Except.ok.inj (hrest.symm.trans h)).symm
      | record name params heritage fields => cases h
      | statement kind bindings => cases h

theorem name?_withMembers (d : Declaration) (members : List EnumMember) :
    (d.withMembers members).form.name? = d.form.name? := by
  cases members with
  | nil => rfl
  | cons m rest =>
      rw [Declaration.withMembers]
      split
      · rename_i hform
        rw [hform]
        rfl
      · rename_i hform
        rw [hform]
        rfl
      · rfl

theorem modifiers_withMembers (d : Declaration) (members : List EnumMember) :
    (d.withMembers members).modifiers = d.modifiers := by
  cases members with
  | nil => rfl
  | cons m rest =>
      rw [Declaration.withMembers]
      split <;> rfl

/-- Attaching members changes nothing or makes an enum. -/
theorem withMembers_eq_or_isEnum (d : Declaration) (members : List EnumMember) :
    d.withMembers members = d ∨ (d.withMembers members).form.isEnum = true := by
  cases members with
  | nil => exact Or.inl rfl
  | cons m rest =>
      rw [Declaration.withMembers]
      split
      · exact Or.inr rfl
      · exact Or.inr rfl
      · exact Or.inl rfl

theorem Form.typeParams_of_isEnum {form : Form} (h : form.isEnum = true) : form.typeParams = [] := by
  cases form with
  | enumeration name members => rfl
  | _ => cases h

/-- A declaration that still has type parameters has no members attached. -/
theorem withMembers_eq_of_typeParams {d : Declaration} {members : List EnumMember}
    {q : TypeParameter} (hq : q ∈ (d.withMembers members).form.typeParams) :
    d.withMembers members = d := by
  refine (withMembers_eq_or_isEnum d members).resolve_right fun henum => ?_
  rw [Form.typeParams_of_isEnum henum] at hq
  cases hq

namespace Store

/-- A finished entry has the declaration of the entry with all its members. -/
theorem finishEntry_eq_ok {key : String} {e : StoreEntry} {d : Declaration}
    (h : finishEntry key e = .ok d) : ∃ node, e.node = some node ∧ d = node.withMembers e.pending := by
  obtain ⟨node, pending⟩ := e
  rw [finishEntry] at h
  cases node with
  | none =>
      cases pending with
      | nil => cases h
      | cons m rest => cases h
  | some node =>
      cases hattach : attachMembers key (some node) pending with
      | error e =>
          rw [hattach] at h
          cases h
      | ok result =>
          have hresult := withMembers_of_attachMembers hattach
          subst hresult
          rw [hattach] at h
          cases h
          exact ⟨node, rfl, rfl⟩

/-- An entry with an alias can be finished, whatever members it has, and any other declaration can
be finished without members. -/
theorem exists_finishEntry (key : String) {e : StoreEntry} {node : Declaration}
    (hnode : e.node = some node)
    (h : e.pending = [] ∨ ∃ name params type, node.form = .typeAlias name params type) :
    ∃ d, finishEntry key e = .ok d := by
  obtain ⟨node', pending⟩ := e
  cases hnode
  cases pending with
  | nil => exact ⟨node, rfl⟩
  | cons m rest =>
      rcases h with h | ⟨name, params, type, hform⟩
      · cases h
      · obtain ⟨modifiers, source, comments, form⟩ := node
        cases hform
        have hrest := attachMembers_enumeration key ⟨modifiers, source, comments,
          .typeAlias name params type⟩ name [m] rest
        refine ⟨⟨modifiers, source, comments, .enumeration name (m :: rest)⟩, ?_⟩
        have hattach : attachMembers key (some ⟨modifiers, source, comments,
            .typeAlias name params type⟩) (m :: rest) =
              .ok (some ⟨modifiers, source, comments, .enumeration name (m :: rest)⟩) := hrest
        rw [finishEntry, hattach]
        rfl

theorem exists_enumUpgrade_of_attachMember {key : String} {node : Option Declaration}
    {m : EnumMember} {err : Error} (h : attachMember key node m = .error err) :
    ∃ found, err = .enumUpgrade key found := by
  unfold attachMember at h
  split at h
  · cases h
    exact ⟨_, rfl⟩
  · split at h
    · cases h
    · cases h
    · cases h
      exact ⟨_, rfl⟩

theorem exists_enumUpgrade_of_attachMembers {key : String} {node : Option Declaration}
    {members : List EnumMember} {err : Error} (h : attachMembers key node members = .error err) :
    ∃ found, err = .enumUpgrade key found := by
  induction members generalizing node with
  | nil => cases h
  | cons m rest ih =>
      rw [attachMembers] at h
      cases hattach : attachMember key node m with
      | error e =>
          rw [hattach] at h
          cases h
          exact exists_enumUpgrade_of_attachMember hattach
      | ok d =>
          rw [hattach] at h
          exact ih h

theorem exists_enumUpgrade_of_finishEntry {key : String} {e : StoreEntry} {err : Error}
    (h : finishEntry key e = .error err) : ∃ found, err = .enumUpgrade key found := by
  rw [finishEntry] at h
  cases hattach : attachMembers key e.node e.pending with
  | error e' =>
      rw [hattach] at h
      cases h
      exact exists_enumUpgrade_of_attachMembers hattach
  | ok result =>
      rw [hattach] at h
      cases result with
      | none =>
          cases h
          exact ⟨_, rfl⟩
      | some d => cases h

theorem exists_enumUpgrade_of_finishEntries {entries : List (String × StoreEntry)} {err : Error}
    (h : finishEntries entries = .error err) : ∃ key found, err = .enumUpgrade key found := by
  induction entries with
  | nil => cases h
  | cons entry rest ih =>
      obtain ⟨key, e⟩ := entry
      rw [finishEntries] at h
      cases hfirst : finishEntry key e with
      | error e' =>
          rw [hfirst] at h
          cases h
          exact ⟨key, exists_enumUpgrade_of_finishEntry hfirst⟩
      | ok d =>
          cases hrest : finishEntries rest with
          | error e' =>
              rw [hfirst, hrest] at h
              cases h
              exact ih hrest
          | ok others =>
              rw [hfirst, hrest] at h
              cases h

/-- The only error that finishing knows is a declaration that takes no members. -/
theorem exists_enumUpgrade_of_finalize {s : Store} {err : Error} (h : s.finalize = .error err) :
    ∃ key found, err = .enumUpgrade key found := by
  rw [finalize] at h
  cases hnodes : finishEntries s.entries.entries with
  | error e =>
      rw [hnodes] at h
      cases h
      exact exists_enumUpgrade_of_finishEntries hnodes
  | ok nodes =>
      rw [hnodes] at h
      cases h

theorem finishEntries_eq_ok {entries : List (String × StoreEntry)}
    {nodes : List (String × Declaration)} (h : finishEntries entries = .ok nodes) :
    nodes.map Prod.fst = entries.map Prod.fst ∧ ∀ key d, (key, d) ∈ nodes ↔
      ∃ e, (key, e) ∈ entries ∧ finishEntry key e = .ok d := by
  induction entries generalizing nodes with
  | nil =>
      cases h
      refine ⟨rfl, fun key d => ⟨fun hmem => ?_, fun ⟨_, hmem, _⟩ => ?_⟩⟩
      · cases hmem
      · cases hmem
  | cons entry rest ih =>
      obtain ⟨first, e⟩ := entry
      rw [finishEntries] at h
      cases hfirst : finishEntry first e with
      | error err =>
          rw [hfirst] at h
          cases h
      | ok d =>
          cases hrest : finishEntries rest with
          | error err =>
              rw [hfirst, hrest] at h
              cases h
          | ok others =>
              rw [hfirst, hrest] at h
              cases h
              obtain ⟨hkeys, hmem⟩ := ih hrest
              refine ⟨by rw [List.map_cons, List.map_cons, hkeys], fun key d' => ?_⟩
              rw [List.mem_cons, hmem]
              constructor
              · rintro (heq | ⟨e', he', hd'⟩)
                · cases heq
                  exact ⟨e, List.mem_cons_self, hfirst⟩
                · exact ⟨e', List.mem_cons_of_mem _ he', hd'⟩
              · rintro ⟨e', he', hd'⟩
                rcases List.mem_cons.mp he' with heq | he'
                · cases heq
                  exact Or.inl (Prod.ext rfl (Except.ok.inj (hd'.symm.trans hfirst)))
                · exact Or.inr ⟨e', he', hd'⟩

theorem exists_finishEntries {entries : List (String × StoreEntry)}
    (h : ∀ key e, (key, e) ∈ entries → ∃ d, finishEntry key e = .ok d) :
    ∃ nodes, finishEntries entries = .ok nodes := by
  induction entries with
  | nil => exact ⟨[], rfl⟩
  | cons entry rest ih =>
      obtain ⟨first, e⟩ := entry
      obtain ⟨d, hd⟩ := h first e List.mem_cons_self
      obtain ⟨nodes, hnodes⟩ := ih fun key e he => h key e (List.mem_cons_of_mem _ he)
      exact ⟨(first, d) :: nodes, by rw [finishEntries, hd, hnodes]; rfl⟩

theorem mem_entries_iff {s : Store} {key : String} {e : StoreEntry} :
    (key, e) ∈ s.entries.entries ↔ s.contains key = true ∧ s.entry key = e := by
  rw [Keyed.mem_entries_iff]
  constructor
  · intro h
    refine ⟨(Keyed.contains_iff_isSome _ _).mpr (by rw [h]; rfl), ?_⟩
    rw [entry, h]
    rfl
  · rintro ⟨hcontains, rfl⟩
    exact get?_entries_of_contains hcontains

/-- A finished graph holds the finished entries under the keys of the store. -/
theorem finalize_eq_ok {s : Store} {g : Graph} (h : s.finalize = .ok g) :
    g.serialized = false ∧ g.nodes.keys = s.entries.keys ∧ ∀ key d,
      (key, d) ∈ g.nodes.entries ↔ ∃ e, (key, e) ∈ s.entries.entries ∧ finishEntry key e = .ok d := by
  rw [finalize] at h
  cases hnodes : finishEntries s.entries.entries with
  | error e =>
      rw [hnodes] at h
      cases h
  | ok nodes =>
      rw [hnodes] at h
      cases h
      obtain ⟨hkeys, hmem⟩ := finishEntries_eq_ok hnodes
      have hnodup : (nodes.map Prod.fst).Nodup := hkeys ▸ s.entries.nodup
      rw [Keyed.keys, Keyed.entries_ofList hnodup]
      exact ⟨rfl, hkeys, hmem⟩

theorem get?_of_finalize {s : Store} {g : Graph} (h : s.finalize = .ok g) (key : String)
    (d : Declaration) :
    g.get? key = some d ↔ s.contains key = true ∧ finishEntry key (s.entry key) = .ok d := by
  rw [Graph.get?, ← Keyed.mem_entries_iff, (finalize_eq_ok h).2.2]
  simp only [mem_entries_iff]
  constructor
  · rintro ⟨e, ⟨hcontains, rfl⟩, hd⟩
    exact ⟨hcontains, hd⟩
  · rintro ⟨hcontains, hd⟩
    exact ⟨s.entry key, ⟨hcontains, rfl⟩, hd⟩

theorem exists_get?_of_finalize {s : Store} {g : Graph} (h : s.finalize = .ok g) {key : String}
    (hkey : s.contains key = true) : ∃ d, g.get? key = some d := by
  refine Keyed.mem_keys_iff.mp ?_
  rw [(finalize_eq_ok h).2.1]
  exact (Keyed.contains_iff _ _).mp hkey

theorem exists_finalize {s : Store}
    (h : ∀ key, s.contains key = true → ∃ d, finishEntry key (s.entry key) = .ok d) :
    ∃ g, s.finalize = .ok g := by
  have hall : ∀ key e, (key, e) ∈ s.entries.entries → ∃ d, finishEntry key e = .ok d := by
    intro key e he
    obtain ⟨hcontains, rfl⟩ := mem_entries_iff.mp he
    exact h key hcontains
  obtain ⟨nodes, hnodes⟩ := exists_finishEntries hall
  exact ⟨_, by rw [finalize, hnodes]; rfl⟩

end Store

end TypeBridge
