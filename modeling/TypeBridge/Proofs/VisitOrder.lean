import TypeBridge.Proofs.Reordering
import TypeBridge.Proofs.WellKeyed

/-!
Passes and the order in which declarations were created. A pass that changes every declaration by
itself, or with the set of all keys in sight, cannot tell two graphs apart that hold the same
declarations in another order. The pass that lists values can: of two lists that claim one free name
the first one wins. It is independent of the order exactly where no name is contested, and so is
every sequence of passes in which that is the case whenever values are listed.
-/

namespace TypeBridge

/-! ### Graphs with the same declarations -/

namespace Graph

/-- Two graphs with the same declaration under each key, whatever the order of their creation. -/
structure Alike (g g' : Graph) : Prop where
  get? : ∀ key, g'.get? key = g.get? key
  serialized : g'.serialized = g.serialized

variable {g g' : Graph}

theorem Alike.contains_eq (h : g.Alike g') (key : String) : g'.contains key = g.contains key := by
  rw [Bool.eq_iff_iff, contains, contains, Keyed.contains_iff, Keyed.contains_iff]
  exact mem_keys_congr h.get? key

theorem contains_eq_false_iff {key : String} : g.contains key = false ↔ g.get? key = none := by
  rw [← Bool.not_eq_true, contains, Keyed.contains_iff_isSome, Option.not_isSome_iff_eq_none]
  rfl

/-- Graphs are alike when the entries of one are those of the other in some order. -/
theorem alike_iff_perm :
    g.Alike g' ↔ g'.nodes.entries.Perm g.nodes.entries ∧ g'.serialized = g.serialized := by
  constructor
  · intro h
    refine ⟨?_, h.serialized⟩
    rw [List.perm_ext_iff_of_nodup (.of_map _ g'.nodes.nodup) (.of_map _ g.nodes.nodup)]
    rintro ⟨key, d⟩
    have hget : g'.nodes.get? key = g.nodes.get? key := h.get? key
    rw [Keyed.mem_entries_iff, Keyed.mem_entries_iff, hget]
  · rintro ⟨hperm, hserialized⟩
    refine ⟨fun key => Option.ext fun d => ?_, hserialized⟩
    show g'.nodes.get? key = some d ↔ g.nodes.get? key = some d
    rw [← Keyed.mem_entries_iff, ← Keyed.mem_entries_iff, hperm.mem_iff]

/-- The entries of a graph may have been created in any order. -/
theorem exists_alike_of_perm {entries : List (String × Declaration)}
    (h : entries.Perm g.nodes.entries) : ∃ g', g.Alike g' ∧ g'.nodes.entries = entries := by
  have hnodup : (entries.map Prod.fst).Nodup := (h.map Prod.fst).nodup_iff.mpr g.nodes.nodup
  exact ⟨{ g with nodes := ⟨entries, hnodup⟩ }, alike_iff_perm.mpr ⟨h, rfl⟩, rfl⟩

theorem Alike.mapNodes {f f' : String → Declaration → Declaration} (h : g.Alike g')
    (hf : ∀ key d, f' key d = f key d) : (g.mapNodes f).Alike (g'.mapNodes f') where
  get? key := by
    have hfun : f' key = f key := funext (hf key)
    rw [get?_mapNodes, get?_mapNodes, h.get?, hfun]
  serialized := h.serialized

theorem Alike.valueLists_perm (h : g.Alike g') : g'.valueLists.Perm g.valueLists :=
  ((alike_iff_perm.mp h).1.map Prod.snd).filterMap _

/-- What is known depends on which keys there are, not on their order. -/
theorem Alike.repair_eq (h : g.Alike g') (d : Declaration) : d.repair g'.keys = d.repair g.keys := by
  have hknown : d.isKnown g'.keys = d.isKnown g.keys := by
    funext name
    have hname : g'.keys.contains name = g.keys.contains name := h.contains_eq name
    rw [Declaration.isKnown, Declaration.isKnown, hname]
  rw [Declaration.repair, Declaration.repair, hknown]

/-! ### Lists of values -/

theorem lookup_singleton (list : String × Declaration) (key : String) :
    [list].lookup key = if key = list.1 then some list.2 else none := by
  by_cases hkey : key = list.1
  · rw [if_pos hkey, hkey, List.lookup_cons_self]
  · rw [if_neg hkey, List.lookup_cons, beq_eq_false_iff_ne.mpr hkey, List.lookup_nil]

theorem addValueList_ends (list : String × Declaration) (g : Graph) :
    (addValueList list g).Ends (fun g' => g'.serialized = g.serialized ∧
      ∀ key, g'.get? key = (g.get? key).or ([list].lookup key)) False := by
  unfold addValueList
  cases hcontains : g.contains list.1 with
  | true =>
      obtain ⟨d, hd⟩ : ∃ d, g.get? list.1 = some d := Option.isSome_iff_exists.mp
        ((Keyed.contains_iff_isSome g.nodes list.1).mp hcontains)
      refine .of_done rfl ⟨rfl, fun key => ?_⟩
      show g.get? key = _
      rw [lookup_singleton]
      by_cases hkey : key = list.1
      · rw [hkey, hd, Option.some_or]
      · rw [if_neg hkey, Option.or_none]
  | false =>
      have hfree := contains_eq_false_iff.mp hcontains
      simp only [define, hcontains, Bool.false_eq_true, if_false]
      refine .done ⟨rfl, fun key => ?_⟩
      show (g.nodes.insert list.1 list.2).get? key = _
      rw [lookup_singleton, Keyed.get?_insert]
      by_cases hkey : key = list.1
      · rw [if_pos hkey, if_pos hkey, hkey, hfree, Option.none_or]
      · rw [if_neg hkey, if_neg hkey, Option.or_none]
        rfl

/-- Listing values keeps what is there, and a free name gets the first list that claims it. -/
theorem enumLists_ends_first (g : Graph) :
    g.enumLists.Ends (fun g' => g'.serialized = g.serialized ∧
      ∀ key, g'.get? key = (g.get? key).or (g.valueLists.lookup key)) False := by
  refine enumLists_ends_of (fun passed (g' : Graph) => g'.serialized = g.serialized ∧
    ∀ key, g'.get? key = (g.get? key).or (passed.lookup key)) ⟨rfl, fun key => ?_⟩ ?_
  · rw [List.lookup_nil, Option.or_none]
  · rintro passed list rest g₁ - ⟨hserialized, hget⟩
    refine (addValueList_ends list g₁).mono fun g₂ ⟨hserialized', hget'⟩ => ?_
    refine ⟨hserialized'.trans hserialized, fun key => ?_⟩
    rw [hget', hget, Option.or_assoc, ← List.lookup_append]

theorem get?_enumLists (g : Graph) (key : String) :
    g.enumLists.state.get? key = (g.get? key).or (g.valueLists.lookup key) := by
  obtain ⟨g', hresult, -, hget⟩ := g.enumLists_ends_first.exists_result
  rw [(Outcome.result_eq_ok_iff.mp hresult).2, hget]

theorem serialized_enumLists (g : Graph) : g.enumLists.state.serialized = g.serialized := by
  obtain ⟨g', hresult, hserialized, -⟩ := g.enumLists_ends_first.exists_result
  rw [(Outcome.result_eq_ok_iff.mp hresult).2, hserialized]

/-- Two different lists of values claim one name that nothing declares. -/
def Contested (g : Graph) : Prop :=
  ∃ list ∈ g.valueLists, ∃ list' ∈ g.valueLists,
    list.1 = list'.1 ∧ list ≠ list' ∧ g.contains list.1 = false

/-- A lookup finds the same in every order of the entries if only one entry has the key. -/
theorem lookup_eq_of_perm {entries entries' : List (String × Declaration)} {key : String}
    (hperm : entries'.Perm entries)
    (hone : ∀ d d', (key, d) ∈ entries → (key, d') ∈ entries → d = d') :
    entries'.lookup key = entries.lookup key := by
  refine Option.ext fun d => ⟨fun h => ?_, fun h => ?_⟩
  · have hmem := hperm.mem_iff.mp (Keyed.mem_of_lookup_eq_some h)
    cases hlookup : entries.lookup key with
    | none => exact absurd rfl (List.lookup_eq_none_iff.mp hlookup _ hmem |> bne_iff_ne.mp)
    | some d' => rw [hone d d' hmem (Keyed.mem_of_lookup_eq_some hlookup)]
  · have hmem := Keyed.mem_of_lookup_eq_some h
    cases hlookup : entries'.lookup key with
    | none =>
        exact absurd rfl
          (List.lookup_eq_none_iff.mp hlookup _ (hperm.mem_iff.mpr hmem) |> bne_iff_ne.mp)
    | some d' =>
        rw [hone d d' hmem (hperm.mem_iff.mp (Keyed.mem_of_lookup_eq_some hlookup))]

theorem Alike.enumLists (h : g.Alike g') (hfree : ¬g.Contested) :
    g.enumLists.state.Alike g'.enumLists.state where
  get? key := by
    rw [get?_enumLists, get?_enumLists, h.get?]
    cases hget : g.get? key with
    | some d => rw [Option.some_or, Option.some_or]
    | none =>
        rw [Option.none_or, Option.none_or]
        refine lookup_eq_of_perm h.valueLists_perm fun d d' hd hd' => ?_
        by_contra hne
        exact hfree ⟨_, hd, _, hd', rfl, fun heq => hne (Prod.mk.inj heq).2,
          contains_eq_false_iff.mpr hget⟩
  serialized := by rw [serialized_enumLists, serialized_enumLists, h.serialized]

/-- Where a name is contested, moving the loser to the front makes it win. -/
theorem Contested.exists_alike (h : g.Contested) :
    ∃ g', g.Alike g' ∧ ¬g.enumLists.state.Alike g'.enumLists.state := by
  obtain ⟨⟨key, d₁⟩, hd₁, ⟨_, d₂⟩, hd₂, rfl, hne, hcontains⟩ := h
  obtain ⟨d₀, hd₀⟩ : ∃ d₀, g.valueLists.lookup key = some d₀ := by
    rw [← Option.isSome_iff_exists, List.lookup_isSome_iff]
    exact ⟨_, hd₁, beq_self_eq_true key⟩
  obtain ⟨d, hd, hloser⟩ : ∃ d, (key, d) ∈ g.valueLists ∧ d ≠ d₀ := by
    by_cases h₁ : d₁ = d₀
    · exact ⟨d₂, hd₂, fun h₂ => hne (by rw [h₁, h₂])⟩
    · exact ⟨d₁, hd₁, h₁⟩
  have hnone := contains_eq_false_iff.mp hcontains
  obtain ⟨_, hvalue, hlist⟩ := List.mem_filterMap.mp hd
  obtain ⟨entry, hentry, rfl⟩ := List.mem_map.mp hvalue
  obtain ⟨before, after, hsplit⟩ := List.append_of_mem hentry
  have hmoved : (entry :: (before ++ after)).Perm g.nodes.entries :=
    hsplit ▸ List.perm_middle.symm
  obtain ⟨g', halike, hentries⟩ := exists_alike_of_perm hmoved
  refine ⟨g', halike, fun hafter => hloser ?_⟩
  have hfirst : g'.valueLists.lookup key = some d := by
    rw [valueLists, Keyed.values, hentries, List.map_cons, List.filterMap_cons_some hlist,
      List.lookup_cons_self]
  have hget := hafter.get? key
  rw [get?_enumLists, get?_enumLists, halike.get?, hnone, Option.none_or, Option.none_or, hfirst,
    hd₀] at hget
  exact Option.some.inj hget

/-! ### Names with different plurals -/

end Graph

/-- The name that a list of the values of a declaration would have. -/
def Declaration.listName? (d : Declaration) : Option String :=
  if d.form.isStatement then none
  else d.form.name?.map fun name => Identifier.emitted { name with name := pluralOf name.name }

theorem Declaration.listName?_of_valueList? {d : Declaration} {list : String × Declaration}
    (h : d.valueList? = some list) : d.listName? = some list.1 := by
  unfold valueList? at h
  split at h
  · rename_i hform
    split at h
    · cases h
      rw [listName?, hform]
      rfl
    · cases h
  · cases h

namespace Graph

variable {g g' : Graph}

/-- No two declarations would have their values listed under one name. -/
def PluralsDistinct (g : Graph) : Prop :=
  ∀ key key' d d' name, g.get? key = some d → g.get? key' = some d' →
    d.listName? = some name → d'.listName? = some name → key = key'

theorem PluralsDistinct.not_contested (h : g.PluralsDistinct) : ¬g.Contested := by
  rintro ⟨list, hlist, list', hlist', hname, hne, -⟩
  obtain ⟨d, hd, hvalue⟩ := List.mem_filterMap.mp hlist
  obtain ⟨d', hd', hvalue'⟩ := List.mem_filterMap.mp hlist'
  obtain ⟨key, hkey⟩ := Keyed.mem_values_iff.mp hd
  obtain ⟨key', hkey'⟩ := Keyed.mem_values_iff.mp hd'
  cases h key key' d d' list.1 hkey hkey' (Declaration.listName?_of_valueList? hvalue)
    (hname ▸ Declaration.listName?_of_valueList? hvalue')
  cases hkey.symm.trans hkey'
  exact hne (Option.some.inj (hvalue.symm.trans hvalue'))

/-- Passes add nothing but statements, and keep the names of what is there. -/
theorem Grown.pluralsDistinct {added : List String} (h : g.Grown added g')
    (hg : g.PluralsDistinct) : g'.PluralsDistinct := by
  have hold : ∀ key d' name, g'.get? key = some d' → d'.listName? = some name →
      ∃ d, g.get? key = some d ∧ d.listName? = some name := by
    intro key d' name hd' hname
    have hkey : key ∈ g.keys ++ added := h.keys ▸ mem_keys_of_get? hd'
    rcases List.mem_append.mp hkey with hkey | hkey
    · obtain ⟨d, hd⟩ := Keyed.mem_keys_iff.mp hkey
      obtain ⟨_, hkept', hkept⟩ := h.kept key d hd
      cases hd'.symm.trans hkept'
      refine ⟨d, hd, ?_⟩
      rw [Declaration.listName?, Option.ite_none_left_eq_some] at hname ⊢
      exact ⟨fun hstatement => hname.1 (hkept.form.statement hstatement), hkept.form.name ▸ hname.2⟩
    · obtain ⟨_, hfresh, hstatement, -⟩ := h.fresh key hkey
      cases hd'.symm.trans hfresh
      rw [Declaration.listName?, if_pos hstatement] at hname
      cases hname
  intro key key' d d' name hd hd' hname hname'
  obtain ⟨d₀, hd₀, hname₀⟩ := hold key d name hd hname
  obtain ⟨d₀', hd₀', hname₀'⟩ := hold key' d' name hd' hname'
  exact hg key key' d₀ d₀' name hd₀ hd₀' hname₀ hname₀'

/-- Whenever one of the passes lists values, no name is contested. -/
def Uncontested (g : Graph) (passes : List Pass) : Prop :=
  ∀ before after, passes = before ++ .enumLists :: after →
    ¬(g.applyAll (before.map Pass.change)).state.Contested

theorem PluralsDistinct.uncontested (h : g.PluralsDistinct) (passes : List Pass) :
    g.Uncontested passes := by
  intro before _ _
  obtain ⟨g₁, hresult, added, hgrown, -⟩ := (Pass.applyAll_ends before g).exists_result
  rw [(Outcome.result_eq_ok_iff.mp hresult).2]
  exact (hgrown.pluralsDistinct h).not_contested

end Graph

/-! ### Passes -/

namespace Pass

variable {g g' : Graph}

theorem ChangesBy.alike {pass : Pass} {f : Declaration → Declaration} (h : pass.ChangesBy f)
    (hg : g.Alike g') : (pass.run g).state.Alike (pass.run g').state := by
  rw [h g, h g']
  exact hg.mapNodes fun _ _ => rfl

/-- One pass on graphs that are alike. -/
theorem run_alike {pass : Pass} (h : g.Alike g') (hfree : pass = .enumLists → ¬g.Contested) :
    (pass.run g).state.Alike (pass.run g').state := by
  cases pass with
  | exportTypes => exact changesBy_exportTypes.alike h
  | readOnly => exact changesBy_readOnly.alike h
  | enumAsTypes => exact changesBy_enumAsTypes.alike h
  | trimEnumPrefix => exact changesBy_trimEnumPrefix.alike h
  | enumLists => exact h.enumLists (hfree rfl)
  | simplifyOptional => exact changesBy_simplifyOptional.alike h
  | notNullMaps => exact changesBy_notNullMaps.alike h
  | nullUnionSlices => exact changesBy_nullUnionSlices.alike h
  | interfaceToType => exact changesBy_interfaceToType.alike h
  | missingReferencesToAny => exact h.mapNodes fun _ d => h.repair_eq d

theorem state_applyAll_cons (pass : Pass) (rest : List Pass) (g : Graph) :
    (g.applyAll ((pass :: rest).map change)).state =
      ((pass.run g).state.applyAll (rest.map change)).state := by
  have hdone : (g.apply pass.change).failure = none := by
    obtain ⟨_, hresult, -⟩ := (pass.apply_ends g).exists_result
    exact (Outcome.result_eq_ok_iff.mp hresult).1
  simp only [List.map_cons, Graph.applyAll, Outcome.forEach, Outcome.andThen, hdone]
  rfl

/-- Several passes on graphs that are alike. -/
theorem applyAll_alike {passes : List Pass} (h : g.Alike g') (hfree : g.Uncontested passes) :
    (g.applyAll (passes.map change)).state.Alike (g'.applyAll (passes.map change)).state := by
  induction passes generalizing g g' with
  | nil => exact h
  | cons pass rest ih =>
      rw [state_applyAll_cons, state_applyAll_cons]
      refine ih (run_alike h fun hpass => ?_) fun before after hrest => ?_
      · exact hfree [] rest (by rw [hpass, List.nil_append])
      · rw [← state_applyAll_cons]
        exact hfree (pass :: before) after (by rw [hrest, List.cons_append])

/-- A pass cannot tell graphs apart that hold the same declarations, except that the one that lists
values can where a name is contested. Passes in a row come to their end on both graphs, with results
that are alike and render alike, if no name is contested whenever they list values, for which it is
enough that all plurals are distinct to begin with. -/
theorem order_of_creation_unseen (g : Graph) :
    (∀ pass : Pass,
      (∀ g', g.Alike g' →
        (g.apply pass.change).state.Alike (g'.apply pass.change).state) ↔
      (pass = .enumLists → ¬g.Contested)) ∧
    (∀ (passes : List Pass) (g' : Graph), g.Alike g' → g.Uncontested passes →
      ∃ h h', (g.applyAll (passes.map change)).result = .ok h ∧
        (g'.applyAll (passes.map change)).result = .ok h' ∧ h.Alike h' ∧
        ∀ printer order, (h'.render printer order).1 = (h.render printer order).1) ∧
    (g.PluralsDistinct → ∀ passes : List Pass, g.Uncontested passes) := by
  refine ⟨fun pass => ⟨?_, fun hfree g' h => run_alike h hfree⟩, ?_,
    fun h passes => h.uncontested passes⟩
  · rintro hall rfl hcontested
    obtain ⟨g', halike, hdiffers⟩ := hcontested.exists_alike
    exact hdiffers (hall g' halike)
  · intro passes g' halike hfree
    have hafter := applyAll_alike halike hfree
    obtain ⟨h, hresult, -⟩ := (applyAll_ends passes g).exists_result
    obtain ⟨h', hresult', -⟩ := (applyAll_ends passes g').exists_result
    rw [(Outcome.result_eq_ok_iff.mp hresult).2, (Outcome.result_eq_ok_iff.mp hresult').2] at hafter
    exact ⟨h, h', hresult, hresult', hafter, Graph.render_congr hafter.get? hafter.serialized⟩

end Pass

/-! ### Two orders of one graph -/

/-- A union of texts under its name. -/
def textUnion (name : String) (texts : List String) : String × Declaration :=
  (name, .ofAlias { name := name } (.union (texts.map fun text => .literal (.string text))))

/-- A graph of two unions, created in the given order. -/
def twoUnions (first second : String × Declaration) (h : first.1 ≠ second.1) : Graph where
  nodes := ⟨[first, second], by simp [h]⟩

theorem alike_twoUnions {first second : String × Declaration} (h : first.1 ≠ second.1) :
    (twoUnions first second h).Alike (twoUnions second first h.symm) :=
  Graph.alike_iff_perm.mpr ⟨.swap first second [], rfl⟩

theorem pluralsDistinct_twoUnions {first second : String × Declaration} (h : first.1 ≠ second.1)
    (hplural : first.2.listName? ≠ second.2.listName?) :
    (twoUnions first second h).PluralsDistinct := by
  have hentries : ∀ key d, (twoUnions first second h).get? key = some d →
      (key, d) = first ∨ (key, d) = second := by
    intro key d hd
    have hmem : (key, d) ∈ [first, second] := Keyed.mem_of_lookup_eq_some hd
    simpa using hmem
  intro key key' d d' name hd hd' hname hname'
  rcases hentries key d hd with rfl | rfl <;> rcases hentries key' d' hd' with heq | heq <;>
    cases heq
  · rfl
  · exact absurd (hname.trans hname'.symm) hplural
  · exact absurd (hname'.trans hname.symm) hplural
  · rfl

def signalUnion : String × Declaration := textUnion "Signal" ["red", "green"]

def busUnion : String × Declaration := textUnion "Bus" ["red", "blue"]

def buseUnion : String × Declaration := textUnion "Buse" ["left", "right"]

def signalFirst : Graph := twoUnions signalUnion busUnion (by decide)

def signalLast : Graph := twoUnions busUnion signalUnion (by decide)

/-- Listing the values of two unions with different plurals, exporting and repairing. -/
theorem order_of_creation_unseen_signal : ∃ h h',
    (signalFirst.applyAll
      ([.enumLists, .exportTypes, .missingReferencesToAny].map Pass.change)).result = .ok h ∧
    (signalLast.applyAll
      ([.enumLists, .exportTypes, .missingReferencesToAny].map Pass.change)).result = .ok h' ∧
    h.Alike h' ∧ h.keys = ["Signal", "Bus", "Signals", "Buses"] ∧
    h'.keys = ["Bus", "Signal", "Buses", "Signals"] := by
  obtain ⟨-, hruns, hplurals⟩ := Pass.order_of_creation_unseen signalFirst
  obtain ⟨h, h', hresult, hresult', halike, -⟩ := hruns _ signalLast (alike_twoUnions _)
    (hplurals (pluralsDistinct_twoUnions _ (by decide))
      [.enumLists, .exportTypes, .missingReferencesToAny])
  refine ⟨h, h', hresult, hresult', halike, ?_, ?_⟩
  · rw [← (Outcome.result_eq_ok_iff.mp hresult).2]
    decide +kernel
  · rw [← (Outcome.result_eq_ok_iff.mp hresult').2]
    decide +kernel

def busFirst : Graph := twoUnions busUnion buseUnion (by decide)

def buseFirst : Graph := twoUnions buseUnion busUnion (by decide)

/-- A graph that was not rendered yet, by its sorted keys. -/
theorem Graph.render_sorted {g : Graph} {keys : List String} (hfresh : g.serialized = false)
    (hsort : sortKeys g.keys = keys) (printer : Printer) :
    (g.render printer id).1 = (g.renderKeys printer keys).map (printer.header ++ ·) := by
  rw [render, hfresh, id, hsort]
  rfl

/-- `Bus` and `Buse` have one plural, so that the order decides which of them is listed, and with it
the rendered text. -/
theorem order_of_creation_seen : busFirst.Alike buseFirst ∧
    ∃ h h', (busFirst.apply Pass.enumLists.change).result = .ok h ∧
      (buseFirst.apply Pass.enumLists.change).result = .ok h' ∧ ¬h.Alike h' ∧
      (h'.render (Style.printer {}) id).1 ≠ (h.render (Style.printer {}) id).1 := by
  refine ⟨alike_twoUnions _, _, _, rfl, rfl, ?_, ?_⟩
  · intro halike
    have hlist := congrArg (Option.map fun d => (Style.print {} d).toOption) (halike.get? "Buses")
    revert hlist
    decide +kernel
  · have hsorted : Graph.sortKeys ["Bus", "Buse", "Buses"] = ["Bus", "Buse", "Buses"] :=
      List.mergeSort_of_pairwise (by decide +kernel)
    have hkeys : (busFirst.apply Pass.enumLists.change).state.keys = ["Bus", "Buse", "Buses"] := by
      decide +kernel
    have hkeys' : (buseFirst.apply Pass.enumLists.change).state.keys = ["Buse", "Bus", "Buses"] := by
      decide +kernel
    have hsort := (congrArg Graph.sortKeys hkeys).trans hsorted
    have hsort' := (congrArg Graph.sortKeys hkeys').trans
      ((Graph.sortKeys_congr (.swap "Bus" "Buse" ["Buses"])).trans hsorted)
    intro heq
    rw [Graph.render_sorted rfl hsort, Graph.render_sorted rfl hsort'] at heq
    have htext := congrArg Except.toOption heq
    revert htext
    decide +kernel

end TypeBridge
