import TypeBridge.Proofs.Resolution

/-!
Whole conversions. The generated packages are taken first, each object in its turn, and what they
refer to is fetched after each package. When they are done, nothing that a reference package is asked
for is missing except constants, which follow their types in their turn. The builtins that were asked
for are supplied at the end, and the finished graph holds what all these objects emitted.
-/

namespace TypeBridge

/-! ### Generated packages -/

/-- The constants among the declared objects, in the order of their declaration. -/
def Progress.constants (s : Progress) : List (Package × Object) :=
  s.declared.filter fun d => d.2.isConst

theorem Advances.constants_eq {w : Workspace} {d : Package × Object} {s s' : Progress}
    (h : Advances w d s s') : s'.constants = s.constants ++ if d.2.isConst then [d] else [] := by
  rw [Progress.constants, h.declared, List.filter_append]
  cases hconst : d.2.isConst <;> simp [hconst, Progress.constants]

/-- What holds while generated packages are converted, after some objects had their turn: these were
generated, an object that was declared is the first of its name, and constants were declared in their
turn only. -/
structure Early (w : Workspace) (visited : List (Package × Object)) (s : Progress) : Prop where
  sound : Sound w s
  taken : ∀ d ∈ visited, w.isIgnored d.1.path d.2.name = false →
    s.marks.isGenerated (nameOf d) = true
  first : ∀ d ∈ s.declared, w.find? d.1.path d.2.name = some d
  ordered : w.NamesNoConstant → s.constants.Sublist visited

namespace Early

variable {w : Workspace} {visited : List (Package × Object)} {s s' : Progress}

theorem resolved (h : Early w visited s) {x : ObjectName} (href : s.marks.isReferenced x = true)
    (hresolved : Resolved w x s s') : Early w visited s' := by
  have hsound := h.sound.resolved href hresolved
  have htaken : ∀ d ∈ visited, w.isIgnored d.1.path d.2.name = false →
      s'.marks.isGenerated (nameOf d) = true :=
    fun d hd hkept => hresolved.isGenerated_mono (h.taken d hd hkept)
  cases hresolved with
  | known => exact h
  | skipped => exact ⟨hsound, htaken, h.first, h.ordered⟩
  | @declared d s' hconverted hfind hnew hadvances =>
      refine ⟨hsound, htaken, fun e he => ?_, fun hnames => ?_⟩
      · rw [hadvances.declared, List.mem_append, List.mem_singleton] at he
        rcases he with he | rfl
        · exact h.first e he
        · have hname : nameOf e = x := Workspace.nameOf_of_find? hfind
          rw [← hname] at hfind
          exact hfind
      · -- what is waiting was announced, and no constant is
        obtain ⟨owner, howner, hannounced⟩ := h.sound.exists_announcing href hnew
        have hconst := Workspace.isConstant_of_references hnames
          (h.sound.converted owner howner).declares hannounced
        have hother : d.2.isConst = false := by
          obtain ⟨p, o⟩ := d
          cases o with
          | const c =>
              rw [Workspace.isConstant, hfind] at hconst
              cases hconst
          | _ => rfl
        rw [hadvances.constants_eq, hother, if_neg Bool.false_ne_true, List.append_nil]
        exact h.ordered hnames

theorem turned {p : Package} {passed rest : List Object} {o : Object}
    (hobjects : p.objects = passed ++ o :: rest) (hp : p ∈ w.packages.values)
    (hmode : p.mode = .generate) (h : Early w (visited ++ passed.map fun o => (p, o)) s)
    (hturned : Turned w p o s s') : Early w (visited ++ (passed ++ [o]).map fun o => (p, o)) s' := by
  have hsound := h.sound.turned hturned
  rw [List.map_append, ← List.append_assoc, List.map_singleton]
  cases hturned with
  | ignored hignored =>
      refine ⟨hsound, fun d hd hkept => ?_, h.first, fun hnames => ?_⟩
      · rcases List.mem_append.mp hd with hd | hd
        · exact h.taken d hd hkept
        · rw [List.mem_singleton.mp hd, hignored] at hkept
          cases hkept
      · exact (h.ordered hnames).trans (List.sublist_append_left _ _)
  | unwanted hreference =>
      rw [hmode] at hreference
      cases hreference
  | known hknown =>
      refine ⟨hsound, fun d hd hkept => ?_, h.first, fun hnames => ?_⟩
      · rcases List.mem_append.mp hd with hd | hd
        · exact h.taken d hd hkept
        · rw [List.mem_singleton.mp hd]
          exact hknown
      · exact (h.ordered hnames).trans (List.sublist_append_left _ _)
  | declared hconverted _ hnew hadvances =>
      refine ⟨hsound, fun d hd hkept => ?_, fun d hd => ?_, fun hnames => ?_⟩
      · rw [hadvances.generated]
        rcases List.mem_append.mp hd with hd | hd
        · exact Or.inl (h.taken d hd hkept)
        · exact Or.inr (congrArg nameOf (List.mem_singleton.mp hd))
      · rw [hadvances.declared, List.mem_append, List.mem_singleton] at hd
        rcases hd with hd | rfl
        · exact h.first d hd
        · -- a namesake before it would have been generated in its turn
          refine Workspace.find?_of_lookup hp (Package.lookup_of_first hobjects fun other hother hname => ?_)
          have hkept : w.isIgnored p.path other.name = false := hname ▸ hconverted.kept
          have hmem : (p, other) ∈ visited ++ passed.map fun o => (p, o) :=
            List.mem_append_right _ (List.mem_map_of_mem hother)
          have hknown := h.taken (p, other) hmem hkept
          rw [nameOf, hname] at hknown
          rw [nameOf, hknown] at hnew
          cases hnew
      · rw [hadvances.constants_eq]
        refine (h.ordered hnames).append ?_
        split
        · exact List.Sublist.refl _
        · exact List.nil_sublist _

theorem convertPackage_ends {p : Package} (hp : p ∈ w.packages.values)
    (hmode : p.mode = .generate) (h : Early w visited s) :
    (w.convertPackage p s).Ends (fun s' => Early w (visited ++ p.located) s' ∧ Settled s')
      w.Obstructed := by
  refine Outcome.Ends.andThen (Outcome.Ends.forEach
    (fun passed => Early w (visited ++ passed.map fun o => (p, o))) ?_ ?_) fun s' hs' => ?_
  · rw [List.map_nil, List.append_nil]
    exact h
  · intro passed o rest s' hobjects hpassed
    have hdeclares : w.Declares p o := ⟨hp, hobjects ▸ List.mem_append_right _ List.mem_cons_self⟩
    exact (hpassed.sound.convertObject_ends hdeclares).mono fun s'' hs'' =>
      turned hobjects hp hmode hpassed hs''
  · refine (hs'.sound.resolve_ends (fun _ hinv href hstep => hinv.resolved href hstep) hs').mono ?_
    rintro s'' ⟨-, hearly, hsettled⟩
    exact ⟨hearly, hsettled⟩

end Early

/-! ### Reference packages -/

/-- What holds while reference packages are converted, after some objects had their turn. Nothing is
waiting, since only constants of marked types are declared any more; what a type refers to is
declared, and so are the constants of marked types that had their turn. -/
structure Late (w : Workspace) (visited : List (Package × Object)) (s : Progress) : Prop where
  sound : Sound w s
  settled : Settled s
  taken : ∀ d ∈ visited, d.1.mode = .generate → w.isIgnored d.1.path d.2.name = false →
    s.marks.isGenerated (nameOf d) = true
  followed : w.NoConstantAsType → ∀ p c t, (p, .const c) ∈ visited → w.Declares p (.const c) →
    p.mode = .reference → w.isIgnored p.path c.name = false → c.enumType? = some t →
    s.marks.isReferenced t = true → s.marks.isGenerated ⟨p.path, c.name⟩ = true
  closed : ∀ p d, (p, .typeName d) ∈ s.declared → ∀ x ∈ w.references p (.typeName d), ∀ e,
    w.find? x.package x.name = some e → w.isIgnored x.package x.name = false → e ∈ s.declared
  ordered : w.NamesNoConstant → s.constants.Sublist visited

theorem Early.late {w : Workspace} {visited : List (Package × Object)} {s : Progress}
    (h : Early w visited s) (hsettled : Settled s)
    (hmode : ∀ d ∈ visited, d.1.mode = .generate) : Late w visited s where
  sound := h.sound
  settled := hsettled
  taken d hd _ := h.taken d hd
  followed _ p c t hmem _ hreference := by
    have hgenerate : p.mode = .generate := hmode _ hmem
    rw [hreference] at hgenerate
    cases hgenerate
  closed p d hd x hx e hfind hkept := by
    have hmarked : s.marks.isReferenced x = true :=
      (h.sound.referenced x).mpr ⟨_, hd, Or.inr hx⟩
    rcases h.sound.accounted x (hsettled x hmarked) with ⟨e', he', rfl⟩ | hignored | hmissing
    · have hfirst : w.find? (nameOf e').package (nameOf e').name = some e' := h.first e' he'
      rw [hfind] at hfirst
      cases hfirst
      exact he'
    · rw [hignored] at hkept
      cases hkept
    · rw [hmissing] at hfind
      cases hfind
  ordered := h.ordered

namespace Late

variable {w : Workspace} {visited : List (Package × Object)} {s s' : Progress} {p : Package}
  {o : Object}

/-- Only constants of marked types are still wanted. -/
theorem exists_const_of_isWanted (h : Late w visited s) (hwanted : Workspace.isWanted s p o = true)
    (hnew : s.marks.isGenerated (nameOf (p, o)) = false) :
    ∃ c t, o = .const c ∧ c.enumType? = some t ∧ s.marks.isReferenced t = true := by
  unfold Workspace.isWanted at hwanted
  rw [Bool.or_eq_true] at hwanted
  rcases hwanted with hmarked | hfollows
  · have hknown := h.settled _ hmarked
    rw [nameOf, hknown] at hnew
    cases hnew
  · cases o with
    | const c =>
        obtain ⟨t, htype, hmarked⟩ := (Option.any_eq_true _ _).mp hfollows
        exact ⟨c, t, rfl, htype, hmarked⟩
    | _ => cases hfollows

/-- A turn that declares nothing, because of a reason that excuses it. -/
theorem unchanged (h : Late w visited s) (hmode : p.mode = .reference)
    (hexcuse : ∀ c t, o = .const c → w.isIgnored p.path c.name = false → c.enumType? = some t →
      s.marks.isReferenced t = true → s.marks.isGenerated ⟨p.path, c.name⟩ = true) :
    Late w (visited ++ [(p, o)]) s where
  sound := h.sound
  settled := h.settled
  taken d hd hgenerate := by
    rcases List.mem_append.mp hd with hd | hd
    · exact h.taken d hd hgenerate
    · rw [List.mem_singleton.mp hd, hmode] at hgenerate
      cases hgenerate
  followed hapart p' c t hmem hdeclares hmode' hkept htype hmarked := by
    rcases List.mem_append.mp hmem with hmem | hmem
    · exact h.followed hapart p' c t hmem hdeclares hmode' hkept htype hmarked
    · cases List.mem_singleton.mp hmem
      exact hexcuse c t rfl hkept htype hmarked
  closed := h.closed
  ordered hnames := (h.ordered hnames).trans (List.sublist_append_left _ _)

theorem advanced (h : Late w visited s) (hmode : p.mode = .reference) {c : ConstDecl}
    {t : ObjectName} (hconverted : w.Converted (p, .const c)) (htype : c.enumType? = some t)
    (hmarked : s.marks.isReferenced t = true)
    (hnew : s.marks.isGenerated (nameOf (p, .const c)) = false)
    (hadvances : Advances w (p, .const c) s s') : Late w (visited ++ [(p, .const c)]) s' := by
  -- the only new mark is that of the constant itself
  have hmarks : ∀ x, s'.marks.isReferenced x = true →
      s.marks.isReferenced x = true ∨ x = nameOf (p, .const c) := by
    intro x hx
    rcases (hadvances.referenced x).mp hx with hx | rfl | hx
    · exact Or.inl hx
    · exact Or.inr rfl
    · have hown := Workspace.enumType_of_references hx
      rw [htype, Option.some.injEq] at hown
      exact Or.inl (hown ▸ hmarked)
  refine ⟨h.sound.advance hconverted hnew hadvances, fun x hx => ?_, fun d hd hgenerate hkept => ?_,
    fun hapart p' c' t' hmem hdeclares hmode' hkept htype' hmarked' => ?_,
    fun p' d hd x hx e hfind hkept => ?_, fun hnames => ?_⟩
  · rw [hadvances.generated]
    exact (hmarks x hx).imp_left (h.settled x)
  · rw [hadvances.generated]
    rcases List.mem_append.mp hd with hd | hd
    · exact Or.inl (h.taken d hd hgenerate hkept)
    · rw [List.mem_singleton.mp hd, hmode] at hgenerate
      cases hgenerate
  · rw [hadvances.generated]
    rcases List.mem_append.mp hmem with hmem | hmem
    · rcases hmarks t' hmarked' with hold | rfl
      · exact Or.inl (h.followed hapart p' c' t' hmem hdeclares hmode' hkept htype' hold)
      · exact absurd htype' (hapart (p', .const c') (p, .const c) hdeclares hconverted.declares
          hmode' hmode rfl)
    · cases List.mem_singleton.mp hmem
      exact Or.inr rfl
  · rw [hadvances.declared, List.mem_append, List.mem_singleton] at hd ⊢
    rcases hd with hd | heq
    · exact Or.inl (h.closed p' d hd x hx e hfind hkept)
    · cases heq
  · rw [hadvances.constants_eq]
    exact (h.ordered hnames).append (List.Sublist.refl _)

theorem turned (h : Late w visited s) (hmode : p.mode = .reference)
    (hturned : Turned w p o s s') : Late w (visited ++ [(p, o)]) s' := by
  cases hturned with
  | ignored hignored =>
      refine h.unchanged hmode fun c t hconst hkept _ _ => ?_
      rw [hconst, Object.name, hkept] at hignored
      cases hignored
  | unwanted _ hunwanted =>
      refine h.unchanged hmode fun c t hconst _ htype hmarked => ?_
      have hwanted : Workspace.isWanted s p o = true := by
        subst hconst
        exact Bool.or_eq_true_iff.mpr (Or.inr ((Option.any_eq_true _ _).mpr ⟨t, htype, hmarked⟩))
      rw [hunwanted] at hwanted
      cases hwanted
  | known hknown =>
      refine h.unchanged hmode fun c t hconst _ _ _ => ?_
      subst hconst
      exact hknown
  | declared hconverted hwanted hnew hadvances =>
      have hwanted : Workspace.isWanted s p o = true := by
        refine hwanted.resolve_left fun hgenerate => ?_
        rw [hmode] at hgenerate
        cases hgenerate
      obtain ⟨c, t, rfl, htype, hmarked⟩ := h.exists_const_of_isWanted hwanted hnew
      exact h.advanced hmode hconverted htype hmarked hnew hadvances

theorem convertPackage_ends (hp : p ∈ w.packages.values) (hmode : p.mode = .reference)
    (h : Late w visited s) :
    (w.convertPackage p s).Ends (Late w (visited ++ p.located)) w.Obstructed := by
  refine Outcome.Ends.andThen (Outcome.Ends.forEach
    (fun passed => Late w (visited ++ passed.map fun o => (p, o))) ?_ ?_) fun s' hs' => ?_
  · rw [List.map_nil, List.append_nil]
    exact h
  · intro passed o rest s' hobjects hpassed
    have hdeclares : w.Declares p o := ⟨hp, hobjects ▸ List.mem_append_right _ List.mem_cons_self⟩
    refine (hpassed.sound.convertObject_ends hdeclares).mono fun s'' hs'' => ?_
    rw [List.map_append, ← List.append_assoc]
    exact hpassed.turned hmode hs''
  · rw [hs'.settled.resolve_eq]
    exact Outcome.Ends.done hs'

end Late

/-! ### All packages -/

namespace Workspace

variable {w : Workspace}

/-- All objects in the order of their turns. -/
def inOrder (w : Workspace) : List (Package × Object) := w.packagesInOrder.flatMap Package.located

theorem mem_packagesInOrder_iff {p : Package} : p ∈ w.packagesInOrder ↔ p ∈ w.packages.values := by
  rw [packagesInOrder, List.mem_append, List.mem_filter, List.mem_filter, ← and_or_left]
  cases p.mode <;> simp

theorem mem_inOrder_iff {d : Package × Object} : d ∈ w.inOrder ↔ w.Declares d.1 d.2 := by
  rw [← mem_located_iff, inOrder, located, List.mem_flatMap, List.mem_flatMap]
  exact exists_congr fun p => and_congr_left fun _ => mem_packagesInOrder_iff

theorem convertPackages_ends (w : Workspace) :
    (Outcome.forEach w.convertPackage w.packagesInOrder {}).Ends (Late w w.inOrder)
      w.Obstructed := by
  have hearly : (Outcome.forEach w.convertPackage
      (w.packages.values.filter fun p => p.mode = .generate) {}).Ends
        (Late w ((w.packages.values.filter fun p => p.mode = .generate).flatMap Package.located))
        w.Obstructed := by
    refine (Outcome.Ends.forEach
      (fun passed s => Early w (passed.flatMap Package.located) s ∧ Settled s) ?_ ?_).mono ?_
    · refine ⟨⟨.empty w, List.forall_mem_nil _, List.forall_mem_nil _, fun _ => ?_⟩, fun _ hx => ?_⟩
      · exact List.Sublist.refl _
      · cases hx
    · rintro passed p rest s hsplit ⟨hpassed, -⟩
      have hp := List.mem_filter.mp (hsplit ▸ List.mem_append_right passed List.mem_cons_self)
      rw [List.flatMap_append, List.flatMap_singleton]
      exact hpassed.convertPackage_ends hp.1 (of_decide_eq_true hp.2)
    · rintro s ⟨hs, hsettled⟩
      refine hs.late hsettled fun d hd => ?_
      obtain ⟨p, hp, hd⟩ := List.mem_flatMap.mp hd
      obtain ⟨o, -, rfl⟩ := List.mem_map.mp hd
      exact of_decide_eq_true (List.mem_filter.mp hp).2
  rw [inOrder, packagesInOrder, Outcome.forEach_append, List.flatMap_append]
  refine hearly.andThen fun s hs => ?_
  refine Outcome.Ends.forEach (fun passed => Late w ((w.packages.values.filter
    fun p => p.mode = .generate).flatMap Package.located ++ passed.flatMap Package.located)) ?_ ?_
  · rw [List.flatMap_nil, List.append_nil]
    exact hs
  · intro passed p rest s' hsplit hpassed
    have hp := List.mem_filter.mp (hsplit ▸ List.mem_append_right passed List.mem_cons_self)
    have hmode : p.mode = .reference := by
      cases hmode : p.mode with
      | reference => rfl
      | generate => exact absurd hmode (of_decide_eq_true hp.2)
    rw [List.flatMap_append, List.flatMap_singleton, ← List.append_assoc]
    exact hpassed.convertPackage_ends hp.1 hmode

end Workspace

/-! ### Builtins and the finished graph -/

/-- What supplying builtins changes: each gets an entry with its declaration, unless its name is
taken, and all other entries stay. -/
structure Supplied (builtins : List Builtin) (s s' : Progress) : Prop where
  declared : s'.declared = s.declared
  contains : ∀ key, s'.store.contains key = true ↔
    s.store.contains key = true ∨ ∃ b ∈ builtins, b.name = key
  kept : ∀ key, s.store.contains key = true → s'.store.entry key = s.store.entry key
  added : ∀ b ∈ builtins, s.store.contains b.name = false →
    s'.store.entry b.name = { node := some b.declaration }

theorem supply_ends {passed : List Builtin} {s s' : Progress} (h : Supplied passed s s')
    (b : Builtin) : (Workspace.supply b s').Ends (Supplied (passed ++ [b]) s) False := by
  have hmem : ∀ key, (∃ b' ∈ passed ++ [b], b'.name = key) ↔
      (∃ b' ∈ passed, b'.name = key) ∨ b.name = key := by
    intro key
    constructor
    · rintro ⟨b', hb', hname⟩
      rcases List.mem_append.mp hb' with hb' | hb'
      · exact Or.inl ⟨b', hb', hname⟩
      · exact Or.inr (List.mem_singleton.mp hb' ▸ hname)
    · rintro (⟨b', hb', hname⟩ | hname)
      · exact ⟨b', List.mem_append_left _ hb', hname⟩
      · exact ⟨b, List.mem_append_right _ List.mem_cons_self, hname⟩
  unfold Workspace.supply
  split
  · rename_i htaken
    refine ⟨fun _ => ⟨h.declared, fun key => ?_, h.kept, fun b' hb' hfree => ?_⟩,
      fun hstop => hstop rfl⟩
    · rw [h.contains, hmem, ← or_assoc]
      refine (or_iff_left_of_imp fun hkey => ?_).symm
      exact (h.contains key).mp (hkey ▸ htaken)
    · rcases List.mem_append.mp hb' with hb' | hb'
      · exact h.added b' hb' hfree
      · rw [List.mem_singleton.mp hb'] at hfree ⊢
        rcases (h.contains b.name).mp htaken with hold | ⟨b'', hb'', hname⟩
        · rw [hfree] at hold
          cases hold
        · cases b
          cases b''
          exact h.added _ hb'' hfree
  · rename_i hfree
    rw [Bool.not_eq_true] at hfree
    have hdefine : s'.store.define b.name b.declaration =
        .ok ⟨s'.store.entries.insert b.name { node := some b.declaration }⟩ := by
      rw [Store.define, hfree, if_neg Bool.false_ne_true]
    rw [hdefine]
    refine Outcome.Ends.done ⟨h.declared, fun key => ?_, fun key hkey => ?_, fun b' hb' hnew => ?_⟩
    · refine (Store.contains_insert _ _ _ _).trans ?_
      rw [hmem, ← or_assoc, ← h.contains, or_comm, @eq_comm _ key]
    · refine (Store.entry_insert _ _ _ _).trans ?_
      have hne : key ≠ b.name := by
        rintro rfl
        have hold := (h.contains b.name).mpr (Or.inl hkey)
        rw [hfree] at hold
        cases hold
      rw [if_neg hne]
      exact h.kept key hkey
    · refine (Store.entry_insert _ _ _ _).trans ?_
      rw [if_pos (by cases b; cases b'; rfl)]

theorem supplyAll_ends (builtins : List Builtin) (s : Progress) :
    (Outcome.forEach Workspace.supply builtins s).Ends (Supplied builtins s) False := by
  refine Outcome.Ends.forEach (fun passed => Supplied passed s) ?_ ?_
  · exact ⟨rfl, fun key => by simp, fun _ _ => rfl, fun _ hb => nomatch hb⟩
  · intro passed b rest s' _ hpassed
    exact supply_ends hpassed b

/-- A finished graph with the state that all packages left behind: every entry of the store is
finished, and a builtin that was asked for is there unless its name is taken. -/
structure Finished (w : Workspace) (s : Progress) (g : Graph) : Prop where
  late : Late w w.inOrder s
  declared : w.build.state.declared = s.declared
  serialized : g.serialized = false
  node_iff : ∀ key d, g.get? key = some d ↔
    (s.store.contains key = true ∧ Store.finishEntry key (s.store.entry key) = .ok d) ∨
    (s.store.contains key = false ∧ ∃ b ∈ s.builtins, b.name = key ∧ d = b.declaration)
  complete : ∀ key, s.store.contains key = true → ∃ d, g.get? key = some d

/-- What a declared object emits is in the graph, with the members that were queued for it. -/
theorem Finished.get?_eq {w : Workspace} {s : Progress} {g : Graph} (h : Finished w s g)
    {d : Package × Object} (hd : d ∈ s.declared) {key : String} {node : Declaration}
    (hnode : (w.emission d).declaration? key = some node) :
    g.get? key = some (node.withMembers (s.store.entry key).pending) := by
  have hbuilt := h.late.sound.built
  have hemission : w.emission d ∈ s.declared.map w.emission := List.mem_map_of_mem hd
  have hkey : s.store.contains key = true :=
    (hbuilt.contains_iff key).mpr ⟨_, hemission, Emission.key?_of_declaration? hnode⟩
  obtain ⟨target, htarget⟩ := h.complete key hkey
  rw [htarget]
  rcases (h.node_iff key target).mp htarget with ⟨-, hfinish⟩ | ⟨hfree, -⟩
  · obtain ⟨node', hnode', rfl⟩ := Store.finishEntry_eq_ok hfinish
    rw [hbuilt.node_eq hemission hnode] at hnode'
    cases hnode'
    rfl
  · rw [hkey] at hfree
    cases hfree

/-- A declaration of the graph is what a declared object emits, with the members that were queued for
it, or a builtin. -/
theorem Finished.exists_origin {w : Workspace} {s : Progress} {g : Graph} (h : Finished w s g)
    {key : String} {d : Declaration} (hd : g.get? key = some d) :
    (∃ owner ∈ s.declared, ∃ node, (w.emission owner).declaration? key = some node ∧
      d = node.withMembers (s.store.entry key).pending) ∨
    ∃ b : Builtin, b.name = key ∧ d = b.declaration := by
  rcases (h.node_iff key d).mp hd with ⟨-, hfinish⟩ | ⟨-, b, -, hname, hdeclaration⟩
  · obtain ⟨node, hnode, hmembers⟩ := Store.finishEntry_eq_ok hfinish
    obtain ⟨e, he, hemitted⟩ := h.late.sound.built.exists_emission hnode
    obtain ⟨owner, howner, rfl⟩ := List.mem_map.mp he
    exact Or.inl ⟨owner, howner, node, hemitted, hmembers⟩
  · exact Or.inr ⟨b, hname, hdeclaration⟩

namespace Workspace

variable {w : Workspace}

theorem build_ends (w : Workspace) :
    w.build.Ends (fun s' => ∃ s, Late w w.inOrder s ∧ Supplied s.builtins s s') w.Obstructed := by
  refine w.convertPackages_ends.andThen fun s hs => ?_
  have hsupplied := supplyAll_ends s.builtins s
  exact ⟨fun hdone => ⟨s, hs, hsupplied.reached hdone⟩, fun hstop => (hsupplied.blamed hstop).elim⟩

theorem exists_finished {g : Graph} (h : w.convert.1 = .ok g) : ∃ s, Finished w s g := by
  cases hbuilt : w.build.result with
  | error e =>
      rw [convert, hbuilt] at h
      cases h
  | ok s' =>
      rw [convert, hbuilt] at h
      obtain ⟨hdone, rfl⟩ := Outcome.result_eq_ok_iff.mp hbuilt
      obtain ⟨s, hlate, hsupplied⟩ := w.build_ends.reached hdone
      have hfinalize : w.build.state.store.finalize = .ok g := h
      refine ⟨s, hlate, hsupplied.declared, (Store.finalize_eq_ok hfinalize).1,
        fun key d => ?_, fun key hkey => ?_⟩
      · rw [Store.get?_of_finalize hfinalize, hsupplied.contains]
        cases hkey : s.store.contains key with
        | true =>
            rw [hsupplied.kept key hkey]
            simp
        | false =>
            simp only [Bool.false_eq_true, false_or, false_and, true_and]
            constructor
            · rintro ⟨⟨b, hb, rfl⟩, hd⟩
              rw [hsupplied.added b hb hkey] at hd
              cases hd
              exact ⟨b, hb, rfl, rfl⟩
            · rintro ⟨b, hb, rfl, rfl⟩
              rw [hsupplied.added b hb hkey]
              exact ⟨⟨b, hb, rfl⟩, rfl⟩
      · exact Store.exists_get?_of_finalize hfinalize ((hsupplied.contains key).mpr (Or.inl hkey))

/-- What a view of one declaration computes, it computes of a graph that the conversion gives. -/
theorem exists_node_of_view {α : Type} {key : String} (view : Graph → Declaration → α) {a : α}
    (h : (w.convert.1.toOption.bind fun g => (g.get? key).map (view g)) = some a) :
    ∃ g node, w.convert.1 = .ok g ∧ g.get? key = some node ∧ view g node = a := by
  obtain ⟨g, hg, hview⟩ := Option.bind_eq_some_iff.mp h
  obtain ⟨node, hnode, hview⟩ := Option.map_eq_some_iff.mp hview
  cases hresult : w.convert.1 with
  | error e =>
      rw [hresult] at hg
      cases hg
  | ok g' =>
      rw [hresult] at hg
      cases hg
      exact ⟨g, node, rfl, hnode, hview⟩

/-- A conversion succeeds if nothing is in the way of any object and all entries can be finished. -/
theorem exists_convert (hclear : ¬ w.Obstructed)
    (hfinish : ∀ s, Late w w.inOrder s → ∀ key, s.store.contains key = true →
      ∃ d, Store.finishEntry key (s.store.entry key) = .ok d) : ∃ g, w.convert.1 = .ok g := by
  have hdone : w.build.failure = none := by
    by_contra hstop
    exact hclear (w.build_ends.blamed hstop)
  obtain ⟨s, hlate, hsupplied⟩ := w.build_ends.reached hdone
  have hresult : w.build.result = .ok w.build.state := Outcome.result_eq_ok_iff.mpr ⟨hdone, rfl⟩
  obtain ⟨g, hg⟩ : ∃ g, w.build.state.store.finalize = .ok g := by
    refine Store.exists_finalize fun key hkey => ?_
    cases hold : s.store.contains key with
    | true =>
        rw [hsupplied.kept key hold]
        exact hfinish s hlate key hold
    | false =>
        obtain ⟨b, hb, rfl⟩ : ∃ b ∈ s.builtins, b.name = key := by
          refine ((hsupplied.contains key).mp hkey).resolve_left fun hcontains => ?_
          rw [hold] at hcontains
          cases hcontains
        rw [hsupplied.added b hb hold]
        exact ⟨b.declaration, rfl⟩
  exact ⟨g, by rw [convert, hresult]; exact hg⟩

end Workspace

end TypeBridge
