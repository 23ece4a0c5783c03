import Mathlib.Data.List.Forall2
import TypeBridge.Proofs.Agreement
import TypeBridge.Proofs.Outcome

/-!
Conversions in lockstep. Two workspaces run in parallel when their packages and objects come in the
same order and under the same names, and objects in the same place are declared alike, be it with
other words in an error. Step by step the two conversions then report the same events and keep the
same store, marks and builtins; only the objects that they note as declared may differ. They stop with
related errors or give the same graph.
-/

namespace TypeBridge

/-! ### Results that differ in their errors only -/

/-- The same value twice, or two errors of which one may stand for the other. -/
inductive ResultsAlike (E : Error → Error → Prop) {α : Type} :
    Except Error α → Except Error α → Prop
  | ok (a : α) : ResultsAlike E (.ok a) (.ok a)
  | error {e e' : Error} (h : E e e') : ResultsAlike E (.error e) (.error e')

namespace ResultsAlike

variable {E : Error → Error → Prop} {α : Type} {r r' : Except Error α}

theorem refl (hrefl : ∀ e, E e e) (r : Except Error α) : ResultsAlike E r r := by
  cases r with
  | ok a => exact .ok a
  | error e => exact .error (hrefl e)

theorem eq (h : ResultsAlike Eq r r') : r' = r := by
  cases h with
  | ok => rfl
  | error h => rw [h]

/-- Both succeed, with the same value, or neither does. -/
theorem toOption_eq (h : ResultsAlike E r r') : r'.toOption = r.toOption := by
  cases h <;> rfl

end ResultsAlike

/-- Relations of errors that every error has to itself, and that the steps of a conversion keep. -/
structure KeepsErrors (E : Error → Error → Prop) : Prop where
  refl : ∀ e, E e e
  object : ∀ path name e e', E e e' → E (.object path name e) (.object path name e')

theorem keepsErrors_eq : KeepsErrors Eq := ⟨fun _ => rfl, fun _ _ _ _ h => h ▸ rfl⟩

theorem keepsErrors_any : KeepsErrors fun _ _ => True :=
  ⟨fun _ => trivial, fun _ _ _ _ _ => trivial⟩

/-- Two mappings that ask for the same, with results alike. -/
structure Mapping.Alike {α : Type} (E : Error → Error → Prop) (m m' : Mapping α) : Prop where
  effects : m'.effects = m.effects
  result : ResultsAlike E m.result m'.result

namespace Mapping.Alike

variable {E : Error → Error → Prop} {α β : Type} {m m' : Mapping α}

theorem of_eq (hE : KeepsErrors E) (h : m' = m) : Mapping.Alike E m m' :=
  h ▸ ⟨rfl, .refl hE.refl _⟩

theorem fail {e e' : Error} (h : E e e') :
    Mapping.Alike E (Mapping.fail e : Mapping α) (Mapping.fail e') :=
  ⟨rfl, .error h⟩

theorem bind (h : Mapping.Alike E m m') {f f' : α → Mapping β}
    (hf : ∀ a, Mapping.Alike E (f a) (f' a)) : Mapping.Alike E (m >>= f) (m' >>= f') := by
  obtain ⟨effects, result⟩ := m
  obtain ⟨effects', result'⟩ := m'
  obtain ⟨heffects, hresult⟩ := h
  cases heffects
  cases hresult with
  | ok a => exact ⟨congrArg (effects ++ ·) (hf a).effects, (hf a).result⟩
  | error he => exact ⟨rfl, .error he⟩

end Mapping.Alike

namespace Outcome

variable {σ α β : Type} {R : σ → σ → Prop} {E : Error → Error → Prop} {o o' : Outcome σ}

/-- Two runs that end alike, in related states. -/
structure Alike (R : σ → σ → Prop) (E : Error → Error → Prop) (o o' : Outcome σ) : Prop where
  state : R o.state o'.state
  events : o'.events = o.events
  failure : Option.Rel E o.failure o'.failure

namespace Alike

theorem done {s s' : σ} (h : R s s') : Alike R E (Outcome.done s) (Outcome.done s') :=
  ⟨h, rfl, .none⟩

theorem stopped {s s' : σ} (h : R s s') {e e' : Error} (he : E e e') :
    Alike R E (Outcome.stopped s e) (Outcome.stopped s' e') := ⟨h, rfl, .some he⟩

theorem mapError (h : Alike R E o o') {f : Error → Error} (hf : ∀ e e', E e e' → E (f e) (f e')) :
    Alike R E (o.mapError f) (o'.mapError f) := by
  refine ⟨h.state, h.events, ?_⟩
  show Option.Rel E (o.failure.map f) (o'.failure.map f)
  rcases none_or_some_of_rel h.failure with ⟨hdone, hdone'⟩ | ⟨e, e', hstop, hstop', he⟩
  · rw [hdone, hdone']
    exact .none
  · rw [hstop, hstop']
    exact .some (hf e e' he)

theorem andThen (h : Alike R E o o') {next next' : σ → Outcome σ}
    (hnext : ∀ s s', R s s' → Alike R E (next s) (next' s')) :
    Alike R E (o.andThen next) (o'.andThen next') := by
  rcases none_or_some_of_rel h.failure with ⟨hdone, hdone'⟩ | ⟨e, e', hstop, hstop', -⟩
  · have hrest := hnext _ _ h.state
    simp only [Outcome.andThen, hdone, hdone']
    exact ⟨hrest.state, congrArg₂ _ h.events hrest.events, hrest.failure⟩
  · simp only [Outcome.andThen, hstop, hstop']
    exact h

theorem forEach {Q : α → β → Prop} {as : List α} {bs : List β} (hlists : List.Forall₂ Q as bs)
    {step : α → σ → Outcome σ} {step' : β → σ → Outcome σ}
    (hstep : ∀ a b s s', Q a b → R s s' → Alike R E (step a s) (step' b s')) {s s' : σ}
    (h : R s s') : Alike R E (Outcome.forEach step as s) (Outcome.forEach step' bs s') := by
  induction hlists generalizing s s' with
  | nil => exact done h
  | cons hab _ ih => exact (hstep _ _ s s' hab h).andThen fun _ _ => ih

end Alike

end Outcome

/-! ### Objects in parallel -/

namespace Workspace

/-- Objects in the same place of two workspaces: they have the same name, and are declared alike. -/
structure ObjectsAlike (E : Error → Error → Prop) (w w' : Workspace) (d d' : Package × Object) :
    Prop where
  path : d'.1.path = d.1.path
  mode : d'.1.mode = d.1.mode
  name : d'.2.name = d.2.name
  enumType : d'.2.enumType? = d.2.enumType?
  declare : Mapping.Alike E (w.declare d.1 d.2) (w'.declare d'.1 d'.2)

/-- Packages in the same place of two workspaces. -/
structure PackagesAlike (E : Error → Error → Prop) (w w' : Workspace) (p p' : Package) : Prop where
  mode : p'.mode = p.mode
  objects : List.Forall₂ (fun o o' => ObjectsAlike E w w' (p, o) (p', o')) p.objects p'.objects

/-- Two workspaces whose objects come in the same order and are declared alike. -/
structure Parallel (E : Error → Error → Prop) (w w' : Workspace) : Prop where
  packages : List.Forall₂ (PackagesAlike E w w') w.packages.values w'.packages.values
  found : ∀ path name,
    Option.Rel (ObjectsAlike E w w') (w.find? path name) (w'.find? path name)
  ignored : ∀ path name, w'.isIgnored path name = w.isIgnored path name

namespace Parallel

variable {E : Error → Error → Prop} {w w' : Workspace} (h : Parallel E w w')

include h

theorem size_eq : w'.size = w.size := by
  have hobjects : List.Forall₂ (fun _ _ => True) (w.packages.values.flatMap Package.objects)
      (w'.packages.values.flatMap Package.objects) :=
    List.rel_flatMap h.packages fun _ _ hp => hp.objects.imp fun _ _ _ => trivial
  exact hobjects.length_eq.symm

theorem packagesInOrder :
    List.Forall₂ (PackagesAlike E w w') w.packagesInOrder w'.packagesInOrder := by
  have hfilter : ∀ keep : PackageMode → Bool,
      List.Forall₂ (PackagesAlike E w w') (w.packages.values.filter fun p => keep p.mode)
        (w'.packages.values.filter fun p => keep p.mode) := by
    intro keep
    refine List.rel_filter (fun p p' hp => ?_) h.packages
    show keep p.mode = true ↔ keep p'.mode = true
    rw [hp.mode]
  exact List.rel_append (hfilter fun mode => mode = .generate)
    (hfilter fun mode => mode ≠ .generate)

end Parallel

end Workspace

/-! ### Steps in lockstep -/

/-- Two points of conversions with the same store, marks and builtins. -/
structure Progress.Alike (s s' : Progress) : Prop where
  store : s'.store = s.store
  marks : s'.marks = s.marks
  builtins : s'.builtins = s.builtins

namespace Progress.Alike

variable {E : Error → Error → Prop} {s s' : Progress} (h : s.Alike s')

include h

theorem record (d d' : Package × Object) : (s.record d.1 d.2).Alike (s'.record d'.1 d'.2) :=
  ⟨h.store, h.marks, h.builtins⟩

theorem markGenerated (o : ObjectName) : (s.markGenerated o).Alike (s'.markGenerated o) :=
  ⟨h.store, congrArg (Marks.generate · o) h.marks, h.builtins⟩

theorem heed (effect : Effect) :
    Outcome.Alike Progress.Alike E (Progress.heed effect s) (Progress.heed effect s') := by
  cases effect with
  | reference o => exact .done ⟨h.store, congrArg (Marks.reference · o) h.marks, h.builtins⟩
  | require b =>
      refine .done ?_
      rw [h.builtins]
      split
      · exact h
      · exact ⟨h.store, h.marks, rfl⟩
  | report e => exact ⟨h, rfl, .none⟩

theorem isWanted_eq {w w' : Workspace} {d d' : Package × Object}
    (hd : Workspace.ObjectsAlike E w w' d d') :
    Workspace.isWanted s' d'.1 d'.2 = Workspace.isWanted s d.1 d.2 := by
  have hwanted : ∀ (t : Progress) (e : Package × Object), Workspace.isWanted t e.1 e.2 =
      (t.marks.isReferenced ⟨e.1.path, e.2.name⟩ || e.2.enumType?.any t.marks.isReferenced) := by
    intro t e
    obtain ⟨p, o⟩ := e
    cases o <;> rfl
  rw [hwanted, hwanted, h.marks, hd.path, hd.name, hd.enumType]

variable (hE : KeepsErrors E)

include hE

theorem apply {m m' : Mapping Emission} (hm : Mapping.Alike E m m') :
    Outcome.Alike Progress.Alike E (Progress.apply m s) (Progress.apply m' s') := by
  obtain ⟨effects, result⟩ := m
  obtain ⟨effects', result'⟩ := m'
  obtain ⟨heffects, hresult⟩ := hm
  cases heffects
  unfold Progress.apply
  refine (Outcome.Alike.forEach (List.forall₂_same.mpr fun _ _ => rfl) ?_ h).andThen ?_
  · rintro effect - t t' rfl ht
    exact ht.heed effect
  · intro t t' ht
    cases hresult with
    | error he => exact .stopped ht he
    | ok e =>
        simp only [Except.bind, Progress.emit, ht.store]
        cases t.store.emit e with
        | error e => exact .stopped ht (hE.refl e)
        | ok store => exact .done ⟨rfl, ht.marks, ht.builtins⟩

theorem supply (b : Builtin) :
    Outcome.Alike Progress.Alike E (Workspace.supply b s) (Workspace.supply b s') := by
  simp only [Workspace.supply, h.store]
  split
  · exact ⟨h, rfl, .none⟩
  · cases s.store.define b.name b.declaration with
    | error e => exact .stopped h (hE.refl e)
    | ok store => exact .done ⟨rfl, h.marks, h.builtins⟩

end Progress.Alike

namespace Workspace.Parallel

variable {E : Error → Error → Prop} (hE : KeepsErrors E) {w w' : Workspace}
  (h : Parallel E w w') {s s' : Progress}

include hE

omit h in
theorem generate {d d' : Package × Object} (hd : ObjectsAlike E w w' d d') (hs : s.Alike s') :
    Outcome.Alike Progress.Alike E (w.generate d.1 d.2 s) (w'.generate d'.1 d'.2 s') := by
  rw [Workspace.generate, Workspace.generate, hd.path, hd.name]
  exact (((hs.record d d').apply hE hd.declare).mapError (hE.object _ _)).andThen
    fun _ _ ht => .done (ht.markGenerated _)

include h

theorem convertObject {d d' : Package × Object} (hd : ObjectsAlike E w w' d d') (hs : s.Alike s') :
    Outcome.Alike Progress.Alike E (w.convertObject d.1 d.2 s) (w'.convertObject d'.1 d'.2 s') := by
  simp only [Workspace.convertObject, h.ignored, hd.path, hd.name, hd.mode, hs.isWanted_eq hd,
    hs.marks]
  split
  · exact .done hs
  · split
    · exact .done hs
    · split
      · exact .done hs
      · exact generate hE hd hs

theorem resolveObject (o : ObjectName) (hs : s.Alike s') :
    Outcome.Alike Progress.Alike E (w.resolveObject o s) (w'.resolveObject o s') := by
  simp only [Workspace.resolveObject, h.ignored, hs.marks]
  split
  · exact .done hs
  · split
    · exact .done (hs.markGenerated o)
    · rcases none_or_some_of_rel (h.found o.package o.name) with
        ⟨hd, hd'⟩ | ⟨d, d', hd, hd', halike⟩
      · rw [hd, hd']
        exact .done (hs.markGenerated o)
      · rw [hd, hd']
        exact generate hE halike hs

theorem resolveWithin (rounds : Nat) (sweep : Sweep) (hs : s.Alike s') :
    Outcome.Alike Progress.Alike E (w.resolveWithin rounds sweep s)
      (w'.resolveWithin rounds sweep s') := by
  induction rounds generalizing sweep s s' with
  | zero =>
      unfold Workspace.resolveWithin
      rw [hs.marks]
      split
      · exact .stopped hs (hE.refl _)
      · exact .done hs
      · exact .stopped hs (hE.refl _)
  | succ rounds ih =>
      unfold Workspace.resolveWithin
      rw [hs.marks]
      split
      · exact .stopped hs (hE.refl _)
      · exact .done hs
      · rename_i o rest _ _
        refine (Outcome.Alike.forEach (List.forall₂_same.mpr fun _ _ => rfl) ?_ hs).andThen
          fun _ _ => ih _
        rintro x - t t' rfl ht
        exact h.resolveObject hE x ht

theorem convertPackage {p p' : Package} (hp : PackagesAlike E w w' p p') (hs : s.Alike s') :
    Outcome.Alike Progress.Alike E (w.convertPackage p s) (w'.convertPackage p' s') := by
  refine (Outcome.Alike.forEach hp.objects (fun _ _ _ _ => h.convertObject hE) hs).andThen
    fun t t' ht => ?_
  rw [resolve, resolve, roundLimit, roundLimit, h.size_eq]
  exact h.resolveWithin hE _ _ ht

theorem build : Outcome.Alike Progress.Alike E w.build w'.build := by
  have hstart : Progress.Alike {} {} := ⟨rfl, rfl, rfl⟩
  refine (Outcome.Alike.forEach h.packagesInOrder (fun _ _ _ _ => h.convertPackage hE)
    hstart).andThen fun t t' ht => ?_
  rw [ht.builtins]
  refine Outcome.Alike.forEach (List.forall₂_same.mpr fun _ _ => rfl) ?_ ht
  rintro b - t t' rfl ht
  exact ht.supply hE b

/-- Parallel workspaces give the same graph or related errors, and report the same events. -/
theorem convert_alike : ResultsAlike E w.convert.1 w'.convert.1 ∧ w'.convert.2 = w.convert.2 := by
  have hbuild := h.build hE
  refine ⟨?_, hbuild.events⟩
  show ResultsAlike E (w.build.result.bind fun s => s.store.finalize)
    (w'.build.result.bind fun s => s.store.finalize)
  unfold Outcome.result
  rcases none_or_some_of_rel hbuild.failure with ⟨hdone, hdone'⟩ | ⟨e, e', hstop, hstop', he⟩
  · rw [hdone, hdone']
    simp only [Except.bind, hbuild.state.store]
    exact .refl hE.refl _
  · rw [hstop, hstop']
    exact .error he

end Workspace.Parallel

/-- Workspaces in parallel whose objects are declared the same are converted the same. -/
theorem Workspace.Parallel.convert_eq {w w' : Workspace} (h : Parallel Eq w w') :
    w'.convert = w.convert :=
  Prod.ext (h.convert_alike keepsErrors_eq).1.eq (h.convert_alike keepsErrors_eq).2

end TypeBridge
