import TypeBridge.Proofs.Conversion
import TypeBridge.Proofs.Generics

/-!
Conversions come to an end by themselves. Mapping a type jumps to another type at an override, and
resolving references goes on as long as something is waiting; nothing in either of them counts steps.
Both are given here as runs without a limit. A mapping has exactly one run, since an override is not
expanded inside itself, and so has each resolving that a conversion begins, since no object waits
twice. The limit on the rounds is never met, and no conversion reports a cycle.
-/

namespace TypeBridge

/-! ### Expanding overrides -/

/-- What the overrides say about a qualified name while some are being expanded: one that stands for
a type is passed over inside that type. -/
def overrideWhile (w : Workspace) (expanding : List String)
    (expanded : String → SourceType → Mapping MappedType) (key : String) :
    Option (Mapping MappedType) :=
  match w.overrides.get? key with
  | none => none
  | some (.expression e) => some (pure (.plain e))
  | some (.type other) => if key ∈ expanding then none else some (expanded key other)

/-- A run that maps a type while some overrides are being expanded. Each override that is not goes
with a run for the type that it stands for, in which it is being expanded as well. -/
inductive Workspace.Expands (w : Workspace) : List String → SourceType → Mapping MappedType → Prop
  | run {expanding : List String} {t : SourceType}
      (expanded : String → SourceType → Mapping MappedType)
      (h : ∀ key other, w.overrides.get? key = some (.type other) → key ∉ expanding →
        Expands w (key :: expanding) other (expanded key other)) :
      Expands w expanding t (mapWith w (overrideWhile w expanding expanded) t)

namespace Workspace

variable {w : Workspace}

/-- The overrides that are left while some are being expanded. -/
def inForce (w : Workspace) : List String → Keyed TypeOverride
  | [] => w.overrides
  | key :: rest => (w.inForce rest).erase key

theorem get?_inForce (w : Workspace) (expanding : List String) (key : String) :
    (w.inForce expanding).get? key = if key ∈ expanding then none else w.overrides.get? key := by
  induction expanding with
  | nil => rfl
  | cons first rest ih =>
      rw [inForce, Keyed.get?_erase, ih]
      by_cases hfirst : key = first
      · rw [if_pos hfirst, if_pos (List.mem_cons.mpr (Or.inl hfirst))]
      · by_cases hrest : key ∈ rest <;> simp [hfirst, hrest]

/-- Only overrides that stand for types are expanded. -/
def Expandable (w : Workspace) (expanding : List String) : Prop :=
  ∀ key ∈ expanding, ∃ other, w.overrides.get? key = some (.type other)

theorem Expandable.cons {expanding : List String} (h : w.Expandable expanding) {key : String}
    {other : SourceType} (hget : w.overrides.get? key = some (.type other)) :
    w.Expandable (key :: expanding) :=
  List.forall_mem_cons.mpr ⟨⟨other, hget⟩, h⟩

/-- Passing over the overrides that are being expanded is the same as forgetting them. -/
theorem overrideIn_inForce {expanding : List String} (h : w.Expandable expanding) :
    overrideIn w (w.inForce expanding) = overrideWhile w expanding fun key =>
      TypeBridge.mapType w (w.inForce (key :: expanding)) := by
  funext key
  rw [overrideIn, overrideWhile, get?_inForce]
  by_cases hkey : key ∈ expanding
  · obtain ⟨other, hget⟩ := h key hkey
    simp only [if_pos hkey, hget]
  · simp only [if_neg hkey]
    rfl

/-- Every mapping has a run. The induction is on the number of overrides in force, since the run for
the type of an override has one less. -/
theorem expands_inForce {expanding : List String} (h : w.Expandable expanding) (t : SourceType) :
    w.Expands expanding t (TypeBridge.mapType w (w.inForce expanding) t) := by
  induction hsize : (w.inForce expanding).size using Nat.strongRecOn generalizing expanding t with
  | _ size ih =>
      rw [mapType_eq_mapWith, overrideIn_inForce h]
      refine .run _ fun key other hget hkey => ?_
      have hforce : (w.inForce expanding).get? key = some (.type other) := by
        rw [get?_inForce, if_neg hkey, hget]
      exact ih _ (hsize ▸ (w.inForce expanding).length_erase_lt hforce) (h.cons hget) other rfl

/-- A mapping has no other run. -/
theorem Expands.eq_mapType {expanding : List String} {t : SourceType} {m : Mapping MappedType}
    (hrun : w.Expands expanding t m) (h : w.Expandable expanding) :
    m = TypeBridge.mapType w (w.inForce expanding) t := by
  induction hrun with
  | @run expanding t expanded _ ih =>
      rw [mapType_eq_mapWith, overrideIn_inForce h]
      congr 1
      funext key
      unfold overrideWhile
      split
      · rfl
      · rfl
      · rename_i other hget
        split
        · rfl
        · rename_i hkey
          rw [ih key other hget hkey (h.cons hget)]

theorem expands_iff (w : Workspace) (t : SourceType) (m : Mapping MappedType) :
    w.Expands [] t m ↔ m = w.mapType t := by
  have hnone : w.Expandable [] := List.forall_mem_nil _
  constructor
  · intro hrun
    exact hrun.eq_mapType hnone
  · rintro rfl
    exact expands_inForce hnone t

end Workspace

/-! ### Rounds without a limit -/

/-- A run that resolves references in rounds for as long as something is waiting: it is stuck when an
object waits twice, settled when nothing waits, and halted when a round stops. -/
inductive Workspace.Sweeps (w : Workspace) : Sweep → Progress → Outcome Progress → Prop
  | stuck {sweep next : Sweep} {s : Progress} {e : Error}
      (h : s.marks.remaining sweep = (.error e, next)) : Sweeps w sweep s (.stopped s e)
  | settled {sweep next : Sweep} {s : Progress}
      (h : s.marks.remaining sweep = (.ok [], next)) : Sweeps w sweep s (.done s)
  | halted {sweep next : Sweep} {s : Progress} {o : ObjectName} {rest : List ObjectName}
      (h : s.marks.remaining sweep = (.ok (o :: rest), next))
      (hstop : (Outcome.forEach w.resolveObject (o :: rest) s).failure ≠ none) :
      Sweeps w sweep s (Outcome.forEach w.resolveObject (o :: rest) s)
  | again {sweep next : Sweep} {s : Progress} {o : ObjectName} {rest : List ObjectName}
      {later : Outcome Progress} (h : s.marks.remaining sweep = (.ok (o :: rest), next))
      (hdone : (Outcome.forEach w.resolveObject (o :: rest) s).failure = none)
      (hlater : Sweeps w next (Outcome.forEach w.resolveObject (o :: rest) s).state later) :
      Sweeps w sweep s ((Outcome.forEach w.resolveObject (o :: rest) s).andThen fun _ => later)

/-- Everything that a sweep has handed out was generated. -/
def Sweep.Served (sweep : Sweep) (s : Progress) : Prop :=
  ∀ x ∈ sweep.tried, s.marks.isGenerated x = true

namespace Sweep.Served

variable {w : Workspace} {s : Progress} {sweep next : Sweep}

/-- A served sweep hands out all that is waiting. -/
theorem eq_waiting (h : sweep.Served s) {handed : Except Error (List ObjectName)}
    (hrem : s.marks.remaining sweep = (handed, next)) :
    handed = .ok s.marks.waiting ∧ ∀ x ∈ next.tried, x ∈ sweep.tried ∨ x ∈ s.marks.waiting := by
  obtain ⟨next', hnext, htried⟩ := Marks.remaining_of_generated h
  cases hrem.symm.trans hnext
  exact ⟨rfl, htried⟩

/-- After a round that came to its end, the sweep is served, and there are fewer names left. -/
theorem round (h : sweep.Served s) (hsound : Sound w s) {o : ObjectName} {rest : List ObjectName}
    (hrem : s.marks.remaining sweep = (.ok (o :: rest), next))
    (hdone : (Outcome.forEach w.resolveObject (o :: rest) s).failure = none) :
    Sound w (Outcome.forEach w.resolveObject (o :: rest) s).state ∧
      next.Served (Outcome.forEach w.resolveObject (o :: rest) s).state ∧
      (w.missing (Outcome.forEach w.resolveObject (o :: rest) s).state).length <
        (w.missing s).length := by
  obtain ⟨hhanded, htried⟩ := h.eq_waiting hrem
  have hwaiting : o :: rest = s.marks.waiting := Except.ok.inj hhanded
  have hmarked : ∀ x ∈ o :: rest, s.marks.isReferenced x = true := fun x hx =>
    (Marks.mem_waiting_iff.mp (hwaiting ▸ hx)).1
  have hends := hsound.round_ends (I := fun _ => True) (fun _ _ _ _ => trivial) trivial hmarked
  have hround := (hends.reached hdone).1
  have hmissing : o ∈ w.missing s := hsound.mem_missing (hwaiting ▸ List.mem_cons_self)
  refine ⟨hround.sound, fun x hx => ?_, hround.length_missing_lt List.mem_cons_self hmissing⟩
  rcases htried x hx with hx | hx
  · exact hround.isGenerated_mono x (h x hx)
  · exact hround.generated x (hwaiting ▸ hx)

end Sweep.Served

namespace Workspace

variable {w : Workspace} {s : Progress}

/-- With as many rounds as there are names left, the limited rounds are the run without a limit: each
round leaves fewer names. -/
theorem sweeps_resolveWithin (rounds : Nat) {sweep : Sweep} {s : Progress} (hsound : Sound w s)
    (hserved : sweep.Served s) (hrounds : (w.missing s).length ≤ rounds) :
    w.Sweeps sweep s (w.resolveWithin rounds sweep s) := by
  induction rounds generalizing sweep s with
  | zero =>
      obtain ⟨next, hnext, -⟩ := Marks.remaining_of_generated hserved
      rw [hsound.waiting_eq_nil hrounds] at hnext
      rw [resolveWithin, hnext]
      exact .settled hnext
  | succ rounds ih =>
      obtain ⟨next, hnext, -⟩ := Marks.remaining_of_generated hserved
      rw [resolveWithin, hnext]
      cases hwaiting : s.marks.waiting with
      | nil =>
          rw [hwaiting] at hnext
          exact .settled hnext
      | cons o rest =>
          rw [hwaiting] at hnext
          by_cases hdone : (Outcome.forEach w.resolveObject (o :: rest) s).failure = none
          · obtain ⟨hsound', hserved', hless⟩ := hserved.round hsound hnext hdone
            dsimp only
            rw [Outcome.andThen_of_done hdone]
            exact .again hnext hdone (ih hsound' hserved' (by omega))
          · dsimp only
            rw [Outcome.andThen_of_failure hdone]
            exact .halted hnext hdone

/-- Runs without a limit have one outcome. -/
theorem Sweeps.unique {sweep : Sweep} {out out' : Outcome Progress} (h : w.Sweeps sweep s out)
    (h' : w.Sweeps sweep s out') : out = out' := by
  induction h generalizing out' with
  | stuck hrem =>
      cases h' with
      | stuck hrem' => cases hrem.symm.trans hrem'; rfl
      | settled hrem' => cases hrem.symm.trans hrem'
      | halted hrem' => cases hrem.symm.trans hrem'
      | again hrem' => cases hrem.symm.trans hrem'
  | settled hrem =>
      cases h' with
      | stuck hrem' => cases hrem.symm.trans hrem'
      | settled hrem' => rfl
      | halted hrem' => cases hrem.symm.trans hrem'
      | again hrem' => cases hrem.symm.trans hrem'
  | halted hrem hstop =>
      cases h' with
      | stuck hrem' => cases hrem.symm.trans hrem'
      | settled hrem' => cases hrem.symm.trans hrem'
      | halted hrem' => cases hrem.symm.trans hrem'; rfl
      | again hrem' hdone =>
          cases hrem.symm.trans hrem'
          exact absurd hdone hstop
  | again hrem hdone _ ih =>
      cases h' with
      | stuck hrem' => cases hrem.symm.trans hrem'
      | settled hrem' => cases hrem.symm.trans hrem'
      | halted hrem' hstop =>
          cases hrem.symm.trans hrem'
          exact absurd hdone hstop
      | again hrem' _ hlater' =>
          cases hrem.symm.trans hrem'
          rw [ih hlater']

theorem sweeps_iff_of_sound (hsound : Sound w s) (out : Outcome Progress) :
    w.Sweeps {} s out ↔ out = w.resolve s := by
  have hserved : ({} : Sweep).Served s := List.forall_mem_nil _
  have hrun := sweeps_resolveWithin w.roundLimit hsound hserved (w.length_missing_le s)
  constructor
  · intro h
    exact h.unique hrun
  · rintro rfl
    exact hrun

/-- A state at which a conversion begins to resolve references: the packages before are through, and
so are the turns of the objects of one more package. -/
def Resolves (w : Workspace) (s : Progress) : Prop :=
  ∃ passed p rest before, w.packagesInOrder = passed ++ p :: rest ∧
    (Outcome.forEach w.convertPackage passed {}).result = .ok before ∧
    (Outcome.forEach (w.convertObject p) p.objects before).result = .ok s

theorem sound_convertObjects {p : Package} (hp : p ∈ w.packages.values) (hsound : Sound w s) :
    (Outcome.forEach (w.convertObject p) p.objects s).Ends (Sound w) w.Obstructed := by
  refine Outcome.Ends.forEach (fun _ => Sound w) hsound ?_
  intro passed o rest s' hobjects hs'
  have hdeclares : w.Declares p o := ⟨hp, hobjects ▸ List.mem_append_right _ List.mem_cons_self⟩
  exact (hs'.convertObject_ends hdeclares).mono fun s'' hturned => hs'.turned hturned

theorem sound_convertPackage {p : Package} (hp : p ∈ w.packages.values) (hsound : Sound w s) :
    (w.convertPackage p s).Ends (Sound w) w.Obstructed :=
  (sound_convertObjects hp hsound).andThen fun _ hs' =>
    (hs'.resolve_ends (I := fun _ => True) (fun _ _ _ _ => trivial) trivial).mono fun _ h => h.1

theorem sound_convertPackages {passed : List Package} (h : ∀ p ∈ passed, p ∈ w.packages.values) :
    (Outcome.forEach w.convertPackage passed {}).Ends (Sound w) w.Obstructed := by
  refine Outcome.Ends.forEach (fun _ => Sound w) (.empty w) ?_
  intro before p rest s hsplit hs
  exact sound_convertPackage (h p (hsplit ▸ List.mem_append_right _ List.mem_cons_self)) hs

theorem Resolves.sound (h : w.Resolves s) : Sound w s := by
  obtain ⟨passed, p, rest, before, hsplit, hpassed, hobjects⟩ := h
  have hvalues : ∀ q ∈ passed ++ p :: rest, q ∈ w.packages.values := fun q hq =>
    mem_packagesInOrder_iff.mp (hsplit ▸ hq)
  obtain ⟨hdone, rfl⟩ := Outcome.result_eq_ok_iff.mp hpassed
  have hbefore := (sound_convertPackages fun q hq =>
    hvalues q (List.mem_append_left _ hq)).reached hdone
  obtain ⟨hdone, rfl⟩ := Outcome.result_eq_ok_iff.mp hobjects
  exact (sound_convertObjects (hvalues p (List.mem_append_right _ List.mem_cons_self))
    hbefore).reached hdone

end Workspace

/-! ### What stops a conversion -/

/-- At its root, an error does not report a cycle. -/
def Error.NoCycle (e : Error) : Prop := ∀ package name, e.root ≠ .circularGeneration package name

/-- Whatever stops a run, it is no cycle. -/
def Outcome.NoCycle {σ : Type} (o : Outcome σ) : Prop := ∀ e, o.failure = some e → e.NoCycle

namespace Outcome.NoCycle

variable {σ α : Type} {o : Outcome σ}

theorem done (s : σ) : (Outcome.done s).NoCycle := fun _ h => nomatch h

theorem stopped (s : σ) {e : Error} (h : e.NoCycle) : (Outcome.stopped s e).NoCycle := by
  intro e' he'
  cases he'
  exact h

theorem of_ends {Post : σ → Prop} (h : o.Ends Post False) : o.NoCycle := by
  intro e he
  have hstop : o.failure ≠ none := he ▸ Option.some_ne_none e
  exact (h.blamed hstop).elim

/-- To name the object that an error is about does not change its root. -/
theorem mapError (h : o.NoCycle) (package name : String) :
    (o.mapError (.object package name)).NoCycle := by
  intro e he
  obtain ⟨cause, hcause, rfl⟩ := Option.map_eq_some_iff.mp he
  exact h cause hcause

theorem andThen {Mid : σ → Prop} {Fault : Prop} {next : σ → Outcome σ} (h : o.NoCycle)
    (hends : o.Ends Mid Fault) (hnext : ∀ s, Mid s → (next s).NoCycle) :
    (o.andThen next).NoCycle := by
  by_cases hdone : o.failure = none
  · intro e he
    simp only [Outcome.andThen, hdone] at he
    exact hnext _ (hends.reached hdone) e he
  · rw [andThen_of_failure hdone]
    exact h

/-- A loop whose steps keep an invariant and report no cycle in states that satisfy it. -/
theorem forEach {step : α → σ → Outcome σ} {Inv : σ → Prop} {Fault : Prop} {elements : List α}
    (hends : ∀ a ∈ elements, ∀ s, Inv s → (step a s).Ends Inv Fault)
    (hstep : ∀ a ∈ elements, ∀ s, Inv s → (step a s).NoCycle) {s : σ} (hs : Inv s) :
    (Outcome.forEach step elements s).NoCycle := by
  induction elements generalizing s with
  | nil => exact done s
  | cons a rest ih =>
      refine (hstep a List.mem_cons_self s hs).andThen (hends a List.mem_cons_self s hs) fun s' hs' => ?_
      exact ih (fun b hb => hends b (List.mem_cons_of_mem _ hb))
        (fun b hb => hstep b (List.mem_cons_of_mem _ hb)) hs'

end Outcome.NoCycle

namespace Workspace

variable {w : Workspace} {s : Progress}

theorem fitting_noCycle : Fitting (fun _ => True) (fun _ => True) Error.NoCycle where
  keyword _ := trivial
  null := trivial
  array _ _ := trivial
  union _ _ := trivial
  reference _ _ _ := trivial
  simplify params _ := by
    refine ⟨fun _ _ _ _ => trivial, fun e he => ?_⟩
    obtain ⟨name, rfl⟩ := TypeParameter.merge_eq_error he
    exact fun _ _ h => nomatch h
  unsupported _ _ _ _ h := nomatch h
  structTag _ _ _ _ _ h := nomatch h

theorem noCycle_checkEnumType (owner : Package) (named : NamedType) :
    (Mapping.ofExcept (checkEnumType owner named)).Meets (fun _ => True) Error.NoCycle := by
  unfold checkEnumType
  split
  · exact Mapping.Meets.pure trivial
  · exact Mapping.Meets.fail (fitting_noCycle.unsupported _ _)
  · exact Mapping.Meets.fail (fitting_noCycle.unsupported _ _)

theorem noCycle_declareConst (p : Package) (c : ConstDecl) :
    (w.declareConst p c).Meets (fun _ => True) Error.NoCycle := by
  unfold declareConst
  split
  · unfold declareMember
    split
    · exact Mapping.Meets.fail (fitting_noCycle.unsupported _ _)
    · split
      · exact Mapping.Meets.pure trivial
      · split
        · exact Mapping.Meets.pure trivial
        · exact (noCycle_checkEnumType _ _).bind fun _ _ =>
            (Mapping.Meets.ask _).bind fun _ _ => Mapping.Meets.pure trivial
  · exact Mapping.Meets.pure trivial
  · exact Mapping.Meets.fail (fitting_noCycle.unsupported _ _)

/-- An object that has no counterpart is no cycle. -/
theorem noCycle_declare {p : Package} {o : Object} {e : Error}
    (h : (w.declare p o).result = .error e) : e.NoCycle := by
  cases o with
  | typeName d =>
      have huses : ∀ t : SourceType, t.Uses fun _ _ => True := fun _ _ _ _ => trivial
      have hmap : ∀ t : SourceType, t.Uses (fun _ _ => True) →
          (w.mapType t).Meets (MappedType.Has (fun _ => True) fun _ => True) Error.NoCycle :=
        fun _ ht => meets_mapType fitting_noCycle (fun _ _ _ => trivial) (fun _ _ _ => huses _)
          (fun _ _ _ _ => trivial) ht
      exact (meets_declareType fitting_noCycle hmap (fun _ _ => huses _) (huses _)).error e h
  | const c => exact (w.noCycle_declareConst p c).error e h
  | var d => cases h
  | func d => cases h

theorem noCycle_apply (p : Package) (o : Object) (s : Progress) :
    (s.apply (w.declare p o)).NoCycle := by
  have hheeded := Progress.heedAll_ends (w.declare p o).effects s
  refine (Outcome.NoCycle.of_ends hheeded).andThen hheeded fun s' _ => ?_
  cases hresult : (w.declare p o).result with
  | error e => exact .stopped s' (noCycle_declare hresult)
  | ok e =>
      cases hemit : s'.store.emit e with
      | error err =>
          obtain ⟨key, rfl⟩ := Store.exists_duplicate_of_emit hemit
          simp only [Except.bind, Progress.emit_of_error hemit]
          exact .stopped s' fun _ _ h => nomatch h
      | ok store =>
          simp only [Except.bind, Progress.emit_of_ok hemit]
          exact .done _

theorem noCycle_generate (p : Package) (o : Object) (s : Progress) :
    (w.generate p o s).NoCycle :=
  ((w.noCycle_apply p o (s.record p o)).mapError p.path o.name).andThen .any fun _ _ => .done _

theorem noCycle_convertObject (p : Package) (o : Object) (s : Progress) :
    (w.convertObject p o s).NoCycle := by
  unfold convertObject
  split
  · exact .done s
  · split
    · exact .done s
    · split
      · exact .done s
      · exact w.noCycle_generate p o s

theorem noCycle_resolveObject (x : ObjectName) (s : Progress) : (w.resolveObject x s).NoCycle := by
  unfold resolveObject
  split
  · exact .done s
  · split
    · exact .done _
    · split
      · exact w.noCycle_generate _ _ s
      · exact .done _

/-- A run over served sweeps is never stuck, so nothing but an object stops it. -/
theorem Sweeps.noCycle {sweep : Sweep} {out : Outcome Progress} (h : w.Sweeps sweep s out)
    (hsound : Sound w s) (hserved : sweep.Served s) : out.NoCycle := by
  have hround : ∀ (waiting : List ObjectName) (s : Progress),
      (Outcome.forEach w.resolveObject waiting s).NoCycle := fun waiting s =>
    .forEach (fun _ _ _ _ => .any) (fun x _ s _ => w.noCycle_resolveObject x s) trivial
  induction h with
  | stuck hrem => cases (hserved.eq_waiting hrem).1
  | settled => exact .done _
  | halted => exact hround _ _
  | again hrem hdone _ ih =>
      obtain ⟨hsound', hserved', -⟩ := hserved.round hsound hrem hdone
      exact (hround _ _).andThen .any fun _ _ => ih hsound' hserved'

theorem noCycle_resolve (hsound : Sound w s) : (w.resolve s).NoCycle :=
  ((sweeps_iff_of_sound hsound _).mpr rfl).noCycle hsound (List.forall_mem_nil _)

theorem noCycle_convertPackage {p : Package} (hp : p ∈ w.packages.values) (hsound : Sound w s) :
    (w.convertPackage p s).NoCycle := by
  have hobjects : (Outcome.forEach (w.convertObject p) p.objects s).NoCycle :=
    .forEach (fun _ _ _ _ => .any) (fun o _ s _ => w.noCycle_convertObject p o s) trivial
  exact hobjects.andThen (sound_convertObjects hp hsound) fun _ hs' => noCycle_resolve hs'

theorem noCycle_build (w : Workspace) : w.build.NoCycle := by
  have hpackages : (Outcome.forEach w.convertPackage w.packagesInOrder {}).NoCycle :=
    .forEach (fun p hp s hs => sound_convertPackage (mem_packagesInOrder_iff.mp hp) hs)
      (fun p hp s hs => noCycle_convertPackage (mem_packagesInOrder_iff.mp hp) hs) (.empty w)
  exact hpackages.andThen .any fun s _ => .of_ends (supplyAll_ends s.builtins s)

theorem noCycle_convert {e : Error} (h : w.convert.1 = .error e) : e.NoCycle := by
  have hbuild := w.noCycle_build
  cases hfailure : w.build.failure with
  | some e' =>
      rw [convert, Outcome.result, hfailure] at h
      cases h
      exact hbuild e hfailure
  | none =>
      rw [convert, Outcome.result, hfailure] at h
      obtain ⟨key, found, rfl⟩ := Store.exists_enumUpgrade_of_finalize h
      intro package name hcycle
      cases hcycle

/-- A conversion comes to an end by itself and reports no cycle: every mapping has exactly one run
through the overrides, every resolving that begins has exactly one run of rounds, the conversion has
the outcomes of these runs, and no error is a cycle. -/
theorem conversion_ends (w : Workspace) :
    (∀ t m, w.Expands [] t m ↔ m = w.mapType t) ∧
    (∀ s, w.Resolves s → ∀ out, w.Sweeps {} s out ↔ out = w.resolve s) ∧
    ∀ e, w.convert.1 = .error e → ∀ package name, e.root ≠ .circularGeneration package name :=
  ⟨w.expands_iff, fun _ hresolves => sweeps_iff_of_sound hresolves.sound,
    fun _ h => noCycle_convert h⟩

end Workspace

end TypeBridge
