import TypeBridge.Proofs.Declare
import TypeBridge.Proofs.Marks
import TypeBridge.Proofs.Outcome
import TypeBridge.Proofs.Store
import TypeBridge.Proofs.Workspace

/-!
What one step of a conversion does, and what holds after any number of steps. Declaring an object
appends it to the declared objects, emits into the store and leaves marks; a step stops only when
the object has no counterpart or the store refuses what it emits. Whatever was declared so far is in
the set of objects to be converted, no name was declared twice, and store, marks and builtins are
those of the declared objects.
-/

namespace TypeBridge

/-! ### The objects to be converted -/

namespace Workspace

variable {w : Workspace}

/-- The objects that a conversion is to declare: all of the generated packages, what these reference,
and the constants of reference packages that belong to a type which is referenced or declared
itself. Objects that are ignored stay out. -/
inductive Converted (w : Workspace) : Package × Object → Prop
  | generated {d : Package × Object} (hdeclares : w.Declares d.1 d.2)
      (hkept : w.isIgnored d.1.path d.2.name = false) (hmode : d.1.mode = .generate) :
      Converted w d
  | referenced {d owner : Package × Object} (hdeclares : w.Declares d.1 d.2)
      (hkept : w.isIgnored d.1.path d.2.name = false) (howner : Converted w owner)
      (href : nameOf d ∈ w.references owner.1 owner.2) : Converted w d
  | ofMarkedType {p : Package} {c : ConstDecl} {t : ObjectName} {owner : Package × Object}
      (hdeclares : w.Declares p (.const c)) (hkept : w.isIgnored p.path c.name = false)
      (hmode : p.mode = .reference) (htype : c.enumType? = some t) (howner : Converted w owner)
      (href : t ∈ w.references owner.1 owner.2) : Converted w (p, .const c)
  | ofConvertedType {p : Package} {c : ConstDecl} {type : Package × Object}
      (hdeclares : w.Declares p (.const c)) (hkept : w.isIgnored p.path c.name = false)
      (hmode : p.mode = .reference) (htype : c.enumType? = some (nameOf type))
      (hconverted : Converted w type) : Converted w (p, .const c)

theorem Converted.declares {d : Package × Object} (h : w.Converted d) : w.Declares d.1 d.2 := by
  cases h <;> assumption

theorem Converted.kept {d : Package × Object} (h : w.Converted d) :
    w.isIgnored d.1.path d.2.name = false := by
  cases h <;> assumption

/-- What an object emits; one without a counterpart emits nothing. -/
def emission (w : Workspace) (d : Package × Object) : Emission :=
  match (w.declare d.1 d.2).result with
  | .ok e => e
  | .error _ => .nothing

theorem emission_of_ok {d : Package × Object} {e : Emission}
    (h : (w.declare d.1 d.2).result = .ok e) : w.emission d = e := by
  rw [emission, h]

theorem declare_of_emission {d : Package × Object} (h : w.emission d ≠ .nothing) :
    (w.declare d.1 d.2).result = .ok (w.emission d) := by
  cases hresult : (w.declare d.1 d.2).result with
  | error e =>
      rw [emission, hresult] at h
      exact absurd rfl h
  | ok e => rw [emission_of_ok hresult]

theorem declare_of_declaration? {d : Package × Object} {key : String} {node : Declaration}
    (h : (w.emission d).declaration? key = some node) :
    (w.declare d.1 d.2).result = .ok (w.emission d) := by
  refine declare_of_emission fun hnothing => ?_
  rw [hnothing] at h
  cases h

/-- Enum members come from constants, each for the type that the constant announces. -/
theorem const_of_member? {d : Package × Object} {key : String} {m : EnumMember}
    (h : (w.emission d).member? key = some m) :
    ∃ c t, d.2 = .const c ∧ c.enumType? = some t ∧ t ∈ w.references d.1 d.2 ∧
      (w.packages.get? t.package).isSome = true ∧ w.isIgnored t.package t.name = false ∧
      key = (w.identifier t.package t.name).emitted ∧ m = c.member := by
  have hok : (w.declare d.1 d.2).result = .ok (w.emission d) := by
    refine declare_of_emission fun hnothing => ?_
    rw [hnothing] at h
    cases h
  obtain ⟨p, o⟩ := d
  generalize w.emission (p, o) = e at h hok
  cases o with
  | typeName d =>
      cases typeEmission_of_declare hok <;> cases h
  | const c =>
      cases constEmission_of_declare hok with
      | skipped => cases h
      | constant => cases h
      | @member t htype hincluded hignored href =>
          obtain ⟨rfl, rfl⟩ := Emission.member?_member_eq_some.mp h
          exact ⟨c, t, rfl, htype, href, hincluded, hignored, rfl, rfl⟩
  | var d => cases hok; cases h
  | func d => cases hok; cases h

/-- A declaration is emitted under the name of its object. -/
theorem name_of_declaration? {d : Package × Object} {key : String} {node : Declaration}
    (h : (w.emission d).declaration? key = some node) :
    key = (w.identifier d.1.path d.2.name).emitted ∧
      node.form.name? = some (w.identifier d.1.path d.2.name) := by
  have hok := declare_of_declaration? h
  obtain ⟨p, o⟩ := d
  generalize w.emission (p, o) = e at h hok
  cases o with
  | typeName d =>
      cases typeEmission_of_declare hok with
      | skipped => cases h
      | defined _ hname =>
          obtain ⟨rfl, rfl⟩ := Emission.declaration?_define_eq_some.mp h
          exact ⟨rfl, hname⟩
      | filled =>
          obtain ⟨rfl, rfl⟩ := Emission.declaration?_fill_eq_some.mp h
          exact ⟨rfl, rfl⟩
  | const c =>
      cases constEmission_of_declare hok with
      | skipped => cases h
      | member => cases h
      | constant =>
          obtain ⟨rfl, rfl⟩ := Emission.declaration?_define_eq_some.mp h
          exact ⟨rfl, rfl⟩
  | var d => cases hok; cases h
  | func d => cases hok; cases h

end Workspace

/-! ### One step -/

namespace Progress

/-- What doing everything that a mapping asked for changes. -/
structure Heeded (effects : List Effect) (s s' : Progress) : Prop where
  store : s'.store = s.store
  declared : s'.declared = s.declared
  referenced : ∀ x, s'.marks.isReferenced x = true ↔
    s.marks.isReferenced x = true ∨ Effect.reference x ∈ effects
  generated : ∀ x, s'.marks.isGenerated x = s.marks.isGenerated x
  builtins : ∀ b, b ∈ s'.builtins ↔ b ∈ s.builtins ∨ Effect.require b ∈ effects

theorem Heeded.append {effects more : List Effect} {s s' s'' : Progress} (h : Heeded effects s s')
    (hmore : Heeded more s' s'') : Heeded (effects ++ more) s s'' where
  store := hmore.store.trans h.store
  declared := hmore.declared.trans h.declared
  referenced x := by rw [hmore.referenced, h.referenced, List.mem_append, or_assoc]
  generated x := (hmore.generated x).trans (h.generated x)
  builtins b := by rw [hmore.builtins, h.builtins, List.mem_append, or_assoc]

theorem heed_ends (effect : Effect) (s : Progress) : (heed effect s).Ends (Heeded [effect] s) False := by
  cases effect with
  | reference o =>
      refine Outcome.Ends.done ⟨rfl, rfl, fun x => ?_, fun x => ?_, fun b => by simp⟩
      · rw [Marks.isReferenced_reference, List.mem_singleton, Effect.reference.injEq, or_comm]
      · exact Marks.isGenerated_reference _ _ _
  | require b =>
      refine Outcome.Ends.done ?_
      split
      · rename_i hold
        have hmem : b ∈ s.builtins := List.contains_iff_mem.mp hold
        refine ⟨rfl, rfl, fun x => by simp, fun _ => rfl, fun other => ?_⟩
        rw [List.mem_singleton, Effect.require.injEq]
        exact ⟨Or.inl, fun h => h.elim id fun heq => heq ▸ hmem⟩
      · refine ⟨rfl, rfl, fun x => by simp, fun _ => rfl, fun other => ?_⟩
        rw [List.mem_append, List.mem_singleton, List.mem_singleton, Effect.require.injEq]
  | report e =>
      refine ⟨fun _ => ⟨rfl, rfl, fun x => ?_, fun _ => rfl, fun b => ?_⟩, fun hstop => hstop rfl⟩
      · simp [heed]
      · simp [heed]

theorem heedAll_ends (effects : List Effect) (s : Progress) :
    (Outcome.forEach heed effects s).Ends (Heeded effects s) False := by
  refine Outcome.Ends.forEach (fun passed => Heeded passed s) ?_ ?_
  · exact ⟨rfl, rfl, fun x => by simp, fun _ => rfl, fun b => by simp⟩
  · intro passed effect rest s' _ hpassed
    exact (heed_ends effect s').mono fun s'' hs'' => hpassed.append hs''

theorem emit_of_ok {s : Progress} {e : Emission} {store : Store} (h : s.store.emit e = .ok store) :
    s.emit e = .ok { s with store := store } := by
  rw [emit, h]
  rfl

theorem emit_of_error {s : Progress} {e : Emission} {err : Error}
    (h : s.store.emit e = .error err) : s.emit e = .error err := by
  rw [emit, h]
  rfl

end Progress

/-- How declaring an object changes what was built. -/
structure Advances (w : Workspace) (d : Package × Object) (s s' : Progress) : Prop where
  maps : ∃ e, (w.declare d.1 d.2).result = .ok e
  emitted : s.store.emit (w.emission d) = .ok s'.store
  declared : s'.declared = s.declared ++ [d]
  referenced : ∀ x, s'.marks.isReferenced x = true ↔
    s.marks.isReferenced x = true ∨ x = nameOf d ∨ x ∈ w.references d.1 d.2
  generated : ∀ x, s'.marks.isGenerated x = true ↔ s.marks.isGenerated x = true ∨ x = nameOf d
  builtins : ∀ b, b ∈ s'.builtins ↔
    b ∈ s.builtins ∨ Effect.require b ∈ (w.declare d.1 d.2).effects

/-- An object that cannot be declared now: it has no counterpart, or there is something in the way
of what it emits. -/
def Refuses (w : Workspace) (d : Package × Object) (s : Progress) : Prop :=
  (∃ e, (w.declare d.1 d.2).result = .error e) ∨
    ∃ e, s.store.emit (w.emission d) = .error e

namespace Workspace

variable {w : Workspace} {s s' : Progress}

theorem generate_ends (w : Workspace) (p : Package) (o : Object) (s : Progress) :
    (w.generate p o s).Ends (Advances w (p, o) s) (Refuses w (p, o) s) := by
  have hheeded := Progress.heedAll_ends (w.declare p o).effects (s.record p o)
  have happlied : ((s.record p o).apply (w.declare p o)).Ends
      (fun s' => Advances w (p, o) s (s'.markGenerated ⟨p.path, o.name⟩))
      (Refuses w (p, o) s) := by
    refine Outcome.Ends.andThen ⟨hheeded.reached, fun hstop => (hheeded.blamed hstop).elim⟩ ?_
    intro s' hs'
    cases hresult : (w.declare p o).result with
    | error e =>
        refine ⟨fun hdone => ?_, fun _ => Or.inl ⟨e, hresult⟩⟩
        simp only [Except.bind, Outcome.stopped, reduceCtorEq] at hdone
    | ok e =>
        have hemission : w.emission (p, o) = e := emission_of_ok hresult
        have hstore : s'.store = s.store := hs'.store
        cases hemit : s.store.emit e with
        | error err =>
            have herror : s'.emit e = .error err := Progress.emit_of_error (hstore ▸ hemit)
            refine ⟨fun hdone => ?_, fun _ => Or.inr ⟨err, by rw [hemission, hemit]⟩⟩
            simp only [Except.bind, herror, Outcome.stopped, reduceCtorEq] at hdone
        | ok store =>
            have hok : s'.emit e = .ok { s' with store := store } :=
              Progress.emit_of_ok (hstore ▸ hemit)
            simp only [Except.bind, hok]
            refine Outcome.Ends.done ⟨⟨e, hresult⟩, ?_, hs'.declared, fun x => ?_, fun x => ?_, ?_⟩
            · rw [hemission, hemit]
              rfl
            · refine (Marks.isReferenced_generate _ _ x).trans ?_
              rw [hs'.referenced, mem_references_iff]
              exact or_left_comm
            · refine (Marks.isGenerated_generate _ _ x).trans ?_
              rw [hs'.generated]
              exact or_comm
            · exact hs'.builtins
  exact happlied.mapError.andThen fun s' hs' => Outcome.Ends.done hs'

end Workspace

/-! ### Any number of steps -/

/-- All that was declared was to be converted, nothing was declared twice, and store, marks and
builtins are those of the declared objects. A generated object was declared, or there is nothing to
declare. -/
structure Sound (w : Workspace) (s : Progress) : Prop where
  converted : ∀ d ∈ s.declared, w.Converted d
  nodup : (s.declared.map nameOf).Nodup
  maps : ∀ d ∈ s.declared, ∃ e, (w.declare d.1 d.2).result = .ok e
  built : Built (s.declared.map w.emission) s.store
  referenced : ∀ x, s.marks.isReferenced x = true ↔
    ∃ d ∈ s.declared, x = nameOf d ∨ x ∈ w.references d.1 d.2
  generated : ∀ d ∈ s.declared, s.marks.isGenerated (nameOf d) = true
  accounted : ∀ x, s.marks.isGenerated x = true → (∃ d ∈ s.declared, nameOf d = x) ∨
    w.isIgnored x.package x.name = true ∨ w.find? x.package x.name = none
  builtins : ∀ b, b ∈ s.builtins ↔
    ∃ d ∈ s.declared, Effect.require b ∈ (w.declare d.1 d.2).effects

namespace Sound

variable {w : Workspace} {s s' : Progress} {d : Package × Object} {x : ObjectName}

theorem empty (w : Workspace) : Sound w {} where
  converted _ h := nomatch h
  nodup := List.nodup_nil
  maps _ h := nomatch h
  built := .empty
  referenced _ := ⟨fun h => (nomatch h), fun ⟨_, h, _⟩ => (nomatch h)⟩
  generated _ h := nomatch h
  accounted _ h := nomatch h
  builtins _ := ⟨fun h => (nomatch h), fun ⟨_, h, _⟩ => (nomatch h)⟩

theorem advance (h : Sound w s) (hconverted : w.Converted d)
    (hnew : s.marks.isGenerated (nameOf d) = false) (hadvances : Advances w d s s') :
    Sound w s' := by
  have hmem : ∀ e, e ∈ s'.declared ↔ e ∈ s.declared ∨ e = d := by
    intro e
    rw [hadvances.declared, List.mem_append, List.mem_singleton]
  refine ⟨fun e he => ?_, ?_, fun e he => ?_, ?_, fun x => ?_, fun e he => ?_, fun x hx => ?_,
    fun b => ?_⟩
  · rcases (hmem e).mp he with he | rfl
    · exact h.converted e he
    · exact hconverted
  · rw [hadvances.declared, List.map_append, List.nodup_append]
    refine ⟨h.nodup, List.nodup_singleton _, ?_⟩
    rintro x hx y hy rfl
    obtain ⟨e, he, rfl⟩ := List.mem_map.mp hx
    have hsame : nameOf e = nameOf d := List.mem_singleton.mp hy
    have hold := h.generated e he
    rw [hsame, hnew] at hold
    cases hold
  · rcases (hmem e).mp he with he | rfl
    · exact h.maps e he
    · exact hadvances.maps
  · rw [hadvances.declared, List.map_append]
    exact h.built.emit hadvances.emitted
  · rw [hadvances.referenced, h.referenced]
    constructor
    · rintro (⟨e, he, hx⟩ | hx)
      · exact ⟨e, (hmem e).mpr (Or.inl he), hx⟩
      · exact ⟨d, (hmem d).mpr (Or.inr rfl), hx⟩
    · rintro ⟨e, he, hx⟩
      rcases (hmem e).mp he with he | rfl
      · exact Or.inl ⟨e, he, hx⟩
      · exact Or.inr hx
  · rw [hadvances.generated]
    rcases (hmem e).mp he with he | rfl
    · exact Or.inl (h.generated e he)
    · exact Or.inr rfl
  · rcases (hadvances.generated x).mp hx with hx | rfl
    · rcases h.accounted x hx with ⟨e, he, hname⟩ | hskipped
      · exact Or.inl ⟨e, (hmem e).mpr (Or.inl he), hname⟩
      · exact Or.inr hskipped
    · exact Or.inl ⟨d, (hmem d).mpr (Or.inr rfl), rfl⟩
  · rw [hadvances.builtins, h.builtins]
    constructor
    · rintro (⟨e, he, hb⟩ | hb)
      · exact ⟨e, (hmem e).mpr (Or.inl he), hb⟩
      · exact ⟨d, (hmem d).mpr (Or.inr rfl), hb⟩
    · rintro ⟨e, he, hb⟩
      rcases (hmem e).mp he with he | rfl
      · exact Or.inl ⟨e, he, hb⟩
      · exact Or.inr hb

/-- A referenced object that there is nothing to declare for counts as generated. -/
theorem skip (h : Sound w s) (href : s.marks.isReferenced x = true)
    (hnothing : w.isIgnored x.package x.name = true ∨ w.find? x.package x.name = none) :
    Sound w (s.markGenerated x) where
  converted := h.converted
  nodup := h.nodup
  maps := h.maps
  built := h.built
  referenced y := by
    refine Iff.trans ?_ (h.referenced y)
    refine (Marks.isReferenced_generate _ _ _).trans ⟨?_, Or.inr⟩
    rintro (rfl | hy)
    · exact href
    · exact hy
  generated e he := (Marks.isGenerated_generate _ _ _).mpr (Or.inr (h.generated e he))
  accounted y hy := by
    rcases (Marks.isGenerated_generate _ _ _).mp hy with rfl | hy
    · exact Or.inr hnothing
    · exact h.accounted y hy
  builtins := h.builtins

/-- An object that is still waiting was announced by a declared one. -/
theorem exists_announcing (h : Sound w s) (href : s.marks.isReferenced x = true)
    (hnew : s.marks.isGenerated x = false) :
    ∃ d ∈ s.declared, x ∈ w.references d.1 d.2 := by
  obtain ⟨d, hd, rfl | hx⟩ := (h.referenced x).mp href
  · rw [h.generated d hd] at hnew
    cases hnew
  · exact ⟨d, hd, hx⟩

theorem name_ne (h : Sound w s) (hnew : s.marks.isGenerated x = false) :
    ∀ e ∈ s.declared, nameOf e ≠ x := by
  rintro e he rfl
  rw [h.generated e he] at hnew
  cases hnew

end Sound

/-- Some object that is to be converted meets a state in which it cannot be declared. -/
def Workspace.Obstructed (w : Workspace) : Prop :=
  ∃ s d, Sound w s ∧ w.Converted d ∧ (∀ e ∈ s.declared, nameOf e ≠ nameOf d) ∧ Refuses w d s

/-- What the turn of an object leaves behind. -/
inductive Turned (w : Workspace) (p : Package) (o : Object) (s : Progress) : Progress → Prop
  | ignored (h : w.isIgnored p.path o.name = true) : Turned w p o s s
  | unwanted (hmode : p.mode = .reference) (h : Workspace.isWanted s p o = false) : Turned w p o s s
  | known (h : s.marks.isGenerated (nameOf (p, o)) = true) : Turned w p o s s
  | declared {s' : Progress} (hconverted : w.Converted (p, o))
      (hwanted : p.mode = .generate ∨ Workspace.isWanted s p o = true)
      (hnew : s.marks.isGenerated (nameOf (p, o)) = false) (hadvances : Advances w (p, o) s s') :
      Turned w p o s s'

/-- What resolving a reference leaves behind. -/
inductive Resolved (w : Workspace) (x : ObjectName) (s : Progress) : Progress → Prop
  | known (h : s.marks.isGenerated x = true) : Resolved w x s s
  | skipped (h : w.isIgnored x.package x.name = true ∨ w.find? x.package x.name = none) :
      Resolved w x s (s.markGenerated x)
  | declared {d : Package × Object} {s' : Progress} (hconverted : w.Converted d)
      (hfind : w.find? x.package x.name = some d) (hnew : s.marks.isGenerated x = false)
      (hadvances : Advances w d s s') : Resolved w x s s'

namespace Sound

variable {w : Workspace} {s s' : Progress} {p : Package} {o : Object} {x : ObjectName}

/-- An object of a reference package that is wanted now is to be converted. -/
theorem converted_of_isWanted (h : Sound w s) (hdeclares : w.Declares p o)
    (hkept : w.isIgnored p.path o.name = false) (hmode : p.mode = .reference)
    (hwanted : Workspace.isWanted s p o = true)
    (hnew : s.marks.isGenerated (nameOf (p, o)) = false) : w.Converted (p, o) := by
  unfold Workspace.isWanted at hwanted
  rw [Bool.or_eq_true] at hwanted
  rcases hwanted with hmarked | hfollows
  · obtain ⟨owner, howner, href⟩ := h.exists_announcing hmarked hnew
    exact .referenced hdeclares hkept (h.converted owner howner) href
  · cases o with
    | const c =>
        obtain ⟨t, htype, hmarked⟩ := (Option.any_eq_true _ _).mp hfollows
        obtain ⟨owner, howner, rfl | href⟩ := (h.referenced t).mp hmarked
        · exact .ofConvertedType hdeclares hkept hmode htype (h.converted owner howner)
        · exact .ofMarkedType hdeclares hkept hmode htype (h.converted owner howner) href
    | _ => cases hfollows

theorem convertObject_ends (h : Sound w s) (hdeclares : w.Declares p o) :
    (w.convertObject p o s).Ends (Turned w p o s) w.Obstructed := by
  unfold Workspace.convertObject
  split
  · rename_i hignored
    exact Outcome.Ends.done (.ignored hignored)
  · rename_i hkept
    rw [Bool.not_eq_true] at hkept
    split
    · rename_i hunwanted
      exact Outcome.Ends.done (.unwanted hunwanted.1 (Bool.not_eq_true _ ▸ hunwanted.2))
    · rename_i hwanted
      split
      · rename_i hknown
        exact Outcome.Ends.done (.known hknown)
      · rename_i hnew
        rw [Bool.not_eq_true] at hnew
        have hwanted : p.mode = .generate ∨ Workspace.isWanted s p o = true := by
          cases hmode : p.mode with
          | generate => exact Or.inl rfl
          | reference => exact Or.inr (Classical.not_not.mp fun h => hwanted ⟨hmode, h⟩)
        have hconverted : w.Converted (p, o) := by
          cases hmode : p.mode with
          | generate => exact .generated hdeclares hkept hmode
          | reference =>
              refine h.converted_of_isWanted hdeclares hkept hmode (hwanted.resolve_left ?_) hnew
              rw [hmode]
              exact PackageMode.noConfusion
        have hends := w.generate_ends p o s
        exact ⟨fun hdone => .declared hconverted hwanted hnew (hends.reached hdone),
          fun hstop => ⟨s, (p, o), h, hconverted, h.name_ne hnew, hends.blamed hstop⟩⟩

theorem turned (h : Sound w s) (hturned : Turned w p o s s') : Sound w s' := by
  cases hturned with
  | ignored | unwanted | known => exact h
  | declared hconverted _ hnew hadvances => exact h.advance hconverted hnew hadvances

theorem resolveObject_ends (h : Sound w s) (href : s.marks.isReferenced x = true) :
    (w.resolveObject x s).Ends (Resolved w x s) w.Obstructed := by
  unfold Workspace.resolveObject
  split
  · rename_i hknown
    exact Outcome.Ends.done (.known hknown)
  · rename_i hnew
    rw [Bool.not_eq_true] at hnew
    split
    · rename_i hignored
      exact Outcome.Ends.done (.skipped (Or.inl hignored))
    · rename_i hkept
      rw [Bool.not_eq_true] at hkept
      split
      · rename_i p o hfind
        have hname : nameOf (p, o) = x := Workspace.nameOf_of_find? hfind
        obtain ⟨owner, howner, hannounced⟩ := h.exists_announcing href hnew
        have hconverted : w.Converted (p, o) := by
          refine .referenced (Workspace.declares_of_find? hfind) ?_ (h.converted owner howner) ?_
          · rw [← hname] at hkept
            exact hkept
          · rw [hname]
            exact hannounced
        have hends := w.generate_ends p o s
        refine ⟨fun hdone => .declared hconverted hfind hnew (hends.reached hdone),
          fun hstop => ⟨s, (p, o), h, hconverted, ?_, hends.blamed hstop⟩⟩
        rw [hname]
        exact h.name_ne hnew
      · rename_i hmissing
        exact Outcome.Ends.done (.skipped (Or.inr hmissing))

theorem resolved (h : Sound w s) (href : s.marks.isReferenced x = true)
    (hresolved : Resolved w x s s') : Sound w s' := by
  cases hresolved with
  | known => exact h
  | skipped hnothing => exact h.skip href hnothing
  | declared hconverted hfind hnew hadvances =>
      refine h.advance hconverted ?_ hadvances
      rw [Workspace.nameOf_of_find? hfind]
      exact hnew

end Sound

end TypeBridge
