import TypeBridge.Proofs.Progress

/-!
Resolving references comes to an end. A round declares or skips everything that was waiting, so no
object waits twice, and each round generates at least one of the finitely many names that can be
marked. The limit on the rounds is therefore never reached: resolving ends with nothing left to
declare, or at an object that cannot be declared.
-/

namespace TypeBridge

/-- Everything that is referenced was generated. -/
def Settled (s : Progress) : Prop :=
  ∀ x, s.marks.isReferenced x = true → s.marks.isGenerated x = true

theorem settled_iff {s : Progress} : Settled s ↔ s.marks.waiting = [] := by
  constructor
  · intro h
    refine List.eq_nil_iff_forall_not_mem.mpr fun x hx => ?_
    obtain ⟨href, hnew⟩ := Marks.mem_waiting_iff.mp hx
    rw [h x href] at hnew
    cases hnew
  · intro h x hx
    by_contra hnew
    have hwaits := Marks.mem_waiting_iff.mpr ⟨hx, Bool.eq_false_iff.mpr hnew⟩
    rw [h] at hwaits
    cases hwaits

namespace Resolved

variable {w : Workspace} {s s' : Progress} {x : ObjectName}

theorem isGenerated_mono (h : Resolved w x s s') {y : ObjectName}
    (hy : s.marks.isGenerated y = true) : s'.marks.isGenerated y = true := by
  cases h with
  | known => exact hy
  | skipped => exact (Marks.isGenerated_generate _ _ _).mpr (Or.inr hy)
  | declared _ _ _ hadvances => exact (hadvances.generated y).mpr (Or.inl hy)

theorem isReferenced_mono (h : Resolved w x s s') {y : ObjectName}
    (hy : s.marks.isReferenced y = true) : s'.marks.isReferenced y = true := by
  cases h with
  | known => exact hy
  | skipped => exact (Marks.isReferenced_generate _ _ _).mpr (Or.inr hy)
  | declared _ _ _ hadvances => exact (hadvances.referenced y).mpr (Or.inl hy)

theorem isGenerated_self (h : Resolved w x s s') : s'.marks.isGenerated x = true := by
  cases h with
  | known h => exact h
  | skipped => exact (Marks.isGenerated_generate _ _ _).mpr (Or.inl rfl)
  | declared _ hfind _ hadvances =>
      exact (hadvances.generated x).mpr (Or.inr (Workspace.nameOf_of_find? hfind).symm)

end Resolved

namespace Workspace

variable {w : Workspace}

theorem length_located (w : Workspace) : w.located.length = w.size := by
  simp [located, size, Package.located, List.length_flatMap]

/-- Every name that may ever be marked: those of all objects and those of the types of constants. -/
def markable (w : Workspace) : List ObjectName :=
  w.located.map nameOf ++ w.located.filterMap fun d => d.2.enumType?

/-- The names that could still be generated. -/
def missing (w : Workspace) (s : Progress) : List ObjectName :=
  w.markable.filter fun x => !s.marks.isGenerated x

theorem length_markable_le (w : Workspace) : w.markable.length ≤ w.roundLimit := by
  have htypes : (w.located.filterMap fun d => d.2.enumType?).length ≤ w.located.length :=
    List.length_filterMap_le _ _
  rw [markable, List.length_append, List.length_map, roundLimit, ← length_located]
  omega

theorem length_missing_le (w : Workspace) (s : Progress) : (w.missing s).length ≤ w.roundLimit :=
  calc (w.missing s).length ≤ w.markable.length := List.length_filter_le _ _
    _ ≤ w.roundLimit := w.length_markable_le

end Workspace

/-- What a round has done when some of its objects are through. -/
structure Round (w : Workspace) (s : Progress) (passed : List ObjectName) (s' : Progress) : Prop where
  sound : Sound w s'
  isReferenced_mono : ∀ x, s.marks.isReferenced x = true → s'.marks.isReferenced x = true
  isGenerated_mono : ∀ x, s.marks.isGenerated x = true → s'.marks.isGenerated x = true
  generated : ∀ x ∈ passed, s'.marks.isGenerated x = true

theorem Round.resolved {w : Workspace} {s s' s'' : Progress} {passed : List ObjectName}
    {x : ObjectName} (h : Round w s passed s') (hx : s'.marks.isReferenced x = true)
    (hresolved : Resolved w x s' s'') : Round w s (passed ++ [x]) s'' where
  sound := h.sound.resolved hx hresolved
  isReferenced_mono y hy := hresolved.isReferenced_mono (h.isReferenced_mono y hy)
  isGenerated_mono y hy := hresolved.isGenerated_mono (h.isGenerated_mono y hy)
  generated y hy := by
    rcases List.mem_append.mp hy with hy | hy
    · exact hresolved.isGenerated_mono (h.generated y hy)
    · rw [List.mem_singleton.mp hy]
      exact hresolved.isGenerated_self

/-- A round leaves fewer names to generate. -/
theorem Round.length_missing_lt {w : Workspace} {s s' : Progress} {passed : List ObjectName}
    (h : Round w s passed s') {x : ObjectName} (hx : x ∈ passed) (hmissing : x ∈ w.missing s) :
    (w.missing s').length < (w.missing s).length := by
  have hagain : w.missing s' = (w.missing s).filter fun y => !s'.marks.isGenerated y := by
    rw [Workspace.missing, Workspace.missing, List.filter_filter]
    refine List.filter_congr fun y _ => ?_
    cases hy : s.marks.isGenerated y with
    | true => rw [h.isGenerated_mono y hy]; rfl
    | false => rw [Bool.not_false, Bool.and_true]
  rw [hagain, List.length_filter_lt_length_iff_exists]
  refine ⟨x, hmissing, ?_⟩
  rw [h.generated x hx]
  exact Bool.false_ne_true

namespace Sound

variable {w : Workspace} {s : Progress}

theorem mem_markable (h : Sound w s) {x : ObjectName} (hx : s.marks.isReferenced x = true) :
    x ∈ w.markable := by
  obtain ⟨d, hd, hx⟩ := (h.referenced x).mp hx
  have hlocated : d ∈ w.located := Workspace.mem_located_iff.mpr (h.converted d hd).declares
  rcases hx with rfl | hx
  · exact List.mem_append_left _ (List.mem_map_of_mem hlocated)
  · rcases Workspace.find?_of_references hx with hfound | ⟨c, hconst, htype⟩
    · obtain ⟨e, he⟩ := Option.isSome_iff_exists.mp hfound
      have hname : nameOf e = x := Workspace.nameOf_of_find? he
      have hdeclared := Workspace.mem_located_iff.mpr (Workspace.declares_of_find? he)
      exact List.mem_append_left _ (List.mem_map.mpr ⟨e, hdeclared, hname⟩)
    · refine List.mem_append_right _ (List.mem_filterMap.mpr ⟨d, hlocated, ?_⟩)
      rw [hconst]
      exact htype

theorem mem_missing (h : Sound w s) {x : ObjectName} (hx : x ∈ s.marks.waiting) :
    x ∈ w.missing s := by
  obtain ⟨href, hnew⟩ := Marks.mem_waiting_iff.mp hx
  exact List.mem_filter.mpr ⟨h.mem_markable href, by rw [hnew]; rfl⟩

theorem waiting_eq_nil (h : Sound w s) (hmissing : (w.missing s).length ≤ 0) :
    s.marks.waiting = [] := by
  refine List.eq_nil_iff_forall_not_mem.mpr fun x hx => ?_
  have hmem := h.mem_missing hx
  rw [List.length_eq_zero_iff.mp (Nat.le_zero.mp hmissing)] at hmem
  cases hmem

section Resolving

-- An invariant of single resolving steps, for whole sweeps of them.
variable {I : Progress → Prop}
  (hstep : ∀ {x s s'}, Sound w s → I s → s.marks.isReferenced x = true → Resolved w x s s' → I s')

include hstep

/-- A round generates everything that it is given. -/
theorem round_ends (h : Sound w s) (hinv : I s) {waiting : List ObjectName}
    (hwaiting : ∀ x ∈ waiting, s.marks.isReferenced x = true) :
    (Outcome.forEach w.resolveObject waiting s).Ends (fun s' => Round w s waiting s' ∧ I s')
      w.Obstructed := by
  refine Outcome.Ends.forEach (fun passed s' => Round w s passed s' ∧ I s') ?_ ?_
  · exact ⟨⟨h, fun _ hx => hx, fun _ hx => hx, fun _ hx => nomatch hx⟩, hinv⟩
  · rintro passed x rest s' hsplit ⟨hround, hinv⟩
    have hmarked : s'.marks.isReferenced x = true := by
      refine hround.isReferenced_mono x (hwaiting x ?_)
      rw [hsplit]
      exact List.mem_append_right _ List.mem_cons_self
    refine (hround.sound.resolveObject_ends hmarked).mono fun s'' hresolved => ?_
    exact ⟨hround.resolved hmarked hresolved, hstep hround.sound hinv hmarked hresolved⟩

/-- Rounds suffice when there are as many as markable names that were not generated: each round
generates at least one of them. -/
theorem resolveWithin_ends (rounds : Nat) (sweep : Sweep) {s : Progress} (h : Sound w s)
    (hinv : I s) (htried : ∀ x ∈ sweep.tried, s.marks.isGenerated x = true)
    (hrounds : (w.missing s).length ≤ rounds) :
    (w.resolveWithin rounds sweep s).Ends (fun s' => Sound w s' ∧ I s' ∧ Settled s')
      w.Obstructed := by
  induction rounds generalizing sweep s with
  | zero =>
      obtain ⟨next, hnext, -⟩ := Marks.remaining_of_generated htried
      have hnone := h.waiting_eq_nil hrounds
      rw [Workspace.resolveWithin, hnext, hnone]
      exact Outcome.Ends.done ⟨h, hinv, settled_iff.mpr hnone⟩
  | succ rounds ih =>
      obtain ⟨next, hnext, hnexttried⟩ := Marks.remaining_of_generated htried
      rw [Workspace.resolveWithin, hnext]
      cases hwaiting : s.marks.waiting with
      | nil => exact Outcome.Ends.done ⟨h, hinv, settled_iff.mpr hwaiting⟩
      | cons o rest =>
          rw [hwaiting] at hnexttried
          have hwaits : ∀ x ∈ o :: rest, x ∈ s.marks.waiting := fun x hx => hwaiting ▸ hx
          refine (h.round_ends hstep hinv
            fun x hx => (Marks.mem_waiting_iff.mp (hwaits x hx)).1).andThen fun s' hs' => ?_
          obtain ⟨hround, hinv'⟩ := hs'
          have hless := hround.length_missing_lt List.mem_cons_self
            (h.mem_missing (hwaits o List.mem_cons_self))
          refine ih next hround.sound hinv' (fun x hx => ?_) (by omega)
          rcases hnexttried x hx with hx | hx
          · exact hround.isGenerated_mono x (htried x hx)
          · exact hround.generated x hx

theorem resolve_ends (h : Sound w s) (hinv : I s) :
    (w.resolve s).Ends (fun s' => Sound w s' ∧ I s' ∧ Settled s') w.Obstructed :=
  h.resolveWithin_ends hstep w.roundLimit {} hinv (fun _ hx => nomatch hx) (w.length_missing_le s)

end Resolving

end Sound

/-- With nothing waiting there is nothing to resolve. -/
theorem Settled.resolve_eq {s : Progress} (h : Settled s) (w : Workspace) :
    w.resolve s = .done s := by
  have hnone := settled_iff.mp h
  rw [Workspace.resolve, Workspace.resolveWithin, Marks.remaining, hnone]
  rfl

end TypeBridge
