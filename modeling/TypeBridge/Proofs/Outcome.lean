import TypeBridge.Outcome

/-!
How runs end. A run is described by what holds of its last state when it comes to its end, and by
what must be the case when it stops before. Both halves go through sequences and loops together, so
that a loop is looked at once: what it achieves and why it may stop come from the same induction.
-/

namespace TypeBridge.Outcome

variable {σ α : Type} {o : Outcome σ} {Post Mid : σ → Prop} {Fault : Prop}

/-- What comes after a run that came to its end depends on its last state only. -/
theorem andThen_of_done (h : o.failure = none) (next : σ → Outcome σ) :
    o.andThen next = o.andThen fun _ => next o.state := by
  simp only [andThen, h]

theorem andThen_of_failure (h : o.failure ≠ none) (next : σ → Outcome σ) : o.andThen next = o := by
  obtain ⟨e, he⟩ := Option.ne_none_iff_exists'.mp h
  simp only [andThen, he]

/-- A run that comes to its end satisfies `Post`, and one that stops has met a `Fault`. -/
structure Ends (o : Outcome σ) (Post : σ → Prop) (Fault : Prop) : Prop where
  reached : o.failure = none → Post o.state
  blamed : o.failure ≠ none → Fault

namespace Ends

theorem mono (h : o.Ends Mid Fault) (himp : ∀ s, Mid s → Post s) : o.Ends Post Fault :=
  ⟨fun hdone => himp _ (h.reached hdone), h.blamed⟩

theorem any : o.Ends (fun _ => True) True := ⟨fun _ => trivial, fun _ => trivial⟩

theorem of_done (hdone : o.failure = none) (h : Post o.state) : o.Ends Post Fault :=
  ⟨fun _ => h, fun hstop => absurd hdone hstop⟩

theorem done {s : σ} (h : Post s) : (Outcome.done s).Ends Post Fault := of_done rfl h

/-- A run that has no reason to stop has a result. -/
theorem exists_result (h : o.Ends Post False) : ∃ s, o.result = .ok s ∧ Post s := by
  cases hfailure : o.failure with
  | none => exact ⟨o.state, by rw [result, hfailure], h.reached hfailure⟩
  | some e => exact (h.blamed (by simp [hfailure])).elim

theorem mapError {f : Error → Error} (h : o.Ends Post Fault) : (o.mapError f).Ends Post Fault := by
  have hnone : (o.mapError f).failure = none ↔ o.failure = none := Option.map_eq_none_iff
  exact ⟨fun hdone => h.reached (hnone.mp hdone), fun hstop => h.blamed (mt hnone.mpr hstop)⟩

theorem andThen {next : σ → Outcome σ} (h : o.Ends Mid Fault)
    (hnext : ∀ s, Mid s → (next s).Ends Post Fault) : (o.andThen next).Ends Post Fault := by
  by_cases hfail : o.failure = none
  · have hrun := hnext _ (h.reached hfail)
    have hstate : (o.andThen next).state = (next o.state).state := by
      simp only [Outcome.andThen, hfail]
    have hfailure : (o.andThen next).failure = (next o.state).failure := by
      simp only [Outcome.andThen, hfail]
    exact ⟨fun hdone => hstate ▸ hrun.reached (hfailure ▸ hdone),
      fun hstop => hrun.blamed (hfailure ▸ hstop)⟩
  · rw [andThen_of_failure hfail]
    exact ⟨fun hdone => absurd hdone hfail, h.blamed⟩

/-- A loop keeps an invariant that also sees the elements it has been through. -/
theorem forEach {step : α → σ → Outcome σ} (Inv : List α → σ → Prop) {elements : List α} {s : σ}
    (hstart : Inv [] s)
    (hstep : ∀ passed a rest s, elements = passed ++ a :: rest → Inv passed s →
      (step a s).Ends (Inv (passed ++ [a])) Fault) :
    (Outcome.forEach step elements s).Ends (Inv elements) Fault := by
  have loop : ∀ (rest passed : List α) (s : σ), elements = passed ++ rest → Inv passed s →
      (Outcome.forEach step rest s).Ends (Inv elements) Fault := by
    intro rest
    induction rest with
    | nil =>
        intro passed s hsplit hinv
        rw [List.append_nil] at hsplit
        exact Ends.done (hsplit ▸ hinv)
    | cons a rest ih =>
        intro passed s hsplit hinv
        exact (hstep passed a rest s hsplit hinv).andThen fun s' hs' =>
          ih (passed ++ [a]) s' (by rw [hsplit, List.append_assoc]; rfl) hs'
  exact loop elements [] s rfl hstart

end Ends

theorem result_eq_ok_iff {s : σ} : o.result = .ok s ↔ o.failure = none ∧ o.state = s := by
  cases h : o.failure <;> simp [result, h]

theorem andThen_assoc (o : Outcome σ) (f g : σ → Outcome σ) :
    (o.andThen f).andThen g = o.andThen fun s => (f s).andThen g := by
  cases ho : o.failure with
  | some e => simp only [andThen, ho]
  | none =>
      cases hf : (f o.state).failure <;> simp [andThen, ho, hf, List.append_assoc]

/-- A loop over two lists in turn. -/
theorem forEach_append (step : α → σ → Outcome σ) (front back : List α) (s : σ) :
    forEach step (front ++ back) s = (forEach step front s).andThen (forEach step back) := by
  induction front generalizing s with
  | nil => simp [forEach, andThen, done]
  | cons a rest ih =>
      have hrest : forEach step (rest ++ back) =
          fun s => (forEach step rest s).andThen (forEach step back) := funext ih
      rw [List.cons_append, forEach, hrest, ← andThen_assoc, ← forEach]

/-- A run that goes on comes to its end when both parts do. -/
theorem result_andThen_iff {next : σ → Outcome σ} {s : σ} :
    (o.andThen next).result = .ok s ↔ ∃ mid, o.result = .ok mid ∧ (next mid).result = .ok s := by
  cases ho : o.failure with
  | some e => simp [result, andThen, ho]
  | none => simp [result, andThen, ho]

/-- A loop up to its last element. -/
theorem result_forEach_concat_iff {step : α → σ → Outcome σ} {elements : List α} {a : α}
    {start s : σ} :
    (forEach step (elements ++ [a]) start).result = .ok s ↔
      ∃ mid, (forEach step elements start).result = .ok mid ∧ (step a mid).result = .ok s := by
  have hlast : ∀ mid, (forEach step [a] mid).result = (step a mid).result := by
    intro mid
    cases h : (step a mid).failure <;> simp [forEach, result, andThen, done, h]
  simp only [forEach_append, result_andThen_iff, hlast]

end TypeBridge.Outcome

/-- A computation in two steps succeeds when both do. -/
theorem TypeBridge.bind_eq_ok_iff {ε α β : Type} {x : Except ε α} {f : α → Except ε β} {b : β} :
    (x >>= f) = .ok b ↔ ∃ a, x = .ok a ∧ f a = .ok b := by
  cases x with
  | error e => simp [bind, Except.bind]
  | ok a => simp [bind, Except.bind]

theorem TypeBridge.bind_ok {ε α β : Type} {x : Except ε α} {f : α → Except ε β} {a : α} {b : β}
    (hx : x = .ok a) (hf : f a = .ok b) : (x >>= f) = .ok b :=
  bind_eq_ok_iff.mpr ⟨a, hx, hf⟩

theorem TypeBridge.map_eq_ok_iff {ε α β : Type} {x : Except ε α} {f : α → β} {b : β} :
    x.map f = .ok b ↔ ∃ a, x = .ok a ∧ f a = b := by
  cases x with
  | error e => simp [Except.map]
  | ok a => simp [Except.map]
