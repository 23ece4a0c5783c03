import TypeBridge.Proofs.Keyed
import TypeBridge.Proofs.Occurrence
import TypeBridge.Proofs.References

/-!
Computations that map types, and three ways to speak about them: by the objects that they refer to, by
what they yield when their effects are given, and by how they end. Each way follows a computation
through `pure`, `fail`, `ask` and `bind`, which is all that a judgement about mappings needs.
-/

namespace TypeBridge

namespace Mapping

variable {α β : Type} {P : ObjectName → Prop} {E : List Effect} {Post Mid : α → Prop}
  {Post' : β → Prop} {Fault : Error → Prop}

/-- Every object that a mapping announces satisfies `P`. -/
def Refers (m : Mapping α) (P : ObjectName → Prop) : Prop :=
  ∀ x, Effect.reference x ∈ m.effects → P x

/-- A mapping whose effects are all among `E` yields only results that satisfy `Post`. -/
def Yields (m : Mapping α) (E : List Effect) (Post : α → Prop) : Prop :=
  m.effects ⊆ E → ∀ a, m.result = .ok a → Post a

/-- A mapping whose results satisfy `Post` and whose errors satisfy `Fault`. -/
structure Meets (m : Mapping α) (Post : α → Prop) (Fault : Error → Prop) : Prop where
  ok : ∀ a, m.result = .ok a → Post a
  error : ∀ e, m.result = .error e → Fault e

theorem effects_bind_of_ok {m : Mapping α} {a : α} (h : m.result = .ok a) (f : α → Mapping β) :
    (m >>= f).effects = m.effects ++ (f a).effects := by
  change (m.bind f).effects = _
  rw [Mapping.bind, h]

theorem result_bind_of_ok {m : Mapping α} {a : α} (h : m.result = .ok a) (f : α → Mapping β) :
    (m >>= f).result = (f a).result := by
  change (m.bind f).result = _
  rw [Mapping.bind, h]

theorem effects_bind_of_error {m : Mapping α} {e : Error} (h : m.result = .error e)
    (f : α → Mapping β) : (m >>= f).effects = m.effects := by
  change (m.bind f).effects = _
  rw [Mapping.bind, h]

theorem result_bind_of_error {m : Mapping α} {e : Error} (h : m.result = .error e)
    (f : α → Mapping β) : (m >>= f).result = .error e := by
  change (m.bind f).result = _
  rw [Mapping.bind, h]

instance : LawfulMonad Mapping := by
  have hid : ∀ {α : Type} (m : Mapping α), m.bind Mapping.pure = m := by
    intro α m
    obtain ⟨effects, result⟩ := m
    cases result with
    | error e => rfl
    | ok a => exact congrArg (Mapping.mk · _) (List.append_nil effects)
  have hassoc : ∀ {α β γ : Type} (m : Mapping α) (f : α → Mapping β) (g : β → Mapping γ),
      (m.bind f).bind g = m.bind fun a => (f a).bind g := by
    intro α β γ m f g
    obtain ⟨effects, result⟩ := m
    cases result with
    | error e => rfl
    | ok a =>
        simp only [Mapping.bind]
        cases (f a).result with
        | error e => rfl
        | ok b => simp only [List.append_assoc]
  exact LawfulMonad.mk' Mapping hid (fun _ _ => rfl) hassoc

namespace Refers

theorem pure (a : α) : (Pure.pure a : Mapping α).Refers P := fun _ h => nomatch h

theorem fail (e : Error) : (Mapping.fail e : Mapping α).Refers P := fun _ h => nomatch h

theorem ofExcept (r : Except Error α) : (Mapping.ofExcept r).Refers P := fun _ h => nomatch h

theorem bind_of_ok {m : Mapping α} {f : α → Mapping β} (hm : m.Refers P)
    (hf : ∀ a, m.result = .ok a → (f a).Refers P) : (m >>= f).Refers P := by
  intro x hx
  cases hresult : m.result with
  | error e =>
      rw [effects_bind_of_error hresult] at hx
      exact hm x hx
  | ok a =>
      rw [effects_bind_of_ok hresult] at hx
      exact (List.mem_append.mp hx).elim (hm x) (hf a hresult x)

theorem bind {m : Mapping α} {f : α → Mapping β} (hm : m.Refers P) (hf : ∀ a, (f a).Refers P) :
    (m >>= f).Refers P :=
  hm.bind_of_ok fun a _ => hf a

end Refers

namespace Yields

theorem pure {a : α} (h : Post a) : (Pure.pure a : Mapping α).Yields E Post := by
  intro _ b hb
  cases hb
  exact h

theorem fail (e : Error) : (Mapping.fail e : Mapping α).Yields E Post := fun _ _ h => nomatch h

theorem ask (effect : Effect) : (Mapping.ask effect).Yields E fun _ => effect ∈ E :=
  fun hsub _ _ => hsub List.mem_cons_self

/-- What is known of a result may be used together with where it comes from. -/
theorem self {m : Mapping α} (h : m.Yields E Post) :
    m.Yields E fun a => Post a ∧ m.result = .ok a :=
  fun hsub a ha => ⟨h hsub a ha, ha⟩

theorem bind {m : Mapping α} {f : α → Mapping β} (hm : m.Yields E Post)
    (hf : ∀ a, Post a → (f a).Yields E Post') : (m >>= f).Yields E Post' := by
  intro hsub b hb
  cases hresult : m.result with
  | error e =>
      rw [result_bind_of_error hresult] at hb
      cases hb
  | ok a =>
      rw [result_bind_of_ok hresult] at hb
      rw [effects_bind_of_ok hresult] at hsub
      have ha : Post a := hm (fun _ h => hsub (List.mem_append_left _ h)) a hresult
      exact hf a ha (fun _ h => hsub (List.mem_append_right _ h)) b hb

end Yields

namespace Meets

theorem pure {a : α} (h : Post a) : (Pure.pure a : Mapping α).Meets Post Fault := by
  refine ⟨fun b hb => ?_, fun e he => ?_⟩
  · cases hb
    exact h
  · cases he

theorem fail {e : Error} (h : Fault e) : (Mapping.fail e : Mapping α).Meets Post Fault := by
  refine ⟨fun a ha => ?_, fun e' he => ?_⟩
  · cases ha
  · cases he
    exact h

theorem ask (effect : Effect) : (Mapping.ask effect).Meets (fun _ => True) Fault :=
  ⟨fun _ _ => trivial, fun _ he => nomatch he⟩

theorem any (m : Mapping α) : m.Meets (fun _ => True) (fun _ => True) :=
  ⟨fun _ _ => trivial, fun _ _ => trivial⟩

theorem mono {m : Mapping α} (h : m.Meets Mid Fault) (himp : ∀ a, Mid a → Post a) :
    m.Meets Post Fault :=
  ⟨fun a ha => himp a (h.ok a ha), h.error⟩

/-- What is known of a result may be used together with where it comes from. -/
theorem self {m : Mapping α} (h : m.Meets Post Fault) :
    m.Meets (fun a => Post a ∧ m.result = .ok a) Fault :=
  ⟨fun a ha => ⟨h.ok a ha, ha⟩, h.error⟩

theorem bind {m : Mapping α} {f : α → Mapping β} (hm : m.Meets Mid Fault)
    (hf : ∀ a, Mid a → (f a).Meets Post' Fault) : (m >>= f).Meets Post' Fault := by
  cases hresult : m.result with
  | error e =>
      have hfailed := result_bind_of_error hresult f
      refine ⟨fun b hb => ?_, fun e' he => ?_⟩
      · rw [hfailed] at hb
        cases hb
      · rw [hfailed] at he
        cases he
        exact hm.error e hresult
  | ok a =>
      have hrest := hf a (hm.ok a hresult)
      have hsame := result_bind_of_ok hresult f
      exact ⟨fun b hb => hrest.ok b (hsame.symm.trans hb),
        fun e he => hrest.error e (hsame.symm.trans he)⟩

end Meets

/-! ### Judgements -/

/-- A judgement about mappings and their results that follows them step by step. It may depend on what
is asked for, of which something is known afterwards, and on the errors that are raised. -/
structure Judgement where
  Holds : (α : Type) → Mapping α → (α → Prop) → Prop
  MayAsk : Effect → Prop
  Asked : Effect → Prop
  MayFail : Error → Prop
  pure : ∀ {α : Type} {Post : α → Prop} {a : α}, Post a → Holds α (Pure.pure a) Post
  fail : ∀ {α : Type} {Post : α → Prop} {e : Error}, MayFail e → Holds α (Mapping.fail e) Post
  ask : ∀ {effect : Effect}, MayAsk effect → Holds Unit (Mapping.ask effect) fun _ => Asked effect
  bind : ∀ {α β : Type} {Mid : α → Prop} {Post : β → Prop} {m : Mapping α} {f : α → Mapping β},
    Holds α m Mid → (∀ a, Mid a → m.result = .ok a → Holds β (f a) Post) → Holds β (m >>= f) Post

namespace Judgement

variable {J : Judgement}

theorem mono {m : Mapping α} (h : J.Holds α m Mid) (himp : ∀ a, Mid a → Post a) :
    J.Holds α m Post := by
  rw [← bind_pure m]
  exact J.bind h fun a ha _ => J.pure (himp a ha)

theorem ofExcept {r : Except Error α} (h : (Mapping.ofExcept r).Meets Post J.MayFail) :
    J.Holds α (Mapping.ofExcept r) Post := by
  cases r with
  | error e => exact J.fail (h.error e rfl)
  | ok a => exact J.pure (h.ok a rfl)

/-- All announced objects satisfy `P`. -/
def refers (P : ObjectName → Prop) : Judgement where
  Holds _ m Post := m.Refers P ∧ m.Meets Post fun _ => True
  MayAsk effect := ∀ x, effect = .reference x → P x
  Asked _ := True
  MayFail _ := True
  pure h := ⟨Refers.pure _, Meets.pure h⟩
  fail _ := ⟨Refers.fail _, Meets.fail trivial⟩
  ask h := ⟨fun x hx => h x (List.mem_singleton.mp hx).symm, Meets.ask _⟩
  bind hm hf := ⟨hm.1.bind_of_ok fun a ha => (hf a (hm.2.ok a ha) ha).1,
    hm.2.self.bind fun a ha => (hf a ha.1 ha.2).2⟩

/-- All effects being among `E`, the results are as they should be. -/
def yields (E : List Effect) : Judgement where
  Holds _ m Post := m.Yields E Post
  MayAsk _ := True
  Asked effect := effect ∈ E
  MayFail _ := True
  pure := Yields.pure
  fail _ := Yields.fail _
  ask _ := Yields.ask _
  bind hm hf := hm.self.bind fun a ha => hf a ha.1 ha.2

/-- The results are as they should be, and the errors satisfy `Fault`. -/
def meets (Fault : Error → Prop) : Judgement where
  Holds _ m Post := m.Meets Post Fault
  MayAsk _ := True
  Asked _ := True
  MayFail := Fault
  pure := Meets.pure
  fail := Meets.fail
  ask _ := Meets.ask _
  bind hm hf := hm.self.bind fun a ha => hf a ha.1 ha.2

end Judgement

end Mapping

end TypeBridge
