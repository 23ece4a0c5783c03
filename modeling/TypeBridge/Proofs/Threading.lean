import TypeBridge.Proofs.Termination

/-!
Mapping with its surroundings threaded through. A mapping that is carried out marks objects, requires
builtins and reports events on its way, and pushes and pops the overrides that it expands; it looks at
these overrides only. So it comes to an end with a result that depends on nothing else, whatever was
converted before it, and leaves everything but marks, builtins and events as it was, also when it
fails.
-/

namespace TypeBridge

/-! ### Mapping in surroundings -/

/-- What a mapping finds when it starts and may change on its way: the conversion so far, the events
reported so far, and the overrides that are being expanded, the last one first. -/
structure Surroundings where
  progress : Progress := {}
  events : List Event := []
  expanding : List String := []

/-- A computation that reads and changes its surroundings. It may fail, and it may not come to an
end. -/
abbrev Threaded := ExceptT Error (StateT Surroundings Option)

namespace Threaded

def mark (o : ObjectName) : Threaded Unit :=
  modify fun s => { s with progress.marks := s.progress.marks.reference o }

def require (b : Builtin) : Threaded Expr := do
  modify fun s =>
    if s.progress.builtins.contains b then s
    else { s with progress.builtins := s.progress.builtins ++ [b] }
  return b.reference

def report (e : Event) : Threaded Unit := modify fun s => { s with events := s.events ++ [e] }

def announce (package : Package) (o : ObjectName) : Threaded Unit := do
  mark o
  if package.mode = .reference then
    report (.externalType o.name o.package)

/-- Runs while an override is being expanded: it is pushed before, and popped whatever comes of the
run. -/
def expanding {α : Type} (key : String) (run : Threaded α) : Threaded α := fun s => do
  let (result, s) ← run { s with expanding := key :: s.expanding }
  return (result, { s with expanding := s.expanding.tail })

/-- Maps the constraint of a type parameter, given how it is mapped as a type. -/
def constraint (mapped : Threaded MappedType) : SourceType → Threaded Expr
  | .named ⟨none, "comparable", _, _⟩ => require .comparable
  | .named ⟨none, "any", _, _⟩ => return .keyword .any
  | .interface [] [] => return .keyword .any
  | .interface [] (method :: methods) =>
      throw (.unsupportedType (SourceType.describe (.interface [] (method :: methods))) .constraint)
  | _ => do return (← mapped).value

end Threaded

namespace Workspace

variable (w : Workspace) (jump : SourceType → Threaded MappedType)

/-- What the overrides say about a qualified name. One that stands for a type is passed over inside
that type. -/
def threadOverride (key : String) : Threaded (Option MappedType) := do
  match w.overrides.get? key with
  | none => return none
  | some (.expression e) => return some (.plain e)
  | some (.type other) =>
      if key ∈ (← get).expanding then return none
      else return some (← Threaded.expanding key (jump other))

/-- Maps a named type without an override, given how its arguments are mapped, and how it is mapped
in place of a type that is not declared. -/
def threadNamed (name : String) (args : Threaded (List MappedType)) (foreign : Threaded MappedType) :
    Option String → Threaded MappedType
  | none =>
      if name = "any" then return .plain (.keyword .any)
      else if name = "comparable" then return .plain (← Threaded.require .comparable)
      else foreign
  | some path =>
      match w.find? path name with
      | none => foreign
      | some (owner, _) => do
          Threaded.announce owner ⟨path, name⟩
          return MappedType.combine (← args) (.reference (w.identifier path name))

mutual

/-- Maps a type in its surroundings, given how the types of overrides are mapped. -/
def threadWith : SourceType → Threaded MappedType
  | .basic kind => liftExcept (mapBasic kind)
  | .struct _ => return .unknown "embedded anonymous struct, please fix by naming it"
  | .map key value => do
      let key ← threadWith key
      let value ← threadWith value
      let mapped := MappedType.combine [key, value] (.builtin recordName)
      let params ← liftExcept (TypeParameter.simplify mapped.typeParams)
      return { mapped with typeParams := params }
  | .slice elem =>
      if elem.isByte then return .plain (.array (.keyword .string))
      else do return (← threadWith elem).mapValue .array
  | .array _ elem =>
      if elem.isByte then return .plain (.array (.keyword .string))
      else do return (← threadWith elem).mapValue .array
  | .named ⟨package, name, typeArgs, underlying⟩ => do
      match ← threadOverride w jump (qualifiedName package name) with
      | some mapped => return mapped
      | none =>
          threadNamed w name (threadList typeArgs)
            (threadForeign (qualifiedName package name) underlying) package
  | .pointer elem => do return (← threadWith elem).mapValue .nullable
  | .interface [] [] => return .unknown "empty interface\x7b\x7d type, falling back to unknown"
  | .interface [embedded] _ => threadWith embedded
  | .interface _ _ => return .unknown "interface type, falling back to unknown"
  | .union terms => do return MappedType.combine (← threadTerms terms) .union
  | .typeParam name constraint => do
      let bound ← Threaded.constraint (threadWith constraint) constraint
      return {
        value := .reference { name := name } []
        typeParams := [{ name := { name := name }, constraint := some bound }] }
  | .signature => throw (.unsupportedType (SourceType.describe .signature) .signature)
  | .chan elem => throw (.unsupportedType (SourceType.describe (.chan elem)) .channel)

def threadList : List SourceType → Threaded (List MappedType)
  | [] => return []
  | t :: rest => do
      let mapped ← threadWith t
      return mapped :: (← threadList rest)

def threadTerms : List (TermOf SourceType) → Threaded (List MappedType)
  | [] => return []
  | ⟨_, t⟩ :: rest => do
      let mapped ← threadWith t
      return mapped :: (← threadTerms rest)

def threadForeign (qualified : String) : Option SourceType → Threaded MappedType
  | none => throw (.unsupportedType qualified .foreignUnknown)
  | some (.struct _) => pure (.unknown
      ("external type " ++ Text.quoted qualified ++
        ", to include this type the package must be explicitly included in the parsing"))
  | some t => do
      return (← threadWith t).addComment
        ("this is likely an enum in an external package " ++ Text.quoted qualified)

end

/-- Maps a type in its surroundings, as long as no more than so many overrides have to be expanded
inside one another. -/
def threadWithin : Nat → SourceType → Threaded MappedType
  | 0 => threadWith w fun _ _ => none
  | depth + 1 => threadWith w (threadWithin depth)

/-- Mapping a type in its surroundings comes to an end, with a result and with what it leaves. -/
def Threads (t : SourceType) (s : Surroundings) (out : Except Error MappedType × Surroundings) :
    Prop :=
  ∃ depth, w.threadWithin depth t s = some out

end Workspace

/-! ### Following what a mapping asks for -/

/-- Does what a mapping asked for. -/
def Surroundings.heed (effects : List Effect) (s : Surroundings) : Surroundings :=
  { s with
    progress := (Outcome.forEach Progress.heed effects s.progress).state
    events := s.events ++ (Outcome.forEach Progress.heed effects s.progress).events }

theorem Surroundings.heed_nil (s : Surroundings) : s.heed [] = s := by
  simp [heed, Outcome.forEach, Outcome.done]

theorem Progress.failure_heedAll (effects : List Effect) (s : Progress) :
    (Outcome.forEach heed effects s).failure = none := by
  by_contra hstop
  exact (heedAll_ends effects s).blamed hstop

theorem Surroundings.heed_append (front back : List Effect) (s : Surroundings) :
    s.heed (front ++ back) = (s.heed front).heed back := by
  simp only [heed, Outcome.forEach_append, Outcome.andThen, Progress.failure_heedAll,
    List.append_assoc]

theorem Surroundings.heed_singleton (effect : Effect) (s : Surroundings) :
    s.heed [effect] = { s with
      progress := (Progress.heed effect s.progress).state
      events := s.events ++ (Progress.heed effect s.progress).events } := by
  cases effect <;> simp [heed, Outcome.forEach, Outcome.andThen, Progress.heed, Outcome.done]

/-- What a mapping does about an override: it takes its place if there is one. -/
def Mapping.overriding {α : Type} : Option (Mapping α) → Mapping (Option α)
  | none => pure none
  | some m => do return some (← m)

namespace Threaded

variable {α β : Type} {ends : Prop} {stack : List String}

/-- A computation that gives what a mapping gives and does what it asks for, while some overrides are
being expanded. It may fail to come to an end unless it is known to. -/
def Follows (ends : Prop) (stack : List String) (x : Threaded α) (m : Mapping α) : Prop :=
  ∀ s, s.expanding = stack → x s = some (m.result, s.heed m.effects) ∨ ¬ ends ∧ x s = none

theorem bind_apply (x : Threaded α) (f : α → Threaded β) (s : Surroundings) :
    (x >>= f) s = (x s).bind fun out => match out with
      | (.ok a, s) => f a s
      | (.error e, s) => some (.error e, s) := by
  show (x s).bind _ = _
  congr 1
  funext out
  obtain ⟨result, s'⟩ := out
  cases result <;> rfl

namespace Follows

theorem mono {ends' : Prop} {x : Threaded α} {m : Mapping α} (h : Follows ends stack x m)
    (himp : ends' → ends) : Follows ends' stack x m := fun s hs =>
  (h s hs).imp_right fun hnone => ⟨fun hends => hnone.1 (himp hends), hnone.2⟩

/-- A computation that always comes to an end. -/
theorem of_apply {x : Threaded α} {m : Mapping α}
    (h : ∀ s, x s = some (m.result, s.heed m.effects)) : Follows ends stack x m :=
  fun s _ => .inl (h s)

theorem pure (a : α) : Follows ends stack (Pure.pure a) (Pure.pure a) := by
  refine of_apply fun s => ?_
  show some (Except.ok a, s) = some (Except.ok a, s.heed [])
  rw [s.heed_nil]

theorem fail (e : Error) : Follows ends stack (throw e : Threaded α) (Mapping.fail e) := by
  refine of_apply fun s => ?_
  show some (Except.error e, s) = some (Except.error e, s.heed [])
  rw [s.heed_nil]

theorem ofExcept (r : Except Error α) :
    Follows ends stack (liftExcept r) (Mapping.ofExcept r) := by
  cases r with
  | ok a => exact .pure a
  | error e => exact .fail e

theorem bind {x : Threaded α} {m : Mapping α} (h : Follows ends stack x m) {f : α → Threaded β}
    {g : α → Mapping β} (hf : ∀ a, Follows ends stack (f a) (g a)) :
    Follows ends stack (x >>= f) (m >>= g) := by
  intro s hs
  rw [bind_apply]
  rcases h s hs with hx | ⟨hends, hx⟩
  · rw [hx, Option.bind_some]
    cases hresult : m.result with
    | error e =>
        left
        rw [Mapping.result_bind_of_error hresult, Mapping.effects_bind_of_error hresult]
    | ok a =>
        rw [Mapping.result_bind_of_ok hresult, Mapping.effects_bind_of_ok hresult,
          Surroundings.heed_append]
        exact hf a _ hs
  · exact .inr ⟨hends, by rw [hx, Option.bind_none]⟩

theorem mark (o : ObjectName) :
    Follows ends stack (Threaded.mark o) (Mapping.ask (.reference o)) := by
  refine of_apply fun s => ?_
  show some (Except.ok (), _) = some (Except.ok (), s.heed [.reference o])
  rw [s.heed_singleton]
  simp [Progress.heed, Outcome.done]

theorem report (e : Event) : Follows ends stack (Threaded.report e) (Mapping.ask (.report e)) := by
  refine of_apply fun s => ?_
  show some (Except.ok (), _) = some (Except.ok (), s.heed [.report e])
  rw [s.heed_singleton]
  rfl

theorem require (b : Builtin) : Follows ends stack (Threaded.require b) (do
    Mapping.ask (.require b)
    return b.reference) := by
  refine of_apply fun s => ?_
  show some (Except.ok b.reference, _) = some (Except.ok b.reference, s.heed [.require b])
  rw [s.heed_singleton]
  simp only [Progress.heed, Outcome.done, List.append_nil]
  split <;> rfl

theorem announce (p : Package) (o : ObjectName) :
    Follows ends stack (Threaded.announce p o) (TypeBridge.announce p o) := by
  refine (mark o).bind fun _ => ?_
  split
  · exact report _
  · exact .pure _

theorem get {f : Surroundings → Threaded α} {m : Mapping α}
    (h : ∀ s, s.expanding = stack → Follows ends stack (f s) m) :
    Follows ends stack (MonadState.get >>= f) m := fun s hs => h s hs s hs

/-- What is pushed is popped again, on success and on failure. -/
theorem expanding {key : String} {x : Threaded α} {m : Mapping α}
    (h : Follows ends (key :: stack) x m) : Follows ends stack (Threaded.expanding key x) m := by
  rintro s rfl
  show (x { s with expanding := key :: s.expanding }).bind _ = _ ∨
    _ ∧ (x { s with expanding := key :: s.expanding }).bind _ = _
  rcases h { s with expanding := key :: s.expanding } rfl with hx | ⟨hends, hx⟩
  · rw [hx]
    exact .inl rfl
  · rw [hx]
    exact .inr ⟨hends, rfl⟩

/-- Without an override, a mapping goes on. -/
theorem passed {x : Threaded (Option α)}
    (h : Follows ends stack x (Mapping.overriding (none : Option (Mapping α))))
    {f : Option α → Threaded β} {m : Mapping β} (hf : Follows ends stack (f none) m) :
    Follows ends stack (x >>= f) m := by
  intro s hs
  rw [bind_apply]
  rcases h s hs with hx | ⟨hends, hx⟩
  · rw [hx]
    show f none (s.heed []) = _ ∨ _ ∧ f none (s.heed []) = _
    rw [s.heed_nil]
    exact hf s hs
  · exact .inr ⟨hends, by rw [hx, Option.bind_none]⟩

/-- An override takes the place of what it stands for. -/
theorem taken {x : Threaded (Option α)} {m : Mapping α}
    (h : Follows ends stack x (Mapping.overriding (some m))) {f : Option α → Threaded α}
    (hf : ∀ a, f (some a) = Pure.pure a) : Follows ends stack (x >>= f) m := by
  intro s hs
  rw [bind_apply]
  rcases h s hs with hx | ⟨hends, hx⟩
  · left
    rw [hx, Mapping.overriding]
    cases hresult : m.result with
    | error e =>
        rw [Mapping.result_bind_of_error hresult, Mapping.effects_bind_of_error hresult]
        rfl
    | ok a =>
        rw [Mapping.result_bind_of_ok hresult, Mapping.effects_bind_of_ok hresult]
        show f (some a) (s.heed (m.effects ++ [])) = some (.ok a, s.heed m.effects)
        rw [hf, List.append_nil]
        rfl
  · exact .inr ⟨hends, by rw [hx, Option.bind_none]⟩

end Follows

end Threaded

/-! ### Types, with the overrides taken for granted -/

open Threaded (Follows)

section Mapping

variable {w : Workspace} {overridden : String → Option (Mapping MappedType)}
  {jump : SourceType → Threaded MappedType} {ends : Prop} {stack : List String}

theorem follows_threadConstraint {t : SourceType}
    (ht : Follows ends stack (w.threadWith jump t) (mapWith w overridden t)) :
    Follows ends stack (Threaded.constraint (w.threadWith jump t) t) (boundOf w overridden t) := by
  rw [Threaded.constraint.eq_def, boundOf]
  split
  · exact .require _
  · exact .pure _
  · exact .pure _
  · exact .fail _
  · have hknown : knownConstraint? t = none := by rw [knownConstraint?] <;> assumption
    rw [hknown]
    exact ht.bind fun _ => .pure _

mutual

theorem follows_threadWith
    (hov : ∀ key, Follows ends stack (w.threadOverride jump key)
      (Mapping.overriding (overridden key))) :
    ∀ t : SourceType, Follows ends stack (w.threadWith jump t) (mapWith w overridden t)
  | .basic kind => by
      rw [Workspace.threadWith, mapWith]
      exact .ofExcept _
  | .struct fields => by
      rw [Workspace.threadWith, mapWith]
      exact .pure _
  | .map key value => by
      rw [Workspace.threadWith, mapWith]
      exact (follows_threadWith hov key).bind fun _ => (follows_threadWith hov value).bind fun _ =>
        (Follows.ofExcept _).bind fun _ => .pure _
  | .slice elem => by
      have helem := follows_threadWith hov elem
      rw [Workspace.threadWith, mapWith]
      split
      · exact .pure _
      · exact helem.bind fun _ => .pure _
  | .array length elem => by
      have helem := follows_threadWith hov elem
      rw [Workspace.threadWith, mapWith]
      split
      · exact .pure _
      · exact helem.bind fun _ => .pure _
  | .named ⟨none, name, typeArgs, underlying⟩ => by
      have hforeign := follows_threadForeign hov (qualifiedName none name) underlying
      have hfound := hov (qualifiedName none name)
      rw [Workspace.threadWith, mapWith]
      cases hoverride : overridden (qualifiedName none name) with
      | some m => exact (hoverride ▸ hfound).taken fun _ => rfl
      | none =>
          refine (hoverride ▸ hfound).passed ?_
          dsimp only [Workspace.threadNamed]
          split
          · exact .pure _
          · split
            · exact (Follows.require _).bind fun _ => .pure _
            · exact hforeign
  | .named ⟨some path, name, typeArgs, underlying⟩ => by
      have hargs := follows_threadList hov typeArgs
      have hforeign := follows_threadForeign hov (qualifiedName (some path) name) underlying
      have hfound := hov (qualifiedName (some path) name)
      rw [Workspace.threadWith, mapWith]
      cases hoverride : overridden (qualifiedName (some path) name) with
      | some m => exact (hoverride ▸ hfound).taken fun _ => rfl
      | none =>
          refine (hoverride ▸ hfound).passed ?_
          dsimp only [Workspace.threadNamed]
          cases w.find? path name with
          | none => exact hforeign
          | some found =>
              exact (Follows.announce _ _).bind fun _ => hargs.bind fun _ => .pure _
  | .pointer elem => by
      rw [Workspace.threadWith, mapWith]
      exact (follows_threadWith hov elem).bind fun _ => .pure _
  | .interface [] [] => by
      rw [Workspace.threadWith, mapWith]
      exact .pure _
  | .interface [] (method :: methods) => by
      rw [Workspace.threadWith, mapWith] <;> try simp
      exact .pure _
  | .interface [embedded] methods => by
      rw [Workspace.threadWith, mapWith]
      exact follows_threadWith hov embedded
  | .interface (first :: second :: rest) methods => by
      rw [Workspace.threadWith, mapWith] <;> try simp
      exact .pure _
  | .union terms => by
      rw [Workspace.threadWith, mapWith]
      exact (follows_threadTerms hov terms).bind fun _ => .pure _
  | .typeParam name constraint => by
      have hconstraint := follows_threadWith hov constraint
      rw [Workspace.threadWith, mapWith_typeParam]
      exact (follows_threadConstraint hconstraint).bind fun _ => .pure _
  | .signature => by
      rw [Workspace.threadWith, mapWith]
      exact .fail _
  | .chan elem => by
      rw [Workspace.threadWith, mapWith]
      exact .fail _

theorem follows_threadList
    (hov : ∀ key, Follows ends stack (w.threadOverride jump key)
      (Mapping.overriding (overridden key))) :
    ∀ ts : List SourceType, Follows ends stack (w.threadList jump ts) (mapList w overridden ts)
  | [] => by
      rw [Workspace.threadList, mapList]
      exact .pure _
  | t :: rest => by
      rw [Workspace.threadList, mapList]
      exact (follows_threadWith hov t).bind fun _ =>
        (follows_threadList hov rest).bind fun _ => .pure _

theorem follows_threadTerms
    (hov : ∀ key, Follows ends stack (w.threadOverride jump key)
      (Mapping.overriding (overridden key))) :
    ∀ terms : List (TermOf SourceType),
      Follows ends stack (w.threadTerms jump terms) (mapTerms w overridden terms)
  | [] => by
      rw [Workspace.threadTerms, mapTerms]
      exact .pure _
  | ⟨tilde, t⟩ :: rest => by
      rw [Workspace.threadTerms, mapTerms]
      exact (follows_threadWith hov t).bind fun _ =>
        (follows_threadTerms hov rest).bind fun _ => .pure _

theorem follows_threadForeign
    (hov : ∀ key, Follows ends stack (w.threadOverride jump key)
      (Mapping.overriding (overridden key)))
    (qualified : String) : ∀ t : Option SourceType,
      Follows ends stack (w.threadForeign jump qualified t) (mapForeign w overridden qualified t)
  | none => by
      rw [Workspace.threadForeign, mapForeign]
      exact .fail _
  | some t => by
      have ht := follows_threadWith hov t
      cases t with
      | struct fields =>
          rw [Workspace.threadForeign, mapForeign]
          exact .pure _
      | _ =>
          rw [Workspace.threadForeign, mapForeign] <;> try simp
          exact ht.bind fun _ => .pure _

end

end Mapping

/-! ### Expanding overrides -/

namespace Workspace

variable {w : Workspace} {stack : List String}

/-- Whether an override stands for a type. No other one is passed over while it is being expanded. -/
def standsForType (w : Workspace) (key : String) : Bool :=
  match w.overrides.get? key with
  | some (.type _) => true
  | _ => false

theorem standsForType_iff {key : String} :
    w.standsForType key = true ↔ ∃ other, w.overrides.get? key = some (.type other) := by
  unfold standsForType
  split
  · rename_i other hget
    exact ⟨fun _ => ⟨other, hget⟩, fun _ => rfl⟩
  · rename_i hnone
    exact ⟨fun h => (nomatch h), fun ⟨other, hget⟩ => (hnone other hget).elim⟩

theorem expandable_filter (w : Workspace) (stack : List String) :
    w.Expandable (stack.filter w.standsForType) := fun _ hkey =>
  standsForType_iff.mp (List.mem_filter.mp hkey).2

/-- Maps a type while some overrides are being expanded. -/
def mapWhile (w : Workspace) (stack : List String) (t : SourceType) : Mapping MappedType :=
  TypeBridge.mapType w (w.inForce (stack.filter w.standsForType)) t

theorem mapWhile_nil (w : Workspace) (t : SourceType) : w.mapWhile [] t = w.mapType t := rfl

/-- An override that stands for a type is mapped while it is being expanded as well. -/
theorem mapWhile_eq_mapWith (w : Workspace) (stack : List String) (t : SourceType) :
    w.mapWhile stack t = mapWith w
      (overrideWhile w stack fun key => w.mapWhile (key :: stack)) t := by
  rw [mapWhile, mapType_eq_mapWith, overrideIn_inForce (w.expandable_filter stack)]
  congr 1
  funext key
  unfold overrideWhile
  split
  · rfl
  · rfl
  · rename_i other hget
    have htype : w.standsForType key = true := standsForType_iff.mpr ⟨other, hget⟩
    simp only [List.mem_filter, htype, and_true, mapWhile, List.filter_cons_of_pos]

/-- While one more override is being expanded, there is one less in force. -/
theorem size_inForce_lt {key : String} {other : SourceType}
    (hget : w.overrides.get? key = some (.type other)) (hkey : key ∉ stack) :
    (w.inForce ((key :: stack).filter w.standsForType)).size <
      (w.inForce (stack.filter w.standsForType)).size := by
  have hforce : (w.inForce (stack.filter w.standsForType)).get? key = some (.type other) := by
    rw [get?_inForce, if_neg fun hmem => hkey (List.mem_filter.mp hmem).1, hget]
  rw [List.filter_cons_of_pos (standsForType_iff.mpr ⟨other, hget⟩)]
  exact (w.inForce _).length_erase_lt hforce

/-- What an override says, given that the types that overrides stand for are mapped faithfully. -/
theorem follows_threadOverride {jump : SourceType → Threaded MappedType} {ends : Prop}
    (h : ∀ key other, w.overrides.get? key = some (.type other) → key ∉ stack →
      Follows ends (key :: stack) (jump other) (w.mapWhile (key :: stack) other))
    (key : String) :
    Follows ends stack (w.threadOverride jump key) (Mapping.overriding
      (overrideWhile w stack (fun key => w.mapWhile (key :: stack)) key)) := by
  rw [threadOverride, overrideWhile]
  cases hget : w.overrides.get? key with
  | none => exact .pure _
  | some override =>
      cases override with
      | expression e => exact .pure _
      | type other =>
          refine .get fun s hs => ?_
          dsimp only
          rw [hs]
          split
          · exact .pure _
          · rename_i hkey
            exact (h key other hget hkey).expanding.bind fun _ => .pure _

/-- A mapping does in its surroundings what it asks for, and gives its result. It comes to an end as
long as there are no more overrides in force than may be expanded inside one another. -/
theorem follows_threadWithin (depth : Nat) (stack : List String) (t : SourceType) :
    Follows ((w.inForce (stack.filter w.standsForType)).size ≤ depth) stack
      (w.threadWithin depth t) (w.mapWhile stack t) := by
  induction depth generalizing stack t with
  | zero =>
      rw [threadWithin, mapWhile_eq_mapWith]
      refine follows_threadWith (follows_threadOverride fun key other hget hkey => ?_) t
      have hless := size_inForce_lt hget hkey
      exact fun s _ => .inr ⟨by omega, rfl⟩
  | succ depth ih =>
      rw [threadWithin, mapWhile_eq_mapWith]
      refine follows_threadWith (follows_threadOverride fun key other hget hkey => ?_) t
      have hless := size_inForce_lt hget hkey
      exact (ih (key :: stack) other).mono fun hends => by omega

/-- A mapping comes to an end in one way. -/
theorem threads_iff (w : Workspace) (t : SourceType) (s : Surroundings)
    (out : Except Error MappedType × Surroundings) :
    w.Threads t s out ↔ out =
      ((w.mapWhile s.expanding t).result, s.heed (w.mapWhile s.expanding t).effects) := by
  have hfollows := fun depth => w.follows_threadWithin depth s.expanding t s rfl
  constructor
  · rintro ⟨depth, hrun⟩
    rcases hfollows depth with hout | ⟨-, hnone⟩
    · exact Option.some.inj (hrun.symm.trans hout)
    · rw [hnone] at hrun
      cases hrun
  · rintro rfl
    exact ⟨_, (hfollows _).resolve_right fun hnone => hnone.1 (Nat.le_refl _)⟩

end Workspace

/-! ### What a mapping leaves behind -/

/-- The event that a mapping asks to report. -/
def Effect.event? : Effect → Option Event
  | .report e => some e
  | _ => none

theorem Progress.events_heedAll (effects : List Effect) (s : Progress) :
    (Outcome.forEach heed effects s).events = effects.filterMap Effect.event? := by
  induction effects generalizing s with
  | nil => rfl
  | cons effect rest ih =>
      have hdone : (heed effect s).failure = none := by cases effect <;> rfl
      rw [Outcome.forEach, Outcome.andThen_of_done hdone]
      cases effect with
      | reference o => exact ih _
      | require b => exact ih _
      | report e => exact congrArg (e :: ·) (ih s)

/-- How a mapping leaves its surroundings: what it refers to is marked, the builtins that it asks for
are required, and its events are reported. Everything else is as it was. -/
structure Surroundings.Left (effects : List Effect) (s after : Surroundings) : Prop where
  progress : Progress.Heeded effects s.progress after.progress
  events : after.events = s.events ++ effects.filterMap Effect.event?
  expanding : after.expanding = s.expanding

theorem Surroundings.left_heed (effects : List Effect) (s : Surroundings) :
    s.Left effects (s.heed effects) := by
  have hends := Progress.heedAll_ends effects s.progress
  exact ⟨hends.reached (Progress.failure_heedAll effects s.progress),
    congrArg (s.events ++ ·) (Progress.events_heedAll effects s.progress), rfl⟩

namespace Workspace

/-- Mapping has no memory. Whatever was converted before, in two surroundings with the same overrides
being expanded a type has the same result, be it a type or an error, and the same is marked, required
and reported. The store, the objects generated and the overrides being expanded are left as they were.
With none being expanded, this is the mapping of the type. -/
theorem threads_without_memory (w : Workspace) (t : SourceType) {s s' : Surroundings}
    (h : s'.expanding = s.expanding) :
    ∃ m : Mapping MappedType, (s.expanding = [] → m = w.mapType t) ∧
      (∃ after, (∀ out, w.Threads t s out ↔ out = (m.result, after)) ∧ s.Left m.effects after) ∧
      ∃ after, (∀ out, w.Threads t s' out ↔ out = (m.result, after)) ∧
        s'.Left m.effects after := by
  refine ⟨w.mapWhile s.expanding t, fun hnone => ?_, ?_, ?_⟩
  · rw [hnone, mapWhile_nil]
  · exact ⟨_, w.threads_iff t s, s.left_heed _⟩
  · exact ⟨_, h ▸ w.threads_iff t s', s'.left_heed _⟩

end Workspace

/-- A type, and an override that says to take it for a list of itself. -/
def treeType : SourceType := .named ⟨some "wood", "Tree", [], none⟩

def treePackage : Package where
  path := "wood"
  name := "wood"
  objects := [.typeName { name := "Tree", underlying := .struct [] }]

def treeWorkspace : Workspace :=
  (Workspace.ofPackages [treePackage] (by decide)).override [("wood.Tree", .type (.slice treeType))]

/-- Something was converted already. -/
def treeSurroundings : Surroundings where
  progress := { marks := ({} : Marks).generate ⟨"wood", "Bark"⟩, builtins := [.comparable] }
  events := [.externalType "Bark" "wood"]

theorem threads_without_memory_tree :
    treeSurroundings.expanding = ({} : Surroundings).expanding ∧
    ∃ m : Mapping MappedType, m.effects = [.reference ⟨"wood", "Tree"⟩] ∧
      (m.result.toOption.map fun t => (Style.expr {} 0 t.value).toOption) = some (some "Tree[]") ∧
      (∃ after, (∀ out, treeWorkspace.Threads treeType {} out ↔ out = (m.result, after)) ∧
        ({} : Surroundings).Left m.effects after) ∧
      ∃ after, (∀ out, treeWorkspace.Threads treeType treeSurroundings out ↔
        out = (m.result, after)) ∧ treeSurroundings.Left m.effects after := by
  have hsame : treeSurroundings.expanding = ({} : Surroundings).expanding := rfl
  obtain ⟨m, hm, hrun, hrun'⟩ := treeWorkspace.threads_without_memory treeType hsame
  have hmapped : m = treeWorkspace.mapType treeType := hm rfl
  refine ⟨hsame, m, ?_, ?_, hrun, hrun'⟩
  · rw [hmapped]
    decide +kernel
  · rw [hmapped]
    decide +kernel

end TypeBridge
