import Mathlib.Logic.Function.Conjugate
import TypeBridge.Pass.Catalog
import TypeBridge.Proofs.Keyed

/-!
Passes over graphs. Most passes change every declaration by itself, whatever stands beside it, so
what they do to a graph is what they do to its declarations: two of them commute when their changes
of a declaration do.
-/

namespace TypeBridge

namespace Graph

@[simp] theorem keys_mapNodes (g : Graph) (f : String → Declaration → Declaration) :
    (g.mapNodes f).keys = g.keys :=
  Keyed.keys_mapValues g.nodes f

theorem get?_mapNodes (g : Graph) (f : String → Declaration → Declaration) (key : String) :
    (g.mapNodes f).get? key = (g.get? key).map (f key) :=
  Keyed.get?_mapValues g.nodes f key

theorem mapNodes_mapNodes (g : Graph) (f f' : String → Declaration → Declaration) :
    (g.mapNodes f).mapNodes f' = g.mapNodes fun key d => f' key (f key d) := by
  simp [mapNodes, Keyed.mapValues, Function.comp_def]

theorem mapNodes_id (g : Graph) : (g.mapNodes fun _ d => d) = g := by
  simp [mapNodes, Keyed.mapValues]

theorem mapNodes_eq_iff {g : Graph} {f f' : String → Declaration → Declaration} :
    g.mapNodes f = g.mapNodes f' ↔ ∀ key d, g.get? key = some d → f key d = f' key d := by
  constructor
  · intro h key d hd
    have hget := congrArg (fun g => g.get? key) h
    simpa [get?_mapNodes, hd] using hget
  · intro h
    have hentries : ∀ entry ∈ g.nodes.entries,
        (entry.1, f entry.1 entry.2) = (entry.1, f' entry.1 entry.2) := fun entry hentry => by
      rw [h entry.1 entry.2 (Keyed.mem_entries_iff.mp hentry)]
    have hnodes : g.nodes.mapValues f = g.nodes.mapValues f' :=
      Keyed.ext (List.map_congr_left hentries)
    rw [mapNodes, mapNodes, hnodes]

end Graph

/-- Changes the form of a declaration. -/
def Declaration.mapForm (f : Form → Form) (d : Declaration) : Declaration :=
  { d with form := f d.form }

namespace Declaration

theorem mapForm_commute {f g : Form → Form} (h : Function.Commute f g) :
    Function.Commute (mapForm f) (mapForm g) := by
  intro d
  simp [mapForm, h d.form]

/-- Exporting looks at the modifiers only. -/
theorem markExported_commute (f : Form → Form) : Function.Commute markExported (mapForm f) := by
  intro d
  unfold markExported mapForm
  by_cases h : d.modifiers.contains .exported = true
  · rw [if_pos h, if_pos h]
  · rw [if_neg h, if_neg h]

end Declaration

namespace Pass

/-- A pass that changes every declaration by itself, and always comes to its end. -/
def ChangesBy (pass : Pass) (f : Declaration → Declaration) : Prop :=
  ∀ g, pass.run g = .done (g.mapNodes fun _ => f)

/-- Two passes that come to their end on a graph and give the same in either order. -/
def CommuteOn (g : Graph) (p q : Pass) : Prop :=
  ∃ g', g.applyAll [p.change, q.change] = .done g' ∧ g.applyAll [q.change, p.change] = .done g'

/-- Two passes whose order never matters. -/
def Commute (p q : Pass) : Prop := ∀ g, CommuteOn g p q

theorem Commute.symm {p q : Pass} (h : Commute p q) : Commute q p := fun g =>
  (h g).imp fun _ ⟨hpq, hqp⟩ => ⟨hqp, hpq⟩

namespace ChangesBy

variable {p q : Pass} {f f' : Declaration → Declaration}

theorem apply (h : p.ChangesBy f) (g : Graph) :
    g.apply p.change = .done (g.mapNodes fun _ => f) :=
  congrArg (Outcome.mapError (.pass p.name)) (h g)

theorem applyAll (hp : p.ChangesBy f) (hq : q.ChangesBy f') (g : Graph) :
    g.applyAll [p.change, q.change] = .done (g.mapNodes fun _ d => f' (f d)) := by
  simp only [Graph.applyAll, Outcome.forEach, hp.apply, hq.apply, Outcome.andThen, Outcome.done,
    Graph.mapNodes_mapNodes, List.nil_append]

/-- Passes commute on a graph when their changes commute on each of its declarations. -/
theorem commuteOn_iff (hp : p.ChangesBy f) (hq : q.ChangesBy f') (g : Graph) :
    CommuteOn g p q ↔ ∀ key d, g.get? key = some d → f' (f d) = f (f' d) := by
  rw [CommuteOn, hp.applyAll hq, hq.applyAll hp, ← Graph.mapNodes_eq_iff]
  constructor
  · rintro ⟨g', hpq, hqp⟩
    exact congrArg Outcome.state (hpq.trans hqp.symm)
  · intro h
    exact ⟨_, rfl, congrArg _ h.symm⟩

theorem commute (hp : p.ChangesBy f) (hq : q.ChangesBy f') (h : Function.Commute f f') :
    Commute p q := by
  intro g
  rw [hp.commuteOn_iff hq]
  exact fun _ d _ => (h d).symm

theorem commute_self (h : p.ChangesBy f) : Commute p p := h.commute h (.refl f)

end ChangesBy

theorem changesBy_exportTypes : exportTypes.ChangesBy Declaration.markExported := fun _ => rfl

theorem changesBy_readOnly : readOnly.ChangesBy (Declaration.mapForm Form.readOnly) := fun _ => rfl

theorem changesBy_enumAsTypes : enumAsTypes.ChangesBy (Declaration.mapForm Form.enumAsType) :=
  fun _ => rfl

theorem changesBy_trimEnumPrefix :
    trimEnumPrefix.ChangesBy (Declaration.mapForm Form.trimMembers) := fun _ => rfl

theorem changesBy_simplifyOptional : simplifyOptional.ChangesBy (Declaration.mapForm
    fun form => form.simplifyFields.mapSubterms Expr.simplifyMembers) := fun _ => rfl

theorem changesBy_notNullMaps :
    notNullMaps.ChangesBy (Declaration.mapForm (Form.mapSubterms Expr.notNullMap)) := fun _ => rfl

theorem changesBy_nullUnionSlices :
    nullUnionSlices.ChangesBy (Declaration.mapForm (Form.mapSubterms Expr.notNullElements)) :=
  fun _ => rfl

theorem changesBy_interfaceToType :
    interfaceToType.ChangesBy (Declaration.mapForm Form.interfaceToType) := fun _ => rfl

end Pass

end TypeBridge
