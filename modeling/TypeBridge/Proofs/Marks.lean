import Mathlib.Data.List.Nodup
import TypeBridge.Marks
import TypeBridge.Proofs.Keyed

/-!
Marks through the status of each object. Referencing and generating change the status of one object,
the waiting objects are those that are marked and not generated, each listed once, and a sweep that
has handed out none of them hands out all of them.
-/

namespace TypeBridge.Marks

theorem names_setStatus (m : Marks) (o : ObjectName) (generated : Bool) (package : String) :
    (m.setStatus o generated).names package =
      if package = o.package then (m.names o.package).insert o.name generated
      else m.names package := by
  rw [names, setStatus, Keyed.get?_insert]
  split <;> rfl

theorem status_setStatus (m : Marks) (o x : ObjectName) (generated : Bool) :
    (m.setStatus o generated).status x = if x = o then some generated else m.status x := by
  obtain ⟨package, name⟩ := x
  rw [status, names_setStatus]
  by_cases hpackage : package = o.package
  · subst hpackage
    rw [if_pos rfl, Keyed.get?_insert]
    by_cases hname : name = o.name
    · rw [if_pos hname, if_pos (by subst hname; rfl)]
    · rw [if_neg hname, if_neg fun h => hname (congrArg ObjectName.name h)]
      rfl
  · rw [if_neg hpackage, if_neg fun h => hpackage (congrArg ObjectName.package h)]
    rfl

theorem status_reference (m : Marks) (o x : ObjectName) :
    (m.reference o).status x = if x = o then some (m.isGenerated o) else m.status x :=
  status_setStatus m o x (m.isGenerated o)

theorem status_generate (m : Marks) (o x : ObjectName) :
    (m.generate o).status x = if x = o then some true else m.status x :=
  status_setStatus m o x true

theorem isReferenced_reference (m : Marks) (o x : ObjectName) :
    (m.reference o).isReferenced x = true ↔ x = o ∨ m.isReferenced x = true := by
  rw [isReferenced, isReferenced, status_reference]
  by_cases h : x = o <;> simp [h]

theorem isReferenced_generate (m : Marks) (o x : ObjectName) :
    (m.generate o).isReferenced x = true ↔ x = o ∨ m.isReferenced x = true := by
  rw [isReferenced, isReferenced, status_generate]
  by_cases h : x = o <;> simp [h]

theorem isGenerated_reference (m : Marks) (o x : ObjectName) :
    (m.reference o).isGenerated x = m.isGenerated x := by
  rw [isGenerated, status_reference]
  by_cases h : x = o
  · rw [if_pos h, h]
    rfl
  · rw [if_neg h]
    rfl

theorem isGenerated_generate (m : Marks) (o x : ObjectName) :
    (m.generate o).isGenerated x = true ↔ x = o ∨ m.isGenerated x = true := by
  rw [isGenerated, isGenerated, status_generate]
  by_cases h : x = o <;> simp [h]

theorem status_eq_some_iff {m : Marks} {x : ObjectName} {b : Bool} :
    m.status x = some b ↔
      ∃ names, (x.package, names) ∈ m.packages.entries ∧ (x.name, b) ∈ names.entries := by
  simp only [Keyed.mem_entries_iff, status, names]
  cases hnames : m.packages.get? x.package with
  | none => simp [Keyed.get?, EmptyCollection.emptyCollection, Keyed.empty]
  | some names => simp

theorem mem_waiting_iff {m : Marks} {x : ObjectName} :
    x ∈ m.waiting ↔ m.isReferenced x = true ∧ m.isGenerated x = false := by
  have hstatus : x ∈ m.waiting ↔ m.status x = some false := by
    rw [status_eq_some_iff, waiting, List.mem_flatMap]
    constructor
    · rintro ⟨⟨package, names⟩, hpackage, hx⟩
      obtain ⟨⟨name, generated⟩, hname, rfl⟩ := List.mem_map.mp hx
      rw [List.mem_filter] at hname
      have hfalse : generated = false := by simpa using hname.2
      exact ⟨names, hpackage, hfalse ▸ hname.1⟩
    · rintro ⟨names, hpackage, hname⟩
      refine ⟨(x.package, names), hpackage, List.mem_map.mpr ⟨(x.name, false), ?_, rfl⟩⟩
      exact List.mem_filter.mpr ⟨hname, rfl⟩
  rw [hstatus, isReferenced, isGenerated]
  cases m.status x with
  | none => simp
  | some b => cases b <;> simp

theorem nodup_waiting (m : Marks) : m.waiting.Nodup := by
  rw [waiting, List.nodup_flatMap]
  constructor
  · intro package _
    refine List.Nodup.map_on ?_ (List.Nodup.filter _ (List.Nodup.of_map _ package.2.nodup))
    intro a ha b hb hab
    have hname : a.1 = b.1 := congrArg ObjectName.name hab
    have ha' : (a.1, a.2) ∈ package.2.entries := (List.mem_filter.mp ha).1
    have hb' : (b.1, b.2) ∈ package.2.entries := (List.mem_filter.mp hb).1
    rw [Keyed.mem_entries_iff] at ha' hb'
    rw [hname, hb', Option.some.injEq] at ha'
    exact Prod.ext hname ha'.symm
  · refine (List.pairwise_map.mp m.packages.nodup).imp ?_
    intro a b hab
    refine List.disjoint_left.mpr fun x hxa hxb => hab ?_
    obtain ⟨_, _, rfl⟩ := List.mem_map.mp hxa
    obtain ⟨_, _, hx⟩ := List.mem_map.mp hxb
    exact (congrArg ObjectName.package hx).symm

/-- Objects that were not handed out are handed out before all others. -/
theorem handOut_append (sweep : Sweep) {before : List ObjectName} (hnodup : before.Nodup)
    (hnew : ∀ x ∈ before, x ∉ sweep.tried) (rest : List ObjectName) :
    handOut sweep (before ++ rest) = handOut ⟨before.reverse ++ sweep.tried⟩ rest := by
  induction before generalizing sweep with
  | nil => rfl
  | cons o before ih =>
      obtain ⟨hout, hnodup⟩ := List.nodup_cons.mp hnodup
      have hfresh : sweep.tried.contains o = false := by
        simpa using hnew o List.mem_cons_self
      have hstep := ih ⟨o :: sweep.tried⟩ hnodup fun x hx hmem => by
        rcases List.mem_cons.mp hmem with rfl | hold
        · exact hout hx
        · exact hnew x (List.mem_cons_of_mem _ hx) hold
      rw [List.cons_append, handOut, hfresh, List.reverse_cons, List.append_assoc]
      exact hstep

theorem remaining_of_new {m : Marks} {sweep : Sweep} (h : ∀ x ∈ m.waiting, x ∉ sweep.tried) :
    m.remaining sweep = (.ok m.waiting, ⟨m.waiting.reverse ++ sweep.tried⟩) := by
  have hhand := handOut_append sweep m.nodup_waiting h []
  rw [List.append_nil] at hhand
  rw [remaining, hhand]
  rfl

/-- While everything a sweep handed out was generated, it hands out all waiting objects. -/
theorem remaining_of_generated {m : Marks} {sweep : Sweep}
    (h : ∀ x ∈ sweep.tried, m.isGenerated x = true) :
    ∃ next, m.remaining sweep = (.ok m.waiting, next) ∧
      ∀ x ∈ next.tried, x ∈ sweep.tried ∨ x ∈ m.waiting := by
  refine ⟨_, remaining_of_new fun x hx hmem => ?_, fun x hx => ?_⟩
  · rw [mem_waiting_iff, h x hmem] at hx
    cases hx.2
  · rcases List.mem_append.mp hx with hnew | hold
    · exact .inr (List.mem_reverse.mp hnew)
    · exact .inl hold

end TypeBridge.Marks
