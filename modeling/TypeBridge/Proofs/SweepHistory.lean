import Mathlib.Algebra.BigOperators.Group.List.Basic
import Mathlib.Data.Finset.Card
import Mathlib.Data.List.Flatten
import TypeBridge.Proofs.Marks
import TypeBridge.Proofs.Outcome

/-!
Sweeps by the history of all calls to them and to the marks below. Each call hands out the objects
that earlier calls marked and did not generate, by package, in the order of the first marks. No object
is handed out twice: a call that would do so fails instead, exactly if an object that was handed out
is still not generated, and names the first such object. So whoever generates what it is handed, and
marks no more than `n` objects, is handed nothing by one of the first `n + 1` calls.
-/

namespace TypeBridge

/-- A call that marks an object, or that asks a sweep for what remains. -/
inductive MarkCall where
  | reference (o : ObjectName)
  | generate (o : ObjectName)
  | remaining
deriving DecidableEq

/-! ### What calls amount to -/

/-- Objects by package: the packages in the order in which they first occur, and the names of each
package likewise. -/
def ObjectName.byPackage (objects : List ObjectName) : List ObjectName :=
  (objects.map package).eraseDups.flatMap fun p =>
    ((objects.filter fun o => o.package == p).map name).eraseDups.map (ObjectName.mk p)

theorem ObjectName.mem_byPackage {objects : List ObjectName} {o : ObjectName} :
    o ∈ byPackage objects ↔ o ∈ objects := by
  simp only [byPackage, List.mem_flatMap, List.mem_map, List.mem_eraseDups, List.mem_filter,
    beq_iff_eq]
  constructor
  · rintro ⟨_, -, _, ⟨x, ⟨hx, rfl⟩, rfl⟩, rfl⟩
    exact hx
  · intro ho
    exact ⟨o.package, ⟨o, ho, rfl⟩, o.name, ⟨o, ⟨ho, rfl⟩, rfl⟩, rfl⟩

theorem ObjectName.nodup_byPackage (objects : List ObjectName) : (byPackage objects).Nodup := by
  rw [byPackage, List.nodup_flatMap]
  constructor
  · intro p _
    exact (Keyed.nodup_eraseDups _).map fun a b hab => congrArg name hab
  · refine (Keyed.nodup_eraseDups _).imp fun hne => List.disjoint_left.mpr fun x hxa hxb => hne ?_
    obtain ⟨_, _, rfl⟩ := List.mem_map.mp hxa
    obtain ⟨_, _, hx⟩ := List.mem_map.mp hxb
    exact (congrArg package hx).symm

namespace MarkCall

def object? : MarkCall → Option ObjectName
  | reference o => some o
  | generate o => some o
  | remaining => none

/-- The objects that calls mark, in the order of the calls. -/
def marked (calls : List MarkCall) : List ObjectName := calls.filterMap object?

/-- The objects that calls mark and do not generate, by package. -/
def waiting (calls : List MarkCall) : List ObjectName :=
  (ObjectName.byPackage (marked calls)).filter fun o => !calls.contains (.generate o)

theorem mem_marked_iff {calls : List MarkCall} {o : ObjectName} :
    o ∈ marked calls ↔ .reference o ∈ calls ∨ .generate o ∈ calls := by
  rw [marked, List.mem_filterMap]
  constructor
  · rintro ⟨c | c | _, hc, hobject⟩
    · cases hobject
      exact .inl hc
    · cases hobject
      exact .inr hc
    · cases hobject
  · rintro (h | h)
    · exact ⟨_, h, rfl⟩
    · exact ⟨_, h, rfl⟩

theorem mem_waiting_iff {calls : List MarkCall} {o : ObjectName} :
    o ∈ waiting calls ↔ o ∈ marked calls ∧ .generate o ∉ calls := by
  simp [waiting, ObjectName.mem_byPackage]

theorem nodup_waiting (calls : List MarkCall) : (waiting calls).Nodup :=
  (ObjectName.nodup_byPackage _).filter _

/-- Only a reference makes an object wait. -/
theorem reference_mem_of_waiting {calls : List MarkCall} {o : ObjectName} (h : o ∈ waiting calls) :
    .reference o ∈ calls := by
  obtain ⟨hmarked, hnot⟩ := mem_waiting_iff.mp h
  exact (mem_marked_iff.mp hmarked).resolve_right hnot

end MarkCall

/-! ### One answer -/

namespace Marks

/-- The waiting objects through the keys of the marks. -/
theorem waiting_eq_keys (m : Marks) :
    m.waiting = m.packages.keys.flatMap fun p =>
      ((m.names p).keys.map (ObjectName.mk p)).filter fun o => !m.isGenerated o := by
  rw [waiting, Keyed.keys, List.flatMap_map]
  refine List.flatMap_congr fun package hpackage => ?_
  have hnames : m.names package.1 = package.2 := by
    rw [names, Keyed.mem_entries_iff.mp hpackage]
    rfl
  rw [hnames, Keyed.keys, List.map_map, List.filter_map]
  congr 1
  refine List.filter_congr fun entry hentry => ?_
  have hstatus : m.status ⟨package.1, entry.1⟩ = some entry.2 :=
    status_eq_some_iff.mpr ⟨package.2, hpackage, hentry⟩
  simp [isGenerated, hstatus]

/-- The first object that was handed out before stops a sweep. -/
theorem remaining_of_seen {m : Marks} {sweep : Sweep} {before after : List ObjectName}
    {o : ObjectName} (hsplit : m.waiting = before ++ o :: after)
    (hnew : ∀ x ∈ before, x ∉ sweep.tried) (hseen : o ∈ sweep.tried) :
    (m.remaining sweep).1 = .error (.circularGeneration o.package o.name) := by
  have hnodup : before.Nodup := (hsplit ▸ m.nodup_waiting).of_append_left
  have htried : (before.reverse ++ sweep.tried).contains o = true := by
    simpa using Or.inr hseen
  rw [remaining, hsplit, handOut_append sweep hnodup hnew, handOut, htried]
  rfl

end Marks

/-! ### All calls -/

/-- Marks, a sweep over them, and the lists that it has handed out so far. -/
structure Sweeping where
  marks : Marks := {}
  sweep : Sweep := {}
  answers : List (List ObjectName) := []

namespace Sweeping

/-- All objects that were handed out. -/
def handed (t : Sweeping) : List ObjectName := t.answers.flatten

/-- What the sweep answers next. -/
def answer (t : Sweeping) : Except Error (List ObjectName) := (t.marks.remaining t.sweep).1

/-- Makes a call. -/
def call (c : MarkCall) (t : Sweeping) : Outcome Sweeping :=
  match c with
  | .reference o => .done { t with marks := t.marks.reference o }
  | .generate o => .done { t with marks := t.marks.generate o }
  | .remaining =>
      let next := { t with sweep := (t.marks.remaining t.sweep).2 }
      match t.answer with
      | .ok objects => .done { next with answers := t.answers ++ [objects] }
      | .error e => .stopped next e

/-- Makes calls in order, up to the first that fails. -/
def run (calls : List MarkCall) : Outcome Sweeping := Outcome.forEach call calls {}

/-- The state that the calls so far have brought about. -/
structure Follows (calls : List MarkCall) (t : Sweeping) : Prop where
  packages : t.marks.packages.keys = ((MarkCall.marked calls).map ObjectName.package).eraseDups
  names : ∀ package, (t.marks.names package).keys =
    (((MarkCall.marked calls).filter fun o => o.package == package).map ObjectName.name).eraseDups
  generated : ∀ o, t.marks.isGenerated o = calls.contains (.generate o)
  tried : ∀ o, o ∈ t.sweep.tried ↔ o ∈ t.handed
  nodup : t.handed.Nodup
  referenced : ∀ o ∈ t.handed, .reference o ∈ calls
  length : t.answers.length = calls.count .remaining

namespace Follows

variable {calls : List MarkCall} {t : Sweeping}

theorem start : Follows [] {} where
  packages := rfl
  names _ := rfl
  generated _ := rfl
  tried _ := Iff.rfl
  nodup := List.nodup_nil
  referenced _ h := nomatch h
  length := rfl

theorem waiting_eq (h : Follows calls t) : t.marks.waiting = MarkCall.waiting calls := by
  rw [Marks.waiting_eq_keys, MarkCall.waiting, ObjectName.byPackage, List.filter_flatMap, h.packages]
  simp only [h.names, h.generated]

/-- What is handed out and still waits is what was not generated. -/
theorem mem_waiting_iff (h : Follows calls t) {o : ObjectName} (ho : o ∈ t.handed) :
    o ∈ MarkCall.waiting calls ↔ .generate o ∉ calls := by
  rw [MarkCall.mem_waiting_iff, and_iff_right]
  exact MarkCall.mem_marked_iff.mpr (.inl (h.referenced o ho))

/-- A mark goes to the end, unless its object was marked before. -/
theorem marking (h : Follows calls t) {c : MarkCall} {o : ObjectName} {generated : Bool}
    (hobject : c.object? = some o)
    (hgenerated : ∀ x, (t.marks.setStatus o generated).isGenerated x =
      (calls ++ [c]).contains (.generate x)) :
    Follows (calls ++ [c]) { t with marks := t.marks.setStatus o generated } := by
  have hmarked : MarkCall.marked (calls ++ [c]) = MarkCall.marked calls ++ [o] := by
    simp [MarkCall.marked, hobject]
  have hcount : (calls ++ [c]).count .remaining = calls.count .remaining := by
    cases c <;> simp_all [MarkCall.object?]
  constructor
  case packages =>
    rw [hmarked, List.map_append]
    exact Keyed.keys_insert_of_history h.packages _ _
  case names =>
    intro package
    rw [Marks.names_setStatus, hmarked, List.filter_append, List.map_append]
    by_cases hpackage : package = o.package
    · subst hpackage
      rw [if_pos rfl]
      simpa using Keyed.keys_insert_of_history (h.names o.package) o.name generated
    · have hother : (o.package == package) = false := beq_eq_false_iff_ne.mpr (Ne.symm hpackage)
      rw [if_neg hpackage]
      simpa [hother] using h.names package
  case generated => exact hgenerated
  case tried => exact h.tried
  case nodup => exact h.nodup
  case referenced => exact fun x hx => List.mem_append_left _ (h.referenced x hx)
  case length => exact h.length.trans hcount.symm

/-- A sweep that has handed out none of the waiting objects hands them out. -/
theorem handing (h : Follows calls t) (hnew : ∀ o ∈ MarkCall.waiting calls, o ∉ t.handed) :
    Follows (calls ++ [.remaining])
      { t with
        sweep := ⟨(MarkCall.waiting calls).reverse ++ t.sweep.tried⟩
        answers := t.answers ++ [MarkCall.waiting calls] } := by
  have hmarked : MarkCall.marked (calls ++ [.remaining]) = MarkCall.marked calls := by
    simp [MarkCall.marked, MarkCall.object?]
  have hwaiting : (MarkCall.waiting calls).Nodup := h.waiting_eq ▸ t.marks.nodup_waiting
  constructor
  case packages => exact hmarked ▸ h.packages
  case names => exact hmarked ▸ h.names
  case generated => simpa using h.generated
  case tried =>
    intro o
    simp [handed, h.tried o, or_comm]
  case nodup =>
    simp only [handed, List.flatten_append, List.flatten_singleton]
    exact h.nodup.append hwaiting fun o hold hwait => hnew o hwait hold
  case referenced =>
    intro o ho
    simp only [handed, List.flatten_append, List.flatten_singleton, List.mem_append] at ho
    exact List.mem_append_left _ (ho.elim (h.referenced o) MarkCall.reference_mem_of_waiting)
  case length => simp [h.length]

/-- A sweep hands out what waits, or it stops at the first of these objects that it knows. -/
theorem remaining_cases (h : Follows calls t) :
    ((∀ o ∈ MarkCall.waiting calls, o ∉ t.handed) ∧
      t.marks.remaining t.sweep =
        (.ok (MarkCall.waiting calls), ⟨(MarkCall.waiting calls).reverse ++ t.sweep.tried⟩)) ∨
    ∃ before o after, MarkCall.waiting calls = before ++ o :: after ∧
      (∀ x ∈ before, x ∉ t.handed) ∧ o ∈ t.handed ∧
      t.answer = .error (.circularGeneration o.package o.name) := by
  by_cases hnew : ∀ o ∈ MarkCall.waiting calls, o ∉ t.handed
  · have hout : ∀ o ∈ t.marks.waiting, o ∉ t.sweep.tried := fun o ho =>
      (h.tried o).not.mpr (hnew o (h.waiting_eq ▸ ho))
    exact .inl ⟨hnew, h.waiting_eq ▸ Marks.remaining_of_new hout⟩
  · obtain ⟨o, hfirst⟩ : ∃ o, (MarkCall.waiting calls).find? (· ∈ t.handed) = some o := by
      rw [← Option.isSome_iff_exists, List.find?_isSome]
      simpa using hnew
    obtain ⟨hseen, before, after, hsplit, hbefore⟩ := List.find?_eq_some_iff_append.mp hfirst
    have hbefore : ∀ x ∈ before, x ∉ t.handed := fun x hx => by simpa using hbefore x hx
    have hseen : o ∈ t.handed := by simpa using hseen
    refine .inr ⟨before, o, after, hsplit, hbefore, hseen, ?_⟩
    refine Marks.remaining_of_seen (h.waiting_eq.trans hsplit) (fun x hx => ?_) ?_
    · exact (h.tried x).not.mpr (hbefore x hx)
    · exact (h.tried o).mpr hseen

/-- A call that comes to its end is followed. -/
theorem calling (h : Follows calls t) {c : MarkCall} {next : Sweeping}
    (hnext : (call c t).result = .ok next) : Follows (calls ++ [c]) next := by
  cases c with
  | reference o =>
      cases hnext
      refine h.marking rfl fun x => (t.marks.isGenerated_reference o x).trans ?_
      simpa using h.generated x
  | generate o =>
      cases hnext
      refine h.marking rfl fun x => Bool.eq_iff_iff.mpr ((t.marks.isGenerated_generate o x).trans ?_)
      simp [h.generated, or_comm]
  | remaining =>
      rcases h.remaining_cases with ⟨hnew, hremaining⟩ | ⟨_, _, _, -, -, -, herror⟩
      · rw [call, answer, hremaining] at hnext
        cases hnext
        exact h.handing hnew
      · rw [call, herror] at hnext
        cases hnext

/-- A sweep fails when an object that it has handed out was not generated. -/
theorem exists_error_iff (h : Follows calls t) :
    (∃ e, t.answer = .error e) ↔ ∃ o ∈ t.handed, .generate o ∉ calls := by
  rcases h.remaining_cases with ⟨hnew, hremaining⟩ | ⟨before, o, after, hsplit, -, hseen, herror⟩
  · refine iff_of_false (fun ⟨e, he⟩ => ?_) fun ⟨o, hseen, hnot⟩ => ?_
    · rw [answer, hremaining] at he
      cases he
    · exact hnew o ((h.mem_waiting_iff hseen).mpr hnot) hseen
  · refine iff_of_true ⟨_, herror⟩ ⟨o, hseen, (h.mem_waiting_iff hseen).mp ?_⟩
    exact hsplit ▸ List.mem_append_right _ List.mem_cons_self

theorem answer_eq_ok_iff (h : Follows calls t) {objects : List ObjectName} :
    t.answer = .ok objects ↔
      objects = MarkCall.waiting calls ∧ ∀ o ∈ t.handed, .generate o ∈ calls := by
  have hall : (∀ o ∈ t.handed, .generate o ∈ calls) ↔ ¬∃ e, t.answer = .error e := by
    simp [h.exists_error_iff]
  rw [hall]
  rcases h.remaining_cases with ⟨-, hremaining⟩ | ⟨_, _, _, -, -, -, herror⟩
  · simp [answer, hremaining, eq_comm]
  · simp [herror]

theorem answer_eq_error_iff (h : Follows calls t) {e : Error} :
    t.answer = .error e ↔
      ∃ before o after, MarkCall.waiting calls = before ++ o :: after ∧
        (∀ x ∈ before, x ∉ t.handed) ∧ o ∈ t.handed ∧
        e = .circularGeneration o.package o.name := by
  constructor
  · intro he
    rcases h.remaining_cases with ⟨-, hremaining⟩ | ⟨before, o, after, hsplit, hnew, hseen, herror⟩
    · rw [answer, hremaining] at he
      cases he
    · exact ⟨before, o, after, hsplit, hnew, hseen, Except.error.inj (he.symm.trans herror)⟩
  · rintro ⟨before, o, after, hsplit, hnew, hseen, rfl⟩
    refine Marks.remaining_of_seen (h.waiting_eq.trans hsplit) (fun x hx => ?_) ?_
    · exact (h.tried x).not.mpr (hnew x hx)
    · exact (h.tried o).mpr hseen

end Follows

theorem follows_run {calls : List MarkCall} {t : Sweeping} (h : (run calls).result = .ok t) :
    Follows calls t := by
  induction calls using List.reverseRecOn generalizing t with
  | nil =>
      cases h
      exact Follows.start
  | append_singleton calls c ih =>
      obtain ⟨mid, hmid, hnext⟩ := Outcome.result_forEach_concat_iff.mp h
      exact (ih hmid).calling hnext

/-! ### Calls that generate what they are handed -/

/-- Whenever something is asked for, everything that was handed out is generated. -/
def Diligent (calls : List MarkCall) : Prop :=
  ∀ before after t, calls = before ++ .remaining :: after → (run before).result = .ok t →
    ∀ o ∈ t.handed, .generate o ∈ before

theorem Diligent.exists_result {calls : List MarkCall} (h : Diligent calls) :
    ∃ t, (run calls).result = .ok t := by
  induction calls using List.reverseRecOn with
  | nil => exact ⟨{}, rfl⟩
  | append_singleton calls c ih =>
      have hbefore : Diligent calls := fun before after t hsplit =>
        h before (after ++ [c]) t (by rw [hsplit, List.append_assoc, List.cons_append])
      obtain ⟨mid, hmid⟩ := ih hbefore
      have hstep : ∃ t, (call c mid).result = .ok t := by
        cases c with
        | reference o => exact ⟨_, rfl⟩
        | generate o => exact ⟨_, rfl⟩
        | remaining =>
            have hanswer := (follows_run hmid).answer_eq_ok_iff.mpr ⟨rfl, h calls [] mid rfl hmid⟩
            rw [call, hanswer]
            exact ⟨_, rfl⟩
      obtain ⟨t, ht⟩ := hstep
      exact ⟨t, Outcome.result_forEach_concat_iff.mpr ⟨mid, hmid, ht⟩⟩

/-- Each list but the empty ones uses up an object, and no object is in two of them. -/
theorem Follows.nil_mem_answers {calls : List MarkCall} {t : Sweeping} (h : Follows calls t)
    {objects : Finset ObjectName} (hwithin : ∀ o, .reference o ∈ calls → o ∈ objects)
    (hcount : objects.card < calls.count .remaining) : [] ∈ t.answers.take (objects.card + 1) := by
  -- were none of the lists empty, they would hold more objects than there are
  by_contra hnil
  have hflat : (t.answers.take (objects.card + 1)).flatten.Sublist t.handed :=
    (List.take_sublist _ _).flatten
  have hmany : objects.card + 1 ≤ (t.answers.take (objects.card + 1)).flatten.length := by
    calc objects.card + 1
        = ((t.answers.take (objects.card + 1)).map List.length).length := by
          rw [List.length_map, List.length_take, h.length]
          omega
      _ ≤ ((t.answers.take (objects.card + 1)).map List.length).sum := by
          refine List.length_le_sum_of_one_le _ fun n hn => ?_
          obtain ⟨answer, hanswer, rfl⟩ := List.mem_map.mp hn
          exact List.length_pos_iff.mpr fun hempty => hnil (hempty ▸ hanswer)
      _ = _ := List.length_flatten.symm
  have hfew : (t.answers.take (objects.card + 1)).flatten.length ≤ objects.card := by
    rw [← List.toFinset_card_of_nodup (hflat.nodup h.nodup)]
    refine Finset.card_le_card fun o ho => hwithin o (h.referenced o ?_)
    exact hflat.subset (List.mem_toFinset.mp ho)
  omega

/-- What a sweep answers after calls that came to their end, and when it has nothing left. -/
theorem hands_out_waiting (calls : List MarkCall) :
    (MarkCall.waiting calls).Nodup ∧
    (∀ o, o ∈ MarkCall.waiting calls ↔
      (.reference o ∈ calls ∨ .generate o ∈ calls) ∧ .generate o ∉ calls) ∧
    (∀ t, (run calls).result = .ok t →
      t.handed.Nodup ∧
      (∀ o, (call (.reference o) t).failure = none ∧ (call (.generate o) t).failure = none) ∧
      (∀ objects, t.answer = .ok objects ↔
        objects = MarkCall.waiting calls ∧ ∀ o ∈ t.handed, .generate o ∈ calls) ∧
      ((∃ e, t.answer = .error e) ↔ ∃ o ∈ t.handed, .generate o ∉ calls) ∧
      (∀ e, t.answer = .error e ↔ ∃ before o after,
        MarkCall.waiting calls = before ++ o :: after ∧ (∀ x ∈ before, x ∉ t.handed) ∧
        o ∈ t.handed ∧ e = .circularGeneration o.package o.name)) ∧
    (Diligent calls → ∀ objects : Finset ObjectName, (∀ o, .reference o ∈ calls → o ∈ objects) →
      ∃ t, (run calls).result = .ok t ∧ t.answers.length = calls.count .remaining ∧
        (objects.card < calls.count .remaining → [] ∈ t.answers.take (objects.card + 1))) := by
  refine ⟨MarkCall.nodup_waiting calls, fun o => ?_, fun t ht => ?_,
    fun hdiligent objects hwithin => ?_⟩
  · rw [MarkCall.mem_waiting_iff, MarkCall.mem_marked_iff]
  · have h := follows_run ht
    exact ⟨h.nodup, fun o => ⟨rfl, rfl⟩, fun _ => h.answer_eq_ok_iff, h.exists_error_iff,
      fun _ => h.answer_eq_error_iff⟩
  · obtain ⟨t, ht⟩ := hdiligent.exists_result
    exact ⟨t, ht, (follows_run ht).length, (follows_run ht).nil_mem_answers hwithin⟩

end Sweeping

end TypeBridge
