import Mathlib.Logic.Relation
import TypeBridge.Proofs.DumpFormat
import TypeBridge.Proofs.Keyed

/-!
Decoding does not see edits. The decoder of types has the depth of its tree as a bound, and an edit
can change the depth; so it is first shown that a bound matters only when it is too small, and then
that with one bound for both, a tree and the edited one are decoded alike.
-/

namespace TypeBridge

namespace Json

theorem depth_le_of_mem_items {items : List Json} {item : Json} (h : item ∈ items) :
    item.depth ≤ depthItems items := by
  induction items with
  | nil => cases h
  | cons first rest ih =>
      rw [depthItems]
      rcases List.mem_cons.mp h with rfl | hrest
      · exact Nat.le_max_left ..
      · exact Nat.le_trans (ih hrest) (Nat.le_max_right ..)

theorem depth_le_of_mem_members {members : List (String × Json)} {member : String × Json}
    (h : member ∈ members) : member.2.depth ≤ depthMembers members := by
  induction members with
  | nil => cases h
  | cons first rest ih =>
      rw [depthMembers]
      rcases List.mem_cons.mp h with rfl | hrest
      · exact Nat.le_max_left ..
      · exact Nat.le_trans (ih hrest) (Nat.le_max_right ..)

theorem depthMembers_le {members : List (String × Json)} {n : Nat}
    (h : ∀ member ∈ members, member.2.depth ≤ n) : depthMembers members ≤ n := by
  induction members with
  | nil => exact Nat.zero_le n
  | cons first rest ih =>
      rw [depthMembers]
      exact Nat.max_le.mpr ⟨h first List.mem_cons_self,
        ih fun m hm => h m (List.mem_cons_of_mem _ hm)⟩

theorem depth_pos (j : Json) : 0 < j.depth := by
  cases j <;> simp [depth]

/-- What stands in a record is less deep than the record. -/
theorem depth_lt_of_members {names : List String} {j v : Json} {m : Members} {name : String}
    (hm : j.members names = .ok m) (hv : m name = some v) : v.depth < j.depth := by
  cases j with
  | object members =>
      simp only [Json.members] at hm
      split at hm
      · cases hm
      · cases hm
        rw [depth, Nat.lt_succ_iff]
        exact depth_le_of_mem_members (Keyed.mem_of_lookup_eq_some hv)
  | array items =>
      simp only [Json.members] at hm
      split at hm
      · cases hm
      · cases hm
        rw [depth, Nat.lt_succ_iff]
        exact depth_le_of_mem_items (List.of_mem_zip (Keyed.mem_of_lookup_eq_some hv)).2
  | _ => cases hm

theorem depth_le_of_tagged {j tag record : Json} (h : j.tagged = .ok (tag, record)) :
    record.depth ≤ j.depth := by
  cases j with
  | object members =>
      simp only [tagged] at h
      split at h
      · cases h
        rw [depth, depth]
        exact Nat.succ_le_succ (depthMembers_le fun member hmember =>
          depth_le_of_mem_members (List.mem_of_mem_filter hmember))
      · cases h
  | array items =>
      cases items with
      | nil => cases h
      | cons first rest =>
          cases h
          rw [depth, depth, depthItems]
          exact Nat.succ_le_succ (Nat.le_max_right ..)
  | _ => cases h

end Json

namespace Dump

/-! ### The bound of the depth -/

/-- The same value, within some depth. -/
def Shallow (n : Nat) (_ : Place) (v v' : Json) : Prop := v' = v ∧ v.depth ≤ n

theorem recordsAlike_shallow {n : Nat} {fields : List FieldRule} {j : Json} (h : j.depth ≤ n + 1) :
    RecordsAlike (Shallow n) fields j j := by
  refine fun m hm => ⟨m, hm, fun name rule _ => ?_⟩
  cases hv : m name with
  | none => exact .missing
  | some v =>
      have hless := Json.depth_lt_of_members hm hv
      exact .kept ⟨rfl, Nat.le_of_lt_succ (Nat.lt_of_lt_of_le hless h)⟩

theorem taggedAlike_shallow {n : Nat} {form : RecordForm} {j : Json} (h : j.depth ≤ n + 1) :
    TaggedAlike (Shallow n) form j j := fun _ record htagged =>
  ⟨record, htagged, recordsAlike_shallow (Nat.le_trans (Json.depth_le_of_tagged htagged) h)⟩

theorem compatible_shallow (n : Nat) : Compatible (Shallow n) where
  plain h := h.1
  list := by
    rintro item items v' ⟨rfl, h⟩
    rw [Json.depth] at h
    exact ⟨items, rfl, List.forall₂_same.mpr fun v hv =>
      ⟨rfl, Nat.le_trans (Json.depth_le_of_mem_items hv) (Nat.le_of_succ_le h)⟩⟩
  null h := by rw [h.1]
  untagged := by
    rintro form v v' - ⟨rfl, h⟩
    exact recordsAlike_shallow (Nat.le_succ_of_le h)
  tagged := by
    rintro form v v' - ⟨rfl, h⟩
    exact taggedAlike_shallow (Nat.le_succ_of_le h)

/-- A type that is decoded within one bound is decoded within any bound that its tree keeps. -/
theorem carries_ofJsonWithin_shallow (n n' : Nat) : Carries (Shallow n') (.record .type)
    (SourceType.ofJsonWithin n) (SourceType.ofJsonWithin n') := by
  induction n generalizing n' with
  | zero => exact fun _ _ _ _ h => nomatch h
  | succ n ih =>
      rintro v v' ⟨rfl, hdepth⟩ t h
      cases n' with
      | zero => exact absurd v'.depth_pos (Nat.not_lt.mpr hdepth)
      | succ n' =>
          exact decode_type_of_alike (compatible_shallow n') (ih n') (taggedAlike_shallow hdepth) h

/-! ### Records and their edits -/

/-- A value and what one edit may make of it. -/
def Near (place : Place) (v v' : Json) : Prop := v' = v ∨ Edit place v v'

/-- The values of the members of a name. -/
def valuesOf (name : String) (members : List (String × Json)) : List Json :=
  (members.filter fun member => member.1 == name).map Prod.snd

theorem valuesOf_append (name : String) (front back : List (String × Json)) :
    valuesOf name (front ++ back) = valuesOf name front ++ valuesOf name back := by
  rw [valuesOf, List.filter_append, List.map_append]
  rfl

theorem valuesOf_cons_self (name : String) (v : Json) (members : List (String × Json)) :
    valuesOf name ((name, v) :: members) = v :: valuesOf name members := by
  simp only [valuesOf, List.filter_cons, beq_self_eq_true, if_true, List.map_cons]

theorem valuesOf_cons_of_ne {name other : String} (h : other ≠ name) (v : Json)
    (members : List (String × Json)) :
    valuesOf name ((other, v) :: members) = valuesOf name members := by
  simp only [valuesOf, List.filter_cons, beq_iff_eq, h, if_false]

theorem lookup_eq_head? (name : String) (members : List (String × Json)) :
    members.lookup name = (valuesOf name members).head? := by
  induction members with
  | nil => rfl
  | cons member rest ih =>
      obtain ⟨other, v⟩ := member
      by_cases h : other = name
      · rw [h, valuesOf_cons_self, List.lookup_cons_self]
        rfl
      · have hname : (name == other) = false := beq_eq_false_iff_ne.mpr (Ne.symm h)
        rw [valuesOf_cons_of_ne h, ← ih, List.lookup_cons, hname]

/-- Members of two records whose values correspond under every known name. -/
def ValuesAlike (R : Place → Json → Json → Prop) (fields : List FieldRule)
    (members members' : List (String × Json)) : Prop :=
  ∀ name rule, rule? fields name = some rule → (valuesOf name members).length ≤ 1 →
    (valuesOf name members').length ≤ 1 ∧
      rule.Keeps R (valuesOf name members).head? (valuesOf name members').head?

theorem repeats_eq_false_iff {fields : List FieldRule} {members : List (String × Json)} :
    Json.repeats (fields.map FieldRule.name) members = false ↔
      ∀ name rule, rule? fields name = some rule → (valuesOf name members).length ≤ 1 := by
  have hlength : ∀ name, (valuesOf name members).length =
      (members.filter fun member => member.1 == name).length := fun name => List.length_map _
  simp only [Json.repeats, List.any_eq_false, decide_eq_true_eq, Nat.not_lt, hlength]
  constructor
  · intro h name rule hrule
    have hname := List.find?_some hrule
    rw [beq_iff_eq] at hname
    exact hname ▸ h rule.name (List.mem_map_of_mem (List.mem_of_find?_eq_some hrule))
  · intro h name hname
    obtain ⟨rule, hrule, rfl⟩ := List.mem_map.mp hname
    have hsome : (rule? fields rule.name).isSome = true := by
      rw [rule?, List.find?_isSome]
      exact ⟨rule, hrule, beq_self_eq_true _⟩
    obtain ⟨rule', hrule'⟩ := Option.isSome_iff_exists.mp hsome
    exact h _ rule' hrule'

theorem ValuesAlike.records {R : Place → Json → Json → Prop} {fields : List FieldRule}
    {members members' : List (String × Json)} (h : ValuesAlike R fields members members') :
    RecordsAlike R fields (.object members) (.object members') := by
  intro m hm
  simp only [Json.members] at hm ⊢
  split at hm
  · cases hm
  · rename_i hrepeats
    cases hm
    have hsingle := repeats_eq_false_iff.mp (Bool.not_eq_true _ ▸ hrepeats)
    have hrepeats' : Json.repeats (fields.map FieldRule.name) members' = false :=
      repeats_eq_false_iff.mpr fun name rule hrule =>
        (h name rule hrule (hsingle name rule hrule)).1
    rw [hrepeats']
    refine ⟨_, rfl, fun name rule hrule => ?_⟩
    dsimp only
    rw [lookup_eq_head?, lookup_eq_head?]
    exact (h name rule hrule (hsingle name rule hrule)).2

theorem valuesOf_filter_kind {name : String} (h : name ≠ "kind") (members : List (String × Json)) :
    valuesOf name (members.filter fun member => member.1 != "kind") = valuesOf name members := by
  rw [valuesOf, valuesOf, List.filter_filter]
  refine congrArg _ (List.filter_congr fun member _ => ?_)
  by_cases hname : member.1 = name
  · simp [hname, h]
  · simp [hname]

theorem valuesOf_kind_filter (members : List (String × Json)) :
    valuesOf "kind" (members.filter fun member => member.1 != "kind") = [] := by
  rw [valuesOf, List.filter_filter, List.map_eq_nil_iff, List.filter_eq_nil_iff]
  intro member _
  by_cases hname : member.1 = "kind" <;> simp [hname]

theorem eq_nil_of_length_cons_le {v : Json} {rest : List Json} (h : (v :: rest).length ≤ 1) :
    rest = [] :=
  List.eq_nil_of_length_eq_zero (Nat.le_zero.mp (Nat.le_of_succ_le_succ h))

/-- A field that has to be there and holds a plain value is kept as it is. -/
theorem eq_singleton_of_keeps {R : Place → Json → Json → Prop}
    (hplain : ∀ {v v'}, R .plain v v' → v' = v) {name : String} {v : Json} {values : List Json}
    (hsingle : values.length ≤ 1)
    (h : FieldRule.Keeps R { name := name } (some v) values.head?) : values = [v] := by
  cases values with
  | nil =>
      cases h with
      | omitted hdefault => cases hdefault
  | cons v' rest =>
      obtain rfl : rest = [] := eq_nil_of_length_cons_le hsingle
      cases h with
      | kept hv => rw [hplain hv]

/-- The kind of a record is a plain value, so records whose values correspond have the same kind. -/
theorem ValuesAlike.tagged {R : Place → Json → Json → Prop}
    (hplain : ∀ {v v'}, R .plain v v' → v' = v) {form : RecordForm} (hform : form.isTagged = true)
    {members members' : List (String × Json)}
    (h : ValuesAlike R (form.fields members) members members') :
    TaggedAlike R form (.object members) (.object members') := by
  intro tag record htagged
  simp only [Json.tagged] at htagged
  split at htagged
  · rename_i name value hkind
    cases htagged
    have hvalues : valuesOf "kind" members = [tag] := by rw [valuesOf, hkind]; rfl
    have hfields : form.fields members = { name := "kind" } :: form.fieldsBy tag := by
      rw [RecordForm.fields, if_pos hform, lookup_eq_head?, hvalues]
      rfl
    rw [hfields] at h
    have hkind' := h "kind" { name := "kind" } rfl (by rw [hvalues]; exact Nat.le_refl 1)
    rw [hvalues] at hkind'
    obtain ⟨⟨name', tag'⟩, hmember, rfl⟩ :=
      List.map_eq_singleton_iff.mp (eq_singleton_of_keeps hplain hkind'.1 hkind'.2)
    refine ⟨.object (members'.filter fun member => member.1 != "kind"), ?_, ValuesAlike.records ?_⟩
    · simp only [Json.tagged, hmember]
    · intro field rule hrule hsingle
      by_cases hname : field = "kind"
      · subst hname
        rw [valuesOf_kind_filter, valuesOf_kind_filter]
        exact ⟨Nat.zero_le 1, .missing⟩
      · rw [valuesOf_filter_kind hname] at hsingle ⊢
        rw [valuesOf_filter_kind hname]
        refine h field rule ?_ hsingle
        have hother : ("kind" == field) = false := beq_eq_false_iff_ne.mpr (Ne.symm hname)
        rw [rule?, List.find?_cons, hother]
        exact hrule
  · cases htagged

/-! ### One edit -/

theorem Near.refl (place : Place) (v : Json) : Near place v v := Or.inl rfl

theorem keeps_refl (rule : FieldRule) (v : Option Json) : rule.Keeps Near v v := by
  cases v with
  | none => exact .missing
  | some v => exact .kept (Near.refl _ v)

theorem valuesOf_reorder {members members' : List (String × Json)} (h : members.Perm members')
    {name : String} (hsingle : (valuesOf name members).length ≤ 1) :
    valuesOf name members' = valuesOf name members := by
  have hperm : (valuesOf name members).Perm (valuesOf name members') := (h.filter _).map _
  cases hvalues : valuesOf name members with
  | nil => exact List.nil_perm.mp (hvalues ▸ hperm)
  | cons v rest =>
      rw [hvalues] at hsingle hperm
      obtain rfl : rest = [] := eq_nil_of_length_cons_le hsingle
      exact (List.singleton_perm.mp hperm).symm

/-- A value that stands in the middle of at most one value is alone. -/
theorem alone_of_length_le {front back : List Json} {v : Json}
    (h : (front ++ v :: back).length ≤ 1) : front = [] ∧ back = [] := by
  rw [List.length_append, List.length_cons] at h
  exact ⟨List.eq_nil_of_length_eq_zero (by omega), List.eq_nil_of_length_eq_zero (by omega)⟩

theorem valuesAlike_of_edit {form : RecordForm} {members : List (String × Json)} {j : Json}
    (h : Edit (.record form) (.object members) j) :
    ∃ members', j = .object members' ∧ ValuesAlike Near (form.fields members) members members' := by
  cases h with
  | @reorder _ _ members' hperm =>
      refine ⟨members', rfl, fun name rule _ hsingle => ?_⟩
      rw [valuesOf_reorder hperm hsingle]
      exact ⟨hsingle, keeps_refl rule _⟩
  | @add _ _ unknown value hunknown =>
      refine ⟨_, rfl, fun name rule hrule hsingle => ?_⟩
      have hname : unknown ≠ name := by
        rintro rfl
        rw [hunknown] at hrule
        cases hrule
      rw [valuesOf_cons_of_ne hname]
      exact ⟨hsingle, keeps_refl rule _⟩
  | @leaveOut _ front back omitted value rule' hrule' hdefault =>
      refine ⟨_, rfl, fun name rule hrule hsingle => ?_⟩
      rw [valuesOf_append] at hsingle ⊢
      rw [valuesOf_append]
      by_cases hname : omitted = name
      · subst hname
        obtain rfl : rule' = rule := Option.some.inj (hrule'.symm.trans hrule)
        rw [valuesOf_cons_self] at hsingle ⊢
        obtain ⟨hfront, hback⟩ := alone_of_length_le hsingle
        rw [hfront, hback]
        exact ⟨Nat.zero_le 1, .omitted hdefault⟩
      · rw [valuesOf_cons_of_ne hname] at hsingle ⊢
        exact ⟨hsingle, keeps_refl rule _⟩
  | @member _ front back changed v v' rule' hrule' hedit =>
      refine ⟨_, rfl, fun name rule hrule hsingle => ?_⟩
      rw [valuesOf_append] at hsingle ⊢
      rw [valuesOf_append]
      by_cases hname : changed = name
      · subst hname
        obtain rfl : rule' = rule := Option.some.inj (hrule'.symm.trans hrule)
        rw [valuesOf_cons_self] at hsingle ⊢
        rw [valuesOf_cons_self]
        obtain ⟨hfront, hback⟩ := alone_of_length_le hsingle
        rw [hfront, hback]
        exact ⟨Nat.le_refl 1, .kept (Or.inr hedit)⟩
      · rw [valuesOf_cons_of_ne hname] at hsingle ⊢
        rw [valuesOf_cons_of_ne hname]
        exact ⟨hsingle, keeps_refl rule _⟩

theorem recordsAlike_refl (fields : List FieldRule) (j : Json) : RecordsAlike Near fields j j :=
  fun m hm => ⟨m, hm, fun name rule _ => keeps_refl rule (m name)⟩

/-- A record is edited as an object. -/
theorem exists_members_of_edit {form : RecordForm} {j j' : Json} (h : Edit (.record form) j j') :
    ∃ members, j = .object members := by
  cases h <;> exact ⟨_, rfl⟩

theorem compatible_near : Compatible Near where
  plain h := by
    rcases h with rfl | hedit
    · rfl
    · cases hedit
  list := by
    rintro place items v' h
    have hsame : ∀ items, List.Forall₂ (Near place) items items := fun items =>
      List.forall₂_same.mpr fun v _ => Near.refl place v
    rcases h with rfl | hedit
    · exact ⟨items, rfl, hsame items⟩
    · cases hedit with
      | @item _ front back v v' hedit =>
          exact ⟨_, rfl, List.rel_append (hsame front) (.cons (Or.inr hedit) (hsame back))⟩
  null h := by
    rcases h with rfl | hedit
    · exact Iff.rfl
    · cases hedit <;> simp
  untagged hform h := by
    rcases h with rfl | hedit
    · exact recordsAlike_refl _ _
    · obtain ⟨members, rfl⟩ := exists_members_of_edit hedit
      obtain ⟨members', rfl, hvalues⟩ := valuesAlike_of_edit hedit
      rw [RecordForm.fields, if_neg (Bool.not_eq_true _ ▸ hform)] at hvalues
      exact hvalues.records
  tagged hform h := by
    rcases h with rfl | hedit
    · exact fun tag record htagged => ⟨record, htagged, recordsAlike_refl _ _⟩
    · obtain ⟨members, rfl⟩ := exists_members_of_edit hedit
      obtain ⟨members', rfl, hvalues⟩ := valuesAlike_of_edit hedit
      refine hvalues.tagged (fun hplain => ?_) hform
      rcases hplain with rfl | hedit
      · rfl
      · cases hedit

/-! ### Programs -/

theorem carries_ofJsonWithin (n : Nat) : Carries Near (.record .type)
    (SourceType.ofJsonWithin n) (SourceType.ofJsonWithin n) := by
  induction n with
  | zero => exact fun _ _ _ _ h => nomatch h
  | succ n ih =>
      intro v v' hv t h
      exact decode_type_of_alike compatible_near ih (compatible_near.tagged rfl hv) h

theorem carries_type : Carries Near (.record .type) SourceType.ofJson SourceType.ofJson := by
  intro v v' hv t h
  have hedited : SourceType.ofJsonWithin v.depth v' = .ok t :=
    carries_ofJsonWithin v.depth v v' hv t h
  exact carries_ofJsonWithin_shallow v.depth v'.depth v' v' ⟨rfl, Nat.le_refl _⟩ t hedited

theorem carries_typeParam :
    Carries Near (.record .typeParam) TypeParamDecl.ofJson TypeParamDecl.ofJson := by
  refine CarriesRecord.untagged compatible_near rfl (CarriesMembers.record ?_ rfl)
  refine .bind (.required rfl rfl (.plain compatible_near _)) fun _ => ?_
  exact .bind (.required rfl rfl carries_type) fun _ => .pure _

theorem carries_typeDecl :
    CarriesRecord Near (objectFields "type_name") Object.ofTypeRecord Object.ofTypeRecord := by
  refine CarriesMembers.record ?_ rfl
  refine .bind (.required rfl rfl (.plain compatible_near _)) fun _ => ?_
  refine .bind (.defaulted rfl rfl rfl (.list compatible_near carries_typeParam)) fun _ => ?_
  refine .bind (.required rfl rfl carries_type) fun _ => ?_
  refine .bind (carries_doc compatible_near rfl) fun _ => ?_
  exact .bind (carries_positionField compatible_near rfl) fun _ => .pure _

theorem carries_constDecl :
    CarriesRecord Near (objectFields "const") Object.ofConstRecord Object.ofConstRecord := by
  refine CarriesMembers.record ?_ rfl
  refine .bind (.required rfl rfl (.plain compatible_near _)) fun _ => ?_
  refine .bind (.required rfl rfl carries_type) fun _ => ?_
  refine .bind (.required rfl rfl (.plain compatible_near _)) fun _ => ?_
  refine .bind (carries_doc compatible_near rfl) fun _ => ?_
  exact .bind (carries_positionField compatible_near rfl) fun _ => .pure _

/-- Variables and functions are records of the same fields. -/
theorem carries_valueDecl :
    CarriesRecord Near (objectFields "var") Object.ofValueRecord Object.ofValueRecord := by
  refine CarriesMembers.record ?_ rfl
  refine .bind (.required rfl rfl (.plain compatible_near _)) fun _ => ?_
  exact .bind (carries_positionField compatible_near rfl) fun _ => .pure _

theorem carries_object : Carries Near (.record .object) Object.ofJson Object.ofJson := by
  intro v v' hv o h
  obtain ⟨⟨tag, record⟩, htagged, h⟩ := bind_eq_ok_iff.mp h
  obtain ⟨record', htagged', hrecord⟩ := compatible_near.tagged rfl hv tag record htagged
  refine bind_eq_ok_iff.mpr ⟨(tag, record'), htagged', ?_⟩
  dsimp only at h ⊢
  split at h
  · exact carries_typeDecl.map Object.typeName record record' hrecord o h
  · exact carries_constDecl.map Object.const record record' hrecord o h
  · exact carries_valueDecl.map Object.var record record' hrecord o h
  · exact carries_valueDecl.map Object.func record record' hrecord o h
  · cases h

theorem carries_package : Carries Near (.record .package) Package.ofJson Package.ofJson := by
  refine CarriesRecord.untagged compatible_near rfl (CarriesMembers.record ?_ rfl)
  refine .bind (.required rfl rfl (.plain compatible_near _)) fun _ => ?_
  refine .bind (.required rfl rfl (.plain compatible_near _)) fun _ => ?_
  refine .bind (.defaulted rfl rfl rfl (.plain compatible_near _)) fun _ => ?_
  refine .bind (.defaulted rfl rfl rfl (.plain compatible_near _)) fun _ => ?_
  refine .bind (.defaulted rfl rfl rfl (.list compatible_near carries_object)) fun _ => ?_
  have htexts : Carries Near (.list .plain) (Json.asList Json.asString)
      (Json.asList Json.asString) := .list compatible_near (.plain compatible_near _)
  refine .bind (.defaulted rfl rfl rfl htexts) fun _ => ?_
  exact .bind (.defaulted rfl rfl rfl htexts) fun _ => .pure _

theorem carries_program : Carries Near (.record .program) Program.ofJson Program.ofJson := by
  refine CarriesRecord.untagged compatible_near rfl (CarriesMembers.record ?_ rfl)
  exact .bind (.required rfl rfl (.list compatible_near carries_package)) fun _ => .pure _

/-- However often a tree is edited, it decodes to the same program. -/
theorem ofJson_of_edits {j j' : Json} (h : Relation.ReflTransGen (Edit (.record .program)) j j')
    {p : Program} (hp : Program.ofJson j = .ok p) : Program.ofJson j' = .ok p := by
  induction h with
  | refl => exact hp
  | tail _ hedit ih => exact carries_program _ _ (Or.inr hedit) p ih

end Dump

end TypeBridge
