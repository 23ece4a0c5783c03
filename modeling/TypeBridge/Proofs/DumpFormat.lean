import Mathlib.Data.List.Forall2
import TypeBridge.Proofs.Outcome
import TypeBridge.Source.Dump

/-!
What the dump format does not see. A record may have its members in any order and members of other
names besides, and it may leave out what has a default. Two trees that differ in such ways, at any
depth, decode to the same value.

The fields of every record are listed once, with what stands in them and what they are without.
A decoder is looked at field by field: if what it reads from two trees corresponds under a relation
of values, it decodes both alike. The relation is a parameter, since the decoder of types is first
carried from one bound of its depth to another and only then from one tree to the next.
-/

namespace TypeBridge

theorem Json.asOption_of_ne_null {α : Type} (decode : Json → Except ReadError α) {j : Json}
    (h : j ≠ .null) : asOption decode j = (decode j).map some := by
  cases j with
  | null => exact absurd rfl h
  | _ => rfl

theorem Members.required_of_some {α : Type} {m : Members} {name : String} {j : Json}
    (h : m name = some j) (decode : Json → Except ReadError α) :
    m.required name decode = decode j := by
  rw [required, h]

theorem Members.defaulted_of_some {α : Type} {m : Members} {name : String} {j : Json}
    (h : m name = some j) (default : α) (decode : Json → Except ReadError α) :
    m.defaulted name default decode = decode j := by
  rw [defaulted, h]

namespace Dump

/-! ### The fields of records -/

/-- The records of a dump. Types and objects have a kind, which decides on their fields. -/
inductive RecordForm where
  | program
  | package
  | object
  | typeParam
  | position
  | comment
  | type
  | field
  | term

/-- What stands in a place of a dump: a value without records in it, a record or a list. -/
inductive Place where
  | plain
  | record (form : RecordForm)
  | list (item : Place)

/-- A field of a record, with the value that it has when it is left out, if it may be. -/
structure FieldRule where
  name : String
  place : Place := .plain
  default? : Option Json := none

/-- A field that may be left out when it holds no items. -/
def FieldRule.many (name : String) (item : Place) : FieldRule :=
  { name := name, place := .list item, default? := some (.array []) }

def docRule : FieldRule := .many "doc" (.record .comment)

def positionRule : FieldRule :=
  { name := "position", place := .record .position, default? := some .null }

/-- A field that holds a type. -/
def typeRule (name : String) : FieldRule := { name := name, place := .record .type }

/-- The fields of an object of a package, apart from its kind. -/
def objectFields : String → List FieldRule
  | "type_name" =>
      [{ name := "name" }, .many "type_params" (.record .typeParam), typeRule "underlying", docRule,
        positionRule]
  | "const" => [{ name := "name" }, typeRule "type", { name := "value" }, docRule, positionRule]
  | "var" => [{ name := "name" }, positionRule]
  | "func" => [{ name := "name" }, positionRule]
  | _ => []

/-- The fields of a type, apart from its kind. -/
def typeFields : String → List FieldRule
  | "basic" => [{ name := "name" }]
  | "named" =>
      [{ name := "package", default? := some .null }, { name := "name" },
        .many "type_args" (.record .type),
        { name := "underlying", place := .record .type, default? := some .null }]
  | "pointer" => [typeRule "elem"]
  | "slice" => [typeRule "elem"]
  | "array" => [{ name := "len" }, typeRule "elem"]
  | "map" => [typeRule "key", typeRule "value"]
  | "struct" => [.many "fields" (.record .field)]
  | "interface" => [.many "embeddeds" (.record .type), .many "methods" .plain]
  | "union" => [{ name := "terms", place := .list (.record .term) }]
  | "type_param" => [{ name := "name" }, typeRule "constraint"]
  | "chan" => [typeRule "elem"]
  | _ => []

/-- The fields of a record, apart from its kind. Only types and objects look at their kind. -/
def RecordForm.fieldsBy (tag : Json) : RecordForm → List FieldRule
  | .program => [{ name := "packages", place := .list (.record .package) }]
  | .package =>
      [{ name := "path" }, { name := "name" },
        { name := "mode", default? := some (.string "generate") },
        { name := "prefix", default? := some (.string "") }, .many "objects" (.record .object),
        .many "comments" .plain, .many "errors" .plain]
  | .object =>
      match tag with
      | .string kind => objectFields kind
      | _ => []
  | .typeParam => [{ name := "name" }, typeRule "constraint"]
  | .position => [{ name := "file" }, { name := "line", default? := some (.integer 0) }]
  | .comment => [{ name := "text" }, { name := "trailing", default? := some (.bool false) }]
  | .type =>
      match SourceType.kindOf tag with
      | .ok kind => typeFields kind
      | .error _ => []
  | .field =>
      [{ name := "name" }, typeRule "type", { name := "embedded", default? := some (.bool false) },
        { name := "tag", default? := some (.string "") }, docRule]
  | .term => [{ name := "tilde", default? := some (.bool false) }, typeRule "type"]

def RecordForm.isTagged : RecordForm → Bool
  | .object => true
  | .type => true
  | _ => false

/-- All fields of a record with the given members. -/
def RecordForm.fields (form : RecordForm) (members : List (String × Json)) : List FieldRule :=
  if form.isTagged then { name := "kind" } :: form.fieldsBy ((members.lookup "kind").getD .null)
  else form.fieldsBy .null

/-- The rule for a name among some fields. -/
def rule? (fields : List FieldRule) (name : String) : Option FieldRule :=
  fields.find? fun rule => rule.name == name

/-- One change, at any depth of a tree, that the format does not see: members come in another order,
an unknown member is added, or a member is left out that has its default value. -/
inductive Edit : Place → Json → Json → Prop
  | reorder {form : RecordForm} {members members' : List (String × Json)}
      (h : members.Perm members') : Edit (.record form) (.object members) (.object members')
  | add {form : RecordForm} {members : List (String × Json)} {name : String} (value : Json)
      (hunknown : rule? (form.fields members) name = none) :
      Edit (.record form) (.object members) (.object ((name, value) :: members))
  | leaveOut {form : RecordForm} {front back : List (String × Json)} {name : String} {value : Json}
      {rule : FieldRule}
      (hrule : rule? (form.fields (front ++ (name, value) :: back)) name = some rule)
      (hdefault : rule.default? = some value) :
      Edit (.record form) (.object (front ++ (name, value) :: back)) (.object (front ++ back))
  | member {form : RecordForm} {front back : List (String × Json)} {name : String} {v v' : Json}
      {rule : FieldRule}
      (hrule : rule? (form.fields (front ++ (name, v) :: back)) name = some rule)
      (h : Edit rule.place v v') :
      Edit (.record form) (.object (front ++ (name, v) :: back))
        (.object (front ++ (name, v') :: back))
  | item {place : Place} {front back : List Json} {v v' : Json} (h : Edit place v v') :
      Edit (.list place) (.array (front ++ v :: back)) (.array (front ++ v' :: back))

/-! ### Decoders that read corresponding values -/

/-- A decoder that finds a value in the second of two corresponding trees whenever another decoder
finds it in the first. -/
def Carries {α : Type} (R : Place → Json → Json → Prop) (place : Place)
    (decode decode' : Json → Except ReadError α) : Prop :=
  ∀ v v', R place v v' → ∀ a, decode v = .ok a → decode' v' = .ok a

/-- What becomes of a field: it holds a corresponding value, or is left out when that is its
default. -/
inductive FieldRule.Keeps (R : Place → Json → Json → Prop) (rule : FieldRule) :
    Option Json → Option Json → Prop
  | missing : rule.Keeps R none none
  | omitted {value : Json} (h : rule.default? = some value) : rule.Keeps R (some value) none
  | kept {v v' : Json} (h : R rule.place v v') : rule.Keeps R (some v) (some v')

/-- Members of two records that correspond field by field. -/
def MembersAlike (R : Place → Json → Json → Prop) (fields : List FieldRule) (m m' : Members) :
    Prop :=
  ∀ name rule, rule? fields name = some rule → rule.Keeps R (m name) (m' name)

/-- Records that correspond field by field, once the members of the first can be told apart. -/
def RecordsAlike (R : Place → Json → Json → Prop) (fields : List FieldRule) (j j' : Json) : Prop :=
  ∀ m, j.members (fields.map FieldRule.name) = .ok m →
    ∃ m', j'.members (fields.map FieldRule.name) = .ok m' ∧ MembersAlike R fields m m'

/-- Records of the same kind that correspond field by field. -/
def TaggedAlike (R : Place → Json → Json → Prop) (form : RecordForm) (j j' : Json) : Prop :=
  ∀ tag record, j.tagged = .ok (tag, record) →
    ∃ record', j'.tagged = .ok (tag, record') ∧ RecordsAlike R (form.fieldsBy tag) record record'

/-- How values of a place correspond: plain values are the same, items of lists correspond one by
one and records field by field, and nothing corresponds to null but null. -/
structure Compatible (R : Place → Json → Json → Prop) : Prop where
  plain : ∀ {v v'}, R .plain v v' → v' = v
  list : ∀ {item items v'}, R (.list item) (.array items) v' →
    ∃ items', v' = .array items' ∧ List.Forall₂ (R item) items items'
  null : ∀ {place v v'}, R place v v' → (v' = .null ↔ v = .null)
  untagged : ∀ {form v v'}, form.isTagged = false → R (.record form) v v' →
    RecordsAlike R (form.fieldsBy .null) v v'
  tagged : ∀ {form v v'}, form.isTagged = true → R (.record form) v v' → TaggedAlike R form v v'

/-- Decoders of the members of a record. -/
def CarriesMembers {α : Type} (R : Place → Json → Json → Prop) (fields : List FieldRule)
    (decode decode' : Members → Except ReadError α) : Prop :=
  ∀ m m', MembersAlike R fields m m' → ∀ a, decode m = .ok a → decode' m' = .ok a

/-- Decoders of a record. -/
def CarriesRecord {α : Type} (R : Place → Json → Json → Prop) (fields : List FieldRule)
    (decode decode' : Json → Except ReadError α) : Prop :=
  ∀ j j', RecordsAlike R fields j j' → ∀ a, decode j = .ok a → decode' j' = .ok a

section Combinators

variable {R : Place → Json → Json → Prop} {α β : Type} {fields : List FieldRule}

theorem Carries.plain (hR : Compatible R) (decode : Json → Except ReadError α) :
    Carries R .plain decode decode := by
  intro v v' h a ha
  rw [hR.plain h, ha]

theorem Carries.list (hR : Compatible R) {place : Place}
    {decode decode' : Json → Except ReadError α} (h : Carries R place decode decode') :
    Carries R (.list place) (Json.asList decode) (Json.asList decode') := by
  intro v v' hv as has
  cases v with
  | array items =>
      obtain ⟨items', rfl, hitems⟩ := hR.list hv
      change items.mapM decode = .ok as at has
      change items'.mapM decode' = .ok as
      clear hv
      induction hitems generalizing as with
      | nil => exact has
      | cons hitem _ ih =>
          rw [List.mapM_cons] at has ⊢
          obtain ⟨a, ha, has⟩ := bind_eq_ok_iff.mp has
          obtain ⟨rest, hrest, has⟩ := bind_eq_ok_iff.mp has
          exact bind_eq_ok_iff.mpr
            ⟨a, h _ _ hitem a ha, bind_eq_ok_iff.mpr ⟨rest, ih rest hrest, has⟩⟩
  | _ => cases has

theorem Carries.option (hR : Compatible R) {place : Place}
    {decode decode' : Json → Except ReadError α} (h : Carries R place decode decode') :
    Carries R place (Json.asOption decode) (Json.asOption decode') := by
  intro v v' hv a ha
  by_cases hnull : v = .null
  · rw [(hR.null hv).mpr hnull]
    rw [hnull] at ha
    exact ha
  · rw [Json.asOption_of_ne_null decode hnull] at ha
    obtain ⟨b, hb, rfl⟩ := map_eq_ok_iff.mp ha
    rw [Json.asOption_of_ne_null decode' (mt (hR.null hv).mp hnull), h v v' hv b hb]
    rfl

namespace CarriesMembers

theorem pure (a : α) : CarriesMembers R fields (fun _ => Pure.pure a) (fun _ => Pure.pure a) :=
  fun _ _ _ _ h => h

theorem bind {decode decode' : Members → Except ReadError α}
    {next next' : α → Members → Except ReadError β} (h : CarriesMembers R fields decode decode')
    (hnext : ∀ a, CarriesMembers R fields (next a) (next' a)) :
    CarriesMembers R fields (fun m => decode m >>= fun a => next a m)
      (fun m => decode' m >>= fun a => next' a m) := by
  intro m m' hm b hb
  obtain ⟨a, ha, hb⟩ := bind_eq_ok_iff.mp hb
  exact bind_eq_ok_iff.mpr ⟨a, h m m' hm a ha, hnext a m m' hm b hb⟩

theorem required {name : String} {rule : FieldRule} (hrule : rule? fields name = some rule)
    (hneeded : rule.default? = none) {decode decode' : Json → Except ReadError α}
    (h : Carries R rule.place decode decode') :
    CarriesMembers R fields (fun m => m.required name decode)
      (fun m => m.required name decode') := by
  intro m m' hm a ha
  have hkeeps := hm name rule hrule
  simp only [Members.required] at ha ⊢
  generalize m name = v, m' name = v' at ha hkeeps
  cases hkeeps with
  | missing => exact ha
  | omitted hdefault =>
      rw [hneeded] at hdefault
      cases hdefault
  | kept hv => exact h _ _ hv a ha

/-- A field that is left out has the value that its default stands for. -/
theorem defaulted {name : String} {rule : FieldRule} (hrule : rule? fields name = some rule)
    {value : Json} (hvalue : rule.default? = some value)
    {decode decode' : Json → Except ReadError α} {default : α}
    (hdefault : decode value = .ok default) (h : Carries R rule.place decode decode') :
    CarriesMembers R fields (fun m => m.defaulted name default decode)
      (fun m => m.defaulted name default decode') := by
  intro m m' hm a ha
  have hkeeps := hm name rule hrule
  simp only [Members.defaulted] at ha ⊢
  generalize m name = v, m' name = v' at ha hkeeps
  cases hkeeps with
  | missing => exact ha
  | omitted homitted =>
      obtain rfl := Option.some.inj (hvalue.symm.trans homitted)
      exact hdefault.symm.trans ha
  | kept hv => exact h _ _ hv a ha

/-- Decoders of the members make decoders of the record. -/
theorem record {decode decode' : Members → Except ReadError α}
    (h : CarriesMembers R fields decode decode') {names : List String}
    (hnames : names = fields.map FieldRule.name) :
    CarriesRecord R fields (fun j => j.members names >>= decode)
      (fun j => j.members names >>= decode') := by
  subst hnames
  intro j j' hj a ha
  obtain ⟨m, hm, ha⟩ := bind_eq_ok_iff.mp ha
  obtain ⟨m', hm', halike⟩ := hj m hm
  exact bind_eq_ok_iff.mpr ⟨m', hm', h m m' halike a ha⟩

end CarriesMembers

theorem CarriesRecord.map {decode decode' : Json → Except ReadError α}
    (h : CarriesRecord R fields decode decode') (f : α → β) :
    CarriesRecord R fields (fun j => decode j >>= fun a => Pure.pure (f a))
      (fun j => decode' j >>= fun a => Pure.pure (f a)) := by
  intro j j' hj b hb
  obtain ⟨a, ha, hb⟩ := bind_eq_ok_iff.mp hb
  exact bind_eq_ok_iff.mpr ⟨a, h j j' hj a ha, hb⟩

theorem CarriesRecord.untagged (hR : Compatible R) {form : RecordForm}
    (hform : form.isTagged = false) {decode decode' : Json → Except ReadError α}
    (h : CarriesRecord R (form.fieldsBy .null) decode decode') :
    Carries R (.record form) decode decode' :=
  fun v v' hv => h v v' (hR.untagged hform hv)

end Combinators

/-! ### The decoders of records -/

section Records

variable {R : Place → Json → Json → Prop} (hR : Compatible R)

include hR

theorem carries_position : Carries R (.record .position) Position.ofJson Position.ofJson := by
  refine CarriesRecord.untagged hR rfl (CarriesMembers.record ?_ rfl)
  refine .bind (.required rfl rfl (.plain hR _)) fun _ => ?_
  exact .bind (.defaulted rfl rfl rfl (.plain hR _)) fun _ => .pure _

theorem carries_comment : Carries R (.record .comment) DocComment.ofJson DocComment.ofJson := by
  refine CarriesRecord.untagged hR rfl (CarriesMembers.record ?_ rfl)
  refine .bind (.required rfl rfl (.plain hR _)) fun _ => ?_
  exact .bind (.defaulted rfl rfl rfl (.plain hR _)) fun _ => .pure _

theorem carries_doc {fields : List FieldRule} (hdoc : rule? fields "doc" = some docRule) :
    CarriesMembers R fields (fun m => m.defaulted "doc" [] (Json.asList DocComment.ofJson))
      (fun m => m.defaulted "doc" [] (Json.asList DocComment.ofJson)) :=
  .defaulted hdoc rfl rfl (.list hR (carries_comment hR))

theorem carries_positionField {fields : List FieldRule}
    (hposition : rule? fields "position" = some positionRule) :
    CarriesMembers R fields (fun m => m.defaulted "position" none (Json.asOption Position.ofJson))
      (fun m => m.defaulted "position" none (Json.asOption Position.ofJson)) :=
  .defaulted hposition rfl rfl (.option hR (carries_position hR))

/-! Types are decoded with any two decoders for the types inside them. -/

section Types

variable {decode decode' : Json → Except ReadError SourceType}
  (htype : Carries R (.record .type) decode decode')

include htype

theorem carries_field :
    Carries R (.record .field) (FieldOf.ofJson decode) (FieldOf.ofJson decode') := by
  refine CarriesRecord.untagged hR rfl (CarriesMembers.record ?_ rfl)
  refine .bind (.required rfl rfl (.plain hR _)) fun _ => ?_
  refine .bind (.required rfl rfl htype) fun _ => ?_
  refine .bind (.defaulted rfl rfl rfl (.plain hR _)) fun _ => ?_
  refine .bind (.defaulted rfl rfl rfl (.plain hR _)) fun _ => ?_
  exact .bind (carries_doc hR rfl) fun _ => .pure _

theorem carries_term :
    Carries R (.record .term) (TermOf.ofJson decode) (TermOf.ofJson decode') := by
  refine CarriesRecord.untagged hR rfl (CarriesMembers.record ?_ rfl)
  refine .bind (.defaulted rfl rfl rfl (.plain hR _)) fun _ => ?_
  exact .bind (.required rfl rfl htype) fun _ => .pure _

theorem carries_named :
    CarriesRecord R (typeFields "named") (NamedOf.ofJson decode) (NamedOf.ofJson decode') := by
  refine CarriesMembers.record ?_ rfl
  refine .bind (.defaulted rfl rfl rfl (.plain hR _)) fun _ => ?_
  refine .bind (.required rfl rfl (.plain hR _)) fun _ => ?_
  refine .bind (.defaulted rfl rfl rfl (.list hR htype)) fun _ => ?_
  exact .bind (.defaulted rfl rfl rfl (.option hR htype)) fun _ => .pure _

omit hR in
/-- A record with a type as its only field. -/
theorem carries_elem (wrap : SourceType → SourceType) : CarriesRecord R [typeRule "elem"]
    (fun j => j.members ["elem"] >>= fun m =>
      m.required "elem" decode >>= fun t => pure (wrap t))
    (fun j => j.members ["elem"] >>= fun m =>
      m.required "elem" decode' >>= fun t => pure (wrap t)) :=
  CarriesMembers.record (.bind (.required rfl rfl htype) fun _ => .pure _) rfl

theorem carries_ofRecord (kind : String) : CarriesRecord R (typeFields kind)
    (SourceType.ofRecord decode kind) (SourceType.ofRecord decode' kind) := by
  unfold SourceType.ofRecord
  split
  · -- a basic type
    refine CarriesMembers.record ?_ rfl
    exact .bind (.required rfl rfl (.plain hR _)) fun _ => .pure _
  · exact (carries_named hR htype).map SourceType.named
  · exact carries_elem htype SourceType.pointer
  · exact carries_elem htype SourceType.slice
  · -- an array
    refine CarriesMembers.record ?_ rfl
    refine .bind (.required rfl rfl (.plain hR _)) fun _ => ?_
    exact .bind (.required rfl rfl htype) fun _ => .pure _
  · -- a map
    refine CarriesMembers.record ?_ rfl
    refine .bind (.required rfl rfl htype) fun _ => ?_
    exact .bind (.required rfl rfl htype) fun _ => .pure _
  · -- a struct
    refine CarriesMembers.record ?_ rfl
    exact .bind (.defaulted rfl rfl rfl (.list hR (carries_field hR htype))) fun _ => .pure _
  · -- an interface
    refine CarriesMembers.record ?_ rfl
    refine .bind (.defaulted rfl rfl rfl (.list hR htype)) fun _ => ?_
    exact .bind (.defaulted rfl rfl rfl (.list hR (.plain hR _))) fun _ => .pure _
  · -- a union
    refine CarriesMembers.record ?_ rfl
    exact .bind (.required rfl rfl (.list hR (carries_term hR htype))) fun _ => .pure _
  · -- a type parameter
    refine CarriesMembers.record ?_ rfl
    refine .bind (.required rfl rfl (.plain hR _)) fun _ => ?_
    exact .bind (.required rfl rfl htype) fun _ => .pure _
  · exact CarriesMembers.record (.pure _) rfl
  · exact carries_elem htype SourceType.chan
  · exact fun _ _ _ _ h => nomatch h

/-- A type and what corresponds to it, decoded with one more level. -/
theorem decode_type_of_alike {v v' : Json} (halike : TaggedAlike R .type v v') {t : SourceType}
    (h : (do
      let (tag, record) ← v.tagged
      SourceType.ofRecord decode (← SourceType.kindOf tag) record) = .ok t) :
    (do
      let (tag, record) ← v'.tagged
      SourceType.ofRecord decode' (← SourceType.kindOf tag) record) = .ok t := by
  obtain ⟨⟨tag, record⟩, htagged, h⟩ := bind_eq_ok_iff.mp h
  obtain ⟨kind, hkind, h⟩ := bind_eq_ok_iff.mp h
  obtain ⟨record', htagged', hrecord⟩ := halike tag record htagged
  have hfields : RecordForm.type.fieldsBy tag = typeFields kind := by
    simp only [RecordForm.fieldsBy, hkind]
  rw [hfields] at hrecord
  exact bind_eq_ok_iff.mpr ⟨(tag, record'), htagged', bind_eq_ok_iff.mpr
    ⟨kind, hkind, carries_ofRecord hR htype kind record record' hrecord t h⟩⟩

end Types

end Records

end Dump

end TypeBridge
