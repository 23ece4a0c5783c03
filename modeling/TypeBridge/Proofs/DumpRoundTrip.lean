import TypeBridge.Proofs.DumpEdits

/-!
A program is decoded from what it is encoded to, and from every tree that the format takes for the
same. Only a constant that is no finite number is lost: it is encoded as null.
-/

namespace TypeBridge

theorem mapM_eq_ok_iff {ε α β : Type} {f : α → Except ε β} {as : List α} {bs : List β} :
    as.mapM f = .ok bs ↔ List.Forall₂ (fun a b => f a = .ok b) as bs := by
  induction as generalizing bs with
  | nil => cases bs <;> simp [pure, Except.pure]
  | cons a rest ih =>
      rw [List.mapM_cons, bind_eq_ok_iff]
      constructor
      · rintro ⟨b, hb, h⟩
        obtain ⟨more, hmore, h⟩ := bind_eq_ok_iff.mp h
        cases h
        exact .cons hb (ih.mp hmore)
      · rintro (_ | ⟨hb, hrest⟩)
        exact ⟨_, hb, bind_eq_ok_iff.mpr ⟨_, ih.mpr hrest, rfl⟩⟩

namespace Json

/-- A list is decoded from the array of its encoded items. -/
theorem asList_array_map {α : Type} {decode : Json → Except ReadError α} {encode : α → Json}
    {as : List α} (h : ∀ a ∈ as, decode (encode a) = .ok a) :
    asList decode (.array (as.map encode)) = .ok as := by
  change (as.map encode).mapM decode = .ok as
  rw [mapM_eq_ok_iff, List.forall₂_map_left_iff]
  exact List.forall₂_same.mpr h

theorem asList_asString (texts : List String) :
    asList asString (.array (texts.map .string)) = .ok texts :=
  asList_array_map fun _ _ => rfl

theorem asNatBelow_integer {bound n : Nat} (h : n < bound) :
    asNatBelow bound (.integer n) = .ok n := by
  have hrange : (0 : Int) ≤ n ∧ (n : Int) < bound := ⟨Int.natCast_nonneg n, Int.ofNat_lt.mpr h⟩
  rw [asNatBelow, if_pos hrange, Int.toNat_natCast]

end Json

/-! ### Records without types -/

theorem Position.ofJson_toJson (p : Position) : ofJson p.toJson = .ok p := by
  have hline : Json.asNatBelow UInt32.size (.integer p.line.toNat) = .ok p.line.toNat :=
    Json.asNatBelow_integer p.line.toNat_lt
  refine bind_ok rfl (bind_ok rfl (bind_ok ((Members.defaulted_of_some rfl _ _).trans hline) ?_))
  rw [UInt32.ofNat_toNat]
  rfl

theorem Position.ofJson_positionJson (position : Option Position) :
    Json.asOption ofJson (positionJson position) = .ok position := by
  cases position with
  | none => rfl
  | some p =>
      have hobject : p.toJson ≠ .null := nofun
      rw [positionJson, Json.asOption_of_ne_null _ hobject, p.ofJson_toJson]
      rfl

theorem DocComment.ofJson_toJson (c : DocComment) : ofJson c.toJson = .ok c := rfl

theorem DocComment.ofJson_docs (doc : List DocComment) :
    Json.asList ofJson (.array (doc.map toJson)) = .ok doc :=
  Json.asList_array_map fun c _ => c.ofJson_toJson

theorem BasicKind.ofJson_toJson (kind : BasicKind) : ofJson kind.toJson = .ok kind := by
  cases kind <;> rfl

theorem PackageMode.ofJson_toJson (mode : PackageMode) : ofJson mode.toJson = .ok mode := by
  cases mode <;> rfl

/-- A constant that JSON has a number for. -/
def ConstValue.IsFinite (value : ConstValue) : Prop :=
  ∀ x, value = .float x → x.isFinite = true

/-- A constant is decoded from what it is encoded to, unless that is null. -/
theorem ConstValue.ofJson_toJson_iff {value : ConstValue} :
    ofJson value.toJson = .ok value ↔ value.IsFinite := by
  cases value with
  | bool value => exact ⟨fun _ => nofun, fun _ => rfl⟩
  | int value =>
      have hrange : Int64.minValue.toInt ≤ value.toInt ∧ value.toInt ≤ Int64.maxValue.toInt :=
        ⟨value.minValue_le_toInt, value.toInt_le⟩
      rw [toJson, ofJson, if_pos hrange, Int64.ofInt_toInt]
      exact ⟨fun _ => nofun, fun _ => rfl⟩
  | float x =>
      rw [toJson]
      constructor
      · rintro h y ⟨⟩
        by_contra hinfinite
        rw [if_neg hinfinite] at h
        cases h
      · intro h
        rw [if_pos (h x rfl)]
        rfl
  | string value => exact ⟨fun _ => nofun, fun _ => rfl⟩

/-! ### Types -/

/-- What decodes when the types inside it have no bound on their depth is decoded. -/
theorem SourceType.ofJson_of_tagged {j : Json} {t : SourceType}
    (h : (do
      let (tag, record) ← j.tagged
      ofRecord ofJson (← kindOf tag) record) = .ok t) : ofJson j = .ok t := by
  obtain ⟨n, hn⟩ := Nat.exists_eq_succ_of_ne_zero (Nat.ne_of_gt j.depth_pos)
  have hinner : Dump.Carries (Dump.Shallow n) (.record .type) ofJson (ofJsonWithin n) :=
    fun v v' hv => Dump.carries_ofJsonWithin_shallow v.depth n v v' hv
  rw [ofJson, hn]
  exact Dump.decode_type_of_alike (Dump.compatible_shallow n) hinner
    (Dump.taggedAlike_shallow (Nat.le_of_eq hn)) h

/-- A record with a kind is decoded by the decoder of that kind. -/
theorem SourceType.ofJson_of_record {kind : String} {members : List (String × Json)}
    {t : SourceType} (hkind : members.filter (fun member => member.1 == "kind") = [])
    (h : ofRecord ofJson kind (.object members) = .ok t) :
    ofJson (.object (("kind", .string kind) :: members)) = .ok t := by
  have hrest : members.filter (fun member => member.1 != "kind") = members :=
    List.filter_eq_self.mpr fun member hmember => by
      simpa using List.filter_eq_nil_iff.mp hkind member hmember
  have htagged : Json.tagged (.object (("kind", .string kind) :: members)) =
      .ok (.string kind, .object members) := by
    simp [Json.tagged, hkind, hrest]
  exact ofJson_of_tagged (bind_ok htagged (bind_ok rfl h))

theorem SourceType.toJson_ne_null (t : SourceType) : t.toJson ≠ .null := by
  unfold toJson
  split <;> nofun

namespace SourceType

mutual

theorem ofJson_toJson : ∀ t : SourceType, ofJson t.toJson = .ok t
  | .basic kind => by
      rw [toJson]
      exact ofJson_of_record rfl (bind_ok rfl (bind_ok kind.ofJson_toJson rfl))
  | .named ⟨none, name, typeArgs, underlying⟩ => by
      rw [toJson]
      exact ofJson_of_record rfl (bind_ok (bind_ok rfl (bind_ok rfl
        (bind_ok rfl (bind_ok (ofJson_toJsonList typeArgs)
          (bind_ok (ofJson_toJsonOption underlying) rfl))))) rfl)
  | .named ⟨some path, name, typeArgs, underlying⟩ => by
      rw [toJson]
      exact ofJson_of_record rfl (bind_ok (bind_ok rfl (bind_ok rfl
        (bind_ok rfl (bind_ok (ofJson_toJsonList typeArgs)
          (bind_ok (ofJson_toJsonOption underlying) rfl))))) rfl)
  | .pointer elem => by
      rw [toJson]
      exact ofJson_of_record rfl (bind_ok rfl (bind_ok (ofJson_toJson elem) rfl))
  | .slice elem => by
      rw [toJson]
      exact ofJson_of_record rfl (bind_ok rfl (bind_ok (ofJson_toJson elem) rfl))
  | .array length elem => by
      have hlength : Json.asNatBelow UInt64.size (.integer length.toNat) = .ok length.toNat :=
        Json.asNatBelow_integer length.toNat_lt
      rw [toJson]
      refine ofJson_of_record rfl (bind_ok rfl
        (bind_ok ((Members.required_of_some rfl _).trans hlength)
          (bind_ok (ofJson_toJson elem) ?_)))
      rw [UInt64.ofNat_toNat]
      rfl
  | .map key value => by
      rw [toJson]
      exact ofJson_of_record rfl (bind_ok rfl (bind_ok (ofJson_toJson key)
        (bind_ok (ofJson_toJson value) rfl)))
  | .struct fields => by
      rw [toJson]
      exact ofJson_of_record rfl (bind_ok rfl (bind_ok (ofJson_toJsonFields fields) rfl))
  | .interface embeddeds methods => by
      rw [toJson]
      exact ofJson_of_record rfl (bind_ok rfl (bind_ok (ofJson_toJsonList embeddeds)
        (bind_ok (Json.asList_asString methods) rfl)))
  | .union terms => by
      rw [toJson]
      exact ofJson_of_record rfl (bind_ok rfl (bind_ok (ofJson_toJsonTerms terms) rfl))
  | .typeParam name constraint => by
      rw [toJson]
      exact ofJson_of_record rfl (bind_ok rfl (bind_ok rfl
        (bind_ok (ofJson_toJson constraint) rfl)))
  | .signature => by
      rw [toJson]
      exact ofJson_of_record rfl rfl
  | .chan elem => by
      rw [toJson]
      exact ofJson_of_record rfl (bind_ok rfl (bind_ok (ofJson_toJson elem) rfl))

theorem ofJson_toJsonList : ∀ ts : List SourceType,
    Json.asList ofJson (.array (toJsonList ts)) = .ok ts
  | [] => rfl
  | t :: rest => by
      rw [toJsonList]
      change (t.toJson :: toJsonList rest).mapM ofJson = _
      rw [List.mapM_cons]
      exact bind_ok (ofJson_toJson t) (bind_ok (ofJson_toJsonList rest) rfl)

theorem ofJson_toJsonOption : ∀ t : Option SourceType,
    Json.asOption ofJson (toJsonOption t) = .ok t
  | none => rfl
  | some t => by
      rw [toJsonOption, Json.asOption_of_ne_null _ t.toJson_ne_null, ofJson_toJson t]
      rfl

theorem ofJson_toJsonFields : ∀ fields : List (FieldOf SourceType),
    Json.asList (FieldOf.ofJson ofJson) (.array (toJsonFields fields)) = .ok fields
  | [] => rfl
  | ⟨name, type, embedded, tag, doc⟩ :: rest => by
      rw [toJsonFields]
      refine bind_ok rfl ?_
      rw [List.mapM_cons]
      exact bind_ok (bind_ok rfl (bind_ok rfl (bind_ok (ofJson_toJson type) (bind_ok rfl
        (bind_ok rfl (bind_ok (DocComment.ofJson_docs doc) rfl))))))
        (bind_ok (ofJson_toJsonFields rest) rfl)

theorem ofJson_toJsonTerms : ∀ terms : List (TermOf SourceType),
    Json.asList (TermOf.ofJson ofJson) (.array (toJsonTerms terms)) = .ok terms
  | [] => rfl
  | ⟨tilde, type⟩ :: rest => by
      rw [toJsonTerms]
      refine bind_ok rfl ?_
      rw [List.mapM_cons]
      exact bind_ok (bind_ok rfl (bind_ok rfl (bind_ok (ofJson_toJson type) rfl)))
        (bind_ok (ofJson_toJsonTerms rest) rfl)

end

end SourceType

/-! ### Objects and packages -/

theorem TypeParamDecl.ofJson_toJson (p : TypeParamDecl) : ofJson p.toJson = .ok p :=
  bind_ok rfl (bind_ok rfl (bind_ok p.constraint.ofJson_toJson rfl))

namespace Object

/-- An object that is no constant beyond the numbers of JSON. -/
def IsFinite (o : Object) : Prop := ∀ c, o = .const c → c.value.IsFinite

theorem ofJson_toJson {o : Object} (h : o.IsFinite) : ofJson o.toJson = .ok o := by
  cases o with
  | typeName d =>
      have hparams : Json.asList TypeParamDecl.ofJson
          (.array (d.typeParams.map TypeParamDecl.toJson)) = .ok d.typeParams :=
        Json.asList_array_map fun p _ => p.ofJson_toJson
      refine bind_ok rfl (bind_ok (a := d) ?_ rfl)
      exact bind_ok rfl (bind_ok rfl (bind_ok hparams (bind_ok d.underlying.ofJson_toJson
        (bind_ok (DocComment.ofJson_docs d.doc)
          (bind_ok (Position.ofJson_positionJson d.position) rfl)))))
  | const c =>
      refine bind_ok rfl (bind_ok (a := c) ?_ rfl)
      have hvalue : ConstValue.ofJson c.value.toJson = .ok c.value :=
        ConstValue.ofJson_toJson_iff.mpr (h c rfl)
      exact bind_ok rfl (bind_ok rfl (bind_ok c.type.ofJson_toJson (bind_ok hvalue
        (bind_ok (DocComment.ofJson_docs c.doc)
          (bind_ok (Position.ofJson_positionJson c.position) rfl)))))
  | var d =>
      refine bind_ok rfl (bind_ok (a := d) ?_ rfl)
      exact bind_ok rfl (bind_ok rfl (bind_ok (Position.ofJson_positionJson d.position) rfl))
  | func d =>
      refine bind_ok rfl (bind_ok (a := d) ?_ rfl)
      exact bind_ok rfl (bind_ok rfl (bind_ok (Position.ofJson_positionJson d.position) rfl))

end Object

theorem Package.ofJson_toJson {p : Package} (h : ∀ o ∈ p.objects, o.IsFinite) :
    ofJson p.toJson = .ok p := by
  have hobjects : Json.asList Object.ofJson (.array (p.objects.map Object.toJson)) =
      .ok p.objects := Json.asList_array_map fun o ho => Object.ofJson_toJson (h o ho)
  exact bind_ok rfl (bind_ok rfl (bind_ok rfl (bind_ok p.mode.ofJson_toJson (bind_ok rfl
    (bind_ok hobjects (bind_ok (Json.asList_asString p.comments)
      (bind_ok (Json.asList_asString p.errors) rfl)))))))

namespace Program

/-- A program whose floating-point constants are finite. -/
def IsFinite (p : Program) : Prop := ∀ package ∈ p.packages, ∀ o ∈ package.objects, o.IsFinite

theorem ofJson_toJson {p : Program} (h : p.IsFinite) : ofJson p.toJson = .ok p :=
  bind_ok rfl (bind_ok (Json.asList_array_map fun package hpackage =>
    Package.ofJson_toJson (h package hpackage)) rfl)

/-- A program is decoded from what it is encoded to, and from every tree that comes from that by
reordering the members of records, adding unknown members and leaving out members that have their
default value, at any depth and any number of times. -/
theorem decode_edited {p : Program} (h : p.IsFinite) :
    ofJson p.toJson = .ok p ∧
    ∀ j, Relation.ReflTransGen (Dump.Edit (.record .program)) p.toJson j → ofJson j = .ok p :=
  ⟨ofJson_toJson h, fun _ hedits => Dump.ofJson_of_edits hedits (ofJson_toJson h)⟩

end Program

/-! ### One constant, edited at three depths -/

def half : Double := ⟨0x3FE0000000000000⟩

def halfProgram : Program :=
  ⟨[{ path := "m", name := "m",
      objects := [.const { name := "Half", type := .basic .float64, value := .float half }] }]⟩

def halfType : List (String × Json) := [("kind", .string "basic"), ("name", .string "float64")]

/-- The record of the constant, with its type and with the members for its position. -/
def halfObject (type : List (String × Json)) (position : List (String × Json)) : Json :=
  .object (("kind", .string "const") :: ("name", .string "Half") :: ("type", .object type) ::
    ("value", .float half) :: ("doc", .array []) :: position)

/-- The dump of the program, with the members for the mode of its package and with its object. -/
def halfDump (mode : List (String × Json)) (object : Json) : Json :=
  .object [("packages", .array [.object (("path", .string "m") :: ("name", .string "m") ::
    mode.append [("prefix", .string ""), ("objects", .array [object]), ("comments", .array []),
      ("errors", .array [])])])]

theorem edit_package {v v' : Json} (h : Dump.Edit (.record .package) v v') :
    Dump.Edit (.record .program) (.object [("packages", .array [v])])
      (.object [("packages", .array [v'])]) :=
  @Dump.Edit.member .program [] [] "packages" _ _ _ rfl (@Dump.Edit.item _ [] [] _ _ h)

theorem edit_halfDump {v v' : Json} (h : Dump.Edit (.record .object) v v') :
    Dump.Edit (.record .program) (halfDump [] v) (halfDump [] v') :=
  edit_package (@Dump.Edit.member .package
    [("path", .string "m"), ("name", .string "m"), ("prefix", .string "")]
    [("comments", .array []), ("errors", .array [])] "objects" _ _ _ rfl
    (@Dump.Edit.item _ [] [] _ _ h))

/-- Without its mode, which is the default, without the position, which is missing, and with one
more member in its type, the program is the same. -/
theorem decode_edited_half : halfProgram.IsFinite ∧
    Program.ofJson halfProgram.toJson = .ok halfProgram ∧
    Relation.ReflTransGen (Dump.Edit (.record .program)) halfProgram.toJson
      (halfDump [] (halfObject (("bits", .integer 64) :: halfType) [])) ∧
    Program.ofJson (halfDump [] (halfObject (("bits", .integer 64) :: halfType) [])) =
      .ok halfProgram := by
  have hfinite : halfProgram.IsFinite := by
    intro package hpackage o ho c hc x hx
    obtain rfl := List.mem_singleton.mp hpackage
    obtain rfl := List.mem_singleton.mp ho
    cases hc
    cases hx
    decide +kernel
  have hdump : halfProgram.toJson = halfDump [("mode", .string "generate")]
      (halfObject halfType [("position", .null)]) := rfl
  have hmode : Dump.Edit (.record .program) halfProgram.toJson
      (halfDump [] (halfObject halfType [("position", .null)])) :=
    hdump ▸ edit_package (@Dump.Edit.leaveOut .package
      [("path", .string "m"), ("name", .string "m")] _ "mode" _ _ rfl rfl)
  have hposition : Dump.Edit (.record .program)
      (halfDump [] (halfObject halfType [("position", .null)]))
      (halfDump [] (halfObject halfType [])) :=
    edit_halfDump (@Dump.Edit.leaveOut .object [("kind", .string "const"), ("name", .string "Half"),
      ("type", .object halfType), ("value", .float half), ("doc", .array [])] []
      "position" _ _ rfl rfl)
  have htype : Dump.Edit (.record .program) (halfDump [] (halfObject halfType []))
      (halfDump [] (halfObject (("bits", .integer 64) :: halfType) [])) :=
    edit_halfDump (@Dump.Edit.member .object [("kind", .string "const"), ("name", .string "Half")]
      [("value", .float half), ("doc", .array [])] "type" _ _ _ rfl (.add (.integer 64) rfl))
  have hedits := ((Relation.ReflTransGen.single hmode).tail hposition).tail htype
  obtain ⟨hround, hedited⟩ := Program.decode_edited hfinite
  exact ⟨hfinite, hround, hedits, hedited _ hedits⟩

end TypeBridge
