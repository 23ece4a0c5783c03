import TypeBridge.Proofs.EmptyUnions
import TypeBridge.Proofs.Lockstep

/-!
Fields that are left out leave no trace. A struct may be changed in any way that its record does not
show, and the whole conversion stays as it was; a field that adds nothing to its record is such a
change, wherever it stands.
-/

namespace TypeBridge

/-! ### Changing the fields of one struct -/

/-- A struct with its fields changed; any other type stays as it is. -/
def SourceType.mapFields (g : List Field → List Field) : SourceType → SourceType
  | .struct fields => .struct (g fields)
  | t => t

def TypeDecl.mapFields (g : List Field → List Field) (d : TypeDecl) : TypeDecl :=
  { d with underlying := d.underlying.mapFields g }

def Object.mapFields (g : List Field → List Field) : Object → Object
  | .typeName d => .typeName (d.mapFields g)
  | o => o

/-- A package with the fields of one of its structs changed. -/
def Package.mapFields (i : Nat) (g : List Field → List Field) (p : Package) : Package :=
  { p with objects := p.objects.modify i (Object.mapFields g) }

namespace Workspace

/-- A workspace with the fields of one struct changed. -/
def mapFields (w : Workspace) (path : String) (i : Nat) (g : List Field → List Field) :
    Workspace :=
  { w with
    packages := w.packages.mapValues fun key p => if key = path then p.mapFields i g else p
    path_eq := by
      intro entry hentry
      obtain ⟨⟨key, p⟩, hp, rfl⟩ := List.mem_map.mp hentry
      have hpath : p.path = key := w.path_eq _ hp
      show (if key = path then p.mapFields i g else p).path = key
      split
      · exact hpath
      · exact hpath }

/-- A workspace without one of the fields of a struct. -/
def deleteField (w : Workspace) (path : String) (i j : Nat) : Workspace :=
  w.mapFields path i fun fields => fields.eraseIdx j

/-- A workspace in which one of the fields of a struct has no tag. -/
def clearTag (w : Workspace) (path : String) (i j : Nat) : Workspace :=
  w.mapFields path i fun fields => fields.modify j fun f => { f with tag := "" }

end Workspace

@[simp] theorem Object.mapFields_name (g : List Field → List Field) (o : Object) :
    (o.mapFields g).name = o.name := by
  cases o <;> rfl

@[simp] theorem Object.mapFields_enumType? (g : List Field → List Field) (o : Object) :
    (o.mapFields g).enumType? = o.enumType? := by
  cases o <;> rfl

/-! ### Objects of the changed package -/

/-- An object of a changed package: the same as before, or the one that was changed. -/
inductive Package.Changed (p : Package) (i : Nat) (g : List Field → List Field) :
    Object → Object → Prop
  | same (o : Object) : p.Changed i g o o
  | mapped {o : Object} (h : p.objects[i]? = some o) : p.Changed i g o (o.mapFields g)

namespace Package

variable {p : Package} {i : Nat} {g : List Field → List Field}

theorem Changed.name_eq {o o' : Object} (h : p.Changed i g o o') : o'.name = o.name := by
  cases h with
  | same => rfl
  | mapped => exact o.mapFields_name g

theorem forall₂_mapFields : List.Forall₂ (p.Changed i g) p.objects (p.mapFields i g).objects := by
  refine List.forall₂_iff_get.mpr ⟨(List.length_modify ..).symm, fun k hk hk' => ?_⟩
  have hget : (p.mapFields i g).objects[k] =
      if i = k then p.objects[k].mapFields g else p.objects[k] := List.getElem_modify ..
  simp only [List.get_eq_getElem, hget]
  split
  · rename_i hik
    exact .mapped (hik ▸ List.getElem?_eq_getElem hk)
  · exact .same _

theorem find?_rel {R : Object → Object → Prop} {keep : Object → Bool}
    (hkeep : ∀ o o', R o o' → keep o' = keep o) {os os' : List Object}
    (h : List.Forall₂ R os os') : Option.Rel R (os.find? keep) (os'.find? keep) := by
  induction h with
  | nil => exact .none
  | cons ho _ ih =>
      rw [List.find?_cons, List.find?_cons, hkeep _ _ ho]
      split
      · exact .some ho
      · exact ih

theorem lookup_mapFields (p : Package) (i : Nat) (g : List Field → List Field) (name : String) :
    Option.Rel (p.Changed i g) (p.lookup name) ((p.mapFields i g).lookup name) :=
  find?_rel (fun _ _ h => by rw [h.name_eq]) forall₂_mapFields

/-- Only a type that is no struct can have constants, so a change of fields does not matter. -/
theorem checkEnumType_mapFields (named : NamedType) :
    Workspace.checkEnumType (p.mapFields i g) named = Workspace.checkEnumType p named := by
  unfold Workspace.checkEnumType Workspace.underlying?
  cases named.underlying with
  | some t => rfl
  | none =>
      rcases none_or_some_of_rel (p.lookup_mapFields i g named.name) with
        ⟨ho, ho'⟩ | ⟨o, o', ho, ho', hchanged⟩
      · rw [ho, ho']
      · simp only [ho, ho']
        cases hchanged with
        | same => rfl
        | mapped =>
            cases o with
            | typeName d =>
                simp only [Object.mapFields, TypeDecl.mapFields]
                cases d.underlying <;> rfl
            | _ => rfl

end Package

/-! ### The conversion of a changed workspace -/

namespace Workspace

/-- What stands in the place of an object after a change: in another package the same object. -/
inductive Changed (w : Workspace) (path : String) (i : Nat) (g : List Field → List Field) :
    Package × Object → Package × Object → Prop
  | elsewhere (d : Package × Object) : w.Changed path i g d d
  | inside {p : Package} {o o' : Object} (hp : w.packages.get? path = some p)
      (ho : p.Changed i g o o') : w.Changed path i g (p, o) (p.mapFields i g, o')

variable {w : Workspace} {path : String} {i : Nat} {g : List Field → List Field}

theorem get?_mapFields (key : String) : (w.mapFields path i g).packages.get? key =
    (w.packages.get? key).map fun p => if key = path then p.mapFields i g else p :=
  Keyed.get?_mapValues ..

theorem find?_mapFields (w : Workspace) (path : String) (i : Nat) (g : List Field → List Field)
    (key name : String) : Option.Rel (w.Changed path i g) (w.find? key name)
      ((w.mapFields path i g).find? key name) := by
  simp only [find?, get?_mapFields]
  cases hp : w.packages.get? key with
  | none => exact .none
  | some p =>
      simp only [Option.map_some, bind, Option.bind_some]
      split
      · rename_i hkey
        rcases none_or_some_of_rel (p.lookup_mapFields i g name) with
          ⟨ho, ho'⟩ | ⟨o, o', ho, ho', hchanged⟩
        · rw [ho, ho']
          exact .none
        · rw [ho, ho']
          exact .some (.inside (hkey ▸ hp) hchanged)
      · cases p.lookup name with
        | none => exact .none
        | some o => exact .some (.elsewhere _)

theorem isIgnored_mapFields (key name : String) :
    (w.mapFields path i g).isIgnored key name = w.isIgnored key name := by
  simp only [isIgnored, get?_mapFields]
  cases w.packages.get? key with
  | none => rfl
  | some p =>
      simp only [Option.map_some]
      split
      · have hsome : ((p.mapFields i g).lookup name).isSome = (p.lookup name).isSome := by
          rcases none_or_some_of_rel (p.lookup_mapFields i g name) with
            ⟨ho, ho'⟩ | ⟨o, o', ho, ho', -⟩
          · rw [ho, ho']
          · rw [ho, ho']
            rfl
        rw [hsome]
        rfl
      · rfl

theorem declareAlike_mapFields (w : Workspace) (path : String) (i : Nat)
    (g : List Field → List Field) : DeclareAlike w (w.mapFields path i g) where
  found key name := by
    rcases none_or_some_of_rel (w.find?_mapFields path i g key name) with
      ⟨hd, hd'⟩ | ⟨d, d', hd, hd', hchanged⟩
    · rw [hd, hd']
      exact .none
    · rw [hd, hd']
      refine .some ?_
      cases hchanged <;> rfl
  identifier key name := by
    have hprefix : ((w.mapFields path i g).packages.get? key).map Package.namePrefix =
        (w.packages.get? key).map Package.namePrefix := by
      rw [get?_mapFields, Option.map_map]
      refine congrArg (Option.map · _) (funext fun p => ?_)
      simp only [Function.comp_apply]
      split <;> rfl
    rw [identifier, identifier, hprefix]
  ignored := isIgnored_mapFields
  overrides _ := rfl
  checked key := by
    rw [get?_mapFields]
    cases w.packages.get? key with
    | none => exact .none
    | some p =>
        refine .some fun named => ?_
        dsimp only
        split
        · exact p.checkEnumType_mapFields named
        · rfl

/-- A struct whose record stays the same is declared as before. -/
theorem declare_mapFields {p : Package} {o : Object}
    (hrecord : ∀ d fields params, o = .typeName d → d.underlying = .struct fields →
      w.recordOf p d params (g fields) = w.recordOf p d params fields) :
    w.declare p (o.mapFields g) = w.declare p o := by
  cases o with
  | typeName d =>
      have hform : ∀ params, w.declareAs p (d.mapFields g) params (d.underlying.mapFields g) =
          w.declareAs p d params d.underlying := by
        intro params
        cases hunderlying : d.underlying with
        | struct fields => exact hrecord d fields params rfl hunderlying
        | _ => rfl
      exact congrArg (w.declaredParams d.typeParams >>= ·) (funext hform)
  | const c => rfl
  | var d => rfl
  | func d => rfl

section Unseen

variable (hrecord : ∀ p d fields params, w.packages.get? path = some p →
  p.objects[i]? = some (.typeName d) → d.underlying = .struct fields →
  w.recordOf p d params (g fields) = w.recordOf p d params fields)

include hrecord

theorem Changed.objectsAlike {d d' : Package × Object} (h : w.Changed path i g d d') :
    ObjectsAlike Eq w (w.mapFields path i g) d d' := by
  have hdeclare := w.declareAlike_mapFields path i g
  cases h with
  | elsewhere =>
      exact ⟨rfl, rfl, rfl, rfl, .of_eq keepsErrors_eq (hdeclare.declare_eq rfl rfl d.2)⟩
  | @inside p o o' hp ho =>
      have hsame : (w.mapFields path i g).declare (p.mapFields i g) o' = w.declare p o' :=
        hdeclare.declare_eq rfl rfl o'
      cases ho with
      | same => exact ⟨rfl, rfl, rfl, rfl, .of_eq keepsErrors_eq hsame⟩
      | mapped ho =>
          refine ⟨rfl, rfl, o.mapFields_name g, o.mapFields_enumType? g,
            .of_eq keepsErrors_eq (hsame.trans ?_)⟩
          refine declare_mapFields fun d fields params hd hfields => ?_
          exact hrecord p d fields params hp (hd ▸ ho) hfields

/-- A change of fields that the record does not show leaves the conversion as it was. -/
theorem convert_mapFields : (w.mapFields path i g).convert = w.convert := by
  refine Parallel.convert_eq ⟨?_, fun key name => ?_, isIgnored_mapFields⟩
  · have hvalues : (w.mapFields path i g).packages.values = w.packages.entries.map fun entry =>
        if entry.1 = path then entry.2.mapFields i g else entry.2 := List.map_map
    rw [hvalues, Keyed.values, List.forall₂_map_left_iff, List.forall₂_map_right_iff]
    refine List.forall₂_same.mpr fun entry hentry => ?_
    split
    · rename_i hkey
      have hp : w.packages.get? path = some entry.2 := by
        rw [← hkey]
        exact Keyed.mem_entries_iff.mp hentry
      exact ⟨rfl, Package.forall₂_mapFields.imp fun o o' ho =>
        Changed.objectsAlike hrecord (.inside hp ho)⟩
    · exact ⟨rfl, List.forall₂_same.mpr fun o _ => Changed.objectsAlike hrecord (.elsewhere _)⟩
  · rcases none_or_some_of_rel (w.find?_mapFields path i g key name) with
      ⟨hd, hd'⟩ | ⟨d, d', hd, hd', hchanged⟩
    · rw [hd, hd']
      exact .none
    · rw [hd, hd']
      exact .some (hchanged.objectsAlike hrecord)

end Unseen

/-! ### Fields that are left out -/

theorem parse_noTag : StructTags.parse "" = .ok ⟨[]⟩ := by decide +kernel

/-- A field that adds nothing may be missing, for whatever does not count empty parts. -/
theorem bind_fieldParts_eraseIdx {β : Type} {owner : String} {fields : List Field} {j : Nat}
    {f : Field} (hf : fields[j]? = some f) (hpart : w.fieldPart owner f = pure {})
    {next : List FieldPart → Mapping β}
    (hnext : ∀ front back, next (front ++ ({} : FieldPart) :: back) = next (front ++ back)) :
    w.fieldParts owner (fields.eraseIdx j) >>= next = w.fieldParts owner fields >>= next := by
  induction fields generalizing j next with
  | nil => cases hf
  | cons first rest ih =>
      cases j with
      | zero =>
          cases hf
          rw [List.eraseIdx_cons_zero, fieldParts, hpart]
          simp only [pure_bind, bind_assoc]
          exact congrArg (w.fieldParts owner rest >>= ·) (funext fun parts => (hnext [] parts).symm)
      | succ j =>
          have hrest : ∀ part,
              (w.fieldParts owner (rest.eraseIdx j) >>= fun parts => next (part :: parts)) =
                w.fieldParts owner rest >>= fun parts => next (part :: parts) :=
            fun part => ih hf fun front back => hnext (part :: front) back
          rw [List.eraseIdx_cons_succ, fieldParts, fieldParts]
          simp only [pure_bind, bind_assoc, hrest]

theorem recordOf_eraseIdx {p : Package} {d : TypeDecl} {params : List TypeParameter}
    {fields : List Field} {j : Nat} {f : Field} (hf : fields[j]? = some f)
    (hpart : ∀ owner, w.fieldPart owner f = pure {}) :
    w.recordOf p d params (fields.eraseIdx j) = w.recordOf p d params fields := by
  refine bind_fieldParts_eraseIdx hf (hpart _) fun front back => ?_
  simp only [List.flatMap_append, List.flatMap_cons, List.nil_append]

theorem recordOf_modify {p : Package} {d : TypeDecl} {params : List TypeParameter}
    {fields : List Field} {j : Nat} {f : Field} {g : Field → Field} (hf : fields[j]? = some f)
    (hpart : ∀ owner, w.fieldPart owner (g f) = w.fieldPart owner f) :
    w.recordOf p d params (fields.modify j g) = w.recordOf p d params fields := by
  have hparts : ∀ owner, w.fieldParts owner (fields.modify j g) = w.fieldParts owner fields := by
    intro owner
    induction fields generalizing j with
    | nil => cases hf
    | cons first rest ih =>
        cases j with
        | zero =>
            cases hf
            rw [List.modify_zero_cons, fieldParts, fieldParts, hpart]
        | succ j => rw [List.modify_succ_cons, fieldParts, fieldParts, ih hf]
  rw [recordOf, recordOf, hparts]

section Dropped

variable {owner : String} {f : Field} {tags : StructTags}
  (htags : StructTags.parse f.tag = .ok tags)

include htags

theorem fieldPart_of_dropped
    (hdropped : tags.isIgnored = true ∨ f.isExported = false ∧ f.embedded = false)
    (hmember : ¬(f.embedded = true ∧ tags.rename? = none)) : w.fieldPart owner f = pure {} := by
  have hnotEmbedded : (f.embedded && tags.rename?.isNone) = false := by
    rw [← Bool.not_eq_true, Bool.and_eq_true, Option.isNone_iff_eq_none]
    exact hmember
  have hleft : (!f.isExported || tags.isIgnored) = true := by
    rcases hdropped with hignored | ⟨hhidden, -⟩
    · rw [hignored, Bool.or_true]
    · rw [hhidden]
      rfl
  simp only [fieldPart, htags, hnotEmbedded, memberPart, hleft]
  rfl

/-- Of the tag of an embedded field, only a new name matters. -/
theorem fieldPart_clearTag (hembedded : f.embedded = true ∧ tags.rename? = none) :
    w.fieldPart owner { f with tag := "" } = w.fieldPart owner f := by
  simp only [fieldPart, htags, parse_noTag, hembedded.1, hembedded.2]
  rfl

end Dropped

/-- Without a field that its tags leave out, or that is neither exported nor embedded, the
conversion is the same, with every event. The exception is an embedded field that keeps its own
name: of its tag nothing else is looked at, so that it stays although it is to be ignored. -/
theorem dropped_field_leaves_no_trace {p : Package} {d : TypeDecl} {fields : List Field} {j : Nat}
    {f : Field} {tags : StructTags} (hp : w.packages.get? path = some p)
    (hd : p.objects[i]? = some (.typeName d)) (hfields : d.underlying = .struct fields)
    (hf : fields[j]? = some f) (htags : StructTags.parse f.tag = .ok tags)
    (hdropped : tags.isIgnored = true ∨ f.isExported = false ∧ f.embedded = false) :
    (¬(f.embedded = true ∧ tags.rename? = none) →
      (w.deleteField path i j).convert = w.convert) ∧
    (f.embedded = true ∧ tags.rename? = none → (w.clearTag path i j).convert = w.convert) := by
  have hunique : ∀ {q : Package} {e : TypeDecl} {others : List Field},
      w.packages.get? path = some q → q.objects[i]? = some (.typeName e) →
      e.underlying = .struct others → others[j]? = some f := by
    intro q e others hq he hothers
    obtain rfl : p = q := Option.some.inj (hp.symm.trans hq)
    obtain rfl : d = e := Object.typeName.inj (Option.some.inj (hd.symm.trans he))
    obtain rfl : fields = others := SourceType.struct.inj (hfields.symm.trans hothers)
    exact hf
  constructor
  · intro hmember
    exact convert_mapFields fun q e others params hq he hothers =>
      recordOf_eraseIdx (hunique hq he hothers) fun _ => fieldPart_of_dropped htags hdropped hmember
  · intro hembedded
    exact convert_mapFields fun q e others params hq he hothers =>
      recordOf_modify (hunique hq he hothers) fun _ => fieldPart_clearTag htags hembedded

end Workspace

/-! ### A hidden field and an embedded one -/

/-- A struct with a field of a type that nothing else refers to, and one that embeds a struct.
Neither is to be seen: the first is not exported, and the tag of the other says so. -/
def accountFields : List Field :=
  [{ name := "secret", type := .pointer (.named ⟨some "vault", "Key", [], none⟩), embedded := false,
     tag := "", doc := [] },
   { name := "Base", type := .named ⟨some "bank", "Base", [], none⟩, embedded := true,
     tag := "typescript:\"-\"", doc := [] },
   { name := "Name", type := .basic .string, embedded := false, tag := "", doc := [] }]

def accountDecl : TypeDecl := { name := "Account", underlying := .struct accountFields }

def bank : Package :=
  { path := "bank", name := "bank",
    objects := [.typeName { name := "Base", underlying := .struct [] }, .typeName accountDecl] }

def vault : Package :=
  { path := "vault", name := "vault", mode := .reference,
    objects := [.typeName { name := "Key", underlying := .struct [] }] }

def bankWorkspace : Workspace := .ofPackages [bank, vault] (by decide)

theorem parse_ignoredTag :
    StructTags.parse "typescript:\"-\"" = .ok ⟨[⟨"typescript", "-", []⟩]⟩ := by
  decide +kernel

theorem dropped_field_leaves_no_trace_bank :
    (∃ (f : Field) (tags : StructTags), accountFields[0]? = some f ∧
      StructTags.parse f.tag = .ok tags ∧
      f.isExported = false ∧ f.embedded = false ∧
      (bankWorkspace.deleteField "bank" 1 0).convert = bankWorkspace.convert) ∧
    (∃ (f : Field) (tags : StructTags), accountFields[1]? = some f ∧
      StructTags.parse f.tag = .ok tags ∧
      tags.isIgnored = true ∧ f.embedded = true ∧ tags.rename? = none ∧
      (bankWorkspace.clearTag "bank" 1 1).convert = bankWorkspace.convert) ∧
    bankWorkspace.convert.1.toOption.map Graph.keys = some ["Base", "Account"] := by
  have hhidden : FieldOf.isExported (accountFields[0]) = false := by decide +kernel
  have hignored : StructTags.isIgnored ⟨[⟨"typescript", "-", []⟩]⟩ = true := by decide +kernel
  have hbank : bankWorkspace.packages.get? "bank" = some bank := rfl
  have hsecret := Workspace.dropped_field_leaves_no_trace (i := 1) (j := 0) hbank rfl rfl rfl
    Workspace.parse_noTag (Or.inr ⟨hhidden, rfl⟩)
  have hbase := Workspace.dropped_field_leaves_no_trace (i := 1) (j := 1) hbank rfl rfl rfl
    parse_ignoredTag (Or.inl hignored)
  refine ⟨⟨_, _, rfl, Workspace.parse_noTag, hhidden, rfl, hsecret.1 ?_⟩,
    ⟨_, _, rfl, parse_ignoredTag, hignored, rfl, rfl, hbase.2 ⟨rfl, rfl⟩⟩, by decide +kernel⟩
  rintro ⟨hembedded, -⟩
  cases hembedded

/-- Without the embedded field that is to be ignored, the record has one parent less. -/
theorem ignored_embedded_field_stays :
    bankWorkspace.packages.get? "bank" = some bank ∧
    bank.objects[1]? = some (.typeName accountDecl) ∧
    accountDecl.underlying = .struct accountFields ∧
    (∃ (f : Field) (tags : StructTags), accountFields[1]? = some f ∧
      StructTags.parse f.tag = .ok tags ∧
      tags.isDash "typescript" = true) ∧
    (bankWorkspace.deleteField "bank" 1 1).convert.1 ≠ bankWorkspace.convert.1 := by
  refine ⟨rfl, rfl, rfl, ⟨_, _, rfl, parse_ignoredTag, by decide +kernel⟩, fun hsame => ?_⟩
  have hparents : (bankWorkspace.convert.1.toOption.bind (·.get? "Account")).map
      (·.form.parents.length) = some 1 := by decide +kernel
  have hparents' : ((bankWorkspace.deleteField "bank" 1 1).convert.1.toOption.bind
      (·.get? "Account")).map (·.form.parents.length) = some 0 := by decide +kernel
  rw [hsame, hparents] at hparents'
  cases hparents'

end TypeBridge
