import Mathlib.Data.List.Pairwise
import TypeBridge.Proofs.Reachable
import TypeBridge.Proofs.SourceComments

/-!
Enums are complete and in order. Where every constant of an included type names a declared basic
type, and no type names a constant, constants are declared in their turns and nowhere else. The
members that wait for a type in the store are then exactly its constants, in the order of the turns,
wherever the type itself is declared. Each of them has the name of its constant, the literal of the
constant's kind and value, and the constant's comments without their markers. So a conversion fails only
when an object has no counterpart or two objects are declared under one key.
-/

namespace TypeBridge

/-- A list that has all elements of a longer one which count, in the same order, yields the same. -/
theorem filterMap_eq_of_sublist {α β : Type} {f : α → Option β} {part whole : List α}
    (h : part.Sublist whole) (hnodup : whole.Nodup)
    (hrest : ∀ a ∈ whole, a ∉ part → f a = none) : part.filterMap f = whole.filterMap f := by
  induction h with
  | slnil => rfl
  | cons a h ih =>
      rw [List.nodup_cons] at hnodup
      have hout : a ∉ _ := fun hmem => hnodup.1 (h.subset hmem)
      rw [List.filterMap_cons_none (hrest a List.mem_cons_self hout)]
      exact ih hnodup.2 fun b hb => hrest b (List.mem_cons_of_mem _ hb)
  | cons_cons a h ih =>
      rw [List.nodup_cons] at hnodup
      rw [List.filterMap_cons, List.filterMap_cons]
      rw [ih hnodup.2 fun b hb hout => hrest b (List.mem_cons_of_mem _ hb) ?_]
      intro hmem
      rcases List.mem_cons.mp hmem with rfl | hmem
      · exact hnodup.1 hb
      · exact hout hmem

/-! ### What becomes of a constant -/

/-- A literal has the kind and the value of a constant. -/
inductive ConstValue.WrittenAs : ConstValue → Literal → Prop
  | bool (value : Bool) : WrittenAs (.bool value) (.bool value)
  | int (value : Int64) : WrittenAs (.int value) (.int value)
  | float (value : Double) : WrittenAs (.float value) (.float value)
  | string (value : String) : WrittenAs (.string value) (.string value)

/-- A member of an enum shows a constant: its name, its value as a literal, and its comments. -/
structure ConstDecl.ShownBy (c : ConstDecl) (m : EnumMember) : Prop where
  name : m.name = c.name
  value : ∃ literal, c.value.WrittenAs literal ∧ m.value = some (.literal literal)
  comments : List.Forall₂ DocComment.TakenOver c.doc m.comments

theorem ConstValue.writtenAs_iff {value : ConstValue} {literal : Literal} :
    value.WrittenAs literal ↔ literal = value.literal := by
  constructor
  · rintro (_ | _ | _ | _) <;> rfl
  · rintro rfl
    cases value with
    | bool value => exact .bool value
    | int value => exact .int value
    | float value => exact .float value
    | string value => exact .string value

/-- A constant becomes the one member that shows it. -/
theorem ConstDecl.shownBy_iff (c : ConstDecl) (m : EnumMember) : c.ShownBy m ↔ m = c.member := by
  constructor
  · rintro ⟨hname, ⟨literal, hliteral, hvalue⟩, hcomments⟩
    rw [ConstValue.writtenAs_iff] at hliteral
    rw [forall₂_takenOver_iff] at hcomments
    obtain ⟨name, value, comments⟩ := m
    rw [ConstDecl.member, ← hname, ← hliteral, ← hvalue, ← hcomments]
  · rintro rfl
    exact ⟨rfl, ⟨_, ConstValue.writtenAs_iff.mpr rfl, rfl⟩, forall₂_takenOver_iff.mpr rfl⟩

namespace Workspace

variable {w : Workspace}

/-- A workspace with distinct names, in which a constant of an included package's type names a
declared basic type, and nothing else names a constant. -/
structure Regular (w : Workspace) : Prop where
  distinct : w.DistinctNames
  typed : ∀ p c t, w.Declares p (.const c) → c.enumType? = some t →
    (w.packages.get? t.package).isSome = true →
    ∃ q d, w.Declares q (.typeName d) ∧ nameOf (q, .typeName d) = t ∧ d.isBasic = true
  names : w.NamesNoConstant

/-- Every object that is to be converted has a counterpart. -/
def AllMap (w : Workspace) : Prop :=
  ∀ d, w.Converted d → ∃ e, (w.declare d.1 d.2).result = .ok e

/-- No two objects that are to be converted emit declarations under one key. -/
def KeysDistinct (w : Workspace) : Prop :=
  ∀ d d' key node node', w.Converted d → w.Converted d' →
    (w.emission d).declaration? key = some node → (w.emission d').declaration? key = some node' →
    d = d'

/-- The constant that an object is, if it belongs to the given type and is not ignored. -/
def constantOf? (w : Workspace) (t : ObjectName) (d : Package × Object) : Option ConstDecl :=
  match d.2 with
  | .const c => if c.enumType? = some t ∧ w.isIgnored d.1.path c.name = false then some c else none
  | _ => none

/-- The constants of a type that are not ignored: those of generated packages first, packages in the
order of their inclusion, objects in the order of their declaration. -/
def constantsOf (w : Workspace) (t : ObjectName) : List ConstDecl :=
  w.inOrder.filterMap (w.constantOf? t)

/-- A basic type emits an alias that waits for members. -/
theorem AllMap.emission_of_isBasic (h : w.AllMap) {p : Package} {t : TypeDecl}
    (ht : w.Converted (p, .typeName t)) (hbasic : t.isBasic = true) :
    ∃ mapped, w.emission (p, .typeName t) =
      .fill (w.identifier p.path t.name).emitted (w.aliasOf p t [] mapped) := by
  obtain ⟨e, he⟩ := h _ ht
  rw [emission_of_ok he]
  cases typeEmission_of_declare he with
  | skipped hbehavioral =>
      rw [TypeDecl.isBasic_of_isBehavioral hbehavioral] at hbasic
      cases hbasic
  | defined hother =>
      rw [hbasic] at hother
      cases hother
  | filled => exact ⟨_, rfl⟩

namespace Regular

theorem noConstantAsType (h : w.Regular) : w.NoConstantAsType := by
  intro d d' hd hd' _ _ hconst htype
  obtain ⟨p, o⟩ := d
  obtain ⟨p', o'⟩ := d'
  cases o with
  | const c =>
      have hmem := ConstDecl.mem_objects_of_enumType? htype
      have hnot := h.names c.type (mem_types_of_declares hd List.mem_cons_self) _ hmem
      rw [isConstant, nameOf, h.distinct.find? hd'] at hnot
      cases o' with
      | const c' => cases hnot
      | _ => cases hconst
  | _ => cases htype

/-- The type of an announced constant is to be converted, and emits an alias for the constant. -/
theorem exists_owner (h : w.Regular) (hmaps : w.AllMap) {d : Package × Object}
    (hd : w.Converted d) {key : String} {m : EnumMember}
    (hm : (w.emission d).member? key = some m) :
    ∃ p t mapped, w.Converted (p, .typeName t) ∧ d.2.enumType? = some (nameOf (p, .typeName t)) ∧
      w.emission (p, .typeName t) = .fill key (w.aliasOf p t [] mapped) := by
  obtain ⟨c, x, hconst, htype, href, hincluded, hkept, rfl, -⟩ := const_of_member? hm
  have hdeclares : w.Declares d.1 (.const c) := hconst ▸ hd.declares
  obtain ⟨p, t, ht, rfl, hbasic⟩ := h.typed d.1 c x hdeclares htype hincluded
  have hconverted : w.Converted (p, .typeName t) := .referenced ht hkept hd href
  obtain ⟨mapped, hemission⟩ := hmaps.emission_of_isBasic hconverted hbasic
  refine ⟨p, t, mapped, hconverted, ?_, hemission⟩
  rw [hconst]
  exact htype

/-- Nothing is ever in the way of an object. -/
theorem not_obstructed (h : w.Regular) (hmaps : w.AllMap) (hkeys : w.KeysDistinct) :
    ¬ w.Obstructed := by
  rintro ⟨s, d, hsound, hd, hnew, ⟨e, herror⟩ | ⟨e, herror⟩⟩
  · obtain ⟨e', hok⟩ := hmaps d hd
    rw [herror] at hok
    cases hok
  · have hclash : ∀ d' ∈ s.declared, ∀ key node node', (w.emission d).declaration? key = some node →
        (w.emission d').declaration? key ≠ some node' := by
      intro d' hd' key node node' hnode hnode'
      exact hnew d' hd' (congrArg nameOf
        (hkeys d' d key node' node (hsound.converted d' hd') hd hnode' hnode))
    rcases Store.emit_eq_error herror with ⟨key, node, hdefine, hkey⟩ | ⟨key, node, hfill, hkey⟩
    · have hnode : (w.emission d).declaration? key = some node := by simp [hdefine]
      obtain ⟨e', he', hkey'⟩ := (hsound.built.contains_iff key).mp hkey
      obtain ⟨d', hd', rfl⟩ := List.mem_map.mp he'
      rcases Emission.declares_or_member hkey' with ⟨node', hnode'⟩ | ⟨m, hm⟩
      · exact hclash d' hd' key node node' hnode hnode'
      · -- the type of the queued member would have to be the new object, which is no basic type
        obtain ⟨p, t, mapped, ht, -, hemission⟩ :=
          h.exists_owner hmaps (hsound.converted d' hd') hm
        have hsame : (p, Object.typeName t) = d :=
          hkeys _ _ key (w.aliasOf p t [] mapped) node ht hd (by simp [hemission]) hnode
        rw [hsame, hdefine] at hemission
        cases hemission
    · obtain ⟨node', hnode'⟩ := Option.isSome_iff_exists.mp hkey
      obtain ⟨e', he', hdeclares'⟩ := hsound.built.exists_emission hnode'
      obtain ⟨d', hd', rfl⟩ := List.mem_map.mp he'
      exact hclash d' hd' key node node' (by simp [hfill]) hdeclares'

end Regular

/-! ### Members in the order of the turns -/

/-- Every object has one turn. -/
theorem DistinctNames.nodup_inOrder (h : w.DistinctNames) : w.inOrder.Nodup := by
  have hperm : w.packagesInOrder.Perm w.packages.values := by
    unfold packagesInOrder
    simpa using List.filter_append_perm (fun p : Package => p.mode = .generate) w.packages.values
  have hpaths : w.packagesInOrder.Pairwise fun p p' => p.path ≠ p'.path := by
    have hkeys : w.packages.values.map Package.path = w.packages.keys := by
      rw [Keyed.values, Keyed.keys, List.map_map]
      exact List.map_congr_left fun entry hentry => w.path_eq entry hentry
    have hnodup : (w.packagesInOrder.map Package.path).Nodup := by
      rw [(hperm.map Package.path).nodup_iff, hkeys]
      exact w.packages.nodup
    exact List.pairwise_map.mp hnodup
  rw [inOrder, List.nodup_flatMap]
  refine ⟨fun p hp => ?_, hpaths.imp fun hpath => ?_⟩
  · have hnames := h p (hperm.mem_iff.mp hp)
    exact (List.Nodup.of_map _ hnames).map fun _ _ heq => congrArg Prod.snd heq
  · refine List.disjoint_left.mpr fun d hd hd' => hpath ?_
    obtain ⟨o, -, rfl⟩ := List.mem_map.mp hd
    obtain ⟨o', -, heq⟩ := List.mem_map.mp hd'
    exact (congrArg (fun d => d.1.path) heq).symm

theorem constantOf?_eq_some_iff {t : ObjectName} {d : Package × Object} {c : ConstDecl} :
    w.constantOf? t d = some c ↔
      d.2 = .const c ∧ c.enumType? = some t ∧ w.isIgnored d.1.path c.name = false := by
  obtain ⟨p, o⟩ := d
  cases o with
  | const c' =>
      rw [constantOf?, Option.ite_none_right_eq_some, Option.some.injEq, Object.const.injEq]
      constructor
      · rintro ⟨hc, rfl⟩
        exact ⟨rfl, hc⟩
      · rintro ⟨rfl, hc⟩
        exact ⟨hc, rfl⟩
  | _ => simp [constantOf?]

namespace Regular

/-- What an object queues for a declared key is the member that it is as a constant of that type. -/
theorem member?_emission (h : w.Regular) (hmaps : w.AllMap) (hkeys : w.KeysDistinct)
    {d : Package × Object} (hd : w.Converted d) {key : String} {node : Declaration}
    (hnode : (w.emission d).declaration? key = some node) {a : Package × Object}
    (ha : w.Converted a) :
    (w.emission a).member? key = (w.constantOf? (nameOf d) a).map ConstDecl.member := by
  cases hm : (w.emission a).member? key with
  | some m =>
      obtain ⟨c, t, hconst, htype, -, -, -, -, rfl⟩ := const_of_member? hm
      obtain ⟨p, owner, mapped, howner, htype', hemission⟩ := h.exists_owner hmaps ha hm
      have hsame : (p, Object.typeName owner) = d :=
        hkeys _ _ key (w.aliasOf p owner [] mapped) node howner hd (by simp [hemission]) hnode
      have hc : w.constantOf? (nameOf d) a = some c := by
        refine constantOf?_eq_some_iff.mpr ⟨hconst, ?_, ?_⟩
        · rw [hsame, hconst] at htype'
          exact htype'
        · have hkept := ha.kept
          rw [hconst] at hkept
          exact hkept
      rw [hc]
      rfl
  | none =>
      cases hc : w.constantOf? (nameOf d) a with
      | none => rfl
      | some c =>
          obtain ⟨hconst, htype, -⟩ := constantOf?_eq_some_iff.mp hc
          obtain ⟨p, o⟩ := a
          cases hconst
          obtain ⟨e, he⟩ := hmaps _ ha
          rw [emission_of_ok he] at hm
          cases constEmission_of_declare he with
          | skipped hskipped =>
              rcases hskipped _ htype with hmissing | hignored
              · rw [nameOf, get?_path hd.declares.1] at hmissing
                cases hmissing
              · rw [nameOf, hd.kept] at hignored
                cases hignored
          | member htype' =>
              rw [htype, Option.some.injEq] at htype'
              subst htype'
              obtain ⟨rfl, -⟩ := name_of_declaration? hnode
              simp [Emission.member?, nameOf] at hm
          | constant htype' =>
              rw [htype] at htype'
              cases htype'

end Regular

end Workspace

namespace Late

variable {w : Workspace} {s : Progress}

/-- The members that wait for a declared key are the constants of its object, in order. -/
theorem pending_eq (h : Late w w.inOrder s) (hregular : w.Regular) (hmaps : w.AllMap)
    (hkeys : w.KeysDistinct) {d : Package × Object} (hd : w.Converted d) {key : String}
    {node : Declaration} (hnode : (w.emission d).declaration? key = some node) :
    (s.store.entry key).pending = (w.constantsOf (nameOf d)).map ConstDecl.member := by
  have hmem := h.mem_declared_iff hregular.distinct hregular.noConstantAsType
  let member : Package × Object → Option EnumMember := fun a =>
    (w.constantOf? (nameOf d) a).map ConstDecl.member
  have hconstants : s.constants.filterMap member = s.declared.filterMap member := by
    rw [Progress.constants, List.filterMap_filter]
    refine List.filterMap_congr fun a _ => ?_
    cases hconst : a.2.isConst with
    | true => rfl
    | false =>
        obtain ⟨p, o⟩ := a
        cases o with
        | const c => cases hconst
        | _ => rfl
  have hrest : ∀ a ∈ w.inOrder, a ∉ s.constants → member a = none := by
    intro a ha hout
    rw [Option.map_eq_none_iff, Option.eq_none_iff_forall_ne_some]
    intro c hc
    obtain ⟨hconst, htype, hkept⟩ := Workspace.constantOf?_eq_some_iff.mp hc
    refine hout (List.mem_filter.mpr ⟨(hmem a).mpr ?_, by rw [hconst]; rfl⟩)
    have hdeclares := Workspace.mem_inOrder_iff.mp ha
    obtain ⟨p, o⟩ := a
    cases hconst
    cases hmode : p.mode with
    | generate => exact .generated hdeclares hkept hmode
    | reference => exact .ofConvertedType hdeclares hkept hmode htype hd
  rw [h.sound.built.entry_eq]
  calc (s.declared.map w.emission).filterMap (Emission.member? key)
      = s.declared.filterMap fun a => (w.emission a).member? key := List.filterMap_map
    _ = s.declared.filterMap member := List.filterMap_congr fun a ha =>
        hregular.member?_emission hmaps hkeys hd hnode (h.sound.converted a ha)
    _ = s.constants.filterMap member := hconstants.symm
    _ = w.inOrder.filterMap member := filterMap_eq_of_sublist
        (h.ordered hregular.names) hregular.distinct.nodup_inOrder hrest
    _ = (w.constantsOf (nameOf d)).map ConstDecl.member := List.map_filterMap.symm

/-- Every entry has a declaration, and one with members has an alias. -/
theorem exists_finishEntry (h : Late w w.inOrder s) (hregular : w.Regular) (hmaps : w.AllMap)
    {key : String} (hkey : s.store.contains key = true) :
    ∃ d, Store.finishEntry key (s.store.entry key) = .ok d := by
  have hbuilt := h.sound.built
  have hmem := h.mem_declared_iff hregular.distinct hregular.noConstantAsType
  have howner : ∀ a ∈ s.declared, ∀ m, (w.emission a).member? key = some m → ∃ node,
      (s.store.entry key).node = some node ∧
        ∃ name params type, node.form = .typeAlias name params type := by
    intro a ha m hm
    obtain ⟨p, t, mapped, ht, -, hemission⟩ :=
      hregular.exists_owner hmaps (h.sound.converted a ha) hm
    have hdeclared := List.mem_map_of_mem ((hmem _).mpr ht) (f := w.emission)
    exact ⟨w.aliasOf p t [] mapped, hbuilt.node_eq hdeclared (by simp [hemission]), _, _, _, rfl⟩
  cases hpending : (s.store.entry key).pending with
  | nil =>
      obtain ⟨e, he, hkey'⟩ := (hbuilt.contains_iff key).mp hkey
      obtain ⟨a, ha, rfl⟩ := List.mem_map.mp he
      rcases Emission.declares_or_member hkey' with ⟨node, hnode⟩ | ⟨m, hm⟩
      · exact Store.exists_finishEntry key (hbuilt.node_eq he hnode) (Or.inl hpending)
      · obtain ⟨node, hnode, -⟩ := howner a ha m hm
        exact Store.exists_finishEntry key hnode (Or.inl hpending)
  | cons m rest =>
      have hm : m ∈ (s.store.entry key).pending := by
        rw [hpending]
        exact List.mem_cons_self
      rw [hbuilt.entry_eq] at hm
      obtain ⟨e, he, hm⟩ := List.mem_filterMap.mp hm
      obtain ⟨a, ha, rfl⟩ := List.mem_map.mp he
      obtain ⟨node, hnode, halias⟩ := howner a ha m hm
      exact Store.exists_finishEntry key hnode (Or.inr halias)

end Late

namespace Workspace

variable {w : Workspace}

/-- A regular workspace is converted when all its objects have counterparts under distinct keys. -/
theorem Regular.exists_convert (h : w.Regular) (hmaps : w.AllMap) (hkeys : w.KeysDistinct) :
    ∃ g, w.convert.1 = .ok g :=
  Workspace.exists_convert (h.not_obstructed hmaps hkeys) fun _ hlate _ hkey =>
    hlate.exists_finishEntry h hmaps hkey

/-- What an object of a regular workspace declares, with its constants attached. -/
theorem Regular.get?_convert (h : w.Regular) (hmaps : w.AllMap) (hkeys : w.KeysDistinct) {g : Graph}
    (hconvert : w.convert.1 = .ok g) {d : Package × Object} (hd : w.Converted d) {key : String}
    {node : Declaration} (hnode : (w.emission d).declaration? key = some node) :
    g.get? key = some (node.withMembers ((w.constantsOf (nameOf d)).map ConstDecl.member)) := by
  obtain ⟨s, hs⟩ := exists_finished hconvert
  have hdeclared := (hs.late.mem_declared_iff h.distinct h.noConstantAsType d).mpr hd
  rw [hs.get?_eq hdeclared hnode, hs.late.pending_eq h hmaps hkeys hd hnode]

/-- A regular workspace whose objects are all converted has counterparts for all of them. -/
theorem Regular.allMap_of_convert (h : w.Regular) {g : Graph} (hconvert : w.convert.1 = .ok g) :
    w.AllMap := by
  obtain ⟨s, hs⟩ := exists_finished hconvert
  intro d hd
  exact hs.late.sound.maps d
    ((hs.late.mem_declared_iff h.distinct h.noConstantAsType d).mpr hd)

theorem Regular.keysDistinct_of_convert (h : w.Regular) {g : Graph}
    (hconvert : w.convert.1 = .ok g) : w.KeysDistinct := by
  obtain ⟨s, hs⟩ := exists_finished hconvert
  have hmem := hs.late.mem_declared_iff h.distinct h.noConstantAsType
  have hpairwise := List.pairwise_map.mp hs.late.sound.built.pairwise_declared
  have hsymm : Std.Symm fun d d' : Package × Object => ∀ key node node',
      (w.emission d).declaration? key = some node → (w.emission d').declaration? key ≠ some node' :=
    ⟨fun d d' hclash key node node' hnode hnode' => hclash key node' node hnode' hnode⟩
  intro d d' key node node' hd hd' hnode hnode'
  by_contra hne
  exact hpairwise.forall ((hmem d).mpr hd) ((hmem d').mpr hd') hne key node node' hnode hnode'

/-- Some object that is to be converted asks for a builtin. -/
def Requires (w : Workspace) (b : Builtin) : Prop :=
  ∃ d, w.Converted d ∧ Effect.require b ∈ (w.declare d.1 d.2).effects

/-- A key that no object declares is there only for a builtin that was asked for. -/
theorem Regular.get?_convert_builtin (h : w.Regular) {g : Graph} (hconvert : w.convert.1 = .ok g)
    {key : String} (hfree : ∀ d, w.Converted d → ∀ node, (w.emission d).declaration? key ≠ some node)
    {node : Declaration} :
    g.get? key = some node ↔ ∃ b, w.Requires b ∧ b.name = key ∧ node = b.declaration := by
  obtain ⟨s, hs⟩ := exists_finished hconvert
  have hmem := hs.late.mem_declared_iff h.distinct h.noConstantAsType
  have hmaps := h.allMap_of_convert hconvert
  have hcontains : s.store.contains key = false := by
    rw [Bool.eq_false_iff]
    intro hkey
    obtain ⟨e, he, hkey'⟩ := (hs.late.sound.built.contains_iff key).mp hkey
    obtain ⟨d, hd, rfl⟩ := List.mem_map.mp he
    have hd := (hmem d).mp hd
    rcases Emission.declares_or_member hkey' with ⟨node', hnode'⟩ | ⟨m, hm⟩
    · exact hfree d hd node' hnode'
    · obtain ⟨p, t, mapped, ht, -, hemission⟩ := h.exists_owner hmaps hd hm
      exact hfree _ ht (w.aliasOf p t [] mapped) (by simp [hemission])
  have hbuiltins : ∀ b, b ∈ s.builtins ↔ w.Requires b := by
    intro b
    rw [hs.late.sound.builtins]
    exact exists_congr fun d => and_congr_left fun _ => hmem d
  rw [hs.node_iff, hcontains]
  simp only [Bool.false_eq_true, false_and, true_and, false_or, hbuiltins]

/-- A regular workspace whose objects have counterparts under distinct keys is converted. Each basic
type becomes an enum whose members show exactly its constants, in order, or stays an alias if it has
none. -/
theorem enums_assembled (h : w.Regular) (hmaps : w.AllMap) (hkeys : w.KeysDistinct) :
    ∃ g, w.convert.1 = .ok g ∧
      ∀ p t, w.Converted (p, .typeName t) → t.isBasic = true →
        ∃ d, g.get? (w.identifier p.path t.name).emitted = some d ∧
          ((∃ name params type, d.form = .typeAlias name params type) ↔
            w.constantsOf ⟨p.path, t.name⟩ = []) ∧
          (w.constantsOf ⟨p.path, t.name⟩ ≠ [] →
            ∃ members, d.form = .enumeration (w.identifier p.path t.name) members ∧
              List.Forall₂ ConstDecl.ShownBy (w.constantsOf ⟨p.path, t.name⟩) members) := by
  obtain ⟨g, hg⟩ := h.exists_convert hmaps hkeys
  refine ⟨g, hg, fun p t ht hbasic => ?_⟩
  obtain ⟨mapped, hemission⟩ := hmaps.emission_of_isBasic ht hbasic
  have hnode : (w.emission (p, .typeName t)).declaration? (w.identifier p.path t.name).emitted =
      some (w.aliasOf p t [] mapped) := by simp [hemission]
  refine ⟨_, h.get?_convert hmaps hkeys hg ht hnode, ?_⟩
  rw [nameOf]
  cases hconstants : w.constantsOf ⟨p.path, Object.name (.typeName t)⟩ with
  | nil =>
      refine ⟨⟨fun _ => hconstants, fun _ => ⟨_, _, _, rfl⟩⟩, fun hsome => ?_⟩
      exact absurd hconstants hsome
  | cons c rest =>
      refine ⟨⟨?_, fun hnone => ?_⟩, fun _ => ?_⟩
      · rintro ⟨name, params, type, hform⟩
        cases hform
      · rw [Object.name] at hconstants
        rw [hconstants] at hnone
        cases hnone
      · refine ⟨_, rfl, ?_⟩
        rw [Object.name] at hconstants
        rw [hconstants]
        exact (forall₂_iff_eq_map ConstDecl.shownBy_iff).mpr rfl

end Workspace

theorem paletteWorkspace_regular : paletteWorkspace.Regular where
  distinct := by
    unfold Workspace.DistinctNames
    decide +kernel
  names := by
    unfold Workspace.NamesNoConstant
    decide +kernel
  typed := by
    intro p c t hdeclares htype _
    have hall : ∀ d ∈ paletteWorkspace.located, ∀ x, d.2.enumType? = some x →
        x = ⟨"color", "Color"⟩ := by
      intro d hd x hx
      have hmem : d.2.enumType? ∈ [none, some ⟨"color", "Color"⟩] :=
        (by decide +kernel : ∀ d ∈ paletteWorkspace.located,
          d.2.enumType? ∈ [none, some ⟨"color", "Color"⟩]) d hd
      rw [hx] at hmem
      simpa using hmem
    cases hall (p, .const c) (Workspace.mem_located_iff.mpr hdeclares) t htype
    refine ⟨color, { name := "Color", underlying := .basic .string }, ⟨?_, ?_⟩, rfl, rfl⟩
    · exact List.mem_cons_of_mem _ List.mem_cons_self
    · exact List.mem_cons_of_mem _ (List.mem_cons_of_mem _ (List.mem_cons_of_mem _
        List.mem_cons_self))

theorem paletteWorkspace_allMap : paletteWorkspace.AllMap := by
  intro d hd
  have hall : ∀ d ∈ paletteWorkspace.located,
      (paletteWorkspace.declare d.1 d.2).result.toOption.isSome = true := by decide +kernel
  have hok := hall d (Workspace.mem_located_iff.mpr hd.declares)
  cases hresult : (paletteWorkspace.declare d.1 d.2).result with
  | error e =>
      rw [hresult] at hok
      cases hok
  | ok e => exact ⟨e, rfl⟩

theorem paletteWorkspace_keysDistinct : paletteWorkspace.KeysDistinct := by
  intro d d' key node node' hd hd' hnode hnode'
  have hall : ∀ d ∈ paletteWorkspace.located, ∀ d' ∈ paletteWorkspace.located,
      (paletteWorkspace.identifier d.1.path d.2.name).emitted =
        (paletteWorkspace.identifier d'.1.path d'.2.name).emitted → nameOf d = nameOf d' := by
    decide +kernel
  have hkey := (Workspace.name_of_declaration? hnode).1
  have hkey' := (Workspace.name_of_declaration? hnode').1
  exact paletteWorkspace_regular.distinct.eq_of_nameOf hd.declares hd'.declares
    (hall d (Workspace.mem_located_iff.mpr hd.declares) d'
      (Workspace.mem_located_iff.mpr hd'.declares) (hkey.symm.trans hkey'))

theorem enums_assembled_palette : ∃ g d, paletteWorkspace.convert.1 = .ok g ∧
    g.get? "Color" = some d ∧
    d.form = .enumeration (paletteWorkspace.identifier "color" "Color") [
      { name := "Blue", value := some (.literal (.string "blue")), comments := [
        { leading := true, singleLine := true, text := " The sky.", trailingNewline := true }] },
      { name := "Red", value := some (.literal (.string "red")), comments := [
        { leading := false, singleLine := true, text := " Wine ", trailingNewline := true }] },
      { name := "Green", value := some (.literal (.string "green")), comments := [] }] := by
  have hconstants : (paletteWorkspace.constantsOf ⟨"color", "Color"⟩).map
      (fun c => (c.name, c.value, c.doc)) =
        [("Blue", .string "blue", [{ text := "// The sky." }]),
          ("Red", .string "red", [{ text := "/* Wine */", trailing := true }]),
          ("Green", .string "green", [])] := by decide +kernel
  obtain ⟨g, hg, hnodes⟩ := Workspace.enums_assembled paletteWorkspace_regular
    paletteWorkspace_allMap paletteWorkspace_keysDistinct
  have hpalette : paletteWorkspace.Converted (palette, .typeName {
      name := "Palette", underlying := .slice (.named ⟨some "color", "Color", [], none⟩) }) :=
    .generated ⟨List.mem_cons_self, List.mem_cons_self⟩ (by decide +kernel) rfl
  have hcolor : paletteWorkspace.Converted (color, .typeName {
      name := "Color", underlying := .basic .string }) := by
    refine .referenced ⟨?_, ?_⟩ (by decide +kernel) hpalette (by decide +kernel)
    · exact List.mem_cons_of_mem _ List.mem_cons_self
    · exact List.mem_cons_of_mem _ (List.mem_cons_of_mem _ (List.mem_cons_of_mem _
        List.mem_cons_self))
  obtain ⟨d, hd, -, henum⟩ := hnodes color _ hcolor rfl
  change paletteWorkspace.constantsOf ⟨"color", "Color"⟩ ≠ [] →
    ∃ members, d.form = .enumeration (paletteWorkspace.identifier "color" "Color") members ∧
      List.Forall₂ ConstDecl.ShownBy (paletteWorkspace.constantsOf ⟨"color", "Color"⟩) members at henum
  have hsome : paletteWorkspace.constantsOf ⟨"color", "Color"⟩ ≠ [] := by
    intro hnone
    rw [hnone] at hconstants
    cases hconstants
  obtain ⟨members, hform, hshown⟩ := henum hsome
  refine ⟨g, d, hg, hd, hform.trans (congrArg _ ?_)⟩
  calc members
      = (paletteWorkspace.constantsOf ⟨"color", "Color"⟩).map ConstDecl.member :=
        (forall₂_iff_eq_map ConstDecl.shownBy_iff).mp hshown
    _ = ((paletteWorkspace.constantsOf ⟨"color", "Color"⟩).map fun c => (c.name, c.value, c.doc)).map
          fun c => ⟨c.1, some (.literal c.2.1.literal), docComments c.2.2⟩ := by
        rw [List.map_map]
        rfl
    _ = _ := by
        rw [hconstants]
        rfl

end TypeBridge
