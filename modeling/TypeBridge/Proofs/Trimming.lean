import Mathlib.Data.List.Nodup
import TypeBridge.Proofs.Pass

/-!
Names of enum members after trimming. Each member loses the name of its enum for itself, whatever the
other members are called, so a shortened name can be one that another member had from the start. Only
this makes names meet: two members that are both shortened, or both left alone, stay apart, and no name
is used up.
-/

namespace TypeBridge

namespace EnumMember

variable {front rest : String} {m m' : EnumMember} {members : List EnumMember}

/-- The name of a member is a given name and more after it. -/
def Extends (front : String) (m : EnumMember) : Prop := ∃ rest, rest ≠ "" ∧ m.name = front ++ rest

/-- Trimming gives a member the name of another one, which it leaves alone. -/
def Clashes (front : String) (m m' : EnumMember) : Prop :=
  m.name = front ++ m'.name ∧ m'.name ≠ "" ∧ ¬ m'.Extends front

/-- A member after trimming: what follows the given name, if there is more after it, and otherwise the
member as it is. -/
inductive TrimmedTo (front : String) (m : EnumMember) : EnumMember → Prop
  | shortened {rest : String} (hrest : rest ≠ "") (hname : m.name = front ++ rest) :
      TrimmedTo front m { m with name := rest }
  | kept (h : ¬ m.Extends front) : TrimmedTo front m m

theorem trimPrefix_append (hrest : rest ≠ "") (hname : m.name = front ++ rest) :
    m.trimPrefix front = { m with name := rest } := by
  have hsome : rest.toList.isEmpty = false := by simpa using hrest
  simp [trimPrefix, hname, hsome]

theorem extends_iff : m.Extends front ↔ (front.toList.isPrefixOf m.name.toList &&
    !(m.name.toList.drop front.toList.length).isEmpty) = true := by
  constructor
  · rintro ⟨rest, hrest, hname⟩
    simpa [hname] using hrest
  · intro h
    rw [Bool.and_eq_true, List.isPrefixOf_iff_prefix] at h
    obtain ⟨⟨rest, hrest⟩, hsome⟩ := h
    refine ⟨.ofList rest, fun hempty => ?_, ?_⟩
    · have hnil : rest = [] := by simpa using congrArg String.toList hempty
      simp [← hrest, hnil] at hsome
    · rw [← String.toList_inj, String.toList_append, String.toList_ofList, hrest]

instance (front : String) (m : EnumMember) : Decidable (m.Extends front) :=
  decidable_of_iff' _ extends_iff

instance (front : String) (m m' : EnumMember) : Decidable (m.Clashes front m') :=
  inferInstanceAs (Decidable (_ ∧ _ ∧ ¬ _))

theorem trimPrefix_eq_self (h : ¬ m.Extends front) : m.trimPrefix front = m :=
  if_neg (extends_iff.not.mp h)

theorem trimmedTo_trimPrefix (front : String) (m : EnumMember) :
    m.TrimmedTo front (m.trimPrefix front) := by
  by_cases h : m.Extends front
  · obtain ⟨rest, hrest, hname⟩ := h
    rw [trimPrefix_append hrest hname]
    exact .shortened hrest hname
  · rw [trimPrefix_eq_self h]
    exact .kept h

/-- Names that differ meet only where one of them is shortened to the other. -/
theorem name_trimPrefix_eq_iff (hne : m.name ≠ m'.name) :
    (m.trimPrefix front).name = (m'.trimPrefix front).name ↔
      m.Clashes front m' ∨ m'.Clashes front m := by
  by_cases hm : m.Extends front <;> by_cases hm' : m'.Extends front
  · obtain ⟨rest, hrest, hname⟩ := hm
    obtain ⟨rest', hrest', hname'⟩ := hm'
    have hapart : rest ≠ rest' := fun heq => hne (by rw [hname, hname', heq])
    rw [trimPrefix_append hrest hname, trimPrefix_append hrest' hname']
    exact iff_of_false hapart fun hclash => hclash.elim (fun h => h.2.2 ⟨_, hrest', hname'⟩)
      fun h => h.2.2 ⟨_, hrest, hname⟩
  · have hother : ¬ m'.Clashes front m := fun h => h.2.2 hm
    obtain ⟨rest, hrest, hname⟩ := hm
    rw [trimPrefix_append hrest hname, trimPrefix_eq_self hm', or_iff_left hother]
    constructor
    · rintro rfl
      exact ⟨hname, hrest, hm'⟩
    · rintro ⟨hclash, -, -⟩
      simpa [hname] using hclash
  · have hother : ¬ m.Clashes front m' := fun h => h.2.2 hm'
    obtain ⟨rest, hrest, hname⟩ := hm'
    rw [trimPrefix_append hrest hname, trimPrefix_eq_self hm, or_iff_right hother]
    constructor
    · rintro rfl
      exact ⟨hname, hrest, hm⟩
    · rintro ⟨hclash, -, -⟩
      simpa [hname] using hclash.symm
  · rw [trimPrefix_eq_self hm, trimPrefix_eq_self hm']
    exact iff_of_false hne fun hclash => hclash.elim (fun h => hm ⟨_, h.2.1, h.1⟩)
      fun h => hm' ⟨_, h.2.1, h.1⟩

theorem name_trimPrefix_eq_empty_iff : (m.trimPrefix front).name = "" ↔ m.name = "" := by
  by_cases h : m.Extends front
  · obtain ⟨rest, hrest, hname⟩ := h
    rw [trimPrefix_append hrest hname, hname]
    simp [hrest]
  · rw [trimPrefix_eq_self h]

/-- Distinct names of members stay distinct unless two of them clash. -/
theorem nodup_trimPrefix_iff (h : (members.map name).Nodup) :
    ((members.map (trimPrefix front)).map name).Nodup ↔
      ∀ m ∈ members, ∀ m' ∈ members, ¬ m.Clashes front m' := by
  rw [List.map_map, List.nodup_map_iff_inj_on (List.Nodup.of_map _ h)]
  have hnames : ∀ {m m'}, m ∈ members → m' ∈ members → m ≠ m' → m.name ≠ m'.name :=
    fun hm hm' hne heq => hne (List.inj_on_of_nodup_map h hm hm' heq)
  constructor
  · intro hinj m hm m' hm' hclash
    -- a member does not clash with itself: it does not both extend the name and not extend it
    have hne : m ≠ m' := by
      rintro rfl
      exact hclash.2.2 ⟨_, hclash.2.1, hclash.1⟩
    exact hne (hinj m hm m' hm'
      ((name_trimPrefix_eq_iff (hnames hm hm' hne)).mpr (.inl hclash)))
  · intro hapart m hm m' hm' heq
    by_contra hne
    rcases (name_trimPrefix_eq_iff (hnames hm hm' hne)).mp heq with hclash | hclash
    · exact hapart m hm m' hm' hclash
    · exact hapart m' hm' m hm hclash

end EnumMember

namespace Graph

variable {g : Graph}

/-- An enum of the graph, by its key, its name and its members. -/
def HasEnum (g : Graph) (key : String) (name : Identifier) (members : List EnumMember) : Prop :=
  ∃ d, g.get? key = some d ∧ d.form = .enumeration name members

/-- No enum of the graph has two members of one name. -/
def MembersDistinct (g : Graph) : Prop :=
  ∀ key name members, g.HasEnum key name members → (members.map EnumMember.name).Nodup

/-- The enums of a trimmed graph are those of the graph with trimmed members. -/
theorem hasEnum_trimEnumPrefix_iff {key : String} {name : Identifier} {members' : List EnumMember} :
    g.trimEnumPrefix.HasEnum key name members' ↔
      ∃ members, g.HasEnum key name members ∧ members' = members.map (·.trimPrefix name.name) := by
  simp only [HasEnum, trimEnumPrefix, get?_mapNodes, Option.map_eq_some_iff]
  constructor
  · rintro ⟨_, ⟨⟨modifiers, source, comments, form⟩, hget, rfl⟩, hform⟩
    cases form with
    | enumeration name members =>
        cases hform
        exact ⟨members, ⟨_, hget, rfl⟩, rfl⟩
    | _ => cases hform
  · rintro ⟨members, ⟨d, hget, hform⟩, rfl⟩
    refine ⟨_, ⟨d, hget, rfl⟩, ?_⟩
    rw [hform, Form.trimMembers]

end Graph

namespace Pass

/-- Trimming keeps the members of an enum distinct exactly if no two of them clash, and never leaves a
member without a name that had one. What becomes of a member depends on it and its enum's name only. -/
theorem trimEnumPrefix_distinct {g : Graph} (h : g.MembersDistinct) :
    ∃ g', g.apply trimEnumPrefix.change = .done g' ∧
      (g'.MembersDistinct ↔ ∀ key name members, g.HasEnum key name members →
        ∀ m ∈ members, ∀ m' ∈ members, ¬ m.Clashes name.name m') ∧
      ∀ key name members, g.HasEnum key name members →
        ∃ members', g'.HasEnum key name members' ∧
          ((members'.map EnumMember.name).Nodup ↔
            ∀ m ∈ members, ∀ m' ∈ members, ¬ m.Clashes name.name m') ∧
          List.Forall₂ (fun m m' => m'.name = "" ↔ m.name = "") members members' ∧
          List.Forall₂ (EnumMember.TrimmedTo name.name) members members' := by
  refine ⟨g.trimEnumPrefix, changesBy_trimEnumPrefix.apply g, ?_, ?_⟩
  · constructor
    · intro hdistinct key name members henum
      rw [← EnumMember.nodup_trimPrefix_iff (h key name members henum)]
      exact hdistinct key name _ (Graph.hasEnum_trimEnumPrefix_iff.mpr ⟨members, henum, rfl⟩)
    · intro hapart key name members' henum'
      obtain ⟨members, henum, rfl⟩ := Graph.hasEnum_trimEnumPrefix_iff.mp henum'
      exact (EnumMember.nodup_trimPrefix_iff (h key name members henum)).mpr
        (hapart key name members henum)
  · intro key name members henum
    refine ⟨_, Graph.hasEnum_trimEnumPrefix_iff.mpr ⟨members, henum, rfl⟩,
      EnumMember.nodup_trimPrefix_iff (h key name members henum), ?_, ?_⟩
    · rw [List.forall₂_map_right_iff, List.forall₂_same]
      exact fun m _ => EnumMember.name_trimPrefix_eq_empty_iff
    · rw [List.forall₂_map_right_iff, List.forall₂_same]
      exact fun m _ => m.trimmedTo_trimPrefix name.name

end Pass

/-- A graph of one enum, with members of some names. -/
def enumGraph (name : String) (members : List String) : Graph where
  nodes := .ofList [(name, ⟨[], none, [], .enumeration { name } (members.map ({ name := · }))⟩)]

theorem hasEnum_enumGraph_iff {name key : String} {names : List String} {id : Identifier}
    {members : List EnumMember} : (enumGraph name names).HasEnum key id members ↔
      key = name ∧ id = { name } ∧ members = names.map ({ name := · }) := by
  constructor
  · rintro ⟨d, hget, hform⟩
    have hentry : (key, d) ∈ (enumGraph name names).nodes.entries := Keyed.mem_entries_iff.mpr hget
    obtain ⟨rfl, rfl⟩ := Prod.mk.inj (List.mem_singleton.mp hentry)
    cases hform
    exact ⟨rfl, rfl, rfl⟩
  · rintro ⟨rfl, rfl, rfl⟩
    exact ⟨_, Keyed.mem_entries_iff.mp (List.mem_singleton_self _), rfl⟩

theorem membersDistinct_enumGraph_iff {name : String} {names : List String} :
    (enumGraph name names).MembersDistinct ↔ names.Nodup := by
  have hnames : (names.map fun name => ({ name } : EnumMember)).map EnumMember.name = names := by
    rw [List.map_map]
    exact List.map_id names
  constructor
  · intro h
    have hnodup := h name { name } _ (hasEnum_enumGraph_iff.mpr ⟨rfl, rfl, rfl⟩)
    rwa [hnames] at hnodup
  · intro h key id members henum
    obtain ⟨-, -, rfl⟩ := hasEnum_enumGraph_iff.mp henum
    rwa [hnames]

/-- A member that is called like its enum keeps its name, and no other one takes it. -/
theorem trimEnumPrefix_distinct_mode : (enumGraph "Mode" ["Mode", "ModeFast"]).MembersDistinct ∧
    ∃ g', (enumGraph "Mode" ["Mode", "ModeFast"]).apply Pass.trimEnumPrefix.change = .done g' ∧
      g'.MembersDistinct := by
  have hdistinct : (enumGraph "Mode" ["Mode", "ModeFast"]).MembersDistinct :=
    membersDistinct_enumGraph_iff.mpr (by decide)
  obtain ⟨g', happly, hiff, -⟩ := Pass.trimEnumPrefix_distinct hdistinct
  refine ⟨hdistinct, g', happly, hiff.mpr fun key id members henum => ?_⟩
  obtain ⟨-, rfl, rfl⟩ := hasEnum_enumGraph_iff.mp henum
  decide

/-- `ColorRed` is shortened to the name of another member of `Color`. -/
theorem trimmed_to_one_name : (enumGraph "Color" ["ColorRed", "Red"]).MembersDistinct ∧
    ∃ g', (enumGraph "Color" ["ColorRed", "Red"]).apply Pass.trimEnumPrefix.change = .done g' ∧
      g'.HasEnum "Color" { name := "Color" } [{ name := "Red" }, { name := "Red" }] ∧
      ¬ g'.MembersDistinct := by
  have henum : (enumGraph "Color" ["ColorRed", "Red"]).trimEnumPrefix.HasEnum "Color"
      { name := "Color" } [{ name := "Red" }, { name := "Red" }] :=
    Graph.hasEnum_trimEnumPrefix_iff.mpr
      ⟨_, hasEnum_enumGraph_iff.mpr ⟨rfl, rfl, rfl⟩, by rfl⟩
  refine ⟨membersDistinct_enumGraph_iff.mpr (by decide), _,
    Pass.changesBy_trimEnumPrefix.apply _, henum, fun h => ?_⟩
  exact absurd (h _ _ _ henum) (by decide)

end TypeBridge
