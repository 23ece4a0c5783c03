import TypeBridge.Proofs.Ownership
import TypeBridge.Proofs.VisitOrder

/-!
Which declarations are exported. The conversion exports nothing, one pass exports every declaration,
and no other pass touches the mark: a declaration keeps it in whatever form it is written, and a list
of values has it if its alias has it. So after any passes every declaration is exported once if the
one pass was among them, wherever it stood and however often it ran, and not at all otherwise.
-/

namespace TypeBridge

namespace Declaration

/-- Exporting twice is exporting once. -/
theorem count_markExported (d : Declaration) :
    d.markExported.modifiers.count .exported = max 1 (d.modifiers.count .exported) := by
  unfold markExported
  split
  · rename_i h
    have hpos : 0 < d.modifiers.count .exported :=
      List.count_pos_iff.mpr (List.contains_iff_mem.mp h)
    omega
  · rename_i h
    have hzero : d.modifiers.count .exported = 0 :=
      List.count_eq_zero.mpr fun hmem => h (List.contains_iff_mem.mpr hmem)
    rw [List.count_cons_self, hzero]
    rfl

/-- A list of values is exported if its alias is. -/
theorem count_of_valueList? {d : Declaration} {list : String × Declaration}
    (h : d.valueList? = some list) :
    list.2.modifiers.count .exported = min 1 (d.modifiers.count .exported) := by
  unfold valueList? at h
  split at h
  · split at h
    · cases h
      cases hexported : d.modifiers.contains .exported with
      | true =>
          have hpos : 0 < d.modifiers.count .exported :=
            List.count_pos_iff.mpr (List.contains_iff_mem.mp hexported)
          rw [if_pos rfl, List.count_singleton_self]
          omega
      | false =>
          have hzero : d.modifiers.count .exported = 0 := List.count_eq_zero.mpr fun hmem => by
            rw [List.contains_iff_mem.mpr hmem] at hexported
            cases hexported
          rw [if_neg Bool.false_ne_true, hzero]
          rfl
    · cases h
  · cases h

end Declaration

namespace Graph

/-- Every declaration has the mark of an export so many times. -/
def Exported (g : Graph) (n : Nat) : Prop :=
  ∀ key d, g.get? key = some d → d.modifiers.count .exported = n

variable {g : Graph} {n m : Nat}

theorem Exported.mapNodes (h : g.Exported n) {f : String → Declaration → Declaration}
    (hf : ∀ key d, d.modifiers.count .exported = n → (f key d).modifiers.count .exported = m) :
    (g.mapNodes f).Exported m := by
  intro key d hd
  rw [get?_mapNodes, Option.map_eq_some_iff] at hd
  obtain ⟨d₀, hd₀, rfl⟩ := hd
  exact hf key d₀ (h key d₀ hd₀)

theorem Exported.enumLists (h : g.Exported n) (hn : n ≤ 1) : g.enumLists.state.Exported n := by
  intro key d hd
  rw [get?_enumLists, Option.or_eq_some_iff] at hd
  rcases hd with hold | ⟨-, hlist⟩
  · exact h key d hold
  · obtain ⟨d₀, hd₀, hvalues⟩ := List.mem_filterMap.mp (Keyed.mem_of_lookup_eq_some hlist)
    obtain ⟨key₀, hkey₀⟩ := Keyed.mem_values_iff.mp hd₀
    have hcount : d.modifiers.count .exported = min 1 (d₀.modifiers.count .exported) :=
      Declaration.count_of_valueList? hvalues
    rw [hcount, h key₀ d₀ hkey₀]
    omega

end Graph

namespace Pass

variable {g : Graph} {n : Nat}

theorem ChangesBy.exported {pass : Pass} {f : Form → Form}
    (h : pass.ChangesBy (Declaration.mapForm f)) (hg : g.Exported n) :
    (pass.run g).state.Exported n := by
  rw [h g]
  exact hg.mapNodes fun _ _ hd => hd

/-- One pass exports every declaration, and the others leave the marks as they are. -/
theorem run_exported (pass : Pass) (h : g.Exported n) (hn : n ≤ 1) :
    (pass.run g).state.Exported (if pass = .exportTypes then 1 else n) := by
  cases pass with
  | exportTypes =>
      refine h.mapNodes fun _ d hd => ?_
      rw [Declaration.count_markExported, hd, if_pos rfl]
      omega
  | readOnly => exact changesBy_readOnly.exported h
  | enumAsTypes => exact changesBy_enumAsTypes.exported h
  | trimEnumPrefix => exact changesBy_trimEnumPrefix.exported h
  | enumLists => exact h.enumLists hn
  | simplifyOptional => exact changesBy_simplifyOptional.exported h
  | notNullMaps => exact changesBy_notNullMaps.exported h
  | nullUnionSlices => exact changesBy_nullUnionSlices.exported h
  | interfaceToType => exact changesBy_interfaceToType.exported h
  | missingReferencesToAny => exact h.mapNodes fun _ _ hd => hd

/-- After any passes every declaration is exported once if one of them exports, and as often as
before otherwise. -/
theorem applyAll_exported (passes : List Pass) (h : g.Exported n) (hn : n ≤ 1) :
    (g.applyAll (passes.map change)).state.Exported (if .exportTypes ∈ passes then 1 else n) := by
  induction passes generalizing g n with
  | nil => exact h
  | cons pass rest ih =>
      have hstep := run_exported pass h hn
      rw [state_applyAll_cons]
      by_cases hpass : pass = .exportTypes
      · rw [if_pos hpass] at hstep
        have hrest := ih hstep (Nat.le_refl 1)
        rw [ite_self] at hrest
        rwa [if_pos (List.mem_cons.mpr (.inl hpass.symm))]
      · rw [if_neg hpass] at hstep
        have hmem : Pass.exportTypes ∈ pass :: rest ↔ Pass.exportTypes ∈ rest := by
          rw [List.mem_cons, or_iff_right (Ne.symm hpass)]
        simp only [hmem]
        exact ih hstep hn

end Pass

namespace Workspace

variable {w : Workspace} {g : Graph}

/-- The conversion exports nothing. -/
theorem exported_of_convert (h : w.convert.1 = .ok g) : g.Exported 0 := by
  obtain ⟨s, hs⟩ := exists_finished h
  intro key d hd
  rcases hs.exists_origin hd with ⟨owner, howner, node, hnode, rfl⟩ | ⟨b, -, rfl⟩
  · obtain ⟨e, he⟩ := hs.late.sound.maps _ howner
    rw [emission_of_ok he] at hnode
    rw [modifiers_withMembers, (plain_of_declare he key node hnode).1]
    rfl
  · rfl

/-- Passes of any kind, in any order and number, come to their end on a converted graph. Every
declaration that is there then, whichever of them created or rebuilt it, is exported exactly once if
one of the passes exports, and not at all otherwise. -/
theorem exported_wherever_placed (h : w.convert.1 = .ok g) (passes : List Pass) :
    ∃ g', (g.applyAll (passes.map Pass.change)).result = .ok g' ∧
      ∀ key d, g'.get? key = some d →
        d.modifiers.count .exported = if .exportTypes ∈ passes then 1 else 0 :=
  ⟨_, Pass.result_applyAll passes g,
    Pass.applyAll_exported passes (exported_of_convert h) (Nat.zero_le 1)⟩

end Workspace

/-- Passes that export before an enum becomes an alias and before its values are listed, and once more
at the end. -/
def exportingPasses : List Pass := [.exportTypes, .enumAsTypes, .enumLists, .exportTypes]

theorem exported_wherever_placed_palette : ∃ g g', paletteWorkspace.convert.1 = .ok g ∧
    (g.applyAll (exportingPasses.map Pass.change)).result = .ok g' ∧
    g'.keys = ["Palette", "Color", "Colors"] ∧
    ∀ key d, g'.get? key = some d → d.modifiers.count .exported = 1 := by
  obtain ⟨g, -, hg, -, hkeys⟩ : ∃ g node, paletteWorkspace.convert.1 = .ok g ∧
      g.get? "Color" = some node ∧
      (g.applyAll (exportingPasses.map Pass.change)).state.keys = ["Palette", "Color", "Colors"] :=
    Workspace.exists_node_of_view
      (fun g _ => (g.applyAll (exportingPasses.map Pass.change)).state.keys) (by decide +kernel)
  obtain ⟨g', hresult, hexported⟩ := Workspace.exported_wherever_placed hg exportingPasses
  rw [(Outcome.result_eq_ok_iff.mp hresult).2] at hkeys
  exact ⟨g, g', hg, hresult, hkeys, hexported⟩

end TypeBridge
