import TypeBridge.Text.Basic

/-!
Texts in parts: how long they are together, and how they are cut at separators.
-/

namespace TypeBridge.Text

theorem byteLength_append (cs cs' : List Char) :
    byteLength (cs ++ cs') = byteLength cs + byteLength cs' := by
  induction cs with
  | nil => simp [byteLength]
  | cons c rest ih => simp only [List.cons_append, byteLength, ih, Nat.add_assoc]

theorem byteLength_pos {cs : List Char} (h : cs ≠ []) : 0 < byteLength cs := by
  cases cs with
  | nil => exact absurd rfl h
  | cons c rest => exact Nat.add_pos_left c.utf8Size_pos _

theorem splitChars_eq_splitOn (separator : Char) (cs : List Char) :
    splitChars separator cs = cs.splitOn separator := by
  induction cs with
  | nil => rfl
  | cons c rest ih =>
      rw [splitChars, List.splitOn_cons_eq_if_modifyHead, ← ih]
      simp only [beq_iff_eq]
      split
      · rfl
      · split
        · rename_i hnil
          exact absurd hnil (splitChars_ne_nil separator rest)
        · rename_i hpieces
          rw [hpieces, List.modifyHead_cons]

theorem splitChars_append_cons {separator : Char} {front : List Char} (h : separator ∉ front)
    (back : List Char) :
    splitChars separator (front ++ separator :: back) = front :: splitChars separator back := by
  induction front with
  | nil => rw [List.nil_append, splitChars, if_pos rfl]
  | cons c front ih =>
      rw [List.mem_cons, not_or] at h
      rw [List.cons_append, splitChars, if_neg (Ne.symm h.1), ih h.2]

theorem notMem_of_mem_splitChars {separator : Char} {cs piece : List Char}
    (h : piece ∈ splitChars separator cs) : separator ∉ piece := by
  induction cs generalizing piece with
  | nil =>
      rw [splitChars, List.mem_singleton] at h
      simp [h]
  | cons c rest ih =>
      rw [splitChars] at h
      split at h
      · rcases List.mem_cons.mp h with rfl | hlater
        · exact List.not_mem_nil
        · exact ih hlater
      · rename_i hc
        split at h
        · rename_i hnil
          exact absurd hnil (splitChars_ne_nil separator rest)
        · rename_i first later hpieces
          rw [hpieces] at ih
          rcases List.mem_cons.mp h with rfl | hlater
          · have hfirst := ih List.mem_cons_self
            simp only [List.mem_cons, not_or]
            exact ⟨Ne.symm hc, hfirst⟩
          · exact ih (List.mem_cons_of_mem _ hlater)

/-- The pieces of a text are those without a separator that make it up when they are joined. -/
theorem splitChars_eq_iff (separator : Char) (cs : List Char) {pieces : List (List Char)}
    (hne : pieces ≠ []) : splitChars separator cs = pieces ↔
      (∀ piece ∈ pieces, separator ∉ piece) ∧ [separator].intercalate pieces = cs := by
  constructor
  · rintro rfl
    refine ⟨fun piece => notMem_of_mem_splitChars, ?_⟩
    rw [splitChars_eq_splitOn, List.intercalate_splitOn]
  · rintro ⟨hfree, rfl⟩
    rw [splitChars_eq_splitOn, List.splitOn_intercalate separator hfree hne]

end TypeBridge.Text
