import Mathlib.Data.List.Induction
import TypeBridge.Keyed

/-!
Keyed maps through their lookups: an entry is what the lookup of its key gives, insertion changes one
key, removal only forgets, and a map made of pairs with distinct keys has exactly those entries.
-/

namespace TypeBridge.Keyed

universe u v

variable {α : Type u}

theorem get?_insert (m : Keyed α) (key other : String) (value : α) :
    (m.insert key value).get? other = if other = key then some value else m.get? other := by
  by_cases h : other = key
  · rw [if_pos h, h, get?_insert_self]
  · rw [if_neg h, get?_insert_of_ne m value h]

theorem lookup_eq_some_of_mem {entries : List (String × α)} (hnodup : (entries.map Prod.fst).Nodup)
    {key : String} {value : α} (h : (key, value) ∈ entries) : entries.lookup key = some value := by
  induction entries with
  | nil => cases h
  | cons entry rest ih =>
      obtain ⟨other, old⟩ := entry
      rw [List.map_cons, List.nodup_cons] at hnodup
      rcases List.mem_cons.mp h with heq | hrest
      · cases heq
        exact List.lookup_cons_self
      · have hne : (key == other) = false := by
          refine beq_eq_false_iff_ne.mpr fun heq => hnodup.1 ?_
          exact List.mem_map.mpr ⟨(key, value), hrest, heq⟩
        rw [List.lookup_cons, hne]
        exact ih hnodup.2 hrest

theorem mem_of_lookup_eq_some {entries : List (String × α)} {key : String} {value : α}
    (h : entries.lookup key = some value) : (key, value) ∈ entries := by
  obtain ⟨before, after, rfl, _⟩ := List.lookup_eq_some_iff.mp h
  exact List.mem_append_right _ List.mem_cons_self

theorem mem_entries_iff {m : Keyed α} {key : String} {value : α} :
    (key, value) ∈ m.entries ↔ m.get? key = some value :=
  ⟨lookup_eq_some_of_mem m.nodup, mem_of_lookup_eq_some⟩

theorem mem_values_iff {m : Keyed α} {value : α} :
    value ∈ m.values ↔ ∃ key, m.get? key = some value := by
  constructor
  · intro h
    obtain ⟨⟨key, _⟩, hentry, rfl⟩ := List.mem_map.mp h
    exact ⟨key, mem_entries_iff.mp hentry⟩
  · rintro ⟨key, h⟩
    exact List.mem_map.mpr ⟨(key, value), mem_entries_iff.mpr h, rfl⟩

theorem mem_keys_iff {m : Keyed α} {key : String} : key ∈ m.keys ↔ ∃ value, m.get? key = some value := by
  constructor
  · intro h
    obtain ⟨⟨_, value⟩, hentry, rfl⟩ := List.mem_map.mp h
    exact ⟨value, mem_entries_iff.mp hentry⟩
  · rintro ⟨value, h⟩
    exact List.mem_map.mpr ⟨(key, value), mem_entries_iff.mpr h, rfl⟩

theorem get?_eq_none_of_notMem {m : Keyed α} {key : String} (h : key ∉ m.keys) :
    m.get? key = none := by
  rw [mem_keys_iff] at h
  exact Option.eq_none_iff_forall_ne_some.mpr fun value hvalue => h ⟨value, hvalue⟩

theorem contains_iff_isSome (m : Keyed α) (key : String) :
    m.contains key = true ↔ (m.get? key).isSome = true := by
  rw [contains_iff, mem_keys_iff, Option.isSome_iff_exists]

theorem get?_erase (m : Keyed α) (key other : String) :
    (m.erase key).get? other = if other = key then none else m.get? other := by
  refine Option.ext fun value => ?_
  rw [← mem_entries_iff, erase, List.mem_filter, mem_entries_iff]
  by_cases h : other = key <;> simp [h]

theorem get?_of_get?_erase {m : Keyed α} {key other : String} {value : α}
    (h : (m.erase key).get? other = some value) : m.get? other = some value := by
  rw [get?_erase, Option.ite_none_left_eq_some] at h
  exact h.2

theorem get?_mapValues {β : Type v} (m : Keyed α) (f : String → α → β) (key : String) :
    (m.mapValues f).get? key = (m.get? key).map (f key) := by
  refine Option.ext fun value => ?_
  rw [← mem_entries_iff, Option.map_eq_some_iff, mapValues, List.mem_map]
  constructor
  · rintro ⟨⟨other, old⟩, hentry, heq⟩
    cases heq
    exact ⟨old, mem_entries_iff.mp hentry, rfl⟩
  · rintro ⟨old, hold, rfl⟩
    exact ⟨(key, old), mem_entries_iff.mpr hold, rfl⟩

theorem putEntry_putEntry (key : String) (first second : α) (entries : List (String × α)) :
    putEntry key second (putEntry key first entries) = putEntry key second entries := by
  induction entries with
  | nil => simp [putEntry]
  | cons entry rest ih =>
      by_cases hkey : entry.1 = key
      · simp [putEntry, hkey]
      · simp [putEntry, hkey, ih]

/-- The last value that is set for a key counts. -/
theorem insert_insert (m : Keyed α) (key : String) (first second : α) :
    (m.insert key first).insert key second = m.insert key second :=
  Keyed.ext (putEntry_putEntry key first second m.entries)

theorem putEntry_of_lookup {key : String} {value : α} {entries : List (String × α)}
    (h : entries.lookup key = some value) : putEntry key value entries = entries := by
  induction entries with
  | nil => cases h
  | cons entry rest ih =>
      obtain ⟨other, old⟩ := entry
      by_cases hkey : other = key
      · subst hkey
        rw [List.lookup_cons_self, Option.some.injEq] at h
        rw [putEntry, if_pos rfl, h]
      · have hne : (key == other) = false := beq_eq_false_iff_ne.mpr (Ne.symm hkey)
        rw [List.lookup_cons, hne] at h
        rw [putEntry, if_neg hkey, ih h]

/-- Setting a key to the value that it has changes nothing. -/
theorem insert_eq_self {m : Keyed α} {key : String} {value : α} (h : m.get? key = some value) :
    m.insert key value = m :=
  Keyed.ext (putEntry_of_lookup h)

theorem eraseDups_concat (keys : List String) (key : String) :
    (keys ++ [key]).eraseDups =
      if key ∈ keys then keys.eraseDups else keys.eraseDups ++ [key] := by
  rw [List.eraseDups_append]
  by_cases h : key ∈ keys
  · simp [List.removeAll, h]
  · simp [List.removeAll, h, List.eraseDups_cons]

theorem nodup_eraseDups (keys : List String) : keys.eraseDups.Nodup := by
  induction keys using List.reverseRecOn with
  | nil => exact List.nodup_nil
  | append_singleton keys key ih =>
      rw [eraseDups_concat]
      split
      · exact ih
      · next hnew =>
          have hother : ∀ other ∈ keys, other ≠ key := fun other hmem heq => hnew (heq ▸ hmem)
          simpa [List.nodup_append, ih] using hother

/-- The keys stand in the order in which they were first inserted. -/
theorem keys_insert_of_history {m : Keyed α} {history : List String}
    (h : m.keys = history.eraseDups) (key : String) (value : α) :
    (m.insert key value).keys = (history ++ [key]).eraseDups := by
  rw [keys_insert, eraseDups_concat, h]
  simp only [List.mem_eraseDups]

theorem putEntry_of_notMem {key : String} {value : α} {entries : List (String × α)}
    (h : key ∉ entries.map Prod.fst) : putEntry key value entries = entries ++ [(key, value)] := by
  induction entries with
  | nil => rfl
  | cons entry rest ih =>
      rw [List.map_cons, List.mem_cons, not_or] at h
      rw [putEntry, if_neg (Ne.symm h.1), ih h.2, List.cons_append]

theorem entries_insertAll (m : Keyed α) (pairs : List (String × α))
    (h : (m.entries ++ pairs).map Prod.fst |>.Nodup) :
    (m.insertAll pairs).entries = m.entries ++ pairs := by
  induction pairs generalizing m with
  | nil => exact (List.append_nil _).symm
  | cons pair rest ih =>
      have hnew : pair.1 ∉ m.entries.map Prod.fst := by
        intro hmem
        rw [List.map_append, List.nodup_append] at h
        exact h.2.2 _ hmem _ List.mem_cons_self rfl
      have hput : (m.insert pair.1 pair.2).entries = m.entries ++ [pair] := putEntry_of_notMem hnew
      have hrest := ih (m.insert pair.1 pair.2) (by rw [hput, List.append_assoc]; exact h)
      rw [hput, List.append_assoc] at hrest
      exact hrest

theorem entries_ofList {pairs : List (String × α)} (h : (pairs.map Prod.fst).Nodup) :
    (ofList pairs).entries = pairs :=
  entries_insertAll empty pairs h

end TypeBridge.Keyed
