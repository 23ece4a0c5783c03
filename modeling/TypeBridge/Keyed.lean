/-!
Finite maps that remember the order in which their keys first appeared. Overwriting a key keeps its
place, a new key goes to the end, and removing one keeps the order of the rest, so the entries read
as the history of first insertions. A key never occurs twice.
-/

namespace TypeBridge

universe u v

/-- Overwrites the entry of `key` in place, or adds one at the end. -/
def putEntry {α : Type u} (key : String) (value : α) :
    List (String × α) → List (String × α)
  | [] => [(key, value)]
  | entry :: rest =>
      if entry.1 = key then (key, value) :: rest else entry :: putEntry key value rest

theorem map_fst_putEntry {α : Type u} (key : String) (value : α) (entries : List (String × α)) :
    (putEntry key value entries).map Prod.fst =
      if key ∈ entries.map Prod.fst then entries.map Prod.fst
      else entries.map Prod.fst ++ [key] := by
  induction entries with
  | nil => simp [putEntry]
  | cons entry rest ih =>
      by_cases hkey : entry.1 = key
      · simp [putEntry, hkey]
      · have hne : key ≠ entry.1 := fun h => hkey h.symm
        by_cases hmem : key ∈ rest.map Prod.fst
        · simp only [putEntry, hkey, if_false, List.map_cons, ih, hmem, if_true,
            List.mem_cons, or_true]
        · simp only [putEntry, hkey, if_false, List.map_cons, ih, hmem,
            List.mem_cons, hne, or_self, List.cons_append]

/-- A map from strings whose entries stand in the order of first insertion. -/
@[ext]
structure Keyed (α : Type u) where
  entries : List (String × α)
  nodup : (entries.map Prod.fst).Nodup

namespace Keyed

variable {α : Type u} {β : Type v}

def empty : Keyed α := ⟨[], by simp⟩

instance : EmptyCollection (Keyed α) := ⟨empty⟩

instance : Inhabited (Keyed α) := ⟨empty⟩

def keys (m : Keyed α) : List String := m.entries.map Prod.fst

def values (m : Keyed α) : List α := m.entries.map Prod.snd

def size (m : Keyed α) : Nat := m.entries.length

def isEmpty (m : Keyed α) : Bool := m.entries.isEmpty

def get? (m : Keyed α) (key : String) : Option α := m.entries.lookup key

def contains (m : Keyed α) (key : String) : Bool := m.keys.contains key

/-- Sets the value of a key; a key that is already present keeps its place. -/
def insert (m : Keyed α) (key : String) (value : α) : Keyed α where
  entries := putEntry key value m.entries
  nodup := by
    rw [map_fst_putEntry]
    split
    · exact m.nodup
    · rename_i hkey
      exact List.nodup_append.mpr ⟨m.nodup, by simp, by
        rintro a ha b hb rfl
        exact hkey (by simpa [List.mem_singleton.mp hb] using ha)⟩

/-- Removes a key; the rest keeps its order. -/
def erase (m : Keyed α) (key : String) : Keyed α where
  entries := m.entries.filter (fun entry => entry.1 != key)
  nodup := m.nodup.sublist (List.filter_sublist.map Prod.fst)

/-- Changes every value, each with its key in sight; keys and order stay. -/
def mapValues (m : Keyed α) (f : String → α → β) : Keyed β where
  entries := m.entries.map (fun entry => (entry.1, f entry.1 entry.2))
  nodup := by simpa [List.map_map, Function.comp_def] using m.nodup

/-- Inserts the pairs one after another; the last value given for a key stays. -/
def insertAll (m : Keyed α) (pairs : List (String × α)) : Keyed α :=
  pairs.foldl (fun acc pair => acc.insert pair.1 pair.2) m

def ofList (pairs : List (String × α)) : Keyed α := empty.insertAll pairs

theorem keys_insert (m : Keyed α) (key : String) (value : α) :
    (m.insert key value).keys = if key ∈ m.keys then m.keys else m.keys ++ [key] :=
  map_fst_putEntry key value m.entries

@[simp] theorem keys_mapValues (m : Keyed α) (f : String → α → β) :
    (m.mapValues f).keys = m.keys := by
  simp [keys, mapValues, Function.comp_def]

theorem contains_iff (m : Keyed α) (key : String) : m.contains key = true ↔ key ∈ m.keys := by
  simp [contains]

theorem mem_entries_insert {m : Keyed α} {key : String} {value : α} {entry : String × α}
    (h : entry ∈ (m.insert key value).entries) : entry = (key, value) ∨ entry ∈ m.entries := by
  have put : ∀ entries : List (String × α), entry ∈ putEntry key value entries →
      entry = (key, value) ∨ entry ∈ entries := by
    intro entries
    induction entries with
    | nil => simp [putEntry]
    | cons first rest ih =>
        intro hput
        by_cases hkey : first.1 = key
        · simp only [putEntry, hkey, if_true, List.mem_cons] at hput
          exact hput.imp_right fun hrest => List.mem_cons_of_mem _ hrest
        · simp only [putEntry, hkey, if_false, List.mem_cons] at hput
          rcases hput with rfl | hrest
          · exact Or.inr List.mem_cons_self
          · exact (ih hrest).imp_right fun hmem => List.mem_cons_of_mem _ hmem
  exact put m.entries h

theorem get?_insert_self (m : Keyed α) (key : String) (value : α) :
    (m.insert key value).get? key = some value := by
  have put : ∀ entries : List (String × α),
      (putEntry key value entries).lookup key = some value := by
    intro entries
    induction entries with
    | nil => simp [putEntry]
    | cons entry rest ih =>
        obtain ⟨other, old⟩ := entry
        by_cases hkey : other = key
        · simp [putEntry, hkey]
        · have hne : (key == other) = false := beq_eq_false_iff_ne.mpr fun h => hkey h.symm
          simp [putEntry, hkey, List.lookup_cons, hne, ih]
  exact put m.entries

theorem get?_insert_of_ne (m : Keyed α) {key other : String} (value : α) (h : other ≠ key) :
    (m.insert key value).get? other = m.get? other := by
  have hne : (other == key) = false := beq_eq_false_iff_ne.mpr h
  have put : ∀ entries : List (String × α),
      (putEntry key value entries).lookup other = entries.lookup other := by
    intro entries
    induction entries with
    | nil => simp [putEntry, List.lookup_cons, hne]
    | cons entry rest ih =>
        obtain ⟨first, old⟩ := entry
        by_cases hkey : first = key
        · simp [putEntry, hkey, List.lookup_cons, hne]
        · simp [putEntry, hkey, List.lookup_cons, ih]
  exact put m.entries

theorem length_erase_lt (m : Keyed α) {key : String} {value : α} (h : m.get? key = some value) :
    (m.erase key).size < m.size := by
  have drop : ∀ entries : List (String × α), entries.lookup key = some value →
      (entries.filter (fun entry => entry.1 != key)).length < entries.length := by
    intro entries
    induction entries with
    | nil => simp
    | cons entry rest ih =>
        obtain ⟨other, old⟩ := entry
        intro hlook
        by_cases hkey : other = key
        · simp only [hkey, bne_self_eq_false, Bool.false_eq_true, not_false_eq_true,
            List.filter_cons_of_neg, List.length_cons]
          exact Nat.lt_succ_of_le (List.length_filter_le _ _)
        · have hne : (key == other) = false := beq_eq_false_iff_ne.mpr fun h => hkey h.symm
          have hrest : rest.lookup key = some value := by
            simpa [List.lookup_cons, hne] using hlook
          simpa [List.filter_cons, hkey] using ih hrest
  exact drop m.entries h

end Keyed

end TypeBridge
