import CellScript.Library.Association

/-!
# Finite maps as lists

A finite map is a list of entries with distinct keys. The operations are those of an ordered map
that do not depend on the order of its keys: look up, insert and retain.
-/

/-- Entries with distinct keys. -/
structure KeyedMap (κ ν : Type) where
  entries : List (κ × ν)
  nodup : (entries.map Prod.fst).Nodup

namespace KeyedMap

open List

variable {κ ν : Type} [DecidableEq κ] {m : KeyedMap κ ν} {k j : κ} {v : ν} {p : κ → ν → Bool}

instance [DecidableEq ν] : DecidableEq (KeyedMap κ ν) := fun m m' ↦
  decidable_of_iff (m.entries = m'.entries) (by
    cases m
    cases m'
    simp)

def empty : KeyedMap κ ν := ⟨[], nodup_nil⟩

def find? (m : KeyedMap κ ν) (k : κ) : Option ν := m.entries.lookup k

/-- The entries that pass a test. -/
def retain (p : κ → ν → Bool) (m : KeyedMap κ ν) : KeyedMap κ ν where
  entries := m.entries.filter fun e ↦ p e.1 e.2
  nodup := m.nodup.sublist (filter_sublist.map Prod.fst)

def insert (m : KeyedMap κ ν) (k : κ) (v : ν) : KeyedMap κ ν where
  entries := (k, v) :: (m.retain fun k' _ ↦ k' ≠ k).entries
  nodup := by
    rw [map_cons, nodup_cons]
    refine ⟨fun h ↦ ?_, (m.retain _).nodup⟩
    obtain ⟨e, he, heq⟩ := mem_map.1 h
    exact of_decide_eq_true (mem_filter.1 he).2 heq

/-- The values are changed, and the keys are kept. -/
def mapValues (f : ν → ν) (m : KeyedMap κ ν) : KeyedMap κ ν where
  entries := m.entries.map fun e ↦ (e.1, f e.2)
  nodup := by simpa [Function.comp_def] using m.nodup

theorem mem_entries_iff : (j, v) ∈ m.entries ↔ m.find? j = some v :=
  ⟨Association.lookup_of_mem m.nodup, Association.mem_of_lookup⟩

theorem mem_keys_iff : j ∈ m.entries.map Prod.fst ↔ ∃ v, m.find? j = some v := by
  simp [← mem_entries_iff]

theorem find?_mapValues (f : ν → ν) : (m.mapValues f).find? j = (m.find? j).map f := by
  show (m.entries.map fun e ↦ (e.1, f e.2)).lookup j = (m.entries.lookup j).map f
  induction m.entries with
  | nil => rfl
  | cons e entries ih =>
    rw [map_cons, lookup_cons, lookup_cons]
    split
    · rfl
    · exact ih

theorem lookup_filter {entries : List (κ × ν)} (h : (entries.map Prod.fst).Nodup) :
    (entries.filter fun e ↦ p e.1 e.2).lookup j = (entries.lookup j).filter (p j) := by
  induction entries with
  | nil => rfl
  | cons e entries ih =>
    obtain ⟨k, v⟩ := e
    rw [map_cons, nodup_cons] at h
    have ih := ih h.2
    rcases eq_or_ne j k with rfl | hne
    · have hrest : entries.lookup j = none := by
        rw [lookup_eq_none_iff]
        intro e he
        have hne : j ≠ e.1 := fun heq ↦ h.1 (mem_map.2 ⟨e, he, heq.symm⟩)
        simpa using hne
      rw [hrest] at ih
      by_cases hp : p j v
      · simp [hp, Option.filter]
      · simp [hp, ih, Option.filter]
    · have hbeq : (j == k) = false := by simpa using hne
      by_cases hp : p k v
      · simp [hp, lookup_cons, hbeq, ih]
      · simp [hp, lookup_cons, hbeq, ih]

theorem find?_retain : (m.retain p).find? j = (m.find? j).filter (p j) := lookup_filter m.nodup

theorem find?_retain_some_iff : (m.retain p).find? j = some v ↔ m.find? j = some v ∧ p j v := by
  rw [find?_retain, Option.filter_eq_some_iff]

@[simp] theorem find?_insert_self : (m.insert k v).find? k = some v := by
  simp [find?, insert]

theorem find?_insert_of_ne (h : j ≠ k) : (m.insert k v).find? j = m.find? j := by
  have hbeq : (j == k) = false := by simpa using h
  have hretain : (m.retain fun k' _ ↦ k' ≠ k).find? j = m.find? j := by
    rw [find?_retain]
    cases m.find? j with
    | none => rfl
    | some w => simp [Option.filter, h]
  rw [← hretain, find?, find?, insert, lookup_cons, hbeq]

theorem find?_insert : (m.insert k v).find? j = if j = k then some v else m.find? j := by
  split
  · next h => rw [h, find?_insert_self]
  · next h => exact find?_insert_of_ne h

end KeyedMap
