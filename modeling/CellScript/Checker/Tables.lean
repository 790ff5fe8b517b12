import CellScript.Checker.Nested

/-!
# Canonical tables

The strict parser accepts exactly the canonical encodings: a table of offsets that start after the
header and follow one another without gaps, and a vector of items behind their number. So what it
accepts is determined by what it returns.
-/

namespace CellScript.Checker.Nested.Molecule

open Bytes (le ofLe field)
open Bytes List

/-! ### Encodings -/

/-- Where an item starts: after the header and the items before it. -/
def startOf (items : List (List UInt8)) (i : ℕ) : ℕ :=
  4 * (items.length + 1) + (items.take i).flatten.length

/-- The total size and the offsets. -/
def tableHeader (items : List (List UInt8)) : List (List UInt8) :=
  le 4 (startOf items items.length) :: (List.range items.length).map fun i ↦ le 4 (startOf items i)

/-- **The table of some items.** -/
def table (items : List (List UInt8)) : List UInt8 := (tableHeader items ++ items).flatten

/-- A byte vector behind its length. -/
def byteVector (payload : List UInt8) : List UInt8 := le 4 payload.length ++ payload

section Tables

variable {bytes rest payload : List UInt8} {items : List (List UInt8)} {count i n j maximum : ℕ}

theorem length_tableHeader (items : List (List UInt8)) :
    (tableHeader items).length = items.length + 1 := by
  rw [tableHeader, length_cons, length_map, length_range]

theorem length_flatten_take_tableHeader (items : List (List UInt8)) (h : i ≤ items.length + 1) :
    ((tableHeader items).take i).flatten.length = 4 * i := by
  have hwords : ∀ word ∈ (tableHeader items).take i, word.length = 4 := by
    intro word hword
    rcases mem_cons.1 (mem_of_mem_take hword) with rfl | hword
    · exact length_le 4 _
    · obtain ⟨_, -, rfl⟩ := mem_map.1 hword
      exact length_le 4 _
  have hlength : ((tableHeader items).take i).length = i := by
    rw [length_take, length_tableHeader, min_eq_left h]
  rw [length_flatten, map_congr_left hwords, map_const', sum_replicate, hlength]
  exact mul_comm i 4

theorem length_table (items : List (List UInt8)) :
    (table items).length = startOf items items.length := by
  have hheader := length_flatten_take_tableHeader items le_rfl
  rw [take_of_length_le (length_tableHeader items).le] at hheader
  rw [table, flatten_append, length_append, hheader, startOf, take_length]

/-- The word at a place of the header. -/
theorem u32_table (hi : (tableHeader items)[i]? = some (le 4 n)) (hn : n < 2 ^ 32) :
    u32 (table items) (4 * i) = n := by
  have hlt : i < (tableHeader items).length := (List.getElem?_eq_some_iff.1 hi).1
  have hpart : (tableHeader items ++ items)[i]? = some (le 4 n) := by
    rw [getElem?_append_left hlt, hi]
  rw [u32, table, field_flatten hpart ?_ (length_le 4 n), ofLe_le_of_lt hn]
  rw [length_tableHeader] at hlt
  rw [take_append_of_le_length (by rw [length_tableHeader]; omega)]
  exact length_flatten_take_tableHeader items (by omega)

theorem startOf_mono (items : List (List UInt8)) (h : i ≤ j) :
    startOf items i ≤ startOf items j := by
  refine Nat.add_le_add_left (List.Sublist.length_le ?_) _
  exact ((take_prefix_take_left h).sublist).flatten

theorem offset_table (h : (table items).length < 2 ^ 32) (hi : i ≤ items.length) :
    offset (table items) items.length i = startOf items i := by
  rw [offset]
  split
  · next hlt =>
    have hle := startOf_mono items hlt.le
    rw [length_table] at h
    refine (congrArg (u32 (table items)) (by omega)).trans
      (u32_table (i := i + 1) ?_ (hle.trans_lt h))
    rw [tableHeader, getElem?_cons_succ, getElem?_map, getElem?_range hlt]
    rfl
  · next hge => rw [length_table, le_antisymm hi (Nat.le_of_not_lt hge)]

theorem startOf_succ (hi : i < items.length) :
    startOf items (i + 1) = startOf items i + items[i].length := by
  rw [startOf, startOf, take_succ_eq_append_getElem hi, flatten_append, length_append,
    flatten_singleton, add_assoc]

theorem item_table (h : (table items).length < 2 ^ 32) (hi : i < items.length) :
    item (table items) items.length i = items[i] := by
  have hpart : (tableHeader items ++ items)[items.length + 1 + i]? = some items[i] := by
    rw [getElem?_append_right (by rw [length_tableHeader]; omega), length_tableHeader,
      Nat.add_sub_cancel_left, getElem?_eq_getElem hi]
  rw [item, offset_table h hi.le, offset_table h hi, startOf_succ hi, Nat.add_sub_cancel_left]
  refine field_flatten hpart ?_ rfl
  rw [← length_tableHeader items, take_length_add_append, flatten_append, length_append]
  have hheader := length_flatten_take_tableHeader items le_rfl
  rw [take_of_length_le (length_tableHeader items).le] at hheader
  rw [hheader]
  rfl

/-- The items of accepted offsets, put together. -/
theorem flatten_items (h : Ordered bytes count 0) (hi : i ≤ count) :
    offset bytes count 0 ≤ offset bytes count i ∧
      ((List.range i).map (item bytes count)).flatten =
        field (offset bytes count 0) (offset bytes count i - offset bytes count 0) bytes := by
  induction i with
  | zero => exact ⟨le_rfl, by rw [Nat.sub_self]; rfl⟩
  | succ i ih =>
    obtain ⟨hle, hflat⟩ := ih (by omega)
    obtain ⟨hstep, hend⟩ := h i (Nat.zero_le i) (by omega)
    refine ⟨hle.trans hstep, ?_⟩
    rw [range_succ, map_append, flatten_append, hflat, map_singleton,
      flatten_singleton, item, field, field, field]
    rw [show offset bytes count (i + 1) - offset bytes count 0 = (offset bytes count i -
      offset bytes count 0) + (offset bytes count (i + 1) - offset bytes count i) by omega,
      take_add, drop_drop, Nat.add_sub_cancel' hle]

/-- **The parser accepts the canonical tables**, whose size fits into four bytes. -/
theorem fields_ok_iff_table (hcount : 0 < count) :
    fields bytes count = .ok items ↔
      items.length = count ∧ bytes = table items ∧ bytes.length < 2 ^ 32 := by
  rw [fields_ok_iff hcount]
  constructor
  · rintro ⟨hheader, hordered, rfl⟩
    have hlength : bytes.length < 2 ^ 32 := by
      rw [← hheader.total]
      exact (ofLe_lt _).trans_le (Nat.pow_le_pow_right (by decide) (length_take_le 4 _))
    have hfirst : offset bytes count 0 = 4 * (count + 1) := by
      rw [offset, if_pos hcount, ← hheader.first]
    have hstart : ∀ i ≤ count, startOf ((List.range count).map (item bytes count)) i =
        offset bytes count i := by
      intro i hi
      obtain ⟨hle, hflat⟩ := flatten_items hordered hi
      have hbound : offset bytes count i ≤ bytes.length := by
        rcases eq_zero_or_pos i with rfl | hpos
        · rw [hfirst]
          exact hheader.le_length
        · have := (hordered (i - 1) (Nat.zero_le _) (by omega)).2
          rwa [Nat.sub_add_cancel hpos] at this
      rw [startOf, length_map, length_range, ← map_take, take_range,
        min_eq_left hi, hflat, length_field (by omega)]
      omega
    refine ⟨by rw [length_map, length_range], ?_, hlength⟩
    have hwords : tableHeader ((List.range count).map (item bytes count)) =
        (List.range (count + 1)).map fun i ↦ field (4 * i) 4 bytes := by
      have hword : ∀ i ≤ count, le 4 (u32 bytes (4 * i)) = field (4 * i) 4 bytes :=
        fun i hi ↦ le_u32 (by have := hheader.le_length; omega)
      rw [tableHeader, length_map, length_range, hstart count (le_refl count),
        range_succ_eq_map, map_cons, map_map]
      refine congrArg₂ List.cons ?_ (map_congr_left fun i hi ↦ ?_)
      · rw [offset, if_neg (Nat.lt_irrefl count), ← hheader.total]
        exact hword 0 (Nat.zero_le _)
      · have hlt := mem_range.1 hi
        rw [hstart i hlt.le, offset, if_pos hlt, Function.comp_apply, ← hword (i + 1) hlt]
        exact congrArg (fun k ↦ le 4 (u32 bytes k)) (by omega)
    have hrest : field (4 * (count + 1)) (bytes.length - 4 * (count + 1)) bytes =
        bytes.drop (4 * (count + 1)) := take_of_length_le (by rw [length_drop])
    rw [table, flatten_append, hwords, flatten_fields 4 hheader.le_length,
      (flatten_items hordered (le_refl count)).2, hfirst, offset, if_neg (lt_irrefl count),
      hrest, take_append_drop]
  · rintro ⟨rfl, rfl, hlength⟩
    have hzero : offset (table items) items.length 0 = 4 * (items.length + 1) := by
      rw [offset_table hlength (Nat.zero_le _)]
      rfl
    refine ⟨⟨?_, ?_, ?_⟩, fun j _ hj ↦ ?_, ?_⟩
    · rw [length_table]
      exact Nat.le_add_right _ _
    · rw [length_table] at hlength ⊢
      exact u32_table (i := 0) rfl hlength
    · rw [← hzero, offset, if_pos hcount]
    · rw [offset_table hlength hj.le, offset_table hlength hj, length_table]
      exact ⟨startOf_mono items (Nat.le_succ j), startOf_mono items hj⟩
    · refine ext_getElem (by rw [length_map, length_range]) fun i hi hi' ↦ ?_
      rw [getElem_map, getElem_range, item_table hlength hi]

/-- The same for the vectors of items. -/
theorem dynamic_ok_iff :
    dynamic bytes maximum = .ok items ↔
      items.length ≤ maximum ∧ bytes = table items ∧ bytes.length < 2 ^ 32 := by
  have hnil : (bytes.length = 4 ∧ u32At bytes 0 = .ok 4) ↔ bytes = table [] := by
    rw [u32At_ok_iff]
    constructor
    · rintro ⟨hlength, -, hfour⟩
      have hfield : field 0 4 bytes = bytes := by
        rw [field, drop_zero, ← hlength, take_length]
      rw [u32, hfield] at hfour
      rw [← le_ofLe bytes, hlength, hfour]
      rfl
    · rintro rfl
      decide
  rw [dynamic]
  split
  · next hempty =>
    obtain rfl := hnil.1 hempty
    rw [pure_ok]
    constructor
    · rintro rfl
      exact ⟨Nat.zero_le _, rfl, by decide⟩
    · rintro ⟨-, htable, -⟩
      have hlength := congrArg List.length htable
      rw [length_table, length_table, startOf, startOf] at hlength
      refine (length_eq_zero_iff.1 ?_).symm
      simp only [take_nil, flatten_nil, length_nil] at hlength
      omega
  · next hempty =>
    rw [hnil] at hempty
    constructor
    · intro h
      obtain ⟨first, hfirst, h⟩ := bind_ok.1 h
      obtain ⟨hshape, h⟩ := guard_ok.1 h
      obtain ⟨hcount, h⟩ := guard_ok.1 h
      have hpos : 0 < first / 4 - 1 := by omega
      obtain ⟨hlength, htable, hsize⟩ := (fields_ok_iff_table hpos).1 h
      exact ⟨by omega, htable, hsize⟩
    · rintro ⟨hle, rfl, hsize⟩
      have hpos : 0 < items.length := by
        refine length_pos_iff.2 ?_
        rintro rfl
        exact hempty rfl
      have hfields := (fields_ok_iff_table hpos).2 ⟨rfl, rfl, hsize⟩
      have hheader := ((fields_ok_iff hpos).1 hfields).1
      have hlength := hheader.le_length
      have hfirst : u32At (table items) 4 = .ok (4 * (items.length + 1)) :=
        u32At_ok_iff.2 ⟨by omega, hheader.first⟩
      have hdiv : 4 * (items.length + 1) / 4 - 1 = items.length := by omega
      rw [hfirst, ok_bind, guard_ok, hdiv, guard_ok]
      exact ⟨by omega, by omega, hfields⟩

/-- A vector of items of one width is accepted behind their number. -/
theorem fixed_ok_iff {width : ℕ} :
    fixed bytes width maximum = .ok rest ↔
      ∃ count ≤ maximum, count < 2 ^ 32 ∧ rest.length = count * width ∧
        bytes = le 4 count ++ rest := by
  rw [fixed, bind_ok]
  constructor
  · rintro ⟨count, hcount, h⟩
    obtain ⟨hshape, h⟩ := guard_ok.1 h
    obtain rfl := pure_ok.1 h
    obtain ⟨hlong, hu32⟩ := u32At_ok_iff.1 hcount
    have hword : (field 0 4 bytes).length = 4 := length_field hlong
    have hlt := ofLe_lt (field 0 4 bytes)
    rw [hword] at hlt
    refine ⟨count, by omega, hu32 ▸ hlt, by rw [length_drop]; omega, ?_⟩
    have hle := le_ofLe (field 0 4 bytes)
    rw [hword] at hle
    rw [← hu32, u32, hle, field, drop_zero, take_append_drop]
  · rintro ⟨count, hle, hlt, hrest, rfl⟩
    have hu32 : u32At (le 4 count ++ rest) 0 = .ok count := by
      refine u32At_ok_iff.2 ⟨by rw [length_append, length_le]; omega, ?_⟩
      rw [u32, field, drop_zero, take_left' (length_le 4 count), ofLe_le_of_lt hlt]
    refine ⟨count, hu32, guard_ok.2 ⟨?_, pure_ok.2 ?_⟩⟩
    · rw [length_append, length_le]
      omega
    · exact drop_left' (length_le 4 count)

/-- Byte vectors. -/
theorem fixed_one_ok_iff :
    fixed bytes 1 maximum = .ok payload ↔
      payload.length ≤ maximum ∧ payload.length < 2 ^ 32 ∧ bytes = byteVector payload := by
  rw [fixed_ok_iff]
  constructor
  · rintro ⟨count, hle, hlt, hlength, rfl⟩
    rw [mul_one] at hlength
    rw [byteVector, hlength]
    exact ⟨hle, hlt, rfl⟩
  · rintro ⟨hle, hlt, rfl⟩
    exact ⟨_, hle, hlt, (mul_one _).symm, rfl⟩

end Tables

end CellScript.Checker.Nested.Molecule
