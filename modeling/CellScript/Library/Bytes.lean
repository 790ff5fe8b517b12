import Mathlib.Data.Nat.Digits.Lemmas
import Mathlib.Data.UInt

/-!
# Byte strings of fixed layout

Numbers as little-endian bytes of a fixed width, and records as the concatenation of their parts. A
reader of a record takes fields by their offset; `field_flatten` says that the field at the offset
of a part is that part.
-/

namespace Bytes

open List

/-! ### Little-endian numbers -/

/-- The low bytes of a number, least significant first. -/
def le : ℕ → ℕ → List UInt8
  | 0, _ => []
  | width + 1, n => UInt8.ofNat n :: le width (n / 256)

/-- The number with the given bytes, least significant first. -/
def ofLe (bytes : List UInt8) : ℕ := Nat.ofDigits 256 (bytes.map UInt8.toNat)

@[simp] theorem length_le (width n : ℕ) : (le width n).length = width := by
  induction width generalizing n with
  | zero => rfl
  | succ width ih => rw [le, length_cons, ih]

@[simp] theorem ofLe_nil : ofLe [] = 0 := rfl

theorem ofLe_cons (b : UInt8) (bytes : List UInt8) :
    ofLe (b :: bytes) = b.toNat + 256 * ofLe bytes := by
  rfl

theorem ofLe_append (xs ys : List UInt8) :
    ofLe (xs ++ ys) = ofLe xs + 256 ^ xs.length * ofLe ys := by
  rw [ofLe, map_append, Nat.ofDigits_append, length_map]
  rfl

theorem ofLe_lt (bytes : List UInt8) : ofLe bytes < 256 ^ bytes.length := by
  have h := Nat.ofDigits_lt_base_pow_length (b := 256) (l := bytes.map UInt8.toNat) (by decide)
    (by
      intro x hx
      obtain ⟨b, -, rfl⟩ := mem_map.1 hx
      exact b.toNat_lt)
  rwa [length_map] at h

theorem ofLe_le (width n : ℕ) : ofLe (le width n) = n % 256 ^ width := by
  induction width generalizing n with
  | zero => rw [le, ofLe_nil, pow_zero, Nat.mod_one]
  | succ width ih =>
    rw [le, ofLe_cons, ih, pow_succ', Nat.mod_mul, UInt8.toNat_ofNat']

variable {width : ℕ}

theorem ofLe_le_of_lt {n : ℕ} (h : n < 256 ^ width) : ofLe (le width n) = n := by
  rw [ofLe_le, Nat.mod_eq_of_lt h]

/-- Bytes are determined by their number. -/
theorem le_ofLe (bytes : List UInt8) : le bytes.length (ofLe bytes) = bytes := by
  induction bytes with
  | nil => rfl
  | cons b bytes ih =>
    have hb := b.toNat_lt
    have hlow : UInt8.ofNat (b.toNat + 256 * ofLe bytes) = b := by
      refine UInt8.toNat_inj.1 ?_
      rw [UInt8.toNat_ofNat']
      omega
    rw [ofLe_cons, length_cons, le, hlow, Nat.add_mul_div_left _ _ (by decide),
      Nat.div_eq_of_lt hb, zero_add, ih]

@[simp] theorem ofLe_replicate_zero (k : ℕ) : ofLe (replicate k 0) = 0 := by
  induction k with
  | zero => rfl
  | succ k ih => rw [replicate_succ, ofLe_cons, ih]; rfl

/-! ### Records -/

section Fields

variable {α : Type*} {parts : List (List α)} {part : List α} {k start len n : ℕ} {bytes : List α}
  {d b filler : α}

/-- The bytes from an offset. -/
def field (start len : ℕ) (bytes : List α) : List α := (bytes.drop start).take len

theorem length_field (h : start + len ≤ bytes.length) : (field start len bytes).length = len := by
  rw [field, length_take, length_drop]
  omega

/-- A field of a field. -/
theorem field_field (h : k + n ≤ len) :
    field k n (field start len bytes) = field (start + k) n bytes := by
  rw [field, field, field, drop_take, take_take, drop_drop, min_eq_left (by omega)]

/-- **The field at the offset of a part is the part.** -/
theorem field_flatten (hpart : parts[k]? = some part)
    (hstart : (parts.take k).flatten.length = start) (hlen : part.length = len) :
    field start len parts.flatten = part := by
  obtain ⟨hk, rfl⟩ := List.getElem?_eq_some_iff.1 hpart
  have hparts : parts.flatten
      = (parts.take k).flatten ++ (parts[k] ++ (parts.drop (k + 1)).flatten) := by
    rw [← flatten_cons, ← drop_eq_getElem_cons hk, ← flatten_append, take_append_drop]
  rw [field, hparts, ← hstart, drop_left, ← hlen, take_left]

/-! A record may also be read part by part. -/

theorem field_flatten_cons (h : part.length = len) : field 0 len (part :: parts).flatten = part :=
  field_flatten (k := 0) rfl rfl h

theorem field_flatten_cons_of_le (h : part.length ≤ start) :
    field start len (part :: parts).flatten = field (start - part.length) len parts.flatten := by
  rw [flatten_cons, field, field, drop_append, drop_of_length_le h, nil_append]

/-- The same for what follows the parts before it. -/
theorem drop_flatten (hstart : (parts.take k).flatten.length = start) :
    parts.flatten.drop start = (parts.drop k).flatten := by
  conv_lhs => rw [← take_append_drop k parts, flatten_append]
  rw [← hstart, drop_left]

/-- The pieces of a width, put together again. -/
theorem flatten_fields (width : ℕ) (h : width * n ≤ bytes.length) :
    ((range n).map fun i ↦ field (width * i) width bytes).flatten = bytes.take (width * n) := by
  induction n with
  | zero => rw [Nat.mul_zero]; rfl
  | succ n ih =>
    rw [Nat.mul_succ] at h ⊢
    rw [range_succ, map_append, flatten_append, ih (by omega), take_add]
    simp [field]

/-- What is left from an offset on starts with the field there. -/
theorem drop_eq_field_append (bytes : List α) (k n : ℕ) :
    bytes.drop k = field k n bytes ++ bytes.drop (k + n) := by
  rw [field, ← drop_drop, take_append_drop]

theorem field_one (h : start < bytes.length) : field start 1 bytes = [bytes.getD start d] := by
  rw [field, drop_eq_getElem_cons h, take_succ_cons, take_zero,
    getD_eq_getElem?_getD, getElem?_eq_getElem h, Option.getD_some]

theorem getD_of_field (h : field start 1 bytes = [b]) : bytes.getD start d = b := by
  have hhead : (bytes.drop start).head? = some b := by
    rw [field] at h
    cases hdrop : bytes.drop start with
    | nil => simp [hdrop] at h
    | cons x xs => simpa [hdrop] using h
  rw [head?_drop] at hhead
  rw [getD_eq_getElem?_getD, hhead, Option.getD_some]

/-- A string filled up to a length. -/
def padded (width : ℕ) (filler : α) (bytes : List α) : List α :=
  bytes ++ replicate (width - bytes.length) filler

theorem length_padded (h : bytes.length ≤ width) : (padded width filler bytes).length = width := by
  rw [padded, length_append, length_replicate]
  omega

/-- Filling a string up leaves its fields. -/
theorem field_padded (h : start + len ≤ bytes.length) :
    field start len (padded width filler bytes) = field start len bytes := by
  have hlen : len ≤ (bytes.drop start).length := by
    rw [length_drop]
    omega
  rw [field, padded, drop_append_of_le_length (by omega), take_append_of_le_length hlen]
  rfl

end Fields

@[simp] theorem ofLe_padded_zero (width : ℕ) (bytes : List UInt8) :
    ofLe (padded width 0 bytes) = ofLe bytes := by
  rw [padded, ofLe_append, ofLe_replicate_zero, Nat.mul_zero, add_zero]

end Bytes
