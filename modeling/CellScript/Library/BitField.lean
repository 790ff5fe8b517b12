import Mathlib.Data.Nat.Bitwise
import Mathlib.Data.BitVec
import Mathlib.Tactic.Positivity

/-!
# Fields of a machine word

A word is assembled by shifting fields into place and or-ing them together, and taken apart by
shifting and masking. The normal form for both is the concatenation of bit vectors of the fields'
own widths: `shiftLeft_or_setWidth` turns an assembled word into an append, `ushiftRight_and_mask`
turns a masked read into an extraction, and the extraction lemmas then compute on appends.

The last section is about signed immediates. An immediate enters a word as the low bits of an
integer and leaves it by sign extension; `signExtend_ofInt` says when nothing is lost.
-/

namespace BitField

open BitVec

/-! ### Writing and reading fields -/

variable {w n m k start len : ℕ} {i : ℤ}

/-- A masked shift reads a field. -/
theorem ushiftRight_and_mask (x : BitVec w) (start len : ℕ) :
    (x >>> start) &&& BitVec.ofNat w (2 ^ len - 1) = (x.extractLsb' start len).setWidth w := by
  apply eq_of_getLsbD_eq
  intro i hi
  simp only [getLsbD_and, getLsbD_ushiftRight, getLsbD_ofNat, getLsbD_setWidth, getLsbD_extractLsb',
    Nat.testBit_two_pow_sub_one, hi, decide_true, Bool.true_and, Bool.and_comm]

/-- Reading a field of a narrower word that was widened first. -/
theorem setWidth_ushiftRight_and_mask (x : BitVec n) (h : start + len ≤ w) :
    (x.setWidth w >>> start) &&& BitVec.ofNat w (2 ^ len - 1) =
      (x.extractLsb' start len).setWidth w := by
  rw [ushiftRight_and_mask]
  congr 1
  apply eq_of_getLsbD_eq
  intro i hi
  have hlt : start + i < w := by omega
  simp only [getLsbD_extractLsb', getLsbD_setWidth, hi, hlt, decide_true, Bool.true_and]

/-- A field shifted above the fields already there extends their concatenation. -/
theorem shiftLeft_or_setWidth (x : BitVec m) (y : BitVec n) :
    (x.setWidth w <<< n) ||| y.setWidth w = (x ++ y).setWidth w := by
  apply eq_of_getLsbD_eq
  intro i hi
  simp only [getLsbD_or, getLsbD_shiftLeft, getLsbD_setWidth,
    getLsbD_append, hi, decide_true, Bool.true_and]
  by_cases hin : i < n
  · simp [hin]
  · have hlt : i - n < w := by omega
    simp [hin, hlt, getLsbD_of_ge _ _ (Nat.le_of_not_lt hin)]

/-- A field shifted above nothing. -/
theorem shiftLeft_setWidth (x : BitVec m) (n : ℕ) : x.setWidth w <<< n = (x ++ 0#n).setWidth w := by
  rw [← shiftLeft_or_setWidth, setWidth_zero, or_zero]

/-- Clearing the low bits keeps the field above them. -/
theorem and_not_mask (x : BitVec (w + n)) :
    x &&& (allOnes w ++ 0#n) = x.extractLsb' n w ++ 0#n := by
  apply eq_of_getLsbD_eq
  intro i hi
  simp only [getLsbD_and, getLsbD_append, getLsbD_extractLsb', getLsbD_zero, getLsbD_allOnes]
  by_cases h : i < n
  · simp [h]
  · have hlt : i - n < w := by omega
    have hadd : n + (i - n) = i := by omega
    simp [h, hlt, hadd]

/-- Reading a field that lies in the upper part of an append. -/
theorem extractLsb'_append_of_le {m n : ℕ} (x : BitVec m) (y : BitVec n)
    (h : n ≤ start) : (x ++ y).extractLsb' start len = x.extractLsb' (start - n) len := by
  apply eq_of_getLsbD_eq
  intro i hi
  have hlt : ¬start + i < n := by omega
  have hsub : start + i - n = start - n + i := by omega
  simp only [getLsbD_append, getLsbD_extractLsb', hi, hlt, hsub, ite_false]

/-- Reading a field that lies in the lower part of an append. -/
theorem extractLsb'_append_of_add_le {m n : ℕ} (x : BitVec m) (y : BitVec n)
    (h : start + len ≤ n) : (x ++ y).extractLsb' start len = y.extractLsb' start len := by
  apply eq_of_getLsbD_eq
  intro i hi
  have hlt : start + i < n := by omega
  simp only [getLsbD_append, getLsbD_extractLsb', hi, hlt, ite_true]

/-- The rules that read a field of an append. -/
theorem append_rules :
    (∀ {m n start len : ℕ} (x : BitVec m) (y : BitVec n), start + len ≤ n →
      (x ++ y).extractLsb' start len = y.extractLsb' start len) ∧
    (∀ {m n start len : ℕ} (x : BitVec m) (y : BitVec n), n ≤ start →
      (x ++ y).extractLsb' start len = x.extractLsb' (start - n) len) ∧
    ∀ {n : ℕ} {x : BitVec n}, x.extractLsb' 0 n = x :=
  ⟨extractLsb'_append_of_add_le, extractLsb'_append_of_le, extractLsb'_eq_self⟩

/-- Adjacent fields of one word are one field. -/
theorem extractLsb'_append_extractLsb' (x : BitVec w) (start m n : ℕ) :
    x.extractLsb' (start + n) m ++ x.extractLsb' start n = x.extractLsb' start (m + n) := by
  apply eq_of_getLsbD_eq
  intro i hi
  by_cases hin : i < n
  · simp only [getLsbD_append, getLsbD_extractLsb', hi, hin, ite_true]
  · have hsub : start + n + (i - n) = start + i := by omega
    have hlt : i - n < m := by omega
    simp only [getLsbD_append, getLsbD_extractLsb', hi, hin, hlt, hsub, ite_false]

/-- The lowest field is not touched by fields shifted above it. -/
theorem extractLsb'_shiftLeft_or (h : n ≤ k) (x y : BitVec w) :
    ((x <<< k) ||| y).extractLsb' 0 n = y.extractLsb' 0 n := by
  apply eq_of_getLsbD_eq
  intro i hi
  have hlt : i < k := by omega
  simp [hi, hlt]

/-- The lowest field, read back. -/
theorem extractLsb'_setWidth (h : n ≤ w) (x : BitVec n) : (x.setWidth w).extractLsb' 0 n = x := by
  rw [← setWidth_eq_extractLsb' h]
  apply eq_of_toNat_eq
  have hlt : x.toNat < 2 ^ w := x.isLt.trans_le (Nat.pow_le_pow_right (by omega) h)
  rw [toNat_setWidth, toNat_setWidth, Nat.mod_eq_of_lt hlt, Nat.mod_eq_of_lt x.isLt]

/-! ### Signed immediates -/

/-- Shifting the field to the top and arithmetically back extends its sign. -/
theorem sshiftRight_shiftLeft_setWidth (hn : 0 < n) (h : n ≤ w) (x : BitVec n) :
    (x.setWidth w <<< (w - n)).sshiftRight (w - n) = x.signExtend w := by
  apply eq_of_getLsbD_eq
  intro i hi
  have hle : ¬w ≤ i := by omega
  simp only [getLsbD_sshiftRight, getLsbD_signExtend, getLsbD_shiftLeft, msb_eq_getLsbD_last,
    getLsbD_setWidth, hi, hle, decide_true, decide_false, Bool.not_false, Bool.true_and]
  by_cases hin : i < n
  · have hlt : w - n + i < w := by omega
    have hge : ¬w - n + i < w - n := by omega
    have hsub : w - n + i - (w - n) = i := by omega
    simp [hin, hlt, hge, hsub, hi]
  · have hlt : ¬w - n + i < w := by omega
    have hlast : w - 1 < w := by omega
    have hge : ¬w - 1 < w - n := by omega
    have hsub : w - 1 - (w - n) = n - 1 := by omega
    have hnw : n - 1 < w := by omega
    simp [hin, hlt, hlast, hge, hsub, hnw]

/-- The low bits of an integer do not depend on the width it was first cut to. -/
theorem extractLsb'_ofInt (h : n ≤ w) (i : ℤ) :
    (BitVec.ofInt w i).extractLsb' 0 n = BitVec.ofInt n i := by
  rw [← setWidth_eq_extractLsb' h]
  apply eq_of_toInt_eq
  have hdvd : ((2 ^ n : ℕ) : ℤ) ∣ ((2 ^ w : ℕ) : ℤ) := by
    exact_mod_cast pow_dvd_pow 2 h
  have hnonneg : 0 ≤ i % ((2 ^ w : ℕ) : ℤ) := Int.emod_nonneg _ (by positivity)
  rw [toInt_setWidth, toInt_ofInt, toNat_ofInt, Int.toNat_of_nonneg hnonneg,
    ← Int.emod_bmod, Int.emod_emod_of_dvd _ hdvd, Int.emod_bmod]

/-- Sign extension recovers an integer that fits the field. -/
theorem signExtend_ofInt (hn : 0 < n) (hlo : -2 ^ (n - 1) ≤ i) (hhi : i < 2 ^ (n - 1)) :
    (BitVec.ofInt n i).signExtend m = BitVec.ofInt m i := by
  rw [BitVec.signExtend, BitVec.toInt_ofInt_eq_self hn hlo hhi]

/-- The lowest bit of an even integer. -/
theorem extractLsb'_ofInt_eq_zero (hn : 1 ≤ n) (h : i % 2 = 0) :
    (BitVec.ofInt n i).extractLsb' 0 1 = 0#1 := by
  rw [extractLsb'_ofInt hn]
  apply eq_of_toNat_eq
  simp [toNat_ofInt, h]

/-- Sign extension of an upper immediate that fits its field. -/
theorem signExtend_ofInt_append_zero (hn : 0 < n) (hlo : -2 ^ (n - 1) ≤ i) (hhi : i < 2 ^ (n - 1)) :
    (BitVec.ofInt n i ++ 0#k).signExtend m = BitVec.ofInt m (i * 2 ^ k) := by
  have happend : (BitVec.ofInt n i ++ 0#k).toInt = i * 2 ^ k := by
    rw [toInt_append_zero, toInt_ofInt_eq_self hn hlo hhi, Int.mul_comm]
  rw [BitVec.signExtend, happend]

end BitField
