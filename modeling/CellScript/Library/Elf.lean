import CellScript.Library.Rv64

/-!
# Loading an ELF file

Little-endian numbers in a byte string, and the memory a loader sets up from a 64-bit ELF file: the
first program header names a range of the file and the address it is mapped at.
-/

namespace Elf

open Rv64 (Byte Memory Holds)

/-! ### Little-endian numbers -/

/-- A number as the given count of bytes, least significant first. -/
def leNat : ℕ → ℕ → List Byte
  | 0, _ => []
  | n + 1, value => BitVec.ofNat 8 value :: leNat n (value / 256)

@[simp] theorem length_leNat (n value : ℕ) : (leNat n value).length = n := by
  induction n generalizing value with
  | zero => rfl
  | succ n ih => rw [leNat, List.length_cons, ih]

/-- The number a byte string denotes. -/
def readNat : List Byte → ℕ
  | [] => 0
  | b :: bs => b.toNat + 256 * readNat bs

theorem readNat_leNat {n value : ℕ} (h : value < 256 ^ n) : readNat (leNat n value) = value := by
  induction n generalizing value with
  | zero =>
    rw [Nat.pow_zero, Nat.lt_one_iff] at h
    exact h.symm
  | succ n ih =>
    have hdiv : value / 256 < 256 ^ n := by
      rw [Nat.div_lt_iff_lt_mul (by omega)]
      exact h
    rw [leNat, readNat, ih hdiv]
    exact Nat.mod_add_div value 256

/-- The number stored at an offset of a file. -/
def field (file : List Byte) (offset n : ℕ) : ℕ := readNat ((file.drop offset).take n)

/-- Reading past what stands before. -/
theorem field_append {xs ys : List Byte} {offset n : ℕ} (h : xs.length ≤ offset) :
    field (xs ++ ys) offset n = field ys (offset - xs.length) n := by
  rw [field, List.drop_append, List.drop_eq_nil_of_le h, List.nil_append, field]

theorem field_leNat_append {n value : ℕ} {ys : List Byte} (h : value < 256 ^ n) :
    field (leNat n value ++ ys) 0 n = value := by
  rw [field, List.drop_zero, List.take_append_of_le_length (by simp),
    List.take_of_length_le (by simp), readNat_leNat h]

/-! ### The loader -/

/-- The memory of the first program header. -/
def load (file : List Byte) : Memory := fun address ↦
  let programHeader := field file 32 8
  let offset := field file (programHeader + 8) 8
  let vaddr := field file (programHeader + 16) 8
  let fileSize := field file (programHeader + 32) 8
  if vaddr ≤ address.toNat ∧ address.toNat < vaddr + fileSize then
    file[offset + (address.toNat - vaddr)]?
  else none

/-- Bytes of the mapped range stand in memory at the address the header gives them. -/
theorem holds_load {before bytes after : List Byte} (programHeader offset vaddr fileSize d : ℕ)
    (hheader : field (before ++ bytes ++ after) 32 8 = programHeader)
    (hoffset : field (before ++ bytes ++ after) (programHeader + 8) 8 = offset)
    (hvaddr : field (before ++ bytes ++ after) (programHeader + 16) 8 = vaddr)
    (hsize : field (before ++ bytes ++ after) (programHeader + 32) 8 = fileSize)
    (hbefore : before.length = offset + d) (hmapped : d + bytes.length ≤ fileSize)
    (hspace : vaddr + fileSize < 2 ^ 64) :
    Holds (load (before ++ bytes ++ after)) (BitVec.ofNat 64 (vaddr + d)) bytes := by
  intro i hi
  have haddress : (BitVec.ofNat 64 (vaddr + d) + BitVec.ofNat 64 i).toNat = vaddr + d + i := by
    rw [← BitVec.ofNat_add, BitVec.toNat_ofNat, Nat.mod_eq_of_lt (by omega)]
  have hindex : offset + (vaddr + d + i - vaddr) = before.length + i := by omega
  have hmem : (before ++ bytes ++ after)[before.length + i]? = some (bytes.get ⟨i, hi⟩) := by
    rw [List.append_assoc, List.getElem?_append_right (by omega), Nat.add_sub_cancel_left,
      List.getElem?_append_left hi]
    exact List.getElem?_eq_getElem hi
  simp only [load, hheader, hoffset, hvaddr, hsize, haddress, hindex, hmem]
  rw [if_pos (by omega)]

end Elf
