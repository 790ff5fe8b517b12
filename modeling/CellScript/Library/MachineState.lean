import CellScript.Library.Bytes
import Mathlib.Data.List.GetD

/-!
# Registers and memory of a 64-bit machine

A state is a register file, whose register zero reads as zero, and a byte memory with 64-bit
addresses. Memory is read and written in strings of bytes, and numbers are stored little-endian.

Addresses are written as an offset from a base, `b + ofNat 64 k`, and the lemmas on reading
after writing compare the offsets only: nothing is assumed about the base, which may be anywhere in
the address space.
-/

namespace MachineState

open BitVec (ofNat)
open Bytes (le ofLe field)
open BitVec List

abbrev Word := BitVec 64

abbrev Reg := BitVec 5

abbrev Memory := Word → UInt8

/-! ### Words -/

variable {n m : ℕ}

theorem ofNat_beq_ofNat (hm : m < 2 ^ 64 := by first | omega | decide)
    (hn : n < 2 ^ 64 := by first | omega | decide) : (ofNat 64 m == ofNat 64 n) = (m == n) := by
  rw [Bool.eq_iff_iff, beq_iff_eq, beq_iff_eq, ← toNat_inj, toNat_ofNat,
    toNat_ofNat, Nat.mod_eq_of_lt hm, Nat.mod_eq_of_lt hn]

theorem ofNat_bne_ofNat (hm : m < 2 ^ 64 := by first | omega | decide)
    (hn : n < 2 ^ 64 := by first | omega | decide) : (ofNat 64 m != ofNat 64 n) = (m != n) := by
  rw [bne, bne, ofNat_beq_ofNat hm hn]

theorem ofNat_succ_ne_zero (hn : n + 1 < 2 ^ 64) : ofNat 64 (n + 1) ≠ 0#64 := by
  rw [← bne_iff_ne, ofNat_bne_ofNat hn (by decide)]
  rfl

theorem ofNat_ult_ofNat (hm : m < 2 ^ 64 := by first | omega | decide)
    (hn : n < 2 ^ 64 := by first | omega | decide) :
    (ofNat 64 m).ult (ofNat 64 n) = decide (m < n) := by
  rw [BitVec.ult, BitVec.toNat_ofNat, BitVec.toNat_ofNat, Nat.mod_eq_of_lt hm, Nat.mod_eq_of_lt hn]

theorem and_three_bne_zero (hn : n < 2 ^ 64) : (ofNat 64 n &&& 3#64 != 0#64) = (n % 4 != 0) := by
  have hand : ofNat 64 n &&& 3#64 = ofNat 64 (n % 4) := by
    refine eq_of_toNat_eq ?_
    rw [toNat_and, toNat_ofNat, toNat_ofNat, toNat_ofNat,
      Nat.mod_eq_of_lt hn, Nat.mod_eq_of_lt (show n % 4 < 2 ^ 64 by omega)]
    exact Nat.and_two_pow_sub_one_eq_mod n 2
  rw [hand]
  exact ofNat_bne_ofNat (by omega) (by decide)

/-- One less, by adding the word of all ones. -/
theorem ofNat_succ_add_allOnes (n : ℕ) :
    ofNat 64 (n + 1) + 18446744073709551615#64 = ofNat 64 n := by
  rw [← ofNat_add, add_assoc]
  exact eq_of_toNat_eq (by rw [toNat_ofNat, toNat_ofNat]; omega)

theorem ofNat_add_allOnes (hn : 0 < n) :
    ofNat 64 n + 18446744073709551615#64 = ofNat 64 (n - 1) := by
  obtain ⟨k, rfl⟩ := Nat.exists_eq_succ_of_ne_zero hn.ne'
  exact ofNat_succ_add_allOnes k

theorem add_sub_base (b x : Word) : b + x - b = x := by
  rw [add_comm, add_sub_cancel]

theorem add_ofNat_beq_add_ofNat (b : Word) (hm : m < 2 ^ 64) (hn : n < 2 ^ 64) :
    (b + ofNat 64 m == b + ofNat 64 n) = (m == n) := by
  rw [← ofNat_beq_ofNat hm hn, Bool.eq_iff_iff, beq_iff_eq, beq_iff_eq, add_right_inj]

theorem toNat_add_ofNat {b : Word} (h : b.toNat + n < 2 ^ 64) :
    (b + ofNat 64 n).toNat = b.toNat + n := by
  rw [toNat_add, toNat_ofNat, Nat.mod_eq_of_lt (show n < 2 ^ 64 by omega), Nat.mod_eq_of_lt h]

section Branches

variable {m n : ℕ} {P R p : Prop}

theorem ite_of_iff {c : Bool} (hc : c = true ↔ p) (htrue : p → P) (hfalse : ¬ p → R) :
    if c then P else R := by
  split
  · next h => exact htrue (hc.1 h)
  · next h => exact hfalse fun hp ↦ h (hc.2 hp)

/-- A branch on the order of two numbers. -/
theorem ite_ult (hlt : m < n → P) (hge : n ≤ m → R) (hm : m < 2 ^ 64 := by first | omega | decide)
    (hn : n < 2 ^ 64 := by first | omega | decide) :
    if (ofNat 64 m).ult (ofNat 64 n) then P else R :=
  ite_of_iff (by rw [ofNat_ult_ofNat hm hn, decide_eq_true_eq]) hlt fun h ↦ hge (not_lt.1 h)

theorem ite_not_ult (hge : n ≤ m → P) (hlt : m < n → R)
    (hm : m < 2 ^ 64 := by first | omega | decide) (hn : n < 2 ^ 64 := by first | omega | decide) :
    if !(ofNat 64 m).ult (ofNat 64 n) then P else R :=
  ite_of_iff (by rw [ofNat_ult_ofNat hm hn, Bool.not_eq_true', decide_eq_false_iff_not, not_lt])
    hge fun h ↦ hlt (not_le.1 h)

/-- A branch on the equality of two numbers. -/
theorem ite_beq (heq : m = n → P) (hne : m ≠ n → R) (hm : m < 2 ^ 64 := by first | omega | decide)
    (hn : n < 2 ^ 64 := by first | omega | decide) : if ofNat 64 m == ofNat 64 n then P else R :=
  ite_of_iff (by rw [ofNat_beq_ofNat hm hn, beq_iff_eq]) heq hne

theorem ite_bne (hne : m ≠ n → P) (heq : m = n → R) (hm : m < 2 ^ 64 := by first | omega | decide)
    (hn : n < 2 ^ 64 := by first | omega | decide) : if ofNat 64 m != ofNat 64 n then P else R :=
  ite_of_iff (by rw [ofNat_bne_ofNat hm hn, bne_iff_ne]) hne fun h ↦ heq (not_not.1 h)

end Branches

theorem ofNat_shiftLeft (n k : ℕ) : ofNat 64 n <<< k = ofNat 64 (2 ^ k * n) := by
  refine eq_of_toNat_eq ?_
  rw [toNat_shiftLeft, toNat_ofNat, toNat_ofNat, Nat.shiftLeft_eq, Nat.mod_mul_mod, mul_comm]

theorem ofNat_ushiftRight (hn : n < 2 ^ 64) (k : ℕ) : ofNat 64 n >>> k = ofNat 64 (n / 2 ^ k) := by
  refine eq_of_toNat_eq ?_
  rw [toNat_ushiftRight, toNat_ofNat, toNat_ofNat, Nat.shiftRight_eq_div_pow,
    Nat.mod_eq_of_lt hn, Nat.mod_eq_of_lt ((Nat.div_le_self n _).trans_lt hn)]

/-! ### Memory -/

/-- The bytes from an address on. -/
def read (m : Memory) (a : Word) (n : ℕ) : List UInt8 :=
  (range n).map fun i ↦ m (a + ofNat 64 i)

/-- The memory with a string put at an address. -/
def write (m : Memory) (a : Word) (bytes : List UInt8) : Memory := fun x ↦
  bytes.getD (x - a).toNat (m x)

/-- The number in the `n` bytes from an address on. -/
def load (m : Memory) (a : Word) (n : ℕ) : Word := ofNat 64 (ofLe (read m a n))

/-- The memory with a number put into `n` bytes. -/
def store (m : Memory) (a : Word) (n : ℕ) (v : Word) : Memory := write m a (le n v.toNat)

section Memory

variable {m : Memory} {b v a : Word} {j k n w : ℕ} {bytes : List UInt8}

@[simp] theorem length_read (a : Word) : (read m a n).length = n := by
  rw [read, length_map, length_range]

theorem read_succ (a : Word) : read m a (n + 1) = m a :: read m (a + 1#64) n := by
  simp only [read, range_succ_eq_map, map_cons, map_map, BitVec.add_zero]
  refine congrArg _ (map_congr_left fun i _ ↦ ?_)
  rw [Function.comp_apply, Nat.succ_eq_one_add, BitVec.ofNat_add, BitVec.add_assoc]

theorem read_succ_last (a : Word) : read m a (n + 1) = read m a n ++ [m (a + ofNat 64 n)] := by
  simp only [read, range_succ, map_append, map_cons, map_nil]

theorem read_add (b : Word) (j n k : ℕ) :
    read m (b + ofNat 64 j) (n + k)
      = read m (b + ofNat 64 j) n ++ read m (b + ofNat 64 (j + n)) k := by
  simp only [read, range_add, map_append, map_map, Function.comp_def]
  refine congrArg _ (map_congr_left fun i _ ↦ ?_)
  simp only [add_assoc, ofNat_add]

/-- A part of what is read is read from further on. -/
theorem read_eq_field (hread : read m a bytes.length = bytes)
    (h : k + n ≤ bytes.length := by omega) : read m (a + ofNat 64 k) n = field k n bytes := by
  obtain ⟨d, hd⟩ := Nat.exists_eq_add_of_le h
  have hsplit : read m a (k + (n + d)) = read m a k ++ (read m (a + ofNat 64 k) n ++
      read m (a + ofNat 64 (k + n)) d) := by
    have hrest := read_add (m := m) a 0 k (n + d)
    rwa [BitVec.add_zero, Nat.zero_add, read_add] at hrest
  rw [← Nat.add_assoc, ← hd, hread] at hsplit
  rw [field, hsplit, drop_left' (length_read a), take_left' (length_read _)]

theorem load_zero (a : Word) : load m a 0 = 0#64 := rfl

/-- A single byte. -/
theorem load_one (a : Word) : load m a 1 = ofNat 64 (m a).toNat := by
  rw [load, read_succ]
  rfl

theorem add_ofNat_add_ofNat (b : Word) (j k : ℕ) :
    b + ofNat 64 j + ofNat 64 k = b + ofNat 64 (j + k) := by
  rw [add_assoc, ofNat_add]

/-- The distance of two addresses is that of their offsets, around the address space. -/
theorem toNat_sub_offset (b : Word) (hj : j < 2 ^ 64) (hk : k < 2 ^ 64) :
    (b + ofNat 64 j - (b + ofNat 64 k)).toNat = if k ≤ j then j - k else 2 ^ 64 + j - k := by
  rw [toNat_sub, toNat_add, toNat_add, toNat_ofNat, toNat_ofNat, Nat.mod_eq_of_lt hk]
  split <;> omega

theorem write_apply_of_within (hkj : k ≤ j) (hj : j < k + bytes.length)
    (hk : k + bytes.length ≤ 2 ^ 64) :
    write m (b + ofNat 64 k) bytes (b + ofNat 64 j) = bytes.getD (j - k) 0 := by
  have hlt : j - k < bytes.length := by omega
  rw [write, toNat_sub_offset b (by omega) (by omega), if_pos hkj,
    getD_eq_getElem _ _ hlt, getD_eq_getElem _ _ hlt]

theorem write_apply_of_outside (h : j < k ∨ k + bytes.length ≤ j) (hj : j < 2 ^ 64)
    (hk : k + bytes.length ≤ 2 ^ 64) :
    write m (b + ofNat 64 k) bytes (b + ofNat 64 j) = m (b + ofNat 64 j) := by
  rcases eq_zero_or_pos bytes.length with hzero | hpos
  · rw [eq_nil_of_length_eq_zero hzero]
    rfl
  · rw [write, toNat_sub_offset b hj (by omega)]
    refine getD_eq_default _ _ ?_
    split <;> omega

/-- Reading past a written string. -/
theorem read_write_of_disjoint (h : j + n ≤ k ∨ k + bytes.length ≤ j) (hj : j + n ≤ 2 ^ 64)
    (hk : k + bytes.length ≤ 2 ^ 64) :
    read (write m (b + ofNat 64 k) bytes) (b + ofNat 64 j) n = read m (b + ofNat 64 j) n := by
  refine map_congr_left fun i hi ↦ ?_
  have hin : i < n := mem_range.1 hi
  rw [add_ofNat_add_ofNat, write_apply_of_outside (by omega) (by omega) hk]

/-- **Reading a part of a written string.** -/
theorem read_write_of_within (hkj : k ≤ j) (hj : j + n ≤ k + bytes.length)
    (hk : k + bytes.length ≤ 2 ^ 64) :
    read (write m (b + ofNat 64 k) bytes) (b + ofNat 64 j) n = field (j - k) n bytes := by
  have hlen : (field (j - k) n bytes).length = n := Bytes.length_field (by omega)
  refine ext_getElem (by rw [length_read, hlen]) fun i hi hi' ↦ ?_
  have hindex : j + i - k = j - k + i := by omega
  have hlt : j - k + i < bytes.length := by omega
  simp only [read, getElem_map, getElem_range, add_ofNat_add_ofNat]
  rw [write_apply_of_within (by omega) (by omega) hk, hindex, getD_eq_getElem _ _ hlt]
  simp only [field, getElem_take, getElem_drop]

theorem load_write_of_disjoint (h : j + n ≤ k ∨ k + bytes.length ≤ j) (hj : j + n ≤ 2 ^ 64)
    (hk : k + bytes.length ≤ 2 ^ 64) :
    load (write m (b + ofNat 64 k) bytes) (b + ofNat 64 j) n = load m (b + ofNat 64 j) n := by
  rw [load, read_write_of_disjoint h hj hk]
  rfl

theorem load_write_of_within (hkj : k ≤ j) (hj : j + n ≤ k + bytes.length)
    (hk : k + bytes.length ≤ 2 ^ 64) :
    load (write m (b + ofNat 64 k) bytes) (b + ofNat 64 j) n
      = ofNat 64 (ofLe (field (j - k) n bytes)) := by
  rw [load, read_write_of_within hkj hj hk]

theorem read_store_of_disjoint (h : j + n ≤ k ∨ k + w ≤ j := by first | omega | decide)
    (hj : j + n ≤ 2 ^ 64 := by first | omega | decide)
    (hk : k + w ≤ 2 ^ 64 := by first | omega | decide) :
    read (store m (b + ofNat 64 k) w v) (b + ofNat 64 j) n = read m (b + ofNat 64 j) n :=
  read_write_of_disjoint (by rwa [Bytes.length_le]) hj (by rwa [Bytes.length_le])

theorem load_store_of_disjoint (h : j + n ≤ k ∨ k + w ≤ j := by first | omega | decide)
    (hj : j + n ≤ 2 ^ 64 := by first | omega | decide)
    (hk : k + w ≤ 2 ^ 64 := by first | omega | decide) :
    load (store m (b + ofNat 64 k) w v) (b + ofNat 64 j) n = load m (b + ofNat 64 j) n :=
  load_write_of_disjoint (by rwa [Bytes.length_le]) hj (by rwa [Bytes.length_le])

/-- A doubleword is loaded as it was stored. -/
theorem load_store_self (hk : k + 8 ≤ 2 ^ 64 := by first | omega | decide) :
    load (store m (b + ofNat 64 k) 8 v) (b + ofNat 64 k) 8 = v := by
  have hlen : (le 8 v.toNat).length = 8 := Bytes.length_le 8 _
  rw [store, load_write_of_within (le_refl k) (by rw [hlen]) (by rwa [hlen]), Nat.sub_self, field,
    drop_zero, take_of_length_le (by rw [hlen]), Bytes.ofLe_le_of_lt (by simpa using v.isLt),
    ofNat_toNat, setWidth_eq]

/-- Two memories agree at the offsets of a range. -/
def Agree (b : Word) (lo hi : ℕ) (m m' : Memory) : Prop :=
  ∀ j, lo ≤ j → j < hi → m' (b + ofNat 64 j) = m (b + ofNat 64 j)

section Agree

variable {m' m'' : Memory} {lo hi lo' hi' d : ℕ}

theorem Agree.refl : Agree b lo hi m m := fun _ _ _ ↦ rfl

theorem Agree.trans (h : Agree b lo hi m m') (h' : Agree b lo' hi' m' m'')
    (hlo : lo' ≤ lo := by first | omega | decide) (hhi : hi ≤ hi' := by first | omega | decide) :
    Agree b lo hi m m'' :=
  fun j hj hj' ↦ (h' j (hlo.trans hj) (hj'.trans_le hhi)).trans (h j hj hj')

theorem Agree.mono (h : Agree b lo hi m m') (hlo : lo ≤ lo' := by first | omega | decide)
    (hhi : hi' ≤ hi := by first | omega | decide) : Agree b lo' hi' m m' :=
  fun j hj hj' ↦ h j (hlo.trans hj) (hj'.trans_le hhi)

theorem Agree.write (h : Agree b lo hi m m') (hhi : hi ≤ 2 ^ 64)
    (hk : k + bytes.length ≤ lo ∨ hi ≤ k) (hlen : k + bytes.length ≤ 2 ^ 64) :
    Agree b lo hi m (write m' (b + ofNat 64 k) bytes) := by
  intro j hj hj'
  rw [write_apply_of_outside (by omega) (by omega) hlen, h j hj hj']

theorem Agree.store (h : Agree b lo hi m m') (hhi : hi ≤ 2 ^ 64 := by first | omega | decide)
    (hk : k + w ≤ lo ∨ hi ≤ k := by first | omega | decide)
    (hlen : k + w ≤ 2 ^ 64 := by first | omega | decide) :
    Agree b lo hi m (store m' (b + ofNat 64 k) w v) :=
  h.write hhi (by rwa [Bytes.length_le]) (by rwa [Bytes.length_le])

theorem Agree.read (h : Agree b lo hi m m') (hlo : lo ≤ j := by first | omega | decide)
    (hhi : j + n ≤ hi := by first | omega | decide) :
    read m' (b + ofNat 64 j) n = read m (b + ofNat 64 j) n := by
  refine map_congr_left fun i hi ↦ ?_
  have hin : i < n := mem_range.1 hi
  rw [add_ofNat_add_ofNat, h (j + i) (by omega) (by omega)]

theorem Agree.load (h : Agree b lo hi m m') (hlo : lo ≤ j := by first | omega | decide)
    (hhi : j + n ≤ hi := by first | omega | decide) :
    load m' (b + ofNat 64 j) n = load m (b + ofNat 64 j) n := by
  rw [MachineState.load, h.read hlo hhi]
  rfl

/-- The base may be moved. -/
theorem agree_add_iff : Agree (b + ofNat 64 d) lo hi m m' ↔ Agree b (lo + d) (hi + d) m m' := by
  constructor
  · intro h j hj hj'
    have := h (j - d) (by omega) (by omega)
    rwa [add_ofNat_add_ofNat, Nat.add_sub_cancel' (by omega)] at this
  · intro h j hj hj'
    rw [add_ofNat_add_ofNat, add_comm d j]
    exact h (j + d) (by omega) (by omega)

end Agree

end Memory

-- A load of a fixed width would otherwise be evaluated where a goal is put into head normal form.
attribute [irreducible] load

/-! ### Registers -/

structure State where
  regs : Reg → Word
  mem : Memory

namespace State

variable {s : State} {r r' : Reg} {v : Word} {m : Memory}

def get (s : State) (r : Reg) : Word := if r = 0#5 then 0#64 else s.regs r

def set (s : State) (r : Reg) (v : Word) : State :=
  { s with regs := fun x ↦ if x = r then v else s.regs x }

def setMem (s : State) (m : Memory) : State := { s with mem := m }

@[simp] theorem get_zero : s.get 0#5 = 0#64 := rfl

@[simp] theorem get_set_self (h : r ≠ 0#5 := by decide) : (s.set r v).get r = v := by
  rw [get, if_neg h]
  exact if_pos rfl

@[simp] theorem get_set_of_ne (h : r' ≠ r := by decide) : (s.set r v).get r' = s.get r' := by
  unfold get
  split
  · rfl
  · exact if_neg h

@[simp] theorem get_setMem : (s.setMem m).get r = s.get r := rfl

@[simp] theorem mem_set : (s.set r v).mem = s.mem := rfl

@[simp] theorem mem_setMem : (s.setMem m).mem = m := rfl

/-- **The rules of a written register**, for rewriting. -/
theorem set_rules : (∀ {s : State} {r v}, r ≠ 0#5 → (s.set r v).get r = v) ∧
    (∀ {s : State} {r r' v}, r' ≠ r → (s.set r v).get r' = s.get r') ∧
    ∀ {s : State} {r v}, (s.set r v).mem = s.mem :=
  ⟨(get_set_self ·), (get_set_of_ne ·), rfl⟩

/-- Only the given registers have changed. -/
def Keeps (rs : List Reg) (s s' : State) : Prop := ∀ r, r ∉ rs → s'.get r = s.get r

section Keeps

variable {rs rs' : List Reg} {s' s'' : State}

@[simp] theorem Keeps.refl : Keeps rs s s := fun _ _ ↦ rfl

theorem Keeps.get (h : Keeps rs s s') (r : Reg) (hr : r ∉ rs := by decide) : s'.get r = s.get r :=
  h r hr

theorem Keeps.trans (h : Keeps rs s s') (h' : Keeps rs' s' s'')
    (hrs : rs' ⊆ rs := by first | exact List.Subset.refl _ | decide) : Keeps rs s s'' :=
  fun r hr ↦ (h' r fun hmem ↦ hr (hrs hmem)).trans (h r hr)

@[simp] theorem keeps_set_iff (hr : r ∈ rs) : Keeps rs s (s'.set r v) ↔ Keeps rs s s' := by
  refine forall₂_congr fun r' hr' ↦ ?_
  have hne : r' ≠ r := fun heq ↦ hr' (heq ▸ hr)
  rw [get_set_of_ne hne]

@[simp] theorem keeps_setMem_iff : Keeps rs s (s'.setMem m) ↔ Keeps rs s s' := Iff.rfl

theorem Keeps.set (h : Keeps rs s s') (hr : r ∈ rs := by decide) : Keeps rs s (s'.set r v) :=
  (keeps_set_iff hr).2 h

theorem Keeps.setMem (h : Keeps rs s s') : Keeps rs s (s'.setMem m) := h

theorem Keeps.mono (h : Keeps rs s s') (hrs : rs ⊆ rs' := by decide) : Keeps rs' s s' :=
  fun r hr ↦ h r fun hmem ↦ hr (hrs hmem)

/-- Only the given registers have changed, and no memory. -/
structure Quiet (rs : List Reg) (s s' : State) : Prop where
  regs : Keeps rs s s'
  mem : s'.mem = s.mem

@[simp] theorem Quiet.refl : Quiet rs s s := ⟨.refl, rfl⟩

/-- The other registers, for rewriting. -/
theorem Keeps.kept (h : Keeps rs s s') : ∀ r, r ∉ rs → s'.get r = s.get r := h

theorem Quiet.kept (h : Quiet rs s s') : ∀ r, r ∉ rs → s'.get r = s.get r := h.regs

theorem Quiet.get (h : Quiet rs s s') (r : Reg) (hr : r ∉ rs := by decide) : s'.get r = s.get r :=
  h.regs r hr

theorem Quiet.trans (h : Quiet rs s s') (h' : Quiet rs' s' s'')
    (hrs : rs' ⊆ rs := by first | exact List.Subset.refl _ | decide) : Quiet rs s s'' :=
  ⟨h.regs.trans h'.regs hrs, h'.mem.trans h.mem⟩

@[simp] theorem quiet_set_iff (hr : r ∈ rs) : Quiet rs s (s'.set r v) ↔ Quiet rs s s' :=
  ⟨fun h ↦ ⟨(keeps_set_iff hr).1 h.regs, h.mem⟩, fun h ↦ ⟨h.regs.set hr, h.mem⟩⟩

theorem Quiet.mono (h : Quiet rs s s') (hrs : rs ⊆ rs' := by decide) : Quiet rs' s s' :=
  ⟨h.regs.mono hrs, h.mem⟩

end Keeps

section Overwritten

variable {u w : Word}

theorem set_set : (s.set r v).set r w = s.set r w := by
  simp only [set, mk.injEq, and_true]
  funext x
  split <;> rfl

/-- A register that is written again, with another one written in between. -/
theorem set_set_set : ((s.set r v).set r' u).set r w = (s.set r' u).set r w := by
  simp only [set, mk.injEq, and_true]
  funext x
  split_ifs <;> rfl

end Overwritten

end State

export State (get_set_of_ne get_set_self set_rules mem_set Keeps Keeps.refl Keeps.set Keeps.setMem
  Keeps.trans Quiet Quiet.refl Quiet.trans)

end MachineState
