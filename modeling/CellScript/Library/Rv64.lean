import CellScript.Library.BitField

/-!
# The control-flow part of RV64

Decoding and execution of the RV64 instructions that form or use an address relative to the program
counter: the conditional branches, `jal`, `jalr`, `auipc` and `addi`. Immediates are read from the
word as the architecture scatters them. Everything else is outside this fragment, and `exec` is
undefined there. `execConstant` adds the instructions that build constants.

Memory is a partial map from addresses to bytes, and a word is fetched little-endian. Data accesses
are not part of the fragment, so memory is a parameter of `step` and not a part of the state.
-/

namespace Rv64

open BitField BitVec

abbrev Reg := BitVec 5

abbrev Word := BitVec 32

abbrev Byte := BitVec 8

/-! ### Bytes of a word -/

/-- The bytes of a word, least significant first. -/
def leBytes (w : Word) : List Byte :=
  [w.extractLsb' 0 8, w.extractLsb' 8 8, w.extractLsb' 16 8, w.extractLsb' 24 8]

@[simp] theorem length_leBytes (w : Word) : (leBytes w).length = 4 := rfl

/-- The word with the given bytes, least significant first. -/
def ofLeBytes (b₀ b₁ b₂ b₃ : Byte) : Word :=
  b₃ ++ b₂ ++ b₁ ++ b₀

theorem ofLeBytes_leBytes (w : Word) :
    ofLeBytes (w.extractLsb' 0 8) (w.extractLsb' 8 8) (w.extractLsb' 16 8) (w.extractLsb' 24 8) =
      w := by
  have h₂ := extractLsb'_append_extractLsb' w 16 8 8
  have h₁ := extractLsb'_append_extractLsb' w 8 16 8
  have h₀ := extractLsb'_append_extractLsb' w 0 24 8
  rw [ofLeBytes, h₂, h₁, h₀]
  exact extractLsb'_eq_self

/-- Memory, as far as it is mapped. -/
abbrev Memory := BitVec 64 → Option Byte

/-- The bytes stand in memory from an address on. -/
def Holds (m : Memory) (address : BitVec 64) (bytes : List Byte) : Prop :=
  ∀ i (h : i < bytes.length), m (address + BitVec.ofNat 64 i) = some (bytes.get ⟨i, h⟩)

/-- The word at an address. -/
def fetch (m : Memory) (address : BitVec 64) : Option Word :=
  match m address, m (address + 1#64), m (address + 2#64), m (address + 3#64) with
  | some b₀, some b₁, some b₂, some b₃ => some (ofLeBytes b₀ b₁ b₂ b₃)
  | _, _, _, _ => none

variable {m : Memory} {address v : BitVec 64} {w w' : Word} {xs ys : List Byte}

theorem Holds.append_left (h : Holds m address (xs ++ ys)) : Holds m address xs := by
  intro i hi
  rw [h i (by simp; omega)]
  simp [hi]

theorem Holds.append_right (h : Holds m address (xs ++ ys)) :
    Holds m (address + BitVec.ofNat 64 xs.length) ys := by
  intro i hi
  have := h (xs.length + i) (by simp; omega)
  rw [add_assoc, ← ofNat_add, this]
  simp

theorem Holds.fetch_eq (h : Holds m address (leBytes w)) : fetch m address = some w := by
  have h₀ := h 0 (by simp)
  have h₁ := h 1 (by simp)
  have h₂ := h 2 (by simp)
  have h₃ := h 3 (by simp)
  rw [BitVec.add_zero] at h₀
  simp only [fetch, h₀, h₁, h₂, h₃]
  exact congrArg some (ofLeBytes_leBytes w)

/-! ### Fields -/

def opcode (w : Word) : BitVec 7 := w.extractLsb' 0 7

def rd (w : Word) : Reg := w.extractLsb' 7 5

def funct3 (w : Word) : BitVec 3 := w.extractLsb' 12 3

def rs1 (w : Word) : Reg := w.extractLsb' 15 5

def rs2 (w : Word) : Reg := w.extractLsb' 20 5

/-- The 12-bit immediate of a load, of `addi` and of `jalr`. -/
def immI (w : Word) : BitVec 12 := w.extractLsb' 20 12

/-- The 13-bit branch displacement; its lowest bit is not stored. -/
def immB (w : Word) : BitVec 13 :=
  w.extractLsb' 31 1 ++ w.extractLsb' 7 1 ++ w.extractLsb' 25 6 ++ w.extractLsb' 8 4 ++ 0#1

/-- The 32-bit upper immediate; its low twelve bits are zero. -/
def immU (w : Word) : BitVec 32 := w.extractLsb' 12 20 ++ 0#12

/-- The 21-bit jump displacement; its lowest bit is not stored. -/
def immJ (w : Word) : BitVec 21 :=
  w.extractLsb' 31 1 ++ w.extractLsb' 12 8 ++ w.extractLsb' 20 1 ++ w.extractLsb' 21 10 ++ 0#1

/-! ### Formats -/

/-- The layout of `addi` and `jalr`. -/
def iType (imm : BitVec 12) (rs1 : Reg) (funct3 : BitVec 3) (rd : Reg) (opcode : BitVec 7) : Word :=
  imm ++ rs1 ++ funct3 ++ rd ++ opcode

/-- The layout of a branch. -/
def bType (imm : BitVec 13) (rs2 rs1 : Reg) (funct3 : BitVec 3) (opcode : BitVec 7) : Word :=
  imm.extractLsb' 12 1 ++ imm.extractLsb' 5 6 ++ rs2 ++ rs1 ++ funct3 ++ imm.extractLsb' 1 4 ++
    imm.extractLsb' 11 1 ++ opcode

/-- The layout of an instruction with an upper immediate. -/
def uType (imm : BitVec 20) (rd : Reg) (opcode : BitVec 7) : Word :=
  imm ++ rd ++ opcode

/-- The layout of `jal`. -/
def jType (imm : BitVec 21) (rd : Reg) (opcode : BitVec 7) : Word :=
  imm.extractLsb' 20 1 ++ imm.extractLsb' 1 10 ++ imm.extractLsb' 11 1 ++ imm.extractLsb' 12 8 ++
    rd ++ opcode

section Formats

variable (r r' : Reg) (f : BitVec 3) (o : BitVec 7)

@[simp] theorem opcode_iType (imm : BitVec 12) : opcode (iType imm r f r' o) = o := by
  simp (disch := omega) only [opcode, iType, append_rules]

@[simp] theorem rd_iType (imm : BitVec 12) : rd (iType imm r f r' o) = r' := by
  simp (disch := omega) only [rd, iType, append_rules, Nat.reduceSub]

@[simp] theorem funct3_iType (imm : BitVec 12) : funct3 (iType imm r f r' o) = f := by
  simp (disch := omega) only [funct3, iType, append_rules, Nat.reduceSub]

@[simp] theorem rs1_iType (imm : BitVec 12) : rs1 (iType imm r f r' o) = r := by
  simp (disch := omega) only [rs1, iType, append_rules, Nat.reduceSub]

@[simp] theorem immI_iType (imm : BitVec 12) : immI (iType imm r f r' o) = imm := by
  simp (disch := omega) only [immI, iType, extractLsb'_append_of_le, Nat.reduceSub,
    extractLsb'_eq_self]

@[simp] theorem opcode_bType (imm : BitVec 13) : opcode (bType imm r r' f o) = o := by
  simp (disch := omega) only [opcode, bType, append_rules]

@[simp] theorem funct3_bType (imm : BitVec 13) : funct3 (bType imm r r' f o) = f := by
  simp (disch := omega) only [funct3, bType, append_rules, Nat.reduceSub]

@[simp] theorem rs1_bType (imm : BitVec 13) : rs1 (bType imm r r' f o) = r' := by
  simp (disch := omega) only [rs1, bType, append_rules, Nat.reduceSub]

@[simp] theorem rs2_bType (imm : BitVec 13) : rs2 (bType imm r r' f o) = r := by
  simp (disch := omega) only [rs2, bType, append_rules, Nat.reduceSub]

/-- A branch stores every bit of an even displacement. -/
theorem immB_bType {imm : BitVec 13} (h : imm.extractLsb' 0 1 = 0#1) :
    immB (bType imm r r' f o) = imm := by
  have h₃ := extractLsb'_append_extractLsb' imm 11 1 1
  have h₂ := extractLsb'_append_extractLsb' imm 5 2 6
  have h₁ := extractLsb'_append_extractLsb' imm 1 8 4
  have h₀ := extractLsb'_append_extractLsb' imm 0 12 1
  simp (disch := omega) only [immB, bType, append_rules, Nat.reduceSub]
  rw [h₃, h₂, h₁, ← h, h₀]
  exact extractLsb'_eq_self

@[simp] theorem opcode_uType (imm : BitVec 20) : opcode (uType imm r o) = o := by
  simp (disch := omega) only [opcode, uType, append_rules]

@[simp] theorem rd_uType (imm : BitVec 20) : rd (uType imm r o) = r := by
  simp (disch := omega) only [rd, uType, append_rules, Nat.reduceSub]

@[simp] theorem immU_uType (imm : BitVec 20) : immU (uType imm r o) = imm ++ 0#12 := by
  simp (disch := omega) only [immU, uType, extractLsb'_append_of_le, Nat.reduceSub,
    extractLsb'_eq_self]

@[simp] theorem opcode_jType (imm : BitVec 21) : opcode (jType imm r o) = o := by
  simp (disch := omega) only [opcode, jType, append_rules]

@[simp] theorem rd_jType (imm : BitVec 21) : rd (jType imm r o) = r := by
  simp (disch := omega) only [rd, jType, append_rules, Nat.reduceSub]

/-- A jump stores every bit of an even displacement. -/
theorem immJ_jType {imm : BitVec 21} (h : imm.extractLsb' 0 1 = 0#1) :
    immJ (jType imm r o) = imm := by
  have h₃ := extractLsb'_append_extractLsb' imm 12 1 8
  have h₂ := extractLsb'_append_extractLsb' imm 11 9 1
  have h₁ := extractLsb'_append_extractLsb' imm 1 10 10
  have h₀ := extractLsb'_append_extractLsb' imm 0 20 1
  simp (disch := omega) only [immJ, jType, append_rules, Nat.reduceSub]
  rw [h₃, h₂, h₁, ← h, h₀]
  exact extractLsb'_eq_self

end Formats

/-! ### Execution -/

structure State where
  pc : BitVec 64
  regs : Reg → BitVec 64

namespace State

/-- Register `x0` reads as zero. -/
def get (s : State) (r : Reg) : BitVec 64 := if r = 0#5 then 0#64 else s.regs r

/-- Writes to `x0` are dropped. -/
def set (s : State) (r : Reg) (v : BitVec 64) : State :=
  if r = 0#5 then s else { s with regs := fun q ↦ if q = r then v else s.regs q }

def jump (s : State) (pc : BitVec 64) : State := { s with pc }

@[simp] theorem pc_set (s : State) (r : Reg) (v : BitVec 64) : (s.set r v).pc = s.pc := by
  by_cases h : r = 0#5 <;> simp [set, h]

theorem get_set_self {s : State} {r : Reg} (h : r ≠ 0#5) : (s.set r v).get r = v := by
  simp [set, get, h]

@[simp] theorem pc_jump (s : State) (pc : BitVec 64) : (s.jump pc).pc = pc := rfl

@[simp] theorem jump_jump (s : State) (pc pc' : BitVec 64) : (s.jump pc).jump pc' = s.jump pc' :=
  rfl

theorem set_jump (s : State) (r : Reg) (v pc : BitVec 64) :
    (s.set r v).jump pc = (s.jump pc).set r v := by
  by_cases h : r = 0#5 <;> simp [set, jump, h]

@[simp] theorem set_set (s : State) (r : Reg) (v v' : BitVec 64) :
    (s.set r v).set r v' = s.set r v' := by
  by_cases h : r = 0#5
  · simp [set, h]
  · simp only [set, h, if_false]
    congr 1
    funext q
    by_cases hq : q = r <;> simp [hq]

@[simp] theorem set_zero (s : State) (v : BitVec 64) : s.set 0#5 v = s := by
  simp [set]

end State

/-- Whether a branch is taken; two of the eight conditions are not assigned. -/
def branchTaken (funct3 : BitVec 3) (a b : BitVec 64) : Option Bool :=
  if funct3 = 0b000#3 then some (a == b)
  else if funct3 = 0b001#3 then some (!(a == b))
  else if funct3 = 0b100#3 then some (a.slt b)
  else if funct3 = 0b101#3 then some (!(a.slt b))
  else if funct3 = 0b110#3 then some (a.ult b)
  else if funct3 = 0b111#3 then some (!(a.ult b))
  else none

/-- One instruction of the fragment. -/
def exec (w : Word) (s : State) : Option State :=
  if opcode w = 0x63#7 then
    (branchTaken (funct3 w) (s.get (rs1 w)) (s.get (rs2 w))).map fun taken ↦
      s.jump (if taken then s.pc + (immB w).signExtend 64 else s.pc + 4#64)
  else if opcode w = 0x6f#7 then
    some ((s.jump (s.pc + (immJ w).signExtend 64)).set (rd w) (s.pc + 4#64))
  else if opcode w = 0x67#7 ∧ funct3 w = 0#3 then
    -- the lowest bit of the target is cleared
    some ((s.jump ((s.get (rs1 w) + (immI w).signExtend 64) &&& ~~~1#64)).set (rd w) (s.pc + 4#64))
  else if opcode w = 0x17#7 then
    some ((s.jump (s.pc + 4#64)).set (rd w) (s.pc + (immU w).signExtend 64))
  else if opcode w = 0x13#7 ∧ funct3 w = 0#3 then
    some ((s.jump (s.pc + 4#64)).set (rd w) (s.get (rs1 w) + (immI w).signExtend 64))
  else none

/-- Fetch and execute. -/
def step (m : Memory) (s : State) : Option State :=
  (fetch m s.pc).bind fun w ↦ exec w s

/-- A given number of steps. -/
def run (m : Memory) : ℕ → State → Option State
  | 0, s => some s
  | n + 1, s => (step m s).bind (run m n)

variable {s s' : State} {r r' : Reg} {imm : BitVec 12}

theorem step_eq_exec (h : Holds m s.pc (leBytes w)) : step m s = exec w s := by
  rw [step, h.fetch_eq]
  rfl

theorem run_one (h : Holds m s.pc (leBytes w)) : run m 1 s = exec w s := by
  rw [run, step_eq_exec h]
  cases exec w s <;> rfl

/-- Two words in sequence, when the first one falls through. -/
theorem run_two (h : Holds m s.pc (leBytes w ++ leBytes w'))
    (hexec : exec w s = some s') (hpc : s'.pc = s.pc + 4#64) : run m 2 s = exec w' s' := by
  have hnext : Holds m s'.pc (leBytes w') := by
    rw [hpc]
    exact h.append_right
  rw [run, step_eq_exec h.append_left, hexec]
  exact run_one hnext

theorem exec_branch {imm : BitVec 13} {f : BitVec 3} (h : imm.extractLsb' 0 1 = 0#1) :
    exec (bType imm r r' f 0x63#7) s = (branchTaken f (s.get r') (s.get r)).map fun taken ↦
      s.jump (if taken then s.pc + imm.signExtend 64 else s.pc + 4#64) := by
  simp [exec, immB_bType _ _ _ _ h]

theorem exec_jal {imm : BitVec 21} (h : imm.extractLsb' 0 1 = 0#1) :
    exec (jType imm r 0x6f#7) s =
      some ((s.jump (s.pc + imm.signExtend 64)).set r (s.pc + 4#64)) := by
  simp [exec, immJ_jType _ _ h]

theorem exec_jalr :
    exec (iType imm r 0#3 r' 0x67#7) s =
      some ((s.jump ((s.get r + imm.signExtend 64) &&& ~~~1#64)).set r' (s.pc + 4#64)) := by
  simp [exec]

theorem exec_auipc {imm : BitVec 20} :
    exec (uType imm r 0x17#7) s =
      some ((s.jump (s.pc + 4#64)).set r (s.pc + (imm ++ 0#12).signExtend 64)) := by
  simp [exec]

theorem exec_addi :
    exec (iType imm r 0#3 r' 0x13#7) s =
      some ((s.jump (s.pc + 4#64)).set r' (s.get r + imm.signExtend 64)) := by
  simp [exec]

/-! ### Constants -/

/-- `lui` and the shifts by a constant, over the instructions of `exec`. -/
def execConstant (w : Word) (s : State) : Option State :=
  let shamt := ((immI w).extractLsb' 0 6).toNat
  if opcode w = 0x37#7 then
    some ((s.jump (s.pc + 4#64)).set (rd w) ((immU w).signExtend 64))
  else if opcode w = 0x13#7 ∧ funct3 w = 0b001#3 ∧ (immI w).extractLsb' 6 6 = 0#6 then
    some ((s.jump (s.pc + 4#64)).set (rd w) (s.get (rs1 w) <<< shamt))
  else if opcode w = 0x13#7 ∧ funct3 w = 0b101#3 ∧ (immI w).extractLsb' 6 6 = 0#6 then
    some ((s.jump (s.pc + 4#64)).set (rd w) (s.get (rs1 w) >>> shamt))
  else exec w s

/-- Straight-line code, word by word. -/
def execConstants (words : List Word) (s : State) : Option State :=
  words.foldlM (fun s w ↦ execConstant w s) s

theorem execConstant_addi : execConstant (iType imm r 0#3 r' 0x13#7) s =
    some ((s.jump (s.pc + 4#64)).set r' (s.get r + imm.signExtend 64)) := by
  simp [execConstant, exec_addi]

theorem execConstant_lui {imm : BitVec 20} : execConstant (uType imm r 0x37#7) s =
    some ((s.jump (s.pc + 4#64)).set r ((imm ++ 0#12).signExtend 64)) := by
  simp [execConstant]

theorem execConstant_slli (h : imm.extractLsb' 6 6 = 0#6) :
    execConstant (iType imm r 0b001#3 r' 0x13#7) s =
      some ((s.jump (s.pc + 4#64)).set r' (s.get r <<< (imm.extractLsb' 0 6).toNat)) := by
  simp [execConstant, h]

theorem execConstant_srli (h : imm.extractLsb' 6 6 = 0#6) :
    execConstant (iType imm r 0b101#3 r' 0x13#7) s =
      some ((s.jump (s.pc + 4#64)).set r' (s.get r >>> (imm.extractLsb' 0 6).toNat)) := by
  simp [execConstant, h]

/-- A shift amount stands in the low six bits of the immediate. -/
theorem shamt_ofInt {shift : ℕ} (h : shift ≤ 63) : (BitVec.ofInt 12 shift).extractLsb' 6 6 = 0#6 ∧
    ((BitVec.ofInt 12 shift).extractLsb' 0 6).toNat = shift := by
  revert h shift
  decide

theorem State.set_get (s : State) (r : Reg) : s.set r (s.get r) = s := by
  by_cases h : r = 0#5
  · simp [set, h]
  · simp only [set, get, h, if_false]
    congr 1
    funext q
    by_cases hq : q = r <;> simp [hq]

end Rv64
