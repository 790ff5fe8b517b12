import CellScript.Names
import CellScript.CompileError
import CellScript.Library.Fallible
import CellScript.Library.Rv64
import Mathlib.Tactic.Ring

/-!
# The assembler's instruction encoders

The word encoders of `codegen/assembler.rs`, one per instruction format, with the range checks on
their immediates. Opcodes, function codes and registers have the width of their field, so an
encoder cannot spill one field into the next; only immediates can be out of range, and then the
encoder reports an error.

## How the encoders are specified

Each encoder has one inversion lemma that gives the word as the concatenation of its fields
(`encodeIType_ok_iff`, `encodeBType_ok_iff`, …). What the processor reads back, and what it does
with the word, follows from that alone, in the `exec_` lemmas: a branch or jump adds the
displacement the assembler was given, and the two halves of a split displacement add up to it again
under sign extension (`exec_auipc_hi`, `add_hi_add_lo`).
-/

namespace CellScript.Assembler

open BitVec (ofInt)
open Rv64 (Reg Word Byte)
open BitField Rv64 BitVec

/-! ### Encoders -/

def signedBitsFit (value : ℤ) (bits : ℕ) : Bool :=
  let min : ℤ := -2 ^ (bits - 1)
  let max : ℤ := 2 ^ (bits - 1) - 1
  decide (min ≤ value) && decide (value ≤ max)

def encodeSignedBits (value : ℤ) (bits : ℕ) : Result Word :=
  if signedBitsFit value bits then .ok (ofInt 32 value &&& BitVec.ofNat 32 (2 ^ bits - 1))
  else
    .error (.new s!"immediate '{value}' does not fit {bits}-bit signed field")

def encodeRType (opcode : BitVec 7) (rd : Reg) (funct3 : BitVec 3) (rs1 rs2 : Reg)
    (funct7 : BitVec 7) : Word :=
  (funct7.setWidth 32 <<< 25) ||| (rs2.setWidth 32 <<< 20) ||| (rs1.setWidth 32 <<< 15) |||
    (funct3.setWidth 32 <<< 12) ||| (rd.setWidth 32 <<< 7) ||| opcode.setWidth 32

def encodeIType (opcode : BitVec 7) (rd : Reg) (funct3 : BitVec 3) (rs1 : Reg) (imm : ℤ) :
    Result Word := do
  let imm ← encodeSignedBits imm 12
  return (imm <<< 20) ||| (rs1.setWidth 32 <<< 15) ||| (funct3.setWidth 32 <<< 12) |||
    (rd.setWidth 32 <<< 7) ||| opcode.setWidth 32

def encodeSType (opcode : BitVec 7) (funct3 : BitVec 3) (rs1 rs2 : Reg) (imm : ℤ) :
    Result Word := do
  let imm ← encodeSignedBits imm 12
  let immLo := imm &&& 0x1f#32
  let immHi := (imm >>> 5) &&& 0x7f#32
  return (immHi <<< 25) ||| (rs2.setWidth 32 <<< 20) ||| (rs1.setWidth 32 <<< 15) |||
    (funct3.setWidth 32 <<< 12) ||| (immLo <<< 7) ||| opcode.setWidth 32

def encodeBType (opcode : BitVec 7) (funct3 : BitVec 3) (rs1 rs2 : Reg) (imm : ℤ) :
    Result Word := do
  if imm % 2 ≠ 0 then
    throw (.new "branch target is not 2-byte aligned")
  let imm ← encodeSignedBits imm 13
  let bit12 := (imm >>> 12) &&& 0x1#32
  let bits10_5 := (imm >>> 5) &&& 0x3f#32
  let bits4_1 := (imm >>> 1) &&& 0xf#32
  let bit11 := (imm >>> 11) &&& 0x1#32
  return (bit12 <<< 31) ||| (bits10_5 <<< 25) ||| (rs2.setWidth 32 <<< 20) |||
    (rs1.setWidth 32 <<< 15) ||| (funct3.setWidth 32 <<< 12) ||| (bits4_1 <<< 8) |||
    (bit11 <<< 7) ||| opcode.setWidth 32

def encodeUType (opcode : BitVec 7) (rd : Reg) (imm : ℤ) : Word :=
  ((ofInt 32 imm &&& 0x000fffff#32) <<< 12) ||| (rd.setWidth 32 <<< 7) ||| opcode.setWidth 32

def encodeJType (opcode : BitVec 7) (rd : Reg) (imm : ℤ) : Result Word := do
  if imm % 2 ≠ 0 then
    throw (.new "jump target is not 2-byte aligned")
  let imm ← encodeSignedBits imm 21
  let bit20 := (imm >>> 20) &&& 0x1#32
  let bits10_1 := (imm >>> 1) &&& 0x3ff#32
  let bit11 := (imm >>> 11) &&& 0x1#32
  let bits19_12 := (imm >>> 12) &&& 0xff#32
  return (bit20 <<< 31) ||| (bits10_1 <<< 21) ||| (bit11 <<< 20) ||| (bits19_12 <<< 12) |||
    (rd.setWidth 32 <<< 7) ||| opcode.setWidth 32

def encodeEcall : Word := 0x00000073#32

/-! ### Displacements -/

/-- Whether `lui` and `addi` can build the value as a signed 32-bit quantity on RV64. -/
def liFitsLuiAddiRv64 (value : ℤ) : Bool :=
  if decide (-2 ^ 31 ≤ value) && decide (value ≤ 2 ^ 31 - 1) then
    let hi := (value + 0x800) >>> (12 : ℕ)
    decide (-0x80000 ≤ hi) && decide (hi ≤ 0x7ffff)
  else
    false

/-- Split a value into the upper part and the signed low twelve bits. -/
def splitHiLo (value : ℤ) : Result (ℤ × ℤ) := do
  if !liFitsLuiAddiRv64 value then
    throw (.new s!"value '{value}' is outside the supported RV64 LUI/ADDI immediate range")
  let adjusted := value + 0x800
  let hi := adjusted >>> (12 : ℕ)
  let lo := value - (hi <<< (12 : ℕ))
  if !(decide (-2048 ≤ lo) && decide (lo ≤ 2047)) then
    throw (.new s!"low immediate '{lo}' is out of range after split")
  return (hi, lo)

/-- The signed distance between two addresses, if it fits 64 bits. -/
def relativeOffset (pc target : ℕ) : Result ℤ :=
  let distance := (target : ℤ) - pc
  if decide (-2 ^ 63 ≤ distance) && decide (distance ≤ 2 ^ 63 - 1) then .ok distance
  else .error (.new "relative offset overflowed i64")

/-! ### The encoded words -/

variable {value : ℤ} {bits : ℕ}

theorem signedBitsFit_iff :
    signedBitsFit value bits = true ↔ -2 ^ (bits - 1) ≤ value ∧ value < 2 ^ (bits - 1) := by
  simp only [signedBitsFit, and_eq_true, decide_eq_true_eq]
  omega

/-- What an encoder with a signed immediate returns. -/
theorem encodeSignedBits_bind_ok_iff {f : Word → Word} {w : Word} (hbits : bits ≤ 32) :
    (encodeSignedBits value bits >>= fun imm ↦ pure (f imm)) = .ok w ↔
      signedBitsFit value bits = true ∧ w = f ((ofInt bits value).setWidth 32) := by
  have hmask := ushiftRight_and_mask (ofInt 32 value) 0 bits
  rw [ushiftRight_zero, extractLsb'_ofInt hbits] at hmask
  by_cases h : signedBitsFit value bits = true
  · simp [encodeSignedBits, h, hmask, eq_comm]
  · simp [encodeSignedBits, h]

variable {rd rs1 rs2 : Reg} {funct3 : BitVec 3} {imm : ℤ} {w : Word}

section Words

variable {opcode : BitVec 7}

theorem encodeIType_ok_iff :
    encodeIType opcode rd funct3 rs1 imm = .ok w ↔
      signedBitsFit imm 12 = true ∧ w = iType (ofInt 12 imm) rs1 funct3 rd opcode := by
  rw [encodeIType, encodeSignedBits_bind_ok_iff (by omega), BitVec.or_assoc,
    shiftLeft_or_setWidth, BitVec.or_assoc, shiftLeft_or_setWidth (n := 12),
    BitVec.or_assoc, shiftLeft_or_setWidth (n := 15),
    shiftLeft_or_setWidth (n := 20)]
  simp only [iType, BitVec.append_assoc, setWidth_eq, BitVec.cast_eq]

/-- The shifted fields of a branch, from the lowest up. -/
theorem bType_eq (x : BitVec 13) :
    ((x.extractLsb' 12 1).setWidth 32 <<< 31) ||| ((x.extractLsb' 5 6).setWidth 32 <<< 25) |||
      (rs2.setWidth 32 <<< 20) ||| (rs1.setWidth 32 <<< 15) ||| (funct3.setWidth 32 <<< 12) |||
      ((x.extractLsb' 1 4).setWidth 32 <<< 8) ||| ((x.extractLsb' 11 1).setWidth 32 <<< 7) |||
      opcode.setWidth 32 = bType x rs2 rs1 funct3 opcode := by
  rw [BitVec.or_assoc, shiftLeft_or_setWidth, BitVec.or_assoc, shiftLeft_or_setWidth (n := 8),
    BitVec.or_assoc, shiftLeft_or_setWidth (n := 12), BitVec.or_assoc,
    shiftLeft_or_setWidth (n := 15), BitVec.or_assoc, shiftLeft_or_setWidth (n := 20),
    BitVec.or_assoc, shiftLeft_or_setWidth (n := 25), shiftLeft_or_setWidth (n := 31)]
  simp only [bType, BitVec.append_assoc, setWidth_eq, BitVec.cast_eq]

theorem encodeBType_ok_iff :
    encodeBType opcode funct3 rs1 rs2 imm = .ok w ↔
      imm % 2 = 0 ∧ signedBitsFit imm 13 = true ∧
        w = bType (ofInt 13 imm) rs2 rs1 funct3 opcode := by
  have hfield (start len : ℕ) (h : start + len ≤ 32) :=
    setWidth_ushiftRight_and_mask (ofInt 13 imm) h
  have h₁ := hfield 12 1 (by omega)
  have h₂ := hfield 5 6 (by omega)
  have h₃ := hfield 1 4 (by omega)
  have h₄ := hfield 11 1 (by omega)
  norm_num at h₁ h₂ h₃ h₄
  by_cases heven : imm % 2 = 0
  · simp only [encodeBType, heven, ne_eq, not_true, if_false, true_and]
    rw [encodeSignedBits_bind_ok_iff (by omega), h₁, h₂, h₃, h₄, bType_eq]
  · simp [encodeBType, heven]

theorem encodeUType_eq : encodeUType opcode rd imm = uType (ofInt 20 imm) rd opcode := by
  have hmask := ushiftRight_and_mask (ofInt 32 imm) 0 20
  rw [extractLsb'_ofInt (by omega)] at hmask
  norm_num at hmask
  rw [encodeUType, hmask, BitVec.or_assoc, shiftLeft_or_setWidth, shiftLeft_or_setWidth (n := 12)]
  simp only [uType, BitVec.append_assoc, setWidth_eq, BitVec.cast_eq]

/-- The shifted fields of a jump, from the lowest up. -/
theorem jType_eq (x : BitVec 21) :
    ((x.extractLsb' 20 1).setWidth 32 <<< 31) ||| ((x.extractLsb' 1 10).setWidth 32 <<< 21) |||
      ((x.extractLsb' 11 1).setWidth 32 <<< 20) ||| ((x.extractLsb' 12 8).setWidth 32 <<< 12) |||
      (rd.setWidth 32 <<< 7) ||| opcode.setWidth 32 = jType x rd opcode := by
  rw [BitVec.or_assoc, shiftLeft_or_setWidth, BitVec.or_assoc, shiftLeft_or_setWidth (n := 12),
    BitVec.or_assoc, shiftLeft_or_setWidth (n := 20), BitVec.or_assoc,
    shiftLeft_or_setWidth (n := 21), shiftLeft_or_setWidth (n := 31)]
  simp only [jType, BitVec.append_assoc, setWidth_eq, BitVec.cast_eq]

theorem encodeJType_ok_iff :
    encodeJType opcode rd imm = .ok w ↔
      imm % 2 = 0 ∧ signedBitsFit imm 21 = true ∧ w = jType (ofInt 21 imm) rd opcode := by
  have hfield (start len : ℕ) (h : start + len ≤ 32) :=
    setWidth_ushiftRight_and_mask (ofInt 21 imm) h
  have h₁ := hfield 20 1 (by omega)
  have h₂ := hfield 1 10 (by omega)
  have h₃ := hfield 11 1 (by omega)
  have h₄ := hfield 12 8 (by omega)
  norm_num at h₁ h₂ h₃ h₄
  by_cases heven : imm % 2 = 0
  · simp only [encodeJType, heven, ne_eq, not_true, if_false, true_and]
    rw [encodeSignedBits_bind_ok_iff (by omega), h₁, h₂, h₃, h₄, jType_eq]
  · simp [encodeJType, heven]

end Words

/-! ### Executing the words -/

section Execution

variable {value hi lo : ℤ} {s : State} {m : Memory}

theorem exec_encodeBType (h : encodeBType 0x63#7 funct3 rs1 rs2 imm = .ok w) :
    exec w s = (branchTaken funct3 (s.get rs1) (s.get rs2)).map fun taken ↦
      s.jump (if taken then s.pc + ofInt 64 imm else s.pc + 4#64) := by
  obtain ⟨heven, hfit, rfl⟩ := encodeBType_ok_iff.1 h
  obtain ⟨hlo, hhi⟩ := signedBitsFit_iff.1 hfit
  rw [exec_branch (extractLsb'_ofInt_eq_zero (by omega) heven), signExtend_ofInt (by omega) hlo hhi]

theorem exec_encodeJType (h : encodeJType 0x6f#7 rd imm = .ok w) :
    exec w s = some ((s.jump (s.pc + ofInt 64 imm)).set rd (s.pc + 4#64)) := by
  obtain ⟨heven, hfit, rfl⟩ := encodeJType_ok_iff.1 h
  obtain ⟨hlo, hhi⟩ := signedBitsFit_iff.1 hfit
  rw [exec_jal (extractLsb'_ofInt_eq_zero (by omega) heven), signExtend_ofInt (by omega) hlo hhi]

/-- **The halves recombine.** Both halves are in range of their fields, and add up to the value. -/
theorem exists_splitHiLo (hfits : liFitsLuiAddiRv64 value = true) :
    ∃ hi lo, splitHiLo value = .ok (hi, lo) ∧ -2 ^ 19 ≤ hi ∧ hi < 2 ^ 19 ∧ -2 ^ 11 ≤ lo ∧
      lo < 2 ^ 11 ∧ hi * 2 ^ 12 + lo = value := by
  have hshift : (value + 0x800) >>> (12 : ℕ) = (value + 0x800) / 4096 :=
    Int.shiftRight_eq_div_pow _ _
  have hshl (i : ℤ) : i <<< (12 : ℕ) = i * 4096 := Int.shiftLeft_eq _ _
  have hrange : -0x80000 ≤ (value + 0x800) / 4096 ∧ (value + 0x800) / 4096 ≤ 0x7ffff := by
    rw [liFitsLuiAddiRv64, hshift] at hfits
    split at hfits
    · simpa using hfits
    · simp at hfits
  have hlow : (decide (-2048 ≤ value - (value + 0x800) / 4096 * 4096) &&
      decide (value - (value + 0x800) / 4096 * 4096 ≤ 2047)) = true := by
    rw [and_eq_true, decide_eq_true_eq, decide_eq_true_eq]
    omega
  refine ⟨(value + 0x800) / 4096, value - (value + 0x800) / 4096 * 4096, ?_, by omega⟩
  simp only [splitHiLo, hfits, hshift, hshl, hlow]
  rfl

theorem relativeOffset_ok {pc target : ℕ} (h : relativeOffset pc target = .ok value) :
    value = target - pc :=
  (ite_ok_iff.1 h).2.symm

/-- A displacement leads from the program counter to the target. -/
theorem ofNat_add_relativeOffset {pc target : ℕ} (h : relativeOffset pc target = .ok value) :
    BitVec.ofNat 64 pc + ofInt 64 value = BitVec.ofNat 64 target := by
  rw [relativeOffset_ok h, ← ofInt_natCast, ← ofInt_natCast, ← ofInt_add]
  congr 1
  omega

variable (h : splitHiLo value = .ok (hi, lo))
include h

theorem splitHiLo_ok :
    -2 ^ 19 ≤ hi ∧ hi < 2 ^ 19 ∧ -2 ^ 11 ≤ lo ∧ lo < 2 ^ 11 ∧ hi * 2 ^ 12 + lo = value := by
  by_cases hfits : liFitsLuiAddiRv64 value = true
  · obtain ⟨hi', lo', hsplit, hhalves⟩ := exists_splitHiLo hfits
    obtain ⟨rfl, rfl⟩ := Prod.mk.inj (ok.inj (h.symm.trans hsplit))
    exact hhalves
  · simp [splitHiLo, hfits] at h

/-- The upper half, as `auipc` leaves it in a register. -/
theorem exec_auipc_hi : exec (encodeUType 0x17#7 rd hi) s =
      some ((s.jump (s.pc + 4#64)).set rd (s.pc + ofInt 64 (hi * 2 ^ 12))) := by
  obtain ⟨hmin, hmax, -⟩ := splitHiLo_ok h
  rw [encodeUType_eq, exec_auipc, signExtend_ofInt_append_zero (by omega) (by omega) (by omega)]

/-- Adding the lower half to the upper one. -/
theorem add_hi_add_lo (x : BitVec 64) :
    x + ofInt 64 (hi * 2 ^ 12) + (ofInt 12 lo).signExtend 64 = x + ofInt 64 value := by
  obtain ⟨-, -, hmin, hmax, hsum⟩ := splitHiLo_ok h
  rw [signExtend_ofInt (by omega) hmin hmax, add_assoc, ← ofInt_add, hsum]

/-- `auipc` and `addi` form an address. -/
theorem run_auipc_addi (hw : encodeIType 0x13#7 rd 0#3 rd lo = .ok w)
    (hm : Holds m s.pc (leBytes (encodeUType 0x17#7 rd hi) ++ leBytes w)) :
    run m 2 s = some ((s.jump (s.pc + 8#64)).set rd (s.pc + ofInt 64 value)) := by
  obtain ⟨-, rfl⟩ := encodeIType_ok_iff.1 hw
  rw [run_two hm (exec_auipc_hi h) (by simp), exec_addi]
  by_cases hrd : rd = 0#5
  · simp [hrd, add_assoc]
  · rw [State.get_set_self hrd, add_hi_add_lo h]
    simp [State.set_jump, add_assoc]

/-- `auipc` and `jalr` jump, to the even address at or below the target. -/
theorem run_auipc_jalr (hw : encodeIType 0x67#7 1#5 0#3 1#5 lo = .ok w)
    (hm : Holds m s.pc (leBytes (encodeUType 0x17#7 1#5 hi) ++ leBytes w)) :
    run m 2 s = some ((s.jump ((s.pc + ofInt 64 value) &&& ~~~1#64)).set 1#5 (s.pc + 8#64)) := by
  obtain ⟨-, rfl⟩ := encodeIType_ok_iff.1 hw
  rw [run_two hm (exec_auipc_hi h) (by simp), exec_jalr,
    State.get_set_self (by decide), add_hi_add_lo h]
  simp [State.set_jump, add_assoc]

end Execution

end CellScript.Assembler
