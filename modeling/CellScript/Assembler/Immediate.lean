import CellScript.Assembler.Encoding
import Mathlib.Tactic.Linarith

/-!
# Planning immediates

`codegen/assembler/immediate.rs`: the sequence of one-instruction steps that builds a 64-bit
constant in a register. Layout takes the length of the plan for the size of `li`, and emission
encodes its steps one word each.

The generator `recursive` splits off the low twelve bits, sign-extended, and recurses on the rest
shifted down to its lowest set bit. The rest is closer to zero (`natAbs_rest_lt`), so it terminates.
-/

namespace CellScript.Assembler

/-- The forms of the older planner. -/
inductive LiForm
  /-- `addi rd, zero, imm` for a signed 12-bit immediate -/
  | addi
  /-- `lui rd, imm >> 12` when the low 12 bits are zero -/
  | lui
  /-- `lui` and `addi` -/
  | luiAddi
  /-- byte by byte -/
  | large
  deriving DecidableEq, Repr

/-- The literal as an `i64`. -/
def liSignedI64 (imm : ℤ) : Option ℤ :=
  if decide (-2 ^ 63 ≤ imm) && decide (imm ≤ 2 ^ 63 - 1) then some imm else none

/-- The 64 bits of a literal. -/
def liBits (imm : ℤ) : Result (BitVec 64) :=
  if decide (imm < -2 ^ 63) || decide (imm > 2 ^ 64 - 1) then
    .error (.new s!"li immediate '{imm}' does not fit 64 bits")
  else
    .ok (BitVec.ofInt 64 imm)

def liForm (imm : ℤ) : LiForm :=
  match liSignedI64 imm with
  | none => .large
  | some signed =>
    if decide (-2048 ≤ signed) && decide (signed ≤ 2047) then .addi
    else if decide (signed % 4096 = 0) && decide (-0x80000 ≤ signed >>> (12 : ℕ)) &&
        decide (signed >>> (12 : ℕ) ≤ 0x7ffff) then .lui
    else if liFitsLuiAddiRv64 signed then .luiAddi
    else .large

namespace Immediate

inductive Step
  | addFromZero (imm : ℤ)
  | loadUpper (imm : ℤ)
  | shiftLeft (shift : ℕ)
  | add (imm : ℤ)
  | shiftRight (shift : ℕ)
  deriving DecidableEq, Repr

/-- Steps are ordered by constructor and then by operand. -/
def Step.rank : Step → ℕ × ℤ
  | .addFromZero imm => (0, imm)
  | .loadUpper imm => (1, imm)
  | .shiftLeft shift => (2, shift)
  | .add imm => (3, imm)
  | .shiftRight shift => (4, shift)

def Step.lt (a b : Step) : Bool :=
  decide (a.rank.1 < b.rank.1) || (a.rank.1 == b.rank.1 && decide (a.rank.2 < b.rank.2))

/-- The lexicographic order of two plans. -/
def lexLt : List Step → List Step → Bool
  | [], [] => false
  | [], _ :: _ => true
  | _ :: _, [] => false
  | a :: as, b :: bs => a.lt b || (a == b && lexLt as bs)

/-- Plans are compared by length first. -/
def planLt (a b : List Step) : Bool :=
  decide (a.length < b.length) || (a.length == b.length && lexLt a b)

/-- The bytes of a 64-bit value, most significant first. -/
def toBeBytes (bits : BitVec 64) : List (BitVec 8) :=
  [bits.extractLsb' 56 8, bits.extractLsb' 48 8, bits.extractLsb' 40 8, bits.extractLsb' 32 8,
    bits.extractLsb' 24 8, bits.extractLsb' 16 8, bits.extractLsb' 8 8, bits.extractLsb' 0 8]

def legacy (literal : ℤ) (bits : BitVec 64) : Result (List Step) :=
  match liForm literal with
  | .addi => .ok [.addFromZero literal]
  | .lui => .ok [.loadUpper (literal >>> (12 : ℕ))]
  | .luiAddi => do
    let (high, low) ← splitHiLo literal
    return [.loadUpper high, .add low]
  | .large =>
    match toBeBytes bits with
    | [] => .ok []
    | byte :: bytes =>
      .ok (.addFromZero byte.toNat :: bytes.flatMap fun byte ↦ [.shiftLeft 8, .add byte.toNat])

/-- The number of trailing zero bits of an `i64`. -/
def trailingZeros (value : ℤ) : ℕ := (BitVec.ofInt 64 value).ctz.toNat

/-- The value without its sign-extended low twelve bits. -/
def high (value : ℤ) : ℤ := (value - Int.bmod value 4096) >>> (12 : ℕ)

/-- The part `recursive` recurses on is closer to zero. -/
theorem natAbs_rest_lt {value : ℤ} (h : ¬(-2048 ≤ value ∧ value ≤ 2047)) (extra : ℕ) :
    (high value >>> extra).natAbs < value.natAbs := by
  have hlow : -2048 ≤ Int.bmod value 4096 ∧ Int.bmod value 4096 < 2048 :=
    ⟨Int.le_bmod (by omega), Int.bmod_lt (by omega)⟩
  have hhigh : high value = (value - Int.bmod value 4096) / 4096 := Int.shiftRight_eq_div_pow _ _
  calc (high value >>> extra).natAbs
    _ ≤ (high value).natAbs := by
      rw [Int.shiftRight_eq_div_pow]
      exact Int.natAbs_ediv_le_natAbs _ _
    _ < value.natAbs := by omega

def recursive (value : ℤ) : List Step :=
  if _ : -2048 ≤ value ∧ value ≤ 2047 then [.addFromZero value]
  else
    let short : Option (List Step) :=
      if liFitsLuiAddiRv64 value then
        match splitHiLo value with
        | .ok (high, low) => some (.loadUpper high :: if low ≠ 0 then [.add low] else [])
        | .error _ => none
      else none
    let low := Int.bmod value 4096
    let extra := min (trailingZeros (high value)) 51
    let steps := recursive (high value >>> extra) ++
      .shiftLeft (12 + extra) :: if low ≠ 0 then [.add low] else []
    match short with
    | some short => if planLt steps short then steps else short
    | none => steps
termination_by value.natAbs
decreasing_by exact natAbs_rest_lt ‹_› _

/-- One step, if its operand is in range. -/
def evaluateStep (value : Option (BitVec 64)) : Step → Option (BitVec 64)
  | .addFromZero imm =>
    if decide (-2048 ≤ imm) && decide (imm ≤ 2047) then some (BitVec.ofInt 64 imm) else none
  | .loadUpper imm =>
    if decide (-0x80000 ≤ imm) && decide (imm ≤ 0x7ffff) then
      some (BitVec.ofInt 64 (imm <<< (12 : ℕ)))
    else none
  | .shiftLeft shift =>
    if decide (1 ≤ shift) && decide (shift ≤ 63) then value.map (fun v : BitVec 64 ↦ v <<< shift)
    else none
  | .add imm =>
    if decide (-2048 ≤ imm) && decide (imm ≤ 2047) then value.map (· + BitVec.ofInt 64 imm)
    else none
  | .shiftRight shift =>
    if decide (1 ≤ shift) && decide (shift ≤ 63) then value.map (fun v : BitVec 64 ↦ v >>> shift)
    else none

/-- The value a plan leaves, if every operand is in range. -/
def evaluate : Option (BitVec 64) → List Step → Option (BitVec 64)
  | value, [] => value
  | value, step :: steps =>
    match evaluateStep value step with
    | none => none
    | some value => evaluate (some value) steps

def plan (literal : ℤ) : Result (List Step) := do
  let bits ← liBits literal
  let fallback ← legacy literal bits
  let candidate := recursive bits.toInt
  let valid := evaluate none candidate == some bits
  let best ←
    if valid && planLt candidate fallback then pure candidate
    else if evaluate none fallback == some bits then pure fallback
    else throw (.new "invalid RV64 immediate plan")
  -- a low-bit mask is all ones shifted right
  let mask : List Step := [.addFromZero (-1), .shiftRight bits.clz.toNat]
  if bits ≠ 0#64 ∧ bits ≠ allOnes 64 ∧ bits &&& (bits + 1#64) = 0#64 ∧
      mask.length < best.length ∧ evaluate none mask = some bits then
    return mask
  else
    return best

end Immediate

def liSequenceSize (imm : ℤ) : Result ℕ := do
  let steps ← Immediate.plan imm
  return steps.length * 4

/-! ### Emission -/

open Rv64 (Reg Word Byte)

def encodeLiStep (rd : Reg) : Immediate.Step → Result Word
  | .addFromZero value => encodeIType 0x13#7 rd 0b000#3 0#5 value
  | .loadUpper value => .ok (encodeUType 0x37#7 rd value)
  | .shiftLeft value => encodeIType 0x13#7 rd 0b001#3 rd value
  | .add value => encodeIType 0x13#7 rd 0b000#3 rd value
  | .shiftRight value => encodeIType 0x13#7 rd 0b101#3 rd value

/-- The words of a plan, one after another. -/
def encodeLiSteps (rd : Reg) : List Immediate.Step → Result (List Byte)
  | [] => .ok []
  | step :: steps => do
    let word ← encodeLiStep rd step
    let rest ← encodeLiSteps rd steps
    return Rv64.leBytes word ++ rest

def encodeLiSequence (rd : Reg) (imm : ℤ) : Result (List Byte) := do
  encodeLiSteps rd (← Immediate.plan imm)

def encodeLargeLiSequence (rd : Reg) (bits : BitVec 64) : Result (List Byte) :=
  match Immediate.toBeBytes bits with
  | [] => .ok []
  | byte :: bytes =>
    encodeLiSteps rd (.addFromZero byte.toNat ::
      bytes.flatMap fun byte ↦ [.shiftLeft 8, .add byte.toNat])

/-- The two-instruction form of the start trampoline. -/
def encodeFixedLiSequence (rd : Reg) (imm : ℤ) : Result (List Byte) :=
  match liSignedI64 imm with
  | some signed =>
    if liFitsLuiAddiRv64 signed then do
      let (hi, lo) ← splitHiLo signed
      let addi ← encodeIType 0x13#7 rd 0b000#3 rd lo
      return Rv64.leBytes (encodeUType 0x37#7 rd hi) ++ Rv64.leBytes addi
    else do encodeLargeLiSequence rd (← liBits imm)
  | none => do encodeLargeLiSequence rd (← liBits imm)

variable {bytes : List Byte} {rd : Reg}

theorem length_encodeLiSteps {steps : List Immediate.Step}
    (h : encodeLiSteps rd steps = .ok bytes) : bytes.length = steps.length * 4 := by
  induction steps generalizing bytes with
  | nil =>
    cases h
    rfl
  | cons step steps ih =>
    simp only [encodeLiSteps, bind_ok, pure_ok] at h
    obtain ⟨word, -, rest, hrest, rfl⟩ := h
    rw [length_append, Rv64.length_leBytes, ih hrest, length_cons]
    omega

/-- **One plan for both passes.** What layout reserves for `li` is what emission writes. -/
theorem length_encodeLiSequence {imm : ℤ}
    (h : encodeLiSequence rd imm = .ok bytes) : liSequenceSize imm = .ok bytes.length := by
  rw [encodeLiSequence, bind_ok] at h
  obtain ⟨steps, hplan, hsteps⟩ := h
  rw [liSequenceSize, hplan, length_encodeLiSteps hsteps]
  rfl

end CellScript.Assembler
