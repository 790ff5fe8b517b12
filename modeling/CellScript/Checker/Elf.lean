import CellScript.Names
import CellScript.Library.Fallible
import CellScript.Library.Rv64

/-!
# The artifact checker's view of `.text`

The instruction scan of `cellscript-artifact-checker/src/elf.rs`: which words the checker admits,
which stack adjustments and system calls it records, and which control flow it recovers. The scan
reads the section's bytes, one little-endian word after another, and looks back at the words before
the current one for the two-word forms.

Addresses are natural numbers. The source computes them in `u64`, where the section's end has been
checked before; what saturates there saturates here.
-/

namespace CellScript.Checker

open Rv64 (Reg Word Byte ofLeBytes)
open Rv64

/-! ### Errors -/

inductive ElfErrorKind
  | truncated
  | invalidInstruction
  | invalidBranchTarget
  deriving DecidableEq, Repr

structure ElfParseError where
  kind : ElfErrorKind
  message : String
  deriving DecidableEq, Repr

/-- The format `{:#x}`. -/
def hex (n : ℕ) : String := "0x" ++ String.ofList (Nat.toDigits 16 n)

/-- The format `{:#010x}`. -/
def hexWord (w : Word) : String :=
  let digits := Nat.toDigits 16 w.toNat
  "0x" ++ String.ofList (replicate (8 - digits.length) '0' ++ digits)

/-! ### Recovered data -/

structure MachineRange where
  start : ℕ
  stop : ℕ
  deriving DecidableEq, Repr

def MachineRange.contains (range : MachineRange) (address : ℕ) : Bool :=
  decide (range.start ≤ address) && decide (address < range.stop)

inductive DecodedControlFlowKind
  | conditionalBranch
  | directJump
  deriving DecidableEq, Repr

structure DecodedControlFlow where
  address : ℕ
  target : ℕ
  kind : DecodedControlFlowKind
  deriving DecidableEq, Repr

structure DecodedInstruction where
  address : ℕ
  word : Word
  deriving DecidableEq, Repr

structure StackAdjustment where
  address : ℕ
  delta : ℤ
  deriving DecidableEq, Repr

structure DecodedText where
  instructions : List DecodedInstruction := []
  stackAdjustments : List StackAdjustment := []
  syscallAddresses : List ℕ := []
  controlFlow : List DecodedControlFlow := []
  deriving DecidableEq, Repr

/-! ### Words and immediates -/

/-- The words of the section; a rest of fewer than four bytes is dropped. -/
def textWords : List Byte → List Word
  | b₀ :: b₁ :: b₂ :: b₃ :: rest => ofLeBytes b₀ b₁ b₂ b₃ :: textWords rest
  | _ => []

def readU32 (bytes : List Byte) (offset : ℕ) : Except ElfParseError Word :=
  match bytes.drop offset with
  | b₀ :: b₁ :: b₂ :: b₃ :: _ => .ok (ofLeBytes b₀ b₁ b₂ b₃)
  | _ => .error ⟨.truncated, "ELF u32 field is truncated"⟩

def instructionWord (bytes : List Byte) (index : ℕ) : Except ElfParseError Word :=
  readU32 bytes (index * 4)

def funct7 (w : Word) : BitVec 7 := w.extractLsb' 25 7

def funct6 (w : Word) : BitVec 6 := w.extractLsb' 26 6

/-- Shift the sign bit to the top and back, arithmetically. -/
def signExtend (value : Word) (bits : ℕ) : ℤ :=
  let shift := 64 - bits
  ((value.setWidth 64 <<< shift).sshiftRight shift).toInt

/-- Saturating addition of `i64`. -/
def saturatingAdd (a b : ℤ) : ℤ := max (-2 ^ 63) (min (2 ^ 63 - 1) (a + b))

/-- Saturating addition of a signed offset to an address. -/
def addSigned (base : ℕ) (offset : ℤ) : ℕ :=
  if 0 ≤ offset then min (base + offset.toNat) (2 ^ 64 - 1) else base - offset.natAbs

def branchTarget (address : ℕ) (word : Word) : ℕ :=
  let immediate := (((word >>> 31) &&& 0x1#32) <<< 12) ||| (((word >>> 7) &&& 0x1#32) <<< 11) |||
    (((word >>> 25) &&& 0x3f#32) <<< 5) ||| (((word >>> 8) &&& 0xf#32) <<< 1)
  addSigned address (signExtend immediate 13)

def jalTarget (address : ℕ) (word : Word) : ℕ :=
  let immediate := (((word >>> 31) &&& 0x1#32) <<< 20) ||| (((word >>> 12) &&& 0xff#32) <<< 12) |||
    (((word >>> 20) &&& 0x1#32) <<< 11) ||| (((word >>> 21) &&& 0x3ff#32) <<< 1)
  addSigned address (signExtend immediate 21)

/-! ### Admitted words -/

def opcodeWritesRd (opcode : BitVec 7) : Bool :=
  opcode ∈ [0x03#7, 0x13#7, 0x17#7, 0x1b#7, 0x33#7, 0x37#7, 0x3b#7, 0x67#7, 0x6f#7]

/-- The instructions the generator may emit. -/
def instructionIsAllowed (word : Word) : Bool :=
  let opcode := opcode word
  let funct3 := funct3 word
  if opcode = 0x03#7 then decide (funct3 ∈ [3#3, 4#3])
  else if opcode = 0x13#7 then
    if funct3 ∈ [0#3, 4#3, 6#3, 7#3] then true
    else if funct3 = 1#3 then decide (funct6 word = 0#6)
    -- `seqz` is `sltiu` with the immediate 1
    else if funct3 = 3#3 then decide (word >>> 20 = 1#32)
    else if funct3 = 5#3 then decide (funct6 word ∈ [0#6, 0x10#6, 0x18#6])
    else false
  else if opcode = 0x17#7 ∨ opcode = 0x37#7 then true
  else if opcode = 0x6f#7 then decide (rd word ∈ [0#5, 1#5])
  else if opcode = 0x1b#7 then
    if funct3 = 0#3 then true
    else if funct3 = 1#3 then decide (funct7 word = 0#7)
    else if funct3 = 5#3 then decide (funct7 word ∈ [0#7, 0x20#7, 0x30#7])
    else false
  else if opcode = 0x23#7 then decide (funct3 ∈ [0#3, 1#3, 2#3, 3#3])
  else if opcode = 0x33#7 then
    if funct7 word ∈ [0#7, 1#7] then true
    else if funct7 word = 0x20#7 then decide (funct3 ∈ [0#3, 5#3])
    else false
  else if opcode = 0x3b#7 then
    if funct7 word = 0#7 then decide (funct3 ∈ [0#3, 1#3, 5#3])
    else if funct7 word = 1#7 then decide (funct3 ∈ [0#3, 4#3, 5#3, 6#3, 7#3])
    else if funct7 word = 0x20#7 then decide (funct3 ∈ [0#3, 5#3])
    else false
  else if opcode = 0x63#7 then decide (funct3 ∉ [2#3, 3#3])
  else if opcode = 0x67#7 then decide (funct3 = 0#3)
  else if opcode = 0x73#7 then decide (word = 0x00000073#32)
  else false

/-! ### Stack adjustments -/

/-- The constant that the one or two words before an index leave in a register. -/
def precedingFrameConstant (bytes : List Byte) (index : ℕ) (register : Reg) : Option ℤ := do
  if index = 0 ∨ register = 0#5 ∨ register = 2#5 then none
  else
    let addi ← (instructionWord bytes (index - 1)).toOption
    -- the assembler omits an `addi` of zero after `lui`
    if opcode addi = 0x37#7 ∧ rd addi = register then
      return signExtend (addi &&& 0xfffff000#32) 32
    else if index < 2 then none
    else
      let lui ← (instructionWord bytes (index - 2)).toOption
      if opcode addi ≠ 0x13#7 ∨ funct3 addi ≠ 0#3 ∨ rd addi ≠ register ∨
          rs1 addi ≠ register ∨ opcode lui ≠ 0x37#7 ∨ rd lui ≠ register then none
      else
        return saturatingAdd (signExtend (lui &&& 0xfffff000#32) 32) (signExtend (addi >>> 20) 12)

/-- The stack adjustment of a word, if it is one; other writes to `sp` are refused. -/
def validateStackPointerWrite (bytes : List Byte) (index : ℕ) (word : Word) (address : ℕ) :
    Except ElfParseError (Option StackAdjustment) :=
  let opcode := opcode word
  if rd word ≠ 2#5 ∨ !opcodeWritesRd opcode then .ok none
  else if opcode = 0x13#7 ∧ funct3 word = 0#3 ∧ rs1 word = 2#5 then
    .ok (some ⟨address, signExtend (word >>> 20) 12⟩)
  else if opcode = 0x33#7 ∧ funct3 word = 0#3 ∧ funct7 word = 0#7 ∧ rs1 word = 2#5 then
    match precedingFrameConstant bytes index (rs2 word) with
    | some delta => .ok (some ⟨address, delta⟩)
    | none => .error ⟨.invalidInstruction, s!"stack adjustment at {hex address} does not use an " ++
        "immediately materialised bounded constant"⟩
  else .error ⟨.invalidInstruction,
    s!"instruction at {hex address} writes sp outside the canonical frame-adjustment forms"⟩

/-! ### The scan -/

/-- The word of `ret`. -/
def retWord : Word := 0x00008067#32

/-- The target of an `auipc`/`jalr` pair. -/
def decodeCallTarget (bytes : List Byte) (index : ℕ) (word : Word) (address : ℕ) :
    Except ElfParseError ℕ := do
  if rd word ≠ 1#5 ∨ rs1 word ≠ 1#5 ∨ funct3 word ≠ 0#3 ∨ index = 0 then
    throw ⟨.invalidInstruction,
      s!"jalr at {hex address} is neither ret nor a canonical auipc/jalr call"⟩
  let previous ← instructionWord bytes (index - 1)
  if opcode previous ≠ 0x17#7 ∨ rd previous ≠ 1#5 then
    throw ⟨.invalidInstruction,
      s!"jalr call at {hex address} is not immediately preceded by 'auipc ra'"⟩
  let high := signExtend (previous &&& 0xfffff000#32) 32
  let low := signExtend (word >>> 20) 12
  let target := addSigned (address - 4) (saturatingAdd high low)
  -- the lowest bit is cleared
  return target - target % 2

/-- Where a word transfers control to, if it does so other than by `ret`. -/
def wordTarget (bytes : List Byte) (index : ℕ) (word : Word) (address : ℕ) :
    Except ElfParseError (Option (ℕ × DecodedControlFlowKind)) :=
  let opcode := opcode word
  if opcode = 0x63#7 then .ok (some (branchTarget address word, .conditionalBranch))
  else if opcode = 0x6f#7 then .ok (some (jalTarget address word, .directJump))
  else if opcode = 0x67#7 ∧ word ≠ retWord then do
    return some (← decodeCallTarget bytes index word address, .directJump)
  else .ok none

/-- The control flow a word adds, after the check of its target. -/
def checkedFlow (textRange : MachineRange) (address : ℕ) :
    Option (ℕ × DecodedControlFlowKind) → Except ElfParseError (List DecodedControlFlow)
  | none => .ok []
  | some (target, kind) =>
    if target % 4 ≠ 0 ∨ !textRange.contains target then
      .error ⟨.invalidBranchTarget,
        s!"control-flow target {hex target} from {hex address} is outside aligned .text"⟩
    else .ok [⟨address, target, kind⟩]

/-- What the scan carries: the text so far, and whether an `auipc ra` has not been consumed. -/
structure ScanState extends DecodedText where
  unconsumedAuipcRa : Bool := false
  deriving DecidableEq, Repr

/-- The marker after a word. -/
def nextUnconsumed (word : Word) (unconsumed : Bool) : Bool :=
  if opcode word = 0x17#7 ∧ rd word = 1#5 then true
  else if (opcode word = 0x67#7 ∧ rs1 word = 1#5) ∨ rd word = 1#5 then false
  else unconsumed

/-- The scan after an admitted word. -/
def ScanState.record (s : ScanState) (address : ℕ) (word : Word)
    (adjustment : Option StackAdjustment) (flows : List DecodedControlFlow) : ScanState where
  instructions := s.instructions ++ [⟨address, word⟩]
  stackAdjustments := s.stackAdjustments ++ adjustment.toList
  syscallAddresses := s.syscallAddresses ++ if word = 0x00000073#32 then [address] else []
  controlFlow := s.controlFlow ++ flows
  unconsumedAuipcRa := nextUnconsumed word s.unconsumedAuipcRa

/-- One word of the scan. -/
def scanWord (bytes : List Byte) (base : ℕ) (textRange : MachineRange) (index : ℕ) (s : ScanState)
    (word : Word) : Except ElfParseError ScanState := do
  let address := base + index * 4
  if !instructionIsAllowed word then
    throw ⟨.invalidInstruction, s!"instruction {hexWord word} at {hex address} is outside the " ++
      "CellScript RV64 allowlist"⟩
  let adjustment ← validateStackPointerWrite bytes index word address
  if word = retWord ∧ s.unconsumedAuipcRa = true then
    throw ⟨.invalidInstruction, s!"ret at {hex address} returns to an unpaired auipc-defined ra"⟩
  let flows ← checkedFlow textRange address (← wordTarget bytes index word address)
  return s.record address word adjustment flows

def scanWords (bytes : List Byte) (base : ℕ) (textRange : MachineRange) :
    ℕ → ScanState → List Word → Except ElfParseError ScanState
  | _, s, [] => .ok s
  | index, s, word :: words => do
    let s ← scanWord bytes base textRange index s word
    scanWords bytes base textRange (index + 1) s words

def validateInstructions (bytes : List Byte) (base : ℕ) (textRange : MachineRange) :
    Except ElfParseError DecodedText := do
  let s ← scanWords bytes base textRange 0 {} (textWords bytes)
  return s.toDecodedText

/-! ### The text part of `parse_elf` -/

/-- Whether control flow enters the second word of a PC-relative call. -/
def entersCall (address : ℕ) (instructions : List DecodedInstruction) (flow : DecodedControlFlow) :
    Bool :=
  match instructions[(flow.target - address) / 4]? with
  | some target => decide (opcode target.word = 0x67#7 ∧ target.word ≠ retWord)
  | none => false

/-- The end of `parse_elf`, from the bytes and the address of `.text`. -/
def parseText (bytes : List Byte) (address : ℕ) : Except ElfParseError DecodedText := do
  let decoded ← validateInstructions bytes address
    ⟨address, min (address + bytes.length) (2 ^ 64 - 1)⟩
  if decoded.controlFlow.any (entersCall address decoded.instructions) then
    throw ⟨.invalidBranchTarget, "control flow enters the second instruction of a PC-relative call"⟩
  return decoded

end CellScript.Checker
