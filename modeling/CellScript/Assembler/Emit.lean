import CellScript.Assembler.MachineCfg
import CellScript.Library.Elf

/-!
# Emission

The second pass of `codegen/assembler.rs`: the bytes of every operation, the start trampoline and
the ELF file around them. The source appends to one output vector per section; here an encoder
returns the bytes it appends.

`vec![0; n]` aborts for lengths above `isize::MAX` and copying into a slice aborts when the range
does not fit. Both are failures of the assembler here, so an accepted text has an ELF file that
exists.
-/

namespace CellScript.Assembler

open Rv64 (Reg Word Byte leBytes)

/-! ### Instructions -/

/-- One encoded word. -/
def emitWord (word : Result Word) : Result (List Byte) := leBytes <$> word

/-- The immediate shifts; the bits above the shift amount select the operation. -/
def emitShift (name : String) (max : ℕ) (opcode : BitVec 7) (funct3 : BitVec 3) (upper : ℕ)
    (rd rs1 : Reg) (shamt : ℤ) : Result (List Byte) :=
  if 0 ≤ shamt ∧ shamt ≤ max then
    emitWord (encodeIType opcode rd funct3 rs1 (upper ||| shamt.toNat : ℕ))
  else .error (.new s!"{name} shift amount must be in 0..={max}")

def encodeAddressSequence (rd : Reg) (pc target : ℕ) : Result (List Byte) := do
  let (hi, lo) ← splitHiLo (← relativeOffset pc target)
  let addi ← encodeIType 0x13#7 rd 0b000#3 rd lo
  return leBytes (encodeUType 0x17#7 rd hi) ++ leBytes addi

def encodeCallSequence (pc target : ℕ) : Result (List Byte) := do
  let (hi, lo) ← splitHiLo (← relativeOffset pc target)
  let jalr ← encodeIType 0x67#7 1#5 0b000#3 1#5 lo
  return leBytes (encodeUType 0x17#7 1#5 hi) ++ leBytes jalr

def encodeJump (pc target : ℕ) : Result (List Byte) := do
  emitWord (encodeJType 0x6f#7 0#5 (← relativeOffset pc target))

/-- The opposite condition has the lowest bit of the function code flipped. -/
def inverseBranchFunct3 (funct3 : BitVec 3) : BitVec 3 :=
  match funct3 with
  | 0b000#3 => 0b001#3
  | 0b001#3 => 0b000#3
  | 0b100#3 => 0b101#3
  | 0b101#3 => 0b100#3
  | 0b110#3 => 0b111#3
  | 0b111#3 => 0b110#3
  | other => other

/-- A branch that reaches its target itself. -/
def encodeShortBranch (funct3 : BitVec 3) (rs1 rs2 : Reg) (pc target : ℕ) : Result (List Byte) := do
  emitWord (encodeBType 0x63#7 funct3 rs1 rs2 (← relativeOffset pc target))

/-- The inverse branch over a jump. -/
def encodeRelaxedBranch (funct3 : BitVec 3) (rs1 rs2 : Reg) (pc target : ℕ) :
    Result (List Byte) := do
  let skip ← encodeBType 0x63#7 (inverseBranchFunct3 funct3) rs1 rs2 8
  let jump ← encodeJType 0x6f#7 0#5 (← relativeOffset (pc + 4) target)
  return leBytes skip ++ leBytes jump

def encodeConditionalBranch (rs1 rs2 : Reg) (label : String) (funct3 : BitVec 3) (pc : ℕ)
    (parsed : ParsedAssembly) (layout : SectionLayout) (relaxedBranch : Bool) :
    Result (List Byte) := do
  let target ← parsed.symbolAddress label layout
  if relaxedBranch then encodeRelaxedBranch funct3 rs1 rs2 pc target
  else encodeShortBranch funct3 rs1 rs2 pc target

def encodeInstruction (inst : Instruction) (pc : ℕ) (parsed : ParsedAssembly)
    (layout : SectionLayout) (relaxedBranch : Bool) : Result (List Byte) :=
  match inst with
  | .addi rd rs1 imm => emitWord (encodeIType 0x13#7 rd 0b000#3 rs1 imm)
  | .add rd rs1 rs2 => emitWord (.ok (encodeRType 0x33#7 rd 0b000#3 rs1 rs2 0b0000000#7))
  | .sub rd rs1 rs2 => emitWord (.ok (encodeRType 0x33#7 rd 0b000#3 rs1 rs2 0b0100000#7))
  | .and rd rs1 rs2 => emitWord (.ok (encodeRType 0x33#7 rd 0b111#3 rs1 rs2 0b0000000#7))
  | .andi rd rs1 imm => emitWord (encodeIType 0x13#7 rd 0b111#3 rs1 imm)
  | .or rd rs1 rs2 => emitWord (.ok (encodeRType 0x33#7 rd 0b110#3 rs1 rs2 0b0000000#7))
  | .xor rd rs1 rs2 => emitWord (.ok (encodeRType 0x33#7 rd 0b100#3 rs1 rs2 0b0000000#7))
  | .mul rd rs1 rs2 => emitWord (.ok (encodeRType 0x33#7 rd 0b000#3 rs1 rs2 0b0000001#7))
  | .mulhu rd rs1 rs2 => emitWord (.ok (encodeRType 0x33#7 rd 0b011#3 rs1 rs2 0b0000001#7))
  | .div rd rs1 rs2 => emitWord (.ok (encodeRType 0x33#7 rd 0b100#3 rs1 rs2 0b0000001#7))
  | .divu rd rs1 rs2 => emitWord (.ok (encodeRType 0x33#7 rd 0b101#3 rs1 rs2 0b0000001#7))
  | .rem rd rs1 rs2 => emitWord (.ok (encodeRType 0x33#7 rd 0b110#3 rs1 rs2 0b0000001#7))
  | .remu rd rs1 rs2 => emitWord (.ok (encodeRType 0x33#7 rd 0b111#3 rs1 rs2 0b0000001#7))
  | .slt rd rs1 rs2 => emitWord (.ok (encodeRType 0x33#7 rd 0b010#3 rs1 rs2 0b0000000#7))
  | .sltu rd rs1 rs2 => emitWord (.ok (encodeRType 0x33#7 rd 0b011#3 rs1 rs2 0b0000000#7))
  | .sgt rd rs1 rs2 => emitWord (.ok (encodeRType 0x33#7 rd 0b010#3 rs2 rs1 0b0000000#7))
  | .xori rd rs1 imm => emitWord (encodeIType 0x13#7 rd 0b100#3 rs1 imm)
  | .seqz rd rs => emitWord (encodeIType 0x13#7 rd 0b011#3 rs 1)
  | .snez rd rs => emitWord (.ok (encodeRType 0x33#7 rd 0b011#3 0#5 rs 0b0000000#7))
  | .neg rd rs => emitWord (.ok (encodeRType 0x33#7 rd 0b000#3 0#5 rs 0b0100000#7))
  | .ld rd rs1 imm => emitWord (encodeIType 0x03#7 rd 0b011#3 rs1 imm)
  | .lbu rd rs1 imm => emitWord (encodeIType 0x03#7 rd 0b100#3 rs1 imm)
  | .sb rs2 rs1 imm => emitWord (encodeSType 0x23#7 0b000#3 rs1 rs2 imm)
  | .sh rs2 rs1 imm => emitWord (encodeSType 0x23#7 0b001#3 rs1 rs2 imm)
  | .sw rs2 rs1 imm => emitWord (encodeSType 0x23#7 0b010#3 rs1 rs2 imm)
  | .sd rs2 rs1 imm => emitWord (encodeSType 0x23#7 0b011#3 rs1 rs2 imm)
  | .slli rd rs1 shamt => emitShift "slli" 63 0x13#7 0b001#3 0 rd rs1 shamt
  | .srai rd rs1 shamt => emitShift "srai" 63 0x13#7 0b101#3 (0b0100000 <<< 5) rd rs1 shamt
  | .srli rd rs1 shamt => emitShift "srli" 63 0x13#7 0b101#3 0 rd rs1 shamt
  | .rori rd rs1 shamt => emitShift "rori" 63 0x13#7 0b101#3 (0b011000 <<< 6) rd rs1 shamt
  | .roriw rd rs1 shamt => emitShift "roriw" 31 0x1b#7 0b101#3 (0b0110000 <<< 5) rd rs1 shamt
  | .sll rd rs1 rs2 => emitWord (.ok (encodeRType 0x33#7 rd 0b001#3 rs1 rs2 0b0000000#7))
  | .srl rd rs1 rs2 => emitWord (.ok (encodeRType 0x33#7 rd 0b101#3 rs1 rs2 0b0000000#7))
  | .sra rd rs1 rs2 => emitWord (.ok (encodeRType 0x33#7 rd 0b101#3 rs1 rs2 0b0100000#7))
  | .li rd imm => encodeLiSequence rd imm
  | .la rd label => do encodeAddressSequence rd pc (← parsed.symbolAddress label layout)
  | .call label => do encodeCallSequence pc (← parsed.symbolAddress label layout)
  | .jump label => do encodeJump pc (← parsed.symbolAddress label layout)
  | .ret => emitWord (encodeIType 0x67#7 0#5 0b000#3 1#5 0)
  | .ecall => emitWord (.ok encodeEcall)
  | branch =>
    match conditionalBranchParts branch with
    | some (rs1, rs2, label, funct3) =>
      encodeConditionalBranch rs1 rs2 label funct3 pc parsed layout relaxedBranch
    | none => .error (.new "conditional branch parts")

/-! ### Sections -/

def padToAlignment (out : List Byte) (align : ℕ) : List Byte :=
  out ++ replicate (paddingFor out.length align) 0#8

/-- One operation, appended to what the section holds already. -/
def encodeOp (parsed : ParsedAssembly) (k : SectionKind) (layout : SectionLayout) (baseBias : ℕ)
    (opIndex : ℕ) (out : List Byte) (op : LocatedAsmOp) : Result (List Byte) :=
  match op.op with
  | .label _ => .ok out
  | .word word => .ok (out ++ leBytes word)
  | .byte byte => .ok (out ++ [byte])
  | .ascii bytes => .ok (out ++ bytes)
  | .align bytes => .ok (padToAlignment out bytes)
  | .instruction inst => op.provenance.attach do
    if out.length < baseBias then
      throw (.new "assembly output offset is smaller than section base bias")
    let pc := layout.base k + (out.length - baseBias)
    let bytes ← encodeInstruction inst pc parsed layout
      (decide (k = .text ∧ opIndex ∈ parsed.relaxedTextBranches))
    return out ++ bytes

def encodeOps (parsed : ParsedAssembly) (k : SectionKind) (layout : SectionLayout)
    (baseBias : ℕ) : ℕ → List Byte → List LocatedAsmOp → Result (List Byte)
  | _, out, [] => .ok out
  | opIndex, out, op :: ops => do
    let out ← encodeOp parsed k layout baseBias opIndex out op
    encodeOps parsed k layout baseBias (opIndex + 1) out ops

def encodeSection (parsed : ParsedAssembly) (k : SectionKind) (out : List Byte)
    (layout : SectionLayout) (baseBias : ℕ) : Result (List Byte) :=
  encodeOps parsed k layout baseBias 0 out (parsed.section_ k).ops

/-! ### The ELF file -/

open Elf (leNat)

def elfHeaderSize : ℕ := 64

def elfProgramHeaderSize : ℕ := 56

def elfSectionHeaderSize : ℕ := 64

def elfSegmentAlign : ℕ := 0x80

def elfPfX : ℕ := 1

def elfPfR : ℕ := 4

def exitSyscallNumber : ℤ := 93

/-- The names `.text`, `.rodata` and `.shstrtab`, each ended by a zero byte, after an empty name. -/
def elfSectionNames : List Byte :=
  ('\x00' :: (".text".toList ++ '\x00' :: (".rodata".toList ++ '\x00' ::
    (".shstrtab".toList ++ ['\x00'])))).flatMap utf8

def zeros (n : ℕ) : List Byte := replicate n 0#8

def writeElfHeader (entry programHeaderCount sectionHeaderOffset sectionHeaderCount
    sectionNameIndex : ℕ) : List Byte :=
  [0x7f#8, 0x45#8, 0x4c#8, 0x46#8, 2#8, 1#8, 1#8] ++ zeros 9 ++ leNat 2 2 ++ leNat 2 243 ++
    leNat 4 1 ++ leNat 8 entry ++ leNat 8 elfHeaderSize ++ leNat 8 sectionHeaderOffset ++
    leNat 4 0 ++ leNat 2 elfHeaderSize ++ leNat 2 elfProgramHeaderSize ++
    leNat 2 programHeaderCount ++ leNat 2 elfSectionHeaderSize ++ leNat 2 sectionHeaderCount ++
    leNat 2 sectionNameIndex

def writeSectionHeader (nameOffset sectionType flags address offset size alignment : ℕ) :
    List Byte :=
  leNat 4 nameOffset ++ leNat 4 sectionType ++ leNat 8 flags ++ leNat 8 address ++
    leNat 8 offset ++ leNat 8 size ++ zeros 8 ++ leNat 8 alignment ++ zeros 8

def writeProgramHeader (flags offset vaddr fileSize memorySize : ℕ) : List Byte :=
  leNat 4 1 ++ leNat 4 flags ++ leNat 8 offset ++ leNat 8 vaddr ++ leNat 8 vaddr ++
    leNat 8 fileSize ++ leNat 8 memorySize ++ leNat 8 elfSegmentAlign

/-- Overwrite a range of a buffer. -/
def copyFromSlice (buffer : List Byte) (start : ℕ) (bytes : List Byte) : Result (List Byte) :=
  if start + bytes.length ≤ buffer.length then
    .ok (buffer.take start ++ bytes ++ buffer.drop (start + bytes.length))
  else .error (.new "range end index out of range for slice")

def elfSegmentFileOffset : ℕ := alignUp (elfHeaderSize + elfProgramHeaderSize) elfSegmentAlign

/-- What follows the load segment: the section names and the section headers. -/
def writeElfTrailer (layout : SectionLayout) (loadSegmentFileSize sectionNamesOffset
    sectionHeaderOffset textSize rodataSize : ℕ) : List Byte :=
  zeros (sectionNamesOffset - loadSegmentFileSize) ++
    elfSectionNames ++
    zeros (sectionHeaderOffset - sectionNamesOffset - elfSectionNames.length) ++
    zeros elfSectionHeaderSize ++
    writeSectionHeader 1 1 (0x2 ||| 0x4) layout.textBase elfSegmentFileOffset textSize 4 ++
    writeSectionHeader 7 1 0x2 layout.rodataBase (elfSegmentFileOffset + layout.rodataOffset)
      rodataSize 8 ++
    writeSectionHeader 15 3 0 0 sectionNamesOffset elfSectionNames.length 1

/-- The file around the two sections' bytes. -/
def writeElf (layout : SectionLayout) (textBytes rodataBytes : List Byte) : Result (List Byte) := do
  let segmentFilePayloadSize := layout.rodataOffset + rodataBytes.length
  if layout.textBase < elfSegmentFileOffset then
    throw (.new "ELF text base is smaller than the load segment file offset")
  let loadSegmentVaddr := layout.textBase - elfSegmentFileOffset
  let loadSegmentFileSize := elfSegmentFileOffset + segmentFilePayloadSize
  let sectionNamesOffset := alignUp loadSegmentFileSize 8
  let sectionHeaderOffset := alignUp (sectionNamesOffset + elfSectionNames.length) 8
  let elfSize := sectionHeaderOffset + 4 * elfSectionHeaderSize
  if elfSize > 2 ^ 63 - 1 then
    throw (.new "capacity overflow")
  let segment ← copyFromSlice (zeros segmentFilePayloadSize) 0 textBytes
  let segment ← copyFromSlice segment layout.rodataOffset rodataBytes
  return writeElfHeader layout.textBase 1 sectionHeaderOffset 4 3 ++
    writeProgramHeader (elfPfR ||| elfPfX) 0 loadSegmentVaddr loadSegmentFileSize
      loadSegmentFileSize ++
    zeros (elfSegmentFileOffset - elfHeaderSize - elfProgramHeaderSize) ++
    segment ++
    writeElfTrailer layout loadSegmentFileSize sectionNamesOffset sectionHeaderOffset
      textBytes.length rodataBytes.length

/-! ### The assembler -/

/-- The errors of a stage that have no code yet get the stage's. -/
def withCode {α : Type} (code : DiagnosticCode) : Result α → Result α :=
  Except.mapError fun error ↦ error.withCodegenCode code

def entryRequiresExplicitParameterAbi (lines : List String) (entryLabel : String) : Bool :=
  let marker := s!"# cellscript entry abi: {entryLabel} requires-explicit-parameter-abi"
  lines.any fun line ↦ trim line.toList == marker.toList

/-- The call of the entry point, or an exit with its error code, and the exit after it. -/
def encodeTrampoline (lines : List String) (parsed : ParsedAssembly) (layout : SectionLayout)
    (entryLabel : String) : Result (List Byte) := do
  let start ←
    if entryRequiresExplicitParameterAbi lines entryLabel then encodeFixedLiSequence 10#5 25
    else do encodeCallSequence layout.textBase (← parsed.symbolAddress entryLabel layout)
  let exit ← encodeFixedLiSequence 17#5 exitSyscallNumber
  return start ++ exit ++ leBytes encodeEcall

def assembleElfInternal (lines : List String) : Result (List Byte) := do
  let plan ← withCode .E2201 (MachineLayoutPlan.build lines)
  let entryLabel ← okOr (.new "ELF target requires at least one action or lock entry point")
    plan.parsed.entryLabel
  let trampoline ← encodeTrampoline lines plan.parsed plan.layout entryLabel
  let textBytes ← withCode .E2202
    (encodeSection plan.parsed .text trampoline plan.layout startTrampolineSize)
  let rodataBytes ← withCode .E2202 (encodeSection plan.parsed .rodata [] plan.layout 0)
  writeElf plan.layout textBytes rodataBytes

/-- The labels of the text. -/
def definedLabels (lines : List String) : List String :=
  lines.filterMap fun line ↦
    (stripComment line).bind fun clean ↦
      (stripSuffix ":" clean).map fun label ↦ String.ofList (trim label)

/-- The call targets of the text, each with its first line. -/
def calledLabels (lines : List String) : List (String × GeneratedAssemblyProvenance) :=
  lines.zipIdx.foldl (fun calls (line, lineIndex) ↦
    match stripComment line with
    | none => calls
    | some clean =>
      if (stripSuffix ":" clean).isSome then calls
      else
        match stripPrefix "call " clean with
        | none => calls
        | some target =>
          let target := String.ofList (trim target)
          if target = "" ∨ (calls.lookup target).isSome then calls
          else calls ++ [(target, ⟨lineIndex + 1, String.ofList clean, .text, lineIndex⟩)]) []

def rejectUnresolvedCalls (lines : List String) : Result Unit :=
  let labels := definedLabels lines
  let missing := ((calledLabels lines).filter fun (target, _) ↦ target ∉ labels).mergeSort
    fun a b ↦ decide (a.1 ≤ b.1)
  match missing with
  | [] => .ok ()
  | (_, provenance) :: _ =>
    let targets := ", ".intercalate (missing.map Prod.fst)
    provenance.attach (.error (.new
      (s!"unresolved call target(s) in generated assembly: {targets}; production ELF emission " ++
        "requires all call targets to be lowered")))

def assembleGeneratedElf (lines : List String) : Result (List Byte) := do
  withCode .E2200 (rejectUnresolvedCalls lines)
  assembleElfInternal lines

end CellScript.Assembler
