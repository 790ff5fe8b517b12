import CellScript.Assembler.Syntax

/-!
# Layout

The first pass of `codegen/assembler.rs`: reading the lines of both sections, giving every operation
its size and every label its offset, and choosing the conditional branches that need the long form.

The choice is made on a conservative layout, in which every conditional branch has the long form;
the text is then read again with exactly the chosen branches long. Both readings run the same loop,
`fromLinesWithBranchMode`, and differ only in the size of conditional branches.

The source keeps the operations and the size of each section in separate variables; here they form
a `Section`. Its hash map of symbols is a list without repeated keys, and its sets are lists.
-/

namespace CellScript.Assembler

open Rv64 (Reg Word Byte)

/-! ### Alignment -/

/-- Alignments are powers of two, so rounding up is masking. -/
def alignUp (value align : ℕ) : ℕ :=
  if align ≤ 1 then value else (value + align - 1) / align * align

def paddingFor (offset align : ℕ) : ℕ := alignUp offset align - offset

/-! ### Sizes -/

structure GeneratedAssemblyProvenance where
  line : ℕ
  text : String
  section_ : SectionKind
  opIndex : ℕ
  deriving DecidableEq, Repr

namespace GeneratedAssemblyProvenance

def diagnostic (p : GeneratedAssemblyProvenance) : GeneratedAssemblyDiagnostic where
  line := p.line
  text := p.text
  section_ :=
    match p.section_ with
    | .text => .text
    | .rodata => .rodata
  opIndex := p.opIndex

/-- The errors of a step, with the line they come from. -/
def attach {α : Type} (p : GeneratedAssemblyProvenance) : Result α → Result α :=
  Except.mapError fun error ↦ error.withGeneratedAssembly p.diagnostic

end GeneratedAssemblyProvenance

structure LocatedAsmOp where
  op : AsmOp
  provenance : GeneratedAssemblyProvenance
  deriving DecidableEq, Repr

inductive BranchSizeMode
  | conservative
  | exact (relaxed : List ℕ)
  deriving DecidableEq, Repr

namespace BranchSizeMode

def relaxedTextBranches : BranchSizeMode → List ℕ
  | .conservative => []
  | .exact branches => branches

def branchSize (mode : BranchSizeMode) (k : SectionKind) (opIndex : ℕ) : ℕ :=
  match mode with
  | .conservative => 8
  | .exact relaxed => if k = .text ∧ opIndex ∈ relaxed then 8 else 4

end BranchSizeMode

/-- The registers, label and function code of a conditional branch. -/
def conditionalBranchParts : Instruction → Option (Reg × Reg × String × BitVec 3)
  | .beq rs1 rs2 label => some (rs1, rs2, label, 0b000#3)
  | .bne rs1 rs2 label => some (rs1, rs2, label, 0b001#3)
  | .blt rs1 rs2 label => some (rs1, rs2, label, 0b100#3)
  | .bge rs1 rs2 label => some (rs1, rs2, label, 0b101#3)
  | .bltu rs1 rs2 label => some (rs1, rs2, label, 0b110#3)
  | .bgeu rs1 rs2 label => some (rs1, rs2, label, 0b111#3)
  | .beqz rs label => some (rs, 0#5, label, 0b000#3)
  | .bnez rs label => some (rs, 0#5, label, 0b001#3)
  | _ => none

/-- How many bytes an op takes at an offset. -/
def opSize (op : AsmOp) (currentOffset : ℕ) (k : SectionKind) (opIndex : ℕ)
    (mode : BranchSizeMode) : Result ℕ :=
  match op with
  | .label _ => .ok 0
  | .instruction (.li _ imm) => liSequenceSize imm
  | .instruction (.la _ _) => .ok 8
  | .instruction (.call _) => .ok 8
  | .instruction inst =>
    match conditionalBranchParts inst with
    | some _ => .ok (mode.branchSize k opIndex)
    | none => .ok 4
  | .word _ => .ok 4
  | .byte _ => .ok 1
  | .ascii bytes => .ok bytes.length
  | .align bytes => .ok (paddingFor currentOffset bytes)

/-! ### Reading the lines -/

structure SymbolDef where
  section_ : SectionKind
  offset : ℕ
  line : ℕ
  deriving DecidableEq, Repr

structure Section where
  ops : List LocatedAsmOp
  size : ℕ
  deriving DecidableEq, Repr

structure ParsedAssembly where
  text : Section
  rodata : Section
  symbols : List (String × SymbolDef)
  globals : List String
  entryLabel : Option String
  relaxedTextBranches : List ℕ
  deriving DecidableEq, Repr

/-- What a line that is not blank says. -/
inductive Line
  | section_ (k : SectionKind)
  | ignored
  | global (name : String)
  | label (name : String)
  | op (op : AsmOp)
  deriving DecidableEq, Repr

def readLine (clean : List Char) : Result Line := do
  match ← parseSectionDirective clean with
  | some k => return .section_ k
  | none =>
    if (stripPrefix ".option " clean).isSome || (stripPrefix ".type " clean).isSome then
      return .ignored
    else
      match stripPrefix ".global " clean with
      | some symbol => return .global (String.ofList (trim symbol))
      | none =>
        match stripSuffix ":" clean with
        | some label => return .label (String.ofList (trim label))
        | none => return .op (← parseAsmOp clean)

/-- The variables of the reading loop. -/
structure ReadState where
  currentSection : SectionKind
  text : Section
  rodata : Section
  symbols : List (String × SymbolDef)
  globals : List String
  entryLabel : Option String
  fallbackEntry : Option String
  deriving DecidableEq, Repr

namespace ReadState

def init : ReadState := ⟨.text, ⟨[], 0⟩, ⟨[], 0⟩, [], [], none, none⟩

/-- The section lines are being added to. -/
def current (st : ReadState) : Section :=
  match st.currentSection with
  | .text => st.text
  | .rodata => st.rodata

def setCurrent (st : ReadState) (s : Section) : ReadState :=
  match st.currentSection with
  | .text => { st with text := s }
  | .rodata => { st with rodata := s }

/-- A text label that was declared global can be the entry; names that start with two underscores
only as a last resort. -/
def considerEntry (st : ReadState) (label : String) : ReadState :=
  if st.currentSection = .text ∧ label ∈ st.globals then
    { st with
      fallbackEntry := st.fallbackEntry.or (some label)
      entryLabel :=
        if (stripPrefix "__" label.toList).isNone then st.entryLabel.or (some label)
        else st.entryLabel }
  else st

def addLabel (st : ReadState) (label : String) (p : GeneratedAssemblyProvenance) :
    Result ReadState :=
  match st.symbols.lookup label with
  | some previous => p.attach (.error (.new
      (s!"duplicate assembly label '{label}' (first defined at generated assembly " ++
        s!"line {previous.line})")))
  | none =>
    let symbol : SymbolDef := ⟨st.currentSection, st.current.size, p.line⟩
    let st := { st with symbols := st.symbols ++ [(label, symbol)] }
    let st := st.considerEntry label
    .ok (st.setCurrent ⟨st.current.ops ++ [⟨.label label, p⟩], st.current.size⟩)

def addOp (mode : BranchSizeMode) (st : ReadState) (op : AsmOp) (p : GeneratedAssemblyProvenance) :
    Result ReadState := do
  let size ← p.attach (opSize op st.current.size st.currentSection st.current.ops.length mode)
  return st.setCurrent ⟨st.current.ops ++ [⟨op, p⟩], st.current.size + size⟩

def addLine (mode : BranchSizeMode) (st : ReadState) (line : Line)
    (p : GeneratedAssemblyProvenance) : Result ReadState :=
  match line with
  | .section_ k => .ok { st with currentSection := k }
  | .ignored => .ok st
  | .global name => .ok { st with globals := st.globals ++ [name] }
  | .label name => st.addLabel name p
  | .op op => st.addOp mode op p

/-- One turn of the reading loop. -/
def step (mode : BranchSizeMode) (st : ReadState) (lineIndex : ℕ) (line : String) :
    Result ReadState :=
  match stripComment line with
  | none => .ok st
  | some [] => .ok st
  | some clean => do
    let p : GeneratedAssemblyProvenance :=
      ⟨lineIndex + 1, String.ofList clean, st.currentSection, st.current.ops.length⟩
    let read ← p.attach (readLine clean)
    st.addLine mode read p

def run (mode : BranchSizeMode) : ℕ → ReadState → List String → Result ReadState
  | _, st, [] => .ok st
  | lineIndex, st, line :: lines => do
    let st ← st.step mode lineIndex line
    run mode (lineIndex + 1) st lines

end ReadState

namespace ParsedAssembly

def fromLinesWithBranchMode (lines : List String) (mode : BranchSizeMode) :
    Result ParsedAssembly := do
  let st ← ReadState.run mode 0 .init lines
  return ⟨st.text, st.rodata, st.symbols, st.globals, st.entryLabel.or st.fallbackEntry,
    mode.relaxedTextBranches⟩

def section_ (parsed : ParsedAssembly) : SectionKind → Section
  | .text => parsed.text
  | .rodata => parsed.rodata

def sectionSize (parsed : ParsedAssembly) (k : SectionKind) : ℕ := (parsed.section_ k).size

end ParsedAssembly

/-! ### Addresses -/

def elfBaseAddr : ℕ := 0x10000

def startTrampolineSize : ℕ := 20

structure SectionLayout where
  textBase : ℕ
  textUserBase : ℕ
  rodataBase : ℕ
  deriving DecidableEq, Repr

namespace SectionLayout

def forTextUserSize (textUserSize : ℕ) : SectionLayout where
  textBase := elfBaseAddr
  textUserBase := elfBaseAddr + startTrampolineSize
  rodataBase := elfBaseAddr + alignUp (startTrampolineSize + textUserSize) 8

def rodataOffset (layout : SectionLayout) : ℕ := layout.rodataBase - layout.textBase

/-- The address of a section's first operation. -/
def base (layout : SectionLayout) : SectionKind → ℕ
  | .text => layout.textUserBase
  | .rodata => layout.rodataBase

end SectionLayout

namespace ParsedAssembly

def symbolAddress (parsed : ParsedAssembly) (label : String) (layout : SectionLayout) : Result ℕ :=
  match parsed.symbols.lookup label with
  | some symbol => .ok (layout.base symbol.section_ + symbol.offset)
  | none => .error (.new s!"unknown assembly label '{label}'")

end ParsedAssembly

def branchTarget (inst : Instruction) (parsed : ParsedAssembly) (layout : SectionLayout) :
    Result ℕ :=
  match conditionalBranchParts inst with
  | some (_, _, label, _) => parsed.symbolAddress label layout
  | none => .error (.new "instruction is not a conditional branch")

namespace ParsedAssembly

/-- Whether a branch misses its target in the short form. -/
def branchIsFar (parsed : ParsedAssembly) (layout : SectionLayout) (inst : Instruction)
    (offset : ℕ) : Result Bool := do
  let target ← branchTarget inst parsed layout
  let distance ← relativeOffset (layout.textUserBase + offset) target
  return !signedBitsFit distance 13

def relaxedBranchIndicesFrom (parsed : ParsedAssembly) (layout : SectionLayout) :
    ℕ → ℕ → List LocatedAsmOp → Result (List ℕ)
  | _, _, [] => .ok []
  | index, offset, op :: ops => do
    let far ←
      match op.op with
      | .instruction inst =>
        if (conditionalBranchParts inst).isSome then
          op.provenance.attach (parsed.branchIsFar layout inst offset)
        else pure false
      | _ => pure false
    let size ← op.provenance.attach (opSize op.op offset .text index .conservative)
    let rest ← relaxedBranchIndicesFrom parsed layout (index + 1) (offset + size) ops
    return if far then index :: rest else rest

/-- The branches that do not reach their target directly. -/
def relaxedBranchIndices (parsed : ParsedAssembly) (layout : SectionLayout) : Result (List ℕ) :=
  parsed.relaxedBranchIndicesFrom layout 0 0 parsed.text.ops

/-- Reads the text again with the branches that need it relaxed. -/
def fromLinesRelaxed (lines : List String) (layout : SectionLayout) : Result ParsedAssembly := do
  let conservative ← fromLinesWithBranchMode lines .conservative
  let relaxed ← conservative.relaxedBranchIndices layout
  fromLinesWithBranchMode lines (.exact relaxed)

end ParsedAssembly

end CellScript.Assembler
