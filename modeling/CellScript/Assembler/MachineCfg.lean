import CellScript.Assembler.Layout

/-!
# The machine control-flow graph

`MachineLayoutPlan::build` in `codegen/assembler.rs`. After layout the text section is cut into
machine blocks, at labels and after jumps, returns and conditional branches; the edges between
blocks are computed from the terminators and calls; and the plan is refused when a jump does not
lead to the start of a block or when the blocks fail to cover the text.

The order of the blocks is the order of the text. The counters the compiler reports about the graph
(block sizes, reachability, numbers of edges) decide nothing and are left out of the plan.
-/

namespace CellScript.Assembler

structure TextOpLayout where
  opIndex : ℕ
  offset : ℕ
  size : ℕ
  deriving DecidableEq, Repr

inductive MachineTerminator
  | fallthrough
  | jump (target : String)
  | conditionalBranch (target : String)
  | return_
  deriving DecidableEq, Repr

structure MachineBlock where
  label : Option String
  opStart : ℕ
  opEnd : ℕ
  byteStart : ℕ
  byteSize : ℕ
  terminator : MachineTerminator
  deriving DecidableEq, Repr

inductive MachineCfgEdgeKind
  | fallthrough
  | jump
  | conditionalTaken
  | conditionalFallthrough
  | call
  deriving DecidableEq, Repr

structure MachineCfgEdge where
  source : ℕ
  target : ℕ
  kind : MachineCfgEdgeKind
  deriving DecidableEq, Repr

structure MachineCfg where
  blocks : List MachineBlock
  edges : List MachineCfgEdge
  deriving DecidableEq, Repr

structure MachinePlacedBlock where
  blockIndex : ℕ
  byteStart : ℕ
  byteSize : ℕ
  deriving DecidableEq, Repr

structure MachineLayoutOrder where
  blockOrder : List ℕ
  placedBlocks : List MachinePlacedBlock
  textSize : ℕ
  deriving DecidableEq, Repr

structure BackendLayoutMetrics where
  textSize : ℕ
  rodataSize : ℕ
  executableTextOpCount : ℕ
  coveredTextOpCount : ℕ
  maxCondBranchAbsDistance : ℕ
  deriving DecidableEq, Repr

structure MachineLayoutPlan where
  parsed : ParsedAssembly
  layout : SectionLayout
  cfg : MachineCfg
  order : MachineLayoutOrder
  metrics : BackendLayoutMetrics
  deriving DecidableEq, Repr

/-! ### Blocks -/

def textOpLayoutsFrom (mode : BranchSizeMode) :
    ℕ → ℕ → List LocatedAsmOp → Result (List TextOpLayout)
  | _, _, [] => .ok []
  | opIndex, offset, op :: ops => do
    let size ← op.provenance.attach (opSize op.op offset .text opIndex mode)
    let rest ← textOpLayoutsFrom mode (opIndex + 1) (offset + size) ops
    return ⟨opIndex, offset, size⟩ :: rest

def textOpLayouts (parsed : ParsedAssembly) : Result (List TextOpLayout) :=
  textOpLayoutsFrom (.exact parsed.relaxedTextBranches) 0 0 parsed.text.ops

def AsmOp.isLabel : AsmOp → Bool
  | .label _ => true
  | _ => false

def blockHasExecutableOps (ops : List LocatedAsmOp) : Bool :=
  ops.any fun op ↦ !op.op.isLabel

def instructionTerminator (op : LocatedAsmOp) : Option MachineTerminator :=
  match op.op with
  | .instruction (.jump label) => some (.jump label)
  | .instruction .ret => some .return_
  | .instruction inst =>
    (conditionalBranchParts inst).map fun (_, _, label, _) ↦ .conditionalBranch label
  | _ => none

/-- The operations from one index up to another. -/
def opRange (parsed : ParsedAssembly) (opStart opEnd : ℕ) : List LocatedAsmOp :=
  (parsed.text.ops.take opEnd).drop opStart

def buildMachineBlock (parsed : ParsedAssembly) (layouts : List TextOpLayout)
    (opStart opEnd : ℕ) (label : Option String) : MachineBlock :=
  let byteStart := (layouts[opStart]?.map (·.offset)).getD 0
  let byteEnd :=
    if opEnd = 0 then byteStart
    else (layouts[opEnd - 1]?.map fun layout ↦ layout.offset + layout.size).getD byteStart
  let terminator :=
    ((opRange parsed opStart opEnd).reverse.findSome? instructionTerminator).getD .fallthrough
  ⟨label, opStart, opEnd, byteStart, byteEnd - byteStart, terminator⟩

/-- The cutting loop, from an operation on, with the open block's first operation and label. -/
def machineBlocksFrom (parsed : ParsedAssembly) (layouts : List TextOpLayout) :
    ℕ → ℕ → Option String → List LocatedAsmOp → List MachineBlock
  | _, blockStart, blockLabel, [] =>
    if blockStart < parsed.text.ops.length &&
        blockHasExecutableOps (parsed.text.ops.drop blockStart) then
      [buildMachineBlock parsed layouts blockStart parsed.text.ops.length blockLabel]
    else []
  | opIndex, blockStart, blockLabel, op :: ops =>
    match op.op with
    | .label label =>
      if blockHasExecutableOps (opRange parsed blockStart opIndex) then
        buildMachineBlock parsed layouts blockStart opIndex blockLabel ::
          machineBlocksFrom parsed layouts (opIndex + 1) opIndex (some label) ops
      else
        machineBlocksFrom parsed layouts (opIndex + 1) blockStart (blockLabel.or (some label)) ops
    | _ =>
      if (instructionTerminator op).isSome then
        buildMachineBlock parsed layouts blockStart (opIndex + 1) blockLabel ::
          machineBlocksFrom parsed layouts (opIndex + 1) (opIndex + 1) none ops
      else machineBlocksFrom parsed layouts (opIndex + 1) blockStart blockLabel ops

/-- The text cut at labels and after terminators. -/
def machineBlocks (parsed : ParsedAssembly) : Result (List MachineBlock) := do
  let layouts ← textOpLayouts parsed
  return machineBlocksFrom parsed layouts 0 0 none parsed.text.ops

/-! ### Edges -/

/-- The block each text label starts, if it starts one. -/
def machineLabelToBlock (parsed : ParsedAssembly) (blocks : List MachineBlock) :
    List (String × ℕ) :=
  parsed.symbols.filterMap fun (label, symbol) ↦
    if symbol.section_ = .text then
      (blocks.findIdx? fun block ↦ block.byteStart == symbol.offset).map fun index ↦ (label, index)
    else none

def machineCfgTargetBlock (parsed : ParsedAssembly) (target : String)
    (labelToBlock : List (String × ℕ)) (blockIndex opIndex : ℕ) : Result ℕ :=
  match labelToBlock.lookup target with
  | some block => .ok block
  | none =>
    let error : Result ℕ := .error (.new
      (s!"assembly branch target '{target}' from machine block {blockIndex} text op {opIndex} " ++
        "does not start a machine block"))
    match parsed.text.ops[opIndex]? with
    | some op => op.provenance.attach error
    | none => error

def machineBlockCallTargets (parsed : ParsedAssembly) (block : MachineBlock) : List String :=
  (opRange parsed block.opStart block.opEnd).filterMap fun op ↦
    match op.op with
    | .instruction (.call label) => some label
    | _ => none

/-- The edges that leave one block: its calls, and then its terminator's. -/
def machineBlockEdges (parsed : ParsedAssembly) (labelToBlock : List (String × ℕ))
    (blockCount index : ℕ) (block : MachineBlock) : Result (List MachineCfgEdge) := do
  let calls := (machineBlockCallTargets parsed block).filterMap fun target ↦
    (labelToBlock.lookup target).map fun block ↦ (⟨index, block, .call⟩ : MachineCfgEdge)
  match block.terminator with
  | .fallthrough =>
    if index + 1 < blockCount then return calls ++ [⟨index, index + 1, .fallthrough⟩]
    else return calls
  | .jump target =>
    let block ← machineCfgTargetBlock parsed target labelToBlock index (block.opEnd - 1)
    return calls ++ [⟨index, block, .jump⟩]
  | .conditionalBranch target =>
    let block ← machineCfgTargetBlock parsed target labelToBlock index (block.opEnd - 1)
    if index + 1 < blockCount then
      return calls ++ [⟨index, block, .conditionalTaken⟩,
        ⟨index, index + 1, .conditionalFallthrough⟩]
    else return calls ++ [⟨index, block, .conditionalTaken⟩]
  | .return_ => return calls

/-- The blocks with the edges between them. -/
def machineCfg (parsed : ParsedAssembly) : Result MachineCfg := do
  let blocks ← machineBlocks parsed
  let labelToBlock := machineLabelToBlock parsed blocks
  let edges ← blocks.zipIdx.mapM fun (block, index) ↦
    machineBlockEdges parsed labelToBlock blocks.length index block
  return ⟨blocks, edges.flatten⟩

/-! ### Validation -/

structure MachineBlockCoverage where
  executableTextOpCount : ℕ
  coveredTextOpCount : ℕ
  deriving DecidableEq, Repr

/-- Add the operations of one block to the covered ones. -/
def coverBlock (parsed : ParsedAssembly) (covered : List ℕ) (block : MachineBlock) :
    Result (List ℕ) := do
  if block.opStart ≥ block.opEnd || block.opEnd > parsed.text.ops.length then
    throw (.new s!"machine block has invalid op range {block.opStart}..{block.opEnd}")
  if !blockHasExecutableOps (opRange parsed block.opStart block.opEnd) then
    throw (.new "machine block contains no executable instructions")
  (List.range' block.opStart (block.opEnd - block.opStart)).foldlM (fun covered opIndex ↦
    match parsed.text.ops[opIndex]? with
    | some op =>
      if op.op.isLabel then .ok covered
      else if opIndex ∈ covered then
        .error (.new s!"machine block coverage overlaps text op {opIndex}")
      else .ok (covered ++ [opIndex])
    | none => .ok covered) covered

/-- Every executable op is in exactly one block. -/
def validateMachineBlockCoverage (parsed : ParsedAssembly) (cfg : MachineCfg) :
    Result MachineBlockCoverage := do
  let executableTextOpCount := (parsed.text.ops.filter fun op ↦ !op.op.isLabel).length
  let covered ← cfg.blocks.foldlM (coverBlock parsed) []
  if covered.length ≠ executableTextOpCount then
    throw (.new
      (s!"machine blocks cover {covered.length} executable text ops but assembly contains " ++
        s!"{executableTextOpCount}"))
  return ⟨executableTextOpCount, covered.length⟩

def validateMachineLayoutOrder (cfg : MachineCfg) (blockOrder : List ℕ) : Result Unit := do
  if blockOrder.length ≠ cfg.blocks.length then
    throw (.new
      (s!"machine layout order contains {blockOrder.length} blocks but CFG contains " ++
        s!"{cfg.blocks.length}"))
  let _ ← blockOrder.foldlM (fun (seen : List ℕ) blockIndex ↦
    if blockIndex ≥ cfg.blocks.length then
      .error (.new s!"machine layout order references missing block {blockIndex}")
    else if blockIndex ∈ seen then
      .error (.new s!"machine layout order repeats block {blockIndex}")
    else .ok (blockIndex :: seen)) []

def placeBlocks (cfg : MachineCfg) : ℕ → List ℕ → List MachinePlacedBlock × ℕ
  | byteStart, [] => ([], byteStart)
  | byteStart, blockIndex :: rest =>
    let byteSize := (cfg.blocks[blockIndex]?.map (·.byteSize)).getD 0
    let (placed, textSize) := placeBlocks cfg (byteStart + byteSize) rest
    (⟨blockIndex, byteStart, byteSize⟩ :: placed, textSize)

def buildMachineLayoutOrder (cfg : MachineCfg) (blockOrder : List ℕ) :
    Result MachineLayoutOrder := do
  validateMachineLayoutOrder cfg blockOrder
  let (placedBlocks, textSize) := placeBlocks cfg 0 blockOrder
  return ⟨blockOrder, placedBlocks, textSize⟩

def machineLayoutOrder (cfg : MachineCfg) : Result MachineLayoutOrder :=
  buildMachineLayoutOrder cfg (List.range cfg.blocks.length)

/-! ### The plan -/

/-- The distance of a conditional branch; other operations have none. -/
def condBranchAbsDistance (parsed : ParsedAssembly) (layout : SectionLayout)
    (opLayout : TextOpLayout) : Result ℕ :=
  match parsed.text.ops[opLayout.opIndex]? with
  | some ⟨.instruction inst, provenance⟩ =>
    if (conditionalBranchParts inst).isSome then provenance.attach do
      let target ← branchTarget inst parsed layout
      let distance ← relativeOffset (layout.textUserBase + opLayout.offset) target
      return distance.natAbs
    else .ok 0
  | _ => .ok 0

def layoutMetrics (parsed : ParsedAssembly) (layout : SectionLayout)
    (coverage : MachineBlockCoverage) : Result BackendLayoutMetrics := do
  let layouts ← textOpLayouts parsed
  let distances ← layouts.mapM (condBranchAbsDistance parsed layout)
  return {
    textSize := (layouts.map (·.size)).sum
    rodataSize := parsed.sectionSize .rodata
    executableTextOpCount := coverage.executableTextOpCount
    coveredTextOpCount := coverage.coveredTextOpCount
    maxCondBranchAbsDistance := distances.foldl max 0 }

/-- Two passes over the text, then its graph and order. -/
def MachineLayoutPlan.build (lines : List String) : Result MachineLayoutPlan := do
  let preliminary ← ParsedAssembly.fromLinesWithBranchMode lines .conservative
  let preliminaryLayout := SectionLayout.forTextUserSize (preliminary.sectionSize .text)
  let parsed ← ParsedAssembly.fromLinesRelaxed lines preliminaryLayout
  let layout := SectionLayout.forTextUserSize (parsed.sectionSize .text)
  let cfg ← machineCfg parsed
  let coverage ← validateMachineBlockCoverage parsed cfg
  let order ← machineLayoutOrder cfg
  let metrics ← layoutMetrics parsed layout coverage
  return ⟨parsed, layout, cfg, order, metrics⟩

/-- **What a plan rests on.** Its assembly was read with exactly the relaxed branches long, and its
addresses follow from the size of the text. -/
theorem MachineLayoutPlan.build_ok {lines : List String} {plan : MachineLayoutPlan}
    (h : MachineLayoutPlan.build lines = .ok plan) :
    (∃ relaxed, ParsedAssembly.fromLinesWithBranchMode lines (.exact relaxed) = .ok plan.parsed) ∧
      plan.layout = SectionLayout.forTextUserSize (plan.parsed.sectionSize .text) := by
  simp only [MachineLayoutPlan.build, ParsedAssembly.fromLinesRelaxed, bind_ok, pure_ok] at h
  obtain ⟨-, -, parsed, ⟨-, -, relaxed, -, hparsed⟩, -, -, -, -, -, -, -, -, rfl⟩ := h
  exact ⟨⟨relaxed, hparsed⟩, rfl⟩

end CellScript.Assembler
