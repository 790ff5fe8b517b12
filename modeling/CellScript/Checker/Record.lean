import CellScript.Checker.Elf
import CellScript.Library.DepthSearch
import CellScript.Library.Worklist

/-!
# The lowering record and its graph

The data of `schema.rs` that the structural checks read, and the checks of
`checker/record_graph.rs`: canonical order, references, proofs, block coverage, frame contracts,
terminators, reachability and the call graph. The maps that the source builds by identifier are
lookups here: the lists have distinct identifiers by the time a lookup is made.

The two loops over pending work keep the order of the source, whose stacks pop at the end; here the
next item stands first.
-/

namespace CellScript.Checker

/-! ### Errors -/

inductive CheckerRejectionCode
  | v2400BudgetExceeded
  | v2404CanonicalOrder
  | v2405ReferentialIntegrity
  | v2406CfgInvalid
  | v2407AbiOrStackInvalid
  | v2408ProofCoverageInvalid
  | v2414ControlFlowInvalid
  | v2418RecursionPolicyInvalid
  | v2420TypedMachineBindingInvalid
  deriving DecidableEq, Repr

structure CheckerError where
  code : CheckerRejectionCode
  message : String
  deriving DecidableEq, Repr

/-! ### The record -/

structure TypedParameter where
  index : UInt32
  name : String
  ty : String
  widthBytes : UInt32
  alignmentBytes : UInt32
  deriving DecidableEq, Repr

structure LoweringEntry where
  id : String
  name : String
  entryBlock : String
  params : List TypedParameter
  returnType : String
  capabilities : List String
  proofIds : List String
  frameSizeBytes : UInt32
  outgoingArgumentBytes : UInt32
  deriving DecidableEq, Repr

inductive MachineTerminator
  | fallthrough
  | jump
  | conditionalBranch
  | return
  deriving DecidableEq, Repr

structure StackSlot where
  name : String
  offset : UInt32
  widthBytes : UInt32
  alignmentBytes : UInt32
  deriving DecidableEq, Repr

structure LoweringBlock where
  id : String
  ownerEntry : String
  reachable : Bool
  nestedReadLabels : List String := []
  nestedCellLabels : List String := []
  nestedOutputLabels : List String := []
  exactRoleLabels : List String := []
  allocatedInitLabels : List String := []
  allocatedAllocationLabels : List String := []
  allocatedLifecycleLabels : List String := []
  cellViewValueLabels : List String := []
  terminator : MachineTerminator
  range : MachineRange
  frameSizeBytes : UInt32
  outgoingArgumentBytes : UInt32
  stackSlots : List StackSlot
  scratchRegisterAvoid : List String
  capabilities : List String
  proofIds : List String
  deriving DecidableEq, Repr

inductive EdgeKind
  | fallthrough
  | jump
  | conditionalTaken
  | conditionalFallthrough
  | call
  deriving DecidableEq, Repr

structure LoweringEdge where
  fromBlock : String
  toBlock : String
  kind : EdgeKind
  deriving DecidableEq, Repr

structure ProofRecord where
  id : String
  entryId : String
  obligation : String
  evidenceTier : String
  deriving DecidableEq, Repr

structure RuntimeErrorExit where
  blockId : String
  address : ℕ
  code : ℤ
  name : String
  deriving DecidableEq, Repr

structure VerifiedLoweringRecord where
  entries : List LoweringEntry
  blocks : List LoweringBlock
  edges : List LoweringEdge
  proofRecords : List ProofRecord
  runtimeErrorExits : List RuntimeErrorExit
  textRange : MachineRange
  deriving DecidableEq, Repr

structure CheckerBudgets where
  callDepth : UInt32
  stackFrameBytes : UInt32
  deriving DecidableEq, Repr

def MachineRange.isEmpty (range : MachineRange) : Bool := range.start == range.stop

/-! ### Lookups -/

namespace VerifiedLoweringRecord

variable (record : VerifiedLoweringRecord)

def entry (id : String) : Option LoweringEntry := record.entries.find? (·.id == id)

def block (id : String) : Option LoweringBlock := record.blocks.find? (·.id == id)

def proof (id : String) : Option ProofRecord := record.proofRecords.find? (·.id == id)

/-- The edges that leave a block, in the record's order. -/
def outgoing (id : String) : List LoweringEdge := record.edges.filter (·.fromBlock = id)

/-- The entry that owns a block. -/
def owner (id : String) : Option String := (record.block id).map (·.ownerEntry)

end VerifiedLoweringRecord

/-! ### Canonical forms -/

def strictlySorted {α : Type} [LT α] [DecidableLT α] (values : List α) : Bool :=
  decide (values.IsChain (· < ·))

def ensureSortedUnique {α : Type} (values : List α) (key : α → String) (label : String) :
    Except CheckerError Unit :=
  if strictlySorted (values.map key) then .ok ()
  else .error ⟨.v2404CanonicalOrder, s!"{label} identifiers are not strictly sorted and unique"⟩

/-- A power of two of at most 16. -/
def validAlignment (value : UInt32) : Bool := value ∈ [1, 2, 4, 8, 16]

/-- Saturating addition of `u32`. -/
def saturatingAdd32 (a b : ℕ) : ℕ := min (a + b) (2 ^ 32 - 1)

def EdgeKind.rank : EdgeKind → ℕ
  | .fallthrough => 0
  | .jump => 1
  | .conditionalTaken => 2
  | .conditionalFallthrough => 3
  | .call => 4

/-- The order of `(from, kind, to)`. -/
def LoweringEdge.before (a b : LoweringEdge) : Bool :=
  a.fromBlock < b.fromBlock || (a.fromBlock == b.fromBlock &&
    (a.kind.rank < b.kind.rank || (a.kind == b.kind && a.toBlock < b.toBlock)))

/-- The order of `(block_id, code, address)`. -/
def RuntimeErrorExit.before (a b : RuntimeErrorExit) : Bool :=
  a.blockId < b.blockId || (a.blockId == b.blockId &&
    (a.code < b.code || (a.code == b.code && a.address < b.address)))

/-! ### Entries and proofs -/

def validateParam (entry : LoweringEntry) (expectedIndex : ℕ) (param : TypedParameter) :
    Except CheckerError ℕ :=
  if param.index.toNat ≠ expectedIndex || param.name.isEmpty || param.ty.isEmpty ||
      param.widthBytes == 0 || !validAlignment param.alignmentBytes then
    .error ⟨.v2407AbiOrStackInvalid,
      s!"entry '{entry.id}' has an invalid typed parameter at index {param.index}"⟩
  else .ok (saturatingAdd32 expectedIndex 1)

def validateEntryAbi (entry : LoweringEntry) (budgets : CheckerBudgets) :
    Except CheckerError Unit := do
  if entry.name.isEmpty || entry.returnType.isEmpty ||
      entry.frameSizeBytes > budgets.stackFrameBytes ||
      entry.outgoingArgumentBytes > entry.frameSizeBytes then
    throw ⟨.v2407AbiOrStackInvalid,
      s!"entry '{entry.id}' has an invalid name/frame/outgoing-argument area"⟩
  let _ ← entry.params.foldlM (validateParam entry) 0

def validateEntryProof (record : VerifiedLoweringRecord) (entry : LoweringEntry)
    (proofId : String) : Except CheckerError Unit :=
  match record.proof proofId with
  | none => .error ⟨.v2408ProofCoverageInvalid,
      s!"entry '{entry.id}' references missing proof '{proofId}'"⟩
  | some proof =>
    if proof.entryId ≠ entry.id then
      .error ⟨.v2408ProofCoverageInvalid, s!"proof '{proofId}' is not owned by entry '{entry.id}'"⟩
    else .ok ()

def validateEntry (record : VerifiedLoweringRecord) (budgets : CheckerBudgets)
    (entry : LoweringEntry) : Except CheckerError Unit :=
  match record.block entry.entryBlock with
  | none => .error ⟨.v2405ReferentialIntegrity,
      s!"entry '{entry.id}' references missing block '{entry.entryBlock}'"⟩
  | some block => do
    if block.ownerEntry ≠ entry.id then
      throw ⟨.v2405ReferentialIntegrity,
        s!"entry '{entry.id}' begins in block owned by '{block.ownerEntry}'"⟩
    validateEntryAbi entry budgets
    if !strictlySorted entry.capabilities || entry.capabilities.any String.isEmpty ||
        !strictlySorted entry.proofIds then
      throw ⟨.v2404CanonicalOrder,
        s!"entry '{entry.id}' has non-canonical capabilities or ProofPlan links"⟩
    entry.proofIds.forM (validateEntryProof record entry)

def evidenceTiers : List String :=
  ["checked-static", "checked-runtime", "trusted-external", "runtime-helper-required",
    "builder-evidence-required", "metadata-only", "chain-evidence-required"]

def validateProof (record : VerifiedLoweringRecord) (proof : ProofRecord) :
    Except CheckerError Unit :=
  if (record.entry proof.entryId).isNone || proof.obligation.isEmpty ||
      proof.evidenceTier ∉ evidenceTiers then
    .error ⟨.v2408ProofCoverageInvalid,
      s!"proof '{proof.id}' has an invalid owner or empty enforcement fields"⟩
  else .ok ()

def validateExit (record : VerifiedLoweringRecord) (exit : RuntimeErrorExit) :
    Except CheckerError Unit :=
  if exit.code ≤ 0 || exit.code > 255 || exit.name.isEmpty ||
      (record.block exit.blockId).all (fun block ↦ !block.range.contains exit.address) then
    .error ⟨.v2406CfgInvalid,
      s!"runtime-error exit {exit.code} ({exit.name}) is outside its declared block"⟩
  else .ok ()

/-! ### Blocks -/

/-- Labels that are too many, out of order, too long, or of another family. -/
def labelsInvalid (families : List String) (labels : List String) : Bool :=
  labels.length > 16 || !strictlySorted labels ||
    labels.any fun label ↦ label.utf8ByteSize > 128 || !families.any (label.startsWith ·)

def lifecycleFamilies : List String :=
  [".Lallocated_resize_", ".Lallocated_release_", ".Lallocated_reserve_", ".Lallocated_drop_",
    ".Lallocated_push_", ".Lallocated_insert_", ".Lallocated_set_", ".Lallocated_remove_",
    ".Lallocated_find_", ".Lallocated_put_", ".Lallocated_erase_", ".Lallocated_read_",
    ".Lallocated_lookup_", ".Lallocated_take_", ".Lallocated_pop_", ".Lallocated_required_",
    ".Lallocated_sorted_", ".Lallocated_len_", ".Lallocated_capacity_", ".Lallocated_empty_",
    ".Lallocated_borrowed_", ".Lallocated_args_", ".Lallocated_scalar_", ".Lallocated_branch_",
    ".Lallocated_return_", ".Lallocated_call_", ".Lallocated_index_", ".Lallocated_result_"]

def validRegisters : List String :=
  ["zero", "ra", "sp", "gp", "tp", "t0", "t1", "t2", "s0", "s1", "a0", "a1", "a2", "a3", "a4", "a5",
    "a6", "a7", "s2", "s3", "s4", "s5", "s6", "s7", "s8", "s9", "s10", "s11", "t3", "t4", "t5",
    "t6"]

/-- Slots are aligned, within the frame and apart. -/
def validateSlot (block : LoweringBlock) (lastEnd : ℕ) (slot : StackSlot) : Except CheckerError ℕ :=
  if slot.name.isEmpty || slot.widthBytes == 0 || !validAlignment slot.alignmentBytes ||
      slot.offset.toNat % slot.alignmentBytes.toNat ≠ 0 || slot.offset.toNat < lastEnd ||
      saturatingAdd32 slot.offset.toNat slot.widthBytes.toNat > block.frameSizeBytes.toNat then
    .error ⟨.v2407AbiOrStackInvalid, s!"block '{block.id}' has overlapping, misaligned, or " ++
      s!"out-of-frame stack slot '{slot.name}'"⟩
  else .ok (saturatingAdd32 slot.offset.toNat slot.widthBytes.toNat)

def validateBlockAbi (record : VerifiedLoweringRecord) (budgets : CheckerBudgets)
    (entry : LoweringEntry) (block : LoweringBlock) : Except CheckerError Unit := do
  if labelsInvalid [".Lallocated_init_"] block.allocatedInitLabels then
    throw ⟨.v2420TypedMachineBindingInvalid, "invalid or excessive allocated initialization labels"⟩
  if labelsInvalid [".Lallocated_allocation_"] block.allocatedAllocationLabels then
    throw ⟨.v2420TypedMachineBindingInvalid, "invalid or excessive allocated allocation labels"⟩
  if labelsInvalid lifecycleFamilies block.allocatedLifecycleLabels then
    throw ⟨.v2420TypedMachineBindingInvalid, "invalid or excessive allocated lifecycle labels"⟩
  if labelsInvalid [".Lcell_view_value_"] block.cellViewValueLabels then
    throw ⟨.v2420TypedMachineBindingInvalid, "invalid or excessive Cell view value labels"⟩
  if labelsInvalid [".Lexact_role_check_", ".Lexact_role_use_", ".Lexact_role_data_"]
      block.exactRoleLabels then
    throw ⟨.v2420TypedMachineBindingInvalid, "invalid or excessive exact-role verification labels"⟩
  if block.frameSizeBytes ≠ entry.frameSizeBytes ||
      block.outgoingArgumentBytes ≠ entry.outgoingArgumentBytes ||
      block.capabilities ≠ entry.capabilities || block.frameSizeBytes > budgets.stackFrameBytes ||
      block.outgoingArgumentBytes > block.frameSizeBytes then
    throw ⟨.v2407AbiOrStackInvalid,
      s!"block '{block.id}' frame contract disagrees with owner entry"⟩
  if labelsInvalid [".Lnested_use_"] block.nestedReadLabels then
    throw ⟨.v2420TypedMachineBindingInvalid, "invalid or excessive nested read boundary labels"⟩
  if labelsInvalid [".Lnested_cell_codec_"] block.nestedCellLabels then
    throw ⟨.v2420TypedMachineBindingInvalid, "invalid or excessive nested Cell decoder labels"⟩
  if labelsInvalid [".Lnested_output_check_"] block.nestedOutputLabels then
    throw ⟨.v2420TypedMachineBindingInvalid, "invalid or excessive nested output comparison labels"⟩
  if !strictlySorted block.scratchRegisterAvoid ||
      block.scratchRegisterAvoid.any (· ∉ validRegisters) then
    throw ⟨.v2407AbiOrStackInvalid,
      s!"block '{block.id}' has invalid scratch-register declarations"⟩
  let _ ← block.stackSlots.foldlM (validateSlot block) block.outgoingArgumentBytes.toNat
  if !strictlySorted block.proofIds ||
      block.proofIds.any (fun id ↦ (record.proof id).all (·.entryId ≠ block.ownerEntry)) then
    throw ⟨.v2408ProofCoverageInvalid, s!"block '{block.id}' has invalid ProofPlan links"⟩

/-- The check of a block, and the address at which the next one starts. -/
def validateBlock (record : VerifiedLoweringRecord) (budgets : CheckerBudgets)
    (expectedStart : ℕ) (block : LoweringBlock) : Except CheckerError ℕ :=
  match record.entry block.ownerEntry with
  | none => .error ⟨.v2405ReferentialIntegrity,
      s!"block '{block.id}' has missing owner '{block.ownerEntry}'"⟩
  | some entry => do
    if block.range.start ≠ expectedStart || block.range.isEmpty || block.range.start % 4 ≠ 0 ||
        block.range.stop % 4 ≠ 0 then
      throw ⟨.v2406CfgInvalid,
        s!"block '{block.id}' does not form aligned contiguous text coverage"⟩
    validateBlockAbi record budgets entry block
    return block.range.stop

/-! ### Edges -/

def validateEdge (record : VerifiedLoweringRecord) (edge : LoweringEdge) :
    Except CheckerError Unit :=
  if (record.block edge.fromBlock).isNone || (record.block edge.toBlock).isNone then
    .error ⟨.v2405ReferentialIntegrity,
      s!"edge '{edge.fromBlock} -> {edge.toBlock}' references a missing block"⟩
  else .ok ()

/-- Whether a terminator has these edges, calls apart. -/
def MachineTerminator.hasEdges : MachineTerminator → List EdgeKind → Bool
  | .fallthrough, kinds => kinds == [.fallthrough]
  | .jump, kinds => kinds == [.jump]
  | .conditionalBranch, kinds =>
    kinds == [.conditionalTaken, .conditionalFallthrough] ||
      kinds == [.conditionalFallthrough, .conditionalTaken]
  | .return, kinds => kinds.isEmpty

/-- The edges of a block are those its terminator allows. -/
def validateTerminatorEdges (block : LoweringBlock) (edges : List LoweringEdge) :
    Except CheckerError Unit :=
  let nonCall := (edges.filter (·.kind ≠ .call)).map (·.kind)
  if block.terminator.hasEdges nonCall then .ok ()
  else .error ⟨.v2406CfgInvalid, s!"block '{block.id}' terminator does not match its CFG edges"⟩

/-! ### Reachability -/

def visitReachable (record : VerifiedLoweringRecord) (reachable : List String)
    (blockId : String) : Except CheckerError (List String × List String) :=
  if blockId ∈ reachable then .ok (reachable, [])
  else .ok (blockId :: reachable, ((record.outgoing blockId).map (·.toBlock)).reverse)

theorem visitReachable_pays (record : VerifiedLoweringRecord) :
    Worklist.Pays (visitReachable record)
      (Worklist.unvisited LoweringEdge.fromBlock record.edges) := by
  intro reachable id reachable' pushed h
  unfold visitReachable at h
  split at h
  · obtain ⟨rfl, rfl⟩ : reachable = reachable' ∧ [] = pushed := by simpa using h
    exact le_rfl
  · next hnew =>
    obtain ⟨rfl, rfl⟩ := Prod.mk.inj (ok.inj h)
    rw [List.length_reverse, length_map]
    exact (Worklist.unvisited_cons _ _ hnew).le

/-- Declared reachability is that of the graph. -/
def validateReachability (record : VerifiedLoweringRecord) : Except CheckerError Unit := do
  let reachable ← Worklist.run (visitReachable record) _ (visitReachable_pays record) []
    (record.entries.map (·.entryBlock)).reverse
  match record.blocks.find? (fun block ↦ block.reachable ≠ decide (block.id ∈ reachable)) with
  | some block =>
    let found := decide (block.id ∈ reachable)
    throw ⟨.v2406CfgInvalid, s!"block '{block.id}' declared reachable={block.reachable} but CFG " ++
      s!"reachability is {found}"⟩
  | none => pure ()

/-! ### The call graph -/

/-- The entries that an entry calls, itself apart, in order. -/
def callees (record : VerifiedLoweringRecord) (caller : String) : List String :=
  let called := (record.edges.filter (·.kind = .call)).filterMap fun edge ↦ do
    let fromOwner ← record.owner edge.fromBlock
    let toOwner ← record.owner edge.toBlock
    if fromOwner ≠ toOwner ∧ fromOwner = caller then some toOwner else none
  called.dedup.insertionSort (· ≤ ·)

/-- The longest call chain below an entry, in `u32`. -/
def deepestCallDepth (record : VerifiedLoweringRecord) :
    ℕ → String → List String → DepthSearch.Memo String →
      Except CheckerError (ℕ × DepthSearch.Memo String) :=
  DepthSearch.deepest (callees record)
    (fun current ↦ ⟨.v2418RecursionPolicyInvalid,
      s!"recursive call cycle reaches entry '{current}'"⟩) (2 ^ 32 - 1)

/-- The check of one root, with the depths known so far. -/
def validateRoot (record : VerifiedLoweringRecord) (maxDepth : UInt32)
    (depthMemo : DepthSearch.Memo String) (root : LoweringEntry) :
    Except CheckerError (DepthSearch.Memo String) := do
  let (depth, depthMemo) ← deepestCallDepth record record.entries.length root.id [] depthMemo
  if saturatingAdd32 depth 1 > maxDepth.toNat then
    throw ⟨.v2400BudgetExceeded, s!"static call depth exceeds checker budget {maxDepth}"⟩
  return depthMemo

def validateCallGraph (record : VerifiedLoweringRecord) (maxDepth : UInt32) :
    Except CheckerError Unit := do
  let _ ← record.entries.foldlM (validateRoot record maxDepth) fun _ ↦ none

/-! ### The whole graph -/

/-- All checks of the graph, in the order of the source. -/
def validateRecordGraph (record : VerifiedLoweringRecord) (budgets : CheckerBudgets) :
    Except CheckerError Unit := do
  if record.entries.isEmpty || record.blocks.isEmpty || record.textRange.isEmpty then
    throw ⟨.v2405ReferentialIntegrity, "lowering record requires at least one entry, one block, " ++
      "and a non-empty text range"⟩
  ensureSortedUnique record.entries (·.id) "entry"
  ensureSortedUnique record.blocks (·.id) "block"
  ensureSortedUnique record.proofRecords (·.id) "proof"
  if !decide (record.edges.IsChain (·.before ·)) then
    throw ⟨.v2404CanonicalOrder, "lowering edges are not strictly sorted and unique"⟩
  record.entries.forM (validateEntry record budgets)
  record.proofRecords.forM (validateProof record)
  if !decide (record.runtimeErrorExits.IsChain (·.before ·)) then
    throw ⟨.v2404CanonicalOrder, "runtime-error exits are not strictly sorted and unique"⟩
  record.runtimeErrorExits.forM (validateExit record)
  let expectedStart ← record.blocks.foldlM (validateBlock record budgets) record.textRange.start
  if expectedStart ≠ record.textRange.stop then
    throw ⟨.v2406CfgInvalid, "lowering blocks do not cover the declared text range exactly"⟩
  record.edges.forM (validateEdge record)
  record.blocks.forM fun block ↦ validateTerminatorEdges block (record.outgoing block.id)
  validateReachability record
  validateCallGraph record budgets.callDepth

end CellScript.Checker
