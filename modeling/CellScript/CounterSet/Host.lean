import CellScript.Checker.CodeOrigin
import CellScript.CounterSet.Family
import CellScript.Policy.OpenHandle

/-!
# The host check of a counter set

`code_origin/counter_set.rs` derives the statements of a counter set from the bytes of a transaction
and of the cells that it consumes, before the transaction is sent. It walks over the same cells as
the type script, with other means: parsed scripts instead of windows of loaded ones.

The hash function is a parameter.
-/

namespace CellScript.CounterSet.Host

open Bytes (le ofLe field)
open Checker Checker.Nested Molecule
open Checker.CodeOrigin (chunksExact parsed)
open OpenHandlePolicy (Hash)

/-! ### Statements -/

structure SuppliedInputCell where
  outPoint : List UInt8
  output : List UInt8
  data : List UInt8
  length_outPoint : outPoint.length = 36

structure Statement where
  domain : Hash
  action : Hash
  scriptHash : Hash
  oldDataHash : Hash
  newDataHash : Hash
  inputTransactionHash : Hash
  inputOutputIndex : UInt32
  transactionHash : Hash
  deriving DecidableEq

def Statement.encode (s : Statement) : List UInt8 :=
  s.domain.bytes ++ s.action.bytes ++ s.scriptHash.bytes ++ s.oldDataHash.bytes ++
    s.newDataHash.bytes ++ s.inputTransactionHash.bytes ++ le 4 s.inputOutputIndex.toNat ++
      s.transactionHash.bytes

structure CounterSetLeaf where
  inputIndex : UInt32
  outputIndex : UInt32
  statement : Statement
  deriving DecidableEq

structure CheckedCounterSet where
  selectedScript : List UInt8
  encoded : List UInt8
  leaves : List CounterSetLeaf
  snapshotHash : Hash

def leafBytes : ℕ := 236

def invalid (message : String) : CheckerError :=
  ⟨.v2420TypedMachineBindingInvalid, "ZK counter set: " ++ message⟩

def require (condition : Bool) (message : String) : Except CheckerError Unit :=
  if condition then .ok () else .error (invalid message)

/-- The checks of a leaf, after the indices of the one before. -/
def encodeLeaf (txHash : Hash) (state : Option (UInt32 × UInt32) × List UInt8)
    (leaf : CounterSetLeaf) : Except CheckerError (Option (UInt32 × UInt32) × List UInt8) := do
  require (leaf.inputIndex < 64 && leaf.outputIndex < 64) "global index bound"
  require (leaf.statement.transactionHash = txHash) "leaf raw transaction identity differs"
  require (state.1.all fun p ↦ p.1 < leaf.inputIndex && p.2 < leaf.outputIndex)
    "duplicate or reordered global index"
  return (some (leaf.inputIndex, leaf.outputIndex), state.2 ++ le 4 leaf.inputIndex.toNat ++
    le 4 leaf.outputIndex.toNat ++ leaf.statement.encode)

def encodeCounterSet (family : List UInt8) (leaves : List CounterSetLeaf) :
    Except CheckerError (List UInt8) := do
  match leaves with
  | [] => .error (invalid "update requires 1..4 leaves")
  | first :: _ =>
    require (leaves.length ≤ 4) "update requires 1..4 leaves"
    let txHash := first.statement.transactionHash
    let header := [112 + leafBytes * leaves.length, 28, 36, 40, 72, 76, 108].flatMap (le 4)
    let start := header ++ setMagic ++ le 4 1 ++ family ++ le 4 leaves.length ++ txHash.bytes ++
      le 4 leaves.length
    return (← leaves.foldlM (encodeLeaf txHash) (none, start)).2

/-! ### The check -/

variable (hash : List UInt8 → Hash)

/-- The bytes and hashes that identify what was checked. -/
def snapshot (full : List UInt8) (inputs : List SuppliedInputCell) : List UInt8 :=
  full ++ inputs.flatMap fun input ↦
    input.outPoint ++ (hash input.output).bytes ++ (hash input.data).bytes

/-- The lane of a script, if it is of the family of the current one. -/
def member (current : CodeOrigin.Script) (script : Option CodeOrigin.Script) :
    Except CheckerError (Option UInt8) :=
  match script with
  | none => .ok none
  | some script => do
    if script.codeHash ≠ current.codeHash then
      return none
    require (40 ≤ script.args.length && script.args.take 8 == setMagic) "malformed same-code family"
    if field 8 32 script.args ≠ field 8 32 current.args then
      return none
    require (script.hashType == 4 && script.args.length == 73 &&
      decide (script.args.getD 40 0 < 4) &&
      script.args.drop 41 == current.args.drop 41) "same-family args/hash type/parent drift"
    return some (script.args.getD 40 0)

/-- A member goes to the end of a selection of increasing lanes. -/
def enlist {α : Type} (selected : List (UInt8 × α)) (lane : UInt8) (x : α) (message : String) :
    Except CheckerError (List (UInt8 × α)) := do
  require (decide (selected.length < 4) && selected.getLast?.all fun last ↦ decide (last.1 < lane))
    message
  return selected ++ [(lane, x)]

def selectInput (current : CodeOrigin.Script) (selected : List (UInt8 × ℕ × CodeOrigin.Cell))
    (input : (SuppliedInputCell × List UInt8) × ℕ) :
    Except CheckerError (List (UInt8 × ℕ × CodeOrigin.Cell)) := do
  require (input.1.1.outPoint == input.1.2.drop 8) "resolved input OutPoint mismatch"
  let cell ← parsed (CodeOrigin.cell input.1.1.output)
  match ← member current cell.typeScript with
  | none => return selected
  | some lane => enlist selected lane (input.2, cell) "input set cardinality/order/duplicate"

def selectOutput (current : CodeOrigin.Script) (selected : List (UInt8 × ℕ))
    (output : CodeOrigin.Cell × ℕ) : Except CheckerError (List (UInt8 × ℕ)) := do
  match ← member current output.1.typeScript with
  | none => return selected
  | some lane => enlist selected lane output.2 "output set cardinality/order/duplicate"

def state (data : List UInt8) : Except CheckerError Unit :=
  require (data.length == 48 && data.take 8 == counterMagic) "noncanonical counter state"

/-- The text `cellscript-private-counter-v1/domain`. -/
def domainText : List UInt8 := "cellscript-private-counter-v1/domain".toUTF8.toList

def actionText : List UInt8 := "cellscript-private-counter-v1/increment".toUTF8.toList

/-- The statement about a selected input and its successor. -/
def leafOf (inputs : List SuppliedInputCell) (raw : CodeOrigin.Transaction) (txHash : Hash)
    (pair : (UInt8 × ℕ × CodeOrigin.Cell) × (UInt8 × ℕ)) : Except CheckerError CounterSetLeaf := do
  let (lane, inputIndex, old) := pair.1
  let (nextLane, outputIndex) := pair.2
  match raw.cells[outputIndex]?, old.typeScript, inputs[inputIndex]? with
  | some next, some script, some input =>
    require (lane == nextLane && next.typeScript.any fun s ↦ s.bytes == script.bytes)
      "lane/complete-Script correspondence"
    let newData := raw.data.getD outputIndex []
    state input.data
    state newData
    require (field 8 32 input.data == field 8 32 newData && old.capacity == next.capacity &&
      old.lock.bytes == next.lock.bytes) "owner/custody changed"
    let oldCount := ofLe (input.data.drop 40)
    require (oldCount + 1 < 2 ^ 64 && oldCount + 1 == ofLe (newData.drop 40))
      "counter increment/overflow"
    return {
      inputIndex := UInt32.ofNat inputIndex
      outputIndex := UInt32.ofNat outputIndex
      statement := {
        domain := hash domainText
        action := hash actionText
        scriptHash := hash script.bytes
        oldDataHash := hash input.data
        newDataHash := hash newData
        inputTransactionHash := Hash.ofBytes (input.outPoint.take 32)
        inputOutputIndex := UInt32.ofNat (ofLe (input.outPoint.drop 32))
        transactionHash := txHash } }
  -- an index out of range or a missing type would be a panic
  | _, _, _ => .error (invalid "unreachable")

/-- The bounds on the bytes of the resolved inputs. -/
def checkInputBytes (input : SuppliedInputCell) : Except CheckerError Unit :=
  require (decide (input.output.length ≤ 4096) && decide (input.data.length ≤ 4096))
    "input snapshot byte budget"

/-- The shape of the selected script. -/
def checkCurrent (current : CodeOrigin.Script) : Except CheckerError Unit :=
  require (current.hashType == 4 && current.args.length == 73 && current.args.take 8 == setMagic &&
    decide (current.args.getD 40 0 < 4) && current.args.drop 41 != replicate 32 0)
    "selected family Script"

/-- The set that the proofs of a transaction are about. -/
def checkCounterSet (full : List UInt8) (inputs : List SuppliedInputCell)
    (selectedScript : List UInt8) : Except CheckerError CheckedCounterSet := do
  require (decide (full.length ≤ 16384) && decide (inputs.length ≤ 64) &&
    selectedScript.length == 126) "preparse byte/count budget"
  inputs.forM checkInputBytes
  let current ← parsed (CodeOrigin.script selectedScript)
  checkCurrent current
  let values ← parsed (fields full 2)
  let raw ← parsed (CodeOrigin.transaction (values.getD 0 []))
  require (raw.inputs.length / 44 == inputs.length && decide (raw.cells.length ≤ 64))
    "complete input/output count"
  require ((chunksExact 37 raw.deps).all fun dep ↦ dep.getD 36 0 == 0)
    "set profile uses direct code dependencies"
  (← parsed (dynamic (values.getD 1 []) 4096)).forM fun witness ↦ do
    let _ ← parsed (fixed witness 1 16384)
  let selected ← (inputs.zip (chunksExact 44 raw.inputs)).zipIdx.foldlM (selectInput current) []
  require (!selected.isEmpty)
    "set transition requires protected inputs; creation is a separate path"
  require (selected.any fun p ↦ p.2.2.typeScript.any fun s ↦ s.bytes == selectedScript)
    "selected Script missing from complete set"
  let successors ← raw.cells.zipIdx.foldlM (selectOutput current) []
  require (selected.length == successors.length) "unmatched successor count"
  let leaves ← (selected.zip successors).mapM (leafOf hash inputs raw (hash (values.getD 0 [])))
  let encoded ← encodeCounterSet (field 8 32 current.args) leaves
  return ⟨selectedScript, encoded, leaves, hash (snapshot hash full inputs)⟩

/-! ### The transaction on chain -/

/-- A parsed script as the type script sees it. -/
def scriptOnChain (s : CodeOrigin.Script) : Script where
  codeHash := (Hash.ofBytes s.codeHash).bytes
  hashType := s.hashType
  args := s.args
  length_codeHash := Hash.length_bytes _

def cellOnChain (c : CodeOrigin.Cell) (data : List UInt8) : Cell where
  capacity := c.capacity
  lock := scriptOnChain c.lock
  type := c.typeScript.map scriptOnChain
  data := data

/-- The transaction of the type script, with its resolved inputs and dependencies. -/
def transactionOnChain (full : List UInt8) (cells : List CodeOrigin.Cell)
    (inputs : List SuppliedInputCell) (raw : CodeOrigin.Transaction) (cellDeps : List Cell) :
    Transaction where
  bytes := full
  inputs := List.zipWith cellOnChain cells (inputs.map (·.data))
  outputs := List.zipWith cellOnChain raw.cells raw.data
  cellDeps := cellDeps

section OnChain

variable {bytes : List UInt8} {s : CodeOrigin.Script}

@[simp] theorem args_scriptOnChain (s : CodeOrigin.Script) : (scriptOnChain s).args = s.args := rfl

@[simp] theorem hashType_scriptOnChain (s : CodeOrigin.Script) :
    (scriptOnChain s).hashType = s.hashType := rfl

theorem codeHash_scriptOnChain (h : CodeOrigin.script bytes = .ok s) :
    (scriptOnChain s).codeHash = s.codeHash :=
  Hash.bytes_ofBytes (CodeOrigin.eq_table_of_script h).1

/-- The serialized script is a table. -/
theorem table_eq {codeHash args : List UInt8} (hashType : UInt8) (h : codeHash.length = 32) :
    table [codeHash, [hashType], byteVector args] =
      [le 4 (53 + args.length), le 4 16, le 4 48, le 4 49, codeHash, [hashType],
        le 4 args.length].flatten ++ args := by
  have hstart : ∀ i, startOf [codeHash, [hashType], byteVector args] i =
      16 + ([codeHash, [hashType], byteVector args].take i).flatten.length := fun _ ↦ rfl
  have hzero : startOf [codeHash, [hashType], byteVector args] 0 = 16 := rfl
  have hone : startOf [codeHash, [hashType], byteVector args] 1 = 48 := by
    simp [hstart, h]
  have htwo : startOf [codeHash, [hashType], byteVector args] 2 = 49 := by
    simp [hstart, h]
  have hthree : startOf [codeHash, [hashType], byteVector args] 3 = 53 + args.length := by
    rw [hstart]
    simp [h, byteVector]
    omega
  rw [table, tableHeader]
  simp only [length_cons, length_nil, zero_add, Nat.reduceAdd, List.range_succ_eq_map,
    List.range_zero, map_cons, map_nil, hzero, hone, htwo, hthree]
  simp [byteVector]

/-- The script on chain is the one that was parsed. -/
theorem bytes_scriptOnChain (h : CodeOrigin.script bytes = .ok s) :
    (scriptOnChain s).bytes = s.bytes := by
  obtain ⟨hlength, htable⟩ := CodeOrigin.eq_table_of_script h
  rw [CodeOrigin.bytes_of_script h, htable, Script.bytes, Script.header,
    codeHash_scriptOnChain h, table_eq s.hashType hlength]
  rfl

end OnChain

end CellScript.CounterSet.Host
