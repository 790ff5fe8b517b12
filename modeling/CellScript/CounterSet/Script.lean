import CellScript.Names
import CellScript.Library.Bytes
import CellScript.Library.Fallible

/-!
# The counter set type script

The type script of `zk-private-counter/script/src/counter_set.rs`. A family of counters shares a
code hash, an identifier and a parent program; each of its cells has a lane. A run of the script
sees its own group, and scans all inputs and outputs for the cells of its family.

The libraries that the script calls are parameters: the hash, the check of a Type ID and the program
that the script hands over to. The arrays of a selection are a list of what has been selected, and
the system errors are those that the calls report.
-/

namespace CellScript.CounterSet

open Bytes (le ofLe field padded)

/-! ### Transactions -/

structure Script where
  codeHash : List UInt8
  hashType : UInt8
  args : List UInt8
  length_codeHash : codeHash.length = 32
  deriving DecidableEq

attribute [simp] Script.length_codeHash

/-- The parts of the serialized script before its arguments. -/
def Script.header (s : Script) : List (List UInt8) :=
  [le 4 (53 + s.args.length), le 4 16, le 4 48, le 4 49, s.codeHash, [s.hashType],
    le 4 s.args.length]

def Script.bytes (s : Script) : List UInt8 := s.header.flatten ++ s.args

structure Cell where
  capacity : ℕ
  lock : Script
  type : Option Script
  data : List UInt8
  deriving DecidableEq

/-- The serialized cell, a table of three fields. -/
def Cell.bytes (c : Cell) : List UInt8 :=
  let type := c.type.elim [] Script.bytes
  le 4 (24 + c.lock.bytes.length + type.length) ++ le 4 16 ++ le 4 24 ++
    le 4 (24 + c.lock.bytes.length) ++ le 8 c.capacity ++ c.lock.bytes ++ type

structure Transaction where
  bytes : List UInt8
  inputs : List Cell
  outputs : List Cell
  cellDeps : List Cell
  deriving DecidableEq

inductive Source
  | input
  | output
  | cellDep
  | groupInput
  | groupOutput
  deriving DecidableEq

/-- What the script takes from its libraries. -/
structure Ckb where
  /-- The hash of a serialized script. -/
  hash : List UInt8 → List UInt8
  /-- The hash of the data of a cell. -/
  dataHash : List UInt8 → List UInt8
  /-- Whether the check of an identifier as the Type ID of the group of a script succeeds. -/
  typeId : Transaction → Script → List UInt8 → Bool
  /-- The exit code of the program in a cell dependency, if it can be started. -/
  exec : Transaction → Script → ℕ → Option Int8

/-- A run of a type script on a transaction. -/
structure Context where
  ckb : Ckb
  tx : Transaction
  script : Script

/-! ### System calls -/

inductive SysError
  | indexOutOfBound
  | itemMissing
  | lengthNotEnough (actual : ℕ)
  deriving DecidableEq

/-- The result of loading an item into a buffer. -/
def load (room : ℕ) (item : List UInt8) : Except SysError ℕ :=
  if item.length ≤ room then .ok item.length else .error (.lengthNotEnough item.length)

/-- The buffer after an item was loaded. -/
def filled (room : ℕ) (item : List UInt8) : List UInt8 := padded room 0 (item.take room)

namespace Context

variable (ctx : Context)

def cells : Source → List Cell
  | .input => ctx.tx.inputs
  | .output => ctx.tx.outputs
  | .cellDep => ctx.tx.cellDeps
  | .groupInput => ctx.tx.inputs.filter fun c ↦ c.type = some ctx.script
  | .groupOutput => ctx.tx.outputs.filter fun c ↦ c.type = some ctx.script

def cell (index : ℕ) (source : Source) : Except SysError Cell :=
  match (ctx.cells source)[index]? with
  | some c => .ok c
  | none => .error .indexOutOfBound

def loadCell (room index : ℕ) (source : Source) : Except SysError ℕ := do
  load room (← ctx.cell index source).bytes

/-- The type script of a cell, with its result and the buffer. -/
def loadCellType (room index : ℕ) (source : Source) : Except SysError ℕ × List UInt8 :=
  match ctx.cell index source with
  | .error e => (.error e, filled room [])
  | .ok c =>
    match c.type with
    | none => (.error .itemMissing, filled room [])
    | some type => (load room type.bytes, filled room type.bytes)

def loadCellData (room index : ℕ) (source : Source) : Except SysError ℕ × List UInt8 :=
  match ctx.cell index source with
  | .error e => (.error e, filled room [])
  | .ok c => (load room c.data, filled room c.data)

def loadCellTypeHash (index : ℕ) (source : Source) : Except SysError (Option (List UInt8)) := do
  return (← ctx.cell index source).type.map fun s ↦ ctx.ckb.hash s.bytes

def loadCellLockHash (index : ℕ) (source : Source) : Except SysError (List UInt8) := do
  return ctx.ckb.hash (← ctx.cell index source).lock.bytes

def loadCellCapacity (index : ℕ) (source : Source) : Except SysError ℕ := do
  return (← ctx.cell index source).capacity

def loadCellDataHash (index : ℕ) (source : Source) : Except SysError (List UInt8) := do
  return ctx.ckb.dataHash (← ctx.cell index source).data

end Context

/-! ### The script -/

def scriptBytes : ℕ := 126

def maxCells : ℕ := 64

def maxSet : ℕ := 4

/-- The text `CSZKSET1`. -/
def setMagic : List UInt8 := [67, 83, 90, 75, 83, 69, 84, 49]

/-- The text `CSZKCNT1`. -/
def counterMagic : List UInt8 := [67, 83, 90, 75, 67, 78, 84, 49]

inductive Error
  | context
  | args
  | bound
  | selection
  | correspondence
  | state
  | creation
  | parent
  | exec
  | custody
  deriving DecidableEq, Repr

def Error.code : Error → Int8
  | context => 111
  | args => 112
  | bound => 113
  | selection => 114
  | correspondence => 115
  | state => 116
  | creation => 117
  | parent => 118
  | exec => 119
  | custody => 120

/-- The index and the lane of each selected cell. -/
abbrev Selection := List (ℕ × UInt8)

/-- How a run that raises no error ends. -/
inductive Ending
  | returns
  | execs (parent : ℕ)
  deriving DecidableEq

/-- A system error becomes an error of the script. -/
def mapErr {α : Type} (e : Error) (x : Except SysError α) : Except Error α :=
  x.mapError fun _ ↦ e

namespace Context

variable (ctx : Context)

def cellExists (index : ℕ) (source : Source) : Except Error Bool :=
  match ctx.loadCell 0 index source with
  | .ok _ | .error (.lengthNotEnough _) => .ok true
  | .error .indexOutOfBound => .ok false
  | .error .itemMissing => .error .context

/-- The checks of a type script that was loaded, and its selection if it is of the family. -/
def selectScript (current : List UInt8) (index length : ℕ) (script : List UInt8)
    (selected : Selection) : Except Error Selection :=
  if field 16 32 script ≠ field 16 32 current then .ok selected
  else if length < 93 ∨ field 53 8 script ≠ setMagic then .error .args
  else if field 61 32 script ≠ field 61 32 current then .ok selected
  else if length ≠ scriptBytes ∨ script.getD 48 0 ≠ 4 ∨ script.drop 94 ≠ current.drop 94 ∨
      script.getD 93 0 ≥ 4 then .error .args
  else if selected.length = maxSet ∨ ∃ last ∈ selected.getLast?, script.getD 93 0 ≤ last.2 then
    .error .selection
  else .ok (selected ++ [(index, script.getD 93 0)])

def selectCell (current : List UInt8) (source : Source) (index : ℕ) (selected : Selection) :
    Except Error Selection :=
  match ctx.loadCellType scriptBytes index source with
  | (.ok length, script) | (.error (.lengthNotEnough length), script) =>
    selectScript current index length script selected
  | (.error .itemMissing, _) => .ok selected
  | (.error .indexOutOfBound, _) => .error .context

def selectFrom (current : List UInt8) (source : Source) :
    ℕ → ℕ → Selection → Except Error Selection
  | 0, _, selected => .ok selected
  | remaining + 1, index, selected => do
    if !(← ctx.cellExists index source) then
      return selected
    selectFrom current source remaining (index + 1) (← ctx.selectCell current source index selected)

def select (current : List UInt8) (source : Source) : Except Error Selection :=
  ctx.selectFrom current source maxCells 0 []

def state (index : ℕ) (source : Source) : Except Error (List UInt8) :=
  match ctx.loadCellData 48 index source with
  | (result, data) =>
    if result.toOption ≠ some 48 ∨ field 0 8 data ≠ counterMagic then .error .state else .ok data

def checkBound (source : Source) : Except Error Unit := do
  if ← ctx.cellExists maxCells source then
    throw .bound

def checkTransaction : Except Error Unit :=
  match load 0 ctx.tx.bytes with
  | .ok n | .error (.lengthNotEnough n) => if n ≤ 16384 then .ok () else .error .bound
  | .error _ => .error .bound

def loadScript : Except Error (List UInt8) :=
  let script := filled scriptBytes ctx.script.bytes
  if (load scriptBytes ctx.script.bytes).toOption ≠ some scriptBytes ∨ script.getD 48 0 ≠ 4 ∨
      field 53 8 script ≠ setMagic ∨ script.getD 93 0 ≥ 4 ∨
      script.drop 94 = replicate 32 0 then .error .args
  else .ok script

/-- One cell at most on each side of the group, and one in the outputs. -/
def checkGroup : Except Error Unit := do
  if ← ctx.cellExists 1 .groupInput then
    throw .correspondence
  if ← ctx.cellExists 1 .groupOutput then
    throw .correspondence
  if !(← ctx.cellExists 0 .groupOutput) then
    throw .correspondence

/-- The checks of the selected output at a place of a creation. -/
def checkCreated (output : (ℕ × UInt8) × ℕ) : Except Error Unit := do
  if output.1.2 ≠ UInt8.ofNat output.2 then
    throw .creation
  if (← ctx.state output.1.1 .output).drop 40 ≠ replicate 8 0 then
    throw .creation

/-- A creation has the lanes `0, 1, …`, each at zero. -/
def checkCreation (script : List UInt8) (outputs : Selection) : Except Error Ending := do
  if ← ctx.cellExists 0 .groupInput then
    throw .creation
  outputs.zipIdx.forM ctx.checkCreated
  -- lane 0, which every creation has, authenticates the identifier of the family
  if script.getD 93 0 = 0 ∧ !ctx.ckb.typeId ctx.tx ctx.script (field 61 32 script) then
    throw .creation
  return .returns

/-- The checks of an input and the output that takes its place. -/
def checkPair (pair : (ℕ × UInt8) × (ℕ × UInt8)) : Except Error Unit := do
  let input := pair.1.1
  let output := pair.2.1
  if (← mapErr .context (ctx.loadCellTypeHash input .input)) ≠
      (← mapErr .context (ctx.loadCellTypeHash output .output)) then
    throw .correspondence
  if field 8 32 (← ctx.state input .input) ≠ field 8 32 (← ctx.state output .output) then
    throw .state
  if (← mapErr .context (ctx.loadCellLockHash input .input)) ≠
      (← mapErr .context (ctx.loadCellLockHash output .output)) then
    throw .custody
  if (← mapErr .context (ctx.loadCellCapacity input .input)) ≠
      (← mapErr .context (ctx.loadCellCapacity output .output)) then
    throw .custody

/-- The only cell dependency with the hash of the parent program. -/
def findParent (hash : List UInt8) : ℕ → ℕ → Option ℕ → Except Error (Option ℕ)
  | 0, _, parent => .ok parent
  | remaining + 1, index, parent =>
    match ctx.loadCellDataHash index .cellDep with
    | .error .indexOutOfBound => .ok parent
    | .error _ => .error .parent
    | .ok found =>
      if found = hash then
        if parent.isSome then .error .parent else findParent hash remaining (index + 1) (some index)
      else findParent hash remaining (index + 1) parent

/-- A transition keeps the lanes and hands over to the parent. -/
def checkTransition (script : List UInt8) (inputs outputs : Selection) : Except Error Ending := do
  if !(← ctx.cellExists 0 .groupInput) then
    throw .correspondence
  if inputs.length ≠ outputs.length ∨ inputs.map (·.2) ≠ outputs.map (·.2) then
    throw .correspondence
  (inputs.zip outputs).forM ctx.checkPair
  match ← ctx.findParent (script.drop 94) maxCells 0 none with
  | some parent => return .execs parent
  | none => throw .parent

def validate : Except Error Ending := do
  [Source.input, .output, .cellDep].forM ctx.checkBound
  ctx.checkTransaction
  let script ← ctx.loadScript
  let inputs ← ctx.select script .input
  let outputs ← ctx.select script .output
  ctx.checkGroup
  if outputs = [] then
    throw .correspondence
  if inputs = [] then
    ctx.checkCreation script outputs
  else
    ctx.checkTransition script inputs outputs

/-- The exit code of a run. A program that is started replaces the script. -/
def entry : Int8 :=
  match ctx.validate with
  | .ok .returns => 0
  | .ok (.execs parent) => (ctx.ckb.exec ctx.tx ctx.script parent).getD Error.exec.code
  | .error e => e.code

end Context

end CellScript.CounterSet
