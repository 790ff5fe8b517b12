import CellScript.CounterSet.Family

/-!
# A counter whose verifier can migrate once

The type scripts `zk-private-counter/script/src/migratable.rs` and `config.rs`, over the helpers of
`migration.rs`. A configuration names a counter by its identifier and code, and two programs that
check it; its state selects one of them. The counter names its configuration by the hash of the
script. The two scripts run separately, and find each other by scanning the transaction.
-/

namespace CellScript.Migration

open Bytes (le ofLe field)
open CounterSet

/-! ### Helpers of both scripts -/

def maxTransactionBytes : ℕ := 16384

def counterScriptBytes : ℕ := 53 + 64

def configScriptBytes : ℕ := 53 + 160

def configBytes : ℕ := 41

/-- The text `CSZKCFG1`. -/
def configMagic : List UInt8 := [67, 83, 90, 75, 67, 70, 71, 49]

inductive Error
  | context
  | args
  | bound
  | identity
  | state
  | configuration
  | parent
  | exec
  | pairing
  | migration
  | custody
  deriving DecidableEq, Repr

def Error.code : Error → Int8
  | context => 100
  | args => 101
  | bound => 102
  | identity => 103
  | state => 104
  | configuration => 105
  | parent => 106
  | exec => 107
  | pairing => 108
  | migration => 109
  | custody => 110

/-- A system error becomes an error of the script. -/
def mapErr {α : Type} (e : Error) (x : Except SysError α) : Except Error α :=
  x.mapError fun _ ↦ e

variable (ctx : Context)

def cellExists (index : ℕ) (source : Source) : Except Error Bool :=
  match ctx.loadCell 0 index source with
  | .ok _ | .error (.lengthNotEnough _) => .ok true
  | .error .indexOutOfBound => .ok false
  | .error .itemMissing => .error .context

def checkBound (source : Source) : Except Error Unit := do
  if ← cellExists ctx maxCells source then
    throw .bound

def bounds : Except Error Unit := do
  [Source.input, .output, .cellDep].forM (checkBound ctx)
  match load 0 ctx.tx.bytes with
  | .ok size | .error (.lengthNotEnough size) =>
    if size ≤ maxTransactionBytes then .ok () else .error .bound
  | .error _ => .error .context

/-- The running script, of an exact length. -/
def currentScript (room : ℕ) : Except Error (List UInt8) :=
  let script := filled room ctx.script.bytes
  if (load room ctx.script.bytes).toOption ≠ some room ∨ script.getD 48 0 ≠ 4 then .error .args
  else .ok script

/-- The type script of a cell, of an exact length. -/
def typeScript (room index : ℕ) (source : Source) : Except Error (List UInt8) :=
  match ctx.loadCellType room index source with
  | (result, script) =>
    if result.toOption ≠ some room ∨ script.getD 48 0 ≠ 4 then .error .args else .ok script

/-- One cell at most on each side of the group, and one in the outputs. -/
def groupHasInput : Except Error Bool := do
  if ← cellExists ctx 1 .groupInput then
    throw .identity
  if ← cellExists ctx 1 .groupOutput then
    throw .identity
  if !(← cellExists ctx 0 .groupOutput) then
    throw .identity
  cellExists ctx 0 .groupInput

def preserveCustody : Except Error Unit := do
  if (← mapErr .context (ctx.loadCellLockHash 0 .groupInput)) ≠
      (← mapErr .context (ctx.loadCellLockHash 0 .groupOutput)) then
    throw .custody
  if (← mapErr .context (ctx.loadCellCapacity 0 .groupInput)) ≠
      (← mapErr .context (ctx.loadCellCapacity 0 .groupOutput)) then
    throw .custody

/-- The only match among the cells of a source, from an index on. -/
def findCellFrom (source : Source) (test : ℕ → Except Error Bool) :
    ℕ → ℕ → Option ℕ → Except Error (Option ℕ)
  | 0, _, selected => .ok selected
  | remaining + 1, index, selected => do
    if !(← cellExists ctx index source) then
      return selected
    if ← test index then
      if selected.isSome then .error .identity
      else findCellFrom source test remaining (index + 1) (some index)
    else findCellFrom source test remaining (index + 1) selected

def findCell (source : Source) (test : ℕ → Except Error Bool) : Except Error (Option ℕ) :=
  findCellFrom ctx source test maxCells 0 none

def findTypeHash (source : Source) (hash : List UInt8) : Except Error (Option ℕ) :=
  findCell ctx source fun index ↦ do
    return (← mapErr .context (ctx.loadCellTypeHash index source)).any (· == hash)

/-- Whether a loaded type script is that of a counter. -/
def isCounterScript (counterId counterCode configHash script : List UInt8) : Bool :=
  script.getD 48 0 == 4 && field 16 32 script == counterCode && field 53 32 script == counterId &&
    script.drop 85 == configHash

def findCounter (source : Source) (counterId counterCode configHash : List UInt8) :
    Except Error (Option ℕ) :=
  findCell ctx source fun index ↦
    match ctx.loadCellType counterScriptBytes index source with
    | (.ok length, script) =>
      .ok (length == counterScriptBytes && isCounterScript counterId counterCode configHash script)
    | (.error .itemMissing, _) | (.error (.lengthNotEnough _), _) => .ok false
    | (.error .indexOutOfBound, _) => .error .context

def counterState (index : ℕ) (source : Source) : Except Error (List UInt8) :=
  match ctx.loadCellData 48 index source with
  | (result, data) =>
    if result.toOption ≠ some 48 ∨ field 0 8 data ≠ counterMagic then .error .state else .ok data

/-- The hash of the program that a generation selects. -/
def parentOf (args : List UInt8) (generation : UInt8) : List UInt8 :=
  field (96 + generation.toNat * 32) 32 args

def configState (index : ℕ) (source : Source) (args : List UInt8) : Except Error (List UInt8) :=
  if args.length ≠ 160 ∨ field 96 32 args = field 128 32 args ∨
      field 96 32 args = replicate 32 0 ∨ field 128 32 args = replicate 32 0 then
    .error .args
  else
    match ctx.loadCellData configBytes index source with
    | (result, data) =>
      if result.toOption ≠ some configBytes ∨ field 0 8 data ≠ configMagic ∨ data.getD 8 0 > 1 then
        .error .configuration
      else if data.drop 9 ≠ parentOf args (data.getD 8 0) then .error .configuration
      else .ok data

def checkTypeId (id : List UInt8) : Except Error Unit :=
  if ctx.ckb.typeId ctx.tx ctx.script id then .ok () else .error .identity

/-! ### The configuration -/

namespace Config

/-- A new configuration comes with a new counter. -/
def checkCreated (input : Option ℕ) (output : ℕ) (next : List UInt8) : Except Error Unit := do
  if input.isSome ∨ next.getD 8 0 ≠ 0 then
    throw .pairing
  if (← counterState ctx output .output).drop 40 ≠ replicate 8 0 then
    throw .pairing

/-- The only change of a configuration, together with its counter. -/
def checkMigrated (input : Option ℕ) (args next : List UInt8) : Except Error Unit := do
  if input.isNone then
    throw .pairing
  preserveCustody ctx
  if (← configState ctx 0 .groupInput args).getD 8 0 ≠ 0 ∨ next.getD 8 0 ≠ 1 then
    throw .migration

def validate : Except Error Unit := do
  bounds ctx
  let script ← currentScript ctx configScriptBytes
  let args := script.drop 53
  let hasInput ← groupHasInput ctx
  checkTypeId ctx (args.take 32)
  let configHash := ctx.ckb.hash ctx.script.bytes
  let input ← findCounter ctx .input (field 32 32 args) (field 64 32 args) configHash
  match ← findCounter ctx .output (field 32 32 args) (field 64 32 args) configHash with
  | none => throw .pairing
  | some output =>
    let next ← configState ctx 0 .groupOutput args
    if hasInput then checkMigrated ctx input args next else checkCreated ctx input output next

def entry : Int8 :=
  match validate ctx with
  | .ok () => 0
  | .error e => e.code

end Config

/-! ### The counter -/

namespace Counter

/-- Where the configuration stands, by its occurrences in the transaction. -/
def locate (hasInput : Bool) (input dep output : Option ℕ) (next : List UInt8) :
    Except Error (ℕ × Source) :=
  match hasInput, input, dep, output with
  | false, none, none, some index =>
    if next.drop 40 = replicate 8 0 then .ok (index, .output) else .error .pairing
  | true, none, some index, none => .ok (index, .cellDep)
  | true, some index, none, some _ => .ok (index, .input)
  | _, _, _, _ => .error .pairing

/-- The configuration that a counter names has to name the counter. -/
def checkNamed (script configArgs : List UInt8) : Except Error Unit :=
  if field 32 32 configArgs ≠ field 53 32 script ∨ field 64 32 configArgs ≠ field 16 32 script then
    .error .pairing
  else .ok ()

/-- A configuration in the outputs has migrated. -/
def checkMigrated (output : Option ℕ) (selected configArgs : List UInt8) : Except Error Unit :=
  match output with
  | none => .ok ()
  | some output => do
    if selected.getD 8 0 ≠ 0 then
      throw .migration
    if (← configState ctx output .output configArgs).getD 8 0 ≠ 1 then
      throw .migration

/-- The program that is selected, in the only cell dependency with its hash. -/
def findParent (hash : List UInt8) : Except Error ℕ := do
  let found ← findCell ctx .cellDep fun index ↦ do
    return (← mapErr .context (ctx.loadCellDataHash index .cellDep)) == hash
  match found with
  | some parent => .ok parent
  | none => .error .parent

/-- The checks of a counter that is spent, up to the program it hands over to. -/
def continues (output : Option ℕ) (next selected configArgs : List UInt8) :
    Except Error Ending := do
  if field 8 32 (← counterState ctx 0 .groupInput) ≠ field 8 32 next then
    throw .state
  preserveCustody ctx
  checkMigrated ctx output selected configArgs
  return .execs (← findParent ctx (selected.drop 9))

def validate : Except Error Ending := do
  bounds ctx
  let script ← currentScript ctx counterScriptBytes
  let hasInput ← groupHasInput ctx
  checkTypeId ctx (field 53 32 script)
  let next ← counterState ctx 0 .groupOutput
  let input ← findTypeHash ctx .input (script.drop 85)
  let dep ← findTypeHash ctx .cellDep (script.drop 85)
  let output ← findTypeHash ctx .output (script.drop 85)
  let place ← locate hasInput input dep output next
  let config ← typeScript ctx configScriptBytes place.1 place.2
  checkNamed script (config.drop 53)
  let selected ← configState ctx place.1 place.2 (config.drop 53)
  if hasInput then continues ctx output next selected (config.drop 53)
  else if selected.getD 8 0 ≠ 0 then .error .migration
  else .ok .returns

/-- The exit code of a run. A program that is started replaces the script. -/
def entry : Int8 :=
  match validate ctx with
  | .ok .returns => 0
  | .ok (.execs parent) => (ctx.ckb.exec ctx.tx ctx.script parent).getD Error.exec.code
  | .error e => e.code

end Counter

end CellScript.Migration
