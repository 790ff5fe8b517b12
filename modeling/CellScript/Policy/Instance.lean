import CellScript.Policy.OpenHandle

/-!
# Script-instance policies

The policies of `instance_policy.rs` over an open-handle selection: constraints that partition the
arguments of a script, the record of a policy with the hash of its argument schema, the arguments of
a consumer, and the selection that is verified against them. Records are written as the
concatenation of their parts and padded to their fixed length.
-/

namespace CellScript.ScriptInstance

open Bytes (le ofLe field padded)
open OpenHandlePolicy (Hash CodeHashType ScriptRole PolicyError PolicyMembership ascii byteAt hashAt
  u64At)

def maxArgs : ℕ := 256

def maxConfig : ℕ := 128

def maxConstraints : ℕ := 16

def constraintBytes : ℕ := 48

def policyHeaderBytes : ℕ := 80

def policyBytes : ℕ := policyHeaderBytes + maxConstraints * constraintBytes

def consumerArgsBytes : ℕ := 80 + maxConfig

def selectionBytes : ℕ := 8 + policyBytes + OpenHandlePolicy.selectionBytes + maxArgs

def policyMagic : List UInt8 := ascii "CSINPv1\x00"

def consumerMagic : List UInt8 := ascii "CSINCv1\x00"

def selectionMagic : List UInt8 := ascii "CSINWv1\x00"

def policyDomain : List UInt8 := ascii "cellscript-instance-policy-v1\x00"

def argsSchemaDomain : List UInt8 := ascii "cellscript-instance-args-schema-v1\x00"

def implementationOffset : ℕ := 8 + policyBytes

def argsOffset : ℕ := implementationOffset + OpenHandlePolicy.selectionBytes

inductive InstanceMode
  | exactly
  | constrained
  deriving DecidableEq

inductive ArgsConstraint
  | bytes (offset : UInt16) (value : List UInt8)
  | unsigned (offset width : UInt16) (minimum maximum : UInt64)
  | config (offset length configOffset : UInt16)
  | any (offset length : UInt16)
  deriving DecidableEq

structure InstancePolicy where
  implementationRoot : Hash
  mode : InstanceMode
  argsLength : UInt16
  configLength : UInt16
  constraints : List ArgsConstraint
  deriving DecidableEq

structure ConsumerArgs where
  policyRoot : Hash
  subject : Hash
  config : List UInt8
  deriving DecidableEq

inductive InstanceError
  | length
  | magic
  | reserved
  | tag
  | bounds
  | partition
  | mode
  | schema
  | root
  | constraint
  | subject
  | implementation (error : PolicyError)
  deriving DecidableEq

def u16At (bytes : List UInt8) (start : ℕ) : UInt16 := UInt16.ofNat (ofLe (field start 2 bytes))

/-- A range of a string, if the string is long enough. -/
def range? (bytes : List UInt8) (start len : ℕ) : Option (List UInt8) :=
  if start + len ≤ bytes.length then some (field start len bytes) else none

/-! ### Constraints -/

namespace ArgsConstraint

def offset : ArgsConstraint → ℕ
  | bytes offset _ | unsigned offset _ _ _ | config offset _ _ | any offset _ => offset.toNat

def length : ArgsConstraint → ℕ
  | bytes _ value => value.length
  | unsigned _ width _ _ => width.toNat
  | config _ length _ | any _ length => length.toNat

def isUnsigned : ArgsConstraint → Bool
  | unsigned .. => true
  | _ => false

def isBytes : ArgsConstraint → Bool
  | bytes .. => true
  | _ => false

def span (rule : ArgsConstraint) : Except InstanceError (ℕ × ℕ) :=
  if rule.length = 0 ∨ rule.length > maxArgs ∨ rule.offset + rule.length > maxArgs then
    .error .bounds
  else .ok (rule.offset, rule.length)

/-- The parts of the row of a constraint. -/
def rowParts (tag : UInt8) (length offset configOffset : ℕ) (payload : List (List UInt8)) :
    List (List UInt8) :=
  [[tag], [0], le 2 length, le 2 offset, le 2 configOffset, replicate 8 0] ++ payload

/-- The row of a constraint. -/
def row (tag : UInt8) (length offset configOffset : ℕ) (payload : List (List UInt8)) : List UInt8 :=
  padded constraintBytes 0 (rowParts tag length offset configOffset payload).flatten

def encode (rule : ArgsConstraint) (configLength : ℕ) : Except InstanceError (List UInt8) := do
  let (offset, length) ← rule.span
  match rule with
  | bytes _ value =>
    if length > 32 then
      throw .bounds
    return row 0 length offset 0 [value]
  | unsigned _ _ minimum maximum =>
    if length ∉ [1, 2, 4, 8] ∨ minimum > maximum ∨
        (length < 8 ∧ maximum.toNat ≥ 2 ^ (length * 8)) then
      throw .bounds
    return row 1 length offset 0 [le 8 minimum.toNat, le 8 maximum.toNat]
  | config _ _ configOffset =>
    if configOffset.toNat + length > configLength then
      throw .bounds
    return row 2 length offset configOffset.toNat []
  | any _ _ => return row 3 length offset 0 []

/-- The rule that a row reads as. -/
def parse (bytes : List UInt8) : Except InstanceError ArgsConstraint :=
  let length := u16At bytes 2
  let offset := u16At bytes 4
  if byteAt bytes 0 = 0 then
    if length ≤ 32 then .ok (.bytes offset (field 16 length.toNat bytes)) else .error .bounds
  else if byteAt bytes 0 = 1 then
    .ok (.unsigned offset length (u64At bytes 16) (u64At bytes 24))
  else if byteAt bytes 0 = 2 then .ok (.config offset length (u16At bytes 6))
  else if byteAt bytes 0 = 3 then .ok (.any offset length)
  else .error .tag

def decode (bytes : List UInt8) (configLength : ℕ) : Except InstanceError ArgsConstraint := do
  let rule ← parse bytes
  -- encoding it again checks every unused byte and rules out other forms
  let encoded ← rule.encode configLength
  if encoded ≠ bytes then
    throw .reserved
  return rule

/-- Whether the value of a range satisfies the rule. -/
def admits (rule : ArgsConstraint) (config value : List UInt8) : Except InstanceError Bool :=
  match rule with
  | bytes _ expected => .ok (value == expected)
  | unsigned _ _ minimum maximum =>
    let scalar := ofLe (padded 8 0 value)
    .ok (decide (minimum.toNat ≤ scalar ∧ scalar ≤ maximum.toNat))
  | .config _ length configOffset =>
    match range? config configOffset.toNat length.toNat with
    | some expected => .ok (value == expected)
    | none => .error .bounds
  | any _ _ => .ok true

def check (rule : ArgsConstraint) (args config : List UInt8) : Except InstanceError Unit := do
  let (offset, length) ← rule.span
  match range? args offset length with
  | none => throw .bounds
  | some value =>
    let holds ← rule.admits config value
    if ¬holds then
      throw .constraint

end ArgsConstraint

/-! ### Policies -/

namespace InstancePolicy

variable (hash : List UInt8 → Hash)

/-- A field of the argument schema, at its place in the partition. -/
def schemaRow (configLength : ℕ) (state : ℕ × List (List UInt8)) (rule : ArgsConstraint) :
    Except InstanceError (ℕ × List (List UInt8)) := do
  let (cursor, rows) := state
  let encoded ← rule.encode configLength
  let (offset, length) ← rule.span
  if offset ≠ cursor then
    throw .partition
  let row := padded 8 0 (field 4 2 encoded ++ field 2 2 encoded ++
    [if rule.isUnsigned then 1 else 0])
  return (cursor + length, rows ++ [row])

/-- The hash of the layout that the constraints partition. -/
def argsSchema (policy : InstancePolicy) : Except InstanceError Hash := do
  if policy.constraints.length > maxConstraints ∨ policy.argsLength.toNat > maxArgs ∨
      policy.configLength.toNat > maxConfig then
    throw .bounds
  let (cursor, rows) ← policy.constraints.foldlM (schemaRow policy.configLength.toNat) (0, [])
  if cursor ≠ policy.argsLength.toNat then
    throw .partition
  return hash (argsSchemaDomain ++ padded (8 + maxConstraints * 8) 0
    (padded 8 0 (le 2 policy.argsLength.toNat ++ [UInt8.ofNat policy.constraints.length]) ++
      rows.flatten))

def modeTag : InstanceMode → UInt8
  | .exactly => 0
  | .constrained => 1

/-- The row of a constraint, at its place in the partition. -/
def policyRow (policy : InstancePolicy) (state : ℕ × List (List UInt8)) (rule : ArgsConstraint) :
    Except InstanceError (ℕ × List (List UInt8)) := do
  let (cursor, rows) := state
  let (offset, length) ← rule.span
  if offset ≠ cursor then
    throw .partition
  if policy.mode = .exactly ∧ rule.isBytes = false then
    throw .mode
  let encoded ← rule.encode policy.configLength.toNat
  return (cursor + length, rows ++ [encoded])

/-- The parts of the record before the rows. -/
def headerParts (policy : InstancePolicy) (schema : Hash) : List (List UInt8) :=
  [policyMagic, [modeTag policy.mode], [UInt8.ofNat policy.constraints.length],
    le 2 policy.argsLength.toNat, le 2 policy.configLength.toNat, replicate 2 0,
    policy.implementationRoot.bytes, schema.bytes]

/-- The parts of the record. -/
def parts (policy : InstancePolicy) (schema : Hash) (rows : List (List UInt8)) :
    List (List UInt8) :=
  policy.headerParts schema ++ (rows ++
    [replicate ((maxConstraints - rows.length) * constraintBytes) 0])

def encode (policy : InstancePolicy) : Except InstanceError (List UInt8) := do
  if policy.argsLength.toNat > maxArgs ∨ policy.configLength.toNat > maxConfig ∨
      policy.constraints.length > maxConstraints ∨ policy.implementationRoot = Hash.zero then
    throw .bounds
  let schema ← policy.argsSchema hash
  let (cursor, rows) ← policy.constraints.foldlM (policyRow policy) (0, [])
  if cursor ≠ policy.argsLength.toNat then
    throw .partition
  return (policy.parts schema rows).flatten

def decodeMode (tag : UInt8) : Except InstanceError InstanceMode :=
  if tag = 0 then .ok .exactly else if tag = 1 then .ok .constrained else .error .tag

def decode (bytes : List UInt8) : Except InstanceError InstancePolicy := do
  if bytes.length ≠ policyBytes then
    throw .length
  if field 0 8 bytes ≠ policyMagic then
    throw .magic
  let count := (byteAt bytes 9).toNat
  let configLength := u16At bytes 12
  if count > maxConstraints ∨ configLength.toNat > maxConfig ∨ (u16At bytes 10).toNat > maxArgs then
    throw .bounds
  let mode ← decodeMode (byteAt bytes 8)
  let constraints ← (List.range count).mapM fun i ↦
    ArgsConstraint.decode (field (policyHeaderBytes + i * constraintBytes) constraintBytes bytes)
      configLength.toNat
  let policy : InstancePolicy :=
    { implementationRoot := hashAt bytes 16, mode, argsLength := u16At bytes 10, configLength,
      constraints }
  let schema ← policy.argsSchema hash
  if hashAt bytes 48 ≠ schema then
    throw .schema
  let encoded ← policy.encode hash
  if encoded ≠ bytes then
    throw .reserved
  return policy

def root (policy : InstancePolicy) : Except InstanceError Hash := do
  let encoded ← policy.encode hash
  return hash (policyDomain ++ encoded)

def checkArgs (policy : InstancePolicy) (args config : List UInt8) : Except InstanceError Unit := do
  let _ ← policy.encode hash
  if args.length ≠ policy.argsLength.toNat ∨ config.length ≠ policy.configLength.toNat then
    throw .length
  policy.constraints.forM (·.check args config)

end InstancePolicy

/-! ### Consumers -/

namespace ConsumerArgs

/-- The parts of the record. -/
def parts (args : ConsumerArgs) : List (List UInt8) :=
  [consumerMagic, args.policyRoot.bytes, args.subject.bytes, le 2 args.config.length,
    replicate 6 0, args.config, replicate (maxConfig - args.config.length) 0]

def encode (args : ConsumerArgs) : Except InstanceError (List UInt8) := do
  if args.config.length > maxConfig ∨ args.policyRoot = Hash.zero ∨ args.subject = Hash.zero then
    throw .bounds
  return args.parts.flatten

def decode (bytes : List UInt8) : Except InstanceError ConsumerArgs := do
  if bytes.length ≠ consumerArgsBytes then
    throw .length
  if field 0 8 bytes ≠ consumerMagic then
    throw .magic
  let length := (u16At bytes 72).toNat
  if length > maxConfig then
    throw .bounds
  let args : ConsumerArgs :=
    { policyRoot := hashAt bytes 8, subject := hashAt bytes 40, config := field 80 length bytes }
  let encoded ← args.encode
  if encoded ≠ bytes then
    throw .reserved
  return args

end ConsumerArgs

/-! ### Selections -/

/-- A script as a Molecule table. -/
def scriptTable (codeHash : Hash) (hashType : CodeHashType) (args : List UInt8) : List UInt8 :=
  [le 4 (53 + args.length), le 4 16, le 4 48, le 4 49, codeHash.bytes, [hashType.tag],
    le 4 args.length, args].flatten

def instanceScript (codeHash : Hash) (hashType : CodeHashType) (args : List UInt8) :
    Except InstanceError (List UInt8) := do
  if args.length > maxArgs then
    throw .bounds
  return scriptTable codeHash hashType args

structure InstanceMembership where
  policy : InstancePolicy
  implementation : PolicyMembership
  script : List UInt8
  scriptHash : Hash
  deriving DecidableEq

section Selections

variable (hash : List UInt8 → Hash)

/-- The verification of the implementation, with its errors wrapped. -/
def verifyImplementation (root : Hash) (bytes : List UInt8) :
    Except InstanceError PolicyMembership :=
  match OpenHandlePolicy.verifySelection hash root bytes with
  | .ok membership => .ok membership
  | .error error => .error (.implementation error)

/-- The parts of a selection. -/
def selectionParts (policy implementation args : List UInt8) : List (List UInt8) :=
  [selectionMagic, policy, implementation, args, replicate (maxArgs - args.length) 0]

/-- The witness for arguments and an implementation. -/
def encodeSelection (policy : InstancePolicy) (implementation args : List UInt8) :
    Except InstanceError (List UInt8) := do
  let encodedPolicy ← policy.encode hash
  if args.length ≠ policy.argsLength.toNat then
    throw .length
  let _ ← verifyImplementation hash policy.implementationRoot implementation
  return (selectionParts encodedPolicy implementation args).flatten

/-- What the consumer checks of a witness. -/
def verifySelection (consumerArgs bytes : List UInt8) :
    Except InstanceError InstanceMembership := do
  if bytes.length ≠ selectionBytes then
    throw .length
  if field 0 8 bytes ≠ selectionMagic then
    throw .magic
  let consumer ← ConsumerArgs.decode consumerArgs
  let policy ← InstancePolicy.decode hash (field 8 policyBytes bytes)
  let root ← policy.root hash
  if root ≠ consumer.policyRoot then
    throw .root
  let implementation ← verifyImplementation hash policy.implementationRoot
    (field implementationOffset OpenHandlePolicy.selectionBytes bytes)
  let args := field argsOffset policy.argsLength.toNat bytes
  if (bytes.drop (argsOffset + args.length)).any (· ≠ 0) then
    throw .reserved
  policy.checkArgs hash args consumer.config
  if policy.mode = .constrained ∧ implementation.header.role = .spawnedVerifier then
    throw .mode
  let script ← instanceScript implementation.member.codeHash implementation.member.hashType args
  let scriptHash := hash script
  if scriptHash ≠ consumer.subject ∨
      (policy.mode = .exactly ∧ scriptHash ≠ implementation.member.script) then
    throw .subject
  return { policy, implementation, script, scriptHash }

end Selections

end CellScript.ScriptInstance
