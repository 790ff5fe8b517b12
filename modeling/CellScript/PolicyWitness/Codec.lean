import CellScript.Checker.Tables
import CellScript.Policy.OpenHandle
import Mathlib.Data.Prod.Lex

/-!
# Policy witness bundles

The host codec of `policy_witness.rs`. A bundle is a table of records behind a magic number, and a
record is a table of a role, a full script hash, a tag and arguments. The decoder walks the offsets
itself, and the encoder writes them.
-/

namespace CellScript.PolicyWitness

open Bytes (le ofLe field)
open Checker.Nested (u32 offset item)
open Checker.Nested.Molecule (table byteVector)
open OpenHandlePolicy (Hash)

/-! ### Records -/

/-- The bytes of `CSPOLv1\0`. -/
def policyWitnessMagic : List UInt8 := [67, 83, 80, 79, 76, 118, 49, 0]

def maxPolicyWitnessBytes : ℕ := 4096

/-- An otherwise empty `WitnessArgs` costs 16 table bytes and 4 bytes for the length. -/
def maxPolicyWitnessBundleBytes : ℕ := maxPolicyWitnessBytes - 20

def maxPolicyWitnessRecords : ℕ := 8

/-- The bytes of `CSARGv1\0`. -/
def entryArgsMagic : List UInt8 := [67, 83, 65, 82, 71, 118, 49, 0]

def recordHeaderBytes : ℕ := 20

def recordFixedBytes : ℕ := 61

inductive PolicyScriptRole
  | lock
  | type
  deriving DecidableEq, Repr

inductive PolicyWitnessError
  | recordCount (count : ℕ)
  | sizeLimit
  | invalidMagic
  | invalidStructure (detail : String)
  | unknownRole (role : UInt8)
  | duplicateKey
  | nonCanonicalOrder
  | invalidArgsMagic
  deriving DecidableEq, Repr

namespace PolicyScriptRole

def asByte : PolicyScriptRole → UInt8
  | lock => 0
  | type => 1

def fromByte (value : UInt8) : Except PolicyWitnessError PolicyScriptRole :=
  if value = 0 then .ok lock
  else if value = 1 then .ok type
  else .error (.unknownRole value)

theorem asByte_injective : Injective asByte := by
  intro a b h
  cases a <;> cases b <;> first | rfl | exact absurd h (by decide)

/-- Roles compare by their byte. -/
instance : LinearOrder PolicyScriptRole :=
  LinearOrder.lift' (fun role ↦ role.asByte.toNat) fun _ _ h ↦
    asByte_injective (UInt8.toNat_inj.1 h)

end PolicyScriptRole

structure PolicyWitnessRecord where
  role : PolicyScriptRole
  scriptHash : Hash
  tag : UInt32
  args : List UInt8
  deriving DecidableEq

namespace PolicyWitnessRecord

/-- What the records of a bundle are ordered by. -/
def key (r : PolicyWitnessRecord) : PolicyScriptRole ×ₗ Hash := toLex (r.role, r.scriptHash)

end PolicyWitnessRecord

/-! ### Encoding -/

def validateRecordCount (count : ℕ) : Except PolicyWitnessError Unit :=
  if ¬ (1 ≤ count ∧ count ≤ maxPolicyWitnessRecords) then .error (.recordCount count) else .ok ()

def validateArgs (args : List UInt8) : Except PolicyWitnessError Unit :=
  if args ≠ [] ∧ args.take entryArgsMagic.length ≠ entryArgsMagic then .error .invalidArgsMagic
  else .ok ()

/-- The records in the order of their keys. -/
def ordered (records : List PolicyWitnessRecord) : List PolicyWitnessRecord :=
  records.insertionSort fun a b ↦ a.key ≤ b.key

/-- The loop that checks the arguments and adds up the bytes. A sum that leaves the machine word is
over the limit, too. -/
def totalBytes : ℕ → List PolicyWitnessRecord → Except PolicyWitnessError ℕ
  | total, [] => .ok total
  | total, record :: records => do
    validateArgs record.args
    if total + recordFixedBytes + record.args.length > maxPolicyWitnessBundleBytes then
      throw .sizeLimit
    totalBytes (total + recordFixedBytes + record.args.length) records

/-- The loop that writes the offsets of the records. -/
def writeOffsets : ℕ → List PolicyWitnessRecord → List UInt8
  | _, [] => []
  | offset, record :: records =>
    le 4 offset ++ writeOffsets (offset + (recordFixedBytes + record.args.length)) records

def writeRecord (record : PolicyWitnessRecord) : List UInt8 :=
  le 4 (recordFixedBytes + record.args.length) ++
    ([recordHeaderBytes, 21, 53, 57].flatMap (le 4) ++
    (record.role.asByte :: (record.scriptHash.bytes ++
      (le 4 record.tag.toNat ++ (le 4 record.args.length ++ record.args)))))

/-- Records in the order of their keys, as one vector. -/
def encodePolicyWitnessBundle (records : List PolicyWitnessRecord) :
    Except PolicyWitnessError (List UInt8) := do
  validateRecordCount records.length
  let ordered := ordered records
  if (ordered.zip ordered.tail).any fun pair ↦ pair.1.key = pair.2.key then
    throw .duplicateKey
  let headerBytes := 4 * (records.length + 1)
  let total ← totalBytes (policyWitnessMagic.length + headerBytes) ordered
  return policyWitnessMagic ++ (le 4 (total - policyWitnessMagic.length) ++
    (writeOffsets headerBytes ordered ++ ordered.flatMap writeRecord))

/-! ### Decoding -/

def readU32 (encoded : List UInt8) (offset : ℕ) : Except PolicyWitnessError ℕ :=
  if offset + 4 ≤ encoded.length then .ok (ofLe (field offset 4 encoded))
  else .error (.invalidStructure "truncated u32")

/-- The four offsets of a record are checked one after the other. -/
def checkOffsets (encoded : List UInt8) : ℕ → List ℕ → Except PolicyWitnessError Unit
  | _, [] => .ok ()
  | index, expected :: rest => do
    if (← readU32 encoded (4 * (index + 1))) ≠ expected then
      throw (.invalidStructure "record must have exactly the four fixed v1 field offsets")
    checkOffsets encoded (index + 1) rest

def decodeRecord (encoded : List UInt8) : Except PolicyWitnessError PolicyWitnessRecord := do
  if encoded.length < recordFixedBytes then
    throw (.invalidStructure "record total size does not match its range")
  if (← readU32 encoded 0) ≠ encoded.length then
    throw (.invalidStructure "record total size does not match its range")
  checkOffsets encoded 0 [recordHeaderBytes, 21, 53, 57]
  let role ← PolicyScriptRole.fromByte (encoded.getD 20 0)
  let scriptHash := Hash.ofBytes (field 21 32 encoded)
  let tag := UInt32.ofNat (ofLe (field 53 4 encoded))
  if (← readU32 encoded 57) ≠ encoded.length - recordFixedBytes then
    throw (.invalidStructure "args Bytes length does not match its range")
  let args := encoded.drop recordFixedBytes
  validateArgs args
  return ⟨role, scriptHash, tag, args⟩

/-- The key of a record is compared with that of the record before it. -/
def checkOrder (previous : Option PolicyWitnessRecord) (record : PolicyWitnessRecord) :
    Except PolicyWitnessError Unit :=
  match previous with
  | none => .ok ()
  | some previous =>
    match compare previous.key record.key with
    | .eq => .error .duplicateKey
    | .gt => .error .nonCanonicalOrder
    | .lt => .ok ()

/-- Where the record at an index ends. -/
def endOf (vector : List UInt8) (count index : ℕ) : Except PolicyWitnessError ℕ :=
  if index + 1 = count then .ok vector.length else readU32 vector (4 * (index + 2))

/-- The loop over the records, from an index on. -/
def decodeFrom (vector : List UInt8) (firstOffset count : ℕ) :
    ℕ → ℕ → List PolicyWitnessRecord → Except PolicyWitnessError (List PolicyWitnessRecord)
  | 0, _, records => .ok records
  | remaining + 1, index, records => do
    let start ← readU32 vector (4 * (index + 1))
    let stop ← endOf vector count index
    if start < firstOffset ∨ start ≥ stop ∨ stop > vector.length then
      throw (.invalidStructure "invalid or overlapping record offsets")
    let record ← decodeRecord (field start (stop - start) vector)
    checkOrder records.getLast? record
    decodeFrom vector firstOffset count remaining (index + 1) (records ++ [record])

/-- The part of `decode_policy_witness_bundle` behind the magic number. -/
def decodeVector (vector : List UInt8) : Except PolicyWitnessError (List PolicyWitnessRecord) := do
  if (← readU32 vector 0) ≠ vector.length then
    throw (.invalidStructure "DynVec total size does not match the bundle")
  if vector.length = 4 then
    throw (.recordCount 0)
  let firstOffset ← readU32 vector 4
  if firstOffset < 8 ∨ firstOffset % 4 ≠ 0 ∨ firstOffset > vector.length then
    throw (.invalidStructure "invalid DynVec header")
  let count := firstOffset / 4 - 1
  validateRecordCount count
  decodeFrom vector firstOffset count count 0 []

/-- Reads a bundle, in canonical form only. -/
def decodePolicyWitnessBundle (encoded : List UInt8) :
    Except PolicyWitnessError (List PolicyWitnessRecord) := do
  if encoded.length > maxPolicyWitnessBundleBytes then
    throw .sizeLimit
  if encoded.take policyWitnessMagic.length ≠ policyWitnessMagic then
    throw .invalidMagic
  decodeVector (encoded.drop policyWitnessMagic.length)

/-- The record for a role and a full hash. -/
def selectedRecord (records : List PolicyWitnessRecord) (role : PolicyScriptRole)
    (scriptHash : Hash) : Option PolicyWitnessRecord :=
  records.find? fun record ↦ record.role = role ∧ record.scriptHash = scriptHash

end CellScript.PolicyWitness
