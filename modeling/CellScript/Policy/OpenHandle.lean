import CellScript.Names
import CellScript.Library.Bytes
import CellScript.Library.Fallible
import CellScript.Library.HeapTree

/-!
# Open-handle policies

The authorization sets of `open_handle_policy.rs`: fixed-width records for a policy header and its
members, a tree of member hashes under a root that binds the header, and the selection of one member
with the siblings on its way to the root. The hash function is a parameter.

A record is the concatenation of its parts, which is what the source writes into a buffer by
offsets; the readers take their fields by offsets, as the source does.
-/

namespace CellScript.OpenHandlePolicy

open Bytes (le ofLe field)

/-! ### Hashes -/

structure Hash where
  bytes : List UInt8
  length_bytes : bytes.length = 32

attribute [simp] Hash.length_bytes

namespace Hash

@[ext] theorem ext {a b : Hash} (h : a.bytes = b.bytes) : a = b := by
  cases a
  cases b
  cases h
  rfl

instance : DecidableEq Hash := fun a b ↦ decidable_of_iff (a.bytes = b.bytes) ⟨ext, congrArg bytes⟩

theorem length_zeros : (replicate 32 (0 : UInt8)).length = 32 := rfl

def zero : Hash := ⟨replicate 32 0, length_zeros⟩

/-- The first 32 bytes; a shorter string is filled up with zeros. -/
def ofBytes (bytes : List UInt8) : Hash :=
  ⟨(bytes ++ replicate 32 0).take 32, by simp⟩

@[simp] theorem ofBytes_bytes (h : Hash) : ofBytes h.bytes = h := by
  refine Hash.ext ?_
  exact List.take_left' h.length_bytes

theorem bytes_ofBytes {bytes : List UInt8} (h : bytes.length = 32) :
    (ofBytes bytes).bytes = bytes :=
  congrArg Hash.bytes (ofBytes_bytes ⟨bytes, h⟩)

/-- Hashes compare as arrays of bytes. -/
def key (h : Hash) : List ℕ := h.bytes.map UInt8.toNat

theorem key_injective : Injective key := by
  intro a b h
  exact Hash.ext (List.map_injective_iff.2 (fun _ _ ↦ UInt8.toNat_inj.1) h)

instance : LinearOrder Hash := LinearOrder.lift' key key_injective

end Hash

/-! ### Policies -/

inductive HandleClass
  | script
  | verifier
  deriving DecidableEq

inductive ScriptRole
  | lock
  | type
  | spawnedVerifier
  deriving DecidableEq

inductive SelectionMode
  | exactly
  | compatible
  deriving DecidableEq

inductive MemberStatus
  | active
  | yanked
  deriving DecidableEq

inductive CodeHashType
  | data
  | type
  | data1
  | data2
  deriving DecidableEq

structure PolicyHeader where
  class_ : HandleClass
  role : ScriptRole
  mode : SelectionMode
  memberCount : UInt8
  sequence : UInt64
  minimumAdmissionSequence : UInt64
  requiredInterface : Hash
  exactReceipt : Hash
  networkGenesis : Hash
  targetProfile : Hash
  runtimeAbi : Hash
  deriving DecidableEq

structure PolicyMember where
  status : MemberStatus
  hashType : CodeHashType
  admissionSequence : UInt64
  deploymentSequence : UInt64
  receipt : Hash
  interface : Hash
  artifact : Hash
  script : Hash
  codeHash : Hash
  codeTxHash : Hash
  deploymentLine : Hash
  historyTip : Hash
  codeOutputIndex : UInt32
  deriving DecidableEq

inductive PolicyError
  | length
  | magic
  | tag
  | reserved
  | header
  | member
  | count
  | duplicate
  | conflict
  | index
  | root
  | inactive
  | sequence
  | exactReceipt
  deriving DecidableEq

def maxMembers : ℕ := 32

def treeDepth : ℕ := 5

def headerBytes : ℕ := 188

def memberBytes : ℕ := 292

def selectionBytes : ℕ := 656

/-- The bytes of an ASCII text. -/
def ascii (text : String) : List UInt8 := text.toList.map fun c ↦ UInt8.ofNat c.toNat

def headerMagic : List UInt8 := ascii "CSOHPv1\x00"

def memberMagic : List UInt8 := ascii "CSOHMv1\x00"

def selectionMagic : List UInt8 := ascii "CSOHWv1\x00"

def byteAt (bytes : List UInt8) (start : ℕ) : UInt8 := bytes.getD start 0

def hashAt (bytes : List UInt8) (start : ℕ) : Hash := Hash.ofBytes (field start 32 bytes)

def u64At (bytes : List UInt8) (start : ℕ) : UInt64 := UInt64.ofNat (ofLe (field start 8 bytes))

def u32At (bytes : List UInt8) (start : ℕ) : UInt32 := UInt32.ofNat (ofLe (field start 4 bytes))

/-! ### Tags -/

def HandleClass.tag : HandleClass → UInt8
  | .script => 0
  | .verifier => 1

def HandleClass.ofTag (tag : UInt8) : Except PolicyError HandleClass :=
  if tag = 0 then .ok .script else if tag = 1 then .ok .verifier else .error .tag

def ScriptRole.tag : ScriptRole → UInt8
  | .lock => 0
  | .type => 1
  | .spawnedVerifier => 2

def ScriptRole.ofTag (tag : UInt8) : Except PolicyError ScriptRole :=
  if tag = 0 then .ok .lock else if tag = 1 then .ok .type
  else if tag = 2 then .ok .spawnedVerifier else .error .tag

def SelectionMode.tag : SelectionMode → UInt8
  | .exactly => 0
  | .compatible => 1

def SelectionMode.ofTag (tag : UInt8) : Except PolicyError SelectionMode :=
  if tag = 0 then .ok .exactly else if tag = 1 then .ok .compatible else .error .tag

def MemberStatus.tag : MemberStatus → UInt8
  | .active => 0
  | .yanked => 1

def MemberStatus.ofTag (tag : UInt8) : Except PolicyError MemberStatus :=
  if tag = 0 then .ok .active else if tag = 1 then .ok .yanked else .error .tag

def CodeHashType.tag : CodeHashType → UInt8
  | .data => 0
  | .type => 1
  | .data1 => 2
  | .data2 => 4

def CodeHashType.ofTag (tag : UInt8) : Except PolicyError CodeHashType :=
  if tag = 0 then .ok .data else if tag = 1 then .ok .type else if tag = 2 then .ok .data1
  else if tag = 4 then .ok .data2 else .error .tag

/-! ### The header -/

namespace PolicyHeader

def classAdmitsRole : HandleClass → ScriptRole → Bool
  | .script, .lock => true
  | .script, .type => true
  | .verifier, .spawnedVerifier => true
  | _, _ => false

/-- A header that may be published. -/
def validate (header : PolicyHeader) : Except PolicyError Unit := do
  if header.memberCount = 0 ∨ header.memberCount.toNat > maxMembers then
    throw .count
  if header.minimumAdmissionSequence > header.sequence ∨
      classAdmitsRole header.class_ header.role = false ∨
      Hash.zero ∈ [header.requiredInterface, header.networkGenesis, header.targetProfile,
        header.runtimeAbi] ∨
      decide (header.mode = .exactly) = decide (header.exactReceipt = Hash.zero) then
    throw .header

/-- The parts of the record. -/
def parts (header : PolicyHeader) : List (List UInt8) :=
  [headerMagic, [header.class_.tag], [header.role.tag], [header.mode.tag], [header.memberCount],
    le 8 header.sequence.toNat, le 8 header.minimumAdmissionSequence.toNat,
    header.requiredInterface.bytes, header.exactReceipt.bytes, header.networkGenesis.bytes,
    header.targetProfile.bytes, header.runtimeAbi.bytes]

def encode (header : PolicyHeader) : Except PolicyError (List UInt8) := do
  header.validate
  return header.parts.flatten

def decode (bytes : List UInt8) : Except PolicyError PolicyHeader := do
  if bytes.length ≠ headerBytes then
    throw .length
  if field 0 8 bytes ≠ headerMagic then
    throw .magic
  let class_ ← HandleClass.ofTag (byteAt bytes 8)
  let role ← ScriptRole.ofTag (byteAt bytes 9)
  let mode ← SelectionMode.ofTag (byteAt bytes 10)
  let header : PolicyHeader :=
    { class_, role, mode
      memberCount := byteAt bytes 11
      sequence := u64At bytes 12
      minimumAdmissionSequence := u64At bytes 20
      requiredInterface := hashAt bytes 28
      exactReceipt := hashAt bytes 60
      networkGenesis := hashAt bytes 92
      targetProfile := hashAt bytes 124
      runtimeAbi := hashAt bytes 156 }
  header.validate
  return header

end PolicyHeader

/-! ### Members -/

namespace PolicyMember

/-- A member that may be listed. -/
def validate (member : PolicyMember) : Except PolicyError Unit := do
  if Hash.zero ∈ [member.receipt, member.interface, member.artifact, member.script,
      member.codeHash, member.codeTxHash] then
    throw .member
  match member.hashType with
  | .type =>
    if ¬(member.deploymentLine ≠ Hash.zero ∧ member.historyTip ≠ Hash.zero) then
      throw .member
  | _ =>
    if ¬(member.codeHash = member.artifact ∧ member.deploymentLine = Hash.zero ∧
        member.historyTip = Hash.zero ∧ member.deploymentSequence = 0) then
      throw .member

/-- The parts of the record. -/
def parts (member : PolicyMember) : List (List UInt8) :=
  [memberMagic, [member.status.tag], [member.hashType.tag], replicate 6 0,
    le 8 member.admissionSequence.toNat, le 8 member.deploymentSequence.toNat,
    member.receipt.bytes, member.interface.bytes, member.artifact.bytes, member.script.bytes,
    member.codeHash.bytes, member.codeTxHash.bytes, member.deploymentLine.bytes,
    member.historyTip.bytes, le 4 member.codeOutputIndex.toNat]

def encode (member : PolicyMember) : Except PolicyError (List UInt8) := do
  member.validate
  return member.parts.flatten

def decode (bytes : List UInt8) : Except PolicyError PolicyMember := do
  if bytes.length ≠ memberBytes then
    throw .length
  if field 0 8 bytes ≠ memberMagic then
    throw .magic
  if field 10 6 bytes ≠ replicate 6 0 then
    throw .reserved
  let status ← MemberStatus.ofTag (byteAt bytes 8)
  let hashType ← CodeHashType.ofTag (byteAt bytes 9)
  let member : PolicyMember :=
    { status, hashType
      admissionSequence := u64At bytes 16
      deploymentSequence := u64At bytes 24
      receipt := hashAt bytes 32
      interface := hashAt bytes 64
      artifact := hashAt bytes 96
      script := hashAt bytes 128
      codeHash := hashAt bytes 160
      codeTxHash := hashAt bytes 192
      deploymentLine := hashAt bytes 224
      historyTip := hashAt bytes 256
      codeOutputIndex := u32At bytes 288 }
  member.validate
  return member

/-- Two members that cannot stand in one set: one output with two artifacts, or one deployment of a
line twice. -/
def conflicts (member other : PolicyMember) : Bool :=
  decide ((member.codeTxHash = other.codeTxHash ∧ member.codeOutputIndex = other.codeOutputIndex ∧
      member.artifact ≠ other.artifact) ∨
    (member.deploymentLine ≠ Hash.zero ∧ member.deploymentLine = other.deploymentLine ∧
      member.deploymentSequence = other.deploymentSequence))

end PolicyMember

/-! ### Hashing -/

/-- What is hashed for a member. -/
def leafPreimage (index : UInt8) (member : List UInt8) : List UInt8 :=
  ascii "cellscript-open-handle-member-v1\x00" ++ ([index] ++ member)

/-- What is hashed for a place without a member. -/
def emptyLeafPreimage (index : UInt8) : List UInt8 :=
  ascii "cellscript-open-handle-empty-v1\x00" ++ [index]

/-- What is hashed for an inner node. -/
def nodePreimage (left right : Hash) : List UInt8 :=
  ascii "cellscript-open-handle-node-v1\x00" ++ (left.bytes ++ right.bytes)

/-- What is hashed for the root. -/
def policyRootPreimage (header : List UInt8) (root : Hash) : List UInt8 :=
  ascii "cellscript-open-handle-policy-v1\x00" ++ (header ++ root.bytes)

section Hashing

variable (hash : List UInt8 → Hash)

def leaf (index : UInt8) (member : List UInt8) : Hash := hash (leafPreimage index member)

def emptyLeaf (index : UInt8) : Hash := hash (emptyLeafPreimage index)

def node (left right : Hash) : Hash := hash (nodePreimage left right)

def policyRoot (header : List UInt8) (root : Hash) : Hash := hash (policyRootPreimage header root)

/-! ### Authorization sets -/

structure AuthorizationSet where
  header : PolicyHeader
  members : List PolicyMember
  tree : ℕ → Hash
  root : Hash

namespace AuthorizationSet

def sortByReceipt (members : List PolicyMember) : List PolicyMember :=
  members.insertionSort (fun a b ↦ a.receipt ≤ b.receipt)

/-- The leaf of a member, after its checks against the header and the members before it. -/
def memberLeaf (header : PolicyHeader) (members : List PolicyMember) (entry : PolicyMember × ℕ) :
    Except PolicyError Hash := do
  let (member, index) := entry
  member.validate
  if member.admissionSequence > header.sequence then
    throw .sequence
  if (members.take index).any member.conflicts then
    throw .conflict
  let encoded ← member.encode
  return leaf hash (UInt8.ofNat index) encoded

/-- The tree over the leaves of the members; the places after them hold empty leaves. -/
@[irreducible] def buildTree (leaves : List Hash) : ℕ → Hash :=
  HeapTree.fill (node hash) (List.range' 1 (2 ^ treeDepth - 1)).reverse fun i ↦
    if i < maxMembers then Hash.zero
    else leaves.getD (i - maxMembers) (emptyLeaf hash (UInt8.ofNat (i - maxMembers)))

/-- Sorts and validates the members and hashes them into a tree. -/
def new (header : PolicyHeader) (members : List PolicyMember) :
    Except PolicyError AuthorizationSet := do
  let encodedHeader ← header.encode
  if members.length ≠ header.memberCount.toNat then
    throw .count
  let members := sortByReceipt members
  if ¬members.IsChain fun a b ↦ a.receipt ≠ b.receipt then
    throw .duplicate
  if header.mode = .exactly ∧ ¬members.any (·.receipt = header.exactReceipt) then
    throw .exactReceipt
  let leaves ← members.zipIdx.mapM (memberLeaf hash header members)
  let tree := buildTree hash leaves
  return { header, members, tree, root := policyRoot hash encodedHeader (tree 1) }

variable {hash}

/-- The parts of the witness for a member at an index. -/
def selectionParts (header member : List UInt8) (index : UInt8) (siblings : List Hash) :
    List (List UInt8) :=
  [selectionMagic, header, member, [index], replicate 7 0] ++ siblings.map (·.bytes)

/-- The witness for the member with a receipt. -/
def selection (set : AuthorizationSet) (receipt : Hash) : Except PolicyError (List UInt8) :=
  match set.members.zipIdx.find? (·.1.receipt = receipt) with
  | none => .error .index
  | some (member, index) => do
    let header ← set.header.encode
    let member ← member.encode
    return (selectionParts header member (UInt8.ofNat index)
      (HeapTree.siblings set.tree treeDepth (maxMembers + index))).flatten

end AuthorizationSet

/-! ### Verification -/

structure PolicyMembership where
  root : Hash
  header : PolicyHeader
  member : PolicyMember
  index : UInt8
  deriving DecidableEq

/-- The siblings of a witness. -/
def witnessSiblings (bytes : List UInt8) : List Hash :=
  (List.range treeDepth).map fun level ↦ hashAt bytes (496 + 32 * level)

/-- The root above a leaf; the bits of the index say on which side each sibling stands. -/
def climbRoot (index : ℕ) (leaf : Hash) (siblings : List Hash) : Hash :=
  siblings.zipIdx.foldl (fun root (sibling, level) ↦
    if (index >>> level) &&& 1 = 0 then node hash root sibling else node hash sibling root) leaf

/-- Recomputes the root from a witness and checks its member. -/
def verifySelection (expectedRoot : Hash) (bytes : List UInt8) :
    Except PolicyError PolicyMembership := do
  if bytes.length ≠ selectionBytes then
    throw .length
  if field 0 8 bytes ≠ selectionMagic then
    throw .magic
  if field 489 7 bytes ≠ replicate 7 0 then
    throw .reserved
  let header ← PolicyHeader.decode (field 8 188 bytes)
  let member ← PolicyMember.decode (field 196 292 bytes)
  let index := byteAt bytes 488
  if index ≥ header.memberCount then
    throw .index
  let encodedMember ← member.encode
  let root := climbRoot hash index.toNat (leaf hash index encodedMember) (witnessSiblings bytes)
  let encodedHeader ← header.encode
  if policyRoot hash encodedHeader root ≠ expectedRoot then
    throw .root
  if member.status ≠ .active then
    throw .inactive
  if member.admissionSequence < header.minimumAdmissionSequence ∨
      member.admissionSequence > header.sequence then
    throw .sequence
  if header.mode = .exactly ∧ member.receipt ≠ header.exactReceipt then
    throw .exactReceipt
  return { root := expectedRoot, header, member, index }

end Hashing

end CellScript.OpenHandlePolicy
