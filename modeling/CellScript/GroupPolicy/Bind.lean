import CellScript.Assembler.Syntax
import CellScript.Library.Worklist

/-!
# Fixed roles in a type group

The pass of `ir/policy.rs` that binds the cells of the exported actions of an artifact to the group
of the running type script, with the declaration checks of `artifact.rs` that it starts with. All
checks come before the first change of the module.

Of the intermediate representation, this is the part that the pass looks at: the operands of
instructions that it does not look into are left out, sets of which only the emptiness counts hold
names, and the types, constants and errors it does not tell apart are `other`.
-/

namespace CellScript.GroupPolicy

/-! ### The module -/

inductive IrType
  | u8
  | u16
  | u32
  | i32
  | u64
  | bool
  | unit
  | tuple (items : List IrType)
  | named (name : String)
  | ref (inner : IrType)
  | mutRef (inner : IrType)
  | other (name : String)

structure IrVar where
  id : ℕ
  name : String
  ty : IrType

inductive IrConst
  | unit
  | u8 (value : UInt8)
  | u16 (value : UInt16)
  | u32 (value : UInt32)
  | u64 (value : UInt64)
  | bool (value : Bool)
  | other (text : String)

inductive IrOperand
  | var (var : IrVar)
  | const (value : IrConst)

inductive IrCallTarget
  | function (name : String)
  | runtime (symbol : String)
  | invalidRuntime (symbol : String)

def IrCallTarget.asStr : IrCallTarget → String
  | function name => name
  | runtime symbol | invalidRuntime symbol => symbol

inductive UnaryOp
  | neg
  | not
  | ref
  | deref

inductive IrInstruction
  | loadConst (dest : IrVar) (value : IrConst)
  | loadVar (dest : IrVar)
  | storeVar (src : IrOperand)
  | move (dest : IrVar) (src : IrOperand)
  | tuple (dest : IrVar) (fields : List IrOperand)
  | binary (dest : IrVar) (left right : IrOperand)
  | unary (dest : IrVar) (op : UnaryOp) (operand : IrOperand)
  | call (dest : Option IrVar) (func : IrCallTarget) (args : List IrOperand)
  | consume
  | create
  | transfer
  | destroy
  | claim
  | settle
  | createUnique
  | replaceUnique
  | other (name : String)

abbrev BlockId := ℕ

inductive IrTerminator
  | ret (value : Option IrOperand)
  | jump (target : BlockId)
  | branch (cond : IrOperand) (thenBlock elseBlock : BlockId)

inductive RuntimeError
  | assertionFailed
  | numericOrDiscriminantInvalid
  | shiftAmountInvalid
  | other (code : ℕ)

structure IrBlock where
  id : BlockId
  instructions : List IrInstruction
  terminator : IrTerminator
  runtimeError : Option RuntimeError

inductive IrCellBindingRole
  | input
  | output
  | readOnly
  deriving DecidableEq

inductive IrCellSource
  | input
  | output
  | groupInput
  | groupOutput
  | cellDep
  deriving DecidableEq

inductive IrCellMembership
  | unproven
  | currentTypeGroup
  | currentLockGroup
  deriving DecidableEq

structure IrCellBinding where
  binding : String
  role : IrCellBindingRole
  localId : Option ℕ
  ty : String
  source : IrCellSource
  ordinal : ℕ
  membership : IrCellMembership
  deriving DecidableEq

/-- The blocks of a body are numbered when they are pushed, so that no two share an identifier. -/
structure IrBody where
  cellBindings : List IrCellBinding
  consumeSet : List String
  createSet : List String
  mutateSet : List String
  writeIntents : List String
  boundedCollectionOps : List String
  blocks : List IrBlock
  nodup : (blocks.map (·.id)).Nodup

namespace IrBody

def cellBindingForLocal (body : IrBody) (localId : ℕ) : Option IrCellBinding :=
  body.cellBindings.find? fun entry ↦ entry.localId = some localId

def instructions (body : IrBody) : List IrInstruction := body.blocks.flatMap (·.instructions)

end IrBody

inductive ParamSource
  | default
  | input
  | output
  | protected_
  | witness
  | lockArgs
  deriving DecidableEq

structure IrParam where
  name : String
  ty : IrType
  isMut : Bool
  isRef : Bool
  isReadRef : Bool
  source : ParamSource
  binding : IrVar

structure IrAction where
  name : String
  entryTrigger : Option String
  params : List IrParam
  returnType : Option IrType
  body : IrBody

structure IrFunction where
  name : String
  params : List IrParam
  returnType : Option IrType
  body : IrBody

inductive IrTypeKind
  | resource
  | shared
  | receipt
  | struct
  deriving DecidableEq

structure IrTypeDef where
  name : String
  kind : IrTypeKind

/-- Locks and invariants are `other`. -/
inductive IrItem
  | typeDef (item : IrTypeDef)
  | action (item : IrAction)
  | function (item : IrFunction)
  | other (name : String)

namespace IrItem

def typeDef? : IrItem → Option IrTypeDef
  | typeDef item => some item
  | _ => none

def action? : IrItem → Option IrAction
  | action item => some item
  | _ => none

def function? : IrItem → Option IrFunction
  | function item => some item
  | _ => none

end IrItem

/-- The checker has rejected duplicate symbols before a module is lowered. -/
structure IrModule where
  items : List IrItem
  externalTypeDefs : List IrTypeDef
  externalCallableAbis : List String
  nodup : ((items.filterMap IrItem.action?).map (·.name)).Nodup

def IrModule.actions (module : IrModule) : List IrAction := module.items.filterMap IrItem.action?

/-! ### The declaration -/

structure ArtifactAction where
  tag : UInt32
  action : String

/-- The context is the type group of a resource, and the dispatch that of policy witnesses: there
are no others. -/
structure ArtifactDeclaration where
  name : String
  resource : String
  actions : List ArtifactAction
  commonChecks : List String

def declarationError (message : String) : CompileError := ⟨message, some .E2101, none⟩

/-- The Unicode category `Cc`. -/
def isControl (c : Char) : Bool :=
  let n := c.toNat
  n ≤ 0x1f || (0x7f ≤ n && n ≤ 0x9f)

def validateName (name kind : String) : Result Unit :=
  if name.isEmpty || 256 < name.utf8ByteSize ||
      name.toList.any (fun c ↦ isControl c || Assembler.isWhitespace c) then
    .error (declarationError
      (s!"{kind} name must be nonempty, at most 256 bytes, and contain no " ++
      "whitespace/control characters"))
  else .ok ()

def maxPolicyArtifactVariants : ℕ := 64

def maxArtifactCommonChecks : ℕ := 16

namespace ArtifactDeclaration

/-- One action of the declaration; the tags and the names met so far are kept. -/
def validateVariant (d : ArtifactDeclaration) (met : List UInt32 × List String)
    (variant : ArtifactAction) : Result (List UInt32 × List String) := do
  validateName variant.action "artifact action"
  if variant.tag ∈ met.1 then
    throw (declarationError s!"artifact '{d.name}' repeats numeric tag {variant.tag}")
  if variant.action ∈ met.2 then
    throw (declarationError s!"artifact '{d.name}' maps action '{variant.action}' more than once")
  return (variant.tag :: met.1, variant.action :: met.2)

def validateCommon (d : ArtifactDeclaration) (actions common : List String) (name : String) :
    Result (List String) := do
  validateName name "common check"
  if name ∈ common then
    throw (declarationError s!"artifact '{d.name}' repeats common check '{name}'")
  if name ∈ actions then
    throw (declarationError
      s!"artifact '{d.name}' cannot expose common check '{name}' as a selectable action")
  return name :: common

/-- The shape of a declaration: names, tags and counts. -/
def validate (d : ArtifactDeclaration) : Result Unit := do
  validateName d.name "artifact"
  validateName d.resource "policy resource"
  if d.actions.isEmpty ∨ maxPolicyArtifactVariants < d.actions.length then
    throw (declarationError (s!"artifact '{d.name}' must declare between 1 and " ++
      s!"{maxPolicyArtifactVariants} explicitly tagged actions"))
  let (_, actions) ← d.actions.foldlM d.validateVariant ([], [])
  if maxArtifactCommonChecks < d.commonChecks.length then
    throw (declarationError
      s!"artifact '{d.name}' exceeds the {maxArtifactCommonChecks} common-check limit")
  let _ ← d.commonChecks.foldlM (d.validateCommon actions) []

end ArtifactDeclaration

/-! ### Predicates of the pass -/

def policyError (message : String) : CompileError :=
  ⟨"policy-witness-v1 fixed Type Group boundary: " ++ message, some .E2101, none⟩

def cellBackedKind : IrTypeKind → Bool
  | .resource | .shared | .receipt => true
  | .struct => false

def namedSchema : IrType → Option String
  | .named name => some name
  | .ref inner | .mutRef inner => namedSchema inner
  | _ => none

def IrType.isReference : IrType → Bool
  | ref _ | mutRef _ => true
  | _ => false

def IrType.isUnit : IrType → Bool
  | unit => true
  | _ => false

def cellParameter (param : IrParam) (cellTypes : List String) : Bool :=
  (namedSchema param.ty).any (· ∈ cellTypes) || param.ty.isReference || param.isRef ||
    param.isReadRef

def hasLifecycle (body : IrBody) : Bool :=
  !body.consumeSet.isEmpty || !body.createSet.isEmpty || !body.mutateSet.isEmpty ||
    !body.writeIntents.isEmpty

def lifecycleInstruction : IrInstruction → Bool
  | .consume | .create | .transfer | .destroy | .claim | .settle | .createUnique
  | .replaceUnique => true
  | _ => false

/-! ### Paths of blocks -/

def successors (block : IrBlock) : List BlockId :=
  match block.terminator with
  | .ret _ => []
  | .jump target => [target]
  | .branch _ thenBlock elseBlock => [thenBlock, elseBlock]

def IrBody.block (body : IrBody) (id : BlockId) : Option IrBlock :=
  body.blocks.find? fun b ↦ b.id = id

/-- The blocks after the block with an identifier. -/
def IrBody.next (body : IrBody) (id : BlockId) : List BlockId :=
  (body.block id).elim [] successors

theorem IrBody.mem_of_next (body : IrBody) (id : BlockId) (h : body.next id ≠ []) :
    id ∈ body.blocks.map (·.id) := by
  rw [next] at h
  cases hb : body.block id with
  | none => exact absurd (hb ▸ rfl) h
  | some b =>
    have hid : b.id = id := by simpa using find?_some hb
    exact mem_map.2 ⟨b, mem_of_find?_eq_some hb, hid⟩

/-- The blocks reachable without passing the excluded one. -/
def reachableBlocks (body : IrBody) (start : BlockId) (excluded : Option BlockId) : List BlockId :=
  Worklist.walk body.next (body.blocks.map (·.id)) body.mem_of_next excluded start

def IrBlock.returns (block : IrBlock) : Bool :=
  match block.terminator with
  | .ret _ => true
  | _ => false

/-- No accepting path goes around a lifecycle operation. -/
def validateFixedRolePaths (name : String) (body : IrBody) : Result Unit :=
  match body.blocks.head? with
  | none => .error (policyError s!"action '{name}' has no entry block")
  | some entry =>
    let reachable := reachableBlocks body entry.id none
    let accepting := (body.blocks.filter fun block ↦
      block.id ∈ reachable && block.runtimeError.isNone && block.returns).map (·.id)
    (body.blocks.filter (·.instructions.any lifecycleInstruction)).forM fun block ↦
      let bypass := reachableBlocks body entry.id (some block.id)
      let repeated := (successors block).any fun next ↦ block.id ∈ reachableBlocks body next none
      if block.id ∉ reachable ∨ accepting.any (· ∈ bypass) ∨ repeated then
        .error (policyError (s!"action '{name}' has branch-varying or repeated Cell lifecycle " ++
          "roles; path-sensitive group plans are not supported yet"))
      else .ok ()

/-! ### Roles -/

inductive Side
  | input
  | output
  deriving DecidableEq

/-- The side of the group on which a source lies. -/
def IrCellSource.side : IrCellSource → Option Side
  | input | groupInput => some .input
  | output | groupOutput => some .output
  | cellDep => none

/-- Which kind of place a source is, for the comparison of locations. -/
def IrCellSource.kind : IrCellSource → ℕ
  | input | groupInput => 0
  | output | groupOutput => 1
  | cellDep => 2

/-- The slots of the two sides, and where each local variable is. -/
structure Slots where
  inputs : List ℕ
  outputs : List ℕ
  localLocations : List (ℕ × ℕ × ℕ)

def Slots.on (slots : Slots) : Side → List ℕ
  | .input => slots.inputs
  | .output => slots.outputs

def Slots.add (slots : Slots) (side : Side) (ordinal : ℕ) : Slots :=
  match side with
  | .input => { slots with inputs := ordinal :: slots.inputs }
  | .output => { slots with outputs := ordinal :: slots.outputs }

/-- The location of the local variable of a binding is recorded; another one must not be known. -/
def recordLocal (action : String) (slots : Slots) (binding : IrCellBinding) : Result Slots :=
  match binding.localId with
  | none => .ok slots
  | some localId =>
    let location := (binding.source.kind, binding.ordinal)
    if (slots.localLocations.lookup localId).any (· ≠ location) then
      .error (policyError s!"action '{action}' reuses local {localId} for distinct physical Cells")
    else .ok { slots with localLocations := (localId, location) :: slots.localLocations }

/-- Inputs have any role but that of an output, and outputs have that one. -/
def IrCellBinding.isConsistent (binding : IrCellBinding) (side : Side) : Bool :=
  match side with
  | .input => binding.role ≠ .output
  | .output => binding.role = .output

/-- One binding of an action. -/
def validateBinding (action resource : String) (slots : Slots) (binding : IrCellBinding) :
    Result Slots := do
  let slots ← recordLocal action slots binding
  match binding.source.side with
  | none =>
    if binding.role ≠ .readOnly ∨ binding.membership ≠ .unproven then
      throw (policyError
        s!"action '{action}' has a non-read-only or implicitly authenticated CellDep")
    return slots
  | some side =>
    if binding.ty ≠ resource then
      throw (policyError (s!"action '{action}' cannot rebind '{binding.binding}' of schema " ++
        s!"'{binding.ty}' into type-group<{resource}>"))
    if !binding.isConsistent side then
      throw (policyError
        s!"action '{action}' has an inconsistent source/role for '{binding.binding}'")
    if binding.ordinal ∈ slots.on side then
      throw (policyError
        s!"action '{action}' aliases distinct roles at group ordinal {binding.ordinal}")
    return slots.add side binding.ordinal

/-- The ordinals of a side are the first ones; they are kept without repetition. -/
def isDense (ordinals : List ℕ) : Bool :=
  ordinals.insertionSort (· ≤ ·) = List.range ordinals.length

/-- The ordinals of a side are `0, 1, …` without a gap. -/
def validateDense (action side : String) (ordinals : List ℕ) : Result Unit :=
  if isDense ordinals then .ok ()
  else .error (policyError
    s!"action '{action}' requires dense, explicitly accounted group-{side} roles")

def validateParam (action : IrAction) (cellTypes : List String) (param : IrParam) : Result Unit :=
  if param.source ≠ .lockArgs ∧ cellParameter param cellTypes ∧
      (action.body.cellBindingForLocal param.binding.id).isNone then
    .error (policyError
      s!"action '{action.name}' Cell parameter '{param.name}' has no resolved physical binding")
  else .ok ()

/-- An exported action accounts for every cell of its group, on every path. -/
def validateFixedAction (action : IrAction) (resource : String) (cellTypes : List String) :
    Result Unit := do
  if action.returnType.any (!·.isUnit) then
    throw (policyError s!"export action '{action.name}' must use the Unit action status contract")
  if !action.body.boundedCollectionOps.isEmpty then
    throw (policyError
      s!"action '{action.name}' mixes a fixed group policy with bounded Cell operations")
  let slots ← action.body.cellBindings.foldlM (validateBinding action.name resource) ⟨[], [], []⟩
  if slots.inputs.isEmpty && slots.outputs.isEmpty then
    throw (policyError
      (s!"action '{action.name}' has a 0-to-0 group and cannot establish current " ++
      "Script membership"))
  validateDense action.name "input" slots.inputs
  validateDense action.name "output" slots.outputs
  action.params.forM (validateParam action cellTypes)
  validateFixedRolePaths action.name action.body

/-! ### Callables -/

/-- The actions and helpers of a module, of which the last one of a name counts, its cell types and
the names of its external callables. -/
structure Callables where
  actions : List IrAction
  helpers : List IrFunction
  cellTypes : List String
  externalCallables : List String

namespace Callables

def action (c : Callables) (name : String) : Option IrAction :=
  c.actions.reverse.find? fun a ↦ a.name = name

def helper (c : Callables) (name : String) : Option IrFunction :=
  c.helpers.reverse.find? fun f ↦ f.name = name

end Callables

def boundedScalar : IrOperand → Bool
  | .var v =>
    match v.ty with
    | .u8 | .u16 | .u32 | .i32 | .u64 | .bool => true
    | _ => false
  | .const c =>
    match c with
    | .u8 _ | .u16 _ | .u32 _ | .u64 _ | .bool _ => true
    | _ => false

def boundedValueType : IrType → Bool
  | .u8 | .u16 | .u32 | .i32 | .u64 | .bool | .unit => true
  | .ref (.named _) => true
  | .tuple items => items.isEmpty
  | _ => false

def boundedValue (operand : IrOperand) : Bool :=
  match operand with
  | .var v => boundedValueType v.ty
  | .const .unit => true
  | .const _ => boundedScalar operand

def IrType.isRef : IrType → Bool
  | ref _ => true
  | _ => false

def validateBoundedSignature (name : String) (params : List IrParam) (returnType : Option IrType) :
    Result Unit :=
  if params.any (fun param ↦ param.isMut || !boundedValueType param.ty) ||
      returnType.any (fun ty ↦ ty.isRef || !boundedValueType ty) then
    .error (policyError (s!"callee '{name}' has an aggregate, mutable, wide-value, or " ++
      "reference-return ABI outside the bounded scalar/data-view-parameter policy call contract"))
  else .ok ()

/-- The runtime failures that a callee may report. -/
def RuntimeError.isBounded : RuntimeError → Bool
  | assertionFailed | numericOrDiscriminantInvalid | shiftAmountInvalid => true
  | other _ => false

def IrType.isEmptyTuple : IrType → Bool
  | tuple items => items.isEmpty
  | _ => false

/-- The instructions a callee may have. -/
def Callables.isSafe (c : Callables) : IrInstruction → Bool
  | .loadConst dest value => boundedValueType dest.ty && boundedValue (.const value)
  | .loadVar dest => boundedValueType dest.ty
  | .storeVar src => boundedValue src
  | .move dest src => boundedValueType dest.ty && boundedValue src
  | .tuple dest fields => fields.isEmpty && (dest.ty.isUnit || dest.ty.isEmptyTuple)
  | .binary dest left right => boundedScalar (.var dest) && boundedScalar left &&
    boundedScalar right
  | .unary dest .not operand => boundedValueType dest.ty && boundedScalar operand
  | .call dest func args =>
    ((c.helper func.asStr).isSome || (c.action func.asStr).isSome) &&
      dest.all (boundedValueType ·.ty) && args.all boundedValue
  | _ => false

/-- The value that a block returns. -/
def IrBlock.returned (block : IrBlock) : Option IrOperand :=
  match block.terminator with
  | .ret value => value
  | _ => none

/-- A block of a callee cannot repeat and stays within scalar values. -/
def validateBoundedBlock (c : Callables) (name : String) (body : IrBody) (block : IrBlock) :
    Result Unit := do
  if (successors block).any fun next ↦ block.id ∈ reachableBlocks body next none then
    throw (policyError s!"callee '{name}' may repeat; policy calls require an acyclic bounded body")
  if block.runtimeError.any fun error ↦ !error.isBounded || !block.returns then
    throw (policyError
      s!"callee '{name}' has a runtime failure outside the bounded scalar verifier contract")
  if block.returned.any (!boundedValue ·) then
    throw (policyError s!"callee '{name}' returns a value outside the bounded policy call ABI")
  block.instructions.forM fun instruction ↦
    if c.isSafe instruction then .ok ()
    else .error (policyError (s!"callee '{name}' requires physical Cell metadata, field/index " ++
      "checks, or an unsupported runtime operation; keep it export-local until that bounded " ++
      "caller ABI is supported"))

/-- A callee works on values its caller has bound, without repetition. -/
def validateBoundedBody (c : Callables) (name : String) (body : IrBody) : Result Unit := do
  if hasLifecycle body || !body.cellBindings.isEmpty || !body.boundedCollectionOps.isEmpty then
    throw (policyError
      (s!"callee '{name}' owns physical Cell operations; policy calls currently " ++
      "support caller-bound values only"))
  body.blocks.forM (validateBoundedBlock c name body)

/-! ### Common checks -/

def maxCommonCallDepth : ℕ := 256

def maxCommonCalleeBlocks : ℕ := 262144

/-- A common check only reads dependencies. -/
def validateCommonCheck (action : IrAction) : Result Unit := do
  if maxCommonCalleeBlocks < action.body.blocks.length then
    throw (policyError "policy common check has excessive blocks")
  if !action.params.isEmpty || action.returnType.any (!·.isUnit) || hasLifecycle action.body ||
      !action.body.boundedCollectionOps.isEmpty ||
      action.body.cellBindings.any (fun binding ↦ binding.source ≠ .cellDep ||
        binding.role ≠ .readOnly || binding.membership ≠ .unproven) ||
      action.body.instructions.any lifecycleInstruction then
    throw (policyError
      (s!"common check '{action.name}' must be a zero-parameter Unit action with " ++
      "no lifecycle or input/output Cells; explicit read_ref dependencies and retained bounded " ++
      "scalar calls are allowed"))

/-- The function that an instruction calls by name. -/
def IrInstruction.function? : IrInstruction → Option String
  | call _ (.function func) _ => some func
  | _ => none

def depthError : CompileError :=
  policyError
    ("policy common call graph exceeds the call-depth bound of 256, including the common " ++
    "action")

/-- The depth of the calls below a body, and the depths known afterwards. The first argument is what
the active callables leave of the depth bound. -/
def validateCommonCallDepth (c : Callables) :
    ℕ → IrBody → String → List String → List (String × ℕ) → Result (ℕ × List (String × ℕ))
  | room, body, owner, active, suffixDepths =>
    if owner ∈ active then
      .error (policyError
        s!"recursive policy call '{owner}' has no bounded failure-propagation contract")
    else
      match suffixDepths.lookup owner with
      | some depth =>
        if maxCommonCallDepth < active.length + depth then .error depthError
        else .ok (depth, suffixDepths)
      | none =>
        match room with
        | 0 => .error depthError
        | room + 1 => do
          if maxCommonCalleeBlocks < body.blocks.length then
            throw (policyError "policy common callee has excessive blocks")
          let (longest, suffixDepths) ← (body.instructions.filterMap (·.function?)).foldlM
            (fun (longest, suffixDepths) func ↦
              match ((c.action func).map (·.body)).or ((c.helper func).map (·.body)) with
              | none => .ok (longest, suffixDepths)
              | some callee => do
                let (depth, suffixDepths) ←
                  validateCommonCallDepth c room callee func (owner :: active) suffixDepths
                return (max longest (1 + depth), suffixDepths)) (1, suffixDepths)
          return (longest, (owner, longest) :: suffixDepths)

/-! ### Calls -/

/-- What is asked of a callee, before its own calls. -/
def validateCallee (c : Callables) (owner func : String) : Result Unit :=
  match c.action func with
  | some callee => do
    if hasLifecycle callee.body || !callee.body.cellBindings.isEmpty ||
        !callee.body.boundedCollectionOps.isEmpty ||
        callee.params.any (cellParameter · c.cellTypes) then
      throw (policyError
        (s!"'{owner}' calls Cell-bearing/stateful action '{func}'; entry bindings " ++
        "cannot be reused as a caller-bound Cell ABI"))
    validateBoundedSignature func callee.params callee.returnType
    validateBoundedBody c func callee.body
  | none =>
    match c.helper func with
    | some callee => do
      validateBoundedSignature func callee.params callee.returnType
      validateBoundedBody c func callee.body
    | none => .ok ()

/-- The body that calls are followed into: that of the helper, where an action has its name. -/
def Callables.callee (c : Callables) (func : String) : Option IrBody :=
  ((c.helper func).map (·.body)).or ((c.action func).map (·.body))

/-- The callables that are not active. -/
def Callables.inactive (c : Callables) (active : List String) : List String :=
  (c.actions.map (·.name) ++ c.helpers.map (·.name)).filter (· ∉ active)

variable {c : Callables} {func : String} {body : IrBody}

theorem Callables.mem_of_callee (h : c.callee func = some body) :
    func ∈ c.actions.map (·.name) ++ c.helpers.map (·.name) := by
  rw [callee, Option.or_eq_some_iff] at h
  rw [mem_append, mem_map, mem_map]
  rcases h with h | ⟨-, h⟩
  · obtain ⟨f, hf, -⟩ := map_eq_some_iff.1 h
    exact .inr ⟨f, mem_reverse.1 (mem_of_find?_eq_some hf), by simpa using find?_some hf⟩
  · obtain ⟨a, ha, -⟩ := map_eq_some_iff.1 h
    exact .inl ⟨a, mem_reverse.1 (mem_of_find?_eq_some ha), by simpa using find?_some ha⟩

/-- A call makes a callable active, of which there are finitely many. -/
theorem Callables.inactive_cons_lt {active : List String} (h : c.callee func = some body)
    (hactive : func ∉ active) :
    (c.inactive (func :: active)).length < (c.inactive active).length := by
  have hfilter : c.inactive (func :: active) = (c.inactive active).filter (· ≠ func) := by
    rw [inactive, inactive, List.filter_filter]
    refine filter_congr fun name _ ↦ ?_
    simp only [mem_cons, not_or, Bool.decide_and, ne_eq]
  rw [hfilter]
  refine List.length_filter_lt_length_iff_exists.2
    ⟨func, List.mem_filter.2 ⟨mem_of_callee h, ?_⟩, ?_⟩
  · exact decide_eq_true hactive
  · simp

/-- The calls of a list of instructions; the result is what has been visited. -/
def validateCalls (c : Callables) (instructions : List IrInstruction) (owner : String)
    (allowUnretained : Bool) (visited active : List String) : Result (List String) :=
  match instructions with
  | [] => .ok visited
  | instruction :: rest =>
    match instruction.function? with
    | none => validateCalls c rest owner allowUnretained visited active
    | some func =>
      match _hcallee : c.callee func with
      | none =>
        if !allowUnretained || func ∈ c.externalCallables then
          .error (policyError
            s!"'{owner}' calls external '{func}' without a retained, failure-auditable body")
        else validateCalls c rest owner allowUnretained visited active
      | some body => do
        validateCallee c owner func
        if _hactive : func ∈ active then
          throw (policyError
            s!"recursive policy call '{func}' has no bounded failure-propagation contract")
        else if func ∈ visited then validateCalls c rest owner allowUnretained visited active
        else
          let visited ← validateCalls c body.instructions func false visited (func :: active)
          validateCalls c rest owner allowUnretained (func :: visited) active
termination_by ((c.inactive active).length, instructions.length)
decreasing_by
  all_goals first
    | exact Prod.Lex.right _ (Nat.lt_succ_self _)
    | exact Prod.Lex.left _ _ (Callables.inactive_cons_lt _hcallee _hactive)

theorem validateCalls_of_forall {instructions : List IrInstruction}
    (h : ∀ i ∈ instructions, i.function? = none) (owner : String) (allowUnretained : Bool)
    (visited active : List String) :
    validateCalls c instructions owner allowUnretained visited active = .ok visited := by
  induction instructions with
  | nil => rw [validateCalls]
  | cons i rest ih =>
    obtain ⟨hi, hrest⟩ := forall_mem_cons.1 h
    rw [validateCalls, hi]
    exact ih hrest

/-! ### Binding -/

/-- A binding of a side of the group is bound to the group of the running script. -/
def rebind (binding : IrCellBinding) : IrCellBinding :=
  match binding.source.side with
  | some .input => { binding with source := .groupInput, membership := .currentTypeGroup }
  | some .output => { binding with source := .groupOutput, membership := .currentTypeGroup }
  | none => binding

def IrModule.schemas (module : IrModule) : List IrTypeDef :=
  module.items.filterMap IrItem.typeDef? ++ module.externalTypeDefs

def IrModule.callables (module : IrModule) : Callables where
  actions := module.actions
  helpers := module.items.filterMap IrItem.function?
  cellTypes := (module.schemas.filter (cellBackedKind ·.kind)).map (·.name)
  externalCallables := module.externalCallableAbis

/-- What the loop over the exports has seen: the names, the tags and the new bindings. -/
structure Exports where
  names : List String
  tags : List UInt32
  staged : List (String × List IrCellBinding)

/-- Checks an export and keeps its bindings for the commit. -/
def stageExport (c : Callables) (resource : String) (exports : Exports) (export_ : ArtifactAction) :
    Result Exports := do
  if export_.action ∈ exports.names ∨ export_.tag ∈ exports.tags then
    throw (policyError "export action names and dispatch tags must be unique")
  match c.action export_.action with
  | none => throw (policyError s!"export '{export_.action}' must name a retained action")
  | some action =>
    validateFixedAction action resource c.cellTypes
    return ⟨export_.action :: exports.names, export_.tag :: exports.tags,
      (export_.action, action.body.cellBindings.map rebind) :: exports.staged⟩

/-- One common check; the names and the depths known so far are kept. -/
def validateCommonName (c : Callables) (exports : List String)
    (common : List String × List (String × ℕ)) (name : String) :
    Result (List String × List (String × ℕ)) := do
  if name ∈ exports ∨ name ∈ common.1 then
    throw (policyError s!"common check '{name}' must be unique and must not also be exported")
  match c.action name with
  | none => throw (policyError s!"common check '{name}' must name an action")
  | some action =>
    validateCommonCheck action
    let (_, suffixDepths) ←
      validateCommonCallDepth c maxCommonCallDepth action.body action.name [] common.2
    return (name :: common.1, suffixDepths)

/-- The calls of one entry; the names are those of actions by now. -/
def validateEntryCalls (c : Callables) (visited : List String) (entry : String × Bool) :
    Result (List String) :=
  match c.action entry.1 with
  | none => .error (policyError s!"export '{entry.1}' must name a retained action")
  | some action => validateCalls c action.body.instructions entry.1 entry.2 visited []

/-- The checks up to the calls; the result is what is staged for the exported actions, and the names
of the actions whose calls are to be checked, in order. -/
def stageActions (d : ArtifactDeclaration) (module : IrModule) :
    Result (List (String × List IrCellBinding) × List (String × Bool)) := do
  d.validate
  let backed := match module.schemas.filter (·.name = d.resource) with
    | [schema] => cellBackedKind schema.kind
    | _ => false
  if !backed then
    throw (policyError (s!"type-group context '{d.resource}' must identify exactly one concrete " ++
      "Cell-backed schema"))
  let c := module.callables
  let exports ← d.actions.foldlM (stageExport c d.resource) ⟨[], [], []⟩
  if exports.names.isEmpty then
    throw (policyError "a policy artifact requires at least one exported action")
  let (common, _) ← d.commonChecks.foldlM (validateCommonName c exports.names) ([], [])
  return (exports.staged, (exports.names.insertionSort (· ≤ ·)).map (·, true) ++
    (common.insertionSort (· ≤ ·)).map (·, false))

/-- All checks of the pass. -/
def stage (d : ArtifactDeclaration) (module : IrModule) :
    Result (List (String × List IrCellBinding)) := do
  let (staged, entries) ← stageActions d module
  let _ ← entries.foldlM (validateEntryCalls module.callables) []
  return staged

/-- An action with the bindings that are staged for it. -/
def IrAction.commit (resource : String) (staged : List (String × List IrCellBinding))
    (action : IrAction) : IrAction :=
  match staged.lookup action.name with
  | none => action
  | some bindings =>
    { action with
      entryTrigger := some s!"type-group<{resource}>"
      body := { action.body with cellBindings := bindings } }

/-- Writes the staged bindings into an item. -/
def IrItem.commit (resource : String) (staged : List (String × List IrCellBinding)) :
    IrItem → IrItem
  | action item => action (item.commit resource staged)
  | item => item

theorem IrAction.name_commit (resource : String) (staged : List (String × List IrCellBinding))
    (action : IrAction) : (action.commit resource staged).name = action.name := by
  unfold commit
  split <;> rfl

theorem filterMap_action_commit (resource : String) (staged : List (String × List IrCellBinding))
    (items : List IrItem) :
    (items.map (·.commit resource staged)).filterMap IrItem.action?
      = (items.filterMap IrItem.action?).map (·.commit resource staged) := by
  rw [List.filterMap_map, List.map_filterMap]
  refine List.filterMap_congr fun item _ ↦ ?_
  cases item <;> rfl

/-- The module with the bindings that are staged for its actions. -/
def IrModule.commit (resource : String) (staged : List (String × List IrCellBinding))
    (module : IrModule) : IrModule where
  items := module.items.map (·.commit resource staged)
  externalTypeDefs := module.externalTypeDefs
  externalCallableAbis := module.externalCallableAbis
  nodup := by
    rw [filterMap_action_commit, map_map]
    have hname : ((·.name) ∘ IrAction.commit resource staged) = fun a : IrAction ↦ a.name :=
      funext (IrAction.name_commit resource staged)
    rw [hname]
    exact module.nodup

/-- `bind_artifact_policy`. -/
def bindArtifactPolicy (d : ArtifactDeclaration) : ExceptT CompileError (StateM IrModule) Unit := do
  let module ← get
  match stage d module with
  | .error e => throw e
  | .ok staged => set (module.commit d.resource staged)

end CellScript.GroupPolicy
