import CellScript.Ir.Body

/-!
# The byte-loop pass

`optimize_source_byte_equality` of `ir/optimize.rs` on one function. A loop that compares bytes one
by one is replaced by a call of a helper that compares the whole range. Three matchers look for the
loops: two byte sources against each other, a byte source against an array in memory, and a byte
source against zero. Each rewrites the first loop it finds: the block of the loop condition is
replaced, and the blocks that are then out of reach are pruned.

The source identifies an instruction by its address; here it is its position. A match keeps, beside
what the source keeps of it, the blocks and temporaries of the loop, which statements about the pass
refer to.
-/

namespace CellScript.Ir

/-! ### Byte sources -/

inductive SourceKind
  | cellData
  | witness
  | cellLock
  | cellType
  deriving DecidableEq, Repr

namespace SourceKind

/-- The number a helper is told the source by. -/
def code : SourceKind → BitVec 64
  | cellData => 0
  | witness => 1
  | cellLock => 2
  | cellType => 3

def ofCode (code : BitVec 64) : Option SourceKind :=
  if code = 0 then some cellData
  else if code = 1 then some witness
  else if code = 2 then some cellLock
  else if code = 3 then some cellType
  else none

@[simp] theorem ofCode_code (kind : SourceKind) : ofCode kind.code = some kind := by
  cases kind <;> rfl

end SourceKind

def runtimeByteSourceKind (func : IrCallTarget) : Option SourceKind :=
  match func.runtimeHelper with
  | some .ckbCellDataU8 => some .cellData
  | some .ckbWitnessU8 => some .witness
  | some .ckbCellLockU8 => some .cellLock
  | some .ckbCellTypeU8 => some .cellType
  | _ => none

/-! ### Operands and blocks -/

def operandIsVar (operand : IrOperand) (var : IrVar) : Bool :=
  match operand with
  | .var candidate => candidate.id = var.id
  | .const _ => false

def isConstReturn (b : IrBlock) (value : Bool) : Bool :=
  b.instructions = [] ∧ b.terminator = .ret (some (.const (.bool value)))

def emptyJumpTarget : IrTerminator → Option BlockId
  | .jump target => some target
  | _ => none

def emptyJump (b : IrBlock) : Option BlockId :=
  if b.instructions = [] then emptyJumpTarget b.terminator else none

/-! ### Tracing operands through the loop's leading instructions -/

/-- The last instruction that assigns the variable, with its position. -/
def definitionFor (id : ℕ) : List IrInstruction → Option (ℕ × IrInstruction)
  | [] => none
  | instruction :: instructions =>
    match definitionFor id instructions with
    | some (position, definition) => some (position + 1, definition)
    | none => if instruction.destId = some id then some (0, instruction) else none

/-- `resolve_moves`. -/
def resolveMoves (instructions : List IrInstruction) : ℕ → IrOperand → Option IrOperand
  | 0, _ => none
  | _ + 1, .const value => some (.const value)
  | remainingDepth + 1, .var var =>
    match definitionFor var.id instructions with
    | some (_, .move _ src) => resolveMoves instructions remainingDepth src
    | _ => some (.var var)

/-- A byte read from a source. -/
structure SourceByte where
  view : IrOperand
  offset : IrOperand
  kind : SourceKind
  scratch : IrVar
  position : ℕ

def sourceByte (operand : IrOperand) (instructions : List IrInstruction) : Option SourceByte :=
  match resolveMoves instructions (instructions.length + 1) operand with
  | some (.var value) =>
    match definitionFor value.id instructions with
    | some (position, .call (some dest) func [view, offset]) =>
      (runtimeByteSourceKind func).map fun kind ↦
        { view, offset, kind, scratch := dest, position }
    | _ => none
  | _ => none

/-- A byte read from an array. -/
structure MemoryByte where
  pointer : IrVar
  index : IrOperand
  position : ℕ

def memoryByte (operand : IrOperand) (instructions : List IrInstruction) : Option MemoryByte :=
  match resolveMoves instructions (instructions.length + 1) operand with
  | some (.var value) =>
    match definitionFor value.id instructions with
    | some (position, .index _ (.var pointer) idx) =>
      match pointer.ty with
      | .array .u8 _ => some { pointer, index := idx, position }
      | _ => none
    | _ => none
  | _ => none

/-- An offset as a sum: so many times the index, terms from outside the loop, and a constant. -/
structure IndexedOffset where
  indexCount : ℕ
  terms : List IrOperand
  constant : BitVec 64

def decomposeIndexedOffset (index : IrVar) (definitions : List IrInstruction) :
    ℕ → IrOperand → Option IndexedOffset
  | 0, _ => none
  | _ + 1, .const (.u64 value) => some { indexCount := 0, terms := [], constant := value }
  | _ + 1, .const _ => none
  | remainingDepth + 1, .var var =>
    if var.id = index.id then some { indexCount := 1, terms := [], constant := 0 }
    else
      match definitionFor var.id definitions with
      | none => some { indexCount := 0, terms := [.var var], constant := 0 }
      | some (_, .binary _ .add left right) =>
        match decomposeIndexedOffset index definitions remainingDepth left,
          decomposeIndexedOffset index definitions remainingDepth right with
        | some l, some r =>
          some
            { indexCount := l.indexCount + r.indexCount
              terms := l.terms ++ r.terms
              constant := l.constant + r.constant }
        | _, _ => none
      | some _ => none

def operandDependsOnPrefixOrIndex (operand : IrOperand) (index : IrVar)
    (definitions : List IrInstruction) : Bool :=
  match operand with
  | .var var => var.id = index.id ∨ (definitionFor var.id definitions).isSome
  | .const _ => false

/-- `materialize_offset_base`: the instructions that compute the base, and the base. -/
def materializeOffsetBase (form : IndexedOffset) (scratch : IrVar) :
    List IrInstruction × IrOperand :=
  match form.terms with
  | [] => ([], .const (.u64 form.constant))
  | term :: _ =>
    if form.constant = 0 then ([], term)
    else
      let dest : IrVar := { id := scratch.id, name := "byte_range_base", ty := .u64 }
      ([.binary dest .add term (.const (.u64 form.constant))], .var dest)

/-! ### What may be discarded -/

def nonTrappingScalarOperand : IrOperand → Bool
  | .var var => var.ty.isWord
  | .const (.u8 _) | .const (.u16 _) | .const (.u32 _) | .const (.u64 _) | .const (.bool _) => true
  | .const _ => false

/-- An instruction that cannot trap. -/
def replaceableInstruction : IrInstruction → Bool
  | .loadConst _ _ | .move _ _ => true
  | .binary dest op left right =>
    dest.ty.isWord && nonTrappingScalarOperand left && nonTrappingScalarOperand right &&
      !(op = .div ∨ op = .mod ∨ op = .shl ∨ op = .shr)
  | _ => false

/-- `replaceable_byte_loop_prefix`; `replaced` holds the positions of the byte reads. -/
def replaceableByteLoopPrefix (instructions : List IrInstruction) (replaced : List ℕ) : Bool :=
  instructions.zipIdx.all fun p ↦ p.2 ∈ replaced || replaceableInstruction p.1

/-! ### The shape of the loop -/

/-- A loop that compares two operands, counting an index up to a length. The source keeps the fields
up to `right`. -/
structure EqualityLoop where
  condition : IrBlock
  result : IrVar
  index : IrVar
  length : IrOperand
  leading : List IrInstruction
  left : IrOperand
  right : IrOperand
  differs : IrVar
  next : IrVar
  complete : IrBlock
  compare : IrBlock
  mismatch : IrBlock
  continuing : IrBlock
  increment : IrBlock

/-- The block that counts the index up and goes back to the condition. A block that does not end in
a jump makes a matcher give up. -/
def incrementNext (increment : IrBlock) (index : IrVar) (conditionId : BlockId) :
    Option (Option IrVar) := do
  let [.binary next .add incrementLeft (.const (.u64 1)), .move moved nextOperand] :=
    increment.instructions | return none
  if !(operandIsVar incrementLeft index ∧ moved.id = index.id ∧ operandIsVar nextOperand next) then
    return none
  if (← emptyJumpTarget increment.terminator) ≠ conditionId then return none
  return some next

/-- Some block assigns zero to the index somewhere and then enters the loop. -/
def initializedFromZero (blocks : List IrBlock) (index : IrVar) (conditionId : BlockId) : Bool :=
  blocks.any fun candidate ↦
    candidate.instructions.any
        (fun
          | .loadConst dest (.u64 0) => dest.id = index.id
          | _ => false) &&
      emptyJumpTarget candidate.terminator = some conditionId

/-- Some block assigns zero to the index, does nothing else, and then enters the loop. -/
def initializedExactlyFromZero (blocks : List IrBlock) (index : IrVar) (conditionId : BlockId) :
    Bool :=
  blocks.any fun candidate ↦
    match candidate.instructions with
    | [.loadConst dest (.u64 0)] =>
      dest.id = index.id ∧ emptyJumpTarget candidate.terminator = some conditionId
    | _ => false

/-- `equality_loop_at`. -/
def equalityLoopAt (blocks : List IrBlock) (condition : IrBlock) : Option EqualityLoop := do
  let [.binary result .lt (.var index) length] := condition.instructions | none
  let .branch cond compareId completeId := condition.terminator | none
  let complete ← block blocks completeId
  guard (operandIsVar cond result ∧ isConstReturn complete true)
  let compare ← block blocks compareId
  let some (.binary differs .ne left right) := compare.instructions.getLast? | none
  let .branch cond' mismatchId continueId := compare.terminator | none
  let mismatch ← block blocks mismatchId
  guard (operandIsVar cond' differs ∧ isConstReturn mismatch false)
  let continuing ← block blocks continueId
  let incrementId ← emptyJump continuing
  let increment ← block blocks incrementId
  let next ← (incrementNext increment index condition.id).join
  guard (initializedFromZero blocks index condition.id)
  return {
    condition, result, index, length, leading := compare.instructions.dropLast, left, right,
    differs, next, complete, compare, mismatch, continuing, increment }

/-! ### The three matchers -/

/-- Where the two compared bytes come from. -/
inductive ByteStream
  | source (kind : SourceKind) (view : IrOperand) (offset : IndexedOffset) (scratch : IrVar)
  | memory (pointer : IrVar)
  | zero

/-- A loop to be rewritten, with the block that replaces its condition. -/
structure ByteLoop where
  loop : EqualityLoop
  left : ByteStream
  right : ByteStream
  instructions : List IrInstruction

/-- The block that takes the place of the loop condition. -/
def ByteLoop.replacement (l : ByteLoop) : IrBlock where
  id := l.loop.condition.id
  instructions := l.instructions
  terminator := .ret (some (.var l.loop.result))
  runtimeError := none

/-- A matcher goes through the blocks. On a block it gives up (`none`), goes on (`some none`) or has
found a loop. -/
def firstMatch {α : Type} (matchAt : IrBlock → Option (Option α)) : List IrBlock → Option α
  | [] => none
  | b :: blocks =>
    match matchAt b with
    | none => none
    | some none => firstMatch matchAt blocks
    | some (some found) => some found

/-- The call of `SOURCE_BYTES_EQUAL_HELPER`. -/
def sourceBytesEqualInstructions (result : IrVar) (length : IrOperand) (left right : SourceByte)
    (leftForm rightForm : IndexedOffset) : List IrInstruction :=
  let leftBase := materializeOffsetBase leftForm left.scratch
  let rightBase := materializeOffsetBase rightForm right.scratch
  leftBase.1 ++ rightBase.1 ++
    [.call (some result) (.runtime .ckbSourceBytesEqual)
      [left.view, leftBase.2, right.view, rightBase.2, length, .const (.u64 left.kind.code),
        .const (.u64 right.kind.code)]]

/-- The call of `SOURCE_BYTES_EQUAL_MEMORY_HELPER`. -/
def sourceBytesEqualMemoryInstructions (result : IrVar) (length : IrOperand) (source : SourceByte)
    (form : IndexedOffset) (pointer : IrVar) : List IrInstruction :=
  let base := materializeOffsetBase form source.scratch
  base.1 ++
    [.call (some result) (.runtime .ckbSourceBytesEqualMemory)
      [source.view, base.2, .var pointer, length, .const (.u64 source.kind.code)]]

/-- The call of `SOURCE_BYTES_ZERO_HELPER`. -/
def sourceBytesZeroInstructions (result : IrVar) (length : IrOperand) (source : SourceByte)
    (form : IndexedOffset) : List IrInstruction :=
  let base := materializeOffsetBase form source.scratch
  base.1 ++
    [.call (some result) (.runtime .ckbSourceBytesZero)
      [source.view, base.2, length, .const (.u64 source.kind.code)]]

/-- `match_source_memory_equality_loop` on one block. -/
def sourceMemoryEqualityLoopAt (blocks : List IrBlock) (condition : IrBlock) :
    Option (Option ByteLoop) := do
  let some loop := equalityLoopAt blocks condition | return none
  let pair :=
    ((sourceByte loop.left loop.leading).bind fun source ↦
        (memoryByte loop.right loop.leading).map fun memory ↦ (source, memory)).or
      ((sourceByte loop.right loop.leading).bind fun source ↦
        (memoryByte loop.left loop.leading).map fun memory ↦ (source, memory))
  let some (source, memory) := pair | return none
  if !replaceableByteLoopPrefix loop.leading [source.position, memory.position] then return none
  if !operandIsVar memory.index loop.index then return none
  let .const (.u64 length) := loop.length | return none
  let .array inner width := memory.pointer.ty | return none
  if inner ≠ .u8 ∨ width < length.toNat then return none
  let form ←
    decomposeIndexedOffset loop.index loop.leading (loop.leading.length + 1) source.offset
  if form.indexCount ≠ 1 ∨ 1 < form.terms.length ∨
      operandDependsOnPrefixOrIndex source.view loop.index loop.leading ∨
      operandDependsOnPrefixOrIndex (.var memory.pointer) loop.index loop.leading then return none
  return some {
    loop
    left := .source source.kind source.view form source.scratch
    right := .memory memory.pointer
    instructions :=
      sourceBytesEqualMemoryInstructions loop.result loop.length source form memory.pointer }

/-- `match_source_zero_loop` on one block. -/
def sourceZeroLoopAt (blocks : List IrBlock) (condition : IrBlock) : Option (Option ByteLoop) := do
  let some loop := equalityLoopAt blocks condition | return none
  let source :=
    match loop.left, loop.right with
    | .const (.u64 0), other => sourceByte other loop.leading
    | other, .const (.u64 0) => sourceByte other loop.leading
    | _, _ => none
  let some source := source | return none
  if !replaceableByteLoopPrefix loop.leading [source.position] then return none
  let form ←
    decomposeIndexedOffset loop.index loop.leading (loop.leading.length + 1) source.offset
  if form.indexCount ≠ 1 ∨ 1 < form.terms.length ∨
      operandDependsOnPrefixOrIndex source.view loop.index loop.leading ∨
      operandDependsOnPrefixOrIndex loop.length loop.index loop.leading then return none
  return some {
    loop
    left := .source source.kind source.view form source.scratch
    right := .zero
    instructions := sourceBytesZeroInstructions loop.result loop.length source form }

/-- The two byte reads and the comparison that end the compare block of a loop over two sources. -/
def sourcePair (instructions : List IrInstruction) :
    Option (SourceByte × SourceByte × IrVar × IrOperand × IrOperand) := do
  let split := instructions.length - 3
  let [.call (some leftByte) leftFunc leftArgs, .call (some rightByte) rightFunc rightArgs,
    .binary differs .ne left right] := instructions.drop split | none
  let leftKind ← runtimeByteSourceKind leftFunc
  let rightKind ← runtimeByteSourceKind rightFunc
  let [leftView, leftOffset] := leftArgs | none
  let [rightView, rightOffset] := rightArgs | none
  guard (operandIsVar left leftByte ∧ operandIsVar right rightByte ∨
    operandIsVar left rightByte ∧ operandIsVar right leftByte)
  return (
    { view := leftView, offset := leftOffset, kind := leftKind, scratch := leftByte,
      position := split },
    { view := rightView, offset := rightOffset, kind := rightKind, scratch := rightByte,
      position := split + 1 },
    differs, left, right)

/-- `match_source_byte_equality_loop` on one block. It has a body of its own: a missing block makes
it give up, the index must be initialised by a block that does nothing else, and the byte reads come
last in the compare block. -/
def sourceByteEqualityLoopAt (blocks : List IrBlock) (condition : IrBlock) :
    Option (Option ByteLoop) := do
  let [.binary result .lt (.var index) length] := condition.instructions | return none
  let .branch cond compareId completeId := condition.terminator | return none
  if !operandIsVar cond result then return none
  let complete ← block blocks completeId
  if !isConstReturn complete true then return none
  let compare ← block blocks compareId
  let definitions := compare.instructions.take (compare.instructions.length - 3)
  if compare.instructions.length < 3 ∨ !replaceableByteLoopPrefix definitions [] then return none
  let some (leftByte, rightByte, differs, left, right) := sourcePair compare.instructions
    | return none
  let .branch cond' mismatchId continueId := compare.terminator | return none
  if !operandIsVar cond' differs then return none
  let mismatch ← block blocks mismatchId
  if !isConstReturn mismatch false then return none
  let continuing ← block blocks continueId
  let incrementId ← emptyJump continuing
  let increment ← block blocks incrementId
  let some next ← incrementNext increment index condition.id | return none
  if !initializedExactlyFromZero blocks index condition.id then return none
  let leftForm ← decomposeIndexedOffset index definitions (definitions.length + 1) leftByte.offset
  let rightForm ← decomposeIndexedOffset index definitions (definitions.length + 1) rightByte.offset
  if leftForm.indexCount ≠ 1 ∨ rightForm.indexCount ≠ 1 ∨ 1 < leftForm.terms.length ∨
      1 < rightForm.terms.length ∨
      operandDependsOnPrefixOrIndex leftByte.view index definitions ∨
      operandDependsOnPrefixOrIndex rightByte.view index definitions ∨
      operandDependsOnPrefixOrIndex length index definitions then return none
  return some {
    loop := {
      condition, result, index, length, leading := compare.instructions.dropLast, left, right,
      differs, next, complete, compare, mismatch, continuing, increment }
    left := .source leftByte.kind leftByte.view leftForm leftByte.scratch
    right := .source rightByte.kind rightByte.view rightForm rightByte.scratch
    instructions :=
      sourceBytesEqualInstructions result length leftByte rightByte leftForm rightForm }

/-! ### The pass -/

namespace IrFunction

variable (f : IrFunction)

/-- A matcher, on a function that returns a Boolean. -/
def matchLoop (matchAt : List IrBlock → IrBlock → Option (Option ByteLoop)) : Option ByteLoop :=
  if f.returnType = some .bool then firstMatch (matchAt f.blocks) f.blocks else none

def matchSourceByteEqualityLoop : Option ByteLoop := f.matchLoop sourceByteEqualityLoopAt

def matchSourceMemoryEqualityLoop : Option ByteLoop := f.matchLoop sourceMemoryEqualityLoopAt

def matchSourceZeroLoop : Option ByteLoop := f.matchLoop sourceZeroLoopAt

/-- The condition is replaced and what cannot be reached any more is pruned. -/
def rewrite (l : ByteLoop) : IrFunction where
  returnType := f.returnType
  blocks := pruneUnreachableBlocks (replaceBlock l.replacement f.blocks)
  nodup := nodup_pruneUnreachableBlocks (by rw [map_id_replaceBlock]; exact f.nodup)

def rewriteLoop (found : Option ByteLoop) : IrFunction :=
  found.elim f f.rewrite

/-- The function after the first matcher. -/
def withSourceByteEquality : IrFunction := f.rewriteLoop f.matchSourceByteEqualityLoop

/-- The function after the first two matchers. -/
def withSourceMemoryEquality : IrFunction :=
  f.withSourceByteEquality.rewriteLoop f.withSourceByteEquality.matchSourceMemoryEqualityLoop

/-- `optimize_source_byte_equality`, on one function of the module. -/
def optimizeSourceByteEquality : IrFunction :=
  f.withSourceMemoryEquality.rewriteLoop f.withSourceMemoryEquality.matchSourceZeroLoop

/-- The loops that the pass rewrites, at most one for each matcher. -/
def rewrittenLoops : List ByteLoop :=
  f.matchSourceByteEqualityLoop.toList ++
    f.withSourceByteEquality.matchSourceMemoryEqualityLoop.toList ++
    f.withSourceMemoryEquality.matchSourceZeroLoop.toList

end IrFunction

end CellScript.Ir
