import CellScript.Ir.Trace

/-!
# Matched byte loops

What a match of one of the three matchers stands for. `ByteStream.read` is the byte that a side of
the comparison contributes at an index; `EqualityLoop.Shape` is the control flow that was matched.

Two kinds of conditions go beyond the match. `ByteLoop.WellFormed` is what lowering gives every
loop: its temporaries come from `new_var`, so each is assigned by one instruction and is none of the
variables that the loop reads from outside; its comparisons and sums are typed; its blocks carry no
runtime error. `ByteLoop.Settled` is what the matchers would have to check and do not: the discarded
instructions leave the index alone, and no variable that the matchers trace is assigned again after
the place where it is read.
-/

namespace CellScript.Ir

variable {World : Type} {operand : IrOperand} {σ τ : State World} {b : IrBlock} {var : IrVar}
  {conditionId id target : BlockId} {blocks : List IrBlock}

/-! ### Streams -/

namespace ByteStream

/-- The byte at an index. -/
def read (M : Machine World) (σ : State World) : ByteStream → ℕ → Option (BitVec 8)
  | source kind view offset _, j => M.byteAt σ.world kind (σ.eval view) (offset.base σ) j
  | memory pointer, j => (σ.vars pointer.id).bytes[j]?
  | zero, _ => some 0

/-- The variables from outside the loop that a stream depends on. -/
def inputs : ByteStream → List ℕ
  | source _ view offset _ => view.ids ++ offset.terms.flatMap IrOperand.ids
  | memory pointer => [pointer.id]
  | zero => []

def scratches : ByteStream → List IrVar
  | source _ _ _ scratch => [scratch]
  | _ => []

/-- The terms of the offset fit a register. -/
def termsAreWords : ByteStream → Bool
  | source _ _ offset _ => offset.terms.all fun term ↦ term.ty.isWord
  | _ => true

end ByteStream

theorem eval_congr
    (h : ∀ id ∈ operand.ids, τ.vars id = σ.vars id) : τ.eval operand = σ.eval operand := by
  cases operand with
  | var v => exact h v.id (by simp [IrOperand.ids])
  | const c => rfl

theorem IndexedOffset.base_congr {form : IndexedOffset}
    (h : ∀ id ∈ form.terms.flatMap IrOperand.ids, τ.vars id = σ.vars id) :
    form.base τ = form.base σ := by
  unfold IndexedOffset.base
  congr 2
  refine map_congr_left fun term hterm ↦ ?_
  rw [eval_congr fun id hid ↦ h id (mem_flatMap.2 ⟨term, hterm, hid⟩)]

/-- A stream depends on its inputs only. -/
theorem ByteStream.read_congr {M : Machine World} {stream : ByteStream}
    (hworld : τ.world = σ.world) (h : ∀ id ∈ stream.inputs, τ.vars id = σ.vars id) :
    stream.read M τ = stream.read M σ := by
  funext j
  cases stream with
  | source kind view offset scratch =>
    have hview : τ.eval view = σ.eval view := eval_congr fun id hid ↦ h id (mem_append_left _ hid)
    have hbase : offset.base τ = offset.base σ :=
      IndexedOffset.base_congr fun id hid ↦ h id (mem_append_right _ hid)
    simp only [ByteStream.read, hworld, hview, hbase]
  | memory pointer =>
    simp only [ByteStream.read, h pointer.id (by simp [ByteStream.inputs])]
  | zero => rfl

/-! ### Conditions on a match -/

/-- The types that are compared as unsigned registers. -/
def IrType.isUnsignedWord : IrType → Bool
  | u8 | u16 | u32 | u64 => true
  | _ => false

/-- A comparison of unsigned registers into a Boolean. -/
def IrInstruction.isUnsignedComparison : IrInstruction → Bool
  | binary dest _ left right =>
    dest.ty = .bool ∧ left.ty.isUnsignedWord ∧ right.ty.isUnsignedWord
  | _ => false

namespace ByteLoop

variable (l : ByteLoop)

/-- The variables that the loop reads and leaves alone. -/
def constants : List ℕ := l.loop.length.ids ++ l.left.inputs ++ l.right.inputs

/-- The variables that the loop reads from outside. -/
def inputs : List ℕ := l.loop.index.id :: l.constants

def temporaries : List IrVar :=
  [l.loop.result, l.loop.differs, l.loop.next] ++ l.left.scratches ++ l.right.scratches

/-- The variables that an iteration of the loop assigns, with repetitions. -/
def assigned : List ℕ :=
  (l.loop.condition.instructions ++ l.loop.compare.instructions ++
    l.loop.increment.instructions).filterMap IrInstruction.destId

def loopBlocks : List IrBlock :=
  [l.loop.condition, l.loop.complete, l.loop.compare, l.loop.mismatch, l.loop.continuing,
    l.loop.increment]

/-- What lowering gives every loop. -/
structure WellFormed : Prop where
  assigned_once : ∀ t ∈ l.temporaries, l.assigned.count t.id = 1
  fresh : ∀ t ∈ l.temporaries, t.id ∉ l.inputs
  comparison : l.loop.condition.instructions.all IrInstruction.isUnsignedComparison = true
  byteComparison :
    l.loop.compare.instructions.getLast?.all IrInstruction.isUnsignedComparison = true
  sum : l.loop.increment.instructions.all IrInstruction.isWordSum = true
  terms : l.left.termsAreWords = true ∧ l.right.termsAreWords = true
  noError : ∀ b ∈ l.loopBlocks, b.runtimeError = none

/-- What the matchers do not check about the instructions that they discard. -/
structure Settled : Prop where
  index : Unassigned l.loop.index.id l.loop.leading
  left : settled l.loop.leading (l.loop.leading.length + 1) l.loop.leading.length l.loop.left = true
  right :
    settled l.loop.leading (l.loop.leading.length + 1) l.loop.leading.length l.loop.right = true

instance : Decidable l.WellFormed :=
  decidable_of_iff
    ((∀ t ∈ l.temporaries, l.assigned.count t.id = 1) ∧ (∀ t ∈ l.temporaries, t.id ∉ l.inputs) ∧
      l.loop.condition.instructions.all IrInstruction.isUnsignedComparison = true ∧
      l.loop.compare.instructions.getLast?.all IrInstruction.isUnsignedComparison = true ∧
      l.loop.increment.instructions.all IrInstruction.isWordSum = true ∧
      (l.left.termsAreWords = true ∧ l.right.termsAreWords = true) ∧
      ∀ b ∈ l.loopBlocks, b.runtimeError = none)
    ⟨fun ⟨a, b, c, d, e, f, g⟩ ↦ ⟨a, b, c, d, e, f, g⟩,
      fun ⟨a, b, c, d, e, f, g⟩ ↦ ⟨a, b, c, d, e, f, g⟩⟩

instance : Decidable l.Settled :=
  decidable_of_iff
    (Unassigned l.loop.index.id l.loop.leading ∧
      settled l.loop.leading (l.loop.leading.length + 1) l.loop.leading.length l.loop.left = true ∧
      settled l.loop.leading (l.loop.leading.length + 1) l.loop.leading.length l.loop.right = true)
    ⟨fun ⟨a, b, c⟩ ↦ ⟨a, b, c⟩, fun ⟨a, b, c⟩ ↦ ⟨a, b, c⟩⟩

end ByteLoop

/-! ### The shape of a loop -/

theorem operandIsVar_iff :
    operandIsVar operand var = true ↔ ∃ v, operand = .var v ∧ v.id = var.id := by
  cases operand with
  | var v => simp [operandIsVar]
  | const c => simp [operandIsVar]

theorem eval_of_operandIsVar (h : operandIsVar operand var = true) :
    σ.eval operand = σ.vars var.id := by
  obtain ⟨v, rfl, hv⟩ := operandIsVar_iff.1 h
  rw [State.eval_var, hv]

theorem isConstReturn_iff {value : Bool} :
    isConstReturn b value = true ↔
      b.instructions = [] ∧ b.terminator = .ret (some (.const (.bool value))) := by
  simp [isConstReturn]

theorem emptyJumpTarget_some {terminator : IrTerminator}
    (h : emptyJumpTarget terminator = some target) : terminator = .jump target := by
  cases terminator with
  | jump t => exact congrArg _ (some.inj h)
  | ret v => cases h
  | branch c t e => cases h

theorem emptyJump_some (h : emptyJump b = some target) :
    b.instructions = [] ∧ b.terminator = .jump target := by
  unfold emptyJump at h
  split at h
  · next hb => exact ⟨hb, emptyJumpTarget_some h⟩
  · cases h

/-- The increment block: `index + 1` goes through a temporary. -/
structure IncrementShape (increment : IrBlock) (index next : IrVar) (conditionId : BlockId) :
    Prop where
  instructions : ∃ left moved operand,
    increment.instructions = [.binary next .add left (.const (.u64 1)), .move moved operand] ∧
      operandIsVar left index = true ∧ moved.id = index.id ∧ operandIsVar operand next = true
  terminator : increment.terminator = .jump conditionId

theorem incrementShape {increment : IrBlock} {index next : IrVar}
    (h : incrementNext increment index conditionId = some (some next)) :
    IncrementShape increment index next conditionId := by
  unfold incrementNext at h
  split at h
  swap
  · cases h
  next next' left moved operand hi =>
  split at h
  · cases h
  next hvars =>
  simp only [bind_eq_bind, bind_eq_some_iff] at h
  obtain ⟨target, htarget, h⟩ := h
  split at h
  · cases h
  · next heq =>
    obtain rfl : next' = next := by simpa using h
    simp only [not_eq_true', decide_eq_false_iff_not, not_not] at hvars
    rw [not_not] at heq
    exact ⟨⟨left, moved, operand, hi, hvars⟩, heq ▸ emptyJumpTarget_some htarget⟩

/-- The blocks of a loop, and how they are connected. -/
structure EqualityLoop.Shape (blocks : List IrBlock) (l : EqualityLoop) : Prop where
  condition : block blocks l.condition.id = some l.condition
  condition_instructions : l.condition.instructions = [.binary l.result .lt (.var l.index) l.length]
  condition_terminator : ∃ cond, operandIsVar cond l.result = true ∧
    l.condition.terminator = .branch cond l.compare.id l.complete.id
  complete : block blocks l.complete.id = some l.complete
  complete_return : isConstReturn l.complete true = true
  compare : block blocks l.compare.id = some l.compare
  compare_instructions :
    l.compare.instructions = l.leading ++ [.binary l.differs .ne l.left l.right]
  compare_terminator : ∃ cond, operandIsVar cond l.differs = true ∧
    l.compare.terminator = .branch cond l.mismatch.id l.continuing.id
  mismatch : block blocks l.mismatch.id = some l.mismatch
  mismatch_return : isConstReturn l.mismatch false = true
  continuing : block blocks l.continuing.id = some l.continuing
  continuing_jump : emptyJump l.continuing = some l.increment.id
  increment : block blocks l.increment.id = some l.increment
  increment_shape : IncrementShape l.increment l.index l.next l.condition.id

theorem block_self (h : block blocks id = some b) : block blocks b.id = some b := by
  rw [id_of_block h, h]

/-- `equality_loop_at` finds loops of the shape. -/
theorem equalityLoopAt_shape (hn : (blocks.map (·.id)).Nodup) {condition : IrBlock}
    (hc : condition ∈ blocks) {l : EqualityLoop} (h : equalityLoopAt blocks condition = some l) :
    l.Shape blocks ∧ l.condition = condition := by
  unfold equalityLoopAt at h
  split at h
  swap
  · cases h
  next result index length hinstructions =>
  split at h
  swap
  · cases h
  next cond compareId completeId hterminator =>
  simp only [bind_eq_bind, bind_eq_some_iff, Option.guard_eq_some'] at h
  obtain ⟨complete, hcomplete, -, ⟨hcond, hreturn⟩, compare, hcompare, h⟩ := h
  split at h
  swap
  · cases h
  next differs left right hlast =>
  split at h
  swap
  · cases h
  next cond' mismatchId continueId hterminator' =>
  simp only [bind_eq_some_iff, Option.guard_eq_some'] at h
  obtain ⟨mismatch, hmismatch, -, ⟨hcond', hreturn'⟩, continuing, hcontinuing, incrementId,
    hjump, increment, hincrement, next, hnext, -, -, h⟩ := h
  obtain rfl := some.inj h
  have hdrop := List.dropLast_append_getLast? _ hlast
  refine ⟨?_, rfl⟩
  constructor
  · exact block_some_of_mem hn hc
  · exact hinstructions
  · exact ⟨cond, hcond, by rw [hterminator, id_of_block hcompare, id_of_block hcomplete]⟩
  · exact block_self hcomplete
  · exact hreturn
  · exact block_self hcompare
  · exact hdrop.symm
  · exact ⟨cond', hcond', by
      rw [hterminator', id_of_block hmismatch, id_of_block hcontinuing]⟩
  · exact block_self hmismatch
  · exact hreturn'
  · exact block_self hcontinuing
  · rw [hjump, id_of_block hincrement]
  · exact block_self hincrement
  · exact incrementShape (Option.join_eq_some_iff.1 hnext)

end CellScript.Ir
