import CellScript.Library.Worklist
import CellScript.Optimize.Fold

/-!
# Bodies of IR functions

The typed intermediate representation, as far as the passes of `ir/optimize.rs` look at it. A body
is a list of blocks with distinct identifiers; a block is a list of instructions and a terminator,
and fails after its instructions when it carries a runtime error.

The instructions that the passes tell apart have constructors of their own. All the others are
`other`, which keeps what `definition_for` asks of them, the variable they assign if any. Names of
functions, parameters and effect summaries are left out.
-/

namespace CellScript.Ir

open Optimize (BinaryOp)

/-! ### Types, variables and operands -/

inductive IrType
  | u8
  | u16
  | u32
  | i32
  | u64
  | u128
  | bool
  | array (element : IrType) (width : ℕ)
  | other (name : String)
  deriving DecidableEq, Repr

/-- The types whose values are held in one register. -/
def IrType.isWord : IrType → Bool
  | u8 | u16 | u32 | u64 | i32 | bool => true
  | _ => false

structure IrVar where
  id : ℕ
  name : String
  ty : IrType
  deriving DecidableEq, Repr

/-- Units, addresses, hashes and arrays are `other`, by their bytes. -/
inductive IrConst
  | u8 (value : BitVec 8)
  | u16 (value : BitVec 16)
  | u32 (value : BitVec 32)
  | u64 (value : BitVec 64)
  | u128 (value : BitVec 128)
  | bool (value : Bool)
  | other (ty : IrType) (bytes : List (BitVec 8))
  deriving DecidableEq, Repr

/-- `const_type`. -/
def IrConst.ty : IrConst → IrType
  | u8 _ => .u8
  | u16 _ => .u16
  | u32 _ => .u32
  | u64 _ => .u64
  | u128 _ => .u128
  | bool _ => .bool
  | other ty _ => ty

inductive IrOperand
  | var (var : IrVar)
  | const (value : IrConst)
  deriving DecidableEq, Repr

namespace IrOperand

def ty : IrOperand → IrType
  | var v => v.ty
  | const c => c.ty

/-- The identifiers of the variables of an operand, at most one. -/
def ids : IrOperand → List ℕ
  | var v => [v.id]
  | const _ => []

end IrOperand

/-! ### Instructions -/

/-- The four reads of one byte, the three helpers that compare a range of bytes, and the rest. -/
inductive RuntimeHelper
  | ckbCellDataU8
  | ckbWitnessU8
  | ckbCellLockU8
  | ckbCellTypeU8
  | ckbSourceBytesEqual
  | ckbSourceBytesEqualMemory
  | ckbSourceBytesZero
  | other (symbol : String)
  deriving DecidableEq, Repr

inductive IrCallTarget
  | function (symbol : String)
  | runtime (helper : RuntimeHelper)
  | invalidRuntime (symbol : String)
  deriving DecidableEq, Repr

def IrCallTarget.runtimeHelper : IrCallTarget → Option RuntimeHelper
  | runtime helper => some helper
  | _ => none

inductive IrInstruction
  | loadConst (dest : IrVar) (value : IrConst)
  | move (dest : IrVar) (src : IrOperand)
  | binary (dest : IrVar) (op : BinaryOp) (left right : IrOperand)
  | index (dest : IrVar) (arr idx : IrOperand)
  | call (dest : Option IrVar) (func : IrCallTarget) (args : List IrOperand)
  | other (dest : Option IrVar) (name : String) (operands : List IrOperand)
  deriving DecidableEq, Repr

namespace IrInstruction

/-- The variable an instruction assigns. -/
def dest : IrInstruction → Option IrVar
  | loadConst d _ | move d _ | binary d _ _ _ | index d _ _ => some d
  | call d _ _ | other d _ _ => d

/-- The identifier of the variable an instruction assigns. -/
def destId (instruction : IrInstruction) : Option ℕ := instruction.dest.map (·.id)

end IrInstruction

/-! ### Blocks -/

abbrev BlockId := ℕ

inductive IrTerminator
  | ret (value : Option IrOperand)
  | jump (target : BlockId)
  | branch (cond : IrOperand) (thenBlock elseBlock : BlockId)
  deriving DecidableEq, Repr

/-- The blocks a terminator can go to. -/
def IrTerminator.targets : IrTerminator → List BlockId
  | ret _ => []
  | jump target => [target]
  | branch _ thenBlock elseBlock => [thenBlock, elseBlock]

structure IrBlock where
  id : BlockId
  instructions : List IrInstruction
  terminator : IrTerminator
  runtimeError : Option ℕ
  deriving DecidableEq, Repr

/-- `push_block` numbers the blocks of a body, so that no two share an identifier. -/
structure IrFunction where
  returnType : Option IrType
  blocks : List IrBlock
  nodup : (blocks.map (·.id)).Nodup

/-- `block`: the block with the given identifier. -/
def block (blocks : List IrBlock) (id : BlockId) : Option IrBlock :=
  blocks.find? fun b ↦ b.id = id

variable {blocks : List IrBlock} {id t : BlockId}

variable {b replacement : IrBlock}

theorem id_of_block (h : block blocks id = some b) : b.id = id := by
  simpa using find?_some h

theorem mem_of_block (h : block blocks id = some b) : b ∈ blocks :=
  mem_of_find?_eq_some h

theorem block_some_of_mem (hn : (blocks.map (·.id)).Nodup)
    (hb : b ∈ blocks) : block blocks b.id = some b := by
  obtain ⟨b', hb'⟩ : ∃ b', block blocks b.id = some b' :=
    isSome_iff_exists.1 (List.find?_isSome.2 ⟨b, hb, by simp⟩)
  rw [hb', List.inj_on_of_nodup_map hn (mem_of_block hb') hb (id_of_block hb')]

/-! ### Replacing a block -/

/-- The block with the identifier of the new one makes room for it. -/
def replaceBlock (replacement : IrBlock) : List IrBlock → List IrBlock
  | [] => []
  | b :: blocks =>
    if b.id = replacement.id then replacement :: blocks else b :: replaceBlock replacement blocks

theorem map_id_replaceBlock (replacement : IrBlock) (blocks : List IrBlock) :
    (replaceBlock replacement blocks).map (·.id) = blocks.map (·.id) := by
  induction blocks with
  | nil => rfl
  | cons b blocks ih =>
    unfold replaceBlock
    split
    · next h => simp [h]
    · simp [ih]

theorem block_replaceBlock_of_ne (blocks : List IrBlock)
    (h : id ≠ replacement.id) : block (replaceBlock replacement blocks) id = block blocks id := by
  induction blocks with
  | nil => rfl
  | cons b blocks ih =>
    unfold replaceBlock
    split
    · next hb => simp [block, h.symm, hb ▸ h.symm]
    · unfold block at ih ⊢
      rw [find?_cons, find?_cons, ih]

theorem block_replaceBlock_self (h : block blocks replacement.id = some b) :
    block (replaceBlock replacement blocks) replacement.id = some replacement := by
  induction blocks with
  | nil => cases h
  | cons b' blocks ih =>
    unfold replaceBlock
    split
    · simp [block]
    · next hb =>
      unfold block at ih h ⊢
      rw [List.find?_cons_of_neg (by simpa using hb)] at h ⊢
      exact ih h

/-- A block after the replacement is the new one or an old one. -/
theorem mem_replaceBlock
    (h : b ∈ replaceBlock replacement blocks) : b = replacement ∨ b ∈ blocks := by
  induction blocks with
  | nil => cases h
  | cons b' rest ih =>
    unfold replaceBlock at h
    split at h
    · rcases mem_cons.1 h with h | h
      · exact .inl h
      · exact .inr (mem_cons_of_mem _ h)
    · rcases mem_cons.1 h with rfl | h
      · exact .inr mem_cons_self
      · exact (ih h).imp_right (mem_cons_of_mem _)

/-! ### Pruning -/

/-- The blocks that the terminator of a block names. -/
def targetsOf (blocks : List IrBlock) (id : BlockId) : List BlockId :=
  (block blocks id).elim [] (·.terminator.targets)

theorem mem_of_targetsOf (id : BlockId) (h : targetsOf blocks id ≠ []) :
    id ∈ blocks.map (·.id) := by
  rw [targetsOf] at h
  cases hb : block blocks id with
  | none => exact absurd (hb ▸ rfl) h
  | some b => exact mem_map.2 ⟨b, mem_of_block hb, id_of_block hb⟩

/-- The search of `prune_unreachable_blocks`. -/
def reachableBlocks (blocks : List IrBlock) (entry : BlockId) : List BlockId :=
  Worklist.walk (targetsOf blocks) (blocks.map (·.id)) mem_of_targetsOf none entry

/-- `prune_unreachable_blocks`. -/
def pruneUnreachableBlocks (blocks : List IrBlock) : List IrBlock :=
  match blocks.head? with
  | none => blocks
  | some entry =>
    let reachable := reachableBlocks blocks entry.id
    blocks.filter fun b ↦ b.id ∈ reachable

theorem mem_reachableBlocks (blocks : List IrBlock) (entry : BlockId) :
    entry ∈ reachableBlocks blocks entry :=
  Worklist.mem_walk.2 ⟨by simp, .refl⟩

/-- What the search finds is closed under the terminators. -/
theorem reachableBlocks_closed {entry : BlockId} (hid : id ∈ reachableBlocks blocks entry)
    (hb : block blocks id = some b) (ht : t ∈ b.terminator.targets) :
    t ∈ reachableBlocks blocks entry := by
  obtain ⟨hstart, hreach⟩ := Worklist.mem_walk.1 hid
  refine Worklist.mem_walk.2 ⟨hstart, hreach.tail ⟨?_, by simp⟩⟩
  rw [targetsOf, hb]
  exact ht

/-- The blocks that pruning keeps are found as before. -/
theorem block_pruneUnreachableBlocks {entry : IrBlock} (hentry : blocks.head? = some entry)
    (hid : id ∈ reachableBlocks blocks entry.id) :
    block (pruneUnreachableBlocks blocks) id = block blocks id := by
  unfold pruneUnreachableBlocks block
  rw [hentry, List.find?_filter]
  congr 1
  funext b
  by_cases hb : b.id = id
  · simp [hb, hid]
  · simp [hb]

theorem head?_pruneUnreachableBlocks (blocks : List IrBlock) :
    (pruneUnreachableBlocks blocks).head? = blocks.head? := by
  unfold pruneUnreachableBlocks
  cases blocks with
  | nil => rfl
  | cons entry blocks =>
    have hmem := mem_reachableBlocks (entry :: blocks) entry.id
    simp [hmem]

theorem mem_of_mem_pruneUnreachableBlocks (h : b ∈ pruneUnreachableBlocks blocks) : b ∈ blocks := by
  unfold pruneUnreachableBlocks at h
  split at h
  · exact h
  · exact (List.mem_filter.1 h).1

theorem nodup_pruneUnreachableBlocks (h : (blocks.map (·.id)).Nodup) :
    ((pruneUnreachableBlocks blocks).map (·.id)).Nodup := by
  unfold pruneUnreachableBlocks
  split
  · exact h
  · exact h.sublist (List.filter_sublist.map _)

end CellScript.Ir
