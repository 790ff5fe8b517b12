import CellScript.Ir.SourceBytes
import CellScript.Library.Runs
import CellScript.Library.Scan
import CellScript.Optimize.Lowering

/-!
# Running IR functions

The meaning of a body: instructions change a state or fail, terminators choose the next block or
return. A byte read returns the byte of its source at the offset, and fails when the source is
shorter. The three helpers compare byte by byte, as many bytes as they are told, starting at index
zero; offsets are 64-bit words.

What the byte-loop pass never touches is a parameter of the machine: the bytes of the sources of a
transaction, operations on values wider than a register, calls of other functions and helpers, and
the remaining instructions. A failure is one outcome, whatever its error code.
-/

namespace CellScript.Ir

open Optimize (BinaryOp Ty runWord)
open Scan (scan)

/-- The word in a variable's slot, and the bytes behind it when the variable is an aggregate. -/
structure Value where
  word : BitVec 64
  bytes : List (BitVec 8) := []
  deriving DecidableEq, Repr

namespace Value

def ofByte (byte : BitVec 8) : Value where
  word := byte.setWidth 64

def ofBool (b : Bool) : Value where
  word := if b then 1 else 0

theorem ofByte_injective : Injective fun byte ↦ (ofByte byte).word := by
  intro a b h
  have hnat := congrArg BitVec.toNat h
  simp only [ofByte, toNat_setWidth] at hnat
  exact eq_of_toNat_eq (by omega)

end Value

def IrConst.value : IrConst → Value
  | u8 value => { word := value.setWidth 64 }
  | u16 value => { word := value.setWidth 64 }
  | u32 value => { word := value.setWidth 64 }
  | u64 value => { word := value }
  | u128 value =>
    { word := value.setWidth 64
      bytes := (List.range 16).map fun i ↦ (value >>> (8 * i)).setWidth 8 }
  | bool value => Value.ofBool value
  | other _ bytes => { word := 0, bytes }

/-- The variables, and everything else: the transaction, memory, collections. -/
structure State (World : Type) where
  vars : ℕ → Value
  world : World

inductive Outcome
  | returned (value : Option Value)
  | failed
  deriving DecidableEq, Repr

variable {World : Type}

namespace State

variable (σ : State World)

def eval : IrOperand → Value
  | .var var => σ.vars var.id
  | .const value => value.value

def set (dest : IrVar) (value : Value) : State World :=
  { σ with vars := Function.update σ.vars dest.id value }

@[simp] theorem eval_const (σ : State World) (c : IrConst) : σ.eval (.const c) = c.value := rfl

@[simp] theorem eval_var (var : IrVar) : σ.eval (.var var) = σ.vars var.id := rfl

@[simp] theorem set_vars_self (dest : IrVar) (value : Value) :
    (σ.set dest value).vars dest.id = value :=
  Function.update_self ..

theorem set_vars_of_ne {dest : IrVar} (value : Value) {id : ℕ} (h : id ≠ dest.id) :
    (σ.set dest value).vars id = σ.vars id :=
  Function.update_of_ne h ..

end State

/-! ### Comparing bytes -/

/-- Two bytes at one position: equal ones decide nothing, different ones end the comparison, and a
byte that is out of range makes it fail. -/
def byteVerdict (left right : Option (BitVec 8)) : Option (Option Bool) :=
  match left, right with
  | some x, some y => if x = y then none else some (some false)
  | _, _ => some none

/-- The comparison of `count` positions from `start` on; `none` is a failure. -/
def compareBytes (left right : ℕ → Option (BitVec 8)) (start count : ℕ) : Option Bool :=
  scan (fun j ↦ byteVerdict (left j) (right j)) (some true) start count

/-! ### The machine -/

structure Machine (World : Type) where
  /-- The bytes of the source that a view selects. -/
  source : World → SourceKind → Value → List (BitVec 8)
  /-- Operations on values that do not fit one register. -/
  wideBinary : IrVar → BinaryOp → IrOperand → IrOperand → Value → Value → Option Value
  /-- Elements of arrays of anything but bytes. -/
  wideIndex : IrVar → Value → Value → Option Value
  call : IrCallTarget → List Value → World → Option (Value × World)
  other : Option IrVar → String → List Value → State World → Option (State World)

/-- The register types among the types of integer expressions. -/
def IrType.wordTy : IrType → Ty
  | u8 => .int .u8
  | u16 => .int .u16
  | u32 => .int .u32
  | i32 => .int .i32
  | u64 => .int .u64
  | _ => .bool

namespace Machine

variable (M : Machine World)

/-- The byte of a source at a distance from a base offset. -/
def byteAt (world : World) (kind : SourceKind) (view : Value) (base : BitVec 64) (j : ℕ) :
    Option (BitVec 8) :=
  (M.source world kind view)[(base + BitVec.ofNat 64 j).toNat]?

def evalBinary (dest : IrVar) (op : BinaryOp) (left right : IrOperand) (x y : Value) :
    Option Value :=
  if dest.ty.isWord ∧ left.ty.isWord ∧ right.ty.isWord then
    (runWord dest.ty.wordTy (left.ty = .i32 ∨ right.ty = .i32) op x.word y.word).map fun z ↦
      { word := BitVec.ofInt 64 z }
  else M.wideBinary dest op left right x y

def evalIndex (dest : IrVar) (arr : IrOperand) (x idx : Value) : Option Value :=
  match arr.ty with
  | .array .u8 _ => x.bytes[idx.word.toNat]?.map Value.ofByte
  | _ => M.wideIndex dest x idx

/-- The byte reads and the helpers. Any other call, also one with the wrong number of arguments, is
the machine's own. -/
def evalCall (func : IrCallTarget) (args : List Value) (world : World) : Option (Value × World) :=
  match runtimeByteSourceKind func, func.runtimeHelper, args with
  | some kind, _, [view, offset] =>
    (M.source world kind view)[offset.word.toNat]?.map fun byte ↦ (Value.ofByte byte, world)
  | _, some .ckbSourceBytesEqual, [left, leftBase, right, rightBase, length, leftKind, rightKind] =>
    do
      let leftKind ← SourceKind.ofCode leftKind.word
      let rightKind ← SourceKind.ofCode rightKind.word
      let equal ← compareBytes (M.byteAt world leftKind left leftBase.word)
        (M.byteAt world rightKind right rightBase.word) 0 length.word.toNat
      return (Value.ofBool equal, world)
  | _, some .ckbSourceBytesEqualMemory, [view, base, pointer, length, kind] => do
    let kind ← SourceKind.ofCode kind.word
    let equal ← compareBytes (M.byteAt world kind view base.word)
      (fun j ↦ pointer.bytes[j]?) 0 length.word.toNat
    return (Value.ofBool equal, world)
  | _, some .ckbSourceBytesZero, [view, base, length, kind] => do
    let kind ← SourceKind.ofCode kind.word
    let equal ← compareBytes (M.byteAt world kind view base.word) (fun _ ↦ some 0) 0
      length.word.toNat
    return (Value.ofBool equal, world)
  | _, _, _ => M.call func args world

/-- One instruction; `none` is a failure. -/
def exec (σ : State World) : IrInstruction → Option (State World)
  | .loadConst dest value => some (σ.set dest value.value)
  | .move dest src => some (σ.set dest (σ.eval src))
  | .binary dest op left right =>
    (M.evalBinary dest op left right (σ.eval left) (σ.eval right)).map (σ.set dest)
  | .index dest arr idx => (M.evalIndex dest arr (σ.eval arr) (σ.eval idx)).map (σ.set dest)
  | .call dest func args =>
    (M.evalCall func (args.map σ.eval) σ.world).map fun (value, world) ↦
      let τ : State World := { σ with world }
      dest.elim τ fun dest ↦ τ.set dest value
  | .other dest name operands => M.other dest name (operands.map σ.eval) σ

def execAll : List IrInstruction → State World → Option (State World)
  | [], σ => some σ
  | instruction :: instructions, σ => (M.exec σ instruction).bind (execAll instructions)

/-- Where a terminator leads. -/
def terminate (σ : State World) : IrTerminator → BlockId × State World ⊕ Outcome
  | .ret value => .inr (.returned (value.map σ.eval))
  | .jump target => .inl (target, σ)
  | .branch cond thenBlock elseBlock =>
    .inl (if (σ.eval cond).word ≠ 0 then thenBlock else elseBlock, σ)

/-- A block runs its instructions. Then it fails, if it carries a runtime error, or terminates. -/
def runBlock (b : IrBlock) (σ : State World) : BlockId × State World ⊕ Outcome :=
  match M.execAll b.instructions σ with
  | none => .inr .failed
  | some τ => if b.runtimeError.isSome then .inr .failed else terminate τ b.terminator

/-- One block of a body; a block that does not exist fails. -/
def step (blocks : List IrBlock) (c : BlockId × State World) : BlockId × State World ⊕ Outcome :=
  match block blocks c.1 with
  | none => .inr .failed
  | some b => M.runBlock b c.2

/-- The function, started in a state, ends with the outcome. -/
def RunsTo (f : IrFunction) (σ : State World) (o : Outcome) : Prop :=
  ∃ entry, f.blocks.head? = some entry ∧ Runs.Ends (M.step f.blocks) (entry.id, σ) o

/-- The first time that a run of the function comes to a block, it is in the given state. -/
def ComesTo (f : IrFunction) (σ : State World) (id : BlockId) (τ : State World) : Prop :=
  ∃ entry, f.blocks.head? = some entry ∧
    Runs.Arrives (M.step f.blocks) (fun c ↦ c.1 = id) (entry.id, σ) (id, τ)

end Machine

end CellScript.Ir
