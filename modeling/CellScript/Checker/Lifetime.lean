import CellScript.Library.Dataflow
import CellScript.Library.KeyedMap
import Mathlib.Data.Finset.Union
import Mathlib.Data.Finset.Card
import Mathlib.Algebra.GroupWithZero.Nat

/-!
# The lifetime checker of allocated owners

The checks of `allocated_values/lifetime.rs`. A typed entry is a graph of blocks of operations; its
locals hold handles of allocated owners. The checker computes, for every block, the handles that are
available whichever way control comes and the lexical loans that are active on some way, and fails
on an operation that these do not allow.

The maps that the source builds from the lists of an entry are lookups here, of the last element
with a key. The text of a type is its leading ampersands and the rest.
-/

namespace CellScript.Checker.Lifetime

/-! ### Typed entries -/

/-- The text of a type: how many ampersands it starts with, and what follows them. -/
structure TypeText where
  ampersands : ℕ
  name : String
  deriving DecidableEq, Repr

namespace TypeText

/-- Without the first ampersand, if there is one. -/
def strip (ty : TypeText) : TypeText := { ty with ampersands := ty.ampersands - 1 }

/-- Without any ampersand. -/
def trim (ty : TypeText) : TypeText := { ty with ampersands := 0 }

/-- With one more ampersand. -/
def reference (ty : TypeText) : TypeText := { ty with ampersands := ty.ampersands + 1 }

def isReference (ty : TypeText) : Bool := 0 < ty.ampersands

end TypeText

inductive Operation
  | new
  | drop
  | len
  | capacity
  | isEmpty
  | reserve
  | loadSorted
  | push
  | insert
  | set
  | get
  | getOr
  | remove
  | pop
  | contains
  | entryKey
  | entryValue
  deriving DecidableEq, Repr

/-- The operations that only read the collection. -/
def Operation.readOnly : Operation → Bool
  | len | capacity | isEmpty | get | getOr | contains | entryKey | entryValue => true
  | _ => false

inductive TypedSemanticOperationDetail
  | allocatedValue (operation : Operation)
  | unaryOperator (operator : String)
  | other
  deriving DecidableEq, Repr

structure TypedSemanticOperand where
  localId : Option ℕ
  ty : TypeText
  deriving DecidableEq, Repr

structure TypedSemanticCall where
  contract : String
  params : List TypeText
  deriving DecidableEq, Repr

structure TypedSemanticOperation where
  opcode : String
  destinations : List ℕ
  operands : List TypedSemanticOperand
  detail : TypedSemanticOperationDetail
  call : Option TypedSemanticCall
  deriving DecidableEq, Repr

structure TypedSemanticBlock where
  id : ℕ
  operations : List TypedSemanticOperation
  successors : List ℕ
  deriving DecidableEq, Repr

structure TypedSemanticLocal where
  id : ℕ
  name : String
  ty : TypeText
  deriving DecidableEq, Repr

structure TypedSemanticParam where
  bindingId : ℕ
  ty : TypeText
  mutable : Bool
  deriving DecidableEq, Repr

structure TypedSemanticBorrow where
  root : String
  rootType : TypeText
  binding : String
  viewType : TypeText
  startBlock : ℕ
  startOperation : ℕ
  endBlock : Option ℕ
  endOperation : Option ℕ
  deriving DecidableEq, Repr

structure TypedSemanticEntry where
  id : String
  kind : String
  params : List TypedSemanticParam
  returnType : TypeText
  entryBlock : ℕ
  locals : List TypedSemanticLocal
  blocks : List TypedSemanticBlock
  borrows : List TypedSemanticBorrow
  deriving DecidableEq, Repr

/-! ### Handles and states -/

/-- A rejection of the typed semantics, with its message. -/
structure LifetimeError where
  message : String
  deriving DecidableEq, Repr

def invalid (message : String) : LifetimeError := ⟨"allocated owner lifetime: " ++ message⟩

/-- What a local refers to: a root, owned or borrowed. -/
structure Handle where
  root : ℕ
  borrowed : Bool
  loans : Finset ℕ
  deriving DecidableEq

/-- Availability is a must property; active lexical loans are a may property. -/
structure State where
  available : KeyedMap ℕ Handle
  loans : Finset (ℕ × ℕ)
  deriving DecidableEq

namespace State

def cells (s : State) : ℕ :=
  s.loans.card + (s.available.entries.map fun e ↦ 1 + e.2.loans.card).sum

def get (s : State) (l : ℕ) : Except LifetimeError Handle :=
  match s.available.find? l with
  | some handle => .ok handle
  | none =>
    .error (invalid ("local " ++ toString l ++ " is uninitialized, moved, dropped or stale"))

/-- The handles of an owner are gone, or only the borrowed ones. -/
def invalidate (s : State) (root : ℕ) (retire : Bool) : State :=
  { s with available := s.available.retain fun _ h ↦ h.root ≠ root || (!retire && !h.borrowed) }

/-- A mutation is refused while its root is borrowed. -/
def mutate (s : State) (handle : Handle) (retire : Bool) : Except LifetimeError State :=
  if handle.borrowed ∨ ∃ loan ∈ s.loans, loan.2 = handle.root then
    .error (invalid "mutation, move or drop while borrowed")
  else .ok (s.invalidate handle.root retire)

/-- At a join only the handles common to both sides remain. -/
def merge (s other : State) : State where
  available := s.available.retain fun l h ↦ other.available.find? l = some h
  loans := s.loans ∪ other.loans

def insert (s : State) (l : ℕ) (handle : Handle) : State :=
  { s with available := s.available.insert l handle }

/-- The end of a lexical loan. -/
def endLoan (s : State) (binding : ℕ) : State where
  available := s.available.retain fun _ h ↦ binding ∉ h.loans
  loans := s.loans.filter fun loan ↦ loan.1 ≠ binding

/-- The handle of a loan that starts: it also keeps the enclosing loans of its owner. -/
def lent (s : State) (binding : ℕ) (handle : Handle) : Handle where
  root := handle.root
  borrowed := true
  loans := Insert.insert binding
    (handle.loans ∪ (s.loans.filter fun loan ↦ loan.2 = handle.root).image Prod.fst)

/-- The start of a lexical loan of the owner of a handle. -/
def lend (s : State) (binding : ℕ) (handle : Handle) : State where
  available := s.available.insert binding (s.lent binding handle)
  loans := Insert.insert (binding, handle.root) s.loans

end State

/-! ### Operations -/

structure Context where
  entryId : String
  ownerTypes : List TypeText
  locals : List TypedSemanticLocal
  starts : List ((ℕ × ℕ) × (ℕ × ℕ))
  ends : List ((ℕ × ℕ) × ℕ)

namespace Context

variable (ctx : Context)

def isOwner (ty : TypeText) : Bool := ty.strip ∈ ctx.ownerTypes

def localType (l : ℕ) : Option TypeText :=
  (ctx.locals.reverse.find? fun loc ↦ loc.id = l).map (·.ty)

def isOwnerLocal (l : ℕ) : Bool := (ctx.localType l).any ctx.isOwner

def ownerArgs (op : TypedSemanticOperation) : List TypedSemanticOperand :=
  op.operands.filter fun arg ↦ ctx.isOwner arg.ty

def ownerDests (op : TypedSemanticOperation) : List ℕ := op.destinations.filter ctx.isOwnerLocal

/-- A typed local reference is required of every owner operand. -/
def handleOf (s : State) (arg : TypedSemanticOperand) (message : String) :
    Except LifetimeError Handle :=
  match arg.localId with
  | some l => s.get l
  | none => .error (invalid message)

/-- The operations on allocated values. -/
def allocatedValue (s : State) (op : TypedSemanticOperation) (operation : Operation)
    (handles : List Handle) : Except LifetimeError State :=
  if operation = .new then
    match op.destinations.head? with
    | none => .error (invalid "constructor has no destination")
    | some dest => do
      if (s.available.find? dest).any fun old ↦ old.root ≠ dest then
        throw (invalid "constructor overwrites another owner's handle")
      let handle : Handle := { root := dest, borrowed := false, loans := ∅ }
      return (← s.mutate handle true).insert dest handle
  else
    match handles.head? with
    | none => .error (invalid "collection operation has no live owner")
    | some handle =>
      if operation.readOnly then .ok s else s.mutate handle (operation = .drop)

/-- A move of the only owner operand to the only owner destination. -/
def moveTo (s : State) (handle : Handle) (dest : ℕ) : Except LifetimeError State := do
  if (s.available.find? dest).any fun old ↦ !old.borrowed then
    throw (invalid "move overwrites a live owner")
  if handle.borrowed then
    return s.insert dest handle
  if (ctx.localType dest).any TypeText.isReference then
    throw (invalid "an owner move cannot fabricate a borrowed handle")
  return (← s.mutate handle true).insert dest handle

def referTo (s : State) (handle : Handle) (dest : ℕ) : Except LifetimeError State := do
  if (s.available.find? dest).any fun old ↦ !old.borrowed then
    throw (invalid "reference overwrites a live owner")
  return s.insert dest { handle with borrowed := true }

/-- An owner is passed to a helper only by a checked read-only reference. -/
def passes (s : State) (arg : TypedSemanticOperand) (expected : TypeText) :
    Except LifetimeError Unit := do
  if ctx.isOwner arg.ty then
    let handle ← handleOf s arg "call owner is not a local"
    if !handle.borrowed ∨ expected ≠ arg.ty.strip.reference then
      throw (invalid "helpers accept only checked read-only owner references")

def callOf (s : State) (op : TypedSemanticOperation) : Except LifetimeError State :=
  match op.call with
  | none => .error (invalid "owner call has no contract")
  | some call => do
    if call.contract ≠ "typed-local" then
      throw (invalid "owner reference escapes to an external call")
    (op.operands.zip call.params).forM fun (arg, expected) ↦ ctx.passes s arg expected
    return s

def escapes (op : TypedSemanticOperation) : LifetimeError :=
  invalid ("owner escapes or is fabricated by '" ++ op.opcode ++ "' in " ++ ctx.entryId)

/-- The other operations: moves, references and calls. -/
def plainOperation (s : State) (op : TypedSemanticOperation) (handles : List Handle) :
    Except LifetimeError State :=
  match handles, ctx.ownerDests op with
  | [handle], [dest] =>
    if op.opcode = "move" then ctx.moveTo s handle dest
    else if op.opcode = "unary" ∧ op.detail = .unaryOperator "ref" then referTo s handle dest
    else .error (ctx.escapes op)
  | _, dests =>
    if op.opcode = "call" ∧ dests = [] then ctx.callOf s op else .error (ctx.escapes op)

/-- What one operation does to the handles. -/
def operation (s : State) (op : TypedSemanticOperation) : Except LifetimeError State :=
  if ctx.ownerArgs op = [] ∧ ctx.ownerDests op = [] then .ok s
  else do
    let handles ← (ctx.ownerArgs op).mapM fun arg ↦ handleOf s arg "owner operand is not a local"
    match op.detail with
    | .allocatedValue operation => allocatedValue s op operation handles
    | _ => ctx.plainOperation s op handles

/-- The loans that end and those that start before an operation. -/
def events (s : State) (block position : ℕ) : Except LifetimeError State :=
  let ending := ctx.ends.filterMap fun e ↦ if e.1 = (block, position) then some e.2 else none
  let starting := ctx.starts.filterMap fun e ↦ if e.1 = (block, position) then some e.2 else none
  starting.foldlM (fun s loan ↦ do return s.lend loan.1 (← s.get loan.2))
    (ending.foldl State.endLoan s)

end Context

/-! ### Entries -/

namespace TypedSemanticEntry

variable (entry : TypedSemanticEntry)

/-- The first local with a name whose type agrees up to references. -/
def findLocal (name : String) (ty : TypeText) : Option ℕ :=
  (entry.locals.find? fun loc ↦ loc.name = name ∧ loc.ty.trim = ty.trim).map (·.id)

def block (id : ℕ) : Option TypedSemanticBlock := entry.blocks.reverse.find? fun b ↦ b.id = id

def successors (id : ℕ) : List ℕ := (entry.block id).elim [] (·.successors)

/-- The context of an entry without its loans. -/
def typing (ownerTypes : List TypeText) : Context where
  entryId := entry.id
  ownerTypes := ownerTypes
  locals := entry.locals
  starts := []
  ends := []

/-- The loans of owners, with the locals that they name. -/
def loans (ownerTypes : List TypeText) : List (TypedSemanticBorrow × ℕ × ℕ) :=
  entry.borrows.filterMap fun borrow ↦
    if (entry.typing ownerTypes).isOwner borrow.rootType then do
      let root ← entry.findLocal borrow.root borrow.rootType
      let binding ← entry.findLocal borrow.binding borrow.viewType
      return (borrow, binding, root)
    else none

def context (ownerTypes : List TypeText) : Context :=
  { entry.typing ownerTypes with
    starts := (entry.loans ownerTypes).map fun loan ↦
      ((loan.1.startBlock, loan.1.startOperation), loan.2)
    ends := (entry.loans ownerTypes).filterMap fun loan ↦ do
      let block ← loan.1.endBlock
      let position ← loan.1.endOperation
      return ((block, position), loan.2.1) }

end TypedSemanticEntry

/-! ### The analysis -/

/-- What an analysis has used. -/
structure Budget where
  work : ℕ
  resident : ℕ
  deriving DecidableEq

def maxWork : ℕ := 4000000

def maxResident : ℕ := 1000000

def workExceeded : LifetimeError := invalid "typed lifetime analysis work budget exceeded"

/-- The loans and the operation at a position of a block. -/
def position (ctx : Context) (block : TypedSemanticBlock) (p : State × ℕ) (i : ℕ) :
    Except LifetimeError (State × ℕ) := do
  let work := p.2 + (1 + p.1.cells)
  if work > maxWork then
    throw workExceeded
  let s ← ctx.events p.1 block.id i
  match block.operations[i]? with
  | some op => return (← ctx.operation s op, work)
  | none => return (s, work)

def transfer (entry : TypedSemanticEntry) (ctx : Context) (id : ℕ) (s : State) (budget : Budget) :
    Except LifetimeError (State × Budget) :=
  match entry.block id with
  | none => .error (invalid "missing CFG block")
  | some block => do
    let (s, work) ← (List.range (block.operations.length + 1)).foldlM (position ctx block)
      (s, budget.work)
    return (s, { budget with work })

def account (budget : Budget) (old : Option State) (new : State) : Except LifetimeError Budget := do
  let resident := budget.resident - old.elim 0 State.cells + new.cells
  if resident > maxResident then
    throw (invalid "typed lifetime resident state budget exceeded")
  return { budget with resident }

/-- The analysis as an instance of forward dataflow. -/
def analysis (entry : TypedSemanticEntry) (ctx : Context) :
    Dataflow ℕ State Budget LifetimeError where
  successors := entry.successors
  transfer := transfer entry ctx
  merge := State.merge
  account := account

/-- The handles that the parameters hold. -/
def initial (entry : TypedSemanticEntry) (ctx : Context) : State where
  available := (entry.params.filter fun param ↦ ctx.isOwner param.ty).foldl (fun m param ↦
    m.insert param.bindingId { root := param.bindingId, borrowed := true, loans := ∅ }) .empty
  loans := ∅

def checkParam (entry : TypedSemanticEntry) (ctx : Context) (param : TypedSemanticParam) :
    Except LifetimeError Unit := do
  if ctx.isOwner param.ty ∧ (entry.kind ≠ "helper" ∨ !param.ty.isReference ∨ param.mutable) then
    throw (invalid "owner parameters must be read-only helper references")

def checkBorrow (entry : TypedSemanticEntry) (ctx : Context) (borrow : TypedSemanticBorrow) :
    Except LifetimeError Unit := do
  if ctx.isOwner borrow.rootType ∧ ((entry.findLocal borrow.root borrow.rootType).isNone ∨
      (entry.findLocal borrow.binding borrow.viewType).isNone) then
    throw (invalid "lexical loan has no matching local")

/-- The budget of work also bounds the number of visits, each of which uses some. -/
def validate (entry : TypedSemanticEntry) (ownerTypes : List TypeText) :
    Except LifetimeError Unit := do
  let ctx := entry.context ownerTypes
  if !(entry.locals.any fun loc ↦ ctx.isOwnerLocal loc.id) then
    return ()
  if ctx.isOwner entry.returnType then
    throw (invalid "owner or borrowed owner return escapes its invocation")
  entry.params.forM (checkParam entry ctx)
  entry.borrows.forM (checkBorrow entry ctx)
  let start := initial entry ctx
  let _ ← (analysis entry ctx).solve workExceeded (maxWork + 1)
    (Dataflow.start entry.entryBlock start ⟨0, start.cells⟩)

end CellScript.Checker.Lifetime
