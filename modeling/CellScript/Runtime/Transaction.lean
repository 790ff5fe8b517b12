import CellScript.Runtime.Machine

/-!
# The transaction and its system calls

What a script sees of the transaction that runs it, and how the system calls report it: a call
copies as much of an item as the caller has room for, and writes the size of the whole item (from
the offset that was asked for) to the place where the caller left the size of its buffer.

The calls are those that the modelled helpers make. A call with another number, an unmodelled field
or a source other than inputs, outputs and cell dependencies ends the run.
-/

namespace CellScript.Runtime

open BitVec (ofNat)
open Blocks (Code)
open Bytes (le)
open MachineState

/-! ### Transactions -/

/-- A cell, with its scripts as they are serialized, and their hashes. -/
structure Cell where
  capacity : UInt64
  lock : List UInt8
  lockHash : List UInt8
  type : Option (List UInt8)
  typeHash : Option (List UInt8)
  data : List UInt8
  length_lock : lock.length < 2 ^ 32
  length_lockHash : lockHash.length = 32
  length_type : ∀ script ∈ type, script.length < 2 ^ 32
  length_typeHash : ∀ h ∈ typeHash, h.length = 32
  length_data : data.length < 2 ^ 32

attribute [simp] Cell.length_lockHash

structure OutPoint where
  txHash : List UInt8
  index : UInt32
  length_txHash : txHash.length = 32

attribute [simp] OutPoint.length_txHash

/-- The serialized form. -/
def OutPoint.bytes (p : OutPoint) : List UInt8 := p.txHash ++ le 4 p.index.toNat

structure Input where
  outPoint : OutPoint
  cell : Cell

/-- Whether the running script is the lock or the type of the cells of its group. -/
inductive ScriptKind
  | lock
  | type
  deriving DecidableEq

structure Transaction where
  hash : List UInt8
  serialized : List UInt8
  script : List UInt8
  scriptHash : List UInt8
  kind : ScriptKind
  inputs : List Input
  outputs : List Cell
  cellDeps : List Cell
  witnesses : List (List UInt8)
  length_hash : hash.length = 32
  length_serialized : serialized.length < 2 ^ 32
  length_script : script.length < 2 ^ 32
  length_scriptHash : scriptHash.length = 32
  length_inputs : inputs.length < 2 ^ 32
  length_outputs : outputs.length < 2 ^ 32
  length_cellDeps : cellDeps.length < 2 ^ 32
  length_witnesses : witnesses.length < 2 ^ 32
  length_witness : ∀ w ∈ witnesses, w.length < 2 ^ 32

namespace Transaction

/-- A transaction without cells, of a script whose hash is zero. -/
def empty : Transaction :=
  ⟨replicate 32 0, [], [], replicate 32 0, .type, [], [], [], [], rfl, by decide, by decide, rfl,
    by decide, by decide, by decide, by decide, nofun⟩

/-- Whether a cell belongs to the group of the running script. -/
def inGroup (tx : Transaction) (c : Cell) : Bool :=
  match tx.kind with
  | .lock => c.lockHash == tx.scriptHash
  | .type => c.typeHash == some tx.scriptHash

def groupInputs (tx : Transaction) : List Input := tx.inputs.filter fun i ↦ tx.inGroup i.cell

/-- A lock script has no group outputs. -/
def groupOutputs (tx : Transaction) : List Cell :=
  match tx.kind with
  | .lock => []
  | .type => tx.outputs.filter tx.inGroup

/-- Where the inputs of the group stand. -/
def groupInputIndices (tx : Transaction) : List ℕ :=
  tx.inputs.findIdxs fun i ↦ tx.inGroup i.cell

def groupOutputIndices (tx : Transaction) : List ℕ :=
  match tx.kind with
  | .lock => []
  | .type => tx.outputs.findIdxs tx.inGroup

end Transaction

inductive Source
  | input
  | output
  | cellDep
  | groupInput
  | groupOutput
  deriving DecidableEq

namespace Source

def groupFlag : Word := 0x0100000000000000#64

def word : Source → Word
  | input => 1#64
  | output => 2#64
  | cellDep => 3#64
  | groupInput => 0x0100000000000001#64
  | groupOutput => 0x0100000000000002#64

def ofWord (w : Word) : Option Source :=
  if w = input.word then some input
  else if w = output.word then some output
  else if w = cellDep.word then some cellDep
  else if w = groupInput.word then some groupInput
  else if w = groupOutput.word then some groupOutput
  else none

@[simp] theorem ofWord_word (source : Source) : ofWord source.word = some source := by
  cases source <;> rfl

variable {source : Source}

theorem eq_word_of_ofWord {w : Word} (h : ofWord w = some source) : w = source.word := by
  rw [ofWord] at h
  split_ifs at h with h₁ h₂ h₃ h₄ h₅ <;> cases h <;> assumption

end Source

namespace Transaction

def cells (tx : Transaction) : Source → List Cell
  | .input => tx.inputs.map (·.cell)
  | .output => tx.outputs
  | .cellDep => tx.cellDeps
  | .groupInput => tx.groupInputs.map (·.cell)
  | .groupOutput => tx.groupOutputs

/-- The inputs of a source; outputs have none. -/
def inputsOf (tx : Transaction) : Source → Option (List Input)
  | .input => some tx.inputs
  | .groupInput => some tx.groupInputs
  | .output | .cellDep | .groupOutput => none

/-- The witness of a source at an index: a witness belongs to the input, and to the output, at the
place where it stands. -/
def witnessAt (tx : Transaction) (source : Source) (index : ℕ) : Option (List UInt8) :=
  match source with
  | .input | .output => tx.witnesses[index]?
  | .cellDep => none
  | .groupInput => tx.groupInputIndices[index]?.bind (tx.witnesses[·]?)
  | .groupOutput => tx.groupOutputIndices[index]?.bind (tx.witnesses[·]?)

theorem length_witnessAt (tx : Transaction) {source : Source} {index : ℕ} {w : List UInt8}
    (h : tx.witnessAt source index = some w) : w.length < 2 ^ 32 := by
  have hmem : w ∈ tx.witnesses := by
    cases source with
    | input | output => exact mem_of_getElem? h
    | cellDep => exact nomatch h
    | groupInput | groupOutput =>
      obtain ⟨i, -, hi⟩ := bind_eq_some_iff.1 h
      exact mem_of_getElem? hi
  exact tx.length_witness w hmem

theorem length_cells (tx : Transaction) (source : Source) : (tx.cells source).length < 2 ^ 32 := by
  cases source with
  | input =>
    rw [cells, length_map]
    exact tx.length_inputs
  | output => exact tx.length_outputs
  | cellDep => exact tx.length_cellDeps
  | groupInput =>
    rw [cells, length_map]
    exact lt_of_le_of_lt (List.length_filter_le _ _) tx.length_inputs
  | groupOutput =>
    rw [cells, groupOutputs]
    split
    · exact Nat.two_pow_pos 32
    · exact lt_of_le_of_lt (List.length_filter_le _ _) tx.length_outputs

end Transaction

/-! ### System calls -/

def loadTransaction : Word := 2051#64

def loadScript : Word := 2052#64

def loadTxHash : Word := 2061#64

def loadScriptHash : Word := 2062#64

def loadWitness : Word := 2074#64

def loadCellByField : Word := 2081#64

def loadInputByField : Word := 2083#64

def loadCellData : Word := 2092#64

def indexOutOfBound : Word := 1#64

def itemMissing : Word := 2#64

def lengthNotEnough : Word := 3#64

def cellFieldCapacity : Word := 0#64

def cellFieldLock : Word := 2#64

def cellFieldLockHash : Word := 3#64

def cellFieldType : Word := 4#64

def cellFieldTypeHash : Word := 5#64

def inputFieldOutPoint : Word := 0#64

/-- An item of a transaction, or the status of a call that finds none. -/
abbrev Item := Except Word (List UInt8)

/-- An item of a list at an index. -/
def itemAt {α : Type} (items : List α) (index : Word) (item : α → Item) : Item :=
  match items[index.toNat]? with
  | some x => item x
  | none => .error indexOutOfBound

/-- What is there of an optional script. -/
def optionalItem (bytes : Option (List UInt8)) : Item :=
  match bytes with
  | some bytes => .ok bytes
  | none => .error itemMissing

/-- A field of a cell. -/
def cellField (fieldId : Word) (c : Cell) : Option Item :=
  if fieldId = cellFieldCapacity then some (.ok (le 8 c.capacity.toNat))
  else if fieldId = cellFieldLock then some (.ok c.lock)
  else if fieldId = cellFieldLockHash then some (.ok c.lockHash)
  else if fieldId = cellFieldType then some (optionalItem c.type)
  else if fieldId = cellFieldTypeHash then some (optionalItem c.typeHash)
  else none

/-- What a call asks for. -/
def requested (tx : Transaction) (number index source fieldId : Word) : Option Item :=
  if number = loadScript then some (.ok tx.script)
  else if number = loadScriptHash then some (.ok tx.scriptHash)
  else if number = loadTxHash then some (.ok tx.hash)
  else if number = loadTransaction then some (.ok tx.serialized)
  else do
    let source ← Source.ofWord source
    if number = loadCellData then
      return itemAt (tx.cells source) index (.ok ·.data)
    else if number = loadWitness then
      return (tx.witnessAt source index.toNat).elim (.error indexOutOfBound) .ok
    else if number = loadCellByField then
      match (tx.cells source)[index.toNat]? with
      | some c => cellField fieldId c
      | none => some (.error indexOutOfBound)
    else if number = loadInputByField then
      let inputs ← tx.inputsOf source
      if fieldId = inputFieldOutPoint then
        return itemAt inputs index (.ok ·.outPoint.bytes)
      else none
    else none

theorem requested_loadCellByField (tx : Transaction) (index : Word) (source : Source)
    (fieldId : Word) : requested tx loadCellByField index source.word fieldId =
      (tx.cells source)[index.toNat]?.elim (some (.error indexOutOfBound)) (cellField fieldId) := by
  rw [requested, if_neg (by decide), if_neg (by decide), if_neg (by decide), Source.ofWord_word,
    Option.bind_eq_bind, Option.bind_some]
  cases (tx.cells source)[index.toNat]? <;> rfl

/-- The status of a call that found more than the caller had room for: some versions of the virtual
machine report it, others only write the size. -/
def truncatedStatus (reports : Bool) : Word := if reports then lengthNotEnough else 0#64

/-- The state after a call. -/
def deliver (reports : Bool) (s : State) : Item → State
  | .error status => s.set a0 status
  | .ok data =>
    let size := (load s.mem (s.get a1) 8).toNat
    let rest := data.drop (s.get a2).toNat
    let m := store s.mem (s.get a1) 8 (ofNat 64 rest.length)
    (s.setMem (write m (s.get a0) (rest.take size))).set a0
      (if size < rest.length then truncatedStatus reports else 0#64)

def syscall (tx : Transaction) (reports : Bool) (s : State) : Option State :=
  (requested tx (s.get a7) (s.get a3) (s.get a4) (s.get a5)).map (deliver reports s)

/-- What surrounds the helpers that run for a transaction. -/
structure Environment where
  tx : Transaction
  reports : Bool
  symbol : String → Word
  returnAddress : Word

def Environment.surroundings (env : Environment) : Surroundings where
  ecall := syscall env.tx env.reports
  symbol := env.symbol
  returnAddress := env.returnAddress

/-! ### What a call leaves behind -/

section Delivery

variable {env : Environment} {helpers : String → Option Program}
  {C : Code (machine env.surroundings helpers)} {body : List Assembler.Instruction}
  {fall : Option String} {s : State} {b : Word}

/-- What a call leaves behind that found an item: its status, the size of what there is from the
offset on, the bytes there was room for, and everything else as it was. -/
structure Delivered (reports : Bool) (b : Word) (buffer size room : ℕ) (rest : List UInt8)
    (s s' : State) : Prop where
  status : s'.get a0 = if room < rest.length then truncatedStatus reports else 0#64
  total : load s'.mem (b + ofNat 64 size) 8 = ofNat 64 rest.length
  bytes : read s'.mem (b + ofNat 64 buffer) (rest.take room).length = rest.take room
  regs : Keeps [a0] s s'
  agree : ∀ lo hi, hi ≤ 2 ^ 64 → (buffer + room ≤ lo ∨ hi ≤ buffer) →
    (size + 8 ≤ lo ∨ hi ≤ size) → Agree b lo hi s.mem s'.mem

/-- The places of a call do not overlap, and lie in the address space. -/
def Placed (buffer size room : ℕ) : Prop :=
  (buffer + room ≤ size ∨ size + 8 ≤ buffer) ∧ buffer + room < 2 ^ 64 ∧ size + 8 ≤ 2 ^ 64

instance {buffer size room : ℕ} : Decidable (Placed buffer size room) :=
  inferInstanceAs (Decidable (_ ∧ _ ∧ _))

theorem delivered {reports : Bool} {buffer size room offset : ℕ} {data : List UInt8}
    (hplaced : Placed buffer size room) (hoffset : offset < 2 ^ 64)
    (ha0 : s.get a0 = b + ofNat 64 buffer) (ha1 : s.get a1 = b + ofNat 64 size)
    (ha2 : s.get a2 = ofNat 64 offset) (hroom : load s.mem (b + ofNat 64 size) 8 = ofNat 64 room) :
    Delivered reports b buffer size room (data.drop offset) s (deliver reports s (.ok data)) := by
  obtain ⟨hdisjoint, hbuffer, hsize⟩ := hplaced
  have hroomNat : (load s.mem (s.get a1) 8).toNat = room := by
    rw [ha1, hroom, toNat_ofNat, mod_eq_of_lt (by omega)]
  have hoffsetNat : (s.get a2).toNat = offset := by
    rw [ha2, toNat_ofNat, mod_eq_of_lt hoffset]
  have htake : ((data.drop offset).take room).length ≤ room := List.length_take_le room _
  have hmem : (deliver reports s (.ok data)).mem = write (store s.mem (b + ofNat 64 size) 8
      (ofNat 64 (data.drop offset).length)) (b + ofNat 64 buffer)
        ((data.drop offset).take room) := by
    simp only [deliver, hroomNat, hoffsetNat, mem_set, State.mem_setMem]
    rw [ha0, ha1]
  refine ⟨?_, ?_, ?_, ?_, ?_⟩
  · simp only [deliver, hroomNat, hoffsetNat]
    exact get_set_self
  · rw [hmem, load_write_of_disjoint (by omega) hsize (by omega), load_store_self hsize]
  · rw [hmem, read_write_of_within le_rfl le_rfl (by omega), Nat.sub_self,
      Bytes.field, drop_zero, take_length]
  · exact Keeps.set (Keeps.setMem Keeps.refl) (mem_singleton.2 rfl)
  · intro lo hi hhi hb hs
    rw [hmem]
    exact (Agree.refl.store hhi (by omega) hsize).write hhi (by omega) (by omega)

/-- The rule for a system call that finds its item. -/
theorem follows_delivered (buffer size room offset : ℕ) (data : List UInt8)
    (h : requested env.tx (s.get a7) (s.get a3) (s.get a4) (s.get a5) = some (.ok data))
    (hplaced : Placed buffer size room) (hoffset : offset < 2 ^ 64)
    (ha0 : s.get a0 = b + ofNat 64 buffer) (ha1 : s.get a1 = b + ofNat 64 size)
    (ha2 : s.get a2 = ofNat 64 offset) (hroom : load s.mem (b + ofNat 64 size) 8 = ofNat 64 room)
    (hrun : ∀ s', Delivered env.reports b buffer size room (data.drop offset) s s' →
      C.Runs body fall s') : Follows C body fall (ecallAction env.surroundings s) := by
  have hcall : env.surroundings.ecall s = some (deliver env.reports s (.ok data)) := by
    show (requested env.tx (s.get a7) (s.get a3) (s.get a4) (s.get a5)).map _ = _
    rw [h, map_some]
  rw [follows_ecall hcall]
  exact hrun _ (delivered hplaced hoffset ha0 ha1 ha2 hroom)

/-- The rule for a system call that finds nothing. -/
theorem follows_missing (status : Word)
    (h : requested env.tx (s.get a7) (s.get a3) (s.get a4) (s.get a5) = some (.error status)) :
    Follows C body fall (ecallAction env.surroundings s) ↔ C.Runs body fall (s.set a0 status) := by
  have hcall : env.surroundings.ecall s = some (deliver env.reports s (.error status)) := by
    show (requested env.tx (s.get a7) (s.get a3) (s.get a4) (s.get a5)).map _ = _
    rw [h, map_some]
  exact follows_ecall hcall

end Delivery

end CellScript.Runtime
