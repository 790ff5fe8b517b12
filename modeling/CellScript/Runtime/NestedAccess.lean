import CellScript.Runtime.Frame
import CellScript.Runtime.Nested

/-!
# Emitted accesses to nested values

The code that `emit_nested_length`, `emit_nested_index` and `emit_nested_field` emit. A view is a
pointer in one slot of the frame and a length in another one; an access stores a number, a pointer,
or a view into the slots of its result. The code does not validate the bytes again: it relies on the
validation that came before it.
-/

namespace CellScript.Runtime.Nested

open Assembler (Instruction)
open BitVec (ofNat)
open Bytes (ofLe field)
open Checker.Nested
open MachineState
open Blocks

/-! ### The code -/

/-- The views that have a length and elements. -/
inductive ViewKind
  | values
  | bytesView
  deriving DecidableEq, Repr

/-- A constant or a variable, as `emit_operand_to_register` takes it. -/
inductive Operand
  | const (value : ℕ)
  | var (slot : ℕ)

def operandToRegister (r : Reg) : Operand → List Instruction
  | .const value => [.li r value]
  | .var slot => stackLoad r slot

/-- The number of items of a value, up to the label behind it. -/
def valuesLength (slot size : ℕ) : List Instruction :=
  stackLoad a0 slot ++ (stackLoad a1 size ++
    ([.li t0 0, .li t1 4, .beq a1 t1 "nested_count_ready"] ++
      (u32LeFromBaseTo t0 a0 4 t1 ++ [.srli t0 t0 2, .addi t0 t0 (-1)])))

def bytesLength (slot size : ℕ) : List Instruction :=
  stackLoad a0 slot ++ (stackLoad a1 size ++ u32LeFromBaseTo t0 a0 0 t1)

/-- The code of `emit_nested_length_result`. -/
def nestedLength (slot size dest : ℕ) : ViewKind → Program
  | .values =>
    [⟨"nested_use_length", valuesLength slot size⟩, ⟨"nested_count_ready", stackStore t0 dest⟩,
     ⟨"nested_use_length_done", []⟩]
  | .bytesView =>
    [⟨"nested_use_length", bytesLength slot size ++ stackStore t0 dest⟩,
     ⟨"nested_use_length_done", []⟩]

/-- The start of an item in `t2` and its end in `t4`, up to the label behind it. -/
def itemBounds : List Instruction :=
  [.slli t1 a3 2, .add t1 a0 t1] ++ (u32LeFromBaseTo t2 t1 4 t3 ++
    ([.addi a3 a3 1, .addi t4 a1 0, .beq a3 t0 "nested_index_end_ready"] ++
      u32LeFromBaseTo t4 t1 8 t3))

/-- The code of `emit_nested_index`. -/
def nestedIndex (slot size dest destSize : ℕ) (index : Operand) (failure : String) :
    ViewKind → Program
  | .values =>
    [⟨"nested_use_index", operandToRegister a3 index ++ valuesLength slot size⟩,
     ⟨"nested_count_ready", [.bltu a3 t0 "nested_index_in_range", .jump failure]⟩,
     ⟨"nested_index_in_range", itemBounds⟩,
     ⟨"nested_index_end_ready", [.sub t4 t4 t2, .add t0 a0 t2] ++ (stackStore t4 destSize ++
       stackStore t0 dest)⟩,
     ⟨"nested_use_index_done", []⟩]
  | .bytesView =>
    [⟨"nested_use_index", operandToRegister a3 index ++ (bytesLength slot size ++
       [.bltu a3 t0 "nested_index_in_range", .jump failure])⟩,
     ⟨"nested_index_in_range", [.add t1 a0 a3, .lbu t0 t1 4] ++ stackStore t0 dest⟩,
     ⟨"nested_use_index_done", []⟩]

inductive FixedFieldType
  | u8
  | u16
  | u32
  | u64
  | u128
  | hash
  | address
  | bytes (length : ℕ)
  deriving DecidableEq, Repr

namespace FixedFieldType

def width : FixedFieldType → ℕ
  | u8 => 1
  | u16 => 2
  | u32 => 4
  | u64 => 8
  | u128 => 16
  | hash | address => 32
  | bytes length => length

/-- The width of a value that is kept in a register, `fixed_scalar_width` on these types. -/
def scalarWidth : FixedFieldType → Option ℕ
  | u8 => some 1
  | u16 => some 2
  | u32 => some 4
  | u64 => some 8
  | _ => none

variable {ty : FixedFieldType}

theorem width_of_scalarWidth {w : ℕ} (h : ty.scalarWidth = some w) : ty.width = w ∧ w ≤ 8 := by
  cases ty <;> cases h <;> decide

end FixedFieldType

structure RecordLayout where
  fixedFields : List (String × FixedFieldType)
  payloadField : String

namespace RecordLayout

variable (layout : RecordLayout)

def widths : List ℕ := layout.fixedFields.map (·.2.width)

/-- The index of a field, the payload being the last one. -/
def index (name : String) : Option ℕ :=
  if name = layout.payloadField then some layout.fixedFields.length
  else layout.fixedFields.findIdx? (·.1 == name)

def offset (index : ℕ) : ℕ :=
  (layout.fixedFields.length + 2) * 4 + ((layout.fixedFields.take index).map (·.2.width)).sum

variable {name : String}

theorem getD_widths {ty : FixedFieldType} {k : ℕ}
    (hk : layout.fixedFields[k]? = some (name, ty)) :
    k < layout.widths.length ∧ layout.widths.getD k 0 = ty.width := by
  obtain ⟨hlt, -⟩ := List.getElem?_eq_some_iff.1 hk
  rw [widths, List.getD_eq_getElem?_getD, length_map, getElem?_map, hk]
  exact ⟨hlt, rfl⟩

theorem offset_eq (k : ℕ) : layout.offset k = fieldStart layout.widths k := by
  rw [offset, fieldStart, widths, length_map, List.map_take, mul_comm]

end RecordLayout

/-- What is loaded of a field. -/
def fieldLoad (size destSize : ℕ) : Option FixedFieldType → List Instruction
  | none => stackLoad a1 size ++ (.sub a1 a1 t1 :: stackStore a1 destSize)
  | some ty =>
    match ty.scalarWidth with
    | some width => .addi a0 t0 0 :: unalignedScalarLoad a0 t0 t2 0 width
    | none => []

/-- The code of an access to the field at an index. -/
def nestedFieldAt (layout : RecordLayout) (slot size dest destSize index : ℕ) : Program :=
  [⟨"nested_use_field", stackLoad a0 slot ++ ([.li t1 (layout.offset index), .add t0 a0 t1] ++
     (fieldLoad size destSize (layout.fixedFields[index]?.map (·.2)) ++ stackStore t0 dest))⟩,
   ⟨"nested_use_field_done", []⟩]

/-- The code of `emit_nested_field`, unless the record has no such field. -/
def nestedField (layout : RecordLayout) (slot size dest destSize : ℕ) (name : String) :
    Option Program :=
  (layout.index name).map (nestedFieldAt layout slot size dest destSize)

/-! ### Views in the frame -/

/-- What a slot holds. -/
def slotValue (s : State) (slot : ℕ) : Word := load s.mem (s.get sp + ofNat 64 slot) 8

/-- Two slots hold the address and the length of a byte string. -/
structure Views (bytes : List UInt8) (slot size : ℕ) (s : State) : Prop where
  read : MachineState.read s.mem (slotValue s slot) bytes.length = bytes
  size : slotValue s size = ofNat 64 bytes.length
  lt : bytes.length < 2 ^ 64

/-- The slots of a result are apart from each other, and from the bytes of a view. -/
structure Free (slot size dest destSize : ℕ) (s : State) : Prop where
  dest_le : dest + 8 ≤ 2 ^ 64
  destSize_le : destSize + 8 ≤ 2 ^ 64
  slots : dest + 8 ≤ destSize ∨ destSize + 8 ≤ dest
  dest : ∀ i < (slotValue s size).toNat, 8 ≤
    (slotValue s slot + ofNat 64 i - (s.get sp + ofNat 64 dest)).toNat
  destSize : ∀ i < (slotValue s size).toNat, 8 ≤
    (slotValue s slot + ofNat 64 i - (s.get sp + ofNat 64 destSize)).toNat

variable {bytes : List UInt8} {slot size dest destSize k : ℕ} {s : State}

theorem load_slot : load s.mem (s.get sp + ofNat 64 slot) 8 = slotValue s slot := rfl

section Frames

variable {n : ℕ} {s' : State} {v w : Word}

theorem Views.toNat_size (h : Views bytes slot size s) :
    (slotValue s size).toNat = bytes.length := by
  rw [h.size, toNat_ofNat, mod_eq_of_lt h.lt]

/-- A store to a slot leaves bytes that are apart from it. -/
theorem read_store_of_apart {m : Memory} {a p : Word}
    (h : ∀ i < n, 8 ≤ (p + ofNat 64 i - a).toNat) : read (store m a 8 v) p n = read m p n := by
  refine map_congr_left fun i hi ↦ ?_
  refine List.getD_eq_default _ _ ?_
  exact h i (mem_range.1 hi)

/-- A part of a view is a view, once its address and length are stored. -/
theorem Views.part (h : Views bytes slot size s) (hfree : Free slot size dest destSize s)
    (hkn : k + n ≤ bytes.length) (hsp : s'.get sp = s.get sp)
    (hmem : s'.mem = store (store s.mem (s.get sp + ofNat 64 destSize) 8
      (ofNat 64 n)) (s.get sp + ofNat 64 dest) 8
      (slotValue s slot + ofNat 64 k)) : Views (field k n bytes) dest destSize s' := by
  have hsize := h.toNat_size
  have hlength : (field k n bytes).length = n := Bytes.length_field hkn
  have hpointer : slotValue s' dest = slotValue s slot + ofNat 64 k := by
    rw [slotValue, hsp, hmem, load_store_self hfree.dest_le]
  have hapart : ∀ {d : ℕ}, (∀ i < (slotValue s size).toNat, 8 ≤ (slotValue s slot +
      ofNat 64 i - (s.get sp + ofNat 64 d)).toNat) → ∀ i < n, 8 ≤ (slotValue s slot +
      ofNat 64 k + ofNat 64 i - (s.get sp + ofNat 64 d)).toNat := by
    intro d hd i hi
    rw [add_ofNat_add_ofNat]
    exact hd (k + i) (by omega)
  refine ⟨?_, ?_, by omega⟩
  · rw [hpointer, hlength, hmem, read_store_of_apart (hapart hfree.dest),
      read_store_of_apart (hapart hfree.destSize), read_eq_field h.read hkn]
  · rw [slotValue, hsp, hmem, load_store_of_disjoint hfree.slots.symm hfree.destSize_le
      hfree.dest_le, load_store_self hfree.destSize_le, hlength]

end Frames

/-! ### Lengths -/

/-- The registers after the length of a view has been read. -/
structure Counted (slot length n : ℕ) (s s' : State) : Prop where
  pointer : s'.get a0 = slotValue s slot
  size : s'.get a1 = ofNat 64 length
  count : s'.get t0 = ofNat 64 n
  regs : Keeps [a0, a1, t0, t1, t5, t6] s s'
  mem : s'.mem = s.mem

variable {e : Surroundings} {helpers : String → Option Program} {C : Code (machine e helpers)}
  {rest : List Instruction} {fall : Option String} {c : NestedValueContract}

section Lengths

theorem runs_valuesLength (hat : C.program.at? "nested_count_ready" =
      some (rest, fall)) (h : Views bytes slot size s) (hhead : HeadOk c bytes)
    (hrun : ∀ s', Counted slot bytes.length (countOf bytes) s s' → C.Runs rest fall s') :
    C.Runs (valuesLength slot size) (some "nested_count_ready") s := by
  have hlt := h.lt
  simp (disch := decide) only [valuesLength, slot_rules, load_slot, runs_rules, runs_u32,
    BitVec.reduceOfInt, act, set_rules, Int.reduceToNat, h.size]
  refine ite_beq (fun hfour ↦ ?_) fun hfour ↦ ?_
  · rw [runsAt_iff hat]
    refine hrun _ ?_
    constructor <;> simp (disch := decide) [countOf, hfour]
  · obtain ⟨hroom, hsmall, -, -⟩ := hhead.first hfour
    have hword := u32_lt bytes 4
    rw [load_u32 h.read hroom, ofNat_ushiftRight (by omega), ofNat_add_allOnes (by omega), runs_nil,
      runsAt_iff hat]
    refine hrun _ ?_
    constructor <;> simp (disch := decide) [countOf, hfour]

theorem runs_bytesLength (h : Views bytes slot size s) (hlength : 4 ≤ bytes.length)
    (hrun : ∀ s', Counted slot bytes.length (u32 bytes 0) s s' → C.Runs rest fall s') :
    C.Runs (bytesLength slot size ++ rest) fall s := by
  simp (disch := decide) only [bytesLength, append_assoc, slot_rules, load_slot, runs_u32,
    set_rules, h.size, load_u32 h.read hlength]
  refine hrun _ ?_
  constructor <;> simp (disch := decide)

/-- A number is stored and the code is left. -/
theorem runs_storeResult {l : String} {code : Program} {link : Word} {Q : State → Prop}
    (hdest : dest + 8 ≤ 2 ^ 64) (hra : s.get ra = link)
    (hQ : ∀ s', s'.get sp = s.get sp → slotValue s' dest = s.get t0 →
      s'.mem = store s.mem (s.get sp + ofNat 64 dest) 8 (s.get t0) → Q s') :
    Code.Runs (M := machine e helpers) ⟨leftAt l code, link, Q⟩ (stackStore t0 dest)
        (some l) s := by
  rw [← append_nil (stackStore t0 dest), slot_rules.2.1]
  refine runs_nil.2 (runsAt_leftAt.2 ⟨?_, hQ _ ?_ ?_ rfl⟩)
  · simp (disch := decide) only [slot_rules, hra]
  · simp (disch := decide) only [slot_rules]
  · simp (disch := decide) only [slotValue, slot_rules, load_store_self hdest]

/-- **The length of a value.** -/
theorem reaches_nestedLength_values (h : Views bytes slot size s) (hhead : HeadOk c bytes)
    (hdest : dest + 8 ≤ 2 ^ 64) :
    ∃ s', Reaches e helpers (nestedLength slot size dest .values) "nested_use_length_done" s s' ∧
      slotValue s' dest = ofNat 64 (countOf bytes) := by
  refine exists_reaches rfl ((runsAt_iff rfl).2 ?_)
  refine runs_valuesLength rfl h hhead fun s₁ h₁ ↦ ?_
  refine runs_storeResult hdest (h₁.regs.get ra) fun s' _ hvalue _ ↦ ?_
  rw [hvalue, h₁.count]

/-- **The length of a byte vector.** -/
theorem reaches_nestedLength_bytes (h : Views bytes slot size s) (hlength : 4 ≤ bytes.length)
    (hdest : dest + 8 ≤ 2 ^ 64) :
    ∃ s', Reaches e helpers (nestedLength slot size dest .bytesView) "nested_use_length_done" s s' ∧
      slotValue s' dest = ofNat 64 (u32 bytes 0) := by
  refine exists_reaches rfl ((runsAt_iff rfl).2 ?_)
  refine runs_bytesLength h hlength fun s₁ h₁ ↦ ?_
  refine runs_storeResult hdest (h₁.regs.get ra) fun s' _ hvalue _ ↦ ?_
  rw [hvalue, h₁.count]

end Lengths

/-! ### Elements -/

/-- The number that an operand stands for. -/
def Operand.value (s : State) : Operand → Word
  | .const value => ofNat 64 value
  | .var slot => slotValue s slot

section Indices

variable {s₀ : State} {j : ℕ} {index : Operand} {failure : String} {rs : List Reg}

theorem runs_operandToRegister
    (hrun : ∀ s', s'.get a3 = index.value s → Quiet [a3, t5, t6] s s' → C.Runs rest fall s') :
    C.Runs (operandToRegister a3 index ++ rest) fall s := by
  cases index with
  | const value =>
    simp only [operandToRegister, runs_rules, act]
    exact hrun _ get_set_self (by simp)
  | var slot =>
    simp (disch := decide) only [operandToRegister, slot_rules]
    exact hrun _ get_set_self (by simp)

/-- The slots do not depend on the registers of the code. -/
theorem slotValue_of_quiet (h : Quiet rs s₀ s) (k : ℕ) (hsp : sp ∉ rs := by decide) :
    slotValue s k = slotValue s₀ k := by
  rw [slotValue, slotValue, h.get sp hsp, h.mem]

theorem Views.quiet (h : Views bytes slot size s₀) (hquiet : Quiet rs s₀ s)
    (hsp : sp ∉ rs := by decide) : Views bytes slot size s := by
  have hvalue := fun k ↦ slotValue_of_quiet hquiet k hsp
  exact ⟨by rw [hvalue, hquiet.mem, h.read], by rw [hvalue, h.size], h.lt⟩

/-- The start and the end of an item. -/
theorem runs_itemBounds {count : ℕ}
    (hat : C.program.at? "nested_index_end_ready" = some (rest, fall))
    (hread : read s.mem (s.get a0) bytes.length = bytes) (hlt : bytes.length < 2 ^ 64)
    (hsize : s.get a1 = ofNat 64 bytes.length) (hcount : s.get t0 = ofNat 64 count)
    (hindex : s.get a3 = ofNat 64 j) (hj : j < count) (hheader : 4 * (count + 1) ≤ bytes.length)
    (hrun : ∀ s', s'.get t2 = ofNat 64 (offset bytes count j) →
      s'.get t4 = ofNat 64 (offset bytes count (j + 1)) → Quiet [a3, t1, t2, t3, t4] s s' →
      C.Runs rest fall s') : C.Runs itemBounds (some "nested_index_end_ready") s := by
  have hword : ∀ k < count, load s.mem (s.get a0 + ofNat 64 (4 + 4 * k)) 4 = _ :=
    fun k hk ↦ load_u32 hread (by omega)
  rw [itemBounds, ← append_nil (u32LeFromBaseTo t4 t1 8 t3)]
  simp (disch := decide) only [runs_rules, runs_u32, act, set_rules, Int.reduceToNat, hindex, hsize,
    hcount, ofNat_shiftLeft, add_ofNat_add_ofNat, ← ofNat_add, add_zero]
  rw [show 2 ^ 2 * j + 4 = 4 + 4 * j by omega, show 2 ^ 2 * j + 8 = 4 + 4 * (j + 1) by omega]
  refine ite_beq (fun hlast ↦ ?_) fun hlast ↦ ?_
  · rw [runsAt_iff hat]
    refine hrun _ ?_ ?_ (by simp)
    · simp (disch := decide) [hword j hj, offset, hj]
    · rw [get_set_self, offset, if_neg (by omega)]
  · rw [runs_nil, runsAt_iff hat]
    refine hrun _ ?_ ?_ (by simp)
    · simp (disch := decide) [hword j hj, offset, hj]
    · rw [get_set_self, offset, if_pos (by omega), hword (j + 1) (by omega)]

/-- **An item of a value.** -/
theorem reaches_nestedIndex_values (h : Views bytes slot size s) (hbounded : Bounded c)
    (haccepts : Accepts c bytes) (hj : j < countOf bytes)
    (hindex : index.value s = ofNat 64 j) (hfree : Free slot size dest destSize s) :
    ∃ s', Reaches e helpers (nestedIndex slot size dest destSize index failure .values)
        "nested_use_index_done" s s' ∧
      Views (item bytes (countOf bytes) j) dest destSize s' := by
  obtain ⟨hhead, hordered, -⟩ := haccepts
  obtain ⟨hle, hend⟩ := hordered j (Nat.zero_le j) hj
  have hne : bytes.length ≠ 4 := fun hfour ↦ by
    rw [countOf, if_pos hfour] at hj
    omega
  have hheader := (hhead.header hne).2.le_length
  have hcount := hhead.le_items.trans hbounded.maxItems
  have hlong := hhead.le_total.trans hbounded.maxTotalBytes
  refine exists_reaches rfl ((runsAt_iff rfl).2 (runs_operandToRegister fun s₁ ha3 h₁ ↦ ?_))
  refine runs_valuesLength rfl (h.quiet h₁) hhead fun s₂ h₂ ↦ ?_
  have hindex₂ : s₂.get a3 = ofNat 64 j := (h₂.regs.get a3).trans (ha3.trans hindex)
  have hpointer : s₂.get a0 = slotValue s slot := h₂.pointer.trans (slotValue_of_quiet h₁ _)
  have hquiet₂ : Quiet [a0, a1, a3, t0, t1, t2, t3, t4, t5, t6] s s₂ :=
    h₁.mono.trans ⟨h₂.regs, h₂.mem⟩
  simp only [runs_rules, act, hindex₂, h₂.count]
  rw [ofNat_ult_ofNat, if_pos (decide_eq_true hj), runsAt_iff rfl]
  refine runs_itemBounds rfl (by rw [hquiet₂.mem, hpointer, h.read]) h.lt h₂.size h₂.count hindex₂
    hj hheader fun s₃ hstart hstop h₃ ↦ ?_
  have hquiet₃ := hquiet₂.trans h₃
  simp (disch := decide) only [runs_rules, slot_rules, act, set_rules, hstart, hstop, h₃.kept a0,
    hpointer, hquiet₃.kept sp, hquiet₃.mem]
  rw [ofNat_sub_ofNat_of_le _ _ (by omega) hle]
  refine runs_storeResult hfree.dest_le ?_ fun s' hsp _ hmem ↦ ?_
  · simp (disch := decide) only [slot_rules, set_rules, hquiet₃.kept ra]
  · simp (disch := decide) only [slot_rules, set_rules, hquiet₃.kept sp] at hsp hmem
    exact h.part hfree (by omega) hsp hmem

/-- **A byte of a byte vector.** -/
theorem reaches_nestedIndex_bytes {b : UInt8} (h : Views bytes slot size s)
    (hlength : 4 ≤ bytes.length) (hcount : u32 bytes 0 + 4 = bytes.length)
    (hb : (bytes.drop 4)[j]? = some b) (hindex : index.value s = ofNat 64 j)
    (hdest : dest + 8 ≤ 2 ^ 64) :
    ∃ s', Reaches e helpers (nestedIndex slot size dest destSize index failure .bytesView)
        "nested_use_index_done" s s' ∧
      slotValue s' dest = ofNat 64 b.toNat := by
  have hlt := h.lt
  rw [List.getElem?_drop, add_comm] at hb
  obtain ⟨hj, -⟩ := List.getElem?_eq_some_iff.1 hb
  have hbyte : field (j + 4) 1 bytes = [b] := by
    rw [field, List.take_one, List.head?_drop, hb, toList_some]
  refine exists_reaches rfl ((runsAt_iff rfl).2 (runs_operandToRegister fun s₁ ha3 h₁ ↦ ?_))
  refine runs_bytesLength (h.quiet h₁) hlength fun s₂ h₂ ↦ ?_
  have hindex₂ : s₂.get a3 = ofNat 64 j := (h₂.regs.get a3).trans (ha3.trans hindex)
  have hpointer : s₂.get a0 = slotValue s slot := h₂.pointer.trans (slotValue_of_quiet h₁ _)
  simp only [runs_rules, act, hindex₂, h₂.count]
  rw [ofNat_ult_ofNat, if_pos (decide_eq_true (by omega)), runsAt_iff rfl]
  simp (disch := decide) only [runs_rules, act, set_rules, hindex₂, hpointer, h₂.mem, h₁.mem,
    add_ofNat_add_ofNat]
  refine runs_storeResult hdest ?_ fun s' _ hvalue _ ↦ ?_
  · rw [get_set_of_ne, get_set_of_ne, h₂.regs.get ra, h₁.get ra]
  · rw [hvalue, get_set_self, load, read_eq_field h.read, hbyte]
    rfl

end Indices

/-! ### Fields -/

/-- What the slot of a result holds of a field: the number itself, or a pointer to the bytes. -/
def FieldValue (ty : FixedFieldType) (bytes : List UInt8) (dest : ℕ) (s : State) : Prop :=
  if ty.scalarWidth.isSome then slotValue s dest = ofNat 64 (ofLe bytes)
  else read s.mem (slotValue s dest) bytes.length = bytes

section Fields

variable {payload : ℕ} {layout : RecordLayout} {name : String} {ty : FixedFieldType}

/-- **A field of fixed width.** -/
theorem reaches_nestedField_fixed (h : Views bytes slot size s)
    (hrecord : RecordOk layout.widths payload bytes)
    (hk : layout.fixedFields[k]? = some (name, ty)) (hfree : Free slot size dest destSize s) :
    ∃ s', Reaches e helpers (nestedFieldAt layout slot size dest destSize k)
        "nested_use_field_done" s s' ∧
      FieldValue ty (field (fieldStart layout.widths k) ty.width bytes) dest s' := by
  obtain ⟨hlast, hwidth⟩ := layout.getD_widths hk
  have hroom : fieldStart layout.widths k + ty.width ≤ bytes.length := by
    have hnext := fieldStart_succ hlast
    have hend : fieldStart layout.widths (k + 1) ≤ fieldStart layout.widths layout.widths.length :=
      fieldStart_mono hlast le_rfl
    have hlength := hrecord.le_length
    omega
  refine exists_reaches rfl ((runsAt_iff rfl).2 ?_)
  simp (disch := decide) only [slot_rules, load_slot, runs_rules, act, set_rules, hk, map_some,
    RecordLayout.offset_eq]
  cases hscalar : ty.scalarWidth with
  | some width =>
    obtain ⟨hty, -⟩ := FixedFieldType.width_of_scalarWidth hscalar
    have hsome : ty.scalarWidth.isSome = true := Option.isSome_of_eq_some hscalar
    simp (disch := decide) only [fieldLoad, hscalar, runs_rules, BitVec.add_zero, act, get_set_self]
    refine runs_unalignedScalarLoad (by decide)
      fun s₂ h₂ ↦ runs_storeResult hfree.dest_le ?_ fun s' _ hvalue _ ↦ ?_
    · simp (disch := decide) only [h₂.regs.kept ra, slot_rules, set_rules]
    · rw [FieldValue, if_pos hsome, hvalue, h₂.value, get_set_self, BitVec.add_zero, load, hty]
      refine congrArg (fun bytes ↦ ofNat 64 (ofLe bytes)) ?_
      simp only [mem_set, mem_addressed]
      exact read_eq_field h.read (hty ▸ hroom)
  | none =>
    have hnone : ¬ ty.scalarWidth.isSome = true := by
      rw [hscalar]
      decide
    simp only [fieldLoad, hscalar, nil_append]
    refine runs_storeResult hfree.dest_le (by simp (disch := decide)) fun s' hsp hvalue hmem ↦ ?_
    have hsize := h.toNat_size
    rw [FieldValue, if_neg hnone, hvalue, get_set_self, Bytes.length_field hroom, hmem]
    simp (disch := decide) only [slot_rules, set_rules]
    refine (read_store_of_apart fun i hi ↦ ?_).trans (read_eq_field h.read hroom)
    rw [add_ofNat_add_ofNat]
    exact hfree.dest _ (by omega)

/-- **The payload of a record.** -/
theorem reaches_nestedField_payload (h : Views bytes slot size s)
    (hrecord : RecordOk layout.widths payload bytes) (hfree : Free slot size dest destSize s) :
    ∃ s', Reaches e helpers (nestedFieldAt layout slot size dest destSize layout.fixedFields.length)
        "nested_use_field_done" s s' ∧
      Views (bytes.drop (fieldStart layout.widths layout.widths.length)) dest destSize s' := by
  have hwidths : layout.widths.length = layout.fixedFields.length := length_map _
  have hlength := hrecord.le_length
  have hlt := h.lt
  have hnone : layout.fixedFields[layout.widths.length]? = none := List.getElem?_eq_none hwidths.ge
  rw [← hwidths]
  refine exists_reaches rfl ((runsAt_iff rfl).2 ?_)
  simp (disch := decide) only [slot_rules, load_slot, runs_rules, append_assoc, act, set_rules,
    hnone, map_none, fieldLoad, RecordLayout.offset_eq, h.size]
  rw [ofNat_sub_ofNat_of_le _ _ (by omega) (by omega)]
  refine runs_storeResult hfree.dest_le (by simp (disch := decide)) fun s' hsp _ hmem ↦ ?_
  simp (disch := decide) only [slot_rules, set_rules] at hsp hmem
  have hpart := h.part hfree (by omega) hsp hmem
  rwa [field, take_of_length_le (by rw [length_drop])] at hpart

end Fields

/-! ### The two decoders -/

/-- Two slots hold the bytes of an element, which the host decodes to a view. -/
def Shows (c : NestedValueContract) (view : NestedElementView) (slot size : ℕ) (s : State) : Prop :=
  ∃ it, Views it slot size s ∧ c.checkElement it = .ok view

/-- Two slots hold a payload with its length in front. -/
def ShowsPayload (payload : List UInt8) (slot size : ℕ) (s : State) : Prop :=
  ∃ encoded, Views encoded slot size s ∧ 4 ≤ encoded.length ∧
    u32 encoded 0 + 4 = encoded.length ∧ encoded.drop 4 = payload

/-- The emitted code reads of a value what the host decoder returned of it. -/
structure Accesses (c : NestedValueContract) (v : CheckedNestedValue) : Prop where
  length : ∀ e helpers slot size dest s, Views v.bytes slot size s → dest + 8 ≤ 2 ^ 64 →
    ∃ s', Reaches e helpers (nestedLength slot size dest .values) "nested_use_length_done" s s' ∧
      slotValue s' dest = ofNat 64 v.elements.length
  index : ∀ e helpers slot size dest destSize (index : Operand) failure s (j : ℕ) view,
    Views v.bytes slot size s → Free slot size dest destSize s → v.elements[j]? = some view →
    index.value s = ofNat 64 j →
    ∃ s', Reaches e helpers (nestedIndex slot size dest destSize index failure .values)
        "nested_use_index_done" s s' ∧ Shows c view dest destSize s'
  field : ∀ e helpers (layout : RecordLayout) slot size dest destSize s name (k : ℕ) ty view,
    c.element = .record layout.widths → Shows c view slot size s →
    Free slot size dest destSize s → layout.index name = some k →
    layout.fixedFields[k]? = some (name, ty) →
    ∃ bytes program s', view.fixedFields[k]? = some bytes ∧
      nestedField layout slot size dest destSize name = some program ∧
      Reaches e helpers program "nested_use_field_done" s s' ∧ FieldValue ty bytes dest s'
  payloadField : ∀ e helpers (layout : RecordLayout) slot size dest destSize s view,
    c.element = .record layout.widths → Shows c view slot size s →
    Free slot size dest destSize s →
    ∃ program s', nestedField layout slot size dest destSize layout.payloadField = some program ∧
      Reaches e helpers program "nested_use_field_done" s s' ∧
      ShowsPayload view.payload dest destSize s'
  payload : ∀ slot size s view, c.element = .bytes → Shows c view slot size s →
    ShowsPayload view.payload slot size s
  payloadLength : ∀ e helpers slot size dest s payload, ShowsPayload payload slot size s →
    dest + 8 ≤ 2 ^ 64 →
    ∃ s', Reaches e helpers (nestedLength slot size dest .bytesView) "nested_use_length_done"
        s s' ∧ slotValue s' dest = ofNat 64 payload.length
  payloadIndex : ∀ e helpers slot size dest destSize (index : Operand) failure s payload (j : ℕ) b,
    ShowsPayload payload slot size s → dest + 8 ≤ 2 ^ 64 → payload[j]? = some b →
    index.value s = ofNat 64 j →
    ∃ s', Reaches e helpers (nestedIndex slot size dest destSize index failure .bytesView)
        "nested_use_index_done" s s' ∧ slotValue s' dest = ofNat 64 b.toNat

section Agreement

variable {c : NestedValueContract} {v : CheckedNestedValue}

theorem accesses_of_check (hvalid : c.validate = .ok ()) (h : c.check bytes = .ok v) :
    Accesses c v := by
  obtain ⟨haccepts, rfl⟩ := (check_ok_iff hvalid).1 h
  have hbounded := bounded_of_validate hvalid
  constructor
  case length =>
    intro e helpers slot size dest s hviews hdest
    rw [length_map, length_range]
    exact reaches_nestedLength_values hviews haccepts.head hdest
  case index =>
    intro e helpers slot size dest destSize index failure s j view hviews hfree hview hindex
    rw [getElem?_map, map_eq_some_iff] at hview
    obtain ⟨i, hi, rfl⟩ := hview
    obtain ⟨hj, rfl⟩ := List.getElem?_eq_some_iff.1 hi
    rw [length_range] at hj
    rw [getElem_range]
    obtain ⟨s', hs', hitem⟩ := reaches_nestedIndex_values hviews hbounded haccepts hj hindex hfree
    exact ⟨s', hs', _, hitem, checkElement_ok_iff.2 ⟨haccepts.elements _ hj, rfl⟩⟩
  case field =>
    rintro e helpers layout slot size dest destSize s name k ty view helement ⟨it, hviews, hit⟩
      hfree hname hk
    obtain ⟨hok, rfl⟩ := checkElement_ok_iff.1 hit
    rw [helement] at hok ⊢
    obtain ⟨s', hs', hvalue⟩ := reaches_nestedField_fixed hviews hok hk hfree
    obtain ⟨hlast, hwidth⟩ := layout.getD_widths hk
    refine ⟨_, _, s', ?_, map_eq_some_iff.2 ⟨k, hname, rfl⟩, hs', hvalue⟩
    rw [viewOf, getElem?_map, List.getElem?_range hlast, map_some, hwidth]
  case payloadField =>
    rintro e helpers layout slot size dest destSize s view helement ⟨it, hviews, hit⟩ hfree
    obtain ⟨hok, rfl⟩ := checkElement_ok_iff.1 hit
    rw [helement] at hok ⊢
    obtain ⟨s', hs', hpayload⟩ := reaches_nestedField_payload hviews hok hfree
    exact ⟨_, s', map_eq_some_iff.2 ⟨_, if_pos rfl, rfl⟩, hs', _, hpayload,
      hok.payload.le_length, hok.payload.length_eq, rfl⟩
  case payload =>
    rintro slot size s view helement ⟨it, hviews, hit⟩
    obtain ⟨hok, rfl⟩ := checkElement_ok_iff.1 hit
    rw [helement] at hok ⊢
    exact ⟨it, hviews, hok.le_length, hok.length_eq, rfl⟩
  case payloadLength =>
    rintro e helpers slot size dest s payload ⟨encoded, hviews, hlength, hcount, rfl⟩ hdest
    rw [length_drop, ← hcount, Nat.add_sub_cancel]
    exact reaches_nestedLength_bytes hviews hlength hdest
  case payloadIndex =>
    rintro e helpers slot size dest destSize index failure s payload j b
      ⟨encoded, hviews, hlength, hcount, rfl⟩ hdest hb hindex
    exact reaches_nestedIndex_bytes hviews hlength hcount hb hindex hdest

/-- **The emitted decoder and the host decoder agree.** The emitted validation falls through with a
number of elements exactly if the host accepts the bytes with that many elements, and goes to its
error exit otherwise; the emitted accesses then read the views that the host returned. -/
theorem nested_decoders_agree (c : NestedValueContract) (bytes : List UInt8)
    (hvalid : c.validate = .ok ()) :
    (∀ e helpers invalid s, invalid ∉ labels → Holds bytes s →
      (∀ count : Word, (∃ s', Reaches e helpers (boundedNestedValidation c invalid)
          "nested_value_valid" s s' ∧ s'.get a2 = count) ↔
        ∃ v, c.check bytes = .ok v ∧ ofNat 64 v.elements.length = count) ∧
      (∀ err, c.check bytes = .error err →
        ∃ s', Reaches e helpers (boundedNestedValidation c invalid) invalid s s')) ∧
    ∀ v, c.check bytes = .ok v → Accesses c v := by
  have hbounded := bounded_of_validate hvalid
  refine ⟨fun e helpers invalid s hfresh hholds ↦ ⟨fun count ↦ ?_, fun err herr ↦ ?_⟩,
    fun v ↦ accesses_of_check hvalid⟩
  · constructor
    · rintro ⟨s', hs', rfl⟩
      by_cases haccepts : Accepts c bytes
      · obtain ⟨s₁, hs₁, hcount, -⟩ := exists_reaches_valid hbounded hholds haccepts
        refine ⟨_, (check_ok_iff hvalid).2 ⟨haccepts, rfl⟩, ?_⟩
        rw [hs'.unique hs₁, hcount, length_map, length_range]
      · exact absurd hs' ((exists_reaches_invalid hfresh hbounded hholds haccepts).2 s')
    · rintro ⟨v, hv, rfl⟩
      obtain ⟨haccepts, rfl⟩ := (check_ok_iff hvalid).1 hv
      obtain ⟨s', hs', hcount, -⟩ := exists_reaches_valid hbounded hholds haccepts
      exact ⟨s', hs', by rw [hcount, length_map, length_range]⟩
  · have hrejects : ¬ Accepts c bytes := fun haccepts ↦
      nomatch herr.symm.trans ((check_ok_iff hvalid).2 ⟨haccepts, rfl⟩)
    obtain ⟨⟨s', hs', -⟩, -⟩ := exists_reaches_invalid hfresh hbounded hholds hrejects
    exact ⟨s', hs'⟩

/-- A value of two records, each with a field of one byte and a payload. -/
def sampleBytes : List UInt8 :=
  [49, 0, 0, 0, 12, 0, 0, 0, 31, 0, 0, 0,
    19, 0, 0, 0, 12, 0, 0, 0, 13, 0, 0, 0, 7, 2, 0, 0, 0, 5, 6,
    18, 0, 0, 0, 12, 0, 0, 0, 13, 0, 0, 0, 9, 1, 0, 0, 0, 8]

def sampleContract : NestedValueContract := ⟨profile, .record [1], 4, 32, 64⟩

/-- The bytes of the sample from address zero on; the slots at 64 and 72 hold their address and
their length. -/
def sampleState : State where
  regs := fun r ↦ if r = a1 then 49#64 else 0#64
  mem := fun a ↦ (sampleBytes ++ replicate 23 0 ++ [49]).getD a.toNat 0

def sampleSurroundings : Surroundings := ⟨fun _ ↦ none, fun _ ↦ 0#64, 0#64⟩

/-- The validation finds two records, and an access to the second one reads what the host reads. -/
theorem nested_decoders_agree_sample :
    sampleContract.validate = .ok () ∧
      (∃ s', Reaches sampleSurroundings (fun _ ↦ none)
        (boundedNestedValidation sampleContract "nested_param_invalid") "nested_value_valid"
        sampleState s' ∧ s'.get a2 = 2#64) ∧
      ∃ s', Reaches sampleSurroundings (fun _ ↦ none)
        (nestedIndex 64 72 80 88 (.const 1) "nested_index_failed" .values) "nested_use_index_done"
        sampleState s' ∧ Shows sampleContract ⟨[[9]], [8]⟩ 80 88 s' := by
  have hcheck : sampleContract.check sampleBytes =
      .ok ⟨sampleBytes, [⟨[[7]], [5, 6]⟩, ⟨[[9]], [8]⟩]⟩ := by decide
  obtain ⟨hvalidates, haccesses⟩ := nested_decoders_agree sampleContract sampleBytes rfl
  refine ⟨rfl, ((hvalidates sampleSurroundings (fun _ ↦ none) "nested_param_invalid" sampleState
    (by decide) ⟨by decide, rfl, by decide⟩).1 2#64).2 ⟨_, hcheck, rfl⟩, ?_⟩
  refine (haccesses _ hcheck).index _ _ 64 72 80 88 (.const 1) _ sampleState 1 _ ⟨?_, ?_, by decide⟩
    ⟨by decide, by decide, by decide, ?_, ?_⟩ rfl rfl
  all_goals decide +kernel

end Agreement

end CellScript.Runtime.Nested
