import CellScript.Checker.Nested
import CellScript.Runtime.Scalar

/-!
# Emitted validation of nested values

The code that `emit_bounded_nested_validation` emits for a contract. It takes a pointer in `a0` and
a length in `a1`, goes to the label it is given if the bytes are not a value of the contract, and
falls through with the number of items in `a2` if they are.

A field of a record has a fixed width, so the code compares the offsets of a record with constants;
the ends of the items are read one after the other, and the end of an item is the start of the next
one.
-/

namespace CellScript.Runtime.Nested

open Assembler (Instruction)
open BitVec (ofNat)
open Checker.Nested
open MachineState
open Blocks

/-! ### The code -/

/-- The part of `emit_nested_element_validation` for a byte vector. -/
def payloadValidation (payload : ℕ) (invalid : String) : List Instruction :=
  [.li t1 4, .bltu t2 t1 invalid] ++ (u32LeFromBaseTo t1 t0 0 t3 ++
    [.li t3 payload, .bltu t3 t1 invalid, .addi t1 t1 4, .bne t1 t2 invalid])

def fieldCheck (invalid : String) (field offset : ℕ) : List Instruction :=
  u32LeFromBaseTo t1 t0 (4 * (field + 1)) t3 ++ [.li t3 offset, .bne t1 t3 invalid]

/-- The loop over the fields of a record, from a field on. -/
def fieldChecks (invalid : String) : ℕ → ℕ → List ℕ → List Instruction
  | field, offset, [] => fieldCheck invalid field offset
  | field, offset, width :: widths =>
    fieldCheck invalid field offset ++ fieldChecks invalid (field + 1) (offset + width) widths

/-- The part of `emit_nested_element_validation` for the fields of a record. -/
def recordValidation (widths : List ℕ) (invalid : String) : List Instruction :=
  [.li t1 ((widths.length + 2) * 4 + widths.sum + 4 : ℕ), .bltu t2 t1 invalid] ++
    (u32LeFromBaseTo t1 t0 0 t3 ++ (.bne t1 t2 invalid ::
      (fieldChecks invalid 0 ((widths.length + 2) * 4) widths ++ [.add t0 t0 t3, .sub t2 t2 t3])))

/-- The code of `emit_nested_element_validation`. -/
def elementValidation (element : ElementShape) (payload : ℕ) (invalid : String) :
    List Instruction :=
  match element with
  | .bytes => payloadValidation payload invalid
  | .record widths => recordValidation widths invalid ++ payloadValidation payload invalid

/-- The number of items, from the first offset. -/
def countCheck (c : NestedValueContract) (invalid : String) : List Instruction :=
  [.li t0 8, .bltu a1 t0 invalid] ++ (u32LeFromBaseTo a4 a0 4 t1 ++
    [.bltu a4 t0 invalid, .bltu a1 a4 invalid, .andi t0 a4 3, .bnez t0 invalid, .srli a2 a4 2,
     .addi a2 a2 (-1), .li t0 c.maxItems, .bltu t0 a2 invalid, .li a3 0])

def validationHead (c : NestedValueContract) (invalid : String) : List Instruction :=
  [.li a2 0, .li t0 4, .bltu a1 t0 invalid, .li t0 c.maxTotalBytes, .bltu t0 a1 invalid,
   .add t0 a0 a1, .bltu t0 a0 invalid] ++ (u32LeFromBaseTo t0 a0 0 t1 ++
    ([.bne t0 a1 invalid, .li t0 4, .beq a1 t0 "nested_value_valid"] ++ countCheck c invalid))

/-- The end of the item at hand is read, unless it is the end of the value. -/
def itemEnd : List Instruction :=
  [.addi t0 a3 1, .addi a5 a1 0, .beq t0 a2 "nested_value_end_ready", .slli t0 t0 2,
   .addi t0 t0 4, .add t0 a0 t0] ++ u32LeFromBaseTo a5 t0 0 t1

def itemBody (c : NestedValueContract) (invalid : String) : List Instruction :=
  [.bltu a5 a4 invalid, .bltu a1 a5 invalid, .sub t2 a5 a4, .add t0 a0 a4] ++
    (elementValidation c.element c.maxPayloadBytes invalid ++
      [.addi a4 a5 0, .addi a3 a3 1, .bltu a3 a2 "nested_value_item"])

/-- The code of `emit_bounded_nested_validation`. -/
def boundedNestedValidation (c : NestedValueContract) (invalid : String) : Program :=
  [⟨"nested_value", validationHead c invalid⟩, ⟨"nested_value_item", itemEnd⟩,
   ⟨"nested_value_end_ready", itemBody c invalid⟩, ⟨"nested_value_valid", []⟩]

/-! ### Words of a value -/

variable {bytes : List UInt8}

section Words

variable {m : Memory} {a : Word} {k : ℕ}

theorem load_u32 (hread : read m a bytes.length = bytes) (hk : k + 4 ≤ bytes.length) :
    load m (a + ofNat 64 k) 4 = ofNat 64 (u32 bytes k) := by
  rw [load, read_eq_field hread hk, u32]

end Words

/-! ### Elements -/

variable {e : Surroundings} {helpers : String → Option Program} {C : Code (machine e helpers)}
  {s : State} {invalid : String}

section Elements

variable {rest : List Instruction} {fall : Option String} {it : List UInt8}
  {field offset payload : ℕ} {widths : List ℕ}

theorem runs_payloadValidation (hread : read s.mem (s.get t0) it.length = it)
    (hlength : s.get t2 = ofNat 64 it.length) (hlt : it.length < 2 ^ 64)
    (hpayload : payload < 2 ^ 64)
    (hok : PayloadOk payload it → ∀ s', Quiet [t1, t3] s s' → C.Runs rest fall s')
    (hno : ¬ PayloadOk payload it → ∀ s', Quiet [t1, t3] s s' → C.RunsAt invalid s') :
    C.Runs (payloadValidation payload invalid ++ rest) fall s := by
  have hword := u32_lt it 0
  simp (disch := decide) only [payloadValidation, append_assoc, runs_rules, runs_u32, act,
    set_rules, hlength]
  refine ite_ult (fun hshort ↦ hno (fun h ↦ absurd h.le_length (by omega)) _ (by simp))
    fun hshort ↦ ?_
  rw [load_u32 hread hshort, ← ofNat_add]
  refine ite_ult (fun hover ↦ hno (fun h ↦ absurd h.le_maximum (by omega)) _ (by simp))
    fun hover ↦ ?_
  exact ite_bne (fun hne ↦ hno (fun h ↦ hne h.length_eq) _ (by simp))
    fun heq ↦ hok ⟨hshort, hover, heq⟩ _ (by simp)

/-- The offsets of a record from a field on. -/
def Starts (it : List UInt8) (field offset : ℕ) (widths : List ℕ) : Prop :=
  ∀ k ≤ widths.length, u32 it (4 * (field + k + 1)) = offset + (widths.take k).sum

theorem starts_nil : Starts it field offset [] ↔ u32 it (4 * (field + 1)) = offset := by
  constructor
  · exact fun h ↦ h 0 (le_refl 0)
  · rintro h k hk
    obtain rfl : k = 0 := Nat.le_zero.1 hk
    exact h

theorem starts_cons {width : ℕ} :
    Starts it field offset (width :: widths) ↔ u32 it (4 * (field + 1)) = offset ∧
      Starts it (field + 1) (offset + width) widths := by
  constructor
  · intro h
    refine ⟨h 0 (Nat.zero_le _), fun k hk ↦ ?_⟩
    have hnext := h (k + 1) (by rw [length_cons]; omega)
    rw [List.take_succ_cons, List.sum_cons, ← add_assoc offset] at hnext
    rw [← hnext, add_right_comm field 1 k]
    rfl
  · rintro ⟨hfirst, hrest⟩ k hk
    cases k with
    | zero => exact hfirst
    | succ k =>
      rw [List.take_succ_cons, List.sum_cons, ← add_assoc offset,
        ← hrest k (by simpa using hk), add_right_comm field 1 k]
      rfl

/-- One offset of a record is compared. -/
theorem runs_fieldCheck (hread : read s.mem (s.get t0) it.length = it)
    (hroom : 4 * (field + 1) + 4 ≤ it.length) (hoffset : offset < 2 ^ 64)
    (hok : u32 it (4 * (field + 1)) = offset → ∀ s', Quiet [t1, t3] s s' →
      s'.get t3 = ofNat 64 offset → C.Runs rest fall s')
    (hno : u32 it (4 * (field + 1)) ≠ offset → ∀ s', Quiet [t1, t3] s s' → C.RunsAt invalid s') :
    C.Runs (fieldCheck invalid field offset ++ rest) fall s := by
  have hword := u32_lt it (4 * (field + 1))
  simp (disch := decide) only [fieldCheck, append_assoc, runs_rules, runs_u32, act, set_rules,
    load_u32 hread hroom]
  exact ite_bne (fun hne ↦ hno hne _ (by simp)) fun heq ↦ hok heq _ (by simp) get_set_self

/-- **All offsets of a record are compared.** -/
theorem runs_fieldChecks (hread : read s.mem (s.get t0) it.length = it)
    (hroom : 4 * (field + widths.length + 1) + 4 ≤ it.length)
    (hoffset : offset + widths.sum < 2 ^ 64)
    (hok : Starts it field offset widths → ∀ s', Quiet [t1, t3] s s' →
      s'.get t3 = ofNat 64 (offset + widths.sum) → C.Runs rest fall s')
    (hno : ¬ Starts it field offset widths → ∀ s', Quiet [t1, t3] s s' → C.RunsAt invalid s') :
    C.Runs (fieldChecks invalid field offset widths ++ rest) fall s := by
  induction widths generalizing field offset s with
  | nil =>
    rw [starts_nil] at hok hno
    exact runs_fieldCheck hread hroom hoffset hok hno
  | cons width widths ih =>
    rw [starts_cons] at hok hno
    rw [length_cons] at hroom
    rw [List.sum_cons, ← add_assoc] at hok hoffset
    refine runs_fieldCheck hread (by omega) (by omega) (fun hfirst s₁ h₁ _ ↦ ?_)
      fun hne ↦ hno fun h ↦ hne h.1
    refine ih (by rwa [h₁.mem, h₁.get t0]) (by omega) hoffset
      (fun hrest s₂ h₂ ht3 ↦ hok ⟨hfirst, hrest⟩ s₂ (h₁.trans h₂) ht3)
      fun hne s₂ h₂ ↦ hno (fun h ↦ hne h.2) s₂ (h₁.trans h₂)

theorem starts_iff :
    Starts it 0 ((widths.length + 2) * 4) widths ↔
      ∀ k ≤ widths.length, u32 it (4 * (k + 1)) = fieldStart widths k := by
  refine forall₂_congr fun k _ ↦ ?_
  rw [zero_add, fieldStart, mul_comm (widths.length + 2) 4]

/-- **The code of an element decides its shape.** -/
theorem runs_elementValidation {element : ElementShape}
    (hread : read s.mem (s.get t0) it.length = it)
    (hlength : s.get t2 = ofNat 64 it.length) (hlt : it.length < 2 ^ 64)
    (hpayload : payload < 2 ^ 64)
    (hwidths : ∀ widths, element = .record widths → fieldStart widths widths.length + 4 < 2 ^ 64)
    (hok : ElementOk payload element it → ∀ s', Quiet [t0, t1, t2, t3] s s' → C.Runs rest fall s')
    (hno : ¬ ElementOk payload element it → ∀ s', Quiet [t0, t1, t2, t3] s s' →
      C.RunsAt invalid s') : C.Runs (elementValidation element payload invalid ++ rest) fall s := by
  cases element with
  | bytes =>
    exact runs_payloadValidation hread hlength hlt hpayload (fun h s' hs' ↦ hok h s' hs'.mono)
      fun h s' hs' ↦ hno h s' hs'.mono
  | record widths =>
    have hstart : (widths.length + 2) * 4 + widths.sum = fieldStart widths widths.length := by
      rw [fieldStart, take_length, mul_comm]
    have hbound := hwidths widths rfl
    have hword := u32_lt it 0
    simp (disch := decide) only [elementValidation, recordValidation, append_assoc, runs_rules,
      runs_u32, act, set_rules, hlength, hstart]
    refine ite_ult (fun hshort ↦ hno (fun h ↦ absurd h.le_length (by omega)) _ (by simp))
      fun hshort ↦ ?_
    rw [load_u32 hread (by omega)]
    refine ite_bne (fun hne ↦ hno (fun h ↦ hne h.total) _ (by simp)) fun htotal ↦ ?_
    refine runs_fieldChecks hread (by omega) (by omega) (fun hstarts s₂ h₂ ht3 ↦ ?_)
      fun hne s₂ h₂ ↦ hno (fun h ↦ hne (starts_iff.2 h.starts)) s₂ (Quiet.trans (by simp) h₂)
    have hquiet : Quiet [t0, t1, t2, t3] s s₂ := Quiet.trans (by simp) h₂
    rw [hstart] at ht3
    simp (disch := decide) only [runs_rules, act, set_rules, h₂.kept, ht3, hlength]
    -- the payload is what is left of the element
    have hdrop : (it.drop (fieldStart widths widths.length)).length
        = it.length - fieldStart widths widths.length := length_drop
    have hrecord : PayloadOk payload (it.drop (fieldStart widths widths.length)) ↔
        RecordOk widths payload it :=
      ⟨fun h ↦ ⟨hshort, htotal, starts_iff.1 hstarts, h⟩, fun h ↦ h.payload⟩
    refine runs_payloadValidation
      (show read _ _ (it.drop (fieldStart widths widths.length)).length = _ from ?_) ?_
      (by omega) hpayload
      (fun h s₃ h₃ ↦ hok (hrecord.1 h) s₃ (Quiet.trans (by simp [hquiet]) h₃))
      fun h s₃ h₃ ↦ hno (fun hrec ↦ h (hrecord.2 hrec)) s₃ (Quiet.trans (by simp [hquiet]) h₃)
    · rw [get_set_of_ne, get_set_self, mem_set, mem_set, hquiet.mem, read_eq_field hread,
        Bytes.field, take_of_length_le (by rw [hdrop])]
    · rw [get_set_self, hdrop, ofNat_sub_ofNat_of_le _ _ (by omega) (by omega)]

end Elements

/-! ### Values -/

/-- The labels of the code. -/
def labels : List String :=
  ["nested_value", "nested_value_item", "nested_value_end_ready", "nested_value_valid"]

/-- A program has the blocks of the code. -/
structure Placed (program : Program) (c : NestedValueContract) (invalid : String) : Prop where
  head : program.at? "nested_value" = some (validationHead c invalid, some "nested_value_item")
  item : program.at? "nested_value_item" = some (itemEnd, some "nested_value_end_ready")
  endReady : program.at? "nested_value_end_ready" =
    some (itemBody c invalid, some "nested_value_valid")

/-- The registers hold a byte string, which does not wrap around. -/
structure Holds (bytes : List UInt8) (s : State) : Prop where
  read : MachineState.read s.mem (s.get a0) bytes.length = bytes
  length : s.get a1 = ofNat 64 bytes.length
  fits : (s.get a0).toNat + bytes.length < 2 ^ 64

/-- The registers that the code writes. -/
abbrev clobbered : List Reg := [a2, a3, a4, a5, t0, t1, t2, t3]

/-- The limits of a contract. -/
structure Bounded (c : NestedValueContract) : Prop where
  maxItems : c.maxItems ≤ 32
  maxPayloadBytes : c.maxPayloadBytes ≤ 256
  maxTotalBytes : c.maxTotalBytes ≤ 4096
  fieldStart_le : ∀ widths, c.element = .record widths → fieldStart widths widths.length ≤ 2088

section Values

variable {s₀ : State} {c : NestedValueContract} {i : ℕ} {program : Program}

theorem bounded_of_validate (h : c.validate = .ok ()) : Bounded c := by
  rw [NestedValueContract.validate] at h
  obtain ⟨hlimits, h⟩ := guard_ok.1 h
  have hadmitted : c.element.admitted = true := by
    by_contra hne
    rw [not_eq_true] at hne
    rw [hne] at h
    exact nomatch h
  refine ⟨by omega, by omega, by omega, fun widths heq ↦ ?_⟩
  rw [heq, ElementShape.admitted, decide_eq_true_eq] at hadmitted
  obtain ⟨-, hlength, hwidths⟩ := hadmitted
  have hsum : widths.sum ≤ widths.length * 256 :=
    List.sum_le_card_nsmul _ _ fun width hwidth ↦ (hwidths width hwidth).2
  rw [fieldStart, take_length]
  omega

/-- What holds at the start of the loop for an item. -/
structure Scan (bytes : List UInt8) (i : ℕ) (s₀ s : State) : Prop where
  count : s.get a2 = ofNat 64 (countOf bytes)
  index : s.get a3 = ofNat 64 i
  start : s.get a4 = ofNat 64 (offset bytes (countOf bytes) i)
  regs : Keeps clobbered s₀ s
  mem : s.mem = s₀.mem

/-- The end of an item is in `a5`. -/
theorem runsAt_item (hplaced : Placed C.program c invalid) (hholds : Holds bytes s₀)
    (hbounded : Bounded c) (hhead : HeadOk c bytes) (hne : bytes.length ≠ 4)
    (hi : i < countOf bytes) (hscan : Scan bytes i s₀ s)
    (hrun : ∀ s', Scan bytes i s₀ s' → s'.get a5 = ofNat 64 (offset bytes (countOf bytes) (i + 1)) →
      C.RunsAt "nested_value_end_ready" s') : C.RunsAt "nested_value_item" s := by
  have hlength := hhead.le_total.trans hbounded.maxTotalBytes
  have hheader := (hhead.header hne).2.le_length
  have hread : read s.mem (s.get a0) bytes.length = bytes := by
    rw [hscan.mem, hscan.regs.get a0, hholds.read]
  rw [runsAt_iff hplaced.item, itemEnd, ← append_nil (u32LeFromBaseTo a5 t0 0 t1)]
  simp (disch := decide) only [runs_rules, runs_u32, act, set_rules, Int.reduceToNat,
    hscan.index, hscan.count, hscan.regs.kept a1, hholds.length]
  rw [← ofNat_add i, ofNat_shiftLeft, ← ofNat_add (2 ^ 2 * (i + 1)), BitVec.add_zero,
    BitVec.add_zero]
  refine ite_beq (fun hlast ↦ ?_) fun hlast ↦ ?_
  · refine hrun _ ⟨hscan.count, hscan.index, hscan.start, by simp [hscan.regs], hscan.mem⟩ ?_
    rw [get_set_self, offset, if_neg (by omega)]
  · refine hrun _ ⟨hscan.count, hscan.index, hscan.start, by simp [hscan.regs], hscan.mem⟩ ?_
    rw [offset, if_pos (by omega), add_comm 4]
    exact load_u32 hread (by omega)

/-- An item and its end. -/
theorem read_item (hread : read s.mem (s.get a0) bytes.length = bytes)
    (hle : offset bytes (countOf bytes) i ≤ offset bytes (countOf bytes) (i + 1))
    (hend : offset bytes (countOf bytes) (i + 1) ≤ bytes.length) :
    (item bytes (countOf bytes) i).length =
        offset bytes (countOf bytes) (i + 1) - offset bytes (countOf bytes) i ∧
      read s.mem (s.get a0 + ofNat 64 (offset bytes (countOf bytes) i))
        (item bytes (countOf bytes) i).length = item bytes (countOf bytes) i := by
  have hlength : (item bytes (countOf bytes) i).length =
      offset bytes (countOf bytes) (i + 1) - offset bytes (countOf bytes) i :=
    Bytes.length_field (by omega)
  refine ⟨hlength, ?_⟩
  rw [hlength, read_eq_field hread, item]

/-- The items of a value from an index on. -/
def ItemsOk (c : NestedValueContract) (bytes : List UInt8) (i : ℕ) : Prop :=
  Ordered bytes (countOf bytes) i ∧
    ∀ j, i ≤ j → j < countOf bytes →
      ElementOk c.maxPayloadBytes c.element (item bytes (countOf bytes) j)

theorem itemsOk_iff (hi : i < countOf bytes) :
    ItemsOk c bytes i ↔ (offset bytes (countOf bytes) i ≤ offset bytes (countOf bytes) (i + 1) ∧
        offset bytes (countOf bytes) (i + 1) ≤ bytes.length) ∧
      ElementOk c.maxPayloadBytes c.element (item bytes (countOf bytes) i) ∧
      ItemsOk c bytes (i + 1) := by
  rw [ItemsOk, ordered_succ_iff hi]
  constructor
  · rintro ⟨⟨hfirst, hrest⟩, helements⟩
    exact ⟨hfirst, helements i (le_refl i) hi, hrest, fun j hj ↦ helements j (by omega)⟩
  · rintro ⟨hfirst, helement, hrest, helements⟩
    refine ⟨⟨hfirst, hrest⟩, fun j hj hcount ↦ ?_⟩
    rcases Nat.eq_or_lt_of_le hj with rfl | hlt
    · exact helement
    · exact helements j hlt hcount

theorem itemsOk_of_le (hi : countOf bytes ≤ i) : ItemsOk c bytes i :=
  ⟨fun j hj hlt ↦ absurd hlt (by omega), fun j hj hlt ↦ absurd hlt (by omega)⟩

/-- **The loop decides the items that are left.** -/
theorem runsAt_items (hplaced : Placed C.program c invalid) (hholds : Holds bytes s₀)
    (hbounded : Bounded c) (hhead : HeadOk c bytes) (hne : bytes.length ≠ 4)
    (hi : i < countOf bytes) (hscan : Scan bytes i s₀ s)
    (hok : ItemsOk c bytes i → ∀ s', s'.get a2 = ofNat 64 (countOf bytes) →
      Quiet clobbered s₀ s' → C.RunsAt "nested_value_valid" s')
    (hno : ¬ ItemsOk c bytes i → ∀ s', Quiet clobbered s₀ s' → C.RunsAt invalid s') :
    C.RunsAt "nested_value_item" s := by
  have hlength := hhead.le_total.trans hbounded.maxTotalBytes
  have hcount := hhead.le_items.trans hbounded.maxItems
  -- the items that are left grow fewer
  induction hleft : countOf bytes - i generalizing i s with
  | zero => omega
  | succ left ih =>
    rw [itemsOk_iff hi] at hok hno
    refine runsAt_item hplaced hholds hbounded hhead hne hi hscan fun s₁ h₁ hend ↦ ?_
    have hquiet : Quiet clobbered s₀ s₁ := ⟨h₁.regs, h₁.mem⟩
    have hbound : ∀ j, offset bytes (countOf bytes) j < 2 ^ 64 := by
      intro j
      rw [offset]
      split
      · exact (u32_lt bytes _).trans (by decide)
      · omega
    have hfrom := hbound i
    have hto := hbound (i + 1)
    rw [runsAt_iff hplaced.endReady]
    simp (disch := decide) only [itemBody, runs_rules, act, get_set_of_ne, hend, h₁.start,
      hquiet.kept, hholds.length]
    refine ite_ult (fun hlt ↦ hno (fun h ↦ absurd h.1.1 (by omega)) s₁ hquiet) fun hle ↦
      ite_ult (fun hlt ↦ hno (fun h ↦ absurd h.1.2 (by omega)) s₁ hquiet) fun hin ↦ ?_
    obtain ⟨hitem, hread⟩ := read_item hholds.read hle hin
    refine runs_elementValidation
      (show read _ _ (item bytes (countOf bytes) i).length = _ from ?_) ?_ (by omega)
      (by have := hbounded.maxPayloadBytes; omega)
      (fun widths hwidths ↦ by have := hbounded.fieldStart_le widths hwidths; omega)
      (fun helement s₂ h₂ ↦ ?_)
      fun hne s₂ h₂ ↦ hno (fun h ↦ hne h.2.1) s₂ (Quiet.trans (by simp [hquiet]) h₂)
    · rw [get_set_self, mem_set, mem_set, h₁.mem, hread]
    · rw [get_set_of_ne, get_set_self, hitem, ofNat_sub_ofNat_of_le _ _ (hbound _) hle]
    · have hquiet₂ : Quiet clobbered s₀ s₂ := Quiet.trans (by simp [hquiet]) h₂
      have htotal : s₂.get a2 = ofNat 64 (countOf bytes) := (h₂.get a2).trans h₁.count
      simp (disch := decide) only [runs_rules, act, set_rules, h₂.kept, h₁.index, h₁.count, hend]
      rw [BitVec.add_zero, ← ofNat_add]
      refine ite_ult (fun hmore ↦ ?_) fun hlast ↦ ?_
      · refine ih hmore ⟨htotal, get_set_self, ?_, by simp [hquiet₂.regs], hquiet₂.mem⟩
          (fun h ↦ hok ⟨⟨hle, hin⟩, helement, h⟩) (fun h ↦ hno fun hall ↦ h hall.2.2) (by omega)
        rw [get_set_of_ne, get_set_self]
      · exact hok ⟨⟨hle, hin⟩, helement, itemsOk_of_le (by omega)⟩ _ htotal (by simp [hquiet₂])

theorem accepts_iff : Accepts c bytes ↔ HeadOk c bytes ∧ ItemsOk c bytes 0 := by
  constructor
  · rintro ⟨hhead, hordered, helements⟩
    exact ⟨hhead, hordered, fun j _ ↦ helements j⟩
  · rintro ⟨hhead, hordered, helements⟩
    exact ⟨hhead, hordered, fun j ↦ helements j (Nat.zero_le j)⟩

/-- The number of items and the items are decided by the rest of the code. -/
theorem runs_countCheck (hplaced : Placed C.program c invalid) (hholds : Holds bytes s₀)
    (hbounded : Bounded c) (hquiet : Quiet clobbered s₀ s)
    (hshort : 4 ≤ bytes.length) (hlong : bytes.length ≤ c.maxTotalBytes)
    (htotal : u32 bytes 0 = bytes.length) (hne : bytes.length ≠ 4)
    (hok : HeadOk c bytes ∧ ItemsOk c bytes 0 → ∀ s', s'.get a2 = ofNat 64 (countOf bytes) →
      Quiet clobbered s₀ s' → C.RunsAt "nested_value_valid" s')
    (hno : ¬ (HeadOk c bytes ∧ ItemsOk c bytes 0) → ∀ s', Quiet clobbered s₀ s' →
      C.RunsAt invalid s') : C.Runs (countCheck c invalid) (some "nested_value_item") s := by
  have htotalBytes := hbounded.maxTotalBytes
  have hmaxItems := hbounded.maxItems
  have hword := u32_lt bytes 4
  have hread : read s.mem (s.get a0) bytes.length = bytes := by
    rw [hquiet.mem, hquiet.get a0, hholds.read]
  simp (disch := decide) only [countCheck, runs_rules, runs_u32, BitVec.reduceOfInt, act, set_rules,
    Int.reduceToNat, hquiet.kept a1, hholds.length]
  refine ite_ult (fun hroom ↦ hno
    (fun h ↦ absurd (h.1.first hne).1 (by omega)) _ (by simp [hquiet])) fun hroom ↦ ?_
  rw [load_u32 hread hroom, ofNat_ushiftRight (by omega)]
  refine ite_ult (fun hsmall ↦ hno
    (fun h ↦ absurd (h.1.first hne).2.1 (by omega)) _ (by simp [hquiet])) fun hsmall ↦ ?_
  refine ite_ult (fun hlarge ↦ hno
    (fun h ↦ absurd (h.1.first hne).2.2.1 (by omega)) _ (by simp [hquiet])) fun hlarge ↦ ?_
  rw [and_three_bne_zero (by omega), ofNat_add_allOnes (by omega)]
  refine ite_of_iff bne_iff_ne (fun hodd ↦ hno (fun h ↦ hodd (h.1.first hne).2.2.2) _
    (by simp [hquiet])) fun heven ↦ ?_
  rw [not_not] at heven
  have hcount : countOf bytes = u32 bytes 4 / 2 ^ 2 - 1 := if_neg hne
  refine ite_ult (fun hmany ↦ hno (fun h ↦ absurd h.1.le_items (by omega)) _
    (by simp [hquiet])) fun hmany ↦ ?_
  have hhead : HeadOk c bytes :=
    ⟨hshort, hlong, htotal, fun _ ↦ ⟨hroom, hsmall, hlarge, heven⟩, by omega⟩
  have hpos : 0 < countOf bytes := by omega
  refine runsAt_items hplaced hholds hbounded hhead hne hpos
    ⟨?_, get_set_self, ?_, by simp [hquiet.regs], hquiet.mem⟩
    (fun h ↦ hok ⟨hhead, h⟩) fun h ↦ hno fun hall ↦ h hall.2
  · rw [hcount]
    rfl
  · rw [offset, if_pos hpos]
    rfl

/-- **The code decides whether the bytes are a value of the contract.** -/
theorem runs_validationHead (hplaced : Placed C.program c invalid) (hholds : Holds bytes s)
    (hbounded : Bounded c) (hok : Accepts c bytes → ∀ s', s'.get a2 = ofNat 64 (countOf bytes) →
      Quiet clobbered s s' → C.RunsAt "nested_value_valid" s')
    (hno : ¬ Accepts c bytes → ∀ s', Quiet clobbered s s' → C.RunsAt invalid s') :
    C.Runs (validationHead c invalid) (some "nested_value_item") s := by
  have hfits := hholds.fits
  have htotalBytes := hbounded.maxTotalBytes
  have hwrap : (s.get a0 + ofNat 64 bytes.length).ult (s.get a0) = false := by
    rw [BitVec.ult, decide_eq_false_iff_not, BitVec.toNat_add, toNat_ofNat,
      mod_eq_of_lt (show bytes.length < 2 ^ 64 by omega)]
    omega
  rw [accepts_iff] at hok hno
  simp (disch := decide) only [validationHead, runs_rules, runs_u32, act, set_rules, hholds.length,
    hwrap, false_eq_true, if_false]
  refine ite_ult (fun hshort ↦ hno (fun h ↦ absurd h.1.le_length (by omega)) _ (by simp))
    fun hshort ↦ ?_
  refine ite_ult (fun hlong ↦ hno (fun h ↦ absurd h.1.le_total (by omega)) _ (by simp))
    fun hlong ↦ ?_
  have hword := u32_lt bytes 0
  rw [load_u32 hholds.read hshort]
  refine ite_bne (fun hne ↦ hno (fun h ↦ hne h.1.total) _ (by simp))
    fun htotal ↦ ite_beq (fun hfour ↦ ?_) fun hfour ↦ ?_
  · -- a value without items
    have hempty : countOf bytes = 0 := if_pos hfour
    refine hok ⟨⟨hshort, hlong, htotal, fun hne ↦ absurd hfour hne, by omega⟩,
      itemsOk_of_le (by omega)⟩ _ ?_ (by simp)
    rw [hempty]
    rfl
  · exact runs_countCheck hplaced hholds hbounded (by simp) hshort hlong htotal hfour hok hno

theorem Placed.cons {b : Block} (h : Placed program c invalid) (hhead : b.label ≠ "nested_value")
    (hitem : b.label ≠ "nested_value_item")
    (hend : b.label ≠ "nested_value_end_ready") : Placed (b :: program) c invalid :=
  ⟨(if_neg hhead).trans h.head, (if_neg hitem).trans h.item, (if_neg hend).trans h.endReady⟩

theorem placed_cons_of_fresh (body : List Instruction) (hfresh : invalid ∉ labels)
    (h : Placed program c invalid) : Placed (⟨invalid, body⟩ :: program) c invalid := by
  simp only [labels, mem_cons, not_mem_nil, or_false, not_or] at hfresh
  exact h.cons hfresh.1 hfresh.2.1 hfresh.2.2.1

theorem placed_leftAt_valid :
    Placed (leftAt "nested_value_valid" (boundedNestedValidation c invalid)) c invalid :=
  ⟨rfl, rfl, rfl⟩

/-- **An accepted value.** The code falls through with the number of items. -/
theorem exists_reaches_valid (hbounded : Bounded c) (hholds : Holds bytes s) (h : Accepts c bytes) :
    ∃ s', Reaches e helpers (boundedNestedValidation c invalid) "nested_value_valid" s s' ∧
      s'.get a2 = ofNat 64 (countOf bytes) ∧ Keeps clobbered s s' ∧
      s'.mem = s.mem := by
  refine exists_reaches rfl ((runsAt_iff placed_leftAt_valid.head).2 ?_)
  refine runs_validationHead placed_leftAt_valid hholds hbounded
    (fun _ s' hcount hquiet ↦ ?_) fun hne ↦ absurd h hne
  exact runsAt_leftAt.2 ⟨hquiet.get ra, hcount, hquiet.regs, hquiet.mem⟩

/-- **A rejected value.** The code goes to the given label, and does not fall through. -/
theorem exists_reaches_invalid (hfresh : invalid ∉ labels) (hbounded : Bounded c)
    (hholds : Holds bytes s) (h : ¬ Accepts c bytes) :
    (∃ s', Reaches e helpers (boundedNestedValidation c invalid) invalid s s' ∧ s'.mem = s.mem) ∧
      ∀ s', ¬ Reaches e helpers (boundedNestedValidation c invalid) "nested_value_valid" s s' := by
  constructor
  · have hplaced := placed_cons_of_fresh [.ret] hfresh
      (show Placed (boundedNestedValidation c invalid) c invalid from ⟨rfl, rfl, rfl⟩)
    refine exists_reaches rfl ((runsAt_iff hplaced.head).2 ?_)
    refine runs_validationHead hplaced hholds hbounded (fun haccepts ↦ absurd haccepts h)
      fun _ s' hquiet ↦ ?_
    exact runsAt_leftAt.2 ⟨hquiet.get ra, hquiet.mem⟩
  · -- a return at the label that sets `a2` would be seen
    refine fun s' ↦ not_reaches_of_runsAt invalid a2 rfl ?_ fun v ↦ ?_
    · simp only [labels, mem_cons, not_mem_nil, or_false, not_or] at hfresh
      obtain ⟨hhead, hitem, hend, hvalid⟩ := hfresh
      simp [leftAt, boundedNestedValidation, Program.at?, Ne.symm hhead, Ne.symm hitem,
        Ne.symm hend, Ne.symm hvalid]
    · have hplaced := placed_cons_of_fresh [.li a2 v, .ret] hfresh (placed_leftAt_valid (c := c))
      refine (runsAt_iff hplaced.head).2 (runs_validationHead hplaced hholds hbounded
        (fun haccepts ↦ absurd haccepts h) fun _ s₁ hquiet ↦ ?_)
      have hat : Program.at? invalid ((⟨invalid, [.li a2 v, .ret]⟩ : Block) ::
          leftAt "nested_value_valid" (boundedNestedValidation c invalid)) =
          some ([.li a2 v, .ret], some "nested_value_valid") := if_pos rfl
      rw [runsAt_iff hat, runs_cons, act, follows_next, runs_cons, act, follows_ret]
      exact ⟨hquiet.get ra, get_set_self⟩

end Values

end CellScript.Runtime.Nested
