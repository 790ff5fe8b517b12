import CellScript.Names
import CellScript.Library.Bytes
import CellScript.Library.Fallible

/-!
# Nested values

The host decoder of `bounded_nested.rs` and the strict Molecule parser of `code_origin/molecule.rs`
that it uses. A nested value is a vector of items with a table of offsets; an item is a byte vector,
or a table of fields of fixed widths with a byte vector at the end.
-/

namespace CellScript.Checker.Nested

open Bytes (ofLe field)
open List

/-! ### Contracts -/

def profile : String := "cellscript-bounded-nested-values-v1"

inductive ElementShape
  | bytes
  | record (fixedFieldWidths : List ℕ)
  deriving DecidableEq, Repr

structure NestedValueContract where
  profile : String
  element : ElementShape
  maxItems : ℕ
  maxPayloadBytes : ℕ
  maxTotalBytes : ℕ
  deriving DecidableEq, Repr

inductive NestedValueError
  | invalidContract
  | totalBytesExceeded
  | itemCountExceeded
  | malformedMolecule
  | fixedFieldWidthMismatch
  | payloadBytesExceeded
  deriving DecidableEq, Repr

structure NestedElementView where
  fixedFields : List (List UInt8)
  payload : List UInt8
  deriving DecidableEq, Repr

structure CheckedNestedValue where
  bytes : List UInt8
  elements : List NestedElementView
  deriving DecidableEq, Repr

def ElementShape.admitted : ElementShape → Bool
  | .bytes => true
  | .record widths => widths ≠ [] ∧ widths.length ≤ 8 ∧ ∀ width ∈ widths, 1 ≤ width ∧ width ≤ 256

def NestedValueContract.validate (c : NestedValueContract) : Except NestedValueError Unit := do
  if c.profile ≠ Nested.profile ∨ c.maxItems > 32 ∨ c.maxPayloadBytes > 256 ∨
      ¬ (4 ≤ c.maxTotalBytes ∧ c.maxTotalBytes ≤ 4096) then
    throw .invalidContract
  if !c.element.admitted then
    throw .invalidContract

/-! ### Molecule -/

namespace Molecule

/-- A rejection of the parser, with its message. -/
structure Error where
  message : String
  deriving DecidableEq, Repr

/-- The number in four bytes. -/
def u32At (bytes : List UInt8) (offset : ℕ) : Except Error ℕ :=
  if offset + 4 ≤ bytes.length then .ok (ofLe (field offset 4 bytes))
  else .error ⟨"truncated Molecule integer"⟩

/-- Where the field at an index ends. -/
def endOf (bytes : List UInt8) (count index : ℕ) : Except Error ℕ :=
  if index + 1 = count then .ok bytes.length else u32At bytes (8 + index * 4)

/-- The loop over the offsets, from an index on. -/
def fieldsFrom (bytes : List UInt8) (count : ℕ) : ℕ → ℕ → ℕ → Except Error (List (List UInt8))
  | 0, _, _ => .ok []
  | remaining + 1, index, previous => do
    let start ← u32At bytes (4 + index * 4)
    let stop ← endOf bytes count index
    if start ≠ previous ∨ stop < start ∨ stop > bytes.length then
      throw ⟨"Molecule offsets are noncanonical or escape"⟩
    let rest ← fieldsFrom bytes count remaining (index + 1) stop
    return field start (stop - start) bytes :: rest

/-- The fields of a Molecule table. -/
def fields (bytes : List UInt8) (count : ℕ) : Except Error (List (List UInt8)) := do
  let header := (count + 1) * 4
  let differs : Error := ⟨"Molecule table/dynvec total or first offset differs"⟩
  if bytes.length < header then
    throw differs
  if (← u32At bytes 0) ≠ bytes.length then
    throw differs
  if (← u32At bytes 4) ≠ header then
    throw differs
  fieldsFrom bytes count count 0 header

/-- The items of a Molecule vector. -/
def dynamic (bytes : List UInt8) (maximum : ℕ) : Except Error (List (List UInt8)) := do
  if bytes.length = 4 ∧ u32At bytes 0 = .ok 4 then
    return []
  let first ← u32At bytes 4
  if first < 8 ∨ first % 4 ≠ 0 then
    throw ⟨"invalid Molecule dynvec header"⟩
  let count := first / 4 - 1
  if count > maximum then
    throw ⟨"Molecule dynvec count exceeds finite profile"⟩
  fields bytes count

def fixed (bytes : List UInt8) (width maximum : ℕ) : Except Error (List UInt8) := do
  let count ← u32At bytes 0
  if count > maximum ∨ count * width + 4 ≠ bytes.length then
    throw ⟨"Molecule fixvec count/width differs or exceeds profile"⟩
  return bytes.drop 4

end Molecule

open Molecule

/-! ### The decoder -/

/-- An error of the parser becomes one of the decoder. -/
def malformed {α : Type} (x : Except Molecule.Error α) : Except NestedValueError α :=
  x.mapError fun _ ↦ .malformedMolecule

def word (bytes : List UInt8) (offset : ℕ) : Except NestedValueError ℕ :=
  if offset + 4 ≤ bytes.length then .ok (ofLe (field offset 4 bytes)) else .error .malformedMolecule

def dynvecCount (bytes : List UInt8) : Except NestedValueError ℕ := do
  if (← word bytes 0) ≠ bytes.length then
    throw .malformedMolecule
  if bytes.length = 4 then
    return 0
  let first ← word bytes 4
  if first < 8 ∨ first % 4 ≠ 0 ∨ first > bytes.length then
    throw .malformedMolecule
  return first / 4 - 1

namespace NestedValueContract

variable (c : NestedValueContract)

/-- The view of an element with an encoded payload. -/
def checkPayload (fixedFields : List (List UInt8)) (encoded : List UInt8) :
    Except NestedValueError NestedElementView := do
  if (← word encoded 0) > c.maxPayloadBytes then
    throw .payloadBytesExceeded
  return ⟨fixedFields, ← malformed (fixed encoded 1 c.maxPayloadBytes)⟩

def checkElement (item : List UInt8) : Except NestedValueError NestedElementView :=
  match c.element with
  | .bytes => c.checkPayload [] item
  | .record widths => do
    let fields ← malformed (fields item (widths.length + 1))
    match fields.getLast? with
    | none => throw .malformedMolecule
    | some payload =>
      if (fields.dropLast.zip widths).any fun p ↦ p.1.length ≠ p.2 then
        throw .fixedFieldWidthMismatch
      c.checkPayload fields.dropLast payload

/-- Checks a nested value against its contract. -/
def check (bytes : List UInt8) : Except NestedValueError CheckedNestedValue := do
  c.validate
  if bytes.length > c.maxTotalBytes then
    throw .totalBytesExceeded
  let count ← dynvecCount bytes
  if count > c.maxItems then
    throw .itemCountExceeded
  let items ← malformed (dynamic bytes c.maxItems)
  return ⟨bytes, ← items.mapM c.checkElement⟩

end NestedValueContract

/-! ### Tables of offsets -/

/-- The number in the four bytes at an offset. -/
def u32 (bytes : List UInt8) (offset : ℕ) : ℕ := ofLe (field offset 4 bytes)

/-- Where the items of a table start, and its end. -/
def offset (bytes : List UInt8) (count j : ℕ) : ℕ :=
  if j < count then u32 bytes (4 + 4 * j) else bytes.length

def item (bytes : List UInt8) (count j : ℕ) : List UInt8 :=
  field (offset bytes count j) (offset bytes count (j + 1) - offset bytes count j) bytes

/-- The items from an index on follow one another inside the bytes. -/
def Ordered (bytes : List UInt8) (count i : ℕ) : Prop :=
  ∀ j, i ≤ j → j < count → offset bytes count j ≤ offset bytes count (j + 1) ∧
    offset bytes count (j + 1) ≤ bytes.length

/-- The header of a table. -/
structure Header (bytes : List UInt8) (count : ℕ) : Prop where
  le_length : 4 * (count + 1) ≤ bytes.length
  total : u32 bytes 0 = bytes.length
  first : u32 bytes 4 = 4 * (count + 1)

variable {bytes : List UInt8} {n : ℕ}

section Tables

variable {count i k previous : ℕ} {items : List (List UInt8)}

@[simp] theorem Molecule.u32At_ok_iff :
    u32At bytes k = .ok n ↔ k + 4 ≤ bytes.length ∧ u32 bytes k = n :=
  ite_ok_iff

theorem u32_lt (bytes : List UInt8) (k : ℕ) : u32 bytes k < 2 ^ 32 := by
  have hlt := Bytes.ofLe_lt (field k 4 bytes)
  have hlength : (field k 4 bytes).length ≤ 4 := by
    rw [field, length_take]
    exact Nat.min_le_left 4 _
  exact hlt.trans_le (Nat.pow_le_pow_right (by decide) hlength)

/-- The four bytes of a number. -/
theorem le_u32 (hk : k + 4 ≤ bytes.length) : Bytes.le 4 (u32 bytes k) = field k 4 bytes := by
  have hle := Bytes.le_ofLe (field k 4 bytes)
  rwa [Bytes.length_field hk] at hle

theorem ordered_succ_iff (hi : i < count) :
    Ordered bytes count i ↔ (offset bytes count i ≤ offset bytes count (i + 1) ∧
      offset bytes count (i + 1) ≤ bytes.length) ∧ Ordered bytes count (i + 1) := by
  constructor
  · exact fun h ↦ ⟨h i (le_refl i) hi, fun j hj ↦ h j (by omega)⟩
  · rintro ⟨hfirst, hrest⟩ j hj hcount
    rcases Nat.eq_or_lt_of_le hj with rfl | hlt
    · exact hfirst
    · exact hrest j hlt hcount

theorem Molecule.fieldsFrom_ok_iff {remaining : ℕ} (hlength : 4 * (count + 1) ≤ bytes.length)
    (hcount : i + remaining = count) (hprevious : offset bytes count i = previous) :
    fieldsFrom bytes count remaining i previous = .ok items ↔
      Ordered bytes count i ∧ items = (List.range' i remaining).map (item bytes count) := by
  induction remaining generalizing i previous items with
  | zero =>
    have hempty : Ordered bytes count i := fun j hj hlt ↦ absurd hlt (by omega)
    rw [fieldsFrom, range'_zero, map_nil]
    exact ⟨fun h ↦ ⟨hempty, (ok.inj h).symm⟩, fun h ↦ by rw [h.2]⟩
  | succ remaining ih =>
    have hi : i < count := by omega
    have hstart : u32At bytes (4 + i * 4) = .ok previous := by
      refine u32At_ok_iff.2 ⟨by omega, ?_⟩
      rw [← hprevious, offset, if_pos hi, mul_comm]
    have hstop : endOf bytes count i = .ok (offset bytes count (i + 1)) := by
      rw [offset, endOf]
      split
      · next hlast => rw [if_neg (by omega)]
      · next hlast =>
        rw [if_pos (by omega)]
        exact u32At_ok_iff.2 ⟨by omega, congrArg _ (by omega)⟩
    rw [fieldsFrom, hstart, ok_bind, hstop, ok_bind, ordered_succ_iff hi,
      range'_succ, guard_ok, bind_ok]
    rw [← hprevious]
    constructor
    · rintro ⟨hguard, rest, hrest, hitems⟩
      obtain ⟨hordered, rfl⟩ := (ih (by omega) rfl).1 hrest
      exact ⟨⟨⟨by omega, by omega⟩, hordered⟩, (pure_ok.1 hitems).symm⟩
    · rintro ⟨⟨⟨hle, hend⟩, hordered⟩, hitems⟩
      refine ⟨?_, _, (ih (by omega) rfl).2 ⟨hordered, rfl⟩, pure_ok.2 hitems.symm⟩
      rw [not_or, not_or]
      exact ⟨not_not.2 rfl, by omega, by omega⟩

/-- **The parser accepts the tables with ordered offsets**, and returns their items. -/
theorem Molecule.fields_ok_iff (hcount : 0 < count) :
    fields bytes count = .ok items ↔ Header bytes count ∧ Ordered bytes count 0 ∧
      items = (List.range count).map (item bytes count) := by
  rw [fields, guard_ok]
  constructor
  · rintro ⟨hlength, h⟩
    obtain ⟨total, htotal, h⟩ := bind_ok.1 h
    obtain ⟨hsame, h⟩ := guard_ok.1 h
    obtain ⟨first, hfirst, h⟩ := bind_ok.1 h
    obtain ⟨hheader, h⟩ := guard_ok.1 h
    rw [not_not] at hsame hheader
    have hfirst' := (u32At_ok_iff.1 hfirst).2
    have hprevious : offset bytes count 0 = (count + 1) * 4 := by
      rw [offset, if_pos hcount, ← hheader, ← hfirst']
    obtain ⟨hordered, hitems⟩ :=
      (fieldsFrom_ok_iff (by omega) (zero_add count) hprevious).1 h
    refine ⟨⟨by omega, (u32At_ok_iff.1 htotal).2.trans hsame, by omega⟩, hordered, ?_⟩
    rwa [← range_eq_range'] at hitems
  · rintro ⟨hheader, hordered, hitems⟩
    have hlength := hheader.le_length
    have hprevious : offset bytes count 0 = (count + 1) * 4 := by
      rw [offset, if_pos hcount, hheader.first, mul_comm]
    have htotal : u32At bytes 0 = .ok bytes.length := u32At_ok_iff.2 ⟨by omega, hheader.total⟩
    have hfirst : u32At bytes 4 = .ok ((count + 1) * 4) :=
      u32At_ok_iff.2 ⟨by omega, by rw [hheader.first, mul_comm]⟩
    refine ⟨by omega, ?_⟩
    rw [htotal, ok_bind, if_neg (not_not.2 rfl), hfirst, ok_bind, if_neg (not_not.2 rfl)]
    rw [range_eq_range'] at hitems
    exact (fieldsFrom_ok_iff (by omega) (zero_add count) hprevious).2 ⟨hordered, hitems⟩

end Tables

/-! ### What the decoder accepts -/

/-- A byte vector of a bounded length. -/
structure PayloadOk (maximum : ℕ) (encoded : List UInt8) : Prop where
  le_length : 4 ≤ encoded.length
  le_maximum : u32 encoded 0 ≤ maximum
  length_eq : u32 encoded 0 + 4 = encoded.length

/-- Where the fields of a record start. -/
def fieldStart (widths : List ℕ) (k : ℕ) : ℕ := 4 * (widths.length + 2) + (widths.take k).sum

/-- A record whose fields have the given widths. -/
structure RecordOk (widths : List ℕ) (maximum : ℕ) (it : List UInt8) : Prop where
  le_length : fieldStart widths widths.length + 4 ≤ it.length
  total : u32 it 0 = it.length
  starts : ∀ k ≤ widths.length, u32 it (4 * (k + 1)) = fieldStart widths k
  payload : PayloadOk maximum (it.drop (fieldStart widths widths.length))

def ElementOk (maximum : ℕ) : ElementShape → List UInt8 → Prop
  | .bytes, it => PayloadOk maximum it
  | .record widths, it => RecordOk widths maximum it

def viewOf : ElementShape → List UInt8 → NestedElementView
  | .bytes, it => ⟨[], it.drop 4⟩
  | .record widths, it =>
    ⟨(List.range widths.length).map fun k ↦ field (fieldStart widths k) (widths.getD k 0) it,
      (it.drop (fieldStart widths widths.length)).drop 4⟩

section Elements

variable {c : NestedValueContract} {it encoded : List UInt8} {view : NestedElementView}
  {widths : List ℕ} {k maximum count j : ℕ}

@[simp] theorem word_ok_iff : word bytes k = .ok n ↔ k + 4 ≤ bytes.length ∧ u32 bytes k = n :=
  ite_ok_iff

@[simp] theorem malformed_ok_iff {α : Type} {x : Except Molecule.Error α} {a : α} :
    malformed x = .ok a ↔ x = .ok a := by
  cases x with
  | error e => exact ⟨fun h ↦ (nomatch h), fun h ↦ (nomatch h)⟩
  | ok b => exact ⟨fun h ↦ congrArg _ (ok.inj h), fun h ↦ congrArg _ (ok.inj h)⟩

theorem checkPayload_ok_iff {fixedFields : List (List UInt8)} :
    c.checkPayload fixedFields encoded = .ok view ↔
      PayloadOk c.maxPayloadBytes encoded ∧ view = ⟨fixedFields, encoded.drop 4⟩ := by
  rw [NestedValueContract.checkPayload, bind_ok]
  constructor
  · rintro ⟨n, hn, h⟩
    obtain ⟨hmaximum, h⟩ := guard_ok.1 h
    obtain ⟨payload, hpayload, h⟩ := bind_ok.1 h
    rw [malformed_ok_iff] at hpayload
    obtain ⟨m, hm, hfixed⟩ := bind_ok.1 hpayload
    obtain ⟨hshape, hdrop⟩ := guard_ok.1 hfixed
    obtain ⟨-, rfl⟩ := u32At_ok_iff.1 hm
    obtain rfl := pure_ok.1 hdrop
    exact ⟨⟨by omega, by omega, by omega⟩, (pure_ok.1 h).symm⟩
  · rintro ⟨⟨hlength, hmaximum, heq⟩, rfl⟩
    refine ⟨_, word_ok_iff.2 ⟨hlength, rfl⟩, guard_ok.2 ⟨by omega,
      bind_ok.2 ⟨_, malformed_ok_iff.2 ?_, rfl⟩⟩⟩
    exact bind_ok.2 ⟨_, u32At_ok_iff.2 ⟨hlength, rfl⟩, guard_ok.2 ⟨by omega, rfl⟩⟩

theorem fieldStart_zero : fieldStart widths 0 = 4 * (widths.length + 2) := by
  rw [fieldStart, take_zero, sum_nil, add_zero]

theorem fieldStart_succ (hk : k < widths.length) :
    fieldStart widths (k + 1) = fieldStart widths k + widths.getD k 0 := by
  rw [fieldStart, fieldStart, take_add_one, getElem?_eq_getElem hk, toList_some,
    sum_append, sum_singleton, getD_eq_getElem _ _ hk, add_assoc]

theorem fieldStart_mono (hjk : j ≤ k) (hk : k ≤ widths.length) :
    fieldStart widths j ≤ fieldStart widths k := by
  induction k, hjk using Nat.le_induction with
  | base => exact le_rfl
  | succ k hjk ih =>
    rw [fieldStart_succ (by omega)]
    exact (ih (by omega)).trans (Nat.le_add_right _ _)

theorem length_item {i : ℕ} (h : Ordered bytes count i) (hi : i ≤ j) (hj : j < count) :
    (item bytes count j).length = offset bytes count (j + 1) - offset bytes count j := by
  obtain ⟨hle, hend⟩ := h j hi hj
  exact Bytes.length_field (by omega)

/-- The offsets of a record with fields of the given widths. -/
theorem offset_eq_fieldStart (hheader : Header it (widths.length + 1))
    (hordered : Ordered it (widths.length + 1) 0)
    (hwidths : ∀ k, k < widths.length → (item it (widths.length + 1) k).length = widths.getD k 0)
    (hk : k ≤ widths.length) : offset it (widths.length + 1) k = fieldStart widths k := by
  induction k with
  | zero => rw [offset, if_pos (by omega), hheader.first, fieldStart_zero]
  | succ k ih =>
    have hlength := hwidths k (by omega)
    rw [length_item hordered (Nat.zero_le k) (by omega)] at hlength
    have hle := (hordered k (Nat.zero_le k) (by omega)).1
    rw [fieldStart_succ (by omega)]
    omega

theorem zip_widths_iff {fields : List (List UInt8)} (hlength : fields.length = widths.length) :
    (fields.zip widths).any (fun p ↦ p.1.length ≠ p.2) = false ↔
      ∀ k, k < widths.length → (fields.getD k []).length = widths.getD k 0 := by
  rw [any_eq_false]
  constructor
  · intro h k hk
    have hk' : k < fields.length := by omega
    have hmem : (fields[k], widths[k]) ∈ fields.zip widths := by
      rw [← getElem_zip (h := by rw [length_zip]; omega)]
      exact getElem_mem _
    have heq := h _ hmem
    rw [getD_eq_getElem _ _ hk', getD_eq_getElem _ _ hk]
    simpa using heq
  · intro h p hp
    obtain ⟨k, hk, rfl⟩ := mem_iff_getElem.1 hp
    rw [length_zip] at hk
    have heq := h k (by omega)
    rw [getD_eq_getElem _ _ (by omega), getD_eq_getElem _ _ (by omega)] at heq
    simpa [getElem_zip] using heq

theorem drop_eq_item : item it (count + 1) count = it.drop (offset it (count + 1) count) := by
  rw [item, offset, offset, if_pos (by omega), if_neg (by omega), field, take_of_length_le]
  rw [length_drop]

theorem RecordOk.offset_eq (h : RecordOk widths maximum it)
    (hk : k ≤ widths.length) : offset it (widths.length + 1) k = fieldStart widths k := by
  rw [offset, if_pos (by omega), ← h.starts k hk, mul_add, add_comm]

theorem recordOk_iff :
    RecordOk widths maximum it ↔ Header it (widths.length + 1) ∧ Ordered it (widths.length + 1) 0 ∧
      (∀ k, k < widths.length → (item it (widths.length + 1) k).length = widths.getD k 0) ∧
      PayloadOk maximum (item it (widths.length + 1) widths.length) := by
  constructor
  · intro h
    have hlength := h.le_length
    have hzero : fieldStart widths 0 ≤ fieldStart widths widths.length :=
      fieldStart_mono (Nat.zero_le _) (Nat.le_refl _)
    rw [fieldStart_zero] at hzero
    have hordered : Ordered it (widths.length + 1) 0 := by
      intro j _ hj
      rw [h.offset_eq (show j ≤ widths.length by omega)]
      rcases Nat.eq_or_lt_of_le (show j ≤ widths.length by omega) with rfl | hlt
      · rw [offset, if_neg (by omega)]
        omega
      · rw [h.offset_eq (show j + 1 ≤ widths.length from hlt)]
        have hle := fieldStart_mono (Nat.le_add_right j 1) hlt
        have hend : fieldStart widths (j + 1) ≤ fieldStart widths widths.length :=
          fieldStart_mono hlt (Nat.le_refl _)
        omega
    refine ⟨⟨by omega, h.total, ?_⟩, hordered, fun k hk ↦ ?_, ?_⟩
    · rw [← fieldStart_zero, ← h.starts 0 (Nat.zero_le _)]
    · rw [length_item hordered (Nat.zero_le k) (by omega), h.offset_eq hk.le, h.offset_eq hk,
        fieldStart_succ hk, Nat.add_sub_cancel_left]
    · rw [drop_eq_item, h.offset_eq (Nat.le_refl _)]
      exact h.payload
  · rintro ⟨hheader, hordered, hwidths, hpayload⟩
    have hoffset : ∀ k ≤ widths.length, offset it (widths.length + 1) k = fieldStart widths k :=
      fun k hk ↦ offset_eq_fieldStart hheader hordered hwidths hk
    rw [drop_eq_item, hoffset _ (Nat.le_refl _)] at hpayload
    refine ⟨?_, hheader.total, fun k hk ↦ ?_, hpayload⟩
    · have hle := hpayload.le_length
      rw [length_drop] at hle
      omega
    · rw [← hoffset k hk, offset, if_pos (by omega), Nat.mul_add, Nat.add_comm]

/-- The fields of a record, as the parser returns them. -/
theorem item_eq_field (h : RecordOk widths maximum it) (hk : k < widths.length) :
    item it (widths.length + 1) k = field (fieldStart widths k) (widths.getD k 0) it := by
  rw [item, h.offset_eq hk.le, h.offset_eq hk, fieldStart_succ hk, Nat.add_sub_cancel_left]

/-- **The decoder accepts an element of its shape.** -/
theorem checkElement_ok_iff : c.checkElement it = .ok view ↔
    ElementOk c.maxPayloadBytes c.element it ∧ view = viewOf c.element it := by
  rw [NestedValueContract.checkElement]
  cases c.element with
  | bytes => exact checkPayload_ok_iff
  | record widths =>
    have hviews : RecordOk widths c.maxPayloadBytes it →
        (List.range widths.length).map (item it (widths.length + 1)) =
          (List.range widths.length).map fun k ↦ field (fieldStart widths k) (widths.getD k 0) it :=
      fun h ↦ map_congr_left fun k hk ↦ item_eq_field h (mem_range.1 hk)
    have hlast : RecordOk widths c.maxPayloadBytes it →
        item it (widths.length + 1) widths.length = it.drop (fieldStart widths widths.length) :=
      fun h ↦ by rw [drop_eq_item, h.offset_eq le_rfl]
    have hgetD : ∀ k < widths.length,
        ((List.range widths.length).map (item it (widths.length + 1))).getD k [] =
          item it (widths.length + 1) k := by
      intro k hk
      rw [getD_eq_getElem _ _ (by rwa [length_map, length_range]), getElem_map, getElem_range]
    have hlength : ((List.range widths.length).map (item it (widths.length + 1))).length =
        widths.length := by rw [length_map, length_range]
    have hzip := zip_widths_iff hlength
    rw [bind_ok]
    simp only [malformed_ok_iff, fields_ok_iff (Nat.succ_pos _), range_succ,
      map_append, map_singleton]
    constructor
    · rintro ⟨fields, ⟨hheader, hordered, rfl⟩, h⟩
      rw [getLast?_concat, dropLast_concat] at h
      obtain ⟨hwidths, h⟩ := guard_ok.1 h
      rw [not_eq_true, hzip] at hwidths
      obtain ⟨hpayload, rfl⟩ := checkPayload_ok_iff.1 h
      have hrecord : RecordOk widths c.maxPayloadBytes it :=
        recordOk_iff.2 ⟨hheader, hordered, fun k hk ↦ hgetD k hk ▸ hwidths k hk, hpayload⟩
      exact ⟨hrecord, by rw [viewOf, hviews hrecord, hlast hrecord]⟩
    · rintro ⟨hrecord, rfl⟩
      obtain ⟨hheader, hordered, hwidths, hpayload⟩ := recordOk_iff.1 hrecord
      refine ⟨_, ⟨hheader, hordered, rfl⟩, ?_⟩
      rw [getLast?_concat, dropLast_concat]
      refine guard_ok.2 ⟨?_, checkPayload_ok_iff.2 ⟨hpayload, ?_⟩⟩
      · rw [not_eq_true, hzip]
        exact fun k hk ↦ (hgetD k hk).symm ▸ hwidths k hk
      · rw [viewOf, hviews hrecord, hlast hrecord]

end Elements

/-! ### Values -/

/-- The number of items of a value. -/
def countOf (bytes : List UInt8) : ℕ := if bytes.length = 4 then 0 else u32 bytes 4 / 4 - 1

/-- The head of a value: its length and the number of its items. -/
structure HeadOk (c : NestedValueContract) (bytes : List UInt8) : Prop where
  le_length : 4 ≤ bytes.length
  le_total : bytes.length ≤ c.maxTotalBytes
  total : u32 bytes 0 = bytes.length
  first : bytes.length ≠ 4 → 8 ≤ bytes.length ∧ 8 ≤ u32 bytes 4 ∧ u32 bytes 4 ≤ bytes.length ∧
    u32 bytes 4 % 4 = 0
  le_items : countOf bytes ≤ c.maxItems

/-- The values of a contract. -/
structure Accepts (c : NestedValueContract) (bytes : List UInt8) : Prop where
  head : HeadOk c bytes
  ordered : Ordered bytes (countOf bytes) 0
  elements : ∀ j < countOf bytes,
    ElementOk c.maxPayloadBytes c.element (item bytes (countOf bytes) j)

section Values

variable {c : NestedValueContract} {v : CheckedNestedValue}

theorem dynvecCount_ok_iff : dynvecCount bytes = .ok n ↔
    4 ≤ bytes.length ∧ u32 bytes 0 = bytes.length ∧
      (bytes.length ≠ 4 → 8 ≤ bytes.length ∧ 8 ≤ u32 bytes 4 ∧ u32 bytes 4 ≤ bytes.length ∧
        u32 bytes 4 % 4 = 0) ∧ n = countOf bytes := by
  rw [dynvecCount, bind_ok, countOf]
  constructor
  · rintro ⟨total, htotal, h⟩
    obtain ⟨hlength, rfl⟩ := word_ok_iff.1 htotal
    obtain ⟨hsame, h⟩ := guard_ok.1 h
    rw [not_not] at hsame
    split at h
    · next hfour =>
      rw [if_pos hfour]
      exact ⟨hlength, hsame, fun hne ↦ absurd hfour hne, (pure_ok.1 h).symm⟩
    · next hfour =>
      obtain ⟨first, hfirst, h⟩ := bind_ok.1 h
      obtain ⟨hroom, rfl⟩ := word_ok_iff.1 hfirst
      obtain ⟨hshape, h⟩ := guard_ok.1 h
      rw [if_neg hfour]
      exact ⟨hlength, hsame, fun _ ↦ ⟨by omega, by omega, by omega, by omega⟩, (pure_ok.1 h).symm⟩
  · rintro ⟨hlength, hsame, hfirst, rfl⟩
    refine ⟨_, word_ok_iff.2 ⟨hlength, rfl⟩, guard_ok.2 ⟨not_not.2 hsame, ?_⟩⟩
    split
    · rfl
    · next hfour =>
      obtain ⟨hroom, hle, hend, hmod⟩ := hfirst hfour
      exact bind_ok.2 ⟨_, word_ok_iff.2 ⟨hroom, rfl⟩, guard_ok.2 ⟨by omega, rfl⟩⟩

theorem HeadOk.header (h : HeadOk c bytes) (hne : bytes.length ≠ 4) :
    0 < countOf bytes ∧ Header bytes (countOf bytes) := by
  obtain ⟨hroom, hle, hend, hmod⟩ := h.first hne
  have hcount : 4 * (countOf bytes + 1) = u32 bytes 4 := by
    rw [countOf, if_neg hne]
    omega
  exact ⟨by omega, by omega, h.total, hcount.symm⟩

/-- The parser finds the items of a value whose head is right. -/
theorem dynamic_ok_iff {items : List (List UInt8)} (h : HeadOk c bytes) :
    dynamic bytes c.maxItems = .ok items ↔ Ordered bytes (countOf bytes) 0 ∧
      items = (List.range (countOf bytes)).map (item bytes (countOf bytes)) := by
  rw [dynamic]
  by_cases hfour : bytes.length = 4
  · have hempty : countOf bytes = 0 := if_pos hfour
    have htotal : u32At bytes 0 = .ok 4 := u32At_ok_iff.2 ⟨hfour.ge, h.total.trans hfour⟩
    rw [if_pos ⟨hfour, htotal⟩, hempty, pure_ok]
    exact ⟨fun heq ↦ ⟨fun j _ hj ↦ absurd hj (Nat.not_lt_zero j), heq.symm⟩,
      fun hitems ↦ hitems.2.symm⟩
  · obtain ⟨hroom, hle, hend, hmod⟩ := h.first hfour
    obtain ⟨hpos, hheader⟩ := h.header hfour
    have hfirst : u32At bytes 4 = .ok (u32 bytes 4) := u32At_ok_iff.2 ⟨hroom, rfl⟩
    have hcount : u32 bytes 4 / 4 - 1 = countOf bytes := by rw [countOf, if_neg hfour]
    have hitems := h.le_items
    rw [if_neg fun hboth ↦ hfour hboth.1, hfirst, ok_bind, guard_ok, hcount,
      guard_ok, fields_ok_iff hpos]
    exact ⟨fun hall ↦ hall.2.2.2, fun hall ↦ ⟨by omega, by omega, hheader, hall⟩⟩

/-- **The decoder accepts exactly the values of its contract.** -/
theorem check_ok_iff (hvalid : c.validate = .ok ()) :
    c.check bytes = .ok v ↔ Accepts c bytes ∧ v = ⟨bytes,
      (List.range (countOf bytes)).map fun j ↦
        viewOf c.element (item bytes (countOf bytes) j)⟩ := by
  have hmapM : ∀ elements, ((List.range (countOf bytes)).map (item bytes (countOf bytes))).mapM
      c.checkElement = .ok elements ↔
      (∀ j < countOf bytes, ElementOk c.maxPayloadBytes c.element (item bytes (countOf bytes) j)) ∧
        elements = (List.range (countOf bytes)).map fun j ↦
          viewOf c.element (item bytes (countOf bytes) j) := by
    intro elements
    rw [Except.mapM_ok_map_iff fun _ _ ↦ checkElement_ok_iff, map_map, forall_mem_map]
    simp only [mem_range, Function.comp_def]
  rw [NestedValueContract.check, hvalid, ok_bind, guard_ok]
  constructor
  · rintro ⟨htotal, h⟩
    obtain ⟨n, hn, h⟩ := bind_ok.1 h
    obtain ⟨hitems, h⟩ := guard_ok.1 h
    obtain ⟨items, hdynamic, h⟩ := bind_ok.1 h
    obtain ⟨elements, helements, h⟩ := bind_ok.1 h
    obtain ⟨hlength, hsame, hfirst, rfl⟩ := dynvecCount_ok_iff.1 hn
    have hhead : HeadOk c bytes := ⟨hlength, by omega, hsame, hfirst, by omega⟩
    obtain ⟨hordered, rfl⟩ := (dynamic_ok_iff hhead).1 (malformed_ok_iff.1 hdynamic)
    obtain ⟨hall, rfl⟩ := (hmapM elements).1 helements
    exact ⟨⟨hhead, hordered, hall⟩, (pure_ok.1 h).symm⟩
  · rintro ⟨⟨hhead, hordered, hall⟩, rfl⟩
    have htotal := hhead.le_total
    have hitems := hhead.le_items
    refine ⟨by omega, bind_ok.2 ⟨_, dynvecCount_ok_iff.2
      ⟨hhead.le_length, hhead.total, hhead.first, rfl⟩, guard_ok.2 ⟨by omega,
      bind_ok.2 ⟨_, malformed_ok_iff.2 ((dynamic_ok_iff hhead).2
        ⟨hordered, rfl⟩), bind_ok.2 ⟨_, (hmapM _).2 ⟨hall, rfl⟩, rfl⟩⟩⟩⟩⟩

end Values

end CellScript.Checker.Nested
