import CellScript.Library.Unique
import CellScript.PolicyWitness.Codec

/-!
# Canonical bundles

The abstract form of a bundle: its bytes are the table of its records, the keys of the records
increase, and the limits hold. The decoder accepts exactly the canonical bundles
(`decode_ok_iff`), and the encoder writes the canonical bundle of the sorted records
(`encode_ok_iff`), so the two are inverse to one another.
-/

namespace CellScript.PolicyWitness

open Bytes (le ofLe field)
open Checker Bytes Nested.Molecule List
open Checker.Nested (u32 u32_lt le_u32 offset item Ordered Header)
open Checker.Nested.Molecule (table tableHeader byteVector startOf)
open OpenHandlePolicy (Hash)

/-- Arguments are empty, or start with their magic number. -/
def ArgsOk (args : List UInt8) : Prop :=
  args = [] ∨ args.take entryArgsMagic.length = entryArgsMagic

/-- A record as a table of its fields. -/
def recordBytes (r : PolicyWitnessRecord) : List UInt8 :=
  table [[r.role.asByte], r.scriptHash.bytes, le 4 r.tag.toNat, byteVector r.args]

/-- The vector of some records, as it should be. -/
structure CanonicalVector (records : List PolicyWitnessRecord) (v : List UInt8) : Prop where
  bytes : v = table (records.map recordBytes)
  pos : 1 ≤ records.length
  le_records : records.length ≤ maxPolicyWitnessRecords
  args : ∀ r ∈ records, ArgsOk r.args
  sorted : records.Pairwise fun a b ↦ a.key < b.key

/-- **Bundles as they should be.** -/
structure Canonical (records : List PolicyWitnessRecord) (bundle : List UInt8) : Prop where
  magic : bundle.take policyWitnessMagic.length = policyWitnessMagic
  le_bytes : bundle.length ≤ maxPolicyWitnessBundleBytes
  vector : CanonicalVector records (bundle.drop policyWitnessMagic.length)

/-! ### The checks -/

variable {n : ℕ} {role : PolicyScriptRole}

section Checks

variable {bytes args : List UInt8} {k : ℕ} {u : Unit}

theorem readU32_ok_iff : readU32 bytes k = .ok n ↔ k + 4 ≤ bytes.length ∧ u32 bytes k = n :=
  ite_ok_iff

theorem validateArgs_ok_iff : validateArgs args = .ok u ↔ ArgsOk args := by
  rw [validateArgs, ArgsOk]
  split
  · next h => exact ⟨fun heq ↦ (nomatch heq), fun hok ↦ absurd hok (not_or.2 h)⟩
  · next h => exact ⟨fun _ ↦ by rwa [← not_not (a := _ ∨ _), not_or], fun _ ↦ rfl⟩

theorem validateRecordCount_ok_iff :
    validateRecordCount n = .ok u ↔ 1 ≤ n ∧ n ≤ maxPolicyWitnessRecords := by
  rw [validateRecordCount]
  split
  · next h => exact ⟨fun heq ↦ (nomatch heq), fun hok ↦ absurd hok h⟩
  · next h => exact ⟨fun _ ↦ not_not.1 h, fun _ ↦ rfl⟩

theorem fromByte_ok_iff {value : UInt8} :
    PolicyScriptRole.fromByte value = .ok role ↔ role.asByte = value := by
  rw [PolicyScriptRole.fromByte]
  split
  · next h =>
    subst h
    cases role <;> decide
  · next hzero =>
    split
    · next h =>
      subst h
      cases role <;> decide
    · next hone =>
      refine ⟨fun heq ↦ (nomatch heq), fun heq ↦ ?_⟩
      cases role with
      | lock => exact absurd heq.symm hzero
      | type => exact absurd heq.symm hone

/-- The words from an index on have the given values. -/
def OffsetsAre (bytes : List UInt8) : ℕ → List ℕ → Prop
  | _, [] => True
  | index, expected :: rest =>
    u32 bytes (4 * (index + 1)) = expected ∧ OffsetsAre bytes (index + 1) rest

theorem offsetsAre_record_iff : OffsetsAre bytes 0 [20, 21, 53, 57] ↔
    u32 bytes 4 = 20 ∧ u32 bytes 8 = 21 ∧ u32 bytes 12 = 53 ∧ u32 bytes 16 = 57 := by
  simp only [OffsetsAre, and_true, zero_add, Nat.reduceAdd, Nat.reduceMul, mul_one]

theorem checkOffsets_ok_iff {expected : List ℕ} {index : ℕ}
    (hroom : 4 * (index + expected.length) + 4 ≤ bytes.length) :
    checkOffsets bytes index expected = .ok u ↔ OffsetsAre bytes index expected := by
  induction expected generalizing index with
  | nil => exact ⟨fun _ ↦ trivial, fun _ ↦ rfl⟩
  | cons first rest ih =>
    rw [length_cons] at hroom
    have hread : readU32 bytes (4 * (index + 1)) = .ok (u32 bytes (4 * (index + 1))) :=
      readU32_ok_iff.2 ⟨by omega, rfl⟩
    rw [checkOffsets, hread, ok_bind, guard_ok, not_not, ih (by omega), OffsetsAre]

end Checks

/-! ### Keys -/

theorem map_toNat_lt_map_toNat {xs ys : List UInt8} :
    xs.map UInt8.toNat < ys.map UInt8.toNat ↔ xs < ys := by
  induction xs generalizing ys with
  | nil =>
    cases ys with
    | nil => simp
    | cons y ys => simp
  | cons x xs ih =>
    cases ys with
    | nil => simp
    | cons y ys =>
      rw [map_cons, map_cons, cons_lt_cons_iff, cons_lt_cons_iff, ih,
        UInt8.lt_iff_toNat_lt, UInt8.toNat_inj]

variable {a b : PolicyWitnessRecord}

/-- Keys compare by the byte of the role, and then by the bytes of the hash. -/
theorem key_lt_iff : a.key < b.key ↔ a.role.asByte < b.role.asByte ∨
    a.role.asByte = b.role.asByte ∧ a.scriptHash.bytes < b.scriptHash.bytes := by
  rw [PolicyWitnessRecord.key, PolicyWitnessRecord.key, Prod.Lex.toLex_lt_toLex]
  refine or_congr UInt8.lt_iff_toNat_lt.symm (and_congr ?_ map_toNat_lt_map_toNat)
  exact PolicyScriptRole.asByte_injective.eq_iff.symm

/-- The key of a record, as it stands in the record. -/
def keyBytes (r : PolicyWitnessRecord) : List UInt8 := r.role.asByte :: r.scriptHash.bytes

theorem keyBytes_lt_iff : keyBytes a < keyBytes b ↔ a.key < b.key := by
  rw [key_lt_iff, keyBytes, keyBytes, cons_lt_cons_iff]

/-! ### Records -/

/-- What the decoder and the emitted scanner check of a record. -/
structure WellFormed (it : List UInt8) : Prop where
  le_length : recordFixedBytes ≤ it.length
  total : u32 it 0 = it.length
  offsets : u32 it 4 = 20 ∧ u32 it 8 = 21 ∧ u32 it 12 = 53 ∧ u32 it 16 = 57
  length_args : u32 it 57 = it.length - recordFixedBytes
  role : it.getD 20 0 = 0 ∨ it.getD 20 0 = 1
  args : ArgsOk (it.drop recordFixedBytes)

/-- The record in some bytes. -/
def recordAt (it : List UInt8) : PolicyWitnessRecord where
  role := if it.getD 20 0 = 0 then .lock else .type
  scriptHash := Hash.ofBytes (field 21 32 it)
  tag := UInt32.ofNat (u32 it 53)
  args := it.drop recordFixedBytes

section Records

variable {it : List UInt8} {r : PolicyWitnessRecord}

/-- **The decoder accepts the well-formed records.** -/
theorem decodeRecord_ok_iff : decodeRecord it = .ok r ↔ WellFormed it ∧ r = recordAt it := by
  have hoffsets : ∀ {u : Unit}, recordFixedBytes ≤ it.length →
      (checkOffsets it 0 [recordHeaderBytes, 21, 53, 57] = .ok u ↔
        u32 it 4 = 20 ∧ u32 it 8 = 21 ∧ u32 it 12 = 53 ∧ u32 it 16 = 57) := by
    intro u hlength
    have hlong : 61 ≤ it.length := hlength
    rw [← offsetsAre_record_iff]
    exact checkOffsets_ok_iff (by simp only [length_cons, length_nil]; omega)
  rw [decodeRecord, guard_ok, not_lt]
  constructor
  · rintro ⟨hlength, h⟩
    obtain ⟨total, htotal, h⟩ := bind_ok.1 h
    obtain ⟨hsame, h⟩ := guard_ok.1 h
    obtain ⟨hchecked, h⟩ := check_ok.1 h
    obtain ⟨role, hrole, h⟩ := bind_ok.1 h
    obtain ⟨size, hsize, h⟩ := bind_ok.1 h
    obtain ⟨hargs, h⟩ := guard_ok.1 h
    obtain ⟨hmagic, h⟩ := check_ok.1 h
    obtain rfl := pure_ok.1 h
    rw [not_not] at hsame hargs
    have hbyte := fromByte_ok_iff.1 hrole
    refine ⟨⟨hlength, (readU32_ok_iff.1 htotal).2.trans hsame, (hoffsets hlength).1 hchecked,
      (readU32_ok_iff.1 hsize).2.trans hargs, ?_, validateArgs_ok_iff.1 hmagic⟩, ?_⟩
    · rw [← hbyte]
      cases role <;> decide
    · rw [recordAt, ← hbyte]
      cases role <;> rfl
  · rintro ⟨⟨hlength, htotal, hchecked, hargs, hrole, hmagic⟩, rfl⟩
    have hlong : 61 ≤ it.length := hlength
    have hzero : readU32 it 0 = .ok it.length := readU32_ok_iff.2 ⟨by omega, htotal⟩
    have hsize : readU32 it 57 = .ok (it.length - recordFixedBytes) :=
      readU32_ok_iff.2 ⟨hlong, hargs⟩
    have hbyte : PolicyScriptRole.fromByte (it.getD 20 0) = .ok (recordAt it).role := by
      rw [recordAt]
      rcases hrole with h | h <;> rw [h] <;> rfl
    refine ⟨hlength, ?_⟩
    rw [hzero, ok_bind, if_neg (not_not.2 rfl), (hoffsets (u := ()) hlength).2 hchecked,
      ok_bind, hbyte, ok_bind, hsize, ok_bind, if_neg (not_not.2 rfl)]
    exact check_ok.2 ⟨validateArgs_ok_iff.2 hmagic, rfl⟩

/-- The parts of a record, one after the other. -/
def recordParts (r : PolicyWitnessRecord) : List (List UInt8) :=
  [le 4 (recordFixedBytes + r.args.length), le 4 20, le 4 21, le 4 53, le 4 57, [r.role.asByte],
    r.scriptHash.bytes, le 4 r.tag.toNat, le 4 r.args.length, r.args]

theorem recordBytes_eq (r : PolicyWitnessRecord) : recordBytes r = (recordParts r).flatten := by
  have htotal : 20 + (32 + (4 + (4 + r.args.length)) + 1) = recordFixedBytes + r.args.length := by
    rw [recordFixedBytes]
    omega
  simp [recordBytes, recordParts, table, tableHeader, startOf, byteVector, range_succ, htotal]

/-- The encoder writes the table of a record. -/
theorem writeRecord_eq (r : PolicyWitnessRecord) : writeRecord r = recordBytes r := by
  rw [recordBytes_eq]
  simp [writeRecord, recordParts, recordHeaderBytes]

theorem length_recordBytes (r : PolicyWitnessRecord) :
    (recordBytes r).length = recordFixedBytes + r.args.length := by
  rw [recordBytes_eq]
  simp [recordParts, recordFixedBytes]
  omega

theorem WellFormed.asByte_role (h : WellFormed it) : (recordAt it).role.asByte = it.getD 20 0 := by
  rw [recordAt]
  rcases h.role with hbyte | hbyte <;> rw [hbyte] <;> rfl

theorem WellFormed.bytes_scriptHash (h : WellFormed it) :
    (recordAt it).scriptHash.bytes = field 21 32 it := by
  have hlong : 61 ≤ it.length := h.le_length
  exact Hash.bytes_ofBytes (length_field (by omega))

/-- The key stands in the record behind its offsets. -/
theorem WellFormed.field_key (h : WellFormed it) : field 20 33 it = keyBytes (recordAt it) := by
  have hlong : 61 ≤ it.length := h.le_length
  rw [keyBytes, h.asByte_role, h.bytes_scriptHash, field, drop_eq_getElem_cons (by omega),
    getD_eq_getElem _ _ (by omega)]
  rfl

/-- **A well-formed record is the table of its fields.** -/
theorem WellFormed.eq_recordBytes (h : WellFormed it) : it = recordBytes (recordAt it) := by
  have hlong : 61 ≤ it.length := h.le_length
  have hargs : (it.drop 61).length = it.length - 61 := length_drop
  have hrole : [(recordAt it).role.asByte] = field 20 1 it := by
    rw [field_one (d := 0) (by omega), h.asByte_role]
  have hhash := h.bytes_scriptHash
  have htag : le 4 (recordAt it).tag.toNat = field 53 4 it := by
    rw [recordAt, UInt32.toNat_ofNat_of_lt' (u32_lt it 53), le_u32 (by omega)]
  have htotal : le 4 (recordFixedBytes + (recordAt it).args.length) = field 0 4 it := by
    rw [← le_u32 (by omega), h.total, recordAt, recordFixedBytes, hargs]
    exact congrArg _ (by omega)
  have hsize : le 4 (recordAt it).args.length = field 57 4 it := by
    rw [← le_u32 (by omega), h.length_args, recordAt, recordFixedBytes, hargs]
  have hoffset : ∀ {k n : ℕ}, k + 4 ≤ 61 → u32 it k = n → le 4 n = field k 4 it := by
    rintro k _ hk rfl
    exact le_u32 (by omega)
  obtain ⟨h₀, h₁, h₂, h₃⟩ := h.offsets
  rw [recordBytes_eq, recordParts, hrole, hhash, htag, htotal, hsize, hoffset (by decide) h₀,
    hoffset (by decide) h₁, hoffset (by decide) h₂, hoffset (by decide) h₃]
  -- the fields follow one another without gaps
  conv_lhs => rw [← drop_zero (l := it), drop_eq_field_append it 0 4, drop_eq_field_append it 4 4,
    drop_eq_field_append it 8 4, drop_eq_field_append it 12 4, drop_eq_field_append it 16 4,
    drop_eq_field_append it 20 1, drop_eq_field_append it 21 32, drop_eq_field_append it 53 4,
    drop_eq_field_append it 57 4]
  simp only [flatten_cons, flatten_nil, append_nil]
  rfl

/-- The record in the table of a record. -/
theorem wellFormed_recordBytes (hsize : (recordBytes r).length < 2 ^ 32) (hargs : ArgsOk r.args) :
    WellFormed (recordBytes r) ∧ recordAt (recordBytes r) = r := by
  rw [length_recordBytes] at hsize
  have hlen : r.scriptHash.bytes.length = 32 := r.scriptHash.length_bytes
  have hword : ∀ {i k n : ℕ}, (recordParts r)[i]? = some (le 4 n) →
      ((recordParts r).take i).flatten.length = k → n < 2 ^ 32 → u32 (recordBytes r) k = n := by
    intro i k n hi hk hn
    rw [u32, recordBytes_eq, field_flatten hi hk (length_le 4 n), ofLe_le_of_lt hn]
  have hrole : (recordBytes r).getD 20 0 = r.role.asByte := by
    refine getD_of_field ?_
    rw [recordBytes_eq]
    exact field_flatten (k := 5) rfl (by simp [recordParts]) rfl
  have hdrop : (recordBytes r).drop recordFixedBytes = r.args := by
    rw [recordBytes_eq, drop_flatten (k := 9) (by simp [recordParts, recordFixedBytes])]
    exact append_nil _
  have hhash : Hash.ofBytes (field 21 32 (recordBytes r)) = r.scriptHash := by
    rw [recordBytes_eq, field_flatten (k := 6) rfl (by simp [recordParts]) hlen, Hash.ofBytes_bytes]
  have htag : u32 (recordBytes r) 53 = r.tag.toNat :=
    hword (i := 7) rfl (by simp [recordParts]) r.tag.toNat_lt
  refine ⟨⟨by rw [length_recordBytes]; exact Nat.le_add_right _ _, ?_, ⟨?_, ?_, ?_, ?_⟩, ?_, ?_,
    ?_⟩, ?_⟩
  · rw [length_recordBytes]
    exact hword (i := 0) rfl rfl (by rwa [recordFixedBytes])
  · exact hword (i := 1) rfl (by simp [recordParts]) (by decide)
  · exact hword (i := 2) rfl (by simp [recordParts]) (by decide)
  · exact hword (i := 3) rfl (by simp [recordParts]) (by decide)
  · exact hword (i := 4) rfl (by simp [recordParts]) (by decide)
  · rw [length_recordBytes, Nat.add_sub_cancel_left]
    exact hword (i := 8) rfl (by simp [recordParts]) (by omega)
  · rw [hrole]
    cases r.role <;> decide
  · rwa [hdrop]
  · rw [recordAt, hdrop, hhash, htag, UInt32.ofNat_toNat]
    cases r with
    | mk role hash tag args => cases role <;> rfl

/-- **The well-formed records are the tables of records**, whose size fits into four bytes. -/
theorem decodeRecord_ok_iff_recordBytes : decodeRecord it = .ok r ↔
    it = recordBytes r ∧ it.length < 2 ^ 32 ∧ ArgsOk r.args := by
  rw [decodeRecord_ok_iff]
  constructor
  · rintro ⟨h, rfl⟩
    exact ⟨h.eq_recordBytes, h.total ▸ u32_lt it 0, h.args⟩
  · rintro ⟨rfl, hsize, hargs⟩
    obtain ⟨h, hat⟩ := wellFormed_recordBytes hsize hargs
    exact ⟨h, hat.symm⟩

end Records

/-! ### The loop over the records -/

variable {v : List UInt8} {r : PolicyWitnessRecord}

section Loop

variable {first count i remaining : ℕ} {previous : Option PolicyWitnessRecord}
  {records : List PolicyWitnessRecord}

/-- What the decoder and the emitted scanner check of the place of a record. -/
structure InRange (v : List UInt8) (first count i : ℕ) : Prop where
  first_le : first ≤ offset v count i
  nonempty : offset v count i < offset v count (i + 1)
  le_length : offset v count (i + 1) ≤ v.length

/-- The records from an index on, behind the record before them. -/
def Reads (v : List UInt8) (first count : ℕ) :
    ℕ → ℕ → Option PolicyWitnessRecord → List PolicyWitnessRecord → Prop
  | 0, _, _, records => records = []
  | remaining + 1, i, previous, records => ∃ r rest, records = r :: rest ∧ InRange v first count i ∧
      decodeRecord (item v count i) = .ok r ∧ (∀ p ∈ previous, p.key < r.key) ∧
      Reads v first count remaining (i + 1) (some r) rest

theorem checkOrder_ok_iff
    {u : Unit} : checkOrder previous r = .ok u ↔ ∀ p ∈ previous, p.key < r.key := by
  cases previous with
  | none => exact ⟨fun _ p hp ↦ (nomatch hp), fun _ ↦ rfl⟩
  | some p =>
    simp only [checkOrder, Option.mem_some_iff, forall_eq']
    split
    · next h => exact ⟨fun heq ↦ (nomatch heq), fun hlt ↦ absurd (compare_eq_iff_eq.1 h) hlt.ne⟩
    · next h => exact ⟨fun heq ↦ (nomatch heq), fun hlt ↦ absurd (compare_gt_iff_gt.1 h) hlt.not_gt⟩
    · next h => exact ⟨fun _ ↦ compare_lt_iff_lt.1 h, fun _ ↦ rfl⟩

theorem decodeFrom_ok_iff {acc : List PolicyWitnessRecord} (hroom : 4 * (count + 1) ≤ v.length)
    (hcount : i + remaining = count) :
    decodeFrom v first count remaining i acc = .ok records ↔
      ∃ rest, records = acc ++ rest ∧ Reads v first count remaining i acc.getLast? rest := by
  induction remaining generalizing i acc with
  | zero =>
    rw [decodeFrom]
    constructor
    · intro h
      exact ⟨[], by rw [append_nil, ok.inj h], rfl⟩
    · rintro ⟨rest, rfl, rfl⟩
      rw [append_nil]
  | succ remaining ih =>
    have hstart : readU32 v (4 * (i + 1)) = .ok (offset v count i) := by
      refine readU32_ok_iff.2 ⟨by omega, ?_⟩
      rw [offset, if_pos (by omega), mul_add, add_comm]
    have hstop : endOf v count i = .ok (offset v count (i + 1)) := by
      rw [endOf, offset]
      split
      · next hlast => rw [if_neg (by omega)]
      · next hlast =>
        rw [if_pos (by omega)]
        exact readU32_ok_iff.2 ⟨by omega, congrArg _ (by omega)⟩
    rw [decodeFrom, hstart, ok_bind, hstop, ok_bind, guard_ok]
    constructor
    · rintro ⟨hrange, h⟩
      obtain ⟨r, hr, h⟩ := bind_ok.1 h
      obtain ⟨horder, h⟩ := check_ok.1 h
      obtain ⟨rest, rfl, hrest⟩ := (ih (by omega)).1 h
      rw [getLast?_concat] at hrest
      refine ⟨r :: rest, by rw [append_assoc, singleton_append], r, rest, rfl,
        ⟨by omega, by omega, by omega⟩, hr, checkOrder_ok_iff.1 horder, hrest⟩
    · rintro ⟨_, rfl, r, rest, rfl, hrange, hr, horder, hrest⟩
      have hfirst := hrange.first_le
      have hlt := hrange.nonempty
      have hle := hrange.le_length
      refine ⟨by omega, bind_ok.2 ⟨r, hr, check_ok.2
        ⟨checkOrder_ok_iff.2 horder, (ih (by omega)).2 ⟨rest, ?_, ?_⟩⟩⟩⟩
      · rw [append_assoc, singleton_append]
      · rwa [getLast?_concat]

/-- The records that are read, one at a time. -/
theorem reads_iff :
    Reads v first count remaining i previous records ↔ records.length = remaining ∧
      (∀ j (hj : j < records.length), InRange v first count (i + j) ∧
        decodeRecord (item v count (i + j)) = .ok records[j]) ∧
      (previous.toList ++ records).IsChain fun a b ↦ a.key < b.key := by
  induction remaining generalizing i previous records with
  | zero =>
    rw [length_eq_zero_iff]
    constructor
    · rintro rfl
      refine ⟨rfl, fun j hj ↦ absurd hj (Nat.not_lt_zero j), ?_⟩
      cases previous with
      | none => exact isChain_nil
      | some p => exact isChain_singleton p
    · exact fun h ↦ h.1
  | succ remaining ih =>
    have hchain : ∀ (r : PolicyWitnessRecord) (rest : List PolicyWitnessRecord),
        (previous.toList ++ r :: rest).IsChain (fun a b ↦ a.key < b.key) ↔
          (∀ p ∈ previous, p.key < r.key) ∧ (r :: rest).IsChain fun a b ↦ a.key < b.key := by
      intro r rest
      cases previous with
      | none => simp
      | some p => simp
    constructor
    · rintro ⟨r, rest, rfl, hrange, hr, horder, hrest⟩
      obtain ⟨hlength, hall, hsorted⟩ := ih.1 hrest
      refine ⟨congrArg (· + 1) hlength, fun j hj ↦ ?_, (hchain r rest).2 ⟨horder, hsorted⟩⟩
      cases j with
      | zero => exact ⟨hrange, hr⟩
      | succ j =>
        have hnext := hall j (Nat.lt_of_succ_lt_succ hj)
        rwa [add_right_comm i 1 j] at hnext
    · rintro ⟨hlength, hall, hsorted⟩
      obtain ⟨r, rest, rfl⟩ := exists_cons_of_length_eq_add_one hlength
      obtain ⟨horder, hsorted⟩ := (hchain r rest).1 hsorted
      refine ⟨r, rest, rfl, (hall 0 (Nat.zero_lt_succ _)).1, (hall 0 (Nat.zero_lt_succ _)).2,
        horder, ih.2 ⟨Nat.succ.inj hlength, fun j hj ↦ ?_, hsorted⟩⟩
      have hnext := hall (j + 1) (Nat.succ_lt_succ hj)
      rwa [← add_assoc, add_right_comm] at hnext

end Loop

/-! ### Bundles -/

/-- The number of records that the first offset stands for. -/
def countOf (v : List UInt8) : ℕ := u32 v 4 / 4 - 1

/-- What the decoder checks of a vector before its records. -/
structure Headed (v : List UInt8) : Prop where
  room : 8 ≤ v.length
  total : u32 v 0 = v.length
  le_first : 8 ≤ u32 v 4
  aligned : u32 v 4 % 4 = 0
  first_le : u32 v 4 ≤ v.length
  le_records : countOf v ≤ maxPolicyWitnessRecords

variable {bundle : List UInt8} {records : List PolicyWitnessRecord}

section Bundles

theorem Headed.first_eq (h : Headed v) : u32 v 4 = 4 * (countOf v + 1) := by
  have hle := h.le_first
  have hmod := h.aligned
  rw [countOf]
  omega

theorem Headed.header (h : Headed v) : Header v (countOf v) :=
  ⟨h.first_eq ▸ h.first_le, h.total, h.first_eq⟩

theorem Headed.pos (h : Headed v) : 0 < countOf v := by
  have hfirst := h.first_eq
  have hle := h.le_first
  omega

/-- **The decoder reads the records of a vector with a right head.** -/
theorem decodeVector_ok_iff : decodeVector v = .ok records ↔
    Headed v ∧ Reads v (u32 v 4) (countOf v) (countOf v) 0 none records := by
  have hloop : Headed v → (decodeFrom v (u32 v 4) (countOf v) (countOf v) 0 [] = .ok records ↔
      Reads v (u32 v 4) (countOf v) (countOf v) 0 none records) := by
    intro h
    rw [decodeFrom_ok_iff h.header.le_length (zero_add _)]
    simp
  rw [decodeVector]
  constructor
  · intro h
    obtain ⟨total, htotal, h⟩ := bind_ok.1 h
    obtain ⟨hsame, h⟩ := guard_ok.1 h
    obtain ⟨hfour, h⟩ := guard_ok.1 h
    obtain ⟨first, hfirst, h⟩ := bind_ok.1 h
    obtain ⟨hshape, h⟩ := guard_ok.1 h
    obtain ⟨hcount, h⟩ := check_ok.1 h
    rw [not_not] at hsame
    obtain ⟨hroom, rfl⟩ := readU32_ok_iff.1 hfirst
    have hhead : Headed v := ⟨hroom, (readU32_ok_iff.1 htotal).2.trans hsame,
      by omega, by omega, by omega, (validateRecordCount_ok_iff.1 hcount).2⟩
    exact ⟨hhead, (hloop hhead).1 h⟩
  · rintro ⟨hhead, hreads⟩
    have hroom := hhead.room
    have hle := hhead.le_first
    have hmod := hhead.aligned
    have hend := hhead.first_le
    have htotal : readU32 v 0 = .ok v.length := readU32_ok_iff.2 ⟨by omega, hhead.total⟩
    have hfirst : readU32 v 4 = .ok (u32 v 4) := readU32_ok_iff.2 ⟨hroom, rfl⟩
    rw [htotal, ok_bind, if_neg (not_not.2 rfl), if_neg (by omega), hfirst, ok_bind,
      if_neg (by omega)]
    exact check_ok.2 ⟨validateRecordCount_ok_iff.2
      ⟨hhead.pos, hhead.le_records⟩, (hloop hhead).2 hreads⟩

theorem decode_ok_iff_vector : decodePolicyWitnessBundle bundle = .ok records ↔
    bundle.length ≤ maxPolicyWitnessBundleBytes ∧
      bundle.take policyWitnessMagic.length = policyWitnessMagic ∧
      decodeVector (bundle.drop policyWitnessMagic.length) = .ok records := by
  rw [decodePolicyWitnessBundle, guard_ok, not_lt, guard_ok, not_not]

/-- **The decoder accepts exactly the canonical vectors.** -/
theorem decodeVector_ok_iff_canonical (hsize : v.length < 2 ^ 32) :
    decodeVector v = .ok records ↔ CanonicalVector records v := by
  rw [decodeVector_ok_iff, reads_iff]
  constructor
  · rintro ⟨hhead, hlength, hall, hsorted⟩
    have hordered : Ordered v (countOf v) 0 := by
      intro j _ hj
      have hrange := (hall j (by omega)).1
      rw [Nat.zero_add] at hrange
      exact ⟨hrange.nonempty.le, hrange.le_length⟩
    have hitems : (List.range (countOf v)).map (item v (countOf v)) = records.map recordBytes := by
      refine ext_getElem (by simp [hlength]) fun j hj hj' ↦ ?_
      rw [length_map] at hj'
      have hr := (hall j hj').2
      rw [Nat.zero_add] at hr
      rw [getElem_map, getElem_range, getElem_map]
      exact (decodeRecord_ok_iff_recordBytes.1 hr).1
    obtain ⟨-, htable, -⟩ := (fields_ok_iff_table hhead.pos).1
      ((fields_ok_iff hhead.pos).2 ⟨hhead.header, hordered, rfl⟩)
    rw [hitems] at htable
    refine ⟨htable, hlength ▸ hhead.pos, hlength ▸ hhead.le_records, fun r hr ↦ ?_,
      isChain_iff_pairwise.1 (by simpa using hsorted)⟩
    obtain ⟨j, hj, rfl⟩ := mem_iff_getElem.1 hr
    exact (decodeRecord_ok_iff_recordBytes.1 (hall j hj).2).2.2
  · rintro ⟨hbytes, hpos, hle, hargs, hsorted⟩
    have hlength : (records.map recordBytes).length = records.length := length_map _
    have hfields := (fields_ok_iff_table hpos).2 ⟨hlength, hbytes, hsize⟩
    obtain ⟨hheader, hordered, hitems⟩ := (fields_ok_iff hpos).1 hfields
    have hcount : countOf v = records.length := by
      rw [countOf, hheader.first]
      omega
    have hoffset : ∀ j ≤ records.length, offset v records.length j =
        startOf (records.map recordBytes) j := by
      intro j hj
      rw [hbytes] at hsize ⊢
      have := offset_table hsize (i := j) (by rwa [hlength])
      rwa [hlength] at this
    have hroom := hheader.le_length
    have hfirst := hheader.first
    have hhead : Headed v := ⟨by omega, hheader.total, by omega, by omega, by omega, by omega⟩
    rw [hcount]
    refine ⟨hhead, rfl, fun j hj ↦ ?_, isChain_iff_pairwise.2 (by simpa using hsorted)⟩
    have hitem : item v records.length j = recordBytes records[j] := by
      have := congrArg (·[j]?) hitems
      simpa [hj] using this.symm
    rw [Nat.zero_add, hitem]
    have hlt : (recordBytes records[j]).length < 2 ^ 32 := by
      have hend := (hordered j (Nat.zero_le j) hj).2
      rw [← hitem, Checker.Nested.length_item hordered (Nat.zero_le j) hj]
      omega
    refine ⟨⟨?_, ?_, (hordered j (Nat.zero_le j) hj).2⟩,
      decodeRecord_ok_iff_recordBytes.2 ⟨rfl, hlt, hargs _ (getElem_mem hj)⟩⟩
    · rw [hoffset j hj.le, hfirst, startOf, hlength]
      exact Nat.le_add_right _ _
    · rw [hoffset j hj.le, hoffset (j + 1) hj,
        startOf_succ (by rwa [hlength]), getElem_map, length_recordBytes,
        recordFixedBytes]
      omega

/-- **The decoder accepts exactly the canonical bundles.** -/
theorem decode_ok_iff :
    decodePolicyWitnessBundle bundle = .ok records ↔ Canonical records bundle := by
  have hvector : bundle.length ≤ maxPolicyWitnessBundleBytes →
      (decodeVector (bundle.drop policyWitnessMagic.length) = .ok records ↔
        CanonicalVector records (bundle.drop policyWitnessMagic.length)) := by
    intro hsize
    refine decodeVector_ok_iff_canonical (lt_of_le_of_lt ?_ (show 4076 < 2 ^ 32 by decide))
    rw [length_drop]
    exact (Nat.sub_le _ _).trans hsize
  rw [decode_ok_iff_vector]
  constructor
  · rintro ⟨hsize, hmagic, h⟩
    exact ⟨hmagic, hsize, (hvector hsize).1 h⟩
  · rintro ⟨hmagic, hsize, h⟩
    exact ⟨hsize, hmagic, (hvector hsize).2 h⟩

end Bundles

/-! ### Encoding -/

section Encoding

variable {total : ℕ}

theorem any_zip_tail_eq_false_iff {α : Type*} {p : α × α → Bool} {l : List α} :
    (l.zip l.tail).any p = false ↔ l.IsChain fun a b ↦ p (a, b) = false := by
  induction l with
  | nil => simp
  | cons a l ih =>
    cases l with
    | nil => simp
    | cons b l =>
      rw [tail_cons, zip_cons_cons, any_cons, Bool.or_eq_false_iff, isChain_cons_cons]
      exact and_congr_right fun _ ↦ ih

/-- Sorted records without equal neighbours are strictly ordered. -/
theorem strictly_ordered_iff : ((ordered records).zip (ordered records).tail).any
      (fun pair ↦ pair.1.key = pair.2.key) = false ↔
    (ordered records).Pairwise fun a b ↦ a.key < b.key := by
  have hsorted : (ordered records).Pairwise fun a b ↦ a.key ≤ b.key := pairwise_insertionSort _ _
  rw [any_zip_tail_eq_false_iff, ← isChain_iff_pairwise]
  constructor
  · intro h
    have hle := isChain_iff_getElem.1 (isChain_iff_pairwise.2 hsorted)
    refine isChain_iff_getElem.2 fun i hi ↦ lt_of_le_of_ne (hle i hi) ?_
    exact of_decide_eq_false (isChain_iff_getElem.1 h i hi)
  · exact fun h ↦ h.imp fun a b hab ↦ decide_eq_false hab.ne

theorem totalBytes_ok_iff : totalBytes total records = .ok n ↔
    (∀ r ∈ records, ArgsOk r.args) ∧ n = total + (records.map recordBytes).flatten.length ∧
      (records ≠ [] → n ≤ maxPolicyWitnessBundleBytes) := by
  induction records generalizing total with
  | nil =>
    constructor
    · intro h
      exact ⟨nofun, (ok.inj h).symm, fun hne ↦ absurd rfl hne⟩
    · rintro ⟨-, rfl, -⟩
      rfl
  | cons r records ih =>
    have hlength : total + ((r :: records).map recordBytes).flatten.length =
        total + recordFixedBytes + r.args.length + (records.map recordBytes).flatten.length := by
      rw [map_cons, flatten_cons, length_append, length_recordBytes]
      omega
    rw [totalBytes, check_ok, validateArgs_ok_iff, guard_ok, ih, hlength, forall_mem_cons]
    constructor
    · rintro ⟨hargs, hsize, hrest, rfl, hle⟩
      refine ⟨⟨hargs, hrest⟩, rfl, fun _ ↦ ?_⟩
      cases records with
      | nil => simpa using hsize
      | cons r' records => exact hle (cons_ne_nil _ _)
    · rintro ⟨⟨hargs, hrest⟩, rfl, hle⟩
      have hbound := hle (cons_ne_nil _ _)
      exact ⟨hargs, by omega, hrest, rfl, fun _ ↦ hbound⟩

theorem writeOffsets_eq (start : ℕ) (records : List PolicyWitnessRecord) :
    writeOffsets start records = ((List.range records.length).map fun i ↦
      le 4 (start + ((records.map recordBytes).take i).flatten.length)).flatten := by
  induction records generalizing start with
  | nil => rfl
  | cons r records ih =>
    rw [writeOffsets, ih, length_cons, range_succ_eq_map, map_cons, map_map, take_zero, flatten_nil,
      length_nil, add_zero]
    refine congrArg (le 4 start ++ List.flatten ·) (map_congr_left fun i _ ↦ ?_)
    rw [Function.comp_apply, map_cons, take_succ_cons, flatten_cons,
      length_append, length_recordBytes, add_assoc]

/-- The encoder writes the table of the records. -/
theorem write_eq_table (records : List PolicyWitnessRecord) :
    le 4 (4 * (records.length + 1) + (records.map recordBytes).flatten.length) ++
      (writeOffsets (4 * (records.length + 1)) records ++ records.flatMap writeRecord) =
    table (records.map recordBytes) := by
  have hwrite : records.flatMap writeRecord = (records.map recordBytes).flatten := by
    rw [flatMap_def, map_congr_left fun r _ ↦ writeRecord_eq r]
  rw [table, tableHeader, flatten_append, flatten_cons, append_assoc, hwrite, writeOffsets_eq]
  simp only [startOf, length_map]
  rw [take_of_length_le (length_map _).le]

/-- **The encoder writes the canonical bundle of the sorted records.** -/
theorem encode_ok_iff :
    encodePolicyWitnessBundle records = .ok bundle ↔ Canonical (ordered records) bundle := by
  have hlength : (ordered records).length = records.length := length_insertionSort _ _
  have htable : (table ((ordered records).map recordBytes)).length =
      4 * (records.length + 1) + ((ordered records).map recordBytes).flatten.length := by
    rw [length_table, startOf, take_length, length_map, hlength]
  have hwrite : le 4 (policyWitnessMagic.length + 4 * (records.length + 1) +
        ((ordered records).map recordBytes).flatten.length - policyWitnessMagic.length) ++
      (writeOffsets (4 * (records.length + 1)) (ordered records) ++
        (ordered records).flatMap writeRecord) = table ((ordered records).map recordBytes) := by
    rw [← write_eq_table, hlength, add_assoc, Nat.add_sub_cancel_left]
  rw [encodePolicyWitnessBundle, check_ok, validateRecordCount_ok_iff,
    guard_ok, not_eq_true, strictly_ordered_iff]
  constructor
  · rintro ⟨⟨hpos, hle⟩, hsorted, h⟩
    obtain ⟨total, htotal, h⟩ := bind_ok.1 h
    obtain ⟨hargs, rfl, hsize⟩ := totalBytes_ok_iff.1 htotal
    obtain rfl := pure_ok.1 h
    have hne : ordered records ≠ [] := ne_nil_of_length_pos (by omega)
    have hbound := hsize hne
    rw [hwrite]
    refine ⟨take_left, ?_, ?_⟩
    · rw [length_append, htable, ← add_assoc]
      exact hbound
    · rw [drop_left]
      exact ⟨rfl, by omega, by omega, hargs, hsorted⟩
  · rintro ⟨hmagic, hsize, hbytes, hpos, hle, hargs, hsorted⟩
    have hbundle : bundle = policyWitnessMagic ++ table ((ordered records).map recordBytes) := by
      conv_lhs => rw [← take_append_drop policyWitnessMagic.length bundle, hmagic, hbytes]
    refine ⟨⟨by omega, by omega⟩, hsorted, bind_ok.2 ⟨_, totalBytes_ok_iff.2
      ⟨hargs, rfl, fun _ ↦ ?_⟩, pure_ok.2 ?_⟩⟩
    · rw [hbundle, length_append, htable, ← add_assoc] at hsize
      exact hsize
    · rw [hwrite, hbundle]

/-- **The encoder writes what is read back**, as the same records in some order. -/
theorem encode_ok_iff_decode : encodePolicyWitnessBundle records = .ok bundle ↔
    ∃ sorted, decodePolicyWitnessBundle bundle = .ok sorted ∧ sorted.Perm records := by
  rw [encode_ok_iff]
  constructor
  · intro h
    exact ⟨ordered records, decode_ok_iff.2 h, perm_insertionSort _ _⟩
  · rintro ⟨sorted, hdecode, hperm⟩
    have hcanonical := decode_ok_iff.1 hdecode
    rwa [ordered, Unique.insertionSort_eq_of_perm hperm.symm hcanonical.vector.sorted]

/-- Records with different keys are selected by them. -/
theorem selectedRecord_some_iff {hash : Hash} (h : records.Pairwise fun a b ↦ a.key < b.key) :
    selectedRecord records role hash = some r ↔
      r ∈ records ∧ r.role = role ∧ r.scriptHash = hash := by
  induction records with
  | nil => simp [selectedRecord]
  | cons first records ih =>
    obtain ⟨hfirst, hrest⟩ := pairwise_cons.1 h
    rw [selectedRecord, find?_cons]
    split
    · next hfound =>
      obtain ⟨rfl, rfl⟩ := of_decide_eq_true hfound
      refine ⟨fun heq ↦ ?_, fun hr ↦ ?_⟩
      · obtain rfl := some.inj heq
        exact ⟨mem_cons_self, rfl, rfl⟩
      · rcases mem_cons.1 hr.1 with rfl | hmem
        · rfl
        · have hkey : r.key = first.key := congrArg toLex (Prod.ext hr.2.1 hr.2.2)
          exact absurd (hfirst r hmem) (hkey ▸ lt_irrefl _)
    · next hother =>
      rw [decide_eq_false_iff_not] at hother
      refine (ih hrest).trans ⟨fun hr ↦ ⟨mem_cons_of_mem _ hr.1, hr.2⟩, fun hr ↦ ⟨?_, hr.2⟩⟩
      rcases mem_cons.1 hr.1 with rfl | hmem
      · exact absurd hr.2 hother
      · exact hmem

end Encoding

end CellScript.PolicyWitness
