import CellScript.Checker.CodeHistory
import CellScript.PolicyWitness.Canonical

/-!
# The request of a policy

The artifact checker reads a bundle with its own strict parser (`policy_request` of
`code_origin/type_group.rs`), and looks for the record of the selected script by the hexadecimal
text of its hash. It accepts the canonical bundles that have such a record
(`policyRequest_ok_iff`).
-/

namespace CellScript.PolicyWitness

open Bytes (le ofLe field)
open Checker Nested.Molecule List
open Checker.CodeOrigin (hexDigit hexEncode)
open Checker.Nested (Molecule.Error)
open Checker.Nested.Molecule (table byteVector)
open OpenHandlePolicy (Hash)

/-- Whether a key comes before another one: by the role first, and then by the hash. -/
def precedes (old key : UInt8 × List UInt8) : Prop :=
  old.1 < key.1 ∨ old.1 = key.1 ∧ old.2 < key.2

instance (old key : UInt8 × List UInt8) : Decidable (precedes old key) :=
  inferInstanceAs (Decidable (_ ∨ _))

/-- The loop over the records, with the key of the record before and what is selected so far. -/
def requestFrom (selectedHash : String) : Option (UInt8 × List UInt8) →
    Option (UInt32 × List UInt8) → List (List UInt8) →
    Except Molecule.Error (Option (UInt32 × List UInt8))
  | _, selected, [] => .ok selected
  | previous, selected, record :: records => do
    let fields ← fields record 4
    let role := fields.getD 0 []
    let hash := fields.getD 1 []
    let tag := fields.getD 2 []
    if role.length ≠ 1 ∨ role.getD 0 0 > 1 ∨ hash.length ≠ 32 ∨ tag.length ≠ 4 then
      throw ⟨"policy record role/hash/tag widths are invalid"⟩
    let key := (role.getD 0 0, hash)
    if ∃ old ∈ previous, ¬ precedes old key then
      throw ⟨"duplicate or unordered policy role/full Script hash"⟩
    let args ← fixed (fields.getD 3 []) 1 4076
    if args ≠ [] ∧ args.take entryArgsMagic.length ≠ entryArgsMagic then
      throw ⟨"policy record args have invalid CSARGv1 magic"⟩
    let selected := if key.1 = 1 ∧ hexEncode key.2 = selectedHash then
      some (UInt32.ofNat (ofLe tag), args) else selected
    requestFrom selectedHash (some key) selected records

/-- The request of the one type record under the selected hash. -/
def policyRequest (bundle : List UInt8) (selectedHash : String) :
    Except Molecule.Error (UInt32 × List UInt8) := do
  if bundle.length > 4076 then
    throw ⟨"policy bundle exceeds 4076 bytes"⟩
  if bundle.take policyWitnessMagic.length ≠ policyWitnessMagic then
    throw ⟨"selected input_type needs the canonical CSPOLv1 envelope"⟩
  let records ← dynamic (bundle.drop policyWitnessMagic.length) 8
  if records = [] then
    throw ⟨"policy bundle must contain 1..=8 records"⟩
  match ← requestFrom selectedHash none none records with
  | some selected => return selected
  | none => throw ⟨"selected Type/full Script hash is absent from the group witness"⟩

/-! ### Hexadecimal text -/

theorem hexDigit_inj {m n : ℕ} (hm : m < 16) (hn : n < 16) (h : hexDigit m = hexDigit n) :
    m = n := by
  have hall : ∀ i j : Fin 16, hexDigit i = hexDigit j → i = j := by decide
  exact congrArg Fin.val (hall ⟨m, hm⟩ ⟨n, hn⟩ h)

theorem hexEncode_injective : Injective hexEncode := by
  intro xs ys h
  replace h := String.ofList_inj.1 h
  induction xs generalizing ys with
  | nil =>
    cases ys with
    | nil => rfl
    | cons y ys => simp at h
  | cons x xs ih =>
    cases ys with
    | nil => simp at h
    | cons y ys =>
      simp only [flatMap_cons, cons_append, nil_append, List.cons.injEq] at h
      obtain ⟨hhigh, hlow, hrest⟩ := h
      have hx := x.toNat_lt
      have hy := y.toNat_lt
      replace hhigh := hexDigit_inj (by omega) (by omega) hhigh
      replace hlow := hexDigit_inj (by omega) (by omega) hlow
      have hbyte : x = y := UInt8.toNat_inj.1 (by omega)
      rw [hbyte, ih hrest]

/-! ### What the checker accepts -/

/-- The key of a record, as the checker reads it. -/
def rawKey (r : PolicyWitnessRecord) : UInt8 × List UInt8 := (r.role.asByte, r.scriptHash.bytes)

/-- What is selected after a record. -/
def pick (selectedHash : String) (selected : Option (UInt32 × List UInt8))
    (r : PolicyWitnessRecord) : Option (UInt32 × List UInt8) :=
  if r.role = .type ∧ hexEncode r.scriptHash.bytes = selectedHash then some (r.tag, r.args)
  else selected

/-- The bytes of a role. -/
theorem exists_asByte {b : UInt8} (h : b ≤ 1) : ∃ role : PolicyScriptRole, role.asByte = b := by
  have hle : b.toNat ≤ 1 := h
  rcases Nat.le_one_iff_eq_zero_or_eq_one.1 hle with hzero | hone
  · exact ⟨.lock, UInt8.toNat_inj.1 hzero.symm⟩
  · exact ⟨.type, UInt8.toNat_inj.1 hone.symm⟩

theorem asByte_eq_one_iff {role : PolicyScriptRole} : role.asByte = 1 ↔ role = .type :=
  PolicyScriptRole.asByte_injective.eq_iff (b := .type)

section Request

variable {selectedHash : String} {previous : Option (UInt8 × List UInt8)}
  {selected answer : Option (UInt32 × List UInt8)} {record : List UInt8} {items : List (List UInt8)}
  {records : List PolicyWitnessRecord}

/-- A record whose parts fit the parser. -/
structure Fits (r : PolicyWitnessRecord) : Prop where
  length_args : r.args.length ≤ 4076
  args : ArgsOk r.args

variable {r : PolicyWitnessRecord}

theorem Fits.length_lt (h : Fits r) : (recordBytes r).length < 2 ^ 32 := by
  have := h.length_args
  rw [length_recordBytes, recordFixedBytes]
  omega

/-- **One record of the loop.** -/
theorem requestFrom_cons_ok_iff :
    requestFrom selectedHash previous selected (record :: items) = .ok answer ↔
      ∃ r, record = recordBytes r ∧ Fits r ∧ (∀ old ∈ previous, precedes old (rawKey r)) ∧
        requestFrom selectedHash (some (rawKey r)) (pick selectedHash selected r) items =
          .ok answer := by
  rw [requestFrom, bind_ok]
  constructor
  · rintro ⟨fields, hfields, h⟩
    obtain ⟨hwidths, h⟩ := guard_ok.1 h
    obtain ⟨horder, h⟩ := guard_ok.1 h
    obtain ⟨args, hargs, h⟩ := bind_ok.1 h
    obtain ⟨hmagic, hnext⟩ := guard_ok.1 h
    obtain ⟨hcount, htable, -⟩ := (fields_ok_iff_table (by decide)).1 hfields
    obtain ⟨role, hash, tag, encoded, rfl⟩ := length_eq_four.1 hcount
    simp only [getD_cons_zero, getD_cons_succ] at hwidths horder hargs hnext
    obtain ⟨hlength, -, rfl⟩ := fixed_one_ok_iff.1 hargs
    simp only [not_or, not_not] at hwidths
    obtain ⟨hrole, hbyte, hhash, htag⟩ := hwidths
    obtain ⟨b, rfl⟩ := length_eq_one_iff.1 hrole
    obtain ⟨role, rfl⟩ := exists_asByte (UInt8.not_lt.1 hbyte)
    have hword : ofLe tag < 2 ^ 32 := by simpa [htag] using Bytes.ofLe_lt tag
    have hbytes : le 4 (UInt32.ofNat (ofLe tag)).toNat = tag := by
      rw [UInt32.toNat_ofNat_of_lt' hword, ← htag, Bytes.le_ofLe]
    refine ⟨⟨role, ⟨hash, hhash⟩, UInt32.ofNat (ofLe tag), args⟩, ?_, ⟨hlength, ?_⟩,
      fun old hold ↦ ?_, ?_⟩
    · rw [recordBytes, hbytes]
      exact htable
    · exact validateArgs_ok_iff.1 (if_neg hmagic)
    · by_contra hne
      exact horder ⟨old, hold, hne⟩
    · simpa only [pick, rawKey, getD_cons_zero, asByte_eq_one_iff] using hnext
  · rintro ⟨r, rfl, hfits, horder, h⟩
    have hfields : fields (recordBytes r) 4 = .ok [[r.role.asByte],
        r.scriptHash.bytes, le 4 r.tag.toNat, byteVector r.args] :=
      (fields_ok_iff_table (by decide)).2 ⟨rfl, rfl, hfits.length_lt⟩
    have hargs : fixed (byteVector r.args) 1 4076 = .ok r.args :=
      fixed_one_ok_iff.2 ⟨hfits.length_args, by have := hfits.length_args; omega, rfl⟩
    refine ⟨_, hfields, ?_⟩
    simp only [getD_cons_zero, getD_cons_succ]
    refine guard_ok.2 ⟨?_, guard_ok.2 ⟨?_, bind_ok.2 ⟨_, hargs, guard_ok.2 ⟨?_, ?_⟩⟩⟩⟩
    · simp only [length_singleton, Hash.length_bytes, Bytes.length_le, not_or, not_not,
        true_and, and_true, gt_iff_lt, UInt8.not_lt]
      cases r.role <;> decide
    · rintro ⟨old, hold, hne⟩
      exact hne (horder old hold)
    · rcases hfits.args with hempty | hmagic
      · exact fun hne ↦ hne.1 hempty
      · exact fun hne ↦ hne.2 hmagic
    · have htag : ofLe (le 4 r.tag.toNat) = r.tag.toNat := Bytes.ofLe_le_of_lt r.tag.toNat_lt
      simpa only [pick, rawKey, getD_cons_zero, asByte_eq_one_iff, htag, UInt32.ofNat_toNat] using h

/-- **The loop accepts the tables of ordered records.** -/
theorem requestFrom_ok_iff :
    requestFrom selectedHash previous selected items = .ok answer ↔
      ∃ records : List PolicyWitnessRecord, items = records.map recordBytes ∧
        (∀ r ∈ records, Fits r) ∧ (previous.toList ++ records.map rawKey).IsChain precedes ∧
        answer = records.foldl (pick selectedHash) selected := by
  induction items generalizing previous selected with
  | nil =>
    rw [requestFrom]
    constructor
    · intro h
      refine ⟨[], rfl, nofun, ?_, (ok.inj h).symm⟩
      cases previous with
      | none => exact isChain_nil
      | some old => exact isChain_singleton old
    · rintro ⟨records, hitems, -, -, rfl⟩
      obtain rfl := map_eq_nil_iff.1 hitems.symm
      rfl
  | cons record items ih =>
    have hchain : ∀ (r : PolicyWitnessRecord) (records : List PolicyWitnessRecord),
        (previous.toList ++ (r :: records).map rawKey).IsChain precedes ↔
          (∀ old ∈ previous, precedes old (rawKey r)) ∧
            (rawKey r :: records.map rawKey).IsChain precedes := by
      intro r records
      cases previous with
      | none => simp
      | some old => simp
    rw [requestFrom_cons_ok_iff]
    constructor
    · rintro ⟨r, rfl, hfits, horder, h⟩
      obtain ⟨records, rfl, hall, hrest, rfl⟩ := ih.1 h
      exact ⟨r :: records, rfl, forall_mem_cons.2 ⟨hfits, hall⟩,
        (hchain r records).2 ⟨horder, hrest⟩, rfl⟩
    · rintro ⟨records, hitems, hall, hsorted, rfl⟩
      obtain ⟨r, records, rfl, rfl, rfl⟩ := map_eq_cons_iff.1 hitems.symm
      obtain ⟨hfits, hall⟩ := forall_mem_cons.1 hall
      obtain ⟨horder, hrest⟩ := (hchain r records).1 hsorted
      exact ⟨r, rfl, hfits, horder, ih.2 ⟨records, rfl, hall, hrest, rfl⟩⟩

/-- Of records with different keys, at most one is picked. -/
theorem foldl_pick {h : Hash} (hsorted : records.Pairwise fun a b ↦ a.key < b.key) :
    records.foldl (pick (hexEncode h.bytes)) selected =
      match selectedRecord records .type h with
      | some r => some (r.tag, r.args)
      | none => selected := by
  induction records generalizing selected with
  | nil => rfl
  | cons first records ih =>
    obtain ⟨hfirst, hrest⟩ := pairwise_cons.1 hsorted
    have hhash : hexEncode first.scriptHash.bytes = hexEncode h.bytes ↔ first.scriptHash = h :=
      hexEncode_injective.eq_iff.trans Hash.ext_iff.symm
    rw [foldl_cons, ih hrest, pick, selectedRecord, selectedRecord, find?_cons]
    simp only [hhash]
    by_cases hfound : first.role = .type ∧ first.scriptHash = h
    · -- the records behind have larger keys
      have hnone : selectedRecord records .type h = none := by
        refine Option.eq_none_iff_forall_ne_some.2 fun r hr ↦ ?_
        obtain ⟨hmem, hrole, hr⟩ := (selectedRecord_some_iff hrest).1 hr
        have hkey : r.key = first.key :=
          congrArg toLex (Prod.ext (hrole.trans hfound.1.symm) (hr.trans hfound.2.symm))
        exact absurd (hfirst r hmem) (hkey ▸ lt_irrefl _)
      rw [selectedRecord] at hnone
      rw [hnone, if_pos hfound, decide_eq_true hfound]
    · rw [if_neg hfound, decide_eq_false hfound]

theorem isChain_rawKey_iff :
    ((none : Option (UInt8 × List UInt8)).toList ++ records.map rawKey).IsChain precedes ↔
      records.Pairwise fun a b ↦ a.key < b.key := by
  rw [Option.toList_none, nil_append, isChain_map, ← isChain_iff_pairwise]
  simp only [key_lt_iff]
  rfl

end Request

variable {bundle : List UInt8} {h : Hash} {tag : UInt32} {args : List UInt8}

theorem Canonical.fits {r : PolicyWitnessRecord} {records : List PolicyWitnessRecord}
    (hcanonical : Canonical records bundle) (hr : r ∈ records) : Fits r := by
  refine ⟨?_, hcanonical.vector.args r hr⟩
  have hlength : (recordBytes r).length ≤ (records.map recordBytes).flatten.length :=
    (sublist_flatten_of_mem (mem_map_of_mem hr)).length_le
  have htable := congrArg List.length hcanonical.vector.bytes
  have hsize : bundle.length ≤ 4076 := hcanonical.le_bytes
  rw [length_table, startOf, take_length, length_drop] at htable
  rw [length_recordBytes] at hlength
  omega

/-- **The checker accepts the canonical bundles with a record of the selected script**, and returns
the tag and the arguments of that record. -/
theorem policyRequest_ok_iff :
    policyRequest bundle (hexEncode h.bytes) = .ok (tag, args) ↔
      ∃ records r, Canonical records bundle ∧ selectedRecord records .type h = some r ∧
        r.tag = tag ∧ r.args = args := by
  rw [policyRequest, guard_ok, not_lt, guard_ok, not_not]
  constructor
  · rintro ⟨hsize, hmagic, hbundle⟩
    obtain ⟨items, hitems, hbundle⟩ := bind_ok.1 hbundle
    obtain ⟨hne, hbundle⟩ := guard_ok.1 hbundle
    obtain ⟨answer, hanswer, hbundle⟩ := bind_ok.1 hbundle
    obtain ⟨hcount, htable, -⟩ := dynamic_ok_iff.1 hitems
    obtain ⟨records, rfl, hfits, hchain, rfl⟩ := requestFrom_ok_iff.1 hanswer
    have hsorted := isChain_rawKey_iff.1 hchain
    rw [length_map] at hcount
    have hpos : 1 ≤ records.length := length_pos_iff.2 fun hnil ↦ hne (by rw [hnil, map_nil])
    rw [foldl_pick hsorted] at hbundle
    cases hselected : selectedRecord records .type h with
    | none =>
      rw [hselected] at hbundle
      exact nomatch hbundle
    | some r =>
      rw [hselected] at hbundle
      obtain ⟨rfl, rfl⟩ := Prod.mk.inj (pure_ok.1 hbundle)
      exact ⟨records, r, ⟨hmagic, hsize, htable, hpos, hcount, fun r hr ↦ (hfits r hr).args,
        hsorted⟩, hselected, rfl, rfl⟩
  · rintro ⟨records, r, hcanonical, hselected, rfl, rfl⟩
    obtain ⟨hmagic, hsize, htable, hpos, hcount, hargs, hsorted⟩ := hcanonical
    have hlt : (bundle.drop policyWitnessMagic.length).length < 2 ^ 32 := by
      have hle : bundle.length ≤ 4076 := hsize
      rw [length_drop]
      omega
    have hitems : dynamic (bundle.drop policyWitnessMagic.length) 8 =
        .ok (records.map recordBytes) := dynamic_ok_iff.2
      ⟨(length_map _).trans_le hcount, htable, hlt⟩
    have hanswer : requestFrom (hexEncode h.bytes) none none (records.map recordBytes) =
        .ok (records.foldl (pick (hexEncode h.bytes)) none) := requestFrom_ok_iff.2 ⟨records, rfl,
      fun r hr ↦ Canonical.fits ⟨hmagic, hsize, htable, hpos, hcount, hargs, hsorted⟩ hr,
      isChain_rawKey_iff.2 hsorted, rfl⟩
    have hne : records.map recordBytes ≠ [] := by
      rw [Ne, map_eq_nil_iff, ← length_eq_zero_iff]
      omega
    refine ⟨hsize, hmagic, bind_ok.2 ⟨_, hitems, guard_ok.2 ⟨hne, bind_ok.2 ⟨_, hanswer, ?_⟩⟩⟩⟩
    rw [foldl_pick hsorted, hselected]
    rfl

end CellScript.PolicyWitness
