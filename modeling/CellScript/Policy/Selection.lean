import CellScript.Library.Tiling
import CellScript.Policy.Authorization
import CellScript.Policy.Instance

/-!
# Selections of script instances

An instance policy is read back from its record, and a selection that was encoded under it verifies
for a consumer exactly when the consumer names the policy, every byte of the arguments satisfies the
one constraint that covers it, and the script has the hash that the consumer and the policy ask for.
The walk of a cursor over the constraints becomes the statement that they tile the arguments.
-/

namespace CellScript.ScriptInstance

open Bytes (le ofLe field padded)
open OpenHandlePolicy (Hash ScriptRole PolicyMembership byteAt hashAt u64At reading_rules)
open Tiling (Tiles Covers)
open List

/-! ### Reading records -/

@[simp] theorem ofNat_ofLe_le_u16 (n : UInt16) : UInt16.ofNat (ofLe (le 2 n.toNat)) = n := by
  rw [Bytes.ofLe_le_of_lt n.toNat_lt, UInt16.ofNat_toNat]

theorem toNat_ofLe_le_u16 {n : ℕ} (hn : n < 2 ^ 16) : (UInt16.ofNat (ofLe (le 2 n))).toNat = n := by
  rw [Bytes.ofLe_le_of_lt hn, UInt16.toNat_ofNat_of_lt' hn]

theorem range?_some {bytes : List UInt8} {start len : ℕ} (h : start + len ≤ bytes.length) :
    range? bytes start len = some (field start len bytes) :=
  if_pos h

@[simp] theorem length_policyMagic : policyMagic.length = 8 := by decide +kernel

@[simp] theorem length_consumerMagic : consumerMagic.length = 8 := by decide +kernel

@[simp] theorem length_selectionMagic : selectionMagic.length = 8 := by decide +kernel

/-! ### Constraints -/

variable {o l : ℕ} {bytes args config : List UInt8}

namespace ArgsConstraint

variable {rule : ArgsConstraint} {configLength : ℕ}

theorem span_ok_iff : rule.span = .ok (o, l) ↔
    0 < rule.length ∧ rule.offset + rule.length ≤ maxArgs ∧ o = rule.offset ∧ l = rule.length := by
  unfold span
  split
  · next hout =>
    refine iff_of_false (fun h ↦ nomatch h) (fun h ↦ ?_)
    omega
  · next hin =>
    rw [ok.injEq, Prod.mk.injEq]
    refine ⟨fun h ↦ ⟨by omega, by omega, h.1.symm, h.2.symm⟩, fun h ↦ ⟨h.2.2.1.symm, h.2.2.2.symm⟩⟩

section Rows

variable {tag : UInt8} {c : ℕ} {payload : List (List UInt8)}

theorem length_flatten_rowParts :
    (rowParts tag l o c payload).flatten.length = 16 + payload.flatten.length := by
  simp [rowParts]
  omega

theorem length_row (h : payload.flatten.length ≤ 32) :
    (row tag l o c payload).length = constraintBytes :=
  Bytes.length_padded (by rw [length_flatten_rowParts, constraintBytes]; omega)

/-- The bytes that fill a row up are its last part. -/
theorem row_eq_flatten : row tag l o c payload = (rowParts tag l o c payload ++
    [replicate (constraintBytes - (rowParts tag l o c payload).flatten.length) 0]).flatten := by
  rw [row, padded, flatten_append, flatten_singleton]

end Rows

/-- The row of a constraint that can be encoded, by its kind. -/
theorem row_of_encode (h : rule.encode configLength = .ok bytes) :
    0 < rule.length ∧ rule.offset + rule.length ≤ maxArgs ∧
    match rule with
    | .bytes offset value =>
      value.length ≤ 32 ∧ bytes = row 0 value.length offset.toNat 0 [value]
    | .unsigned offset width minimum maximum =>
      bytes = row 1 width.toNat offset.toNat 0 [le 8 minimum.toNat, le 8 maximum.toNat]
    | .config offset length configOffset => configOffset.toNat + length.toNat ≤ configLength ∧
      bytes = row 2 length.toNat offset.toNat configOffset.toNat []
    | .any offset length => bytes = row 3 length.toNat offset.toNat 0 [] := by
  obtain ⟨⟨o, l⟩, hspan, h⟩ := bind_ok.1 h
  obtain ⟨hpos, hmax, rfl, rfl⟩ := span_ok_iff.1 hspan
  refine ⟨hpos, hmax, ?_⟩
  cases rule with
  | bytes offset value =>
    obtain ⟨hlen, h⟩ := guard_ok.1 h
    exact ⟨not_lt.1 hlen, (pure_ok.1 h).symm⟩
  | unsigned offset width minimum maximum =>
    obtain ⟨-, h⟩ := guard_ok.1 h
    exact (pure_ok.1 h).symm
  | config offset length configOffset =>
    obtain ⟨hconfig, h⟩ := guard_ok.1 h
    exact ⟨not_lt.1 hconfig, (pure_ok.1 h).symm⟩
  | any offset length => exact (pure_ok.1 h).symm

theorem length_of_encode (h : rule.encode configLength = .ok bytes) :
    bytes.length = constraintBytes := by
  obtain ⟨-, -, hrow⟩ := row_of_encode h
  cases rule with
  | bytes offset value => exact hrow.2 ▸ length_row (by simpa using hrow.1)
  | unsigned offset width minimum maximum => exact hrow ▸ length_row (by simp)
  | config offset length configOffset => exact hrow.2 ▸ length_row (by simp)
  | any offset length => exact hrow ▸ length_row (by simp)

/-- **A constraint is read back from its row.** -/
theorem decode_encode (h : rule.encode configLength = .ok bytes) :
    decode bytes configLength = .ok rule := by
  refine bind_ok.2 ⟨rule, ?_, bind_ok.2 ⟨bytes, h, guard_ok.2 ⟨not_not.2 rfl, rfl⟩⟩⟩
  obtain ⟨-, -, hrow⟩ := row_of_encode h
  cases rule with
  | bytes offset value =>
    obtain ⟨hlen, rfl⟩ := hrow
    have hlength := toNat_ofLe_le_u16 (show value.length < 2 ^ 16 by omega)
    have hle : UInt16.ofNat (ofLe (le 2 value.length)) ≤ 32 := by
      rw [UInt16.le_iff_toNat_le, hlength]
      exact hlen
    simp (disch := simp) [parse, row_eq_flatten, rowParts, u16At, hlength, hle, reading_rules,
      -flatten_cons]
  | unsigned offset width minimum maximum =>
    obtain rfl : bytes = row 1 width.toNat offset.toNat 0
        [le 8 minimum.toNat, le 8 maximum.toNat] :=
      hrow
    simp (disch := simp) [parse, row_eq_flatten, rowParts, u16At, u64At, reading_rules,
      -flatten_cons]
  | config offset length configOffset =>
    obtain ⟨-, rfl⟩ := hrow
    simp (disch := simp) [parse, row_eq_flatten, rowParts, u16At, reading_rules, -flatten_cons]
  | any offset length =>
    obtain rfl : bytes = row 3 length.toNat offset.toNat 0 [] := hrow
    simp (disch := simp) [parse, row_eq_flatten, rowParts, u16At, reading_rules, -flatten_cons]

/-- What a constraint says about the arguments, given the configuration. -/
def Holds (args config : List UInt8) : ArgsConstraint → Prop
  | .bytes offset value => field offset.toNat value.length args = value
  | .unsigned offset width minimum maximum =>
    minimum.toNat ≤ ofLe (field offset.toNat width.toNat args) ∧
      ofLe (field offset.toNat width.toNat args) ≤ maximum.toNat
  | .config offset length configOffset =>
    field offset.toNat length.toNat args = field configOffset.toNat length.toNat config
  | .any _ _ => True

/-- **The check of a constraint decides what it says**, where it lies in the arguments. -/
theorem check_ok_iff (h : rule.encode config.length = .ok bytes)
    (hargs : rule.offset + rule.length ≤ args.length) :
    rule.check args config = .ok () ↔ rule.Holds args config := by
  obtain ⟨hpos, hmax, hrow⟩ := row_of_encode h
  have hspan : rule.span = .ok (rule.offset, rule.length) := span_ok_iff.2 ⟨hpos, hmax, rfl, rfl⟩
  have hcheck : rule.check args config = .ok () ↔
      rule.admits config (field rule.offset rule.length args) = .ok true := by
    simp only [check, hspan, ok_bind, range?_some hargs]
    refine bind_ok.trans ⟨?_, fun h ↦ ⟨true, h, rfl⟩⟩
    rintro ⟨holds, hadmits, h⟩
    cases holds with
    | true => exact hadmits
    | false => exact absurd h (fun h ↦ nomatch h)
  rw [hcheck]
  cases rule with
  | bytes offset value =>
    simp only [admits, ok.injEq, beq_iff_eq]
    rfl
  | unsigned offset width minimum maximum =>
    simp only [admits, ok.injEq, decide_eq_true_eq, Bytes.ofLe_padded_zero]
    rfl
  | config offset length configOffset =>
    simp only [admits, range?_some hrow.1, ok.injEq, beq_iff_eq]
    rfl
  | any offset length => exact iff_of_true rfl trivial

end ArgsConstraint

/-! ### Policies -/

variable {hash : List UInt8 → Hash} {policy : InstancePolicy}

namespace InstancePolicy

@[simp] theorem decodeMode_modeTag (mode : InstanceMode) :
    decodeMode (modeTag mode) = .ok mode := by
  cases mode <;> rfl

/-- The cursor has walked over constraints that stand one after the other. -/
theorem tiles_of_foldlM {rules : List ArgsConstraint} {cursor cursor' : ℕ}
    {rows rows' : List (List UInt8)}
    (h : rules.foldlM (policyRow policy) (cursor, rows) = .ok (cursor', rows')) :
    Tiles ArgsConstraint.offset ArgsConstraint.length cursor rules cursor' ∧
      ∃ encoded, rows' = rows ++ encoded ∧
        Forall₂ (fun rule row ↦ rule.encode policy.configLength.toNat = .ok row) rules encoded := by
  induction rules generalizing cursor rows with
  | nil =>
    obtain ⟨rfl, rfl⟩ := Prod.mk.inj (pure_ok.1 h)
    exact ⟨rfl, [], (append_nil _).symm, List.Forall₂.nil⟩
  | cons rule rules ih =>
    obtain ⟨⟨next, rows₁⟩, hstep, h⟩ := bind_ok.1 h
    obtain ⟨⟨o, l⟩, hspan, hstep⟩ := bind_ok.1 hstep
    obtain ⟨hpos, -, rfl, rfl⟩ := ArgsConstraint.span_ok_iff.1 hspan
    obtain ⟨hcursor, hstep⟩ := guard_ok.1 hstep
    obtain ⟨-, hstep⟩ := guard_ok.1 hstep
    obtain ⟨row, hrow, hstep⟩ := bind_ok.1 hstep
    obtain ⟨rfl, rfl⟩ := Prod.mk.inj (pure_ok.1 hstep)
    obtain ⟨htiles, encoded, rfl, hencoded⟩ := ih h
    exact ⟨⟨not_not.1 hcursor, hpos, htiles⟩, row :: encoded, by simp,
      List.Forall₂.cons hrow hencoded⟩

/-- What a policy that can be encoded has passed, and its record. -/
structure Encoded (hash : List UInt8 → Hash) (policy : InstancePolicy) (schema : Hash)
    (rows : List (List UInt8)) : Prop where
  args_le : policy.argsLength.toNat ≤ maxArgs
  config_le : policy.configLength.toNat ≤ maxConfig
  count_le : policy.constraints.length ≤ maxConstraints
  schema : policy.argsSchema hash = .ok schema
  tiles : Tiles ArgsConstraint.offset ArgsConstraint.length 0 policy.constraints
    policy.argsLength.toNat
  rows : Forall₂ (fun rule row ↦ rule.encode policy.configLength.toNat = .ok row)
    policy.constraints rows

theorem exists_encoded (h : policy.encode hash = .ok bytes) :
    ∃ schema rows, Encoded hash policy schema rows ∧
        bytes = (policy.parts schema rows).flatten := by
  unfold encode at h
  obtain ⟨hbounds, h⟩ := guard_ok.1 h
  obtain ⟨schema, hschema, h⟩ := bind_ok.1 h
  obtain ⟨⟨cursor, rows⟩, hrows, h⟩ := bind_ok.1 h
  obtain ⟨hcursor, hbytes⟩ := guard_ok.1 h
  obtain ⟨htiles, encoded, hnil, hencoded⟩ := tiles_of_foldlM hrows
  obtain rfl : rows = encoded := hnil
  obtain rfl := not_not.1 hcursor
  simp only [not_or, not_lt] at hbounds
  obtain ⟨hargs, hconfig, hcount, -⟩ := hbounds
  exact ⟨schema, rows, ⟨hargs, hconfig, hcount, hschema, htiles, hencoded⟩, (pure_ok.1 hbytes).symm⟩

namespace Encoded

variable {schema : Hash} {rows : List (List UInt8)} {i : ℕ} {row : List UInt8}

theorem length_headerParts : (policy.headerParts schema).flatten.length = policyHeaderBytes := by
  simp [headerParts, policyHeaderBytes]

variable (h : Encoded hash policy schema rows)
include h

theorem length_row (hrow : row ∈ rows) : row.length = constraintBytes := by
  obtain ⟨i, hi, rfl⟩ := getElem_of_mem hrow
  obtain ⟨hlen, hget⟩ := forall₂_iff_get.1 h.rows
  exact ArgsConstraint.length_of_encode (hget i (hlen ▸ hi) hi)

/-- The rows before a place fill their share of the record. -/
theorem length_take_rows (hi : i ≤ rows.length) :
    (rows.take i).flatten.length = i * constraintBytes := by
  have hmap : (rows.take i).map List.length = replicate i constraintBytes := by
    refine eq_replicate_iff.2 ⟨by simpa using hi, fun n hn ↦ ?_⟩
    obtain ⟨row, hrow, rfl⟩ := mem_map.1 hn
    exact h.length_row (mem_of_mem_take hrow)
  rw [length_flatten, hmap, sum_replicate_nat]

theorem length_parts : (policy.parts schema rows).flatten.length = policyBytes := by
  have hrows : rows.flatten.length = rows.length * constraintBytes := by
    simpa using h.length_take_rows (le_refl rows.length)
  have hcount : rows.length ≤ maxConstraints := h.rows.length_eq ▸ h.count_le
  calc (policy.parts schema rows).flatten.length
      = policyHeaderBytes + (rows.length * constraintBytes +
          (maxConstraints - rows.length) * constraintBytes) := by
        rw [parts, flatten_append, length_append, length_headerParts, flatten_append, length_append,
          hrows, flatten_singleton, length_replicate]
    _ = policyBytes := by rw [← add_mul, Nat.add_sub_cancel' hcount, policyBytes]

/-- A row, read back from the record. -/
theorem field_row (hi : rows[i]? = some row) :
    field (policyHeaderBytes + i * constraintBytes) constraintBytes
      (policy.parts schema rows).flatten = row := by
  obtain ⟨hil, -⟩ := List.getElem?_eq_some_iff.1 hi
  refine Bytes.field_flatten (k := (policy.headerParts schema).length + i) ?_ ?_
    (h.length_row (mem_of_getElem? hi))
  · rw [parts, getElem?_append_right (Nat.le_add_right _ _), Nat.add_sub_cancel_left,
      getElem?_append_left hil, hi]
  · rw [parts, take_length_add_append, flatten_append, length_append,
      length_headerParts, take_append_of_le_length hil.le, h.length_take_rows hil.le]

/-- The constraints, read back from the record. -/
theorem mapM_decode :
    ((List.range policy.constraints.length).mapM fun i ↦
      ArgsConstraint.decode (field (policyHeaderBytes + i * constraintBytes) constraintBytes
        (policy.parts schema rows).flatten) policy.configLength.toNat) =
      .ok policy.constraints := by
  obtain ⟨hlen, hget⟩ := forall₂_iff_get.1 h.rows
  refine Except.mapM_ok_iff.2 (forall₂_iff_get.2 ⟨length_range, fun i hi hil ↦ ?_⟩)
  rw [get_eq_getElem, getElem_range, h.field_row (getElem?_eq_getElem (hlen ▸ hil))]
  exact ArgsConstraint.decode_encode (hget i hil (hlen ▸ hil))

end Encoded

/-- **A policy is read back from its record.** -/
theorem decode_encode (h : policy.encode hash = .ok bytes) : decode hash bytes = .ok policy := by
  have hencode := h
  obtain ⟨schema, rows, hencoded, rfl⟩ := exists_encoded h
  have hcount : (UInt8.ofNat policy.constraints.length).toNat = policy.constraints.length :=
    UInt8.toNat_ofNat_of_lt' (lt_of_le_of_lt hencoded.count_le (by decide))
  have hbounds : ¬(policy.constraints.length > maxConstraints ∨
      policy.configLength.toNat > maxConfig ∨ policy.argsLength.toNat > maxArgs) := by
    simp only [not_or, not_lt, gt_iff_lt]
    exact ⟨hencoded.count_le, hencoded.config_le, hencoded.args_le⟩
  have hfields : field 0 8 (policy.parts schema rows).flatten = policyMagic ∧
      byteAt (policy.parts schema rows).flatten 8 = modeTag policy.mode ∧
      byteAt (policy.parts schema rows).flatten 9 = UInt8.ofNat policy.constraints.length ∧
      u16At (policy.parts schema rows).flatten 10 = policy.argsLength ∧
      u16At (policy.parts schema rows).flatten 12 = policy.configLength ∧
      hashAt (policy.parts schema rows).flatten 16 = policy.implementationRoot ∧
      hashAt (policy.parts schema rows).flatten 48 = schema := by
    simp (disch := simp) [parts, headerParts, u16At, hashAt, reading_rules, -flatten_cons]
  simp only [decode, hencoded.length_parts, hfields, hcount, hbounds, hencoded.mapM_decode,
    hencoded.schema, hencode, decodeMode_modeTag, ne_eq, not_true_eq_false, if_false, ok_bind]
  rfl

/-- The arguments pass exactly when their length fits and every constraint holds. -/
theorem checkArgs_ok_iff (h : policy.encode hash = .ok bytes)
    (hargs : args.length = policy.argsLength.toNat) :
    policy.checkArgs hash args config = .ok () ↔
      config.length = policy.configLength.toNat ∧
        ∀ rule ∈ policy.constraints, rule.Holds args config := by
  obtain ⟨schema, rows, hencoded, -⟩ := exists_encoded h
  rw [checkArgs, h, ok_bind, guard_ok, forM_ok_iff]
  simp only [ne_eq, hargs, not_true_eq_false, false_or, not_not]
  refine and_congr_right fun hconfig ↦ forall₂_congr fun rule hrule ↦ ?_
  obtain ⟨i, hi, rfl⟩ := getElem_of_mem hrule
  obtain ⟨hlen, hget⟩ := forall₂_iff_get.1 hencoded.rows
  obtain ⟨-, -, hwithin⟩ := hencoded.tiles.within hrule
  exact ArgsConstraint.check_ok_iff (hconfig ▸ hget i hi (hlen ▸ hi)) (hargs ▸ hwithin)

end InstancePolicy

open InstancePolicy

/-! ### Consumers -/

namespace ConsumerArgs

variable {consumer : ConsumerArgs}

theorem encode_ok_iff : consumer.encode = .ok bytes ↔
    (consumer.config.length ≤ maxConfig ∧ consumer.policyRoot ≠ Hash.zero ∧
      consumer.subject ≠ Hash.zero) ∧ consumer.parts.flatten = bytes := by
  unfold encode
  rw [guard_ok, pure_ok, not_or, not_or, not_lt]

/-- **The arguments of a consumer are read back from their record.** -/
theorem decode_encode (h : consumer.encode = .ok bytes) : decode bytes = .ok consumer := by
  have hencode := h
  obtain ⟨⟨hconfigLength, -, -⟩, rfl⟩ := encode_ok_iff.1 h
  have hlt : consumer.config.length < 2 ^ 16 := lt_of_le_of_lt hconfigLength (by decide)
  have hbytes : consumer.parts.flatten.length = consumerArgsBytes := by
    simp [parts, consumerArgsBytes]
    omega
  have hmax : ¬consumer.config.length > maxConfig := not_lt.2 hconfigLength
  have hfields : field 0 8 consumer.parts.flatten = consumerMagic ∧
      hashAt consumer.parts.flatten 8 = consumer.policyRoot ∧
      hashAt consumer.parts.flatten 40 = consumer.subject ∧
      (u16At consumer.parts.flatten 72).toNat = consumer.config.length ∧
      field 80 consumer.config.length consumer.parts.flatten = consumer.config := by
    simp (disch := simp) [parts, u16At, hashAt, toNat_ofLe_le_u16 hlt, reading_rules, -flatten_cons]
  simp only [decode, hbytes, hfields, hmax, hencode, ne_eq, not_true_eq_false, if_false, ok_bind]
  rfl

end ConsumerArgs

/-! ### Selections -/

section Selections

variable {membership : PolicyMembership} {implementation selection consumerBytes : List UInt8}
  {root : Hash}

theorem verifyImplementation_ok_iff :
    verifyImplementation hash root implementation = .ok membership ↔
      OpenHandlePolicy.verifySelection hash root implementation = .ok membership := by
  unfold verifyImplementation
  split
  · next m hm => rw [hm, ok.injEq, ok.injEq]
  · next e he => exact iff_of_false (fun h ↦ nomatch h) (fun h ↦ nomatch he.symm.trans h)

theorem length_of_verifySelection
    (h : OpenHandlePolicy.verifySelection hash root implementation = .ok membership) :
    implementation.length = OpenHandlePolicy.selectionBytes := by
  unfold OpenHandlePolicy.verifySelection at h
  exact not_not.1 (guard_ok.1 h).1

/-- A selection is encoded for arguments of the right length and an implementation that verifies. -/
theorem encodeSelection_ok_iff (hpolicy : policy.encode hash = .ok bytes) :
    encodeSelection hash policy implementation args = .ok selection ↔
      args.length = policy.argsLength.toNat ∧
      (∃ membership, OpenHandlePolicy.verifySelection hash policy.implementationRoot
        implementation = .ok membership) ∧
      (selectionParts bytes implementation args).flatten = selection := by
  rw [encodeSelection, hpolicy, ok_bind, guard_ok, bind_ok, not_not]
  simp only [verifyImplementation_ok_iff, pure_ok, exists_and_right]

theorem instanceScript_ok (codeHash : Hash) (hashType : OpenHandlePolicy.CodeHashType)
    (hargs : args.length ≤ maxArgs) :
    instanceScript codeHash hashType args = .ok (scriptTable codeHash hashType args) := by
  unfold instanceScript
  exact guard_ok.2 ⟨not_lt.2 hargs, rfl⟩

/-- The fields of a selection, read back. -/
theorem selection_fields (hpolicy : bytes.length = policyBytes)
    (himplementation : implementation.length = OpenHandlePolicy.selectionBytes)
    (hargs : args.length ≤ maxArgs) :
    let selection := (selectionParts bytes implementation args).flatten
    selection.length = selectionBytes ∧ field 0 8 selection = selectionMagic ∧
      field 8 policyBytes selection = bytes ∧
      field implementationOffset OpenHandlePolicy.selectionBytes selection = implementation ∧
      field argsOffset args.length selection = args ∧
      (selection.drop (argsOffset + args.length)).any (· ≠ 0) = false := by
  have hpadding : ((selectionParts bytes implementation args).flatten.drop
      (argsOffset + args.length)) = replicate (maxArgs - args.length) 0 := by
    rw [Bytes.drop_flatten (k := 4) (by
      simp [selectionParts, hpolicy, himplementation, argsOffset, implementationOffset]
      omega)]
    simp [selectionParts]
  refine ⟨?_, Bytes.field_flatten (k := 0) rfl (by simp) (by simp),
    Bytes.field_flatten (k := 1) rfl (by simp [selectionParts]) hpolicy,
    Bytes.field_flatten (k := 2) rfl
      (by simp [selectionParts, hpolicy, implementationOffset]) himplementation,
    Bytes.field_flatten (k := 3) rfl (by
      simp [selectionParts, hpolicy, himplementation, argsOffset, implementationOffset]
      omega) rfl, ?_⟩
  · simp [selectionParts, hpolicy, himplementation, selectionBytes]
    omega
  · rw [hpadding]
    simp

/-- The steps of the verification that depend on the consumer. -/
theorem verifySelection_selectionParts_iff {consumer : ConsumerArgs} {result : InstanceMembership}
    (hpolicy : policy.encode hash = .ok bytes) (hargs : args.length = policy.argsLength.toNat)
    (hmembership : OpenHandlePolicy.verifySelection hash policy.implementationRoot
      implementation = .ok membership) (hconsumer : consumer.encode = .ok consumerBytes) :
    let script := scriptTable membership.member.codeHash membership.member.hashType args
    verifySelection hash consumerBytes (selectionParts bytes implementation args).flatten
        = .ok result ↔
      hash (policyDomain ++ bytes) = consumer.policyRoot ∧
      policy.checkArgs hash args consumer.config = .ok () ∧
      ¬(policy.mode = .constrained ∧ membership.header.role = .spawnedVerifier) ∧
      (hash script = consumer.subject ∧
        (policy.mode = .exactly → hash script = membership.member.script)) ∧
      ⟨policy, membership, script, hash script⟩ = result := by
  obtain ⟨schema, rows, hencoded, hbytes⟩ := exists_encoded hpolicy
  have hlength : bytes.length = policyBytes := hbytes ▸ hencoded.length_parts
  have hmax : args.length ≤ maxArgs := hargs ▸ hencoded.args_le
  obtain ⟨hsize, hmagic, hpolicyAt, himplementationAt, hargsAt, hpadding⟩ :=
    selection_fields hlength (length_of_verifySelection hmembership) hmax
  have hroot : policy.root hash = .ok (hash (policyDomain ++ bytes)) := by
    rw [root, hpolicy]
    rfl
  simp only [verifySelection, hsize, hmagic, ConsumerArgs.decode_encode hconsumer, hpolicyAt,
    decode_encode hpolicy, hroot, himplementationAt, verifyImplementation_ok_iff.2 hmembership,
    ← hargs, hargsAt, hpadding, instanceScript_ok _ _ hmax, ne_eq, not_true_eq_false, if_false,
    ok_bind, false_eq_true]
  rw [guard_ok, check_ok, guard_ok, guard_ok, pure_ok]
  simp only [not_or, not_not, not_and]

/-- **A selection verifies exactly for the consumers it is meant for.** A policy is read back from
its record. A selection encoded under it verifies for a consumer if and only if the consumer names
the root of the policy and a configuration of its length, the one constraint that covers each byte
of the arguments holds, a constrained policy does not select a spawned verifier, and the script has
the hash that the consumer names and, for an exact policy, that of the member. -/
theorem verifySelection_encodeSelection_iff (h : policy.encode hash = .ok bytes) :
    InstancePolicy.decode hash bytes = .ok policy ∧
    ∀ implementation args selection,
      encodeSelection hash policy implementation args = .ok selection →
      ∃ membership, OpenHandlePolicy.verifySelection hash policy.implementationRoot
          implementation = .ok membership ∧
        ∀ consumer consumerBytes, ConsumerArgs.encode consumer = .ok consumerBytes →
          ((∃ result, verifySelection hash consumerBytes selection = .ok result) ↔
            policy.root hash = .ok consumer.policyRoot ∧
            consumer.config.length = policy.configLength.toNat ∧
            (∀ i < args.length, ∃ k : Fin policy.constraints.length,
              (policy.constraints.get k).Holds args consumer.config ∧
                ∀ l, Covers ArgsConstraint.offset ArgsConstraint.length
                  (policy.constraints.get l) i ↔ l = k) ∧
            ¬(policy.mode = .constrained ∧ membership.header.role = .spawnedVerifier) ∧
            ∃ script, instanceScript membership.member.codeHash membership.member.hashType args
                = .ok script ∧
              hash script = consumer.subject ∧
              (policy.mode = .exactly → hash script = membership.member.script)) := by
  refine ⟨decode_encode h, fun implementation args selection hselection ↦ ?_⟩
  obtain ⟨hargs, ⟨membership, hmembership⟩, rfl⟩ := (encodeSelection_ok_iff h).1 hselection
  refine ⟨membership, hmembership, fun consumer consumerBytes hconsumer ↦ ?_⟩
  obtain ⟨schema, rows, hencoded, -⟩ := exists_encoded h
  have hscript := instanceScript_ok membership.member.codeHash membership.member.hashType
    (hargs ▸ hencoded.args_le : args.length ≤ maxArgs)
  have hroot : policy.root hash = .ok consumer.policyRoot ↔
      hash (policyDomain ++ bytes) = consumer.policyRoot := by
    rw [root, h]
    exact pure_ok
  rw [hroot, hargs, ← hencoded.tiles.forall_mem_iff (·.Holds args consumer.config)]
  simp only [verifySelection_selectionParts_iff h hargs hmembership hconsumer,
    checkArgs_ok_iff h hargs]
  constructor
  · rintro ⟨result, hroot, ⟨hconfig, hholds⟩, hmode, hsubject, -⟩
    exact ⟨hroot, hconfig, hholds, hmode, _, hscript, hsubject⟩
  · rintro ⟨hroot, hconfig, hholds, hmode, script, hok, hsubject⟩
    obtain rfl := ok.inj (hscript.symm.trans hok)
    exact ⟨_, hroot, ⟨hconfig, hholds⟩, hmode, hsubject, rfl⟩

end Selections

open OpenHandlePolicy in
/-- A constraint of every kind. -/
def examplePolicy (root : Hash) : InstancePolicy where
  implementationRoot := root
  mode := .constrained
  argsLength := 5
  configLength := 2
  constraints := [.bytes 0 [7], .unsigned 1 2 3 600, .config 3 1 1, .any 4 1]

open OpenHandlePolicy in
/-- The policy above over the set of the authorization example, for a consumer whose configuration
asks for `4` at the fourth place. -/
theorem verifySelection_encodeSelection_iff_fourKinds :
    ∃ set, AuthorizationSet.new placeHash exampleHeader exampleMembers = .ok set ∧
      ∃ implementation selection consumer consumerBytes result,
        set.selection (Hash.ofBytes [8]) = .ok implementation ∧
        encodeSelection placeHash (examplePolicy set.root) implementation [7, 88, 2, 4, 200]
          = .ok selection ∧
        ConsumerArgs.encode consumer = .ok consumerBytes ∧ consumer.config = [0, 4] ∧
        verifySelection placeHash consumerBytes selection = .ok result := by
  obtain ⟨set, hset, hwitness, hroot, -⟩ := exists_exampleSet
  have hpolicy : ((examplePolicy exampleSet.root).root placeHash) = .ok exampleSet.root := by
    decide +kernel
  have hmember : OpenHandlePolicy.verifySelection placeHash exampleSet.root exampleWitness
      = .ok ⟨exampleSet.root, exampleHeader, exampleMember .active 8, 0⟩ := by decide +kernel
  obtain ⟨bytes, hbytes, -⟩ := bind_ok.1 hpolicy
  have hselection : encodeSelection placeHash (examplePolicy exampleSet.root) exampleWitness
      [7, 88, 2, 4, 200] = .ok _ :=
    (encodeSelection_ok_iff hbytes).2 ⟨rfl, ⟨_, hmember⟩, rfl⟩
  obtain ⟨membership, hmembership, hconsumers⟩ :=
    (verifySelection_encodeSelection_iff hbytes).2 _ _ _ hselection
  obtain rfl := ok.inj (hmember.symm.trans hmembership)
  -- the consumer names the hash of the script
  have hsubject : placeHash (scriptTable (Hash.ofBytes [5]) .data [7, 88, 2, 4, 200])
      = exampleSet.root := by decide +kernel
  have hconsumer : ConsumerArgs.encode ⟨exampleSet.root, exampleSet.root, [0, 4]⟩ = .ok _ :=
    ConsumerArgs.encode_ok_iff.2 ⟨by decide +kernel, rfl⟩
  obtain ⟨schema, rows, hencoded, -⟩ := exists_encoded hbytes
  have hholds : ∀ rule ∈ (examplePolicy exampleSet.root).constraints,
      rule.Holds [7, 88, 2, 4, 200] [0, 4] := by
    simp only [examplePolicy, forall_mem_cons]
    exact ⟨rfl, ⟨by decide, by decide⟩, rfl, trivial, by simp⟩
  have hscript := @instanceScript_ok [7, 88, 2, 4, 200] (Hash.ofBytes [5]) .data (by decide)
  obtain ⟨result, hresult⟩ := (hconsumers _ _ hconsumer).2
    ⟨hpolicy, rfl, (hencoded.tiles.forall_mem_iff _).1 hholds, (fun hmode ↦ nomatch hmode.2),
      _, hscript, hsubject.symm, (fun hmode ↦ nomatch hmode)⟩
  exact ⟨set, hset, exampleWitness, _, _, _, result, hwitness, hroot ▸ hselection, hconsumer, rfl,
    hresult⟩

end CellScript.ScriptInstance
