import CellScript.PolicyWitness.Canonical
import CellScript.Runtime.Frame
import CellScript.Runtime.Nested
import CellScript.Runtime.Transaction

/-!
# The emitted scanner of a bundle

The code of `emit_policy_validate_and_select_record`. It runs in the frame of a policy entry, with
the bundle in the witness buffer: it checks the magic number and the head of the vector, asks for
the hash of the running script, and goes through the records. A record is checked, its key is
compared byte by byte with the key before it, and the tag and the arguments of the record with the
script's own hash are stored to the frame. Any mistake goes to the label it is given.

The registers of the scan are `a4`, the vector; `a7`, its end; `a2`, the offset to read next; `a3`,
the end of the offsets; `a5`, the record at hand; and `a6`, the key of the record before, or zero.
-/

namespace CellScript.PolicyWitness

open Assembler (Instruction)
open BitVec (ofNat)
open Bytes (le ofLe field)
open Checker.Nested (u32 u32_lt offset item)
open OpenHandlePolicy (Hash)
open CellScript.Runtime
open MachineState
open Blocks

/-! ### The frame -/

def entryWitnessSizeOffset : ℕ := 0

def entryWitnessBufferOffset : ℕ := 8

def entryWitnessBufferSize : ℕ := 4096

def policyHashSizeOffset : ℕ := entryWitnessBufferOffset + entryWitnessBufferSize

def policyHashBufferOffset : ℕ := policyHashSizeOffset + 8

def policyArgsPointerOffset : ℕ := policyHashBufferOffset + 32

def policyArgsLengthOffset : ℕ := policyArgsPointerOffset + 8

def policyTagOffset : ℕ := policyArgsLengthOffset + 8

def policyFoundOffset : ℕ := policyTagOffset + 8

/-- The frame of a policy entry, rounded up to sixteen bytes. -/
def policyEntryFrameSize : ℕ := (policyFoundOffset + 8 + 8 + 15) / 16 * 16

/-- Where the slots of the frame lie. -/
theorem slots : entryWitnessSizeOffset = 0 ∧ entryWitnessBufferOffset = 8 ∧
    policyHashSizeOffset = 4104 ∧ policyHashBufferOffset = 4112 ∧ policyArgsPointerOffset = 4144 ∧
    policyArgsLengthOffset = 4152 ∧ policyTagOffset = 4160 ∧ policyFoundOffset = 4168 ∧
    policyEntryFrameSize = 4192 :=
  ⟨rfl, rfl, rfl, rfl, rfl, rfl, rfl, rfl, rfl⟩

/-! ### The code -/

/-- The code of `emit_stack_load_byte`. -/
def stackLoadByte (rd : Reg) (offset : ℕ) : List Instruction :=
  stackAccess (.lbu rd) rd offset []

/-- Bytes are compared with a constant, one after the other. -/
def magicCheck (load : ℕ → List Instruction) (fail : String) : ℕ → List UInt8 → List Instruction
  | _, [] => []
  | offset, byte :: bytes =>
    load offset ++ ([.li t1 byte.toNat, .bne t0 t1 fail] ++ magicCheck load fail (offset + 1) bytes)

/-- The hash of the running script is loaded. -/
def hashLoad (fail : String) : List Instruction :=
  [.li t0 32] ++ (stackStore t0 policyHashSizeOffset ++ (spAddi a0 policyHashBufferOffset ++
    (spAddi a1 policyHashSizeOffset ++ ([.li a2 0, .li a7 2062, .ecall, .bnez a0 fail] ++
      (stackLoad t0 policyHashSizeOffset ++ [.li t1 32, .bne t0 t1 fail])))))

def vectorHead (fail : String) : List Instruction :=
  spAddi a4 (entryWitnessBufferOffset + policyWitnessMagic.length) ++
    (stackLoad t1 entryWitnessSizeOffset ++ (.addi t1 t1 (-8) ::
      (u32LeFromBaseTo t0 a4 0 t4 ++ ([.bne t0 t1 fail, .add a7 a4 t0] ++
        (u32LeFromBaseTo t1 a4 4 t4 ++
          [.li t2 8, .bltu t1 t2 fail, .li t2 (4 * (maxPolicyWitnessRecords + 1) : ℕ),
           .bltu t2 t1 fail, .li t2 3, .and t2 t1 t2, .bnez t2 fail, .bltu t0 t1 fail,
           .add a3 a4 t1, .addi a2 a4 4, .li a6 0])))))

def scannerHead (fail : String) : List Instruction :=
  stackLoad t0 entryWitnessSizeOffset ++
    ([.li t1 (policyWitnessMagic.length + 8 + recordFixedBytes : ℕ), .bltu t0 t1 fail,
      .li t1 maxPolicyWitnessBundleBytes, .bltu t1 t0 fail] ++
      (magicCheck (stackLoadByte t0) fail entryWitnessBufferOffset policyWitnessMagic ++
        (hashLoad fail ++ (stackStore zero policyFoundOffset ++ vectorHead fail))))

/-- The offsets of a record. -/
def recordStart : List Instruction :=
  u32LeFromBaseTo t0 a2 0 t4 ++ ([.addi a2 a2 4, .beq a2 a3 "policy_final_record"] ++
    (u32LeFromBaseTo t1 a2 0 t4 ++ [.jump "policy_record_end"]))

def rangeCheck (fail : String) : List Instruction :=
  [.sub t2 a3 a4, .bltu t0 t2 fail, .bgeu t0 t1 fail, .sub t2 a7 a4, .bltu t2 t1 fail,
    .sub t2 t1 t0]

def sizeCheck (fail : String) : List Instruction :=
  [.li t3 recordFixedBytes, .bltu t2 t3 fail, .add a5 a4 t0] ++
    (u32LeFromBaseTo t3 a5 0 t4 ++ [.bne t2 t3 fail])

def offsetChecks (fail : String) : ℕ → List ℕ → List Instruction
  | _, [] => []
  | index, expected :: rest =>
    u32LeFromBaseTo t3 a5 (4 * (index + 1)) t4 ++
      ([.li t4 expected, .bne t3 t4 fail] ++ offsetChecks fail (index + 1) rest)

def argsLengthCheck (fail : String) : List Instruction :=
  u32LeFromBaseTo t3 a5 57 t4 ++ [.addi t2 t2 (-61), .bne t2 t3 fail]

def roleCheck (fail : String) : List Instruction := [.lbu t0 a5 20, .li t1 2, .bgeu t0 t1 fail]

def argsCheck (fail : String) : List Instruction :=
  [.beqz t3 "policy_record_args_valid", .li t4 entryArgsMagic.length, .bltu t3 t4 fail] ++
    magicCheck (fun offset ↦ [.lbu t0 a5 offset]) fail recordFixedBytes entryArgsMagic

def recordCheck (fail : String) : List Instruction :=
  rangeCheck fail ++ (sizeCheck fail ++ (offsetChecks fail 0 [20, 21, 53, 57] ++
    (argsLengthCheck fail ++ (roleCheck fail ++ argsCheck fail))))

def keyStart : List Instruction :=
  [.beqz a6 "policy_key_ordered", .addi t0 a6 0, .addi t1 a5 20, .li t2 33]

def keyRound (fail : String) : List Instruction :=
  [.lbu t3 t0 0, .lbu t4 t1 0, .bltu t3 t4 "policy_key_ordered", .bltu t4 t3 fail, .addi t0 t0 1,
   .addi t1 t1 1, .addi t2 t2 (-1), .bnez t2 "policy_key_order_loop", .jump fail]

def hashStart : List Instruction :=
  [.addi a6 a5 20, .lbu t0 a5 20, .li t1 1, .bne t0 t1 "policy_next_record", .addi t0 a5 21] ++
    (spAddi t1 policyHashBufferOffset ++ [.li t2 32])

def hashRound : List Instruction :=
  [.lbu t3 t0 0, .lbu t4 t1 0, .bne t3 t4 "policy_next_record", .addi t0 t0 1, .addi t1 t1 1,
   .addi t2 t2 (-1), .bnez t2 "policy_current_hash_loop"]

/-- The record with the script's own hash is stored to the frame. -/
def selection (fail : String) : List Instruction :=
  stackLoad t0 policyFoundOffset ++
    ([.bnez t0 fail, .li t0 1] ++ (stackStore t0 policyFoundOffset ++
    (u32LeFromBaseTo t0 a5 53 t4 ++ (stackStore t0 policyTagOffset ++
      (u32LeFromBaseTo t0 a5 57 t4 ++ (stackStore t0 policyArgsLengthOffset ++
        (.addi t0 a5 61 :: stackStore t0 policyArgsPointerOffset)))))))

def recordNext (fail : String) : List Instruction :=
  .bltu a2 a3 "policy_record" :: (stackLoad t0 policyFoundOffset ++ [.beqz t0 fail])

/-- The code of `emit_policy_validate_and_select_record`. The last label stands for what follows
the code. -/
def policyScanner (fail : String) : Program :=
  [⟨"policy_validate", scannerHead fail⟩, ⟨"policy_record", recordStart⟩,
   ⟨"policy_final_record", [.sub t1 a7 a4]⟩,
   ⟨"policy_record_end", recordCheck fail⟩,
   ⟨"policy_record_args_valid", keyStart⟩,
   ⟨"policy_key_order_loop", keyRound fail⟩,
   ⟨"policy_key_ordered", hashStart⟩,
   ⟨"policy_current_hash_loop", hashRound ++ selection fail⟩,
   ⟨"policy_next_record", recordNext fail⟩,
   ⟨"policy_selected", []⟩]

/-! ### Pieces of the code -/

/-- The registers that the code writes. -/
abbrev clobbered : List Reg := [t0, t1, t2, t3, t4, t5, t6, a0, a1, a2, a3, a4, a5, a6, a7]

/-- The registers that the checks of a record write. -/
abbrev checkRegs : List Reg := [t0, t1, t2, t3, t4, a5]

section Pieces

variable {e : Surroundings} {helpers : String → Option Program} {C : Code (machine e helpers)}
  {rest : List Instruction} {fall : Option String} {s s' : State} {fail : String}
  {it v : List UInt8} {b a : Word} {rs : List Reg} {start index first : ℕ}

/-- A state that control may fail in: it fails in all states with the same other registers. -/
def Fails (C : Code (machine e helpers)) (fail : String) (s : State) : Prop :=
  ∀ s', Keeps clobbered s s' → C.RunsAt fail s'

theorem Fails.of_keeps (h : Fails C fail s) (hkeeps : Keeps clobbered s s') : Fails C fail s' :=
  fun s'' h'' ↦ h s'' (hkeeps.trans h'')

theorem Fails.of_quiet (h : Fails C fail s) (hquiet : Quiet rs s s')
    (hrs : rs ⊆ clobbered := by decide) : Fails C fail s' :=
  h.of_keeps (hquiet.regs.mono hrs)

/-- **A constant is compared.** -/
theorem runs_magicCheck (base : Reg) {load : ℕ → List Instruction} {offset : ℕ}
    {bytes : List UInt8} (hbase : base ≠ t0 ∧ base ≠ t1)
    (hload : ∀ k, k < offset + bytes.length → load k = [.lbu t0 base k])
    (hok : read s.mem (s.get base + ofNat 64 offset) bytes.length = bytes →
      ∀ s', Quiet [t0, t1] s s' →
      C.Runs rest fall s')
    (hno : read s.mem (s.get base + ofNat 64 offset) bytes.length ≠ bytes → Fails C fail s) :
    C.Runs (magicCheck load fail offset bytes ++ rest) fall s := by
  induction bytes generalizing offset s with
  | nil => exact hok rfl s .refl
  | cons byte bytes ih =>
    have hbyte := byte.toNat_lt
    have hother := (s.mem (s.get base + ofNat 64 offset)).toNat_lt
    rw [length_cons] at hload
    rw [length_cons, read_succ, add_ofNat_add_ofNat, List.cons.injEq] at hok
    rw [length_cons, read_succ, add_ofNat_add_ofNat, Ne, List.cons.injEq] at hno
    rw [magicCheck, hload offset (by omega)]
    simp (disch := decide) only [runs_rules, act, set_rules, load_one]
    rw [ofNat_bne_ofNat]
    have hquiet : ∀ v w, Quiet [t0, t1] s ((s.set t0 v).set t1 w) := by simp
    split
    · next hne =>
      rw [bne_iff_ne, Ne, UInt8.toNat_inj] at hne
      exact hno (fun h ↦ hne h.1) _ (by simp)
    · next heq =>
      rw [bne_iff_ne, not_not, UInt8.toNat_inj] at heq
      have hsame : ∀ v w, ((s.set t0 v).set t1 w).get base = s.get base := fun v w ↦
        (hquiet v w).kept base (by simp [hbase.1, hbase.2])
      refine ih (fun k hk ↦ hload k (by omega)) (fun hbytes s' hs' ↦ ?_) fun hbytes ↦ ?_
      · rw [hsame] at hbytes
        exact hok ⟨heq, hbytes⟩ s' ((hquiet _ _).trans hs')
      · rw [hsame] at hbytes
        exact (hno fun h ↦ hbytes h.2).of_quiet (hquiet _ _)

/-- The record at hand, in memory. -/
structure AtRecord (it : List UInt8) (s : State) : Prop where
  read : MachineState.read s.mem (s.get a5) it.length = it
  lt : it.length < 2 ^ 32

theorem AtRecord.of_quiet (h : AtRecord it s) (hquiet : Quiet rs s s')
    (hrs : a5 ∉ rs := by decide) : AtRecord it s' :=
  ⟨by rw [hquiet.mem, hquiet.kept a5 hrs, h.read], h.lt⟩

/-- One offset of a record is compared. -/
theorem runs_offsetCheck {expected : ℕ} (hat : AtRecord it s)
    (hroom : 4 * (index + 1) + 4 ≤ it.length) (hexpected : expected < 2 ^ 64)
    (hok : u32 it (4 * (index + 1)) = expected → ∀ s', Quiet [t3, t4] s s' → C.Runs rest fall s')
    (hno : u32 it (4 * (index + 1)) ≠ expected → Fails C fail s) :
    C.Runs (u32LeFromBaseTo t3 a5 (4 * (index + 1)) t4 ++
      ([.li t4 expected, .bne t3 t4 fail] ++ rest)) fall s := by
  have hword := u32_lt it (4 * (index + 1))
  simp (disch := decide) only [runs_u32, runs_rules, act, set_rules, Nested.load_u32 hat.read hroom]
  exact ite_bne (fun hne ↦ hno hne _ (by simp)) fun heq ↦ hok heq _ (by simp)

/-- **The offsets of a record are compared.** -/
theorem runs_offsetChecks {expected : List ℕ} (hat : AtRecord it s)
    (hroom : 4 * (index + expected.length) + 4 ≤ it.length) (hexpected : ∀ n ∈ expected, n < 2 ^ 64)
    (hok : OffsetsAre it index expected → ∀ s', Quiet [t3, t4] s s' →
      C.Runs rest fall s') (hno : ¬ OffsetsAre it index expected → Fails C fail s) :
    C.Runs (offsetChecks fail index expected ++ rest) fall s := by
  induction expected generalizing index s with
  | nil => exact hok trivial s .refl
  | cons first expected ih =>
    rw [length_cons] at hroom
    obtain ⟨hfirst, hexpected⟩ := forall_mem_cons.1 hexpected
    refine runs_offsetCheck hat (by omega) hfirst (fun heq s₁ h₁ ↦ ?_) fun hne ↦ hno fun h ↦ hne h.1
    exact ih (hat.of_quiet h₁) (by omega) hexpected
      (fun hrest s₂ h₂ ↦ hok ⟨heq, hrest⟩ s₂ (h₁.trans h₂))
      fun hne ↦ (hno fun h ↦ hne h.2).of_quiet h₁

/-- The place of a record is checked. -/
theorem runs_rangeCheck {stop size : ℕ} (ha4 : s.get a4 = b) (ha3 : s.get a3 = b + ofNat 64 first)
    (ha7 : s.get a7 = b + ofNat 64 size)
    (ht0 : s.get t0 = ofNat 64 start) (ht1 : s.get t1 = ofNat 64 stop) (hstart : start < 2 ^ 64)
    (hstop : stop < 2 ^ 64) (hfirst : first < 2 ^ 64) (hsize : size < 2 ^ 64)
    (hok : first ≤ start ∧ start < stop ∧ stop ≤ size → ∀ s', Quiet [t2] s s' →
    s'.get t2 = ofNat 64 (stop - start) → C.Runs rest fall s')
    (hno : ¬ (first ≤ start ∧ start < stop ∧ stop ≤ size) → Fails C fail s) :
    C.Runs (rangeCheck fail ++ rest) fall s := by
  simp (disch := decide) only [rangeCheck, runs_rules, act, set_rules, ha4, ha3, ha7, ht0, ht1,
    add_sub_base]
  refine ite_ult (fun hlow ↦ hno (by omega) _ (by simp)) fun hlow ↦
    ite_not_ult (fun hempty ↦ hno (by omega) _ (by simp)) fun hsome ↦
      ite_ult (fun hhigh ↦ hno (by omega) _ (by simp)) fun hhigh ↦ ?_
  refine hok ⟨hlow, hsome, hhigh⟩ _ (by simp) ?_
  rw [get_set_self, ofNat_sub_ofNat_of_le _ _ hstart hsome.le]

/-- The size of a record is compared, once there is room for its fixed part. -/
theorem runs_sizeCheck (ha4 : s.get a4 = b) (ht0 : s.get t0 = ofNat 64 start)
    (ht2 : s.get t2 = ofNat 64 it.length)
    (hread : read s.mem (b + ofNat 64 start) it.length = it) (hlt : it.length < 2 ^ 32)
    (hok : recordFixedBytes ≤ it.length ∧ u32 it 0 = it.length → ∀ s',
      Quiet [t3, t4, a5] s s' → s'.get a5 = b + ofNat 64 start →
      C.Runs rest fall s')
    (hno : ¬ (recordFixedBytes ≤ it.length ∧ u32 it 0 = it.length) → Fails C fail s) :
    C.Runs (sizeCheck fail ++ rest) fall s := by
  have hword := u32_lt it 0
  simp (disch := decide) only [sizeCheck, append_assoc, runs_u32, runs_rules, act, set_rules, ha4,
    ht0, ht2]
  refine ite_ult (fun hshort ↦ hno (by omega) _ (by simp)) fun hshort ↦ ?_
  have hlong : 61 ≤ it.length := hshort
  rw [Nested.load_u32 hread (by omega)]
  exact ite_bne (fun hne ↦ hno (by omega) _ (by simp))
    fun heq ↦ hok ⟨hshort, heq.symm⟩ _ (by simp) (by simp (disch := decide) only [set_rules])

/-- The length of the arguments is compared. -/
theorem runs_argsLengthCheck (hat : AtRecord it s) (hlong : recordFixedBytes ≤ it.length)
    (ht2 : s.get t2 = ofNat 64 it.length)
    (hok : u32 it 57 = it.length - recordFixedBytes → ∀ s', Quiet [t2, t3, t4] s s' →
    s'.get t3 = ofNat 64 (it.length - recordFixedBytes) → C.Runs rest fall s')
    (hno : u32 it 57 ≠ it.length - recordFixedBytes → Fails C fail s) :
    C.Runs (argsLengthCheck fail ++ rest) fall s := by
  have hword := u32_lt it 57
  have hlt := hat.lt
  have hsixty : 61 ≤ it.length := hlong
  have hless : ofNat 64 it.length + BitVec.ofInt 64 (-61) =
      ofNat 64 (it.length - recordFixedBytes) := by
    rw [recordFixedBytes, ← ofNat_sub_ofNat_of_le _ _ (by decide) hsixty, BitVec.sub_eq_add_neg]
    rfl
  simp (disch := decide) only [argsLengthCheck, append_assoc, runs_u32, runs_rules, act, set_rules,
    ht2, Nested.load_u32 hat.read hsixty, hless]
  refine ite_bne (fun hne ↦ hno hne.symm _ (by simp)) fun heq ↦ hok heq.symm _ (by simp) ?_
  simp (disch := decide) only [set_rules, heq]

theorem load_byte {m : Memory} {k : ℕ} (hread : read m a it.length = it) (hk : k < it.length) :
    load m (a + ofNat 64 k) 1 = ofNat 64 (it.getD k 0).toNat := by
  rw [load, read_eq_field hread hk, Bytes.field_one hk, Bytes.ofLe_cons, Bytes.ofLe_nil,
    Nat.add_zero]

/-- The role of a record is zero or one. -/
theorem runs_roleCheck (hat : AtRecord it s) (hlong : recordFixedBytes ≤ it.length)
    (hok : it.getD 20 0 = 0 ∨ it.getD 20 0 = 1 → ∀ s', Quiet [t0, t1] s s' → C.Runs rest fall s')
    (hno : ¬ (it.getD 20 0 = 0 ∨ it.getD 20 0 = 1) → Fails C fail s) :
    C.Runs (roleCheck fail ++ rest) fall s := by
  have hsixty : 61 ≤ it.length := hlong
  have hbyte := (it.getD 20 0).toNat_lt
  have hrole : it.getD 20 0 = 0 ∨ it.getD 20 0 = 1 ↔ (it.getD 20 0).toNat < 2 := by
    rw [← UInt8.toNat_inj, ← UInt8.toNat_inj]
    exact (Nat.le_one_iff_eq_zero_or_eq_one.symm.trans Nat.lt_succ_iff.symm)
  rw [hrole] at hok hno
  simp (disch := decide) only [roleCheck, runs_rules, act, set_rules]
  rw [load_byte hat.read (k := 20) (by omega)]
  exact ite_not_ult (fun hlarge ↦ hno (by omega) _ (by simp)) fun hsmall ↦ hok hsmall _ (by simp)

/-- **The arguments of a record are checked.** -/
theorem runs_argsCheck (hat : AtRecord it s) (hlong : recordFixedBytes ≤ it.length)
    (ht3 : s.get t3 = ofNat 64 (it.length - recordFixedBytes))
    (hok : ArgsOk (it.drop recordFixedBytes) → ∀ s', Quiet [t0, t1, t4] s s' →
    C.RunsAt "policy_record_args_valid" s')
    (hno : ¬ ArgsOk (it.drop recordFixedBytes) → Fails C fail s) :
    C.Runs (argsCheck fail) (some "policy_record_args_valid") s := by
  have hlt := hat.lt
  have hdrop : (it.drop recordFixedBytes).length = it.length - recordFixedBytes := length_drop
  simp (disch := decide) only [argsCheck, runs_rules, act, set_rules, ht3]
  refine ite_beq (fun hempty ↦
    hok (.inl (List.eq_nil_of_length_eq_zero (hdrop.trans hempty))) s .refl) fun hsome ↦ ?_
  have hne : it.drop recordFixedBytes ≠ [] := fun h ↦ hsome (by rw [← hdrop, h]; rfl)
  refine ite_ult (fun hshort ↦ hno (fun h ↦ ?_) _ (by simp)) fun hroom ↦ ?_
  · have := congrArg List.length (h.resolve_left hne)
    rw [length_take] at this
    omega
  rw [← append_nil (magicCheck _ _ _ _)]
  have hmagic : read s.mem (s.get a5 + ofNat 64 recordFixedBytes) entryArgsMagic.length =
      (it.drop recordFixedBytes).take entryArgsMagic.length :=
    read_eq_field hat.read
  have hargs : ArgsOk (it.drop recordFixedBytes) ↔
      read s.mem (s.get a5 + ofNat 64 recordFixedBytes) entryArgsMagic.length = entryArgsMagic := by
    rw [hmagic]
    exact or_iff_right hne
  rw [hargs] at hok hno
  refine runs_magicCheck a5 (by decide) (fun _ _ ↦ rfl)
    (fun h s₁ h₁ ↦ hok h s₁ (Quiet.trans (by simp) h₁)) fun h ↦ (hno h).of_keeps (by simp)

/-- **The whole check of a record.** -/
theorem runs_recordCheck {count i : ℕ} (ha4 : s.get a4 = b) (ha3 : s.get a3 = b + ofNat 64 first)
    (ha7 : s.get a7 = b + ofNat 64 v.length) (ht0 : s.get t0 = ofNat 64 (offset v count i))
    (ht1 : s.get t1 = ofNat 64 (offset v count (i + 1)))
    (hread : read s.mem b v.length = v) (hsize : v.length < 2 ^ 32) (hfirst : first < 2 ^ 64)
    (hok : InRange v first count i ∧ WellFormed (item v count i) → ∀ s', Quiet checkRegs s s' →
      s'.get a5 = b + ofNat 64 (offset v count i) →
      C.RunsAt "policy_record_args_valid" s')
    (hno : ¬ (InRange v first count i ∧ WellFormed (item v count i)) → Fails C fail s) :
    C.Runs (recordCheck fail) (some "policy_record_args_valid") s := by
  have hbound : ∀ j, offset v count j < 2 ^ 64 := by
    intro j
    rw [offset]
    split
    · exact (u32_lt v _).trans (by decide)
    · omega
  refine runs_rangeCheck ha4 ha3 ha7 ht0 ht1 (hbound _) (hbound _) hfirst (by omega)
    (fun hrange s₁ h₁ ht2 ↦ ?_) fun hne ↦ hno fun h ↦
      hne ⟨h.1.first_le, h.1.nonempty, h.1.le_length⟩
  obtain ⟨hlow, hnonempty, hend⟩ := hrange
  have hitem : (item v count i).length = offset v count (i + 1) - offset v count i :=
    Bytes.length_field (by omega)
  have hat : read s.mem (b + ofNat 64 (offset v count i)) (item v count i).length =
      item v count i := by
    rw [hitem, read_eq_field hread, item]
  replace hno : ¬ WellFormed (item v count i) → Fails C fail s := fun hne ↦ hno fun h ↦ hne h.2
  have hsize₁ : s₁.get t2 = ofNat 64 (item v count i).length := hitem ▸ ht2
  refine runs_sizeCheck ((h₁.get a4).trans ha4) ((h₁.get t0).trans ht0) hsize₁
    (h₁.mem ▸ hat) (by omega)
    (fun hsized s₂ h₂ ha5 ↦ ?_) fun hne ↦ (hno fun h ↦ hne ⟨h.le_length, h.total⟩).of_quiet h₁
  obtain ⟨hlong, htotal⟩ := hsized
  have hsixty : 61 ≤ (item v count i).length := hlong
  have hquiet₂ : Quiet checkRegs s s₂ := h₁.mono.trans h₂
  have hat₂ : AtRecord (item v count i) s₂ := ⟨by rw [hquiet₂.mem, ha5, hat], by omega⟩
  refine runs_offsetChecks hat₂ (by simp only [length_cons, length_nil]; omega) (by decide)
    (fun hoffsets s₃ h₃ ↦ ?_) fun hne ↦ (hno fun h ↦ hne (offsetsAre_record_iff.2
      h.offsets)).of_quiet hquiet₂
  have hquiet₃ := hquiet₂.trans h₃
  have hat₃ := hat₂.of_quiet h₃
  have ht2₃ : s₃.get t2 = ofNat 64 (item v count i).length :=
    (h₃.get t2).trans ((h₂.get t2).trans hsize₁)
  refine runs_argsLengthCheck hat₃ hlong ht2₃ (fun hargs s₄ h₄ ht3 ↦ ?_) fun hne ↦
    (hno fun h ↦ hne h.length_args).of_quiet hquiet₃
  have hquiet₄ := hquiet₃.trans h₄
  have hat₄ := hat₃.of_quiet h₄
  refine runs_roleCheck hat₄ hlong (fun hrole s₅ h₅ ↦ ?_) fun hne ↦
    (hno fun h ↦ hne h.role).of_quiet hquiet₄
  have hquiet₅ := hquiet₄.trans h₅
  refine runs_argsCheck (hat₄.of_quiet h₅) hlong ((h₅.get t3).trans ht3) (fun hmagic s₆ h₆ ↦ ?_)
    fun hne ↦ (hno fun h ↦ hne h.args).of_quiet hquiet₅
  refine hok ⟨⟨hlow, hnonempty, hend⟩, hlong, htotal, offsetsAre_record_iff.1 hoffsets, hargs,
    hrole, hmagic⟩ s₆ (hquiet₅.trans h₆) ?_
  rw [h₆.get a5, h₅.get a5, h₄.get a5, h₃.get a5, ha5]

end Pieces

end CellScript.PolicyWitness
