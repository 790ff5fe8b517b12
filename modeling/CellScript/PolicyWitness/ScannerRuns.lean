import CellScript.PolicyWitness.Scanner

/-!
# Runs of the scanner

The loops of the scanner: the comparison of two keys, the comparison with the script's own hash, and
the loop over the records. What the loop over the records does is said by `Reads`, as for the host's
decoder, so that the scanner goes on exactly if the decoder accepts the bundle and there is a record
for the running script.
-/

namespace CellScript.PolicyWitness

open Assembler (Instruction)
open BitVec (ofNat)
open Bytes (le ofLe field)
open Checker.Nested (u32 u32_lt offset item)
open OpenHandlePolicy (Hash)
open CellScript.Runtime
open MachineState
open Blocks

/-- A program has the blocks of the scanner. -/
structure Placed (program : Program) (fail : String) : Prop where
  validate : program.at? "policy_validate" = some (scannerHead fail, some "policy_record")
  record : program.at? "policy_record" = some (recordStart, some "policy_final_record")
  finalRecord : program.at? "policy_final_record" = some ([.sub t1 a7 a4], some "policy_record_end")
  recordEnd : program.at? "policy_record_end" =
    some (recordCheck fail, some "policy_record_args_valid")
  argsValid : program.at? "policy_record_args_valid" = some (keyStart, some "policy_key_order_loop")
  keyLoop : program.at? "policy_key_order_loop" = some (keyRound fail, some "policy_key_ordered")
  keyOrdered : program.at? "policy_key_ordered" = some (hashStart, some "policy_current_hash_loop")
  hashLoop : program.at? "policy_current_hash_loop" =
    some (hashRound ++ selection fail, some "policy_next_record")
  nextRecord : program.at? "policy_next_record" = some (recordNext fail, some "policy_selected")

variable {e : Surroundings} {helpers : String → Option Program} {C : Code (machine e helpers)}
  {s : State} {fail : String} {it : List UInt8} {n k : ℕ}

section Loops

variable {slot : ℕ}

/-- The registers of a loop over bytes. -/
abbrev loopRegs : List Reg := [t0, t1, t2, t3, t4]

/-- The state when two bytes have been loaded. -/
def probed (s : State) : State :=
  (s.set t3 (ofNat 64 (s.mem (s.get t0)).toNat)).set t4 (ofNat 64 (s.mem (s.get t1)).toNat)

/-- The state after a round that found equal bytes. -/
def advanced (s : State) : State :=
  (((probed s).set t0 (s.get t0 + 1#64)).set t1 (s.get t1 + 1#64)).set t2
    (s.get t2 + 18446744073709551615#64)

theorem quiet_probed : Quiet loopRegs s (probed s) := by simp [probed]

theorem quiet_advanced : Quiet loopRegs s (advanced s) := by simp [advanced, probed]

theorem advanced_t0 : (advanced s).get t0 = s.get t0 + 1#64 := by
  simp (disch := decide) only [advanced, set_rules]

theorem advanced_t1 : (advanced s).get t1 = s.get t1 + 1#64 := by
  simp (disch := decide) only [advanced, set_rules]

/-- The bytes that are left go down by one. -/
theorem advanced_t2 (h : s.get t2 = ofNat 64 (n + 1)) : (advanced s).get t2 = ofNat 64 n := by
  rw [advanced, get_set_self, h, ofNat_succ_add_allOnes]

variable (hplaced : Placed C.program fail)
include hplaced

theorem keyLoop_round :
    C.RunsAt "policy_key_order_loop" s ↔ if s.mem (s.get t0) < s.mem (s.get t1) then
        C.RunsAt "policy_key_ordered" (probed s)
      else if s.mem (s.get t1) < s.mem (s.get t0) then C.RunsAt fail (probed s)
      else if (advanced s).get t2 = 0#64 then C.RunsAt fail (advanced s)
      else C.RunsAt "policy_key_order_loop" (advanced s) := by
  have hult : ∀ x y : UInt8, (ofNat 64 x.toNat).ult (ofNat 64 y.toNat) = true ↔ x < y := by
    intro x y
    have hx := x.toNat_lt
    have hy := y.toNat_lt
    rw [ofNat_ult_ofNat, decide_eq_true_eq, UInt8.lt_iff_toNat_lt]
  rw [runsAt_iff hplaced.keyLoop, advanced]
  simp (disch := decide) only [keyRound, runs_rules, BitVec.add_zero, act, set_rules, load_one,
    hult, bne_iff_ne, ne_eq, ite_not]
  rfl

/-- **Keys are compared byte by byte.** -/
theorem runsAt_keyLoop (hn : n + 1 < 2 ^ 64) (ht2 : s.get t2 = ofNat 64 (n + 1))
    (hok : read s.mem (s.get t0) (n + 1) < read s.mem (s.get t1) (n + 1) → ∀ s',
      Quiet loopRegs s s' →
      C.RunsAt "policy_key_ordered" s')
    (hno : ¬ read s.mem (s.get t0) (n + 1) < read s.mem (s.get t1) (n + 1) → Fails C fail s) :
    C.RunsAt "policy_key_order_loop" s := by
  induction n generalizing s with
  | zero =>
    rw [read_succ, read_succ, List.cons_lt_cons_iff] at hok hno
    rw [keyLoop_round hplaced, advanced_t2 ht2]
    split
    · next hlt => exact hok (.inl hlt) _ quiet_probed
    · next hge =>
      have hnot := hno fun h ↦ h.elim hge fun h ↦ List.not_lt_nil _ h.2
      split
      · exact hnot _ quiet_probed.regs.mono
      · exact hnot _ quiet_advanced.regs.mono
  | succ n ih =>
    rw [read_succ (n := n + 1), read_succ (n := n + 1), List.cons_lt_cons_iff] at hok hno
    rw [keyLoop_round hplaced, advanced_t2 ht2, if_neg (ofNat_succ_ne_zero (by omega))]
    split
    · next hlt => exact hok (.inl hlt) _ quiet_probed
    · next hge =>
      split
      · next hgt =>
        refine hno (fun h ↦ h.elim hge fun h ↦ ?_) _ quiet_probed.regs.mono
        exact absurd (h.1 ▸ hgt) (UInt8.lt_irrefl _)
      · next hle =>
        have heq : s.mem (s.get t0) = s.mem (s.get t1) :=
          UInt8.le_antisymm (UInt8.not_lt.1 hle) (UInt8.not_lt.1 hge)
        refine ih (by omega) (advanced_t2 ht2) (fun hlt s' hs' ↦ ?_) fun hnot ↦ ?_
        · rw [advanced_t0, advanced_t1] at hlt
          exact hok (.inr ⟨heq, hlt⟩) s' (quiet_advanced.trans hs')
        · rw [advanced_t0, advanced_t1] at hnot
          exact (hno fun h ↦ h.elim hge fun h ↦ hnot h.2).of_quiet quiet_advanced

theorem hashLoop_round :
    C.RunsAt "policy_current_hash_loop" s ↔ if s.mem (s.get t0) = s.mem (s.get t1) then
        if (advanced s).get t2 = 0#64 then
          C.Runs (selection fail) (some "policy_next_record") (advanced s)
        else C.RunsAt "policy_current_hash_loop" (advanced s)
      else C.RunsAt "policy_next_record" (probed s) := by
  have hbne : ∀ x y : UInt8, (ofNat 64 x.toNat != ofNat 64 y.toNat) = true ↔ ¬ x = y := by
    intro x y
    have hx := x.toNat_lt
    have hy := y.toNat_lt
    rw [ofNat_bne_ofNat, bne_iff_ne, Ne, UInt8.toNat_inj]
  rw [runsAt_iff hplaced.hashLoop, advanced]
  simp (disch := decide) only [hashRound, runs_rules, BitVec.add_zero, act, set_rules, load_one,
    hbne, bne_iff_ne, ne_eq, ite_not]
  rfl

/-- **The hash of a record is compared with the script's own hash.** -/
theorem runsAt_hashLoop (hn : n + 1 < 2 ^ 64) (ht2 : s.get t2 = ofNat 64 (n + 1))
    (hok : read s.mem (s.get t0) (n + 1) = read s.mem (s.get t1) (n + 1) → ∀ s',
      Quiet loopRegs s s' →
      C.Runs (selection fail) (some "policy_next_record") s')
    (hno : read s.mem (s.get t0) (n + 1) ≠ read s.mem (s.get t1) (n + 1) → ∀ s',
      Quiet loopRegs s s' →
      C.RunsAt "policy_next_record" s') : C.RunsAt "policy_current_hash_loop" s := by
  induction n generalizing s with
  | zero =>
    rw [read_succ, read_succ, List.cons.injEq] at hok
    rw [read_succ, read_succ, Ne, List.cons.injEq] at hno
    rw [hashLoop_round hplaced, advanced_t2 ht2]
    split
    · next heq => exact hok ⟨heq, rfl⟩ _ quiet_advanced
    · next hne => exact hno (fun h ↦ hne h.1) _ quiet_probed
  | succ n ih =>
    rw [read_succ (n := n + 1), read_succ (n := n + 1), List.cons.injEq] at hok
    rw [read_succ (n := n + 1), read_succ (n := n + 1), Ne, List.cons.injEq] at hno
    rw [hashLoop_round hplaced, advanced_t2 ht2, if_neg (ofNat_succ_ne_zero (by omega))]
    split
    · next heq =>
      refine ih (by omega) (advanced_t2 ht2) (fun hrest s' hs' ↦ ?_) fun hrest s' hs' ↦ ?_
      · rw [advanced_t0, advanced_t1] at hrest
        exact hok ⟨heq, hrest⟩ s' (quiet_advanced.trans hs')
      · rw [advanced_t0, advanced_t1] at hrest
        exact hno (fun h ↦ hrest h.2) s' (quiet_advanced.trans hs')
    · next hne => exact hno (fun h ↦ hne h.1) _ quiet_probed

/-- What the frame holds after a record has been selected. -/
structure Selected (p : Word) (it : List UInt8) (s s' : State) : Prop where
  found : load s'.mem (p + ofNat 64 policyFoundOffset) 8 = 1#64
  tag : load s'.mem (p + ofNat 64 policyTagOffset) 8 = ofNat 64 (u32 it 53)
  length : load s'.mem (p + ofNat 64 policyArgsLengthOffset) 8 = ofNat 64 (u32 it 57)
  pointer : load s'.mem (p + ofNat 64 policyArgsPointerOffset) 8 =
    s.get a5 + ofNat 64 recordFixedBytes
  agree : Agree p 0 policyArgsPointerOffset s.mem s'.mem
  regs : Keeps [t0, t4, t5, t6] s s'

omit hplaced in
/-- **A record is selected, if there was none before.** -/
theorem runs_selection {p : Word} (hsp : s.get sp = p) (ha5 : s.get a5 = p + ofNat 64 k)
    (hk : k + it.length ≤ policyHashSizeOffset) (hread : read s.mem (p + ofNat 64 k) it.length = it)
    (hlong : recordFixedBytes ≤ it.length)
    (hok : load s.mem (p + ofNat 64 policyFoundOffset) 8 = 0#64 → ∀ s', Selected p it s s' →
      C.RunsAt "policy_next_record" s')
    (hno : load s.mem (p + ofNat 64 policyFoundOffset) 8 ≠ 0#64 → Fails C fail s) :
    C.Runs (selection fail) (some "policy_next_record") s := by
  have hsixty : 61 ≤ it.length := hlong
  obtain ⟨-, -, hhashSize, -, hpointer, hlength, htag, hfoundSlot, -⟩ := slots
  have hreads : ∀ {m : Memory} {n : ℕ}, Agree p 0 policyArgsPointerOffset s.mem m → n + 4 ≤ 61 →
      load m (s.get a5 + ofNat 64 n) 4 = ofNat 64 (u32 it n) := by
    intro m n hagree hn
    refine Nested.load_u32 ?_ (by omega)
    rw [ha5, hagree.read, hread]
  have hagree₁ : Agree p 0 policyArgsPointerOffset s.mem
      (store s.mem (p + ofNat 64 policyFoundOffset) 8 1#64) := Agree.refl.store
  have hagree₂ : Agree p 0 policyArgsPointerOffset s.mem
      (store (store s.mem (p + ofNat 64 policyFoundOffset) 8 1#64) (p + ofNat 64 policyTagOffset) 8
        (ofNat 64 (u32 it 53))) := hagree₁.store
  rw [selection, ← append_nil (stackStore t0 policyArgsPointerOffset)]
  simp (disch := decide) only [slot_rules, runs_u32, runs_rules, act, set_rules, hsp,
    hreads hagree₁, hreads hagree₂]
  refine ite_branch (fun hsome ↦ hno (bne_iff_ne.1 hsome) _ (by simp)) fun hnone ↦ ?_
  rw [bne_eq_false_iff_eq] at hnone
  refine hok hnone _ ⟨?_, ?_, ?_, ?_, hagree₂.store.store, by simp⟩ <;>
    simp only [slot_rules]
  · rw [load_store_of_disjoint, load_store_of_disjoint, load_store_of_disjoint, load_store_self]
  · rw [load_store_of_disjoint, load_store_of_disjoint, load_store_self]
  · rw [load_store_of_disjoint, load_store_self]
  · rw [load_store_self]
    rfl

end Loops

/-! ### The loop over the records -/

/-- Where the vector stands, in the frame at an address. -/
abbrev vectorAt (p : Word) : Word := p + ofNat 64 16

/-- The frame holds the tag and the arguments of a record of the vector. -/
structure Picked (p : Word) (v : List UInt8) (r : PolicyWitnessRecord) (m : Memory) : Prop where
  found : load m (p + ofNat 64 policyFoundOffset) 8 = 1#64
  tag : load m (p + ofNat 64 policyTagOffset) 8 = ofNat 64 r.tag.toNat
  length : load m (p + ofNat 64 policyArgsLengthOffset) 8 = ofNat 64 r.args.length
  pointer : ∃ k, load m (p + ofNat 64 policyArgsPointerOffset) 8 =
    vectorAt p + ofNat 64 k ∧ k + r.args.length ≤ v.length ∧ field k r.args.length v = r.args

/-- What the frame holds of the record that has been chosen so far. -/
def Chosen (p : Word) (v : List UInt8) : Option PolicyWitnessRecord → Memory → Prop
  | none, m => load m (p + ofNat 64 policyFoundOffset) 8 = 0#64
  | some r, m => Picked p v r m

/-- The register `a6` points to the key of the record before. -/
def Behind (p : Word) (v : List UInt8) : Option PolicyWitnessRecord → Word → Prop
  | none, a => a = 0#64
  | some r, a => ∃ k, a = vectorAt p + ofNat 64 k ∧ k + 33 ≤ v.length ∧
    field k 33 v = keyBytes r

/-- What holds when the record at an index is to be read. -/
structure Scan (v : List UInt8) (h : Hash) (count i : ℕ)
    (previous chosen : Option PolicyWitnessRecord) (s₀ s : State) : Prop where
  regs : Keeps clobbered s₀ s
  vector : s.get a4 = vectorAt (s₀.get sp)
  stop : s.get a7 = vectorAt (s₀.get sp) + ofNat 64 v.length
  header : s.get a3 = vectorAt (s₀.get sp) + ofNat 64 (4 * (count + 1))
  cursor : s.get a2 = vectorAt (s₀.get sp) + ofNat 64 (4 * (i + 1))
  behind : Behind (s₀.get sp) v previous (s.get a6)
  bytes : read s.mem (vectorAt (s₀.get sp)) v.length = v
  hash : read s.mem (s₀.get sp + ofNat 64 policyHashBufferOffset) 32 = h.bytes
  chosen : Chosen (s₀.get sp) v chosen s.mem

/-- The vector lies in the buffer, and the frame in the address space. -/
structure Fitting (v : List UInt8) (count : ℕ) (s₀ : State) : Prop where
  header : 4 * (count + 1) ≤ v.length
  room : v.length ≤ 4068
  fits : (s₀.get sp).toNat + policyEntryFrameSize ≤ 2 ^ 64

section Records

variable {s₀ s' : State} {v : List UInt8} {h : Hash} {count i : ℕ}
  {previous chosen : Option PolicyWitnessRecord} {p : Word} {r : PolicyWitnessRecord}

variable (hplaced : Placed C.program fail)
include hplaced

/-- The offsets of a record are in `t0` and `t1`. -/
theorem runsAt_recordStart (hfit : Fitting v count s₀) (hi : i < count)
    (hscan : Scan v h count i previous chosen s₀ s)
    (hrun : ∀ s', Quiet [t0, t1, t4, a2] s s' →
      s'.get t0 = ofNat 64 (offset v count i) →
      s'.get t1 = ofNat 64 (offset v count (i + 1)) →
      s'.get a2 = vectorAt (s₀.get sp) + ofNat 64 (4 * (i + 1 + 1)) →
      C.RunsAt "policy_record_end" s') : C.RunsAt "policy_record" s := by
  have hheader := hfit.header
  have hroom := hfit.room
  have hoffset : ∀ {j}, j < count → load s.mem (vectorAt (s₀.get sp) + ofNat 64 (4 * (j + 1))) 4 =
      ofNat 64 (offset v count j) := by
    intro j hj
    rw [Nested.load_u32 hscan.bytes (by omega), offset, if_pos hj, Nat.mul_add,
      Nat.add_comm]
  have hcursor : vectorAt (s₀.get sp) + ofNat 64 (4 * (i + 1)) + 4#64 =
      vectorAt (s₀.get sp) + ofNat 64 (4 * (i + 1 + 1)) := add_ofNat_add_ofNat _ _ 4
  rw [runsAt_iff hplaced.record, recordStart]
  simp (disch := decide) only [runs_u32, runs_rules, act, set_rules, hscan.cursor, hscan.header,
    BitVec.add_zero, hcursor, hoffset hi]
  rw [add_ofNat_beq_add_ofNat _ (by omega) (by omega)]
  split
  · next hlast =>
    rw [beq_iff_eq] at hlast
    rw [runsAt_iff hplaced.finalRecord]
    simp (disch := decide) only [runs_rules, act, set_rules, hscan.stop, hscan.vector, add_sub_base]
    refine hrun _ (by simp) ?_ ?_ ?_ <;> simp (disch := decide) only [set_rules]
    rw [offset, if_neg (by omega)]
  · next hmore =>
    rw [beq_iff_eq] at hmore
    rw [hoffset (show i + 1 < count by omega)]
    refine hrun _ (by simp) ?_ ?_ ?_ <;> simp (disch := decide) only [set_rules]

/-- **The key of a record is compared with the key before it.** -/
theorem runsAt_argsValid
    (hfits : p.toNat + policyEntryFrameSize ≤ 2 ^ 64) (hroom : v.length ≤ 4068)
    (hbytes : read s.mem (vectorAt p) v.length = v) (hbehind : Behind p v previous (s.get a6))
    (ha5 : s.get a5 = vectorAt p + ofNat 64 k) (hk : k + 53 ≤ v.length)
    (hkey : field (k + 20) 33 v = keyBytes r)
    (hok : (∀ q ∈ previous, q.key < r.key) → ∀ s', Quiet loopRegs s s' →
      C.RunsAt "policy_key_ordered" s') (hno : ¬ (∀ q ∈ previous, q.key < r.key) → Fails C fail s) :
    C.RunsAt "policy_record_args_valid" s := by
  obtain ⟨-, -, -, -, -, -, -, -, hframe⟩ := slots
  rw [runsAt_iff hplaced.argsValid, keyStart, runs_cons, act, follows_branch]
  cases previous with
  | none =>
    have ha6 : s.get a6 = 0#64 := hbehind
    rw [ha6, beq_self_eq_true]
    exact hok (by simp) s .refl
  | some q =>
    obtain ⟨j, ha6, hj, hq⟩ := hbehind
    have hne : (s.get a6 == 0#64) = false := by
      rw [beq_eq_false_iff_ne]
      intro hzero
      have hnat := congrArg BitVec.toNat (ha6.symm.trans hzero)
      rw [add_ofNat_add_ofNat, toNat_add_ofNat (by omega), toNat_ofNat] at hnat
      omega
    rw [hne]
    have hold : read s.mem (s.get a6) 33 = keyBytes q := by
      rw [ha6, read_eq_field hbytes hj, hq]
    have hnew : read s.mem (s.get a5 + 20#64) 33 = keyBytes r := by
      rw [ha5, add_ofNat_add_ofNat, read_eq_field hbytes, hkey]
    simp (disch := decide) only [runs_rules, BitVec.add_zero, act, set_rules]
    have hlt : (keyBytes q < keyBytes r ↔ ∀ q' ∈ some q, q'.key < r.key) := by
      simp only [keyBytes_lt_iff, Option.mem_some_iff, forall_eq']
    refine runsAt_keyLoop (n := 32) hplaced (by decide) get_set_self (fun hless s' hs' ↦ ?_)
      fun hnot ↦ ?_
    · simp (disch := decide) only [set_rules, Nat.reduceAdd, hold, hnew] at hless
      exact hok (hlt.1 hless) s' (Quiet.trans (by simp) hs')
    · simp (disch := decide) only [set_rules, Nat.reduceAdd, hold, hnew] at hnot
      exact (hno fun hall ↦ hnot (hlt.2 hall)).of_keeps (by simp)

/-- The record for the running script. -/
def Own (h : Hash) (r : PolicyWitnessRecord) : Prop := r.role = .type ∧ r.scriptHash = h

instance (h : Hash) (r : PolicyWitnessRecord) : Decidable (Own h r) :=
  inferInstanceAs (Decidable (_ ∧ _))

section Ordered

variable (hsp : s.get sp = p)
  (ha5 : s.get a5 = vectorAt p + ofNat 64 k) (hroom : v.length ≤ 4068)
  (hk : k + it.length ≤ v.length) (hit : WellFormed it)
  (hread : read s.mem (vectorAt p + ofNat 64 k) it.length = it)
  (hhash : read s.mem (p + ofNat 64 policyHashBufferOffset) 32 = h.bytes)

include hsp ha5 hroom hk hit hread hhash

/-- The hash of a record for a type script is compared, and the record is selected. -/
theorem runsAt_ownHash (ht0 : s.get t0 = vectorAt p + ofNat 64 (k + 21))
    (ht1 : s.get t1 = p + ofNat 64 policyHashBufferOffset) (ht2 : s.get t2 = ofNat 64 32)
    (hfree : (recordAt it).scriptHash = h → load s.mem (p + ofNat 64 policyFoundOffset) 8 = 0#64)
    (hown : (recordAt it).scriptHash = h → ∀ s₁ s', Quiet loopRegs s s₁ →
      Selected p it s₁ s' → C.RunsAt "policy_next_record" s')
    (hother : (recordAt it).scriptHash ≠ h → ∀ s', Quiet loopRegs s s' →
      C.RunsAt "policy_next_record" s') : C.RunsAt "policy_current_hash_loop" s := by
  have hlong : 61 ≤ it.length := hit.le_length
  obtain ⟨-, -, hhashSize, -, -, -, -, -, -⟩ := slots
  have hbytes : read s.mem (s.get t0) 32 = (recordAt it).scriptHash.bytes := by
    rw [ht0, ← add_ofNat_add_ofNat, read_eq_field hread, hit.bytes_scriptHash]
  rw [← ht1] at hhash
  have hsame : read s.mem (s.get t0) (31 + 1) = read s.mem (s.get t1) (31 + 1) ↔
      (recordAt it).scriptHash = h := by
    rw [hbytes, hhash]
    exact Hash.ext_iff.symm
  refine runsAt_hashLoop (n := 31) hplaced (by decide) ht2 (fun heq s₁ h₁ ↦ ?_)
    fun hne ↦ hother fun heq ↦ hne (hsame.2 heq)
  replace heq := hsame.1 heq
  have hplace : vectorAt p + ofNat 64 k = p + ofNat 64 (16 + k) := add_ofNat_add_ofNat p 16 k
  refine runs_selection ((h₁.get sp).trans hsp)
    (((h₁.get a5).trans ha5).trans hplace) (by omega) (by rw [h₁.mem, ← hplace, hread])
    hit.le_length (fun _ s' hs' ↦ hown heq s₁ s' h₁ hs') fun hne ↦ absurd ?_ hne
  rw [h₁.mem, hfree heq]

/-- **A record is selected if it is the script's own one.** -/
theorem runsAt_keyOrdered
    (hfree : Own h (recordAt it) → load s.mem (p + ofNat 64 policyFoundOffset) 8 = 0#64)
    (hown : Own h (recordAt it) → ∀ s₁ s', Quiet (a6 :: loopRegs) s s₁ →
      s₁.get a6 = vectorAt p + ofNat 64 (k + 20) → Selected p it s₁ s' →
      C.RunsAt "policy_next_record" s')
    (hother : ¬ Own h (recordAt it) → ∀ s', Quiet (a6 :: loopRegs) s s' →
      s'.get a6 = vectorAt p + ofNat 64 (k + 20) →
      C.RunsAt "policy_next_record" s') : C.RunsAt "policy_key_ordered" s := by
  have hlong : 61 ≤ it.length := hit.le_length
  have hbyte := (it.getD 20 0).toNat_lt
  have hadd : ∀ n, s.get a5 + ofNat 64 n = vectorAt p + ofNat 64 (k + n) := by
    intro n
    rw [ha5, add_ofNat_add_ofNat]
  have hrole : load s.mem (vectorAt p + ofNat 64 (k + 20)) 1 = ofNat 64 (it.getD 20 0).toNat := by
    rw [← add_ofNat_add_ofNat]
    exact load_byte hread (by omega)
  have htype : it.getD 20 0 = 1 ↔ (recordAt it).role = .type := by
    rw [← hit.asByte_role]
    exact PolicyScriptRole.asByte_injective.eq_iff (b := .type)
  rw [runsAt_iff hplaced.keyOrdered, hashStart]
  simp (disch := decide) only [slot_rules, runs_rules, act, set_rules, hadd, hrole, hsp]
  rw [ofNat_bne_ofNat]
  split
  · next hne =>
    rw [bne_iff_ne] at hne
    refine hother (fun hown ↦ hne ?_) _ (by simp) (by simp (disch := decide) only [set_rules])
    rw [htype.2 hown.1]
    rfl
  · next heq =>
    rw [bne_iff_ne, not_not] at heq
    have hbyte : it.getD 20 0 = 1 := UInt8.toNat_inj.1 heq
    have hiff : (recordAt it).scriptHash = h ↔ Own h (recordAt it) :=
      (and_iff_right (htype.1 hbyte)).symm
    refine runsAt_ownHash hplaced ?_ ?_ hroom hk hit hread hhash ?_ ?_ get_set_self
      (fun heq ↦ hfree (hiff.1 heq))
      (fun heq s₁ s' h₁ hs' ↦ hown (hiff.1 heq) s₁ s' (Quiet.trans (by simp) h₁) ?_ hs')
      (fun hne s' hs' ↦ hother (fun heq ↦ hne (hiff.2 heq)) s' (Quiet.trans (by simp) hs') ?_)
    · simp (disch := decide) only [set_rules, hsp]
    · simp (disch := decide) only [set_rules, ha5]
    · simp (disch := decide) only [set_rules]
    · simp (disch := decide) only [set_rules]
    · simp (disch := decide) only [h₁.get a6, set_rules]
    · simp (disch := decide) only [hs'.get a6, set_rules]

end Ordered

omit hplaced in
/-- The frame after a selection. -/
theorem Selected.picked (hit : WellFormed it)
    (hk : k + it.length ≤ v.length) (hfield : field k it.length v = it)
    (ha5 : s.get a5 = vectorAt p + ofNat 64 k) (hs' : Selected p it s s') :
    Picked p v (recordAt it) s'.mem := by
  have hlong : 61 ≤ it.length := hit.le_length
  have hargs : (recordAt it).args.length = it.length - 61 := length_drop
  refine ⟨hs'.found, ?_, ?_, k + 61, ?_, by omega, ?_⟩
  · rw [hs'.tag, recordAt, UInt32.toNat_ofNat_of_lt' (u32_lt it 53)]
  · rw [hs'.length, hit.length_args, hargs, recordFixedBytes]
  · rw [hs'.pointer, ha5]
    exact add_ofNat_add_ofNat _ _ 61
  · rw [hargs, ← Bytes.field_field (show 61 + (it.length - 61) ≤ it.length by omega), hfield,
      recordAt, recordFixedBytes]
    exact take_of_length_le (by rw [length_drop])

/-- **One round of the loop**: the record at hand is read, and control comes to the next one. -/
theorem runsAt_record (hfit : Fitting v count s₀) (hi : i < count)
    (hscan : Scan v h count i previous chosen s₀ s)
    (hchosen : ∀ c ∈ chosen, Own h c ∧ ∃ q ∈ previous, c.key ≤ q.key)
    (hok : ∀ r, InRange v (4 * (count + 1)) count i → decodeRecord (item v count i) = .ok r →
      (∀ q ∈ previous, q.key < r.key) → (Own h r → chosen = none) → ∀ s',
      Scan v h count (i + 1) (some r) (if Own h r then some r else chosen) s₀ s' →
      C.RunsAt "policy_next_record" s')
    (hno : (¬ ∃ r, InRange v (4 * (count + 1)) count i ∧ decodeRecord (item v count i) = .ok r ∧
      ∀ q ∈ previous, q.key < r.key) → Fails C fail s₀) : C.RunsAt "policy_record" s := by
  have hheader := hfit.header
  have hroom := hfit.room
  refine runsAt_recordStart hplaced hfit hi hscan fun s₁ h₁ ht0 ht1 ha2 ↦ ?_
  rw [runsAt_iff hplaced.recordEnd]
  have hkeeps₁ : Keeps clobbered s₀ s₁ := hscan.regs.trans h₁.regs
  refine runs_recordCheck ((h₁.get a4).trans hscan.vector)
    ((h₁.get a3).trans hscan.header) ((h₁.get a7).trans hscan.stop) ht0 ht1
    (h₁.mem ▸ hscan.bytes) (by omega) (by omega) (fun hrecord s₂ h₂ ha5 ↦ ?_)
    fun hne ↦ (hno fun ⟨r, hrange, hr, _⟩ ↦
      hne ⟨hrange, (decodeRecord_ok_iff.1 hr).1⟩).of_keeps hkeeps₁
  obtain ⟨hrange, hit⟩ := hrecord
  have hlong : 61 ≤ (item v count i).length := hit.le_length
  have hnonempty := hrange.nonempty
  have hend := hrange.le_length
  have hitem : (item v count i).length = offset v count (i + 1) - offset v count i :=
    Bytes.length_field (by omega)
  have hfield : field (offset v count i) (item v count i).length v = item v count i := by
    rw [hitem, item]
  have hkeyField : field (offset v count i + 20) 33 v = keyBytes (recordAt (item v count i)) := by
    rw [← hit.field_key, ← Bytes.field_field (show 20 + 33 ≤ (item v count i).length by omega),
      hfield]
  have hdecoded : decodeRecord (item v count i) = .ok (recordAt (item v count i)) :=
    decodeRecord_ok_iff.2 ⟨hit, rfl⟩
  have hquiet₂ : Quiet (a2 :: a5 :: loopRegs) s s₂ := h₁.mono.trans h₂
  have hkeeps₂ : Keeps clobbered s₀ s₂ := hscan.regs.trans hquiet₂.regs
  refine runsAt_argsValid hplaced hfit.fits hroom (hquiet₂.mem ▸ hscan.bytes)
    (hquiet₂.get a6 ▸ hscan.behind) ha5 (by omega) hkeyField (fun horder s₃ h₃ ↦ ?_) fun hne ↦
    (hno fun ⟨r, _, hr, horder⟩ ↦
      hne (by rwa [(decodeRecord_ok_iff.1 hr).2] at horder)).of_keeps hkeeps₂
  have hquiet₃ := hquiet₂.trans h₃
  have hkeeps₃ : Keeps clobbered s₀ s₃ := hkeeps₂.trans h₃.regs
  -- the script's own record cannot come twice, since the keys grow
  have hfree : Own h (recordAt (item v count i)) → chosen = none := by
    intro hown
    refine Option.eq_none_iff_forall_not_mem.2 fun c hc ↦ ?_
    obtain ⟨hownC, q, hq, hle⟩ := hchosen c hc
    have hkey : c.key = (recordAt (item v count i)).key :=
      congrArg toLex (Prod.ext (hownC.1.trans hown.1.symm) (hownC.2.trans hown.2.symm))
    exact absurd (hle.trans_lt (horder q hq)) (hkey ▸ lt_irrefl _)
  have hread₃ : read s₃.mem (vectorAt (s₀.get sp) + ofNat 64 (offset v count i))
      (item v count i).length = item v count i := by
    rw [hquiet₃.mem, read_eq_field hscan.bytes, hfield]
  have ha2₃ : s₃.get a2 = vectorAt (s₀.get sp) + ofNat 64 (4 * (i + 1 + 1)) :=
    (h₃.get a2).trans ((h₂.get a2).trans ha2)
  have ha5₃ := (h₃.get a5).trans ha5
  -- what is kept on the way to the next record
  have hnext : ∀ {s' : State} {chosen' : Option PolicyWitnessRecord},
      Keeps (a6 :: t5 :: t6 :: loopRegs) s₃ s' →
      s'.get a6 = vectorAt (s₀.get sp) + ofNat 64 (offset v count i + 20) →
      Agree (s₀.get sp) 0 policyArgsPointerOffset s.mem s'.mem →
      Chosen (s₀.get sp) v chosen' s'.mem →
      Scan v h count (i + 1) (some (recordAt (item v count i))) chosen' s₀ s' := by
    intro s' chosen' hs' ha6' hagree hchosen'
    obtain ⟨-, -, -, hbuffer, hpointer, -, -, -, -⟩ := slots
    have hkept : Keeps [a2, a5, a6, t0, t1, t2, t3, t4, t5, t6] s s' := hquiet₃.regs.mono.trans hs'
    refine ⟨hkeeps₃.trans hs', ?_, ?_, ?_, ?_, ⟨_, ha6', by omega, hkeyField⟩, ?_, ?_, hchosen'⟩
    · rw [hkept.get a4, hscan.vector]
    · rw [hkept.get a7, hscan.stop]
    · rw [hkept.get a3, hscan.header]
    · rw [hs'.get a2, ha2₃]
    · rw [hagree.read, hscan.bytes]
    · rw [hagree.read, hscan.hash]
  refine runsAt_keyOrdered hplaced ((hkeeps₃.get sp)) ha5₃ hroom (by omega) hit hread₃
    (hquiet₃.mem ▸ hscan.hash) (fun hown ↦ ?_) (fun hown s₄ s' h₄ ha6₄ hs' ↦ ?_)
    fun hother s' hs' ha6' ↦ ?_
  · have hempty := hscan.chosen
    rw [hfree hown] at hempty
    exact hquiet₃.mem ▸ hempty
  · refine hok _ hrange hdecoded horder hfree s' (hnext ?_ ?_ ?_ ?_)
    · exact h₄.regs.mono.trans hs'.regs
    · rw [hs'.regs.get a6, ha6₄]
    · rw [← hquiet₃.mem, ← h₄.mem]
      exact hs'.agree
    · rw [if_pos hown]
      exact hs'.picked hit (by omega) hfield ((h₄.get a5).trans ha5₃)
  · refine hok _ hrange hdecoded horder hfree s' (hnext hs'.regs.mono ha6' ?_ ?_)
    · rw [hs'.mem, hquiet₃.mem]
      exact .refl
    · rw [if_neg hother, hs'.mem, hquiet₃.mem]
      exact hscan.chosen

/-- After the last record there must be a selected one. -/
theorem runsAt_nextRecord (hfit : Fitting v count s₀) (hi : i ≤ count)
    (hscan : Scan v h count i previous chosen s₀ s) (hmore : i < count → C.RunsAt "policy_record" s)
    (hdone : i = count → ∀ r ∈ chosen, ∀ s', Keeps clobbered s₀ s' → s'.mem = s.mem →
      C.RunsAt "policy_selected" s') (hnone : i = count → chosen = none → Fails C fail s₀) :
    C.RunsAt "policy_next_record" s := by
  have hheader := hfit.header
  have hroom := hfit.room
  have hfits := hfit.fits
  obtain ⟨-, -, -, -, -, -, -, -, hframe⟩ := slots
  have hless : (s.get a2).ult (s.get a3) = decide (i < count) := by
    rw [hscan.cursor, hscan.header, add_ofNat_add_ofNat, add_ofNat_add_ofNat, BitVec.ult,
      toNat_add_ofNat (by omega), toNat_add_ofNat (by omega), decide_eq_decide]
    omega
  rw [runsAt_iff hplaced.nextRecord]
  simp (disch := decide) only [recordNext, slot_rules, runs_rules, act, set_rules, hless,
    hscan.regs.get sp]
  refine ite_branch (fun hlt ↦ hmore (of_decide_eq_true hlt)) fun hge ↦ ?_
  have hlast : i = count := le_antisymm hi (not_lt.1 (of_decide_eq_false hge))
  have hchosen := hscan.chosen
  cases chosen with
  | none =>
    have hzero : load s.mem (s₀.get sp + ofNat 64 policyFoundOffset) 8 = 0#64 := hchosen
    rw [hzero, beq_self_eq_true]
    exact hnone hlast rfl _ (by simp [hscan.regs])
  | some r =>
    rw [Picked.found hchosen]
    exact hdone hlast r rfl _ (by simp [hscan.regs]) (by simp only [slot_rules, mem_set])

omit hplaced in
/-- The selection of a list of records, one at a time. -/
theorem or_selectedRecord_cons {rest : List PolicyWitnessRecord} (hfree : Own h r → chosen = none) :
    chosen.or (selectedRecord (r :: rest) .type h) =
      (if Own h r then some r else chosen).or (selectedRecord rest .type h) := by
  rw [selectedRecord, find?_cons]
  split
  · next hown =>
    have hown : Own h r := of_decide_eq_true hown
    rw [hfree hown, if_pos hown, Option.none_or, Option.some_or]
  · next hown =>
    have hown : ¬ Own h r := of_decide_eq_false hown
    rw [if_neg hown, selectedRecord]

/-- **The loop reads the records that are left**, and goes on if one of them, or one before, is the
script's own. -/
theorem runsAt_records (hfit : Fitting v count s₀)
    (hcount : i + (n + 1) = count) (hscan : Scan v h count i previous chosen s₀ s)
    (hchosen : ∀ c ∈ chosen, Own h c ∧ ∃ q ∈ previous, c.key ≤ q.key)
    (hok : ∀ rest r, Reads v (4 * (count + 1)) count (n + 1) i previous rest →
      chosen.or (selectedRecord rest .type h) = some r → ∀ s', Keeps clobbered s₀ s' →
      Picked (s₀.get sp) v r s'.mem → read s'.mem (vectorAt (s₀.get sp)) v.length = v →
      C.RunsAt "policy_selected" s')
    (hno : (¬ ∃ rest r, Reads v (4 * (count + 1)) count (n + 1) i previous rest ∧
      chosen.or (selectedRecord rest .type h) = some r) →
      Fails C fail s₀) : C.RunsAt "policy_record" s := by
  induction n generalizing i previous chosen s with
  | zero =>
    refine runsAt_record hplaced hfit (by omega) hscan hchosen
      (fun r hrange hr horder hfree s₁ hscan₁ ↦ ?_) fun hne ↦ hno ?_
    · have hreads : Reads v (4 * (count + 1)) count 1 i previous [r] :=
        ⟨r, [], rfl, hrange, hr, horder, rfl⟩
      have hselected : chosen.or (selectedRecord [r] .type h) =
          if Own h r then some r else chosen := by
        rw [or_selectedRecord_cons hfree]
        exact Option.or_none
      refine runsAt_nextRecord hplaced hfit (by omega) hscan₁ (fun hlt ↦ absurd hlt (by omega))
        (fun _ c hc s₂ hs₂ hmem₂ ↦ ?_) fun _ hnone ↦ hno ?_
      · have hpicked := hscan₁.chosen
        rw [hc] at hpicked
        exact hok [r] c hreads (hselected.trans hc) s₂ hs₂ (hmem₂ ▸ hpicked) (hmem₂ ▸ hscan₁.bytes)
      · rintro ⟨rest, c, ⟨r', _, rfl, -, hr', -, rfl⟩, hc⟩
        obtain rfl := ok.inj (hr.symm.trans hr')
        exact nomatch hnone.symm.trans (hselected.symm.trans hc)
    · rintro ⟨rest, c, ⟨r, _, rfl, hrange, hr, horder, -⟩, -⟩
      exact hne ⟨r, hrange, hr, horder⟩
  | succ n ih =>
    refine runsAt_record hplaced hfit (by omega) hscan hchosen
      (fun r hrange hr horder hfree s₁ hscan₁ ↦ ?_) fun hne ↦ hno ?_
    · refine runsAt_nextRecord hplaced hfit (by omega) hscan₁ (fun _ ↦ ?_)
        (fun hlast ↦ absurd hlast (by omega)) fun hlast ↦ absurd hlast (by omega)
      refine ih (by omega) hscan₁ (fun c hc ↦ ?_) (fun rest c hrest hc ↦ ?_) fun hne ↦ hno ?_
      · split at hc
        · next hown =>
          obtain rfl := some.inj hc
          exact ⟨hown, r, rfl, le_rfl⟩
        · obtain ⟨hown, q, hq, hle⟩ := hchosen c hc
          exact ⟨hown, r, rfl, hle.trans (horder q hq).le⟩
      · exact hok (r :: rest) c ⟨r, rest, rfl, hrange, hr, horder, hrest⟩
          ((or_selectedRecord_cons hfree).trans hc)
      · rintro ⟨rest, c, ⟨r', rest', rfl, -, hr', -, hrest⟩, hc⟩
        obtain rfl := ok.inj (hr.symm.trans hr')
        exact hne ⟨rest', c, hrest, (or_selectedRecord_cons hfree).symm.trans hc⟩
    · rintro ⟨rest, c, ⟨r, _, rfl, hrange, hr, horder, -⟩, -⟩
      exact hne ⟨r, hrange, hr, horder⟩

end Records

end CellScript.PolicyWitness
