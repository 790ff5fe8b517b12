import CellScript.Runtime.EpochOrder
import CellScript.Runtime.SourceView

/-!
# Maturity of a deposit

The helper that `emit_runtime_dao_require_input_relative_epoch_since_at_least_helper` emits. It is
given the view of an input and an epoch as a number and a fraction. It loads the since word of the
input and reports zero if the word is a relative epoch that is not before the required one.
-/

namespace CellScript.Runtime.Maturity

open Assembler (Instruction)
open BitVec (ofNat)
open Bytes (le)
open MachineState
open Blocks
open Since

/-! ### The since words of the inputs -/

def inputFieldSince : Word := 1#64

/-- An environment whose calls report the since words of the inputs, too. -/
structure SinceEnvironment extends Environment where
  sinces : List Word
  length_sinces : sinces.length = tx.inputs.length

namespace SinceEnvironment

variable (env : SinceEnvironment)

def sincesOf : Source → Option (List Word)
  | .input => some env.sinces
  | .groupInput => some (env.tx.groupInputIndices.filterMap (env.sinces[·]?))
  | .output | .cellDep | .groupOutput => none

/-- What a call asks for. -/
def asked (number index source fieldId : Word) : Option Item :=
  if number = loadInputByField ∧ fieldId = inputFieldSince then do
    let sinces ← env.sincesOf (← Source.ofWord source)
    return itemAt sinces index (.ok <| le 8 ·.toNat)
  else requested env.tx number index source fieldId

def surroundings : Surroundings where
  ecall s := (env.asked (s.get a7) (s.get a3) (s.get a4) (s.get a5)).map (deliver env.reports s)
  symbol := env.symbol
  returnAddress := env.returnAddress

/-- The since word of the input that a view stands for. -/
def sinceAt (view : Word) : Option Word := do
  let (index, source) ← decodeView view
  (← env.sincesOf (← Source.ofWord source))[index.toNat]?

end SinceEnvironment

/-! ### The code -/

def cellLoadFailed : ℤ := 3

def daoMaturityViolation : ℤ := 36

def ckbSourceViewInvalid : ℤ := 44

abbrev success : String := "dao_epoch_since_success"

abbrev invalid : String := "dao_epoch_since_input_source_invalid"

abbrev failed : String := "dao_epoch_since_load_failed"

abbrev malformed : String := "dao_epoch_since_malformed"

abbrev immature : String := "dao_epoch_since_immature"

abbrev done : String := "dao_epoch_since_done"

/-- What `emit_decode_input_source_view_to_t1_t2` emits after a view has been taken apart. -/
def inputSourceCheck : List Instruction :=
  [.li t0 1, .beq t2 t0 "input_source_view_decoded", .li t0 0x0100000000000001,
   .beq t2 t0 "input_source_view_decoded", .jump invalid]

def requiredBounds : List Instruction :=
  [.li t0 epochNumberBound, .sltu t1 a1 t0, .beqz t1 malformed,
   .li t0 epochFractionBound, .sltu t1 a2 t0, .beqz t1 malformed,
   .sltu t1 a3 t0, .beqz t1 malformed, .beqz a3 malformed,
   .sltu t1 a2 a3, .beqz t1 malformed]

def sinceLoad : List Instruction :=
  [.li t0 8, .sd t0 sp 8, .addi a0 sp 40, .addi a1 sp 8, .li a2 0, .addi a3 t1 0, .addi a4 t2 0,
   .li a5 1, .li a7 2083, .ecall, .bnez a0 failed, .ld t0 sp 8, .li t1 8,
   .sub t2 t0 t1, .bnez t2 malformed]

def sinceFlags : List Instruction :=
  [.ld t0 sp 40, .li t1 1, .slli t1 t1 63, .and t2 t0 t1, .beqz t2 malformed,
   .li t1 remainFlagsBits, .and t2 t0 t1, .bnez t2 malformed,
   .li t1 metricTypeFlagMask, .and t2 t0 t1, .li t3 Metric.epoch.flag, .sub t4 t2 t3,
   .bnez t4 malformed]

def sinceFields : List Instruction :=
  [.li t1 valueMask, .and t0 t0 t1, .li t1 epochNumberMask, .and t2 t0 t1, .srai t3 t0 24,
   .li t1 epochFractionMask, .and t3 t3 t1, .srai t4 t0 40, .and t4 t4 t1,
   .beqz t4 malformed, .sltu t5 t3 t4, .beqz t5 malformed,
   .sd t2 sp 48, .sd t3 sp 56, .sd t4 sp 64]

def sinceComparison : List Instruction :=
  [.ld t0 sp 16, .sltu t1 t0 t2, .bnez t1 success, .sltu t1 t2 t0,
   .bnez t1 immature, .ld t0 sp 56, .ld t1 sp 32, .mul t2 t0 t1, .ld t0 sp 24,
   .ld t1 sp 64, .mul t3 t0 t1, .sltu t4 t2 t3, .bnez t4 immature]

def maturitySymbol : String := "__dao_require_input_relative_epoch_since_at_least"

/-- The helper: the required epoch is in `a1`, `a2` and `a3`. -/
def requireInputRelativeEpochSinceAtLeast : Program :=
  [⟨maturitySymbol, [.addi sp sp (-80), .sd ra sp 72, .sd a1 sp 16, .sd a2 sp 24, .sd a3 sp 32] ++
    (requiredBounds ++ decodeSourceView invalid)⟩,
   sourceViewDirect,
   ⟨"source_view_decoded", inputSourceCheck⟩,
   ⟨"input_source_view_decoded", sinceLoad ++ (sinceFlags ++ (sinceFields ++ sinceComparison))⟩,
   ⟨success, [.li a0 0, .jump done]⟩,
   ⟨invalid, [.li a0 ckbSourceViewInvalid, .jump done]⟩,
   ⟨failed, [.li a0 cellLoadFailed, .jump done]⟩,
   ⟨malformed, [.li a0 ckbSinceMalformed, .jump done]⟩,
   ⟨immature, [.li a0 daoMaturityViolation]⟩,
   ⟨done, [.ld ra sp 72, .addi sp sp 80, .ret]⟩]

/-! ### Mature inputs -/

/-- A relative epoch with a proper fraction. -/
def RelativeEpoch (w : Word) : Prop :=
  w &&& ofNat 64 relativeFlag ≠ 0#64 ∧ metricBits w = ofNat 64 Metric.epoch.flag ∧
    w &&& ofNat 64 remainFlagsBits = 0#64 ∧ index w < length w

/-- The since word of an input is a relative epoch from the required one on. -/
def Mature (n i l w : Word) : Prop :=
  Admissible n i l ∧ RelativeEpoch w ∧ (n.toNat : ℚ) + (i.toNat : ℚ) / l.toNat ≤ epoch w

/-- The same for an epoch in registers. -/
abbrev MatureFor (s : State) (w : Word) : Prop := Mature (s.get a1) (s.get a2) (s.get a3) w

/-- **The order of the epochs, by cross multiplication.** -/
theorem required_le_epoch_iff {n i l w : Word} (h : Admissible n i l) (hw : index w < length w) :
    (n.toNat : ℚ) + (i.toNat : ℚ) / l.toNat ≤ epoch w ↔ n.toNat < number w ∨
      n.toNat = number w ∧ i.toNat * length w ≤ index w * l.toNat := by
  obtain ⟨hnumber, hindex, hlength⟩ := @fields_packed false n i l h
  have hlt := h.2.2.2
  have hresult := result_compareWords (a := w) (b := packed false n i l) (.inl hw)
    (.inl (by rwa [hindex, hlength])) (fun hd ↦ by rw [Degenerate] at hd; omega) .ge
  rw [BinaryOp.holds, epoch_eq (packed _ _ _ _), hnumber, hindex, hlength] at hresult
  have hiff : (n.toNat : ℚ) + (i.toNat : ℚ) / l.toNat ≤ epoch w ↔
      BinaryOp.ge.result (compareWords w (packed false n i l)) = true := by
    rw [hresult, decide_eq_true_iff]
  rw [hiff, compareWords, hnumber, hindex, hlength]
  split_ifs <;> simp [BinaryOp.result, BinaryOp.lessResult, BinaryOp.greaterResult,
    BinaryOp.equalResult] <;> omega

/-- The fields of a word are those of its value, also when they are shifted down with the sign. -/
theorem fields_value (w : Word) :
    (w &&& ofNat 64 valueMask &&& ofNat 64 epochNumberMask).toNat = number w ∧
      ((w &&& ofNat 64 valueMask).sshiftRight 24 &&& ofNat 64 epochFractionMask).toNat = index w ∧
      ((w &&& ofNat 64 valueMask).sshiftRight 40 &&& ofNat 64 epochFractionMask).toNat =
        length w := by
  have hvalue : (w &&& ofNat 64 valueMask).toNat = w.toNat % 2 ^ 56 :=
    toNat_and_mask (k := 56) (by decide)
  have hmsb : (w &&& ofNat 64 valueMask).msb = false := by
    rw [BitVec.msb_eq_false_iff_two_mul_lt, hvalue]
    omega
  rw [BitVec.sshiftRight_eq_of_msb_false hmsb, BitVec.sshiftRight_eq_of_msb_false hmsb]
  generalize w &&& ofNat 64 valueMask = v at hvalue
  refine ⟨(toNat_number v).trans ?_, (toNat_index v).trans ?_, (toNat_length v).trans ?_⟩
  · rw [number, number, hvalue]
    omega
  · rw [index, index, hvalue]
    omega
  · rw [length, length, hvalue]
    omega

/-! ### Runs of the helper -/

section Run

variable {env : SinceEnvironment} {helpers : String → Option Program} {s t t' : State} {P : Prop}

/-- The code of the helper, with what it is to report. -/
abbrev deciding (env : SinceEnvironment) (helpers : String → Option Program) (P : Prop)
    (s : State) : Code (machine env.surroundings helpers) :=
  ⟨requireInputRelativeEpochSinceAtLeast, s.get ra, fun s' ↦ s'.get a0 = 0#64 ↔ P⟩

/-- The frame of the helper holds what it has been called with. -/
structure Entered (s t : State) : Prop where
  link : load t.mem (t.get sp + 72#64) 8 = s.get ra
  number : load t.mem (t.get sp + 16#64) 8 = s.get a1
  index : load t.mem (t.get sp + 24#64) 8 = s.get a2
  length : load t.mem (t.get sp + 32#64) 8 = s.get a3

/-- The registers of the checks, and of the report. -/
abbrev checkRegs : List Reg := [a0, t0, t1, t2, t3, t4, t5]

theorem Entered.quiet (hentered : Entered s t) (hquiet : Quiet checkRegs t t') : Entered s t' := by
  obtain ⟨hlink, hnumber, hindex, hlength⟩ := hentered
  constructor <;> rwa [hquiet.get sp, hquiet.mem]

theorem runsAt_done (hentered : Entered s t) (hP : t.get a0 = 0#64 ↔ P) :
    (deciding env helpers P s).RunsAt done t := by
  rw [runsAt_iff rfl]
  simp (disch := decide) only [runs_rules, act, set_rules, follows_ret, hentered.link]
  exact ⟨trivial, hP⟩

/-- The exits of the helper other than success. -/
def refusals : List String := [invalid,
  failed, malformed, immature]

theorem runsAt_refused {l : String} (hP : ¬ P) (hentered : Entered s t)
    (hquiet : Quiet checkRegs t t' := by simp) (hl : l ∈ refusals := by decide) :
    (deciding env helpers P s).RunsAt l t' := by
  have hdone : ∀ v, v ≠ 0#64 → (deciding env helpers P s).RunsAt done (t'.set a0 v) := by
    refine fun v hv ↦ runsAt_done (hentered.quiet (by simp [hquiet])) ?_
    exact iff_of_false hv hP
  simp only [refusals, mem_cons, not_mem_nil, or_false] at hl
  rcases hl with rfl | rfl | rfl | rfl <;> rw [runsAt_iff rfl] <;>
    simp only [runs_rules, act] <;> exact hdone _ (by decide)

theorem runsAt_success (hP : P) (hentered : Entered s t)
    (hquiet : Quiet checkRegs t t' := by simp) : (deciding env helpers P s).RunsAt success t' := by
  rw [runsAt_report rfl]
  exact runsAt_done (hentered.quiet (by simp [hquiet])) (iff_of_true rfl hP)

section Word

variable {w : Word} (hadmissible : Admissible (s.get a1) (s.get a2) (s.get a3))
  (hP : P ↔ MatureFor s w)

include hadmissible hP

theorem runs_sinceComparison (hentered : Entered s t) (hepoch : RelativeEpoch w)
    (hnumber : (t.get t2).toNat = number w)
    (hindex : (load t.mem (t.get sp + 56#64) 8).toNat = index w)
    (hlength : (load t.mem (t.get sp + 64#64) 8).toNat = length w) :
    (deciding env helpers P s).Runs sinceComparison (some success) t := by
  have hmul := toNat_mul_fields (x := load t.mem (t.get sp + 56#64) 8) (y := s.get a3)
    (hindex ▸ index_lt w) hadmissible.2.2.1
  have hmul' := toNat_mul_fields (x := s.get a2) (y := load t.mem (t.get sp + 64#64) 8)
    hadmissible.2.1 (hlength ▸ length_lt w)
  rw [MatureFor, Mature, and_iff_right hadmissible, and_iff_right hepoch,
    required_le_epoch_iff hadmissible hepoch.2.2.2] at hP
  simp (disch := decide) only [sinceComparison, runs_rules, act, set_rules, hentered.number,
    hentered.index, hentered.length, flag_bne_zero, ult_iff_lt, BitVec.lt_def, hmul, hmul', hnumber,
    hindex, hlength]
  split_ifs with hlater hearlier hbefore
  · exact runsAt_success (hP.2 (.inl hlater)) hentered
  · exact runsAt_refused (fun h ↦ by have := hP.1 h; omega) hentered
  · exact runsAt_refused (fun h ↦ by have := hP.1 h; omega) hentered
  · exact runsAt_success (hP.2 (.inr (by omega))) hentered

theorem runs_sinceFields (hentered : Entered s t) (hw : t.get t0 = w)
    (hrelative : w &&& ofNat 64 relativeFlag ≠ 0#64)
    (hmetric : metricBits w = ofNat 64 Metric.epoch.flag)
    (hflags : w &&& ofNat 64 remainFlagsBits = 0#64) :
    (deciding env helpers P s).Runs (sinceFields ++ sinceComparison) (some success) t := by
  obtain ⟨hnumber, hindex, hlength⟩ := fields_value w
  simp (disch := decide) only [sinceFields, runs_rules, act, set_rules, State.get_setMem,
    State.mem_setMem, hw, flag_beq_zero, beq_iff_eq, Int.reduceToNat]
  generalize w &&& ofNat 64 valueMask &&& ofNat 64 epochNumberMask = n at hnumber
  generalize (w &&& ofNat 64 valueMask).sshiftRight 24 &&& ofNat 64 epochFractionMask = i at hindex
  generalize (w &&& ofNat 64 valueMask).sshiftRight 40 &&& ofNat 64 epochFractionMask = l at hlength
  have hlt : i.ult l = true ↔ index w < length w := by
    rw [ult_iff_lt, BitVec.lt_def, hindex, hlength]
  simp only [not_eq_true', ← not_eq_true, hlt, ite_not]
  have hmalformed : ¬ index w < length w → ¬ P := fun hnot h ↦ hnot (hP.1 h).2.1.2.2.2
  split_ifs with hzero hproper
  · refine runsAt_refused (hmalformed ?_) hentered
    rw [← hlength, hzero]
    exact Nat.not_lt_zero _
  · refine runs_sinceComparison hadmissible hP ?_ ⟨hrelative, hmetric, hflags, hproper⟩ ?_ ?_ ?_
    · constructor <;> simp (disch := decide) only [set_rules, State.get_setMem, State.mem_setMem,
        load_store_of_disjoint, hentered.link, hentered.number, hentered.index, hentered.length]
    all_goals simp (disch := decide) only [set_rules, State.get_setMem, State.mem_setMem,
      load_store_of_disjoint, load_store_self, hnumber, hindex, hlength]
  · exact runsAt_refused (hmalformed hproper) hentered

theorem runs_sinceFlags (hentered : Entered s t) (hsince : load t.mem (t.get sp + 40#64) 8 = w) :
    (deciding env helpers P s).Runs (sinceFlags ++ (sinceFields ++ sinceComparison))
      (some success) t := by
  have hsub : ∀ x y : Word, x - y = 0#64 ↔ x = y := fun _ _ ↦ sub_eq_zero
  simp (disch := decide) only [sinceFlags, runs_rules, act, set_rules, hsince, bne_iff_ne,
    beq_iff_eq, hsub, ne_eq, ite_not]
  split_ifs with hrelative hflags hmetric
  · exact runsAt_refused (fun h ↦ (hP.1 h).2.1.1 hrelative) hentered
  · exact runs_sinceFields hadmissible hP (hentered.quiet (by simp))
      (by simp (disch := decide) only [set_rules]) hrelative hmetric hflags
  · exact runsAt_refused (fun h ↦ hmetric (hP.1 h).2.1.2.1) hentered
  · exact runsAt_refused (fun h ↦ hflags (hP.1 h).2.1.2.2.1) hentered

end Word

theorem runsAt_inputView (source : Source) (index : Word) {sinces : List Word}
    (hadmissible : Admissible (s.get a1) (s.get a2) (s.get a3)) (hentered : Entered s t)
    (hindex : t.get t1 = index) (hsource : t.get t2 = source.word)
    (hsinces : env.sincesOf source = some sinces)
    (hP : P ↔ ∃ w, sinces[index.toNat]? = some w ∧ MatureFor s w) :
    (deciding env helpers P s).RunsAt "input_source_view_decoded" t := by
  have hcall : ∀ {u : State}, u.get a7 = 2083#64 → u.get a5 = 1#64 → u.get a4 = source.word →
      u.get a3 = index → env.surroundings.ecall u =
        some (deliver env.reports u (itemAt sinces index (.ok <| le 8 ·.toNat))) := by
    intro u hnumber hfield hsource hindex
    show (env.asked _ _ _ _).map _ = _
    rw [hnumber, hfield, hsource, hindex, SinceEnvironment.asked, if_pos ⟨rfl, rfl⟩,
      Source.ofWord_word]
    show (env.sincesOf source >>= _).map _ = _
    rw [hsinces]
    rfl
  rw [runsAt_iff rfl]
  simp (disch := decide) only [sinceLoad, runs_rules, BitVec.add_zero, act, set_rules,
    State.get_setMem, hindex, hsource]
  generalize hu : State.set _ a7 _ = u
  have hentered₁ : Entered s u := by
    subst hu
    constructor <;> simp (disch := decide) only [set_rules, State.get_setMem, State.mem_setMem,
      load_store_of_disjoint, hentered.link, hentered.number, hentered.index, hentered.length]
  have hregs : u.get a7 = 2083#64 ∧ u.get a5 = 1#64 ∧ u.get a4 = source.word ∧ u.get a3 = index ∧
      u.get a2 = 0#64 ∧ u.get a1 = u.get sp + 8#64 ∧ u.get a0 = u.get sp + 40#64 ∧
      load u.mem (u.get sp + 8#64) 8 = 8#64 := by
    subst hu
    simp (disch := decide) only [set_rules, State.get_setMem, State.mem_setMem, load_store_self,
      and_self]
  obtain ⟨h7, h5, h4, h3, h2, h1, h0, hroom⟩ := hregs
  rw [follows_ecall (hcall h7 h5 h4 h3), itemAt]
  cases hw : sinces[index.toNat]? with
  | none =>
    rw [deliver, runs_cons, act, follows_branch, get_set_self, if_pos (by decide)]
    exact runsAt_refused (fun h ↦ by simp [hP, hw] at h) hentered₁
  | some w =>
    have hdelivered : Delivered env.reports _ 40 8 8 _ u (deliver _ u (.ok (le 8 w.toNat))) :=
      delivered (by decide) (by decide) h0 h1 h2 hroom
    generalize deliver _ _ _ = v at hdelivered
    obtain ⟨hstatus, htotal, hbytes, hregs, hagree⟩ := hdelivered
    have hsp := hregs.get sp
    have hlength : (le 8 w.toNat).length = 8 := Bytes.length_le 8 _
    rw [drop_zero, hlength] at hstatus htotal
    rw [drop_zero, take_of_length_le hlength.le, hlength] at hbytes
    have hsince : load v.mem (v.get sp + 40#64) 8 = w := by
      rw [hsp, load, hbytes, Bytes.ofLe_le_of_lt (by simpa using w.isLt), ofNat_toNat, setWidth_eq]
    have hargs := hagree 16 40 (by decide) (by decide) (by decide)
    have hlink := hagree 72 80 (by decide) (by decide) (by decide)
    have hentered₂ : Entered s v := by
      constructor <;> rw [hsp]
      · exact (hlink.load (j := 72)).trans hentered₁.link
      · exact (hargs.load (j := 16)).trans hentered₁.number
      · exact (hargs.load (j := 24)).trans hentered₁.index
      · exact (hargs.load (j := 32)).trans hentered₁.length
    simp (disch := decide) only [runs_rules, act, set_rules, hsp, hstatus, htotal, if_false,
      Nat.lt_irrefl, bne_self_eq_false, false_eq_true, BitVec.sub_self]
    refine runs_sinceFlags (w := w) hadmissible ?_ (hentered₂.quiet (by simp)) ?_
    · rw [hP, hw]
      simp
    · simp (disch := decide) only [set_rules, hsince]

theorem runsAt_sourceDecoded {index source : Word}
    (hadmissible : Admissible (s.get a1) (s.get a2) (s.get a3)) (hentered : Entered s t)
    (hdecode : decodeView (s.get a0) = some (index, source)) (hindex : t.get t1 = index)
    (hsource : t.get t2 = source) :
    (deciding env helpers (∃ w, env.sinceAt (s.get a0) = some w ∧
      MatureFor s w) s).RunsAt "source_view_decoded" t := by
  have hat : ∀ (origin : Source) {sinces : List Word}, source = origin.word →
      env.sincesOf origin = some sinces → env.sinceAt (s.get a0) = sinces[index.toNat]? := by
    intro origin sinces hword hsinces
    rw [SinceEnvironment.sinceAt, hdecode, hword]
    simp [hsinces]
  rw [runsAt_iff rfl]
  simp (disch := decide) only [inputSourceCheck, runs_rules, act, set_rules, hsource, beq_iff_eq]
  split_ifs with hinput hgroup
  · refine runsAt_inputView .input index hadmissible
      (hentered.quiet (by simp)) ?_ ?_ rfl ?_
    · simp (disch := decide) only [set_rules, hindex]
    · simp (disch := decide) only [set_rules, hsource, hinput, Source.word]
    · rw [hat .input hinput rfl]
  · refine runsAt_inputView .groupInput index hadmissible
      (hentered.quiet (by simp)) ?_ ?_ rfl ?_
    · simp (disch := decide) only [set_rules, hindex]
    · simp (disch := decide) only [set_rules, hsource, hgroup, Source.word]
    · rw [hat .groupInput hgroup rfl]
  · refine runsAt_refused ?_ hentered
    rintro ⟨w, hw, -⟩
    rw [SinceEnvironment.sinceAt, hdecode] at hw
    change (Source.ofWord source).bind _ = some w at hw
    obtain ⟨origin, horigin, hw⟩ := bind_eq_some_iff.1 hw
    obtain ⟨sinces, hsinces, -⟩ := bind_eq_some_iff.1 hw
    cases origin with
    | input => exact hinput (Source.eq_word_of_ofWord horigin)
    | groupInput => exact hgroup (Source.eq_word_of_ofWord horigin)
    | output | cellDep | groupOutput => cases hsinces

/-- **The helper reports zero exactly if the input is mature.** -/
theorem maturity_iff (env : SinceEnvironment) (s : State) :
    ∃ s', Calls (machine env.surroundings fun _ ↦ some requireInputRelativeEpochSinceAtLeast)
        maturitySymbol s s' ∧
      (s'.get a0 = 0#64 ↔
        ∃ w, env.sinceAt (s.get a0) = some w ∧ Mature (s.get a1) (s.get a2) (s.get a3) w) := by
  refine exists_calls rfl (l := maturitySymbol) rfl ?_
  show (deciding env _ _ s).RunsAt _ _
  rw [runsAt_iff rfl]
  simp (disch := decide) only [runs_rules, BitVec.reduceOfInt, act, set_rules, slot_rules]
  generalize s.get sp + 18446744073709551536#64 = b
  generalize ht : State.setMem _ (store _ _ 8 (s.get a3)) = t
  have hentered : Entered s t := by
    subst ht
    constructor <;> simp (disch := decide) only [set_rules, slot_rules]
    · rw [load_store_of_disjoint, load_store_of_disjoint, load_store_of_disjoint, load_store_self]
    · rw [load_store_of_disjoint, load_store_of_disjoint, load_store_self]
    · rw [load_store_of_disjoint, load_store_self]
    · rw [load_store_self]
  have hkeeps : Keeps [sp] s t := by
    subst ht
    simp
  have hrefused : ¬ Admissible (s.get a1) (s.get a2) (s.get a3) →
      ¬ ∃ w, env.sinceAt (s.get a0) = some w ∧ MatureFor s w := by
    rintro hnot ⟨w, -, h⟩
    exact hnot h.1
  have hnumber : (ofNat 64 epochNumberBound).toNat = epochNumberBound := rfl
  have hfraction : (ofNat 64 epochFractionBound).toNat = epochFractionBound := rfl
  simp (disch := decide) only [requiredBounds, runs_rules, act, set_rules, hkeeps.get a1,
    hkeeps.get a2, hkeeps.get a3, flag_beq_zero, not_eq_true', ← not_eq_true, ult_iff_lt,
    BitVec.lt_def, beq_iff_eq, ite_not, hnumber, hfraction]
  split_ifs with hn hi hl hzero hlt
  · refine runsAt_refused (hrefused fun h ↦ ?_) hentered
    have hpos := h.2.2.2
    rw [hzero] at hpos
    exact Nat.not_lt_zero _ hpos
  · refine runs_decodeSourceView rfl
      (fun index source hdecode s₁ ht1 ht2 h₁ ↦ ?_) fun hdecode s₁ h₁ ↦ ?_
    · simp (disch := decide) only [set_rules, hkeeps.get a0] at hdecode
      exact runsAt_sourceDecoded ⟨hn, hi, hl, hlt⟩ (hentered.quiet (Quiet.trans (by simp) h₁))
        hdecode ht1 ht2
    · simp (disch := decide) only [set_rules, hkeeps.get a0] at hdecode
      refine runsAt_refused ?_ hentered (Quiet.trans (by simp) h₁)
      rintro ⟨w, hw, -⟩
      rw [SinceEnvironment.sinceAt, hdecode] at hw
      cases hw
  · exact runsAt_refused (hrefused fun h ↦ hlt h.2.2.2) hentered
  · exact runsAt_refused (hrefused fun h ↦ hl h.2.2.1) hentered
  · exact runsAt_refused (hrefused fun h ↦ hi h.2.1) hentered
  · exact runsAt_refused (hrefused fun h ↦ hn h.1) hentered

end Run

end CellScript.Runtime.Maturity
