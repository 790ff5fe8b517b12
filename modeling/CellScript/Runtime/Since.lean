import CellScript.Runtime.Frame
import CellScript.Runtime.Scalar

/-!
# Epoch since values

The helpers that make, decode and narrow a `since` word, as `emit_runtime_ckb_since_epoch_helper`,
`emit_runtime_ckb_since_decode_helper` and `emit_runtime_ckb_since_narrow_helper` emit them. A word
has a relative flag, a metric and a value; the value of an epoch is a number and a fraction.
-/

namespace CellScript.Runtime.Since

open Assembler (Instruction)
open BitVec (ofNat)
open MachineState
open Blocks

/-! ### Words -/

/-- The number of an epoch, in the low 24 bits. -/
def number (w : Word) : ℕ := w.toNat % 2 ^ 24

def index (w : Word) : ℕ := w.toNat / 2 ^ 24 % 2 ^ 16

def length (w : Word) : ℕ := w.toNat / 2 ^ 40 % 2 ^ 16

inductive Metric
  | block
  | epoch
  | timestamp
  deriving DecidableEq

def Metric.flag : Metric → ℕ
  | block => 0
  | epoch => 0x2000000000000000
  | timestamp => 0x4000000000000000

def relativeFlag : ℕ := 0x8000000000000000

def metricTypeFlagMask : ℕ := 0x6000000000000000

def remainFlagsBits : ℕ := 0x1f00000000000000

def valueMask : ℕ := 0x00ffffffffffffff

/-- Seconds below this bound can be converted to milliseconds. -/
def timestampBound : ℕ := (2 ^ 64 - 1) / 1000 + 1

def epochNumberBound : ℕ := 2 ^ 24

def epochFractionBound : ℕ := 2 ^ 16

def epochNumberMask : ℕ := epochNumberBound - 1

def epochFractionMask : ℕ := epochFractionBound - 1

/-! ### The helpers -/

def syscallFailed : ℤ := 1

def ckbSinceMalformed : ℤ := 37

/-- A helper that is not available. -/
def disabled (symbol : String) : Program := [⟨symbol, [.li a0 0, .li a1 syscallFailed, .ret]⟩]

def epochSymbol (relative : Bool) : String :=
  if relative then "__ckb_since_epoch_relative" else "__ckb_since_epoch_absolute"

def epochBounds : List Instruction :=
  [.li t0 epochNumberBound, .sltu t1 a0 t0, .beqz t1 "ckb_since_epoch_malformed",
   .li t0 epochFractionBound, .sltu t1 a1 t0, .beqz t1 "ckb_since_epoch_malformed",
   .sltu t1 a2 t0, .beqz t1 "ckb_since_epoch_malformed", .beqz a2 "ckb_since_epoch_malformed",
   .sltu t1 a1 a2, .beqz t1 "ckb_since_epoch_malformed"]

def epochPack (relative : Bool) : List Instruction :=
  [.addi t2 a0 0, .slli t0 a1 24, .or t2 t2 t0, .slli t0 a2 40, .or t2 t2 t0,
   .li t0 Metric.epoch.flag, .or t2 t2 t0] ++
    ((if relative then [.li t0 1, .slli t0 t0 63, .or t2 t2 t0] else []) ++
      [.addi a0 t2 0, .li a1 0, .jump "ckb_since_epoch_done"])

/-- The constructor of an epoch. -/
def sinceEpoch (relative enabled : Bool) : Program :=
  if enabled then
    [⟨epochSymbol relative, epochBounds ++ epochPack relative⟩,
     ⟨"ckb_since_epoch_malformed", [.li a0 0, .li a1 ckbSinceMalformed]⟩,
     ⟨"ckb_since_epoch_done", [.ret]⟩]
  else disabled (epochSymbol relative)

/-- The first part of `emit_runtime_ckb_since_validation`: the reserved bits and the metric. -/
def flagChecks : List Instruction :=
  [.li t0 remainFlagsBits, .and t1 a0 t0, .bnez t1 "ckb_since_malformed",
   .li t0 metricTypeFlagMask, .and t1 a0 t0, .beq t1 t0 "ckb_since_malformed",
   .li t0 Metric.epoch.flag, .bne t1 t0 "ckb_since_decode_non_epoch"]

/-- The fraction of an epoch. -/
def fractionChecks : List Instruction :=
  [.li t0 epochFractionMask, .srli t2 a0 24, .and t2 t2 t0, .srli t3 a0 40, .and t3 t3 t0,
   .bnez t3 "ckb_since_decode_epoch_nonzero_length", .beqz t2 "ckb_since_decode_valid",
   .jump "ckb_since_malformed"]

def validationNonEpoch : List Instruction :=
  [.li t0 Metric.timestamp.flag, .bne t1 t0 "ckb_since_decode_valid", .li t0 valueMask,
   .and t2 a0 t0, .li t0 timestampBound, .sltu t3 t2 t0, .beqz t3 "ckb_since_malformed"]

/-- What follows the first block of a validation: its other blocks, code that goes on with a valid
word, and the end of the helper. -/
def validationBlocks (continuation : List Instruction) : Program :=
  [⟨"ckb_since_decode_epoch_nonzero_length",
    [.sltu t4 t2 t3, .bnez t4 "ckb_since_decode_valid", .jump "ckb_since_malformed"]⟩,
   ⟨"ckb_since_decode_non_epoch", validationNonEpoch⟩,
   ⟨"ckb_since_decode_valid", continuation⟩,
   ⟨"ckb_since_malformed", [.li a0 0, .li a1 ckbSinceMalformed]⟩,
   ⟨"ckb_since_done", [.ret]⟩]

/-- A helper that validates a word and goes on with the given code. -/
def validated (symbol : String) (continuation : List Instruction) : Program :=
  ⟨symbol, flagChecks ++ fractionChecks⟩ :: validationBlocks continuation

def decodeSymbol (raw : Bool) : String :=
  if raw then "__ckb_since_from_raw_checked" else "__ckb_since_decode"

def decodeTail : List Instruction := [.li a1 0, .jump "ckb_since_done"]

def sinceDecode (raw enabled : Bool) : Program :=
  if enabled then validated (decodeSymbol raw) decodeTail else disabled (decodeSymbol raw)

def narrowSymbol (relative : Bool) : Metric → String
  | .block => if relative then "__ckb_since_as_relative_block" else "__ckb_since_as_absolute_block"
  | .epoch => if relative then "__ckb_since_as_relative_epoch" else "__ckb_since_as_absolute_epoch"
  | .timestamp =>
    if relative then "__ckb_since_as_relative_timestamp" else "__ckb_since_as_absolute_timestamp"

/-- The mode and the metric that a narrowing expects. -/
def expected (relative : Bool) (metric : Metric) : ℕ :=
  metric.flag + if relative then relativeFlag else 0

def narrowTail (relative : Bool) (metric : Metric) : List Instruction :=
  [.li t0 (relativeFlag + metricTypeFlagMask : ℕ), .and t1 a0 t0, .li t0 (expected relative metric),
   .bne t1 t0 "ckb_since_malformed", .li a1 0, .jump "ckb_since_done"]

def sinceNarrow (relative : Bool) (metric : Metric) (enabled : Bool) : Program :=
  if enabled then validated (narrowSymbol relative metric) (narrowTail relative metric)
  else disabled (narrowSymbol relative metric)

/-! ### Fields -/

theorem toNat_and_mask {w : Word} {k : ℕ} (hk : k ≤ 64) :
    (w &&& ofNat 64 (2 ^ k - 1)).toNat = w.toNat % 2 ^ k := by
  have hlt : 2 ^ k - 1 < 2 ^ 64 :=
    Nat.sub_one_lt_of_le (Nat.two_pow_pos k) (Nat.pow_le_pow_right (by decide) hk)
  rw [BitVec.toNat_and, toNat_ofNat, mod_eq_of_lt hlt, Nat.and_two_pow_sub_one_eq_mod]

theorem toNat_number (w : Word) : (w &&& 16777215#64).toNat = number w :=
  toNat_and_mask (k := 24) (by decide)

theorem toNat_index (w : Word) : (w >>> 24 &&& 65535#64).toNat = index w := by
  rw [show (65535#64 : Word) = ofNat 64 (2 ^ 16 - 1) from rfl, toNat_and_mask (by decide),
    toNat_ushiftRight, Nat.shiftRight_eq_div_pow, index]

theorem toNat_length (w : Word) : (w >>> 40 &&& 65535#64).toNat = length w := by
  rw [show (65535#64 : Word) = ofNat 64 (2 ^ 16 - 1) from rfl, toNat_and_mask (by decide),
    toNat_ushiftRight, Nat.shiftRight_eq_div_pow, length]

theorem index_lt (w : Word) : index w < 2 ^ 16 := mod_lt _ (by decide)

theorem length_lt (w : Word) : length w < 2 ^ 16 := mod_lt _ (by decide)

/-- The fraction of an epoch is proper, or it is left out. -/
def Fraction (w : Word) : Prop := index w < length w ∨ index w = 0 ∧ length w = 0

/-! ### What the helpers accept -/

section Helpers

variable {e : Surroundings} {helpers : String → Option Program} {C : Code (machine e helpers)}
  {s s' s'' t : State} {symbol l : String} {continuation : List Instruction}
  {relative enabled raw : Bool} {metric : Metric} {v link : Word} {Q : State → Prop}
  {fall : Option String}

/-- The metric bits of a word. -/
def metricBits (w : Word) : Word := w &&& ofNat 64 metricTypeFlagMask

/-- The words that a validation lets through. -/
def Valid (w : Word) : Prop :=
  w &&& ofNat 64 remainFlagsBits = 0#64 ∧ metricBits w ≠ ofNat 64 metricTypeFlagMask ∧
    (metricBits w = ofNat 64 Metric.epoch.flag → Fraction w) ∧
    (metricBits w = ofNat 64 Metric.timestamp.flag →
      (w &&& ofNat 64 valueMask).toNat < timestampBound)

/-- Only the registers of a validation have changed. -/
abbrev Checked (s s' : State) : Prop := Quiet [t0, t1, t2, t3, t4] s s'

def validationLabels : List String :=
  ["ckb_since_decode_epoch_nonzero_length", "ckb_since_decode_non_epoch", "ckb_since_decode_valid",
   "ckb_since_malformed", "ckb_since_done"]

/-- The code to be run is a validation. -/
structure Validates (C : Code (machine e helpers)) (symbol : String)
    (continuation : List Instruction) : Prop where
  program_eq : C.program = validated symbol continuation
  fresh : symbol ∉ validationLabels

theorem Validates.at?_eq (h : Validates C symbol continuation)
    (hl : l ∈ validationLabels := by decide) :
    C.program.at? l = (validationBlocks continuation).at? l := by
  rw [h.program_eq]
  exact if_neg fun heq : symbol = l ↦ h.fresh (heq ▸ hl)

/-- **A validation lets the valid words through.** -/
theorem validated_run (h : Validates C symbol continuation)
    (hvalid : Valid (s.get a0) → ∀ s', Checked s s' → C.RunsAt "ckb_since_decode_valid" s')
    (hmalformed : ¬ Valid (s.get a0) → ∀ s', Checked s s' → C.RunsAt "ckb_since_malformed" s') :
    C.RunsAt symbol s := by
  have hat : C.program.at? symbol = some (flagChecks ++ fractionChecks,
      some "ckb_since_decode_epoch_nonzero_length") := by
    rw [h.program_eq]
    exact if_pos rfl
  have hnonzero : ∀ t, C.RunsAt "ckb_since_decode_epoch_nonzero_length" t ↔ C.Runs _ _ t :=
    fun t ↦ runsAt_iff (h.at?_eq.trans rfl)
  have hnonEpoch : ∀ t, C.RunsAt "ckb_since_decode_non_epoch" t ↔ C.Runs validationNonEpoch _ t :=
    fun t ↦ runsAt_iff (h.at?_eq.trans rfl)
  rw [runsAt_iff hat]
  simp (disch := decide) only [flagChecks, fractionChecks, hnonzero, hnonEpoch, validationNonEpoch,
    runs_rules, act, set_rules, flag_beq_zero, flag_bne_zero]
  have hlt : (s.get a0 >>> Int.toNat 24 &&& ofNat 64 epochFractionMask).ult
      (s.get a0 >>> Int.toNat 40 &&& ofNat 64 epochFractionMask) = true ↔
      index (s.get a0) < length (s.get a0) := by
    rw [ult_iff_lt, ← toNat_index, ← toNat_length]
    rfl
  have hindex : s.get a0 >>> Int.toNat 24 &&& ofNat 64 epochFractionMask = 0#64 ↔
      index (s.get a0) = 0 := by
    rw [← toNat_index, ← BitVec.toNat_inj]
    rfl
  have hlength : s.get a0 >>> Int.toNat 40 &&& ofNat 64 epochFractionMask = 0#64 ↔
      length (s.get a0) = 0 := by
    rw [← toNat_length, ← BitVec.toNat_inj]
    rfl
  have htime : (s.get a0 &&& ofNat 64 valueMask).ult (ofNat 64 timestampBound) = true ↔
      (s.get a0 &&& ofNat 64 valueMask).toNat < timestampBound := ult_iff_lt
  simp only [bne_iff_ne, ne_eq, beq_iff_eq, ite_not, not_eq_true', ← not_eq_true, hlt, hindex,
    hlength, htime]
  have hmetrics : ofNat 64 Metric.epoch.flag ≠ ofNat 64 Metric.timestamp.flag := by decide
  split_ifs with hflags hmetric hepoch hlen hidx hfraction htimestamp hbound
  · exact hmalformed (fun h ↦ h.2.1 hmetric) _ (by simp)
  · exact hvalid ⟨hflags, hmetric, fun _ ↦ .inr ⟨hidx, hlen⟩,
      fun h ↦ absurd (hepoch.symm.trans h) hmetrics⟩ _ (by simp)
  · refine hmalformed (fun h ↦ (h.2.2.1 hepoch).elim (fun hlt ↦ ?_) fun h ↦ hidx h.1) _ (by simp)
    omega
  · exact hvalid ⟨hflags, hmetric, fun _ ↦ .inl hfraction,
      fun h ↦ absurd (hepoch.symm.trans h) hmetrics⟩ _ (by simp)
  · exact hmalformed (fun h ↦ (h.2.2.1 hepoch).elim hfraction fun h ↦ hlen h.2) _ (by simp)
  · exact hvalid ⟨hflags, hmetric, fun h ↦ absurd h hepoch, fun _ ↦ hbound⟩ _ (by simp)
  · exact hmalformed (fun h ↦ hbound (h.2.2.2 htimestamp)) _ (by simp)
  · exact hvalid ⟨hflags, hmetric, fun h ↦ absurd h hepoch, fun h ↦ absurd h htimestamp⟩ _ (by simp)
  · exact hmalformed (fun h ↦ hflags h.1) _ (by simp)

/-! ### The results of the helpers -/

/-- The result of a helper: a word, or the error of a malformed one. -/
structure Returned (accepted : Prop) (w : Word) (s' : State) : Prop where
  accepts : accepted → s'.get a1 = 0#64 ∧ s'.get a0 = w
  rejects : ¬ accepted → s'.get a1 = 37#64 ∧ s'.get a0 = 0#64

theorem validated_done (h : Validates C symbol continuation) (hlink : s.get ra = C.link)
    (hQ : C.post s) : C.RunsAt "ckb_since_done" s := by
  rw [runsAt_iff (h.at?_eq.trans (show _ = some (_, none) from rfl))]
  rw [runs_cons, act]
  exact ⟨hlink, hQ⟩

theorem validated_malformed (h : Validates C symbol continuation) (hlink : s.get ra = C.link)
    (hQ : C.post ((s.set a0 0#64).set a1 37#64)) : C.RunsAt "ckb_since_malformed" s := by
  rw [runsAt_iff (h.at?_eq.trans (show _ = some (_, some "ckb_since_done") from rfl))]
  simp only [ckbSinceMalformed, runs_rules, act, runs_nil]
  exact validated_done h hlink hQ

theorem decodeSymbol_notMem (raw : Bool) : decodeSymbol raw ∉ validationLabels := by
  cases raw <;> decide

theorem narrowSymbol_notMem (relative : Bool) (metric : Metric) :
    narrowSymbol relative metric ∉ validationLabels := by
  cases relative <;> cases metric <;> decide

/-- **The decoder accepts the valid words.** -/
theorem exists_calls_sinceDecode (raw : Bool)
    (hhelper : helpers (decodeSymbol raw) = some (sinceDecode raw true)) :
    ∃ s', Calls (machine e helpers) (decodeSymbol raw) s s' ∧
      Returned (Valid (s.get a0)) (s.get a0) s' := by
  have h : ∀ {C : Code (machine e helpers)}, C.program = sinceDecode raw true →
      Validates C (decodeSymbol raw) decodeTail := fun hprogram ↦
        ⟨hprogram, decodeSymbol_notMem raw⟩
  refine exists_calls hhelper rfl ?_
  refine validated_run (h rfl) (fun hvalid s' hs' ↦ ?_) fun hvalid s' hs' ↦ ?_
  · rw [runsAt_iff ((h rfl).at?_eq.trans
      (show _ = some (decodeTail, some "ckb_since_malformed") from rfl))]
    simp only [decodeTail, runs_rules, act]
    refine validated_done (h rfl) (hs'.get ra) ⟨fun _ ↦ ⟨rfl, ?_⟩, fun h ↦ absurd hvalid h⟩
    exact hs'.get a0
  · exact validated_malformed (h rfl) (hs'.get ra) ⟨fun h ↦ absurd h hvalid, fun _ ↦ ⟨rfl, rfl⟩⟩

/-- The mode and the metric of a word. -/
def Tagged (relative : Bool) (metric : Metric) (w : Word) : Prop :=
  w &&& ofNat 64 (relativeFlag + metricTypeFlagMask) = ofNat 64 (expected relative metric)

/-- **The narrowing accepts the valid words of its mode and metric.** -/
theorem exists_calls_sinceNarrow (relative : Bool) (metric : Metric)
    (hhelper : helpers (narrowSymbol relative metric) = some (sinceNarrow relative metric true)) :
    ∃ s', Calls (machine e helpers) (narrowSymbol relative metric) s s' ∧
      Returned (Valid (s.get a0) ∧ Tagged relative metric (s.get a0)) (s.get a0) s' := by
  have h : ∀ {C : Code (machine e helpers)}, C.program = sinceNarrow relative metric true →
      Validates C (narrowSymbol relative metric) (narrowTail relative metric) := fun hprogram ↦
        ⟨hprogram, narrowSymbol_notMem relative metric⟩
  refine exists_calls hhelper rfl ?_
  refine validated_run (h rfl) (fun hvalid s' hs' ↦ ?_) fun hvalid s' hs' ↦ ?_
  · rw [runsAt_iff ((h rfl).at?_eq.trans
      (show _ = some (narrowTail relative metric, some "ckb_since_malformed") from rfl))]
    simp (disch := decide) only [narrowTail, runs_rules, act, set_rules, bne_iff_ne, hs'.get a0]
    have hlink : s'.get ra = s.get ra := hs'.get ra
    split
    · next hne =>
      exact validated_malformed (h rfl) hlink ⟨fun h ↦ absurd h.2 hne, fun _ ↦ ⟨rfl, rfl⟩⟩
    · next htagged =>
      rw [not_not] at htagged
      exact validated_done (h rfl) hlink ⟨fun _ ↦ ⟨rfl, hs'.get a0⟩,
        fun h ↦ absurd ⟨hvalid, htagged⟩ h⟩
  · exact validated_malformed (h rfl) (hs'.get ra) ⟨fun h ↦ absurd h.1 hvalid, fun _ ↦ ⟨rfl, rfl⟩⟩

/-! ### The constructor -/

/-- The arguments that the constructor packs. -/
def Admissible (n i l : Word) : Prop :=
  n.toNat < epochNumberBound ∧ i.toNat < epochFractionBound ∧ l.toNat < epochFractionBound ∧
    i.toNat < l.toNat

/-- The word of an epoch. -/
def packed (relative : Bool) (n i l : Word) : Word :=
  ofNat 64 (n.toNat + 2 ^ 24 * i.toNat + 2 ^ 40 * l.toNat + 2 ^ 61 + if relative then 2 ^ 63 else 0)

theorem or_shiftLeft_packed {n i l : Word} (h : Admissible n i l) :
    n ||| i <<< 24 ||| l <<< 40 ||| 0x2000000000000000#64 = packed false n i l ∧
      packed false n i l ||| 1#64 <<< 63 = packed true n i l := by
  obtain ⟨hn, hi, hl, -⟩ := h
  rw [epochNumberBound] at hn
  rw [epochFractionBound] at hi hl
  have hword : ∀ w : Word, ofNat 64 w.toNat = w := fun w ↦ by
    rw [ofNat_toNat, setWidth_eq]
  have hepoch : (0x2000000000000000#64 : Word) = ofNat 64 1 <<< 61 := by decide
  constructor
  · rw [← hword n, ← hword i, ← hword l, ofNat_or_shiftLeft hn, ofNat_or_shiftLeft (by omega),
      hepoch, ofNat_or_shiftLeft (by omega)]
    simp only [hword, mul_one]
    rfl
  · rw [packed, if_neg Bool.false_ne_true, ofNat_or_shiftLeft (by omega), packed, if_pos rfl,
      add_zero, mul_one]

theorem fields_packed {n i l : Word} (h : Admissible n i l) :
    number (packed relative n i l) = n.toNat ∧ index (packed relative n i l) = i.toNat ∧
      length (packed relative n i l) = l.toNat := by
  obtain ⟨hn, hi, hl, -⟩ := h
  rw [epochNumberBound] at hn
  rw [epochFractionBound] at hi hl
  rw [number, index, length, packed, toNat_ofNat]
  cases relative with
  | false =>
    simp only [false_eq_true, if_false]
    omega
  | true =>
    simp only [if_true]
    omega

theorem sinceEpoch_done (hlink : s.get ra = link) (hQ : Q s) :
    Code.RunsAt (M := machine e helpers) ⟨sinceEpoch relative true, link, Q⟩ "ckb_since_epoch_done"
      s := by
  rw [runsAt_iff (show (sinceEpoch relative true).at? "ckb_since_epoch_done" = some ([.ret],
    none) by
    cases relative <;> rfl), runs_cons, act]
  exact ⟨hlink, hQ⟩

theorem sinceEpoch_malformed (hlink : s.get ra = link)
    (hQ : Q ((s.set a0 0#64).set a1 37#64)) : Code.RunsAt (M := machine e helpers)
      ⟨sinceEpoch relative true, link, Q⟩ "ckb_since_epoch_malformed" s := by
  rw [runsAt_iff (show (sinceEpoch relative true).at? "ckb_since_epoch_malformed"
    = some ([.li a0 0, .li a1 ckbSinceMalformed], some "ckb_since_epoch_done") by
      cases relative <;> rfl)]
  simp only [ckbSinceMalformed, runs_rules, act, runs_nil]
  exact sinceEpoch_done hlink hQ

theorem epochPack_run (hkeeps : Keeps [t0, t1] s t)
    (h : Admissible (s.get a0) (s.get a1) (s.get a2)) :
    Code.Runs (M := machine e helpers) ⟨sinceEpoch relative true, s.get ra,
      Returned (Admissible (s.get a0) (s.get a1) (s.get a2))
        (packed relative (s.get a0) (s.get a1) (s.get a2))⟩ (epochPack relative) fall t := by
  have ha0 : t.get a0 = s.get a0 := hkeeps.get a0
  have ha1 : t.get a1 = s.get a1 := hkeeps.get a1
  have ha2 : t.get a2 = s.get a2 := hkeeps.get a2
  have hra : t.get ra = s.get ra := hkeeps.get ra
  obtain ⟨habsolute, hrelative⟩ := or_shiftLeft_packed h
  cases relative with
  | false =>
    simp (disch := decide) only [epochPack, false_eq_true, if_false, runs_rules,
      BitVec.add_zero, act, set_rules, ha0, ha1, ha2]
    refine sinceEpoch_done hra ⟨fun _ ↦ ⟨rfl, ?_⟩, fun hnot ↦ absurd h hnot⟩
    exact habsolute
  | true =>
    simp (disch := decide) only [epochPack, if_true, runs_rules, BitVec.add_zero, act, set_rules,
      ha0, ha1, ha2]
    refine sinceEpoch_done hra ⟨fun _ ↦ ⟨rfl, ?_⟩, fun hnot ↦ absurd h hnot⟩
    rw [← hrelative, ← habsolute]
    rfl

/-- **The constructor packs the admissible arguments.** -/
theorem exists_calls_sinceEpoch (relative : Bool)
    (hhelper : helpers (epochSymbol relative) = some (sinceEpoch relative true)) :
    ∃ s', Calls (machine e helpers) (epochSymbol relative) s s' ∧
      Returned (Admissible (s.get a0) (s.get a1) (s.get a2))
        (packed relative (s.get a0) (s.get a1) (s.get a2)) s' := by
  refine exists_calls hhelper (l := epochSymbol relative) rfl ?_
  rw [runsAt_iff (show (sinceEpoch relative true).at? (epochSymbol relative) =
    some (epochBounds ++ epochPack relative, some "ckb_since_epoch_malformed") by
      cases relative <;> rfl)]
  simp (disch := decide) only [epochBounds, runs_rules, act, set_rules, flag_beq_zero,
    not_eq_true', ← not_eq_true, ult_iff_lt, BitVec.lt_def, beq_iff_eq]
  have hbound : (ofNat 64 epochNumberBound).toNat = epochNumberBound := rfl
  have hfraction : (ofNat 64 epochFractionBound).toNat = epochFractionBound := rfl
  have hmalformed : ∀ s', s'.get ra = s.get ra → ¬ Admissible (s.get a0) (s.get a1) (s.get a2) →
      Code.RunsAt (M := machine e helpers) ⟨sinceEpoch relative true, s.get ra,
        Returned (Admissible (s.get a0) (s.get a1) (s.get a2))
          (packed relative (s.get a0) (s.get a1) (s.get a2))⟩ "ckb_since_epoch_malformed" s' :=
            fun s' hlink hnot ↦
    sinceEpoch_malformed hlink ⟨fun h ↦ absurd h hnot, fun _ ↦ ⟨rfl, rfl⟩⟩
  split
  · next hn => exact hmalformed _ rfl fun h ↦ hn h.1
  split
  · next hi => exact hmalformed _ rfl fun h ↦ hi h.2.1
  split
  · next hl => exact hmalformed _ rfl fun h ↦ hl h.2.2.1
  split
  · next hzero =>
    refine hmalformed _ rfl fun h ↦ Nat.not_lt_zero _ (?_ : (s.get a1).toNat < 0)
    have hlt := h.2.2.2
    rwa [hzero] at hlt
  split
  · next hlt => exact hmalformed _ rfl fun h ↦ hlt h.2.2.2
  next hn hi hl _ hlt =>
  refine epochPack_run ?_ ⟨not_not.1 hn, not_not.1 hi, not_not.1 hl, not_not.1 hlt⟩
  simp

end Helpers

end CellScript.Runtime.Since
