import CellScript.Runtime.Since
import Mathlib.Tactic.FieldSimp

/-!
# The order of epoch since values

The code that `emit_ckb_epoch_since_comparison` emits for a comparison of two epoch words of one
type: the numbers are compared first and then the fractions, by cross multiplication. The meaning of
a word is the rational number `number + index / length`.

The emitted code goes on with whatever follows it in its function. Here it ends with a return, so
that its result can be observed.
-/

namespace CellScript.Runtime.Since

open Assembler (Instruction)
open BitVec (ofNat)
open MachineState
open Blocks

/-! ### The code -/

inductive BinaryOp
  | eq
  | ne
  | lt
  | le
  | gt
  | ge
  deriving DecidableEq

namespace BinaryOp

def lessResult : BinaryOp → Bool
  | ne | lt | le => true
  | _ => false

def greaterResult : BinaryOp → Bool
  | ne | gt | ge => true
  | _ => false

def equalResult : BinaryOp → Bool
  | eq | le | ge => true
  | _ => false

/-- What the operator says of two numbers. -/
def holds (op : BinaryOp) (x y : ℚ) : Bool :=
  match op with
  | eq => x = y
  | ne => x ≠ y
  | lt => x < y
  | le => x ≤ y
  | gt => x > y
  | ge => x ≥ y

end BinaryOp

def compareNumbers : List Instruction :=
  [.li t6 epochNumberMask, .and t2 t0 t6, .and t3 t1 t6, .bltu t2 t3 "ckb_epoch_since_less",
   .bltu t3 t2 "ckb_epoch_since_greater"]

def compareFractions : List Instruction :=
  [.li t6 epochFractionMask, .srli t2 t0 24, .and t2 t2 t6, .srli t3 t1 40, .and t3 t3 t6,
   .mul t2 t2 t3, .srli t3 t1 24, .and t3 t3 t6, .srli t4 t0 40, .and t4 t4 t6, .mul t3 t3 t4,
   .bltu t2 t3 "ckb_epoch_since_less", .bltu t3 t2 "ckb_epoch_since_greater",
   .jump "ckb_epoch_since_equal"]

/-- The comparison of the words in two slots, with its result in a third one. -/
def comparison (op : BinaryOp) (left right dest : ℕ) : Program :=
  [⟨"ckb_epoch_since_compare",
    stackLoad t0 left ++ (stackLoad t1 right ++ (compareNumbers ++ compareFractions))⟩,
   ⟨"ckb_epoch_since_less", [.li t0 op.lessResult.toNat, .jump "ckb_epoch_since_compare_done"]⟩,
   ⟨"ckb_epoch_since_greater", [.li t0 op.greaterResult.toNat,
     .jump "ckb_epoch_since_compare_done"]⟩,
   ⟨"ckb_epoch_since_equal", [.li t0 op.equalResult.toNat]⟩,
   ⟨"ckb_epoch_since_compare_done", stackStore t0 dest ++ [.ret]⟩]

/-! ### What the code computes -/

/-- The outcome of the comparison of two words. -/
def compareWords (a b : Word) : Ordering :=
  if number a < number b then .lt
  else if number b < number a then .gt
  else if index a * length b < index b * length a then .lt
  else if index b * length a < index a * length b then .gt
  else .eq

def BinaryOp.result (op : BinaryOp) : Ordering → Bool
  | .lt => op.lessResult
  | .gt => op.greaterResult
  | .eq => op.equalResult

section Code

variable {e : Surroundings} {helpers : String → Option Program} {s s' : State} {op : BinaryOp}
  {left right dest : ℕ}

theorem ofInt_toNat (c : Bool) : BitVec.ofInt 64 (c.toNat : ℤ) = flag c := by
  cases c <;> rfl

/-- The result is in its slot. -/
def Answers (b : Word) (dest : ℕ) (r : Bool) (s : State) : Prop :=
  load s.mem (b + ofNat 64 dest) 8 = flag r

theorem compare_done {r : Bool} (hdest : dest < 2 ^ 63)
    (hquiet : Quiet [t0, t1, t2, t3, t4, t5, t6] s s') (hr : s'.get t0 = flag r) :
    Code.RunsAt (M := machine e helpers)
      ⟨comparison op left right dest, s.get ra, Answers (s.get sp) dest r⟩
      "ckb_epoch_since_compare_done" s' := by
  rw [runsAt_iff rfl, slot_rules.2.1, runs_cons, act, follows_ret, hquiet.get sp, hr]
  simp (disch := decide) only [slot_rules, Answers, hquiet.kept ra]
  exact ⟨trivial, load_store_self⟩

theorem compare_outcome (o : Ordering) (hdest : dest < 2 ^ 63)
    (hquiet : Quiet [t0, t1, t2, t3, t4, t5, t6] s s') :
    Code.RunsAt (M := machine e helpers)
      ⟨comparison op left right dest, s.get ra, Answers (s.get sp) dest (op.result o)⟩ (match o with
        | .lt => "ckb_epoch_since_less"
        | .gt => "ckb_epoch_since_greater"
        | .eq => "ckb_epoch_since_equal") s' := by
  cases o with
  | lt | gt =>
    rw [runsAt_report rfl, ofInt_toNat]
    exact compare_done hdest (by simp [hquiet]) rfl
  | eq =>
    rw [runsAt_iff rfl, runs_cons, act, ofInt_toNat]
    exact runs_nil.2 (compare_done hdest (by simp [hquiet]) rfl)

/-- A product of two fields does not overflow. -/
theorem toNat_mul_fields {x y : Word} (hx : x.toNat < 2 ^ 16) (hy : y.toNat < 2 ^ 16) :
    (x * y).toNat = x.toNat * y.toNat := by
  rw [BitVec.toNat_mul, mod_eq_of_lt]
  calc x.toNat * y.toNat < 2 ^ 16 * 2 ^ 16 := Nat.mul_lt_mul'' hx hy
    _ ≤ 2 ^ 64 := by decide

/-- **The emitted code answers with the outcome of the comparison.** -/
theorem exists_calls_comparison (hdest : dest < 2 ^ 63)
    (hhelper : helpers "ckb_epoch_since_compare" = some (comparison op left right dest)) :
    ∃ s', Calls (machine e helpers) "ckb_epoch_since_compare" s s' ∧
      Answers (s.get sp) dest (op.result (compareWords (load s.mem (s.get sp + ofNat 64 left) 8)
        (load s.mem (s.get sp + ofNat 64 right) 8))) s' := by
  refine exists_calls hhelper (l := "ckb_epoch_since_compare") rfl ?_
  rw [runsAt_iff rfl]
  simp (disch := decide) only [compareNumbers, compareFractions, slot_rules, runs_rules, act,
    set_rules, ult_iff_lt, BitVec.lt_def]
  generalize load s.mem (s.get sp + ofNat 64 left) 8 = x
  generalize load s.mem (s.get sp + ofNat 64 right) 8 = y
  have hnumber : ∀ w : Word, (w &&& ofNat 64 epochNumberMask).toNat = number w := toNat_number
  have hindex : ∀ w : Word, (w >>> Int.toNat 24 &&& ofNat 64 epochFractionMask).toNat
      = index w := toNat_index
  have hlength : ∀ w : Word, (w >>> Int.toNat 40 &&& ofNat 64 epochFractionMask).toNat
      = length w := toNat_length
  have hcross : ∀ v w : Word, ((v >>> Int.toNat 24 &&& ofNat 64 epochFractionMask) *
      (w >>> Int.toNat 40 &&& ofNat 64 epochFractionMask)).toNat = index v * length w := by
    intro v w
    rw [toNat_mul_fields (by rw [hindex]; exact index_lt v) (by rw [hlength]; exact length_lt w),
      hindex, hlength]
  simp only [hnumber, hcross]
  rw [compareWords]
  split
  · exact compare_outcome .lt hdest (by simp)
  split
  · exact compare_outcome .gt hdest (by simp)
  split
  · exact compare_outcome .lt hdest (by simp)
  split
  · exact compare_outcome .gt hdest (by simp)
  · exact compare_outcome .eq hdest (by simp)

end Code

/-! ### The rational order -/

/-- The point in time that an epoch word stands for. -/
def epoch (w : Word) : ℚ :=
  number w + if index w = 0 ∧ length w = 0 then 0 else (index w : ℚ) / length w

/-- One of two epochs with the same number has its fraction left out, and that of the other one is
not zero. -/
def Degenerate (a b : Word) : Prop :=
  number a = number b ∧ (length a = 0 ∧ index b ≠ 0 ∨ length b = 0 ∧ index a ≠ 0)

section Order

variable {a b : Word}

theorem epoch_eq (w : Word) : epoch w = number w + (index w : ℚ) / length w := by
  rw [epoch]
  split
  · next h => rw [h.2, Nat.cast_zero, div_zero]
  · rfl

theorem fraction_nonneg (w : Word) : (0 : ℚ) ≤ (index w : ℚ) / length w := by positivity

theorem fraction_lt_one (h : Fraction a) : (index a : ℚ) / length a < 1 := by
  rcases h with h | ⟨hindex, hlength⟩
  · have hpos : (0 : ℚ) < length a := by exact_mod_cast Nat.zero_lt_of_lt h
    rw [div_lt_one hpos]
    exact_mod_cast h
  · rw [hindex, Nat.cast_zero, zero_div]
    exact one_pos

theorem epoch_lt_of_number_lt (ha : Fraction a) (h : number a < number b) : epoch a < epoch b := by
  have hle : (number a : ℚ) + 1 ≤ number b := by exact_mod_cast h
  rw [epoch_eq, epoch_eq]
  linarith [fraction_lt_one ha, fraction_nonneg b]

/-- Fractions that are both there, or of which the one that is left out is compared with zero. -/
theorem fraction_lt_iff (ha : Fraction a) (hb : Fraction b) (hnum : number a = number b)
    (h : ¬ Degenerate a b) :
    (index a : ℚ) / length a < (index b : ℚ) / length b ↔
      index a * length b < index b * length a := by
  rcases eq_zero_or_pos (length a) with hla | hla
  · have hia : index a = 0 := ha.elim (fun hlt ↦ by omega) (·.1)
    have hib : index b = 0 := by
      by_contra hne
      exact h ⟨hnum, .inl ⟨hla, hne⟩⟩
    simp [hla, hia, hib]
  rcases eq_zero_or_pos (length b) with hlb | hlb
  · have hib : index b = 0 := hb.elim (fun hlt ↦ by omega) (·.1)
    have hia : index a = 0 := by
      by_contra hne
      exact h ⟨hnum, .inr ⟨hlb, hne⟩⟩
    simp [hlb, hia, hib]
  have hla' : (0 : ℚ) < length a := by exact_mod_cast hla
  have hlb' : (0 : ℚ) < length b := by exact_mod_cast hlb
  rw [div_lt_div_iff₀ hla' hlb']
  exact_mod_cast Iff.rfl

/-- The outcome of the code, in terms of the rational order. -/
theorem result_compareWords (ha : Fraction a) (hb : Fraction b) (h : ¬ Degenerate a b)
    (op : BinaryOp) : op.result (compareWords a b) = op.holds (epoch a) (epoch b) := by
  have hlt : epoch a < epoch b → op.result .lt = op.holds (epoch a) (epoch b) := by
    intro hlt
    cases op <;> simp [BinaryOp.result, BinaryOp.holds, BinaryOp.lessResult, hlt, hlt.ne, hlt.le,
      hlt.not_gt, hlt.not_ge]
  have hgt : epoch b < epoch a → op.result .gt = op.holds (epoch a) (epoch b) := by
    intro hgt
    cases op <;> simp [BinaryOp.result, BinaryOp.holds, BinaryOp.greaterResult, hgt, hgt.ne',
      hgt.le, hgt.not_gt, hgt.not_ge]
  have heq : epoch a = epoch b → op.result .eq = op.holds (epoch a) (epoch b) := by
    intro heq
    cases op <;> simp [BinaryOp.result, BinaryOp.holds, BinaryOp.equalResult, heq]
  rw [compareWords]
  split
  · next hnum => exact hlt (epoch_lt_of_number_lt ha hnum)
  split
  · next hnum => exact hgt (epoch_lt_of_number_lt hb hnum)
  next hge hle =>
  have hnum : number a = number b := by omega
  have hswap : ¬ Degenerate b a := fun hd ↦ h ⟨hnum, hd.2.symm⟩
  have hepoch : epoch a < epoch b ↔ index a * length b < index b * length a := by
    rw [← fraction_lt_iff ha hb hnum h, epoch_eq, epoch_eq, hnum, add_lt_add_iff_left]
  have hepoch' : epoch b < epoch a ↔ index b * length a < index a * length b := by
    rw [← fraction_lt_iff hb ha hnum.symm hswap, epoch_eq, epoch_eq, hnum, add_lt_add_iff_left]
  split
  · next hcross => exact hlt (hepoch.2 hcross)
  split
  · next hcross => exact hgt (hepoch'.2 hcross)
  next hcross hcross' =>
  exact heq (le_antisymm (not_lt.1 fun hlt ↦ hcross' (hepoch'.1 hlt))
    (not_lt.1 fun hlt ↦ hcross (hepoch.1 hlt)))

/-- A degenerate pair compares equal, and is not. -/
theorem compareWords_of_degenerate (ha : Fraction a) (hb : Fraction b) (h : Degenerate a b) :
    compareWords a b = .eq ∧ epoch a ≠ epoch b := by
  obtain ⟨hnum, hfraction⟩ := h
  have hproducts : index a * length b = 0 ∧ index b * length a = 0 := by
    rcases hfraction with ⟨hla, -⟩ | ⟨hlb, -⟩
    · have hia : index a = 0 := ha.elim (fun hlt ↦ by omega) (·.1)
      rw [hia, hla, Nat.zero_mul]
      exact ⟨rfl, rfl⟩
    · have hib : index b = 0 := hb.elim (fun hlt ↦ by omega) (·.1)
      rw [hib, hlb, Nat.zero_mul]
      exact ⟨rfl, rfl⟩
  refine ⟨?_, fun heq ↦ ?_⟩
  · rw [compareWords, hnum, hproducts.1, hproducts.2]
    simp
  · rw [epoch_eq, epoch_eq, hnum, add_right_inj] at heq
    rcases hfraction with ⟨hla, hib⟩ | ⟨hlb, hia⟩
    · have hlb : length b ≠ 0 := hb.elim (fun hlt ↦ by omega) fun h ↦ absurd h.1 hib
      rw [hla, Nat.cast_zero, div_zero, eq_comm, div_eq_zero_iff] at heq
      exact heq.elim (fun h ↦ hib (by exact_mod_cast h)) fun h ↦ hlb (by exact_mod_cast h)
    · have hla : length a ≠ 0 := ha.elim (fun hlt ↦ by omega) fun h ↦ absurd h.1 hia
      rw [hlb, Nat.cast_zero, div_zero, div_eq_zero_iff] at heq
      exact heq.elim (fun h ↦ hia (by exact_mod_cast h)) fun h ↦ hla (by exact_mod_cast h)

end Order

/-! ### Accepted words -/

/-- The helpers of a program are the emitted ones. -/
structure Installed (helpers : String → Option Program) (enabled : Bool) : Prop where
  epoch : ∀ relative, helpers (epochSymbol relative) = some (sinceEpoch relative enabled)
  decode : ∀ raw, helpers (decodeSymbol raw) = some (sinceDecode raw enabled)
  narrow : ∀ relative metric,
    helpers (narrowSymbol relative metric) = some (sinceNarrow relative metric enabled)

/-- The words of an epoch type: the constructor has returned them, or they were decoded and then
narrowed to the type. -/
inductive EpochSince (M : Machine) (relative : Bool) : Word → Prop
  | constructed {s s' : State} (hcall : Calls M (epochSymbol relative) s s')
      (hok : s'.get a1 = 0#64) : EpochSince M relative (s'.get a0)
  | narrowed {raw : Bool} {s s' t t' : State} (hdecode : Calls M (decodeSymbol raw) s s')
      (hdecoded : s'.get a1 = 0#64) (hargument : t.get a0 = s'.get a0)
      (hnarrow : Calls M (narrowSymbol relative .epoch) t t') (hok : t'.get a1 = 0#64) :
      EpochSince M relative (t'.get a0)

section Accepted

variable {e : Surroundings} {helpers : String → Option Program} {enabled relative : Bool}
  {s s' : State} {w : Word} {left right dest : ℕ}

/-- A helper that is not available reports a failure. -/
theorem disabled_fails {symbol : String} (hhelper : helpers symbol = some (disabled symbol))
    (hcall : Calls (machine e helpers) symbol s s') : s'.get a1 ≠ 0#64 := by
  have hexists : ∃ t, Calls (machine e helpers) symbol s t ∧ t.get a1 = 1#64 := by
    refine exists_calls hhelper (l := symbol) rfl ?_
    rw [runsAt_iff (show (disabled symbol).at? symbol = some (_, none) from if_pos rfl)]
    simp only [syscallFailed, runs_rules, act, follows_ret]
    exact ⟨rfl, rfl⟩
  obtain ⟨t, ht, ha1⟩ := hexists
  rw [hcall.unique ht, ha1]
  decide

theorem accepted_of_returned {accepted : Prop} (h : Returned accepted w s')
    (hok : s'.get a1 = 0#64) : accepted ∧ s'.get a0 = w := by
  by_contra hnot
  have hrejected : ¬ accepted := fun ha ↦ hnot ⟨ha, (h.accepts ha).2⟩
  rw [(h.rejects hrejected).1] at hok
  exact nomatch hok

theorem metricBits_of_tagged {metric : Metric} (h : Tagged relative metric w) :
    metricBits w = ofNat 64 metric.flag := by
  have hmask : (ofNat 64 metricTypeFlagMask : Word) =
      ofNat 64 (relativeFlag + metricTypeFlagMask) &&& ofNat 64 metricTypeFlagMask := by
    decide
  rw [metricBits, hmask, ← BitVec.and_assoc, some.inj (congrArg some h)]
  cases relative <;> cases metric <;> decide

/-- The fraction of an accepted word is proper or left out. -/
theorem EpochSince.fraction (hinstalled : Installed helpers enabled)
    (h : EpochSince (machine e helpers) relative w) : Fraction w := by
  cases enabled with
  | false =>
    cases h with
    | constructed hcall hok =>
      exact absurd hok (disabled_fails (hinstalled.epoch relative) hcall)
    | narrowed _ _ _ hnarrow hok =>
      exact absurd hok (disabled_fails (hinstalled.narrow relative .epoch) hnarrow)
  | true =>
    cases h with
    | @constructed s s' hcall hok =>
      obtain ⟨t, ht, hreturned⟩ := exists_calls_sinceEpoch relative (hinstalled.epoch relative)
      rw [hcall.unique ht] at hok ⊢
      obtain ⟨hadmissible, hword⟩ := accepted_of_returned hreturned hok
      rw [hword, Fraction, (fields_packed hadmissible).2.1, (fields_packed hadmissible).2.2]
      exact .inl hadmissible.2.2.2
    | @narrowed raw s s' t t' hdecode hdecoded hargument hnarrow hok =>
      obtain ⟨u, hu, hreturned⟩ := exists_calls_sinceNarrow relative .epoch
        (hinstalled.narrow relative .epoch)
      rw [hnarrow.unique hu] at hok ⊢
      obtain ⟨⟨hvalid, htagged⟩, hword⟩ := accepted_of_returned hreturned hok
      rw [hword]
      exact hvalid.2.2.1 (metricBits_of_tagged htagged)

theorem Calls.answers {M : Machine} {b : Word} {r r' : Bool} {f : String} (hcall : Calls M f s s')
    (hr : Answers b dest r s') (h : ∃ t, Calls M f s t ∧ Answers b dest r' t) : r = r' := by
  obtain ⟨t, ht, hr'⟩ := h
  rw [← hcall.unique ht, Answers, hr] at hr'
  revert hr'
  cases r <;> cases r' <;> decide

/-- The machine that runs a comparison. -/
def comparing (e : Surroundings) (op : BinaryOp) (left right dest : ℕ) : Machine :=
  machine e fun _ ↦ some (comparison op left right dest)

/-- **The emitted comparisons follow the rational order exactly on the pairs that are not
degenerate.** -/
theorem epoch_comparison_iff (hinstalled : Installed helpers enabled) (hdest : dest < 2 ^ 63)
    (ha : EpochSince (machine e helpers) relative (load s.mem (s.get sp + ofNat 64 left) 8))
    (hb : EpochSince (machine e helpers) relative (load s.mem (s.get sp + ofNat 64 right) 8)) :
    (∀ op, ∃ s', Calls (comparing e op left right dest) "ckb_epoch_since_compare" s s' ∧
        Answers (s.get sp) dest (op.holds (epoch (load s.mem (s.get sp + ofNat 64 left) 8))
          (epoch (load s.mem (s.get sp + ofNat 64 right) 8))) s') ↔
      ¬ Degenerate (load s.mem (s.get sp + ofNat 64 left) 8)
        (load s.mem (s.get sp + ofNat 64 right) 8) := by
  have hrun : ∀ op, ∃ s', Calls (comparing e op left right dest) "ckb_epoch_since_compare" s s' ∧
      Answers (s.get sp) dest (op.result (compareWords (load s.mem (s.get sp + ofNat 64 left) 8)
        (load s.mem (s.get sp + ofNat 64 right) 8))) s' := fun op ↦
    exists_calls_comparison hdest rfl
  generalize load s.mem (s.get sp + ofNat 64 left) 8 = a at *
  generalize load s.mem (s.get sp + ofNat 64 right) 8 = b at *
  have hfa := ha.fraction hinstalled
  have hfb := hb.fraction hinstalled
  constructor
  · intro hall hdegenerate
    obtain ⟨heq, hne⟩ := compareWords_of_degenerate hfa hfb hdegenerate
    obtain ⟨s', hcall, hanswer⟩ := hall .eq
    have hsame := Calls.answers hcall hanswer (hrun .eq)
    rw [heq] at hsame
    exact hne (of_decide_eq_true hsame)
  · intro hnot op
    rw [← result_compareWords hfa hfb hnot op]
    exact hrun op

end Accepted

/-! ### Small words -/

namespace Sample

def surroundings : Surroundings := ⟨fun _ ↦ none, fun _ ↦ 0#64, 0#64⟩

/-- All helpers of since values. -/
def helpers (symbol : String) : Option Program :=
  [(epochSymbol false, sinceEpoch false true), (epochSymbol true, sinceEpoch true true),
   (decodeSymbol false, sinceDecode false true), (decodeSymbol true, sinceDecode true true),
   (narrowSymbol false .block, sinceNarrow false .block true),
   (narrowSymbol true .block, sinceNarrow true .block true),
   (narrowSymbol false .epoch, sinceNarrow false .epoch true),
   (narrowSymbol true .epoch, sinceNarrow true .epoch true),
   (narrowSymbol false .timestamp, sinceNarrow false .timestamp true),
   (narrowSymbol true .timestamp, sinceNarrow true .timestamp true)].lookup symbol

/-- Epoch 1 without a fraction. -/
def increment : Word := 0x2000000000000001#64

/-- Epoch 1 and a half. -/
def half : Word := packed false 1#64 1#64 2#64

/-- A frame with two words in its first slots. -/
def frame (a b : Word) : State :=
  ⟨fun _ ↦ 0#64, store (store (fun _ ↦ 0) (0#64 + ofNat 64 0) 8 a) (0#64 + ofNat 64 8) 8 b⟩

/-- The registers of a call. -/
def arguments (x y z : Word) : State :=
  ((State.mk (fun _ ↦ 0#64) fun _ ↦ 0).set a0 x).set a1 y |>.set a2 z

end Sample

section Samples

open Sample

theorem Sample.installed : Installed helpers true where
  epoch relative := by cases relative <;> rfl
  decode raw := by cases raw <;> rfl
  narrow relative metric := by cases relative <;> cases metric <;> rfl

theorem Sample.load_left (a b : Word) :
    load (frame a b).mem ((frame a b).get sp + ofNat 64 0) 8 = a := by
  show load (store _ _ 8 b) (0#64 + ofNat 64 0) 8 = a
  rw [load_store_of_disjoint, load_store_self]

theorem Sample.load_right (a b : Word) :
    load (frame a b).mem ((frame a b).get sp + ofNat 64 8) 8 = b :=
  load_store_self

theorem Sample.epochSince_half : EpochSince (machine surroundings helpers) false half := by
  have hadmissible : Admissible 1#64 1#64 2#64 := by
    refine ⟨?_, ?_, ?_, ?_⟩ <;> decide
  have hcalls : ∃ s', Calls (machine surroundings helpers) (epochSymbol false)
      (arguments 1#64 1#64 2#64) s' ∧ Returned (Admissible 1#64 1#64 2#64) half s' :=
    exists_calls_sinceEpoch false (installed.epoch false)
  obtain ⟨s', hcall, hreturned⟩ := hcalls
  obtain ⟨hok, hword⟩ := hreturned.accepts hadmissible
  rw [← hword]
  exact .constructed hcall hok

theorem Sample.epochSince_increment :
    EpochSince (machine surroundings helpers) false increment := by
  have hvalid : Valid increment :=
    ⟨by decide, by decide, fun _ ↦ .inr ⟨by decide, by decide⟩, fun h ↦ absurd h (by decide)⟩
  have hdecodes : ∃ s', Calls (machine surroundings helpers) (decodeSymbol false)
      (arguments increment 0#64 0#64) s' ∧ Returned (Valid increment) increment s' :=
    exists_calls_sinceDecode false (installed.decode false)
  obtain ⟨s', hdecode, hdecoded⟩ := hdecodes
  have hnarrows : ∃ t', Calls (machine surroundings helpers) (narrowSymbol false .epoch) s' t' ∧
      Returned (Valid (s'.get a0) ∧ Tagged false .epoch (s'.get a0)) (s'.get a0) t' :=
    exists_calls_sinceNarrow false .epoch (installed.narrow false .epoch)
  obtain ⟨t', hnarrow, hnarrowed⟩ := hnarrows
  rw [(hdecoded.accepts hvalid).2] at hnarrowed
  obtain ⟨hok, hsame⟩ := hnarrowed.accepts ⟨hvalid, by unfold Tagged; decide⟩
  rw [← hsame]
  exact .narrowed hdecode (hdecoded.accepts hvalid).1 rfl hnarrow hok

/-- An epoch without a fraction compares equal to a later one. -/
theorem increment_equals_half :
    EpochSince (machine surroundings helpers) false increment ∧
      EpochSince (machine surroundings helpers) false half ∧ epoch increment < epoch half ∧
      ∃ s', Calls (comparing surroundings .eq 0 8 16) "ckb_epoch_since_compare"
        (frame increment half) s' ∧ Answers 0#64 16 true s' := by
  refine ⟨epochSince_increment, epochSince_half, by decide +kernel, ?_⟩
  have hcalls : ∃ s', Calls (comparing surroundings .eq 0 8 16) "ckb_epoch_since_compare"
      (frame increment half) s' ∧ Answers 0#64 16 (BinaryOp.eq.result (compareWords
        (load (frame increment half).mem ((frame increment half).get sp + ofNat 64 0) 8)
        (load (frame increment half).mem ((frame increment half).get sp + ofNat 64 8) 8)))
        s' := exists_calls_comparison (by decide) rfl
  rwa [load_left, load_right] at hcalls

/-- Two words with proper fractions are compared as they should be. -/
theorem epoch_comparison_half :
    EpochSince (machine surroundings helpers) false half ∧ ¬ Degenerate half half ∧
      ∃ s', Calls (comparing surroundings .le 0 8 16) "ckb_epoch_since_compare" (frame half half)
        s' ∧ Answers 0#64 16 true s' := by
  have hnot : ¬ Degenerate half half := by
    unfold Degenerate
    decide
  have hleft : EpochSince (machine surroundings helpers) false
      (load (frame half half).mem ((frame half half).get sp + ofNat 64 0) 8) := by
    rw [load_left]
    exact epochSince_half
  have hright : EpochSince (machine surroundings helpers) false
      (load (frame half half).mem ((frame half half).get sp + ofNat 64 8) 8) := by
    rw [load_right]
    exact epochSince_half
  have hanswers := (epoch_comparison_iff installed (show 16 < 2 ^ 63 by decide) hleft hright).2
    (by rw [load_left, load_right]; exact hnot) .le
  rw [load_left, load_right, show BinaryOp.le.holds (epoch half) (epoch half) = true from
    decide_eq_true le_rfl] at hanswers
  exact ⟨epochSince_half, hnot, hanswers⟩

end Samples

end CellScript.Runtime.Since
