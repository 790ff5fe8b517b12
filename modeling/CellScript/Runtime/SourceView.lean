import CellScript.Runtime.Transaction

/-!
# Source views

A source view is a pair of 32-bit numbers in one word: the index in the low half, and in the high
half the number of a source, with five and six for the inputs and the outputs of the group.
`emit_decode_source_view_to_t1_t2` emits the code that takes it apart, for the system calls.
-/

namespace CellScript.Runtime

open Assembler (Instruction)
open MachineState
open Blocks

/-- The code up to the label `source_view_decoded`; the block at `source_view_direct` belongs to
it. -/
def decodeSourceView (invalid : String) : List Instruction :=
  [.srli t0 a0 32, .slli t1 a0 32, .srli t1 t1 32, .beqz t0 invalid, .li t5 4,
   .bgeu t5 t0 "source_view_direct", .li t5 6, .bltu t5 t0 invalid, .addi t2 t0 (-4),
   .li t5 0x0100000000000000, .or t2 t2 t5, .jump "source_view_decoded"]

def sourceViewDirect : Block := ⟨"source_view_direct", [.addi t2 t0 0]⟩

/-- The index and the source that a view stands for. -/
def decodeView (view : Word) : Option (Word × Word) :=
  let source := view >>> 32
  let index := (view <<< 32) >>> 32
  if source = 0#64 then none
  else if source.toNat ≤ 4 then some (index, source)
  else if source.toNat ≤ 6 then some (index, (source - 4#64) ||| Source.groupFlag)
  else none

section

variable {e : Surroundings} {helpers : String → Option Program} {C : Code (machine e helpers)}
  {fall : Option String} {s : State} {invalid : String}

/-- **The code takes a view apart.** -/
theorem runs_decodeSourceView (hdirect : C.program.at? "source_view_direct" =
      some (sourceViewDirect.body, some "source_view_decoded"))
    (hok : ∀ index source, decodeView (s.get a0) = some (index, source) → ∀ s',
      s'.get t1 = index → s'.get t2 = source → Quiet [t0, t1, t2, t5] s s' →
      C.RunsAt "source_view_decoded" s')
    (hno : decodeView (s.get a0) = none → ∀ s', Quiet [t0, t1, t2, t5] s s' →
      C.RunsAt invalid s') : C.Runs (decodeSourceView invalid) fall s := by
  simp (disch := decide) only [decodeSourceView, runs_rules, act, set_rules, Int.reduceToNat]
  split
  · next hzero => exact hno (if_pos (beq_iff_eq.1 hzero)) _ (by simp)
  next hzero =>
  rw [beq_iff_eq] at hzero
  split
  · next hle =>
    have hle' : (s.get a0 >>> 32).toNat ≤ 4 := by simpa [BitVec.ult] using hle
    rw [runsAt_iff hdirect]
    simp (disch := decide) only [sourceViewDirect, runs_rules, BitVec.add_zero, act, set_rules,
      runs_nil]
    refine hok ((s.get a0 <<< 32) >>> 32) (s.get a0 >>> 32) ?_ _ rfl rfl (by simp)
    simp only [decodeView, if_neg hzero, if_pos hle']
  next hle =>
  have hle' : ¬ (s.get a0 >>> 32).toNat ≤ 4 := by simpa [BitVec.ult] using hle
  split
  · next hlarge =>
    have hlarge' : ¬ (s.get a0 >>> 32).toNat ≤ 6 := by simpa [BitVec.ult] using hlarge
    refine hno ?_ _ (by simp)
    simp only [decodeView, if_neg hzero, if_neg hle', if_neg hlarge']
  · next hlarge =>
    have hlarge' : (s.get a0 >>> 32).toNat ≤ 6 := by simpa [BitVec.ult] using hlarge
    refine hok ((s.get a0 <<< 32) >>> 32) ((s.get a0 >>> 32 - 4#64) ||| Source.groupFlag) ?_ _
      rfl ?_ (by simp)
    · simp only [decodeView, if_neg hzero, if_neg hle', if_pos hlarge']
    · rw [BitVec.sub_eq_add_neg]
      rfl

end

end CellScript.Runtime
