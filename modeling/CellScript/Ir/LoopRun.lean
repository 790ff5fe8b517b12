import CellScript.Ir.Matchers

/-!
# Running a matched loop

A run that comes to the condition of a sound loop stays in the loop and ends there: the loop
compares the two streams from the index it finds on (`Sound.ends_condition_iff`). One iteration is
`Sound.iteration`; the run is by induction on the distance between the index and the length.
-/

namespace CellScript.Ir

open Runs (Ends ends_iff_of_inl ends_iff_of_inr)
open Machine

variable {World : Type} {M : Machine World} {σ τ ρ : State World} {blocks : List IrBlock}
  {l : ByteLoop} {o : Outcome} {b : IrBlock}

/-! ### Comparisons of registers -/

theorem isWord_of_isUnsignedWord {ty : IrType} (h : ty.isUnsignedWord = true) :
    ty.isWord = true ∧ ty ≠ .i32 := by
  cases ty <;> first | exact ⟨rfl, by decide⟩ | cases h

theorem evalBinary_comparison {dest : IrVar} {op : Optimize.BinaryOp} {left right : IrOperand}
    {x y : Value} (h : (IrInstruction.binary dest op left right).isUnsignedComparison = true)
    (hop : op = .lt ∨ op = .ne) :
    M.evalBinary dest op left right x y =
      some (Value.ofBool (Optimize.compareWords op false x.word y.word)) := by
  simp only [IrInstruction.isUnsignedComparison, decide_eq_true_eq] at h
  obtain ⟨hdest, hleft, hright⟩ := h
  obtain ⟨hleft, hl⟩ := isWord_of_isUnsignedWord hleft
  obtain ⟨hright, hr⟩ := isWord_of_isUnsignedWord hright
  have hword : dest.ty.isWord = true := by rw [hdest]; rfl
  have hsigned : decide (left.ty = .i32 ∨ right.ty = .i32) = false := by simp [hl, hr]
  have hrun : Optimize.runWord IrType.bool.wordTy false op x.word y.word =
      some (Optimize.Ty.bool.narrow
        (BitVec.ofNat 64 (Optimize.compareWords op false x.word y.word).toNat)) := by
    rcases hop with rfl | rfl
    · rfl
    · rfl
  rw [evalBinary_word hword hleft hright, hsigned, hdest, hrun]
  cases Optimize.compareWords op false x.word y.word <;> rfl

/-! ### Blocks without a runtime error -/

theorem step_of_block (hb : block blocks b.id = some b) :
    M.step blocks (b.id, σ) = M.runBlock b σ := by
  simp [step, hb]

theorem runBlock_eq (herror : b.runtimeError = none) :
    M.runBlock b σ = (M.execAll b.instructions σ).elim (.inr .failed)
      fun τ ↦ terminate τ b.terminator := by
  unfold runBlock
  cases M.execAll b.instructions σ with
  | none => rfl
  | some τ => simp [herror]

theorem ends_constReturn_iff {value : Bool} (hb : block blocks b.id = some b)
    (herror : b.runtimeError = none) (h : isConstReturn b value = true) :
    Ends (M.step blocks) (b.id, σ) o ↔ o = .returned (some (.ofBool value)) := by
  obtain ⟨hinstructions, hterminator⟩ := isConstReturn_iff.1 h
  refine ends_iff_of_inr ?_
  rw [step_of_block hb, runBlock_eq herror, hinstructions, hterminator]
  rfl

/-- How a comparison ends the function. -/
def outcomeOf : Option Bool → Outcome
  | none => .failed
  | some equal => .returned (some (.ofBool equal))

theorem outcomeOf_injective : Injective outcomeOf := by
  intro a b h
  match a, b with
  | none, none => rfl
  | none, some b => cases h
  | some a, none => cases h
  | some a, some b =>
    simp only [outcomeOf, Outcome.returned.injEq, some.injEq, Value.ofBool] at h
    cases a <;> cases b <;> first | rfl | (simp at h)

namespace ByteLoop

/-- The number of positions that the loop compares. -/
def count (l : ByteLoop) (σ : State World) : ℕ := (σ.eval l.loop.length).word.toNat

/-- Two states between which the loop has at most moved its index. -/
structure Agree (l : ByteLoop) (σ τ : State World) : Prop where
  world : τ.world = σ.world
  vars : ∀ id ∈ l.constants, τ.vars id = σ.vars id

theorem Agree.left (h : l.Agree σ τ) : l.left.read M τ = l.left.read M σ :=
  ByteStream.read_congr h.world fun id hid ↦ h.vars id (mem_append_left _ (mem_append_right _ hid))

theorem Agree.right (h : l.Agree σ τ) : l.right.read M τ = l.right.read M σ :=
  ByteStream.read_congr h.world fun id hid ↦ h.vars id (mem_append_right _ hid)

theorem Agree.count (h : l.Agree σ τ) : l.count τ = l.count σ := by
  unfold ByteLoop.count
  rw [eval_congr fun id hid ↦ h.vars id (mem_append_left _ (mem_append_left _ hid))]

theorem Agree.trans (h : l.Agree σ τ) (h' : l.Agree τ ρ) : l.Agree σ ρ :=
  ⟨h'.world.trans h.world, fun id hid ↦ (h'.vars id hid).trans (h.vars id hid)⟩

/-- Setting a temporary keeps the constants and the index. -/
theorem WellFormed.agree_set (hw : l.WellFormed) {t : IrVar} (ht : t ∈ l.temporaries)
    (value : Value) : l.Agree σ (σ.set t value) ∧ l.position (σ.set t value) = l.position σ := by
  have hfresh := hw.fresh t ht
  refine ⟨⟨rfl, fun id hid ↦ σ.set_vars_of_ne value fun heq ↦ hfresh ?_⟩, ?_⟩
  · exact mem_cons_of_mem _ (heq ▸ hid)
  · unfold position
    rw [σ.set_vars_of_ne value fun heq ↦ hfresh (heq ▸ mem_cons_self)]

namespace Sound

variable (hl : l.Sound M blocks) (hw : l.WellFormed)
include hl hw

/-- The condition block. -/
theorem step_condition :
    M.step blocks (l.loop.condition.id, σ) =
      .inl (if l.position σ < l.count σ then l.loop.compare.id else l.loop.complete.id,
        σ.set l.loop.result (.ofBool (l.position σ < l.count σ))) := by
  obtain ⟨cond, hcond, hterminator⟩ := hl.shape.condition_terminator
  have hcomparison := hw.comparison
  rw [hl.shape.condition_instructions, List.all_cons, and_eq_true] at hcomparison
  have heval := evalBinary_comparison (M := M) (x := σ.vars l.loop.index.id)
    (y := σ.eval l.loop.length) hcomparison.1 (.inl rfl)
  have hlt : Optimize.compareWords .lt false (σ.vars l.loop.index.id).word
      (σ.eval l.loop.length).word = decide (l.position σ < l.count σ) := rfl
  rw [step_of_block hl.shape.condition, runBlock_eq (hw.noError _ (by simp [loopBlocks])),
    hl.shape.condition_instructions, hterminator]
  simp only [execAll, exec, State.eval_var, heval, hlt, map_some, bind_some, elim_some, terminate,
    eval_of_operandIsVar hcond, State.set_vars_self]
  congr 2
  by_cases h : l.position σ < l.count σ <;> simp [h, Value.ofBool]

/-- The condition fails: the loop returns `true`. -/
theorem ends_of_le (hle : l.count σ ≤ l.position σ) :
    Ends (M.step blocks) (l.loop.condition.id, σ) o ↔ o = outcomeOf (some true) := by
  rw [ends_iff_of_inl (hl.step_condition hw), if_neg (not_lt.2 hle)]
  exact ends_constReturn_iff hl.shape.complete (hw.noError _ (by simp [loopBlocks]))
    hl.shape.complete_return

/-- The compare block, from a state after the condition block. -/
theorem step_compare :
    M.step blocks (l.loop.compare.id, σ) =
      (M.execAll l.loop.leading σ).elim (.inr .failed) fun τ ↦
        .inl (if (τ.eval l.loop.left).word = (τ.eval l.loop.right).word then l.loop.continuing.id
            else l.loop.mismatch.id,
          τ.set l.loop.differs
            (.ofBool ((τ.eval l.loop.left).word ≠ (τ.eval l.loop.right).word))) := by
  obtain ⟨cond, hcond, hterminator⟩ := hl.shape.compare_terminator
  have hcomparison := hw.byteComparison
  rw [hl.shape.compare_instructions, getLast?_concat] at hcomparison
  rw [step_of_block hl.shape.compare, runBlock_eq (hw.noError _ (by simp [loopBlocks])),
    hl.shape.compare_instructions, hterminator, execAll_append]
  cases M.execAll l.loop.leading σ with
  | none => rfl
  | some τ =>
    have heval := evalBinary_comparison (M := M) (x := τ.eval l.loop.left)
      (y := τ.eval l.loop.right) hcomparison (.inr rfl)
    have hne : Optimize.compareWords .ne false (τ.eval l.loop.left).word
        (τ.eval l.loop.right).word =
          decide ((τ.eval l.loop.left).word ≠ (τ.eval l.loop.right).word) := rfl
    simp only [bind_some, execAll, exec, heval, hne, map_some,
      elim_some, terminate, eval_of_operandIsVar hcond, State.set_vars_self]
    congr 2
    by_cases h : (τ.eval l.loop.left).word = (τ.eval l.loop.right).word <;> simp [h, Value.ofBool]

theorem step_continuing :
    M.step blocks (l.loop.continuing.id, σ) = .inl (l.loop.increment.id, σ) := by
  obtain ⟨hinstructions, hterminator⟩ := emptyJump_some hl.shape.continuing_jump
  rw [step_of_block hl.shape.continuing, runBlock_eq (hw.noError _ (by simp [loopBlocks])),
    hinstructions, hterminator]
  rfl

/-- The increment block moves the index by one. -/
theorem step_increment (hlt : l.position σ < l.count σ) :
    ∃ τ, M.step blocks (l.loop.increment.id, σ) = .inl (l.loop.condition.id, τ) ∧ l.Agree σ τ ∧
      l.position τ = l.position σ + 1 := by
  obtain ⟨⟨left, moved, operand, hinstructions, hleft, hmoved, hoperand⟩, hterminator⟩ :=
    hl.shape.increment_shape
  have hsum := hw.sum
  rw [hinstructions, List.all_cons, and_eq_true] at hsum
  have hsum := hsum.1
  simp only [IrInstruction.isWordSum, decide_eq_true_eq] at hsum
  have hnext : l.loop.next ∈ l.temporaries := by simp [temporaries]
  obtain ⟨hagree, -⟩ := hw.agree_set (σ := σ) hnext
    { word := (σ.eval left).word + (σ.eval (.const (.u64 1))).word }
  refine ⟨(σ.set l.loop.next { word := (σ.eval left).word + 1 }).set moved
    { word := (σ.eval left).word + 1 }, ?_, ?_, ?_⟩
  · rw [step_of_block hl.shape.increment, runBlock_eq (hw.noError _ (by simp [loopBlocks])),
      hinstructions, hterminator]
    simp only [execAll, exec, evalBinary_add hsum.1 hsum.2.1 hsum.2.2, map_some, bind_some,
      elim_some, terminate, eval_of_operandIsVar hoperand, State.set_vars_self]
    rfl
  · refine hagree.trans ⟨rfl, fun id hid ↦ State.set_vars_of_ne _ _ fun heq ↦ ?_⟩
    exact (hl.stable id hid).1 (heq.trans hmoved)
  · have hbound := (σ.eval l.loop.length).word.isLt
    have hword : (σ.eval left).word = (σ.vars l.loop.index.id).word := by
      rw [eval_of_operandIsVar hleft]
    unfold count position at *
    rw [← hmoved, State.set_vars_self, hmoved, hword]
    exact mod_eq_of_lt (by simp; omega)

/-- **One iteration.** The two bytes at the index settle the comparison, or the loop is back at its
condition with the next index. -/
theorem iteration (hlt : l.position σ < l.count σ) :
    (∀ v, byteVerdict (l.left.read M σ (l.position σ)) (l.right.read M σ (l.position σ)) = some v →
      ∀ o, Ends (M.step blocks) (l.loop.condition.id, σ) o ↔ o = outcomeOf v) ∧
    (byteVerdict (l.left.read M σ (l.position σ)) (l.right.read M σ (l.position σ)) = none →
      ∃ τ, l.Agree σ τ ∧ l.position τ = l.position σ + 1 ∧
        ∀ o, Ends (M.step blocks) (l.loop.condition.id, σ) o ↔
          Ends (M.step blocks) (l.loop.condition.id, τ) o) := by
  have hresult : l.loop.result ∈ l.temporaries := by simp [temporaries]
  have hdiffers : l.loop.differs ∈ l.temporaries := by simp [temporaries]
  obtain ⟨hagree, hposition⟩ := hw.agree_set (σ := σ) hresult (.ofBool true)
  have hcondition : M.step blocks (l.loop.condition.id, σ) =
      .inl (l.loop.compare.id, σ.set l.loop.result (.ofBool true)) := by
    rw [hl.step_condition hw, if_pos hlt, decide_eq_true hlt]
  obtain ⟨hfail, hvalue⟩ := hl.compares (σ.set l.loop.result (.ofBool true))
  rw [hagree.left, hagree.right, hposition] at hfail hvalue
  have hcompare := hl.step_compare hw (σ := σ.set l.loop.result (.ofBool true))
  cases hexec : M.execAll l.loop.leading (σ.set l.loop.result (.ofBool true)) with
  | none =>
    -- a byte is out of range
    rw [hexec] at hcompare
    refine ⟨fun v hv o ↦ ?_, fun hnone ↦ ?_⟩
    · obtain rfl : none = v := mem_unique (hfail hexec) hv
      rw [ends_iff_of_inl hcondition]
      exact ends_iff_of_inr hcompare
    · cases (hfail hexec).symm.trans hnone
  | some τ =>
    rw [hexec, elim_some] at hcompare
    have hverdict := hvalue τ hexec
    by_cases heq : (τ.eval l.loop.left).word = (τ.eval l.loop.right).word
    · rw [if_pos heq] at hcompare hverdict
      refine ⟨fun v hv ↦ ?_, fun _ ↦ ?_⟩
      · cases hverdict.symm.trans hv
      · obtain ⟨hworld, hvars⟩ := execAll_frame hl.plain hexec
        have hleading : l.Agree (σ.set l.loop.result (.ofBool true)) τ :=
          ⟨hworld, fun id hid ↦ hvars id (hl.stable id hid).2⟩
        have hleading' : l.position τ = l.position (σ.set l.loop.result (.ofBool true)) := by
          unfold position
          rw [hvars _ hl.index]
        obtain ⟨hset, hset'⟩ := hw.agree_set (σ := τ) hdiffers
          (.ofBool ((τ.eval l.loop.left).word ≠ (τ.eval l.loop.right).word))
        have hall := (hagree.trans hleading).trans hset
        have hpos := (hset'.trans hleading').trans hposition
        obtain ⟨ρ, hρ, hagree', hnext⟩ := hl.step_increment hw (by rwa [hpos, hall.count])
        refine ⟨ρ, hall.trans hagree', by rw [hnext, hpos], fun o ↦ ?_⟩
        rw [ends_iff_of_inl hcondition, ends_iff_of_inl hcompare,
          ends_iff_of_inl (hl.step_continuing hw), ends_iff_of_inl hρ]
    · rw [if_neg heq] at hcompare hverdict
      refine ⟨fun v hv o ↦ ?_, fun hnone ↦ ?_⟩
      · obtain rfl : some false = v := mem_unique hverdict hv
        rw [ends_iff_of_inl hcondition, ends_iff_of_inl hcompare]
        exact ends_constReturn_iff hl.shape.mismatch (hw.noError _ (by simp [loopBlocks]))
          hl.shape.mismatch_return
      · cases hverdict.symm.trans hnone

/-- **A run of the loop** compares the streams from the index on. -/
theorem ends_condition_iff :
    Ends (M.step blocks) (l.loop.condition.id, σ) o ↔
      o = outcomeOf (compareBytes (l.left.read M σ) (l.right.read M σ) (l.position σ)
        (l.count σ - l.position σ)) := by
  -- the invariant is that the streams and the length are those of the first state
  induction hn : l.count σ - l.position σ generalizing σ with
  | zero => exact hl.ends_of_le hw (Nat.sub_eq_zero_iff_le.1 hn)
  | succ n ih =>
    obtain ⟨hsome, hnone⟩ := hl.iteration hw (σ := σ) (by omega)
    unfold compareBytes
    cases hv : byteVerdict (l.left.read M σ (l.position σ)) (l.right.read M σ (l.position σ)) with
    | some v => rw [Scan.scan_succ_of_some hv, hsome v hv o]
    | none =>
      obtain ⟨τ, hagree, hposition, hends⟩ := hnone hv
      have hcount := hagree.count
      have hrun := ih (σ := τ) (by omega)
      rw [hends o, hrun, Scan.scan_succ_of_none hv, hagree.left, hagree.right, hposition]
      rfl

omit hw in
/-- The replacing block calls the helper and returns what it says. -/
theorem runBlock_replacement :
    M.runBlock l.replacement σ = .inr (outcomeOf (compareBytes (l.left.read M σ)
      (l.right.read M σ) 0 (l.count σ))) := by
  have hcalls := hl.calls σ
  rw [runBlock_eq rfl]
  show (M.execAll l.instructions σ).elim _ _ = _
  cases hexec : M.execAll l.instructions σ with
  | none =>
    rw [hexec] at hcalls
    rw [count, Option.map_eq_none_iff.1 hcalls.symm]
    rfl
  | some τ =>
    rw [hexec, map_some] at hcalls
    obtain ⟨b, hb, hτ⟩ := map_eq_some_iff.1 hcalls.symm
    rw [count, hb]
    show terminate τ (.ret (some (.var l.loop.result))) = _
    rw [terminate, map_some, State.eval_var, ← hτ]
    rfl

end Sound

end ByteLoop

end CellScript.Ir
