import CellScript.Ir.Run
import Mathlib.Tactic.Ring

/-!
# What the matchers trace

The matchers look up the last assignment of a variable in the leading instructions of the compare
block, whatever the place of the read they start from. This is the assignment that the run reads
when the variable is not assigned again after that place. `settled` says so of every variable the
lookups pass through, and then the lookups describe the run: `decompose_value` for offsets and
`resolveMoves_value` for moves.
-/

namespace CellScript.Ir

open List

variable {World : Type} {M : Machine World} {σ τ : State World} {id position depth : ℕ}
  {instruction definition : IrInstruction} {instructions : List IrInstruction}
  {l r : List IrInstruction} {dest : IrVar}

/-! ### Definitions -/

/-- No instruction assigns the variable. -/
def Unassigned (id : ℕ) (instructions : List IrInstruction) : Prop :=
  ∀ instruction ∈ instructions, instruction.destId ≠ some id

instance : Decidable (Unassigned id instructions) :=
  inferInstanceAs (Decidable (∀ _ ∈ _, _))

theorem unassigned_append {id : ℕ} : Unassigned id (l ++ r) ↔ Unassigned id l ∧ Unassigned id r :=
  forall_mem_append

theorem unassigned_take (h : Unassigned id instructions) (n : ℕ) :
    Unassigned id (instructions.take n) :=
  fun _ hi ↦ h _ (mem_of_mem_take hi)

theorem definitionFor_none_iff :
    definitionFor id instructions = none ↔ Unassigned id instructions := by
  induction instructions with
  | nil => simp [definitionFor, Unassigned]
  | cons instruction instructions ih =>
    unfold definitionFor
    rw [Unassigned, forall_mem_cons, ← Unassigned, ← ih]
    split
    · next h => simp [h]
    · next h =>
      split
      · next hd => simp [hd]
      · next hd => simp [h, hd]

theorem definitionFor_some (h : definitionFor id instructions = some (position, definition)) :
    instructions[position]? = some definition ∧ definition.destId = some id ∧
      Unassigned id (instructions.drop (position + 1)) := by
  induction instructions generalizing position with
  | nil => cases h
  | cons instruction instructions ih =>
    unfold definitionFor at h
    split at h
    · next p d hd =>
      obtain ⟨rfl, rfl⟩ := Prod.mk.inj (some.inj h)
      obtain ⟨hget, hdest, hun⟩ := ih hd
      exact ⟨hget, hdest, hun⟩
    · next hnone =>
      split at h
      · next hdest =>
        obtain ⟨rfl, rfl⟩ := Prod.mk.inj (some.inj h)
        exact ⟨rfl, hdest, definitionFor_none_iff.1 hnone⟩
      · cases h

/-- Instructions at the end that do not assign the variable are not looked at. -/
theorem definitionFor_append (h : Unassigned id r) :
    definitionFor id (l ++ r) = definitionFor id l := by
  induction l with
  | nil => exact definitionFor_none_iff.2 h
  | cons instruction l ih =>
    rw [cons_append]
    unfold definitionFor
    rw [ih]

/-- The only assignment of a variable is its definition. -/
theorem definitionFor_append_cons (hd : instruction.destId = some id) (hr : Unassigned id r) :
    definitionFor id (l ++ instruction :: r) = some (l.length, instruction) := by
  induction l with
  | nil =>
    rw [nil_append]
    unfold definitionFor
    rw [definitionFor_none_iff.2 hr]
    exact if_pos hd
  | cons first l ih =>
    rw [cons_append]
    unfold definitionFor
    rw [ih, length_cons]

/-- A variable that is assigned once is assigned by no other instruction. -/
theorem unassigned_of_count_eq_one (hd : instruction.destId = some id)
    (h : ((l ++ instruction :: r).filterMap IrInstruction.destId).count id = 1) :
    Unassigned id l ∧ Unassigned id r := by
  rw [filterMap_append, filterMap_cons_some hd, count_append, count_cons_self] at h
  have hmem : ∀ instructions : List IrInstruction,
      (instructions.filterMap IrInstruction.destId).count id = 0 → Unassigned id instructions := by
    intro instructions hzero i hi hdest
    exact count_eq_zero.1 hzero (mem_filterMap.2 ⟨i, hi, hdest⟩)
  exact ⟨hmem l (by omega), hmem r (by omega)⟩

/-! ### Plain instructions -/

/-- The instructions of a loop's leading part: they change one variable, if they do not fail. -/
def IrInstruction.isPlain : IrInstruction → Bool
  | loadConst _ _ | move _ _ | binary _ _ _ _ | index _ _ _ => true
  | call _ func args => (runtimeByteSourceKind func).isSome ∧ args.length = 2
  | other _ _ _ => false

theorem isPlain_of_replaceable (h : replaceableInstruction instruction = true) :
    instruction.isPlain = true := by
  cases instruction <;> first | rfl | cases h

/-- The value that a byte read writes. -/
theorem evalCall_byteRead {func : IrCallTarget} {kind : SourceKind} {view offset : Value}
    {world : World} (h : runtimeByteSourceKind func = some kind) :
    M.evalCall func [view, offset] world =
      (M.source world kind view)[offset.word.toNat]?.map fun byte ↦ (Value.ofByte byte, world) := by
  simp [Machine.evalCall, h]

/-- **Frame.** A plain instruction leaves the other variables and the world alone. -/
theorem exec_frame (hp : instruction.isPlain = true) (h : M.exec σ instruction = some τ) :
    τ.world = σ.world ∧ ∀ id, instruction.destId ≠ some id → τ.vars id = σ.vars id := by
  have hset : ∀ (dest : IrVar) (value : Value), σ.set dest value = τ →
      τ.world = σ.world ∧ ∀ id, some dest.id ≠ some id → τ.vars id = σ.vars id := by
    rintro dest value rfl
    exact ⟨rfl, fun id hid ↦ σ.set_vars_of_ne value fun h ↦ hid (congrArg some h.symm)⟩
  cases instruction with
  | loadConst dest value => exact hset dest _ (some.inj h)
  | move dest src => exact hset dest _ (some.inj h)
  | binary dest op left right =>
    obtain ⟨value, -, hτ⟩ := map_eq_some_iff.1 h
    exact hset dest value hτ
  | index dest arr idx =>
    obtain ⟨value, -, hτ⟩ := map_eq_some_iff.1 h
    exact hset dest value hτ
  | call dest func args =>
    simp only [IrInstruction.isPlain, decide_eq_true_eq] at hp
    obtain ⟨kind, hkind⟩ := isSome_iff_exists.1 hp.1
    obtain ⟨view, offset, rfl⟩ := length_eq_two.1 hp.2
    obtain ⟨⟨value, world⟩, heval, hτ⟩ := map_eq_some_iff.1 h
    rw [map_cons, map_cons, map_nil, evalCall_byteRead hkind] at heval
    obtain ⟨byte, -, hbyte⟩ := map_eq_some_iff.1 heval
    obtain rfl : σ.world = world := (Prod.mk.inj hbyte).2
    cases dest with
    | none =>
      obtain rfl : σ = τ := hτ
      exact ⟨rfl, fun _ _ ↦ rfl⟩
    | some dest => exact hset dest value hτ
  | other dest name operands => cases hp

/-- On registers. -/
theorem evalBinary_word {op : Optimize.BinaryOp} {left right : IrOperand} {x y : Value}
    (hdest : dest.ty.isWord = true) (hleft : left.ty.isWord = true)
    (hright : right.ty.isWord = true) :
    M.evalBinary dest op left right x y =
      (Optimize.runWord dest.ty.wordTy (left.ty = .i32 ∨ right.ty = .i32) op x.word y.word).map
        fun z ↦ { word := BitVec.ofInt 64 z } :=
  if_pos ⟨hdest, hleft, hright⟩

/-- What replaceable instructions compute never fails. -/
theorem exec_isSome_of_replaceable (h : replaceableInstruction instruction = true) :
    (M.exec σ instruction).isSome := by
  cases instruction with
  | loadConst dest value => rfl
  | move dest src => rfl
  | binary dest op left right =>
    simp only [replaceableInstruction, and_eq_true, not_eq_true', decide_eq_false_iff_not,
      not_or] at h
    obtain ⟨⟨⟨hdest, hleft⟩, hright⟩, hdiv, hmod, hshl, hshr⟩ := h
    have hword : ∀ operand, nonTrappingScalarOperand operand = true → operand.ty.isWord = true := by
      rintro (v | c) hv
      · exact hv
      · cases c <;> first | rfl | cases hv
    rw [Machine.exec, evalBinary_word hdest (hword _ hleft) (hword _ hright),
      Option.isSome_map]
    cases op <;> first | rfl | contradiction
  | index dest arr idx => cases h
  | call dest func args => cases h
  | other dest name operands => cases h

/-! ### Sequences of instructions -/

namespace Machine

theorem execAll_append (l r : List IrInstruction) (σ : State World) :
    M.execAll (l ++ r) σ = (M.execAll l σ).bind (M.execAll r) := by
  induction l generalizing σ with
  | nil => rfl
  | cons instruction l ih =>
    simp only [cons_append, execAll]
    cases M.exec σ instruction with
    | none => rfl
    | some τ => exact ih τ

/-- **Frame** for a sequence. -/
theorem execAll_frame (hp : ∀ i ∈ instructions, i.isPlain = true)
    (h : M.execAll instructions σ = some τ) :
    τ.world = σ.world ∧ ∀ id, Unassigned id instructions → τ.vars id = σ.vars id := by
  induction instructions generalizing σ with
  | nil =>
    obtain rfl := some.inj h
    exact ⟨rfl, fun _ _ ↦ rfl⟩
  | cons instruction instructions ih =>
    obtain ⟨ρ, hρ, hτ⟩ := bind_eq_some_iff.1 h
    rw [forall_mem_cons] at hp
    obtain ⟨hworld, hvars⟩ := exec_frame hp.1 hρ
    obtain ⟨hworld', hvars'⟩ := ih hp.2 hτ
    refine ⟨hworld'.trans hworld, fun id hid ↦ ?_⟩
    obtain ⟨hhead, htail⟩ := forall_mem_cons.1 hid
    exact (hvars' id htail).trans (hvars id hhead)

/-- A sequence that fails does so at some instruction. -/
theorem exists_of_execAll_none (h : M.execAll instructions σ = none) :
    ∃ p instruction ρ, instructions[p]? = some instruction ∧
      M.execAll (instructions.take p) σ = some ρ ∧ M.exec ρ instruction = none := by
  induction instructions generalizing σ with
  | nil => cases h
  | cons instruction instructions ih =>
    cases hexec : M.exec σ instruction with
    | none => exact ⟨0, instruction, σ, rfl, rfl, hexec⟩
    | some ρ =>
      have hrest : M.execAll instructions ρ = none := by
        simpa [execAll, hexec] using h
      obtain ⟨p, i, ρ', hget, htake, hfail⟩ := ih hrest
      refine ⟨p + 1, i, ρ', hget, ?_, hfail⟩
      simpa [execAll, hexec] using htake

/-- The states before and after one instruction of a sequence that has been run up to `u`. A
variable that is not assigned after the instruction keeps its value. -/
theorem execAll_take_split {p u : ℕ} (hp : ∀ i ∈ instructions, i.isPlain = true)
    (hget : instructions[p]? = some instruction) (hlt : p < u)
    (h : M.execAll (instructions.take u) σ = some τ) :
    ∃ ρ ρ', M.execAll (instructions.take p) σ = some ρ ∧ M.exec ρ instruction = some ρ' ∧
      ∀ id, Unassigned id (instructions.drop (p + 1)) → τ.vars id = ρ'.vars id := by
  have hplen : p < instructions.length := (List.getElem?_eq_some_iff.1 hget).1
  have hdrop : instructions.drop p = instruction :: instructions.drop (p + 1) := by
    rw [List.drop_eq_getElem_cons hplen, (List.getElem?_eq_some_iff.1 hget).2]
  obtain ⟨d, rfl⟩ : ∃ d, u = p + (d + 1) := ⟨u - p - 1, by omega⟩
  rw [take_add, hdrop, execAll_append] at h
  obtain ⟨ρ, hρ, hrest⟩ := bind_eq_some_iff.1 h
  obtain ⟨ρ', hρ', htail⟩ := bind_eq_some_iff.1 hrest
  refine ⟨ρ, ρ', hρ, hρ', fun id hid ↦ ?_⟩
  have hplain : ∀ i ∈ (instructions.drop (p + 1)).take d, i.isPlain = true :=
    fun i hi ↦ hp i (mem_of_mem_drop (mem_of_mem_take hi))
  exact (execAll_frame hplain htail).2 id (unassigned_take hid _)

end Machine

/-! ### Words -/

theorem ofInt_narrow_u64 (x : BitVec 64) : BitVec.ofInt 64 (IrType.u64.wordTy.narrow x) = x := by
  apply eq_of_toNat_eq
  simp only [IrType.wordTy, Optimize.Ty.narrow, Optimize.IntTy.width, BitVec.toNat_ofInt]
  omega

/-- A sum at `u64` is the sum of the words. -/
theorem evalBinary_add {left right : IrOperand} {x y : Value} (hdest : dest.ty = .u64)
    (hleft : left.ty.isWord = true) (hright : right.ty.isWord = true) :
    M.evalBinary dest .add left right x y = some { word := x.word + y.word } := by
  have hword : dest.ty.isWord = true := by rw [hdest]; rfl
  rw [evalBinary_word hword hleft hright, Optimize.runWord, map_some, hdest, ofInt_narrow_u64]

/-! ### Traced variables -/

/-- The operands through which the lookups go on. -/
def IrInstruction.tracedOperands : IrInstruction → List IrOperand
  | move _ src => [src]
  | binary _ .add left right => [left, right]
  | index _ arr idx => [arr, idx]
  | call _ _ args => args
  | _ => []

/-- A sum is a `u64`, of operands that fit a register. -/
def IrInstruction.isWordSum : IrInstruction → Bool
  | binary dest .add left right => dest.ty = .u64 ∧ left.ty.isWord ∧ right.ty.isWord
  | _ => true

/-- An operand that is read at a position is settled when its variable is not assigned from there
on, and the instruction that did assign it is settled at its own position. Positions only go down,
so that the number of instructions is fuel enough. -/
def settled (instructions : List IrInstruction) : ℕ → ℕ → IrOperand → Bool
  | 0, _, _ => false
  | _ + 1, _, .const _ => true
  | fuel + 1, position, .var var =>
    Unassigned var.id (instructions.drop position) &&
      match definitionFor var.id instructions with
      | none => true
      | some (p, definition) =>
        definition.isWordSum && definition.tracedOperands.all (settled instructions fuel p)

section Settled

variable {fuel position p : ℕ} {var : IrVar} {operand : IrOperand}

/-- What a settled variable with a definition gives. -/
theorem settled_var (h : settled instructions fuel position (.var var) = true)
    (hd : definitionFor var.id instructions = some (p, definition)) :
    p < position ∧ definition.isWordSum = true ∧ ∃ fuel', ∀ operand ∈ definition.tracedOperands,
      settled instructions fuel' p operand = true := by
  cases fuel with
  | zero => cases h
  | succ fuel =>
    simp only [settled, hd, and_eq_true, decide_eq_true_eq, all_eq_true] at h
    obtain ⟨hun, hsum, htraced⟩ := h
    obtain ⟨hget, hdest, -⟩ := definitionFor_some hd
    refine ⟨?_, hsum, fuel, htraced⟩
    by_contra hle
    refine hun definition (mem_of_getElem? (i := p - position) ?_) hdest
    rw [getElem?_drop, Nat.add_sub_cancel' (Nat.le_of_not_lt hle), hget]

/-- A settled variable holds what its definition wrote. -/
theorem settled_value (hp : ∀ i ∈ instructions, i.isPlain = true)
    (h : settled instructions fuel position (.var var) = true)
    (hd : definitionFor var.id instructions = some (p, definition))
    (hτ : M.execAll (instructions.take position) σ = some τ) :
    ∃ ρ ρ', M.execAll (instructions.take p) σ = some ρ ∧ M.exec ρ definition = some ρ' ∧
      τ.vars var.id = ρ'.vars var.id := by
  obtain ⟨hget, -, hun⟩ := definitionFor_some hd
  obtain ⟨ρ, ρ', hρ, hρ', hvars⟩ := Machine.execAll_take_split hp hget (settled_var h hd).1 hτ
  exact ⟨ρ, ρ', hρ, hρ', hvars _ hun⟩

/-- **Moves.** The variable at the end of a chain of moves had, at an earlier position, the value of
the operand. -/
theorem resolveMoves_value {value : IrVar} (hp : ∀ i ∈ instructions, i.isPlain = true)
    (hr : resolveMoves instructions depth operand = some (.var value))
    (h : settled instructions fuel position operand = true) :
    ∃ fuel' position', settled instructions fuel' position' (.var value) = true ∧
      ∀ τ, M.execAll (instructions.take position) σ = some τ →
        ∃ ρ, M.execAll (instructions.take position') σ = some ρ ∧
          τ.eval operand = ρ.vars value.id := by
  induction depth generalizing operand fuel position with
  | zero => cases hr
  | succ depth ih =>
    cases operand with
    | const c => cases hr
    | var v =>
      unfold resolveMoves at hr
      split at hr
      · next p dest src hd =>
        obtain ⟨-, -, fuel', htraced⟩ := settled_var h hd
        obtain ⟨fuel'', position', hsettled, hval⟩ := ih hr (htraced src (by
          simp [IrInstruction.tracedOperands]))
        refine ⟨fuel'', position', hsettled, fun τ hτ ↦ ?_⟩
        obtain ⟨ρ, ρ', hρ, hρ', hvar⟩ := settled_value hp h hd hτ
        obtain ⟨ρ₀, hρ₀, heq⟩ := hval ρ hρ
        refine ⟨ρ₀, hρ₀, ?_⟩
        obtain rfl := some.inj hρ'
        have hdest : dest.id = v.id := some.inj (definitionFor_some hd).2.1
        rw [State.eval_var, hvar, ← hdest, State.set_vars_self, heq]
      · obtain rfl : v = value := by simpa using hr
        exact ⟨fuel, position, h, fun τ hτ ↦ ⟨τ, hτ, rfl⟩⟩

end Settled

/-! ### Offsets -/

namespace IndexedOffset

/-- The terms and the constant: the offset at index zero. -/
def base (form : IndexedOffset) (σ : State World) : BitVec 64 :=
  (form.terms.map fun term ↦ (σ.eval term).word).sum + form.constant

/-- The offset at an index. -/
def value (form : IndexedOffset) (index : BitVec 64) (σ : State World) : BitVec 64 :=
  form.indexCount * index + form.base σ

theorem value_add (l r : IndexedOffset) (index : BitVec 64) (σ : State World) :
    value { indexCount := l.indexCount + r.indexCount
            terms := l.terms ++ r.terms
            constant := l.constant + r.constant } index σ =
      l.value index σ + r.value index σ := by
  simp only [value, base, map_append, sum_append, Nat.cast_add]
  ring

end IndexedOffset

open IndexedOffset

/-- **Offsets.** The decomposition of a settled offset is its value. The lookups may stop short of
the last instructions, which then assign neither a term nor a variable that was looked up. -/
theorem decompose_value {definitions last : List IrInstruction} {index : IrVar}
    {form : IndexedOffset} {fuel : ℕ} {operand : IrOperand}
    (hp : ∀ i ∈ definitions ++ last, i.isPlain = true)
    (hindex : Unassigned index.id (definitions ++ last))
    (hlast : ∀ id, Unassigned id definitions ∨ Unassigned id last)
    (hform : decomposeIndexedOffset index definitions depth operand = some form)
    (hterms : ∀ term ∈ form.terms, ∀ id ∈ term.ids, Unassigned id last)
    (h : settled (definitions ++ last) fuel position operand = true)
    (hτ : M.execAll ((definitions ++ last).take position) σ = some τ) :
    (τ.eval operand).word = form.value (σ.vars index.id).word σ := by
  have hplain : ∀ i ∈ (definitions ++ last).take position, i.isPlain = true :=
    fun i hi ↦ hp i (mem_of_mem_take hi)
  have hframe : ∀ id, Unassigned id (definitions ++ last) → τ.vars id = σ.vars id :=
    fun id hid ↦ (Machine.execAll_frame hplain hτ).2 id (unassigned_take hid _)
  induction depth generalizing operand fuel position form τ with
  | zero => cases hform
  | succ depth ih =>
    cases operand with
    | const c =>
      cases c <;> cases hform
      simp [value, base, IrConst.value]
    | var v =>
      unfold decomposeIndexedOffset at hform
      split at hform
      · next hv =>
        obtain rfl := some.inj hform
        rw [State.eval_var, hv, hframe _ hindex]
        simp [value, base]
      · split at hform
        · next hnone =>
          obtain rfl := some.inj hform
          have hv : Unassigned v.id (definitions ++ last) :=
            unassigned_append.2 ⟨definitionFor_none_iff.1 hnone,
              hterms (.var v) (by simp) v.id (by simp [IrOperand.ids])⟩
          rw [State.eval_var, hframe _ hv]
          simp [value, base]
        · next p dest left right hd =>
          split at hform
          swap
          · cases hform
          next l r hl hr =>
          obtain rfl := some.inj hform
          -- the variable is assigned among the definitions, so not behind them
          have hvlast : Unassigned v.id last := by
            refine (hlast v.id).resolve_left fun hun ↦ ?_
            rw [definitionFor_none_iff.2 hun] at hd
            cases hd
          have hd' : definitionFor v.id (definitions ++ last) =
              some (p, .binary dest .add left right) := by
            rw [definitionFor_append hvlast, hd]
          obtain ⟨-, hsum, fuel', htraced⟩ := settled_var h hd'
          obtain ⟨ρ, ρ', hρ, hρ', hvar⟩ := settled_value hp h hd' hτ
          have hframeρ : ∀ id, Unassigned id (definitions ++ last) → ρ.vars id = σ.vars id :=
            fun id hid ↦ (Machine.execAll_frame
              (fun i hi ↦ hp i (mem_of_mem_take hi)) hρ).2 id (unassigned_take hid _)
          have hleft := ih hl (fun t ht ↦ hterms t (mem_append_left _ ht))
            (htraced left (by simp [IrInstruction.tracedOperands])) hρ
            (fun i hi ↦ hp i (mem_of_mem_take hi)) hframeρ
          have hright := ih hr (fun t ht ↦ hterms t (mem_append_right _ ht))
            (htraced right (by simp [IrInstruction.tracedOperands])) hρ
            (fun i hi ↦ hp i (mem_of_mem_take hi)) hframeρ
          simp only [IrInstruction.isWordSum, decide_eq_true_eq] at hsum
          rw [Machine.exec, evalBinary_add hsum.1 hsum.2.1 hsum.2.2] at hρ'
          obtain rfl := some.inj hρ'
          have hdest : dest.id = v.id := some.inj (definitionFor_some hd').2.1
          rw [State.eval_var, hvar, ← hdest, State.set_vars_self, hleft, hright, value_add]
        · cases hform

end CellScript.Ir
