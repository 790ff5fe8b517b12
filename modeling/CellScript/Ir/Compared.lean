import CellScript.Ir.ByteLoop

/-!
# The comparison in a matched loop

For each of the three matchers: the compare block of a matched loop compares the two streams at the
index (`ByteLoop.Compares`), and the instructions that replace the loop call a helper that compares
the two streams from index zero on (`ByteLoop.Calls`).
-/

namespace CellScript.Ir

open IndexedOffset

variable {World : Type} {M : Machine World} {σ τ ρ : State World}

/-! ### Verdicts -/

theorem byteVerdict_comm (a b : Option (BitVec 8)) : byteVerdict a b = byteVerdict b a := by
  cases a <;> cases b <;> simp [byteVerdict, eq_comm]

theorem byteVerdict_some (x y : BitVec 8) :
    byteVerdict (some x) (some y) =
      if (Value.ofByte x).word = (Value.ofByte y).word then none else some (some false) := by
  by_cases h : x = y
  · simp [byteVerdict, h]
  · have hw : (Value.ofByte x).word ≠ (Value.ofByte y).word :=
      fun hw ↦ h (Value.ofByte_injective hw)
    simp [byteVerdict, h, hw]

/-! ### One side -/

/-- A compared operand and the byte it stands for. The instruction at `position` reads the byte; a
byte that is known without a read has no position. -/
structure Side (M : Machine World) (σ : State World) (leading : List IrInstruction)
    (operand : IrOperand) (byte : Option (BitVec 8)) (position : Option ℕ) : Prop where
  fails : ∀ p instruction ρ, position = some p → leading[p]? = some instruction →
    M.execAll (leading.take p) σ = some ρ → M.exec ρ instruction = none → byte = none
  value : ∀ τ, M.execAll leading σ = some τ →
    ∃ x, byte = some x ∧ (τ.eval operand).word = (Value.ofByte x).word

theorem side_zero {leading : List IrInstruction} :
    Side M σ leading (.const (.u64 0)) (some 0) none where
  fails _ _ _ h := nomatch h
  value _ _ := ⟨0, rfl, rfl⟩

variable {leading : List IrInstruction} {operand : IrOperand} {value : IrVar} {depth fuel p : ℕ}
  {form : IndexedOffset}

theorem IndexedOffset.value_of_count_one (h : form.indexCount = 1) (index : BitVec 64)
    (σ : State World) : form.value index σ = form.base σ + BitVec.ofNat 64 index.toNat := by
  simp only [value, h, Nat.cast_one, one_mul, ofNat_toNat, setWidth_eq]
  exact add_comm _ _

section Traced

variable (hp : ∀ i ∈ leading, i.isPlain = true)
  (hs : settled leading fuel leading.length operand = true)
  (hr : resolveMoves leading depth operand = some (.var value))

include hp hs hr

section Side

variable {dest : IrVar} {definition : IrInstruction} {byte : Option (BitVec 8)}

/-- A traced operand whose definition reads a byte. -/
theorem side_of_exec (hd : definitionFor value.id leading = some (p, definition))
    (hdest : definition.dest = some dest) (hexec : ∀ ρ, M.execAll (leading.take p) σ = some ρ →
      M.exec ρ definition = byte.map fun b ↦ ρ.set dest (.ofByte b)) :
    Side M σ leading operand byte (some p) where
  fails p' instruction ρ hpos hget hρ hnone := by
    obtain rfl := some.inj hpos
    obtain rfl := some.inj ((definitionFor_some hd).1.symm.trans hget)
    rw [hexec ρ hρ] at hnone
    exact Option.map_eq_none_iff.1 hnone
  value τ hτ := by
    obtain ⟨fuel', position', hs', hvalue⟩ := resolveMoves_value hp hr hs
    obtain ⟨ρ, hρ, heq⟩ := hvalue τ (by rwa [take_length])
    obtain ⟨ρ₁, ρ₂, hρ₁, hρ₂, hvar⟩ := settled_value hp hs' hd hρ
    rw [hexec ρ₁ hρ₁] at hρ₂
    obtain ⟨x, hx, rfl⟩ := map_eq_some_iff.1 hρ₂
    have hid : dest.id = value.id := by
      have hdestId := (definitionFor_some hd).2.1
      rw [IrInstruction.destId, hdest] at hdestId
      exact some.inj hdestId
    exact ⟨x, hx, by rw [heq, hvar, ← hid, State.set_vars_self]⟩

/-- An operand of a traced definition is settled where the definition stands. -/
theorem settled_operand {operand' : IrOperand} (M : Machine World) (σ : State World)
    (hd : definitionFor value.id leading = some (p, definition))
    (hmem : operand' ∈ definition.tracedOperands) :
    ∃ fuel', settled leading fuel' p operand' = true := by
  obtain ⟨fuel', position', hs', -⟩ := resolveMoves_value (M := M) (σ := σ) hp hr hs
  obtain ⟨-, -, fuel'', htraced⟩ := settled_var hs' hd
  exact ⟨fuel'', htraced operand' hmem⟩

end Side

section Source

variable {definitions last : List IrInstruction} {index scratch : IrVar} {view offset : IrOperand}
  {func : IrCallTarget} {kind : SourceKind} {form : IndexedOffset} {depth' : ℕ}

/-- The source side of a loop. The matchers look definitions up in a first part of the leading
instructions, or in all of them. -/
theorem side_source (hleading : leading = definitions ++ last)
    (hlast : ∀ id, Unassigned id definitions ∨ Unassigned id last)
    (hindex : Unassigned index.id leading)
    (hinputs : ∀ id ∈ (ByteStream.source kind view form scratch).inputs, Unassigned id leading)
    (hd : definitionFor value.id leading = some (p, .call (some scratch) func [view, offset]))
    (hkind : runtimeByteSourceKind func = some kind)
    (hform : decomposeIndexedOffset index definitions depth' offset = some form)
    (hcount : form.indexCount = 1) :
    Side M σ leading operand
      ((ByteStream.source kind view form scratch).read M σ (σ.vars index.id).word.toNat)
      (some p) := by
  refine side_of_exec hp hs hr hd rfl fun ρ hρ ↦ ?_
  have htraced : offset ∈ (IrInstruction.call (some scratch) func
      [view, offset]).tracedOperands := by
    simp [IrInstruction.tracedOperands]
  obtain ⟨fuel', hsettled⟩ := settled_operand hp hs hr M σ hd htraced
  have hoffset : (ρ.eval offset).word = form.value (σ.vars index.id).word σ := by
    subst hleading
    refine decompose_value hp hindex hlast hform (fun term hterm id hid ↦ ?_) hsettled hρ
    exact (unassigned_append.1 (hinputs id (mem_append_right _
      (mem_flatMap.2 ⟨term, hterm, hid⟩)))).2
  obtain ⟨hworld, hvars⟩ := Machine.execAll_frame (fun i hi ↦ hp i (mem_of_mem_take hi)) hρ
  have hview : ρ.eval view = σ.eval view := eval_congr fun id hid ↦
    hvars id (unassigned_take (hinputs id (mem_append_left _ hid)) _)
  rw [value_of_count_one hcount] at hoffset
  simp only [Machine.exec, map_cons, map_nil, evalCall_byteRead hkind, hworld, hview,
    hoffset, ByteStream.read, Machine.byteAt, Option.map_map]
  refine congrArg (Option.map · _) ?_
  funext b
  simp only [Function.comp_apply, elim_some]
  rw [← hworld]

/-- The memory side of a loop. -/
theorem side_memory {dest pointer : IrVar} {idx : IrOperand} {width : ℕ}
    (hindex : Unassigned index.id leading) (hpointer : Unassigned pointer.id leading)
    (hd : definitionFor value.id leading = some (p, .index dest (.var pointer) idx))
    (hty : pointer.ty = .array .u8 width) (hidx : operandIsVar idx index = true) :
    Side M σ leading operand
      ((ByteStream.memory pointer).read M σ (σ.vars index.id).word.toNat) (some p) := by
  refine side_of_exec hp hs hr hd rfl fun ρ hρ ↦ ?_
  obtain ⟨-, hvars⟩ := Machine.execAll_frame (fun i hi ↦ hp i (mem_of_mem_take hi)) hρ
  have hval : ρ.eval idx = σ.vars index.id :=
    (eval_of_operandIsVar hidx).trans (hvars _ (unassigned_take hindex _))
  have hbytes : ρ.vars pointer.id = σ.vars pointer.id := hvars _ (unassigned_take hpointer _)
  simp only [Machine.exec, Machine.evalIndex, IrOperand.ty, hty, State.eval_var, hbytes, hval,
    ByteStream.read, Option.map_map]
  rfl

end Source

end Traced

section Sides

variable {left right : IrOperand} {x y : Option (BitVec 8)} {pl pr : Option ℕ}
  (hreplaceable : ∀ p i, leading[p]? = some i → some p ≠ pl → some p ≠ pr →
    replaceableInstruction i = true)

include hreplaceable

/-- **The compare block.** Outside the two reads nothing can fail. -/
theorem compares_of_sides (hl : Side M σ leading left x pl) (hr : Side M σ leading right y pr) :
    (M.execAll leading σ = none → byteVerdict x y = some none) ∧
      ∀ τ, M.execAll leading σ = some τ → byteVerdict x y =
        if (τ.eval left).word = (τ.eval right).word then none else some (some false) := by
  constructor
  · intro hnone
    obtain ⟨p, i, ρ, hget, hρ, hfail⟩ := Machine.exists_of_execAll_none hnone
    have hfails : x = none ∨ y = none := by
      by_cases hpl : some p = pl
      · exact .inl (hl.fails p i ρ hpl.symm hget hρ hfail)
      by_cases hpr : some p = pr
      · exact .inr (hr.fails p i ρ hpr.symm hget hρ hfail)
      have hsome := exec_isSome_of_replaceable (M := M) (σ := ρ) (hreplaceable p i hget hpl hpr)
      rw [hfail] at hsome
      cases hsome
    rcases hfails with rfl | rfl
    · rfl
    · cases x <;> rfl
  · intro τ hτ
    obtain ⟨a, rfl, ha⟩ := hl.value τ hτ
    obtain ⟨b, rfl, hb⟩ := hr.value τ hτ
    rw [byteVerdict_some, ha, hb]

/-- The reads may stand in either order. -/
theorem compares_of_either (h : Side M σ leading left x pl ∧ Side M σ leading right y pr ∨
      Side M σ leading right x pl ∧ Side M σ leading left y pr) :
    (M.execAll leading σ = none → byteVerdict x y = some none) ∧
      ∀ τ, M.execAll leading σ = some τ → byteVerdict x y =
        if (τ.eval left).word = (τ.eval right).word then none else some (some false) := by
  rcases h with ⟨hx, hy⟩ | ⟨hx, hy⟩
  · exact compares_of_sides hreplaceable hx hy
  · rw [byteVerdict_comm]
    exact compares_of_sides (fun p i hi hp hp' ↦ hreplaceable p i hi hp' hp) hy hx

end Sides

/-! ### Computing the base -/

/-- The variable is neither the index nor assigned. -/
def Outside (index : IrVar) (instructions : List IrInstruction) (id : ℕ) : Prop :=
  id ≠ index.id ∧ Unassigned id instructions

/-- The terms of a decomposed offset are variables from outside. -/
theorem outside_of_mem_terms {index : IrVar} {definitions : List IrInstruction} {depth : ℕ}
    {operand : IrOperand} (h : decomposeIndexedOffset index definitions depth operand = some form) :
    ∀ id ∈ form.terms.flatMap IrOperand.ids, Outside index definitions id := by
  induction depth generalizing operand form with
  | zero => cases h
  | succ depth ih =>
    cases operand with
    | const c =>
      cases c <;> cases h
      simp
    | var v =>
      unfold decomposeIndexedOffset at h
      split at h
      · obtain rfl := some.inj h
        simp
      · next hne =>
        split at h
        · next hnone =>
          obtain rfl := some.inj h
          intro id hid
          obtain rfl : id = v.id := by simpa [IrOperand.ids] using hid
          exact ⟨hne, definitionFor_none_iff.1 hnone⟩
        · split at h
          · next hl hr =>
            obtain rfl := some.inj h
            intro id hid
            rw [List.flatMap_append, mem_append] at hid
            rcases hid with hid | hid
            · exact ih hl id hid
            · exact ih hr id hid
          · cases h
        · cases h

/-- **The materialised base** is the offset at index zero. Computing it changes the scratch variable
only. -/
theorem execAll_materializeOffsetBase {scratch : IrVar} (hlen : form.terms.length ≤ 1)
    (hwords : ∀ term ∈ form.terms, term.ty.isWord = true) :
    ∃ τ, M.execAll (materializeOffsetBase form scratch).1 σ = some τ ∧ τ.world = σ.world ∧
      (∀ id, id ≠ scratch.id → τ.vars id = σ.vars id) ∧
      (τ.eval (materializeOffsetBase form scratch).2).word = form.base σ ∧
      ∀ id ∈ (materializeOffsetBase form scratch).2.ids,
        id = scratch.id ∨ id ∈ form.terms.flatMap IrOperand.ids := by
  obtain ⟨count, terms, constant⟩ := form
  match terms, hlen with
  | [], _ => exact ⟨σ, rfl, rfl, fun _ _ ↦ rfl, by simp [materializeOffsetBase,
      base, IrConst.value], by simp [materializeOffsetBase, IrOperand.ids]⟩
  | [term], _ =>
    by_cases hzero : constant = 0
    · have hmat : materializeOffsetBase ⟨count, [term], constant⟩ scratch = ([], term) :=
        if_pos hzero
      rw [hmat]
      exact ⟨σ, rfl, rfl, fun _ _ ↦ rfl, by simp [base, hzero],
        fun id hid ↦ .inr (by simpa using hid)⟩
    · obtain ⟨dest, hdest⟩ : ∃ dest : IrVar, dest = ⟨scratch.id, "byte_range_base", .u64⟩ :=
        ⟨_, rfl⟩
      have hmat : materializeOffsetBase ⟨count, [term], constant⟩ scratch =
          ([.binary dest .add term (.const (.u64 constant))], .var dest) := by
        rw [hdest]
        exact if_neg hzero
      have hid : dest.id = scratch.id := by rw [hdest]
      have hsum : M.evalBinary dest .add term (.const (.u64 constant)) (σ.eval term)
          (σ.eval (.const (.u64 constant))) = some { word := (σ.eval term).word + constant } :=
        evalBinary_add (by rw [hdest]) (hwords term (by simp)) rfl
      rw [hmat]
      refine ⟨σ.set dest { word := (σ.eval term).word + constant }, ?_, rfl, ?_, ?_, ?_⟩
      · simp only [Machine.execAll, Machine.exec, hsum, map_some, bind_some]
      · exact fun id hne ↦ σ.set_vars_of_ne _ (hid ▸ hne)
      · simp [base]
      · simp [IrOperand.ids, hid]

/-! ### What the two blocks do -/

/-- The index in a state, as a position. -/
def ByteLoop.position (l : ByteLoop) (σ : State World) : ℕ := (σ.vars l.loop.index.id).word.toNat

/-- The instructions before the comparison read the two bytes at the index. -/
def ByteLoop.Compares (M : Machine World) (l : ByteLoop) : Prop :=
  ∀ σ, (M.execAll l.loop.leading σ = none →
      byteVerdict (l.left.read M σ (l.position σ)) (l.right.read M σ (l.position σ)) = some none) ∧
    ∀ τ, M.execAll l.loop.leading σ = some τ →
      byteVerdict (l.left.read M σ (l.position σ)) (l.right.read M σ (l.position σ)) =
        if (τ.eval l.loop.left).word = (τ.eval l.loop.right).word then none else some (some false)

/-- The replacing instructions compare the two streams from index zero on. -/
def ByteLoop.Calls (M : Machine World) (l : ByteLoop) : Prop :=
  ∀ σ, (M.execAll l.instructions σ).map (·.vars l.loop.result.id) =
    (compareBytes (l.left.read M σ) (l.right.read M σ) 0
      (σ.eval l.loop.length).word.toNat).map Value.ofBool

/-- What the rest of the argument needs of a match. -/
structure ByteLoop.Sound (M : Machine World) (blocks : List IrBlock) (l : ByteLoop) : Prop where
  shape : l.loop.Shape blocks
  plain : ∀ i ∈ l.loop.leading, i.isPlain = true
  index : Unassigned l.loop.index.id l.loop.leading
  stable : ∀ id ∈ l.constants, Outside l.loop.index l.loop.leading id
  compares : l.Compares M
  calls : l.Calls M

end CellScript.Ir
