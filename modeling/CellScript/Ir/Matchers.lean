import CellScript.Ir.Compared

/-!
# The three matchers

Each matcher finds sound loops: `sourceZeroLoopAt_sound`, `sourceMemoryEqualityLoopAt_sound` and
`sourceByteEqualityLoopAt_sound`, for loops that are well formed and settled.
-/

namespace CellScript.Ir

variable {operand : IrOperand} {s s' : SourceByte} {form : IndexedOffset} {p : ℕ}

variable {World : Type} {M : Machine World} {σ τ : State World} {blocks : List IrBlock}
  {condition : IrBlock} {l : ByteLoop} {instructions : List IrInstruction} {m : MemoryByte}
  {i : IrInstruction} {index differs : IrVar} {kind leftKind rightKind : SourceKind} {world : World}
  {fuel : ℕ} {func : IrCallTarget} {replaced : List ℕ}

/-! ### Reading the matchers' tests -/

theorem sourceByte_some (h : sourceByte operand instructions = some s) :
    ∃ value func, resolveMoves instructions (instructions.length + 1) operand = some (.var value) ∧
      definitionFor value.id instructions =
        some (s.position, .call (some s.scratch) func [s.view, s.offset]) ∧
      runtimeByteSourceKind func = some s.kind := by
  unfold sourceByte at h
  split at h
  swap
  · cases h
  next value hr =>
  split at h
  · next position dest func view offset hd =>
    obtain ⟨kind, hkind, rfl⟩ := map_eq_some_iff.1 h
    exact ⟨value, func, hr, hd, hkind⟩
  · cases h

theorem memoryByte_some (h : memoryByte operand instructions = some m) :
    ∃ value dest width,
      resolveMoves instructions (instructions.length + 1) operand = some (.var value) ∧
      definitionFor value.id instructions = some (m.position,
        .index dest (.var m.pointer) m.index) ∧
      m.pointer.ty = .array .u8 width := by
  unfold memoryByte at h
  split at h
  swap
  · cases h
  next value hr =>
  split at h
  swap
  · cases h
  next position dest pointer idx hd =>
  split at h
  · next width hty =>
    obtain rfl := some.inj h
    exact ⟨value, dest, width, hr, hd, hty⟩
  · cases h

theorem replaceable_of_position (h : replaceableByteLoopPrefix instructions replaced = true)
    (hi : instructions[p]? = some i) (hp : p ∉ replaced) : replaceableInstruction i = true := by
  have hmem : (i, p) ∈ instructions.zipIdx := List.mk_mem_zipIdx_iff_getElem?.2 hi
  have htest := all_eq_true.1 h (i, p) hmem
  simpa [hp] using htest

/-- Instructions of which all but some reads are replaceable are plain. -/
theorem plain_of_replaceable (h : replaceableByteLoopPrefix instructions replaced = true)
    (hreads : ∀ p ∈ replaced, ∀ i, instructions[p]? = some i → i.isPlain = true) :
    ∀ i ∈ instructions, i.isPlain = true := by
  intro i hi
  obtain ⟨p, hp⟩ := mem_iff_getElem?.1 hi
  by_cases hmem : p ∈ replaced
  · exact hreads p hmem i hp
  · exact isPlain_of_replaceable (replaceable_of_position h hp hmem)

theorem outside_of_not_depends
    (h : operandDependsOnPrefixOrIndex operand index instructions = false) :
    ∀ id ∈ operand.ids, Outside index instructions id := by
  intro id hid
  cases operand with
  | const c => cases hid
  | var v =>
    obtain rfl : id = v.id := by simpa [IrOperand.ids] using hid
    simp only [operandDependsOnPrefixOrIndex, decide_eq_false_iff_not, not_or,
      Option.not_isSome_iff_eq_none] at h
    exact ⟨h.1, definitionFor_none_iff.1 h.2⟩

theorem isPlain_byteRead {dest : Option IrVar} {view offset : IrOperand}
    (h : runtimeByteSourceKind func = some kind) :
    (IrInstruction.call dest func [view, offset]).isPlain = true := by
  simp [IrInstruction.isPlain, h]

theorem isPlain_of_sourceByte
    (h : sourceByte operand instructions = some s) (hi : instructions[s.position]? = some i) :
    i.isPlain = true := by
  obtain ⟨value, func, -, hd, hkind⟩ := sourceByte_some h
  obtain rfl := some.inj ((definitionFor_some hd).1.symm.trans hi)
  exact isPlain_byteRead hkind

theorem isPlain_of_memoryByte
    (h : memoryByte operand instructions = some m) (hi : instructions[m.position]? = some i) :
    i.isPlain = true := by
  obtain ⟨value, dest, width, -, hd, -⟩ := memoryByte_some h
  obtain rfl := some.inj ((definitionFor_some hd).1.symm.trans hi)
  rfl

/-- A byte is read at the index and a base, of a view that the loop does not change. -/
structure SourceByte.Indexed (s : SourceByte) (form : IndexedOffset) (index : IrVar)
    (instructions : List IrInstruction) : Prop where
  offset : decomposeIndexedOffset index instructions (instructions.length + 1) s.offset = some form
  count : form.indexCount = 1
  terms : form.terms.length ≤ 1
  view : operandDependsOnPrefixOrIndex s.view index instructions = false

theorem source_inputs_outside (h : s.Indexed form index instructions) :
    ∀ id ∈ (ByteStream.source s.kind s.view form s.scratch).inputs,
      Outside index instructions id := by
  intro id hid
  rcases mem_append.1 hid with hid | hid
  · exact outside_of_not_depends h.view id hid
  · exact outside_of_mem_terms h.offset id hid

/-- The side of an operand that is traced to a byte read. -/
theorem side_sourceByte (hp : ∀ i ∈ instructions, i.isPlain = true)
    (hindex : Unassigned index.id instructions) (hindexed : s.Indexed form index instructions)
    (hs : settled instructions fuel instructions.length operand = true)
    (h : sourceByte operand instructions = some s) :
    Side M σ instructions operand
      ((ByteStream.source s.kind s.view form s.scratch).read M σ (σ.vars index.id).word.toNat)
      (some s.position) := by
  obtain ⟨value, func, hr, hd, hkind⟩ := sourceByte_some h
  exact side_source hp hs hr (append_nil _).symm (fun _ ↦ .inr fun _ hi ↦ nomatch hi) hindex
    (fun id hid ↦ (source_inputs_outside hindexed id hid).2) hd hkind hindexed.offset hindexed.count

/-- The value that a call leaves in its result. -/
theorem exec_call_result {result : IrVar} {args : List IrOperand} :
    (M.execAll [.call (some result) func args] σ).map (·.vars result.id) =
      (M.evalCall func (args.map σ.eval) σ.world).map (·.1) := by
  simp only [Machine.execAll, Machine.exec]
  cases M.evalCall func (args.map σ.eval) σ.world with
  | none => rfl
  | some r => simp

theorem map_fst_verdict (verdict : Option Bool) :
    (verdict.bind fun b ↦ some (Value.ofBool b, world)).map (·.1) = verdict.map Value.ofBool := by
  cases verdict <;> rfl

theorem evalCall_sourceBytesZero {view base length : Value} :
    (M.evalCall (.runtime .ckbSourceBytesZero) [view, base, length, (IrConst.u64 kind.code).value]
        world).map (·.1) =
      (compareBytes (M.byteAt world kind view base.word) (fun _ ↦ some 0) 0
        length.word.toNat).map Value.ofBool := by
  simp only [Machine.evalCall, runtimeByteSourceKind, IrCallTarget.runtimeHelper, IrConst.value,
    SourceKind.ofCode_code, bind_eq_bind, bind_some]
  exact map_fst_verdict _

theorem evalCall_sourceBytesEqualMemory {view base pointer length : Value} :
    (M.evalCall (.runtime .ckbSourceBytesEqualMemory)
        [view, base, pointer, length, (IrConst.u64 kind.code).value] world).map (·.1) =
      (compareBytes (M.byteAt world kind view base.word) (fun j ↦ pointer.bytes[j]?) 0
        length.word.toNat).map Value.ofBool := by
  simp only [Machine.evalCall, runtimeByteSourceKind, IrCallTarget.runtimeHelper, IrConst.value,
    SourceKind.ofCode_code, bind_eq_bind, bind_some]
  exact map_fst_verdict _

theorem evalCall_sourceBytesEqual {left leftBase right rightBase length : Value} :
    (M.evalCall (.runtime .ckbSourceBytesEqual)
        [left, leftBase, right, rightBase, length, (IrConst.u64 leftKind.code).value,
          (IrConst.u64 rightKind.code).value] world).map (·.1) =
      (compareBytes (M.byteAt world leftKind left leftBase.word)
        (M.byteAt world rightKind right rightBase.word) 0 length.word.toNat).map Value.ofBool := by
  simp only [Machine.evalCall, runtimeByteSourceKind, IrCallTarget.runtimeHelper, IrConst.value,
    SourceKind.ofCode_code, bind_eq_bind, bind_some]
  exact map_fst_verdict _

/-- The base is computed, and then a helper is called with it. -/
theorem exec_base_call (σ : State World) (result : IrVar) (func : IrCallTarget)
    (rest : List IrOperand) (hlen : form.terms.length ≤ 1)
    (hwords : ∀ term ∈ form.terms, term.ty.isWord = true)
    (hfresh : ∀ operand ∈ s.view :: rest, s.scratch.id ∉ operand.ids) :
    ∃ base : Value, base.word = form.base σ ∧
      (M.execAll ((materializeOffsetBase form s.scratch).1 ++ [.call (some result) func
        (s.view :: (materializeOffsetBase form s.scratch).2 :: rest)]) σ).map (·.vars result.id) =
      (M.evalCall func (σ.eval s.view :: base :: rest.map σ.eval) σ.world).map (·.1) := by
  obtain ⟨τ, hτ, hworld, hvars, hbase, -⟩ :=
    execAll_materializeOffsetBase (M := M) (σ := σ) hlen hwords
  have heval : ∀ operand ∈ s.view :: rest, τ.eval operand = σ.eval operand := fun operand hmem ↦
    eval_congr fun id hid ↦ hvars id fun heq ↦ hfresh operand hmem (heq ▸ hid)
  refine ⟨_, hbase, ?_⟩
  rw [Machine.execAll_append, hτ, bind_some, exec_call_result, hworld, map_cons,
    map_cons, heval _ mem_cons_self,
    map_congr_left fun operand hmem ↦ heval operand (mem_cons_of_mem _ hmem)]

/-! ### A source against zero -/

theorem sourceZeroLoopAt_some (h : sourceZeroLoopAt blocks condition = some (some l)) :
    ∃ loop s form, equalityLoopAt blocks condition = some loop ∧
      (loop.left = .const (.u64 0) ∧ sourceByte loop.right loop.leading = some s ∨
        loop.right = .const (.u64 0) ∧ sourceByte loop.left loop.leading = some s) ∧
      replaceableByteLoopPrefix loop.leading [s.position] = true ∧
      s.Indexed form loop.index loop.leading ∧
      operandDependsOnPrefixOrIndex loop.length loop.index loop.leading = false ∧
      l = { loop, left := .source s.kind s.view form s.scratch, right := .zero
            instructions := sourceBytesZeroInstructions loop.result loop.length s form } := by
  unfold sourceZeroLoopAt at h
  split at h
  swap
  · cases h
  next loop hloop =>
  dsimp only at h
  split at h
  swap
  · cases h
  next s hsource =>
  split at h
  · cases h
  next hreplaceable =>
  simp only [bind_eq_bind, bind_eq_some_iff] at h
  obtain ⟨form, hform, h⟩ := h
  split at h
  · cases h
  next htests =>
  simp only [not_or, not_not, not_lt, not_eq_true] at htests
  obtain ⟨hcount, hlen, hview, hlength⟩ := htests
  refine ⟨loop, s, form, hloop, ?_, by simpa using hreplaceable, ⟨hform, hcount, hlen, hview⟩,
    hlength, by simpa using h.symm⟩
  split at hsource
  · next hleft => exact .inl ⟨hleft, hsource⟩
  · next hright _ => exact .inr ⟨hright, hsource⟩
  · cases hsource

theorem sourceZeroLoopAt_sound (hn : (blocks.map (·.id)).Nodup) (hc : condition ∈ blocks)
    (h : sourceZeroLoopAt blocks condition = some (some l)) (hw : l.WellFormed) (hs : l.Settled) :
    l.Sound M blocks := by
  obtain ⟨loop, s, form, hloop, hsides, hreplaceable, hindexed, hlength, rfl⟩ :=
    sourceZeroLoopAt_some h
  obtain ⟨read, hread⟩ : ∃ operand, sourceByte operand loop.leading = some s :=
    hsides.elim (fun h ↦ ⟨_, h.2⟩) fun h ↦ ⟨_, h.2⟩
  have hplain : ∀ i ∈ loop.leading, i.isPlain = true :=
    plain_of_replaceable hreplaceable fun p hp i hi ↦ by
      obtain rfl := mem_singleton.1 hp
      exact isPlain_of_sourceByte hread hi
  refine ⟨(equalityLoopAt_shape hn hc hloop).1, hplain, hs.index, ?_, fun σ ↦ ?_, fun σ ↦ ?_⟩
  · intro id hid
    simp only [ByteLoop.constants, ByteStream.inputs, append_nil, mem_append] at hid
    rcases hid with hid | hid
    · exact outside_of_not_depends hlength id hid
    · exact source_inputs_outside hindexed id (mem_append.2 hid)
  · refine compares_of_either (fun p i hi hp _ ↦ ?_) (hsides.symm.imp
      (fun h ↦ ⟨side_sourceByte hplain hs.index hindexed hs.left h.2, h.1 ▸ side_zero⟩)
      fun h ↦ ⟨side_sourceByte hplain hs.index hindexed hs.right h.2, h.1 ▸ side_zero⟩)
    exact replaceable_of_position hreplaceable hi fun hmem ↦ hp (by simpa using hmem)
  · have hfresh : s.scratch.id ∉ _ := hw.fresh s.scratch (by
      simp [ByteLoop.temporaries, ByteStream.scratches])
    simp only [ByteLoop.inputs, ByteLoop.constants, ByteStream.inputs, append_nil,
      mem_cons, mem_append, not_or] at hfresh
    obtain ⟨-, hlength', hview', -⟩ := hfresh
    obtain ⟨base, hbase, hexec⟩ := exec_base_call (M := M) (s := s) σ loop.result
      (.runtime .ckbSourceBytesZero) [loop.length, .const (.u64 s.kind.code)] hindexed.terms
      (all_eq_true.1 hw.terms.1) (by simp [hlength', hview', IrOperand.ids.eq_2])
    refine hexec.trans ?_
    rw [map_cons, map_singleton, State.eval_const, evalCall_sourceBytesZero, hbase]
    rfl

/-! ### A source against memory -/

theorem sourceMemoryEqualityLoopAt_some
    (h : sourceMemoryEqualityLoopAt blocks condition = some (some l)) :
    ∃ loop s m form, equalityLoopAt blocks condition = some loop ∧
      (sourceByte loop.left loop.leading = some s ∧ memoryByte loop.right loop.leading = some m ∨
        sourceByte loop.right loop.leading = some s ∧ memoryByte loop.left loop.leading = some m) ∧
      replaceableByteLoopPrefix loop.leading [s.position, m.position] = true ∧
      operandIsVar m.index loop.index = true ∧
      (∃ length, loop.length = .const (.u64 length)) ∧ s.Indexed form loop.index loop.leading ∧
      operandDependsOnPrefixOrIndex (.var m.pointer) loop.index loop.leading = false ∧
      l = { loop, left := .source s.kind s.view form s.scratch, right := .memory m.pointer
            instructions :=
              sourceBytesEqualMemoryInstructions loop.result loop.length s form m.pointer } := by
  unfold sourceMemoryEqualityLoopAt at h
  split at h
  swap
  · cases h
  next loop hloop =>
  dsimp only at h
  split at h
  swap
  · cases h
  next s m hpair =>
  split at h
  · cases h
  next hreplaceable =>
  split at h
  · cases h
  next hindex =>
  split at h
  swap
  · cases h
  next length hlength =>
  split at h
  swap
  · cases h
  next inner width hty =>
  split at h
  · cases h
  · simp only [bind_eq_bind, bind_eq_some_iff] at h
    obtain ⟨form, hform, h⟩ := h
    split at h
    · cases h
    next htests =>
    simp only [not_or, not_not, not_lt, not_eq_true] at htests
    obtain ⟨hcount, hlen, hview, hpointer⟩ := htests
    refine ⟨loop, s, m, form, hloop, ?_, by simpa using hreplaceable,
      by simpa using hindex, ⟨length, hlength⟩, ⟨hform, hcount, hlen, hview⟩, hpointer,
      by simpa using h.symm⟩
    rcases Option.or_eq_some_iff.1 hpair with hpair | ⟨-, hpair⟩
    · exact .inl (by simpa [bind_eq_some_iff] using hpair)
    · exact .inr (by simpa [bind_eq_some_iff] using hpair)

theorem sourceMemoryEqualityLoopAt_sound (hn : (blocks.map (·.id)).Nodup) (hc : condition ∈ blocks)
    (h : sourceMemoryEqualityLoopAt blocks condition = some (some l)) (hw : l.WellFormed)
    (hs : l.Settled) : l.Sound M blocks := by
  obtain ⟨loop, s, m, form, hloop, hsides, hreplaceable, hidx, ⟨length, hlength⟩, hindexed,
    hpointer, rfl⟩ := sourceMemoryEqualityLoopAt_some h
  obtain ⟨read, hread⟩ : ∃ operand, sourceByte operand loop.leading = some s :=
    hsides.elim (fun h ↦ ⟨_, h.1⟩) fun h ↦ ⟨_, h.1⟩
  obtain ⟨array, harray⟩ : ∃ operand, memoryByte operand loop.leading = some m :=
    hsides.elim (fun h ↦ ⟨_, h.2⟩) fun h ↦ ⟨_, h.2⟩
  have hplain : ∀ i ∈ loop.leading, i.isPlain = true :=
    plain_of_replaceable hreplaceable fun p hp i hi ↦ by
      simp only [mem_cons, not_mem_nil, or_false] at hp
      rcases hp with rfl | rfl
      · exact isPlain_of_sourceByte hread hi
      · exact isPlain_of_memoryByte harray hi
  have hpointer' : Outside loop.index loop.leading m.pointer.id :=
    outside_of_not_depends hpointer _ (by simp [IrOperand.ids])
  refine ⟨(equalityLoopAt_shape hn hc hloop).1, hplain, hs.index, ?_, fun σ ↦ ?_, fun σ ↦ ?_⟩
  · intro id hid
    simp only [ByteLoop.constants, hlength, IrOperand.ids, nil_append, mem_append] at hid
    rcases hid with hid | hid
    · exact source_inputs_outside hindexed id hid
    · obtain rfl : id = m.pointer.id := by simpa [ByteStream.inputs] using hid
      exact hpointer'
  · have hside {operand} (hsettled : settled loop.leading (loop.leading.length + 1)
        loop.leading.length operand = true) (hmemory : memoryByte operand loop.leading = some m) :
        Side M σ loop.leading operand ((ByteStream.memory m.pointer).read M σ
          (σ.vars loop.index.id).word.toNat) (some m.position) := by
      obtain ⟨value, dest, width, hr, hd, hty⟩ := memoryByte_some hmemory
      exact side_memory hplain hsettled hr hs.index hpointer'.2 hd hty hidx
    refine compares_of_either (fun p i hi hp hp' ↦ ?_) (hsides.imp
      (fun h ↦ ⟨side_sourceByte hplain hs.index hindexed hs.left h.1, hside hs.right h.2⟩)
      fun h ↦ ⟨side_sourceByte hplain hs.index hindexed hs.right h.1, hside hs.left h.2⟩)
    refine replaceable_of_position hreplaceable hi fun hmem ↦ ?_
    simp only [mem_cons, not_mem_nil, or_false] at hmem
    rcases hmem with rfl | rfl
    · exact hp rfl
    · exact hp' rfl
  · have hfresh : s.scratch.id ∉ _ := hw.fresh s.scratch (by
      simp [ByteLoop.temporaries, ByteStream.scratches])
    simp only [ByteLoop.inputs, ByteLoop.constants, ByteStream.inputs, mem_cons,
      mem_append, not_or] at hfresh
    obtain ⟨-, ⟨hlength', hview', -⟩, hpointer', -⟩ := hfresh
    obtain ⟨base, hbase, hexec⟩ := exec_base_call (M := M) (s := s) σ loop.result
      (.runtime .ckbSourceBytesEqualMemory) [.var m.pointer, loop.length, .const (.u64 s.kind.code)]
      hindexed.terms (all_eq_true.1 hw.terms.1)
      (by simp [hlength', hview', hpointer', IrOperand.ids.eq_1, IrOperand.ids.eq_2])
    refine hexec.trans ?_
    rw [map_cons, map_cons, map_singleton, State.eval_const, evalCall_sourceBytesEqualMemory, hbase]
    rfl

/-! ### Two sources -/

/-- The instruction of a byte read. -/
def SourceByte.instruction (s : SourceByte) (func : IrCallTarget) : IrInstruction :=
  .call (some s.scratch) func [s.view, s.offset]

@[simp] theorem SourceByte.destId_instruction (s : SourceByte) (func : IrCallTarget) :
    (s.instruction func).destId = some s.scratch.id := rfl

theorem sourcePair_some {left right : IrOperand}
    (h : sourcePair instructions = some (s, s', differs, left, right)) :
    ∃ func func', instructions = instructions.take (instructions.length - 3) ++
        [s.instruction func, s'.instruction func', .binary differs .ne left right] ∧
      runtimeByteSourceKind func = some s.kind ∧ runtimeByteSourceKind func' = some s'.kind ∧
      (operandIsVar left s.scratch = true ∧ operandIsVar right s'.scratch = true ∨
        operandIsVar left s'.scratch = true ∧ operandIsVar right s.scratch = true) := by
  unfold sourcePair at h
  dsimp only at h
  split at h
  swap
  · cases h
  next leftByte func leftArgs rightByte func' rightArgs differs' left' right' hdrop =>
  simp only [bind_eq_bind, bind_eq_some_iff] at h
  obtain ⟨kind, hkind, kind', hkind', h⟩ := h
  split at h
  swap
  · cases h
  next view offset =>
  split at h
  swap
  · cases h
  next view' offset' =>
  simp only [bind_eq_some_iff, Option.guard_eq_some'] at h
  obtain ⟨-, hvars, h⟩ := h
  obtain ⟨rfl, rfl, rfl, rfl, rfl⟩ := h
  refine ⟨func, func', ?_, hkind, hkind', hvars⟩
  rw [SourceByte.instruction, SourceByte.instruction, ← hdrop, take_append_drop]

/-- A match of the first matcher. -/
structure SourcePairMatch (blocks : List IrBlock) (l : ByteLoop) (definitions : List IrInstruction)
    (s s' : SourceByte) (func func' : IrCallTarget) (form form' : IndexedOffset) : Prop where
  shape : l.loop.Shape blocks
  leading : l.loop.leading = definitions ++ [s.instruction func, s'.instruction func']
  kind : runtimeByteSourceKind func = some s.kind
  kind' : runtimeByteSourceKind func' = some s'.kind
  operands : operandIsVar l.loop.left s.scratch = true ∧
    operandIsVar l.loop.right s'.scratch = true ∨
    operandIsVar l.loop.left s'.scratch = true ∧ operandIsVar l.loop.right s.scratch = true
  replaceable : replaceableByteLoopPrefix definitions [] = true
  indexed : s.Indexed form l.loop.index definitions
  indexed' : s'.Indexed form' l.loop.index definitions
  length : operandDependsOnPrefixOrIndex l.loop.length l.loop.index definitions = false
  left : l.left = .source s.kind s.view form s.scratch
  right : l.right = .source s'.kind s'.view form' s'.scratch
  instructions : l.instructions =
    sourceBytesEqualInstructions l.loop.result l.loop.length s s' form form'

theorem sourceByteEqualityLoopAt_some (hn : (blocks.map (·.id)).Nodup) (hc : condition ∈ blocks)
    (h : sourceByteEqualityLoopAt blocks condition = some (some l)) :
    ∃ definitions s s' func func' form form',
      SourcePairMatch blocks l definitions s s' func func' form form' := by
  unfold sourceByteEqualityLoopAt at h
  split at h
  swap
  · cases h
  next result index length hinstructions =>
  split at h
  swap
  · cases h
  next cond compareId completeId hterminator =>
  split at h
  · cases h
  next hcond =>
  obtain ⟨complete, hcomplete, h⟩ := bind_eq_some_iff.1 h
  split at h
  · cases h
  next hreturn =>
  obtain ⟨compare, hcompare, h⟩ := bind_eq_some_iff.1 h
  dsimp only at h
  split at h
  · cases h
  next hreplaceable =>
  split at h
  swap
  · cases h
  next s s' differs left right hpair =>
  split at h
  swap
  · cases h
  next cond' mismatchId continueId hterminator' =>
  split at h
  · cases h
  next hcond' =>
  obtain ⟨mismatch, hmismatch, h⟩ := bind_eq_some_iff.1 h
  split at h
  · cases h
  next hreturn' =>
  obtain ⟨continuing, hcontinuing, h⟩ := bind_eq_some_iff.1 h
  obtain ⟨incrementId, hjump, h⟩ := bind_eq_some_iff.1 h
  obtain ⟨increment, hincrement, h⟩ := bind_eq_some_iff.1 h
  obtain ⟨found, hnext, h⟩ := bind_eq_some_iff.1 h
  split at h
  swap
  · cases h
  next next =>
  split at h
  · cases h
  · obtain ⟨form, hform, h⟩ := bind_eq_some_iff.1 h
    obtain ⟨form', hform', h⟩ := bind_eq_some_iff.1 h
    split at h
    · cases h
    next htests =>
    simp only [not_or, not_not, not_lt, not_eq_true] at htests
    obtain ⟨hcount, hcount', hterms, hterms', hview, hview', hlength⟩ := htests
    simp only [Option.pure_def, some.injEq] at h
    subst h
    obtain ⟨func, func', hcompareEq, hkind, hkind', hoperands⟩ := sourcePair_some hpair
    refine ⟨_, s, s', func, func', form, form', ?_, ?_, hkind, hkind', hoperands, ?_,
      ⟨hform, hcount, hterms, hview⟩, ⟨hform', hcount', hterms', hview'⟩, hlength, rfl, rfl, rfl⟩
    · constructor
      · exact block_some_of_mem hn hc
      · exact hinstructions
      · exact ⟨cond, by simpa using hcond, by
          rw [hterminator, id_of_block hcompare, id_of_block hcomplete]⟩
      · exact block_self hcomplete
      · simpa using hreturn
      · exact block_self hcompare
      · dsimp only
        rw [hcompareEq]
        simp
      · exact ⟨cond', by simpa using hcond', by
          rw [hterminator', id_of_block hmismatch, id_of_block hcontinuing]⟩
      · exact block_self hmismatch
      · simpa using hreturn'
      · exact block_self hcontinuing
      · rw [hjump, id_of_block hincrement]
      · exact block_self hincrement
      · exact incrementShape hnext
    · dsimp only
      rw [hcompareEq]
      simp
    · simp only [not_or, not_eq_true', Bool.not_eq_false] at hreplaceable
      exact hreplaceable.2

namespace SourcePairMatch

variable {definitions first behind : List IrInstruction} {t : SourceByte}
  {func func' g : IrCallTarget} {form' sum : IndexedOffset}
  (hm : SourcePairMatch blocks l definitions s s' func func' form form') (hw : l.WellFormed)
  {id : ℕ}
include hm hw

omit hw in
theorem scratch_mem : s.scratch ∈ l.temporaries ∧ s'.scratch ∈ l.temporaries := by
  simp [ByteLoop.temporaries, hm.left, hm.right, ByteStream.scratches]

/-- The scratch variables are assigned by the byte reads and by nothing else. -/
theorem scratch_once : (Unassigned s.scratch.id definitions ∧ s'.scratch.id ≠ s.scratch.id) ∧
      Unassigned s'.scratch.id definitions := by
  have hassigned : l.loop.condition.instructions ++ l.loop.compare.instructions ++
      l.loop.increment.instructions = (l.loop.condition.instructions ++ definitions) ++
        s.instruction func :: (s'.instruction func' ::
          .binary l.loop.differs .ne l.loop.left l.loop.right ::
              l.loop.increment.instructions) := by
    rw [hm.shape.compare_instructions, hm.leading]
    simp
  have hassigned' : l.loop.condition.instructions ++ l.loop.compare.instructions ++
      l.loop.increment.instructions =
        (l.loop.condition.instructions ++ (definitions ++ [s.instruction func])) ++
          s'.instruction func' ::
            (.binary l.loop.differs .ne l.loop.left l.loop.right ::
                l.loop.increment.instructions) := by
    rw [hassigned]
    simp
  have hcount := hw.assigned_once s.scratch hm.scratch_mem.1
  have hcount' := hw.assigned_once s'.scratch hm.scratch_mem.2
  rw [ByteLoop.assigned, hassigned] at hcount
  rw [ByteLoop.assigned, hassigned'] at hcount'
  obtain ⟨hbefore, hbehind⟩ := unassigned_of_count_eq_one rfl hcount
  obtain ⟨hbefore', -⟩ := unassigned_of_count_eq_one rfl hcount'
  refine ⟨⟨(unassigned_append.1 hbefore).2, fun heq ↦ ?_⟩,
    (unassigned_append.1 (unassigned_append.1 hbefore').2).1⟩
  exact hbehind _ mem_cons_self (congrArg some heq)

theorem outside_leading (hid : id ∈ l.constants)
    (h : Outside l.loop.index definitions id) : Outside l.loop.index l.loop.leading id := by
  have hs : s.scratch.id ≠ id := fun heq ↦
    hw.fresh s.scratch hm.scratch_mem.1 (mem_cons_of_mem _ (heq ▸ hid))
  have hs' : s'.scratch.id ≠ id := fun heq ↦
    hw.fresh s'.scratch hm.scratch_mem.2 (mem_cons_of_mem _ (heq ▸ hid))
  refine ⟨h.1, ?_⟩
  rw [hm.leading, unassigned_append]
  refine ⟨h.2, fun i hi ↦ ?_⟩
  simp only [mem_cons, not_mem_nil, or_false] at hi
  rcases hi with rfl | rfl
  · simpa using hs
  · simpa using hs'

theorem stable : ∀ id ∈ l.constants, Outside l.loop.index l.loop.leading id := by
  intro id hid
  have hid' := hid
  simp only [ByteLoop.constants, hm.left, hm.right, mem_append] at hid'
  rcases hid' with (hid' | hid') | hid'
  · exact hm.outside_leading hw hid (outside_of_not_depends hm.length id hid')
  · exact hm.outside_leading hw hid (source_inputs_outside hm.indexed id hid')
  · exact hm.outside_leading hw hid (source_inputs_outside hm.indexed' id hid')

omit hw in
theorem plain : ∀ i ∈ l.loop.leading, i.isPlain = true := by
  rw [hm.leading]
  intro i hi
  simp only [mem_append, mem_cons, not_mem_nil, or_false] at hi
  rcases hi with hi | rfl | rfl
  · exact plain_of_replaceable hm.replaceable (fun p hp ↦ nomatch hp) i hi
  · exact isPlain_byteRead hm.kind
  · exact isPlain_byteRead hm.kind'

/-- Where the definitions are looked up and where they are not, different variables are assigned. -/
theorem unassigned_or (id : ℕ) : Unassigned id definitions ∨
    Unassigned id [s.instruction func, s'.instruction func'] := by
  obtain ⟨⟨hs, -⟩, hs'⟩ := hm.scratch_once hw
  by_cases h : s.scratch.id = id
  · exact .inl (h ▸ hs)
  by_cases h' : s'.scratch.id = id
  · exact .inl (h' ▸ hs')
  refine .inr fun i hi ↦ ?_
  simp only [mem_cons, not_mem_nil, or_false] at hi
  rcases hi with rfl | rfl
  · simpa using h
  · simpa using h'

section Side

variable (hs : l.Settled) (hsettled : settled l.loop.leading (l.loop.leading.length + 1)
  l.loop.leading.length operand = true)

include hs hsettled

/-- The side of either byte read. -/
theorem side_of_read (hsplit : l.loop.leading = first ++ t.instruction g :: behind)
    (hbehind : Unassigned t.scratch.id behind) (hkind : runtimeByteSourceKind g = some t.kind)
    (hindexed : t.Indexed sum l.loop.index definitions)
    (hinputs : (ByteStream.source t.kind t.view sum t.scratch).inputs ⊆ l.constants)
    (hop : operandIsVar operand t.scratch = true) :
    Side M σ l.loop.leading operand
      ((ByteStream.source t.kind t.view sum t.scratch).read M σ (l.position σ))
      (some first.length) := by
  obtain ⟨v, rfl, hv⟩ := operandIsVar_iff.1 hop
  have hd : definitionFor v.id l.loop.leading = some (first.length, t.instruction g) := by
    rw [hsplit, hv]
    exact definitionFor_append_cons rfl hbehind
  have hr : resolveMoves l.loop.leading 1 (.var v) = some (.var v) := by
    unfold resolveMoves
    rw [hd]
    rfl
  exact side_source hm.plain hsettled hr hm.leading (hm.unassigned_or hw) hs.index
    (fun id hid ↦ (hm.stable hw id (hinputs hid)).2) hd hkind hindexed.offset hindexed.count

theorem side_left (hop : operandIsVar operand s.scratch = true) :
    Side M σ l.loop.leading operand (l.left.read M σ (l.position σ)) (some definitions.length) := by
  obtain ⟨⟨-, hne⟩, -⟩ := hm.scratch_once hw
  have hbehind : Unassigned s.scratch.id [s'.instruction func'] := fun i hi ↦ by
    obtain rfl := mem_singleton.1 hi
    simpa using hne
  rw [hm.left]
  refine hm.side_of_read hw hs hsettled hm.leading hbehind hm.kind hm.indexed (fun id hid ↦ ?_) hop
  simp only [ByteLoop.constants, hm.left, mem_append]
  exact .inl (.inr hid)

theorem side_right (hop : operandIsVar operand s'.scratch = true) :
    Side M σ l.loop.leading operand (l.right.read M σ (l.position σ))
      (some (definitions.length + 1)) := by
  have hsplit : l.loop.leading =
      (definitions ++ [s.instruction func]) ++ s'.instruction func' :: [] := by
    rw [hm.leading]
    simp
  have hlength : definitions.length + 1 = (definitions ++ [s.instruction func]).length := by simp
  rw [hm.right, hlength]
  refine hm.side_of_read hw hs hsettled hsplit (fun i hi ↦ absurd hi not_mem_nil) hm.kind'
    hm.indexed' (fun id hid ↦ ?_) hop
  simp only [ByteLoop.constants, hm.right, mem_append]
  exact .inr hid

end Side

omit hw in
/-- The leading instructions that read no byte. -/
theorem replaceable_other (hi : l.loop.leading[p]? = some i)
    (hp : some p ≠ some definitions.length) (hp' : some p ≠ some (definitions.length + 1)) :
    replaceableInstruction i = true := by
  have hlt : p < definitions.length := by
    have hlen := (List.getElem?_eq_some_iff.1 hi).1
    rw [hm.leading, length_append] at hlen
    simp only [length_cons, length_nil] at hlen
    have hne : p ≠ definitions.length := fun h ↦ hp (congrArg some h)
    have hne' : p ≠ definitions.length + 1 := fun h ↦ hp' (congrArg some h)
    omega
  rw [hm.leading, List.getElem?_append_left hlt] at hi
  exact replaceable_of_position hm.replaceable hi not_mem_nil

theorem compares (hs : l.Settled) : l.Compares M := by
  intro σ
  exact compares_of_either (fun p i hi hp hp' ↦ hm.replaceable_other hi hp hp') (hm.operands.imp
    (fun h ↦ ⟨hm.side_left hw hs hs.left h.1, hm.side_right hw hs hs.right h.2⟩)
    fun h ↦ ⟨hm.side_left hw hs hs.right h.2, hm.side_right hw hs hs.left h.1⟩)

/-- Neither base is computed at the cost of another operand of the call. -/
theorem calls : l.Calls M := by
  intro σ
  obtain ⟨⟨-, hne⟩, -⟩ := hm.scratch_once hw
  have hwords := hw.terms
  rw [hm.left, hm.right] at hwords
  have hfresh : ∀ id ∈ l.inputs, id ≠ s.scratch.id ∧ id ≠ s'.scratch.id := fun id hid ↦
    ⟨fun heq ↦ hw.fresh s.scratch hm.scratch_mem.1 (heq ▸ hid),
      fun heq ↦ hw.fresh s'.scratch hm.scratch_mem.2 (heq ▸ hid)⟩
  have hmem : ∀ id, id ∈ l.loop.length.ids ∨ id ∈ s.view.ids ∨
      id ∈ form.terms.flatMap IrOperand.ids ∨ id ∈ s'.view.ids ∨
      id ∈ form'.terms.flatMap IrOperand.ids → id ∈ l.inputs := by
    intro id hid
    simp only [ByteLoop.inputs, ByteLoop.constants, hm.left, hm.right, ByteStream.inputs,
      mem_cons, mem_append]
    tauto
  obtain ⟨ρ, hρ, hworld, hvars, hbase, hids⟩ :=
    execAll_materializeOffsetBase (M := M) (σ := σ) hm.indexed.terms (all_eq_true.1 hwords.1)
  obtain ⟨τ, hτ, hworld', hvars', hbase', -⟩ :=
    execAll_materializeOffsetBase (M := M) (σ := ρ) hm.indexed'.terms (all_eq_true.1 hwords.2)
  have heval : ∀ operand : IrOperand, operand.ids ⊆ l.inputs → τ.eval operand = σ.eval operand :=
    fun operand hsub ↦ eval_congr fun id hid ↦
      (hvars' id (hfresh id (hsub hid)).2).trans (hvars id (hfresh id (hsub hid)).1)
  have hleftBase : (τ.eval (materializeOffsetBase form s.scratch).2).word = form.base σ := by
    rw [← hbase]
    refine congrArg _ (eval_congr fun id hid ↦ hvars' id ?_)
    rcases hids id hid with rfl | hterm
    · exact hne.symm
    · exact (hfresh id (hmem id (.inr (.inr (.inl hterm))))).2
  have hrightBase : form'.base ρ = form'.base σ := IndexedOffset.base_congr fun id hid ↦
    hvars id (hfresh id (hmem id (.inr (.inr (.inr (.inr hid)))))).1
  rw [hm.instructions, hm.left, hm.right, sourceBytesEqualInstructions, Machine.execAll_append,
    Machine.execAll_append, hρ, bind_some, hτ, bind_some, exec_call_result]
  simp only [map_cons, map_nil, State.eval_const, evalCall_sourceBytesEqual, hleftBase,
    hbase', hrightBase, hworld', hworld, heval _ fun id hid ↦ hmem id (.inl hid),
    heval _ fun id hid ↦ hmem id (.inr (.inl hid)),
    heval _ fun id hid ↦ hmem id (.inr (.inr (.inr (.inl hid))))]
  rfl

end SourcePairMatch

theorem sourceByteEqualityLoopAt_sound (hn : (blocks.map (·.id)).Nodup) (hc : condition ∈ blocks)
    (h : sourceByteEqualityLoopAt blocks condition = some (some l)) (hw : l.WellFormed)
    (hs : l.Settled) : l.Sound M blocks := by
  obtain ⟨definitions, s, s', func, func', form, form', hm⟩ :=
    sourceByteEqualityLoopAt_some hn hc h
  exact ⟨hm.shape, hm.plain, hs.index, hm.stable hw, hm.compares hw hs, hm.calls hw⟩

end CellScript.Ir
