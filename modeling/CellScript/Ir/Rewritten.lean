import CellScript.Ir.LoopRun

/-!
# What the byte-loop pass preserves

A loop is rewritten as if its index started at zero. `Machine.agree_rewrite_iff` compares the
function before and after one rewrite: on an input, the two agree if and only if the run does not
come to the loop, or comes to it with an index from which the comparison ends as it ends from zero.
`optimizeSourceByteEquality_runsTo_iff` is the whole pass, with up to three rewrites; they do not
interfere, because a run that comes to one of the loops never comes to another.

`startsLate` is a loop that the matcher takes for one that starts at zero, though its index is
assigned again before the loop.
-/

namespace CellScript.Ir

open Runs (Ends Arrives ends_iff_of_inr)

variable {World α : Type} {M : Machine World} {σ τ τ' : State World} {f g : IrFunction}
  {l l' : ByteLoop} {blocks : List IrBlock} {o : Outcome} {id : BlockId} {found : Option ByteLoop}
  {b : IrBlock}

/-! ### Lookups after a rewrite -/

namespace IrFunction

/-- The identifier of the first block. -/
def entry (f : IrFunction) : Option BlockId := f.blocks.head?.map (·.id)

/-- The body with the condition replaced, before pruning. -/
def replaced (f : IrFunction) (l : ByteLoop) : List IrBlock := replaceBlock l.replacement f.blocks

theorem entry_rewrite (f : IrFunction) (l : ByteLoop) : (f.rewrite l).entry = f.entry := by
  unfold entry rewrite
  rw [head?_pruneUnreachableBlocks, ← List.head?_map, map_id_replaceBlock, List.head?_map]

theorem block_rewrite {entry : BlockId} (hentry : f.entry = some entry)
    (hid : id ∈ reachableBlocks (f.replaced l) entry) :
    block (f.rewrite l).blocks id = block (f.replaced l) id := by
  have hhead : (f.replaced l).head?.map (·.id) = some entry := by
    rw [replaced, ← List.head?_map, map_id_replaceBlock, List.head?_map]
    exact hentry
  obtain ⟨b, hb, rfl⟩ := map_eq_some_iff.1 hhead
  exact block_pruneUnreachableBlocks hb hid

/-- Blocks that do not return a variable are old. -/
theorem block_of_block_rewrite (h : block (f.rewrite l).blocks id = some b)
    (hb : b.terminator ≠ .ret (some (.var l.loop.result))) : block f.blocks id = some b := by
  rcases mem_replaceBlock (mem_of_mem_pruneUnreachableBlocks (mem_of_block h)) with rfl | hmem
  · exact absurd rfl hb
  · rw [← id_of_block h]
    exact block_some_of_mem f.nodup hmem

/-- A configuration in a block that the rewritten function keeps. -/
def Stays (f : IrFunction) (l : ByteLoop) (entry : BlockId) (c : BlockId × State World) : Prop :=
  c.1 ∈ reachableBlocks (f.replaced l) entry

end IrFunction

open IrFunction

/-! ### Runs and entries -/

namespace Machine

theorem runsTo_iff {entry : BlockId} (h : f.entry = some entry) :
    M.RunsTo f σ o ↔ Ends (M.step f.blocks) (entry, σ) o := by
  obtain ⟨b, hb, rfl⟩ := map_eq_some_iff.1 h
  refine ⟨?_, fun hr ↦ ⟨b, hb, hr⟩⟩
  rintro ⟨b', hb', hr⟩
  obtain rfl := mem_unique hb hb'
  exact hr

theorem comesTo_iff {entry : BlockId} (h : f.entry = some entry) :
    M.ComesTo f σ id τ ↔ Arrives (M.step f.blocks) (fun c ↦ c.1 = id) (entry, σ) (id, τ) := by
  obtain ⟨b, hb, rfl⟩ := map_eq_some_iff.1 h
  refine ⟨?_, fun hr ↦ ⟨b, hb, hr⟩⟩
  rintro ⟨b', hb', hr⟩
  obtain rfl := mem_unique hb hb'
  exact hr

/-- A step goes to a target of the block. -/
theorem step_target {c d : BlockId × State World} (h : M.step blocks c = .inl d) :
    ∃ b, block blocks c.1 = some b ∧ d.1 ∈ b.terminator.targets := by
  unfold step at h
  split at h
  · cases h
  next b hb =>
  refine ⟨b, hb, ?_⟩
  unfold runBlock at h
  split at h
  · cases h
  · split at h
    · cases h
    · unfold terminate at h
      split at h
      · cases h
      · next ht =>
        obtain rfl := Sum.inl.inj h
        rw [ht]
        exact mem_cons_self
      · next ht =>
        obtain rfl := Sum.inl.inj h
        rw [ht]
        split
        · exact mem_cons_self
        · exact mem_cons_of_mem _ mem_cons_self

/-! ### One rewrite -/

section Rewrite

variable {entry : BlockId}

variable (hentry : f.entry = some entry)

include hentry

/-- Away from the condition, the rewritten function takes the same steps. -/
theorem step_rewrite (c : BlockId × State World) (hc : f.Stays l entry c)
    (hne : ¬c.1 = l.loop.condition.id) :
    M.step (f.rewrite l).blocks c = M.step f.blocks c := by
  have hne' : c.1 ≠ l.replacement.id := hne
  unfold step
  rw [block_rewrite hentry hc, replaced, block_replaceBlock_of_ne _ hne']

theorem reachable_step (c d : BlockId × State World) (hc : f.Stays l entry c)
    (h : M.step (f.rewrite l).blocks c = .inl d) : f.Stays l entry d := by
  obtain ⟨b, hb, htarget⟩ := step_target h
  rw [block_rewrite hentry hc] at hb
  exact reachableBlocks_closed hc hb htarget

/-- Outside the loop, the steps of the old function lead to reachable blocks too. -/
theorem reachable_step_of_ne (c d : BlockId × State World)
    (hc : f.Stays l entry c) (hne : ¬c.1 = l.loop.condition.id)
    (h : M.step f.blocks c = .inl d) : f.Stays l entry d :=
  reachable_step hentry c d hc ((step_rewrite hentry c hc hne).trans h)

/-- The two functions come to the loop in the same state. -/
theorem comesTo_condition_rewrite :
    M.ComesTo (f.rewrite l) σ l.loop.condition.id τ ↔ M.ComesTo f σ l.loop.condition.id τ := by
  have hmem : entry ∈ reachableBlocks (f.replaced l) entry := mem_reachableBlocks _ _
  rw [comesTo_iff ((entry_rewrite f l).trans hentry), comesTo_iff hentry]
  constructor
  · intro h
    exact h.congr (I := f.Stays l entry)
      (step_rewrite hentry) (fun c d hc _ ↦ reachable_step hentry c d hc) hmem
  · intro h
    exact h.congr (I := f.Stays l entry)
      (fun c hc hne ↦ (step_rewrite hentry c hc hne).symm) (reachable_step_of_ne hentry) hmem

/-- A run that does not come to the loop is unchanged. -/
theorem runsTo_rewrite_of_not_comesTo (h : ∀ τ, ¬M.ComesTo f σ l.loop.condition.id τ) :
    M.RunsTo (f.rewrite l) σ o ↔ M.RunsTo f σ o := by
  have hentry' := (entry_rewrite f l).trans hentry
  rw [runsTo_iff hentry', runsTo_iff hentry]
  refine Runs.ends_congr (I := f.Stays l entry)
    (P := fun c ↦ c.1 = l.loop.condition.id) (step_rewrite hentry)
    (fun c d hc _ ↦ reachable_step hentry c d hc) (mem_reachableBlocks _ _) ?_
  rintro ⟨id, τ⟩ hτ
  obtain rfl : id = l.loop.condition.id := hτ.target
  exact h τ ((comesTo_condition_rewrite hentry).1 ((comesTo_iff hentry').2 hτ))

/-- The new block, where the rewritten function can come to it. -/
theorem step_replacement (hl : l.Sound M f.blocks)
    (hmem : l.loop.condition.id ∈ reachableBlocks (f.replaced l) entry) (ρ : State World) :
    M.step (f.rewrite l).blocks (l.loop.condition.id, ρ) =
      .inr (outcomeOf (compareBytes (l.left.read M ρ) (l.right.read M ρ) 0 (l.count ρ))) := by
  have hcondition : block f.blocks l.replacement.id = some l.loop.condition := hl.shape.condition
  have hblock : block (f.replaced l) l.loop.condition.id = some l.replacement :=
    block_replaceBlock_self hcondition
  unfold step
  rw [block_rewrite hentry hmem, hblock]
  exact hl.runBlock_replacement

theorem reachable_of_comesTo (h : M.ComesTo (f.rewrite l) σ l.loop.condition.id τ) :
    l.loop.condition.id ∈ reachableBlocks (f.replaced l) entry :=
  ((comesTo_iff ((entry_rewrite f l).trans hentry)).1 h).invariant
    (I := f.Stays l entry)
    (fun c d hc _ ↦ reachable_step hentry c d hc) (mem_reachableBlocks _ _)

omit hentry

end Rewrite

/-- Two functions end alike on an input. -/
def Agree (M : Machine World) (f g : IrFunction) (σ : State World) : Prop :=
  ∀ o, M.RunsTo g σ o ↔ M.RunsTo f σ o

end Machine

/-- Whether the loop starts from its index or from zero makes no difference to the comparison. -/
def ByteLoop.Indifferent (M : Machine World) (l : ByteLoop) (σ : State World) : Prop :=
  Scan.Indifferent (fun j ↦ byteVerdict (l.left.read M σ j) (l.right.read M σ j)) (some true)
    (l.position σ) (l.count σ)

/-- Whenever the run comes to the loop, it does so with an index that makes no difference. -/
def ByteLoop.Harmless (M : Machine World) (f : IrFunction) (σ : State World) (l : ByteLoop) :
    Prop :=
  ∀ τ, M.ComesTo f σ l.loop.condition.id τ → l.Indifferent M τ

namespace Machine

theorem exists_entry (h : block f.blocks l.loop.condition.id = some l.loop.condition) :
    ∃ entry, f.entry = some entry := by
  unfold entry
  cases hb : f.blocks with
  | nil =>
    rw [hb] at h
    cases h
  | cons b _ => exact ⟨b.id, rfl⟩

/-- **One rewrite.** -/
theorem agree_rewrite_iff (hl : l.Sound M f.blocks) (hw : l.WellFormed) :
    M.Agree f (f.rewrite l) σ ↔ l.Harmless M f σ := by
  obtain ⟨entry, hentry⟩ := exists_entry hl.shape.condition
  have hentry' := (entry_rewrite f l).trans hentry
  by_cases hcomes : ∃ τ, M.ComesTo f σ l.loop.condition.id τ
  · obtain ⟨τ, hτ⟩ := hcomes
    have hτ' := (comesTo_condition_rewrite hentry).2 hτ
    have harrives := (comesTo_iff hentry).1 hτ
    have hbefore : ∀ o, M.RunsTo f σ o ↔ o = outcomeOf (compareBytes (l.left.read M τ)
        (l.right.read M τ) (l.position τ) (l.count τ - l.position τ)) := fun o ↦ by
      rw [runsTo_iff hentry, harrives.ends_iff]
      exact hl.ends_condition_iff hw
    have hafter : ∀ o, M.RunsTo (f.rewrite l) σ o ↔ o = outcomeOf (compareBytes
        (l.left.read M τ) (l.right.read M τ) 0 (l.count τ)) := fun o ↦ by
      rw [runsTo_iff hentry', ((comesTo_iff hentry').1 hτ').ends_iff]
      exact ends_iff_of_inr (step_replacement hentry hl (reachable_of_comesTo hentry hτ') τ)
    have hharmless : l.Harmless M f σ ↔ l.Indifferent M τ := by
      refine ⟨fun h ↦ h τ hτ, fun h τ' h' ↦ ?_⟩
      obtain rfl : τ = τ' := (Prod.mk.inj (harrives.unique ((comesTo_iff hentry).1 h'))).2
      exact h
    rw [hharmless, ByteLoop.Indifferent, ← Scan.scan_zero_eq_iff]
    constructor
    · intro h
      have heq := (hbefore _).1 ((h _).1 ((hafter _).2 rfl))
      exact outcomeOf_injective heq
    · intro h o
      rw [hbefore, hafter]
      unfold compareBytes
      rw [h]
  · refine iff_of_true (fun o ↦ ?_) fun τ hτ ↦ absurd ⟨τ, hτ⟩ hcomes
    exact runsTo_rewrite_of_not_comesTo hentry fun τ hτ ↦ hcomes ⟨τ, hτ⟩

/-! ### Several rewrites -/

/-- The blocks of a loop are closed under the steps. -/
theorem loopBlocks_closed (hl : l.loop.Shape blocks) (c d : BlockId × State World)
    (hc : c.1 ∈ l.loopBlocks.map (·.id)) (h : M.step blocks c = .inl d) :
    d.1 ∈ l.loopBlocks.map (·.id) := by
  obtain ⟨b, hb, htarget⟩ := step_target h
  obtain ⟨_, _, hcondition⟩ := hl.condition_terminator
  obtain ⟨_, _, hcompare⟩ := hl.compare_terminator
  have hcomplete := (isConstReturn_iff.1 hl.complete_return).2
  have hmismatch := (isConstReturn_iff.1 hl.mismatch_return).2
  have hcontinuing := (emptyJump_some hl.continuing_jump).2
  have hincrement := hl.increment_shape.terminator
  simp only [ByteLoop.loopBlocks, map_cons, map_nil, mem_cons, not_mem_nil, or_false] at hc ⊢
  rcases hc with hc | hc | hc | hc | hc | hc
  · obtain rfl := mem_unique hl.condition (hc ▸ hb)
    rw [hcondition] at htarget
    simp only [IrTerminator.targets, mem_cons, not_mem_nil, or_false] at htarget
    tauto
  · obtain rfl := mem_unique hl.complete (hc ▸ hb)
    rw [hcomplete] at htarget
    cases htarget
  · obtain rfl := mem_unique hl.compare (hc ▸ hb)
    rw [hcompare] at htarget
    simp only [IrTerminator.targets, mem_cons, not_mem_nil, or_false] at htarget
    tauto
  · obtain rfl := mem_unique hl.mismatch (hc ▸ hb)
    rw [hmismatch] at htarget
    cases htarget
  · obtain rfl := mem_unique hl.continuing (hc ▸ hb)
    rw [hcontinuing] at htarget
    simp only [IrTerminator.targets, mem_cons, not_mem_nil, or_false] at htarget
    tauto
  · obtain rfl := mem_unique hl.increment (hc ▸ hb)
    rw [hincrement] at htarget
    simp only [IrTerminator.targets, mem_cons, not_mem_nil, or_false] at htarget
    tauto

end Machine

/-- A loop of the rewritten function is a loop of the function. -/
theorem shape_of_shape_rewrite (h : l'.loop.Shape (f.rewrite l).blocks) :
    l'.loop.Shape f.blocks := by
  obtain ⟨cond, hcond, hcondition⟩ := h.condition_terminator
  obtain ⟨cond', hcond', hcompare⟩ := h.compare_terminator
  have hcomplete := (isConstReturn_iff.1 h.complete_return).2
  have hmismatch := (isConstReturn_iff.1 h.mismatch_return).2
  have hcontinuing := (emptyJump_some h.continuing_jump).2
  have hincrement := h.increment_shape.terminator
  exact {
    h with
    condition := block_of_block_rewrite h.condition (by rw [hcondition]; simp)
    complete := block_of_block_rewrite h.complete (by rw [hcomplete]; simp)
    compare := block_of_block_rewrite h.compare (by rw [hcompare]; simp)
    mismatch := block_of_block_rewrite h.mismatch (by rw [hmismatch]; simp)
    continuing := block_of_block_rewrite h.continuing (by rw [hcontinuing]; simp)
    increment := block_of_block_rewrite h.increment (by rw [hincrement]; simp) }

/-- The condition of a loop is none of the other blocks of a loop. -/
theorem condition_id_notMem (h : l.loop.Shape blocks) (h' : l'.loop.Shape blocks)
    (hne : l'.loop.condition.id ≠ l.loop.condition.id) :
    l'.loop.condition.id ∉ l.loopBlocks.map (·.id) := by
  intro hmem
  have hinstructions := h'.condition_instructions
  have hcondition := h'.condition
  simp only [ByteLoop.loopBlocks, map_cons, map_nil, mem_cons, not_mem_nil, or_false] at hmem
  rcases hmem with hmem | hmem | hmem | hmem | hmem | hmem
  · exact hne hmem
  · rw [hmem, h.complete] at hcondition
    rw [← some.inj hcondition, (isConstReturn_iff.1 h.complete_return).1] at hinstructions
    cases hinstructions
  · rw [hmem, h.compare] at hcondition
    rw [← some.inj hcondition, h.compare_instructions] at hinstructions
    have hlast := congrArg List.getLast? hinstructions
    simp at hlast
  · rw [hmem, h.mismatch] at hcondition
    rw [← some.inj hcondition, (isConstReturn_iff.1 h.mismatch_return).1] at hinstructions
    cases hinstructions
  · rw [hmem, h.continuing] at hcondition
    rw [← some.inj hcondition, (emptyJump_some h.continuing_jump).1] at hinstructions
    cases hinstructions
  · obtain ⟨left, moved, operand, hincrement, -⟩ := h.increment_shape.instructions
    rw [hmem, h.increment] at hcondition
    rw [← some.inj hcondition, hincrement] at hinstructions
    simp at hinstructions

/-- What the rewritten function has in the place of the condition. -/
theorem eq_replacement_of_block_rewrite
    (hc : block f.blocks l.loop.condition.id = some l.loop.condition)
    (h : block (f.rewrite l).blocks l.loop.condition.id = some b) : b = l.replacement := by
  have hcondition : block f.blocks l.replacement.id = some l.loop.condition := hc
  have hnew : l.replacement ∈ f.replaced l := mem_of_block (block_replaceBlock_self hcondition)
  have hold : b ∈ f.replaced l := mem_of_mem_pruneUnreachableBlocks (mem_of_block h)
  have hnodup : ((f.replaced l).map (·.id)).Nodup := by
    rw [replaced, map_id_replaceBlock]
    exact f.nodup
  exact List.inj_on_of_nodup_map hnodup hold hnew (id_of_block h)

/-- A loop of the rewritten function is another loop. -/
theorem condition_id_ne (hl : l.loop.Shape f.blocks) (h : l'.loop.Shape (f.rewrite l).blocks) :
    l'.loop.condition.id ≠ l.loop.condition.id := by
  intro heq
  obtain ⟨cond, -, hterminator⟩ := h.condition_terminator
  have hcondition := h.condition
  rw [heq] at hcondition
  rw [eq_replacement_of_block_rewrite hl.condition hcondition] at hterminator
  cases hterminator

namespace Machine

/-- A run comes to one loop only. -/
theorem not_comesTo_of_comesTo (hl : l.loop.Shape f.blocks)
    (hl' : l'.loop.Shape f.blocks) (hne : l'.loop.condition.id ≠ l.loop.condition.id)
    (h : M.ComesTo f σ l.loop.condition.id τ) : ¬M.ComesTo f σ l'.loop.condition.id τ' := by
  intro h'
  obtain ⟨entry, hentry⟩ := exists_entry hl.condition
  rw [comesTo_iff hentry] at h h'
  have hnever : ∀ (k k' : ByteLoop) (ρ ρ' : State World), k.loop.Shape f.blocks →
      k'.loop.Shape f.blocks → k'.loop.condition.id ≠ k.loop.condition.id →
      ¬Arrives (M.step f.blocks) (fun c ↦ c.1 = k'.loop.condition.id) (k.loop.condition.id, ρ)
        (k'.loop.condition.id, ρ') := by
    intro k k' ρ ρ' hk hk' hkk
    refine Runs.not_arrives_of_closed (loopBlocks_closed hk) (fun c hc hq ↦ ?_) ?_
    · exact condition_id_notMem hk hk' hkk (hq ▸ hc)
    · simp [ByteLoop.loopBlocks]
  rcases h.or h' with hfirst | hfirst
  · exact hnever l l' τ τ' hl hl' hne hfirst
  · exact hnever l' l τ' τ hl' hl hne.symm hfirst

/-- Coming to another loop is not affected by a rewrite. -/
theorem comesTo_rewrite (hl : l.Sound M f.blocks) (hl' : l'.loop.Shape (f.rewrite l).blocks) :
    M.ComesTo (f.rewrite l) σ l'.loop.condition.id τ ↔ M.ComesTo f σ l'.loop.condition.id τ := by
  obtain ⟨entry, hentry⟩ := exists_entry hl.shape.condition
  have hne := condition_id_ne hl.shape hl'
  have hmem : entry ∈ reachableBlocks (f.replaced l) entry := mem_reachableBlocks _ _
  rw [comesTo_iff ((entry_rewrite f l).trans hentry), comesTo_iff hentry]
  constructor
  · intro h
    refine h.transfer (I := f.Stays l entry)
      (P := fun c ↦ c.1 = l.loop.condition.id) (step_rewrite hentry)
      (fun c d hc _ ↦ reachable_step hentry c d hc) ?_ hmem
    -- the new block ends the run
    rintro ⟨id, ρ⟩ t hid rfl harrives
    rcases harrives with hq | ⟨-, hstep, -⟩
    · exact hne hq.symm
    · cases (step_replacement hentry hl hid ρ).symm.trans hstep
  · intro h
    refine h.transfer (I := f.Stays l entry)
      (P := fun c ↦ c.1 = l.loop.condition.id)
      (fun c hc hne ↦ (step_rewrite hentry c hc hne).symm) (reachable_step_of_ne hentry) ?_ hmem
    -- the old loop is never left
    rintro ⟨id, ρ⟩ t - rfl
    refine Runs.not_arrives_of_closed (loopBlocks_closed hl.shape) (fun c hc hq ↦ ?_) ?_
    · exact condition_id_notMem hl.shape (shape_of_shape_rewrite hl') hne (hq ▸ hc)
    · simp [ByteLoop.loopBlocks]

variable {ls : List ByteLoop}

/-- **A rewrite and the rewrites after it.** -/
theorem agree_rewrite_trans_iff (hl : l.Sound M f.blocks) (hw : l.WellFormed)
    (hls : ∀ l' ∈ ls, l'.loop.Shape (f.rewrite l).blocks)
    (hg : M.Agree (f.rewrite l) g σ ↔ ∀ l' ∈ ls, l'.Harmless M (f.rewrite l) σ) :
    M.Agree f g σ ↔ l.Harmless M f σ ∧ ∀ l' ∈ ls, l'.Harmless M f σ := by
  have hharmless : ∀ l' ∈ ls, l'.Harmless M (f.rewrite l) σ ↔ l'.Harmless M f σ := by
    intro l' hl'
    exact forall_congr' fun τ ↦ by rw [comesTo_rewrite hl (hls l' hl')]
  have hg' : M.Agree (f.rewrite l) g σ ↔ ∀ l' ∈ ls, l'.Harmless M f σ :=
    hg.trans (forall₂_congr hharmless)
  have hone := agree_rewrite_iff hl hw (σ := σ)
  by_cases hcomes : ∃ τ, M.ComesTo f σ l.loop.condition.id τ
  · -- the run comes to this loop and to none of the others
    obtain ⟨τ, hτ⟩ := hcomes
    have hothers : ∀ l' ∈ ls, l'.Harmless M f σ := fun l' hl' τ' hτ' ↦
      absurd hτ' (not_comesTo_of_comesTo hl.shape (shape_of_shape_rewrite (hls l' hl'))
        (condition_id_ne hl.shape (hls l' hl')) hτ)
    have hsame := hg'.2 hothers
    rw [← hone]
    exact ⟨fun h ↦ ⟨fun o ↦ (hsame o).symm.trans (h o), hothers⟩, fun h o ↦ (hsame o).trans (h.1 o)⟩
  · have hvacuous : l.Harmless M f σ := fun τ hτ ↦ absurd ⟨τ, hτ⟩ hcomes
    have hsame := hone.2 hvacuous
    rw [← hg']
    exact ⟨fun h ↦ ⟨hvacuous, fun o ↦ (h o).trans (hsame o).symm⟩,
      fun h o ↦ (h.2 o).trans (hsame o)⟩

/-- The same for a matcher that may have found nothing. -/
theorem agree_rewriteLoop_trans_iff (hl : ∀ l ∈ found.toList, l.Sound M f.blocks)
    (hw : ∀ l ∈ found.toList, l.WellFormed)
    (hls : ∀ l' ∈ ls, l'.loop.Shape (f.rewriteLoop found).blocks)
    (hg : M.Agree (f.rewriteLoop found) g σ ↔
      ∀ l' ∈ ls, l'.Harmless M (f.rewriteLoop found) σ) :
    M.Agree f g σ ↔ ∀ l' ∈ found.toList ++ ls, l'.Harmless M f σ := by
  cases found with
  | none => exact hg
  | some l =>
    rw [toList_some, List.singleton_append, forall_mem_cons]
    exact agree_rewrite_trans_iff (hl l (by simp)) (hw l (by simp)) hls hg

end Machine

theorem shape_of_shape_rewriteLoop (h : l'.loop.Shape (f.rewriteLoop found).blocks) :
    l'.loop.Shape f.blocks := by
  cases found with
  | none => exact h
  | some l => exact shape_of_shape_rewrite h

/-! ### The pass -/

theorem firstMatch_some {matchAt : IrBlock → Option (Option α)} {found : α}
    (h : firstMatch matchAt blocks = some found) : ∃ b ∈ blocks, matchAt b = some (some found) := by
  induction blocks with
  | nil => cases h
  | cons b blocks ih =>
    unfold firstMatch at h
    split at h
    · cases h
    · obtain ⟨b', hb', hmatch⟩ := ih h
      exact ⟨b', mem_cons_of_mem _ hb', hmatch⟩
    · next hmatch =>
      obtain rfl := some.inj h
      exact ⟨b, mem_cons_self, hmatch⟩

theorem matchLoop_some {matchAt : List IrBlock → IrBlock → Option (Option ByteLoop)}
    (h : f.matchLoop matchAt = some l) : ∃ b ∈ f.blocks, matchAt f.blocks b = some (some l) := by
  unfold matchLoop at h
  split at h
  · exact firstMatch_some h
  · cases h

/-- **The pass.** It is judged for functions whose rewritten loops are as lowering makes them and
settled. On an input, the function ends after the pass as it ended before, if and only if the run
does not come to a rewritten loop, or comes to it with an index from which the comparison ends as it
ends from zero. -/
theorem optimizeSourceByteEquality_runsTo_iff (M : Machine World) (f : IrFunction)
    (hw : ∀ l ∈ f.rewrittenLoops, l.WellFormed) (hs : ∀ l ∈ f.rewrittenLoops, l.Settled)
    (σ : State World) :
    (∀ o, M.RunsTo f.optimizeSourceByteEquality σ o ↔ M.RunsTo f σ o) ↔
      ∀ l ∈ f.rewrittenLoops, ∀ τ, M.ComesTo f σ l.loop.condition.id τ → l.Indifferent M τ := by
  have hmem₁ : ∀ l ∈ f.matchSourceByteEqualityLoop.toList, l ∈ f.rewrittenLoops := fun l hl ↦
    mem_append_left _ (mem_append_left _ hl)
  have hmem₂ : ∀ l ∈ f.withSourceByteEquality.matchSourceMemoryEqualityLoop.toList,
      l ∈ f.rewrittenLoops := fun l hl ↦ mem_append_left _ (mem_append_right _ hl)
  have hmem₃ : ∀ l ∈ f.withSourceMemoryEquality.matchSourceZeroLoop.toList,
      l ∈ f.rewrittenLoops := fun l hl ↦ mem_append_right _ hl
  have hsound₁ : ∀ l ∈ f.matchSourceByteEqualityLoop.toList, l.Sound M f.blocks := by
    intro l hl
    obtain ⟨b, hb, hmatch⟩ := matchLoop_some (Option.mem_toList.1 hl)
    exact sourceByteEqualityLoopAt_sound f.nodup hb hmatch (hw l (hmem₁ l hl)) (hs l (hmem₁ l hl))
  have hsound₂ : ∀ l ∈ f.withSourceByteEquality.matchSourceMemoryEqualityLoop.toList,
      l.Sound M f.withSourceByteEquality.blocks := by
    intro l hl
    obtain ⟨b, hb, hmatch⟩ := matchLoop_some (Option.mem_toList.1 hl)
    exact sourceMemoryEqualityLoopAt_sound f.withSourceByteEquality.nodup hb hmatch
      (hw l (hmem₂ l hl)) (hs l (hmem₂ l hl))
  have hsound₃ : ∀ l ∈ f.withSourceMemoryEquality.matchSourceZeroLoop.toList,
      l.Sound M f.withSourceMemoryEquality.blocks := by
    intro l hl
    obtain ⟨b, hb, hmatch⟩ := matchLoop_some (Option.mem_toList.1 hl)
    exact sourceZeroLoopAt_sound f.withSourceMemoryEquality.nodup hb hmatch
      (hw l (hmem₃ l hl)) (hs l (hmem₃ l hl))
  -- from the last rewrite to the first
  have hlast : M.Agree f.withSourceMemoryEquality f.optimizeSourceByteEquality σ ↔
      ∀ l ∈ f.withSourceMemoryEquality.matchSourceZeroLoop.toList ++ [],
        l.Harmless M f.withSourceMemoryEquality σ :=
    Machine.agree_rewriteLoop_trans_iff hsound₃ (fun l hl ↦ hw l (hmem₃ l hl))
      (fun l hl ↦ absurd hl not_mem_nil)
      (iff_of_true (fun o ↦ Iff.rfl) fun l hl ↦ absurd hl not_mem_nil)
  rw [append_nil] at hlast
  have hmiddle : M.Agree f.withSourceByteEquality f.optimizeSourceByteEquality σ ↔ _ :=
    Machine.agree_rewriteLoop_trans_iff hsound₂ (fun l hl ↦ hw l (hmem₂ l hl))
      (fun l hl ↦ (hsound₃ l hl).shape) hlast
  have hfirst : M.Agree f f.optimizeSourceByteEquality σ ↔ _ :=
    Machine.agree_rewriteLoop_trans_iff hsound₁ (fun l hl ↦ hw l (hmem₁ l hl))
      (fun l hl ↦ ?_) hmiddle
  · rw [← append_assoc] at hfirst
    exact hfirst
  · rcases mem_append.1 hl with hl | hl
    · exact (hsound₂ l hl).shape
    · exact shape_of_shape_rewriteLoop (hsound₃ l hl).shape

/-! ### A loop that starts late -/

section StartsLate

/-- `let mut i: u64 = 0`, then `i = start`, then the loop
`while i < n do if witness::byte(a, i) != 0 then return false; i += 1`, then `return true`. -/
def startsLate (start : BitVec 64) : IrFunction where
  returnType := some .bool
  blocks :=
    let i : IrVar := ⟨0, "i", .u64⟩
    let n : IrVar := ⟨1, "n", .u64⟩
    let a : IrVar := ⟨2, "a", .other "InputView"⟩
    let more : IrVar := ⟨3, "binary_tmp", .bool⟩
    let byte : IrVar := ⟨4, "witness_u8", .u64⟩
    let differs : IrVar := ⟨5, "binary_tmp", .bool⟩
    let next : IrVar := ⟨6, "assign_tmp", .u64⟩
    [⟨0, [.loadConst i (.u64 0), .move i (.const (.u64 start))], .jump 1, none⟩,
      ⟨1, [.binary more .lt (.var i) (.var n)], .branch (.var more) 2 3, none⟩,
      ⟨2, [.call (some byte) (.runtime .ckbWitnessU8) [.var a, .var i],
        .binary differs .ne (.var byte) (.const (.u64 0))], .branch (.var differs) 4 5, none⟩,
      ⟨3, [], .ret (some (.const (.bool true))), none⟩,
      ⟨4, [], .ret (some (.const (.bool false))), none⟩,
      ⟨5, [], .jump 6, none⟩,
      ⟨6, [.binary next .add (.var i) (.const (.u64 1)), .move i (.var next)], .jump 1, none⟩]
  nodup := by simp

/-- A transaction whose sources all hold the given bytes. -/
def bytesMachine (bytes : List (BitVec 8)) : Machine Unit where
  source _ _ _ := bytes
  wideBinary _ _ _ _ _ _ := none
  wideIndex _ _ _ := none
  call _ _ _ := none
  other _ _ _ _ := none

/-- The length is the second parameter. -/
def lengthState (length : BitVec 64) : State Unit where
  vars id := { word := if id = 1 then length else 0 }
  world := ()

/-- A loop that does start at zero meets the conditions. -/
theorem optimizeSourceByteEquality_runsTo_iff_startsLate :
    ((∀ l ∈ (startsLate 0).rewrittenLoops, l.WellFormed) ∧
      (∀ l ∈ (startsLate 0).rewrittenLoops, l.Settled) ∧ (startsLate 0).rewrittenLoops ≠ []) ∧
    ((∀ o, (bytesMachine [0, 0]).RunsTo (startsLate 0).optimizeSourceByteEquality (lengthState 2) o
        ↔ (bytesMachine [0, 0]).RunsTo (startsLate 0) (lengthState 2) o) ↔
      ∀ l ∈ (startsLate 0).rewrittenLoops, ∀ τ,
        (bytesMachine [0, 0]).ComesTo (startsLate 0) (lengthState 2) l.loop.condition.id τ →
          l.Indifferent (bytesMachine [0, 0]) τ) := by
  have hw : ∀ l ∈ (startsLate 0).rewrittenLoops, l.WellFormed := by decide +kernel
  have hs : ∀ l ∈ (startsLate 0).rewrittenLoops, l.Settled := by decide +kernel
  have hne : (startsLate 0).rewrittenLoops.length ≠ 0 := by decide +kernel
  exact ⟨⟨hw, hs, fun h ↦ hne (by rw [h]; rfl)⟩, optimizeSourceByteEquality_runsTo_iff _ _ hw hs _⟩

/-- **The first byte is skipped by the function and read after the pass.** -/
theorem startsLate_diverges :
    (bytesMachine [1, 0]).RunsTo (startsLate 1) (lengthState 2) (.returned (some (.ofBool true))) ∧
      (bytesMachine [1, 0]).RunsTo (startsLate 1).optimizeSourceByteEquality (lengthState 2)
        (.returned (some (.ofBool false))) ∧
      ¬(bytesMachine [1, 0]).RunsTo (startsLate 1).optimizeSourceByteEquality (lengthState 2)
        (.returned (some (.ofBool true))) := by
  have hbefore : Runs.runFor ((bytesMachine [1, 0]).step (startsLate 1).blocks) 20
      (0, lengthState 2) = some (.returned (some (.ofBool true))) := by
    decide +kernel
  have hafter : Runs.runFor ((bytesMachine [1, 0]).step
      (startsLate 1).optimizeSourceByteEquality.blocks) 20
      (0, lengthState 2) = some (.returned (some (.ofBool false))) := by
    decide +kernel
  have hentry : (startsLate 1).entry = some 0 := rfl
  have hentry' : (startsLate 1).optimizeSourceByteEquality.entry = some 0 := by decide +kernel
  have hfalse := Runs.ends_of_runFor hafter
  refine ⟨(Machine.runsTo_iff hentry).2 (Runs.ends_of_runFor hbefore),
    (Machine.runsTo_iff hentry').2 hfalse, fun htrue ↦ ?_⟩
  have heq := hfalse.unique ((Machine.runsTo_iff hentry').1 htrue)
  revert heq
  decide

end StartsLate

end CellScript.Ir
