import CellScript.GroupPolicy.Bind

/-!
# What an accepted policy says of its actions

The bindings of each side of an exported action take the ordinals from zero on, one each
(`Accounted`), and every path of blocks from the entry to a return without a runtime error meets
each block with a lifecycle instruction once (`MeetsOnce`). Both are read off the checks of one
action, and the module that the pass leaves behind has them for all exported actions.
-/

namespace CellScript.GroupPolicy

/-! ### Roles -/

/-- The bindings of a side. -/
def rolesOn (side : Side) (bindings : List IrCellBinding) : List IrCellBinding :=
  bindings.filter fun b ↦ b.source.side = some side

/-- The bindings of a side correspond to the ordinals below their number. -/
def Accounted (side : Side) (bindings : List IrCellBinding) : Prop :=
  ((rolesOn side bindings).map (·.ordinal)).Perm (List.range (rolesOn side bindings).length)

/-- What is asked of a single binding. -/
def IrCellBinding.Fits (resource : String) (b : IrCellBinding) : Prop :=
  match b.source.side with
  | none => b.role = .readOnly ∧ b.membership = .unproven
  | some side => b.ty = resource ∧ b.isConsistent side

variable {resource : String} {side : Side}

section Bindings

variable {action : String} {slots slots' : Slots} {b : IrCellBinding}
  {bindings : List IrCellBinding} {ordinals : List ℕ}

theorem recordLocal_ok (h : recordLocal action slots b = .ok slots') (side : Side) :
    slots'.on side = slots.on side := by
  unfold recordLocal at h
  split at h
  · exact ok.inj h ▸ rfl
  · dsimp only at h
    split at h
    · exact nomatch h
    · obtain rfl := ok.inj h
      cases side <;> rfl

theorem Slots.on_add (slots : Slots) (side side' : Side) (ordinal : ℕ) :
    (slots.add side ordinal).on side' =
      if side = side' then ordinal :: slots.on side' else slots.on side' := by
  cases side <;> cases side' <;> rfl

theorem validateBinding_ok (h : validateBinding action resource slots b = .ok slots') :
    b.Fits resource ∧ ∀ side, slots'.on side =
      if b.source.side = some side then b.ordinal :: slots.on side else slots.on side := by
  obtain ⟨slots₁, hslots₁, h⟩ := bind_ok.1 h
  have hon := recordLocal_ok hslots₁
  cases hside : b.source.side with
  | none =>
    simp only [hside] at h
    obtain ⟨hdep, h⟩ := guard_ok.1 h
    rw [not_or, not_not, not_not] at hdep
    obtain rfl := pure_ok.1 h
    exact ⟨by rwa [IrCellBinding.Fits, hside], fun side ↦ by rw [if_neg nofun, hon]⟩
  | some side =>
    simp only [hside] at h
    obtain ⟨hty, h⟩ := guard_ok.1 h
    obtain ⟨hrole, h⟩ := guard_ok.1 h
    obtain ⟨-, h⟩ := guard_ok.1 h
    obtain rfl := pure_ok.1 h
    refine ⟨?_, fun side' ↦ ?_⟩
    · rw [IrCellBinding.Fits, hside]
      exact ⟨not_not.1 hty, by simpa using hrole⟩
    · rw [Slots.on_add, hon]
      simp only [some.injEq]

/-- The slots of a side hold the ordinals of its bindings, the last one first. -/
theorem foldlM_validateBinding_ok
    (h : bindings.foldlM (validateBinding action resource) slots = .ok slots') :
    (∀ b ∈ bindings, b.Fits resource) ∧
      ∀ side, slots'.on side
        = ((rolesOn side bindings).map (·.ordinal)).reverse ++ slots.on side := by
  induction bindings generalizing slots with
  | nil =>
    obtain rfl := pure_ok.1 h
    exact ⟨nofun, fun _ ↦ rfl⟩
  | cons b bindings ih =>
    obtain ⟨slots₁, hslots₁, h⟩ := bind_ok.1 h
    obtain ⟨hfits, hon⟩ := validateBinding_ok hslots₁
    obtain ⟨hall, hrest⟩ := ih h
    refine ⟨forall_mem_cons.2 ⟨hfits, hall⟩, fun side ↦ ?_⟩
    rw [hrest, hon, rolesOn, rolesOn]
    by_cases hside : b.source.side = some side
    · simp [hside]
    · simp [hside]

theorem perm_range_of_isDense (h : isDense ordinals) :
    ordinals.Perm (List.range ordinals.length) := by
  rw [isDense, decide_eq_true_iff] at h
  exact h ▸ (perm_insertionSort (· ≤ ·) ordinals).symm

theorem isDense_of_validateDense {side : String}
    (h : validateDense action side ordinals = .ok ()) : isDense ordinals :=
  (ite_ok_iff.1 h).1

theorem accounted_of_isDense (heq : ordinals = ((rolesOn side bindings).map (·.ordinal)).reverse)
    (h : isDense ordinals) : Accounted side bindings := by
  have hperm := perm_range_of_isDense h
  rw [heq, List.length_reverse, length_map] at hperm
  exact (List.reverse_perm _).symm.trans hperm

end Bindings

/-! ### Paths -/

/-- A path of blocks from the entry to a return without a runtime error. -/
structure AcceptingPath (body : IrBody) (path : List BlockId) : Prop where
  starts : ∃ entry, body.blocks.head? = some entry ∧ path.head? = some entry.id
  steps : path.IsChain fun id id' ↦ id' ∈ body.next id
  ends : ∃ id block, path.getLast? = some id ∧ body.block id = some block ∧ block.returns ∧
    block.runtimeError.isNone

/-- Every accepting path meets each block with a lifecycle instruction once. -/
def MeetsOnce (body : IrBody) : Prop :=
  ∀ path, AcceptingPath body path → ∀ block ∈ body.blocks,
    block.instructions.any lifecycleInstruction → path.count block.id = 1

variable {body : IrBody} {action : IrAction} {block : IrBlock} {name : String}

/-- Paths do not depend on the bindings. -/
theorem MeetsOnce.rebound (h : MeetsOnce body) (bindings : List IrCellBinding) :
    MeetsOnce { body with cellBindings := bindings } :=
  fun path hpath ↦ h path ⟨hpath.starts, hpath.steps, hpath.ends⟩

theorem IrBody.block_of_mem (h : block ∈ body.blocks) : body.block block.id = some block := by
  obtain ⟨b, hb⟩ : ∃ b, body.block block.id = some b :=
    isSome_iff_exists.1 (List.find?_isSome.2 ⟨block, h, by simp⟩)
  have hid : b.id = block.id := by simpa using find?_some hb
  rw [hb, List.inj_on_of_nodup_map body.nodup (mem_of_find?_eq_some hb) h hid]

theorem IrBody.next_of_mem (h : block ∈ body.blocks) : body.next block.id = successors block := by
  rw [next, block_of_mem h]
  rfl

theorem mem_reachableBlocks {start id : BlockId} :
    id ∈ reachableBlocks body start none ↔
      ReflTransGen (fun id id' ↦ id' ∈ body.next id) start id := by
  have haround : Worklist.Around body.next none = fun id id' ↦ id' ∈ body.next id := by
    funext id id'
    exact propext (and_iff_left nofun)
  rw [reachableBlocks, Worklist.mem_walk, haround]
  exact and_iff_right nofun

/-- **The two searches leave only paths that meet the block once.** -/
theorem validateFixedRolePaths_ok
    (h : validateFixedRolePaths name body = .ok ()) : MeetsOnce body := by
  intro path hpath block hblock hlifecycle
  obtain ⟨entry, hentry, hhead⟩ := hpath.starts
  obtain ⟨id, last, hlast, hfound, hreturns, herror⟩ := hpath.ends
  obtain ⟨rest, rfl⟩ : ∃ rest, path = entry.id :: rest := by
    cases path with
    | nil => exact nomatch hhead
    | cons first rest => exact ⟨rest, by rw [some.inj hhead]⟩
  unfold validateFixedRolePaths at h
  simp only [hentry] at h
  have hcheck := forM_ok_iff.1 h block (List.mem_filter.2 ⟨hblock, hlifecycle⟩)
  obtain ⟨-, hcheck⟩ := not_or.1 (Except.check_ok_iff.1 hcheck)
  obtain ⟨hbypass, hrepeated⟩ := not_or.1 hcheck
  have hid : last.id = id := by simpa using find?_some hfound
  refine Worklist.count_eq_one hpath.steps hlast (fun haround ↦ hbypass ?_) fun next hnext hback ↦
    hrepeated ?_
  · -- the last block of a path around the block is reached and accepts
    refine any_eq_true.2 ⟨id, mem_map.2 ⟨last, List.mem_filter.2
      ⟨mem_of_find?_eq_some hfound, ?_⟩, hid⟩, decide_eq_true (Worklist.mem_walk.2 haround)⟩
    have hreach : last.id ∈ reachableBlocks body entry.id none := by
      rw [mem_reachableBlocks, hid]
      have hle : Worklist.Around body.next (some block.id) ≤ fun id id' ↦ id' ∈ body.next id :=
        fun _ _ hstep ↦ hstep.1
      exact Relation.ReflTransGen.mono hle _ _ haround.2
    simp [hreach, herror, hreturns]
  · rw [IrBody.next_of_mem hblock] at hnext
    exact any_eq_true.2 ⟨next, hnext, decide_eq_true (mem_reachableBlocks.2 hback)⟩

/-! ### Actions -/

theorem validateFixedAction_ok {cellTypes : List String}
    (h : validateFixedAction action resource cellTypes = .ok ()) :
    (∀ b ∈ action.body.cellBindings, b.Fits resource) ∧
      (∃ b ∈ action.body.cellBindings, b.source.side ≠ none) ∧
      (∀ side, Accounted side action.body.cellBindings) ∧ MeetsOnce action.body := by
  unfold validateFixedAction at h
  obtain ⟨-, h⟩ := guard_ok.1 h
  obtain ⟨-, h⟩ := guard_ok.1 h
  obtain ⟨slots, hslots, h⟩ := bind_ok.1 h
  obtain ⟨hempty, h⟩ := guard_ok.1 h
  obtain ⟨hinputs, h⟩ := check_ok.1 h
  obtain ⟨houtputs, h⟩ := check_ok.1 h
  obtain ⟨-, hpaths⟩ := check_ok.1 h
  obtain ⟨hfits, hon⟩ := foldlM_validateBinding_ok hslots
  have hon' : ∀ side, slots.on side
      = ((rolesOn side action.body.cellBindings).map (·.ordinal)).reverse := fun side ↦ by
    rw [hon side]
    cases side <;> exact append_nil _
  refine ⟨hfits, ?_, fun side ↦ ?_, validateFixedRolePaths_ok hpaths⟩
  · by_contra hnone
    have hnil : ∀ side, slots.on side = [] := fun side ↦ by
      have hroles : rolesOn side action.body.cellBindings = [] :=
        filter_eq_nil_iff.2 fun b hb hside ↦
          hnone ⟨b, hb, fun h ↦ nomatch h.symm.trans (of_decide_eq_true hside)⟩
      rw [hon' side, hroles]
      rfl
    exact hempty (by rw [show slots.inputs = [] from hnil .input,
      show slots.outputs = [] from hnil .output]; rfl)
  · cases side with
    | input => exact accounted_of_isDense (hon' .input) (isDense_of_validateDense hinputs)
    | output => exact accounted_of_isDense (hon' .output) (isDense_of_validateDense houtputs)

/-! ### The module -/

theorem side_rebind (b : IrCellBinding) : (rebind b).source.side = b.source.side := by
  unfold rebind
  split
  · next h => exact h.symm
  · next h => exact h.symm
  · rfl

theorem ordinal_rebind (b : IrCellBinding) : (rebind b).ordinal = b.ordinal := by
  unfold rebind
  split <;> rfl

theorem rolesOn_rebind (side : Side) (bindings : List IrCellBinding) :
    rolesOn side (bindings.map rebind) = (rolesOn side bindings).map rebind := by
  rw [rolesOn, List.filter_map]
  refine congrArg _ (filter_congr fun b _ ↦ ?_)
  simp only [Function.comp, side_rebind]

theorem Accounted.rebind {bindings : List IrCellBinding}
    (h : Accounted side bindings) : Accounted side (bindings.map rebind) := by
  have hordinal : (·.ordinal) ∘ GroupPolicy.rebind = fun b : IrCellBinding ↦ b.ordinal :=
    funext ordinal_rebind
  rw [Accounted, rolesOn_rebind, map_map, hordinal, length_map]
  exact h

/-- How a binding of an exported action stands in the bound module: a dependency is left as it was,
and the others are bound to the group. -/
def IrCellBinding.Bound (b : IrCellBinding) : Prop :=
  (b.source = .cellDep ∧ b.membership = .unproven) ∨
    ((b.source = .groupInput ∨ b.source = .groupOutput) ∧ b.membership = .currentTypeGroup)

theorem IrCellBinding.Fits.bound {b : IrCellBinding} (h : b.Fits resource) : (rebind b).Bound := by
  unfold rebind
  split
  · exact .inr ⟨.inl rfl, rfl⟩
  · exact .inr ⟨.inr rfl, rfl⟩
  · next hside =>
    rw [Fits, hside] at h
    refine .inl ⟨?_, h.2⟩
    cases hsource : b.source with
    | cellDep => rfl
    | input | output | groupInput | groupOutput => rw [hsource] at hside; exact nomatch hside

/-- What holds of an exported action of a bound module. -/
structure Planned (action : IrAction) : Prop where
  bound : ∀ b ∈ action.body.cellBindings, b.Bound
  nonempty : ∃ b ∈ action.body.cellBindings, b.source ≠ .cellDep
  accounted : ∀ side, Accounted side action.body.cellBindings
  once : MeetsOnce action.body

section Stage

variable {c : Callables} {exports exports' : Exports} {e : ArtifactAction}

/-- The bindings of every export met so far are staged, and the export was accepted. -/
def Staged (c : Callables) (resource : String) (exports : Exports) : Prop :=
  ∀ name ∈ exports.names, ∃ action, c.action name = some action ∧
    validateFixedAction action resource c.cellTypes = .ok () ∧
    exports.staged.lookup name = some (action.body.cellBindings.map rebind)

theorem Staged.step (hstaged : Staged c resource exports)
    (h : stageExport c resource exports e = .ok exports') :
    Staged c resource exports' ∧ e.action ∈ exports'.names ∧
      ∀ e' : ArtifactAction, e'.action ∈ exports.names → e'.action ∈ exports'.names := by
  unfold stageExport at h
  obtain ⟨hnew, h⟩ := guard_ok.1 h
  cases haction : c.action e.action with
  | none =>
    rw [haction] at h
    exact nomatch h
  | some action =>
    simp only [haction] at h
    obtain ⟨hvalid, h⟩ := check_ok.1 h
    obtain rfl := pure_ok.1 h
    refine ⟨forall_mem_cons.2 ⟨⟨action, haction, hvalid, List.lookup_cons_self⟩,
      fun name hname ↦ ?_⟩, mem_cons_self, fun _ ↦ mem_cons_of_mem _⟩
    obtain ⟨action', haction', hvalid', hlookup⟩ := hstaged name hname
    have hne : name ≠ e.action := fun heq ↦ (not_or.1 hnew).1 (heq ▸ hname)
    refine ⟨action', haction', hvalid', ?_⟩
    rw [List.lookup_cons, beq_eq_false_iff_ne.2 hne]
    exact hlookup

end Stage

section Module

variable {d : ArtifactDeclaration} {module : IrModule} {staged : List (String × List IrCellBinding)}

/-- The loops of an accepted pass. -/
theorem stage_cases (h : stage d module = .ok staged) : ∃ exports common memo visited,
    d.actions.foldlM (stageExport module.callables d.resource) ⟨[], [], []⟩ = .ok exports ∧
    d.commonChecks.foldlM (validateCommonName module.callables exports.names) ([], []) =
      .ok (common, memo) ∧
    ((exports.names.insertionSort (· ≤ ·)).map (·, true) ++
      (common.insertionSort (· ≤ ·)).map (·, false)).foldlM
        (validateEntryCalls module.callables) [] = .ok visited ∧ exports.staged = staged := by
  obtain ⟨⟨staged', entries⟩, hactions, h⟩ := bind_ok.1 h
  obtain ⟨visited, hvisited, h⟩ := bind_ok.1 h
  obtain rfl := pure_ok.1 h
  obtain ⟨-, h⟩ := check_ok.1 hactions
  obtain ⟨-, h⟩ := guard_ok.1 h
  obtain ⟨exports, hexports, h⟩ := bind_ok.1 h
  obtain ⟨-, h⟩ := guard_ok.1 h
  obtain ⟨⟨common, memo⟩, hcommon, h⟩ := bind_ok.1 h
  obtain ⟨rfl, rfl⟩ := Prod.mk.inj (pure_ok.1 h)
  exact ⟨exports, common, memo, visited, hexports, hcommon, hvisited, rfl⟩

/-- What the loop over the exports has established. -/
theorem staged_of_foldlM {exports : Exports}
    (h : d.actions.foldlM (stageExport module.callables d.resource) ⟨[], [], []⟩ = .ok exports) :
    Staged module.callables d.resource exports ∧ ∀ e ∈ d.actions, e.action ∈ exports.names := by
  obtain ⟨hstaged, hall, -⟩ := Except.foldlM_induction (I := Staged module.callables d.resource)
    (P := fun e exports ↦ e.action ∈ exports.names) (fun _ _ _ _ ↦ Staged.step) h nofun
  exact ⟨hstaged, hall⟩

theorem stage_ok (h : stage d module = .ok staged) :
    ∀ e ∈ d.actions, ∃ action, module.callables.action e.action = some action ∧
      validateFixedAction action d.resource module.callables.cellTypes = .ok () ∧
      staged.lookup e.action = some (action.body.cellBindings.map rebind) := by
  obtain ⟨exports, -, -, -, hexports, -, -, rfl⟩ := stage_cases h
  obtain ⟨hstaged, hall⟩ := staged_of_foldlM hexports
  exact fun e he ↦ hstaged _ (hall e he)

/-- The pass, as one step of the module. -/
theorem bindArtifactPolicy_run (d : ArtifactDeclaration) (module : IrModule) :
    (bindArtifactPolicy d).run.run module =
      match stage d module with
      | .error e => (.error e, module)
      | .ok staged => (.ok (), module.commit d.resource staged) := by
  show (match stage d module with
    | .error e => (throw e : ExceptT CompileError (StateM IrModule) Unit)
    | .ok staged => set (module.commit d.resource staged)).run.run module = _
  cases stage d module <;> rfl

/-- The exported action of a name is the one that was checked. -/
theorem IrAction.eq_of_callables {action' : IrAction}
    (h : module.callables.action name = some action') (hmem : action ∈ module.actions)
    (hname : action.name = name) : action = action' := by
  have hmem' : action' ∈ module.actions := mem_reverse.1 (mem_of_find?_eq_some h)
  have hname' : action'.name = name := by simpa using find?_some h
  exact List.inj_on_of_nodup_map module.nodup hmem hmem' (hname.trans hname'.symm)

/-- **The exported actions of the bound module are planned.** -/
theorem planned_of_stage (h : stage d module = .ok staged) {e : ArtifactAction} (he : e ∈ d.actions)
    (hmem : action ∈ (module.commit d.resource staged).actions)
    (hname : action.name = e.action) : Planned action := by
  obtain ⟨action', haction', hvalid, hlookup⟩ := stage_ok h e he
  rw [IrModule.actions, IrModule.commit, filterMap_action_commit] at hmem
  obtain ⟨action₀, hmem₀, rfl⟩ := mem_map.1 hmem
  rw [IrAction.name_commit] at hname
  obtain rfl := IrAction.eq_of_callables haction' hmem₀ hname
  obtain ⟨hfits, ⟨b, hb, hside⟩, haccounted, honce⟩ := validateFixedAction_ok hvalid
  rw [IrAction.commit, hname, hlookup]
  refine ⟨fun b hb ↦ ?_, ?_, fun side ↦ (haccounted side).rebind, honce.rebound _⟩
  · obtain ⟨b₀, hb₀, rfl⟩ := mem_map.1 hb
    exact (hfits b₀ hb₀).bound
  · refine ⟨rebind b, mem_map_of_mem hb, fun hdep ↦ hside ?_⟩
    rw [← side_rebind, hdep]
    rfl

end Module

end CellScript.GroupPolicy
