import CellScript.GroupPolicy.Emitted
import CellScript.Library.DepthSearch

/-!
# Policy calls are bounded

What an accepted policy says of the calls below its exported actions and common checks. The search
over the calls ends on every chain below a root, so that every callable it has met is bounded
(`Bounded`); the search over the common checks also computes the length of the longest chain. Every
execution of a call is then finite, by induction on the calls, the blocks and the instructions.
-/

namespace CellScript.GroupPolicy

open DepthSearch (Below)
open List

/-! ### The call relation -/

namespace Callables

/-- The retained body of a name. -/
def body (c : Callables) (f : String) : Option IrBody :=
  ((c.action f).map (·.body)).or ((c.helper f).map (·.body))

/-- No action and helper share a name: the checker has rejected duplicate symbols. -/
def Distinct (c : Callables) : Prop := ∀ f, c.action f = none ∨ c.helper f = none

/-- The retained callables that a body calls. -/
def callees (c : Callables) (body : IrBody) : List String :=
  (body.instructions.filterMap (·.function?)).filter fun f ↦ (c.body f).isSome

def Calls (c : Callables) (f g : String) : Prop := ∃ body, c.body f = some body ∧ g ∈ c.callees body

/-- The callables below a list of roots. -/
def Reached (c : Callables) (roots : List String) (f : String) : Prop :=
  ∃ root ∈ roots, TransGen c.Calls root f

theorem callee_eq_body {c : Callables} (h : c.Distinct) (f : String) : c.callee f = c.body f := by
  rw [callee, body]
  rcases h f with h | h <;> rw [h, map_none, Option.none_or, Option.or_none]

end Callables

/-- What holds of a callable in an accepted policy: it repeats no block and has no cells. -/
structure IrBody.Scalar (body : IrBody) : Prop where
  acyclic : ∀ id, ¬ TransGen (fun v w ↦ w ∈ body.next v) id id
  instructions : ∀ i ∈ body.instructions, lifecycleInstruction i = false
  cellBindings : body.cellBindings = []

/-- The calls below a callable end, and only meet bodies that were checked. -/
structure Bounded (c : Callables) (f : String) : Prop where
  below : ∃ n, Below c.Calls n f
  scalar : ∀ g, ReflTransGen c.Calls f g → ∃ body, c.body g = some body ∧ body.Scalar

variable {c : Callables} {f : String} {body : IrBody} {memo : List (String × ℕ)}

section Search

variable {owner : String} {visited visited' active : List String} {allowUnretained : Bool}

theorem validateBoundedBlock_ok {block : IrBlock}
    (h : validateBoundedBlock c f body block = .ok ()) :
    (∀ next ∈ successors block, block.id ∉ reachableBlocks body next none) ∧
      ∀ i ∈ block.instructions, lifecycleInstruction i = false := by
  rw [validateBoundedBlock] at h
  obtain ⟨hrepeat, h⟩ := guard_ok.1 h
  obtain ⟨-, h⟩ := guard_ok.1 h
  obtain ⟨-, h⟩ := guard_ok.1 h
  refine ⟨fun next hnext hback ↦ hrepeat (any_eq_true.2 ⟨next, hnext, decide_eq_true hback⟩),
    fun i hi ↦ ?_⟩
  have hsafe := forM_ok_iff.1 h i hi
  cases i <;> first | rfl | exact nomatch hsafe

theorem scalar_of_validateBoundedBody (h : validateBoundedBody c f body = .ok ()) :
    body.Scalar := by
  rw [validateBoundedBody] at h
  obtain ⟨hcells, h⟩ := guard_ok.1 h
  simp only [Bool.or_eq_true, not_or, not_eq_true, Bool.not_eq_false', List.isEmpty_iff] at hcells
  have hblocks := forM_ok_iff.1 h
  refine ⟨fun id hcycle ↦ ?_, fun i hi ↦ ?_, hcells.1.2⟩
  · obtain ⟨next, hnext, hback⟩ := Relation.TransGen.head'_iff.1 hcycle
    obtain ⟨block, hblock, rfl⟩ := mem_map.1 (body.mem_of_next id (ne_nil_of_mem hnext))
    rw [IrBody.next_of_mem hblock] at hnext
    exact (validateBoundedBlock_ok (hblocks block hblock)).1 next hnext
      (mem_reachableBlocks.2 hback)
  · obtain ⟨block, hblock, hi⟩ := mem_flatMap.1 hi
    exact (validateBoundedBlock_ok (hblocks block hblock)).2 i hi

theorem validateCallee_ok (h : validateCallee c owner f = .ok ()) (hbody : c.body f = some body) :
    body.Scalar := by
  rw [validateCallee] at h
  rw [Callables.body] at hbody
  cases haction : c.action f with
  | some callee =>
    simp only [haction] at h
    rw [haction] at hbody
    obtain rfl := some.inj hbody
    obtain ⟨-, h⟩ := guard_ok.1 h
    exact scalar_of_validateBoundedBody (check_ok.1 h).2
  | none =>
    rw [haction, map_none] at hbody
    obtain ⟨callee, hcallee, rfl⟩ := map_eq_some_iff.1 hbody
    simp only [haction, hcallee] at h
    exact scalar_of_validateBoundedBody (check_ok.1 h).2

/-- A callable is bounded if what it calls is. -/
theorem bounded_of_callees (hbody : c.body f = some body) (hscalar : body.Scalar)
    (h : ∀ g ∈ c.callees body, Bounded c g) : Bounded c f := by
  have hcalls : ∀ g, c.Calls f g → g ∈ c.callees body := by
    rintro g ⟨body', hbody', hg⟩
    rwa [mem_unique hbody hbody']
  refine ⟨DepthSearch.exists_below_of_forall_mem hcalls fun g hg ↦ (h g hg).below, fun g hg ↦ ?_⟩
  rcases hg.cases_head with rfl | ⟨g', hg', hg⟩
  · exact ⟨body, hbody, hscalar⟩
  · exact (h g' (hcalls g' hg')).scalar g hg

theorem Bounded.of_reflTransGen {g : String} (h : Bounded c f)
    (hg : ReflTransGen c.Calls f g) : Bounded c g := by
  refine ⟨?_, fun g' hg' ↦ h.scalar g' (hg.trans hg')⟩
  rcases Relation.reflTransGen_iff_eq_or_transGen.1 hg with rfl | hg
  · exact h.below
  · obtain ⟨n, hn⟩ := h.below
    obtain ⟨k, -, hk⟩ := hn.of_transGen hg
    exact ⟨k, hk⟩

/-- **The search ends on every chain of calls**, whatever is active. -/
theorem validateCalls_sound {instructions : List IrInstruction} (hdistinct : c.Distinct)
    (h : validateCalls c instructions owner allowUnretained visited active = .ok visited')
    (hvisited : ∀ g ∈ visited, Bounded c g) :
    (∀ g ∈ visited', Bounded c g) ∧
      ∀ g ∈ instructions.filterMap (·.function?), (c.body g).isSome → Bounded c g := by
  fun_induction validateCalls generalizing visited' with
  | case1 => exact ⟨ok.inj h ▸ hvisited, nofun⟩
  | case2 _ _ _ _ _ _ hnone ih =>
    rw [filterMap_cons, hnone]
    exact ih h hvisited
  | case3 => exact nomatch h
  | case4 _ _ _ _ _ _ f hf hcallee _ ih =>
    rw [filterMap_cons, hf, forall_mem_cons]
    rw [Callables.callee_eq_body hdistinct] at hcallee
    obtain ⟨hend, hrest⟩ := ih h hvisited
    exact ⟨hend, fun hsome ↦ absurd hsome (by rw [hcallee]; exact nofun), hrest⟩
  | case5 _ _ _ _ _ _ f hf body hcallee ih hbody ihrest =>
    rw [Callables.callee_eq_body hdistinct] at hcallee
    obtain ⟨hchecked, h⟩ := check_ok.1 h
    rw [filterMap_cons, hf, forall_mem_cons]
    split at h
    · exact nomatch h
    next hactive =>
    split at h
    · next hold =>
      obtain ⟨hend, hrest⟩ := ih h hvisited
      exact ⟨hend, fun _ ↦ hvisited f hold, hrest⟩
    · obtain ⟨visited₁, hcalls, h⟩ := bind_ok.1 h
      obtain ⟨hvisited₁, hcallees⟩ := hbody hactive hcalls hvisited
      have hf : Bounded c f := bounded_of_callees hcallee (validateCallee_ok hchecked hcallee)
        fun g hg ↦ hcallees g (mem_of_mem_filter hg) (mem_filter.1 hg).2
      obtain ⟨hend, hrest⟩ := ihrest visited₁ h (forall_mem_cons.2 ⟨hf, hvisited₁⟩)
      exact ⟨hend, fun _ ↦ hf, hrest⟩

/-! ### The depth of the common checks -/

/-- A depth that counts the bodies on every chain of calls. -/
def Deep (c : Callables) (f : String) (depth : ℕ) : Prop := ∃ k, depth = k + 1 ∧ Below c.Calls k f

/-- The known depths are right, and a depth leaves room for the active callables. -/
structure Depths (c : Callables) (active : List String) (x : ℕ × List (String × ℕ)) : Prop where
  known : ∀ f d, x.2.lookup f = some d → Deep c f d
  pos : 1 ≤ x.1
  fits : x.1 + active.length ≤ maxCommonCallDepth

/-- **The depth of a callable counts the bodies of every chain below it**, and the chain that leads
to it leaves room for them. -/
theorem validateCommonCallDepth_sound {room : ℕ} {x : ℕ × List (String × ℕ)}
    (hbody : c.body owner = some body) (hroom : room + active.length = maxCommonCallDepth)
    (hmemo : ∀ f d, memo.lookup f = some d → Deep c f d)
    (h : validateCommonCallDepth c room body owner active memo = .ok x) :
    Depths c active x ∧ Deep c owner x.1 := by
  fun_induction validateCommonCallDepth generalizing x with
  | case1 => exact nomatch h
  | case2 => exact nomatch h
  | case3 _ body owner active memo _ d hd hfit =>
    obtain rfl := ok.inj h
    obtain ⟨k, rfl, hk⟩ := hmemo owner d hd
    exact ⟨⟨hmemo, Nat.succ_pos k, by omega⟩, k, rfl, hk⟩
  | case4 => exact nomatch h
  | case5 => exact nomatch h
  | case6 body owner active memo _ _ room =>
    rename_i ih
    obtain ⟨⟨longest, memo₁⟩, hfold, h⟩ := bind_ok.1 h
    obtain rfl := pure_ok.1 h
    refine And.elim (fun hdepths hcallees ↦ ?_) (Except.foldlM_induction (I := Depths c active)
      (P := fun f x ↦ (c.body f).isSome → ∃ k, k + 2 ≤ x.1 ∧ Below c.Calls k f)
      (fun x f x' _ hx hstep ↦ ?_) hfold ⟨hmemo, le_refl 1, by omega⟩)
    · have howner : Below c.Calls (longest - 1) owner := by
        refine DepthSearch.below_of_forall ?_
        rintro g ⟨body', hbody', hg⟩
        obtain rfl := mem_unique hbody hbody'
        obtain ⟨k, hk, hbelow⟩ := hcallees.1 g (mem_of_mem_filter hg) (mem_filter.1 hg).2
        exact ⟨k, by omega, hbelow⟩
      have hpos : 1 ≤ longest := hdepths.pos
      have hdeep : Deep c owner longest := ⟨longest - 1, by omega, howner⟩
      refine ⟨⟨fun f d hd ↦ ?_, hpos, hdepths.fits⟩, hdeep⟩
      rw [lookup_cons] at hd
      split at hd
      · next heq =>
        obtain rfl := some.inj hd
        exact eq_of_beq heq ▸ hdeep
      · exact hdepths.known f d hd
    · dsimp only at hstep
      split at hstep
      · next hnone =>
        obtain rfl := ok.inj hstep
        exact ⟨hx, fun hsome ↦ absurd hsome (by rw [show c.body f = none from hnone]; exact nofun),
          fun _ hb ↦ hb⟩
      · next callee hcallee =>
        obtain ⟨⟨depth, memo₂⟩, hdepth, hstep⟩ := bind_ok.1 hstep
        obtain rfl := pure_ok.1 hstep
        obtain ⟨hdepths, k, rfl, hk⟩ := ih f x.2 callee hcallee (by rw [length_cons]; omega)
          hx.known hdepth
        have hfits := hdepths.fits
        have hfits' := hx.fits
        rw [length_cons] at hfits
        refine ⟨⟨hdepths.known, ?_, ?_⟩, fun _ ↦ ⟨k, ?_, hk⟩, fun g hg hsome ↦ ?_⟩
        · exact le_max_of_le_left hx.pos
        · rw [← Nat.add_max_add_right]
          exact max_le hfits' (by omega)
        · omega
        · obtain ⟨j, hj, hbelow⟩ := hg hsome
          exact ⟨j, le_max_of_le_left hj, hbelow⟩

end Search

/-! ### Executions -/

/-- A body that is executed: what is left of one of its blocks. -/
structure Frame where
  body : IrBody
  rest : List IrInstruction
  block : IrBlock

def IrBody.enter (body : IrBody) (block : IrBlock) : Frame := ⟨body, block.instructions, block⟩

/-- The stacks after one step, whatever the data are. An execution may also end before, with a
failure. -/
def steps (c : Callables) : List Frame → List (List Frame)
  | [] => []
  | ⟨body, i :: rest, block⟩ :: stack =>
    match i.function?.bind c.body with
    | none => [⟨body, rest, block⟩ :: stack]
    | some callee => callee.blocks.head?.toList.map (callee.enter · :: ⟨body, rest, block⟩ :: stack)
  | ⟨body, [], block⟩ :: stack =>
    if block.returns then [stack]
    else (successors block).filterMap fun id ↦ (body.block id).map (body.enter · :: stack)

section Executions

variable {block entry : IrBlock} {rest : List IrInstruction} {stack : List Frame}

/-- There is a bound on the steps from a stack. -/
def Halts (c : Callables) (stack : List Frame) : Prop :=
  ∃ n, Below (fun s t ↦ t ∈ steps c s) n stack

/-- The steps of a frame come to an end, and those of the frames below it can go on. -/
def Returns (c : Callables) (frame : Frame) : Prop :=
  ∀ stack, Halts c stack → Halts c (frame :: stack)

theorem halts_of_steps (h : ∀ t ∈ steps c stack, Halts c t) : Halts c stack :=
  DepthSearch.exists_below_of_forall_mem (fun _ ht ↦ ht) h

/-- A block returns if its calls and its successors do. -/
theorem returns_of_next (hcalls : ∀ g ∈ rest.filterMap (·.function?), ∀ callee,
      c.body g = some callee → ∀ entry ∈ callee.blocks.head?, Returns c (callee.enter entry))
    (hnext : ∀ id ∈ successors block, ∀ b, body.block id = some b → Returns c (body.enter b)) :
    Returns c ⟨body, rest, block⟩ := by
  intro stack hstack
  induction rest with
  | nil =>
    refine halts_of_steps fun t ht ↦ ?_
    rw [steps] at ht
    split at ht
    · exact mem_singleton.1 ht ▸ hstack
    · obtain ⟨id, hid, ht⟩ := mem_filterMap.1 ht
      obtain ⟨b, hb, rfl⟩ := map_eq_some_iff.1 ht
      exact hnext id hid b hb stack hstack
  | cons i rest ih =>
    have hrest := ih fun g hg ↦ hcalls g (filterMap_subset _ (subset_cons_self i rest) hg)
    refine halts_of_steps fun t ht ↦ ?_
    rw [steps] at ht
    split at ht
    · exact mem_singleton.1 ht ▸ hrest
    · next callee hcallee =>
      obtain ⟨entry, hentry, rfl⟩ := mem_map.1 ht
      obtain ⟨g, hg, hcallee⟩ := bind_eq_some_iff.1 hcallee
      exact hcalls g (mem_filterMap.2 ⟨i, mem_cons_self, hg⟩) callee hcallee entry
        (Option.mem_toList.1 hentry) _ hrest

/-- **A call to a bounded callable returns.** -/
theorem Bounded.returns (h : Bounded c f) (hbody : c.body f = some body)
    (hentry : entry ∈ body.blocks.head?) : Returns c (body.enter entry) := by
  obtain ⟨⟨n, hn⟩, hscalar⟩ := h
  -- by induction on the calls, and for each body on its blocks
  refine hn.induction (P := fun f ↦ (∀ g, ReflTransGen c.Calls f g →
    ∃ body, c.body g = some body ∧ body.Scalar) → ∀ body, c.body f = some body →
    ∀ entry ∈ body.blocks.head?, Returns c (body.enter entry))
    (fun f ih hscalar body hbody entry hentry ↦ ?_) hscalar body hbody entry hentry
  obtain ⟨body', hbody', hacyclic, -⟩ := hscalar f .refl
  obtain rfl := mem_unique hbody hbody'
  have htargets : ∀ v w, w ∈ body.next v → w ∈ body.blocks.flatMap successors := by
    intro v w hw
    obtain ⟨b, hb, rfl⟩ := mem_map.1 (body.mem_of_next v (ne_nil_of_mem hw))
    exact mem_flatMap.2 ⟨b, hb, IrBody.next_of_mem hb ▸ hw⟩
  refine (DepthSearch.below_of_acyclic htargets hacyclic entry.id).induction
    (P := fun id ↦ ∀ b, body.block id = some b → Returns c (body.enter b))
    (fun id ihblock b hb ↦ returns_of_next (fun g hg callee hcallee ↦ ?_) fun id' hid' ↦
      ihblock id' ?_) entry (IrBody.block_of_mem (mem_of_head? hentry))
  · have hcalls : c.Calls f g := by
      refine ⟨body, hbody, mem_filter.2 ⟨filterMap_subset _ ?_ hg, by rw [hcallee]; rfl⟩⟩
      exact fun i hi ↦ mem_flatMap.2 ⟨b, mem_of_find?_eq_some hb, hi⟩
    exact ih g hcalls (fun g' hg' ↦ hscalar g' (.head hcalls hg')) callee hcallee
  · rwa [IrBody.next, hb]

end Executions

/-! ### Accepted policies -/

/-- The exported actions and the common checks. -/
def ArtifactDeclaration.roots (d : ArtifactDeclaration) : List String :=
  d.actions.map (·.action) ++ d.commonChecks

section Accepted

variable {d : ArtifactDeclaration} {module : IrModule} {name : String} {action : IrAction}

theorem body_of_action (h : c.action name = some action) : c.body name = some action.body := by
  rw [Callables.body, h]
  rfl

/-- The calls of every entry are bounded. -/
theorem validateEntryCalls_sound {entries : List (String × Bool)} {visited : List String}
    (hdistinct : c.Distinct) (h : entries.foldlM (validateEntryCalls c) [] = .ok visited) :
    ∀ entry ∈ entries, ∀ g, c.Calls entry.1 g → Bounded c g := by
  refine (Except.foldlM_induction (I := fun visited ↦ ∀ g ∈ visited, Bounded c g)
    (P := fun entry _ ↦ ∀ g, c.Calls entry.1 g → Bounded c g)
    (fun visited entry visited' _ hvisited hstep ↦ ?_) h nofun).2.1
  rw [validateEntryCalls] at hstep
  split at hstep
  · exact nomatch hstep
  next action haction =>
  obtain ⟨hvisited', hcalls⟩ := validateCalls_sound hdistinct hstep hvisited
  refine ⟨hvisited', ?_, fun _ hb ↦ hb⟩
  rintro g ⟨body, hbody, hg⟩
  obtain rfl := mem_unique (body_of_action haction) hbody
  exact hcalls g (mem_of_mem_filter hg) (mem_filter.1 hg).2

/-- The chains of calls from every common check are short. -/
theorem validateCommonName_sound {exports common : List String}
    (h : d.commonChecks.foldlM (validateCommonName c exports) ([], []) = .ok (common, memo)) :
    ∀ name ∈ d.commonChecks, name ∈ common ∧ Below c.Calls (maxCommonCallDepth - 1) name := by
  refine (Except.foldlM_induction
    (I := fun x ↦ ∀ f depth, x.2.lookup f = some depth → Deep c f depth)
    (P := fun name x ↦ name ∈ x.1 ∧ Below c.Calls (maxCommonCallDepth - 1) name)
    (fun x name x' _ hx hstep ↦ ?_) h nofun).2.1
  rw [validateCommonName] at hstep
  obtain ⟨-, hstep⟩ := guard_ok.1 hstep
  split at hstep
  · exact nomatch hstep
  next action haction =>
  obtain ⟨-, hstep⟩ := check_ok.1 hstep
  obtain ⟨⟨depth, memo⟩, hdepth, hstep⟩ := bind_ok.1 hstep
  obtain rfl := pure_ok.1 hstep
  have hname : action.name = name := by simpa using find?_some haction
  obtain ⟨hdepths, k, rfl, hk⟩ :=
    validateCommonCallDepth_sound (hname ▸ body_of_action haction) rfl hx hdepth
  have hfits : k + 1 ≤ maxCommonCallDepth := hdepths.fits
  exact ⟨hdepths.known, ⟨mem_cons_self, hname ▸ hk.mono (by omega)⟩,
    fun name hname ↦ ⟨mem_cons_of_mem _ hname.1, hname.2⟩⟩

/-- **The calls of an accepted policy are bounded.** They form no cycle, what they reach repeats no
block and touches no cell, every chain from a common check has at most 256 bodies, and there is a
bound on the steps of every execution of a call. -/
theorem bindArtifactPolicy_bounds_calls (module' : IrModule) (hdistinct : module.callables.Distinct)
    (h : (bindArtifactPolicy d).run.run module = (.ok (), module')) :
    (∀ f, f ∈ d.roots ∨ module.callables.Reached d.roots f →
      ¬ TransGen module.callables.Calls f f) ∧
    (∀ f, module.callables.Reached d.roots f → ∃ body, module.callables.body f = some body ∧
      body.Scalar ∧ ∀ entry ∈ body.blocks.head?, ∃ n, ∀ run,
        ([body.enter entry] :: run).IsChain (fun s t ↦ t ∈ steps module.callables s) →
          run.length ≤ n) ∧
    ∀ name ∈ d.commonChecks, ∀ chain, (name :: chain).IsChain module.callables.Calls →
      (name :: chain).length ≤ 256 := by
  rw [bindArtifactPolicy_run] at h
  split at h
  · exact nomatch h
  next staged hstage =>
  obtain ⟨exports, common, memo, visited, hexports, hcommon, hvisited, -⟩ := stage_cases hstage
  have hdepth := validateCommonName_sound hcommon
  have hentries := validateEntryCalls_sound hdistinct hvisited
  have hroots : ∀ root ∈ d.roots, ∀ g, module.callables.Calls root g →
      Bounded module.callables g := by
    intro root hroot
    rcases mem_append.1 hroot with hroot | hroot
    · obtain ⟨e, he, rfl⟩ := mem_map.1 hroot
      exact hentries (e.action, true) (mem_append_left _ (mem_map_of_mem
        (mem_insertionSort _ |>.2 ((staged_of_foldlM hexports).2 e he))))
    · exact hentries (root, false) (mem_append_right _ (mem_map_of_mem
        (mem_insertionSort _ |>.2 (hdepth root hroot).1)))
  have hreached : ∀ f, module.callables.Reached d.roots f → Bounded module.callables f := by
    rintro f ⟨root, hroot, hcalls⟩
    obtain ⟨g, hg, hcalls⟩ := Relation.TransGen.head'_iff.1 hcalls
    exact (hroots root hroot g hg).of_reflTransGen hcalls
  refine ⟨fun f hf hcycle ↦ ?_, fun f hf ↦ ?_, fun name hname chain hchain ↦ ?_⟩
  · -- what is on a cycle with a root is below it
    have hf : Bounded module.callables f := hreached f (hf.elim (⟨f, ·, hcycle⟩) id)
    obtain ⟨n, hn⟩ := hf.below
    exact hn.not_transGen_self hcycle
  · obtain ⟨body, hbody, hscalar⟩ := (hreached f hf).scalar f .refl
    refine ⟨body, hbody, hscalar, fun entry hentry ↦ ?_⟩
    obtain ⟨n, hn⟩ := (hreached f hf).returns hbody hentry [] ⟨0, nofun⟩
    exact ⟨n, fun run hrun ↦ hn.length_le hrun⟩
  · exact Nat.succ_le_succ ((hdepth name hname).2.length_le hchain)

end Accepted

section Sample

/-- A body of one block that touches no cells. -/
def plainBody (instructions : List IrInstruction) : IrBody where
  cellBindings := []
  consumeSet := []
  createSet := []
  mutateSet := []
  writeIntents := []
  boundedCollectionOps := []
  blocks := [⟨0, instructions, .ret none, none⟩]
  nodup := nodup_singleton 0

/-- A common check that calls a helper. -/
def callingModule : IrModule where
  items := sampleModule.items ++ [.action ⟨"check", none, [], none,
    plainBody [.call none (.function "helper") []]⟩, .function ⟨"helper", [], none, plainBody []⟩]
  externalTypeDefs := []
  externalCallableAbis := []
  nodup := by decide

def callingDeclaration : ArtifactDeclaration := { sampleDeclaration with commonChecks := ["check"] }

theorem stage_calling : ∃ staged, stage callingDeclaration callingModule = .ok staged := by
  have hentries : (stageActions callingDeclaration callingModule).toOption.any
      (·.2 = [("transfer", true), ("check", false)]) := by
    decide +kernel
  obtain ⟨⟨staged, entries⟩, hactions, hentries⟩ := exists_of_toOption_any hentries
  obtain rfl : entries = [("transfer", true), ("check", false)] := of_decide_eq_true hentries
  have htransfer : validateEntryCalls callingModule.callables [] ("transfer", true) = .ok [] :=
    validateCalls_of_forall (by decide) "transfer" true [] []
  have hcallee : callingModule.callables.callee "helper" = some (plainBody []) := rfl
  have hvalid : validateCallee callingModule.callables "check" "helper" = .ok () := by
    decide +kernel
  have hcheck : validateEntryCalls callingModule.callables [] ("check", false) =
      .ok ["helper"] := by
    show validateCalls _ [.call none (.function "helper") []] "check" false [] [] = _
    rw [validateCalls]
    simp only [IrInstruction.function?]
    split
    · next hnone => cases hcallee.symm.trans hnone
    next body hbody =>
    obtain rfl := mem_unique hcallee hbody
    rw [hvalid, ok_bind, dif_neg not_mem_nil, if_neg not_mem_nil,
      validateCalls_of_forall (by decide), ok_bind, validateCalls]
  refine ⟨staged, ?_⟩
  rw [stage, hactions]
  show ([("transfer", true), ("check", false)].foldlM (validateEntryCalls callingModule.callables)
    [] >>= fun _ ↦ .ok staged) = Except.ok staged
  rw [foldlM_cons, htransfer, ok_bind, foldlM_cons, hcheck]
  rfl

end Sample

/-- The helper of the sample is reached, and does not call itself. -/
theorem bindArtifactPolicy_bounds_calls_helper :
    ∃ module', (bindArtifactPolicy callingDeclaration).run.run callingModule = (.ok (), module') ∧
      callingModule.callables.Reached callingDeclaration.roots "helper" ∧
      ¬ TransGen callingModule.callables.Calls "helper" "helper" := by
  obtain ⟨staged, hstage⟩ := stage_calling
  have hrun : (bindArtifactPolicy callingDeclaration).run.run callingModule
      = (.ok (), callingModule.commit "Token" staged) := by
    rw [bindArtifactPolicy_run, hstage]
    rfl
  have hdistinct : callingModule.callables.Distinct := by
    intro f
    rcases eq_or_ne f "helper" with rfl | hne
    · exact .inl rfl
    · right
      show [IrFunction.mk "helper" [] none (plainBody [])].find? (·.name = f) = none
      simpa using hne.symm
  have hreached : callingModule.callables.Reached callingDeclaration.roots "helper" :=
    ⟨"check", by decide, .single ⟨_, rfl, by decide⟩⟩
  exact ⟨_, hrun, hreached, (bindArtifactPolicy_bounds_calls _ hdistinct hrun).1 "helper"
    (.inr hreached)⟩

end CellScript.GroupPolicy
