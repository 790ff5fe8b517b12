import CellScript.Effects.Resolved

/-!
# The inferred facts are those of the paths of calls

A fact that an evaluation gives is reached along a path (`reached_of_solve`), since one call more is
a path longer by one. At the end every callable satisfies its equation, so that every path has its
facts in the result (`has_of_path`). Nothing in the checks or in an evaluation depends on the order
of the calls, which is the last part of the main theorem.
-/

namespace CellScript.Effects

open EffectFacts

namespace ResolvedFactGraph

variable {graph : ResolvedFactGraph} {budgets : InferenceBudgets} {id a : CallableId}
  {node last node' : ResolvedCallable} {calls : List ResolvedCall}
  {contracts : CallableId → EffectFacts} {fact known : Fact} {inferred : InferredFactContracts}
  {facts : EffectFacts} {operation : LifecycleOperation}

theorem mem_ids : id ∈ graph.ids ↔ ∃ node, graph.nodes.find? id = some node :=
  (List.mem_insertionSort _).trans KeyedMap.mem_keys_iff

theorem nodup_ids : graph.ids.Nodup :=
  (perm_insertionSort _ _).nodup_iff.2 graph.nodes.nodup

/-- What the checks of a graph establish. -/
def Checked (graph : ResolvedFactGraph) : Prop :=
  ∀ id node, graph.nodes.find? id = some node → node.direct.validate = .ok ()

/-- The stages of a successful inference. -/
theorem infer_ok (h : graph.infer budgets = .ok inferred) :
    graph.Checked ∧ ∃ contracts,
      graph.equations.solve budgets.maxSteps graph.directFacts graph.ids = .ok contracts ∧
        inferred = ⟨graph.ids.map fun id ↦ (id, contracts id)⟩ := by
  rw [infer, guard_ok] at h
  replace h := h.2
  obtain ⟨counts, hcounts, h⟩ := bind_ok.1 h
  obtain ⟨contracts, hcontracts, h⟩ := bind_ok.1 h
  refine ⟨fun id node hnode ↦ ?_, contracts, hcontracts, (pure_ok.1 h).symm⟩
  obtain ⟨counts, counts', hstep⟩ := Except.exists_step_of_foldlM hcounts
    (mem_filterMap.2 ⟨id, mem_ids.2 ⟨node, hnode⟩, hnode⟩)
  exact mapError_ok_iff.1 (check_ok.1 hstep).1

/-! ### Soundness -/

/-- Facts of a callee are reached with one call more. -/
theorem Reached.carried {call : ResolvedCall} (h : graph.Reached call.target known)
    (hnode : graph.nodes.find? id = some node) (hcall : call ∈ node.calls)
    (hcarries : call.Carries known fact) : graph.Reached id fact := by
  obtain ⟨calls, last, first, hpath, hfirst, hback⟩ := h
  exact ⟨call :: calls, last, first, .call hnode hcall hpath, hfirst, known, hback, hcarries⟩

theorem carriesBack_lifecycle :
    CarriesBack calls known (.lifecycle operation) ↔ known = .lifecycle operation := by
  induction calls with
  | nil => exact eq_comm
  | cons call calls ih =>
    have hcarries : ∀ middle, call.Carries middle (.lifecycle operation) ↔
        middle = .lifecycle operation := by
      intro middle
      cases middle with
      | read read =>
        obtain ⟨source, access⟩ := read
        cases source <;> simp [ResolvedCall.Carries]
      | _ => exact eq_comm
    simp only [CarriesBack, hcarries, exists_eq_right, ih]

/-- The direct facts have the constituents of their operations. -/
theorem Reached.constituent {required : LifecycleOperation} (hchecked : graph.Checked)
    (h : graph.Reached id (.lifecycle operation))
    (hrequired : required ∈ (lifecycle operation).lifecycleOps) :
    graph.Reached id (.lifecycle required) := by
  obtain ⟨calls, last, known, hpath, hknown, hback⟩ := h
  obtain rfl := carriesBack_lifecycle.1 hback
  have hlast : ∃ id', graph.nodes.find? id' = some last := by
    clear hback
    induction hpath with
    | last hnode => exact ⟨_, hnode⟩
    | call _ _ _ ih => exact ih hknown
  obtain ⟨id', hlast⟩ := hlast
  exact ⟨calls, last, .lifecycle required, hpath,
    has_of_validate (hchecked id' last hlast) hknown hrequired,
    carriesBack_lifecycle.2 rfl⟩

/-- **An evaluation gives facts that are reached**, if the values it reads are. -/
theorem reached_of_evaluate (hchecked : graph.Checked)
    (hcontracts : ∀ id fact, (contracts id).Has fact → graph.Reached id fact)
    (h : graph.evaluate contracts id = .ok facts) (hfact : facts.Has fact) :
    graph.Reached id fact := by
  cases hnode : graph.nodes.find? id with
  | none =>
    simp only [evaluate, hnode] at h
    obtain rfl := ok.inj h
    exact absurd hfact (not_empty_has fact)
  | some node =>
    obtain hdirect | ⟨call, hcall, hbrings⟩ := (has_evaluate hnode h).1 hfact
    · exact ⟨[], node, fact, .last hnode, hdirect, rfl⟩
    · obtain ⟨operation, hoperation, hmade⟩ | ⟨operation, hoperation, rfl⟩ |
        ⟨read, hread, hcarries⟩ :=
        hbrings
      · have hreached := hcontracts call.target (.lifecycle operation) hoperation
        cases fact with
        | lifecycle required =>
          exact (hreached.constituent hchecked hmade).carried hnode hcall rfl
        | _ => exact absurd hmade not_mem_nil
      · exact (hcontracts call.target (.process operation) hoperation).carried hnode hcall rfl
      · exact (hcontracts call.target (.read read) hread).carried hnode hcall hcarries

theorem reached_of_solve {steps : ℕ} {queue : List CallableId} (hchecked : graph.Checked)
    (h : graph.equations.solve steps graph.directFacts queue = .ok contracts)
    (hfact : (contracts id).Has fact) : graph.Reached id fact := by
  refine Equations.solve_induction
    (fun contracts _ ↦ ∀ id fact, (contracts id).Has fact → graph.Reached id fact)
    (fun values a queue value queue' hvalues hvalue _ id fact hfact ↦ ?_)
    (fun id fact hfact ↦ ?_) h id fact hfact
  · by_cases hid : id = a
    · subst hid
      rw [Function.update_self] at hfact
      exact reached_of_evaluate hchecked hvalues hvalue hfact
    · rw [Function.update_of_ne hid] at hfact
      exact hvalues id fact hfact
  · unfold directFacts at hfact
    cases hnode : graph.nodes.find? id with
    | none =>
      rw [hnode] at hfact
      exact absurd hfact (not_empty_has fact)
    | some node =>
      rw [hnode] at hfact
      exact ⟨[], node, fact, .last hnode, hfact, rfl⟩

/-! ### Completeness -/

/-- An evaluation reads the facts of the callees only. -/
theorem evaluate_update {value : EffectFacts} (hnot : id ∉ graph.parents a)
    (h : graph.evaluate contracts id = .ok facts) :
    graph.evaluate (Function.update contracts a value) id = .ok facts := by
  unfold evaluate at h ⊢
  split at h
  · exact h
  · next node hnode =>
    have htargets : ∀ call ∈ node.calls, call.target ≠ a := by
      simpa [parents, mem_ids, hnode] using hnot
    refine Except.foldlM_of_forall₂ (R := fun call call' ↦ call' = call ∧ call.target ≠ a)
      (forall₂_same.2 fun call hcall ↦ ⟨rfl, htargets call hcall⟩) ?_ h
    rintro facts call _ facts' ⟨rfl, hne⟩ hstep
    rwa [Function.update_of_ne hne]

/-- **Every path has its facts in values that satisfy the equations.** -/
theorem has_of_path (hsettled : ∀ id ∈ graph.ids, graph.evaluate contracts id = .ok (contracts id))
    (hpath : graph.CallPath id calls last) (hknown : last.direct.Has known)
    (hback : CarriesBack calls known fact) : (contracts id).Has fact := by
  induction hpath generalizing fact with
  | last hnode =>
    obtain rfl : fact = known := hback
    exact (has_evaluate hnode (hsettled _ (mem_ids.2 ⟨_, hnode⟩))).2 (.inl hknown)
  | call hnode hcall _ ih =>
    obtain ⟨middle, hback, hcarries⟩ := hback
    exact (has_evaluate hnode (hsettled _ (mem_ids.2 ⟨_, hnode⟩))).2
      (.inr ⟨_, hcall, ResolvedCall.brings_of_carries (ih hknown hback) hcarries⟩)

/-! ### The order of calls and of insertion -/

/-- The same callable, with its calls in another order. -/
def SameCalls (node node' : ResolvedCallable) : Prop :=
  ∃ calls, node.calls.Perm calls ∧ node' = { node with calls := calls }

/-- The same callables. -/
def Reordered (graph graph' : ResolvedFactGraph) : Prop :=
  ∀ id, graph.nodes.find? id = none ∧ graph'.nodes.find? id = none ∨ ∃ node node',
    graph.nodes.find? id = some node ∧ graph'.nodes.find? id = some node' ∧ SameCalls node node'

/-- What an argument counts. -/
def bindings : ArgumentSources → ℕ
  | .value => 1
  | .sources sources => 1 + sources.elements.length

def ArgumentOk (node : ResolvedCallable) : ArgumentSources → Prop
  | .value => True
  | .sources sources => sources.elements ≠ [] ∧
      ∀ source ∈ sources.elements, validateParameter node source = .ok ()

section Order

variable {graph' : ResolvedFactGraph} {call b : ResolvedCall} {count count' : ℕ}
  {counts counts' counts₁ : ℕ × ℕ} {arguments : List ArgumentSources}
  {callables : List ResolvedCallable}

theorem checkArgument_ok_iff {argument : ArgumentSources} :
    checkArgument budgets node call count argument = .ok count' ↔
      ArgumentOk node argument ∧ count' = count + bindings argument ∧
        count' ≤ budgets.maxArgumentBindings := by
  unfold checkArgument
  cases argument with
  | value =>
    simp only [guard_ok, pure_ok, ArgumentOk, bindings]
    grind
  | sources sources =>
    simp only [guard_ok, check_ok, forM_ok_iff, pure_ok, ArgumentOk, bindings]
    grind

theorem checkArguments_ok_iff :
    arguments.foldlM (checkArgument budgets node call) count = .ok count' ↔
      (∀ argument ∈ arguments, ArgumentOk node argument) ∧
        count' = count + (arguments.map bindings).sum ∧
          (arguments = [] ∨ count' ≤ budgets.maxArgumentBindings) := by
  induction arguments generalizing count with
  | nil =>
    rw [List.foldlM_nil, pure_ok]
    simp [eq_comm]
  | cons argument arguments ih =>
    rw [foldlM_cons, bind_ok]
    simp only [checkArgument_ok_iff, ih, forall_mem_cons, map_cons, List.sum_cons]
    constructor
    · rintro ⟨middle, ⟨hok, rfl, hle⟩, hrest, rfl, hbound⟩
      refine ⟨⟨hok, hrest⟩, by omega, .inr ?_⟩
      obtain rfl | hbound := hbound
      · simpa using hle
      · exact hbound
    · rintro ⟨⟨hok, hrest⟩, rfl, hbound⟩
      have hbound := hbound.resolve_left (cons_ne_nil _ _)
      exact ⟨_, ⟨hok, rfl, by omega⟩, hrest, by omega, .inr hbound⟩

theorem checkCall_ok_iff :
    graph.checkCall budgets node counts call = .ok counts' ↔
      counts.1 + 1 ≤ budgets.maxCalls ∧
      (∃ target, graph.nodes.find? call.target = some target ∧
        call.arguments.length = target.parameterCount) ∧
      (∀ argument ∈ call.arguments, ArgumentOk node argument) ∧
      (call.arguments = [] ∨
        counts.2 + (call.arguments.map bindings).sum ≤ budgets.maxArgumentBindings) ∧
      counts' = (counts.1 + 1, counts.2 + (call.arguments.map bindings).sum) := by
  rw [checkCall, guard_ok, not_lt]
  refine and_congr_right fun _ ↦ ?_
  cases graph.nodes.find? call.target with
  | none => simp
  | some target =>
    simp only [guard_ok, bind_ok, checkArguments_ok_iff, pure_ok, not_not,
      some.injEq, exists_eq_left']
    grind

/-- Two calls may be checked in either order. -/
theorem checkCall_swap {a : ResolvedCall} (ha : graph.checkCall budgets node counts a = .ok counts₁)
    (hb : graph.checkCall budgets node counts₁ b = .ok counts') :
    ∃ counts₂, graph.checkCall budgets node counts b = .ok counts₂ ∧
      graph.checkCall budgets node counts₂ a = .ok counts' := by
  simp only [checkCall_ok_iff] at ha hb ⊢
  obtain ⟨hcalls, htarget, hok, hbound, rfl⟩ := ha
  obtain ⟨hcalls', htarget', hok', hbound', rfl⟩ := hb
  refine ⟨_, ⟨hcalls, htarget', hok', hbound'.imp_right ?_, rfl⟩, hcalls', htarget, hok, ?_, ?_⟩
  · omega
  · obtain hnil | hbound' := hbound'
    · simpa [hnil] using hbound
    · right
      omega
  · rw [add_right_comm counts.2]

variable (hgraph : graph.Reordered graph')

include hgraph

/-- The checks do not depend on the order of the calls. -/
theorem checkNode_of_sameCalls
    (hnode : SameCalls node node') (h : graph.checkNode budgets counts node = .ok counts') :
    graph'.checkNode budgets counts node' = .ok counts' := by
  obtain ⟨calls, hperm, rfl⟩ := hnode
  obtain ⟨hvalid, h⟩ := check_ok.1 h
  obtain ⟨hreads, h⟩ := check_ok.1 h
  refine check_ok.2 ⟨hvalid, check_ok.2 ⟨hreads, ?_⟩⟩
  have h := Except.foldlM_of_perm hperm (fun counts a b _ _ ↦ checkCall_swap (a := a) (b := b)) h
  refine Except.foldlM_of_forall₂ (R := Eq) (forall₂_same.2 fun _ _ ↦ rfl) ?_ h
  rintro counts call _ counts' rfl hcall
  rw [checkCall_ok_iff] at hcall ⊢
  obtain ⟨hcalls, ⟨target, htarget, harity⟩, hrest⟩ := hcall
  obtain ⟨hnone, -⟩ | ⟨target₁, _, h₁, h₂, calls', -, rfl⟩ := hgraph call.target
  · exact nomatch htarget.symm.trans hnone
  · cases htarget.symm.trans h₁
    exact ⟨hcalls, ⟨_, h₂, harity⟩, hrest⟩

/-- Nor do the values. -/
theorem evaluate_of_reordered
    (h : graph.evaluate contracts id = .ok facts) : graph'.evaluate contracts id = .ok facts := by
  unfold evaluate at h ⊢
  obtain ⟨hnone, hnone'⟩ | ⟨node, _, hnode, hnode', calls, hperm, rfl⟩ := hgraph id
  · rw [hnone] at h
    rwa [hnone']
  · rw [hnode] at h
    rw [hnode']
    refine Except.foldlM_of_perm hperm (fun facts a b u t ha hb ↦ ?_) h
    simp only [bind_ok, mapError_ok_iff] at ha hb ⊢
    obtain ⟨brought, hbrought, ha⟩ := ha
    obtain ⟨brought', hbrought', hb⟩ := hb
    rw [union_ok_iff] at ha hb
    obtain ⟨v, hv⟩ : ∃ v, facts.union brought' = .ok v := exists_union
      fun fact hfact ↦ (hb fact).2 (hfact.imp_left fun hleft ↦ (ha fact).2 (.inl hleft))
    refine ⟨v, ⟨brought', hbrought', hv⟩, brought, hbrought, union_ok_iff.2 fun fact ↦ ?_⟩
    rw [hb fact, ha fact, union_ok_iff.1 hv fact, or_right_comm]

theorem Reordered.mem_ids_iff : id ∈ graph'.ids ↔ id ∈ graph.ids := by
  rw [mem_ids, mem_ids]
  obtain ⟨hnone, hnone'⟩ | ⟨node, node', hnode, hnode', -⟩ := hgraph id
  · simp [hnone, hnone']
  · simp [hnode, hnode']

theorem Reordered.ids_eq : graph'.ids = graph.ids := by
  refine ((List.perm_ext_iff_of_nodup nodup_ids nodup_ids).2 fun _ ↦
    hgraph.mem_ids_iff).eq_of_pairwise (fun a b _ _ ↦ le_antisymm) ?_ ?_ <;>
  exact List.pairwise_insertionSort _ _

theorem Reordered.parents_eq : graph'.parents = graph.parents := by
  funext id
  rw [parents, hgraph.ids_eq]
  refine filter_congr fun parent _ ↦ ?_
  obtain ⟨hnone, hnone'⟩ | ⟨node, _, hnode, hnode', calls, hperm, rfl⟩ := hgraph parent
  · rw [hnone, hnone']
  · rw [hnode, hnode']
    exact hperm.symm.any_eq

theorem Reordered.directFacts_eq : graph'.directFacts = graph.directFacts := by
  funext id
  unfold directFacts
  obtain ⟨hnone, hnone'⟩ | ⟨node, _, hnode, hnode', calls, -, rfl⟩ := hgraph id
  · rw [hnone, hnone']
  · rw [hnode, hnode']
    rfl

omit hgraph

/-- **The order of the calls and of insertion does not matter.** -/
theorem infer_of_reordered (hgraph : graph.Reordered graph')
    (h : graph.infer budgets = .ok inferred) : graph'.infer budgets = .ok inferred := by
  rw [infer, guard_ok] at h ⊢
  obtain ⟨hsize, h⟩ := h
  obtain ⟨counts, hcounts, h⟩ := bind_ok.1 h
  obtain ⟨contracts, hcontracts, h⟩ := bind_ok.1 h
  rw [hgraph.ids_eq]
  refine ⟨hsize, bind_ok.2 ⟨counts, ?_, bind_ok.2 ⟨contracts, ?_, h⟩⟩⟩
  · refine Except.foldlM_of_forall₂ (R := SameCalls) ?_
      (fun _ _ _ _ ↦ checkNode_of_sameCalls hgraph) hcounts
    refine List.rel_filterMap (R := Eq) (fun id _ heq ↦ ?_) (forall₂_same.2 fun _ _ ↦ rfl)
    subst heq
    obtain ⟨hnone, hnone'⟩ | ⟨node, _, hnode, hnode', hsame⟩ := hgraph id
    · rw [hnone, hnone']
      exact .none
    · rw [hnode, hnode']
      exact .some hsame
  · rw [hgraph.directFacts_eq]
    exact Equations.solve_congr (S := graph.equations) hgraph.parents_eq
      (fun _ _ _ ↦ evaluate_of_reordered hgraph) hcontracts

/-- The callables of a graph are those inserted. -/
theorem find?_of_insertAll (h : callables.foldlM insert graph = .ok graph') :
    graph'.nodes.find? id = some node ↔
      graph.nodes.find? id = some node ∨ node ∈ callables ∧ node.id = id := by
  induction callables generalizing graph with
  | nil =>
    obtain rfl := pure_ok.1 h
    simp
  | cons first callables ih =>
    rw [foldlM_cons, bind_ok] at h
    obtain ⟨graph₁, hfirst, h⟩ := h
    rw [ih h, mem_cons, or_and_right, ← or_assoc]
    refine or_congr_left ?_
    unfold insert at hfirst
    split at hfirst
    · next hnew =>
      obtain rfl := ok.inj hfirst
      by_cases hid : id = first.id
      · subst hid
        rw [KeyedMap.find?_insert_self]
        grind
      · rw [KeyedMap.find?_insert_of_ne hid]
        grind
    · cases hfirst

/-- Callables inserted in another order, with their calls in another order. -/
theorem reordered_of_insertAll {middle callables' : List ResolvedCallable}
    (h : callables.foldlM insert empty = .ok graph)
    (h' : callables'.foldlM insert empty = .ok graph')
    (hperm : callables.Perm middle) (hcalls : Forall₂ SameCalls middle callables') :
    graph.Reordered graph' := by
  have hgraph : ∀ id node, graph.nodes.find? id = some node ↔ node ∈ callables ∧ node.id = id :=
    fun id node ↦ (find?_of_insertAll h).trans (or_iff_right nofun)
  have hgraph' : ∀ id node, graph'.nodes.find? id = some node ↔ node ∈ callables' ∧ node.id = id :=
    fun id node ↦ (find?_of_insertAll h').trans (or_iff_right nofun)
  intro id
  cases hnode : graph.nodes.find? id with
  | none =>
    refine .inl ⟨rfl, Option.eq_none_iff_forall_ne_some.2 fun node' hnode' ↦ ?_⟩
    obtain ⟨hmem, rfl⟩ := (hgraph' id node').1 hnode'
    obtain ⟨node, hmiddle, calls, -, rfl⟩ := Association.exists_of_forall₂ hcalls.flip hmem
    exact nomatch hnode.symm.trans ((hgraph _ node).2 ⟨hperm.mem_iff.2 hmiddle, rfl⟩)
  | some node =>
    obtain ⟨hmem, rfl⟩ := (hgraph id node).1 hnode
    obtain ⟨node', hmem', hsame⟩ := Association.exists_of_forall₂ hcalls (hperm.mem_iff.1 hmem)
    refine .inr ⟨node, node', rfl, (hgraph' _ node').2 ⟨hmem', ?_⟩, hsame⟩
    obtain ⟨calls, -, rfl⟩ := hsame
    rfl

end Order

/-- **The inferred facts are the least solution of the call equations.** Every callable has a
contract, with the facts that some path of calls reaches and no others; and the result is the same
when the callables are inserted, and the calls are listed, in another order. -/
theorem infer_eq_ok_reached (h : graph.infer budgets = .ok inferred) :
    (∀ id, (∃ facts, inferred.get id = some facts) ↔ ∃ node, graph.nodes.find? id = some node) ∧
    (∀ id facts, inferred.get id = some facts → ∀ fact, facts.Has fact ↔ graph.Reached id fact) ∧
    ∀ (callables middle callables' : List ResolvedCallable) graph',
      callables.foldlM insert empty = .ok graph →
      callables.Perm middle → Forall₂ SameCalls middle callables' →
      callables'.foldlM insert empty = .ok graph' → graph'.infer budgets = .ok inferred := by
  obtain ⟨hchecked, contracts, hsolve, rfl⟩ := infer_ok h
  have hget : ∀ id facts, InferredFactContracts.get ⟨graph.ids.map fun id ↦ (id, contracts id)⟩ id =
      some facts ↔ id ∈ graph.ids ∧ contracts id = facts := by
    intro id facts
    refine ⟨fun hfacts ↦ ?_, fun ⟨hid, heq⟩ ↦ Association.lookup_of_mem ?_ ?_⟩
    · simpa using Association.mem_of_lookup hfacts
    · simpa [Function.comp_def] using nodup_ids
    · simpa using ⟨hid, heq⟩
  refine ⟨fun id ↦ ?_, fun id facts hfacts fact ↦ ⟨fun hfact ↦ ?_, fun hreached ↦ ?_⟩,
    fun callables middle callables' graph' hgraph hperm hcalls hgraph' ↦
      infer_of_reordered (reordered_of_insertAll hgraph hgraph' hperm hcalls) h⟩
  · simp only [hget, exists_and_left, exists_eq', and_true, mem_ids]
  · obtain ⟨-, rfl⟩ := (hget id facts).1 hfacts
    exact reached_of_solve hchecked hsolve hfact
  · obtain ⟨-, rfl⟩ := (hget id facts).1 hfacts
    obtain ⟨calls, last, known, hpath, hknown, hback⟩ := hreached
    exact has_of_path (fun id hid ↦ Equations.solve_settles (S := graph.equations)
      (fun _ _ _ _ _ ↦ evaluate_update) hsolve hid) hpath hknown hback

/-- A callable that calls itself. -/
def sampleCallee : ResolvedCallable where
  id := ⟨"module", "measure"⟩
  parameterCount := 1
  direct := { EffectFacts.empty with
    contextReads := ⟨[⟨.parameter 0, .capacity⟩], by decide, by decide⟩ }
  calls := [⟨⟨"module", "measure"⟩, [.sources ⟨[.output, .parameter 0], by decide, by decide⟩]⟩]

def sampleCaller : ResolvedCallable where
  id := ⟨"module", "main"⟩
  parameterCount := 0
  direct := lifecycle .transfer
  calls := [⟨⟨"module", "measure"⟩, [.sources ⟨[.input], by decide, by decide⟩]⟩]

def sampleGraph : ResolvedFactGraph :=
  ⟨⟨[(sampleCallee.id, sampleCallee), (sampleCaller.id, sampleCaller)], by decide⟩⟩

def sampleContracts : InferredFactContracts :=
  ⟨[(sampleCaller.id, { lifecycle .transfer with
      contextReads := ⟨[⟨.input, .capacity⟩, ⟨.output, .capacity⟩], by decide, by decide⟩ }),
    (sampleCallee.id, { EffectFacts.empty with
      contextReads := ⟨[⟨.output, .capacity⟩, ⟨.parameter 0, .capacity⟩], by decide, by decide⟩ })]⟩

theorem infer_eq_ok_reached_sample :
    sampleGraph.infer ⟨2, 2, 8, 8⟩ = .ok sampleContracts ∧
      sampleGraph.Reached sampleCaller.id (.read ⟨.output, .capacity⟩) := by
  have h : sampleGraph.infer ⟨2, 2, 8, 8⟩ = .ok sampleContracts := by decide
  exact ⟨h, ((infer_eq_ok_reached h).2.1 sampleCaller.id _ rfl _).1
    (mem_cons_of_mem _ mem_cons_self)⟩

end ResolvedFactGraph

end CellScript.Effects
