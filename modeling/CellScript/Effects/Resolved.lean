import CellScript.Effects.Facts
import CellScript.Library.Equations
import CellScript.Library.KeyedMap

/-!
# Inference of effect facts over resolved calls

The graph of `effects/resolved.rs` has a node for each callable, with its direct facts and its
calls; a call says for each argument which sources of the transaction it may stand for. `infer`
checks the graph, and then evaluates the callables with a queue: the facts of a callable are its
direct facts and those of its callees, with each parameter replaced by the sources of its argument.

`Reached` is the meaning of the result: a fact is reached from a callable along a path of calls, if
it comes from a direct fact of the last callable when parameters are replaced call by call on the
way back.
-/

namespace CellScript.Effects

open EffectFacts

structure CallableId where
  owner : String
  name : String
  deriving DecidableEq

instance : LinearOrder CallableId :=
  LinearOrder.lift' (fun id ↦ toLex (id.owner, id.name)) fun a b h ↦ by
    cases a
    cases b
    simpa using h

inductive ArgumentSources
  | value
  | sources (sources : CanonicalSet ContextSource)
  deriving DecidableEq

structure ResolvedCall where
  target : CallableId
  arguments : List ArgumentSources
  deriving DecidableEq

structure ResolvedCallable where
  id : CallableId
  parameterCount : ℕ
  direct : EffectFacts
  calls : List ResolvedCall
  deriving DecidableEq

inductive InferenceError
  | duplicateCallable (id : CallableId)
  | unknownCallee (caller target : CallableId)
  | arity (caller target : CallableId) (expected actual : ℕ)
  | invalidParameter (owner : CallableId) (parameter : ℕ)
  | missingSource (caller target : CallableId) (parameter : ℕ)
  | emptySourceEvidence (caller target : CallableId)
  | budget (dimension : String)
  | fact (error : FactSetError)
  deriving DecidableEq

structure InferenceBudgets where
  maxCallables : ℕ
  maxCalls : ℕ
  maxArgumentBindings : ℕ
  maxSteps : ℕ

structure ResolvedFactGraph where
  nodes : KeyedMap CallableId ResolvedCallable

structure InferredFactContracts where
  contracts : List (CallableId × EffectFacts)
  deriving DecidableEq

def InferredFactContracts.get (inferred : InferredFactContracts) (id : CallableId) :
    Option EffectFacts :=
  inferred.contracts.lookup id

def validateParameter (owner : ResolvedCallable) : ContextSource → Except InferenceError Unit
  | .parameter index =>
    if owner.parameterCount ≤ index then throw (.invalidParameter owner.id index) else pure ()
  | _ => pure ()

/-- The facts of a callee, read at the arguments of a call. -/
def ResolvedCall.instantiate (call : ResolvedCall) (caller : CallableId) (callee : EffectFacts) :
    Except InferenceError EffectFacts := do
  let result ← callee.lifecycleOps.elements.foldlM
    (fun result operation ↦ (result.includeLifecycle operation).mapError .fact) .empty
  let result ← callee.processOps.elements.foldlM
    (fun result operation ↦ (result.includeProcess operation).mapError .fact) result
  callee.contextReads.elements.foldlM (fun result read ↦
    match read.source with
    | .parameter index =>
      match call.arguments[index]? with
      | some (.sources sources) => sources.elements.foldlM
          (fun result source ↦ (result.includeRead source read.access).mapError .fact) result
      | _ => throw (.missingSource caller call.target index)
    | source => (result.includeRead source read.access).mapError .fact) result

namespace ResolvedFactGraph

def empty : ResolvedFactGraph := ⟨.empty⟩

def insert (graph : ResolvedFactGraph) (callable : ResolvedCallable) :
    Except InferenceError ResolvedFactGraph :=
  match graph.nodes.find? callable.id with
  | none => .ok ⟨graph.nodes.insert callable.id callable⟩
  | some _ => .error (.duplicateCallable callable.id)

/-- The callables in the order of their identifiers. -/
def ids (graph : ResolvedFactGraph) : List CallableId :=
  (graph.nodes.entries.map Prod.fst).insertionSort (· ≤ ·)

/-- An argument is counted, with its sources. -/
def checkArgument (budgets : InferenceBudgets) (node : ResolvedCallable) (call : ResolvedCall)
    (count : ℕ) (argument : ArgumentSources) : Except InferenceError ℕ := do
  if budgets.maxArgumentBindings < count + 1 then throw (.budget "argument binding")
  match argument with
  | .value => return count + 1
  | .sources sources =>
    if sources.elements = [] then throw (.emptySourceEvidence node.id call.target)
    if budgets.maxArgumentBindings < count + 1 + sources.elements.length then
      throw (.budget "argument binding")
    sources.elements.forM (validateParameter node)
    return count + 1 + sources.elements.length

/-- A call is counted, and so are its arguments. -/
def checkCall (graph : ResolvedFactGraph) (budgets : InferenceBudgets) (node : ResolvedCallable)
    (counts : ℕ × ℕ) (call : ResolvedCall) : Except InferenceError (ℕ × ℕ) := do
  if budgets.maxCalls < counts.1 + 1 then throw (.budget "call edge")
  match graph.nodes.find? call.target with
  | none => throw (.unknownCallee node.id call.target)
  | some target =>
    if call.arguments.length ≠ target.parameterCount then
      throw (.arity node.id call.target target.parameterCount call.arguments.length)
    let arguments ← call.arguments.foldlM (checkArgument budgets node call) counts.2
    return (counts.1 + 1, arguments)

/-- A callable is checked, its calls and arguments counted. -/
def checkNode (graph : ResolvedFactGraph) (budgets : InferenceBudgets) (counts : ℕ × ℕ)
    (node : ResolvedCallable) : Except InferenceError (ℕ × ℕ) := do
  node.direct.validate.mapError .fact
  node.direct.contextReads.elements.forM fun read ↦ validateParameter node read.source
  node.calls.foldlM (graph.checkCall budgets node) counts

/-- The facts of a callable, from those of its callees. -/
def evaluate (graph : ResolvedFactGraph) (contracts : CallableId → EffectFacts) (id : CallableId) :
    Except InferenceError EffectFacts :=
  match graph.nodes.find? id with
  | none => .ok .empty
  | some node => node.calls.foldlM (fun facts call ↦ do
      let instance_ ← call.instantiate id (contracts call.target)
      (facts.union instance_).mapError .fact) node.direct

def parents (graph : ResolvedFactGraph) (id : CallableId) : List CallableId :=
  graph.ids.filter fun parent ↦
    (graph.nodes.find? parent).any fun node ↦ node.calls.any (·.target = id)

/-- The facts of a callable depend on those of its callees. -/
def equations (graph : ResolvedFactGraph) : Equations CallableId EffectFacts InferenceError where
  evaluate := graph.evaluate
  readers := graph.parents
  exhausted := .budget "convergence"

def directFacts (graph : ResolvedFactGraph) (id : CallableId) : EffectFacts :=
  ((graph.nodes.find? id).map (·.direct)).getD .empty

/-- The least facts closed under calls, within the budgets. -/
def infer (graph : ResolvedFactGraph) (budgets : InferenceBudgets) :
    Except InferenceError InferredFactContracts := do
  if budgets.maxCallables < graph.ids.length then throw (.budget "callable")
  let _ ← (graph.ids.filterMap graph.nodes.find?).foldlM (graph.checkNode budgets) (0, 0)
  let contracts ← graph.equations.solve budgets.maxSteps graph.directFacts graph.ids
  return ⟨graph.ids.map fun id ↦ (id, contracts id)⟩

end ResolvedFactGraph

/-! ### What a path of calls reaches -/

/-- A fact of the callee, as the caller sees it. -/
def ResolvedCall.Carries (call : ResolvedCall) : Fact → Fact → Prop
  | .read ⟨.parameter index, access⟩, fact => ∃ sources source,
      call.arguments[index]? = some (.sources sources) ∧ source ∈ sources ∧
        fact = .read ⟨source, access⟩
  | known, fact => fact = known

/-- A fact of the last callable, carried back call by call. -/
def CarriesBack : List ResolvedCall → Fact → Fact → Prop
  | [], known, fact => fact = known
  | call :: calls, known, fact => ∃ middle, CarriesBack calls known middle ∧
    call.Carries middle fact

namespace ResolvedFactGraph

/-- The calls of a path, and its last callable. -/
inductive CallPath (graph : ResolvedFactGraph) :
    CallableId → List ResolvedCall → ResolvedCallable → Prop
  | last {id : CallableId} {node : ResolvedCallable} (hnode : graph.nodes.find? id = some node) :
      CallPath graph id [] node
  | call {id : CallableId} {node last : ResolvedCallable} {call : ResolvedCall}
      {calls : List ResolvedCall} (hnode : graph.nodes.find? id = some node)
      (hcall : call ∈ node.calls) (hrest : CallPath graph call.target calls last) :
      CallPath graph id (call :: calls) last

/-- A fact of some path of calls. -/
def Reached (graph : ResolvedFactGraph) (id : CallableId) (fact : Fact) : Prop :=
  ∃ calls last known, graph.CallPath id calls last ∧ last.direct.Has known ∧
    CarriesBack calls known fact

end ResolvedFactGraph

/-! ### Instantiation and evaluation -/

variable {call : ResolvedCall} {facts : EffectFacts} {fact : Fact}

section Instantiate

variable {caller : CallableId} {callee : EffectFacts}

/-- What a call brings to its caller: the facts of the callee, with the constituents of the
lifecycle operations. -/
def ResolvedCall.Brings (call : ResolvedCall) (callee : EffectFacts) (fact : Fact) : Prop :=
  (∃ operation ∈ callee.lifecycleOps, (lifecycle operation).Has fact) ∨
    (∃ operation ∈ callee.processOps, fact = .process operation) ∨
      ∃ read ∈ callee.contextReads, call.Carries (.read read) fact

theorem ResolvedCall.has_instantiate (h : call.instantiate caller callee = .ok facts) :
    facts.Has fact ↔ call.Brings callee fact := by
  obtain ⟨facts₁, h₁, h⟩ := bind_ok.1 h
  obtain ⟨facts₂, h₂, h⟩ := bind_ok.1 h
  have hlifecycle := adds_of_foldlM (fun _ operation _ _ hstep ↦
    adds_of_includeLifecycle (mapError_ok_iff.1 hstep)) h₁ fact
  have hprocess := adds_of_foldlM (fun _ operation _ _ hstep ↦
    adds_of_includeProcess (mapError_ok_iff.1 hstep)) h₂ fact
  have hread := adds_of_foldlM (R := fun read ↦ call.Carries (.read read))
    (fun facts read facts' _ hstep ↦ ?_) h fact
  · rw [hread, hprocess, hlifecycle, or_iff_right (not_empty_has fact), or_assoc]
    rfl
  · obtain ⟨source, access⟩ := read
    cases source with
    | parameter index =>
      simp only at hstep
      split at hstep
      · next sources hsources =>
        intro fact
        rw [adds_of_foldlM (fun _ source _ _ hstep ↦
          adds_of_includeRead (mapError_ok_iff.1 hstep)) hstep fact]
        refine or_congr_right ⟨?_, ?_⟩
        · rintro ⟨source, hsource, rfl⟩
          exact ⟨sources, source, hsources, hsource, rfl⟩
        · rintro ⟨sources', source, hsources', hsource, rfl⟩
          cases hsources.symm.trans hsources'
          exact ⟨source, hsource, rfl⟩
      · exact absurd hstep Except.throw_ne_ok
    | _ => exact adds_of_includeRead (mapError_ok_iff.1 hstep)

/-- The facts of the callee are brought. -/
theorem ResolvedCall.brings_of_carries {known : Fact} (hknown : callee.Has known)
    (hcarries : call.Carries known fact) : call.Brings callee fact := by
  cases known with
  | read read => exact .inr (.inr ⟨read, hknown, hcarries⟩)
  | lifecycle operation =>
    obtain rfl : fact = _ := hcarries
    exact .inl ⟨operation, hknown, mem_lifecycle operation⟩
  | process operation => exact .inr (.inl ⟨operation, hknown, hcarries⟩)

end Instantiate

namespace ResolvedFactGraph

variable {graph : ResolvedFactGraph} {budgets : InferenceBudgets} {id : CallableId}
  {node : ResolvedCallable} {contracts : CallableId → EffectFacts}
  {inferred : InferredFactContracts}

/-- The equation of a callable. -/
theorem has_evaluate (hnode : graph.nodes.find? id = some node)
    (h : graph.evaluate contracts id = .ok facts) :
    facts.Has fact ↔
      node.direct.Has fact ∨ ∃ call ∈ node.calls, call.Brings (contracts call.target) fact := by
  simp only [evaluate, hnode] at h
  refine adds_of_foldlM (R := fun call fact ↦ call.Brings (contracts call.target) fact)
    (fun facts call facts' _ hstep fact ↦ ?_) h fact
  obtain ⟨brought, hbrought, hstep⟩ := bind_ok.1 hstep
  rw [union_ok_iff.1 (mapError_ok_iff.1 hstep) fact, ResolvedCall.has_instantiate hbrought]

end ResolvedFactGraph

end CellScript.Effects
