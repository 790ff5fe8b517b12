import CellScript.Names
import CellScript.Library.Fallible
import Mathlib.Data.Prod.Lex
import Mathlib.Data.String.Basic

/-!
# Effect facts

The facts of `effect_facts.rs`: what a callable reads of the transaction, and the lifecycle and
process operations it performs. Each of the three is a canonical set, kept in the order of the wire
names and of bounded size.

Inserting fails when the bound is met, so a union may fail. `union_ok_iff` says that it does not
fail for any other reason: a union returns the facts that are in one of the two sets, and no others.
-/

namespace CellScript.Effects

inductive ContextSource
  | input
  | groupInput
  | output
  | groupOutput
  | cellDep
  | headerDep
  | witness
  | currentScript
  | transaction
  | headerEvidence
  | parameter (index : ℕ)
  deriving DecidableEq

def ContextSource.wireKey : ContextSource → String × ℕ
  | .input => ("input", 0)
  | .groupInput => ("group-input", 0)
  | .output => ("output", 0)
  | .groupOutput => ("group-output", 0)
  | .cellDep => ("cell-dep", 0)
  | .headerDep => ("header-dep", 0)
  | .witness => ("witness", 0)
  | .currentScript => ("current-script", 0)
  | .transaction => ("transaction", 0)
  | .headerEvidence => ("header-evidence", 0)
  | .parameter index => ("parameter", index)

inductive ContextAccess
  | cellData
  | capacity
  | occupiedCapacity
  | lockScript
  | typeScript
  | outPoint
  | since
  | index
  | cardinality
  | roleSelection
  | header
  | transaction
  | script
  | witness
  | environmentEvidence
  deriving DecidableEq

def ContextAccess.wireName : ContextAccess → String
  | .cellData => "cell-data"
  | .capacity => "capacity"
  | .occupiedCapacity => "occupied-capacity"
  | .lockScript => "lock-script"
  | .typeScript => "type-script"
  | .outPoint => "out-point"
  | .since => "since"
  | .index => "index"
  | .cardinality => "cardinality"
  | .roleSelection => "role-selection"
  | .header => "header"
  | .transaction => "transaction"
  | .script => "script"
  | .witness => "witness"
  | .environmentEvidence => "environment-evidence"

inductive LifecycleOperation
  | consume
  | destroy
  | create
  | replace
  | transfer
  | claim
  | settle
  deriving DecidableEq

def LifecycleOperation.wireName : LifecycleOperation → String
  | .consume => "consume"
  | .destroy => "destroy"
  | .create => "create"
  | .replace => "replace"
  | .transfer => "transfer"
  | .claim => "claim"
  | .settle => "settle"

inductive ProcessOperation
  | spawn
  | exec
  | wait
  | pipeCreate
  | pipeRead
  | pipeWrite
  | close
  | inheritedDescriptors
  | processId
  deriving DecidableEq

def ProcessOperation.wireName : ProcessOperation → String
  | .spawn => "spawn"
  | .exec => "exec"
  | .wait => "wait"
  | .pipeCreate => "pipe-create"
  | .pipeRead => "pipe-read"
  | .pipeWrite => "pipe-write"
  | .close => "close"
  | .inheritedDescriptors => "inherited-descriptors"
  | .processId => "process-id"

structure ContextRead where
  source : ContextSource
  access : ContextAccess
  deriving DecidableEq

/-! The order of each vocabulary is that of its wire names. -/

instance : LinearOrder ContextSource := LinearOrder.lift' (fun s ↦ toLex s.wireKey) (by
  intro a b
  cases a <;> cases b <;> simp [ContextSource.wireKey])

instance : LinearOrder ContextAccess := LinearOrder.lift' ContextAccess.wireName (by
  intro a b
  cases a <;> cases b <;> decide)

instance : LinearOrder LifecycleOperation := LinearOrder.lift' LifecycleOperation.wireName (by
  intro a b
  cases a <;> cases b <;> decide)

instance : LinearOrder ProcessOperation := LinearOrder.lift' ProcessOperation.wireName (by
  intro a b
  cases a <;> cases b <;> decide)

instance : LinearOrder ContextRead :=
  LinearOrder.lift' (fun r ↦ toLex (r.source, r.access)) fun a b h ↦ by
    cases a
    cases b
    simpa using h

/-! ### Canonical sets -/

def maxFactsPerDimension : ℕ := 4096

inductive FactSetError
  | budget
  | missingLifecycleConstituent (operation required : LifecycleOperation)
  deriving DecidableEq

/-- A bounded set, as the increasing list of its elements. -/
structure CanonicalSet (α : Type) [LinearOrder α] where
  elements : List α
  sorted : elements.Pairwise (· < ·)
  bounded : elements.length ≤ maxFactsPerDimension
  deriving DecidableEq

namespace CanonicalSet

variable {α : Type} [LinearOrder α] {s t : CanonicalSet α} {x : α} {xs : List α}

instance : Membership α (CanonicalSet α) := ⟨fun s x ↦ x ∈ s.elements⟩

instance : DecidableRel fun (x : α) (s : CanonicalSet α) ↦ x ∈ s := fun x s ↦
  decidable_of_iff (∃ y ∈ s.elements, y = x) exists_eq_right

def empty : CanonicalSet α := ⟨[], .nil, Nat.zero_le _⟩

theorem nodup (s : CanonicalSet α) : s.elements.Nodup := s.sorted.imp ne_of_lt

theorem ext (h : ∀ x, x ∈ s ↔ x ∈ t) : s = t := by
  have hperm : s.elements.Perm t.elements := (List.perm_ext_iff_of_nodup s.nodup t.nodup).2 h
  have heq : s.elements = t.elements :=
    hperm.eq_of_pairwise (fun a b _ _ hab hba ↦
      absurd (hab.trans hba) (lt_irrefl a)) s.sorted t.sorted
  cases s
  cases t
  simpa using heq

/-- A part of a set. -/
def filter (p : α → Prop) [DecidablePred p] (s : CanonicalSet α) : CanonicalSet α where
  elements := s.elements.filter (p ·)
  sorted := s.sorted.sublist List.filter_sublist
  bounded := (List.length_filter_le _ _).trans s.bounded

theorem mem_filter {p : α → Prop} [DecidablePred p] : x ∈ s.filter p ↔ x ∈ s ∧ p x := by
  show x ∈ s.elements.filter (p ·) ↔ x ∈ s.elements ∧ p x
  simp

def insert (s : CanonicalSet α) (x : α) : Except FactSetError (CanonicalSet α) :=
  if hx : x ∈ s then .ok s
  else if hfull : s.elements.length = maxFactsPerDimension then .error .budget
  else .ok {
    elements := s.elements.orderedInsert (· ≤ ·) x
    sorted := by
      have hle := (s.sorted.imp le_of_lt).orderedInsert x
      have hnodup : (s.elements.orderedInsert (· ≤ ·) x).Nodup :=
        (List.perm_orderedInsert _ _ _).nodup_iff.2 (nodup_cons.2 ⟨hx, s.nodup⟩)
      exact (hle.and hnodup).imp fun h ↦ lt_of_le_of_ne h.1 h.2
    bounded := by
      rw [List.orderedInsert_length]
      exact Nat.lt_of_le_of_ne s.bounded hfull }

theorem insert_ok_iff : s.insert x = .ok t ↔ ∀ y, y ∈ t ↔ y ∈ s ∨ y = x := by
  unfold insert
  split
  · next hx =>
    constructor
    · intro h
      obtain rfl := ok.inj h
      exact fun y ↦ ⟨.inl, fun hy ↦ hy.elim id fun heq ↦ heq ▸ hx⟩
    · intro h
      exact congrArg _ (ext fun y ↦ (h y).trans ⟨fun hy ↦ hy.elim id fun heq ↦ heq ▸ hx, .inl⟩).symm
  · next hx =>
    split
    · next hfull =>
      refine iff_of_false nofun fun h ↦ ?_
      -- a set with one more element is too large
      have hsub : x :: s.elements ⊆ t.elements := fun y hy ↦ (h y).2 (mem_cons.1 hy).symm
      have hlength := (List.subperm_of_subset (nodup_cons.2 ⟨hx, s.nodup⟩) hsub).length_le
      rw [length_cons, hfull] at hlength
      exact absurd (hlength.trans t.bounded) (Nat.not_succ_le_self _)
    · constructor
      · intro h
        obtain rfl := ok.inj h
        exact fun y ↦ (List.mem_orderedInsert _).trans or_comm
      · intro h
        refine congrArg _ (ext fun y ↦ ?_)
        exact (List.mem_orderedInsert _).trans (or_comm.trans (h y).symm)

def insertAll (s : CanonicalSet α) (xs : List α) : Except FactSetError (CanonicalSet α) :=
  xs.foldlM insert s

theorem insertAll_ok_iff : s.insertAll xs = .ok t ↔ ∀ y, y ∈ t ↔ y ∈ s ∨ y ∈ xs := by
  induction xs generalizing s with
  | nil =>
    constructor
    · intro h
      obtain rfl := pure_ok.1 h
      simp
    · intro h
      exact pure_ok.2 (ext fun y ↦ by simpa using (h y).symm)
  | cons x xs ih =>
    rw [insertAll, foldlM_cons, bind_ok]
    simp only [insert_ok_iff]
    constructor
    · rintro ⟨u, hu, h⟩ y
      rw [ih.1 h y, hu y, mem_cons, or_assoc]
    · intro h
      have hmem : ∀ y, y ∈ t.filter (fun y ↦ y ∈ s ∨ y = x) ↔ y ∈ s ∨ y = x := fun y ↦
        mem_filter.trans (and_iff_right_of_imp fun hy ↦
          (h y).2 (hy.imp_right fun heq ↦ mem_cons.2 (.inl heq)))
      refine ⟨t.filter fun y ↦ y ∈ s ∨ y = x, hmem, ih.2 fun y ↦ ?_⟩
      rw [h y, hmem y, mem_cons, or_assoc]

/-- Elements of a set can be inserted. -/
theorem exists_insertAll (h : ∀ y, y ∈ s ∨ y ∈ xs → y ∈ t) : ∃ u, s.insertAll xs = .ok u :=
  ⟨t.filter fun y ↦ y ∈ s ∨ y ∈ xs,
    insertAll_ok_iff.2 fun y ↦ mem_filter.trans (and_iff_right_of_imp (h y))⟩

end CanonicalSet

open CanonicalSet

/-! ### Facts -/

structure EffectFacts where
  contextReads : CanonicalSet ContextRead
  lifecycleOps : CanonicalSet LifecycleOperation
  processOps : CanonicalSet ProcessOperation
  deriving DecidableEq

/-- A single fact. -/
inductive Fact
  | read (read : ContextRead)
  | lifecycle (operation : LifecycleOperation)
  | process (operation : ProcessOperation)

namespace EffectFacts

variable {facts facts' other : EffectFacts} {operation : LifecycleOperation}

def empty : EffectFacts := ⟨.empty, .empty, .empty⟩

/-- An operation with the operations it is made of. -/
def lifecycle (operation : LifecycleOperation) : EffectFacts :=
  { empty with
    lifecycleOps :=
      match operation with
      | .consume => ⟨[.consume], by decide, by decide⟩
      | .create => ⟨[.create], by decide, by decide⟩
      | .destroy => ⟨[.consume, .destroy], by decide, by decide⟩
      | .replace => ⟨[.consume, .create, .replace], by decide, by decide⟩
      | .transfer => ⟨[.consume, .create, .transfer], by decide, by decide⟩
      | .claim => ⟨[.claim, .consume, .create], by decide, by decide⟩
      | .settle => ⟨[.consume, .create, .settle], by decide, by decide⟩ }

def includeRead (facts : EffectFacts) (source : ContextSource) (access : ContextAccess) :
    Except FactSetError EffectFacts := do
  let reads ← facts.contextReads.insert ⟨source, access⟩
  return { facts with contextReads := reads }

def includeLifecycle (facts : EffectFacts) (operation : LifecycleOperation) :
    Except FactSetError EffectFacts := do
  let operations ← facts.lifecycleOps.insertAll (lifecycle operation).lifecycleOps.elements
  return { facts with lifecycleOps := operations }

def includeProcess (facts : EffectFacts) (operation : ProcessOperation) :
    Except FactSetError EffectFacts := do
  let operations ← facts.processOps.insert operation
  return { facts with processOps := operations }

def validate (facts : EffectFacts) : Except FactSetError Unit :=
  facts.lifecycleOps.elements.forM fun operation ↦
    (lifecycle operation).lifecycleOps.elements.forM fun required ↦
      if required ∈ facts.lifecycleOps then .ok ()
      else .error (.missingLifecycleConstituent operation required)

def union (facts other : EffectFacts) : Except FactSetError EffectFacts := do
  let reads ← facts.contextReads.insertAll other.contextReads.elements
  let lifecycles ← facts.lifecycleOps.insertAll other.lifecycleOps.elements
  let processes ← facts.processOps.insertAll other.processOps.elements
  return ⟨reads, lifecycles, processes⟩

/-- A fact is among the facts. -/
def Has (facts : EffectFacts) : Fact → Prop
  | .read read => read ∈ facts.contextReads
  | .lifecycle operation => operation ∈ facts.lifecycleOps
  | .process operation => operation ∈ facts.processOps

/-- Facts that are added to others. -/
def Adds (facts : EffectFacts) (added : Fact → Prop) (facts' : EffectFacts) : Prop :=
  ∀ fact, facts'.Has fact ↔ facts.Has fact ∨ added fact

theorem not_empty_has (fact : Fact) : ¬empty.Has fact := by
  cases fact <;> exact not_mem_nil

theorem mem_lifecycle (operation : LifecycleOperation) :
    operation ∈ (lifecycle operation).lifecycleOps := by
  cases operation <;> decide

theorem union_ok_iff : facts.union other = .ok facts' ↔ facts.Adds other.Has facts' := by
  simp only [union, bind_ok, insertAll_ok_iff, pure_ok]
  constructor
  · rintro ⟨reads, hreads, lifecycles, hlifecycles, processes, hprocesses, rfl⟩ fact
    cases fact with
    | read read => exact hreads read
    | lifecycle operation => exact hlifecycles operation
    | process operation => exact hprocesses operation
  · intro h
    exact ⟨facts'.contextReads, fun read ↦ h (.read read), facts'.lifecycleOps,
      fun operation ↦ h (.lifecycle operation), facts'.processOps,
      fun operation ↦ h (.process operation), rfl⟩

theorem exists_union (h : ∀ fact, facts.Has fact ∨ other.Has fact → facts'.Has fact) :
    ∃ result, facts.union other = .ok result := by
  obtain ⟨reads, hreads⟩ := exists_insertAll fun read ↦ h (.read read)
  obtain ⟨lifecycles, hlifecycles⟩ :=
    exists_insertAll fun operation ↦ h (.lifecycle operation)
  obtain ⟨processes, hprocesses⟩ :=
    exists_insertAll fun operation ↦ h (.process operation)
  exact ⟨⟨reads, lifecycles, processes⟩, by simp [union, hreads, hlifecycles, hprocesses]⟩

theorem adds_of_includeRead {source : ContextSource} {access : ContextAccess}
    (h : facts.includeRead source access = .ok facts') :
    facts.Adds (· = .read ⟨source, access⟩) facts' := by
  obtain ⟨reads, hreads, h⟩ := bind_ok.1 h
  obtain rfl := pure_ok.1 h
  intro fact
  cases fact with
  | read read => exact (insert_ok_iff.1 hreads read).trans (by simp [Has])
  | _ => simp [Has]

theorem adds_of_includeLifecycle (h : facts.includeLifecycle operation = .ok facts') :
    facts.Adds (lifecycle operation).Has facts' := by
  obtain ⟨operations, hoperations, h⟩ := bind_ok.1 h
  obtain rfl := pure_ok.1 h
  intro fact
  cases fact with
  | lifecycle operation' => exact insertAll_ok_iff.1 hoperations operation'
  | _ => exact (or_iff_left not_mem_nil).symm

theorem adds_of_includeProcess {operation : ProcessOperation}
    (h : facts.includeProcess operation = .ok facts') :
    facts.Adds (· = .process operation) facts' := by
  obtain ⟨operations, hoperations, h⟩ := bind_ok.1 h
  obtain rfl := pure_ok.1 h
  intro fact
  cases fact with
  | process operation' =>
    exact (insert_ok_iff.1 hoperations operation').trans (by simp [Has])
  | _ => simp [Has]

/-- **A loop adds what its steps add.** -/
theorem adds_of_foldlM {ε α : Type} {step : EffectFacts → α → Except ε EffectFacts} {xs : List α}
    {R : α → Fact → Prop}
    (hstep : ∀ facts x facts', x ∈ xs → step facts x = .ok facts' → facts.Adds (R x) facts')
    (h : xs.foldlM step facts = .ok facts') :
    facts.Adds (fun fact ↦ ∃ x ∈ xs, R x fact) facts' := by
  induction xs generalizing facts with
  | nil =>
    obtain rfl := pure_ok.1 h
    intro fact
    simp
  | cons x xs ih =>
    rw [foldlM_cons, bind_ok] at h
    obtain ⟨facts₁, hfirst, h⟩ := h
    have hrest := ih (fun facts y facts' hy ↦ hstep facts y facts' (mem_cons_of_mem x hy)) h
    intro fact
    rw [hrest fact, hstep facts x facts₁ mem_cons_self hfirst fact, or_assoc]
    simp only [mem_cons, exists_eq_or_imp]

theorem has_of_validate (h : facts.validate = .ok ()) {required : LifecycleOperation}
    (hoperation : operation ∈ facts.lifecycleOps)
    (hrequired : required ∈ (lifecycle operation).lifecycleOps) :
    required ∈ facts.lifecycleOps := by
  have hall := forM_ok_iff.1 (forM_ok_iff.1 h operation hoperation) required hrequired
  by_contra hnot
  rw [if_neg hnot] at hall
  exact nomatch hall

end EffectFacts

end CellScript.Effects
