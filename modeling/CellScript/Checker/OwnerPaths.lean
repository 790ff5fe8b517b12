import CellScript.Names
import CellScript.Checker.Lifetime

/-!
# Owners along a path

What the operations of a typed entry do to the handles of its locals when control follows one path,
and what the checker has established when it accepts an entry.
-/

namespace CellScript.Checker.Lifetime

/-! ### What happens along a path -/

/-- What an operation does with owners, besides reading them. -/
inductive Action
  | idle
  | create (dest : ℕ)
  | change (source : ℕ) (retire : Bool)
  | move (source dest : ℕ)
  | refer (source dest : ℕ)
  deriving DecidableEq

/-- The steps of a block: loans end and start, and operations run. -/
inductive Step
  | ends (binding : ℕ)
  | starts (binding root : ℕ)
  | runs (op : TypedSemanticOperation)
  deriving DecidableEq

namespace State

variable (s : State)

def handle? (l : ℕ) : Option Handle := s.available.find? l

/-- No lexical loan of an owner is active. -/
def Unloaned (root : ℕ) : Prop := ∀ loan ∈ s.loans, loan.2 ≠ root

def effect : Action → State
  | .idle => s
  | .create dest => (s.invalidate dest true).insert dest ⟨dest, false, ∅⟩
  | .change source retire => (s.handle? source).elim s fun h ↦ s.invalidate h.root retire
  | .move source dest => (s.handle? source).elim s fun h ↦
    (if h.borrowed then s else s.invalidate h.root true).insert dest h
  | .refer source dest => (s.handle? source).elim s fun h ↦
    s.insert dest { h with borrowed := true }

end State

namespace Context

variable (ctx : Context)

/-- The locals that an operation reads owners from. -/
def reads (op : TypedSemanticOperation) : List ℕ := (ctx.ownerArgs op).filterMap (·.localId)

def allocatedAction (op : TypedSemanticOperation) (operation : Operation) : Action :=
  if operation = .new then op.destinations.head?.elim .idle .create
  else if operation.readOnly then .idle
  else (ctx.reads op).head?.elim .idle (.change · (operation = .drop))

def plainAction (op : TypedSemanticOperation) : Action :=
  match ctx.reads op, ctx.ownerDests op with
  | [source], [dest] =>
    if op.opcode = "move" then .move source dest
    else if op.opcode = "unary" ∧ op.detail = .unaryOperator "ref" then .refer source dest
    else .idle
  | _, _ => .idle

def action (op : TypedSemanticOperation) : Action :=
  if ctx.ownerArgs op = [] ∧ ctx.ownerDests op = [] then .idle
  else
    match op.detail with
    | .allocatedValue operation => ctx.allocatedAction op operation
    | _ => ctx.plainAction op

/-- The state after a step. -/
def step (s : State) : Step → State
  | .ends binding => s.endLoan binding
  | .starts binding root => (s.handle? root).elim s (s.lend binding)
  | .runs op => s.effect (ctx.action op)

/-- The loans that end and those that start at a position of a block. -/
def loanSteps (block position : ℕ) : List Step :=
  (ctx.ends.filterMap fun e ↦ if e.1 = (block, position) then some e.2 else none).map .ends ++
    (ctx.starts.filterMap fun e ↦ if e.1 = (block, position) then some e.2 else none).map
      fun loan ↦ .starts loan.1 loan.2

def stepsAt (block : TypedSemanticBlock) (i : ℕ) : List Step :=
  ctx.loanSteps block.id i ++ block.operations[i]?.toList.map .runs

def steps (block : TypedSemanticBlock) : List Step :=
  (List.range (block.operations.length + 1)).flatMap (ctx.stepsAt block)

/-- The state after a block. -/
def blockEffect (entry : TypedSemanticEntry) (id : ℕ) (s : State) : State :=
  (entry.block id).elim s fun block ↦ (ctx.steps block).foldl ctx.step s

end Context

open Context

/-- A path arrives at a step of a block, after the steps before it, with a state. -/
structure Arrives (entry : TypedSemanticEntry) (ownerTypes : List TypeText) (id : ℕ)
    (before : List Step) (next : Step) (s : State) : Prop where
  intro ::
  exists_path : ∃ block after s₀,
    Dataflow.Reaches entry.successors ((entry.context ownerTypes).blockEffect entry)
      entry.entryBlock (initial entry (entry.context ownerTypes)) id s₀ ∧
    entry.block id = some block ∧
    (entry.context ownerTypes).steps block = before ++ next :: after ∧
    s = before.foldl (entry.context ownerTypes).step s₀

/-! ### What the checker requires of a step -/

namespace State

variable (s : State)

/-- A store of a new owner must not overwrite a handle of another one. -/
def Free (dest : ℕ) : Prop := ∀ old, s.handle? dest = some old → old.root = dest

/-- A store of a handle must not overwrite an owner. -/
def Borrowed (dest : ℕ) : Prop := ∀ old, s.handle? dest = some old → old.borrowed

def Allows : Action → Prop
  | .idle => True
  | .create dest => s.Free dest ∧ s.Unloaned dest
  | .change source _ => ∃ h, s.handle? source = some h ∧ s.Unloaned h.root
  | .move source dest =>
    (∃ h, s.handle? source = some h ∧ (h.borrowed = false → s.Unloaned h.root)) ∧ s.Borrowed dest
  | .refer source dest => (∃ h, s.handle? source = some h) ∧ s.Borrowed dest

end State

def Context.Allowed (ctx : Context) (s : State) : Step → Prop
  | .ends _ => True
  | .starts _ root => ∃ h, s.handle? root = some h
  | .runs op => (∀ l ∈ ctx.reads op, ∃ h, s.handle? l = some h) ∧ s.Allows (ctx.action op)

section Checked

variable {ctx : Context} {s s' : State} {op : TypedSemanticOperation} {h : Handle}
  {l i work work' id dest source : ℕ} {handles : List Handle} {block : TypedSemanticBlock}
  {bindings : List ℕ}

theorem get_ok_iff : s.get l = .ok h ↔ s.handle? l = some h := by
  rw [State.get, State.handle?]
  split
  · next h' hh' => rw [hh', ok.injEq, some.injEq]
  · next hnone => simp [hnone]

theorem mutate_ok_iff {retire : Bool} :
    s.mutate h retire = .ok s' ↔
      h.borrowed = false ∧ s.Unloaned h.root ∧ s' = s.invalidate h.root retire := by
  rw [State.mutate]
  split
  · next hbad =>
    refine iff_of_false (fun h ↦ nomatch h) ?_
    rintro ⟨hborrowed, hunloaned, -⟩
    rcases hbad with hbad | ⟨loan, hloan, hroot⟩
    · exact nomatch hbad.symm.trans hborrowed
    · exact hunloaned loan hloan hroot
  · next hgood =>
    rw [not_or, not_eq_true] at hgood
    rw [ok.injEq, eq_comm]
    refine ⟨fun heq ↦ ⟨hgood.1, fun loan hloan hroot ↦ hgood.2 ⟨loan, hloan, hroot⟩, heq⟩, ?_⟩
    rintro ⟨-, -, heq⟩
    exact heq

/-- The handles of the owner operands are those of the locals that are read. -/
theorem handles_of_mapM {args : List TypedSemanticOperand} {message : String}
    (hok : args.mapM (fun arg ↦ handleOf s arg message) = .ok handles) :
    Forall₂ (fun l h ↦ s.handle? l = some h) (args.filterMap (·.localId)) handles := by
  rw [Except.mapM_ok_iff] at hok
  induction hok with
  | nil => exact .nil
  | @cons arg h args handles harg _ ih =>
    rw [handleOf] at harg
    split at harg
    · next l hl =>
      rw [List.filterMap_cons_some hl]
      exact .cons (get_ok_iff.1 harg) ih
    · exact nomatch harg

theorem allocatedValue_ok {operation : Operation}
    (hhandles : Forall₂ (fun l h ↦ s.handle? l = some h) (ctx.reads op) handles)
    (hok : allocatedValue s op operation handles = .ok s') :
    s.Allows (ctx.allocatedAction op operation) ∧
      s' = s.effect (ctx.allocatedAction op operation) := by
  rw [allocatedAction]
  rw [allocatedValue] at hok
  generalize ctx.reads op = ls at hhandles
  split at hok
  · next hnew =>
    rw [if_pos hnew]
    split at hok
    · cases hok
    next dest hdest =>
    obtain ⟨hfree, hok⟩ := guard_ok.1 hok
    obtain ⟨t, ht, hok⟩ := bind_ok.1 hok
    obtain ⟨-, hunloaned, rfl⟩ := mutate_ok_iff.1 ht
    rw [hdest]
    refine ⟨⟨fun old hold ↦ ?_, hunloaned⟩, (pure_ok.1 hok).symm⟩
    rw [State.handle?] at hold
    simpa [hold] using hfree
  · next hnew =>
    rw [if_neg hnew]
    split at hok
    · cases hok
    next handle hhandle =>
    split at hok
    · next hread =>
      rw [if_pos hread]
      exact ⟨trivial, (ok.inj hok).symm⟩
    · next hread =>
      rw [if_neg hread]
      obtain ⟨-, hunloaned, rfl⟩ := mutate_ok_iff.1 hok
      cases hhandles with
      | nil => cases hhandle
      | @cons l h ls hs hl _ =>
        obtain rfl : h = handle := some.inj hhandle
        show s.Allows (.change l _) ∧ _ = s.effect (.change l _)
        refine ⟨⟨h, hl, hunloaned⟩, ?_⟩
        rw [State.effect, hl]
        rfl

theorem borrowed_of_any
    (hborrowed : ¬ ((s.available.find? dest).any fun old ↦ !old.borrowed) = true) :
    s.Borrowed dest := by
  intro old hold
  rw [State.handle?] at hold
  simpa [hold] using hborrowed

theorem moveTo_ok (hl : s.handle? source = some h) (hok : ctx.moveTo s h dest = .ok s') :
    s.Allows (.move source dest) ∧ s' = s.effect (.move source dest) := by
  rw [moveTo] at hok
  obtain ⟨hborrowed, hok⟩ := guard_ok.1 hok
  rw [State.effect, hl]
  show s.Allows _ ∧ s' = (if h.borrowed then s else s.invalidate h.root true).insert dest h
  split at hok
  · next hb =>
    rw [if_pos hb]
    exact ⟨⟨⟨h, hl, fun hfalse ↦ nomatch hb.symm.trans hfalse⟩, borrowed_of_any hborrowed⟩,
      (pure_ok.1 hok).symm⟩
  · next hb =>
    rw [if_neg hb]
    obtain ⟨-, hok⟩ := guard_ok.1 hok
    obtain ⟨t, ht, hok⟩ := bind_ok.1 hok
    obtain ⟨-, hunloaned, rfl⟩ := mutate_ok_iff.1 ht
    exact ⟨⟨⟨h, hl, fun _ ↦ hunloaned⟩, borrowed_of_any hborrowed⟩, (pure_ok.1 hok).symm⟩

theorem referTo_ok (hl : s.handle? source = some h) (hok : referTo s h dest = .ok s') :
    s.Allows (.refer source dest) ∧ s' = s.effect (.refer source dest) := by
  rw [referTo] at hok
  obtain ⟨hborrowed, hok⟩ := guard_ok.1 hok
  rw [State.effect, hl]
  exact ⟨⟨⟨h, hl⟩, borrowed_of_any hborrowed⟩, (pure_ok.1 hok).symm⟩

theorem callOf_ok (hok : ctx.callOf s op = .ok s') : s' = s := by
  rw [callOf] at hok
  split at hok
  · exact nomatch hok
  · obtain ⟨-, hok⟩ := guard_ok.1 hok
    obtain ⟨-, hok⟩ := check_ok.1 hok
    exact (pure_ok.1 hok).symm

theorem plainOperation_ok
    (hhandles : Forall₂ (fun l h ↦ s.handle? l = some h) (ctx.reads op) handles)
    (hok : ctx.plainOperation s op handles = .ok s') :
    s.Allows (ctx.plainAction op) ∧ s' = s.effect (ctx.plainAction op) := by
  unfold plainOperation at hok
  unfold plainAction
  generalize ctx.reads op = ls at hhandles
  split at hok
  · next hdests =>
    obtain ⟨l, ls, hl, hrest, rfl⟩ := List.forall₂_cons_right_iff.1 hhandles
    obtain rfl := List.forall₂_nil_right_iff.1 hrest
    rw [hdests]
    show s.Allows (if _ then _ else _) ∧ s' = s.effect (if _ then _ else _)
    split at hok
    · next hmove =>
      rw [if_pos hmove]
      exact moveTo_ok hl hok
    · next hmove =>
      rw [if_neg hmove]
      split at hok
      · next href =>
        rw [if_pos href]
        exact referTo_ok hl hok
      · cases hok
  · next hshape =>
    split at hok
    · next hcall =>
      split
      · next hdests => exact nomatch hcall.2.symm.trans hdests
      · exact ⟨trivial, callOf_ok hok⟩
    · cases hok

theorem operation_ok (hok : ctx.operation s op = .ok s') :
    (∀ l ∈ ctx.reads op, ∃ h, s.handle? l = some h) ∧ s.Allows (ctx.action op) ∧
      s' = s.effect (ctx.action op) := by
  rw [operation] at hok
  rw [action]
  split at hok
  · next hnone =>
    rw [if_pos hnone, reads, hnone.1]
    exact ⟨fun l hl ↦ (not_mem_nil hl).elim, trivial, (ok.inj hok).symm⟩
  · next hsome =>
    obtain ⟨handles, hhandles, hok⟩ := bind_ok.1 hok
    have hreads := handles_of_mapM hhandles
    rw [if_neg hsome]
    refine ⟨fun l hl ↦ ?_, ?_⟩
    · obtain ⟨h, -, hl⟩ := Association.exists_of_forall₂ hreads hl
      exact ⟨h, hl⟩
    · cases hdetail : op.detail with
      | allocatedValue operation =>
        rw [hdetail] at hok
        exact allocatedValue_ok hreads hok
      | _ =>
        rw [hdetail] at hok
        exact plainOperation_ok hreads hok

/-- The steps are allowed one after the other. -/
def Context.Passes (ctx : Context) : State → List Step → Prop
  | _, [] => True
  | s, next :: rest => ctx.Allowed s next ∧ ctx.Passes (ctx.step s next) rest

theorem passes_append {xs ys : List Step} :
    ctx.Passes s (xs ++ ys) ↔ ctx.Passes s xs ∧ ctx.Passes (xs.foldl ctx.step s) ys := by
  induction xs generalizing s with
  | nil => exact ⟨fun h ↦ ⟨trivial, h⟩, fun h ↦ h.2⟩
  | cons x xs ih =>
    rw [cons_append, Passes, Passes, ih, foldl_cons, and_assoc]

theorem passes_ends : ctx.Passes s (bindings.map .ends) := by
  induction bindings generalizing s with
  | nil => trivial
  | cons b bindings ih => exact ⟨trivial, ih⟩

theorem foldl_ends : (bindings.map .ends).foldl ctx.step s = bindings.foldl State.endLoan s := by
  rw [List.foldl_map]
  rfl

theorem lends_ok {loans : List (ℕ × ℕ)}
    (hok : loans.foldlM (fun s loan ↦ do return s.lend loan.1 (← s.get loan.2)) s = .ok s') :
    ctx.Passes s (loans.map fun loan ↦ .starts loan.1 loan.2) ∧
      s' = (loans.map fun loan ↦ .starts loan.1 loan.2).foldl ctx.step s := by
  induction loans generalizing s with
  | nil => exact ⟨trivial, (pure_ok.1 hok).symm⟩
  | cons loan loans ih =>
    obtain ⟨t, ht, hok⟩ := bind_ok.1 hok
    obtain ⟨h, hget, ht⟩ := bind_ok.1 ht
    have hh := get_ok_iff.1 hget
    have hstep : ctx.step s (.starts loan.1 loan.2) = t := by
      rw [step, hh, ← pure_ok.1 ht]
      rfl
    rw [map_cons, foldl_cons, Passes, hstep]
    exact ⟨⟨⟨h, hh⟩, (ih hok).1⟩, (ih hok).2⟩

theorem events_ok {block : ℕ} (hok : ctx.events s block i = .ok s') :
    ctx.Passes s (ctx.loanSteps block i) ∧ s' = (ctx.loanSteps block i).foldl ctx.step s := by
  obtain ⟨hlends, hs'⟩ := @lends_ok ctx _ _ _ hok
  rw [loanSteps, passes_append, List.foldl_append, foldl_ends]
  exact ⟨⟨passes_ends, hlends⟩, hs'⟩

theorem position_ok (hok : position ctx block (s, work) i = .ok (s', work')) :
    (ctx.Passes s (ctx.stepsAt block i) ∧ s' = (ctx.stepsAt block i).foldl ctx.step s) ∧
      work < work' ∧ work' ≤ maxWork := by
  rw [position] at hok
  obtain ⟨hwork, hok⟩ := guard_ok.1 hok
  obtain ⟨t, ht, hok⟩ := bind_ok.1 hok
  obtain ⟨hloans, ht⟩ := events_ok ht
  have hpaid : work < work + (1 + s.cells) := by omega
  rw [stepsAt, passes_append, List.foldl_append, ← ht]
  split at hok
  · next op hop =>
    obtain ⟨u, hu, hok⟩ := bind_ok.1 hok
    obtain ⟨hreads, hallows, hu⟩ := operation_ok hu
    obtain ⟨rfl, rfl⟩ := Prod.mk.inj (pure_ok.1 hok)
    rw [hop]
    exact ⟨⟨⟨hloans, ⟨hreads, hallows⟩, trivial⟩, hu⟩, hpaid, not_lt.1 hwork⟩
  · next hop =>
    obtain ⟨rfl, rfl⟩ := Prod.mk.inj (pure_ok.1 hok)
    rw [hop]
    exact ⟨⟨⟨hloans, trivial⟩, rfl⟩, hpaid, not_lt.1 hwork⟩

theorem positions_ok {positions : List ℕ}
    (hok : positions.foldlM (position ctx block) (s, work) = .ok (s', work')) :
    ctx.Passes s (positions.flatMap (ctx.stepsAt block)) ∧
      s' = (positions.flatMap (ctx.stepsAt block)).foldl ctx.step s ∧
        work + positions.length ≤ work' ∧ (positions ≠ [] → work' ≤ maxWork) := by
  induction positions generalizing s work with
  | nil =>
    obtain ⟨rfl, rfl⟩ := Prod.mk.inj (pure_ok.1 hok)
    exact ⟨trivial, rfl, le_rfl, fun h ↦ absurd rfl h⟩
  | cons i positions ih =>
    obtain ⟨⟨t, w⟩, ht, hok⟩ := bind_ok.1 hok
    obtain ⟨⟨hpasses, rfl⟩, hlt, hle⟩ := position_ok ht
    obtain ⟨hrest, rfl, hsum, hmax⟩ := ih hok
    rw [flatMap_cons, passes_append, List.foldl_append, length_cons]
    refine ⟨⟨hpasses, hrest⟩, rfl, by omega, fun _ ↦ ?_⟩
    cases positions with
    | nil => exact (Prod.mk.inj (pure_ok.1 hok)).2 ▸ hle
    | cons j positions => exact hmax (cons_ne_nil j positions)

/-- **A transfer that succeeds has the effect of the block**, each step of which was allowed. -/
theorem transfer_ok {entry : TypedSemanticEntry} {budget budget' : Budget}
    (hok : transfer entry ctx id s budget = .ok (s', budget')) :
    (∃ block, entry.block id = some block ∧ ctx.Passes s (ctx.steps block)) ∧
      s' = ctx.blockEffect entry id s ∧
        budget.work < budget'.work ∧ budget'.work ≤ maxWork := by
  rw [transfer] at hok
  split at hok
  · exact nomatch hok
  next block hblock =>
  obtain ⟨⟨t, work⟩, ht, hok⟩ := bind_ok.1 hok
  obtain ⟨rfl, rfl⟩ := Prod.mk.inj (pure_ok.1 hok)
  obtain ⟨hpasses, rfl, hsum, hmax⟩ := positions_ok ht
  rw [blockEffect, hblock]
  rw [length_range] at hsum
  refine ⟨⟨block, rfl, hpasses⟩, rfl, lt_of_lt_of_le ?_ hsum, hmax ?_⟩
  · omega
  · exact fun h ↦ nomatch (congrArg List.length h).symm.trans length_range

end Checked

/-! ### The handles after an update -/

namespace State

variable {s other : State} {l j root binding loan : ℕ} {h h' : Handle} {retire : Bool}

theorem handle?_insert : (s.insert l h).handle? j = if j = l then some h else s.handle? j :=
  KeyedMap.find?_insert

theorem handle?_invalidate : (s.invalidate root retire).handle? j = some h ↔
      s.handle? j = some h ∧ (h.root ≠ root ∨ retire = false ∧ h.borrowed = false) := by
  rw [handle?, invalidate, KeyedMap.find?_retain_some_iff]
  simp [handle?]

theorem handle?_endLoan :
    (s.endLoan binding).handle? j = some h ↔ s.handle? j = some h ∧ binding ∉ h.loans := by
  rw [handle?, endLoan, KeyedMap.find?_retain_some_iff]
  simp [handle?]

theorem handle?_merge :
    (s.merge other).handle? j = some h ↔ s.handle? j = some h ∧ other.handle? j = some h := by
  rw [handle?, merge, KeyedMap.find?_retain_some_iff]
  simp [handle?]

theorem mem_lent_loans :
    loan ∈ (s.lent binding h).loans ↔
      loan = binding ∨ loan ∈ h.loans ∨ (loan, h.root) ∈ s.loans := by
  simp [lent]

end State

end CellScript.Checker.Lifetime
