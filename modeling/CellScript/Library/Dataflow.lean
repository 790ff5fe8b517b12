import CellScript.Library.Fallible
import Mathlib.Data.List.Sort

/-!
# Forward dataflow over a graph

A worklist that computes one state for every node of a graph: the state of a node is transferred to
its successors, where it is merged with the state already there, and a node whose state has changed
is pending again. A transfer may fail, and then the whole analysis does. What the loop keeps account
of besides the states, such as a budget, is a parameter.

## The two rules

* `solve_covers` is soundness. If a merged state covers whatever either of its parts covers, and a
  transfer covers the effect of the node, then the state of a node covers every state with which
  the node is reached along a path, and the transfer of that state has succeeded.
* `solve_invariant` is about the computed states themselves: what holds at the entry and is kept by
  transfers and merges holds of every state in the result.

The first rests on the nodes that are *not* pending, the second does not mention them.
-/

/-- A dataflow problem: the graph, the transfer of a node, the merge, and the account of what is
stored. -/
structure Dataflow (ι σ τ ε : Type) where
  successors : ι → List ι
  transfer : ι → σ → τ → Except ε (σ × τ)
  merge : σ → σ → σ
  account : τ → Option σ → σ → Except ε τ

namespace Dataflow

open Function

variable {ι σ τ ε : Type} {targets : List ι} {out a : σ}

/-- The states computed so far and the nodes that are pending, least first. -/
structure Progress (ι σ τ : Type) where
  incoming : ι → Option σ
  pending : List ι
  accounts : τ

section Below

variable {γ : Type} {covers : σ → γ → Prop}

/-- One state covers whatever another does. -/
def Below (covers : σ → γ → Prop) (a b : σ) : Prop := ∀ s, covers b s → covers a s

theorem Below.refl : Below covers a a := fun _ hs ↦ hs

theorem Below.trans {b c : σ} (h : Below covers a b) (h' : Below covers b c) : Below covers a c :=
  fun s hs ↦ h s (h' s hs)

/-- What becomes of the states when a state is sent to some nodes. -/
structure Sent (covers : σ → γ → Prop) (out : σ) (targets : List ι) (p p' : Progress ι σ τ) :
    Prop where
  descends : ∀ m a, p.incoming m = some a → ∃ a', p'.incoming m = some a' ∧ Below covers a' a
  arrived : ∀ m ∈ targets, ∃ a, p'.incoming m = some a ∧ Below covers a out
  changed : ∀ m a, p'.incoming m = some a → m ∈ p'.pending ∨ p.incoming m = some a
  pending : ∀ m ∈ p.pending, m ∈ p'.pending

theorem Sent.trans {targets' : List ι} {p p' p'' : Progress ι σ τ}
    (h : Sent covers out targets p p') (h' : Sent covers out targets' p' p'') :
    Sent covers out (targets ++ targets') p p'' := by
  refine ⟨fun m a hm ↦ ?_, fun m hm ↦ ?_, fun m a hm ↦ ?_, fun m hm ↦ ?_⟩
  · obtain ⟨a', ha', hbelow⟩ := h.descends m a hm
    obtain ⟨a'', ha'', hbelow'⟩ := h'.descends m a' ha'
    exact ⟨a'', ha'', hbelow'.trans hbelow⟩
  · rcases List.mem_append.1 hm with hm | hm
    · obtain ⟨a, ha, hbelow⟩ := h.arrived m hm
      obtain ⟨a', ha', hbelow'⟩ := h'.descends m a ha
      exact ⟨a', ha', hbelow'.trans hbelow⟩
    · exact h'.arrived m hm
  · rcases h'.changed m a hm with hpending | hm
    · exact .inl hpending
    · exact (h.changed m a hm).imp (h'.pending m) id
  · exact h'.pending m (h.pending m hm)

end Below

variable [LinearOrder ι] [DecidableEq σ] (D : Dataflow ι σ τ ε)

/-- A state arrives at a node. -/
def arrive (out : σ) (p : Progress ι σ τ) (n : ι) : Except ε (Progress ι σ τ) := do
  let state := (p.incoming n).elim out (D.merge · out)
  let accounts ← D.account p.accounts (p.incoming n) state
  let pending :=
    if p.incoming n = some state ∨ n ∈ p.pending then p.pending
    else p.pending.orderedInsert (· ≤ ·) n
  return { incoming := update p.incoming n (some state), pending, accounts }

/-- A pending node, taken from the front, is transferred to its successors. -/
def visit (p : Progress ι σ τ) (n : ι) (state : σ) : Except ε (Progress ι σ τ) := do
  let (out, accounts) ← D.transfer n state p.accounts
  (D.successors n).foldlM (D.arrive out) { p with pending := p.pending.tail, accounts }

/-- The loop, for at most the given number of visits; the given error ends a loop that needs
more. -/
def solve (exhausted : ε) : ℕ → Progress ι σ τ → Except ε (Progress ι σ τ)
  | 0, _ => .error exhausted
  | visits + 1, p =>
    match p.pending with
    | [] => .ok p
    | n :: _ =>
      match p.incoming n with
      | none => .error exhausted
      | some state => do solve exhausted visits (← D.visit p n state)

/-- A node is reached along a path, with the state that the effects along the path leave. -/
inductive Reaches (successors : ι → List ι) (effect : ι → σ → σ) (entry : ι) (initial : σ) :
    ι → σ → Prop
  | entry : Reaches successors effect entry initial entry initial
  | step {m n : ι} {s : σ} (h : Reaches successors effect entry initial m s)
      (hn : n ∈ successors m) : Reaches successors effect entry initial n (effect m s)

variable {D} {exhausted : ε} {visits : ℕ}

/-! ### A state arrives at a node -/

/-- The state of a node after another one has arrived. -/
def joined (merge : σ → σ → σ) (out : σ) (old : Option σ) : σ := old.elim out (merge · out)

section Arrive

variable {out : σ} {p p' : Progress ι σ τ} {n : ι}

theorem arrive_incoming (h : D.arrive out p n = .ok p') :
    p'.incoming = update p.incoming n (some (joined D.merge out (p.incoming n))) := by
  obtain ⟨accounts, -, h⟩ := bind_ok.1 h
  rw [← pure_ok.1 h]
  rfl

/-- A node is pending if it was, or if its state has changed. -/
theorem mem_arrive_pending (h : D.arrive out p n = .ok p') {m : ι} :
    m ∈ p'.pending ↔
      m ∈ p.pending ∨ m = n ∧ p.incoming n ≠ some (joined D.merge out (p.incoming n)) := by
  obtain ⟨accounts, -, h⟩ := bind_ok.1 h
  rw [← pure_ok.1 h]
  split
  · next hsame =>
    refine ⟨.inl, ?_⟩
    rintro (hm | ⟨rfl, hne⟩)
    · exact hm
    · exact hsame.resolve_left hne
  · next hnot =>
    rw [List.mem_orderedInsert]
    constructor
    · rintro (rfl | hm)
      · exact .inr ⟨rfl, fun heq ↦ hnot (.inl heq)⟩
      · exact .inl hm
    · rintro (hm | ⟨rfl, -⟩)
      · exact .inr hm
      · exact .inl rfl

end Arrive

/-! ### Soundness -/

section Covers

variable {γ : Type} {covers : σ → γ → Prop} {p p' : Progress ι σ τ}

/-- A merged state covers what either of its parts covers. -/
structure Merges (merge : σ → σ → σ) (covers : σ → γ → Prop) : Prop where
  left : ∀ a b, Below covers (merge a b) a
  right : ∀ a b, Below covers (merge a b) b

theorem sent_arrive (hmerge : Merges D.merge covers) {n : ι}
    (h : D.arrive out p n = .ok p') : Sent covers out [n] p p' := by
  have hincoming := arrive_incoming h
  refine ⟨fun m a hm ↦ ?_, fun m hm ↦ ?_, fun m a hm ↦ ?_, fun m hm ↦ ?_⟩
  · rcases eq_or_ne m n with rfl | hne
    · refine ⟨joined D.merge out (p.incoming m), by rw [hincoming, update_self], ?_⟩
      rw [hm]
      exact hmerge.left a out
    · exact ⟨a, by rw [hincoming, update_of_ne hne, hm], .refl⟩
  · obtain rfl := List.mem_singleton.1 hm
    refine ⟨joined D.merge out (p.incoming m), by rw [hincoming, update_self], ?_⟩
    cases p.incoming m with
    | none => exact .refl
    | some a => exact hmerge.right a out
  · rcases eq_or_ne m n with rfl | hne
    · rw [hincoming, update_self] at hm
      by_cases hsame : p.incoming m = some (joined D.merge out (p.incoming m))
      · exact .inr (hsame.trans hm)
      · exact .inl ((mem_arrive_pending h).2 (.inr ⟨rfl, hsame⟩))
    · rw [hincoming, update_of_ne hne] at hm
      exact .inr hm
  · exact (mem_arrive_pending h).2 (.inl hm)

theorem sent_foldlM (hmerge : Merges D.merge covers)
    (h : targets.foldlM (D.arrive out) p = .ok p') : Sent covers out targets p p' := by
  induction targets generalizing p with
  | nil =>
    obtain rfl := pure_ok.1 h
    exact ⟨fun m a hm ↦ ⟨a, hm, .refl⟩, fun m hm ↦ (List.not_mem_nil hm).elim,
      fun m a hm ↦ .inr hm, fun m hm ↦ hm⟩
  | cons n targets ih =>
    obtain ⟨q, hq, h⟩ := bind_ok.1 h
    exact (sent_arrive hmerge hq).trans (ih h)

variable (D) in
/-- The successors of a node have received its state. -/
def Settled (covers : σ → γ → Prop) (incoming : ι → Option σ) (n : ι) (state : σ) : Prop :=
  ∃ accounts out accounts', D.transfer n state accounts = .ok (out, accounts') ∧
    ∀ m ∈ D.successors n, ∃ state', incoming m = some state' ∧ Below covers state' out

variable (D) in
/-- Every node that is not pending is settled. -/
structure Solving (covers : σ → γ → Prop) (entry : ι) (initial : σ) (p : Progress ι σ τ) :
    Prop where
  entry : ∃ a, p.incoming entry = some a ∧ Below covers a initial
  settled : ∀ n state, p.incoming n = some state →
    n ∈ p.pending ∨ D.Settled covers p.incoming n state

variable {entry n : ι} {initial : σ} {accounts : τ}

theorem Solving.visit {state : σ} {rest : List ι} (hsolving : D.Solving covers entry initial p)
    (hmerge : Merges D.merge covers)
    (hpending : p.pending = n :: rest) (hstate : p.incoming n = some state)
    (h : D.visit p n state = .ok p') : D.Solving covers entry initial p' := by
  obtain ⟨⟨out, accounts⟩, htransfer, h⟩ := bind_ok.1 h
  have hsent := sent_foldlM hmerge h
  constructor
  · obtain ⟨a, ha, hbelow⟩ := hsolving.entry
    obtain ⟨a', ha', hbelow'⟩ := hsent.descends entry a ha
    exact ⟨a', ha', hbelow'.trans hbelow⟩
  · intro m a hm
    rcases hsent.changed m a hm with hm' | hm'
    · exact .inl hm'
    rcases eq_or_ne m n with rfl | hne
    · obtain rfl : state = a := Option.mem_unique hstate hm'
      exact .inr ⟨p.accounts, out, accounts, htransfer, hsent.arrived⟩
    · rcases hsolving.settled m a hm' with hm'' | ⟨τ₀, out', τ₁, htransfer', hsucc⟩
      · refine .inl (hsent.pending m ?_)
        rw [hpending] at hm'' ⊢
        exact List.mem_of_ne_of_mem hne hm''
      · refine .inr ⟨τ₀, out', τ₁, htransfer', fun k hk ↦ ?_⟩
        obtain ⟨b, hb, hbelow⟩ := hsucc k hk
        obtain ⟨b', hb', hbelow'⟩ := hsent.descends k b hb
        exact ⟨b', hb', hbelow'.trans hbelow⟩

theorem Solving.solve (hsolving : D.Solving covers entry initial p) (hmerge : Merges D.merge covers)
    (h : D.solve exhausted visits p = .ok p') :
    D.Solving covers entry initial p' ∧ p'.pending = [] := by
  induction visits generalizing p with
  | zero => exact nomatch h
  | succ visits ih =>
    rw [Dataflow.solve] at h
    split at h
    · next hpending =>
      obtain rfl := ok.inj h
      exact ⟨hsolving, hpending⟩
    · next n rest hpending =>
      split at h
      · exact nomatch h
      · next state hstate =>
        obtain ⟨q, hq, h⟩ := bind_ok.1 h
        exact ih (hsolving.visit hmerge hpending hstate hq) h

/-- The start of an analysis. -/
def start (entry : ι) (initial : σ) (accounts : τ) : Progress ι σ τ where
  incoming := update (fun _ ↦ none) entry (some initial)
  pending := [entry]
  accounts := accounts

omit [DecidableEq σ] in
theorem start_incoming :
    (start entry initial accounts).incoming n = some a ↔ n = entry ∧ a = initial := by
  show update (fun _ ↦ none) entry (some initial) n = some a ↔ _
  rcases eq_or_ne n entry with rfl | hne
  · simp [eq_comm]
  · simp [hne]

omit [DecidableEq σ] in
theorem solving_start : D.Solving covers entry initial (start entry initial accounts) := by
  refine ⟨⟨initial, start_incoming.2 ⟨rfl, rfl⟩, .refl⟩, fun n state hn ↦ ?_⟩
  obtain ⟨rfl, -⟩ := start_incoming.1 hn
  exact .inl (List.mem_singleton.2 rfl)

/-- **The computed states cover every path.** A node that is reached along a path has a state that
covers what the path leaves, and the transfer of that state has succeeded. -/
theorem solve_covers {p : Progress ι σ τ} {effect : ι → γ → γ} {initial' s : γ}
    (hmerge : Merges D.merge covers) (heffect : ∀ n a s accounts out accounts', covers a s →
      D.transfer n a accounts = .ok (out, accounts') → covers out (effect n s))
    (hinitial : covers initial initial')
    (h : D.solve exhausted visits (start entry initial accounts) = .ok p)
    (hreaches : Reaches D.successors effect entry initial' n s) :
    ∃ a, p.incoming n = some a ∧ covers a s ∧
      ∃ accounts out accounts', D.transfer n a accounts = .ok (out, accounts') := by
  obtain ⟨hsolving, hpending⟩ := solving_start.solve hmerge h
  have hsettled : ∀ n a, p.incoming n = some a → D.Settled covers p.incoming n a := by
    intro n a hn
    refine (hsolving.settled n a hn).resolve_left ?_
    rw [hpending]
    exact List.not_mem_nil
  suffices hcovered : ∃ a, p.incoming n = some a ∧ covers a s by
    obtain ⟨a, ha, hcovers⟩ := hcovered
    obtain ⟨τ₀, out, τ₁, htransfer, -⟩ := hsettled n a ha
    exact ⟨a, ha, hcovers, τ₀, out, τ₁, htransfer⟩
  induction hreaches with
  | entry =>
    obtain ⟨a, ha, hbelow⟩ := hsolving.entry
    exact ⟨a, ha, hbelow _ hinitial⟩
  | step _ hn ih =>
    obtain ⟨a, ha, hcovers⟩ := ih
    obtain ⟨τ₀, out, τ₁, htransfer, hsucc⟩ := hsettled _ a ha
    obtain ⟨b, hb, hbelow⟩ := hsucc _ hn
    exact ⟨b, hb, hbelow _ (heffect _ _ _ _ _ _ hcovers htransfer)⟩

end Covers

/-! ### Invariants of the computed states -/

section Invariant

variable {P : ι → σ → Prop}

theorem invariant_foldlM (hmerge : ∀ n a b, P n a → P n b → P n (D.merge a b))
    {p p' : Progress ι σ τ} (hout : ∀ n ∈ targets, P n out)
    (hp : ∀ n a, p.incoming n = some a → P n a) (h : targets.foldlM (D.arrive out) p = .ok p') :
    ∀ n a, p'.incoming n = some a → P n a := by
  induction targets generalizing p with
  | nil =>
    obtain rfl := pure_ok.1 h
    exact hp
  | cons m targets ih =>
    obtain ⟨q, hq, h⟩ := bind_ok.1 h
    refine ih (fun n hn ↦ hout n (List.mem_cons_of_mem _ hn)) (fun n a hn ↦ ?_) h
    rw [arrive_incoming hq] at hn
    rcases eq_or_ne n m with rfl | hne
    · rw [update_self] at hn
      obtain rfl := Option.some.inj hn
      have hhere := hout n List.mem_cons_self
      cases hold : p.incoming n with
      | none => exact hhere
      | some b => exact hmerge n b out (hp n b hold) hhere
    · rw [update_of_ne hne] at hn
      exact hp n a hn

/-- **What transfers and merges keep holds of every computed state.** -/
theorem solve_invariant {p p' : Progress ι σ τ}
    (hmerge : ∀ n a b, P n a → P n b → P n (D.merge a b))
    (htransfer : ∀ n m a accounts out accounts', P n a →
      D.transfer n a accounts = .ok (out, accounts') → m ∈ D.successors n → P m out)
    (hp : ∀ n a, p.incoming n = some a → P n a) (h : D.solve exhausted visits p = .ok p') :
    ∀ n a, p'.incoming n = some a → P n a := by
  induction visits generalizing p with
  | zero => exact nomatch h
  | succ visits ih =>
    rw [solve] at h
    split at h
    · obtain rfl := ok.inj h
      exact hp
    · next n rest hpending =>
      split at h
      · exact nomatch h
      · next state hstate =>
        obtain ⟨q, hq, h⟩ := bind_ok.1 h
        obtain ⟨⟨out, accounts⟩, hout, hq⟩ := bind_ok.1 hq
        refine ih (invariant_foldlM hmerge (fun m hm ↦ ?_) ?_ hq) h
        · exact htransfer n m state _ out accounts (hp n state hstate) hout hm
        · exact hp

end Invariant

end Dataflow
