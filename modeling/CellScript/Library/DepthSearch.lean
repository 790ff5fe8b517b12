import CellScript.Library.Fallible
import Mathlib.Data.List.Nodup
import Mathlib.Data.List.Perm.Subperm

/-!
# The deepest chain below a vertex

A graph is a list of children for each vertex. `Below` bounds the chains that leave a vertex, and
`deepest` computes such a bound by a memoised depth-first search that fails on a vertex it is still
working on. Depths saturate at a cap, so a depth determines the bound only below it.

What a successful search returns is right without a look at the set of active vertices:
`deepest_sound` holds because the search has ended on every chain below its start. The active
vertices are what makes it end: `deepest_of_le` says that as many calls as there are vertices are
enough.
-/

namespace DepthSearch

variable {V ε σ : Type}

/-! ### Bounded chains -/

section Below

variable {R : V → V → Prop} {n m : ℕ} {v w : V} {l : List V}

/-- Every chain that leaves a vertex has at most this many steps. -/
def Below (R : V → V → Prop) : ℕ → V → Prop
  | 0, v => ∀ w, ¬R v w
  | n + 1, v => ∀ w, R v w → Below R n w

theorem Below.succ (h : Below R n v) : Below R (n + 1) v := by
  induction n generalizing v with
  | zero => exact fun w hw ↦ absurd hw (h w)
  | succ n ih => exact fun w hw ↦ ih (h w hw)

theorem Below.mono (h : Below R n v) (hnm : n ≤ m) : Below R m v := by
  induction hnm with
  | refl => exact h
  | step _ ih => exact ih.succ

theorem below_of_forall (h : ∀ w, R v w → ∃ k, k + 1 ≤ n ∧ Below R k w) : Below R n v := by
  cases n with
  | zero =>
    intro w hw
    obtain ⟨k, hk, -⟩ := h w hw
    exact absurd hk (by omega)
  | succ n =>
    intro w hw
    obtain ⟨k, hk, hw⟩ := h w hw
    exact hw.mono (by omega)

/-- A vertex with finitely many children, all of them bounded, is bounded. -/
theorem exists_below_of_forall_mem (hl : ∀ w, R v w → w ∈ l) (h : ∀ w ∈ l, ∃ n, Below R n w) :
    ∃ n, Below R n v := by
  have hall : ∃ n, ∀ w ∈ l, Below R n w := by
    clear hl
    induction l with
    | nil => exact ⟨0, nofun⟩
    | cons w l ih =>
      rw [List.forall_mem_cons] at h
      obtain ⟨⟨n, hn⟩, h⟩ := h
      obtain ⟨m, hm⟩ := ih h
      exact ⟨max n m, List.forall_mem_cons.2
        ⟨hn.mono (Nat.le_max_left n m), fun w' hw' ↦ (hm w' hw').mono (Nat.le_max_right n m)⟩⟩
  obtain ⟨n, hn⟩ := hall
  exact ⟨n + 1, fun w hw ↦ hn w (hl w hw)⟩

theorem below_of_chains (h : ∀ l, (v :: l).IsChain R → l.length ≤ n) : Below R n v := by
  induction n generalizing v with
  | zero => exact fun w hw ↦ absurd (h [w] (.cons_cons hw (.singleton w))) (by simp)
  | succ n ih => exact fun w hw ↦ ih fun l hl ↦
    Nat.le_of_succ_le_succ (h (w :: l) (.cons_cons hw hl))

/-- A bounded vertex has what every vertex inherits from its children. -/
theorem Below.induction {P : V → Prop} (hstep : ∀ v, (∀ w, R v w → P w) → P v)
    (h : Below R n v) : P v := by
  induction n generalizing v with
  | zero => exact hstep v fun w hw ↦ absurd hw (h w)
  | succ n ih => exact hstep v fun w hw ↦ ih (h w hw)

/-- **A bound counts the steps of every chain.** -/
theorem Below.length_le (h : Below R n v) (hl : (v :: l).IsChain R) : l.length ≤ n := by
  induction l generalizing n v with
  | nil => exact Nat.zero_le n
  | cons w l ih =>
    rw [List.isChain_cons_cons] at hl
    cases n with
    | zero => exact absurd hl.1 (h w)
    | succ n => exact Nat.succ_le_succ (ih (h w hl.1) hl.2)

theorem Below.of_transGen (h : Below R n v) (hw : Relation.TransGen R v w) :
    ∃ k, k < n ∧ Below R k w := by
  induction hw with
  | single hvw =>
    cases n with
    | zero => exact absurd hvw (h _)
    | succ n => exact ⟨n, Nat.lt_succ_self n, h _ hvw⟩
  | tail _ hstep ih =>
    obtain ⟨k, hk, hb⟩ := ih
    cases k with
    | zero => exact absurd hstep (hb _)
    | succ k => exact ⟨k, by omega, hb _ hstep⟩

/-- **A bounded vertex is on no cycle.** -/
theorem Below.not_transGen_self (h : Below R n v) : ¬Relation.TransGen R v v := by
  induction n using Nat.strongRecOn with
  | _ n ih =>
    intro hcycle
    obtain ⟨k, hk, hb⟩ := h.of_transGen hcycle
    exact ih k hk hb hcycle

/-- The vertices of a chain without cycles are distinct. -/
theorem nodup_of_isChain (hR : ∀ v, ¬Relation.TransGen R v v) (hl : l.IsChain R) : l.Nodup := by
  have hpairs : l.Pairwise (Relation.TransGen R) :=
    List.isChain_iff_pairwise.1 (hl.imp fun _ _ h ↦ Relation.TransGen.single h)
  refine hpairs.imp ?_
  rintro a b hab rfl
  exact hR a hab

/-- In a finite graph without cycles every vertex is bounded. -/
theorem below_of_acyclic {targets : List V} (htargets : ∀ v w, R v w → w ∈ targets)
    (hR : ∀ v, ¬Relation.TransGen R v v) (v : V) : Below R targets.length v := by
  refine below_of_chains fun l hl ↦ List.Subperm.length_le
    (List.subperm_of_subset (nodup_of_isChain hR hl).of_cons fun w hw ↦ ?_)
  have hpairs : (v :: l).Pairwise (Relation.TransGen R) :=
    List.isChain_iff_pairwise.1 (hl.imp fun _ _ h ↦ Relation.TransGen.single h)
  obtain ⟨u, -, hu⟩ := Relation.TransGen.tail'_iff.1 (List.rel_of_pairwise_cons hpairs hw)
  exact htargets u w hu

end Below

/-! ### The search -/

section Search

variable [DecidableEq V] (children : V → List V) (cycle : V → ε) (cap : ℕ)

/-- The depths found so far. -/
abbrev Memo (V : Type) := V → Option ℕ

/-- The depth below a vertex, and the depths known afterwards. The first argument bounds the calls;
the last but one holds the vertices whose search has not ended. -/
def deepest : ℕ → V → List V → Memo V → Except ε (ℕ × Memo V)
  | 0, current, _, memo =>
    match memo current with
    | some depth => .ok (depth, memo)
    | none => .error (cycle current)
  | calls + 1, current, active, memo =>
    match memo current with
    | some depth => .ok (depth, memo)
    | none =>
      if current ∈ active then .error (cycle current)
      else do
        let (depth, memo) ← (children current).foldlM (fun (deepest', memo) child ↦ do
          let (depth, memo) ← deepest calls child (current :: active) memo
          return (max deepest' (min (depth + 1) cap), memo)) (0, memo)
        return (depth, Function.update memo current (some depth))

end Search

section Sound

variable {children : V → List V} {cycle : V → ε} {cap : ℕ} {calls depth n : ℕ} {current : V}
  {active cs : List V} {memo memo' : Memo V}

/-- Every depth in the memo comes from a bound. -/
def Settled (children : V → List V) (cap : ℕ) (memo : Memo V) : Prop :=
  ∀ v depth, memo v = some depth → ∃ n, depth = min n cap ∧ Below (fun a b ↦ b ∈ children a) n v

theorem settled_empty : Settled children cap fun _ ↦ none :=
  fun _ _ h ↦ nomatch h

/-- The loop over the children: the largest depth found bounds each of them by one step less. -/
private theorem foldlM_sound {f : V → Memo V → Except ε (ℕ × Memo V)}
    (hf : ∀ v memo depth memo', f v memo = .ok (depth, memo') → Settled children cap memo →
      Settled children cap memo' ∧
        ∃ n, depth = min n cap ∧ Below (fun a b ↦ b ∈ children a) n v)
    (hmemo : Settled children cap memo) (h : cs.foldlM (fun (deepest', memo) child ↦ do
        let (depth, memo) ← f child memo
        return (max deepest' (min (depth + 1) cap), memo)) (min n cap, memo)
      = Except.ok (depth, memo')) :
    Settled children cap memo' ∧ ∃ m, n ≤ m ∧ depth = min m cap ∧
      ∀ c ∈ cs, ∃ k, k + 1 ≤ m ∧ Below (fun a b ↦ b ∈ children a) k c := by
  induction cs generalizing n memo with
  | nil =>
    obtain ⟨rfl, rfl⟩ : min n cap = depth ∧ memo = memo' := by simpa using h
    exact ⟨hmemo, n, Nat.le_refl n, rfl, fun c hc ↦ absurd hc List.not_mem_nil⟩
  | cons c cs ih =>
    rw [List.foldlM_cons, bind_ok] at h
    obtain ⟨⟨d₁, memo₁⟩, hstep, h⟩ := h
    obtain ⟨⟨d₀, memo₀⟩, hc, hstep⟩ := bind_ok.1 hstep
    obtain ⟨rfl, rfl⟩ : max (min n cap) (min (d₀ + 1) cap) = d₁ ∧ memo₀ = memo₁ := by
      simpa using hstep
    obtain ⟨hmemo₀, k, rfl, hk⟩ := hf c memo d₀ memo₀ hc hmemo
    have hmax : max (min n cap) (min (min k cap + 1) cap) = min (max n (k + 1)) cap := by omega
    rw [hmax] at h
    obtain ⟨hmemo', m, hm, hdepth, hcs⟩ := ih hmemo₀ h
    refine ⟨hmemo', m, by omega, hdepth, ?_⟩
    intro c' hc'
    obtain rfl | hc' := List.mem_cons.1 hc'
    · exact ⟨k, by omega, hk⟩
    · exact hcs c' hc'

variable [DecidableEq V]

theorem Settled.update (h : Settled children cap memo)
    (hn : Below (fun a b ↦ b ∈ children a) n current) :
    Settled children cap (Function.update memo current (some (min n cap))) := by
  intro v depth hv
  obtain rfl | hne := eq_or_ne v current
  · rw [Function.update_self, Option.some.injEq] at hv
    exact ⟨n, hv.symm, hn⟩
  · rw [Function.update_of_ne hne] at hv
    exact h v depth hv

/-- **A search that ends returns the depth of a bound**, and leaves only such depths behind. -/
theorem deepest_sound (h : deepest children cycle cap calls current active memo
      = .ok (depth, memo')) (hmemo : Settled children cap memo) :
    Settled children cap memo' ∧
      ∃ n, depth = min n cap ∧ Below (fun a b ↦ b ∈ children a) n current := by
  induction calls generalizing current active memo depth memo' with
  | zero =>
    unfold deepest at h
    split at h
    · next d hd =>
      obtain ⟨rfl, rfl⟩ : d = depth ∧ memo = memo' := by simpa using h
      exact ⟨hmemo, hmemo current d hd⟩
    · exact nomatch h
  | succ calls ih =>
    unfold deepest at h
    split at h
    · next d hd =>
      obtain ⟨rfl, rfl⟩ : d = depth ∧ memo = memo' := by simpa using h
      exact ⟨hmemo, hmemo current d hd⟩
    · split at h
      · exact nomatch h
      · obtain ⟨⟨d, memo₁⟩, hfold, h⟩ := bind_ok.1 h
        obtain ⟨rfl, rfl⟩ : d = depth ∧ Function.update memo₁ current (some d) = memo' := by
          simpa using h
        rw [← Nat.zero_min cap] at hfold
        obtain ⟨hmemo₁, n, -, rfl, hcs⟩ := foldlM_sound (fun _ _ _ _ hc hm ↦ ih hc hm) hmemo hfold
        have hn : Below (fun a b ↦ b ∈ children a) n current := below_of_forall hcs
        exact ⟨hmemo₁.update hn, n, rfl, hn⟩

end Sound

/-! ### Enough calls -/

section Calls

variable [DecidableEq V] {children : V → List V} {cycle : V → ε} {cap calls : ℕ} {current : V}
  {vertices active : List V} {memo : Memo V} (hclosed : ∀ v, ∀ w ∈ children v, w ∈ vertices)

include hclosed

/-- The vertices on the way are distinct, so one call more is of no use once there are as many calls
and vertices on the way as vertices. -/
theorem deepest_succ (hnodup : active.Nodup) (hsub : active ⊆ vertices)
    (hcurrent : current ∈ vertices) (hcalls : vertices.length ≤ active.length + calls) :
    deepest children cycle cap (calls + 1) current active memo
      = deepest children cycle cap calls current active memo := by
  induction calls generalizing current active memo with
  | zero =>
    have hperm := (List.subperm_of_subset hnodup hsub).perm_of_length_le hcalls
    rw [deepest, deepest, if_pos (hperm.mem_iff.2 hcurrent)]
  | succ calls ih =>
    rw [deepest, deepest]
    split
    · rfl
    · split
      · rfl
      · next hactive =>
        rw [Except.foldlM_congr fun child hchild s ↦ ?_]
        obtain ⟨d, memo⟩ := s
        dsimp only
        rw [ih (List.nodup_cons.2 ⟨hactive, hnodup⟩) (List.cons_subset.2 ⟨hcurrent, hsub⟩)
          (hclosed _ _ hchild) (by rw [List.length_cons]; omega)]

/-- **As many calls as there are vertices are enough.** -/
theorem deepest_of_le (hcurrent : current ∈ vertices) (hcalls : vertices.length ≤ calls) :
    deepest children cycle cap calls current [] memo
      = deepest children cycle cap vertices.length current [] memo := by
  induction hcalls with
  | refl => rfl
  | step hle ih =>
    rw [deepest_succ hclosed .nil (List.nil_subset _) hcurrent (by simpa using hle), ih]

end Calls

end DepthSearch
