import CellScript.Library.Fallible
import Mathlib.Data.List.Chain
import Mathlib.Data.List.Count

/-!
# Worklists

A worklist takes the pending items one at a time. The visit of an item changes the state, pushes
further items on top of the others, and may fail. A potential that pays for every pushed item bounds
the number of visits; `run` is the loop with that bound, and `run_nil` and `run_cons` are its two
equations, in which the bound no longer occurs.

`unvisited` is the potential of a walk that expands a node only on its first visit: the edges that
leave nodes not visited yet. `walk` is such a walk over a finite graph, from one node and around
another, and `mem_walk` says what it finds.

A node that no path can go around, and that no path comes back to, is on every path once
(`count_eq_one`).
-/

namespace Worklist

open List

variable {σ α ε : Type} {visit : σ → α → Except ε (σ × List α)} {potential : σ → ℕ}
  {pending : List α} {visits visits' : ℕ} {s s' : σ}

/-- The loop, for at most the given number of visits. -/
def drain (visit : σ → α → Except ε (σ × List α)) : ℕ → σ → List α → Option (Except ε σ)
  | _, s, [] => some (.ok s)
  | 0, _, _ :: _ => none
  | visits + 1, s, a :: pending =>
    match visit s a with
    | .error e => some (.error e)
    | .ok (s', pushed) => drain visit visits s' (pushed ++ pending)

/-- A potential pays for what each visit pushes. -/
def Pays (visit : σ → α → Except ε (σ × List α)) (potential : σ → ℕ) : Prop :=
  ∀ s a s' pushed, visit s a = .ok (s', pushed) → potential s' + pushed.length ≤ potential s

theorem drain_isSome (hpays : Pays visit potential)
    (h : potential s + pending.length ≤ visits) : (drain visit visits s pending).isSome := by
  induction visits generalizing s pending with
  | zero =>
    obtain rfl : pending = [] := eq_nil_of_length_eq_zero (by omega)
    rfl
  | succ visits ih =>
    cases pending with
    | nil => rfl
    | cons a pending =>
      unfold drain
      split
      · rfl
      · next s' pushed hvisit =>
        have := hpays s a s' pushed hvisit
        rw [length_cons] at h
        exact ih (by rw [length_append]; omega)

theorem drain_succ (h : (drain visit visits s pending).isSome) :
    drain visit (visits + 1) s pending = drain visit visits s pending := by
  induction visits generalizing s pending with
  | zero =>
    cases pending with
    | nil => rfl
    | cons a pending => exact nomatch h
  | succ visits ih =>
    cases pending with
    | nil => rfl
    | cons a pending =>
      rw [drain, drain]
      rw [drain] at h
      split
      · rfl
      · next s' pushed hvisit =>
        rw [hvisit] at h
        exact ih h

theorem drain_of_le (hle : visits ≤ visits') (h : (drain visit visits s pending).isSome) :
    drain visit visits' s pending = drain visit visits s pending := by
  induction hle with
  | refl => rfl
  | step _ ih => rw [drain_succ (by rw [ih]; exact h), ih]

/-- The loop until nothing is pending. -/
def run (visit : σ → α → Except ε (σ × List α)) (potential : σ → ℕ)
    (hpays : Pays visit potential) (s : σ) (pending : List α) : Except ε σ :=
  (drain visit (potential s + pending.length) s pending).get (drain_isSome hpays (Nat.le_refl _))

theorem drain_some_run (hpays : Pays visit potential) (h : potential s + pending.length ≤ visits) :
    drain visit visits s pending = some (run visit potential hpays s pending) := by
  rw [drain_of_le h (drain_isSome hpays le_rfl), run, Option.some_get]

variable (hpays : Pays visit potential) (s : σ)

@[simp] theorem run_nil : run visit potential hpays s [] = .ok s := by
  have h := drain_some_run hpays (le_refl (potential s + ([] : List α).length))
  rw [drain] at h
  exact (Option.some.inj h).symm

theorem run_cons (a : α) (pending : List α) :
    run visit potential hpays s (a :: pending) = (do
      let (s', pushed) ← visit s a
      run visit potential hpays s' (pushed ++ pending)) := by
  have h := drain_some_run hpays (Nat.le_refl (potential s + (a :: pending).length))
  rw [length_cons, ← Nat.add_assoc, drain] at h
  split at h
  · next e hvisit =>
    rw [hvisit]
    exact (Option.some.inj h).symm
  · next s' pushed hvisit =>
    rw [hvisit]
    have hfuel : potential s' + (pushed ++ pending).length ≤ potential s + pending.length := by
      have := hpays s a s' pushed hvisit
      rw [length_append]
      omega
    rw [drain_some_run hpays hfuel] at h
    exact (Option.some.inj h).symm

variable {hpays s}

/-- **What every visit keeps, the loop keeps**: an invariant of the state and the pending items
holds at the end, where nothing is pending. -/
theorem run_induction (Inv : σ → List α → Prop)
    (hvisit : ∀ s a pending s' pushed, Inv s (a :: pending) → visit s a = .ok (s', pushed) →
      Inv s' (pushed ++ pending))
    (hinit : Inv s pending) (h : run visit potential hpays s pending = .ok s') : Inv s' [] := by
  induction hn : potential s + pending.length using Nat.strongRecOn generalizing s pending with
  | _ n ih =>
    cases pending with
    | nil =>
      obtain rfl : s = s' := by simpa using h
      exact hinit
    | cons a pending =>
      rw [run_cons, bind_ok] at h
      obtain ⟨⟨t, pushed⟩, ht, h⟩ := h
      have hsmaller : potential t + (pushed ++ pending).length < n := by
        have := hpays s a t pushed ht
        rw [length_append, ← hn, length_cons]
        omega
      exact ih _ hsmaller (hvisit s a pending t pushed hinit ht) h rfl

/-! ### Walks that expand each node once -/

variable {ν : Type}

section Walk

variable {β : Type} [DecidableEq ν] (source : β → ν) (edges : List β)

/-- The edges that leave nodes not visited yet. -/
def unvisited (visited : List ν) : ℕ := edges.countP fun e ↦ source e ∉ visited

/-- **The first visit of a node uses up its edges.** -/
theorem unvisited_cons {visited : List ν} {v : ν} (hv : v ∉ visited) :
    unvisited source edges (v :: visited) + (edges.filter fun e ↦ source e = v).length
      = unvisited source edges visited := by
  unfold unvisited
  induction edges with
  | nil => rfl
  | cons e edges ih =>
    simp only [countP_cons]
    obtain rfl | hne := eq_or_ne (source e) v
    · simp only [mem_cons, true_or, not_true, decide_false] at ih ⊢
      simp [hv] at ih ⊢
      omega
    · simp [hne] at ih ⊢
      omega

end Walk

/-! ### The nodes that a walk finds -/

variable {next : ν → List ν} {start v : ν}

section Find

variable [DecidableEq ν] {nodes visited visited' pushed : List ν} {excluded : Option ν}

/-- A node is visited once, the excluded one never. The last node after it comes next. -/
def visitOnce (next : ν → List ν) (excluded : Option ν) (visited : List ν) (v : ν) :
    Except Empty (List ν × List ν) :=
  if some v = excluded ∨ v ∈ visited then .ok (visited, []) else
    .ok (v :: visited, (next v).reverse)

/-- The edges that leave the given nodes. -/
def edgesOf (next : ν → List ν) (nodes : List ν) : List (ν × ν) :=
  nodes.flatMap fun v ↦ (next v).map (v, ·)

theorem length_next_le (hnodes : next v ≠ [] → v ∈ nodes) :
    (next v).length ≤ ((edgesOf next nodes).filter fun e ↦ e.1 = v).length := by
  by_cases hv : next v = []
  · rw [hv]
    exact Nat.zero_le _
  · have hsub : ((next v).map (v, ·)).Sublist (edgesOf next nodes) := by
      obtain ⟨l₁, l₂, rfl⟩ := append_of_mem (hnodes hv)
      rw [edgesOf, flatMap_append]
      exact (sublist_append_left _ _).trans (sublist_append_right _ _)
    have hfilter : ((next v).map (v, ·)).filter (fun e ↦ e.1 = v) = (next v).map (v, ·) :=
      filter_eq_self.2 (by simp)
    have hle := (hsub.filter fun e ↦ e.1 = v).length_le
    rwa [hfilter, length_map] at hle

theorem visitOnce_pays (hnodes : ∀ v, next v ≠ [] → v ∈ nodes) (excluded : Option ν) :
    Pays (visitOnce next excluded) (unvisited Prod.fst (edgesOf next nodes)) := by
  intro visited v visited' pushed h
  unfold visitOnce at h
  split at h
  · obtain ⟨rfl, rfl⟩ := Prod.mk.inj (ok.inj h)
    exact le_rfl
  · next hnew =>
    obtain ⟨rfl, rfl⟩ := Prod.mk.inj (ok.inj h)
    have hcons := unvisited_cons Prod.fst (edgesOf next nodes) (not_or.1 hnew).2
    have hle := length_next_le (hnodes v)
    rw [length_reverse]
    omega

/-- The nodes found from a start, on the way around the excluded one. -/
def walk (next : ν → List ν) (nodes : List ν) (hnodes : ∀ v, next v ≠ [] → v ∈ nodes)
    (excluded : Option ν) (start : ν) : List ν :=
  match run (visitOnce next excluded) _ (visitOnce_pays hnodes excluded) [] [start] with
  | .ok visited => visited

/-- A step that does not come to the excluded node. -/
def Around (next : ν → List ν) (excluded : Option ν) (v w : ν) : Prop :=
  w ∈ next v ∧ some w ≠ excluded

/-- What holds during the walk: it has found only what can be reached, and what comes after a
visited node is visited, pending or excluded. -/
structure Walked (next : ν → List ν) (excluded : Option ν) (start : ν) (visited pending : List ν) :
    Prop where
  reached : ∀ v, v ∈ visited ∨ v ∈ pending → some v ≠ excluded →
    some start ≠ excluded ∧ Relation.ReflTransGen (Around next excluded) start v
  visited_ne : ∀ v ∈ visited, some v ≠ excluded
  closed : ∀ v ∈ visited, ∀ w ∈ next v, some w ≠ excluded → w ∈ visited ∨ w ∈ pending
  start_mem : some start ≠ excluded → start ∈ visited ∨ start ∈ pending

omit [DecidableEq ν] in
theorem walked_init : Walked next excluded start [] [start] where
  reached := by
    rintro v (h | h) hv
    · exact absurd h not_mem_nil
    · obtain rfl := mem_singleton.1 h
      exact ⟨hv, .refl⟩
  visited_ne := fun _ h ↦ absurd h not_mem_nil
  closed := fun _ h ↦ absurd h not_mem_nil
  start_mem := fun _ ↦ .inr mem_cons_self

/-- One visit keeps it. -/
theorem Walked.after_visit {pending : List ν}
    (hinv : Walked next excluded start visited (v :: pending))
    (h : visitOnce next excluded visited v = .ok (visited', pushed)) :
    Walked next excluded start visited' (pushed ++ pending) := by
  unfold visitOnce at h
  split at h
  · next hold =>
    -- nothing changes but that the node is no longer pending
    obtain ⟨rfl, rfl⟩ := Prod.mk.inj (ok.inj h)
    have hmove : ∀ w, some w ≠ excluded → w ∈ visited ∨ w ∈ v :: pending →
        w ∈ visited ∨ w ∈ pending := by
      rintro w hw (hmem | hmem)
      · exact .inl hmem
      · rcases mem_cons.1 hmem with rfl | hmem
        · exact .inl (hold.resolve_left hw)
        · exact .inr hmem
    refine ⟨fun w hw hne ↦ ?_, hinv.visited_ne, fun u hu w hw hne ↦ ?_, fun hne ↦ ?_⟩
    · exact hinv.reached w (hw.imp_right (mem_cons_of_mem v)) hne
    · exact hmove w hne (hinv.closed u hu w hw hne)
    · exact hmove start hne (hinv.start_mem hne)
  · next hnew =>
    obtain ⟨rfl, rfl⟩ := Prod.mk.inj (ok.inj h)
    obtain ⟨hv, -⟩ := not_or.1 hnew
    obtain ⟨hstart, hreach⟩ := hinv.reached v (.inr mem_cons_self) hv
    have hmove : ∀ w, w ∈ visited ∨ w ∈ v :: pending →
        w ∈ v :: visited ∨ w ∈ (next v).reverse ++ pending := by
      rintro w (hmem | hmem)
      · exact .inl (mem_cons_of_mem v hmem)
      · rcases mem_cons.1 hmem with rfl | hmem
        · exact .inl mem_cons_self
        · exact .inr (mem_append_right _ hmem)
    refine ⟨fun w hw hne ↦ ?_, ?_, fun u hu w hw hne ↦ ?_, fun hne ↦
      hmove start (hinv.start_mem hne)⟩
    · rcases hw with hw | hw
      · rcases mem_cons.1 hw with rfl | hw
        · exact ⟨hstart, hreach⟩
        · exact hinv.reached w (.inl hw) hne
      · rcases mem_append.1 hw with hw | hw
        · exact ⟨hstart, hreach.tail ⟨mem_reverse.1 hw, hne⟩⟩
        · exact hinv.reached w (.inr (mem_cons_of_mem v hw)) hne
    · exact forall_mem_cons.2 ⟨hv, hinv.visited_ne⟩
    · rcases mem_cons.1 hu with rfl | hu
      · exact .inr (mem_append_left _ (mem_reverse.2 hw))
      · exact hmove w (hinv.closed u hu w hw hne)

/-- **A walk finds the nodes that can be reached around the excluded one**, and no others. -/
theorem mem_walk {hnodes : ∀ v, next v ≠ [] → v ∈ nodes} :
    v ∈ walk next nodes hnodes excluded start ↔
      some start ≠ excluded ∧ Relation.ReflTransGen (Around next excluded) start v := by
  unfold walk
  split
  next visited hrun =>
  have hend : Walked next excluded start visited [] :=
    run_induction (Walked next excluded start)
      (fun _ _ _ _ _ hinv hvisit ↦ hinv.after_visit hvisit) walked_init hrun
  constructor
  · intro hv
    exact hend.reached v (.inl hv) (hend.visited_ne v hv)
  · rintro ⟨hstart, hreach⟩
    induction hreach with
    | refl => exact (hend.start_mem hstart).resolve_right not_mem_nil
    | tail _ hstep ih =>
      exact (hend.closed _ ih _ hstep.1 hstep.2).resolve_right not_mem_nil

end Find

/-! ### Nodes that every path meets once -/

section Once

variable {last : ν} {path : List ν}

/-- A path that does not meet a node goes around it. -/
theorem around_of_isChain (hpath : (start :: path).IsChain fun v w ↦ w ∈ next v)
    (hlast : (start :: path).getLast? = some last) (hv : v ∉ start :: path) :
    some start ≠ some v ∧ Relation.ReflTransGen (Around next (some v)) start last := by
  refine ⟨fun h ↦ ne_of_not_mem_cons hv (Option.some.inj h).symm, ?_⟩
  induction path generalizing start with
  | nil =>
    obtain rfl : start = last := by simpa using hlast
    exact .refl
  | cons w path ih =>
    rw [isChain_cons_cons] at hpath
    have hv := not_mem_of_not_mem_cons hv
    have hw : some w ≠ some v := fun h ↦ ne_of_not_mem_cons hv (Option.some.inj h).symm
    exact .head ⟨hpath.1, hw⟩ (ih hpath.2 hlast hv)

/-- A path from a node to which no path comes back does not meet it again. -/
theorem not_mem_of_no_return (hpath : (v :: path).IsChain fun v w ↦ w ∈ next v)
    (hreturn : ∀ w ∈ next v, ¬ Relation.ReflTransGen (fun v w ↦ w ∈ next v) w v) : v ∉ path := by
  intro hmem
  cases path with
  | nil => exact absurd hmem not_mem_nil
  | cons w path =>
    rw [isChain_cons_cons] at hpath
    have hpairs : (w :: path).Pairwise (Relation.TransGen fun v w ↦ w ∈ next v) :=
      isChain_iff_pairwise.1 (hpath.2.imp fun _ _ h ↦ Relation.TransGen.single h)
    rcases mem_cons.1 hmem with rfl | hmem
    · exact hreturn v hpath.1 .refl
    · exact hreturn w hpath.1 (rel_of_pairwise_cons hpairs hmem).to_reflTransGen

/-- **A node that no path can go around or come back to is on every path once.** -/
theorem count_eq_one [DecidableEq ν] (hpath : (start :: path).IsChain fun v w ↦ w ∈ next v)
    (hlast : (start :: path).getLast? = some last)
    (haround : ¬ (some start ≠ some v ∧ Relation.ReflTransGen (Around next (some v)) start last))
    (hreturn : ∀ w ∈ next v, ¬ Relation.ReflTransGen (fun v w ↦ w ∈ next v) w v) :
    (start :: path).count v = 1 := by
  have hmem : v ∈ start :: path := by
    by_contra hv
    exact haround (around_of_isChain hpath hlast hv)
  obtain ⟨before, after, hsplit, hbefore⟩ := eq_append_cons_of_mem hmem
  rw [hsplit] at hpath
  have hafter : v ∉ after := not_mem_of_no_return hpath.right_of_append hreturn
  rw [hsplit, count_append, count_cons_self, count_eq_zero.2 hbefore, count_eq_zero.2 hafter]

end Once

end Worklist
