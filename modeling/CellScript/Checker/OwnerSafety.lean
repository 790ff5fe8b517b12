import CellScript.Checker.OwnerPaths

/-!
# Owners are safe on every path

The states that the lifetime checker computes cover every path: a handle that the checker holds to
be available is available on each path, and a loan that is active on a path is active for the
checker. So no path reads a handle that is gone, and none changes an owner under a loan.

The converse fails at joins, where a handle that only some paths bring is dropped. `Exact` says how
far it holds: the checker's state is the summary of a family of path states, so it has every handle
on which all of them agree.
-/

namespace CellScript.Checker.Lifetime

open Dataflow State

/-! ### Covered states -/

/-- A handle of a path refines the checker's: it is the same handle with fewer loans. -/
structure Handle.Refines (h' h : Handle) : Prop where
  root : h'.root = h.root
  borrowed : h'.borrowed = h.borrowed
  loans : h'.loans ⊆ h.loans

theorem Handle.Refines.refl {h : Handle} : h.Refines h := ⟨rfl, rfl, Finset.Subset.refl _⟩

/-- Available is what every path has; active are the loans of any path. -/
structure Covers (a s : State) : Prop where
  handles : ∀ l h, a.handle? l = some h → ∃ h', s.handle? l = some h' ∧ h'.Refines h
  loans : s.loans ⊆ a.loans

variable {a s : State} {h : Handle} {l root binding : ℕ} {retire : Bool} {ctx : Context}

section Covers

variable {h' : Handle}

theorem Covers.refl : Covers s s := ⟨fun _ h hh ↦ ⟨h, hh, .refl⟩, Finset.Subset.refl _⟩

variable (hcovers : Covers a s)

include hcovers

theorem Covers.insert (href : h'.Refines h) : Covers (a.insert l h) (s.insert l h') := by
  refine ⟨fun j k hk ↦ ?_, hcovers.loans⟩
  rw [handle?_insert] at hk
  rw [handle?_insert]
  split at hk
  · next heq =>
    rw [if_pos heq]
    obtain rfl := some.inj hk
    exact ⟨h', rfl, href⟩
  · next hne =>
    rw [if_neg hne]
    exact hcovers.handles j k hk

/-- A handle of the checker is there on the path. -/
theorem Covers.exists_handle (h : ∃ k, a.handle? l = some k) : ∃ k, s.handle? l = some k := by
  obtain ⟨k, hk⟩ := h
  obtain ⟨k', hk', -⟩ := hcovers.handles l k hk
  exact ⟨k', hk'⟩

theorem Covers.invalidate : Covers (a.invalidate root retire) (s.invalidate root retire) := by
  refine ⟨fun j k hk ↦ ?_, hcovers.loans⟩
  obtain ⟨hk, hkept⟩ := handle?_invalidate.1 hk
  obtain ⟨k', hk', href⟩ := hcovers.handles j k hk
  refine ⟨k', handle?_invalidate.2 ⟨hk', ?_⟩, href⟩
  rwa [href.root, href.borrowed]

theorem Covers.endLoan : Covers (a.endLoan binding) (s.endLoan binding) := by
  refine ⟨fun j k hk ↦ ?_, Finset.filter_subset_filter _ hcovers.loans⟩
  obtain ⟨hk, hkept⟩ := handle?_endLoan.1 hk
  obtain ⟨k', hk', href⟩ := hcovers.handles j k hk
  exact ⟨k', handle?_endLoan.2 ⟨hk', fun hmem ↦ hkept (href.loans hmem)⟩, href⟩

theorem Covers.lent (href : h'.Refines h) : (s.lent binding h').Refines (a.lent binding h) := by
  refine ⟨href.root, rfl, fun loan hloan ↦ ?_⟩
  rw [mem_lent_loans] at hloan ⊢
  rcases hloan with heq | hloan | hloan
  · exact .inl heq
  · exact .inr (.inl (href.loans hloan))
  · exact .inr (.inr (href.root ▸ hcovers.loans hloan))

theorem Covers.lend (href : h'.Refines h) : Covers (a.lend binding h) (s.lend binding h') := by
  refine ⟨(hcovers.insert (hcovers.lent href)).handles, ?_⟩
  rw [State.lend, href.root]
  exact Finset.insert_subset_insert _ hcovers.loans

theorem Covers.unloaned (hunloaned : a.Unloaned root) : s.Unloaned root :=
  fun loan hloan ↦ hunloaned loan (hcovers.loans hloan)

theorem Covers.effect {action : Action} (hallows : a.Allows action) :
    Covers (a.effect action) (s.effect action) := by
  cases action with
  | idle => exact hcovers
  | create dest => exact hcovers.invalidate.insert .refl
  | change source retire =>
    obtain ⟨h, hh, -⟩ := hallows
    obtain ⟨h', hh', href⟩ := hcovers.handles source h hh
    rw [State.effect, State.effect, hh, hh', elim_some, elim_some, href.root]
    exact hcovers.invalidate
  | move source dest =>
    obtain ⟨⟨h, hh, -⟩, -⟩ := hallows
    obtain ⟨h', hh', href⟩ := hcovers.handles source h hh
    rw [State.effect, State.effect, hh, hh', elim_some, elim_some, href.root, href.borrowed]
    split
    · exact hcovers.insert href
    · exact hcovers.invalidate.insert href
  | refer source dest =>
    obtain ⟨⟨h, hh⟩, -⟩ := hallows
    obtain ⟨h', hh', href⟩ := hcovers.handles source h hh
    rw [State.effect, State.effect, hh, hh', elim_some]
    exact hcovers.insert ⟨href.root, rfl, href.loans⟩

theorem Covers.step {next : Step}
    (hallowed : ctx.Allowed a next) : Covers (ctx.step a next) (ctx.step s next) := by
  cases next with
  | ends binding => exact hcovers.endLoan
  | starts binding root =>
    obtain ⟨h, hh⟩ := hallowed
    obtain ⟨h', hh', href⟩ := hcovers.handles root h hh
    rw [Context.step, Context.step, hh, hh']
    exact hcovers.lend href
  | runs op => exact hcovers.effect hallowed.2

theorem Covers.steps {steps : List Step} (hpasses : ctx.Passes a steps) :
    Covers (steps.foldl ctx.step a) (steps.foldl ctx.step s) := by
  induction steps generalizing a s with
  | nil => exact hcovers
  | cons next steps ih => exact ih (hcovers.step hpasses.1) hpasses.2

omit hcovers

theorem merges_covers : Merges merge Covers := by
  refine ⟨fun a b s hcovers ↦ ⟨fun l h hh ↦ ?_, ?_⟩, fun a b s hcovers ↦ ⟨fun l h hh ↦ ?_, ?_⟩⟩
  · exact hcovers.handles l h (handle?_merge.1 hh).1
  · exact hcovers.loans.trans Finset.subset_union_left
  · exact hcovers.handles l h (handle?_merge.1 hh).2
  · exact hcovers.loans.trans Finset.subset_union_right

end Covers

/-! ### Small entries -/

namespace Sample

def vec : TypeText := ⟨0, "Vec"⟩

def construct (dest : ℕ) : TypedSemanticOperation where
  opcode := "allocated-value"
  destinations := [dest]
  operands := []
  detail := .allocatedValue .new
  call := none

def perform (operation : Operation) (source : ℕ) : TypedSemanticOperation where
  opcode := "allocated-value"
  destinations := []
  operands := [⟨some source, vec⟩]
  detail := .allocatedValue operation
  call := none

def move (source dest : ℕ) : TypedSemanticOperation where
  opcode := "move"
  destinations := [dest]
  operands := [⟨some source, vec⟩]
  detail := .other
  call := none

/-- An action with two owner locals. -/
def action (blocks : List TypedSemanticBlock) : TypedSemanticEntry where
  id := "main"
  kind := "action"
  params := []
  returnType := ⟨0, "()"⟩
  entryBlock := 0
  locals := [⟨0, "a", vec⟩, ⟨1, "b", vec⟩]
  blocks := blocks
  borrows := []

/-- An owner that is pushed to in a loop and then dropped. -/
def loop : TypedSemanticEntry :=
  action [⟨0, [construct 0], [1]⟩, ⟨1, [perform .push 0], [1, 2]⟩, ⟨2, [perform .drop 0], []⟩]

/-- A local that holds another owner on one of two ways to its constructor. -/
def diamond : TypedSemanticEntry :=
  action [⟨0, [construct 0], [1, 2]⟩, ⟨1, [move 0 1], [3]⟩, ⟨2, [], [3]⟩, ⟨3, [construct 1], []⟩]

/-- A constructor that runs again and again over its own handle. -/
def rerun : TypedSemanticEntry := action [⟨0, [], [1]⟩, ⟨1, [construct 0], [1]⟩]

end Sample

open Sample

/-! ### Accepted entries -/

variable {entry : TypedSemanticEntry} {ownerTypes : List TypeText} {id : ℕ} {before : List Step}
  {next : Step} {p : Progress ℕ State Budget}

section Accepted

theorem exists_local_of_isOwnerLocal (h : ctx.isOwnerLocal l = true) :
    ∃ loc ∈ ctx.locals, loc.id = l := by
  rw [Context.isOwnerLocal, Context.localType] at h
  cases hfind : ctx.locals.reverse.find? fun loc ↦ loc.id = l with
  | none =>
    rw [hfind] at h
    exact nomatch h
  | some loc =>
    have hid := find?_some hfind
    exact ⟨loc, mem_reverse.1 (mem_of_find?_eq_some hfind), of_decide_eq_true hid⟩

/-- The analysis of the entry has ended. -/
def Solved (entry : TypedSemanticEntry) (ownerTypes : List TypeText)
    (p : Progress ℕ State Budget) : Prop :=
  (analysis entry (entry.context ownerTypes)).solve workExceeded (maxWork + 1)
    (start entry.entryBlock (initial entry (entry.context ownerTypes))
      ⟨0, (initial entry (entry.context ownerTypes)).cells⟩) = .ok p

/-- An accepted entry has no owner local, or its analysis has ended. -/
theorem solve_of_validate (h : validate entry ownerTypes = .ok ()) :
    (∀ l, (entry.context ownerTypes).isOwnerLocal l = false) ∨ ∃ p, Solved entry ownerTypes p := by
  rw [validate] at h
  split at h
  · next hnone =>
    refine .inl fun l ↦ ?_
    rw [not_eq_true', any_eq_false] at hnone
    by_contra howner
    rw [Bool.not_eq_false] at howner
    obtain ⟨loc, hloc, rfl⟩ := exists_local_of_isOwnerLocal howner
    exact hnone loc hloc howner
  · obtain ⟨-, h⟩ := guard_ok.1 h
    obtain ⟨-, h⟩ := check_ok.1 h
    obtain ⟨-, h⟩ := check_ok.1 h
    obtain ⟨p, hp, -⟩ := bind_ok.1 h
    exact .inr ⟨p, hp⟩

theorem covers_transfer (n : ℕ) (a s : State) (accounts : Budget) (out : State)
    (accounts' : Budget) (hcovers : Covers a s)
    (hok : (analysis entry ctx).transfer n a accounts = .ok (out, accounts')) :
    Covers out (ctx.blockEffect entry n s) := by
  obtain ⟨⟨block, hblock, hpasses⟩, rfl, -⟩ := transfer_ok hok
  rw [Context.blockEffect, Context.blockEffect, hblock]
  exact hcovers.steps hpasses

/-- A step at which a path arrives was allowed in a state that covers the path's. -/
theorem exists_covers_of_arrives (hsolve : Solved entry ownerTypes p)
    (harrives : Arrives entry ownerTypes id before next s) :
    ∃ a, p.incoming id = some a ∧ (entry.context ownerTypes).Passes a before ∧
      Covers (before.foldl (entry.context ownerTypes).step a) s ∧
      (entry.context ownerTypes).Allowed (before.foldl (entry.context ownerTypes).step a) next := by
  obtain ⟨block, after, s₀, hreaches, hblock, hsteps, rfl⟩ := harrives.exists_path
  obtain ⟨a, ha, hcovers, accounts, out, accounts', hok⟩ :=
    solve_covers merges_covers covers_transfer .refl hsolve hreaches
  obtain ⟨⟨block', hblock', hpasses⟩, -⟩ := transfer_ok hok
  obtain rfl := mem_unique hblock hblock'
  rw [hsteps, passes_append] at hpasses
  exact ⟨a, ha, hpasses.1, hcovers.steps hpasses.1, hpasses.2.1⟩

/-- The local through which an operation changes, moves, drops or replaces an owner, and the
owner. -/
def State.changed (s : State) : Action → Option (ℕ × ℕ)
  | .idle | .refer _ _ => none
  | .create dest => some (dest, dest)
  | .change source _ => (s.handle? source).map fun h ↦ (source, h.root)
  | .move source _ => (s.handle? source).bind fun h ↦
    if h.borrowed then none else some (source, h.root)

/-- Handles that are read are there, and an owner that is changed is not under a loan. -/
def Context.Safe (ctx : Context) (s : State) : Step → Prop
  | .ends _ => True
  | .starts _ root => ctx.isOwnerLocal root → ∃ h, s.handle? root = some h
  | .runs op => (∀ l ∈ ctx.reads op, ctx.isOwnerLocal l → ∃ h, s.handle? l = some h) ∧
    ∀ l root, s.changed (ctx.action op) = some (l, root) → ctx.isOwnerLocal l → s.Unloaned root

theorem Covers.unloaned_of_changed {action : Action} {root : ℕ}
    (hcovers : Covers a s) (hallows : a.Allows action) (h : s.changed action = some (l, root)) :
    s.Unloaned root := by
  cases action with
  | idle => exact nomatch h
  | refer source dest => exact nomatch h
  | create dest =>
    obtain ⟨rfl, rfl⟩ := Prod.mk.inj (some.inj h)
    exact hcovers.unloaned hallows.2
  | change source retire =>
    obtain ⟨k, hk, hunloaned⟩ := hallows
    obtain ⟨k', hk', href⟩ := hcovers.handles source k hk
    rw [changed, hk'] at h
    obtain ⟨rfl, rfl⟩ := Prod.mk.inj (some.inj h)
    rw [href.root]
    exact hcovers.unloaned hunloaned
  | move source dest =>
    obtain ⟨⟨k, hk, hunloaned⟩, -⟩ := hallows
    obtain ⟨k', hk', href⟩ := hcovers.handles source k hk
    rw [changed, hk', bind_some] at h
    split at h
    · exact nomatch h
    · next hborrowed =>
      obtain ⟨rfl, rfl⟩ := Prod.mk.inj (some.inj h)
      rw [not_eq_true, href.borrowed] at hborrowed
      rw [href.root]
      exact hcovers.unloaned (hunloaned hborrowed)

/-- **No path of an accepted entry uses an owner that is gone.** -/
theorem safe_of_validate (h : validate entry ownerTypes = .ok ())
    (harrives : Arrives entry ownerTypes id before next s) :
    (entry.context ownerTypes).Safe s next := by
  rcases solve_of_validate h with hnone | ⟨p, hp⟩
  · -- an entry without owner locals is accepted as it is
    have hnot : ∀ l, ¬ (entry.context ownerTypes).isOwnerLocal l = true :=
      fun l howner ↦ nomatch (hnone l).symm.trans howner
    cases next with
    | ends binding => trivial
    | starts binding root => exact fun howner ↦ absurd howner (hnot root)
    | runs op =>
      exact ⟨fun l _ howner ↦ absurd howner (hnot l), fun l root _ howner ↦ absurd howner (hnot l)⟩
  · obtain ⟨a, -, -, hcovers, hallowed⟩ := exists_covers_of_arrives hp harrives
    cases next with
    | ends binding => trivial
    | starts binding root => exact fun _ ↦ hcovers.exists_handle hallowed
    | runs op =>
      exact ⟨fun l hl _ ↦ hcovers.exists_handle (hallowed.1 l hl),
        fun l root hchanged _ ↦ hcovers.unloaned_of_changed hallowed.2 hchanged⟩

/-- The path through the loop to the drop. -/
theorem safe_loop_drop : validate loop [vec] = .ok () ∧
    ∃ s, Arrives loop [vec] 2 [] (.runs (perform .drop 0)) s ∧
      (loop.context [vec]).Safe s (.runs (perform .drop 0)) := by
  have hvalid : validate loop [vec] = .ok () := by rfl
  have harrives : Arrives loop [vec] 2 [] (.runs (perform .drop 0)) _ :=
    ⟨_, _, _, .step (.step .entry (m := 0) (by decide)) (m := 1) (by decide), rfl, rfl, rfl⟩
  exact ⟨hvalid, _, harrives, safe_of_validate hvalid harrives⟩

end Accepted

/-! ### Exact states -/

/-- A state of the checker is the exact summary of a family of path states: it covers them all, it
has every handle on which all of them agree, and its loans are loans of some of them. -/
structure Exact {ι : Type} (C : ι → State) (a : State) : Prop where
  nonempty : Nonempty ι
  covers : ∀ i, Covers a (C i)
  handles : ∀ l h, (∀ i, (C i).handle? l = some h) → a.handle? l = some h
  loans : ∀ loan ∈ a.loans, ∃ i, loan ∈ (C i).loans
  held : ∀ l h, a.handle? l = some h → ∀ loan ∈ h.loans,
    ∃ i h', (C i).handle? l = some h' ∧ loan ∈ h'.loans

section Exact

variable {ι κ : Type} {C : ι → State} {C' : κ → State} {b : State} {f : ι → Handle}

theorem exact_single : Exact (fun _ : Unit ↦ s) s where
  nonempty := ⟨()⟩
  covers _ := .refl
  handles _ _ hall := hall ()
  loans _ hloan := ⟨(), hloan⟩
  held _ h hh _ hloan := ⟨(), h, hh, hloan⟩

theorem Exact.merge (ha : Exact C a) (hb : Exact C' b) : Exact (Sum.elim C C') (a.merge b) where
  nonempty := ha.nonempty.map .inl
  covers i := by
    cases i with
    | inl i => exact merges_covers.left a b _ (ha.covers i)
    | inr i => exact merges_covers.right a b _ (hb.covers i)
  handles l h hall :=
    handle?_merge.2 ⟨ha.handles l h fun i ↦ hall (.inl i), hb.handles l h fun i ↦ hall (.inr i)⟩
  loans loan hloan := by
    rcases Finset.mem_union.1 hloan with hloan | hloan
    · obtain ⟨i, hi⟩ := ha.loans loan hloan
      exact ⟨.inl i, hi⟩
    · obtain ⟨i, hi⟩ := hb.loans loan hloan
      exact ⟨.inr i, hi⟩
  held l h hh loan hloan := by
    obtain ⟨i, h', hi⟩ := ha.held l h (handle?_merge.1 hh).1 loan hloan
    exact ⟨.inl i, h', hi⟩

/-- Handles that refine a summary of themselves. -/
structure Summary (f : ι → Handle) (h : Handle) : Prop where
  refines : ∀ i, (f i).Refines h
  agreed : ∀ k, (∀ i, f i = k) → h = k
  loans : ∀ loan ∈ h.loans, ∃ i, loan ∈ (f i).loans

theorem Exact.insert (ha : Exact C a) (hf : Summary f h) :
    Exact (fun i ↦ (C i).insert l (f i)) (a.insert l h) where
  nonempty := ha.nonempty
  covers i := (ha.covers i).insert (hf.refines i)
  handles j k hall := by
    simp only [handle?_insert] at hall ⊢
    split
    · next heq =>
      simp only [if_pos heq, some.injEq] at hall
      rw [hf.agreed k hall]
    · next hne =>
      simp only [if_neg hne] at hall
      exact ha.handles j k hall
  loans := ha.loans
  held j k hk loan hloan := by
    simp only [handle?_insert] at hk ⊢
    split at hk
    · next heq =>
      obtain rfl := some.inj hk
      obtain ⟨i, hi⟩ := hf.loans loan hloan
      exact ⟨i, f i, if_pos heq, hi⟩
    · next hne =>
      simp only [if_neg hne]
      exact ha.held j k hk loan hloan

theorem Exact.invalidate (ha : Exact C a) :
    Exact (fun i ↦ (C i).invalidate root retire) (a.invalidate root retire) where
  nonempty := ha.nonempty
  covers i := (ha.covers i).invalidate
  handles j k hall := by
    obtain ⟨i⟩ := ha.nonempty
    refine handle?_invalidate.2 ⟨ha.handles j k fun i ↦ ?_, ?_⟩
    · exact (handle?_invalidate.1 (hall i)).1
    · exact (handle?_invalidate.1 (hall i)).2
  loans := ha.loans
  held j k hk loan hloan := by
    obtain ⟨hk, hkept⟩ := handle?_invalidate.1 hk
    obtain ⟨i, k', hk', hloan'⟩ := ha.held j k hk loan hloan
    refine ⟨i, k', handle?_invalidate.2 ⟨hk', ?_⟩, hloan'⟩
    obtain ⟨k'', hk'', href⟩ := (ha.covers i).handles j k hk
    obtain rfl := mem_unique hk' hk''
    rwa [href.root, href.borrowed]

theorem Exact.endLoan (ha : Exact C a) :
    Exact (fun i ↦ (C i).endLoan binding) (a.endLoan binding) where
  nonempty := ha.nonempty
  covers i := (ha.covers i).endLoan
  handles j k hall := by
    obtain ⟨i⟩ := ha.nonempty
    refine handle?_endLoan.2 ⟨ha.handles j k fun i ↦ ?_, ?_⟩
    · exact (handle?_endLoan.1 (hall i)).1
    · exact (handle?_endLoan.1 (hall i)).2
  loans loan hloan := by
    obtain ⟨hloan, hne⟩ := Finset.mem_filter.1 hloan
    obtain ⟨i, hi⟩ := ha.loans loan hloan
    exact ⟨i, Finset.mem_filter.2 ⟨hi, hne⟩⟩
  held j k hk loan hloan := by
    obtain ⟨hk, hkept⟩ := handle?_endLoan.1 hk
    obtain ⟨i, k', hk', hloan'⟩ := ha.held j k hk loan hloan
    refine ⟨i, k', handle?_endLoan.2 ⟨hk', fun hmem ↦ ?_⟩, hloan'⟩
    obtain ⟨k'', hk'', href⟩ := (ha.covers i).handles j k hk
    obtain rfl := mem_unique hk' hk''
    exact hkept (href.loans hmem)

/-- The handles of a local are summarised by the checker's handle of it. -/
theorem Exact.summary (ha : Exact C a) (hh : a.handle? l = some h)
    (hf : ∀ i, (C i).handle? l = some (f i)) : Summary f h where
  refines i := by
    obtain ⟨k, hk, href⟩ := (ha.covers i).handles l h hh
    obtain rfl := mem_unique (hf i) hk
    exact href
  agreed k hall := mem_unique hh (ha.handles l k fun i ↦ by rw [hf i, hall i])
  loans loan hloan := by
    obtain ⟨i, k, hk, hi⟩ := ha.held l h hh loan hloan
    obtain rfl := mem_unique (hf i) hk
    exact ⟨i, hi⟩

theorem Exact.exists_handles (ha : Exact C a) (hh : a.handle? l = some h) :
    ∃ f : ι → Handle, (∀ i, (C i).handle? l = some (f i)) ∧ Summary f h := by
  choose f hf using fun i ↦ (ha.covers i).exists_handle ⟨h, hh⟩
  exact ⟨f, hf, ha.summary hh hf⟩

/-- The handle of a new loan summarises those of the paths. -/
theorem Exact.lent (ha : Exact C a) (hf : Summary f h) :
    Summary (fun i ↦ (C i).lent binding (f i)) (a.lent binding h) where
  refines i := (ha.covers i).lent (hf.refines i)
  agreed k hall := by
    obtain ⟨i⟩ := ha.nonempty
    have hrefines : ((C i).lent binding (f i)).Refines (a.lent binding h) :=
      (ha.covers i).lent (hf.refines i)
    rw [hall i] at hrefines
    obtain ⟨hroot, hborrowed, hsub⟩ := hrefines
    have hsup : (a.lent binding h).loans ⊆ k.loans := by
      intro loan hloan
      rw [mem_lent_loans] at hloan
      rcases hloan with heq | hloan | hloan
      · exact hall i ▸ mem_lent_loans.2 (.inl heq)
      · obtain ⟨j, hj⟩ := hf.loans loan hloan
        exact hall j ▸ mem_lent_loans.2 (.inr (.inl hj))
      · obtain ⟨j, hj⟩ := ha.loans _ hloan
        exact hall j ▸ mem_lent_loans.2 (.inr (.inr ((hf.refines j).root ▸ hj)))
    exact Handle.mk.injEq .. ▸ ⟨hroot.symm, hborrowed.symm, Finset.Subset.antisymm hsup hsub⟩
  loans loan hloan := by
    obtain ⟨i⟩ := ha.nonempty
    rw [mem_lent_loans] at hloan
    rcases hloan with heq | hloan | hloan
    · exact ⟨i, mem_lent_loans.2 (.inl heq)⟩
    · obtain ⟨j, hj⟩ := hf.loans loan hloan
      exact ⟨j, mem_lent_loans.2 (.inr (.inl hj))⟩
    · obtain ⟨j, hj⟩ := ha.loans _ hloan
      exact ⟨j, mem_lent_loans.2 (.inr (.inr ((hf.refines j).root ▸ hj)))⟩

theorem Exact.lend (ha : Exact C a) (hf : Summary f h) :
    Exact (fun i ↦ (C i).lend binding (f i)) (a.lend binding h) := by
  have hlent : Summary (fun i ↦ (C i).lent binding (f i)) (a.lent binding h) := ha.lent hf
  have hinsert := ha.insert (l := binding) hlent
  refine ⟨ha.nonempty, fun i ↦ (ha.covers i).lend (hf.refines i), hinsert.handles, ?_, hinsert.held⟩
  intro loan hloan
  rcases Finset.mem_insert.1 hloan with rfl | hloan
  · obtain ⟨i⟩ := ha.nonempty
    refine ⟨i, Finset.mem_insert.2 (.inl ?_)⟩
    rw [(hf.refines i).root]
  · obtain ⟨i, hi⟩ := ha.loans loan hloan
    exact ⟨i, Finset.mem_insert_of_mem hi⟩

theorem summary_const (ha : Exact C a) : Summary (fun _ : ι ↦ h) h where
  refines _ := .refl
  agreed _ hall := ha.nonempty.elim hall
  loans _ hloan := ha.nonempty.elim fun i ↦ ⟨i, hloan⟩

theorem Summary.refer (hι : Nonempty ι) (hf : Summary f h) :
    Summary (fun i ↦ { f i with borrowed := true }) { h with borrowed := true } where
  refines i := ⟨(hf.refines i).root, rfl, (hf.refines i).loans⟩
  agreed k hall := by
    obtain ⟨i⟩ := hι
    have hsame : h = { k with borrowed := h.borrowed } := hf.agreed _ fun i ↦ by
      rw [← hall i, ← (hf.refines i).borrowed]
    rw [hsame]
    obtain ⟨root, borrowed, loans⟩ := k
    obtain rfl : true = borrowed := congrArg Handle.borrowed (hall i)
    rfl
  loans := hf.loans

theorem Exact.effect {action : Action} (ha : Exact C a) (hallows : a.Allows action) :
    Exact (fun i ↦ (C i).effect action) (a.effect action) := by
  cases action with
  | idle => exact ha
  | create dest => exact ha.invalidate.insert (summary_const ha)
  | change source retire =>
    obtain ⟨h, hh, -⟩ := hallows
    obtain ⟨f, hf, hsummary⟩ := ha.exists_handles hh
    have hroot : ∀ i, (C i).effect (.change source retire) = (C i).invalidate h.root retire := by
      intro i
      rw [State.effect, hf i, elim_some, (hsummary.refines i).root]
    simp only [hroot]
    rw [State.effect, hh]
    exact ha.invalidate
  | move source dest =>
    obtain ⟨⟨h, hh, -⟩, -⟩ := hallows
    obtain ⟨f, hf, hsummary⟩ := ha.exists_handles hh
    have heffect : ∀ i, (C i).effect (.move source dest)
        = (if h.borrowed then C i else (C i).invalidate h.root true).insert dest (f i) := by
      intro i
      rw [State.effect, hf i, elim_some, (hsummary.refines i).root, (hsummary.refines i).borrowed]
    simp only [heffect]
    rw [State.effect, hh, elim_some]
    split
    · exact ha.insert hsummary
    · exact ha.invalidate.insert hsummary
  | refer source dest =>
    obtain ⟨⟨h, hh⟩, -⟩ := hallows
    obtain ⟨f, hf, hsummary⟩ := ha.exists_handles hh
    have heffect : ∀ i, (C i).effect (.refer source dest)
        = (C i).insert dest { f i with borrowed := true } := by
      intro i
      rw [State.effect, hf i, elim_some]
    simp only [heffect]
    rw [State.effect, hh]
    exact ha.insert (hsummary.refer ha.nonempty)

theorem Exact.step {next : Step} (ha : Exact C a) (hallowed : ctx.Allowed a next) :
    Exact (fun i ↦ ctx.step (C i) next) (ctx.step a next) := by
  cases next with
  | ends binding => exact ha.endLoan
  | starts binding root =>
    obtain ⟨h, hh⟩ := hallowed
    obtain ⟨f, hf, hsummary⟩ := ha.exists_handles hh
    have hstep : ∀ i, ctx.step (C i) (.starts binding root) = (C i).lend binding (f i) := by
      intro i
      rw [Context.step, hf i, elim_some]
    simp only [hstep]
    rw [Context.step, hh]
    exact ha.lend hsummary
  | runs op => exact ha.effect hallowed.2

theorem Exact.steps {steps : List Step} (ha : Exact C a) (hpasses : ctx.Passes a steps) :
    Exact (fun i ↦ steps.foldl ctx.step (C i)) (steps.foldl ctx.step a) := by
  induction steps generalizing C a with
  | nil => exact ha
  | cons next steps ih => exact ih (ha.step hpasses.1) hpasses.2

end Exact

/-! ### Stores -/

section Stores

variable {action : Action} {dest m : ℕ}

/-- The local that an operation stores an owner into. -/
def Action.target : Action → Option ℕ
  | .create dest | .move _ dest | .refer _ dest => some dest
  | .idle | .change _ _ => none

/-- A store overwrites a handle that it must not. -/
def State.Overwrites (s : State) : Action → Prop
  | .create dest => ¬ s.Free dest
  | .move _ dest | .refer _ dest => ¬ s.Borrowed dest
  | .idle | .change _ _ => False

/-- A step stores into an owner local and overwrites what it must not. -/
def Context.Overwrites (ctx : Context) (s : State) (dest : ℕ) : Step → Prop
  | .ends _ | .starts _ _ => False
  | .runs op => (ctx.action op).target = some dest ∧ ctx.isOwnerLocal dest ∧
    s.Overwrites (ctx.action op)

theorem not_overwrites_of_allows (h : s.Allows action) : ¬ s.Overwrites action := by
  cases action with
  | idle => exact id
  | change source retire => exact id
  | create dest => exact not_not_intro h.1
  | move source dest => exact not_not_intro h.2
  | refer source dest => exact not_not_intro h.2

/-- The handles that a store must not overwrite: for a constructor those of other owners, for a move
or a reference those that are not borrowed. -/
def Action.Spares (old : Handle) : Action → Prop
  | .create dest => old.root ≠ dest
  | .move _ _ | .refer _ _ => old.borrowed = false
  | .idle | .change _ _ => False

/-- A step stores into an owner local that holds a handle it must not overwrite. -/
def Context.Endangers (ctx : Context) (s : State) (dest : ℕ) (old : Handle) : Step → Prop
  | .ends _ | .starts _ _ => False
  | .runs op => (ctx.action op).target = some dest ∧ ctx.isOwnerLocal dest ∧
    s.handle? dest = some old ∧ (ctx.action op).Spares old

theorem overwrites_iff_spares (htarget : action.target = some dest) :
    s.Overwrites action ↔ ∃ old, s.handle? dest = some old ∧ action.Spares old := by
  cases action with
  | idle | change => exact nomatch htarget
  | create d | move source d | refer source d =>
    obtain rfl := some.inj htarget
    simp [Overwrites, Action.Spares, Free, Borrowed]

/-- A step overwrites what it must not exactly when it endangers some handle. -/
theorem overwrites_iff_endangers :
    ctx.Overwrites s dest next ↔ ∃ old, ctx.Endangers s dest old next := by
  cases next with
  | ends binding => simp [Context.Overwrites, Context.Endangers]
  | starts binding root => simp [Context.Overwrites, Context.Endangers]
  | runs op =>
    constructor
    · rintro ⟨htarget, howner, hover⟩
      obtain ⟨old, hold, hspares⟩ := (overwrites_iff_spares htarget).1 hover
      exact ⟨old, htarget, howner, hold, hspares⟩
    · rintro ⟨old, htarget, howner, hold, hspares⟩
      exact ⟨htarget, howner, (overwrites_iff_spares htarget).2 ⟨old, hold, hspares⟩⟩

/-- The checker allows no step that endangers a handle which it knows of. -/
theorem not_endangers_of_allowed {old : Handle} (h : ctx.Allowed s next) :
    ¬ ctx.Endangers s dest old next := by
  intro hendangers
  cases next with
  | ends binding => exact hendangers
  | starts binding root => exact hendangers
  | runs op =>
    exact not_overwrites_of_allows h.2
      ((overwrites_iff_spares hendangers.1).2 ⟨old, hendangers.2.2⟩)

/-- A handle that every path brings to a step is one that the checker has there. -/
theorem exists_allowed_of_arrives {old : Handle} (hsolve : Solved entry ownerTypes p)
    (harrives : Arrives entry ownerTypes id before next s)
    (hall : ∀ s', Arrives entry ownerTypes id before next s' → s'.handle? dest = some old) :
    ∃ a, a.handle? dest = some old ∧ (entry.context ownerTypes).Allowed a next := by
  obtain ⟨a, ha, hpasses, -, hallowed⟩ := exists_covers_of_arrives hsolve harrives
  obtain ⟨block, after, -, -, hblock, hsteps, -⟩ := harrives
  -- the computed states are exact for some of the paths that reach their block
  let P : ℕ → State → Prop := fun n a ↦ ∃ (ι : Type) (C : ι → State), Exact C a ∧
    ∀ i, Reaches entry.successors ((entry.context ownerTypes).blockEffect entry)
      entry.entryBlock (initial entry (entry.context ownerTypes)) n (C i)
  have hexact : ∀ n a, p.incoming n = some a → P n a := by
    refine solve_invariant ?_ ?_ ?_ hsolve
    · rintro n a b ⟨ι, C, hC, hreach⟩ ⟨κ, C', hC', hreach'⟩
      refine ⟨ι ⊕ κ, Sum.elim C C', hC.merge hC', fun i ↦ ?_⟩
      cases i with
      | inl i => exact hreach i
      | inr i => exact hreach' i
    · rintro n m a τ₀ out τ₁ ⟨ι, C, hC, hreach⟩ hok hm
      obtain ⟨⟨block, hblock, hpasses⟩, rfl, -⟩ := transfer_ok hok
      refine ⟨ι, fun i ↦ (entry.context ownerTypes).blockEffect entry n (C i), ?_,
        fun i ↦ (hreach i).step hm⟩
      simp only [Context.blockEffect, hblock]
      exact hC.steps hpasses
    · intro n a hn
      obtain ⟨rfl, rfl⟩ := start_incoming.1 hn
      exact ⟨Unit, _, exact_single, fun _ ↦ .entry⟩
  obtain ⟨ι, C, hC, hreach⟩ := hexact id a ha
  refine ⟨_, (hC.steps hpasses).handles dest old fun i ↦ ?_, hallowed⟩
  exact hall _ ⟨block, after, C i, hreach i, hblock, hsteps, rfl⟩

/-- **No path of an accepted entry overwrites a live owner at a store, if and only if the paths to
the store agree on it**: a handle that the store must not overwrite, if one of the paths brings it,
is brought by all of them. -/
theorem not_overwrites_iff_agree (h : validate entry ownerTypes = .ok ()) :
    ∀ id before next dest, (∀ s, Arrives entry ownerTypes id before next s →
        ¬ (entry.context ownerTypes).Overwrites s dest next) ↔
      ∀ s s' old, Arrives entry ownerTypes id before next s →
        Arrives entry ownerTypes id before next s' →
        (entry.context ownerTypes).Endangers s dest old next → s'.handle? dest = some old := by
  intro id before next dest
  simp only [overwrites_iff_endangers]
  constructor
  · intro hnone s _ old harrives _ hendangers
    exact absurd ⟨old, hendangers⟩ (hnone s harrives)
  · rintro hagree s harrives ⟨old, hendangers⟩
    have hall : ∀ s', Arrives entry ownerTypes id before next s' → s'.handle? dest = some old :=
      fun s' harrives' ↦ hagree s s' old harrives harrives' hendangers
    cases next with
    | ends binding => exact hendangers
    | starts binding root => exact hendangers
    | runs op =>
      obtain ⟨htarget, howner, -, hspares⟩ := hendangers
      obtain hnone | ⟨p, hp⟩ := solve_of_validate h
      · exact nomatch (hnone dest).symm.trans howner
      -- the checker has seen the handle in a state in which it allowed the store
      obtain ⟨a, ha, hallowed⟩ := exists_allowed_of_arrives hp harrives hall
      exact not_endangers_of_allowed hallowed ⟨htarget, howner, ha, hspares⟩

/-- The constructor after the two ways have met again overwrites the owner that was moved. -/
theorem overwrites_after_merge : validate diamond [vec] = .ok () ∧
    ∃ s, Arrives diamond [vec] 3 [] (.runs (construct 1)) s ∧
      (diamond.context [vec]).Overwrites s 1 (.runs (construct 1)) := by
  refine ⟨rfl, _, ⟨_, _, _, .step (.step .entry (m := 0) (n := 1) (by decide)) (by decide),
    rfl, rfl, rfl⟩, by decide, by decide, fun hfree ↦ ?_⟩
  exact nomatch hfree ⟨0, false, ∅⟩ (by decide)

/-- On every path the constructor finds nothing or its own handle. -/
theorem handle?_rerun (h : Reaches rerun.successors ((rerun.context [vec]).blockEffect rerun) 0
    (initial rerun (rerun.context [vec])) m s) :
    s.handle? 0 = none ∨ s.handle? 0 = some ⟨0, false, ∅⟩ := by
  induction h with
  | entry => exact .inl (by decide)
  | @step m n s _ hn ih =>
    obtain _ | _ | m := m
    · exact ih
    · exact .inr handle?_insert
    · exact absurd hn not_mem_nil

/-- The constructor in the loop is reached without a handle and with its own one. -/
theorem not_overwrites_rerun : validate rerun [vec] = .ok () ∧
    (∃ s, Arrives rerun [vec] 1 [] (.runs (construct 0)) s ∧
      s.handle? 0 = some ⟨0, false, ∅⟩) ∧
    ∀ s, Arrives rerun [vec] 1 [] (.runs (construct 0)) s →
      ¬ (rerun.context [vec]).Overwrites s 0 (.runs (construct 0)) := by
  have hvalid : validate rerun [vec] = .ok () := by rfl
  refine ⟨hvalid, ⟨_, ⟨_, _, _, .step (.step .entry (m := 0) (n := 1) (by decide)) (by decide),
    rfl, rfl, rfl⟩, by decide⟩, (not_overwrites_iff_agree hvalid ..).2 ?_⟩
  rintro _ s' old ⟨block, after, s₀, hreaches, -, -, rfl⟩ - ⟨-, -, hold, hspares⟩
  obtain hnone | hown := handle?_rerun hreaches
  · exact nomatch hnone.symm.trans hold
  · obtain rfl := mem_unique hown hold
    exact absurd rfl hspares

end Stores

end CellScript.Checker.Lifetime
