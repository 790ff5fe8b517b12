import Mathlib.Data.List.Chain
import Mathlib.Data.List.Count
import Mathlib.Data.List.Sort

/-!
# Elements, orders and continuations that are unique

An element that occurs once in a list has one place there, keys that differ have one order, and two
chains of a relation that determines the next element are the same up to the end of the shorter one.
-/

namespace Unique

variable {α : Type}

/-- **Different keys have one order.** -/
theorem insertionSort_eq_of_perm {β : Type} [LinearOrder β] {key : α → β} {l l' : List α}
    (hperm : l.Perm l') (hsorted : l'.Pairwise fun a b ↦ key a < key b) :
    l.insertionSort (fun a b ↦ key a ≤ key b) = l' := by
  have hsort := (l.perm_insertionSort fun a b ↦ key a ≤ key b).trans hperm
  have hnodup : (l'.map key).Nodup := List.pairwise_map.2 (hsorted.imp ne_of_lt)
  refine hsort.eq_of_pairwise ?_ (l.pairwise_insertionSort _) (hsorted.imp le_of_lt)
  intro a b ha hb hab hba
  exact List.inj_on_of_nodup_map hnodup (hsort.subset ha) hb (le_antisymm hab hba)

/-- **What occurs once has one place.** -/
theorem index_eq_of_countP_eq_one {p : α → Bool} {l : List α} (h : l.countP p = 1) {i j : ℕ}
    {a b : α} (hi : l[i]? = some a) (hj : l[j]? = some b) (ha : p a) (hb : p b) : i = j := by
  induction l generalizing i j with
  | nil => exact nomatch hi
  | cons x l ih =>
    have hnone : p x → ∀ y ∈ l, ¬ p y := by
      intro hx
      rw [List.countP_cons_of_pos hx] at h
      exact List.countP_eq_zero.1 (Nat.succ.inj h)
    cases i with
    | zero =>
      obtain rfl : x = a := Option.some.inj hi
      cases j with
      | zero => rfl
      | succ j => exact absurd hb (hnone ha b (List.mem_of_getElem? hj))
    | succ i =>
      by_cases hx : p x
      · exact absurd ha (hnone hx a (List.mem_of_getElem? hi))
      · cases j with
        | zero =>
          obtain rfl : x = b := Option.some.inj hj
          exact absurd hb hx
        | succ j =>
          rw [List.countP_cons_of_neg hx] at h
          exact congrArg Nat.succ (ih h hi hj)

/-- **Two chains from one start**, of a relation that determines the next element. -/
theorem prefix_or_prefix_of_isChain {R : α → α → Prop} {a : α} {l₁ l₂ : List α}
    (h₁ : (a :: l₁).IsChain R) (h₂ : (a :: l₂).IsChain R)
    (hunique : ∀ x, ∀ y ∈ l₁, ∀ z ∈ l₂, R x y → R x z → y = z) : l₁ <+: l₂ ∨ l₂ <+: l₁ := by
  induction l₁ generalizing a l₂ with
  | nil => exact .inl List.nil_prefix
  | cons y l₁ ih =>
    cases l₂ with
    | nil => exact .inr List.nil_prefix
    | cons z l₂ =>
      rw [List.isChain_cons_cons] at h₁ h₂
      obtain rfl := hunique a y List.mem_cons_self z List.mem_cons_self h₁.1 h₂.1
      have := ih h₁.2 h₂.2 fun x y hy z hz ↦
        hunique x y (List.mem_cons_of_mem _ hy) z (List.mem_cons_of_mem _ hz)
      rwa [List.cons_prefix_cons, List.cons_prefix_cons, and_iff_right rfl, and_iff_right rfl]

end Unique
