import Mathlib.Data.List.Basic
import Mathlib.Data.Nat.Bitwise

/-!
# Complete binary trees in heap order

A tree of depth `d` stands in an array: the root at position `1`, the children of position `i` at
`2 * i` and `2 * i + 1`, and the leaves at the positions from `2 ^ d`. The inner positions are
filled from the last to the first with a function of their children.

A leaf is authenticated by its siblings on the way up. `climb` recomputes the root from a leaf, its
index and a list of siblings; `climb_siblings` says that the siblings in the tree lead to its root,
and `eq_of_climb_eq` that, where the function of the children is injective, nothing but the leaf at
the index does.
-/

namespace HeapTree

open List

variable {H : Type*} (node : H → H → H)

/-! ### Filling the tree -/

/-- Fill the given positions, one after the other. -/
def fill : List ℕ → (ℕ → H) → ℕ → H
  | [], tree => tree
  | i :: is, tree => fill is (Function.update tree i (node (tree (2 * i)) (tree (2 * i + 1))))

variable {node} {tree : ℕ → H} {i : ℕ} {depth : ℕ} {is : List ℕ}

theorem fill_of_notMem (hi : i ∉ is) : fill node is tree i = tree i := by
  induction is generalizing tree with
  | nil => rfl
  | cons j is ih =>
    rw [mem_cons, not_or] at hi
    rw [fill, ih hi.2, Function.update_of_ne hi.1]

/-- **Filled from the last to the first, a position holds the value of its children.** -/
theorem fill_of_mem (hdesc : is.Pairwise (· > ·)) (hi : i ∈ is) (hpos : 0 < i) :
    fill node is tree i = node (fill node is tree (2 * i)) (fill node is tree (2 * i + 1)) := by
  induction is generalizing tree with
  | nil => exact absurd hi not_mem_nil
  | cons j is ih =>
    rw [pairwise_cons] at hdesc
    rw [fill]
    obtain rfl | hi := mem_cons.1 hi
    · -- what comes later is smaller than `i`, so neither `i` nor its children change any more
      have hlater : ∀ k, i ≤ k → k ∉ is := fun k hk hmem ↦ absurd (hdesc.1 k hmem) (by omega)
      rw [fill_of_notMem (hlater i (le_refl i)), fill_of_notMem (hlater (2 * i) (by omega)),
        fill_of_notMem (hlater (2 * i + 1) (by omega)), Function.update_self,
        Function.update_of_ne (by omega), Function.update_of_ne (by omega)]
    · exact ih hdesc.2 hi

/-- A tree whose inner positions hold the values of their children. -/
def Hashed (node : H → H → H) (depth : ℕ) (tree : ℕ → H) : Prop :=
  ∀ i, 0 < i → i < 2 ^ depth → tree i = node (tree (2 * i)) (tree (2 * i + 1))

theorem hashed_fill :
    Hashed node depth (fill node (List.range' 1 (2 ^ depth - 1)).reverse tree) := by
  intro i hpos hi
  refine fill_of_mem ?_ ?_ hpos
  · rw [pairwise_reverse]
    exact pairwise_lt_range'
  · rw [mem_reverse, mem_range'_1]
    omega

theorem fill_leaf (hi : 2 ^ depth ≤ i) :
    fill node (List.range' 1 (2 ^ depth - 1)).reverse tree i = tree i := by
  refine fill_of_notMem ?_
  rw [mem_reverse, mem_range'_1]
  omega

/-! ### The way up -/

/-- The siblings on the way up from a position. -/
def siblings (tree : ℕ → H) : ℕ → ℕ → List H
  | 0, _ => []
  | levels + 1, position => tree (position ^^^ 1) :: siblings tree levels (position / 2)

@[simp] theorem length_siblings (tree : ℕ → H) (levels position : ℕ) :
    (siblings tree levels position).length = levels := by
  induction levels generalizing position with
  | zero => rfl
  | succ levels ih => rw [siblings, length_cons, ih]

/-- The two children at one step up: the sibling is on the right of an even index. -/
def children (index : ℕ) (value sibling : H) : H × H :=
  if index % 2 = 0 then (value, sibling) else (sibling, value)

variable (node)

/-- The root that a value at an index leads to. -/
def climb : ℕ → H → List H → H
  | _, value, [] => value
  | index, value, sibling :: rest =>
    climb (index / 2) (node (children index value sibling).1 (children index value sibling).2) rest

/-- The pairs of children on the way up. -/
def pairs : ℕ → H → List H → List (H × H)
  | _, _, [] => []
  | index, value, sibling :: rest =>
    children index value sibling ::
      pairs (index / 2) (node (children index value sibling).1 (children index value sibling).2)
        rest

variable {node} {levels position : ℕ}

/-- The position of an index, a level of the tree and the way to the next one. -/
private theorem position_step (hlo : 2 ^ (levels + 1) ≤ position)
    (hhi : position < 2 ^ (levels + 2)) (hlevels : levels + 1 ≤ depth) :
    2 ^ levels ≤ position / 2 ∧ position / 2 < 2 ^ (levels + 1) ∧
      (position - 2 ^ (levels + 1)) / 2 = position / 2 - 2 ^ levels ∧
      (position - 2 ^ (levels + 1)) % 2 = position % 2 ∧ 0 < position / 2 ∧
      position / 2 < 2 ^ depth := by
  have hdepth := Nat.pow_le_pow_right (show 0 < 2 by decide) hlevels
  rw [pow_succ] at hhi
  omega

private theorem xor_one (position : ℕ) :
    position ^^^ 1 = if position % 2 = 0 then position + 1 else position - 1 := by
  split
  · next h => rw [Nat.xor_one_of_even (Nat.even_iff.2 h)]
  · next h => rw [Nat.xor_one_of_odd (Nat.odd_iff.2 (by omega))]

/-- The children of the position above, from the value at a position and its sibling. -/
theorem children_position (tree : ℕ → H) {index position : ℕ} (h : index % 2 = position % 2) :
    children index (tree position) (tree (position ^^^ 1))
      = (tree (2 * (position / 2)), tree (2 * (position / 2) + 1)) := by
  rw [children, xor_one, h]
  split
  · next heven =>
    rw [show 2 * (position / 2) = position by omega]
  · next hodd =>
    rw [show 2 * (position / 2) + 1 = position by omega,
      show 2 * (position / 2) = position - 1 by omega]

/-- **The siblings of a leaf lead to the root.** -/
theorem climb_siblings (htree : Hashed node depth tree) (hlevels : levels ≤ depth)
    (hlo : 2 ^ levels ≤ position) (hhi : position < 2 ^ (levels + 1)) :
    climb node (position - 2 ^ levels) (tree position)
        (siblings tree levels position) = tree 1 := by
  induction levels generalizing position with
  | zero =>
    obtain rfl : position = 1 := by simpa using le_antisymm (by omega) hlo
    rfl
  | succ levels ih =>
    obtain ⟨hlo', hhi', hdiv, hmod, hpos, hlt⟩ := position_step hlo hhi hlevels
    rw [siblings, climb, children_position tree hmod, hdiv]
    rw [← htree (position / 2) hpos hlt]
    exact ih (by omega) hlo' hhi'

/-- **Only the leaf leads to the root**, where the pairs on the way up cannot be mistaken for other
pairs of children of the tree. -/
theorem eq_of_climb_eq (htree : Hashed node depth tree)
    (hlevels : levels ≤ depth) (hlo : 2 ^ levels ≤ position)
    (hhi : position < 2 ^ (levels + 1)) {value : H} {rest : List H} (hlen : rest.length = levels)
    (hinj : ∀ p ∈ pairs node (position - 2 ^ levels) value rest, ∀ i, 0 < i → i < 2 ^ depth →
      node p.1 p.2 = node (tree (2 * i)) (tree (2 * i + 1)) →
        p = (tree (2 * i), tree (2 * i + 1)))
    (h : climb node (position - 2 ^ levels) value rest = tree 1) : value = tree position := by
  induction levels generalizing position value rest with
  | zero =>
    obtain rfl : position = 1 := by simpa using le_antisymm (by omega) hlo
    obtain rfl := eq_nil_of_length_eq_zero hlen
    exact h
  | succ levels ih =>
    obtain ⟨hlo', hhi', hdiv, hmod, hpos, hlt⟩ := position_step hlo hhi hlevels
    obtain ⟨sibling, rest, rfl⟩ := exists_cons_of_length_eq_add_one hlen
    rw [climb, hdiv] at h
    rw [pairs, hdiv] at hinj
    have hup := ih (by omega) hlo' hhi' (by simpa using hlen)
      (fun p hp ↦ hinj p (mem_cons_of_mem _ hp)) h
    rw [htree (position / 2) hpos hlt] at hup
    have hpair := hinj _ mem_cons_self (position / 2) hpos hlt hup
    rw [children] at hpair
    split at hpair
    · next heven =>
      rw [show 2 * (position / 2) = position by omega] at hpair
      exact (Prod.mk.inj hpair).1
    · next hodd =>
      rw [show 2 * (position / 2) + 1 = position by omega] at hpair
      exact (Prod.mk.inj hpair).2

end HeapTree
