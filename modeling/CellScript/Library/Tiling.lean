import Mathlib.Data.List.Basic

/-!
# Intervals that tile a range

A list of items, each with a start and a length, tiles a range if the first item starts where the
range does, every further one where its predecessor ends, and the last ends with the range. Then
every position of the range lies in the interval of exactly one item.
-/

namespace Tiling

variable {α : Type*} (start len : α → ℕ)

/-- The items stand one after the other from `lo` to `hi`, none of them empty. -/
def Tiles : ℕ → List α → ℕ → Prop
  | lo, [], hi => lo = hi
  | lo, x :: xs, hi => start x = lo ∧ 0 < len x ∧ Tiles (lo + len x) xs hi

/-- The position lies in the interval of the item. -/
def Covers (x : α) (i : ℕ) : Prop := start x ≤ i ∧ i < start x + len x

variable {start len} {lo hi i : ℕ} {items : List α}

theorem Tiles.le (h : Tiles start len lo items hi) : lo ≤ hi := by
  induction items generalizing lo with
  | nil => exact Nat.le_of_eq h
  | cons x xs ih => exact Nat.le_of_add_right_le (ih h.2.2)

/-- Every item lies in the range. -/
theorem Tiles.within (h : Tiles start len lo items hi) {x : α} (hx : x ∈ items) :
    lo ≤ start x ∧ 0 < len x ∧ start x + len x ≤ hi := by
  induction items generalizing lo with
  | nil => exact absurd hx List.not_mem_nil
  | cons y ys ih =>
    obtain ⟨hstart, hpos, hrest⟩ := h
    rcases List.mem_cons.1 hx with rfl | hx
    · exact ⟨Nat.le_of_eq hstart.symm, hpos, hstart ▸ hrest.le⟩
    · obtain ⟨hlo, hpos, hhi⟩ := ih hrest hx
      exact ⟨Nat.le_of_add_right_le hlo, hpos, hhi⟩

/-- **Every position of the range lies in the interval of exactly one item.** -/
theorem Tiles.exists_covers_iff (h : Tiles start len lo items hi) (hlo : lo ≤ i) (hhi : i < hi) :
    ∃ k : Fin items.length, ∀ l, Covers start len (items.get l) i ↔ l = k := by
  induction items generalizing lo with
  | nil =>
    have hempty : lo = hi := h
    omega
  | cons x xs ih =>
    obtain ⟨hstart, hpos, hrest⟩ := h
    by_cases hx : i < lo + len x
    · -- the first item has it, and all others start behind its end
      refine ⟨⟨0, Nat.succ_pos _⟩, fun l ↦ ?_⟩
      refine Fin.cases ?_ (fun l ↦ ?_) l
      · exact iff_of_true ⟨hstart ▸ hlo, hstart ▸ hx⟩ rfl
      · refine iff_of_false (fun hl ↦ ?_) (Fin.succ_ne_zero l)
        have hbehind : lo + len x ≤ start (xs.get l) := (hrest.within (xs.get_mem l)).1
        exact Nat.not_lt_of_le (Nat.le_trans hbehind hl.1) hx
    · obtain ⟨k, hk⟩ := ih hrest (by omega)
      refine ⟨k.succ, fun l ↦ ?_⟩
      refine Fin.cases ?_ (fun l ↦ ?_) l
      · exact iff_of_false (fun hl ↦ hx (hstart ▸ hl.2)) (Fin.succ_ne_zero k).symm
      · exact (hk l).trans (Fin.succ_inj).symm

/-- What holds of every item holds of the one at every position, and the other way round. -/
theorem Tiles.forall_mem_iff (h : Tiles start len 0 items hi) (p : α → Prop) :
    (∀ x ∈ items, p x) ↔ ∀ i < hi, ∃ k : Fin items.length, p (items.get k) ∧
      ∀ l, Covers start len (items.get l) i ↔ l = k := by
  constructor
  · intro hp i hi
    obtain ⟨k, hk⟩ := h.exists_covers_iff (Nat.zero_le i) hi
    exact ⟨k, hp _ (items.get_mem k), hk⟩
  · intro hp x hx
    obtain ⟨l, rfl⟩ := List.get_of_mem hx
    -- an item is not empty, so it is the one at its first position
    obtain ⟨-, hpos, hend⟩ := h.within hx
    obtain ⟨k, hk, honly⟩ := hp (start (items.get l)) (by omega)
    obtain rfl := (honly l).1 ⟨Nat.le_refl _, by omega⟩
    exact hk

end Tiling
