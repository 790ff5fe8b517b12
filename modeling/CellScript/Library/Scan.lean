import Mathlib.Data.Nat.Find
import Mathlib.Tactic.Common

/-!
# Scanning positions for a verdict

Positions are visited in order until one gives a verdict; when none does the scan finishes with a
default. `scan_zero_eq_iff` compares the scan from position zero with the scan of the same range
from a later start.
-/

namespace Scan

variable {β : Type*} (verdict : ℕ → Option β) (finished : β)

/-- The first verdict among the `count` positions from `start` on. -/
def scan (start : ℕ) : ℕ → β
  | 0 => finished
  | count + 1 => (verdict start).getD (scan (start + 1) count)

variable {verdict finished} {start count : ℕ} {b : β}

@[simp] theorem scan_zero : scan verdict finished start 0 = finished := rfl

theorem scan_succ_of_some (h : verdict start = some b) :
    scan verdict finished start (count + 1) = b := by
  simp [scan, h]

theorem scan_succ_of_none (h : verdict start = none) :
    scan verdict finished start (count + 1) = scan verdict finished (start + 1) count := by
  simp [scan, h]

/-- Positions without a verdict are skipped. -/
theorem scan_eq_of_forall_none {skip : ℕ} (h : ∀ j < skip, verdict (start + j) = none) :
    scan verdict finished start (skip + count) = scan verdict finished (start + skip) count := by
  induction skip generalizing start with
  | zero => simp
  | succ skip ih =>
    have hstart : verdict start = none := h 0 (Nat.succ_pos _)
    rw [Nat.add_right_comm, scan_succ_of_none hstart, ih fun j hj ↦ ?_, Nat.add_right_comm,
      Nat.add_assoc]
    rw [Nat.add_right_comm]
    exact h (j + 1) (Nat.succ_lt_succ hj)

/-- The first position with a verdict settles the scan. -/
theorem scan_eq_of_first {j : ℕ} (hj : j < count) (hfirst : ∀ l < j, verdict (start + l) = none)
    (hb : verdict (start + j) = some b) : scan verdict finished start count = b := by
  obtain ⟨rest, rfl⟩ : ∃ rest, count = j + (rest + 1) := ⟨count - j - 1, by omega⟩
  rw [scan_eq_of_forall_none hfirst, scan_succ_of_some hb]

/-- The positions below `start` do not matter: none has a verdict, or the first one that has gives
the verdict of the scan from `start` on. -/
def Indifferent (verdict : ℕ → Option β) (finished : β) (start count : ℕ) : Prop :=
  (∀ j < min start count, verdict j = none) ∨
    ∃ j < min start count, (∀ l < j, verdict l = none) ∧
      verdict j = some (scan verdict finished start (count - start))

/-- **Scanning from zero and scanning from `start`.** -/
theorem scan_zero_eq_iff :
    scan verdict finished 0 count = scan verdict finished start (count - start) ↔
      Indifferent verdict finished start count := by
  by_cases hall : ∀ j < min start count, verdict j = none
  · refine iff_of_true ?_ (.inl hall)
    rcases Nat.le_total start count with hle | hle
    · obtain ⟨rest, rfl⟩ := Nat.exists_eq_add_of_le hle
      rw [scan_eq_of_forall_none fun j hj ↦ ?_, Nat.add_sub_cancel_left, Nat.zero_add]
      rw [Nat.zero_add]
      exact hall j (by omega)
    · rw [Nat.sub_eq_zero_of_le hle]
      have hskip : scan verdict finished 0 (count + 0) = scan verdict finished (0 + count) 0 :=
        scan_eq_of_forall_none fun j hj ↦ by
          rw [Nat.zero_add]
          exact hall j (by omega)
      simpa using hskip
  · classical
    have hex : ∃ j, j < min start count ∧ verdict j ≠ none := by
      push Not at hall
      exact hall
    obtain ⟨hlt, hsome⟩ := Nat.find_spec hex
    have hbelow : ∀ l < Nat.find hex, verdict l = none := by
      intro l hl
      by_contra hne
      exact Nat.find_min hex hl ⟨by omega, hne⟩
    obtain ⟨b, hb⟩ := Option.ne_none_iff_exists'.1 hsome
    have hscan : scan verdict finished 0 count = b :=
      scan_eq_of_first (j := Nat.find hex) (by omega) (by simpa using hbelow) (by simpa using hb)
    rw [hscan]
    constructor
    · intro heq
      exact .inr ⟨_, hlt, hbelow, heq ▸ hb⟩
    · rintro (hnone | ⟨j, hj, hfirst, hj'⟩)
      · exact absurd hnone hall
      · have hjeq : j = Nat.find hex := by
          refine le_antisymm (Nat.le_of_not_lt fun h ↦ ?_) (Nat.find_min' hex ⟨hj, by simp [hj']⟩)
          exact absurd (hfirst _ h) hsome
        exact Option.some.inj ((hb.symm.trans (hjeq ▸ rfl)).trans hj')

end Scan
