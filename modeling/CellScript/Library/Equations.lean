import CellScript.Library.Fallible

/-!
# Solving equations with a queue

Every unknown has an equation, which computes its value from the values of other unknowns and may
fail. The unknowns of a queue are evaluated one after another; when a value changes, the unknowns
that read it are put at the end of the queue. The number of evaluations is bounded.

`solve_induction` is the rule for what every evaluation keeps. With it, an unknown that is not in
the queue satisfies its equation all along, so that at the end all of them do (`solve_settles`).
-/

/-- Equations between unknowns, with the unknowns that read a given one. -/
structure Equations (α σ ε : Type) where
  evaluate : (α → σ) → α → Except ε σ
  readers : α → List α
  exhausted : ε

namespace Equations

variable {α σ ε : Type} [DecidableEq α] [DecidableEq σ] {S S' : Equations α σ ε} {steps : ℕ}
  {values result : α → σ} {queue : List α} {a : α}

/-- The loop, with at most the given number of evaluations. -/
def solve (S : Equations α σ ε) : ℕ → (α → σ) → List α → Except ε (α → σ)
  | _, values, [] => .ok values
  | 0, _, _ :: _ => .error S.exhausted
  | steps + 1, values, a :: queue => do
    let value ← S.evaluate values a
    if values a = value then S.solve steps values queue
    else S.solve steps (Function.update values a value) (queue ++ (S.readers a).filter (· ∉ queue))

/-- One evaluation, whether or not it changes the value. -/
theorem exists_solve (h : S.solve steps values (a :: queue) = .ok result) :
    ∃ steps' value queue', S.evaluate values a = .ok value ∧
      S.solve steps' (Function.update values a value) queue' = .ok result ∧ steps' < steps ∧
      ∀ b, b ∈ queue' ↔ b ∈ queue ∨ values a ≠ value ∧ b ∈ S.readers a := by
  cases steps with
  | zero => exact nomatch h
  | succ steps =>
    obtain ⟨value, hvalue, h⟩ := bind_ok.1 h
    split at h
    · next heq =>
      refine ⟨steps, value, queue, hvalue, ?_, Nat.lt_succ_self steps, by simp [heq]⟩
      rwa [← heq, Function.update_eq_self]
    · next hne =>
      refine ⟨steps, value, _, hvalue, h, Nat.lt_succ_self steps, fun b ↦ ?_⟩
      by_cases hb : b ∈ queue <;> simp [hb, hne]

/-- **What every evaluation keeps, the loop keeps.** -/
theorem solve_induction (P : (α → σ) → List α → Prop)
    (hstep : ∀ values a queue value queue', P values (a :: queue) →
      S.evaluate values a = .ok value →
      (∀ b, b ∈ queue' ↔ b ∈ queue ∨ values a ≠ value ∧ b ∈ S.readers a) →
      P (Function.update values a value) queue')
    (hinit : P values queue) (h : S.solve steps values queue = .ok result) : P result [] := by
  induction steps using Nat.strongRecOn generalizing values queue with
  | _ steps ih =>
    cases queue with
    | nil =>
      obtain rfl : values = result := by simpa [solve] using h
      exact hinit
    | cons a queue =>
      obtain ⟨steps', value, queue', hvalue, h, hlt, hqueue⟩ := exists_solve h
      exact ih steps' hlt (hstep values a queue value queue' hinit hvalue hqueue) h

/-- **At the end every equation holds**, if all unknowns were queued and an evaluation depends on
what its unknown reads only. -/
theorem solve_settles
    (hreads : ∀ values a value b result, b ∉ S.readers a → S.evaluate values b = .ok result →
      S.evaluate (Function.update values a value) b = .ok result)
    (h : S.solve steps values queue = .ok result) (ha : a ∈ queue) :
    S.evaluate result a = .ok (result a) := by
  refine solve_induction (fun values rest ↦ ∀ b ∈ queue, b ∉ rest →
    S.evaluate values b = .ok (values b)) ?_
      (fun b hb hnot ↦ absurd hb hnot) h a ha List.not_mem_nil
  intro values a rest value rest' hsettled hvalue hrest b hb hnot
  rw [hrest, not_or, not_and] at hnot
  by_cases hchange : values a = value
  · rw [← hchange, Function.update_eq_self]
    by_cases hab : b = a
    · rw [hab, hvalue, hchange]
    · exact hsettled b hb (by simp [hab, hnot.1])
  · refine hreads values a value b _ (hnot.2 hchange) ?_
    by_cases hab : b = a
    · rw [hab, hvalue, Function.update_self]
    · rw [Function.update_of_ne hab, hsettled b hb (by simp [hab, hnot.1])]

/-- Two systems with the same readers, of which one gives the values of the other. -/
theorem solve_congr (hreaders : S'.readers = S.readers)
    (hevaluate : ∀ values a value, S.evaluate values a = .ok value →
    S'.evaluate values a = .ok value)
    (h : S.solve steps values queue = .ok result) : S'.solve steps values queue = .ok result := by
  induction steps generalizing values queue with
  | zero =>
    cases queue with
    | nil => exact h
    | cons a queue => exact nomatch h
  | succ steps ih =>
    cases queue with
    | nil => exact h
    | cons a queue =>
      obtain ⟨value, hvalue, h⟩ := bind_ok.1 h
      refine bind_ok.2 ⟨value, hevaluate values a value hvalue, ?_⟩
      rw [hreaders]
      split at h
      · next heq => exact (if_pos heq).trans (ih h)
      · next hne => exact (if_neg hne).trans (ih h)

end Equations
