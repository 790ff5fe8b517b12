import Mathlib.Tactic.Common

/-!
# Runs of a deterministic machine

A machine is a step function into a next state or an outcome. `Ends` is the outcome of a run, which
a run that goes on forever does not have, and `Arrives` is the first visit to a set of states.

## Comparing two machines

Two machines that take the same steps outside a set have the same runs until the first arrival in
it. `ends_congr` is the case where the set is never reached, `Arrives.transfer` carries an arrival
from one machine to the other. Both are relative to an invariant of the first machine, so that the
machines need only agree where they can get.
-/

namespace Runs

variable {S O : Type*} {step step₁ step₂ : S → S ⊕ O} {P Q I : S → Prop} {s t u : S} {o o' : O}

/-- The run from a state ends with an outcome. -/
inductive Ends (step : S → S ⊕ O) : S → O → Prop
  | done {s : S} {o : O} (h : step s = .inr o) : Ends step s o
  | next {s t : S} {o : O} (h : step s = .inl t) (ht : Ends step t o) : Ends step s o

/-- The first state of a set that the run from a state visits. -/
inductive Arrives (step : S → S ⊕ O) (P : S → Prop) : S → S → Prop
  | here {s : S} (h : P s) : Arrives step P s s
  | next {s t u : S} (hs : ¬P s) (h : step s = .inl t) (ht : Arrives step P t u) :
    Arrives step P s u

/-- The outcome of a run, if it ends within the given number of steps. -/
def runFor (step : S → S ⊕ O) : ℕ → S → Option O
  | 0, _ => none
  | n + 1, s =>
    match step s with
    | .inl t => runFor step n t
    | .inr o => some o

theorem ends_of_runFor {n : ℕ} (h : runFor step n s = some o) : Ends step s o := by
  induction n generalizing s with
  | zero => cases h
  | succ n ih =>
    unfold runFor at h
    split at h
    · exact .next ‹_› (ih h)
    · obtain rfl := Option.some.inj h
      exact .done ‹_›

theorem ends_iff_of_inl (h : step s = .inl t) : Ends step s o ↔ Ends step t o := by
  refine ⟨?_, .next h⟩
  rintro (h' | ⟨h', ht⟩)
  · exact nomatch h.symm.trans h'
  · obtain rfl := Sum.inl.inj (h.symm.trans h')
    exact ht

theorem ends_iff_of_inr (h : step s = .inr o) : Ends step s o' ↔ o' = o := by
  refine ⟨?_, fun ho ↦ ho ▸ .done h⟩
  rintro (h' | ⟨h', -⟩)
  · exact Sum.inr.inj (h'.symm.trans h)
  · exact nomatch h.symm.trans h'

theorem Ends.unique (h : Ends step s o) (h' : Ends step s o') : o = o' := by
  induction h with
  | done hs => exact ((ends_iff_of_inr hs).1 h').symm
  | next hs _ ih => exact ih ((ends_iff_of_inl hs).1 h')

/-! ### Arrivals -/

theorem Arrives.target (h : Arrives step P s t) : P t := by
  induction h with
  | here h => exact h
  | next _ _ _ ih => exact ih

theorem Arrives.unique (h : Arrives step P s t) (h' : Arrives step P s u) : t = u := by
  induction h with
  | here hs =>
    rcases h' with - | ⟨hn, -, -⟩
    · rfl
    · exact absurd hs hn
  | next hn hs _ ih =>
    rcases h' with ht | ⟨-, hs', hu⟩
    · exact absurd ht hn
    · obtain rfl := Sum.inl.inj (hs.symm.trans hs')
      exact ih hu

theorem Arrives.ends_iff (h : Arrives step P s t) : Ends step s o ↔ Ends step t o := by
  induction h with
  | here _ => rfl
  | next _ hs _ ih => rw [ends_iff_of_inl hs, ih]

/-- Of two arrivals of one run, one comes before the other. -/
theorem Arrives.or (h : Arrives step P s t) (h' : Arrives step Q s u) :
    Arrives step Q t u ∨ Arrives step P u t := by
  induction h with
  | here _ => exact .inl h'
  | next hn hs ht ih =>
    rcases h' with hq | ⟨hn', hs', hu⟩
    · exact .inr (.next hn hs ht)
    · obtain rfl := Sum.inl.inj (hs.symm.trans hs')
      exact ih hu

/-- What holds on the way to a set holds on arrival. -/
theorem Arrives.invariant (hI : ∀ s t, I s → ¬P s → step s = .inl t → I t)
    (h : Arrives step P s t) (hs : I s) : I t := by
  induction h with
  | here _ => exact hs
  | next hn hst _ ih => exact ih (hI _ _ hs hn hst)

/-- A run that stays in a set never arrives outside it. -/
theorem not_arrives_of_closed (hI : ∀ s t, I s → step s = .inl t → I t)
    (hQ : ∀ s, I s → ¬Q s) (hs : I s) : ¬Arrives step Q s t := by
  intro h
  induction h with
  | here h => exact hQ _ hs h
  | next _ hst _ ih => exact ih (hI _ _ hs hst)

/-! ### Machines that agree outside a set -/

section Congr

variable (hag : ∀ s, I s → ¬P s → step₁ s = step₂ s)
  (hI : ∀ s t, I s → ¬P s → step₁ s = .inl t → I t)
include hag hI

/-- An arrival that does not lie behind the set where the machines differ. -/
theorem Arrives.transfer (hP : ∀ s t, I s → P s → ¬Arrives step₁ Q s t)
    (h : Arrives step₁ Q s t) (hs : I s) : Arrives step₂ Q s t := by
  induction h with
  | here h => exact .here h
  | @next s _ _ hn hst hu ih =>
    have hps : ¬P s := fun hps ↦ hP _ _ hs hps (.next hn hst hu)
    exact .next hn (hag _ hs hps ▸ hst) (ih (hI _ _ hs hps hst))

/-- The first arrival in the set where they differ. -/
theorem Arrives.congr (h : Arrives step₁ P s t) (hs : I s) : Arrives step₂ P s t := by
  induction h with
  | here h => exact .here h
  | next hn hst _ ih => exact .next hn (hag _ hs hn ▸ hst) (ih (hI _ _ hs hn hst))

theorem Ends.congr (h : Ends step₁ s o) (hs : I s) (hP : ∀ t, ¬Arrives step₁ P s t) :
    Ends step₂ s o := by
  induction h with
  | @done s o h =>
    have hps : ¬P s := fun hps ↦ hP _ (.here hps)
    exact .done (hag _ hs hps ▸ h)
  | @next s t o h _ ih =>
    have hps : ¬P s := fun hps ↦ hP _ (.here hps)
    exact .next (hag _ hs hps ▸ h) (ih (hI _ _ hs hps h) fun u hu ↦ hP u (.next hps h hu))

theorem Ends.congr_symm (h : Ends step₂ s o) (hs : I s) (hP : ∀ t, ¬Arrives step₁ P s t) :
    Ends step₁ s o := by
  have hag' : ∀ s, I s → ¬P s → step₂ s = step₁ s := fun s hs hps ↦ (hag s hs hps).symm
  have hI' : ∀ s t, I s → ¬P s → step₂ s = .inl t → I t :=
    fun s t hs hps h ↦ hI s t hs hps ((hag s hs hps).trans h)
  exact h.congr hag' hI' hs fun t ht ↦ hP t (ht.congr hag' hI' hs)

/-- **Machines that agree off a set they never reach end alike.** -/
theorem ends_congr (hs : I s) (hP : ∀ t, ¬Arrives step₁ P s t) : Ends step₁ s o ↔ Ends step₂ s o :=
  ⟨fun h ↦ h.congr hag hI hs hP, fun h ↦ h.congr_symm hag hI hs hP⟩

end Congr

end Runs
