import Mathlib.Tactic.Common

/-!
# Code with labels and calls

Programs of labelled blocks over an arbitrary instruction set. An instruction goes on to the next
one, jumps to a label, calls another function or returns; control that reaches the end of a block
falls through to the block after it. `exec` runs such code with fuel, and `Runs` says that a run
returns in a state with a given property, for some fuel.

A function may only return with the link it was entered with, so code that loses its return address
does not return at all.

## The rules

Every rule for `Runs` is an equivalence, so a proof may rewrite a goal, or a hypothesis, from one
instruction to the next: `runs_next`, `runs_goto`, `runs_ret`, `runs_call` and, from block to
block, `runsAt_iff`. Loops are handled by induction on what they have left to do.
-/

namespace Blocks

open Option

/-- What an instruction does in a state. -/
inductive Action (L F σ : Type)
  | next (s : σ)
  | goto (l : L) (s : σ)
  | call (f : F) (s : σ)
  | ret (s : σ)
  | halt

structure Block (L I : Type) where
  label : L
  body : List I

abbrev Program (L I : Type) := List (Block L I)

variable {L F I σ τ : Type} [DecidableEq L] [DecidableEq τ]

/-- The body of the block with a label, and the label of the block after it. -/
def Program.at? (l : L) : Program L I → Option (List I × Option L)
  | [] => none
  | b :: bs => if b.label = l then some (b.body, bs.head?.map (·.label)) else Program.at? l bs

/-- The label a program starts with. -/
def Program.entry (program : Program L I) : Option L := program.head?.map (·.label)

/-- An instruction set, the link that a function must return with, and the functions. -/
structure Machine (L F I σ τ : Type) where
  act : I → σ → Action L F σ
  link : σ → τ
  program : F → Option (Program L I)

variable (M : Machine L F I σ τ)

/-- The state in which the code returns, run from the instructions that are left of a block. -/
def exec : ℕ → Program L I → τ → List I → Option L → σ → Option σ
  | 0, _, _, _, _, _ => none
  | n + 1, program, link, [], fall, s => do
    let (body, fall) ← program.at? (← fall)
    exec n program link body fall s
  | n + 1, program, link, i :: is, fall, s =>
    match M.act i s with
    | .next s => exec n program link is fall s
    | .goto l s => do
      let (body, fall) ← program.at? l
      exec n program link body fall s
    | .call f s => do
      let callee ← M.program f
      let s ← exec n callee (M.link s) [] callee.entry s
      exec n program link is fall s
    | .ret s => if M.link s = link then some s else none
    | .halt => none

/-- The code returns in a state with the property. -/
def Runs (program : Program L I) (link : τ) (body : List I) (fall : Option L) (s : σ)
    (Q : σ → Prop) : Prop :=
  ∃ n s', exec M n program link body fall s = some s' ∧ Q s'

/-- The same from a label. -/
def RunsAt (program : Program L I) (link : τ) (l : L) (s : σ) (Q : σ → Prop) : Prop :=
  Runs M program link [] (some l) s Q

/-- A call of the function returns in a state. -/
def Calls (f : F) (s s' : σ) : Prop :=
  ∃ callee, M.program f = some callee ∧
    Runs M callee (M.link s) [] callee.entry s (· = s')

variable {M} {program program' : Program L I} {link link' : τ} {body body' : List I}
  {fall fall' : Option L} {i : I} {l : L} {f : F} {s s' s₁ s₂ : σ} {Q : σ → Prop} {n m : ℕ}
  {b : Block L I}

/-! ### Fuel -/

/-- A program has the labels of another one. -/
def Program.Extends (program' program : Program L I) : Prop :=
  ∀ l x, program.at? l = some x → program'.at? l = some x

theorem Program.Extends.refl : program.Extends program := fun _ _ h ↦ h

/-- A block with a new label in front. -/
theorem Program.Extends.cons (hout : program.at? b.label = none) :
    Program.Extends (b :: program) program := by
  intro l x hx
  have hne : b.label ≠ l := fun heq ↦ nomatch (heq ▸ hout).symm.trans hx
  exact (if_neg hne).trans hx

theorem Program.at?_none (h : l ∉ program.map (·.label)) : program.at? l = none := by
  induction program with
  | nil => rfl
  | cons b program ih =>
    obtain ⟨hne, hrest⟩ := List.ne_and_not_mem_of_not_mem_cons h
    exact (if_neg hne.symm).trans (ih hrest)

/-- Blocks with distinct labels are found by them. -/
theorem Program.exists_at?_of_mem (hdistinct : (program.map (·.label)).Nodup) (hb : b ∈ program) :
    ∃ fall, program.at? b.label = some (b.body, fall) := by
  induction program with
  | nil => exact absurd hb List.not_mem_nil
  | cons first program ih =>
    obtain ⟨hfirst, hdistinct⟩ := List.nodup_cons.1 hdistinct
    rcases List.mem_cons.1 hb with rfl | hb
    · exact ⟨_, if_pos rfl⟩
    · obtain ⟨fall, hfall⟩ := ih hdistinct hb
      have hne : first.label ≠ b.label := fun h ↦ hfirst (List.mem_map.2 ⟨b, hb, h.symm⟩)
      exact ⟨fall, (if_neg hne).trans hfall⟩

/-- **A run determines all others from the same state**: with more fuel, with more labels and with
any link to return with. -/
theorem exec_eq_ite (h : exec M n program link body fall s = some s') :
    M.link s' = link ∧ ∀ {k : ℕ} {program' : Program L I}, program'.Extends program →
      ∀ link', exec M (k + n) program' link' body fall s =
        if M.link s' = link' then some s' else none := by
  induction n generalizing program link body fall s s' with
  | zero => exact nomatch h
  | succ n ih =>
    match body with
    | [] =>
      obtain ⟨l, hl, h⟩ := bind_eq_some_iff.1 h
      obtain ⟨x, hx, h⟩ := bind_eq_some_iff.1 h
      refine ⟨(ih h).1, fun {k program'} hat link' ↦ ?_⟩
      rw [hl]
      show (program'.at? l).bind _ = _
      rw [hat l x hx]
      exact (ih h).2 hat link'
    | i :: is =>
      rw [exec] at h
      cases hact : M.act i s with
      | next s₁ =>
        rw [hact] at h
        refine ⟨(ih h).1, fun {k program'} hat link' ↦ ?_⟩
        rw [← Nat.add_assoc, exec, hact]
        exact (ih h).2 hat link'
      | goto l s₁ =>
        rw [hact] at h
        obtain ⟨x, hx, h⟩ := bind_eq_some_iff.1 h
        refine ⟨(ih h).1, fun {k program'} hat link' ↦ ?_⟩
        rw [← Nat.add_assoc, exec, hact]
        show (program'.at? l).bind _ = _
        rw [hat l x hx]
        exact (ih h).2 hat link'
      | call f s₁ =>
        rw [hact] at h
        obtain ⟨callee, hcallee, h⟩ := bind_eq_some_iff.1 h
        obtain ⟨s₂, hs₂, h⟩ := bind_eq_some_iff.1 h
        refine ⟨(ih h).1, fun {k program'} hat link' ↦ ?_⟩
        rw [← Nat.add_assoc, exec, hact]
        show (M.program f).bind _ = _
        rw [hcallee]
        show (exec M (k + n) callee (M.link s₁) [] callee.entry s₁).bind _ = _
        rw [(ih hs₂).2 .refl, if_pos (ih hs₂).1]
        exact (ih h).2 hat link'
      | ret s₁ =>
        rw [hact] at h
        obtain ⟨hlink, heq⟩ := ite_none_right_eq_some.1 h
        obtain rfl := some.inj heq
        refine ⟨hlink, fun {k program'} hat link' ↦ ?_⟩
        rw [← Nat.add_assoc, exec, hact]
      | halt =>
        rw [hact] at h
        exact nomatch h

/-- More fuel does not change a result. -/
theorem exec_mono (hnm : n ≤ m) (h : exec M n program link body fall s = some s') :
    exec M m program link body fall s = some s' := by
  obtain ⟨k, rfl⟩ := Nat.exists_eq_add_of_le' hnm
  rw [(exec_eq_ite h).2 .refl, if_pos (exec_eq_ite h).1]

/-- A program with more labels does what the program does. -/
theorem exec_of_extends (hat : program'.Extends program)
    (h : exec M n program link body fall s = some s') :
    exec M n program' link body fall s = some s' := by
  have := (exec_eq_ite h).2 (k := 0) hat link
  rwa [Nat.zero_add, if_pos (exec_eq_ite h).1] at this

/-- **Code returns in one state at most**, whatever the link. -/
theorem exec_unique (h₁ : exec M n program link body fall s = some s₁)
    (h₂ : exec M m program link' body fall s = some s₂) : s₁ = s₂ := by
  have h := (exec_eq_ite h₁).2 (k := m) .refl link'
  rw [exec_mono (Nat.le_add_right m n) h₂] at h
  exact (some.inj (ite_none_right_eq_some.1 h.symm).2)

theorem Calls.unique (h₁ : Calls M f s s₁) (h₂ : Calls M f s s₂) : s₁ = s₂ := by
  obtain ⟨callee, hcallee, n, s₁, hn, rfl⟩ := h₁
  obtain ⟨callee', hcallee', m, s₂, hm, rfl⟩ := h₂
  obtain rfl := Option.mem_unique hcallee hcallee'
  exact exec_unique hn hm

/-! ### The rules -/

/-- Code to be run: the program, the link it must return with, and what is to hold then. -/
structure Code (M : Machine L F I σ τ) where
  program : Program L I
  link : τ
  post : σ → Prop

/-- The code returns as it should, run from the instructions that are left of a block. -/
def Code.Runs (C : Code M) (body : List I) (fall : Option L) (s : σ) : Prop :=
  Blocks.Runs M C.program C.link body fall s C.post

/-- The same from a label. -/
def Code.RunsAt (C : Code M) (l : L) (s : σ) : Prop := C.Runs [] (some l) s

variable {C : Code M}

/-- A run that takes a step is a run from the state after the step. -/
theorem runs_of_exec_succ (h : ∀ n, exec M (n + 1) C.program C.link body fall s =
      exec M n C.program C.link body' fall' s') : C.Runs body fall s ↔ C.Runs body' fall' s' := by
  constructor
  · rintro ⟨n, s₁, hn, hQ⟩
    cases n with
    | zero => exact nomatch hn
    | succ n => exact ⟨n, s₁, h n ▸ hn, hQ⟩
  · rintro ⟨n, s₁, hn, hQ⟩
    exact ⟨n + 1, s₁, (h n).trans hn, hQ⟩

theorem runsAt_iff (hat : C.program.at? l = some (body, fall)) :
    C.RunsAt l s ↔ C.Runs body fall s := by
  refine runs_of_exec_succ fun n ↦ ?_
  show (C.program.at? l).bind _ = _
  rw [hat]
  rfl

/-- Control does not go on from a label that is not there. -/
theorem not_runsAt (hat : C.program.at? l = none) : ¬ C.RunsAt l s := by
  rintro ⟨n, s₁, hn, -⟩
  cases n with
  | zero => exact nomatch hn
  | succ n =>
    rw [exec] at hn
    obtain ⟨l', hl, hn⟩ := bind_eq_some_iff.1 hn
    obtain rfl := some.inj hl
    obtain ⟨x, hx, -⟩ := bind_eq_some_iff.1 hn
    exact nomatch hat.symm.trans hx

theorem runs_nil : C.Runs [] (some l) s ↔ C.RunsAt l s := Iff.rfl

theorem runs_next (h : M.act i s = .next s') : C.Runs (i :: body) fall s ↔ C.Runs body fall s' := by
  refine runs_of_exec_succ fun n ↦ ?_
  rw [exec, h]

theorem runs_goto (h : M.act i s = .goto l s') : C.Runs (i :: body) fall s ↔ C.RunsAt l s' := by
  have hexec : ∀ n, exec M (n + 1) C.program C.link (i :: body) fall s
      = exec M (n + 1) C.program C.link [] (some l) s' := by
    intro n
    conv_lhs => rw [exec, h]
    rfl
  constructor
  · rintro ⟨n, s₁, hn, hQ⟩
    cases n with
    | zero => exact nomatch hn
    | succ n => exact ⟨n + 1, s₁, hexec n ▸ hn, hQ⟩
  · rintro ⟨n, s₁, hn, hQ⟩
    cases n with
    | zero => exact nomatch hn
    | succ n => exact ⟨n + 1, s₁, (hexec n).trans hn, hQ⟩

theorem runs_ret (h : M.act i s = .ret s') :
    C.Runs (i :: body) fall s ↔ M.link s' = C.link ∧ C.post s' := by
  have hexec : ∀ n, exec M (n + 1) C.program C.link (i :: body) fall s
      = if M.link s' = C.link then some s' else none := by
    intro n
    rw [exec, h]
  constructor
  · rintro ⟨n, s₁, hn, hQ⟩
    cases n with
    | zero => exact nomatch hn
    | succ n =>
      rw [hexec] at hn
      obtain ⟨hlink, heq⟩ := ite_none_right_eq_some.1 hn
      exact ⟨hlink, some.inj heq ▸ hQ⟩
  · rintro ⟨hlink, hQ⟩
    exact ⟨1, s', (hexec 0).trans (if_pos hlink), hQ⟩

theorem runs_halt (h : M.act i s = .halt) : C.Runs (i :: body) fall s ↔ False := by
  refine iff_of_false ?_ id
  rintro ⟨n, s₁, hn, -⟩
  cases n with
  | zero => exact nomatch hn
  | succ n =>
    rw [exec, h] at hn
    exact nomatch hn

theorem runs_call (h : M.act i s = .call f s') :
    C.Runs (i :: body) fall s ↔ ∃ s₁, Calls M f s' s₁ ∧ C.Runs body fall s₁ := by
  constructor
  · rintro ⟨n, s₂, hn, hQ⟩
    cases n with
    | zero => exact nomatch hn
    | succ n =>
      rw [exec, h] at hn
      obtain ⟨callee, hcallee, hn⟩ := bind_eq_some_iff.1 hn
      obtain ⟨s₁, hs₁, hn⟩ := bind_eq_some_iff.1 hn
      exact ⟨s₁, ⟨callee, hcallee, n, s₁, hs₁, rfl⟩, n, s₂, hn, hQ⟩
  · rintro ⟨s₁, ⟨callee, hcallee, n, s₁, hn, rfl⟩, m, s₂, hm, hQ⟩
    refine ⟨max n m + 1, s₂, ?_, hQ⟩
    rw [exec, h]
    exact bind_eq_some_iff.2 ⟨callee, hcallee, bind_eq_some_iff.2
      ⟨s₁, exec_mono (Nat.le_max_left n m) hn, exec_mono (Nat.le_max_right n m) hm⟩⟩

/-- A run of a function from its first label is a call. -/
theorem exists_calls {callee : Program L I} (hf : M.program f = some callee)
    (hentry : callee.entry = some l) (h : Code.RunsAt (M := M) ⟨callee, M.link s, Q⟩ l s) :
    ∃ s', Calls M f s s' ∧ Q s' := by
  obtain ⟨n, s', hn, hQ⟩ := h
  exact ⟨s', ⟨callee, hf, n, s', hentry ▸ hn, rfl⟩, hQ⟩

end Blocks
