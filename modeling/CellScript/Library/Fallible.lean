import Mathlib.Data.List.Forall2

/-!
# Inverting successful computations

A computation in `Except ε` that returns a value has taken every one of its steps. The lemmas here
take a successful `do` block apart, one statement at a time: a bind has an intermediate value, a
guard that throws was not entered, and a fold of fallible steps keeps what each step keeps.
-/

namespace Except

open List

variable {ε α β ε' σ : Type} {f : α → Except ε β} {x : Except ε α} {b : β} {e : ε} {l l' : List α}
  {ys : List β} {a : α} {p : Prop}

@[simp] theorem bind_ok : (x >>= f) = ok b ↔ ∃ a, x = ok a ∧ f a = ok b := by
  cases x with
  | error e => simp [bind, Except.bind]
  | ok a => simp [bind, Except.bind]

@[simp] theorem ok_bind (a : α) (f : α → Except ε β) : (ok a >>= f) = f a := rfl

/-- A check before the rest of a block. -/
theorem check_ok {x : Except ε Unit} {y : Except ε β} :
    (x >>= fun _ ↦ y) = ok b ↔ x = ok () ∧ y = ok b := by
  refine bind_ok.trans ⟨?_, fun h ↦ ⟨(), h⟩⟩
  rintro ⟨⟨⟩, h⟩
  exact h

@[simp] theorem pure_ok {a b : α} : (pure a : Except ε α) = ok b ↔ a = b :=
  Except.ok.injEq a b ▸ Iff.rfl

@[simp] theorem throw_ne_ok {b : α} : (throw e : Except ε α) ≠ ok b :=
  fun h ↦ nomatch h

@[simp] theorem map_ok_iff {f : α → β} : (f <$> x) = ok b ↔ ∃ a, x = ok a ∧ f a = b := by
  cases x with
  | error e => simp [Functor.map, Except.map]
  | ok a => simp [Functor.map, Except.map]

@[simp] theorem mapError_ok_iff {f : ε → ε'} : x.mapError f = ok a ↔ x = ok a := by
  cases x with
  | error e => exact iff_of_false (fun h ↦ nomatch h) fun h ↦ nomatch h
  | ok b => exact Except.ok.injEq b a ▸ Except.ok.injEq b a ▸ Iff.rfl

theorem ite_ok_iff [Decidable p] {b : α} : (if p then ok a else error e) = ok b ↔ p ∧ a = b := by
  split <;> simp [*]

/-- A check of the result, as a fact about a value it returned. -/
theorem exists_of_toOption_any {p : α → Bool} (h : x.toOption.any p = true) :
    ∃ a, x = ok a ∧ p a = true := by
  cases x with
  | error e => cases h
  | ok a => exact ⟨a, rfl, h⟩

/-- A loop of checks succeeds when every check does. -/
theorem forM_ok_iff {f : α → Except ε Unit} : l.forM f = ok () ↔ ∀ a ∈ l, f a = ok () := by
  induction l with
  | nil => simp
  | cons a l ih =>
    rw [forall_mem_cons, ← ih]
    exact check_ok

theorem foldlM_congr {f g : σ → α → Except ε σ} {s : σ} (h : ∀ a ∈ l, ∀ s, f s a = g s a) :
    l.foldlM f s = l.foldlM g s := by
  induction l generalizing s with
  | nil => rfl
  | cons a l ih =>
    obtain ⟨ha, hl⟩ := forall_mem_cons.1 h
    simp only [foldlM_cons, ha, ih hl]

/-- Every step of a loop that ended was taken. -/
theorem exists_step_of_foldlM {f : σ → α → Except ε σ} {s t : σ}
    (h : l.foldlM f s = ok t) (ha : a ∈ l) : ∃ s' t', f s' a = ok t' := by
  induction l generalizing s with
  | nil => exact absurd ha not_mem_nil
  | cons b l ih =>
    rw [foldlM_cons, bind_ok] at h
    obtain ⟨s', hs', h⟩ := h
    obtain rfl | ha := mem_cons.1 ha
    · exact ⟨s, s', hs'⟩
    · exact ih h ha

/-- **What every step of a loop keeps**, with what it adds about its element. -/
theorem foldlM_induction {f : σ → α → Except ε σ} {s t : σ} {I : σ → Prop} {P : α → σ → Prop}
    (hstep : ∀ s a t, a ∈ l → I s → f s a = ok t → I t ∧ P a t ∧ ∀ b, P b s → P b t)
    (h : l.foldlM f s = ok t) (hs : I s) : I t ∧ (∀ a ∈ l, P a t) ∧ ∀ b, P b s → P b t := by
  induction l generalizing s with
  | nil =>
    obtain rfl := pure_ok.1 h
    exact ⟨hs, nofun, fun b hb ↦ hb⟩
  | cons a l ih =>
    rw [foldlM_cons, bind_ok] at h
    obtain ⟨s', hs', h⟩ := h
    obtain ⟨hinv, ha, hkeep⟩ := hstep s a s' mem_cons_self hs hs'
    obtain ⟨hend, hl, hrest⟩ := ih (fun s a t ha ↦ hstep s a t (mem_cons_of_mem _ ha)) h hinv
    exact ⟨hend, forall_mem_cons.2 ⟨hrest a ha, hl⟩, fun b hb ↦ hrest b (hkeep b hb)⟩

/-- **The states of a loop that ended**, before and after each step. -/
theorem exists_states_of_foldlM {f : σ → α → Except ε σ} {s t : σ} (h : l.foldlM f s = ok t) :
    ∃ state : ℕ → σ, state 0 = s ∧ state l.length = t ∧
      ∀ (i : ℕ) (a : α), l[i]? = some a → f (state i) a = ok (state (i + 1)) := by
  induction l generalizing s with
  | nil => exact ⟨fun _ ↦ s, rfl, pure_ok.1 h, fun i a hi ↦ nomatch hi⟩
  | cons b l ih =>
    rw [foldlM_cons, bind_ok] at h
    obtain ⟨s', hs', h⟩ := h
    obtain ⟨state, hstart, hend, hstep⟩ := ih h
    refine ⟨fun i ↦ Nat.casesOn i s state, rfl, hend, fun i a hi ↦ ?_⟩
    cases i with
    | zero =>
      obtain rfl := Option.some.inj hi
      show f s b = ok (state 0)
      rw [hs', hstart]
    | succ i => exact hstep i a hi

/-- Two loops whose steps correspond end alike. -/
theorem foldlM_of_forall₂ {R : α → β → Prop} {f : σ → α → Except ε σ}
    {g : σ → β → Except ε σ} {s t : σ} (hl : Forall₂ R l ys)
    (hstep : ∀ s a b t, R a b → f s a = ok t → g s b = ok t) (h : l.foldlM f s = ok t) :
    ys.foldlM g s = ok t := by
  induction hl generalizing s with
  | nil => exact h
  | cons hr _ ih =>
    rw [foldlM_cons, bind_ok] at h ⊢
    obtain ⟨s', hs', h⟩ := h
    exact ⟨s', hstep s _ _ s' hr hs', ih h⟩

/-- **The steps of a loop may be taken in any order**, if any two may be exchanged. -/
theorem foldlM_of_perm {f : σ → α → Except ε σ} {s t : σ} (hl : l.Perm l')
    (hswap : ∀ s a b u t, f s a = ok u → f u b = ok t → ∃ v, f s b = ok v ∧ f v a = ok t)
    (h : l.foldlM f s = ok t) : l'.foldlM f s = ok t := by
  induction hl generalizing s with
  | nil => exact h
  | cons a _ ih =>
    rw [foldlM_cons, bind_ok] at h ⊢
    obtain ⟨s', hs', h⟩ := h
    exact ⟨s', hs', ih h⟩
  | swap a b l =>
    simp only [foldlM_cons, bind_ok] at h ⊢
    obtain ⟨u, hu, w, hw, h⟩ := h
    obtain ⟨v, hv, hw⟩ := hswap s b a u w hu hw
    exact ⟨v, hv, w, hw, h⟩
  | trans _ _ ih ih' => exact ih' (ih h)

/-- A loop that collects results has one for every argument. -/
theorem mapM_ok_iff : l.mapM f = ok ys ↔ Forall₂ (fun a b ↦ f a = ok b) l ys := by
  induction l generalizing ys with
  | nil =>
    rw [mapM_nil, pure_ok, forall₂_nil_left_iff, eq_comm]
  | cons x l ih =>
    rw [mapM_cons, bind_ok, forall₂_cons_left_iff]
    refine exists_congr fun y ↦ ?_
    rw [bind_ok, exists_and_left]
    simp only [pure_ok, ih, @eq_comm (List β) ys]

/-- A loop over a function that succeeds on some arguments, with known results. -/
theorem mapM_ok_map_iff {P : α → Prop} {g : α → β} (h : ∀ a b, f a = ok b ↔ P a ∧ b = g a) :
    l.mapM f = ok ys ↔ (∀ a ∈ l, P a) ∧ ys = l.map g := by
  rw [mapM_ok_iff]
  simp only [h]
  induction l generalizing ys with
  | nil => simp
  | cons a l ih =>
    simp only [forall₂_cons_left_iff, ih, forall_mem_cons, map_cons]
    constructor
    · rintro ⟨_, _, ⟨ha, rfl⟩, ⟨hl, rfl⟩, rfl⟩
      exact ⟨⟨ha, hl⟩, rfl⟩
    · rintro ⟨⟨ha, hl⟩, rfl⟩
      exact ⟨_, _, ⟨ha, rfl⟩, ⟨hl, rfl⟩, rfl⟩

/-- The results of a loop stand at the places of their arguments. -/
theorem getElem?_of_mapM (h : l.mapM f = ok ys) :
    ys.length = l.length ∧ ∀ (i : ℕ) (a : α), l[i]? = some a → ∃ b, ys[i]? = some b ∧
        f a = ok b := by
  obtain ⟨hlen, hget⟩ := forall₂_iff_get.1 (mapM_ok_iff.1 h)
  refine ⟨hlen.symm, fun i a hi ↦ ?_⟩
  obtain ⟨hil, rfl⟩ := List.getElem?_eq_some_iff.1 hi
  exact ⟨ys[i], getElem?_eq_getElem (hlen ▸ hil), hget i hil (hlen ▸ hil)⟩

/-- A traversal succeeds if each step does. -/
theorem exists_mapM_ok (h : ∀ a ∈ l, ∃ b, f a = ok b) : ∃ ys, l.mapM f = ok ys := by
  induction l with
  | nil => exact ⟨[], rfl⟩
  | cons a l ih =>
    obtain ⟨b, hb⟩ := h a mem_cons_self
    obtain ⟨ys, hys⟩ := ih fun a' ha' ↦ h a' (mem_cons_of_mem a ha')
    exact ⟨b :: ys, by rw [mapM_cons, hb, hys]; rfl⟩

/-- A guard that throws was not entered, and the rest of the block was. -/
theorem guard_ok [Decidable p] {f : Unit → Except ε β} :
    (if p then throw e >>= f else f ()) = ok b ↔ ¬p ∧ f () = ok b := by
  split
  · next hp => exact ⟨fun h ↦ (nomatch h), fun h ↦ absurd hp h.1⟩
  · next hp => exact ⟨fun h ↦ ⟨hp, h⟩, fun h ↦ h.2⟩

/-- The same at the end of a block. -/
theorem check_ok_iff [Decidable p] :
    (if p then throw e else pure () : Except ε Unit) = ok () ↔ ¬p := by
  split
  · next hp => exact iff_of_false (fun h ↦ nomatch h) (not_not.2 hp)
  · next hp => exact iff_of_true rfl hp

end Except

export Except (bind_ok check_ok exists_of_toOption_any forM_ok_iff guard_ok ite_ok_iff
  mapError_ok_iff map_ok_iff ok.inj ok.injEq ok_bind pure_ok)
