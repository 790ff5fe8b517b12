import Mathlib.Data.List.Nodup

/-!
# Association lists with distinct keys

Facts about `List.lookup` when every key occurs once, and about lists related element by element.
-/

namespace Association

open List

variable {α β γ δ : Type} {xs : List α} {ys : List β} {zs : List γ} {R P : α → β → Prop}
  {S : β → δ → Prop} {ws : List δ}

/-- An element of the first of two related lists has a partner in the second. -/
theorem exists_of_forall₂ {x : α} (h : Forall₂ R xs ys) (hx : x ∈ xs) : ∃ y ∈ ys, R x y := by
  induction h with
  | nil => cases hx
  | cons hr _ ih =>
    obtain rfl | hx := mem_cons.1 hx
    · exact ⟨_, mem_cons_self, hr⟩
    · obtain ⟨y, hy, hxy⟩ := ih hx
      exact ⟨y, mem_cons_of_mem _ hy, hxy⟩

/-- Lists whose elements are related to related elements. -/
theorem forall₂_of_forall₂ {R : α → γ → Prop} {T : γ → δ → Prop} (hP : Forall₂ P xs ys)
    (hR : Forall₂ R xs zs) (hS : Forall₂ S ys ws)
    (h : ∀ x y z w, P x y → R x z → S y w → T z w) : Forall₂ T zs ws := by
  induction hP generalizing zs ws with
  | nil =>
    cases hR
    cases hS
    exact .nil
  | cons hxy _ ih =>
    obtain ⟨z, zs, hxz, hzs, rfl⟩ := forall₂_cons_left_iff.1 hR
    obtain ⟨w, ws, hyw, hws, rfl⟩ := forall₂_cons_left_iff.1 hS
    exact .cons (h _ _ _ _ hxy hxz hyw) (ih hzs hws)

/-- Pairs of related elements. -/
theorem forall₂_zip {R : α → γ → Prop} (hR : Forall₂ R xs zs) (hS : Forall₂ S ys ws) :
    Forall₂ (fun p q ↦ R p.1 q.1 ∧ S p.2 q.2) (xs.zip ys) (zs.zip ws) := by
  induction hR generalizing ys ws with
  | nil => exact .nil
  | cons hr _ ih =>
    cases hS with
    | nil => exact .nil
    | cons hs hrest => exact .cons ⟨hr, hs⟩ (ih hrest)

/-- All results of a partial function, element by element. -/
theorem forall₂_of_mapM {f : α → Option β}
    (h : xs.mapM f = some ys) : Forall₂ (fun x y ↦ f x = some y) xs ys := by
  induction xs generalizing ys with
  | nil =>
    obtain rfl : ys = [] := by simpa using h.symm
    exact .nil
  | cons x xs ih =>
    simp only [mapM_cons, Option.bind_eq_bind, Option.bind_eq_some_iff, Option.pure_def,
      Option.some.injEq] at h
    obtain ⟨y, hy, ys, hys, rfl⟩ := h
    exact .cons hy (ih hys)

section Lookup

variable [BEq α] [LawfulBEq α]

variable {l entries : List (α × β)} {k : α} {b : β}

theorem mem_of_lookup (h : l.lookup k = some b) : (k, b) ∈ l := by
  obtain ⟨l₁, l₂, rfl, -⟩ := lookup_eq_some_iff.1 h
  simp

theorem lookup_of_mem (hnodup : (l.map (·.1)).Nodup) (h : (k, b) ∈ l) : l.lookup k = some b := by
  induction l with
  | nil => cases h
  | cons entry l ih =>
    rw [map_cons, nodup_cons] at hnodup
    obtain rfl | hmem := mem_cons.1 h
    · simp
    · have hne : (k == entry.1) = false := by
        rw [beq_eq_false_iff_ne]
        intro heq
        exact hnodup.1 (mem_map.2 ⟨(k, b), hmem, heq⟩)
      rw [lookup_cons, hne]
      exact ih hnodup.2 hmem

/-- Looking up a key in values zipped with their keys. -/
theorem lookup_zip {R : γ → β → Prop} {vs : List γ} (hnodup : (entries.map (·.1)).Nodup)
    (hvs : Forall₂ R vs (entries.map (·.2))) {entry : α × β} (hentry : entry ∈ entries) :
    ∃ v, ((entries.map (·.1)).zip vs).lookup entry.1 = some v ∧ R v entry.2 := by
  induction entries generalizing vs with
  | nil => cases hentry
  | cons e entries ih =>
    rw [map_cons] at hvs hnodup ⊢
    rw [nodup_cons] at hnodup
    obtain ⟨v, vs, hv, hrest, rfl⟩ := forall₂_cons_right_iff.1 hvs
    rw [zip_cons_cons]
    obtain rfl | hmem := mem_cons.1 hentry
    · exact ⟨v, by simp, hv⟩
    · obtain ⟨w, hw, hr⟩ := ih hnodup.2 hrest hmem
      have hne : (entry.1 == e.1) = false := by
        rw [beq_eq_false_iff_ne]
        intro heq
        exact hnodup.1 (heq ▸ mem_map_of_mem hmem)
      exact ⟨w, by rw [lookup_cons, hne, hw], hr⟩

end Lookup

end Association
