import Mathlib.Data.List.Forall2

/-!
# Exhaustive pattern matrices

A pattern matrix is a list of rows, one pattern for each column. It is exhaustive at a list of types
when every list of values of these types is taken by some row, column by column. The rules here are
those by which matrix algorithms decide exhaustiveness: no column is left, the first column is
dropped, the first column is replaced by the fields of the value in it, or the rows are replaced by
rows that take no more.

Types, patterns, values, typing and matching are arbitrary.
-/

namespace PatternMatrix

variable {Ty Pat Val : Type} {typed : Val → Ty → Prop} {accepts : Pat → Val → Prop} {ty : Ty}
  {types : List Ty} {rows rows' : List (List Pat)}

/-- Some row takes the values. -/
def Covers (accepts : Pat → Val → Prop) (rows : List (List Pat)) (vs : List Val) : Prop :=
  ∃ row ∈ rows, List.Forall₂ accepts row vs

/-- Every list of values of the types is covered. -/
def Exhaustive (typed : Val → Ty → Prop) (accepts : Pat → Val → Prop) (types : List Ty)
    (rows : List (List Pat)) : Prop :=
  ∀ vs, List.Forall₂ typed vs types → Covers accepts rows vs

theorem exhaustive_nil (h : [] ∈ rows) : Exhaustive typed accepts [] rows := by
  intro vs hvs
  obtain rfl := List.forall₂_nil_right_iff.1 hvs
  exact ⟨[], h, .nil⟩

/-- Rows may be replaced by rows that take no more. -/
theorem Exhaustive.of_rows (h : Exhaustive typed accepts types rows')
    (hrows : ∀ row' ∈ rows', ∀ vs, List.Forall₂ accepts row' vs → Covers accepts rows vs) :
    Exhaustive typed accepts types rows := by
  intro vs hvs
  obtain ⟨row', hrow', haccepts⟩ := h vs hvs
  exact hrows row' hrow' vs haccepts

/-- **Default.** The first column may be dropped with the rows that take every value there. -/
theorem Exhaustive.of_tail (h : Exhaustive typed accepts types rows')
    (hrows : ∀ tail ∈ rows', ∃ p, p :: tail ∈ rows ∧ ∀ v, accepts p v) :
    Exhaustive typed accepts (ty :: types) rows := by
  intro vs hvs
  obtain ⟨v, vs, -, htyped, rfl⟩ := List.forall₂_cons_right_iff.1 hvs
  obtain ⟨tail, htail, haccepts⟩ := h vs htyped
  obtain ⟨p, hp, hall⟩ := hrows tail htail
  exact ⟨p :: tail, hp, .cons (hall v) haccepts⟩

/-- **Specialisation.** The first column may be replaced by columns for the fields of the value in
it, with rows that take no more of the fields than the original patterns take of the value. -/
theorem exhaustive_cons
    (h : ∀ v, typed v ty → ∃ fieldTypes ws rows', List.Forall₂ typed ws fieldTypes ∧
      Exhaustive typed accepts (fieldTypes ++ types) rows' ∧
      ∀ row' ∈ rows', ∃ p fields tail, row' = fields ++ tail ∧ fields.length = ws.length ∧
        p :: tail ∈ rows ∧ (List.Forall₂ accepts fields ws → accepts p v)) :
    Exhaustive typed accepts (ty :: types) rows := by
  intro vs hvs
  obtain ⟨v, vs, hv, htyped, rfl⟩ := List.forall₂_cons_right_iff.1 hvs
  obtain ⟨fieldTypes, ws, rows', hws, hexhaustive, hrows⟩ := h v hv
  obtain ⟨row', hrow', haccepts⟩ := hexhaustive (ws ++ vs) (List.rel_append hws htyped)
  obtain ⟨p, fields, tail, rfl, hlength, hmem, hp⟩ := hrows row' hrow'
  have hfields : List.Forall₂ accepts fields ws := by
    simpa [hlength] using List.forall₂_take ws.length haccepts
  have htail : List.Forall₂ accepts tail vs := by
    simpa [hlength] using List.forall₂_drop ws.length haccepts
  exact ⟨p :: tail, hmem, .cons (hp hfields) htail⟩

end PatternMatrix
