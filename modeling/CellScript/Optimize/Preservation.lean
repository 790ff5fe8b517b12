import CellScript.Optimize.FoldedTypes

/-!
# What constant folding preserves

Folding happens before types are known, so a folded literal is the result of 64-bit or 128-bit
arithmetic, while the operations it replaces are performed at the type of their position. This
module says exactly when the two agree, for every operand of an accepted expression: `FoldsWithin`
is the condition on one operation, and `everyOperand_preserved_iff` the equivalence for the whole
expression. The condition looks at each operation on its own; an operation that is not preserved can
still be hidden by the operations around it, as in `((200 + 100) / 2) * 0`.
-/

namespace CellScript.Optimize

open BinaryOp

namespace Optimizer

variable (o : Optimizer)

/-! ### Preservation and its condition -/

/-- The optimised expression can stand in the place of the expression. Where a type is expected, it
is still lowered to an operand that widens to that type, with the same value or trap; where none is,
it is lowered to an operand of the same type, with the same value or trap. -/
def Preserved : Position → Expr → Prop
  | some expected, e =>
    (∃ t, (lowerIn o.scope (some expected) (o.optimizeExpr e)).ty = .int t ∧
        t.WidensTo expected) ∧
      (lowerIn o.scope (some expected) (o.optimizeExpr e)).run =
        (lowerIn o.scope (some expected) e).run
  | none, e =>
    (lowerIn o.scope none (o.optimizeExpr e)).ty = (lowerIn o.scope none e).ty ∧
      (lowerIn o.scope none (o.optimizeExpr e)).run = (lowerIn o.scope none e).run

/-- A folded operand that was not written as a literal does not take a narrower type from the other
operand. -/
def KeepsType (folded other : Expr) : Prop :=
  ∀ a ∈ o.literalOf folded, folded.literal = none → o.literalOf other = none →
    ∀ ty, inferExpr o.scope other = .ok (.int ty) →
      (defaultTy a).width ≤ ty.width ∨ ¬ty.Fits a

/-- What an operation must satisfy for its folding to be faithful. Where a type is expected, the
folded literal fits it, and a shift amount is below its width. Where none is expected, a literal of
more than 64 bits is not negated, nor folded to one of at most 64 bits, and a folded literal does
not take a narrower type. -/
def FoldsWithin : Position → Expr → Prop
  | _, .unary op e =>
    ∀ c ∈ o.literalOf (.unary op e), ∀ a ∈ o.literalOf e, a < 2 ^ 64
  | some expected, .binary op left right =>
    ∀ c ∈ o.literalOf (.binary op left right),
      expected.Fits c ∧ (op.isShift → ∀ k ∈ o.literalOf right, k < expected.width)
  | none, .binary op left right =>
    (∀ c ∈ o.literalOf (.binary op left right), ∀ a ∈ o.literalOf left, 2 ^ 64 ≤ a → 2 ^ 64 ≤ c) ∧
      (op.isShift = false → o.KeepsType left right ∧ o.KeepsType right left)
  | _, _ => True

variable {o} {p : Position} {e left right : Expr} {ty : IntTy} {op : BinaryOp} {n a b c : ℕ}
  {expected r : IntTy} {X : Expr} {name : String}

/-! ### The literal is the optimiser's -/

theorem literalOf_identifier (name : String) :
    o.literalOf (.identifier name) = (o.optimizeExpr (.identifier name)).literal := by
  rw [literalOf, optimizeExpr]
  cases hcf : o.constantFolding with
  | false => cases o.scope name <;> simp [Expr.literal]; split <;> rfl
  | true =>
    rw [lookupConst]
    cases o.scope name with
    | none => rfl
    | some constant =>
      cases constant with
      | bool b => rfl
      | int declared value fits =>
        simp only [bind_eq_bind, bind_some, propagatableConst_int, true_and]
        split_ifs
        · rw [map_some, constToExpr_literalConst]
          rfl
        · rfl

/-- **The optimiser leaves a literal exactly when `literalOf` finds one.** -/
theorem literalOf_eq (h : TypedIn o.scope p e ty) : o.literalOf e = (o.optimizeExpr e).literal := by
  induction e generalizing p ty with
  | integer v => rfl
  | bool b => rfl
  | identifier name => exact literalOf_identifier name
  | unary op expr ih =>
    cases op with
    | neg =>
      rw [literalOf, ih h.neg, optimizeExpr_neg]
      split_ifs
      · cases hlit : (o.optimizeExpr expr).literal with
        | none => rfl
        | some n =>
          rw [map_some, map_some, getD_some, Expr.literal_ofNat]
          unfold untypedNeg
          split_ifs <;> omega
      · rfl
    | not => exact absurd h not_typedIn_not
  | binary op left right ihl ihr =>
    obtain ⟨hop, ⟨l, hl, -⟩, r, hr⟩ := h.operands
    rw [literalOf, ihl hl, ihr hr, literal_optimizeExpr_binary o hop]
    rfl

/-! ### Literals left by the optimiser -/

theorem lowerIn_some_of_literal (h : X.literal = some n) :
    lowerIn o.scope (some expected) X = literalFor n (.int expected) := by
  obtain ⟨v, rfl, rfl⟩ := Expr.literal_some_iff.1 h
  rfl

theorem lowerIn_none_of_literal (h : X.literal = some n) :
    lowerIn o.scope none X = defaultLiteral n := by
  obtain ⟨v, rfl, rfl⟩ := Expr.literal_some_iff.1 h
  rfl

theorem run_of_literal (h : X.literal = some n) : (lowerIn o.scope p X).run = some (n : ℤ) := by
  cases p with
  | some expected => rw [lowerIn_some_of_literal h, literalFor_run]
  | none => rw [lowerIn_none_of_literal h]; rfl

theorem Preserved.run_eq (h : o.Preserved p e) :
    (lowerIn o.scope p (o.optimizeExpr e)).run = (lowerIn o.scope p e).run := by
  cases p with
  | some expected => exact h.2
  | none => exact h.2

theorem Preserved.run_of_literal (h : o.Preserved p e)
    (hlit : (o.optimizeExpr e).literal = some n) : (lowerIn o.scope p e).run = some (n : ℤ) :=
  h.run_eq.symm.trans (Optimizer.run_of_literal hlit)

theorem Preserved.fits (h : o.Preserved (some expected) e)
    (hlit : (o.optimizeExpr e).literal = some n) : expected.Fits n := by
  obtain ⟨⟨t, ht, hw⟩, -⟩ := h
  rw [lowerIn_some_of_literal hlit, literalFor_ty] at ht
  by_contra hfits
  rw [if_neg hfits] at ht
  rw [← Ty.int.inj ht] at hw
  exact hfits ((IntTy.fits_defaultTy (Expr.literal_lt hlit)).inRange.mono hw).fits

theorem Preserved.eq_defaultTy (h : o.Preserved none e) (hty : TypedIn o.scope none e ty)
    (hlit : (o.optimizeExpr e).literal = some n) : ty = defaultTy n := by
  have := h.1
  rw [hty.lower_ty, lowerIn_none_of_literal hlit] at this
  exact (Ty.int.inj this).symm

/-- A literal with the right value can stand anywhere, except that where no type is expected it must
have the right type of its own. -/
theorem preserved_iff_of_literal (h : TypedIn o.scope p e ty)
    (hlit : (o.optimizeExpr e).literal = some n) (hrun : (lowerIn o.scope p e).run = some (n : ℤ)) :
    o.Preserved p e ↔ (p = none → ty = defaultTy n) := by
  cases p with
  | some expected =>
    refine ⟨fun _ h ↦ (nomatch h), fun _ ↦ ⟨⟨expected, ?_, .refl expected⟩, ?_⟩⟩
    · have hfits : expected.Fits n := ((h.inRange hrun).mono h.2).fits
      rw [lowerIn_some_of_literal hlit, literalFor_ty, if_pos hfits]
    · rw [run_of_literal hlit, hrun]
  | none =>
    refine ⟨fun hp _ ↦ hp.eq_defaultTy h hlit, fun hty ↦ ⟨?_, ?_⟩⟩
    · rw [h.lower_ty, lowerIn_none_of_literal hlit, hty rfl]
      rfl
    · rw [run_of_literal hlit, hrun]

/-! ### One operation at a time -/

theorem preserved_of_optimizeExpr_eq (h : TypedIn o.scope p e ty) (heq : o.optimizeExpr e = e) :
    o.Preserved p e := by
  cases p with
  | some expected => exact ⟨⟨ty, by rw [heq, h.lower_ty], h.2⟩, by rw [heq]⟩
  | none => exact ⟨by rw [heq], by rw [heq]⟩

/-- A constant is replaced only by a literal of its own type. -/
theorem optimizeExpr_identifier_cases (h : inferExpr o.scope (.identifier name) = .ok (.int ty)) :
    o.optimizeExpr (.identifier name) = .identifier name ∨
      ∃ n : ℕ, (o.optimizeExpr (.identifier name)).literal = some n ∧
        lowerIdentifier o.scope name = .const (.int (defaultTy n)) n := by
  simp only [inferExpr] at h
  cases hscope : o.scope name with
  | none => rw [hscope] at h; cases h
  | some constant =>
    rw [hscope] at h
    cases constant with
    | bool b => cases h
    | int declared value fits =>
      have hlookup : o.lookupConst name =
          if declared.getD (defaultTy value.toNat) = defaultTy value.toNat then
            some (literalConst value) else none := by
        rw [lookupConst, hscope, ← propagatableConst_int]
        rfl
      rw [optimizeExpr, hlookup]
      split_ifs with hcf hty
      · refine .inr ⟨value.toNat, ?_, ?_⟩
        · rw [map_some, constToExpr_literalConst]
          rfl
        · simp only [lowerIdentifier, hscope, hty]
      · exact .inl rfl
      · exact .inl rfl

theorem preserved_identifier (h : TypedIn o.scope p (.identifier name) ty) :
    o.Preserved p (.identifier name) := by
  have hinfer : inferExpr o.scope (.identifier name) = .ok (.int ty) := by
    cases p with
    | some expected => exact h.1
    | none => exact h
  have hlower : lowerIn o.scope p (.identifier name) = lowerIdentifier o.scope name := by
    cases p <;> rfl
  obtain heq | ⟨n, hlit, hconst⟩ := optimizeExpr_identifier_cases hinfer
  · exact preserved_of_optimizeExpr_eq h heq
  · have hty := h.lower_ty
    rw [hlower, hconst] at hty
    refine (preserved_iff_of_literal h hlit ?_).2 fun _ ↦ (Ty.int.inj hty).symm
    rw [hlower, hconst]
    rfl

theorem untypedNeg_lt (h : n < 2 ^ 128) : untypedNeg n < 2 ^ 128 := by
  unfold untypedNeg
  split_ifs <;> omega

theorem preserved_neg_of_kept (h : TypedIn o.scope p (.unary .neg e) ty) (he : o.Preserved none e)
    (hopt : o.optimizeExpr (.unary .neg e) = .unary .neg (o.optimizeExpr e)) :
    o.Preserved p (.unary .neg e) := by
  have hty : (lowerIn o.scope none (o.optimizeExpr e)).ty = .int ty := he.1.trans h.neg.lower_ty
  have hrun : (lowerIn o.scope p (o.optimizeExpr (.unary .neg e))).run =
      (lowerIn o.scope p (.unary .neg e)).run := by
    rw [hopt, lowerIn_neg, h.run_neg, ← he.run_eq]
    exact run_neg hty
  have hty' : (lowerIn o.scope p (o.optimizeExpr (.unary .neg e))).ty = .int ty := by
    rw [hopt, lowerIn_neg]
    exact hty
  cases p with
  | some expected => exact ⟨⟨ty, hty', h.2⟩, hrun⟩
  | none => exact ⟨hty'.trans h.lower_ty.symm, hrun⟩

theorem preserved_neg_iff (h : TypedIn o.scope p (.unary .neg e) ty) (he : o.Preserved none e) :
    o.Preserved p (.unary .neg e) ↔ o.FoldsWithin p (.unary .neg e) := by
  have hopt := o.optimizeExpr_neg e
  have hof : o.literalOf (.unary .neg e) = _ := literalOf_eq h
  rw [FoldsWithin, hof, literalOf_eq h.neg]
  rcases hlit : (o.optimizeExpr e).literal with - | n
  · -- the operand is no literal, so the negation is kept
    rw [hlit, map_none, Option.getD_none, ite_self] at hopt
    exact ⟨fun _ c hc a ha ↦ (nomatch ha), fun _ ↦ preserved_neg_of_kept h he hopt⟩
  · cases hcf : o.constantFolding with
    | false =>
      rw [if_neg (by simp [hcf])] at hopt
      refine ⟨fun _ c hc ↦ ?_, fun _ ↦ preserved_neg_of_kept h he hopt⟩
      rw [hopt] at hc
      exact nomatch hc
    | true =>
      rw [if_pos hcf, hlit, map_some, getD_some] at hopt
      have hlit' : (o.optimizeExpr (.unary .neg e)).literal = some (untypedNeg n) := by
        rw [hopt, Expr.literal_ofNat (untypedNeg_lt (Expr.literal_lt hlit))]
      have hty := he.eq_defaultTy h.neg hlit
      have hrun : (lowerIn o.scope p (.unary .neg e)).run = runAt ty .sub 0 n := by
        rw [h.run_neg, he.run_of_literal hlit, bind_some]
      have hiff : (∀ c ∈ (o.optimizeExpr (.unary .neg e)).literal, ∀ a ∈ some n, a < 2 ^ 64) ↔
          n < 2 ^ 64 := by
        simp [hlit']
      rw [hiff]
      by_cases hn : n < 2 ^ 64
      · rw [defaultTy, if_pos hn] at hty
        subst hty
        rw [runAt_sub_zero_of_lt hn] at hrun
        rw [preserved_iff_of_literal h hlit' hrun]
        refine ⟨fun _ ↦ hn, fun _ _ ↦ ?_⟩
        have : untypedNeg n < 2 ^ 64 := by
          rw [untypedNeg, if_pos hn]
          omega
        rw [defaultTy, if_pos this]
      · rw [defaultTy, if_neg hn] at hty
        subst hty
        rw [runAt_sub_zero_of_le (by omega)] at hrun
        refine ⟨fun hp ↦ ?_, fun h ↦ absurd h hn⟩
        have := hp.run_of_literal hlit'
        rw [hrun] at this
        cases this

theorem isShift_of_rightNeutral (h : RightNeutral op n) : op.isShift = false := by
  obtain ⟨rfl | rfl, -⟩ | ⟨rfl | rfl, -⟩ := h <;> rfl

theorem isShift_of_leftNeutral (h : LeftNeutral op n) : op.isShift = false := by
  obtain ⟨rfl, -⟩ | ⟨rfl, -⟩ := h <;> rfl

theorem rightPosition_of_not_shift (h : op.isShift = false) : rightPosition op p = p := by
  rw [rightPosition, if_neg (by simp [h])]

theorem rightPosition_none : rightPosition op none = none := by
  unfold rightPosition
  split_ifs <;> rfl

/-- Removing a neutral right operand keeps the value, where the left one has a value of the type. -/
theorem run_of_rightNeutral (h : TypedIn o.scope p (.binary op left right) ty)
    (hr : o.Preserved (rightPosition op p) right) (hlit : (o.optimizeExpr right).literal = some n)
    (hn : RightNeutral op n) (hx : ∀ x, (lowerIn o.scope p left).run = some x → ty.InRange x) :
    (lowerIn o.scope p (.binary op left right)).run = (lowerIn o.scope p left).run := by
  rw [h.run_binary, hr.run_of_literal hlit]
  cases hrun : (lowerIn o.scope p left).run with
  | none => rfl
  | some x => exact runAt_of_rightNeutral hn (hx x hrun)

theorem run_of_leftNeutral (h : TypedIn o.scope p (.binary op left right) ty)
    (hl : o.Preserved p left) (hlit : (o.optimizeExpr left).literal = some n)
    (hn : LeftNeutral op n) (hy : ∀ y, (lowerIn o.scope p right).run = some y → ty.InRange y) :
    (lowerIn o.scope p (.binary op left right)).run = (lowerIn o.scope p right).run := by
  rw [h.run_binary, hl.run_of_literal hlit, rightPosition_of_not_shift (isShift_of_leftNeutral hn)]
  cases hrun : (lowerIn o.scope p right).run with
  | none => rfl
  | some y => exact runAt_of_leftNeutral hn (hy y hrun)

/-- An operation where a type is expected. -/
theorem preserved_binary_some_iff (h : TypedIn o.scope (some expected) (.binary op left right) ty)
    (hl : o.Preserved (some expected) left)
    (hr : o.Preserved (rightPosition op (some expected)) right) :
    o.Preserved (some expected) (.binary op left right) ↔
      o.FoldsWithin (some expected) (.binary op left right) := by
  obtain ⟨hop, rfl, ⟨l, hlty⟩, r, hrty, hcount⟩ := h.binary_some
  have hof := literalOf_eq h
  rw [FoldsWithin, hof, literalOf_eq hrty]
  obtain ⟨a, b, c, ha, hb, huntyped, hopt⟩ | ⟨n, hn, hneutral, hopt⟩ | ⟨n, hn, hneutral, hopt⟩ |
    hopt := o.optimizeExpr_binary_cases hop left right
  · have hlit : (o.optimizeExpr (.binary op left right)).literal = some c := by
      rw [hopt, Expr.literal_ofNat (untyped_lt (Expr.literal_lt ha) (Expr.literal_lt hb) huntyped)]
    have hrun : (lowerIn o.scope (some ty) (.binary op left right)).run = runAt ty op a b := by
      rw [h.run_binary, hl.run_of_literal ha, hr.run_of_literal hb]
      rfl
    rw [hlit, hb]
    constructor
    · intro hp c' hc'
      obtain rfl := some.inj hc'
      refine ⟨hp.fits hlit, fun hshift k hk ↦ ?_⟩
      obtain rfl := some.inj hk
      by_contra hge
      have hb' : b < 2 ^ 64 := by
        have := (hrty.inRange (hr.run_of_literal hb)).fits
        exact this.lt (by rintro rfl; exact absurd (hcount hshift) (by decide))
      have := hp.run_of_literal hlit
      rw [hrun, runAt_none hshift hb' (by omega)] at this
      cases this
    · intro hc
      obtain ⟨hfits, hlt⟩ := hc c rfl
      have hb' : if op.isShift then b < ty.width else ty.Fits b := by
        cases hshift : op.isShift with
        | true => exact hlt hshift b rfl
        | false =>
          rw [rightPosition_of_not_shift hshift] at hr
          exact hr.fits hb
      have hval := runAt_of_untyped (hl.fits ha) hb' huntyped hfits
      exact (preserved_iff_of_literal h hlit (hrun.trans hval)).2 fun h ↦ by cases h
  · have hshift := isShift_of_rightNeutral hneutral
    rw [hopt]
    refine ⟨fun _ c hc ↦ ⟨hl.fits hc, fun h ↦ ?_⟩, fun _ ↦ ⟨?_, ?_⟩⟩
    · rw [hshift] at h
      cases h
    · rw [hopt]
      exact hl.1
    · rw [hopt, hl.run_eq,
        run_of_rightNeutral h hr hn hneutral fun x hx ↦ (hlty.inRange hx).mono hlty.2]
  · have hshift := isShift_of_leftNeutral hneutral
    rw [rightPosition_of_not_shift hshift] at hr hrty
    rw [hopt]
    refine ⟨fun _ c hc ↦ ⟨hr.fits hc, fun h ↦ ?_⟩, fun _ ↦ ⟨?_, ?_⟩⟩
    · rw [hshift] at h
      cases h
    · rw [hopt]
      exact hr.1
    · rw [hopt, hr.run_eq,
        run_of_leftNeutral h hl hn hneutral fun x hx ↦ (hrty.inRange hx).mono hrty.2]
  · obtain ⟨⟨l', hl', hlw⟩, hlrun⟩ := hl
    obtain ⟨r', hr', hrw⟩ : ∃ r',
        (lowerIn o.scope (rightPosition op (some ty)) (o.optimizeExpr right)).ty = .int r' ∧
          (if op.isShift then r'.isShiftCount = true else r'.WidensTo ty) := by
      cases hshift : op.isShift with
      | true =>
        rw [rightPosition, if_pos hshift] at hr hrty ⊢
        exact ⟨r, hr.1.trans hrty.lower_ty, hcount hshift⟩
      | false =>
        rw [rightPosition_of_not_shift hshift] at hr ⊢
        exact hr.1
    have hlower := lowerExprWithExpectedType_binary hop hl' hlw hr' hrw
    rw [hopt]
    refine ⟨fun _ c hc ↦ (by cases hc), fun _ ↦ ⟨⟨ty, ?_, .refl ty⟩, ?_⟩⟩
    · rw [hopt]
      exact hlower.1
    · rw [hopt, hlower.2, h.run_binary, hlrun, hr.run_eq]

theorem keepsType_iff (hl : TypedIn o.scope none left ty) (hr : TypedIn o.scope none right r) :
    o.KeepsType left right ↔ Keeps left (o.optimizeExpr left) (o.optimizeExpr right) r := by
  unfold KeepsType Keeps
  rw [literalOf_eq hl, literalOf_eq hr]
  constructor
  · exact fun h a ha hleft hR ↦ h a ha hleft hR r hr
  · intro h a ha hleft hR t ht
    obtain rfl := Ty.int.inj (ok.inj (ht.symm.trans hr))
    exact h a ha hleft hR

theorem literal_optimizeExpr_of_literal (h : e.literal = some a) :
    (o.optimizeExpr e).literal = some a := by
  obtain ⟨v, rfl, rfl⟩ := Expr.literal_some_iff.1 h
  rfl

section NoExpectedType

variable {l r t l' r' : IntTy}

/-- Where no type is expected, the optimised expression has to have the type of the old one. -/
theorem preserved_none_iff (h : TypedIn o.scope none e ty)
    (ht : (lowerIn o.scope none (o.optimizeExpr e)).ty = .int t)
    (hrun : t = ty → (lowerIn o.scope none (o.optimizeExpr e)).run = (lowerIn o.scope none e).run) :
    o.Preserved none e ↔ t = ty := by
  constructor
  · rintro ⟨hp, -⟩
    rw [ht, h.lower_ty] at hp
    exact Ty.int.inj hp
  · rintro rfl
    exact ⟨ht.trans h.lower_ty.symm, hrun rfl⟩

variable (h : TypedIn o.scope none (.binary op left right) ty) (hl : o.Preserved none left)
  (hr : o.Preserved none right)

include h hl hr

/-- Both operands fold, and so does the operation: only the width of the result can change. -/
theorem preserved_none_iff_of_folded (ha : (o.optimizeExpr left).literal = some a)
    (hb : (o.optimizeExpr right).literal = some b) (huntyped : untyped op a b = some c)
    (hopt : o.optimizeExpr (.binary op left right) = .ofNat c) :
    o.Preserved none (.binary op left right) ↔ (2 ^ 64 ≤ a → 2 ^ 64 ≤ c) := by
  obtain ⟨hop, l, r, hlty, hrty, hif⟩ := h.binary_none
  have hlift := hl.eq_defaultTy hlty ha
  have hrift := hr.eq_defaultTy hrty hb
  have ha' := Expr.literal_lt ha
  have hb' := Expr.literal_lt hb
  have hty : ty = defaultTy a ∧ (if op.isShift then b < ty.width else ty.Fits b) := by
    cases hshift : op.isShift with
    | true =>
      rw [if_pos hshift] at hif
      rw [hif.1, hlift]
      exact ⟨rfl, lt_width_of_untyped hshift huntyped⟩
    | false =>
      rw [if_neg (by simp [hshift])] at hif
      have heq := defaultTy_eq_of_untyped hshift huntyped
      obtain ⟨-, hty⟩ | ⟨hne, -⟩ := numericBinaryResultType_ok hif
      · rw [hty, hlift]
        exact ⟨rfl, heq ▸ IntTy.fits_defaultTy hb'⟩
      · exact absurd (hlift.trans (heq.trans hrift.symm)) hne
  obtain ⟨rfl, hb''⟩ := hty
  have hrun : (lowerIn o.scope none (.binary op left right)).run = some (c : ℤ) := by
    rw [h.run_binary, rightPosition_none, hl.run_of_literal ha, hr.run_of_literal hb]
    exact runAt_of_untyped (IntTy.fits_defaultTy ha') hb'' huntyped
      (fits_of_untyped ha' hb' huntyped)
  have hlit : (o.optimizeExpr (.binary op left right)).literal = some c := by
    rw [hopt, Expr.literal_ofNat (untyped_lt ha' hb' huntyped)]
  rw [preserved_iff_of_literal h hlit hrun, ← defaultTy_eq_iff fun ha ↦
    untyped_lt_of_lt ha huntyped]
  exact ⟨fun h ↦ h rfl, fun h _ ↦ h⟩

/-- A neutral right operand is removed: only the type can change. -/
theorem preserved_none_iff_of_rightNeutral (hlty : TypedIn o.scope none left l)
    (hn : (o.optimizeExpr right).literal = some n) (hneutral : RightNeutral op n)
    (hopt : o.optimizeExpr (.binary op left right) = o.optimizeExpr left) :
    o.Preserved none (.binary op left right) ↔ l = ty := by
  have hlower : (lowerIn o.scope none (o.optimizeExpr left)).ty = .int l := hl.1.trans hlty.lower_ty
  refine preserved_none_iff h (hopt ▸ hlower) ?_
  rintro rfl
  rw [hopt, hl.run_eq, run_of_rightNeutral h (by rwa [rightPosition_none]) hn hneutral
    fun x hx ↦ hlty.inRange hx]

/-- A neutral left operand is removed: only the type can change. -/
theorem preserved_none_iff_of_leftNeutral (hrty : TypedIn o.scope none right r)
    (hn : (o.optimizeExpr left).literal = some n) (hneutral : LeftNeutral op n)
    (hopt : o.optimizeExpr (.binary op left right) = o.optimizeExpr right) :
    o.Preserved none (.binary op left right) ↔ r = ty := by
  have hlower : (lowerIn o.scope none (o.optimizeExpr right)).ty = .int r :=
    hr.1.trans hrty.lower_ty
  refine preserved_none_iff h (hopt ▸ hlower) ?_
  rintro rfl
  rw [hopt, hr.run_eq, run_of_leftNeutral h hl hn hneutral fun x hx ↦ hrty.inRange hx]

/-- The operation is kept: its operands may be adapted and joined in another way. -/
theorem preserved_none_iff_of_kept (hop : op.isArithmetic) (hshift : op.isShift = false)
    (hlty : TypedIn o.scope none left l) (hrty : TypedIn o.scope none right r)
    (hopt : o.optimizeExpr (.binary op left right) =
      .binary op (o.optimizeExpr left) (o.optimizeExpr right))
    (hadapt : adaptedTypes (o.optimizeExpr left) (o.optimizeExpr right) l r = (l', r'))
    (hc : l'.Compatible r') : o.Preserved none (.binary op left right) ↔ l'.join r' = ty := by
  obtain ⟨hty, hrun⟩ : (lowerIn o.scope none (o.optimizeExpr (.binary op left right))).ty = _ ∧
      _ := by
    rw [hopt]
    exact lowerExpr_binary hop hshift (hl.1.trans hlty.lower_ty) (hr.1.trans hrty.lower_ty)
      hadapt hc
  refine preserved_none_iff h hty ?_
  rintro rfl
  rw [hopt]
  refine hrun.trans ?_
  rw [h.run_binary, rightPosition_none, ← hl.run_eq, ← hr.run_eq]
  rfl

/-- A shift that is kept. -/
theorem preserved_none_of_kept_shift (hshift : op.isShift) (hlty : TypedIn o.scope none left ty)
    (hrty : TypedIn o.scope none right r) (hcount : r.isShiftCount)
    (hopt : o.optimizeExpr (.binary op left right) =
      .binary op (o.optimizeExpr left) (o.optimizeExpr right)) :
    o.Preserved none (.binary op left right) := by
  obtain ⟨hty, hrun⟩ :=
    lowerExpr_shift hshift (hl.1.trans hlty.lower_ty) (hr.1.trans hrty.lower_ty) hcount
  refine ⟨?_, ?_⟩
  · rw [hopt]
    exact hty.trans h.lower_ty.symm
  · rw [hopt]
    refine hrun.trans ?_
    rw [h.run_binary, rightPosition_none, ← hl.run_eq, ← hr.run_eq]
    rfl

/-- An operation where no type is expected. -/
theorem preserved_binary_none_iff :
    o.Preserved none (.binary op left right) ↔ o.FoldsWithin none (.binary op left right) := by
  obtain ⟨hop, l, r, hlty, hrty, hif⟩ := h.binary_none
  have hfolded (hshift : op.isShift = false) :
      FoldedTypes left right (o.optimizeExpr left) (o.optimizeExpr right) l r ty := by
    rw [if_neg (by simp [hshift])] at hif
    exact ⟨hif, fun a ha ↦ literal_optimizeExpr_of_literal ha,
      fun b hb ↦ literal_optimizeExpr_of_literal hb, fun a ha ↦ hl.eq_defaultTy hlty ha,
      fun b hb ↦ hr.eq_defaultTy hrty hb⟩
  rw [FoldsWithin, literalOf_eq h, literalOf_eq hlty, keepsType_iff hlty hrty,
    keepsType_iff hrty hlty]
  obtain ⟨a, b, c, ha, hb, huntyped, hopt⟩ | ⟨n, hn, hneutral, hopt⟩ | ⟨n, hn, hneutral, hopt⟩ |
    hopt := o.optimizeExpr_binary_cases hop left right
  · have hlit : (o.optimizeExpr (.binary op left right)).literal = some c := by
      rw [hopt, Expr.literal_ofNat (untyped_lt (Expr.literal_lt ha) (Expr.literal_lt hb) huntyped)]
    rw [preserved_none_iff_of_folded h hl hr ha hb huntyped hopt, hlit, ha]
    constructor
    · refine fun h ↦ ⟨?_, fun _ ↦ ⟨keeps_of_some hb, keeps_of_some ha⟩⟩
      rintro _ ⟨⟩ _ ⟨⟩
      exact h
    · exact fun h ↦ h.1 c rfl a rfl
  · have hshift := isShift_of_rightNeutral hneutral
    have hn' : n ≤ 1 := by obtain ⟨-, rfl⟩ | ⟨-, rfl⟩ := hneutral <;> decide
    rw [preserved_none_iff_of_rightNeutral h hl hr hlty hn hneutral hopt, hopt,
      (hfolded hshift).left_eq_iff hn hn']
    refine ⟨fun h ↦ ⟨fun c hc a ha ↦ ?_, fun _ ↦ h⟩, fun h ↦ h.2 hshift⟩
    obtain rfl := mem_unique hc ha
    exact id
  · have hshift := isShift_of_leftNeutral hneutral
    have hn' : n ≤ 1 := by obtain ⟨-, rfl⟩ | ⟨-, rfl⟩ := hneutral <;> decide
    rw [preserved_none_iff_of_leftNeutral h hl hr hrty hn hneutral hopt, hn,
      (hfolded hshift).right_eq_iff hn hn']
    refine ⟨fun h ↦ ⟨fun c hc a ha ↦ ?_, fun _ ↦ h⟩, fun h ↦ h.2 hshift⟩
    obtain rfl := some.inj ha
    intro hle
    omega
  · have hnone : (o.optimizeExpr (.binary op left right)).literal = none := by
      rw [hopt]
      rfl
    rw [hnone]
    cases hshift : op.isShift with
    | true =>
      rw [if_pos hshift] at hif
      obtain ⟨rfl, hcount⟩ := hif
      refine iff_of_true (preserved_none_of_kept_shift h hl hr hshift hlty hrty hcount hopt) ?_
      exact ⟨fun c hc ↦ (nomatch hc), fun h ↦ nomatch h⟩
    | false =>
      obtain ⟨l', r', hadapt, hc, hiff⟩ := (hfolded hshift).join_adaptedTypes_iff
      rw [preserved_none_iff_of_kept h hl hr hop hshift hlty hrty hopt hadapt hc, hiff]
      exact ⟨fun h ↦ ⟨fun c hc ↦ (nomatch hc), fun _ ↦ h⟩, fun h ↦ h.2 rfl⟩

end NoExpectedType

/-- **One operation.** When the operands of an operation are preserved, the operation is preserved
exactly when it folds within its position. -/
theorem preserved_iff_foldsWithin (h : TypedIn o.scope p e ty) (hoperands : match e with
      | .unary _ expr => o.Preserved none expr
      | .binary op left right => o.Preserved p left ∧ o.Preserved (rightPosition op p) right
      | _ => True) :
    o.Preserved p e ↔ o.FoldsWithin p e := by
  cases e with
  | integer v => exact iff_of_true (preserved_of_optimizeExpr_eq h rfl) (by cases p <;> trivial)
  | bool b => exact absurd h not_typedIn_bool
  | identifier name => exact iff_of_true (preserved_identifier h) (by cases p <;> trivial)
  | unary op expr =>
    cases op with
    | neg => exact preserved_neg_iff h hoperands
    | not => exact absurd h not_typedIn_not
  | binary op left right =>
    obtain ⟨hl, hr⟩ := hoperands
    cases p with
    | some expected => exact preserved_binary_some_iff h hl hr
    | none =>
      rw [rightPosition_none] at hr
      exact preserved_binary_none_iff h hl hr

/-- **Every operation.** -/
theorem everyOperand_preserved_iff (h : TypedIn o.scope p e ty) :
    EveryOperand o.Preserved p e ↔ EveryOperand o.FoldsWithin p e := by
  induction e generalizing p ty with
  | integer v => exact preserved_iff_foldsWithin h trivial
  | bool b => exact absurd h not_typedIn_bool
  | identifier name => exact preserved_iff_foldsWithin h trivial
  | unary op expr ih =>
    cases op with
    | neg =>
      have hiff := ih h.neg
      constructor
      · rintro ⟨hp, hexpr⟩
        exact ⟨(preserved_iff_foldsWithin h hexpr.self).1 hp, hiff.1 hexpr⟩
      · rintro ⟨hf, hexpr⟩
        have hexpr := hiff.2 hexpr
        exact ⟨(preserved_iff_foldsWithin h hexpr.self).2 hf, hexpr⟩
    | not => exact absurd h not_typedIn_not
  | binary op left right ihl ihr =>
    obtain ⟨-, ⟨l, hl, -⟩, r, hr⟩ := h.operands
    have hleft := ihl hl
    have hright := ihr hr
    constructor
    · rintro ⟨hp, hl', hr'⟩
      exact ⟨(preserved_iff_foldsWithin h ⟨hl'.self, hr'.self⟩).1 hp, hleft.1 hl', hright.1 hr'⟩
    · rintro ⟨hf, hl', hr'⟩
      have hl' := hleft.2 hl'
      have hr' := hright.2 hr'
      exact ⟨(preserved_iff_foldsWithin h ⟨hl'.self, hr'.self⟩).2 hf, hl', hr'⟩

end Optimizer

/-! ### Folding where a type is expected -/

/-- **Constant folding at a width.** For an expression accepted at a type, the optimised expression
has the same value or trap as the expression if every operation folds within its position; and that
is exactly when the optimiser preserves the expression and each of its operands. -/
theorem optimizeExpr_run_eq_and_iff (o : Optimizer) {expected : IntTy} {e : Expr}
    (h : Accepted o.scope expected e) :
    (EveryOperand o.FoldsWithin (some expected) e →
      (lowerExprWithExpectedType o.scope expected (o.optimizeExpr e)).run =
        (lowerExprWithExpectedType o.scope expected e).run) ∧
    (EveryOperand o.Preserved (some expected) e ↔
      EveryOperand o.FoldsWithin (some expected) e) := by
  have htyped : TypedIn o.scope (some expected) e expected := ⟨h, .refl expected⟩
  have hiff := Optimizer.everyOperand_preserved_iff htyped
  exact ⟨fun hfolds ↦ (hiff.2 hfolds).self.run_eq, hiff⟩

/-- The optimiser with nothing in scope. -/
def closedOptimizer : Optimizer := ⟨true, fun _ ↦ none⟩

/-- `(20 + 30) * 2` stays within `u8`. -/
def smallSum : Expr := .binary .mul (.binary .add (.integer 20) (.integer 30)) (.integer 2)

theorem optimizeExpr_run_eq_and_iff_smallSum :
    Accepted closedOptimizer.scope .u8 smallSum ∧
      closedOptimizer.optimizeExpr smallSum = .integer 100 ∧
      EveryOperand closedOptimizer.Preserved (some .u8) smallSum := by
  have haccepted : Accepted closedOptimizer.scope .u8 smallSum := by decide
  refine ⟨haccepted, by decide, (optimizeExpr_run_eq_and_iff closedOptimizer haccepted).2.2 ?_⟩
  refine ⟨?_, ⟨?_, trivial, trivial⟩, trivial⟩
  · intro c hc
    obtain rfl : 100 = c := some.inj hc
    exact ⟨by decide, fun h ↦ nomatch h⟩
  · intro c hc
    obtain rfl : 50 = c := some.inj hc
    exact ⟨by decide, fun h ↦ nomatch h⟩

/-- `(200 + 100) / 2` at `u8`: the sum wraps to 44, so the quotient is 22. The optimiser folds the
sum to 300 and the quotient to 150. -/
def wrappedSum : Expr := .binary .div (.binary .add (.integer 200) (.integer 100)) (.integer 2)

theorem run_wrappedSum :
    Accepted closedOptimizer.scope .u8 wrappedSum ∧
      (lowerExprWithExpectedType closedOptimizer.scope .u8 wrappedSum).run = some 22 ∧
      closedOptimizer.optimizeExpr wrappedSum = .integer 150 ∧
      Accepted closedOptimizer.scope .u8 (closedOptimizer.optimizeExpr wrappedSum) ∧
      (lowerExprWithExpectedType closedOptimizer.scope .u8
        (closedOptimizer.optimizeExpr wrappedSum)).run = some 150 := by
  decide +kernel

end CellScript.Optimize
