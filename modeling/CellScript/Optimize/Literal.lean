import CellScript.Optimize.Width

/-!
# The literal an expression folds to

The optimiser folds an operation when both of its operands have become literals. `literalOf` says
which literal that is, by recursion on the expression and in arithmetic on naturals. The lemmas here
read the optimiser's cases off the literals of the operands: `optimizeExpr_binary` for the
arithmetic operators and `optimizeExpr_neg` for negation.
-/

namespace CellScript.Optimize

open BinaryOp

/-! ### The literal an expression folds to -/

instance (op : BinaryOp) (n : ℕ) : Decidable (RightNeutral op n) :=
  inferInstanceAs (Decidable (_ ∨ _))

instance (op : BinaryOp) (n : ℕ) : Decidable (LeftNeutral op n) :=
  inferInstanceAs (Decidable (_ ∨ _))

/-- The value of a written literal. -/
def Expr.literal : Expr → Option ℕ
  | .integer value => some value.toNat
  | _ => none

theorem Expr.literal_none {e : Expr} (h : ∀ v, e ≠ .integer v) : e.literal = none := by
  cases e with
  | integer v => exact absurd rfl (h v)
  | _ => rfl

/-- An operation on two literals with a neutral operand is the other operand. -/
def neutral (op : BinaryOp) (a b : ℕ) : Option ℕ :=
  if RightNeutral op b then some a else if LeftNeutral op a then some b else none

/-- The literal an expression amounts to in untyped arithmetic, if its leaves are literals and
constants of a literal's own type and no operation leaves the width of its operands. -/
def Optimizer.literalOf (o : Optimizer) : Expr → Option ℕ
  | .integer value => some value.toNat
  | .bool _ => none
  | .identifier name =>
    match o.scope name with
    | some (.int ty value _) =>
      if o.constantFolding ∧ ty.getD (defaultTy value.toNat) = defaultTy value.toNat then
        some value.toNat
      else none
    | _ => none
  | .unary .neg expr => if o.constantFolding then (o.literalOf expr).map untypedNeg else none
  | .unary .not _ => none
  | .binary op left right =>
    if o.constantFolding then do
      let a ← o.literalOf left
      let b ← o.literalOf right
      untyped op a b <|> neutral op a b
    else none

namespace Expr

variable {e : Expr} {n : ℕ}

theorem literal_some_iff : e.literal = some n ↔ ∃ v, e = .integer v ∧ v.toNat = n := by
  cases e <;> simp [literal]

theorem literal_lt (h : e.literal = some n) : n < 2 ^ 128 := by
  obtain ⟨v, rfl, rfl⟩ := literal_some_iff.1 h
  exact v.isLt

theorem literal_eq_ofNat (h : e.literal = some n) : e = .integer (BitVec.ofNat 128 n) := by
  obtain ⟨v, rfl, rfl⟩ := literal_some_iff.1 h
  rw [ofNat_toNat, setWidth_eq]

theorem literal_eq_zero_iff : e.literal = some 0 ↔ e = .integer 0 :=
  ⟨literal_eq_ofNat, fun h ↦ by rw [h]; rfl⟩

theorem literal_eq_one_iff : e.literal = some 1 ↔ e = .integer 1 :=
  ⟨literal_eq_ofNat, fun h ↦ by rw [h]; rfl⟩

end Expr

variable {op : BinaryOp} {w k a b c n : ℕ} {x y : BitVec 128}

theorem exists_literal_iff {e : Expr} {A B : Prop} :
    (∃ n ∈ e.literal, A ∧ n = 0 ∨ B ∧ n = 1) ↔ A ∧ e = .integer 0 ∨ B ∧ e = .integer 1 := by
  rw [← Expr.literal_eq_zero_iff, ← Expr.literal_eq_one_iff]
  constructor
  · rintro ⟨n, hn, ⟨hop, rfl⟩ | ⟨hop, rfl⟩⟩
    exacts [Or.inl ⟨hop, hn⟩, Or.inr ⟨hop, hn⟩]
  · rintro (⟨hop, hn⟩ | ⟨hop, hn⟩)
    exacts [⟨0, hn, Or.inl ⟨hop, rfl⟩⟩, ⟨1, hn, Or.inr ⟨hop, rfl⟩⟩]

/-- `simplify_binary` by its two neutral operands. -/
theorem simplifyBinary_eq (op : BinaryOp) (left right : Expr) :
    simplifyBinary op left right = if ∃ n ∈ right.literal, RightNeutral op n then some left
      else if ∃ n ∈ left.literal, LeftNeutral op n then some right else none := by
  simp only [RightNeutral, LeftNeutral, exists_literal_iff]
  unfold simplifyBinary
  split <;> simp_all
  rw [if_neg, if_neg]
  · rintro (⟨rfl, h⟩ | ⟨rfl, h⟩) <;> simp_all
  · rintro (⟨rfl | rfl, h⟩ | ⟨rfl | rfl, h⟩) <;> simp_all

theorem checked_toNat {w : ℕ} :
    (checked w n).map BitVec.toNat = if n < 2 ^ w then some n else none := by
  unfold checked
  split
  · rename_i h
    rw [map_some, toNat_ofNat, mod_eq_of_lt h]
  · rfl

theorem foldWord_toNat (op : BinaryOp) (x y : BitVec w) :
    (foldWord op x y).map BitVec.toNat = untypedWord w op x.toNat y.toNat := by
  have hzero : y = 0 ↔ y.toNat = 0 := by rw [← BitVec.toNat_inj]; simp
  cases op with
  | add => exact checked_toNat
  | mul => exact checked_toNat
  | sub =>
    simp only [foldWord, untypedWord]
    split
    · rename_i h
      rw [map_some, BitVec.toNat_sub_of_le h]
    · rfl
  | div => simp only [foldWord, untypedWord, hzero]; split <;> simp
  | mod => simp only [foldWord, untypedWord, hzero]; split <;> simp
  | bitAnd => simp [foldWord, untypedWord]
  | bitOr => simp [foldWord, untypedWord]
  | bitXor => simp [foldWord, untypedWord]
  | _ => rfl

/-- The literal with a given value. -/
def Expr.ofNat (n : ℕ) : Expr := .integer (BitVec.ofNat 128 n)

theorem constToExpr_u64 (v : BitVec 64) : constToExpr (.u64 v) = .ofNat v.toNat := by
  rw [constToExpr, Expr.ofNat, ofNat_toNat]

theorem constToExpr_u128 (v : BitVec 128) : constToExpr (.u128 v) = .ofNat v.toNat := by
  rw [constToExpr, Expr.ofNat, ofNat_toNat, setWidth_eq]

theorem foldComparison_of_isArithmetic (hop : op.isArithmetic) (x y : BitVec w) :
    foldComparison op x y = none := by
  cases op <;> first | rfl | cases hop

/-- A shift folds when it loses no bit. -/
theorem le_allOnes_shiftRight_iff {x : BitVec 64} :
    x ≤ allOnes 64 >>> k ↔ x.toNat <<< k < 2 ^ 64 := by
  rw [BitVec.le_def, toNat_ushiftRight, BitVec.toNat_allOnes, Nat.shiftRight_eq_div_pow,
    Nat.le_div_iff_mul_le (Nat.two_pow_pos k)]
  omega

theorem untyped_eq_untypedWord (hop : op.isShift = false)
    (ha : a < 2 ^ 64) (hb : b < 2 ^ 64) : untyped op a b = untypedWord 64 op a b := by
  unfold untyped
  rw [if_pos ⟨ha, hb⟩]
  cases op <;> first | rfl | cases hop

theorem foldBinary_u64 (hop : op.isArithmetic) (x y : BitVec 64) :
    (foldBinary op (.u64 x) (.u64 y)).map constToExpr =
      (untyped op x.toNat y.toNat).map Expr.ofNat := by
  cases hshift : op.isShift with
  | true =>
    unfold untyped
    rw [if_pos ⟨x.isLt, y.isLt⟩]
    cases op <;> cases hshift
    · simp only [foldBinary, le_allOnes_shiftRight_iff]
      split
      · rename_i h
        rw [map_some, map_some, constToExpr_u64, BitVec.toNat_shiftLeft, mod_eq_of_lt h.2]
      · rfl
    · simp only [foldBinary]
      split
      · rw [map_some, map_some, constToExpr_u64, toNat_ushiftRight]
      · rfl
  | false =>
    have hfold : foldBinary op (.u64 x) (.u64 y) = (foldWord op x y).map .u64 := by
      cases op <;>
        first
        | exact absurd hop (by decide)
        | exact absurd hshift (by decide)
        | simp [foldBinary, foldComparison]
    rw [untyped_eq_untypedWord hshift x.isLt y.isLt, hfold, ← foldWord_toNat, Option.map_map,
      Option.map_map]
    exact congrArg (Option.map · (foldWord op x y)) (funext constToExpr_u64)

theorem foldBinary_u128 (hop : op.isArithmetic) (hx : 2 ^ 64 ≤ x.toNat) (hy : 2 ^ 64 ≤ y.toNat) :
    (foldBinary op (.u128 x) (.u128 y)).map constToExpr =
      (untyped op x.toNat y.toNat).map Expr.ofNat := by
  have hfold : foldBinary op (.u128 x) (.u128 y) = (foldWord op x y).map .u128 := by
    simp [foldBinary, foldComparison_of_isArithmetic hop]
  unfold untyped
  rw [if_neg (by omega), if_pos ⟨hx, hy⟩, hfold, ← foldWord_toNat, Option.map_map, Option.map_map]
  exact congrArg (Option.map · (foldWord op x y)) (funext constToExpr_u128)

theorem foldBinary_u128_u64 {y : BitVec 64} (hx : 2 ^ 64 ≤ x.toNat) :
    (foldBinary op (.u128 x) (.u64 y)).map constToExpr =
      (untyped op x.toNat y.toNat).map Expr.ofNat := by
  unfold untyped
  rw [if_neg (by omega), if_neg (by omega), if_pos hx]
  cases op with
  | shl =>
    simp only [foldBinary]
    split
    · rw [map_some, map_some, constToExpr_u128, BitVec.toNat_shiftLeft]
    · rfl
  | shr =>
    simp only [foldBinary]
    split
    · rw [map_some, map_some, constToExpr_u128, toNat_ushiftRight]
    · rfl
  | _ => rfl

/-- **`fold_binary` on literals is untyped arithmetic.** -/
theorem foldBinary_literalConst (hop : op.isArithmetic) (v w : BitVec 128) :
    (foldBinary op (literalConst v) (literalConst w)).map constToExpr =
      (untyped op v.toNat w.toNat).map Expr.ofNat := by
  have hsmall : ∀ {u : BitVec 128}, u.toNat < 2 ^ 64 → (u.setWidth 64).toNat = u.toNat :=
    fun h ↦ by rw [toNat_setWidth, mod_eq_of_lt h]
  unfold literalConst
  split
  · rename_i hv
    split
    · rename_i hw
      rw [foldBinary_u64 hop, hsmall hv, hsmall hw]
    · rename_i hw
      unfold untyped
      rw [if_neg (by omega), if_neg (by omega), if_neg (by omega)]
      rfl
  · rename_i hv
    split
    · rename_i hw
      rw [foldBinary_u128_u64 (by omega), hsmall hw]
    · rename_i hw
      rw [foldBinary_u128 hop (by omega) (by omega)]

theorem foldBinary_none (hop : op.isArithmetic) {c d : ConstValue}
    (h : (∃ b, c = .bool b) ∨ ∃ b, d = .bool b) : foldBinary op c d = none := by
  obtain ⟨b, rfl⟩ | ⟨b, rfl⟩ := h
  · cases d with
    | bool b' => cases op <;> first | rfl | cases hop
    | _ => rfl
  · cases c with
    | bool b' => cases op <;> first | rfl | cases hop
    | _ => rfl

/-- Untyped arithmetic on two written literals. -/
def foldLiterals (op : BinaryOp) (left right : Expr) : Option ℕ :=
  left.literal.bind fun a ↦ right.literal.bind fun b ↦ untyped op a b

theorem foldLiterals_some_iff {left right : Expr} :
    foldLiterals op left right = some c ↔
      ∃ a b, left.literal = some a ∧ right.literal = some b ∧ untyped op a b = some c := by
  simp only [foldLiterals, bind_eq_some_iff]
  constructor
  · rintro ⟨a, ha, b, hb, h⟩
    exact ⟨a, b, ha, hb, h⟩
  · rintro ⟨a, b, ha, hb, h⟩
    exact ⟨a, ha, b, hb, h⟩

/-- What `optimize_expr` makes of an arithmetic operation, by the literals of its operands. -/
theorem Optimizer.optimizeExpr_binary (o : Optimizer) (hop : op.isArithmetic) (left right : Expr) :
    o.optimizeExpr (.binary op left right) =
      if o.constantFolding then
        ((foldLiterals op (o.optimizeExpr left) (o.optimizeExpr right)).map Expr.ofNat <|>
          simplifyBinary op (o.optimizeExpr left) (o.optimizeExpr right)).getD
            (.binary op (o.optimizeExpr left) (o.optimizeExpr right))
      else .binary op (o.optimizeExpr left) (o.optimizeExpr right) := by
  rw [optimizeExpr]
  generalize o.optimizeExpr left = L
  generalize o.optimizeExpr right = R
  cases hcf : o.constantFolding with
  | false => cases L <;> cases R <;> simp [tryEvalConst, hcf]
  | true =>
    have hfold : Option.map constToExpr
          (do foldBinary op (← o.tryEvalConst L) (← o.tryEvalConst R)) =
        (foldLiterals op L R).map Expr.ofNat := by
      unfold foldLiterals
      cases L <;> cases R <;> simp only [tryEvalConst, hcf, if_true, bind_eq_bind,
        bind_some, Option.bind_none, Option.bind_fun_none, Expr.literal, map_none]
      case integer.integer v w => exact foldBinary_literalConst hop v w
      case integer.bool v b => rw [foldBinary_none hop (.inr ⟨b, rfl⟩), map_none]
      case bool.integer b v => rw [foldBinary_none hop (.inl ⟨b, rfl⟩), map_none]
      case bool.bool b b' => rw [foldBinary_none hop (.inl ⟨b, rfl⟩), map_none]
    simp only [hfold, if_true]

/-- The four things `optimize_expr` can make of an arithmetic operation: the folded literal, one of
the operands when the other one is neutral, or the operation on the optimised operands. -/
theorem Optimizer.optimizeExpr_binary_cases (o : Optimizer)
    (hop : op.isArithmetic) (left right : Expr) :
    (∃ a b c, (o.optimizeExpr left).literal = some a ∧ (o.optimizeExpr right).literal = some b ∧
      untyped op a b = some c ∧ o.optimizeExpr (.binary op left right) = .ofNat c) ∨
    (∃ n, (o.optimizeExpr right).literal = some n ∧ RightNeutral op n ∧
      o.optimizeExpr (.binary op left right) = o.optimizeExpr left) ∨
    (∃ n, (o.optimizeExpr left).literal = some n ∧ LeftNeutral op n ∧
      o.optimizeExpr (.binary op left right) = o.optimizeExpr right) ∨
    o.optimizeExpr (.binary op left right) =
      .binary op (o.optimizeExpr left) (o.optimizeExpr right) := by
  rw [optimizeExpr_binary o hop]
  generalize o.optimizeExpr left = L
  generalize o.optimizeExpr right = R
  split_ifs
  · cases hfold : foldLiterals op L R with
    | some c =>
      obtain ⟨a, b, ha, hb, h⟩ := foldLiterals_some_iff.1 hfold
      exact .inl ⟨a, b, c, ha, hb, h, rfl⟩
    | none =>
      rw [simplifyBinary_eq]
      split_ifs with hright hleft
      · obtain ⟨n, hn, hneutral⟩ := hright
        exact .inr (.inl ⟨n, hn, hneutral, rfl⟩)
      · obtain ⟨n, hn, hneutral⟩ := hleft
        exact .inr (.inr (.inl ⟨n, hn, hneutral, rfl⟩))
      · exact .inr (.inr (.inr rfl))
  · exact .inr (.inr (.inr rfl))

theorem Expr.literal_ofNat (h : n < 2 ^ 128) : (Expr.ofNat n).literal = some n := by
  simp only [Expr.ofNat, Expr.literal, toNat_ofNat, mod_eq_of_lt h]

/-- The literal of an optimised arithmetic operation. -/
theorem Optimizer.literal_optimizeExpr_binary (o : Optimizer)
    (hop : op.isArithmetic) (left right : Expr) :
    (o.optimizeExpr (.binary op left right)).literal =
      if o.constantFolding then
        (o.optimizeExpr left).literal.bind fun a ↦ (o.optimizeExpr right).literal.bind fun b ↦
          untyped op a b <|> neutral op a b
      else none := by
  rw [optimizeExpr_binary o hop]
  generalize o.optimizeExpr left = L
  generalize o.optimizeExpr right = R
  split_ifs
  · cases hfold : foldLiterals op L R with
    | some c =>
      obtain ⟨a, b, ha, hb, h⟩ := foldLiterals_some_iff.1 hfold
      rw [ha, hb, bind_some, bind_some, h]
      exact Expr.literal_ofNat (untyped_lt (Expr.literal_lt ha) (Expr.literal_lt hb) h)
    | none =>
      rw [simplifyBinary_eq]
      cases hL : L.literal with
      | none =>
        split_ifs with hright hleft
        · exact hL
        · obtain ⟨n, hn, -⟩ := hleft
          exact nomatch hn
        · rfl
      | some a =>
        cases hR : R.literal with
        | none =>
          split_ifs with hright hleft
          · obtain ⟨n, hn, -⟩ := hright
            exact nomatch hn
          · exact hR
          · rfl
        | some b =>
          have hnone : untyped op a b = none := by
            rw [foldLiterals, hL, hR] at hfold
            exact hfold
          simp only [bind_some, hnone, neutral, mem_def, some.injEq, exists_eq_left']
          split_ifs
          · exact hL
          · exact hR
          · rfl
  · rfl

theorem foldUnary_literalConst (v : BitVec 128) :
    (foldUnary .neg (literalConst v)).map constToExpr = some (.ofNat (untypedNeg v.toNat)) := by
  unfold literalConst untypedNeg
  split
  · rename_i h
    simp only [foldUnary, map_some, constToExpr_u64, BitVec.toNat_neg,
      toNat_setWidth, mod_eq_of_lt h]
  · rename_i h
    simp only [foldUnary, map_some, constToExpr_u128, BitVec.toNat_neg]
    rw [mod_eq_of_lt (by omega)]

theorem Optimizer.optimizeExpr_neg (o : Optimizer) (expr : Expr) :
    o.optimizeExpr (.unary .neg expr) =
      if o.constantFolding then
        ((o.optimizeExpr expr).literal.map fun n ↦ Expr.ofNat (untypedNeg n)).getD
          (.unary .neg (o.optimizeExpr expr))
      else .unary .neg (o.optimizeExpr expr) := by
  rw [optimizeExpr]
  generalize o.optimizeExpr expr = X
  cases hcf : o.constantFolding with
  | false => cases X <;> simp [tryEvalConst, hcf]
  | true =>
    cases X with
    | integer v =>
      have := foldUnary_literalConst v
      simp only [tryEvalConst, hcf, if_true, bind_eq_bind, bind_some, this,
        Expr.literal, map_some, getD_some]
      rfl
    | _ => simp [tryEvalConst, hcf, foldUnary, simplifyUnary, Expr.literal]

theorem constToExpr_literalConst (v : BitVec 128) : constToExpr (literalConst v) = .integer v := by
  unfold literalConst
  split
  · rename_i h
    rw [constToExpr_u64, Expr.ofNat, toNat_setWidth, mod_eq_of_lt h, ofNat_toNat, setWidth_eq]
  · rfl

theorem propagatableConst_int (ty : Option IntTy) (v : BitVec 128)
    (fits : ∀ t ∈ ty, t.Fits v.toNat) :
    propagatableConst (.int ty v fits) =
      if ty.getD (defaultTy v.toNat) = defaultTy v.toNat then some (literalConst v) else none := by
  cases ty with
  | none => exact (if_pos rfl).symm
  | some ty =>
    simp only [propagatableConst, getD_some]
    unfold literalConst defaultTy
    split_ifs <;> cases ty <;> simp_all

end CellScript.Optimize
