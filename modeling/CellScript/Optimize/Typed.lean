import CellScript.Optimize.Literal

/-!
# Accepted integer expressions

An operand stands where a type is expected or where none is, and it is typed and lowered
accordingly. This module takes the type checker's verdict apart, one operation at a time, and shows
that lowering follows it: the lowered expression has the type the checker gave it
(`TypedIn.lower_ty`), its operations are performed at that type (`TypedIn.run_binary`), and its
value is one of that type (`TypedIn.inRange`).
-/

namespace CellScript.Optimize

open BinaryOp

/-! ### Positions -/

/-- An operand stands where a type is expected, or where none is. -/
abbrev Position := Option IntTy

section

variable (scope : String → Option ConstDef)

/-- The lowering of an expression at a position. -/
def lowerIn : Position → Expr → Code
  | some expected => lowerExprWithExpectedType scope expected
  | none => lowerExpr scope

/-- The expression is accepted at the position, and has the given type there. -/
def TypedIn : Position → Expr → IntTy → Prop
  | some expected, e, ty =>
    inferExprWithExpectedType scope expected e = .ok (.int ty) ∧ ty.WidensTo expected
  | none, e, ty => inferExpr scope e = .ok (.int ty)

end

/-- The position of the right operand: a shift amount is lowered on its own. -/
def rightPosition (op : BinaryOp) (p : Position) : Position := if op.isShift then none else p

/-- The predicate holds of the expression and of all its operands, each at its own position. -/
def EveryOperand (P : Position → Expr → Prop) : Position → Expr → Prop
  | p, .unary op expr => P p (.unary op expr) ∧ EveryOperand P none expr
  | p, .binary op left right =>
    P p (.binary op left right) ∧ EveryOperand P p left ∧
      EveryOperand P (rightPosition op p) right
  | p, expr => P p expr

theorem EveryOperand.self {P : Position → Expr → Prop} {p : Position} {e : Expr}
    (h : EveryOperand P p e) : P p e := by
  cases e with
  | unary => exact h.1
  | binary => exact h.1
  | _ => exact h

/-! ### Accepted expressions -/

variable {scope : String → Option ConstDef} {p : Position} {e left right : Expr} {ty t r l : IntTy}
  {op : BinaryOp} {n a : ℕ} {name : String}

theorem inferBinary_eq_bool {l r t : Ty} (hop : op.isArithmetic = false)
    (h : inferBinary op left l right r = .ok t) : t = .bool := by
  cases op <;> simp only [isArithmetic, Bool.true_eq_false] at hop
  case eq | ne =>
    obtain ⟨b, -, h⟩ := bind_ok.1 h
    cases b with
    | false => cases h
    | true => exact (ok.inj h).symm
  case lt | le | gt | ge =>
    cases l with
    | bool => cases h
    | int l =>
      cases r with
      | bool => cases h
      | int r =>
        rw [inferBinary] at h
        split at h
        · exact (ok.inj h).symm
        · cases h
  case and | or =>
    cases l with
    | int l => cases h
    | bool =>
      cases r with
      | int r => cases h
      | bool => exact (ok.inj h).symm

theorem TypedIn.neg (h : TypedIn scope p (.unary .neg e) ty) : TypedIn scope none e ty := by
  have hinfer : inferExpr scope (.unary .neg e) = .ok (.int ty) := by
    cases p with
    | none => exact h
    | some expected => exact h.1
  obtain ⟨t, ht, h⟩ := bind_ok.1 hinfer
  cases t with
  | int t => exact ht.trans (by rw [Ty.int.inj (ok.inj h)])
  | bool => cases h

theorem not_typedIn_not : ¬TypedIn scope p (.unary .not e) ty := by
  intro h
  have hinfer : inferExpr scope (.unary .not e) = .ok (.int ty) := by
    cases p with
    | none => exact h
    | some expected => exact h.1
  obtain ⟨t, ht, h⟩ := bind_ok.1 hinfer
  cases t <;> cases h

theorem not_typedIn_bool {b : Bool} : ¬TypedIn scope p (.bool b) ty := by
  cases p with
  | none => exact fun h ↦ nomatch h
  | some expected => exact fun h ↦ nomatch h.1

theorem requireNumericOperandWidenable_ok {actual : Ty} {expected : IntTy} {side : String}
    (h : requireNumericOperandWidenable actual expected side = .ok ()) :
    ∃ t, actual = .int t ∧ t.WidensTo expected := by
  unfold requireNumericOperandWidenable at h
  split at h
  · rename_i t
    split_ifs at h with hw
    exact ⟨t, rfl, hw⟩
  · split_ifs at h

/-- What typing says about an operation where a type is expected. -/
theorem TypedIn.binary_some {expected : IntTy}
    (h : TypedIn scope (some expected) (.binary op left right) ty) :
    op.isArithmetic ∧ ty = expected ∧ (∃ l, TypedIn scope (some expected) left l) ∧
      ∃ r, TypedIn scope (rightPosition op (some expected)) right r ∧
        (op.isShift → r.isShiftCount) := by
  obtain ⟨h, -⟩ := h
  cases hop : op.isArithmetic with
  | false =>
    rw [inferExprWithExpectedType, if_neg (by simp [hop])] at h
    obtain ⟨l, -, r, -, h⟩ : ∃ l, _ ∧ ∃ r, _ ∧ inferBinary op left l right r = .ok (.int ty) := by
      simpa only [inferExpr, bind_ok] using h
    cases inferBinary_eq_bool hop h
  | true =>
    rw [inferExprWithExpectedType, if_pos hop] at h
    obtain ⟨l, hl, hrest⟩ := bind_ok.1 h
    obtain ⟨u, hl', h⟩ := bind_ok.1 hrest
    obtain ⟨l, rfl, hlw⟩ := requireNumericOperandWidenable_ok hl'
    cases hshift : op.isShift with
    | true =>
      rw [if_pos hshift] at h
      obtain ⟨r, hr, h⟩ := bind_ok.1 h
      cases r with
      | bool => cases h
      | int r =>
        dsimp only at h
        cases hcount : r.isShiftCount with
        | false => rw [if_pos (by simp [hcount])] at h; cases h
        | true =>
          rw [if_neg (by simp [hcount])] at h
          obtain ⟨-, -, h⟩ := bind_ok.1 h
          refine ⟨rfl, (Ty.int.inj (ok.inj h)).symm, ⟨l, hl, hlw⟩, r, ?_, fun _ ↦ hcount⟩
          rw [rightPosition, if_pos hshift]
          exact hr
    | false =>
      rw [if_neg (by simp [hshift])] at h
      obtain ⟨r, hr, hrest⟩ := bind_ok.1 h
      obtain ⟨u, hr', h⟩ := bind_ok.1 hrest
      obtain ⟨r, rfl, hrw⟩ := requireNumericOperandWidenable_ok hr'
      refine ⟨rfl, (Ty.int.inj (ok.inj h)).symm, ⟨l, hl, hlw⟩, r, ?_, fun h ↦ by cases h⟩
      rw [rightPosition, if_neg (by simp [hshift])]
      exact ⟨hr, hrw⟩

/-- What typing says about an operation where no type is expected. -/
theorem TypedIn.binary_none (h : TypedIn scope none (.binary op left right) ty) :
    op.isArithmetic ∧ ∃ l r, TypedIn scope none left l ∧ TypedIn scope none right r ∧
      if op.isShift then ty = l ∧ r.isShiftCount
      else numericBinaryResultType left l right r = .ok ty := by
  obtain ⟨l, hl, r, hr, h⟩ :
      ∃ l, inferExpr scope left = .ok l ∧ ∃ r, inferExpr scope right = .ok r ∧
        inferBinary op left l right r = .ok (.int ty) := by
    simpa only [TypedIn, inferExpr, bind_ok] using h
  cases hop : op.isArithmetic with
  | false => cases inferBinary_eq_bool hop h
  | true =>
    obtain ⟨l, rfl⟩ : ∃ t, l = .int t := by
      cases l with
      | int t => exact ⟨t, rfl⟩
      | bool => cases op <;> first | cases h | cases hop
    obtain ⟨r, rfl⟩ : ∃ t, r = .int t := by
      cases r with
      | int t => exact ⟨t, rfl⟩
      | bool => cases op <;> first | cases h | cases hop
    refine ⟨rfl, l, r, hl, hr, ?_⟩
    cases hshift : op.isShift with
    | false =>
      rw [if_neg (by simp)]
      have hnum : (Ty.int <$> numericBinaryResultType left l right r) = .ok (.int ty) := by
        cases op <;>
          first | exact h | exact absurd hshift (by decide) | exact absurd hop (by decide)
      obtain ⟨t, ht, h⟩ := map_ok_iff.1 hnum
      rw [ht, Ty.int.inj h]
    | true =>
      cases hcount : r.isShiftCount with
      | false => cases op <;> simp [isShift, inferBinary, hcount] at hshift h
      | true =>
        refine ⟨?_, rfl⟩
        have hty : (checkShiftAmount right l >>= fun _ ↦ pure (Ty.int l)) = .ok (.int ty) := by
          cases op <;>
            first | exact absurd hshift (by decide) | simpa [inferBinary, hcount] using h
        obtain ⟨-, -, h⟩ := bind_ok.1 hty
        exact (Ty.int.inj (ok.inj h)).symm

/-! ### Literals that take the type of the other operand -/

/-- The types of two operands once a written literal has taken the other operand's type, where it
fits. -/
def adaptedTypes (left right : Expr) (l r : IntTy) : IntTy × IntTy :=
  match left.literal, right.literal with
  | some a, _ => (if r.Fits a then r else defaultTy a, r)
  | none, some b => (l, if l.Fits b then l else defaultTy b)
  | none, none => (l, r)

namespace IntTy

/-- The type of an arithmetic result: the operands' type, or the wider of two unsigned types. -/
def join (l r : IntTy) : IntTy := if l = r then l else (l.widening r).getD .u64

/-- Equal types, or two unsigned ones. -/
def Compatible (l r : IntTy) : Prop := l = r ∨ l.isUnsigned ∧ r.isUnsigned

theorem Compatible.widensTo_join (h : l.Compatible r) :
    l.WidensTo (l.join r) ∧ r.WidensTo (l.join r) := by
  unfold join
  split_ifs with heq
  · exact ⟨.inl rfl, .inl heq.symm⟩
  · obtain h | h := h
    · exact absurd h heq
    · unfold widening
      rw [if_pos h, getD_some]
      split_ifs with hle
      · exact ⟨.inr ⟨h.1, h.2, hle⟩, .inl rfl⟩
      · exact ⟨.inl rfl, .inr ⟨h.2, h.1, by omega⟩⟩

@[simp] theorem join_self (l : IntTy) : l.join l = l := if_pos rfl

end IntTy

theorem binaryResultType_int (hop : op.isArithmetic) (hshift : op.isShift = false)
    (l r : IntTy) : binaryResultType op (.int l) (.int r) = .int (l.join r) := by
  have hif : (if Ty.int l = Ty.int r then Ty.int l else .int ((l.widening r).getD .u64)) =
      .int (l.join r) := by
    unfold IntTy.join
    simp only [Ty.int.injEq]
    split_ifs <;> rfl
  cases op <;> first | exact hif | exact absurd hshift (by decide) | exact absurd hop (by decide)

theorem literalFor_ty (n : ℕ) (t : IntTy) :
    (literalFor n (.int t)).ty = .int (if t.Fits n then t else defaultTy n) := by
  rw [literalFor]
  split_ifs <;> rfl

theorem literalFor_run (n : ℕ) (t : Ty) : (literalFor n t).run = some (n : ℤ) := by
  unfold literalFor
  split
  · split_ifs <;> rfl
  · rfl

/-- **An arithmetic operation where no type is expected**: its operands are adapted, and then
joined. -/
theorem lowerExpr_binary {l' r' : IntTy} (hop : op.isArithmetic) (hshift : op.isShift = false)
    (hl : (lowerExpr scope left).ty = .int l) (hr : (lowerExpr scope right).ty = .int r)
    (hadapt : adaptedTypes left right l r = (l', r')) (hc : l'.Compatible r') :
    (lowerExpr scope (.binary op left right)).ty = .int (l'.join r') ∧
      (lowerExpr scope (.binary op left right)).run =
        (lowerExpr scope left).run.bind fun x ↦ (lowerExpr scope right).run.bind fun y ↦
          runAt (l'.join r') op x y := by
  obtain ⟨L, R, hLR, hL, hR, hLrun, hRrun⟩ : ∃ L R,
      adaptOperands op left right (lowerExpr scope left) (lowerExpr scope right) = (L, R) ∧
        L.ty = .int l' ∧ R.ty = .int r' ∧ L.run = (lowerExpr scope left).run ∧
          R.run = (lowerExpr scope right).run := by
    unfold adaptOperands
    rw [if_neg (by simp [hshift])]
    unfold adaptedTypes at hadapt
    split
    · rename_i v
      obtain ⟨rfl, rfl⟩ := Prod.mk.inj hadapt
      exact ⟨_, _, rfl, by rw [hr, literalFor_ty], hr, literalFor_run _ _, rfl⟩
    · rename_i v hne
      rw [Expr.literal_none hne] at hadapt
      obtain ⟨rfl, rfl⟩ := Prod.mk.inj hadapt
      exact ⟨_, _, rfl, hl, by rw [hl, literalFor_ty], rfl, literalFor_run _ _⟩
    · rename_i hne hne'
      rw [Expr.literal_none hne, Expr.literal_none hne'] at hadapt
      obtain ⟨rfl, rfl⟩ := Prod.mk.inj hadapt
      exact ⟨_, _, rfl, hl, hr, rfl, rfl⟩
  have hlower : lowerExpr scope (.binary op left right) = .binary (.int (l'.join r')) op L R := by
    simp only [lowerExpr, hLR, hL, hR, binaryResultType_int hop hshift]
  obtain ⟨hlw, hrw⟩ := hc.widensTo_join
  rw [hlower, ← hLrun, ← hRrun]
  refine ⟨rfl, ?_⟩
  simp only [Code.run, hL, hR]
  exact Option.bind_congr fun x _ ↦ Option.bind_congr fun y _ ↦
    runBinary_eq_runAt hlw (by rw [if_neg (by simp [hshift])]; exact hrw) x y

theorem lowerExpr_shift (hshift : op.isShift) (hl : (lowerExpr scope left).ty = .int l)
    (hr : (lowerExpr scope right).ty = .int r) (hcount : r.isShiftCount) :
    (lowerExpr scope (.binary op left right)).ty = .int l ∧
      (lowerExpr scope (.binary op left right)).run =
        (lowerExpr scope left).run.bind fun x ↦ (lowerExpr scope right).run.bind fun y ↦
          runAt l op x y := by
  have hlower : lowerExpr scope (.binary op left right) =
      .binary (.int l) op (lowerExpr scope left) (lowerExpr scope right) := by
    have hty : binaryResultType op (lowerExpr scope left).ty
        (lowerExpr scope right).ty = .int l := by
      rw [← hl]
      cases op <;> first | rfl | exact absurd hshift (by decide)
    simp only [lowerExpr, adaptOperands, if_pos hshift, hty]
  rw [hlower]
  refine ⟨rfl, ?_⟩
  simp only [Code.run, hl, hr]
  exact Option.bind_congr fun x _ ↦ Option.bind_congr fun y _ ↦
    runBinary_eq_runAt (.refl l) (by rw [if_pos hshift]; exact hcount) x y

/-- **An arithmetic operation where a type is expected** is performed at that type. -/
theorem lowerExprWithExpectedType_binary {expected : IntTy} (hop : op.isArithmetic)
    (hl : (lowerIn scope (some expected) left).ty = .int l) (hlw : l.WidensTo expected)
    (hr : (lowerIn scope (rightPosition op (some expected)) right).ty = .int r)
    (hrw : if op.isShift then r.isShiftCount else r.WidensTo expected) :
    (lowerIn scope (some expected) (.binary op left right)).ty = .int expected ∧
      (lowerIn scope (some expected) (.binary op left right)).run =
        (lowerIn scope (some expected) left).run.bind fun x ↦
          (lowerIn scope (rightPosition op (some expected)) right).run.bind fun y ↦
            runAt expected op x y := by
  have hlower : lowerIn scope (some expected) (.binary op left right) =
      .binary (.int expected) op (lowerIn scope (some expected) left)
        (lowerIn scope (rightPosition op (some expected)) right) := by
    rw [lowerIn, lowerExprWithExpectedType, rightPosition]
    split_ifs <;> rfl
  rw [hlower]
  refine ⟨rfl, ?_⟩
  simp only [Code.run, hl, hr]
  exact Option.bind_congr fun x _ ↦ Option.bind_congr fun y _ ↦ runBinary_eq_runAt hlw hrw x y

theorem integerLiteralTypeForExpected_ok {expected : IntTy}
    (h : integerLiteralTypeForExpected n expected = .ok t) : expected.Fits n ∧ t = expected := by
  unfold integerLiteralTypeForExpected at h
  split_ifs at h with hfits
  exact ⟨hfits, (ok.inj h).symm⟩

theorem numericBinaryResultType_ok (h : numericBinaryResultType left l right r = .ok ty) :
    l = r ∧ ty = l ∨
      l ≠ r ∧ ((∃ a, left.literal = some a ∧ r.Fits a ∧ ty = r) ∨
        left.literal = none ∧ ((∃ b, right.literal = some b ∧ l.Fits b ∧ ty = l) ∨
          right.literal = none ∧ l.isUnsigned ∧ r.isUnsigned ∧ ty = l.join r)) := by
  unfold numericBinaryResultType at h
  split_ifs at h with heq
  · exact .inl ⟨heq, (ok.inj h).symm⟩
  · refine .inr ⟨heq, ?_⟩
    split at h
    · rename_i v
      obtain ⟨hfits, rfl⟩ := integerLiteralTypeForExpected_ok h
      exact .inl ⟨v.toNat, rfl, hfits, rfl⟩
    · rename_i v hne
      obtain ⟨hfits, rfl⟩ := integerLiteralTypeForExpected_ok h
      exact .inr ⟨Expr.literal_none hne, .inl ⟨v.toNat, rfl, hfits, rfl⟩⟩
    · rename_i hne hne'
      refine .inr ⟨Expr.literal_none hne, .inr ⟨Expr.literal_none hne', ?_⟩⟩
      split at h
      · rename_i t ht
        have hty : t = l.join r := by rw [IntTy.join, if_neg heq, ht, getD_some]
        unfold IntTy.widening at ht
        split_ifs at ht with hu
        · exact ⟨hu.1, hu.2, (ok.inj h).symm.trans hty⟩
        · exact ⟨hu.1, hu.2, (ok.inj h).symm.trans hty⟩
      · cases h

/-- The lowering joins the adapted operands to the type that the checker gave the operation. -/
theorem adaptedTypes_of_numericBinaryResultType
    (h : numericBinaryResultType left l right r = .ok ty)
    (hleft : ∀ a ∈ left.literal, l = defaultTy a) (hright : ∀ b ∈ right.literal, r = defaultTy b) :
    ∃ l' r', adaptedTypes left right l r = (l', r') ∧ l'.Compatible r' ∧ l'.join r' = ty := by
  unfold adaptedTypes
  obtain ⟨rfl, rfl⟩ | ⟨hne, ⟨a, ha, hfits, rfl⟩ |
    ⟨ha, ⟨b, hb, hfits, rfl⟩ | ⟨hb, hl, hr, rfl⟩⟩⟩ := numericBinaryResultType_ok h
  · refine ⟨ty, ty, ?_, .inl rfl, IntTy.join_self ty⟩
    split
    · rename_i a ha
      rw [if_pos (hleft a ha ▸ IntTy.fits_defaultTy (Expr.literal_lt ha))]
    · rename_i b ha hb
      rw [if_pos (hright b hb ▸ IntTy.fits_defaultTy (Expr.literal_lt hb))]
    · rfl
  · refine ⟨ty, ty, ?_, .inl rfl, IntTy.join_self ty⟩
    rw [ha]
    dsimp only
    rw [if_pos hfits]
  · refine ⟨ty, ty, ?_, .inl rfl, IntTy.join_self ty⟩
    rw [ha, hb]
    dsimp only
    rw [if_pos hfits]
  · exact ⟨l, r, by rw [ha, hb], .inr ⟨hl, hr⟩, rfl⟩

/-! ### Lowering accepted expressions -/

theorem TypedIn.eq_defaultTy (h : TypedIn scope none e ty) : ∀ a ∈ e.literal, ty = defaultTy a := by
  intro a ha
  obtain ⟨v, rfl, rfl⟩ := Expr.literal_some_iff.1 ha
  exact (Ty.int.inj (ok.inj h)).symm

theorem lowerIdentifier_of_typed (h : inferExpr scope (.identifier name) = .ok (.int ty)) :
    ∃ n : ℕ, lowerIdentifier scope name = .const (.int ty) n ∧ ty.Fits n := by
  simp only [inferExpr] at h
  split at h
  · rename_i constant hscope
    cases constant with
    | bool b => cases h
    | int declared value fits =>
      have hty := Ty.int.inj (ok.inj h)
      refine ⟨value.toNat, ?_, ?_⟩
      · simp only [lowerIdentifier, hscope, hty]
      · cases declared with
        | none => exact hty ▸ IntTy.fits_defaultTy value.isLt
        | some t => exact hty ▸ fits t rfl
  · cases h

/-- **Lowering follows typing.** The lowered expression has the type the checker gave it, an
operation is performed at that type, and its value is one of that type. -/
theorem TypedIn.lower_binary
    (hleft : ∀ {p ty}, TypedIn scope p left ty → (lowerIn scope p left).ty = .int ty)
    (hright : ∀ {p ty}, TypedIn scope p right ty → (lowerIn scope p right).ty = .int ty)
    (h : TypedIn scope p (.binary op left right) ty) :
    (lowerIn scope p (.binary op left right)).ty = .int ty ∧
      (lowerIn scope p (.binary op left right)).run =
        (lowerIn scope p left).run.bind fun x ↦
          (lowerIn scope (rightPosition op p) right).run.bind fun y ↦ runAt ty op x y := by
  cases p with
  | some expected =>
    obtain ⟨hop, rfl, ⟨l, hl⟩, r, hr, hcount⟩ := h.binary_some
    refine lowerExprWithExpectedType_binary hop (hleft hl) hl.2 (hright hr) ?_
    split_ifs with hshift
    · exact hcount hshift
    · rw [rightPosition, if_neg hshift] at hr
      exact hr.2
  | none =>
    obtain ⟨hop, l, r, hl, hr, hif⟩ := h.binary_none
    cases hshift : op.isShift with
    | true =>
      rw [if_pos hshift] at hif
      obtain ⟨rfl, hcount⟩ := hif
      rw [rightPosition, if_pos hshift]
      exact lowerExpr_shift hshift (hleft hl) (hright hr) hcount
    | false =>
      rw [if_neg (by simp [hshift])] at hif
      obtain ⟨l', r', hadapt, hc, rfl⟩ :=
        adaptedTypes_of_numericBinaryResultType hif hl.eq_defaultTy hr.eq_defaultTy
      rw [rightPosition, if_neg (by simp [hshift])]
      exact lowerExpr_binary hop hshift (hleft hl) (hright hr) hadapt hc

theorem TypedIn.lower_integer {v : BitVec 128} (h : TypedIn scope p (.integer v) ty) :
    lowerIn scope p (.integer v) = .const (.int ty) v.toNat ∧ ty.Fits v.toNat := by
  cases p with
  | some expected =>
    obtain ⟨t, ht, hty⟩ := map_ok_iff.1 h.1
    obtain ⟨hfits, rfl⟩ := integerLiteralTypeForExpected_ok ht
    obtain rfl := Ty.int.inj hty
    exact ⟨if_pos hfits, hfits⟩
  | none =>
    have hty := Ty.int.inj (ok.inj h)
    refine ⟨?_, hty ▸ IntTy.fits_defaultTy v.isLt⟩
    rw [← hty]
    rfl

theorem TypedIn.lower_identifier (h : TypedIn scope p (.identifier name) ty) :
    ∃ n : ℕ, lowerIn scope p (.identifier name) = .const (.int ty) n ∧ ty.Fits n := by
  cases p with
  | some expected => exact lowerIdentifier_of_typed h.1
  | none => exact lowerIdentifier_of_typed h

theorem lowerIn_neg (p : Position) (e : Expr) :
    lowerIn scope p (.unary .neg e) = .unary (lowerExpr scope e).ty .neg (lowerExpr scope e) := by
  cases p <;> rfl

/-- Negation subtracts from zero at the type of its operand. -/
theorem run_neg {c : Code} (hc : c.ty = .int ty) :
    (Code.unary c.ty .neg c).run = c.run.bind fun x ↦ runAt ty .sub 0 x := by
  simp only [Code.run, hc]
  refine Option.bind_congr fun x _ ↦ ?_
  unfold runUnary runAt runBinary
  by_cases hty : ty = .u128
  · rw [if_pos (by rw [hty]), if_pos (by rw [hty])]
  · simp [hty, isShift, runWord]

theorem TypedIn.lower_ty (h : TypedIn scope p e ty) : (lowerIn scope p e).ty = .int ty := by
  induction e generalizing p ty with
  | integer v => rw [h.lower_integer.1]; rfl
  | bool b => exact absurd h not_typedIn_bool
  | identifier name =>
    obtain ⟨n, hn, -⟩ := h.lower_identifier
    rw [hn]
    rfl
  | unary op expr ih =>
    cases op with
    | neg =>
      rw [lowerIn_neg]
      exact ih h.neg
    | not => exact absurd h not_typedIn_not
  | binary op left right ihl ihr => exact (h.lower_binary ihl ihr).1

theorem TypedIn.run_binary (h : TypedIn scope p (.binary op left right) ty) :
    (lowerIn scope p (.binary op left right)).run =
      (lowerIn scope p left).run.bind fun x ↦
        (lowerIn scope (rightPosition op p) right).run.bind fun y ↦ runAt ty op x y :=
  (h.lower_binary TypedIn.lower_ty TypedIn.lower_ty).2

theorem TypedIn.run_neg (h : TypedIn scope p (.unary .neg e) ty) :
    (lowerIn scope p (.unary .neg e)).run =
      (lowerIn scope none e).run.bind fun x ↦ runAt ty .sub 0 x := by
  rw [lowerIn_neg]
  exact Optimize.run_neg h.neg.lower_ty

/-- What typing says about the operands of an operation. -/
theorem TypedIn.operands (h : TypedIn scope p (.binary op left right) ty) :
    op.isArithmetic ∧ (∃ l, TypedIn scope p left l ∧ (op.isShift → l.WidensTo ty)) ∧
      ∃ r, TypedIn scope (rightPosition op p) right r := by
  cases p with
  | some expected =>
    obtain ⟨hop, rfl, ⟨l, hl⟩, r, hr, -⟩ := h.binary_some
    exact ⟨hop, ⟨l, hl, fun _ ↦ hl.2⟩, r, hr⟩
  | none =>
    obtain ⟨hop, l, r, hl, hr, hif⟩ := h.binary_none
    refine ⟨hop, ⟨l, hl, fun hshift ↦ ?_⟩, r, ?_⟩
    · rw [if_pos hshift] at hif
      exact .inl hif.1.symm
    · unfold rightPosition
      split_ifs <;> exact hr

theorem TypedIn.run_literal (h : TypedIn scope p e ty) (ha : e.literal = some a) :
    (lowerIn scope p e).run = some (a : ℤ) := by
  obtain ⟨v, rfl, rfl⟩ := Expr.literal_some_iff.1 ha
  rw [h.lower_integer.1]
  rfl

/-- The operands of an accepted operation have values of its type; a shift amount has its own. -/
theorem TypedIn.inRange_operands
    (hleft : ∀ {p ty x}, TypedIn scope p left ty → (lowerIn scope p left).run = some x →
      ty.InRange x)
    (hright : ∀ {p ty x}, TypedIn scope p right ty → (lowerIn scope p right).run = some x →
      ty.InRange x) (h : TypedIn scope p (.binary op left right) ty) {x y : ℤ}
    (hx : (lowerIn scope p left).run = some x)
    (hy : (lowerIn scope (rightPosition op p) right).run = some y) :
    ty.InRange x ∧ (op.isShift = false → ty.InRange y) := by
  cases p with
  | some expected =>
    obtain ⟨hop, rfl, ⟨l, hl⟩, r, hr, -⟩ := h.binary_some
    refine ⟨(hleft hl hx).mono hl.2, fun hshift ↦ ?_⟩
    rw [rightPosition, if_neg (by simp [hshift])] at hr hy
    exact (hright hr hy).mono hr.2
  | none =>
    obtain ⟨hop, l, r, hl, hr, hif⟩ := h.binary_none
    rw [show rightPosition op none = none by unfold rightPosition; split_ifs <;> rfl] at hy
    cases hshift : op.isShift with
    | true =>
      rw [if_pos hshift] at hif
      exact ⟨hif.1 ▸ hleft hl hx, fun h ↦ nomatch h⟩
    | false =>
      rw [if_neg (by simp [hshift])] at hif
      have hxl := hleft hl hx
      have hyr := hright hr hy
      obtain ⟨rfl, rfl⟩ | ⟨-, ⟨a, ha, hfits, rfl⟩ |
        ⟨-, ⟨b, hb, hfits, rfl⟩ | ⟨-, hlu, hru, rfl⟩⟩⟩ := numericBinaryResultType_ok hif
      · exact ⟨hxl, fun _ ↦ hyr⟩
      · obtain rfl := mem_unique hx (hl.run_literal ha)
        exact ⟨hfits.inRange, fun _ ↦ hyr⟩
      · obtain rfl := mem_unique hy (hr.run_literal hb)
        exact ⟨hxl, fun _ ↦ hfits.inRange⟩
      · obtain ⟨hlw, hrw⟩ := IntTy.Compatible.widensTo_join (.inr ⟨hlu, hru⟩)
        exact ⟨hxl.mono hlw, fun _ ↦ hyr.mono hrw⟩

/-- **An accepted expression has a value of its type.** -/
theorem TypedIn.inRange {x : ℤ} (h : TypedIn scope p e ty)
    (hx : (lowerIn scope p e).run = some x) : ty.InRange x := by
  induction e generalizing p ty x with
  | integer v =>
    obtain ⟨hlower, hfits⟩ := h.lower_integer
    rw [hlower] at hx
    exact some.inj hx ▸ hfits.inRange
  | bool b => exact absurd h not_typedIn_bool
  | identifier name =>
    obtain ⟨n, hlower, hfits⟩ := h.lower_identifier
    rw [hlower] at hx
    exact some.inj hx ▸ hfits.inRange
  | unary op expr ih =>
    cases op with
    | neg =>
      rw [h.run_neg] at hx
      obtain ⟨y, hy, hx⟩ := bind_eq_some_iff.1 hx
      have hzero : ty.InRange 0 := IntTy.Fits.inRange (n := 0) (by cases ty <;> decide)
      exact runAt_inRange rfl hzero (fun _ ↦ ih h.neg hy) hx
    | not => exact absurd h not_typedIn_not
  | binary op left right ihl ihr =>
    rw [h.run_binary] at hx
    obtain ⟨a, ha, hx⟩ := bind_eq_some_iff.1 hx
    obtain ⟨b, hb, hx⟩ := bind_eq_some_iff.1 hx
    obtain ⟨ha', hb'⟩ := h.inRange_operands ihl ihr ha hb
    exact runAt_inRange h.operands.1 ha' hb' hx

end CellScript.Optimize
