import CellScript.Names

/-!
# Constant folding of the AST optimiser

`Optimizer::optimize_expr` of `optimize/mod.rs` on integer expressions: literals, named constants,
unary and binary operators. The optimiser runs before lowering and knows no types: an integer
literal is a `u64` when it fits and a `u128` otherwise, and an operation is folded when both of its
operands are literals and the operation stays within that width.

A name is looked up through the scopes, innermost first. What the lookup finds is the declaration in
force, so the scopes are here one function from names to declarations. String and byte-string
literals never stand in an integer expression and are left out.
-/

namespace CellScript.Optimize

/-! ### Types, operators and expressions -/

inductive IntTy
  | u8
  | u16
  | u32
  | u64
  | u128
  | i32
  deriving DecidableEq, Repr

namespace IntTy

/-- `integer_type_width_bits`. -/
def width : IntTy → ℕ
  | u8 => 8
  | u16 => 16
  | u32 => 32
  | u64 => 64
  | u128 => 128
  | i32 => 32

/-- The first natural number too large for a literal of the type. -/
def limit : IntTy → ℕ
  | i32 => 2 ^ 31
  | ty => 2 ^ ty.width

/-- `integer_literal_fits_expected_type`. -/
def Fits (ty : IntTy) (value : ℕ) : Prop := value < ty.limit

instance (ty : IntTy) (value : ℕ) : Decidable (ty.Fits value) := Nat.decLt _ _

end IntTy

inductive BinaryOp
  | add
  | sub
  | mul
  | div
  | mod
  | eq
  | ne
  | lt
  | le
  | gt
  | ge
  | and
  | or
  | bitAnd
  | bitOr
  | bitXor
  | shl
  | shr
  deriving DecidableEq, Repr

namespace BinaryOp

def isShift : BinaryOp → Bool
  | shl | shr => true
  | _ => false

/-- The operators whose result has the type of their operands. -/
def isArithmetic : BinaryOp → Bool
  | add | sub | mul | div | mod | bitAnd | bitOr | bitXor | shl | shr => true
  | _ => false

end BinaryOp

inductive UnaryOp
  | neg
  | not
  deriving DecidableEq, Repr

/-- Integer literals are the source's `u128`. -/
inductive Expr
  | integer (value : BitVec 128)
  | bool (value : Bool)
  | identifier (name : String)
  | unary (op : UnaryOp) (expr : Expr)
  | binary (op : BinaryOp) (left right : Expr)
  deriving DecidableEq, Repr

/-! ### Constants -/

inductive ConstValue
  | u64 (value : BitVec 64)
  | u128 (value : BitVec 128)
  | bool (value : Bool)
  deriving DecidableEq, Repr

/-- A declaration `const name: ty = value` or an immutable `let`, which may leave its type out. The
value of an integer declaration fits the declared type. -/
inductive ConstDef
  | int (ty : Option IntTy) (value : BitVec 128) (fits : ∀ t ∈ ty, t.Fits value.toNat)
  | bool (value : Bool)

/-- `const_to_expr`. -/
def constToExpr : ConstValue → Expr
  | .u64 value => .integer (value.setWidth 128)
  | .u128 value => .integer value
  | .bool value => .bool value

/-- The value of a literal, as a `u64` when it fits one. -/
def literalConst (value : BitVec 128) : ConstValue :=
  if value.toNat < 2 ^ 64 then .u64 (value.setWidth 64) else .u128 value

/-- `propagatable_const`: a declared width other than the literal's own is not erased. -/
def propagatableConst : ConstDef → Option ConstValue
  | .int none value _ => some (literalConst value)
  | .int (some ty) value _ =>
    match ty, literalConst value with
    | .u64, .u64 v => some (.u64 v)
    | .u128, .u128 v => some (.u128 v)
    | _, _ => none
  | .bool value => some (.bool value)

/-- The optimiser: whether the folding pass is enabled, and the constants in scope. -/
structure Optimizer where
  constantFolding : Bool
  scope : String → Option ConstDef

namespace Optimizer

def lookupConst (o : Optimizer) (name : String) : Option ConstValue :=
  o.scope name >>= propagatableConst

def tryEvalConst (o : Optimizer) : Expr → Option ConstValue
  | .integer value => if o.constantFolding then some (literalConst value) else none
  | .bool value => if o.constantFolding then some (.bool value) else none
  | _ => none

end Optimizer

/-! ### Folding -/

/-- A result of checked arithmetic, which must fit the width. -/
def checked (w n : ℕ) : Option (BitVec w) :=
  if n < 2 ^ w then some (BitVec.ofNat w n) else none

/-- The arms of `fold_binary` for two words of one width that give a word. -/
def foldWord {w : ℕ} (op : BinaryOp) (left right : BitVec w) : Option (BitVec w) :=
  match op with
  | .add => checked w (left.toNat + right.toNat)
  | .sub => if right.toNat ≤ left.toNat then some (left - right) else none
  | .mul => checked w (left.toNat * right.toNat)
  | .div => if right = 0 then none else some (left / right)
  | .mod => if right = 0 then none else some (left % right)
  | .bitAnd => some (left &&& right)
  | .bitOr => some (left ||| right)
  | .bitXor => some (left ^^^ right)
  | _ => none

/-- The arms of `fold_binary` for two words of one width that give a truth value. -/
def foldComparison {w : ℕ} (op : BinaryOp) (left right : BitVec w) : Option Bool :=
  match op with
  | .eq => some (left = right)
  | .ne => some (left ≠ right)
  | .lt => some (left < right)
  | .le => some (left ≤ right)
  | .gt => some (right < left)
  | .ge => some (right ≤ left)
  | _ => none

/-- `fold_binary`. -/
def foldBinary (op : BinaryOp) : ConstValue → ConstValue → Option ConstValue
  | .u64 left, .u64 right =>
    match op with
    -- a shift that loses bits is left for the typed lowering
    | .shl =>
      if right.toNat < 64 ∧ left ≤ allOnes 64 >>> right.toNat then
        some (.u64 (left <<< right.toNat))
      else none
    | .shr => if right.toNat < 64 then some (.u64 (left >>> right.toNat)) else none
    | _ => (foldWord op left right).map .u64 <|> (foldComparison op left right).map .bool
  | .u128 left, .u128 right =>
    (foldWord op left right).map .u128 <|> (foldComparison op left right).map .bool
  | .u128 left, .u64 right =>
    match op with
    | .shl => if right.toNat < 128 then some (.u128 (left <<< right.toNat)) else none
    | .shr => if right.toNat < 128 then some (.u128 (left >>> right.toNat)) else none
    | _ => none
  | .bool left, .bool right =>
    match op with
    | .and => some (.bool (left && right))
    | .or => some (.bool (left || right))
    | .eq => some (.bool (left = right))
    | .ne => some (.bool (left ≠ right))
    | _ => none
  | _, _ => none

/-- `fold_unary`. -/
def foldUnary : UnaryOp → ConstValue → Option ConstValue
  | .not, .bool value => some (.bool !value)
  | .neg, .u64 value => some (.u64 (-value))
  | .neg, .u128 value => some (.u128 (-value))
  | _, _ => none

/-- `simplify_binary`: neutral operands. -/
def simplifyBinary (op : BinaryOp) (left right : Expr) : Option Expr :=
  match op, left, right with
  | .add, _, .integer 0 => some left
  | .sub, _, .integer 0 => some left
  | .mul, _, .integer 1 => some left
  | .div, _, .integer 1 => some left
  | .add, .integer 0, _ => some right
  | .mul, .integer 1, _ => some right
  | _, _, _ => none

/-- The double negation that `optimize_expr` removes. -/
def simplifyUnary (op : UnaryOp) (inner : Expr) : Option Expr :=
  match op, inner with
  | .not, .unary .not expr => some expr
  | _, _ => none

/-- `optimize_expr`. -/
def Optimizer.optimizeExpr (o : Optimizer) : Expr → Expr
  | .integer value => .integer value
  | .bool value => .bool value
  | .identifier name =>
    if o.constantFolding then ((o.lookupConst name).map constToExpr).getD (.identifier name)
    else .identifier name
  | .binary op left right =>
    let left := o.optimizeExpr left
    let right := o.optimizeExpr right
    let folded := do foldBinary op (← o.tryEvalConst left) (← o.tryEvalConst right)
    let simplified := if o.constantFolding then simplifyBinary op left right else none
    ((folded.map constToExpr) <|> simplified).getD (.binary op left right)
  | .unary op expr =>
    let inner := o.optimizeExpr expr
    let folded := o.tryEvalConst inner >>= foldUnary op
    let simplified := if o.constantFolding then simplifyUnary op inner else none
    ((folded.map constToExpr) <|> simplified).getD (.unary op inner)

/-! ### One pass is enough -/

section Stable

variable {o : Optimizer} {folded : Option ConstValue} {simplified : Option Expr}
  {e left right : Expr} {op : BinaryOp}

/-- The optimiser leaves the expression as it is, and what the expression negates. -/
def Stable (o : Optimizer) (e : Expr) : Prop :=
  o.optimizeExpr e = e ∧ ∀ x, e = .unary .not x → o.optimizeExpr x = x

theorem stable_getD (hsimplified : ∀ x ∈ simplified, Stable o x)
    (hkept : folded = none → simplified = none → Stable o e) :
    Stable o ((folded.map constToExpr <|> simplified).getD e) := by
  cases folded with
  | some c => cases c <;> exact ⟨rfl, nofun⟩
  | none =>
    cases simplified with
    | some x => exact hsimplified x rfl
    | none => exact hkept rfl rfl

theorem simplifyBinary_cases (h : simplifyBinary op left right = some e) :
    e = left ∨ e = right := by
  unfold simplifyBinary at h
  split at h <;> simp_all

theorem stable_optimizeExpr (o : Optimizer) (e : Expr) : Stable o (o.optimizeExpr e) := by
  induction e with
  | integer | bool => exact ⟨rfl, nofun⟩
  | identifier name =>
    rw [Optimizer.optimizeExpr]
    split
    · cases h : o.lookupConst name with
      | none => exact ⟨by simp [Optimizer.optimizeExpr, h], nofun⟩
      | some c => cases c <;> exact ⟨rfl, nofun⟩
    · next hfold => exact ⟨by simp [Optimizer.optimizeExpr, hfold], nofun⟩
  | binary op left right hl hr =>
    refine stable_getD (fun x hx ↦ ?_) fun hfolded hsimplified ↦ ⟨?_, nofun⟩
    · rcases simplifyBinary_cases (ite_none_right_eq_some.1 hx).2 with rfl | rfl
      · exact hl
      · exact hr
    · rw [Optimizer.optimizeExpr, hl.1, hr.1, hfolded, hsimplified]
      rfl
  | unary op e ih =>
    refine stable_getD (fun x hx ↦ ?_) fun hfolded hsimplified ↦ ⟨?_, fun x hx ↦ ?_⟩
    · obtain ⟨hfold, hx⟩ := ite_none_right_eq_some.1 hx
      unfold simplifyUnary at hx
      split at hx
      · next hinner _ =>
        obtain rfl := some.inj hx
        have hstable := ih.2 _ hinner
        refine ⟨hstable, ?_⟩
        rintro y rfl
        -- a threefold negation would not have been left
        have hkept := ih.1
        rw [hinner, Optimizer.optimizeExpr, hstable] at hkept
        simp [Optimizer.tryEvalConst, simplifyUnary, hfold] at hkept
        grind [congrArg sizeOf hkept]
      · cases hx
    · rw [Optimizer.optimizeExpr, ih.1, hfolded, hsimplified]
      rfl
    · obtain ⟨-, rfl⟩ := Expr.unary.inj hx
      exact ih.1

/-- **One pass is enough.** Optimising an optimised expression changes nothing. -/
theorem optimizeExpr_idem (o : Optimizer) (e : Expr) :
    o.optimizeExpr (o.optimizeExpr e) = o.optimizeExpr e :=
  (stable_optimizeExpr o e).1

end Stable

end CellScript.Optimize
