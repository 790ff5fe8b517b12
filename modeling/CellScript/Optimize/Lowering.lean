import CellScript.CompileError
import CellScript.Library.Fallible
import CellScript.Optimize.Fold

/-!
# Typing, lowering and running integer expressions

What becomes of an integer expression after the optimiser: the type checker's two modes
(`infer_expr`, and `infer_expr_with_expected_type` where a type is expected), the lowering's two
modes, which follow them, and the code emitted for the lowered operations.

Where a type is expected, literals and the operands of arithmetic take it. The operand of a negation
and the amount of a shift are lowered without one: a literal there is a `u64`, or a `u128` when it
needs one, unless the other operand of its operation gives it a type.

`usize` and `isize`, and how the code generator finds storage for `u128` operands, are left out.
-/

namespace CellScript.Optimize

inductive Ty
  | int (ty : IntTy)
  | bool
  deriving DecidableEq, Repr

/-! ### Types of literals and constants -/

/-- `default_integer_const`: the type of a literal where none is expected. -/
def defaultTy (value : ℕ) : IntTy := if value < 2 ^ 64 then .u64 else .u128

def ConstDef.ty : ConstDef → Ty
  | .int ty value _ => .int (ty.getD (defaultTy value.toNat))
  | .bool _ => .bool

namespace IntTy

def isUnsigned : IntTy → Bool
  | i32 => false
  | _ => true

/-- `unsigned_widening_result_type`. -/
def widening (left right : IntTy) : Option IntTy :=
  if left.isUnsigned ∧ right.isUnsigned then
    some (if left.width ≤ right.width then right else left)
  else none

/-- `require_numeric_operand_widenable`: an operand of type `actual` may stand where `expected` is
expected. -/
def WidensTo (actual expected : IntTy) : Prop :=
  actual = expected ∨
    actual.isUnsigned ∧ expected.isUnsigned ∧ actual.width ≤ expected.width

instance (actual expected : IntTy) : Decidable (actual.WidensTo expected) :=
  inferInstanceAs (Decidable (_ ∨ _))

def repr : IntTy → String
  | u8 => "u8"
  | u16 => "u16"
  | u32 => "u32"
  | u64 => "u64"
  | u128 => "u128"
  | i32 => "i32"

/-- `is_unsigned_shift_count_type`. -/
def isShiftCount : IntTy → Bool
  | u8 | u16 | u32 | u64 => true
  | _ => false

end IntTy

/-! ### Type checking -/

section Typing

variable (scope : String → Option ConstDef)

/-- `integer_literal_type_for_expected`. -/
def integerLiteralTypeForExpected (value : ℕ) (expected : IntTy) : Result IntTy :=
  if expected.Fits value then pure expected
  else throw ((CompileError.new
    s!"integer literal {value} does not fit expected type {expected.repr}").withCode .E1030)

/-- `numeric_binary_result_type`: equal types, or a literal that takes the other side's type, or
unsigned types, of which the wider one is taken. -/
def numericBinaryResultType (left : Expr) (leftTy : IntTy) (right : Expr) (rightTy : IntTy) :
    Result IntTy :=
  if leftTy = rightTy then pure leftTy
  else
    match left, right with
    | .integer value, _ => integerLiteralTypeForExpected value.toNat rightTy
    | _, .integer value => integerLiteralTypeForExpected value.toNat leftTy
    | _, _ =>
      match leftTy.widening rightTy with
      | some ty => pure ty
      | none => throw (.new "arithmetic operations require matching numeric types")

/-- A shift by a literal amount is checked against the width. -/
def checkShiftAmount (amount : Expr) (ty : IntTy) : Result Unit :=
  match amount with
  | .integer amount =>
    if ty.width ≤ amount.toNat then
      throw ((CompileError.new
        s!"shift amount {amount.toNat} is out of range for {ty.width}-bit {ty.repr}").withCode
          .E2106)
    else pure ()
  | _ => pure ()

/-- `binary_operand_types_compatible`. -/
def binaryOperandTypesCompatible (left : Expr) (leftTy : Ty) (right : Expr) (rightTy : Ty) :
    Result Bool :=
  if leftTy = rightTy then pure true
  else
    match left, right, leftTy, rightTy with
    | .integer value, _, _, .int rightTy => do
      let _ ← integerLiteralTypeForExpected value.toNat rightTy
      pure true
    | _, .integer value, .int leftTy, _ => do
      let _ ← integerLiteralTypeForExpected value.toNat leftTy
      pure true
    | _, _, _, _ => pure false

/-- The arms of `infer_expr` for a binary operator, after its operands. -/
def inferBinary (op : BinaryOp) (left : Expr) (leftTy : Ty) (right : Expr) (rightTy : Ty) :
    Result Ty :=
  match op with
  | .add | .sub | .mul | .div | .mod =>
    match leftTy, rightTy with
    | .int leftTy, .int rightTy => .int <$> numericBinaryResultType left leftTy right rightTy
    | _, _ => throw (.new "arithmetic operations require numeric types")
  | .bitAnd | .bitOr | .bitXor =>
    match leftTy, rightTy with
    | .int leftTy, .int rightTy => .int <$> numericBinaryResultType left leftTy right rightTy
    | _, _ => throw (.new "bitwise operations require integer types")
  | .shl | .shr =>
    match leftTy, rightTy with
    | .int leftTy, .int rightTy => do
      if !rightTy.isShiftCount then
        throw (.new "shift amount must have type u8, u16, u32, or u64")
      checkShiftAmount right leftTy
      pure (.int leftTy)
    | .int _, .bool => throw (.new "shift amount must have type u8, u16, u32, or u64")
    | .bool, _ => throw (.new "shift left operand must be an integer")
  | .eq | .ne => do
    if !(← binaryOperandTypesCompatible left leftTy right rightTy) then
      throw (.new "comparison requires matching types")
    pure .bool
  | .lt | .le | .gt | .ge =>
    match leftTy, rightTy with
    | .int leftTy, .int rightTy =>
      match numericBinaryResultType left leftTy right rightTy with
      | .ok _ => pure .bool
      -- only a literal that is out of range keeps its own message
      | .error e => throw (if e.code = some .E1030 then e
          else .new "ordering comparison requires matching numeric types")
    | _, _ => throw (.new "ordering comparison requires numeric types")
  | .and | .or =>
    match leftTy, rightTy with
    | .bool, .bool => pure .bool
    | _, _ => throw (.new "logical operations require boolean types")

/-- `infer_expr`. -/
def inferExpr : Expr → Result Ty
  | .integer value => pure (.int (defaultTy value.toNat))
  | .bool _ => pure .bool
  | .identifier name =>
    match scope name with
    | some constant => pure constant.ty
    | none => throw (.new s!"undefined variable '{name}'")
  | .unary op expr => do
    let ty ← inferExpr expr
    match op, ty with
    | .neg, .int ty => pure (.int ty)
    | .neg, .bool => throw (.new "negation requires numeric type")
    | .not, .bool => pure .bool
    | .not, .int _ => throw (.new "logical not requires boolean type")
  | .binary op left right => do
    let leftTy ← inferExpr left
    let rightTy ← inferExpr right
    inferBinary op left leftTy right rightTy

/-- `require_numeric_operand_widenable`. -/
def requireNumericOperandWidenable (actual : Ty) (expected : IntTy) (side : String) : Result Unit :=
  match actual with
  | .int actual =>
    if actual.WidensTo expected then pure ()
    else if actual = .i32 ∨ expected = .i32 then
      throw (.new "arithmetic operations require matching numeric types")
    else
      throw (.new
        s!"binary {side} operand must have expected type {expected.repr}, found {actual.repr}")
  | .bool =>
    if expected = .i32 then throw (.new "arithmetic operations require matching numeric types")
    else
      throw (.new s!"binary {side} operand must have expected type {expected.repr}, found bool")

/-- `infer_expr_with_expected_type`, with `infer_numeric_binary_with_expected_type` for the binary
operators. Operands other than literals and binary expressions fall through to `infer_expr`. -/
def inferExprWithExpectedType (expected : IntTy) : Expr → Result Ty
  | .integer value => .int <$> integerLiteralTypeForExpected value.toNat expected
  | .binary op left right =>
    if op.isArithmetic then do
      let leftTy ← inferExprWithExpectedType expected left
      requireNumericOperandWidenable leftTy expected "left"
      if op.isShift then
        match ← inferExpr scope right with
        | .int rightTy =>
          if !rightTy.isShiftCount then
            throw (.new "shift amount must have type u8, u16, u32, or u64")
          checkShiftAmount right expected
          pure (.int expected)
        | .bool => throw (.new "shift amount must have type u8, u16, u32, or u64")
      else
        let rightTy ← inferExprWithExpectedType expected right
        requireNumericOperandWidenable rightTy expected "right"
        pure (.int expected)
    else inferExpr scope (.binary op left right)
  | expr => inferExpr scope expr

/-- The expression is accepted where `expected` is expected. -/
def Accepted (expected : IntTy) (expr : Expr) : Prop :=
  inferExprWithExpectedType scope expected expr = .ok (.int expected)

instance (expected : IntTy) (expr : Expr) : Decidable (Accepted scope expected expr) :=
  inferInstanceAs (Decidable (_ = _))

end Typing

/-! ### Lowering -/

/-- A lowered expression: every operation with the type of its destination. -/
inductive Code
  | const (ty : Ty) (value : ℤ)
  | unary (ty : Ty) (op : UnaryOp) (operand : Code)
  | binary (ty : Ty) (op : BinaryOp) (left right : Code)
  deriving DecidableEq, Repr

/-- `operand_type`. -/
def Code.ty : Code → Ty
  | .const ty _ => ty
  | .unary ty _ _ => ty
  | .binary ty _ _ _ => ty

/-- A literal without an expected type. -/
def defaultLiteral (value : ℕ) : Code := .const (.int (defaultTy value)) value

/-- `integer_operand_for_expected_type`, and the default type for a literal that does not fit. -/
def literalFor (value : ℕ) : Ty → Code
  | .int ty => if ty.Fits value then .const (.int ty) value else defaultLiteral value
  | .bool => defaultLiteral value

/-- `binary_result_type_for_operands`. -/
def binaryResultType (op : BinaryOp) (left right : Ty) : Ty :=
  match op with
  | .add | .sub | .mul | .div | .mod | .bitAnd | .bitOr | .bitXor =>
    if left = right then left
    else
      match left, right with
      | .int left, .int right => .int ((left.widening right).getD .u64)
      | _, _ => .int .u64
  | .shl | .shr => left
  | _ => .bool

/-- `unary_result_type`. -/
def unaryResultType (op : UnaryOp) (operand : Ty) : Ty :=
  match op with
  | .neg => operand
  | .not => .bool

/-- A written literal takes the type of the other operand, except in a shift. -/
def adaptOperands (op : BinaryOp) (left right : Expr) (l r : Code) : Code × Code :=
  if op.isShift then (l, r)
  else
    match left, right with
    | .integer value, _ => (literalFor value.toNat r.ty, r)
    | _, .integer value => (l, literalFor value.toNat l.ty)
    | _, _ => (l, r)

section Lowering

variable (scope : String → Option ConstDef)

/-- `lower_constant`; an unresolved name is reported and replaced by zero. -/
def lowerIdentifier (name : String) : Code :=
  match scope name with
  | some (.int ty value _) => .const (.int (ty.getD (defaultTy value.toNat))) value.toNat
  | some (.bool value) => .const .bool value.toInt
  | none => .const (.int .u64) 0

/-- `lower_expr`. -/
def lowerExpr : Expr → Code
  | .integer value => defaultLiteral value.toNat
  | .bool value => .const .bool value.toInt
  | .identifier name => lowerIdentifier scope name
  | .unary op expr =>
    let operand := lowerExpr expr
    .unary (unaryResultType op operand.ty) op operand
  | .binary op left right =>
    let (l, r) := adaptOperands op left right (lowerExpr left) (lowerExpr right)
    .binary (binaryResultType op l.ty r.ty) op l r

/-- `lower_expr_with_expected_type`, with `lower_binary_expr_with_expected_type` for the binary
operators. -/
def lowerExprWithExpectedType (expected : IntTy) : Expr → Code
  | .integer value => literalFor value.toNat (.int expected)
  | .binary op left right =>
    if op.isArithmetic then
      .binary (.int expected) op (lowerExprWithExpectedType expected left)
        (if op.isShift then lowerExpr scope right
          else lowerExprWithExpectedType expected right)
    else lowerExpr scope (.binary op left right)
  | expr => lowerExpr scope expr

end Lowering

/-! ### Running the emitted code -/

/-- The word a 64-bit register holds, read at the type: the zero or sign extension that ends
`emit_binary`. -/
def Ty.narrow (ty : Ty) (word : BitVec 64) : ℤ :=
  match ty with
  | .int .i32 => (word.setWidth 32).toInt
  | .int ty => (word.toNat % 2 ^ ty.width : ℕ)
  | .bool => word.toNat

/-- The bound of `emit_binary` on shift amounts. -/
def Ty.shiftWidth : Ty → ℕ
  | .int .u8 => 8
  | .int .u16 => 16
  | .int .u32 | .int .i32 => 32
  | _ => 64

/-- Registers are compared. -/
def compareWords (op : BinaryOp) (signed : Bool) (x y : BitVec 64) : Bool :=
  match op with
  | .eq => x = y
  | .ne => x ≠ y
  | .lt => if signed then x.slt y else x.ult y
  | .le => !(if signed then y.slt x else y.ult x)
  | .gt => if signed then y.slt x else y.ult x
  | _ => !(if signed then x.slt y else x.ult y)

/-- `emit_binary` on 64-bit registers. `none` is a trap. -/
def runWord (dest : Ty) (signed : Bool) (op : BinaryOp) (x y : BitVec 64) : Option ℤ :=
  match op with
  | .add => some (dest.narrow (x + y))
  | .sub => some (dest.narrow (x - y))
  | .mul => some (dest.narrow (x * y))
  | .div =>
    if y = 0 then none
    else some (dest.narrow (if signed then x.sdiv y else x / y))
  | .mod =>
    if y = 0 then none
    else some (dest.narrow (if signed then x.srem y else x % y))
  | .bitAnd | .and => some (dest.narrow (x &&& y))
  | .bitOr | .or => some (dest.narrow (x ||| y))
  | .bitXor => some (dest.narrow (x ^^^ y))
  | .shl =>
    if y.toNat < dest.shiftWidth then some (dest.narrow (x <<< y.toNat)) else none
  | .shr =>
    if y.toNat < dest.shiftWidth then
      some (dest.narrow
        (if dest = .int .i32 then ((x.setWidth 32).signExtend 64).sshiftRight y.toNat
          else x >>> y.toNat))
    else none
  | _ => some (dest.narrow (BitVec.ofNat 64 (compareWords op signed x y).toNat))

/-- `emit_u128_binary`: arithmetic that would overflow traps. -/
def runWide (op : BinaryOp) (x y : ℕ) : Option ℤ :=
  match op with
  | .add => if x + y < 2 ^ 128 then some (x + y : ℕ) else none
  | .sub => if y ≤ x then some (x - y : ℕ) else none
  | .mul => if x * y < 2 ^ 128 then some (x * y : ℕ) else none
  | .div => if y = 0 then none else some (x / y : ℕ)
  | .mod => if y = 0 then none else some (x % y : ℕ)
  | .bitAnd => some (x &&& y : ℕ)
  | .bitOr => some (x ||| y : ℕ)
  | .bitXor => some (x ^^^ y : ℕ)
  | .shl => if y < 128 then some (x <<< y % 2 ^ 128 : ℕ) else none
  | .shr => if y < 128 then some (x >>> y : ℕ) else none
  | _ => none

/-- `emit_u128_compare`. -/
def runWideComparison (op : BinaryOp) (x y : ℕ) : Option ℤ :=
  match op with
  | .eq => some (decide (x = y)).toInt
  | .ne => some (decide (x ≠ y)).toInt
  | .lt => some (decide (x < y)).toInt
  | .le => some (decide (x ≤ y)).toInt
  | .gt => some (decide (y < x)).toInt
  | .ge => some (decide (y ≤ x)).toInt
  | _ => none

/-- `emit_binary`: the two-limb code for a `u128` result, the two-limb comparison for a `u128`
operand, and 64-bit registers otherwise; the signed instructions when an operand is an `i32`. -/
def runBinary (dest : Ty) (op : BinaryOp) (leftTy rightTy : Ty) (x y : ℤ) : Option ℤ :=
  if dest = .int .u128 then runWide op x.toNat y.toNat
  else if leftTy = .int .u128 ∨ rightTy = .int .u128 then
    runWideComparison op x.toNat y.toNat
  else
    runWord dest (leftTy = .int .i32 ∨ rightTy = .int .i32) op (BitVec.ofInt 64 x)
      (BitVec.ofInt 64 y)

/-- `emit_unary`: negation is a subtraction from zero at the width of the result. -/
def runUnary (dest : Ty) (op : UnaryOp) (operandTy : Ty) (x : ℤ) : Option ℤ :=
  match op with
  | .neg =>
    runBinary dest .sub (if dest = .int .u128 then .int .u128 else .int .u64) operandTy 0 x
  | .not => some (BitVec.ofInt 64 x ^^^ 1).toNat

/-- The value the lowered expression computes; `none` when it traps. -/
def Code.run : Code → Option ℤ
  | .const _ value => some value
  | .unary ty op operand => do runUnary ty op operand.ty (← operand.run)
  | .binary ty op left right => do
    let x ← left.run
    let y ← right.run
    runBinary ty op left.ty right.ty x y

end CellScript.Optimize
