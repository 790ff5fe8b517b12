import CellScript.Optimize.Lowering
import Mathlib.Tactic.Ring

/-!
# Arithmetic at a width

The values of a type, and what the emitted code computes from them when every operand has a type
that widens to the type of the result. Such an operation depends on the values alone (`runAt`); it
agrees with untyped arithmetic on naturals as long as the operands and the result fit the type
(`runAt_of_untyped`), and the neutral operands of `simplify_binary` are neutral
(`runAt_of_rightNeutral`, `runAt_of_leftNeutral`).
-/

namespace CellScript.Optimize

open BinaryOp

/-! ### Values of a type -/

namespace IntTy

/-- The integers that a variable of the type can hold. -/
def InRange (ty : IntTy) (x : ℤ) : Prop :=
  if ty = i32 then -2 ^ 31 ≤ x ∧ x < 2 ^ 31 else 0 ≤ x ∧ x < 2 ^ ty.width

variable {n : ℕ} {ty ty' : IntTy}

theorem Fits.inRange (h : ty.Fits n) : ty.InRange n := by
  cases ty <;> simp [Fits, limit, InRange, width] at h ⊢ <;> omega

theorem InRange.fits (h : ty.InRange n) : ty.Fits n := by
  cases ty <;> simp [Fits, limit, InRange, width] at h ⊢ <;> omega

theorem InRange.mono {x : ℤ} (h : ty.InRange x) (hle : ty.WidensTo ty') : ty'.InRange x := by
  obtain rfl | hle := hle
  · exact h
  · cases ty <;> cases ty' <;> simp [InRange, isUnsigned, width] at h hle ⊢ <;> omega

theorem WidensTo.refl (ty : IntTy) : ty.WidensTo ty := Or.inl rfl

/-- A type that widens to another unsigned type is unsigned; only `i32` widens to `i32`. -/
theorem WidensTo.eq_i32_iff (h : ty.WidensTo ty') : ty = i32 ↔ ty' = i32 := by
  obtain rfl | ⟨h, h', -⟩ := h
  · rfl
  · constructor
    · rintro rfl
      cases h
    · rintro rfl
      cases h'

theorem WidensTo.ne_u128 (h : ty.WidensTo ty') (h' : ty' ≠ u128) : ty ≠ u128 := by
  rintro rfl
  cases ty' <;> simp_all [WidensTo, isUnsigned, width]

theorem fits_defaultTy (h : n < 2 ^ 128) : (defaultTy n).Fits n := by
  unfold defaultTy
  split
  · assumption
  · exact h

end IntTy

variable {ty : IntTy} {x y z : ℤ} {op : BinaryOp} {a b c w n : ℕ}

/-- **Narrowing is the identity on values of the type.** -/
theorem narrow_ofInt (hty : ty ≠ .u128) (h : ty.InRange x) :
    (Ty.int ty).narrow (BitVec.ofInt 64 x) = x := by
  cases ty with
  | u128 => exact absurd rfl hty
  | i32 =>
    simp only [IntTy.InRange, if_true] at h
    simp only [Ty.narrow, BitVec.toInt_setWidth, BitVec.toNat_ofInt, Int.bmod_def]
    omega
  | _ =>
    simp only [IntTy.InRange, IntTy.width, reduceCtorEq, if_false] at h
    simp only [Ty.narrow, IntTy.width, BitVec.toNat_ofInt]
    omega

theorem narrow_inRange (hty : ty ≠ .u128) (word : BitVec 64) :
    ty.InRange ((Ty.int ty).narrow word) := by
  cases ty with
  | u128 => exact absurd rfl hty
  | i32 =>
    have h := BitVec.two_mul_toInt_lt (x := word.setWidth 32)
    have h' := BitVec.le_two_mul_toInt (x := word.setWidth 32)
    simp only [IntTy.InRange, if_true, Ty.narrow]
    omega
  | _ =>
    simp only [IntTy.InRange, IntTy.width, reduceCtorEq, if_false, Ty.narrow]
    omega

/-! ### Operations at a width -/

/-- An operation with a result of type `ty` on operands of that type; shift amounts are words. -/
def runAt (ty : IntTy) (op : BinaryOp) (x y : ℤ) : Option ℤ :=
  runBinary (.int ty) op (.int ty) (.int (if op.isShift then .u64 else ty)) x y

/-- **Operand types do not matter below the type of the result.** -/
theorem runBinary_eq_runAt {left right : IntTy} (hleft : left.WidensTo ty)
    (hright : if op.isShift then right.isShiftCount else right.WidensTo ty) (x y : ℤ) :
    runBinary (.int ty) op (.int left) (.int right) x y = runAt ty op x y := by
  unfold runAt runBinary
  by_cases hty : ty = .u128
  · rw [if_pos (by rw [hty]), if_pos (by rw [hty])]
  · have hsigned := hleft.eq_i32_iff
    have hwide := hleft.ne_u128 hty
    by_cases hop : op.isShift
    · rw [if_pos hop] at hright
      have hr : right ≠ .u128 ∧ right ≠ .i32 := by cases right <;> simp_all [IntTy.isShiftCount]
      simp [hty, hwide, hop, hr, hsigned]
    · rw [if_neg hop] at hright
      simp [hty, hwide, hop, hright.ne_u128 hty, hsigned, hright.eq_i32_iff]

/-! ### Untyped arithmetic -/

/-- Arithmetic on naturals that stay below `2 ^ w`. -/
def untypedWord (w : ℕ) (op : BinaryOp) (a b : ℕ) : Option ℕ :=
  match op with
  | .add => if a + b < 2 ^ w then some (a + b) else none
  | .sub => if b ≤ a then some (a - b) else none
  | .mul => if a * b < 2 ^ w then some (a * b) else none
  | .div => if b = 0 then none else some (a / b)
  | .mod => if b = 0 then none else some (a % b)
  | .bitAnd => some (a &&& b)
  | .bitOr => some (a ||| b)
  | .bitXor => some (a ^^^ b)
  | _ => none

/-- Arithmetic on literals whose type is not known: at 64 bits when both need no more, at 128 bits
when both need more, and otherwise only the shift of a large literal by a small one. -/
def untyped (op : BinaryOp) (a b : ℕ) : Option ℕ :=
  if a < 2 ^ 64 ∧ b < 2 ^ 64 then
    match op with
    | .shl => if b < 64 ∧ a <<< b < 2 ^ 64 then some (a <<< b) else none
    | .shr => if b < 64 then some (a >>> b) else none
    | _ => untypedWord 64 op a b
  else if 2 ^ 64 ≤ a ∧ 2 ^ 64 ≤ b then untypedWord 128 op a b
  else if 2 ^ 64 ≤ a then
    match op with
    | .shl => if b < 128 then some (a <<< b % 2 ^ 128) else none
    | .shr => if b < 128 then some (a >>> b) else none
    | _ => none
  else none

/-- The negation of a literal, at 64 bits when it needs no more. -/
def untypedNeg (a : ℕ) : ℕ := if a < 2 ^ 64 then (2 ^ 64 - a) % 2 ^ 64 else 2 ^ 128 - a

theorem untypedWord_lt (ha : a < 2 ^ w) (hb : b < 2 ^ w)
    (h : untypedWord w op a b = some c) : c < 2 ^ w := by
  cases op <;> simp only [untypedWord, ite_none_right_eq_some, ite_none_left_eq_some,
    some.injEq, reduceCtorEq] at h
  case add => obtain ⟨h, rfl⟩ := h; exact h
  case sub => obtain ⟨-, rfl⟩ := h; omega
  case mul => obtain ⟨h, rfl⟩ := h; exact h
  case div => obtain ⟨-, rfl⟩ := h; exact (Nat.div_le_self a b).trans_lt ha
  case mod => obtain ⟨-, rfl⟩ := h; exact (Nat.mod_le a b).trans_lt ha
  case bitAnd => subst h; exact Nat.and_lt_two_pow a hb
  case bitOr => subst h; exact Nat.or_lt_two_pow ha hb
  case bitXor => subst h; exact Nat.xor_lt_two_pow ha hb

/-- An untyped result needs more than 64 bits only if the left operand does. -/
theorem untyped_lt_of_lt (ha : a < 2 ^ 64) (h : untyped op a b = some c) : c < 2 ^ 64 := by
  unfold untyped at h
  rw [if_neg (show ¬(2 ^ 64 ≤ a ∧ 2 ^ 64 ≤ b) by omega), if_neg (show ¬2 ^ 64 ≤ a by omega)] at h
  split at h
  · rename_i hab
    split at h
    · simp only [ite_none_right_eq_some, some.injEq] at h
      obtain ⟨h, rfl⟩ := h
      exact h.2
    · simp only [ite_none_right_eq_some, some.injEq] at h
      obtain ⟨-, rfl⟩ := h
      exact (Nat.shiftRight_le a b).trans_lt ha
    · exact untypedWord_lt hab.1 hab.2 h
  · cases h

theorem untyped_lt (ha : a < 2 ^ 128) (hb : b < 2 ^ 128)
    (h : untyped op a b = some c) : c < 2 ^ 128 := by
  rcases Nat.lt_or_ge a (2 ^ 64) with hlt | hge
  · exact (untyped_lt_of_lt hlt h).trans (by decide)
  · unfold untyped at h
    rw [if_neg (by omega)] at h
    split at h
    · exact untypedWord_lt ha hb h
    · split at h
      · simp only [ite_none_right_eq_some, some.injEq] at h
        obtain ⟨-, rfl⟩ := h
        exact mod_lt _ (by norm_num)
      · simp only [ite_none_right_eq_some, some.injEq] at h
        obtain ⟨-, rfl⟩ := h
        exact (Nat.shiftRight_le a b).trans_lt ha
      · cases h

/-! ### Agreement of the two -/

theorem runWide_of_untypedWord (hw : w ≤ 128) (h : untypedWord w op a b = some c) :
    runWide op a b = some (c : ℤ) := by
  have hle : 2 ^ w ≤ 2 ^ 128 := Nat.pow_le_pow_right (by decide) hw
  cases op <;> simp only [untypedWord, ite_none_right_eq_some, ite_none_left_eq_some,
    some.injEq, reduceCtorEq] at h
  case add => obtain ⟨h, rfl⟩ := h; exact if_pos (h.trans_le hle)
  case sub => obtain ⟨h, rfl⟩ := h; exact if_pos h
  case mul => obtain ⟨h, rfl⟩ := h; exact if_pos (h.trans_le hle)
  case div => obtain ⟨h, rfl⟩ := h; exact if_neg h
  case mod => obtain ⟨h, rfl⟩ := h; exact if_neg h
  all_goals subst h; rfl

theorem runWide_of_untyped (hb : op.isShift → b < 128)
    (h : untyped op a b = some c) : runWide op a b = some (c : ℤ) := by
  unfold untyped at h
  split at h
  · rename_i hab
    split at h
    · obtain ⟨h, heq⟩ := ite_none_right_eq_some.1 h
      obtain rfl := some.inj heq
      rw [runWide, if_pos (hb rfl), mod_eq_of_lt (by omega)]
    · obtain ⟨-, heq⟩ := ite_none_right_eq_some.1 h
      obtain rfl := some.inj heq
      exact if_pos (hb rfl)
    · exact runWide_of_untypedWord (by decide) h
  · split at h
    · exact runWide_of_untypedWord le_rfl h
    · split at h
      · split at h
        · obtain ⟨hlt, heq⟩ := ite_none_right_eq_some.1 h
          obtain rfl := some.inj heq
          exact if_pos hlt
        · obtain ⟨hlt, heq⟩ := ite_none_right_eq_some.1 h
          obtain rfl := some.inj heq
          exact if_pos hlt
        · cases h
      · cases h

/-- The signed instructions agree with the unsigned ones on words below `2 ^ 63`. -/
theorem sdiv_of_lt {x y : BitVec 64} (hx : x.toNat < 2 ^ 63) (hy : y.toNat < 2 ^ 63) :
    x.sdiv y = x / y := by
  rw [BitVec.sdiv_eq, msb_eq_false_iff_two_mul_lt.2 (by omega),
    msb_eq_false_iff_two_mul_lt.2 (by omega)]
  rfl

theorem srem_of_lt {x y : BitVec 64} (hx : x.toNat < 2 ^ 63) (hy : y.toNat < 2 ^ 63) :
    x.srem y = x % y := by
  rw [BitVec.srem_eq, msb_eq_false_iff_two_mul_lt.2 (by omega),
    msb_eq_false_iff_two_mul_lt.2 (by omega)]

theorem ofNat_div (ha : a < 2 ^ 64) (hb : b < 2 ^ 64) :
    BitVec.ofNat 64 a / BitVec.ofNat 64 b = BitVec.ofNat 64 (a / b) := by
  apply eq_of_toNat_eq
  rw [BitVec.toNat_udiv, toNat_ofNat, toNat_ofNat, toNat_ofNat, mod_eq_of_lt ha, mod_eq_of_lt hb,
    mod_eq_of_lt ((Nat.div_le_self a b).trans_lt ha)]

theorem ofNat_mod (ha : a < 2 ^ 64) (hb : b < 2 ^ 64) :
    BitVec.ofNat 64 a % BitVec.ofNat 64 b = BitVec.ofNat 64 (a % b) := by
  apply eq_of_toNat_eq
  rw [BitVec.toNat_umod, toNat_ofNat, toNat_ofNat, toNat_ofNat,
    mod_eq_of_lt ha, mod_eq_of_lt hb, mod_eq_of_lt ((Nat.mod_le a b).trans_lt ha)]

theorem ofNat_ushiftRight (ha : a < 2 ^ 64) :
    BitVec.ofNat 64 a >>> b = BitVec.ofNat 64 (a >>> b) := by
  apply eq_of_toNat_eq
  rw [toNat_ushiftRight, toNat_ofNat, toNat_ofNat, mod_eq_of_lt ha,
    mod_eq_of_lt ((Nat.shiftRight_le a b).trans_lt ha)]

theorem ofNat_shiftLeft : BitVec.ofNat 64 a <<< b = BitVec.ofNat 64 (a <<< b) := by
  apply eq_of_toNat_eq
  rw [BitVec.toNat_shiftLeft, toNat_ofNat, toNat_ofNat, Nat.shiftLeft_eq,
    Nat.shiftLeft_eq, Nat.mod_mul_mod]

theorem ofNat_eq_zero_iff (hb : b < 2 ^ 64) : BitVec.ofNat 64 b = 0 ↔ b = 0 := by
  rw [← BitVec.toNat_inj, toNat_ofNat, mod_eq_of_lt hb]
  rfl

namespace IntTy

theorem Fits.lt (hty : ty ≠ u128) (h : ty.Fits n) : n < 2 ^ 64 := by
  cases ty <;> simp [Fits, limit, width] at h hty ⊢ <;> omega

theorem Fits.lt_two_pow_31 (h : i32.Fits n) : n < 2 ^ 31 := h

end IntTy

theorem shiftWidth_int (hty : ty ≠ .u128) : (Ty.int ty).shiftWidth = ty.width := by
  cases ty <;> first | rfl | exact absurd rfl hty

/-- An arithmetic shift of a non-negative `i32`. -/
theorem sshiftRight_of_lt (ha : a < 2 ^ 31) :
    (((BitVec.ofNat 64 a).setWidth 32).signExtend 64).sshiftRight b =
      BitVec.ofNat 64 (a >>> b) := by
  have hmsb : ((BitVec.ofNat 64 a).setWidth 32).msb = false := by
    rw [msb_eq_false_iff_two_mul_lt, toNat_setWidth, toNat_ofNat]
    omega
  have hx : ((BitVec.ofNat 64 a).setWidth 32).signExtend 64 = BitVec.ofNat 64 a := by
    rw [BitVec.signExtend_eq_setWidth_of_msb_false hmsb]
    apply eq_of_toNat_eq
    simp only [toNat_setWidth, toNat_ofNat]
    omega
  have hmsb' : (BitVec.ofNat 64 a).msb = false := by
    rw [msb_eq_false_iff_two_mul_lt, toNat_ofNat]
    omega
  rw [hx, BitVec.sshiftRight_eq_of_msb_false hmsb', ofNat_ushiftRight (by omega)]

/-- The word that `emit_binary` computes from two fitting literals is the untyped result. -/
theorem runWord_of_untyped (hty : ty ≠ .u128)
    (ha : ty.Fits a) (hb : if op.isShift then b < ty.width else ty.Fits b)
    (h : untyped op a b = some c) (hc : ty.Fits c) :
    runWord (.int ty) (ty = .i32) op (BitVec.ofInt 64 a) (BitVec.ofInt 64 b) = some (c : ℤ) := by
  have ha' := ha.lt hty
  have hb' : b < 2 ^ 64 := by
    split at hb
    · have : ty.width ≤ 64 := by cases ty <;> simp_all [IntTy.width]
      omega
    · exact hb.lt hty
  have hnarrow := narrow_ofInt hty hc.inRange
  unfold untyped at h
  rw [if_pos ⟨ha', hb'⟩] at h
  simp only [ofInt_natCast] at hnarrow ⊢
  -- for a signed type both literals are small enough that the signed instructions are unsigned
  have hsigned : decide (ty = .i32) = true →
      (BitVec.ofNat 64 a).toNat < 2 ^ 63 ∧
          (op.isShift = false → (BitVec.ofNat 64 b).toNat < 2 ^ 63) := by
    intro hi
    obtain rfl := of_decide_eq_true hi
    have := ha.lt_two_pow_31
    refine ⟨by rw [toNat_ofNat]; omega, fun hop ↦ ?_⟩
    rw [if_neg (by simp [hop])] at hb
    have := hb.lt_two_pow_31
    rw [toNat_ofNat]
    omega
  cases op <;> simp only [untypedWord, ite_none_right_eq_some,
    ite_none_left_eq_some, some.injEq, reduceCtorEq] at h
  case add => obtain ⟨-, rfl⟩ := h; rw [runWord, ← ofNat_add, hnarrow]
  case sub =>
    obtain ⟨hle, rfl⟩ := h
    rw [runWord, ofNat_sub_ofNat_of_le a b hb' hle, hnarrow]
  case mul => obtain ⟨-, rfl⟩ := h; rw [runWord, ← BitVec.ofNat_mul, hnarrow]
  case div =>
    obtain ⟨hzero, rfl⟩ := h
    have hdiv : (if decide (ty = .i32) = true then (BitVec.ofNat 64 a).sdiv (BitVec.ofNat 64 b)
        else BitVec.ofNat 64 a / BitVec.ofNat 64 b) = BitVec.ofNat 64 (a / b) := by
      rw [← ofNat_div ha' hb']
      split
      · rename_i hi
        exact sdiv_of_lt (hsigned hi).1 ((hsigned hi).2 rfl)
      · rfl
    rw [runWord, if_neg (mt (ofNat_eq_zero_iff hb').1 hzero), hdiv, hnarrow]
  case mod =>
    obtain ⟨hzero, rfl⟩ := h
    have hmod : (if decide (ty = .i32) = true then (BitVec.ofNat 64 a).srem (BitVec.ofNat 64 b)
        else BitVec.ofNat 64 a % BitVec.ofNat 64 b) = BitVec.ofNat 64 (a % b) := by
      rw [← ofNat_mod ha' hb']
      split
      · rename_i hi
        exact srem_of_lt (hsigned hi).1 ((hsigned hi).2 rfl)
      · rfl
    rw [runWord, if_neg (mt (ofNat_eq_zero_iff hb').1 hzero), hmod, hnarrow]
  case bitAnd => subst h; rw [runWord, ← BitVec.ofNat_and, hnarrow]
  case bitOr => subst h; rw [runWord, ← BitVec.ofNat_or, hnarrow]
  case bitXor => subst h; rw [runWord, ← BitVec.ofNat_xor, hnarrow]
  case shl =>
    obtain ⟨-, rfl⟩ := h
    replace hb : b < ty.width := hb
    rw [runWord, toNat_ofNat, mod_eq_of_lt hb', shiftWidth_int hty, if_pos hb,
      ofNat_shiftLeft, hnarrow]
  case shr =>
    obtain ⟨-, rfl⟩ := h
    replace hb : b < ty.width := hb
    have hshr : (if Ty.int ty = .int .i32 then
        (((BitVec.ofNat 64 a).setWidth 32).signExtend 64).sshiftRight b
        else BitVec.ofNat 64 a >>> b) = BitVec.ofNat 64 (a >>> b) := by
      split
      · rename_i hi
        obtain rfl := Ty.int.inj hi
        exact sshiftRight_of_lt ha.lt_two_pow_31
      · exact ofNat_ushiftRight ha'
    rw [runWord, toNat_ofNat, mod_eq_of_lt hb', shiftWidth_int hty, if_pos hb, hshr, hnarrow]

/-- **Folding agrees with the width** as long as nothing leaves the type and a shift amount stays
below its width. -/
theorem runAt_of_untyped (ha : ty.Fits a) (hb : if op.isShift then b < ty.width else ty.Fits b)
    (h : untyped op a b = some c) (hc : ty.Fits c) : runAt ty op a b = some (c : ℤ) := by
  unfold runAt runBinary
  by_cases hty : ty = .u128
  · subst hty
    exact runWide_of_untyped (fun hop ↦ by rw [if_pos hop] at hb; exact hb) h
  · rw [if_neg (by simp [hty]), if_neg (by split <;> simp [hty])]
    rw [← runWord_of_untyped hty ha hb h hc]
    congr 1
    split <;> simp

/-- A shift amount that is not below the width traps. -/
theorem runAt_none (hop : op.isShift)
    (hb : b < 2 ^ 64) (h : ty.width ≤ b) : runAt ty op x b = none := by
  unfold runAt runBinary
  by_cases hty : ty = .u128
  · subst hty
    have hlt : ¬b < 128 := not_lt.2 h
    cases op <;> first | exact if_neg hlt | cases hop
  · rw [if_neg (by simp [hty]), if_neg (by simp [hty, hop])]
    have hlt : ¬(BitVec.ofInt 64 (b : ℤ)).toNat < (Ty.int ty).shiftWidth := by
      rw [ofInt_natCast, toNat_ofNat, shiftWidth_int hty]
      omega
    cases op <;> first | exact if_neg hlt | cases hop

/-! ### Results and neutral operands -/

/-- **Results are values of the type.** -/
theorem runAt_inRange (hop : op.isArithmetic) (hx : ty.InRange x)
    (hy : op.isShift = false → ty.InRange y) (h : runAt ty op x y = some z) : ty.InRange z := by
  unfold runAt runBinary at h
  by_cases hty : ty = .u128
  · subst hty
    rw [if_pos rfl] at h
    replace hx : 0 ≤ x ∧ x < 2 ^ 128 := hx
    have hxn : x.toNat < 2 ^ 128 := by omega
    suffices hz : ∃ n : ℕ, z = n ∧ n < 2 ^ 128 by
      obtain ⟨n, rfl, hn⟩ := hz
      exact IntTy.Fits.inRange hn
    have hyn : op.isShift = false → y.toNat < 2 ^ 128 := fun hop ↦ by
      have hy : 0 ≤ y ∧ y < 2 ^ 128 := hy hop
      omega
    cases op <;> simp only [runWide, ite_none_right_eq_some,
      ite_none_left_eq_some, some.injEq, reduceCtorEq] at h
    case add => exact ⟨_, h.2.symm, h.1⟩
    case sub => exact ⟨_, h.2.symm, by omega⟩
    case mul => exact ⟨_, h.2.symm, h.1⟩
    case div => exact ⟨_, h.2.symm, (Nat.div_le_self _ _).trans_lt hxn⟩
    case mod => exact ⟨_, h.2.symm, (Nat.mod_le _ _).trans_lt hxn⟩
    case bitAnd => exact ⟨_, h.symm, Nat.and_lt_two_pow _ (hyn rfl)⟩
    case bitOr => exact ⟨_, h.symm, Nat.or_lt_two_pow hxn (hyn rfl)⟩
    case bitXor => exact ⟨_, h.symm, Nat.xor_lt_two_pow hxn (hyn rfl)⟩
    case shl => exact ⟨_, h.2.symm, mod_lt _ (by norm_num)⟩
    case shr => exact ⟨_, h.2.symm, (Nat.shiftRight_le _ _).trans_lt hxn⟩
  · rw [if_neg (by simp [hty]), if_neg (by split <;> simp [hty])] at h
    obtain ⟨word, rfl⟩ : ∃ word, z = (Ty.int ty).narrow word := by
      cases op <;> simp only [runWord, ite_none_right_eq_some,
        ite_none_left_eq_some, some.injEq] at h <;>
        first | exact ⟨_, h.symm⟩ | exact ⟨_, h.2.symm⟩
    exact narrow_inRange hty word

/-- The right operands that `simplify_binary` removes. -/
def RightNeutral (op : BinaryOp) (n : ℕ) : Prop :=
  (op = .add ∨ op = .sub) ∧ n = 0 ∨ (op = .mul ∨ op = .div) ∧ n = 1

/-- The left operands that `simplify_binary` removes. -/
def LeftNeutral (op : BinaryOp) (n : ℕ) : Prop :=
  op = .add ∧ n = 0 ∨ op = .mul ∧ n = 1

theorem runAt_of_rightNeutral (h : RightNeutral op n) (hx : ty.InRange x) :
    runAt ty op x n = some x := by
  unfold runAt runBinary
  by_cases hty : ty = .u128
  · subst hty
    replace hx : 0 ≤ x ∧ x < 2 ^ 128 := hx
    obtain ⟨rfl | rfl, rfl⟩ | ⟨rfl | rfl, rfl⟩ := h <;> simp [runWide] <;> omega
  · rw [if_neg (by simp [hty]), if_neg (by split <;> simp [hty])]
    have hnarrow := narrow_ofInt hty hx
    obtain ⟨rfl | rfl, rfl⟩ | ⟨rfl | rfl, rfl⟩ := h
    · simp [runWord, hnarrow]
    · simp [runWord, hnarrow]
    · simp [runWord, hnarrow]
    · have hone : BitVec.ofInt 64 ((1 : ℕ) : ℤ) = 1#64 := rfl
      rw [runWord, hone, if_neg (by decide), BitVec.sdiv_one, BitVec.udiv_one, ite_self, hnarrow]

theorem runAt_of_leftNeutral (h : LeftNeutral op n) (hy : ty.InRange y) :
    runAt ty op n y = some y := by
  unfold runAt runBinary
  by_cases hty : ty = .u128
  · subst hty
    replace hy : 0 ≤ y ∧ y < 2 ^ 128 := hy
    obtain ⟨rfl, rfl⟩ | ⟨rfl, rfl⟩ := h <;> simp [runWide] <;> omega
  · rw [if_neg (by simp [hty]), if_neg (by split <;> simp [hty])]
    have hnarrow := narrow_ofInt hty hy
    obtain ⟨rfl, rfl⟩ | ⟨rfl, rfl⟩ := h
    · simp [runWord, hnarrow]
    · simp [runWord, hnarrow]

/-- Negating a literal of at most 64 bits. -/
theorem runAt_sub_zero_of_lt (ha : a < 2 ^ 64) : runAt .u64 .sub 0 a = some (untypedNeg a : ℤ) := by
  simp only [runAt, runBinary, reduceCtorEq, Ty.int.injEq, if_false, or_self, runWord, Ty.narrow,
    ofInt_natCast, untypedNeg, if_pos ha, IntTy.width, isShift, false_eq_true]
  congr 2
  simp only [BitVec.toNat_sub, toNat_ofNat, BitVec.toNat_ofInt]
  omega

/-- Negating a larger one traps: a `u128` subtraction below zero. -/
theorem runAt_sub_zero_of_le (ha : 2 ^ 64 ≤ a) : runAt .u128 .sub 0 a = none := by
  have hlt : ¬a ≤ 0 := by omega
  simp [runAt, runBinary, runWide, hlt]

end CellScript.Optimize
