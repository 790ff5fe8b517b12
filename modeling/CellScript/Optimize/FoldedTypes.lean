import CellScript.Optimize.Typed

/-!
# Types of folded operands

Where no type is expected, a literal takes the type of the operand beside it. An operand that folds
becomes such a literal, and its operation may then be performed at a narrower type than before. The
lemmas here say when the type of the operation stays, in terms of the literals and types of its two
operands.
-/

namespace CellScript.Optimize

open BinaryOp IntTy

variable {left : Expr}

variable {right : Expr} {ty : IntTy} {op : BinaryOp} {a b c n : ℕ}

/-! ### Types of literals -/

theorem defaultTy_cases (n : ℕ) :
    n < 2 ^ 64 ∧ defaultTy n = .u64 ∨ 2 ^ 64 ≤ n ∧ defaultTy n = .u128 := by
  unfold defaultTy
  split_ifs with h
  · exact .inl ⟨h, rfl⟩
  · exact .inr ⟨not_lt.1 h, rfl⟩

theorem isUnsigned_defaultTy (n : ℕ) : (defaultTy n).isUnsigned := by
  obtain ⟨-, h⟩ | ⟨-, h⟩ := defaultTy_cases n <;> rw [h] <;> rfl

theorem defaultTy_eq_iff (h : a < 2 ^ 64 → c < 2 ^ 64) :
    defaultTy a = defaultTy c ↔ (2 ^ 64 ≤ a → 2 ^ 64 ≤ c) := by
  unfold defaultTy
  split_ifs with ha hc hc
  · exact iff_of_true rfl (by omega)
  · omega
  · refine iff_of_false (fun h ↦ nomatch h) (by omega)
  · exact iff_of_true rfl (by omega)

theorem width_defaultTy_le (h : (defaultTy b).Fits a) :
    (defaultTy a).width ≤ (defaultTy b).width := by
  obtain ⟨ha, hda⟩ | ⟨ha, hda⟩ := defaultTy_cases a <;>
    obtain ⟨hb, hdb⟩ | ⟨hb, hdb⟩ := defaultTy_cases b <;> rw [hda, hdb]
  · decide
  · rw [hdb] at h
    exact absurd h (not_lt.2 ha)

/-- A shift that folds has its amount below the width of its own left operand. -/
theorem lt_width_of_untyped (hshift : op.isShift) (h : untyped op a b = some c) :
    b < (defaultTy a).width := by
  unfold untyped at h
  unfold defaultTy
  cases op <;> first | exact absurd hshift (by decide) | skip
  all_goals
    simp only [untypedWord] at h
    split_ifs at h ⊢ <;> simp only [IntTy.width] <;> omega

/-- Arithmetic folds only operands of one width. -/
theorem defaultTy_eq_of_untyped (hshift : op.isShift = false)
    (h : untyped op a b = some c) : defaultTy a = defaultTy b := by
  by_cases ha : a < 2 ^ 64 <;> by_cases hb : b < 2 ^ 64
  · rw [defaultTy, defaultTy, if_pos ha, if_pos hb]
  · unfold untyped at h
    rw [if_neg (by omega), if_neg (by omega), if_neg (by omega)] at h
    cases h
  · unfold untyped at h
    rw [if_neg (by omega), if_neg (by omega), if_pos (by omega)] at h
    cases op <;> first | exact absurd hshift (by decide) | cases h
  · rw [defaultTy, defaultTy, if_neg ha, if_neg hb]

theorem fits_of_untyped (ha : a < 2 ^ 128) (hb : b < 2 ^ 128)
    (h : untyped op a b = some c) : (defaultTy a).Fits c := by
  obtain ⟨ha', hda⟩ | ⟨ha', hda⟩ := defaultTy_cases a <;> rw [hda]
  · exact untyped_lt_of_lt ha' h
  · exact untyped_lt ha hb h

/-! ### Operands that may have become literals -/

/-- The types of two operands that may have become literals, and the type of their operation. -/
structure FoldedTypes (left right L R : Expr) (l r ty : IntTy) : Prop where
  result : numericBinaryResultType left l right r = .ok ty
  left_written : ∀ a ∈ left.literal, L.literal = some a
  right_written : ∀ b ∈ right.literal, R.literal = some b
  left_ty : ∀ a ∈ L.literal, l = defaultTy a
  right_ty : ∀ b ∈ R.literal, r = defaultTy b

/-- `KeepsType` for an operand of type `l` that folds to `L`, beside one of type `r`. -/
def Keeps (left L R : Expr) (r : IntTy) : Prop :=
  ∀ a ∈ L.literal, left.literal = none → R.literal = none →
    (defaultTy a).width ≤ r.width ∨ ¬r.Fits a

variable {L R : Expr} {r l : IntTy}

theorem keeps_of_none (h : L.literal = none) : Keeps left L R r :=
  fun a ha ↦ by
    rw [h] at ha
    cases ha

theorem keeps_of_some (h : R.literal = some b) : Keeps left L R r :=
  fun a _ _ hR ↦ by
    rw [h] at hR
    cases hR

theorem keeps_iff (hL : L.literal = some a) (hR : R.literal = none) :
    Keeps left L R r ↔ (left.literal = none → (defaultTy a).width ≤ r.width ∨ ¬r.Fits a) := by
  constructor
  · exact fun h hleft ↦ h a hL hleft hR
  · intro h a' ha' hleft _
    obtain rfl := mem_unique hL ha'
    exact h hleft

theorem join_eq_right_iff (hl : l.isUnsigned) (hr : r.isUnsigned) :
    l.join r = r ↔ l.width ≤ r.width := by
  cases l <;> cases r <;> first | decide | exact absurd hl (by decide) | exact absurd hr (by decide)

theorem join_eq_left_iff (hl : l.isUnsigned) (hr : r.isUnsigned) :
    l.join r = l ↔ r.width ≤ l.width := by
  cases l <;> cases r <;> first | decide | exact absurd hl (by decide) | exact absurd hr (by decide)

namespace FoldedTypes

variable (h : FoldedTypes left right L R l r ty)

include h

theorem left_literal (hL : L.literal = none) : left.literal = none :=
  Option.eq_none_iff_forall_not_mem.2 fun a ha ↦ by
    rw [h.left_written a ha] at hL
    cases hL

theorem right_literal (hR : R.literal = none) : right.literal = none :=
  Option.eq_none_iff_forall_not_mem.2 fun b hb ↦ by
    rw [h.right_written b hb] at hR
    cases hR

/-- The type of an operation on two folded operands is the join of their own types. -/
theorem eq_join_of_literals (hL : L.literal = some a) (hR : R.literal = some b) :
    ty = l.join r := by
  obtain rfl := h.left_ty a hL
  obtain rfl := h.right_ty b hR
  obtain ⟨heq, rfl⟩ | ⟨-, ⟨a', ha', hfits, rfl⟩ | ⟨-, ⟨b', hb', hfits, rfl⟩ | ⟨-, -, -, rfl⟩⟩⟩ :=
    numericBinaryResultType_ok h.result
  · rw [← heq, join_self]
  · obtain rfl := mem_unique (h.left_written a' ha') hL
    exact ((join_eq_right_iff (isUnsigned_defaultTy _) (isUnsigned_defaultTy _)).2
      (width_defaultTy_le hfits)).symm
  · obtain rfl := mem_unique (h.right_written b' hb') hR
    exact ((join_eq_left_iff (isUnsigned_defaultTy _) (isUnsigned_defaultTy _)).2
      (width_defaultTy_le hfits)).symm
  · rfl

/-- A folded left operand beside one that does not fold. -/
theorem join_of_left_literal (hL : L.literal = some a) (hR : R.literal = none) :
    (if r.Fits a then r else l).Compatible r ∧
      ((if r.Fits a then r else l).join r = ty ↔
        (left.literal = none → l.width ≤ r.width ∨ ¬r.Fits a)) := by
  obtain ⟨rfl, rfl⟩ | ⟨-, ⟨a', ha', hfits, rfl⟩ | ⟨hleft, ⟨b, hb, -⟩ | ⟨-, hlu, hru, rfl⟩⟩⟩ :=
    numericBinaryResultType_ok h.result
  · rw [ite_self, join_self]
    exact ⟨.inl rfl, iff_of_true rfl fun _ ↦ .inl le_rfl⟩
  · obtain rfl := mem_unique (h.left_written a' ha') hL
    rw [if_pos hfits, join_self]
    refine ⟨.inl rfl, iff_of_true rfl fun hleft ↦ ?_⟩
    rw [hleft] at ha'
    cases ha'
  · rw [h.right_literal hR] at hb
    cases hb
  · split_ifs with hfits
    · rw [join_self, eq_comm, join_eq_right_iff hlu hru]
      exact ⟨.inl rfl, fun hle _ ↦ .inl hle, fun h ↦ (h hleft).resolve_right (not_not_intro hfits)⟩
    · exact ⟨.inr ⟨hlu, hru⟩, iff_of_true rfl fun _ ↦ .inr hfits⟩

/-- A folded right operand beside one that does not fold. -/
theorem join_of_right_literal (hL : L.literal = none) (hR : R.literal = some b) :
    l.Compatible (if l.Fits b then l else r) ∧
      (l.join (if l.Fits b then l else r) = ty ↔
        (right.literal = none → r.width ≤ l.width ∨ ¬l.Fits b)) := by
  obtain ⟨rfl, rfl⟩ | ⟨-, ⟨a, ha, -⟩ | ⟨-, ⟨b', hb', hfits, rfl⟩ | ⟨hright, hlu, hru, rfl⟩⟩⟩ :=
    numericBinaryResultType_ok h.result
  · rw [ite_self, join_self]
    exact ⟨.inl rfl, iff_of_true rfl fun _ ↦ .inl le_rfl⟩
  · rw [h.left_literal hL] at ha
    cases ha
  · obtain rfl := mem_unique (h.right_written b' hb') hR
    rw [if_pos hfits, join_self]
    refine ⟨.inl rfl, iff_of_true rfl fun hright ↦ ?_⟩
    rw [hright] at hb'
    cases hb'
  · split_ifs with hfits
    · rw [join_self, eq_comm, join_eq_left_iff hlu hru]
      exact ⟨.inl rfl, fun hle _ ↦ .inl hle, fun h ↦ (h hright).resolve_right (not_not_intro hfits)⟩
    · exact ⟨.inr ⟨hlu, hru⟩, iff_of_true rfl fun _ ↦ .inr hfits⟩

/-- **When the operands of an operation have been folded**, they are joined to its type exactly when
no folded literal takes a narrower type from the other operand. -/
theorem join_adaptedTypes_iff :
    ∃ l' r', adaptedTypes L R l r = (l', r') ∧ l'.Compatible r' ∧
      (l'.join r' = ty ↔ Keeps left L R r ∧ Keeps right R L l) := by
  unfold adaptedTypes
  rcases hL : L.literal with - | a <;> rcases hR : R.literal with - | b
  · refine ⟨l, r, rfl, ?_⟩
    obtain ⟨rfl, rfl⟩ | ⟨-, ⟨a, ha, -⟩ | ⟨-, ⟨b, hb, -⟩ | ⟨-, hlu, hru, rfl⟩⟩⟩ :=
      numericBinaryResultType_ok h.result
    · exact ⟨.inl rfl, iff_of_true (join_self _) ⟨keeps_of_none hL, keeps_of_none hR⟩⟩
    · rw [h.left_literal hL] at ha
      cases ha
    · rw [h.right_literal hR] at hb
      cases hb
    · exact ⟨.inr ⟨hlu, hru⟩, iff_of_true rfl ⟨keeps_of_none hL, keeps_of_none hR⟩⟩
  · obtain ⟨hc, hiff⟩ := h.join_of_right_literal hL hR
    refine ⟨_, _, rfl, ?_⟩
    rw [← h.right_ty b hR]
    refine ⟨hc, hiff.trans ?_⟩
    rw [and_iff_right (keeps_of_none hL), keeps_iff hR hL, h.right_ty b hR]
  · obtain ⟨hc, hiff⟩ := h.join_of_left_literal hL hR
    refine ⟨_, _, rfl, ?_⟩
    rw [← h.left_ty a hL]
    refine ⟨hc, hiff.trans ?_⟩
    rw [and_iff_left (keeps_of_none hR), keeps_iff hL hR, h.left_ty a hL]
  · have hty := h.eq_join_of_literals hL hR
    have hl := h.left_ty a hL
    have hr := h.right_ty b hR
    refine ⟨_, _, rfl, ?_⟩
    rw [← hl]
    have hkeeps : Keeps left L R r ∧ Keeps right R L l := ⟨keeps_of_some hR, keeps_of_some hL⟩
    have hlu : l.isUnsigned := hl ▸ isUnsigned_defaultTy a
    have hru : r.isUnsigned := hr ▸ isUnsigned_defaultTy b
    split_ifs with hfits
    · refine ⟨.inl rfl, iff_of_true ?_ hkeeps⟩
      rw [join_self, hty, eq_comm, join_eq_right_iff hlu hru, hl, hr]
      exact width_defaultTy_le (hr ▸ hfits)
    · exact ⟨.inr ⟨hlu, hru⟩, iff_of_true hty.symm hkeeps⟩

/-- A removed neutral right operand. -/
theorem left_eq_iff (hR : R.literal = some n)
    (hn : n ≤ 1) : l = ty ↔ Keeps left L R r ∧ Keeps right R L l := by
  have hr := h.right_ty n hR
  have hfits : l.Fits n := by cases l <;> simp [IntTy.Fits, IntTy.limit, IntTy.width] <;> omega
  rw [and_iff_right (keeps_of_some hR)]
  rcases hL : L.literal with - | a
  · obtain ⟨-, hiff⟩ := h.join_of_right_literal hL hR
    rw [if_pos hfits, join_self] at hiff
    rw [hiff, keeps_iff hR hL, hr]
  · refine iff_of_true ?_ (keeps_of_some hL)
    have hl := h.left_ty a hL
    have hn' : (defaultTy n).width ≤ (defaultTy a).width := width_defaultTy_le (hl ▸ hfits)
    rw [h.eq_join_of_literals hL hR, eq_comm,
      join_eq_left_iff (hl ▸ isUnsigned_defaultTy a) (hr ▸ isUnsigned_defaultTy n), hl, hr]
    exact hn'

/-- A removed neutral left operand. -/
theorem right_eq_iff (hL : L.literal = some n)
    (hn : n ≤ 1) : r = ty ↔ Keeps left L R r ∧ Keeps right R L l := by
  have hl := h.left_ty n hL
  have hfits : r.Fits n := by cases r <;> simp [IntTy.Fits, IntTy.limit, IntTy.width] <;> omega
  rw [and_iff_left (keeps_of_some hL)]
  rcases hR : R.literal with - | b
  · obtain ⟨-, hiff⟩ := h.join_of_left_literal hL hR
    rw [if_pos hfits, join_self] at hiff
    rw [hiff, keeps_iff hL hR, hl]
  · refine iff_of_true ?_ (keeps_of_some hR)
    have hr := h.right_ty b hR
    have hn' : (defaultTy n).width ≤ (defaultTy b).width := width_defaultTy_le (hr ▸ hfits)
    rw [h.eq_join_of_literals hL hR, eq_comm,
      join_eq_right_iff (hl ▸ isUnsigned_defaultTy n) (hr ▸ isUnsigned_defaultTy b), hl, hr]
    exact hn'

end FoldedTypes

end CellScript.Optimize
