import CellScript.Assembler.Immediate

/-!
# Constants as the processor builds them

The words of `li` move a literal into a register. The planner checks its own plan, so what is left
to show is that it never gives up: the older plan, which it falls back to, always reconstructs the
literal (`evaluate_legacy`). The processor then does for each word what `Immediate.evaluate` does
for its step (`execConstant_encodeLiStep`).
-/

namespace CellScript.Assembler

open BitVec (ofInt)
open BitField Rv64 BitVec

namespace Immediate

variable {v : ℤ} {bits : BitVec 64}

/-- Two steps append the next lower byte. -/
theorem evaluate_byte {j k : ℕ} (hj : j = k + 8) (rest : List Step) :
    evaluate (some (bits >>> j)) (.shiftLeft 8 :: .add (bits.extractLsb' k 8).toNat :: rest) =
      evaluate (some (bits >>> k)) rest := by
  have hlt : bits.toNat >>> k < 2 ^ 64 := (Nat.shiftRight_le _ _).trans_lt bits.isLt
  have hsum : (bits >>> j) <<< 8 + ofInt 64 (bits.extractLsb' k 8).toNat = bits >>> k := by
    apply eq_of_toNat_eq
    rw [ofInt_natCast, hj]
    simp only [toNat_add, toNat_shiftLeft, toNat_ushiftRight, toNat_ofNat, extractLsb'_toNat,
      Nat.shiftRight_add, Nat.shiftLeft_eq, Nat.shiftRight_eq_div_pow _ 8]
    omega
  rw [← hsum]
  generalize bits.extractLsb' k 8 = byte
  have hmax : (byte.toNat : ℤ) ≤ 2047 := by omega
  have hmin : -2048 ≤ (byte.toNat : ℤ) := by omega
  simp [evaluate, evaluateStep, hmin, hmax]

theorem evaluate_highest (rest : List Step) :
    evaluate none (.addFromZero (bits.extractLsb' 56 8).toNat :: rest) =
      evaluate (some (bits >>> 56)) rest := by
  have hzero : bits >>> 64 = 0#64 := ushiftRight_eq_zero le_rfl
  rw [← evaluate_byte (j := 64) rfl, hzero]
  simp only [evaluate, evaluateStep]
  simp

/-- What the form chosen for a literal says about it. -/
theorem liForm_cases (v : ℤ) : (liForm v = .addi ∧ -2048 ≤ v ∧ v ≤ 2047) ∨
      (liForm v = .lui ∧ v % 4096 = 0 ∧ -0x80000 ≤ v >>> (12 : ℕ) ∧ v >>> (12 : ℕ) ≤ 0x7ffff) ∨
      (liForm v = .luiAddi ∧ liFitsLuiAddiRv64 v = true) ∨ liForm v = .large := by
  rw [liForm]
  cases hv : liSignedI64 v with
  | none => simp
  | some signed =>
    obtain rfl : v = signed := by
      rw [liSignedI64] at hv
      split at hv
      · exact Option.some.inj hv
      · cases hv
    simp only [and_eq_true, decide_eq_true_eq]
    split_ifs with h₁ h₂ h₃
    · exact .inl ⟨rfl, h₁⟩
    · exact .inr (.inl ⟨rfl, h₂.1.1, h₂.1.2, h₂.2⟩)
    · exact .inr (.inr (.inl ⟨rfl, h₃⟩))
    · exact .inr (.inr (.inr rfl))

/-- **The fallback always stands.** The older plan reconstructs every literal. -/
theorem evaluate_legacy (v : ℤ) :
    ∃ steps, legacy v (ofInt 64 v) = .ok steps ∧ evaluate none steps = some (ofInt 64 v) := by
  rw [legacy]
  obtain ⟨hv, hmin, hmax⟩ | ⟨hv, hlow, hmin, hmax⟩ | ⟨hv, hfits⟩ | hv := liForm_cases v
  all_goals rw [hv]
  · exact ⟨_, rfl, by simp [evaluate, evaluateStep, hmin, hmax]⟩
  · have hshift : v >>> (12 : ℕ) <<< (12 : ℕ) = v := by
      rw [Int.shiftLeft_eq, Int.shiftRight_eq_div_pow]
      omega
    exact ⟨_, rfl, by simp [evaluate, evaluateStep, hmin, hmax, hshift]⟩
  · obtain ⟨hi, lo, hsplit, hmin, hmax, hlo, hlo', hsum⟩ := exists_splitHiLo hfits
    refine ⟨_, by simp only [hsplit, ok_bind]; rfl, ?_⟩
    have h₁ : -0x80000 ≤ hi ∧ hi ≤ 0x7ffff := by omega
    have h₂ : -2048 ≤ lo ∧ lo ≤ 2047 := by omega
    simp [evaluate, evaluateStep, h₁, h₂, ← ofInt_add, Int.shiftLeft_eq, ← hsum]
  · refine ⟨_, rfl, ?_⟩
    -- after each byte the register holds what stands above the bytes still to come
    simp only [List.flatMap_cons, List.flatMap_nil, cons_append, nil_append, evaluate_highest,
      evaluate_byte]
    rw [evaluate.eq_def, ushiftRight_zero]

theorem length_le_of_planLt {a b : List Step} (h : planLt a b = true) : a.length ≤ b.length := by
  simp only [planLt, Bool.or_eq_true, and_eq_true, decide_eq_true_eq, beq_iff_eq] at h
  omega

/-- **Planning succeeds** on every literal of 64 bits. The plan reconstructs it, and is no longer
than the older plan. -/
theorem exists_plan (hlo : -2 ^ 63 ≤ v) (hhi : v < 2 ^ 64) :
    ∃ steps, plan v = .ok steps ∧ evaluate none steps = some (ofInt 64 v) ∧
      ∀ fallback, legacy v (ofInt 64 v) = .ok fallback → steps.length ≤ fallback.length := by
  obtain ⟨fallback, hfallback, heval⟩ := evaluate_legacy v
  have hbits : liBits v = .ok (ofInt 64 v) := by
    rw [liBits, if_neg]
    simp
    omega
  simp only [plan, hbits, hfallback, ok_bind, heval, beq_self_eq_true, if_true, pure_bind,
    Except.ok.injEq, forall_eq']
  split_ifs with h₁ h₂ h₂
  · exact ⟨_, rfl, h₂.2.2.2.2,
      h₂.2.2.2.1.le.trans (length_le_of_planLt (Bool.and_eq_true_iff.1 h₁).2)⟩
  · exact ⟨_, rfl, eq_of_beq (Bool.and_eq_true_iff.1 h₁).1,
      length_le_of_planLt (Bool.and_eq_true_iff.1 h₁).2⟩
  · exact ⟨_, rfl, h₂.2.2.2.2, h₂.2.2.2.1.le⟩
  · exact ⟨_, rfl, heval, le_rfl⟩

/-- **The plan is never worse than the older one**: both succeed and leave the literal, the plan in
at most as many instructions. -/
theorem plan_le_legacy (hlo : -2 ^ 63 ≤ v) (hhi : v < 2 ^ 64) :
    ∃ steps fallback, plan v = .ok steps ∧ evaluate none steps = some (ofInt 64 v) ∧
      legacy v (ofInt 64 v) = .ok fallback ∧ evaluate none fallback = some (ofInt 64 v) ∧
      steps.length ≤ fallback.length := by
  obtain ⟨fallback, hlegacy, hfallback⟩ := evaluate_legacy v
  obtain ⟨steps, hplan, heval, hle⟩ := exists_plan hlo hhi
  exact ⟨steps, fallback, hplan, heval, hlegacy, hfallback, hle fallback hlegacy⟩

theorem plan_le_legacy_max : ∃ steps fallback, plan (2 ^ 64 - 1) = .ok steps ∧
    evaluate none steps = some (ofInt 64 (2 ^ 64 - 1)) ∧
    legacy (2 ^ 64 - 1) (ofInt 64 (2 ^ 64 - 1)) = .ok fallback ∧
    evaluate none fallback = some (ofInt 64 (2 ^ 64 - 1)) ∧ steps.length ≤ fallback.length :=
  plan_le_legacy (by decide) (by decide)

end Immediate

/-! ### Execution -/

variable {value : Option (BitVec 64)} {x : BitVec 64}

/-- The register holds the value so far; `x0` cannot hold any. -/
def Holding (rd : Reg) (value : Option (BitVec 64)) (s : State) : Prop :=
  rd ≠ 0#5 → ∀ y, value = some y → s.get rd = y

/-- **One word for one step.** The processor does what the planner expects of the step. -/
theorem execConstant_encodeLiStep (rd : Reg) {step : Immediate.Step}
    (h : Immediate.evaluateStep value step = some x) :
    ∃ w, encodeLiStep rd step = .ok w ∧ ∀ s, Holding rd value s →
      execConstant w s = some ((s.jump (s.pc + 4#64)).set rd x) := by
  have hfit {imm : ℤ} (hr : -2048 ≤ imm ∧ imm ≤ 2047) : signedBitsFit imm 12 = true :=
    signedBitsFit_iff.2 (by omega)
  have hext {imm : ℤ} (hr : -2048 ≤ imm ∧ imm ≤ 2047) :
      (ofInt 12 imm).signExtend 64 = ofInt 64 imm :=
    signExtend_ofInt (by omega) hr.1 (by omega)
  have hset (f : BitVec 64 → BitVec 64) {y : BitVec 64} {s : State} (hs : Holding rd value s)
      (hy : value = some y) :
      (s.jump (s.pc + 4#64)).set rd (f (s.get rd)) = (s.jump (s.pc + 4#64)).set rd (f y) := by
    by_cases hrd : rd = 0#5
    · simp [hrd]
    · rw [hs hrd y hy]
  cases step
  all_goals
    simp only [Immediate.evaluateStep, Option.ite_none_right_eq_some, and_eq_true,
      decide_eq_true_eq, Option.some.injEq, Option.map_eq_some_iff] at h
  case addFromZero imm =>
    obtain ⟨hr, rfl⟩ := h
    refine ⟨_, encodeIType_ok_iff.2 ⟨hfit hr, rfl⟩, fun s _ ↦ ?_⟩
    rw [execConstant_addi, hext hr]
    simp [State.get]
  case loadUpper imm =>
    obtain ⟨hr, rfl⟩ := h
    refine ⟨_, rfl, fun s _ ↦ ?_⟩
    rw [encodeUType_eq, execConstant_lui,
      signExtend_ofInt_append_zero (by omega) (by omega) (by omega), Int.shiftLeft_eq]
  case shiftLeft shift =>
    obtain ⟨hr, y, hy, rfl⟩ := h
    obtain ⟨hhigh, hlow⟩ := shamt_ofInt hr.2
    refine ⟨_, encodeIType_ok_iff.2 ⟨hfit (by omega), rfl⟩, fun s hs ↦ ?_⟩
    rw [execConstant_slli hhigh, hlow, hset (· <<< shift) hs hy]
  case add imm =>
    obtain ⟨hr, y, hy, rfl⟩ := h
    refine ⟨_, encodeIType_ok_iff.2 ⟨hfit hr, rfl⟩, fun s hs ↦ ?_⟩
    rw [execConstant_addi, hext hr, hset (· + ofInt 64 imm) hs hy]
  case shiftRight shift =>
    obtain ⟨hr, y, hy, rfl⟩ := h
    obtain ⟨hhigh, hlow⟩ := shamt_ofInt hr.2
    refine ⟨_, encodeIType_ok_iff.2 ⟨hfit (by omega), rfl⟩, fun s hs ↦ ?_⟩
    rw [execConstant_srli hhigh, hlow, hset (· >>> shift) hs hy]

/-- A plan leaves in the register what the planner evaluates it to. -/
theorem execConstants_encodeLiSteps (rd : Reg) {steps : List Immediate.Step}
    (h : Immediate.evaluate value steps = some x) :
    ∃ words, encodeLiSteps rd steps = .ok (words.flatMap leBytes) ∧ words.length = steps.length ∧
      ∀ s, Holding rd value s → execConstants words s =
        some ((s.jump (s.pc + BitVec.ofNat 64 (4 * words.length))).set rd x) := by
  induction steps generalizing value with
  | nil =>
    refine ⟨[], rfl, rfl, fun s hs ↦ ?_⟩
    have hx : (s.jump s.pc).set rd x = s := by
      by_cases hrd : rd = 0#5
      · rw [hrd, State.set_zero]
        rfl
      · rw [← hs hrd x (by simpa [Immediate.evaluate] using h)]
        exact State.set_get s rd
    simp [execConstants, hx]
  | cons step steps ih =>
    rw [Immediate.evaluate] at h
    split at h
    · cases h
    · next y hy =>
      obtain ⟨w, hw, hexec⟩ := execConstant_encodeLiStep rd hy
      obtain ⟨words, hwords, hlength, hrun⟩ := ih h
      refine ⟨w :: words, by simp [encodeLiSteps, hw, hwords], by simp [hlength], fun s hs ↦ ?_⟩
      have hnext : Holding rd (some y) ((s.jump (s.pc + 4#64)).set rd y) :=
        fun hrd z hz ↦ by rw [State.get_set_self hrd, Option.some.inj hz]
      rw [execConstants, List.foldlM_cons, hexec s hs]
      refine (hrun _ hnext).trans ?_
      rw [State.pc_set, State.pc_jump, State.set_jump, State.jump_jump, State.set_set, add_assoc,
        length_cons, Nat.mul_succ, add_comm (4 * _), ← ofNat_add]

/-- **Constants are exact.** Every literal of 64 bits has a plan, layout reserves the words emission
writes for it, and executing them leaves the literal in the register and changes no other one. -/
theorem execConstants_encodeLiSequence {v : ℤ} (hlo : -2 ^ 63 ≤ v) (hhi : v < 2 ^ 64) (rd : Reg) :
    ∃ words, encodeLiSequence rd v = .ok (words.flatMap leBytes) ∧
      liSequenceSize v = .ok (words.length * 4) ∧
      ∀ s, execConstants words s =
        some ((s.jump (s.pc + BitVec.ofNat 64 (4 * words.length))).set rd (ofInt 64 v)) := by
  obtain ⟨steps, hplan, heval, -⟩ := Immediate.exists_plan hlo hhi
  obtain ⟨words, hwords, hlength, hrun⟩ := execConstants_encodeLiSteps rd heval
  refine ⟨words, ?_, ?_, fun s ↦ hrun s fun _ y hy ↦ (Option.some_ne_none y hy.symm).elim⟩
  · rw [encodeLiSequence, hplan]
    exact hwords
  · rw [liSequenceSize, hplan, hlength]
    rfl

/-- The greatest literal. -/
theorem execConstants_encodeLiSequence_max :
    ∃ words, encodeLiSequence 10#5 (2 ^ 64 - 1) = .ok (words.flatMap leBytes) ∧
      liSequenceSize (2 ^ 64 - 1) = .ok (words.length * 4) ∧
      ∀ s, execConstants words s =
        some ((s.jump (s.pc + BitVec.ofNat 64 (4 * words.length))).set 10#5
          (ofInt 64 (2 ^ 64 - 1))) :=
  execConstants_encodeLiSequence (by decide) (by decide) 10#5

end CellScript.Assembler
