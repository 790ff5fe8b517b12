import CellScript.Checker.Elf
import Mathlib.Tactic.Ring

/-!
# What the scan recovers

The checker reads displacements out of a word by shifts and masks of its own. The first section
says that these are the immediates of the architecture, read as signed integers. The second section
describes, word by word, the texts whose control flow is direct (`Direct`): plain words, address
pairs, branches, jumps, call pairs and `ret`, with the transfers they make. The scan of such a text
succeeds if the checker admits its plain words and its targets, and then recovers exactly those
transfers (`scanWords_direct`). The marker for an unconsumed `auipc ra` is down between any two
items, which is why `ret` is always admitted.
-/

namespace CellScript.Checker

open Rv64 (Reg Word Byte ofLeBytes leBytes)
open Rv64 BitField

/-! ### Immediates -/

theorem signExtend_setWidth {n : ℕ} (hpos : 0 < n) (hn : n ≤ 32) (x : BitVec n) :
    signExtend (x.setWidth 32) n = x.toInt := by
  have hset : (x.setWidth 32).setWidth 64 = x.setWidth 64 := by
    have hlt : x.toNat < 2 ^ 32 := x.isLt.trans_le (Nat.pow_le_pow_right (by omega) hn)
    apply eq_of_toNat_eq
    rw [toNat_setWidth, toNat_setWidth, toNat_setWidth, mod_eq_of_lt hlt]
  rw [signExtend, hset, sshiftRight_shiftLeft_setWidth hpos (by omega),
    BitVec.toInt_signExtend_of_le (by omega)]

theorem branchTarget_eq (address : ℕ) (w : Word) :
    branchTarget address w = addSigned address (immB w).toInt := by
  have h₁ := ushiftRight_and_mask w 31 1
  have h₂ := ushiftRight_and_mask w 7 1
  have h₃ := ushiftRight_and_mask w 25 6
  have h₄ := ushiftRight_and_mask w 8 4
  norm_num at h₁ h₂ h₃ h₄
  rw [branchTarget, h₁, h₂, h₃, h₄, shiftLeft_setWidth _ 1, BitVec.or_assoc,
    shiftLeft_or_setWidth (n := 5), BitVec.or_assoc,
    shiftLeft_or_setWidth (n := 11), shiftLeft_or_setWidth (n := 12),
    signExtend_setWidth (n := 13) (by omega) (by omega)]
  simp only [immB, BitVec.append_assoc, BitVec.cast_eq]

theorem jalTarget_eq (address : ℕ) (w : Word) :
    jalTarget address w = addSigned address (immJ w).toInt := by
  have h₁ := ushiftRight_and_mask w 31 1
  have h₂ := ushiftRight_and_mask w 12 8
  have h₃ := ushiftRight_and_mask w 20 1
  have h₄ := ushiftRight_and_mask w 21 10
  norm_num at h₁ h₂ h₃ h₄
  rw [jalTarget, h₁, h₂, h₃, h₄, shiftLeft_setWidth _ 1, BitVec.or_assoc,
    shiftLeft_or_setWidth (n := 11), BitVec.or_assoc,
    shiftLeft_or_setWidth (n := 12), shiftLeft_or_setWidth (n := 20),
    signExtend_setWidth (n := 21) (by omega) (by omega)]
  simp only [immJ, BitVec.append_assoc, BitVec.cast_eq]

theorem signExtend_upper (w : Word) : signExtend (w &&& 0xfffff000#32) 32 = (immU w).toInt := by
  have hmask : w &&& 0xfffff000#32 = (immU w).setWidth 32 := by
    exact and_not_mask (n := 12) (w := 20) w
  rw [hmask, signExtend_setWidth (by omega) (by omega)]

theorem signExtend_lower (w : Word) : signExtend (w >>> 20) 12 = (immI w).toInt := by
  have hshift : w >>> 20 = (immI w).setWidth 32 := by
    apply BitVec.eq_of_getLsbD_eq
    intro i hi
    simp only [immI, BitVec.getLsbD_ushiftRight, BitVec.getLsbD_setWidth, hi,
      BitVec.getLsbD_extractLsb', decide_true, Bool.true_and]
    by_cases h : i < 12
    · simp [h]
    · simp [h, BitVec.getLsbD_of_ge w (20 + i) (by omega)]
  rw [hshift, signExtend_setWidth (by omega) (by omega)]

/-- An offset between two addresses leads from one to the other. -/
theorem addSigned_sub {address target : ℕ} (h : target < 2 ^ 64) :
    addSigned address ((target : ℤ) - address) = target := by
  rw [addSigned]
  split <;> omega

theorem saturatingAdd_eq {a b : ℤ} (hlo : -2 ^ 63 ≤ a + b) (hhi : a + b < 2 ^ 63) :
    saturatingAdd a b = a + b := by
  rw [saturatingAdd]
  omega

/-! ### The words of a text -/

theorem textWords_flatMap : ∀ ws : List Word, textWords (ws.flatMap leBytes) = ws
  | [] => rfl
  | w :: ws => by
    show ofLeBytes _ _ _ _ :: textWords (ws.flatMap leBytes) = w :: ws
    rw [ofLeBytes_leBytes, textWords_flatMap ws]

variable {ws : List Word} {w : Word} {address : ℕ} {flows : List DecodedControlFlow}

variable {ws' : List Word} {i pc pc' : ℕ} {flows' : List DecodedControlFlow} {calls calls' : List ℕ}
  {α : Type} {adjustment : Option StackAdjustment} {s : ScanState}

theorem instructionWord_flatMap (h : ws[i]? = some w) :
    instructionWord (ws.flatMap leBytes) i = .ok w := by
  induction ws generalizing i with
  | nil => simp at h
  | cons v ws ih =>
    cases i with
    | zero =>
      obtain rfl : v = w := by simpa using h
      show Except.ok (ofLeBytes _ _ _ _) = Except.ok v
      rw [ofLeBytes_leBytes]
    | succ i =>
      have hdrop : (leBytes v ++ ws.flatMap leBytes).drop ((i + 1) * 4) =
          (ws.flatMap leBytes).drop (i * 4) := by
        rw [Nat.succ_mul, add_comm, ← List.drop_drop]
        rfl
      rw [← ih (by simpa using h), instructionWord, readU32, flatMap_cons, hdrop]
      rfl

/-! ### Texts with direct control flow -/

/-- The words that transfer control. -/
def transfers (w : Word) : Prop := opcode w ∈ [0x63#7, 0x67#7, 0x6f#7]

instance (w : Word) : Decidable (transfers w) :=
  inferInstanceAs (Decidable (opcode w ∈ [0x63#7, 0x67#7, 0x6f#7]))

/-- **Direct control flow.** The words from an address on are plain words, address pairs, branches,
jumps, call pairs and `ret`, and make the given transfers; `calls` are the addresses of the second
words of the call pairs. -/
inductive Direct : ℕ → List Word → List DecodedControlFlow → List ℕ → Prop
  | nil (pc : ℕ) : Direct pc [] [] []
  | plain {pc : ℕ} {w : Word} {ws flows calls} (hplain : ¬transfers w)
      (hauipc : opcode w ≠ 0x17#7) (rest : Direct (pc + 4) ws flows calls) :
      Direct pc (w :: ws) flows calls
  | address {pc : ℕ} {w w' : Word} {ws flows calls} (hw : opcode w = 0x17#7)
      (hw' : opcode w' = 0x13#7) (hrd : rd w' = rd w)
      (rest : Direct (pc + 8) ws flows calls) : Direct pc (w :: w' :: ws) flows calls
  | branch {pc target : ℕ} {w : Word} {ws flows calls} (hw : opcode w = 0x63#7)
      (hcondition : funct3 w ∉ [2#3, 3#3]) (himm : (immB w).toInt = target - pc)
      (rest : Direct (pc + 4) ws flows calls) :
      Direct pc (w :: ws) (⟨pc, target, .conditionalBranch⟩ :: flows) calls
  | jump {pc target : ℕ} {w : Word} {ws flows calls} (hw : opcode w = 0x6f#7)
      (hrd : rd w = 0#5) (himm : (immJ w).toInt = target - pc)
      (rest : Direct (pc + 4) ws flows calls) :
      Direct pc (w :: ws) (⟨pc, target, .directJump⟩ :: flows) calls
  | call {pc target : ℕ} {w w' : Word} {ws flows calls} (hw : opcode w = 0x17#7)
      (hrd : rd w = 1#5) (hw' : opcode w' = 0x67#7) (hrd' : rd w' = 1#5)
      (hfunct3 : funct3 w' = 0#3) (hrs1 : rs1 w' = 1#5)
      (himm : (immU w).toInt + (immI w').toInt = target - pc)
      (rest : Direct (pc + 8) ws flows calls) :
      Direct pc (w :: w' :: ws) (⟨pc + 4, target, .directJump⟩ :: flows) ((pc + 4) :: calls)
  | ret {pc : ℕ} {ws flows calls} (rest : Direct (pc + 4) ws flows calls) :
      Direct pc (retWord :: ws) flows calls

theorem Direct.append (h : Direct pc ws flows calls) (h' : Direct pc' ws' flows' calls')
    (hpc : pc' = pc + ws.length * 4) :
    Direct pc (ws ++ ws') (flows ++ flows') (calls ++ calls') := by
  induction h with
  | nil pc =>
    obtain rfl : pc' = pc := by simpa using hpc
    exact h'
  | plain hplain hauipc _ ih => exact .plain hplain hauipc (ih (by grind))
  | address hw hw' hrd _ ih => exact .address hw hw' hrd (ih (by grind))
  | branch hw hcondition himm _ ih => exact .branch hw hcondition himm (ih (by grind))
  | jump hw hrd himm _ ih => exact .jump hw hrd himm (ih (by grind))
  | call hw hrd hw' hrd' hfunct3 hrs1 himm _ ih =>
    exact .call hw hrd hw' hrd' hfunct3 hrs1 himm (ih (by grind))
  | ret _ ih => exact .ret (ih (by grind))

theorem getElem?_cons_some {x y : α} {xs : List α}
    (h : (x :: xs)[i]? = some y) : i = 0 ∧ x = y ∨ ∃ j, i = j + 1 ∧ xs[j]? = some y := by
  cases i with
  | zero => exact .inl ⟨rfl, by simpa using h⟩
  | succ j => exact .inr ⟨j, rfl, by simpa using h⟩

/-- A `jalr` that is not `ret` is the second word of a call pair. -/
theorem Direct.mem_calls (h : Direct pc ws flows calls) (hi : ws[i]? = some w)
    (hw : opcode w = 0x67#7) (hret : w ≠ retWord) : pc + i * 4 ∈ calls := by
  induction h generalizing i with
  | nil pc => simp at hi
  | plain hplain hauipc _ ih =>
    obtain ⟨rfl, rfl⟩ | ⟨j, rfl, hj⟩ := getElem?_cons_some hi
    · exact absurd (by simp [transfers, hw]) hplain
    · grind
  | address hv hv' hrd _ ih =>
    obtain ⟨rfl, rfl⟩ | ⟨j, rfl, hj⟩ := getElem?_cons_some hi
    · simp [hw] at hv
    obtain ⟨rfl, rfl⟩ | ⟨j, rfl, hj⟩ := getElem?_cons_some hj
    · simp [hw] at hv'
    · grind
  | branch hv _ _ _ ih | jump hv _ _ _ ih =>
    obtain ⟨rfl, rfl⟩ | ⟨j, rfl, hj⟩ := getElem?_cons_some hi
    · simp [hw] at hv
    · grind
  | call hv _ _ _ _ _ _ _ ih =>
    obtain ⟨rfl, rfl⟩ | ⟨j, rfl, hj⟩ := getElem?_cons_some hi
    · simp [hw] at hv
    obtain ⟨rfl, rfl⟩ | ⟨j, rfl, hj⟩ := getElem?_cons_some hj
    · simp
    · exact mem_cons_of_mem _ (by grind)
  | ret _ ih =>
    obtain ⟨rfl, rfl⟩ | ⟨j, rfl, hj⟩ := getElem?_cons_some hi
    · exact absurd rfl hret
    · grind

/-! ### Scanning -/

/-- The checker admits the words of the text that do not transfer control. -/
def PlainAdmitted (bytes : List Byte) (base : ℕ) : Prop :=
  ∀ p ∈ (textWords bytes).zipIdx, ¬transfers p.1 → instructionIsAllowed p.1 = true ∧
    (validateStackPointerWrite bytes p.2 p.1 (base + p.2 * 4)).isOk = true

instance (bytes : List Byte) (base : ℕ) : Decidable (PlainAdmitted bytes base) :=
  List.decidableBAll _ _

theorem PlainAdmitted.word {base : ℕ}
    (h : PlainAdmitted (ws.flatMap leBytes) base) (hi : ws[i]? = some w) (hw : ¬transfers w) :
    instructionIsAllowed w = true ∧ ∃ adjustment,
      validateStackPointerWrite (ws.flatMap leBytes) i w (base + i * 4) = .ok adjustment := by
  have hmem : (w, i) ∈ (textWords (ws.flatMap leBytes)).zipIdx := by
    rw [textWords_flatMap]
    exact List.mk_mem_zipIdx_iff_getElem?.2 hi
  obtain ⟨hallowed, hstack⟩ := h _ hmem hw
  refine ⟨hallowed, ?_⟩
  cases hvalidate : validateStackPointerWrite (ws.flatMap leBytes) i w (base + i * 4) with
  | error e => simp [hvalidate, Except.isOk, Except.toBool] at hstack
  | ok adjustment => exact ⟨adjustment, rfl⟩

/-- **One word.** An admitted word with an admitted target is recorded with its transfer. -/
theorem scanWord_ok {bytes : List Byte} {base index : ℕ} {range : MachineRange} {word : Word}
    {target flows} (hallowed : instructionIsAllowed word = true)
    (hstack : validateStackPointerWrite bytes index word (base + index * 4) = .ok adjustment)
    (hret : word = retWord → s.unconsumedAuipcRa = false)
    (htarget : wordTarget bytes index word (base + index * 4) = .ok target)
    (hflows : checkedFlow range (base + index * 4) target = .ok flows) :
    scanWord bytes base range index s word =
      .ok (s.record (base + index * 4) word adjustment flows) := by
  have hguard : ¬(word = retWord ∧ s.unconsumedAuipcRa = true) := by
    rintro ⟨hw, hs⟩
    simp [hret hw] at hs
  simp only [scanWord, hallowed, hstack, hguard, htarget, hflows, Bool.not_true,
    false_eq_true, if_false, bind, Except.bind]
  rfl

variable {bytes : List Byte} {base index : ℕ} {range : MachineRange}

section Words

variable {target : ℕ} {w' : Word}

theorem validateStackPointerWrite_of_rd (h : rd w ≠ 2#5) :
    validateStackPointerWrite bytes index w address = .ok none := by
  rw [validateStackPointerWrite, if_pos (.inl h)]

theorem validateStackPointerWrite_branch (h : opcode w = 0x63#7) :
    validateStackPointerWrite bytes index w address = .ok none := by
  rw [validateStackPointerWrite, if_pos (.inr (by rw [h]; rfl))]

theorem not_transfers_of_opcode {opcode : BitVec 7} (h : Rv64.opcode w = opcode)
    (hopcode : opcode ∉ [0x63#7, 0x67#7, 0x6f#7]) : ¬transfers w := by
  rwa [transfers, h]

theorem ne_retWord_of_opcode {opcode : BitVec 7} (h : Rv64.opcode w = opcode)
    (hopcode : opcode ≠ 0x67#7) : w ≠ retWord := by
  rintro rfl
  exact hopcode (h.symm.trans (by decide))

theorem wordTarget_plain (h : ¬transfers w) : wordTarget bytes index w address = .ok none := by
  simp only [transfers, mem_cons, not_mem_nil, or_false, not_or] at h
  simp [wordTarget, h]

theorem wordTarget_ret : wordTarget bytes index retWord address = .ok none := by
  have hopcode : opcode retWord = 0x67#7 := by decide
  simp [wordTarget, hopcode]

theorem wordTarget_branch (hw : opcode w = 0x63#7)
    (himm : (immB w).toInt = target - address) (htarget : target < 2 ^ 64) :
    wordTarget bytes index w address = .ok (some (target, .conditionalBranch)) := by
  rw [wordTarget, hw, branchTarget_eq, himm, addSigned_sub htarget]
  rfl

theorem wordTarget_jump (hw : opcode w = 0x6f#7)
    (himm : (immJ w).toInt = target - address) (htarget : target < 2 ^ 64) :
    wordTarget bytes index w address = .ok (some (target, .directJump)) := by
  rw [wordTarget, hw, jalTarget_eq, himm, addSigned_sub htarget]
  rfl

section Pairs

variable (hprevious : instructionWord bytes index = .ok w) (hw : opcode w = 0x17#7)
  (hrd : rd w = 1#5) (hrd' : rd w' = 1#5) (hfunct3 : funct3 w' = 0#3) (hrs1 : rs1 w' = 1#5)
  (himm : (immU w).toInt + (immI w').toInt = target - address) (heven : target % 2 = 0)
  (htarget : target < 2 ^ 64)

include hprevious hw hrd hrd' hfunct3 hrs1 himm heven htarget

/-- The two halves of a call pair give back an even target. -/
theorem decodeCallTarget_ok : decodeCallTarget bytes (index + 1) w' (address + 4) = .ok target := by
  have hadd : saturatingAdd (immU w).toInt (immI w').toInt = target - address := by
    have h₁ := BitVec.toInt_lt (x := immU w)
    have h₂ := BitVec.toInt_lt (x := immI w')
    have h₃ := BitVec.le_toInt (x := immU w)
    have h₄ := BitVec.le_toInt (x := immI w')
    rw [saturatingAdd_eq (by omega) (by omega), himm]
  simp [decodeCallTarget, hrd', hrs1, hfunct3, hprevious, bind, Except.bind, pure, Except.pure, hw,
    hrd, signExtend_upper, signExtend_lower, hadd, addSigned_sub htarget, heven]

theorem wordTarget_call (hw' : opcode w' = 0x67#7) :
    wordTarget bytes (index + 1) w' (address + 4) = .ok (some (target, .directJump)) := by
  have hret : w' ≠ retWord := by
    rintro rfl
    exact absurd hrd' (by decide)
  rw [wordTarget, hw', if_neg (by decide), if_neg (by decide), if_pos ⟨rfl, hret⟩,
    decodeCallTarget_ok hprevious hw hrd hrd' hfunct3 hrs1 himm heven htarget]
  rfl

end Pairs

theorem checkedFlow_some {kind : DecodedControlFlowKind}
    (hadmitted : target % 4 = 0 ∧ range.contains target = true) :
    checkedFlow range address (some (target, kind)) = .ok [⟨address, target, kind⟩] := by
  simp [checkedFlow, hadmitted]

@[simp] theorem record_unconsumedAuipcRa (s : ScanState) (adjustment : Option StackAdjustment)
    (flows : List DecodedControlFlow) : (s.record address w adjustment flows).unconsumedAuipcRa =
      nextUnconsumed w s.unconsumedAuipcRa :=
  rfl

theorem nextUnconsumed_false (h : ¬(opcode w = 0x17#7 ∧ rd w = 1#5)) :
    nextUnconsumed w false = false := by
  simp [nextUnconsumed, h]

end Words

/-- The states that a scan of `ws` from `s` may reach: the transfers and the words are added. -/
structure Recovers (s : ScanState) (ws : List Word) (flows : List DecodedControlFlow)
    (s' : ScanState) : Prop where
  controlFlow : s'.controlFlow = s.controlFlow ++ flows
  words : s'.instructions.map (·.word) = s.instructions.map (·.word) ++ ws

theorem Recovers.refl (s : ScanState) : Recovers s [] [] s :=
  ⟨by simp, by simp⟩

theorem Recovers.cons {s' : ScanState}
    (h : Recovers (s.record address w adjustment flows) ws flows' s') :
    Recovers s (w :: ws) (flows ++ flows') s' := by
  refine ⟨?_, ?_⟩
  · simp [h.controlFlow, ScanState.record]
  · simp [h.words, ScanState.record]

theorem drop_eq_cons {x : α} {xs ys : List α} (h : xs.drop i = x :: ys) :
    xs[i]? = some x ∧ xs.drop (i + 1) = ys := by
  refine ⟨?_, ?_⟩
  · rw [← List.head?_drop, h, List.head?_cons]
  · rw [← List.tail_drop, h, List.tail_cons]

section Run

variable {s : ScanState} {adjustment : Option StackAdjustment} {found : List DecodedControlFlow}

/-- A word with its admitted transfer, if any, before the rest of the scan. -/
theorem exists_scanWords_cons {target} (hallowed : instructionIsAllowed w = true)
    (hstack : validateStackPointerWrite bytes index w (base + index * 4) = .ok adjustment)
    (hret : w = retWord → s.unconsumedAuipcRa = false)
    (htarget : wordTarget bytes index w (base + index * 4) = .ok target)
    (hfound : checkedFlow range (base + index * 4) target = .ok found)
    (rest : ∃ s', scanWords bytes base range (index + 1)
      (s.record (base + index * 4) w adjustment found) ws = .ok s' ∧
      Recovers (s.record (base + index * 4) w adjustment found) ws flows s') :
    ∃ s', scanWords bytes base range index s (w :: ws) = .ok s' ∧
      Recovers s (w :: ws) (found ++ flows) s' := by
  obtain ⟨s', hscan, hrecovers⟩ := rest
  refine ⟨s', ?_, hrecovers.cons⟩
  rw [scanWords, scanWord_ok hallowed hstack hret htarget hfound]
  exact hscan

end Run

/-- **Recovery.** The scan of a text with direct control flow, whose plain words and targets the
checker admits, recovers exactly the transfers of the text. -/
theorem scanWords_direct {all : List Word} {base index : ℕ} {range : MachineRange}
    (h : Direct pc ws flows calls)
    (hplain : PlainAdmitted (all.flatMap leBytes) base) (hstop : range.stop ≤ 2 ^ 64)
    (htargets : ∀ f ∈ flows, f.target % 4 = 0 ∧ range.contains f.target = true)
    (hall : all.drop index = ws) (hpc : base + index * 4 = pc) (hs : s.unconsumedAuipcRa = false) :
    ∃ s', scanWords (all.flatMap leBytes) base range index s ws = .ok s' ∧
      Recovers s ws flows s' := by
  have hlt {target : ℕ} (h : range.contains target = true) : target < 2 ^ 64 := by
    simp only [MachineRange.contains, and_eq_true, decide_eq_true_eq] at h
    omega
  induction h generalizing index s with
  | nil pc => exact ⟨s, rfl, .refl s⟩
  | plain hw hauipc _ ih =>
    obtain ⟨hi, hdrop⟩ := drop_eq_cons hall
    obtain ⟨hallowed, adjustment, hstack⟩ := hplain.word hi hw
    refine exists_scanWords_cons hallowed hstack (fun _ ↦ hs) (wordTarget_plain hw) rfl ?_
    refine ih htargets hdrop (by omega) ?_
    rw [record_unconsumedAuipcRa, hs, nextUnconsumed_false fun h ↦ hauipc h.1]
  | address hw hw' hrd _ ih =>
    obtain ⟨hi, hdrop⟩ := drop_eq_cons hall
    obtain ⟨hi', hdrop'⟩ := drop_eq_cons hdrop
    have hplain₁ := not_transfers_of_opcode hw (by decide)
    have hplain₂ := not_transfers_of_opcode hw' (by decide)
    obtain ⟨hallowed, adjustment, hstack⟩ := hplain.word hi hplain₁
    obtain ⟨hallowed', adjustment', hstack'⟩ := hplain.word hi' hplain₂
    refine exists_scanWords_cons hallowed hstack (fun _ ↦ hs) (wordTarget_plain hplain₁) rfl ?_
    refine exists_scanWords_cons hallowed' hstack' (ne_retWord_of_opcode hw' (by decide)).elim
      (wordTarget_plain hplain₂) rfl ?_
    refine ih htargets hdrop' (by omega) ?_
    -- the second word writes the same register, so it clears a marker the first one has set
    rw [record_unconsumedAuipcRa, record_unconsumedAuipcRa, hs]
    simp [nextUnconsumed, hw, hw', hrd]
  | branch hw hcondition himm _ ih =>
    subst hpc
    obtain ⟨-, hdrop⟩ := drop_eq_cons hall
    have hadmitted := htargets _ mem_cons_self
    refine exists_scanWords_cons (by simp [instructionIsAllowed, hw, hcondition])
      (validateStackPointerWrite_branch hw) (ne_retWord_of_opcode hw (by decide)).elim
      (wordTarget_branch hw himm (hlt hadmitted.2)) (checkedFlow_some hadmitted) ?_
    refine ih (fun f hf ↦ htargets f (mem_cons_of_mem _ hf)) hdrop (by omega) ?_
    rw [record_unconsumedAuipcRa, hs]
    exact nextUnconsumed_false fun h ↦ absurd (hw.symm.trans h.1) (by decide)
  | jump hw hrd himm _ ih =>
    subst hpc
    obtain ⟨-, hdrop⟩ := drop_eq_cons hall
    have hadmitted := htargets _ mem_cons_self
    refine exists_scanWords_cons (by simp [instructionIsAllowed, hw, hrd])
      (validateStackPointerWrite_of_rd (by simp [hrd])) (ne_retWord_of_opcode hw (by decide)).elim
      (wordTarget_jump hw himm (hlt hadmitted.2)) (checkedFlow_some hadmitted) ?_
    refine ih (fun f hf ↦ htargets f (mem_cons_of_mem _ hf)) hdrop (by omega) ?_
    rw [record_unconsumedAuipcRa, hs]
    exact nextUnconsumed_false fun h ↦ absurd (hw.symm.trans h.1) (by decide)
  | @call _ target _ _ _ _ _ hw hrd hw' hrd' hfunct3 hrs1 himm _ ih =>
    subst hpc
    obtain ⟨hi, hdrop⟩ := drop_eq_cons hall
    obtain ⟨-, hdrop'⟩ := drop_eq_cons hdrop
    have hadmitted : target % 4 = 0 ∧ range.contains target = true := htargets _ mem_cons_self
    have hnext : base + index * 4 + 4 = base + (index + 1) * 4 := by omega
    have htarget := wordTarget_call (instructionWord_flatMap hi) hw hrd hrd' hfunct3 hrs1 himm
      (by omega) (hlt hadmitted.2) hw'
    refine exists_scanWords_cons (by simp [instructionIsAllowed, hw])
      (validateStackPointerWrite_of_rd (by simp [hrd])) (fun _ ↦ hs)
      (wordTarget_plain (not_transfers_of_opcode hw (by decide))) rfl ?_
    rw [hnext] at htarget ⊢
    refine exists_scanWords_cons (by simp [instructionIsAllowed, hw', hfunct3])
      (validateStackPointerWrite_of_rd (by simp [hrd'])) ?_ htarget (checkedFlow_some hadmitted) ?_
    · rintro rfl
      exact absurd hrd' (by decide)
    refine ih (fun f hf ↦ htargets f (mem_cons_of_mem _ hf)) hdrop' (by omega) ?_
    simp [nextUnconsumed, hw', hrs1]
  | ret _ ih =>
    obtain ⟨-, hdrop⟩ := drop_eq_cons hall
    refine exists_scanWords_cons (by decide)
      (validateStackPointerWrite_of_rd (by decide)) (fun _ ↦ hs) wordTarget_ret rfl ?_
    refine ih htargets hdrop (by omega) ?_
    rw [record_unconsumedAuipcRa, hs, nextUnconsumed_false (by decide)]

theorem length_flatMap_leBytes (ws : List Word) : (ws.flatMap leBytes).length = ws.length * 4 := by
  induction ws with
  | nil => rfl
  | cons w ws ih => rw [flatMap_cons, length_append, ih, length_cons,
      length_leBytes, Nat.succ_mul, add_comm]

/-- Control flow to an aligned address of the text enters a call only at its second word. -/
theorem Direct.not_entersCall {base : ℕ}
    {instructions : List DecodedInstruction} {flow : DecodedControlFlow}
    (h : Direct base ws flows calls) (hwords : instructions.map (·.word) = ws)
    (hbase : base % 4 = 0) (haligned : flow.target % 4 = 0) (hle : base ≤ flow.target)
    (hcalls : flow.target ∉ calls) : entersCall base instructions flow = false := by
  rw [entersCall]
  split
  next target htarget =>
    have hword : ws[(flow.target - base) / 4]? = some target.word := by
      rw [← hwords, getElem?_map, htarget]
      rfl
    have haddress : base + (flow.target - base) / 4 * 4 = flow.target := by omega
    refine decide_eq_false fun ⟨hopcode, hret⟩ ↦ hcalls ?_
    rw [← haddress]
    exact h.mem_calls hword hopcode hret
  next => rfl

/-- **The checker on direct control flow.** A text with direct control flow passes, with exactly its
transfers, if the checker admits the plain words and every transfer leads to an aligned address of
the text that is not inside a call pair. -/
theorem parseText_direct {base : ℕ} (h : Direct base ws flows calls) (hbase : base % 4 = 0)
    (hfits : base + ws.length * 4 < 2 ^ 64) (hplain : PlainAdmitted (ws.flatMap leBytes) base)
    (htargets : ∀ f ∈ flows, f.target % 4 = 0 ∧ base ≤ f.target ∧
      f.target < base + ws.length * 4 ∧ f.target ∉ calls) :
    ∃ decoded, parseText (ws.flatMap leBytes) base = .ok decoded ∧
      decoded.controlFlow = flows := by
  have hmin : min (base + (ws.flatMap leBytes).length) (2 ^ 64 - 1) = base + ws.length * 4 := by
    rw [length_flatMap_leBytes]
    omega
  have hadmitted (f : DecodedControlFlow) (hf : f ∈ flows) : f.target % 4 = 0 ∧
      MachineRange.contains ⟨base, base + ws.length * 4⟩ f.target = true := by
    obtain ⟨haligned, hle, hlt, -⟩ := htargets f hf
    exact ⟨haligned, by simp [MachineRange.contains, hle, hlt]⟩
  obtain ⟨s, hscan, hrecovers⟩ : ∃ s, scanWords (ws.flatMap leBytes) base
      ⟨base, base + ws.length * 4⟩ 0 {} ws = .ok s ∧ Recovers {} ws flows s :=
    scanWords_direct h hplain hfits.le hadmitted drop_zero (by omega) rfl
  have hcalls : (s.controlFlow.any (entersCall base s.instructions)) = false := by
    rw [any_eq_false]
    intro f hf
    obtain ⟨haligned, hle, -, hinside⟩ := htargets f (by simpa [hrecovers.controlFlow] using hf)
    simp [h.not_entersCall (by simpa using hrecovers.words) hbase haligned hle hinside]
  refine ⟨s.toDecodedText, ?_, by simpa using hrecovers.controlFlow⟩
  rw [parseText, hmin, validateInstructions, textWords_flatMap, hscan]
  show (if s.controlFlow.any (entersCall base s.instructions) then _ else _) = _
  rw [hcalls]
  rfl

end CellScript.Checker
