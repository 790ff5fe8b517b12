import CellScript.Checker.Scanned

/-!
# Returns through an unpaired `auipc ra`

The scan keeps a marker for an `auipc ra` that no call has consumed, and rejects a `ret` under the
marker. It takes the marker down at every word whose bits 7 to 11 are the number of `ra`, but in
stores and branches these bits are part of the offset: such a word lowers the marker and leaves `ra`
as it was. It also lets no control flow enter the second word of a call, without a look at the entry
of the file.

`parseText_returns_iff` says that an accepted text is safe exactly when it has neither.
-/

namespace CellScript.Checker

open Rv64 (Word Byte)
open Rv64

variable {bytes : List Byte} {address entry start i k : ℕ} {w : Word} {ws : List Word}
  {decoded : DecodedText} {functionStart : ℕ → Prop}

/-! ### Straight-line execution -/

/-- `auipc ra`. -/
def isAuipcRa (w : Word) : Bool := decide (opcode w = 0x17#7 ∧ rd w = 1#5)

/-- Whether `ra` is the destination of a word. -/
def writesRa (w : Word) : Bool := opcodeWritesRd (opcode w) && decide (rd w = 1#5)

/-- A word that straight-line execution does not pass: a return, or a jump that is no call. -/
def leaves (w : Word) : Bool :=
  decide (w = retWord) || decide (opcode w = 0x6f#7 ∧ rd w = 0#5)

/-- The `auipc` whose value `ra` holds after a word, by its index. -/
def heldAfter (w : Word) (i : ℕ) (held : Option ℕ) : Option ℕ :=
  if isAuipcRa w then some i else if writesRa w then none else held

/-- Execution falls through from a start to an index, where `ra` holds the value of an `auipc` it
has passed, or a value from elsewhere. -/
inductive StraightLine (ws : List Word) (start : ℕ) : ℕ → Option ℕ → Prop
  | start : StraightLine ws start start none
  | next {i : ℕ} {held : Option ℕ} {w : Word} (h : StraightLine ws start i held)
      (hw : ws[i]? = some w) (hpass : leaves w = false) :
      StraightLine ws start (i + 1) (heldAfter w i held)

/-- A word that lowers the marker without a write to `ra`: a store or a branch whose offset has the
bits of `ra` in the place of a destination. -/
def lowersMarker (w : Word) : Bool :=
  decide ((opcode w = 0x23#7 ∨ opcode w = 0x63#7) ∧ rd w = 1#5)

/-! ### Admitted words -/

theorem opcode_of_allowed (h : instructionIsAllowed w = true) :
    opcode w ∈ [0x03#7, 0x13#7, 0x17#7, 0x1b#7, 0x33#7, 0x37#7, 0x3b#7, 0x67#7, 0x6f#7, 0x23#7,
      0x63#7, 0x73#7] := by
  by_contra hne
  simp only [mem_cons, not_mem_nil, or_false, not_or] at hne
  obtain ⟨h03, h13, h17, h1b, h33, h37, h3b, h67, h6f, h23, h63, h73⟩ := hne
  simp [instructionIsAllowed, h03, h13, h17, h1b, h33, h37, h3b, h67, h6f, h23, h63, h73] at h

/-- **The bits of `ra` belong to a destination, a store or a branch.** -/
theorem writesRa_or_lowersMarker (h : instructionIsAllowed w = true) (hrd : rd w = 1#5) :
    writesRa w = true ∨ lowersMarker w = true := by
  by_cases hsystem : opcode w = 0x73#7
  · have hw : w = 0x00000073#32 := by simpa [instructionIsAllowed, hsystem] using h
    rw [hw] at hrd
    exact absurd hrd (by decide)
  · have hopcode := opcode_of_allowed h
    unfold writesRa lowersMarker opcodeWritesRd
    simp only [mem_cons, not_mem_nil, or_false] at hopcode ⊢
    simp only [hrd, and_eq_true, decide_eq_true_eq]
    tauto

/-- The two words of a call. -/
structure CallPair (ws : List Word) (i : ℕ) : Prop where
  auipc : ∃ w, ws[i]? = some w ∧ isAuipcRa w = true
  jalr : ∃ w, ws[i + 1]? = some w ∧ opcode w = 0x67#7 ∧ rd w = 1#5 ∧ rs1 w = 1#5

/-- **A `jalr` other than `ret` is the second word of a call.** -/
theorem callPair_of_wordTarget {target} (hw : (textWords bytes)[i]? = some w)
    (hopcode : opcode w = 0x67#7) (hret : w ≠ retWord)
    (h : wordTarget bytes i w address = .ok target) :
    rd w = 1#5 ∧ ∃ j, i = j + 1 ∧ CallPair (textWords bytes) j := by
  have hne63 : opcode w ≠ 0x63#7 := by simp [hopcode]
  have hne6f : opcode w ≠ 0x6f#7 := by simp [hopcode]
  simp only [wordTarget, if_neg hne63, if_neg hne6f, if_pos (And.intro hopcode hret)] at h
  obtain ⟨flow, hflow, -⟩ := bind_ok.1 h
  unfold decodeCallTarget at hflow
  obtain ⟨hform, hflow⟩ := guard_ok.1 hflow
  obtain ⟨previous, hprevious, hflow⟩ := bind_ok.1 hflow
  obtain ⟨hauipc, -⟩ := guard_ok.1 hflow
  simp only [not_or, not_not] at hform hauipc
  obtain ⟨hrd, hrs1, -, hi⟩ := hform
  obtain ⟨j, rfl⟩ := Nat.exists_eq_succ_of_ne_zero hi
  have hauipcRa : isAuipcRa previous = true := decide_eq_true hauipc
  exact ⟨hrd, j, rfl, ⟨previous, instructionWord_ok_iff.1 hprevious, hauipcRa⟩,
    w, hw, hopcode, hrd, hrs1⟩

/-- What the scan has checked of the words of an accepted text. -/
theorem admitted_of_parseText (h : parseText bytes address = .ok decoded)
    (hi : (textWords bytes)[i]? = some w) :
    instructionIsAllowed w = true ∧ (opcode w = 0x67#7 → w ≠ retWord →
      rd w = 1#5 ∧ ∃ j, i = j + 1 ∧ CallPair (textWords bytes) j) := by
  obtain ⟨s, hs, -, -⟩ := exists_scanWords_of_parseText h
  obtain ⟨s₁, s₂, -, hadmitted⟩ := exists_admitted hs hi
  obtain ⟨_, target, _, -, htarget, -, -⟩ := hadmitted.recorded
  exact ⟨hadmitted.allowed, fun hopcode hret ↦ callPair_of_wordTarget hi hopcode hret htarget⟩

/-! ### The marker along a run -/

theorem StraightLine.lt (h : StraightLine ws start i (some k)) : k < i := by
  generalize hheld : some k = held at h
  induction h with
  | start => exact nomatch hheld
  | next _ _ _ ih =>
    unfold heldAfter at hheld
    split at hheld
    · obtain rfl := some.inj hheld
      exact Nat.lt_succ_self _
    · split at hheld
      · exact nomatch hheld
      · exact Nat.lt_succ_of_lt (ih hheld)

/-- **A word that execution passes keeps the marker up** while `ra` holds the value of an `auipc`,
unless it lowers the marker without a write to `ra`. -/
theorem nextUnconsumed_of_passes (h : parseText bytes address = .ok decoded)
    (hi : (textWords bytes)[i]? = some w) (hpass : leaves w = false) (hwrites : writesRa w = false)
    (hlowers : lowersMarker w = false) : nextUnconsumed w true = true := by
  obtain ⟨hallowed, hcall⟩ := admitted_of_parseText h hi
  have hret : w ≠ retWord := by
    rintro rfl
    exact absurd hpass (by decide)
  have hrd : rd w ≠ 1#5 := by
    intro hrd
    have := writesRa_or_lowersMarker hallowed hrd
    simp [hwrites, hlowers] at this
  have hjalr : ¬(opcode w = 0x67#7 ∧ rs1 w = 1#5) := fun hjalr ↦ hrd (hcall hjalr.1 hret).1
  unfold nextUnconsumed
  simp [hrd, hjalr]

theorem StraightLine.unconsumedAfter_eq (h : parseText bytes address = .ok decoded)
    (hrun : StraightLine (textWords bytes) start i (some k))
    (hlowers : ∀ j w, k < j → j < i → (textWords bytes)[j]? = some w → lowersMarker w = false) :
    unconsumedAfter false ((textWords bytes).take i) = true := by
  generalize hheld : some k = held at hrun
  -- the invariant of the run: the marker is up since the `auipc` that `ra` holds
  induction hrun with
  | start => exact nomatch hheld
  | @next i held w hrun hw hpass ih =>
    rw [unconsumedAfter_take_succ hw]
    unfold heldAfter at hheld
    split at hheld
    · next hauipc =>
      unfold nextUnconsumed
      rw [if_pos (of_decide_eq_true hauipc)]
    · split at hheld
      · exact nomatch hheld
      · next hwrites =>
        subst hheld
        have hk := hrun.lt
        rw [ih (fun j w hj hji ↦ hlowers j w hj (Nat.lt_succ_of_lt hji)) rfl]
        exact nextUnconsumed_of_passes h hw hpass (by simpa using hwrites)
          (hlowers i w hk (Nat.lt_succ_self i) hw)

/-! ### Calls are entered at their first word -/

theorem getElem?_instructions (h : parseText bytes address = .ok decoded) :
    (decoded.instructions[i]?).map (·.word) = (textWords bytes)[i]? := by
  obtain ⟨s, hs, rfl, -⟩ := exists_scanWords_of_parseText h
  have hwords := (scanWords_recorded hs).2
  rw [← getElem?_map, hwords]
  rfl

/-- **No control flow enters the second word of a call.** -/
theorem not_callPair_of_target (h : parseText bytes address = .ok decoded)
    {flow : DecodedControlFlow} (hflow : flow ∈ decoded.controlFlow)
    (htarget : flow.target = address + (i + 1) * 4) : ¬CallPair (textWords bytes) i := by
  rintro ⟨-, w, hw, hopcode, hrd, -⟩
  obtain ⟨-, -, -, hcalls⟩ := exists_scanWords_of_parseText h
  have hindex : (flow.target - address) / 4 = i + 1 := by omega
  have hentry := getElem?_instructions h (i := i + 1)
  rw [hw, map_eq_some_iff] at hentry
  obtain ⟨instruction, hinstruction, rfl⟩ := hentry
  have hret : instruction.word ≠ retWord := by
    intro hret
    rw [hret] at hrd
    exact absurd hrd (by decide)
  have henters : entersCall address decoded.instructions flow = true := by
    unfold entersCall
    rw [hindex, hinstruction]
    simp [hopcode, hret]
  have hany := any_eq_false.1 hcalls flow hflow
  exact hany henters

/-! ### Safe returns -/

/-- Where straight-line execution may start: at the target of a decoded transfer, at the start of a
function, or at the entry of the file. -/
def IsStart (decoded : DecodedText) (functionStart : ℕ → Prop) (entry address : ℕ) : Prop :=
  (∃ flow ∈ decoded.controlFlow, flow.target = address) ∨ functionStart address ∨ address = entry

/-- **An accepted text returns through no unpaired `auipc ra` exactly when** no store and no branch
lowers the marker between such an `auipc` and the `ret` that execution reaches from it, and the
entry of the file is no `jalr` of a call. The left side says that straight-line execution from a
start never comes to a `ret` while `ra` holds the value of an `auipc`, and that neither the target
of a transfer nor the entry is the second word of a call. -/
theorem parseText_returns_iff (h : parseText bytes address = .ok decoded) :
    ((∀ start i k, IsStart decoded functionStart entry (address + start * 4) →
        StraightLine (textWords bytes) start i (some k) →
          (textWords bytes)[i]? ≠ some retWord) ∧
      ∀ i, ((∃ flow ∈ decoded.controlFlow, flow.target = address + (i + 1) * 4) ∨
        entry = address + (i + 1) * 4) → ¬CallPair (textWords bytes) i) ↔
    (∀ start i k, IsStart decoded functionStart entry (address + start * 4) →
        StraightLine (textWords bytes) start i (some k) →
          (textWords bytes)[i]? = some retWord → ∀ j w, k < j → j < i →
            (textWords bytes)[j]? = some w → lowersMarker w = false) ∧
      ∀ i w, entry = address + i * 4 → (textWords bytes)[i]? = some w →
        opcode w = 0x67#7 → w = retWord := by
  constructor
  · rintro ⟨hreturns, hpairs⟩
    refine ⟨fun start i k hstart hrun hret ↦ absurd hret (hreturns start i k hstart hrun), ?_⟩
    intro i w hentry hw hopcode
    by_contra hret
    obtain ⟨-, j, rfl, hpair⟩ := (admitted_of_parseText h hw).2 hopcode hret
    exact hpairs j (.inr hentry) hpair
  · rintro ⟨hlowers, hentry⟩
    refine ⟨?_, ?_⟩
    · intro start i k hstart hrun hret
      have hup := hrun.unconsumedAfter_eq h (hlowers start i k hstart hrun hret)
      have hdown := unconsumedAfter_of_ret h hret
      exact absurd (hup.symm.trans hdown) (by decide)
    · rintro i (⟨flow, hflow, htarget⟩ | hat) hpair
      · exact not_callPair_of_target h hflow htarget hpair
      · obtain ⟨-, w, hw, hopcode, hrd, -⟩ := hpair
        rw [hentry (i + 1) w hat hw hopcode] at hrd
        exact absurd hrd (by decide)

/-- A call, then a return. -/
def pairedText : List Byte :=
  [0x00000097#32, 0x00c080e7#32, 0x00008067#32, 0x00008067#32].flatMap leBytes

/-- `auipc ra, 0`, then `sb zero, 1(sp)`, then `ret`. -/
def unpairedText : List Byte :=
  [0x00000097#32, 0x000100a3#32, 0x00008067#32].flatMap leBytes

theorem parseText_returns_iff_pairedText : (parseText pairedText 0x10000).isOk = true ∧
      ∀ decoded, parseText pairedText 0x10000 = .ok decoded →
        ∀ start i k, IsStart decoded (fun _ ↦ False) 0x10000 (0x10000 + start * 4) →
          StraightLine (textWords pairedText) start i (some k) →
            (textWords pairedText)[i]? ≠ some retWord := by
  refine ⟨by decide +kernel, fun decoded h ↦ ?_⟩
  refine ((parseText_returns_iff h).2 ⟨?_, ?_⟩).1
  · intro start i k _ _ _ j w _ _ hw
    have hall : (textWords pairedText).all (!lowersMarker ·) = true := by decide +kernel
    simpa using all_eq_true.1 hall w (mem_of_getElem? hw)
  · intro i w hentry hw hopcode
    obtain rfl : i = 0 := by omega
    have hfirst : (textWords pairedText)[0]? = some 0x00000097#32 := by decide +kernel
    obtain rfl := mem_unique hw hfirst
    exact absurd hopcode (by decide)

/-- **A store with the bits of `ra` in its offset hides the `auipc`**: execution from the entry
returns to the address that the `auipc` has left. -/
theorem unpairedText_accepted : ∃ decoded, parseText unpairedText 0x10000 = .ok decoded ∧
      IsStart decoded (fun _ ↦ False) 0x10000 (0x10000 + 0 * 4) ∧
        StraightLine (textWords unpairedText) 0 2 (some 0) ∧
          (textWords unpairedText)[2]? = some retWord := by
  have hok : (parseText unpairedText 0x10000).toOption.any (fun _ ↦ true) = true := by
    decide +kernel
  obtain ⟨decoded, hdecoded, -⟩ := exists_of_toOption_any hok
  refine ⟨decoded, hdecoded, .inr (.inr rfl), ?_, by decide +kernel⟩
  have hauipc : (textWords unpairedText)[0]? = some 0x00000097#32 := by decide +kernel
  have hstore : (textWords unpairedText)[1]? = some 0x000100a3#32 := by decide +kernel
  have hheld : heldAfter 0x000100a3#32 1 (heldAfter 0x00000097#32 0 none) = some 0 := by
    decide +kernel
  have hfirst : StraightLine (textWords unpairedText) 0 1 (heldAfter 0x00000097#32 0 none) :=
    StraightLine.start.next hauipc (by decide +kernel)
  have hsecond : StraightLine (textWords unpairedText) 0 2
      (heldAfter 0x000100a3#32 1 (heldAfter 0x00000097#32 0 none)) :=
    hfirst.next hstore (by decide +kernel)
  exact hheld ▸ hsecond

end CellScript.Checker
