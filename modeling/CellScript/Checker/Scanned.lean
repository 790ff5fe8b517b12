import CellScript.Checker.Elf

/-!
# What an accepted text satisfies

The inversion of the instruction scan: a text that `parseText` accepts has been scanned word by
word, and each word has passed every check under the marker that the words before it left.
-/

namespace CellScript.Checker

open Rv64 (Word Byte)

variable {bytes : List Byte} {base index i address : ℕ} {range : MachineRange} {s s' : ScanState}
  {w : Word} {ws ws' : List Word} {decoded : DecodedText}

/-- Reading a word of the section is reading the list of its words. -/
theorem instructionWord_ok_iff : ∀ {bytes : List Byte} {i : ℕ},
    instructionWord bytes i = .ok w ↔ (textWords bytes)[i]? = some w
  | b₀ :: b₁ :: b₂ :: b₃ :: rest, 0 => by
    simp [instructionWord, readU32, textWords]
  | b₀ :: b₁ :: b₂ :: b₃ :: rest, i + 1 => by
    have hdrop : (b₀ :: b₁ :: b₂ :: b₃ :: rest).drop ((i + 1) * 4) = rest.drop (i * 4) := by
      rw [add_mul]
      rfl
    rw [instructionWord, readU32, hdrop, textWords, List.getElem?_cons_succ]
    exact instructionWord_ok_iff
  | [], i | [_], i | [_, _], i | [_, _, _], i => by
    cases i <;> simp [instructionWord, readU32, textWords, add_mul]

/-- What the scan has checked of a word, and what it has added to its state. -/
structure Admitted (bytes : List Byte) (base : ℕ) (range : MachineRange) (index : ℕ)
    (s : ScanState) (w : Word) (s' : ScanState) : Prop where
  allowed : instructionIsAllowed w = true
  ret : w = retWord → s.unconsumedAuipcRa = false
  recorded : ∃ adjustment target flows,
    validateStackPointerWrite bytes index w (base + index * 4) = .ok adjustment ∧
      wordTarget bytes index w (base + index * 4) = .ok target ∧
      checkedFlow range (base + index * 4) target = .ok flows ∧
      s' = s.record (base + index * 4) w adjustment flows

theorem admitted_of_scanWord (h : scanWord bytes base range index s w = .ok s') :
    Admitted bytes base range index s w s' := by
  unfold scanWord at h
  obtain ⟨hallowed, h⟩ := guard_ok.1 h
  obtain ⟨adjustment, hadjustment, h⟩ := bind_ok.1 h
  obtain ⟨hret, h⟩ := guard_ok.1 h
  obtain ⟨target, htarget, h⟩ := bind_ok.1 h
  obtain ⟨flows, hflows, h⟩ := bind_ok.1 h
  refine ⟨by simpa using hallowed, fun hw ↦ by simpa [hw] using hret,
    adjustment, target, flows, hadjustment, htarget, hflows, ?_⟩
  exact (ok.inj h).symm

theorem scanWords_append :
    scanWords bytes base range index s (ws ++ ws') = (do
      let s ← scanWords bytes base range index s ws
      scanWords bytes base range (index + ws.length) s ws') := by
  induction ws generalizing index s with
  | nil => rfl
  | cons w ws ih =>
    rw [cons_append, scanWords, scanWords, bind_assoc]
    refine bind_congr fun s₁ ↦ ?_
    rw [ih, length_cons, add_assoc, add_comm 1]

/-- **Every word of a scanned list was admitted**, after the words before it. -/
theorem exists_admitted (h : scanWords bytes base range 0 s ws = .ok s') (hi : ws[i]? = some w) :
    ∃ s₁ s₂, scanWords bytes base range 0 s (ws.take i) = .ok s₁ ∧
      Admitted bytes base range i s₁ w s₂ := by
  obtain ⟨hlt, rfl⟩ := List.getElem?_eq_some_iff.1 hi
  rw [← take_append_drop i ws, scanWords_append, bind_ok] at h
  obtain ⟨s₁, hs₁, h⟩ := h
  rw [List.drop_eq_getElem_cons hlt, scanWords, bind_ok] at h
  obtain ⟨s₂, hs₂, -⟩ := h
  have hindex : 0 + (ws.take i).length = i := by
    rw [zero_add, length_take, min_eq_left hlt.le]
  rw [hindex] at hs₂
  exact ⟨s₁, s₂, hs₁, admitted_of_scanWord hs₂⟩

/-- The marker after a list of words. -/
def unconsumedAfter (unconsumed : Bool) (ws : List Word) : Bool :=
  ws.foldl (fun u w ↦ nextUnconsumed w u) unconsumed

theorem unconsumedAfter_take_succ {u : Bool} (hi : ws[i]? = some w) :
    unconsumedAfter u (ws.take (i + 1)) = nextUnconsumed w (unconsumedAfter u (ws.take i)) := by
  rw [take_add_one, hi, unconsumedAfter, List.foldl_append]
  rfl

theorem scanWords_recorded (h : scanWords bytes base range index s ws = .ok s') :
    s'.unconsumedAuipcRa = unconsumedAfter s.unconsumedAuipcRa ws ∧
      s'.instructions.map (·.word) = s.instructions.map (·.word) ++ ws := by
  induction ws generalizing index s with
  | nil =>
    obtain rfl := ok.inj h
    exact ⟨rfl, (append_nil _).symm⟩
  | cons w ws ih =>
    obtain ⟨s₁, hs₁, h⟩ := bind_ok.1 h
    obtain ⟨_, _, _, -, -, -, rfl⟩ := (admitted_of_scanWord hs₁).recorded
    obtain ⟨hmarker, hwords⟩ := ih h
    refine ⟨hmarker, ?_⟩
    rw [hwords]
    simp [ScanState.record]

/-- **The scan behind an accepted text.** -/
theorem exists_scanWords_of_parseText (h : parseText bytes address = .ok decoded) :
    ∃ s, scanWords bytes address ⟨address, min (address + bytes.length) (2 ^ 64 - 1)⟩ 0 {}
        (textWords bytes) = .ok s ∧ s.toDecodedText = decoded ∧
      decoded.controlFlow.any (entersCall address decoded.instructions) = false := by
  obtain ⟨decoded', hscan, h⟩ := bind_ok.1 h
  obtain ⟨s, hs, hdecoded⟩ := bind_ok.1 hscan
  obtain ⟨hcalls, h⟩ := guard_ok.1 h
  obtain rfl : s.toDecodedText = decoded' := ok.inj hdecoded
  obtain rfl : s.toDecodedText = decoded := ok.inj h
  exact ⟨s, hs, rfl, by simpa using hcalls⟩

/-- **A `ret` is scanned with the marker down.** -/
theorem unconsumedAfter_of_ret (h : parseText bytes address = .ok decoded)
    (hi : (textWords bytes)[i]? = some retWord) :
    unconsumedAfter false ((textWords bytes).take i) = false := by
  obtain ⟨s, hs, -, -⟩ := exists_scanWords_of_parseText h
  obtain ⟨s₁, s₂, hs₁, hadmitted⟩ := exists_admitted hs hi
  have hmarker : s₁.unconsumedAuipcRa = unconsumedAfter false _ := (scanWords_recorded hs₁).1
  exact hmarker.symm.trans (hadmitted.ret rfl)

end CellScript.Checker
