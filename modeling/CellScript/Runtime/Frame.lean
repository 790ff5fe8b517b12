import CellScript.Runtime.Machine

/-!
# Slots of a frame

A slot is read and written relative to the stack pointer. An offset that does not fit the immediate
of the instruction is put into a scratch register first, the first one in a fixed order that the
access does not use itself.
-/

namespace CellScript.Runtime

open Assembler (Instruction)
open BitVec (ofNat)
open MachineState
open Blocks

/-- The order in which `scratch_register_avoiding` looks for a register. -/
def scratchRegisters : List Reg := [t6, t5, t3, t2, t1, t0]

def scratchRegisterAvoiding (registers : List Reg) : Option Reg :=
  scratchRegisters.find? (· ∉ registers)

/-- The code of `emit_stack_access_with_avoid` for an instruction that takes a base and an
immediate. Nothing is emitted if there is no scratch register. -/
def stackAccess (op : Reg → ℤ → Instruction) (register : Reg) (offset : ℕ) (avoid : List Reg) :
    List Instruction :=
  if offset ≤ 2047 then [op sp offset]
  else
    match scratchRegisterAvoiding (register :: avoid) with
    | some scratch => [.li scratch offset, .add scratch sp scratch, op scratch 0]
    | none => []

/-- The code of `emit_stack_load`. -/
def stackLoad (rd : Reg) (offset : ℕ) : List Instruction := stackAccess (.ld rd) rd offset []

/-- The code of `emit_stack_store`. -/
def stackStore (rs : Reg) (offset : ℕ) : List Instruction := stackAccess (.sd rs) rs offset []

/-- The code of `emit_large_addi`. -/
def largeAddi (rd rs1 : Reg) (imm : ℤ) : List Instruction :=
  if -2048 ≤ imm ∧ imm ≤ 2047 then [.addi rd rs1 imm]
  else if rd ≠ rs1 ∧ rd ≠ zero ∧ rd ≠ sp then [.li rd imm, .add rd rs1 rd]
  else
    match scratchRegisterAvoiding [rs1] with
    | some scratch => [.li scratch imm, .add rd rs1 scratch]
    | none => []

/-- The code of `emit_sp_addi` for a register other than the stack pointer. -/
def spAddi (rd : Reg) (offset : ℕ) : List Instruction :=
  if offset ≤ 2047 then [.addi rd sp offset] else [.li rd offset, .add rd sp rd]

/-- Registers stored to the slots from an offset on. -/
def stackStores (offset : ℕ) (slots : List (Reg × ℕ)) : List Instruction :=
  slots.flatMap fun slot ↦ stackStore slot.1 (offset + slot.2)

/-- Registers loaded from the slots from an offset on. -/
def stackLoads (offset : ℕ) (slots : List (Reg × ℕ)) : List Instruction :=
  slots.flatMap fun slot ↦ stackLoad slot.1 (offset + slot.2)

section

variable {e : Surroundings} {helpers : String → Option Program} {C : Code (machine e helpers)}
  {rest : List Instruction} {fall : Option String} {s s' : State} {rd rs : Reg} {offset : ℕ}
  {slots : List (Reg × ℕ)}

/-- With one register in use there is a scratch register. -/
theorem exists_scratch (r : Reg) :
    ∃ scratch, scratchRegisterAvoiding [r] = some scratch ∧ scratch ≠ r ∧ scratch ∈ [t5, t6] ∧
      scratch ≠ zero ∧ sp ≠ scratch := by
  by_cases h : r = t6
  · exact ⟨t5, by rw [h]; rfl, by rw [h]; decide, by decide⟩
  · refine ⟨t6, ?_, fun heq ↦ h heq.symm, by decide⟩
    rw [scratchRegisterAvoiding, scratchRegisters, List.find?_cons_of_pos]
    simpa using fun heq : t6 = r ↦ h heq.symm

/-- The state once the address of a slot is in a scratch register, if it has to be. -/
def addressed (r : Reg) (offset : ℕ) (s : State) : State :=
  if offset ≤ 2047 then s
  else (scratchRegisterAvoiding [r]).elim s (s.set · (s.get sp + ofNat 64 offset))

theorem quiet_addressed : Quiet [t5, t6] s (addressed rd offset s) := by
  obtain ⟨scratch, hscratch, -, hmem, -⟩ := exists_scratch rd
  rw [addressed, hscratch]
  split
  · exact .refl
  · exact (State.quiet_set_iff hmem).2 .refl

@[simp] theorem get_addressed {r : Reg} (hr : r ∉ [t5, t6]) :
    (addressed rd offset s).get r = s.get r := quiet_addressed.kept r hr

@[simp] theorem mem_addressed : (addressed rd offset s).mem = s.mem := quiet_addressed.mem

@[simp] theorem keeps_addressed_iff {rs : List Reg} (h5 : t5 ∈ rs) (h6 : t6 ∈ rs) :
    Keeps rs s (addressed rd offset s') ↔ Keeps rs s s' := by
  have hsub : [t5, t6] ⊆ rs := by simp [h5, h6]
  refine forall₂_congr fun r hr ↦ ?_
  rw [get_addressed fun hmem ↦ hr (hsub hmem)]

@[simp] theorem quiet_addressed_iff {rs : List Reg} (h5 : t5 ∈ rs) (h6 : t6 ∈ rs) :
    Quiet rs s (addressed rd offset s') ↔ Quiet rs s s' :=
  ⟨fun h ↦ ⟨(keeps_addressed_iff h5 h6).1 h.regs, mem_addressed.symm.trans h.mem⟩,
    fun h ↦ ⟨(keeps_addressed_iff h5 h6).2 h.regs, mem_addressed.trans h.mem⟩⟩

/-- **The rules of slots**, for rewriting: what is left to show after a slot has been accessed, and
what a scratch register does not change. -/
theorem slot_rules :
    (∀ {e helpers} {C : Code (machine e helpers)} {rd offset rest fall s}, rd ≠ zero →
      (C.Runs (stackLoad rd offset ++ rest) fall s ↔ C.Runs rest fall
        ((addressed rd offset s).set rd (load s.mem (s.get sp + ofNat 64 offset) 8)))) ∧
    (∀ {e helpers} {C : Code (machine e helpers)} {rs offset rest fall s},
      C.Runs (stackStore rs offset ++ rest) fall s ↔
        C.Runs rest fall ((addressed rs offset s).setMem
        (store s.mem (s.get sp + ofNat 64 offset) 8 (s.get rs)))) ∧
    (∀ {e helpers} {C : Code (machine e helpers)} {rd offset rest fall s}, rd ≠ zero → sp ≠ rd →
      (C.Runs (spAddi rd offset ++ rest) fall s ↔
        C.Runs rest fall (s.set rd (s.get sp + ofNat 64 offset)))) ∧
    (∀ {r offset s x}, x ∉ [t5, t6] → (addressed r offset s).get x = s.get x) ∧
    (∀ {r offset s}, (addressed r offset s).mem = s.mem) ∧
    (∀ {s : State} {m x}, (s.setMem m).get x = s.get x) ∧
    ∀ {s : State} {m}, (s.setMem m).mem = m := by
  refine ⟨fun {e helpers C rd offset rest fall s} hrd ↦ ?_,
    fun {e helpers C rs offset rest fall s} ↦ ?_,
    fun {e helpers C rd offset rest fall s} hrd hsp ↦ ?_, get_addressed, mem_addressed, rfl,
    rfl⟩
  · obtain ⟨scratch, hscratch, hne, hmem, hzero, hsp⟩ := exists_scratch rd
    rw [stackLoad, stackAccess, addressed, hscratch]
    split
    · simp only [runs_rules, act]
    · simp (disch := assumption) only [runs_rules, act, set_rules, State.set_set, Option.elim_some,
        BitVec.add_zero]
  · obtain ⟨scratch, hscratch, hne, hmem, hzero, hsp⟩ := exists_scratch rs
    rw [stackStore, stackAccess, addressed, hscratch]
    split
    · simp only [runs_rules, act]
    · simp (disch := first | assumption | exact hne.symm) only [runs_rules, act, set_rules,
        State.set_set, Option.elim_some, BitVec.add_zero]
  · rw [spAddi]
    split
    · simp only [runs_rules, act]
    · simp (disch := assumption) only [runs_rules, act, set_rules, State.set_set]

theorem runs_stackAdjustment {imm : ℤ}
    (h : ∀ s', s'.get sp = s.get sp + BitVec.ofInt 64 imm → Quiet [sp, t6] s s' →
      C.Runs rest fall s') : C.Runs (largeAddi sp sp imm ++ rest) fall s := by
  have hscratch : scratchRegisterAvoiding [sp] = some t6 := rfl
  rw [largeAddi, hscratch, if_neg (show ¬ (sp ≠ sp ∧ sp ≠ zero ∧ sp ≠ sp) from fun h ↦ h.1 rfl)]
  split
  · exact runs_cons.2 (follows_next.2 (h _ get_set_self (by simp)))
  · simp (disch := decide) only [runs_rules, act, set_rules]
    exact h _ get_set_self (by simp)

/-- Slots that do not overlap. -/
def SlotsApart (slots : List (Reg × ℕ)) : Prop :=
  slots.Pairwise fun p q ↦ p.2 + 8 ≤ q.2 ∨ q.2 + 8 ≤ p.2

instance {slots : List (Reg × ℕ)} : Decidable (SlotsApart slots) :=
  inferInstanceAs (Decidable (List.Pairwise _ _))

/-- What a row of stores leaves behind. -/
structure SlotsStored (offset : ℕ) (slots : List (Reg × ℕ)) (s s' : State) : Prop where
  values : ∀ slot ∈ slots, load s'.mem (s.get sp + ofNat 64 (offset + slot.2)) 8 = s.get slot.1
  regs : Keeps [t5, t6] s s'
  agree : ∀ lo hi, hi ≤ 2 ^ 64 → (∀ slot ∈ slots, offset + slot.2 + 8 ≤ lo ∨ hi ≤ offset + slot.2) →
    Agree (s.get sp) lo hi s.mem s'.mem

/-- **A row of registers is stored.** -/
theorem runs_stackStores (hregs : ∀ slot ∈ slots, slot.1 ∉ [t5, t6]) (hapart : SlotsApart slots)
    (hroom : ∀ slot ∈ slots, offset + slot.2 + 8 ≤ 2 ^ 64)
    (h : ∀ s', SlotsStored offset slots s s' → C.Runs rest fall s') :
    C.Runs (stackStores offset slots ++ rest) fall s := by
  induction slots generalizing s with
  | nil => exact h s ⟨nofun, .refl, fun _ _ _ _ ↦ .refl⟩
  | cons slot slots ih =>
    obtain ⟨hslot, hapart⟩ := List.pairwise_cons.1 hapart
    obtain ⟨hroom₁, hroom⟩ := forall_mem_cons.1 hroom
    obtain ⟨hreg, hregs⟩ := forall_mem_cons.1 hregs
    simp only [stackStores, flatMap_cons, append_assoc, slot_rules]
    refine ih hregs hapart hroom fun s₂ h₂ ↦ h s₂ ?_
    obtain ⟨hvalues, hkeeps, hagree⟩ := h₂
    simp (disch := decide) only [slot_rules] at hvalues hagree
    refine ⟨forall_mem_cons.2 ⟨?_, fun other hother ↦ ?_⟩, Keeps.trans (by simp) hkeeps,
      fun lo hi hhi hout ↦ ?_⟩
    · have hslots := hagree (offset + slot.2) (offset + slot.2 + 8) (by omega) fun other hother ↦ by
        have := hslot other hother
        omega
      rw [hslots.load, load_store_self hroom₁]
    · rw [hvalues other hother, get_addressed (hregs other hother)]
    · obtain ⟨hout₁, hout⟩ := forall_mem_cons.1 hout
      exact (Agree.refl.store hhi hout₁ hroom₁).trans (hagree lo hi hhi hout)

/-- What a row of loads leaves behind. -/
structure SlotsLoaded (offset : ℕ) (slots : List (Reg × ℕ)) (s s' : State) : Prop where
  values : ∀ slot ∈ slots, s'.get slot.1 = load s.mem (s.get sp + ofNat 64 (offset + slot.2)) 8
  regs : Keeps (t5 :: t6 :: slots.map (·.1)) s s'
  mem : s'.mem = s.mem

/-- **A row of registers is loaded.** -/
theorem runs_stackLoads (hregs : ∀ slot ∈ slots, slot.1 ∉ [zero, sp, t5, t6])
    (hdistinct : (slots.map (·.1)).Nodup)
    (h : ∀ s', SlotsLoaded offset slots s s' → C.Runs rest fall s') :
    C.Runs (stackLoads offset slots ++ rest) fall s := by
  induction slots generalizing s with
  | nil => exact h s ⟨nofun, .refl, rfl⟩
  | cons slot slots ih =>
    obtain ⟨hreg, hregs⟩ := forall_mem_cons.1 hregs
    obtain ⟨hnew, hdistinct⟩ := nodup_cons.1 (map_cons ▸ hdistinct)
    simp only [mem_cons, not_mem_nil, or_false, not_or] at hreg
    simp (disch := exact hreg.1) only [stackLoads, flatMap_cons, append_assoc, slot_rules]
    refine ih hregs hdistinct fun s₂ h₂ ↦ h s₂ ?_
    obtain ⟨hvalues, hkeeps, hmem⟩ := h₂
    simp (disch := first | decide | exact Ne.symm hreg.2.1) only [slot_rules, set_rules]
      at hvalues hmem
    refine ⟨forall_mem_cons.2 ⟨?_, hvalues⟩, ?_, hmem⟩
    · rw [hkeeps slot.1 (by simp only [mem_cons, not_or]; exact ⟨hreg.2.2.1, hreg.2.2.2, hnew⟩),
        get_set_self hreg.1]
    · refine Keeps.trans (by simp) (hkeeps.mono ?_)
      intro r hr
      simp only [map_cons, mem_cons] at hr ⊢
      tauto

end

end CellScript.Runtime
