import CellScript.Assembler.Placement

/-!
# Accepted text links

What an accepted assembly text becomes when its ELF file is loaded. `Linked` collects it: every
operation occupies the bytes layout reserved for it, the address recorded for a label is that of the
operations after it, and every branch, jump, call and `la`, run on the loaded bytes, goes to or
computes the address recorded for its label.

Calls are the exception. A call is `auipc` and `jalr`, and `jalr` clears the lowest bit of its
target, while nothing in the assembler keeps a called label at an even address: `.byte` and `.ascii`
may move it to an odd one. Branches and jumps to such a label are refused by their encoders, calls
are not. So an accepted text links if and only if its called labels have an even number of data
bytes before them (`linked_iff_callsEven`).
-/

namespace CellScript.Assembler

open BitVec (ofNat)
open Rv64 (Reg Word Byte leBytes Memory Holds State)
open Rv64 MachineLayoutPlan

/-! ### Linked images -/

/-- Whether a conditional branch is taken, and its label. -/
def Instruction.condition (s : State) : Instruction → Option (Bool × String)
  | .beq rs1 rs2 label => some (s.get rs1 == s.get rs2, label)
  | .bne rs1 rs2 label => some (!(s.get rs1 == s.get rs2), label)
  | .blt rs1 rs2 label => some ((s.get rs1).slt (s.get rs2), label)
  | .bge rs1 rs2 label => some (!(s.get rs1).slt (s.get rs2), label)
  | .bltu rs1 rs2 label => some ((s.get rs1).ult (s.get rs2), label)
  | .bgeu rs1 rs2 label => some (!(s.get rs1).ult (s.get rs2), label)
  | .beqz rs label => some (s.get rs == 0#64, label)
  | .bnez rs label => some (!(s.get rs == 0#64), label)
  | _ => none

/-- An instruction with a label, run at `pc`, does what it says with the label's address. -/
def Instruction.Reaches (m : Memory) (address : String → Result ℕ) (relaxed : Bool) (pc : ℕ)
    (inst : Instruction) : Prop :=
  ∀ s : State, s.pc = ofNat 64 pc → match inst with
    | .la rd label => ∃ a, address label = .ok a ∧
      run m 2 s = some ((s.jump (ofNat 64 (pc + 8))).set rd (ofNat 64 a))
    | .call label => ∃ a, address label = .ok a ∧
      run m 2 s = some ((s.jump (ofNat 64 a)).set 1#5 (ofNat 64 (pc + 8)))
    | .jump label => ∃ a, address label = .ok a ∧
      run m 1 s = some (s.jump (ofNat 64 a))
    | inst => ∀ taken label, inst.condition s = some (taken, label) →
      ∃ a, address label = .ok a ∧
        if taken then run m (if relaxed then 2 else 1) s = some (s.jump (ofNat 64 a))
        else run m 1 s = some (s.jump (ofNat 64 (pc + if relaxed then 8 else 4)))

/-- The output a section starts after. -/
def SectionKind.bias : SectionKind → ℕ
  | .text => startTrampolineSize
  | .rodata => 0

/-- The image in memory is the one the plan describes. -/
structure Linked (lines : List String) (plan : MachineLayoutPlan) (m : Memory) : Prop where
  size {k : SectionKind} {before : List LocatedAsmOp} {op : LocatedAsmOp}
    {after : List LocatedAsmOp} : (plan.parsed.section_ k).ops = before ++ op :: after →
    ∃ sofar bytes offset,
      layoutOps (.exact plan.parsed.relaxedTextBranches) k 0 0 before = .ok offset ∧
      sofar.length = k.bias + offset ∧
      encodeOp plan.parsed k plan.layout k.bias before.length sofar op = .ok (sofar ++ bytes) ∧
      opSize op.op offset k before.length (.exact plan.parsed.relaxedTextBranches) =
        .ok bytes.length ∧
      Holds m (ofNat 64 (plan.layout.base k + offset)) bytes
  label {label : String} {address : ℕ} : plan.parsed.symbolAddress label plan.layout = .ok address →
    ∃ k before p after sofar bytes offset,
      (plan.parsed.section_ k).ops = before ++ ⟨.label label, p⟩ :: after ∧
      layoutOps (.exact plan.parsed.relaxedTextBranches) k 0 0 before = .ok offset ∧
      address = plan.layout.base k + offset ∧ sofar.length = k.bias + offset ∧
      encodeOps plan.parsed k plan.layout k.bias (before.length + 1) sofar after =
        .ok (sofar ++ bytes) ∧
      Holds m (ofNat 64 address) bytes
  reaches {k : SectionKind} {before : List LocatedAsmOp} {inst : Instruction}
    {p : GeneratedAssemblyProvenance} {after : List LocatedAsmOp} {offset : ℕ} :
    (plan.parsed.section_ k).ops = before ++ ⟨.instruction inst, p⟩ :: after →
    layoutOps (.exact plan.parsed.relaxedTextBranches) k 0 0 before = .ok offset →
    inst.Reaches m (plan.parsed.symbolAddress · plan.layout)
      (decide (k = .text ∧ before.length ∈ plan.parsed.relaxedTextBranches))
      (plan.layout.base k + offset)
  start {entry : String} : plan.parsed.entryLabel = some entry →
    entryRequiresExplicitParameterAbi lines entry = false →
    (Instruction.call entry).Reaches m (plan.parsed.symbolAddress · plan.layout) false
      plan.layout.textBase

/-! ### Data bytes before a label -/

/-- Whether an even number of bytes stands before, after one more operation. -/
def AsmOp.keepsEven (even : Bool) : AsmOp → Bool
  | .byte _ => !even
  | .ascii bytes => if bytes.length % 2 = 0 then even else !even
  | .align n => even || decide (1 < n)
  | _ => even

/-- Instructions and words do not count: only data bytes move a label to an odd address. -/
def evenAfter (ops : List AsmOp) : Bool := ops.foldl AsmOp.keepsEven true

/-- The labels the text calls, and its entry point, which the trampoline calls. -/
def Called (lines : List String) (label : String) : Prop :=
  (∃ k, .instruction (.call label) ∈ sectionOps k .text (statements lines)) ∨
    (entryPoint lines = some label ∧ entryRequiresExplicitParameterAbi lines label = false)

/-- Every called label has an even number of data bytes before it. -/
def CallsEven (lines : List String) : Prop :=
  ∀ label, Called lines label → ∀ k before after,
    sectionOps k .text (statements lines) = before ++ .label label :: after →
      evenAfter before = true

/-! ### Running the emitted instructions -/

variable {m : Memory} {a n : ℕ} {layout : SectionLayout}

section Running

variable {s : State} {pc : ℕ} {bytes : List Byte} {funct3 : BitVec 3} {inst : Instruction}
  {rs1 rs2 : Reg} {taken relaxed : Bool} {label : String} {parsed : ParsedAssembly}

theorem ofNat_add_eq (hpc : s.pc = ofNat 64 pc) (n : ℕ) :
    s.pc + ofNat 64 n = ofNat 64 (pc + n) := by
  rw [hpc, ofNat_add]

/-- The function code of a branch stands for its condition. -/
theorem branchTaken_of_condition {label' : String}
    (hcondition : inst.condition s = some (taken, label))
    (hparts : conditionalBranchParts inst = some (rs1, rs2, label', funct3)) :
    label' = label ∧ branchTaken funct3 (s.get rs1) (s.get rs2) = some taken ∧
      branchTaken (inverseBranchFunct3 funct3) (s.get rs1) (s.get rs2) = some !taken := by
  have hzero : s.get 0#5 = 0#64 := by simp [State.get]
  cases inst <;> cases hcondition <;> cases hparts <;>
    simp [branchTaken, inverseBranchFunct3, hzero]

variable (hm : Holds m (ofNat 64 pc) bytes) (hpc : s.pc = ofNat 64 pc)

include hm hpc

theorem run_encodeAddressSequence {rd : Reg} (h : encodeAddressSequence rd pc a = .ok bytes) :
    run m 2 s = some ((s.jump (ofNat 64 (pc + 8))).set rd (ofNat 64 a)) := by
  obtain ⟨distance, hi, lo, addi, hdistance, hsplit, haddi, rfl⟩ := encodeAddressSequence_ok h
  rw [run_auipc_addi hsplit haddi (by rw [hpc]; exact hm), ofNat_add_eq hpc 8, hpc,
    ofNat_add_relativeOffset hdistance]

/-- A call reaches the even address at or below its target. -/
theorem run_encodeCallSequence (h : encodeCallSequence pc a = .ok bytes) :
    run m 2 s = some ((s.jump (ofNat 64 a &&& ~~~1#64)).set 1#5 (ofNat 64 (pc + 8))) := by
  obtain ⟨distance, hi, lo, jalr, hdistance, hsplit, hjalr, rfl⟩ := encodeCallSequence_ok h
  rw [run_auipc_jalr hsplit hjalr (by rw [hpc]; exact hm), ofNat_add_eq hpc 8, hpc,
    ofNat_add_relativeOffset hdistance]

theorem run_encodeJump (h : encodeJump pc a = .ok bytes) :
    run m 1 s = some (s.jump (ofNat 64 a)) := by
  obtain ⟨distance, w, hdistance, hw, rfl⟩ := encodeJump_ok h
  rw [run_one (by rw [hpc]; exact hm), exec_encodeJType hw, hpc,
    ofNat_add_relativeOffset hdistance, State.set_zero]

theorem run_encodeShortBranch (h : encodeShortBranch funct3 rs1 rs2 pc a = .ok bytes)
    (htaken : branchTaken funct3 (s.get rs1) (s.get rs2) = some taken) :
    run m 1 s = some (s.jump (ofNat 64 (if taken then a else pc + 4))) := by
  obtain ⟨distance, w, hdistance, hw, rfl⟩ := encodeShortBranch_ok h
  rw [run_one (by rw [hpc]; exact hm), exec_encodeBType hw, htaken, ofNat_add_eq hpc 4, hpc,
    ofNat_add_relativeOffset hdistance]
  cases taken <;> rfl

/-- The inverse branch skips the jump exactly when the branch is not taken. -/
theorem run_encodeRelaxedBranch (h : encodeRelaxedBranch funct3 rs1 rs2 pc a = .ok bytes)
    (htaken : branchTaken (inverseBranchFunct3 funct3) (s.get rs1) (s.get rs2) = some !taken) :
    if taken then run m 2 s = some (s.jump (ofNat 64 a))
    else run m 1 s = some (s.jump (ofNat 64 (pc + 8))) := by
  obtain ⟨skip, distance, jump, hskip, hdistance, hjump, rfl⟩ := encodeRelaxedBranch_ok h
  rw [← hpc] at hm
  have height : BitVec.ofInt 64 8 = ofNat 64 8 := rfl
  have hexec : exec skip s = some (s.jump (s.pc + if taken then 4#64 else 8#64)) := by
    rw [exec_encodeBType hskip, htaken]
    cases taken <;> rfl
  cases taken with
  | true =>
    have hnext : (s.jump (s.pc + 4#64)).pc = ofNat 64 (pc + 4) := ofNat_add_eq hpc 4
    have hrun := run_two hm hexec rfl
    rw [exec_encodeJType hjump] at hrun
    change run m 2 s = some (((s.jump (s.pc + 4#64)).jump
      ((s.jump (s.pc + 4#64)).pc + BitVec.ofInt 64 distance)).set 0#5 _) at hrun
    rw [hnext, ofNat_add_relativeOffset hdistance] at hrun
    exact hrun
  | false =>
    have hrun := run_one hm.append_left
    rw [hexec] at hrun
    rw [← ofNat_add_eq hpc 8]
    exact hrun

theorem reaches_encodeConditionalBranch
    (hparts : conditionalBranchParts inst = some (rs1, rs2, label, funct3))
    (h : encodeConditionalBranch rs1 rs2 label funct3 pc parsed layout relaxed = .ok bytes)
    (taken : Bool) (target : String) (hcondition : inst.condition s = some (taken, target)) :
    ∃ a, parsed.symbolAddress target layout = .ok a ∧
      if taken then run m (if relaxed then 2 else 1) s = some (s.jump (ofNat 64 a))
      else run m 1 s = some (s.jump (ofNat 64 (pc + if relaxed then 8 else 4))) := by
  obtain ⟨rfl, htaken, hinverse⟩ := branchTaken_of_condition hcondition hparts
  rw [encodeConditionalBranch, bind_ok] at h
  obtain ⟨a, ha, h⟩ := h
  refine ⟨a, ha, ?_⟩
  cases relaxed with
  | true => exact run_encodeRelaxedBranch hm hpc h hinverse
  | false =>
    have hrun := run_encodeShortBranch hm hpc h htaken
    cases taken <;> exact hrun

omit hm hpc

theorem and_not_one_eq_iff (a : ℕ) : ofNat 64 a &&& ~~~1#64 = ofNat 64 a ↔ a % 2 = 0 := by
  constructor
  · intro h
    have hbit := congrArg (fun x ↦ BitVec.getLsbD x 0) h
    simp only [BitVec.getLsbD_and, BitVec.getLsbD_not, BitVec.getLsbD_ofNat] at hbit
    simpa using hbit
  · intro h
    apply BitVec.eq_of_getLsbD_eq
    intro i hi
    simp only [BitVec.getLsbD_and, BitVec.getLsbD_not, BitVec.getLsbD_ofNat]
    cases i with
    | zero => simpa using h
    | succ i =>
      have hone : Nat.testBit 1 (i + 1) = false := by simp [Nat.testBit_succ]
      simp [hi, hone]

/-- **Running an encoded instruction.** It reaches its label; a call does if the label is even. -/
theorem reaches_of_encodeInstruction
    (h : encodeInstruction inst pc parsed layout relaxed = .ok bytes)
    (hm : Holds m (ofNat 64 pc) bytes)
    (hcall : ∀ label a, inst = .call label → parsed.symbolAddress label layout = .ok a →
      a % 2 = 0) : inst.Reaches m (parsed.symbolAddress · layout) relaxed pc := by
  intro s hpc
  cases inst with
  | la rd label =>
    obtain ⟨a, ha, hbytes⟩ := bind_ok.1 h
    exact ⟨a, ha, run_encodeAddressSequence hm hpc hbytes⟩
  | call label =>
    obtain ⟨a, ha, hbytes⟩ := bind_ok.1 h
    refine ⟨a, ha, ?_⟩
    rw [run_encodeCallSequence hm hpc hbytes, (and_not_one_eq_iff a).2 (hcall label a rfl ha)]
  | jump label =>
    obtain ⟨a, ha, hbytes⟩ := bind_ok.1 h
    exact ⟨a, ha, run_encodeJump hm hpc hbytes⟩
  | beq _ _ _ | bne _ _ _ | blt _ _ _ | bge _ _ _ | bltu _ _ _ | bgeu _ _ _ | beqz _ _ | bnez _ _ =>
    exact reaches_encodeConditionalBranch hm hpc rfl h
  | _ => exact fun taken label hcondition ↦ by cases hcondition

/-- A call that reaches its label was to an even address. -/
theorem even_of_reaches_call {address : String → Result ℕ}
    (hreaches : (Instruction.call label).Reaches m address relaxed pc) (ha : address label = .ok a)
    (h : encodeCallSequence pc a = .ok bytes) (hm : Holds m (ofNat 64 pc) bytes) : a % 2 = 0 := by
  obtain ⟨a', ha', hrun⟩ := hreaches ⟨ofNat 64 pc, fun _ ↦ 0#64⟩ rfl
  rw [ha] at ha'
  cases ha'
  rw [run_encodeCallSequence hm rfl h] at hrun
  have hpc := congrArg State.pc (some.inj hrun)
  exact (and_not_one_eq_iff a).1 hpc

end Running

/-! ### Parity of addresses -/

theorem mod_four_liSequenceSize {imm : ℤ} (h : liSequenceSize imm = .ok n) : n % 4 = 0 := by
  simp only [liSequenceSize, bind_ok, pure_ok] at h
  omega

theorem mod_four_branchSize (mode : BranchSizeMode) (k : SectionKind) (i : ℕ) :
    mode.branchSize k i % 4 = 0 := by
  cases mode with
  | conservative =>
    show 8 % 4 = 0
    rfl
  | exact relaxed =>
    rw [BranchSizeMode.branchSize]
    split <;> rfl

variable {mode : BranchSizeMode} {k k' : SectionKind} {offset i : ℕ} {inst : Instruction}

theorem mod_four_opSize (h : opSize (.instruction inst) offset k i mode = .ok n) : n % 4 = 0 := by
  cases inst with
  | li rd imm => exact mod_four_liSequenceSize h
  | beq _ _ _ | bne _ _ _ | blt _ _ _ | bge _ _ _ | bltu _ _ _ | bgeu _ _ _ | beqz _ _ | bnez _ _ =>
    cases h
    exact mod_four_branchSize mode k i
  | _ =>
    cases h
    rfl

/-- Padding to an even alignment ends at an even offset. -/
theorem even_alignUp {j : ℕ} (h : 1 < 2 ^ j) : alignUp offset (2 ^ j) % 2 = 0 := by
  obtain ⟨i, rfl⟩ : ∃ i, j = i + 1 := Nat.exists_eq_add_one.2 (by by_contra hj; simp_all)
  rw [alignUp, if_neg (by omega), Nat.pow_succ, ← Nat.mul_assoc]
  exact Nat.mul_mod_left _ _

/-- **One operation.** Layout and the count of data bytes agree on the parity. -/
theorem even_opSize {op : AsmOp} (halign : ∀ n, op = .align n → ∃ j, n = 2 ^ j)
    (h : opSize op offset k i mode = .ok n) :
    decide ((offset + n) % 2 = 0) = op.keepsEven (decide (offset % 2 = 0)) := by
  cases op with
  | label name =>
    cases h
    rfl
  | instruction inst =>
    have hfour := mod_four_opSize h
    show decide ((offset + n) % 2 = 0) = decide (offset % 2 = 0)
    rw [decide_eq_decide]
    omega
  | word w =>
    cases h
    show decide ((offset + 4) % 2 = 0) = decide (offset % 2 = 0)
    rw [decide_eq_decide]
    omega
  | byte b =>
    cases h
    rw [AsmOp.keepsEven, ← decide_not, decide_eq_decide]
    omega
  | ascii bytes =>
    cases h
    rw [AsmOp.keepsEven]
    split
    · rw [decide_eq_decide]
      omega
    · rw [← decide_not, decide_eq_decide]
      omega
  | align n =>
    cases h
    obtain ⟨j, rfl⟩ := halign n rfl
    have hpad : offset + paddingFor offset (2 ^ j) = alignUp offset (2 ^ j) :=
      Nat.add_sub_cancel' (le_alignUp _ _)
    rw [hpad, AsmOp.keepsEven]
    by_cases hj : 1 < 2 ^ j
    · simp [hj, even_alignUp hj]
    · rw [alignUp, if_pos (by omega)]
      simp [hj]

/-- **A run of operations.** -/
theorem even_layoutOps {ops : List LocatedAsmOp}
    (halign : ∀ op ∈ ops, ∀ n, op.op = .align n → ∃ j, n = 2 ^ j)
    (h : layoutOps mode k i offset ops = .ok n) :
    decide (n % 2 = 0) = (ops.map (·.op)).foldl AsmOp.keepsEven (decide (offset % 2 = 0)) := by
  induction ops generalizing i offset with
  | nil =>
    cases h
    rfl
  | cons op ops ih =>
    rw [layoutOps, bind_ok] at h
    obtain ⟨size, hsize, h⟩ := h
    rw [ih (fun op hop ↦ halign op (mem_cons_of_mem _ hop)) h,
      even_opSize (halign op mem_cons_self) hsize]
    rfl

theorem even_base (n : ℕ) (k : SectionKind) : (SectionLayout.forTextUserSize n).base k % 2 = 0 := by
  cases k with
  | text =>
    show (elfBaseAddr + startTrampolineSize) % 2 = 0
    decide
  | rodata =>
    have hbase : (SectionLayout.forTextUserSize n).base .rodata =
        0x10000 + (20 + n + 8 - 1) / 8 * 8 := rfl
    omega

/-- Every alignment of a text is to a power of two. -/
theorem align_eq_two_pow {lines : List String}
    (h : .align n ∈ sectionOps k k' (statements lines)) : ∃ j, n = 2 ^ j := by
  have hmem {line : Line} (hline : line ∈ statements lines) :
      ∃ clean, readLine clean = .ok line := by
    simp only [statements, mem_filterMap, bind_eq_some_iff] at hline
    obtain ⟨-, -, clean, -, hread⟩ := hline
    split at hread
    · cases hread
    · refine ⟨clean, ?_⟩
      cases hres : readLine clean with
      | error e => rw [hres] at hread; cases hread
      | ok read => rw [hres] at hread; cases hread; rfl
  have hop {stmts : List Line} : ∀ current, .align n ∈ sectionOps k current stmts →
      .op (.align n) ∈ stmts := by
    induction stmts with
    | nil => intro current hin; cases hin
    | cons line stmts ih =>
      intro current hin
      cases line with
      | section_ _ | ignored | global _ => exact mem_cons_of_mem _ (ih _ hin)
      | label name =>
        rw [sectionOps, mem_append] at hin
        obtain hin | hin := hin
        · split at hin <;> simp at hin
        · exact mem_cons_of_mem _ (ih _ hin)
      | op op =>
        rw [sectionOps, mem_append] at hin
        obtain hin | hin := hin
        · split at hin
          · rw [mem_singleton.1 hin]
            exact mem_cons_self
          · cases hin
        · exact mem_cons_of_mem _ (ih _ hin)
  obtain ⟨clean, hread⟩ := hmem (hop k' h)
  exact (parseAsmOp_ok (readLine_op_ok hread)).2 n rfl

/-! ### The main result -/

section Accepted

variable {lines : List String} {elf out : List Byte} {plan : MachineLayoutPlan}
  {parsed : ParsedAssembly} {label : String}

/-- What acceptance provides: the text as read, both sections emitted into the image, and the
trampoline's call in front of them. -/
structure Accepted (lines : List String) (plan : MachineLayoutPlan) (m : Memory) : Prop where
  reads : plan.parsed.Reads lines plan.parsed.relaxedTextBranches
  emitted (k : SectionKind) : ∃ start out, Emitted m plan.parsed plan.layout k k.bias start out
  start {entry : String} : plan.parsed.entryLabel = some entry →
    entryRequiresExplicitParameterAbi lines entry = false →
    ∃ target call, plan.parsed.symbolAddress entry plan.layout = .ok target ∧
      encodeCallSequence plan.layout.textBase target = .ok call ∧
      Holds m (ofNat 64 plan.layout.textBase) call

theorem accepted_of_assemble (h : assembleGeneratedElf lines = .ok elf)
    (hplan : MachineLayoutPlan.build lines = .ok plan)
    (halign : ∀ op ∈ plan.parsed.text.ops, ∀ n, op.op ≠ .align n) :
    Accepted lines plan (Elf.load elf) := by
  simp only [assembleGeneratedElf, assembleElfInternal, bind_ok, withCode_ok_iff,
    okOr_ok_iff] at h
  obtain ⟨-, -, plan', hplan', entry, hentry, trampoline, htrampoline, text, htext, rodata, hrodata,
    hwrite⟩ := h
  rw [hplan] at hplan'
  cases hplan'
  obtain ⟨⟨relaxed, hparsed⟩, hlayout⟩ := build_ok hplan
  have hreads := ParsedAssembly.reads_of_ok hparsed
  rw [← hreads.relaxed_eq] at hreads
  obtain ⟨hlength, hstart⟩ := encodeTrampoline_ok htrampoline
  have haligns : AlignsPlainly startTrampolineSize plan.parsed.text.ops :=
    fun op hop n hn ↦ absurd hn (halign op hop n)
  -- the text fills the room between the base and the read-only data
  obtain ⟨bytes, rfl, hsize⟩ := encodeOps_ok hlength.ge haligns htext
  rw [hlength] at hsize
  have htextLength : (trampoline ++ bytes).length =
      startTrampolineSize + plan.parsed.sectionSize .text := by
    have := ok.inj (hsize.symm.trans (hreads.size .text))
    rw [length_append] at this ⊢
    omega
  rw [hlayout] at hwrite
  obtain ⟨hholdsText, hholdsRodata⟩ := holds_writeElf hwrite htextLength
  have hbase : plan.layout.textBase = elfBaseAddr := by rw [hlayout]; rfl
  refine ⟨hreads, fun k ↦ ?_, fun {name} hname hmarker ↦ ?_⟩
  · cases k with
    | text =>
      refine ⟨trampoline, trampoline ++ bytes, hlength, ?_, haligns, htext, ?_⟩
      · rw [hlayout]
        exact Nat.le_add_left _ _
      · rw [hlayout]
        exact hholdsText
    | rodata =>
      refine ⟨[], rodata, rfl, Nat.zero_le _, fun _ _ _ _ ↦ rfl, hrodata, ?_⟩
      rw [hlayout]
      exact hholdsRodata
  · rw [hentry] at hname
    cases hname
    obtain ⟨target, call, rest, htarget, hcall, rfl⟩ := hstart hmarker
    refine ⟨target, call, htarget, hcall, ?_⟩
    rw [hbase]
    exact hholdsText.append_left.append_left

theorem symbolAddress_ok (h : parsed.symbolAddress label layout = .ok a) :
    ∃ symbol, parsed.symbols.lookup label = some symbol ∧
      a = layout.base symbol.section_ + symbol.offset := by
  rw [ParsedAssembly.symbolAddress] at h
  split at h
  · exact ⟨_, ‹_›, (ok.inj h).symm⟩
  · cases h

/-- A label of the text, among the parsed operations. -/
theorem exists_label_op {relaxed : List ℕ}
    (hreads : parsed.Reads lines relaxed) {before after : List AsmOp}
    (hops : sectionOps k .text (statements lines) = before ++ .label label :: after) :
    ∃ located p rest, (parsed.section_ k).ops = located ++ ⟨.label label, p⟩ :: rest ∧
      located.map (·.op) = before := by
  rw [← hreads.ops k] at hops
  obtain ⟨located, tail, hsplit, hbefore, htail⟩ := List.map_eq_append_iff.1 hops
  obtain ⟨⟨op, p⟩, rest, rfl, hop, -⟩ := List.map_eq_cons_iff.1 htail
  cases hop
  exact ⟨located, p, rest, hsplit, hbefore⟩

/-- The parity of a label's address is that of the data bytes before it. -/
theorem even_symbolAddress_iff (hplan : MachineLayoutPlan.build lines = .ok plan)
    (ha : plan.parsed.symbolAddress label plan.layout = .ok a) :
    a % 2 = 0 ↔ ∀ k before after, sectionOps k .text (statements lines) =
      before ++ .label label :: after → evenAfter before = true := by
  obtain ⟨⟨relaxed, hparsed⟩, hlayout⟩ := build_ok hplan
  have hreads := ParsedAssembly.reads_of_ok hparsed
  obtain ⟨symbol, hlookup, rfl⟩ := symbolAddress_ok ha
  have hbase := even_base (plan.parsed.sectionSize .text) symbol.section_
  rw [← hlayout] at hbase
  have hparity {k : SectionKind} {before rest : List LocatedAsmOp}
      (hops : (plan.parsed.section_ k).ops = before ++ rest)
      (hoffset : layoutOps (.exact relaxed) k 0 0 before = .ok symbol.offset) :
      (symbol.offset % 2 = 0) ↔ evenAfter (before.map (·.op)) = true := by
    have halign : ∀ op ∈ before, ∀ n, op.op = .align n → ∃ j, n = 2 ^ j := by
      intro op hop n hn
      have hmem : .align n ∈ sectionOps k .text (statements lines) := by
        rw [← hreads.ops k, hops, map_append]
        exact mem_append_left _ (mem_map.2 ⟨op, hop, hn⟩)
      exact align_eq_two_pow hmem
    exact decide_eq_true_iff.symm.trans (by rw [even_layoutOps halign hoffset]; rfl)
  constructor
  · intro heven k before after hops
    obtain ⟨located, p, rest, hsplit, rfl⟩ := exists_label_op hreads hops
    obtain ⟨symbol', hlookup', -, hoffset⟩ := hreads.lookup hsplit
    rw [hlookup] at hlookup'
    cases hlookup'
    exact (hparity hsplit hoffset).1 (by omega)
  · intro heven
    obtain ⟨before, p, after, hops, hoffset⟩ := hreads.recorded hlookup
    change (plan.parsed.section_ symbol.section_).ops = _ at hops
    have hmap : sectionOps symbol.section_ .text (statements lines) =
        before.map (·.op) ++ .label label :: after.map (·.op) := by
      rw [← hreads.ops, hops, map_append, map_cons]
    have := (hparity hops hoffset).2 (heven _ _ _ hmap)
    omega

/-- The bytes of an instruction, at its address. -/
theorem Emitted.instruction {start : List Byte} (h : Emitted m parsed layout k k.bias start out)
    {before after : List LocatedAsmOp} {p : GeneratedAssemblyProvenance}
    (hops : (parsed.section_ k).ops = before ++ ⟨.instruction inst, p⟩ :: after)
    (hoffset : layoutOps (.exact parsed.relaxedTextBranches) k 0 0 before = .ok offset) :
    ∃ bytes, encodeInstruction inst (layout.base k + offset) parsed layout
        (decide (k = .text ∧ before.length ∈ parsed.relaxedTextBranches)) = .ok bytes ∧
      Holds m (ofNat 64 (layout.base k + offset)) bytes := by
  obtain ⟨sofar, bytes, rest, hlayout, hbias, -, hop, -, hholds⟩ := h.split hops
  rw [hoffset] at hlayout
  cases hlayout
  simp only [encodeOp, GeneratedAssemblyProvenance.attach_ok_iff, if_neg (not_lt.2 hbias),
    bind_ok, pure_ok] at hop
  obtain ⟨emitted, hencode, heq⟩ := hop
  rw [append_cancel_left heq] at hencode
  exact ⟨bytes, hencode, hholds.append_left⟩

/-- The part of linking that needs no condition. -/
theorem Accepted.linked (h : Accepted lines plan m) (hreaches : ∀ label, Called lines label → ∀ a,
      plan.parsed.symbolAddress label plan.layout = .ok a → a % 2 = 0) : Linked lines plan m := by
  refine ⟨fun {k before op after} hops ↦ ?_, fun {label address} haddress ↦ ?_,
    fun {k before inst p after offset} hops hoffset ↦ ?_, fun {entry} hentry hmarker s hpc ↦ ?_⟩
  · obtain ⟨start, out, hemitted⟩ := h.emitted k
    obtain ⟨sofar, bytes, rest, hlayout, hbias, hsize, hop, -, hholds⟩ := hemitted.split hops
    exact ⟨sofar, bytes, _, hlayout, by omega, hop, hsize, hholds.append_left⟩
  · obtain ⟨symbol, hlookup, rfl⟩ := symbolAddress_ok haddress
    obtain ⟨before, p, after, hops, hoffset⟩ := h.reads.recorded hlookup
    obtain ⟨start, out, hemitted⟩ := h.emitted symbol.section_
    obtain ⟨sofar, bytes, rest, hlayout, hbias, hsize, -, hafter, hholds⟩ := hemitted.split hops
    have hnil : bytes = [] := length_eq_zero_iff.1 (ok.inj hsize).symm
    rw [hoffset] at hlayout
    have hsofar : symbol.offset = sofar.length - symbol.section_.bias := ok.inj hlayout
    rw [hnil, append_nil] at hafter
    rw [hnil, ← hsofar] at hholds
    exact ⟨_, before, p, after, sofar, rest, _, hops, hoffset, rfl, by omega, hafter, hholds⟩
  · obtain ⟨start, out, hemitted⟩ := h.emitted k
    obtain ⟨bytes, hencode, hholds⟩ := hemitted.instruction hops hoffset
    refine reaches_of_encodeInstruction hencode hholds fun label a hinst ha ↦ ?_
    refine hreaches label (.inl ⟨k, ?_⟩) a ha
    rw [← h.reads.ops k, hops, ← hinst]
    simp
  · obtain ⟨target, call, htarget, hcall, hholds⟩ := h.start hentry hmarker
    refine ⟨target, htarget, ?_⟩
    have heven := hreaches entry
        (.inr ⟨by rw [← h.reads.entryLabel, hentry], hmarker⟩) target htarget
    rw [run_encodeCallSequence hholds hpc hcall, (and_not_one_eq_iff target).2 heven]

/-- In a linked image the called labels are at even addresses. -/
theorem Accepted.even_of_linked (h : Accepted lines plan m)
    (hlinked : Linked lines plan m) (hcalled : Called lines label)
    (ha : plan.parsed.symbolAddress label plan.layout = .ok a) : a % 2 = 0 := by
  obtain ⟨k, hmem⟩ | ⟨hentry, hmarker⟩ := hcalled
  · rw [← h.reads.ops k] at hmem
    obtain ⟨⟨op, p⟩, hop, rfl⟩ := mem_map.1 hmem
    obtain ⟨before, after, hops⟩ := List.append_of_mem hop
    obtain ⟨sofar, bytes, offset, hoffset, -⟩ := hlinked.size hops
    obtain ⟨start, out, hemitted⟩ := h.emitted k
    obtain ⟨bytes, hencode, hholds⟩ := hemitted.instruction hops hoffset
    obtain ⟨a', ha', hbytes⟩ := bind_ok.1 hencode
    rw [ha] at ha'
    cases ha'
    exact even_of_reaches_call (hlinked.reaches hops hoffset) ha hbytes hholds
  · rw [← h.reads.entryLabel] at hentry
    obtain ⟨target, call, htarget, hcall, hholds⟩ := h.start hentry hmarker
    rw [ha] at htarget
    cases htarget
    exact even_of_reaches_call (hlinked.start hentry hmarker) ha hcall hholds

/-- **Linking.** The loaded image of an accepted text is the one its layout describes, for both
sections, all label references and both forms of conditional branches, if and only if every label
that is called, by the text or by the start trampoline, has an even number of data bytes before
it. -/
theorem linked_iff_callsEven (h : assembleGeneratedElf lines = .ok elf)
    (hplan : MachineLayoutPlan.build lines = .ok plan)
    (halign : ∀ op ∈ plan.parsed.text.ops, ∀ n, op.op ≠ .align n) :
    Linked lines plan (Elf.load elf) ↔ CallsEven lines := by
  have haccepted := accepted_of_assemble h hplan halign
  constructor
  · intro hlinked label hcalled k before after hops
    obtain ⟨located, p, rest, hsplit, -⟩ := exists_label_op haccepted.reads hops
    obtain ⟨symbol, hlookup, -⟩ := haccepted.reads.lookup hsplit
    have ha : plan.parsed.symbolAddress label plan.layout =
        .ok (plan.layout.base symbol.section_ + symbol.offset) := by
      rw [ParsedAssembly.symbolAddress, hlookup]
    exact (even_symbolAddress_iff hplan ha).1 (haccepted.even_of_linked hlinked hcalled ha)
      k before after hops
  · intro heven
    exact haccepted.linked fun label hcalled a ha ↦
      (even_symbolAddress_iff hplan ha).2 (heven label hcalled)

end Accepted

/-! ### Both sides on fixed texts -/

/-- No operation of the text section aligns. -/
def MachineLayoutPlan.textDoesNotAlign (plan : MachineLayoutPlan) : Bool :=
  plan.parsed.text.ops.all fun op ↦
    match op.op with
    | .align _ => false
    | _ => true

theorem MachineLayoutPlan.textDoesNotAlign_iff {plan : MachineLayoutPlan} :
    plan.textDoesNotAlign = true ↔ ∀ op ∈ plan.parsed.text.ops, ∀ n, op.op ≠ .align n := by
  rw [textDoesNotAlign, all_eq_true]
  refine forall₂_congr fun op _ ↦ ?_
  cases op.op <;> simp

/-- A text with calls, branches, data and read-only data. -/
def evenCallText : List String :=
  [".section .text", ".global entry", "entry:", "call f", "beq a0, a1, entry", "la t0, x",
    "j entry",
    ".byte 1", ".byte 2", "f:", "ret", ".section .rodata", ".align 3", "x:", ".ascii \"abc\""]

theorem linked_iff_callsEven_evenCallText :
    ∃ plan elf, MachineLayoutPlan.build evenCallText = .ok plan ∧
      assembleGeneratedElf evenCallText = .ok elf ∧
      (∀ op ∈ plan.parsed.text.ops, ∀ n, op.op ≠ .align n) ∧
      (Linked evenCallText plan (Elf.load elf) ↔ CallsEven evenCallText) := by
  obtain ⟨plan, hplan, halign⟩ := exists_of_toOption_any
    (show (MachineLayoutPlan.build evenCallText).toOption.any (·.textDoesNotAlign) = true by
      decide +kernel)
  obtain ⟨elf, helf, -⟩ := exists_of_toOption_any
    (show (assembleGeneratedElf evenCallText).toOption.any (fun _ ↦ true) = true by decide +kernel)
  rw [textDoesNotAlign_iff] at halign
  exact ⟨plan, elf, hplan, helf, halign, linked_iff_callsEven helf hplan halign⟩

/-- One data byte moves the called label to an odd address. -/
def oddCallText : List String :=
  [".section .text", ".global entry", "entry:", "call f", ".byte 1", "f:", "ret"]

/-- **An odd call.** The text is accepted, and its call does not reach its label. -/
theorem not_linked_oddCallText :
    ∃ plan elf, MachineLayoutPlan.build oddCallText = .ok plan ∧
      assembleGeneratedElf oddCallText = .ok elf ∧
      (∀ op ∈ plan.parsed.text.ops, ∀ n, op.op ≠ .align n) ∧
      ¬Linked oddCallText plan (Elf.load elf) := by
  obtain ⟨plan, hplan, hcheck⟩ := exists_of_toOption_any
    (show (MachineLayoutPlan.build oddCallText).toOption.any (fun plan ↦ plan.textDoesNotAlign &&
      (plan.parsed.symbolAddress "f" plan.layout).toOption == some 0x1001d) = true by
      decide +kernel)
  obtain ⟨elf, helf, -⟩ := exists_of_toOption_any
    (show (assembleGeneratedElf oddCallText).toOption.any (fun _ ↦ true) = true by decide +kernel)
  rw [and_eq_true, textDoesNotAlign_iff, beq_iff_eq] at hcheck
  obtain ⟨halign, hodd⟩ := hcheck
  have ha : plan.parsed.symbolAddress "f" plan.layout = .ok 0x1001d := by
    cases hres : plan.parsed.symbolAddress "f" plan.layout with
    | error e => rw [hres] at hodd; cases hodd
    | ok a => rw [hres] at hodd; exact congrArg _ (some.inj hodd)
  have hcalled : Called oddCallText "f" := .inl ⟨.text, by decide +kernel⟩
  refine ⟨plan, elf, hplan, helf, halign, fun hlinked ↦ ?_⟩
  exact absurd ((accepted_of_assemble helf hplan halign).even_of_linked hlinked hcalled ha)
    (by decide)

end CellScript.Assembler
