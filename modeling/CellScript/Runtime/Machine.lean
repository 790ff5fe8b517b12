import CellScript.Assembler.Syntax
import CellScript.Library.Blocks
import CellScript.Library.MachineState

/-!
# Running generated assembly

The meaning of the instructions the code generator emits, as the processor executes them: registers
and memory of 64-bit words, jumps to labels, calls of other helpers by their symbol, and system
calls, which are a parameter. A helper is a program of labelled blocks; the text of a block is what
the generator emits between two labels.
-/

namespace CellScript.Runtime

open Assembler (Instruction)
open MachineState
open Blocks

/-! ### Registers by name -/

abbrev zero : Reg := 0#5
abbrev ra : Reg := 1#5
abbrev sp : Reg := 2#5
abbrev t0 : Reg := 5#5
abbrev t1 : Reg := 6#5
abbrev t2 : Reg := 7#5
abbrev fp : Reg := 8#5
abbrev a0 : Reg := 10#5
abbrev a1 : Reg := 11#5
abbrev a2 : Reg := 12#5
abbrev a3 : Reg := 13#5
abbrev a4 : Reg := 14#5
abbrev a5 : Reg := 15#5
abbrev a6 : Reg := 16#5
abbrev a7 : Reg := 17#5
abbrev s5 : Reg := 21#5
abbrev s6 : Reg := 22#5
abbrev s7 : Reg := 23#5
abbrev s8 : Reg := 24#5
abbrev s9 : Reg := 25#5
abbrev s10 : Reg := 26#5
abbrev s11 : Reg := 27#5
abbrev t3 : Reg := 28#5
abbrev t4 : Reg := 29#5
abbrev t5 : Reg := 30#5
abbrev t6 : Reg := 31#5

/-! ### Instructions -/

/-- What surrounds the code: the system calls, the addresses of symbols in read-only data, and the
return address that a call leaves in `ra`. -/
structure Surroundings where
  ecall : State → Option State
  symbol : String → Word
  returnAddress : Word

/-- A conditional branch. -/
def branch (c : Bool) (l : String) (s : State) : Action String String State :=
  if c then .goto l s else .next s

/-- A system call, which may end the run. -/
def ecallAction (e : Surroundings) (s : State) : Action String String State :=
  match e.ecall s with
  | some s => .next s
  | none => .halt

/-- One if the condition holds, and zero otherwise. -/
def flag (c : Bool) : Word := if c then 1#64 else 0#64

@[simp] theorem flag_beq_zero (c : Bool) : (flag c == 0#64) = !c := by
  cases c <;> rfl

@[simp] theorem flag_bne_zero (c : Bool) : (flag c != 0#64) = c := by
  cases c <;> rfl

/-- The high half of a product. -/
def mulhu (a b : Word) : Word := ((a.setWidth 128 * b.setWidth 128) >>> 64).setWidth 64

/-- Division by zero is not a fault. -/
def divu (a b : Word) : Word := if b = 0#64 then allOnes 64 else a / b

def remu (a b : Word) : Word := if b = 0#64 then a else a % b

def div (a b : Word) : Word := if b = 0#64 then allOnes 64 else a.sdiv b

def rem (a b : Word) : Word := if b = 0#64 then a else a.srem b

/-- Shifts use the low six bits of their amount. -/
def amount (b : Word) : ℕ := b.toNat % 64

def act (e : Surroundings) : Instruction → State → Action String String State
  | .addi rd rs1 imm, s => .next (s.set rd (s.get rs1 + BitVec.ofInt 64 imm))
  | .add rd rs1 rs2, s => .next (s.set rd (s.get rs1 + s.get rs2))
  | .sub rd rs1 rs2, s => .next (s.set rd (s.get rs1 - s.get rs2))
  | .and rd rs1 rs2, s => .next (s.set rd (s.get rs1 &&& s.get rs2))
  | .andi rd rs1 imm, s => .next (s.set rd (s.get rs1 &&& BitVec.ofInt 64 imm))
  | .or rd rs1 rs2, s => .next (s.set rd (s.get rs1 ||| s.get rs2))
  | .xor rd rs1 rs2, s => .next (s.set rd (s.get rs1 ^^^ s.get rs2))
  | .xori rd rs1 imm, s => .next (s.set rd (s.get rs1 ^^^ BitVec.ofInt 64 imm))
  | .mul rd rs1 rs2, s => .next (s.set rd (s.get rs1 * s.get rs2))
  | .mulhu rd rs1 rs2, s => .next (s.set rd (mulhu (s.get rs1) (s.get rs2)))
  | .div rd rs1 rs2, s => .next (s.set rd (div (s.get rs1) (s.get rs2)))
  | .divu rd rs1 rs2, s => .next (s.set rd (divu (s.get rs1) (s.get rs2)))
  | .rem rd rs1 rs2, s => .next (s.set rd (rem (s.get rs1) (s.get rs2)))
  | .remu rd rs1 rs2, s => .next (s.set rd (remu (s.get rs1) (s.get rs2)))
  | .slt rd rs1 rs2, s => .next (s.set rd (flag ((s.get rs1).slt (s.get rs2))))
  | .sltu rd rs1 rs2, s => .next (s.set rd (flag ((s.get rs1).ult (s.get rs2))))
  | .sgt rd rs1 rs2, s => .next (s.set rd (flag ((s.get rs2).slt (s.get rs1))))
  | .seqz rd rs, s => .next (s.set rd (flag (s.get rs == 0#64)))
  | .snez rd rs, s => .next (s.set rd (flag (s.get rs != 0#64)))
  | .neg rd rs, s => .next (s.set rd (-s.get rs))
  | .ld rd rs1 imm, s => .next (s.set rd (load s.mem (s.get rs1 + BitVec.ofInt 64 imm) 8))
  | .lbu rd rs1 imm, s => .next (s.set rd (load s.mem (s.get rs1 + BitVec.ofInt 64 imm) 1))
  | .sb rs2 rs1 imm, s =>
    .next (s.setMem (store s.mem (s.get rs1 + BitVec.ofInt 64 imm) 1 (s.get rs2)))
  | .sh rs2 rs1 imm, s =>
    .next (s.setMem (store s.mem (s.get rs1 + BitVec.ofInt 64 imm) 2 (s.get rs2)))
  | .sw rs2 rs1 imm, s =>
    .next (s.setMem (store s.mem (s.get rs1 + BitVec.ofInt 64 imm) 4 (s.get rs2)))
  | .sd rs2 rs1 imm, s =>
    .next (s.setMem (store s.mem (s.get rs1 + BitVec.ofInt 64 imm) 8 (s.get rs2)))
  | .slli rd rs1 shamt, s => .next (s.set rd (s.get rs1 <<< shamt.toNat))
  | .srli rd rs1 shamt, s => .next (s.set rd (s.get rs1 >>> shamt.toNat))
  | .srai rd rs1 shamt, s => .next (s.set rd ((s.get rs1).sshiftRight shamt.toNat))
  | .rori rd rs1 shamt, s => .next (s.set rd ((s.get rs1).rotateRight shamt.toNat))
  | .roriw rd rs1 shamt, s =>
    .next (s.set rd ((((s.get rs1).setWidth 32).rotateRight shamt.toNat).signExtend 64))
  | .sll rd rs1 rs2, s => .next (s.set rd (s.get rs1 <<< amount (s.get rs2)))
  | .srl rd rs1 rs2, s => .next (s.set rd (s.get rs1 >>> amount (s.get rs2)))
  | .sra rd rs1 rs2, s => .next (s.set rd ((s.get rs1).sshiftRight (amount (s.get rs2))))
  | .li rd imm, s => .next (s.set rd (BitVec.ofInt 64 imm))
  | .la rd l, s => .next (s.set rd (e.symbol l))
  | .call f, s => .call f (s.set ra e.returnAddress)
  | .jump l, s => .goto l s
  | .beq rs1 rs2 l, s => branch (s.get rs1 == s.get rs2) l s
  | .bne rs1 rs2 l, s => branch (s.get rs1 != s.get rs2) l s
  | .blt rs1 rs2 l, s => branch ((s.get rs1).slt (s.get rs2)) l s
  | .bge rs1 rs2 l, s => branch (!(s.get rs1).slt (s.get rs2)) l s
  | .bltu rs1 rs2 l, s => branch ((s.get rs1).ult (s.get rs2)) l s
  | .bgeu rs1 rs2 l, s => branch (!(s.get rs1).ult (s.get rs2)) l s
  | .beqz rs l, s => branch (s.get rs == 0#64) l s
  | .bnez rs l, s => branch (s.get rs != 0#64) l s
  | .ret, s => .ret s
  | .ecall, s => ecallAction e s

abbrev Block := Blocks.Block String Instruction

abbrev Program := Blocks.Program String Instruction

abbrev Machine := Blocks.Machine String String Instruction State Word

/-- The helpers of a program, run in their surroundings. -/
def machine (e : Surroundings) (helpers : String → Option Program) : Machine where
  act := act e
  link := fun s ↦ s.get ra
  program := helpers

/-! ### The rules, one instruction at a time -/

variable {e : Surroundings} {helpers : String → Option Program} {s s' : State} {l f : String}

section Rules

variable {C : Code (machine e helpers)} {body : List Instruction} {fall : Option String}
  {i : Instruction} {done : String} {c : Bool}

/-- What is left to show of a run after an instruction. -/
def Follows (C : Code (machine e helpers)) (body : List Instruction) (fall : Option String) :
    Action String String State → Prop
  | .next s => C.Runs body fall s
  | .goto l s => C.RunsAt l s
  | .call f s => ∃ s', Calls (machine e helpers) f s s' ∧ C.Runs body fall s'
  | .ret s => s.get ra = C.link ∧ C.post s
  | .halt => False

theorem runs_cons : C.Runs (i :: body) fall s ↔ Follows C body fall (act e i s) := by
  cases h : act e i s with
  | next s' => exact runs_next h
  | goto l s' => exact runs_goto h
  | call f s' => exact runs_call h
  | ret s' => exact runs_ret h
  | halt => exact runs_halt h

theorem follows_next : Follows C body fall (.next s) ↔ C.Runs body fall s := Iff.rfl

theorem follows_goto : Follows C body fall (.goto l s) ↔ C.RunsAt l s := Iff.rfl

theorem follows_ret : Follows C body fall (.ret s) ↔ s.get ra = C.link ∧ C.post s := Iff.rfl

theorem follows_branch : Follows C body fall (branch c l s) ↔
    if c then C.RunsAt l s else C.Runs body fall s := by
  unfold branch
  split <;> exact Iff.rfl

/-- **The rules of straight-line code**, for rewriting: what is left to show of a run, one
instruction after another, with the immediate operands as words. -/
theorem runs_rules : (∀ {e helpers} {C : Code (machine e helpers)} {i body fall s},
      C.Runs (i :: body) fall s ↔ Follows C body fall (act e i s)) ∧
    (∀ {e helpers} {C : Code (machine e helpers)} {body fall s},
      Follows C body fall (.next s) ↔ C.Runs body fall s) ∧
    (∀ {e helpers} {C : Code (machine e helpers)} {body fall l s},
      Follows C body fall (.goto l s) ↔ C.RunsAt l s) ∧
    (∀ {e helpers} {C : Code (machine e helpers)} {body fall c l s},
      Follows C body fall (branch c l s) ↔ if c then C.RunsAt l s else C.Runs body fall s) ∧
    (∀ {i : Instruction} {body rest}, i :: body ++ rest = i :: (body ++ rest)) ∧
    (∀ {rest : List Instruction}, [] ++ rest = rest) ∧
    (∀ {n : ℕ}, BitVec.ofInt 64 n = BitVec.ofNat 64 n) ∧
    ∀ {n : ℕ}, BitVec.ofInt 64 (no_index (OfNat.ofNat n)) = BitVec.ofNat 64 (OfNat.ofNat n) :=
  ⟨runs_cons, follows_next, follows_goto, follows_branch, cons_append, nil_append _,
    ofInt_natCast 64 _, BitVec.ofInt_ofNat 64 _⟩

/-- What is left of a branch, from what is left on either side. -/
theorem ite_branch {P R : Prop} (htaken : c = true → P) (hnot : c = false → R) :
    if c then P else R := by
  cases c with
  | true => exact htaken rfl
  | false => exact hnot rfl

theorem follows_ecall (h : e.ecall s = some s') :
    Follows C body fall (ecallAction e s) ↔ C.Runs body fall s' := by
  rw [ecallAction, h]
  rfl

theorem follows_call (h : Calls (machine e helpers) f s s') :
    Follows C body fall (.call f s) ↔ C.Runs body fall s' := by
  constructor
  · rintro ⟨s'', hs'', hrun⟩
    exact h.unique hs'' ▸ hrun
  · exact fun hrun ↦ ⟨s', h, hrun⟩

/-- A block that reports a status and goes to the end of the helper. -/
theorem runsAt_report {r : Reg} {v : ℤ}
    (hat : C.program.at? l = some ([.li r v, .jump done], fall)) :
    C.RunsAt l s ↔ C.RunsAt done (s.set r (BitVec.ofInt 64 v)) := by
  rw [runsAt_iff hat, runs_cons, act, follows_next, runs_cons, act, follows_goto]

end Rules

/-! ### Leaving a piece of code -/

/-- A piece of code with a return at a label where control may leave it. -/
def leftAt (l : String) (program : Program) : Program := ⟨l, [.ret]⟩ :: program

/-- Control that starts at the beginning of the code comes to a label: with a return there, it
returns. -/
def Reaches (e : Surroundings) (helpers : String → Option Program) (program : Program) (l : String)
    (s s' : State) : Prop :=
  ∃ start, program.entry = some start ∧
    RunsAt (machine e helpers) (leftAt l program) (s.get ra) start s (· = s')

section Reaches

variable {program : Program} {start : String} {s₁ s₂ : State} {Q : State → Prop}

theorem runsAt_leftAt {link : Word} :
    Code.RunsAt (M := machine e helpers) ⟨leftAt l program, link, Q⟩ l s ↔
      s.get ra = link ∧ Q s := by
  have hat : (leftAt l program).at? l = some ([.ret], program.entry) := if_pos rfl
  rw [runsAt_iff hat, runs_cons]
  exact follows_ret

theorem exists_reaches (hentry : program.entry = some start)
    (h : Code.RunsAt (M := machine e helpers) ⟨leftAt l program, s.get ra, Q⟩ start s) :
    ∃ s', Reaches e helpers program l s s' ∧ Q s' := by
  obtain ⟨n, s', hn, hQ⟩ := h
  exact ⟨s', ⟨start, hentry, n, s', hn, rfl⟩, hQ⟩

theorem Reaches.unique (h₁ : Reaches e helpers program l s s₁)
    (h₂ : Reaches e helpers program l s s₂) : s₁ = s₂ := by
  obtain ⟨start, hstart, n, _, hn, rfl⟩ := h₁
  obtain ⟨start', hstart', m, _, hm, rfl⟩ := h₂
  obtain rfl := mem_unique hstart hstart'
  exact exec_unique hn hm

/-- Code that goes to a label outside of it, whatever stands there, does not come to another one. -/
theorem not_reaches_of_runsAt (l' : String) (r : Reg) (hentry : program.entry = some start)
    (hout : (leftAt l program).at? l' = none)
    (h : ∀ v : ℤ, Code.RunsAt (M := machine e helpers) ⟨⟨l', [.li r v, .ret]⟩ :: leftAt l program,
      s.get ra, (·.get r = BitVec.ofInt 64 v)⟩ start s) : ¬ Reaches e helpers program l s s' := by
  rintro ⟨start', hstart, n, s', hn, rfl⟩
  obtain rfl := mem_unique hentry hstart
  have hvalue : ∀ v : ℤ, s'.get r = BitVec.ofInt 64 v := by
    intro v
    obtain ⟨m, s₁, hm, hQ⟩ := h v
    have hmore : exec (machine e helpers) n (⟨l', [.li r v, .ret]⟩ :: leftAt l program)
        (s.get ra) [] (some start) s = some s' :=
      exec_of_extends (Program.Extends.cons hout) hn
    rwa [exec_unique hmore hm]
  exact absurd ((hvalue 0).symm.trans (hvalue 1)) (by decide)

/-- Control that starts at the beginning of the code leaves it for a label outside, in a state with
a property: whatever stands at the label, a run that goes on there is a run of the code. -/
def Leaves (e : Surroundings) (helpers : String → Option Program) (program : Program) (l : String)
    (P : State → Prop) (s : State) : Prop :=
  program.at? l = none ∧ ∃ start, program.entry = some start ∧ ∀ body Q,
    (∀ s', P s' → s'.get ra = s.get ra →
      Runs (machine e helpers) (⟨l, body⟩ :: program) (s.get ra) body program.entry s' Q) →
    RunsAt (machine e helpers) (⟨l, body⟩ :: program) (s.get ra) start s Q

section Leaves

variable {P P₁ P₂ : State → Prop}

theorem leaves_of_runsAt (hentry : program.entry = some start) (hout : program.at? l = none)
    (h : ∀ C : Code (machine e helpers), C.program.Extends program → C.link = s.get ra →
      (∀ s', P s' → s'.get ra = C.link → C.RunsAt l s') → C.RunsAt start s) :
    Leaves e helpers program l P s := by
  refine ⟨hout, start, hentry, fun body Q hrun ↦
    h ⟨⟨l, body⟩ :: program, s.get ra, Q⟩ (Program.Extends.cons hout) rfl fun s' hs' hra ↦ ?_⟩
  have hat : Program.at? l (⟨l, body⟩ :: program) = some (body, program.entry) := if_pos rfl
  exact (runsAt_iff hat).2 (hrun s' hs' hra)

/-- Control leaves in one state only. -/
theorem Leaves.exists_and (h₁ : Leaves e helpers program l P₁ s)
    (h₂ : Leaves e helpers program l P₂ s) : ∃ s', P₁ s' ∧ P₂ s' := by
  obtain ⟨-, start, hstart, h₁⟩ := h₁
  obtain ⟨-, start', hstart', h₂⟩ := h₂
  obtain rfl := mem_unique hstart hstart'
  have hret : ∀ {P : State → Prop} {s' : State}, P s' → s'.get ra = s.get ra →
      Code.Runs (M := machine e helpers) ⟨⟨l, [.ret]⟩ :: program, s.get ra, P⟩ [.ret] program.entry
        s' :=
    fun hP hra ↦ runs_cons.2 (follows_ret.2 ⟨hra, hP⟩)
  obtain ⟨n, s₁, hn, hP₁⟩ := h₁ [.ret] P₁ fun s' ↦ hret
  obtain ⟨m, s₂, hm, hP₂⟩ := h₂ [.ret] P₂ fun s' ↦ hret
  exact ⟨s₁, hP₁, exec_unique hn hm ▸ hP₂⟩

/-- Code that leaves does not return. -/
theorem Leaves.not_calls (h : Leaves e helpers program l P s)
    (hf : helpers f = some program) : ¬ Calls (machine e helpers) f s s' := by
  obtain ⟨hout, start, hentry, h⟩ := h
  rintro ⟨callee, hcallee, n, s', hn, rfl⟩
  obtain rfl := mem_unique hf hcallee
  rw [hentry] at hn
  -- the returned state would depend on what stands at the label
  have hvalue : ∀ v : ℤ, s'.get a0 = BitVec.ofInt 64 v := by
    intro v
    obtain ⟨m, s₁, hm, hQ⟩ := h [.li a0 v, .ret] (·.get a0 = BitVec.ofInt 64 v) fun s₁ _ hra ↦ by
      show Code.Runs ⟨_, _, _⟩ _ _ _
      rw [runs_cons, act, follows_next, runs_cons, act, follows_ret]
      exact ⟨hra, get_set_self⟩
    have hmore : exec (machine e helpers) n (⟨l, [.li a0 v, .ret]⟩ :: program)
        (s.get ra) [] (some start) s = some s' :=
      exec_of_extends (Program.Extends.cons hout) hn
    rwa [exec_unique hmore hm]
  exact absurd ((hvalue 0).symm.trans (hvalue 1)) (by decide)

end Leaves

end Reaches

end CellScript.Runtime
