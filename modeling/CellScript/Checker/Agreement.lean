import CellScript.Assembler.Placement
import CellScript.Checker.Recovery

/-!
# Producer and checker agree on control flow

A text image is what the assembler's encoders make of a sequence of instructions, each placed after
the one before. The transfers of the image are those its instructions ask for. The main result is
that the checker admits the image and recovers exactly these transfers, when each of them leads to a
four-byte aligned address of the image outside call pairs and the checker admits the words that do
not transfer control.

The proof meets in the middle. Every accepted instruction is encoded as words with direct control
flow (`encodeInstruction_direct`), and the checker recovers the transfers of such words
(`parseText_direct`).

The encoders themselves ask for less. A branch or a jump has to go to an even address and a call may
go anywhere, so there are accepted instructions that the checker refuses; an example is at the end.
-/

namespace CellScript.Checker

open Assembler hiding branchTarget
open Rv64 (Reg Word Byte leBytes)

/-! ### Text images -/

/-- An instruction with its address, the form of its branch and its bytes. -/
structure Placed where
  address : ℕ
  inst : Instruction
  relaxed : Bool
  bytes : List Byte

/-- The instructions are accepted by the encoders and stand one after another. -/
inductive PlacedFrom (parsed : ParsedAssembly) (layout : SectionLayout) : ℕ → List Placed → Prop
  | nil (pc : ℕ) : PlacedFrom parsed layout pc []
  | cons {p : Placed} {ps : List Placed}
      (encoded : encodeInstruction p.inst p.address parsed layout p.relaxed = .ok p.bytes)
      (rest : PlacedFrom parsed layout (p.address + p.bytes.length) ps) :
      PlacedFrom parsed layout p.address (p :: ps)

/-- The bytes of instructions at an aligned address of a 64-bit address space. -/
structure TextImage (parsed : ParsedAssembly) (layout : SectionLayout) where
  base : ℕ
  instructions : List Placed
  placed : PlacedFrom parsed layout base instructions
  aligned : base % 4 = 0
  fits : base + (instructions.flatMap (·.bytes)).length < 2 ^ 64

/-- Place instructions from an address on. -/
def place (parsed : ParsedAssembly) (layout : SectionLayout) :
    ℕ → List (Instruction × Bool) → Result (List Placed)
  | _, [] => .ok []
  | pc, (inst, relaxed) :: rest => do
    let bytes ← encodeInstruction inst pc parsed layout relaxed
    let ps ← place parsed layout (pc + bytes.length) rest
    return ⟨pc, inst, relaxed, bytes⟩ :: ps

variable {parsed : ParsedAssembly} {layout : SectionLayout} {pc : ℕ}

variable {p : Placed} {ps : List Placed} {insts : List (Instruction × Bool)}

theorem placedFrom_of_place (h : place parsed layout pc insts = .ok ps) :
    PlacedFrom parsed layout pc ps := by
  induction insts generalizing pc ps with
  | nil =>
    obtain rfl := ok.inj h
    exact .nil pc
  | cons inst insts ih =>
    simp only [place, bind_ok, pure_ok] at h
    obtain ⟨bytes, hbytes, ps, hps, rfl⟩ := h
    exact PlacedFrom.cons (p := ⟨pc, inst.1, inst.2, bytes⟩) hbytes (ih hps)

/-- The control flow an instruction asks for, from the address of its label. -/
def Placed.flows (parsed : ParsedAssembly) (layout : SectionLayout) (p : Placed) :
    List DecodedControlFlow :=
  let target (label : String) : ℕ := ((parsed.symbolAddress label layout).toOption).getD 0
  match p.inst with
  | .jump label => [⟨p.address, target label, .directJump⟩]
  | .call label => [⟨p.address + 4, target label, .directJump⟩]
  | inst =>
    match conditionalBranchParts inst with
    | some (_, _, label, _) =>
      if p.relaxed then
        -- the inverse branch skips over the jump
        [⟨p.address, p.address + 8, .conditionalBranch⟩, ⟨p.address + 4, target label, .directJump⟩]
      else [⟨p.address, target label, .conditionalBranch⟩]
    | none => []

/-- The second word of a call pair. -/
def Placed.callInterior (p : Placed) : List ℕ :=
  match p.inst with
  | .call _ => [p.address + 4]
  | _ => []

namespace TextImage

def bytes (image : TextImage parsed layout) : List Byte := image.instructions.flatMap (·.bytes)

def flows (image : TextImage parsed layout) : List DecodedControlFlow :=
  image.instructions.flatMap (·.flows parsed layout)

def callInteriors (image : TextImage parsed layout) : List ℕ :=
  image.instructions.flatMap (·.callInterior)

end TextImage

/-! ### Encoded words -/

variable {opcode : BitVec 7} {funct3 : BitVec 3} {rd rs1 rs2 : Reg} {imm : ℤ} {w : Word}

section Words

variable {hi lo : ℤ}

theorem opcode_encodeRType (funct7 : BitVec 7) :
    Rv64.opcode (encodeRType opcode rd funct3 rs1 rs2 funct7) = opcode := by
  simp (disch := omega) only [Rv64.opcode, encodeRType, BitVec.or_assoc,
    BitField.extractLsb'_shiftLeft_or, BitField.extractLsb'_setWidth]

theorem opcode_encodeSType (h : encodeSType opcode funct3 rs1 rs2 imm = .ok w) :
    Rv64.opcode w = opcode := by
  simp only [encodeSType, bind_ok, pure_ok] at h
  obtain ⟨imm, -, rfl⟩ := h
  simp (disch := omega) only [Rv64.opcode, BitVec.or_assoc, BitField.extractLsb'_shiftLeft_or,
    BitField.extractLsb'_setWidth]

theorem opcode_encodeIType (h : encodeIType opcode rd funct3 rs1 imm = .ok w) :
    Rv64.opcode w = opcode := by
  obtain ⟨-, rfl⟩ := encodeIType_ok_iff.1 h
  exact Rv64.opcode_iType ..

/-- The displacement stands in the word of a branch. -/
theorem immB_encodeBType (h : encodeBType opcode funct3 rs1 rs2 imm = .ok w) :
    (Rv64.immB w).toInt = imm := by
  obtain ⟨heven, hfit, rfl⟩ := encodeBType_ok_iff.1 h
  obtain ⟨hlo, hhi⟩ := signedBitsFit_iff.1 hfit
  rw [Rv64.immB_bType _ _ _ _ (BitField.extractLsb'_ofInt_eq_zero (by omega) heven),
    BitVec.toInt_ofInt_eq_self (by omega) hlo hhi]

/-- The displacement stands in the word of a jump. -/
theorem immJ_encodeJType (h : encodeJType opcode rd imm = .ok w) : (Rv64.immJ w).toInt = imm := by
  obtain ⟨heven, hfit, rfl⟩ := encodeJType_ok_iff.1 h
  obtain ⟨hlo, hhi⟩ := signedBitsFit_iff.1 hfit
  rw [Rv64.immJ_jType _ _ (BitField.extractLsb'_ofInt_eq_zero (by omega) heven),
    BitVec.toInt_ofInt_eq_self (by omega) hlo hhi]

/-- The displacement stands in the two words of an address pair or a call pair. -/
theorem immU_add_immI {value : ℤ} (opcode' : BitVec 7) (rd' : Reg)
    (hsplit : splitHiLo value = .ok (hi, lo)) (hw : encodeIType opcode rd funct3 rs1 lo = .ok w) :
    (Rv64.immU (encodeUType opcode' rd' hi)).toInt + (Rv64.immI w).toInt = value := by
  obtain ⟨-, rfl⟩ := encodeIType_ok_iff.1 hw
  obtain ⟨hhiMin, hhiMax, hloMin, hloMax, hsum⟩ := splitHiLo_ok hsplit
  rw [encodeUType_eq, Rv64.immU_uType, Rv64.immI_iType, BitVec.toInt_append_zero,
    BitVec.toInt_ofInt_eq_self (by omega) hhiMin hhiMax,
    BitVec.toInt_ofInt_eq_self (by omega) hloMin hloMax, Int.mul_comm, hsum]

end Words

/-! ### Instructions as words with direct control flow -/

/-- The bytes are words from an address on, with the given transfers. -/
def DirectBytes (pc : ℕ) (bytes : List Byte) (flows : List DecodedControlFlow) (calls : List ℕ) :
    Prop :=
  ∃ ws : List Word, bytes = ws.flatMap leBytes ∧ Direct pc ws flows calls

theorem DirectBytes.append {bytes bytes' : List Byte} {flows flows' : List DecodedControlFlow}
    {calls calls' : List ℕ} (h : DirectBytes pc bytes flows calls)
    (h' : DirectBytes (pc + bytes.length) bytes' flows' calls') :
    DirectBytes pc (bytes ++ bytes') (flows ++ flows') (calls ++ calls') := by
  obtain ⟨ws, rfl, hdirect⟩ := h
  obtain ⟨ws', rfl, hdirect'⟩ := h'
  refine ⟨ws ++ ws', List.flatMap_append.symm, hdirect.append hdirect' ?_⟩
  rw [length_flatMap_leBytes]

section Instructions

variable {target max upper : ℕ} {bytes : List Byte} {shamt : ℤ} {flows : List DecodedControlFlow}
  {ws : List Word} {calls : List ℕ}

/-- The opcodes of words that neither transfer control nor form an address. -/
def plainOpcodes : List (BitVec 7) := [0x03#7, 0x13#7, 0x1b#7, 0x23#7, 0x33#7, 0x37#7, 0x73#7]

theorem direct_plain (hw : Rv64.opcode w = opcode) (hopcode : opcode ∈ plainOpcodes)
    (rest : Direct (pc + 4) ws flows calls) : Direct pc (w :: ws) flows calls := by
  simp only [plainOpcodes, mem_cons, not_mem_nil, or_false] at hopcode
  refine .plain (fun h ↦ ?_) (fun h ↦ ?_) rest
  · simp only [transfers, mem_cons, not_mem_nil, or_false] at h
    grind
  · grind

theorem emitWord_direct {word : Result Word} (hopcode : opcode ∈ plainOpcodes)
    (hword : ∀ w, word = .ok w → Rv64.opcode w = opcode) (h : emitWord word = .ok bytes) :
    DirectBytes pc bytes [] [] := by
  rw [emitWord, map_ok_iff] at h
  obtain ⟨w, hw, rfl⟩ := h
  exact ⟨[w], by simp, direct_plain (hword w hw) hopcode (.nil _)⟩

theorem encodeIType_direct (hopcode : opcode ∈ plainOpcodes)
    (h : emitWord (encodeIType opcode rd funct3 rs1 imm) = .ok bytes) :
    DirectBytes pc bytes [] [] :=
  emitWord_direct hopcode (fun _ ↦ opcode_encodeIType) h

theorem emitShift_direct {name : String} (hopcode : opcode ∈ plainOpcodes)
    (h : emitShift name max opcode funct3 upper rd rs1 shamt = .ok bytes) :
    DirectBytes pc bytes [] [] := by
  rw [emitShift] at h
  split at h
  · exact encodeIType_direct hopcode h
  · cases h

theorem opcode_encodeLiStep {step : Immediate.Step} (h : encodeLiStep rd step = .ok w) :
    Rv64.opcode w = 0x13#7 ∨ Rv64.opcode w = 0x37#7 := by
  cases step with
  | loadUpper value =>
    obtain rfl := ok.inj h
    rw [encodeUType_eq, Rv64.opcode_uType]
    exact .inr rfl
  | _ => exact .inl (opcode_encodeIType h)

theorem encodeLiSteps_direct {steps : List Immediate.Step}
    (h : encodeLiSteps rd steps = .ok bytes) : DirectBytes pc bytes [] [] := by
  induction steps generalizing pc bytes with
  | nil =>
    obtain rfl := ok.inj h
    exact ⟨[], rfl, .nil pc⟩
  | cons step steps ih =>
    simp only [encodeLiSteps, bind_ok, pure_ok] at h
    obtain ⟨w, hw, rest, hrest, rfl⟩ := h
    obtain ⟨ws, rfl, hdirect⟩ : DirectBytes (pc + 4) rest [] [] := ih hrest
    refine ⟨w :: ws, rfl, ?_⟩
    obtain hopcode | hopcode := opcode_encodeLiStep hw
    · exact direct_plain hopcode (by decide) hdirect
    · exact direct_plain hopcode (by decide) hdirect

theorem encodeAddressSequence_direct (h : encodeAddressSequence rd pc target = .ok bytes) :
    DirectBytes pc bytes [] [] := by
  obtain ⟨distance, hi, lo, addi, -, -, haddi, rfl⟩ := encodeAddressSequence_ok h
  obtain ⟨-, rfl⟩ := encodeIType_ok_iff.1 haddi
  refine ⟨[encodeUType 0x17#7 rd hi, _], rfl, .address ?_ (Rv64.opcode_iType ..) ?_ (.nil _)⟩
  · rw [encodeUType_eq, Rv64.opcode_uType]
  · rw [encodeUType_eq, Rv64.rd_uType, Rv64.rd_iType]

theorem encodeCallSequence_direct (h : encodeCallSequence pc target = .ok bytes) :
    DirectBytes pc bytes [⟨pc + 4, target, .directJump⟩] [pc + 4] := by
  obtain ⟨distance, hi, lo, jalr, hdistance, hsplit, hjalr, rfl⟩ := encodeCallSequence_ok h
  have himm := immU_add_immI 0x17#7 1#5 hsplit hjalr
  rw [relativeOffset_ok hdistance] at himm
  obtain ⟨-, rfl⟩ := encodeIType_ok_iff.1 hjalr
  refine ⟨[encodeUType 0x17#7 1#5 hi, _], rfl, .call ?_ ?_ (Rv64.opcode_iType ..) (Rv64.rd_iType ..)
    (Rv64.funct3_iType ..) (Rv64.rs1_iType ..) himm (.nil _)⟩
  · rw [encodeUType_eq, Rv64.opcode_uType]
  · rw [encodeUType_eq, Rv64.rd_uType]

theorem direct_encodeBType (hcondition : funct3 ∉ [2#3, 3#3])
    (hw : encodeBType 0x63#7 funct3 rs1 rs2 (target - pc) = .ok w)
    (rest : Direct (pc + 4) ws flows calls) :
    Direct pc (w :: ws) (⟨pc, target, .conditionalBranch⟩ :: flows) calls := by
  have himm := immB_encodeBType hw
  obtain ⟨-, -, rfl⟩ := encodeBType_ok_iff.1 hw
  exact .branch (Rv64.opcode_bType ..) (by rwa [Rv64.funct3_bType]) himm rest

theorem direct_encodeJType
    (hw : encodeJType 0x6f#7 0#5 (target - pc) = .ok w) (rest : Direct (pc + 4) ws flows calls) :
    Direct pc (w :: ws) (⟨pc, target, .directJump⟩ :: flows) calls := by
  have himm := immJ_encodeJType hw
  obtain ⟨-, -, rfl⟩ := encodeJType_ok_iff.1 hw
  exact .jump (Rv64.opcode_jType ..) (Rv64.rd_jType ..) himm rest

theorem encodeJump_direct (h : encodeJump pc target = .ok bytes) :
    DirectBytes pc bytes [⟨pc, target, .directJump⟩] [] := by
  obtain ⟨distance, w, hdistance, hw, rfl⟩ := encodeJump_ok h
  rw [relativeOffset_ok hdistance] at hw
  exact ⟨[w], by simp, direct_encodeJType hw (.nil _)⟩

theorem encodeShortBranch_direct (hcondition : funct3 ∉ [2#3, 3#3])
    (h : encodeShortBranch funct3 rs1 rs2 pc target = .ok bytes) :
    DirectBytes pc bytes [⟨pc, target, .conditionalBranch⟩] [] := by
  obtain ⟨distance, w, hdistance, hw, rfl⟩ := encodeShortBranch_ok h
  rw [relativeOffset_ok hdistance] at hw
  exact ⟨[w], by simp, direct_encodeBType hcondition hw (.nil _)⟩

theorem encodeRelaxedBranch_direct (hcondition : funct3 ∉ [2#3, 3#3])
    (h : encodeRelaxedBranch funct3 rs1 rs2 pc target = .ok bytes) :
    DirectBytes pc bytes [⟨pc, pc + 8, .conditionalBranch⟩, ⟨pc + 4, target, .directJump⟩] [] := by
  obtain ⟨skip, distance, jump, hskip, hdistance, hjump, rfl⟩ := encodeRelaxedBranch_ok h
  have hassigned : ∀ funct3 : BitVec 3, funct3 ∉ [2#3, 3#3] →
      inverseBranchFunct3 funct3 ∉ [2#3, 3#3] := by
    decide
  have height : (8 : ℤ) = ((pc + 8 : ℕ) : ℤ) - pc := by omega
  rw [height] at hskip
  rw [relativeOffset_ok hdistance] at hjump
  exact ⟨[skip, jump], by simp, direct_encodeBType (hassigned funct3 hcondition) hskip
    (direct_encodeJType hjump (.nil _))⟩

theorem encodeRet_direct (h : emitWord (encodeIType 0x67#7 0#5 0b000#3 1#5 0) = .ok bytes) :
    DirectBytes pc bytes [] [] := by
  rw [emitWord, map_ok_iff] at h
  obtain ⟨w, hw, rfl⟩ := h
  obtain ⟨-, rfl⟩ := encodeIType_ok_iff.1 hw
  exact ⟨[retWord], by decide, .ret (.nil _)⟩

end Instructions

theorem encodeConditionalBranch_direct {rs1 rs2 : Reg} {label : String} {funct3 : BitVec 3}
    (hparts : conditionalBranchParts p.inst = some (rs1, rs2, label, funct3))
    (hcondition : funct3 ∉ [2#3, 3#3])
    (h : encodeConditionalBranch rs1 rs2 label funct3 p.address parsed layout p.relaxed =
      .ok p.bytes) : DirectBytes p.address p.bytes (p.flows parsed layout) [] := by
  rw [encodeConditionalBranch, bind_ok] at h
  obtain ⟨target, htarget, h⟩ := h
  have hflows : p.flows parsed layout =
      if p.relaxed then [⟨p.address, p.address + 8, .conditionalBranch⟩,
        ⟨p.address + 4, target, .directJump⟩]
      else [⟨p.address, target, .conditionalBranch⟩] := by
    rw [Placed.flows]
    split
    next hinst => simp [hinst, conditionalBranchParts] at hparts
    next hinst => simp [hinst, conditionalBranchParts] at hparts
    next => simp [hparts, htarget, Except.toOption]
  rw [hflows]
  split at h
  next hrelaxed =>
    rw [if_pos hrelaxed]
    exact encodeRelaxedBranch_direct hcondition h
  next hshort =>
    rw [if_neg hshort]
    exact encodeShortBranch_direct hcondition h

/-- **One instruction.** The bytes of an accepted instruction are words with direct control flow,
and their transfers are those the instruction asks for. -/
theorem encodeInstruction_direct
    (h : encodeInstruction p.inst p.address parsed layout p.relaxed = .ok p.bytes) :
    DirectBytes p.address p.bytes (p.flows parsed layout) p.callInterior := by
  obtain ⟨pc, inst, relaxed, bytes⟩ := p
  cases inst with
  | li rd imm =>
    obtain ⟨steps, -, hsteps⟩ := bind_ok.1 h
    exact encodeLiSteps_direct hsteps
  | la rd label =>
    obtain ⟨target, -, hbytes⟩ := bind_ok.1 h
    exact encodeAddressSequence_direct hbytes
  | call label =>
    obtain ⟨target, htarget, hbytes⟩ := bind_ok.1 h
    simp only [Placed.flows, htarget]
    exact encodeCallSequence_direct hbytes
  | jump label =>
    obtain ⟨target, htarget, hbytes⟩ := bind_ok.1 h
    simp only [Placed.flows, htarget]
    exact encodeJump_direct hbytes
  | ret => exact encodeRet_direct h
  | ecall =>
    have hopcode (w : Word) (hw : Except.ok encodeEcall = Except.ok (ε := CompileError) w) :
        Rv64.opcode w = 0x73#7 := by
      obtain rfl := ok.inj hw
      decide
    exact emitWord_direct (by decide) hopcode h
  | beq _ _ _ | bne _ _ _ | blt _ _ _ | bge _ _ _ | bltu _ _ _ | bgeu _ _ _ | beqz _ _ | bnez _ _ =>
    exact encodeConditionalBranch_direct rfl (by decide) h
  | slli _ _ _ | srai _ _ _ | srli _ _ _ | rori _ _ _ | roriw _ _ _ =>
    exact emitShift_direct (by decide) h
  | sb _ _ _ | sh _ _ _ | sw _ _ _ | sd _ _ _ =>
    exact emitWord_direct (by decide) (fun _ ↦ opcode_encodeSType) h
  | addi _ _ _ | andi _ _ _ | xori _ _ _ | seqz _ _ | ld _ _ _ | lbu _ _ _ =>
    exact encodeIType_direct (by decide) h
  | _ => exact emitWord_direct (by decide) (fun _ hw ↦ ok.inj hw ▸ opcode_encodeRType _) h

/-! ### Images -/

theorem PlacedFrom.direct (h : PlacedFrom parsed layout pc ps) :
    DirectBytes pc (ps.flatMap (·.bytes)) (ps.flatMap (·.flows parsed layout))
      (ps.flatMap (·.callInterior)) := by
  induction h with
  | nil pc => exact ⟨[], rfl, .nil pc⟩
  | cons encoded _ ih => exact (encodeInstruction_direct encoded).append ih

/-- **Producer and checker agree.** The checker admits an image and recovers exactly the transfers
its instructions ask for, if every transfer leads to a four-byte aligned address of the image that
is not inside a call pair, and the words that do not transfer control are admitted. -/
theorem TextImage.parseText_eq_ok {parsed : ParsedAssembly} {layout : SectionLayout}
    (image : TextImage parsed layout)
    (htargets : ∀ flow ∈ image.flows, flow.target % 4 = 0 ∧ image.base ≤ flow.target ∧
      flow.target < image.base + image.bytes.length ∧ flow.target ∉ image.callInteriors)
    (hplain : PlainAdmitted image.bytes image.base) :
    ∃ decoded, parseText image.bytes image.base = .ok decoded ∧
      decoded.controlFlow = image.flows := by
  obtain ⟨ws, hbytes, hdirect⟩ := image.placed.direct
  change image.bytes = _ at hbytes
  have hfits : image.base + image.bytes.length < 2 ^ 64 := image.fits
  rw [hbytes] at htargets hplain hfits ⊢
  rw [length_flatMap_leBytes] at htargets hfits
  exact parseText_direct hdirect image.aligned hfits hplain htargets

/-! ### Two images -/

theorem placedFrom_of_isOk (h : (place parsed layout pc insts).isOk = true) :
    PlacedFrom parsed layout pc ((place parsed layout pc insts).toOption.getD []) := by
  cases hps : place parsed layout pc insts with
  | error e => simp [hps, Except.isOk, Except.toBool] at h
  | ok ps => exact placedFrom_of_place hps

/-- A text with two labels, at given offsets. -/
def sampleAssembly (first second : ℕ) : ParsedAssembly where
  text := ⟨[], 0⟩
  rodata := ⟨[], 0⟩
  symbols := [("first", ⟨.text, first, 1⟩), ("second", ⟨.text, second, 2⟩)]
  globals := []
  entryLabel := none
  relaxedTextBranches := []

def sampleLayout : SectionLayout := ⟨0x1000, 0x1000, 0x2000⟩

/-- Every kind of transfer, to the start of the text and to its second instruction. -/
def transferImage : TextImage (sampleAssembly 0 4) sampleLayout where
  base := 0x1000
  instructions := ((place (sampleAssembly 0 4) sampleLayout 0x1000
    [(.ret, false), (.beq 5#5 6#5 "first", false), (.call "second", false),
      (.jump "first", false), (.bne 5#5 6#5 "second", true), (.addi 2#5 2#5 (-16), false),
      (.ret, false)]).toOption).getD []
  placed := placedFrom_of_isOk (by decide +kernel)
  aligned := by decide
  fits := by decide +kernel

theorem TextImage.parseText_eq_ok_transferImage :
    (∀ flow ∈ transferImage.flows, flow.target % 4 = 0 ∧ transferImage.base ≤ flow.target ∧
      flow.target < transferImage.base + transferImage.bytes.length ∧
      flow.target ∉ transferImage.callInteriors) ∧
    PlainAdmitted transferImage.bytes transferImage.base ∧ transferImage.flows.length = 5 ∧
    ∃ decoded, parseText transferImage.bytes transferImage.base = .ok decoded ∧
      decoded.controlFlow = transferImage.flows := by
  have htargets : ∀ flow ∈ transferImage.flows, flow.target % 4 = 0 ∧
      transferImage.base ≤ flow.target ∧
      flow.target < transferImage.base + transferImage.bytes.length ∧
      flow.target ∉ transferImage.callInteriors := by
    decide +kernel
  have hplain : PlainAdmitted transferImage.bytes transferImage.base := by decide +kernel
  exact ⟨htargets, hplain, by decide +kernel, transferImage.parseText_eq_ok htargets hplain⟩

/-- A branch to the middle of the next word, which the encoder accepts. -/
def halfwordImage : TextImage (sampleAssembly 0 2) sampleLayout where
  base := 0x1000
  instructions := ((place (sampleAssembly 0 2) sampleLayout 0x1000
    [(.beq 5#5 6#5 "second", false), (.ret, false)]).toOption).getD []
  placed := placedFrom_of_isOk (by decide +kernel)
  aligned := by decide
  fits := by decide +kernel

/-- **The checker asks for more than the encoders.** The branch leads into the text and the other
words are admitted, but the target is not four-byte aligned. -/
theorem parseText_halfwordImage : halfwordImage.flows = [⟨0x1000, 0x1002, .conditionalBranch⟩] ∧
    (∀ flow ∈ halfwordImage.flows, halfwordImage.base ≤ flow.target ∧
      flow.target < halfwordImage.base + halfwordImage.bytes.length ∧
      flow.target ∉ halfwordImage.callInteriors) ∧
    PlainAdmitted halfwordImage.bytes halfwordImage.base ∧
    parseText halfwordImage.bytes halfwordImage.base = .error ⟨.invalidBranchTarget,
      "control-flow target 0x1002 from 0x1000 is outside aligned .text"⟩ := by
  refine ⟨by decide +kernel, by decide +kernel, by decide +kernel, ?_⟩
  decide +kernel

end CellScript.Checker
