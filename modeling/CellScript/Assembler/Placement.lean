import CellScript.Assembler.Emit
import CellScript.Assembler.Reading

/-!
# Emission follows layout

Encoding an operation appends exactly as many bytes as layout gave it (`encodeOp_ok`), so every
operation is emitted at the offset at which it was laid out (`Emitted.split`), and the loaded file
holds each section from its base on (`holds_writeElf`).

Layout aligns to the offset in the section and emission to the length of the output. In the text
section the output starts with the trampoline, so the two agree there only for texts that do not
align; the statements carry that condition for the section with a bias.
-/

namespace CellScript.Assembler

open Rv64 (Reg Word Byte leBytes Memory Holds)
open SectionLayout

@[simp] theorem withCode_ok_iff {α : Type} {code : DiagnosticCode} {x : Result α} {a : α} :
    withCode code x = .ok a ↔ x = .ok a := by
  cases x with
  | error e => simp [withCode, Except.mapError]
  | ok b => simp [withCode, Except.mapError]

/-! ### Sizes of instructions -/

variable {out bytes pad after buffer textBytes rodataBytes withText segment elf : List Byte}
  {i : ℕ} {parsed : ParsedAssembly} {layout : SectionLayout}
  {funct3 : BitVec 3}
  {pc target max upper flags vaddr fileSize memorySize phnum shoff shnum shstrndx d offset : ℕ}
  {rs1 rs2 rd : Reg} {shamt imm : ℤ} {name entryLabel : String} {op : LocatedAsmOp}
  {k : SectionKind}

theorem length_emitWord {word : Result Word} (h : emitWord word = .ok bytes) :
    bytes.length = 4 := by
  rw [emitWord, map_ok_iff] at h
  obtain ⟨w, -, rfl⟩ := h
  exact Rv64.length_leBytes w

theorem length_emitShift {opcode : BitVec 7}
    (h : emitShift name max opcode funct3 upper rd rs1 shamt = .ok bytes) : bytes.length = 4 := by
  rw [emitShift] at h
  split at h
  · exact length_emitWord h
  · cases h

theorem encodeAddressSequence_ok (h : encodeAddressSequence rd pc target = .ok bytes) :
    ∃ distance hi lo addi, relativeOffset pc target = .ok distance ∧
      splitHiLo distance = .ok (hi, lo) ∧ encodeIType 0x13#7 rd 0b000#3 rd lo = .ok addi ∧
      bytes = leBytes (encodeUType 0x17#7 rd hi) ++ leBytes addi := by
  simp only [encodeAddressSequence, bind_ok, pure_ok] at h
  obtain ⟨distance, hdistance, ⟨hi, lo⟩, hsplit, addi, haddi, rfl⟩ := h
  exact ⟨distance, hi, lo, addi, hdistance, hsplit, haddi, rfl⟩

theorem encodeCallSequence_ok (h : encodeCallSequence pc target = .ok bytes) :
    ∃ distance hi lo jalr, relativeOffset pc target = .ok distance ∧
      splitHiLo distance = .ok (hi, lo) ∧ encodeIType 0x67#7 1#5 0b000#3 1#5 lo = .ok jalr ∧
      bytes = leBytes (encodeUType 0x17#7 1#5 hi) ++ leBytes jalr := by
  simp only [encodeCallSequence, bind_ok, pure_ok] at h
  obtain ⟨distance, hdistance, ⟨hi, lo⟩, hsplit, jalr, hjalr, rfl⟩ := h
  exact ⟨distance, hi, lo, jalr, hdistance, hsplit, hjalr, rfl⟩

theorem encodeJump_ok (h : encodeJump pc target = .ok bytes) :
    ∃ distance w, relativeOffset pc target = .ok distance ∧
      encodeJType 0x6f#7 0#5 distance = .ok w ∧ bytes = leBytes w := by
  simp only [encodeJump, emitWord, bind_ok, map_ok_iff] at h
  obtain ⟨distance, hdistance, w, hw, rfl⟩ := h
  exact ⟨distance, w, hdistance, hw, rfl⟩

theorem encodeShortBranch_ok (h : encodeShortBranch funct3 rs1 rs2 pc target = .ok bytes) :
    ∃ distance w, relativeOffset pc target = .ok distance ∧
      encodeBType 0x63#7 funct3 rs1 rs2 distance = .ok w ∧ bytes = leBytes w := by
  simp only [encodeShortBranch, emitWord, bind_ok, map_ok_iff] at h
  obtain ⟨distance, hdistance, w, hw, rfl⟩ := h
  exact ⟨distance, w, hdistance, hw, rfl⟩

theorem encodeRelaxedBranch_ok (h : encodeRelaxedBranch funct3 rs1 rs2 pc target = .ok bytes) :
    ∃ skip distance jump, encodeBType 0x63#7 (inverseBranchFunct3 funct3) rs1 rs2 8 = .ok skip ∧
      relativeOffset (pc + 4) target = .ok distance ∧
      encodeJType 0x6f#7 0#5 distance = .ok jump ∧ bytes = leBytes skip ++ leBytes jump := by
  simp only [encodeRelaxedBranch, bind_ok, pure_ok] at h
  obtain ⟨skip, hskip, distance, hdistance, jump, hjump, rfl⟩ := h
  exact ⟨skip, distance, jump, hskip, hdistance, hjump, rfl⟩

theorem length_encodeConditionalBranch {label : String} {relaxed : Bool}
    (h : encodeConditionalBranch rs1 rs2 label funct3 pc parsed layout relaxed = .ok bytes) :
    bytes.length = if relaxed then 8 else 4 := by
  rw [encodeConditionalBranch, bind_ok] at h
  obtain ⟨target, -, h⟩ := h
  cases relaxed with
  | true =>
    obtain ⟨skip, -, jump, -, -, -, rfl⟩ := encodeRelaxedBranch_ok h
    rfl
  | false =>
    obtain ⟨-, w, -, -, rfl⟩ := encodeShortBranch_ok h
    rfl

/-- The size layout gives a conditional branch, in terms of the form emission chooses. -/
theorem branchSize_exact (relaxed : List ℕ) (k : SectionKind) (i : ℕ) :
    (BranchSizeMode.exact relaxed).branchSize k i =
      if decide (k = .text ∧ i ∈ relaxed) = true then 8 else 4 := by
  simp [BranchSizeMode.branchSize]

/-- **Layout and encoding agree on every instruction.** -/
theorem opSize_instruction {inst : Instruction} (h : encodeInstruction inst pc parsed layout
      (decide (k = .text ∧ i ∈ parsed.relaxedTextBranches)) = .ok bytes) :
    opSize (.instruction inst) offset k i (.exact parsed.relaxedTextBranches) =
      .ok bytes.length := by
  cases inst with
  | li rd imm => exact length_encodeLiSequence h
  | la rd label =>
    obtain ⟨target, -, hbytes⟩ := bind_ok.1 h
    obtain ⟨-, hi, -, addi, -, -, -, rfl⟩ := encodeAddressSequence_ok hbytes
    rfl
  | call label =>
    obtain ⟨target, -, hbytes⟩ := bind_ok.1 h
    obtain ⟨-, hi, -, jalr, -, -, -, rfl⟩ := encodeCallSequence_ok hbytes
    rfl
  | jump label =>
    obtain ⟨target, -, hbytes⟩ := bind_ok.1 h
    obtain ⟨-, w, -, -, rfl⟩ := encodeJump_ok hbytes
    rfl
  | beq _ _ _ | bne _ _ _ | blt _ _ _ | bge _ _ _ | bltu _ _ _ | bgeu _ _ _ | beqz _ _ | bnez _ _ =>
    rw [length_encodeConditionalBranch h, ← branchSize_exact]
    rfl
  | slli _ _ _ | srai _ _ _ | srli _ _ _ | rori _ _ _ | roriw _ _ _ =>
    rw [length_emitShift h]
    rfl
  | _ =>
    rw [length_emitWord h]
    rfl

/-! ### Sizes of operations -/

section Sections

variable {k : SectionKind} {bias : ℕ} {out' : List Byte} {ops xs ys : List LocatedAsmOp}

/-- Alignment is relative to the output, so it agrees with layout only without a bias. -/
def AlignsPlainly (bias : ℕ) (ops : List LocatedAsmOp) : Prop :=
  ∀ op ∈ ops, ∀ n, op.op = .align n → bias = 0

/-- **One operation.** It appends what layout gave it. -/
theorem encodeOp_ok (hbias : bias ≤ out.length) (halign : ∀ n, op.op = .align n → bias = 0)
    (h : encodeOp parsed k layout bias i out op = .ok out') :
    ∃ bytes, out' = out ++ bytes ∧
      opSize op.op (out.length - bias) k i (.exact parsed.relaxedTextBranches) =
        .ok bytes.length := by
  obtain ⟨op, p⟩ := op
  cases op with
  | label name =>
    cases h
    exact ⟨[], (append_nil _).symm, rfl⟩
  | word w =>
    cases h
    exact ⟨leBytes w, rfl, rfl⟩
  | byte b =>
    cases h
    exact ⟨[b], rfl, rfl⟩
  | ascii bytes =>
    cases h
    exact ⟨bytes, rfl, rfl⟩
  | align n =>
    cases h
    refine ⟨replicate (paddingFor out.length n) 0#8, rfl, ?_⟩
    rw [halign n rfl, length_replicate]
    rfl
  | instruction inst =>
    simp only [encodeOp, GeneratedAssemblyProvenance.attach_ok_iff, if_neg (not_lt.2 hbias),
      bind_ok, pure_ok] at h
    obtain ⟨bytes, hbytes, rfl⟩ := h
    exact ⟨bytes, rfl, opSize_instruction hbytes⟩

/-- **A run of operations.** It appends what layout gave all of them. -/
theorem encodeOps_ok (hbias : bias ≤ out.length)
    (halign : AlignsPlainly bias ops) (h : encodeOps parsed k layout bias i out ops = .ok out') :
    ∃ bytes, out' = out ++ bytes ∧
      layoutOps (.exact parsed.relaxedTextBranches) k i (out.length - bias) ops =
        .ok (out'.length - bias) := by
  induction ops generalizing i out with
  | nil =>
    cases h
    exact ⟨[], (append_nil _).symm, rfl⟩
  | cons op ops ih =>
    rw [encodeOps, bind_ok] at h
    obtain ⟨out₁, hop, hops⟩ := h
    obtain ⟨bytes, rfl, hsize⟩ := encodeOp_ok hbias (halign op mem_cons_self) hop
    have hlength : (out ++ bytes).length - bias = out.length - bias + bytes.length := by
      rw [length_append]
      omega
    obtain ⟨rest, rfl, hlayout⟩ := ih (by rw [length_append]; omega)
      (fun op hop ↦ halign op (mem_cons_of_mem _ hop)) hops
    refine ⟨bytes ++ rest, append_assoc _ _ _, ?_⟩
    rw [layoutOps, hsize, ← hlayout, hlength]
    rfl

theorem encodeOps_append :
    encodeOps parsed k layout bias i out (xs ++ ys) = .ok out' ↔
      ∃ out₁, encodeOps parsed k layout bias i out xs = .ok out₁ ∧
        encodeOps parsed k layout bias (i + xs.length) out₁ ys = .ok out' := by
  induction xs generalizing i out with
  | nil => simp [encodeOps]
  | cons op xs ih =>
    simp only [cons_append, encodeOps, bind_ok, ih, length_cons, add_assoc, add_comm 1]
    constructor
    · rintro ⟨out₂, hop, out₁, hxs, hys⟩
      exact ⟨out₁, ⟨out₂, hop, hxs⟩, hys⟩
    · rintro ⟨out₁, ⟨out₂, hop, hxs⟩, hys⟩
      exact ⟨out₂, hop, out₁, hxs, hys⟩

end Sections

/-! ### The loaded file -/

section Image

open Elf (field field_append field_leNat_append)

theorem length_writeElfHeader (entry phnum shoff shnum shstrndx : ℕ) :
    (writeElfHeader entry phnum shoff shnum shstrndx).length = 64 := by
  simp [writeElfHeader, zeros]

theorem length_writeProgramHeader (flags offset vaddr fileSize memorySize : ℕ) :
    (writeProgramHeader flags offset vaddr fileSize memorySize).length = 56 := by
  simp [writeProgramHeader]

/-- The header says that program headers follow it. -/
theorem field_writeElfHeader (entry phnum shoff shnum shstrndx : ℕ) (rest : List Byte) :
    field (writeElfHeader entry phnum shoff shnum shstrndx ++ rest) 32 8 = 64 := by
  simp only [writeElfHeader, append_assoc]
  iterate 6 rw [field_append (by simp [zeros])]
  exact field_leNat_append (by decide)

theorem field_writeProgramHeader_offset (flags vaddr fileSize memorySize : ℕ) (rest : List Byte) :
    field (writeProgramHeader flags 0 vaddr fileSize memorySize ++ rest) 8 8 = 0 := by
  simp only [writeProgramHeader, append_assoc]
  iterate 2 rw [field_append (by simp)]
  exact field_leNat_append (by decide)

theorem field_writeProgramHeader_vaddr (h : vaddr < 2 ^ 64) (rest : List Byte) :
    field (writeProgramHeader flags offset vaddr fileSize memorySize ++ rest) 16 8 = vaddr := by
  simp only [writeProgramHeader, append_assoc]
  iterate 3 rw [field_append (by simp)]
  exact field_leNat_append (by omega)

theorem field_writeProgramHeader_fileSize (h : fileSize < 2 ^ 64) (rest : List Byte) :
    field (writeProgramHeader flags offset vaddr fileSize memorySize ++ rest) 32 8 = fileSize := by
  simp only [writeProgramHeader, append_assoc]
  iterate 5 rw [field_append (by simp)]
  exact field_leNat_append (by omega)

/-- **The segment in memory.** A file that starts with the two headers maps what follows them. -/
theorem holds_segment {entry : ℕ} {before : List Byte} (hpad : pad.length + before.length = 8 + d)
    (hmapped : 128 + d + bytes.length ≤ fileSize) (hspace : vaddr + fileSize < 2 ^ 64) :
    Holds (Elf.load (writeElfHeader entry phnum shoff shnum shstrndx ++
        writeProgramHeader flags 0 vaddr fileSize memorySize ++ pad ++ before ++ bytes ++ after))
      (BitVec.ofNat 64 (vaddr + (128 + d))) bytes := by
  have hfields (n : ℕ) (hn : 64 ≤ n) (rest : List Byte) :
      field (writeElfHeader entry phnum shoff shnum shstrndx ++ rest) n 8 =
        field rest (n - 64) 8 := by
    rw [field_append (by rw [length_writeElfHeader]; exact hn), length_writeElfHeader]
  refine Elf.holds_load 64 0 vaddr fileSize (128 + d) ?_ ?_ ?_ ?_ ?_ hmapped hspace
  · simp only [append_assoc]
    exact field_writeElfHeader _ _ _ _ _ _
  · simp only [append_assoc]
    rw [hfields _ (by omega)]
    exact field_writeProgramHeader_offset _ _ _ _ _
  · simp only [append_assoc]
    rw [hfields _ (by omega)]
    exact field_writeProgramHeader_vaddr (by omega) _
  · simp only [append_assoc]
    rw [hfields _ (by omega)]
    exact field_writeProgramHeader_fileSize (by omega) _
  · simp only [length_append, length_writeElfHeader, length_writeProgramHeader]
    omega

theorem copyFromSlice_ok {result : List Byte} {start : ℕ}
    (h : copyFromSlice buffer start bytes = .ok result) :
    start + bytes.length ≤ buffer.length ∧
      result = buffer.take start ++ bytes ++ buffer.drop (start + bytes.length) :=
  (ite_ok_iff.1 h).imp_right Eq.symm

variable {n : ℕ}

/-- Both sections' bytes in the segment, when the text ends before the read-only data. -/
theorem copy_sections
    (htext : copyFromSlice (zeros (n + rodataBytes.length)) 0 textBytes = .ok withText)
    (hrodata : copyFromSlice withText n rodataBytes = .ok segment) (hle : textBytes.length ≤ n) :
    segment = textBytes ++ zeros (n - textBytes.length) ++ rodataBytes := by
  obtain ⟨-, hwithText⟩ := copyFromSlice_ok htext
  obtain ⟨-, hsegment⟩ := copyFromSlice_ok hrodata
  rw [take_zero, nil_append, zeros, List.drop_replicate] at hwithText
  have hlength : withText.length = n + rodataBytes.length := by
    rw [hwithText, length_append, length_replicate]
    omega
  have htake : withText.take n = textBytes ++ zeros (n - textBytes.length) := by
    rw [hwithText, List.take_append, take_of_length_le hle, List.take_replicate, zeros,
      min_eq_left (by omega)]
  rw [hsegment, htake, List.drop_eq_nil_of_le (by omega), append_nil]

/-- The read-only data starts where the text ends, rounded up. -/
theorem le_rodataOffset (n : ℕ) : startTrampolineSize + n ≤ (forTextUserSize n).rodataOffset := by
  have hbase : (forTextUserSize n).rodataOffset = (startTrampolineSize + n + 8 - 1) / 8 * 8 := by
    simp [rodataOffset, forTextUserSize, alignUp]
  omega

theorem rodataBase_eq (n : ℕ) : (forTextUserSize n).rodataBase =
    elfBaseAddr + (forTextUserSize n).rodataOffset := by
  simp [rodataOffset, forTextUserSize]

theorem le_alignUp (value align : ℕ) : value ≤ alignUp value align := by
  rw [alignUp]
  split
  · exact le_rfl
  · have hdiv := Nat.div_add_mod (value + align - 1) align
    have hmod := mod_lt (value + align - 1) (show 0 < align by omega)
    rw [mul_comm] at hdiv
    omega

/-- The file, with both sections in place. -/
theorem writeElf_ok (h : writeElf (.forTextUserSize n) textBytes rodataBytes = .ok elf)
    (htext : textBytes.length ≤ (forTextUserSize n).rodataOffset) :
    ∃ fileSize shoff pad after,
      fileSize = 128 + (forTextUserSize n).rodataOffset + rodataBytes.length ∧
      fileSize < 2 ^ 63 ∧
      textBytes.length + pad.length = (forTextUserSize n).rodataOffset ∧
      elf = writeElfHeader elfBaseAddr 1 shoff 4 3 ++
        writeProgramHeader 5 0 (elfBaseAddr - 128) fileSize fileSize ++ zeros 8 ++
        (textBytes ++ pad ++ rodataBytes) ++ after := by
  simp only [writeElf] at h
  split at h
  · simp at h
  split at h
  · simp at h
  simp only [bind_ok, pure_ok] at h
  obtain ⟨withText, hwithText, segment, hsegment, rfl⟩ := h
  rw [copy_sections hwithText hsegment htext]
  set rodataOffset := (forTextUserSize n).rodataOffset
  have hoffset : elfSegmentFileOffset = 128 := rfl
  have hnames := le_alignUp (elfSegmentFileOffset + (rodataOffset + rodataBytes.length)) 8
  have hheaders := le_alignUp (alignUp (elfSegmentFileOffset +
    (rodataOffset + rodataBytes.length)) 8 + elfSectionNames.length) 8
  refine ⟨_, _, zeros (rodataOffset - textBytes.length), _, (add_assoc _ _ _).symm, ?_, ?_, rfl⟩
  · omega
  · rw [zeros, length_replicate]
    omega

/-- **The image.** Each section stands in memory from its base on. -/
theorem holds_writeElf (h : writeElf (.forTextUserSize n) textBytes rodataBytes = .ok elf)
    (htext : textBytes.length = startTrampolineSize + n) :
    Holds (Elf.load elf) (BitVec.ofNat 64 elfBaseAddr) textBytes ∧
      Holds (Elf.load elf) (BitVec.ofNat 64 (forTextUserSize n).rodataBase) rodataBytes := by
  obtain ⟨fileSize, shoff, pad, after, hfileSize, hlt, hpad, rfl⟩ :=
    writeElf_ok h (htext ▸ le_rodataOffset n)
  have hbase : elfBaseAddr = 0x10000 := rfl
  have haddress (d : ℕ) : elfBaseAddr - 128 + (128 + d) = elfBaseAddr + d := by omega
  constructor
  · have hholds : Holds (Elf.load (writeElfHeader elfBaseAddr 1 shoff 4 3 ++
        writeProgramHeader 5 0 (elfBaseAddr - 128) fileSize fileSize ++ zeros 8 ++ [] ++
        textBytes ++ (pad ++ rodataBytes ++ after)))
        (BitVec.ofNat 64 (elfBaseAddr - 128 + (128 + 0))) textBytes :=
      holds_segment rfl (by omega) (by omega)
    rw [haddress, add_zero] at hholds
    simpa only [append_assoc, nil_append] using hholds
  · have hholds : Holds (Elf.load (writeElfHeader elfBaseAddr 1 shoff 4 3 ++
        writeProgramHeader 5 0 (elfBaseAddr - 128) fileSize fileSize ++ zeros 8 ++
        (textBytes ++ pad) ++ rodataBytes ++ after))
        (BitVec.ofNat 64 (elfBaseAddr - 128 +
          (128 + (forTextUserSize n).rodataOffset))) rodataBytes :=
      holds_segment (by rw [zeros, length_replicate, length_append]; omega) (by omega) (by omega)
    rw [haddress, ← rodataBase_eq] at hholds
    simpa only [append_assoc] using hholds

end Image

/-! ### Accepted texts -/

/-- A section that was encoded after `bias` bytes of output and stands in memory. -/
structure Emitted (m : Memory) (parsed : ParsedAssembly) (layout : SectionLayout) (k : SectionKind)
    (bias : ℕ) (start : List Byte) (out : List Byte) : Prop where
  length_start : start.length = bias
  bias_le : bias ≤ layout.base k
  aligns : AlignsPlainly bias (parsed.section_ k).ops
  encode : encodeSection parsed k start layout bias = .ok out
  holds : Holds m (BitVec.ofNat 64 (layout.base k - bias)) out

/-- **Every operation is where layout put it.** Its bytes, and those of the operations after it,
stand at the base of its section plus the size of the operations before it. -/
theorem Emitted.split {m : Memory} {bias : ℕ} {start : List Byte}
    (h : Emitted m parsed layout k bias start out) {before after : List LocatedAsmOp}
    (hops : (parsed.section_ k).ops = before ++ op :: after) :
    ∃ sofar bytes rest,
      layoutOps (.exact parsed.relaxedTextBranches) k 0 0 before = .ok (sofar.length - bias) ∧
      bias ≤ sofar.length ∧
      opSize op.op (sofar.length - bias) k before.length (.exact parsed.relaxedTextBranches) =
        .ok bytes.length ∧
      encodeOp parsed k layout bias before.length sofar op = .ok (sofar ++ bytes) ∧
      encodeOps parsed k layout bias (before.length + 1) (sofar ++ bytes) after =
        .ok (sofar ++ bytes ++ rest) ∧
      Holds m (BitVec.ofNat 64 (layout.base k + (sofar.length - bias))) (bytes ++ rest) := by
  have halign := h.aligns
  have hencode := h.encode
  rw [encodeSection, hops, encodeOps_append] at hencode
  rw [hops] at halign
  obtain ⟨sofar, hbefore, hcons⟩ := hencode
  rw [zero_add, encodeOps, bind_ok] at hcons
  obtain ⟨next, hop, hafter⟩ := hcons
  have hmem {x : LocatedAsmOp} (hx : x ∈ op :: after) : x ∈ before ++ op :: after :=
    mem_append_right _ hx
  obtain ⟨emitted, rfl, hlayout⟩ := encodeOps_ok h.length_start.ge
    (fun x hx ↦ halign x (mem_append_left _ hx)) hbefore
  have hbias : bias ≤ (start ++ emitted).length := by
    rw [length_append, h.length_start]
    omega
  obtain ⟨bytes, rfl, hsize⟩ := encodeOp_ok hbias (halign op (hmem mem_cons_self)) hop
  obtain ⟨rest, rfl, -⟩ := encodeOps_ok (by rw [length_append]; omega)
    (fun x hx ↦ halign x (hmem (mem_cons_of_mem _ hx))) hafter
  rw [h.length_start, Nat.sub_self] at hlayout
  refine ⟨start ++ emitted, bytes, rest, hlayout, hbias, hsize, hop, hafter, ?_⟩
  have hholds := h.holds
  rw [append_assoc (start ++ emitted)] at hholds
  have haddress : layout.base k - bias + (start ++ emitted).length =
      layout.base k + ((start ++ emitted).length - bias) := by
    have := h.bias_le
    omega
  have hright := hholds.append_right
  rwa [← ofNat_add, haddress] at hright

theorem length_encodeFixedLiSequence (hfits : liFitsLuiAddiRv64 imm = true)
    (h : encodeFixedLiSequence rd imm = .ok bytes) : bytes.length = 8 := by
  have hsigned : liSignedI64 imm = some imm := by
    rw [liFitsLuiAddiRv64] at hfits
    split at hfits
    · rename_i hrange
      rw [and_eq_true, decide_eq_true_eq, decide_eq_true_eq] at hrange
      rw [liSignedI64, if_pos]
      rw [and_eq_true, decide_eq_true_eq, decide_eq_true_eq]
      omega
    · cases hfits
  simp only [encodeFixedLiSequence, hsigned, hfits, if_true, bind_ok, pure_ok] at h
  obtain ⟨-, -, -, -, rfl⟩ := h
  rfl

/-- The trampoline fills its reservation, on both of its paths. -/
theorem encodeTrampoline_ok {lines : List String}
    (h : encodeTrampoline lines parsed layout entryLabel = .ok bytes) :
    bytes.length = startTrampolineSize ∧
      (entryRequiresExplicitParameterAbi lines entryLabel = false →
        ∃ target call rest, parsed.symbolAddress entryLabel layout = .ok target ∧
          encodeCallSequence layout.textBase target = .ok call ∧ bytes = call ++ rest) := by
  rw [encodeTrampoline] at h
  split at h
  · rename_i hmarker
    simp only [bind_ok, pure_ok] at h
    obtain ⟨first, hfirst, exit, hexit, rfl⟩ := h
    have hfirstLength := length_encodeFixedLiSequence (by decide) hfirst
    have hexitLength := length_encodeFixedLiSequence (by decide) hexit
    refine ⟨?_, fun hno ↦ absurd hno (by rw [hmarker]; decide)⟩
    simp [hfirstLength, hexitLength, startTrampolineSize]
  · simp only [bind_ok, pure_ok] at h
    obtain ⟨target, htarget, first, hcall, exit, hexit, rfl⟩ := h
    have hexitLength := length_encodeFixedLiSequence (by decide) hexit
    refine ⟨?_, fun _ ↦ ⟨target, first, exit ++ leBytes encodeEcall, htarget, hcall,
      append_assoc _ _ _⟩⟩
    obtain ⟨-, -, -, -, -, -, -, rfl⟩ := encodeCallSequence_ok hcall
    simp [hexitLength, startTrampolineSize]

end CellScript.Assembler
