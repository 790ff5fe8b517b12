import CellScript.Assembler.Immediate

/-!
# Assembly text

The reader of `codegen/assembler.rs`: what one line of generated assembly means. Lines are read as
lists of characters, with the Unicode notion of whitespace of the source language, and every error
carries the text the assembler reports. Where the compiler itself would abort (a slice that ends
before it starts) the reader fails as well.

Instructions keep the source's constructors. Mnemonics with the same operand shape share one reader
(`parseRegs`, `parseRegImm`, `parseMemory`, …), applied to the member's own constructor.
-/

namespace CellScript.Assembler

open Rv64 (Reg Word Byte)

/-! ### Characters -/

/-- The Unicode property `White_Space`. -/
def isWhitespace (c : Char) : Bool :=
  let n := c.toNat
  (0x9 ≤ n && n ≤ 0xd) || n == 0x20 || n == 0x85 || n == 0xa0 || n == 0x1680 ||
    (0x2000 ≤ n && n ≤ 0x200a) || n == 0x2028 || n == 0x2029 || n == 0x202f || n == 0x205f ||
    n == 0x3000

def trim (cs : List Char) : List Char :=
  ((cs.dropWhile isWhitespace).reverse.dropWhile isWhitespace).reverse

def stripPrefix (p : String) (cs : List Char) : Option (List Char) :=
  cs.dropPrefix? p.toList

def stripSuffix (p : String) (cs : List Char) : Option (List Char) :=
  cs.dropSuffix? p.toList

/-- Without its comment and the whitespace around it; `none` for a blank line. -/
def stripComment (line : String) : Option (List Char) :=
  go line.toList [] false false
where
  /-- The characters to the left of the scan are kept in reverse. -/
  go : List Char → List Char → Bool → Bool → Option (List Char)
    | [], left, _, _ =>
      let trimmed := trim left.reverse
      if trimmed.isEmpty then none else some trimmed
    | c :: cs, left, inString, escape =>
      if c = '"' ∧ escape = false then go cs (c :: left) (!inString) false
      else if c = '#' ∧ inString = false then some (trim left.reverse)
      else if c = '\\' ∧ inString = true then go cs (c :: left) inString (!escape)
      else go cs (c :: left) inString false

/-! ### Numbers -/

def toDigit (radix : ℕ) (c : Char) : Option ℕ :=
  let n := c.toNat
  let digit :=
    if 0x30 ≤ n ∧ n ≤ 0x39 then n - 0x30
    else if 0x61 ≤ n ∧ n ≤ 0x7a then n - 0x61 + 10
    else if 0x41 ≤ n ∧ n ≤ 0x5a then n - 0x41 + 10
    else radix
  if digit < radix then some digit else none

def parseDigits (radix : ℕ) (cs : List Char) : Option ℕ :=
  if cs.isEmpty then none
  else cs.foldlM (fun value c ↦ (toDigit radix c).map (value * radix + ·)) 0

/-- The integer parser of a type with the given range. Only signed types read a minus sign. -/
def fromStrRadix (min max : ℤ) (radix : ℕ) (cs : List Char) : Option ℤ :=
  let value : Option ℤ :=
    match cs with
    | '+' :: digits => (parseDigits radix digits).map Int.ofNat
    | '-' :: digits =>
      if min < 0 then (parseDigits radix digits).map fun n ↦ -(n : ℤ) else none
    | digits => (parseDigits radix digits).map Int.ofNat
  value.filter fun value ↦ decide (min ≤ value) && decide (value ≤ max)

def parseI64 (radix : ℕ) (cs : List Char) : Option ℤ := fromStrRadix (-2 ^ 63) (2 ^ 63 - 1) radix cs

def parseI128 (radix : ℕ) (cs : List Char) : Option ℤ :=
  fromStrRadix (-2 ^ 127) (2 ^ 127 - 1) radix cs

def parseU128 (radix : ℕ) (cs : List Char) : Option ℤ := fromStrRadix 0 (2 ^ 128 - 1) radix cs

def parseU8 (radix : ℕ) (cs : List Char) : Option ℤ := fromStrRadix 0 255 radix cs

def invalidImmediate (value : List Char) : CompileError :=
  .new s!"invalid immediate '{String.ofList value}'"

/-- The value, or the error. -/
def okOr {α : Type} (error : CompileError) : Option α → Result α
  | some a => .ok a
  | none => .error error

@[simp] theorem okOr_ok_iff {α : Type} {error : CompileError} {x : Option α} {a : α} :
    okOr error x = .ok a ↔ x = some a := by
  cases x <;> simp [okOr]

def parseImmediate (value : List Char) : Result ℤ :=
  match stripPrefix "-0x" value with
  -- negating the least `i64` wraps
  | some hex => okOr (invalidImmediate value) ((parseI64 16 hex).map fun v ↦ (-v).bmod (2 ^ 64))
  | none =>
    match (stripPrefix "0x" value).or (stripPrefix "+0x" value) with
    | some hex => okOr (invalidImmediate value) (parseI64 16 hex)
    | none => okOr (invalidImmediate value) (parseI64 10 value)

def liOutOfRange (value : List Char) : CompileError :=
  .new s!"li immediate '{String.ofList value}' does not fit 64 bits"

def validateLiImmediate (parsed : ℤ) (source : List Char) : Result ℤ :=
  if decide (-2 ^ 63 ≤ parsed) && decide (parsed ≤ 2 ^ 64 - 1) then .ok parsed
  else .error (liOutOfRange source)

def parseLiImmediate (value : List Char) : Result ℤ :=
  match stripPrefix "-0x" value with
  | some hex => do
    let parsed ← okOr (invalidImmediate value) (parseI128 16 hex)
    validateLiImmediate (-parsed) value
  | none =>
    match (stripPrefix "0x" value).or (stripPrefix "+0x" value) with
    | some hex => do
      let parsed ← okOr (invalidImmediate value) (parseU128 16 hex)
      if parsed ≤ 2 ^ 64 - 1 then return parsed else throw (liOutOfRange value)
    | none =>
      if value.head? = some '-' then do
        let parsed ← okOr (invalidImmediate value) (parseI128 10 value)
        validateLiImmediate parsed value
      else do
        let parsed ← okOr (invalidImmediate value) (parseU128 10 value)
        if parsed ≤ 2 ^ 64 - 1 then return parsed else throw (liOutOfRange value)

/-! ### Operands -/

def parseRegister (name : List Char) : Result Reg :=
  match String.ofList name with
  | "zero" | "x0" => .ok 0#5
  | "ra" | "x1" => .ok 1#5
  | "sp" | "x2" => .ok 2#5
  | "gp" | "x3" => .ok 3#5
  | "tp" | "x4" => .ok 4#5
  | "t0" | "x5" => .ok 5#5
  | "t1" | "x6" => .ok 6#5
  | "t2" | "x7" => .ok 7#5
  | "s0" | "fp" | "x8" => .ok 8#5
  | "s1" | "x9" => .ok 9#5
  | "a0" | "x10" => .ok 10#5
  | "a1" | "x11" => .ok 11#5
  | "a2" | "x12" => .ok 12#5
  | "a3" | "x13" => .ok 13#5
  | "a4" | "x14" => .ok 14#5
  | "a5" | "x15" => .ok 15#5
  | "a6" | "x16" => .ok 16#5
  | "a7" | "x17" => .ok 17#5
  | "s2" | "x18" => .ok 18#5
  | "s3" | "x19" => .ok 19#5
  | "s4" | "x20" => .ok 20#5
  | "s5" | "x21" => .ok 21#5
  | "s6" | "x22" => .ok 22#5
  | "s7" | "x23" => .ok 23#5
  | "s8" | "x24" => .ok 24#5
  | "s9" | "x25" => .ok 25#5
  | "s10" | "x26" => .ok 26#5
  | "s11" | "x27" => .ok 27#5
  | "t3" | "x28" => .ok 28#5
  | "t4" | "x29" => .ok 29#5
  | "t5" | "x30" => .ok 30#5
  | "t6" | "x31" => .ok 31#5
  | other => .error (.new s!"unknown register '{other}'")

/-- An operand `imm(reg)`, between the first opening and the last closing parenthesis. -/
def parseMemoryOperand (value : List Char) : Result (ℤ × Reg) := do
  let invalid : CompileError := .new s!"invalid memory operand '{String.ofList value}'"
  let start := value.idxOf '('
  let fromEnd := value.reverse.idxOf ')'
  if start = value.length then throw invalid
  if fromEnd = value.length then throw invalid
  let close := value.length - 1 - fromEnd
  let imm ← parseImmediate (trim (value.take start))
  if close < start + 1 then throw (.new "slice index starts past its end")
  let rs1 ← parseRegister (trim ((value.take close).drop (start + 1)))
  return (imm, rs1)

def utf8 (c : Char) : List Byte := (String.utf8EncodeChar c).map UInt8.toBitVec

/-- The bytes of a quoted literal. -/
def parseAsciiLiteral (value : List Char) : Result (List Byte) :=
  match (stripPrefix "\"" value).bind (stripSuffix "\"") with
  | none => .error (.new s!"invalid .ascii literal '{String.ofList value}'")
  | some inner => go inner
where
  go : List Char → Result (List Byte)
    | [] => .ok []
    | '\\' :: 'n' :: cs => (10#8 :: ·) <$> go cs
    | '\\' :: 'r' :: cs => (13#8 :: ·) <$> go cs
    | '\\' :: 't' :: cs => (9#8 :: ·) <$> go cs
    | '\\' :: '\\' :: cs => (0x5c#8 :: ·) <$> go cs
    | '\\' :: '"' :: cs => (0x22#8 :: ·) <$> go cs
    | '\\' :: 'x' :: hi :: lo :: cs =>
      match parseU8 16 [hi, lo] with
      | some byte => (BitVec.ofInt 8 byte :: ·) <$> go cs
      | none => .error (.new s!"invalid hex escape '\\x{hi}{lo}'")
    | '\\' :: 'x' :: _ => .error (.new "incomplete hex escape in .ascii literal")
    | '\\' :: other :: _ =>
      .error (.new s!"unsupported escape sequence '\\{other}' in .ascii literal")
    | ['\\'] => .error (.new "unterminated escape sequence in .ascii literal")
    | c :: cs => (utf8 c ++ ·) <$> go cs

/-! ### Operations -/

inductive Instruction
  | addi (rd rs1 : Reg) (imm : ℤ)
  | add (rd rs1 rs2 : Reg)
  | sub (rd rs1 rs2 : Reg)
  | and (rd rs1 rs2 : Reg)
  | andi (rd rs1 : Reg) (imm : ℤ)
  | or (rd rs1 rs2 : Reg)
  | xor (rd rs1 rs2 : Reg)
  | mul (rd rs1 rs2 : Reg)
  | mulhu (rd rs1 rs2 : Reg)
  | div (rd rs1 rs2 : Reg)
  | divu (rd rs1 rs2 : Reg)
  | rem (rd rs1 rs2 : Reg)
  | remu (rd rs1 rs2 : Reg)
  | slt (rd rs1 rs2 : Reg)
  | sltu (rd rs1 rs2 : Reg)
  | sgt (rd rs1 rs2 : Reg)
  | xori (rd rs1 : Reg) (imm : ℤ)
  | seqz (rd rs : Reg)
  | snez (rd rs : Reg)
  | neg (rd rs : Reg)
  | ld (rd rs1 : Reg) (imm : ℤ)
  | lbu (rd rs1 : Reg) (imm : ℤ)
  | sb (rs2 rs1 : Reg) (imm : ℤ)
  | sh (rs2 rs1 : Reg) (imm : ℤ)
  | sw (rs2 rs1 : Reg) (imm : ℤ)
  | sd (rs2 rs1 : Reg) (imm : ℤ)
  | slli (rd rs1 : Reg) (shamt : ℤ)
  | srai (rd rs1 : Reg) (shamt : ℤ)
  | srli (rd rs1 : Reg) (shamt : ℤ)
  | rori (rd rs1 : Reg) (shamt : ℤ)
  | roriw (rd rs1 : Reg) (shamt : ℤ)
  | sll (rd rs1 rs2 : Reg)
  | srl (rd rs1 rs2 : Reg)
  | sra (rd rs1 rs2 : Reg)
  | li (rd : Reg) (imm : ℤ)
  | la (rd : Reg) (label : String)
  | call (label : String)
  | jump (label : String)
  | beq (rs1 rs2 : Reg) (label : String)
  | bne (rs1 rs2 : Reg) (label : String)
  | blt (rs1 rs2 : Reg) (label : String)
  | bge (rs1 rs2 : Reg) (label : String)
  | bltu (rs1 rs2 : Reg) (label : String)
  | bgeu (rs1 rs2 : Reg) (label : String)
  | beqz (rs : Reg) (label : String)
  | bnez (rs : Reg) (label : String)
  | ret
  | ecall
  deriving DecidableEq, Repr

inductive SectionKind
  | text
  | rodata
  deriving DecidableEq, Repr

inductive AsmOp
  | label (name : String)
  | instruction (inst : Instruction)
  | word (value : Word)
  | byte (value : Byte)
  | ascii (bytes : List Byte)
  | align (bytes : ℕ)
  deriving DecidableEq, Repr

abbrev Args := List (List Char)

def arg (args : Args) (index : ℕ) : Result (List Char) :=
  okOr (.new "malformed assembly instruction") args[index]?

def registerArg (args : Args) (index : ℕ) : Result Reg := do
  parseRegister (← arg args index)

def immediateArg (args : Args) (index : ℕ) : Result ℤ := do
  parseImmediate (← arg args index)

def labelArg (args : Args) (index : ℕ) : Result String := do
  return String.ofList (← arg args index)

def parseRegs (mk : Reg → Reg → Reg → Instruction) (args : Args) : Result Instruction := do
  return mk (← registerArg args 0) (← registerArg args 1) (← registerArg args 2)

def parseRegImm (mk : Reg → Reg → ℤ → Instruction) (args : Args) : Result Instruction := do
  return mk (← registerArg args 0) (← registerArg args 1) (← immediateArg args 2)

def parseUnary (mk : Reg → Reg → Instruction) (args : Args) : Result Instruction := do
  return mk (← registerArg args 0) (← registerArg args 1)

/-- The memory operand is read before the register. -/
def parseMemory (mk : Reg → Reg → ℤ → Instruction) (args : Args) : Result Instruction := do
  let (imm, rs1) ← parseMemoryOperand (← arg args 1)
  return mk (← registerArg args 0) rs1 imm

def parseBranch (mk : Reg → Reg → String → Instruction) (args : Args) : Result Instruction := do
  return mk (← registerArg args 0) (← registerArg args 1) (← labelArg args 2)

def parseBranchZero (mk : Reg → String → Instruction) (args : Args) : Result Instruction := do
  return mk (← registerArg args 0) (← labelArg args 1)

def parseInstruction (line : List Char) : Result Instruction :=
  let opcode := line.takeWhile fun c ↦ !isWhitespace c
  let rest := trim (line.drop (opcode.length + 1))
  let args : Args := if rest.isEmpty then [] else (rest.splitOn ',').map trim
  match String.ofList opcode with
  | "addi" => parseRegImm .addi args
  | "add" => parseRegs .add args
  | "sub" => parseRegs .sub args
  | "and" => parseRegs .and args
  | "andi" => parseRegImm .andi args
  | "or" => parseRegs .or args
  | "xor" => parseRegs .xor args
  | "mul" => parseRegs .mul args
  | "mulhu" => parseRegs .mulhu args
  | "div" => parseRegs .div args
  | "divu" => parseRegs .divu args
  | "rem" => parseRegs .rem args
  | "remu" => parseRegs .remu args
  | "slt" => parseRegs .slt args
  | "sltu" => parseRegs .sltu args
  | "sgt" => parseRegs .sgt args
  | "xori" => parseRegImm .xori args
  | "seqz" => parseUnary .seqz args
  | "snez" => parseUnary .snez args
  | "neg" => parseUnary .neg args
  | "ld" => parseMemory .ld args
  | "lbu" => parseMemory .lbu args
  | "sb" => parseMemory .sb args
  | "sh" => parseMemory .sh args
  | "sw" => parseMemory .sw args
  | "sd" => parseMemory .sd args
  | "slli" => parseRegImm .slli args
  | "srai" => parseRegImm .srai args
  | "srli" => parseRegImm .srli args
  | "rori" => parseRegImm .rori args
  | "roriw" => parseRegImm .roriw args
  | "sll" => parseRegs .sll args
  | "srl" => parseRegs .srl args
  | "sra" => parseRegs .sra args
  | "li" => do return .li (← registerArg args 0) (← parseLiImmediate (← arg args 1))
  | "mv" => do return .addi (← registerArg args 0) (← registerArg args 1) 0
  | "la" => parseBranchZero .la args
  | "call" => do return .call (← labelArg args 0)
  | "j" => do return .jump (← labelArg args 0)
  -- `bgt` reads its second operand first
  | "bgt" => do return .blt (← registerArg args 1) (← registerArg args 0) (← labelArg args 2)
  | "bgez" => do return .bge (← registerArg args 0) 0#5 (← labelArg args 1)
  | "beq" => parseBranch .beq args
  | "bne" => parseBranch .bne args
  | "blt" => parseBranch .blt args
  | "bge" => parseBranch .bge args
  | "bltu" => parseBranch .bltu args
  | "bgeu" => parseBranch .bgeu args
  | "beqz" => parseBranchZero .beqz args
  | "bnez" => parseBranchZero .bnez args
  | "ret" => .ok .ret
  | "ecall" => .ok .ecall
  | other => .error (.new s!"unsupported assembly instruction '{other}'")

def parseAsmOp (line : List Char) : Result AsmOp :=
  match stripPrefix ".word " line with
  | some value => do
    let value ← parseImmediate (trim value)
    if 0 ≤ value ∧ value ≤ 2 ^ 32 - 1 then return .word (BitVec.ofInt 32 value)
    else throw (.new s!"'.word' value '{value}' does not fit u32")
  | none =>
    match stripPrefix ".byte " line with
    | some value => do
      let value ← parseImmediate (trim value)
      if 0 ≤ value ∧ value ≤ 255 then return .byte (BitVec.ofInt 8 value)
      else throw (.new s!"'.byte' value '{value}' does not fit u8")
    | none =>
      match stripPrefix ".ascii " line with
      | some value => do return .ascii (← parseAsciiLiteral (trim value))
      | none =>
        match stripPrefix ".align " line with
        | some value => do
          let alignPow ← parseImmediate (trim value)
          if 0 ≤ alignPow ∧ alignPow ≤ 16 then return .align (2 ^ alignPow.toNat)
          else throw (.new s!"unsupported .align value '{alignPow}'")
        | none => do return .instruction (← parseInstruction line)

def parseSectionDirective (line : List Char) : Result (Option SectionKind) :=
  match stripPrefix ".section " line with
  | none => .ok none
  | some name =>
    match String.ofList (trim name) with
    | ".text" => .ok (some .text)
    | ".rodata" => .ok (some .rodata)
    | other => .error (.new s!"unsupported assembly section '{other}'")

end CellScript.Assembler
