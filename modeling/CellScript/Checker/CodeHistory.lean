import CellScript.Checker.CodeOrigin
import CellScript.Library.Unique
import CellScript.Policy.OpenHandle

/-!
# Code histories

The lineage of a code cell under a built-in Type ID, as `code_origin/history.rs` checks it: a
creation and replacements that each consume the output before, with one output of the type in every
transaction. The hash and the digest of the record are parameters.

A history is determined by its deployment line and its length, as long as no output is consumed
twice: `codeHistory_prefix`.
-/

namespace CellScript.Checker.CodeOrigin

open Bytes (le ofLe field padded)
open Nested
open OpenHandlePolicy (Hash)

/-! ### Histories -/

structure TypeCodeHistoryStep where
  rawTransaction : List UInt8
  outputIndex : UInt32
  deriving DecidableEq

structure Step where
  transactionHash : String
  outputIndex : UInt32
  artifactHash : String
  deriving DecidableEq

structure HistoryRecord where
  schema : String
  typeScriptHash : String
  custodyLockHash : String
  steps : List Step
  deriving DecidableEq

structure CheckedTypeCodeHistory where
  target : String
  line : Hash
  tip : List UInt8
  sequence : ℕ
  record : HistoryRecord

/-- What the checker reads of the checked target of a history. -/
structure Target where
  identity : String
  targetProfile : String
  selectedHashType : UInt8
  transactionHash : String
  outputIndex : UInt32
  artifactHash : String
  typeScriptHash : Option String

/-- The hash and the digest of a record. -/
structure Digests where
  ckbBlake2b256 : List UInt8 → Hash
  canonicalHash : String → HistoryRecord → Except CheckerError String

def hexDigit (n : ℕ) : Char := Char.ofNat (if n < 10 then 48 + n else 87 + n)

def hexEncode (bytes : List UInt8) : String :=
  String.ofList (bytes.flatMap fun b ↦ [hexDigit (b.toNat / 16), hexDigit (b.toNat % 16)])

/-- The value of a digit, which the digest has in lower case. -/
def nibble (byte : UInt8) : UInt8 := if byte ≤ 57 then byte - 48 else byte - 97 + 10

/-- The bytes of a digest, in a buffer of 32 zeros. -/
def tipOf (digest : String) : List UInt8 :=
  padded 32 0 (((chunksExact 2 digest.toUTF8.toList).take 32).map fun pair ↦
    nibble (pair.getD 0 0) * 16 + nibble (pair.getD 1 0))

/-! ### The checker -/

/-- The text `TYPE_ID` at the end of 32 bytes. -/
def typeIdCodeHash : List UInt8 := replicate 25 0 ++ [84, 89, 80, 69, 95, 73, 68]

/-- What the loop over the steps keeps. -/
structure Lineage where
  typeScript : List UInt8
  custody : List UInt8
  previous : List UInt8
  seen : List Hash
  records : List Step

def Lineage.empty : Lineage := ⟨[], [], replicate 36 0, [], []⟩

def outPoint (txHash : Hash) (index : UInt32) : List UInt8 := txHash.bytes ++ le 4 index.toNat

/-- The seed of a Type ID: the first input of the creation and the index of the output. -/
def typeIdSeed (inputs : List UInt8) (index : UInt32) : List UInt8 :=
  inputs.take 44 ++ le 8 index.toNat

/-- The number of outputs with a type. -/
def typedOutputs (cells : List Cell) (typeScript : List UInt8) : ℕ :=
  cells.countP fun c ↦ c.typeScript.any (·.bytes = typeScript)

/-- The OutPoints that the inputs of a transaction consume. -/
def consumedPoints (inputs : List UInt8) : List (List UInt8) :=
  (chunksExact 44 inputs).map (·.drop 8)

variable {step : TypeCodeHistoryStep}

section Check

variable (digests : Digests) {tx : Transaction}

/-- The first step creates the Type ID. -/
def checkGenesis (tx : Transaction) (script : Script) (index : UInt32) :
    Except CheckerError Unit := do
  if script.codeHash ≠ typeIdCodeHash ∨ script.hashType ≠ 1 ∨ script.args.length ≠ 32 then
    throw (invalid "Type-hash history requires the built-in TYPE_ID Script with 32-byte args")
  if tx.inputs.length < 44 then
    throw (invalid "Type-ID creation requires its actual first CellInput")
  if script.args ≠ (digests.ckbBlake2b256 (typeIdSeed tx.inputs index)).bytes then
    throw (invalid "Type-ID genesis args differ from the first CellInput and output index")

/-- A later step spends the one before it, under one lock. -/
def checkSuccessor (lineage : Lineage) (tx : Transaction) (script lock : Script) :
    Except CheckerError Unit := do
  if script.bytes ≠ lineage.typeScript ∨ lock.bytes ≠ lineage.custody ∨
      (consumedPoints tx.inputs).count lineage.previous ≠ 1 then
    throw (invalid ("Type-hash successor changes identity/custody or does not consume its exact " ++
      "predecessor"))

/-- The checks that differ between the creation and the replacements. -/
def checkPlace (lineage : Lineage) (tx : Transaction) (script lock : Script) (index : UInt32)
    (sequence : ℕ) : Except CheckerError Lineage :=
  if sequence = 0 then do
    checkGenesis digests tx script index
    return { lineage with typeScript := script.bytes, custody := lock.bytes }
  else do
    checkSuccessor lineage tx script lock
    return lineage

def checkStep (lineage : Lineage) (step : TypeCodeHistoryStep × ℕ) :
    Except CheckerError Lineage := do
  let index := step.1.outputIndex
  let tx ← parsed (transaction step.1.rawTransaction)
  let some output := tx.cells[index.toNat]?
    | throw (invalid "Type-hash history output is absent")
  let some script := output.typeScript
    | throw (invalid "Type-hash history output has no Type Script")
  let txHash := digests.ckbBlake2b256 step.1.rawTransaction
  if txHash ∈ lineage.seen then
    throw (invalid "Type-hash history repeats a transaction")
  let next ← checkPlace digests lineage tx script output.lock index step.2
  if typedOutputs tx.cells next.typeScript ≠ 1 then
    throw (invalid "Type-hash history must create exactly one output in the selected Type-ID group")
  let record : Step := ⟨hexEncode txHash.bytes, index,
    hexEncode (digests.ckbBlake2b256 (tx.data.getD index.toNat [])).bytes⟩
  return { next with
    previous := outPoint txHash index
    seen := txHash :: next.seen
    records := next.records ++ [record] }

/-- The bounds on the bytes of the steps. -/
def checkBudget (recordBytes : ℕ) (total : ℕ) (step : TypeCodeHistoryStep) :
    Except CheckerError ℕ := do
  let total := total + step.rawTransaction.length
  if total ≥ 2 ^ 64 then
    throw (invalid "Type-hash history size overflow")
  if step.rawTransaction.length > 4 * 1024 * 1024 ∨ step.rawTransaction.length > recordBytes ∨
      total > 16 * 1024 * 1024 then
    throw ⟨.v2400BudgetExceeded, "Type-hash history byte budget exceeded"⟩
  return total

def historyRecord (line : Hash) (lineage : Lineage) : HistoryRecord where
  schema := "cellscript-type-code-history-v1"
  typeScriptHash := hexEncode line.bytes
  custodyLockHash := hexEncode (digests.ckbBlake2b256 lineage.custody).bytes
  steps := lineage.records

/-- A history from its creation to the target. -/
def checkTypeCodeHistory (target : Target) (steps : List TypeCodeHistoryStep) (recordBytes : ℕ) :
    Except CheckerError CheckedTypeCodeHistory := do
  if steps = [] ∨ steps.length > 32 then
    throw (invalid "Type-hash history requires 1..=32 actual creation/replacement transactions")
  let _ ← steps.foldlM (checkBudget recordBytes) 0
  if target.selectedHashType ≠ 1 ∨ target.targetProfile ≠ "ckb-type-hash" then
    throw (invalid "Type-hash history requires an independently checked ckb-type-hash artifact")
  let lineage ← steps.zipIdx.foldlM (checkStep digests) .empty
  let line := digests.ckbBlake2b256 lineage.typeScript
  if (∃ last ∈ lineage.records.getLast?, last ≠
      ⟨target.transactionHash, target.outputIndex, target.artifactHash⟩) ∨
      target.typeScriptHash ≠ some (hexEncode line.bytes) then
    throw (invalid "Type-hash history tip differs from the independently checked code output")
  let record := historyRecord digests line lineage
  let digest ← digests.canonicalHash "cellscript-type-code-history-id-v1" record
  return ⟨target.identity, line, tipOf digest, lineage.records.length - 1, record⟩

/-! ### What an accepted step shows -/

namespace TypeCodeHistoryStep

/-- The output of a step, in its transaction, with its type script. -/
structure Creates (step : TypeCodeHistoryStep) (tx : Transaction) (output : Cell)
    (script : Script) : Prop where
  parse : transaction step.rawTransaction = .ok tx
  place : tx.cells[step.outputIndex.toNat]? = some output
  type : output.typeScript = some script
  single : typedOutputs tx.cells script.bytes = 1

/-- The data of the output of a step. -/
def artifact (step : TypeCodeHistoryStep) : List UInt8 :=
  (transaction step.rawTransaction).toOption.elim [] fun tx ↦
    tx.data.getD step.outputIndex.toNat []

/-- The OutPoints that the transaction of a step consumes. -/
def consumed (step : TypeCodeHistoryStep) : List (List UInt8) :=
  (transaction step.rawTransaction).toOption.elim [] fun tx ↦ consumedPoints tx.inputs

/-- What the creation of a Type ID hashes: its seed, the type script and the lock. -/
def genesisStrings (step : TypeCodeHistoryStep) : List (List UInt8) :=
  (transaction step.rawTransaction).toOption.elim [] fun tx ↦
    typeIdSeed tx.inputs step.outputIndex ::
      tx.cells[step.outputIndex.toNat]?.elim [] fun output ↦
        output.lock.bytes :: output.typeScript.toList.map (·.bytes)

variable {tx : Transaction} {output : Cell} {script : Script}

theorem Creates.artifact_eq (h : step.Creates tx output script) :
    step.artifact = tx.data.getD step.outputIndex.toNat [] := by
  rw [artifact, h.parse]
  rfl

theorem Creates.consumed_eq (h : step.Creates tx output script) :
    step.consumed = consumedPoints tx.inputs := by
  rw [consumed, h.parse]
  rfl

theorem Creates.seed_mem (h : step.Creates tx output script) :
    typeIdSeed tx.inputs step.outputIndex ∈ step.genesisStrings := by
  rw [genesisStrings, h.parse]
  exact mem_cons_self

theorem Creates.script_mem (h : step.Creates tx output script) :
    script.bytes ∈ step.genesisStrings := by
  rw [genesisStrings, h.parse]
  refine mem_cons_of_mem _ ?_
  rw [h.place, elim_some, h.type]
  exact mem_cons_of_mem _ (mem_singleton.2 rfl)

end TypeCodeHistoryStep

/-- The strings that the check of a history hashes. -/
def hashedStrings (steps : List TypeCodeHistoryStep) : List (List UInt8) :=
  steps.map (·.rawTransaction) ++ steps.map (·.artifact) ++
    steps.head?.elim [] TypeCodeHistoryStep.genesisStrings

def recordOf (step : TypeCodeHistoryStep) : Step where
  transactionHash := hexEncode (digests.ckbBlake2b256 step.rawTransaction).bytes
  outputIndex := step.outputIndex
  artifactHash := hexEncode (digests.ckbBlake2b256 step.artifact).bytes

/-- A step creates the Type ID. -/
def Genesis (typeScript : List UInt8) (step : TypeCodeHistoryStep) : Prop :=
  ∃ tx output script, step.Creates tx output script ∧ script.bytes = typeScript ∧
    44 ≤ tx.inputs.length ∧
      script.args = (digests.ckbBlake2b256 (typeIdSeed tx.inputs step.outputIndex)).bytes

/-- A step replaces the output of another one. -/
def Replaces (typeScript : List UInt8) (before step : TypeCodeHistoryStep) : Prop :=
  ∃ tx output script, step.Creates tx output script ∧ script.bytes = typeScript ∧
    outPoint (digests.ckbBlake2b256 before.rawTransaction) before.outputIndex ∈ step.consumed

section Accepted

variable {digests} {lineage next : Lineage} {sequence : ℕ} {steps : List TypeCodeHistoryStep}

/-- A step goes on to the next one: its place, and what it leaves in the lineage. -/
structure Advances (digests : Digests) (lineage : Lineage) (step : TypeCodeHistoryStep)
    (sequence : ℕ) (next : Lineage) : Prop where
  genesis : sequence = 0 → Genesis digests next.typeScript step
  replaces : sequence ≠ 0 → next.typeScript = lineage.typeScript ∧
    ∀ before, lineage.previous = outPoint (digests.ckbBlake2b256 before.rawTransaction)
      before.outputIndex → Replaces digests next.typeScript before step
  previous : next.previous = outPoint (digests.ckbBlake2b256 step.rawTransaction) step.outputIndex
  records : next.records = lineage.records ++ [recordOf digests step]

/-- What the two kinds of place show. -/
structure Placed (digests : Digests) (lineage : Lineage) (tx : Transaction) (script : Script)
    (index : UInt32) (sequence : ℕ) (place : Lineage) : Prop where
  typeScript : script.bytes = place.typeScript
  records : place.records = lineage.records
  genesis : sequence = 0 → 44 ≤ tx.inputs.length ∧
    script.args = (digests.ckbBlake2b256 (typeIdSeed tx.inputs index)).bytes
  successor : sequence ≠ 0 → place.typeScript = lineage.typeScript ∧
    lineage.previous ∈ consumedPoints tx.inputs

theorem placed_of_checkPlace {script lock : Script} {index : UInt32} {place : Lineage}
    (h : checkPlace digests lineage tx script lock index sequence = .ok place) :
    Placed digests lineage tx script index sequence place := by
  rw [checkPlace] at h
  split at h
  · next hzero =>
    obtain ⟨hgenesis, h⟩ := check_ok.1 h
    rw [checkGenesis] at hgenesis
    obtain ⟨-, hgenesis⟩ := guard_ok.1 hgenesis
    obtain ⟨hinput, hgenesis⟩ := guard_ok.1 hgenesis
    have hargs := not_not.1 (Except.check_ok_iff.1 hgenesis)
    obtain rfl := pure_ok.1 h
    exact ⟨rfl, rfl, fun _ ↦ ⟨Nat.le_of_not_lt hinput, hargs⟩, fun hne ↦ absurd hzero hne⟩
  · next hne =>
    obtain ⟨hsuccessor, h⟩ := check_ok.1 h
    have hchecks := Except.check_ok_iff.1 hsuccessor
    rw [not_or, not_or, not_not, not_not, not_not] at hchecks
    obtain rfl := pure_ok.1 h
    refine ⟨hchecks.1, rfl, fun hzero ↦ absurd hzero hne, fun _ ↦ ⟨rfl, ?_⟩⟩
    exact List.count_pos_iff.1 (hchecks.2.2 ▸ Nat.one_pos)

theorem advances_of_checkStep (h : checkStep digests lineage (step, sequence) = .ok next) :
    Advances digests lineage step sequence next := by
  obtain ⟨tx, htx, h⟩ := bind_ok.1 h
  rw [parsed_ok_iff] at htx
  cases houtput : tx.cells[step.outputIndex.toNat]? with
  | none =>
    rw [houtput] at h
    exact nomatch h
  | some output =>
    rw [houtput] at h
    cases hscript : output.typeScript with
    | none =>
      simp only [hscript] at h
      exact nomatch h
    | some script =>
      simp only [hscript] at h
      obtain ⟨-, h⟩ := guard_ok.1 h
      obtain ⟨place, hplace, h⟩ := bind_ok.1 h
      obtain ⟨hsingle, h⟩ := guard_ok.1 h
      rw [pure_ok] at h
      rw [not_not] at hsingle
      have hcreates : script.bytes = place.typeScript → step.Creates tx output script :=
        fun hbytes ↦ ⟨htx, houtput, hscript, hbytes ▸ hsingle⟩
      have hplaced := placed_of_checkPlace hplace
      have hstep := hcreates hplaced.typeScript
      subst h
      refine ⟨fun hzero ↦ ?_, fun hne ↦ ⟨(hplaced.successor hne).1, fun before hbefore ↦ ?_⟩, rfl,
        ?_⟩
      · exact ⟨tx, output, script, hstep, hplaced.typeScript, hplaced.genesis hzero⟩
      · refine ⟨tx, output, script, hstep, hplaced.typeScript, ?_⟩
        rw [hstep.consumed_eq, ← hbefore]
        exact (hplaced.successor hne).2
      · show place.records ++ _ = _
        rw [hplaced.records, recordOf, hstep.artifact_eq]

/-- Replacements that are accepted follow one another. -/
theorem isChain_of_foldlM {before : TypeCodeHistoryStep} (hne : sequence ≠ 0)
    (hprevious : lineage.previous =
      outPoint (digests.ckbBlake2b256 before.rawTransaction) before.outputIndex)
    (h : (steps.zipIdx sequence).foldlM (checkStep digests) lineage = .ok next) :
    next.typeScript = lineage.typeScript ∧
      (before :: steps).IsChain (Replaces digests lineage.typeScript) ∧
      next.records = lineage.records ++ steps.map (recordOf digests) := by
  induction steps generalizing lineage sequence before with
  | nil =>
    obtain rfl := pure_ok.1 h
    exact ⟨rfl, List.isChain_singleton before, (append_nil _).symm⟩
  | cons step steps ih =>
    obtain ⟨between, hstep, h⟩ := bind_ok.1 h
    have hadvances := advances_of_checkStep hstep
    obtain ⟨htype, hreplaces⟩ := hadvances.replaces hne
    obtain ⟨hnext, hchain, hrecords⟩ := ih (Nat.succ_ne_zero sequence) hadvances.previous h
    rw [htype] at hnext hchain hreplaces
    refine ⟨hnext, List.isChain_cons_cons.2 ⟨hreplaces before hprevious, hchain⟩, ?_⟩
    rw [hrecords, hadvances.records, append_assoc, map_cons, List.singleton_append]

/-- **An accepted history** starts with the creation of its Type ID, and every later step replaces
the one before. -/
theorem history_of_foldlM
    (h : (step :: steps).zipIdx.foldlM (checkStep digests) .empty = .ok next) :
    Genesis digests next.typeScript step ∧
      (step :: steps).IsChain (Replaces digests next.typeScript) ∧
      next.records = (step :: steps).map (recordOf digests) := by
  obtain ⟨first, hfirst, h⟩ := bind_ok.1 h
  have hadvances := advances_of_checkStep hfirst
  obtain ⟨htype, hchain, hrecords⟩ := isChain_of_foldlM (Nat.succ_ne_zero 0) hadvances.previous h
  rw [← htype] at hchain
  refine ⟨htype ▸ hadvances.genesis rfl, hchain, ?_⟩
  rw [hrecords, hadvances.records]
  rfl

end Accepted

/-! ### Histories do not fork -/

/-- No two transactions of the steps consume the same OutPoint. -/
def NoDoubleSpend (steps : List TypeCodeHistoryStep) : Prop :=
  ∀ x ∈ steps, ∀ y ∈ steps, ∀ point ∈ x.consumed, point ∈ y.consumed →
    x.rawTransaction = y.rawTransaction

section Forks

variable {digests} {typeScript : List UInt8} {x y z : TypeCodeHistoryStep} {tx' : Transaction}

/-- A step is determined by its transaction, as the place of its only output of the type. -/
theorem TypeCodeHistoryStep.Creates.step_eq {output output' : Cell} {script script' : Script}
    (hx : x.Creates tx output script) (hy : y.Creates tx' output' script')
    (hscript : script.bytes = script'.bytes) (hraw : x.rawTransaction = y.rawTransaction) :
    x = y := by
  obtain rfl : tx = tx' := by
    have hparse := hx.parse
    rw [hraw, hy.parse] at hparse
    exact (ok.inj hparse).symm
  have htyped : ∀ {c : Cell} {s : Script}, c.typeScript = some s → s.bytes = script.bytes →
      c.typeScript.any (·.bytes = script.bytes) = true := by
    intro c s hc hs
    rw [hc]
    exact decide_eq_true hs
  have hindex := Unique.index_eq_of_countP_eq_one hx.single hx.place hy.place (htyped hx.type rfl)
    (htyped hy.type hscript.symm)
  obtain ⟨raw, index⟩ := x
  obtain ⟨raw', index'⟩ := y
  obtain rfl : raw = raw' := hraw
  obtain rfl : index = index' := UInt32.toNat_inj.1 hindex
  rfl

/-- A step has one replacement. -/
theorem Replaces.unique (hy : Replaces digests typeScript x y)
    (hz : Replaces digests typeScript x z)
    (hraw : ∀ point ∈ y.consumed, point ∈ z.consumed → y.rawTransaction = z.rawTransaction) :
    y = z := by
  obtain ⟨tx, output, script, hcreates, hscript, hpoint⟩ := hy
  obtain ⟨tx', output', script', hcreates', hscript', hpoint'⟩ := hz
  exact hcreates.step_eq hcreates' (hscript.trans hscript'.symm) (hraw _ hpoint hpoint')

/-- The script of a step is determined by its bytes. -/
theorem TypeCodeHistoryStep.Creates.script_eq {output output' : Cell} {script script' : Script}
    (hx : x.Creates tx output script) (hy : y.Creates tx' output' script')
    (hscript : script.bytes = script'.bytes) : script = script' := by
  obtain ⟨_, hcell⟩ := exists_cell_of_transaction hx.parse (mem_of_getElem? hx.place)
  obtain ⟨_, hcell'⟩ := exists_cell_of_transaction hy.parse (mem_of_getElem? hy.place)
  have hparse := script_of_cell hcell hx.type
  rw [hscript, script_of_cell hcell' hy.type] at hparse
  exact (ok.inj hparse).symm

/-- The OutPoint of the first input is consumed. -/
theorem drop_take_mem_consumedPoints {inputs : List UInt8} (h : 44 ≤ inputs.length) :
    (inputs.take 44).drop 8 ∈ consumedPoints inputs := by
  refine mem_map.2 ⟨inputs.take 44, mem_map.2 ⟨0, mem_range.2 ?_, rfl⟩, rfl⟩
  exact Nat.div_pos h (by decide)

/-- **A Type ID is created once**: its seed names an input of the creation. -/
theorem Genesis.unique (hx : Genesis digests typeScript x) (hy : Genesis digests typeScript y)
    (hinjective : Set.InjOn digests.ckbBlake2b256 {b | b ∈ x.genesisStrings ++ y.genesisStrings})
    (hraw : ∀ point ∈ x.consumed, point ∈ y.consumed → x.rawTransaction = y.rawTransaction) :
    x = y := by
  obtain ⟨tx, output, script, hcreates, hscript, hlong, hargs⟩ := hx
  obtain ⟨tx', output', script', hcreates', hscript', hlong', hargs'⟩ := hy
  have hbytes := hscript.trans hscript'.symm
  rw [hcreates.script_eq hcreates' hbytes, hargs'] at hargs
  have hseed := hinjective (mem_append_left _ hcreates.seed_mem)
    (mem_append_right _ hcreates'.seed_mem) (Hash.ext hargs).symm
  obtain ⟨hinput, -⟩ := append_inj hseed (by
    rw [length_take, length_take, min_eq_left hlong, min_eq_left hlong'])
  refine hcreates.step_eq hcreates' hbytes (hraw ((tx.inputs.take 44).drop 8) ?_ ?_)
  · rw [hcreates.consumed_eq]
    exact drop_take_mem_consumedPoints hlong
  · rw [hcreates'.consumed_eq, hinput]
    exact drop_take_mem_consumedPoints hlong'

/-- The facts about an accepted history. -/
structure Accepted (digests : Digests) (steps : List TypeCodeHistoryStep) (lineage : Lineage)
    (checked : CheckedTypeCodeHistory) : Prop where
  fold : steps.zipIdx.foldlM (checkStep digests) .empty = .ok lineage
  line : checked.line = digests.ckbBlake2b256 lineage.typeScript
  record : checked.record = historyRecord digests checked.line lineage
  sequence : checked.sequence = lineage.records.length - 1
  tip : ∃ digest, digests.canonicalHash "cellscript-type-code-history-id-v1" checked.record =
    .ok digest ∧ checked.tip = tipOf digest

theorem accepted_of_checkTypeCodeHistory {target : Target} {steps : List TypeCodeHistoryStep}
    {recordBytes : ℕ} {checked : CheckedTypeCodeHistory}
    (h : checkTypeCodeHistory digests target steps recordBytes = .ok checked) :
    steps ≠ [] ∧ ∃ lineage, Accepted digests steps lineage checked := by
  rw [checkTypeCodeHistory] at h
  obtain ⟨hlength, h⟩ := guard_ok.1 h
  obtain ⟨-, -, h⟩ := bind_ok.1 h
  obtain ⟨-, h⟩ := guard_ok.1 h
  obtain ⟨lineage, hfold, h⟩ := bind_ok.1 h
  obtain ⟨-, h⟩ := guard_ok.1 h
  obtain ⟨digest, hdigest, h⟩ := bind_ok.1 h
  obtain rfl := pure_ok.1 h
  exact ⟨(not_or.1 hlength).1, lineage, hfold, rfl, rfl, rfl, digest, hdigest, rfl⟩

/-- **Histories of one deployment line do not fork**: if the hash has no collision among the strings
that are hashed, and no OutPoint is consumed by two different transactions, then one history is the
beginning of the other; histories of one length are the same, with the same record and tip. -/
theorem codeHistory_prefix {target₁ target₂ : Target} {steps₁ steps₂ : List TypeCodeHistoryStep}
    {recordBytes₁ recordBytes₂ : ℕ} {checked₁ checked₂ : CheckedTypeCodeHistory}
    (h₁ : checkTypeCodeHistory digests target₁ steps₁ recordBytes₁ = .ok checked₁)
    (h₂ : checkTypeCodeHistory digests target₂ steps₂ recordBytes₂ = .ok checked₂)
    (hline : checked₁.line = checked₂.line) (hinjective : Set.InjOn digests.ckbBlake2b256
      {b | b ∈ hashedStrings steps₁ ++ hashedStrings steps₂})
    (hspend : NoDoubleSpend (steps₁ ++ steps₂)) :
    ((steps₁ <+: steps₂ ∧ checked₁.record.steps <+: checked₂.record.steps) ∨
      (steps₂ <+: steps₁ ∧ checked₂.record.steps <+: checked₁.record.steps)) ∧
    (checked₁.sequence = checked₂.sequence →
      steps₁ = steps₂ ∧ checked₁.record = checked₂.record ∧ checked₁.tip = checked₂.tip) := by
  obtain ⟨hne₁, lineage₁, hok₁⟩ := accepted_of_checkTypeCodeHistory h₁
  obtain ⟨hne₂, lineage₂, hok₂⟩ := accepted_of_checkTypeCodeHistory h₂
  obtain ⟨first₁, rest₁, rfl⟩ := List.exists_cons_of_ne_nil hne₁
  obtain ⟨first₂, rest₂, rfl⟩ := List.exists_cons_of_ne_nil hne₂
  obtain ⟨hgenesis₁, hchain₁, hrecords₁⟩ := history_of_foldlM hok₁.fold
  obtain ⟨hgenesis₂, hchain₂, hrecords₂⟩ := history_of_foldlM hok₂.fold
  have hstrings₁ : ∀ b ∈ first₁.genesisStrings, b ∈ hashedStrings (first₁ :: rest₁) ++
      hashedStrings (first₂ :: rest₂) := fun b hb ↦
    mem_append_left _ (mem_append_right _ hb)
  have hstrings₂ : ∀ b ∈ first₂.genesisStrings, b ∈ hashedStrings (first₁ :: rest₁) ++
      hashedStrings (first₂ :: rest₂) := fun b hb ↦
    mem_append_right _ (mem_append_right _ hb)
  have htype : lineage₁.typeScript = lineage₂.typeScript := by
    rw [hok₁.line, hok₂.line] at hline
    obtain ⟨_, _, script₁, hcreates₁, hscript₁, -⟩ := hgenesis₁
    obtain ⟨_, _, script₂, hcreates₂, hscript₂, -⟩ := hgenesis₂
    exact hinjective (hstrings₁ _ (hscript₁ ▸ hcreates₁.script_mem))
      (hstrings₂ _ (hscript₂ ▸ hcreates₂.script_mem)) hline
  rw [← htype] at hgenesis₂ hchain₂
  have hspend : ∀ x ∈ first₁ :: rest₁, ∀ y ∈ first₂ :: rest₂, ∀ point ∈ x.consumed,
      point ∈ y.consumed → x.rawTransaction = y.rawTransaction := fun x hx y hy ↦
    hspend x (mem_append_left _ hx) y (mem_append_right _ hy)
  obtain rfl : first₁ = first₂ := hgenesis₁.unique hgenesis₂
    (hinjective.mono fun b hb ↦ (mem_append.1 hb).elim (hstrings₁ b) (hstrings₂ b))
    (hspend _ mem_cons_self _ mem_cons_self)
  have hbegins := Unique.prefix_or_prefix_of_isChain hchain₁ hchain₂ fun x y hy z hz hxy hxz ↦
    hxy.unique hxz (hspend y (mem_cons_of_mem _ hy) z (mem_cons_of_mem _ hz))
  have hsteps₁ : checked₁.record.steps = (first₁ :: rest₁).map (recordOf digests) := by
    rw [hok₁.record, ← hrecords₁]
    rfl
  have hsteps₂ : checked₂.record.steps = (first₁ :: rest₂).map (recordOf digests) := by
    rw [hok₂.record, ← hrecords₂]
    rfl
  refine ⟨?_, fun hsequence ↦ ?_⟩
  · rw [hsteps₁, hsteps₂]
    refine hbegins.imp (fun h ↦ ?_) fun h ↦ ?_
    · have hcons : first₁ :: rest₁ <+: first₁ :: rest₂ := List.cons_prefix_cons.2 ⟨rfl, h⟩
      exact ⟨hcons, hcons.map _⟩
    · have hcons : first₁ :: rest₂ <+: first₁ :: rest₁ := List.cons_prefix_cons.2 ⟨rfl, h⟩
      exact ⟨hcons, hcons.map _⟩
  · rw [hok₁.sequence, hok₂.sequence, hrecords₁, hrecords₂, length_map, length_map,
      length_cons, length_cons, Nat.add_sub_cancel] at hsequence
    obtain rfl : rest₁ = rest₂ := hbegins.elim (fun h ↦ h.eq_of_length hsequence) fun h ↦
      (h.eq_of_length hsequence.symm).symm
    obtain rfl : lineage₁ = lineage₂ := ok.inj (hok₁.fold.symm.trans hok₂.fold)
    have hrecord : checked₁.record = checked₂.record := by
      rw [hok₁.record, hok₂.record, hline]
    obtain ⟨digest₁, hdigest₁, htip₁⟩ := hok₁.tip
    obtain ⟨digest₂, hdigest₂, htip₂⟩ := hok₂.tip
    rw [hrecord, hdigest₂] at hdigest₁
    refine ⟨rfl, hrecord, ?_⟩
    rw [htip₁, htip₂, ok.inj hdigest₁]

end Forks

end Check

namespace Sample

open Molecule (table)

/-- The last bytes of a string as its hash, and an empty digest. -/
def lastBytes (bytes : List UInt8) : Hash := Hash.ofBytes bytes.reverse

def shortDigests : Digests := ⟨lastBytes, fun _ _ ↦ .ok ""⟩

def lock : List UInt8 := table [replicate 32 7, [1], le 4 0]

def firstInput : List UInt8 := replicate 8 0 ++ replicate 36 9

def typeScript : List UInt8 :=
  table [typeIdCodeHash, [1], le 4 32 ++ (lastBytes (firstInput ++ le 8 0)).bytes]

/-- A transaction with one input, and one output of the type. -/
def transaction (input data : List UInt8) : List UInt8 :=
  table [le 4 0, le 4 0, le 4 0, le 4 1 ++ input, table [table [le 8 100, lock, typeScript]],
    table [le 4 data.length ++ data]]

def creation : TypeCodeHistoryStep := ⟨transaction firstInput [1], 0⟩

def replacement : TypeCodeHistoryStep :=
  ⟨transaction (replicate 8 0 ++ outPoint (lastBytes creation.rawTransaction) 0) [2], 0⟩

/-- The target whose artifact is the output of a step. -/
def target (step : TypeCodeHistoryStep) : Target where
  identity := ""
  targetProfile := "ckb-type-hash"
  selectedHashType := 1
  transactionHash := (recordOf shortDigests step).transactionHash
  outputIndex := step.outputIndex
  artifactHash := (recordOf shortDigests step).artifactHash
  typeScriptHash := some (hexEncode (lastBytes typeScript).bytes)

end Sample

open Sample

/-- A creation is the beginning of itself with a replacement. -/
theorem codeHistory_prefix_replacement :
    ∃ checked₁ checked₂,
      checkTypeCodeHistory shortDigests (target creation) [creation] 1000 = .ok checked₁ ∧
      checkTypeCodeHistory shortDigests (target replacement)
        [creation, replacement] 1000 = .ok checked₂ ∧
      (checked₁.record.steps <+: checked₂.record.steps ∨
        checked₂.record.steps <+: checked₁.record.steps) := by
  have h₁ : (checkTypeCodeHistory shortDigests (target creation) [creation]
      1000).toOption.any (fun h ↦ h.line = lastBytes typeScript) = true := by
    decide +kernel
  have h₂ : (checkTypeCodeHistory shortDigests (target replacement)
      [creation, replacement] 1000).toOption.any
        (fun h ↦ h.line = lastBytes typeScript) = true := by
    decide +kernel
  obtain ⟨checked₁, hok₁, hline₁⟩ := exists_of_toOption_any h₁
  obtain ⟨checked₂, hok₂, hline₂⟩ := exists_of_toOption_any h₂
  have hline : checked₁.line = checked₂.line :=
    (of_decide_eq_true hline₁).trans (of_decide_eq_true hline₂).symm
  have hinjective : ∀ x ∈ hashedStrings [creation] ++
      hashedStrings [creation, replacement],
      ∀ y ∈ hashedStrings [creation] ++ hashedStrings [creation, replacement],
      shortDigests.ckbBlake2b256 x = shortDigests.ckbBlake2b256 y → x = y := by
    decide +kernel
  have hspend : NoDoubleSpend ([creation] ++ [creation, replacement]) := by
    unfold NoDoubleSpend
    decide +kernel
  obtain ⟨hbegins, -⟩ := codeHistory_prefix hok₁ hok₂ hline
    (fun x hx y hy ↦ hinjective x hx y hy) hspend
  exact ⟨checked₁, checked₂, hok₁, hok₂, hbegins.imp And.right And.right⟩

end CellScript.Checker.CodeOrigin
