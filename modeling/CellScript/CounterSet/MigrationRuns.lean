import CellScript.CounterSet.Migration

/-!
# Accepted runs of the two scripts

What a run of the configuration or of the counter that raises no error has established, in terms of
the cells of the transaction.
-/

namespace CellScript.Migration

open Bytes (ofLe field)
open CounterSet

/-! ### Scripts as bytes -/

section Layout

variable (s : Script)

theorem codeHash_bytes : field 16 32 s.bytes = s.codeHash := by
  have hparts : s.bytes = (s.header ++ [s.args]).flatten := by
    rw [flatten_append, flatten_singleton, Script.bytes]
  rw [hparts]
  exact Bytes.field_flatten (k := 4) rfl (by simp [Script.header]) s.length_codeHash

theorem hashType_bytes : s.bytes.getD 48 0 = s.hashType := by
  refine Bytes.getD_of_field ?_
  rw [Script.bytes, field, List.drop_append_of_le_length (by rw [length_header]; decide),
    List.take_append_of_le_length (by rw [length_drop, length_header]; decide)]
  exact field_hashType s

theorem drop_bytes (k : ℕ) : s.bytes.drop (53 + k) = s.args.drop k := by
  rw [Script.bytes, ← length_header s, List.drop_length_add_append]

theorem field_bytes (k len : ℕ) : field (53 + k) len s.bytes = field k len s.args := by
  rw [field, drop_bytes, field]

end Layout

/-! ### Helpers -/

variable {ctx : Context} {source : Source} {index : ℕ} {c config : Cell} {data args : List UInt8}
  {input : Option ℕ} {hasInput : Bool}

section Helpers

variable {room n : ℕ} {d : Cell} {script : List UInt8}

theorem cellExists_eq (index : ℕ) (source : Source) :
    cellExists ctx index source = .ok (decide (index < (ctx.cells source).length)) := by
  have hsame : cellExists ctx index source =
      (ctx.cellExists index source).mapError fun _ ↦ .context := by
    rw [cellExists, Context.cellExists]
    cases ctx.loadCell 0 index source with
    | ok n => rfl
    | error e => cases e <;> rfl
  rw [hsame, CounterSet.cellExists_eq]
  rfl

theorem bounds_ok (h : bounds ctx = .ok ()) :
    (ctx.cells .input).length ≤ maxCells ∧ (ctx.cells .output).length ≤ maxCells ∧
      (ctx.cells .cellDep).length ≤ maxCells := by
  obtain ⟨h, -⟩ := check_ok.1 h
  rw [forM_ok_iff] at h
  have hbound : ∀ source ∈ [Source.input, .output, .cellDep],
      (ctx.cells source).length ≤ maxCells := by
    intro source hsource
    have hcheck := h source hsource
    rw [checkBound, cellExists_eq, ok_bind, Except.check_ok_iff, decide_eq_true_eq] at hcheck
    exact not_lt.1 hcheck
  exact ⟨hbound .input (by simp), hbound .output (by simp), hbound .cellDep (by simp)⟩

theorem currentScript_ok (h : currentScript ctx (53 + n) = .ok script) :
    ctx.script.args.length = n ∧ ctx.script.hashType = 4 ∧ script = ctx.script.bytes := by
  rw [currentScript] at h
  split at h
  · exact nomatch h
  next hscript =>
  rw [not_or, not_not, not_not] at hscript
  obtain ⟨hlength, hfilled⟩ := filled_of_load hscript.1
  rw [length_bytes] at hlength
  rw [hfilled, hashType_bytes] at hscript
  rw [hfilled] at h
  exact ⟨by omega, hscript.2, (ok.inj h).symm⟩

theorem groupHasInput_ok (h : groupHasInput ctx = .ok hasInput) :
    (∃ d, ctx.cells .groupOutput = [d]) ∧
      (hasInput = false → ctx.cells .groupInput = []) ∧
      (hasInput = true → ∃ c, ctx.cells .groupInput = [c]) := by
  rw [groupHasInput] at h
  simp only [cellExists_eq, ok_bind] at h
  obtain ⟨hin, h⟩ := guard_ok.1 h
  obtain ⟨hout, h⟩ := guard_ok.1 h
  obtain ⟨hsome, h⟩ := guard_ok.1 h
  simp only [decide_eq_true_eq, not_eq_true', decide_eq_false_iff_not, not_not] at hin hout hsome
  have hflag := ok.inj h
  refine ⟨List.length_eq_one_iff.1 (by omega), fun hfalse ↦ ?_, fun htrue ↦ ?_⟩
  · rw [hfalse, decide_eq_false_iff_not] at hflag
    exact length_eq_zero_iff.1 (by omega)
  · rw [htrue, decide_eq_true_eq] at hflag
    exact List.length_eq_one_iff.1 (by omega)

theorem preserveCustody_ok (hc : ctx.cells .groupInput = [c]) (hd : ctx.cells .groupOutput = [d])
    (h : preserveCustody ctx = .ok ()) :
    ctx.ckb.hash c.lock.bytes = ctx.ckb.hash d.lock.bytes ∧ c.capacity = d.capacity := by
  have hin : (ctx.cells .groupInput)[0]? = some c := by rw [hc]; rfl
  have hout : (ctx.cells .groupOutput)[0]? = some d := by rw [hd]; rfl
  have hmapErr : ∀ {α : Type} (a : α), mapErr .context (pure a) = .ok a := fun _ ↦ rfl
  rw [preserveCustody] at h
  simp only [Context.loadCellLockHash, Context.loadCellCapacity, cell_ok hin, cell_ok hout,
    ok_bind, hmapErr] at h
  obtain ⟨hlock, h⟩ := guard_ok.1 h
  exact ⟨not_not.1 hlock, not_not.1 (Except.check_ok_iff.1 h)⟩

theorem counterState_ok (hc : (ctx.cells source)[index]? = some c)
    (h : counterState ctx index source = .ok data) : data = c.data := by
  rw [counterState, Context.loadCellData, cell_ok hc] at h
  dsimp only at h
  split at h
  · cases h
  next hdata =>
  rw [not_or, not_not] at hdata
  rw [(filled_of_load hdata.1).2] at h
  exact (ok.inj h).symm

end Helpers

/-- The generation in the state of a configuration. -/
def generation (c : Cell) : UInt8 := c.data.getD 8 0

/-- The hash of the selected program in the state of a configuration. -/
def selected (c : Cell) : List UInt8 := c.data.drop 9

/-- The state of a configuration selects one of the two programs of its arguments. -/
structure Configured (args : List UInt8) (c : Cell) : Prop where
  generation_le : generation c ≤ 1
  selected : selected c = parentOf args (generation c)

section Searches

variable {args counterId counterCode configHash : List UInt8} {p : Cell → Bool} {found : Option ℕ}

theorem configState_ok (hc : (ctx.cells source)[index]? = some c)
    (h : configState ctx index source args = .ok data) : data = c.data ∧ Configured args c := by
  rw [configState] at h
  split at h
  · cases h
  rw [Context.loadCellData, cell_ok hc] at h
  dsimp only at h
  split at h
  · cases h
  next hdata =>
  split at h
  · cases h
  next hparent =>
  simp only [not_or, not_not] at hdata hparent
  rw [(filled_of_load hdata.1).2] at h hdata hparent
  exact ⟨(ok.inj h).symm, UInt8.not_lt.1 hdata.2.2, hparent⟩

/-- What a search has found among the first cells. -/
def Found (p : Cell → Bool) (cells taken : List Cell) : Option ℕ → Prop
  | none => taken.filter p = []
  | some i => ∃ c, cells[i]? = some c ∧ taken.filter p = [c]

theorem Found.next {cells : List Cell} (h : Found p cells (cells.take index) found)
    (hc : cells[index]? = some c) : (p c = false → Found p cells (cells.take (index + 1)) found) ∧
      (p c = true → found = none → Found p cells (cells.take (index + 1)) (some index)) := by
  have htake : (cells.take (index + 1)).filter p = (cells.take index).filter p ++ [c].filter p := by
    rw [take_add_one, hc, toList_some, filter_append]
  constructor
  · intro hp
    have hnone : [c].filter p = [] := List.filter_cons_of_neg (by rw [hp]; exact Bool.false_ne_true)
    rw [hnone, append_nil] at htake
    cases found with
    | none => exact htake.trans h
    | some i =>
      obtain ⟨d, hd, hfilter⟩ := h
      exact ⟨d, hd, htake.trans hfilter⟩
  · rintro hp rfl
    have hsome : [c].filter p = [c] := List.filter_cons_of_pos hp
    rw [hsome, show (cells.take index).filter p = [] from h] at htake
    exact ⟨c, hc, htake⟩

/-- **A search finds the only cell with a property.** -/
theorem findCell_ok {test : ℕ → Except Error Bool}
    (htest : ∀ i c, (ctx.cells source)[i]? = some c → test i = .ok (p c))
    (hbound : (ctx.cells source).length ≤ maxCells) (h : findCell ctx source test = .ok found) :
    Found p (ctx.cells source) (ctx.cells source) found := by
  have hfrom : ∀ (remaining index : ℕ) (selected : Option ℕ),
      (ctx.cells source).length ≤ index + remaining →
      Found p (ctx.cells source) ((ctx.cells source).take index) selected →
      findCellFrom ctx source test remaining index selected = .ok found →
      Found p (ctx.cells source) (ctx.cells source) found := by
    intro remaining
    induction remaining with
    | zero =>
      intro index selected hle hfound h
      rw [take_of_length_le (show (ctx.cells source).length ≤ index from hle)] at hfound
      exact ok.inj h ▸ hfound
    | succ remaining ih =>
      intro index selected hle hfound h
      rw [findCellFrom, cellExists_eq] at h
      by_cases hlt : index < (ctx.cells source).length
      · have hc := getElem?_eq_getElem hlt
        rw [decide_eq_true hlt, htest index _ hc] at h
        cases hp : p (ctx.cells source)[index] with
        | false =>
          rw [hp] at h
          exact ih (index + 1) selected (by omega) ((hfound.next hc).1 hp) h
        | true =>
          rw [hp] at h
          cases selected with
          | some i => exact nomatch h
          | none => exact ih (index + 1) (some index) (by omega) ((hfound.next hc).2 hp rfl) h
      · rw [decide_eq_false hlt] at h
        rw [take_of_length_le (Nat.le_of_not_lt hlt)] at hfound
        exact ok.inj h ▸ hfound
  refine hfrom maxCells 0 none (by omega) ?_ h
  rfl

/-- Whether the type script of a cell has a hash. -/
def hasTypeHash (ckb : Ckb) (hash : List UInt8) (c : Cell) : Bool :=
  (c.type.map fun t ↦ ckb.hash t.bytes).any (· == hash)

theorem findTypeHash_ok {hash : List UInt8} (hbound : (ctx.cells source).length ≤ maxCells)
    (h : findTypeHash ctx source hash = .ok found) :
    Found (hasTypeHash ctx.ckb hash) (ctx.cells source) (ctx.cells source) found := by
  refine findCell_ok (fun i c hc ↦ ?_) hbound h
  rw [Context.loadCellTypeHash, cell_ok hc]
  rfl

/-- Whether a cell is the counter with an identifier, a code and a configuration. -/
def isCounter (counterId counterCode configHash : List UInt8) (c : Cell) : Bool :=
  c.type.any fun t ↦ t.args.length = 64 ∧ t.hashType = 4 ∧ t.codeHash = counterCode ∧
    t.args.take 32 = counterId ∧ t.args.drop 32 = configHash

theorem findCounter_ok (hbound : (ctx.cells source).length ≤ maxCells)
    (h : findCounter ctx source counterId counterCode configHash = .ok found) :
    Found (isCounter counterId counterCode configHash) (ctx.cells source) (ctx.cells source)
      found := by
  refine findCell_ok (fun i c hc ↦ ?_) hbound h
  rw [Context.loadCellType, cell_ok hc, isCounter]
  cases htype : c.type with
  | none =>
    simp only [htype]
    rfl
  | some t =>
    have hlength := length_bytes t
    simp only [htype, load, any_some]
    by_cases hroom : t.bytes.length = counterScriptBytes
    · have hargs : t.args.length = 64 := by
        rw [counterScriptBytes] at hroom
        omega
      rw [if_pos hroom.le, filled_of_length_eq hroom]
      dsimp only
      rw [isCounterScript, hashType_bytes,
        codeHash_bytes, show field 53 32 t.bytes = t.args.take 32 from field_bytes t 0 32,
        show t.bytes.drop 85 = t.args.drop 32 from drop_bytes t 32, hroom, hargs]
      refine congrArg Except.ok (Bool.eq_iff_iff.2 ?_)
      simp only [beq_self_eq_true, Bool.true_and, true_and, and_eq_true, beq_iff_eq,
        decide_eq_true_eq, and_assoc]
    · have hargs : t.args.length ≠ 64 := fun hargs ↦ hroom (by rw [hlength, hargs]; rfl)
      have hfalse : decide (t.args.length = 64 ∧ t.hashType = 4 ∧ t.codeHash = counterCode ∧
          t.args.take 32 = counterId ∧ t.args.drop 32 = configHash) = false :=
        decide_eq_false fun hall ↦ hargs hall.1
      rw [hfalse]
      by_cases hle : t.bytes.length ≤ counterScriptBytes
      · rw [if_pos hle]
        dsimp only
        rw [beq_eq_false_iff_ne.2 hroom, Bool.false_and]
      · rw [if_neg hle]

end Searches

/-! ### Runs of the configuration -/

/-- The counter that the script of a configuration names. -/
def namedCounter (ckb : Ckb) (s : Script) : Cell → Bool :=
  isCounter (field 32 32 s.args) (field 64 32 s.args) (ckb.hash s.bytes)

namespace Config

/-- A run that creates a configuration, with its counter. -/
structure Created (ctx : Context) (config counter : Cell) : Prop where
  groupInput : ctx.cells .groupInput = []
  groupOutput : ctx.cells .groupOutput = [config]
  typeId : ctx.ckb.typeId ctx.tx ctx.script (ctx.script.args.take 32) = true
  counterInput : ctx.tx.inputs.filter (namedCounter ctx.ckb ctx.script) = []
  counterOutput : ctx.tx.outputs.filter (namedCounter ctx.ckb ctx.script) = [counter]
  configured : Configured ctx.script.args config
  generation_eq : generation config = 0
  counter_eq : counter.counter = 0

/-- A run that changes a configuration, with its counter. -/
structure Migrated (ctx : Context) (config config' counter counter' : Cell) : Prop where
  groupInput : ctx.cells .groupInput = [config]
  groupOutput : ctx.cells .groupOutput = [config']
  counterInput : ctx.tx.inputs.filter (namedCounter ctx.ckb ctx.script) = [counter]
  counterOutput : ctx.tx.outputs.filter (namedCounter ctx.ckb ctx.script) = [counter']
  configured : Configured ctx.script.args config'
  generation_input : generation config = 0
  generation_output : generation config' = 1

theorem checkCreated_ok {output : ℕ} {next : List UInt8} {counter : Cell}
    (hcounter : ctx.tx.outputs[output]? = some counter)
    (h : checkCreated ctx input output next = .ok ()) :
    input = none ∧ next.getD 8 0 = 0 ∧ counter.counter = 0 := by
  rw [checkCreated] at h
  obtain ⟨hnew, h⟩ := guard_ok.1 h
  obtain ⟨data, hdata, h⟩ := bind_ok.1 h
  have hzero := not_not.1 (Except.check_ok_iff.1 h)
  rw [counterState_ok (show (ctx.cells .output)[output]? = some counter from hcounter)
    hdata] at hzero
  rw [not_or, not_not, Option.not_isSome_iff_eq_none] at hnew
  exact ⟨hnew.1, hnew.2, by rw [Cell.counter, hzero, Bytes.ofLe_replicate_zero]⟩

theorem checkMigrated_ok {next : List UInt8} (hconfig : ctx.cells .groupInput = [config])
    (h : checkMigrated ctx input args next = .ok ()) :
    input ≠ none ∧ generation config = 0 ∧ next.getD 8 0 = 1 := by
  have hget : (ctx.cells .groupInput)[0]? = some config := by rw [hconfig]; rfl
  rw [checkMigrated] at h
  obtain ⟨hsome, h⟩ := guard_ok.1 h
  obtain ⟨-, h⟩ := check_ok.1 h
  obtain ⟨data, hdata, h⟩ := bind_ok.1 h
  have hboth := Except.check_ok_iff.1 h
  obtain ⟨rfl, -⟩ := configState_ok hget hdata
  rw [not_or, not_not, not_not] at hboth
  refine ⟨fun hnone ↦ hsome ?_, hboth⟩
  rw [hnone]
  rfl

/-- **A run of the configuration creates it or changes it.** -/
theorem validate_ok (h : validate ctx = .ok ()) :
    ctx.script.args.length = 160 ∧ ctx.script.hashType = 4 ∧
      ((∃ config counter, Created ctx config counter) ∨
        ∃ config config' counter counter', Migrated ctx config config' counter counter') := by
  obtain ⟨hbounds, h⟩ := check_ok.1 h
  obtain ⟨script, hscript, h⟩ := bind_ok.1 h
  obtain ⟨hasInput, hgroup, h⟩ := bind_ok.1 h
  obtain ⟨htypeId, h⟩ := check_ok.1 h
  obtain ⟨input, hinput, h⟩ := bind_ok.1 h
  obtain ⟨output, houtput, h⟩ := bind_ok.1 h
  obtain ⟨hlength, hhashType, rfl⟩ := currentScript_ok hscript
  obtain ⟨hinputs, houtputs, -⟩ := bounds_ok hbounds
  obtain ⟨⟨config', hconfig'⟩, hfalse, htrue⟩ := groupHasInput_ok hgroup
  have hget : (ctx.cells .groupOutput)[0]? = some config' := by rw [hconfig']; rfl
  have hargs : ctx.script.bytes.drop 53 = ctx.script.args := drop_bytes ctx.script 0
  rw [hargs] at hinput houtput htypeId
  have hinput := findCounter_ok hinputs hinput
  have houtput := findCounter_ok houtputs houtput
  cases output with
  | none => exact nomatch h
  | some output =>
    obtain ⟨next, hnext, h⟩ := bind_ok.1 h
    rw [hargs] at hnext h
    obtain ⟨rfl, hconfigured⟩ := configState_ok hget hnext
    obtain ⟨counter', hcounter', houtput⟩ := houtput
    refine ⟨hlength, hhashType, ?_⟩
    cases hasInput with
    | false =>
      obtain ⟨rfl, hgeneration, hcounter⟩ := checkCreated_ok hcounter' h
      have htypeId : ctx.ckb.typeId ctx.tx ctx.script (ctx.script.args.take 32) = true := by
        rw [checkTypeId] at htypeId
        by_contra hne
        rw [if_neg hne] at htypeId
        exact nomatch htypeId
      exact .inl ⟨config', counter', hfalse rfl, hconfig', htypeId, hinput, houtput, hconfigured,
        hgeneration, hcounter⟩
    | true =>
      obtain ⟨config, hconfig⟩ := htrue rfl
      obtain ⟨hsome, hgeneration, hgeneration'⟩ := checkMigrated_ok hconfig h
      obtain ⟨i, rfl⟩ := Option.ne_none_iff_exists'.1 hsome
      obtain ⟨counter, -, hinput⟩ := hinput
      exact .inr ⟨config, config', counter, counter', hconfig, hconfig', hinput, houtput,
        hconfigured, hgeneration, hgeneration'⟩

end Config

/-! ### Runs of the counter -/

namespace Counter

variable {ending : Ending} {output : Option ℕ}

/-- The cells with the type script that a counter names. -/
def namedConfig (ckb : Ckb) (s : Script) : Cell → Bool := hasTypeHash ckb (s.args.drop 32)

/-- A run that creates a counter, with its configuration. -/
structure Created (ctx : Context) (counter config : Cell) : Prop where
  groupInput : ctx.cells .groupInput = []
  groupOutput : ctx.cells .groupOutput = [counter]
  configInput : ctx.tx.inputs.filter (namedConfig ctx.ckb ctx.script) = []
  configOutput : ctx.tx.outputs.filter (namedConfig ctx.ckb ctx.script) = [config]

/-- Where the configuration is, when a counter is spent. -/
def Located (ctx : Context) (config : Cell) : Prop :=
  (ctx.tx.inputs.filter (namedConfig ctx.ckb ctx.script) = [] ∧
      ctx.tx.cellDeps.filter (namedConfig ctx.ckb ctx.script) = [config] ∧
      ctx.tx.outputs.filter (namedConfig ctx.ckb ctx.script) = []) ∨
    (ctx.tx.inputs.filter (namedConfig ctx.ckb ctx.script) = [config] ∧ generation config = 0 ∧
      ∃ config', ctx.tx.outputs.filter (namedConfig ctx.ckb ctx.script) = [config'] ∧
        generation config' = 1)

/-- A run that spends a counter, and the program it hands over to. -/
structure Continued (ctx : Context) (counter counter' config : Cell) (parent : ℕ) : Prop where
  groupInput : ctx.cells .groupInput = [counter]
  groupOutput : ctx.cells .groupOutput = [counter']
  located : Located ctx config
  ownerCommitment : counter.ownerCommitment = counter'.ownerCommitment
  lock : ctx.ckb.hash counter.lock.bytes = ctx.ckb.hash counter'.lock.bytes
  capacity : counter.capacity = counter'.capacity
  parent : ∃ dep, ctx.tx.cellDeps[parent]? = some dep ∧
    ctx.tx.cellDeps.filter (fun dep ↦ ctx.ckb.dataHash dep.data == selected config) = [dep]

theorem findParent_ok {hash : List UInt8} {parent : ℕ}
    (hbound : (ctx.cells .cellDep).length ≤ maxCells) (h : findParent ctx hash = .ok parent) :
    ∃ dep, ctx.tx.cellDeps[parent]? = some dep ∧
      ctx.tx.cellDeps.filter (fun dep ↦ ctx.ckb.dataHash dep.data == hash) = [dep] := by
  obtain ⟨found, hfound, h⟩ := bind_ok.1 h
  have hfound : Found (fun dep ↦ ctx.ckb.dataHash dep.data == hash) ctx.tx.cellDeps ctx.tx.cellDeps
      found := by
    refine findCell_ok (fun i c hc ↦ ?_) hbound hfound
    rw [Context.loadCellDataHash, cell_ok hc]
    rfl
  cases found with
  | none => exact nomatch h
  | some i =>
    obtain rfl := ok.inj h
    exact hfound

theorem checkMigrated_ok {config' : Cell} {i : ℕ} (hi : output = some i)
    (hconfig' : ctx.tx.outputs[i]? = some config')
    (h : checkMigrated ctx output config.data args = .ok ()) :
    generation config = 0 ∧ generation config' = 1 := by
  subst hi
  rw [checkMigrated] at h
  obtain ⟨hzero, h⟩ := guard_ok.1 h
  obtain ⟨data, hdata, h⟩ := bind_ok.1 h
  obtain ⟨rfl, -⟩ :=
    configState_ok (show (ctx.cells .output)[i]? = some config' from hconfig') hdata
  exact ⟨not_not.1 hzero, not_not.1 (Except.check_ok_iff.1 h)⟩

theorem locate_ok {dep : Option ℕ} {next : List UInt8} {place : ℕ × Source}
    (h : locate hasInput input dep output next = .ok place) :
    (hasInput = false ∧ input = none ∧ ∃ i, output = some i ∧ place = (i, .output)) ∨
      (hasInput = true ∧ input = none ∧ output = none ∧ ∃ i, dep = some i ∧ place = (i, .cellDep)) ∨
      (hasInput = true ∧ ∃ i j, input = some i ∧ output = some j ∧ place = (i, .input)) := by
  rw [locate.eq_def] at h
  split at h
  · split at h
    · exact .inl ⟨rfl, rfl, _, rfl, (ok.inj h).symm⟩
    · exact nomatch h
  · exact .inr (.inl ⟨rfl, rfl, rfl, _, rfl, (ok.inj h).symm⟩)
  · exact .inr (.inr ⟨rfl, _, _, rfl, rfl, (ok.inj h).symm⟩)
  · exact nomatch h

/-- The checks of a counter that is spent. -/
theorem continues_ok {counter counter' : Cell} (hcounter : ctx.cells .groupInput = [counter])
    (hcounter' : ctx.cells .groupOutput = [counter'])
    (hbound : (ctx.cells .cellDep).length ≤ maxCells)
    (h : continues ctx output counter'.data config.data args = .ok ending) :
    ∃ parent, ending = .execs parent ∧ checkMigrated ctx output config.data args = .ok () ∧
      counter.ownerCommitment = counter'.ownerCommitment ∧
      ctx.ckb.hash counter.lock.bytes = ctx.ckb.hash counter'.lock.bytes ∧
      counter.capacity = counter'.capacity ∧
      ∃ dep, ctx.tx.cellDeps[parent]? = some dep ∧
        ctx.tx.cellDeps.filter (fun dep ↦ ctx.ckb.dataHash dep.data == selected config) =
          [dep] := by
  have hget : (ctx.cells .groupInput)[0]? = some counter := by rw [hcounter]; rfl
  obtain ⟨old, hold, h⟩ := bind_ok.1 h
  obtain ⟨howner, h⟩ := guard_ok.1 h
  obtain ⟨hcustody, h⟩ := check_ok.1 h
  obtain ⟨hmigrated, h⟩ := check_ok.1 h
  obtain ⟨parent, hparent, hending⟩ := bind_ok.1 h
  obtain rfl := counterState_ok hget hold
  obtain ⟨hlock, hcapacity⟩ := preserveCustody_ok hcounter hcounter' hcustody
  exact ⟨parent, (pure_ok.1 hending).symm, hmigrated, not_not.1 howner, hlock, hcapacity,
    findParent_ok hbound hparent⟩

/-- **A run of the counter creates it, or spends it and hands over** to the program that the
configuration selects. -/
theorem validate_ok (h : validate ctx = .ok ending) :
    ctx.script.args.length = 64 ∧ ctx.script.hashType = 4 ∧
      ((∃ counter config, Created ctx counter config) ∨
        ∃ counter counter' config parent, ending = .execs parent ∧
          Continued ctx counter counter' config parent) := by
  obtain ⟨hbounds, h⟩ := check_ok.1 h
  obtain ⟨script, hscript, h⟩ := bind_ok.1 h
  obtain ⟨hasInput, hgroup, h⟩ := bind_ok.1 h
  obtain ⟨-, h⟩ := check_ok.1 h
  obtain ⟨next, hnext, h⟩ := bind_ok.1 h
  obtain ⟨input, hinput, h⟩ := bind_ok.1 h
  obtain ⟨dep, hdep, h⟩ := bind_ok.1 h
  obtain ⟨output, houtput, h⟩ := bind_ok.1 h
  obtain ⟨place, hplace, h⟩ := bind_ok.1 h
  obtain ⟨config, -, h⟩ := bind_ok.1 h
  obtain ⟨-, h⟩ := check_ok.1 h
  obtain ⟨chosen, hchosen, h⟩ := bind_ok.1 h
  obtain ⟨hlength, hhashType, rfl⟩ := currentScript_ok hscript
  obtain ⟨hinputs, houtputs, hdeps⟩ := bounds_ok hbounds
  obtain ⟨⟨counter', hcounter'⟩, hfalse, htrue⟩ := groupHasInput_ok hgroup
  have hget : (ctx.cells .groupOutput)[0]? = some counter' := by rw [hcounter']; rfl
  obtain rfl := counterState_ok hget hnext
  have hhash : ctx.script.bytes.drop 85 = ctx.script.args.drop 32 := drop_bytes ctx.script 32
  rw [hhash] at hinput hdep houtput
  have hinput := findTypeHash_ok hinputs hinput
  have hdep := findTypeHash_ok hdeps hdep
  have houtput := findTypeHash_ok houtputs houtput
  refine ⟨hlength, hhashType, ?_⟩
  rcases locate_ok hplace with ⟨rfl, rfl, i, rfl, rfl⟩ | ⟨rfl, rfl, rfl, i, rfl, rfl⟩ |
    ⟨rfl, i, j, rfl, rfl, rfl⟩
  · obtain ⟨config, -, houtput⟩ := houtput
    exact .inl ⟨counter', config, hfalse rfl, hcounter', hinput, houtput⟩
  · obtain ⟨counter, hcounter⟩ := htrue rfl
    obtain ⟨config, hconfig, hdep⟩ := hdep
    obtain ⟨rfl, -⟩ := configState_ok hconfig hchosen
    obtain ⟨parent, rfl, -, howner, hlock, hcapacity, hparent⟩ :=
      continues_ok hcounter hcounter' hdeps h
    exact .inr ⟨counter, counter', config, parent, rfl, hcounter, hcounter',
      .inl ⟨hinput, hdep, houtput⟩, howner, hlock, hcapacity, hparent⟩
  · obtain ⟨counter, hcounter⟩ := htrue rfl
    obtain ⟨config, hconfig, hinput⟩ := hinput
    obtain ⟨config', hconfig', houtput⟩ := houtput
    obtain ⟨rfl, -⟩ := configState_ok hconfig hchosen
    obtain ⟨parent, rfl, hmigrated, howner, hlock, hcapacity, hparent⟩ :=
      continues_ok hcounter hcounter' hdeps h
    obtain ⟨hzero, hone⟩ := checkMigrated_ok rfl hconfig' hmigrated
    exact .inr ⟨counter, counter', config, parent, rfl, hcounter, hcounter',
      .inr ⟨hinput, hzero, config', houtput, hone⟩, howner, hlock, hcapacity, hparent⟩

end Counter

end CellScript.Migration
