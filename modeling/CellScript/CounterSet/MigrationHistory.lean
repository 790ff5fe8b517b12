import CellScript.CounterSet.MigrationRuns

/-!
# Histories of a configuration and its counter

The live cells of a ledger, changed by transactions that spend and read them, and in which every
group of the two programs has run and was accepted. From its creation on, a configuration stays the
only one with its script and keeps exactly one counter; its generation changes once, in a
transaction that the program of the old generation has checked.
-/

namespace CellScript.Migration

open Bytes (field)
open CounterSet Multiset List

/-! ### Histories -/

/-- A script whose code hash is the hash of a program, and not of the type of a cell. -/
def Runs (code : List UInt8) (s : Script) : Prop := s.codeHash = code ∧ s.hashType ≠ 1

/-- The hashes of the two programs. -/
structure Codes where
  config : List UInt8
  counter : List UInt8

/-- Every group of the two programs has run and was accepted. -/
def Accepted (ckb : Ckb) (codes : Codes) (tx : Transaction) : Prop :=
  ∀ c ∈ tx.inputs ++ tx.outputs, ∀ s ∈ c.type,
    (Runs codes.config s → Config.entry ⟨ckb, tx, s⟩ = 0) ∧
      (Runs codes.counter s → Counter.entry ⟨ckb, tx, s⟩ = 0)

/-- An accepted transaction spends live cells, reads live cells and adds its outputs. -/
structure Applies (ckb : Ckb) (codes : Codes) (tx : Transaction) (ledger ledger' : Multiset Cell) :
    Prop where
  accepted : Accepted ckb codes tx
  spends : ∃ rest, ledger = rest + tx.inputs ∧ ledger' = rest + tx.outputs
  reads : ∀ dep ∈ tx.cellDeps, dep ∈ ledger

/-- A transaction with a cell of a script in its outputs, and none in its inputs. -/
def Creates (s : Script) (tx : Transaction) : Prop :=
  (∃ c ∈ tx.outputs, c.type = some s) ∧ ∀ c ∈ tx.inputs, c.type ≠ some s

/-- The ledgers of a history that starts without cells of the two programs. The check of a Type ID
is assumed to give each identity one creation. -/
structure History (ckb : Ckb) (codes : Codes) (txs : List Transaction)
    (ledger : ℕ → Multiset Cell) : Prop where
  start : ∀ c ∈ ledger 0, ∀ s ∈ c.type, ¬ Runs codes.config s ∧ ¬ Runs codes.counter s
  step : ∀ (i : ℕ) (tx : Transaction), txs[i]? = some tx →
    Applies ckb codes tx (ledger i) (ledger (i + 1))
  typeId : ∀ (i j : ℕ) (tx tx' : Transaction) (s s' : Script) (id : List UInt8),
    txs[i]? = some tx → txs[j]? = some tx' → Creates s tx → Creates s' tx' →
    ckb.typeId tx s id = true → ckb.typeId tx' s' id = true → i = j

/-! ### A configuration and its counter -/

/-- A cell with the code and the identifier of the counter, and with the hash of the
configuration. -/
def names (ckb : Ckb) (s : Script) (c : Cell) : Bool :=
  c.type.any fun t ↦ t.codeHash = field 64 32 s.args ∧ t.hashType ≠ 1 ∧
    t.args = field 32 32 s.args ++ ckb.hash s.bytes

def hasScript (s : Script) (c : Cell) : Bool := c.type = some s

/-- There is no cell of a configuration, nor of its counter. -/
structure Absent (ckb : Ckb) (s : Script) (ledger : Multiset Cell) : Prop where
  no_config : (ledger.filter fun c ↦ hasScript s c) = 0
  no_counter : (ledger.filter fun c ↦ names ckb s c) = 0

/-- There is exactly one cell of a configuration, and exactly one of its counter. -/
structure Installed (ckb : Ckb) (s : Script) (ledger : Multiset Cell) (config counter : Cell) :
    Prop where
  live_config : (ledger.filter fun c ↦ hasScript s c) = {config}
  live_counter : (ledger.filter fun c ↦ names ckb s c) = {counter}
  configured : Configured s.args config

/-- A transaction that spends the counter: the only cell dependency with the hash that the
configuration selects is executed and accepts, and the successor keeps its owner and custody. -/
structure Spends (ckb : Ckb) (s : Script) (tx : Transaction) (config counter counter' : Cell) :
    Prop where
  input : tx.inputs.filter (names ckb s) = [counter]
  output : tx.outputs.filter (names ckb s) = [counter']
  ownerCommitment : counter.ownerCommitment = counter'.ownerCommitment
  lock : counter.lock = counter'.lock
  capacity : counter.capacity = counter'.capacity
  executes : ∃ t parent dep, counter.type = some t ∧
    Counter.validate ⟨ckb, tx, t⟩ = .ok (.execs parent) ∧ ckb.exec tx t parent = some 0 ∧
    tx.cellDeps[parent]? = some dep ∧ tx.cellDeps.filter (fun dep ↦
      ckb.dataHash dep.data == parentOf s.args (generation config)) = [dep]

/-- What a transaction does to a configuration and its counter. -/
structure Steps (ckb : Ckb) (s : Script) (tx : Transaction)
    (config counter config' counter' : Cell) : Prop where
  unspent : tx.inputs.filter (names ckb s) = [] → config' = config ∧ counter' = counter
  spent : tx.inputs.filter (names ckb s) ≠ [] → Spends ckb s tx config counter counter'
  generation : generation config' = generation config ∨
    generation config = 0 ∧ generation config' = 1 ∧ counter ∈ tx.inputs

/-! ### Accepted transactions -/

section Histories

variable {ckb : Ckb} {codes : Codes} {tx : Transaction} {s t : Script} {c : Cell}

section Transactions

variable {ctx : Context}

theorem names_iff : names ckb s c = true ↔ ∃ t, c.type = some t ∧
    t.codeHash = field 64 32 s.args ∧ t.hashType ≠ 1 ∧
      t.args = field 32 32 s.args ++ ckb.hash s.bytes := by
  rw [names, Option.any_eq_true]
  simp only [decide_eq_true_eq]

theorem hasScript_iff : hasScript s c = true ↔ c.type = some s := decide_eq_true_iff

theorem Error.code_ne_zero (e : Error) : e.code ≠ 0 := by
  cases e <;> decide

theorem Config.validate_of_entry (h : Config.entry ctx = 0) : Config.validate ctx = .ok () := by
  rw [Config.entry] at h
  cases hvalidate : Config.validate ctx with
  | ok ending => rfl
  | error e =>
    rw [hvalidate] at h
    exact absurd h e.code_ne_zero

theorem Counter.validate_of_entry (h : Counter.entry ctx = 0) :
    ∃ ending, Counter.validate ctx = .ok ending ∧
      ∀ parent, ending = .execs parent → ctx.ckb.exec ctx.tx ctx.script parent = some 0 := by
  rw [Counter.entry] at h
  cases hvalidate : Counter.validate ctx with
  | ok ending =>
    refine ⟨ending, rfl, ?_⟩
    rintro parent rfl
    rw [hvalidate] at h
    cases hexec : ctx.ckb.exec ctx.tx ctx.script parent with
    | none =>
      simp only [hexec] at h
      exact absurd h (by decide)
    | some code =>
      simp only [hexec] at h
      exact congrArg some h
  | error e =>
    rw [hvalidate] at h
    exact absurd h e.code_ne_zero

/-- What an accepted transaction does to the cells of a configuration. -/
theorem Accepted.config (haccepted : Accepted ckb codes tx) (hs : Runs codes.config s) :
    (tx.inputs.filter (hasScript s) = [] ∧ tx.outputs.filter (hasScript s) = []) ∨
      s.args.length = 160 ∧ ((∃ config counter, Config.Created ⟨ckb, tx, s⟩ config counter) ∨
        ∃ config config' counter counter',
          Config.Migrated ⟨ckb, tx, s⟩ config config' counter counter') := by
  by_cases hmem : ∃ c ∈ tx.inputs ++ tx.outputs, c.type = some s
  · obtain ⟨c, hc, htype⟩ := hmem
    have hvalidate := Config.validate_of_entry ((haccepted c hc s htype).1 hs)
    obtain ⟨hlength, -, hcases⟩ := Config.validate_ok hvalidate
    exact .inr ⟨hlength, hcases⟩
  · refine .inl ⟨filter_eq_nil_iff.2 fun c hc hscript ↦ ?_,
      filter_eq_nil_iff.2 fun c hc hscript ↦ ?_⟩
    · exact hmem ⟨c, mem_append_left _ hc, hasScript_iff.1 hscript⟩
    · exact hmem ⟨c, mem_append_right _ hc, hasScript_iff.1 hscript⟩

/-- What an accepted transaction does to the cells that name a configuration: they all have one
script. -/
theorem Accepted.counter (haccepted : Accepted ckb codes tx)
    (hcounter : field 64 32 s.args = codes.counter) :
    (tx.inputs.filter (names ckb s) = [] ∧ tx.outputs.filter (names ckb s) = []) ∨
      ∃ t, t.args = field 32 32 s.args ++ ckb.hash s.bytes ∧
        (∀ c ∈ tx.inputs ++ tx.outputs, names ckb s c = hasScript t c) ∧
        ((∃ counter config, Counter.Created ⟨ckb, tx, t⟩ counter config) ∨
          ∃ counter counter' config parent, Counter.validate ⟨ckb, tx, t⟩ = .ok (.execs parent) ∧
            ckb.exec tx t parent = some 0 ∧
            Counter.Continued ⟨ckb, tx, t⟩ counter counter' config parent) := by
  -- the run of a cell that names the configuration fixes the hash type
  have hrun : ∀ c ∈ tx.inputs ++ tx.outputs, ∀ t, c.type = some t →
      t.codeHash = field 64 32 s.args → t.hashType ≠ 1 → Counter.entry ⟨ckb, tx, t⟩ = 0 :=
    fun c hc t htype hcode hhash ↦ (haccepted c hc t htype).2 ⟨hcode.trans hcounter, hhash⟩
  have hhashType : ∀ c ∈ tx.inputs ++ tx.outputs, ∀ t, c.type = some t →
      t.codeHash = field 64 32 s.args → t.hashType ≠ 1 → t.hashType = 4 := by
    intro c hc t htype hcode hhash
    obtain ⟨ending, hvalidate, -⟩ := Counter.validate_of_entry (hrun c hc t htype hcode hhash)
    exact (Counter.validate_ok hvalidate).2.1
  by_cases hmem : ∃ c ∈ tx.inputs ++ tx.outputs, names ckb s c = true
  · obtain ⟨c, hc, hnames⟩ := hmem
    obtain ⟨t, htype, hcode, hhash, hargs⟩ := names_iff.1 hnames
    have hfour := hhashType c hc t htype hcode hhash
    refine .inr ⟨t, hargs, fun d hd ↦ ?_, ?_⟩
    · rw [Bool.eq_iff_iff, names_iff, hasScript_iff]
      constructor
      · rintro ⟨t', htype', hcode', hhash', hargs'⟩
        rw [htype', script_eq (hcode'.trans hcode.symm)
          ((hhashType d hd t' htype' hcode' hhash').trans hfour.symm) (hargs'.trans hargs.symm)]
      · exact fun htype' ↦ ⟨t, htype', hcode, hhash, hargs⟩
    · obtain ⟨ending, hvalidate, hexec⟩ := Counter.validate_of_entry (hrun c hc t htype hcode hhash)
      obtain ⟨-, -, hcreated | ⟨counter, counter', config, parent, rfl, hcontinued⟩⟩ :=
        Counter.validate_ok hvalidate
      · exact .inl hcreated
      · exact .inr ⟨counter, counter', config, parent, hvalidate, hexec parent rfl, hcontinued⟩
  · refine .inl ⟨filter_eq_nil_iff.2 fun c hc hnames ↦ ?_, filter_eq_nil_iff.2 fun c hc hnames ↦ ?_⟩
    · exact hmem ⟨c, mem_append_left _ hc, hnames⟩
    · exact hmem ⟨c, mem_append_right _ hc, hnames⟩

/-- The counter that a configuration searches for is the cell that names it. -/
theorem namedCounter_eq_names (haccepted : Accepted ckb codes tx) (hlength : s.args.length = 160)
    (hcounter : field 64 32 s.args = codes.counter) (hc : c ∈ tx.inputs ++ tx.outputs) :
    namedCounter ckb s c = names ckb s c := by
  have hid : (field 32 32 s.args).length = 32 := by
    rw [field, length_take, length_drop, hlength]
    rfl
  rw [Bool.eq_iff_iff, names_iff, namedCounter, isCounter, Option.any_eq_true]
  simp only [decide_eq_true_eq]
  constructor
  · rintro ⟨t, htype, -, hhash, hcode, htake, hdrop⟩
    refine ⟨t, htype, hcode, by rw [hhash]; decide, ?_⟩
    rw [← htake, ← hdrop, take_append_drop]
  · rintro ⟨t, htype, hcode, hhash, hargs⟩
    obtain ⟨ending, hvalidate, -⟩ := Counter.validate_of_entry
      ((haccepted c hc t htype).2 ⟨hcode.trans hcounter, hhash⟩)
    obtain ⟨hargsLength, hfour, -⟩ := Counter.validate_ok hvalidate
    refine ⟨t, htype, hargsLength, hfour, hcode, ?_, ?_⟩
    · rw [hargs, take_left' hid]
    · rw [hargs, drop_left' hid]

/-- The configuration that a counter searches for is the one it names. -/
theorem namedConfig_eq_hasScript (hinjective : Injective ckb.hash)
    (hlength : s.args.length = 160) (ht : t.args = field 32 32 s.args ++ ckb.hash s.bytes)
    (c : Cell) : Counter.namedConfig ckb t c = hasScript s c := by
  have hid : (field 32 32 s.args).length = 32 := by
    rw [field, length_take, length_drop, hlength]
    rfl
  have hdrop : t.args.drop 32 = ckb.hash s.bytes := by rw [ht, drop_left' hid]
  rw [Bool.eq_iff_iff, hasScript_iff, Counter.namedConfig, hasTypeHash, hdrop, Option.any_map,
    Option.any_eq_true]
  simp only [beq_iff_eq]
  constructor
  · rintro ⟨t', htype, hhash⟩
    rw [htype, Script.bytes_injective (hinjective hhash)]
  · exact fun htype ↦ ⟨s, htype, rfl⟩

end Transactions

/-! ### Steps of the ledger -/

section Ledger

variable {ledger ledger' rest : Multiset Cell} {config config' counter counter' live found : Cell}
  {p q : Cell → Bool} {cells : List Cell}

theorem filter_add_coe (p : Cell → Bool) (rest : Multiset Cell) (cells : List Cell) :
    ((rest + cells).filter fun c ↦ p c) = (rest.filter fun c ↦ p c) +
    (cells.filter p : List Cell) := by
  rw [filter_add, filter_coe]
  simp only [Bool.decide_eq_true]

theorem filter_of_absent (h : ((rest + cells).filter fun c ↦ p c) = 0) :
    (rest.filter fun c ↦ p c) = 0 ∧ cells.filter p = [] := by
  rw [filter_add_coe] at h
  have hcard := congrArg card h
  rw [card_add, card_zero, Nat.add_eq_zero_iff] at hcard
  exact ⟨card_eq_zero.1 hcard.1, length_eq_zero_iff.1 hcard.2⟩

/-- A live cell that is spent is the only one. -/
theorem filter_of_spent (hlive : ((rest + cells).filter fun c ↦ p c) = {live})
    (hcells : cells.filter p = [c]) : c = live ∧ (rest.filter fun c ↦ p c) = 0 := by
  rw [filter_add_coe, hcells, coe_singleton] at hlive
  have hcard := congrArg card hlive
  rw [card_add, card_singleton, card_singleton] at hcard
  have hrest : (rest.filter fun c ↦ p c) = 0 := card_eq_zero.1 (by omega)
  rw [hrest] at hlive
  exact ⟨singleton_inj.1 hlive, hrest⟩

theorem filter_eq_of_subset {all : List Cell} (hsub : cells ⊆ all)
    (h : ∀ c ∈ all, p c = q c) : cells.filter p = cells.filter q :=
  filter_congr fun c hc ↦ h c (hsub hc)

theorem mem_of_filter (h : cells.filter p = [c]) : c ∈ cells ∧ p c = true :=
  mem_filter.1 (h ▸ mem_singleton_self c)

theorem creates_of_created (h : Config.Created ⟨ckb, tx, s⟩ config counter) : Creates s tx := by
  have hin : tx.inputs.filter (hasScript s) = [] := h.groupInput
  obtain ⟨hmem, htype⟩ : config ∈ tx.outputs ∧ hasScript s config := mem_of_filter h.groupOutput
  refine ⟨⟨config, hmem, hasScript_iff.1 htype⟩, fun c hc htype ↦ ?_⟩
  exact filter_eq_nil_iff.1 hin c hc (hasScript_iff.2 htype)

/-- A creation has a checked Type ID. -/
theorem Accepted.typeId (haccepted : Accepted ckb codes tx) (hs : Runs codes.config s)
    (hcreates : Creates s tx) :
    s.args.length = 160 ∧ ckb.typeId tx s (s.args.take 32) = true ∧
      ∃ config counter, Config.Created ⟨ckb, tx, s⟩ config counter := by
  obtain ⟨⟨c, hc, htype⟩, hnone⟩ := hcreates
  rcases haccepted.config hs with ⟨-, hout⟩ | ⟨hlength, ⟨config, counter, hcreated⟩ |
    ⟨config, config', counter, counter', hmigrated⟩⟩
  · exact absurd (hasScript_iff.2 htype) (filter_eq_nil_iff.1 hout c hc)
  · exact ⟨hlength, hcreated.typeId, config, counter, hcreated⟩
  · obtain ⟨hmem, htype⟩ : config ∈ tx.inputs ∧ hasScript s config :=
        mem_of_filter hmigrated.groupInput
    exact absurd (hasScript_iff.1 htype) (hnone config hmem)

variable (hinjective : Injective ckb.hash) (hs : Runs codes.config s)
  (hcounter : field 64 32 s.args = codes.counter) (hlength : s.args.length = 160)
  (happlies : Applies ckb codes tx ledger ledger')

include hinjective hs hcounter hlength happlies

/-- Without a configuration there is no counter that names it. -/
theorem Absent.next (h : Absent ckb s ledger) (hnot : ¬ Creates s tx) : Absent ckb s ledger' := by
  obtain ⟨rest, rfl, rfl⟩ := happlies.spends
  have hconfig := filter_of_absent h.no_config
  have hnames := filter_of_absent h.no_counter
  have hout : tx.outputs.filter (hasScript s) = [] := by
    rcases happlies.accepted.config hs with ⟨-, hout⟩ | ⟨-, ⟨config, counter, hcreated⟩ |
      ⟨config, config', counter, counter', hmigrated⟩⟩
    · exact hout
    · exact absurd (creates_of_created hcreated) hnot
    · have hin : tx.inputs.filter (hasScript s) = [config] := hmigrated.groupInput
      exact absurd (hin.symm.trans hconfig.2) (cons_ne_nil _ _)
  have hnamesOut : tx.outputs.filter (names ckb s) = [] := by
    rcases happlies.accepted.counter hcounter with ⟨-, hout⟩ |
      ⟨t, ht, hsame, ⟨counter, config, hcreated⟩ |
        ⟨counter, counter', config, parent, -, -, hcontinued⟩⟩
    · exact hout
    · have hfound : tx.outputs.filter (hasScript s) = [config] := by
        rw [← hcreated.configOutput]
        exact filter_congr fun c _ ↦ (namedConfig_eq_hasScript hinjective hlength ht c).symm
      exact absurd (hfound.symm.trans hout) (cons_ne_nil _ _)
    · have hin : tx.inputs.filter (names ckb s) = [counter] := by
        rw [filter_eq_of_subset (subset_append_left _ _) hsame]
        exact hcontinued.groupInput
      exact absurd (hin.symm.trans hnames.2) (cons_ne_nil _ _)
  constructor
  · rw [filter_add_coe, hconfig.1, hout]
    rfl
  · rw [filter_add_coe, hnames.1, hnamesOut]
    rfl

omit hinjective in
/-- A creation installs a configuration of generation zero with its counter. -/
theorem Absent.installed (h : Absent ckb s ledger) (hcreates : Creates s tx) :
    ∃ config counter, Installed ckb s ledger' config counter ∧ generation config = 0 := by
  obtain ⟨-, -, config, counter, hcreated⟩ := happlies.accepted.typeId hs hcreates
  obtain ⟨rest, rfl, rfl⟩ := happlies.spends
  have hconfig := filter_of_absent h.no_config
  have hnames := filter_of_absent h.no_counter
  have hout : tx.outputs.filter (hasScript s) = [config] := hcreated.groupOutput
  have hnamesOut : tx.outputs.filter (names ckb s) = [counter] := by
    rw [← hcreated.counterOutput]
    exact filter_congr fun c hc ↦ (namedCounter_eq_names happlies.accepted hlength hcounter
      (mem_append_right _ hc)).symm
  refine ⟨config, counter, ⟨?_, ?_, hcreated.configured⟩, hcreated.generation_eq⟩
  · rw [filter_add_coe, hconfig.1, hout]
    rfl
  · rw [filter_add_coe, hnames.1, hnamesOut]
    rfl

variable (h : Installed ckb s ledger config counter)

include h

omit hs hcounter in
/-- A transaction that spends the counter of a live configuration. -/
theorem Installed.spends {parent : ℕ} (ht : t.args = field 32 32 s.args ++ ckb.hash s.bytes)
    (hsame : ∀ c ∈ tx.inputs ++ tx.outputs, names ckb s c = hasScript t c)
    (hvalidate : Counter.validate ⟨ckb, tx, t⟩ = .ok (.execs parent))
    (hexec : ckb.exec tx t parent = some 0)
    (hcontinued : Counter.Continued ⟨ckb, tx, t⟩ counter counter' found parent) :
    Spends ckb s tx config counter counter' := by
  have hconfig : ∀ c, Counter.namedConfig ckb t c = hasScript s c :=
    namedConfig_eq_hasScript hinjective hlength ht
  -- the configuration that the counter has found is live
  have hlive : found ∈ ledger.filter fun c ↦ hasScript s c := by
    obtain ⟨rest, hledger, -⟩ := happlies.spends
    rcases hcontinued.located with ⟨-, hfound, -⟩ | ⟨hfound, -⟩
    · obtain ⟨hdep, hnamed⟩ := mem_of_filter hfound
      exact mem_filter.2 ⟨happlies.reads found hdep, (hconfig found).symm.trans hnamed⟩
    · obtain ⟨hinput, hnamed⟩ := mem_of_filter hfound
      refine mem_filter.2 ⟨?_, (hconfig found).symm.trans hnamed⟩
      rw [hledger]
      exact mem_add.2 (.inr hinput)
  rw [h.live_config, Multiset.mem_singleton] at hlive
  subst hlive
  have hin : tx.inputs.filter (names ckb s) = [counter] := by
    rw [filter_eq_of_subset (subset_append_left _ _) hsame]
    exact hcontinued.groupInput
  have hout : tx.outputs.filter (names ckb s) = [counter'] := by
    rw [filter_eq_of_subset (subset_append_right _ _) hsame]
    exact hcontinued.groupOutput
  have htype : counter.type = some t := hasScript_iff.1 (mem_of_filter hcontinued.groupInput).2
  obtain ⟨dep, hdep, hunique⟩ := hcontinued.parent
  refine ⟨hin, hout, hcontinued.ownerCommitment,
    Script.bytes_injective (hinjective hcontinued.lock), hcontinued.capacity,
    t, parent, dep, htype, hvalidate, hexec, hdep, ?_⟩
  rw [← h.configured.selected]
  exact hunique

omit hs in
/-- The counter of a live configuration stays or is replaced. -/
theorem Installed.counter_next (hnot : ¬ Creates s tx) :
    ∃ counter', (ledger'.filter fun c ↦ names ckb s c) = {counter'} ∧
      ((tx.inputs.filter (names ckb s) = [] ∧ counter' = counter) ∨
        Spends ckb s tx config counter counter') := by
  have hlive := h.live_counter
  obtain ⟨rest, hledger, hledger'⟩ := happlies.spends
  rcases happlies.accepted.counter hcounter with ⟨hin, hout⟩ |
    ⟨t, ht, hsame, ⟨fresh, found, hcreated⟩ |
      ⟨old, counter', found, parent, hvalidate, hexec, hcontinued⟩⟩
  · refine ⟨counter, ?_, .inl ⟨hin, rfl⟩⟩
    rw [hledger, filter_add_coe, hin] at hlive
    rw [hledger', filter_add_coe, hout]
    exact hlive
  · -- a new counter comes with a new configuration
    have hconfig : ∀ c, Counter.namedConfig ckb t c = hasScript s c :=
      namedConfig_eq_hasScript hinjective hlength ht
    have hin := hcreated.configInput
    obtain ⟨hmem, hnamed⟩ := mem_of_filter hcreated.configOutput
    refine absurd ⟨⟨found, hmem, ?_⟩, fun c hc htype ↦ ?_⟩ hnot
    · exact hasScript_iff.1 ((hconfig found).symm.trans hnamed)
    · exact filter_eq_nil_iff.1 hin c hc ((hconfig c).trans (hasScript_iff.2 htype))
  · have hin : tx.inputs.filter (names ckb s) = [old] := by
      rw [filter_eq_of_subset (subset_append_left _ _) hsame]
      exact hcontinued.groupInput
    rw [hledger] at hlive
    obtain ⟨rfl, hrest⟩ := filter_of_spent hlive hin
    have hspends := h.spends hinjective hlength happlies ht hsame hvalidate hexec hcontinued
    refine ⟨counter', ?_, .inr hspends⟩
    rw [hledger', filter_add_coe, hrest, hspends.output]
    rfl

omit hinjective hlength in
/-- A live configuration stays or migrates. -/
theorem Installed.config_next (hnot : ¬ Creates s tx) :
    ∃ config', (ledger'.filter fun c ↦ hasScript s c) = {config'} ∧ Configured s.args config' ∧
      (config' = config ∨ generation config = 0 ∧ generation config' = 1 ∧
        tx.inputs.filter (names ckb s) ≠ []) := by
  have hlive := h.live_config
  obtain ⟨rest, hledger, hledger'⟩ := happlies.spends
  rcases happlies.accepted.config hs with ⟨hin, hout⟩ | ⟨hlength, ⟨fresh, paired, hcreated⟩ |
    ⟨old, config', paired, paired', hmigrated⟩⟩
  · refine ⟨config, ?_, h.configured, .inl rfl⟩
    rw [hledger, filter_add_coe, hin] at hlive
    rw [hledger', filter_add_coe, hout]
    exact hlive
  · exact absurd (creates_of_created hcreated) hnot
  · have hin : tx.inputs.filter (hasScript s) = [old] := hmigrated.groupInput
    have hout : tx.outputs.filter (hasScript s) = [config'] := hmigrated.groupOutput
    have hpaired : tx.inputs.filter (names ckb s) = [paired] := by
      rw [← hmigrated.counterInput]
      exact filter_congr fun c hc ↦ (namedCounter_eq_names happlies.accepted hlength hcounter
        (mem_append_left _ hc)).symm
    rw [hledger] at hlive
    obtain ⟨rfl, hrest⟩ := filter_of_spent hlive hin
    refine ⟨config', ?_, hmigrated.configured,
      .inr ⟨hmigrated.generation_input, hmigrated.generation_output, ?_⟩⟩
    · rw [hledger', filter_add_coe, hrest, hout]
      rfl
    · rw [hpaired]
      exact cons_ne_nil _ _

/-- **A live configuration stays**, with its counter. -/
theorem Installed.next (hnot : ¬ Creates s tx) :
    ∃ config' counter', Installed ckb s ledger' config' counter' ∧
      Steps ckb s tx config counter config' counter' := by
  obtain ⟨config', hconfig', hconfigured, hchange⟩ := h.config_next hs hcounter happlies hnot
  obtain ⟨counter', hcounter', hspent⟩ := h.counter_next hinjective hcounter hlength happlies hnot
  refine ⟨config', counter', ⟨hconfig', hcounter', hconfigured⟩, fun hnone ↦ ?_, fun hsome ↦ ?_, ?_⟩
  · refine ⟨?_, ?_⟩
    · rcases hchange with hsame | ⟨-, -, hsome⟩
      · exact hsame
      · exact absurd hnone hsome
    · rcases hspent with ⟨-, hsame⟩ | hspends
      · exact hsame
      · exact absurd (hspends.input.symm.trans hnone) (cons_ne_nil _ _)
  · rcases hspent with ⟨hnone, -⟩ | hspends
    · exact absurd hnone hsome
    · exact hspends
  · rcases hchange with rfl | ⟨hzero, hone, hsome⟩
    · exact .inl rfl
    · rcases hspent with ⟨hnone, -⟩ | hspends
      · exact absurd hnone hsome
      · exact .inr ⟨hzero, hone, (mem_of_filter hspends.input).1⟩

end Ledger

/-! ### Histories of a configuration -/

/-- From the transaction at a place on, a configuration is live with its counter: it starts with
generation zero and follows the steps. -/
structure Migrates (ckb : Ckb) (s : Script) (txs : List Transaction) (ledger : ℕ → Multiset Cell)
    (k : ℕ) : Prop where
  absent : ∀ i ≤ k, Absent ckb s (ledger i)
  installed : ∀ i, k < i → i ≤ txs.length → ∃ config counter,
    Installed ckb s (ledger i) config counter
  created : ∀ config counter, Installed ckb s (ledger (k + 1)) config counter →
    generation config = 0
  steps : ∀ (i : ℕ) (tx : Transaction) (config counter config' counter' : Cell), k < i →
    txs[i]? = some tx → Installed ckb s (ledger i) config counter →
    Installed ckb s (ledger (i + 1)) config' counter' →
      Steps ckb s tx config counter config' counter'

section Histories

variable {txs : List Transaction} {ledger : ℕ → Multiset Cell} {tx' : Transaction} {k i j : ℕ}

/-- A configuration is created at most once. -/
theorem History.creates_unique (h : History ckb codes txs ledger) (hs : Runs codes.config s)
    (hi : txs[i]? = some tx) (hj : txs[j]? = some tx')
    (hcreates : Creates s tx) (hcreates' : Creates s tx') : i = j :=
  h.typeId i j tx tx' s s _ hi hj hcreates hcreates'
    ((h.step i tx hi).accepted.typeId hs hcreates).2.1
    ((h.step j tx' hj).accepted.typeId hs hcreates').2.1

theorem Installed.unique {live : Multiset Cell} {config counter config' counter' : Cell}
    (h : Installed ckb s live config counter) (h' : Installed ckb s live config' counter') :
    config = config' ∧ counter = counter' :=
  ⟨singleton_inj.1 (h.live_config.symm.trans h'.live_config),
    singleton_inj.1 (h.live_counter.symm.trans h'.live_counter)⟩

section Created

variable (hinjective : Injective ckb.hash) (h : History ckb codes txs ledger)
  (hs : Runs codes.config s) (hcounter : field 64 32 s.args = codes.counter)
  (hk : txs[k]? = some tx) (hcreates : Creates s tx)
include hinjective h hs hcounter hk hcreates

/-- Before it is created, there is nothing of a configuration. -/
theorem History.absent (hi : i ≤ k) : Absent ckb s (ledger i) := by
  have hlength := ((h.step k tx hk).accepted.typeId hs hcreates).1
  have hklt : k < txs.length := (List.getElem?_eq_some_iff.1 hk).1
  induction i with
  | zero =>
    constructor
    · refine filter_eq_nil.2 fun c hc hscript ↦ ?_
      exact (h.start c hc s (hasScript_iff.1 hscript)).1 hs
    · refine filter_eq_nil.2 fun c hc hnames ↦ ?_
      obtain ⟨t, htype, hcode, hhash, -⟩ := names_iff.1 hnames
      exact (h.start c hc t htype).2 ⟨hcode.trans hcounter, hhash⟩
  | succ i ih =>
    have htx := getElem?_eq_getElem (show i < txs.length by omega)
    refine (ih (by omega)).next hinjective hs hcounter hlength (h.step i _ htx) fun hagain ↦ ?_
    have := h.creates_unique hs htx hk hagain hcreates
    omega

/-- The transaction that creates a configuration leaves it with its counter. -/
theorem History.exists_installed : ∃ config counter,
    Installed ckb s (ledger (k + 1)) config counter ∧ generation config = 0 :=
  (h.absent hinjective hs hcounter hk hcreates le_rfl).installed hs hcounter
    ((h.step k tx hk).accepted.typeId hs hcreates).1 (h.step k tx hk) hcreates

/-- Later transactions do not create the configuration again. -/
theorem History.next {config counter : Cell} (hki : k < i) (htx' : txs[i]? = some tx')
    (hinstalled : Installed ckb s (ledger i) config counter) : ∃ config' counter',
      Installed ckb s (ledger (i + 1)) config' counter' ∧
        Steps ckb s tx' config counter config' counter' := by
  refine hinstalled.next hinjective hs hcounter ((h.step k tx hk).accepted.typeId hs hcreates).1
    (h.step i tx' htx') fun hagain ↦ ?_
  have := h.creates_unique hs htx' hk hagain hcreates
  omega

end Created

/-- **The verifier migrates at most once**, and the old verifier has checked it. -/
theorem verifier_migrates_once (hinjective : Injective ckb.hash) (h : History ckb codes txs ledger)
    (hs : Runs codes.config s) (hcounter : field 64 32 s.args = codes.counter)
    (hk : txs[k]? = some tx) (hcreates : Creates s tx) : Migrates ckb s txs ledger k := by
  obtain ⟨config₀, counter₀, hinstalled₀, hzero⟩ :=
    h.exists_installed hinjective hs hcounter hk hcreates
  refine ⟨fun i hi ↦ h.absent hinjective hs hcounter hk hcreates hi, ?_, ?_, ?_⟩
  · intro i hki
    induction i, hki using Nat.le_induction with
    | base => exact fun _ ↦ ⟨config₀, counter₀, hinstalled₀⟩
    | succ i hki ih =>
      intro hle
      obtain ⟨config, counter, hinstalled⟩ := ih (by omega)
      have htx := getElem?_eq_getElem (show i < txs.length by omega)
      obtain ⟨config', counter', hinstalled', -⟩ :=
        h.next hinjective hs hcounter hk hcreates hki htx hinstalled
      exact ⟨config', counter', hinstalled'⟩
  · intro config counter hinstalled
    rw [← (hinstalled₀.unique hinstalled).1]
    exact hzero
  · intro i tx' config counter config' counter' hki htx' hinstalled hinstalled'
    obtain ⟨found, found', hfound, hsteps⟩ :=
      h.next hinjective hs hcounter hk hcreates hki htx' hinstalled
    obtain ⟨rfl, rfl⟩ := hfound.unique hinstalled'
    exact hsteps

/-- The owner, the lock and the capacity of a counter. -/
def custody (c : Cell) : List UInt8 × Script × ℕ := (c.ownerCommitment, c.lock, c.capacity)

theorem custody_eq_of_steps {config counter config' counter' : Cell}
    (h : Steps ckb s tx config counter config' counter') : custody counter' = custody counter := by
  by_cases hin : tx.inputs.filter (names ckb s) = []
  · rw [(h.unspent hin).2]
  · have hspends := h.spent hin
    rw [custody, custody, hspends.ownerCommitment, hspends.lock, hspends.capacity]

/-- **A history keeps custody**: from its creation on, a configuration has one counter, whose owner,
lock and capacity never change. -/
theorem history_keeps_custody (hinjective : Injective ckb.hash) (h : History ckb codes txs ledger)
    (hs : Runs codes.config s) (hcounter : field 64 32 s.args = codes.counter)
    (hk : txs[k]? = some tx) (hcreates : Creates s tx) :
    ∃ kept, ∀ i, k < i → i ≤ txs.length → ∃ config counter,
      Installed ckb s (ledger i) config counter ∧ custody counter = kept := by
  obtain ⟨config₀, counter₀, hinstalled₀, -⟩ :=
    h.exists_installed hinjective hs hcounter hk hcreates
  refine ⟨custody counter₀, fun i hki ↦ ?_⟩
  induction i, hki using Nat.le_induction with
  | base => exact fun _ ↦ ⟨config₀, counter₀, hinstalled₀, rfl⟩
  | succ i hki ih =>
    intro hle
    obtain ⟨config, counter, hinstalled, hkept⟩ := ih (by omega)
    have htx := getElem?_eq_getElem (show i < txs.length by omega)
    obtain ⟨config', counter', hnext, hsteps⟩ :=
      h.next hinjective hs hcounter hk hcreates hki htx hinstalled
    exact ⟨config', counter', hnext, (custody_eq_of_steps hsteps).trans hkept⟩

end Histories

end Histories

namespace Sample

def config : Script where
  codeHash := replicate 32 7
  hashType := 4
  args := replicate 32 1 ++ replicate 32 2 ++ replicate 32 8 ++
    replicate 32 3 ++ replicate 32 4
  length_codeHash := (CounterSet.Sample.script 0).length_codeHash

/-- A hash without collisions that fits into the arguments of the counter. -/
def hash (bytes : List UInt8) : List UInt8 :=
  if bytes = config.bytes then replicate 32 9 else 0 :: bytes

def ckb : Ckb where
  hash := hash
  dataHash := id
  typeId _ _ _ := true
  exec _ _ _ := some 0

def codes : Codes := ⟨replicate 32 7, replicate 32 8⟩

def counter : Script where
  codeHash := replicate 32 8
  hashType := 4
  args := replicate 32 2 ++ replicate 32 9
  length_codeHash := length_replicate

def lock : Script := ⟨replicate 32 5, 1, [], length_replicate⟩

/-- The cell of the first program. -/
def program : Cell := ⟨100, lock, none, replicate 32 3⟩

def configCell (generation selected : UInt8) : Cell :=
  ⟨100, lock, some config, configMagic ++ [generation] ++ replicate 32 selected⟩

def counterCell (count : UInt8) : Cell :=
  ⟨100, lock, some counter, counterMagic ++ replicate 32 6 ++ [count] ++ replicate 7 0⟩

def creation : Transaction := ⟨[], [], [configCell 0 3, counterCell 0], []⟩

def migration : Transaction :=
  ⟨[], [configCell 0 3, counterCell 0], [counterCell 1, configCell 1 4], [program]⟩

def ledger : ℕ → Multiset Cell
  | 0 => {program} + ((creation.inputs : List Cell) : Multiset Cell)
  | 1 => {program} + ((creation.outputs : List Cell) : Multiset Cell)
  | _ => {program} + ((migration.outputs : List Cell) : Multiset Cell)

theorem hash_injective : Injective hash := by
  intro a b h
  rw [hash, hash] at h
  split at h
  · next ha =>
    split at h
    · next hb => rw [ha, hb]
    · exact absurd (head_eq_of_cons_eq h) (by decide)
  · split at h
    · exact absurd (head_eq_of_cons_eq h) (by decide)
    · exact tail_eq_of_cons_eq h

theorem accepted {tx : Transaction} (htx : tx = creation ∨ tx = migration) :
    Accepted ckb codes tx := by
  have hentries : ∀ c ∈ tx.inputs ++ tx.outputs, ∀ s ∈ c.type,
      (s = config ∧ Config.entry ⟨ckb, tx, s⟩ = 0) ∨
          (s = counter ∧ Counter.entry ⟨ckb, tx, s⟩ = 0) := by
    rcases htx with rfl | rfl <;> decide +kernel
  intro c hc s hs
  rcases hentries c hc s hs with ⟨rfl, hentry⟩ | ⟨rfl, hentry⟩
  · exact ⟨fun _ ↦ hentry, fun hruns ↦ absurd hruns.1 (by decide)⟩
  · exact ⟨fun hruns ↦ absurd hruns.1 (by decide), fun _ ↦ hentry⟩

/-- The second transaction creates nothing. -/
theorem not_creates_migration (s : Script) : ¬ Creates s migration := by
  rintro ⟨⟨c, hc, htype⟩, hnone⟩
  rcases mem_cons.1 hc with rfl | hc
  · exact hnone (counterCell 0) (mem_cons_of_mem _ mem_cons_self) htype
  · obtain rfl := mem_singleton.1 hc
    exact hnone (configCell 0 3) mem_cons_self htype

theorem history : History ckb codes [creation, migration] ledger := by
  refine ⟨?_, ?_, ?_⟩
  · intro c hc s hs
    obtain rfl : c = program := by
      rcases mem_add.1 hc with hc | hc
      · exact mem_singleton.1 hc
      · exact absurd hc not_mem_nil
    exact nomatch hs
  · intro i tx htx
    match i with
    | 0 =>
      obtain rfl := some.inj htx
      exact ⟨accepted (.inl rfl), ⟨{program}, rfl, rfl⟩, fun dep hdep ↦ absurd hdep not_mem_nil⟩
    | 1 =>
      obtain rfl := some.inj htx
      refine ⟨accepted (.inr rfl), ⟨{program}, rfl, rfl⟩, fun dep hdep ↦ ?_⟩
      obtain rfl := mem_singleton.1 hdep
      exact mem_add.2 (.inl (mem_singleton_self _))
  · intro i j tx tx' s s' id hi hj hcreates hcreates' _ _
    have hzero : ∀ (i : ℕ) (tx : Transaction) (s : Script), [creation, migration][i]? = some tx →
        Creates s tx → i = 0 := by
      intro i tx s hi hcreates
      match i with
      | 0 => rfl
      | 1 =>
        obtain rfl := some.inj hi
        exact absurd hcreates (not_creates_migration s)
    rw [hzero i tx s hi hcreates, hzero j tx' s' hj hcreates']

end Sample

/-- A configuration that is created and then migrates. -/
theorem verifier_migrates_once_two :
    Migrates Sample.ckb Sample.config [Sample.creation, Sample.migration] Sample.ledger 0 :=
  verifier_migrates_once Sample.hash_injective Sample.history ⟨rfl, by decide⟩ (by decide) rfl
    ⟨⟨Sample.configCell 0 3, mem_cons_self, rfl⟩, fun c hc ↦ absurd hc not_mem_nil⟩

/-- The counter before and after the configuration has migrated. -/
theorem history_keeps_custody_two : ∃ kept, ∀ i, 0 < i → i ≤ 2 → ∃ config counter,
    Installed Sample.ckb Sample.config (Sample.ledger i) config counter ∧ custody counter = kept :=
  history_keeps_custody Sample.hash_injective Sample.history ⟨rfl, by decide⟩ (by decide) rfl
    ⟨⟨Sample.configCell 0 3, mem_cons_self, rfl⟩, fun c hc ↦ absurd hc not_mem_nil⟩

end CellScript.Migration
