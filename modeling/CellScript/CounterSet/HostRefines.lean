import CellScript.CounterSet.Host

/-!
# What the host accepts, the type script accepts

The two scans of a transaction, over parsed scripts and over windows of loaded ones, select the same
cells. What the host has checked about them is then what the type script checks, up to the search
for the parent program.
-/

namespace CellScript.CounterSet.Host

open Bytes (le ofLe field)
open Checker Checker.Nested CodeOrigin Context List
open Checker.CodeOrigin (chunksExact parsed)
open OpenHandlePolicy (Hash)

/-! ### Selections agree -/

variable {current : CodeOrigin.Script} {α : Type} {place : α → ℕ} {ctx : Context} {source : Source}
  {script : List UInt8}

section Selections

variable {s : CodeOrigin.Script} {bytes currentBytes : List UInt8} {lane : UInt8}
  {selected selected' : Selection} {index : ℕ} {type : Option CodeOrigin.Script} {message : String}
  {c : Cell}

theorem require_ok_iff {c : Bool} : require c message = .ok () ↔ c = true := by
  cases c with
  | false => exact iff_of_false (fun h ↦ nomatch h) Bool.false_ne_true
  | true => exact iff_of_true rfl rfl

/-- What one cell adds to a selection, by the type that the host parses. -/
def Takes (current : CodeOrigin.Script) (type : Option CodeOrigin.Script) (index : ℕ)
    (selected selected' : Selection) : Prop :=
  (member current type = .ok none ∧ selected' = selected) ∨
    ∃ lane, member current type = .ok (some lane) ∧ selected.length < 4 ∧
      (∀ last ∈ selected.getLast?, last.2 < lane) ∧ selected' = selected ++ [(index, lane)]

/-- The shape of a member of the family. -/
structure Member (current s : CodeOrigin.Script) (lane : UInt8) : Prop where
  codeHash : s.codeHash = current.codeHash
  magic : s.args.take 8 = setMagic
  id : field 8 32 s.args = field 8 32 current.args
  hashType : s.hashType = 4
  length_args : s.args.length = 73
  lane_lt : lane < 4
  parent : s.args.drop 41 = current.args.drop 41
  lane : s.args.getD 40 0 = lane

theorem member_of_some (h : member current (some s) = .ok (some lane)) : Member current s lane := by
  rw [member] at h
  split at h
  · exact nomatch h
  next hcode =>
  obtain ⟨hmagic, h⟩ := check_ok.1 h
  split at h
  · exact nomatch h
  next hid =>
  obtain ⟨hshape, h⟩ := check_ok.1 h
  rw [require_ok_iff] at hmagic hshape
  simp only [and_eq_true, beq_iff_eq, decide_eq_true_eq] at hmagic hshape
  obtain ⟨⟨⟨htype, hlength⟩, hlane⟩, hparent⟩ := hshape
  obtain rfl := some.inj (pure_ok.1 h)
  exact ⟨not_not.1 hcode, hmagic.2, not_not.1 hid, htype, hlength, hlane, hparent, rfl⟩

/-- A script of another family. -/
theorem foreign_of_none (h : member current (some s) = .ok none) :
    s.codeHash ≠ current.codeHash ∨ (s.codeHash = current.codeHash ∧ 40 ≤ s.args.length ∧
      s.args.take 8 = setMagic ∧ field 8 32 s.args ≠ field 8 32 current.args) := by
  rw [member] at h
  split at h
  · next hcode => exact .inl hcode
  next hcode =>
  obtain ⟨hmagic, h⟩ := check_ok.1 h
  rw [require_ok_iff, and_eq_true, decide_eq_true_eq, beq_iff_eq] at hmagic
  split at h
  · next hid => exact .inr ⟨not_not.1 hcode, hmagic.1, hmagic.2, hid⟩
  · obtain ⟨-, h⟩ := check_ok.1 h
    exact nomatch h

/-- **The type script takes what the host takes.** -/
theorem selectScript_of_takes (hcurrent : CodeOrigin.script currentBytes = .ok current)
    (hargs : current.args.length = 73) (hs : CodeOrigin.script bytes = .ok s)
    (h : Takes current (some s) index selected selected') :
    selectScript (filled scriptBytes (scriptOnChain current).bytes) index
      (scriptOnChain s).bytes.length (filled scriptBytes (scriptOnChain s).bytes) selected =
      .ok selected' := by
  have hcode' := codeHash_scriptOnChain hs
  have hargs' := args_scriptOnChain s
  have htype' := hashType_scriptOnChain s
  generalize scriptOnChain s = t at hcode' hargs' htype'
  rw [selectScript_eq hargs, codeHash_scriptOnChain hcurrent, args_scriptOnChain current]
  rcases h with ⟨hmember, rfl⟩ | ⟨lane, hmember, hroom, hlast, rfl⟩
  · rcases foreign_of_none hmember with hcode | ⟨hcode, hlong, hmagic, hid⟩
    · rw [if_pos (hcode' ▸ hcode)]
    · rw [← hargs'] at hlong hmagic hid
      rw [← hcode'] at hcode
      rw [if_neg (not_not.2 hcode), field_filled (by omega) (by decide),
        field_filled (by omega) (by decide), if_neg ?_, if_pos hid]
      rw [not_or, not_not]
      exact ⟨by omega, hmagic⟩
  · obtain ⟨hcode, hmagic, hid, htype, hlength, hlane, hparent, heq⟩ := member_of_some hmember
    rw [← hargs'] at hmagic hid hlength hparent heq
    rw [← hcode'] at hcode
    rw [← htype'] at htype
    rw [filled_of_length_eq hlength, heq, if_neg (not_not.2 hcode), if_neg ?_,
      if_neg (not_not.2 hid), if_neg ?_, if_neg ?_]
    · rw [not_or]
      refine ⟨Nat.ne_of_lt hroom, ?_⟩
      rintro ⟨last, hmem, hle⟩
      exact UInt8.not_le.2 (hlast last hmem) hle
    · rw [hlength]
      simp only [not_or, not_not]
      exact ⟨rfl, htype, hparent, UInt8.not_le.2 hlane⟩
    · rw [hlength, not_or, not_not]
      exact ⟨by decide, hmagic⟩

/-- A cell on chain has a type that the host has parsed. -/
def Parsed (c : Cell) (type : Option CodeOrigin.Script) : Prop :=
  c.type = type.map scriptOnChain ∧
    ∀ s, type = some s → ∃ bytes, CodeOrigin.script bytes = .ok s

theorem selectCell_of_takes (hcurrent : CodeOrigin.script currentBytes = .ok current)
    (hargs : current.args.length = 73) (hc : (ctx.cells source)[index]? = some c)
    (hparsed : Parsed c type) (h : Takes current type index selected selected') :
    ctx.selectCell (filled scriptBytes (scriptOnChain current).bytes) source index selected =
      .ok selected' := by
  obtain ⟨htype, hscript⟩ := hparsed
  rw [selectCell, loadCellType, cell_ok hc]
  cases type with
  | none =>
    simp only [htype]
    rcases h with ⟨-, rfl⟩ | ⟨lane, hmember, -⟩
    · rfl
    · cases hmember
  | some s =>
    rw [map_some] at htype
    obtain ⟨bytes, hs⟩ := hscript s rfl
    have hselect := selectScript_of_takes hcurrent hargs hs h
    simp only [htype, load]
    by_cases hroom : (scriptOnChain s).bytes.length ≤ scriptBytes
    · rw [if_pos hroom]
      exact hselect
    · rw [if_neg hroom]
      exact hselect

/-- A selection on chain, from the states after each cell. -/
theorem select_of_states (states : ℕ → Selection) (hstart : states 0 = [])
    (hbound : (ctx.cells source).length ≤ maxCells) (hstep : ∀ i < (ctx.cells source).length,
      ctx.selectCell script source i (states i) = .ok (states (i + 1))) :
    ctx.select script source = .ok (states (ctx.cells source).length) := by
  have hfrom : ∀ remaining i, i ≤ (ctx.cells source).length →
      (ctx.cells source).length ≤ i + remaining →
      ctx.selectFrom script source remaining i (states i) =
        .ok (states (ctx.cells source).length) := by
    intro remaining
    induction remaining with
    | zero =>
      intro i hi hle
      rw [selectFrom, le_antisymm hi hle]
    | succ remaining ih =>
      intro i hi hle
      rw [selectFrom, cellExists_eq]
      by_cases hlt : i < (ctx.cells source).length
      · rw [decide_eq_true hlt, hstep i hlt]
        exact ih (i + 1) hlt (by omega)
      · rw [decide_eq_false hlt, le_antisymm hi (Nat.le_of_not_lt hlt)]
        rfl
  have := hfrom maxCells 0 (Nat.zero_le _) (by omega)
  rwa [hstart] at this

/-- The indices and lanes of a host selection. -/
def places {α : Type} (place : α → ℕ) (selected : List (UInt8 × α)) : Selection :=
  selected.map fun p ↦ (place p.2, p.1)

/-- What the host has selected after one more cell. -/
def Enlists {α : Type} (current : CodeOrigin.Script)
    (type : Option CodeOrigin.Script) (x : α) (selected selected' : List (UInt8 × α)) : Prop :=
  (member current type = .ok none ∧ selected' = selected) ∨
    ∃ lane, member current type = .ok (some lane) ∧ selected.length < 4 ∧
      (∀ last ∈ selected.getLast?, last.1 < lane) ∧ selected' = selected ++ [(lane, x)]

section Host

variable {type : Option CodeOrigin.Script} {x : α} {chosen chosen' : List (UInt8 × α)}

theorem Enlists.takes (h : Enlists current type x chosen chosen') :
    Takes current type (place x) (places place chosen) (places place chosen') := by
  rcases h with ⟨hmember, rfl⟩ | ⟨lane, hmember, hroom, hlast, rfl⟩
  · exact .inl ⟨hmember, rfl⟩
  · refine .inr ⟨lane, hmember, ?_, fun last hmem ↦ ?_, ?_⟩
    · rwa [places, length_map]
    · rw [places, getLast?_map] at hmem
      obtain ⟨p, hp, rfl⟩ := map_eq_some_iff.1 hmem
      exact hlast p hp
    · rw [places, map_append]
      rfl

theorem enlists_of_enlist (hmember : member current type = .ok (some lane))
    (h : enlist chosen lane x message = .ok chosen') : Enlists current type x chosen chosen' := by
  obtain ⟨hroom, h⟩ := check_ok.1 h
  rw [require_ok_iff, and_eq_true, decide_eq_true_eq] at hroom
  obtain rfl := pure_ok.1 h
  refine .inr ⟨lane, hmember, hroom.1, fun last hlast ↦ ?_, rfl⟩
  have hall := hroom.2
  rw [mem_def.1 hlast] at hall
  exact of_decide_eq_true hall

theorem enlists_of_selectOutput {chosen chosen' : List (UInt8 × ℕ)}
    {output : CodeOrigin.Cell × ℕ} (h : selectOutput current chosen output = .ok chosen') :
    Enlists current output.1.typeScript output.2 chosen chosen' := by
  obtain ⟨lane, hmember, h⟩ := bind_ok.1 h
  cases lane with
  | none => exact .inl ⟨hmember, (pure_ok.1 h).symm⟩
  | some lane => exact enlists_of_enlist hmember h

theorem enlists_of_selectInput {chosen chosen' : List (UInt8 × ℕ × CodeOrigin.Cell)}
    {input : (SuppliedInputCell × List UInt8) × ℕ}
    (h : selectInput current chosen input = .ok chosen') :
    ∃ cell, CodeOrigin.cell input.1.1.output = .ok cell ∧
      Enlists current cell.typeScript (input.2, cell) chosen chosen' := by
  obtain ⟨-, h⟩ := check_ok.1 h
  obtain ⟨cell, hcell, h⟩ := bind_ok.1 h
  rw [parsed_ok_iff] at hcell
  obtain ⟨lane, hmember, h⟩ := bind_ok.1 h
  refine ⟨cell, hcell, ?_⟩
  cases lane with
  | none => exact .inl ⟨hmember, (pure_ok.1 h).symm⟩
  | some lane => exact enlists_of_enlist hmember h

end Host

/-- The host and the family agree on who is a member. -/
theorem inFamily_of_member {m : Option UInt8}
    (hcurrent : CodeOrigin.script currentBytes = .ok current) (hparsed : Parsed c type)
    (h : member current type = .ok m) :
    c.inFamily (scriptOnChain current).family = m.isSome ∧ ∀ lane ∈ m, c.lane = lane := by
  obtain ⟨htype, hscript⟩ := hparsed
  cases type with
  | none =>
    obtain rfl : none = m := ok.inj h
    rw [Cell.inFamily, htype]
    exact ⟨rfl, fun lane hlane ↦ by cases hlane⟩
  | some s =>
    obtain ⟨bytes, hs⟩ := hscript s rfl
    have hfamily : c.inFamily (scriptOnChain current).family =
        decide (s.codeHash = current.codeHash ∧ field 8 32 s.args = field 8 32 current.args) := by
      rw [Cell.inFamily, htype, ← codeHash_scriptOnChain hs, ← codeHash_scriptOnChain hcurrent]
      rfl
    rw [hfamily]
    cases m with
    | none =>
      refine ⟨decide_eq_false fun hboth ↦ ?_, fun lane hlane ↦ by cases hlane⟩
      rcases foreign_of_none h with hcode | ⟨-, -, -, hid⟩
      · exact hcode hboth.1
      · exact hid hboth.2
    | some lane =>
      have hmember := member_of_some h
      refine ⟨decide_eq_true ⟨hmember.codeHash, hmember.id⟩, fun lane' hlane ↦ ?_⟩
      obtain rfl := some.inj hlane
      rw [Cell.lane, htype]
      exact hmember.lane

/-- The cells of a family with their indices. -/
def indexed (f : Family) (cells : List Cell) : List (Cell × ℕ) :=
  cells.zipIdx.filter (·.1.inFamily f)

section Runs

variable {R : α → Cell → Prop} {states : ℕ → List (UInt8 × α)}

/-- What the host takes from each cell on chain. -/
def Steps (current : CodeOrigin.Script) (place : α → ℕ) (R : α → Cell → Prop)
    (cells : List Cell) (states : ℕ → List (UInt8 × α)) : Prop :=
  ∀ (i : ℕ) (c : Cell), cells[i]? = some c → ∃ type x, Parsed c type ∧ place x = i ∧ R x c ∧
    Enlists current type x (states i) (states (i + 1))

theorem select_of_steps (hcurrent : CodeOrigin.script currentBytes = .ok current)
    (hargs : current.args.length = 73) (hstart : states 0 = [])
    (hbound : (ctx.cells source).length ≤ maxCells)
    (hsteps : Steps current place R (ctx.cells source) states) :
    ctx.select (filled scriptBytes (scriptOnChain current).bytes) source =
      .ok (places place (states (ctx.cells source).length)) := by
  refine select_of_states (fun i ↦ places place (states i)) ?_ hbound fun i hi ↦ ?_
  · rw [hstart]
    rfl
  · have hc := getElem?_eq_getElem hi
    obtain ⟨type, x, hparsed, rfl, -, henlists⟩ := hsteps i _ hc
    exact selectCell_of_takes hcurrent hargs hc hparsed henlists.takes

/-- **The host selects the cells of the family**, in order. -/
theorem forall₂_indexed_of_steps {cells : List Cell}
    (hcurrent : CodeOrigin.script currentBytes = .ok current) (hstart : states 0 = [])
    (hsteps : Steps current place R cells states) :
    Forall₂ (fun p q ↦ p.1 = q.1.lane ∧ place p.2 = q.2 ∧ R p.2 q.1) (states cells.length)
      (indexed (scriptOnChain current).family cells) := by
  have hrun : ∀ i ≤ cells.length,
      Forall₂ (fun p q ↦ p.1 = q.1.lane ∧ place p.2 = q.2 ∧ R p.2 q.1) (states i)
        (indexed (scriptOnChain current).family (cells.take i)) := by
    intro i
    induction i with
    | zero =>
      intro _
      rw [hstart]
      exact .nil
    | succ i ih =>
      intro hi
      have hc := getElem?_eq_getElem (Nat.lt_of_succ_le hi)
      obtain ⟨type, x, hparsed, hplace, hr, henlists⟩ := hsteps i _ hc
      have hbefore := ih (Nat.le_of_succ_le hi)
      have hlength : (cells.take i).length = i := length_take_of_le (Nat.le_of_succ_le hi)
      rw [take_add_one, hc, toList_some, indexed, zipIdx_append, filter_append,
        hlength, zero_add, zipIdx_singleton]
      rcases henlists with ⟨hmember, hsame⟩ | ⟨lane, hmember, -, -, hnext⟩
      · have hnot := (inFamily_of_member hcurrent hparsed hmember).1
        rw [hsame, filter_cons_of_neg (by simpa using hnot), filter_nil, append_nil]
        exact hbefore
      · obtain ⟨hin, hlane⟩ := inFamily_of_member hcurrent hparsed hmember
        rw [hnext, show List.filter (fun q : Cell × ℕ ↦ q.1.inFamily (scriptOnChain current).family)
          [(cells[i], i)] = [(cells[i], i)] from filter_cons_of_pos hin]
        exact rel_append hbefore (.cons ⟨(hlane lane rfl).symm, hplace, hr⟩ .nil)
  have := hrun cells.length le_rfl
  rwa [take_length] at this

end Runs

end Selections

/-! ### Accepted transactions -/

/-- What the check of a counter set has established. -/
structure Checked (hash : List UInt8 → Hash) (full : List UInt8) (inputs : List SuppliedInputCell)
    (selectedScript : List UInt8) (current : CodeOrigin.Script) (values : List (List UInt8))
    (raw : CodeOrigin.Transaction) (selected : List (UInt8 × ℕ × CodeOrigin.Cell))
    (successors : List (UInt8 × ℕ)) (leaves : List CounterSetLeaf) : Prop where
  length_full : full.length ≤ 16384
  length_inputs : inputs.length ≤ 64
  length_script : selectedScript.length = 126
  parse_script : CodeOrigin.script selectedScript = .ok current
  check_current : checkCurrent current = .ok ()
  parse_full : Molecule.fields full 2 = .ok values
  parse_raw : CodeOrigin.transaction (values.getD 0 []) = .ok raw
  count : raw.inputs.length / 44 = inputs.length
  length_cells : raw.cells.length ≤ 64
  deps : ∀ dep ∈ chunksExact 37 raw.deps, dep.getD 36 0 = 0
  selects : (inputs.zip (chunksExact 44 raw.inputs)).zipIdx.foldlM (selectInput current) [] =
    .ok selected
  selected_ne : selected ≠ []
  mem_selected : ∃ p ∈ selected, ∃ s, p.2.2.typeScript = some s ∧ s.bytes = selectedScript
  succeeds : raw.cells.zipIdx.foldlM (selectOutput current) [] = .ok successors
  length_eq : selected.length = successors.length
  reads : (selected.zip successors).mapM (leafOf hash inputs raw (hash (values.getD 0 []))) =
    .ok leaves

theorem accepted_of_checkCounterSet {hash : List UInt8 → Hash} {full : List UInt8}
    {inputs : List SuppliedInputCell} {selectedScript : List UInt8} {checked : CheckedCounterSet}
    (h : checkCounterSet hash full inputs selectedScript = .ok checked) :
    ∃ current values raw selected successors,
      Checked hash full inputs selectedScript current values raw selected successors
        checked.leaves ∧
      encodeCounterSet (field 8 32 current.args) checked.leaves = .ok checked.encoded := by
  obtain ⟨hbudget, h⟩ := check_ok.1 h
  obtain ⟨-, h⟩ := check_ok.1 h
  obtain ⟨current, hscript, h⟩ := bind_ok.1 h
  obtain ⟨hcurrent, h⟩ := check_ok.1 h
  obtain ⟨values, hvalues, h⟩ := bind_ok.1 h
  obtain ⟨raw, hraw, h⟩ := bind_ok.1 h
  obtain ⟨hcount, h⟩ := check_ok.1 h
  obtain ⟨hdeps, h⟩ := check_ok.1 h
  obtain ⟨witnesses, -, h⟩ := bind_ok.1 h
  obtain ⟨-, h⟩ := check_ok.1 h
  obtain ⟨selected, hselected, h⟩ := bind_ok.1 h
  obtain ⟨hne, h⟩ := check_ok.1 h
  obtain ⟨hany, h⟩ := check_ok.1 h
  obtain ⟨successors, hsuccessors, h⟩ := bind_ok.1 h
  obtain ⟨hlength, h⟩ := check_ok.1 h
  obtain ⟨leaves, hleaves, h⟩ := bind_ok.1 h
  obtain ⟨encoded, hencoded, h⟩ := bind_ok.1 h
  obtain rfl := pure_ok.1 h
  rw [parsed_ok_iff] at hscript hvalues hraw
  rw [require_ok_iff] at hbudget hcount hdeps hne hany hlength
  simp only [and_eq_true, decide_eq_true_eq, beq_iff_eq] at hbudget hcount
  refine ⟨current, values, raw, selected, successors, ⟨hbudget.1.1, hbudget.1.2, hbudget.2, hscript,
    hcurrent, hvalues, hraw, hcount.1, hcount.2, fun dep hdep ↦ ?_, hselected, ?_, ?_, hsuccessors,
    beq_iff_eq.1 hlength, hleaves⟩, hencoded⟩
  · exact beq_iff_eq.1 (all_eq_true.1 hdeps dep hdep)
  · rintro rfl
    exact nomatch hne
  · obtain ⟨p, hp, hscript⟩ := any_eq_true.1 hany
    obtain ⟨s, hs, hbytes⟩ := Option.any_eq_true _ _ |>.1 hscript
    exact ⟨p, hp, s, hs, beq_iff_eq.1 hbytes⟩

/-! ### Statements and cells -/

/-- The facts about an input and its successor that the type script checks, with the counter. -/
structure Continues (c d : Cell) : Prop where
  type : c.type = d.type
  length_input : c.data.length = 48
  length_output : d.data.length = 48
  magic_input : field 0 8 c.data = counterMagic
  magic_output : field 0 8 d.data = counterMagic
  ownerCommitment : c.ownerCommitment = d.ownerCommitment
  lock : c.lock.bytes = d.lock.bytes
  capacity : c.capacity = d.capacity
  counter : d.counter = c.counter + 1

/-- What a statement says about an input and an output of a family, with their indices. -/
structure Describes (hash : List UInt8 → Hash) (raw : List UInt8) (inputs : List SuppliedInputCell)
    (leaf : CounterSetLeaf) (pair : (Cell × ℕ) × (Cell × ℕ)) : Prop where
  inputIndex : leaf.inputIndex.toNat = pair.1.2
  outputIndex : leaf.outputIndex.toNat = pair.2.2
  scriptHash : (pair.1.1.type.map fun s ↦ hash s.bytes) = some leaf.statement.scriptHash
  oldDataHash : leaf.statement.oldDataHash = hash pair.1.1.data
  newDataHash : leaf.statement.newDataHash = hash pair.2.1.data
  outPoint : ∃ input, inputs[pair.1.2]? = some input ∧ input.outPoint =
    leaf.statement.inputTransactionHash.bytes ++ le 4 leaf.statement.inputOutputIndex.toNat
  transactionHash : leaf.statement.transactionHash = hash raw
  domain : leaf.statement.domain = hash domainText
  action : leaf.statement.action = hash actionText

/-- A selected input and the cell on chain. -/
def IsInput (inputs : List SuppliedInputCell) (x : ℕ × CodeOrigin.Cell) (c : Cell) : Prop :=
  ∃ input, inputs[x.1]? = some input ∧ CodeOrigin.cell input.output = .ok x.2 ∧
    c = cellOnChain x.2 input.data

def IsOutput (raw : CodeOrigin.Transaction) (x : ℕ) (c : Cell) : Prop :=
  ∃ cell data, raw.cells[x]? = some cell ∧ raw.data[x]? = some data ∧ c = cellOnChain cell data

section Host

variable {hash : List UInt8 → Hash} {inputs : List SuppliedInputCell} {raw : CodeOrigin.Transaction}
  {c d : Cell} {i j : ℕ} {bytes data : List UInt8}

section Statements

variable {rawBytes : List UInt8} {leaf : CounterSetLeaf} {p : UInt8 × ℕ × CodeOrigin.Cell}
  {q : UInt8 × ℕ}

theorem state_ok_iff : state data = .ok () ↔ data.length = 48 ∧ data.take 8 = counterMagic := by
  rw [state, require_ok_iff, and_eq_true, beq_iff_eq, beq_iff_eq]

/-- **A derived statement describes an input and the output that continues it.** -/
theorem describes_of_leafOf (hp : p.2.1 = i) (hq : q.2 = j) (hi : i < 64) (hj : j < 64)
    (hc : IsInput inputs p.2 c) (hd : IsOutput raw q.2 d)
    (hraw : CodeOrigin.transaction bytes = .ok raw)
    (h : leafOf hash inputs raw (hash rawBytes) (p, q) = .ok leaf) :
    p.1 = q.1 ∧ Continues c d ∧ Describes hash rawBytes inputs leaf ((c, i), (d, j)) := by
  obtain ⟨input, hinput, hcell, rfl⟩ := hc
  obtain ⟨next, data, hnext, hdata, rfl⟩ := hd
  obtain ⟨lane, index, old⟩ := p
  obtain ⟨nextLane, outputIndex⟩ := q
  obtain ⟨nextBytes, hnextBytes⟩ :=
    exists_cell_of_transaction hraw (mem_of_getElem? hnext)
  obtain rfl : index = i := hp
  obtain rfl : outputIndex = j := hq
  cases hscript : old.typeScript with
  | none =>
    simp only [leafOf, hnext, hscript] at h
    exact nomatch h
  | some script =>
    simp only [leafOf, hnext, hscript, hinput, getD_eq_getElem?_getD, hdata, getD_some] at h
    obtain ⟨hlane, h⟩ := check_ok.1 h
    obtain ⟨hold, h⟩ := check_ok.1 h
    obtain ⟨hnew, h⟩ := check_ok.1 h
    obtain ⟨hkept, h⟩ := check_ok.1 h
    obtain ⟨hcounter, h⟩ := check_ok.1 h
    obtain rfl := pure_ok.1 h
    rw [require_ok_iff] at hlane hkept hcounter
    rw [state_ok_iff] at hold hnew
    simp only [and_eq_true, beq_iff_eq, decide_eq_true_eq] at hlane hkept hcounter
    obtain ⟨nextScript, hnextScript, hbytes⟩ := (Option.any_eq_true _ _).1 hlane.2
    -- equal bytes are parsed as one script
    have hsame : nextScript = script := by
      have hparse := script_of_cell hnextBytes hnextScript
      rw [beq_iff_eq.1 hbytes, script_of_cell hcell hscript] at hparse
      exact (ok.inj hparse).symm
    have hlock : (scriptOnChain old.lock).bytes = (scriptOnChain next.lock).bytes := by
      rw [bytes_scriptOnChain (scripts_of_cell hcell).1,
        bytes_scriptOnChain (scripts_of_cell hnextBytes).1, hkept.2]
    refine ⟨hlane.1, ?_, ?_⟩
    · refine ⟨?_, hold.1, hnew.1, hold.2, hnew.2, hkept.1.1, hlock, hkept.1.2, hcounter.2.symm⟩
      rw [cellOnChain, cellOnChain, hscript, hnextScript, hsame]
    · refine ⟨mod_eq_of_lt (by omega), mod_eq_of_lt (by omega), ?_, rfl, rfl,
        ⟨input, hinput, ?_⟩, rfl, rfl, rfl⟩
      · rw [cellOnChain, hscript]
        exact congrArg (fun bytes ↦ some (hash bytes))
          (bytes_scriptOnChain (script_of_cell hcell hscript))
      · have hlength : (input.outPoint.take 32).length = 32 := by
          rw [length_take, input.length_outPoint]
          rfl
        have hrest : (input.outPoint.drop 32).length = 4 := by
          rw [length_drop, input.length_outPoint]
        have hlt := Bytes.ofLe_lt (input.outPoint.drop 32)
        rw [hrest] at hlt
        rw [Hash.bytes_ofBytes hlength, UInt32.toNat_ofNat_of_lt' hlt, ← hrest, Bytes.le_ofLe,
          take_append_drop]

end Statements

/-! ### The transaction of the type script -/

/-- The transaction on chain of the bytes and of the cells that it consumes. -/
def Resolves (full : List UInt8) (inputs : List SuppliedInputCell) (tx : Transaction) : Prop :=
  ∃ values raw cells cellDeps, Molecule.fields full 2 = .ok values ∧
    CodeOrigin.transaction (values.getD 0 []) = .ok raw ∧
    inputs.mapM (fun input ↦ CodeOrigin.cell input.output) = .ok cells ∧
    cellDeps.length = (chunksExact 37 raw.deps).length ∧
    tx = transactionOnChain full cells inputs raw cellDeps

variable {full selectedScript : List UInt8} {values : List (List UInt8)}
  {successors : List (UInt8 × ℕ)} {leaves : List CounterSetLeaf} {cells : List CodeOrigin.Cell}
  {cellDeps onChain : List Cell}

section Resolved

variable {selected : List (UInt8 × ℕ × CodeOrigin.Cell)}

theorem length_chunksExact (width : ℕ) (bytes : List UInt8) :
    (chunksExact width bytes).length = bytes.length / width := by
  rw [chunksExact, length_map, length_range]

theorem parsed_cellOnChain {c : CodeOrigin.Cell}
    (h : CodeOrigin.cell bytes = .ok c) : Parsed (cellOnChain c data) c.typeScript :=
  ⟨rfl, fun s hs ↦ ⟨s.bytes, script_of_cell h hs⟩⟩

namespace Checked

variable (h : Checked hash full inputs selectedScript current values raw selected successors leaves)
include h

/-- The place of an input in the scan. -/
theorem exists_scanned {i : ℕ} {input : SuppliedInputCell} (hi : inputs[i]? = some input) :
    ∃ chunk, (inputs.zip (chunksExact 44 raw.inputs)).zipIdx[i]? = some ((input, chunk), i) := by
  have hlt : i < (chunksExact 44 raw.inputs).length := by
    rw [length_chunksExact, h.count]
    exact (List.getElem?_eq_some_iff.1 hi).1
  have hzip : (inputs.zip (chunksExact 44 raw.inputs))[i]? =
      some (input, (chunksExact 44 raw.inputs)[i]) :=
    getElem?_zip_eq_some.2 ⟨hi, getElem?_eq_getElem hlt⟩
  exact ⟨_, by rw [getElem?_zipIdx, hzip, map_some, zero_add]⟩

theorem exists_cells :
    ∃ cells, inputs.mapM (fun input ↦ CodeOrigin.cell input.output) = .ok cells := by
  obtain ⟨states, -, -, hstep⟩ := Except.exists_states_of_foldlM h.selects
  refine Except.exists_mapM_ok fun input hinput ↦ ?_
  obtain ⟨i, hi⟩ := mem_iff_getElem?.1 hinput
  obtain ⟨chunk, hscanned⟩ := h.exists_scanned hi
  obtain ⟨cell, hcell, -⟩ := enlists_of_selectInput (hstep i _ hscanned)
  exact ⟨cell, hcell⟩

/-- The scan of the inputs, cell by cell of the transaction on chain. -/
theorem exists_inputs (hcells : inputs.mapM (fun input ↦ CodeOrigin.cell input.output) = .ok cells)
    (honChain : onChain = List.zipWith cellOnChain cells (inputs.map (·.data))) :
    onChain.length = inputs.length ∧ ∃ states, states 0 = [] ∧ states onChain.length = selected ∧
      Steps current Prod.fst (IsInput inputs) onChain states := by
  obtain ⟨hlength, hparse⟩ := Except.getElem?_of_mapM hcells
  have hscan : (inputs.zip (chunksExact 44 raw.inputs)).zipIdx.length = inputs.length := by
    rw [length_zipIdx, length_zip, length_chunksExact, h.count, min_self]
  have honLength : onChain.length = inputs.length := by
    rw [honChain, length_zipWith, length_map, hlength, min_self]
  obtain ⟨states, hstart, hend, hstep⟩ := Except.exists_states_of_foldlM h.selects
  refine ⟨honLength, states, hstart, ?_, fun i c hc ↦ ?_⟩
  · rw [honLength, ← hscan, hend]
  · rw [honChain, getElem?_zipWith_eq_some] at hc
    obtain ⟨cell, data, hcell, hdata, rfl⟩ := hc
    rw [getElem?_map] at hdata
    obtain ⟨input, hinput, rfl⟩ := map_eq_some_iff.1 hdata
    obtain ⟨cell', hcell', hoK⟩ := hparse i input hinput
    obtain rfl := mem_unique hcell hcell'
    obtain ⟨chunk, hscanned⟩ := h.exists_scanned hinput
    obtain ⟨found, hfound, henlists⟩ := enlists_of_selectInput (hstep i _ hscanned)
    obtain rfl := ok.inj (hoK.symm.trans hfound)
    exact ⟨cell.typeScript, (i, cell), parsed_cellOnChain hoK, rfl, ⟨input, hinput, hoK, rfl⟩,
      henlists⟩

theorem exists_outputs (honChain : onChain = List.zipWith cellOnChain raw.cells raw.data) :
    onChain.length = raw.cells.length ∧ ∃ states, states 0 = [] ∧
      states onChain.length = successors ∧ Steps current id (IsOutput raw) onChain states := by
  obtain ⟨hparse, hdata, -⟩ := parts_of_transaction h.parse_raw
  have honLength : onChain.length = raw.cells.length := by
    rw [honChain, length_zipWith, ← hdata, min_self]
  obtain ⟨states, hstart, hend, hstep⟩ := Except.exists_states_of_foldlM h.succeeds
  refine ⟨honLength, states, hstart, ?_, fun i c hc ↦ ?_⟩
  · rw [honLength, ← length_zipIdx, hend]
  · rw [honChain, getElem?_zipWith_eq_some] at hc
    obtain ⟨cell, data, hcell, hdata, rfl⟩ := hc
    obtain ⟨bytes, hbytes⟩ := hparse cell (mem_of_getElem? hcell)
    have hscanned : raw.cells.zipIdx[i]? = some (cell, i) := by
      rw [getElem?_zipIdx, hcell, map_some, zero_add]
    exact ⟨cell.typeScript, i, parsed_cellOnChain hbytes, rfl, ⟨cell, data, hcell, hdata, rfl⟩,
      enlists_of_selectOutput (hstep i _ hscanned)⟩

end Checked

end Resolved

/-! ### The run of the type script -/

section Script

theorem state_of_length (hc : (ctx.cells source)[i]? = some c) (hlength : c.data.length = 48)
    (hmagic : field 0 8 c.data = counterMagic) : ctx.state i source = .ok c.data := by
  rw [Context.state, Context.loadCellData, cell_ok hc]
  dsimp only
  rw [filled_of_length_eq hlength, load, hlength, if_neg]
  rw [not_or, not_not, not_not]
  exact ⟨rfl, hmagic⟩

theorem checkPair_of_continues {p q : ℕ × UInt8} (hc : ctx.tx.inputs[p.1]? = some c)
    (hd : ctx.tx.outputs[q.1]? = some d) (h : Continues c d) : ctx.checkPair (p, q) = .ok () := by
  have hin : (ctx.cells .input)[p.1]? = some c := hc
  have hout : (ctx.cells .output)[q.1]? = some d := hd
  have howner : field 8 32 c.data = field 8 32 d.data := h.ownerCommitment
  simp only [checkPair, loadCellTypeHash, loadCellLockHash, loadCellCapacity, cell_ok hin,
    cell_ok hout, ok_bind, state_of_length hin h.length_input h.magic_input,
    state_of_length hout h.length_output h.magic_output]
  have hmapErr : ∀ {α : Type} (a : α), mapErr .context (pure a) = .ok a := fun _ ↦ rfl
  simp only [h.type, h.lock, h.capacity, howner, hmapErr, ok_bind, ne_eq,
    not_true_eq_false, if_false]
  rfl

/-- The cells of a type group, when a family has each lane once. -/
theorem length_group {cells : List Cell} {s : Script}
    (hnodup : ((cells.filter (·.inFamily s.family)).map Cell.lane).Nodup)
    (hmem : ∃ c ∈ cells, c.type = some s) : (cells.filter fun c ↦ c.type = some s).length = 1 := by
  have hlanes : (cells.filter fun c ↦ c.type = some s).map Cell.lane =
      replicate (cells.filter fun c ↦ c.type = some s).length s.lane := by
    rw [eq_replicate_iff, length_map]
    refine ⟨rfl, fun lane hlane ↦ ?_⟩
    obtain ⟨c, hc, rfl⟩ := mem_map.1 hlane
    rw [Cell.lane, of_decide_eq_true (mem_filter.1 hc).2]
    rfl
  have hsub : (cells.filter fun c ↦ c.type = some s).Sublist
      (cells.filter (·.inFamily s.family)) := by
    refine monotone_filter_right cells fun c hc ↦ ?_
    rw [Cell.inFamily, of_decide_eq_true hc]
    exact decide_eq_true ⟨rfl, rfl⟩
  refine le_antisymm ?_ ?_
  · have := hnodup.sublist (hsub.map Cell.lane)
    rw [hlanes] at this
    exact nodup_replicate.1 this
  · obtain ⟨c, hc, htype⟩ := hmem
    exact length_pos_of_mem (mem_filter.2 ⟨hc, decide_eq_true htype⟩)

end Script

/-- How a run goes on after the search for the parent program. -/
def handsOver : Option ℕ → Except Error Ending
  | some parent => .ok (.execs parent)
  | none => .error .parent

/-- A transition with all its checks, up to the search for the parent program. -/
theorem validate_of_checks {inputs outputs : Selection}
    (hbound : ∀ source ∈ [Source.input, .output, .cellDep], (ctx.cells source).length ≤ maxCells)
    (hbytes : ctx.tx.bytes.length ≤ 16384) (hscript : ctx.loadScript = .ok script)
    (hin : ctx.select script .input = .ok inputs) (hout : ctx.select script .output = .ok outputs)
    (hgroupInput : (ctx.cells .groupInput).length = 1)
    (hgroupOutput : (ctx.cells .groupOutput).length = 1) (hne : inputs ≠ [])
    (hlanes : inputs.map (·.2) = outputs.map (·.2))
    (hpairs : ∀ pair ∈ inputs.zip outputs, ctx.checkPair pair = .ok ()) :
    ctx.validate = ctx.findParent (script.drop 94) maxCells 0 none >>= handsOver := by
  have hlength : inputs.length = outputs.length := by
    simpa only [length_map] using congrArg List.length hlanes
  have hnil : outputs ≠ [] := by
    rintro rfl
    exact hne (length_eq_zero_iff.1 hlength)
  have hbounds : [Source.input, .output, .cellDep].forM ctx.checkBound = .ok () := by
    refine forM_ok_iff.2 fun source hsource ↦ ?_
    rw [checkBound, cellExists_eq, decide_eq_false (not_lt.2 (hbound source hsource))]
    rfl
  have htransaction : ctx.checkTransaction = .ok () := by
    rw [checkTransaction]
    cases hload : load 0 ctx.tx.bytes with
    | ok n =>
      rw [load] at hload
      split at hload
      · rw [← ok.inj hload]
        exact if_pos hbytes
      · cases hload
    | error e =>
      rw [load] at hload
      split at hload
      · cases hload
      · rw [← Except.error.inj hload]
        exact if_pos hbytes
  have hgroup : ctx.checkGroup = .ok () := by
    rw [checkGroup]
    simp only [cellExists_eq, hgroupInput, hgroupOutput]
    rfl
  have hall : (inputs.zip outputs).forM ctx.checkPair = .ok () := forM_ok_iff.2 hpairs
  rw [validate, hbounds, ok_bind, htransaction, ok_bind, hscript, ok_bind, hin, ok_bind, hout,
    ok_bind, hgroup, ok_bind, if_neg hnil, if_neg hne, checkTransition, cellExists_eq, hgroupInput,
    ok_bind, if_neg ?_, if_neg ?_, hall]
  · rfl
  · rw [not_or, not_not, not_not]
    exact ⟨hlength, hlanes⟩
  · decide

/-! ### Refinement -/

/-- The bytes of the raw transaction. -/
def rawBytes (full : List UInt8) : List UInt8 :=
  ((Molecule.fields full 2).toOption.getD []).getD 0 []

/-- The statements are those of the inputs of a family, each with the output that continues it. -/
structure Lists (hash : List UInt8 → Hash) (full : List UInt8) (inputs : List SuppliedInputCell)
    (leaves : List CounterSetLeaf) (f : Family) (tx : Transaction) : Prop where
  length_eq : (indexed f tx.inputs).length = (indexed f tx.outputs).length
  nodup : ((familyOutputs f tx).map Cell.lane).Nodup
  leaves : Forall₂ (fun leaf pair ↦ pair.1.1.lane = pair.2.1.lane ∧
      Continues pair.1.1 pair.2.1 ∧ Describes hash (rawBytes full) inputs leaf pair)
    leaves ((indexed f tx.inputs).zip (indexed f tx.outputs))

theorem loadScript_of_checkCurrent {current : CodeOrigin.Script} {ckb : Ckb}
    {tx : Transaction} (h : checkCurrent current = .ok ()) :
    Context.loadScript ⟨ckb, tx, scriptOnChain current⟩ =
      .ok (filled scriptBytes (scriptOnChain current).bytes) := by
  rw [checkCurrent, require_ok_iff] at h
  simp only [and_eq_true, beq_iff_eq, decide_eq_true_eq, bne_iff_ne, ne_eq] at h
  obtain ⟨⟨⟨⟨htype, hlength⟩, hmagic⟩, hlane⟩, hparent⟩ := h
  have hargs : (scriptOnChain current).args = current.args := rfl
  have hbytes : (scriptOnChain current).bytes.length = scriptBytes := by
    rw [length_bytes, hargs, hlength]
    rfl
  rw [loadScript]
  rw [if_neg]
  rw [load, hbytes, getD_hashType, show field 53 8 _ = _ from field_args (k := 0) _,
    show (93 : ℕ) = 53 + 40 from rfl, show (94 : ℕ) = 53 + 41 from rfl, getD_args, drop_args, hargs,
    filled_of_length_eq hlength]
  simp only [not_or, not_not]
  exact ⟨rfl, htype, hmagic, UInt8.not_le.2 hlane, hparent⟩

/-- The selections of the host are those of the type script. -/
structure Scans (inputs : List SuppliedInputCell) (current : CodeOrigin.Script)
    (raw : CodeOrigin.Transaction) (selected : List (UInt8 × ℕ × CodeOrigin.Cell))
    (successors : List (UInt8 × ℕ)) (ctx : Context) : Prop where
  length_inputs : ctx.tx.inputs.length ≤ maxCells
  length_outputs : ctx.tx.outputs.length ≤ maxCells
  select_input : ctx.select (filled scriptBytes (scriptOnChain current).bytes) .input =
    .ok (places Prod.fst selected)
  select_output : ctx.select (filled scriptBytes (scriptOnChain current).bytes) .output =
    .ok (places id successors)
  inputs : Forall₂ (fun p q ↦ p.1 = q.1.lane ∧ p.2.1 = q.2 ∧ IsInput inputs p.2 q.1) selected
    (indexed (scriptOnChain current).family ctx.tx.inputs)
  outputs : Forall₂ (fun p q ↦ p.1 = q.1.lane ∧ p.2 = q.2 ∧ IsOutput raw p.2 q.1) successors
    (indexed (scriptOnChain current).family ctx.tx.outputs)

section Refinement

variable {selected : List (UInt8 × ℕ × CodeOrigin.Cell)} {ckb : Ckb} {f : Family} {q : Cell × ℕ}

theorem length_args_of_checkCurrent (h : checkCurrent current = .ok ()) :
    current.args.length = 73 := by
  rw [checkCurrent, require_ok_iff] at h
  simp only [and_eq_true, beq_iff_eq] at h
  exact h.1.1.1.2

theorem getElem?_of_mem_indexed (h : q ∈ indexed f onChain) :
    onChain[q.2]? = some q.1 ∧ q.1.inFamily f = true := by
  obtain ⟨hmem, hfamily⟩ := mem_filter.1 h
  exact ⟨mem_zipIdx_iff_getElem?.1 hmem, hfamily⟩

/-- A place in a host selection, from the cells on chain. -/
theorem places_eq_map {α : Type} {place : α → ℕ} {R : α → Cell → Prop} {chosen : List (UInt8 × α)}
    {onChain : List (Cell × ℕ)}
    (h : Forall₂ (fun p q ↦ p.1 = q.1.lane ∧ place p.2 = q.2 ∧ R p.2 q.1) chosen onChain) :
    places place chosen = onChain.map fun q ↦ (q.2, q.1.lane) := by
  rw [places, ← forall₂_eq_eq_eq, forall₂_map_left_iff, forall₂_map_right_iff]
  exact h.imp fun p q hpq ↦ Prod.ext hpq.2.1 hpq.1

section Scans

variable (h : Checked hash full inputs selectedScript current values raw selected successors leaves)
include h

theorem scans_of_checked
    (hcells : inputs.mapM (fun input ↦ CodeOrigin.cell input.output) = .ok cells)
    (hin : ctx.tx.inputs = List.zipWith cellOnChain cells (inputs.map (·.data)))
    (hout : ctx.tx.outputs = List.zipWith cellOnChain raw.cells raw.data) :
    Scans inputs current raw selected successors ctx := by
  obtain ⟨hlengthIn, states, hstart, rfl, hsteps⟩ := h.exists_inputs hcells hin
  obtain ⟨hlengthOut, states', hstart', rfl, hsteps'⟩ := h.exists_outputs hout
  have hargs := length_args_of_checkCurrent h.check_current
  have hboundIn : ctx.tx.inputs.length ≤ maxCells := hlengthIn.trans_le h.length_inputs
  have hboundOut : ctx.tx.outputs.length ≤ maxCells := hlengthOut.trans_le h.length_cells
  exact ⟨hboundIn, hboundOut, select_of_steps h.parse_script hargs hstart hboundIn hsteps,
    select_of_steps h.parse_script hargs hstart' hboundOut hsteps',
    forall₂_indexed_of_steps h.parse_script hstart hsteps,
    forall₂_indexed_of_steps h.parse_script hstart' hsteps'⟩

variable (hscans : Scans inputs current raw selected successors ctx)
include hscans

/-- The statements of the host, over the cells on chain. -/
theorem Scans.describes :
    Forall₂ (fun leaf pair ↦ pair.1.1.lane = pair.2.1.lane ∧ Continues pair.1.1 pair.2.1 ∧
        Describes hash (values.getD 0 []) inputs leaf pair) leaves
      ((indexed (scriptOnChain current).family ctx.tx.inputs).zip
        (indexed (scriptOnChain current).family ctx.tx.outputs)) := by
  have hzip := Association.forall₂_zip hscans.inputs hscans.outputs
  have hreads := Except.mapM_ok_iff.1 h.reads
  refine Association.forall₂_of_forall₂ (P := Eq) (forall₂_refl _) hreads hzip ?_
  rintro ⟨p, q⟩ _ leaf ⟨⟨c, i⟩, ⟨d, j⟩⟩ rfl hleaf ⟨⟨hlane, hi, hc⟩, ⟨hlane', hj, hd⟩⟩
  have hi' : p.2.1 < 64 := by
    obtain ⟨input, hinput, -⟩ := hc
    exact (List.getElem?_eq_some_iff.1 hinput).1.trans_le h.length_inputs
  have hj' : q.2 < 64 := by
    obtain ⟨cell, data, hcell, -⟩ := hd
    exact (List.getElem?_eq_some_iff.1 hcell).1.trans_le h.length_cells
  obtain ⟨hsame, hcontinues, hdescribes⟩ :=
    describes_of_leafOf hi hj (hi ▸ hi') (hj ▸ hj') hc hd h.parse_raw hleaf
  exact ⟨hlane.symm.trans (hsame.trans hlane'), hcontinues, hdescribes⟩

theorem Scans.selects :
    Selects ctx.tx.inputs (scriptOnChain current) ctx.tx.inputs (places Prod.fst selected) ∧
      Selects ctx.tx.outputs (scriptOnChain current) ctx.tx.outputs (places id successors) := by
  have hargs : (scriptOnChain current).args.length = 73 :=
      length_args_of_checkCurrent h.check_current
  have hin : (ctx.cells .input).length ≤ maxCells := hscans.length_inputs
  have hout : (ctx.cells .output).length ≤ maxCells := hscans.length_outputs
  exact ⟨select_ok hargs hin hscans.select_input, select_ok hargs hout hscans.select_output⟩

theorem Scans.length_indexed : (indexed (scriptOnChain current).family ctx.tx.inputs).length =
      (indexed (scriptOnChain current).family ctx.tx.outputs).length := by
  rw [← hscans.inputs.length_eq, ← hscans.outputs.length_eq, h.length_eq]

/-- Each input of the family is continued by an output with its lane. -/
theorem Scans.continues {pair : (Cell × ℕ) × (Cell × ℕ)}
    (hpair : pair ∈ (indexed (scriptOnChain current).family ctx.tx.inputs).zip
      (indexed (scriptOnChain current).family ctx.tx.outputs)) :
    pair.1.1.lane = pair.2.1.lane ∧ Continues pair.1.1 pair.2.1 := by
  obtain ⟨leaf, -, hlane, hcontinues, -⟩ :=
    Association.exists_of_forall₂ (hscans.describes h).flip hpair
  exact ⟨hlane, hcontinues⟩

/-- The group of the selected script has one cell on each side. -/
theorem Scans.group :
    (ctx.tx.inputs.filter fun c ↦ c.type = some (scriptOnChain current)).length = 1 ∧
      (ctx.tx.outputs.filter fun c ↦ c.type = some (scriptOnChain current)).length = 1 := by
  obtain ⟨hin, hout⟩ := hscans.selects h
  obtain ⟨p, hp, s, hs, hbytes⟩ := h.mem_selected
  obtain ⟨q, hq, -, -, input, -, hcell, hq'⟩ := Association.exists_of_forall₂ hscans.inputs hp
  have htype : q.1.type = some (scriptOnChain current) := by
    have hparse := script_of_cell hcell hs
    rw [hbytes, h.parse_script] at hparse
    rw [hq', cellOnChain, hs, ← ok.inj hparse]
    rfl
  obtain ⟨pair, hpair, rfl⟩ : ∃ pair ∈ (indexed (scriptOnChain current).family ctx.tx.inputs).zip
      (indexed (scriptOnChain current).family ctx.tx.outputs), pair.1 = q := by
    rw [← map_fst_zip (hscans.length_indexed h).le] at hq
    exact mem_map.1 hq
  have hinput := (getElem?_of_mem_indexed (of_mem_zip hpair).1).1
  have houtput := (getElem?_of_mem_indexed (of_mem_zip hpair).2).1
  exact ⟨length_group hin.nodup ⟨_, mem_of_getElem? hinput, htype⟩,
    length_group hout.nodup ⟨_, mem_of_getElem? houtput, (hscans.continues h hpair).2.type ▸ htype⟩⟩

theorem Scans.map_lane :
    (places Prod.fst selected).map (·.2) = (places id successors).map (·.2) := by
  rw [places_eq_map hscans.inputs, places_eq_map hscans.outputs, map_map, map_map,
    ← forall₂_eq_eq_eq, forall₂_map_left_iff, forall₂_map_right_iff, forall₂_iff_zip]
  exact ⟨hscans.length_indexed h, fun hpair ↦ (hscans.continues h hpair).1⟩

theorem Scans.checkPair :
    ∀ pair ∈ (places Prod.fst selected).zip (places id successors),
        ctx.checkPair pair = .ok () := by
  intro pair hpair
  rw [places_eq_map hscans.inputs, places_eq_map hscans.outputs, zip_map] at hpair
  obtain ⟨⟨⟨c, i⟩, ⟨d, j⟩⟩, hmem, rfl⟩ := mem_map.1 hpair
  have hinput := (getElem?_of_mem_indexed (of_mem_zip hmem).1).1
  have houtput := (getElem?_of_mem_indexed (of_mem_zip hmem).2).1
  exact checkPair_of_continues hinput houtput (hscans.continues h hmem).2

end Scans

end Refinement

/-- **What the host accepts, the type script accepts**, up to the search for the parent program; the
statements list the cells of the family, and what the host encodes are these statements. -/
theorem validate_of_checkCounterSet {hash : List UInt8 → Hash} {full selectedScript : List UInt8}
    {inputs : List SuppliedInputCell} {checked : CheckedCounterSet}
    (h : checkCounterSet hash full inputs selectedScript = .ok checked) :
    (∃ tx, Resolves full inputs tx) ∧
      ∀ (ckb : Ckb) (tx : Transaction) (s : Script), Resolves full inputs tx →
        s.bytes = selectedScript →
        Context.validate ⟨ckb, tx, s⟩ =
            Context.findParent ⟨ckb, tx, s⟩ s.parent maxCells 0 none >>= handsOver ∧
          Lists hash full inputs checked.leaves s.family tx ∧
          encodeCounterSet (field 8 32 s.args) checked.leaves = .ok checked.encoded := by
  obtain ⟨current, values, raw, selected, successors, hchecked, hencoded⟩ :=
    accepted_of_checkCounterSet h
  refine ⟨?_, fun ckb tx s hresolves hs ↦ ?_⟩
  · obtain ⟨cells, hcells⟩ := hchecked.exists_cells
    exact ⟨_, values, raw, cells, replicate _ ⟨0, scriptOnChain current, none, []⟩,
      hchecked.parse_full, hchecked.parse_raw, hcells, length_replicate, rfl⟩
  obtain ⟨values', raw', cells, cellDeps, hvalues, hraw, hcells, hlength, rfl⟩ := hresolves
  obtain rfl := ok.inj (hchecked.parse_full.symm.trans hvalues)
  obtain rfl := ok.inj (hchecked.parse_raw.symm.trans hraw)
  -- the selected script is the one that was parsed
  obtain rfl : s = scriptOnChain current := by
    refine Script.bytes_injective ?_
    rw [hs, bytes_scriptOnChain hchecked.parse_script, bytes_of_script hchecked.parse_script]
  have hscans : Scans inputs current raw selected successors
      ⟨ckb, transactionOnChain full cells inputs raw cellDeps, scriptOnChain current⟩ :=
    scans_of_checked hchecked hcells rfl rfl
  have hdeps : cellDeps.length ≤ maxCells := by
    rw [hlength, length_chunksExact]
    exact (parts_of_transaction hchecked.parse_raw).2.2
  refine ⟨?_, ?_, hencoded⟩
  · have hparent : (filled scriptBytes (scriptOnChain current).bytes).drop 94 =
        (scriptOnChain current).parent := by
      rw [show (94 : ℕ) = 53 + 41 from rfl, drop_args, args_scriptOnChain,
        filled_of_length_eq (length_args_of_checkCurrent hchecked.check_current)]
      rfl
    rw [← hparent]
    refine validate_of_checks ?_ hchecked.length_full
      (loadScript_of_checkCurrent hchecked.check_current) hscans.select_input hscans.select_output
      (hscans.group hchecked).1 (hscans.group hchecked).2 ?_ (hscans.map_lane hchecked)
      (hscans.checkPair hchecked)
    · simp only [forall_mem_cons, not_mem_nil, false_imp_iff, implies_true, and_true]
      exact ⟨hscans.length_inputs, hscans.length_outputs, hdeps⟩
    · exact fun hnil ↦ hchecked.selected_ne (map_eq_nil_iff.1 hnil)
  · refine ⟨hscans.length_indexed hchecked, (hscans.selects hchecked).2.nodup, ?_⟩
    have hraw : rawBytes full = values.getD 0 [] := by
      rw [rawBytes, hchecked.parse_full]
      rfl
    rw [hraw]
    exact hscans.describes hchecked

end Host

namespace Sample

open Molecule (table)

def lock : List UInt8 := table [replicate 32 7, [1], le 4 0]

def typeScript (lane : UInt8) : List UInt8 :=
  table [replicate 32 5, [4], le 4 73 ++ setMagic ++ replicate 32 6 ++ [lane] ++ replicate 32 8]

def output (type : List UInt8) : List UInt8 := table [le 8 100, lock, type]

def data (counter : ℕ) : List UInt8 := counterMagic ++ replicate 32 1 ++ le 8 counter

def input (index : ℕ) (type bytes : List UInt8) : SuppliedInputCell where
  outPoint := replicate 32 9 ++ le 4 index
  output := output type
  data := bytes
  length_outPoint := by simp

/-- Two counters with a cell of another kind between them. -/
def inputs : List SuppliedInputCell :=
  [input 0 (typeScript 0) (data 3), input 1 [] [], input 2 (typeScript 2) (data 255)]

def full : List UInt8 :=
  table [table [le 4 0, le 4 0, le 4 0,
      le 4 3 ++ (inputs.map fun input ↦ replicate 8 0 ++ input.outPoint).flatten,
      table [output (typeScript 0), output (typeScript 2)],
      table [Molecule.byteVector (data 4), Molecule.byteVector (data 256)]], le 4 4]

end Sample

/-- Two lanes of a family are increased in one transaction. -/
theorem validate_of_checkCounterSet_two_lanes :
    ∃ checked, checkCounterSet Hash.ofBytes Sample.full Sample.inputs (Sample.typeScript 2) =
        .ok checked ∧ checked.leaves.length = 2 ∧ ∃ tx, Resolves Sample.full Sample.inputs tx := by
  have hok : (checkCounterSet Hash.ofBytes Sample.full Sample.inputs
      (Sample.typeScript 2)).toOption.any (fun checked ↦ checked.leaves.length == 2) = true := by
    decide +kernel
  obtain ⟨checked, hchecked, hlength⟩ := exists_of_toOption_any hok
  exact ⟨checked, hchecked, beq_iff_eq.1 hlength, (validate_of_checkCounterSet hchecked).1⟩

end CellScript.CounterSet.Host
