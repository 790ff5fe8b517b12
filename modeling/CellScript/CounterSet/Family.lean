import CellScript.CounterSet.Script
import CellScript.Library.Association

/-!
# The lanes of a counter family

A run of the type script decides about its own group; what a transaction does to a whole family
follows from the runs of all its groups. This module puts them together, and follows a family
through the ledger.
-/

namespace CellScript.CounterSet

open Bytes (le ofLe field padded)
open Context List

/-! ### Families -/

/-- The code and the identifier that the cells of a family share. -/
structure Family where
  codeHash : List UInt8
  id : List UInt8

namespace Script

variable (s : Script)

def family : Family := ⟨s.codeHash, field 8 32 s.args⟩

def lane : UInt8 := s.args.getD 40 0

/-- The hash of the program that a family hands over to. -/
def parent : List UInt8 := s.args.drop 41

end Script

namespace Cell

variable (c : Cell)

def inFamily (f : Family) : Bool :=
  c.type.any fun s ↦ s.codeHash = f.codeHash ∧ field 8 32 s.args = f.id

def lane : UInt8 := c.type.elim 0 Script.lane

def parent : List UInt8 := c.type.elim [] Script.parent

def ownerCommitment : List UInt8 := field 8 32 c.data

def counter : ℕ := ofLe (c.data.drop 40)

end Cell

/-- What a lane keeps. -/
structure Kept where
  lane : UInt8
  parent : List UInt8
  typeHash : Option (List UInt8)
  ownerCommitment : List UInt8
  lockHash : List UInt8
  capacity : ℕ

def Ckb.kept (ckb : Ckb) (c : Cell) : Kept where
  lane := c.lane
  parent := c.parent
  typeHash := c.type.map fun s ↦ ckb.hash s.bytes
  ownerCommitment := c.ownerCommitment
  lockHash := ckb.hash c.lock.bytes
  capacity := c.capacity

def familyInputs (f : Family) (tx : Transaction) : List Cell := tx.inputs.filter (·.inFamily f)

def familyOutputs (f : Family) (tx : Transaction) : List Cell := tx.outputs.filter (·.inFamily f)

/-- Every type group of the family has run and was accepted. -/
def Accepted (ckb : Ckb) (f : Family) (tx : Transaction) : Prop :=
  ∀ c ∈ tx.inputs ++ tx.outputs, c.inFamily f → ∀ s ∈ c.type, Context.entry ⟨ckb, tx, s⟩ = 0

/-! ### The layout of a script -/

section Layout

variable {s : Script} {room k len : ℕ}

theorem length_header (s : Script) : s.header.flatten.length = 53 := by
  simp [Script.header]

theorem length_bytes (s : Script) : s.bytes.length = 53 + s.args.length := by
  rw [Script.bytes, length_append, length_header]

theorem filled_append {xs ys : List UInt8} :
    filled (xs.length + room) (xs ++ ys) = xs ++ filled room ys := by
  rw [filled, filled, take_length_add_append, padded, padded, length_append,
    Nat.add_sub_add_left, append_assoc]

/-- The buffer starts with the header, which it has room for. -/
theorem filled_bytes (s : Script) :
    filled scriptBytes s.bytes = s.header.flatten ++ filled 73 s.args := by
  rw [← filled_append, length_header]
  rfl

theorem field_codeHash (s : Script) : field 16 32 (filled scriptBytes s.bytes) = s.codeHash := by
  have hparts : filled scriptBytes s.bytes = (s.header ++ [filled 73 s.args]).flatten := by
    rw [filled_bytes, flatten_append, flatten_singleton]
  rw [hparts]
  exact Bytes.field_flatten (k := 4) rfl (by simp [Script.header]) s.length_codeHash

theorem field_hashType (s : Script) : field 48 1 s.header.flatten = [s.hashType] :=
  Bytes.field_flatten (k := 5) rfl (by simp [Script.header]) rfl

theorem getD_hashType (s : Script) : (filled scriptBytes s.bytes).getD 48 0 = s.hashType := by
  refine Bytes.getD_of_field ?_
  rw [filled_bytes, field, drop_append_of_le_length (by rw [length_header]; decide),
    take_append_of_le_length (by rw [length_drop, length_header]; decide)]
  exact field_hashType s

theorem field_args (s : Script) :
    field (53 + k) len (filled scriptBytes s.bytes) = field k len (filled 73 s.args) := by
  rw [filled_bytes, field, field, ← length_header s, drop_length_add_append]

theorem drop_args (s : Script) :
    (filled scriptBytes s.bytes).drop (53 + k) = (filled 73 s.args).drop k := by
  rw [filled_bytes, ← length_header s, drop_length_add_append]

theorem getD_args (s : Script) :
    (filled scriptBytes s.bytes).getD (53 + k) 0 = (filled 73 s.args).getD k 0 := by
  rw [filled_bytes, ← length_header s, getD_eq_getElem?_getD, getD_eq_getElem?_getD,
    getElem?_append_right (Nat.le_add_right _ _), Nat.add_sub_cancel_left]

variable {item : List UInt8}

theorem filled_of_length_eq (h : item.length = room) : filled room item = item := by
  rw [filled, padded, take_of_length_le h.le, h, Nat.sub_self, replicate_zero, append_nil]

theorem field_filled {room start len : ℕ} (hlen : start + len ≤ item.length)
    (hroom : start + len ≤ room) : field start len (filled room item) = field start len item := by
  rw [filled, Bytes.field_padded (by rw [length_take]; omega), field, field, drop_take,
    take_take, min_eq_left (by omega)]

end Layout

/-! ### Selection -/

section Selection

variable {ctx : Context} {source : Source} {current s : Script} {f : Family} {index remaining : ℕ}
  {selected selected' : Selection} {cells : List Cell} {c : Cell}

/-- A selected index and lane are those of a cell of the family. -/
structure Chosen (cells : List Cell) (current : Script) (p : ℕ × UInt8) (c : Cell) : Prop where
  cell : cells[p.1]? = some c
  lane : c.lane = p.2
  parent : c.parent = current.parent

/-- What has been selected after some of the cells. -/
structure Selects (cells : List Cell) (current : Script) (taken : List Cell)
    (selected : Selection) : Prop where
  chosen : Forall₂ (Chosen cells current) selected (taken.filter (·.inFamily current.family))
  increasing : selected.Pairwise fun p q ↦ p.2 < q.2
  length_le : selected.length ≤ maxSet

/-- The checks of a loaded script, on its parts. -/
theorem selectScript_eq (hcurrent : current.args.length = 73) :
    selectScript (filled scriptBytes current.bytes) index s.bytes.length
        (filled scriptBytes s.bytes) selected =
      if s.codeHash ≠ current.codeHash then .ok selected
      else if 53 + s.args.length < 93 ∨ field 0 8 (filled 73 s.args) ≠ setMagic then .error .args
      else if field 8 32 (filled 73 s.args) ≠ field 8 32 current.args then .ok selected
      else if 53 + s.args.length ≠ scriptBytes ∨ s.hashType ≠ 4 ∨
          (filled 73 s.args).drop 41 ≠ current.args.drop 41 ∨ (filled 73 s.args).getD 40 0 ≥ 4 then
        .error .args
      else if selected.length = maxSet ∨
          ∃ last ∈ selected.getLast?, (filled 73 s.args).getD 40 0 ≤ last.2 then .error .selection
      else .ok (selected ++ [(index, (filled 73 s.args).getD 40 0)]) := by
  rw [selectScript, field_codeHash, field_codeHash, length_bytes,
    show (61 : ℕ) = 53 + 8 from rfl, show (93 : ℕ) = 53 + 40 from rfl,
    show (94 : ℕ) = 53 + 41 from rfl, field_args, field_args, getD_args, drop_args, drop_args,
    show field 53 8 _ = _ from field_args (k := 0) s, filled_of_length_eq hcurrent, getD_hashType]

/-- What one cell adds to a selection. -/
def Chooses (current : Script) (c : Cell) (index : ℕ) (selected selected' : Selection) : Prop :=
  (c.inFamily current.family = false ∧ selected' = selected) ∨
    (c.inFamily current.family = true ∧ c.parent = current.parent ∧ selected.length ≠ maxSet ∧
      (∀ last ∈ selected.getLast?, last.2 < c.lane) ∧ selected' = selected ++ [(index, c.lane)])

theorem selectScript_ok (hcurrent : current.args.length = 73) (hc : c.type = some s)
    (h : selectScript (filled scriptBytes current.bytes) index s.bytes.length
      (filled scriptBytes s.bytes) selected = .ok selected') :
    Chooses current c index selected selected' := by
  have hfamily : c.inFamily current.family =
      decide (s.codeHash = current.codeHash ∧ field 8 32 s.args = field 8 32 current.args) := by
    rw [Cell.inFamily, hc]
    rfl
  rw [selectScript_eq hcurrent] at h
  split at h
  · next hcode =>
    refine .inl ⟨?_, (ok.inj h).symm⟩
    rw [hfamily]
    exact decide_eq_false fun hboth ↦ hcode hboth.1
  next hcode =>
  split at h
  · exact nomatch h
  next hmagic =>
  rw [field_filled (by omega) (by omega)] at h
  split at h
  · next hid =>
    refine .inl ⟨?_, (ok.inj h).symm⟩
    rw [hfamily]
    exact decide_eq_false fun hboth ↦ hid hboth.2
  next hid =>
  split at h
  · exact nomatch h
  next hshape =>
  split at h
  · exact nomatch h
  next hplace =>
  simp only [not_or, not_not] at hcode hid hshape hplace
  have hlength : s.args.length = 73 := by
    have := hshape.1
    rw [scriptBytes] at this
    omega
  rw [filled_of_length_eq hlength] at h hshape hplace
  have hlane : c.lane = s.args.getD 40 0 := by
    rw [Cell.lane, hc]
    rfl
  have hparent : c.parent = s.args.drop 41 := by
    rw [Cell.parent, hc]
    rfl
  refine .inr ⟨?_, hparent.trans hshape.2.2.1, hplace.1, fun last hlast ↦ ?_, ?_⟩
  · rw [hfamily]
    exact decide_eq_true ⟨hcode, hid⟩
  · rw [hlane]
    exact UInt8.not_le.1 fun hle ↦ hplace.2 ⟨last, hlast, hle⟩
  · rw [hlane]
    exact (ok.inj h).symm

theorem cell_ok (hc : (ctx.cells source)[index]? = some c) : ctx.cell index source = .ok c := by
  rw [cell, hc]

theorem cellExists_eq (index : ℕ) (source : Source) :
    ctx.cellExists index source = .ok (decide (index < (ctx.cells source).length)) := by
  rw [cellExists, loadCell, cell]
  cases hcell : (ctx.cells source)[index]? with
  | none =>
    rw [decide_eq_false (not_lt.2 (getElem?_eq_none_iff.1 hcell))]
    rfl
  | some c =>
    rw [decide_eq_true (List.getElem?_eq_some_iff.1 hcell).1]
    show (match load 0 c.bytes with | _ => _) = _
    by_cases hempty : c.bytes.length ≤ 0
    · rw [load]
    · rw [load]

theorem selectCell_ok (hcurrent : current.args.length = 73)
    (hc : (ctx.cells source)[index]? = some c)
    (h : ctx.selectCell (filled scriptBytes current.bytes) source index selected = .ok selected') :
    Chooses current c index selected selected' := by
  rw [selectCell, loadCellType, cell_ok hc] at h
  cases htype : c.type with
  | none =>
    simp only [htype] at h
    refine .inl ⟨?_, (ok.inj h).symm⟩
    rw [Cell.inFamily, htype]
    rfl
  | some s =>
    refine selectScript_ok hcurrent htype ?_
    simp only [htype, load] at h
    by_cases hroom : s.bytes.length ≤ scriptBytes
    · rwa [if_pos hroom] at h
    · rwa [if_neg hroom] at h

theorem Selects.next (hsel : Selects cells current (cells.take index) selected)
    (hc : cells[index]? = some c) (h : Chooses current c index selected selected') :
    Selects cells current (cells.take (index + 1)) selected' := by
  have htake : cells.take (index + 1) = cells.take index ++ [c] := by
    rw [take_add_one, hc, toList_some]
  rw [htake]
  rcases h with ⟨hnot, rfl⟩ | ⟨hin, hparent, hroom, hlast, rfl⟩
  · refine ⟨?_, hsel.increasing, hsel.length_le⟩
    rw [filter_append, filter_cons_of_neg (by simp [hnot]), filter_nil, append_nil]
    exact hsel.chosen
  · refine ⟨?_, ?_, ?_⟩
    · rw [filter_append, show [c].filter (·.inFamily current.family) = [c] from
        filter_cons_of_pos hin]
      exact rel_append hsel.chosen (.cons ⟨hc, rfl, hparent⟩ .nil)
    · rw [pairwise_append]
      refine ⟨hsel.increasing, pairwise_singleton _ _, fun p hp q hq ↦ ?_⟩
      obtain rfl := mem_singleton.1 hq
      -- the last lane is the largest so far
      rcases eq_nil_or_concat' selected with rfl | ⟨front, last, rfl⟩
      · exact absurd hp not_mem_nil
      have hlast' := hlast last (by rw [getLast?_concat]; rfl)
      rcases mem_append.1 hp with hp | hp
      · have hlt := (pairwise_append.1 hsel.increasing).2.2 p hp last (mem_singleton.2 rfl)
        exact UInt8.lt_trans hlt hlast'
      · rwa [mem_singleton.1 hp]
    · rw [length_append, length_singleton]
      have := hsel.length_le
      omega

/-- **A selection that succeeds has chosen the cells of the family**, in order. -/
theorem selectFrom_ok (hcurrent : current.args.length = 73)
    (hsel : Selects (ctx.cells source) current ((ctx.cells source).take index) selected)
    (hbound : (ctx.cells source).length ≤ index + remaining)
    (h : ctx.selectFrom (filled scriptBytes current.bytes) source remaining index selected =
      .ok selected') : Selects (ctx.cells source) current (ctx.cells source) selected' := by
  induction remaining generalizing index selected with
  | zero =>
    rw [take_of_length_le (show (ctx.cells source).length ≤ index from hbound)] at hsel
    exact ok.inj h ▸ hsel
  | succ remaining ih =>
    rw [selectFrom, cellExists_eq, ok_bind] at h
    by_cases hindex : index < (ctx.cells source).length
    · rw [decide_eq_true hindex] at h
      obtain ⟨next, hnext, h⟩ := bind_ok.1 h
      have hc := getElem?_eq_getElem hindex
      exact ih (hsel.next hc (selectCell_ok hcurrent hc hnext)) (by omega) h
    · rw [decide_eq_false hindex] at h
      rw [take_of_length_le (by omega)] at hsel
      exact ok.inj h ▸ hsel

theorem select_ok (hcurrent : current.args.length = 73)
    (hbound : (ctx.cells source).length ≤ maxCells)
    (h : ctx.select (filled scriptBytes current.bytes) source = .ok selected) :
    Selects (ctx.cells source) current (ctx.cells source) selected := by
  refine selectFrom_ok hcurrent ⟨?_, .nil, Nat.zero_le _⟩ (by rwa [Nat.zero_add]) h
  exact .nil

end Selection

/-! ### Accepted runs -/

section Runs

variable {ctx : Context} {source : Source} {index room i : ℕ} {inputs outputs : Selection}
  {ending : Ending} {c d : Cell} {script item : List UInt8} {p q : ℕ × UInt8}

theorem filled_of_load
    (h : (load room item).toOption = some room) : item.length = room ∧ filled room item = item := by
  rw [load] at h
  split at h
  · exact ⟨some.inj h, filled_of_length_eq (some.inj h)⟩
  · exact nomatch h

theorem state_ok {data : List UInt8} (hc : (ctx.cells source)[index]? = some c)
    (h : ctx.state index source = .ok data) : data = c.data := by
  rw [state, loadCellData, cell_ok hc] at h
  dsimp only at h
  split at h
  · exact nomatch h
  next hdata =>
  rw [not_or, not_not] at hdata
  rw [(filled_of_load hdata.1).2] at h
  exact (ok.inj h).symm

theorem checkCreated_ok (hc : ctx.tx.outputs[p.1]? = some c)
    (h : ctx.checkCreated (p, i) = .ok ()) : p.2 = UInt8.ofNat i ∧ c.counter = 0 := by
  rw [checkCreated] at h
  obtain ⟨hlane, h⟩ := guard_ok.1 h
  obtain ⟨data, hdata, h⟩ := bind_ok.1 h
  have hzero : data.drop 40 = replicate 8 0 := by
    by_contra hne
    rw [if_pos hne] at h
    exact nomatch h
  rw [state_ok (show (ctx.cells .output)[p.1]? = some c from hc) hdata] at hzero
  refine ⟨not_not.1 hlane, ?_⟩
  rw [Cell.counter, hzero, Bytes.ofLe_replicate_zero]

theorem mapErr_ok {α : Type} {e : Error} {x : Except SysError α} {a : α} (h : mapErr e x = .ok a) :
    x = .ok a := by
  cases x with
  | error e => exact nomatch h
  | ok b => exact congrArg Except.ok (ok.inj h)

theorem checkPair_ok (hc : ctx.tx.inputs[p.1]? = some c)
    (hd : ctx.tx.outputs[q.1]? = some d) (h : ctx.checkPair (p, q) = .ok ()) :
    (c.type.map fun s ↦ ctx.ckb.hash s.bytes) = (d.type.map fun s ↦ ctx.ckb.hash s.bytes) ∧
      c.ownerCommitment = d.ownerCommitment ∧
        ctx.ckb.hash c.lock.bytes = ctx.ckb.hash d.lock.bytes ∧ c.capacity = d.capacity := by
  have hin : (ctx.cells .input)[p.1]? = some c := hc
  have hout : (ctx.cells .output)[q.1]? = some d := hd
  rw [checkPair] at h
  simp only [loadCellTypeHash, loadCellLockHash, loadCellCapacity,
    cell_ok hin, cell_ok hout, ok_bind] at h
  obtain ⟨t, ht, h⟩ := bind_ok.1 h
  obtain ⟨t', ht', h⟩ := bind_ok.1 h
  obtain ⟨htype, h⟩ := guard_ok.1 h
  obtain ⟨x, hx, h⟩ := bind_ok.1 h
  obtain ⟨y, hy, h⟩ := bind_ok.1 h
  obtain ⟨howner, h⟩ := guard_ok.1 h
  obtain ⟨l, hl, h⟩ := bind_ok.1 h
  obtain ⟨l', hl', h⟩ := bind_ok.1 h
  obtain ⟨hlock, h⟩ := guard_ok.1 h
  obtain ⟨k, hk, h⟩ := bind_ok.1 h
  obtain ⟨k', hk', h⟩ := bind_ok.1 h
  have hcapacity : k = k' := by
    by_contra hne
    rw [if_pos hne] at h
    exact nomatch h
  rw [state_ok hin hx, state_ok hout hy] at howner
  rw [← pure_ok.1 (mapErr_ok ht), ← pure_ok.1 (mapErr_ok ht')] at htype
  rw [← pure_ok.1 (mapErr_ok hl), ← pure_ok.1 (mapErr_ok hl')] at hlock
  rw [← pure_ok.1 (mapErr_ok hk), ← pure_ok.1 (mapErr_ok hk')] at hcapacity
  exact ⟨not_not.1 htype, not_not.1 howner, not_not.1 hlock, hcapacity⟩

theorem loadScript_ok (h : ctx.loadScript = .ok script) :
    ctx.script.args.length = 73 ∧ script = filled scriptBytes ctx.script.bytes := by
  rw [loadScript] at h
  split at h
  · exact nomatch h
  next hscript =>
  rw [not_or, not_not, load, length_bytes] at hscript
  refine ⟨?_, (ok.inj h).symm⟩
  have hload := hscript.1
  split at hload
  · have hlength : 53 + ctx.script.args.length = 126 := some.inj hload
    omega
  · exact nomatch hload

theorem checkBound_ok (h : ctx.checkBound source = .ok ()) :
    (ctx.cells source).length ≤ maxCells := by
  rw [checkBound, cellExists_eq] at h
  by_contra hlt
  rw [decide_eq_true (not_le.1 hlt)] at h
  exact nomatch h

/-- A run that raises no error has selected the cells of its family on both sides. -/
theorem validate_ok (h : ctx.validate = .ok ending) :
    ctx.script.args.length = 73 ∧ ∃ inputs outputs,
      Selects ctx.tx.inputs ctx.script ctx.tx.inputs inputs ∧
      Selects ctx.tx.outputs ctx.script ctx.tx.outputs outputs ∧ outputs ≠ [] ∧
      ((inputs = [] ∧
          ctx.checkCreation (filled scriptBytes ctx.script.bytes) outputs = .ok ending) ∨
        (inputs ≠ [] ∧ ctx.checkTransition (filled scriptBytes ctx.script.bytes) inputs outputs =
          .ok ending)) := by
  obtain ⟨hbound, h⟩ := check_ok.1 h
  rw [forM_ok_iff] at hbound
  obtain ⟨-, h⟩ := check_ok.1 h
  obtain ⟨script, hscript, h⟩ := bind_ok.1 h
  obtain ⟨hargs, rfl⟩ := loadScript_ok hscript
  obtain ⟨inputs, hin, h⟩ := bind_ok.1 h
  obtain ⟨outputs, hout, h⟩ := bind_ok.1 h
  obtain ⟨-, h⟩ := check_ok.1 h
  obtain ⟨hne, h⟩ := guard_ok.1 h
  refine ⟨hargs, inputs, outputs, select_ok hargs (checkBound_ok (hbound .input (by simp))) hin,
    select_ok hargs (checkBound_ok (hbound .output (by simp))) hout, hne, ?_⟩
  split at h
  · next hnil => exact .inl ⟨hnil, h⟩
  · next hnil => exact .inr ⟨hnil, h⟩

theorem checkCreation_ok (h : ctx.checkCreation script outputs = .ok ending) :
    (∀ (i : ℕ) p, outputs[i]? = some p → ctx.checkCreated (p, i) = .ok ()) ∧
      (script.getD 93 0 = 0 → ctx.ckb.typeId ctx.tx ctx.script (field 61 32 script) = true) := by
  rw [checkCreation, cellExists_eq, ok_bind] at h
  obtain ⟨-, h⟩ := guard_ok.1 h
  obtain ⟨hall, h⟩ := check_ok.1 h
  obtain ⟨htypeId, -⟩ := guard_ok.1 h
  rw [forM_ok_iff] at hall
  refine ⟨fun i p hp ↦ hall _ (mem_zipIdx_iff_getElem?.2 hp), fun hlane ↦ ?_⟩
  by_contra hfalse
  exact htypeId ⟨hlane, by simpa using hfalse⟩

theorem checkTransition_ok (h : ctx.checkTransition script inputs outputs = .ok ending) :
    inputs.map (·.2) = outputs.map (·.2) ∧
      ∀ pair ∈ inputs.zip outputs, ctx.checkPair pair = .ok () := by
  rw [checkTransition, cellExists_eq, ok_bind] at h
  obtain ⟨-, h⟩ := guard_ok.1 h
  obtain ⟨hlanes, h⟩ := guard_ok.1 h
  obtain ⟨hall, -⟩ := check_ok.1 h
  rw [not_or, not_not, not_not] at hlanes
  exact ⟨hlanes.2, forM_ok_iff.1 hall⟩

/-- The errors are no success. -/
theorem validate_of_entry_eq_zero (h : ctx.entry = 0) : ∃ ending, ctx.validate = .ok ending := by
  rw [entry] at h
  cases hvalidate : ctx.validate with
  | ok ending => exact ⟨ending, rfl⟩
  | error e =>
    rw [hvalidate] at h
    have hcode : ∀ e : Error, e.code ≠ 0 := by
      intro e
      cases e <;> decide
    exact absurd h (hcode e)

end Runs

/-! ### Transactions -/

/-- What a transaction does to the lanes of a family: each side has a lane at most once, and all
cells have one parent. A transaction without an input of the family creates the first lanes, with
counters at zero and a checked Type ID; another one replaces each lane by itself. -/
structure Keeps (ckb : Ckb) (f : Family) (tx : Transaction) : Prop where
  nodup_inputs : ((familyInputs f tx).map Cell.lane).Nodup
  nodup_outputs : ((familyOutputs f tx).map Cell.lane).Nodup
  parent : ∃ parent, ∀ c ∈ familyInputs f tx ++ familyOutputs f tx, c.parent = parent
  creates : familyInputs f tx = [] →
    (∃ n, 1 ≤ n ∧ n ≤ 4 ∧ (familyOutputs f tx).map Cell.lane = (List.range n).map UInt8.ofNat) ∧
      (∀ c ∈ familyOutputs f tx, c.counter = 0) ∧
      ∃ c ∈ familyOutputs f tx, c.lane = 0 ∧ ∃ s ∈ c.type, ckb.typeId tx s f.id = true
  continues : familyInputs f tx ≠ [] →
    (familyInputs f tx).map ckb.kept = (familyOutputs f tx).map ckb.kept
  locks : familyInputs f tx ≠ [] → Injective ckb.hash →
    (familyInputs f tx).map Cell.lock = (familyOutputs f tx).map Cell.lock

section Transactions

variable {ckb : Ckb} {f : Family} {tx : Transaction} {cells : List Cell} {current s t : Script}
  {selected outputs : Selection} {c : Cell} {script : List UInt8} {ending : Ending} {ctx : Context}

theorem script_eq (hcode : s.codeHash = t.codeHash) (htype : s.hashType = t.hashType)
    (hargs : s.args = t.args) : s = t := by
  obtain ⟨codeHash, hashType, args, hs⟩ := s
  obtain ⟨codeHash', hashType', args', ht⟩ := t
  obtain rfl : codeHash = codeHash' := hcode
  obtain rfl : hashType = hashType' := htype
  obtain rfl : args = args' := hargs
  rfl

theorem Script.bytes_injective : Injective Script.bytes := by
  intro s t h
  have hcode : s.codeHash = t.codeHash := by rw [← field_codeHash s, h, field_codeHash]
  have hboth : s.header.flatten = t.header.flatten ∧ s.args = t.args :=
    append_inj h (by rw [length_header, length_header])
  have htype : s.hashType = t.hashType := by
    have hfield := field_hashType s
    rw [hboth.1, field_hashType t] at hfield
    exact (singleton_inj.1 hfield).symm
  exact script_eq hcode htype hboth.2

namespace Selects

variable (h : Selects cells current cells selected)
include h

theorem map_lane :
    (cells.filter (·.inFamily current.family)).map Cell.lane = selected.map (·.2) := by
  rw [← forall₂_eq_eq_eq, forall₂_map_left_iff, forall₂_map_right_iff]
  exact (h.chosen.imp fun _ _ hchosen ↦ hchosen.lane).flip

theorem nodup : ((cells.filter (·.inFamily current.family)).map Cell.lane).Nodup := by
  rw [h.map_lane]
  refine (pairwise_map.2 h.increasing).imp fun hlt heq ↦ ?_
  rw [heq] at hlt
  exact UInt8.lt_irrefl _ hlt

theorem nil_iff : selected = [] ↔ cells.filter (·.inFamily current.family) = [] := by
  rw [← length_eq_zero_iff, h.chosen.length_eq, length_eq_zero_iff]

theorem parent (hc : c ∈ cells.filter (·.inFamily current.family)) : c.parent = current.parent := by
  obtain ⟨p, -, hchosen⟩ := Association.exists_of_forall₂ h.chosen.flip hc
  exact hchosen.parent

end Selects

/-- A family with a cell in an accepted transaction has a run of its own. -/
theorem exists_run (haccepted : Accepted ckb f tx)
    (hc : c ∈ familyInputs f tx ++ familyOutputs f tx) :
    ∃ s ∈ c.type, s.family = f ∧ ∃ ending, Context.validate ⟨ckb, tx, s⟩ = .ok ending := by
  have hmem : c ∈ tx.inputs ++ tx.outputs ∧ c.inFamily f = true := by
    rw [familyInputs, familyOutputs, ← filter_append] at hc
    exact mem_filter.1 hc
  cases hs : c.type with
  | none =>
    rw [Cell.inFamily, hs] at hmem
    exact nomatch hmem.2
  | some s =>
    refine ⟨s, rfl, ?_, validate_of_entry_eq_zero (haccepted c hmem.1 hmem.2 s hs)⟩
    rw [Cell.inFamily, hs] at hmem
    obtain ⟨hcode, hid⟩ := of_decide_eq_true hmem.2
    rw [Script.family, hcode, hid]

/-- A creation makes the first lanes, with their counters at zero. -/
theorem created_of_checkCreation (hsel : Selects ctx.tx.outputs ctx.script ctx.tx.outputs outputs)
    (h : ctx.checkCreation script outputs = .ok ending) :
    (ctx.tx.outputs.filter (·.inFamily ctx.script.family)).map Cell.lane =
        (List.range outputs.length).map UInt8.ofNat ∧
      ∀ c ∈ ctx.tx.outputs.filter (·.inFamily ctx.script.family), c.counter = 0 := by
  have hcreated := (checkCreation_ok h).1
  have hplace : ∀ (i : ℕ) p, outputs[i]? = some p → ∃ c, Chosen ctx.tx.outputs ctx.script p c := by
    intro i p hp
    obtain ⟨c, -, hchosen⟩ := Association.exists_of_forall₂ hsel.chosen (mem_of_getElem? hp)
    exact ⟨c, hchosen⟩
  constructor
  · rw [hsel.map_lane]
    refine ext_getElem? fun i ↦ ?_
    rw [getElem?_map, getElem?_map]
    cases hp : outputs[i]? with
    | none =>
      rw [getElem?_eq_none (by rw [length_range]; exact getElem?_eq_none_iff.1 hp)]
      rfl
    | some p =>
      obtain ⟨c, hchosen⟩ := hplace i p hp
      rw [List.getElem?_range (List.getElem?_eq_some_iff.1 hp).1, map_some, map_some,
        (checkCreated_ok hchosen.cell (hcreated i p hp)).1]
  · intro c hc
    obtain ⟨p, hp, hchosen⟩ := Association.exists_of_forall₂ hsel.chosen.flip hc
    obtain ⟨i, hi⟩ := mem_iff_getElem?.1 hp
    exact (checkCreated_ok hchosen.cell (hcreated i p hi)).2

/-- A transition replaces each lane by itself. -/
theorem kept_of_checkTransition {inputs : Selection}
    (hin : Selects ctx.tx.inputs ctx.script ctx.tx.inputs inputs)
    (hout : Selects ctx.tx.outputs ctx.script ctx.tx.outputs outputs)
    (h : ctx.checkTransition script inputs outputs = .ok ending) :
    Forall₂ (fun c d ↦ ctx.ckb.kept c = ctx.ckb.kept d)
      (ctx.tx.inputs.filter (·.inFamily ctx.script.family))
      (ctx.tx.outputs.filter (·.inFamily ctx.script.family)) := by
  obtain ⟨hlanes, hpairs⟩ := checkTransition_ok h
  rw [← forall₂_eq_eq_eq, forall₂_map_left_iff, forall₂_map_right_iff] at hlanes
  have hchecked : Forall₂ (fun p q ↦ p.2 = q.2 ∧ ctx.checkPair (p, q) = .ok ()) inputs outputs :=
    forall₂_iff_zip.2 ⟨hlanes.length_eq, fun hpq ↦
      ⟨(forall₂_iff_zip.1 hlanes).2 hpq, hpairs _ hpq⟩⟩
  refine Association.forall₂_of_forall₂ hchecked hin.chosen hout.chosen ?_
  rintro p q c d ⟨hlane, hpair⟩ hc hd
  obtain ⟨htype, howner, hlock, hcapacity⟩ := checkPair_ok hc.cell hd.cell hpair
  rw [Ckb.kept, Ckb.kept, hc.lane, hd.lane, hlane, hc.parent, hd.parent, htype, howner, hlock,
    hcapacity]

/-- The run of lane 0 of a creation checks the identifier of the family. -/
theorem typeId_of_lane_eq_zero (haccepted : Accepted ckb f tx) (hempty : familyInputs f tx = [])
    (hc : c ∈ familyOutputs f tx) (hlane : c.lane = 0) :
    ∃ s ∈ c.type, ckb.typeId tx s f.id = true := by
  obtain ⟨s, hs, rfl, ending, hvalidate⟩ := exists_run haccepted (mem_append_right _ hc)
  obtain ⟨hargs, inputs, outputs, hin, hout, hne, hend⟩ := validate_ok hvalidate
  rcases hend with ⟨-, hend⟩ | ⟨hsome, -⟩
  · refine ⟨s, hs, ?_⟩
    have hcheck := (checkCreation_ok hend).2
    rw [show (93 : ℕ) = 53 + 40 from rfl, show (61 : ℕ) = 53 + 8 from rfl, getD_args, field_args,
      filled_of_length_eq hargs] at hcheck
    refine hcheck ?_
    rwa [Cell.lane, mem_def.1 hs] at hlane
  · exact absurd (hin.nil_iff.2 hempty) hsome

theorem keeps_of_accepted (haccepted : Accepted ckb f tx)
    (hmember : ∃ c ∈ tx.inputs ++ tx.outputs, c.inFamily f) : Keeps ckb f tx := by
  obtain ⟨c, hc, hfamily⟩ := hmember
  have hc : c ∈ familyInputs f tx ++ familyOutputs f tx := by
    rw [familyInputs, familyOutputs, ← filter_append]
    exact mem_filter.2 ⟨hc, hfamily⟩
  obtain ⟨s, -, rfl, ending, hvalidate⟩ := exists_run haccepted hc
  obtain ⟨hargs, inputs, outputs, hin, hout, hne, hend⟩ := validate_ok hvalidate
  have hnil : inputs = [] ↔ familyInputs s.family tx = [] := hin.nil_iff
  have hkept : familyInputs s.family tx ≠ [] →
      Forall₂ (fun c d ↦ ckb.kept c = ckb.kept d) (familyInputs s.family tx)
        (familyOutputs s.family tx) := by
    intro hsome
    rcases hend with ⟨hempty, -⟩ | ⟨-, hend⟩
    · exact absurd (hnil.1 hempty) hsome
    · exact kept_of_checkTransition hin hout hend
  refine ⟨hin.nodup, hout.nodup, ⟨s.parent, fun d hd ↦ ?_⟩, fun hempty ↦ ?_, fun hsome ↦ ?_,
    fun hsome hinjective ↦ ?_⟩
  · rcases mem_append.1 hd with hd | hd
    · exact hin.parent hd
    · exact hout.parent hd
  · rcases hend with ⟨-, hend⟩ | ⟨hsome, -⟩
    · obtain ⟨hlanes, hcounter⟩ := created_of_checkCreation hout hend
      have hpos := length_pos_of_ne_nil hne
      refine ⟨⟨outputs.length, hpos, hout.length_le, hlanes⟩, hcounter, ?_⟩
      have hhead : ∃ d ∈ familyOutputs s.family tx, d.lane = 0 := by
        have hzero : (0 : UInt8) ∈ (familyOutputs s.family tx).map Cell.lane := by
          rw [show (familyOutputs s.family tx).map Cell.lane = _ from hlanes]
          exact mem_map.2 ⟨0, mem_range.2 hpos, rfl⟩
        exact mem_map.1 hzero
      obtain ⟨d, hd, hlane⟩ := hhead
      exact ⟨d, hd, hlane, typeId_of_lane_eq_zero haccepted hempty hd hlane⟩
    · exact absurd (hnil.2 hempty) hsome
  · rw [← forall₂_eq_eq_eq, forall₂_map_left_iff, forall₂_map_right_iff]
    exact hkept hsome
  · rw [← forall₂_eq_eq_eq, forall₂_map_left_iff, forall₂_map_right_iff]
    refine (hkept hsome).imp fun c d hcd ↦ ?_
    exact Script.bytes_injective (hinjective (congrArg Kept.lockHash hcd))

end Transactions

/-! ### The ledger -/

/-- What the live cells of a family keep. -/
def profile (ckb : Ckb) (f : Family) (ledger : Multiset Cell) : Multiset Kept :=
  (ledger.filter (·.inFamily f)).map ckb.kept

/-- An accepted transaction spends live cells and adds its outputs. The check of a Type ID is
assumed to establish that the identifier is fresh. -/
structure Applies (ckb : Ckb) (f : Family) (tx : Transaction) (ledger ledger' : Multiset Cell) :
    Prop where
  accepted : Accepted ckb f tx
  spends : ∃ rest, ledger = rest + tx.inputs ∧ ledger' = rest + tx.outputs
  fresh : ∀ s, ckb.typeId tx s f.id = true → ∀ c ∈ ledger, c.inFamily f = false

/-- Any number of transactions. -/
def Run (ckb : Ckb) (f : Family) : Multiset Cell → Multiset Cell → Prop :=
  ReflTransGen fun ledger ledger' ↦ ∃ tx, Applies ckb f tx ledger ledger'

namespace Sample

/-- Libraries whose checks succeed. A Type ID is made where nothing is spent. -/
def ckb : Ckb where
  hash := id
  dataHash := id
  typeId tx _ _ := tx.inputs.isEmpty
  exec _ _ _ := some 0

def family : Family := ⟨replicate 32 7, replicate 32 5⟩

def script (lane : UInt8) : Script where
  codeHash := family.codeHash
  hashType := 4
  args := setMagic ++ family.id ++ [lane] ++ replicate 32 9
  length_codeHash := length_replicate

def lock : Script := ⟨replicate 32 1, 1, [], length_replicate⟩

/-- A lane of the family. -/
def cell (lane counter : UInt8) : Cell where
  capacity := 1000
  lock := lock
  type := some (script lane)
  data := counterMagic ++ replicate 32 2 ++ counter :: replicate 7 0

/-- Two lanes are made. -/
def creation : Transaction := ⟨[], [], [cell 0 0, cell 1 0], []⟩

/-- Both are increased, and the parent program is at hand. -/
def transition : Transaction :=
  ⟨[], creation.outputs, [cell 0 1, cell 1 1], [⟨1000, lock, none, replicate 32 9⟩]⟩

end Sample

section Ledger

variable {ckb : Ckb} {f : Family} {tx : Transaction} {ledger ledger' : Multiset Cell}

theorem profile_eq_zero_iff : profile ckb f ledger = 0 ↔ ∀ c ∈ ledger, c.inFamily f = false := by
  rw [profile, Multiset.map_eq_zero, Multiset.filter_eq_nil]
  simp only [not_eq_true]

theorem profile_add (a : Multiset Cell) (cells : List Cell) :
    profile ckb f (a + cells) = profile ckb f a + ((cells.filter (·.inFamily f)).map ckb.kept) := by
  rw [profile, Multiset.filter_add, Multiset.map_add, Multiset.filter_coe, Multiset.map_coe]
  simp only [Bool.decide_eq_true, profile]

/-- A transaction keeps what the live lanes keep, or makes the first lanes of the family. -/
theorem Applies.profile_eq (h : Applies ckb f tx ledger ledger') :
    profile ckb f ledger' = profile ckb f ledger ∨
      profile ckb f ledger = 0 ∧ ∃ n ≤ 4,
        (profile ckb f ledger').map Kept.lane = ((List.range n).map UInt8.ofNat : List UInt8) := by
  obtain ⟨rest, rfl, rfl⟩ := h.spends
  by_cases hmember : ∃ c ∈ tx.inputs ++ tx.outputs, c.inFamily f
  · have hkeeps := keeps_of_accepted h.accepted hmember
    by_cases hempty : familyInputs f tx = []
    · right
      obtain ⟨⟨n, -, hn, hlanes⟩, -, c, -, -, s, -, htypeId⟩ := hkeeps.creates hempty
      have hrest : profile ckb f rest = 0 := profile_eq_zero_iff.2 fun c hc ↦
        h.fresh s htypeId c (Multiset.mem_add.2 (.inl hc))
      refine ⟨profile_eq_zero_iff.2 (h.fresh s htypeId), n, hn, ?_⟩
      rw [profile_add, hrest, zero_add, Multiset.map_coe, map_map]
      exact congrArg _ hlanes
    · left
      rw [profile_add, profile_add]
      exact congrArg (fun kept : List Kept ↦ profile ckb f rest + kept)
        (hkeeps.continues hempty).symm
  · left
    have hnone : ∀ cells : List Cell, (∀ c ∈ cells, c ∈ tx.inputs ++ tx.outputs) →
        cells.filter (·.inFamily f) = [] := fun cells hsub ↦
      filter_eq_nil_iff.2 fun c hc hfamily ↦ hmember ⟨c, hsub c hc, hfamily⟩
    rw [profile_add, profile_add, hnone _ fun c ↦ mem_append_left _,
      hnone _ fun c ↦ mem_append_right _]

/-- Once a family is there, what its lanes keep stays the same. -/
theorem Run.profile_eq (h : Run ckb f ledger ledger') (hne : profile ckb f ledger ≠ 0) :
    profile ckb f ledger' = profile ckb f ledger := by
  induction h with
  | refl => rfl
  | tail _ hstep ih =>
    obtain ⟨tx, hstep⟩ := hstep
    rcases hstep.profile_eq with heq | ⟨hzero, -⟩
    · exact heq.trans ih
    · exact absurd (ih ▸ hzero) hne

/-- The live lanes of a family are the first ones, each once. -/
theorem Run.lanes (h : Run ckb f ledger ledger') (hnone : profile ckb f ledger = 0) :
    ∃ n ≤ 4, (profile ckb f ledger').map Kept.lane =
      ((List.range n).map UInt8.ofNat : List UInt8) := by
  induction h with
  | refl => exact ⟨0, Nat.zero_le _, by rw [hnone]; rfl⟩
  | tail _ hstep ih =>
    obtain ⟨tx, hstep⟩ := hstep
    rcases hstep.profile_eq with heq | ⟨-, hlanes⟩
    · rwa [heq]
    · exact hlanes

/-- **The counter set keeps its lanes**: in every transaction whose groups of the family are
accepted, and along every run of the ledger. -/
theorem family_keeps_lanes (ckb : Ckb) (f : Family) :
    (∀ tx, (∃ c ∈ tx.inputs ++ tx.outputs, c.inFamily f) → Accepted ckb f tx → Keeps ckb f tx) ∧
      ∀ ledger ledger', Run ckb f ledger ledger' →
        (profile ckb f ledger ≠ 0 → profile ckb f ledger' = profile ckb f ledger) ∧
        (profile ckb f ledger = 0 → ∃ n ≤ 4, (profile ckb f ledger').map Kept.lane =
          ((List.range n).map UInt8.ofNat : List UInt8)) :=
  ⟨fun _ hmember haccepted ↦ keeps_of_accepted haccepted hmember,
    fun _ _ hrun ↦ ⟨hrun.profile_eq, hrun.lanes⟩⟩

end Ledger

open Sample

/-- A family of two lanes is made, and both are increased. -/
theorem family_keeps_lanes_transition :
    Keeps ckb family creation ∧ Keeps ckb family transition ∧
      profile ckb family transition.outputs = profile ckb family creation.outputs ∧
      ∃ n ≤ 4, (profile ckb family transition.outputs).map Kept.lane =
        ((List.range n).map UInt8.ofNat : List UInt8) := by
  have hcreation : Accepted ckb family creation := by
    unfold Accepted
    decide +kernel
  have htransition : Accepted ckb family transition := by
    unfold Accepted
    decide +kernel
  have hfirst : Run ckb family 0 creation.outputs :=
    .single ⟨creation, hcreation, ⟨0, rfl, rfl⟩, fun _ _ c hc ↦ absurd hc (Multiset.notMem_zero c)⟩
  have hsecond : Run ckb family creation.outputs transition.outputs :=
    .single ⟨transition, htransition, ⟨0, (zero_add _).symm, (zero_add _).symm⟩,
      fun _ htypeId ↦ nomatch htypeId⟩
  have hmain := family_keeps_lanes ckb family
  refine ⟨hmain.1 _ ⟨cell 0 0, mem_cons_self, by decide⟩ hcreation,
    hmain.1 _ ⟨cell 0 0, mem_cons_self, by decide⟩ htransition, (hmain.2 _ _ hsecond).1 ?_,
    (hmain.2 _ _ (hfirst.trans hsecond)).2 rfl⟩
  rw [Ne, profile_eq_zero_iff]
  exact fun hnone ↦ nomatch hnone (cell 0 0) (Multiset.mem_coe.2 mem_cons_self)

end CellScript.CounterSet
