import CellScript.Checker.Record
import CellScript.Checker.Tables
import CellScript.Library.Association

/-!
# Raw transactions

The strict views of `code_origin/molecule.rs` on the bytes of a transaction: scripts, cells and the
transaction itself, over the parser of tables and vectors. They check the structure of the bytes,
and nothing about live cells.
-/

namespace CellScript.Checker.CodeOrigin

open Bytes (le ofLe field)
open Nested Molecule

/-! ### Views -/

def maxCells : ℕ := 256

def maxDeps : ℕ := 64

structure Script where
  bytes : List UInt8
  codeHash : List UInt8
  hashType : UInt8
  args : List UInt8
  deriving DecidableEq, Repr

structure Cell where
  capacity : ℕ
  lock : Script
  typeScript : Option Script
  deriving DecidableEq, Repr

structure Transaction where
  cells : List Cell
  data : List (List UInt8)
  inputs : List UInt8
  deps : List UInt8
  deriving DecidableEq, Repr

/-- The consecutive pieces of a width, without what is left over at the end. -/
def chunksExact (width : ℕ) (bytes : List UInt8) : List (List UInt8) :=
  (List.range (bytes.length / width)).map fun i ↦ field (width * i) width bytes

/-! ### Parsing -/

def script (bytes : List UInt8) : Except Error Script := do
  if bytes.length > 4096 then
    throw ⟨"Script exceeds 4096-byte finite profile"⟩
  let values ← fields bytes 3
  let codeHash := values.getD 0 []
  let hashType := values.getD 1 []
  if codeHash.length ≠ 32 ∨ hashType.length ≠ 1 ∨
    hashType.getD 0 0 ∉ ([0, 1, 2, 4] : List UInt8) then
    throw ⟨"Script code hash/hash type is invalid or unsupported"⟩
  return ⟨bytes, codeHash, hashType.getD 0 0, ← fixed (values.getD 2 []) 1 4096⟩

/-- The type of a cell, if it has one. -/
def optionalScript (bytes : List UInt8) : Except Error (Option Script) :=
  if bytes = [] then .ok none else return some (← script bytes)

def cell (bytes : List UInt8) : Except Error Cell := do
  let values ← fields bytes 3
  let capacity := values.getD 0 []
  if capacity.length ≠ 8 then
    throw ⟨"CellOutput capacity width differs"⟩
  let lock ← script (values.getD 1 [])
  return ⟨ofLe capacity, lock, ← optionalScript (values.getD 2 [])⟩

def transaction (bytes : List UInt8) : Except Error Transaction := do
  let values ← fields bytes 6
  if values.getD 0 [] ≠ le 4 0 then
    throw ⟨"only transaction version zero belongs to this profile"⟩
  let deps ← fixed (values.getD 1 []) 37 maxDeps
  if (∃ dep ∈ chunksExact 37 deps, dep.getD 36 0 ∉ ([0, 1] : List UInt8)) ∨
      ¬ ((chunksExact 37 deps).map (·.take 36)).Nodup then
    throw ⟨"duplicate or unsupported raw CellDep"⟩
  let headers ← fixed (values.getD 2 []) 32 maxDeps
  if ¬ (chunksExact 32 headers).Nodup then
    throw ⟨"duplicate header dependency"⟩
  let inputs ← fixed (values.getD 3 []) 44 maxCells
  if ¬ ((chunksExact 44 inputs).map (·.drop 8)).Nodup then
    throw ⟨"duplicate input OutPoint"⟩
  let cells ← (← dynamic (values.getD 4 []) maxCells).mapM cell
  let data ← (← dynamic (values.getD 5 []) maxCells).mapM (fixed · 1 (4 * 1024 * 1024))
  if cells.length ≠ data.length then
    throw ⟨"output and output-data cardinalities differ"⟩
  return ⟨cells, data, inputs, deps⟩

section Parsing

variable {bytes : List UInt8} {s : Script} {c : Cell} {tx : Transaction}

/-- A script keeps the bytes it was parsed from. -/
theorem bytes_of_script (h : script bytes = .ok s) : s.bytes = bytes := by
  rw [script] at h
  obtain ⟨-, h⟩ := guard_ok.1 h
  obtain ⟨values, -, h⟩ := bind_ok.1 h
  obtain ⟨-, h⟩ := guard_ok.1 h
  obtain ⟨args, -, h⟩ := bind_ok.1 h
  rw [← pure_ok.1 h]

/-- **An accepted script is canonical.** -/
theorem eq_table_of_script (h : script bytes = .ok s) :
    s.codeHash.length = 32 ∧
      bytes = table [s.codeHash, [s.hashType], byteVector s.args] := by
  rw [script] at h
  obtain ⟨-, h⟩ := guard_ok.1 h
  obtain ⟨values, hvalues, h⟩ := bind_ok.1 h
  obtain ⟨hwidths, h⟩ := guard_ok.1 h
  obtain ⟨args, hargs, h⟩ := bind_ok.1 h
  obtain ⟨hlength, hbytes, -⟩ := (fields_ok_iff_table (by decide)).1 hvalues
  obtain ⟨codeHash, hashType, encoded, rfl⟩ := List.length_eq_three.1 hlength
  obtain ⟨-, -, hencoded⟩ := fixed_one_ok_iff.1 hargs
  simp only [List.getD_cons_zero, List.getD_cons_succ] at hwidths hencoded h
  rw [not_or, not_or, not_not, not_not] at hwidths
  obtain ⟨tag, rfl⟩ := List.length_eq_one_iff.1 hwidths.2.1
  rw [← pure_ok.1 h, hbytes, hencoded]
  exact ⟨hwidths.1, rfl⟩

/-- The scripts of a cell come from the parser. -/
theorem scripts_of_cell (h : cell bytes = .ok c) :
    script c.lock.bytes = .ok c.lock ∧ ∀ s, c.typeScript = some s → script s.bytes = .ok s := by
  obtain ⟨values, -, h⟩ := bind_ok.1 h
  obtain ⟨-, h⟩ := guard_ok.1 h
  obtain ⟨lock, hlock, h⟩ := bind_ok.1 h
  obtain ⟨type, htype, h⟩ := bind_ok.1 h
  obtain rfl := pure_ok.1 h
  refine ⟨by rwa [bytes_of_script hlock], fun s hs ↦ ?_⟩
  obtain rfl : type = some s := hs
  rw [optionalScript] at htype
  split at htype
  · exact nomatch htype
  · obtain ⟨s', hs', hsome⟩ := bind_ok.1 htype
    obtain rfl := some.inj (pure_ok.1 hsome)
    rwa [bytes_of_script hs']

theorem script_of_cell (h : cell bytes = .ok c) (hs : c.typeScript = some s) :
    script s.bytes = .ok s :=
  (scripts_of_cell h).2 s hs

/-- What the parser has established about a transaction. -/
theorem parts_of_transaction (h : transaction bytes = .ok tx) :
    (∀ c ∈ tx.cells, ∃ bytes, cell bytes = .ok c) ∧ tx.cells.length = tx.data.length ∧
      tx.deps.length / 37 ≤ maxDeps := by
  obtain ⟨values, -, h⟩ := bind_ok.1 h
  obtain ⟨-, h⟩ := guard_ok.1 h
  obtain ⟨deps, hdeps, h⟩ := bind_ok.1 h
  obtain ⟨-, h⟩ := guard_ok.1 h
  obtain ⟨headers, -, h⟩ := bind_ok.1 h
  obtain ⟨-, h⟩ := guard_ok.1 h
  obtain ⟨inputs, -, h⟩ := bind_ok.1 h
  obtain ⟨-, h⟩ := guard_ok.1 h
  obtain ⟨items, -, h⟩ := bind_ok.1 h
  obtain ⟨cells, hcells, h⟩ := bind_ok.1 h
  obtain ⟨dataItems, -, h⟩ := bind_ok.1 h
  obtain ⟨data, -, h⟩ := bind_ok.1 h
  obtain ⟨hlength, h⟩ := guard_ok.1 h
  obtain ⟨count, hcount, -, hwidth, -⟩ := fixed_ok_iff.1 hdeps
  obtain rfl := pure_ok.1 h
  refine ⟨fun c hc ↦ ?_, not_not.1 hlength, ?_⟩
  · obtain ⟨item, -, hitem⟩ :=
      Association.exists_of_forall₂ (Except.mapM_ok_iff.1 hcells).flip hc
    exact ⟨item, hitem⟩
  · show deps.length / 37 ≤ maxDeps
    rw [hwidth, Nat.mul_div_cancel _ (by decide)]
    exact hcount

theorem exists_cell_of_transaction (h : transaction bytes = .ok tx) (hc : c ∈ tx.cells) :
    ∃ bytes, cell bytes = .ok c :=
  (parts_of_transaction h).1 c hc

end Parsing

/-! ### Errors of the checker -/

def invalid (message : String) : CheckerError :=
  ⟨.v2420TypedMachineBindingInvalid, "code Cell origin: " ++ message⟩

/-- A rejection of the parser is one of the checker. -/
def parsed {α : Type} (x : Except Error α) : Except CheckerError α :=
  x.mapError fun e ↦ invalid e.message

theorem parsed_ok_iff {α : Type} {x : Except Error α} {a : α} : parsed x = .ok a ↔ x = .ok a :=
  mapError_ok_iff

end CellScript.Checker.CodeOrigin
