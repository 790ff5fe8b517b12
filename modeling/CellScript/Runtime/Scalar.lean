import CellScript.Runtime.Machine

/-!
# Numbers in unaligned bytes

The generator reads a little-endian number byte by byte, since its address need not be aligned:
each byte is shifted to its place and joined to what there is. Two functions of the source emit such
code, for numbers of any width (`emit_unaligned_scalar_load`) and for four bytes.
-/

namespace CellScript.Runtime

open Assembler (Instruction)
open BitVec (ofNat)
open Bytes (ofLe)
open MachineState
open Blocks

/-- A byte of memory joins the number in a register. -/
def joinByte (dest base scratch : Reg) (offset k : ℕ) : List Instruction :=
  [.lbu scratch base (offset + k : ℕ), .slli scratch scratch (8 * k : ℕ), .or dest dest scratch]

/-- The code of `emit_unaligned_scalar_load`. -/
def unalignedScalarLoad (base dest scratch : Reg) (offset width : ℕ) : List Instruction :=
  .li dest 0 :: (List.range width).flatMap fun k ↦
    if k = 0 then [.lbu scratch base (offset + k : ℕ), .or dest dest scratch]
    else joinByte dest base scratch offset k

/-- The code of `emit_u32_le_from_base_to`. -/
def u32LeFromBaseTo (dest base : Reg) (offset : ℕ) (scratch : Reg) : List Instruction :=
  .lbu dest base offset :: (joinByte dest base scratch offset 1 ++
    (joinByte dest base scratch offset 2 ++ joinByte dest base scratch offset 3))

section

variable {e : Surroundings} {helpers : String → Option Program} {C : Code (machine e helpers)}
  {rest : List Instruction} {fall : Option String} {s s' : State} {dest base scratch : Reg}
  {offset k x y n : ℕ}

/-- A shifted byte fills the bits above the number. -/
theorem ofNat_or_shiftLeft (hx : x < 2 ^ k) :
    ofNat 64 x ||| ofNat 64 y <<< k = ofNat 64 (x + 2 ^ k * y) := by
  rw [ofNat_shiftLeft, add_comm, Nat.two_pow_add_eq_or_of_lt hx, Nat.lor_comm, BitVec.ofNat_or]

/-- The number in one more byte. -/
theorem load_or_byte {m : Memory} {a : Word} :
    load m a k ||| load m (a + ofNat 64 k) 1 <<< (8 * k) = load m a (k + 1) := by
  have hlt := Bytes.ofLe_lt (MachineState.read m a k)
  rw [length_read, show 256 = 2 ^ 8 from rfl, ← Nat.pow_mul] at hlt
  rw [load_one, load, ofNat_or_shiftLeft hlt, load, read_succ_last, Bytes.ofLe_append, length_read,
    show 256 = 2 ^ 8 from rfl, ← Nat.pow_mul, Bytes.ofLe_cons, Bytes.ofLe_nil,
    Nat.add_zero]

/-- The registers of a load are different ones. -/
structure Separate (dest base scratch : Reg) : Prop where
  dest_ne_zero : dest ≠ 0#5
  scratch_ne_zero : scratch ≠ 0#5
  dest_ne_scratch : dest ≠ scratch
  base_ne_dest : base ≠ dest
  base_ne_scratch : base ≠ scratch

instance (dest base scratch : Reg) : Decidable (Separate dest base scratch) :=
  decidable_of_iff (dest ≠ 0#5 ∧ scratch ≠ 0#5 ∧ dest ≠ scratch ∧ base ≠ dest ∧ base ≠ scratch)
    ⟨fun ⟨h₁, h₂, h₃, h₄, h₅⟩ ↦ ⟨h₁, h₂, h₃, h₄, h₅⟩, fun ⟨h₁, h₂, h₃, h₄, h₅⟩ ↦
      ⟨h₁, h₂, h₃, h₄, h₅⟩⟩

/-- The state after `k` bytes of a number have been loaded. -/
structure Loaded (dest base scratch : Reg) (offset k : ℕ) (s s' : State) : Prop where
  value : s'.get dest = load s.mem (s.get base + ofNat 64 offset) k
  regs : Keeps [dest, scratch] s s'
  mem : s'.mem = s.mem

variable (hsep : Separate dest base scratch)

include hsep

theorem Loaded.base_eq (h : Loaded dest base scratch offset k s s') : s'.get base = s.get base :=
  h.regs base (by simp [hsep.base_ne_dest, hsep.base_ne_scratch])

/-- One more byte is joined. -/
theorem runs_joinByte (h : Loaded dest base scratch offset k s s')
    (hrun : ∀ s'', Loaded dest base scratch offset (k + 1) s s'' → C.Runs rest fall s'') :
    C.Runs (joinByte dest base scratch offset k ++ rest) fall s' := by
  obtain ⟨hdest, hscratch, hne, hbd, hbs⟩ := hsep
  simp (disch := assumption) only [joinByte, runs_rules, act, set_rules, Int.toNat_natCast]
  refine hrun _ ⟨?_, ?_, h.mem⟩
  · rw [get_set_self hdest, h.value, h.base_eq ⟨hdest, hscratch, hne, hbd, hbs⟩, h.mem,
      ← add_ofNat_add_ofNat, load_or_byte]
  · exact ((h.regs.set (by simp)).set (by simp)).set (by simp)

/-- The bytes of a number from the `k`th on are joined one after the other. -/
theorem runs_joinBytes (h : Loaded dest base scratch offset k s s')
    (hrun : ∀ s'', Loaded dest base scratch offset (k + n) s s'' → C.Runs rest fall s'') :
    C.Runs ((List.range' k n).flatMap (fun k ↦
      if k = 0 then [.lbu scratch base (offset + k : ℕ), .or dest dest scratch]
      else joinByte dest base scratch offset k) ++ rest) fall s' := by
  induction n generalizing k s' with
  | zero => exact hrun s' h
  | succ n ih =>
    rw [List.range'_succ, flatMap_cons]
    have hnext : ∀ s'', Loaded dest base scratch offset (k + 1) s s'' →
        C.Runs ((List.range' (k + 1) n).flatMap (fun k ↦
          if k = 0 then [.lbu scratch base (offset + k : ℕ), .or dest dest scratch]
          else joinByte dest base scratch offset k) ++ rest) fall s'' :=
      fun s'' hs'' ↦ ih hs'' fun s₃ h₃ ↦ hrun s₃ (by rwa [Nat.add_succ, ← Nat.succ_add])
    split
    · next hzero =>
      -- the first byte needs no shift
      subst hzero
      obtain ⟨hdest, hscratch, hne, hbd, hbs⟩ := hsep
      simp (disch := assumption) only [runs_rules, act, set_rules]
      refine hnext _ ⟨?_, (h.regs.set (by simp)).set (by simp), h.mem⟩
      rw [get_set_self hdest, h.value, h.base_eq ⟨hdest, hscratch, hne, hbd, hbs⟩, h.mem,
        ← add_ofNat_add_ofNat, ← BitVec.shiftLeft_zero (load _ (_ + ofNat 64 0) 1)]
      exact load_or_byte (k := 0)
    · exact runs_joinByte hsep h hnext

/-- The same, after the first byte. -/
theorem runs_joinBytes_one (h : Loaded dest base scratch offset 1 s s')
    (hrun : ∀ s'', Loaded dest base scratch offset (1 + n) s s'' → C.Runs rest fall s'') :
    C.Runs ((List.range' 1 n).flatMap (joinByte dest base scratch offset) ++ rest) fall s' := by
  have hcode := runs_joinBytes hsep h hrun
  rwa [List.flatMap_congr fun k hk ↦ if_neg (by have := List.mem_range'_1.1 hk; omega)] at hcode

/-- **A number of any width is loaded.** -/
theorem runs_unalignedScalarLoad {width : ℕ}
    (hrun : ∀ s', Loaded dest base scratch offset width s s' → C.Runs rest fall s') :
    C.Runs (unalignedScalarLoad base dest scratch offset width ++ rest) fall s := by
  rw [unalignedScalarLoad, List.range_eq_range', cons_append, runs_cons, act]
  refine runs_joinBytes hsep ⟨(get_set_self hsep.dest_ne_zero).trans (load_zero _).symm,
    Keeps.refl.set (by simp), rfl⟩ fun s' hs' ↦ hrun s' ?_
  rwa [zero_add] at hs'

/-- **Four bytes are loaded**, and the last one is left in the scratch register. -/
theorem runs_u32 :
    C.Runs (u32LeFromBaseTo dest base offset scratch ++ rest) fall s ↔
      C.Runs rest fall ((s.set scratch
        (load s.mem (s.get base + ofNat 64 (offset + 3)) 1 <<< 24)).set
        dest (load s.mem (s.get base + ofNat 64 offset) 4)) := by
  obtain ⟨hdest, hscratch, hne, hbd, hbs⟩ := hsep
  simp (disch := first | assumption | exact hne.symm) only [u32LeFromBaseTo, joinByte, runs_rules,
    act,
    set_rules, Int.toNat_natCast, State.set_set, State.set_set_set, ← add_ofNat_add_ofNat _ offset]
  rw [load_or_byte (k := 1), load_or_byte (k := 2), load_or_byte (k := 3)]

omit hsep

end

end CellScript.Runtime
