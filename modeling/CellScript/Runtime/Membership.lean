import CellScript.Runtime.Frame
import CellScript.Runtime.Transaction

/-!
# Membership in the group of the running script

The helper `__cellscript_require_cell_membership`. It is called with the source, the index and the
script hash field of a cell, and reports whether the cell has the hash of the running script in that
field, and in that field only. It works in a frame of 96 bytes of its own: the size of an item, the
two hashes, and its three arguments.
-/

namespace CellScript.Runtime.Membership

open Assembler (Instruction)
open BitVec (ofNat)
open MachineState
open Blocks BitVec

/-! ### The code -/

inductive RuntimeError
  | exactSizeMismatch
  | scriptRoleMismatch

def RuntimeError.code : RuntimeError → ℕ
  | exactSizeMismatch => 4
  | scriptRoleMismatch => 47

/-- The loading of a script hash of the cell, of the other one by a change of the field. -/
def loadHash (opposite : Bool) : List Instruction :=
  [.li t0 32, .sd t0 sp 0, .addi a0 sp 40, .addi a1 sp 0, .li a2 0, .ld a3 sp 80, .ld a4 sp 72,
   .ld a5 sp 88] ++ ((if opposite then [.xori a5 a5 6] else []) ++ [.li a7 2081, .ecall])

/-- The difference of the two hashes, in `t2`. -/
def compareHashes : List Instruction :=
  [.ld t0 sp 0, .li t1 32, .bne t0 t1 "membership_hash_malformed",
   .ld t0 sp 8, .ld t1 sp 40, .xor t2 t0 t1,
   .ld t0 sp 16, .ld t1 sp 48, .xor t0 t0 t1, .or t2 t2 t0,
   .ld t0 sp 24, .ld t1 sp 56, .xor t0 t0 t1, .or t2 t2 t0,
   .ld t0 sp 32, .ld t1 sp 64, .xor t0 t0 t1, .or t2 t2 t0]

/-- The frame, the arguments and the hash of the running script. -/
def prologue : List Instruction :=
  [.addi sp sp (-96), .sd a0 sp 72, .sd a1 sp 80, .sd a2 sp 88, .li t0 32, .sd t0 sp 0,
   .addi a0 sp 8, .addi a1 sp 0, .li a2 0, .li a7 2062, .ecall, .bnez a0 "membership_role_failed",
   .ld t0 sp 0, .li t1 32, .bne t0 t1 "membership_hash_malformed"]

/-- A cell without the other script is a member by its lock. -/
def oppositeMissing : List Instruction :=
  [.beqz a0 "membership_opposite_loaded", .ld t0 sp 88, .li t1 3,
    .bne t0 t1 "membership_role_failed",
   .li t0 2, .beq a0 t0 "membership_valid", .jump "membership_role_failed"]

/-- The code of `emit_runtime_cell_membership`. -/
def requireCellMembership : Program :=
  [⟨"__cellscript_require_cell_membership",
    prologue ++ (loadHash false ++ (.bnez a0 "membership_role_failed" ::
      (compareHashes ++ (.bnez t2 "membership_role_failed" ::
        (loadHash true ++ oppositeMissing)))))⟩,
   ⟨"membership_opposite_loaded", compareHashes ++ [.beqz t2 "membership_role_failed"]⟩,
   ⟨"membership_valid", [.li a0 0, .jump "membership_done"]⟩,
   ⟨"membership_hash_malformed",
    [.li a0 RuntimeError.exactSizeMismatch.code, .jump "membership_done"]⟩,
   ⟨"membership_role_failed", [.li a0 RuntimeError.scriptRoleMismatch.code]⟩,
   ⟨"membership_done", [.addi sp sp 96, .ret]⟩]

/-! ### What it decides -/

/-- The hash of a script of a cell. -/
def hashOf (c : Cell) : ScriptKind → Option (List UInt8)
  | .lock => some c.lockHash
  | .type => c.typeHash

def opposite : ScriptKind → ScriptKind
  | .lock => .type
  | .type => .lock

/-- The number of the field that holds the hash. -/
def field : ScriptKind → ℕ
  | .lock => 3
  | .type => 5

/-- The running script is the given script of the cell, and not the other one. -/
def isMember (tx : Transaction) (kind : ScriptKind) (c : Cell) : Bool :=
  hashOf c kind = some tx.scriptHash ∧ hashOf c (opposite kind) ≠ some tx.scriptHash

/-- What the helper reports. -/
def status (tx : Transaction) (kind : ScriptKind) (source : Source) (index : ℕ) : Word :=
  if (tx.cells source)[index]?.any (isMember tx kind) then 0#64 else 47#64

/-- The registers that the helper uses. -/
def membershipRegs : List Reg := [sp, t0, t1, t2, a0, a1, a2, a3, a4, a5, a7]

variable {kind : ScriptKind} {c : Cell}

theorem isMember_iff {tx : Transaction} : isMember tx kind c ↔
    hashOf c kind = some tx.scriptHash ∧ hashOf c (opposite kind) ≠ some tx.scriptHash :=
  decide_eq_true_iff

theorem length_hashOf {h : List UInt8} (hc : hashOf c kind = some h) : h.length = 32 := by
  cases kind with
  | lock =>
    obtain rfl := some.inj hc
    exact c.length_lockHash
  | type => exact c.length_typeHash h hc

theorem requested_hash (tx : Transaction) (source : Source) {index : ℕ} (kind : ScriptKind)
    (h : index < 2 ^ 64) :
    requested tx loadCellByField (ofNat 64 index) source.word (ofNat 64 (field kind)) =
      some (match (tx.cells source)[index]? with
        | some c => optionalItem (hashOf c kind)
        | none => .error indexOutOfBound) := by
  rw [requested_loadCellByField, toNat_ofNat, mod_eq_of_lt h]
  cases (tx.cells source)[index]? with
  | none => rfl
  | some c => cases kind <;> rfl

/-! ### Comparing hashes -/

variable {b : Word}

section Words

variable {m m' : Memory} {a a' : Word}

theorem load_eq_load_iff : load m a 8 = load m' a' 8 ↔ read m a 8 = read m' a' 8 := by
  have hlt : ∀ (m : Memory) (a : Word), Bytes.ofLe (read m a 8) < 2 ^ 64 := fun m a ↦
    (Bytes.ofLe_lt _).trans_eq (by rw [length_read]; rfl)
  constructor
  · intro h
    have hnat := congrArg BitVec.toNat h
    rw [load, load, toNat_ofNat, toNat_ofNat, mod_eq_of_lt (hlt m a),
      mod_eq_of_lt (hlt m' a')] at hnat
    have hle := congrArg (Bytes.le 8) hnat
    have hback : ∀ (m : Memory) (a : Word), Bytes.le 8 (Bytes.ofLe (read m a 8)) = read m a 8 :=
      fun m a ↦ by simpa using Bytes.le_ofLe (read m a 8)
    rwa [hback, hback] at hle
  · intro h
    rw [load, load, h]

/-- The difference of two hashes in memory. -/
def difference (m : Memory) (b : Word) (j k : ℕ) : Word :=
  (load m (b + ofNat 64 j) 8 ^^^ load m (b + ofNat 64 k) 8)
    ||| (load m (b + ofNat 64 (j + 8)) 8 ^^^ load m (b + ofNat 64 (k + 8)) 8)
    ||| (load m (b + ofNat 64 (j + 16)) 8 ^^^ load m (b + ofNat 64 (k + 16)) 8)
    ||| (load m (b + ofNat 64 (j + 24)) 8 ^^^ load m (b + ofNat 64 (k + 24)) 8)

theorem read_thirty_two (j : ℕ) : read m (b + ofNat 64 j) 32 =
    read m (b + ofNat 64 j) 8 ++ (read m (b + ofNat 64 (j + 8)) 8 ++
      (read m (b + ofNat 64 (j + 16)) 8 ++ read m (b + ofNat 64 (j + 24)) 8)) := by
  rw [show 32 = 8 + (8 + (8 + 8)) from rfl, read_add, read_add, read_add]

/-- **The words differ nowhere if and only if the hashes are equal.** -/
theorem difference_eq_zero_iff {j k : ℕ} : difference m b j k = 0#64 ↔
    read m (b + ofNat 64 j) 32 = read m (b + ofNat 64 k) 32 := by
  rw [difference, or_eq_zero_iff, or_eq_zero_iff, or_eq_zero_iff, xor_eq_zero_iff, xor_eq_zero_iff,
    xor_eq_zero_iff, xor_eq_zero_iff, load_eq_load_iff, load_eq_load_iff, load_eq_load_iff,
    load_eq_load_iff, read_thirty_two, read_thirty_two]
  constructor
  · rintro ⟨⟨⟨h₁, h₂⟩, h₃⟩, h₄⟩
    rw [h₁, h₂, h₃, h₄]
  · intro h
    obtain ⟨h₁, h⟩ := append_inj h (by simp)
    obtain ⟨h₂, h⟩ := append_inj h (by simp)
    obtain ⟨h₃, h₄⟩ := append_inj h (by simp)
    exact ⟨⟨⟨h₁, h₂⟩, h₃⟩, h₄⟩

end Words

/-! ### The frame -/

variable {env : Environment} {helpers : String → Option Program} {s s₁ : State} {kind : ScriptKind}
  {source : Source} {index : ℕ}

section Frame

variable {C : Code (machine env.surroundings helpers)} {rest : List Instruction}
  {fall : Option String} {s₂ : State} {kind' : ScriptKind}

/-- The frame at an address, as it is after the hash of the running script has been loaded: since
the start, the memory has changed in the frame only. -/
structure Framed (tx : Transaction) (kind : ScriptKind) (source : Source) (index : ℕ) (b : Word)
    (s s₁ : State) : Prop where
  base : s₁.get sp = b
  source : load s₁.mem (b + 72#64) 8 = source.word
  index : load s₁.mem (b + 80#64) 8 = ofNat 64 index
  field : load s₁.mem (b + 88#64) 8 = ofNat 64 (field kind)
  hash : read s₁.mem (b + 8#64) 32 = tx.scriptHash
  regs : Keeps membershipRegs s s₁
  agree : Agree b 96 (2 ^ 64) s.mem s₁.mem

theorem runs_prologue (hb : s.get sp + 18446744073709551520#64 = b) (ha0 : s.get a0 = source.word)
    (ha1 : s.get a1 = ofNat 64 index) (ha2 : s.get a2 = ofNat 64 (field kind))
    (h : ∀ s₁, Framed env.tx kind source index b s s₁ → C.Runs rest fall s₁) :
    C.Runs (prologue ++ rest) fall s := by
  simp (disch := decide) only [prologue, runs_rules, BitVec.reduceOfInt, act, set_rules,
    State.get_setMem, State.mem_setMem, hb, ha0, ha1, ha2]
  refine follows_delivered (b := b) 8 0 32 0 env.tx.scriptHash ?_ (by decide)
    (by decide) ?_ ?_ ?_ ?_ fun s₁ hs₁ ↦ ?_
  · simp (disch := decide) only [get_set_self]
    rfl
  · simp (disch := decide) only [set_rules]
  · simp (disch := decide) only [set_rules]
  · simp (disch := decide) only [set_rules]
  · simp only [mem_set, State.mem_setMem]
    exact load_store_self
  have hstatus : s₁.get a0 = 0#64 := by
    rw [hs₁.status, drop_zero, env.tx.length_scriptHash]
    rfl
  have hbase : s₁.get sp = b := by
    rw [hs₁.regs.get sp]
    simp (disch := decide) only [set_rules, State.get_setMem]
  have htotal : load s₁.mem (b + 0#64) 8 = 32#64 := by
    have := hs₁.total
    rwa [drop_zero, env.tx.length_scriptHash] at this
  simp (disch := decide) only [runs_rules, act, set_rules, hstatus, hbase, htotal,
    bne_self_eq_false, false_eq_true, if_false]
  have hargs := hs₁.agree 72 96 (by decide) (by decide) (by decide)
  have hout := hs₁.agree 96 (2 ^ 64) (by decide) (by decide) (by decide)
  simp only [mem_set, State.mem_setMem] at hargs hout
  refine h _ ⟨?_, ?_, ?_, ?_, ?_, ?_, ?_⟩
  · simp (disch := decide) only [get_set_of_ne, hbase]
  · refine (hargs.load (j := 72)).trans ?_
    simp (disch := decide) only [load_store_of_disjoint, load_store_self]
  · refine (hargs.load (j := 80)).trans ?_
    simp (disch := decide) only [load_store_of_disjoint, load_store_self]
  · refine (hargs.load (j := 88)).trans ?_
    simp (disch := decide) only [load_store_of_disjoint, load_store_self]
  · have := hs₁.bytes
    rwa [drop_zero, take_of_length_le env.tx.length_scriptHash.le, env.tx.length_scriptHash] at this
  · refine Keeps.set (Keeps.set ?_ (by decide)) (by decide)
    exact Keeps.trans (by simp [membershipRegs]) hs₁.regs
  · refine Agree.trans ?_ hout
    iterate 4 refine Agree.store ?_
    exact .refl

/-- What lies in the size and in the second hash may change. -/
theorem Framed.of_agree (hs₁ : Framed env.tx kind source index b s s₁)
    (hregs : Keeps [t0, t1, t2, a0, a1, a2, a3, a4, a5, a7] s₁ s₂)
    (hhash : Agree b 8 40 s₁.mem s₂.mem) (hargs : Agree b 72 (2 ^ 64) s₁.mem s₂.mem) :
    Framed env.tx kind source index b s s₂ where
  base := (hregs.get sp).trans hs₁.base
  source := (hargs.load (j := 72)).trans hs₁.source
  index := (hargs.load (j := 80)).trans hs₁.index
  field := (hargs.load (j := 88)).trans hs₁.field
  hash := (hhash.read (j := 8)).trans hs₁.hash
  regs := hs₁.regs.trans hregs
  agree := hs₁.agree.trans hargs

/-- A state in which a hash of the cell is asked for. -/
structure Asks (kind : ScriptKind) (source : Source) (index : ℕ) (b : Word) (s₁ s₂ : State) :
    Prop where
  regs : Keeps [t0, a0, a1, a2, a3, a4, a5, a7] s₁ s₂
  mem : s₂.mem = store s₁.mem (b + 0#64) 8 32#64
  buffer : s₂.get a0 = b + 40#64
  size : s₂.get a1 = b + 0#64
  offset : s₂.get a2 = 0#64
  index : s₂.get a3 = ofNat 64 index
  source : s₂.get a4 = source.word
  field : s₂.get a5 = ofNat 64 (field kind)
  number : s₂.get a7 = loadCellByField

theorem runs_asks (opp : Bool) (hkind : kind' = if opp then opposite kind else kind)
    (hs₁ : Framed env.tx kind source index b s s₁)
    (h : ∀ s₂, Asks kind' source index b s₁ s₂ → C.Runs (.ecall :: rest) fall s₂) :
    C.Runs (loadHash opp ++ rest) fall s₁ := by
  subst hkind
  obtain ⟨hbase, hsource, hindex, hfield, -, -, -⟩ := hs₁
  have hload : ∀ j, 8 ≤ j → j + 8 ≤ 2 ^ 64 →
      load (store s₁.mem (b + 0#64) 8 32#64) (b + ofNat 64 j) 8 = load s₁.mem (b + ofNat 64 j) 8 :=
    fun j hj hj' ↦ load_store_of_disjoint (.inr hj) hj' (by decide)
  cases opp <;>
    simp (disch := decide) only [loadHash, runs_rules, act, set_rules, State.get_setMem,
      State.mem_setMem, hbase, hload, hsource, hindex, hfield, false_eq_true, if_false, if_true] <;>
    refine runs_cons.1 (h _ ⟨by simp, rfl, ?_, ?_, ?_, ?_, ?_, ?_, rfl⟩) <;>
    simp (disch := decide) only [set_rules]
  · rfl
  · cases kind <;> rfl

/-- The call, by what it finds. -/
theorem follows_asked (hindex : index < 2 ^ 64) (hs₁ : Framed env.tx kind source index b s s₁)
    (hs₂ : Asks kind' source index b s₁ s₂)
    (hfound : ∀ c hash s₃, (env.tx.cells source)[index]? = some c → hashOf c kind' = some hash →
      Framed env.tx kind source index b s s₃ → s₃.get a0 = 0#64 →
      load s₃.mem (b + 0#64) 8 = 32#64 → read s₃.mem (b + 40#64) 32 = hash →
      C.Runs rest fall s₃)
    (hmissing : ∀ s₃, (env.tx.cells source)[index]?.bind (hashOf · kind') = none →
      Framed env.tx kind source index b s s₃ →
      s₃.get a0 = (if (env.tx.cells source)[index]?.isSome then itemMissing else indexOutOfBound) →
      C.Runs rest fall s₃) : C.Runs (.ecall :: rest) fall s₂ := by
  have hregs : Keeps [t0, t1, t2, a0, a1, a2, a3, a4, a5, a7] s₁ s₂ := hs₂.regs.mono
  have hhash : Agree b 8 40 s₁.mem s₂.mem := hs₂.mem ▸ Agree.refl.store
  have hargs : Agree b 72 (2 ^ 64) s₁.mem s₂.mem := hs₂.mem ▸ Agree.refl.store
  have hrequested := requested_hash env.tx source kind' hindex
  rw [runs_cons, act]
  cases hc : (env.tx.cells source)[index]?.bind (hashOf · kind') with
  | some hash =>
    obtain ⟨c, hcell, hhashOf⟩ := bind_eq_some_iff.1 hc
    have hlength := length_hashOf hhashOf
    simp only [hcell, hhashOf] at hrequested
    refine follows_delivered (b := b) 40 0 32 0 hash ?_ (by decide) (by decide) hs₂.buffer hs₂.size
      hs₂.offset ?_ fun s₃ hs₃ ↦ hfound c hash s₃ hcell hhashOf ?_ ?_ ?_ ?_
    · rw [hs₂.number, hs₂.index, hs₂.source, hs₂.field]
      exact hrequested
    · rw [hs₂.mem]
      exact load_store_self
    · exact hs₁.of_agree (hregs.trans hs₃.regs)
        (hhash.trans (hs₃.agree 8 40 (by decide) (by decide) (by decide)))
        (hargs.trans (hs₃.agree 72 (2 ^ 64) (by decide) (by decide) (by decide)))
    · rw [hs₃.status, drop_zero, hlength]
      rfl
    · have := hs₃.total
      rwa [drop_zero, hlength] at this
    · have := hs₃.bytes
      rwa [drop_zero, take_of_length_le hlength.le, hlength] at this
  | none =>
    have hstatus : requested env.tx loadCellByField (ofNat 64 index) source.word
        (ofNat 64 (field kind')) = some (.error
          (if (env.tx.cells source)[index]?.isSome then itemMissing else indexOutOfBound)) := by
      rw [hrequested]
      cases hcell : (env.tx.cells source)[index]? with
      | none => rfl
      | some c =>
        rw [hcell] at hc
        simp only [show hashOf c kind' = none from hc]
        rfl
    rw [follows_missing _ (by rw [hs₂.number, hs₂.index, hs₂.source, hs₂.field]; exact hstatus)]
    refine hmissing _ hc (hs₁.of_agree hregs.set hhash hargs) ?_
    exact get_set_self

theorem runs_compareHashes {hash : List UInt8} (hs₂ : Framed env.tx kind source index b s s₂)
    (hsize : load s₂.mem (b + 0#64) 8 = 32#64) (hhash : read s₂.mem (b + 40#64) 32 = hash)
    (h : ∀ s₃, Framed env.tx kind source index b s s₃ →
      (s₃.get t2 = 0#64 ↔ env.tx.scriptHash = hash) →
      C.Runs rest fall s₃) : C.Runs (compareHashes ++ rest) fall s₂ := by
  simp (disch := decide) only [compareHashes, runs_rules, act, set_rules, hs₂.base, hsize,
    bne_self_eq_false, false_eq_true, if_false]
  refine h _ (hs₂.of_agree ?_ .refl .refl) ?_
  · simp
  · rw [← hs₂.hash, ← hhash]
    exact difference_eq_zero_iff (j := 8) (k := 40)

end Frame

/-! ### The helper -/

section Helper

variable {link : Word}

/-- What the helper leaves behind. -/
structure Reported (tx : Transaction) (kind : ScriptKind) (source : Source) (index : ℕ)
    (s s' : State) : Prop where
  status : s'.get a0 = status tx kind source index
  regs : Keeps [t0, t1, t2, a0, a1, a2, a3, a4, a5, a7] s s'
  agree : Agree (s.get sp + 18446744073709551520#64) 96 (2 ^ 64) s.mem s'.mem

/-- The code of the helper, with what it is to leave behind. -/
abbrev reporting (env : Environment) (helpers : String → Option Program) (kind : ScriptKind)
    (source : Source) (index : ℕ) (s : State) : Code (machine env.surroundings helpers) :=
  ⟨requireCellMembership, s.get ra, Reported env.tx kind source index s⟩

variable (hs₁ : Framed env.tx kind source index (s.get sp + 18446744073709551520#64) s s₁)

include hs₁

theorem runsAt_done (ha0 : s₁.get a0 = status env.tx kind source index) :
    (reporting env helpers kind source index s).RunsAt "membership_done" s₁ := by
  rw [runsAt_iff (show requireCellMembership.at? "membership_done" = some (_, none) from rfl)]
  simp (disch := decide) only [runs_rules, act, follows_ret, get_set_of_ne, hs₁.base]
  refine ⟨hs₁.regs.get ra, ?_, ?_, hs₁.agree⟩
  · rw [get_set_of_ne, ha0]
  · intro r hr
    by_cases hsp : r = sp
    · subst hsp
      rw [add_assoc]
      exact add_zero _
    · rw [get_set_of_ne hsp]
      exact hs₁.regs r (List.not_mem_cons_of_ne_of_not_mem hsp hr)

theorem runsAt_failed (hstatus : ¬ (env.tx.cells source)[index]?.any (isMember env.tx kind)) :
    (reporting env helpers kind source index s).RunsAt "membership_role_failed" s₁ := by
  rw [runsAt_iff (show requireCellMembership.at? "membership_role_failed"
    = some (_, some "membership_done") from rfl), runs_cons, act, follows_next]
  refine runsAt_done (hs₁.of_agree Keeps.refl.set .refl .refl) ?_
  rw [status, if_neg hstatus]
  rfl

theorem runsAt_valid (hstatus : (env.tx.cells source)[index]?.any (isMember env.tx kind)) :
    (reporting env helpers kind source index s).RunsAt "membership_valid" s₁ := by
  rw [runsAt_report (show requireCellMembership.at? "membership_valid"
    = some (_, some "membership_hash_malformed") from rfl)]
  refine runsAt_done (hs₁.of_agree Keeps.refl.set .refl .refl) ?_
  rw [status, if_pos hstatus]
  rfl

/-- The second half: the cell has the hash in the field that was asked for. -/
theorem runs_opposite {fall : Option String} (hindex : index < 2 ^ 64)
    (hcell : (env.tx.cells source)[index]? = some c)
    (hhash : hashOf c kind = some env.tx.scriptHash) :
    (reporting env helpers kind source index s).Runs
    (loadHash true ++ oppositeMissing) fall s₁ := by
  have hmember : (env.tx.cells source)[index]?.any (isMember env.tx kind) ↔
      hashOf c (opposite kind) ≠ some env.tx.scriptHash := by
    rw [hcell, any_some, isMember_iff]
    exact and_iff_right hhash
  refine runs_asks true rfl hs₁ fun s₂ hs₂ ↦ follows_asked hindex hs₁ hs₂ ?_ ?_
  · intro c' hash s₃ hcell' hhash' hs₃ hzero hsize hread
    obtain rfl := mem_unique hcell hcell'
    rw [oppositeMissing, runs_cons, act, hzero]
    refine (runsAt_iff (show requireCellMembership.at? "membership_opposite_loaded"
      = some (_, some "membership_valid") from rfl)).2 ?_
    refine runs_compareHashes hs₃ hsize hread fun s₄ hs₄ hequal ↦ ?_
    rw [runs_cons, act, follows_branch]
    refine ite_branch (fun hsame ↦ ?_) fun hdiffer ↦ ?_
    · rw [beq_iff_eq, hequal] at hsame
      refine runsAt_failed hs₄ fun h ↦ hmember.1 h ?_
      exact hhash'.trans (congrArg some hsame.symm)
    · rw [beq_eq_false_iff_ne, ne_eq, hequal] at hdiffer
      refine runsAt_valid hs₄ (hmember.2 fun h ↦ hdiffer ?_)
      exact mem_unique h hhash'
  · intro s₃ hnone hs₃ hstatus
    rw [hcell] at hnone hstatus
    -- only a type script can be missing
    obtain rfl : kind = .lock := by
      cases kind with
      | lock => rfl
      | type => cases hnone
    have hfield : load s₃.mem (s.get sp + 18446744073709551520#64 + 88#64) 8 = 3#64 := hs₃.field
    simp (disch := decide) only [oppositeMissing, runs_rules, act, set_rules, hs₃.base, hfield,
      hstatus, Option.isSome_some, if_true, bne_self_eq_false, false_eq_true, if_false]
    refine runsAt_valid (hs₃.of_agree ?_ .refl .refl) (hmember.2 fun h ↦ ?_)
    · simp
    · cases (show hashOf c (opposite .lock) = none from hnone).symm.trans h

omit hs₁ in
/-- **The helper reports whether the cell is a member.** -/
theorem requireCellMembership_spec (hindex : index < 2 ^ 64) (ha0 : s.get a0 = source.word)
    (ha1 : s.get a1 = ofNat 64 index) (ha2 : s.get a2 = ofNat 64 (field kind)) :
    (reporting env helpers kind source index s).RunsAt "__cellscript_require_cell_membership"
    s := by
  rw [runsAt_iff (show requireCellMembership.at? "__cellscript_require_cell_membership"
    = some (_, some "membership_opposite_loaded") from rfl)]
  refine runs_prologue rfl ha0 ha1 ha2 fun s₁ hs₁ ↦ ?_
  refine runs_asks false rfl hs₁ fun s₂ hs₂ ↦ follows_asked hindex hs₁ hs₂ ?_ ?_
  · intro c hash s₃ hcell hhash hs₃ hzero hsize hread
    rw [runs_cons, act, hzero]
    refine runs_compareHashes hs₃ hsize hread fun s₄ hs₄ hequal ↦ ?_
    rw [runs_cons, act, follows_branch]
    refine ite_branch (fun hdiffer ↦ ?_) fun hsame ↦ ?_
    · rw [bne_iff_ne, ne_eq, hequal] at hdiffer
      refine runsAt_failed hs₄ ?_
      rw [hcell, any_some, isMember_iff]
      exact fun h ↦ hdiffer (mem_unique h.1 hhash)
    · rw [bne_eq_false_iff_eq, hequal] at hsame
      exact runs_opposite hs₄ hindex hcell (hsame ▸ hhash)
  · intro s₃ hnone hs₃ hstatus
    have hne : s₃.get a0 ≠ 0#64 := by
      rw [hstatus]
      split <;> decide
    rw [runs_cons, act, follows_branch, if_pos (bne_iff_ne.2 hne)]
    refine runsAt_failed hs₃ fun h ↦ ?_
    cases hcell : (env.tx.cells source)[index]? with
    | none =>
      rw [hcell] at h
      cases h
    | some c =>
      rw [hcell, any_some, isMember_iff] at h
      rw [hcell] at hnone
      cases (show hashOf c kind = none from hnone).symm.trans h.1

end Helper

end CellScript.Runtime.Membership
