import CellScript.Runtime.Scalar
import CellScript.Runtime.SourceView

/-!
# The exact-read cache

A read of one, four or eight bytes of cell data or of a witness goes through a cache in the frame of
the function that makes it. The cache has four entries, each with a window of up to 256 bytes; an
entry is replaced in turn. A module with many reads also keeps a copy of the entry that was used
last in registers, the *hot* entry.

The code is that of `emit_runtime_exact_byte_word_helper` and `emit_runtime_exact_read_cached`.
-/

namespace CellScript.Runtime.ExactRead

open Assembler (Instruction)
open BitVec (ofNat)
open Bytes (ofLe field)
open MachineState
open Blocks

/-! ### What is read -/

/-- What a read is from. -/
inductive ByteSource
  | cellData
  | witness
  | cellLock
  | cellType
  deriving DecidableEq

namespace ByteSource

def kind : ByteSource → ℕ
  | cellData => 0
  | witness => 1
  | cellLock => 2
  | cellType => 3

def word (k : ByteSource) : Word := BitVec.ofNat 64 k.kind

/-- The number of the system call that reads it. -/
def number : ByteSource → Word
  | cellData => loadCellData
  | witness => loadWitness
  | cellLock | cellType => loadCellByField

theorem word_injective : Injective word := by
  intro k k' h
  cases k <;> cases k' <;> first | rfl | exact absurd h (by decide)

end ByteSource

inductive RuntimeError
  | syscallFailed
  | cellLoadFailed
  | ckbSourceViewInvalid
  deriving DecidableEq

def RuntimeError.code : RuntimeError → ℕ
  | syscallFailed => 1
  | cellLoadFailed => 3
  | ckbSourceViewInvalid => 44

/-- The error of a read that finds too little. -/
def ByteSource.failure : ByteSource → RuntimeError
  | cellData => .cellLoadFailed
  | _ => .syscallFailed

/-- The bytes that a view stands for. -/
def contents (tx : Transaction) (k : ByteSource) (view : Word) : Except RuntimeError (List UInt8) :=
  match decodeView view with
  | none => .error .ckbSourceViewInvalid
  | some (index, source) =>
    match Source.ofWord source with
    | none => .error .ckbSourceViewInvalid
    | some source =>
      match k with
      | .cellData =>
        match (tx.cells source)[index.toNat]? with
        | some c => .ok c.data
        | none => .error .cellLoadFailed
      | .witness =>
        if source = .cellDep then .error .ckbSourceViewInvalid
        else
          match tx.witnessAt source index.toNat with
          | some w => .ok w
          | none => .error .syscallFailed
      | .cellLock =>
        match (tx.cells source)[index.toNat]? with
        | some c => .ok c.lock
        | none => .error .syscallFailed
      | .cellType =>
        match (tx.cells source)[index.toNat]?.bind (·.type) with
        | some script => .ok script
        | none => .error .syscallFailed

/-- A read of some bytes at an offset, without a cache. -/
def directRead (tx : Transaction) (k : ByteSource) (view offset : Word) (width : ℕ) :
    Except RuntimeError Word := do
  let data ← contents tx k view
  if data.length < offset.toNat + width then
    throw k.failure
  return ofNat 64 (ofLe (field offset.toNat width data))

/-! ### The code -/

def headerSize (hot : Bool) : ℕ := if hot then 72 else 24

def entrySize : ℕ := 312

/-- Where an entry of the cache starts. -/
def entry (hot : Bool) (way : ℕ) : ℕ := headerSize hot + way * entrySize

def cacheSize (hot : Bool) : ℕ := entry hot 4

def tagCheck (next : String) : List Instruction :=
  [.ld t0 a6 24, .beqz t0 next, .ld t0 a6 0, .bne t0 a0 next, .ld t0 a6 32, .bne t0 a4 next]

/-- The place in the window of an entry, in `t4`. -/
def windowCheck (next : String) : List Instruction :=
  [.ld t0 a6 8, .bltu a1 t0 next, .sub t4 a1 t0, .ld t1 a6 16, .bltu t1 t4 next, .sub t1 t1 t4,
   .bltu t1 a3 next]

/-- The check of an entry in memory. -/
def entryCheck (next : String) : List Instruction := tagCheck next ++ windowCheck next

/-- The check of the entry that was used last. -/
def lastCheck (hot : Bool) : List Instruction :=
  if hot then
    [.beqz s10 "exact_read_cache_scan", .bne s9 a0 "exact_read_cache_scan",
     .bne s8 a4 "exact_read_cache_scan", .bltu a1 s7 "exact_read_cache_scan", .sub t4 a1 s7,
     .bltu s6 t4 "exact_read_cache_scan", .sub t1 s6 t4, .bltu t1 a3 "exact_read_cache_scan",
     .addi a6 s10 0, .jump "exact_read_cache_load"]
  else
    [.ld a6 a2 8, .beqz a6 "exact_read_cache_scan"] ++
      (entryCheck "exact_read_cache_scan" ++ [.jump "exact_read_cache_load"])

def wayCheck (hot : Bool) (way : ℕ) (next : String) : List Instruction :=
  .addi a6 a2 (entry hot way) :: (entryCheck next ++ (.sd a6 a2 8 ::
    ((if hot then [.addi s10 a6 0, .addi s9 a0 0, .addi s8 a4 0, .ld s7 a6 8, .ld s6 a6 16,
      .addi s5 a6 56] else []) ++ [.jump "exact_read_cache_load"])))

def allocate (hot : Bool) : List Instruction :=
  [.ld t0 a2 0, .addi t1 t0 1, .li t2 3, .and t1 t1 t2, .sd t1 a2 0, .li t2 entrySize,
   .mul t1 t0 t2, .add a6 a2 t1, .addi a6 a6 (headerSize hot), .sd zero a6 24, .sd a0 a6 0,
   .sd a1 a6 8, .sd a4 a6 32, .sd a3 a6 40, .sd a2 a6 48]

def sourceCheck : List Instruction :=
  [.li t0 1, .beq t0 t2 "exact_read_source_ready", .li t0 2, .beq t0 t2 "exact_read_source_ready",
   .li t0 0x0100000000000001, .beq t0 t2 "exact_read_source_ready",
   .li t0 0x0100000000000002, .beq t0 t2 "exact_read_source_ready",
   .li t0 3, .bne t0 t2 "exact_read_invalid_source", .ld t0 a6 32, .li t3 1,
   .beq t0 t3 "exact_read_invalid_source"]

def sourceReady : List Instruction :=
  [.li t0 256, .sd t0 a6 16, .addi a0 a6 56, .addi a1 a6 16, .ld a2 a6 8, .addi a3 t1 0,
   .addi a4 t2 0, .ld t0 a6 32, .beqz t0 "exact_read_cell_data_syscall", .li t3 1,
   .beq t0 t3 "exact_read_witness_syscall", .li t3 2, .beq t0 t3 "exact_read_lock_syscall",
   .li t3 3, .beq t0 t3 "exact_read_type_syscall", .jump "exact_read_invalid_source"]

def windowReady (hot : Bool) : List Instruction :=
  [.sd t0 a6 16, .ld a3 a6 40, .bltu t0 a3 "exact_read_failed", .li t1 1, .sd t1 a6 24,
   .ld t2 a6 48, .sd a6 t2 8] ++ ((if hot then [.addi s10 a6 0, .ld s9 a6 0, .ld s8 a6 32,
    .ld s7 a6 8, .ld s6 a6 16, .addi s5 a6 56] else []) ++ [.li t4 0])

/-- The code of `emit_process_failure`. -/
def processFailure (err : RuntimeError) : List Instruction :=
  [.li a0 err.code, .jump "__cellscript_abort"]

/-- The code of `emit_runtime_exact_read_cached`. -/
def exactReadCached (hot : Bool) : Program :=
  [⟨"__cellscript_exact_read_cached", lastCheck hot⟩,
   ⟨"exact_read_cache_scan", wayCheck hot 0 "exact_read_cache_next_way_0"⟩,
   ⟨"exact_read_cache_next_way_0", wayCheck hot 1 "exact_read_cache_next_way_1"⟩,
   ⟨"exact_read_cache_next_way_1", wayCheck hot 2 "exact_read_cache_next_way_2"⟩,
   ⟨"exact_read_cache_next_way_2", wayCheck hot 3 "exact_read_cache_next_way_3"⟩,
   ⟨"exact_read_cache_next_way_3", [.jump "exact_read_cache_miss"]⟩,
   ⟨"exact_read_cache_miss", allocate hot ++ decodeSourceView "exact_read_invalid_source"⟩,
   sourceViewDirect,
   ⟨"source_view_decoded", sourceCheck⟩,
   ⟨"exact_read_source_ready", sourceReady⟩,
   ⟨"exact_read_cell_data_syscall", [.li a7 2092, .jump "exact_read_syscall_ready"]⟩,
   ⟨"exact_read_witness_syscall", [.li a7 2074, .jump "exact_read_syscall_ready"]⟩,
   ⟨"exact_read_lock_syscall", [.li a5 2, .li a7 2081, .jump "exact_read_syscall_ready"]⟩,
   ⟨"exact_read_type_syscall", [.li a5 4, .li a7 2081]⟩,
   ⟨"exact_read_syscall_ready",
    [.ecall, .beqz a0 "exact_read_syscall_status_ok", .li t0 3, .bne a0 t0 "exact_read_failed"]⟩,
   ⟨"exact_read_syscall_status_ok",
    [.ld t0 a6 16, .li t1 256, .bltu t0 t1 "exact_read_cache_len_ready", .addi t0 t1 0]⟩,
   ⟨"exact_read_cache_len_ready", windowReady hot⟩,
   ⟨"exact_read_cache_load",
    [.addi t0 a6 56, .add t0 t0 t4, .li t1 1, .beq a3 t1 "exact_read_u8", .li t1 4,
     .beq a3 t1 "exact_read_u32", .jump "exact_read_u64"]⟩,
   ⟨"exact_read_u8", [.lbu a0 t0 0, .jump "exact_read_success"]⟩,
   ⟨"exact_read_u32", unalignedScalarLoad t0 a0 t1 0 4 ++ [.jump "exact_read_success"]⟩,
   ⟨"exact_read_u64", unalignedScalarLoad t0 a0 t1 0 8 ++ [.jump "exact_read_success"]⟩,
   ⟨"exact_read_success", [.li a1 0, .ret]⟩,
   ⟨"exact_read_invalid_source", processFailure .ckbSourceViewInvalid⟩,
   ⟨"exact_read_failed",
    [.ld t0 a6 32, .bnez t0 "exact_read_failed_witness"] ++ processFailure .cellLoadFailed⟩,
   ⟨"exact_read_failed_witness", processFailure .syscallFailed⟩]

/-- The read of a short number from the hot entry. -/
def hotRead (k : ByteSource) (width : ℕ) : List Instruction :=
  [.beqz s10 "exact_read_scalar_slow", .bne s9 a0 "exact_read_scalar_slow", .li t0 k.kind,
   .bne s8 t0 "exact_read_scalar_slow", .bltu a1 s7 "exact_read_scalar_slow", .sub t4 a1 s7,
   .bltu s6 t4 "exact_read_scalar_slow", .sub t1 s6 t4, .li t2 width,
   .bltu t1 t2 "exact_read_scalar_slow", .add t0 s5 t4, .lbu a0 t0 0] ++
  ((List.range' 1 (width - 1)).flatMap (fun byte ↦ joinByte a0 t0 t1 0 byte) ++ [.li a1 0, .ret])

def slowRead (k : ByteSource) (width : ℕ) : List Instruction :=
  [.li a3 width, .li a4 k.kind, .jump "__cellscript_exact_read_cached"]

/-- The code of `emit_runtime_exact_byte_word_helper`, with the helper that it goes on to. -/
def exactRead (hot : Bool) (symbol : String) (k : ByteSource) (width : ℕ) : Program :=
  (if hot ∧ width ≤ 4 then
    [⟨symbol, hotRead k width⟩, ⟨"exact_read_scalar_slow", slowRead k width⟩]
  else [⟨symbol, slowRead k width⟩]) ++ exactReadCached hot

/-! ### The invariant -/

/-- A window holds bytes of what a view stands for. -/
structure Window (tx : Transaction) (m : Memory) (a view start len : Word) (k : ByteSource)
    (data : List UInt8) : Prop where
  contents : contents tx k view = .ok data
  le_capacity : len.toNat ≤ 256
  inside : start.toNat + len.toNat ≤ data.length
  bytes : read m a len.toNat = field start.toNat len.toNat data

/-- An entry that is in use has a window. -/
def EntryOk (tx : Transaction) (m : Memory) (a : Word) : Prop :=
  load m (a + 24#64) 8 ≠ 0#64 → ∃ k data, load m (a + 32#64) 8 = ByteSource.word k ∧
    Window tx m (a + 56#64) (load m (a + 0#64) 8) (load m (a + 8#64) 8)
      (load m (a + 16#64) 8) k data

/-- The registers repeat an entry that is in use. -/
structure Mirrors (a : Word) (s : State) : Prop where
  valid : load s.mem (a + 24#64) 8 ≠ 0#64
  entry : s.get s10 = a
  view : s.get s9 = load s.mem (a + 0#64) 8
  kind : s.get s8 = load s.mem (a + 32#64) 8
  start : s.get s7 = load s.mem (a + 8#64) 8
  len : s.get s6 = load s.mem (a + 16#64) 8
  buffer : s.get s5 = a + 56#64

/-- The cache at an address. -/
structure Cached (hot : Bool) (tx : Transaction) (b : Word) (s : State) : Prop where
  cursor : ∃ way < 4, load s.mem (b + 0#64) 8 = ofNat 64 way
  entries : ∀ way < 4, EntryOk tx s.mem (b + ofNat 64 (entry hot way))
  last : load s.mem (b + 8#64) 8 = 0#64 ∨
    ∃ way < 4, load s.mem (b + 8#64) 8 = b + ofNat 64 (entry hot way)
  hot : hot = true → s.get s10 = 0#64 ∨ ∃ way < 4, Mirrors (b + ofNat 64 (entry hot way)) s

variable {view offset : Word} {width : ℕ}

section Windows

variable {tx : Transaction} {m : Memory} {a start len : Word} {k : ByteSource} {data : List UInt8}

/-- **A read inside of a window is a direct read.** -/
theorem Window.directRead_eq (h : Window tx m a view start len k data)
    (hstart : start.toNat ≤ offset.toNat) (hroom : offset.toNat - start.toNat + width ≤ len.toNat) :
    directRead tx k view offset width = .ok (load m (a + (offset - start)) width) := by
  have hinside := h.inside
  have hsub : offset - start = ofNat 64 (offset.toNat - start.toNat) := by
    refine eq_of_toNat_eq ?_
    rw [BitVec.toNat_sub_of_le (BitVec.le_def.2 hstart), toNat_ofNat, mod_eq_of_lt]
    exact (Nat.sub_le _ _).trans_lt offset.isLt
  have hlength : (field start.toNat len.toNat data).length = len.toNat := Bytes.length_field hinside
  have hbytes : read m (a + ofNat 64 (offset.toNat - start.toNat)) width =
      field offset.toNat width data := by
    rw [read_eq_field (show read m a (field start.toNat len.toNat data).length = _ by
      rw [hlength, h.bytes]) (by omega), Bytes.field_field hroom, Nat.add_sub_cancel' hstart]
  rw [directRead, h.contents, ok_bind, if_neg (by omega), hsub, load, hbytes]
  rfl

end Windows

/-! ### Loading from a window -/

variable {e : Surroundings} {helpers : String → Option Program} {C : Code (machine e helpers)}
  {rest : List Instruction} {fall : Option String} {s : State} {hot : Bool}

section Load

/-- What a read leaves of the registers. -/
def Finished (v : Word) (s s' : State) : Prop :=
  s'.get a0 = v ∧ s'.get a1 = 0#64 ∧ Keeps [a0, a1, t0, t1] s s' ∧ s'.mem = s.mem

theorem runsAt_load {d : Word} (hprogram : C.program.Extends (exactReadCached hot))
    (hwidth : width = 1 ∨ width = 4 ∨ width = 8) (ha3 : s.get a3 = ofNat 64 width)
    (ht4 : s.get t4 = d) (hra : s.get ra = C.link)
    (hQ : ∀ s', Finished (load s.mem (s.get a6 + 56#64 + d) width) s s' → C.post s') :
    C.RunsAt "exact_read_cache_load" s := by
  have hsuccess : ∀ s₁, s₁.get a0 = load s.mem (s.get a6 + 56#64 + d) width →
      Quiet [a0, a1, t0, t1] s s₁ → C.RunsAt "exact_read_success" s₁ := by
    intro s₁ hvalue h₁
    rw [runsAt_iff (hprogram "exact_read_success" _ rfl)]
    simp (disch := decide) only [runs_rules, act, follows_ret, get_set_of_ne, h₁.kept ra]
    exact ⟨hra, hQ _ ⟨hvalue, get_set_self, h₁.regs.set, h₁.mem⟩⟩
  rw [runsAt_iff (hprogram "exact_read_cache_load" _ rfl)]
  simp (disch := decide) only [runs_rules, act, set_rules, ha3, ht4]
  have hscalar : ∀ {w : ℕ} {l : String} {fall : Option String} {s₁ : State}, width = w →
      C.program.at? l = some (unalignedScalarLoad t0 a0 t1 0 w ++ [.jump "exact_read_success"],
        fall) →
      s₁.get t0 = s.get a6 + 56#64 + d → Quiet [a0, a1, t0, t1] s s₁ → C.RunsAt l s₁ := by
    intro w l fall s₁ hw hat ht0 h₁
    rw [runsAt_iff hat]
    refine runs_unalignedScalarLoad (by decide) fun s₂ h₂ ↦ ?_
    rw [runs_cons, act]
    refine hsuccess s₂ ?_ (h₁.trans ⟨h₂.regs, h₂.mem⟩)
    rw [h₂.value, ht0, h₁.mem, BitVec.add_zero, hw]
  rcases hwidth with rfl | rfl | rfl
  · rw [runsAt_iff (hprogram "exact_read_u8" _ rfl)]
    simp (disch := decide) only [runs_rules, BitVec.add_zero, act, set_rules]
    exact hsuccess _ get_set_self (by simp)
  · rw [if_neg (by decide)]
    exact hscalar rfl (hprogram "exact_read_u32" _ rfl) rfl (by simp)
  · rw [if_neg (by decide)]
    exact hscalar rfl (hprogram "exact_read_u64" _ rfl) rfl (by simp)

end Load

/-! ### Looking for a window -/

/-- An entry in memory answers a read. -/
structure Hit (m : Memory) (a view kind offset : Word) (width : ℕ) : Prop where
  valid : load m (a + 24#64) 8 ≠ 0#64
  view : load m (a + 0#64) 8 = view
  kind : load m (a + 32#64) 8 = kind
  start : (load m (a + 8#64) 8).toNat ≤ offset.toNat
  room : offset.toNat - (load m (a + 8#64) 8).toNat + width ≤ (load m (a + 16#64) 8).toNat

theorem Hit.directRead_eq {tx : Transaction} {m : Memory} {a view offset : Word} {k : ByteSource}
    (h : Hit m a view k.word offset width) (hentry : EntryOk tx m a) :
    directRead tx k view offset width =
      .ok (load m (a + 56#64 + (offset - load m (a + 8#64) 8)) width) := by
  obtain ⟨k', data, hkind, hwindow⟩ := hentry h.valid
  obtain rfl := ByteSource.word_injective (h.kind.symm.trans hkind)
  rw [h.view] at hwindow
  exact hwindow.directRead_eq h.start h.room

/-- Comparisons of a place in a window. -/
theorem ult_sub_iff {x y : Word} (len : Word) (hwidth : width < 2 ^ 64) (hle : y.toNat ≤ x.toNat) :
    (len.ult (x - y) = true ↔ len.toNat < x.toNat - y.toNat) ∧
      (¬ len.toNat < x.toNat - y.toNat → ((len - (x - y)).ult (ofNat 64 width) = true ↔
        len.toNat < x.toNat - y.toNat + width)) := by
  have hsub : (x - y).toNat = x.toNat - y.toNat := BitVec.toNat_sub_of_le (BitVec.le_def.2 hle)
  constructor
  · rw [BitVec.ult, decide_eq_true_eq, hsub]
  · intro hlt
    have hsub' : (len - (x - y)).toNat = len.toNat - (x.toNat - y.toNat) := by
      rw [BitVec.toNat_sub_of_le (BitVec.le_def.2 (by omega)), hsub]
    rw [BitVec.ult, decide_eq_true_eq, toNat_ofNat, mod_eq_of_lt hwidth]
    omega

section Checks

variable {kind : Word} {next : String}

/-- The arguments of a read. -/
structure Asks (view kind offset : Word) (width : ℕ) (s : State) : Prop where
  view : s.get a0 = view
  offset : s.get a1 = offset
  width : s.get a3 = ofNat 64 width
  kind : s.get a4 = kind

theorem runs_tagCheck (hasks : Asks view kind offset width s)
    (hok : load s.mem (s.get a6 + 24#64) 8 ≠ 0#64 → load s.mem (s.get a6 + 0#64) 8 = view →
      load s.mem (s.get a6 + 32#64) 8 = kind → ∀ s', Quiet [t0] s s' → C.Runs rest fall s')
    (hmiss : ¬ Hit s.mem (s.get a6) view kind offset width → ∀ s', Quiet [t0] s s' →
      C.RunsAt next s') : C.Runs (tagCheck next ++ rest) fall s := by
  simp (disch := decide) only [tagCheck, runs_rules, act, set_rules, hasks.view, hasks.kind]
  refine ite_branch (fun h ↦ ?_) fun hvalid ↦ ite_branch (fun h ↦ ?_) fun hview ↦
    ite_branch (fun h ↦ ?_) fun hkind ↦ ?_
  · exact hmiss (fun hit ↦ hit.valid (beq_iff_eq.1 h)) _ (by simp)
  · exact hmiss (fun hit ↦ bne_iff_ne.1 h hit.view) _ (by simp)
  · exact hmiss (fun hit ↦ bne_iff_ne.1 h hit.kind) _ (by simp)
  · exact hok (beq_eq_false_iff_ne.1 hvalid) (bne_eq_false_iff_eq.1 hview)
      (bne_eq_false_iff_eq.1 hkind) _ (by simp)

theorem runs_windowCheck (hasks : Asks view kind offset width s) (hwidth : width < 2 ^ 64)
    (hok : (load s.mem (s.get a6 + 8#64) 8).toNat ≤ offset.toNat →
      offset.toNat - (load s.mem (s.get a6 + 8#64) 8).toNat + width ≤
        (load s.mem (s.get a6 + 16#64) 8).toNat → ∀ s', Quiet [t0, t1, t4] s s' →
      s'.get t4 = offset - load s.mem (s.get a6 + 8#64) 8 → C.Runs rest fall s')
    (hmiss : ¬ Hit s.mem (s.get a6) view kind offset width → ∀ s', Quiet [t0, t1, t4] s s' →
      C.RunsAt next s') : C.Runs (windowCheck next ++ rest) fall s := by
  simp (disch := decide) only [windowCheck, runs_rules, act, set_rules, hasks.offset, hasks.width]
  refine ite_branch (fun h ↦ ?_) fun hstart ↦ ?_
  · rw [BitVec.ult, decide_eq_true_eq] at h
    exact hmiss (fun hit ↦ absurd hit.start (by omega)) _ (by simp)
  rw [BitVec.ult, decide_eq_false_iff_not, not_lt] at hstart
  obtain ⟨hshort, hroom⟩ := ult_sub_iff (load s.mem (s.get a6 + 16#64) 8) hwidth hstart
  refine ite_branch (fun h ↦ ?_) fun hlong ↦ ?_
  · rw [hshort] at h
    exact hmiss (fun hit ↦ absurd hit.room (by omega)) _ (by simp)
  rw [← not_eq_true, hshort] at hlong
  have hroom := hroom hlong
  refine ite_branch (fun h ↦ ?_) fun hin ↦ ?_
  · rw [hroom] at h
    exact hmiss (fun hit ↦ absurd hit.room (by omega)) _ (by simp)
  rw [← not_eq_true, hroom] at hin
  refine hok hstart (by omega) _ (by simp) ?_
  rw [get_set_of_ne, get_set_of_ne, get_set_self]

theorem Asks.keeps {rs : List Reg} {s' : State} (h : Asks view kind offset width s)
    (hregs : Keeps rs s s') (ha0 : a0 ∉ rs := by decide) (ha1 : a1 ∉ rs := by decide)
    (ha3 : a3 ∉ rs := by decide) (ha4 : a4 ∉ rs := by decide) : Asks view kind offset width s' :=
  ⟨(hregs a0 ha0).trans h.view, (hregs a1 ha1).trans h.offset, (hregs a3 ha3).trans h.width,
    (hregs a4 ha4).trans h.kind⟩

/-- **An entry is checked.** -/
theorem runs_entryCheck (hasks : Asks view kind offset width s) (hwidth : width < 2 ^ 64)
    (hhit : Hit s.mem (s.get a6) view kind offset width → ∀ s', Quiet [t0, t1, t4] s s' →
      s'.get t4 = offset - load s.mem (s.get a6 + 8#64) 8 → C.Runs rest fall s')
    (hmiss : ¬ Hit s.mem (s.get a6) view kind offset width → ∀ s', Quiet [t0, t1, t4] s s' →
      C.RunsAt next s') : C.Runs (entryCheck next ++ rest) fall s := by
  refine runs_tagCheck hasks (fun hvalid hview hkind s₁ h₁ ↦ ?_)
    fun hno s₁ h₁ ↦ hmiss hno s₁ h₁.mono
  refine runs_windowCheck (hasks.keeps h₁.regs) hwidth ?_ ?_
  · rw [h₁.mem, h₁.get a6]
    exact fun hstart hroom s₂ h₂ ↦ hhit ⟨hvalid, hview, hkind, hstart, hroom⟩ s₂ (h₁.mono.trans h₂)
  · rw [h₁.mem, h₁.get a6]
    exact fun hno s₂ h₂ ↦ hmiss hno s₂ (h₁.mono.trans h₂)

end Checks

end CellScript.Runtime.ExactRead
