import CellScript.GroupPolicy.Roles
import CellScript.Runtime.Membership

/-!
# The emitted membership checks

The code of `emit_resolved_cell_membership_checks`, which stands at the start of every body. Each
binding with a proven membership calls the membership helper, and a body bound to a type group also
probes the two sides of the group behind the last bound cell. A check that holds goes on at a fresh
label; one that fails leaves the code.

`passes_iff` says that the checks pass if and only if each of them holds of the transaction. The
rest follows from the plan of the action: its ordinals are the first ones, so that the two probes
count the group.
-/

namespace CellScript.GroupPolicy

open Assembler (Instruction)
open BitVec (ofNat)
open MachineState
open Blocks
open CellScript.Runtime
open CellScript.Runtime.Membership List

/-! ### Labels -/

/-- The form of a fresh label, and of that of a failure handler. -/
def label (name : String) (n : ℕ) : String := ".L" ++ name ++ "_" ++ n.repr

/-- A string that ends in a number determines the number. -/
theorem append_cons_inj {α : Type} {x : α} {l₁ l₂ r₁ r₂ : List α} (h₁ : x ∉ r₁) (h₂ : x ∉ r₂)
    (h : l₁ ++ x :: r₁ = l₂ ++ x :: r₂) : l₁ = l₂ ∧ r₁ = r₂ := by
  induction l₁ generalizing l₂ with
  | nil =>
    cases l₂ with
    | nil => exact ⟨rfl, (List.cons.inj h).2⟩
    | cons y l₂ =>
      refine absurd ?_ h₁
      rw [(List.cons.inj h).2]
      exact mem_append_right _ mem_cons_self
  | cons y l₁ ih =>
    cases l₂ with
    | nil =>
      refine absurd ?_ h₂
      rw [← (List.cons.inj h).2]
      exact mem_append_right _ mem_cons_self
    | cons z l₂ =>
      obtain ⟨rfl, htail⟩ := List.cons.inj h
      obtain ⟨rfl, rfl⟩ := ih htail
      exact ⟨rfl, rfl⟩

theorem toList_repr (n : ℕ) : n.repr.toList = Nat.toDigits 10 n := by
  rw [Nat.repr, String.toList_ofList]

theorem underscore_notMem_repr (n : ℕ) : '_' ∉ n.repr.toList := by
  rw [toList_repr]
  exact Nat.underscore_not_in_toDigits

theorem label_inj {name name' : String} {n n' : ℕ} (h : label name n = label name' n') :
    name = name' ∧ n = n' := by
  have hlist := congrArg String.toList h
  simp only [label, String.toList_append, append_assoc] at hlist
  obtain ⟨hname, hn⟩ := append_cons_inj (underscore_notMem_repr n) (underscore_notMem_repr n')
    (append_cancel_left hlist)
  rw [toList_repr, toList_repr] at hn
  have hvalue := congrArg (fun digits ↦ Nat.ofDigitChars 10 digits 0) hn
  simp only [Nat.ofDigitChars_toDigits (b := 10) (by decide) (by decide)] at hvalue
  exact ⟨String.toList_inj.1 hname, hvalue⟩

/-! ### The code -/

/-- A check of the transaction. -/
inductive Check
  | member (source : Source) (ordinal : ℕ) (kind : ScriptKind)
  | groupEnd (source : Source) (count : ℕ)
  deriving DecidableEq

/-- The system call's name for a source. -/
def IrCellSource.location : IrCellSource → Source
  | input => .input
  | output => .output
  | groupInput => .groupInput
  | groupOutput => .groupOutput
  | cellDep => .cellDep

def runtimeScratchSize : ℕ := 1040

def collectionBoundsInvalid : ℕ := 21

/-- The function whose body is emitted. -/
structure Emitter where
  function : String
  frameSize : ℕ

namespace Emitter

def sizeOffset (g : Emitter) : ℕ := g.frameSize - 16 - runtimeScratchSize

def bufferOffset (g : Emitter) : ℕ := g.sizeOffset + 8

/-- Where `emit_fail` goes. -/
def failed (g : Emitter) : String := label (g.function ++ "_fail") collectionBoundsInvalid

end Emitter

namespace Check

/-- The label at which a check goes on that holds. -/
def passed (n : ℕ) : Check → String
  | member _ _ _ => label "binding_membership_valid" n
  | groupEnd _ _ => label "binding_group_count_exact" n

def code (g : Emitter) (passed : String) : Check → List Instruction
  | member source ordinal kind =>
    [.li a0 source.word.toNat, .li a1 ordinal, .li a2 (field kind),
     .call "__cellscript_require_cell_membership", .beqz a0 passed, .jump "__cellscript_abort"]
  | groupEnd source count =>
    .li t0 8 :: (stackStore t0 g.sizeOffset ++ (spAddi a0 g.bufferOffset ++
      (spAddi a1 g.sizeOffset ++ [.li a2 0, .li a3 count, .li a4 source.word.toNat, .li a5 0,
        .li a7 2081, .ecall, .li t0 1, .beq a0 t0 passed, .jump g.failed])))

/-- What a check is about. Numbers are taken as words. -/
def Holds (tx : Transaction) : Check → Prop
  | member source ordinal kind => (tx.cells source)[ordinal % 2 ^ 64]?.any (isMember tx kind)
  | groupEnd source count => (tx.cells source)[count % 2 ^ 64]? = none

end Check

/-- The script of a membership that is to be checked. -/
def IrCellMembership.kind? : IrCellMembership → Option ScriptKind
  | unproven => none
  | currentTypeGroup => some .type
  | currentLockGroup => some .lock

/-- The number of cells that the bindings claim of a source. -/
def groupCount (bindings : List IrCellBinding) (source : IrCellSource) : ℕ :=
  ((bindings.filter (·.source = source)).map (·.ordinal + 1)).max?.getD 0

def memberChecks (bindings : List IrCellBinding) : List Check :=
  bindings.filterMap fun b ↦ b.membership.kind?.map (.member b.source.location b.ordinal)

def checks (bindings : List IrCellBinding) : List Check :=
  let proven := bindings.filter (·.membership ≠ .unproven)
  memberChecks proven ++
    if proven.any (·.membership = .currentTypeGroup) then
      [IrCellSource.groupInput, .groupOutput].map fun source ↦
        .groupEnd source.location (groupCount proven source)
    else []

/-- The code of the checks, up to the first label, and the blocks after it. A return stands for what
follows. The number is that of the next fresh label. -/
def emit (g : Emitter) : ℕ → List Check → List Instruction × Program
  | _, [] => ([.ret], [])
  | n, c :: cs =>
    let next := emit g (n + 1) cs
    (c.code g (c.passed n), ⟨c.passed n, next.1⟩ :: next.2)

/-- The checks of the bindings come to what follows. -/
def Passes (env : Environment) (helpers : String → Option Program) (g : Emitter) (n : ℕ)
    (bindings : List IrCellBinding) (s : State) : Prop :=
  let emitted := emit g n (checks bindings)
  ∃ link, Runs (machine env.surroundings helpers) emitted.2 link emitted.1 none s fun _ ↦ True

/-! ### Running the checks -/

section Run

variable {env : Environment} {helpers : String → Option Program} {g : Emitter} {program : Program}
  {link : Word} {fall : Option String} {Q : State → Prop} {n : ℕ} {s : State}

/-- The labels at which failed checks leave the code are not in it. -/
structure Leaving (g : Emitter) (program : Program) : Prop where
  abort : program.at? "__cellscript_abort" = none
  failed : program.at? g.failed = none

theorem ofNat_toNat_word (w : Word) : ofNat 64 w.toNat = w := by
  rw [ofNat_toNat, setWidth_eq]

theorem requested_capacity {tx : Transaction} {source : Source} (count : ℕ) :
    requested tx loadCellByField (ofNat 64 count) source.word cellFieldCapacity =
      some (match (tx.cells source)[count % 2 ^ 64]? with
        | some c => .ok (Bytes.le 8 c.capacity.toNat)
        | none => .error indexOutOfBound) := by
  rw [requested_loadCellByField, toNat_ofNat]
  cases (tx.cells source)[count % 2 ^ 64]? <;> rfl

/-- A call that found something does not report the end. -/
theorem get_deliver_ne {reports : Bool} {data : List UInt8} :
    (deliver reports s (.ok data)).get a0 ≠ 1#64 := by
  rw [deliver, get_set_self, truncatedStatus]
  split
  · split <;> decide
  · decide

theorem exists_groupEnd (env : Environment) (helpers : String → Option Program) (g : Emitter)
    (passed : String) (source : Source) (count : ℕ) (s : State) :
    ∃ s', ∀ (C : Code (machine env.surroundings helpers)) fall, Leaving g C.program →
      (C.Runs ((Check.groupEnd source count).code g passed) fall s ↔
        (Check.groupEnd source count).Holds env.tx ∧ C.RunsAt passed s') := by
  have hrequested : requested env.tx 2081#64 (ofNat 64 count) source.word 0#64 = _ :=
    requested_capacity count
  cases hcell : (env.tx.cells source)[count % 2 ^ 64]? with
  | none =>
    apply Exists.intro
    intro C fall _
    simp (disch := decide) only [Check.code, slot_rules, runs_rules, act, ofNat_toNat_word]
    rw [follows_missing indexOutOfBound, Check.Holds, hcell, and_iff_right rfl]
    · simp (disch := decide) only [runs_rules, act, set_rules]
      exact Iff.rfl
    · simp (disch := decide) only [slot_rules, set_rules, hrequested, hcell]
  | some c =>
    refine ⟨s, fun C fall hleaving ↦ ?_⟩
    simp (disch := decide) only [Check.code, slot_rules, runs_rules, act, ofNat_toNat_word]
    generalize hs : State.set _ a7 _ = s₁
    have hcall : env.surroundings.ecall s₁
        = some (deliver env.reports s₁ (.ok (Bytes.le 8 c.capacity.toNat))) := by
      show (requested env.tx _ _ _ _).map _ = _
      subst hs
      simp (disch := decide) only [slot_rules, set_rules, hrequested, hcell, map_some]
    rw [follows_ecall hcall]
    simp (disch := decide) only [runs_rules, act, set_rules]
    rw [if_neg (fun h ↦ get_deliver_ne (beq_iff_eq.1 h))]
    refine iff_of_false (not_runsAt hleaving.failed) fun h ↦ ?_
    cases hcell.symm.trans h.1

/-- The labels of emitted checks are fresh from the given number on. -/
theorem label_of_mem_emit {cs : List Check} {b : Runtime.Block}
    (hb : b ∈ (emit g n cs).2) : ∃ name m, b.label = label name m ∧ n ≤ m ∧
      (name = "binding_membership_valid" ∨ name = "binding_group_count_exact") := by
  induction cs generalizing n with
  | nil => exact absurd hb not_mem_nil
  | cons c cs ih =>
    rcases mem_cons.1 hb with rfl | hb
    · cases c with
      | member => exact ⟨_, n, rfl, le_refl n, .inl rfl⟩
      | groupEnd => exact ⟨_, n, rfl, le_refl n, .inr rfl⟩
    · obtain ⟨name, m, hlabel, hm, hname⟩ := ih hb
      exact ⟨name, m, hlabel, Nat.le_of_succ_le hm, hname⟩

theorem nodup_emit (cs : List Check) (n : ℕ) : ((emit g n cs).2.map (·.label)).Nodup := by
  induction cs generalizing n with
  | nil => exact nodup_nil
  | cons c cs ih =>
    refine nodup_cons.2 ⟨fun hmem ↦ ?_, ih (n + 1)⟩
    obtain ⟨b, hb, hlabel⟩ := mem_map.1 hmem
    obtain ⟨name, m, hm, hle, -⟩ := label_of_mem_emit hb
    have hn : m = n := by
      cases c <;> exact (label_inj (hm.symm.trans hlabel)).2
    omega

/-- No fresh label has the form of that of a failure handler. -/
theorem ne_append_fail {name function : String}
    (hname : name = "binding_membership_valid" ∨ name = "binding_group_count_exact") :
    name ≠ function ++ "_fail" := by
  intro h
  have hlast := congrArg (fun s : String ↦ s.toList.getLast?) h
  have hfail : "_fail".toList.getLast? = some 'l' := by decide
  simp only [String.toList_append, getLast?_append, hfail, Option.some_or] at hlast
  rcases hname with rfl | rfl <;> exact absurd hlast (by decide)

theorem leaving_emit (g : Emitter) (cs : List Check) (n : ℕ) : Leaving g (emit g n cs).2 := by
  constructor
  · refine Program.at?_none fun hmem ↦ ?_
    obtain ⟨b, hb, hlabel⟩ := mem_map.1 hmem
    obtain ⟨name, m, hm, -, -⟩ := label_of_mem_emit hb
    have hlist := congrArg String.toList (hm.symm.trans hlabel)
    simp only [label, String.toList_append] at hlist
    exact absurd (congrArg List.head? hlist) (by simp)
  · refine Program.at?_none fun hmem ↦ ?_
    obtain ⟨b, hb, hlabel⟩ := mem_map.1 hmem
    obtain ⟨name, m, hm, -, hname⟩ := label_of_mem_emit hb
    exact ne_append_fail hname (label_inj (hm.symm.trans hlabel)).1

variable (hhelper : helpers "__cellscript_require_cell_membership" = some requireCellMembership)
include hhelper

theorem exists_memberCheck (env : Environment) (g : Emitter) (passed : String) (source : Source)
    (ordinal : ℕ) (kind : ScriptKind) (s : State) :
    ∃ s', ∀ (C : Code (machine env.surroundings helpers)) fall, Leaving g C.program →
      (C.Runs ((Check.member source ordinal kind).code g passed) fall s ↔
        (Check.member source ordinal kind).Holds env.tx ∧ C.RunsAt passed s') := by
  obtain ⟨s₁, hs₁⟩ : ∃ s₁, (((s.set a0 source.word).set a1 (ofNat 64 ordinal)).set a2
      (ofNat 64 (field kind))).set ra env.returnAddress = s₁ := ⟨_, rfl⟩
  have ha0 : s₁.get a0 = source.word := by
    subst hs₁
    simp (disch := decide) only [set_rules]
  have ha1 : s₁.get a1 = ofNat 64 (ordinal % 2 ^ 64) := by
    subst hs₁
    simp (disch := decide) only [set_rules]
    exact eq_of_toNat_eq (by rw [toNat_ofNat, toNat_ofNat, Nat.mod_mod])
  have ha2 : s₁.get a2 = ofNat 64 (field kind) := by
    subst hs₁
    simp (disch := decide) only [set_rules]
  obtain ⟨s', hcall, hreported⟩ := exists_calls hhelper rfl (requireCellMembership_spec
    (mod_lt ordinal (Nat.two_pow_pos 64)) ha0 ha1 ha2)
  refine ⟨s', fun C fall hleaving ↦ ?_⟩
  simp only [Check.code, runs_rules, act, ofNat_toNat_word]
  rw [show (((s.set a0 source.word).set a1 (ofNat 64 ordinal)).set a2
      (ofNat 64 (field kind))).set ra env.surroundings.returnAddress = s₁ from hs₁,
    follows_call hcall]
  simp only [runs_rules, act, hreported.status, Membership.status, Check.Holds]
  split
  · next hmember =>
    exact (and_iff_right hmember).symm
  · next hmember =>
    exact iff_of_false (not_runsAt hleaving.abort) fun h ↦ hmember h.1

/-- **A check goes on, in one state, if and only if it holds.** -/
theorem exists_check (env : Environment) (g : Emitter) (passed : String) (c : Check) (s : State) :
    ∃ s', ∀ (C : Code (machine env.surroundings helpers)) fall, Leaving g C.program →
      (C.Runs (c.code g passed) fall s ↔ c.Holds env.tx ∧ C.RunsAt passed s') := by
  cases c with
  | member source ordinal kind =>
    exact exists_memberCheck hhelper env g passed source ordinal kind s
  | groupEnd source count => exact exists_groupEnd env helpers g passed source count s

/-- The blocks of emitted checks are found in a program. -/
def Contains (program blocks : Program) : Prop :=
  ∀ b ∈ blocks, ∃ fall, program.at? b.label = some (b.body, fall)

/-- **The checks come to their end, in one state, if and only if all of them hold.** -/
theorem exists_emit (env : Environment) (g : Emitter) (cs : List Check) (n : ℕ) (s : State) :
    ∃ s', ∀ (C : Code (machine env.surroundings helpers)) fall, Leaving g C.program →
      Contains C.program (emit g n cs).2 → (C.Runs (emit g n cs).1 fall s ↔
        (∀ c ∈ cs, c.Holds env.tx) ∧ s'.get ra = C.link ∧ C.post s') := by
  induction cs generalizing n s with
  | nil =>
    refine ⟨s, fun C fall _ _ ↦ ?_⟩
    rw [emit, runs_cons, act]
    exact (and_iff_right (by simp)).symm
  | cons c cs ih =>
    obtain ⟨s₁, hs₁⟩ := exists_check hhelper env g (c.passed n) c s
    obtain ⟨s', hs'⟩ := ih (n + 1) s₁
    refine ⟨s', fun C fall hleaving hcontains ↦ ?_⟩
    obtain ⟨hblock, hcontains⟩ := forall_mem_cons.1 hcontains
    obtain ⟨fall', hat⟩ := hblock
    rw [emit, hs₁ C fall hleaving, runsAt_iff hat,
      hs' C fall' hleaving hcontains, forall_mem_cons, and_assoc]

/-- **The emitted checks pass if and only if each of them holds.** -/
theorem passes_iff {bindings : List IrCellBinding} :
    Passes env helpers g n bindings s ↔ ∀ c ∈ checks bindings, c.Holds env.tx := by
  obtain ⟨s', hs'⟩ := exists_emit hhelper env g (checks bindings) n s
  have hcontains : Contains (emit g n (checks bindings)).2 (emit g n (checks bindings)).2 :=
    fun b hb ↦ Program.exists_at?_of_mem (nodup_emit _ n) hb
  have hiff := fun link ↦ hs' ⟨_, link, fun _ ↦ True⟩ none (leaving_emit g _ n) hcontains
  simp only [Code.Runs] at hiff
  simp only [Passes, hiff, and_true, exists_and_left, exists_eq', and_true]

end Run

/-! ### Counting the group -/

section Count

variable {tx : Transaction} {bindings : List IrCellBinding} {ordinals : List ℕ} {b : IrCellBinding}

/-- What the emitted checks of a planned action establish: the running script is a type script, the
group has as many cells as the action has roles, and each bound cell is in the group. -/
structure GroupAccounted (tx : Transaction) (bindings : List IrCellBinding) : Prop where
  kind : tx.kind = .type
  inputs : tx.groupInputs.length = (rolesOn .input bindings).length
  outputs : tx.groupOutputs.length = (rolesOn .output bindings).length
  member : ∀ b ∈ bindings, b.source ≠ .cellDep →
    (b.source = .groupInput ∨ b.source = .groupOutput) ∧
      ∃ c, (tx.cells b.source.location)[b.ordinal]? = some c ∧ c.typeHash = some tx.scriptHash

/-- Ordinals from zero on that all stand for something, the next of which does not, count it. -/
theorem length_eq_of_ordinals {α : Type} {xs : List α} (hxs : xs.length < 2 ^ 32)
    (hperm : ordinals.Perm (List.range ordinals.length))
    (hsome : ∀ k ∈ ordinals, k % 2 ^ 64 < xs.length) (hend : xs.length ≤ ordinals.length % 2 ^ 64) :
    xs.length = ordinals.length ∧ ∀ k ∈ ordinals, k % 2 ^ 64 = k := by
  have hmem : ∀ k, k < ordinals.length → k % 2 ^ 64 < xs.length :=
    fun k hk ↦ hsome k (hperm.mem_iff.2 (mem_range.2 hk))
  -- the ordinal `2 ^ 32` is beyond every list of cells
  have hle : ordinals.length ≤ 2 ^ 32 := by
    by_contra hlt
    have := hmem (2 ^ 32) (by omega)
    omega
  refine ⟨?_, fun k hk ↦ mod_eq_of_lt ?_⟩
  · have hlast : ordinals.length = 0 ∨ (ordinals.length - 1) % 2 ^ 64 < xs.length := by
      rcases eq_zero_or_pos ordinals.length with h | h
      · exact .inl h
      · exact .inr (hmem _ (by omega))
    omega
  · have := mem_range.1 (hperm.mem_iff.1 hk)
    omega

/-- The largest ordinal, and one, is the number of the roles. -/
theorem max?_ordinals (hperm : ordinals.Perm (List.range ordinals.length)) :
    (ordinals.map (· + 1)).max?.getD 0 = ordinals.length := by
  rcases eq_zero_or_pos ordinals.length with h | h
  · rw [eq_nil_of_length_eq_zero h]
    rfl
  · have hmax : (ordinals.map (· + 1)).max? = some ordinals.length := by
      rw [max?_eq_some_iff]
      refine ⟨mem_map.2 ⟨ordinals.length - 1, hperm.mem_iff.2 (mem_range.2 (by omega)),
        by omega⟩, fun k hk ↦ ?_⟩
      obtain ⟨j, hj, rfl⟩ := mem_map.1 hk
      exact mem_range.1 (hperm.mem_iff.1 hj)
    rw [hmax]
    rfl

/-- The source of a side of the group. -/
def Side.source : Side → IrCellSource
  | input => .groupInput
  | output => .groupOutput

theorem IrCellBinding.Bound.side_iff (hb : b.Bound) (side : Side) :
    b.source.side = some side ↔ b.source = side.source := by
  rcases hb with ⟨hsource, -⟩ | ⟨hsource | hsource, -⟩ <;> rw [hsource] <;> cases side <;> decide

theorem IrCellBinding.Bound.membership_iff (hb : b.Bound) :
    b.membership ≠ .unproven ↔ b.source ≠ .cellDep := by
  rcases hb with ⟨hsource, hmember⟩ | ⟨hsource | hsource, hmember⟩ <;> rw [hsource, hmember] <;>
    decide

/-- The bindings of a source are the roles of its side. -/
theorem filter_source_eq (hbound : ∀ b ∈ bindings, b.Bound) (side : Side) :
    (bindings.filter (·.membership ≠ .unproven)).filter (·.source = side.source)
      = rolesOn side bindings := by
  rw [filter_filter]
  refine filter_congr fun b hb ↦ ?_
  rw [← Bool.decide_and, decide_eq_decide, (hbound b hb).side_iff, (hbound b hb).membership_iff]
  refine ⟨fun h ↦ h.1, fun h ↦ ⟨h, ?_⟩⟩
  rw [h]
  cases side <;> decide

/-- A bound cell of a side is checked for its type script. -/
theorem mem_checks_of_source (hbound : ∀ b ∈ bindings, b.Bound) (hb : b ∈ bindings)
    (hsource : b.source ≠ .cellDep) :
    Check.member b.source.location b.ordinal .type ∈ checks bindings := by
  have hmember : b.membership = .currentTypeGroup :=
    (hbound b hb).elim (fun h ↦ absurd h.1 hsource) (·.2)
  refine mem_append_left _ (mem_filterMap.2 ⟨b, mem_filter.2 ⟨hb, ?_⟩, ?_⟩)
  · rw [hmember]
    rfl
  · rw [hmember]
    rfl

/-- Both sides of the group are probed. -/
theorem groupEnd_mem_checks (hbound : ∀ b ∈ bindings, b.Bound)
    (hnonempty : ∃ b ∈ bindings, b.source ≠ .cellDep) (side : Side)
    (haccounted : Accounted side bindings) :
    Check.groupEnd side.source.location (rolesOn side bindings).length ∈ checks bindings := by
  obtain ⟨b, hb, hsource⟩ := hnonempty
  have hmember : b.membership = .currentTypeGroup :=
    (hbound b hb).elim (fun h ↦ absurd h.1 hsource) (·.2)
  have hany : (bindings.filter (·.membership ≠ .unproven)).any
      (·.membership = .currentTypeGroup) := by
    refine any_eq_true.2 ⟨b, mem_filter.2 ⟨hb, ?_⟩, decide_eq_true hmember⟩
    rw [hmember]
    rfl
  have hcount : groupCount (bindings.filter (·.membership ≠ .unproven)) side.source
      = (rolesOn side bindings).length := by
    have hperm := haccounted
    rw [Accounted, ← length_map (·.ordinal)] at hperm
    have hmax := max?_ordinals hperm
    rw [map_map, length_map] at hmax
    rw [groupCount, filter_source_eq hbound]
    exact hmax
  refine mem_append_right _ ?_
  rw [if_pos hany, ← hcount]
  cases side with
  | input => exact mem_cons_self
  | output => exact mem_cons_of_mem _ mem_cons_self

/-- A cell of the group that the running script does not lock makes it a type script. -/
theorem kind_of_isMember {side : Side} {index : ℕ} {c : Cell}
    (hc : (tx.cells side.source.location)[index]? = some c) (hmember : isMember tx .type c) :
    tx.kind = .type := by
  obtain ⟨-, hlock⟩ := isMember_iff.1 hmember
  have hmem := mem_of_getElem? hc
  cases hkind : tx.kind with
  | type => rfl
  | lock =>
    cases side with
    | input =>
      obtain ⟨i, hi, rfl⟩ := mem_map.1 hmem
      have hgroup := (mem_filter.1 hi).2
      rw [Transaction.inGroup, hkind] at hgroup
      exact absurd (congrArg some (beq_iff_eq.1 hgroup)) hlock
    | output =>
      have hempty : tx.cells Side.output.source.location = [] := by
        show tx.groupOutputs = []
        rw [Transaction.groupOutputs, hkind]
      rw [hempty] at hmem
      exact absurd hmem not_mem_nil

/-- **The checks of a planned action account for the whole group.** -/
theorem groupAccounted_of_holds {action : IrAction} (hplanned : Planned action)
    (hholds : ∀ c ∈ checks action.body.cellBindings, c.Holds tx) :
    GroupAccounted tx action.body.cellBindings := by
  obtain ⟨hbound, hnonempty, haccounted, -⟩ := hplanned
  have hmember : ∀ b ∈ action.body.cellBindings, b.source ≠ .cellDep →
      ∃ c, (tx.cells b.source.location)[b.ordinal % 2 ^ 64]? = some c ∧ isMember tx .type c := by
    intro b hb hsource
    have h := hholds _ (mem_checks_of_source hbound hb hsource)
    rw [Check.Holds] at h
    cases hc : (tx.cells b.source.location)[b.ordinal % 2 ^ 64]? with
    | none =>
      rw [hc] at h
      exact nomatch h
    | some c => exact ⟨c, rfl, by rwa [hc] at h⟩
  have hside : ∀ side, (tx.cells side.source.location).length
      = (rolesOn side action.body.cellBindings).length ∧
        ∀ b ∈ rolesOn side action.body.cellBindings, b.ordinal % 2 ^ 64 = b.ordinal := by
    intro side
    have hend := hholds _ (groupEnd_mem_checks hbound hnonempty side (haccounted side))
    have hperm := haccounted side
    rw [Accounted, ← length_map (·.ordinal)] at hperm
    obtain ⟨hlength, hmod⟩ := length_eq_of_ordinals (tx.length_cells side.source.location) hperm
      (fun k hk ↦ by
        obtain ⟨b, hb, rfl⟩ := mem_map.1 hk
        obtain ⟨hb, hbside⟩ := mem_filter.1 hb
        have hsource := ((hbound b hb).side_iff side).1 (of_decide_eq_true hbside)
        obtain ⟨c, hc, -⟩ := hmember b hb (by rw [hsource]; cases side <;> decide)
        rw [hsource] at hc
        exact (List.getElem?_eq_some_iff.1 hc).1)
      (by rw [length_map]; exact getElem?_eq_none_iff.1 hend)
    rw [length_map] at hlength
    exact ⟨hlength, fun b hb ↦ hmod _ (mem_map_of_mem hb)⟩
  have hrole : ∀ b ∈ action.body.cellBindings, b.source ≠ .cellDep →
      (b.source = .groupInput ∨ b.source = .groupOutput) ∧
        ∃ side, b.source = side.source ∧ b ∈ rolesOn side action.body.cellBindings := by
    intro b hb hsource
    obtain hgroup := ((hbound b hb).resolve_left fun h ↦ hsource h.1).1
    obtain ⟨side, hside⟩ : ∃ side : Side, b.source = side.source :=
      hgroup.elim (fun h ↦ ⟨.input, h⟩) fun h ↦ ⟨.output, h⟩
    exact ⟨hgroup, side, hside, mem_filter.2
      ⟨hb, decide_eq_true (((hbound b hb).side_iff side).2 hside)⟩⟩
  refine ⟨?_, ?_, (hside .output).1, fun b hb hsource ↦ ?_⟩
  · obtain ⟨b, hb, hsource⟩ := hnonempty
    obtain ⟨c, hc, hcell⟩ := hmember b hb hsource
    obtain ⟨-, side, hside, -⟩ := hrole b hb hsource
    exact kind_of_isMember (hside ▸ hc) hcell
  · rw [← (hside .input).1]
    exact (length_map _).symm
  · obtain ⟨c, hc, hcell⟩ := hmember b hb hsource
    obtain ⟨hgroup, side, -, hmem⟩ := hrole b hb hsource
    rw [(hside side).2 b hmem] at hc
    exact ⟨hgroup, c, hc, (isMember_iff.1 hcell).1⟩

end Count

/-! ### The result -/

/-- **A bound module accounts for the whole group, once.** If the pass fails, the module is as
before. If it succeeds, each exported action of the module has roles that correspond to the first
ordinals of their side; a transaction on which its emitted checks pass has exactly these cells in
the group; and every path to a return without a runtime error meets each lifecycle block once. -/
theorem bindArtifactPolicy_accounts (d : ArtifactDeclaration) (module module' : IrModule)
    (result : Result Unit) (h : (bindArtifactPolicy d).run.run module = (result, module')) :
    (∀ e, result = .error e → module' = module) ∧
    (result = .ok () → ∀ e ∈ d.actions, ∃ action ∈ module'.actions, action.name = e.action ∧
      (∀ side, Accounted side action.body.cellBindings) ∧
      (∀ (env : Environment) (helpers : String → Option Program) (g : Emitter) (n : ℕ) (s : State),
        helpers "__cellscript_require_cell_membership" = some requireCellMembership →
        Passes env helpers g n action.body.cellBindings s →
        GroupAccounted env.tx action.body.cellBindings) ∧
      MeetsOnce action.body) := by
  rw [bindArtifactPolicy_run] at h
  cases hstage : stage d module with
  | error e =>
    simp only [hstage] at h
    obtain ⟨rfl, rfl⟩ := Prod.mk.inj h
    exact ⟨fun _ _ ↦ rfl, nofun⟩
  | ok staged =>
    simp only [hstage] at h
    obtain ⟨rfl, rfl⟩ := Prod.mk.inj h
    refine ⟨nofun, fun _ e he ↦ ?_⟩
    obtain ⟨action, haction, -, -⟩ := stage_ok hstage e he
    have hmem : action ∈ module.actions := mem_reverse.1 (mem_of_find?_eq_some haction)
    have hname : action.name = e.action := by simpa using find?_some haction
    have hmem' : action.commit d.resource staged ∈ (module.commit d.resource staged).actions := by
      rw [IrModule.actions, IrModule.commit, filterMap_action_commit]
      exact mem_map_of_mem hmem
    have hname' : (action.commit d.resource staged).name = e.action := by
      rw [IrAction.name_commit, hname]
    have hplanned := planned_of_stage hstage he hmem' hname'
    refine ⟨_, hmem', hname', hplanned.accounted, fun env helpers g n s hhelper hpasses ↦ ?_,
      hplanned.once⟩
    exact groupAccounted_of_holds hplanned ((passes_iff hhelper).1 hpasses)

section Sample

/-- One input and one output of `Token`. -/
def sampleBody : IrBody where
  cellBindings := [⟨"before", .input, some 0, "Token", .input, 0, .unproven⟩,
    ⟨"after", .output, some 1, "Token", .output, 0, .unproven⟩]
  consumeSet := ["before"]
  createSet := ["after"]
  mutateSet := []
  writeIntents := []
  boundedCollectionOps := []
  blocks := [⟨0, [.consume], .jump 1, none⟩, ⟨1, [.create], .ret none, none⟩]
  nodup := by decide

def sampleModule : IrModule where
  items := [.typeDef ⟨"Token", .resource⟩, .action ⟨"transfer", none, [], none, sampleBody⟩]
  externalTypeDefs := []
  externalCallableAbis := []
  nodup := by decide

def sampleDeclaration : ArtifactDeclaration := ⟨"TokenPolicy", "Token", [⟨0, "transfer"⟩], []⟩

theorem length_ones : (replicate 32 (1 : UInt8)).length = 32 := rfl

/-- A transaction with one `Token` on each side of the group. -/
def sampleCell : Cell where
  capacity := 0
  lock := []
  lockHash := replicate 32 1
  type := some []
  typeHash := some (replicate 32 2)
  data := []
  length_lock := Transaction.empty.length_script
  length_lockHash := length_ones
  length_type := by decide
  length_typeHash := by decide
  length_data := Transaction.empty.length_script

def sampleEnvironment : Environment where
  tx := { Transaction.empty with
    scriptHash := replicate 32 2
    inputs := [⟨⟨replicate 32 0, 0, Transaction.empty.length_hash⟩, sampleCell⟩]
    outputs := [sampleCell]
    length_scriptHash := by decide
    length_inputs := by decide
    length_outputs := by decide }
  reports := true
  symbol := fun _ ↦ 0#64
  returnAddress := 0#64

theorem stage_sample : ∃ staged, stage sampleDeclaration sampleModule = .ok staged := by
  have hentries : (stageActions sampleDeclaration sampleModule).toOption.any
      (·.2 = [("transfer", true)]) := by
    decide +kernel
  obtain ⟨⟨staged, entries⟩, hactions, hentries⟩ := exists_of_toOption_any hentries
  obtain rfl : entries = [("transfer", true)] := of_decide_eq_true hentries
  have hcalls : validateEntryCalls sampleModule.callables [] ("transfer", true) = .ok [] :=
    validateCalls_of_forall (by decide) "transfer" true [] []
  refine ⟨staged, ?_⟩
  rw [stage, hactions]
  show ([("transfer", true)].foldlM (validateEntryCalls sampleModule.callables) [] >>= fun _ ↦
    .ok staged) = Except.ok staged
  rw [foldlM_cons, hcalls]
  rfl

theorem holds_sample : ∀ c ∈ checks (sampleBody.cellBindings.map rebind),
    c.Holds sampleEnvironment.tx := by
  have hchecks : checks (sampleBody.cellBindings.map rebind) =
      [.member .groupInput 0 .type, .member .groupOutput 0 .type, .groupEnd .groupInput 1,
        .groupEnd .groupOutput 1] := by
    decide +kernel
  refine forall_mem_cons.2 ⟨?_, forall_mem_cons.2 ⟨?_, forall_mem_cons.2
    ⟨rfl, forall_mem_cons.2 ⟨rfl, nofun⟩⟩⟩⟩
  · show ((sampleEnvironment.tx.cells .groupInput)[0 % 2 ^ 64]?.any _) = true
    decide +kernel
  · show ((sampleEnvironment.tx.cells .groupOutput)[0 % 2 ^ 64]?.any _) = true
    decide +kernel

end Sample

/-- The policy of the sample is accepted, and its checks pass on a transaction. -/
theorem bindArtifactPolicy_accounts_transfer :
    ∃ module' action, (bindArtifactPolicy sampleDeclaration).run.run sampleModule =
      (.ok (), module') ∧ action ∈ module'.actions ∧ action.name = "transfer" ∧
      Passes sampleEnvironment (fun _ ↦ some requireCellMembership) ⟨"transfer", 2048⟩ 0
        action.body.cellBindings ⟨fun _ ↦ 0#64, fun _ ↦ 0⟩ ∧
      GroupAccounted sampleEnvironment.tx action.body.cellBindings ∧ MeetsOnce action.body := by
  obtain ⟨staged, hstage⟩ := stage_sample
  have hrun : (bindArtifactPolicy sampleDeclaration).run.run sampleModule
      = (.ok (), sampleModule.commit "Token" staged) := by
    rw [bindArtifactPolicy_run, hstage]
    rfl
  obtain ⟨-, haccounts⟩ := bindArtifactPolicy_accounts sampleDeclaration sampleModule _ _ hrun
  obtain ⟨action, hmem, hname, -, hgroup, honce⟩ := haccounts rfl ⟨0, "transfer"⟩ mem_cons_self
  have hbindings : action.body.cellBindings = sampleBody.cellBindings.map rebind := by
    obtain ⟨action', haction', -, hlookup⟩ := stage_ok hstage ⟨0, "transfer"⟩ mem_cons_self
    obtain rfl : ⟨"transfer", none, [], none, sampleBody⟩ = action' := some.inj haction'
    rw [IrModule.actions, IrModule.commit, filterMap_action_commit] at hmem
    obtain ⟨action₀, hmem₀, rfl⟩ := mem_map.1 hmem
    obtain rfl : action₀ = ⟨"transfer", none, [], none, sampleBody⟩ := mem_singleton.1 hmem₀
    rw [IrAction.commit]
    simp only [hlookup]
  have hpasses : Passes sampleEnvironment (fun _ ↦ some requireCellMembership) ⟨"transfer", 2048⟩ 0
      action.body.cellBindings ⟨fun _ ↦ 0#64, fun _ ↦ 0⟩ :=
    (passes_iff rfl).2 (hbindings ▸ holds_sample)
  exact ⟨_, action, hrun, hmem, hname, hpasses, hgroup _ _ _ _ _ rfl hpasses, honce⟩

end CellScript.GroupPolicy
