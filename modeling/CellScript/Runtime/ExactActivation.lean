import CellScript.Runtime.ExactFill
import CellScript.Runtime.Frame

/-!
# Exact reads in nested activations

A function that owns an exact-read cache keeps it in its frame: the prologue empties the cache and
saves the registers of the caller's one in its header, and the epilogue restores them. A function
without a cache of its own reads through that of its caller.

The result is that no interleaving of reads, other work and calls can make a read return anything
but what a direct read of the transaction returns, or fail where a direct read does not.
-/

namespace CellScript.Runtime.ExactRead

open Assembler (Instruction)
open BitVec (ofNat)
open Bytes (ofLe field)
open MachineState
open Blocks

/-! ### The helpers -/

/-- The runtime helpers that read through the cache. -/
inductive ReadHelper
  | cellDataU8
  | cellDataU32Le
  | cellDataU64Le
  | witnessU8
  | witnessU32Le
  | witnessU64Le
  | cellLockU8
  | cellTypeU8
  deriving DecidableEq

namespace ReadHelper

def symbol : ReadHelper → String
  | cellDataU8 => "__ckb_cell_data_u8"
  | cellDataU32Le => "__ckb_cell_data_u32_le"
  | cellDataU64Le => "__ckb_cell_data_u64_le"
  | witnessU8 => "__ckb_witness_u8"
  | witnessU32Le => "__ckb_witness_u32_le"
  | witnessU64Le => "__ckb_witness_u64_le"
  | cellLockU8 => "__ckb_cell_lock_u8"
  | cellTypeU8 => "__ckb_cell_type_u8"

def source : ReadHelper → ByteSource
  | cellDataU8 | cellDataU32Le | cellDataU64Le => .cellData
  | witnessU8 | witnessU32Le | witnessU64Le => .witness
  | cellLockU8 => .cellLock
  | cellTypeU8 => .cellType

def width : ReadHelper → ℕ
  | cellDataU8 | witnessU8 | cellLockU8 | cellTypeU8 => 1
  | cellDataU32Le | witnessU32Le => 4
  | cellDataU64Le | witnessU64Le => 8

def program (hot : Bool) (h : ReadHelper) : Program := exactRead hot h.symbol h.source h.width

theorem width_cases (h : ReadHelper) : h.width = 1 ∨ h.width = 4 ∨ h.width = 8 := by
  cases h <;> decide

theorem extends_cached (hot : Bool) (h : ReadHelper) :
    Program.Extends (h.program hot) (exactReadCached hot) := by
  have hsymbol : (exactReadCached hot).at? h.symbol = none := by cases h <;> rfl
  have hslow : ∀ body, Program.Extends
      (⟨"exact_read_scalar_slow", body⟩ :: exactReadCached hot) (exactReadCached hot) :=
    fun body ↦ Program.Extends.cons rfl
  rw [program, exactRead]
  split
  · intro l x hx
    refine Program.Extends.cons ?_ l x (hslow _ l x hx)
    cases h <;> exact hsymbol
  · exact Program.Extends.cons hsymbol

theorem entry_program (hot : Bool) (h : ReadHelper) :
    Program.entry (h.program hot) = some h.symbol := by
  rw [program, exactRead]
  split <;> rfl

end ReadHelper

variable {helpers : String → Option Program} {s : State} {hot : Bool}

section Helpers

variable {env : Environment} {C : Code (machine env.surroundings helpers)} {b view offset : Word}
  {h : ReadHelper}

/-- **A helper returns what a direct read returns, or goes to the end of the process.** -/
theorem runsAt_readHelper (hprogram : C.program.Extends (h.program hot))
    (hcached : Cached hot env.tx b s) (hra : s.get ra = C.link) (ha0 : s.get a0 = view)
    (ha1 : s.get a1 = offset) (ha2 : s.get a2 = b)
    (hok : ∀ v s', directRead env.tx h.source view offset h.width = .ok v →
      Served hot env.tx b v s s' → C.post s')
    (hno : ∀ err s', directRead env.tx h.source view offset h.width = .error err →
      s'.get a0 = ofNat 64 err.code → s'.get ra = C.link →
      C.RunsAt "__cellscript_abort" s') : C.RunsAt h.symbol s := by
  have hextends : C.program.Extends (exactReadCached hot) :=
    fun l x hx ↦ hprogram l x (h.extends_cached hot l x hx)
  have hkept : Kept hot env.tx b s s := ⟨hcached, .refl, .refl, .refl⟩
  have hslow : ∀ {l : String} {fall : Option String} {s' : State},
      C.program.at? l = some (slowRead h.source h.width, fall) →
      Quiet [t0, t1, t2, t4] s s' → C.RunsAt l s' := by
    intro l fall s' hat hquiet
    rw [runsAt_iff hat]
    simp (disch := decide) only [slowRead, runs_rules, act]
    have hasks : Asks view h.source.word offset h.width
        ((s'.set a3 (ofNat 64 h.width)).set a4 (ofNat 64 h.source.kind)) :=
      ⟨(hquiet.get a0).trans ha0, (hquiet.get a1).trans ha1, rfl, rfl⟩
    have hquiet' : Quiet [a3, a4, t0, t1, t2, t4] s s' := hquiet.mono
    exact runsAt_cached hextends h.width_cases hra hok
      ⟨hkept.step (show Quiet [a3, a4, t0, t1, t2, t4] s _ by simp [hquiet']), hasks,
        (hquiet.get a2).trans ha2⟩
      fun s₁ h₁ ↦ runsAt_miss hextends h.width_cases hra hok h₁ hno
  by_cases hshort : hot ∧ h.width ≤ 4
  · obtain ⟨rfl, hwidth⟩ := hshort
    have hprogram' : h.program true = ⟨h.symbol, hotRead h.source h.width⟩ ::
        ⟨"exact_read_scalar_slow", slowRead h.source h.width⟩ :: exactReadCached true := by
      rw [ReadHelper.program, exactRead, if_pos ⟨rfl, hwidth⟩]
      rfl
    have hslowAt : C.program.at? "exact_read_scalar_slow" =
        some (slowRead h.source h.width, some "__cellscript_exact_read_cached") := by
      refine hprogram _ _ ?_
      rw [hprogram']
      cases h <;> rfl
    have hat : C.program.at? h.symbol = some (hotRead h.source h.width,
        some "exact_read_scalar_slow") := by
      refine hprogram _ _ ?_
      rw [hprogram']
      exact if_pos rfl
    rw [runsAt_iff hat]
    simp (disch := decide) only [hotRead, runs_rules, act, set_rules, ha0, ha1]
    refine ite_branch (fun _ ↦ hslow hslowAt (by simp)) fun hvalid ↦
      ite_branch (fun _ ↦ hslow hslowAt (by simp)) fun hview ↦
      ite_branch (fun _ ↦ hslow hslowAt (by simp)) fun hkind ↦
      ite_branch (fun _ ↦ hslow hslowAt (by simp)) fun hstart ↦
      ite_branch (fun _ ↦ hslow hslowAt (by simp)) fun hlong ↦
      ite_branch (fun _ ↦ hslow hslowAt (by simp)) fun hin ↦ ?_
    have hhit : HotHit view h.source.word offset h.width s :=
      hotHit_of_checks (by omega) hvalid hview hkind hstart hlong hin
    obtain ⟨-, -, -, hbuffer, hread⟩ := hhit.directRead_eq hcached
    have hfirst : ∀ {s₁ : State}, Loaded a0 t0 t1 0 1 s₁
        (s₁.set a0 (load s₁.mem (s₁.get t0 + 0#64) 1)) :=
      fun {s₁} ↦ ⟨get_set_self, by simp, rfl⟩
    refine runs_joinBytes_one (by decide) hfirst fun s₅ h₅ ↦ ?_
    have hwidth' : 1 + (h.width - 1) = h.width := by
      rcases h.width_cases with hw | hw | hw <;> rw [hw]
    have hquiet : Quiet [a0, a1, t0, t1, t2, t4] s s₅ :=
      Quiet.trans (by simp) (show Quiet [a0, t1] _ s₅ from ⟨h₅.regs, h₅.mem⟩)
    simp (disch := decide) only [runs_rules, act, follows_ret, set_rules, hquiet.kept ra]
    refine ⟨hra, hok _ _ hread
      ⟨hkept.step (show Quiet [a0, a1, t0, t1, t2, t4] s _ by simp [hquiet]), ?_, rfl⟩⟩
    rw [get_set_of_ne, h₅.value, hwidth', BitVec.add_zero, ← hbuffer]
    rfl
  · have hat : C.program.at? h.symbol = some (slowRead h.source h.width,
        some "__cellscript_exact_read_cached") := by
      refine hprogram _ _ ?_
      rw [ReadHelper.program, exactRead, if_neg hshort]
      exact if_pos rfl
    exact hslow hat .refl

/-- **A read that succeeds returns.** -/
theorem exists_calls_readHelper (hhelper : helpers h.symbol = some (h.program hot))
    (hcached : Cached hot env.tx (s.get a2) s) {v : Word}
    (hread : directRead env.tx h.source (s.get a0) (s.get a1) h.width = .ok v) :
    ∃ s', Calls (machine env.surroundings helpers) h.symbol s s' ∧
      Served hot env.tx (s.get a2) v s s' := by
  refine exists_calls hhelper (h.entry_program hot) (runsAt_readHelper Program.Extends.refl hcached
    rfl rfl rfl rfl (fun v' s' hv' hs' ↦ ?_) fun err s' herr ↦ nomatch hread.symm.trans herr)
  obtain rfl := ok.inj (hread.symm.trans hv')
  exact hs'

/-- **A read that fails ends the process.** -/
theorem leaves_readHelper (helpers : String → Option Program)
    (hcached : Cached hot env.tx (s.get a2) s) {err : RuntimeError}
    (hread : directRead env.tx h.source (s.get a0) (s.get a1) h.width = .error err) :
    Leaves env.surroundings helpers (h.program hot) "__cellscript_abort"
      (·.get a0 = ofNat 64 err.code) s := by
  refine leaves_of_runsAt (h.entry_program hot) ?_ fun C hprogram hlink hrun ↦ ?_
  · cases hot <;> cases h <;> rfl
  · refine runsAt_readHelper hprogram hcached hlink.symm rfl rfl rfl
      (fun v s' hv ↦ nomatch hread.symm.trans hv) fun err' s' herr' ha0 hra ↦ hrun s' ?_ hra
    obtain rfl := Except.error.inj (hread.symm.trans herr')
    exact ha0

end Helpers

/-! ### Frames -/

/-- The registers of the caller's cache, and where in the header of a cache they are saved. -/
def savedSlots (hot : Bool) : List (Reg × ℕ) :=
  (s11, 16) :: if hot then [(s10, 24), (s9, 32), (s8, 40), (s7, 48), (s6, 56), (s5, 64)] else []

/-- What the prologue stores in a cache: the words of an empty cache, and the caller's registers. -/
def cacheSlots (hot : Bool) : List (Reg × ℕ) :=
  [(zero, 0), (zero, 8)] ++ savedSlots hot ++
    (List.range 4).map fun way ↦ (zero, entry hot way + 24)

/-- The frame of a function, with the place of its cache if it owns one. -/
structure Layout (hot : Bool) where
  size : ℕ
  cache : Option ℕ
  size_le : 16 ≤ size
  cache_le : ∀ offset ∈ cache, offset + cacheSize hot + 16 ≤ size

namespace Layout

variable {e : Surroundings} {C : Code (machine e helpers)} {rest : List Instruction}
  {fall : Option String} {s' : State} {g : Layout hot} {tx : Transaction} {f l : String}

/-- The code of `emit_prologue`. -/
def prologue (g : Layout hot) : List Instruction :=
  largeAddi sp sp (-g.size) ++ (stackStore ra (g.size - 8) ++ (stackStore fp (g.size - 16) ++
    (spAddi fp g.size ++
      match g.cache with
      | none => []
      | some offset => stackStores offset (cacheSlots hot) ++ (spAddi s11 offset ++
        if hot then [.li s10 0] else []))))

/-- The code of `emit_epilogue_body`. -/
def epilogue (g : Layout hot) : List Instruction :=
  (match g.cache with
    | none => []
    | some offset => stackLoads offset (savedSlots hot).reverse) ++
  (stackLoad ra (g.size - 8) ++ (stackLoad fp (g.size - 16) ++ (largeAddi sp sp g.size ++ [.ret])))

/-- The registers that belong to caches. -/
abbrev cacheRegs : List Reg := [s5, s6, s7, s8, s9, s10, s11]

theorem mem_savedSlots :
    ∀ slot ∈ savedSlots hot, slot.1 ∈ cacheRegs ∧ slot.1 ∉ [zero, ra, sp, fp, t5, t6] := by
  cases hot <;> decide

/-- A function has been entered. -/
structure Entered (g : Layout hot) (tx : Transaction) (s s' : State) : Prop where
  stack : s'.get sp = s.get sp + BitVec.ofInt 64 (-g.size)
  above : Agree (s'.get sp) g.size (2 ^ 64) s.mem s'.mem
  inherited : g.cache = none → ∀ r ∈ cacheRegs, s'.get r = s.get r
  cached : ∀ offset ∈ g.cache, s'.get s11 = s'.get sp + ofNat 64 offset ∧
    Cached hot tx (s'.get s11) s' ∧ ∀ slot ∈ savedSlots hot,
      load s'.mem (s'.get sp + ofNat 64 (offset + slot.2)) 8 = s.get slot.1

/-- An empty cache. -/
theorem cached_empty {b : Word} (hcursor : load s.mem (b + 0#64) 8 = 0#64)
    (hlast : load s.mem (b + 8#64) 8 = 0#64)
    (hvalid : ∀ way < 4, load s.mem (b + ofNat 64 (entry hot way + 24)) 8 = 0#64)
    (hhot : hot = true → s.get s10 = 0#64) : Cached hot tx b s := by
  refine ⟨⟨0, by decide, hcursor⟩, fun way hway hne ↦ absurd ?_ hne, .inl hlast,
    fun h ↦ .inl (hhot h)⟩
  rw [add_ofNat_add_ofNat, hvalid way hway]

theorem runs_prologue (tx : Transaction) (hsize : g.size ≤ 2 ^ 64)
    (hrun : ∀ s', Entered g tx s s' → s'.get ra = s.get ra → C.Runs [] fall s') :
    C.Runs g.prologue fall s := by
  have hle := g.size_le
  refine runs_stackAdjustment fun s₁ hsp₁ h₁ ↦ ?_
  simp (disch := decide) only [slot_rules]
  generalize hs₄ : State.set _ fp _ = s₄
  have hsp₄ : s₄.get sp = s₁.get sp := by
    simp (disch := decide) only [← hs₄, slot_rules, set_rules]
  have habove₄ : Agree (s₁.get sp) g.size (2 ^ 64) s.mem s₄.mem := by
    simp only [← hs₄, slot_rules, set_rules, h₁.mem]
    exact Agree.refl.store.store
  have hregs₄ : Keeps [sp, fp, t5, t6] s s₄ := by
    refine h₁.regs.mono.trans (show Keeps [sp, fp, t5, t6] s₁ s₄ from ?_)
    rw [← hs₄]
    simp
  cases hcache : g.cache with
  | none =>
    refine hrun s₄ ⟨hsp₄.trans hsp₁, by rwa [hsp₄], fun _ r hr ↦ hregs₄ r ?_,
      fun offset hoffset ↦ by cases hcache.symm.trans hoffset⟩ (hregs₄.get ra)
    revert r
    decide
  | some offset =>
    have hfits := g.cache_le offset hcache
    have hslots : ∀ slot ∈ cacheSlots hot, slot.1 ∉ [t5, t6] ∧ slot.2 + 8 ≤ cacheSize hot := by
      cases hot <;> decide
    have hapart : SlotsApart (cacheSlots hot) := by cases hot <;> decide
    refine runs_stackStores (fun slot hslot ↦ (hslots slot hslot).1) hapart (fun slot hslot ↦ ?_)
      fun s₅ h₅ ↦ ?_
    · have := (hslots slot hslot).2
      omega
    have hbase : ∀ k, s₄.get sp + ofNat 64 offset + ofNat 64 k =
        s₄.get sp + ofNat 64 (offset + k) := add_ofNat_add_ofNat _ _
    have hdone : ∀ s₇, Quiet [s10, s11] s₅ s₇ → s₇.get s11 = s₄.get sp + ofNat 64 offset →
        (hot = true → s₇.get s10 = 0#64) → C.Runs [] fall s₇ := by
      intro s₇ h₇ hs11 hhot
      have hsp₇ : s₇.get sp = s₄.get sp := (h₇.get sp).trans (h₅.regs.get sp)
      refine hrun s₇ ⟨hsp₇.trans (hsp₄.trans hsp₁), ?_, fun hnone ↦
        (by cases hcache.symm.trans hnone), fun offset' hoffset ↦ ?_⟩ ?_
      · rw [hsp₇, h₇.mem]
        rw [← hsp₄] at habove₄
        refine habove₄.trans (h₅.agree g.size _ le_rfl fun slot hslot ↦ .inl ?_)
        have := (hslots slot hslot).2
        omega
      · obtain rfl := mem_unique hcache hoffset
        rw [hsp₇, hs11]
        refine ⟨rfl, cached_empty ?_ ?_ (fun way hway ↦ ?_) hhot, fun slot hslot ↦ ?_⟩
        · rw [hbase, h₇.mem, h₅.values (zero, 0) (by simp [cacheSlots])]
          rfl
        · rw [hbase, h₇.mem, h₅.values (zero, 8) (by simp [cacheSlots])]
          rfl
        · rw [hbase, h₇.mem, h₅.values (zero, entry hot way + 24) ?_]
          · rfl
          · refine mem_append_right _ (mem_map.2 ⟨way, mem_range.2 hway, rfl⟩)
        · rw [h₇.mem, h₅.values slot (by simp [cacheSlots, hslot])]
          exact hregs₄ slot.1 fun h ↦ (mem_savedSlots slot hslot).2 ((show
            [sp, fp, t5, t6] ⊆ [zero, ra, sp, fp, t5, t6] by decide) h)
      · rw [h₇.get ra, h₅.regs.get ra, hregs₄.get ra]
    simp (disch := decide) only [slot_rules, h₅.regs.kept sp]
    split
    · next hhot =>
      rw [runs_cons, act]
      exact hdone _ (by simp) rfl fun _ ↦ get_set_self
    · next hhot => exact hdone _ (by simp) get_set_self fun h ↦ absurd h hhot

/-- A function has been left. -/
structure Exited (g : Layout hot) (s s' : State) : Prop where
  stack : s'.get sp = s.get sp + ofNat 64 g.size
  mem : s'.mem = s.mem
  inherited : g.cache = none → ∀ r ∈ cacheRegs, s'.get r = s.get r
  restored : ∀ offset ∈ g.cache, ∀ slot ∈ savedSlots hot,
    s'.get slot.1 = load s.mem (s.get sp + ofNat 64 (offset + slot.2)) 8

/-- The end of an epilogue, after the registers of the cache. -/
theorem runs_epilogue_end {s₁ : State} (hsp : s₁.get sp = s.get sp) (hmem : s₁.mem = s.mem)
    (hlink : C.link = load s.mem (s.get sp + ofNat 64 (g.size - 8)) 8)
    (hQ : ∀ s', s'.get sp = s.get sp + ofNat 64 g.size → Quiet [ra, fp, sp, t5, t6] s₁ s' →
      C.post s') :
    C.Runs (stackLoad ra (g.size - 8) ++
      (stackLoad fp (g.size - 16) ++ (largeAddi sp sp g.size ++ [.ret]))) fall s₁ := by
  simp (disch := decide) only [slot_rules, set_rules, hsp, hmem]
  refine runs_stackAdjustment fun s₄ hsp₄ h₄ ↦ ?_
  rw [runs_cons, act]
  refine ⟨?_, hQ s₄ ?_ (Quiet.trans (by simp) h₄)⟩
  · rw [h₄.get ra, get_set_of_ne, get_addressed (by decide), get_set_self, hlink]
  · simpa (disch := decide) only [slot_rules, set_rules, hsp, ofInt_natCast] using hsp₄

theorem runs_epilogue (hlink : C.link = load s.mem (s.get sp + ofNat 64 (g.size - 8)) 8)
    (hQ : ∀ s', Exited g s s' → C.post s') : C.Runs g.epilogue fall s := by
  rw [epilogue]
  have hkeep : ∀ {s₁ s' : State}, Keeps [ra, fp, sp, t5, t6] s₁ s' →
      ∀ r ∈ cacheRegs, s'.get r = s₁.get r := by
    intro s₁ s' h r hr
    refine h r ?_
    revert r
    decide
  cases hcache : g.cache with
  | none =>
    refine runs_epilogue_end rfl rfl hlink fun s' hsp h ↦ hQ s' ⟨hsp, h.mem, fun _ ↦
      hkeep h.regs, fun offset hoffset ↦ by cases hcache.symm.trans hoffset⟩
  | some offset =>
    have hslots : ∀ slot ∈ (savedSlots hot).reverse, slot.1 ∉ [zero, sp, t5, t6] := by
      cases hot <;> decide
    have hdistinct : ((savedSlots hot).reverse.map (·.1)).Nodup := by cases hot <;> decide
    have hsp : sp ∉ t5 :: t6 :: (savedSlots hot).reverse.map (·.1) := by cases hot <;> decide
    refine runs_stackLoads hslots hdistinct fun s₁ h₁ ↦ ?_
    refine runs_epilogue_end (h₁.regs sp hsp) h₁.mem hlink fun s' hsp h ↦ hQ s'
      ⟨hsp, h.mem.trans h₁.mem, fun hnone ↦ (by cases hcache.symm.trans hnone),
        fun offset' hoffset slot hslot ↦ ?_⟩
    obtain rfl := mem_unique hcache hoffset
    rw [hkeep h.regs slot.1 (mem_savedSlots slot hslot).1, h₁.values slot (mem_reverse.2 hslot)]

/-- Control runs through the prologue of a function into its body: with a return there, it
returns. -/
def Enters (e : Surroundings) (helpers : String → Option Program) (g : Layout hot) (s s' : State) :
    Prop :=
  Runs (machine e helpers) [⟨"body", [.ret]⟩] (s.get ra) g.prologue (some "body") s (· = s')

/-- A function returns to where it was called from. -/
def Exits (e : Surroundings) (helpers : String → Option Program) (g : Layout hot) (link : Word)
    (s s' : State) : Prop :=
  Runs (machine e helpers) [] link g.epilogue none s (· = s')

theorem exists_enters (e : Surroundings) (helpers : String → Option Program) (tx : Transaction)
    (s : State) (hsize : g.size ≤ 2 ^ 64) : ∃ s', g.Enters e helpers s s' ∧ Entered g tx s s' := by
  have hat : Program.at? "body" [(⟨"body", [.ret]⟩ : Block)] = some ([.ret], none) := rfl
  have hrun : Code.Runs (M := machine e helpers) ⟨[⟨"body", [.ret]⟩], s.get ra, Entered g tx s⟩
      g.prologue (some "body") s := by
    refine runs_prologue tx hsize fun s' hs' hra ↦ ?_
    rw [runs_nil, runsAt_iff hat, runs_cons, act]
    exact ⟨hra, hs'⟩
  obtain ⟨n, s', hn, hs'⟩ := hrun
  exact ⟨s', ⟨n, s', hn, rfl⟩, hs'⟩

/-- **What a prologue does.** -/
theorem Enters.entered (h : g.Enters e helpers s s') (tx : Transaction) (hsize : g.size ≤ 2 ^ 64) :
    Entered g tx s s' := by
  obtain ⟨s₁, ⟨m, _, hm, rfl⟩, hs₁⟩ := exists_enters e helpers tx s hsize
  obtain ⟨n, _, hn, rfl⟩ := h
  exact exec_unique hn hm ▸ hs₁

/-- **What an epilogue does.** -/
theorem Exits.exited {link : Word} (h : g.Exits e helpers link s s') : Exited g s s' := by
  obtain ⟨n, _, hn, rfl⟩ := h
  have hrun : Code.Runs (M := machine e helpers)
      ⟨[], load s.mem (s.get sp + ofNat 64 (g.size - 8)) 8,
      Exited g s⟩ g.epilogue none s := runs_epilogue rfl fun _ ↦ id
  obtain ⟨m, s₁, hm, hs₁⟩ := hrun
  exact exec_unique hn hm ▸ hs₁

end Layout

end CellScript.Runtime.ExactRead
