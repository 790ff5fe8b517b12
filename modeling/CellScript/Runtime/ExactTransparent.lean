import CellScript.Runtime.ExactActivation

/-!
# The exact-read cache is transparent

What a function does between its prologue and its epilogue, as far as caches are concerned: it works
on registers and memory that belong to no cache, reads through its cache, and calls functions that
do the same. The caches that are alive lie in the frames from the stack pointer on.

`exact_reads_direct` is the result: along every such activity each read has the outcome of a direct
read, and a read that is asked for next will have it.
-/

namespace CellScript.Runtime.ExactRead

open BitVec (ofNat)
open MachineState
open Blocks Layout
open Layout (cacheRegs)

/-! ### Activities -/

/-- A read, with what came of it: a value, or the status with which the process ended. -/
structure ReadEvent where
  helper : ReadHelper
  view : Word
  offset : Word
  outcome : Except Word Word

/-- What comes of a direct read. -/
def directOutcome (tx : Transaction) (h : ReadHelper) (view offset : Word) : Except Word Word :=
  (directRead tx h.source view offset h.width).mapError fun err ↦ ofNat 64 err.code

/-- Where the caches lie that are alive in a function, from its stack pointer on: the one it reads
through, and those of its callers. -/
structure Caches where
  own : ℕ
  others : List ℕ

namespace Caches

def all (c : Caches) : List ℕ := c.own :: c.others

/-- The same caches, from a stack pointer further down. -/
def shift (d : ℕ) (c : Caches) : Caches := ⟨c.own + d, c.others.map (· + d)⟩

variable {k : ℕ} {c : Caches}

theorem add_mem_all_shift (hk : k ∈ c.all) (d : ℕ) : k + d ∈ (c.shift d).all :=
  mem_map_of_mem (f := (· + d)) hk

theorem add_mem_others_shift (hk : k ∈ c.others) (d : ℕ) : k + d ∈ (c.shift d).others :=
  mem_map_of_mem hk

/-- The caches do not overlap, and lie in the address space. -/
def Ordered (hot : Bool) (c : Caches) : Prop :=
  ∀ k ∈ c.others, c.own + cacheSize hot ≤ k ∧ k + cacheSize hot ≤ 2 ^ 64

end Caches

/-- The caches that are alive in a function that is called. -/
def Layout.caches {hot : Bool} (g : Layout hot) (c : Caches) : Caches :=
  match g.cache with
  | none => c.shift g.size
  | some offset => ⟨offset, (c.shift g.size).all⟩

variable {hot : Bool} {g : Layout hot}

section Caches

variable {offset : ℕ}

theorem Layout.caches_none (h : g.cache = none) (c : Caches) : g.caches c = c.shift g.size := by
  rw [caches, h]

theorem Layout.caches_some (h : g.cache = some offset) (c : Caches) :
    g.caches c = ⟨offset, (c.shift g.size).all⟩ := by
  rw [caches, h]

end Caches

/-- Code that does not touch caches, and moves the stack pointer. -/
structure Works (hot : Bool) (c : Caches) (d : ℤ) (s s' : State) : Prop where
  stack : s'.get sp = s.get sp + BitVec.ofInt 64 d
  regs : ∀ r ∈ cacheRegs, s'.get r = s.get r
  caches : ∀ k ∈ c.all, Agree (s.get sp) k (k + cacheSize hot) s.mem s'.mem

/-- There is room for the frame below the caches. -/
def Layout.Room {hot : Bool} (g : Layout hot) (c : Caches) : Prop :=
  ∀ k ∈ c.all, k + g.size + cacheSize hot ≤ 2 ^ 64

/-- **What a function does**, with the reads in it; it may end the process. The bytes of arguments
that a call passes on the stack are pushed before it, and taken off after it. -/
inductive Acts (env : Environment) (helpers : String → Option Program) (hot : Bool) :
    Caches → State → List ReadEvent → Option State → Prop
  | stop {c s} : Acts env helpers hot c s [] (some s)
  | work {c s s₁ events result} (hwork : Works hot c 0 s s₁)
      (hrest : Acts env helpers hot c s₁ events result) : Acts env helpers hot c s events result
  | read {c s s₁ events result} (h : ReadHelper) (ha2 : s.get a2 = s.get s11)
      (hcall : Calls (machine env.surroundings helpers) h.symbol s s₁)
      (hrest : Acts env helpers hot c s₁ events result) :
      Acts env helpers hot c s (⟨h, s.get a0, s.get a1, .ok (s₁.get a0)⟩ :: events) result
  | failed {c s} (h : ReadHelper) (code : Word) (ha2 : s.get a2 = s.get s11)
      (habort : Leaves env.surroundings helpers (h.program hot) "__cellscript_abort"
        (·.get a0 = code) s) :
      Acts env helpers hot c s [⟨h, s.get a0, s.get a1, .error code⟩] none
  | call {c s s₁ s₂ s₃ s₄ s₅ inner events result} (g : Layout hot) (arguments : ℕ)
      (hroom : g.Room (c.shift arguments)) (hpush : Works hot c (-arguments) s s₁)
      (henter : g.Enters env.surroundings helpers s₁ s₂)
      (hbody : Acts env helpers hot (g.caches (c.shift arguments)) s₂ inner (some s₃))
      (hexit : g.Exits env.surroundings helpers (s₁.get ra) s₃ s₄)
      (hpop : Works hot (c.shift arguments) arguments s₄ s₅)
      (hrest : Acts env helpers hot c s₅ events result) :
      Acts env helpers hot c s (inner ++ events) result
  | callFailed {c s s₁ s₂ inner} (g : Layout hot) (arguments : ℕ)
      (hroom : g.Room (c.shift arguments)) (hpush : Works hot c (-arguments) s s₁)
      (henter : g.Enters env.surroundings helpers s₁ s₂)
      (hbody : Acts env helpers hot (g.caches (c.shift arguments)) s₂ inner none) :
      Acts env helpers hot c s inner none

/-! ### What activities keep -/

/-- A function reads through its cache. -/
structure Reads (hot : Bool) (tx : Transaction) (c : Caches) (s : State) : Prop where
  base : s.get s11 = s.get sp + ofNat 64 c.own
  cached : Cached hot tx (s.get s11) s

/-- What an activity keeps: its cache stays one, its callers' registers stay saved, and its callers'
caches stay as they are. -/
structure Preserved (hot : Bool) (c : Caches) (s s' : State) : Prop where
  stack : s'.get sp = s.get sp
  header : Agree (s.get sp) (c.own + 16) (c.own + headerSize hot) s.mem s'.mem
  others : ∀ k ∈ c.others, Agree (s.get sp) k (k + cacheSize hot) s.mem s'.mem

variable {c : Caches} {s s' : State} {env : Environment} {helpers : String → Option Program}

section Preserved

variable {tx : Transaction} {b : Word} {s'' : State} {d : ℤ}

theorem Preserved.refl : Preserved hot c s s := ⟨rfl, .refl, fun _ _ ↦ .refl⟩

theorem Preserved.trans (h : Preserved hot c s s') (h' : Preserved hot c s' s'') :
    Preserved hot c s s'' :=
  ⟨h'.stack.trans h.stack, h.header.trans (h.stack ▸ h'.header),
    fun k hk ↦ (h.others k hk).trans (h.stack ▸ h'.others k hk)⟩

theorem Reads.agree (h : Reads hot tx c s) (hsp : s'.get sp = s.get sp)
    (hbase : s'.get s11 = s.get s11)
    (hmem : Agree (s.get sp) c.own (c.own + cacheSize hot) s.mem s'.mem)
    (hregs : hot = true → ∀ r ∈ [s5, s6, s7, s8, s9, s10], s'.get r = s.get r) :
    Reads hot tx c s' := by
  refine ⟨by rw [hbase, hsp, h.base], ?_⟩
  have hcached := h.cached
  rw [hbase]
  rw [h.base] at hcached ⊢
  refine hcached.agree (agree_add_iff.2 ?_) hregs
  rwa [zero_add, add_comm]

theorem cacheRegs_mem {r : Reg} (hr : r ∈ [s5, s6, s7, s8, s9, s10]) : r ∈ cacheRegs :=
  mem_append_left [s11] hr

theorem headerSize_le (hot : Bool) : headerSize hot ≤ cacheSize hot := by cases hot <;> decide

theorem savedSlots_le : ∀ slot ∈ savedSlots hot, 16 ≤ slot.2 ∧ slot.2 + 8 ≤ headerSize hot := by
  cases hot <;> decide

theorem Works.preserved (h : Works hot c 0 s s') (hreads : Reads hot tx c s) :
    Reads hot tx c s' ∧ Preserved hot c s s' := by
  have hsp : s'.get sp = s.get sp := h.stack.trans (add_zero _)
  have hown := h.caches c.own mem_cons_self
  have hheader := headerSize_le hot
  refine ⟨hreads.agree hsp (h.regs s11 (by decide)) hown fun _ r hr ↦ h.regs r (cacheRegs_mem hr),
    hsp, hown.mono, fun k hk ↦ h.caches k (mem_cons_of_mem _ hk)⟩

section Read

variable {h : ReadHelper}

/-- **A read has the outcome of a direct read**, and keeps the caches. -/
theorem Reads.preserved_of_calls (hreads : Reads hot env.tx c s) (hordered : c.Ordered hot)
    (hhelper : helpers h.symbol = some (h.program hot)) (ha2 : s.get a2 = s.get s11)
    (hcall : Calls (machine env.surroundings helpers) h.symbol s s') :
    .ok (s'.get a0) = directOutcome env.tx h (s.get a0) (s.get a1) ∧
      Reads hot env.tx c s' ∧ Preserved hot c s s' := by
  have hcached : Cached hot env.tx (s.get a2) s := ha2 ▸ hreads.cached
  cases hread : directRead env.tx h.source (s.get a0) (s.get a1) h.width with
  | error err => exact absurd hcall ((leaves_readHelper helpers hcached hread).not_calls hhelper)
  | ok v =>
    obtain ⟨s₁, hcall₁, hserved⟩ := exists_calls_readHelper hhelper hcached hread
    obtain rfl := hcall.unique hcall₁
    have hsp : s'.get sp = s.get sp := hserved.regs.get sp
    have hbase : s'.get s11 = s.get s11 := hserved.regs.get s11
    have hcached' := hserved.cached
    have hheader := hserved.header
    have houtside := hserved.outside
    rw [ha2] at hcached'
    rw [ha2, hreads.base, agree_add_iff] at hheader houtside
    refine ⟨?_, ⟨by rw [hbase, hsp, hreads.base], hbase ▸ hcached'⟩, hsp, ?_, fun k hk ↦ ?_⟩
    · rw [directOutcome, hread, hserved.value]
      rfl
    · exact hheader.mono
    · obtain ⟨hlo, hhi⟩ := hordered k hk
      exact houtside.mono

theorem Reads.eq_of_leaves (hreads : Reads hot env.tx c s)
    (hhelper : helpers h.symbol = some (h.program hot)) (ha2 : s.get a2 = s.get s11) {code : Word}
    (habort : Leaves env.surroundings helpers (h.program hot) "__cellscript_abort"
      (·.get a0 = code) s) : .error code = directOutcome env.tx h (s.get a0) (s.get a1) := by
  have hcached : Cached hot env.tx (s.get a2) s := ha2 ▸ hreads.cached
  cases hread : directRead env.tx h.source (s.get a0) (s.get a1) h.width with
  | ok v =>
    obtain ⟨s₁, hcall, -⟩ := exists_calls_readHelper hhelper hcached hread
    exact absurd hcall (habort.not_calls hhelper)
  | error err =>
    obtain ⟨s₁, hcode, herr⟩ := habort.exists_and (leaves_readHelper helpers hcached hread)
    rw [directOutcome, hread, ← hcode, herr]
    rfl

end Read

section Call

variable {s₁ s₂ s₃ s₄ s₅ : State} {n : ℕ}

theorem add_ofInt_neg_add (x : Word) (n : ℕ) : x + BitVec.ofInt 64 (-n) + ofNat 64 n = x := by
  rw [BitVec.ofInt_neg, ofInt_natCast, ← BitVec.sub_eq_add_neg, BitVec.sub_add_cancel]

theorem Layout.Room.size_le (hroom : g.Room c) : g.size ≤ 2 ^ 64 := by
  have := hroom c.own mem_cons_self
  omega

theorem Layout.Room.ordered_shift (hroom : g.Room (c.shift n)) (hordered : c.Ordered hot) :
    (c.shift n).Ordered hot := by
  intro k' hk'
  have hroom := hroom k' (mem_cons_of_mem _ hk')
  obtain ⟨k, hk, rfl⟩ := mem_map.1 hk'
  have hle := (hordered k hk).1
  show c.own + n + cacheSize hot ≤ k + n ∧ _
  omega

theorem Layout.Room.ordered (hroom : g.Room c) (hordered : c.Ordered hot) :
    (g.caches c).Ordered hot := by
  cases hcache : g.cache with
  | none =>
    rw [caches_none hcache]
    intro k' hk'
    obtain ⟨k, hk, rfl⟩ := mem_map.1 hk'
    have hle := (hordered k hk).1
    have hroom := hroom k (mem_cons_of_mem _ hk)
    show c.own + g.size + cacheSize hot ≤ k + g.size ∧ _
    omega
  | some offset =>
    rw [caches_some hcache]
    intro k' hk'
    obtain ⟨k, hk, rfl⟩ := mem_map.1 (show k' ∈ c.all.map (· + g.size) from hk')
    have hfits := g.cache_le offset hcache
    have hroom := hroom k hk
    show offset + cacheSize hot ≤ k + g.size ∧ _
    omega

/-- A function is being called: the state before the arguments are pushed and the one in the body,
with the memory of the caches seen from the callee. -/
structure Called (g : Layout hot) (c : Caches) (n : ℕ) (s s₁ s₂ : State) : Prop where
  stack : s.get sp = s₂.get sp + ofNat 64 (n + g.size)
  caches : ∀ k ∈ c.all, Agree (s₂.get sp) (k + (n + g.size)) (k + cacheSize hot + (n + g.size))
    s.mem s₂.mem
  regs : ∀ r ∈ cacheRegs, s₁.get r = s.get r

theorem Layout.Entered.called (h : g.Entered tx s₁ s₂) (hpush : Works hot c (-n) s s₁)
    (hroom : g.Room (c.shift n)) : Called g c n s s₁ s₂ := by
  have hstack : s.get sp = s₂.get sp + ofNat 64 (n + g.size) := by
    rw [Nat.add_comm, ← add_ofNat_add_ofNat, h.stack, add_ofInt_neg_add, hpush.stack,
      add_ofInt_neg_add]
  refine ⟨hstack, fun k hk ↦ ?_, hpush.regs⟩
  have hcaches := hpush.caches k hk
  rw [hstack, agree_add_iff] at hcaches
  have hroom := hroom (k + n) (Caches.add_mem_all_shift hk n)
  exact hcaches.trans h.above

theorem Called.reads (h : Called g c n s s₁ s₂) (hentered : g.Entered tx s₁ s₂)
    (hreads : Reads hot tx c s) : Reads hot tx (g.caches (c.shift n)) s₂ := by
  cases hcache : g.cache with
  | none =>
    rw [caches_none hcache]
    have hregs : ∀ r ∈ cacheRegs, s₂.get r = s.get r :=
      fun r hr ↦ (hentered.inherited hcache r hr).trans (h.regs r hr)
    have hs11 := hregs s11 (by decide)
    have hbase := hreads.base
    rw [h.stack, add_ofNat_add_ofNat] at hbase
    refine ⟨?_, ?_⟩
    · rw [hs11, hbase]
      show _ = s₂.get sp + ofNat 64 (c.own + n + g.size)
      congr 2
      omega
    · have hcached := hreads.cached
      have hown := h.caches c.own mem_cons_self
      rw [hs11]
      rw [hbase] at hcached ⊢
      refine hcached.agree (agree_add_iff.2 hown.mono) fun _ r hr ↦ hregs r (cacheRegs_mem hr)
  | some offset =>
    rw [caches_some hcache]
    obtain ⟨hbase, hcached, -⟩ := hentered.cached offset hcache
    exact ⟨hbase, hcached⟩

/-- The memory of a cache of the callers over a whole call. -/
theorem Called.agree {k lo hi : ℕ} (h : Called g c n s s₁ s₂) (hk : k ∈ c.all) (hlo : k ≤ lo)
    (hhi : hi ≤ k + cacheSize hot) (hsp : s₃.get sp = s₂.get sp)
    (hbody : Agree (s₂.get sp) (lo + (n + g.size)) (hi + (n + g.size)) s₂.mem s₃.mem)
    (hexited : g.Exited s₃ s₄) (hpop : Works hot (c.shift n) n s₄ s₅) :
    Agree (s.get sp) lo hi s.mem s₅.mem := by
  rw [h.stack, agree_add_iff]
  have hpop := hpop.caches (k + n) (Caches.add_mem_all_shift hk n)
  rw [hexited.stack, hsp, hexited.mem, agree_add_iff] at hpop
  exact (h.caches k hk).mono.trans (hbody.trans hpop)

theorem Called.left (h : Called g c n s s₁ s₂) (hentered : g.Entered tx s₁ s₂)
    (hreads : Reads hot tx c s) (hreads' : Reads hot tx (g.caches (c.shift n)) s₃)
    (hbody : Preserved hot (g.caches (c.shift n)) s₂ s₃) (hexited : g.Exited s₃ s₄)
    (hpop : Works hot (c.shift n) n s₄ s₅) : Reads hot tx c s₅ ∧ Preserved hot c s s₅ := by
  have hsp : s₅.get sp = s.get sp := by
    rw [hpop.stack, hexited.stack, hbody.stack, h.stack, ofInt_natCast, add_ofNat_add_ofNat,
      Nat.add_comm]
  cases hcache : g.cache with
  | none =>
    rw [caches_none hcache] at hreads' hbody
    have hregs : ∀ r ∈ cacheRegs, s₅.get r = s₃.get r :=
      fun r hr ↦ (hpop.regs r hr).trans (hexited.inherited hcache r hr)
    have hown : c.own ∈ c.all := mem_cons_self
    refine ⟨⟨?_, ?_⟩, hsp, ?_, fun k hk ↦ ?_⟩
    · rw [hregs s11 (by decide), hreads'.base, hsp, h.stack, hbody.stack, add_ofNat_add_ofNat]
      show _ + ofNat 64 (c.own + n + g.size) = _
      congr 2
      omega
    · have hcached := hreads'.cached
      have hmem := hpop.caches (c.own + n) (Caches.add_mem_all_shift hown n)
      rw [hexited.stack, hexited.mem, agree_add_iff] at hmem
      rw [hregs s11 (by decide)]
      rw [hreads'.base] at hcached ⊢
      refine hcached.agree (agree_add_iff.2 ?_) fun _ r hr ↦ hregs r (cacheRegs_mem hr)
      show Agree _ (0 + (c.own + n + g.size)) _ _ _
      exact hmem.mono (by omega) (by show cacheSize hot + (c.own + n + g.size) ≤ _; omega)
    · refine h.agree hown (Nat.le_add_right _ _) (Nat.add_le_add_left (headerSize_le hot) _)
        hbody.stack ?_ hexited hpop
      have hheader : Agree (s₂.get sp) (c.own + n + g.size + 16)
        (c.own + n + g.size + headerSize hot) s₂.mem s₃.mem := hbody.header
      exact hheader.mono
    · refine h.agree (mem_cons_of_mem _ hk) (Nat.le_refl _) (Nat.le_refl _) hbody.stack ?_
        hexited hpop
      have hothers := hbody.others (k + n + g.size)
        (Caches.add_mem_others_shift (Caches.add_mem_others_shift hk n) g.size)
      exact hothers.mono
  | some offset =>
    rw [caches_some hcache] at hreads' hbody
    have hmem : ∀ k ∈ c.all, Agree (s.get sp) k (k + cacheSize hot) s.mem s₅.mem := by
      intro k hk
      refine h.agree hk (Nat.le_refl _) (Nat.le_refl _) hbody.stack ?_ hexited hpop
      have hothers := hbody.others (k + n + g.size)
        (Caches.add_mem_all_shift (Caches.add_mem_all_shift hk n) g.size)
      exact hothers.mono
    have hslot : ∀ slot ∈ savedSlots hot, s₅.get slot.1 = s.get slot.1 := by
      intro slot hslot
      obtain ⟨hlo, hhi⟩ := savedSlots_le slot hslot
      have hheader : Agree (s₂.get sp) (offset + 16) (offset + headerSize hot) s₂.mem s₃.mem :=
        hbody.header
      rw [hpop.regs slot.1 (mem_savedSlots slot hslot).1, hexited.restored offset hcache slot hslot,
        hbody.stack, hheader.load, (hentered.cached offset hcache).2.2 slot hslot,
        h.regs slot.1 (mem_savedSlots slot hslot).1]
    have hown := hmem c.own mem_cons_self
    refine ⟨hreads.agree hsp (hslot (s11, 16) mem_cons_self) hown fun hhot r hr ↦ ?_, hsp,
      hown.mono (by omega) (Nat.add_le_add_left (headerSize_le hot) _),
      fun k hk ↦ hmem k (mem_cons_of_mem _ hk)⟩
    subst hhot
    have hsaved : ∀ r ∈ [s5, s6, s7, s8, s9, s10], ∃ slot ∈ savedSlots true, slot.1 = r := by
      decide
    obtain ⟨slot, hmem', rfl⟩ := hsaved r hr
    exact hslot slot hmem'

end Call

end Preserved

/-! ### The result -/

section Transparent

variable {events : List ReadEvent} {result : Option State}

/-- **Along every activity, reads have the outcome of direct reads.** -/
theorem Acts.direct (hhelpers : ∀ h : ReadHelper, helpers h.symbol = some (h.program hot))
    (hacts : Acts env helpers hot c s events result) (hordered : c.Ordered hot)
    (hreads : Reads hot env.tx c s) :
    (∀ event ∈ events, event.outcome = directOutcome env.tx event.helper event.view event.offset) ∧
      ∀ s' ∈ result, Reads hot env.tx c s' ∧ Preserved hot c s s' := by
  induction hacts with
  | stop => exact ⟨nofun, fun s' hs' ↦ some.inj hs' ▸ ⟨hreads, .refl⟩⟩
  | work hwork _ ih =>
    obtain ⟨hreads₁, hkept₁⟩ := hwork.preserved hreads
    obtain ⟨hevents, hresult⟩ := ih hordered hreads₁
    exact ⟨hevents, fun s' hs' ↦ ⟨(hresult s' hs').1, hkept₁.trans (hresult s' hs').2⟩⟩
  | read h ha2 hcall _ ih =>
    obtain ⟨houtcome, hreads₁, hkept₁⟩ := hreads.preserved_of_calls hordered (hhelpers h) ha2 hcall
    obtain ⟨hevents, hresult⟩ := ih hordered hreads₁
    exact ⟨forall_mem_cons.2 ⟨houtcome, hevents⟩,
      fun s' hs' ↦ ⟨(hresult s' hs').1, hkept₁.trans (hresult s' hs').2⟩⟩
  | failed h code ha2 habort =>
    exact ⟨List.forall_mem_singleton.2 (hreads.eq_of_leaves (hhelpers h) ha2 habort), nofun⟩
  | call g n hroom hpush henter _ hexit hpop _ ihbody ihrest =>
    have hentered := henter.entered env.tx hroom.size_le
    have hcalled := hentered.called hpush hroom
    obtain ⟨hinner, hbody⟩ := ihbody (hroom.ordered (hroom.ordered_shift hordered))
      (hcalled.reads hentered hreads)
    obtain ⟨hreads₃, hkept₃⟩ := hbody _ rfl
    obtain ⟨hreads₅, hkept₅⟩ := hcalled.left hentered hreads hreads₃ hkept₃ hexit.exited hpop
    obtain ⟨hevents, hresult⟩ := ihrest hordered hreads₅
    exact ⟨List.forall_mem_append.2 ⟨hinner, hevents⟩,
      fun s' hs' ↦ ⟨(hresult s' hs').1, hkept₅.trans (hresult s' hs').2⟩⟩
  | callFailed g n hroom hpush henter _ ih =>
    have hentered := henter.entered env.tx hroom.size_le
    have hcalled := hentered.called hpush hroom
    exact ⟨(ih (hroom.ordered (hroom.ordered_shift hordered)) (hcalled.reads hentered hreads)).1,
      nofun⟩

/-- **The cache is transparent.** In every activity of a function that owns a cache, with any calls
in it, each read has the outcome of a direct read; and a read that is asked for at the end of an
activity will have it too. -/
theorem exact_reads_direct {g : Layout hot} {offset : ℕ} {s₁ : State}
    (hhelpers : ∀ h : ReadHelper, helpers h.symbol = some (h.program hot))
    (hcache : g.cache = some offset) (hsize : g.size ≤ 2 ^ 64)
    (henter : g.Enters env.surroundings helpers s s₁)
    (hacts : Acts env helpers hot ⟨offset, []⟩ s₁ events result) :
    (∀ event ∈ events, event.outcome = directOutcome env.tx event.helper event.view event.offset) ∧
      ∀ s' ∈ result, ∀ h : ReadHelper, s'.get a2 = s'.get s11 →
        match directOutcome env.tx h (s'.get a0) (s'.get a1) with
        | .ok v => ∃ s'', Calls (machine env.surroundings helpers) h.symbol s' s'' ∧ s''.get a0 = v
        | .error code =>
          Leaves env.surroundings helpers (h.program hot) "__cellscript_abort"
            (·.get a0 = code) s' ∧
            ∀ s'', ¬ Calls (machine env.surroundings helpers) h.symbol s' s'' := by
  obtain ⟨hbase, hcached, -⟩ := (henter.entered env.tx hsize).cached offset hcache
  obtain ⟨hevents, hresult⟩ := hacts.direct hhelpers nofun ⟨hbase, hcached⟩
  refine ⟨hevents, fun s' hs' h ha2 ↦ ?_⟩
  have hcached' : Cached hot env.tx (s'.get a2) s' := ha2 ▸ (hresult s' hs').1.cached
  cases hread : directRead env.tx h.source (s'.get a0) (s'.get a1) h.width with
  | ok v =>
    obtain ⟨s'', hcall, hserved⟩ := exists_calls_readHelper (hhelpers h) hcached' hread
    simp only [directOutcome, hread]
    exact ⟨s'', hcall, hserved.value⟩
  | error err =>
    have hleaves := leaves_readHelper helpers hcached' hread
    simp only [directOutcome, hread]
    exact ⟨hleaves, fun s'' ↦ hleaves.not_calls (hhelpers h)⟩

end Transparent

/-- A transaction with one output, of five bytes. -/
def sampleEnvironment : Environment where
  tx := { Transaction.empty with
    outputs := [⟨0, [], replicate 32 0, none, none, [1, 2, 3, 4, 5],
      Transaction.empty.length_script, Transaction.empty.length_hash, nofun, nofun, by decide⟩]
    length_outputs := by decide }
  reports := true
  symbol := fun _ ↦ 0#64
  returnAddress := 0#64

/-- The helpers of a module without the hot entry. -/
def sampleHelpers (symbol : String) : Option Program :=
  ([.cellDataU8, .cellDataU32Le, .cellDataU64Le, .witnessU8, .witnessU32Le, .witnessU64Le,
    .cellLockU8, .cellTypeU8] : List ReadHelper).find? (·.symbol = symbol) |>.map (·.program false)

def sampleLayout : Layout false := ⟨1296, some 0, by decide, by decide⟩

theorem sampleHelpers_symbol (h : ReadHelper) :
    sampleHelpers h.symbol = some (h.program false) := by
  cases h <;> rfl

/-- The arguments of a read. -/
def ask (view offset : Word) (s : State) : State :=
  ((s.set a0 view).set a1 offset).set a2 (s.get s11)

theorem ask_a0 (view offset : Word) (s : State) : (ask view offset s).get a0 = view := rfl

theorem ask_a1 (view offset : Word) (s : State) : (ask view offset s).get a1 = offset := rfl

theorem works_ask (view offset : Word) (s : State) :
    Works false ⟨0, []⟩ 0 s (ask view offset s) := by
  have hregs : Keeps [a0, a1, a2] s (ask view offset s) := Keeps.refl.set.set.set
  refine ⟨(hregs.get sp).trans (add_zero _).symm, fun r hr ↦ hregs r ?_, fun _ _ ↦ .refl⟩
  revert r
  decide

/-- Four bytes of the output are read, and then a byte that is not there. -/
theorem exact_reads_direct_sample : ∃ s s₁ s₂ events,
    sampleLayout.Enters sampleEnvironment.surroundings sampleHelpers s s₁ ∧
      Acts sampleEnvironment sampleHelpers false ⟨0, []⟩ s₁ events s₂ ∧
      events.map (·.outcome) = [.ok 0x05040302#64, .error 3#64] := by
  obtain ⟨s₁, henter, -⟩ := exists_enters sampleEnvironment.surroundings sampleHelpers
    sampleEnvironment.tx ⟨fun _ ↦ 0#64, fun _ ↦ 0⟩ (show sampleLayout.size ≤ 2 ^ 64 by decide)
  have hfirst : directOutcome sampleEnvironment.tx .cellDataU32Le 0x200000000#64 1#64 =
      .ok 0x05040302#64 := by rfl
  have hsecond : directOutcome sampleEnvironment.tx .cellDataU8 0x200000000#64 5#64 =
      .error 3#64 := by rfl
  have hread := (exact_reads_direct sampleHelpers_symbol rfl (by decide) henter
    (.work (works_ask 0x200000000#64 1#64 s₁) .stop)).2 _ rfl .cellDataU32Le rfl
  simp only [ask_a0, ask_a1, hfirst] at hread
  obtain ⟨s₂, hcall, hvalue⟩ := hread
  have habort := (exact_reads_direct sampleHelpers_symbol rfl (by decide) henter
    (.work (works_ask 0x200000000#64 1#64 s₁) (.read .cellDataU32Le rfl hcall
      (.work (works_ask 0x200000000#64 5#64 s₂) .stop)))).2 _ rfl .cellDataU8 rfl
  simp only [ask_a0, ask_a1, hsecond] at habort
  refine ⟨_, s₁, none, _, henter, .work (works_ask 0x200000000#64 1#64 s₁)
    (.read .cellDataU32Le rfl hcall (.work (works_ask 0x200000000#64 5#64 s₂)
      (.failed .cellDataU8 3#64 rfl habort.1))), ?_⟩
  rw [map_cons, map_cons, map_nil, hvalue]

end CellScript.Runtime.ExactRead
