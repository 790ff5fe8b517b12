import CellScript.Runtime.ExactRead

/-!
# Reads through the cache are direct reads

A call of the exact-read helper returns what a direct read of the transaction returns, and keeps the
invariant of the cache; where a direct read fails, the helper ends the process with the same error.

The proof follows the code: the entry that was used last, the four entries, and then the system call
that fills the entry whose turn it is.
-/

namespace CellScript.Runtime.ExactRead

open Assembler (Instruction)
open BitVec (ofNat)
open Bytes (ofLe field)
open MachineState
open Blocks

/-! ### The invariant under changes -/

/-- The registers that the helper may write. -/
abbrev volatile : List Reg :=
  [a0, a1, a2, a3, a4, a5, a6, a7, t0, t1, t2, t3, t4, t5, s5, s6, s7, s8, s9, s10]

/-- What the helper keeps: the invariant, the other registers, the words that the function saved in
the header of its cache, and all of the memory outside of the cache. -/
structure Kept (hot : Bool) (tx : Transaction) (b : Word) (s s' : State) : Prop where
  cached : Cached hot tx b s'
  regs : Keeps volatile s s'
  header : Agree b 16 (headerSize hot) s.mem s'.mem
  outside : Agree b (cacheSize hot) (2 ^ 64) s.mem s'.mem

variable {hot : Bool} {tx : Transaction} {b : Word} {s s₀ : State} {way : ℕ}

section Invariant

variable {m m' : Memory} {s' : State} {k way' j : ℕ} {rs : List Reg}

theorem entry_le (hot : Bool) (hway : way < 4) :
    24 ≤ entry hot way ∧ headerSize hot ≤ entry hot way ∧
      entry hot way + 312 ≤ cacheSize hot ∧ cacheSize hot ≤ 1320 := by
  cases hot <;> simp only [entry, headerSize, entrySize, cacheSize, false_eq_true, if_true,
    if_false] <;> omega

/-- Entries do not overlap. -/
theorem entry_disjoint (hne : way ≠ way') :
    entry hot way + 312 ≤ entry hot way' ∨ entry hot way' + 312 ≤ entry hot way := by
  simp only [entry, entrySize]
  omega

theorem load_entry_eq (hagree : Agree b k (k + 312) m m') (hj : j + 8 ≤ 312) :
    load m' (b + ofNat 64 k + ofNat 64 j) 8 = load m (b + ofNat 64 k + ofNat 64 j) 8 := by
  rw [add_ofNat_add_ofNat, hagree.load]

theorem EntryOk.agree (h : EntryOk tx m (b + ofNat 64 k))
    (hagree : Agree b k (k + 312) m m') : EntryOk tx m' (b + ofNat 64 k) := by
  have hload {j : ℕ} (hj : j + 8 ≤ 312) := load_entry_eq hagree hj
  rw [EntryOk, hload (j := 24) (by decide), hload (j := 32) (by decide), hload (j := 0) (by decide),
    hload (j := 8) (by decide), hload (j := 16) (by decide)]
  intro hvalid
  obtain ⟨kind, data, hkind, hwindow⟩ := h hvalid
  refine ⟨kind, data, hkind, hwindow.contents, hwindow.le_capacity, hwindow.inside, ?_⟩
  have hcapacity := hwindow.le_capacity
  rw [← hwindow.bytes, add_ofNat_add_ofNat, hagree.read]

theorem Mirrors.agree (h : Mirrors (b + ofNat 64 k) s) (hagree : Agree b k (k + 312) s.mem s'.mem)
    (hregs : ∀ r ∈ [s5, s6, s7, s8, s9, s10], s'.get r = s.get r) :
    Mirrors (b + ofNat 64 k) s' := by
  have hload {j : ℕ} (hj : j + 8 ≤ 312) := load_entry_eq hagree hj
  refine ⟨?_, ?_, ?_, ?_, ?_, ?_, ?_⟩
  · rw [hload (j := 24) (by decide)]
    exact h.valid
  · rw [hregs s10 (by decide), h.entry]
  · rw [hregs s9 (by decide), h.view, hload (j := 0) (by decide)]
  · rw [hregs s8 (by decide), h.kind, hload (j := 32) (by decide)]
  · rw [hregs s7 (by decide), h.start, hload (j := 8) (by decide)]
  · rw [hregs s6 (by decide), h.len, hload (j := 16) (by decide)]
  · rw [hregs s5 (by decide), h.buffer]

/-- A cache depends on its memory, and on the registers of the hot entry. -/
theorem Cached.agree (h : Cached hot tx b s) (hmem : Agree b 0 (cacheSize hot) s.mem s'.mem)
    (hregs : hot = true → ∀ r ∈ [s5, s6, s7, s8, s9, s10], s'.get r = s.get r) :
    Cached hot tx b s' := by
  have hentry : ∀ way < 4, Agree b (entry hot way) (entry hot way + 312) s.mem s'.mem :=
    fun way hway ↦ hmem.mono (Nat.zero_le _) (entry_le hot hway).2.2.1
  obtain ⟨hle, -, hend, -⟩ := entry_le hot (show 0 < 4 by decide)
  refine ⟨?_, fun way hway ↦ (h.entries way hway).agree (hentry way hway), ?_, fun hhot ↦ ?_⟩
  · rw [hmem.load]
    exact h.cursor
  · rw [hmem.load]
    exact h.last
  · rw [hregs hhot s10 (by decide)]
    exact (h.hot hhot).imp_right fun ⟨way, hway, hmirrors⟩ ↦
      ⟨way, hway, hmirrors.agree (hentry way hway) (hregs hhot)⟩

/-- The cache does not depend on registers other than those of the hot entry. -/
theorem Kept.step (h : Kept hot tx b s₀ s) (hquiet : Quiet rs s s')
    (hrs : ∀ r ∈ [s5, s6, s7, s8, s9, s10], r ∉ rs := by decide)
    (hvolatile : rs ⊆ volatile := by decide) : Kept hot tx b s₀ s' := by
  obtain ⟨hregs, hmem⟩ := hquiet
  refine ⟨h.cached.agree (hmem ▸ .refl) fun _ r hr ↦ hregs r (hrs r hr),
    h.regs.trans hregs hvolatile, ?_, ?_⟩
  · rw [hmem]
    exact h.header
  · rw [hmem]
    exact h.outside

/-- The header words of a cache and its entries lie apart. -/
theorem Cached.touch (h : Cached hot tx b s) (hway : way < 4)
    (hmem : s'.mem = store s.mem (b + 8#64) 8 (b + ofNat 64 (entry hot way)))
    (hhot : hot = true → Mirrors (b + ofNat 64 (entry hot way)) s') : Cached hot tx b s' := by
  obtain ⟨cursor, hcursor, hload⟩ := h.cursor
  refine ⟨⟨cursor, hcursor, ?_⟩, fun way' hway' ↦ ?_, .inr ⟨way, hway, ?_⟩,
    fun hh ↦ .inr ⟨way, hway, hhot hh⟩⟩
  · rw [hmem, load_store_of_disjoint, hload]
  · obtain ⟨hle, -, hend, hsize⟩ := entry_le hot hway'
    refine (h.entries way' hway').agree ?_
    rw [hmem]
    exact Agree.refl.store
  · rw [hmem, load_store_self]

theorem Kept.touch (h : Kept hot tx b s₀ s) (hway : way < 4)
    (hmem : s'.mem = store s.mem (b + 8#64) 8 (b + ofNat 64 (entry hot way)))
    (hregs : Keeps volatile s s') (hhot : hot = true → Mirrors (b + ofNat 64 (entry hot way)) s') :
    Kept hot tx b s₀ s' := by
  obtain ⟨hle, hheader, hend, hsize⟩ := entry_le hot hway
  refine ⟨h.cached.touch hway hmem hhot, h.regs.trans hregs, ?_, ?_⟩
  · rw [hmem]
    exact h.header.store
  · rw [hmem]
    exact h.outside.store

end Invariant

/-! ### Hits -/

/-- What a read leaves behind. -/
structure Served (hot : Bool) (tx : Transaction) (b v : Word) (s s' : State) : Prop extends
    Kept hot tx b s s' where
  value : s'.get a0 = v
  status : s'.get a1 = 0#64

/-- A read is to be answered: the cache is kept, and the arguments are in their registers. -/
structure Pending (hot : Bool) (tx : Transaction) (b : Word) (s₀ : State) (view kind offset : Word)
    (width : ℕ) (s : State) : Prop where
  kept : Kept hot tx b s₀ s
  asks : Asks view kind offset width s
  base : s.get a2 = b

section Hits

variable {e : Surroundings} {helpers : String → Option Program} {C : Code (machine e helpers)}
  {fall : Option String} {view kind offset a d : Word} {k : ByteSource} {width : ℕ} {next : String}

theorem Pending.step {rs : List Reg} {s' : State} (h : Pending hot tx b s₀ view kind offset width s)
    (hquiet : Quiet rs s s')
    (hrs : ∀ r ∈ [s5, s6, s7, s8, s9, s10, a0, a1, a2, a3, a4], r ∉ rs := by decide)
    (hvolatile : rs ⊆ volatile := by decide) : Pending hot tx b s₀ view kind offset width s' := by
  refine ⟨h.kept.step hquiet (fun r hr ↦ hrs r (mem_append_left [a0, a1, a2, a3, a4] hr)) hvolatile,
    h.asks.keeps hquiet.regs ?_ ?_ ?_ ?_, (hquiet.get a2 ?_).trans h.base⟩
  all_goals exact hrs _ (by decide)

/-- The hot entry answers a read. -/
structure HotHit (view kind offset : Word) (width : ℕ) (s : State) : Prop where
  valid : s.get s10 ≠ 0#64
  view : s.get s9 = view
  kind : s.get s8 = kind
  start : (s.get s7).toNat ≤ offset.toNat
  room : offset.toNat - (s.get s7).toNat + width ≤ (s.get s6).toNat

theorem hotHit_of_checks {kind : Word} (hwidth : width < 2 ^ 64)
    (hvalid : (s.get s10 == 0#64) = false) (hview : (s.get s9 != view) = false)
    (hkind : (s.get s8 != kind) = false) (hstart : offset.ult (s.get s7) = false)
    (hlong : (s.get s6).ult (offset - s.get s7) = false)
    (hin : (s.get s6 - (offset - s.get s7)).ult (ofNat 64 width) = false) :
    HotHit view kind offset width s := by
  rw [BitVec.ult, decide_eq_false_iff_not, not_lt] at hstart
  obtain ⟨hshort, hroom⟩ := ult_sub_iff (s.get s6) hwidth hstart
  rw [← not_eq_true, hshort] at hlong
  rw [← not_eq_true, hroom hlong] at hin
  exact ⟨beq_eq_false_iff_ne.1 hvalid, bne_eq_false_iff_eq.1 hview, bne_eq_false_iff_eq.1 hkind,
    hstart, by omega⟩

theorem HotHit.directRead_eq (h : HotHit view k.word offset width s)
    (hcached : Cached true tx b s) :
    ∃ way < 4, s.get s10 = b + ofNat 64 (entry true way) ∧ s.get s5 = s.get s10 + 56#64 ∧
      directRead tx k view offset width =
        .ok (load s.mem (s.get s10 + 56#64 + (offset - s.get s7)) width) := by
  obtain hzero | ⟨way, hway, hmirrors⟩ := hcached.hot rfl
  · exact absurd hzero h.valid
  · have hhit : Hit s.mem (b + ofNat 64 (entry true way)) view k.word offset width := by
      refine ⟨hmirrors.valid, hmirrors.view ▸ h.view, hmirrors.kind ▸ h.kind, ?_, ?_⟩
      · rw [← hmirrors.start]
        exact h.start
      · rw [← hmirrors.start, ← hmirrors.len]
        exact h.room
    refine ⟨way, hway, hmirrors.entry, hmirrors.entry ▸ hmirrors.buffer, ?_⟩
    rw [hhit.directRead_eq (hcached.entries way hway), hmirrors.entry, hmirrors.start]

variable (hprogram : C.program.Extends (exactReadCached hot))
  (hwidth : width = 1 ∨ width = 4 ∨ width = 8) (hra : s₀.get ra = C.link)
  (hok : ∀ v s', directRead tx k view offset width = .ok v → Served hot tx b v s₀ s' → C.post s')
include hprogram hwidth hra hok

/-- A window that answers is loaded from. -/
theorem runsAt_load_served (hkept : Kept hot tx b s₀ s) (ha3 : s.get a3 = ofNat 64 width)
    (ha6 : s.get a6 = a) (ht4 : s.get t4 = d)
    (hread : directRead tx k view offset width = .ok (load s.mem (a + 56#64 + d) width)) :
    C.RunsAt "exact_read_cache_load" s := by
  refine runsAt_load hprogram hwidth ha3 ht4 ((hkept.regs.get ra).trans hra) fun s' hs' ↦ ?_
  obtain ⟨hvalue, hstatus, hregs, hmem⟩ := hs'
  rw [ha6] at hvalue
  exact hok _ s' hread ⟨hkept.step ⟨hregs, hmem⟩, hvalue, hstatus⟩

variable (h : Pending hot tx b s₀ view k.word offset width s)
include h

/-- **One of the four entries is checked.** -/
theorem runs_wayCheck (hway : way < 4)
    (hnext : ∀ s', Pending hot tx b s₀ view k.word offset width s' → C.RunsAt next s') :
    C.Runs (wayCheck hot way next) fall s := by
  rw [wayCheck, runs_cons, act, ofInt_natCast, h.base]
  have h₁ := h.step (show Quiet [a6] s (s.set a6 (b + ofNat 64 (entry hot way))) by simp)
  refine runs_entryCheck h₁.asks (by omega) (fun hhit s₂ h₂ ht4 ↦ ?_) fun hno s₂ h₂ ↦
    hnext s₂ (h₁.step h₂)
  obtain ⟨hkept₂, hasks₂, ha2⟩ := h₁.step h₂
  have ha6 : s₂.get a6 = b + ofNat 64 (entry hot way) := (h₂.get a6).trans get_set_self
  have hload : ∀ {s₃ : State}, s₃.mem = store s₂.mem (b + 8#64) 8
      (b + ofNat 64 (entry hot way)) → ∀ j, j + 8 ≤ 312 →
      load s₃.mem (b + ofNat 64 (entry hot way) + ofNat 64 j) 8 =
        load s.mem (b + ofNat 64 (entry hot way) + ofNat 64 j) 8 := by
    intro s₃ hmem₃ j hj
    obtain ⟨hle, -, hend, hsize⟩ := entry_le hot hway
    rw [hmem₃, add_ofNat_add_ofNat, load_store_of_disjoint, h₂.mem]
    rfl
  have hserve : ∀ s₃, s₃.mem = store s₂.mem (b + 8#64) 8 (b + ofNat 64 (entry hot way)) →
      Keeps [s5, s6, s7, s8, s9, s10] s₂ s₃ →
      (hot = true → Mirrors (b + ofNat 64 (entry hot way)) s₃) →
      C.RunsAt "exact_read_cache_load" s₃ := by
    intro s₃ hmem₃ hregs₃ hmirrors
    have hkept₃ : Kept hot tx b s₀ s₃ := hkept₂.touch hway hmem₃ hregs₃.mono hmirrors
    refine runsAt_load_served hprogram hwidth hra hok hkept₃ ((hregs₃.get a3).trans hasks₂.width)
      ((hregs₃.get a6).trans ha6) ((hregs₃.get t4).trans ht4) ?_
    have hhit₃ : Hit s₃.mem (b + ofNat 64 (entry hot way)) view k.word offset width := by
      refine ⟨?_, ?_, ?_, ?_, ?_⟩ <;>
        simp only [hload hmem₃ 24 (by decide), hload hmem₃ 0 (by decide),
          hload hmem₃ 32 (by decide), hload hmem₃ 8 (by decide), hload hmem₃ 16 (by decide)]
      exacts [hhit.valid, hhit.view, hhit.kind, hhit.start, hhit.room]
    rw [hhit₃.directRead_eq (hkept₃.cached.entries way hway), hload hmem₃ 8 (by decide)]
    rfl
  rw [runs_cons, act, ha2, ha6, show BitVec.ofInt 64 8 = 8#64 from rfl]
  cases hot with
  | false =>
    simp only [false_eq_true, if_false, runs_rules, act]
    exact hserve _ rfl Keeps.refl (by simp)
  | true =>
    simp (disch := decide) only [if_true, runs_rules, act, set_rules, BitVec.add_zero,
      State.get_setMem, State.mem_setMem, ha6, hasks₂.view, hasks₂.kind]
    refine hserve _ rfl (by simp) fun _ ↦ ?_
    refine ⟨?_, rfl, ?_, ?_, rfl, rfl, rfl⟩
    · rw [hload rfl 24 (by decide)]
      exact hhit.valid
    · exact ((hload rfl 0 (by decide)).trans hhit.view).symm
    · exact ((hload rfl 32 (by decide)).trans hhit.kind).symm

variable (hmiss : ∀ s', Pending hot tx b s₀ view k.word offset width s' →
  C.RunsAt "exact_read_cache_miss" s')
include hmiss

/-- **The four entries are checked in turn.** -/
theorem runsAt_scan : C.RunsAt "exact_read_cache_scan" s := by
  have hlast : ∀ s', Pending hot tx b s₀ view k.word offset width s' →
      C.RunsAt "exact_read_cache_next_way_3" s' := by
    intro s' hs'
    rw [runsAt_iff (hprogram "exact_read_cache_next_way_3" _ rfl), runs_cons, act]
    exact hmiss s' hs'
  have hway : ∀ {way : ℕ} {l next : String} {fall : Option String}, way < 4 →
      C.program.at? l = some (wayCheck hot way next, fall) →
      (∀ s', Pending hot tx b s₀ view k.word offset width s' → C.RunsAt next s') →
      ∀ s', Pending hot tx b s₀ view k.word offset width s' → C.RunsAt l s' := by
    intro way l next fall hlt hat hnext s' hs'
    rw [runsAt_iff hat]
    exact runs_wayCheck hprogram hwidth hra hok hs' hlt hnext
  refine hway (by decide) (hprogram "exact_read_cache_scan" _ rfl) ?_ s h
  refine hway (by decide) (hprogram "exact_read_cache_next_way_0" _ rfl) ?_
  refine hway (by decide) (hprogram "exact_read_cache_next_way_1" _ rfl) ?_
  exact hway (by decide) (hprogram "exact_read_cache_next_way_2" _ rfl) hlast

/-- **The entry that was used last is checked first.** -/
theorem runsAt_cached : C.RunsAt "__cellscript_exact_read_cached" s := by
  have hscan : ∀ s', Quiet [a6, t0, t1, t4] s s' → C.RunsAt "exact_read_cache_scan" s' :=
    fun s' hs' ↦ runsAt_scan hprogram hwidth hra hok (h.step hs') hmiss
  rw [runsAt_iff (hprogram "__cellscript_exact_read_cached" _ rfl)]
  cases hot with
  | false =>
    simp (disch := decide) only [lastCheck, false_eq_true, if_false, runs_rules, act,
      get_set_self, h.base]
    have h₁ := h.step (show Quiet [a6] s (s.set a6 (load s.mem (b + 8#64) 8)) by simp)
    refine ite_branch (fun _ ↦ hscan _ (by simp)) fun hne ↦ ?_
    refine runs_entryCheck h₁.asks (by omega) (fun hhit s₂ h₂ ht4 ↦ ?_) fun _ s₂ h₂ ↦
      hscan s₂ (Quiet.trans (by simp) h₂)
    obtain hzero | ⟨way, hway, hlast⟩ := h.kept.cached.last
    · exact absurd hzero (beq_eq_false_iff_ne.1 hne)
    rw [hlast] at hhit ht4
    rw [runs_cons, act]
    refine runsAt_load_served hprogram hwidth hra hok (h₁.step h₂).kept
      ((h₂.get a3).trans h₁.asks.width) ((h₂.get a6).trans (.trans get_set_self hlast)) ht4 ?_
    rw [h₂.mem]
    exact hhit.directRead_eq (h.kept.cached.entries way hway)
  | true =>
    obtain ⟨hview, hoffset, hwidth', hkind⟩ := h.asks
    simp (disch := decide) only [lastCheck, if_true, runs_rules, act, set_rules,
      BitVec.add_zero, hview, hoffset, hwidth', hkind]
    refine ite_branch (fun _ ↦ hscan _ (by simp)) fun hvalid ↦
      ite_branch (fun _ ↦ hscan _ (by simp)) fun hview ↦
      ite_branch (fun _ ↦ hscan _ (by simp)) fun hkind ↦
      ite_branch (fun _ ↦ hscan _ (by simp)) fun hstart ↦
      ite_branch (fun _ ↦ hscan _ (by simp)) fun hlong ↦
      ite_branch (fun _ ↦ hscan _ (by simp)) fun hin ↦ ?_
    have hhit : HotHit view k.word offset width s :=
      hotHit_of_checks (by omega) hvalid hview hkind hstart hlong hin
    obtain ⟨way, hway, hentry, -, hread⟩ := hhit.directRead_eq h.kept.cached
    exact runsAt_load_served hprogram hwidth hra hok
      (h.kept.step (show Quiet [a6, t1, t4] s _ by simp)) hwidth' rfl rfl hread

end Hits

end CellScript.Runtime.ExactRead
