import CellScript.Runtime.ExactCache

/-!
# Filling an entry of the exact-read cache

A read that no entry answers takes the entry whose turn it is, notes what is asked for, and makes
the system call that fills its window. The entry comes into use only when the window has the bytes
that were asked for; otherwise the process ends.
-/

namespace CellScript.Runtime.ExactRead

open Assembler (Instruction)
open BitVec (ofNat)
open Bytes (ofLe field)
open MachineState
open Blocks

/-! ### The entry whose turn it is -/

/-- An entry that is being filled. -/
structure Filling (hot : Bool) (b : Word) (way : ℕ) (view offset : Word) (k : ByteSource)
    (width : ℕ) (s s' : State) : Prop where
  entry : s'.get a6 = b + ofNat 64 (entry hot way)
  cursor : load s'.mem (b + 0#64) 8 = ofNat 64 ((way + 1) % 4)
  view : load s'.mem (b + ofNat 64 (ExactRead.entry hot way + 0)) 8 = view
  start : load s'.mem (b + ofNat 64 (ExactRead.entry hot way + 8)) 8 = offset
  kind : load s'.mem (b + ofNat 64 (ExactRead.entry hot way + 32)) 8 = k.word
  width : load s'.mem (b + ofNat 64 (ExactRead.entry hot way + 40)) 8 = ofNat 64 width
  base : load s'.mem (b + ofNat 64 (ExactRead.entry hot way + 48)) 8 = b
  before : Agree b 8 (ExactRead.entry hot way) s.mem s'.mem
  after : Agree b (ExactRead.entry hot way + 312) (2 ^ 64) s.mem s'.mem
  regs : Keeps volatile s s'

variable {helpers : String → Option Program} {fall : Option String} {s : State} {hot : Bool}
  {b view offset : Word} {k : ByteSource} {width way : ℕ}

section Allocate

variable {e : Surroundings} {C : Code (machine e helpers)} {rest : List Instruction}
  {s' s'' : State} {rs : List Reg}

/-- The size and the window of the entry may change. -/
theorem Filling.step (h : Filling hot b way view offset k width s s') (hregs : Keeps rs s' s'')
    (hbefore : Agree b 0 (ExactRead.entry hot way + 16) s'.mem s''.mem)
    (hmiddle : Agree b (ExactRead.entry hot way + 24) (ExactRead.entry hot way + 56) s'.mem s''.mem)
    (hafter : Agree b (ExactRead.entry hot way + 312) (2 ^ 64) s'.mem s''.mem)
    (ha6 : a6 ∉ rs := by decide) (hrs : rs ⊆ volatile := by decide) :
    Filling hot b way view offset k width s s'' := by
  obtain ⟨hentry, hcursor, hview, hstart, hkind, hwidth, hbase, hbefore', hafter', hregs'⟩ := h
  refine ⟨(hregs a6 ha6).trans hentry, ?_, ?_, ?_, ?_, ?_, ?_, ?_, hafter'.trans hafter,
    hregs'.trans hregs hrs⟩
  · rw [hbefore.load, hcursor]
  · rw [hbefore.load, hview]
  · rw [hbefore.load, hstart]
  · rw [hmiddle.load, hkind]
  · rw [hmiddle.load, hwidth]
  · rw [hmiddle.load, hbase]
  · exact hbefore'.trans hbefore

theorem Filling.quiet (h : Filling hot b way view offset k width s s') (hquiet : Quiet rs s' s'')
    (ha6 : a6 ∉ rs := by decide)
    (hrs : rs ⊆ volatile := by decide) : Filling hot b way view offset k width s s'' := by
  refine h.step hquiet.regs ?_ ?_ ?_ ha6 hrs <;> exact hquiet.mem ▸ Agree.refl

/-- The size of the window is noted. -/
theorem runs_setLen {s₁ : State} (hway : way < 4) (h : Filling hot b way view offset k width s s₁)
    (hrun : ∀ s₂, Filling hot b way view offset k width s s₂ → Keeps [] s₁ s₂ →
      load s₂.mem (b + ofNat 64 (ExactRead.entry hot way + 16)) 8 = s₁.get t0 →
      Agree b (ExactRead.entry hot way + 24) (2 ^ 64) s₁.mem s₂.mem →
      C.Runs rest fall s₂) : C.Runs (.sd t0 a6 16 :: rest) fall s₁ := by
  obtain ⟨hle, -, hend, hsize⟩ := entry_le hot hway
  rw [runs_cons, act, h.entry, show BitVec.ofInt 64 16 = ofNat 64 16 from rfl,
    add_ofNat_add_ofNat]
  have hregs : Keeps [] s₁ (s₁.setMem (store s₁.mem
    (b + ofNat 64 (ExactRead.entry hot way + 16)) 8 (s₁.get t0))) := Keeps.refl.setMem
  refine hrun _ (h.step hregs ?_ ?_ ?_) hregs load_store_self ?_ <;>
    exact Agree.refl.store

/-- The turn goes round. -/
theorem and_three {way : ℕ} (hway : way < 4) :
    (ofNat 64 way + 1#64) &&& 3#64 = ofNat 64 ((way + 1) % 4) := by
  interval_cases way <;> rfl

theorem runs_allocate (hway : way < 4) (hcursor : load s.mem (b + 0#64) 8 = ofNat 64 way)
    (ha2 : s.get a2 = b) (hasks : Asks view k.word offset width s)
    (hrun : ∀ s', Filling hot b way view offset k width s s' → s'.get a0 = view →
      C.Runs rest fall s') : C.Runs (allocate hot ++ rest) fall s := by
  obtain ⟨hle, -, hend, hsize⟩ := entry_le hot hway
  have hentry : b + ofNat 64 way * ofNat 64 entrySize +
      ofNat 64 (headerSize hot) = b + ofNat 64 (entry hot way) := by
    rw [← BitVec.ofNat_mul, add_ofNat_add_ofNat, entry, Nat.add_comm]
  simp (disch := decide) only [allocate, runs_rules, act, set_rules, State.get_setMem,
    State.mem_setMem, State.get_zero, ha2, hasks.view, hasks.offset, hasks.width, hasks.kind,
    hcursor, hentry, and_three hway, add_ofNat_add_ofNat]
  refine hrun _ ⟨rfl, ?_, ?_, ?_, ?_, ?_, ?_, ?_, ?_, ?_⟩ hasks.view
  iterate 6
    simp (disch := omega) only [State.mem_setMem, load_store_of_disjoint, load_store_self]
  · iterate 7 refine Agree.store ?_
    exact .refl
  · iterate 7 refine Agree.store ?_
    exact .refl
  · simp

end Allocate

/-! ### The system call -/

/-- A source that a kind of read may be made from. -/
def Allows (k : ByteSource) (source : Source) : Prop := ¬ (k = .witness ∧ source = .cellDep)

variable {env : Environment} {s₁ s₂ : State}

section Call

variable {C : Code (machine env.surroundings helpers)} {index w : Word} {source : Source}

/-- **The call for a kind of read asks for what the view stands for.** -/
theorem requested_eq (tx : Transaction) {fieldId : Word}
    (hdecode : decodeView view = some (index, source.word)) (hallows : Allows k source)
    (hlock : k = .cellLock → fieldId = cellFieldLock)
    (htype : k = .cellType → fieldId = cellFieldType) :
    (∃ data, requested tx k.number index source.word fieldId = some (.ok data) ∧
        contents tx k view = .ok data ∧ data.length < 2 ^ 32) ∨
      ∃ status, requested tx k.number index source.word fieldId = some (.error status) ∧
        contents tx k view = .error k.failure ∧ status ≠ 0#64 ∧ status ≠ lengthNotEnough := by
  cases k with
  | cellData =>
    have hrequest : requested tx loadCellData index source.word fieldId =
        some (itemAt (tx.cells source) index (.ok ·.data)) := by
      rw [requested, if_neg (by decide), if_neg (by decide), if_neg (by decide),
        Source.ofWord_word]
      rfl
    simp only [ByteSource.number, contents, hdecode, Source.ofWord_word, hrequest, itemAt]
    cases (tx.cells source)[index.toNat]? with
    | none => exact .inr ⟨_, rfl, rfl, by decide, by decide⟩
    | some c => exact .inl ⟨_, rfl, rfl, c.length_data⟩
  | witness =>
    have hne : source ≠ .cellDep := fun h ↦ hallows ⟨rfl, h⟩
    have hrequest : requested tx loadWitness index source.word fieldId =
        some ((tx.witnessAt source index.toNat).elim (.error indexOutOfBound) .ok) := by
      rw [requested, if_neg (by decide), if_neg (by decide), if_neg (by decide),
        Source.ofWord_word]
      rfl
    simp only [ByteSource.number, contents, hdecode, Source.ofWord_word, hrequest, if_neg hne]
    cases hwitness : tx.witnessAt source index.toNat with
    | none => exact .inr ⟨_, rfl, rfl, by decide, by decide⟩
    | some w => exact .inl ⟨_, rfl, rfl, tx.length_witnessAt hwitness⟩
  | cellLock =>
    obtain rfl := hlock rfl
    simp only [ByteSource.number, contents, hdecode, Source.ofWord_word, requested_loadCellByField]
    cases (tx.cells source)[index.toNat]? with
    | none => exact .inr ⟨_, rfl, rfl, by decide, by decide⟩
    | some c => exact .inl ⟨_, rfl, rfl, c.length_lock⟩
  | cellType =>
    obtain rfl := htype rfl
    simp only [ByteSource.number, contents, hdecode, Source.ofWord_word, requested_loadCellByField]
    cases (tx.cells source)[index.toNat]? with
    | none => exact .inr ⟨_, rfl, rfl, by decide, by decide⟩
    | some c =>
      cases htype : c.type with
      | none =>
        exact .inr ⟨_, congrArg (some ∘ optionalItem) htype, by rw [bind_some, htype]; rfl,
          by decide, by decide⟩
      | some script =>
        exact .inl ⟨_, congrArg (some ∘ optionalItem) htype, by rw [bind_some, htype],
          c.length_type script htype⟩

theorem contents_eq_invalid (tx : Transaction) (hdecode : decodeView view = some (index, w))
    (h : ∀ source, w = source.word → ¬ Allows k source) :
    contents tx k view = .error .ckbSourceViewInvalid := by
  cases hsource : Source.ofWord w with
  | none => simp only [contents, hdecode, hsource]
  | some source =>
    obtain ⟨rfl, rfl⟩ := not_not.1 (h source (Source.eq_word_of_ofWord hsource))
    simp only [contents, hdecode, hsource, if_true]

variable (hprogram : C.program.Extends (exactReadCached hot))
  (hfilling : Filling hot b way view offset k width s s₁)

include hprogram hfilling

theorem runsAt_sourceCheck (ht2 : s₁.get t2 = w)
    (hok : ∀ source, w = source.word → Allows k source → ∀ s', Quiet [t0, t3] s₁ s' →
      C.RunsAt "exact_read_source_ready" s')
    (hno : (∀ source, w = source.word → ¬ Allows k source) → ∀ s', Quiet [t0, t3] s₁ s' →
      C.RunsAt "exact_read_invalid_source" s') : C.RunsAt "source_view_decoded" s₁ := by
  rw [runsAt_iff (hprogram "source_view_decoded" _ rfl)]
  simp (disch := decide) only [sourceCheck, runs_rules, act, set_rules, ht2, hfilling.entry,
    add_ofNat_add_ofNat, hfilling.kind]
  have hready : ∀ source : Source, w = source.word → source ≠ .cellDep → ∀ {s' : State},
      Quiet [t0, t3] s₁ s' → C.RunsAt "exact_read_source_ready" s' :=
    fun source hw hne s' ↦ hok source hw (fun h ↦ hne h.2) s'
  refine ite_branch (fun h ↦ ?_) fun h₁ ↦ ite_branch (fun h ↦ ?_) fun h₂ ↦
    ite_branch (fun h ↦ ?_) fun h₃ ↦ ite_branch (fun h ↦ ?_) fun h₄ ↦
    ite_branch (fun h ↦ ?_) fun h₅ ↦ ite_branch (fun h ↦ ?_) fun h₆ ↦ ?_
  · exact hready .input (beq_iff_eq.1 h).symm (by decide) (by simp)
  · exact hready .output (beq_iff_eq.1 h).symm (by decide) (by simp)
  · exact hready .groupInput (beq_iff_eq.1 h).symm (by decide) (by simp)
  · exact hready .groupOutput (beq_iff_eq.1 h).symm (by decide) (by simp)
  · refine hno (fun source hw _ ↦ ?_) _ (by simp)
    subst hw
    cases source <;> contradiction
  all_goals rw [bne_eq_false_iff_eq] at h₅
  · have hk : k = .witness := ByteSource.word_injective (beq_iff_eq.1 h)
    refine hno (fun source hw hallows ↦ hallows ⟨hk, ?_⟩) _ (by simp)
    have hword : Source.ofWord source.word = Source.ofWord 3#64 := by rw [← hw, h₅]
    rw [Source.ofWord_word] at hword
    exact some.inj hword
  · refine hok .cellDep h₅.symm (fun hallows ↦ beq_eq_false_iff_ne.1 h₆ ?_) _ (by simp)
    rw [hallows.1]
    rfl

/-- The arguments of the call that fills an entry. -/
structure Calling (hot : Bool) (b : Word) (way : ℕ) (k : ByteSource) (offset index w : Word)
    (s : State) : Prop where
  buffer : s.get a0 = b + ofNat 64 (entry hot way + 56)
  size : s.get a1 = b + ofNat 64 (entry hot way + 16)
  offset : s.get a2 = offset
  index : s.get a3 = index
  source : s.get a4 = w
  number : s.get a7 = k.number
  lock : k = .cellLock → s.get a5 = cellFieldLock
  type : k = .cellType → s.get a5 = cellFieldType
  room : load s.mem (b + ofNat 64 (entry hot way + 16)) 8 = ofNat 64 256

theorem runsAt_sourceReady (hway : way < 4) (ht1 : s₁.get t1 = index) (ht2 : s₁.get t2 = w)
    (hrun : ∀ s', Filling hot b way view offset k width s s' →
      Calling hot b way k offset index w s' →
      C.RunsAt "exact_read_syscall_ready" s') : C.RunsAt "exact_read_source_ready" s₁ := by
  rw [runsAt_iff (hprogram "exact_read_source_ready" _ rfl)]
  rw [sourceReady, runs_cons, act]
  refine runs_setLen hway (hfilling.quiet (show Quiet [t0] s₁ _ by simp))
    fun s₂ hfilling₂ h₂ hroom₂ _ ↦ ?_
  have hready : ∀ s₃, Quiet [a0, a1, a2, a3, a4, a5, a7, t0, t3] s₂ s₃ →
      Calling hot b way k offset index w s₃ → C.RunsAt "exact_read_syscall_ready" s₃ :=
    fun s₃ h₃ ↦ hrun s₃ (hfilling₂.quiet h₃)
  simp (disch := decide) only [runs_rules, BitVec.add_zero, act, set_rules, hfilling₂.entry,
    add_ofNat_add_ofNat, hfilling₂.start, hfilling₂.kind, h₂.kept, ht1, ht2]
  cases k with
  | cellData =>
    rw [runsAt_iff (hprogram "exact_read_cell_data_syscall" _ rfl)]
    simp only [runs_rules, act]
    exact hready _ (by simp) ⟨rfl, rfl, rfl, rfl, rfl, rfl, by simp, by simp, hroom₂⟩
  | witness =>
    rw [if_neg (by decide),
      runsAt_iff (hprogram "exact_read_witness_syscall" _ rfl)]
    simp only [runs_rules, act]
    exact hready _ (by simp) ⟨rfl, rfl, rfl, rfl, rfl, rfl, by simp, by simp, hroom₂⟩
  | cellLock =>
    rw [if_neg (by decide), if_neg (by decide),
      runsAt_iff (hprogram "exact_read_lock_syscall" _ rfl)]
    simp only [runs_rules, act]
    exact hready _ (by simp) ⟨rfl, rfl, rfl, rfl, rfl, rfl, fun _ ↦ rfl, by simp, hroom₂⟩
  | cellType =>
    rw [if_neg (by decide), if_neg (by decide), if_neg (by decide), if_pos (by decide),
      runsAt_iff (hprogram "exact_read_type_syscall" _ rfl)]
    simp only [runs_rules, act]
    exact hready _ (by simp) ⟨rfl, rfl, rfl, rfl, rfl, rfl, by simp, fun _ ↦ rfl, hroom₂⟩

/-- The window that the call has filled. -/
structure Filled (hot : Bool) (b : Word) (way : ℕ) (offset : Word) (data : List UInt8) (s : State) :
    Prop where
  len : s.get t0 = ofNat 64 (min (data.drop offset.toNat).length 256)
  bytes : read s.mem (b + ofNat 64 (entry hot way + 56))
    (min (data.drop offset.toNat).length 256) = (data.drop offset.toNat).take 256

theorem runsAt_syscallReady (hway : way < 4)
    (hcalling : Calling hot b way k offset index source.word s₁)
    (hdecode : decodeView view = some (index, source.word)) (hallows : Allows k source)
    (hfail : ∀ s', Filling hot b way view offset k width s s' →
      contents env.tx k view = .error k.failure →
      C.RunsAt "exact_read_failed" s')
    (hok : ∀ data s', contents env.tx k view = .ok data → data.length < 2 ^ 32 →
      Filling hot b way view offset k width s s' → Filled hot b way offset data s' →
      C.RunsAt "exact_read_cache_len_ready" s') : C.RunsAt "exact_read_syscall_ready" s₁ := by
  obtain ⟨hle, -, hend, hsize⟩ := entry_le hot hway
  rw [runsAt_iff (hprogram "exact_read_syscall_ready" _ rfl), runs_cons, act]
  obtain ⟨data, hrequest, hcontents, hlength⟩ | ⟨status, hrequest, hcontents, hzero, hthree⟩ :=
    requested_eq env.tx hdecode hallows hcalling.lock hcalling.type
  · rw [← hcalling.number, ← hcalling.index, ← hcalling.source] at hrequest
    refine follows_delivered (entry hot way + 56) (entry hot way + 16) 256 offset.toNat data
      hrequest
      ⟨by omega, by omega, by omega⟩ offset.isLt hcalling.buffer hcalling.size
      (by rw [hcalling.offset, ofNat_toNat, setWidth_eq]) hcalling.room
      fun s₂ h₂ ↦ ?_
    have hfilling₂ : Filling hot b way view offset k width s s₂ := hfilling.step h₂.regs
        (h₂.agree _ _ (by omega) (by omega) (by omega))
        (h₂.agree _ _ (by omega) (by omega) (by omega))
        (h₂.agree _ _ (by omega) (by omega) (by omega))
    have hrest : (data.drop offset.toNat).length < 2 ^ 64 := by
      rw [length_drop]
      omega
    have hready : ∀ s₃, Quiet [t0, t1] s₂ s₃ → C.RunsAt "exact_read_syscall_status_ok" s₃ := by
      intro s₃ h₃
      have htotal : load s₃.mem (b + ofNat 64 (entry hot way + 16)) 8 =
        ofNat 64 (data.drop offset.toNat).length := h₃.mem ▸ h₂.total
      have hlen : ∀ s₄, Quiet [t0, t1] s₂ s₄ →
          s₄.get t0 = ofNat 64 (min (data.drop offset.toNat).length 256) →
          C.RunsAt "exact_read_cache_len_ready" s₄ := by
        intro s₄ h₄ ht0
        refine hok data s₄ hcontents hlength (hfilling₂.quiet h₄) ⟨ht0, ?_⟩
        have hbytes := h₂.bytes
        rwa [length_take, Nat.min_comm, ← h₄.mem] at hbytes
      rw [runsAt_iff (hprogram "exact_read_syscall_status_ok" _ rfl)]
      simp (disch := decide) only [runs_rules, BitVec.add_zero, act, set_rules, h₃.kept a6,
        hfilling₂.entry, add_ofNat_add_ofNat, htotal]
      rw [ofNat_ult_ofNat hrest (by decide)]
      refine ite_branch (fun h ↦ ?_) fun h ↦ ?_
      · rw [decide_eq_true_eq] at h
        refine hlen _ (by simp [h₃]) ?_
        rw [min_eq_left (by omega)]
        rfl
      · rw [decide_eq_false_iff_not] at h
        refine hlen _ (by simp [h₃]) ?_
        rw [Nat.min_eq_right (by omega)]
        rfl
    -- a status other than zero says that the window did not have room for everything
    have hstatus : s₂.get a0 ≠ 0#64 → s₂.get a0 = 3#64 := by
      rw [h₂.status, truncatedStatus, lengthNotEnough]
      split_ifs <;> intro h
      exacts [rfl, absurd rfl h, absurd rfl h]
    simp (disch := decide) only [runs_rules, act, set_rules]
    refine ite_branch (fun _ ↦ hready s₂ .refl) fun hne ↦ ?_
    rw [hstatus (beq_eq_false_iff_ne.1 hne), if_neg (by decide)]
    exact hready _ (by simp)
  · rw [← hcalling.number, ← hcalling.index, ← hcalling.source] at hrequest
    rw [follows_missing status hrequest]
    simp (disch := decide) only [runs_rules, act, set_rules]
    rw [if_neg (by rwa [beq_iff_eq]), if_pos (by rwa [bne_iff_ne])]
    exact hfail _ (hfilling.quiet (show Quiet [a0, t0] s₁ _ by simp)) hcontents

end Call

/-! ### The entry in use -/

/-- The registers of the hot entry. -/
structure HotSet (a view kind start len : Word) (s : State) : Prop where
  entry : s.get s10 = a
  view : s.get s9 = view
  kind : s.get s8 = kind
  start : s.get s7 = start
  len : s.get s6 = len
  buffer : s.get s5 = a + 56#64

section Fill

variable {C : Code (machine env.surroundings helpers)} {s₀ : State} {len : Word} {data : List UInt8}
  {tx : Transaction}

/-- **A filled entry comes into use.** -/
theorem Kept.fill (h : Kept hot tx b s₀ s) (hway : way < 4)
    (hfilling : Filling hot b way view offset k width s s₁)
    (hlen : load s₁.mem (b + ofNat 64 (entry hot way + 16)) 8 = len)
    (hwindow : Window tx s₁.mem (b + ofNat 64 (entry hot way + 56)) view offset len k data)
    (hregs : Keeps volatile s₁ s₂)
    (hmem : s₂.mem = store (store s₁.mem (b + ofNat 64 (entry hot way + 24)) 8 1#64)
      (b + 8#64) 8 (b + ofNat 64 (entry hot way)))
    (hhot : hot = true → HotSet (b + ofNat 64 (entry hot way)) view k.word offset len s₂) :
    Kept hot tx b s₀ s₂ := by
  obtain ⟨hle, hheader, hend, hsize⟩ := entry_le hot hway
  have hload : ∀ j, 16 ≤ j → j + 8 ≤ entry hot way + 24 ∨ entry hot way + 32 ≤ j → j + 8 ≤ 2 ^ 64 →
      load s₂.mem (b + ofNat 64 j) 8 = load s₁.mem (b + ofNat 64 j) 8 := by
    intro j hj hne hlt
    rw [hmem, load_store_of_disjoint (by omega) hlt (by omega),
      load_store_of_disjoint (by omega) hlt (by omega)]
  have hvalid : load s₂.mem (b + ofNat 64 (entry hot way + 24)) 8 = 1#64 := by
    rw [hmem, load_store_of_disjoint, load_store_self]
  have hview := (hload (entry hot way + 0) (by omega) (by omega) (by omega)).trans hfilling.view
  have hstart := (hload (entry hot way + 8) (by omega) (by omega) (by omega)).trans hfilling.start
  have hlen' := (hload (entry hot way + 16) (by omega) (by omega) (by omega)).trans hlen
  have hkind := (hload (entry hot way + 32) (by omega) (by omega) (by omega)).trans hfilling.kind
  have hbefore : Agree b 16 (entry hot way) s.mem s₂.mem := by
    rw [hmem]
    exact hfilling.before.mono.store.store
  have hafter : Agree b (entry hot way + 312) (2 ^ 64) s.mem s₂.mem := by
    rw [hmem]
    exact hfilling.after.store.store
  refine ⟨⟨⟨(way + 1) % 4, mod_lt _ (by decide), ?_⟩, fun way' hway' ↦ ?_, .inr ⟨way, hway, ?_⟩,
    fun hh ↦ .inr ⟨way, hway, ?_⟩⟩, h.regs.trans (hfilling.regs.trans hregs), ?_, ?_⟩
  · rw [hmem, load_store_of_disjoint, load_store_of_disjoint, hfilling.cursor]
  · rcases eq_or_ne way way' with rfl | hne
    · simp only [EntryOk, add_ofNat_add_ofNat, hview, hstart, hlen', hkind]
      refine fun _ ↦ ⟨k, data, rfl, hwindow.contents, hwindow.le_capacity, hwindow.inside, ?_⟩
      have hcapacity := hwindow.le_capacity
      rw [hmem, read_store_of_disjoint, read_store_of_disjoint, hwindow.bytes]
    · obtain ⟨hle', -, hend', -⟩ := entry_le hot hway'
      refine (h.cached.entries way' hway').agree ?_
      have hapart : entry hot way + 312 ≤ entry hot way' ∨ entry hot way' + 312 ≤ entry hot way :=
        entry_disjoint hne
      rcases hapart with hlt | hlt
      · exact hafter.mono
      · exact hbefore.mono
  · rw [hmem, load_store_self]
  · have hset := hhot hh
    refine ⟨?_, hset.entry, ?_, ?_, ?_, ?_, hset.buffer⟩ <;>
      simp only [add_ofNat_add_ofNat, hvalid, hview, hstart, hlen', hkind]
    exacts [by decide, hset.view, hset.kind, hset.start, hset.len]
  · exact h.header.trans hbefore
  · exact h.outside.trans hafter

/-- What the call has brought is a window. -/
theorem Filled.window {m : Memory} (hcontents : contents tx k view = .ok data)
    (hlong : offset.toNat ≤ data.length) (hbytes : read m (b + ofNat 64 (entry hot way + 56))
      (min (data.drop offset.toNat).length 256) = (data.drop offset.toNat).take 256) :
    Window tx m (b + ofNat 64 (entry hot way + 56)) view offset
      (ofNat 64 (min (data.drop offset.toNat).length 256)) k data := by
  have hnat : (ofNat 64 (min (data.drop offset.toNat).length 256)).toNat =
      min (data.drop offset.toNat).length 256 := by
    rw [toNat_ofNat, mod_eq_of_lt (by omega)]
  refine ⟨hcontents, ?_, ?_, ?_⟩
  · rw [hnat]
    exact Nat.min_le_right _ _
  · rw [hnat, length_drop]
    omega
  · rw [hnat, hbytes, field, Nat.min_comm, ← List.take_eq_take_min]

variable (hprogram : C.program.Extends (exactReadCached hot))
  (hwidth : width = 1 ∨ width = 4 ∨ width = 8) (hra : s₀.get ra = C.link)
  (hok : ∀ v s', directRead env.tx k view offset width = .ok v → Served hot env.tx b v s₀ s' →
    C.post s')
include hprogram hwidth hra hok

theorem runsAt_lenReady (hway : way < 4) (hkept : Kept hot env.tx b s₀ s)
    (hfilling : Filling hot b way view offset k width s s₁)
    (hcontents : contents env.tx k view = .ok data) (hfilled : Filled hot b way offset data s₁)
    (hfail : ∀ s', Filling hot b way view offset k width s s' →
      directRead env.tx k view offset width = .error k.failure →
      C.RunsAt "exact_read_failed" s') : C.RunsAt "exact_read_cache_len_ready" s₁ := by
  obtain ⟨hle, -, hend, hsize⟩ := entry_le hot hway
  have hlen := hfilled.len
  have hbytes := hfilled.bytes
  rw [runsAt_iff (hprogram "exact_read_cache_len_ready" _ rfl)]
  rw [windowReady, cons_append]
  refine runs_setLen hway hfilling fun s₂ hfilling₂ h₂ hlen₂ hagree₂ ↦ ?_
  rw [hlen] at hlen₂
  rw [← hagree₂.read] at hbytes
  have ht0 : s₂.get t0 = ofNat 64 (min (data.drop offset.toNat).length 256) :=
    (h₂.get t0).trans hlen
  simp (disch := decide) only [runs_rules, act, set_rules, State.get_setMem, State.mem_setMem,
    hfilling₂.entry, add_ofNat_add_ofNat, hfilling₂.width, ht0]
  rw [ofNat_ult_ofNat]
  have hdirect : directRead env.tx k view offset width = if data.length < offset.toNat + width then
      .error k.failure else .ok (ofNat 64 (ofLe (field offset.toNat width data))) := by
    rw [directRead, hcontents]
    rfl
  refine ite_branch (fun h ↦ ?_) fun h ↦ ?_
  · rw [decide_eq_true_eq, length_drop] at h
    refine hfail _ (hfilling₂.quiet (show Quiet [a3] s₂ _ by simp)) ?_
    rw [hdirect, if_pos (by omega)]
  rw [decide_eq_false_iff_not, not_lt, length_drop] at h
  have hwindow := Filled.window hcontents (by omega) hbytes
  rw [load_store_of_disjoint, hfilling₂.base]
  have hserve : ∀ s₃, Keeps [a3, t1, t2, t4, s5, s6, s7, s8, s9, s10] s₂ s₃ →
      s₃.mem = store (store s₂.mem (b + ofNat 64 (entry hot way + 24)) 8 1#64) (b + 8#64) 8
        (b + ofNat 64 (entry hot way)) →
      s₃.get a3 = ofNat 64 width → s₃.get t4 = 0#64 →
      (hot = true → HotSet (b + ofNat 64 (entry hot way)) view k.word offset
        (ofNat 64 (min (data.drop offset.toNat).length 256)) s₃) →
      C.RunsAt "exact_read_cache_load" s₃ := by
    intro s₃ h₃ hmem₃ ha3 ht4 hhot
    refine runsAt_load_served hprogram hwidth hra hok (hkept.fill hway hfilling₂ hlen₂ hwindow
      h₃.mono hmem₃ hhot) ha3 ((h₃.get a6).trans hfilling₂.entry) ht4 ?_
    have hroom : offset.toNat - offset.toNat + width ≤
        (ofNat 64 (min (data.drop offset.toNat).length 256)).toNat := by
      rw [toNat_ofNat, mod_eq_of_lt (by omega), length_drop]
      omega
    rw [hwindow.directRead_eq (Nat.le_refl _) hroom, BitVec.sub_self, BitVec.add_zero,
      BitVec.add_zero, add_ofNat_add_ofNat, hmem₃, load_store_of_disjoint, load_store_of_disjoint]
  cases hot with
  | false =>
    simp only [false_eq_true, if_false, runs_rules, act]
    exact hserve _ (by simp) rfl rfl rfl (by simp)
  | true =>
    simp (disch := decide) only [if_true, runs_rules, act, set_rules, State.get_setMem,
      State.mem_setMem, hfilling₂.entry, add_ofNat_add_ofNat]
    simp (disch := omega) only [load_store_of_disjoint, hfilling₂.view, hfilling₂.start,
      hfilling₂.kind, hlen₂]
    refine hserve _ (by simp) rfl rfl rfl fun _ ↦ ⟨rfl, rfl, rfl, rfl, rfl, ?_⟩
    rw [add_ofNat_add_ofNat]
    rfl

/-- **A read that no entry answers.** -/
theorem runsAt_miss (h : Pending hot env.tx b s₀ view k.word offset width s)
    (hno : ∀ err s', directRead env.tx k view offset width = .error err →
      s'.get a0 = ofNat 64 err.code → s'.get ra = C.link →
      C.RunsAt "__cellscript_abort" s') : C.RunsAt "exact_read_cache_miss" s := by
  obtain ⟨hkept, hasks, ha2⟩ := h
  obtain ⟨way, hway, hcursor⟩ := hkept.cached.cursor
  have hlink : ∀ {s' : State}, Filling hot b way view offset k width s s' → s'.get ra = C.link :=
    fun h ↦ (h.regs.get ra).trans ((hkept.regs.get ra).trans hra)
  have hcall : ∀ {err : RuntimeError} {fall : Option String} {s₁ : State}, s₁.get ra = C.link →
      directRead env.tx k view offset width = .error err →
      C.Runs (processFailure err) fall s₁ := by
    intro err fall s₁ hra₁ herr
    simp only [processFailure, runs_rules, act]
    exact hno err _ herr rfl hra₁
  have hinvalid : ∀ s₁, s₁.get ra = C.link → contents env.tx k view = .error .ckbSourceViewInvalid →
      C.RunsAt "exact_read_invalid_source" s₁ := by
    intro s₁ hra₁ hcontents
    rw [runsAt_iff (hprogram "exact_read_invalid_source" _ rfl)]
    refine hcall hra₁ ?_
    rw [directRead, hcontents]
    rfl
  have hfail : ∀ s₁, Filling hot b way view offset k width s s₁ →
      directRead env.tx k view offset width = .error k.failure →
      C.RunsAt "exact_read_failed" s₁ := by
    intro s₁ hfilling herr
    have hra₁ : s₁.get ra = C.link := hlink hfilling
    rw [runsAt_iff (hprogram "exact_read_failed" _ rfl)]
    simp (disch := decide) only [runs_rules, act, get_set_self, hfilling.entry, add_ofNat_add_ofNat,
      hfilling.kind]
    cases k with
    | cellData =>
      exact hcall hra₁ herr
    | witness | cellLock | cellType =>
      rw [if_pos (by decide), runsAt_iff (hprogram "exact_read_failed_witness" _ rfl)]
      exact hcall hra₁ herr
  rw [runsAt_iff (hprogram "exact_read_cache_miss" _ rfl)]
  refine runs_allocate hway hcursor ha2 hasks fun s₁ hfilling₁ ha0 ↦ ?_
  refine runs_decodeSourceView (hprogram "source_view_direct" _ rfl) (fun index w hdecode s₂ ht1 ht2
    h₂ ↦ ?_) fun hdecode s₂ h₂ ↦ ?_ <;> rw [ha0] at hdecode
  · have hfilling₂ := hfilling₁.quiet h₂
    refine runsAt_sourceCheck hprogram hfilling₂ ht2 (fun source hw hallows s₃ h₃ ↦ ?_)
      fun hnot s₃ h₃ ↦ ?_
    · subst hw
      refine runsAt_sourceReady hprogram (hfilling₂.quiet h₃) hway ((h₃.get t1).trans ht1)
        ((h₃.get t2).trans ht2) fun s₄ hfilling₄ hcalling ↦ ?_
      refine runsAt_syscallReady hprogram hfilling₄ hway hcalling hdecode hallows
        (fun s₅ hfilling₅ hcontents ↦ hfail s₅ hfilling₅ ?_)
        fun data s₅ hcontents hlength hfilling₅ hfilled ↦
          runsAt_lenReady hprogram hwidth hra hok hway hkept hfilling₅ hcontents hfilled hfail
      rw [directRead, hcontents]
      rfl
    · exact hinvalid s₃ ((h₃.get ra).trans (hlink hfilling₂))
        (contents_eq_invalid env.tx hdecode hnot)
  · refine hinvalid s₂ ((h₂.get ra).trans (hlink hfilling₁)) ?_
    simp only [contents, hdecode]

end Fill

end CellScript.Runtime.ExactRead
