import CellScript.PolicyWitness.Request
import CellScript.PolicyWitness.ScannerRuns

/-!
# Three readers of a bundle

The emitted scanner, the host's decoder and the artifact checker agree on every byte string: the
scanner goes on, and the checker answers, exactly if the decoder accepts the bundle and it has a
record for the type script, and both have the tag and the arguments of that record. What the encoder
writes is decoded to the sorted records, and what is decoded is what the encoder writes.
-/

namespace CellScript.PolicyWitness

open Assembler (Instruction)
open BitVec (ofNat)
open Bytes (le ofLe field)
open Checker.CodeOrigin (hexEncode)
open Checker.Nested (u32 u32_lt offset item)
open Checker.Nested.Molecule (startOf)
open OpenHandlePolicy (Hash)
open CellScript.Runtime
open MachineState
open Blocks

/-- The frame holds a bundle and its length. The buffer has room for 4096 bytes. -/
structure Holds (bundle : List UInt8) (s : State) : Prop where
  size : load s.mem (s.get sp + ofNat 64 entryWitnessSizeOffset) 8 = ofNat 64 bundle.length
  lt : bundle.length < 2 ^ 64
  bytes : bundle.length ≤ entryWitnessBufferSize →
    read s.mem (s.get sp + ofNat 64 entryWitnessBufferOffset) bundle.length = bundle
  fits : (s.get sp).toNat + policyEntryFrameSize ≤ 2 ^ 64

/-- The hash of the running script. -/
def ownHash (env : Environment) : Hash := ⟨env.tx.scriptHash, env.tx.length_scriptHash⟩

variable {env : Environment} {helpers : String → Option Program} {s : State} {fail : String}
  {bundle : List UInt8} {records : List PolicyWitnessRecord} {h : Hash}

section Head

variable {C : Code (machine env.surroundings helpers)} {rest : List Instruction}
  {fall : Option String} {s₀ : State} {v : List UInt8}

/-- **The hash of the running script is loaded.** -/
theorem runs_hashLoad {p : Word} (hsp : s.get sp = p)
    (hrun : ∀ s', Keeps clobbered s s' → Agree p 0 policyHashSizeOffset s.mem s'.mem →
      read s'.mem (p + ofNat 64 policyHashBufferOffset) 32 = (ownHash env).bytes →
      C.Runs rest fall s') : C.Runs (hashLoad fail ++ rest) fall s := by
  have hlength := env.tx.length_scriptHash
  simp (disch := decide) only [hashLoad, append_assoc, slot_rules, runs_rules, act, set_rules, hsp]
  refine follows_delivered (b := p) policyHashBufferOffset policyHashSizeOffset 32 0
    env.tx.scriptHash rfl (by decide) (by decide) ?_ ?_ get_set_of_ne ?_ fun s₁ h₁ ↦ ?_
  · simp (disch := decide) only [set_rules]
  · simp (disch := decide) only [set_rules]
  · simp only [slot_rules, mem_set]
    rw [load_store_self]
  have hkeeps₁ : Keeps clobbered s s₁ := Keeps.trans (by simp) h₁.regs
  have hstatus : s₁.get a0 = 0#64 := by
    rw [h₁.status, drop_zero, hlength, if_neg (by decide)]
  have htotal := h₁.total
  rw [drop_zero, hlength] at htotal
  simp (disch := decide) only [slot_rules, runs_rules, act, set_rules, hstatus, hkeeps₁.get sp, hsp,
    htotal, bne_self_eq_false, false_eq_true, if_false]
  refine hrun _ (by simp [hkeeps₁]) ?_ ?_
  · simp only [slot_rules, mem_set]
    refine Agree.trans ?_ (h₁.agree 0 _ (by decide) (.inr (by decide)) (.inr le_rfl))
    exact Agree.refl.store
  · have hbytes := h₁.bytes
    rw [drop_zero, take_of_length_le hlength.le, hlength] at hbytes
    simp only [slot_rules, mem_set, hbytes, ownHash]

/-- **The head of the vector is checked.** -/
theorem runs_vectorHead (hbytes : read s.mem (vectorAt (s.get sp)) v.length = v)
    (hsize : load s.mem (s.get sp + ofNat 64 entryWitnessSizeOffset) 8 =
      ofNat 64 (v.length + 8)) (hlong : 8 ≤ v.length) (hroom : v.length ≤ 4068)
    (hhash : read s.mem (s.get sp + ofNat 64 policyHashBufferOffset) 32 = h.bytes)
    (hfound : load s.mem (s.get sp + ofNat 64 policyFoundOffset) 8 = 0#64)
    (hok : Headed v → ∀ s', Scan v h (countOf v) 0 none none s s' → C.RunsAt "policy_record" s')
    (hno : ¬ Headed v → Fails C fail s) : C.Runs (vectorHead fail) (some "policy_record") s := by
  have htotal := u32_lt v 0
  have hfirst := u32_lt v 4
  have ht1 : ofNat 64 (v.length + 8) + BitVec.ofInt 64 (-8) = ofNat 64 v.length := by
    rw [ofNat_add, BitVec.add_assoc]
    exact BitVec.add_zero _
  have hvector : s.get sp + ofNat 64 (entryWitnessBufferOffset + policyWitnessMagic.length) =
      vectorAt (s.get sp) := rfl
  have ht0 := Nested.load_u32 hbytes (show 0 + 4 ≤ v.length by omega)
  rw [BitVec.add_zero] at ht0
  simp (disch := decide) only [vectorHead, slot_rules, runs_u32, runs_rules, act, set_rules, hsize,
    ht1, BitVec.add_zero, hvector, ht0, Nested.load_u32 hbytes hlong]
  refine ite_bne (fun hne ↦ hno (fun h ↦ hne h.total) _ (by simp)) fun heq ↦ ?_
  refine ite_ult (fun hlt ↦ hno (fun h ↦ absurd h.le_first (by omega)) _ (by simp)) fun hle ↦ ?_
  refine ite_ult (fun hlt ↦ hno (fun h ↦ ?_) _ (by simp)) fun hrecords ↦ ?_
  · have hcount : countOf v ≤ 8 := h.le_records
    have := h.first_eq
    simp only [maxPolicyWitnessRecords] at hlt
    omega
  rw [and_three_bne_zero (by omega)]
  refine ite_of_iff bne_iff_ne (fun hodd ↦ hno (fun h ↦ hodd h.aligned) _ (by simp)) fun heven ↦ ?_
  rw [not_not] at heven
  refine ite_ult (fun hlt ↦ hno (fun h ↦ absurd h.first_le (by omega)) _ (by simp)) fun hin ↦ ?_
  simp only [maxPolicyWitnessRecords] at hrecords
  have hhead : Headed v := ⟨hlong, heq, hle, heven, by omega, show u32 v 4 / 4 - 1 ≤ 8 by omega⟩
  refine hok hhead _ ⟨by simp, ?_, ?_, ?_, ?_, ?_, ?_, ?_, ?_⟩ <;>
    simp (disch := decide) only [slot_rules, set_rules]
  · rw [heq]
  · rw [← hhead.first_eq]
  · rfl
  · exact hbytes
  · exact hhash
  · exact hfound

theorem Canonical.le_length (h : Canonical records bundle) : 77 ≤ bundle.length := by
  obtain ⟨r, records, rfl⟩ := List.exists_cons_of_length_pos h.vector.pos
  have hlength := congrArg List.length h.vector.bytes
  rw [length_drop, Checker.Nested.Molecule.length_table, startOf, take_length, length_map,
    length_cons, map_cons, flatten_cons, length_append, length_recordBytes] at hlength
  have hmagic : policyWitnessMagic.length = 8 := rfl
  have hfixed : recordFixedBytes = 61 := rfl
  omega

/-- **The scanner goes on with the script's own record**, if the decoder accepts the bundle and
there is one. -/
theorem runsAt_validate (hplaced : Placed C.program fail) (hholds : Holds bundle s)
    (hok : ∀ records r, decodePolicyWitnessBundle bundle = .ok records →
      selectedRecord records .type (ownHash env) = some r → ∀ s', Keeps clobbered s s' →
      Picked (s.get sp) (bundle.drop 8) r s'.mem →
      read s'.mem (vectorAt (s.get sp)) (bundle.drop 8).length = bundle.drop 8 →
      C.RunsAt "policy_selected" s')
    (hno : (¬ ∃ records r, decodePolicyWitnessBundle bundle = .ok records ∧
      selectedRecord records .type (ownHash env) = some r) →
      Fails C fail s) : C.RunsAt "policy_validate" s := by
  have hlt := hholds.lt
  obtain ⟨-, hbuffer, hhashSize, hhashBuffer, -, -, -, hfoundAt, hframe⟩ := slots
  rw [runsAt_iff hplaced.validate, scannerHead]
  simp (disch := decide) only [slot_rules, runs_rules, act, set_rules, hholds.size]
  refine ite_ult (fun hshort ↦ hno ?_ _ (by simp)) fun hlong ↦ ?_
  · rintro ⟨records, r, h, -⟩
    exact absurd (decode_ok_iff.1 h).le_length (not_le.2 hshort)
  refine ite_ult (fun hover ↦ hno ?_ _ (by simp)) fun hsize ↦ ?_
  · rintro ⟨records, r, h, -⟩
    exact absurd (decode_ok_iff_vector.1 h).1 (not_le.2 hover)
  replace hlong : 77 ≤ bundle.length := hlong
  replace hsize : bundle.length ≤ 4076 := hsize
  have hbytes := hholds.bytes (show bundle.length ≤ 4096 by omega)
  have hlength : (bundle.drop 8).length = bundle.length - 8 := length_drop
  have hmagic : read s.mem (s.get sp + ofNat 64 entryWitnessBufferOffset)
      policyWitnessMagic.length = bundle.take policyWitnessMagic.length := by
    have hfield := read_eq_field hbytes (k := 0) (n := 8) (by omega)
    rwa [BitVec.add_zero] at hfield
  have hvector : read s.mem (vectorAt (s.get sp)) (bundle.drop 8).length = bundle.drop 8 := by
    have hfield := read_eq_field hbytes (k := 8) (n := (bundle.drop 8).length) (by omega)
    rw [add_ofNat_add_ofNat, field, take_length] at hfield
    exact hfield
  refine runs_magicCheck sp (by decide) (fun k hk ↦ if_pos ?_) (fun hread s₃ h₃ ↦ ?_)
    fun hne ↦ (hno fun hreads ↦ hne ?_).of_keeps (by simp)
  · have : k < 8 + 8 := hk
    omega
  · simp (disch := decide) only [slot_rules, set_rules, hmagic] at hread
    have hquiet₃ : Quiet clobbered s s₃ := Quiet.trans (by simp) h₃
    refine runs_hashLoad (hquiet₃.get sp) fun s₄ h₄ hagree₄ hhash ↦ ?_
    have hkeeps₄ : Keeps clobbered s s₄ := hquiet₃.regs.trans h₄
    rw [hquiet₃.mem] at hagree₄
    simp only [slot_rules, hkeeps₄.get sp, State.get_zero]
    generalize hs₅ : State.setMem _ _ = s₅
    have hkeeps₅ : Keeps clobbered s s₅ := by simp [← hs₅, hkeeps₄]
    have hsp₅ : s₅.get sp = s.get sp := hkeeps₅.get sp
    have hmem₅ : s₅.mem = store s₄.mem (s.get sp + ofNat 64 policyFoundOffset) 8 0#64 := hs₅ ▸ rfl
    have hagree : Agree (s.get sp) 0 policyHashSizeOffset s.mem s₅.mem := hmem₅ ▸ hagree₄.store
    have hdecode : ∀ records, decodePolicyWitnessBundle bundle = .ok records ↔
        decodeVector (bundle.drop 8) = .ok records := fun records ↦
      decode_ok_iff_vector.trans ((and_iff_right hsize).trans (and_iff_right hread))
    refine runs_vectorHead (h := ownHash env) (v := bundle.drop 8) ?_ ?_ (by omega) (by omega) ?_ ?_
      (fun hhead s₆ hscan ↦ ?_) fun hne ↦ (hno fun hreads ↦ hne ?_).of_keeps hkeeps₅
    · rw [hsp₅, hagree.read, hvector]
    · rw [hsp₅, hagree.load, hholds.size]
      congr
      omega
    · rw [hsp₅, hmem₅, read_store_of_disjoint, hhash]
    · rw [hsp₅, hmem₅, load_store_self]
    · obtain ⟨n, hn⟩ : ∃ n, countOf (bundle.drop 8) = n + 1 :=
        Nat.exists_eq_succ_of_ne_zero hhead.pos.ne'
      have hfit : Fitting (bundle.drop 8) (countOf (bundle.drop 8)) s₅ :=
        ⟨hhead.header.le_length, by omega, hsp₅ ▸ hholds.fits⟩
      have hreads : ∀ records, decodePolicyWitnessBundle bundle = .ok records ↔
          Reads (bundle.drop 8) (4 * (countOf (bundle.drop 8) + 1)) (countOf (bundle.drop 8))
            (n + 1) 0 none records := by
        intro records
        rw [hdecode, decodeVector_ok_iff, and_iff_right hhead, hhead.first_eq, ← hn]
      refine runsAt_records hplaced hfit (by omega) hscan (by simp)
        (fun records r hrecords hselected s₇ h₇ hpicked hread ↦ ?_) fun hne ↦
          (hno fun h ↦ hne (h.imp fun _ ↦ .imp fun _ ↦ .imp_left (hreads _).1)).of_keeps hkeeps₅
      rw [hsp₅] at hpicked hread
      exact hok records r ((hreads _).2 hrecords) hselected s₇ (hkeeps₅.trans h₇) hpicked hread
    · obtain ⟨records, r, h, -⟩ := hreads
      exact (decodeVector_ok_iff.1 ((hdecode records).1 h)).1
  · simp (disch := decide) only [slot_rules, set_rules, hmagic]
    obtain ⟨records, r, h, -⟩ := hreads
    exact (decode_ok_iff_vector.1 h).2.1

end Head

/-! ### The three readers -/

section Readers

variable {program : Program}

theorem placed_cons_of_fresh (body : List Instruction)
    (hfresh : fail ∉ (policyScanner fail).map (·.label)) (h : Placed program fail) :
    Placed (⟨fail, body⟩ :: program) fail := by
  simp only [policyScanner, map_cons, map_nil, mem_cons, not_mem_nil, or_false, not_or] at hfresh
  obtain ⟨h₁, h₂, h₃, h₄, h₅, h₆, h₇, h₈, h₉, -⟩ := hfresh
  exact ⟨(if_neg h₁).trans h.validate, (if_neg h₂).trans h.record, (if_neg h₃).trans h.finalRecord,
    (if_neg h₄).trans h.recordEnd, (if_neg h₅).trans h.argsValid, (if_neg h₆).trans h.keyLoop,
    (if_neg h₇).trans h.keyOrdered, (if_neg h₈).trans h.hashLoop, (if_neg h₉).trans h.nextRecord⟩

theorem placed_leftAt_selected : Placed (leftAt "policy_selected" (policyScanner fail)) fail :=
  ⟨rfl, rfl, rfl, rfl, rfl, rfl, rfl, rfl, rfl⟩

/-- What the scanner leaves in the frame of the record it goes on with. -/
structure Delivers (r : PolicyWitnessRecord) (s s' : State) : Prop where
  tag : load s'.mem (s.get sp + ofNat 64 policyTagOffset) 8 = ofNat 64 r.tag.toNat
  length : load s'.mem (s.get sp + ofNat 64 policyArgsLengthOffset) 8 = ofNat 64 r.args.length
  args : read s'.mem (load s'.mem (s.get sp + ofNat 64 policyArgsPointerOffset) 8)
    r.args.length = r.args

/-- **An accepted bundle with the script's own record.** -/
theorem exists_reaches_selected {r : PolicyWitnessRecord} (hholds : Holds bundle s)
    (hdecode : decodePolicyWitnessBundle bundle = .ok records)
    (hselected : selectedRecord records .type (ownHash env) = some r) :
    ∃ s', Reaches env.surroundings helpers (policyScanner fail) "policy_selected" s s' ∧
      Delivers r s s' := by
  refine exists_reaches rfl (runsAt_validate placed_leftAt_selected hholds
    (fun records' r' hdecode' hselected' s' hkeeps hpicked hread ↦ ?_)
    fun hne ↦ absurd ⟨records, r, hdecode, hselected⟩ hne)
  obtain rfl := ok.inj (hdecode.symm.trans hdecode')
  obtain rfl := mem_unique hselected hselected'
  obtain ⟨k, hpointer, hk, hargs⟩ := hpicked.pointer
  refine runsAt_leftAt.2 ⟨hkeeps.get ra, hpicked.tag, hpicked.length, ?_⟩
  rw [hpointer, read_eq_field hread hk, hargs]

/-- **Any other byte string.** -/
theorem not_reaches_selected (hfresh : fail ∉ (policyScanner fail).map (·.label))
    (hholds : Holds bundle s) (h : ¬ ∃ records r, decodePolicyWitnessBundle bundle = .ok records ∧
      selectedRecord records .type (ownHash env) = some r) (s' : State) :
    ¬ Reaches env.surroundings helpers (policyScanner fail) "policy_selected" s s' := by
  refine not_reaches_of_runsAt fail a2 rfl (Program.at?_none ?_) fun v ↦ ?_
  · simp only [policyScanner, map_cons, map_nil, mem_cons, not_mem_nil, or_false, not_or] at hfresh
    simp [leftAt, policyScanner, hfresh]
  · refine runsAt_validate (placed_cons_of_fresh _ hfresh placed_leftAt_selected) hholds
      (fun records r hdecode hselected ↦ absurd ⟨records, r, hdecode, hselected⟩ h)
      fun _ s₁ hkept ↦ ?_
    have hat : Program.at? fail ((⟨fail, [.li a2 v, .ret]⟩ : Block) ::
        leftAt "policy_selected" (policyScanner fail)) =
        some ([.li a2 v, .ret], some "policy_selected") := if_pos rfl
    rw [runsAt_iff hat, runs_cons, act, follows_next, runs_cons, act, follows_ret]
    exact ⟨hkept.get ra, get_set_self⟩

theorem exists_decode_selected_iff : (∃ records r, decodePolicyWitnessBundle bundle = .ok records ∧
        selectedRecord records .type h = some r) ↔
      ∃ records, decodePolicyWitnessBundle bundle = .ok records ∧
        ∃ r ∈ records, r.role = .type ∧ r.scriptHash = h := by
  refine exists_congr fun records ↦ ?_
  rw [exists_and_left]
  refine and_congr_right fun hdecode ↦ exists_congr fun r ↦ ?_
  exact selectedRecord_some_iff (decode_ok_iff.1 hdecode).vector.sorted

/-- **Three readers of a bundle agree**, and the encoder writes what they read. -/
theorem readers_agree (env : Environment) (helpers : String → Option Program) (fail : String)
    (hfresh : fail ∉ (policyScanner fail).map (·.label)) :
    (∀ bundle s, Holds bundle s →
      ((∃ s', Reaches env.surroundings helpers (policyScanner fail) "policy_selected" s s') ↔
        ∃ records, decodePolicyWitnessBundle bundle = .ok records ∧
          ∃ r ∈ records, r.role = .type ∧ r.scriptHash = ownHash env) ∧
      ∀ records r s', decodePolicyWitnessBundle bundle = .ok records → r ∈ records →
        r.role = .type → r.scriptHash = ownHash env →
        Reaches env.surroundings helpers (policyScanner fail) "policy_selected" s s' →
        Delivers r s s') ∧
    (∀ bundle h tag args, policyRequest bundle (hexEncode h.bytes) = .ok (tag, args) ↔
      ∃ records, decodePolicyWitnessBundle bundle = .ok records ∧ ∃ r ∈ records,
        r.role = .type ∧ r.scriptHash = h ∧ r.tag = tag ∧ r.args = args) ∧
    (∀ records bundle, encodePolicyWitnessBundle records = .ok bundle →
      ∃ sorted, sorted.Perm records ∧ sorted.Pairwise (fun a b ↦ a.key < b.key) ∧
        decodePolicyWitnessBundle bundle = .ok sorted) ∧
    ∀ records bundle, decodePolicyWitnessBundle bundle = .ok records →
      encodePolicyWitnessBundle records = .ok bundle := by
  have hselects : ∀ {bundle records r h}, decodePolicyWitnessBundle bundle = .ok records →
      (selectedRecord records .type h = some r ↔ r ∈ records ∧ r.role = .type ∧ r.scriptHash = h) :=
    fun hdecode ↦ selectedRecord_some_iff (decode_ok_iff.1 hdecode).vector.sorted
  refine ⟨fun bundle s hholds ↦ ⟨?_, ?_⟩, ?_, ?_, ?_⟩
  · rw [← exists_decode_selected_iff]
    constructor
    · rintro ⟨s', hs'⟩
      by_contra hne
      exact not_reaches_selected hfresh hholds hne s' hs'
    · rintro ⟨records, r, hdecode, hselected⟩
      obtain ⟨s', hs', -⟩ := exists_reaches_selected hholds hdecode hselected
      exact ⟨s', hs'⟩
  · intro records r s' hdecode hr hrole hhash hs'
    obtain ⟨s₁, hs₁, hdelivers⟩ :=
      exists_reaches_selected hholds hdecode ((hselects hdecode).2 ⟨hr, hrole, hhash⟩)
    exact hs'.unique hs₁ ▸ hdelivers
  · intro bundle h tag args
    rw [policyRequest_ok_iff]
    constructor
    · rintro ⟨records, r, hcanonical, hselected, htag, hargs⟩
      have hdecode := decode_ok_iff.2 hcanonical
      obtain ⟨hr, hrole, hhash⟩ := (hselects hdecode).1 hselected
      exact ⟨records, hdecode, r, hr, hrole, hhash, htag, hargs⟩
    · rintro ⟨records, hdecode, r, hr, hrole, hhash, htag, hargs⟩
      exact ⟨records, r, decode_ok_iff.1 hdecode, (hselects hdecode).2 ⟨hr, hrole, hhash⟩, htag,
        hargs⟩
  · intro records bundle hencode
    have hcanonical := encode_ok_iff.1 hencode
    exact ⟨ordered records, perm_insertionSort _ _, hcanonical.vector.sorted,
      decode_ok_iff.2 hcanonical⟩
  · intro records bundle hdecode
    have hcanonical := decode_ok_iff.1 hdecode
    have hsorted : ordered records = records :=
      List.Pairwise.insertionSort_eq (hcanonical.vector.sorted.imp fun hab ↦ hab.le)
    rwa [encode_ok_iff, hsorted]

end Readers

/-- A transaction without cells, of a script whose hash is zero. -/
def sampleEnvironment : Environment := ⟨.empty, true, fun _ ↦ 0#64, 0#64⟩

def sampleRecord (role : PolicyScriptRole) (arg : UInt8) : PolicyWitnessRecord :=
  ⟨role, ownHash sampleEnvironment, 7, entryArgsMagic ++ [arg]⟩

/-- Two records with one hash, of which the scanner looks for the second. -/
def sampleRecords : List PolicyWitnessRecord := [sampleRecord .lock 5, sampleRecord .type 6]

def sampleBundle : List UInt8 :=
  policyWitnessMagic ++ Checker.Nested.Molecule.table (sampleRecords.map recordBytes)

/-- A frame at address zero that holds the bundle. -/
def sampleState : State :=
  ⟨fun _ ↦ 0#64, fun a ↦ (le 8 sampleBundle.length ++ sampleBundle).getD a.toNat 0⟩

/-- The scanner goes on with the record of the sample. -/
theorem readers_agree_sample : Holds sampleBundle sampleState ∧
    ∃ s', Reaches sampleEnvironment.surroundings (fun _ ↦ none) (policyScanner "policy_fail")
      "policy_selected" sampleState s' ∧ Delivers (sampleRecord .type 6) sampleState s' := by
  have hholds : Holds sampleBundle sampleState := by
    refine ⟨?_, by decide +kernel, fun _ ↦ ?_, by decide⟩ <;> decide +kernel
  have hdecode : decodePolicyWitnessBundle sampleBundle = .ok sampleRecords := by
    decide +kernel
  have hmem : sampleRecord .type 6 ∈ sampleRecords := by decide
  obtain ⟨hiff, hdelivers⟩ := (readers_agree sampleEnvironment (fun _ ↦ none) "policy_fail"
    (by decide)).1 sampleBundle sampleState hholds
  obtain ⟨s', hs'⟩ := hiff.2 ⟨_, hdecode, _, hmem, rfl, rfl⟩
  exact ⟨hholds, s', hs', hdelivers _ _ _ hdecode hmem rfl rfl hs'⟩

end CellScript.PolicyWitness
