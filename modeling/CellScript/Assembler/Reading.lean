import CellScript.Assembler.Layout

/-!
# What the reading loop establishes

The invariant of `ReadState.run`: the size of a section is the end of the layout of its operations,
and a symbol's offset is the end of the layout of the operations before its label (`Laid`). One line
preserves it, whatever the line says (`Laid.step`), so every accepted text has it
(`Laid.run`).
-/

namespace CellScript.Assembler

/-! ### Transparent wrappers -/

@[simp] theorem GeneratedAssemblyProvenance.attach_ok_iff {α : Type}
    {p : GeneratedAssemblyProvenance} {x : Result α} {a : α} : p.attach x = .ok a ↔ x = .ok a := by
  cases x with
  | error e => simp [attach, Except.mapError]
  | ok b => simp [attach, Except.mapError]

/-! ### What a line can say -/

/-- Operations other than labels, and alignments to powers of two. -/
theorem parseAsmOp_ok {line : List Char} {op : AsmOp} (h : parseAsmOp line = .ok op) :
    (∀ name, op ≠ .label name) ∧ ∀ n, op = .align n → ∃ j, n = 2 ^ j := by
  unfold parseAsmOp at h
  split at h
  · simp only [bind_ok] at h
    obtain ⟨value, -, h⟩ := h
    split at h
    · cases h
      simp
    · simp at h
  split at h
  · simp only [bind_ok] at h
    obtain ⟨value, -, h⟩ := h
    split at h
    · cases h
      simp
    · simp at h
  split at h
  · simp only [bind_ok, pure_ok] at h
    obtain ⟨bytes, -, rfl⟩ := h
    simp
  split at h
  · simp only [bind_ok] at h
    obtain ⟨value, -, h⟩ := h
    split at h
    · cases h
      simp
    · simp at h
  · simp only [bind_ok, pure_ok] at h
    obtain ⟨inst, -, rfl⟩ := h
    simp

theorem readLine_op_ok {clean : List Char} {op : AsmOp} (h : readLine clean = .ok (.op op)) :
    parseAsmOp clean = .ok op := by
  simp only [readLine, bind_ok] at h
  obtain ⟨k, -, h⟩ := h
  cases k with
  | some k => cases h
  | none =>
    simp only at h
    split at h
    · cases h
    split at h
    · cases h
    split at h
    · cases h
    simp only [bind_ok, pure_ok] at h
    obtain ⟨op', hop, heq⟩ := h
    cases heq
    exact hop
/-! ### The layout of a list of operations -/

/-- The offset after the operations, which start at the given index and offset. -/
def layoutOps (mode : BranchSizeMode) (k : SectionKind) : ℕ → ℕ → List LocatedAsmOp → Result ℕ
  | _, offset, [] => .ok offset
  | opIndex, offset, op :: ops => do
    let size ← opSize op.op offset k opIndex mode
    layoutOps mode k (opIndex + 1) (offset + size) ops

variable {k : SectionKind} {mode : BranchSizeMode}

theorem layoutOps_append_ok_iff {i offset n : ℕ} {xs ys : List LocatedAsmOp} :
    layoutOps mode k i offset (xs ++ ys) = .ok n ↔
      ∃ o, layoutOps mode k i offset xs = .ok o ∧
          layoutOps mode k (i + xs.length) o ys = .ok n := by
  induction xs generalizing i offset with
  | nil => simp [layoutOps]
  | cons op xs ih =>
    simp only [cons_append, layoutOps, bind_ok, ih, length_cons]
    constructor
    · rintro ⟨size, hsize, o, hxs, hys⟩
      exact ⟨o, ⟨size, hsize, hxs⟩, by rw [← hys]; congr 1; omega⟩
    · rintro ⟨o, ⟨size, hsize, hxs⟩, hys⟩
      exact ⟨size, hsize, o, hxs, by rw [← hys]; congr 1; omega⟩

/-- Adding one operation at the end. -/
theorem layoutOps_concat {n size : ℕ} {ops : List LocatedAsmOp} (op : LocatedAsmOp)
    (h : layoutOps mode k 0 0 ops = .ok n) (hsize : opSize op.op n k ops.length mode = .ok size) :
    layoutOps mode k 0 0 (ops ++ [op]) = .ok (n + size) := by
  rw [layoutOps_append_ok_iff]
  refine ⟨n, h, ?_⟩
  rw [zero_add, layoutOps, hsize]
  rfl

variable {mode : BranchSizeMode} {st st' : ReadState} {p : GeneratedAssemblyProvenance}
  {label : String}

namespace ReadState

/-! ### Sections of the state -/

def section_ (st : ReadState) : SectionKind → Section
  | .text => st.text
  | .rodata => st.rodata

theorem current_eq (st : ReadState) : st.current = st.section_ st.currentSection := by
  unfold current section_
  cases st.currentSection <;> rfl

theorem section_setCurrent (st : ReadState) (s : Section) (k : SectionKind) :
    (st.setCurrent s).section_ k = if k = st.currentSection then s else st.section_ k := by
  unfold setCurrent section_
  cases hcur : st.currentSection <;> cases k <;> rfl

@[simp] theorem symbols_setCurrent (st : ReadState) (s : Section) :
    (st.setCurrent s).symbols = st.symbols := by
  unfold setCurrent
  cases st.currentSection <;> rfl

@[simp] theorem section_considerEntry (st : ReadState) (label : String) (k : SectionKind) :
    (st.considerEntry label).section_ k = st.section_ k := by
  unfold considerEntry
  split <;> cases k <;> rfl

@[simp] theorem symbols_considerEntry (st : ReadState) (label : String) :
    (st.considerEntry label).symbols = st.symbols := by
  unfold considerEntry
  split <;> rfl

@[simp] theorem currentSection_considerEntry (st : ReadState) (label : String) :
    (st.considerEntry label).currentSection = st.currentSection := by
  unfold considerEntry
  split <;> rfl

/-! ### The invariant -/

/-- Where a symbol's label stands. -/
def Recorded (mode : BranchSizeMode) (ops : SectionKind → List LocatedAsmOp) (label : String)
    (symbol : SymbolDef) : Prop :=
  ∃ before p after, ops symbol.section_ = before ++ ⟨.label label, p⟩ :: after ∧
    layoutOps mode symbol.section_ 0 0 before = .ok symbol.offset

variable {lineIndex size n : ℕ} {line : String} {op x : LocatedAsmOp} {symbol : SymbolDef}

/-- A recorded label stays recorded when the sections grow. -/
theorem Recorded.mono {ops ops' : SectionKind → List LocatedAsmOp}
    (h : Recorded mode ops label symbol)
    (hgrow : ∀ k, ops k <+: ops' k) : Recorded mode ops' label symbol := by
  obtain ⟨before, p, after, hops, hlayout⟩ := h
  obtain ⟨more, hmore⟩ := hgrow symbol.section_
  refine ⟨before, p, after ++ more, ?_, hlayout⟩
  rw [← hmore, hops, append_assoc, cons_append]

/-- Sizes are those of the operations; symbols are recorded, and every label is one of them. -/
structure Laid (mode : BranchSizeMode) (st : ReadState) : Prop where
  size (k : SectionKind) : layoutOps mode k 0 0 (st.section_ k).ops = .ok (st.section_ k).size
  recorded {label : String} {symbol : SymbolDef} :
    st.symbols.lookup label = some symbol →
      Recorded mode (fun k ↦ (st.section_ k).ops) label symbol
  lookup {k : SectionKind} {label : String} {before : List LocatedAsmOp}
    {p : GeneratedAssemblyProvenance} {after : List LocatedAsmOp} :
    (st.section_ k).ops = before ++ ⟨.label label, p⟩ :: after →
      ∃ symbol, st.symbols.lookup label = some symbol ∧ symbol.section_ = k ∧
        layoutOps mode k 0 0 before = .ok symbol.offset

theorem Laid.init : Laid mode .init where
  size k := by cases k <;> rfl
  recorded h := by cases h
  lookup {k _ _ _ _} h := by
    have hnil : (ReadState.init.section_ k).ops = [] := by cases k <;> rfl
    rw [hnil] at h
    simp at h

/-- Growing the current section by one laid operation. -/
theorem Laid.size_setCurrent (h : Laid mode st) (op : LocatedAsmOp)
    (hsize : opSize op.op st.current.size st.currentSection st.current.ops.length mode = .ok size)
    (k : SectionKind) :
    layoutOps mode k 0 0
        ((st.setCurrent ⟨st.current.ops ++ [op], st.current.size + size⟩).section_ k).ops =
      .ok ((st.setCurrent ⟨st.current.ops ++ [op], st.current.size + size⟩).section_ k).size := by
  rw [section_setCurrent]
  split
  · subst k
    exact layoutOps_concat op (by rw [current_eq]; exact h.size _) hsize
  · exact h.size k

theorem prefix_setCurrent (st : ReadState) (op : LocatedAsmOp) (n : ℕ) (k : SectionKind) :
    (st.section_ k).ops <+: ((st.setCurrent ⟨st.current.ops ++ [op], n⟩).section_ k).ops := by
  rw [section_setCurrent]
  split
  · subst k
    exact List.prefix_append _ _
  · exact List.prefix_rfl

/-- An operation of a list with one more is an old one or the last. -/
theorem split_concat {xs before after : List LocatedAsmOp} {x new : LocatedAsmOp}
    (h : xs ++ [new] = before ++ x :: after) :
    (∃ after', xs = before ++ x :: after') ∨ (before = xs ∧ x = new) := by
  obtain rfl | ⟨after', last, rfl⟩ := List.eq_nil_or_concat after
  · obtain ⟨rfl, hx⟩ := List.append_inj' h rfl
    exact .inr ⟨rfl, (List.singleton_inj.1 hx).symm⟩
  · rw [List.concat_eq_append, ← cons_append, ← append_assoc] at h
    exact .inl ⟨after', (List.append_inj' h rfl).1⟩

/-- A label of the state with one more operation is an old label, or the last operation. -/
theorem split_setCurrent {before after : List LocatedAsmOp}
    (h : ((st.setCurrent ⟨st.current.ops ++ [op], n⟩).section_ k).ops = before ++ x :: after) :
    (∃ after', (st.section_ k).ops = before ++ x :: after') ∨
      (k = st.currentSection ∧ before = st.current.ops ∧ x = op) := by
  rw [section_setCurrent] at h
  split at h
  · rename_i hk
    obtain ⟨after', hold⟩ | hnew := split_concat h
    · refine .inl ⟨after', ?_⟩
      rw [hk]
      exact hold
    · exact .inr ⟨hk, hnew⟩
  · exact .inl ⟨after, h⟩

theorem Laid.addOp {op : AsmOp} (h : Laid mode st) (hlabel : ∀ name, op ≠ .label name)
    (hadd : st.addOp mode op p = .ok st') : Laid mode st' := by
  simp only [ReadState.addOp, bind_ok, pure_ok,
    GeneratedAssemblyProvenance.attach_ok_iff] at hadd
  obtain ⟨size, hsize, rfl⟩ := hadd
  refine ⟨h.size_setCurrent ⟨op, p⟩ hsize, fun hlookup ↦ ?_, fun hops ↦ ?_⟩
  · rw [symbols_setCurrent] at hlookup
    exact (h.recorded hlookup).mono (prefix_setCurrent st _ _)
  · rw [symbols_setCurrent]
    obtain ⟨after', hold⟩ | ⟨-, -, hnew⟩ := split_setCurrent hops
    · exact h.lookup hold
    · exact absurd (congrArg LocatedAsmOp.op hnew).symm (hlabel _)

theorem lookup_concat_some {symbols : List (String × SymbolDef)} {name : String} {new : SymbolDef}
    (h : (symbols ++ [(label, new)]).lookup name = some symbol) :
    symbols.lookup name = some symbol ∨ (name = label ∧ symbol = new) := by
  rw [List.lookup_append] at h
  cases hold : symbols.lookup name with
  | some old =>
    rw [hold] at h
    exact .inl h
  | none =>
    rw [hold] at h
    by_cases hname : name = label
    · subst hname
      rw [List.lookup_cons_self] at h
      exact .inr ⟨rfl, (some.inj h).symm⟩
    · simp [List.lookup_cons, beq_eq_false_iff_ne.2 hname] at h

theorem Laid.addLabel (h : Laid mode st) (hadd : st.addLabel label p = .ok st') :
    Laid mode st' := by
  unfold ReadState.addLabel at hadd
  split at hadd
  · simp at hadd
  · rename_i hfresh
    cases hadd
    set symbol : SymbolDef := ⟨st.currentSection, st.current.size, p.line⟩ with hsymbol
    set st₁ := ({ st with symbols := st.symbols ++ [(label, symbol)] } : ReadState).considerEntry
      label with hst₁
    have hsection (k : SectionKind) : st₁.section_ k = st.section_ k := by
      rw [section_considerEntry]
      cases k <;> rfl
    have hcur : st₁.currentSection = st.currentSection := by
      rw [currentSection_considerEntry]
    have hcurrent : st₁.current = st.current := by
      rw [current_eq, current_eq, hcur, hsection]
    have hsymbols : st₁.symbols = st.symbols ++ [(label, symbol)] := by
      rw [symbols_considerEntry]
    refine ⟨fun k ↦ ?_, fun {name sym} hlookup ↦ ?_, fun {k name before q after} hops ↦ ?_⟩
    · -- a label takes no room
      rw [section_setCurrent]
      split
      · subst k
        rw [current_eq, hsection]
        exact layoutOps_concat ⟨.label label, p⟩ (h.size _) rfl
      · rw [hsection]
        exact h.size k
    · rw [symbols_setCurrent, hsymbols] at hlookup
      obtain hold | ⟨rfl, rfl⟩ := lookup_concat_some hlookup
      · refine (h.recorded hold).mono fun k ↦ ?_
        rw [← hsection]
        exact prefix_setCurrent st₁ _ _ k
      · refine ⟨st.current.ops, p, [], ?_, ?_⟩
        · show ((st₁.setCurrent _).section_ st.currentSection).ops = _
          rw [section_setCurrent, if_pos hcur.symm, hcurrent]
        · rw [current_eq]
          exact h.size _
    · rw [symbols_setCurrent, hsymbols, List.lookup_append]
      obtain ⟨after', hold⟩ | ⟨hk, rfl, hnew⟩ := split_setCurrent hops
      · rw [hsection] at hold
        obtain ⟨old, hlookup, hplace⟩ := h.lookup hold
        exact ⟨old, by rw [hlookup]; rfl, hplace⟩
      · cases hnew
        refine ⟨symbol, by rw [hfresh]; simp, by rw [hk, hcur], ?_⟩
        rw [hk, hcur, hcurrent, current_eq]
        exact h.size _

/-- The invariant is about the sections and the symbols. -/
theorem Laid.congr (h : Laid mode st)
    (hsection : ∀ k, st'.section_ k = st.section_ k) (hsymbols : st'.symbols = st.symbols) :
    Laid mode st' := by
  refine ⟨fun k ↦ ?_, fun hlookup ↦ ?_, fun hops ↦ ?_⟩
  · rw [hsection]
    exact h.size k
  · rw [hsymbols] at hlookup
    refine (h.recorded hlookup).mono fun k ↦ ?_
    rw [hsection]
  · rw [hsection] at hops
    rw [hsymbols]
    exact h.lookup hops

theorem Laid.addLine {line : Line} (h : Laid mode st)
    (hlabel : ∀ op, line = .op op → ∀ name, op ≠ .label name)
    (hadd : st.addLine mode line p = .ok st') : Laid mode st' := by
  cases line with
  | section_ k =>
    cases hadd
    exact h.congr (fun k ↦ by cases k <;> rfl) rfl
  | ignored =>
    cases hadd
    exact h
  | global name =>
    cases hadd
    exact h.congr (fun k ↦ by cases k <;> rfl) rfl
  | label name => exact h.addLabel hadd
  | op op => exact h.addOp (hlabel op rfl) hadd

/-- What one turn of the loop does. -/
theorem step_ok (h : st.step mode lineIndex line = .ok st') :
    ((stripComment line = none ∨ stripComment line = some []) ∧ st' = st) ∨
      ∃ clean read p, stripComment line = some clean ∧ clean ≠ [] ∧ readLine clean = .ok read ∧
        st.addLine mode read p = .ok st' := by
  unfold ReadState.step at h
  split at h
  · cases h
    exact .inl ⟨.inl ‹_›, rfl⟩
  · cases h
    exact .inl ⟨.inr ‹_›, rfl⟩
  · rename_i clean hne hclean
    simp only [bind_ok, GeneratedAssemblyProvenance.attach_ok_iff] at h
    obtain ⟨read, hread, hadd⟩ := h
    exact .inr ⟨clean, read, _, hclean, hne, hread, hadd⟩

theorem Laid.step (h : Laid mode st) (hstep : st.step mode lineIndex line = .ok st') :
    Laid mode st' := by
  obtain ⟨-, rfl⟩ | ⟨clean, read, p, -, -, hread, hadd⟩ := step_ok hstep
  · exact h
  · refine h.addLine (fun op hop ↦ ?_) hadd
    rw [hop] at hread
    exact (parseAsmOp_ok (readLine_op_ok hread)).1

theorem Laid.run {lines : List String}
    (h : Laid mode st) (hrun : ReadState.run mode lineIndex st lines = .ok st') :
    Laid mode st' := by
  induction lines generalizing lineIndex st with
  | nil =>
    cases hrun
    exact h
  | cons line lines ih =>
    rw [ReadState.run, bind_ok] at hrun
    obtain ⟨st₁, hstep, hrun⟩ := hrun
    exact ih (h.step hstep) hrun

end ReadState

/-! ### The text as operations

What the lines say before any layout: the operations of each section in order, and the labels that
can be the entry point. The reading loop collects exactly these. -/

/-- The readable lines that are not blank. -/
def statements (lines : List String) : List Line :=
  lines.filterMap fun line ↦ (stripComment line).bind fun clean ↦
    if clean.isEmpty then none else (readLine clean).toOption

/-- The operations of one section, from a line on. -/
def sectionOps (k : SectionKind) : SectionKind → List Line → List AsmOp
  | _, [] => []
  | _, .section_ k' :: lines => sectionOps k k' lines
  | current, .ignored :: lines => sectionOps k current lines
  | current, .global _ :: lines => sectionOps k current lines
  | current, .label name :: lines =>
    (if k = current then [.label name] else []) ++ sectionOps k current lines
  | current, .op op :: lines => (if k = current then [op] else []) ++ sectionOps k current lines

/-- The text labels that were declared global before. -/
def entryCandidates : SectionKind → List String → List Line → List String
  | _, _, [] => []
  | _, globals, .section_ k :: lines => entryCandidates k globals lines
  | current, globals, .ignored :: lines => entryCandidates current globals lines
  | current, globals, .global name :: lines => entryCandidates current (globals ++ [name]) lines
  | current, globals, .label name :: lines =>
    (if current = .text ∧ name ∈ globals then [name] else []) ++
      entryCandidates current globals lines
  | current, globals, .op _ :: lines => entryCandidates current globals lines

/-- The first candidate whose name does not start with two underscores, or else the first. -/
def entryPoint (lines : List String) : Option String :=
  let candidates := entryCandidates .text [] (statements lines)
  (candidates.find? fun name ↦ (stripPrefix "__" name.toList).isNone).or candidates.head?

namespace ReadState

/-- What is still to come after a line is read, for each part of the state that collects. -/
structure Collects (lines : List Line) (st st' : ReadState) : Prop where
  ops (k : SectionKind) : (st'.section_ k).ops.map (·.op) =
    (st.section_ k).ops.map (·.op) ++ sectionOps k st.currentSection lines
  entryLabel : st'.entryLabel = st.entryLabel.or
    ((entryCandidates st.currentSection st.globals lines).find?
      fun name ↦ (stripPrefix "__" name.toList).isNone)
  fallbackEntry : st'.fallbackEntry = st.fallbackEntry.or
    (entryCandidates st.currentSection st.globals lines).head?

theorem Collects.refl (st : ReadState) : Collects [] st st where
  ops k := by rw [sectionOps, append_nil]
  entryLabel := by simp [entryCandidates]
  fallbackEntry := by simp [entryCandidates]

@[simp] theorem currentSection_setCurrent (st : ReadState) (s : Section) :
    (st.setCurrent s).currentSection = st.currentSection := by
  unfold setCurrent
  split <;> rfl

@[simp] theorem globals_setCurrent (st : ReadState) (s : Section) :
    (st.setCurrent s).globals = st.globals := by
  unfold setCurrent
  split <;> rfl

@[simp] theorem entryLabel_setCurrent (st : ReadState) (s : Section) :
    (st.setCurrent s).entryLabel = st.entryLabel := by
  unfold setCurrent
  split <;> rfl

@[simp] theorem fallbackEntry_setCurrent (st : ReadState) (s : Section) :
    (st.setCurrent s).fallbackEntry = st.fallbackEntry := by
  unfold setCurrent
  split <;> rfl

/-- The operations after one was added to the current section. -/
theorem map_op_setCurrent (st : ReadState) (op : LocatedAsmOp) (n : ℕ) (k : SectionKind) :
    ((st.setCurrent ⟨st.current.ops ++ [op], n⟩).section_ k).ops.map (·.op) =
      (st.section_ k).ops.map (·.op) ++ if k = st.currentSection then [op.op] else [] := by
  rw [section_setCurrent]
  split
  · subst k
    rw [current_eq, map_append, map_singleton]
  · rw [append_nil]

variable {st₁ : ReadState} {lines : List Line}

theorem Collects.addOp {op : AsmOp} (hadd : st.addOp mode op p = .ok st₁)
    (h : Collects lines st₁ st') : Collects (.op op :: lines) st st' := by
  simp only [ReadState.addOp, bind_ok, pure_ok,
    GeneratedAssemblyProvenance.attach_ok_iff] at hadd
  obtain ⟨size, -, rfl⟩ := hadd
  refine ⟨fun k ↦ ?_, ?_, ?_⟩
  · rw [h.ops k, map_op_setCurrent, append_assoc, currentSection_setCurrent, sectionOps]
  · simpa [entryCandidates] using h.entryLabel
  · simpa [entryCandidates] using h.fallbackEntry

theorem considerEntry_eq (st : ReadState) (label : String) :
    st.considerEntry label = { st with
      fallbackEntry := st.fallbackEntry.or
        (if st.currentSection = .text ∧ label ∈ st.globals then [label] else []).head?
      entryLabel := st.entryLabel.or
        ((if st.currentSection = .text ∧ label ∈ st.globals then [label] else []).find?
          fun name ↦ (stripPrefix "__" name.toList).isNone) } := by
  unfold considerEntry
  by_cases h : st.currentSection = .text ∧ label ∈ st.globals
  · by_cases hinternal : (stripPrefix "__" label.toList).isNone
    · simp [h, hinternal]
    · simp [h, hinternal]
  · simp [h]

theorem Collects.addLabel (hadd : st.addLabel label p = .ok st₁)
    (h : Collects lines st₁ st') : Collects (.label label :: lines) st st' := by
  unfold ReadState.addLabel at hadd
  split at hadd
  · simp at hadd
  · cases hadd
    refine ⟨fun k ↦ ?_, ?_, ?_⟩
    · have hops := h.ops k
      rw [map_op_setCurrent, section_considerEntry, currentSection_setCurrent,
        currentSection_considerEntry, append_assoc] at hops
      rw [hops]
      cases k <;> rfl
    · have hentry := h.entryLabel
      simp only [considerEntry_eq, entryLabel_setCurrent, currentSection_setCurrent,
        globals_setCurrent] at hentry
      rw [hentry, entryCandidates, List.find?_append, Option.or_assoc]
    · have hfallback := h.fallbackEntry
      simp only [considerEntry_eq, fallbackEntry_setCurrent, currentSection_setCurrent,
        globals_setCurrent] at hfallback
      rw [hfallback, entryCandidates, List.head?_append, Option.or_assoc]

theorem Collects.addLine {line : Line} (hadd : st.addLine mode line p = .ok st₁)
    (h : Collects lines st₁ st') : Collects (line :: lines) st st' := by
  cases line with
  | section_ k =>
    cases hadd
    exact ⟨fun k ↦ by cases k <;> exact h.ops _, h.entryLabel, h.fallbackEntry⟩
  | ignored =>
    cases hadd
    exact ⟨h.ops, h.entryLabel, h.fallbackEntry⟩
  | global name =>
    cases hadd
    exact ⟨fun k ↦ by cases k <;> exact h.ops _, h.entryLabel, h.fallbackEntry⟩
  | label name => exact .addLabel hadd h
  | op op => exact .addOp hadd h

theorem run_collects {lines : List String} {lineIndex : ℕ}
    (hrun : ReadState.run mode lineIndex st lines = .ok st') :
    Collects (statements lines) st st' := by
  induction lines generalizing lineIndex st with
  | nil =>
    cases hrun
    exact .refl _
  | cons line lines ih =>
    rw [ReadState.run, bind_ok] at hrun
    obtain ⟨st₁, hstep, hrun⟩ := hrun
    obtain ⟨hblank, rfl⟩ | ⟨clean, read, p, hclean, hne, hread, hadd⟩ := step_ok hstep
    · have hskip : statements (line :: lines) = statements lines := by
        obtain hblank | hblank := hblank <;> simp [statements, hblank]
      rw [hskip]
      exact ih hrun
    · have hcons : statements (line :: lines) = read :: statements lines := by
        simp [statements, hclean, hne, hread, Except.toOption]
      rw [hcons]
      exact (ih hrun).addLine hadd

end ReadState

/-! ### Parsed assembly -/

namespace ParsedAssembly

/-- **Layout of accepted text.** Sizes, symbol offsets, operations and the entry label of parsed
assembly are those of its lines. -/
structure Reads (parsed : ParsedAssembly) (lines : List String) (relaxed : List ℕ) : Prop where
  relaxed_eq : parsed.relaxedTextBranches = relaxed
  size (k : SectionKind) :
    layoutOps (.exact relaxed) k 0 0 (parsed.section_ k).ops = .ok (parsed.sectionSize k)
  recorded {label : String} {symbol : SymbolDef} : parsed.symbols.lookup label = some symbol →
    ReadState.Recorded (.exact relaxed) (fun k ↦ (parsed.section_ k).ops) label symbol
  lookup {k : SectionKind} {label : String} {before : List LocatedAsmOp}
    {p : GeneratedAssemblyProvenance} {after : List LocatedAsmOp} :
    (parsed.section_ k).ops = before ++ ⟨.label label, p⟩ :: after →
      ∃ symbol, parsed.symbols.lookup label = some symbol ∧ symbol.section_ = k ∧
        layoutOps (.exact relaxed) k 0 0 before = .ok symbol.offset
  ops (k : SectionKind) : (parsed.section_ k).ops.map (·.op) = sectionOps k .text (statements lines)
  entryLabel : parsed.entryLabel = entryPoint lines

theorem reads_of_ok {lines : List String} {relaxed : List ℕ} {parsed : ParsedAssembly}
    (h : fromLinesWithBranchMode lines (.exact relaxed) = .ok parsed) :
    parsed.Reads lines relaxed := by
  simp only [fromLinesWithBranchMode, bind_ok, pure_ok] at h
  obtain ⟨st, hrun, hparsed⟩ := h
  have hlaid := ReadState.Laid.init.run hrun
  have hcollects := ReadState.run_collects hrun
  have hsection (k : SectionKind) : parsed.section_ k = st.section_ k := by
    rw [← hparsed]
    cases k <;> rfl
  have hsymbols : parsed.symbols = st.symbols := by rw [← hparsed]
  refine ⟨by rw [← hparsed]; rfl, fun k ↦ ?_, fun hlookup ↦ ?_, fun hops ↦ ?_, fun k ↦ ?_, ?_⟩
  · rw [sectionSize, hsection]
    exact hlaid.size k
  · rw [hsymbols] at hlookup
    refine (hlaid.recorded hlookup).mono fun k ↦ ?_
    rw [hsection]
  · rw [hsection] at hops
    rw [hsymbols]
    exact hlaid.lookup hops
  · rw [hsection, hcollects.ops k]
    cases k <;> rfl
  · rw [← hparsed, hcollects.entryLabel, hcollects.fallbackEntry]
    rfl

end ParsedAssembly

end CellScript.Assembler
