import CellScript.Names
import CellScript.Library.Framing
import Mathlib.Data.String.Basic

/-!
# The package source hash

`compute_source_hash` writes the manifest and then every source file into one byte string and
hashes it. A file contributes its relative path, a colon, its content and a newline.

## What is modelled

A `SourceTree` is a package directory as the hash sees it: the text of `Cell.toml`, if there is
one, and the files that `collect_hash_source_files` found, in the order the directory walk met
them. The walk yields a set of paths, so no path occurs twice. The hash sorts the files by path and
rewrites backslashes in the path it writes. The digest itself is a parameter: everything below is
about the bytes that reach it.

## What the bytes determine

A path may be any non-empty text, a content may be any text, and neither is escaped.
`sourceFiles_eq_of_hashInput_eq_iff` says exactly which trees are determined by their bytes: those
with no file, and those with one `Unambiguous` file. Two files are never determined, because the
first file's content can swallow the second frame (`Framing.stream_cons_cons`). One file is
determined when its path has one spelling, when no other colon can end its path, and when its
content cannot be cut into the content of that file and the frame of a later one. A backslash is
what protects a content: the written paths hold none.
-/

namespace CellScript.Package

open Framing List String

/-- A source file: its path relative to the package root, and its text. -/
structure SourceFile where
  path : String
  content : String
deriving DecidableEq, Repr

attribute [ext] SourceFile

/-- A package directory as `compute_source_hash` reads it. -/
structure SourceTree where
  /-- The text of `Cell.toml`, when the file exists. -/
  cellToml : Option String
  /-- The collected source files, in discovery order. -/
  files : List SourceFile
  path_ne_empty : ∀ f ∈ files, f.path ≠ ""
  path_nodup : (files.map SourceFile.path).Nodup

/-- The streaming hasher only queues the chunks; `finalize` hashes their concatenation. -/
structure Hasher where
  chunks : List ByteArray

namespace Hasher

def new : Hasher := ⟨[]⟩

def update (h : Hasher) (data : ByteArray) : Hasher := ⟨h.chunks ++ [data]⟩

/-- The byte string handed to the hash function. -/
def all (h : Hasher) : ByteArray := h.chunks.foldl (· ++ ·) ByteArray.empty

def finalize {D : Type} (blake2b : ByteArray → D) (h : Hasher) : D := blake2b h.all

@[simp] theorem all_new : new.all = ByteArray.empty := rfl

@[simp] theorem all_update (h : Hasher) (data : ByteArray) :
    (h.update data).all = h.all ++ data := by
  simp [all, update]

end Hasher

/-- Paths are ordered component by component. -/
def pathLe (p q : String) : Bool :=
  decide (p.toList.splitOn '/' ≤ q.toList.splitOn '/')

/-- `rel.to_string_lossy().replace('\\', "/")`. -/
def normalizeSeparators (path : String) : String :=
  String.ofList (path.toList.map fun c ↦ if c = '\\' then '/' else c)

/-- One iteration of the loop over the sorted files. -/
def hashFile (hasher : Hasher) (f : SourceFile) : Hasher :=
  (((hasher.update (normalizeSeparators f.path).toUTF8).update ":".toUTF8).update
    f.content.toUTF8).update "\n".toUTF8

namespace SourceTree

/-- The list of files that is hashed: the collected ones, sorted by path. -/
def sourceFiles (t : SourceTree) : List SourceFile :=
  t.files.mergeSort fun a b ↦ pathLe a.path b.path

/-- The hasher after the manifest. -/
def hashManifest (t : SourceTree) : Hasher :=
  match t.cellToml with
  | some content =>
    ((Hasher.new.update "Cell.toml:".toUTF8).update content.toUTF8).update "\n".toUTF8
  | none => Hasher.new

/-- The hasher after the last file. -/
def sourceHasher (t : SourceTree) : Hasher :=
  t.sourceFiles.foldl hashFile t.hashManifest

/-- The byte sequence that `compute_source_hash` feeds to the hash function. -/
def hashInput (t : SourceTree) : ByteArray := t.sourceHasher.all

/-- `compute_source_hash`, over any hash function. -/
def computeSourceHash {D : Type} (blake2b : ByteArray → D) (t : SourceTree) : D :=
  t.sourceHasher.finalize blake2b

/-! ### The hash input as a stream of framed records -/

/-- The record a file contributes: the path as written, and the content. -/
def record (f : SourceFile) : List Char × List Char :=
  ((normalizeSeparators f.path).toList, f.content.toList)

/-- The text written for the manifest. -/
def manifestText (cellToml : Option String) : String :=
  match cellToml with
  | some content => "Cell.toml:" ++ content ++ "\n"
  | none => ""

theorem all_hashManifest (t : SourceTree) :
    t.hashManifest.all = (manifestText t.cellToml).toByteArray := by
  unfold hashManifest manifestText
  cases t.cellToml with
  | none => rfl
  | some content => simp [String.toByteArray_append]

theorem all_foldl_hashFile (fs : List SourceFile) (h : Hasher) (s : String)
    (hs : h.all = s.toByteArray) :
    (fs.foldl hashFile h).all =
      (s ++ String.ofList (stream ':' '\n' (fs.map record))).toByteArray := by
  induction fs generalizing h s with
  | nil => simpa using hs
  | cons f fs ih =>
    have hstep : (hashFile h f).all =
        (s ++ normalizeSeparators f.path ++ ":" ++ f.content ++ "\n").toByteArray := by
      simp [hashFile, hs, String.toByteArray_append]
    rw [foldl_cons, ih _ _ hstep]
    congr 1
    apply toList_injective
    simp [record, frame, toList_append]

theorem hashInput_eq (t : SourceTree) :
    t.hashInput = (manifestText t.cellToml ++
      String.ofList (stream ':' '\n' (t.sourceFiles.map record))).toByteArray :=
  all_foldl_hashFile _ _ _ t.all_hashManifest

/-- **The hash input is the stream.** Under one manifest, equal bytes mean equal streams. -/
theorem hashInput_eq_iff (t u : SourceTree) (h : u.cellToml = t.cellToml) :
    u.hashInput = t.hashInput ↔
      stream ':' '\n' (u.sourceFiles.map record) = stream ':' '\n' (t.sourceFiles.map record) := by
  rw [hashInput_eq, hashInput_eq, h, String.toByteArray_inj]
  constructor
  · intro heq
    have hlist := congrArg String.toList heq
    rw [toList_append, toList_append, toList_ofList, toList_ofList] at hlist
    exact append_cancel_left hlist
  · intro heq
    rw [heq]

end SourceTree

/-! ### Spellings of a path -/

theorem toList_normalizeSeparators (path : String) :
    (normalizeSeparators path).toList = path.toList.map fun c ↦ if c = '\\' then '/' else c := by
  simp [normalizeSeparators]

theorem backslash_notMem_normalizeSeparators (path : String) :
    '\\' ∉ (normalizeSeparators path).toList := by
  rw [toList_normalizeSeparators, mem_map]
  rintro ⟨c, -, hc⟩
  by_cases h : c = '\\' <;> simp [h] at hc

variable {path : String}

/-- A path without a backslash is written as it is. -/
theorem normalizeSeparators_eq_self (h : '\\' ∉ path.toList) : normalizeSeparators path = path := by
  apply toList_injective
  rw [toList_normalizeSeparators]
  conv_rhs => rw [← map_id path.toList]
  refine map_congr_left fun c hc ↦ ?_
  have hne : c ≠ '\\' := fun heq ↦ h (heq ▸ hc)
  simp [hne]

/-- A written path without a slash has one spelling. -/
theorem eq_of_normalizeSeparators_eq {key : String} (h : normalizeSeparators path = key)
    (hkey : '/' ∉ key.toList) : path = key := by
  have hback : '\\' ∉ path.toList := by
    intro hmem
    refine hkey ?_
    rw [← h, toList_normalizeSeparators]
    exact mem_map.2 ⟨'\\', hmem, by simp⟩
  rw [← h, normalizeSeparators_eq_self hback]

/-- A path with a slash or a backslash has a second spelling. -/
theorem exists_ne_normalizeSeparators_eq (h : '/' ∈ path.toList ∨ '\\' ∈ path.toList) :
    ∃ path', path' ≠ path ∧ normalizeSeparators path' = normalizeSeparators path := by
  by_cases hback : '\\' ∈ path.toList
  · refine ⟨normalizeSeparators path, fun heq ↦ ?_, ?_⟩
    · refine backslash_notMem_normalizeSeparators path ?_
      rw [heq]
      exact hback
    · exact normalizeSeparators_eq_self (backslash_notMem_normalizeSeparators path)
  · have hslash := h.resolve_right hback
    refine ⟨String.ofList (path.toList.map fun c ↦ if c = '/' then '\\' else c), fun heq ↦ ?_, ?_⟩
    · rw [← heq, toList_ofList, mem_map] at hslash
      obtain ⟨c, -, hc⟩ := hslash
      by_cases hc' : c = '/' <;> simp [hc'] at hc
    · apply toList_injective
      rw [toList_normalizeSeparators, toList_normalizeSeparators, toList_ofList, map_map]
      refine map_congr_left fun c _ ↦ ?_
      by_cases hc : c = '/' <;> simp [hc]

/-! ### Which packages their bytes determine -/

theorem pathLe_trans (p q r : String) (h₁ : pathLe p q = true) (h₂ : pathLe q r = true) :
    pathLe p r = true := by
  rw [pathLe, decide_eq_true_eq] at *
  exact le_trans h₁ h₂

theorem pathLe_total (p q : String) : (pathLe p q || pathLe q p) = true := by
  simpa [pathLe] using le_total (p.toList.splitOn '/') (q.toList.splitOn '/')

/-- A file whose frame can be read in one way only. -/
structure SourceFile.Unambiguous (f : SourceFile) : Prop where
  /-- The path has one spelling. -/
  no_separator : '/' ∉ f.path.toList ∧ '\\' ∉ f.path.toList
  /-- No colon inside the path can be taken for the one that ends it. -/
  no_colon_in_path : ':' ∉ f.path.toList.tail
  /-- No colon inside the content can be taken for the one that ends the path: a backslash stands
  before each. -/
  backslash_before_colon : ∀ b e, f.content.toList = b ++ ':' :: e → '\\' ∈ b
  /-- No later file can start inside the content. -/
  no_later_frame : ∀ b e (path : String),
    f.content.toList = b ++ '\n' :: ((normalizeSeparators path).toList ++ ':' :: e) →
      path ≠ "" → path ≠ f.path → pathLe f.path path = false

namespace SourceTree

variable {t u : SourceTree} {f g : SourceFile} {k c d e : List Char}

theorem path_ne_empty_of_mem_sourceFiles (h : f ∈ t.sourceFiles) : f.path ≠ "" :=
  t.path_ne_empty f (mem_mergeSort.1 h)

theorem record_fst_ne_nil (h : f.path ≠ "") : (record f).1 ≠ [] := by
  intro hnil
  refine h (toList_injective ?_)
  simpa [record, toList_normalizeSeparators] using hnil

/-- Any key without a backslash and any body are the record of some file. -/
theorem record_ofList (c : List Char) (h : '\\' ∉ k) :
    record ⟨String.ofList k, String.ofList c⟩ = (k, c) := by
  have hk : normalizeSeparators (String.ofList k) = String.ofList k :=
    normalizeSeparators_eq_self (by rwa [toList_ofList])
  rw [record, hk, toList_ofList, toList_ofList]

/-- The hashed list is sorted by path and holds no path twice. -/
theorem pairwise_sourceFiles (t : SourceTree) :
    t.sourceFiles.Pairwise fun a b ↦ pathLe a.path b.path = true ∧ b.path ≠ a.path := by
  have hsorted : t.sourceFiles.Pairwise fun a b ↦ pathLe a.path b.path = true := by
    refine pairwise_mergeSort (fun a b c hab hbc ↦ ?_) (fun a b ↦ ?_) t.files
    · exact pathLe_trans _ _ _ hab hbc
    · exact pathLe_total _ _
  have hnodup : (t.sourceFiles.map SourceFile.path).Nodup :=
    ((mergeSort_perm t.files _).map SourceFile.path).nodup_iff.2 t.path_nodup
  refine hsorted.and ((pairwise_map.1 hnodup).imp fun h ↦ Ne.symm h)

/-- The package with one file. -/
def single (cellToml : Option String) (f : SourceFile) (h : f.path ≠ "") : SourceTree where
  cellToml := cellToml
  files := [f]
  path_ne_empty := by simpa using h
  path_nodup := by simp

@[simp] theorem sourceFiles_single (cellToml : Option String) (f : SourceFile) (h : f.path ≠ "") :
    (single cellToml f h).sourceFiles = [f] := by
  simp [single, sourceFiles]

/-- The package with two files, given in path order. -/
def pair (cellToml : Option String) (f g : SourceFile) (hf : f.path ≠ "") (hg : g.path ≠ "")
    (hfg : g.path ≠ f.path) : SourceTree where
  cellToml := cellToml
  files := [f, g]
  path_ne_empty := by simpa using ⟨hf, hg⟩
  path_nodup := by simpa using hfg.symm

theorem sourceFiles_pair {cellToml : Option String} {hf : f.path ≠ ""}
    {hg : g.path ≠ ""} {hfg : g.path ≠ f.path} (hle : pathLe f.path g.path = true) :
    (pair cellToml f g hf hg hfg).sourceFiles = [f, g] :=
  mergeSort_of_pairwise (by simp [pair, hle])

/-- The bytes of the package determine its list of files. -/
def Identified (t : SourceTree) : Prop :=
  ∀ u : SourceTree, u.cellToml = t.cellToml → u.hashInput = t.hashInput →
    u.sourceFiles = t.sourceFiles

theorem Identified.eq_of_stream_eq (ht : t.Identified) (u : SourceTree)
    (hu : u.cellToml = t.cellToml) (h : stream ':' '\n' (u.sourceFiles.map record) =
      stream ':' '\n' (t.sourceFiles.map record)) : u.sourceFiles = t.sourceFiles :=
  ht u hu ((hashInput_eq_iff t u hu).2 h)

theorem Identified.eq_single (ht : t.Identified) (hg : g.path ≠ "")
    (h : stream ':' '\n' [record g] =
      stream ':' '\n' (t.sourceFiles.map record)) : t.sourceFiles = [g] := by
  have := ht.eq_of_stream_eq (single t.cellToml g hg) rfl (by simpa using h)
  simpa using this.symm

/-- Bytes that determine the list come from at most one file. -/
theorem Identified.sourceFiles_eq (ht : t.Identified) :
    t.sourceFiles = [] ∨ ∃ f, t.sourceFiles = [f] := by
  rcases hfs : t.sourceFiles with - | ⟨f, fs⟩
  · exact Or.inl rfl
  · have hf : f.path ≠ "" := path_ne_empty_of_mem_sourceFiles (t := t) (by simp [hfs])
    obtain ⟨b, hb⟩ := exists_stream_singleton ':' '\n' (record f) (fs.map record)
    have hone := ht.eq_single (g := ⟨f.path, String.ofList b⟩) hf (by
      rw [hfs, map_cons, ← hb]
      simp [record])
    exact Or.inr ⟨_, hfs.symm.trans hone⟩

/-- The file of a determined one-file package is unambiguous. -/
theorem Identified.unambiguous (ht : t.Identified) (hf : t.sourceFiles = [f]) : f.Unambiguous := by
  have hpath : f.path ≠ "" := path_ne_empty_of_mem_sourceFiles (t := t) (by simp [hf])
  -- every other reading as one file is excluded
  have hone : ∀ g : SourceFile, g.path ≠ "" →
      stream ':' '\n' [record g] = stream ':' '\n' [record f] → g = f := by
    intro g hg hstream
    have := ht.eq_single hg (by rw [hf]; exact hstream)
    simpa using (hf.symm.trans this).symm
  have hspelling : ¬('/' ∈ f.path.toList ∨ '\\' ∈ f.path.toList) := by
    intro hsep
    obtain ⟨path', hne, hnorm⟩ := exists_ne_normalizeSeparators_eq hsep
    have hne' : path' ≠ "" := by
      rintro rfl
      exact record_fst_ne_nil hpath (by rw [record, ← hnorm]; rfl)
    have := hone ⟨path', f.content⟩ hne' (by simp [record, hnorm])
    exact hne (congrArg SourceFile.path this)
  have hback : '\\' ∉ f.path.toList := fun h ↦ hspelling (Or.inr h)
  have hnorm := normalizeSeparators_eq_self hback
  refine ⟨⟨fun h ↦ hspelling (Or.inl h), hback⟩, fun hcolon ↦ ?_, fun b e hcontent ↦ ?_,
    fun b e path hcontent hne hne' ↦ ?_⟩
  · -- end the path at the colon inside it
    obtain ⟨x, l, hl⟩ := exists_cons_of_ne_nil
      (fun h ↦ hpath (toList_injective h) : f.path.toList ≠ [])
    rw [hl] at hcolon
    obtain ⟨l₁, l₂, rfl⟩ := append_of_mem hcolon
    have hback₁ : '\\' ∉ x :: l₁ := by
      intro h
      refine hback ?_
      rw [hl]
      exact mem_append_left _ h
    have := hone ⟨String.ofList (x :: l₁), String.ofList (l₂ ++ ':' :: f.content.toList)⟩
      (by simp) (by
        rw [record_ofList _ hback₁, record, hnorm, hl]
        simp [frame])
    have hlen := congrArg (fun g : SourceFile ↦ g.path.toList.length) this
    simp [hl] at hlen
  · -- end the path at a colon inside the content
    by_contra hb
    have hback₁ : '\\' ∉ f.path.toList ++ ':' :: b := by
      simp [hback, hb]
    have := hone ⟨String.ofList (f.path.toList ++ ':' :: b), String.ofList e⟩ (by simp) (by
      rw [record_ofList _ hback₁, record, hnorm, hcontent]
      simp [frame])
    have hlen := congrArg (fun g : SourceFile ↦ g.path.toList.length) this
    simp at hlen
  · -- start a second file inside the content
    by_contra hle
    rw [Bool.not_eq_false] at hle
    have hfiles : (pair t.cellToml ⟨f.path, String.ofList b⟩ ⟨path, String.ofList e⟩ hpath hne
        hne').sourceFiles = [⟨f.path, String.ofList b⟩, ⟨path, String.ofList e⟩] :=
      sourceFiles_pair hle
    have heq := ht.eq_of_stream_eq
      (pair t.cellToml ⟨f.path, String.ofList b⟩ ⟨path, String.ofList e⟩ hpath hne hne') rfl (by
        rw [hfiles, hf]
        simp [record, hcontent, frame])
    rw [hfiles, hf] at heq
    simp at heq

/-- A colon before the closing newline stands in the content. -/
theorem eq_append_of_append_newline (h : c ++ ['\n'] = d ++ ':' :: e) :
    ∃ e', c = d ++ ':' :: e' := by
  rcases eq_nil_or_concat e with rfl | ⟨e', x, rfl⟩
  · have := congrArg List.getLast? h
    simp at this
  · refine ⟨e', ?_⟩
    have h' : c ++ ['\n'] = (d ++ ':' :: e') ++ [x] := by simpa using h
    exact (append_inj' h' rfl).1

/-- An unambiguous file is the only reading of its frame. -/
theorem eq_singleton_of_unambiguous (hf : f.Unambiguous)
    (h : stream ':' '\n' (u.sourceFiles.map record) =
      stream ':' '\n' [record f]) : u.sourceFiles = [f] := by
  have hkey : (record f).1 = f.path.toList := by
    rw [record, normalizeSeparators_eq_self hf.no_separator.2]
  rcases hu : u.sourceFiles with - | ⟨g, gs⟩
  · rw [hu] at h
    exact absurd ((stream_eq_nil_iff ':' '\n').1 h.symm) (by simp)
  have hg : g.path ≠ "" := path_ne_empty_of_mem_sourceFiles (t := u) (by simp [hu])
  have h' : (record g).1 ++ ':' :: (g.content.toList ++
      '\n' :: stream ':' '\n' (gs.map record)) =
      f.path.toList ++ ':' :: (f.content.toList ++ ['\n']) := by
    rw [hu] at h
    simpa [frame, record, ← hkey] using h
  obtain ⟨hpath, hcontent⟩ := key_eq_of_append_eq ':' hf.no_colon_in_path
    (record_fst_ne_nil hg) (backslash_notMem_normalizeSeparators g.path) (fun d e hde ↦ by
      obtain ⟨e', he'⟩ := eq_append_of_append_newline hde
      exact hf.backslash_before_colon d e' he') h'
  have hgf : g.path = f.path :=
    eq_of_normalizeSeparators_eq (toList_injective hpath) hf.no_separator.1
  -- a second file would start inside the content of `f`
  cases gs with
  | nil =>
    have : g.content = f.content := toList_injective (by simpa using hcontent)
    rw [show g = f from SourceFile.ext hgf this]
  | cons g' gs =>
    have hsorted := u.pairwise_sourceFiles
    rw [hu] at hsorted
    obtain ⟨hle, hne⟩ := (pairwise_cons.1 hsorted).1 g' mem_cons_self
    have hcut : f.content.toList ++ ['\n'] = (g.content.toList ++ '\n' :: (record g').1) ++ ':' ::
        (g'.content.toList ++ '\n' :: stream ':' '\n' (gs.map record)) := by
      rw [← hcontent]
      simp [frame, record]
    obtain ⟨e, he⟩ := eq_append_of_append_newline hcut
    have hfalse := hf.no_later_frame g.content.toList e g'.path (by simpa [record] using he)
      (path_ne_empty_of_mem_sourceFiles (t := u) (by simp [hu])) (hgf ▸ hne)
    rw [hgf, hfalse] at hle
    exact absurd hle (by simp)

/-- **What the source hash identifies.** The bytes that reach the hash function determine the list
of files exactly when the package has no file, or one unambiguous file. -/
theorem sourceFiles_eq_of_hashInput_eq_iff (t : SourceTree) :
    (∀ u : SourceTree, u.cellToml = t.cellToml → u.hashInput = t.hashInput →
      u.sourceFiles = t.sourceFiles) ↔
    t.sourceFiles = [] ∨ ∃ f, t.sourceFiles = [f] ∧ f.Unambiguous := by
  constructor
  · intro ht
    rcases Identified.sourceFiles_eq ht with hnil | ⟨f, hf⟩
    · exact Or.inl hnil
    · exact Or.inr ⟨f, hf, Identified.unambiguous ht hf⟩
  · rintro h u htoml hinput
    have hstream := (hashInput_eq_iff t u htoml).1 hinput
    rcases h with hnil | ⟨f, hf, hunambiguous⟩
    · rw [hnil] at hstream ⊢
      exact map_eq_nil_iff.1 ((stream_eq_nil_iff ':' '\n').1 hstream)
    · rw [hf] at hstream ⊢
      exact eq_singleton_of_unambiguous hunambiguous hstream

/-- A package with one file, whose content goes on with the frame of a second one. -/
def swallowing : SourceTree :=
  single (some "[package]\nname = \"demo\"\n")
    ⟨"src/a.cell", "module a\nsrc/b.cell:module b"⟩ (by decide)

/-- The package with the two files. -/
def swallowed : SourceTree :=
  pair (some "[package]\nname = \"demo\"\n") ⟨"src/a.cell", "module a"⟩
    ⟨"src/b.cell", "module b"⟩ (by decide) (by decide) (by decide)

/-- **A collision.** The two packages have one manifest and one hash input, and differ in their
files. -/
theorem hashInput_swallowed_eq :
    swallowed.cellToml = swallowing.cellToml ∧ swallowed.hashInput = swallowing.hashInput ∧
      swallowed.sourceFiles ≠ swallowing.sourceFiles := by
  have hfiles : swallowed.sourceFiles =
      [⟨"src/a.cell", "module a"⟩, ⟨"src/b.cell", "module b"⟩] := sourceFiles_pair (by decide)
  refine ⟨rfl, (hashInput_eq_iff swallowing swallowed rfl).2 ?_, ?_⟩
  · rw [hfiles, swallowing, sourceFiles_single]
    decide
  · rw [hfiles, swallowing, sourceFiles_single]
    decide

end SourceTree

end CellScript.Package
