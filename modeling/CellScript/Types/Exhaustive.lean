import CellScript.Library.Association
import CellScript.Library.Fallible
import CellScript.Library.PatternMatrix
import CellScript.Types.Pattern

/-!
# Accepted matches are exhaustive

Every value of the scrutinee's type is taken by some arm of an accepted match. Values are finite
trees; a recursive enum has infinitely many of them.

A match is accepted because its last arm is irrefutable, because the pattern matrix is exhaustive,
or because every variant of an enum is covered by an arm irrefutable for it. The matrix is sound
(`exhaustive_of_matrix`) by the rules of `PatternMatrix`, over rows whose patterns have passed the
analysis: the analysis is what makes the number of patterns agree with the number of fields. The
analysis in turn is sound (`analyzeMatchPattern_sound`) by induction on the pattern, with the matrix
for or-patterns.
-/

namespace CellScript.Types

open TypeChecker Association List

/-! ### Values -/

inductive Value
  | tuple (items : List Value)
  | struct (name : String) (fields : List (String × Value))
  | variant (enumName variant : String) (payload : List Value)
  | scalar (n : ℕ)
  deriving Repr, Inhabited

/-- The payload types of a variant. -/
def payloadTypes (variants : List (String × List Ty)) (variant : String) : List Ty :=
  (variants.reverse.lookup variant).getD []

/-- The values of a type. A name without a declaration is opaque. -/
inductive HasType (checker : TypeChecker) : Value → Ty → Prop
  | scalar (n : ℕ) (text : String) : HasType checker (.scalar n) (.scalar text)
  | undeclared (n : ℕ) {name : String} (hdef : checker.typeDef name = none) :
      HasType checker (.scalar n) (.named name)
  | tuple {vs : List Value} {types : List Ty} (hvs : Forall₂ (HasType checker) vs types) :
      HasType checker (.tuple vs) (.tuple types)
  | struct {name : String} {definition : StructDef} {vs : List Value}
      (hdef : checker.typeDef name = some (.struct definition))
      (hvs : Forall₂ (HasType checker) vs (definition.fields.map (·.2))) :
      HasType checker (.struct name ((definition.fields.map (·.1)).zip vs)) (.named name)
  | variant {name variant : String} {variants : List (String × List Ty)} {vs : List Value}
      (hdef : checker.typeDef name = some (.enum variants))
      (hvariant : variant ∈ variants.map (·.1))
      (hvs : Forall₂ (HasType checker) vs (payloadTypes variants variant)) :
      HasType checker (.variant name variant vs) (.named name)

/-! ### Matching -/

mutual

/-- Whether a pattern takes a value. -/
def MatchPattern.accepts : MatchPattern → Value → Bool
  | .wildcard, _ => true
  | .binding _, _ => true
  | .tuple items, .tuple vs => acceptsAll items vs
  | .struct path fields, .struct name vs => structPathMatches path name && acceptsFields fields vs
  | .variant path fields, .variant enumName variant vs =>
    decide (matchPatternVariant enumName path = some variant) && acceptsAll fields vs
  | .or patterns, v => acceptsAny patterns v
  | _, _ => false

def acceptsAll : List MatchPattern → List Value → Bool
  | [], [] => true
  | pattern :: patterns, v :: vs => pattern.accepts v && acceptsAll patterns vs
  | _, _ => false

def acceptsAny : List MatchPattern → Value → Bool
  | [], _ => false
  | pattern :: patterns, v => pattern.accepts v || acceptsAny patterns v

/-- Every named field of the pattern takes the value of that field. -/
def acceptsFields : List (String × MatchPattern) → List (String × Value) → Bool
  | [], _ => true
  | (field, pattern) :: fields, vs =>
    (match vs.lookup field with
      | some v => pattern.accepts v
      | none => false) && acceptsFields fields vs

end

/-- Matching as a relation. -/
def Accepts (pattern : MatchPattern) (v : Value) : Prop := pattern.accepts v = true

variable {a : MatchPatternAnalysis} {ty : Ty} {types : List Ty} {path variant name : String}

variable {patterns items : List MatchPattern} {vs ws : List Value} {v : Value}
  {fields : List (String × MatchPattern)} {checker : TypeChecker} {x : MatchPatternAnalysis}
  {definition : StructDef} {irrefutable irrefutable' : Bool} {pattern : MatchPattern}
  {enumName typeName : String} {children : List (Result MatchPatternAnalysis)} {names : List String}

theorem acceptsAll_iff : acceptsAll patterns vs = true ↔ Forall₂ Accepts patterns vs := by
  induction patterns generalizing vs with
  | nil => cases vs <;> simp [acceptsAll]
  | cons pattern patterns ih => cases vs <;> simp [acceptsAll, ih, Accepts]

theorem acceptsAny_iff :
    acceptsAny patterns v = true ↔ ∃ pattern ∈ patterns, Accepts pattern v := by
  induction patterns with
  | nil => simp [acceptsAny]
  | cons pattern patterns ih => simp [acceptsAny, ih, Accepts]

theorem acceptsFields_iff {vs : List (String × Value)} :
    acceptsFields fields vs = true ↔
      ∀ field ∈ fields, ∃ v, vs.lookup field.1 = some v ∧ Accepts field.2 v := by
  induction fields with
  | nil => simp [acceptsFields]
  | cons field fields ih =>
    obtain ⟨name, pattern⟩ := field
    cases h : vs.lookup name <;> simp [acceptsFields, ih, Accepts, h]

@[simp] theorem accepts_wildcard (v : Value) : Accepts .wildcard v := by
  rw [Accepts, MatchPattern.accepts]

@[simp] theorem accepts_binding (name : String) (v : Value) : Accepts (.binding name) v := by
  rw [Accepts, MatchPattern.accepts]

theorem accepts_tuple : Accepts (.tuple items) (.tuple vs) ↔ Forall₂ Accepts items vs := by
  rw [Accepts, MatchPattern.accepts, acceptsAll_iff]

theorem accepts_variant {fields : List MatchPattern} :
    Accepts (.variant path fields) (.variant enumName variant vs) ↔
      matchPatternVariant enumName path = some variant ∧ Forall₂ Accepts fields vs := by
  rw [Accepts, MatchPattern.accepts, and_eq_true, decide_eq_true_eq, acceptsAll_iff]

theorem accepts_struct {vs : List (String × Value)} : Accepts (.struct path fields)
    (.struct name vs) ↔ structPathMatches path name = true ∧
        ∀ field ∈ fields, ∃ v, vs.lookup field.1 = some v ∧ Accepts field.2 v := by
  rw [Accepts, MatchPattern.accepts, and_eq_true, acceptsFields_iff]

theorem accepts_or : Accepts (.or patterns) v ↔ ∃ pattern ∈ patterns, Accepts pattern v := by
  rw [Accepts, MatchPattern.accepts, acceptsAny_iff]

/-! ### What the analysis has checked -/

/-- The pattern passes the analysis, and is found irrefutable if `irrefutable`. -/
def Analyzed (checker : TypeChecker) (irrefutable : Bool) (pattern : MatchPattern) (ty : Ty) :
    Prop :=
  ∃ a, checker.analyzeMatchPattern ty pattern = .ok a ∧
    (irrefutable = true → a.irrefutable = true)

theorem finishAnalysis_ok (h : finishAnalysis x = .ok a) :
    a.irrefutable = x.irrefutable ∧ a.coveredVariants = x.coveredVariants := by
  rw [finishAnalysis] at h
  split at h
  · cases h
  · obtain rfl := ok.inj h
    exact ⟨rfl, rfl⟩

theorem combinePatternChildren_cons_ok {child : Result MatchPatternAnalysis}
    (h : combinePatternChildren (child :: children) = .ok a) :
    ∃ c rest, child = .ok c ∧ combinePatternChildren children = .ok rest ∧
      a.irrefutable = (c.irrefutable && rest.irrefutable) := by
  simp only [combinePatternChildren, bind_ok, pure_ok] at h
  obtain ⟨c, hc, rest, hrest, rfl⟩ := h
  exact ⟨c, rest, hc, hrest, rfl⟩

theorem Analyzed.mono (h : Analyzed checker irrefutable pattern ty)
    (hle : irrefutable' = true → irrefutable = true) :
    Analyzed checker irrefutable' pattern ty := by
  obtain ⟨a, ha, hirrefutable⟩ := h
  exact ⟨a, ha, fun h' ↦ hirrefutable (hle h')⟩

theorem analyzed_of_zip (hlength : patterns.length = types.length)
    (h : combinePatternChildren (checker.analyzeZip patterns types) = .ok a) :
    Forall₂ (Analyzed checker a.irrefutable) patterns types := by
  induction patterns generalizing types a with
  | nil =>
    obtain rfl := length_eq_zero_iff.1 hlength.symm
    exact .nil
  | cons pattern patterns ih =>
    obtain ⟨ty, types, rfl⟩ := exists_cons_of_length_eq_add_one hlength.symm
    obtain ⟨c, rest, hc, hrest, hirrefutable⟩ := combinePatternChildren_cons_ok h
    rw [hirrefutable]
    refine .cons ⟨c, hc, fun h ↦ (Bool.and_eq_true_iff.1 h).1⟩ ?_
    exact (ih (by simpa using hlength) hrest).imp fun _ _ hp ↦
      hp.mono fun h ↦ (Bool.and_eq_true_iff.1 h).2

theorem analyzed_of_fields {seen : List String}
    (h : checker.analyzeFields typeName definition seen fields = .ok children)
    (hcombine : combinePatternChildren children = .ok a) :
    (∀ field ∈ fields, ∃ ty, definition.fields.lookup field.1 = some ty ∧
      Analyzed checker a.irrefutable field.2 ty) ∧
    (∀ field ∈ fields, field.1 ∉ seen) ∧ (fields.map (·.1)).Nodup := by
  induction fields generalizing seen children a with
  | nil => simp
  | cons field fields ih =>
    rw [analyzeFields] at h
    split at h
    · cases h
    next hseen =>
    split at h
    · cases h
    next ty hlookup =>
    simp only [bind_ok, pure_ok] at h
    obtain ⟨children, hchildren, rfl⟩ := h
    obtain ⟨c, rest, hc, hrest, hirrefutable⟩ := combinePatternChildren_cons_ok hcombine
    obtain ⟨hfields, hfresh, hnodup⟩ := ih hchildren hrest
    refine ⟨?_, ?_, ?_⟩
    · rintro field (_ | ⟨_, hmem⟩)
      · exact ⟨ty, hlookup, c, hc, fun h ↦ by simp_all⟩
      · obtain ⟨ty', hlookup', hanalyzed⟩ := hfields field hmem
        exact ⟨ty', hlookup', hanalyzed.mono fun h ↦ by simp_all⟩
    · rintro field (_ | ⟨_, hmem⟩)
      · exact hseen
      · exact fun hmem' ↦ hfresh field hmem (mem_cons_of_mem _ hmem')
    · rw [map_cons, nodup_cons]
      refine ⟨fun hmem ↦ ?_, hnodup⟩
      obtain ⟨field, hfield, hname⟩ := mem_map.1 hmem
      exact hfresh field hfield (hname ▸ mem_cons_self)

theorem analyzed_of_each {as : List MatchPatternAnalysis}
    (h : collectResults (checker.analyzeEach ty patterns) = .ok as) :
    Forall₂ (fun pattern a ↦ checker.analyzeMatchPattern ty pattern = .ok a) patterns as := by
  induction patterns generalizing as with
  | nil =>
    obtain rfl := ok.inj h
    exact .nil
  | cons pattern patterns ih =>
    simp only [analyzeEach, collectResults, bind_ok, pure_ok] at h
    obtain ⟨a, ha, rest, hrest, rfl⟩ := h
    exact .cons ha (ih hrest)

theorem resolveEnumVariants_some (h : checker.resolveEnumVariants name = some names) :
    ∃ variants, checker.typeDef name = some (.enum variants) ∧ variants.map (·.1) = names := by
  rw [resolveEnumVariants] at h
  split at h
  next variants hdef => exact ⟨variants, hdef, some.inj h⟩
  next => cases h

section Inversion

theorem combinePatternChildren_coveredVariants
    (h : combinePatternChildren children = .ok a) : a.coveredVariants = [] := by
  cases children with
  | nil =>
    obtain rfl := ok.inj h
    rfl
  | cons child children =>
    simp only [combinePatternChildren, bind_ok, pure_ok] at h
    obtain ⟨-, -, -, -, rfl⟩ := h
    rfl

theorem analyze_tuple_ok (h : checker.analyzeMatchPattern ty (.tuple items) = .ok a) :
    ∃ types, ty = .tuple types ∧ a.coveredVariants = [] ∧
      Forall₂ (Analyzed checker a.irrefutable) items types := by
  cases ty with
  | tuple types =>
    rw [analyzeMatchPattern] at h
    split at h
    · cases h
    next hlength =>
    obtain ⟨x, hx, hfinish⟩ := bind_ok.1 h
    obtain ⟨hirrefutable, hcovered⟩ := finishAnalysis_ok hfinish
    rw [hirrefutable, hcovered]
    exact ⟨types, rfl, combinePatternChildren_coveredVariants hx,
      analyzed_of_zip (not_not.1 hlength) hx⟩
  | named name => simp [analyzeMatchPattern] at h
  | scalar text => simp [analyzeMatchPattern] at h

theorem analyze_struct_ok (h : checker.analyzeMatchPattern ty (.struct path fields) = .ok a) :
    ∃ name definition, ty = .named name ∧ checker.typeDef name = some (.struct definition) ∧
      structPathMatches path name = true ∧ (fields.map (·.1)).Nodup ∧
      (∀ field ∈ definition.fields, field.1 ∈ fields.map (·.1)) ∧ a.coveredVariants = [] ∧
      ∀ field ∈ fields, ∃ fieldTy, definition.fields.lookup field.1 = some fieldTy ∧
        Analyzed checker a.irrefutable field.2 fieldTy := by
  cases ty with
  | named name =>
    rw [analyzeMatchPattern] at h
    split at h
    next hpath =>
      split at h
      · cases h
      next definition hdef =>
      have hstruct : checker.typeDef name = some (.struct definition) := by
        rw [resolveNamedTypeFields] at hdef
        split at hdef
        · simp_all
        · cases hdef
      obtain ⟨children, hchildren, h⟩ := bind_ok.1 h
      dsimp only at h
      split at h
      · cases h
      next hmissing =>
      obtain ⟨x, hx, hfinish⟩ := bind_ok.1 h
      obtain ⟨hirrefutable, hcovered⟩ := finishAnalysis_ok hfinish
      obtain ⟨hfields, -, hnodup⟩ := analyzed_of_fields hchildren hx
      refine ⟨name, definition, rfl, hstruct, hpath, hnodup, ?_, ?_, ?_⟩
      · simpa [missingFields] using hmissing
      · rw [hcovered, combinePatternChildren_coveredVariants hx]
      · rw [hirrefutable]
        exact hfields
    next => cases h
  | tuple types => simp [analyzeMatchPattern] at h
  | scalar text => simp [analyzeMatchPattern] at h

theorem analyze_variant_ok {fields : List MatchPattern}
    (h : checker.analyzeMatchPattern ty (.variant path fields) = .ok a) :
    ∃ name variants variant irrefutable, ty = .named name ∧
      checker.typeDef name = some (.enum variants) ∧
      matchPatternVariant name path = some variant ∧ variant ∈ variants.map (·.1) ∧
      Forall₂ (Analyzed checker irrefutable) fields (payloadTypes variants variant) ∧
      (a.irrefutable = true → variants.length = 1 ∧ irrefutable = true) ∧
      ∀ covered ∈ a.coveredVariants, covered = variant ∧ irrefutable = true := by
  cases ty with
  | named name =>
    rw [analyzeMatchPattern] at h
    split at h
    · cases h
    next names hnames =>
    split at h
    · cases h
    next variant hvariant =>
    split at h
    · cases h
    next hmem =>
    obtain ⟨variants, hdef, rfl⟩ := resolveEnumVariants_some hnames
    have hdeclared : ((checker.resolveEnumVariantFields name).bind (· variant)).getD [] =
        payloadTypes variants variant := by
      simp [resolveEnumVariantFields, hdef, payloadTypes]
    rw [hdeclared] at h
    dsimp only at h
    split at h
    · cases h
    next hlength =>
    obtain ⟨x, hx, hfinish⟩ := bind_ok.1 h
    obtain ⟨hirrefutable, hcovered⟩ := finishAnalysis_ok hfinish
    refine ⟨name, variants, variant, x.irrefutable, rfl, hdef, hvariant, not_not.1 hmem,
      analyzed_of_zip (not_not.1 hlength) hx, ?_, ?_⟩
    · rw [hirrefutable]
      simp
    · rw [hcovered]
      intro covered
      split <;> simp_all
  | tuple types => simp [analyzeMatchPattern] at h
  | scalar text => simp [analyzeMatchPattern] at h

theorem analyze_or_ok (h : checker.analyzeMatchPattern ty (.or patterns) = .ok a) :
    ∃ as, Forall₂ (fun pattern a ↦ checker.analyzeMatchPattern ty pattern = .ok a) patterns as ∧
      a.coveredVariants = as.flatMap (·.coveredVariants) ∧
      a.irrefutable = ((as.any fun alternative ↦ alternative.irrefutable) ||
        checker.matchPatternMatrixIsExhaustive matchExhaustivenessBudget [ty]
          (patterns.map ([·]))) := by
  rw [analyzeMatchPattern] at h
  split at h
  · cases h
  obtain ⟨as, has, h⟩ := bind_ok.1 h
  split at h
  · cases h
  obtain ⟨hirrefutable, hcovered⟩ := finishAnalysis_ok h
  exact ⟨as, analyzed_of_each has, hcovered, hirrefutable⟩

end Inversion

/-! ### The matrix -/

open PatternMatrix (Covers Exhaustive)

/-- The patterns of a matrix: those that passed the analysis, and the wildcards that stand for the
fields of a value taken as a whole. -/
def Shaped (checker : TypeChecker) (pattern : MatchPattern) (ty : Ty) : Prop :=
  pattern = .wildcard ∨ Analyzed checker false pattern ty

theorem Analyzed.shaped (h : Analyzed checker irrefutable pattern ty) : Shaped checker pattern ty :=
  .inr (h.mono (by simp))

theorem Shaped.alternatives
    (h : Shaped checker (.or patterns) ty) : ∀ pattern ∈ patterns, Shaped checker pattern ty := by
  obtain h | ⟨a, ha, -⟩ := h
  · cases h
  obtain ⟨as, has, -, -⟩ := analyze_or_ok ha
  intro pattern hpattern
  obtain ⟨a', -, ha'⟩ := exists_of_forall₂ has hpattern
  exact .inr ⟨a', ha', by simp⟩

/-- How a value of a type splits at a constructor: typed fields, and for every pattern of the
constructor the patterns of the fields, which take no more than the pattern does. -/
structure Splits (checker : TypeChecker) (ty : Ty) (ctor : MatchConstructor) (v : Value)
    (ws : List Value) : Prop where
  typed : Forall₂ (HasType checker) ws (ctor.fields.map (·.2))
  specialized {pattern : MatchPattern} {fields : List MatchPattern} : Shaped checker pattern ty →
    specializeMatchPattern ty ctor pattern = some fields →
    Forall₂ (Shaped checker) fields (ctor.fields.map (·.2)) ∧
      (Forall₂ Accepts fields ws → Accepts pattern v)

theorem splits_tuple (hvs : Forall₂ (HasType checker) vs types) :
    Splits checker (.tuple types) ⟨"tuple", types.map (none, ·)⟩ (.tuple vs) vs := by
  have htypes : (types.map fun ty ↦ ((none : Option String), ty)).map (·.2) = types := by simp
  refine ⟨by rwa [htypes], fun {pattern fields} hshaped hspecialize ↦ ?_⟩
  rw [htypes]
  cases pattern with
  | tuple items =>
    obtain rfl : items = fields := by simpa [specializeMatchPattern] using hspecialize
    obtain h | ⟨a, ha, -⟩ := hshaped
    · cases h
    obtain ⟨types', htypes', -, hitems⟩ := analyze_tuple_ok ha
    cases htypes'
    exact ⟨hitems.imp fun _ _ h ↦ h.shaped, accepts_tuple.2⟩
  | _ => simp [specializeMatchPattern] at hspecialize

theorem splits_variant {variants : List (String × List Ty)}
    (hdef : checker.typeDef name = some (.enum variants))
    (hvs : Forall₂ (HasType checker) vs (payloadTypes variants variant)) :
    Splits checker (.named name) ⟨variant, (payloadTypes variants variant).map (none, ·)⟩
      (.variant name variant vs) vs := by
  have htypes : ((payloadTypes variants variant).map fun ty ↦ ((none : Option String), ty)).map
      (·.2) = payloadTypes variants variant := by simp
  refine ⟨by rwa [htypes], fun {pattern fields} hshaped hspecialize ↦ ?_⟩
  rw [htypes]
  obtain rfl | ⟨a, ha, -⟩ := hshaped
  · simp [specializeMatchPattern] at hspecialize
  cases pattern with
  | variant path items =>
    simp only [specializeMatchPattern, ite_none_right_eq_some, some.injEq] at hspecialize
    obtain ⟨hpath, rfl⟩ := hspecialize
    obtain ⟨name', variants', variant', irrefutable, hname, hdef', hpath', -, hitems, -⟩ :=
      analyze_variant_ok ha
    cases hname
    obtain rfl : variant' = variant := mem_unique hpath' hpath
    obtain rfl : variants' = variants := by simpa [hdef] using hdef'.symm
    exact ⟨hitems.imp fun _ _ h ↦ h.shaped, fun h ↦ accepts_variant.2 ⟨hpath, h⟩⟩
  | struct path items =>
    -- a record pattern has been checked against a record
    obtain ⟨name', definition, hname, hdef', -⟩ := analyze_struct_ok ha
    cases hname
    simp [hdef] at hdef'
  | _ => simp [specializeMatchPattern] at hspecialize

/-- The fields of a record in the order of the matrix. -/
def sortedFields (definition : StructDef) : List (String × Ty) :=
  definition.fields.insertionSort fun left right ↦ left.1 ≤ right.1

theorem mem_sortedFields {field : String × Ty} :
    field ∈ sortedFields definition ↔ field ∈ definition.fields :=
  mem_insertionSort _

theorem splits_struct (hdef : checker.typeDef name = some (.struct definition))
    (hvs : Forall₂ (HasType checker) vs (definition.fields.map (·.2))) :
    ∃ ws, Splits checker (.named name)
      ⟨name, (sortedFields definition).map fun field ↦ (some field.1, field.2)⟩
      (.struct name ((definition.fields.map (·.1)).zip vs)) ws := by
  have hvalue (field : String × Ty) (hfield : field ∈ definition.fields) :=
    lookup_zip definition.nodup hvs hfield
  let value (field : String × Ty) : Value :=
    (((definition.fields.map (·.1)).zip vs).lookup field.1).getD default
  have htypes : ((sortedFields definition).map fun field ↦ (some field.1, field.2)).map (·.2) =
      (sortedFields definition).map (·.2) := by simp
  refine ⟨(sortedFields definition).map value, ?_, fun {pattern fields} hshaped hspecialize ↦ ?_⟩
  · rw [htypes, forall₂_map_left_iff, forall₂_map_right_iff, forall₂_same]
    intro field hfield
    obtain ⟨v, hv, htyped⟩ := hvalue field (mem_sortedFields.1 hfield)
    simpa [value, hv] using htyped
  rw [htypes]
  obtain rfl | ⟨a, ha, -⟩ := hshaped
  · simp [specializeMatchPattern] at hspecialize
  cases pattern with
  | struct path items =>
    obtain ⟨name', definition', hname, hdef', hpath, hnodup, -, -, hitems⟩ :=
      analyze_struct_ok ha
    cases hname
    obtain rfl : definition' = definition := by simpa [hdef] using hdef'.symm
    simp only [specializeMatchPattern, ite_none_right_eq_some] at hspecialize
    have hfields := forall₂_map_left_iff.1 (forall₂_of_mapM hspecialize.2)
    have hreverse : (items.reverse.map (·.1)).Nodup := by simpa using hnodup
    refine ⟨?_, fun haccepts ↦ accepts_struct.2 ⟨hpath, ?_⟩⟩
    · -- a field's pattern was analysed at the declared type of the field
      refine forall₂_map_right_iff.2 (List.Forall₂.flip ?_)
      refine ((forall₂_and_left _ _).2 ⟨fun _ ↦ mem_sortedFields.1, hfields⟩).imp ?_
      rintro field pattern ⟨hfield, hpattern⟩
      obtain ⟨fieldTy, hfieldTy, hanalyzed⟩ := hitems _ (mem_reverse.1 (mem_of_lookup hpattern))
      obtain rfl : field.2 = fieldTy :=
        mem_unique (lookup_of_mem definition'.nodup hfield) hfieldTy
      exact hanalyzed.shaped
    · intro item hitem
      obtain ⟨fieldTy, hfieldTy, -⟩ := hitems item hitem
      have hfield := mem_of_lookup hfieldTy
      have hboth := List.Forall₂.mp (fun _ _ ↦ And.intro) hfields
        (forall₂_map_right_iff.1 haccepts).flip
      obtain ⟨pattern, -, hpattern, hv⟩ :=
        exists_of_forall₂ hboth (mem_sortedFields.2 hfield)
      obtain rfl : item.2 = pattern := some.inj
        ((lookup_of_mem hreverse (mem_reverse.2 hitem)).symm.trans hpattern)
      obtain ⟨v, hlookup, -⟩ := hvalue _ hfield
      have hvalue : value (item.1, fieldTy) = v := by simp [value, hlookup]
      refine ⟨v, hlookup, ?_⟩
      rw [← hvalue]
      exact hv
  | variant path items =>
    -- a variant pattern has been checked against an enum
    obtain ⟨name', variants, -, -, hname, hdef', -⟩ := analyze_variant_ok ha
    cases hname
    simp [hdef] at hdef'
  | _ => simp [specializeMatchPattern] at hspecialize

/-- **Splitting.** A value of a type with constructors splits at one of them. -/
theorem exists_splits {ctors : List MatchConstructor}
    (hctors : checker.matchConstructorsForType ty = some ctors) (hv : HasType checker v ty) :
    ∃ ctor ∈ ctors, ∃ ws, Splits checker ty ctor v ws := by
  cases hv with
  | scalar n text => simp [matchConstructorsForType] at hctors
  | undeclared n hdef =>
    simp [matchConstructorsForType, resolveEnumVariants, resolveNamedTypeFields, hdef] at hctors
  | tuple hvs =>
    obtain rfl := some.inj hctors
    exact ⟨_, mem_singleton_self _, _, splits_tuple hvs⟩
  | struct hdef hvs =>
    simp only [matchConstructorsForType, resolveEnumVariants,
      resolveNamedTypeFields, hdef, map_some, some.injEq] at hctors
    obtain rfl := hctors
    obtain ⟨ws, hws⟩ := splits_struct hdef hvs
    exact ⟨_, mem_singleton_self _, ws, hws⟩
  | variant hdef hvariant hvs =>
    simp only [matchConstructorsForType, resolveEnumVariants,
      resolveEnumVariantFields, hdef, some.injEq] at hctors
    obtain rfl := hctors
    exact ⟨_, mem_map_of_mem hvariant, _, splits_variant hdef hvs⟩

section Rows

variable {row row' tail : List MatchPattern}

theorem shaped_expandRow
    (hrow : Forall₂ (Shaped checker) row (ty :: types)) (h : row' ∈ expandRow row) :
    Forall₂ (Shaped checker) row' (ty :: types) := by
  obtain ⟨head, tail, hhead, htail, rfl⟩ := forall₂_cons_right_iff.1 hrow
  cases head with
  | or alternatives =>
    obtain ⟨alternative, halternative, rfl⟩ := mem_map.1 h
    exact .cons (hhead.alternatives alternative halternative) htail
  | _ =>
    obtain rfl := mem_singleton.1 h
    exact hrow

/-- An expanded row takes no more than the row it comes from. -/
theorem accepts_of_expandRow (h : row' ∈ expandRow row) (haccepts : Forall₂ Accepts row' vs) :
    Forall₂ Accepts row vs := by
  cases row with
  | nil => cases h
  | cons head tail =>
    cases head with
    | or alternatives =>
      obtain ⟨alternative, halternative, rfl⟩ := mem_map.1 h
      obtain ⟨v, vs, hv, hvs, rfl⟩ := forall₂_cons_left_iff.1 haccepts
      exact .cons (accepts_or.2 ⟨alternative, halternative, hv⟩) hvs
    | _ =>
      obtain rfl := mem_singleton.1 h
      exact haccepts

theorem defaultRow_some (h : defaultRow row = some tail) :
    ∃ head, row = head :: tail ∧ ∀ v, Accepts head v := by
  unfold defaultRow at h
  split at h
  · obtain rfl := some.inj h
    exact ⟨_, rfl, accepts_wildcard⟩
  · obtain rfl := some.inj h
    exact ⟨_, rfl, accepts_binding _⟩
  · cases h

/-- What a specialised row is made of. -/
theorem specializeRow_some {ctor : MatchConstructor} (hsplits : Splits checker ty ctor v ws)
    (hrow : Forall₂ (Shaped checker) row (ty :: types))
    (h : specializeRow ty ctor row = some row') :
    ∃ head fields tail, row = head :: tail ∧ row' = fields ++ tail ∧
      Forall₂ (Shaped checker) fields (ctor.fields.map (·.2)) ∧
      Forall₂ (Shaped checker) tail types ∧
      (Forall₂ Accepts fields ws → Accepts head v) := by
  obtain ⟨head, tail, hhead, htail, rfl⟩ := forall₂_cons_right_iff.1 hrow
  have hwild : Forall₂ (Shaped checker) (replicate ctor.fields.length .wildcard)
      (ctor.fields.map (·.2)) := by
    rw [← map_const', forall₂_map_left_iff, forall₂_map_right_iff, forall₂_same]
    exact fun _ _ ↦ .inl rfl
  cases head with
  | wildcard =>
    obtain rfl := some.inj h
    exact ⟨_, _, tail, rfl, rfl, hwild, htail, fun _ ↦ accepts_wildcard v⟩
  | binding name =>
    obtain rfl := some.inj h
    exact ⟨_, _, tail, rfl, rfl, hwild, htail, fun _ ↦ accepts_binding name v⟩
  | _ =>
    simp only [specializeRow, map_eq_some_iff] at h
    obtain ⟨fields, hfields, rfl⟩ := h
    obtain ⟨hshaped, haccepts⟩ := hsplits.specialized hhead hfields
    exact ⟨_, fields, tail, rfl, rfl, hshaped, htail, haccepts⟩

end Rows

/-- **The matrix is sound.** -/
theorem exhaustive_of_matrix {budget : ℕ} {rows : List (List MatchPattern)}
    (h : checker.matchPatternMatrixIsExhaustive budget types rows = true)
    (hrows : ∀ row ∈ rows, Forall₂ (Shaped checker) row types) :
    Exhaustive (HasType checker) Accepts types rows := by
  induction budget generalizing types rows with
  | zero => simp [matchPatternMatrixIsExhaustive] at h
  | succ budget ih =>
    cases types with
    | nil =>
      cases rows with
      | nil => simp [matchPatternMatrixIsExhaustive] at h
      | cons row rows =>
        obtain rfl := forall₂_nil_right_iff.1 (hrows row mem_cons_self)
        exact PatternMatrix.exhaustive_nil mem_cons_self
    | cons ty types =>
      have hexpanded (row : List MatchPattern) (hrow : row ∈ rows.flatMap expandRow) :
          Forall₂ (Shaped checker) row (ty :: types) := by
        obtain ⟨row₀, hrow₀, hmem⟩ := mem_flatMap.1 hrow
        exact shaped_expandRow (hrows row₀ hrow₀) hmem
      have hexhaustive : Exhaustive (HasType checker) Accepts (ty :: types)
          (rows.flatMap expandRow) := by
        rw [matchPatternMatrixIsExhaustive] at h
        split at h
        next =>
          -- an opaque column keeps the rows that take everything there
          refine (ih h fun tail htail ↦ ?_).of_tail fun tail htail ↦ ?_
          · obtain ⟨row, hrow, hdefault⟩ := mem_filterMap.1 htail
            obtain ⟨head, rfl, -⟩ := defaultRow_some hdefault
            exact (forall₂_cons.1 (hexpanded _ hrow)).2
          · obtain ⟨row, hrow, hdefault⟩ := mem_filterMap.1 htail
            obtain ⟨head, rfl, haccepts⟩ := defaultRow_some hdefault
            exact ⟨head, hrow, haccepts⟩
        next ctors hctors =>
          refine PatternMatrix.exhaustive_cons fun v hv ↦ ?_
          obtain ⟨ctor, hctor, ws, hsplits⟩ := exists_splits hctors hv
          refine ⟨_, ws, _, hsplits.typed, ih (all_eq_true.1 h ctor hctor) ?_, ?_⟩
          · intro row' hrow'
            obtain ⟨row, hrow, hspecialize⟩ := mem_filterMap.1 hrow'
            obtain ⟨head, fields, tail, rfl, rfl, hfields, htail, -⟩ :=
              specializeRow_some hsplits (hexpanded row hrow) hspecialize
            exact rel_append hfields htail
          · intro row' hrow'
            obtain ⟨row, hrow, hspecialize⟩ := mem_filterMap.1 hrow'
            obtain ⟨head, fields, tail, rfl, rfl, hfields, -, haccepts⟩ :=
              specializeRow_some hsplits (hexpanded row hrow) hspecialize
            exact ⟨head, fields, tail, rfl, hfields.length_eq.trans hsplits.typed.length_eq.symm,
              hrow, haccepts⟩
      refine hexhaustive.of_rows fun row' hrow' vs haccepts ↦ ?_
      obtain ⟨row, hrow, hmem⟩ := mem_flatMap.1 hrow'
      exact ⟨row, hrow, accepts_of_expandRow hmem haccepts⟩

/-! ### The analysis -/

/-- Induction on patterns, with the hypothesis for every child. -/
theorem MatchPattern.induction {motive : MatchPattern → Prop} (wildcard : motive .wildcard)
    (binding : ∀ name, motive (.binding name))
    (tuple : ∀ items, (∀ p ∈ items, motive p) → motive (.tuple items))
    (struct : ∀ path fields, (∀ field ∈ fields, motive field.2) → motive (.struct path fields))
    (variant : ∀ path fields, (∀ p ∈ fields, motive p) → motive (.variant path fields))
    (or : ∀ patterns, (∀ p ∈ patterns, motive p) → motive (.or patterns)) (p : MatchPattern) :
    motive p :=
  @MatchPattern.rec motive (fun ps ↦ ∀ p ∈ ps, motive p)
    (fun fields ↦ ∀ field ∈ fields, motive field.2) (fun field ↦ motive field.2) wildcard binding
    tuple struct variant or (by simp) (fun _ _ hp hps ↦ forall_mem_cons.2 ⟨hp, hps⟩) (by simp)
    (fun _ _ hf hfs ↦ forall_mem_cons.2 ⟨hf, hfs⟩) (fun _ _ h ↦ h) p

/-- What the analysis of a pattern promises. -/
structure Sound (checker : TypeChecker) (ty : Ty) (pattern : MatchPattern)
    (a : MatchPatternAnalysis) : Prop where
  irrefutable : a.irrefutable = true → ∀ v, HasType checker v ty → Accepts pattern v
  covered : ∀ variant ∈ a.coveredVariants, ∀ name vs,
    HasType checker (.variant name variant vs) ty → Accepts pattern (.variant name variant vs)
  declared : ∀ variant ∈ a.coveredVariants, ∃ name variants, ty = .named name ∧
    checker.typeDef name = some (.enum variants) ∧ variant ∈ variants.map (·.1)

/-- Irrefutable patterns take values column by column. -/
theorem accepts_of_analyzed
    (ih : ∀ p ∈ patterns, ∀ ty a, checker.analyzeMatchPattern ty p = .ok a → Sound checker ty p a)
    (h : Forall₂ (Analyzed checker true) patterns types)
    (hvs : Forall₂ (HasType checker) vs types) : Forall₂ Accepts patterns vs := by
  induction h generalizing vs with
  | nil =>
    obtain rfl := forall₂_nil_right_iff.1 hvs
    exact .nil
  | cons hp _ ihtail =>
    obtain ⟨v, vs, hv, hrest, rfl⟩ := forall₂_cons_right_iff.1 hvs
    obtain ⟨a, ha, hirrefutable⟩ := hp
    rw [forall_mem_cons] at ih
    exact .cons ((ih.1 _ _ ha).irrefutable (hirrefutable rfl) v hv) (ihtail ih.2 hrest)

theorem sound_tuple (ih : ∀ p ∈ items, ∀ ty a, checker.analyzeMatchPattern ty p = .ok a →
    Sound checker ty p a) (h : checker.analyzeMatchPattern ty (.tuple items) = .ok a) :
    Sound checker ty (.tuple items) a := by
  obtain ⟨types, rfl, hcovered, hitems⟩ := analyze_tuple_ok h
  refine ⟨fun hirrefutable v hv ↦ ?_, by simp [hcovered], by simp [hcovered]⟩
  rw [hirrefutable] at hitems
  cases hv with
  | tuple hvs => exact accepts_tuple.2 (accepts_of_analyzed ih hitems hvs)

theorem sound_struct
    (ih : ∀ field ∈ fields, ∀ ty a, checker.analyzeMatchPattern ty field.2 = .ok a →
      Sound checker ty field.2 a)
    (h : checker.analyzeMatchPattern ty (.struct path fields) = .ok a) :
    Sound checker ty (.struct path fields) a := by
  obtain ⟨name, definition, rfl, hdef, hpath, -, -, hcovered, hfields⟩ := analyze_struct_ok h
  refine ⟨fun hirrefutable v hv ↦ ?_, by simp [hcovered], by simp [hcovered]⟩
  cases hv with
  | undeclared n hdef' => simp [hdef] at hdef'
  | variant hdef' => simp [hdef] at hdef'
  | struct hdef' hvs =>
    obtain rfl : definition = _ := by simpa [hdef] using hdef'
    refine accepts_struct.2 ⟨hpath, fun field hfield ↦ ?_⟩
    obtain ⟨fieldTy, hfieldTy, b, hb, hchild⟩ := hfields field hfield
    obtain ⟨v, hlookup, hv⟩ := lookup_zip definition.nodup hvs (mem_of_lookup hfieldTy)
    exact ⟨v, hlookup, (ih field hfield fieldTy b hb).irrefutable (hchild hirrefutable) v hv⟩

theorem sound_variant {fields : List MatchPattern}
    (ih : ∀ p ∈ fields, ∀ ty a, checker.analyzeMatchPattern ty p = .ok a → Sound checker ty p a)
    (h : checker.analyzeMatchPattern ty (.variant path fields) = .ok a) :
    Sound checker ty (.variant path fields) a := by
  obtain ⟨name, variants, variant, irrefutable, rfl, hdef, hpath, hvariant, hfields, hone,
    hcovered⟩ := analyze_variant_ok h
  -- a value of the variant is taken when the payload patterns are irrefutable
  have haccepts (hirrefutable : irrefutable = true) (name' : String) (vs : List Value)
      (hv : HasType checker (.variant name' variant vs) (.named name)) :
      Accepts (.variant path fields) (.variant name' variant vs) := by
    cases hv with
    | variant hdef' _ hvs =>
      obtain rfl : variants = _ := by simpa [hdef] using hdef'
      rw [hirrefutable] at hfields
      exact accepts_variant.2 ⟨hpath, accepts_of_analyzed ih hfields hvs⟩
  refine ⟨fun hirrefutable v hv ↦ ?_, fun covered hmem name' vs hv ↦ ?_, fun covered hmem ↦ ?_⟩
  · obtain ⟨hlength, hchild⟩ := hone hirrefutable
    cases hv with
    | undeclared n hdef' => simp [hdef] at hdef'
    | struct hdef' => simp [hdef] at hdef'
    | @variant _ variant' _ _ hdef' hvariant' hvs =>
      obtain rfl : variants = _ := by simpa [hdef] using hdef'
      obtain ⟨only, rfl⟩ := length_eq_one_iff.1 hlength
      obtain rfl : variant' = variant := by simp_all
      exact haccepts hchild _ _ (.variant hdef hvariant hvs)
  · obtain ⟨rfl, hchild⟩ := hcovered covered hmem
    exact haccepts hchild name' vs hv
  · obtain ⟨rfl, -⟩ := hcovered covered hmem
    exact ⟨name, variants, rfl, hdef, hvariant⟩

theorem sound_or
    (ih : ∀ p ∈ patterns, ∀ ty a, checker.analyzeMatchPattern ty p = .ok a → Sound checker ty p a)
    (h : checker.analyzeMatchPattern ty (.or patterns) = .ok a) :
    Sound checker ty (.or patterns) a := by
  obtain ⟨as, has, hcovered, hirrefutable⟩ := analyze_or_ok h
  have hsound {a' : MatchPatternAnalysis} (ha' : a' ∈ as) :
      ∃ p ∈ patterns, Sound checker ty p a' := by
    obtain ⟨p, hp, hpa⟩ := exists_of_forall₂ has.flip ha'
    exact ⟨p, hp, ih p hp ty a' hpa⟩
  refine ⟨fun h v hv ↦ ?_, fun variant hvariant name vs hv ↦ ?_, fun variant hvariant ↦ ?_⟩
  · rw [hirrefutable, Bool.or_eq_true] at h
    obtain h | h := h
    · obtain ⟨a', ha', h⟩ := any_eq_true.1 h
      obtain ⟨p, hp, hsound⟩ := hsound ha'
      exact accepts_or.2 ⟨p, hp, hsound.irrefutable h v hv⟩
    · have hrows (row : List MatchPattern) (hrow : row ∈ patterns.map ([·])) :
          Forall₂ (Shaped checker) row [ty] := by
        obtain ⟨p, hp, rfl⟩ := mem_map.1 hrow
        obtain ⟨a', -, ha'⟩ := exists_of_forall₂ has hp
        exact .cons (.inr ⟨a', ha', by simp⟩) .nil
      obtain ⟨row, hrow, haccepts⟩ := exhaustive_of_matrix h hrows [v] (.cons hv .nil)
      obtain ⟨p, hp, rfl⟩ := mem_map.1 hrow
      exact accepts_or.2 ⟨p, hp, (forall₂_cons.1 haccepts).1⟩
  · rw [hcovered, mem_flatMap] at hvariant
    obtain ⟨a', ha', hvariant⟩ := hvariant
    obtain ⟨p, hp, hsound⟩ := hsound ha'
    exact accepts_or.2 ⟨p, hp, hsound.covered variant hvariant name vs hv⟩
  · rw [hcovered, mem_flatMap] at hvariant
    obtain ⟨a', ha', hvariant⟩ := hvariant
    obtain ⟨p, -, hsound⟩ := hsound ha'
    exact hsound.declared variant hvariant

/-- **The analysis is sound.** An irrefutable pattern takes every value of its type, and a covered
variant is taken with every payload. -/
theorem analyzeMatchPattern_sound (pattern : MatchPattern) :
    ∀ ty a, checker.analyzeMatchPattern ty pattern = .ok a → Sound checker ty pattern a := by
  induction pattern using MatchPattern.induction with
  | wildcard =>
    intro ty a h
    rw [analyzeMatchPattern] at h
    split at h
    · cases h
    · obtain ⟨-, hcovered⟩ := finishAnalysis_ok h
      exact ⟨fun _ v _ ↦ accepts_wildcard v, by simp [hcovered], by simp [hcovered]⟩
  | binding name =>
    intro ty a h
    obtain ⟨-, hcovered⟩ := finishAnalysis_ok h
    exact ⟨fun _ v _ ↦ accepts_binding name v, by simp [hcovered], by simp [hcovered]⟩
  | tuple items ih => exact fun ty a ↦ sound_tuple ih
  | struct path fields ih => exact fun ty a ↦ sound_struct ih
  | variant path fields ih => exact fun ty a ↦ sound_variant ih
  | or patterns ih => exact fun ty a ↦ sound_or ih

/-! ### All arms -/

section Arms

variable {s s' : ArmsState} {arms : List MatchPattern}

theorem insertCovered_ok {seen seen' variants : List String}
    (h : insertCovered seen variants = .ok seen') (hnodup : seen.Nodup) :
    seen'.Nodup ∧ ∀ variant, variant ∈ seen' ↔ variant ∈ seen ∨ variant ∈ variants := by
  induction variants generalizing seen with
  | nil =>
    obtain rfl := ok.inj h
    exact ⟨hnodup, by simp⟩
  | cons variant variants ih =>
    rw [insertCovered] at h
    split at h
    · cases h
    next hfresh =>
    obtain ⟨hnodup', hmem⟩ := ih h (nodup_cons.2 ⟨hfresh, hnodup⟩)
    exact ⟨hnodup', fun v ↦ by rw [hmem, mem_cons, mem_cons]; tauto⟩

theorem checkArm_ok {arm : MatchPattern} (h : checker.checkArm ty s arm = .ok s')
    (hnodup : s.seen.Nodup) :
    ∃ a, checker.analyzeMatchPattern ty arm = .ok a ∧ s'.hasCatchAll = a.irrefutable ∧
      s'.seen.Nodup ∧
      ∀ variant, variant ∈ s'.seen ↔ variant ∈ s.seen ∨ variant ∈ a.coveredVariants := by
  rw [checkArm] at h
  split at h
  · cases h
  simp only [bind_ok, pure_ok] at h
  obtain ⟨a, ha, seen, hseen, rfl⟩ := h
  obtain ⟨hnodup', hmem⟩ := insertCovered_ok hseen hnodup
  exact ⟨a, ha, rfl, hnodup', hmem⟩

/-- What the arms have been checked for, one after another. -/
structure ArmsChecked (checker : TypeChecker) (ty : Ty) (s s' : ArmsState)
    (arms : List MatchPattern) : Prop where
  analyzed : ∀ arm ∈ arms, ∃ a, checker.analyzeMatchPattern ty arm = .ok a
  nodup : s'.seen.Nodup
  catchAll : s'.hasCatchAll = true → arms = [] ∧ s.hasCatchAll = true ∨
    ∃ arm ∈ arms, ∃ a, checker.analyzeMatchPattern ty arm = .ok a ∧ a.irrefutable = true
  seen : ∀ variant ∈ s'.seen, variant ∈ s.seen ∨
    ∃ arm ∈ arms, ∃ a, checker.analyzeMatchPattern ty arm = .ok a ∧ variant ∈ a.coveredVariants

theorem armsChecked_of_ok (h : checker.checkArms ty s arms = .ok s') (hnodup : s.seen.Nodup) :
    ArmsChecked checker ty s s' arms := by
  induction arms generalizing s with
  | nil =>
    obtain rfl := ok.inj h
    exact ⟨by simp, hnodup, fun hcatch ↦ .inl ⟨rfl, hcatch⟩, fun _ ↦ .inl⟩
  | cons arm arms ih =>
    obtain ⟨s₁, harm, harms⟩ := bind_ok.1 h
    obtain ⟨a, ha, hcatch, hnodup₁, hseen⟩ := checkArm_ok harm hnodup
    have hrest := ih harms hnodup₁
    refine ⟨forall_mem_cons.2 ⟨⟨a, ha⟩, hrest.analyzed⟩, hrest.nodup, fun hcatch' ↦ .inr ?_,
      fun variant hvariant ↦ ?_⟩
    · obtain ⟨-, hs₁⟩ | ⟨arm', harm', hirrefutable⟩ := hrest.catchAll hcatch'
      · exact ⟨arm, mem_cons_self, a, ha, hcatch ▸ hs₁⟩
      · exact ⟨arm', mem_cons_of_mem _ harm', hirrefutable⟩
    · obtain hmem | ⟨arm', harm', hcovered⟩ := hrest.seen variant hvariant
      · obtain hmem | hmem := (hseen variant).1 hmem
        · exact .inl hmem
        · exact .inr ⟨arm, mem_cons_self, a, ha, hmem⟩
      · exact .inr ⟨arm', mem_cons_of_mem _ harm', hcovered⟩

theorem enumShape_some (h : checker.enumShape ty = some (name, names)) :
    ∃ variants, ty = .named name ∧ checker.typeDef name = some (.enum variants) ∧
      variants.map (·.1) = names := by
  cases ty with
  | named name' =>
    obtain ⟨names', hnames, heq⟩ := map_eq_some_iff.1 h
    cases heq
    obtain ⟨variants, hdef, hmap⟩ := resolveEnumVariants_some hnames
    exact ⟨variants, rfl, hdef, hmap⟩
  | tuple types => cases h
  | scalar text => cases h

/-- The three ways a match is accepted. -/
theorem checkMatchPatterns_ok {payloads : List (List (String × Ty))}
    (h : checker.checkMatchPatterns ty arms = .ok payloads) :
    ∃ s, ArmsChecked checker ty {} s arms ∧
      (s.hasCatchAll = true ∨
        checker.matchPatternMatrixIsExhaustive matchExhaustivenessBudget [ty]
          (arms.map ([·])) = true ∨
        ∃ name variants, ty = .named name ∧ checker.typeDef name = some (.enum variants) ∧
          s.seen.length = (variants.map (·.1)).length) := by
  obtain ⟨s, hs, h⟩ := bind_ok.1 h
  refine ⟨s, armsChecked_of_ok hs nodup_nil, ?_⟩
  dsimp only at h
  split at h
  next hmatrix =>
    split at h
    next name variants hshape =>
      split at h
      · cases h
      next hlength =>
      obtain ⟨variants', rfl, hdef, rfl⟩ := enumShape_some hshape
      exact .inr (.inr ⟨name, variants', rfl, hdef, not_not.1 hlength⟩)
    next => cases h
  next hmatrix =>
    simp only [not_eq_true', Bool.not_eq_false] at hmatrix
    obtain hcatch | hmatrix := Bool.or_eq_true_iff.1 hmatrix
    · exact .inl hcatch
    · exact .inr (.inl hmatrix)

/-- **Accepted matches are exhaustive.** Every value of the scrutinee's type is taken by an arm. -/
theorem exists_arm_accepts {payloads : List (List (String × Ty))}
    (h : checker.checkMatchPatterns ty arms = .ok payloads) {v : Value}
    (hv : HasType checker v ty) : ∃ arm ∈ arms, arm.accepts v = true := by
  obtain ⟨s, hchecked, hcatch | hmatrix | ⟨name, variants, rfl, hdef, hlength⟩⟩ :=
    checkMatchPatterns_ok h
  · obtain ⟨-, hfalse⟩ | ⟨arm, harm, a, ha, hirrefutable⟩ := hchecked.catchAll hcatch
    · cases hfalse
    · exact ⟨arm, harm, (analyzeMatchPattern_sound arm ty a ha).irrefutable hirrefutable v hv⟩
  · have hrows (row : List MatchPattern) (hrow : row ∈ arms.map ([·])) :
        Forall₂ (Shaped checker) row [ty] := by
      obtain ⟨arm, harm, rfl⟩ := mem_map.1 hrow
      obtain ⟨a, ha⟩ := hchecked.analyzed arm harm
      exact .cons (.inr ⟨a, ha, by simp⟩) .nil
    obtain ⟨row, hrow, haccepts⟩ := exhaustive_of_matrix hmatrix hrows [v] (.cons hv .nil)
    obtain ⟨arm, harm, rfl⟩ := mem_map.1 hrow
    exact ⟨arm, harm, (forall₂_cons.1 haccepts).1⟩
  · have hcovers {variant : String} (hvariant : variant ∈ s.seen) : ∃ arm ∈ arms, ∃ a,
        checker.analyzeMatchPattern (.named name) arm = .ok a ∧ variant ∈ a.coveredVariants := by
      obtain hempty | hcovers := hchecked.seen variant hvariant
      · cases hempty
      · exact hcovers
    have hsub : s.seen ⊆ variants.map (·.1) := by
      intro variant hvariant
      obtain ⟨arm, -, a, ha, hcovered⟩ := hcovers hvariant
      obtain ⟨name', variants', hname, hdef', hdeclared⟩ :=
        (analyzeMatchPattern_sound arm _ a ha).declared variant hcovered
      cases hname
      obtain rfl : variants = variants' := by simpa [hdef] using hdef'
      exact hdeclared
    cases hv with
    | undeclared n hdef' => simp [hdef] at hdef'
    | struct hdef' => simp [hdef] at hdef'
    | variant hdef' hvariant hvs =>
      obtain rfl : variants = _ := by simpa [hdef] using hdef'
      -- as many distinct variants are covered as there are variants, so all are covered
      have hperm := (subperm_of_subset hchecked.nodup hsub).perm_of_length_le hlength.ge
      obtain ⟨arm, harm, a, ha, hcovered⟩ := hcovers (hperm.mem_iff.2 hvariant)
      exact ⟨arm, harm, (analyzeMatchPattern_sound arm _ a ha).covered _ hcovered _ _
        (.variant hdef hvariant hvs)⟩

end Arms

/-- The fields of a record with an enum in it. -/
def pixelDef : StructDef := ⟨[("tint", .named "Color"), ("depth", .scalar "u8")], by decide⟩

def sampleChecker : TypeChecker where
  typeDef name :=
    if name = "Color" then some (.enum [("Red", []), ("Mixed", [.scalar "u8", .tuple []])])
    else if name = "Pixel" then some (.struct pixelDef)
    else none
  isLinearType _ := false

/-- The second arm reads the record's fields in another order than they are declared in. -/
def sampleArms : List MatchPattern :=
  [.struct "Pixel" [("tint", .variant "Color::Red" []), ("depth", .wildcard)],
    .struct "Pixel" [("depth", .binding "depth"),
      ("tint", .variant "Mixed" [.wildcard, .tuple []])]]

def sampleColor : Value := .variant "Color" "Mixed" [.scalar 3, .tuple []]

def samplePixel : Value :=
  .struct "Pixel" ((pixelDef.fields.map (·.1)).zip [sampleColor, .scalar 7])

theorem exists_arm_accepts_samplePixel :
    (sampleChecker.checkMatchPatterns (.named "Pixel") sampleArms).isOk = true ∧
    HasType sampleChecker samplePixel (.named "Pixel") ∧
    ∃ arm ∈ sampleArms, arm.accepts samplePixel = true := by
  have hok : (sampleChecker.checkMatchPatterns (.named "Pixel") sampleArms).isOk = true := by
    decide +kernel
  have hcolor : HasType sampleChecker sampleColor (.named "Color") :=
    .variant rfl (by decide) (.cons (.scalar 3 "u8") (.cons (.tuple .nil) .nil))
  have hpixel : HasType sampleChecker samplePixel (.named "Pixel") :=
    .struct rfl (.cons hcolor (.cons (.scalar 7 "u8") .nil))
  refine ⟨hok, hpixel, ?_⟩
  cases h : sampleChecker.checkMatchPatterns (.named "Pixel") sampleArms with
  | error e => simp [h, Except.isOk, Except.toBool] at hok
  | ok payloads => exact exists_arm_accepts h hpixel

end CellScript.Types
