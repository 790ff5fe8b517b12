import CellScript.Names
import CellScript.CompileError

/-!
# Match patterns in the type checker

`check_match_patterns` of `types/mod.rs` and what it calls: the analysis of a single pattern, which
collects bindings and decides irrefutability, and the pattern matrix, which decides exhaustiveness.

The matrix is recursive in the number of columns and in the depth of the types, so the source bounds
it by a budget. A budget that runs out counts as not exhaustive.

The checker answers three questions about a type name from its own tables and the resolver: the
variants of an enum, their payloads, and the fields of a record. A name has one declaration (a
second one is a duplicate symbol), so here one table of declarations answers all three. Which types
are linear is a parameter.
-/

namespace CellScript.Types

/-! ### Types and patterns -/

/-- A type, as far as patterns look into it. Every other type is opaque to them, with its source
text. -/
inductive Ty
  | tuple (items : List Ty)
  | named (name : String)
  | scalar (sourceText : String)
  deriving Repr, Inhabited

mutual

def Ty.sourceText : Ty → String
  | .tuple items => "(" ++ ", ".intercalate (sourceTexts items) ++ ")"
  | .named name => name
  | .scalar sourceText => sourceText

def sourceTexts : List Ty → List String
  | [] => []
  | ty :: tys => ty.sourceText :: sourceTexts tys

end

inductive MatchPattern
  | wildcard
  | binding (name : String)
  | tuple (items : List MatchPattern)
  | struct (path : String) (fields : List (String × MatchPattern))
  | variant (path : String) (fields : List MatchPattern)
  | or (patterns : List MatchPattern)
  deriving Repr, Inhabited

mutual

def MatchPattern.display : MatchPattern → String
  | .wildcard => "_"
  | .binding name => name
  | .tuple items => "(" ++ ", ".intercalate (displays items) ++ ")"
  | .struct path fields => path ++ " \x7b " ++ ", ".intercalate (displayFields fields) ++ " \x7d"
  | .variant path fields =>
    if fields.isEmpty then path else path ++ "(" ++ ", ".intercalate (displays fields) ++ ")"
  | .or patterns => " | ".intercalate (displays patterns)

def displays : List MatchPattern → List String
  | [] => []
  | pattern :: patterns => pattern.display :: displays patterns

/-- A field bound to its own name is written once. -/
def displayFields : List (String × MatchPattern) → List String
  | [] => []
  | (name, .binding bound) :: fields =>
    (if bound = name then name else name ++ ": " ++ bound) :: displayFields fields
  | (name, pattern) :: fields => (name ++ ": " ++ pattern.display) :: displayFields fields

end

/-! ### Declarations -/

/-- The fields of a record; their names are distinct. -/
structure StructDef where
  fields : List (String × Ty)
  nodup : (fields.map (·.1)).Nodup

inductive TypeDef
  | enum (variants : List (String × List Ty))
  | struct (definition : StructDef)

structure TypeChecker where
  typeDef : String → Option TypeDef
  isLinearType : Ty → Bool

namespace TypeChecker

variable (checker : TypeChecker)

def resolveEnumVariants (enumName : String) : Option (List String) :=
  match checker.typeDef enumName with
  | some (.enum variants) => some (variants.map (·.1))
  | _ => none

/-- The payload types, by variant. -/
def resolveEnumVariantFields (enumName : String) : Option (String → Option (List Ty)) :=
  match checker.typeDef enumName with
  | some (.enum variants) => some fun variant ↦ variants.reverse.lookup variant
  | _ => none

def resolveNamedTypeFields (typeName : String) : Option StructDef :=
  match checker.typeDef typeName with
  | some (.struct definition) => some definition
  | _ => none

end TypeChecker

/-! ### Paths -/

/-- Split at the last `::`. -/
def rsplitOnceChars : List Char → Option (List Char × List Char)
  | [] => none
  | c :: cs =>
    match rsplitOnceChars cs with
    | some (before, after) => some (c :: before, after)
    | none =>
      match c, cs with
      | ':', ':' :: after => some ([], after)
      | _, _ => none

def rsplitOnce (path : String) : Option (String × String) :=
  (rsplitOnceChars path.toList).map fun (before, after) ↦
    (String.ofList before, String.ofList after)

/-- The variant a path names, for an enum. -/
def matchPatternVariant (enumName pattern : String) : Option String :=
  match rsplitOnce pattern with
  | some (qualifier, variant) =>
    let qualifierTerminal := ((rsplitOnce qualifier).map (·.2)).getD qualifier
    if qualifier = enumName ∨ qualifierTerminal = enumName then some variant else none
  | none => some pattern

/-- Whether a struct pattern's path names the type. -/
def structPathMatches (path typeName : String) : Bool :=
  decide (path = typeName) || decide ((rsplitOnce path).map (·.2) = some typeName)

/-! ### The pattern matrix -/

structure MatchConstructor where
  name : String
  fields : List (Option String × Ty)

/-- The rows an or-pattern in the first column stands for. -/
def expandRow : List MatchPattern → List (List MatchPattern)
  | [] => []
  | .or alternatives :: tail => alternatives.map (· :: tail)
  | row => [row]

/-- The rest of a row whose first pattern takes every value. -/
def defaultRow : List MatchPattern → Option (List MatchPattern)
  | .wildcard :: tail => some tail
  | .binding _ :: tail => some tail
  | _ => none

def matchExhaustivenessBudget : ℕ := 4096

namespace TypeChecker

variable (checker : TypeChecker)

def matchConstructorsForType : Ty → Option (List MatchConstructor)
  | .tuple items => some [⟨"tuple", items.map (none, ·)⟩]
  | .named name =>
    match checker.resolveEnumVariants name, checker.resolveEnumVariantFields name with
    | some variants, some fields => some (variants.map fun variant ↦
        ⟨variant, ((fields variant).getD []).map (none, ·)⟩)
    | _, _ => (checker.resolveNamedTypeFields name).map fun definition ↦
        [⟨name, (definition.fields.insertionSort fun left right ↦ left.1 ≤ right.1).map
          fun field ↦ (some field.1, field.2)⟩]
  | .scalar _ => none

/-- The patterns of the fields, if the pattern is one of the constructor. -/
def specializeMatchPattern (expected : Ty) (constructor : MatchConstructor) :
    MatchPattern → Option (List MatchPattern)
  | .tuple items =>
    match expected with
    | .tuple _ => if constructor.name = "tuple" then some items else none
    | _ => none
  | .variant path fields =>
    match expected with
    | .named enumName =>
      if matchPatternVariant enumName path = some constructor.name then some fields else none
    | _ => none
  | .struct path fields =>
    match expected with
    | .named typeName =>
      if structPathMatches path typeName then
        constructor.fields.mapM fun field ↦ field.1.bind fun name ↦ fields.reverse.lookup name
      else none
    | _ => none
  | _ => none

/-- The row below a constructor, if its head admits it. -/
def specializeRow (headTy : Ty) (constructor : MatchConstructor) :
    List MatchPattern → Option (List MatchPattern)
  | [] => none
  | .wildcard :: tail => some (replicate constructor.fields.length .wildcard ++ tail)
  | .binding _ :: tail => some (replicate constructor.fields.length .wildcard ++ tail)
  | head :: tail => (specializeMatchPattern headTy constructor head).map (· ++ tail)

/-- Exhaustiveness of a matrix, column by column. -/
def matchPatternMatrixIsExhaustive : ℕ → List Ty → List (List MatchPattern) → Bool
  | 0, _, _ => false
  | _ + 1, [], rows => !rows.isEmpty
  | budget + 1, headTy :: tailTypes, rows =>
    let expanded := rows.flatMap expandRow
    match checker.matchConstructorsForType headTy with
    | none => matchPatternMatrixIsExhaustive budget tailTypes (expanded.filterMap defaultRow)
    | some constructors => constructors.all fun constructor ↦
      matchPatternMatrixIsExhaustive budget (constructor.fields.map (·.2) ++ tailTypes)
        (expanded.filterMap (specializeRow headTy constructor))

end TypeChecker

/-! ### Analysis of one pattern -/

structure MatchPatternAnalysis where
  bindings : List (String × Ty)
  coveredVariants : List String
  irrefutable : Bool

/-- The children of a pattern together; the first failure is the failure of the whole. -/
def combinePatternChildren : List (Result MatchPatternAnalysis) → Result MatchPatternAnalysis
  | [] => .ok ⟨[], [], true⟩
  | child :: children => do
    let child ← child
    let rest ← combinePatternChildren children
    return ⟨child.bindings ++ rest.bindings, [], child.irrefutable && rest.irrefutable⟩

/-- All results, or the first failure. -/
def collectResults {α : Type} : List (Result α) → Result (List α)
  | [] => .ok []
  | x :: xs => do
    let a ← x
    let as ← collectResults xs
    return a :: as

/-- The first binding that is `_` or occurs a second time. -/
def duplicateBinding : List String → List (String × Ty) → Option String
  | _, [] => none
  | names, (name, _) :: bindings =>
    if name = "_" ∨ name ∈ names then some name else duplicateBinding (name :: names) bindings

/-- The check of the bindings at the end of the analysis. -/
def finishAnalysis (analysis : MatchPatternAnalysis) : Result MatchPatternAnalysis :=
  match duplicateBinding [] analysis.bindings with
  | some name => .error (.new s!"duplicate match binding '{name}'")
  | none => .ok { analysis with
      bindings := analysis.bindings.insertionSort fun left right ↦ left.1 ≤ right.1 }

/-- The fields of a declaration that a struct pattern does not name. -/
def missingFields (definition : StructDef) (fields : List (String × MatchPattern)) : List String :=
  (definition.fields.map (·.1)).filter fun field ↦ decide (field ∉ fields.map (·.1))

namespace TypeChecker

variable (checker : TypeChecker)

mutual

/-- The bindings and the covered variants of a pattern. -/
def analyzeMatchPattern (expected : Ty) : MatchPattern → Result MatchPatternAnalysis
  | .wildcard =>
    if checker.isLinearType expected then
      .error (.new ("wildcard match pattern cannot discard a linear Cell-backed value; " ++
        "bind it and discharge ownership"))
    else finishAnalysis ⟨[], [], true⟩
  | .binding name => finishAnalysis ⟨[(name, expected)], [], true⟩
  | .tuple items =>
    match expected with
    | .tuple types =>
      if items.length ≠ types.length then
        .error (.new s!"tuple pattern expects {types.length} field(s), got {items.length}")
      else do finishAnalysis (← combinePatternChildren (analyzeZip items types))
    | _ => .error (.new (s!"tuple pattern '{(MatchPattern.tuple items).display}' requires a " ++
        s!"tuple scrutinee, got {expected.sourceText}"))
  | .struct path fields =>
    match expected with
    | .named typeName =>
      if structPathMatches path typeName then
        match checker.resolveNamedTypeFields typeName with
        | none => .error (.new s!"struct pattern type '{typeName}' has no declared fields")
        | some definition => do
          let children ← analyzeFields typeName definition [] fields
          let missing := missingFields definition fields
          if !missing.isEmpty then
            throw (.new (s!"struct pattern for '{typeName}' must name every field; missing " ++
              ", ".intercalate missing))
          finishAnalysis (← combinePatternChildren children)
      else .error (.new s!"struct pattern '{path}' does not match type '{typeName}'")
    | _ => .error (.new (s!"struct pattern '{(MatchPattern.struct path fields).display}' " ++
        s!"requires a named value, got {expected.sourceText}"))
  | .variant path fields =>
    let shown := (MatchPattern.variant path fields).display
    match expected with
    | .named enumName =>
      match checker.resolveEnumVariants enumName with
      | none => .error (.new s!"match pattern '{shown}' targets non-enum type '{enumName}'")
      | some variants =>
        match matchPatternVariant enumName path with
        | none => .error (.new s!"match pattern '{shown}' does not match enum '{enumName}'")
        | some variant =>
          if variant ∉ variants then
            .error (.new s!"unknown enum variant '{enumName}::{variant}' in match pattern")
          else
            let declared := ((checker.resolveEnumVariantFields enumName).bind (· variant)).getD []
            if fields.length ≠ declared.length then
              .error (.new (s!"match pattern '{enumName}::{variant}' expects {declared.length} " ++
                s!"payload pattern(s), got {fields.length}"))
            else do
              let children ← combinePatternChildren (analyzeZip fields declared)
              finishAnalysis ⟨children.bindings, if children.irrefutable then [variant] else [],
                decide (variants.length = 1) && children.irrefutable⟩
    | _ => .error (.new (s!"enum pattern '{shown}' requires an enum scrutinee, got " ++
        expected.sourceText))
  | .or patterns =>
    if patterns.length < 2 then .error (.new "or-pattern requires at least two alternatives")
    else do
      let alternatives ← collectResults (analyzeEach expected patterns)
      if alternatives.any fun alternative ↦ !alternative.bindings.isEmpty then
        throw (.new ("or-pattern alternatives cannot bind values in the 0.25 deterministic " ++
          "pattern kernel"))
      finishAnalysis ⟨[], alternatives.flatMap (·.coveredVariants),
        (alternatives.any fun alternative ↦ alternative.irrefutable) ||
          checker.matchPatternMatrixIsExhaustive matchExhaustivenessBudget [expected]
            (patterns.map ([·]))⟩

/-- Patterns against the types in the same places. -/
def analyzeZip : List MatchPattern → List Ty → List (Result MatchPatternAnalysis)
  | pattern :: patterns, ty :: types => analyzeMatchPattern ty pattern :: analyzeZip patterns types
  | _, _ => []

/-- Patterns against one type. -/
def analyzeEach (expected : Ty) : List MatchPattern → List (Result MatchPatternAnalysis)
  | [] => []
  | pattern :: patterns => analyzeMatchPattern expected pattern :: analyzeEach expected patterns

/-- The named fields of a struct pattern. Failures inside a field are reported after all names have
been checked. -/
def analyzeFields (typeName : String) (definition : StructDef) (seenFields : List String) :
    List (String × MatchPattern) → Result (List (Result MatchPatternAnalysis))
  | [] => .ok []
  | (field, child) :: fields =>
    if field ∈ seenFields then .error (.new s!"duplicate struct pattern field '{field}'")
    else
      match definition.fields.lookup field with
      | none => .error (.new s!"unknown field '{field}' in struct pattern for '{typeName}'")
      | some fieldTy => do
        let children ← analyzeFields typeName definition (field :: seenFields) fields
        return analyzeMatchPattern fieldTy child :: children

end

end TypeChecker

/-! ### All arms -/

structure ArmsState where
  seen : List String := []
  hasCatchAll : Bool := false
  payloads : List (List (String × Ty)) := []

/-- Record the variants an arm covers. -/
def insertCovered : List String → List String → Result (List String)
  | seen, [] => .ok seen
  | seen, variant :: variants =>
    if variant ∈ seen then
      .error (.new s!"duplicate exhaustive match coverage for enum variant '{variant}'")
    else insertCovered (variant :: seen) variants

namespace TypeChecker

variable (checker : TypeChecker)

def checkArm (scrutineeTy : Ty) (s : ArmsState) (pattern : MatchPattern) : Result ArmsState := do
  if s.hasCatchAll then
    throw (.new ("wildcard pattern '_' or another irrefutable pattern must be the last match " ++
      "arm"))
  let analysis ← checker.analyzeMatchPattern scrutineeTy pattern
  let seen ← insertCovered s.seen analysis.coveredVariants
  return ⟨seen, analysis.irrefutable, s.payloads ++ [analysis.bindings]⟩

def checkArms (scrutineeTy : Ty) : ArmsState → List MatchPattern → Result ArmsState
  | s, [] => .ok s
  | s, pattern :: patterns => do
    let s ← checker.checkArm scrutineeTy s pattern
    checkArms scrutineeTy s patterns

/-- The enum of a scrutinee type, with its variants. -/
def enumShape : Ty → Option (String × List String)
  | .named enumName => (checker.resolveEnumVariants enumName).map (enumName, ·)
  | _ => none

/-- The bindings of every arm of an accepted match. -/
def checkMatchPatterns (scrutineeTy : Ty) (arms : List MatchPattern) :
    Result (List (List (String × Ty))) := do
  let s ← checker.checkArms scrutineeTy {} arms
  let matrixExhaustive := s.hasCatchAll || checker.matchPatternMatrixIsExhaustive
    matchExhaustivenessBudget [scrutineeTy] (arms.map ([·]))
  if !matrixExhaustive then
    match checker.enumShape scrutineeTy with
    | some (enumName, variants) =>
      if s.seen.length ≠ variants.length then
        let missing := variants.filter fun variant ↦ decide (variant ∉ s.seen)
        throw (.new (s!"non-exhaustive match for enum '{enumName}'; missing " ++
          ", ".intercalate missing))
    | none =>
      throw (.new ("non-enum match requires a final irrefutable binding, tuple/struct pattern, " ++
        "or wildcard arm"))
  return s.payloads

end TypeChecker

end CellScript.Types
