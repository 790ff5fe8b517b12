import Mathlib.Tactic.Common

/-!
# Compiler diagnostics

The part of `error/mod.rs` that the modelled passes fill in: the message, the diagnostic code and,
for errors in generated assembly, where the offending line stands. Source spans of the passes
modelled here are the default one and are left out.
-/

namespace CellScript

/-- The codes that the modelled passes attach. -/
inductive DiagnosticCode
  | E1030
  | E2101
  | E2106
  | E2200
  | E2201
  | E2202
  deriving DecidableEq, Repr

inductive GeneratedAssemblySection
  | text
  | rodata
  deriving DecidableEq, Repr

/-- Where an operation of generated assembly stands. -/
structure GeneratedAssemblyDiagnostic where
  line : ℕ
  text : String
  section_ : GeneratedAssemblySection
  opIndex : ℕ
  deriving DecidableEq, Repr

structure CompileError where
  message : String
  code : Option DiagnosticCode
  generatedAssembly : Option GeneratedAssemblyDiagnostic
  deriving DecidableEq, Repr

/-- Fallible compiler steps. -/
abbrev Result := Except CompileError

namespace CompileError

def new (message : String) : CompileError := ⟨message, none, none⟩

def withCode (error : CompileError) (code : DiagnosticCode) : CompileError :=
  { error with code := some code }

/-- The first position attached is kept, and is named in the message. -/
def withGeneratedAssembly (error : CompileError) (context : GeneratedAssemblyDiagnostic) :
    CompileError :=
  if error.generatedAssembly.isSome then error
  else
    { error with
      message := s!"generated assembly line {context.line}: {error.message}"
      generatedAssembly := some context }

/-- The first code attached is kept. -/
def withCodegenCode (error : CompileError) (code : DiagnosticCode) : CompileError :=
  if error.code.isSome then error else { error with code := some code }

end CompileError

end CellScript
