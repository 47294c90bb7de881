import ScriptEngine.Analysis
import ScriptEngine.Generation

/-!
# Compilation

Analysis followed by generation. Besides the result, compilation gives the tree as analysis has left
it; a tree that has been compiled can be compiled again.
-/

namespace ScriptEngine

/-- What compilation produces. -/
structure Compilation where
  /-- The code. -/
  unit : CodeUnit
  /-- The finished scope table. -/
  scopes : ScopeTable

/-- Compiles a program: the result, and the tree as analysis has left it. -/
def compile (p : Program) : Except CompileError Compilation × Program :=
  let (a, p) := Analyzer.program {} p
  match a.failure with
  | some e => (.error e, p)
  | none =>
    let scopes := a.finish
    ((generate scopes p).map fun unit => ⟨unit, scopes⟩, p)

end ScriptEngine
