import ScriptEngine.Analysis
import ScriptEngine.CallSite
import ScriptEngine.Code.Emitter
import ScriptEngine.Compile
import ScriptEngine.Engine
import ScriptEngine.Environment.Lookup
import ScriptEngine.Error
import ScriptEngine.Heap.Collect
import ScriptEngine.Heap.Describe
import ScriptEngine.Native.Library
import ScriptEngine.Proofs.Cache.Counting
import ScriptEngine.Proofs.Code.Interning
import ScriptEngine.Proofs.Code.Jumps
import ScriptEngine.Proofs.Code.Refusals
import ScriptEngine.Proofs.Code.WellFormed
import ScriptEngine.Proofs.Heap.Collection
import ScriptEngine.Proofs.Heap.Guard
import ScriptEngine.Proofs.Host.Permanence
import ScriptEngine.Proofs.Machine.Catching
import ScriptEngine.Proofs.Machine.Depth
import ScriptEngine.Proofs.Machine.Entry
import ScriptEngine.Proofs.Machine.ReadBack
import ScriptEngine.Proofs.Number.Numerals
import ScriptEngine.Proofs.Positions.Running
import ScriptEngine.Proofs.Scope.Folding
import ScriptEngine.Proofs.Scope.Frames
import ScriptEngine.Proofs.Scope.Globals
import ScriptEngine.Proofs.Scope.Restored
import ScriptEngine.Proofs.Scope.Withs
import ScriptEngine.Proofs.Structured.Correctness
import ScriptEngine.Scope.Layout
import ScriptEngine.Syntax.Listing
import ScriptEngine.Value.Operation
