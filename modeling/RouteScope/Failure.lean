/-!
# Failures

What can go wrong outside the pure questions: files, syntax, configuration and
output.  Each failure has one text and one exit code.
-/

namespace RouteScope

/-- Why a request could not be answered.  A file is unparsable if it has no syntax tree,
and a value unwritable if it has no written form; `inputOutput` is a refusal of the
operating system. -/
inductive Failure where
  | fileNotFound (path : String)
  | unsupportedFile (extension : String)
  | unparsable (reason : String)
  | configuration (path reason : String)
  | unwritable (reason : String)
  | inputOutput (reason : String)
deriving DecidableEq, Repr

namespace Failure

def message : Failure → String
  | fileNotFound path => s!"File not found: {path}"
  | unsupportedFile extension => s!"Unsupported language for extension: {extension}"
  | unparsable reason => s!"Failed to parse file: {reason}"
  | configuration path reason => s!"Invalid configuration in {path}: {reason}"
  | unwritable reason => s!"Serialization failed: {reason}"
  | inputOutput reason => s!"IO error: {reason}"

/-- The exit code of a program that ends with the failure. -/
def exitCode : Failure → Nat
  | fileNotFound _ => 1
  | unsupportedFile _ => 2
  | unparsable _ => 3
  | unwritable _ => 4
  | configuration _ _ => 5
  | inputOutput _ => 1

end Failure

instance : ToString Failure := ⟨Failure.message⟩

end RouteScope
