import ResourceApi.Error
import ResourceApi.Scalar

/-!
# Scalars by pattern

A project declares scalars of its own by patterns; a value of such a scalar is a text in which the
pattern is found.
-/

namespace ResourceApi.ScalarRegistry

/-- Registers scalars by their patterns, in order, up to the first pattern that denotes nothing. -/
def registerPatterns (registry : ScalarRegistry) (patterns : Entries String) :
    Except CompileError ScalarRegistry :=
  patterns.foldlM (fun registry (name, pattern) ↦
    match ScalarRule.ofText? pattern with
    | some rule => .ok (registry.register name rule)
    | none => .error (.invalidConfig (.invalidPattern name))) registry

end ResourceApi.ScalarRegistry
