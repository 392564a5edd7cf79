import ResourceApi.Options.Field
import ResourceApi.Proofs.Except
import ResourceApi.Proofs.Options.Generation

/-!
# The types of a configuration

Some leaves of a configuration are about types, the others about operations.  Options are resolved leaf by
leaf: configurations that agree on the types still do so after a partial document has been resolved
against both, and a document that one of them refuses is refused by the other for the same fault.
-/

namespace ResourceApi

namespace Leaf

/-- The leaf is about a type, not about an operation. -/
def isType : Leaf → Bool
  | .query .. | .mutation .. => false
  | _ => true

end Leaf

namespace GenerationConfig

variable {parent parent' config config' : GenerationConfig} {leaf : Leaf}

/-- The configuration of the types, with no operation enabled. -/
def types (config : GenerationConfig) : GenerationConfig :=
  ⟨fun leaf ↦ leaf.isType && config.enabled leaf⟩

/-- The configuration with one leaf switched off. -/
def without (config : GenerationConfig) (leaf : Leaf) : GenerationConfig :=
  ⟨fun other ↦ decide (other ≠ leaf) && config.enabled other⟩

theorem enabled_of_types (same : parent.types = parent'.types) (type : leaf.isType = true) :
    parent.enabled leaf = parent'.enabled leaf := by
  have hleaf := congrFun (congrArg enabled same) leaf
  simpa [types, type] using hleaf

theorem types_congr
    (alike : ∀ leaf : Leaf, leaf.isType = true → config.enabled leaf = config'.enabled leaf) :
    config.types = config'.types := by
  unfold types
  congr 1
  funext leaf
  cases htype : leaf.isType with
  | false => rfl
  | true => exact congrArg (true && ·) (alike leaf htype)

/-- Switching a leaf off that is about no type leaves all types as they are. -/
theorem types_without (config : GenerationConfig) (operation : leaf.isType = false) :
    (config.without leaf).types = config.types := by
  refine types_congr fun other htype ↦ ?_
  have hne : other ≠ leaf := by
    rintro rfl
    cases htype.symm.trans operation
  simp [without, hne]

/-- What a partial document makes of the types depends on the types of the parent only. -/
theorem resolve_types (same : parent.types = parent'.types) (fragment : Json) :
    types <$> resolve fragment parent = types <$> resolve fragment parent' := by
  cases fragment with
  | null => exact congrArg Except.ok same
  | bool enabled => rw [resolve_bool, resolve_bool]
  | obj members =>
    have herror := Options.applyAll_error_congr
      ((keys_toFlat parent).trans (keys_toFlat parent').symm) (Options.overridesOf (.obj members))
    cases h : resolve (.obj members) parent with
    | error error =>
      rw [resolve_obj_eq_error_iff.mpr (herror.symm.trans (resolve_obj_eq_error_iff.mp h))]
    | ok config =>
      cases h' : resolve (.obj members) parent' with
      | error error =>
        cases h.symm.trans
          (resolve_obj_eq_error_iff.mpr (herror.trans (resolve_obj_eq_error_iff.mp h')))
      | ok config' =>
        refine congrArg Except.ok (types_congr fun leaf htype ↦ ?_)
        rcases enabled_of_resolve h leaf with ⟨path, enabled, hdecides, hvalue⟩ | ⟨hnone, hvalue⟩
        · rw [hvalue, enabled_of_decides h' hdecides]
        · rw [hvalue, enabled_of_undecided h' hnone, enabled_of_types same htype]
  | _ => rfl

end GenerationConfig

namespace FieldConfig

/-- The options with no operation enabled. -/
def types (options : FieldConfig) : FieldConfig := { options with config := options.config.types }

/-- The options of a field depend on the types of its node only, as far as they are about types. -/
theorem resolve_types {node node' : GenerationConfig} (same : node.types = node'.types)
    (options : Json) (depth : Nat) (required reference : Bool) :
    types <$> resolve options node depth required reference =
      types <$> resolve options node' depth required reference := by
  unfold resolve
  cases options with
  | null | obj members =>
    dsimp only [pure_bind]
    generalize Json.get? _ "attach" = attach?, Json.get? _ "authMapper" = authMapper?
    -- the configuration is resolved first; what is read after it does not depend on the node
    cases attach? <;> cases authMapper? <;> simp only [map_bind, map_pure] <;>
      refine Except.bind_congr_of_map (g := GenerationConfig.types) ?_ fun config config' halike ↦ by
        simp only [types, halike]
    · exact congrArg Except.ok same
    · exact congrArg Except.ok same
    · exact GenerationConfig.resolve_types same _
    · exact GenerationConfig.resolve_types same _
  | _ => rfl

end FieldConfig
end ResourceApi
