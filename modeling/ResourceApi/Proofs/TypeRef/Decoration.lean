import ResourceApi.Executable.Mount
import ResourceApi.Proofs.Model.Naming
import ResourceApi.Proofs.TypeRef

/-!
# Decorated names

The text of a reference is put on from the named type outwards, it is taken apart from the outermost list
inwards, and a schema that is mounted puts the reference together from the named type again.  All three
go through one vector, so a text is read if and only if it is the decoration of a name, and what is read
is what it was decorated with.
-/

namespace ResourceApi

namespace TypeRef

variable {ref : TypeRef} {text front : List Char} {name : String} {nullable lists : List Bool}
  {level innermost : Bool} {c : Char}

/-! ## Putting on -/

/-- One more list around a text, with the mark of its level. -/
def enclose (inner : String) (nullable : Bool) : String :=
  "[" ++ inner ++ "]" ++ String.ofList (mark nullable)

theorem ofVector_cons (h : nullable ≠ []) :
    ofVector name (level :: nullable) = .list (ofVector name nullable) level := by
  cases nullable with
  | nil => exact absurd rfl h
  | cons next rest => rfl

theorem decorate_cons (h : nullable ≠ []) :
    decorate name (level :: nullable) = enclose (decorate name nullable) level := by
  apply String.toList_inj.mp
  simp [decorate, enclose, render, ofVector_cons h, renderChars]

/-- A name is decorated from the innermost level outwards. -/
theorem decorate_concat (name : String) (lists : List Bool) (innermost : Bool) :
    decorate name (lists ++ [innermost]) =
      lists.reverse.foldl enclose (name ++ String.ofList (mark innermost)) := by
  rw [List.foldl_reverse]
  induction lists with
  | nil =>
    apply String.toList_inj.mp
    simp [decorate, ofVector, render, renderChars]
  | cons level lists ih =>
    rw [List.cons_append, decorate_cons (by simp), ih, List.foldr_cons]

/-- Putting the levels on from the innermost one outwards gives the reference with the vector. -/
theorem ofLevels_concat (name : String) (lists : List Bool) (innermost : Bool) :
    ofLevels name (lists ++ [innermost]) = ofVector name (lists ++ [innermost]) := by
  unfold ofLevels
  rw [List.reverse_append, List.reverse_singleton, List.singleton_append]
  change lists.reverse.foldl TypeRef.list (.named name innermost) = _
  rw [List.foldl_reverse]
  induction lists with
  | nil => rfl
  | cons level lists ih => rw [List.foldr_cons, ih, List.cons_append, ofVector_cons (by simp)]

theorem vector_ne_nil (ref : TypeRef) : ref.vector ≠ [] := by
  cases ref <;> exact List.cons_ne_nil _ _

/-- A reference is put together again from its name and its vector. -/
theorem ofLevels_vector (ref : TypeRef) : ofLevels ref.name ref.vector = ref := by
  have hlevels := List.dropLast_append_getLast ref.vector_ne_nil
  calc ofLevels ref.name ref.vector
      = ofVector ref.name ref.vector := by rw [← hlevels, ofLevels_concat]
    _ = ref := ref.ofVector_vector

theorem decorate_vector (ref : TypeRef) : decorate ref.name ref.vector = ref.render :=
  congrArg render ref.ofVector_vector

/-! ## Taking off -/

theorem eq_append_of_dropLast? (h : dropLast? c text = some front) : text = front ++ [c] := by
  unfold dropLast? at h
  split at h
  · rename_i hlast
    obtain rfl := Option.some.inj h
    exact (List.dropLast_append_getLast? c hlast).symm
  · cases h

/-- A text is what is left of it without its mark, and the mark. -/
theorem eq_append_mark (text : List Char) :
    text = (dropLast? '!' text).getD text ++ mark (dropLast? '!' text).isNone := by
  cases h : dropLast? '!' text with
  | none => exact (List.append_nil text).symm
  | some front => exact eq_append_of_dropLast? h

/-- A text that is read is that of the reference, whose named type has a name of the schema language. -/
theorem renderChars_of_parseWith {fuel : Nat} (h : parseWith fuel text = some ref) :
    ref.renderChars = text ∧ Name.isValid ref.name.toList = true := by
  induction fuel generalizing text ref with
  | zero => cases h
  | succ fuel ih =>
    have htext := eq_append_mark text
    unfold parseWith at h
    dsimp only at h
    generalize (dropLast? '!' text).isNone = nullable at h htext
    generalize (dropLast? '!' text).getD text = marked at h htext
    split at h
    · rename_i rest
      obtain ⟨inner, hinner, h⟩ := Option.bind_eq_some_iff.mp h
      obtain ⟨item, hitem, h⟩ := Option.bind_eq_some_iff.mp h
      obtain rfl := Option.some.inj h
      obtain ⟨hrender, hvalid⟩ := ih hitem
      rw [renderChars_list, hrender, ← eq_append_of_dropLast? hinner]
      exact ⟨htext.symm, hvalid⟩
    · split at h
      · rename_i hvalid
        obtain rfl := Option.some.inj h
        unfold renderChars TypeRef.name
        rw [String.toList_ofList]
        exact ⟨htext.symm, hvalid⟩
      · cases h

/-- A reference to a name is read as it is written. -/
theorem parse?_render (h : IsName ref.name) : parse? ref.render = some ref := by
  unfold parse? render
  rw [String.toList_ofList, parseWith_renderChars (Text.isPlain_of_isWord h.isWord)]
  exact if_pos ⟨h, Nat.lt_succ_of_le ref.depth_le_length⟩

/-- Exactly the references to names are read, each from its own text. -/
theorem parse?_eq_some_iff {text : String} :
    parse? text = some ref ↔ IsName ref.name ∧ ref.render = text := by
  constructor
  · intro h
    obtain ⟨hrender, hname⟩ := renderChars_of_parseWith h
    exact ⟨hname, String.toList_inj.mp (String.toList_ofList.trans hrender)⟩
  · rintro ⟨hname, rfl⟩
    exact parse?_render hname

/-- What a text is taken apart into: the named type, the number of lists, and the vector. -/
def parts? (text : String) : Option (String × Nat × List Bool) :=
  (parse? text).map fun ref ↦ (ref.name, ref.depth, ref.vector)

/-- The parts are those of a decoration, from which the vector is read off level by level. -/
theorem parts?_eq_some_iff {text : String} {depth : Nat} :
    parts? text = some (name, depth, nullable) ↔
      IsName name ∧ depth + 1 = nullable.length ∧ decorate name nullable = text := by
  unfold parts?
  rw [Option.map_eq_some_iff]
  constructor
  · rintro ⟨ref, hread, hparts⟩
    obtain ⟨hname, hrender⟩ := parse?_eq_some_iff.mp hread
    obtain ⟨rfl, rfl, rfl⟩ : ref.name = name ∧ ref.depth = depth ∧ ref.vector = nullable := by
      simpa using hparts
    exact ⟨hname, ref.length_vector.symm, (decorate_vector ref).trans hrender⟩
  · rintro ⟨hname, hlength, rfl⟩
    obtain ⟨level, rest, rfl⟩ := List.exists_cons_of_length_eq_add_one hlength.symm
    have hvector := vector_ofVector name level rest
    have hdepth := (ofVector name (level :: rest)).length_vector
    refine ⟨ofVector name (level :: rest), parse?_eq_some_iff.mpr ⟨?_, rfl⟩, ?_⟩
    · rwa [name_ofVector]
    · rw [name_ofVector, hvector]
      rw [hvector] at hdepth
      rw [Nat.succ.inj (hlength.trans hdepth)]

end TypeRef

open TypeRef (parts? enclose mark)

/-- Decorating a name with a vector and taking a text apart undo each other: a text has the parts if and
only if it is their decoration, the name is a name of the schema language and the vector has one level
more than there are lists.  The decoration is put on from the named type outwards.  Mounting a schema
takes the same texts and turns each into a reference that is written like it; all others are refused. -/
theorem decorate_inverse (text : String) :
    (∀ name depth nullable, parts? text = some (name, depth, nullable) ↔
      IsName name ∧ depth + 1 = nullable.length ∧ decorate name nullable = text) ∧
    (∀ name lists innermost, decorate name (lists ++ [innermost]) =
      lists.reverse.foldl enclose (name ++ String.ofList (mark innermost))) ∧
    (∀ ref, ExecutableSchema.typeRef text = .ok ref ↔
      parts? text = some (ref.name, ref.depth, ref.vector)) ∧
    (∀ ref, ExecutableSchema.typeRef text = .ok ref → ref.render = text) ∧
    (ExecutableSchema.typeRef text = .error (.invalidDocument (.invalidTypeReference text)) ↔
      parts? text = none) := by
  have hmounted : ∀ ref, ExecutableSchema.typeRef text = .ok ref ↔ TypeRef.parse? text = some ref := by
    intro ref
    unfold ExecutableSchema.typeRef
    cases hread : TypeRef.parse? text with
    | none => simp
    | some read => simp [TypeRef.ofLevels_vector]
  refine ⟨fun name depth nullable ↦ TypeRef.parts?_eq_some_iff, TypeRef.decorate_concat, fun ref ↦ ?_,
    fun ref h ↦ (TypeRef.parse?_eq_some_iff.mp ((hmounted ref).mp h)).2, ?_⟩
  · rw [hmounted, TypeRef.parts?_eq_some_iff, TypeRef.decorate_vector, TypeRef.parse?_eq_some_iff]
    simp
  · unfold ExecutableSchema.typeRef parts?
    cases TypeRef.parse? text <;> simp

/-- A non-null list of lists of non-null items. -/
theorem decorate_inverse_lists :
    parts? "[[Item!]]!" = some ("Item", 2, [false, true, false]) ∧
      ExecutableSchema.typeRef "[[Item!]]!" =
        .ok (.list (.list (.named "Item" false) true) false) := by
  obtain ⟨hparts, -, hmounted, -⟩ := decorate_inverse "[[Item!]]!"
  have hread := (hparts "Item" 2 [false, true, false]).mpr (by decide +kernel)
  exact ⟨hread, (hmounted _).mpr hread⟩

end ResourceApi
