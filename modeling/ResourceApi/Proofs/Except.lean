import Mathlib.Data.List.Perm.Basic

/-!
# Computations that may fail

What is known when a chain of computations succeeds: every link succeeded.  Two chains come to the same
if no link tells the results of the one before it apart.
-/

namespace Except

variable {ε α β : Type}

theorem ok_bind (a : α) (f : α → Except ε β) : (ok a >>= f) = f a := rfl

theorem bind_eq_ok_iff {x : Except ε α} {f : α → Except ε β} {b : β} :
    (x >>= f) = .ok b ↔ ∃ a, x = .ok a ∧ f a = .ok b := by
  constructor
  · intro h
    cases x with
    | ok a => exact ⟨a, rfl, h⟩
    | error e => cases h
  · rintro ⟨a, rfl, h⟩
    exact h

/-- Two computations that have the same errors, and results that are alike, go on alike if what comes
after them does not tell the results apart. -/
theorem bind_congr_of_map {γ : Type} {x y : Except ε α} {g : α → β} {k k' : α → Except ε γ}
    (same : g <$> x = g <$> y) (alike : ∀ a b, g a = g b → k a = k' b) : (x >>= k) = (y >>= k') := by
  cases x with
  | error e =>
    cases y with
    | error e' => exact congrArg Except.error (Except.error.inj same)
    | ok b => cases same
  | ok a =>
    cases y with
    | error e => cases same
    | ok b => exact alike a b (Except.ok.inj same)

/-- The computation succeeds, with a result that passes the test. -/
def passes (test : α → Bool) : Except ε α → Bool
  | ok a => test a
  | error _ => false

theorem exists_of_passes {x : Except ε α} {test : α → Bool} (h : x.passes test = true) :
    ∃ a, x = .ok a ∧ test a = true := by
  cases x with
  | ok a => exact ⟨a, rfl, h⟩
  | error e => cases h

/-- A computation over a list succeeds with the results of its elements. -/
theorem mapM_eq_ok_iff {f : α → Except ε β} {inputs : List α} {outputs : List β} :
    inputs.mapM f = .ok outputs ↔
      List.Forall₂ (fun input output ↦ f input = .ok output) inputs outputs := by
  induction inputs generalizing outputs with
  | nil =>
    rw [List.mapM_nil, List.forall₂_nil_left_iff]
    exact ⟨fun h ↦ (Except.ok.inj h).symm, fun h ↦ h ▸ rfl⟩
  | cons first rest ih =>
    simp only [List.mapM_cons, bind_eq_ok_iff, List.forall₂_cons_left_iff, ← ih]
    constructor
    · rintro ⟨head, hhead, tail, htail, h⟩
      cases h
      exact ⟨head, tail, hhead, htail, rfl⟩
    · rintro ⟨head, tail, hhead, htail, rfl⟩
      exact ⟨head, hhead, tail, htail, rfl⟩

/-- In another order a computation over a list succeeds as well, with the results in another order. -/
theorem exists_mapM_of_perm {f : α → Except ε β} {inputs inputs' : List α} {outputs : List β}
    (perm : inputs.Perm inputs') (h : inputs.mapM f = .ok outputs) :
    ∃ outputs', inputs'.mapM f = .ok outputs' ∧ outputs.Perm outputs' := by
  obtain ⟨outputs', houtputs', hperm⟩ := List.perm_comp_forall₂ perm.symm (mapM_eq_ok_iff.mp h)
  exact ⟨outputs', mapM_eq_ok_iff.mpr houtputs', hperm.symm⟩

/-- A result of a computation over a list comes from an element. -/
theorem exists_of_mem_mapM {f : α → Except ε β} {inputs : List α} {outputs : List β}
    (h : inputs.mapM f = .ok outputs) {output : β} (hmem : output ∈ outputs) :
    ∃ input ∈ inputs, f input = .ok output := by
  have hresults := mapM_eq_ok_iff.mp h
  clear h
  induction hresults with
  | nil => cases hmem
  | cons hhead htail ih =>
    rcases List.mem_cons.mp hmem with rfl | hlater
    · exact ⟨_, List.mem_cons_self, hhead⟩
    · obtain ⟨input, hinput, houtput⟩ := ih hlater
      exact ⟨input, List.mem_cons_of_mem _ hinput, houtput⟩

/-- What leads back from each result to its input leads back from all results to all inputs. -/
theorem map_of_mapM {f : α → Except ε β} {inputs : List α} {outputs : List β} {back : β → α}
    (h : inputs.mapM f = .ok outputs)
    (returns : ∀ input output, f input = .ok output → back output = input) :
    outputs.map back = inputs := by
  rw [← List.forall₂_eq_eq_eq, List.forall₂_map_left_iff]
  exact (mapM_eq_ok_iff.mp h).flip.imp fun output input ↦ returns input output

end Except

/-! ## Computations on a state -/

namespace ExceptT

variable {ε σ α β : Type}

/-- A computation goes on from the state in which its first part has ended, unless that part has
failed. -/
theorem run_run_bind (first : ExceptT ε (StateM σ) α) (next : α → ExceptT ε (StateM σ) β)
    (before : σ) :
    (first >>= next).run.run before =
      match first.run.run before with
      | (.ok value, between) => (next value).run.run between
      | (.error error, between) => (.error error, between) := by
  rw [ExceptT.run_bind, StateT.run_bind]
  generalize first.run.run before = run
  obtain ⟨_ | _, between⟩ := run <;> rfl

end ExceptT
