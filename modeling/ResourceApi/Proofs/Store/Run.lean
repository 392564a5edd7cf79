import Mathlib.Data.List.Induction
import ResourceApi.Proofs.Store.Call

/-!
# Runs of store calls

A run is a list of calls, each of which goes on from the store that the one before it has left.  Each is
accepted, and then writes or removes one record of one resource, or it changes nothing.  Everything about
runs is derived from that.
-/

namespace ResourceApi.Store

/-- The store that a call leaves, accepted or not. -/
def after (store : Store) (call : Call) : Store := (call.access.run.run store).2

def run (store : Store) (calls : List Call) : Store := calls.foldl after store

/-- The store that a call leaves is the one it comes to, or else the one it found. -/
theorem after_eq (store : Store) (call : Call) :
    store.after call =
      match store.call call with
      | .ok (next, _) => next
      | .error _ => store := by
  rw [after, run_access_eq]
  cases store.call call with
  | ok result => rfl
  | error error => rfl

@[simp]
theorem run_nil (store : Store) : store.run [] = store := rfl

theorem run_singleton (store : Store) (call : Call) : store.run [call] = store.after call := rfl

theorem run_append (store : Store) (front back : List Call) :
    store.run (front ++ back) = (store.run front).run back :=
  List.foldl_append

theorem run_concat (store : Store) (calls : List Call) (call : Call) :
    store.run (calls ++ [call]) = (store.run calls).after call := by
  rw [run_append]
  rfl

/-! ## Accepted calls of a run -/

/-- A call is accepted, or it changes nothing. -/
theorem after_cases (store : Store) (call : Call) :
    (∃ record, Accepted store call (store.after call) record) ∨ store.after call = store := by
  unfold after
  rcases accepted_or_refused store call with ⟨next, record, accepted⟩ | ⟨error, refused⟩
  · rw [accepted.run_access]
    exact .inl ⟨record, accepted⟩
  · rw [refused.run_access]
    exact .inr rfl

/-- What holds of the empty store and is kept by accepted calls holds after every run. -/
theorem run_induction {motive : Store → Prop} (admits : Call → Prop) (start : motive empty)
    (step : ∀ {store next : Store} {call : Call} {record : Json}, admits call → motive store →
      Accepted store call next record → motive next)
    (calls : List Call) (h : ∀ call ∈ calls, admits call) : motive (empty.run calls) := by
  induction calls using List.reverseRecOn with
  | nil => exact start
  | append_singleton front call ih =>
    rw [List.forall_mem_append] at h
    rw [run_concat]
    rcases after_cases (empty.run front) call with ⟨record, haccepted⟩ | hsame
    · exact step (h.2 call (List.mem_singleton_self call)) (ih h.1) haccepted
    · rw [hsame]
      exact ih h.1

end ResourceApi.Store
