import Compaction.Fault

/-!
# Operations that may fail

An operation on some state ends with a result or a fault. Either way the changes that it made stay.

* `bind_of_ok` — after a result the next operation goes on from the state that was reached;
* `bind_of_error` — after a fault nothing more is done.
-/

namespace Compaction

abbrev Effect (σ α : Type) := ExceptT Fault (StateM σ) α

namespace Effect

variable {σ α : Type}

/-- An operation that only looks at the state. -/
def ofRead (read : σ → Except Fault α) : Effect σ α := fun state => (read state, state)

/-- A part of an operation that does not depend on the state. -/
def ofExcept (result : Except Fault α) : Effect σ α := ofRead fun _ => result

/-- An operation that cannot fail. -/
def ofChange (change : σ → α × σ) : Effect σ α := fun state => (.ok (change state).1, (change state).2)

/-- The same operation with its faults put in other words. -/
def mapFault (f : Fault → Fault) (action : Effect σ α) : Effect σ α := fun state =>
  match action state with
  | (.ok x, state) => (.ok x, state)
  | (.error e, state) => (.error (f e), state)

theorem bind_of_ok {β : Type} {first : Effect σ α} {next : α → Effect σ β} {s s' : σ} {x : α}
    (h : first s = (.ok x, s')) : (first >>= next) s = next x s' := by
  change (ExceptT.bindCont next (first s).1) (first s).2 = next x s'
  rw [h]
  rfl

theorem bind_of_error {β : Type} {first : Effect σ α} {next : α → Effect σ β} {s s' : σ} {f : Fault}
    (h : first s = (.error f, s')) : (first >>= next) s = (.error f, s') := by
  change (ExceptT.bindCont next (first s).1) (first s).2 = (.error f, s')
  rw [h]
  rfl

end Effect

end Compaction
