/-
**A lock and the parties inside it.**

* `Guards`: the parties inside a critical section are exactly the owner of its lock.
* **`Guards.unique`**: at most one party is inside.
* `Guards.acquire`, `Guards.release`, `Guards.stay`: what the steps of a party have to show.
-/

import Mathlib.Logic.Basic

namespace Mutex

variable {Party : Type*}

/-- The parties inside the critical section are exactly the owner of its lock. -/
def Guards (owner : Option Party) (inside : Party → Prop) : Prop :=
  ∀ party, inside party ↔ owner = some party

namespace Guards

variable {owner : Option Party} {inside inside' : Party → Prop} {party other : Party}

/-- **At most one party is inside.** -/
theorem unique (guards : Guards owner inside) (one : inside party) (two : inside other) :
    party = other :=
  Option.some.inj (((guards party).mp one).symm.trans ((guards other).mp two))

/-- Nobody is inside while the lock is free. -/
theorem free (guards : Guards none inside) : ¬ inside party := by
  intro entered
  cases (guards party).mp entered

/-- A party takes the lock and enters. -/
theorem acquire (guards : Guards none inside) (enters : inside' party)
    (others : ∀ other, other ≠ party → (inside' other ↔ inside other)) :
    Guards (some party) inside' := by
  intro other
  rw [Option.some.injEq]
  by_cases own : other = party
  · subst own
    exact iff_of_true enters rfl
  · rw [others other own]
    exact iff_of_false guards.free (Ne.symm own)

/-- The party inside leaves and gives the lock back. -/
theorem release (guards : Guards (some party) inside) (leaves : ¬ inside' party)
    (others : ∀ other, other ≠ party → (inside' other ↔ inside other)) : Guards none inside' := by
  intro other
  refine iff_of_false ?_ (Option.some_ne_none other).symm
  by_cases own : other = party
  · subst own
    exact leaves
  · rw [others other own, guards other, Option.some.injEq]
    exact Ne.symm own

theorem stay (guards : Guards owner inside) (same : ∀ other, inside' other ↔ inside other) :
    Guards owner inside' :=
  fun other => (same other).trans (guards other)

end Guards

end Mutex
