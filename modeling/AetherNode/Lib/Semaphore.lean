import Mathlib.Order.Nat
/-!
# Bounded semaphores

A number of permits, as `threading.BoundedSemaphore` counts them: taken without
waiting, given back one by one, and never more than there were at first.
`Taken s n` says that `n` permits are out; the rules follow it through every
operation.
-/
namespace AetherNode.Lib

structure BoundedSemaphore where
  initial : Nat
  value : Nat
  deriving DecidableEq, Repr

namespace BoundedSemaphore

/-- A semaphore with all its permits. -/
def full (n : Nat) : BoundedSemaphore := ⟨n, n⟩

/-- `acquire(blocking=False)`, nothing where it returns `False`. -/
def acquire (s : BoundedSemaphore) : Option BoundedSemaphore :=
  if s.value = 0 then none else some { s with value := s.value - 1 }

/-- `release()`, nothing where it raises `ValueError`. -/
def release (s : BoundedSemaphore) : Option BoundedSemaphore :=
  if s.value < s.initial then some { s with value := s.value + 1 } else none

/-- So many permits are out. -/
def Taken (s : BoundedSemaphore) (n : Nat) : Prop := s.value + n = s.initial

variable {s s' : BoundedSemaphore} {n : Nat}

theorem taken_full (n : Nat) : (full n).Taken 0 := rfl

theorem Taken.le (h : s.Taken n) : n ≤ s.initial := h ▸ Nat.le_add_left ..

theorem acquire_initial (ha : s.acquire = some s') : s'.initial = s.initial := by
  unfold acquire at ha
  split at ha <;> cases ha
  rfl

theorem release_initial (hr : s.release = some s') : s'.initial = s.initial := by
  unfold release at hr
  split at hr <;> cases hr
  rfl

theorem Taken.acquire (h : s.Taken n) (ha : s.acquire = some s') : s'.Taken (n + 1) := by
  unfold BoundedSemaphore.acquire at ha
  split at ha <;> cases ha
  unfold Taken at h ⊢
  dsimp only
  omega

/-- A permit is refused exactly where all of them are out. -/
theorem Taken.acquire_eq_none (h : s.Taken n) : s.acquire = none ↔ n = s.initial := by
  unfold Taken at h
  unfold BoundedSemaphore.acquire
  split <;> simp <;> omega

/-- A permit that is out can be given back. -/
theorem Taken.release (h : s.Taken (n + 1)) : ∃ s', s.release = some s' ∧ s'.Taken n := by
  unfold Taken at h
  refine ⟨{ s with value := s.value + 1 }, ?_, ?_⟩
  · unfold BoundedSemaphore.release
    rw [if_pos (by omega)]
  · change s.value + 1 + n = s.initial
    omega

end BoundedSemaphore

end AetherNode.Lib
