import Mathlib.Data.List.Basic
import IpcPortable.Runs

/-!
Condition variables. What matters of one is which threads are blocked in it
that were not notified since they began to wait. A thread may wake up without
a notification, and one that was notified goes on whenever it is scheduled.
-/
namespace IpcPortable.Conditions
open IpcPortable.Runs
variable {ι σ α : Type*}

/-- The threads that are blocked in the condition variable and were not notified. -/
structure Condition (ι : Type*) where
  blocked : List ι := []

/-- `wait`, up to the point where it blocks. -/
def Condition.wait (c : Condition ι) (t : ι) : Condition ι := { blocked := t :: c.blocked }
/-- The end of `wait`, after a notification or without one. -/
def Condition.wake [DecidableEq ι] (c : Condition ι) (t : ι) : Condition ι := { blocked := c.blocked.filter (· ≠ t) }
/-- `notify_all`. -/
def Condition.notifyAll (_ : Condition ι) : Condition ι := {}

@[simp] theorem mem_wait {c : Condition ι} {t u : ι} : u ∈ (c.wait t).blocked ↔ u = t ∨ u ∈ c.blocked := List.mem_cons
@[simp] theorem mem_wake [DecidableEq ι] {c : Condition ι} {t u : ι} :
    u ∈ (c.wake t).blocked ↔ u ∈ c.blocked ∧ u ≠ t := by
  simp [Condition.wake]

/-- No wake-up is lost where no thread falls asleep on something that is due, and
    where nothing becomes due in the step of another thread that it sleeps through. -/
theorem no_lost_wakeup {step : σ → ι × α → Option σ} {inv : σ → Prop} {asleep due : σ → ι → Prop}
    (keeps : Preserves step inv)
    (own : ∀ s t action s', inv s → step s (t,action) = some s' → asleep s' t → ¬ due s' t)
    (others : ∀ s u action s' t, inv s → step s (u,action) = some s' → t ≠ u → asleep s' t → due s' t →
      asleep s t ∧ due s t) :
    Preserves step fun s => inv s ∧ ∀ t, asleep s t → ¬ due s t := by
  refine keeps.and fun s ⟨u,action⟩ s' holds quiet stepped t sleeps due_now => ?_
  by_cases same : t = u
  · subst same
    exact own s t action s' holds stepped sleeps due_now
  · obtain ⟨slept,due_before⟩ := others s u action s' t holds stepped same sleeps due_now
    exact quiet t slept due_before

end IpcPortable.Conditions
