import IpcPortable.Conditions

/-!
`TaskRunnerThread`: a thread that executes the tasks that are posted to it. It tests
`m_exit` and the queue outside of the lock, the one after the other, before it waits
for either. The tasks are executed once each in the order in which they were posted,
and all of them before the destructor returns (`tasks_in_order`), which it does
(`destructor_returns`).
-/
namespace IpcPortable.TaskRunners
open IpcPortable.Runs IpcPortable.Conditions
variable {Task : Type}

/-- Where `Run` is. -/
inductive Point (Task : Type)
  /-- Before `!m_exit` in the condition of the loop. -/
  | testExit
  /-- Before `!m_task_queue.empty()`. -/
  | testQueue
  /-- Before the section, or in its wait. -/
  | locking
  /-- A task was taken out of the queue. -/
  | invoking (task : Task)
  | finished
deriving DecidableEq

/-- The members, where the thread is, and for the record the tasks that were posted
    and those that were executed. -/
structure TaskRunner (Task : Type) where
  m_exit : Bool := false
  m_task_queue : List Task := []
  m_cond_var : Condition Unit := {}
  point : Point Task := .testExit
  joined : Bool := false
  posted : List Task := []
  invoked : List Task := []

/-- `PostTask`; only one thread waits, so `notify_one` notifies all. -/
def TaskRunner.postTask (s : TaskRunner Task) (task : Task) : TaskRunner Task :=
  { s with m_task_queue := s.m_task_queue ++ [task], m_cond_var := s.m_cond_var.notifyAll, posted := s.posted ++ [task] }
/-- The section of the destructor. -/
def TaskRunner.exit (s : TaskRunner Task) : TaskRunner Task := { s with m_exit := true, m_cond_var := s.m_cond_var.notifyAll }
/-- A step of `Run`. -/
def TaskRunner.run (s : TaskRunner Task) : Option (TaskRunner Task) :=
  match s.point with
  | .testExit => some { s with point := if s.m_exit then .testQueue else .locking }
  | .testQueue => some { s with point := if s.m_task_queue.isEmpty then .finished else .locking }
  | .locking =>
    if () ∈ s.m_cond_var.blocked then none
    else match s.m_task_queue, s.m_exit with
      | [], false => some { s with m_cond_var := s.m_cond_var.wait () }
      | [], true => some { s with point := .testExit }
      | task :: tasks, _ => some { s with m_task_queue := tasks, point := .invoking task }
  | .invoking task => some { s with point := .testExit, invoked := s.invoked ++ [task] }
  | .finished => none

inductive Action (Task : Type)
  | post (task : Task)
  /-- The task that is executed posts another one. -/
  | postInside (task : Task)
  | exit
  | run
  /-- The thread wakes up without a notification. -/
  | wake
  /-- The `join` of the destructor returns. -/
  | join
/-- A step; once the destructor was called only the tasks use the object. -/
def step (s : TaskRunner Task) : Action Task → Option (TaskRunner Task)
  | .post task => if s.m_exit then none else some (s.postTask task)
  | .postInside task => match s.point with
    | .invoking _ => some (s.postTask task)
    | _ => none
  | .exit => if s.m_exit then none else some s.exit
  | .run => s.run
  | .wake => if () ∈ s.m_cond_var.blocked then some { s with m_cond_var := s.m_cond_var.wake () } else none
  | .join => match s.m_exit, s.point with
    | true, .finished => some { s with joined := true }
    | _, _ => none

/-- The task that is executed. -/
def Point.task : Point Task → List Task
  | .invoking task => [task]
  | _ => []

structure Inv (s : TaskRunner Task) : Prop where
  order : s.posted = s.invoked ++ s.point.task ++ s.m_task_queue
  tested : s.point = .testQueue → s.m_exit = true
  finished : s.point = .finished → s.m_exit = true ∧ s.m_task_queue = []
  asleep : () ∈ s.m_cond_var.blocked → s.point = .locking ∧ s.m_task_queue = [] ∧ s.m_exit = false
  joined : s.joined = true → s.point = .finished

/-! ### One step -/

theorem postTask_inv {s : TaskRunner Task} (inv : Inv s) (running' : s.point ≠ .finished) (task : Task) : Inv (s.postTask task) where
  order := by
    simp only [TaskRunner.postTask,inv.order,List.append_assoc]
  tested := inv.tested
  finished := fun ends => absurd ends running'
  asleep := fun none => (by cases none)
  joined := inv.joined

theorem exit_inv {s : TaskRunner Task} (inv : Inv s) : Inv s.exit where
  order := inv.order
  tested := fun _ => rfl
  finished := fun ends => ⟨rfl,(inv.finished ends).2⟩
  asleep := fun none => (by cases none)
  joined := inv.joined

/-- What a step of `Run` does. -/
inductive Runs (s : TaskRunner Task) : TaskRunner Task → Prop
  | goes (at_point : s.point = .testExit) (running : s.m_exit = false) : Runs s { s with point := .locking }
  | exits (at_point : s.point = .testExit) (leaving : s.m_exit = true) : Runs s { s with point := .testQueue }
  | ends (at_point : s.point = .testQueue) (empty : s.m_task_queue = []) : Runs s { s with point := .finished }
  | continues (at_point : s.point = .testQueue) (more : s.m_task_queue ≠ []) : Runs s { s with point := .locking }
  | sleeps (at_point : s.point = .locking) (empty : s.m_task_queue = []) (running : s.m_exit = false) :
      Runs s { s with m_cond_var := s.m_cond_var.wait () }
  | returns (at_point : s.point = .locking) (awake : () ∉ s.m_cond_var.blocked) (empty : s.m_task_queue = [])
      (leaving : s.m_exit = true) : Runs s { s with point := .testExit }
  | takes {task : Task} {tasks : List Task} (at_point : s.point = .locking) (awake : () ∉ s.m_cond_var.blocked)
      (more : s.m_task_queue = task :: tasks) : Runs s { s with m_task_queue := tasks, point := .invoking task }
  | invokes {task : Task} (at_point : s.point = .invoking task) :
      Runs s { s with point := .testExit, invoked := s.invoked ++ [task] }

theorem run_runs {s s' : TaskRunner Task} (ran : s.run = some s') : Runs s s' := by
  unfold TaskRunner.run at ran
  split at ran
  · rename_i at_point
    by_cases leaving : s.m_exit = true
    · rw [if_pos leaving] at ran
      cases ran
      exact .exits at_point leaving
    · rw [if_neg leaving] at ran
      cases ran
      exact .goes at_point (Bool.not_eq_true _ ▸ leaving)
  · rename_i at_point
    by_cases empty : s.m_task_queue.isEmpty = true
    · rw [if_pos empty] at ran
      cases ran
      exact .ends at_point (List.isEmpty_iff.mp empty)
    · rw [if_neg empty] at ran
      cases ran
      exact .continues at_point (fun none => empty (List.isEmpty_iff.mpr none))
  · rename_i at_point
    split at ran
    · cases ran
    · rename_i awake
      split at ran
      · cases ran
        exact .sleeps at_point (by assumption) (by assumption)
      · cases ran
        exact .returns at_point awake (by assumption) (by assumption)
      · cases ran
        exact .takes at_point awake (by assumption)
  · rename_i at_point
    cases ran
    exact .invokes at_point
  · cases ran

theorem runs_inv {s s' : TaskRunner Task} (inv : Inv s) (ran : Runs s s') : Inv s' := by
  have awake (elsewhere : s.point ≠ .locking) : () ∉ s.m_cond_var.blocked := fun sleeps =>
    elsewhere (inv.asleep sleeps).1
  have order := inv.order
  have unjoined (running' : s.point ≠ .finished) : s.joined ≠ true := fun joined => running' (inv.joined joined)
  cases ran with
  | goes at_point running =>
    rw [at_point] at awake unjoined order
    exact ⟨order,nofun,nofun,fun sleeps => absurd sleeps (awake nofun),fun joined => absurd joined (unjoined nofun)⟩
  | exits at_point leaving =>
    rw [at_point] at awake unjoined order
    exact ⟨order,fun _ => leaving,nofun,fun sleeps => absurd sleeps (awake nofun),fun joined => absurd joined (unjoined nofun)⟩
  | ends at_point empty =>
    have leaving := inv.tested at_point
    rw [at_point] at awake unjoined order
    exact ⟨order,nofun,fun _ => ⟨leaving,empty⟩,fun sleeps => absurd sleeps (awake nofun),fun _ => rfl⟩
  | continues at_point more =>
    rw [at_point] at awake unjoined order
    exact ⟨order,nofun,nofun,fun sleeps => absurd sleeps (awake nofun),fun joined => absurd joined (unjoined nofun)⟩
  | sleeps at_point empty running =>
    exact ⟨order,inv.tested,inv.finished,fun _ => ⟨at_point,empty,running⟩,inv.joined⟩
  | returns at_point awake' empty leaving =>
    rw [at_point] at unjoined order
    exact ⟨order,nofun,nofun,fun sleeps => absurd sleeps awake',fun joined => absurd joined (unjoined nofun)⟩
  | takes at_point awake' more =>
    rw [at_point,more] at order
    rw [at_point] at unjoined
    refine ⟨?_,nofun,nofun,fun sleeps => absurd sleeps awake',fun joined => absurd joined (unjoined nofun)⟩
    simpa [Point.task] using order
  | invokes at_point =>
    rw [at_point] at awake unjoined order
    refine ⟨?_,nofun,nofun,fun sleeps => absurd sleeps (awake nofun),fun joined => absurd joined (unjoined nofun)⟩
    simpa [Point.task] using order

theorem step_inv : Preserves step (Inv : TaskRunner Task → Prop) := by
  intro s action s' inv stepped
  cases action with
  | post task =>
    by_cases leaving : s.m_exit = true
    · rw [step,if_pos leaving] at stepped
      cases stepped
    · rw [step,if_neg leaving] at stepped
      cases stepped
      exact postTask_inv inv (fun ends => leaving (inv.finished ends).1) task
  | postInside task =>
    simp only [step] at stepped
    split at stepped
    · rename_i running at_point
      cases stepped
      exact postTask_inv inv (by rw [at_point]; nofun) task
    · cases stepped
  | exit =>
    by_cases leaving : s.m_exit = true
    · rw [step,if_pos leaving] at stepped
      cases stepped
    · rw [step,if_neg leaving] at stepped
      cases stepped
      exact exit_inv inv
  | run => exact runs_inv inv (run_runs stepped)
  | wake =>
    by_cases blocked : () ∈ s.m_cond_var.blocked
    · rw [step,if_pos blocked] at stepped
      cases stepped
      exact ⟨inv.order,inv.tested,inv.finished,fun sleeps => absurd rfl (mem_wake.mp sleeps).2,inv.joined⟩
    · rw [step,if_neg blocked] at stepped
      cases stepped
  | join =>
    simp only [step] at stepped
    split at stepped
    · rename_i ends
      cases stepped
      exact ⟨inv.order,inv.tested,inv.finished,inv.asleep,fun _ => ends⟩
    · cases stepped

/-! ### Every run -/

theorem start_inv : Inv ({} : TaskRunner Task) where
  order := rfl
  tested := fun now => (by cases now)
  finished := fun now => (by cases now)
  asleep := fun now => (by cases now)
  joined := fun now => (by cases now)

theorem run_inv (actions : List (Action Task)) : Inv (run step {} actions) := step_inv.run start_inv actions

/-- The tasks are executed once each, in the order in which they were posted, and all of
    them before the destructor returns; the thread sleeps only while there is none. -/
theorem tasks_in_order (actions : List (Action Task)) :
    (run step {} actions).posted =
        (run step {} actions).invoked ++ (run step {} actions).point.task ++ (run step {} actions).m_task_queue ∧
      ((run step {} actions).joined = true → (run step {} actions).invoked = (run step {} actions).posted) ∧
      (() ∈ (run step {} actions).m_cond_var.blocked →
        (run step {} actions).m_task_queue = [] ∧ (run step {} actions).m_exit = false) := by
  have inv := run_inv actions
  refine ⟨inv.order,fun joined => ?_,fun sleeps => (inv.asleep sleeps).2⟩
  have ends := inv.joined joined
  have order := inv.order
  rw [ends,(inv.finished ends).2] at order
  simpa [Point.task] using order.symm

/-- How many steps `Run` makes at most before it ends, when it is to end. -/
def TaskRunner.left (s : TaskRunner Task) : Nat :=
  4 * s.m_task_queue.length + match s.point with
    | .testExit => 2
    | .testQueue => 1
    | .locking => if s.m_task_queue.isEmpty then 3 else 0
    | .invoking _ => 3
    | .finished => 0

theorem run_left {s : TaskRunner Task} (inv : Inv s) (leaving : s.m_exit = true) (running' : s.left ≠ 0) :
    ∃ s', step s .run = some s' ∧ s'.left + 1 = s.left ∧ s'.m_exit = true ∧ s'.posted = s.posted := by
  have awake : () ∉ s.m_cond_var.blocked := fun sleeps => by
    have running := (inv.asleep sleeps).2.2
    cases leaving.symm.trans running
  obtain ⟨m_exit,m_task_queue,m_cond_var,point,joined,posted,invoked⟩ := s
  obtain rfl : m_exit = true := leaving
  cases point with
  | testExit => exact ⟨_,rfl,rfl,rfl,rfl⟩
  | testQueue => cases m_task_queue <;> exact ⟨_,rfl,rfl,rfl,rfl⟩
  | locking =>
    cases m_task_queue with
    | nil => exact ⟨_,if_neg awake,rfl,rfl,rfl⟩
    | cons task tasks =>
      refine ⟨_,if_neg awake,?_,rfl,rfl⟩
      simp only [TaskRunner.left,List.length_cons,List.isEmpty_cons,Bool.false_eq_true,if_false]
      omega
  | invoking _ => exact ⟨_,rfl,rfl,rfl,rfl⟩
  | finished =>
    obtain rfl : m_task_queue = [] := (inv.finished rfl).2
    cases running' rfl

theorem run_finishes {s : TaskRunner Task} (inv : Inv s) (leaving : s.m_exit = true) :
    ∃ s', run step s (List.replicate s.left .run) = s' ∧ Inv s' ∧ s'.left = 0 ∧ s'.m_exit = true ∧ s'.posted = s.posted := by
  generalize bound : s.left = n
  induction n generalizing s with
  | zero => exact ⟨s,rfl,inv,bound,leaving,rfl⟩
  | succ n ih =>
    obtain ⟨s',stepped,fewer,leaving',same⟩ := run_left inv leaving (by omega)
    obtain ⟨s'',reached,inv',none,still,posted⟩ := ih (step_inv s .run s' inv stepped) leaving' (by omega)
    refine ⟨s'',?_,inv',none,still,posted.trans same⟩
    rw [List.replicate_succ,run,stepped,Option.getD_some,reached]

/-- Once the destructor is called, and when the tasks post no other ones, `Run` ends
    after so many steps: every task that was posted was executed, and `join` returns. -/
theorem destructor_returns (actions : List (Action Task)) (leaving : (run step {} actions).m_exit = true) :
    ∃ ended, run step (run step {} actions) (List.replicate (run step {} actions).left .run ++ [.join]) = ended ∧
      ended.joined = true ∧ ended.invoked = (run step {} actions).posted := by
  obtain ⟨s,reached,inv,none,still,posted⟩ := run_finishes (run_inv actions) leaving
  have ends : s.point = .finished := by
    unfold TaskRunner.left at none
    revert none
    cases s.point with
    | finished => exact fun _ => rfl
    | locking =>
      cases s.m_task_queue with
      | nil => exact fun none => (by cases none)
      | cons _ _ =>
        intro none
        simp only [List.length_cons] at none
        omega
    | _ =>
      intro none
      simp only at none
      omega
  refine ⟨{ s with joined := true },?_,rfl,?_⟩
  · rw [run_append,reached]
    simp only [run,step,still,ends,Option.getD_some]
  · have order := inv.order
    rw [ends,(inv.finished ends).2,posted] at order
    simpa [Point.task] using order.symm

theorem destructor_returns_two :
    ∃ ended, run step (run step {} [.post 1,.run,.post 2,.exit]) (List.replicate
        (run step {} [.post 1,.run,.post 2,.exit]).left Action.run ++ [.join]) = ended ∧
      ended.joined = true ∧ ended.invoked = (run step {} [.post 1,.run,.post 2,.exit]).posted ∧ ended.posted = [1,2] := by
  obtain ⟨ended,reached,joined,invoked⟩ := destructor_returns [.post 1,.run,.post 2,.exit] (by decide)
  exact ⟨ended,reached,joined,invoked,reached ▸ by decide⟩

end IpcPortable.TaskRunners
