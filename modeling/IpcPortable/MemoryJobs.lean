import IpcPortable.Monitors
import IpcPortable.ProcMaps

/-!
`IpcTransthread_Memory`: a queue of jobs for each thread, all of them under one lock
and with one condition variable. A job for `Id()` is invoked where it is posted. Every
other one is taken once, by a wait for its thread and in the order in which they were
posted, and a wait ends without a job only after the cancellation, when all jobs of its
thread were taken (`jobs_in_order`).
-/
namespace IpcPortable.MemoryJobs
open IpcPortable.Runs IpcPortable.Monitors
open IpcPortable.ProcMaps (ThreadId)
variable {Tid Job : Type} [DecidableEq Tid]

/-- The members of `IpcTransthread_Memory`; a queue that is not in the map yet is empty. -/
structure TransthreadMemory (Job : Type) where
  m_cancel_wait : Bool := false
  m_job_queue : ThreadId → List Job := fun _ => []

inductive Call (Job : Type)
  | callFromThread (thread_id : ThreadId) (job : Job)
  | waitFromThread (thread_id : ThreadId)
  | cancelWait
inductive Answer (Job : Type)
  | nothing
  /-- The job was invoked by the call itself. -/
  | invoked (job : Job)
  | waited (job : Option Job)

/-- The predicate of the wait. -/
def ready (s : TransthreadMemory Job) : Call Job → Bool
  | .waitFromThread thread_id => s.m_cancel_wait || !(s.m_job_queue thread_id).isEmpty
  | _ => true
/-- `CallFromThread`, `WaitFromThread` behind the wait, and `CancelWait`. -/
def act (s : TransthreadMemory Job) : Call Job → TransthreadMemory Job × Answer Job
  | .callFromThread none job => (s,.invoked job)
  | .callFromThread (some id) job =>
    ({ s with m_job_queue := Function.update s.m_job_queue (some id) (s.m_job_queue (some id) ++ [job]) },.nothing)
  | .waitFromThread thread_id =>
    match s.m_job_queue thread_id with
    | [] => (s,.waited none)
    | job :: jobs => ({ s with m_job_queue := Function.update s.m_job_queue thread_id jobs },.waited (some job))
  | .cancelWait => ({ s with m_cancel_wait := true },.nothing)
def notifies : Call Job → Bool
  | .callFromThread thread_id _ => thread_id.isSome
  | .waitFromThread _ => false
  | .cancelWait => true
def transthreadMemory : Monitor (TransthreadMemory Job) (Call Job) (Answer Job) := { ready, act, notifies }

/-- The job was posted to the queue of the thread. -/
def posted (id : Nat) : Call Job × Answer Job → Option Job
  | (.callFromThread thread_id job,_) => if thread_id = some id then some job else none
  | _ => none
/-- A wait for the thread returned the job. -/
def taken (id : Nat) : Call Job × Answer Job → Option Job
  | (.waitFromThread thread_id,.waited job) => if thread_id = some id then job else none
  | _ => none
def isCancel : Call Job → Bool
  | .cancelWait => true
  | _ => false

/-! ### One call -/

/-- A wait finds nothing, or takes the first job. -/
theorem wait_cases (s : TransthreadMemory Job) (thread_id : ThreadId) :
    (s.m_job_queue thread_id = [] ∧ act s (.waitFromThread thread_id) = (s,.waited none)) ∨
      ∃ job jobs, s.m_job_queue thread_id = job :: jobs ∧ act s (.waitFromThread thread_id) =
        ({ s with m_job_queue := Function.update s.m_job_queue thread_id jobs },.waited (some job)) := by
  cases present : s.m_job_queue thread_id with
  | nil => exact .inl ⟨rfl,by rw [act,present]⟩
  | cons job jobs => exact .inr ⟨job,jobs,rfl,by rw [act,present]⟩

theorem unready_waits {s : TransthreadMemory Job} {op : Call Job} (unready : ready s op = false) :
    ∃ thread_id, op = .waitFromThread thread_id ∧ s.m_cancel_wait = false ∧ s.m_job_queue thread_id = [] := by
  cases op with
  | callFromThread _ _ | cancelWait => cases unready
  | waitFromThread thread_id =>
    simp only [ready,Bool.or_eq_false_iff,Bool.not_eq_false',List.isEmpty_iff] at unready
    exact ⟨thread_id,rfl,unready.1,unready.2⟩

theorem transthreadMemory_wakes : Wakes (transthreadMemory : Monitor (TransthreadMemory Job) (Call Job) (Answer Job)) := by
  intro s op other _ unready ready'
  obtain ⟨waiting,rfl,active,empty⟩ := unready_waits unready
  cases op with
  | cancelWait => rfl
  | callFromThread thread_id job =>
    cases thread_id with
    | some _ => rfl
    | none => cases unready.symm.trans ready'
  | waitFromThread thread_id =>
    rcases wait_cases s thread_id with ⟨_,same⟩ | ⟨job,jobs,present,same⟩
    · simp [transthreadMemory,same,ready,active,empty] at ready'
    · have other : waiting ≠ thread_id := by
        rintro rfl
        cases empty.symm.trans present
      simp [transthreadMemory,same,ready,active,Function.update_of_ne other,empty] at ready'

/-- What was posted for a thread is what was taken for it, and what is in its queue. -/
def InOrder (s : TransthreadMemory Job) (ops : List (Call Job × Answer Job)) : Prop :=
  ∀ id, ops.filterMap (posted id) = ops.filterMap (taken id) ++ s.m_job_queue (some id)

theorem act_inOrder {s : TransthreadMemory Job} {ops : List (Call Job × Answer Job)} {op : Call Job} (order : InOrder s ops) :
    InOrder (act s op).1 (ops ++ [(op,(act s op).2)]) := by
  intro id
  rw [List.filterMap_append,List.filterMap_append,order id]
  cases op with
  | cancelWait => simp [act,posted,taken,List.filterMap_cons]
  | callFromThread thread_id job =>
    cases thread_id with
    | none => simp [act,posted,taken,List.filterMap_cons]
    | some own =>
      by_cases same : own = id
      · simp [act,posted,taken,List.filterMap_cons,same]
      · simp [act,posted,taken,List.filterMap_cons,same,Function.update_of_ne (show some id ≠ some own by simp [Ne.symm same])]
  | waitFromThread thread_id =>
    rcases wait_cases s thread_id with ⟨_,same⟩ | ⟨job,jobs,present,same⟩
    · simp [same,posted,taken,List.filterMap_cons]
    · by_cases own : thread_id = some id
      · subst own
        simp [same,present,posted,taken,List.filterMap_cons]
      · simp [same,posted,taken,List.filterMap_cons,own,Function.update_of_ne (Ne.symm own)]

/-- The flag tells whether the waiting was cancelled. -/
def Cancelled (s : TransthreadMemory Job) (ops : List (Call Job × Answer Job)) : Prop :=
  s.m_cancel_wait = ops.any fun entry => isCancel entry.1

theorem act_cancelled {s : TransthreadMemory Job} {ops : List (Call Job × Answer Job)} {op : Call Job}
    (cancelled : Cancelled s ops) : Cancelled (act s op).1 (ops ++ [(op,(act s op).2)]) := by
  unfold Cancelled at cancelled ⊢
  rw [List.any_append,← cancelled]
  cases op with
  | cancelWait => simp [act,isCancel]
  | callFromThread thread_id _ => cases thread_id <;> simp [act,isCancel]
  | waitFromThread thread_id =>
    rcases wait_cases s thread_id with ⟨_,same⟩ | ⟨job,jobs,_,same⟩ <;> simp [same,isCancel]

/-! ### Every run -/

/-- In every run the jobs that were posted for a thread were taken by waits for it, once
    each and in order, or are still in its queue; and a wait that returned without a job
    came after a cancellation, when nothing that was posted for its thread was left. -/
theorem jobs_in_order (deeds : List (Tid × Deed (Call Job))) (id : Nat) :
    picked (posted id) (run (step transthreadMemory) { state := {} } deeds).record =
        picked (taken id) (run (step transthreadMemory) { state := {} } deeds).record ++
          (run (step transthreadMemory) { state := {} } deeds).state.m_job_queue (some id) ∧
      ∀ before t after, (run (step transthreadMemory) { state := {} } deeds).record =
          before ++ (t,.waitFromThread (some id),.waited none) :: after →
        (∃ entry ∈ before, isCancel entry.2.1 = true) ∧ picked (posted id) before = picked (taken id) before := by
  have replays := run_sequential (transthreadMemory : Monitor (TransthreadMemory Job) (Call Job) (Answer Job)) {} deeds
  have order {ops : List (Call Job × Answer Job)} {s : TransthreadMemory Job} (reached : Replays transthreadMemory {} ops s) :
      InOrder s ops :=
    reached.holds InOrder (fun _ => rfl) fun _ _ _ order _ => act_inOrder order
  have cancelled {ops : List (Call Job × Answer Job)} {s : TransthreadMemory Job} (reached : Replays transthreadMemory {} ops s) :
      Cancelled s ops :=
    reached.holds Cancelled rfl fun _ _ _ flag _ => act_cancelled flag
  refine ⟨?_,?_⟩
  · have all := order replays id
    rwa [List.filterMap_map,List.filterMap_map] at all
  · intro before t after same
    rw [same,List.map_append,List.map_cons] at replays
    obtain ⟨between,first,ready',answer,_⟩ := replays.split
    have empty : between.m_job_queue (some id) = [] := by
      rcases wait_cases between (some id) with ⟨none,_⟩ | ⟨job,jobs,_,took⟩
      · exact none
      · rw [show (transthreadMemory.act between (.waitFromThread (some id))).2 = .waited (some job) by
          simp only [transthreadMemory,took]] at answer
        cases answer
    have flag : between.m_cancel_wait = true := by
      simpa [transthreadMemory,ready,empty] using ready'
    have behind := order first id
    rw [empty,List.append_nil,List.filterMap_map,List.filterMap_map] at behind
    refine ⟨?_,behind⟩
    have some := (cancelled first).symm.trans flag
    rw [List.any_map,List.any_eq_true] at some
    exact some

/-- Whoever sleeps waits for a thread whose queue is empty, and nothing was cancelled. -/
theorem waits_awake (deeds : List (Tid × Deed (Call Job))) {t : Tid}
    (sleeps : t ∈ (run (step transthreadMemory) { state := {} } deeds).condition.blocked) :
    ∃ thread_id, (run (step transthreadMemory) { state := {} } deeds).inside t = some (.waitFromThread thread_id) ∧
      (run (step transthreadMemory) { state := {} } deeds).state.m_cancel_wait = false ∧
      (run (step transthreadMemory) { state := {} } deeds).state.m_job_queue thread_id = [] := by
  obtain ⟨op,inside,unready⟩ := run_awake transthreadMemory_wakes {} deeds sleeps
  obtain ⟨thread_id,rfl,active,empty⟩ := unready_waits unready
  exact ⟨thread_id,inside,active,empty⟩

theorem waits_awake_worker : ∃ thread_id,
    (run (step (transthreadMemory : Monitor (TransthreadMemory Nat) (Call Nat) (Answer Nat))) { state := {} }
      [((),Deed.enter (.waitFromThread (some 1))),((),.hold)]).inside () = some (.waitFromThread thread_id) ∧
    (run (step (transthreadMemory : Monitor (TransthreadMemory Nat) (Call Nat) (Answer Nat))) { state := {} }
      [((),Deed.enter (.waitFromThread (some 1))),((),.hold)]).state.m_cancel_wait = false ∧
    (run (step (transthreadMemory : Monitor (TransthreadMemory Nat) (Call Nat) (Answer Nat))) { state := {} }
      [((),Deed.enter (.waitFromThread (some 1))),((),.hold)]).state.m_job_queue thread_id = [] :=
  waits_awake [((),.enter (.waitFromThread (some 1))),((),.hold)] (by decide)

end IpcPortable.MemoryJobs
