import IpcPortable.TransthreadCaller

/-!
Threads that wait. A call that is posted raises the flag of the receiver, and
the thread that waits lowers it and runs its queue until it is empty. While it
runs the queue the flag may be down with calls in it, and a wait that begins
inside one of them would go to sleep on the others. Where none does, no thread
sleeps in `WaitProcessing` when its call is over or a returned call is queued.
-/
namespace IpcPortable.WaitWakeups
open IpcPortable.Runs IpcPortable.TransthreadCaller
set_option linter.unusedSectionVars false
variable {Tid : Type} [DecidableEq Tid]

/-- The state of the waiter has left `cs_inprogress`. -/
def settled (s : Caller Tid) (w : WaiterPtr) : Bool :=
  match s.waiters w with
  | some d => d.m_call_state ≠ .cs_inprogress
  | none => false
/-- The thread runs its queue until it is empty before it can go to sleep:
    above every wait that is not over there is a `ProcessCalls`. -/
def drains (s : Caller Tid) : List (Frame Tid) → Bool
  | [] => false
  | .processCalls :: _ => true
  | .processReceiver _ :: _ => true
  | .wait w point :: below => (point = .leave || settled s w) && drains s below
  | _ :: below => drains s below
/-- The queue holds no call whose `CallFromThread` has returned. -/
def NoneReturned (s : Caller Tid) (r : ReceiverPtr Tid) : Prop :=
  ∀ w ∈ (s.receivers r).posted, ∀ d, s.waiters w = some d → d.returned = false
def raised (s : Caller Tid) (r : ReceiverPtr Tid) : Bool := (s.receivers r).sync.process_incoming_call

/-- Every thread is registered. -/
def allRegistered : System Tid where
  caller := { threads := fun id => some ⟨id,0⟩, next_receiver := 1 }

/-- The step registers no thread. -/
def Finds (s : Caller Tid) (t : Tid) : Frame Tid → Prop
  | .post id => (s.threads id).isSome ∧ (s.threads t).isSome
  | .addStore _ _ => False
  | _ => True
/-- No thread is registered any more. `WaitProcessing` is called by the thread
    that made the call, and where it is called inside a call that the thread
    runs out of its queue, and may have to wait, the flag is up or no returned
    call is in the queue. -/
def Awaits (s : System Tid) : Tid × Action Tid → Prop
  | (t,.start (.waitProcessing w)) => ∀ d, s.caller.waiters w = some d →
    d.m_wait_return_processing_calls.thread = t ∧
      (d.m_call_state = .cs_inprogress → drains s.caller (s.frames t) →
        raised s.caller d.m_wait_return_processing_calls ∨ NoneReturned s.caller d.m_wait_return_processing_calls)
  | (t,.next) =>
    match s.frames t with
    | frame :: _ => Finds s.caller t frame
    | [] => True
  | _ => True

/-- No thread that was not notified sleeps in `WaitProcessing` when its call is
    over or a returned call is in its queue. -/
def Awake (s : System Tid) : Prop :=
  ∀ t w below, s.frames t = .wait w .blocked :: below → ∃ d, s.caller.waiters w = some d ∧
    (t ∈ (s.caller.receivers d.m_wait_return_processing_calls).sync.condition.blocked →
      d.m_call_state = .cs_inprogress ∧ ∀ r, s.caller.threads t = some r → NoneReturned s.caller r)

/-! ### What one step changes -/

/-- A waiter stays, with what its constructor gave it; it does not return to
    `cs_inprogress`, and its call has returned only where it is notified. -/
def Persists (s after : Caller Tid) (frame : Frame Tid) : Prop :=
  ∀ w d, s.waiters w = some d → ∃ d', after.waiters w = some d' ∧
    d'.m_wait_return_processing_calls = d.m_wait_return_processing_calls ∧ d'.m_receiver_calls = d.m_receiver_calls ∧
      (d'.m_call_state = .cs_inprogress → d.m_call_state = .cs_inprogress) ∧
      (d'.returned = true → d.returned = true ∨ ∃ r, frame = .notify r w)

theorem persists_refl {s after : Caller Tid} (same : after.waiters = s.waiters) (frame : Frame Tid) :
    Persists s after frame :=
  fun _ d present => ⟨d,same ▸ present,rfl,rfl,id,.inl⟩
theorem persists_update {s after : Caller Tid} {frame : Frame Tid} {w : WaiterPtr}
    {change : CallWaiterPrivate Tid → CallWaiterPrivate Tid}
    (written : after.waiters = Function.update s.waiters w ((s.waiters w).map change))
    (sync : ∀ d, (change d).m_wait_return_processing_calls = d.m_wait_return_processing_calls)
    (receiver : ∀ d, (change d).m_receiver_calls = d.m_receiver_calls)
    (state : ∀ d, (change d).m_call_state = .cs_inprogress → d.m_call_state = .cs_inprogress)
    (returned : ∀ d, (change d).returned = true → d.returned = true ∨ ∃ r, frame = .notify r w) :
    Persists s after frame := by
  intro v d present
  rw [written]
  by_cases same : v = w
  · subst same
    exact ⟨change d,by rw [Function.update_self,present]; rfl,sync d,receiver d,state d,returned d⟩
  · exact ⟨d,by rwa [Function.update_of_ne same],rfl,rfl,id,.inl⟩

/-- Where both threads are found, nothing is registered. -/
theorem postCall_found {s : Caller Tid} {t id : Tid} {own found : ReceiverPtr Tid} (calls : s.threads id = some found)
    (sends : s.threads t = some own) :
    Posts s (s.postCall t id).1 own found ∧ (s.postCall t id).2 = (found,s.next_waiter) := by
  have posts := postCall_posts s t id
  rw [Caller.makeFindThreads,makeFindThread_found s calls,makeFindThread_found s sends] at posts
  refine ⟨posts,?_⟩
  simp only [Caller.postCall,makeFindThread_found s calls,makeFindThread_found s sends]

section advanced
variable {s after : Caller Tid} {t : Tid} {frame : Frame Tid} {frames : List (Frame Tid)}

theorem finds_posts {id : Tid} (finds : Finds s t (.post id)) :
    ∃ own found, s.threads t = some own ∧ s.threads id = some found ∧ Posts s (s.postCall t id).1 own found ∧
      (s.postCall t id).2 = (found,s.next_waiter) := by
  obtain ⟨found,calls⟩ := Option.isSome_iff_exists.mp finds.1
  obtain ⟨own,sends⟩ := Option.isSome_iff_exists.mp finds.2
  exact ⟨own,found,sends,calls,postCall_found calls sends⟩

/-- What `CallDone` and the end of the call write. -/
theorem callDone_waiters (s : Caller Tid) (w : WaiterPtr) :
    ((s.callDone w).atWaiter w fun d => { d with call := false }).waiters =
      Function.update s.waiters w ((s.waiters w).map fun d => { d with m_call_state := .cs_done, call := false }) := by
  simp [Caller.callDone,Function.comp_def]
theorem advanced_threads (advanced : Advanced s t frame after frames) (finds : Finds s t frame) {id : Tid}
    {r : ReceiverPtr Tid} (there : after.threads id = some r) : s.threads id = some r := by
  cases advanced with
  | addStore other r => exact finds.elim
  | post other =>
    obtain ⟨own,found,-,-,posts,-⟩ := finds_posts finds
    exact posts.threads ▸ there
  | callDone w | cancels r w rest | finishes w rest =>
    simpa [Caller.callDone,Caller.callCancel,Caller.setReceiverThreadFinished] using there
  | finish own unlocked found =>
    by_cases same : id = t
    · subst same; simp at there
    · simpa [same] using there
  | _ => exact there

theorem advanced_persists (advanced : Advanced s t frame after frames) (finds : Finds s t frame)
    (fresh : s.waiters s.next_waiter = none) : Persists s after frame := by
  cases advanced with
  | addStore id r => exact finds.elim
  | post receiver =>
    obtain ⟨own,found,-,-,posts,-⟩ := finds_posts finds
    obtain ⟨created,waiters,-⟩ := posts.waiters
    intro w d present
    have old : w ≠ s.next_waiter := by
      rintro rfl
      cases fresh.symm.trans present
    exact ⟨d,by rwa [waiters,Function.update_of_ne old],rfl,rfl,id,.inl⟩
  | notify r w =>
    exact persists_update (s := s) rfl (fun _ => rfl) (fun _ => rfl) (fun _ => id) fun _ _ => .inr ⟨r,rfl⟩
  | answers w d => exact persists_update (s := s) rfl (fun _ => rfl) (fun _ => rfl) (fun _ => id) fun _ => .inl
  | callDone w =>
    exact persists_update (callDone_waiters s w) (fun _ => rfl) (fun _ => rfl) (fun _ is => by cases is) fun _ => .inl
  | cancels r w rest | finishes w rest =>
    exact persists_update (resolve_waiters s w _) (fun _ => rfl) (fun _ => rfl) (fun _ is => by cases is) fun _ => .inl
  | _ => exact persists_refl rfl _

/-- A waiter that was not there before is the one of a call that is posted. -/
theorem advanced_created (advanced : Advanced s t frame after frames) (finds : Finds s t frame) {w : WaiterPtr}
    {d : CallWaiterPrivate Tid} (there : after.waiters w = some d) : (∃ before, s.waiters w = some before) ∨
      w = s.next_waiter ∧ after.next_waiter = s.next_waiter + 1 ∧ d.returned = false ∧
        s.threads t = some d.m_wait_return_processing_calls := by
  have updated : ∀ {v : WaiterPtr} {change : CallWaiterPrivate Tid → CallWaiterPrivate Tid},
      Function.update s.waiters v ((s.waiters v).map change) w = some d → ∃ before, s.waiters w = some before := by
    intro v change is
    by_cases same : w = v
    · subst same
      obtain ⟨before,was,-⟩ := Option.map_eq_some_iff.mp (by simpa using is)
      exact ⟨before,was⟩
    · exact ⟨d,by simpa [same] using is⟩
  cases advanced with
  | post id =>
    obtain ⟨own,found,sends,-,posts,-⟩ := finds_posts finds
    obtain ⟨created,waiters,sync,-,-,returned⟩ := posts.waiters
    rw [waiters] at there
    by_cases same : w = s.next_waiter
    · subst same
      rw [Function.update_self] at there
      cases there
      exact .inr ⟨rfl,posts.next_waiter,returned,sync ▸ sends⟩
    · exact .inl ⟨d,by rwa [Function.update_of_ne same] at there⟩
  | notify r v => exact .inl (updated there)
  | answers v => exact .inl (updated there)
  | callDone v => exact .inl (updated ((callDone_waiters s v) ▸ there))
  | cancels r v rest => exact .inl (updated ((resolve_waiters s v _) ▸ there))
  | finishes v rest => exact .inl (updated ((resolve_waiters s v _) ▸ there))
  | _ => exact .inl ⟨d,there⟩

/-- A queue gets a call where it is posted. -/
theorem advanced_posted (advanced : Advanced s t frame after frames) (finds : Finds s t frame) {r : ReceiverPtr Tid}
    {w : WaiterPtr} (member : w ∈ (after.receivers r).posted) : w ∈ (s.receivers r).posted ∨
      w = s.next_waiter ∧ ∃ d, after.waiters w = some d ∧ d.m_receiver_calls = r ∧ d.returned = false := by
  have kept : ∀ {q : ReceiverPtr Tid} {change : ThreadCallReceiver Tid → ThreadCallReceiver Tid},
      w ∈ ((s.atReceiver q change).receivers r).posted → (∀ c, (change c).posted ⊆ c.posted) →
        w ∈ (s.receivers r).posted := by
    intro q change there shrinks
    rw [atReceiver_at] at there
    split at there
    · exact shrinks _ there
    · exact there
  have resolved : ∀ {v : WaiterPtr} {outcome : CallState}, w ∈ ((s.resolve v outcome).receivers r).posted →
      w ∈ (s.receivers r).posted := by
    intro v outcome there
    rwa [resolve_field s ThreadCallReceiver.posted fun _ => rfl] at there
  cases advanced with
  | post receiver =>
    obtain ⟨own,found,-,calls,posts,-⟩ := finds_posts finds
    obtain ⟨created,waiters,-,target,-,returned⟩ := posts.waiters
    rw [posts.posted,List.mem_append] at member
    rcases member with before | now
    · exact .inl before
    · split at now
      · rename_i same
        cases List.mem_singleton.mp now
        exact .inr ⟨rfl,created,by rw [waiters,Function.update_self],same ▸ target,returned⟩
      · cases now
  | notify q v => exact .inl (kept member fun _ => List.Subset.refl _)
  | raised v d | blocks v d | wakes v d | proceeds v d => exact .inl (kept member fun _ => List.Subset.refl _)
  | takes q v rest queue =>
    rw [record_receivers,atReceiver_at] at member
    split at member
    · rename_i same
      exact .inl (by rw [same,queue]; exact List.mem_cons_of_mem _ member)
    · exact .inl member
  | callDone v => exact .inl (resolved member)
  | cancels q v rest | finishes v rest => exact .inl (resolved member)
  | canceled q =>
    rw [atReceiver_at] at member
    split at member <;> exact .inl member
  | _ => exact .inl member

/-- A flag goes up where its receiver is notified, and down where a wait lowers it. -/
theorem advanced_raised (advanced : Advanced s t frame after frames) (finds : Finds s t frame) (r : ReceiverPtr Tid) :
    raised after r = raised s r ∨ raised after r = true ∧ (∃ w, frame = .notify r w) ∨
      raised after r = false ∧ ∃ w d, frame = .wait w .enter ∧ s.waiters w = some d ∧
        r = d.m_wait_return_processing_calls ∧ frames = [.processCalls,.wait w .enter] := by
  have kept : ∀ {q : ReceiverPtr Tid} {change : ThreadCallReceiver Tid → ThreadCallReceiver Tid},
      (∀ c, (change c).sync.process_incoming_call = c.sync.process_incoming_call) →
        raised (s.atReceiver q change) r = raised s r :=
    fun same => atReceiver_field s (fun c => c.sync.process_incoming_call) same
  have resolved : ∀ {v : WaiterPtr} {outcome : CallState}, raised (s.resolve v outcome) r = raised s r :=
    resolve_field s (fun c => c.sync.process_incoming_call) fun _ => rfl
  cases advanced with
  | addStore id q => exact finds.elim
  | post receiver =>
    obtain ⟨own,found,-,-,posts,-⟩ := finds_posts finds
    exact .inl (posts.flag r)
  | notify q w =>
    by_cases same : r = q
    · refine .inr (.inl ⟨?_,w,by rw [same]⟩)
      rw [raised,atWaiter_receivers,atReceiver_at,if_pos same]
      rfl
    · refine .inl ?_
      rw [raised,atWaiter_receivers,atReceiver_at,if_neg same]
      rfl
  | raised w d present up =>
    by_cases same : r = d.m_wait_return_processing_calls
    · refine .inr (.inr ⟨?_,w,d,rfl,present,same,rfl⟩)
      rw [raised,atReceiver_at,if_pos same]
    · refine .inl ?_
      rw [raised,atReceiver_at,if_neg same]
      rfl
  | blocks w d | wakes w d | proceeds w d => exact .inl (kept fun _ => rfl)
  | takes q w rest =>
    rw [raised,record_receivers,atReceiver_at]
    split <;> exact .inl rfl
  | callDone w => exact .inl resolved
  | cancels q w rest | finishes w rest => exact .inl resolved
  | canceled q =>
    rw [raised,atReceiver_at]
    split <;> exact .inl rfl
  | _ => exact .inl rfl

/-- Nobody sleeps any more for a waiter whose outcome was written. -/
theorem resolve_sleeps {v : WaiterPtr} {outcome : CallState} {r : ReceiverPtr Tid} {u : Tid}
    (sleeps : u ∈ ((s.resolve v outcome).receivers r).sync.condition.blocked) :
    u ∈ (s.receivers r).sync.condition.blocked ∧
      ∀ w d, s.waiters w = some d → d.m_wait_return_processing_calls = r → (s.resolve v outcome).waiters w = some d := by
  cases present : s.waiters v with
  | none =>
    rw [resolve_absent s present] at sleeps ⊢
    exact ⟨sleeps,fun _ _ there _ => there⟩
  | some resolved =>
    rw [resolve_present s present,record_receivers,atReceiver_at] at sleeps
    split at sleeps
    · cases sleeps
    · rename_i other
      refine ⟨sleeps,?_⟩
      intro w d there sync
      have differs : w ≠ v := by
        rintro rfl
        cases present.symm.trans there
        exact other sync.symm
      rwa [resolve_waiters,Function.update_of_ne differs]

theorem atWaiter_inprogress {v w : WaiterPtr} {change : CallWaiterPrivate Tid → CallWaiterPrivate Tid}
    {d : CallWaiterPrivate Tid} (present : s.waiters w = some d) (inprogress : d.m_call_state = .cs_inprogress)
    (same : ∀ d, (change d).m_call_state = d.m_call_state) :
    ∃ d', (s.atWaiter v change).waiters w = some d' ∧ d'.m_call_state = .cs_inprogress := by
  by_cases changed : w = v
  · subst changed
    exact ⟨change d,by simp [present],(same d).trans inprogress⟩
  · exact ⟨d,by simp [changed,present],inprogress⟩
theorem advanced_down (advanced : Advanced s t frame after frames) (finds : Finds s t frame) {r : ReceiverPtr Tid}
    (unnotified : ∀ w, frame ≠ .notify r w) (down : raised s r = false) : raised after r = false := by
  rcases advanced_raised advanced finds r with same | ⟨-,w,notifies⟩ | ⟨lowered,-⟩
  · exact same.trans down
  · exact absurd notifies (unnotified w)
  · exact lowered

/-- A thread goes on sleeping where its receiver is not notified, its wait does
    not wake up and no outcome is written for it. Else it is the one that steps,
    and goes to sleep. -/
theorem advanced_blocked (advanced : Advanced s t frame after frames) (finds : Finds s t frame)
    (fresh : s.waiters s.next_waiter = none) {r : ReceiverPtr Tid} {u : Tid}
    (sleeps : u ∈ (after.receivers r).sync.condition.blocked) :
    (u ∈ (s.receivers r).sync.condition.blocked ∧ (∀ w, frame ≠ .notify r w) ∧
      (∀ w d, s.waiters w = some d → d.m_wait_return_processing_calls = r → d.m_call_state = .cs_inprogress →
        ∃ d', after.waiters w = some d' ∧ d'.m_call_state = .cs_inprogress) ∧
      ∀ w d, frame = .wait w .blocked → s.waiters w = some d → d.m_wait_return_processing_calls = r → u ≠ t) ∨
    u = t ∧ ∃ w d, frames = [.wait w .blocked] ∧ s.waiters w = some d ∧ after.waiters w = some d ∧
      d.m_wait_return_processing_calls = r ∧ d.m_call_state = .cs_inprogress ∧ raised after r = false := by
  have stay : ∀ w d, s.waiters w = some d → d.m_wait_return_processing_calls = r → d.m_call_state = .cs_inprogress →
      ∃ d', s.waiters w = some d' ∧ d'.m_call_state = .cs_inprogress := fun w d there _ inprogress => ⟨d,there,inprogress⟩
  cases advanced with
  | addStore id q => exact finds.elim
  | post receiver =>
    obtain ⟨own,found,-,-,posts,-⟩ := finds_posts finds
    obtain ⟨created,waiters,-⟩ := posts.waiters
    refine .inl ⟨posts.blocked r sleeps,fun _ => by rintro ⟨⟩,?_,fun _ _ is => by cases is⟩
    intro w d present _ inprogress
    have old : w ≠ s.next_waiter := by
      rintro rfl
      cases fresh.symm.trans present
    exact ⟨d,by rwa [waiters,Function.update_of_ne old],inprogress⟩
  | notify q v =>
    rw [atWaiter_receivers,atReceiver_at] at sleeps
    split at sleeps
    · cases sleeps
    · rename_i other
      refine .inl ⟨sleeps,fun w is => other ?_,?_,fun _ _ is => by cases is⟩
      · cases is; rfl
      · exact fun w d present _ inprogress => atWaiter_inprogress (s := s.atReceiver q _) present inprogress fun _ => rfl
  | raised w d present up =>
    rw [atReceiver_at] at sleeps
    exact .inl ⟨by split at sleeps <;> exact sleeps,fun _ => by rintro ⟨⟩,stay,fun _ _ is => by cases is⟩
  | blocks w d present inprogress down =>
    have lowered := advanced_down (.blocks w d present inprogress down) finds (r := r) (fun _ => by rintro ⟨⟩)
    rw [atReceiver_at] at sleeps
    split at sleeps
    · rename_i same
      rcases Conditions.mem_wait.mp sleeps with now | before
      · exact .inr ⟨now,w,d,rfl,present,present,same.symm,inprogress,lowered (by rw [same]; exact down)⟩
      · exact .inl ⟨before,fun _ => by rintro ⟨⟩,stay,fun _ _ is => by cases is⟩
    · exact .inl ⟨sleeps,fun _ => by rintro ⟨⟩,stay,fun _ _ is => by cases is⟩
  | wakes w d present | proceeds w d present =>
    rw [atReceiver_at] at sleeps
    split at sleeps
    · obtain ⟨before,other⟩ := Conditions.mem_wake.mp sleeps
      exact .inl ⟨before,fun _ => by rintro ⟨⟩,stay,fun _ _ _ _ _ => other⟩
    · rename_i other
      refine .inl ⟨sleeps,fun _ => by rintro ⟨⟩,stay,?_⟩
      rintro v found ⟨⟩ there sync
      cases present.symm.trans there
      exact absurd sync.symm other
  | answers v d =>
    exact .inl ⟨sleeps,fun _ => by rintro ⟨⟩,fun w d there _ inprogress => atWaiter_inprogress there inprogress fun _ => rfl,
      fun _ _ is => by cases is⟩
  | takes q v rest | canceled q =>
    simp only [record_receivers,atReceiver_at] at sleeps
    exact .inl ⟨by split at sleeps <;> exact sleeps,fun _ => by rintro ⟨⟩,stay,fun _ _ is => by cases is⟩
  | callDone v =>
    obtain ⟨slept,kept⟩ := resolve_sleeps sleeps
    exact .inl ⟨slept,fun _ => by rintro ⟨⟩,
      fun w d there sync inprogress => atWaiter_inprogress (kept w d there sync) inprogress fun _ => rfl,
      fun _ _ is => by cases is⟩
  | cancels q v rest | finishes v rest =>
    obtain ⟨slept,kept⟩ := resolve_sleeps sleeps
    exact .inl ⟨slept,fun _ => by rintro ⟨⟩,fun w d there sync inprogress => ⟨d,kept w d there sync,inprogress⟩,
      fun _ _ is => by cases is⟩
  | _ => exact .inl ⟨sleeps,fun _ => by rintro ⟨⟩,stay,fun _ _ is => by cases is⟩

theorem advanced_next_waiter (advanced : Advanced s t frame after frames) (finds : Finds s t frame) :
    s.next_waiter ≤ after.next_waiter := by
  cases advanced with
  | addStore id r => exact finds.elim
  | post receiver =>
    obtain ⟨own,found,-,-,posts,-⟩ := finds_posts finds
    rw [posts.next_waiter]
    exact Nat.le_succ _
  | callDone w => simp [Caller.callDone]
  | cancels r w rest => simp [Caller.callCancel]
  | finishes w rest => simp [Caller.setReceiverThreadFinished]
  | _ => exact Nat.le_refl _
theorem advanced_wait (advanced : Advanced s t frame after frames) {w : WaiterPtr} {point : WaitPoint}
    (member : .wait w point ∈ frames) : ∃ before, frame = .wait w before := by
  cases advanced <;> simp at member <;> exact ⟨_,by rw [member.1]⟩
theorem advanced_notify (advanced : Advanced s t frame after frames) (finds : Finds s t frame) {r : ReceiverPtr Tid}
    {w : WaiterPtr} (member : .notify r w ∈ frames) : ∃ d, after.waiters w = some d ∧ d.m_receiver_calls = r := by
  cases advanced with
  | post receiver =>
    obtain ⟨own,found,-,-,posts,posted⟩ := finds_posts finds
    obtain ⟨created,waiters,-,target,-⟩ := posts.waiters
    rw [posted,List.mem_singleton,Frame.notify.injEq] at member
    obtain ⟨rfl,rfl⟩ := member
    exact ⟨created,by rw [waiters,Function.update_self],target⟩
  | _ => simp at member
theorem advanced_receiver (advanced : Advanced s t frame after frames) {r : ReceiverPtr Tid}
    (member : .processReceiver r ∈ frames) : frame = .processReceiver r ∨ s.threads t = some r := by
  cases advanced with
  | processCalls found there =>
    simp only [List.mem_singleton,Frame.processReceiver.injEq] at member
    exact .inr (member ▸ there)
  | takes q w rest queue => simp at member; exact .inl (by rw [member])
  | _ => simp at member

end advanced

/-! ### What holds in every state -/

/-- Every thread has its first receiver, as long as it has one. The waits of a
    thread are for its calls, and a call is in the queue of the receiver that it
    was posted to. Who sleeps has nothing to do, and what is to be done is
    announced by the flag, or the thread is about to do it. -/
structure Waking (s : System Tid) : Prop where
  fresh : ∀ w, s.caller.next_waiter ≤ w → s.caller.waiters w = none
  own : ∀ id r, s.caller.threads id = some r → r = ⟨id,0⟩
  sync : ∀ w d, s.caller.waiters w = some d →
    d.m_wait_return_processing_calls = ⟨d.m_wait_return_processing_calls.thread,0⟩
  waits : ∀ t w point, .wait w point ∈ s.frames t →
    ∃ d, s.caller.waiters w = some d ∧ d.m_wait_return_processing_calls = ⟨t,0⟩
  notifies : ∀ t r w, .notify r w ∈ s.frames t → ∃ d, s.caller.waiters w = some d ∧ d.m_receiver_calls = r
  queued : ∀ r, ∀ w ∈ (s.caller.receivers r).posted, ∃ d, s.caller.waiters w = some d ∧ d.m_receiver_calls = r
  drained : ∀ t r, .processReceiver r ∈ s.frames t → r = ⟨t,0⟩
  asleep : ∀ r, ∀ t ∈ (s.caller.receivers r).sync.condition.blocked, raised s.caller r = false ∧
    ∃ w below d, s.frames t = .wait w .blocked :: below ∧ s.caller.waiters w = some d ∧
      d.m_wait_return_processing_calls = r ∧ d.m_call_state = .cs_inprogress
  pending : ∀ t, s.caller.threads t = some ⟨t,0⟩ → drains s.caller (s.frames t) = false →
    raised s.caller ⟨t,0⟩ = false → NoneReturned s.caller ⟨t,0⟩

theorem waking_registered : Waking (allRegistered : System Tid) where
  fresh := fun _ _ => rfl
  own := fun _ _ there => (Option.some.inj there).symm
  sync := fun _ _ present => by cases present
  waits := fun _ _ _ member => (List.not_mem_nil member).elim
  notifies := fun _ _ _ member => (List.not_mem_nil member).elim
  queued := fun _ _ member => (List.not_mem_nil member).elim
  drained := fun _ _ member => (List.not_mem_nil member).elim
  asleep := fun _ _ member => (List.not_mem_nil member).elim
  pending := fun _ _ _ _ _ member => (List.not_mem_nil member).elim

theorem waking_awake {s : System Tid} (waking : Waking s) : Awake s := by
  intro t w below top
  obtain ⟨d,present,own⟩ := waking.waits t w .blocked (by rw [top]; exact List.mem_cons_self)
  refine ⟨d,present,?_⟩
  intro sleeps
  obtain ⟨down,v,_,other,same,there,-,inprogress⟩ := waking.asleep _ t sleeps
  cases top.symm.trans same
  cases present.symm.trans there
  refine ⟨inprogress,?_⟩
  intro r registered
  cases waking.own t r registered
  refine waking.pending t registered ?_ (own ▸ down)
  simp [top,drains,settled,present,inprogress]

/-! ### Every step that meets the conditions -/

theorem settled_persists {s after : Caller Tid} {frame : Frame Tid} (persists : Persists s after frame) {w : WaiterPtr}
    (was : settled s w = true) : settled after w = true := by
  unfold settled at was ⊢
  cases present : s.waiters w with
  | none => rw [present] at was; cases was
  | some d =>
    rw [present] at was
    obtain ⟨d',later,-,-,state,-⟩ := persists w d present
    simp only [later,decide_eq_true_eq] at was ⊢
    exact fun back => was (state back)
theorem drains_mono {s after : Caller Tid} (settles : ∀ w, settled s w = true → settled after w = true)
    {stack : List (Frame Tid)} (drain : drains s stack = true) : drains after stack = true := by
  induction stack with
  | nil => exact drain
  | cons frame below ih =>
    cases frame with
    | wait w point =>
      simp only [drains,Bool.and_eq_true,Bool.or_eq_true] at drain ⊢
      exact ⟨drain.1.imp id (settles w),ih drain.2⟩
    | processCalls => rfl
    | processReceiver r => rfl
    | _ => exact ih drain

section advanced
variable {s after : Caller Tid} {t : Tid} {frame : Frame Tid} {frames : List (Frame Tid)}

theorem advanced_notified {r : ReceiverPtr Tid} {w : WaiterPtr} (advanced : Advanced s t (.notify r w) after frames) :
    raised after r = true := by
  cases advanced with
  | notify => rw [raised,atWaiter_receivers,atReceiver_at,if_pos rfl]; rfl

/-- A thread drains its queue until the queue is empty, or the thread is not registered. -/
theorem advanced_drains (advanced : Advanced s t frame after frames) (persists : Persists s after frame)
    {below : List (Frame Tid)} (drain : drains s (frame :: below) = true) :
    drains after (frames ++ below) = true ∨ s.threads t = none ∨
      ∃ r, frame = .processReceiver r ∧ (after.receivers r).posted = [] := by
  have later : ∀ {stack}, drains s stack = true → drains after stack = true :=
    drains_mono fun w => settled_persists persists
  cases advanced with
  | leaves w d present is_settled =>
    simp only [drains,Bool.and_eq_true] at drain
    exact .inl (by simp [drains,drain.2])
  | blocks w d present inprogress down => simp [drains,settled,present,inprogress] at drain
  | wakes w d present is_settled =>
    simp only [drains,Bool.and_eq_true] at drain
    exact .inl (by simpa [drains] using later drain.2)
  | answers w d present =>
    simp only [drains,Bool.and_eq_true] at drain
    exact .inl (later drain.2)
  | raised w d | proceeds w d | processCalls r | takes r w rest => exact .inl rfl
  | unregistered absent => exact .inr (.inl absent)
  | drained r empty => exact .inr (.inr ⟨r,rfl,empty⟩)
  | _ => exact .inl (later drain)

end advanced

/-- Where no queued call returned, none has, until the receiver is notified. -/
theorem noneReturned_next {s : System Tid} {after : Caller Tid} {t : Tid} {frame : Frame Tid} {frames below : List (Frame Tid)}
    (waking : Waking s) (top : s.frames t = frame :: below) (finds : Finds s.caller t frame)
    (advanced : Advanced s.caller t frame after frames) {r : ReceiverPtr Tid} (unnotified : ∀ w, frame ≠ .notify r w)
    (none_returned : NoneReturned s.caller r) : NoneReturned after r := by
  have persists := advanced_persists advanced finds (waking.fresh _ (Nat.le_refl _))
  intro w member d' later
  rcases advanced_posted advanced finds member with before | ⟨-,d,created,-,returned⟩
  · obtain ⟨d,present,target⟩ := waking.queued r w before
    obtain ⟨d'',same,-,-,-,returned⟩ := persists w d present
    cases same.symm.trans later
    cases is_returned : d'.returned with
    | false => rfl
    | true =>
      rcases returned is_returned with was | ⟨q,notified⟩
      · exact was.symm.trans (none_returned w before d present)
      · obtain ⟨other,there,its⟩ := waking.notifies t q w (by rw [top,notified]; exact List.mem_cons_self)
        cases there.symm.trans present
        exact absurd notified (its.symm.trans target ▸ unnotified w)
  · cases created.symm.trans later
    exact returned

/-- Who sleeps after a step of a frame has nothing to do: it slept before, or
    there was nothing to do when it fell asleep. -/
theorem asleep_next {s : System Tid} {after : Caller Tid} {t u : Tid} {frame : Frame Tid} {frames below : List (Frame Tid)}
    (waking : Waking s) (top : s.frames t = frame :: below) (finds : Finds s.caller t frame)
    (advanced : Advanced s.caller t frame after frames) {r : ReceiverPtr Tid}
    (sleeps : u ∈ (after.receivers r).sync.condition.blocked) :
    raised after r = false ∧ ∃ w rest d, Function.update s.frames t (frames ++ below) u = .wait w .blocked :: rest ∧
      after.waiters w = some d ∧ d.m_wait_return_processing_calls = r ∧ d.m_call_state = .cs_inprogress := by
  have fresh := waking.fresh s.caller.next_waiter (Nat.le_refl _)
  have persists := advanced_persists advanced finds fresh
  rcases advanced_blocked advanced finds fresh sleeps with ⟨slept,unnotified,states,wakes⟩ | ⟨rfl,w,d,begins,-,later,own,inprogress,down⟩
  · obtain ⟨down,w,rest,d,waits,present,own,inprogress⟩ := waking.asleep r u slept
    have other : u ≠ t := by
      rintro rfl
      cases top.symm.trans waits
      exact wakes w d rfl present own rfl
    obtain ⟨d',later,inprogress'⟩ := states w d present own inprogress
    obtain ⟨d'',same,sync,-⟩ := persists w d present
    cases same.symm.trans later
    exact ⟨advanced_down advanced finds unnotified down,w,rest,d',(Function.update_of_ne other _ _).trans waits,
      later,sync.trans own,inprogress'⟩
  · exact ⟨down,w,below,d,(Function.update_self _ _ _).trans (by rw [begins]; rfl),later,own,inprogress⟩
/-- What a step of a frame puts into a queue is announced, or its thread runs its calls. -/
theorem pending_next {s : System Tid} {after : Caller Tid} {t u : Tid} {frame : Frame Tid} {frames below : List (Frame Tid)}
    (waking : Waking s) (top : s.frames t = frame :: below) (finds : Finds s.caller t frame)
    (advanced : Advanced s.caller t frame after frames) (registered : after.threads u = some ⟨u,0⟩)
    (idle : drains after (Function.update s.frames t (frames ++ below) u) = false) (down : raised after ⟨u,0⟩ = false) :
    NoneReturned after ⟨u,0⟩ := by
  have persists := advanced_persists advanced finds (waking.fresh s.caller.next_waiter (Nat.le_refl _))
  have on_top : frame ∈ s.frames t := by rw [top]; exact List.mem_cons_self
  have was := advanced_threads advanced finds registered
  have unnotified : ∀ w, frame ≠ .notify ⟨u,0⟩ w := by
    rintro w rfl
    cases (advanced_notified advanced).symm.trans down
  have idle_here : u = t → drains after (frames ++ below) = false := by
    rintro rfl
    simpa using idle
  have idle_there : u ≠ t → drains after (s.frames u) = false := fun other => by simpa [other] using idle
  -- The queue is empty, or nothing was pending before.
  have before : NoneReturned after ⟨u,0⟩ ∨ NoneReturned s.caller ⟨u,0⟩ := by
    rcases advanced_raised advanced finds ⟨u,0⟩ with same | ⟨up,-⟩ | ⟨-,w,d,rfl,present,lowers,begins⟩
    · cases drain : drains s.caller (s.frames u) with
      | false => exact .inr (waking.pending u was drain (same.symm.trans down))
      | true =>
        by_cases acts : u = t
        · subst acts
          rw [top] at drain
          rcases advanced_drains advanced persists drain with still | absent | ⟨r,rfl,empty⟩
          · cases (idle_here rfl).symm.trans still
          · cases absent.symm.trans was
          · cases waking.drained u r on_top
            exact .inl fun w member => absurd member (by rw [empty]; exact List.not_mem_nil)
        · have still := drains_mono (fun w => settled_persists persists) drain
          cases (idle_there acts).symm.trans still
    · cases up.symm.trans down
    · obtain ⟨other,there,own⟩ := waking.waits t w .enter on_top
      cases present.symm.trans there
      cases lowers.trans own
      cases (begins ▸ idle_here rfl : drains after ([.processCalls,.wait w .enter] ++ below) = false)
  rcases before with now | before
  · exact now
  · exact noneReturned_next waking top finds advanced unnotified before
theorem waking_next {s : System Tid} {after : Caller Tid} {t : Tid} {frame : Frame Tid} {frames below : List (Frame Tid)}
    (waking : Waking s) (top : s.frames t = frame :: below) (finds : Finds s.caller t frame)
    (advanced : Advanced s.caller t frame after frames) :
    Waking { caller := after, frames := Function.update s.frames t (frames ++ below) } := by
  have fresh := waking.fresh s.caller.next_waiter (Nat.le_refl _)
  have persists := advanced_persists advanced finds fresh
  have on_top : frame ∈ s.frames t := by rw [top]; exact List.mem_cons_self
  refine ⟨?fresh,?own,?sync,?waits,?notifies,?queued,?drained,?asleep,?pending⟩
  case fresh =>
    intro w new
    cases later : after.waiters w with
    | none => rfl
    | some d =>
      rcases advanced_created advanced finds later with ⟨before,present⟩ | ⟨rfl,next,-⟩
      · cases (waking.fresh w (Nat.le_trans (advanced_next_waiter advanced finds) new)).symm.trans present
      · simp only [next] at new
        exact absurd new (Nat.not_succ_le_self _)
  case own => exact fun id r there => waking.own id r (advanced_threads advanced finds there)
  case sync =>
    intro w d later
    rcases advanced_created advanced finds later with ⟨before,present⟩ | ⟨-,-,-,sends⟩
    · obtain ⟨d',there,sync,-⟩ := persists w before present
      cases there.symm.trans later
      rw [sync]
      exact waking.sync w before present
    · rw [waking.own t _ sends]
  case waits =>
    intro u w point member
    have before : ∃ point, .wait w point ∈ s.frames u := by
      rcases mem_update_frames top member with ⟨rfl,begins⟩ | stayed
      · obtain ⟨before,rfl⟩ := advanced_wait advanced begins
        exact ⟨before,on_top⟩
      · exact ⟨point,stayed⟩
    obtain ⟨before,was⟩ := before
    obtain ⟨d,present,own⟩ := waking.waits u w before was
    obtain ⟨d',later,sync,-⟩ := persists w d present
    exact ⟨d',later,sync.trans own⟩
  case notifies =>
    intro u r w member
    rcases mem_update_frames top member with ⟨-,begins⟩ | stayed
    · exact advanced_notify advanced finds begins
    · obtain ⟨d,present,target⟩ := waking.notifies u r w stayed
      obtain ⟨d',later,-,receiver,-⟩ := persists w d present
      exact ⟨d',later,receiver.trans target⟩
  case queued =>
    intro r w member
    rcases advanced_posted advanced finds member with before | ⟨-,d,created,target,-⟩
    · obtain ⟨d,present,target⟩ := waking.queued r w before
      obtain ⟨d',later,-,receiver,-⟩ := persists w d present
      exact ⟨d',later,receiver.trans target⟩
    · exact ⟨d,created,target⟩
  case drained =>
    intro u r member
    rcases mem_update_frames top member with ⟨rfl,begins⟩ | stayed
    · rcases advanced_receiver advanced begins with same | found
      · exact waking.drained u r (same ▸ on_top)
      · exact waking.own u r found
    · exact waking.drained u r stayed
  case asleep => exact fun r u sleeps => asleep_next waking top finds advanced sleeps
  case pending => exact fun u registered idle down => pending_next waking top finds advanced registered idle down

/-- What the other steps leave as it was. -/
structure Same (s after : Caller Tid) : Prop where
  threads : after.threads = s.threads
  next_waiter : after.next_waiter = s.next_waiter
  posted : ∀ r, (after.receivers r).posted = (s.receivers r).posted
  sync : ∀ r, (after.receivers r).sync = (s.receivers r).sync
  waiters : ∀ w, (after.waiters w).map
      (fun d => (d.m_wait_return_processing_calls,d.m_receiver_calls,d.m_call_state,d.returned)) =
    (s.waiters w).map fun d => (d.m_wait_return_processing_calls,d.m_receiver_calls,d.m_call_state,d.returned)

theorem same_atWaiter (s : Caller Tid) (w : WaiterPtr) {change : CallWaiterPrivate Tid → CallWaiterPrivate Tid}
    (same : ∀ d, ((change d).m_wait_return_processing_calls,(change d).m_receiver_calls,(change d).m_call_state,
      (change d).returned) = (d.m_wait_return_processing_calls,d.m_receiver_calls,d.m_call_state,d.returned)) :
    Same s (s.atWaiter w change) := by
  refine ⟨rfl,rfl,fun _ => rfl,fun _ => rfl,?_⟩
  intro v
  by_cases changed : v = w
  · subst changed
    simp [Function.comp_def,same]
  · simp [changed]
theorem same_destroyWaiter (s : Caller Tid) (w : WaiterPtr) (d : CallWaiterPrivate Tid) : Same s (s.destroyWaiter w d) :=
  ⟨by simp,by simp,fun _ => destroyWaiter_field s ThreadCallReceiver.posted (fun _ _ => rfl) fun _ _ => rfl,
    fun _ => destroyWaiter_field s ThreadCallReceiver.sync (fun _ _ => rfl) fun _ _ => rfl,by simp⟩

theorem Same.present {s after : Caller Tid} (same : Same s after) {w : WaiterPtr} {d : CallWaiterPrivate Tid}
    (present : s.waiters w = some d) : ∃ d', after.waiters w = some d' ∧
      d'.m_wait_return_processing_calls = d.m_wait_return_processing_calls ∧ d'.m_receiver_calls = d.m_receiver_calls ∧
      d'.m_call_state = d.m_call_state ∧ d'.returned = d.returned := by
  have kept := same.waiters w
  rw [present,Option.map_some] at kept
  obtain ⟨d',later,equal⟩ := Option.map_eq_some_iff.mp kept
  simp only [Prod.mk.injEq] at equal
  exact ⟨d',later,equal⟩
theorem Same.symm {s after : Caller Tid} (same : Same s after) : Same after s :=
  ⟨same.threads.symm,same.next_waiter.symm,fun r => (same.posted r).symm,fun r => (same.sync r).symm,
    fun w => (same.waiters w).symm⟩
theorem Same.settled {s after : Caller Tid} (same : Same s after) {w : WaiterPtr} (is_settled : settled s w = true) :
    settled after w = true := by
  unfold WaitWakeups.settled at is_settled ⊢
  cases present : s.waiters w with
  | none => rw [present] at is_settled; cases is_settled
  | some d =>
    obtain ⟨d',later,-,-,state,-⟩ := same.present present
    rw [present] at is_settled
    simpa [later,state] using is_settled

theorem waking_same {s : System Tid} {after : Caller Tid} (waking : Waking s) (same : Same s.caller after) :
    Waking { s with caller := after } := by
  have lowered : ∀ r, raised after r = raised s.caller r := fun r => congrArg WaitSync.process_incoming_call (same.sync r)
  refine ⟨?fresh,?own,?sync,?waits,?notifies,?queued,waking.drained,?asleep,?pending⟩
  case fresh =>
    intro w new
    have absent := same.waiters w
    rw [waking.fresh w (same.next_waiter ▸ new)] at absent
    exact Option.map_eq_none_iff.mp absent
  case own => exact fun id r there => waking.own id r (same.threads ▸ there)
  case sync =>
    intro w d present
    obtain ⟨before,was,sync,-⟩ := same.symm.present present
    exact sync ▸ waking.sync w before was
  case waits =>
    intro t w point member
    obtain ⟨d,present,own⟩ := waking.waits t w point member
    obtain ⟨d',later,sync,-⟩ := same.present present
    exact ⟨d',later,sync.trans own⟩
  case notifies =>
    intro t r w member
    obtain ⟨d,present,target⟩ := waking.notifies t r w member
    obtain ⟨d',later,-,receiver,-⟩ := same.present present
    exact ⟨d',later,receiver.trans target⟩
  case queued =>
    intro r w member
    obtain ⟨d,present,target⟩ := waking.queued r w (same.posted r ▸ member)
    obtain ⟨d',later,-,receiver,-⟩ := same.present present
    exact ⟨d',later,receiver.trans target⟩
  case asleep =>
    intro r t sleeps
    obtain ⟨down,w,below,d,waits,present,own,inprogress⟩ := waking.asleep r t (same.sync r ▸ sleeps)
    obtain ⟨d',later,sync,-,state,-⟩ := same.present present
    exact ⟨(lowered r).trans down,w,below,d',waits,later,sync.trans own,state.trans inprogress⟩
  case pending =>
    intro t registered idle down w member d' later
    obtain ⟨d,present,-,-,-,returned⟩ := same.symm.present later
    have was_idle : drains s.caller (s.frames t) = false := by
      cases drain : drains s.caller (s.frames t) with
      | false => rfl
      | true => cases idle.symm.trans (drains_mono (fun w => same.settled) drain)
    exact returned.symm.trans (waking.pending t (same.threads ▸ registered) was_idle ((lowered _).symm.trans down) w
      (same.posted _ ▸ member) d present)

/-- An operation begins. -/
theorem waking_begins {s : System Tid} {t : Tid} {frame : Frame Tid} (waking : Waking s) (is_ready : ready (s.frames t))
    (waits : ∀ w point, frame = .wait w point → ∃ d, s.caller.waiters w = some d ∧ d.m_wait_return_processing_calls = ⟨t,0⟩)
    (notifies : ∀ r w, frame ≠ .notify r w) (receivers : ∀ r, frame ≠ .processReceiver r)
    (pending : drains s.caller (frame :: s.frames t) = false → drains s.caller (s.frames t) = false ∨
      raised s.caller ⟨t,0⟩ ∨ NoneReturned s.caller ⟨t,0⟩) :
    Waking { s with frames := Function.update s.frames t (frame :: s.frames t) } := by
  have new : ∀ {u other}, other ∈ Function.update s.frames t (frame :: s.frames t) u → u = t ∧ other = frame ∨ other ∈ s.frames u := by
    intro u other member
    by_cases acts : u = t
    · subst acts
      rw [Function.update_self] at member
      exact (List.mem_cons.mp member).imp (fun same => ⟨rfl,same⟩) id
    · exact .inr (by rwa [Function.update_of_ne acts] at member)
  refine ⟨waking.fresh,waking.own,waking.sync,?waits,?notifies,waking.queued,?drained,?asleep,?pending⟩
  case waits =>
    intro u w point member
    rcases new member with ⟨rfl,same⟩ | there
    · exact waits w point same.symm
    · exact waking.waits u w point there
  case notifies =>
    intro u r w member
    rcases new member with ⟨-,same⟩ | there
    · exact absurd same.symm (notifies r w)
    · exact waking.notifies u r w there
  case drained =>
    intro u r member
    rcases new member with ⟨-,same⟩ | there
    · exact absurd same.symm (receivers r)
    · exact waking.drained u r there
  case asleep =>
    intro r u sleeps
    obtain ⟨down,w,below,d,blocked,rest⟩ := waking.asleep r u sleeps
    have other : u ≠ t := by
      rintro rfl
      rw [blocked] at is_ready
      cases is_ready
    exact ⟨down,w,below,d,(Function.update_of_ne other _ _).trans blocked,rest⟩
  case pending =>
    intro u registered idle down
    by_cases acts : u = t
    · subst acts
      rcases pending (by simpa using idle) with before | up | none_returned
      · exact waking.pending u registered before down
      · cases up.symm.trans down
      · exact none_returned
    · exact waking.pending u registered (by simpa [acts] using idle) down

theorem step_waking {s s' : System Tid} {action : Tid × Action Tid} (waking : Waking s) (awaits : Awaits s action)
    (stepped : step s action = some s') : Waking s' := by
  obtain ⟨t,action⟩ := action
  cases step_stepped stepped with
  | start operation caller frame is_ready begins =>
    cases begins with
    | waitProcessing w d present =>
      obtain ⟨calls,inside⟩ := awaits d present
      have own : d.m_wait_return_processing_calls = ⟨t,0⟩ := by rw [waking.sync w d present,calls]
      refine waking_same (waking_begins waking is_ready ?_ ?_ ?_ ?_) (same_atWaiter s.caller w fun _ => rfl)
      · rintro v point ⟨⟩
        exact ⟨d,present,own⟩
      · rintro r v ⟨⟩
      · rintro r ⟨⟩
      · intro idle
        cases is_settled : settled s.caller w with
        | true => exact .inl (by simpa [drains,is_settled] using idle)
        | false =>
          cases drain : drains s.caller (s.frames t) with
          | false => exact .inl rfl
          | true =>
            have inprogress : d.m_call_state = .cs_inprogress := by simpa [settled,present] using is_settled
            exact .inr (own ▸ inside inprogress drain)
    | processCalls =>
      refine waking_begins waking is_ready ?_ ?_ ?_ ?_
      · rintro v point ⟨⟩
      · rintro r v ⟨⟩
      · rintro r ⟨⟩
      · intro idle
        cases idle
    | _ =>
      refine waking_begins waking is_ready ?_ ?_ ?_ .inl
      · rintro v point ⟨⟩
      · rintro r v ⟨⟩
      · rintro r ⟨⟩
  | next frame below after frames top advanced =>
    exact waking_next waking top (by simpa only [Awaits,top] using awaits) advanced
  | release w d present => exact waking_same waking (same_atWaiter s.caller w fun _ => rfl)
  | destroy w d present processed => exact waking_same waking (same_destroyWaiter s.caller w d)

/-- Where every thread is registered before, threads wait for their own calls,
    and a wait that begins inside a call out of the queue finds the flag up or
    no returned call in the queue, no thread sleeps on what is to be done. -/
theorem no_sleep_on_work {actions : List (Tid × Action Tid)} (awaits : Along step Awaits allRegistered actions) :
    Awake (run step allRegistered actions) :=
  waking_awake (awaits.run (fun _ _ _ waking awaits stepped => step_waking waking awaits stepped) waking_registered)

/-- The thread 0 calls the thread 1, waits, and is woken up to process a call of
    the thread 1. -/
theorem no_sleep_on_work_calls :
    Awake (run step allRegistered [(0,.start (.callFromThread (some 1))),(0,.next),(0,.next),(0,.start (.waitProcessing 0)),
      (0,.next),(1,.start (.callFromThread (some 0))),(1,.next),(1,.next),(0,.next)]) := by
  refine no_sleep_on_work ⟨fun _ => trivial,fun _ => ⟨rfl,rfl⟩,fun _ => trivial,fun _ d present => ?_,fun _ => trivial,
    fun _ => trivial,fun _ => ⟨rfl,rfl⟩,fun _ => trivial,fun _ => trivial,trivial⟩
  cases present
  exact ⟨rfl,fun _ drain => by cases drain⟩

/-- The thread 0 calls the thread 1, which calls it two times. It waits, lowers
    the flag and takes the first of the two, inside which it calls the thread 1
    again and waits. -/
def nested_wait : List (Nat × Action Nat) :=
  [(0,.start (.callFromThread (some 1))),(0,.next),(0,.next),
    (1,.start (.callFromThread (some 0))),(1,.next),(1,.next),(1,.start (.callFromThread (some 0))),(1,.next),(1,.next),
    (0,.start (.waitProcessing 0)),(0,.next),(0,.next),(0,.next),
    (0,.start (.callFromThread (some 1))),(0,.next),(0,.next),(0,.start (.waitProcessing 3)),(0,.next)]
theorem nested_wait_sleeps : ¬ Awake (run step allRegistered nested_wait) := by
  have top : (run step allRegistered nested_wait).frames 0 =
      [.wait 3 .blocked,.body (some 1),.processReceiver ⟨0,0⟩,.wait 0 .enter] := by decide +kernel
  have sleeps : 0 ∈ ((run step allRegistered nested_wait).caller.receivers ⟨0,0⟩).sync.condition.blocked := by decide +kernel
  have queued : 2 ∈ ((run step allRegistered nested_wait).caller.receivers ⟨0,0⟩).posted := by decide +kernel
  have own : ((run step allRegistered nested_wait).caller.waiters 3).map CallWaiterPrivate.m_wait_return_processing_calls =
      some ⟨0,0⟩ := by decide +kernel
  have returned : ((run step allRegistered nested_wait).caller.waiters 2).map CallWaiterPrivate.returned = some true := by
    decide +kernel
  have registered : (run step allRegistered nested_wait).caller.threads 0 = some ⟨0,0⟩ := by decide +kernel
  intro awake
  obtain ⟨d,present,idle⟩ := awake 0 3 _ top
  rw [present,Option.map_some,Option.some.injEq] at own
  obtain ⟨other,there,has_returned⟩ := Option.map_eq_some_iff.mp returned
  have not_returned := (idle (own ▸ sleeps)).2 _ registered 2 queued other there
  cases has_returned.symm.trans not_returned

end IpcPortable.WaitWakeups
