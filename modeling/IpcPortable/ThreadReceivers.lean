import IpcPortable.TransthreadCaller

/-!
The receivers of the threads. `AddTargetThreadId` looks for the thread in one
section and stores the receiver that it created in another, while
`CallFromThread` does both in one. Where the thread is not there yet when the
receiver is stored, a thread keeps its receiver until it ends: what was posted
to it is in the queue of that receiver, and the end of the thread finds every
call that is in progress.
-/
namespace IpcPortable.ThreadReceivers
open IpcPortable.Runs IpcPortable.TransthreadCaller
set_option linter.unusedSectionVars false
variable {Tid : Type} [DecidableEq Tid]

/-- The waiters that the end of the thread is about to resolve. -/
def ending : List (Frame Tid) → List WaiterPtr
  | .finishLoop rest :: _ => rest
  | _ => []

/-- The receivers and the calls. The thread of a call is the one that its
    receiver was created for. -/
structure Registered (s : Caller Tid) (ends : Tid → List WaiterPtr) : Prop where
  owner : ∀ id r, s.threads id = some r → r.thread = id
  /-- The receiver that was stored for a thread is there until the thread ends. -/
  receiver : ∀ id r, .stored id r ∈ s.events → .finished id ∉ s.events → s.threads id = some r
  /-- A call is in the queue of that receiver until it is taken. -/
  queued : ∀ w d, s.waiters w = some d → .taken w ∉ s.events → .finished d.m_receiver_calls.thread ∉ s.events →
    s.threads d.m_receiver_calls.thread = some d.m_receiver_calls ∧ w ∈ (s.receivers d.m_receiver_calls).posted
  /-- A call in progress is one that the end of the thread finds, or is about to resolve. -/
  member : ∀ w d, s.waiters w = some d → d.m_call_state = .cs_inprogress →
    (s.threads d.m_receiver_calls.thread = some d.m_receiver_calls ∧
      w ∈ (s.receivers d.m_receiver_calls).m_call_waiters_receiver) ∨ w ∈ ends d.m_receiver_calls.thread
  fresh : ∀ w, s.next_waiter ≤ w → s.waiters w = none
  called : ∀ w d, s.waiters w = some d → d.m_call_state = .cs_inprogress → d.call = true

variable {s : Caller Tid} {ends : Tid → List WaiterPtr}

/-! ### The operations -/

/-- Nothing leaves the queue or the set. -/
theorem Registered.atReceiver (registered : Registered s ends) (r : ReceiverPtr Tid)
    {change : ThreadCallReceiver Tid → ThreadCallReceiver Tid} (keeps_posted : ∀ c, c.posted ⊆ (change c).posted)
    (keeps_calls : ∀ c, c.m_call_waiters_receiver ⊆ (change c).m_call_waiters_receiver) :
    Registered (s.atReceiver r change) ends := by
  refine ⟨registered.owner,registered.receiver,?_,?_,registered.fresh,registered.called⟩
  · intro w d present queued running
    obtain ⟨there,member⟩ := registered.queued w d present queued running
    refine ⟨there,?_⟩
    by_cases same : d.m_receiver_calls = r
    · rw [atReceiver_receivers,same,Function.update_self]
      exact keeps_posted _ (same ▸ member)
    · rwa [atReceiver_receivers,Function.update_of_ne same]
  · intro w d present inprogress
    rcases registered.member w d present inprogress with ⟨there,member⟩ | about
    · refine .inl ⟨there,?_⟩
      by_cases same : d.m_receiver_calls = r
      · rw [atReceiver_receivers,same,Function.update_self]
        exact keeps_calls _ (same ▸ member)
      · rwa [atReceiver_receivers,Function.update_of_ne same]
    · exact .inr about
theorem Registered.atWaiter (registered : Registered s ends) (v : WaiterPtr)
    {change : CallWaiterPrivate Tid → CallWaiterPrivate Tid}
    (same_receiver : ∀ d, (change d).m_receiver_calls = d.m_receiver_calls)
    (settles : ∀ d, s.waiters v = some d → (change d).m_call_state = .cs_inprogress →
      d.m_call_state = .cs_inprogress ∧ (d.call = true → (change d).call = true)) :
    Registered (s.atWaiter v change) ends := by
  have came : ∀ w d, (s.atWaiter v change).waiters w = some d → ∃ before, s.waiters w = some before ∧
      d.m_receiver_calls = before.m_receiver_calls ∧ (d.m_call_state = .cs_inprogress →
        before.m_call_state = .cs_inprogress ∧ (before.call = true → d.call = true)) := by
    intro w d present
    by_cases same : w = v
    · subst same
      obtain ⟨before,was,rfl⟩ := Option.map_eq_some_iff.mp (by simpa using present)
      exact ⟨before,was,same_receiver before,settles before was⟩
    · exact ⟨d,by simpa [same] using present,rfl,fun inprogress => ⟨inprogress,id⟩⟩
  refine ⟨registered.owner,registered.receiver,?_,?_,?_,?_⟩
  · intro w d present queued running
    obtain ⟨before,was,receiver,-⟩ := came w d present
    rw [receiver] at running ⊢
    exact registered.queued w before was queued running
  · intro w d present inprogress
    obtain ⟨before,was,receiver,settled⟩ := came w d present
    rw [receiver]
    exact registered.member w before was (settled inprogress).1
  · intro w new
    by_cases same : w = v
    · subst same; simp [registered.fresh w new]
    · simp [same,registered.fresh w new]
  · intro w d present inprogress
    obtain ⟨before,was,-,settled⟩ := came w d present
    exact (settled inprogress).2 (registered.called w before was (settled inprogress).1)
theorem Registered.record (registered : Registered s ends) {event : Event Tid} (other : ∀ id r, event ≠ .stored id r) :
    Registered (s.record event) ends := by
  refine ⟨registered.owner,?_,?_,registered.member,registered.fresh,registered.called⟩
  · intro id r stored running
    rcases List.mem_append.mp stored with before | now
    · exact registered.receiver id r before fun ended => running (List.mem_append_left _ ended)
    · exact absurd (List.mem_singleton.mp now).symm (other id r)
  · intro w d present queued running
    exact registered.queued w d present (fun taken => queued (List.mem_append_left _ taken))
      fun ended => running (List.mem_append_left _ ended)
theorem Registered.withLock (registered : Registered s ends) (lock : Option Tid) :
    Registered { s with lock_threads := lock } ends :=
  ⟨registered.owner,registered.receiver,registered.queued,registered.member,registered.fresh,registered.called⟩
theorem Registered.notifyAll (registered : Registered s ends) (r : ReceiverPtr Tid) :
    Registered (s.atReceiver r ThreadCallReceiver.notifyAll) ends :=
  registered.atReceiver r (fun _ => List.Subset.refl _) fun _ => List.Subset.refl _
theorem Registered.resolve (registered : Registered s ends) (w : WaiterPtr) {result : CallState}
    (settled : result ≠ .cs_inprogress) : Registered (s.resolve w result) ends := by
  cases present : s.waiters w with
  | none => rw [resolve_absent s present]; exact registered
  | some d =>
    rw [resolve_present s present]
    refine Registered.record (Registered.notifyAll (registered.atWaiter w ?_ ?_) _) ?_
    · intro _; rfl
    · intro _ _ inprogress; exact absurd inprogress settled
    · rintro id r ⟨⟩
theorem Registered.store (registered : Registered s ends) {id : Tid} {r : ReceiverPtr Tid} (absent : s.threads id = none)
    (owned : r.thread = id) : Registered (s.store id r) ends := by
  have kept : ∀ other found, s.threads other = some found → (s.store id r).threads other = some found := by
    intro other found there
    have differs : other ≠ id := by
      rintro rfl
      cases absent.symm.trans there
    rwa [store_threads,Function.update_of_ne differs]
  refine ⟨?_,?_,?_,?_,registered.fresh,registered.called⟩
  · intro other found there
    by_cases same : other = id
    · subst same
      rw [store_threads,Function.update_self] at there
      exact Option.some.inj there ▸ owned
    · exact registered.owner other found (by simpa [same] using there)
  · intro other found stored running
    rw [store_events] at stored running
    rcases List.mem_append.mp stored with before | now
    · exact kept other found (registered.receiver other found before fun ended => running (List.mem_append_left _ ended))
    · cases List.mem_singleton.mp now
      rw [store_threads,Function.update_self]
  · intro w d present queued running
    rw [store_events] at queued running
    obtain ⟨there,member⟩ := registered.queued w d present (fun taken => queued (List.mem_append_left _ taken))
      fun ended => running (List.mem_append_left _ ended)
    exact ⟨kept _ _ there,member⟩
  · intro w d present inprogress
    rcases registered.member w d present inprogress with ⟨there,member⟩ | about
    · exact .inl ⟨kept _ _ there,member⟩
    · exact .inr about
theorem Registered.createReceiver (registered : Registered s ends) (id : Tid) : Registered (s.createReceiver id).1 ends :=
  ⟨registered.owner,registered.receiver,registered.queued,registered.member,registered.fresh,registered.called⟩
theorem Registered.makeFindThread (registered : Registered s ends) (id : Tid) :
    Registered (s.makeFindThread id).1 ends := by
  cases present : s.threads id with
  | some r => rw [makeFindThread_found s present]; exact registered
  | none =>
    rw [makeFindThread_absent s present]
    exact (registered.createReceiver id).store present rfl
/-- The thread that was found before is there when the other one is found. -/
theorem makeFindThreads_found (registered : Registered s ends) (sender receiver : Tid) :
    (s.makeFindThreads sender receiver).threads (s.makeFindThread receiver).2.thread = some (s.makeFindThread receiver).2 := by
  have there : (s.makeFindThread receiver).1.threads receiver = some (s.makeFindThread receiver).2 := by
    rw [makeFindThread_threads,Function.update_self]
  rw [(registered.makeFindThread receiver).owner _ _ there,Caller.makeFindThreads,makeFindThread_threads]
  by_cases same : receiver = sender
  · subst same
    rw [Function.update_self,makeFindThread_found _ there]
  · rw [Function.update_of_ne same,there]
theorem Registered.posts (registered : Registered s ends) {s' : Caller Tid} {own found : ReceiverPtr Tid}
    (posts : Posts s s' own found) (there : s.threads found.thread = some found) : Registered s' ends := by
  obtain ⟨more,recorded,canceled⟩ := posts.events
  obtain ⟨created,waiters,-,calls,called,-⟩ := posts.waiters
  have was : ∀ w d, s'.waiters w = some d → w = s.next_waiter ∧ d = created ∨ w ≠ s.next_waiter ∧ s.waiters w = some d := by
    intro w d present
    rw [waiters] at present
    by_cases same : w = s.next_waiter
    · subst same
      rw [Function.update_self] at present
      exact .inl ⟨rfl,(Option.some.inj present).symm⟩
    · exact .inr ⟨same,by rwa [Function.update_of_ne same] at present⟩
  refine ⟨?_,?_,?_,?_,?_,?_⟩
  · rw [posts.threads]; exact registered.owner
  · intro id r stored running
    rw [recorded] at stored running
    rw [posts.threads]
    rcases List.mem_append.mp stored with before | now
    · exact registered.receiver id r before fun ended => running (List.mem_append_left _ ended)
    · cases canceled _ now
  · intro w d present queued running
    rw [recorded] at queued running
    rw [posts.threads,posts.posted]
    rcases was w d present with ⟨rfl,rfl⟩ | ⟨-,before⟩
    · rw [calls]
      exact ⟨there,by simp⟩
    · obtain ⟨still,member⟩ := registered.queued w d before (fun taken => queued (List.mem_append_left _ taken))
        fun ended => running (List.mem_append_left _ ended)
      exact ⟨still,List.mem_append_left _ member⟩
  · intro w d present inprogress
    rw [posts.threads,posts.calls]
    rcases was w d present with ⟨rfl,rfl⟩ | ⟨-,before⟩
    · rw [calls]
      exact .inl ⟨there,by simp⟩
    · rcases registered.member w d before inprogress with ⟨still,member⟩ | about
      · exact .inl ⟨still,List.mem_append_right _ member⟩
      · exact .inr about
  · intro w new
    rw [posts.next_waiter] at new
    rw [waiters,Function.update_of_ne (Nat.ne_of_gt new)]
    exact registered.fresh w (Nat.le_of_succ_le new)
  · intro w d present inprogress
    rcases was w d present with ⟨-,rfl⟩ | ⟨-,before⟩
    · exact called
    · exact registered.called w d before inprogress
theorem Registered.postCall (registered : Registered s ends) (sender receiver : Tid) :
    Registered (s.postCall sender receiver).1 ends :=
  Registered.posts ((registered.makeFindThread receiver).makeFindThread sender) (postCall_posts s sender receiver)
    (makeFindThreads_found registered sender receiver)
/-- The call that is taken is recorded as taken. -/
theorem Registered.takes (registered : Registered s ends) {r : ReceiverPtr Tid} {v : WaiterPtr} {rest : List WaiterPtr}
    (queue : (s.receivers r).posted = v :: rest) :
    Registered ((s.atReceiver r fun r => { r with posted := rest }).record (.taken v)) ends := by
  refine ⟨registered.owner,?_,?_,?_,registered.fresh,registered.called⟩
  · intro id found stored running
    have before : .stored id found ∈ s.events := by simpa using stored
    exact registered.receiver id found before (by simpa using running)
  · intro w d present queued running
    have other : w ≠ v := fun same => queued (by simp [same])
    obtain ⟨there,member⟩ := registered.queued w d present (fun taken => queued (by simp [taken])) (by simpa using running)
    refine ⟨there,?_⟩
    rw [record_receivers,atReceiver_at]
    split
    · rename_i same
      rw [same,queue] at member
      exact (List.mem_cons.mp member).resolve_left other
    · exact member
  · intro w d present inprogress
    rcases registered.member w d present inprogress with ⟨there,member⟩ | about
    · refine .inl ⟨there,?_⟩
      rw [record_receivers,atReceiver_at]
      split <;> exact member
    · exact .inr about
/-- A call in progress was not processed, so its waiter is not destroyed. -/
theorem Registered.destroyWaiter (registered : Registered s ends) {v : WaiterPtr} {d : CallWaiterPrivate Tid}
    (present : s.waiters v = some d) (processed : d.call = false) : Registered (s.destroyWaiter v d) ends := by
  refine ⟨?_,?_,?_,?_,?_,?_⟩
  · simpa using registered.owner
  · simpa using registered.receiver
  · intro w other there queued running
    rw [destroyWaiter_field _ ThreadCallReceiver.posted (fun _ _ => rfl) fun _ _ => rfl]
    simp only [destroyWaiter_waiters,destroyWaiter_events,destroyWaiter_threads] at *
    exact registered.queued w other there queued running
  · intro w other there inprogress
    simp only [destroyWaiter_waiters,destroyWaiter_threads] at *
    rcases registered.member w other there inprogress with ⟨still,member⟩ | about
    · have differs : w ≠ v := by
        rintro rfl
        cases present.symm.trans there
        cases processed.symm.trans (registered.called w d present inprogress)
      exact .inl ⟨still,destroyWaiter_calls s differs d _ member⟩
    · exact .inr about
  · simpa using registered.fresh
  · simpa using registered.called
/-- When a thread ends, its loop is about to resolve what its receiver knows of. -/
theorem Registered.finish (registered : Registered s ends) {t : Tid} {r : ReceiverPtr Tid} (found : s.threads t = some r)
    (idle : ends t = []) (lock : Option Tid) :
    Registered ({ s with lock_threads := lock, threads := Function.update s.threads t none }.record (.finished t))
      (Function.update ends t (s.receivers r).m_call_waiters_receiver) := by
  have others : ∀ id, id ≠ t → Function.update s.threads t none id = s.threads id :=
    fun _ other => Function.update_of_ne other _ _
  refine ⟨?_,?_,?_,?_,registered.fresh,registered.called⟩
  · intro id owned there
    by_cases same : id = t
    · subst same; simp at there
    · exact registered.owner id owned (by simpa [same] using there)
  · intro id owned stored running
    have other : id ≠ t := fun same => running (by simp [same])
    exact (others id other).trans
      (registered.receiver id owned (by simpa using stored) fun ended => running (List.mem_append_left _ ended))
  · intro w d present queued running
    have other : d.m_receiver_calls.thread ≠ t := fun same => running (by simp [same])
    obtain ⟨there,member⟩ := registered.queued w d present (fun taken => queued (List.mem_append_left _ taken))
      fun ended => running (List.mem_append_left _ ended)
    exact ⟨(others _ other).trans there,member⟩
  · intro w d present inprogress
    have before := registered.member w d present inprogress
    by_cases same : d.m_receiver_calls.thread = t
    · rw [same,idle,found] at before
      rcases before with ⟨there,member⟩ | about
      · right
        rw [same,Function.update_self,Option.some.inj there]
        exact member
      · cases about
    · rcases before with ⟨there,member⟩ | about
      · exact .inl ⟨(others _ same).trans there,member⟩
      · exact .inr (by rwa [Function.update_of_ne same])
theorem Registered.finishes (registered : Registered s ends) {t : Tid} {w : WaiterPtr} {rest : List WaiterPtr}
    (about : ends t = w :: rest) : Registered (s.setReceiverThreadFinished w) (Function.update ends t rest) := by
  have resolved : Registered (s.resolve w .cs_receiver_thread_finished) ends := registered.resolve w (by decide)
  refine ⟨resolved.owner,resolved.receiver,resolved.queued,?_,resolved.fresh,resolved.called⟩
  intro v d present inprogress
  rcases resolved.member v d present inprogress with there | later
  · exact .inl there
  · right
    by_cases same : d.m_receiver_calls.thread = t
    · rw [same,about] at later
      rw [same,Function.update_self]
      refine (List.mem_cons.mp later).resolve_left ?_
      rintro rfl
      rw [Caller.setReceiverThreadFinished,resolve_waiters,Function.update_self] at present
      obtain ⟨before,-,rfl⟩ := Option.map_eq_some_iff.mp present
      cases inprogress
    · rwa [Function.update_of_ne same]

/-! ### Every step that stores for an absent thread -/

/-- Where `AddTargetThreadId` stores the receiver that it created, no receiver
    was stored for the thread since it looked. -/
def StoresAbsent (s : System Tid) : Tid × Action Tid → Prop
  | (t,.next) =>
    match s.frames t with
    | .addStore id _ :: _ => s.caller.threads id = none
    | _ => True
  | _ => True

/-- What the threads are about to do. -/
structure Kept (s : System Tid) : Prop where
  registered : Registered s.caller fun t => ending (s.frames t)
  stores : ∀ t id r, .addStore id r ∈ s.frames t → r.thread = id

theorem ending_ready {stack : List (Frame Tid)} (is_ready : ready stack) : ending stack = [] := by
  cases stack with
  | nil => rfl
  | cons frame below => cases frame <;> first | rfl | cases is_ready

theorem Registered.idle (registered : Registered s ends) {t : Tid} (idle : ends t = []) (about : List WaiterPtr) :
    Registered s (Function.update ends t about) := by
  refine ⟨registered.owner,registered.receiver,registered.queued,?_,registered.fresh,registered.called⟩
  intro w d present inprogress
  rcases registered.member w d present inprogress with there | later
  · exact .inl there
  · right
    by_cases same : d.m_receiver_calls.thread = t
    · rw [same,idle] at later
      cases later
    · rwa [Function.update_of_ne same]

/-- A step of the topmost frame, with what it is still about to resolve. -/
theorem advanced_registered {s after : Caller Tid} {ends : Tid → List WaiterPtr} {t : Tid} {frame : Frame Tid}
    {frames below : List (Frame Tid)} (advanced : Advanced s t frame after frames) (registered : Registered s ends)
    (about : ends t = ending (frame :: below)) (absent : ∀ id r, frame = .addStore id r → s.threads id = none ∧ r.thread = id) :
    Registered after (Function.update ends t (ending (frames ++ below))) := by
  cases advanced with
  | addCreate id => exact (registered.createReceiver id).idle about _
  | addStore id r => exact (registered.store (absent id r rfl).1 (absent id r rfl).2).idle about _
  | post id => exact (registered.postCall t id).idle about _
  | notify r w =>
    have notified : Registered (s.atReceiver r ThreadCallReceiver.processIncomingCall) ends :=
      registered.atReceiver r (fun _ => List.Subset.refl _) fun _ => List.Subset.refl _
    refine Registered.idle (notified.atWaiter w ?_ ?_) about _
    · intro _; rfl
    · intro _ _ inprogress; exact ⟨inprogress,id⟩
  | raised w d | blocks w d | wakes w d | proceeds w d =>
    refine Registered.idle (Registered.atReceiver registered _ ?_ ?_) about _
    · intro _; exact List.Subset.refl _
    · intro _; exact List.Subset.refl _
  | answers w d =>
    refine Registered.idle (Registered.record (registered.atWaiter w ?_ ?_) ?_) about _
    · intro _; rfl
    · intro _ _ inprogress; exact ⟨inprogress,id⟩
    · rintro id r ⟨⟩
  | takes r w rest queue => exact (registered.takes queue).idle about _
  | callDone w =>
    have resolved : Registered (s.callDone w) ends := registered.resolve w (by decide)
    refine Registered.idle (Registered.atWaiter resolved w ?_ ?_) about _
    · intro _; rfl
    · intro d present inprogress
      rw [Caller.callDone,resolve_waiters,Function.update_self] at present
      obtain ⟨before,-,rfl⟩ := Option.map_eq_some_iff.mp present
      cases inprogress
  | cancel id r set => exact (registered.withLock _).idle about _
  | cancels r w rest => exact (registered.resolve w (by decide)).idle about _
  | canceled r =>
    refine Registered.idle (Registered.atReceiver (registered.withLock none) r ?_ ?_) about _
    · intro _; exact List.Subset.refl _
    · intro _; exact List.Subset.refl _
  | finish r unlocked found => exact registered.finish found about _
  | finishes w rest => exact registered.finishes about
  | finished => exact (registered.withLock none).idle about _
  | _ => exact registered.idle about _

theorem ending_update (frames : Tid → List (Frame Tid)) (t : Tid) (stack : List (Frame Tid)) :
    (fun u => ending (Function.update frames t stack u)) =
      Function.update (fun u => ending (frames u)) t (ending stack) := by
  funext u
  by_cases acts : u = t
  · subst acts; simp
  · simp [acts]
/-- The receiver that `AddTargetThreadId` is about to store was created for its thread. -/
theorem advanced_stores {s after : Caller Tid} {t : Tid} {frame : Frame Tid} {frames : List (Frame Tid)}
    (advanced : Advanced s t frame after frames) {id : Tid} {r : ReceiverPtr Tid} (member : .addStore id r ∈ frames) :
    r.thread = id := by
  cases advanced with
  | addCreate other => simp [Caller.createReceiver] at member; simp [member]
  | _ => simp at member
theorem step_kept {s s' : System Tid} {action : Tid × Action Tid} (kept : Kept s) (absent : StoresAbsent s action)
    (stepped : step s action = some s') : Kept s' := by
  obtain ⟨registered,stores⟩ := kept
  obtain ⟨t,action⟩ := action
  cases step_stepped stepped with
  | start operation caller frame is_ready begins =>
    have idle := ending_ready is_ready
    have begun : Registered caller (fun u => ending (s.frames u)) ∧ ∀ id r, frame ≠ .addStore id r := by
      cases begins with
      | waitProcessing w d present =>
        refine ⟨registered.atWaiter w ?_ ?_,?_⟩
        · intro _; rfl
        · intro _ _ inprogress; exact ⟨inprogress,id⟩
        · rintro id r ⟨⟩
      | _ => exact ⟨registered,by rintro id r ⟨⟩⟩
    refine ⟨?_,?_⟩
    · simp only [ending_update]
      exact begun.1.idle idle _
    · intro u id r member
      by_cases acts : u = t
      · subst acts
        simp only [Function.update_self,List.mem_cons] at member
        rcases member with this | below
        · exact absurd this.symm (begun.2 id r)
        · exact stores u id r below
      · exact stores u id r (by simpa [acts] using member)
  | next frame below after frames top advanced =>
    refine ⟨?_,?_⟩
    · simp only [ending_update]
      refine advanced_registered advanced registered (by rw [top]) ?_
      rintro id r rfl
      exact ⟨by simpa only [StoresAbsent,top] using absent,stores t id r (by simp [top])⟩
    · intro u id r member
      by_cases acts : u = t
      · subst acts
        simp only [Function.update_self,List.mem_append] at member
        rcases member with begins | stayed
        · exact advanced_stores advanced begins
        · exact stores u id r (by rw [top]; exact List.mem_cons_of_mem _ stayed)
      · exact stores u id r (by simpa [acts] using member)
  | release w d present =>
    refine ⟨registered.atWaiter w ?_ ?_,stores⟩
    · intro _; rfl
    · intro _ _ inprogress; exact ⟨inprogress,id⟩
  | destroy w d present processed => exact ⟨registered.destroyWaiter present processed,stores⟩

/-- While `AddTargetThreadId` stores for absent threads, a thread that did not
    end has the receiver that was stored for it, in whose queue is every call
    that was posted to the thread and not taken, and every call in progress is
    one that the end of the thread resolves. -/
theorem receivers_kept {actions : List (Tid × Action Tid)} (absent : Along step StoresAbsent {} actions) :
    let s := run step {} actions
    Registered s.caller fun t => ending (s.frames t) := by
  have init : Kept ({} : System Tid) := {
    registered := ⟨fun _ _ => by simp,fun _ _ => by simp,fun _ _ => by simp,fun _ _ => by simp,fun _ _ => rfl,fun _ _ => by simp⟩
    stores := fun _ _ _ => by simp }
  exact (Along.run (fun s action s' kept meets stepped => step_kept kept meets stepped) init absent).registered

/-- The thread 0 adds the thread 2, and then the thread 1 calls it. -/
theorem receivers_kept_added :
    let s := run step {} [(0,.start (.addTargetThreadId 2)),(0,.next),(0,.next),(0,.next),
      (1,.start (.callFromThread (some 2))),(1,.next)]
    Registered s.caller fun t : Nat => ending (s.frames t) :=
  receivers_kept ⟨fun _ => trivial,fun _ => trivial,fun _ => trivial,fun _ => rfl,fun _ => trivial,fun _ => trivial,trivial⟩

/-- The thread 0 looks for the thread 2, the thread 1 calls it, and then the
    thread 0 stores the receiver that it created. -/
def added_late : List (Nat × Action Nat) :=
  [(0,.start (.addTargetThreadId 2)),(0,.next),(1,.start (.callFromThread (some 2))),(1,.next),(1,.next),(0,.next),(0,.next)]
/-- The thread 2 takes its calls, and ends. -/
def ends_then : List (Nat × Action Nat) :=
  [(2,.start .processCalls),(2,.next),(2,.next),(2,.start .onFinished),(2,.next),(2,.next)]
/-- The receiver was replaced: the call is in progress and in the queue of none
    that the thread knows of, and the end of the thread does not resolve it. -/
theorem receivers_kept_replaced :
    let s := (run step {} added_late).caller
    let s' := (run step {} (added_late ++ ends_then)).caller
    .stored 2 ⟨2,0⟩ ∈ s.events ∧ .finished 2 ∉ s.events ∧ s.threads 2 = some ⟨2,2⟩ ∧
      (s.waiters 0).map CallWaiterPrivate.m_receiver_calls = some ⟨2,0⟩ ∧ .taken 0 ∉ s.events ∧
      (s.receivers ⟨2,2⟩).posted = [] ∧ (s.receivers ⟨2,2⟩).m_call_waiters_receiver = [] ∧
      .finished 2 ∈ s'.events ∧ (run step {} (added_late ++ ends_then)).frames 2 = [] ∧
      (s'.waiters 0).map CallWaiterPrivate.m_call_state = some .cs_inprogress := by
  decide +kernel

end IpcPortable.ThreadReceivers
