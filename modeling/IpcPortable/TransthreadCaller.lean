import IpcPortable.Conditions

/-!
`MAssIpc_TransthreadCaller`: threads that call each other. A call is posted to
the receiver of a thread, and whoever made it can wait for its outcome; a thread
that waits runs the calls that are posted to itself. A thread is a stack of
frames; a step of its topmost frame is a section that holds a lock, or code
between two of them. `PostEvent` appends to a queue of the receiver, and
`ProcessReceiver` runs what is in the queue until it is empty.
-/
namespace IpcPortable.TransthreadCaller
open IpcPortable.Runs IpcPortable.Conditions
set_option linter.unusedSectionVars false
variable {Tid : Type} [DecidableEq Tid]

/-- `CallWaiter::CallState`. -/
inductive CallState
  | cs_no_call
  | cs_inprogress
  | cs_canceled
  | cs_done
  | cs_receiver_thread_finished
deriving DecidableEq

/-- A pointer to a `ThreadCallReceiver`: the thread it was created for and a number. -/
structure ReceiverPtr (Tid : Type) where
  thread : Tid
  serial : Nat
deriving DecidableEq
/-- A pointer to a `CallWaiterPrivate`. Every posted call has its own, so it
    names the call, too. -/
abbrev WaiterPtr := Nat

/-- `WaitSync`. -/
structure WaitSync (Tid : Type) where
  process_incoming_call : Bool := false
  condition : Condition Tid := {}
/-- `ThreadCallReceiver`, and the calls that were posted to it; a set of waiters
    is the list of its elements. -/
structure ThreadCallReceiver (Tid : Type) where
  m_call_waiters_sender : Option (List WaiterPtr) := some []
  m_call_waiters_receiver : List WaiterPtr := []
  sync : WaitSync Tid := {}
  posted : List WaiterPtr := []
/-- `CallWaiterPrivate`. The sync and the sets are those of receivers. What
    refers to it: the user, once the call returned it, the threads that wait for
    it, and the call. -/
structure CallWaiterPrivate (Tid : Type) where
  m_call_state : CallState := .cs_inprogress
  m_wait_return_processing_calls : ReceiverPtr Tid
  m_sender_calls : Option (ReceiverPtr Tid)
  m_receiver_calls : ReceiverPtr Tid
  returned : Bool := false
  handle : Bool := true
  waits : Nat := 0
  call : Bool := true

/-- What happened, for the record. -/
inductive Event (Tid : Type)
  /-- A receiver was stored for the thread. -/
  | stored (id : Tid) (r : ReceiverPtr Tid)
  /-- The state of the waiter was written. -/
  | resolved (w : WaiterPtr) (outcome : CallState)
  /-- `WaitProcessing` returned. -/
  | waited (t : Tid) (w : WaiterPtr) (outcome : CallState)
  /-- The call was taken out of the queue. -/
  | taken (w : WaiterPtr)
  /-- `OnFinished_ReceiverThread` removed the receiver of the thread. -/
  | finished (id : Tid)
deriving DecidableEq

/-- What the threads share. The map of the receivers has the initial members
    for those that were not created yet. -/
structure Caller (Tid : Type) where
  lock_threads : Option Tid := none
  threads : Tid → Option (ReceiverPtr Tid) := fun _ => none
  receivers : ReceiverPtr Tid → ThreadCallReceiver Tid := fun _ => {}
  waiters : WaiterPtr → Option (CallWaiterPrivate Tid) := fun _ => none
  next_receiver : Nat := 0
  next_waiter : WaiterPtr := 0
  events : List (Event Tid) := []

/-! ### The waiters -/

def Caller.atReceiver (s : Caller Tid) (r : ReceiverPtr Tid)
    (change : ThreadCallReceiver Tid → ThreadCallReceiver Tid) : Caller Tid :=
  { s with receivers := Function.update s.receivers r (change (s.receivers r)) }
def Caller.atWaiter (s : Caller Tid) (w : WaiterPtr) (change : CallWaiterPrivate Tid → CallWaiterPrivate Tid) : Caller Tid :=
  { s with waiters := Function.update s.waiters w ((s.waiters w).map change) }
def Caller.record (s : Caller Tid) (event : Event Tid) : Caller Tid := { s with events := s.events ++ [event] }
def ThreadCallReceiver.notifyAll (r : ThreadCallReceiver Tid) : ThreadCallReceiver Tid :=
  { r with sync.condition := r.sync.condition.notifyAll }

/-- The state is written, and the threads that wait with the same sync are notified. -/
def Caller.resolve (s : Caller Tid) (w : WaiterPtr) (outcome : CallState) : Caller Tid :=
  match s.waiters w with
  | some d =>
    ((s.atWaiter w fun d => { d with m_call_state := outcome }).atReceiver d.m_wait_return_processing_calls
      ThreadCallReceiver.notifyAll).record (.resolved w outcome)
  | none => s
/-- `CallDone`. -/
def Caller.callDone (s : Caller Tid) (w : WaiterPtr) : Caller Tid := s.resolve w .cs_done
/-- `CallCancel`. -/
def Caller.callCancel (s : Caller Tid) (w : WaiterPtr) : Caller Tid := s.resolve w .cs_canceled
/-- `SetReceiverThreadFinished`. -/
def Caller.setReceiverThreadFinished (s : Caller Tid) (w : WaiterPtr) : Caller Tid :=
  s.resolve w .cs_receiver_thread_finished

/-- The constructor of `CallWaiterPrivate`, for the calls of the receiver `own`
    to the receiver `found`. -/
def Caller.createWaiter (s : Caller Tid) (own found : ReceiverPtr Tid) : Caller Tid :=
  let w := s.next_waiter
  let present := (s.receivers own).m_call_waiters_sender.isSome
  let created : CallWaiterPrivate Tid := {
    m_wait_return_processing_calls := own
    m_sender_calls := if present then some own else none
    m_receiver_calls := found }
  (({ s with
    next_waiter := w + 1
    waiters := Function.update s.waiters w (some created) }).atReceiver own fun r =>
      { r with m_call_waiters_sender := r.m_call_waiters_sender.map (w :: ·) }).atReceiver found fun r =>
        { r with m_call_waiters_receiver := w :: r.m_call_waiters_receiver }
/-- The destructor. -/
def Caller.destroyWaiter (s : Caller Tid) (w : WaiterPtr) (d : CallWaiterPrivate Tid) : Caller Tid :=
  let s := match d.m_sender_calls with
    | some own => s.atReceiver own fun r =>
        { r with m_call_waiters_sender := r.m_call_waiters_sender.map (List.filter (· ≠ w)) }
    | none => s
  s.atReceiver d.m_receiver_calls fun r => { r with m_call_waiters_receiver := r.m_call_waiters_receiver.filter (· ≠ w) }

/-! ### The sections -/

/-- `threads[id] = r`. -/
def Caller.store (s : Caller Tid) (id : Tid) (r : ReceiverPtr Tid) : Caller Tid :=
  ({ s with threads := Function.update s.threads id (some r) }).record (.stored id r)
/-- `CreateReceiver`. -/
def Caller.createReceiver (s : Caller Tid) (id : Tid) : Caller Tid × ReceiverPtr Tid :=
  ({ s with next_receiver := s.next_receiver + 1 },⟨id,s.next_receiver⟩)
/-- `MakeFindThread`; its caller holds the lock, so `AddTargetThreadId` is not interrupted here. -/
def Caller.makeFindThread (s : Caller Tid) (id : Tid) : Caller Tid × ReceiverPtr Tid :=
  match s.threads id with
  | some r => (s,r)
  | none =>
    let created := s.createReceiver id
    (created.1.store id created.2,created.2)
/-- The section of `CallFromThread`: the waiter is created and the call is
    posted. It answers where it was posted to, and the waiter. -/
def Caller.postCall (s : Caller Tid) (sender receiver : Tid) : Caller Tid × ReceiverPtr Tid × WaiterPtr :=
  let found := s.makeFindThread receiver
  let own := found.1.makeFindThread sender
  let w := own.1.next_waiter
  let s := own.1.createWaiter own.2 found.2
  let s := if (s.receivers own.2).m_call_waiters_sender.isNone then s.callCancel w else s
  (s.atReceiver found.2 fun r => { r with posted := r.posted ++ [w] },found.2,w)
/-- `WaitSync::ProcessIncomingCall`. -/
def ThreadCallReceiver.processIncomingCall (r : ThreadCallReceiver Tid) : ThreadCallReceiver Tid :=
  { r with sync := { process_incoming_call := true, condition := r.sync.condition.notifyAll } }

/-! ### The threads -/

/-- Where a thread is in `WaitProcessing`. -/
inductive WaitPoint
  /-- At the head of the loop. -/
  | enter
  /-- In `condition.wait`. -/
  | blocked
  /-- Behind the loop. -/
  | leave
deriving DecidableEq
inductive Frame (Tid : Type)
  /-- `AddTargetThreadId` before its first section, between the two, and before the second. -/
  | addCheck (id : Tid)
  | addCreate (id : Tid)
  | addStore (id : Tid) (r : ReceiverPtr Tid)
  /-- `CallFromThread` before its section, and before `ProcessIncomingCall`. -/
  | post (receiver_thread_id : Tid)
  | notify (r : ReceiverPtr Tid) (w : WaiterPtr)
  | wait (w : WaiterPtr) (point : WaitPoint)
  /-- `ProcessCalls` before its section, and in `ProcessReceiver`. -/
  | processCalls
  | processReceiver (r : ReceiverPtr Tid)
  /-- `CallFromTargetThread`, which is code of the user, and the end of
      `ProcessCallFromTargetThread`. A direct call has no waiter. -/
  | body (call : Option WaiterPtr)
  | callDone (call : Option WaiterPtr)
  /-- `CancelDisableWaitingCall` before its section, and the loop in it. -/
  | cancel (id : Tid)
  | cancelLoop (r : ReceiverPtr Tid) (rest : List WaiterPtr)
  /-- `OnFinished_ReceiverThread` before its section, and the loop in it. -/
  | finish
  | finishLoop (rest : List WaiterPtr)
deriving DecidableEq

/-- What code of the user can do. -/
inductive Operation (Tid : Type)
  | addTargetThreadId (id : Tid)
  /-- `none` is `DirectCallPseudoId`. -/
  | callFromThread (receiver_thread_id : Option Tid)
  | waitProcessing (w : WaiterPtr)
  | cancelDisableWaitingCall (id : Tid)
  | processCalls
  /-- The thread ends. -/
  | onFinished
inductive Action (Tid : Type)
  | start (operation : Operation Tid)
  /-- The topmost frame goes on. -/
  | next
  /-- The user gives a waiter up. -/
  | release (w : WaiterPtr)
  | destroy (w : WaiterPtr)

/-- A section of `lock_threads`. -/
def Caller.locked {α : Type} (s : Caller Tid) (result : Option α) : Option α :=
  if s.lock_threads = none then result else none

/-- A step of the topmost frame: what it leaves to the others, and the frames that replace it. -/
def advance (s : Caller Tid) (t : Tid) : Frame Tid → Option (Caller Tid × List (Frame Tid))
  | .addCheck id => s.locked <|
    match s.threads id with
    | some _ => some (s,[])
    | none => some (s,[.addCreate id])
  | .addCreate id =>
    let created := s.createReceiver id
    some (created.1,[.addStore id created.2])
  | .addStore id r => s.locked <| some (s.store id r,[])
  | .post receiver_thread_id => s.locked <|
    let posted := s.postCall t receiver_thread_id
    some (posted.1,[.notify posted.2.1 posted.2.2])
  | .notify r w =>
    some ((s.atReceiver r ThreadCallReceiver.processIncomingCall).atWaiter w fun d => { d with returned := true },[])
  | .wait w .enter => do
    let d ← s.waiters w
    let r := d.m_wait_return_processing_calls
    if d.m_call_state ≠ .cs_inprogress then some (s,[.wait w .leave])
    else if (s.receivers r).sync.process_incoming_call then
      some (s.atReceiver r fun r => { r with sync.process_incoming_call := false },[.processCalls,.wait w .enter])
    else
      some (s.atReceiver r fun r => { r with sync.condition := r.sync.condition.wait t },[.wait w .blocked])
  | .wait w .blocked => do
    let d ← s.waiters w
    let s := s.atReceiver d.m_wait_return_processing_calls fun r => { r with sync.condition := r.sync.condition.wake t }
    if d.m_call_state ≠ .cs_inprogress then some (s,[.wait w .leave])
    else some (s,[.processCalls,.wait w .enter])
  | .wait w .leave => do
    let d ← s.waiters w
    some ((s.atWaiter w fun d => { d with waits := d.waits - 1 }).record (.waited t w d.m_call_state),[])
  | .processCalls => s.locked <|
    match s.threads t with
    | some r => some (s,[.processReceiver r])
    | none => some (s,[])
  | .processReceiver r =>
    match (s.receivers r).posted with
    | [] => some (s,[])
    | w :: rest =>
      some ((s.atReceiver r fun r => { r with posted := rest }).record (.taken w),[.body (some w),.processReceiver r])
  | .body call => some (s,[.callDone call])
  | .callDone none => some (s,[])
  | .callDone (some w) => some ((s.callDone w).atWaiter w fun d => { d with call := false },[])
  | .cancel id => s.locked <|
    match s.threads id with
    | some r =>
      match (s.receivers r).m_call_waiters_sender with
      | some set => some ({ s with lock_threads := some t },[.cancelLoop r set])
      | none => some (s,[])
    | none => some (s,[])
  | .cancelLoop r [] =>
    some ({ s with lock_threads := none }.atReceiver r fun r => { r with m_call_waiters_sender := none },[])
  | .cancelLoop r (w :: rest) => some (s.callCancel w,[.cancelLoop r rest])
  | .finish => s.locked <|
    match s.threads t with
    | some r =>
      some ({ s with lock_threads := some t, threads := Function.update s.threads t none }.record (.finished t),
        [.finishLoop (s.receivers r).m_call_waiters_receiver])
    | none => some (s,[])
  | .finishLoop [] => some ({ s with lock_threads := none },[])
  | .finishLoop (w :: rest) => some (s.setReceiverThreadFinished w,[.finishLoop rest])

/-- A thread can begin an operation: it is idle, or runs code of the user. -/
def ready : List (Frame Tid) → Bool
  | [] => true
  | .body _ :: _ => true
  | _ => false
/-- The beginning of an operation. A waiter is known once the call returned it,
    and a thread ends when nothing runs on it. -/
def begin (s : Caller Tid) (stack : List (Frame Tid)) : Operation Tid → Option (Caller Tid × Frame Tid)
  | .addTargetThreadId id => some (s,.addCheck id)
  | .callFromThread none => some (s,.body none)
  | .callFromThread (some receiver_thread_id) => some (s,.post receiver_thread_id)
  | .waitProcessing w => do
    let d ← s.waiters w
    if d.returned && d.handle then some (s.atWaiter w fun d => { d with waits := d.waits + 1 },.wait w .enter) else none
  | .cancelDisableWaitingCall id => some (s,.cancel id)
  | .processCalls => some (s,.processCalls)
  | .onFinished => if stack.isEmpty then some (s,.finish) else none

structure System (Tid : Type) where
  caller : Caller Tid := {}
  frames : Tid → List (Frame Tid) := fun _ => []
def step (s : System Tid) : Tid × Action Tid → Option (System Tid)
  | (t,.start operation) =>
    if ready (s.frames t) then
      (begin s.caller (s.frames t) operation).map fun begun =>
        { caller := begun.1, frames := Function.update s.frames t (begun.2 :: s.frames t) }
    else none
  | (t,.next) =>
    match s.frames t with
    | [] => none
    | frame :: below =>
      (advance s.caller t frame).map fun advanced =>
        { caller := advanced.1, frames := Function.update s.frames t (advanced.2 ++ below) }
  | (_,.release w) => do
    let d ← s.caller.waiters w
    if d.returned && d.handle then some { s with caller := s.caller.atWaiter w fun d => { d with handle := false } } else none
  | (_,.destroy w) => s.caller.locked do
    let d ← s.caller.waiters w
    if d.handle || d.waits ≠ 0 || d.call then none else some { s with caller := s.caller.destroyWaiter w d }

/-! ### What the operations leave as it was -/

section unchanged
variable (s : Caller Tid)

@[simp] theorem atReceiver_threads (r) (change) : (s.atReceiver r change).threads = s.threads := rfl
@[simp] theorem atReceiver_waiters (r) (change) : (s.atReceiver r change).waiters = s.waiters := rfl
@[simp] theorem atReceiver_events (r) (change) : (s.atReceiver r change).events = s.events := rfl
@[simp] theorem atReceiver_next_waiter (r) (change) : (s.atReceiver r change).next_waiter = s.next_waiter := rfl
@[simp] theorem atReceiver_receivers (r) (change) :
    (s.atReceiver r change).receivers = Function.update s.receivers r (change (s.receivers r)) := rfl
@[simp] theorem atWaiter_threads (w) (change) : (s.atWaiter w change).threads = s.threads := rfl
@[simp] theorem atWaiter_receivers (w) (change) : (s.atWaiter w change).receivers = s.receivers := rfl
@[simp] theorem atWaiter_events (w) (change) : (s.atWaiter w change).events = s.events := rfl
@[simp] theorem atWaiter_next_waiter (w) (change) : (s.atWaiter w change).next_waiter = s.next_waiter := rfl
@[simp] theorem atWaiter_waiters (w) (change) :
    (s.atWaiter w change).waiters = Function.update s.waiters w ((s.waiters w).map change) := rfl
@[simp] theorem record_threads (event) : (s.record event).threads = s.threads := rfl
@[simp] theorem record_receivers (event) : (s.record event).receivers = s.receivers := rfl
@[simp] theorem record_waiters (event) : (s.record event).waiters = s.waiters := rfl
@[simp] theorem record_events (event) : (s.record event).events = s.events ++ [event] := rfl

/-- What is done to one receiver. -/
theorem atReceiver_at (r q : ReceiverPtr Tid) (change) :
    (s.atReceiver r change).receivers q = if q = r then change (s.receivers q) else s.receivers q := by
  by_cases same : q = r
  · subst same; simp
  · simp [same]
/-- A member that is not written. -/
theorem atReceiver_field {β : Type*} (field : ThreadCallReceiver Tid → β) {r q : ReceiverPtr Tid} {change}
    (same : ∀ c, field (change c) = field c) :
    field ((s.atReceiver r change).receivers q) = field (s.receivers q) := by
  rw [atReceiver_at]
  split
  · exact same _
  · rfl

theorem resolve_present {w : WaiterPtr} {d : CallWaiterPrivate Tid} (present : s.waiters w = some d) (outcome : CallState) :
    s.resolve w outcome =
      ((s.atWaiter w fun d => { d with m_call_state := outcome }).atReceiver d.m_wait_return_processing_calls
        ThreadCallReceiver.notifyAll).record (.resolved w outcome) := by
  simp [Caller.resolve,present]
theorem resolve_absent {w : WaiterPtr} (absent : s.waiters w = none) (outcome : CallState) : s.resolve w outcome = s := by
  simp [Caller.resolve,absent]
@[simp] theorem resolve_threads (w) (outcome) : (s.resolve w outcome).threads = s.threads := by
  cases present : s.waiters w with
  | none => rw [resolve_absent s present]
  | some d => rw [resolve_present s present]; rfl
@[simp] theorem resolve_next_waiter (w) (outcome) : (s.resolve w outcome).next_waiter = s.next_waiter := by
  cases present : s.waiters w with
  | none => rw [resolve_absent s present]
  | some d => rw [resolve_present s present]; rfl
@[simp] theorem resolve_waiters (w) (outcome) : (s.resolve w outcome).waiters =
    Function.update s.waiters w ((s.waiters w).map fun d => { d with m_call_state := outcome }) := by
  cases present : s.waiters w with
  | none => rw [resolve_absent s present,Option.map_none,← present,Function.update_eq_self]
  | some d => rw [resolve_present s present]; simp [present]
@[simp] theorem resolve_events (w) (outcome) : (s.resolve w outcome).events =
    s.events ++ if (s.waiters w).isSome then [.resolved w outcome] else [] := by
  cases present : s.waiters w with
  | none => rw [resolve_absent s present]; simp
  | some d => rw [resolve_present s present]; simp
theorem resolve_field {β : Type*} (field : ThreadCallReceiver Tid → β) {w : WaiterPtr} {outcome : CallState} {q : ReceiverPtr Tid}
    (same : ∀ c : ThreadCallReceiver Tid, field c.notifyAll = field c) :
    field ((s.resolve w outcome).receivers q) = field (s.receivers q) := by
  cases present : s.waiters w with
  | none => rw [resolve_absent s present]
  | some d => rw [resolve_present s present,record_receivers,atReceiver_field _ field same,atWaiter_receivers]
/-- A notification leaves fewer threads that wait. -/
theorem resolve_blocked (w : WaiterPtr) (outcome : CallState) (q : ReceiverPtr Tid) :
    ((s.resolve w outcome).receivers q).sync.condition.blocked ⊆ (s.receivers q).sync.condition.blocked := by
  cases present : s.waiters w with
  | none => rw [resolve_absent s present]; exact List.Subset.refl _
  | some d =>
    rw [resolve_present s present,record_receivers,atReceiver_at]
    split
    · exact List.nil_subset _
    · exact List.Subset.refl _

@[simp] theorem createWaiter_threads (own found) : (s.createWaiter own found).threads = s.threads := rfl
@[simp] theorem createWaiter_events (own found) : (s.createWaiter own found).events = s.events := rfl
@[simp] theorem createWaiter_next_waiter (own found) : (s.createWaiter own found).next_waiter = s.next_waiter + 1 := rfl
@[simp] theorem createWaiter_waiters (own found) : (s.createWaiter own found).waiters =
    Function.update s.waiters s.next_waiter (some {
      m_wait_return_processing_calls := own
      m_sender_calls := if (s.receivers own).m_call_waiters_sender.isSome then some own else none
      m_receiver_calls := found }) := rfl
/-- The constructor writes the two sets. -/
theorem createWaiter_field {β : Type*} (field : ThreadCallReceiver Tid → β) {own found q : ReceiverPtr Tid}
    (sender : ∀ c m_call_waiters_sender, field { c with m_call_waiters_sender } = field c)
    (receiver : ∀ c m_call_waiters_receiver, field { c with m_call_waiters_receiver } = field c) :
    field ((s.createWaiter own found).receivers q) = field (s.receivers q) := by
  unfold Caller.createWaiter
  rw [atReceiver_field _ field fun c => receiver c _,atReceiver_field _ field fun c => sender c _]
@[simp] theorem destroyWaiter_threads (w) (d) : (s.destroyWaiter w d).threads = s.threads := by
  cases sender : d.m_sender_calls <;> simp [Caller.destroyWaiter,sender]
@[simp] theorem destroyWaiter_events (w) (d) : (s.destroyWaiter w d).events = s.events := by
  cases sender : d.m_sender_calls <;> simp [Caller.destroyWaiter,sender]
@[simp] theorem destroyWaiter_waiters (w) (d) : (s.destroyWaiter w d).waiters = s.waiters := by
  cases sender : d.m_sender_calls <;> simp [Caller.destroyWaiter,sender]
@[simp] theorem destroyWaiter_next_waiter (w) (d) : (s.destroyWaiter w d).next_waiter = s.next_waiter := by
  cases sender : d.m_sender_calls <;> simp [Caller.destroyWaiter,sender]
/-- The destructor writes the two sets. -/
theorem destroyWaiter_field {β : Type*} (field : ThreadCallReceiver Tid → β) {w : WaiterPtr} {d : CallWaiterPrivate Tid}
    {q : ReceiverPtr Tid} (sender : ∀ c m_call_waiters_sender, field { c with m_call_waiters_sender } = field c)
    (receiver : ∀ c m_call_waiters_receiver, field { c with m_call_waiters_receiver } = field c) :
    field ((s.destroyWaiter w d).receivers q) = field (s.receivers q) := by
  unfold Caller.destroyWaiter
  rw [atReceiver_field _ field fun c => receiver c _]
  split
  · exact atReceiver_field _ field fun c => sender c _
  · rfl
/-- The other calls stay in the set. -/
theorem destroyWaiter_calls {v w : WaiterPtr} (other : w ≠ v) (d : CallWaiterPrivate Tid) (q : ReceiverPtr Tid)
    (member : w ∈ (s.receivers q).m_call_waiters_receiver) :
    w ∈ ((s.destroyWaiter v d).receivers q).m_call_waiters_receiver := by
  have kept : ∀ between : Caller Tid, w ∈ (between.receivers q).m_call_waiters_receiver →
      w ∈ ((between.atReceiver d.m_receiver_calls fun r =>
        { r with m_call_waiters_receiver := r.m_call_waiters_receiver.filter (· ≠ v) }).receivers q).m_call_waiters_receiver := by
    intro between there
    rw [atReceiver_at]
    split
    · exact List.mem_filter.mpr ⟨there,by simpa using other⟩
    · exact there
  unfold Caller.destroyWaiter
  refine kept _ ?_
  split
  · rw [atReceiver_at]
    split <;> exact member
  · exact member

@[simp] theorem store_threads (id) (r) : (s.store id r).threads = Function.update s.threads id (some r) := rfl
@[simp] theorem store_events (id) (r) : (s.store id r).events = s.events ++ [.stored id r] := rfl
theorem makeFindThread_found {id : Tid} {r : ReceiverPtr Tid} (found : s.threads id = some r) :
    s.makeFindThread id = (s,r) := by
  simp [Caller.makeFindThread,found]
theorem makeFindThread_absent {id : Tid} (absent : s.threads id = none) :
    s.makeFindThread id = ((s.createReceiver id).1.store id (s.createReceiver id).2,(s.createReceiver id).2) := by
  simp [Caller.makeFindThread,absent]
/-- The thread is there afterwards. -/
theorem makeFindThread_threads (id : Tid) :
    (s.makeFindThread id).1.threads = Function.update s.threads id (some (s.makeFindThread id).2) := by
  cases present : s.threads id with
  | none => rw [makeFindThread_absent s present]; rfl
  | some r => rw [makeFindThread_found s present]; simp [← present]
@[simp] theorem makeFindThread_waiters (id : Tid) : (s.makeFindThread id).1.waiters = s.waiters := by
  cases present : s.threads id with
  | none => rw [makeFindThread_absent s present]; rfl
  | some r => rw [makeFindThread_found s present]
@[simp] theorem makeFindThread_receivers (id : Tid) : (s.makeFindThread id).1.receivers = s.receivers := by
  cases present : s.threads id with
  | none => rw [makeFindThread_absent s present]; rfl
  | some r => rw [makeFindThread_found s present]
@[simp] theorem makeFindThread_next_waiter (id : Tid) : (s.makeFindThread id).1.next_waiter = s.next_waiter := by
  cases present : s.threads id with
  | none => rw [makeFindThread_absent s present]; rfl
  | some r => rw [makeFindThread_found s present]

end unchanged

/-! ### Posting a call -/

/-- What is done in the section of `CallFromThread` once both receivers are
    there, the one of the caller and the one that is called. -/
structure Posts (s s' : Caller Tid) (own found : ReceiverPtr Tid) : Prop where
  threads : s'.threads = s.threads
  next_waiter : s'.next_waiter = s.next_waiter + 1
  events : ∃ more, s'.events = s.events ++ more ∧ ∀ event ∈ more, event = .resolved s.next_waiter .cs_canceled
  waiters : ∃ d, s'.waiters = Function.update s.waiters s.next_waiter (some d) ∧
    d.m_wait_return_processing_calls = own ∧ d.m_receiver_calls = found ∧ d.call = true ∧ d.returned = false
  posted : ∀ r, (s'.receivers r).posted = (s.receivers r).posted ++ if r = found then [s.next_waiter] else []
  calls : ∀ r, (s'.receivers r).m_call_waiters_receiver =
    (if r = found then [s.next_waiter] else []) ++ (s.receivers r).m_call_waiters_receiver
  flag : ∀ r, (s'.receivers r).sync.process_incoming_call = (s.receivers r).sync.process_incoming_call
  blocked : ∀ r, (s'.receivers r).sync.condition.blocked ⊆ (s.receivers r).sync.condition.blocked

theorem createWaiter_calls (s : Caller Tid) (own found r : ReceiverPtr Tid) :
    ((s.createWaiter own found).receivers r).m_call_waiters_receiver =
      (if r = found then [s.next_waiter] else []) ++ (s.receivers r).m_call_waiters_receiver := by
  unfold Caller.createWaiter
  rw [atReceiver_at]
  by_cases called : r = found
  · simp only [called,if_true,List.singleton_append]
    exact congrArg (List.cons _) (atReceiver_field _ ThreadCallReceiver.m_call_waiters_receiver fun _ => rfl)
  · simp only [called,if_false,List.nil_append]
    exact atReceiver_field _ ThreadCallReceiver.m_call_waiters_receiver fun _ => rfl

/-- The state of the caller when both receivers are there. -/
def Caller.makeFindThreads (s : Caller Tid) (sender receiver : Tid) : Caller Tid :=
  ((s.makeFindThread receiver).1.makeFindThread sender).1
theorem postCall_posts (s : Caller Tid) (sender receiver : Tid) :
    Posts (s.makeFindThreads sender receiver) (s.postCall sender receiver).1
      ((s.makeFindThread receiver).1.makeFindThread sender).2 (s.makeFindThread receiver).2 := by
  simp only [Caller.postCall,Caller.makeFindThreads]
  generalize (s.makeFindThread receiver).2 = found
  generalize ((s.makeFindThread receiver).1.makeFindThread sender).2 = own
  generalize ((s.makeFindThread receiver).1.makeFindThread sender).1 = s
  generalize enqueues : (fun r : ThreadCallReceiver Tid => { r with posted := r.posted ++ [s.next_waiter] }) = enqueue
  have posts_to : ∀ c, enqueue c = { c with posted := c.posted ++ [s.next_waiter] } := fun c => by rw [← enqueues]
  have created_posted : ∀ r, ((s.createWaiter own found).receivers r).posted = (s.receivers r).posted := fun r =>
    createWaiter_field s ThreadCallReceiver.posted (fun _ _ => rfl) fun _ _ => rfl
  have created_sync : ∀ r, ((s.createWaiter own found).receivers r).sync = (s.receivers r).sync := fun r =>
    createWaiter_field s ThreadCallReceiver.sync (fun _ _ => rfl) fun _ _ => rfl
  -- What holds of the state before the call is put into the queue, in both cases.
  have enqueued : ∀ between : Caller Tid, (∀ r, (between.receivers r).posted = (s.receivers r).posted) → ∀ r,
      ((between.atReceiver found enqueue).receivers r).posted =
        (s.receivers r).posted ++ if r = found then [s.next_waiter] else [] := by
    intro between same r
    rw [atReceiver_at,posts_to]
    split <;> simp [same]
  have kept : ∀ {β : Type} (field : ThreadCallReceiver Tid → β) (between : Caller Tid) (r : ReceiverPtr Tid),
      (∀ c posted, field { c with posted } = field c) →
        field ((between.atReceiver found enqueue).receivers r) = field (between.receivers r) := by
    intro β field between r same
    exact atReceiver_field between field fun c => by rw [posts_to,same]
  split
  · refine ⟨by simp [Caller.callCancel],by simp [Caller.callCancel],⟨_,by simp [Caller.callCancel]; rfl,by simp⟩,
      ⟨_,by simp [Caller.callCancel]; rfl,rfl,rfl,rfl,rfl⟩,?_,?_,?_,?_⟩
    · exact enqueued _ fun r => (resolve_field _ ThreadCallReceiver.posted fun _ => rfl).trans (created_posted r)
    · intro r
      rw [kept ThreadCallReceiver.m_call_waiters_receiver _ r fun _ _ => rfl]
      exact (resolve_field _ ThreadCallReceiver.m_call_waiters_receiver fun _ => rfl).trans (createWaiter_calls s own found r)
    · intro r
      rw [kept (fun c => c.sync.process_incoming_call) _ r fun _ _ => rfl]
      exact (resolve_field _ (fun c => c.sync.process_incoming_call) fun _ => rfl).trans
        (congrArg WaitSync.process_incoming_call (created_sync r))
    · intro r
      rw [kept (fun c => c.sync.condition.blocked) _ r fun _ _ => rfl]
      exact List.Subset.trans (resolve_blocked _ _ _ r) (created_sync r ▸ List.Subset.refl _)
  · refine ⟨rfl,rfl,⟨[],by simp,by simp⟩,⟨_,rfl,rfl,rfl,rfl,rfl⟩,enqueued _ created_posted,?_,?_,?_⟩
    · intro r
      rw [kept ThreadCallReceiver.m_call_waiters_receiver _ r fun _ _ => rfl,createWaiter_calls]
    · intro r
      rw [kept (fun c => c.sync.process_incoming_call) _ r fun _ _ => rfl]
      exact congrArg WaitSync.process_incoming_call (created_sync r)
    · intro r
      rw [kept (fun c => c.sync.condition.blocked) _ r fun _ _ => rfl]
      exact created_sync r ▸ List.Subset.refl _

/-! ### The steps -/

theorem locked_eq_some {α : Type} {s : Caller Tid} {result : Option α} {a : α} (some_step : s.locked result = some a) :
    s.lock_threads = none ∧ result = some a := by
  unfold Caller.locked at some_step
  split at some_step
  · exact ⟨‹_›,some_step⟩
  · cases some_step

/-- What a step of a frame can be. -/
inductive Advanced (s : Caller Tid) (t : Tid) : Frame Tid → Caller Tid → List (Frame Tid) → Prop
  | known (id : Tid) : Advanced s t (.addCheck id) s []
  | unknown (id : Tid) : Advanced s t (.addCheck id) s [.addCreate id]
  | addCreate (id : Tid) : Advanced s t (.addCreate id) (s.createReceiver id).1 [.addStore id (s.createReceiver id).2]
  | addStore (id : Tid) (r : ReceiverPtr Tid) (unlocked : s.lock_threads = none) :
      Advanced s t (.addStore id r) (s.store id r) []
  | post (id : Tid) (unlocked : s.lock_threads = none) :
      Advanced s t (.post id) (s.postCall t id).1 [.notify (s.postCall t id).2.1 (s.postCall t id).2.2]
  | notify (r : ReceiverPtr Tid) (w : WaiterPtr) :
      Advanced s t (.notify r w)
        ((s.atReceiver r ThreadCallReceiver.processIncomingCall).atWaiter w fun d => { d with returned := true }) []
  | leaves (w : WaiterPtr) (d : CallWaiterPrivate Tid) (present : s.waiters w = some d)
      (settled : d.m_call_state ≠ .cs_inprogress) : Advanced s t (.wait w .enter) s [.wait w .leave]
  | raised (w : WaiterPtr) (d : CallWaiterPrivate Tid) (present : s.waiters w = some d)
      (up : (s.receivers d.m_wait_return_processing_calls).sync.process_incoming_call = true) :
      Advanced s t (.wait w .enter)
        (s.atReceiver d.m_wait_return_processing_calls fun r => { r with sync.process_incoming_call := false })
        [.processCalls,.wait w .enter]
  | blocks (w : WaiterPtr) (d : CallWaiterPrivate Tid) (present : s.waiters w = some d)
      (inprogress : d.m_call_state = .cs_inprogress)
      (down : (s.receivers d.m_wait_return_processing_calls).sync.process_incoming_call = false) :
      Advanced s t (.wait w .enter)
        (s.atReceiver d.m_wait_return_processing_calls fun r => { r with sync.condition := r.sync.condition.wait t })
        [.wait w .blocked]
  | wakes (w : WaiterPtr) (d : CallWaiterPrivate Tid) (present : s.waiters w = some d)
      (settled : d.m_call_state ≠ .cs_inprogress) :
      Advanced s t (.wait w .blocked)
        (s.atReceiver d.m_wait_return_processing_calls fun r => { r with sync.condition := r.sync.condition.wake t })
        [.wait w .leave]
  | proceeds (w : WaiterPtr) (d : CallWaiterPrivate Tid) (present : s.waiters w = some d) :
      Advanced s t (.wait w .blocked)
        (s.atReceiver d.m_wait_return_processing_calls fun r => { r with sync.condition := r.sync.condition.wake t })
        [.processCalls,.wait w .enter]
  | answers (w : WaiterPtr) (d : CallWaiterPrivate Tid) (present : s.waiters w = some d) :
      Advanced s t (.wait w .leave)
        ((s.atWaiter w fun d => { d with waits := d.waits - 1 }).record (.waited t w d.m_call_state)) []
  | processCalls (r : ReceiverPtr Tid) (found : s.threads t = some r) :
      Advanced s t .processCalls s [.processReceiver r]
  | unregistered (absent : s.threads t = none) : Advanced s t .processCalls s []
  | drained (r : ReceiverPtr Tid) (empty : (s.receivers r).posted = []) : Advanced s t (.processReceiver r) s []
  | takes (r : ReceiverPtr Tid) (w : WaiterPtr) (rest : List WaiterPtr) (queued : (s.receivers r).posted = w :: rest) :
      Advanced s t (.processReceiver r) ((s.atReceiver r fun r => { r with posted := rest }).record (.taken w))
        [.body (some w),.processReceiver r]
  | body (call : Option WaiterPtr) : Advanced s t (.body call) s [.callDone call]
  | direct : Advanced s t (.callDone none) s []
  | callDone (w : WaiterPtr) :
      Advanced s t (.callDone (some w)) ((s.callDone w).atWaiter w fun d => { d with call := false }) []
  | cancel (id : Tid) (r : ReceiverPtr Tid) (set : List WaiterPtr) :
      Advanced s t (.cancel id) { s with lock_threads := some t } [.cancelLoop r set]
  | noCancel (id : Tid) : Advanced s t (.cancel id) s []
  | cancels (r : ReceiverPtr Tid) (w : WaiterPtr) (rest : List WaiterPtr) :
      Advanced s t (.cancelLoop r (w :: rest)) (s.callCancel w) [.cancelLoop r rest]
  | canceled (r : ReceiverPtr Tid) :
      Advanced s t (.cancelLoop r [])
        ({ s with lock_threads := none }.atReceiver r fun r => { r with m_call_waiters_sender := none }) []
  | finish (r : ReceiverPtr Tid) (unlocked : s.lock_threads = none) (found : s.threads t = some r) :
      Advanced s t .finish
        ({ s with lock_threads := some t, threads := Function.update s.threads t none }.record (.finished t))
        [.finishLoop (s.receivers r).m_call_waiters_receiver]
  | noFinish : Advanced s t .finish s []
  | finishes (w : WaiterPtr) (rest : List WaiterPtr) :
      Advanced s t (.finishLoop (w :: rest)) (s.setReceiverThreadFinished w) [.finishLoop rest]
  | finished : Advanced s t (.finishLoop []) { s with lock_threads := none } []

theorem advance_advanced {s : Caller Tid} {t : Tid} {frame : Frame Tid} {advanced : Caller Tid × List (Frame Tid)}
    (advances : advance s t frame = some advanced) : Advanced s t frame advanced.1 advanced.2 := by
  cases frame with
  | addCheck id =>
    have found := (locked_eq_some advances).2
    split at found
    · cases found; exact .known id
    · cases found; exact .unknown id
  | addCreate id => cases advances; exact .addCreate id
  | addStore id r =>
    obtain ⟨unlocked,stored⟩ := locked_eq_some advances
    cases stored; exact .addStore id r unlocked
  | post id =>
    obtain ⟨unlocked,posted⟩ := locked_eq_some advances
    cases posted; exact .post id unlocked
  | notify r w => cases advances; exact .notify r w
  | wait w point =>
    cases present : s.waiters w with
    | none => cases point <;> simp [advance,present] at advances
    | some d =>
      cases point with
      | enter =>
        simp only [advance,present,Option.bind_eq_bind,Option.bind_some] at advances
        split at advances
        · cases advances; exact .leaves w d present ‹_›
        · split at advances
          · cases advances; exact .raised w d present ‹_›
          · cases advances
            exact .blocks w d present (not_not.mp ‹_›) (by simpa using ‹¬ _ = true›)
      | blocked =>
        simp only [advance,present,Option.bind_eq_bind,Option.bind_some] at advances
        split at advances
        · cases advances; exact .wakes w d present ‹_›
        · cases advances; exact .proceeds w d present
      | leave =>
        simp only [advance,present,Option.bind_eq_bind,Option.bind_some] at advances
        cases advances; exact .answers w d present
  | processCalls =>
    have found := (locked_eq_some advances).2
    split at found
    · cases found; exact .processCalls _ ‹_›
    · cases found; exact .unregistered ‹_›
  | processReceiver r =>
    simp only [advance] at advances
    split at advances
    · cases advances; exact .drained r ‹_›
    · cases advances; exact .takes r _ _ ‹_›
  | body call => cases advances; exact .body call
  | callDone call =>
    cases call with
    | none => cases advances; exact .direct
    | some w => cases advances; exact .callDone w
  | cancel id =>
    have found := (locked_eq_some advances).2
    split at found
    · split at found
      · cases found; exact .cancel id _ _
      · cases found; exact .noCancel id
    · cases found; exact .noCancel id
  | cancelLoop r rest =>
    cases rest with
    | nil => cases advances; exact .canceled r
    | cons w rest => cases advances; exact .cancels r w rest
  | finish =>
    obtain ⟨unlocked,found⟩ := locked_eq_some advances
    split at found
    · cases found; exact .finish _ unlocked ‹_›
    · cases found; exact .noFinish
  | finishLoop rest =>
    cases rest with
    | nil => cases advances; exact .finished
    | cons w rest => cases advances; exact .finishes w rest

/-- What the beginning of an operation can be. -/
inductive Begun (s : Caller Tid) (stack : List (Frame Tid)) : Operation Tid → Caller Tid → Frame Tid → Prop
  | addTargetThreadId (id : Tid) : Begun s stack (.addTargetThreadId id) s (.addCheck id)
  | direct : Begun s stack (.callFromThread none) s (.body none)
  | callFromThread (id : Tid) : Begun s stack (.callFromThread (some id)) s (.post id)
  | waitProcessing (w : WaiterPtr) (d : CallWaiterPrivate Tid) (present : s.waiters w = some d) :
      Begun s stack (.waitProcessing w) (s.atWaiter w fun d => { d with waits := d.waits + 1 }) (.wait w .enter)
  | cancel (id : Tid) : Begun s stack (.cancelDisableWaitingCall id) s (.cancel id)
  | processCalls : Begun s stack .processCalls s .processCalls
  | onFinished (idle : stack = []) : Begun s stack .onFinished s .finish

theorem begin_begun {s : Caller Tid} {stack : List (Frame Tid)} {operation : Operation Tid}
    {begun : Caller Tid × Frame Tid} (begins : begin s stack operation = some begun) :
    Begun s stack operation begun.1 begun.2 := by
  cases operation with
  | addTargetThreadId id => cases begins; exact .addTargetThreadId id
  | callFromThread receiver_thread_id =>
    cases receiver_thread_id with
    | none => cases begins; exact .direct
    | some id => cases begins; exact .callFromThread id
  | waitProcessing w =>
    obtain ⟨d,present,rest⟩ := Option.bind_eq_some_iff.mp begins
    split at rest
    · cases rest; exact .waitProcessing w d present
    · cases rest
  | cancelDisableWaitingCall id => cases begins; exact .cancel id
  | processCalls => cases begins; exact .processCalls
  | onFinished =>
    simp only [begin] at begins
    split at begins
    · cases begins; exact .onFinished (List.isEmpty_iff.mp ‹_›)
    · cases begins

/-- What a step can be. -/
inductive Stepped (s : System Tid) (t : Tid) : Action Tid → System Tid → Prop
  | start (operation : Operation Tid) (caller : Caller Tid) (frame : Frame Tid) (is_ready : ready (s.frames t))
      (begins : Begun s.caller (s.frames t) operation caller frame) :
      Stepped s t (.start operation) { caller := caller, frames := Function.update s.frames t (frame :: s.frames t) }
  | next (frame : Frame Tid) (below : List (Frame Tid)) (caller : Caller Tid) (frames : List (Frame Tid))
      (top : s.frames t = frame :: below) (advances : Advanced s.caller t frame caller frames) :
      Stepped s t .next { caller := caller, frames := Function.update s.frames t (frames ++ below) }
  | release (w : WaiterPtr) (d : CallWaiterPrivate Tid) (present : s.caller.waiters w = some d) :
      Stepped s t (.release w) { s with caller := s.caller.atWaiter w fun d => { d with handle := false } }
  | destroy (w : WaiterPtr) (d : CallWaiterPrivate Tid) (present : s.caller.waiters w = some d) (processed : d.call = false) :
      Stepped s t (.destroy w) { s with caller := s.caller.destroyWaiter w d }

theorem step_stepped {s s' : System Tid} {t : Tid} {action : Action Tid} (stepped : step s (t,action) = some s') :
    Stepped s t action s' := by
  cases action with
  | start operation =>
    simp only [step] at stepped
    split at stepped
    · obtain ⟨begun,begins,after⟩ := Option.map_eq_some_iff.mp stepped
      exact after ▸ .start operation _ _ ‹_› (begin_begun begins)
    · cases stepped
  | next =>
    simp only [step] at stepped
    split at stepped
    · cases stepped
    · obtain ⟨advanced,advances,after⟩ := Option.map_eq_some_iff.mp stepped
      exact after ▸ .next _ _ _ _ ‹_› (advance_advanced advances)
  | release w =>
    obtain ⟨d,present,rest⟩ := Option.bind_eq_some_iff.mp stepped
    split at rest
    · exact Option.some.inj rest ▸ .release w d present
    · cases rest
  | destroy w =>
    obtain ⟨-,unlocked⟩ := locked_eq_some stepped
    obtain ⟨d,present,rest⟩ := Option.bind_eq_some_iff.mp unlocked
    split at rest
    · cases rest
    · rename_i gone
      simp only [Bool.or_eq_true,not_or,Bool.not_eq_true] at gone
      exact Option.some.inj rest ▸ .destroy w d present gone.2

/-- A frame of a thread after its step is new, or was there. -/
theorem mem_update_frames {s : System Tid} {t u : Tid} {frame other : Frame Tid} {frames below : List (Frame Tid)}
    (top : s.frames t = frame :: below) (member : other ∈ Function.update s.frames t (frames ++ below) u) :
    (u = t ∧ other ∈ frames) ∨ other ∈ s.frames u := by
  by_cases acts : u = t
  · subst acts
    rw [Function.update_self] at member
    rcases List.mem_append.mp member with begins | stayed
    · exact .inl ⟨rfl,begins⟩
    · exact .inr (by rw [top]; exact List.mem_cons_of_mem _ stayed)
  · exact .inr (by rwa [Function.update_of_ne acts] at member)

end IpcPortable.TransthreadCaller
