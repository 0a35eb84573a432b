import IpcPortable.Conditions
import IpcPortable.KeyCounts

/-!
`MAssIpcWaiter`: threads that wait for events. An event has checks, each of a
counter and of the value that it had when the wait for it began. Every waiter
has one lock and one condition variable. The counter of a `CallInfo` goes up
outside the lock, and whoever raised it notifies afterwards, if some event is
bound to that `CallInfo`: the ids of what events are bound to are in
`change_filter`.
-/
namespace IpcPortable.EventWaiter
open IpcPortable.Conditions IpcPortable.KeyCounts
set_option linter.unusedSectionVars false
variable {Tid : Type} [DecidableEq Tid]

abbrev Address := Nat
/-- `const void*`; `none` is `nullptr`. -/
abbrev FilterId := Option Address
/-- `CallInfo::TCounter`, which is `uint32_t`, as the counters of the other checks. -/
abbrev TCounter := BitVec 32

/-- A pointer to a `CallInfo` or to a `ConnectionEvent::Signaling`: where the
    object is, and a number. An address is used again when its object is gone, a
    number is not, so a weak pointer is one of these, too. -/
structure ObjectPtr where
  address : Address
  serial : Nat
deriving DecidableEq
abbrev CheckPtr := Nat
abbrev EventPtr := Nat

/-- `ConnectionEvent::State`. -/
inductive State
  | on_connected
  | on_disconnected
  | undefined_enum_count
deriving DecidableEq
inductive ResetType
  | wait_next_after_trigger
  | wait_next_after_reset
  | wait_next_after_zero
deriving DecidableEq
inductive InitialCount
  | zero
  | current
deriving DecidableEq
inductive WaitResult
  | ready
  | timeout
  | canceled
deriving DecidableEq

/-- What a check counts. -/
inductive Counted
  /-- `CallEvent::Call`, which has a weak pointer. -/
  | call (m_call_info : ObjectPtr)
  /-- `ConnectionEvent::Connect`. The signaling has the id and the counters. -/
  | connect (signaling : ObjectPtr) (m_signal_state : State)
  /-- `CounterEvent::Change`, whose id is its own address. -/
  | change (own : Address) (m_actual_count : TCounter)
deriving DecidableEq
structure Check where
  counted : Counted
  interpret_as_cancel : Bool
  m_wait_start_count : TCounter
deriving DecidableEq

/-- Where a thread is. -/
inductive Point
  | idle
  /-- `Wait` has returned. -/
  | returned (result : WaitResult)
  /-- In `BindCall` or `BindConnect`, before `BindCheck`. -/
  | bindCheck (event : EventPtr) (check : Check) (filter_id : FilterId)
  /-- The count of the `CallInfo` went up, before `OnCallCountChanged`. -/
  | incremented (call_info : ObjectPtr)
  /-- In `Wait`, in the condition variable. -/
  | blocked (event : EventPtr) (timed : Bool)
deriving DecidableEq

/-- A check that was inserted into an event, and the id that it was bound with. -/
structure Binding where
  event : EventPtr
  check : CheckPtr
  filter_id : FilterId
deriving DecidableEq

/-- A `ConditionWaitLock`, with everything that is used under its lock, and the
    threads. Of the objects there are the `CallInfo`s that live, with their
    counts, the counters of every signaling, the checks and the events that
    live, with what they are bound to. `threads` are those that did something. -/
structure Waiter (Tid : Type) where
  condition_events : Condition Tid := {}
  cancel_all_waits : Bool := false
  change_filter : Multiset FilterId := 0
  call_infos : ObjectPtr → Option TCounter := fun _ => none
  conters : ObjectPtr → State → TCounter := fun _ _ => 0
  checks : CheckPtr → Option Check := fun _ => none
  events : EventPtr → Option (List CheckPtr) := fun _ => none
  next_call_info : Nat := 0
  next_check : CheckPtr := 0
  next_event : EventPtr := 0
  points : Tid → Point := fun _ => .idle
  threads : List Tid := []
  bindings : List Binding := []

/-! ### The checks -/

/-- `GetFilterId`. -/
def Waiter.getFilterId (s : Waiter Tid) (check : Check) : FilterId :=
  match check.counted with
  | .call m_call_info => (s.call_infos m_call_info).map fun _ => m_call_info.address
  | .connect signaling _ => some signaling.address
  | .change own _ => some own
def Waiter.filterIdOf (s : Waiter Tid) (p : CheckPtr) : FilterId := (s.checks p).bind s.getFilterId
/-- What `IsTriggeredLocked` and `ResetLocked` read of the counter. -/
def Waiter.getCount (s : Waiter Tid) (check : Check) : Option TCounter :=
  match check.counted with
  | .call m_call_info => s.call_infos m_call_info
  | .connect signaling m_signal_state => some (s.conters signaling m_signal_state)
  | .change _ m_actual_count => some m_actual_count
/-- `Check::IsTriggeredLocked`. -/
def Waiter.isTriggered (s : Waiter Tid) (check : Check) : Bool :=
  match s.getCount check with
  | some current_count => 0 < current_count - check.m_wait_start_count
  | none => false
/-- `Check::ResetLocked`. -/
def Waiter.resetLocked (s : Waiter Tid) (wait_next_after : ResetType) (check : Check) : Check :=
  match wait_next_after with
  | .wait_next_after_reset => { check with m_wait_start_count := (s.getCount check).getD 0 }
  | .wait_next_after_trigger => { check with m_wait_start_count := check.m_wait_start_count + 1 }
  | .wait_next_after_zero => { check with m_wait_start_count := 0 }
/-- `Event::IsTriggeredLocked`: whether a check is triggered, and if the first
    one that is means a cancellation. -/
def Waiter.isTriggeredLocked (s : Waiter Tid) : List CheckPtr → Option Bool
  | [] => none
  | p :: rest =>
    match s.checks p with
    | some check => if s.isTriggered check then some check.interpret_as_cancel else s.isTriggeredLocked rest
    | none => s.isTriggeredLocked rest

/-! ### The sections -/

def Waiter.notifyAll (s : Waiter Tid) : Waiter Tid := { s with condition_events := s.condition_events.notifyAll }
/-- The thread goes on at the point. -/
def Waiter.goTo (s : Waiter Tid) (t : Tid) (point : Point) : Waiter Tid :=
  { s with points := Function.update s.points t point }
/-- `CheckConditionChanged`. -/
def Waiter.checkConditionChanged (s : Waiter Tid) (filter_id : FilterId) : Waiter Tid :=
  if filter_id ∈ s.change_filter then s.notifyAll else s
def Waiter.cancelAllWaits (s : Waiter Tid) : Waiter Tid := { s with cancel_all_waits := true }.notifyAll
def Waiter.insertSharedCheckLocked (s : Waiter Tid) (event : EventPtr) (check : CheckPtr) (filter_id : FilterId) : Waiter Tid :=
  { s with
    change_filter := filter_id ::ₘ s.change_filter
    events := Function.update s.events event ((s.events event).map (· ++ [check]))
    bindings := s.bindings ++ [⟨event,check,filter_id⟩] }
/-- `BindCheck`, for a check that was made for it. -/
def Waiter.bindCheck (s : Waiter Tid) (event : EventPtr) (check : Check) (filter_id : FilterId) : Waiter Tid :=
  ({ s with
    next_check := s.next_check + 1
    checks := Function.update s.checks s.next_check (some check) }.insertSharedCheckLocked
      event s.next_check filter_id).notifyAll
/-- The loop of `BindEvent`. -/
def Waiter.insertAll (s : Waiter Tid) (event : EventPtr) : List CheckPtr → Waiter Tid
  | [] => s
  | p :: rest => (s.insertSharedCheckLocked event p (s.filterIdOf p)).insertAll event rest
/-- `BindEvent`; every event has checks of its own. -/
def Waiter.bindEvent (s : Waiter Tid) (event other_shared_checks : EventPtr) (others : List CheckPtr) : Waiter Tid :=
  if event = other_shared_checks then s else (s.insertAll event others).notifyAll
/-- What the destructor erases for one check. -/
def Waiter.eraseFilterId (s : Waiter Tid) (p : CheckPtr) : Waiter Tid :=
  { s with change_filter := s.change_filter.erase (s.filterIdOf p) }
/-- `~Event`. -/
def Waiter.destroyEvent (s : Waiter Tid) (event : EventPtr) (m_checks : List CheckPtr) : Waiter Tid :=
  let erased := m_checks.foldl Waiter.eraseFilterId s
  let erased := if m_checks.isEmpty then erased else erased.notifyAll
  { erased with events := Function.update erased.events event none }
/-- What `ResetTriggered` does to one check. -/
def Waiter.resetTriggeredCheck (wait_next_after : ResetType) (s : Waiter Tid) (p : CheckPtr) : Waiter Tid :=
  match s.checks p with
  | some check =>
    if s.isTriggered check && !check.interpret_as_cancel then
      { s with checks := Function.update s.checks p (some (s.resetLocked wait_next_after check)) }
    else s
  | none => s
def Waiter.resetTriggered (s : Waiter Tid) (wait_next_after : ResetType) (m_checks : List CheckPtr) : Waiter Tid :=
  m_checks.foldl (Waiter.resetTriggeredCheck wait_next_after) s
/-- `ConnectionEvent::Signaling::SignalChangeState`. -/
def Waiter.signalChangeState (s : Waiter Tid) (signaling : ObjectPtr) (es : State) : Waiter Tid :=
  if es = .undefined_enum_count then s
  else
    let counted := Function.update (s.conters signaling) es (s.conters signaling es + 1)
    { s with conters := Function.update s.conters signaling counted }.notifyAll
/-- `CounterEvent::Signaling::Increment`. -/
def Waiter.increment (s : Waiter Tid) (p : CheckPtr) : Waiter Tid :=
  match s.checks p with
  | some ⟨.change own m_actual_count,interpret_as_cancel,m_wait_start_count⟩ =>
    let counted : Check := ⟨.change own (m_actual_count + 1),interpret_as_cancel,m_wait_start_count⟩
    { s with checks := Function.update s.checks p (some counted) }.notifyAll
  | _ => s

/-- `WaitDuration`, from where it has the lock: the predicate, and what follows
    from it. `timed_out` is that the time is over. -/
def Waiter.waitDuration (s : Waiter Tid) (t : Tid) (event : EventPtr) (m_checks : List CheckPtr) (timed timed_out : Bool) :
    Waiter Tid :=
  let predicate := if s.cancel_all_waits then some false else s.isTriggeredLocked m_checks
  match predicate with
  | some interpret_as_cancel =>
    s.goTo t (.returned (if s.cancel_all_waits || interpret_as_cancel then .canceled else .ready))
  | none =>
    if timed_out then s.goTo t (.returned .timeout)
    else { s with condition_events := s.condition_events.wait t }.goTo t (.blocked event timed)

/-! ### The threads -/

inductive Operation
  | createEvent
  /-- The constructor of `CounterEvent`. -/
  | counterEvent (own : Address) (interpret_as_cancel : Bool)
  | createCallInfo (address : Address)
  /-- The last owner of the `CallInfo` gives it up. -/
  | releaseCallInfo (call_info : ObjectPtr)
  | bindCall (event : EventPtr) (check_event_id : ObjectPtr) (initial_count : InitialCount) (interpret_as_cancel : Bool)
  | bindConnect (event : EventPtr) (signal_state : State) (signaling_actual_state : ObjectPtr)
      (initial_count : InitialCount) (interpret_as_cancel : Bool)
  | bindEvent (event other_shared_checks : EventPtr)
  | resetTriggered (event : EventPtr) (wait_next_after : ResetType)
  | destroyEvent (event : EventPtr)
  /-- `IncrementCallCount`, which `OnCallCountChanged` follows. Where one thread
      counts and another one notifies, the two are a thread of their own here. -/
  | incrementCallCount (call_info : ObjectPtr)
  | signalChangeState (signaling : ObjectPtr) (es : State)
  | increment (check : CheckPtr)
  | cancelAllWaits
  | wait (event : EventPtr) (timed : Bool)
inductive Action
  | start (operation : Operation)
  /-- The thread goes on. -/
  | next
  /-- The thread wakes up in the condition variable, notified or not. -/
  | wake (timed_out : Bool)

def Point.ready : Point → Bool
  | .idle => true
  | .returned _ => true
  | _ => false
/-- The thread is inside of a member function of the event. -/
def Point.uses (event : EventPtr) : Point → Bool
  | .bindCheck used _ _ => used = event
  | .blocked used _ => used = event
  | _ => false
/-- The thread has a shared pointer to the `CallInfo`. -/
def Point.owns (call_info : ObjectPtr) : Point → Bool
  | .bindCheck _ check _ => check.counted = .call call_info
  | .incremented owned => owned = call_info
  | _ => false

/-- An operation up to where it gives up the lock. Members of an event are
    called while it lives, and its destructor when no thread is in one; a
    `CallInfo` is gone when no thread has a pointer to it. -/
def begin (s : Waiter Tid) (t : Tid) : Operation → Option (Waiter Tid)
  | .createEvent =>
    some { s with next_event := s.next_event + 1, events := Function.update s.events s.next_event (some []) }
  | .counterEvent own interpret_as_cancel =>
    some ({ s with
      next_event := s.next_event + 1
      events := Function.update s.events s.next_event (some []) }.bindCheck
        s.next_event ⟨.change own 0,interpret_as_cancel,0⟩ (some own))
  | .createCallInfo address =>
    some { s with
      next_call_info := s.next_call_info + 1
      call_infos := Function.update s.call_infos ⟨address,s.next_call_info⟩ (some 0) }
  | .releaseCallInfo call_info =>
    if s.threads.any fun u => (s.points u).owns call_info then none
    else some { s with call_infos := Function.update s.call_infos call_info none }
  | .bindCall event check_event_id initial_count interpret_as_cancel => do
    let _ ← s.events event
    match s.call_infos check_event_id with
    | none => some s
    | some count =>
      let wait_start_call_count := if initial_count = .current then count else 0
      some (s.goTo t (.bindCheck event ⟨.call check_event_id,interpret_as_cancel,wait_start_call_count⟩
        (some check_event_id.address)))
  | .bindConnect event signal_state signaling_actual_state initial_count interpret_as_cancel => do
    let _ ← s.events event
    if signal_state = .undefined_enum_count then some s
    else
      let wait_start_count := if initial_count = .current then s.conters signaling_actual_state signal_state else 0
      some (s.goTo t (.bindCheck event ⟨.connect signaling_actual_state signal_state,interpret_as_cancel,wait_start_count⟩
        (some signaling_actual_state.address)))
  | .bindEvent event other_shared_checks => do
    let _ ← s.events event
    let others ← s.events other_shared_checks
    some (s.bindEvent event other_shared_checks others)
  | .resetTriggered event wait_next_after => do
    let m_checks ← s.events event
    some (s.resetTriggered wait_next_after m_checks)
  | .destroyEvent event => do
    let m_checks ← s.events event
    if s.threads.any fun u => (s.points u).uses event then none else some (s.destroyEvent event m_checks)
  | .incrementCallCount call_info => do
    let count ← s.call_infos call_info
    some ({ s with call_infos := Function.update s.call_infos call_info (some (count + 1)) }.goTo t (.incremented call_info))
  | .signalChangeState signaling es => some (s.signalChangeState signaling es)
  | .increment check => some (s.increment check)
  | .cancelAllWaits => some s.cancelAllWaits
  | .wait event timed => do
    let m_checks ← s.events event
    some (s.waitDuration t event m_checks timed false)

/-- The thread has done something. -/
def Waiter.join (s : Waiter Tid) (t : Tid) : Waiter Tid := { s with threads := t :: s.threads }
def step (s : Waiter Tid) : Tid × Action → Option (Waiter Tid)
  | (t,.start operation) => if (s.points t).ready then begin ((s.goTo t .idle).join t) t operation else none
  | (t,.next) =>
    match s.points t with
    | .bindCheck event check filter_id => some ((s.bindCheck event check filter_id).goTo t .idle)
    | .incremented call_info => some ((s.checkConditionChanged (some call_info.address)).goTo t .idle)
    | _ => none
  | (t,.wake timed_out) =>
    match s.points t with
    | .blocked event timed => do
      let m_checks ← s.events event
      if timed_out && !timed then none
      else some ({ s with condition_events := s.condition_events.wake t }.waitDuration t event m_checks timed timed_out)
    | _ => none

/-! ### What the sections do -/

def newBindings (event : EventPtr) (entries : List (CheckPtr × FilterId)) : List Binding :=
  entries.map fun entry => ⟨event,entry.1,entry.2⟩
theorem newBindings_own (event : EventPtr) (entries : List (CheckPtr × FilterId)) :
    (newBindings event entries).filter (fun b => b.event = event) = newBindings event entries := by
  refine List.filter_eq_self.mpr fun b member => ?_
  obtain ⟨entry,-,rfl⟩ := List.mem_map.mp member
  exact decide_eq_true rfl
theorem newBindings_other {event e : EventPtr} (other : e ≠ event) (entries : List (CheckPtr × FilterId)) :
    (newBindings event entries).filter (fun b => b.event = e) = [] := by
  refine List.filter_eq_nil_iff.mpr fun b member => ?_
  obtain ⟨entry,-,rfl⟩ := List.mem_map.mp member
  simpa using other.symm

/-- Checks that are inserted with their ids. -/
def Waiter.inserted (s : Waiter Tid) (event : EventPtr) (entries : List (CheckPtr × FilterId)) : Waiter Tid :=
  { s with
    change_filter := addKeys (entries.map Prod.snd) s.change_filter
    events := Function.update s.events event ((s.events event).map (· ++ entries.map Prod.fst))
    bindings := s.bindings ++ newBindings event entries }

theorem insertSharedCheckLocked_inserted (s : Waiter Tid) (event : EventPtr) (p : CheckPtr) (filter_id : FilterId) :
    s.insertSharedCheckLocked event p filter_id = s.inserted event [(p,filter_id)] := rfl
theorem inserted_append (s : Waiter Tid) (event : EventPtr) (first later : List (CheckPtr × FilterId)) :
    (s.inserted event first).inserted event later = s.inserted event (first ++ later) := by
  simp [Waiter.inserted,addKeys_append,newBindings,Function.comp_def]
theorem insertAll_inserted (s : Waiter Tid) (event : EventPtr) (others : List CheckPtr) :
    s.insertAll event others = s.inserted event (others.map fun p => (p,s.filterIdOf p)) := by
  have nothing : s.inserted event [] = s := by
    simp [Waiter.inserted,addKeys,newBindings]
  suffices later : ∀ entries, (s.inserted event entries).insertAll event others =
      s.inserted event (entries ++ others.map fun p => (p,s.filterIdOf p)) by
    have all := later []
    rwa [nothing] at all
  intro entries
  induction others generalizing entries with
  | nil => rw [List.map_nil,List.append_nil]; rfl
  | cons p rest ih =>
    rw [Waiter.insertAll,insertSharedCheckLocked_inserted,inserted_append,ih,List.append_assoc]
    rfl
theorem eraseFilterId_erased (s : Waiter Tid) (m_checks : List CheckPtr) :
    m_checks.foldl Waiter.eraseFilterId s =
      { s with change_filter := eraseKeys (m_checks.map s.filterIdOf) s.change_filter } := by
  induction m_checks generalizing s with
  | nil => rfl
  | cons p rest ih =>
    rw [List.foldl_cons,ih]
    rfl

theorem destroyEvent_eq (s : Waiter Tid) (event : EventPtr) (m_checks : List CheckPtr) :
    s.destroyEvent event m_checks = { s with
      change_filter := eraseKeys (m_checks.map s.filterIdOf) s.change_filter
      condition_events := if m_checks.isEmpty then s.condition_events else s.condition_events.notifyAll
      events := Function.update s.events event none } := by
  unfold Waiter.destroyEvent
  rw [eraseFilterId_erased]
  dsimp only
  split <;> rfl

/-! ### The steps -/

/-- What the beginning of an operation can be. -/
inductive Begun (s : Waiter Tid) (t : Tid) : Operation → Waiter Tid → Prop
  | nothing (operation : Operation) (spared : ∀ event, operation ≠ .destroyEvent event) : Begun s t operation s
  | createEvent :
      Begun s t .createEvent
        { s with next_event := s.next_event + 1, events := Function.update s.events s.next_event (some []) }
  | counterEvent (own : Address) (interpret_as_cancel : Bool) :
      Begun s t (.counterEvent own interpret_as_cancel)
        ({ s with
          next_event := s.next_event + 1
          events := Function.update s.events s.next_event (some []) }.bindCheck
            s.next_event ⟨.change own 0,interpret_as_cancel,0⟩ (some own))
  | createCallInfo (address : Address) :
      Begun s t (.createCallInfo address)
        { s with
          next_call_info := s.next_call_info + 1
          call_infos := Function.update s.call_infos ⟨address,s.next_call_info⟩ (some 0) }
  | releaseCallInfo (r : ObjectPtr) (unowned : ∀ u ∈ s.threads, (s.points u).owns r = false) :
      Begun s t (.releaseCallInfo r) { s with call_infos := Function.update s.call_infos r none }
  | binds (operation : Operation) (spared : ∀ event, operation ≠ .destroyEvent event)
      (event : EventPtr) (check : Check) (filter_id : FilterId) (alive : (s.events event).isSome) (named : filter_id.isSome) (same : s.getFilterId check = filter_id) :
      Begun s t operation (s.goTo t (.bindCheck event check filter_id))
  | bindEvent (event other : EventPtr) (others : List CheckPtr) (alive : (s.events event).isSome)
      (there : s.events other = some others) :
      Begun s t (.bindEvent event other) (s.insertAll event others).notifyAll
  | resetTriggered (event : EventPtr) (wait_next_after : ResetType) (m_checks : List CheckPtr) :
      Begun s t (.resetTriggered event wait_next_after) (s.resetTriggered wait_next_after m_checks)
  | destroyEvent (event : EventPtr) (m_checks : List CheckPtr) (there : s.events event = some m_checks)
      (unused : ∀ u ∈ s.threads, (s.points u).uses event = false) :
      Begun s t (.destroyEvent event) (s.destroyEvent event m_checks)
  | incrementCallCount (r : ObjectPtr) (count : TCounter) (there : s.call_infos r = some count) :
      Begun s t (.incrementCallCount r)
        ({ s with call_infos := Function.update s.call_infos r (some (count + 1)) }.goTo t (.incremented r))
  | signalChangeState (signaling : ObjectPtr) (es : State) (counted : ObjectPtr → State → TCounter) :
      Begun s t (.signalChangeState signaling es) { s with conters := counted }.notifyAll
  | increment (p : CheckPtr) (own : Address) (count start : TCounter) (interpret_as_cancel : Bool)
      (there : s.checks p = some ⟨.change own count,interpret_as_cancel,start⟩) :
      Begun s t (.increment p)
        { s with checks := Function.update s.checks p (some ⟨.change own (count + 1),interpret_as_cancel,start⟩) }.notifyAll
  | cancelAllWaits : Begun s t .cancelAllWaits s.cancelAllWaits
  | wait (event : EventPtr) (timed : Bool) (m_checks : List CheckPtr) (there : s.events event = some m_checks) :
      Begun s t (.wait event timed) (s.waitDuration t event m_checks timed false)

theorem begin_begun {s s' : Waiter Tid} {t : Tid} {operation : Operation} (begins : begin s t operation = some s') :
    Begun s t operation s' := by
  cases operation with
  | createEvent => cases begins; exact .createEvent
  | counterEvent own interpret_as_cancel => cases begins; exact .counterEvent own interpret_as_cancel
  | createCallInfo address => cases begins; exact .createCallInfo address
  | releaseCallInfo r =>
    simp only [begin] at begins
    split at begins
    · cases begins
    · rename_i unowned
      cases begins
      exact .releaseCallInfo r (by simpa using unowned)
  | bindCall event r initial_count interpret_as_cancel =>
    obtain ⟨m_checks,there,rest⟩ := Option.bind_eq_some_iff.mp begins
    cases count : s.call_infos r with
    | none => rw [count] at rest; cases rest; exact .nothing _ (by rintro _ ⟨⟩)
    | some value =>
      rw [count] at rest
      cases rest
      exact .binds _ (by rintro _ ⟨⟩) event _ _ (by rw [there]; rfl) rfl (by simp [Waiter.getFilterId,count])
  | bindConnect event signal_state signaling initial_count interpret_as_cancel =>
    obtain ⟨m_checks,there,rest⟩ := Option.bind_eq_some_iff.mp begins
    split at rest
    · cases rest; exact .nothing _ (by rintro _ ⟨⟩)
    · cases rest
      exact .binds _ (by rintro _ ⟨⟩) event _ _ (by rw [there]; rfl) rfl rfl
  | bindEvent event other =>
    obtain ⟨m_checks,there,rest⟩ := Option.bind_eq_some_iff.mp begins
    obtain ⟨others,shared,bound⟩ := Option.bind_eq_some_iff.mp rest
    cases bound
    unfold Waiter.bindEvent
    split
    · exact .nothing _ (by rintro _ ⟨⟩)
    · exact .bindEvent event other others (by rw [there]; rfl) shared
  | resetTriggered event wait_next_after =>
    obtain ⟨m_checks,there,rest⟩ := Option.bind_eq_some_iff.mp begins
    cases rest; exact .resetTriggered event wait_next_after m_checks
  | destroyEvent event =>
    obtain ⟨m_checks,there,rest⟩ := Option.bind_eq_some_iff.mp begins
    split at rest
    · cases rest
    · rename_i unused
      cases rest
      exact .destroyEvent event m_checks there (by simpa using unused)
  | incrementCallCount r =>
    obtain ⟨count,there,rest⟩ := Option.bind_eq_some_iff.mp begins
    cases rest; exact .incrementCallCount r count there
  | signalChangeState signaling es =>
    cases begins
    unfold Waiter.signalChangeState
    split
    · exact .nothing _ (by rintro _ ⟨⟩)
    · exact .signalChangeState signaling es _
  | increment p =>
    cases begins
    unfold Waiter.increment
    split
    · exact .increment p _ _ _ _ ‹_›
    · exact .nothing _ (by rintro _ ⟨⟩)
  | cancelAllWaits => cases begins; exact .cancelAllWaits
  | wait event timed =>
    obtain ⟨m_checks,there,rest⟩ := Option.bind_eq_some_iff.mp begins
    cases rest; exact .wait event timed m_checks there

/-- What a step can be. -/
inductive Stepped (s : Waiter Tid) (t : Tid) : Action → Waiter Tid → Prop
  | start (operation : Operation) (s' : Waiter Tid) (is_ready : (s.points t).ready)
      (begun : Begun ((s.goTo t .idle).join t) t operation s') :
      Stepped s t (.start operation) s'
  | bindCheck (event : EventPtr) (check : Check) (filter_id : FilterId) (there : s.points t = .bindCheck event check filter_id) :
      Stepped s t .next ((s.bindCheck event check filter_id).goTo t .idle)
  | notifies (r : ObjectPtr) (there : s.points t = .incremented r) :
      Stepped s t .next ((s.checkConditionChanged (some r.address)).goTo t .idle)
  | wakes (event : EventPtr) (timed timed_out : Bool) (m_checks : List CheckPtr) (there : s.points t = .blocked event timed)
      (alive : s.events event = some m_checks) :
      Stepped s t (.wake timed_out)
        ({ s with condition_events := s.condition_events.wake t }.waitDuration t event m_checks timed timed_out)

theorem step_stepped {s s' : Waiter Tid} {t : Tid} {action : Action} (stepped : step s (t,action) = some s') :
    Stepped s t action s' := by
  cases action with
  | start operation =>
    simp only [step] at stepped
    split at stepped
    · exact .start operation s' ‹_› (begin_begun stepped)
    · cases stepped
  | next =>
    simp only [step] at stepped
    split at stepped
    · cases stepped; exact .bindCheck _ _ _ ‹_›
    · cases stepped; exact .notifies _ ‹_›
    · cases stepped
  | wake timed_out =>
    simp only [step] at stepped
    split at stepped
    · obtain ⟨m_checks,alive,rest⟩ := Option.bind_eq_some_iff.mp stepped
      split at rest
      · cases rest
      · cases rest
        exact .wakes _ _ timed_out m_checks ‹_› alive
    · cases stepped

end IpcPortable.EventWaiter
