import IpcPortable.TransthreadCaller

/-!
The outcome of a call. Each of the three that write it writes whatever was
there before: the call that was processed, the cancellation of its sender and
the end of its receiver thread. So the state of a waiter is the outcome that
was written last; it is never `cs_inprogress` again, and `WaitProcessing`
answers what it is when it returns.
-/
namespace IpcPortable.CallOutcomes
open IpcPortable.Runs IpcPortable.TransthreadCaller
set_option linter.unusedSectionVars false
variable {Tid : Type} [DecidableEq Tid]

/-! ### The record -/

/-- What an event writes into the waiter. -/
def written (w : WaiterPtr) : Event Tid → Option CallState
  | .resolved v outcome => if v = w then some outcome else none
  | _ => none
/-- What was written into the waiter, in order. -/
def outcomes (w : WaiterPtr) (events : List (Event Tid)) : List CallState := events.filterMap (written w)
/-- The outcome that was written last. -/
def outcome (w : WaiterPtr) (events : List (Event Tid)) : CallState := (outcomes w events).getLast?.getD .cs_inprogress

@[simp] theorem outcomes_append (w : WaiterPtr) (events more : List (Event Tid)) :
    outcomes w (events ++ more) = outcomes w events ++ outcomes w more := List.filterMap_append
@[simp] theorem outcomes_resolved (w v : WaiterPtr) (result : CallState) :
    outcomes w [(.resolved v result : Event Tid)] = if v = w then [result] else [] := by
  by_cases same : v = w <;> simp [outcomes,written,same]
@[simp] theorem outcomes_other (w : WaiterPtr) {event : Event Tid} (other : ∀ v result, event ≠ .resolved v result) :
    outcomes w [event] = [] := by
  cases event with
  | resolved v result => exact absurd rfl (other v result)
  | _ => rfl
theorem outcome_none {w : WaiterPtr} {events : List (Event Tid)} (nothing : outcomes w events = []) :
    outcome w events = .cs_inprogress := by
  simp [outcome,nothing]
theorem outcome_append_none {w : WaiterPtr} (events : List (Event Tid)) {more : List (Event Tid)}
    (nothing : outcomes w more = []) : outcome w (events ++ more) = outcome w events := by
  simp [outcome,nothing]
theorem outcome_resolved (w : WaiterPtr) (events : List (Event Tid)) (result : CallState) :
    outcome w (events ++ [.resolved w result]) = result := by
  simp [outcome]
theorem mem_outcomes {w : WaiterPtr} {events : List (Event Tid)} {result : CallState} :
    result ∈ outcomes w events ↔ .resolved w result ∈ events := by
  simp only [outcomes,List.mem_filterMap]
  constructor
  · rintro ⟨event,member,writes⟩
    cases event with
    | resolved v other =>
      simp only [written] at writes
      split at writes
      · subst v; cases writes; exact member
      · cases writes
    | _ => cases writes
  · intro member
    exact ⟨_,member,by simp [written]⟩

/-- Once there is an outcome, there is one for ever. -/
theorem outcome_settled {w : WaiterPtr} {events : List (Event Tid)} (settles : .cs_inprogress ∉ outcomes w events) :
    outcome w events ≠ .cs_inprogress ↔ outcomes w events ≠ [] := by
  constructor
  · intro settled nothing
    exact settled (outcome_none nothing)
  · intro something back
    refine settles ?_
    rw [outcome,List.getLast?_eq_some_getLast something,Option.getD_some] at back
    exact back ▸ List.getLast_mem something

/-- The outcome was written. -/
theorem outcome_written {w : WaiterPtr} {events : List (Event Tid)} (settled : outcome w events ≠ .cs_inprogress) :
    .resolved w (outcome w events) ∈ events := by
  unfold outcome at settled ⊢
  cases last : (outcomes w events).getLast? with
  | none => rw [last] at settled; exact absurd rfl settled
  | some result => exact mem_outcomes.mp (List.mem_of_getLast? last)

/-! ### What a caller records -/

/-- The waiters are in the state that the record says, and what
    `WaitProcessing` answered is what had been written before. -/
structure Recorded (s : Caller Tid) : Prop where
  fresh : ∀ w, s.next_waiter ≤ w → s.waiters w = none
  state : ∀ w d, s.waiters w = some d → d.m_call_state = outcome w s.events
  absent : ∀ w, s.waiters w = none → outcomes w s.events = []
  settles : ∀ w, .cs_inprogress ∉ outcomes w s.events
  truthful : ∀ before t w result, before ++ [.waited t w result] <+: s.events →
    result = outcome w before ∧ result ≠ .cs_inprogress

theorem Recorded.atReceiver {s : Caller Tid} (recorded : Recorded s) (r : ReceiverPtr Tid)
    (change : ThreadCallReceiver Tid → ThreadCallReceiver Tid) : Recorded (s.atReceiver r change) :=
  ⟨recorded.fresh,recorded.state,recorded.absent,recorded.settles,recorded.truthful⟩
theorem Recorded.withLock {s : Caller Tid} (recorded : Recorded s) (lock : Option Tid) :
    Recorded { s with lock_threads := lock } :=
  ⟨recorded.fresh,recorded.state,recorded.absent,recorded.settles,recorded.truthful⟩
theorem Recorded.withThreads {s : Caller Tid} (recorded : Recorded s) (threads : Tid → Option (ReceiverPtr Tid)) :
    Recorded { s with threads := threads } :=
  ⟨recorded.fresh,recorded.state,recorded.absent,recorded.settles,recorded.truthful⟩
theorem Recorded.atWaiter {s : Caller Tid} (recorded : Recorded s) (w : WaiterPtr)
    {change : CallWaiterPrivate Tid → CallWaiterPrivate Tid} (same : ∀ d, (change d).m_call_state = d.m_call_state) :
    Recorded (s.atWaiter w change) := by
  refine ⟨?_,?_,?_,recorded.settles,recorded.truthful⟩
  · intro v new
    by_cases changed : v = w
    · subst changed; simp [recorded.fresh v new]
    · simp [changed,recorded.fresh v new]
  · intro v d present
    by_cases changed : v = w
    · subst changed
      obtain ⟨before,was,rfl⟩ := Option.map_eq_some_iff.mp (by simpa using present)
      exact (same before).trans (recorded.state v before was)
    · exact recorded.state v d (by simpa [changed] using present)
  · intro v gone
    by_cases changed : v = w
    · subst changed; exact recorded.absent v (by simpa using gone)
    · exact recorded.absent v (by simpa [changed] using gone)
/-- An event that is no outcome, and that says the truth where it is an answer. -/
theorem Recorded.record {s : Caller Tid} (recorded : Recorded s) {event : Event Tid}
    (other : ∀ v result, event ≠ .resolved v result)
    (truth : ∀ t w result, event = .waited t w result → result = outcome w s.events ∧ result ≠ .cs_inprogress) :
    Recorded (s.record event) := by
  refine ⟨recorded.fresh,?_,?_,?_,?_⟩
  · intro w d present
    rw [record_events,outcome_append_none _ (outcomes_other w other)]
    exact recorded.state w d present
  · intro w gone
    simpa [outcomes_other w other] using recorded.absent w gone
  · intro w
    simpa [outcomes_other w other] using recorded.settles w
  · intro before t w result said
    rcases List.prefix_concat_iff.mp said with last | earlier
    · obtain ⟨rfl,same⟩ := List.append_inj' last rfl
      exact truth t w result (List.cons.inj same).1.symm
    · exact recorded.truthful before t w result earlier
/-- An event that tells nothing of outcomes. -/
def Plain : Event Tid → Bool
  | .resolved _ _ => false
  | .waited _ _ _ => false
  | _ => true
theorem Recorded.recordPlain {s : Caller Tid} (recorded : Recorded s) {event : Event Tid} (plain : Plain event = true) :
    Recorded (s.record event) := by
  refine recorded.record ?_ ?_
  · rintro v result rfl
    cases plain
  · rintro t w result rfl
    cases plain
theorem Recorded.resolve {s : Caller Tid} (recorded : Recorded s) (w : WaiterPtr) {result : CallState}
    (settled : result ≠ .cs_inprogress) : Recorded (s.resolve w result) := by
  cases present : s.waiters w with
  | none => rw [resolve_absent s present]; exact recorded
  | some found =>
    refine ⟨?_,?_,?_,?_,?_⟩
    · intro v new
      have other : v ≠ w := by
        rintro rfl
        rw [resolve_next_waiter] at new
        cases (recorded.fresh v new).symm.trans present
      simpa [other] using recorded.fresh v (by simpa using new)
    · intro v d is
      simp only [resolve_events,present,Option.isSome_some,if_true]
      by_cases changed : v = w
      · subst changed
        rw [outcome_resolved]
        simp only [resolve_waiters,present,Function.update_self,Option.map_some,Option.some.injEq] at is
        exact is ▸ rfl
      · rw [outcome_append_none _ (by simp [Ne.symm changed])]
        exact recorded.state v d (by simpa [changed] using is)
    · intro v gone
      have other : v ≠ w := by
        rintro rfl
        simp [present] at gone
      simpa [present,other,Ne.symm other] using recorded.absent v (by simpa [other] using gone)
    · intro v
      by_cases changed : v = w
      · subst changed; simpa [present,Ne.symm settled] using recorded.settles v
      · simpa [present,Ne.symm changed] using recorded.settles v
    · intro before t v answer said
      simp only [resolve_events,present,Option.isSome_some,if_true] at said
      rcases List.prefix_concat_iff.mp said with last | earlier
      · cases (List.cons.inj (List.append_inj' last rfl).2).1
      · exact recorded.truthful before t v answer earlier
theorem Recorded.createWaiter {s : Caller Tid} (recorded : Recorded s) (own found : ReceiverPtr Tid) :
    Recorded (s.createWaiter own found) := by
  have nothing := recorded.absent s.next_waiter (recorded.fresh s.next_waiter (Nat.le_refl _))
  refine ⟨?_,?_,?_,recorded.settles,recorded.truthful⟩
  · intro w new
    simp only [createWaiter_next_waiter] at new
    have other : w ≠ s.next_waiter := Nat.ne_of_gt new
    simpa [other] using recorded.fresh w (Nat.le_of_succ_le new)
  · intro w d present
    by_cases created : w = s.next_waiter
    · subst created
      simp only [createWaiter_waiters,Function.update_self,Option.some.injEq] at present
      exact (present ▸ rfl : d.m_call_state = .cs_inprogress).trans (outcome_none nothing).symm
    · exact recorded.state w d (by simpa [created] using present)
  · intro w gone
    have other : w ≠ s.next_waiter := by
      rintro rfl
      simp at gone
    exact recorded.absent w (by simpa [other] using gone)
theorem Recorded.destroyWaiter {s : Caller Tid} (recorded : Recorded s) (w : WaiterPtr) (d : CallWaiterPrivate Tid) :
    Recorded (s.destroyWaiter w d) := by
  unfold Caller.destroyWaiter
  cases d.m_sender_calls with
  | none => exact recorded.atReceiver _ _
  | some own => exact (recorded.atReceiver _ _).atReceiver _ _

theorem Recorded.store {s : Caller Tid} (recorded : Recorded s) (id : Tid) (r : ReceiverPtr Tid) : Recorded (s.store id r) :=
  (recorded.withThreads _).recordPlain rfl
theorem Recorded.createReceiver {s : Caller Tid} (recorded : Recorded s) (id : Tid) : Recorded (s.createReceiver id).1 :=
  ⟨recorded.fresh,recorded.state,recorded.absent,recorded.settles,recorded.truthful⟩
theorem Recorded.makeFindThread {s : Caller Tid} (recorded : Recorded s) (id : Tid) : Recorded (s.makeFindThread id).1 := by
  cases present : s.threads id with
  | some r => rw [makeFindThread_found s present]; exact recorded
  | none => rw [makeFindThread_absent s present]; exact (recorded.createReceiver id).store id _
theorem Recorded.postCall {s : Caller Tid} (recorded : Recorded s) (sender receiver : Tid) :
    Recorded (s.postCall sender receiver).1 := by
  have created := ((recorded.makeFindThread receiver).makeFindThread sender).createWaiter
    ((s.makeFindThread receiver).1.makeFindThread sender).2 (s.makeFindThread receiver).2
  simp only [Caller.postCall]
  apply Recorded.atReceiver
  split
  · exact created.resolve _ (by decide)
  · exact created

/-! ### Every step keeps the record -/

theorem advanced_recorded {s after : Caller Tid} {t : Tid} {frame : Frame Tid} {frames : List (Frame Tid)}
    (advanced : Advanced s t frame after frames) (recorded : Recorded s)
    (left : ∀ w, frame = .wait w .leave → outcome w s.events ≠ .cs_inprogress) : Recorded after := by
  cases advanced with
  | addCreate id => exact recorded.createReceiver id
  | addStore id r => exact recorded.store id r
  | post id => exact recorded.postCall t id
  | notify r w => exact (recorded.atReceiver r _).atWaiter w fun _ => rfl
  | answers w d present =>
    have answer := recorded.state w d present
    refine Recorded.record (recorded.atWaiter w ?_) ?_ ?_
    · intro _; rfl
    · rintro v result ⟨⟩
    · rintro u v result ⟨⟩
      exact ⟨answer,answer ▸ left w rfl⟩
  | takes r w rest queued => exact (recorded.atReceiver r _).recordPlain rfl
  | callDone w => exact (recorded.resolve w (by decide)).atWaiter w fun _ => rfl
  | cancel id r set => exact recorded.withLock _
  | cancels r w rest => exact recorded.resolve w (by decide)
  | canceled r => exact (recorded.withLock none).atReceiver r _
  | finish r unlocked found =>
    exact ((recorded.withLock _).withThreads _).recordPlain rfl
  | finishes w rest => exact recorded.resolve w (by decide)
  | finished => exact recorded.withLock none
  | raised w d | blocks w d | wakes w d | proceeds w d => exact recorded.atReceiver _ _
  | _ => exact recorded

/-- What was recorded stays. -/
theorem makeFindThread_events (s : Caller Tid) (id : Tid) : s.events <+: (s.makeFindThread id).1.events := by
  cases present : s.threads id with
  | some r => exact ⟨[],by rw [makeFindThread_found s present,List.append_nil]⟩
  | none => rw [makeFindThread_absent s present]; exact List.prefix_append _ _
theorem postCall_events (s : Caller Tid) (sender receiver : Tid) : s.events <+: (s.postCall sender receiver).1.events := by
  have found := (makeFindThread_events s receiver).trans (makeFindThread_events (s.makeFindThread receiver).1 sender)
  refine found.trans ?_
  simp only [Caller.postCall,atReceiver_events]
  split
  · simp [Caller.callCancel]
  · simp
theorem advanced_events {s after : Caller Tid} {t : Tid} {frame : Frame Tid} {frames : List (Frame Tid)}
    (advanced : Advanced s t frame after frames) : s.events <+: after.events := by
  cases advanced with
  | post id => exact postCall_events s t id
  | addCreate id => exact List.prefix_refl _
  | addStore id r | answers w d | takes r w rest | finish r => exact List.prefix_append _ _
  | callDone w | cancels r w rest | finishes w rest =>
    simp [Caller.callDone,Caller.callCancel,Caller.setReceiverThreadFinished]
  | _ => exact List.prefix_refl _
theorem outcome_stays {w : WaiterPtr} {events later : List (Event Tid)} (grows : events <+: later)
    (settles : .cs_inprogress ∉ outcomes w later) (settled : outcome w events ≠ .cs_inprogress) :
    outcome w later ≠ .cs_inprogress := by
  obtain ⟨more,rfl⟩ := grows
  rw [outcomes_append] at settles
  have something := (outcome_settled fun before => settles (List.mem_append_left _ before)).mp settled
  refine (outcome_settled (by rwa [outcomes_append])).mpr ?_
  rw [outcomes_append]
  exact List.append_ne_nil_of_left_ne_nil something _

/-- The record is true, and who is about to answer has an outcome to answer. -/
structure Answering (s : System Tid) : Prop where
  recorded : Recorded s.caller
  leaves : ∀ t w, .wait w .leave ∈ s.frames t → outcome w s.caller.events ≠ .cs_inprogress

/-- A wait begins to leave when there is an outcome. -/
theorem advanced_leaves {s after : Caller Tid} {t : Tid} {frame : Frame Tid} {frames : List (Frame Tid)}
    (advanced : Advanced s t frame after frames) (recorded : Recorded s) {w : WaiterPtr}
    (begins : .wait w .leave ∈ frames) : outcome w s.events ≠ .cs_inprogress := by
  cases advanced with
  | leaves v d present settled | wakes v d present settled =>
    simp only [List.mem_singleton,Frame.wait.injEq,and_true] at begins
    subst begins
    exact recorded.state w d present ▸ settled
  | _ => simp at begins

theorem step_answering : Preserves step fun s : System Tid => Answering s := by
  rintro s ⟨t,action⟩ s' ⟨recorded,leaves⟩ stepped
  cases step_stepped stepped with
  | start operation caller frame is_ready begins =>
    have same : Recorded caller ∧ caller.events = s.caller.events ∧ ∀ w, frame ≠ .wait w .leave := by
      cases begins with
      | waitProcessing w d present => exact ⟨recorded.atWaiter w fun _ => rfl,rfl,fun v => by rintro ⟨⟩⟩
      | _ => exact ⟨recorded,rfl,fun v => by rintro ⟨⟩⟩
    refine ⟨same.1,?_⟩
    intro u w member
    rw [same.2.1]
    by_cases acts : u = t
    · subst acts
      simp only [Function.update_self,List.mem_cons] at member
      rcases member with this | below
      · exact absurd this.symm (same.2.2 w)
      · exact leaves u w below
    · exact leaves u w (by simpa [acts] using member)
  | next frame below after frames top advanced =>
    have left : ∀ w, frame = .wait w .leave → outcome w s.caller.events ≠ .cs_inprogress :=
      fun w is => leaves t w (by rw [top,is]; exact List.mem_cons_self)
    have recorded' := advanced_recorded advanced recorded left
    refine ⟨recorded',?_⟩
    intro u w member
    refine outcome_stays (advanced_events advanced) (recorded'.settles w) ?_
    by_cases acts : u = t
    · subst acts
      simp only [Function.update_self,List.mem_append] at member
      rcases member with begins | stayed
      · exact advanced_leaves advanced recorded begins
      · exact leaves u w (by rw [top]; exact List.mem_cons_of_mem _ stayed)
    · exact leaves u w (by simpa [acts] using member)
  | release w d present => exact ⟨recorded.atWaiter w fun _ => rfl,leaves⟩
  | destroy w d present processed => exact ⟨recorded.destroyWaiter w d,by simpa using leaves⟩

/-! ### The outcome -/

/-- What a frame writes into which waiter. -/
def writes : Frame Tid → Option (WaiterPtr × CallState)
  | .callDone (some w) => some (w,.cs_done)
  | .cancelLoop _ (w :: _) => some (w,.cs_canceled)
  | .finishLoop (w :: _) => some (w,.cs_receiver_thread_finished)
  | _ => none

theorem resolve_state {s : Caller Tid} {v w : WaiterPtr} {result : CallState} {d d' : CallWaiterPrivate Tid}
    (present : s.waiters w = some d) (later : (s.resolve v result).waiters w = some d') :
    d'.m_call_state = d.m_call_state ∨ v = w ∧ d'.m_call_state = result := by
  rw [resolve_waiters] at later
  by_cases same : w = v
  · subst same
    rw [Function.update_self,present] at later
    cases later; exact .inr ⟨rfl,rfl⟩
  · rw [Function.update_of_ne same,present] at later
    cases later; exact .inl rfl
theorem atWaiter_state {s : Caller Tid} {v w : WaiterPtr} {change : CallWaiterPrivate Tid → CallWaiterPrivate Tid}
    {d d' : CallWaiterPrivate Tid} (present : s.waiters w = some d) (later : (s.atWaiter v change).waiters w = some d')
    (same : ∀ d, (change d).m_call_state = d.m_call_state) :
    d'.m_call_state = d.m_call_state := by
  rw [atWaiter_waiters] at later
  by_cases changed : w = v
  · subst changed
    rw [Function.update_self,present] at later
    cases later; exact same d
  · rw [Function.update_of_ne changed,present] at later
    cases later; rfl
theorem postCall_state {s : Caller Tid} (recorded : Recorded s) {sender receiver : Tid} {w : WaiterPtr}
    {d d' : CallWaiterPrivate Tid} (present : s.waiters w = some d)
    (later : (s.postCall sender receiver).1.waiters w = some d') : d' = d := by
  have old : w ≠ s.next_waiter := by
    rintro rfl
    cases (recorded.fresh s.next_waiter (Nat.le_refl _)).symm.trans present
  simp only [Caller.postCall,atReceiver_waiters] at later
  split at later
  · simp [Caller.callCancel,old,present] at later
    exact later.symm
  · simp [old,present] at later
    exact later.symm

/-- The state of a waiter changes where a frame writes it. -/
theorem advanced_state {s after : Caller Tid} {t : Tid} {frame : Frame Tid} {frames : List (Frame Tid)}
    (advanced : Advanced s t frame after frames) (recorded : Recorded s) {w : WaiterPtr} {d d' : CallWaiterPrivate Tid}
    (present : s.waiters w = some d) (later : after.waiters w = some d') :
    d'.m_call_state = d.m_call_state ∨ writes frame = some (w,d'.m_call_state) := by
  have unchanged : ∀ a, s.waiters = a → a w = some d' → d'.m_call_state = d.m_call_state := by
    rintro a rfl is
    exact congrArg CallWaiterPrivate.m_call_state (Option.some.inj (is.symm.trans present))
  cases advanced with
  | post id => exact .inl (congrArg CallWaiterPrivate.m_call_state (postCall_state recorded present later))
  | notify r v => exact .inl (atWaiter_state (s := s.atReceiver r _) present later fun _ => rfl)
  | answers v => exact .inl (atWaiter_state present later fun _ => rfl)
  | callDone v =>
    obtain ⟨between,was⟩ : ∃ between, (s.callDone v).waiters w = some between := by
      simp only [Caller.callDone,resolve_waiters]
      by_cases same : w = v
      · subst same; exact ⟨_,by rw [Function.update_self,present]; rfl⟩
      · exact ⟨d,by rw [Function.update_of_ne same,present]⟩
    have kept := atWaiter_state was later fun _ => rfl
    rcases resolve_state present was with same | ⟨rfl,is⟩
    · exact .inl (kept.trans same)
    · exact .inr (by rw [kept,is]; rfl)
  | cancels r v rest | finishes v rest =>
    rcases resolve_state present later with same | ⟨rfl,is⟩
    · exact .inl same
    · exact .inr (by rw [is]; rfl)
  | _ => exact .inl (unchanged _ rfl later)

theorem writes_settled {frame : Frame Tid} {w : WaiterPtr} {result : CallState}
    (write : writes frame = some (w,result)) : result ≠ .cs_inprogress := by
  unfold writes at write
  split at write <;> cases write <;> decide
theorem step_state {s s' : System Tid} {t : Tid} {action : Action Tid} (stepped : step s (t,action) = some s')
    (recorded : Recorded s.caller) {w : WaiterPtr} {d d' : CallWaiterPrivate Tid}
    (present : s.caller.waiters w = some d) (later : s'.caller.waiters w = some d') :
    d'.m_call_state = d.m_call_state ∨
      action = .next ∧ ∃ frame below, s.frames t = frame :: below ∧ writes frame = some (w,d'.m_call_state) := by
  have unchanged : ∀ a, s.caller.waiters = a → a w = some d' → d'.m_call_state = d.m_call_state := by
    rintro a rfl is
    exact congrArg CallWaiterPrivate.m_call_state (Option.some.inj (is.symm.trans present))
  cases step_stepped stepped with
  | start operation caller frame is_ready begins =>
    cases begins with
    | waitProcessing v => exact .inl (atWaiter_state present later fun _ => rfl)
    | _ => exact .inl (unchanged _ rfl later)
  | next frame below after frames top advanced =>
    rcases advanced_state advanced recorded present later with same | write
    · exact .inl same
    · exact .inr ⟨rfl,frame,below,top,write⟩
  | release v => exact .inl (atWaiter_state present later fun _ => rfl)
  | destroy v d processed => exact .inl (unchanged _ (destroyWaiter_waiters _ _ _).symm later)

theorem answering_init : Answering ({} : System Tid) where
  recorded := {
    fresh := fun _ _ => rfl
    state := fun _ _ present => by cases present
    absent := fun _ _ => rfl
    settles := fun _ => List.not_mem_nil
    truthful := fun _ _ _ _ said => by simp at said }
  leaves := fun _ _ member => (List.not_mem_nil member).elim

/-- The state of a waiter is what was written last. Once it is not
    `cs_inprogress` it never is again and changes only where another outcome is
    written, and `WaitProcessing` answers what was written last before it returned. -/
theorem last_outcome (actions : List (Tid × Action Tid)) :
    let s := run step {} actions
    (∀ w d, s.caller.waiters w = some d → d.m_call_state = outcome w s.caller.events) ∧
      (∀ before t w result, before ++ [.waited t w result] <+: s.caller.events →
        result = outcome w before ∧ result ≠ .cs_inprogress) ∧
      (∀ before between t w result, before ++ .resolved w .cs_done :: between ++ [.waited t w result] <+: s.caller.events →
        (∀ other, .resolved w other ∉ between) → result = .cs_done) ∧
      ∀ t action s' w d d', step s (t,action) = some s' → s.caller.waiters w = some d → s'.caller.waiters w = some d' →
        d.m_call_state ≠ .cs_inprogress → d'.m_call_state ≠ .cs_inprogress ∧
          (d'.m_call_state = d.m_call_state ∨
            action = .next ∧ ∃ frame below, s.frames t = frame :: below ∧ writes frame = some (w,d'.m_call_state)) := by
  intro s
  obtain ⟨recorded,-⟩ : Answering s := step_answering.run answering_init actions
  refine ⟨recorded.state,recorded.truthful,?_,?_⟩
  · intro before between t w result said only
    rw [(recorded.truthful _ t w result said).1]
    have nothing : outcomes w between = [] :=
      List.eq_nil_iff_forall_not_mem.mpr fun other member => only other (mem_outcomes.mp member)
    rw [← List.singleton_append,← List.append_assoc,outcome_append_none _ nothing,outcome_resolved]
  · intro t action s' w d d' stepped present later settled
    have change := step_state stepped recorded present later
    refine ⟨?_,change⟩
    rcases change with same | ⟨-,frame,below,-,write⟩
    · exact same ▸ settled
    · exact writes_settled write

/-- The thread `false` calls the thread `true`, which processes the call, and waits for it. -/
def done_call : List (Bool × Action Bool) :=
  [(false,.start (.callFromThread (some true))),(false,.next),(false,.next),
    (true,.start .processCalls),(true,.next),(true,.next),(true,.next),(true,.next),(true,.next),
    (false,.start (.waitProcessing 0)),(false,.next),(false,.next)]
/-- Its calls are canceled, and it waits for the same call. -/
def canceled_later : List (Bool × Action Bool) :=
  [(true,.start (.cancelDisableWaitingCall false)),(true,.next),(true,.next),(true,.next),
    (false,.start (.waitProcessing 0)),(false,.next),(false,.next)]
/-- The call was done and is canceled, and the waits for it answer one thing and then another. -/
theorem done_call_canceled :
    ((run step {} done_call).caller.waiters 0).map CallWaiterPrivate.m_call_state = some .cs_done ∧
      .waited false 0 .cs_done ∈ (run step {} done_call).caller.events ∧
      ((run step {} (done_call ++ canceled_later)).caller.waiters 0).map CallWaiterPrivate.m_call_state = some .cs_canceled ∧
      .waited false 0 .cs_canceled ∈ (run step {} (done_call ++ canceled_later)).caller.events := by
  decide +kernel

end IpcPortable.CallOutcomes
