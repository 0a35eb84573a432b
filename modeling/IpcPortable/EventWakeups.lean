import IpcPortable.WaiterThreads

/-!
No wake-up is lost. A thread goes to sleep under the lock, when no check of its
event is triggered. What triggers one notifies under the same lock, but for the
count of a `CallInfo`, whose notification comes later and only where the filter
has the `CallInfo`. It has every one that an event is bound to (`Adequate`), also
when `CallInfo`s are released and their addresses are used again.
-/
namespace IpcPortable.EventWakeups
open IpcPortable.Runs IpcPortable.Conditions IpcPortable.KeyCounts IpcPortable.EventWaiter IpcPortable.WaiterMoves
open IpcPortable.WaiterThreads
set_option linter.unusedSectionVars false
variable {Tid : Type} [DecidableEq Tid]

/-! ### The filter has what events are bound to -/

/-- The filter has every address at least as often as checks of events that are alive have it. -/
def Adequate (s : Waiter Tid) : Prop :=
  ∀ address, (live s).countP (fun b => s.filterIdOf b.check = some address) ≤ s.change_filter.count (some address)

theorem move_adequate {s s' : Waiter Tid} (bound : Bound s) (adequate : Adequate s) (move : Move s s') : Adequate s' := by
  -- where the filter and what is bound stay, no check gets an address that it did not have
  have kept : s'.change_filter = s.change_filter → live s' = live s → Adequate s' := by
    intro same_filter same_live address
    rw [same_filter,same_live]
    refine Nat.le_trans (List.countP_mono_left fun b member is => ?_) (adequate address)
    rcases move_filterIdOf bound move (bound.known b (List.mem_of_mem_filter member)).2 with same | gone
    · exact decide_eq_true (same.symm.trans (of_decide_eq_true is))
    · cases gone.symm.trans (of_decide_eq_true is)
  cases move with
  | aside same => exact kept same.change_filter (by rw [live,live,same.bindings,same.events])
  | newEvent => exact kept rfl (live_newEvent bound)
  | inserted event entries alive named =>
    intro address
    have ids : entries.countP (fun entry => s.filterIdOf entry.1 = some address) =
        entries.countP fun entry => entry.2 = some address :=
      List.countP_congr fun entry member => by rw [(named entry member).2]
    have counted := count_addKeys (some address) Prod.snd entries s.change_filter
    rw [live_inserted alive,List.countP_append,newBindings,List.countP_map]
    exact (Nat.add_le_add (adequate address) ids.le).trans counted.ge
  | newCheck => exact kept rfl rfl
  | newCallInfo => exact kept rfl rfl
  | release => exact kept rfl rfl
  | counted => exact kept rfl rfl
  | recount => exact kept rfl rfl
theorem erased_adequate {s : Waiter Tid} (bound : Bound s) (adequate : Adequate s) {event : EventPtr}
    {m_checks : List CheckPtr} (there : s.events event = some m_checks) : Adequate (erased s event m_checks) := by
  intro address
  have loses : (erased s event m_checks).change_filter.count (some address) = s.change_filter.count (some address) -
      (s.bindings.filter fun b => b.event = event).countP fun b => s.filterIdOf b.check = some address := by
    rw [erased,erased_ids bound there]
    exact count_eraseKeys (some address) _ _ _
  have enough := adequate address
  rw [live_parts there] at enough
  have same : ∀ b : Binding, (erased s event m_checks).filterIdOf b.check = s.filterIdOf b.check := fun _ => rfl
  simp only [same]
  omega

/-- What every state of a run is, and its filter. -/
structure Filtered (s : Waiter Tid) : Prop where
  sound : Sound s
  adequate : Adequate s

theorem step_filtered : Preserves step (Filtered : Waiter Tid → Prop) := by
  rintro s ⟨t,action⟩ s' ⟨sound,adequate⟩ stepped
  refine ⟨step_sound s (t,action) s' sound stepped,?_⟩
  by_cases destroys : ∃ event, action = .start (.destroyEvent event)
  · obtain ⟨event,rfl⟩ := destroys
    obtain ⟨m_checks,there,same⟩ := step_destroys stepped
    exact move_adequate (erased_bound sound.bound event m_checks) (erased_adequate sound.bound adequate there) (.aside same)
  · have moves := step_moves sound.bound sound.engaged stepped fun event is => destroys ⟨event,is⟩
    suffices both : Bound s' ∧ Adequate s' from both.2
    clear stepped
    induction moves with
    | refl => exact ⟨sound.bound,adequate⟩
    | tail _ move ih => exact ⟨move_bound ih.1 move,move_adequate ih.1 ih.2 move⟩

/-- The filter has the `CallInfo` that a check of an event is bound to. -/
theorem adequate_mem {s : Waiter Tid} (bound : Bound s) (adequate : Adequate s) {event : EventPtr} {m_checks : List CheckPtr}
    (there : s.events event = some m_checks) {p : CheckPtr} (member : p ∈ m_checks) {address : Address}
    (named : s.filterIdOf p = some address) : some address ∈ s.change_filter := by
  rw [bound.m_checks event m_checks there] at member
  obtain ⟨b,own,rfl⟩ := List.mem_map.mp member
  obtain ⟨bound_to,is_event⟩ := List.mem_filter.mp own
  have alive : b ∈ live s := List.mem_filter.mpr ⟨bound_to,by rw [of_decide_eq_true is_event,there]; rfl⟩
  have some_there : 0 < (live s).countP fun b => s.filterIdOf b.check = some address :=
    List.countP_pos_iff.mpr ⟨b,alive,decide_eq_true named⟩
  exact Multiset.count_pos.mp (Nat.lt_of_lt_of_le some_there (adequate address))

/-! ### What a thread waits for -/

/-- Whoever raised the counter of the check has notified since. -/
def Settled (s : Waiter Tid) (check : Check) : Prop := ∀ r, check.counted = .call r → ∀ u, s.points u ≠ .incremented r
/-- The thread is in `Wait` and should not: all waits are cancelled, or a check
    of its event is triggered and was notified. -/
def Due (s : Waiter Tid) (t : Tid) : Prop :=
  ∃ event timed, s.points t = .blocked event timed ∧
    (s.cancel_all_waits ∨ ∃ m_checks, s.events event = some m_checks ∧
      ∃ p ∈ m_checks, ∃ check, s.checks p = some check ∧ s.isTriggered check ∧ Settled s check)

/-- A step, up to what a thread that waits sees of it. -/
structure Unseen (s s' : Waiter Tid) (t : Tid) : Prop where
  points : s'.points t = s.points t
  cancel_all_waits : s'.cancel_all_waits = s.cancel_all_waits
  events : ∀ e m_checks, (s.events e).isSome → s'.events e = some m_checks → s.events e = some m_checks
  checks : ∀ p check', s'.checks p = some check' → s'.isTriggered check' → Settled s' check' →
    ∃ check, s.checks p = some check ∧ s.isTriggered check ∧ Settled s check

theorem Unseen.due {s s' : Waiter Tid} {t : Tid} (engaged : Engaged s) (unseen : Unseen s s' t) (due : Due s' t) : Due s t := by
  obtain ⟨event,timed,there,reason⟩ := due
  rw [unseen.points] at there
  refine ⟨event,timed,there,?_⟩
  rcases reason with canceled | ⟨m_checks,is_event,p,member,check',is,triggered,settled⟩
  · exact .inl (unseen.cancel_all_waits ▸ canceled)
  · have was_event := unseen.events event m_checks (engaged.waiting t event timed there) is_event
    exact .inr ⟨m_checks,was_event,p,member,unseen.checks p check' is triggered settled⟩

theorem isTriggeredLocked_none {s : Waiter Tid} {m_checks : List CheckPtr} (none_is : s.isTriggeredLocked m_checks = none) :
    ∀ p ∈ m_checks, ∀ check, s.checks p = some check → s.isTriggered check = false := by
  induction m_checks with
  | nil => exact fun p member => (List.not_mem_nil member).elim
  | cons first rest ih =>
    intro p member check is
    rw [Waiter.isTriggeredLocked] at none_is
    cases there : s.checks first with
    | none =>
      rw [there] at none_is
      rcases List.mem_cons.mp member with rfl | later
      · cases there.symm.trans is
      · exact ih none_is p later check is
    | some one =>
      rw [there] at none_is
      cases triggered : s.isTriggered one with
      | true => simp [triggered] at none_is
      | false =>
        simp only [triggered] at none_is
        rcases List.mem_cons.mp member with rfl | later
        · cases there.symm.trans is
          exact triggered
        · exact ih none_is p later check is

/-- A thread that falls asleep has nothing to wake up for. -/
theorem waitDuration_own {s : Waiter Tid} {t : Tid} {event : EventPtr} {m_checks : List CheckPtr} {timed timed_out : Bool}
    (alive : s.events event = some m_checks) (awake : t ∉ s.condition_events.blocked)
    (sleeps : t ∈ (s.waitDuration t event m_checks timed timed_out).condition_events.blocked) :
    ¬ Due (s.waitDuration t event m_checks timed timed_out) t := by
  unfold Waiter.waitDuration at sleeps ⊢
  dsimp only at sleeps ⊢
  cases predicate : (if s.cancel_all_waits then some false else s.isTriggeredLocked m_checks) with
  | some interpret_as_cancel =>
    rw [predicate] at sleeps
    exact absurd sleeps awake
  | none =>
    rw [predicate] at sleeps
    cases timed_out with
    | true => exact absurd sleeps awake
    | false =>
      have running : s.cancel_all_waits = false := by
        cases canceled : s.cancel_all_waits with
        | true => simp [canceled] at predicate
        | false => rfl
      have untriggered : s.isTriggeredLocked m_checks = none := by simpa [running] using predicate
      rintro ⟨e,again,there,reason⟩
      cases (Function.update_self _ _ _).symm.trans there
      rcases reason with canceled | ⟨found,is_event,p,member,check,is,triggered,-⟩
      · cases running.symm.trans canceled
      · cases alive.symm.trans is_event
        cases (isTriggeredLocked_none untriggered p member check is).symm.trans triggered

/-! ### What the other threads see of a step -/

/-- A thread that did not raise a count goes to another point. -/
theorem goTo_settled {s : Waiter Tid} {u : Tid} {point : Point} (quiet : ∀ r, s.points u ≠ .incremented r) {check : Check}
    (settled : Settled (s.goTo u point) check) : Settled s check := by
  intro r counts v is
  by_cases same : v = u
  · subst same; exact quiet r is
  · exact settled r counts v ((Function.update_of_ne same _ _).trans is)
theorem goTo_unseen {s : Waiter Tid} {t u : Tid} (other : t ≠ u) (quiet : ∀ r, s.points u ≠ .incremented r) (point : Point) :
    Unseen s (s.goTo u point) t := by
  refine ⟨Function.update_of_ne other _ _,rfl,fun _ _ _ is => is,?_⟩
  exact fun p check is triggered settled => ⟨check,is,triggered,goTo_settled quiet settled⟩
theorem waitDuration_unseen {s : Waiter Tid} {t u : Tid} (other : t ≠ u) (quiet : ∀ r, s.points u ≠ .incremented r)
    (event : EventPtr) (m_checks : List CheckPtr) (timed timed_out : Bool)
    (sleeps : t ∈ (s.waitDuration u event m_checks timed timed_out).condition_events.blocked) :
    t ∈ s.condition_events.blocked ∧ Unseen s (s.waitDuration u event m_checks timed timed_out) t := by
  unfold Waiter.waitDuration at sleeps ⊢
  dsimp only at sleeps ⊢
  cases predicate : (if s.cancel_all_waits then some false else s.isTriggeredLocked m_checks) with
  | some interpret_as_cancel =>
    rw [predicate] at sleeps
    exact ⟨sleeps,goTo_unseen other quiet _⟩
  | none =>
    rw [predicate] at sleeps
    cases timed_out with
    | true => exact ⟨sleeps,goTo_unseen other quiet _⟩
    | false =>
      refine ⟨(mem_wait.mp sleeps).resolve_left other,?_⟩
      obtain ⟨points,canceled,events,checks⟩ := goTo_unseen other quiet (.blocked event timed)
      exact ⟨points,canceled,events,checks⟩

/-- The counters of a check are as they were, or its `CallInfo` is gone. -/
theorem isTriggered_kept {s s' : Waiter Tid} {check : Check} (triggered : s'.isTriggered check)
    (conters : s'.conters = s.conters)
    (call_infos : ∀ r, check.counted = .call r → s'.call_infos r = s.call_infos r ∨ s'.call_infos r = none) :
    s.isTriggered check := by
  unfold Waiter.isTriggered Waiter.getCount at triggered ⊢
  cases counts : check.counted with
  | call r =>
    rw [counts] at triggered
    rcases call_infos r counts with same | gone
    · simpa only [same] using triggered
    · simp [gone] at triggered
  | connect signaling m_signal_state =>
    rw [counts] at triggered
    simpa only [conters] using triggered
  | change own m_actual_count =>
    rw [counts] at triggered
    exact triggered

theorem begun_unseen {s s' : Waiter Tid} {t u : Tid} {operation : Operation} (bound : Bound s)
    (idle : s.points u = .idle) (begun : Begun s u operation s') (other : t ≠ u) (sleeps : t ∈ s'.condition_events.blocked) :
    t ∈ s.condition_events.blocked ∧ Unseen s s' t := by
  have quiet : ∀ r, s.points u ≠ .incremented r := by
    rintro r is
    cases idle.symm.trans is
  cases begun with
  | nothing => exact ⟨sleeps,rfl,rfl,fun _ _ _ is => is,fun p check is triggered settled => ⟨check,is,triggered,settled⟩⟩
  | createEvent =>
    refine ⟨sleeps,rfl,rfl,?_,fun p check is triggered settled => ⟨check,is,triggered,settled⟩⟩
    intro e m_checks alive is
    have old : e ≠ s.next_event := by
      rintro rfl
      rw [bound.new_event _ (Nat.le_refl _)] at alive
      cases alive
    exact (Function.update_of_ne old _ _).symm.trans is
  | counterEvent => cases sleeps
  | createCallInfo address =>
    refine ⟨sleeps,rfl,rfl,fun _ _ _ is => is,?_⟩
    intro p check is triggered settled
    refine ⟨check,is,isTriggered_kept triggered rfl fun r counts => .inl ?_,settled⟩
    have old : r ≠ ⟨address,s.next_call_info⟩ := by
      rintro rfl
      exact absurd (bound.watched p check _ is counts) (Nat.lt_irrefl _)
    exact Function.update_of_ne old _ _
  | releaseCallInfo q unowned =>
    refine ⟨sleeps,rfl,rfl,fun _ _ _ is => is,?_⟩
    intro p check is triggered settled
    refine ⟨check,is,isTriggered_kept triggered rfl fun r _ => ?_,settled⟩
    by_cases same : r = q
    · subst same; exact .inr (Function.update_self _ _ _)
    · exact .inl (Function.update_of_ne same _ _)
  | binds => exact ⟨sleeps,goTo_unseen other quiet _⟩
  | bindEvent => cases sleeps
  | resetTriggered event wait_next_after m_checks =>
    obtain ⟨checks,is_reset,kept⟩ := resetTriggered_checks s wait_next_after m_checks
    rw [is_reset] at sleeps ⊢
    refine ⟨sleeps,rfl,rfl,fun _ _ _ is => is,?_⟩
    intro p changed is triggered settled
    obtain ⟨check,there,was_triggered,same⟩ := kept p changed is triggered
    exact ⟨check,there,was_triggered,fun r counts => settled r (same.symm.trans counts)⟩
  | destroyEvent event m_checks there unused =>
    rw [destroyEvent_eq] at sleeps ⊢
    have slept : t ∈ s.condition_events.blocked := by
      dsimp only at sleeps
      split at sleeps
      · exact sleeps
      · cases sleeps
    refine ⟨slept,rfl,rfl,?_,fun p check is triggered settled => ⟨check,is,triggered,settled⟩⟩
    intro e found _ is
    by_cases same : e = event
    · subst same
      cases (Function.update_self _ _ _).symm.trans is
    · exact (Function.update_of_ne same _ _).symm.trans is
  | incrementCallCount q count there =>
    refine ⟨sleeps,Function.update_of_ne other _ _,rfl,fun _ _ _ is => is,?_⟩
    intro p check is triggered settled
    refine ⟨check,is,isTriggered_kept triggered rfl fun r counts => .inl ?_,goTo_settled quiet settled⟩
    have another : r ≠ q := by
      rintro rfl
      exact settled r counts u (Function.update_self _ _ _)
    exact Function.update_of_ne another _ _
  | signalChangeState => cases sleeps
  | increment => cases sleeps
  | cancelAllWaits => cases sleeps
  | wait event timed m_checks there => exact waitDuration_unseen other quiet event m_checks timed false sleeps

/-! ### Runs -/

theorem begun_own {s s' : Waiter Tid} {t : Tid} {operation : Operation} (awake : t ∉ s.condition_events.blocked)
    (begun : Begun s t operation s') (sleeps : t ∈ s'.condition_events.blocked) : ¬ Due s' t := by
  cases begun with
  | nothing => exact absurd sleeps awake
  | createEvent => exact absurd sleeps awake
  | counterEvent => cases sleeps
  | createCallInfo => exact absurd sleeps awake
  | releaseCallInfo => exact absurd sleeps awake
  | binds => exact absurd sleeps awake
  | bindEvent => cases sleeps
  | resetTriggered event wait_next_after m_checks =>
    obtain ⟨checks,is_reset,-⟩ := resetTriggered_checks s wait_next_after m_checks
    rw [is_reset] at sleeps
    exact absurd sleeps awake
  | destroyEvent event m_checks =>
    rw [destroyEvent_eq] at sleeps
    dsimp only at sleeps
    split at sleeps
    · exact absurd sleeps awake
    · cases sleeps
  | incrementCallCount => exact absurd sleeps awake
  | signalChangeState => cases sleeps
  | increment => cases sleeps
  | cancelAllWaits => cases sleeps
  | wait event timed m_checks there => exact waitDuration_own there awake sleeps

theorem step_own {s s' : Waiter Tid} {t : Tid} {action : Action} (filtered : Filtered s)
    (stepped : step s (t,action) = some s') (sleeps : t ∈ s'.condition_events.blocked) : ¬ Due s' t := by
  have engaged := filtered.sound.engaged
  cases step_stepped stepped with
  | start operation s' is_ready begun =>
    have awake : t ∉ ((s.goTo t .idle).join t).condition_events.blocked := ready_awake engaged is_ready
    exact begun_own awake begun sleeps
  | bindCheck => cases sleeps
  | notifies r there =>
    have awake := awake_elsewhere engaged there (by rintro event timed ⟨⟩)
    unfold Waiter.checkConditionChanged at sleeps
    split at sleeps
    · cases sleeps
    · exact absurd sleeps awake
  | wakes event timed timed_out m_checks there alive =>
    exact waitDuration_own alive (fun slept => (mem_wake.mp slept).2 rfl) sleeps

/-- Nobody notifies because the filter does not have the `CallInfo`: then no
    event that a thread waits for is bound to it. -/
theorem unfiltered_due {s : Waiter Tid} {t u : Tid} {r : ObjectPtr} (filtered : Filtered s) (other : t ≠ u)
    (there : s.points u = .incremented r) (absent : some r.address ∉ s.change_filter) (due : Due (s.goTo u .idle) t) :
    Due s t := by
  obtain ⟨event,timed,waits,reason⟩ := due
  refine ⟨event,timed,(Function.update_of_ne other _ _).symm.trans waits,?_⟩
  rcases reason with canceled | ⟨m_checks,alive,p,member,check,is,triggered,settled⟩
  · exact .inl canceled
  · refine .inr ⟨m_checks,alive,p,member,check,is,triggered,?_⟩
    intro q counts v raises
    by_cases same : v = u
    · subst same
      cases there.symm.trans raises
      refine absent (adequate_mem filtered.sound.bound filtered.adequate alive member ?_)
      change s.isTriggered check at triggered
      cases counted : s.call_infos r with
      | none => simp [Waiter.isTriggered,Waiter.getCount,counts,counted] at triggered
      | some count =>
        have named : s.filterIdOf p = s.getFilterId check := congrArg (·.bind s.getFilterId) is
        simp [named,Waiter.getFilterId,counts,counted]
    · exact settled q counts v ((Function.update_of_ne same _ _).trans raises)

theorem step_others {s s' : Waiter Tid} {t u : Tid} {action : Action} (filtered : Filtered s)
    (stepped : step s (u,action) = some s') (other : t ≠ u) (sleeps : t ∈ s'.condition_events.blocked) (due : Due s' t) :
    t ∈ s.condition_events.blocked ∧ Due s t := by
  obtain ⟨bound,engaged⟩ := filtered.sound
  cases step_stepped stepped with
  | start operation s' is_ready begun =>
    have quiet : ∀ r, s.points u ≠ .incremented r := by
      intro r is
      rw [is] at is_ready
      cases is_ready
    have joins : Move s ((s.goTo u .idle).join u) := .aside (join_same s u)
    obtain ⟨slept,unseen⟩ := begun_unseen (move_bound bound joins) (Function.update_self _ _ _) begun other sleeps
    have before := unseen.due (join_engaged engaged is_ready) due
    obtain ⟨points,canceled,events,checks⟩ := goTo_unseen other quiet .idle
    have joins_unseen : Unseen s ((s.goTo u .idle).join u) t := ⟨points,canceled,events,checks⟩
    exact ⟨slept,joins_unseen.due engaged before⟩
  | bindCheck => cases sleeps
  | notifies r there =>
    unfold Waiter.checkConditionChanged at sleeps due
    by_cases found : some r.address ∈ s.change_filter
    · rw [if_pos found] at sleeps
      cases sleeps
    · rw [if_neg found] at sleeps due
      exact ⟨sleeps,unfiltered_due filtered other there found due⟩
  | wakes event timed timed_out m_checks there alive =>
    let woken : Waiter Tid := { s with condition_events := s.condition_events.wake u }
    have quiet : ∀ r, woken.points u ≠ .incremented r := by
      rintro r is
      cases there.symm.trans is
    obtain ⟨slept,unseen⟩ := waitDuration_unseen (s := woken) other quiet event m_checks timed timed_out sleeps
    have woken_engaged : Engaged woken :=
      engaged.grows ⟨rfl,rfl,fun v asleep => (mem_wake.mp asleep).1,fun _ => id,fun _ => id⟩
    have before : Due woken t := unseen.due woken_engaged due
    exact ⟨(mem_wake.mp slept).1,before⟩

theorem init_filtered : Filtered ({} : Waiter Tid) := ⟨init_sound,fun _ => Nat.zero_le _⟩

/-- However the threads go on, none is asleep in `Wait` when all waits are
    cancelled or a check of its event is triggered and was notified. -/
theorem no_sleep_on_triggered (actions : List (Tid × Action)) :
    ¬ ∃ t ∈ (run step {} actions).condition_events.blocked, Due (run step {} actions) t := by
  rintro ⟨t,sleeps,due⟩
  have awake : Preserves step fun s : Waiter Tid => Filtered s ∧ ∀ t, t ∈ s.condition_events.blocked → ¬ Due s t :=
    no_lost_wakeup step_filtered (fun s t action s' => step_own) fun s u action s' t => step_others
  exact (awake.run ⟨init_filtered,fun t sleeps => (List.not_mem_nil sleeps).elim⟩ actions).2 t sleeps due

/-- Thread 1 waits for the call that thread 0 counts, and sleeps until thread 0 has notified. -/
def countedCall : List (Nat × Action) :=
  [(0,.start (.createCallInfo 7)),(0,.start .createEvent),(0,.start (.bindCall 0 ⟨7,0⟩ .current false)),(0,.next),
    (1,.start (.wait 0 false)),(0,.start (.incrementCallCount ⟨7,0⟩))]
example : (run step {} countedCall).condition_events.blocked = [1] ∧
    (run step {} (countedCall ++ [(0,.next)])).condition_events.blocked = [] ∧
    (run step {} (countedCall ++ [(0,.next),(1,.wake false)])).points 1 = .returned .ready := by decide +kernel

end IpcPortable.EventWakeups
