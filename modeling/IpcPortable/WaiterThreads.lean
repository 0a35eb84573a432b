import IpcPortable.WaiterMoves

/-!
The threads of a waiter. What a thread uses is there as long as it is inside of
an operation (`Engaged`), so that every step is made of moves or destroys an
event (`step_moves`, `step_destroys`).
-/
namespace IpcPortable.WaiterThreads
open IpcPortable.Runs IpcPortable.EventWaiter IpcPortable.WaiterMoves
set_option linter.unusedSectionVars false
variable {Tid : Type} [DecidableEq Tid]

/-- What a thread uses is there while it is at its point. -/
structure Engaged (s : Waiter Tid) : Prop where
  present : ∀ t, (s.points t).ready = false → t ∈ s.threads
  binding : ∀ t event check filter_id, s.points t = .bindCheck event check filter_id →
    (s.events event).isSome ∧ filter_id.isSome ∧ s.getFilterId check = filter_id
  waiting : ∀ t event timed, s.points t = .blocked event timed → (s.events event).isSome
  incremented : ∀ t r, s.points t = .incremented r → (s.call_infos r).isSome
  asleep : ∀ t ∈ s.condition_events.blocked, ∃ event timed, s.points t = .blocked event timed

/-- Nothing that lived is gone. -/
structure Grows (s s' : Waiter Tid) : Prop where
  points : s'.points = s.points
  threads : s'.threads = s.threads
  blocked : s'.condition_events.blocked ⊆ s.condition_events.blocked
  events : ∀ e, (s.events e).isSome → (s'.events e).isSome
  call_infos : ∀ r, (s.call_infos r).isSome → (s'.call_infos r).isSome

theorem getFilterId_kept {s s' : Waiter Tid} {check : Check} {filter_id : FilterId} (named : filter_id.isSome)
    (same : s.getFilterId check = filter_id)
    (alive : ∀ r, check.counted = .call r → (s.call_infos r).isSome → (s'.call_infos r).isSome) :
    s'.getFilterId check = filter_id := by
  subst same
  unfold Waiter.getFilterId at named ⊢
  cases counts : check.counted with
  | call r =>
    simp only [counts,Option.isSome_map] at named ⊢
    obtain ⟨count,was⟩ := Option.isSome_iff_exists.mp named
    obtain ⟨later,is⟩ := Option.isSome_iff_exists.mp (alive r counts named)
    rw [was,is]
    rfl
  | _ => rfl
theorem Engaged.grows {s s' : Waiter Tid} (engaged : Engaged s) (grows : Grows s s') : Engaged s' := by
  refine ⟨?_,?_,?_,?_,?_⟩
  · rw [grows.points,grows.threads]; exact engaged.present
  · intro t event check filter_id there
    obtain ⟨alive,named,same⟩ := engaged.binding t event check filter_id (grows.points ▸ there)
    exact ⟨grows.events event alive,named,getFilterId_kept named same fun r _ => grows.call_infos r⟩
  · exact fun t event timed there => grows.events event (engaged.waiting t event timed (grows.points ▸ there))
  · exact fun t r there => grows.call_infos r (engaged.incremented t r (grows.points ▸ there))
  · rw [grows.points]
    exact fun t sleeps => engaged.asleep t (grows.blocked sleeps)

/-- A thread that is not asleep goes to another point. -/
theorem goTo_engaged {s : Waiter Tid} (engaged : Engaged s) {t : Tid} {point : Point}
    (present : point.ready = false → t ∈ s.threads)
    (binding : ∀ event check filter_id, point = .bindCheck event check filter_id →
      (s.events event).isSome ∧ filter_id.isSome ∧ s.getFilterId check = filter_id)
    (waiting : ∀ event timed, point = .blocked event timed → (s.events event).isSome)
    (incremented : ∀ r, point = .incremented r → (s.call_infos r).isSome) (awake : t ∉ s.condition_events.blocked) :
    Engaged (s.goTo t point) := by
  have here : (s.goTo t point).points t = point := Function.update_self _ _ _
  have there : ∀ {u}, u ≠ t → (s.goTo t point).points u = s.points u := fun other => Function.update_of_ne other _ _
  refine ⟨?_,?_,?_,?_,?_⟩
  · intro u busy
    by_cases same : u = t
    · subst same; exact present (here ▸ busy)
    · exact engaged.present u (there same ▸ busy)
  · intro u event check filter_id is
    by_cases same : u = t
    · subst same; exact binding event check filter_id (here.symm.trans is)
    · exact engaged.binding u event check filter_id ((there same).symm.trans is)
  · intro u event timed is
    by_cases same : u = t
    · subst same; exact waiting event timed (here.symm.trans is)
    · exact engaged.waiting u event timed ((there same).symm.trans is)
  · intro u r is
    by_cases same : u = t
    · subst same; exact incremented r (here.symm.trans is)
    · exact engaged.incremented u r ((there same).symm.trans is)
  · intro u sleeps
    have other : u ≠ t := fun same => awake (same ▸ sleeps)
    rw [there other]
    exact engaged.asleep u sleeps
theorem idle_engaged {s : Waiter Tid} (engaged : Engaged s) {t : Tid} {point : Point} (is_ready : point.ready)
    (awake : t ∉ s.condition_events.blocked) : Engaged (s.goTo t point) := by
  refine goTo_engaged engaged ?_ ?_ ?_ ?_ awake
  · intro busy
    cases is_ready.symm.trans busy
  · rintro event check filter_id rfl
    cases is_ready
  · rintro event timed rfl
    cases is_ready
  · rintro r rfl
    cases is_ready

theorem waitDuration_engaged {s : Waiter Tid} (engaged : Engaged s) {t : Tid} {event : EventPtr} {m_checks : List CheckPtr}
    (timed timed_out : Bool) (alive : s.events event = some m_checks) (present : t ∈ s.threads)
    (awake : t ∉ s.condition_events.blocked) : Engaged (s.waitDuration t event m_checks timed timed_out) := by
  unfold Waiter.waitDuration
  dsimp only
  split
  · exact idle_engaged engaged rfl awake
  · split
    · exact idle_engaged engaged rfl awake
    · have blocks : Engaged (s.goTo t (.blocked event timed)) := by
        refine goTo_engaged engaged (fun _ => present) ?_ ?_ ?_ awake
        · rintro other check filter_id ⟨⟩
        · rintro other timed ⟨⟩
          rw [alive]; rfl
        · rintro r ⟨⟩
      refine ⟨blocks.present,blocks.binding,blocks.waiting,blocks.incremented,?_⟩
      intro u sleeps
      rcases Conditions.mem_wait.mp sleeps with rfl | before
      · exact ⟨event,timed,Function.update_self _ _ _⟩
      · exact blocks.asleep u before
theorem update_isSome {α β : Type} [DecidableEq α] {f : α → Option β} {a b : α} {value : β} (present : (f b).isSome) :
    (Function.update f a (some value) b).isSome := by
  by_cases same : b = a
  · subst same; rw [Function.update_self]; rfl
  · rwa [Function.update_of_ne same]
theorem inserted_grows (s : Waiter Tid) (event : EventPtr) (entries : List (CheckPtr × FilterId)) :
    Grows s (s.inserted event entries) := by
  refine ⟨rfl,rfl,List.Subset.refl _,?_,fun _ => id⟩
  intro e alive
  by_cases same : e = event
  · subst same
    simpa [Waiter.inserted] using alive
  · simpa [Waiter.inserted,same] using alive
theorem bindCheck_grows (s : Waiter Tid) (event : EventPtr) (check : Check) (filter_id : FilterId) :
    Grows s (s.bindCheck event check filter_id) := by
  have inserts := inserted_grows { s with
    next_check := s.next_check + 1
    checks := Function.update s.checks s.next_check (some check) } event [(s.next_check,filter_id)]
  exact ⟨rfl,rfl,List.nil_subset _,inserts.events,inserts.call_infos⟩
/-- Only checks change, and none is triggered that was not before. -/
theorem resetTriggered_checks (s : Waiter Tid) (wait_next_after : ResetType) (m_checks : List CheckPtr) :
    ∃ checks, s.resetTriggered wait_next_after m_checks = { s with checks := checks } ∧
      ∀ p changed, checks p = some changed → s.isTriggered changed →
        ∃ check, s.checks p = some check ∧ s.isTriggered check ∧ check.counted = changed.counted := by
  induction m_checks generalizing s with
  | nil => exact ⟨s.checks,rfl,fun p changed is triggered => ⟨changed,is,triggered,rfl⟩⟩
  | cons first rest ih =>
    have once : ∃ checks, Waiter.resetTriggeredCheck wait_next_after s first = { s with checks := checks } ∧
        ∀ p changed, checks p = some changed → s.isTriggered changed →
          ∃ check, s.checks p = some check ∧ s.isTriggered check ∧ check.counted = changed.counted := by
      unfold Waiter.resetTriggeredCheck
      split
      · rename_i check there
        split
        · rename_i resets
          refine ⟨_,rfl,fun p changed is triggered => ?_⟩
          by_cases here : p = first
          · subst here
            cases (Function.update_self _ _ _).symm.trans is
            refine ⟨check,there,(Bool.and_eq_true _ _ ▸ resets).1,?_⟩
            cases wait_next_after <;> rfl
          · exact ⟨changed,(Function.update_of_ne here _ _).symm.trans is,triggered,rfl⟩
        · exact ⟨s.checks,rfl,fun p changed is triggered => ⟨changed,is,triggered,rfl⟩⟩
      · exact ⟨s.checks,rfl,fun p changed is triggered => ⟨changed,is,triggered,rfl⟩⟩
    obtain ⟨between,is_between,first_kept⟩ := once
    obtain ⟨checks,later,rest_kept⟩ := ih { s with checks := between }
    refine ⟨checks,?_,fun p changed is triggered => ?_⟩
    · rw [Waiter.resetTriggered,List.foldl_cons,is_between]
      exact later
    · obtain ⟨middle,is_middle,was_triggered,same⟩ := rest_kept p changed is triggered
      obtain ⟨check,there,first_triggered,before⟩ := first_kept p middle is_middle was_triggered
      exact ⟨check,there,first_triggered,before.trans same⟩

theorem begun_engaged {s s' : Waiter Tid} {t : Tid} {operation : Operation} (engaged : Engaged s) (present : t ∈ s.threads)
    (awake : t ∉ s.condition_events.blocked) (begun : Begun s t operation s') : Engaged s' := by
  cases begun with
  | nothing => exact engaged
  | createEvent =>
    exact engaged.grows ⟨rfl,rfl,List.Subset.refl _,fun _ => update_isSome,fun _ => id⟩
  | counterEvent own interpret_as_cancel =>
    refine Engaged.grows (engaged.grows ?_) (bindCheck_grows _ _ _ _)
    exact ⟨rfl,rfl,List.Subset.refl _,fun _ => update_isSome,fun _ => id⟩
  | createCallInfo address =>
    exact engaged.grows ⟨rfl,rfl,List.Subset.refl _,fun _ => id,fun _ => update_isSome⟩
  | releaseCallInfo r unowned =>
    have kept : ∀ {u q}, (s.points u).owns q = true → (s.points u).ready = false → q ≠ r := by
      rintro u q owns busy rfl
      cases owns.symm.trans (unowned u (engaged.present u busy))
    refine ⟨engaged.present,?_,engaged.waiting,?_,engaged.asleep⟩
    · intro u event check filter_id (there : s.points u = _)
      obtain ⟨alive,named,same⟩ := engaged.binding u event check filter_id there
      refine ⟨alive,named,getFilterId_kept named same ?_⟩
      intro q counts is
      have other : q ≠ r := kept (u := u) (by simp [there,Point.owns,counts]) (by simp [there,Point.ready])
      exact (congrArg Option.isSome (Function.update_of_ne other _ _)).trans is
    · intro u q (there : s.points u = _)
      have other : q ≠ r := kept (u := u) (by simp [there,Point.owns]) (by simp [there,Point.ready])
      exact (congrArg Option.isSome (Function.update_of_ne other _ _)).trans (engaged.incremented u q there)
  | binds operation spared event check filter_id alive named same =>
    have there := And.intro alive (And.intro named same)
    refine goTo_engaged engaged (fun _ => present) ?_ ?_ ?_ awake
    · intro e c id is
      cases is
      exact there
    · rintro other timed ⟨⟩
    · rintro r ⟨⟩
  | bindEvent event other others =>
    rw [insertAll_inserted]
    have inserts := inserted_grows s event (others.map fun p => (p,s.filterIdOf p))
    exact engaged.grows ⟨rfl,rfl,List.nil_subset _,inserts.events,inserts.call_infos⟩
  | resetTriggered event wait_next_after m_checks =>
    obtain ⟨checks,is,-⟩ := resetTriggered_checks s wait_next_after m_checks
    rw [is]
    exact engaged.grows ⟨rfl,rfl,List.Subset.refl _,fun _ => id,fun _ => id⟩
  | destroyEvent event m_checks there unused =>
    rw [destroyEvent_eq]
    have kept : ∀ {u e}, (s.points u).uses e = true → (s.points u).ready = false → (s.events e).isSome →
        (Function.update s.events event none e).isSome := by
      intro u e uses busy alive
      have other : e ≠ event := by
        rintro rfl
        cases uses.symm.trans (unused u (engaged.present u busy))
      rwa [Function.update_of_ne other]
    refine ⟨engaged.present,?_,?_,engaged.incremented,?_⟩
    · intro u e check filter_id (is : s.points u = _)
      obtain ⟨alive,named,same⟩ := engaged.binding u e check filter_id is
      exact ⟨kept (u := u) (by simp [is,Point.uses]) (by simp [is,Point.ready]) alive,named,same⟩
    · intro u e timed (is : s.points u = _)
      exact kept (u := u) (by simp [is,Point.uses]) (by simp [is,Point.ready]) (engaged.waiting u e timed is)
    · intro u sleeps
      refine engaged.asleep u ?_
      dsimp only at sleeps
      split at sleeps
      · exact sleeps
      · cases sleeps
  | incrementCallCount r count there =>
    have counts : Grows s { s with call_infos := Function.update s.call_infos r (some (count + 1)) } :=
      ⟨rfl,rfl,List.Subset.refl _,fun _ => id,fun _ => update_isSome⟩
    refine goTo_engaged (engaged.grows counts) (fun _ => present) ?_ ?_ ?_ awake
    · rintro event check filter_id ⟨⟩
    · rintro event timed ⟨⟩
    · rintro q ⟨⟩
      simp
  | signalChangeState signaling es counted =>
    exact engaged.grows ⟨rfl,rfl,List.nil_subset _,fun _ => id,fun _ => id⟩
  | increment p own count start interpret_as_cancel =>
    exact engaged.grows ⟨rfl,rfl,List.nil_subset _,fun _ => id,fun _ => id⟩
  | cancelAllWaits => exact engaged.grows ⟨rfl,rfl,List.nil_subset _,fun _ => id,fun _ => id⟩
  | wait event timed m_checks there => exact waitDuration_engaged engaged timed false there present awake

/-- A thread that is at another point is not asleep. -/
theorem awake_elsewhere {s : Waiter Tid} (engaged : Engaged s) {t : Tid} {point : Point} (there : s.points t = point)
    (other : ∀ event timed, point ≠ .blocked event timed) : t ∉ s.condition_events.blocked := by
  intro sleeps
  obtain ⟨event,timed,is⟩ := engaged.asleep t sleeps
  exact other event timed (there.symm.trans is)
theorem ready_awake {s : Waiter Tid} (engaged : Engaged s) {t : Tid} (is_ready : (s.points t).ready) :
    t ∉ s.condition_events.blocked := by
  refine awake_elsewhere engaged rfl fun event timed is => ?_
  rw [is] at is_ready
  cases is_ready
/-- The beginning of an operation, before its first section. -/
theorem join_engaged {s : Waiter Tid} (engaged : Engaged s) {t : Tid} (is_ready : (s.points t).ready) :
    Engaged ((s.goTo t .idle).join t) := by
  have idles : Engaged (s.goTo t .idle) := idle_engaged engaged rfl (ready_awake engaged is_ready)
  obtain ⟨present,binding,waiting,incremented,asleep⟩ := idles
  exact ⟨fun u busy => List.mem_cons_of_mem _ (present u busy),binding,waiting,incremented,asleep⟩

theorem step_engaged {s s' : Waiter Tid} {t : Tid} {action : Action} (engaged : Engaged s)
    (stepped : step s (t,action) = some s') : Engaged s' := by
  cases step_stepped stepped with
  | start operation s' is_ready begun =>
    exact begun_engaged (join_engaged engaged is_ready) List.mem_cons_self (ready_awake engaged is_ready) begun
  | bindCheck event check filter_id there =>
    refine idle_engaged (engaged.grows (bindCheck_grows s event check filter_id)) rfl ?_
    exact List.not_mem_nil
  | notifies r there =>
    have awake : t ∉ s.condition_events.blocked := awake_elsewhere engaged there (by rintro event timed ⟨⟩)
    unfold Waiter.checkConditionChanged
    split
    · have notified : Engaged s.notifyAll := engaged.grows ⟨rfl,rfl,List.nil_subset _,fun _ => id,fun _ => id⟩
      exact idle_engaged notified rfl List.not_mem_nil
    · exact idle_engaged engaged rfl awake
  | wakes event timed timed_out m_checks there alive =>
    have woken : Engaged { s with condition_events := s.condition_events.wake t } :=
      engaged.grows ⟨rfl,rfl,fun u sleeps => (Conditions.mem_wake.mp sleeps).1,fun _ => id,fun _ => id⟩
    refine waitDuration_engaged woken timed timed_out alive (engaged.present t (by rw [there]; rfl)) ?_
    exact fun sleeps => (Conditions.mem_wake.mp sleeps).2 rfl

/-- A step is made of moves, unless it destroys an event. -/
theorem step_moves {s s' : Waiter Tid} {t : Tid} {action : Action} (bound : Bound s) (engaged : Engaged s)
    (stepped : step s (t,action) = some s') (spared : ∀ event, action ≠ .start (.destroyEvent event)) : Moves s s' := by
  cases step_stepped stepped with
  | start operation s' is_ready begun =>
    have joins : Move s ((s.goTo t .idle).join t) := .aside (join_same s t)
    refine .head joins (begun_moves (move_bound bound joins) begun fun event is => ?_)
    exact spared event (congrArg Action.start is)
  | bindCheck event check filter_id there =>
    obtain ⟨alive,named,same⟩ := engaged.binding t event check filter_id there
    exact .tail (bindCheck_moves alive named same) (.aside (goTo_same _ t _))
  | notifies r there =>
    exact .single (.aside (checkConditionChanged_same s t _ _))
  | wakes event timed timed_out m_checks there alive =>
    refine .tail (.single (.aside ?_)) (.aside (waitDuration_same _ t event m_checks timed timed_out))
    constructor <;> rfl
theorem step_destroys {s s' : Waiter Tid} {t : Tid} {event : EventPtr}
    (stepped : step s (t,.start (.destroyEvent event)) = some s') :
    ∃ m_checks, s.events event = some m_checks ∧ SameObjects (erased s event m_checks) s' := by
  cases step_stepped stepped with
  | start operation s' is_ready begun =>
    obtain ⟨m_checks,there,same⟩ := begun_destroys begun
    exact ⟨m_checks,there,same.change_filter,same.call_infos,same.checks,same.events,same.next_call_info,same.next_check,
      same.next_event,same.bindings⟩

/-! ### Runs -/

/-- What every state of a run is. -/
structure Sound (s : Waiter Tid) : Prop where
  bound : Bound s
  engaged : Engaged s

theorem step_sound : Preserves step (Sound : Waiter Tid → Prop) := by
  rintro s ⟨t,action⟩ s' ⟨bound,engaged⟩ stepped
  refine ⟨?_,step_engaged engaged stepped⟩
  by_cases destroys : ∃ event, action = .start (.destroyEvent event)
  · obtain ⟨event,rfl⟩ := destroys
    obtain ⟨m_checks,-,same⟩ := step_destroys stepped
    exact move_bound (erased_bound bound event m_checks) (.aside same)
  · exact moves_bound bound (step_moves bound engaged stepped fun event is => destroys ⟨event,is⟩)
theorem init_sound : Sound ({} : Waiter Tid) := by
  refine ⟨⟨fun _ _ => rfl,?_,?_,fun _ _ => rfl,?_,?_⟩,⟨?_,?_,?_,?_,?_⟩⟩
  · rintro b ⟨⟩
  · rintro e m_checks ⟨⟩
  · rintro p check r ⟨⟩
  · rintro b ⟨⟩
  · rintro t ⟨⟩
  · rintro t event check filter_id ⟨⟩
  · rintro t event timed ⟨⟩
  · rintro t r ⟨⟩
  · rintro t ⟨⟩

end IpcPortable.WaiterThreads
