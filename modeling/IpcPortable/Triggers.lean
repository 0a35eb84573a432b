import Mathlib.Algebra.Group.Nat.Defs
import IpcPortable.WaiterThreads

/-!
The triggers of a check: how much its counter is ahead of the count that it waits
from. `ResetTriggered` takes them off one by one, or all, or gives them back, for
every event that has the check and as often as it has it; the start count never
comes past the counter (`triggers_consumed`).
-/
namespace IpcPortable.Triggers
open IpcPortable.Runs IpcPortable.EventWaiter IpcPortable.WaiterMoves IpcPortable.WaiterThreads
set_option linter.unusedSectionVars false
variable {Tid : Type} [DecidableEq Tid]

/-! ### Counters -/

/-- The counter that a check is of. -/
inductive Counter
  | call (call_info : ObjectPtr)
  | connect (signaling : ObjectPtr) (es : State)
  | change (check : CheckPtr)
deriving DecidableEq
def counterOf (p : CheckPtr) (check : Check) : Counter :=
  match check.counted with
  | .call m_call_info => .call m_call_info
  | .connect signaling m_signal_state => .connect signaling m_signal_state
  | .change _ _ => .change p
/-- The counters and the checks of a waiter. -/
structure Books where
  call_infos : ObjectPtr → Option TCounter
  conters : ObjectPtr → State → TCounter
  checks : CheckPtr → Option Check
  next_call_info : Nat
  next_check : CheckPtr
def books (s : Waiter Tid) : Books := ⟨s.call_infos,s.conters,s.checks,s.next_call_info,s.next_check⟩
def Books.value (b : Books) : Counter → Option TCounter
  | .call call_info => b.call_infos call_info
  | .connect signaling es => some (b.conters signaling es)
  | .change p => (b.checks p).bind fun check => match check.counted with
    | .change _ m_actual_count => some m_actual_count
    | _ => none
def value (s : Waiter Tid) (c : Counter) : Option TCounter := (books s).value c
/-- How often a step raises the counter. -/
def raises (c : Counter) (s : Waiter Tid) : Tid × Action → Nat
  | (_,.start (.incrementCallCount call_info)) => if c = .call call_info then 1 else 0
  | (_,.start (.signalChangeState signaling es)) => if es ≠ .undefined_enum_count ∧ c = .connect signaling es then 1 else 0
  | (_,.start (.increment p)) => if c = .change p ∧ (value s (.change p)).isSome then 1 else 0
  | _ => 0

/-- `ResetTriggered` calls `ResetLocked` of the check. -/
def resetsNow (s : Waiter Tid) (p : CheckPtr) : Bool :=
  match s.checks p with
  | some check => s.isTriggered check && !check.interpret_as_cancel
  | none => false
/-- How often the loop of `ResetTriggered` calls `ResetLocked` of the check. -/
def resetCalls (wait_next_after : ResetType) (p : CheckPtr) : Waiter Tid → List CheckPtr → Nat
  | _, [] => 0
  | s, q :: rest =>
    (if q = p ∧ resetsNow s q then 1 else 0) + resetCalls wait_next_after p (Waiter.resetTriggeredCheck wait_next_after s q) rest
/-- How often a step calls `ResetLocked` of the check. -/
def resets (p : CheckPtr) (s : Waiter Tid) : Tid × Action → Nat
  | (_,.start (.resetTriggered event wait_next_after)) =>
    match s.events event with
    | some m_checks => resetCalls wait_next_after p s m_checks
    | none => 0
  | _ => 0
/-- The outstanding triggers of a check. -/
def outstanding (s : Waiter Tid) (check : Check) : Nat :=
  match s.getCount check with
  | some current_count => (current_count - check.m_wait_start_count).toNat
  | none => 0

theorem getCount_value {s : Waiter Tid} {p : CheckPtr} {check : Check} (present : s.checks p = some check) :
    s.getCount check = value s (counterOf p check) := by
  unfold Waiter.getCount counterOf
  cases counts : check.counted with
  | call r => rfl
  | connect signaling es => rfl
  | change own count => simp [value,Books.value,books,present,counts]

/-! ### What a step does to them -/

section same
variable {s s' : Waiter Tid}

theorem getCount_same (same : books s' = books s) (check : Check) : s'.getCount check = s.getCount check := by
  obtain ⟨call_infos,conters,_⟩ := Books.mk.inj same
  rw [Waiter.getCount,Waiter.getCount,call_infos,conters]

theorem isTriggered_same (same : books s' = books s) (check : Check) : s'.isTriggered check = s.isTriggered check := by
  rw [Waiter.isTriggered,Waiter.isTriggered,getCount_same same]

theorem resetTriggeredCheck_books (same : books s' = books s) (wait_next_after : ResetType) (p : CheckPtr) :
    books (Waiter.resetTriggeredCheck wait_next_after s' p) = books (Waiter.resetTriggeredCheck wait_next_after s p) := by
  obtain ⟨_,_,checks,_⟩ := Books.mk.inj same
  unfold Waiter.resetTriggeredCheck
  rw [checks]
  cases s.checks p with
  | none => exact same
  | some check =>
    have reset : s'.resetLocked wait_next_after check = s.resetLocked wait_next_after check := by
      cases wait_next_after <;> simp [Waiter.resetLocked,getCount_same same]
    simp only [isTriggered_same same,reset]
    split
    · simp only [books,Books.mk.injEq] at same ⊢
      exact ⟨same.1,same.2.1,trivial,same.2.2.2⟩
    · exact same

theorem resetTriggered_books (same : books s' = books s) (wait_next_after : ResetType) (m_checks : List CheckPtr) :
    books (s'.resetTriggered wait_next_after m_checks) = books (s.resetTriggered wait_next_after m_checks) := by
  induction m_checks generalizing s s' with
  | nil => exact same
  | cons p rest ih => exact ih (resetTriggeredCheck_books same wait_next_after p)

end same

/-- The counters behind `SignalChangeState`. -/
def signaled (s : Waiter Tid) (signaling : ObjectPtr) (es : State) : ObjectPtr → State → TCounter :=
  Function.update s.conters signaling (Function.update (s.conters signaling) es (s.conters signaling es + 1))
/-- What a step does to the counters and to the checks. -/
inductive Turns (s : Waiter Tid) : Tid × Action → Books → Prop
  | aside {action : Tid × Action} (raised : ∀ c, raises c s action = 0) (kept : ∀ p, resets p s action = 0) :
    Turns s action (books s)
  | newCallInfo {t : Tid} (address : Address) : Turns s (t,.start (.createCallInfo address))
      { books s with
        next_call_info := s.next_call_info + 1
        call_infos := Function.update s.call_infos ⟨address,s.next_call_info⟩ (some 0) }
  | release {t : Tid} (r : ObjectPtr) : Turns s (t,.start (.releaseCallInfo r))
      { books s with call_infos := Function.update s.call_infos r none }
  | newCheck {action : Tid × Action} (check : Check) (raised : ∀ c, raises c s action = 0) (kept : ∀ p, resets p s action = 0)
    (origin : (∃ own interpret_as_cancel, check = ⟨.change own 0,interpret_as_cancel,0⟩) ∨
      ∃ t event filter_id, s.points t = .bindCheck event check filter_id) :
    Turns s action
      { books s with next_check := s.next_check + 1, checks := Function.update s.checks s.next_check (some check) }
  | counts {t : Tid} {r : ObjectPtr} {count : TCounter} (there : s.call_infos r = some count) :
    Turns s (t,.start (.incrementCallCount r))
      { books s with call_infos := Function.update s.call_infos r (some (count + 1)) }
  | signals {t : Tid} {signaling : ObjectPtr} {es : State} (valid : es ≠ .undefined_enum_count) :
    Turns s (t,.start (.signalChangeState signaling es))
      { books s with conters := signaled s signaling es }
  | increments {t : Tid} {p : CheckPtr} {own : Address} {count start : TCounter} {interpret_as_cancel : Bool}
    (there : s.checks p = some ⟨.change own count,interpret_as_cancel,start⟩) :
    Turns s (t,.start (.increment p))
      { books s with checks := Function.update s.checks p (some ⟨.change own (count + 1),interpret_as_cancel,start⟩) }
  | resetTriggered {t : Tid} {event : EventPtr} {wait_next_after : ResetType} {m_checks : List CheckPtr}
    (there : s.events event = some m_checks) :
    Turns s (t,.start (.resetTriggered event wait_next_after)) (books (s.resetTriggered wait_next_after m_checks))

theorem goTo_books (s : Waiter Tid) (t : Tid) (point : Point) : books (s.goTo t point) = books s := rfl
theorem join_books (s : Waiter Tid) (t : Tid) : books ((s.goTo t .idle).join t) = books s := rfl
theorem insertAll_books (s : Waiter Tid) (event : EventPtr) (others : List CheckPtr) : books (s.insertAll event others) = books s := by
  rw [insertAll_inserted]
  rfl
theorem checkConditionChanged_books (s : Waiter Tid) (filter_id : FilterId) : books (s.checkConditionChanged filter_id) = books s := by
  unfold Waiter.checkConditionChanged
  split <;> rfl
theorem waitDuration_books (s : Waiter Tid) (t : Tid) (event : EventPtr) (m_checks : List CheckPtr) (timed timed_out : Bool) :
    books (s.waitDuration t event m_checks timed timed_out) = books s := by
  unfold Waiter.waitDuration
  dsimp only
  split
  · rfl
  · split <;> rfl

theorem begin_turns {s s' : Waiter Tid} {t : Tid} {operation : Operation}
    (begins : begin ((s.goTo t .idle).join t) t operation = some s') : Turns s (t,.start operation) (books s') := by
  cases operation with
  | createEvent => cases begins; exact .aside (fun _ => rfl) (fun _ => rfl)
  | counterEvent own interpret_as_cancel =>
    cases begins
    exact .newCheck ⟨.change own 0,interpret_as_cancel,0⟩ (fun _ => rfl) (fun _ => rfl) (.inl ⟨own,interpret_as_cancel,rfl⟩)
  | createCallInfo address => cases begins; exact .newCallInfo address
  | releaseCallInfo r =>
    simp only [begin] at begins
    split at begins
    · cases begins
    · cases begins; exact .release r
  | bindCall event r initial_count interpret_as_cancel =>
    obtain ⟨m_checks,_,rest⟩ := Option.bind_eq_some_iff.mp begins
    dsimp only at rest
    split at rest <;> cases rest <;> exact .aside (fun _ => rfl) (fun _ => rfl)
  | bindConnect event signal_state signaling initial_count interpret_as_cancel =>
    obtain ⟨m_checks,_,rest⟩ := Option.bind_eq_some_iff.mp begins
    dsimp only at rest
    split at rest <;> cases rest <;> exact .aside (fun _ => rfl) (fun _ => rfl)
  | bindEvent event other =>
    obtain ⟨m_checks,_,rest⟩ := Option.bind_eq_some_iff.mp begins
    obtain ⟨others,_,bound⟩ := Option.bind_eq_some_iff.mp rest
    cases bound
    have same : books (Waiter.bindEvent ((s.goTo t .idle).join t) event other others) = books s := by
      unfold Waiter.bindEvent
      split
      · rfl
      · exact insertAll_books _ event others
    rw [same]
    exact .aside (fun _ => rfl) (fun _ => rfl)
  | resetTriggered event wait_next_after =>
    obtain ⟨m_checks,there,rest⟩ := Option.bind_eq_some_iff.mp begins
    cases rest
    rw [resetTriggered_books (join_books s t)]
    exact .resetTriggered there
  | destroyEvent event =>
    obtain ⟨m_checks,_,rest⟩ := Option.bind_eq_some_iff.mp begins
    split at rest
    · cases rest
    · cases rest
      rw [show books (Waiter.destroyEvent ((s.goTo t .idle).join t) event m_checks) = books s by rw [destroyEvent_eq]; rfl]
      exact .aside (fun _ => rfl) (fun _ => rfl)
  | incrementCallCount r =>
    obtain ⟨count,there,rest⟩ := Option.bind_eq_some_iff.mp begins
    cases rest
    exact .counts there
  | signalChangeState signaling es =>
    cases begins
    unfold Waiter.signalChangeState
    split
    · rename_i invalid
      exact .aside (fun c => if_neg fun both => both.1 invalid) (fun _ => rfl)
    · rename_i valid
      exact .signals valid
  | increment p =>
    cases begins
    unfold Waiter.increment
    split
    · rename_i own count interpret_as_cancel start there
      exact .increments there
    · rename_i other
      refine .aside (fun c => if_neg ?_) (fun _ => rfl)
      rintro ⟨_,counter⟩
      obtain ⟨count,is⟩ := Option.isSome_iff_exists.mp counter
      obtain ⟨⟨counted,cancel,start⟩,present,counts⟩ := Option.bind_eq_some_iff.mp is
      cases counted with
      | change own count => exact other _ _ _ _ present
      | _ => cases counts
  | cancelAllWaits => cases begins; exact .aside (fun _ => rfl) (fun _ => rfl)
  | wait event timed =>
    obtain ⟨m_checks,_,rest⟩ := Option.bind_eq_some_iff.mp begins
    cases rest
    rw [waitDuration_books]
    exact .aside (fun _ => rfl) (fun _ => rfl)

theorem step_turns {s s' : Waiter Tid} {action : Tid × Action} (stepped : step s action = some s') : Turns s action (books s') := by
  obtain ⟨t,action⟩ := action
  cases action with
  | start operation =>
    simp only [step] at stepped
    split at stepped
    · exact begin_turns stepped
    · cases stepped
  | next =>
    simp only [step] at stepped
    split at stepped
    · rename_i event check filter_id there
      cases stepped
      exact .newCheck check (fun _ => rfl) (fun _ => rfl) (.inr ⟨t,event,filter_id,there⟩)
    · cases stepped
      rw [goTo_books,checkConditionChanged_books]
      exact .aside (fun _ => rfl) (fun _ => rfl)
    · cases stepped
  | wake timed_out =>
    simp only [step] at stepped
    split at stepped
    · obtain ⟨m_checks,_,rest⟩ := Option.bind_eq_some_iff.mp stepped
      split at rest
      · cases rest
      · cases rest
        rw [waitDuration_books]
        exact .aside (fun _ => rfl) (fun _ => rfl)
    · cases stepped

/-! ### Checks that are not bound yet -/

/-- The check does not wait for more than its counter has. -/
def Lags (s : Waiter Tid) (p : CheckPtr) (check : Check) : Prop :=
  ∀ actual, value s (counterOf p check) = some actual → check.m_wait_start_count ≤ actual
/-- The check was made by `BindCall` or `BindConnect`, and does not wait for more. -/
def Fresh (s : Waiter Tid) (check : Check) : Prop :=
  (∀ own count, check.counted ≠ .change own count) ∧ ∀ p, Lags s p check

theorem goTo_pending {s : Waiter Tid} {t u : Tid} {point : Point} {event : EventPtr} {check : Check} {filter_id : FilterId}
    (there : (s.goTo t point).points u = .bindCheck event check filter_id) :
    s.points u = .bindCheck event check filter_id ∨ point = .bindCheck event check filter_id := by
  by_cases same : u = t
  · subst same
    exact .inr ((Function.update_self _ _ _).symm.trans there)
  · exact .inl ((Function.update_of_ne same _ _).symm.trans there)

theorem waitDuration_pending {s : Waiter Tid} {t u : Tid} {e : EventPtr} {m_checks : List CheckPtr} {timed timed_out : Bool}
    {event : EventPtr} {check : Check} {filter_id : FilterId}
    (there : (s.waitDuration t e m_checks timed timed_out).points u = .bindCheck event check filter_id) :
    s.points u = .bindCheck event check filter_id := by
  unfold Waiter.waitDuration at there
  dsimp only at there
  split at there
  · exact (goTo_pending there).resolve_right (by rintro ⟨⟩)
  · split at there
    · exact (goTo_pending there).resolve_right (by rintro ⟨⟩)
    · have before := (goTo_pending there).resolve_right (by rintro ⟨⟩)
      exact before

/-- What a start count is at first: zero, or what the counter has. -/
theorem initial_lags {actual : TCounter} (initial_count : InitialCount) :
    (if initial_count = .current then actual else 0) ≤ actual := by
  split
  · exact BitVec.le_refl _
  · exact Nat.zero_le _

theorem begin_pending {s s' : Waiter Tid} {t u : Tid} {operation : Operation} (begins : begin s t operation = some s')
    {event : EventPtr} {check : Check} {filter_id : FilterId} (there : s'.points u = .bindCheck event check filter_id) :
    s.points u = .bindCheck event check filter_id ∨ Fresh s' check := by
  cases operation with
  | createEvent | counterEvent | createCallInfo | cancelAllWaits => cases begins; exact .inl there
  | releaseCallInfo r =>
    simp only [begin] at begins
    split at begins
    · cases begins
    · cases begins; exact .inl there
  | bindCall e r initial_count interpret_as_cancel =>
    obtain ⟨m_checks,_,rest⟩ := Option.bind_eq_some_iff.mp begins
    cases count : s.call_infos r with
    | none => rw [count] at rest; cases rest; exact .inl there
    | some current =>
      rw [count] at rest
      cases rest
      refine (goTo_pending there).imp_right fun made => ?_
      cases made
      refine ⟨by rintro own count ⟨⟩,fun p actual is => ?_⟩
      obtain rfl := Option.some.inj (count.symm.trans is)
      exact initial_lags initial_count
  | bindConnect e signal_state signaling initial_count interpret_as_cancel =>
    obtain ⟨m_checks,_,rest⟩ := Option.bind_eq_some_iff.mp begins
    dsimp only at rest
    split at rest
    · cases rest; exact .inl there
    · cases rest
      refine (goTo_pending there).imp_right fun made => ?_
      cases made
      refine ⟨by rintro own count ⟨⟩,fun p actual is => ?_⟩
      cases Option.some.inj is
      exact initial_lags initial_count
  | bindEvent e other =>
    obtain ⟨m_checks,_,rest⟩ := Option.bind_eq_some_iff.mp begins
    obtain ⟨others,_,bound⟩ := Option.bind_eq_some_iff.mp rest
    cases bound
    unfold Waiter.bindEvent at there
    split at there
    · exact .inl there
    · rw [insertAll_inserted] at there
      exact .inl there
  | resetTriggered e wait_next_after =>
    obtain ⟨m_checks,_,rest⟩ := Option.bind_eq_some_iff.mp begins
    cases rest
    obtain ⟨checks,same,_⟩ := resetTriggered_checks s wait_next_after m_checks
    rw [same] at there
    exact .inl there
  | destroyEvent e =>
    obtain ⟨m_checks,_,rest⟩ := Option.bind_eq_some_iff.mp begins
    split at rest
    · cases rest
    · cases rest
      rw [destroyEvent_eq] at there
      exact .inl there
  | incrementCallCount r =>
    obtain ⟨count,_,rest⟩ := Option.bind_eq_some_iff.mp begins
    cases rest
    exact .inl ((goTo_pending there).resolve_right (by rintro ⟨⟩))
  | signalChangeState signaling es =>
    cases begins
    unfold Waiter.signalChangeState at there
    split at there <;> exact .inl there
  | increment p =>
    cases begins
    unfold Waiter.increment at there
    split at there <;> exact .inl there
  | wait e timed =>
    obtain ⟨m_checks,_,rest⟩ := Option.bind_eq_some_iff.mp begins
    cases rest
    exact .inl (waitDuration_pending there)

theorem step_pending {s s' : Waiter Tid} {action : Tid × Action} (stepped : step s action = some s') {u : Tid}
    {event : EventPtr} {check : Check} {filter_id : FilterId} (there : s'.points u = .bindCheck event check filter_id) :
    s.points u = .bindCheck event check filter_id ∨ Fresh s' check := by
  obtain ⟨t,action⟩ := action
  cases action with
  | start operation =>
    simp only [step] at stepped
    split at stepped
    · refine (begin_pending stepped there).imp_left fun before => ?_
      have before' : (s.goTo t .idle).points u = .bindCheck event check filter_id := before
      exact (goTo_pending before').resolve_right (by rintro ⟨⟩)
    · cases stepped
  | next =>
    simp only [step] at stepped
    split at stepped
    · cases stepped
      exact .inl ((goTo_pending there).resolve_right (by rintro ⟨⟩))
    · cases stepped
      have before := (goTo_pending there).resolve_right (by rintro ⟨⟩)
      unfold Waiter.checkConditionChanged at before
      split at before <;> exact .inl before
    · cases stepped
  | wake timed_out =>
    simp only [step] at stepped
    split at stepped
    · obtain ⟨m_checks,_,rest⟩ := Option.bind_eq_some_iff.mp stepped
      split at rest
      · cases rest
      · cases rest
        have before := waitDuration_pending there
        exact .inl before
    · cases stepped

/-! ### Resetting -/

section resetting
variable {s : Waiter Tid} {p : CheckPtr} {check : Check}

theorem isTriggered_iff (s : Waiter Tid) (check : Check) :
    s.isTriggered check = true ↔ ∃ actual, s.getCount check = some actual ∧ actual ≠ check.m_wait_start_count := by
  unfold Waiter.isTriggered
  cases s.getCount check with
  | none => simp
  | some actual =>
    have ahead : (0 : TCounter) < actual - check.m_wait_start_count ↔ actual ≠ check.m_wait_start_count := by bv_omega
    simpa using ahead

@[simp] theorem resetLocked_counted (s : Waiter Tid) (wait_next_after : ResetType) (check : Check) :
    (s.resetLocked wait_next_after check).counted = check.counted := by
  cases wait_next_after <;> rfl
@[simp] theorem resetLocked_cancel (s : Waiter Tid) (wait_next_after : ResetType) (check : Check) :
    (s.resetLocked wait_next_after check).interpret_as_cancel = check.interpret_as_cancel := by
  cases wait_next_after <;> rfl
@[simp] theorem resetLocked_counter (s : Waiter Tid) (wait_next_after : ResetType) (p : CheckPtr) (check : Check) :
    counterOf p (s.resetLocked wait_next_after check) = counterOf p check := by
  unfold counterOf
  rw [resetLocked_counted]

/-- One trigger is taken off. -/
theorem resetLocked_trigger (triggered : s.isTriggered check = true) :
    1 + outstanding s (s.resetLocked .wait_next_after_trigger check) = outstanding s check := by
  obtain ⟨actual,is,ahead⟩ := (isTriggered_iff s check).mp triggered
  have same : s.getCount (s.resetLocked .wait_next_after_trigger check) = some actual := is
  have taken : (s.resetLocked .wait_next_after_trigger check).m_wait_start_count = check.m_wait_start_count + 1 := rfl
  simp only [outstanding,same,is,taken]
  generalize check.m_wait_start_count = start at ahead
  bv_omega

/-- No kind of reset brings the start count past the counter. -/
theorem resetLocked_lags (present : s.checks p = some check) (triggered : s.isTriggered check = true) (lags : Lags s p check)
    (wait_next_after : ResetType) : Lags s p (s.resetLocked wait_next_after check) := by
  intro actual is
  rw [resetLocked_counter] at is
  have behind := lags actual is
  rw [← getCount_value present] at is
  obtain ⟨_,same,ahead⟩ := (isTriggered_iff s check).mp triggered
  obtain rfl := Option.some.inj (is.symm.trans same)
  cases wait_next_after with
  | wait_next_after_trigger =>
    simp only [Waiter.resetLocked]
    generalize check.m_wait_start_count = start at behind ahead
    bv_omega
  | wait_next_after_reset => simp [Waiter.resetLocked,is]
  | wait_next_after_zero => exact Nat.zero_le _

/-- The loop resets one check, or none. -/
theorem resetTriggeredCheck_cases (s : Waiter Tid) (wait_next_after : ResetType) (q : CheckPtr) :
    resetsNow s q = false ∧ Waiter.resetTriggeredCheck wait_next_after s q = s ∨
      resetsNow s q = true ∧ ∃ check, s.checks q = some check ∧ s.isTriggered check = true ∧
        check.interpret_as_cancel = false ∧ Waiter.resetTriggeredCheck wait_next_after s q =
          { s with checks := Function.update s.checks q (some (s.resetLocked wait_next_after check)) } := by
  unfold Waiter.resetTriggeredCheck resetsNow
  cases present : s.checks q with
  | none => exact .inl ⟨rfl,rfl⟩
  | some check =>
    dsimp only
    cases now : s.isTriggered check && !check.interpret_as_cancel with
    | false => exact .inl ⟨rfl,if_neg Bool.false_ne_true⟩
    | true =>
      have both := Bool.and_eq_true_iff.mp now
      exact .inr ⟨rfl,check,rfl,both.1,by simpa using both.2,if_pos rfl⟩

theorem resetTriggeredCheck_getCount (s : Waiter Tid) (wait_next_after : ResetType) (q : CheckPtr) (check : Check) :
    (Waiter.resetTriggeredCheck wait_next_after s q).getCount check = s.getCount check := by
  rcases resetTriggeredCheck_cases s wait_next_after q with ⟨_,same⟩ | ⟨_,_,_,_,_,same⟩
  · rw [same]
  · rw [same]
    rfl

/-- A check is reset, or stays as it is. -/
theorem resetTriggeredCheck_check (s : Waiter Tid) (wait_next_after : ResetType) (q : CheckPtr) {check : Check}
    (present : s.checks p = some check) :
    (Waiter.resetTriggeredCheck wait_next_after s q).checks p =
      some (if q = p ∧ resetsNow s p then s.resetLocked wait_next_after check else check) := by
  rcases resetTriggeredCheck_cases s wait_next_after q with ⟨never,same⟩ | ⟨now,reset,there,_,_,same⟩
  · have stays : ¬ (q = p ∧ resetsNow s p = true) := by
      rintro ⟨rfl,now⟩
      rw [never] at now
      cases now
    rw [same,if_neg stays,present]
  · rw [same]
    by_cases here : q = p
    · subst here
      obtain rfl := Option.some.inj (present.symm.trans there)
      rw [if_pos ⟨rfl,now⟩]
      exact Function.update_self _ _ _
    · rw [if_neg fun both => here both.1]
      exact (Function.update_of_ne (Ne.symm here) _ _).trans present

theorem resetTriggeredCheck_value (s : Waiter Tid) (wait_next_after : ResetType) (q : CheckPtr) (c : Counter) :
    value (Waiter.resetTriggeredCheck wait_next_after s q) c = value s c := by
  rcases resetTriggeredCheck_cases s wait_next_after q with ⟨_,same⟩ | ⟨_,reset,there,_,_,same⟩
  · rw [same]
  · rw [same]
    cases c with
    | call r => rfl
    | connect signaling es => rfl
    | change p =>
      by_cases here : p = q
      · subst here
        simp [value,Books.value,books,there]
      · simp [value,Books.value,books,here]

theorem resetTriggered_value (s : Waiter Tid) (wait_next_after : ResetType) (m_checks : List CheckPtr) (c : Counter) :
    value (s.resetTriggered wait_next_after m_checks) c = value s c := by
  induction m_checks generalizing s with
  | nil => rfl
  | cons q rest ih => exact (ih _).trans (resetTriggeredCheck_value s wait_next_after q c)

/-- The check is of the same counter, means the same and does not wait for more. -/
theorem resetTriggered_check (wait_next_after : ResetType) (m_checks : List CheckPtr) (present : s.checks p = some check) :
    ∃ later, (s.resetTriggered wait_next_after m_checks).checks p = some later ∧ later.counted = check.counted ∧
      later.interpret_as_cancel = check.interpret_as_cancel ∧
      (Lags s p check → Lags (s.resetTriggered wait_next_after m_checks) p later) := by
  induction m_checks generalizing s check with
  | nil => exact ⟨check,present,rfl,rfl,id⟩
  | cons q rest ih =>
    obtain ⟨later,is,counted,cancel,lags⟩ := ih (resetTriggeredCheck_check s wait_next_after q present)
    refine ⟨later,is,?_,?_,fun before => lags fun actual now => ?_⟩
    · rw [counted]
      split <;> simp
    · rw [cancel]
      split <;> simp
    · rw [resetTriggeredCheck_value] at now
      split
      · rename_i reset
        rw [if_pos reset] at now
        have triggered : s.isTriggered check = true := by
          have both := reset.2
          rw [resetsNow,present] at both
          exact (Bool.and_eq_true_iff.mp both).1
        exact resetLocked_lags present triggered before wait_next_after actual now
      · rename_i stays
        rw [if_neg stays] at now
        exact before actual now

/-- A check that is not triggered, or means a cancellation, stays as it is. -/
theorem resetTriggered_untouched (wait_next_after : ResetType) (m_checks : List CheckPtr) (present : s.checks p = some check)
    (untouched : s.isTriggered check = false ∨ check.interpret_as_cancel = true) :
    (s.resetTriggered wait_next_after m_checks).checks p = some check := by
  induction m_checks generalizing s with
  | nil => exact present
  | cons q rest ih =>
    have never : ¬ (q = p ∧ resetsNow s p = true) := by
      rintro ⟨_,now⟩
      rw [resetsNow,present] at now
      obtain ⟨triggered,waits⟩ := Bool.and_eq_true_iff.mp now
      rcases untouched with quiet | cancel
      · rw [triggered] at quiet
        cases quiet
      · rw [cancel] at waits
        cases waits
    have stays := resetTriggeredCheck_check s wait_next_after q present
    rw [if_neg never] at stays
    refine ih stays (untouched.imp_left fun quiet => ?_)
    rw [Waiter.isTriggered,resetTriggeredCheck_getCount]
    exact quiet

/-- The outstanding triggers of the check, where there is one. -/
def owed (s : Waiter Tid) (p : CheckPtr) : Nat :=
  match s.checks p with
  | some check => outstanding s check
  | none => 0

theorem resetTriggered_owed (s : Waiter Tid) (p : CheckPtr) (m_checks : List CheckPtr) :
    resetCalls .wait_next_after_trigger p s m_checks + owed (s.resetTriggered .wait_next_after_trigger m_checks) p = owed s p := by
  induction m_checks generalizing s with
  | nil => exact Nat.zero_add _
  | cons q rest ih =>
    have later := ih (Waiter.resetTriggeredCheck .wait_next_after_trigger s q)
    have first : (if q = p ∧ resetsNow s q then 1 else 0) + owed (Waiter.resetTriggeredCheck .wait_next_after_trigger s q) p =
        owed s p := by
      rcases resetTriggeredCheck_cases s .wait_next_after_trigger q with ⟨never,same⟩ | ⟨now,reset,there,triggered,_,same⟩
      · simp [same,never]
      · by_cases here : q = p
        · subst here
          have taken := resetLocked_trigger triggered
          simpa [same,now,owed,there,outstanding,Waiter.getCount] using taken
        · have other : p ≠ q := Ne.symm here
          simp [same,owed,other,here,outstanding,Waiter.getCount]
    rw [resetCalls,Waiter.resetTriggered,List.foldl_cons]
    rw [Waiter.resetTriggered] at later
    omega

end resetting

/-! ### Counting on -/

/-- What the counter has, as a number. -/
def gauge (c : Counter) (s : Waiter Tid) : Nat := ((value s c).map BitVec.toNat).getD 0
/-- The counter was made. -/
def Known (s : Waiter Tid) : Counter → Prop
  | .call r => r.serial < s.next_call_info
  | .connect _ _ => True
  | .change p => p < s.next_check

theorem raises_le (c : Counter) (s : Waiter Tid) (action : Tid × Action) : raises c s action ≤ 1 := by
  unfold raises
  split
  · split <;> decide
  · split <;> decide
  · split <;> decide
  · decide

/-- What is there of the checks, besides what every waiter has. -/
structure Sane (s : Waiter Tid) : Prop where
  sound : Sound s
  made : ∀ p check, s.checks p = some check → p < s.next_check
  pending : ∀ t event check filter_id, s.points t = .bindCheck event check filter_id →
    ∀ own count, check.counted ≠ .change own count

/-- A counter goes up by one where the step raises it, begins with zero, or is gone. -/
theorem turns_value {s : Waiter Tid} (sane : Sane s) {action : Tid × Action} {b : Books} (turns : Turns s action b)
    {c : Counter} {actual : TCounter} (is : b.value c = some actual) :
    (∃ before, value s c = some before ∧ actual = before + BitVec.ofNat 32 (raises c s action)) ∨
      ¬ Known s c ∧ actual = 0 := by
  have still (quiet : raises c s action = 0) (before : value s c = some actual) :
      (∃ before, value s c = some before ∧ actual = before + BitVec.ofNat 32 (raises c s action)) ∨
        ¬ Known s c ∧ actual = 0 :=
    .inl ⟨actual,before,by rw [quiet]; exact (BitVec.add_zero _).symm⟩
  have goes {before : TCounter} (raised : raises c s action = 1) (was : value s c = some before) (now : actual = before + 1) :
      (∃ before, value s c = some before ∧ actual = before + BitVec.ofNat 32 (raises c s action)) ∨
        ¬ Known s c ∧ actual = 0 :=
    .inl ⟨before,was,by rw [raised]; exact now⟩
  cases turns with
  | aside raised => exact still (raised c) is
  | newCallInfo address =>
    cases c with
    | call r =>
      by_cases made : r = ⟨address,s.next_call_info⟩
      · subst made
        simp only [Books.value,Function.update_self] at is
        exact .inr ⟨Nat.lt_irrefl _,(Option.some.inj is).symm⟩
      · exact still rfl ((Function.update_of_ne made _ _).symm.trans is)
    | connect | change => exact still rfl is
  | release q =>
    cases c with
    | call r =>
      by_cases gone : r = q
      · subst gone
        cases (Function.update_self _ _ _).symm.trans is
      · exact still rfl ((Function.update_of_ne gone _ _).symm.trans is)
    | connect | change => exact still rfl is
  | newCheck check raised kept origin =>
    cases c with
    | change p =>
      by_cases made : p = s.next_check
      · subst made
        refine .inr ⟨Nat.lt_irrefl _,?_⟩
        simp only [Books.value,Function.update_self,Option.bind_some] at is
        rcases origin with ⟨own,interpret_as_cancel,rfl⟩ | ⟨t,event,filter_id,there⟩
        · exact (Option.some.inj is).symm
        · have other := sane.pending t event check filter_id there
          split at is
          · rename_i own count counts
            exact absurd counts (other own count)
          · cases is
      · exact still (raised _) (by simpa [value,Books.value,books,made] using is)
    | call | connect => exact still (raised _) is
  | @counts t q count there =>
    cases c with
    | call r =>
      by_cases here : r = q
      · subst here
        exact goes (if_pos rfl) there (Option.some.inj (is.symm.trans (Function.update_self _ _ _)))
      · exact still (if_neg fun same => here (Counter.call.inj same)) ((Function.update_of_ne here _ _).symm.trans is)
    | connect | change => exact still (by simp [raises]) is
  | @signals t signaling es valid =>
    cases c with
    | connect r other =>
      by_cases here : r = signaling ∧ other = es
      · obtain ⟨rfl,rfl⟩ := here
        refine goes (if_pos ⟨valid,rfl⟩) rfl ?_
        simpa [Books.value,books,signaled] using is.symm
      · refine still (if_neg fun both => here (Counter.connect.inj both.2)) ?_
        rw [← is]
        by_cases same : r = signaling
        · subst same
          have different : other ≠ es := fun same => here ⟨rfl,same⟩
          simp [value,Books.value,books,signaled,different]
        · simp [value,Books.value,books,signaled,same]
    | call | change => exact still (by simp [raises]) is
  | @increments t q own count start interpret_as_cancel there =>
    have counter : value s (.change q) = some count := by simp [value,Books.value,books,there]
    cases c with
    | change p =>
      by_cases here : p = q
      · subst here
        refine goes (if_pos ⟨rfl,by rw [counter]; rfl⟩) counter ?_
        simpa [Books.value] using is.symm
      · refine still (if_neg fun both => here (Counter.change.inj both.1)) ?_
        simpa [value,Books.value,books,here] using is
    | call | connect => exact still (by simp [raises]) is
  | @resetTriggered t event wait_next_after m_checks there =>
    refine still rfl ?_
    rw [← resetTriggered_value s wait_next_after m_checks c]
    exact is

theorem resetTriggered_absent (s : Waiter Tid) (wait_next_after : ResetType) (m_checks : List CheckPtr) {p : CheckPtr}
    (absent : s.checks p = none) : (s.resetTriggered wait_next_after m_checks).checks p = none := by
  induction m_checks generalizing s with
  | nil => exact absent
  | cons q rest ih =>
    refine ih _ ?_
    rcases resetTriggeredCheck_cases s wait_next_after q with ⟨_,same⟩ | ⟨_,reset,there,_,_,same⟩
    · rw [same]
      exact absent
    · rw [same]
      have other : p ≠ q := by
        rintro rfl
        rw [absent] at there
        cases there
      exact (Function.update_of_ne other _ _).trans absent

/-- A check that is there stays, of the same counter, and waits from the same count
    unless the step is a reset. -/
theorem turns_check {s : Waiter Tid} {action : Tid × Action} {b : Books} (turns : Turns s action b) {p : CheckPtr}
    {check : Check} (present : s.checks p = some check) (old : p < s.next_check) :
    ∃ later, b.checks p = some later ∧ counterOf p later = counterOf p check ∧
      later.interpret_as_cancel = check.interpret_as_cancel ∧
      (later.m_wait_start_count = check.m_wait_start_count ∧ resets p s action = 0 ∨
        ∃ t event wait_next_after m_checks, s.events event = some m_checks ∧
          action = (t,.start (.resetTriggered event wait_next_after)) ∧
          b = books (s.resetTriggered wait_next_after m_checks)) := by
  cases turns with
  | aside raised kept => exact ⟨check,present,rfl,rfl,.inl ⟨rfl,kept p⟩⟩
  | newCallInfo | release | counts | signals => exact ⟨check,present,rfl,rfl,.inl ⟨rfl,rfl⟩⟩
  | newCheck made raised kept =>
    exact ⟨check,(Function.update_of_ne (Nat.ne_of_lt old) _ _).trans present,rfl,rfl,.inl ⟨rfl,kept p⟩⟩
  | @increments t q own count start interpret_as_cancel there =>
    by_cases here : p = q
    · subst here
      obtain rfl := Option.some.inj (there.symm.trans present)
      exact ⟨_,Function.update_self _ _ _,rfl,rfl,.inl ⟨rfl,rfl⟩⟩
    · exact ⟨check,(Function.update_of_ne here _ _).trans present,rfl,rfl,.inl ⟨rfl,rfl⟩⟩
  | @resetTriggered t event wait_next_after m_checks there =>
    obtain ⟨later,is,counted,cancel,_⟩ := resetTriggered_check wait_next_after m_checks present
    refine ⟨later,is,?_,cancel,.inr ⟨t,event,wait_next_after,m_checks,there,rfl,rfl⟩⟩
    rw [counterOf,counterOf,counted]

/-- A check that is there now was there, or was made for its place. -/
theorem turns_made {s : Waiter Tid} {action : Tid × Action} {b : Books} (turns : Turns s action b) {p : CheckPtr}
    {later : Check} (is : b.checks p = some later) :
    s.next_check ≤ b.next_check ∧ ((∃ check, s.checks p = some check) ∨ p = s.next_check ∧ p < b.next_check ∧
      ((∃ own interpret_as_cancel, later = ⟨.change own 0,interpret_as_cancel,0⟩) ∨
        ∃ t event filter_id, s.points t = .bindCheck event later filter_id)) := by
  cases turns with
  | aside | newCallInfo | release | counts | signals => exact ⟨Nat.le_refl _,.inl ⟨later,is⟩⟩
  | newCheck made raised kept origin =>
    refine ⟨Nat.le_succ _,?_⟩
    by_cases here : p = s.next_check
    · subst here
      simp only [Function.update_self,Option.some.injEq] at is
      subst is
      exact .inr ⟨rfl,Nat.lt_succ_self _,origin⟩
    · exact .inl ⟨later,(Function.update_of_ne here _ _).symm.trans is⟩
  | @increments t q own count start interpret_as_cancel there =>
    refine ⟨Nat.le_refl _,.inl ?_⟩
    by_cases here : p = q
    · subst here
      exact ⟨_,there⟩
    · exact ⟨later,(Function.update_of_ne here _ _).symm.trans is⟩
  | @resetTriggered t event wait_next_after m_checks there =>
    obtain ⟨checks,same,_⟩ := resetTriggered_checks s wait_next_after m_checks
    refine ⟨by rw [same]; exact Nat.le_refl _,.inl ?_⟩
    cases present : s.checks p with
    | none => cases (resetTriggered_absent s wait_next_after m_checks present).symm.trans is
    | some check => exact ⟨check,rfl⟩

/-! ### Start counts that lag behind -/

theorem step_sane : Preserves step (Sane : Waiter Tid → Prop) := by
  intro s action s' sane stepped
  have turns := step_turns stepped
  refine ⟨step_sound s action s' sane.sound stepped,fun p later is => ?_,fun t event check filter_id there => ?_⟩
  · obtain ⟨grown,⟨check,present⟩ | ⟨_,below,_⟩⟩ := turns_made turns is
    · exact Nat.lt_of_lt_of_le (sane.made p check present) grown
    · exact below
  · rcases step_pending stepped there with before | fresh
    · exact sane.pending t event check filter_id before
    · exact fresh.1

theorem empty_sane : Sane ({} : Waiter Tid) where
  sound := init_sound
  made _ _ present := by cases present
  pending _ _ _ _ there := by cases there

/-- The checks of the counter do not wait for more than it has, bound or not. -/
structure Behind (c : Counter) (s : Waiter Tid) : Prop where
  checks : ∀ p check, s.checks p = some check → counterOf p check = c → Lags s p check
  pending : ∀ t event check filter_id p, s.points t = .bindCheck event check filter_id → counterOf p check = c → Lags s p check

section behind
variable {s s' : Waiter Tid} {action : Tid × Action} {c : Counter} {p : CheckPtr} {check : Check}

theorem known_check (sane : Sane s) (present : s.checks p = some check) : Known s (counterOf p check) := by
  unfold counterOf
  cases counts : check.counted with
  | call r => exact sane.sound.bound.watched p check r present counts
  | connect signaling es => trivial
  | change own count => exact sane.made p check present

theorem known_pending (sane : Sane s) {t : Tid} {event : EventPtr} {filter_id : FilterId}
    (there : s.points t = .bindCheck event check filter_id) (p : CheckPtr) : Known s (counterOf p check) := by
  unfold counterOf
  cases counts : check.counted with
  | call r =>
    obtain ⟨_,named,same⟩ := sane.sound.engaged.binding t event check filter_id there
    rw [← same,Waiter.getFilterId,counts,Option.isSome_map] at named
    refine Nat.lt_of_not_le fun new => ?_
    rw [sane.sound.bound.new_call_info r new] at named
    cases named
  | connect signaling es => trivial
  | change own count => exact absurd counts (sane.pending t event check filter_id there own count)

theorem gauge_value {actual : TCounter} (is : value s c = some actual) : gauge c s = actual.toNat := by
  rw [gauge,is]
  rfl

/-- A counter that was made goes on from what it had. -/
theorem step_value (sane : Sane s) (stepped : step s action = some s') (known : Known s c) {actual : TCounter}
    (is : value s' c = some actual) :
    ∃ before, value s c = some before ∧ actual = before + BitVec.ofNat 32 (raises c s action) :=
  (turns_value sane (step_turns stepped) is).resolve_right fun new => new.1 known

theorem step_lags (sane : Sane s) (stepped : step s action = some s') (room : gauge c s + raises c s action < 2^32)
    (counter : counterOf p check = c) (known : Known s c) (lags : Lags s p check) {later : Check}
    (same : counterOf p later = c) (from_same : later.m_wait_start_count = check.m_wait_start_count) : Lags s' p later := by
  intro actual is
  rw [same] at is
  obtain ⟨before,was,rfl⟩ := step_value sane stepped known is
  rw [gauge_value was] at room
  have behind := lags before (counter ▸ was)
  have once := raises_le c s action
  rw [from_same,BitVec.le_def] at *
  rw [BitVec.toNat_add,BitVec.toNat_ofNat]
  omega

theorem step_behind (sane : Sane s) (behind : Behind c s) (room : gauge c s + raises c s action < 2^32)
    (stepped : step s action = some s') : Behind c s' := by
  have turns := step_turns stepped
  refine ⟨fun p later is counter => ?_,fun t event check filter_id p there counter => ?_⟩
  · obtain ⟨_,⟨check,present⟩ | ⟨new,_,origin⟩⟩ := turns_made turns is
    · obtain ⟨again,now,same,_,start⟩ := turns_check turns present (sane.made p check present)
      obtain rfl := Option.some.inj (now.symm.trans is)
      have own : counterOf p check = c := same.symm.trans counter
      have before := behind.checks p check present own
      rcases start with ⟨start,_⟩ | ⟨t,event,wait_next_after,m_checks,_,_,result⟩
      · exact step_lags sane stepped room own (own ▸ known_check sane present) before counter start
      · obtain ⟨other,there,_,_,lags⟩ := resetTriggered_check wait_next_after m_checks present
        have checks : s'.checks p = (s.resetTriggered wait_next_after m_checks).checks p :=
          congrArg (fun b : Books => b.checks p) result
        obtain rfl := Option.some.inj (there.symm.trans (checks.symm.trans is))
        intro actual value_is
        rw [value,result] at value_is
        exact lags before actual value_is
    · rcases origin with ⟨own,interpret_as_cancel,rfl⟩ | ⟨t,event,filter_id,there⟩
      · exact fun actual _ => Nat.zero_le _
      · exact step_lags sane stepped room counter (counter ▸ known_pending sane there p)
          (behind.pending t event later filter_id p there counter) counter rfl
  · rcases step_pending stepped there with before | fresh
    · exact step_lags sane stepped room counter (counter ▸ known_pending sane before p)
        (behind.pending t event check filter_id p before counter) counter rfl
    · exact fresh.2 p

theorem step_gauge (sane : Sane s) (stepped : step s action = some s') : gauge c s' ≤ gauge c s + raises c s action := by
  cases is : value s' c with
  | none =>
    rw [gauge,is]
    exact Nat.zero_le _
  | some actual =>
    rw [gauge_value is]
    rcases turns_value sane (step_turns stepped) is with ⟨before,was,rfl⟩ | ⟨_,rfl⟩
    · rw [gauge_value was,BitVec.toNat_add,BitVec.toNat_ofNat]
      have once := raises_le c s action
      omega
    · exact Nat.zero_le _

/-- A counter that is raised is ahead by so much more. -/
theorem ahead_add {before start : TCounter} {raised : Nat} (lags : start ≤ before) (once : raised ≤ 1)
    (room : before.toNat + raised < 2^32) :
    (before + BitVec.ofNat 32 raised - start).toNat = (before - start).toNat + raised := by
  rw [BitVec.le_def] at lags
  simp only [BitVec.toNat_sub,BitVec.toNat_add,BitVec.toNat_ofNat]
  omega

theorem owed_value (present : s.checks p = some check) {actual : TCounter} (is : value s (counterOf p check) = some actual) :
    owed s p = (actual - check.m_wait_start_count).toNat := by
  simp only [owed,present,outstanding,getCount_value present,is]

/-- What a step resets and leaves is what was outstanding and what it adds. -/
theorem step_owed (sane : Sane s) (behind : Behind c s) (room : gauge c s + raises c s action < 2^32)
    (only : ∀ event wait_next_after, action.2 = .start (.resetTriggered event wait_next_after) →
      wait_next_after = .wait_next_after_trigger)
    (stepped : step s action = some s') (alive : (value s' c).isSome) (present : s.checks p = some check)
    (counter : counterOf p check = c) : resets p s action + owed s' p = owed s p + raises c s action := by
  obtain ⟨later,now,same,_,start⟩ := turns_check (step_turns stepped) present (sane.made p check present)
  rcases start with ⟨start,kept⟩ | ⟨t,event,wait_next_after,m_checks,there,rfl,result⟩
  · obtain ⟨actual,is⟩ := Option.isSome_iff_exists.mp alive
    obtain ⟨before,was,rfl⟩ := step_value sane stepped (counter ▸ known_check sane present) is
    have lags := behind.checks p check present counter before (counter.symm ▸ was)
    have once := raises_le c s action
    have now_is : value s' (counterOf p later) = some (before + BitVec.ofNat 32 (raises c s action)) := by
      rw [same,counter]
      exact is
    rw [gauge_value was] at room
    rw [kept,owed_value present (counter.symm ▸ was),owed_value now now_is,start]
    rw [Nat.zero_add]
    exact ahead_add lags once room
  · obtain rfl := only event wait_next_after rfl
    have same_checks : owed s' p = owed (s.resetTriggered .wait_next_after_trigger m_checks) p := by
      have checks : s'.checks p = (s.resetTriggered .wait_next_after_trigger m_checks).checks p :=
        congrArg (fun b : Books => b.checks p) result
      simp only [owed,outstanding,checks,getCount_same result]
    have quiet : raises c s (t,.start (.resetTriggered event .wait_next_after_trigger)) = 0 := rfl
    rw [same_checks,quiet,Nat.add_zero]
    simp only [resets,there]
    exact resetTriggered_owed s p m_checks

/-- The check at the place is of this counter, in a state as every run reaches it. -/
structure Counting (c : Counter) (p : CheckPtr) (interpret_as_cancel : Bool) (s : Waiter Tid) : Prop where
  sane : Sane s
  behind : Behind c s
  check : ∃ check, s.checks p = some check ∧ counterOf p check = c ∧ check.interpret_as_cancel = interpret_as_cancel

theorem step_counting {interpret_as_cancel : Bool} (counting : Counting c p interpret_as_cancel s)
    (room : gauge c s + raises c s action < 2^32) (stepped : step s action = some s') :
    Counting c p interpret_as_cancel s' := by
  obtain ⟨check,present,counter,cancel⟩ := counting.check
  obtain ⟨later,now,same,same_cancel,_⟩ := turns_check (step_turns stepped) present (counting.sane.made p check present)
  exact ⟨step_sane s action s' counting.sane stepped,step_behind counting.sane counting.behind room stepped,
    later,now,same.trans counter,same_cancel.trans cancel⟩

end behind

/-! ### Runs -/

/-- What holds of a check while its counter did not come back to zero. -/
structure Balanced (s : Waiter Tid) (p : CheckPtr) (check : Check) : Prop where
  behind : ∀ actual, s.getCount check = some actual → check.m_wait_start_count ≤ actual
  triggered : ∀ actual, s.getCount check = some actual → (s.isTriggered check = true ↔ check.m_wait_start_count ≠ actual)
  taken : s.isTriggered check = true →
    1 + outstanding s (s.resetLocked .wait_next_after_trigger check) = outstanding s check
  untouched : s.isTriggered check = false ∨ check.interpret_as_cancel = true → ∀ wait_next_after m_checks,
    (s.resetTriggered wait_next_after m_checks).checks p = some check

theorem Counting.balanced {c : Counter} {p : CheckPtr} {interpret_as_cancel : Bool} {s : Waiter Tid}
    (counting : Counting c p interpret_as_cancel s) {check : Check} (present : s.checks p = some check) :
    Balanced s p check := by
  obtain ⟨other,there,counter,_⟩ := counting.check
  obtain rfl := Option.some.inj (present.symm.trans there)
  refine ⟨fun actual is => ?_,fun actual is => ?_,resetLocked_trigger,fun untouched wait_next_after m_checks =>
    resetTriggered_untouched wait_next_after m_checks present untouched⟩
  · exact counting.behind.checks p check present counter actual (getCount_value present ▸ is)
  · rw [isTriggered_iff,is]
    constructor
    · rintro ⟨_,⟨⟩,ahead⟩
      exact ahead.symm
    · exact fun ahead => ⟨actual,rfl,ahead.symm⟩

/-- The counter of a check that is there has a value, unless it is of a `CallInfo`
    that is gone. -/
theorem value_alive {c : Counter} {p : CheckPtr} {interpret_as_cancel : Bool} {s : Waiter Tid}
    (counting : Counting c p interpret_as_cancel s) (alive : ∀ r, c = .call r → (s.call_infos r).isSome) :
    (value s c).isSome := by
  obtain ⟨check,present,rfl,_⟩ := counting.check
  unfold counterOf at alive ⊢
  cases counts : check.counted with
  | call r =>
    rw [counts] at alive
    exact alive r rfl
  | connect signaling es => rfl
  | change own count => simp [value,Books.value,books,present,counts]

/-- Only resets that take off one trigger. -/
def TakesOne (action : Tid × Action) : Prop :=
  ∀ event wait_next_after, action.2 = .start (.resetTriggered event wait_next_after) →
    wait_next_after = .wait_next_after_trigger

/-- The step is such a reset or none, and the counter is there behind it. -/
def Accounts (c : Counter) (s : Waiter Tid) (action : Tid × Action) : Prop :=
  TakesOne action ∧ ∀ s', step s action = some s' → (value s' c).isSome

theorem run_room {before : List (Tid × Action)} {c : Counter}
    (small : total step (raises c) ({} : Waiter Tid) before < 2^32) :
    Along step (fun s action => gauge c s + raises c s action < 2^32) ({} : Waiter Tid) before := by
  refine Along.of_total step_sane (fun s action s' sane stepped => step_gauge sane stepped) empty_sane ?_
  have nothing : gauge c ({} : Waiter Tid) = 0 := by
    cases c <;> rfl
  rw [nothing,Nat.zero_add]
  exact small

theorem run_behind {before : List (Tid × Action)} {c : Counter}
    (small : total step (raises c) ({} : Waiter Tid) before < 2^32) :
    Sane (run step ({} : Waiter Tid) before) ∧ Behind c (run step ({} : Waiter Tid) before) := by
  have keeps (s : Waiter Tid) (action : Tid × Action) (s' : Waiter Tid) (holds : Sane s ∧ Behind c s)
      (room : gauge c s + raises c s action < 2^32) (stepped : step s action = some s') : Sane s' ∧ Behind c s' :=
    ⟨step_sane s action s' holds.1 stepped,step_behind holds.1 holds.2 room stepped⟩
  have start : Behind c ({} : Waiter Tid) := by
    refine ⟨?_,?_⟩
    · rintro p check ⟨⟩
    · rintro t event check filter_id p ⟨⟩
  exact Along.run keeps ⟨empty_sane,start⟩ (run_room small)

theorem run_counting {c : Counter} {p : CheckPtr} {interpret_as_cancel : Bool} {s : Waiter Tid}
    (start : Counting c p interpret_as_cancel s) {after : List (Tid × Action)}
    (room : Along step (fun s action => gauge c s + raises c s action < 2^32) s after) :
    Counting c p interpret_as_cancel (run step s after) := by
  have keeps (s : Waiter Tid) (action : Tid × Action) (s' : Waiter Tid) (counting : Counting c p interpret_as_cancel s)
      (room : gauge c s + raises c s action < 2^32) (stepped : step s action = some s') :
      Counting c p interpret_as_cancel s' := step_counting counting room stepped
  exact Along.run keeps start room

theorem run_accounts {c : Counter} {p : CheckPtr} {interpret_as_cancel : Bool} {s : Waiter Tid}
    (start : Counting c p interpret_as_cancel s) {after : List (Tid × Action)}
    (room : Along step (fun s action => gauge c s + raises c s action < 2^32) s after)
    (alive : ∀ r, c = .call r → ∀ now, now <+: after → ((run step s now).call_infos r).isSome)
    (only : ∀ action ∈ after, TakesOne action) : Along step (Accounts c) s after := by
  refine Along.of_prefixes fun first action short made => ?_
  refine ⟨only action (short.subset (List.mem_append_right _ (List.mem_singleton.mpr rfl))),fun s' stepped => ?_⟩
  have reached : run step s (first ++ [action]) = s' := by
    rw [run_append,run,stepped]
    rfl
  obtain ⟨rest,whole⟩ := short
  rw [← whole] at room alive
  rw [← reached]
  exact value_alive (run_counting start (along_append.mp room).1) fun r counts =>
    alive r counts (first ++ [action]) (List.prefix_append _ _)

theorem run_owed {c : Counter} {p : CheckPtr} {interpret_as_cancel : Bool} {s : Waiter Tid}
    (start : Counting c p interpret_as_cancel s) {after : List (Tid × Action)}
    (room : Along step (fun s action => gauge c s + raises c s action < 2^32) s after)
    (accounts : Along step (Accounts c) s after) :
    total step (resets p) s after + owed (run step s after) p = owed s p + total step (raises c) s after := by
  have keeps (s : Waiter Tid) (action : Tid × Action) (s' : Waiter Tid) (counting : Counting c p interpret_as_cancel s)
      (meets : gauge c s + raises c s action < 2^32 ∧ Accounts c s action) (stepped : step s action = some s') :
      Counting c p interpret_as_cancel s' ∧ resets p s action + owed s' p = owed s p + raises c s action := by
    obtain ⟨room,only,alive⟩ := meets
    obtain ⟨check,present,counter,_⟩ := counting.check
    exact ⟨step_counting counting room stepped,
      step_owed counting.sane counting.behind room only stepped (alive s' stepped) present counter⟩
  exact Along.balance keeps start (room.both accounts)

/-- A check in a run of the waiter, from any state in which it is bound: it never
    waits for more than its counter has, is triggered while the two differ, and
    with resets of one kind every trigger is taken off once. -/
theorem triggers_consumed (before after : List (Tid × Action)) (p : CheckPtr) (check : Check)
    (present : (run step ({} : Waiter Tid) before).checks p = some check)
    (small : total step (raises (counterOf p check)) ({} : Waiter Tid) (before ++ after) < 2^32) :
    ∃ later, (run step {} (before ++ after)).checks p = some later ∧ counterOf p later = counterOf p check ∧
      later.interpret_as_cancel = check.interpret_as_cancel ∧ Balanced (run step {} (before ++ after)) p later ∧
      ((∀ r, check.counted = .call r → ∀ now, now <+: after → ((run step {} (before ++ now)).call_infos r).isSome) →
        (∀ action ∈ after, TakesOne action) →
        total step (resets p) (run step {} before) after + outstanding (run step {} (before ++ after)) later =
          outstanding (run step {} before) check + total step (raises (counterOf p check)) (run step {} before) after) := by
  obtain ⟨room_before,room⟩ := along_append.mp (run_room small)
  have small_before : total step (raises (counterOf p check)) ({} : Waiter Tid) before < 2^32 := by
    rw [total_append] at small
    omega
  obtain ⟨sane,behind⟩ := run_behind small_before
  simp only [run_append]
  generalize run step ({} : Waiter Tid) before = s at present room sane behind ⊢
  have start : Counting (counterOf p check) p check.interpret_as_cancel s := ⟨sane,behind,check,present,rfl,rfl⟩
  have counting := run_counting start room
  obtain ⟨later,now,counter,cancel⟩ := counting.check
  refine ⟨later,now,counter,cancel,counting.balanced now,fun alive only => ?_⟩
  have lives : ∀ r, counterOf p check = .call r → ∀ now, now <+: after → ((run step s now).call_infos r).isSome := by
    intro r counts
    refine alive r ?_
    unfold counterOf at counts
    split at counts
    · rename_i call_info is
      rw [is,Counter.call.inj counts]
    · cases counts
    · cases counts
  have balanced := run_owed start room (run_accounts start room lives only)
  simpa only [owed,now,present] using balanced

/-- A check that one event has once, and another one twice. -/
def sharedTwice : List (Nat × Action) :=
  [(0,.start (.counterEvent 7 false)),(0,.start .createEvent),(0,.start (.bindEvent 1 0)),(0,.start (.bindEvent 1 0))]
/-- It is triggered three times, and reset by both. -/
def resetShared : List (Nat × Action) :=
  [(1,.start (.increment 0)),(1,.start (.increment 0)),(0,.start (.resetTriggered 1 .wait_next_after_trigger)),
    (1,.start (.increment 0)),(0,.start (.resetTriggered 0 .wait_next_after_trigger))]

theorem triggers_consumed_shared : ∃ later, (run step {} (sharedTwice ++ resetShared)).checks 0 = some later ∧
    Balanced (run step {} (sharedTwice ++ resetShared)) 0 later ∧
    total step (resets 0) (run step {} sharedTwice) resetShared +
      outstanding (run step {} (sharedTwice ++ resetShared)) later = 0 + 3 := by
  obtain ⟨later,now,_,_,balanced,accounts⟩ := triggers_consumed sharedTwice resetShared 0 ⟨.change 7 0,false,0⟩ rfl
    (by decide)
  refine ⟨later,now,balanced,accounts (by rintro r ⟨⟩) ?_⟩
  intro action member event wait_next_after is
  simp only [resetShared,List.mem_cons,List.not_mem_nil,or_false] at member
  rcases member with rfl | rfl | rfl | rfl | rfl <;> cases is <;> rfl

end IpcPortable.Triggers
