import IpcPortable.Runs
import Mathlib.Algebra.Group.Nat.Defs

/-!
`AutotestQtUtils::Waiter`: it waits in an event loop until a call is counted.
The check resets the count it compares with, and runs before the loop, in the
callback and behind the loop. Beside the state of the code the model keeps how
many calls were counted since the last check that found one, and how many of
the earlier ones no `WaitProcessing` has reported.
-/
namespace IpcPortable.CountWaiter
open IpcPortable.Runs

/-- A pointer to a call info. -/
abbrev CallInfo := Nat

structure Waiter where
  m_call_count : BitVec 32
  m_call_info : CallInfo
/-- What a `WaitProcessing` returned, and how many calls of the watched call info
    were counted since the last one that succeeded. -/
structure Report where
  returned : Bool
  counted : Nat
deriving DecidableEq

/-- The counts of the call infos, the waiter, and whether its event loop runs
    and was told to exit. -/
structure State where
  call_count : CallInfo → BitVec 32
  waiter : Waiter
  event_loop : Option Bool := none
  unchecked : Nat := 0
  unreported : Nat := 0
  reports : List Report := []

/-- A new waiter. Of the calls counted before, those beyond `initial_count` are
    still to be reported; the other constructor takes the present count. -/
def State.start (call_count : CallInfo → BitVec 32) (call_info : CallInfo) (initial_count : BitVec 32) : State where
  call_count := call_count
  waiter := ⟨initial_count,call_info⟩
  unchecked := (call_count call_info - initial_count).toNat

/-- `IsCheckFinished_Autoreset`. -/
def State.isCheckFinishedAutoreset (s : State) : Bool × State :=
  let new_count := s.call_count s.waiter.m_call_info
  if new_count ≠ s.waiter.m_call_count then
    (true,{ s with
      waiter := { s.waiter with m_call_count := new_count }
      unreported := s.unreported + s.unchecked
      unchecked := 0 })
  else (false,s)
/-- `event_loop.exit()`; it has no effect on a loop that does not run. -/
def State.exit (s : State) : State := { s with event_loop := s.event_loop.map fun _ => true }
/-- `OnCallCountChanged`. -/
def State.onCallCountChanged (s : State) (call_info : CallInfo) : State :=
  if s.waiter.m_call_info = call_info then
    match s.isCheckFinishedAutoreset with
    | (true,s) => s.exit
    | (false,s) => s
  else s
/-- `WaitProcessing` returns. -/
def State.report (s : State) (returned : Bool) : State :=
  { s with
    event_loop := none
    unreported := if returned then 0 else s.unreported
    reports := ⟨returned,s.unreported + s.unchecked⟩ :: s.reports }

inductive Action
  /-- `IncrementCallCount`, on any thread. -/
  | counted (call_info : CallInfo)
  /-- The count callback is delivered on the waiting thread. -/
  | callback (call_info : CallInfo)
  /-- Something else calls `event_loop.exit()`. -/
  | exit
  /-- `WaitProcessing` up to the event loop. -/
  | waitProcessing
  /-- `WaitProcessing` from the end of the event loop on. -/
  | loopEnds
deriving DecidableEq
def step (s : State) : Action → Option State
  | .counted call_info => some { s with
      call_count := Function.update s.call_count call_info (s.call_count call_info + 1)
      unchecked := if call_info = s.waiter.m_call_info then s.unchecked + 1 else s.unchecked }
  | .callback call_info => some (s.onCallCountChanged call_info)
  | .exit => some s.exit
  | .waitProcessing =>
    if s.event_loop = none then
      match s.isCheckFinishedAutoreset with
      | (true,s) => some (s.report true)
      | (false,s) => some { s with event_loop := some false }
    else none
  | .loopEnds =>
    if s.event_loop = some true then
      match s.isCheckFinishedAutoreset with
      | (true,s) => some (s.report true)
      | (false,s) => some (s.report false)
    else none

/-- The reports are right: `true` if and only if a call was counted. -/
def Right (s : State) : Prop := ∀ report ∈ s.reports, report.returned = true ↔ 0 < report.counted
/-- When the loop ends, calls were counted since the last check that found one,
    as many as the count can tell, or none at all since the last success. -/
def CountedLate (s : State) : Action → Prop
  | .loopEnds => s.unchecked % 2^32 ≠ 0 ∨ s.unchecked = 0 ∧ s.unreported = 0
  | _ => True

/-- The waiter knows the count but for the calls that no check has seen. -/
def Inv (s : State) : Prop :=
  s.call_count s.waiter.m_call_info = s.waiter.m_call_count + BitVec.ofNat 32 s.unchecked

theorem inv_start (call_count : CallInfo → BitVec 32) (call_info : CallInfo) (initial_count : BitVec 32) :
    Inv (State.start call_count call_info initial_count) := by
  simp only [Inv,State.start,BitVec.ofNat_toNat,BitVec.setWidth_eq]
  rw [BitVec.add_comm,BitVec.sub_add_cancel]

/-- A check finds something unless the calls are a multiple of 2^32. -/
theorem check_finds {s : State} (inv : Inv s) :
    s.call_count s.waiter.m_call_info ≠ s.waiter.m_call_count ↔ s.unchecked % 2^32 ≠ 0 := by
  rw [Inv] at inv
  rw [inv,not_iff_not]
  constructor
  · intro same
    have zero : BitVec.ofNat 32 s.unchecked = 0 := BitVec.add_right_eq_self.mp same
    simpa using congrArg BitVec.toNat zero
  · intro multiple
    have zero : BitVec.ofNat 32 s.unchecked = 0#32 := BitVec.eq_of_toNat_eq (by simpa using multiple)
    rw [zero,BitVec.add_zero]

/-- What a check leaves that found something. -/
def State.noted (s : State) : State :=
  { s with
    waiter := { s.waiter with m_call_count := s.call_count s.waiter.m_call_info }
    unreported := s.unreported + s.unchecked
    unchecked := 0 }

theorem check_cases {s : State} (inv : Inv s) :
    s.unchecked % 2^32 ≠ 0 ∧ s.isCheckFinishedAutoreset = (true,s.noted) ∨
    s.unchecked % 2^32 = 0 ∧ s.isCheckFinishedAutoreset = (false,s) := by
  unfold State.isCheckFinishedAutoreset
  by_cases found : s.call_count s.waiter.m_call_info ≠ s.waiter.m_call_count
  · exact .inl ⟨(check_finds inv).mp found,by rw [if_pos found]; rfl⟩
  · exact .inr ⟨by simpa using fun other => found ((check_finds inv).mpr other),by rw [if_neg found]⟩

theorem inv_noted (s : State) : Inv s.noted := by
  simp [Inv,State.noted]

theorem inv_counted {s : State} (inv : Inv s) (call_info : CallInfo) :
    Inv { s with
      call_count := Function.update s.call_count call_info (s.call_count call_info + 1)
      unchecked := if call_info = s.waiter.m_call_info then s.unchecked + 1 else s.unchecked } := by
  rw [Inv] at inv ⊢
  by_cases watched : call_info = s.waiter.m_call_info
  · subst watched
    simp [inv,BitVec.ofNat_add,BitVec.add_assoc]
  · simp [watched,Ne.symm watched,inv]

/-- The calls that reports of success consumed. -/
def State.consumed (s : State) : Nat :=
  s.reports.foldr (fun report sum => if report.returned then report.counted + sum else sum) 0
/-- The calls that no success has consumed yet. -/
def State.pending (s : State) : Nat := s.unreported + s.unchecked

/-- What a step does to the waiter. -/
inductive Moves (s : State) : Action → State → Prop
  | counted (call_info : CallInfo) : Moves s (.counted call_info) { s with
      call_count := Function.update s.call_count call_info (s.call_count call_info + 1)
      unchecked := if call_info = s.waiter.m_call_info then s.unchecked + 1 else s.unchecked }
  | noticed (call_info : CallInfo) : s.waiter.m_call_info = call_info → s.unchecked % 2^32 ≠ 0 →
      Moves s (.callback call_info) s.noted.exit
  | ignored (call_info : CallInfo) : s.waiter.m_call_info ≠ call_info ∨ s.unchecked % 2^32 = 0 →
      Moves s (.callback call_info) s
  | exit : Moves s .exit s.exit
  | before : s.unchecked % 2^32 ≠ 0 → Moves s .waitProcessing (s.noted.report true)
  | waits : s.unchecked % 2^32 = 0 → Moves s .waitProcessing { s with event_loop := some false }
  | behind : s.unchecked % 2^32 ≠ 0 → Moves s .loopEnds (s.noted.report true)
  | fails : s.unchecked % 2^32 = 0 → Moves s .loopEnds (s.report false)

theorem step_moves {s s' : State} {action : Action} (inv : Inv s) (stepped : step s action = some s') : Moves s action s' := by
  cases action with
  | counted call_info =>
    obtain rfl := Option.some.inj stepped
    exact .counted call_info
  | callback call_info =>
    obtain rfl := Option.some.inj stepped
    unfold State.onCallCountChanged
    by_cases watched : s.waiter.m_call_info = call_info
    · rw [if_pos watched]
      rcases check_cases inv with ⟨some,found⟩ | ⟨none,found⟩
      · rw [found]
        exact .noticed call_info watched some
      · rw [found]
        exact .ignored call_info (.inr none)
    · rw [if_neg watched]
      exact .ignored call_info (.inl watched)
  | exit =>
    obtain rfl := Option.some.inj stepped
    exact .exit
  | waitProcessing =>
    rw [step] at stepped
    split at stepped
    · rcases check_cases inv with ⟨some,found⟩ | ⟨none,found⟩
      · rw [found] at stepped
        obtain rfl := Option.some.inj stepped
        exact .before some
      · rw [found] at stepped
        obtain rfl := Option.some.inj stepped
        exact .waits none
    · cases stepped
  | loopEnds =>
    rw [step] at stepped
    split at stepped
    · rcases check_cases inv with ⟨some,found⟩ | ⟨none,found⟩
      · rw [found] at stepped
        obtain rfl := Option.some.inj stepped
        exact .behind some
      · rw [found] at stepped
        obtain rfl := Option.some.inj stepped
        exact .fails none
    · cases stepped

theorem step_inv : Preserves step Inv := by
  intro s action s' inv stepped
  cases step_moves inv stepped with
  | counted call_info => exact inv_counted inv call_info
  | noticed call_info watched some => exact inv_noted s
  | ignored call_info nothing => exact inv
  | exit => exact inv
  | before some => exact inv_noted s
  | waits none => exact inv
  | behind some => exact inv_noted s
  | fails none => exact inv

/-- A new report is right, or not, whatever was reported before. -/
theorem right_report {s : State} (right : Right s) (returned : Bool) :
    Right (s.report returned) ↔ (returned = true ↔ 0 < s.pending) := by
  unfold Right State.report State.pending
  simp only [List.mem_cons,forall_eq_or_imp]
  exact and_iff_left right

theorem noted_pending (s : State) : s.noted.pending = s.pending := Nat.add_zero _

theorem step_right {s s' : State} {action : Action} (inv : Inv s) (right : Right s) (stepped : step s action = some s') :
    Right s' ↔ CountedLate s action := by
  have success (some : s.unchecked % 2^32 ≠ 0) : Right (s.noted.report true) := by
    refine (right_report (s := s.noted) right true).mpr (iff_of_true rfl ?_)
    rw [noted_pending,State.pending]
    omega
  cases step_moves inv stepped with
  | counted call_info => exact iff_of_true right trivial
  | noticed call_info watched some => exact iff_of_true right trivial
  | ignored call_info nothing => exact iff_of_true right trivial
  | exit => exact iff_of_true right trivial
  | before some => exact iff_of_true (success some) trivial
  | waits none => exact iff_of_true right trivial
  | behind some => exact iff_of_true (success some) (.inl some)
  | fails none =>
    rw [right_report right,CountedLate,State.pending]
    simp only [none,ne_eq,not_true,false_or,Bool.false_eq_true,false_iff]
    omega

/-- Every call is consumed by one success, or is still to be reported. -/
theorem step_balance {s s' : State} {action : Action} (inv : Inv s) (stepped : step s action = some s') :
    s'.waiter.m_call_info = s.waiter.m_call_info ∧
      s'.consumed + s'.pending = s.consumed + s.pending + [action].count (.counted s.waiter.m_call_info) := by
  have success : (s.noted.report true).consumed + (s.noted.report true).pending = s.consumed + s.pending := by
    have consumed : (s.noted.report true).consumed = s.noted.pending + s.consumed := by
      simp [State.consumed,State.report,State.pending,State.noted]
    have none : (s.noted.report true).pending = 0 := rfl
    rw [consumed,noted_pending,none,Nat.add_zero,Nat.add_comm]
  have failure : (s.report false).consumed + (s.report false).pending = s.consumed + s.pending := by
    simp [State.consumed,State.report,State.pending]
  cases step_moves inv stepped with
  | counted call_info =>
    refine ⟨rfl,?_⟩
    by_cases watched : call_info = s.waiter.m_call_info
    · simp [State.consumed,State.pending,watched]
      omega
    · simp [State.consumed,State.pending,watched]
  | noticed call_info watched some => exact ⟨rfl,by simp [State.consumed,State.exit,State.pending,State.noted]⟩
  | ignored call_info nothing => exact ⟨rfl,by simp⟩
  | exit => exact ⟨rfl,by simp [State.consumed,State.exit,State.pending]⟩
  | before some => exact ⟨rfl,by simpa using success⟩
  | waits none => exact ⟨rfl,by simp [State.consumed,State.pending]⟩
  | behind some => exact ⟨rfl,by simpa using success⟩
  | fails none => exact ⟨rfl,by simpa using failure⟩

theorem run_balance (actions : List Action) {s : State} (inv : Inv s) :
    (run step s actions).consumed + (run step s actions).pending =
      s.consumed + s.pending + actions.count (.counted s.waiter.m_call_info) := by
  induction actions generalizing s with
  | nil => rfl
  | cons action rest ih =>
    have split : (action :: rest).count (.counted s.waiter.m_call_info) =
        [action].count (.counted s.waiter.m_call_info) + rest.count (.counted s.waiter.m_call_info) := by
      rw [← List.count_append]
      rfl
    rw [run,split]
    cases stepped : step s action with
    | none =>
      have disabled : action ≠ .counted s.waiter.m_call_info := by
        rintro rfl
        cases stepped
      rw [Option.getD_none,ih inv,List.count_singleton,if_neg (by simpa using disabled),Nat.zero_add]
    | some s' =>
      obtain ⟨same,balance⟩ := step_balance inv stepped
      rw [Option.getD_some,ih (step_inv s action s' inv stepped),balance,same,Nat.add_assoc]

/-- All reports of all `WaitProcessing` are right, all along the run, if and only
    if no loop ends with all its calls noticed by a callback, or with a multiple
    of 2^32 calls unnoticed. Whatever is reported, a call counts for one success
    at most. -/
theorem reports_right_iff (call_count : CallInfo → BitVec 32) (call_info : CallInfo) (initial_count : BitVec 32)
    (actions : List Action) :
    ((∀ before, before <+: actions → Right (run step (State.start call_count call_info initial_count) before)) ↔
      Along step CountedLate (State.start call_count call_info initial_count) actions) ∧
    (run step (State.start call_count call_info initial_count) actions).consumed +
        (run step (State.start call_count call_info initial_count) actions).pending =
      (call_count call_info - initial_count).toNat + actions.count (.counted call_info) := by
  have inv := inv_start call_count call_info initial_count
  have nothing : Right (State.start call_count call_info initial_count) := fun _ member => (List.not_mem_nil member).elim
  refine ⟨along_iff step_inv (fun s action s' holds right stepped => step_right holds right stepped) inv nothing actions,?_⟩
  rw [run_balance actions inv]
  simp [State.consumed,State.pending,State.start]

/-- One call arrives in the loop: the callback notices it and the loop ends, and
    `WaitProcessing` reports that there was none. -/
theorem call_in_loop :
    let s := run step (State.start (fun _ => 0) 0 0) [.waitProcessing,.counted 0,.callback 0,.loopEnds]
    s.reports = [⟨false,1⟩] ∧ ¬ Right s := by
  refine ⟨by decide,fun right => ?_⟩
  have wrong := (right ⟨false,1⟩ (by decide)).mpr (by decide)
  cases wrong

end IpcPortable.CountWaiter
