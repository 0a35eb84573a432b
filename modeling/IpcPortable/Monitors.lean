import IpcPortable.Conditions

/-!
Monitors: a state under a lock, with one condition variable. An operation is a
section that holds the lock. Where it is not ready it waits, and when it was woken
it looks again. The state is what the operations make of it one after the other, in
the order in which they are done (`run_sequential`). Where everything notifies that
makes an operation ready, nobody sleeps whose operation is ready (`run_awake`).
-/
namespace IpcPortable.Monitors
open IpcPortable.Runs IpcPortable.Conditions
variable {ι σ κ ρ : Type*}

structure Monitor (σ κ ρ : Type*) where
  /-- The operation need not wait. -/
  ready : σ → κ → Bool
  act : σ → κ → σ × ρ
  /-- It ends with `notify_all`. -/
  notifies : κ → Bool

/-- What the threads share, which operations they are inside of, and for the record
    the operations that are done with their results. -/
structure Shared (ι σ κ ρ : Type*) where
  state : σ
  condition : Condition ι := {}
  inside : ι → Option κ := fun _ => none
  record : List (ι × κ × ρ) := []

inductive Deed (κ : Type*)
  | enter (op : κ)
  /-- The thread gets the lock. -/
  | hold
  /-- It wakes up without a notification. -/
  | wake

/-! ### One after the other -/

section alone
variable {m : Monitor σ κ ρ} {s s' : σ}

/-- The operations have these results and lead to the state `s'`, one after the other. -/
def Replays (m : Monitor σ κ ρ) (s : σ) : List (κ × ρ) → σ → Prop
  | [], s' => s' = s
  | (op,result) :: rest, s' => m.ready s op = true ∧ (m.act s op).2 = result ∧ Replays m (m.act s op).1 rest s'

theorem Replays.append {before after : List (κ × ρ)} (first : Replays m s before s') {s'' : σ}
    (second : Replays m s' after s'') : Replays m s (before ++ after) s'' := by
  induction before generalizing s with
  | nil =>
    cases first
    exact second
  | cons entry rest ih =>
    obtain ⟨op,result⟩ := entry
    obtain ⟨ready,same,later⟩ := first
    exact ⟨ready,same,ih later⟩

theorem Replays.split {before after : List (κ × ρ)} (replays : Replays m s (before ++ after) s') :
    ∃ between, Replays m s before between ∧ Replays m between after s' := by
  induction before generalizing s with
  | nil => exact ⟨s,rfl,replays⟩
  | cons entry rest ih =>
    obtain ⟨op,result⟩ := entry
    obtain ⟨ready,same,later⟩ := replays
    obtain ⟨between,first,second⟩ := ih later
    exact ⟨between,⟨ready,same,first⟩,second⟩

theorem Replays.keeps {inv : σ → List (κ × ρ) → Prop}
    (keeps : ∀ s ops op, inv s ops → m.ready s op = true → inv (m.act s op).1 (ops ++ [(op,(m.act s op).2)]))
    {before ops : List (κ × ρ)} (start : inv s before) (replays : Replays m s ops s') : inv s' (before ++ ops) := by
  induction ops generalizing s before with
  | nil =>
    cases replays
    rwa [List.append_nil]
  | cons entry rest ih =>
    obtain ⟨op,result⟩ := entry
    obtain ⟨ready,same,later⟩ := replays
    have next := ih (keeps s before op start ready) later
    rwa [same,List.append_assoc] at next

/-- What every operation that is ready keeps holds in the end. -/
theorem Replays.holds {ops : List (κ × ρ)} (replays : Replays m s ops s') (inv : σ → List (κ × ρ) → Prop) (start : inv s [])
    (keeps : ∀ s ops op, inv s ops → m.ready s op = true → inv (m.act s op).1 (ops ++ [(op,(m.act s op).2)])) : inv s' ops :=
  Replays.keeps keeps start replays

end alone

/-! ### Many threads -/

variable [DecidableEq ι]

/-- The thread comes to the section of the operation. -/
def Shared.enter (s : Shared ι σ κ ρ) (t : ι) (op : κ) : Shared ι σ κ ρ := { s with inside := Function.update s.inside t (some op) }
/-- The operation is done, and its section ends. -/
def Shared.finish (m : Monitor σ κ ρ) (s : Shared ι σ κ ρ) (t : ι) (op : κ) : Shared ι σ κ ρ where
  state := (m.act s.state op).1
  condition := if m.notifies op then s.condition.notifyAll else s.condition
  inside := Function.update s.inside t none
  record := s.record ++ [(t,op,(m.act s.state op).2)]
def step (m : Monitor σ κ ρ) (s : Shared ι σ κ ρ) : ι × Deed κ → Option (Shared ι σ κ ρ)
  | (t,.enter op) => if (s.inside t).isNone then some (s.enter t op) else none
  | (t,.hold) => if t ∈ s.condition.blocked then none else
    (s.inside t).map fun op => if m.ready s.state op then s.finish m t op else { s with condition := s.condition.wait t }
  | (t,.wake) => if t ∈ s.condition.blocked then some { s with condition := s.condition.wake t } else none

@[simp] theorem enter_self {s : Shared ι σ κ ρ} {t : ι} {op : κ} : (s.enter t op).inside t = some op := Function.update_self ..
@[simp] theorem enter_other {s : Shared ι σ κ ρ} {t u : ι} {op : κ} (other : u ≠ t) : (s.enter t op).inside u = s.inside u :=
  Function.update_of_ne other ..
@[simp] theorem finish_self {m : Monitor σ κ ρ} {s : Shared ι σ κ ρ} {t : ι} {op : κ} : (s.finish m t op).inside t = none :=
  Function.update_self ..
@[simp] theorem finish_other {m : Monitor σ κ ρ} {s : Shared ι σ κ ρ} {t u : ι} {op : κ} (other : u ≠ t) :
    (s.finish m t op).inside u = s.inside u :=
  Function.update_of_ne other ..
theorem finish_sleeps {m : Monitor σ κ ρ} {s : Shared ι σ κ ρ} {t u : ι} {op : κ}
    (sleeps : u ∈ (s.finish m t op).condition.blocked) : u ∈ s.condition.blocked ∧ m.notifies op = false := by
  cases notifies : m.notifies op with
  | true => simp [Shared.finish,notifies,Condition.notifyAll] at sleeps
  | false => simpa [Shared.finish,notifies] using sleeps

/-- Everything that makes an operation ready notifies. -/
def Wakes (m : Monitor σ κ ρ) : Prop := ∀ s op other, m.ready s op = true → m.ready s other = false →
  m.ready (m.act s op).1 other = true → m.notifies op = true

section runs
variable {m : Monitor σ κ ρ} {s s' : Shared ι σ κ ρ} {t : ι}

/-- What a step does. -/
inductive Steps (m : Monitor σ κ ρ) (s : Shared ι σ κ ρ) (t : ι) : Deed κ → Shared ι σ κ ρ → Prop
  | enters (op : κ) (outside : s.inside t = none) :
      Steps m s t (.enter op) (s.enter t op)
  | acts (op : κ) (awake : t ∉ s.condition.blocked) (inside : s.inside t = some op) (ready : m.ready s.state op = true) :
      Steps m s t .hold (s.finish m t op)
  | waits (op : κ) (inside : s.inside t = some op) (unready : m.ready s.state op = false) :
      Steps m s t .hold { s with condition := s.condition.wait t }
  | wakes : Steps m s t .wake { s with condition := s.condition.wake t }

theorem step_steps {deed : Deed κ} (stepped : step m s (t,deed) = some s') : Steps m s t deed s' := by
  cases deed with
  | enter op =>
    by_cases outside : (s.inside t).isNone = true
    · rw [step,if_pos outside] at stepped
      cases stepped
      exact .enters op (Option.isNone_iff_eq_none.mp outside)
    · rw [step,if_neg outside] at stepped
      cases stepped
  | hold =>
    by_cases blocked : t ∈ s.condition.blocked
    · rw [step,if_pos blocked] at stepped
      cases stepped
    · rw [step,if_neg blocked] at stepped
      obtain ⟨op,inside,held⟩ := Option.map_eq_some_iff.mp stepped
      by_cases ready : m.ready s.state op = true
      · rw [if_pos ready] at held
        cases held
        exact .acts op blocked inside ready
      · rw [if_neg ready] at held
        cases held
        exact .waits op inside (Bool.not_eq_true _ ▸ ready)
  | wake =>
    by_cases blocked : t ∈ s.condition.blocked
    · rw [step,if_pos blocked] at stepped
      cases stepped
      exact .wakes
    · rw [step,if_neg blocked] at stepped
      cases stepped

theorem step_sequential (start : σ) : Preserves (step m) fun s : Shared ι σ κ ρ => Replays m start (s.record.map Prod.snd) s.state := by
  rintro s ⟨t,deed⟩ s' replays stepped
  cases step_steps stepped with
  | enters _ _ => exact replays
  | acts op _ _ ready =>
    rw [Shared.finish,List.map_append]
    exact replays.append ⟨ready,rfl,rfl⟩
  | waits _ _ _ => exact replays
  | wakes => exact replays

/-- In every run the results and the state are those of the operations that are
    done, one after the other. -/
theorem run_sequential (m : Monitor σ κ ρ) (start : σ) (deeds : List (ι × Deed κ)) :
    Replays m start ((run (step m) { state := start } deeds).record.map Prod.snd) (run (step m) { state := start } deeds).state :=
  (step_sequential start).run (s := { state := start }) rfl deeds

/-- Who sleeps is inside of an operation. -/
def Inside (s : Shared ι σ κ ρ) : Prop := ∀ t ∈ s.condition.blocked, (s.inside t).isSome
/-- The operation that the thread is inside of is ready. -/
def Due (m : Monitor σ κ ρ) (s : Shared ι σ κ ρ) (t : ι) : Prop := ∃ op, s.inside t = some op ∧ m.ready s.state op = true

theorem step_inside : Preserves (step m) (Inside : Shared ι σ κ ρ → Prop) := by
  rintro s ⟨t,deed⟩ s' inv stepped u sleeps
  cases step_steps stepped with
  | enters op outside =>
    by_cases same : u = t
    · simp [same]
    · rw [enter_other same]
      exact inv u sleeps
  | acts op awake _ _ =>
    have slept := (finish_sleeps sleeps).1
    have other : u ≠ t := by
      rintro rfl
      exact awake slept
    rw [finish_other other]
    exact inv u slept
  | waits op inside _ =>
    rcases mem_wait.mp sleeps with rfl | slept
    · exact Option.isSome_iff_exists.mpr ⟨op,inside⟩
    · exact inv u slept
  | wakes => exact inv u (mem_wake.mp sleeps).1

theorem step_awake (wakes : Wakes m) :
    Preserves (step m) fun s : Shared ι σ κ ρ => Inside s ∧ ∀ t, t ∈ s.condition.blocked → ¬ Due m s t := by
  refine no_lost_wakeup step_inside ?_ ?_
  · rintro s t deed s' inv stepped sleeps ⟨op,inside,ready⟩
    cases step_steps stepped with
    | enters _ outside =>
      have some := inv t sleeps
      rw [outside] at some
      cases some
    | acts _ _ _ _ =>
      rw [finish_self] at inside
      cases inside
    | waits other inside' unready =>
      cases inside'.symm.trans inside
      cases unready.symm.trans ready
    | wakes => exact absurd rfl (mem_wake.mp sleeps).2
  · rintro s u deed s' t inv stepped other sleeps ⟨op,inside,ready⟩
    cases step_steps stepped with
    | enters _ _ =>
      rw [enter_other other] at inside
      exact ⟨sleeps,op,inside,ready⟩
    | acts finished _ _ ready' =>
      rw [finish_other other] at inside
      obtain ⟨slept,silent⟩ := finish_sleeps sleeps
      refine ⟨slept,op,inside,?_⟩
      cases before : m.ready s.state op with
      | true => rfl
      | false => cases silent.symm.trans (wakes s.state finished op ready' before ready)
    | waits _ _ _ =>
      refine ⟨?_,op,inside,ready⟩
      rcases mem_wait.mp sleeps with same | slept
      · exact absurd same other
      · exact slept
    | wakes => exact ⟨(mem_wake.mp sleeps).1,op,inside,ready⟩

/-- In every run whoever sleeps is inside of an operation that is not ready. -/
theorem run_awake (wakes : Wakes m) (start : σ) (deeds : List (ι × Deed κ)) {t : ι}
    (sleeps : t ∈ (run (step m) { state := start } deeds).condition.blocked) :
    ∃ op, (run (step m) { state := start } deeds).inside t = some op ∧
      m.ready (run (step m) { state := start } deeds).state op = false := by
  have fresh : ∀ t : ι, t ∉ ({ state := start } : Shared ι σ κ ρ).condition.blocked := fun _ => List.not_mem_nil
  obtain ⟨inside,undue⟩ :=
    (step_awake wakes).run ⟨fun u none => absurd none (fresh u),fun u none => absurd none (fresh u)⟩ deeds
  obtain ⟨op,entered⟩ := Option.isSome_iff_exists.mp (inside t sleeps)
  refine ⟨op,entered,?_⟩
  cases ready : m.ready (run (step m) { state := start } deeds).state op with
  | true => exact absurd ⟨op,entered,ready⟩ (undue t sleeps)
  | false => rfl

end runs

end IpcPortable.Monitors
