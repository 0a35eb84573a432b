import IpcPortable.WaiterThreads

/-!
The filter of a waiter. It gets the id that an event is bound with, and when
the event is destroyed it loses the id that the check has then. Those are the
same unless a `CallInfo` was released in between: its check has no id any more,
and what it was bound with stays in the filter for ever.
-/
namespace IpcPortable.ChangeFilter
open IpcPortable.Runs IpcPortable.KeyCounts IpcPortable.EventWaiter IpcPortable.WaiterMoves
open IpcPortable.WaiterThreads
set_option linter.unusedSectionVars false
variable {Tid : Type} [DecidableEq Tid]

/-- The filter has every id as often as events that are alive were bound with it. -/
def Exact (s : Waiter Tid) : Prop := ∀ id, s.change_filter.count id = (live s).countP fun b => b.filter_id = id

theorem move_exact {s s' : Waiter Tid} (bound : Bound s) (exact_before : Exact s) (move : Move s s') : Exact s' := by
  cases move with
  | aside same =>
    intro id
    rw [same.change_filter,live,same.bindings,same.events]
    exact exact_before id
  | newEvent =>
    intro id
    rw [live_newEvent bound]
    exact exact_before id
  | inserted event entries alive named =>
    intro id
    rw [live_inserted alive,List.countP_append,← exact_before id,newBindings,List.countP_map]
    exact count_addKeys id Prod.snd entries _
  | newCheck => exact exact_before
  | newCallInfo => exact exact_before
  | release => exact exact_before
  | counted => exact exact_before
  | recount => exact exact_before

/-- The event is destroyed: the filter is still right if and only if every check
    of it has the id that it was bound with. -/
theorem erased_exact {s : Waiter Tid} (bound : Bound s) (exact_before : Exact s) {event : EventPtr}
    {m_checks : List CheckPtr} (there : s.events event = some m_checks) :
    Exact (erased s event m_checks) ↔ ∀ b ∈ s.bindings, b.event = event → s.filterIdOf b.check = b.filter_id := by
  set own := s.bindings.filter fun b => b.event = event
  have parts : ∀ id, s.change_filter.count id =
      own.countP (fun b => b.filter_id = id) + (live (erased s event m_checks)).countP fun b => b.filter_id = id := by
    intro id
    rw [exact_before id]
    exact live_parts there _
  have loses : ∀ id, (erased s event m_checks).change_filter.count id =
      s.change_filter.count id - own.countP fun b => s.filterIdOf b.check = id := by
    intro id
    rw [erased,erased_ids bound there]
    exact count_eraseKeys id _ own _
  constructor
  · intro exact_after b member is_event
    by_contra changed
    have gone : s.filterIdOf b.check = none := (bound.ids b member).resolve_left changed
    have fewer : own.countP (fun one => s.filterIdOf one.check = b.filter_id) <
        own.countP fun one => one.filter_id = b.filter_id := by
      refine countP_lt_of_lost ?_ (List.mem_filter.mpr ⟨member,decide_eq_true is_event⟩) (decide_eq_true rfl)
        (decide_eq_false changed)
      intro one one_member is
      rcases bound.ids one (List.mem_of_mem_filter one_member) with kept | lost
      · exact decide_eq_true (kept.symm.trans (of_decide_eq_true is))
      · exact absurd (gone.trans (lost.symm.trans (of_decide_eq_true is))) changed
    have counted := parts b.filter_id
    have lost := loses b.filter_id
    have after := exact_after b.filter_id
    omega
  · intro same id
    have equal : own.countP (fun b => s.filterIdOf b.check = id) = own.countP fun b => b.filter_id = id := by
      refine List.countP_congr fun b member => ?_
      obtain ⟨bound_to,is_event⟩ := List.mem_filter.mp member
      rw [same b bound_to (of_decide_eq_true is_event)]
    have counted := parts id
    have lost := loses id
    omega

/-! ### Runs -/

/-- Where an event is destroyed, every check that it was bound with by an id still has one. -/
def KeepsIds (s : Waiter Tid) : Tid × Action → Prop
  | (_,.start (.destroyEvent event)) =>
    ∀ b ∈ s.bindings, b.event = event → b.filter_id.isSome → (s.filterIdOf b.check).isSome
  | _ => True

theorem keepsIds_iff {s : Waiter Tid} (bound : Bound s) (t : Tid) (event : EventPtr) :
    KeepsIds s (t,.start (.destroyEvent event)) ↔
      ∀ b ∈ s.bindings, b.event = event → s.filterIdOf b.check = b.filter_id := by
  refine forall_congr' fun b => forall_congr' fun member => forall_congr' fun _ => ?_
  rcases bound.ids b member with same | gone
  · simp [same]
  · rw [gone]
    cases b.filter_id <;> simp

theorem moves_exact {s s' : Waiter Tid} (bound : Bound s) (exact_before : Exact s) (moves : Moves s s') : Exact s' := by
  suffices both : Bound s' ∧ Exact s' from both.2
  induction moves with
  | refl => exact ⟨bound,exact_before⟩
  | tail _ move ih => exact ⟨move_bound ih.1 move,move_exact ih.1 ih.2 move⟩
/-- A filter that is right stays so in a step if and only if the step meets the condition. -/
theorem step_exact {s s' : Waiter Tid} {action : Tid × Action} (sound : Sound s) (exact_before : Exact s)
    (stepped : step s action = some s') : Exact s' ↔ KeepsIds s action := by
  obtain ⟨t,action⟩ := action
  by_cases destroys : ∃ event, action = .start (.destroyEvent event)
  · obtain ⟨event,rfl⟩ := destroys
    obtain ⟨m_checks,there,same⟩ := step_destroys stepped
    rw [keepsIds_iff sound.bound,← erased_exact sound.bound exact_before there]
    simp only [Exact,live,same.change_filter,same.bindings,same.events]
  · have met : KeepsIds s (t,action) := by
      unfold KeepsIds
      split
      · rename_i event is
        exact absurd ⟨event,congrArg Prod.snd is⟩ destroys
      · trivial
    have moves := step_moves sound.bound sound.engaged stepped fun event is => destroys ⟨event,is⟩
    exact ⟨fun _ => met,fun _ => moves_exact sound.bound exact_before moves⟩

theorem init_exact : Exact ({} : Waiter Tid) := fun _ => rfl
theorem exact_empty {s : Waiter Tid} (exact_now : Exact s) (gone : ∀ e, s.events e = none) : s.change_filter = 0 := by
  have none_live : live s = [] := List.filter_eq_nil_iff.mpr fun b _ => by simp [gone]
  refine Multiset.eq_zero_of_forall_notMem fun id member => ?_
  have counted := exact_now id
  rw [none_live,List.countP_nil] at counted
  exact Multiset.count_eq_zero.mp counted member

/-- The filter is right all along a run if and only if no event is destroyed after
    a `CallInfo` that it was bound to. -/
theorem filter_exact (actions : List (Tid × Action)) :
    (∀ before, before <+: actions → Exact (run step {} before) ∧
      ((∀ e, (run step {} before).events e = none) → (run step {} before).change_filter = 0)) ↔
    Along step KeepsIds {} actions := by
  rw [← along_iff step_sound (fun s action s' => step_exact) init_sound init_exact]
  constructor
  · exact fun all before short => (all before short).1
  · exact fun all before short => ⟨all before short,exact_empty (all before short)⟩

/-- A `CallInfo` that is released between the binding and the end of the event. -/
def releasedBefore : List (Nat × Action) :=
  [(0,.start (.createCallInfo 7)),(0,.start .createEvent),(0,.start (.bindCall 0 ⟨7,0⟩ .current false)),(0,.next),
    (0,.start (.releaseCallInfo ⟨7,0⟩)),(0,.start (.destroyEvent 0))]
/-- No event is alive, and the address is still in the filter. -/
theorem released_id_stays : (∀ e, (run step {} releasedBefore).events e = none) ∧
    (run step {} releasedBefore).change_filter = {some 7} ∧ ¬ Exact (run step {} releasedBefore) := by
  have sound : Sound (run step {} releasedBefore) := step_sound.run init_sound _
  have created : (run step {} releasedBefore).next_event = 1 := by decide +kernel
  refine ⟨?_,by decide +kernel,?_⟩
  · intro e
    cases e with
    | zero => decide +kernel
    | succ e => exact sound.bound.new_event (e + 1) (created ▸ Nat.le_add_left 1 e)
  · intro exact_now
    have counted := exact_now (some 7)
    exact absurd counted (by decide +kernel)

end IpcPortable.ChangeFilter
