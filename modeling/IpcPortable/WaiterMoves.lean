import Mathlib.Logic.Relation
import IpcPortable.EventWaiter

/-!
What the steps of a waiter do to its objects. They do one thing after the other
(`Move`), or they destroy an event; the checks keep the ids that they were bound
with or lose them (`Bound`).
-/
namespace IpcPortable.WaiterMoves
open IpcPortable.KeyCounts IpcPortable.EventWaiter
set_option linter.unusedSectionVars false
variable {Tid : Type} [DecidableEq Tid]

/-! ### What the steps do to the objects -/

/-- The objects are as they were. -/
structure SameObjects (s s' : Waiter Tid) : Prop where
  change_filter : s'.change_filter = s.change_filter
  call_infos : s'.call_infos = s.call_infos
  checks : s'.checks = s.checks
  events : s'.events = s.events
  next_call_info : s'.next_call_info = s.next_call_info
  next_check : s'.next_check = s.next_check
  next_event : s'.next_event = s.next_event
  bindings : s'.bindings = s.bindings

/-- What is done to them, one after the other, unless an event is destroyed. -/
inductive Move (s : Waiter Tid) : Waiter Tid → Prop
  | aside {s' : Waiter Tid} (same : SameObjects s s') : Move s s'
  | newEvent : Move s { s with next_event := s.next_event + 1, events := Function.update s.events s.next_event (some []) }
  | newCheck (check : Check) (watched : ∀ r, check.counted = .call r → (s.call_infos r).isSome) :
      Move s { s with next_check := s.next_check + 1, checks := Function.update s.checks s.next_check (some check) }
  | inserted (event : EventPtr) (entries : List (CheckPtr × FilterId)) (alive : (s.events event).isSome)
      (named : ∀ entry ∈ entries, entry.1 < s.next_check ∧ entry.2 = s.filterIdOf entry.1) : Move s (s.inserted event entries)
  | newCallInfo (address : Address) :
      Move s { s with
        next_call_info := s.next_call_info + 1
        call_infos := Function.update s.call_infos ⟨address,s.next_call_info⟩ (some 0) }
  | release (r : ObjectPtr) : Move s { s with call_infos := Function.update s.call_infos r none }
  | counted (r : ObjectPtr) (count : TCounter) (alive : (s.call_infos r).isSome) :
      Move s { s with call_infos := Function.update s.call_infos r (some count) }
  | recount (p : CheckPtr) (check changed : Check) (there : s.checks p = some check)
      (same : s.getFilterId changed = s.getFilterId check) (watched : ∀ r, changed.counted = .call r → check.counted = .call r) :
      Move s { s with checks := Function.update s.checks p (some changed) }

/-- The ids of the checks are those that they were bound with, as long as they have one. -/
structure Bound (s : Waiter Tid) : Prop where
  new_event : ∀ e, s.next_event ≤ e → s.events e = none
  known : ∀ b ∈ s.bindings, b.event < s.next_event ∧ b.check < s.next_check
  m_checks : ∀ e m_checks, s.events e = some m_checks →
    m_checks = (s.bindings.filter fun b => b.event = e).map Binding.check
  new_call_info : ∀ r, s.next_call_info ≤ r.serial → s.call_infos r = none
  watched : ∀ p check r, s.checks p = some check → check.counted = .call r → r.serial < s.next_call_info
  ids : ∀ b ∈ s.bindings, s.filterIdOf b.check = b.filter_id ∨ s.filterIdOf b.check = none

/-- The id of a check that was made before is the same after a move, or it is gone. -/
theorem move_filterIdOf {s s' : Waiter Tid} (bound : Bound s) (move : Move s s') {p : CheckPtr} (old : p < s.next_check) :
    s'.filterIdOf p = s.filterIdOf p ∨ s'.filterIdOf p = none := by
  have kept : ∀ a : Waiter Tid, a.checks = s.checks → (∀ check, s.checks p = some check →
      a.getFilterId check = s.getFilterId check ∨ a.getFilterId check = none) →
      a.filterIdOf p = s.filterIdOf p ∨ a.filterIdOf p = none := by
    intro a same ids
    unfold Waiter.filterIdOf
    rw [same]
    cases there : s.checks p with
    | none => exact .inl rfl
    | some check => exact ids check there
  cases move with
  | aside same =>
    refine kept _ same.checks fun check _ => .inl ?_
    simp [Waiter.getFilterId,same.call_infos]
  | newEvent => exact .inl rfl
  | newCheck check watched =>
    left
    simp only [Waiter.filterIdOf]
    rw [Function.update_of_ne (Nat.ne_of_lt old)]
    rfl
  | inserted => exact .inl rfl
  | newCallInfo address =>
    refine kept _ rfl fun check there => .inl ?_
    cases counts : check.counted with
    | call r =>
      have other : r ≠ ⟨address,s.next_call_info⟩ := by
        rintro rfl
        exact absurd (bound.watched p check _ there counts) (Nat.lt_irrefl _)
      simp [Waiter.getFilterId,counts,other]
    | _ => simp [Waiter.getFilterId,counts]
  | release r =>
    refine kept _ rfl fun check _ => ?_
    cases counts : check.counted with
    | call q =>
      by_cases same : q = r
      · exact .inr (by simp [Waiter.getFilterId,counts,same])
      · exact .inl (by simp [Waiter.getFilterId,counts,same])
    | _ => exact .inl (by simp [Waiter.getFilterId,counts])
  | counted r count alive =>
    refine kept _ rfl fun check _ => .inl ?_
    cases counts : check.counted with
    | call q =>
      by_cases same : q = r
      · obtain ⟨before,was⟩ := Option.isSome_iff_exists.mp alive
        simp [Waiter.getFilterId,counts,same,was]
      · simp [Waiter.getFilterId,counts,same]
    | _ => simp [Waiter.getFilterId,counts]
  | recount q check changed there same watched =>
    left
    simp only [Waiter.filterIdOf]
    by_cases here : p = q
    · subst here
      rw [Function.update_self,there]
      exact same
    · rw [Function.update_of_ne here]
      rfl

theorem move_ids {s s' : Waiter Tid} (bound : Bound s) (move : Move s s') {b : Binding} (member : b ∈ s.bindings) :
    s'.filterIdOf b.check = b.filter_id ∨ s'.filterIdOf b.check = none := by
  rcases move_filterIdOf bound move (bound.known b member).2 with same | gone
  · rw [same]; exact bound.ids b member
  · exact .inr gone
theorem move_bound {s s' : Waiter Tid} (bound : Bound s) (move : Move s s') : Bound s' := by
  have ids := fun b => move_ids bound move (b := b)
  cases move with
  | aside same =>
    refine ⟨?_,?_,?_,?_,?_,?_⟩
    · rw [same.next_event,same.events]; exact bound.new_event
    · rw [same.next_event,same.next_check,same.bindings]; exact bound.known
    · rw [same.events,same.bindings]; exact bound.m_checks
    · rw [same.next_call_info,same.call_infos]; exact bound.new_call_info
    · rw [same.next_call_info,same.checks]; exact bound.watched
    · rw [same.bindings]; exact ids
  | newEvent =>
    refine ⟨?_,?_,?_,bound.new_call_info,bound.watched,ids⟩
    · intro e new
      exact (Function.update_of_ne (Nat.ne_of_gt new) _ _).trans (bound.new_event e (Nat.le_of_succ_le new))
    · exact fun b member => ⟨Nat.lt_succ_of_lt (bound.known b member).1,(bound.known b member).2⟩
    · intro e m_checks there
      by_cases same : e = s.next_event
      · subst same
        cases (Function.update_self _ _ _).symm.trans there
        have none_bound : s.bindings.filter (fun b => b.event = s.next_event) = [] :=
          List.filter_eq_nil_iff.mpr fun b member => by simpa using Nat.ne_of_lt (bound.known b member).1
        simp [none_bound]
      · exact bound.m_checks e m_checks ((Function.update_of_ne same _ _).symm.trans there)
  | newCheck check watched =>
    refine ⟨bound.new_event,?_,bound.m_checks,bound.new_call_info,?_,ids⟩
    · exact fun b member => ⟨(bound.known b member).1,Nat.lt_succ_of_lt (bound.known b member).2⟩
    · intro p other r there counts
      by_cases same : p = s.next_check
      · subst same
        cases (Function.update_self _ _ _).symm.trans there
        refine Nat.lt_of_not_le fun new => ?_
        have alive := watched r counts
        rw [bound.new_call_info r new] at alive
        cases alive
      · exact bound.watched p other r ((Function.update_of_ne same _ _).symm.trans there) counts
  | inserted event entries alive named =>
    obtain ⟨m_checks,there⟩ := Option.isSome_iff_exists.mp alive
    refine ⟨?_,?_,?_,bound.new_call_info,bound.watched,?_⟩
    · intro e new
      have other : e ≠ event := by
        rintro rfl
        cases (bound.new_event e new).symm.trans there
      exact (Function.update_of_ne other _ _).trans (bound.new_event e new)
    · intro b member
      rcases List.mem_append.mp member with old | new
      · exact bound.known b old
      · obtain ⟨entry,is,rfl⟩ := List.mem_map.mp new
        refine ⟨Nat.lt_of_not_le fun late => ?_,(named entry is).1⟩
        cases (bound.new_event event late).symm.trans there
    · intro e found is
      by_cases same : e = event
      · subst same
        have both : found = m_checks ++ entries.map Prod.fst := by
          simpa [Waiter.inserted,there,eq_comm] using is
        rw [both,bound.m_checks e m_checks there]
        rw [Waiter.inserted,List.filter_append,newBindings_own,List.map_append]
        simp [newBindings,Function.comp_def]
      · have before : s.events e = some found := by simpa [Waiter.inserted,same] using is
        rw [bound.m_checks e found before]
        rw [Waiter.inserted,List.filter_append,newBindings_other same,List.append_nil]
    · intro b member
      rcases List.mem_append.mp member with old | new
      · exact ids b old
      · obtain ⟨entry,is,rfl⟩ := List.mem_map.mp new
        exact .inl (named entry is).2.symm
  | newCallInfo address =>
    refine ⟨bound.new_event,bound.known,bound.m_checks,?_,?_,ids⟩
    · intro r new
      have other : r ≠ ⟨address,s.next_call_info⟩ := by
        rintro rfl
        exact absurd new (Nat.not_succ_le_self _)
      exact (Function.update_of_ne other _ _).trans (bound.new_call_info r (Nat.le_of_succ_le new))
    · exact fun p check r there counts => Nat.lt_succ_of_lt (bound.watched p check r there counts)
  | release r =>
    refine ⟨bound.new_event,bound.known,bound.m_checks,?_,bound.watched,ids⟩
    intro q new
    by_cases same : q = r
    · subst same; exact Function.update_self _ _ _
    · exact (Function.update_of_ne same _ _).trans (bound.new_call_info q new)
  | counted r count alive =>
    refine ⟨bound.new_event,bound.known,bound.m_checks,?_,bound.watched,ids⟩
    intro q new
    have other : q ≠ r := by
      rintro rfl
      rw [bound.new_call_info q new] at alive
      cases alive
    exact (Function.update_of_ne other _ _).trans (bound.new_call_info q new)
  | recount p check changed there same watched =>
    refine ⟨bound.new_event,bound.known,bound.m_checks,bound.new_call_info,?_,ids⟩
    intro q other r is counts
    by_cases here : q = p
    · subst here
      cases (Function.update_self _ _ _).symm.trans is
      exact bound.watched q check r there (watched r counts)
    · exact bound.watched q other r ((Function.update_of_ne here _ _).symm.trans is) counts

/-- The event is gone, and the ids that its checks have now. -/
def erased (s : Waiter Tid) (event : EventPtr) (m_checks : List CheckPtr) : Waiter Tid :=
  { s with
    change_filter := eraseKeys (m_checks.map s.filterIdOf) s.change_filter
    events := Function.update s.events event none }
theorem erased_bound {s : Waiter Tid} (bound : Bound s) (event : EventPtr) (m_checks : List CheckPtr) :
    Bound (erased s event m_checks) := by
  refine ⟨?_,bound.known,?_,bound.new_call_info,bound.watched,bound.ids⟩
  · intro e new
    by_cases same : e = event
    · subst same; exact Function.update_self _ _ _
    · exact (Function.update_of_ne same _ _).trans (bound.new_event e new)
  · intro e found there
    by_cases same : e = event
    · subst same
      cases (Function.update_self _ _ _).symm.trans there
    · exact bound.m_checks e found ((Function.update_of_ne same _ _).symm.trans there)

/-! ### What is bound to events that are alive -/

/-- The bindings of the events that are alive. -/
def live (s : Waiter Tid) : List Binding := s.bindings.filter fun b => (s.events b.event).isSome
theorem live_newEvent {s : Waiter Tid} (bound : Bound s) :
    live { s with next_event := s.next_event + 1, events := Function.update s.events s.next_event (some []) } = live s := by
  refine List.filter_congr fun b member => ?_
  have other : b.event ≠ s.next_event := Nat.ne_of_lt (bound.known b member).1
  exact congrArg Option.isSome (Function.update_of_ne other _ _)
theorem live_inserted {s : Waiter Tid} {event : EventPtr} (alive : (s.events event).isSome)
    (entries : List (CheckPtr × FilterId)) :
    live (s.inserted event entries) = live s ++ newBindings event entries := by
  have kept : ∀ b : Binding, ((s.inserted event entries).events b.event).isSome = (s.events b.event).isSome := by
    intro b
    by_cases same : b.event = event
    · simp [Waiter.inserted,same]
    · exact congrArg Option.isSome (Function.update_of_ne same _ _)
  rw [live,Waiter.inserted,List.filter_append]
  congr 1
  · exact List.filter_congr fun b _ => kept b
  · refine List.filter_eq_self.mpr fun b member => ?_
    obtain ⟨entry,-,rfl⟩ := List.mem_map.mp member
    exact (kept _).trans alive
theorem live_erased (s : Waiter Tid) (event : EventPtr) (m_checks : List CheckPtr) :
    live (erased s event m_checks) = (live s).filter fun b => !decide (b.event = event) := by
  rw [live,live,List.filter_filter]
  refine List.filter_congr fun b _ => ?_
  by_cases same : b.event = event
  · simp [erased,same]
  · simp [erased,same]
/-- What an event that is alive was bound with. -/
theorem live_own {s : Waiter Tid} {event : EventPtr} (alive : (s.events event).isSome) :
    (live s).filter (fun b => b.event = event) = s.bindings.filter fun b => b.event = event := by
  rw [live,List.filter_filter]
  refine List.filter_congr fun b _ => ?_
  by_cases same : b.event = event
  · simp [same,alive]
  · simp [same]
theorem erased_ids {s : Waiter Tid} (bound : Bound s) {event : EventPtr} {m_checks : List CheckPtr}
    (there : s.events event = some m_checks) :
    m_checks.map s.filterIdOf = (s.bindings.filter fun b => b.event = event).map fun b => s.filterIdOf b.check := by
  rw [bound.m_checks event m_checks there,List.map_map]
  rfl
/-- What is alive are the bindings of an event, and what is alive without it. -/
theorem live_parts {s : Waiter Tid} {event : EventPtr} {m_checks : List CheckPtr} (there : s.events event = some m_checks)
    (part : Binding → Bool) : (live s).countP part =
      (s.bindings.filter fun b => b.event = event).countP part + (live (erased s event m_checks)).countP part := by
  rw [List.countP_eq_countP_filter_add _ _ fun b => b.event = event,live_own (by rw [there]; rfl),live_erased]

/-! ### Every step is made of such moves -/

abbrev Moves : Waiter Tid → Waiter Tid → Prop := Relation.ReflTransGen Move

theorem moves_bound {s s' : Waiter Tid} (bound : Bound s) (moves : Moves s s') : Bound s' := by
  induction moves with
  | refl => exact bound
  | tail _ move ih => exact move_bound ih move
theorem notifyAll_same (s : Waiter Tid) : SameObjects s s.notifyAll := by constructor <;> rfl
theorem goTo_same (s : Waiter Tid) (t : Tid) (point : Point) : SameObjects s (s.goTo t point) := by constructor <;> rfl
theorem join_same (s : Waiter Tid) (t : Tid) : SameObjects s ((s.goTo t .idle).join t) := by constructor <;> rfl
theorem checkConditionChanged_same (s : Waiter Tid) (t : Tid) (filter_id : FilterId) (point : Point) :
    SameObjects s ((s.checkConditionChanged filter_id).goTo t point) := by
  unfold Waiter.checkConditionChanged
  split <;> constructor <;> rfl
theorem waitDuration_same (s : Waiter Tid) (t : Tid) (event : EventPtr) (m_checks : List CheckPtr) (timed timed_out : Bool) :
    SameObjects s (s.waitDuration t event m_checks timed timed_out) := by
  unfold Waiter.waitDuration
  dsimp only
  split
  · exact goTo_same s t _
  · split
    · exact goTo_same s t _
    · constructor <;> rfl
theorem destroyEvent_same (s : Waiter Tid) (event : EventPtr) (m_checks : List CheckPtr) :
    SameObjects (erased s event m_checks) (s.destroyEvent event m_checks) := by
  rw [destroyEvent_eq]
  constructor <;> rfl

theorem bindCheck_moves {s : Waiter Tid} {event : EventPtr} {check : Check} {filter_id : FilterId}
    (alive : (s.events event).isSome) (named : filter_id.isSome) (same : s.getFilterId check = filter_id) :
    Moves s (s.bindCheck event check filter_id) := by
  have watched : ∀ r, check.counted = .call r → (s.call_infos r).isSome := by
    intro r counts
    rw [← same] at named
    simpa [Waiter.getFilterId,counts] using named
  refine .tail (.tail (.single (.newCheck check watched)) (.inserted event [(s.next_check,filter_id)] alive ?_))
    (.aside (notifyAll_same _))
  intro entry member
  cases List.mem_singleton.mp member
  refine ⟨Nat.lt_succ_self _,?_⟩
  simp only [Waiter.filterIdOf]
  rw [Function.update_self]
  exact same.symm
theorem resetTriggered_moves (s : Waiter Tid) (wait_next_after : ResetType) (m_checks : List CheckPtr) :
    Moves s (s.resetTriggered wait_next_after m_checks) := by
  induction m_checks generalizing s with
  | nil => exact .refl
  | cons p rest ih =>
    refine .trans ?_ (ih (Waiter.resetTriggeredCheck wait_next_after s p))
    unfold Waiter.resetTriggeredCheck
    split
    · rename_i check there
      split
      · have kept : (s.resetLocked wait_next_after check).counted = check.counted := by
          cases wait_next_after <;> rfl
        exact .single (.recount p check _ there (by rw [Waiter.getFilterId,Waiter.getFilterId,kept])
          fun r counts => kept.symm.trans counts)
      · exact .refl
    · exact .refl

theorem begun_moves {s s' : Waiter Tid} {t : Tid} {operation : Operation} (bound : Bound s)
    (begun : Begun s t operation s') (spared : ∀ event, operation ≠ .destroyEvent event) : Moves s s' := by
  cases begun with
  | nothing => exact .refl
  | createEvent => exact .single .newEvent
  | counterEvent own interpret_as_cancel =>
    refine .trans (.single .newEvent) (bindCheck_moves ?_ rfl rfl)
    simp
  | createCallInfo address => exact .single (.newCallInfo address)
  | releaseCallInfo r unowned => exact .single (.release r)
  | binds => exact .single (.aside (goTo_same s t _))
  | bindEvent event other others alive there =>
    refine .tail (.single ?_) (.aside (notifyAll_same _))
    rw [insertAll_inserted]
    refine .inserted event _ alive ?_
    intro entry member
    obtain ⟨p,is,rfl⟩ := List.mem_map.mp member
    rw [bound.m_checks other others there] at is
    obtain ⟨b,found,rfl⟩ := List.mem_map.mp is
    exact ⟨(bound.known b (List.mem_of_mem_filter found)).2,rfl⟩
  | resetTriggered event wait_next_after m_checks => exact resetTriggered_moves s wait_next_after m_checks
  | destroyEvent event => exact absurd rfl (spared event)
  | incrementCallCount r count there =>
    exact .tail (.single (.counted r (count + 1) (by rw [there]; rfl))) (.aside (goTo_same _ t _))
  | signalChangeState signaling es counted => exact .single (.aside (by constructor <;> rfl))
  | increment p own count start interpret_as_cancel there =>
    have raised : Move s _ := .recount p _ ⟨.change own (count + 1),interpret_as_cancel,start⟩ there rfl (by rintro r ⟨⟩)
    exact .tail (.single raised) (.aside (notifyAll_same _))
  | cancelAllWaits => exact .single (.aside (by constructor <;> rfl))
  | wait event timed m_checks there => exact .single (.aside (waitDuration_same s t event m_checks timed false))

theorem begun_destroys {s s' : Waiter Tid} {t : Tid} {event : EventPtr} (begun : Begun s t (.destroyEvent event) s') :
    ∃ m_checks, s.events event = some m_checks ∧ SameObjects (erased s event m_checks) s' := by
  cases begun with
  | nothing _ spared => exact absurd rfl (spared event)
  | binds _ spared => exact absurd rfl (spared event)
  | destroyEvent _ m_checks there => exact ⟨m_checks,there,destroyEvent_same s event m_checks⟩

end IpcPortable.WaiterMoves
