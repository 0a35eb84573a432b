import IpcPortable.EventCalls

/-!
A loop over handlers as a queue: it takes them from the front, new ones join at
the end, and those that are removed leave it from where they stand. Whatever the
order of these events, the handlers are called in turn.
-/
namespace IpcPortable.EventCalls
open IpcPortable.EventHandlerMaps

def Event.isInvoked : Event → Option Caller
  | .invoked caller => some caller
  | _ => none
def Event.isAdded : Event → Option Caller
  | .added caller => some caller
  | _ => none
def Event.isRemoved : Event → Option Caller
  | .removed caller => some caller
  | _ => none
def invokedIn (history : List Event) : List Caller := history.filterMap Event.isInvoked
def addedIn (history : List Event) : List Caller := history.filterMap Event.isAdded
def removedIn (history : List Event) : List Caller := history.filterMap Event.isRemoved

/-- A queue that began with `registered`, and who stands in it after the events. -/
inductive Queued (registered : List Caller) : List Event → List Caller → Prop
  | began (once : registered.Nodup) : Queued registered [] registered
  | invoked {history : List Event} {caller : Caller} {pending : List Caller} (queued : Queued registered history (caller :: pending)) :
    Queued registered (history ++ [.invoked caller]) pending
  | added {history : List Event} {caller : Caller} {pending : List Caller} (queued : Queued registered history pending)
    (new : caller ∉ registered ++ addedIn history ++ removedIn history) :
    Queued registered (history ++ [.added caller]) (pending ++ [caller])
  | removed {history : List Event} {caller : Caller} {pending : List Caller} (queued : Queued registered history pending) :
    Queued registered (history ++ [.removed caller]) (pending.filter fun one => one ≠ caller)

/-- The handlers in their order, cut where the queue stands. -/
structure Cut (registered : List Caller) (history : List Event) (pending past future : List Caller) : Prop where
  whole : registered ++ addedIn history = past ++ future
  once : (past ++ future).Nodup
  waiting : pending = future.filter fun caller => caller ∉ removedIn history
  order : (invokedIn history).Sublist past
  passed : ∀ caller ∈ past, caller ∈ invokedIn history ∨ caller ∈ removedIn history

/-- What the history of a loop says: nobody is called twice or out of order, who
    was registered goes before who was added, who has had no turn was removed
    before it came, and who was removed is not called. -/
structure InTurn (registered : List Caller) (history : List Event) : Prop where
  once : (registered ++ addedIn history).Nodup
  order : (invokedIn history).Sublist (registered ++ addedIn history)
  turns : ∀ before caller behind earlier later, history = before ++ .invoked caller :: behind →
    registered ++ addedIn history = earlier ++ caller :: later →
    ∀ one ∈ earlier, .invoked one ∈ before ∨ .removed one ∈ before
  gone : ∀ before caller behind, history = before ++ .removed caller :: behind → .invoked caller ∉ behind

section queues
variable {registered pending past future : List Caller} {history before behind : List Event} {caller : Caller}

@[simp] theorem mem_invokedIn : caller ∈ invokedIn history ↔ .invoked caller ∈ history := by
  constructor
  · intro member
    obtain ⟨event,inside,invoked⟩ := List.mem_filterMap.mp member
    cases event with
    | invoked one => exact Option.some.inj invoked ▸ inside
    | added _ | removed _ | nameCleared => cases invoked
  · exact fun inside => List.mem_filterMap.mpr ⟨_,inside,rfl⟩
@[simp] theorem mem_removedIn : caller ∈ removedIn history ↔ .removed caller ∈ history := by
  constructor
  · intro member
    obtain ⟨event,inside,removed⟩ := List.mem_filterMap.mp member
    cases event with
    | removed one => exact Option.some.inj removed ▸ inside
    | added _ | invoked _ | nameCleared => cases removed
  · exact fun inside => List.mem_filterMap.mpr ⟨_,inside,rfl⟩

theorem invokedIn_append (history events : List Event) : invokedIn (history ++ events) = invokedIn history ++ invokedIn events :=
  List.filterMap_append
theorem addedIn_append (history events : List Event) : addedIn (history ++ events) = addedIn history ++ addedIn events :=
  List.filterMap_append
theorem removedIn_append (history events : List Event) : removedIn (history ++ events) = removedIn history ++ removedIn events :=
  List.filterMap_append

/-- The first of those that wait is called, and who stood before it is past. -/
theorem Cut.invoked (cut : Cut registered history (caller :: pending) past future) :
    ∃ skipped later, future = skipped ++ caller :: later ∧ (∀ one ∈ skipped, one ∈ removedIn history) ∧
      Cut registered (history ++ [.invoked caller]) pending (past ++ skipped ++ [caller]) later := by
  obtain ⟨skipped,later,rfl,removed,-,waiting⟩ := List.filter_eq_cons_iff.mp cut.waiting.symm
  have skips : ∀ one ∈ skipped, one ∈ removedIn history := fun one member => by simpa using removed one member
  have same : past ++ (skipped ++ caller :: later) = past ++ skipped ++ [caller] ++ later := by simp
  refine ⟨skipped,later,rfl,skips,?_,same ▸ cut.once,?_,?_,fun one member => ?_⟩
  · rw [addedIn_append,← same,← cut.whole]
    exact congrArg _ (List.append_nil _)
  · rw [removedIn_append,show removedIn [.invoked caller] = [] from rfl,List.append_nil]
    exact waiting.symm
  · rw [invokedIn_append]
    exact (cut.order.trans (List.sublist_append_left past skipped)).append (List.Sublist.refl [caller])
  · rw [invokedIn_append,removedIn_append]
    rcases List.mem_append.mp member with early | last
    · rcases List.mem_append.mp early with old | passed
      · exact (cut.passed one old).imp (List.mem_append_left _) (List.mem_append_left _)
      · exact .inr (List.mem_append_left _ (skips one passed))
    · exact .inl (List.mem_append_right _ last)

theorem Queued.cut (queued : Queued registered history pending) : ∃ past future, Cut registered history pending past future := by
  induction queued with
  | began once =>
    refine ⟨[],registered,List.append_nil _,once,?_,List.Sublist.refl [],fun caller member => by cases member⟩
    exact (List.filter_eq_self.mpr fun caller _ => by simp [removedIn]).symm
  | invoked _ ih =>
    obtain ⟨past,future,cut⟩ := ih
    obtain ⟨skipped,later,-,-,after⟩ := cut.invoked
    exact ⟨_,_,after⟩
  | @added history caller pending _ new ih =>
    obtain ⟨past,future,cut⟩ := ih
    obtain ⟨unknown,unremoved⟩ := not_or.mp (mt List.mem_append.mpr new)
    rw [cut.whole] at unknown
    refine ⟨past,future ++ [caller],?_,?_,?_,?_,fun one member => ?_⟩
    · rw [addedIn_append,← List.append_assoc,cut.whole,List.append_assoc]
      rfl
    · rw [← List.append_assoc]
      exact cut.once.append (List.nodup_singleton caller) (List.disjoint_singleton.mpr unknown)
    · rw [removedIn_append,show removedIn [.added caller] = [] from rfl,List.append_nil,List.filter_append,← cut.waiting,
        List.filter_cons_of_pos (by simpa using unremoved),List.filter_nil]
    · rw [invokedIn_append]
      exact (List.append_nil (invokedIn history)).symm ▸ cut.order
    · rw [invokedIn_append,removedIn_append]
      exact (cut.passed one member).imp (List.mem_append_left _) (List.mem_append_left _)
  | @removed history caller pending _ ih =>
    obtain ⟨past,future,cut⟩ := ih
    refine ⟨past,future,?_,cut.once,?_,?_,fun one member => ?_⟩
    · rw [addedIn_append]
      exact (congrArg _ (List.append_nil _)).trans cut.whole
    · rw [cut.waiting,List.filter_filter]
      refine List.filter_congr fun one _ => ?_
      rw [removedIn_append,show removedIn [.removed caller] = [caller] from rfl]
      by_cases same : one = caller <;> simp [same]
    · rw [invokedIn_append]
      exact (List.append_nil (invokedIn history)).symm ▸ cut.order
    · rw [invokedIn_append,removedIn_append]
      exact (cut.passed one member).imp (List.mem_append_left _) (List.mem_append_left _)

theorem concat_split {α : Type} {x y : α} {whole before behind : List α} (split : whole ++ [x] = before ++ y :: behind) :
    behind = [] ∧ whole = before ∧ x = y ∨ ∃ behind', behind = behind' ++ [x] ∧ whole = before ++ y :: behind' := by
  rcases List.eq_nil_or_concat behind with rfl | ⟨behind',z,rfl⟩
  · obtain ⟨rfl,same⟩ := List.append_inj' split rfl
    exact .inl ⟨rfl,rfl,List.singleton_inj.mp same⟩
  · rw [List.concat_eq_append,← List.cons_append,← List.append_assoc] at split
    obtain ⟨rfl,same⟩ := List.append_inj' split rfl
    exact .inr ⟨behind',by rw [List.concat_eq_append,List.singleton_inj.mp same],rfl⟩

/-- Who is called stood at the front. -/
theorem Queued.front (queued : Queued registered history pending) (split : history = before ++ .invoked caller :: behind) :
    ∃ rest, Queued registered before (caller :: rest) := by
  induction queued generalizing behind with
  | began => simp at split
  | @invoked history one pending queued ih =>
    rcases concat_split split with ⟨-,rfl,same⟩ | ⟨behind',-,earlier⟩
    · exact ⟨pending,Event.invoked.inj same ▸ queued⟩
    · exact ih earlier
  | added _ _ ih | removed _ ih =>
    rcases concat_split split with ⟨-,-,same⟩ | ⟨behind',-,earlier⟩
    · cases same
    · exact ih earlier

theorem Queued.inTurn (queued : Queued registered history pending) : InTurn registered history := by
  obtain ⟨past,future,cut⟩ := queued.cut
  refine ⟨cut.whole ▸ cut.once,?_,fun before caller behind earlier later split known one member => ?_,
    fun before caller behind split called => ?_⟩
  · rw [cut.whole]
    exact cut.order.trans (List.sublist_append_left past future)
  · obtain ⟨rest,then_queued⟩ := queued.front split
    obtain ⟨past',future',cut'⟩ := then_queued.cut
    obtain ⟨skipped,later',rfl,skips,-⟩ := cut'.invoked
    -- handlers that are added later stand behind those of that moment
    have whole : earlier ++ caller :: later =
        (past' ++ skipped) ++ caller :: (later' ++ addedIn (.invoked caller :: behind)) := by
      rw [← known,split,addedIn_append,← List.append_assoc,cut'.whole]
      simp
    have once : (earlier ++ caller :: later).Nodup := known ▸ cut.whole ▸ cut.once
    have single := (List.nodup_middle.mp once).notMem
    have same := ((List.append_cons_inj_of_notMem (fun inside => single (List.mem_append_left _ inside))
      fun inside => single (List.mem_append_right _ inside)).mp whole).1
    rw [same] at member
    rw [← mem_invokedIn,← mem_removedIn]
    rcases List.mem_append.mp member with old | passed
    · exact cut'.passed one old
    · exact .inr (skips one passed)
  · obtain ⟨between,later,inside⟩ := List.append_of_mem called
    have whole : history = (before ++ .removed caller :: between) ++ .invoked caller :: later := by
      rw [split,inside,List.append_assoc]
      rfl
    obtain ⟨rest,then_queued⟩ := queued.front whole
    obtain ⟨past',future',cut'⟩ := then_queued.cut
    obtain ⟨-,-,-,-,kept,-⟩ := List.filter_eq_cons_iff.mp cut'.waiting.symm
    simp at kept

/-- At the end everybody was called once, or removed instead. -/
theorem Queued.all_passed (queued : Queued registered history []) : ∀ caller ∈ registered ++ addedIn history,
    (invokedIn history).count caller = 1 ∨ .removed caller ∈ history ∧ .invoked caller ∉ history := by
  intro caller member
  obtain ⟨past,future,cut⟩ := queued.cut
  have once : (invokedIn history).Nodup := (cut.order.trans (List.sublist_append_left past future)).nodup cut.once
  rw [cut.whole] at member
  rw [← mem_invokedIn,← mem_removedIn]
  by_cases called : caller ∈ invokedIn history
  · exact .inl (List.count_eq_one_of_mem once called)
  · refine .inr ⟨?_,called⟩
    rcases List.mem_append.mp member with old | late
    · exact (cut.passed caller old).resolve_left called
    · have removed := List.filter_eq_nil_iff.mp cut.waiting.symm caller late
      simpa using removed

/-- Several are removed at once. -/
theorem Queued.remove (queued : Queued registered history pending) (removed : List Caller) :
    Queued registered (history ++ removed.map .removed) (pending.filter fun caller => caller ∉ removed) := by
  induction removed generalizing history pending with
  | nil =>
    rw [List.map_nil,List.append_nil,List.filter_eq_self.mpr fun caller _ => by simp]
    exact queued
  | cons first rest ih =>
    have first_gone : Queued registered (history ++ [.removed first]) (pending.filter fun one => one ≠ first) := queued.removed
    have later := ih first_gone
    rw [List.filter_filter,List.append_assoc,List.singleton_append] at later
    have same : (fun one => decide (one ∉ rest) && decide (one ≠ first)) = fun one => decide (one ∉ first :: rest) := by
      funext one
      by_cases here : one = first <;> simp [here]
    rw [same] at later
    exact later

end queues

end IpcPortable.EventCalls
