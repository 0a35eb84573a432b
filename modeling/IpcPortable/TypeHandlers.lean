import IpcPortable.StableDispatch

/-!
When `CallName` goes on to the handlers of the type. It does if the name has no
entry, or if one of the handlers that it called does not skip them; an entry
that has no handlers left stands in the way. Such an entry stays in the map when
the last handlers are removed while a loop holds a block of the list, and the
loop then lets go of it.
-/
namespace IpcPortable.EventCalls
open IpcPortable.Runs IpcPortable.CallbackLists IpcPortable.ListShape IpcPortable.EventHandlerMaps IpcPortable.HandlerLists

/-- The handlers of the name when the call began. -/
def Call.names (call : Call) : List Caller := call.named.elim [] Loop.registered
def Call.namesInvoked (call : Call) : List Caller := call.named.elim [] fun l => invokedIn l.history
def Call.typesInvoked (call : Call) : List Caller := call.types.elim [] fun l => invokedIn l.history
/-- The type handlers are called if and only if there is no handler of the name
    or one that does not skip them. -/
def Call.Lawful (call : Call) : Prop :=
  call.typesInvoked =
    if call.names = [] ∨ ∃ caller ∈ call.names, caller.skip_type_handler = false then call.type_registered else []

/-- Nothing but calls happened to the loop. -/
structure Untouched (heap : Heap) (l : Loop) : Prop where
  calls : l.registered = invokedIn l.history ++ l.pending heap
  idle : l.el = none → l.element = none
/-- A call that nothing disturbs. -/
structure Undisturbed (heap : Heap) (call : Call) : Prop where
  loops : ∀ l ∈ call.loops, Untouched heap l
  named : call.named.isSome = call.caller_base.isSome
  decided : call.named.elim call.call_type_handler (fun l => call.handlerReturns l.element) =
    (call.caller_base.isNone || call.namesInvoked.any fun caller => !caller.skip_type_handler)
  waiting : call.types = none → call.caller_base_name.elim [] heap.live = call.type_registered
  types : ∀ l, call.types = some l → l.registered = call.type_registered ∧ call.call_type_handler = true
/-- What the code decided by. -/
structure Settled (call : Call) : Prop where
  named : call.named.isSome = call.caller_base.isSome
  types : call.typesInvoked =
    if call.caller_base = none ∨ ∃ caller ∈ call.names, caller.skip_type_handler = false then call.type_registered else []

section calls
variable {w w' : World} {call : Call} {l : Loop} {b : Address} {heap : Heap} {held held' : CallersPtr → List Address}

theorem Untouched.closed (untouched : Untouched heap l) (closed : l.el = none) : invokedIn l.history = l.registered := by
  rw [untouched.calls,(ended_pending heap closed).2,List.append_nil]

/-- Another loop moves. -/
theorem Untouched.loosened {heap' : Heap} (untouched : Untouched heap l) (loose : Loosened heap heap') (inv : HeapInv heap held noneDying)
    (inv' : HeapInv heap' held' noneDying) (made : (heap.lists l.callers).m_base.isSome)
    (holds : ∀ b, l.el = some b → b ∈ held' l.callers) : Untouched heap' l := by
  refine ⟨?_,untouched.idle⟩
  cases stands : l.el with
  | none =>
    rw [(ended_pending heap' stands).2,List.append_nil]
    exact (untouched.closed stands).symm
  | some b =>
    rw [(loose.pending_eq inv inv' made stands (holds b stands)).1]
    exact untouched.calls

theorem started_untouched (inv : HeapInv heap held noneDying) (source : Source) {i : CallersPtr} (made : (heap.lists i).m_base.isSome) :
    Untouched (Loop.start heap source i).2 (Loop.start heap source i).1 :=
  ⟨(start_spec inv source made).2.2.1.symm,fun _ => rfl⟩

/-- The loop itself moves. -/
theorem Untouched.proceed {others : List Address} (untouched : Untouched heap l) (inv : HeapInv heap held noneDying)
    (made : (heap.lists l.callers).m_base.isSome) (mine : heap.made_for l.callers = l.source) (stands : l.el = some b)
    (holds : held l.callers = b :: others) :
    Untouched (l.proceed heap b).2 (l.proceed heap b).1 ∧ (l.proceed heap b).1.registered = l.registered ∧
    ((l.proceed heap b).1.element = none ∧ (l.proceed heap b).1.history = l.history ∨
      ∃ caller, l.element = none ∧ (l.proceed heap b).1.element = some caller ∧
        (l.proceed heap b).1.history = l.history ++ [.invoked caller]) := by
  rcases proceed_spec inv made mine stands holds with ⟨caller,idle,invoked,next⟩ | ⟨passed,pending,-⟩
  · rw [invoked]
    refine ⟨⟨?_,fun closed => ?_⟩,rfl,.inr ⟨caller,idle,rfl,rfl⟩⟩
    · change l.registered = invokedIn (l.history ++ [.invoked caller]) ++ Loop.pending { l with element := some caller } heap
      rw [invokedIn_append,List.append_assoc,untouched.calls,next]
      rfl
    · rw [show l.el = none from closed] at stands
      cases stands
  · rw [passed]
    refine ⟨⟨?_,fun _ => rfl⟩,rfl,.inl ⟨rfl,rfl⟩⟩
    rw [pending]
    exact untouched.calls

theorem Loosened.live {heap' : Heap} (loose : Loosened heap heap') (i : CallersPtr) : heap'.live i = heap.live i := by
  have same := (loose.lists i).elements_eq
  rwa [List.filter_eq_self.mpr fun _ _ => rfl] at same

theorem Undisturbed.loosened (undisturbed : Undisturbed w.map.heap call) (inv : Inv w) (member : call ∈ w.calls)
    (loose : Loosened w.map.heap heap) (inv' : HeapInv heap held noneDying)
    (holds : ∀ l ∈ call.loops, ∀ b, l.el = some b → b ∈ held l.callers) : Undisturbed heap call := by
  refine ⟨fun l mine => ?_,undisturbed.named,undisturbed.decided,fun waits => ?_,undisturbed.types⟩
  · have known : l ∈ w.loops := List.mem_flatMap.mpr ⟨call,member,mine⟩
    exact (undisturbed.loops l mine).loosened loose inv.map.heap inv' (inv.loops l known).1 (holds l mine)
  · rw [show heap.live = w.map.heap.live from funext loose.live]
    exact undisturbed.waiting waits

/-- The call returns with its loops over. -/
theorem Undisturbed.settled (undisturbed : Undisturbed heap call) (closed : ∀ l ∈ call.loops, l.el = none)
    (last : call.types.isSome ∨ call.call_type_handler = false ∨ call.caller_base_name = none) : Settled call := by
  have names : call.namesInvoked = call.names := by
    cases named : call.named with
    | none => rw [Call.namesInvoked,Call.names,named]; rfl
    | some l =>
      have mine : l ∈ call.loops := List.mem_append_right _ (Option.mem_toList.mpr named)
      rw [Call.namesInvoked,Call.names,named]
      exact (undisturbed.loops l mine).closed (closed l mine)
  have decided : call.call_type_handler = true ↔
      call.caller_base = none ∨ ∃ caller ∈ call.names, caller.skip_type_handler = false := by
    have asked := undisturbed.decided
    have returned : call.named.elim call.call_type_handler (fun l => call.handlerReturns l.element) = call.call_type_handler := by
      cases named : call.named with
      | none => rfl
      | some l =>
        have mine : l ∈ call.loops := List.mem_append_right _ (Option.mem_toList.mpr named)
        rw [Option.elim_some,(undisturbed.loops l mine).idle (closed l mine)]
        rfl
    rw [returned,names] at asked
    rw [asked]
    simp
  refine ⟨undisturbed.named,?_⟩
  cases types : call.types with
  | some l =>
    have mine : l ∈ call.loops := List.mem_append_left _ (Option.mem_toList.mpr types)
    obtain ⟨same,asks⟩ := undisturbed.types l types
    rw [if_pos (decided.mp asks),Call.typesInvoked,types,← same]
    exact (undisturbed.loops l mine).closed (closed l mine)
  | none =>
    have none_invoked : call.typesInvoked = [] := by rw [Call.typesInvoked,types]; rfl
    rw [none_invoked]
    split
    · rename_i asks
      rcases last with typed | quiet | missing
      · rw [types] at typed
        cases typed
      · rw [decided.mpr asks] at quiet
        cases quiet
      · have waiting := undisturbed.waiting types
        rw [missing] at waiting
        exact waiting
    · rfl

end calls

/-! ### Steps -/

/-- The calls that nothing disturbs, and those that have returned. -/
structure CallsInv (w : World) : Prop where
  going : ∀ call ∈ w.calls, call.undisturbed = true → Undisturbed w.map.heap call
  returned : ∀ call ∈ w.returned, call.undisturbed = true → Settled call

section steps
variable {w w' : World} {call : Call} {others : List Call} {l : Loop} {b : Address}

/-- A change of the map disturbs every call. -/
theorem CallsInv.change (calls : CallsInv w) (map : EventHandlerMap) (events : Loop → List Event) : CallsInv (w.change map events) := by
  refine ⟨fun call member undisturbed => ?_,calls.returned⟩
  obtain ⟨before,-,rfl⟩ := List.mem_map.mp member
  cases undisturbed

theorem CallsInv.finish (inv : CallsInv w) (calls : w.calls = call :: others) (settled : call.undisturbed = true → Settled call) :
    CallsInv (w.finish call others) := by
  refine ⟨fun one member => inv.going one (calls ▸ List.mem_cons_of_mem call member),fun one member => ?_⟩
  rcases List.mem_cons.mp member with rfl | old
  · exact settled
  · exact inv.returned one old

/-- The innermost call is another one, and iterators moved. -/
theorem CallsInv.withCalls {heap : Heap} {first : Call} {rest : List Call} (inv : CallsInv w) (whole : Inv w)
    (whole' : Inv (w.withCalls heap (first :: rest))) (loose : Loosened w.map.heap heap) (old : rest ⊆ w.calls)
    (here : first.undisturbed = true → Undisturbed heap first) : CallsInv (w.withCalls heap (first :: rest)) := by
  refine ⟨fun call member undisturbed => ?_,inv.returned⟩
  rcases List.mem_cons.mp member with rfl | other
  · exact here undisturbed
  · refine (inv.going call (old other) undisturbed).loosened whole (old other) loose whole'.map.heap fun l mine b stands => ?_
    exact mem_heldBy (List.mem_flatMap.mpr ⟨call,member,mine⟩) stands

theorem CallsInv.callTypes (inv : CallsInv w) (whole : Inv w) (calls : w.calls = call :: others) (types : call.types = none)
    (closed : ∀ l, call.named = some l → l.el = none) : CallsInv (w.callTypes call others) := by
  have whole' := (inv_callTypes whole calls types closed).1
  have mine : call ∈ w.calls := calls ▸ List.mem_cons_self
  have done : ∀ l ∈ call.loops, l.el = none := by
    intro l member
    refine closed l ?_
    simpa [Call.loops,types] using member
  rcases callTypes_cases w call others with ⟨asks,i,base,began⟩ | ⟨last,finished⟩
  · obtain ⟨made,-⟩ := whole.types call mine i base
    obtain ⟨-,loose,-,-⟩ := start_spec whole.map.heap (.type call.key_name) made
    rw [began] at whole' ⊢
    refine inv.withCalls whole whole' loose (fun one old => calls ▸ List.mem_cons_of_mem call old) fun undisturbed => ?_
    have before := inv.going call mine undisturbed
    have waiting := before.waiting types
    rw [base,Option.elim_some] at waiting
    refine ⟨fun l member => ?_,before.named,before.decided,fun waits => ?_,fun l typed => ?_⟩
    · rcases List.mem_cons.mp member with rfl | old
      · exact started_untouched whole.map.heap _ made
      · have known : l ∈ call.loops := List.mem_append_right _ old
        have untouched := before.loops l known
        refine ⟨?_,untouched.idle⟩
        rw [untouched.closed (done l known),(ended_pending _ (done l known)).2,List.append_nil]
    · cases waits
    · obtain rfl := Option.some.inj typed
      exact ⟨waiting,asks⟩
  · rw [finished]
    exact inv.finish calls fun undisturbed => (inv.going call mine undisturbed).settled done (.inr last)

theorem CallsInv.callName (inv : CallsInv w) (whole : Inv w) (key : Key) (key_name : TypeIndex) :
    CallsInv (w.callName key key_name) := by
  have whole' := (inv_callName whole key key_name).1
  unfold World.callName at whole' ⊢
  cases found : w.map.find (.name key) with
  | none =>
    simp only [found] at whole' ⊢
    refine inv.withCalls whole whole' (.refl _) (fun _ old => old) fun _ => ?_
    refine ⟨fun l member => ?_,rfl,rfl,fun _ => rfl,fun l typed => ?_⟩
    · cases member
    · cases typed
  | some i =>
    simp only [found] at whole' ⊢
    obtain ⟨made,-⟩ := whole.map.names.found found
    obtain ⟨-,loose,-,-⟩ := start_spec whole.map.heap (.name key) made
    refine inv.withCalls whole whole' loose (fun _ old => old) fun _ => ?_
    refine ⟨fun l member => ?_,rfl,rfl,fun _ => ?_,fun l typed => ?_⟩
    · obtain rfl := List.mem_singleton.mp member
      exact started_untouched whole.map.heap _ made
    · rw [show Heap.live _ = w.map.heap.live from funext loose.live]
      rfl
    · cases typed

/-- The loop of the innermost call that goes on. -/
theorem innermost {rest : List Loop} (inv : Inv w) (calls : w.calls = call :: others) (before : call.loops = l :: rest)
    (stands : l.el = some b) :
    ((w.map.heap.lists l.callers).m_base.isSome ∧ w.map.heap.made_for l.callers = l.source) ∧
    (∃ references, heldBy w.loops l.callers = b :: references) ∧ Loosened w.map.heap (l.proceed w.map.heap b).2 := by
  have whole : w.loops = l :: (rest ++ others.flatMap Call.loops) := by rw [loops_cons calls,before,List.cons_append]
  obtain ⟨made,mine⟩ := inv.loops l (whole ▸ List.mem_cons_self)
  refine ⟨⟨made,mine⟩,⟨heldBy (rest ++ others.flatMap Call.loops) l.callers,?_⟩,
    (proceed_moves (whole ▸ inv.map.heap) made mine stands).2.1⟩
  rw [whole,heldBy_cons,Function.update_self,stands]
  rfl

theorem CallsInv.typesMoved (inv : CallsInv w) (whole : Inv w) (calls : w.calls = call :: others) (types : call.types = some l)
    (stands : l.el = some b) {w' : World} (whole' : Inv w')
    (moved : w' = w.withCalls (l.proceed w.map.heap b).2 ({ call with types := some (l.proceed w.map.heap b).1 } :: others)) :
    CallsInv w' := by
  subst moved
  have mine : call ∈ w.calls := calls ▸ List.mem_cons_self
  have before : call.loops = l :: call.named.toList := by
    rw [Call.loops,types]
    rfl
  have done : ∀ l ∈ call.named.toList, l.el = none := fun l member =>
    whole.ended call mine (by rw [types]; rfl) l (Option.mem_toList.mp member)
  obtain ⟨⟨made,made_for⟩,⟨references,holds⟩,loose⟩ := innermost whole calls before stands
  refine inv.withCalls whole whole' loose (fun one old => calls ▸ List.mem_cons_of_mem call old) fun undisturbed => ?_
  have old := inv.going call mine undisturbed
  obtain ⟨untouched,registered,-⟩ :=
    (old.loops l (before ▸ List.mem_cons_self)).proceed whole.map.heap made made_for stands holds
  refine ⟨fun one member => ?_,old.named,old.decided,fun waits => ?_,fun one typed => ?_⟩
  · rcases List.mem_cons.mp member with rfl | named
    · exact untouched
    · have was := old.loops one (before ▸ List.mem_cons_of_mem l named)
      refine ⟨?_,was.idle⟩
      rw [was.closed (done one named),(ended_pending _ (done one named)).2,List.append_nil]
  · cases waits
  · obtain rfl := Option.some.inj typed
    rw [registered]
    exact old.types l types

theorem CallsInv.namedMoved (inv : CallsInv w) (whole : Inv w) (calls : w.calls = call :: others) (types : call.types = none)
    (named : call.named = some l) (stands : l.el = some b) {w' : World} (whole' : Inv w')
    (moved : w' = w.withCalls (l.proceed w.map.heap b).2
      ({ call with
         named := some (l.proceed w.map.heap b).1
         call_type_handler := call.handlerReturns l.element } :: others)) : CallsInv w' := by
  subst moved
  have mine : call ∈ w.calls := calls ▸ List.mem_cons_self
  have before : call.loops = [l] := by
    rw [Call.loops,types,named]
    rfl
  obtain ⟨⟨made,made_for⟩,⟨references,holds⟩,loose⟩ := innermost whole calls before stands
  refine inv.withCalls whole whole' loose (fun one old => calls ▸ List.mem_cons_of_mem call old) fun undisturbed => ?_
  have old := inv.going call mine undisturbed
  obtain ⟨untouched,registered,moves⟩ :=
    (old.loops l (before ▸ List.mem_cons_self)).proceed whole.map.heap made made_for stands holds
  have decided := old.decided
  rw [Call.namesInvoked,named,Option.elim_some,Option.elim_some] at decided
  refine ⟨fun one member => ?_,?_,?_,fun waits => ?_,fun one typed => ?_⟩
  · have single : one ∈ call.types.toList ++ [(l.proceed w.map.heap b).1] := member
    rw [types] at single
    obtain rfl := List.mem_singleton.mp single
    exact untouched
  · have based := old.named
    rw [named] at based
    exact based
  · change Call.handlerReturns { call with
        named := some (l.proceed w.map.heap b).1
        call_type_handler := call.handlerReturns l.element } (l.proceed w.map.heap b).1.element =
      (call.caller_base.isNone || (invokedIn (l.proceed w.map.heap b).1.history).any fun caller => !caller.skip_type_handler)
    rcases moves with ⟨returned,history⟩ | ⟨caller,idle,runs,history⟩
    · rw [returned,history]
      exact decided
    · rw [idle] at decided
      rw [runs,history,idle,invokedIn_append,List.any_append,← Bool.or_assoc,← decided]
      change _ = (_ || [caller].any _)
      simp [Call.handlerReturns]
  · rw [show Heap.live _ = w.map.heap.live from funext loose.live]
    exact old.waiting types
  · rw [show call.types = some one from typed] at types
    cases types

theorem callsInv_step {action : Action} (inv : CallsInv w) (whole : Inv w) (stepped : step w action = some w') : CallsInv w' := by
  have whole' := (step_moves whole stepped).1
  cases action with
  | addHandlerName name params tag skip_type_handler | addHandlerType params tag skip_type_handler =>
    obtain rfl := Option.some.inj stepped
    exact inv.change _ _
  | clearHandlerName name params =>
    obtain rfl := Option.some.inj stepped
    exact inv.change _ _
  | clearHandlersWithTag tag =>
    obtain ⟨map,-,rfl⟩ := Option.map_eq_some_iff.mp stepped
    exact inv.change _ _
  | callName name params =>
    obtain rfl := Option.some.inj stepped
    exact inv.callName whole _ _
  | proceed =>
    obtain ⟨call,others,calls,cases⟩ := proceed_cases stepped
    rcases cases with ⟨l,b,types,stands,moved⟩ | ⟨l,b,types,named,stands,moved⟩ | ⟨types,closed,rfl⟩ | ⟨l,types,closed,rfl⟩
    · exact inv.typesMoved whole calls types stands whole' moved
    · exact inv.namedMoved whole calls types named stands whole' moved
    · exact inv.callTypes whole calls types closed
    · have mine : call ∈ w.calls := calls ▸ List.mem_cons_self
      refine inv.finish calls fun undisturbed => (inv.going call mine undisturbed).settled (fun one member => ?_) ?_
      · rw [Call.loops,types] at member
        rcases List.mem_cons.mp member with rfl | named
        · exact closed
        · exact whole.ended call mine (by rw [types]; rfl) one (Option.mem_toList.mp named)
      · exact .inl (by rw [types]; rfl)

end steps

end IpcPortable.EventCalls
