import IpcPortable.StableDispatch

/-!
Handlers that change the map while they run: the loop over the names comes to
its end all the same, and everybody is called in turn.
-/
namespace IpcPortable.EventCalls
open IpcPortable.Runs IpcPortable.CallbackLists IpcPortable.ListShape IpcPortable.EventHandlerMaps IpcPortable.HandlerLists

/-- What a handler does that adds handlers and clears tags, and that it returns. -/
def Action.fromHandler : Action → Bool
  | .addHandlerName .. | .addHandlerType .. | .clearHandlersWithTag _ | .proceed => true
  | .clearHandlerName .. | .callName .. => false
def Action.adds : Action → Bool
  | .addHandlerName .. | .addHandlerType .. => true
  | .clearHandlerName .. | .clearHandlersWithTag _ | .callName .. | .proceed => false
def Action.proceeds : Action → Bool
  | .proceed => true
  | .addHandlerName .. | .addHandlerType .. | .clearHandlerName .. | .clearHandlersWithTag _ | .callName .. => false

def Call.nameLoop (call : Call) : Option Loop := if call.types.isNone then call.named else none
/-- The loop over the names of the innermost call. -/
def World.nameLoop (w : World) : Option Loop := w.calls.head?.bind Call.nameLoop

/-- Handlers that began and handlers that were left behind, of all that the loop went through. -/
def Loop.progress (l : Loop) : Nat := 2 * l.turns + if l.element.isSome then 1 else 0

/-- What an action of a handler does to the loop that called it. -/
structure Progressed (action : Action) (l l' : Loop) : Prop where
  blocks : l'.blocks = l.blocks
  added : (addedIn l'.history).length ≤ (addedIn l.history).length + if action.adds then 1 else 0
  cleared : .nameCleared ∈ l'.history → .nameCleared ∈ l.history
  progress : l.progress + (if action.proceeds then 1 else 0) ≤ l'.progress

section loops
variable {w w' : World} {l : Loop} {b : Address} {held : CallersPtr → List Address}

theorem note_nameLoop (w : World) (map : EventHandlerMap) (events : Loop → List Event) :
    (w.change map events).nameLoop = w.nameLoop.map (Loop.note events) := by
  unfold World.nameLoop World.change
  cases w.calls with
  | nil => rfl
  | cons call others =>
    cases types : call.types <;> simp [Call.nameLoop,Call.note,types]

theorem note_progressed {events : Loop → List Event} (action : Action) (quiet : action.proceeds = false)
    (fewer : (addedIn (events l)).length ≤ if action.adds then 1 else 0) (kept : .nameCleared ∉ events l) :
    Progressed action l (l.note events) := by
  rw [note_eq]
  split
  · refine ⟨rfl,?_,fun cleared => (List.mem_append.mp cleared).resolve_right kept,?_⟩
    · change (addedIn (l.history ++ events l)).length ≤ _
      rw [addedIn_append,List.length_append]
      exact Nat.add_le_add_left fewer _
    · rw [quiet]
      exact Nat.le_refl _
  · exact ⟨rfl,Nat.le_add_right _ _,fun cleared => cleared,by rw [quiet]; exact Nat.le_refl _⟩

theorem proceed_progressed (l : Loop) (heap : Heap) (b : Address) : Progressed .proceed l (l.proceed heap b).1 := by
  unfold Loop.proceed
  split
  · rename_i caller running
    refine ⟨rfl,Nat.le_refl _,fun cleared => cleared,?_⟩
    change 2 * l.turns + (if l.element.isSome then 1 else 0) + 1 ≤ 2 * (l.turns + 1) + 0
    rw [running]
    change 2 * l.turns + 1 + 1 ≤ _
    omega
  · rename_i idle
    split
    · rename_i caller found
      refine ⟨rfl,?_,fun cleared => by simpa using cleared,?_⟩
      · change (addedIn (l.history ++ [.invoked caller])).length ≤ _
        rw [addedIn_append]
        exact Nat.le_of_eq (congrArg List.length (List.append_nil _))
      · change 2 * l.turns + (if l.element.isSome then 1 else 0) + 1 ≤ 2 * l.turns + 1
        rw [idle]
        exact Nat.le_refl _
    · refine ⟨rfl,Nat.le_refl _,fun cleared => cleared,?_⟩
      change 2 * l.turns + (if l.element.isSome then 1 else 0) + 1 ≤ 2 * (l.turns + 1) + 0
      rw [idle]
      change 2 * l.turns + 0 + 1 ≤ _
      omega

theorem removedFrom_addedIn (w : World) (tag : Tag) (l : Loop) : addedIn (w.removedFrom tag l) = [] := by
  unfold World.removedFrom
  split
  · simp [addedIn,Event.isAdded,List.filterMap_map]
  · rfl

theorem nameLoop_change (runs : w.nameLoop = some l) {map : EventHandlerMap} {events : Loop → List Event} {action : Action}
    (stepped : step w action = some (w.change map events)) (quiet : action.proceeds = false)
    (fewer : (addedIn (events l)).length ≤ if action.adds then 1 else 0) (kept : .nameCleared ∉ events l) :
    ∃ w' l', step w action = some w' ∧ w'.nameLoop = some l' ∧ w'.calls.length = w.calls.length ∧ Progressed action l l' := by
  refine ⟨_,l.note events,stepped,?_,?_,note_progressed action quiet fewer kept⟩
  · rw [note_nameLoop,runs]
    rfl
  · exact List.length_map _

/-- Whatever the handler does, the loop that called it is still there, and goes
    on when it returns. -/
theorem nameLoop_step {action : Action} (inv : Inv w) (runs : w.nameLoop = some l) (stands : l.el = some b)
    (allowed : action.fromHandler = true) :
    ∃ w' l', step w action = some w' ∧ w'.nameLoop = some l' ∧ w'.calls.length = w.calls.length ∧ Progressed action l l' := by
  have added : ∀ source tag skip_type_handler, action.adds = true → action.proceeds = false →
      step w action = some (w.addHandler source tag skip_type_handler) →
      ∃ w' l', step w action = some w' ∧ w'.nameLoop = some l' ∧ w'.calls.length = w.calls.length ∧ Progressed action l l' := by
    intro source tag skip_type_handler adds quiet stepped
    refine nameLoop_change runs stepped quiet ?_ ?_
    · rw [adds]
      by_cases same : l.source = source <;> simp [same,addedIn,Event.isAdded]
    · by_cases same : l.source = source <;> simp [same]
  cases action with
  | addHandlerName name params tag skip_type_handler => exact added _ tag skip_type_handler rfl rfl rfl
  | addHandlerType params tag skip_type_handler => exact added _ tag skip_type_handler rfl rfl rfl
  | clearHandlerName name params => cases allowed
  | clearHandlersWithTag tag =>
    obtain ⟨map,cleared,-,-⟩ := inv.map.clearHandlersWithTag tag
    have stepped : step w (.clearHandlersWithTag tag) = some (w.change map (w.removedFrom tag)) := by
      simp only [step,cleared,Option.map_some]
    refine nameLoop_change runs stepped rfl ?_ ?_
    · rw [removedFrom_addedIn]
      exact Nat.zero_le _
    · unfold World.removedFrom
      split <;> simp
  | callName name params => cases allowed
  | proceed =>
    have known := runs
    unfold World.nameLoop at known
    cases calls : w.calls with
    | nil =>
      rw [calls] at known
      cases known
    | cons call others =>
      rw [calls,List.head?_cons,Option.bind_some] at known
      cases types : call.types with
      | some _ =>
        rw [Call.nameLoop,types] at known
        cases known
      | none =>
        have named : call.named = some l := by simpa [Call.nameLoop,types] using known
        have stepped : step w .proceed = some (w.withCalls (l.proceed w.map.heap b).2
            ({ call with
               named := some (l.proceed w.map.heap b).1
               call_type_handler := call.handlerReturns l.element } :: others)) := by
          simp only [step,World.proceed,calls,types,named,stands]
        refine ⟨_,(l.proceed w.map.heap b).1,stepped,?_,rfl,proceed_progressed l w.map.heap b⟩
        exact if_pos (congrArg Option.isNone types)

/-- A loop that is not over has not made all its rounds. -/
theorem Stable.unfinished (stable : Stable w l) (inv : HeapInv w.map.heap held noneDying) (made : (w.map.heap.lists l.callers).m_base.isSome)
    (stands : l.el = some b) (holds : b ∈ held l.callers) : l.progress < 2 * (l.blocks + (addedIn l.history).length) := by
  have turns := stable.turns
  obtain ⟨before,behind,split⟩ := List.append_of_mem ((inv.lists _ made).inv.inside b holds)
  have rest : l.rest w.map.heap = b :: behind := by
    rw [Loop.rest,stands]
    change after b (w.map.heap.ring l.callers) = b :: behind
    rw [split,after_split (split ▸ (inv.lists _ made).inv.shape.once)]
  rw [rest,List.length_cons] at turns
  have small : (if l.element.isSome then 1 else 0) ≤ 1 := by split <;> omega
  rw [Loop.progress]
  omega

theorem nameLoop_known (runs : w.nameLoop = some l) : ∃ call ∈ w.calls, call.named = some l ∧ l ∈ w.loops := by
  unfold World.nameLoop at runs
  cases calls : w.calls with
  | nil =>
    rw [calls] at runs
    cases runs
  | cons call others =>
    rw [calls,List.head?_cons,Option.bind_some,Call.nameLoop] at runs
    obtain ⟨-,named⟩ := Option.ite_none_right_eq_some.mp runs
    refine ⟨call,List.mem_cons_self,named,?_⟩
    rw [World.loops,calls]
    exact List.mem_append_left _ (List.mem_append_right _ (Option.mem_toList.mpr named))

end loops

theorem tracked_of {w : World} {call : Call} {l : Loop} (inv : Inv w) (member : call ∈ w.calls ++ w.returned)
    (named : call.named = some l) (kept : .nameCleared ∉ l.history) : l.Tracked ∧ l ∈ w.allLoops := by
  refine ⟨⟨⟨call.key,inv.named call member l named⟩,kept⟩,?_⟩
  have mine : l ∈ call.loops := List.mem_append_right _ (Option.mem_toList.mpr named)
  rcases List.mem_append.mp member with going | gone
  · exact List.mem_append_left _ (List.mem_flatMap.mpr ⟨call,going,mine⟩)
  · exact List.mem_append_right _ (List.mem_flatMap.mpr ⟨call,gone,mine⟩)

/-- The loop over the names ends when its handlers have returned often enough. -/
theorem nameLoop_ends {actions rest : List Action} {l : Loop} (runs : (run step {} actions).nameLoop = some l)
    (kept : .nameCleared ∉ l.history) (allowed : ∀ action ∈ rest, action.fromHandler = true)
    (enough : 2 * (l.blocks + (addedIn l.history).length + rest.countP Action.adds) ≤ l.progress + rest.countP Action.proceeds) :
    ∃ before l', before <+: rest ∧ (run step {} (actions ++ before)).nameLoop = some l' ∧ l'.el = none ∧
      (run step {} (actions ++ before)).calls.length = (run step {} actions).calls.length := by
  induction rest generalizing actions l with
  | nil =>
    refine ⟨[],l,List.prefix_rfl,by rwa [List.append_nil],?_,by rw [List.append_nil]⟩
    cases stands : l.el with
    | none => rfl
    | some b =>
      have inv := inv_run actions
      obtain ⟨call,member,named,inside⟩ := nameLoop_known runs
      obtain ⟨tracked,known⟩ := tracked_of inv (List.mem_append_left _ member) named kept
      have open_rounds := (stable_run actions l known tracked).unfinished inv.map.heap (inv.loops l inside).1 stands
        (mem_heldBy inside stands)
      simp only [List.countP_nil,Nat.add_zero] at enough
      omega
  | cons action rest ih =>
    cases stands : l.el with
    | none => exact ⟨[],l,List.nil_prefix,by rwa [List.append_nil],stands,by rw [List.append_nil]⟩
    | some b =>
      obtain ⟨w',l',stepped,runs',depth,moved⟩ := nameLoop_step (inv_run actions) runs stands (allowed action List.mem_cons_self)
      have next : run step {} (actions ++ [action]) = w' := by
        rw [run_append]
        exact congrArg (Option.getD · _) stepped
      rw [List.countP_cons,List.countP_cons] at enough
      have progress := moved.progress
      have added := moved.added
      have blocks := moved.blocks
      have still_runs : (run step {} (actions ++ [action])).nameLoop = some l' := next ▸ runs'
      obtain ⟨before,l'',short,ended,closed,same⟩ := ih still_runs
        (fun cleared => kept (moved.cleared cleared)) (fun other member => allowed other (List.mem_cons_of_mem action member))
        (by omega)
      rw [List.append_assoc,List.singleton_append] at ended same
      exact ⟨action :: before,l'',List.cons_prefix_cons.mpr ⟨rfl,short⟩,ended,closed,by rw [same,next,depth]⟩

/-- However handlers add handlers and clear tags, the handlers of the name are
    called in turn, each once that is not removed before, and the loop ends. -/
theorem callName_in_turn (actions : List Action) :
    (∀ call ∈ (run step {} actions).calls ++ (run step {} actions).returned, ∀ l, call.named = some l → .nameCleared ∉ l.history →
      InTurn l.registered l.history ∧
      (l.el = none → ∀ caller ∈ l.registered ++ addedIn l.history,
        (invokedIn l.history).count caller = 1 ∨ .removed caller ∈ l.history ∧ .invoked caller ∉ l.history)) ∧
    ∀ l, (run step {} actions).nameLoop = some l → .nameCleared ∉ l.history →
      ∀ rest, (∀ action ∈ rest, action.fromHandler = true) →
        2 * (l.blocks + (addedIn l.history).length + rest.countP Action.adds) ≤ rest.countP Action.proceeds →
        ∃ before l', before <+: rest ∧ (run step {} (actions ++ before)).nameLoop = some l' ∧ l'.el = none ∧
          (run step {} (actions ++ before)).calls.length = (run step {} actions).calls.length := by
  refine ⟨fun call member l named kept => ?_,fun l runs kept rest allowed enough => ?_⟩
  · obtain ⟨tracked,known⟩ := tracked_of (inv_run actions) member named kept
    have stable := stable_run actions l known tracked
    refine ⟨stable.queued.inTurn,fun closed => ?_⟩
    have queued := stable.queued
    rw [(ended_pending _ closed).2] at queued
    exact queued.all_passed
  · exact nameLoop_ends runs kept allowed (Nat.le_trans enough (Nat.le_add_left _ _))

/-- Three handlers of a name, of which the first one runs. -/
def threeHandlers : List Action :=
  [.addHandlerName [] ⟨1,2⟩ 1 true,.addHandlerName [] ⟨1,2⟩ 2 true,.addHandlerName [] ⟨1,2⟩ 3 true,.callName [] ⟨1,2⟩,.proceed]
/-- It clears the tag of the next one and its own, and adds a fourth. -/
def firstChanges : List Action :=
  [.clearHandlersWithTag 2,.addHandlerName [] ⟨1,2⟩ 4 true,.clearHandlersWithTag 1] ++ List.replicate 8 .proceed

theorem callName_in_turn_changed :
    ∃ l, (run step {} threeHandlers).nameLoop = some l ∧ InTurn l.registered l.history ∧
      ∃ before l', before <+: firstChanges ∧ (run step {} (threeHandlers ++ before)).nameLoop = some l' ∧ l'.el = none := by
  have running : (run step {} threeHandlers).nameLoop.isSome = true := by decide +kernel
  obtain ⟨l,found⟩ := Option.isSome_iff_exists.mp running
  have seen : (run step {} threeHandlers).nameLoop.map (fun l => (l.blocks,l.history)) =
      some (3,[.invoked ⟨2,1,1,true⟩]) := by decide +kernel
  rw [found,Option.map_some] at seen
  obtain ⟨blocks,history⟩ := Prod.mk.inj (Option.some.inj seen)
  have kept : .nameCleared ∉ l.history := by simp [history]
  obtain ⟨call,member,named,-⟩ := nameLoop_known found
  refine ⟨l,found,((callName_in_turn threeHandlers).1 call (List.mem_append_left _ member) l named kept).1,?_⟩
  obtain ⟨before,l',short,ends,closed,-⟩ := (callName_in_turn threeHandlers).2 l found kept firstChanges (by decide) (by
    rw [blocks,history]
    decide)
  exact ⟨before,l',short,ends,closed⟩

end IpcPortable.EventCalls
