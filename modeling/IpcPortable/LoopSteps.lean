import IpcPortable.EventCalls
import IpcPortable.HandlerLists
import IpcPortable.Runs

/-!
What the steps of `CallName` and of its handlers do to the loops that are going
on. The block where a loop stands is held, so that it stays in its list whatever
is removed, and the handlers that the loop has before it are those behind that
block.
-/
namespace IpcPortable.EventCalls
open IpcPortable.Runs IpcPortable.CallbackLists IpcPortable.ListShape IpcPortable.EventHandlerMaps IpcPortable.HandlerLists

/-! ### The loops and their lists -/

/-- The references that the loops hold of the blocks of a list. -/
def heldBy (loops : List Loop) (i : CallersPtr) : List Address :=
  loops.flatMap fun l => if l.callers = i then l.el.toList else []
/-- The blocks from the one where the loop stands on. -/
def Loop.rest (l : Loop) (heap : Heap) : List Address :=
  match l.el with
  | none => []
  | some b => after b (heap.ring l.callers)
/-- The handlers that the loop has before it. -/
def Loop.pending (l : Loop) (heap : Heap) : List Caller :=
  elements (heap.lists l.callers) (if l.element.isSome then (l.rest heap).tail else l.rest heap)

/-- Iterators moved: no element is lost. -/
structure Loosened (heap heap' : Heap) : Prop where
  fresh : heap'.fresh = heap.fresh
  sources : heap'.made_for = heap.made_for
  bases : ∀ i, (heap'.lists i).m_base = (heap.lists i).m_base
  lists : ∀ i, Pruned (fun _ => true) (heap.lists i) (heap.ring i) (heap'.lists i) (heap'.ring i)

section loops
variable {heap heap' : Heap} {held held' : CallersPtr → List Address} {l : Loop} {i : CallersPtr}

/-- One list is replaced by itself with other references. -/
theorem loosened {list : CallbackList Caller} {references ring : List Address} (inv : HeapInv heap held noneDying)
    (made : (heap.lists i).m_base.isSome) (after : Inv list references [] ring)
    (pruned : Pruned (fun _ => true) (heap.lists i) (heap.ring i) list ring) (same : list.m_base = (heap.lists i).m_base) :
    HeapInv (heap.setList i list) (Function.update held i references) noneDying ∧ Loosened heap (heap.setList i list) ∧
      (heap.setList i list).ring i = ring := by
  obtain ⟨replaced,thinned,ring_eq⟩ := inv.access made after pruned same
  rw [Function.update_eq_self i noneDying] at replaced
  exact ⟨replaced,⟨thinned.fresh,thinned.sources,thinned.bases,fun j => by simpa using thinned.lists j⟩,ring_eq⟩

theorem pending_eq {b : Address} (stands : l.el = some b) :
    l.pending heap = elements (heap.lists l.callers)
      (if l.element.isSome then (after b (heap.ring l.callers)).tail else after b (heap.ring l.callers)) := by
  rw [Loop.pending,Loop.rest,stands]

/-- The loop begins before all blocks. -/
theorem start_spec (inv : HeapInv heap held noneDying) (source : Source) (made : (heap.lists i).m_base.isSome) :
    HeapInv (Loop.start heap source i).2 (Function.update held i ((Loop.start heap source i).1.el.toList ++ held i)) noneDying ∧
    Loosened heap (Loop.start heap source i).2 ∧
    (Loop.start heap source i).1.pending (Loop.start heap source i).2 = heap.live i ∧
    (Loop.start heap source i).1.rest (Loop.start heap source i).2 = heap.ring i := by
  have usable := inv.lists i made
  obtain ⟨base,based,-⟩ := usable.base
  rcases usable.inv.front_eq based with ⟨nothing,found⟩ | ⟨first,others,ring,found,acquired⟩
  · have started : Loop.start heap source i =
        ({ source := source, callers := i, el := none, registered := heap.live i, blocks := (heap.ring i).length },
          heap.setList i (heap.lists i)) := by simp only [Loop.start,found]
    rw [started]
    obtain ⟨inv',loose,-⟩ := loosened inv made usable.inv (pruned_all fun _ _ => rfl) rfl
    refine ⟨inv',loose,?_,?_⟩
    · simp [Loop.pending,Loop.rest,Heap.live,nothing,elements]
    · simp [Loop.rest,nothing]
  · have started : Loop.start heap source i =
        ({ source := source, callers := i, el := some first, registered := heap.live i, blocks := (heap.ring i).length },
          heap.setList i ((heap.lists i).acquire first)) := by simp only [Loop.start,found]
    rw [started]
    have same : ∀ c ∈ heap.ring i, (((heap.lists i).acquire first).blocks c).element = ((heap.lists i).blocks c).element :=
      fun c _ => acquire_element (heap.lists i) first c
    obtain ⟨inv',loose,ring'⟩ := loosened inv made acquired (pruned_all same) rfl
    have here : (heap.setList i ((heap.lists i).acquire first)).lists i = (heap.lists i).acquire first :=
      Function.update_self ..
    have whole : after first (heap.ring i) = heap.ring i := by
      have once : ([] ++ first :: others).Nodup := ring ▸ usable.inv.shape.once
      rw [ring]
      exact after_split once
    refine ⟨inv',loose,?_,?_⟩
    · rw [pending_eq rfl,ring',whole]
      change elements ((heap.setList i ((heap.lists i).acquire first)).lists i) (heap.ring i) = _
      rw [here,elements_acquire]
      rfl
    · change after first ((heap.setList i ((heap.lists i).acquire first)).ring i) = heap.ring i
      rw [ring',whole]

/-- The loop goes past the block where it stands. -/
theorem advance_spec {b : Address} {others : List Address} (inv : HeapInv heap held noneDying)
    (made : (heap.lists l.callers).m_base.isSome) (stands : l.el = some b) (holds : held l.callers = b :: others) :
    HeapInv (l.advance heap b).2 (Function.update held l.callers ((l.advance heap b).1.el.toList ++ others)) noneDying ∧
    Loosened heap (l.advance heap b).2 ∧
    (l.advance heap b).1.pending (l.advance heap b).2 =
      elements (heap.lists l.callers) (after b (heap.ring l.callers)).tail ∧
    ((l.advance heap b).1.rest (l.advance heap b).2).length + 1 ≤ (l.rest heap).length := by
  have usable := inv.lists l.callers made
  obtain ⟨base,based,-⟩ := usable.base
  have whole := usable.inv
  rw [holds] at whole
  have once := whole.shape.once
  obtain ⟨before,behind,split⟩ := List.append_of_mem (whole.inside b List.mem_cons_self)
  rw [split] at whole once
  obtain ⟨next,ring',after_inv,pruned⟩ := whole.advance based
  have advanced : l.advance heap b = ({ l with el := behind.head?, element := none, turns := l.turns + 1 },
      heap.setList l.callers (((heap.lists l.callers).getNext b).2.reset b)) := by
    rw [← next]
    rfl
  rw [← split] at pruned
  obtain ⟨inv',loose,ring_eq⟩ := loosened inv made after_inv pruned (by rw [reset_m_base,getNext_m_base])
  have here : (heap.setList l.callers (((heap.lists l.callers).getNext b).2.reset b)).lists l.callers =
      ((heap.lists l.callers).getNext b).2.reset b := Function.update_self ..
  have stood : (after b (heap.ring l.callers)) = b :: behind := by rw [split,after_split once]
  rw [advanced,stood,List.tail_cons]
  refine ⟨inv',loose,?_⟩
  cases behind with
  | nil => exact ⟨rfl,by rw [Loop.rest,Loop.rest,stands]; simp [stood]⟩
  | cons x rest =>
    have onward : after x (heap.ring l.callers) = x :: rest := by
      have again : before ++ b :: x :: rest = (before ++ [b]) ++ x :: rest := by simp
      rw [split,again,after_split (again ▸ once)]
    have member : x ∈ ring' := after_inv.inside x List.mem_cons_self
    obtain ⟨kept,-,shorter⟩ := pruned.after (usable.inv.shape.once) member
    rw [onward,List.filter_eq_self.mpr fun _ _ => rfl] at kept
    rw [onward] at shorter
    constructor
    · rw [pending_eq rfl]
      change elements (Heap.lists _ l.callers) (after x (Heap.ring _ l.callers)) = _
      rw [here,ring_eq,kept]
    · change (after x (Heap.ring _ l.callers)).length + 1 ≤ _
      rw [ring_eq,Loop.rest,stands]
      change _ ≤ (after b (heap.ring l.callers)).length
      rw [stood]
      exact Nat.succ_le_succ shorter

/-- A loop that stands still sees nothing of an iterator that moves. -/
theorem Loosened.pending_eq {b : Address} (loose : Loosened heap heap') (inv : HeapInv heap held noneDying)
    (inv' : HeapInv heap' held' noneDying) (made : (heap.lists l.callers).m_base.isSome) (stands : l.el = some b) (holds : b ∈ held' l.callers) :
    l.pending heap' = l.pending heap ∧ (l.rest heap').length ≤ (l.rest heap).length := by
  have usable' := inv'.lists l.callers (by rw [loose.bases]; exact made)
  obtain ⟨whole,tail,shorter⟩ := (loose.lists l.callers).after (inv.lists l.callers made).inv.shape.once
    (usable'.inv.inside b holds)
  rw [List.filter_eq_self.mpr fun _ _ => rfl] at whole tail
  rw [EventCalls.pending_eq stands,EventCalls.pending_eq stands,Loop.rest,Loop.rest,stands]
  refine ⟨?_,shorter⟩
  split
  · exact tail
  · exact whole

/-- A loop that goes on calls the next handler it has before it, or passes a
    block and has the same handlers before it. -/
theorem proceed_spec {b : Address} {others : List Address} (inv : HeapInv heap held noneDying)
    (made : (heap.lists l.callers).m_base.isSome) (mine : heap.made_for l.callers = l.source) (stands : l.el = some b)
    (holds : held l.callers = b :: others) :
    (∃ caller, l.element = none ∧
      l.proceed heap b = ({ l with element := some caller, history := l.history ++ [.invoked caller] },heap) ∧
      l.pending heap = caller :: Loop.pending { l with element := some caller } heap) ∨
    l.proceed heap b = l.advance heap b ∧ (l.advance heap b).1.pending (l.advance heap b).2 = l.pending heap ∧
      ((l.advance heap b).1.rest (l.advance heap b).2).length + 1 ≤ (l.rest heap).length := by
  obtain ⟨-,-,advanced,shorter⟩ := advance_spec inv made stands holds
  have usable := inv.lists l.callers made
  have member : b ∈ heap.ring l.callers := usable.inv.inside b (holds ▸ List.mem_cons_self)
  rw [advanced,pending_eq stands]
  cases runs : l.element with
  | some caller => exact .inr ⟨by simp only [Loop.proceed,runs],rfl,shorter⟩
  | none =>
    obtain ⟨before,behind,split⟩ := List.append_of_mem member
    have stood : after b (heap.ring l.callers) = b :: behind := by
      rw [split,after_split (split ▸ usable.inv.shape.once)]
    have read : (heap.lists l.callers).getElement b = ((heap.lists l.callers).blocks b).element :=
      usable.inv.getElement_eq member
    cases element : ((heap.lists l.callers).blocks b).element with
    | none =>
      refine .inr ⟨?_,?_,shorter⟩
      · simp only [Loop.proceed,runs,Loop.callerAt,read,element,Option.filter_none]
      · rw [stood]
        exact (elements_cons_none element).symm
    | some caller =>
      have typed : caller.params_type = l.source.params_type := by
        rw [← mine]
        exact (usable.callers caller (mem_elements.mpr ⟨b,member,element⟩)).2
      refine .inl ⟨caller,rfl,?_,?_⟩
      · simp only [Loop.proceed,runs,Loop.callerAt,read,element,Option.filter_some,typed,decide_true,if_true]
      · have again : Loop.pending { l with element := some caller } heap = elements (heap.lists l.callers) behind := by
          have still : Loop.el { l with element := some caller } = some b := stands
          refine (EventCalls.pending_eq still).trans ?_
          change elements (heap.lists l.callers) (after b (heap.ring l.callers)).tail = _
          rw [stood,List.tail_cons]
        rw [again,stood]
        exact elements_cons_some element

end loops

/-! ### Steps -/

/-- The map and the loops are in order. -/
structure Inv (w : World) : Prop where
  map : MapInv w.map (heldBy w.loops) noneDying
  loops : ∀ l ∈ w.loops, (w.map.heap.lists l.callers).m_base.isSome ∧ w.map.heap.made_for l.callers = l.source
  types : ∀ call ∈ w.calls, ∀ i, call.caller_base_name = some i →
    (w.map.heap.lists i).m_base.isSome ∧ w.map.heap.made_for i = .type call.key_name
  ended : ∀ call ∈ w.calls, call.types.isSome → ∀ l, call.named = some l → l.el = none
  returned : ∀ call ∈ w.returned, ∀ l ∈ call.loops, l.el = none
  named : ∀ call ∈ w.calls ++ w.returned, ∀ l, call.named = some l → l.source = .name call.key

theorem heldBy_cons (l : Loop) (loops : List Loop) :
    heldBy (l :: loops) = Function.update (heldBy loops) l.callers (l.el.toList ++ heldBy loops l.callers) := by
  funext i
  rcases eq_or_ne i l.callers with rfl | other
  · simp [heldBy]
  · simp [heldBy,Function.update_of_ne other,Ne.symm other]

theorem mem_heldBy {loops : List Loop} {l : Loop} {b : Address} (member : l ∈ loops) (stands : l.el = some b) :
    b ∈ heldBy loops l.callers :=
  List.mem_flatMap.mpr ⟨l,member,by rw [if_pos rfl,stands]; exact List.mem_cons_self⟩

/-- Loops that have come to their ends hold nothing. -/
theorem heldBy_ended {ended loops : List Loop} (all : ∀ l ∈ ended, l.el = none) : heldBy (ended ++ loops) = heldBy loops := by
  funext i
  have nothing : ended.flatMap (fun l => if l.callers = i then l.el.toList else []) = [] := by
    refine List.flatMap_eq_nil_iff.mpr fun l member => ?_
    simp [all l member]
  rw [heldBy,heldBy,List.flatMap_append,nothing,List.nil_append]

section steps
variable {w w' : World} {call : Call} {others : List Call}

theorem callTypes_cases (w : World) (call : Call) (others : List Call) :
    (call.call_type_handler = true ∧ ∃ i, call.caller_base_name = some i ∧
      w.callTypes call others = w.withCalls (Loop.start w.map.heap (.type call.key_name) i).2
        ({ call with types := some (Loop.start w.map.heap (.type call.key_name) i).1 } :: others)) ∨
    (call.call_type_handler = false ∨ call.caller_base_name = none) ∧ w.callTypes call others = w.finish call others := by
  unfold World.callTypes
  cases call.call_type_handler with
  | false => exact .inr ⟨.inl rfl,rfl⟩
  | true =>
    cases call.caller_base_name with
    | none => exact .inr ⟨.inr rfl,rfl⟩
    | some i => exact .inl ⟨rfl,i,rfl,rfl⟩

/-- What the innermost call does: its loop goes on, or is over. -/
theorem proceed_cases (stepped : w.proceed = some w') :
    ∃ call others, w.calls = call :: others ∧
      ((∃ l b, call.types = some l ∧ l.el = some b ∧
        w' = w.withCalls (l.proceed w.map.heap b).2 ({ call with types := some (l.proceed w.map.heap b).1 } :: others)) ∨
      (∃ l b, call.types = none ∧ call.named = some l ∧ l.el = some b ∧
        w' = w.withCalls (l.proceed w.map.heap b).2
          ({ call with
             named := some (l.proceed w.map.heap b).1
             call_type_handler := call.handlerReturns l.element } :: others)) ∨
      (call.types = none ∧ (∀ l, call.named = some l → l.el = none) ∧ w' = w.callTypes call others) ∨
      ∃ l, call.types = some l ∧ l.el = none ∧ w' = w.finish call others) := by
  unfold World.proceed at stepped
  cases calls : w.calls with
  | nil =>
    rw [calls] at stepped
    cases stepped
  | cons call others =>
    refine ⟨call,others,rfl,?_⟩
    simp only [calls] at stepped
    cases types : call.types with
    | some l =>
      simp only [types] at stepped
      cases stands : l.el with
      | some b =>
        simp only [stands,Option.some.injEq] at stepped
        exact .inl ⟨l,b,rfl,stands,stepped.symm⟩
      | none =>
        simp only [stands,Option.some.injEq] at stepped
        exact .inr (.inr (.inr ⟨l,rfl,stands,stepped.symm⟩))
    | none =>
      simp only [types] at stepped
      cases named : call.named with
      | some l =>
        simp only [named] at stepped
        cases stands : l.el with
        | some b =>
          simp only [stands,Option.some.injEq] at stepped
          exact .inr (.inl ⟨l,b,rfl,rfl,stands,stepped.symm⟩)
        | none =>
          simp only [stands,Option.some.injEq] at stepped
          refine .inr (.inr (.inl ⟨rfl,?_,stepped.symm⟩))
          intro l' same
          exact Option.some.inj same ▸ stands
      | none =>
        simp only [named,Option.some.injEq] at stepped
        refine .inr (.inr (.inl ⟨rfl,?_,stepped.symm⟩))
        intro l' same
        cases same

theorem proceed_source (l : Loop) (heap : Heap) (b : Address) : (l.proceed heap b).1.source = l.source := by
  unfold Loop.proceed
  split
  · rfl
  · split <;> rfl

theorem Loosened.refl (heap : Heap) : Loosened heap heap := ⟨rfl,rfl,fun _ => rfl,fun _ => pruned_all fun _ _ => rfl⟩

variable {heap : Heap} {l : Loop} {rest : List Loop} {held held' : CallersPtr → List Address}

/-- Lists stay lists, for what they were made. -/
theorem Loosened.still (loose : Loosened w.map.heap heap) {i : CallersPtr} (made : (w.map.heap.lists i).m_base.isSome) :
    (heap.lists i).m_base.isSome ∧ heap.made_for i = w.map.heap.made_for i :=
  ⟨loose.bases i ▸ made,congrFun loose.sources i⟩

theorem Loosened.map (loose : Loosened w.map.heap heap) (map : MapInv w.map held noneDying) (inv : HeapInv heap held' noneDying)
    (calls : List Call) : MapInv (w.withCalls heap calls).map held' noneDying :=
  ⟨inv,map.names.mono fun _ => loose.still,map.types.mono fun _ => loose.still⟩

/-- The loop that goes on, with the references of the others. -/
theorem proceed_moves {b : Address} (inv : HeapInv heap (heldBy (l :: rest)) noneDying) (made : (heap.lists l.callers).m_base.isSome)
    (mine : heap.made_for l.callers = l.source) (stands : l.el = some b) :
    HeapInv (l.proceed heap b).2 (heldBy ((l.proceed heap b).1 :: rest)) noneDying ∧ Loosened heap (l.proceed heap b).2 ∧
    (l.proceed heap b).1.callers = l.callers ∧ (l.proceed heap b).1.source = l.source := by
  have holds : heldBy (l :: rest) l.callers = b :: heldBy rest l.callers := by
    rw [heldBy_cons,Function.update_self,stands]
    rfl
  rcases proceed_spec inv made mine stands holds with ⟨caller,-,invoked,-⟩ | ⟨advanced,-,-⟩
  · rw [invoked]
    refine ⟨?_,.refl heap,rfl,rfl⟩
    rw [heldBy_cons] at inv ⊢
    exact inv
  · obtain ⟨after_inv,loose,-,-⟩ := advance_spec inv made stands holds
    rw [advanced]
    refine ⟨?_,loose,rfl,rfl⟩
    rw [heldBy_cons,Function.update_idem] at after_inv
    rw [heldBy_cons]
    exact after_inv

/-- What a step does to the loops, the innermost first, and to their lists. -/
inductive LoopsMoved (w w' : World) : Prop
  | added (source : Source) (tag : Tag) (skip_type_handler : Bool) (changed : w' = w.addHandler source tag skip_type_handler)
  | nameCleared (key : Key) (changed : w' = w.clearHandlerName key)
  | tagCleared (tag : Tag) (map : EventHandlerMap) (cleared : w.map.clearHandlersWithTag tag = some map)
      (changed : w' = w.change map (w.removedFrom tag))
  | began (source : Source) (i : CallersPtr) (calls : List Call) (made : (w.map.heap.lists i).m_base.isSome)
      (mine : w.map.heap.made_for i = source) (named : ∀ key, source = .name key → w.map.find source = some i)
      (changed : w' = w.withCalls (Loop.start w.map.heap source i).2 calls)
      (loops : w'.loops = (Loop.start w.map.heap source i).1 :: w.loops)
  | moved (l : Loop) (rest : List Loop) (b : Address) (calls : List Call) (before : w.loops = l :: rest)
      (stands : l.el = some b) (changed : w' = w.withCalls (l.proceed w.map.heap b).2 calls)
      (loops : w'.loops = (l.proceed w.map.heap b).1 :: rest)
  | ended (gone : List Loop) (closed : ∀ l ∈ gone, l.el = none) (before : w.loops = gone ++ w'.loops) (map : w'.map = w.map)
      (returned : w'.returned.flatMap Call.loops ⊆ gone ++ w.returned.flatMap Call.loops)

theorem note_loops (w : World) (map : EventHandlerMap) (events : Loop → List Event) :
    (w.change map events).loops = w.loops.map (Loop.note events) := by
  rw [World.loops,World.loops,World.change,List.flatMap_map,List.map_flatMap]
  refine List.flatMap_congr fun call _ => ?_
  cases types : call.types <;> cases named : call.named <;> simp [Call.loops,Call.note,types,named]

@[simp] theorem note_el (events : Loop → List Event) (l : Loop) : (l.note events).el = l.el := by
  unfold Loop.note
  split <;> rfl
@[simp] theorem note_callers (events : Loop → List Event) (l : Loop) : (l.note events).callers = l.callers := by
  unfold Loop.note
  split <;> rfl
@[simp] theorem note_source (events : Loop → List Event) (l : Loop) : (l.note events).source = l.source := by
  unfold Loop.note
  split <;> rfl
@[simp] theorem note_element (events : Loop → List Event) (l : Loop) : (l.note events).element = l.element := by
  unfold Loop.note
  split <;> rfl

theorem heldBy_note (events : Loop → List Event) (loops : List Loop) : heldBy (loops.map (Loop.note events)) = heldBy loops := by
  funext i
  simp [heldBy,List.flatMap_map]

/-- The map is changed, and the lists that there were still are. -/
theorem inv_change {map : EventHandlerMap} (inv : Inv w) (events : Loop → List Event) (changed : MapInv map (heldBy w.loops) noneDying)
    (still : ∀ i, (w.map.heap.lists i).m_base.isSome →
      (map.heap.lists i).m_base.isSome ∧ map.heap.made_for i = w.map.heap.made_for i) : Inv (w.change map events) := by
  have noted := note_loops w map events
  refine ⟨?_,fun l member => ?_,fun call member i base => ?_,fun call member typed l named => ?_,inv.returned,
    fun call member l named => ?_⟩
  · rw [noted,heldBy_note]
    exact changed
  · rw [noted] at member
    obtain ⟨before,inside,rfl⟩ := List.mem_map.mp member
    obtain ⟨made,mine⟩ := inv.loops before inside
    rw [note_callers,note_source]
    exact ⟨(still _ made).1,(still _ made).2.trans mine⟩
  · obtain ⟨before,inside,rfl⟩ := List.mem_map.mp member
    obtain ⟨made,mine⟩ := inv.types before inside i base
    exact ⟨(still _ made).1,(still _ made).2.trans mine⟩
  · obtain ⟨before,inside,rfl⟩ := List.mem_map.mp member
    obtain ⟨old,was,rfl⟩ := Option.map_eq_some_iff.mp named
    rw [note_el]
    exact inv.ended before inside (by simpa [Call.note] using typed) old was
  · rcases List.mem_append.mp member with going | gone
    · obtain ⟨before,inside,rfl⟩ := List.mem_map.mp going
      obtain ⟨old,was,rfl⟩ := Option.map_eq_some_iff.mp named
      rw [note_source]
      exact inv.named before (List.mem_append_left _ inside) old was
    · exact inv.named call (List.mem_append_right _ gone) l named

/-- Iterators move, and the calls go on. -/
theorem inv_withCalls {calls : List Call} (inv : Inv w) (loose : Loosened w.map.heap heap)
    (heap_inv : HeapInv heap (heldBy (calls.flatMap Call.loops)) noneDying)
    (loops : ∀ l ∈ calls.flatMap Call.loops,
      (w.map.heap.lists l.callers).m_base.isSome ∧ w.map.heap.made_for l.callers = l.source)
    (types : ∀ call ∈ calls, ∀ i, call.caller_base_name = some i →
      (w.map.heap.lists i).m_base.isSome ∧ w.map.heap.made_for i = .type call.key_name)
    (ended : ∀ call ∈ calls, call.types.isSome → ∀ l, call.named = some l → l.el = none)
    (named : ∀ call ∈ calls, ∀ l, call.named = some l → l.source = .name call.key) : Inv (w.withCalls heap calls) := by
  refine ⟨loose.map inv.map heap_inv calls,fun l member => ?_,fun call member i base => ?_,ended,inv.returned,
    fun call member => ?_⟩
  · obtain ⟨made,mine⟩ := loops l member
    exact ⟨(loose.still made).1,(loose.still made).2.trans mine⟩
  · obtain ⟨made,mine⟩ := types call member i base
    exact ⟨(loose.still made).1,(loose.still made).2.trans mine⟩
  · rcases List.mem_append.mp member with going | gone
    · exact named call going
    · exact inv.named call (List.mem_append_right _ gone)

/-- A call returns when its loops are over. -/
theorem inv_finish (inv : Inv w) (calls : w.calls = call :: others) (closed : ∀ l ∈ call.loops, l.el = none) :
    Inv (w.finish call others) ∧ LoopsMoved w (w.finish call others) := by
  have before : w.loops = call.loops ++ (w.finish call others).loops := by
    rw [World.loops,calls]
    rfl
  have inside : ∀ one ∈ others, one ∈ w.calls := fun one member => calls ▸ List.mem_cons_of_mem call member
  refine ⟨⟨?_,fun l member => ?_,fun one member => ?_,fun one member => ?_,fun one member => ?_,fun one member => ?_⟩,
    .ended call.loops closed before rfl fun _ member => member⟩
  · have map := inv.map
    rw [before,heldBy_ended closed] at map
    exact map
  · exact inv.loops l (before ▸ List.mem_append_right _ member)
  · exact inv.types one (inside one member)
  · exact inv.ended one (inside one member)
  · rcases List.mem_cons.mp member with rfl | old
    · exact closed
    · exact inv.returned one old
  · refine inv.named one ?_
    rw [calls]
    rcases List.mem_append.mp member with going | gone
    · exact List.mem_append_left _ (List.mem_cons_of_mem call going)
    · rcases List.mem_cons.mp gone with rfl | old
      · exact List.mem_append_left _ List.mem_cons_self
      · exact List.mem_append_right _ old

/-- The loops of the calls that are not the innermost one. -/
theorem loops_cons (calls : w.calls = call :: others) : w.loops = call.loops ++ others.flatMap Call.loops := by
  rw [World.loops,calls,List.flatMap_cons]

/-- `CallName` goes on behind the names. -/
theorem inv_callTypes (inv : Inv w) (calls : w.calls = call :: others) (types : call.types = none)
    (closed : ∀ l, call.named = some l → l.el = none) :
    Inv (w.callTypes call others) ∧ LoopsMoved w (w.callTypes call others) := by
  have named : ∀ l ∈ call.loops, l.el = none := by
    intro l member
    refine closed l ?_
    simpa [Call.loops,types] using member
  rcases callTypes_cases w call others with ⟨-,i,base,began⟩ | ⟨-,finished⟩
  · obtain ⟨made,mine⟩ := inv.types call (calls ▸ List.mem_cons_self) i base
    obtain ⟨heap_inv,loose,-,-⟩ := start_spec inv.map.heap (.type call.key_name) made
    have before : w.loops = call.named.toList ++ others.flatMap Call.loops := by
      rw [loops_cons calls,Call.loops,types]
      rfl
    have here : (Loop.start w.map.heap (.type call.key_name) i).1.callers = i ∧
        (Loop.start w.map.heap (.type call.key_name) i).1.source = .type call.key_name := ⟨rfl,rfl⟩
    rw [began]
    refine ⟨inv_withCalls inv loose ?_ (fun l member => ?_) (fun one member => ?_) (fun one member typed => ?_)
      (fun one member => ?_),.began _ i _ made mine (fun key other => by cases other) rfl ?_⟩
    · rw [before] at heap_inv
      rw [List.flatMap_cons,Call.loops,Option.toList_some,List.singleton_append,List.cons_append,heldBy_cons,here.1]
      exact heap_inv
    · rcases List.mem_cons.mp member with rfl | old
      · rw [here.1,here.2]
        exact ⟨made,mine⟩
      · exact inv.loops l (before ▸ old)
    · rcases List.mem_cons.mp member with rfl | old
      · exact inv.types call (calls ▸ List.mem_cons_self)
      · exact inv.types one (calls ▸ List.mem_cons_of_mem call old)
    · rcases List.mem_cons.mp member with rfl | old
      · exact closed
      · exact inv.ended one (calls ▸ List.mem_cons_of_mem call old) typed
    · rcases List.mem_cons.mp member with rfl | old
      · exact inv.named call (List.mem_append_left _ (calls ▸ List.mem_cons_self))
      · exact inv.named one (List.mem_append_left _ (calls ▸ List.mem_cons_of_mem call old))
    · rw [before]
      rfl
  · rw [finished]
    exact inv_finish inv calls named

/-- A loop of the innermost call goes on. -/
theorem inv_moved {call' : Call} {l : Loop} {rest : List Loop} {b : Address} (inv : Inv w) (calls : w.calls = call :: others)
    (stands : l.el = some b) (before : call.loops = l :: rest)
    (loops : call'.loops = (l.proceed w.map.heap b).1 :: rest)
    (base : call'.caller_base_name = call.caller_base_name ∧ call'.key_name = call.key_name)
    (ended : call'.types.isSome → ∀ l, call'.named = some l → l.el = none)
    (named : ∀ l, call'.named = some l → l.source = .name call'.key) :
    Inv (w.withCalls (l.proceed w.map.heap b).2 (call' :: others)) ∧
      LoopsMoved w (w.withCalls (l.proceed w.map.heap b).2 (call' :: others)) := by
  have whole : w.loops = l :: (rest ++ others.flatMap Call.loops) := by rw [loops_cons calls,before,List.cons_append]
  have whole' : (call' :: others).flatMap Call.loops = (l.proceed w.map.heap b).1 :: (rest ++ others.flatMap Call.loops) := by
    rw [List.flatMap_cons,loops,List.cons_append]
  obtain ⟨made,mine⟩ := inv.loops l (whole ▸ List.mem_cons_self)
  have heap_inv := inv.map.heap
  rw [whole] at heap_inv
  obtain ⟨moved,loose,callers,source⟩ := proceed_moves heap_inv made mine stands
  refine ⟨inv_withCalls inv loose (whole' ▸ moved) (fun one member => ?_) (fun one member => ?_) (fun one member => ?_)
    (fun one member => ?_),.moved l _ b _ whole stands rfl whole'⟩
  · rw [whole'] at member
    rcases List.mem_cons.mp member with rfl | old
    · rw [callers,source]
      exact ⟨made,mine⟩
    · exact inv.loops one (whole ▸ List.mem_cons_of_mem l old)
  · rcases List.mem_cons.mp member with rfl | old
    · rw [base.1,base.2]
      exact inv.types call (calls ▸ List.mem_cons_self)
    · exact inv.types one (calls ▸ List.mem_cons_of_mem call old)
  · rcases List.mem_cons.mp member with rfl | old
    · exact ended
    · exact inv.ended one (calls ▸ List.mem_cons_of_mem call old)
  · rcases List.mem_cons.mp member with rfl | old
    · exact named
    · exact inv.named one (List.mem_append_left _ (calls ▸ List.mem_cons_of_mem call old))

theorem inv_callName (inv : Inv w) (key : Key) (key_name : TypeIndex) :
    Inv (w.callName key key_name) ∧ LoopsMoved w (w.callName key key_name) := by
  have typed : ∀ i, w.map.find (.type key_name) = some i →
      (w.map.heap.lists i).m_base.isSome ∧ w.map.heap.made_for i = .type key_name := fun i found => inv.map.types.found found
  unfold World.callName
  cases found : w.map.find (.name key) with
  | none =>
    refine ⟨inv_withCalls inv (.refl _) inv.map.heap inv.loops (fun one member => ?_) (fun one member => ?_)
      (fun one member l named => ?_),.ended [] (fun l member => by cases member) rfl rfl fun _ member => member⟩
    · rcases List.mem_cons.mp member with rfl | old
      · exact typed
      · exact inv.types one old
    · rcases List.mem_cons.mp member with rfl | old
      · intro none_types
        cases none_types
      · exact inv.ended one old
    · rcases List.mem_cons.mp member with rfl | old
      · cases named
      · exact inv.named one (List.mem_append_left _ old) l named
  | some i =>
    obtain ⟨made,mine⟩ := inv.map.names.found found
    obtain ⟨heap_inv,loose,-,-⟩ := start_spec inv.map.heap (.name key) made
    refine ⟨inv_withCalls inv loose ?_ (fun l member => ?_) (fun one member => ?_) (fun one member => ?_)
      (fun one member l named => ?_),.began _ i _ made mine (fun _ _ => found) rfl rfl⟩
    · change HeapInv _ (heldBy ((Loop.start w.map.heap (.name key) i).1 :: w.loops)) noneDying
      rw [heldBy_cons,show (Loop.start w.map.heap (.name key) i).1.callers = i from rfl]
      exact heap_inv
    · rcases List.mem_cons.mp member with rfl | old
      · exact ⟨made,mine⟩
      · exact inv.loops l old
    · rcases List.mem_cons.mp member with rfl | old
      · exact typed
      · exact inv.types one old
    · rcases List.mem_cons.mp member with rfl | old
      · intro none_types
        cases none_types
      · exact inv.ended one old
    · rcases List.mem_cons.mp member with rfl | old
      · obtain rfl := Option.some.inj named
        rfl
      · exact inv.named one (List.mem_append_left _ old) l named

theorem inv_proceed (inv : Inv w) (stepped : w.proceed = some w') : Inv w' ∧ LoopsMoved w w' := by
  obtain ⟨call,others,calls,cases⟩ := proceed_cases stepped
  have mine := inv.ended call (calls ▸ List.mem_cons_self)
  have names := inv.named call (List.mem_append_left _ (calls ▸ List.mem_cons_self))
  rcases cases with ⟨l,b,types,stands,rfl⟩ | ⟨l,b,types,named,stands,rfl⟩ | ⟨types,closed,rfl⟩ | ⟨l,types,closed,rfl⟩
  · refine inv_moved inv calls stands ?_ rfl ⟨rfl,rfl⟩ (fun _ => mine (by rw [types]; rfl)) names
    rw [Call.loops,types]
    rfl
  · have before : call.loops = [l] := by
      rw [Call.loops,types,named]
      rfl
    refine inv_moved inv calls stands before ?_ ⟨rfl,rfl⟩ (fun typed => ?_) fun l' same => ?_
    · change call.types.toList ++ [_] = [_]
      rw [types]
      rfl
    · rw [show call.types = none from types] at typed
      cases typed
    · obtain rfl := Option.some.inj same
      exact (proceed_source l w.map.heap b).trans (names l named)
  · exact inv_callTypes inv calls types closed
  · refine inv_finish inv calls fun one member => ?_
    rw [Call.loops,types] at member
    rcases List.mem_cons.mp member with rfl | old
    · exact closed
    · exact mine (by rw [types]; rfl) one (Option.mem_toList.mp old)

theorem inv_addHandler (inv : Inv w) (source : Source) (tag : Tag) (skip_type_handler : Bool) :
    Inv (w.addHandler source tag skip_type_handler) ∧ LoopsMoved w (w.addHandler source tag skip_type_handler) := by
  obtain ⟨i,address,map,added,-,-⟩ := inv.map.addHandler source tag skip_type_handler
  exact ⟨inv_change inv _ map added.pushed.sources,.added source tag skip_type_handler rfl⟩

/-- Every step keeps the map and the loops in order. -/
theorem step_moves {action : Action} (inv : Inv w) (stepped : step w action = some w') : Inv w' ∧ LoopsMoved w w' := by
  cases action with
  | addHandlerName name params tag skip_type_handler =>
    obtain rfl := Option.some.inj stepped
    exact inv_addHandler inv _ tag skip_type_handler
  | addHandlerType params tag skip_type_handler =>
    obtain rfl := Option.some.inj stepped
    exact inv_addHandler inv _ tag skip_type_handler
  | clearHandlerName name params =>
    obtain rfl := Option.some.inj stepped
    obtain ⟨map,-⟩ := inv.map.clearHandlerName ⟨name,params.type_index⟩
    exact ⟨inv_change inv _ map fun i made => ⟨made,rfl⟩,.nameCleared _ rfl⟩
  | clearHandlersWithTag tag =>
    obtain ⟨map,cleared,map_inv,spec⟩ := inv.map.clearHandlersWithTag tag
    simp only [step,cleared,Option.map_some,Option.some.injEq] at stepped
    subst stepped
    exact ⟨inv_change inv _ map_inv fun i made => ⟨spec.bases i ▸ made,congrFun spec.sources i⟩,.tagCleared tag map cleared rfl⟩
  | callName name params =>
    obtain rfl := Option.some.inj stepped
    exact inv_callName inv _ params.name_type_index
  | proceed => exact inv_proceed inv stepped

end steps

theorem inv_empty : Inv {} where
  map :=
    ⟨⟨fun i made => (by cases made),fun _ _ => rfl,fun _ _ => ⟨rfl,rfl⟩⟩,
      ⟨List.Pairwise.nil,fun entry member => by cases member⟩,⟨List.Pairwise.nil,fun entry member => by cases member⟩⟩
  loops l member := by cases member
  types call member := by cases member
  ended call member := by cases member
  returned call member := by cases member
  named call member := by cases member

theorem inv_preserves : Preserves step Inv := fun _ _ _ inv stepped => (step_moves inv stepped).1

/-- Whatever the handlers do, the map and the loops are in order. -/
theorem inv_run (actions : List Action) : Inv (run step {} actions) := inv_preserves.run inv_empty actions

end IpcPortable.EventCalls
