import IpcPortable.ListAccesses
import IpcPortable.Runs

/-!
The lists under several threads. Every reference is held by a loop that stands on
the block or by a pointer that goes out of scope, and every block without owners
is one whose destructor a thread is about to run.
-/
namespace IpcPortable.CallThreads
open IpcPortable.Runs IpcPortable.CallbackLists IpcPortable.ListShape IpcPortable.EventHandlerMaps IpcPortable.HandlerLists

/-! ### References -/

def Walk.held (i : CallersPtr) (walk : Walk) : List Address := if walk.callers = i then walk.point.el.toList else []
def Release.held (i : CallersPtr) : Release → List Address
  | .drop callers cb => if callers = i then [cb] else []
  | .dtor _ _ => []
def Release.dying (i : CallersPtr) : Release → List Address
  | .drop _ _ => []
  | .dtor callers cb => if callers = i then [cb] else []
def Thread.walks (thread : Thread) : List Walk := thread.frames.flatMap Frame.walks
def Thread.held (i : CallersPtr) (thread : Thread) : List Address :=
  thread.walks.flatMap (Walk.held i) ++ thread.releases.flatMap (Release.held i)
def Thread.dying (i : CallersPtr) (thread : Thread) : List Address := thread.releases.flatMap (Release.dying i)
def heldBy (threads : List Thread) (i : CallersPtr) : List Address := threads.flatMap (Thread.held i)
def dyingBy (threads : List Thread) (i : CallersPtr) : List Address := threads.flatMap (Thread.dying i)
def walksOf (threads : List Thread) : List Walk := threads.flatMap Thread.walks

/-- The list of the loop was made for what the loop is for. -/
structure Made (heap : Heap) (walk : Walk) : Prop where
  list : (heap.lists walk.callers).m_base.isSome
  mine : heap.made_for walk.callers = walk.source
/-- The map is in order with the references of the threads, and so are their loops. -/
structure Inv (w : World) : Prop where
  map : MapInv w.map (heldBy w.threads) (dyingBy w.threads)
  walks : ∀ walk ∈ walksOf w.threads, Made w.map.heap walk

section references
variable {α β : Type} {threads : List α} {t : Nat} {thread thread' : α}

theorem set_split (here : threads[t]? = some thread) (thread' : α) :
    ∃ front back, threads = front ++ thread :: back ∧ threads.set t thread' = front ++ thread' :: back := by
  obtain ⟨small,rfl⟩ := List.getElem?_eq_some_iff.mp here
  refine ⟨threads.take t,threads.drop (t + 1),?_,?_⟩
  · rw [List.getElem_cons_drop,List.take_append_drop]
  · rw [List.set_eq_take_append_cons_drop,if_pos small]

/-- What one member gains, all gain. -/
theorem set_gains {f : α → List β} {extra : List β} (here : threads[t]? = some thread) (gains : (f thread').Perm (extra ++ f thread)) :
    ((threads.set t thread').flatMap f).Perm (extra ++ threads.flatMap f) := by
  obtain ⟨front,back,whole,changed⟩ := set_split here thread'
  rw [changed,whole,List.flatMap_append,List.flatMap_append,List.flatMap_cons,List.flatMap_cons]
  have moved := (gains.append_right (back.flatMap f)).append_left (front.flatMap f)
  refine moved.trans ?_
  rw [List.append_assoc]
  exact List.perm_append_comm_assoc ..

/-- What one member loses, all lose. -/
theorem set_loses {f : α → List β} {lost : List β} (here : threads[t]? = some thread) (loses : (f thread).Perm (lost ++ f thread')) :
    (threads.flatMap f).Perm (lost ++ (threads.set t thread').flatMap f) := by
  obtain ⟨small,rfl⟩ := List.getElem?_eq_some_iff.mp here
  have changed : (threads.set t thread')[t]? = some thread' := List.getElem?_set_self small
  have back : (threads.set t thread').set t threads[t] = threads := by rw [List.set_set,List.set_getElem_self]
  have gained := set_gains changed loses
  rwa [back] at gained

end references

section frames
variable {frame : Frame} {walk walk' : Walk} {i : CallersPtr}

/-- The loop that goes on is one of the loops, and is replaced alone. -/
theorem current_split (current : frame.current = some walk) : ∃ before rest, frame.walks = before ++ walk :: rest ∧
    ∀ point walk', ((frame.leave point).setCurrent walk').walks = before ++ walk' :: rest ∧
      (frame.setCurrent walk').walks = before ++ walk' :: rest := by
  cases frame with
  | clearHandlersWithTag tag walks =>
    obtain ⟨rest,rfl⟩ := List.head?_eq_some_iff.mp current
    exact ⟨[],rest,rfl,fun _ _ => ⟨rfl,rfl⟩⟩
  | callName names types call_type_handler =>
    cases open_names : names.filter (fun walk => walk.point ≠ .ended) with
    | some first =>
      obtain ⟨rfl,goes_on⟩ := Option.filter_eq_some_iff.mp open_names
      have same : first = walk := by
        rw [Frame.current,open_names,Option.some_or] at current
        exact Option.some.inj current
      subst same
      have any : (some first).any (fun walk => decide (walk.point ≠ .ended)) = true := goes_on
      refine ⟨[],types.toList,rfl,fun point walk' => ?_⟩
      rw [Frame.leave,Frame.setCurrent,Frame.setCurrent,if_pos any,if_pos any]
      exact ⟨rfl,rfl⟩
    | none =>
      rw [Frame.current,open_names,Option.none_or] at current
      obtain ⟨rfl,-⟩ := Option.filter_eq_some_iff.mp current
      have any : ¬ names.any (fun walk => decide (walk.point ≠ .ended)) = true := by
        cases names with
        | none => simp
        | some first => simpa using open_names
      refine ⟨names.toList,[],rfl,fun point walk' => ?_⟩
      rw [Frame.leave,Frame.setCurrent,Frame.setCurrent,if_neg any,if_neg any]
      exact ⟨rfl,rfl⟩

/-- A function that has come to its end stands on no block. -/
theorem finished_held (nothing : frame.current = none) : ∀ walk ∈ frame.walks, walk.point.el = none := by
  intro walk member
  cases frame with
  | clearHandlersWithTag tag walks =>
    obtain rfl : walks = [] := List.head?_eq_none_iff.mp nothing
    cases member
  | callName names types call_type_handler =>
    obtain ⟨none_names,none_types⟩ := Option.or_eq_none_iff.mp nothing
    rcases List.mem_append.mp member with named | typed
    · obtain rfl := Option.mem_toList.mp named
      have at_end : walk.point = .ended := by simpa using none_names
      rw [at_end]
      rfl
    · obtain rfl := Option.mem_toList.mp typed
      cases point : walk.point with
      | entry | ended => rfl
      | block el | element el one => simp [point] at none_types

/-- What the body does next, by where the loop stands. -/
theorem task_cases (current : frame.current = some walk) :
    (∃ el, walk.point = .block el ∧ frame.task walk.point = .getElement el) ∨
    (∃ el element, walk.point = .element el (some element) ∧ frame.task walk.point = .removeFromList element) ∨
    (∃ tag walks, frame = .clearHandlersWithTag tag (walk :: walks) ∧ walk.point = .ended ∧ frame.task walk.point = .look) ∨
    (walk.point = .entry ∨ ∃ el element, walk.point = .element el element) ∧ frame.task walk.point = .fetch := by
  cases point : walk.point with
  | entry => exact .inr (.inr (.inr ⟨.inl rfl,by cases frame <;> rfl⟩))
  | block el => exact .inl ⟨el,rfl,by cases frame <;> rfl⟩
  | element el element =>
    cases frame with
    | callName names types call_type_handler => exact .inr (.inr (.inr ⟨.inr ⟨el,element,rfl⟩,by cases element <;> rfl⟩))
    | clearHandlersWithTag tag walks =>
      cases element with
      | none => exact .inr (.inr (.inr ⟨.inr ⟨el,none,rfl⟩,rfl⟩))
      | some one => exact .inr (.inl ⟨el,one,rfl,rfl⟩)
  | ended =>
    cases frame with
    | clearHandlersWithTag tag walks =>
      obtain ⟨rest,rfl⟩ := List.head?_eq_some_iff.mp current
      exact .inr (.inr (.inl ⟨tag,rest,rfl,rfl,rfl⟩))
    | callName names types call_type_handler =>
      rcases Option.or_eq_some_iff.mp current with named | ⟨-,typed⟩
      · obtain ⟨-,goes_on⟩ := Option.filter_eq_some_iff.mp named
        simp [point] at goes_on
      · obtain ⟨-,goes_on⟩ := Option.filter_eq_some_iff.mp typed
        simp [point] at goes_on

end frames

/-! ### Steps -/

/-- What a thread can do. -/
inductive Acted (w w' : World) : Nat × Action → Prop
  | released (t : Nat) (frames : List Frame) (release : Release) (releases : List Release)
      (here : w.threads[t]? = some ⟨frames,release :: releases⟩) (changed : w' = w.release t ⟨frames,releases⟩ release) :
      Acted w w' (t,.proceed)
  | finished (t : Nat) (frame : Frame) (frames : List Frame) (here : w.threads[t]? = some ⟨frame :: frames,[]⟩)
      (nothing : frame.current = none) (changed : w' = w.finish t frame frames) : Acted w w' (t,.proceed)
  | performed (t : Nat) (frame : Frame) (frames : List Frame) (walk : Walk) (here : w.threads[t]? = some ⟨frame :: frames,[]⟩)
      (current : frame.current = some walk) (changed : w' = w.perform t frame frames walk (frame.task walk.point)) :
      Acted w w' (t,.proceed)
  | added (t : Nat) (source : Source) (tag : Tag) (skip_type_handler : Bool)
      (changed : w' = w.setMap (w.map.addHandler source tag skip_type_handler).1) :
      Acted w w' (t,.addHandler source tag skip_type_handler)
  | cleared (t : Nat) (frames : List Frame) (tag : Tag) (here : w.threads[t]? = some ⟨frames,[]⟩)
      (changed : w' = (w.setThread t ⟨.clearHandlersWithTag tag (entries w.map) :: frames,[]⟩).setLock (some t)) :
      Acted w w' (t,.clearHandlersWithTag tag)
  | called (t : Nat) (frames : List Frame) (key : Key) (key_name : TypeIndex) (here : w.threads[t]? = some ⟨frames,[]⟩)
      (changed : w' = w.setThread t ⟨w.call key key_name :: frames,[]⟩) : Acted w w' (t,.callName key key_name)
  | removed (t : Nat) (frames : List Frame) (callers : CallersPtr) (element : Caller) (here : w.threads[t]? = some ⟨frames,[]⟩)
      (made : (w.map.heap.lists callers).m_base.isSome) (changed : w' = w.remove t callers element frames) :
      Acted w w' (t,.removeFromList callers element)

section steps
variable {w w' : World} {t : Nat}

theorem step_acted {action : Nat × Action} (stepped : step w action = some w') : Acted w w' action := by
  obtain ⟨t,action⟩ := action
  obtain ⟨⟨frames,releases⟩,here,acted⟩ := Option.bind_eq_some_iff.mp stepped
  have free_releases : Thread.free ⟨frames,releases⟩ = true → releases = [] := by
    intro free
    exact List.isEmpty_iff.mp (Bool.and_eq_true_iff.mp free).1
  cases action with
  | proceed =>
    change World.proceed w t ⟨frames,releases⟩ = some w' at acted
    cases releases with
    | cons release rest => exact .released t frames release rest here (Option.some.inj acted).symm
    | nil =>
      cases frames with
      | nil => cases acted
      | cons frame others =>
        cases current : frame.current with
        | some walk =>
          simp only [World.proceed,current,Option.some.injEq] at acted
          exact .performed t frame others walk here current acted.symm
        | none =>
          simp only [World.proceed,current,Option.some.injEq] at acted
          exact .finished t frame others here current acted.symm
  | addHandler source tag skip_type_handler =>
    obtain ⟨-,same⟩ := Option.ite_none_right_eq_some.mp acted
    obtain rfl := Option.some.inj same
    exact .added t source tag skip_type_handler rfl
  | clearHandlersWithTag tag =>
    obtain ⟨⟨free,-⟩,same⟩ := Option.ite_none_right_eq_some.mp acted
    obtain rfl := Option.some.inj same
    obtain rfl := free_releases free
    exact .cleared t frames tag here rfl
  | callName key key_name =>
    obtain ⟨⟨free,-⟩,same⟩ := Option.ite_none_right_eq_some.mp acted
    obtain rfl := Option.some.inj same
    obtain rfl := free_releases free
    exact .called t frames key key_name here rfl
  | removeFromList callers element =>
    obtain ⟨⟨free,made⟩,same⟩ := Option.ite_none_right_eq_some.mp acted
    obtain rfl := Option.some.inj same
    obtain rfl := free_releases free
    exact .removed t frames callers element here made rfl

/-! ### The lists stay in order -/

variable {heap : Heap} {threads : List Thread} {thread thread' : Thread} {frame frame' : Frame} {frames : List Frame} {walk walk' : Walk} {i : CallersPtr}

theorem Made.thinned {kept : CallersPtr → Caller → Bool} {heap' : Heap} (made : Made heap walk) (thinned : Thinned kept heap heap') :
    Made heap' walk := by
  refine ⟨?_,(congrFun thinned.sources walk.callers).trans made.mine⟩
  rw [thinned.bases]
  exact made.list

theorem update_gains (held : CallersPtr → List Address) (i j : CallersPtr) (extra : List Address) :
    Function.update held i (extra ++ held i) j = (if j = i then extra else []) ++ held j := by
  rcases eq_or_ne j i with rfl | other
  · rw [Function.update_self,if_pos rfl]
  · rw [Function.update_of_ne other,if_neg other,List.nil_append]

/-- A loop of a thread is replaced, and pointers go out of scope. -/
theorem frame_gains {before rest : List Walk} {releases : List Release} {extra : List Address}
    (split : frame.walks = before ++ walk :: rest) (split' : frame'.walks = before ++ walk' :: rest)
    (gains : (walk'.held i ++ releases.flatMap (Release.held i)).Perm (extra ++ walk.held i)) :
    (Thread.held i ⟨frame' :: frames,releases⟩).Perm (extra ++ Thread.held i ⟨frame :: frames,[]⟩) := by
  refine List.perm_iff_count.mpr fun a => ?_
  have counted := gains.count_eq a
  simp only [List.count_append] at counted
  simp only [Thread.held,Thread.walks,List.flatMap_cons,split,split',List.flatMap_append,List.count_append,List.flatMap_nil,
    List.count_nil]
  omega

theorem walks_set {P : Walk → Prop} (all : ∀ walk ∈ walksOf threads, P walk)
    (new : ∀ walk ∈ thread'.walks, P walk) : ∀ walk ∈ walksOf (threads.set t thread'), P walk := by
  intro walk member
  obtain ⟨one,inside,mine⟩ := List.mem_flatMap.mp member
  rcases List.mem_or_eq_of_mem_set inside with old | rfl
  · exact all walk (List.mem_flatMap.mpr ⟨one,old,mine⟩)
  · exact new walk mine

/-- The loops of the frames that a thread is in. -/
theorem walks_here {P : Walk → Prop} (all : ∀ walk ∈ walksOf threads, P walk)
    (here : threads[t]? = some thread) : ∀ walk ∈ thread.walks, P walk :=
  fun walk mine => all walk (List.mem_flatMap.mpr ⟨thread,List.mem_of_getElem? here,mine⟩)

theorem walks_current {P : Walk → Prop} {before rest : List Walk} {releases : List Release}
    (all : ∀ walk ∈ Thread.walks ⟨frame :: frames,[]⟩, P walk) (split : frame.walks = before ++ walk :: rest)
    (split' : frame'.walks = before ++ walk' :: rest) (new : P walk') : ∀ walk ∈ Thread.walks ⟨frame' :: frames,releases⟩, P walk := by
  intro one member
  rw [Thread.walks,List.flatMap_cons,split] at all
  rw [Thread.walks,List.flatMap_cons,split'] at member
  simp only [List.mem_append,List.mem_cons] at all member
  rcases member with (early | rfl | late) | lower
  · exact all one (.inl (.inl early))
  · exact new
  · exact all one (.inl (.inr (.inr late)))
  · exact all one (.inr lower)

/-- An access to one list. -/
theorem inv_thinned {kept : CallersPtr → Caller → Bool} {held dying : CallersPtr → List Address} (inv : Inv w)
    (heap_inv : HeapInv heap held dying) (thinned : Thinned kept w.map.heap heap)
    (references : ∀ j, (held j).Perm (heldBy w'.threads j)) (destroyed : ∀ j, (dying j).Perm (dyingBy w'.threads j))
    (made : ∀ walk ∈ walksOf w'.threads, Made w.map.heap walk)
    (map : w'.map = ⟨w.map.m_name_procs,w.map.m_type_procs,heap⟩) : Inv w' := by
  have still : ∀ i, (w.map.heap.lists i).m_base.isSome → (heap.lists i).m_base.isSome ∧ heap.made_for i = w.map.heap.made_for i :=
    fun i made => ⟨thinned.bases i ▸ made,congrFun thinned.sources i⟩
  refine ⟨?_,fun walk member => ?_⟩
  · rw [map]
    exact ⟨heap_inv.perm references destroyed,inv.map.names.mono still,inv.map.types.mono still⟩
  · rw [map]
    exact (made walk member).thinned thinned

/-- The same with a thread that then has more references of the list. -/
theorem inv_gained {kept : CallersPtr → Caller → Bool} {extra : List Address} (inv : Inv w) (here : w.threads[t]? = some thread)
    (heap_inv : HeapInv heap (Function.update (heldBy w.threads) i (extra ++ heldBy w.threads i)) (dyingBy w.threads))
    (thinned : Thinned kept w.map.heap heap) (gains : ∀ j, (thread'.held j).Perm ((if j = i then extra else []) ++ thread.held j))
    (dies : ∀ j, thread'.dying j = thread.dying j) (made : ∀ walk ∈ thread'.walks, Made w.map.heap walk)
    (map : w'.map = ⟨w.map.m_name_procs,w.map.m_type_procs,heap⟩) (threads : w'.threads = w.threads.set t thread') : Inv w' := by
  refine inv_thinned inv heap_inv thinned (fun j => ?_) (fun j => ?_) ?_ map
  · rw [update_gains,threads]
    exact (set_gains here (gains j)).symm
  · have same : (thread'.dying j).Perm ([] ++ thread.dying j) := by
      rw [dies j]
      exact List.Perm.refl _
    rw [threads]
    exact (set_gains here same).symm
  · rw [threads]
    exact walks_set inv.walks made

theorem thinned_refl (heap : Heap) : Thinned (fun _ _ => true) heap heap :=
  ⟨rfl,rfl,fun _ => rfl,fun _ => pruned_all fun _ _ => rfl⟩

@[simp] theorem forget_callers (callers : CallersPtr) (caller : Caller) (walk : Walk) :
    (walk.forget callers caller).callers = walk.callers := by
  unfold Walk.forget
  split <;> rfl
@[simp] theorem forget_source (callers : CallersPtr) (caller : Caller) (walk : Walk) :
    (walk.forget callers caller).source = walk.source := by
  unfold Walk.forget
  split <;> rfl
@[simp] theorem forget_point (callers : CallersPtr) (caller : Caller) (walk : Walk) :
    (walk.forget callers caller).point = walk.point := by
  unfold Walk.forget
  split <;> rfl

theorem map_walks (f : Walk → Walk) (frame : Frame) : (frame.map f).walks = frame.walks.map f := by
  cases frame with
  | callName names types call_type_handler => cases names <;> cases types <;> rfl
  | clearHandlersWithTag tag walks => rfl

theorem forget_walks (callers : CallersPtr) (caller : Caller) (threads : List Thread) :
    walksOf (threads.map fun thread => ⟨thread.frames.map (Frame.map (Walk.forget callers caller)),thread.releases⟩) =
      (walksOf threads).map (Walk.forget callers caller) := by
  simp [walksOf,Thread.walks,List.flatMap_map,List.map_flatMap,map_walks]

theorem forget_held (callers j : CallersPtr) (caller : Caller) (thread : Thread) :
    Thread.held j ⟨thread.frames.map (Frame.map (Walk.forget callers caller)),thread.releases⟩ = thread.held j := by
  have walks : (thread.frames.map (Frame.map (Walk.forget callers caller))).flatMap Frame.walks =
      thread.walks.map (Walk.forget callers caller) := by simp [Thread.walks,List.flatMap_map,List.map_flatMap,map_walks]
  rw [Thread.held,Thread.held,Thread.walks,walks,List.flatMap_map]
  refine congrArg (· ++ _) (List.flatMap_congr fun walk _ => ?_)
  simp [Walk.held]

/-- No reference changes when loops stop waiting for a handler. -/
theorem inv_forget (inv : Inv w) (callers : CallersPtr) (caller : Caller) : Inv (w.forget callers caller) := by
  have held : heldBy (w.forget callers caller).threads = heldBy w.threads := by
    funext j
    rw [heldBy,World.forget,List.flatMap_map]
    exact List.flatMap_congr fun thread _ => forget_held callers j caller thread
  have dying : dyingBy (w.forget callers caller).threads = dyingBy w.threads := by
    funext j
    rw [dyingBy,World.forget,List.flatMap_map]
    rfl
  refine ⟨?_,fun walk member => ?_⟩
  · rw [held,dying]
    exact inv.map
  · change walk ∈ walksOf (w.threads.map _) at member
    rw [forget_walks] at member
    obtain ⟨before,inside,rfl⟩ := List.mem_map.mp member
    obtain ⟨list,mine⟩ := inv.walks before inside
    refine ⟨?_,?_⟩
    · rw [forget_callers]
      exact list
    · rw [forget_callers,forget_source]
      exact mine

theorem drops_held (callers j : CallersPtr) (cb : Option Address) :
    (cb.toList.map (Release.drop callers)).flatMap (Release.held j) = if j = callers then cb.toList else [] := by
  cases cb with
  | none => simp
  | some b => simp [Release.held,eq_comm]

theorem drops_dying (callers j : CallersPtr) (cb : Option Address) :
    (cb.toList.map (Release.drop callers)).flatMap (Release.dying j) = [] := by
  cases cb <;> rfl

/-- `RemoveFromList`. -/
theorem inv_remove {frames' : List Frame} {callers : CallersPtr} (inv : Inv w) (here : w.threads[t]? = some ⟨frames,[]⟩)
    (made : (w.map.heap.lists callers).m_base.isSome) (element : Caller)
    (same : ∀ j, (frames'.flatMap Frame.walks).flatMap (Walk.held j) = (frames.flatMap Frame.walks).flatMap (Walk.held j))
    (walks : ∀ walk ∈ frames'.flatMap Frame.walks, Made w.map.heap walk) : Inv (w.remove t callers element frames') := by
  obtain ⟨heap_inv,thinned⟩ := inv.map.heap.removeLocked made element
  refine inv_forget ?_ callers element
  let thread' : Thread := ⟨frames',((w.map.heap.lists callers).removeFromListLocked element).1.cb.toList.map (.drop callers)⟩
  have gains : ∀ j, (thread'.held j).Perm
      ((if j = callers then ((w.map.heap.lists callers).removeFromListLocked element).1.cb.toList else []) ++
        Thread.held j ⟨frames,[]⟩) := by
    intro j
    rw [Thread.held,Thread.held,drops_held,Thread.walks,Thread.walks,same j,List.flatMap_nil,List.append_nil]
    exact List.perm_append_comm
  exact inv_gained inv here heap_inv thinned gains (fun j => drops_dying ..) walks rfl rfl

/-- `Front` and `GetNext`. -/
theorem inv_fetch {extra : Option Address} {el : Option Address} (inv : Inv w) (here : w.threads[t]? = some thread)
    (made : (w.map.heap.lists i).m_base.isSome) (holds : ∀ b, el = some b → b ∈ heldBy w.threads i)
    (found : (nextBlock (w.map.heap.lists i) el).1 = extra)
    (gains : ∀ j, (thread'.held j).Perm ((if j = i then extra.toList else []) ++ thread.held j))
    (dies : ∀ j, thread'.dying j = thread.dying j) (walks : ∀ walk ∈ thread'.walks, Made w.map.heap walk) :
    Inv ((w.fetch i el).2.setThread t thread') := by
  obtain ⟨heap_inv,thinned,-⟩ := inv.map.heap.next made holds
  rw [found] at heap_inv
  exact inv_gained inv here heap_inv thinned gains dies walks rfl rfl

theorem held_here {b : Address} (here : threads[t]? = some thread) (holds : b ∈ thread.held i) :
    b ∈ heldBy threads i := List.mem_flatMap.mpr ⟨thread,List.mem_of_getElem? here,holds⟩

theorem walk_held (member : walk ∈ walksOf threads) : ∀ b, walk.point.el = some b → b ∈ heldBy threads walk.callers := by
  intro b stands
  obtain ⟨thread,inside,mine⟩ := List.mem_flatMap.mp member
  refine List.mem_flatMap.mpr ⟨thread,inside,List.mem_append_left _ (List.mem_flatMap.mpr ⟨walk,mine,?_⟩)⟩
  rw [Walk.held,if_pos rfl,stands]
  exact List.mem_cons_self

theorem current_member (here : threads[t]? = some ⟨frame :: frames,[]⟩) (current : frame.current = some walk) :
    walk ∈ walksOf threads := by
  obtain ⟨before,rest,split,-⟩ := current_split current
  refine List.mem_flatMap.mpr ⟨_,List.mem_of_getElem? here,?_⟩
  rw [Thread.walks,List.flatMap_cons,split]
  exact List.mem_append_left _ (List.mem_append_right _ List.mem_cons_self)

/-- The loop that goes on has a list, and holds the block where it stands. -/
theorem current_here (inv : Inv w) (here : w.threads[t]? = some ⟨frame :: frames,[]⟩) (current : frame.current = some walk) :
    Made w.map.heap walk ∧ ∀ b, walk.point.el = some b → b ∈ heldBy w.threads walk.callers :=
  ⟨inv.walks walk (current_member here current),walk_held (current_member here current)⟩

/-- `!callers.Front()` finds a block, or the entry is erased. -/
theorem look_cases (w : World) (t : Nat) (frame : Frame) (frames : List Frame) (walk : Walk) :
    (∃ cb, (w.fetch walk.callers none).1 = some cb ∧ w.perform t frame frames walk .look =
      (w.fetch walk.callers none).2.setThread t ⟨frame.nextEntry :: frames,[.drop walk.callers cb]⟩) ∨
    (w.fetch walk.callers none).1 = none ∧ w.perform t frame frames walk .look =
      ((w.fetch walk.callers none).2.eraseEntry walk.source (w.map.heap.live walk.callers)).setThread t
        ⟨frame.nextEntry :: frames,[]⟩ := by
  unfold World.perform
  cases found : w.fetch walk.callers none with
  | mk el w₁ =>
    cases el with
    | some cb => exact .inl ⟨cb,rfl,rfl⟩
    | none => exact .inr ⟨rfl,rfl⟩

/-- An entry less. -/
theorem inv_eraseEntry (inv : Inv w) (source : Source) (handlers : List Caller) : Inv (w.eraseEntry source handlers) := by
  obtain ⟨heap_inv,names,types⟩ := inv.map
  cases source with
  | name key => exact ⟨⟨heap_inv,names.filter _,types⟩,inv.walks⟩
  | type key_name => exact ⟨⟨heap_inv,names,types.filter _⟩,inv.walks⟩

theorem inv_look (inv : Inv w) (here : w.threads[t]? = some ⟨frame :: frames,[]⟩) {tag : Tag} {walks : List Walk}
    (clearing : frame = .clearHandlersWithTag tag (walk :: walks)) (ended : walk.point = .ended) :
    Inv (w.perform t frame frames walk .look) := by
  subst clearing
  have all := walks_here inv.walks here
  have made := all walk (List.mem_append_left _ List.mem_cons_self)
  have walks_left : ∀ one ∈ (walks ++ frames.flatMap Frame.walks), Made w.map.heap one := by
    intro one member
    refine all one ?_
    rcases List.mem_append.mp member with mine | lower
    · exact List.mem_append_left _ (List.mem_cons_of_mem walk mine)
    · exact List.mem_append_right _ lower
  -- the loop that is left stands on no block
  have gains : ∀ j (cb : Option Address), (Thread.held j ⟨.clearHandlersWithTag tag walks :: frames,
      cb.toList.map (.drop walk.callers)⟩).Perm ((if j = walk.callers then cb.toList else []) ++
        Thread.held j ⟨.clearHandlersWithTag tag (walk :: walks) :: frames,[]⟩) := by
    intro j cb
    have nothing : Walk.held j walk = [] := by
      rw [Walk.held,ended]
      split <;> rfl
    rw [Thread.held,Thread.held,drops_held]
    change ((walks ++ frames.flatMap Frame.walks).flatMap (Walk.held j) ++ _).Perm
      (_ ++ ((walk :: (walks ++ frames.flatMap Frame.walks)).flatMap (Walk.held j) ++ []))
    rw [List.flatMap_cons,nothing,List.nil_append,List.append_nil]
    exact List.perm_append_comm
  have no_block : ∀ b, (none : Option Address) = some b → b ∈ heldBy w.threads walk.callers := fun b null => by cases null
  rcases look_cases w t (.clearHandlersWithTag tag (walk :: walks)) frames walk with ⟨cb,found,looked⟩ | ⟨null,looked⟩
  · rw [looked]
    exact inv_fetch inv here made.list no_block found (fun j => gains j (some cb)) (fun j => rfl) walks_left
  · rw [looked]
    have fetched := inv_fetch inv here made.list no_block null (fun j => gains j none) (fun j => rfl) walks_left
    exact inv_eraseEntry fetched walk.source (w.map.heap.live walk.callers)

theorem inv_perform (inv : Inv w) (here : w.threads[t]? = some ⟨frame :: frames,[]⟩) (current : frame.current = some walk) :
    Inv (w.perform t frame frames walk (frame.task walk.point)) := by
  obtain ⟨before,rest,split,replaced⟩ := current_split current
  obtain ⟨⟨list,source⟩,stands⟩ := current_here inv here current
  have all := walks_here inv.walks here
  rcases task_cases current with ⟨el,point,task⟩ | ⟨el,element,point,task⟩ | ⟨tag,walks,clearing,ended,task⟩ | ⟨point,task⟩
  · rw [task]
    let element := ((w.map.heap.lists walk.callers).getElement el).filter (frame.takes walk)
    let walk' : Walk := ⟨walk.source,walk.callers,.element el element,walk.due.filter fun caller => some caller ≠ element⟩
    have split' := (replaced .entry walk').2
    have heap_inv := inv.map.heap
    rw [← Function.update_eq_self walk.callers (heldBy w.threads)] at heap_inv
    have same : ∀ j, walk'.held j = walk.held j := by
      intro j
      rw [Walk.held,Walk.held,point]
      rfl
    have gains : ∀ j, (Thread.held j ⟨frame.setCurrent walk' :: frames,[]⟩).Perm
        ((if j = walk.callers then [] else []) ++ Thread.held j ⟨frame :: frames,[]⟩) := by
      intro j
      rw [ite_self]
      refine frame_gains split split' ?_
      rw [same j]
      exact List.perm_append_comm
    exact inv_gained inv here heap_inv (thinned_refl _) gains (fun j => rfl) (walks_current all split split' ⟨list,source⟩) rfl rfl
  · rw [task]
    let walk' : Walk := ⟨walk.source,walk.callers,walk.point.el.elim .ended fun el => .element el none,walk.due⟩
    have split' := (replaced .entry walk').2
    have same : ∀ j, walk'.held j = walk.held j := by
      intro j
      rw [Walk.held,Walk.held,point]
      change (if walk.callers = j then Option.toList (Point.el (Option.elim walk.point.el _ _)) else []) = _
      rw [point]
      rfl
    have walks : ∀ one ∈ Thread.walks ⟨frame.setCurrent walk' :: frames,[]⟩, Made w.map.heap one :=
      walks_current all split split' ⟨list,source⟩
    refine inv_remove inv here list element (fun j => ?_) walks
    rw [List.flatMap_cons,List.flatMap_cons,split,split']
    simp only [List.flatMap_append,List.flatMap_cons,same]
  · rw [task]
    exact inv_look inv here clearing ended
  · rw [task]
    let el := (nextBlock (w.map.heap.lists walk.callers) walk.point.el).1
    let walk' : Walk := ⟨walk.source,walk.callers,.ofNext el,walk.due⟩
    have split' := (replaced walk.point walk').1
    have still : (Point.ofNext el).el = el := by cases el <;> rfl
    refine inv_fetch inv here list stands rfl (fun j => ?_) (fun j => drops_dying ..)
      (walks_current all split split' ⟨list,source⟩)
    refine frame_gains split split' ?_
    rw [drops_held,Walk.held,Walk.held]
    change ((if walk.callers = j then (Point.ofNext el).el.toList else []) ++ _).Perm _
    rw [still]
    by_cases same : j = walk.callers
    · rw [if_pos same.symm,if_pos same,if_pos same,if_pos same.symm]
    · rw [if_neg (Ne.symm same),if_neg same,if_neg same,if_neg (Ne.symm same)]

/-- What all lose when one member loses it. -/
theorem erase_lost {held held' : CallersPtr → List Address} {b : Address}
    (loses : ∀ j, (held j).Perm ((if j = i then [b] else []) ++ held' j)) (j : CallersPtr) :
    (Function.update held i ((held i).erase b) j).Perm (held' j) := by
  have lost := loses j
  rcases eq_or_ne j i with rfl | other
  · rw [if_pos rfl] at lost
    rw [Function.update_self]
    have erased := lost.erase b
    rwa [List.singleton_append,List.erase_cons_head] at erased
  · rw [if_neg other] at lost
    rw [Function.update_of_ne other]
    exact lost

theorem drop_held {callers : CallersPtr} {cb : Address} {releases : List Release}
    (here : threads[t]? = some ⟨frames,.drop callers cb :: releases⟩) : cb ∈ heldBy threads callers :=
  held_here here (List.mem_append_right _ (by simp [Release.held]))

theorem dtor_dies {callers : CallersPtr} {cb : Address} {releases : List Release}
    (here : threads[t]? = some ⟨frames,.dtor callers cb :: releases⟩) : cb ∈ dyingBy threads callers :=
  List.mem_flatMap.mpr ⟨_,List.mem_of_getElem? here,by simp [Thread.dying,Release.dying]⟩

/-- A reference is let go, or a block is destroyed. -/
theorem inv_release {release : Release} {releases : List Release} (inv : Inv w)
    (here : w.threads[t]? = some ⟨frames,release :: releases⟩) : Inv (w.release t ⟨frames,releases⟩ release) := by
  have walks : ∀ walk ∈ walksOf (w.release t ⟨frames,releases⟩ release).threads, Made w.map.heap walk := by
    have mine : ∀ walk ∈ frames.flatMap Frame.walks, Made w.map.heap walk := walks_here inv.walks here
    cases release with
    | drop callers cb => exact walks_set inv.walks mine
    | dtor callers cb => exact walks_set inv.walks mine
  cases release with
  | drop callers cb =>
    obtain ⟨heap_inv,thinned⟩ := inv.map.heap.drop (drop_held here)
    let last := (((w.map.heap.lists callers).dropRef cb).blocks cb).use_count = 0
    let dtor := if last then [Release.dtor callers cb] else []
    have dtor_held : ∀ j, dtor.flatMap (Release.held j) = [] := by
      intro j
      by_cases gone : last
      · simp only [dtor,if_pos gone]
        rfl
      · simp only [dtor,if_neg gone]
        rfl
    have dtor_dying : ∀ j, dtor.flatMap (Release.dying j) = if j = callers then (if last then [cb] else []) else [] := by
      intro j
      by_cases gone : last
      · simp [dtor,if_pos gone,Release.dying,eq_comm]
      · simp [dtor,if_neg gone]
    refine inv_thinned inv heap_inv thinned (erase_lost fun j => set_loses here ?_) (fun j => ?_) walks rfl
    · rw [Thread.held,Thread.held,List.flatMap_append,dtor_held,List.flatMap_cons,Release.held,List.nil_append]
      simp only [eq_comm (a := callers)]
      exact List.perm_append_comm_assoc ..
    · have gains : (Thread.dying j ⟨frames,dtor ++ releases⟩).Perm ((if j = callers then (if last then [cb] else []) else []) ++
          Thread.dying j ⟨frames,.drop callers cb :: releases⟩) := by
        rw [Thread.dying,Thread.dying,List.flatMap_append,dtor_dying]
        exact List.Perm.refl _
      have changed : (dyingBy (w.threads.set t ⟨frames,dtor ++ releases⟩) j).Perm _ := set_gains here gains
      refine List.Perm.trans ?_ changed.symm
      rcases eq_or_ne j callers with rfl | other
      · rw [Function.update_self,if_pos rfl]
        by_cases gone : last
        · rw [if_pos gone,if_pos gone]
          exact List.Perm.refl _
        · rw [if_neg gone,if_neg gone]
          exact List.Perm.refl _
      · rw [Function.update_of_ne other,if_neg other]
        exact List.Perm.refl _
  | dtor callers cb =>
    obtain ⟨heap_inv,thinned⟩ := inv.map.heap.dtor (dtor_dies here)
    refine inv_thinned inv heap_inv thinned (fun j => ?_) (erase_lost fun j => set_loses here ?_) walks rfl
    · have same : (Thread.held j ⟨frames,releases⟩).Perm ([] ++ Thread.held j ⟨frames,.dtor callers cb :: releases⟩) :=
        List.Perm.refl _
      exact (set_gains here same).symm
    · simp only [eq_comm (a := j)]
      exact List.Perm.refl _

/-- Frames of a thread come and go that stand on no block. -/
theorem inv_frames {frames' : List Frame} (inv : Inv w) (here : w.threads[t]? = some ⟨frames,[]⟩)
    (same : ∀ j, (frames'.flatMap Frame.walks).flatMap (Walk.held j) = (frames.flatMap Frame.walks).flatMap (Walk.held j))
    (made : ∀ walk ∈ frames'.flatMap Frame.walks, Made w.map.heap walk) (map : w'.map = w.map)
    (threads : w'.threads = w.threads.set t ⟨frames',[]⟩) : Inv w' := by
  have heap_inv := inv.map.heap
  rw [← Function.update_eq_self 0 (heldBy w.threads)] at heap_inv
  have gains : ∀ j, (Thread.held j ⟨frames',[]⟩).Perm ((if j = 0 then [] else []) ++ Thread.held j ⟨frames,[]⟩) := by
    intro j
    rw [ite_self,Thread.held,Thread.held,Thread.walks,Thread.walks,same j]
    exact List.Perm.refl _
  exact inv_gained inv here heap_inv (thinned_refl _) gains (fun j => rfl) made map threads

/-- The function returns. -/
theorem inv_finish (inv : Inv w) (here : w.threads[t]? = some ⟨frame :: frames,[]⟩) (nothing : frame.current = none) :
    Inv (w.finish t frame frames) := by
  have same : ∀ j, (frames.flatMap Frame.walks).flatMap (Walk.held j) =
      ((frame :: frames).flatMap Frame.walks).flatMap (Walk.held j) := by
    intro j
    have off : frame.walks.flatMap (Walk.held j) = [] := by
      refine List.flatMap_eq_nil_iff.mpr fun walk member => ?_
      rw [Walk.held,finished_held nothing walk member]
      split <;> rfl
    rw [List.flatMap_cons,List.flatMap_append,off,List.nil_append]
  have made : ∀ walk ∈ frames.flatMap Frame.walks, Made w.map.heap walk :=
    fun walk lower => walks_here inv.walks here walk (List.mem_append_right _ lower)
  cases frame with
  | callName names types call_type_handler => exact inv_frames inv here same made rfl rfl
  | clearHandlersWithTag tag walks => exact inv_frames inv here same made rfl rfl

/-- A function begins with loops that stand before their lists. -/
theorem inv_enter (inv : Inv w) (here : w.threads[t]? = some ⟨frames,[]⟩) (new : ∀ walk ∈ frame.walks, walk.point = .entry)
    (made : ∀ walk ∈ frame.walks, Made w.map.heap walk) (map : w'.map = w.map)
    (threads : w'.threads = w.threads.set t ⟨frame :: frames,[]⟩) : Inv w' := by
  refine inv_frames inv here (fun j => ?_) (fun walk member => ?_) map threads
  · have off : frame.walks.flatMap (Walk.held j) = [] := by
      refine List.flatMap_eq_nil_iff.mpr fun walk member => ?_
      rw [Walk.held,new walk member]
      split <;> rfl
    rw [List.flatMap_cons,List.flatMap_append,off,List.nil_append]
  · rcases List.mem_append.mp member with first | lower
    · exact made walk first
    · exact walks_here inv.walks here walk lower

/-- The loops of `RemoveTagFromMap_Locked` are over lists of the maps. -/
theorem entries_made (inv : Inv w) : ∀ walk ∈ entries w.map, Made w.map.heap walk ∧ walk.point = .entry := by
  intro walk member
  rcases List.mem_append.mp member with named | typed
  · obtain ⟨entry,inside,rfl⟩ := List.mem_map.mp named
    obtain ⟨made,mine⟩ := inv.map.names.made entry inside
    exact ⟨⟨made,mine⟩,rfl⟩
  · obtain ⟨entry,inside,rfl⟩ := List.mem_map.mp typed
    obtain ⟨made,mine⟩ := inv.map.types.made entry inside
    exact ⟨⟨made,mine⟩,rfl⟩

/-- So are the loops of `CallName`. -/
theorem call_walks {key : Key} {key_name : TypeIndex} (member : walk ∈ (w.call key key_name).walks) :
    ∃ source i, w.map.find source = some i ∧ walk = Walk.enter w.map.heap source i := by
  rcases List.mem_append.mp member with named | typed
  · obtain ⟨i,found,rfl⟩ := Option.map_eq_some_iff.mp (Option.mem_toList.mp named)
    exact ⟨.name key,i,found,rfl⟩
  · obtain ⟨i,found,rfl⟩ := Option.map_eq_some_iff.mp (Option.mem_toList.mp typed)
    exact ⟨.type key_name,i,found,rfl⟩

theorem inv_added (inv : Inv w) (source : Source) (tag : Tag) (skip_type_handler : Bool) :
    Inv (w.setMap (w.map.addHandler source tag skip_type_handler).1) := by
  obtain ⟨i,address,map,added,-⟩ := inv.map.addHandler source tag skip_type_handler
  refine ⟨map,fun walk member => ?_⟩
  obtain ⟨list,mine⟩ := inv.walks walk member
  obtain ⟨still,same⟩ := added.pushed.sources walk.callers list
  exact ⟨still,same.trans mine⟩

theorem step_inv : Preserves step Inv := by
  intro w action w' inv stepped
  cases step_acted stepped with
  | released t frames release releases here changed => exact changed ▸ inv_release inv here
  | finished t frame frames here nothing changed => exact changed ▸ inv_finish inv here nothing
  | performed t frame frames walk here current changed => exact changed ▸ inv_perform inv here current
  | added t source tag skip_type_handler changed => exact changed ▸ inv_added inv source tag skip_type_handler
  | cleared t frames tag here changed =>
    have made : ∀ walk ∈ Frame.walks (.clearHandlersWithTag tag (entries w.map)), Made w.map.heap walk ∧ walk.point = .entry :=
      entries_made inv
    subst changed
    exact inv_enter inv here (fun walk member => (made walk member).2) (fun walk member => (made walk member).1) rfl rfl
  | called t frames key key_name here changed =>
    subst changed
    refine inv_enter inv here (fun walk member => ?_) (fun walk member => ?_) rfl rfl
    · obtain ⟨source,i,found,rfl⟩ := call_walks member
      rfl
    · obtain ⟨source,i,found,rfl⟩ := call_walks member
      obtain ⟨made,mine⟩ := inv.map.found found
      exact ⟨made,mine⟩
  | removed t frames callers element here made changed =>
    subst changed
    exact inv_remove inv here made element (fun j => rfl) (walks_here inv.walks here)

end steps

theorem start_idle {n : Nat} {thread : Thread} (member : thread ∈ (World.start n).threads) : thread = {} :=
  (List.mem_replicate.mp member).2

theorem start_walks (n : Nat) : walksOf (World.start n).threads = [] := by
  refine List.flatMap_eq_nil_iff.mpr fun thread member => ?_
  rw [start_idle member]
  rfl

/-- Threads that have done nothing hold nothing. -/
theorem inv_start (n : Nat) : Inv (World.start n) := by
  have held : ∀ i, heldBy (World.start n).threads i = [] := by
    intro i
    refine List.flatMap_eq_nil_iff.mpr fun thread member => ?_
    rw [start_idle member]
    rfl
  have dying : ∀ i, dyingBy (World.start n).threads i = [] := by
    intro i
    refine List.flatMap_eq_nil_iff.mpr fun thread member => ?_
    rw [start_idle member]
    rfl
  refine ⟨⟨⟨fun i made => ?_,fun _ _ => rfl,fun i _ => ⟨held i,dying i⟩⟩,⟨List.Pairwise.nil,?_⟩,⟨List.Pairwise.nil,?_⟩⟩,?_⟩
  · cases made
  · intro entry member
    cases member
  · intro entry member
    cases member
  · intro walk member
    rw [start_walks] at member
    cases member

end IpcPortable.CallThreads
