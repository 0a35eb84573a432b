import IpcPortable.ThreadedLists
import Mathlib.Data.List.TakeWhile

/-!
`Front` and `GetNext` are null in the middle of a list where the next block has
lost its last owner and is still in the ring. Threads that never come to stand
before such a block miss no handler, and erase no entry that has one.
-/
namespace IpcPortable.CallThreads
open IpcPortable.Runs IpcPortable.CallbackLists IpcPortable.ListShape IpcPortable.EventHandlerMaps IpcPortable.HandlerLists

section nulls
variable {w w' : World} {action : Nat × Action}

/-- No handler stands behind a null pointer. -/
def World.NullsRight (w : World) : Prop := ∀ following ∈ w.nulls, following = []

/-- A step that fetches notes what stands behind a null pointer, and no other one does. -/
theorem step_nulls (inv : Inv w) (acted : Acted w w' action) :
    w.fetches action = none ∧ w'.nulls = w.nulls ∨
    ∃ i el, w.fetches action = some (i,el) ∧ (w.map.heap.lists i).m_base.isSome ∧ (∀ b, el = some b → b ∈ heldBy w.threads i) ∧
      w'.nulls = if (nextBlock (w.map.heap.lists i) el).1.isNone then followers w.map.heap i el :: w.nulls else w.nulls := by
  cases acted with
  | released t frames release releases here changed =>
    refine .inl ⟨by simp [World.fetches,here],?_⟩
    subst changed
    cases release with
    | drop callers cb | dtor callers cb => rfl
  | finished t frame frames here nothing changed =>
    refine .inl ⟨by simp [World.fetches,here,nothing],?_⟩
    subst changed
    cases frame with
    | callName names types call_type_handler | clearHandlersWithTag tag walks => rfl
  | performed t frame frames walk here current changed =>
    obtain ⟨⟨made,-⟩,holds⟩ := current_here inv here current
    subst changed
    rcases task_cases current with ⟨el,-,task⟩ | ⟨el,element,-,task⟩ | ⟨tag,walks,clearing,ended,task⟩ | ⟨point,task⟩
    · exact .inl ⟨by simp [World.fetches,here,current,task],by rw [task]; rfl⟩
    · exact .inl ⟨by simp [World.fetches,here,current,task],by rw [task]; rfl⟩
    · refine .inr ⟨walk.callers,none,by simp [World.fetches,here,current,task],made,?_,?_⟩
      · intro b null
        cases null
      rw [task]
      rcases look_cases w t frame frames walk with ⟨cb,-,looked⟩ | ⟨-,looked⟩
      · rw [looked]
        rfl
      · rw [looked]
        rfl
    · exact .inr ⟨walk.callers,walk.point.el,by simp [World.fetches,here,current,task],made,holds,by rw [task]; rfl⟩
  | added t source tag skip_type_handler changed => exact .inl ⟨rfl,changed ▸ rfl⟩
  | cleared t frames tag here changed => exact .inl ⟨rfl,changed ▸ rfl⟩
  | called t frames key key_name here changed => exact .inl ⟨rfl,changed ▸ rfl⟩
  | removed t frames callers element here made changed => exact .inl ⟨rfl,changed ▸ rfl⟩

/-- A step leaves all null pointers right if and only if the block it comes to has
    an owner, or nothing follows. -/
theorem nullsRight_step (inv : Inv w) (right : w.NullsRight) (stepped : step w action = some w') :
    w'.NullsRight ↔ w.Owned action := by
  rcases step_nulls inv (step_acted stepped) with ⟨nothing,same⟩ | ⟨i,el,fetches,made,holds,nulls⟩
  · have still : w'.NullsRight := by
      rw [World.NullsRight,same]
      exact right
    have owned : w.Owned action := by
      intro one fetched
      rw [nothing] at fetched
      cases fetched
    exact ⟨fun _ => owned,fun _ => still⟩
  · have owned : w.Owned action ↔ NextOwned w.map.heap i el := by simp [World.Owned,fetches]
    rw [owned]
    obtain ⟨-,-,⟨null,dead⟩ | ⟨c,rest,found,ahead,lives⟩⟩ := inv.map.heap.next made holds
    · rw [null,Option.isNone_none,if_pos rfl] at nulls
      rw [World.NullsRight,nulls,List.forall_mem_cons]
      constructor
      · exact fun all _ _ _ => all.1
      · refine fun next => ⟨?_,right⟩
        cases first : (behind w.map.heap i el).head? with
        | none =>
          rw [followers,List.head?_eq_none_iff.mp first]
          rfl
        | some c => exact next c first (dead c first)
    · rw [found,if_neg (by simp)] at nulls
      have next : NextOwned w.map.heap i el := by
        intro d first gone
        rw [ahead] at first
        obtain rfl := Option.some.inj first
        exact absurd gone lives
      have still : w'.NullsRight := by
        rw [World.NullsRight,nulls]
        exact right
      exact ⟨fun _ => next,fun _ => still⟩

/-- No null pointer of the run is wrong if and only if every step that fetches
    meets the condition. -/
theorem nullsRight_run (n : Nat) (actions : List (Nat × Action)) :
    (∀ before, before <+: actions → (run step (World.start n) before).NullsRight) ↔ Along step World.Owned (World.start n) actions :=
  along_iff step_inv (fun _ _ _ inv right stepped => nullsRight_step inv right stepped) (inv_start n)
    (fun _ member => (List.not_mem_nil member).elim) actions

end nulls

/-! ### What is ahead of a loop -/

/-- The blocks that a loop comes to. -/
def Walk.path (heap : Heap) (walk : Walk) : List Address :=
  match walk.point with
  | .entry => heap.ring walk.callers
  | .block el => after el (heap.ring walk.callers)
  | .element el _ => (after el (heap.ring walk.callers)).tail
  | .ended => []
def Walk.ahead (heap : Heap) (walk : Walk) : List Caller := elements (heap.lists walk.callers) (walk.path heap)
/-- The handlers that a loop is to call are ahead of it. -/
def Waits (heap : Heap) (walk : Walk) : Prop := walk.due ⊆ walk.ahead heap

section ahead
variable {heap heap' : Heap} {held dying : CallersPtr → List Address} {i : CallersPtr} {walk walk' : Walk} {w w' : World}

theorem ring_once (inv : HeapInv heap held dying) (i : CallersPtr) : (heap.ring i).Nodup := by
  cases based : (heap.lists i).m_base with
  | none =>
    rw [ring_unmade based]
    exact List.nodup_nil
  | some base => exact (inv.lists i (by rw [based]; rfl)).inv.shape.once

/-- The block where a loop stands is in the ring. -/
theorem walk_stands (inv : Inv w) (member : walk ∈ walksOf w.threads) :
    ∀ b, walk.point.el = some b → b ∈ w.map.heap.ring walk.callers := by
  intro b stands
  exact (inv.map.heap.lists walk.callers (inv.walks walk member).list).inv.inside b (walk_held member b stands)

theorem path_within (heap : Heap) (walk : Walk) : walk.path heap ⊆ heap.ring walk.callers := by
  unfold Walk.path
  cases walk.point with
  | entry => exact List.Subset.refl _
  | block el => exact after_subset el _
  | element el element => exact List.Subset.trans (List.tail_sublist _).subset (after_subset el _)
  | ended => exact List.nil_subset _

/-- Accesses keep what is ahead, but for what is removed. -/
theorem ahead_thinned {kept : CallersPtr → Caller → Bool} (once : (heap.ring walk.callers).Nodup) (thinned : Thinned kept heap heap')
    (stands : ∀ b, walk.point.el = some b → b ∈ heap'.ring walk.callers) :
    walk.ahead heap' = (walk.ahead heap).filter (kept walk.callers) := by
  have pruned := thinned.lists walk.callers
  unfold Walk.ahead Walk.path
  cases point : walk.point with
  | entry => exact pruned.elements_eq
  | block el => exact (pruned.after once (stands el (by rw [point]; rfl))).1
  | element el element => exact (pruned.after once (stands el (by rw [point]; rfl))).2.1
  | ended => rfl

theorem path_pushed {address : Address} (ring : heap'.ring walk.callers = heap.ring walk.callers ++ [address])
    (stands : ∀ b, walk.point.el = some b → b ∈ heap.ring walk.callers) : walk.path heap <+: walk.path heap' := by
  unfold Walk.path
  cases point : walk.point with
  | entry => exact ⟨_,ring.symm⟩
  | block el =>
    refine ⟨[address],?_⟩
    change after el _ ++ [address] = after el _
    rw [ring,after_append (stands el (by rw [point]; rfl))]
  | element el element =>
    have member := stands el (by rw [point]; rfl)
    have inside : after el (heap.ring walk.callers) ≠ [] := by
      intro nothing
      have skipped := List.dropWhile_eq_nil_iff.mp nothing el member
      simp at skipped
    refine ⟨[address],?_⟩
    change (after el _).tail ++ [address] = (after el _).tail
    rw [ring,after_append member,List.tail_append_of_ne_nil inside]
  | ended => exact List.nil_prefix

/-- A new handler is put behind the others. -/
theorem ahead_pushed {caller : Caller} {address : Address} (inv : HeapInv heap held dying)
    (pushed : Pushed heap heap' i caller address) (stands : ∀ b, walk.point.el = some b → b ∈ heap.ring walk.callers) :
    walk.ahead heap ⊆ walk.ahead heap' := by
  by_cases same : walk.callers = i
  · subst same
    obtain ⟨rest,path⟩ := path_pushed pushed.ring stands
    rw [Walk.ahead,Walk.ahead,← path,elements_append,pushed.kept _ (path_within heap walk)]
    exact List.subset_append_left ..
  · have list := pushed.others walk.callers same
    have ring := inv.ring_same list (Nat.le_trans pushed.grown.1 (Nat.le_of_lt pushed.grown.2))
    have path : walk.path heap' = walk.path heap := by rw [Walk.path,Walk.path,ring]
    rw [Walk.ahead,Walk.ahead,list,path]
    exact List.Subset.refl _

theorem Waits.thinned {kept : CallersPtr → Caller → Bool} (waits : Waits w.map.heap walk) (inv : Inv w) (inv' : Inv w')
    (member : walk ∈ walksOf w'.threads) (thinned : Thinned kept w.map.heap w'.map.heap)
    (spared : ∀ caller ∈ walk.due, kept walk.callers caller = true) : Waits w'.map.heap walk := by
  intro caller due
  rw [ahead_thinned (ring_once inv.map.heap _) thinned (walk_stands inv' member)]
  exact List.mem_filter.mpr ⟨waits due,spared caller due⟩

end ahead

/-! ### The loops of `CallName` -/

def Frame.calls : Frame → Bool
  | .callName _ _ _ => true
  | .clearHandlersWithTag _ _ => false
def Frame.loops (frame : Frame) : List Walk := if frame.calls then frame.walks else []
def loopsOf (threads : List Thread) : List Walk := threads.flatMap fun thread => thread.frames.flatMap Frame.loops
/-- No loop of a call has passed a handler that it is to call. -/
def Waiting (w : World) : Prop := ∀ walk ∈ loopsOf w.threads, Waits w.map.heap walk

section loops
variable {threads : List Thread} {t : Nat} {frame frame' : Frame} {frames frames' : List Frame} {releases : List Release}
  {walk walk' one : Walk}

theorem loops_walks (member : walk ∈ frame.loops) : walk ∈ frame.walks := by
  unfold Frame.loops at member
  split at member
  · exact member
  · cases member

theorem loopsOf_walks (member : walk ∈ loopsOf threads) : walk ∈ walksOf threads := by
  obtain ⟨thread,inside,mine⟩ := List.mem_flatMap.mp member
  obtain ⟨frame,active,here⟩ := List.mem_flatMap.mp mine
  exact List.mem_flatMap.mpr ⟨thread,inside,List.mem_flatMap.mpr ⟨frame,active,loops_walks here⟩⟩

theorem loops_here (here : threads[t]? = some ⟨frames,releases⟩) (member : walk ∈ frames.flatMap Frame.loops) :
    walk ∈ loopsOf threads :=
  List.mem_flatMap.mpr ⟨_,List.mem_of_getElem? here,member⟩

/-- The loops of a thread that changes its frames, and those of the others. -/
theorem loops_set {thread : Thread} (member : walk ∈ loopsOf (threads.set t thread)) :
    walk ∈ loopsOf threads ∨ walk ∈ thread.frames.flatMap Frame.loops := by
  obtain ⟨changed,inside,mine⟩ := List.mem_flatMap.mp member
  rcases List.mem_or_eq_of_mem_set inside with old | rfl
  · exact .inl (List.mem_flatMap.mpr ⟨changed,old,mine⟩)
  · exact .inr mine

/-- Nothing is new where the frames have no new loops. -/
theorem loops_fewer (here : threads[t]? = some ⟨frames,releases⟩) {releases' : List Release}
    (fewer : frames'.flatMap Frame.loops ⊆ frames.flatMap Frame.loops)
    (member : walk ∈ loopsOf (threads.set t ⟨frames',releases'⟩)) : walk ∈ loopsOf threads := by
  rcases loops_set member with old | new
  · exact old
  · exact loops_here here (fewer new)

@[simp] theorem calls_leave (frame : Frame) (point : Point) : (frame.leave point).calls = frame.calls := by
  cases frame <;> rfl
@[simp] theorem calls_setCurrent (frame : Frame) (walk : Walk) : (frame.setCurrent walk).calls = frame.calls := by
  cases frame with
  | clearHandlersWithTag tag walks => rfl
  | callName names types call_type_handler =>
    rw [Frame.setCurrent]
    split <;> rfl

/-- The loop that goes on is replaced among the loops of a call. -/
theorem loops_replaced (here : threads[t]? = some ⟨frame :: frames,[]⟩) (current : frame.current = some walk) (point : Point)
    (same : frame' = (frame.leave point).setCurrent walk' ∨ frame' = frame.setCurrent walk')
    (member : one ∈ loopsOf (threads.set t ⟨frame' :: frames,releases⟩)) :
    one ∈ loopsOf threads ∨ one = walk' ∧ frame.calls = true ∧ walk ∈ loopsOf threads := by
  obtain ⟨before,rest,split,replaced⟩ := current_split current
  obtain ⟨left,stayed⟩ := replaced point walk'
  have split' : frame'.walks = before ++ walk' :: rest := by
    rcases same with rfl | rfl
    · exact left
    · exact stayed
  have calls' : frame'.calls = frame.calls := by rcases same with rfl | rfl <;> simp
  have whole : ∀ other ∈ (frame :: frames).flatMap Frame.loops, other ∈ loopsOf threads := fun other => loops_here here
  rw [List.flatMap_cons] at whole
  rcases loops_set member with old | new
  · exact .inl old
  rcases List.mem_append.mp new with mine | lower
  · unfold Frame.loops at mine whole
    rw [calls',split'] at mine
    cases calls : frame.calls with
    | false => simp [calls] at mine
    | true =>
      rw [calls,if_pos rfl,List.mem_append,List.mem_cons] at mine
      rw [calls,if_pos rfl,split] at whole
      rcases mine with early | new | late
      · exact .inl (whole one (List.mem_append_left _ (List.mem_append_left _ early)))
      · exact .inr ⟨new,rfl,whole walk (List.mem_append_left _ (List.mem_append_right _ List.mem_cons_self))⟩
      · exact .inl (whole one (List.mem_append_left _ (List.mem_append_right _ (List.mem_cons_of_mem _ late))))
  · exact .inl (whole one (List.mem_append_right _ lower))

theorem loops_map (f : Walk → Walk) (frame : Frame) : (frame.map f).loops = frame.loops.map f := by
  cases frame with
  | callName names types call_type_handler => exact map_walks f (.callName names types call_type_handler)
  | clearHandlersWithTag tag walks => rfl

theorem forget_loops (callers : CallersPtr) (caller : Caller) (threads : List Thread) :
    loopsOf (threads.map fun thread => ⟨thread.frames.map (Frame.map (Walk.forget callers caller)),thread.releases⟩) =
      (loopsOf threads).map (Walk.forget callers caller) := by
  simp [loopsOf,List.flatMap_map,List.map_flatMap,loops_map]

theorem Waits.forget {heap : Heap} (waits : Waits heap walk) (callers : CallersPtr) (caller : Caller) :
    Waits heap (walk.forget callers caller) := by
  have ahead : (walk.forget callers caller).ahead heap = walk.ahead heap := by simp [Walk.ahead,Walk.path]
  rw [Waits,ahead]
  refine List.Subset.trans ?_ waits
  unfold Walk.forget
  split
  · exact List.filter_sublist.subset
  · exact List.Subset.refl _

/-- What a loop still waits for was not removed. -/
theorem forget_spared {callers : CallersPtr} {element caller : Caller} (due : caller ∈ (walk.forget callers element).due) :
    (if (walk.forget callers element).callers = callers then caller != element else true) = true := by
  rw [forget_callers]
  unfold Walk.forget at due
  split at due
  · next same =>
    rw [if_pos same]
    simpa using (List.mem_filter.mp due).2
  · next other => rw [if_neg other]

end loops

section waiting
variable {w w' : World} {t : Nat} {action : Nat × Action} {frame : Frame} {frames frames' : List Frame} {walk : Walk} {i : CallersPtr}

/-- Accesses that remove nothing. -/
theorem Waiting.thinned (waiting : Waiting w) (inv : Inv w) (inv' : Inv w')
    (thinned : Thinned (fun _ _ => true) w.map.heap w'.map.heap)
    (fewer : ∀ walk ∈ loopsOf w'.threads, walk ∈ loopsOf w.threads) : Waiting w' :=
  fun walk member => (waiting walk (fewer walk member)).thinned inv inv' (loopsOf_walks member) thinned fun _ _ => rfl

theorem release_thinned {release : Release} {releases : List Release} (inv : Inv w)
    (here : w.threads[t]? = some ⟨frames,release :: releases⟩) :
    Thinned (fun _ _ => true) w.map.heap (w.release t ⟨frames,releases⟩ release).map.heap := by
  cases release with
  | drop callers cb => exact (inv.map.heap.drop (drop_held here)).2
  | dtor callers cb => exact (inv.map.heap.dtor (dtor_dies here)).2

theorem waiting_release {release : Release} {releases : List Release} (waiting : Waiting w) (inv : Inv w)
    (here : w.threads[t]? = some ⟨frames,release :: releases⟩) : Waiting (w.release t ⟨frames,releases⟩ release) := by
  refine waiting.thinned inv (inv_release inv here) (release_thinned inv here) fun walk member => ?_
  cases release with
  | drop callers cb => exact loops_fewer here (List.Subset.refl _) member
  | dtor callers cb => exact loops_fewer here (List.Subset.refl _) member

theorem waiting_finish (waiting : Waiting w) (here : w.threads[t]? = some ⟨frame :: frames,[]⟩) :
    Waiting (w.finish t frame frames) := by
  have lower : frames.flatMap Frame.loops ⊆ (frame :: frames).flatMap Frame.loops := List.subset_append_right ..
  cases frame with
  | callName names types call_type_handler => exact fun walk member => waiting walk (loops_fewer here lower member)
  | clearHandlersWithTag tag walks => exact fun walk member => waiting walk (loops_fewer here lower member)

/-- No call waits for a handler that is removed. -/
theorem waiting_remove {callers : CallersPtr} {element : Caller} (waiting : Waiting w) (inv : Inv w)
    (here : w.threads[t]? = some ⟨frames,[]⟩) (made : (w.map.heap.lists callers).m_base.isSome)
    (fewer : frames'.flatMap Frame.loops ⊆ frames.flatMap Frame.loops) (inv' : Inv (w.remove t callers element frames')) :
    Waiting (w.remove t callers element frames') := by
  intro walk member
  have walks := loopsOf_walks member
  obtain ⟨-,thinned⟩ := inv.map.heap.removeLocked made element
  change walk ∈ loopsOf ((w.threads.set t _).map _) at member
  rw [forget_loops] at member
  obtain ⟨before,inside,rfl⟩ := List.mem_map.mp member
  have waits := waiting before (loops_fewer here fewer inside)
  exact Waits.thinned (waits.forget callers element) inv inv' walks thinned fun caller due => forget_spared due

/-- The loop takes what it is for from its block, so that the others are behind. -/
theorem waits_getElement {el : Address} (inv : Inv w) (member : walk ∈ walksOf w.threads) (point : walk.point = .block el)
    (waits : Waits w.map.heap walk) (names types : Option Walk) (call_type_handler : Bool) :
    let element := ((w.map.heap.lists walk.callers).getElement el).filter
      ((Frame.callName names types call_type_handler).takes walk)
    Waits w.map.heap ⟨walk.source,walk.callers,.element el element,walk.due.filter fun caller => some caller ≠ element⟩ := by
  intro element caller due
  obtain ⟨due,other⟩ := List.mem_filter.mp due
  obtain ⟨list,mine⟩ := inv.walks walk member
  have usable := inv.map.heap.lists walk.callers list
  have inside := walk_stands inv member el (by rw [point]; rfl)
  obtain ⟨front,back,split⟩ := List.append_of_mem inside
  have once := ring_once inv.map.heap walk.callers
  rw [split] at once
  have ahead := waits due
  rw [Walk.ahead,Walk.path,point] at ahead
  change caller ∈ elements _ (after el _) at ahead
  change caller ∈ elements _ (after el _).tail
  rw [split,after_split once] at ahead ⊢
  obtain ⟨b,one,holds⟩ := mem_elements.mp ahead
  rcases List.mem_cons.mp one with rfl | later
  · have typed := (usable.callers caller (mem_elements.mpr ⟨b,inside,holds⟩)).2
    rw [mine] at typed
    have taken : element = some caller := by
      change Option.filter _ _ = _
      rw [usable.inv.getElement_eq inside,holds,Option.filter_some]
      exact if_pos (decide_eq_true typed)
    simp [taken] at other
  · exact mem_elements.mpr ⟨b,later,holds⟩

/-- The next block is where the loop then stands. -/
theorem after_behind {el : Option Address} {heap : Heap} {c : Address} {rest : List Address} (once : (heap.ring i).Nodup)
    (inside : ∀ b, el = some b → b ∈ heap.ring i) (next : behind heap i el = c :: rest) : after c (heap.ring i) = c :: rest := by
  cases el with
  | none =>
    change heap.ring i = c :: rest at next
    have whole : after c ([] ++ c :: rest) = c :: rest := after_split (next ▸ once)
    rw [next]
    exact whole
  | some b =>
    obtain ⟨front,back,split⟩ := List.append_of_mem (inside b rfl)
    change (after b _).tail = _ at next
    rw [split,after_split (split ▸ once),List.tail_cons] at next
    rw [next,List.append_cons] at split
    rw [split]
    exact after_split (split ▸ once)

/-- A loop that comes to the next block has passed nothing, and one that comes to
    the end right has nothing to wait for. -/
theorem waits_fetch (waits : Waits w.map.heap walk) (inv : Inv w) (member : walk ∈ walksOf w.threads)
    (point : walk.point = .entry ∨ ∃ el element, walk.point = .element el element) (inv' : Inv w')
    (walks : ⟨walk.source,walk.callers,.ofNext (nextBlock (w.map.heap.lists walk.callers) walk.point.el).1,walk.due⟩ ∈ walksOf w'.threads)
    (thinned : Thinned (fun _ _ => true) w.map.heap w'.map.heap)
    (right : (nextBlock (w.map.heap.lists walk.callers) walk.point.el).1 = none → followers w.map.heap walk.callers walk.point.el = []) :
    Waits w'.map.heap ⟨walk.source,walk.callers,.ofNext (nextBlock (w.map.heap.lists walk.callers) walk.point.el).1,walk.due⟩ := by
  have ahead : walk.ahead w.map.heap = followers w.map.heap walk.callers walk.point.el := by
    rcases point with entry | ⟨el,element,stands⟩
    · simp only [Walk.ahead,Walk.path,entry]
      rfl
    · simp only [Walk.ahead,Walk.path,stands]
      rfl
  obtain ⟨-,-,⟨null,-⟩ | ⟨c,rest,found,next,-⟩⟩ := inv.map.heap.next (inv.walks walk member).list (walk_held member)
  · intro caller due
    have passed := waits due
    rw [ahead,right null] at passed
    cases passed
  · rw [found] at walks ⊢
    have here : Waits w.map.heap ⟨walk.source,walk.callers,.block c,walk.due⟩ := by
      intro caller due
      have passed := waits due
      rw [ahead,followers,next] at passed
      change caller ∈ elements _ (after c _)
      rw [after_behind (ring_once inv.map.heap _) (walk_stands inv member) next]
      exact passed
    exact here.thinned inv inv' walks thinned fun _ _ => rfl

theorem waiting_perform (waiting : Waiting w) (inv : Inv w) (here : w.threads[t]? = some ⟨frame :: frames,[]⟩)
    (current : frame.current = some walk) (right : (w.perform t frame frames walk (frame.task walk.point)).NullsRight) :
    Waiting (w.perform t frame frames walk (frame.task walk.point)) := by
  have inv' := inv_perform inv here current
  have mine := current_member here current
  obtain ⟨⟨list,source⟩,stands⟩ := current_here inv here current
  rcases task_cases current with ⟨el,point,task⟩ | ⟨el,element,point,task⟩ | ⟨tag,walks,clearing,ended,task⟩ | ⟨point,task⟩
  · rw [task]
    intro one member
    rcases loops_replaced here current .entry (.inr rfl) member with old | ⟨rfl,calls,active⟩
    · exact waiting one old
    · cases frame with
      | clearHandlersWithTag tag walks => cases calls
      | callName names types call_type_handler => exact waits_getElement inv mine point (waiting walk active) ..
  · rw [task] at inv' ⊢
    -- only a list that is cleared has something removed
    cases frame with
    | callName names types call_type_handler =>
      rw [point] at task
      cases task
    | clearHandlersWithTag tag walks =>
      exact waiting_remove waiting inv here list (List.Subset.refl _) inv'
  · rw [task] at inv' ⊢
    subst clearing
    have no_block : ∀ b, (none : Option Address) = some b → b ∈ heldBy w.threads walk.callers := fun b null => by cases null
    have thinned := (inv.map.heap.next list no_block).2.1
    have same : ((Frame.clearHandlersWithTag tag (walk :: walks)).nextEntry :: frames).flatMap Frame.loops ⊆
        (.clearHandlersWithTag tag (walk :: walks) :: frames).flatMap Frame.loops := List.Subset.refl _
    rcases look_cases w t (.clearHandlersWithTag tag (walk :: walks)) frames walk with ⟨cb,-,looked⟩ | ⟨-,looked⟩
    · rw [looked] at inv' ⊢
      exact waiting.thinned inv inv' thinned fun one member => loops_fewer here same member
    · rw [looked] at inv' ⊢
      refine waiting.thinned inv inv' ?_ fun one member => loops_fewer here same member
      cases source : walk.source with
      | name key => exact thinned
      | type key_name => exact thinned
  · rw [task] at inv' right ⊢
    have thinned := (inv.map.heap.next list stands).2.1
    have ends : (nextBlock (w.map.heap.lists walk.callers) walk.point.el).1 = none →
        followers w.map.heap walk.callers walk.point.el = [] := by
      intro null
      refine right _ ?_
      change _ ∈ (if (nextBlock (w.map.heap.lists walk.callers) walk.point.el).1.isNone then _ else w.nulls)
      rw [null,Option.isNone_none,if_pos rfl]
      exact List.mem_cons_self
    intro one member
    have walks := loopsOf_walks member
    rcases loops_replaced here current walk.point (.inl rfl) member with old | ⟨rfl,-,active⟩
    · exact (waiting one old).thinned inv inv' walks thinned fun _ _ => rfl
    · exact waits_fetch (waiting walk active) inv mine point inv' walks thinned ends

theorem waiting_step (waiting : Waiting w) (inv : Inv w) (stepped : step w action = some w') (right : w'.NullsRight) :
    Waiting w' := by
  have inv' := step_inv w action w' inv stepped
  cases step_acted stepped with
  | released t frames release releases here changed => exact changed ▸ waiting_release waiting inv here
  | finished t frame frames here nothing changed => exact changed ▸ waiting_finish waiting here
  | performed t frame frames walk here current changed =>
    subst changed
    exact waiting_perform waiting inv here current right
  | added t source tag skip_type_handler changed =>
    subst changed
    obtain ⟨i,address,-,added,-⟩ := inv.map.addHandler source tag skip_type_handler
    intro walk member
    exact List.Subset.trans (waiting walk member) (ahead_pushed inv.map.heap added.pushed (walk_stands inv (loopsOf_walks member)))
  | cleared t frames tag here changed =>
    subst changed
    have same : (Frame.clearHandlersWithTag tag (entries w.map) :: frames).flatMap Frame.loops ⊆ frames.flatMap Frame.loops :=
      List.Subset.refl _
    exact fun walk member => waiting walk (loops_fewer here same member)
  | called t frames key key_name here changed =>
    subst changed
    intro walk member
    rcases loops_set member with old | new
    · exact waiting walk old
    · rcases List.mem_append.mp new with mine | lower
      · obtain ⟨source,i,-,rfl⟩ := call_walks mine
        exact List.Subset.refl _
      · exact waiting walk (loops_here here lower)
  | removed t frames callers element here made changed =>
    subst changed
    exact waiting_remove waiting inv here made (List.Subset.refl _) inv'

end waiting

/-! ### Whole runs -/

/-- `CallName` has called what it was to call, also from the list of the type if
    it came to that. -/
def Frame.Complete : Frame → Prop
  | .callName names types call_type_handler =>
    (∀ walk ∈ names, walk.due = []) ∧ (call_type_handler = true → ∀ walk ∈ types, walk.due = [])
  | .clearHandlersWithTag _ _ => True
/-- No traversal ended early, no call skipped a handler and no entry was erased
    with one. -/
structure World.Right (w : World) : Prop where
  nulls : w.NullsRight
  returned : ∀ frame ∈ w.returned, frame.Complete
  erased : ∀ handlers ∈ w.erased, handlers = []

section runs
variable {w w' : World} {action : Nat × Action} {frame : Frame} {heap : Heap}

/-- A call that has come to its end waits for nothing. -/
theorem complete_ended (nothing : frame.current = none) (waits : ∀ walk ∈ frame.loops, Waits heap walk) : frame.Complete := by
  have ended : ∀ walk ∈ frame.loops, walk.point = .ended → walk.due = [] := by
    intro walk member point
    have passed := waits walk member
    rw [Waits,Walk.ahead,Walk.path,point] at passed
    exact List.subset_nil.mp passed
  cases frame with
  | clearHandlersWithTag tag walks => trivial
  | callName names types call_type_handler =>
    obtain ⟨none_names,none_types⟩ := Option.or_eq_none_iff.mp nothing
    refine ⟨fun walk named => ended walk (List.mem_append_left _ (Option.mem_toList.mpr named)) ?_,fun asked walk typed => ?_⟩
    · obtain rfl := Option.mem_def.mp named
      simpa using none_names
    · refine ended walk (List.mem_append_right _ (Option.mem_toList.mpr typed)) ?_
      obtain rfl := Option.mem_def.mp typed
      simpa [asked] using none_types

/-- A call is noted when it has come to its end, and an entry when it is erased,
    which is where `Front` is null. -/
theorem step_records (acted : Acted w w' action) :
    (w'.returned = w.returned ∨ ∃ (t : Nat) (frame : Frame) (frames : List Frame), w.threads[t]? = some ⟨frame :: frames,[]⟩ ∧
      frame.current = none ∧ w'.returned = frame :: w.returned) ∧
    (w'.erased = w.erased ∨ ∃ handlers ∈ w'.nulls, w'.erased = handlers :: w.erased) := by
  cases acted with
  | released t frames release releases here changed =>
    subst changed
    cases release with
    | drop callers cb | dtor callers cb => exact ⟨.inl rfl,.inl rfl⟩
  | finished t frame frames here nothing changed =>
    subst changed
    cases frame with
    | clearHandlersWithTag tag walks => exact ⟨.inl rfl,.inl rfl⟩
    | callName names types call_type_handler => exact ⟨.inr ⟨t,_,frames,here,nothing,rfl⟩,.inl rfl⟩
  | performed t frame frames walk here current changed =>
    subst changed
    rcases task_cases current with ⟨el,-,task⟩ | ⟨el,element,-,task⟩ | ⟨tag,walks,-,-,task⟩ | ⟨-,task⟩
    · rw [task]
      exact ⟨.inl rfl,.inl rfl⟩
    · rw [task]
      exact ⟨.inl rfl,.inl rfl⟩
    · rw [task]
      rcases look_cases w t frame frames walk with ⟨cb,-,looked⟩ | ⟨null,looked⟩
      · rw [looked]
        exact ⟨.inl rfl,.inl rfl⟩
      · rw [looked]
        refine ⟨.inl rfl,.inr ⟨w.map.heap.live walk.callers,?_,rfl⟩⟩
        change _ ∈ (if (w.fetch walk.callers none).1.isNone then followers w.map.heap walk.callers none :: w.nulls else w.nulls)
        rw [null,Option.isNone_none,if_pos rfl]
        exact List.mem_cons_self
    · rw [task]
      exact ⟨.inl rfl,.inl rfl⟩
  | added t source tag skip_type_handler changed =>
    subst changed
    exact ⟨.inl rfl,.inl rfl⟩
  | cleared t frames tag here changed =>
    subst changed
    exact ⟨.inl rfl,.inl rfl⟩
  | called t frames key key_name here changed =>
    subst changed
    exact ⟨.inl rfl,.inl rfl⟩
  | removed t frames callers element here made changed =>
    subst changed
    exact ⟨.inl rfl,.inl rfl⟩

theorem right_step (right : w.Right) (waiting : Waiting w) (stepped : step w action = some w') (nulls : w'.NullsRight) :
    w'.Right := by
  obtain ⟨returned,erased⟩ := step_records (step_acted stepped)
  refine ⟨nulls,?_,?_⟩
  · rcases returned with same | ⟨t,frame,frames,here,nothing,one_more⟩
    · rw [same]
      exact right.returned
    · rw [one_more]
      have complete : frame.Complete :=
        complete_ended nothing fun walk member => waiting walk (loops_here here (List.mem_append_left _ member))
      exact List.forall_mem_cons.mpr ⟨complete,right.returned⟩
  · rcases erased with same | ⟨handlers,noted,one_more⟩
    · rw [same]
      exact right.erased
    · rw [one_more]
      exact List.forall_mem_cons.mpr ⟨nulls handlers noted,right.erased⟩

theorem walks_run (n : Nat) (actions : List (Nat × Action)) :
    (∀ before, before <+: actions → (run step (World.start n) before).Right) ↔ Along step World.Owned (World.start n) actions := by
  constructor
  · intro right
    exact (nullsRight_run n actions).mp fun before short => (right before short).nulls
  · rintro owned before ⟨rest,rfl⟩
    have keeps : ∀ w action w', Inv w ∧ Waiting w ∧ w.Right → w.Owned action → step w action = some w' →
        Inv w' ∧ Waiting w' ∧ w'.Right := by
      rintro w action w' ⟨inv,waiting,right⟩ met stepped
      have nulls := (nullsRight_step inv right.nulls stepped).mpr met
      exact ⟨step_inv w action w' inv stepped,waiting_step waiting inv stepped nulls,right_step right waiting stepped nulls⟩
    have start : Inv (World.start n) ∧ Waiting (World.start n) ∧ (World.start n).Right := by
      refine ⟨inv_start n,fun walk member => ?_,fun _ member => ?_,fun _ member => ?_,fun _ member => ?_⟩
      · have none := loopsOf_walks member
        rw [start_walks] at none
        cases none
      · cases member
      · cases member
      · cases member
    exact (Along.run keeps start (along_append.mp owned).1).2.2

end runs

instance NextOwned.decidable (heap : Heap) (callers : CallersPtr) (el : Option Address) : Decidable (NextOwned heap callers el) :=
  inferInstanceAs (Decidable (∀ c ∈ (behind heap callers el).head?,
    ((heap.lists callers).blocks c).use_count = 0 → followers heap callers el = []))
instance Owned.decidable (w : World) (action : Nat × Action) : Decidable (w.Owned action) :=
  inferInstanceAs (Decidable (∀ one ∈ w.fetches action, NextOwned w.map.heap one.1 one.2))
instance Complete.decidable : (frame : Frame) → Decidable frame.Complete
  | .callName names types call_type_handler =>
    inferInstanceAs (Decidable ((∀ walk ∈ names, walk.due = []) ∧ (call_type_handler = true → ∀ walk ∈ types, walk.due = [])))
  | .clearHandlersWithTag _ _ => isTrue trivial

/-- The handlers of two tags for one name, which is called. -/
def twoTags : List (Nat × Action) :=
  [(0,.addHandler (.name ⟨[],1⟩) 1 true),(0,.addHandler (.name ⟨[],1⟩) 2 true),(0,.callName ⟨[],1⟩ 2)]

/-- The call stands on the block of the first handler while another thread clears
    its tag, and goes on before that thread looks at the list again. -/
def unlinked : List (Nat × Action) :=
  twoTags ++ (0,.proceed) :: (1,.clearHandlersWithTag 1) :: List.replicate 9 (1,.proceed) ++ List.replicate 4 (0,.proceed) ++
    List.replicate 3 (1,.proceed) ++ List.replicate 4 (0,.proceed)

theorem walks_run_unlinked : (run step (World.start 2) unlinked).Right ∧ (run step (World.start 2) unlinked).returned ≠ [] := by
  have owned : Along step World.Owned (World.start 2) unlinked := by decide +kernel
  have called : (!(run step (World.start 2) unlinked).returned.isEmpty) = true := by decide +kernel
  exact ⟨(walks_run 2 unlinked).mpr owned unlinked (List.prefix_refl _),by simpa using called⟩

/-- The other thread lets go of the block of the first handler, and before it is
    unlinked the call begins. -/
def skipping : List (Nat × Action) :=
  twoTags ++ (1,.clearHandlersWithTag 1) :: List.replicate 6 (1,.proceed) ++ List.replicate 2 (0,.proceed)
/-- The call lets go of that block, and before it is unlinked the other thread
    looks at the list again. -/
def erasing : List (Nat × Action) :=
  twoTags ++ (0,.proceed) :: (1,.clearHandlersWithTag 1) :: List.replicate 9 (1,.proceed) ++ List.replicate 3 (0,.proceed) ++
    [(1,.proceed)]

theorem walks_end_early :
    (¬ ∀ n actions, ∀ following ∈ (run step (World.start n) actions).nulls, following = []) ∧
    (¬ ∀ n actions, ∀ frame ∈ (run step (World.start n) actions).returned, frame.Complete) ∧
    ¬ ∀ n actions, ∀ handlers ∈ (run step (World.start n) actions).erased, handlers = [] := by
  refine ⟨fun all => ?_,fun all => ?_,fun all => ?_⟩
  · have early : ¬ ∀ following ∈ (run step (World.start 2) skipping).nulls, following = [] := by decide +kernel
    exact early (all 2 skipping)
  · have early : ¬ ∀ frame ∈ (run step (World.start 2) skipping).returned, frame.Complete := by decide +kernel
    exact early (all 2 skipping)
  · have early : ¬ ∀ handlers ∈ (run step (World.start 2) erasing).erased, handlers = [] := by decide +kernel
    exact early (all 2 erasing)

end IpcPortable.CallThreads
