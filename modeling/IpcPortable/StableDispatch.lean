import IpcPortable.HandlerTurns
import IpcPortable.LoopSteps

/-!
The loops of `CallName` over the handlers of a name are queues, whatever their
handlers do to the map, as long as the entry of the name is not erased. Each has
at most one round for every block at its beginning and for every handler that
was added since.
-/
namespace IpcPortable.EventCalls
open IpcPortable.Runs IpcPortable.CallbackLists IpcPortable.ListShape IpcPortable.EventHandlerMaps IpcPortable.HandlerLists

/-- The loops of the calls that are going on and of those that have returned. -/
def World.allLoops (w : World) : List Loop := w.loops ++ w.returned.flatMap Call.loops
/-- A loop over the handlers of a name whose entry was not erased meanwhile. -/
def Loop.Tracked (l : Loop) : Prop := (∃ key, l.source = .name key) ∧ .nameCleared ∉ l.history
def Loop.record (l : Loop) (events : List Event) : Loop := { l with history := l.history ++ events }

/-- The loop is a queue of the handlers of its list, which is in the map while it runs. -/
structure Stable (w : World) (l : Loop) : Prop where
  mapped : l.el.isSome → w.map.find l.source = some l.callers
  queued : Queued l.registered l.history (l.pending w.map.heap)
  old : ∀ caller ∈ l.registered ++ addedIn l.history ++ removedIn l.history, caller.id < w.map.heap.fresh
  turns : l.turns + (l.rest w.map.heap).length ≤ l.blocks + (addedIn l.history).length

section loops
variable {w w' : World} {l : Loop} {b : Address} {held : CallersPtr → List Address}

theorem ended_pending (heap : Heap) (closed : l.el = none) : l.rest heap = [] ∧ l.pending heap = [] := by
  have nothing : l.rest heap = [] := by rw [Loop.rest,closed]
  refine ⟨nothing,?_⟩
  rw [Loop.pending,nothing]
  split <;> rfl

/-- A loop that is over stays as it is. -/
theorem Stable.closed (stable : Stable w l) (closed : l.el = none) (grown : w.map.heap.fresh ≤ w'.map.heap.fresh) : Stable w' l := by
  obtain ⟨rest,pending⟩ := ended_pending w.map.heap closed
  obtain ⟨rest',pending'⟩ := ended_pending w'.map.heap closed
  refine ⟨fun runs => ?_,?_,fun caller member => Nat.lt_of_lt_of_le (stable.old caller member) grown,?_⟩
  · rw [closed] at runs
    cases runs
  · rw [pending',← pending]
    exact stable.queued
  · rw [rest',← rest]
    exact stable.turns

/-- The list of the loop is as it was. -/
theorem Stable.same (stable : Stable w l) (mapped : l.el.isSome → w'.map.find l.source = some l.callers)
    (list : w'.map.heap.lists l.callers = w.map.heap.lists l.callers) (ring : w'.map.heap.ring l.callers = w.map.heap.ring l.callers)
    (grown : w.map.heap.fresh ≤ w'.map.heap.fresh) : Stable w' l := by
  have rest : l.rest w'.map.heap = l.rest w.map.heap := by rw [Loop.rest,Loop.rest,ring]
  have pending : l.pending w'.map.heap = l.pending w.map.heap := by rw [Loop.pending,Loop.pending,rest,list]
  refine ⟨mapped,?_,fun caller member => Nat.lt_of_lt_of_le (stable.old caller member) grown,?_⟩
  · rw [pending]
    exact stable.queued
  · rw [rest]
    exact stable.turns

/-- Another loop moves. -/
theorem Stable.loosened {held' : CallersPtr → List Address} (stable : Stable w l) (loose : Loosened w.map.heap w'.map.heap)
    (inv : HeapInv w.map.heap held noneDying) (inv' : HeapInv w'.map.heap held' noneDying) (made : (w.map.heap.lists l.callers).m_base.isSome)
    (finds : w'.map.find l.source = w.map.find l.source) (holds : ∀ b, l.el = some b → b ∈ held' l.callers) : Stable w' l := by
  cases stands : l.el with
  | none => exact stable.closed stands (Nat.le_of_eq loose.fresh.symm)
  | some b =>
    obtain ⟨pending,rest⟩ := loose.pending_eq inv inv' made stands (holds b stands)
    refine ⟨fun runs => finds.trans (stable.mapped runs),?_,?_,Nat.le_trans (Nat.add_le_add_left rest _) stable.turns⟩
    · rw [pending]
      exact stable.queued
    · rw [loose.fresh]
      exact stable.old

theorem note_eq (events : Loop → List Event) (l : Loop) :
    l.note events = if l.el.isSome then l.record (events l) else l := rfl

/-- A new caller is pushed to the list of a loop that runs. -/
theorem Stable.pushed {caller : Caller} {address : Address} (stable : Stable w l) (inv : HeapInv w.map.heap held noneDying)
    (made : (w.map.heap.lists l.callers).m_base.isSome) (stands : l.el = some b) (holds : b ∈ held l.callers)
    (pushed : Pushed w.map.heap w'.map.heap l.callers caller address) (mapped : w'.map.find l.source = some l.callers) :
    Stable w' (l.record [.added caller]) := by
  have member : b ∈ w.map.heap.ring l.callers := (inv.lists _ made).inv.inside b holds
  have behind : after b (w'.map.heap.ring l.callers) = after b (w.map.heap.ring l.callers) ++ [address] := by
    rw [pushed.ring,after_append member]
  have inside := after_subset b (w.map.heap.ring l.callers)
  obtain ⟨before,later,split⟩ := List.append_of_mem member
  have stood : after b (w.map.heap.ring l.callers) = b :: later := by
    rw [split,after_split (split ▸ (inv.lists _ made).inv.shape.once)]
  have joins : ∀ part, part ⊆ w.map.heap.ring l.callers →
      elements (w'.map.heap.lists l.callers) (part ++ [address]) = elements (w.map.heap.lists l.callers) part ++ [caller] := by
    intro part within
    rw [elements_append,pushed.kept part within,pushed.last]
  have pending : (l.record [.added caller]).pending w'.map.heap = l.pending w.map.heap ++ [caller] := by
    rw [pending_eq stands,pending_eq (show (l.record [.added caller]).el = some b from stands)]
    change elements (w'.map.heap.lists l.callers) (if l.element.isSome then _ else _) = _
    rw [show (l.record [.added caller]).callers = l.callers from rfl,behind,stood]
    rw [stood] at inside
    split
    · exact joins later fun c here => inside (List.mem_cons_of_mem b here)
    · exact joins (b :: later) inside
  have rest : (l.record [.added caller]).rest w'.map.heap = l.rest w.map.heap ++ [address] := by
    rw [Loop.rest,Loop.rest,show (l.record [.added caller]).el = some b from stands,stands]
    exact behind
  have fresh := pushed.grown
  refine ⟨fun _ => mapped,?_,fun one known => ?_,?_⟩
  · rw [pending]
    refine stable.queued.added fun known => ?_
    exact absurd (stable.old caller known) (Nat.not_lt_of_le fresh.1)
  · change one ∈ l.registered ++ addedIn (l.history ++ [.added caller]) ++ removedIn (l.history ++ [.added caller]) at known
    rw [addedIn_append,removedIn_append] at known
    have old := stable.old one
    simp only [List.mem_append] at known old
    rcases known with (first | early | new) | gone | none_gone
    · exact Nat.lt_of_lt_of_le (old (.inl (.inl first))) (Nat.le_of_lt (Nat.lt_of_le_of_lt fresh.1 fresh.2))
    · exact Nat.lt_of_lt_of_le (old (.inl (.inr early))) (Nat.le_of_lt (Nat.lt_of_le_of_lt fresh.1 fresh.2))
    · exact List.mem_singleton.mp new ▸ fresh.2
    · exact Nat.lt_of_lt_of_le (old (.inr gone)) (Nat.le_of_lt (Nat.lt_of_le_of_lt fresh.1 fresh.2))
    · cases none_gone
  · have turns := stable.turns
    rw [rest,List.length_append]
    change l.turns + _ ≤ l.blocks + (addedIn (l.history ++ [.added caller])).length
    rw [addedIn_append,List.length_append]
    change _ + (_ + 1) ≤ _ + (_ + 1)
    omega

/-- Handlers are taken out of the list of a loop that runs. -/
theorem Stable.pruned {tag : Tag} (stable : Stable w l) (inv : HeapInv w.map.heap held noneDying) (inv' : HeapInv w'.map.heap held noneDying)
    (made : (w.map.heap.lists l.callers).m_base.isSome) (stands : l.el = some b) (holds : b ∈ held l.callers)
    (cleared : TagCleared tag w.map w'.map) : Stable w' (l.record (w.removedFrom tag l)) := by
  have mapped := stable.mapped (by rw [stands]; rfl)
  have usable := inv.lists l.callers made
  have usable' := inv'.lists l.callers (by rw [cleared.bases]; exact made)
  have member := usable'.inv.inside b holds
  obtain ⟨whole,tail,shorter⟩ := (cleared.lists l.source l.callers mapped).after usable.inv.shape.once member
  let gone := (w.map.heap.live l.callers).filter fun caller => caller.tag = tag
  have events : w.removedFrom tag l = gone.map .removed := if_pos mapped
  have known : ∀ caller ∈ gone, caller.id < w.map.heap.fresh := fun caller taken =>
    (usable.callers caller (List.mem_filter.mp taken).1).1
  have left : ∀ part, part ⊆ w.map.heap.ring l.callers →
      (elements (w.map.heap.lists l.callers) part).filter (fun caller => !decide (caller.tag = tag)) =
        (elements (w.map.heap.lists l.callers) part).filter fun caller => caller ∉ gone := by
    intro part within
    refine List.filter_congr fun caller here => ?_
    obtain ⟨c,inside,element⟩ := mem_elements.mp here
    have living : caller ∈ w.map.heap.live l.callers := mem_elements.mpr ⟨c,within inside,element⟩
    simp [gone,living]
  have inside := after_subset b (w.map.heap.ring l.callers)
  have pending : (l.record (w.removedFrom tag l)).pending w'.map.heap = (l.pending w.map.heap).filter fun caller => caller ∉ gone := by
    rw [pending_eq stands,pending_eq (show (l.record (w.removedFrom tag l)).el = some b from stands)]
    change elements (w'.map.heap.lists l.callers) (if l.element.isSome then _ else _) = _
    split
    · exact tail.trans (left _ fun c here => inside (List.mem_of_mem_tail here))
    · exact whole.trans (left _ inside)
  refine ⟨fun _ => ?_,?_,fun one recorded => ?_,?_⟩
  · change w'.map.find l.source = some l.callers
    rw [cleared.finds,mapped,Option.filter_some,if_pos (decide_eq_true (List.ne_nil_of_mem member))]
  · rw [pending,events]
    exact stable.queued.remove gone
  · change one ∈ l.registered ++ addedIn (l.history ++ w.removedFrom tag l) ++ removedIn (l.history ++ w.removedFrom tag l) at recorded
    rw [cleared.fresh]
    rw [events] at recorded
    have old := stable.old one
    simp only [List.mem_append,addedIn_append,removedIn_append] at recorded old
    have none_added : addedIn (gone.map .removed) = [] := by simp [addedIn,Event.isAdded,List.filterMap_map]
    rcases recorded with (first | early | new) | before | now
    · exact old (.inl (.inl first))
    · exact old (.inl (.inr early))
    · rw [none_added] at new
      cases new
    · exact old (.inr before)
    · exact known one (by simpa using now)
  · have turns := stable.turns
    have rest : ((l.record (w.removedFrom tag l)).rest w'.map.heap).length ≤ (l.rest w.map.heap).length := by
      rw [Loop.rest,Loop.rest,show (l.record (w.removedFrom tag l)).el = some b from stands,stands]
      exact shorter
    change l.turns + _ ≤ l.blocks + (addedIn (l.history ++ w.removedFrom tag l)).length
    rw [addedIn_append,List.length_append]
    omega

/-- A loop over the handlers of a name begins. -/
theorem stable_began {key : Key} {i : CallersPtr} {calls : List Call} (inv : HeapInv w.map.heap held noneDying)
    (made : (w.map.heap.lists i).m_base.isSome) (mapped : w.map.find (.name key) = some i) :
    Stable (w.withCalls (Loop.start w.map.heap (.name key) i).2 calls) (Loop.start w.map.heap (.name key) i).1 := by
  obtain ⟨-,loose,pending,rest⟩ := start_spec inv (.name key) made
  have usable := inv.lists i made
  refine ⟨fun _ => mapped,?_,fun caller known => ?_,?_⟩
  · refine Eq.subst pending.symm ?_ (motive := Queued _ _)
    exact .began usable.inv.elements_nodup
  · change caller.id < (Loop.start w.map.heap (.name key) i).2.fresh
    rw [loose.fresh]
    have registered : caller ∈ w.map.heap.live i := by
      change caller ∈ w.map.heap.live i ++ [] ++ [] at known
      rwa [List.append_nil,List.append_nil] at known
    exact (usable.callers caller registered).1
  · change 0 + ((Loop.start w.map.heap (.name key) i).1.rest (Loop.start w.map.heap (.name key) i).2).length ≤ (w.map.heap.ring i).length + 0
    rw [rest,Nat.zero_add,Nat.add_zero]

theorem proceed_history (l : Loop) (heap : Heap) (b : Address) : l.history ⊆ (l.proceed heap b).1.history := by
  unfold Loop.proceed
  split
  · exact fun _ inside => inside
  · split
    · exact fun _ inside => List.mem_append_left _ inside
    · exact fun _ inside => inside

/-- A loop calls the next handler, or goes past a block. -/
theorem Stable.proceed {others : List Address} {calls : List Call} (stable : Stable w l) (inv : HeapInv w.map.heap held noneDying)
    (made : (w.map.heap.lists l.callers).m_base.isSome) (mine : w.map.heap.made_for l.callers = l.source) (stands : l.el = some b)
    (holds : held l.callers = b :: others) :
    Stable (w.withCalls (l.proceed w.map.heap b).2 calls) (l.proceed w.map.heap b).1 := by
  have mapped := stable.mapped (by rw [stands]; rfl)
  have turns := stable.turns
  have queued := stable.queued
  rcases proceed_spec inv made mine stands holds with ⟨caller,-,invoked,next⟩ | ⟨passed,pending,rest⟩
  · rw [invoked]
    rw [next] at queued
    refine ⟨fun _ => mapped,queued.invoked,fun one known => ?_,?_⟩
    · change one ∈ l.registered ++ addedIn (l.history ++ [.invoked caller]) ++ removedIn (l.history ++ [.invoked caller]) at known
      rw [addedIn_append,removedIn_append] at known
      change one ∈ l.registered ++ (addedIn l.history ++ []) ++ (removedIn l.history ++ []) at known
      rw [List.append_nil,List.append_nil] at known
      exact stable.old one known
    · change l.turns + (l.rest w.map.heap).length ≤ l.blocks + (addedIn (l.history ++ [.invoked caller])).length
      rw [addedIn_append,List.length_append]
      exact Nat.le_trans turns (Nat.add_le_add_left (Nat.le_add_right _ _) _)
  · obtain ⟨-,loose,-,-⟩ := advance_spec inv made stands holds
    rw [passed]
    refine ⟨fun _ => mapped,?_,fun one known => ?_,?_⟩
    · rw [← pending] at queued
      exact queued
    · change one.id < (l.advance w.map.heap b).2.fresh
      rw [loose.fresh]
      exact stable.old one known
    · change l.turns + 1 + ((l.advance w.map.heap b).1.rest (l.advance w.map.heap b).2).length ≤ l.blocks + (addedIn l.history).length
      omega

/-! ### Every run -/

/-- The map changes under the loops. -/
theorem stable_change {map : EventHandlerMap} {events : Loop → List Event} (stable : ∀ l ∈ w.allLoops, l.Tracked → Stable w l)
    (inv : Inv w) (grown : w.map.heap.fresh ≤ map.heap.fresh)
    (runs : ∀ l ∈ w.loops, ∀ b, l.el = some b → (l.record (events l)).Tracked → Stable w l →
      Stable (w.change map events) (l.record (events l))) :
    ∀ l ∈ (w.change map events).allLoops, l.Tracked → Stable (w.change map events) l := by
  intro l member tracked
  rw [World.allLoops,note_loops] at member
  rcases List.mem_append.mp member with going | gone
  · obtain ⟨before,inside,rfl⟩ := List.mem_map.mp going
    have known : before ∈ w.allLoops := List.mem_append_left _ inside
    cases stands : before.el with
    | none =>
      have same : before.note events = before := by simp [note_eq,stands]
      rw [same] at tracked ⊢
      exact (stable before known tracked).closed stands grown
    | some b =>
      have same : before.note events = before.record (events before) := by simp [note_eq,stands]
      rw [same] at tracked ⊢
      exact runs before inside b stands tracked
        (stable before known ⟨tracked.1,fun cleared => tracked.2 (List.mem_append_left _ cleared)⟩)
  · obtain ⟨call,closed,inside⟩ := List.mem_flatMap.mp gone
    exact (stable l (List.mem_append_right _ gone) tracked).closed (inv.returned call closed l inside) grown

/-- The iterators move, and a loop begins or goes on. -/
theorem stable_withCalls {heap : Heap} {calls : List Call} {first : Loop} {rest : List Loop}
    (stable : ∀ l ∈ w.allLoops, l.Tracked → Stable w l) (inv : Inv w) (inv' : Inv (w.withCalls heap calls))
    (loose : Loosened w.map.heap heap) (loops : (w.withCalls heap calls).loops = first :: rest) (old : rest ⊆ w.loops)
    (here : first.Tracked → Stable (w.withCalls heap calls) first) :
    ∀ l ∈ (w.withCalls heap calls).allLoops, l.Tracked → Stable (w.withCalls heap calls) l := by
  intro l member tracked
  rw [World.allLoops,loops] at member
  rcases List.mem_append.mp member with going | gone
  · rcases List.mem_cons.mp going with rfl | inside
    · exact here tracked
    · refine (stable l (List.mem_append_left _ (old inside)) tracked).loosened loose inv.map.heap inv'.map.heap
        (inv.loops l (old inside)).1 ?_ fun b stands => ?_
      · cases l.source <;> rfl
      · rw [loops]
        exact mem_heldBy (List.mem_cons_of_mem first inside) stands
  · obtain ⟨call,closed,inside⟩ := List.mem_flatMap.mp gone
    exact (stable l (List.mem_append_right _ gone) tracked).closed (inv.returned call closed l inside) (Nat.le_of_eq loose.fresh.symm)

theorem stable_added (stable : ∀ l ∈ w.allLoops, l.Tracked → Stable w l) (inv : Inv w) (source : Source) (tag : Tag)
    (skip_type_handler : Bool) : ∀ l ∈ (w.addHandler source tag skip_type_handler).allLoops, l.Tracked →
      Stable (w.addHandler source tag skip_type_handler) l := by
  obtain ⟨i,address,map,added,-,-⟩ := inv.map.addHandler source tag skip_type_handler
  have pushed := added.pushed
  have grown := Nat.le_of_lt (Nat.lt_of_le_of_lt pushed.grown.1 pushed.grown.2)
  refine stable_change stable inv grown fun l member b stands _ before => ?_
  obtain ⟨made,mine⟩ := inv.loops l member
  have mapped := before.mapped (by rw [stands]; rfl)
  by_cases same : l.source = source
  · rw [if_pos same]
    obtain rfl : l.callers = i := by
      rw [same] at mapped
      rcases added.before with found | ⟨none_found,-⟩
      · exact Option.some.inj (mapped.symm.trans found)
      · rw [none_found] at mapped
        cases mapped
    exact before.pushed inv.map.heap made stands (mem_heldBy member stands) pushed (same ▸ added.found)
  · rw [if_neg same]
    have other : l.callers ≠ i := by
      rintro rfl
      have found := (map.found added.found).2
      rw [(pushed.sources _ made).2,mine] at found
      exact same found
    have still : Stable (w.addHandler source tag skip_type_handler) l := before.same
      (fun _ => (added.others l.source same).trans mapped) (pushed.others _ other)
      (inv.map.heap.ring_same (pushed.others _ other) grown) grown
    exact (congrArg (Stable _) (show l.record [] = l by simp [Loop.record])).mpr still

/-- The loops over names stay queues. -/
theorem stable_step (stable : ∀ l ∈ w.allLoops, l.Tracked → Stable w l) (inv : Inv w) (inv' : Inv w') (moved : LoopsMoved w w') :
    ∀ l ∈ w'.allLoops, l.Tracked → Stable w' l := by
  cases moved with
  | added source tag skip_type_handler changed =>
    subst changed
    exact stable_added stable inv source tag skip_type_handler
  | nameCleared key changed =>
    subst changed
    obtain ⟨-,finds⟩ := inv.map.clearHandlerName key
    refine stable_change stable inv (Nat.le_refl _) fun l member b stands tracked before => ?_
    by_cases same : l.source = .name key
    · rw [if_pos same] at tracked
      exact absurd (List.mem_append_right _ List.mem_cons_self) tracked.2
    · rw [if_neg same]
      have still : Stable (w.clearHandlerName key) l := before.same
        (fun _ => (finds l.source).trans ((if_neg same).trans (before.mapped (by rw [stands]; rfl)))) rfl rfl (Nat.le_refl _)
      exact (congrArg (Stable _) (show l.record [] = l by simp [Loop.record])).mpr still
  | tagCleared tag map cleared changed =>
    subst changed
    obtain ⟨map',cleared',map_inv,spec⟩ := inv.map.clearHandlersWithTag tag
    obtain rfl := Option.some.inj (cleared.symm.trans cleared')
    refine stable_change stable inv (Nat.le_of_eq spec.fresh.symm) fun l member b stands _ before => ?_
    exact before.pruned inv.map.heap map_inv.heap (inv.loops l member).1 stands
      (mem_heldBy member stands) spec
  | began source i calls made mine named changed loops =>
    subst changed
    obtain ⟨-,loose,-,-⟩ := start_spec inv.map.heap source made
    refine stable_withCalls stable inv inv' loose loops (fun _ inside => inside) ?_
    rintro ⟨⟨key,named_source⟩,-⟩
    obtain rfl : source = .name key := named_source
    exact stable_began inv.map.heap made (named key rfl)
  | moved l rest b calls before stands changed loops =>
    subst changed
    obtain ⟨made,mine⟩ := inv.loops l (before ▸ List.mem_cons_self)
    have holds : heldBy w.loops l.callers = b :: heldBy rest l.callers := by
      rw [before,heldBy_cons,Function.update_self,stands]
      rfl
    have loose := (proceed_moves (before ▸ inv.map.heap) made mine stands).2.1
    have source := (proceed_moves (before ▸ inv.map.heap) made mine stands).2.2.2
    refine stable_withCalls stable inv inv' loose loops (fun _ inside => before ▸ List.mem_cons_of_mem l inside) fun tracked => ?_
    refine Stable.proceed (stable l ?_ ⟨source ▸ tracked.1,?_⟩) inv.map.heap made mine stands holds
    · exact List.mem_append_left _ (before ▸ List.mem_cons_self)
    · exact fun cleared => tracked.2 (proceed_history l w.map.heap b cleared)
  | ended gone closed before map returned =>
    intro l member tracked
    have known : l ∈ w.allLoops := by
      rw [World.allLoops,before]
      rcases List.mem_append.mp member with going | past
      · exact List.mem_append_left _ (List.mem_append_right _ going)
      · rcases List.mem_append.mp (returned past) with now | earlier
        · exact List.mem_append_left _ (List.mem_append_left _ now)
        · exact List.mem_append_right _ earlier
    have stable_l := stable l known tracked
    exact stable_l.same (fun runs => map ▸ stable_l.mapped runs) (by rw [map]) (by rw [map]) (Nat.le_of_eq (by rw [map]))

end loops

/-- The loops over names are queues after every run. -/
theorem stable_run (actions : List Action) : ∀ l ∈ (run step {} actions).allLoops, l.Tracked → Stable (run step {} actions) l := by
  have keeps : Preserves step fun w => Inv w ∧ ∀ l ∈ w.allLoops, l.Tracked → Stable w l := by
    rintro w action w' ⟨inv,stable⟩ stepped
    obtain ⟨inv',moved⟩ := step_moves inv stepped
    exact ⟨inv',stable_step stable inv inv' moved⟩
  refine (keeps.run ⟨inv_empty,fun l member => ?_⟩ actions).2
  cases member

end IpcPortable.EventCalls
