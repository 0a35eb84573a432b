import IpcPortable.CallThreads
import IpcPortable.HandlerLists
import Mathlib.Data.List.Perm.Basic

/-!
Single accesses to the lists, where a block whose last reference is gone may
still be in its ring: what each does to the references, to the blocks that are
about to be destroyed and to the handlers.
-/
namespace IpcPortable.HandlerLists
open IpcPortable.Rings IpcPortable.CallbackLists IpcPortable.ListShape IpcPortable.EventHandlerMaps IpcPortable.CallThreads

variable {heap heap' : Heap} {held dying held' dying' : CallersPtr → List Address} {i : CallersPtr} {b : Address}

theorem HeapInv.perm (inv : HeapInv heap held dying) (references : ∀ j, (held j).Perm (held' j))
    (destroyed : ∀ j, (dying j).Perm (dying' j)) : HeapInv heap held' dying' := by
  refine ⟨fun j made => ?_,inv.unmade,fun j unmade => ?_⟩
  · obtain ⟨base,whole,addresses,callers⟩ := inv.lists j made
    exact ⟨base,whole.perm (references j) (destroyed j),addresses,callers⟩
  · obtain ⟨free,sound⟩ := inv.unheld j unmade
    have none_held := references j
    have none_dying := destroyed j
    rw [free] at none_held
    rw [sound] at none_dying
    exact ⟨none_held.nil_eq.symm,none_dying.nil_eq.symm⟩

/-- A list with a reference to one of its blocks is one that was made. -/
theorem HeapInv.made_of_held (inv : HeapInv heap held dying) (holds : b ∈ held i ∨ b ∈ dying i) :
    (heap.lists i).m_base.isSome := by
  cases based : (heap.lists i).m_base with
  | some base => rfl
  | none =>
    obtain ⟨free,sound⟩ := inv.unheld i based
    rw [free,sound] at holds
    rcases holds with holds | dies
    · cases holds
    · cases dies

/-- A reference is let go, and with the last one the block is about to be destroyed. -/
theorem HeapInv.drop (inv : HeapInv heap held dying) (holds : b ∈ held i) :
    HeapInv (heap.setList i ((heap.lists i).dropRef b)) (Function.update held i ((held i).erase b))
      (Function.update dying i (if (((heap.lists i).dropRef b).blocks b).use_count = 0 then b :: dying i else dying i)) ∧
    Thinned (fun _ _ => true) heap (heap.setList i ((heap.lists i).dropRef b)) := by
  have made := inv.made_of_held (.inl holds)
  have whole := (inv.lists i made).inv.dropRef holds
  have counted := (inv.lists i made).inv.count b
  have positive : 0 < (held i).count b := List.count_pos_iff.mpr holds
  have last : (((heap.lists i).dropRef b).blocks b).use_count = 0 ↔ ((heap.lists i).blocks b).use_count = 1 := by
    simp only [CallbackList.dropRef,CallbackList.modify_blocks,if_true]
    omega
  have same : ∀ c ∈ heap.ring i, (((heap.lists i).dropRef b).blocks c).element = ((heap.lists i).blocks c).element := by
    intro c _
    rcases eq_or_ne c b with rfl | other
    · simp [CallbackList.dropRef]
    · simp [CallbackList.dropRef,other]
  obtain ⟨after_inv,thinned,-⟩ := inv.access made whole (pruned_all same) rfl
  simp only [last]
  exact ⟨after_inv,by simpa using thinned⟩

/-- `~CtrlBlock`. -/
theorem HeapInv.dtor (inv : HeapInv heap held dying) (dies : b ∈ dying i) :
    HeapInv (heap.setList i ((heap.lists i).ctrlBlockDtor b)) held (Function.update dying i ((dying i).erase b)) ∧
    Thinned (fun _ _ => true) heap (heap.setList i ((heap.lists i).ctrlBlockDtor b)) := by
  have made := inv.made_of_held (.inr dies)
  have shape := (inv.lists i made).inv
  have nothing := (shape.dying_block dies).2.2.1
  have blocks : ((heap.lists i).ctrlBlockDtor b).blocks = (heap.lists i).blocks := CallbackList.unlinkLocked_blocks ..
  have pruned : Pruned (fun _ => true) (heap.lists i) (heap.ring i) ((heap.lists i).ctrlBlockDtor b) ((heap.ring i).erase b) := by
    refine ⟨fun c => c != b,shape.shape.once.erase_eq_filter b,fun c _ => ?_⟩
    rw [blocks,filter_all]
    rcases eq_or_ne c b with rfl | other
    · simp [nothing]
    · simp [other]
  obtain ⟨after_inv,thinned,-⟩ := inv.access made (shape.ctrlBlockDtor dies) pruned (CallbackList.unlinkLocked_m_base ..)
  rw [Function.update_eq_self] at after_inv
  exact ⟨after_inv,by simpa using thinned⟩

/-- `RemoveFromList_Locked`. -/
theorem HeapInv.removeLocked (inv : HeapInv heap held dying) (made : (heap.lists i).m_base.isSome) (element : Caller) :
    HeapInv (heap.setList i ((heap.lists i).removeFromListLocked element).2)
      (Function.update held i (((heap.lists i).removeFromListLocked element).1.cb.toList ++ held i)) dying ∧
    Thinned (fun j caller => if j = i then caller != element else true) heap
      (heap.setList i ((heap.lists i).removeFromListLocked element).2) := by
  obtain ⟨whole,pruned,-,cb,same,-⟩ := (inv.lists i made).inv.removeFromListLocked element
  obtain ⟨after_inv,thinned,-⟩ := inv.access made whole pruned same
  rw [Function.update_eq_self,← cb] at after_inv
  exact ⟨after_inv,thinned⟩

/-- `Front` and `GetNext`: there is no next block, or it has no owner and the pointer
    is null, or the thread is one more owner. -/
theorem HeapInv.next {el : Option Address} (inv : HeapInv heap held dying) (made : (heap.lists i).m_base.isSome)
    (holds : ∀ b, el = some b → b ∈ held i) :
    HeapInv (heap.setList i (nextBlock (heap.lists i) el).2)
      (Function.update held i ((nextBlock (heap.lists i) el).1.toList ++ held i)) dying ∧
    Thinned (fun _ _ => true) heap (heap.setList i (nextBlock (heap.lists i) el).2) ∧
    ((nextBlock (heap.lists i) el).1 = none ∧ (∀ c ∈ (behind heap i el).head?, ((heap.lists i).blocks c).use_count = 0) ∨
      ∃ c rest, (nextBlock (heap.lists i) el).1 = some c ∧ behind heap i el = c :: rest ∧
        ((heap.lists i).blocks c).use_count ≠ 0) := by
  have usable := inv.lists i made
  have shape := usable.inv
  obtain ⟨base,based,-⟩ := usable.base
  have found : behind heap i el = [] ∧ nextBlock (heap.lists i) el = (none,heap.lists i) ∨
      ∃ c rest, behind heap i el = c :: rest ∧ c ∈ heap.ring i ∧ nextBlock (heap.lists i) el = (heap.lists i).lockCurr c := by
    cases el with
    | none =>
      rcases shape.front_cases based with ⟨nothing,null⟩ | ⟨c,rest,ring,locks⟩
      · exact .inl ⟨nothing,null⟩
      · exact .inr ⟨c,rest,ring,ring ▸ List.mem_cons_self,locks⟩
    | some b =>
      obtain ⟨before,rest,split⟩ := List.append_of_mem (shape.inside b (holds b rfl))
      have behind_eq : behind heap i (some b) = rest := by
        rw [behind,split,after_split (split ▸ shape.shape.once),List.tail_cons]
      rw [behind_eq]
      rcases shape.getNext_cases based split with ⟨nothing,null⟩ | ⟨c,others,here,locks⟩
      · exact .inl ⟨nothing,null⟩
      · refine .inr ⟨c,others,here,?_,locks⟩
        rw [split,here]
        exact List.mem_append_right _ (List.mem_cons_of_mem b List.mem_cons_self)
  have still : HeapInv (heap.setList i (heap.lists i)) (Function.update held i (held i)) dying ∧
      Thinned (fun _ _ => true) heap (heap.setList i (heap.lists i)) := by
    obtain ⟨after_inv,thinned,-⟩ := inv.access made shape (pruned_all fun _ _ => rfl) rfl
    rw [Function.update_eq_self i dying] at after_inv
    exact ⟨after_inv,by simpa using thinned⟩
  rcases found with ⟨nothing,null⟩ | ⟨c,rest,ahead,member,locks⟩
  · rw [null,nothing]
    exact ⟨still.1,still.2,.inl ⟨rfl,fun c first => by cases first⟩⟩
  · rw [locks,ahead]
    rcases shape.lockCurr_cases member with ⟨dead,null⟩ | ⟨lives,locked⟩
    · rw [null]
      refine ⟨still.1,still.2,.inl ⟨rfl,fun d first => ?_⟩⟩
      obtain rfl := Option.some.inj first
      exact dead
    · rw [locked]
      have same : ∀ d ∈ heap.ring i, (((heap.lists i).acquire c).blocks d).element = ((heap.lists i).blocks d).element :=
        fun d _ => acquire_element (heap.lists i) c d
      obtain ⟨after_inv,thinned,-⟩ := inv.access made (shape.acquire member lives) (pruned_all same) rfl
      rw [Function.update_eq_self] at after_inv
      exact ⟨after_inv,by simpa using thinned,.inr ⟨c,rest,rfl,rfl,lives⟩⟩

end IpcPortable.HandlerLists
