import IpcPortable.ListWalks
import IpcPortable.Runs

/-!
A `CallbackList` on one thread: what it is worth as a sequence. Elements are
pushed and removed, iterators walk and let go, in any order, and at the end the
list is destroyed. The blocks that hold an element are the elements that were
not removed, in the order of their last pushes (`callback_list_sequence`).
-/
namespace IpcPortable.ListRuns
open IpcPortable.Runs IpcPortable.Rings IpcPortable.CallbackLists IpcPortable.ListShape
set_option linter.unusedSectionVars false
variable {ε : Type} [DecidableEq ε]

/-- The list and the references that iterators hold. -/
structure Iterated (ε : Type) where
  list : CallbackList ε
  held : List Address := []

inductive Action (ε : Type)
  /-- `address` is where the allocator has room for a block. -/
  | pushBack (element : Option ε) (address : Address)
  | pushFront (element : Option ε) (address : Address)
  | removeFromList (e : ε)
  | front
  | getNext (current : Address)
  | drop (cb : Address)
  /-- `~CallbackList`, in so many rounds of its loop. -/
  | destroy (rounds : Nat)

def step (s : Iterated ε) : Action ε → Option (Iterated ε)
  | .pushBack element address =>
    if s.list.m_base.isSome ∧ s.list.alive address = false then some { s with list := s.list.pushBack element address }
    else none
  | .pushFront element address =>
    if s.list.m_base.isSome ∧ s.list.alive address = false then some { s with list := s.list.pushFront element address }
    else none
  | .removeFromList e => some { s with list := s.list.removeFromList e }
  | .front => if s.list.m_base.isSome then some ⟨s.list.front.2,s.list.front.1.toList ++ s.held⟩ else none
  | .getNext current =>
    if s.list.m_base.isSome ∧ current ∈ s.held then
      some ⟨(s.list.getNext current).2,(s.list.getNext current).1.toList ++ s.held⟩
    else none
  | .drop cb => if cb ∈ s.held then some ⟨s.list.reset cb,s.held.erase cb⟩ else none
  | .destroy rounds =>
    if s.list.m_base.isSome then (s.list.destroy rounds).map fun list => { s with list := list } else none
/-- A new list. -/
def start (shared_lock : SharedLock) (address : Address) : Iterated ε := ⟨CallbackList.create shared_lock address,[]⟩

/-- The elements in the order of their last pushes. -/
def lastPushes (order : List ε) : Action ε → List ε
  | .pushBack (some e) _ => order.erase e ++ [e]
  | .pushFront (some e) _ => e :: order.erase e
  | .removeFromList e => order.erase e
  | .destroy _ => []
  | _ => order

/-- The list is the sequence `order`: `ring` are its blocks behind the sentinel. -/
structure Sequence (s : Iterated ε) (order : List ε) (ring : List Address) : Prop where
  inverse : ∀ b, s.list.alive b = true → s.list.links.prev (s.list.links.next b) = b ∧ s.list.links.next (s.list.links.prev b) = b
  round : ∀ base, s.list.m_base = some base → IsRing s.list.links base ring
  once : ring.Nodup
  /-- The blocks of the ring are those that are referenced. -/
  referenced : ∀ b, b ∈ ring ↔ b ∈ s.held ∨ ∃ e, s.list.m_cb e = some b
  holds : ∀ e b, s.list.m_cb e = some b ↔ b ∈ ring ∧ (s.list.blocks b).element = some e
  elements : ring.filterMap (fun b => (s.list.blocks b).element) = order
  /-- Without an element a block is there as long as an iterator holds it. -/
  removed : ∀ b, b ∈ ring ∧ (s.list.blocks b).element = none ↔ b ∈ s.held ∧ ∀ e, s.list.m_cb e ≠ some b
  /-- No pointer leads to a block that is destroyed. -/
  pointers : ∀ b, s.list.alive b = true → s.list.alive (s.list.links.next b) = true ∧ s.list.alive (s.list.links.prev b) = true
  references : ∀ b, b ∈ s.held ∨ (∃ e, s.list.m_cb e = some b) ∨ s.list.m_base = some b → s.list.alive b = true

section spec
variable {s s' : Iterated ε} {list : CallbackList ε} {held ring : List Address}

/-- Every block that is not destroyed is in a ring of such blocks. -/
theorem in_ring (inv : Inv list held [] ring) {b : Address} (living : list.alive b = true) :
    ∃ entry others, IsRing list.links entry others ∧ b ∈ entry :: others ∧ ∀ c ∈ entry :: others, list.alive c = true := by
  have inside := (inv.alive b).mp living
  have shape := inv.shape
  unfold Shape at shape
  cases based : list.m_base with
  | some base =>
    rw [based] at shape inside
    refine ⟨base,ring,shape,?_,fun c member => (inv.alive c).mpr ?_⟩
    · rcases inside with same | member
      · exact Option.some.inj same ▸ List.mem_cons_self
      · exact List.mem_cons_of_mem _ member
    · rcases List.mem_cons.mp member with rfl | member
      · exact .inl based
      · exact .inr member
  | none =>
    rw [based] at shape inside
    have member := inside.resolve_left fun same => by cases same
    cases ring with
    | nil => cases member
    | cons first rest => exact ⟨first,rest,shape first rest rfl,member,fun c one => (inv.alive c).mpr (.inr one)⟩

theorem sequence_of_inv (inv : Inv s.list s.held [] ring) : Sequence s (elements s.list ring) ring := by
  have referenced : ∀ b, b ∈ ring ↔ b ∈ s.held ∨ ∃ e, s.list.m_cb e = some b := by
    intro b
    constructor
    · intro member
      by_cases holds : b ∈ s.held
      · exact .inl holds
      · have living := inv.living member
        have counted := inv.count b
        have unbased : b ∉ s.list.m_base.toList := fun based => inv.base_outside (Option.mem_toList.mp based) member
        rw [List.count_eq_zero_of_not_mem holds,List.count_eq_zero_of_not_mem unbased] at counted
        cases element : (s.list.blocks b).element with
        | none => simp [element,living] at counted
        | some e => exact .inr ⟨e,(inv.cb e b).mpr ⟨member,element⟩⟩
    · rintro (holds | ⟨e,owned⟩)
      · exact inv.inside b holds
      · exact ((inv.cb e b).mp owned).1
  refine ⟨fun b living => ?_,fun base based => inv.shape.isRing based,inv.shape.once,referenced,inv.cb,rfl,fun b => ?_,
    fun b living => ?_,fun b refers => (inv.alive b).mpr ?_⟩
  · obtain ⟨entry,others,round,member,-⟩ := in_ring inv living
    exact ⟨(round.inverse member).1.1,(round.inverse member).2.1⟩
  · constructor
    · rintro ⟨member,nothing⟩
      have unowned : ∀ e, s.list.m_cb e ≠ some b := by
        intro e owned
        rw [((inv.cb e b).mp owned).2] at nothing
        cases nothing
      refine ⟨((referenced b).mp member).resolve_right ?_,unowned⟩
      rintro ⟨e,owned⟩
      exact unowned e owned
    · rintro ⟨holds,unowned⟩
      have member := inv.inside b holds
      refine ⟨member,Option.eq_none_iff_forall_ne_some.mpr fun e element => ?_⟩
      exact unowned e ((inv.cb e b).mpr ⟨member,element⟩)
  · obtain ⟨entry,others,round,member,alive⟩ := in_ring inv living
    exact ⟨alive _ (round.inverse member).1.2,alive _ (round.inverse member).2.2⟩
  · rcases refers with holds | ⟨e,owned⟩ | based
    · exact .inr (inv.inside b holds)
    · exact .inr ((inv.cb e b).mp owned).1
    · exact .inl based

theorem destroyBase_eq {base : Address} (based : list.m_base = some base) :
    list.destroyBase =
      (CallbackList.modify { list with m_base := none } base fun block => { block with element := none }).reset base := by
  rw [CallbackList.destroyBase,based]

/-- `m_base` lets go of the sentinel, which leaves the ring. -/
theorem inv_destroyBase {base : Address} (based : list.m_base = some base) (inv : Inv list held [] ring) :
    Inv list.destroyBase held [] ring := by
  have outside := inv.base_outside based
  have unheld : base ∉ held := fun one => outside (inv.inside base one)
  have nothing := inv.outside base outside
  have single : (list.blocks base).use_count = 1 := by
    have counted := inv.count base
    simpa [nothing,based,List.count_eq_zero_of_not_mem unheld] using counted
  let gone : CallbackList ε :=
    (CallbackList.modify { list with m_base := none } base fun block => { block with element := none }).dropRef base
  have dropped : list.destroyBase = gone.ctrlBlockDtor base := by
    rw [destroyBase_eq based]
    unfold CallbackList.reset
    exact if_pos (by simp [CallbackList.dropRef,single])
  have blocks : (gone.ctrlBlockDtor base).blocks = gone.blocks := CallbackList.unlinkLocked_blocks gone base
  have other_blocks : ∀ c, c ≠ base → gone.blocks c = list.blocks c := fun c other => by simp [gone,CallbackList.dropRef,other]
  have member_block : ∀ c ∈ ring, gone.blocks c = list.blocks c := by
    intro c member
    exact other_blocks c fun same => outside (same ▸ member)
  have unbased : (gone.ctrlBlockDtor base).m_base = none := CallbackList.unlinkLocked_m_base gone base
  have owned : (gone.ctrlBlockDtor base).m_cb = list.m_cb := CallbackList.unlinkLocked_m_cb gone base
  have lock : (gone.ctrlBlockDtor base).m_shared_lock = list.m_shared_lock := CallbackList.unlinkLocked_m_shared_lock gone base
  rw [dropped]
  refine ⟨?_,fun c => ?_,fun c => ?_,fun c => ?_,List.nodup_nil,inv.inside,fun e c => ?_,fun c away => ?_,
    fun c member => ?_,fun c member => ?_⟩
  · rw [Shape,unbased]
    rintro first rest rfl
    have round := inv.shape.isRing based
    have listed : gone.isInListLocked base = true :=
      isInListLocked_iff.mpr fun same => List.cons_ne_nil first rest (round.alone_iff.mp same)
    have links : (gone.ctrlBlockDtor base).links = gone.links.unlink base :=
      congrArg CallbackList.links (if_pos listed)
    rw [links]
    exact round.unlink_entry
  · rw [unbased]
    have living := inv.alive c
    rcases eq_or_ne c base with rfl | other
    · simp [CallbackList.ctrlBlockDtor,outside]
    · simpa [CallbackList.ctrlBlockDtor,gone,CallbackList.dropRef,other,based,Ne.symm other] using living
  · rw [blocks,unbased]
    rcases eq_or_ne c base with rfl | other
    · simp [gone,CallbackList.dropRef,single,List.count_eq_zero_of_not_mem unheld]
    · rw [other_blocks c other]
      simpa [based,Ne.symm other] using inv.count c
  · rw [blocks]
    have dead := inv.dead c
    refine iff_of_false List.not_mem_nil ?_
    rintro ⟨member,zero⟩
    rw [member_block c member] at zero
    exact List.not_mem_nil (dead.mpr ⟨member,zero⟩)
  · rw [owned,blocks,inv.cb e c]
    refine and_congr_right fun member => ?_
    rw [member_block c member]
  · rw [blocks]
    rcases eq_or_ne c base with rfl | other
    · simp [gone,CallbackList.dropRef]
    · rw [other_blocks c other]
      exact inv.outside c away
  · rw [blocks,member_block c member]
    exact inv.curr c member
  · rw [blocks,member_block c member,lock]
    exact inv.lock c member

theorem elements_destroyBase {base : Address} (based : list.m_base = some base) (outside : base ∉ ring) :
    elements list.destroyBase ring = elements list ring := by
  refine elements_congr fun c member => ?_
  have other : c ≠ base := fun same => outside (same ▸ member)
  rw [destroyBase_eq based,reset_element]
  simp [other]

/-- `~CallbackList` comes to its end, and leaves the blocks that iterators hold,
    without elements. -/
theorem destroy_spec {base : Address} (based : list.m_base = some base) (inv : Inv list held [] ring) (rounds : Nat) :
    (ring.length < rounds → (list.destroy rounds).isSome) ∧
    ∀ result, list.destroy rounds = some result →
      result.m_base = none ∧ ∃ rest, Inv result held [] rest ∧ elements result rest = [] := by
  have looped := inv.removeAll (fun _ => true) based rounds
  have unfolded : list.destroy rounds =
      (CallbackList.destroyLoop rounds list.front.2 list.front.1).map CallbackList.destroyBase := by
    cases ended : CallbackList.destroyLoop rounds list.front.2 list.front.1 <;> simp [CallbackList.destroy,ended]
  rw [unfolded]
  refine ⟨fun many => Option.isSome_map.trans (looped.1 many),fun result destroyed => ?_⟩
  obtain ⟨s,ended,rfl⟩ := Option.map_eq_some_iff.mp destroyed
  obtain ⟨still,rest,after,pruned⟩ := looped.2 s ended
  have unbased : s.destroyBase.m_base = none := by
    rw [destroyBase_eq still]
    exact reset_m_base ..
  refine ⟨unbased,rest,inv_destroyBase still after,?_⟩
  rw [elements_destroyBase still (after.base_outside still),pruned.elements_eq]
  simp

/-! ### Runs -/

/-- The list has the shape of the elements in this order. -/
def Ordered (s : Iterated ε) (order : List ε) : Prop := ∃ ring, Inv s.list s.held [] ring ∧ elements s.list ring = order

theorem pushed_none (insert : Links Address → Address → Address → Links Address) (address : Address) :
    (list.push insert none address).2.destroyUnlocked (list.push insert none address).1 = list := by
  unfold CallbackList.push
  cases list.m_base <;> rfl

theorem step_ordered {order : List ε} {action : Action ε} (holds : Ordered s order) (stepped : step s action = some s') :
    Ordered s' (lastPushes order action) := by
  obtain ⟨ring,inv,rfl⟩ := holds
  cases action with
  | pushBack element address =>
    obtain ⟨⟨based,free⟩,moved⟩ := Option.ite_none_right_eq_some.mp stepped
    obtain rfl := Option.some.inj moved
    obtain ⟨base,based⟩ := Option.isSome_iff_exists.mp based
    cases element with
    | none =>
      have same : s.list.pushBack none address = s.list := pushed_none Links.insertBefore address
      exact ⟨ring,same.symm ▸ inv,same.symm ▸ rfl⟩
    | some e => exact inv.push based inserts_back e free
  | pushFront element address =>
    obtain ⟨⟨based,free⟩,moved⟩ := Option.ite_none_right_eq_some.mp stepped
    obtain rfl := Option.some.inj moved
    obtain ⟨base,based⟩ := Option.isSome_iff_exists.mp based
    cases element with
    | none =>
      have same : s.list.pushFront none address = s.list := pushed_none Links.insertAfter address
      exact ⟨ring,same.symm ▸ inv,same.symm ▸ rfl⟩
    | some e => exact inv.push based inserts_front e free
  | removeFromList e =>
    obtain rfl := Option.some.inj stepped
    obtain ⟨ring',after,pruned⟩ := inv.removeFromList e
    exact ⟨ring',after,pruned.elements_eq.trans (inv.elements_nodup.erase_eq_filter e).symm⟩
  | front =>
    obtain ⟨based,moved⟩ := Option.ite_none_right_eq_some.mp stepped
    obtain rfl := Option.some.inj moved
    obtain ⟨base,based⟩ := Option.isSome_iff_exists.mp based
    rcases inv.front_eq based with ⟨-,found⟩ | ⟨first,rest,-,found,acquired⟩
    · exact ⟨ring,by rw [found]; exact inv,by rw [found]; rfl⟩
    · exact ⟨ring,by rw [found]; exact acquired,by rw [found]; exact elements_acquire ..⟩
  | getNext current =>
    obtain ⟨⟨based,holding⟩,moved⟩ := Option.ite_none_right_eq_some.mp stepped
    obtain rfl := Option.some.inj moved
    obtain ⟨base,based⟩ := Option.isSome_iff_exists.mp based
    obtain ⟨before,behind,here⟩ := List.append_of_mem (inv.inside current holding)
    rcases inv.getNext_eq based here with ⟨-,found⟩ | ⟨next,rest,-,found,acquired⟩
    · exact ⟨ring,by rw [found]; exact inv,by rw [found]; rfl⟩
    · exact ⟨ring,by rw [found]; exact acquired,by rw [found]; exact elements_acquire ..⟩
  | drop cb =>
    obtain ⟨holding,moved⟩ := Option.ite_none_right_eq_some.mp stepped
    obtain rfl := Option.some.inj moved
    obtain ⟨ring',after,pruned⟩ := inv.reset holding
    exact ⟨ring',after,pruned.elements_eq.trans (List.filter_eq_self.mpr fun _ _ => rfl)⟩
  | destroy rounds =>
    obtain ⟨based,moved⟩ := Option.ite_none_right_eq_some.mp stepped
    obtain ⟨list,destroyed,rfl⟩ := Option.map_eq_some_iff.mp moved
    obtain ⟨base,based⟩ := Option.isSome_iff_exists.mp based
    obtain ⟨-,rest,after,gone⟩ := (destroy_spec based inv rounds).2 list destroyed
    exact ⟨rest,after,gone⟩

/-- On one thread a `CallbackList` is the sequence of its elements in the order
    of their last pushes, and it can be destroyed at any time. -/
theorem callback_list_sequence (shared_lock : SharedLock) (address : Address) (actions : List (Action ε)) :
    (∃ ring, Sequence (run step (start shared_lock address) actions)
      ((taken step (start shared_lock address) actions).foldl lastPushes []) ring) ∧
    ((run step (start shared_lock address) actions).list.m_base.isSome →
      ∃ rounds, (step (run step (start shared_lock address) actions) (.destroy rounds)).isSome) := by
  have begun : Ordered (start (ε := ε) shared_lock address) [] := ⟨[],inv_create shared_lock address,rfl⟩
  have keeps : ∀ (s : Iterated ε) order action s', Ordered s order → step s action = some s' →
      Ordered s' (lastPushes order action) := fun _ _ _ _ => step_ordered
  obtain ⟨ring,inv,ordered⟩ := run_fold keeps begun actions
  refine ⟨⟨ring,ordered ▸ sequence_of_inv inv⟩,fun based => ?_⟩
  obtain ⟨base,has_base⟩ := Option.isSome_iff_exists.mp based
  refine ⟨ring.length + 1,?_⟩
  rw [step,if_pos based,Option.isSome_map]
  exact (destroy_spec has_base inv _).1 (Nat.lt_succ_self _)

end spec

end IpcPortable.ListRuns
