import IpcPortable.EventHandlerMaps

/-!
What the operations of `EventHandlerMap` do to its lists, whatever references
iterators hold: a handler that is added stands at the end of the list of its
key, a tag that is cleared is gone from every list in the maps, and the entries
that go are those whose ring is empty.
-/
namespace IpcPortable.HandlerLists
open IpcPortable.Rings IpcPortable.OrderedMaps IpcPortable.CallbackLists IpcPortable.ListShape IpcPortable.EventHandlerMaps

/-! ### Lists of handlers -/

/-- A list that is in order: `held` are the references of iterators, `dying` the
    blocks that are about to be destroyed, and what is in it was made before and
    is for its source. -/
structure Usable (list : CallbackList Caller) (source : Source) (fresh : Nat) (held dying ring : List Address) : Prop where
  base : ∃ base : Nat, list.m_base = some base ∧ base < fresh
  inv : Inv list held dying ring
  addresses : ∀ b : Nat, b ∈ ring → b < fresh
  callers : ∀ caller ∈ elements list ring, caller.id < fresh ∧ caller.params_type = source.params_type

section usable
variable {list list' : CallbackList Caller} {source : Source} {fresh fresh' : Nat} {held held' dying dying' ring ring' : List Address}

theorem Usable.mono (usable : Usable list source fresh held dying ring) (grown : fresh ≤ fresh') :
    Usable list source fresh' held dying ring := by
  obtain ⟨base,based,small⟩ := usable.base
  refine ⟨⟨base,based,by omega⟩,usable.inv,fun b member => ?_,fun caller member => ?_⟩
  · exact Nat.lt_of_lt_of_le (usable.addresses b member) grown
  · obtain ⟨old,typed⟩ := usable.callers caller member
    exact ⟨Nat.lt_of_lt_of_le old grown,typed⟩

/-- The sentinel and the blocks have different addresses. -/
theorem Usable.short (usable : Usable list source fresh held dying ring) : ring.length < fresh := by
  obtain ⟨base,based,small⟩ := usable.base
  have once : (base :: ring).Nodup := (usable.inv.shape.isRing based).nodup
  have bounded : base :: ring ⊆ List.range fresh := by
    intro b member
    refine List.mem_range.mpr ?_
    rcases List.mem_cons.mp member with rfl | inside
    · exact small
    · exact usable.addresses b inside
  have fits := once.length_le_of_subset bounded
  exact Nat.lt_of_succ_le (by simpa using fits)

theorem Usable.pruned {kept : Caller → Bool} (usable : Usable list source fresh held dying ring) (inv : Inv list' held' dying' ring')
    (pruned : Pruned kept list ring list' ring') (same : list'.m_base = list.m_base) :
    Usable list' source fresh held' dying' ring' := by
  have fewer := pruned.elements_eq
  obtain ⟨stays,rfl,-⟩ := pruned
  refine ⟨by rw [same]; exact usable.base,inv,fun b member => usable.addresses b (List.mem_filter.mp member).1,?_⟩
  intro caller member
  rw [fewer] at member
  exact usable.callers caller (List.mem_filter.mp member).1

theorem usable_create (shared_lock address : Nat) (source : Source) (small : address < fresh) :
    Usable (CallbackList.create shared_lock address) source fresh [] [] [] where
  base := ⟨address,rfl,small⟩
  inv := inv_create shared_lock address
  addresses b member := by cases member
  callers caller member := by cases member

/-- A new caller goes to the end. -/
theorem Usable.push {caller : Caller} (usable : Usable list source fresh held dying ring) (new : caller.id = fresh)
    (typed : caller.params_type = source.params_type) :
    Usable (list.pushBack (some caller) (fresh + 1)) source (fresh + 2) held dying (ring ++ [fresh + 1]) ∧
    (∀ part, part ⊆ ring → elements (list.pushBack (some caller) (fresh + 1)) part = elements list part) ∧
    elements (list.pushBack (some caller) (fresh + 1)) [fresh + 1] = [caller] := by
  obtain ⟨base,based,small⟩ := usable.base
  have inv := usable.inv
  have unlisted : list.m_cb caller = none := by
    cases owned : list.m_cb caller with
    | none => rfl
    | some b =>
      obtain ⟨member,element⟩ := (inv.cb caller b).mp owned
      have old := (usable.callers caller (mem_elements.mpr ⟨b,member,element⟩)).1
      omega
  have outside : fresh + 1 ∉ ring := fun member => by
    have old := usable.addresses _ member
    omega
  have free : list.alive (fresh + 1) = false := by
    cases living : list.alive (fresh + 1) with
    | false => rfl
    | true =>
      rcases (inv.alive _).mp living with same | member
      · have sentinel := Option.some.inj (based.symm.trans same)
        omega
      · exact absurd member outside
  have kept : ∀ part, part ⊆ ring → elements (withBlock list Links.insertBefore base caller (fresh + 1)) part = elements list part :=
    fun part inside => elements_withBlock fun member => outside (inside member)
  have single : elements (withBlock list Links.insertBefore base caller (fresh + 1)) [fresh + 1] = [caller] :=
    elements_cons_some (by simp [withBlock])
  rw [inv.pushNew based unlisted]
  refine ⟨⟨⟨base,based,by omega⟩,inv.withBlock based inserts_back unlisted free,fun b member => ?_,fun one member => ?_⟩,
    kept,single⟩
  · rcases List.mem_append.mp member with inside | last
    · exact Nat.lt_add_right 2 (usable.addresses b inside)
    · rw [List.mem_singleton.mp last]
      exact Nat.lt_succ_self _
  · rw [elements_append,kept ring fun _ inside => inside,single] at member
    rcases List.mem_append.mp member with inside | last
    · obtain ⟨old,same⟩ := usable.callers one inside
      exact ⟨Nat.lt_add_right 2 old,same⟩
    · obtain rfl := List.mem_singleton.mp last
      exact ⟨by omega,typed⟩

/-- `!callers.Front()` tells whether the ring is empty, and leaves it as it is. -/
theorem Usable.looksEmpty_eq (usable : Usable list source fresh held [] ring) :
    looksEmpty list = (decide (ring = []),list) := by
  obtain ⟨base,based,-⟩ := usable.base
  rcases usable.inv.front_eq based with ⟨rfl,nothing⟩ | ⟨first,others,rfl,found,-⟩
  · rw [looksEmpty,nothing]
    rfl
  · have living := usable.inv.living (b := first) List.mem_cons_self
    rw [looksEmpty,found]
    simp [acquire_reset living]

/-- What `RemoveTagFromMap_Locked` does with one list. -/
theorem Usable.removeTag (usable : Usable list source fresh held [] ring) (tag : Tag) :
    ∃ list' ring', CallbackList.removeLoop (fun element => element.tag = tag) fresh list.front.2 list.front.1 = some list' ∧
      looksEmpty list' = (decide (ring' = []),list') ∧ Usable list' source fresh held [] ring' ∧ list'.m_base = list.m_base ∧
      Pruned (fun element => !decide (element.tag = tag)) list ring list' ring' := by
  obtain ⟨base,based,-⟩ := usable.base
  obtain ⟨ends,good⟩ := usable.inv.removeAll (fun element => decide (element.tag = tag)) based fresh
  obtain ⟨list',ended⟩ := Option.isSome_iff_exists.mp (ends usable.short)
  obtain ⟨still,ring',after,pruned⟩ := good list' ended
  have usable' := usable.pruned after pruned (still.trans based.symm)
  exact ⟨list',ring',ended,usable'.looksEmpty_eq,usable',still.trans based.symm,pruned⟩

end usable

/-! ### The heap -/

/-- All lists are in order, with the references that iterators hold of each and
    the blocks that are about to be destroyed. -/
structure HeapInv (heap : Heap) (held dying : CallersPtr → List Address) : Prop where
  lists : ∀ i, (heap.lists i).m_base.isSome →
    Usable (heap.lists i) (heap.made_for i) heap.fresh (held i) (dying i) (heap.ring i)
  unmade : ∀ i : Nat, heap.fresh ≤ i → (heap.lists i).m_base = none
  unheld : ∀ i, (heap.lists i).m_base = none → held i = [] ∧ dying i = []
/-- On one thread a block goes with its last reference. -/
abbrev noneDying : CallersPtr → List Address := fun _ => []

section heaps
variable {heap heap' : Heap} {held dying : CallersPtr → List Address} {i : CallersPtr}

theorem Usable.ring_eq {source : Source} {references destroyed ring : List Address}
    (usable : Usable (heap.lists i) source heap.fresh references destroyed ring) : heap.ring i = ring := by
  obtain ⟨base,based,-⟩ := usable.base
  rw [Heap.ring,based]
  exact (usable.inv.shape.isRing based).walk_eq (Nat.le_of_lt usable.short)

theorem ring_unmade (unmade : (heap.lists i).m_base = none) : heap.ring i = [] := by
  rw [Heap.ring,unmade]

/-- A list that nothing was done to has the same blocks. -/
theorem HeapInv.ring_same (inv : HeapInv heap held dying) (same : heap'.lists i = heap.lists i) (grown : heap.fresh ≤ heap'.fresh) :
    heap'.ring i = heap.ring i := by
  cases based : (heap.lists i).m_base with
  | none => rw [ring_unmade based,ring_unmade (same ▸ based)]
  | some base =>
    have usable := (inv.lists i (by rw [based]; rfl)).mono grown
    rw [← same] at usable
    exact usable.ring_eq

/-- One list is replaced by another one in order. -/
theorem HeapInv.replaceBlocks {source : Source} {references destroyed ring : List Address} (inv : HeapInv heap held dying)
    (others : ∀ j, j ≠ i → heap'.lists j = heap.lists j ∧ heap'.made_for j = heap.made_for j)
    (grown : heap.fresh ≤ heap'.fresh) (mine : heap'.made_for i = source) (small : i < heap'.fresh)
    (usable : Usable (heap'.lists i) source heap'.fresh references destroyed ring) :
    HeapInv heap' (Function.update held i references) (Function.update dying i destroyed) ∧ heap'.ring i = ring := by
  have ring_eq := usable.ring_eq
  refine ⟨⟨fun j made => ?_,fun j large => ?_,fun j unmade => ?_⟩,ring_eq⟩
  · rcases eq_or_ne j i with rfl | other
    · rw [Function.update_self,Function.update_self,ring_eq,mine]
      exact usable
    · obtain ⟨same,same_source⟩ := others j other
      rw [Function.update_of_ne other,Function.update_of_ne other,inv.ring_same same grown,same,same_source]
      exact (inv.lists j (same ▸ made)).mono grown
  · have other : j ≠ i := fun same => absurd small (Nat.not_lt_of_le (same ▸ large))
    rw [(others j other).1]
    exact inv.unmade j (Nat.le_trans grown large)
  · obtain ⟨base,based,-⟩ := usable.base
    have other : j ≠ i := by
      rintro rfl
      rw [based] at unmade
      cases unmade
    rw [Function.update_of_ne other,Function.update_of_ne other]
    exact inv.unheld j ((others j other).1 ▸ unmade)

/-- The new list has the same blocks about to be destroyed. -/
theorem HeapInv.replace {source : Source} {references ring : List Address} (inv : HeapInv heap held dying)
    (others : ∀ j, j ≠ i → heap'.lists j = heap.lists j ∧ heap'.made_for j = heap.made_for j)
    (grown : heap.fresh ≤ heap'.fresh) (mine : heap'.made_for i = source) (small : i < heap'.fresh)
    (usable : Usable (heap'.lists i) source heap'.fresh references (dying i) ring) :
    HeapInv heap' (Function.update held i references) dying ∧ heap'.ring i = ring := by
  have replaced := inv.replaceBlocks others grown mine small usable
  rwa [Function.update_eq_self] at replaced

/-- Lists that are made have small addresses. -/
theorem HeapInv.small (inv : HeapInv heap held dying) (made : (heap.lists i).m_base.isSome) : i < heap.fresh := by
  by_contra large
  rw [inv.unmade i (Nat.le_of_not_lt large)] at made
  cases made

/-- What an access leaves of the lists. -/
structure Thinned (kept : CallersPtr → Caller → Bool) (heap heap' : Heap) : Prop where
  fresh : heap'.fresh = heap.fresh
  sources : heap'.made_for = heap.made_for
  bases : ∀ i, (heap'.lists i).m_base = (heap.lists i).m_base
  lists : ∀ i, Pruned (kept i) (heap.lists i) (heap.ring i) (heap'.lists i) (heap'.ring i)

/-- One list is accessed. -/
theorem HeapInv.access {list : CallbackList Caller} {references destroyed ring : List Address} {kept : Caller → Bool}
    (inv : HeapInv heap held dying) (made : (heap.lists i).m_base.isSome) (whole : Inv list references destroyed ring)
    (pruned : Pruned kept (heap.lists i) (heap.ring i) list ring) (same : list.m_base = (heap.lists i).m_base) :
    HeapInv (heap.setList i list) (Function.update held i references) (Function.update dying i destroyed) ∧
    Thinned (fun j caller => if j = i then kept caller else true) heap (heap.setList i list) ∧ (heap.setList i list).ring i = ring := by
  have usable := (inv.lists i made).pruned whole pruned same
  have here : (heap.setList i list).lists i = list := Function.update_self ..
  have others : ∀ j, j ≠ i → (heap.setList i list).lists j = heap.lists j := fun j other => Function.update_of_ne other ..
  rw [← here] at usable
  obtain ⟨replaced,ring_eq⟩ := inv.replaceBlocks (fun j other => ⟨others j other,rfl⟩) (Nat.le_refl _) rfl (inv.small made) usable
  refine ⟨replaced,⟨rfl,rfl,fun j => ?_,fun j => ?_⟩,ring_eq⟩
  · rcases eq_or_ne j i with rfl | other
    · rw [here,same]
    · rw [others j other]
  · rcases eq_or_ne j i with rfl | other
    · rw [here,ring_eq]
      exact pruned.congr fun caller _ => (if_pos rfl).symm
    · rw [inv.ring_same (others j other) (Nat.le_refl _),others j other]
      exact (pruned_all fun _ _ => rfl).congr fun caller _ => (if_neg other).symm

theorem HeapInv.makeCallers (inv : HeapInv heap held dying) (source : Source) :
    HeapInv (heap.makeCallers source) held dying ∧ (heap.makeCallers source).ring heap.fresh = [] := by
  have unmade := inv.unmade heap.fresh (Nat.le_refl _)
  have created : Usable ((heap.makeCallers source).lists heap.fresh) source (heap.makeCallers source).fresh [] [] [] := by
    have list : (heap.makeCallers source).lists heap.fresh = CallbackList.create heap.fresh (heap.fresh + 1) :=
      Function.update_self ..
    rw [list]
    exact usable_create heap.fresh (heap.fresh + 1) source (Nat.lt_succ_self _)
  have replaced := inv.replaceBlocks (fun j other => ⟨Function.update_of_ne other ..,Function.update_of_ne other ..⟩)
    (Nat.le_add_right _ 2) (Function.update_self ..) (Nat.lt_add_of_pos_right (Nat.succ_pos 1)) created
  obtain ⟨free,whole⟩ := inv.unheld heap.fresh unmade
  rw [show ([] : List Address) = held heap.fresh from free.symm,Function.update_eq_self,free,
    show ([] : List Address) = dying heap.fresh from whole.symm,Function.update_eq_self] at replaced
  exact ⟨replaced.1,created.ring_eq⟩

/-- What a new caller in a list changes. -/
structure Pushed (heap heap' : Heap) (i : CallersPtr) (caller : Caller) (address : Address) : Prop where
  others : ∀ j, j ≠ i → heap'.lists j = heap.lists j
  sources : ∀ j, (heap.lists j).m_base.isSome → (heap'.lists j).m_base.isSome ∧ heap'.made_for j = heap.made_for j
  ring : heap'.ring i = heap.ring i ++ [address]
  kept : ∀ part, part ⊆ heap.ring i → elements (heap'.lists i) part = elements (heap.lists i) part
  last : elements (heap'.lists i) [address] = [caller]
  made : (heap'.lists i).m_base.isSome
  grown : heap.fresh ≤ caller.id ∧ caller.id < heap'.fresh

theorem HeapInv.pushCaller {caller : Caller} (inv : HeapInv heap held dying) (made : (heap.lists i).m_base.isSome)
    (new : caller.id = heap.fresh) (typed : caller.params_type = (heap.made_for i).params_type) :
    HeapInv (heap.pushCaller i caller) held dying ∧ Pushed heap (heap.pushCaller i caller) i caller (heap.fresh + 1) := by
  have list : (heap.pushCaller i caller).lists i = (heap.lists i).pushBack (some caller) (heap.fresh + 1) :=
    Function.update_self ..
  obtain ⟨usable,kept,last⟩ := (inv.lists i made).push new typed
  rw [← list] at usable kept last
  have small := inv.small made
  have others : ∀ j, j ≠ i → (heap.pushCaller i caller).lists j = heap.lists j :=
    fun j other => Function.update_of_ne other ..
  obtain ⟨replaced,ring⟩ := inv.replace (fun j other => ⟨others j other,rfl⟩) (Nat.le_add_right _ 2) rfl
    (Nat.lt_add_right 2 small) usable
  rw [Function.update_eq_self] at replaced
  have still : ((heap.pushCaller i caller).lists i).m_base.isSome := by
    obtain ⟨base,based,-⟩ := usable.base
    rw [based]
    rfl
  refine ⟨replaced,others,fun j before => ⟨?_,rfl⟩,ring,kept,last,still,Nat.le_of_eq new.symm,?_⟩
  · rcases eq_or_ne j i with rfl | other
    · exact still
    · rw [others j other]
      exact before
  · rw [new]
    exact Nat.lt_add_of_pos_right (Nat.succ_pos 1)

/-- What `RemoveTagFromMap_Locked` leaves of the lists and of the entries. -/
structure TagRemoved {κ : Type} (tag : Tag) (heap : Heap) (entries : List (κ × CallersPtr)) (heap' : Heap)
    (entries' : List (κ × CallersPtr)) : Prop where
  fresh : heap'.fresh = heap.fresh
  sources : heap'.made_for = heap.made_for
  bases : ∀ i, (heap'.lists i).m_base = (heap.lists i).m_base
  others : ∀ i, i ∉ entries.map Prod.snd → heap'.lists i = heap.lists i
  lists : ∀ entry ∈ entries, Pruned (fun element => !decide (element.tag = tag)) (heap.lists entry.2) (heap.ring entry.2)
    (heap'.lists entry.2) (heap'.ring entry.2)
  entries : entries' = entries.filter fun entry => heap'.ring entry.2 ≠ []

theorem HeapInv.removeTag {κ : Type} (tag : Tag) {entries : List (κ × CallersPtr)} (inv : HeapInv heap held noneDying)
    (made : ∀ entry ∈ entries, (heap.lists entry.2).m_base.isSome) (distinct : (entries.map Prod.snd).Nodup) :
    ∃ entries' heap', removeTagFromMapLocked tag heap entries = some (entries',heap') ∧ HeapInv heap' held noneDying ∧
      TagRemoved tag heap entries heap' entries' := by
  induction entries generalizing heap with
  | nil =>
    refine ⟨[],heap,rfl,inv,rfl,rfl,fun _ => rfl,fun _ _ => rfl,fun entry member => ?_,rfl⟩
    cases member
  | cons entry others ih =>
    have here := made entry List.mem_cons_self
    obtain ⟨away,apart⟩ := List.nodup_cons.mp distinct
    have old := inv.lists entry.2 here
    obtain ⟨list,ring,looped,empty,usable,base_same,pruned⟩ := old.removeTag tag
    have list_eq : (heap.setList entry.2 list).lists entry.2 = list := Function.update_self ..
    have other_lists : ∀ j, j ≠ entry.2 → (heap.setList entry.2 list).lists j = heap.lists j :=
      fun j other => Function.update_of_ne other ..
    have small := inv.small here
    rw [← list_eq] at usable
    obtain ⟨inv₁,ring₁⟩ := inv.replace (fun j other => ⟨other_lists j other,rfl⟩) (Nat.le_refl _) rfl small usable
    rw [Function.update_eq_self] at inv₁
    have bases : ∀ i, ((heap.setList entry.2 list).lists i).m_base = (heap.lists i).m_base := by
      intro i
      rcases eq_or_ne i entry.2 with rfl | other
      · rw [list_eq,base_same]
      · rw [other_lists i other]
    obtain ⟨entries',heap',removed,inv',spec⟩ := ih inv₁
      (fun one member => by rw [bases]; exact made one (List.mem_cons_of_mem _ member)) apart
    have kept : heap'.lists entry.2 = list := (spec.others entry.2 away).trans list_eq
    have kept_ring : heap'.ring entry.2 = ring :=
      (inv₁.ring_same (spec.others entry.2 away) (Nat.le_of_eq spec.fresh.symm)).trans ring₁
    refine ⟨if decide (ring = []) then entries' else entry :: entries',heap',?_,inv',spec.fresh,spec.sources,
      fun i => (spec.bases i).trans (bases i),fun i outside => ?_,fun one member => ?_,?_⟩
    · rw [removeTagFromMapLocked]
      simp only [looped,empty,removed,Option.bind_eq_bind,Option.bind_some]
      rfl
    · obtain ⟨first,rest⟩ := not_or.mp (mt List.mem_cons.mpr outside)
      exact (spec.others i rest).trans (other_lists i first)
    · rcases List.mem_cons.mp member with rfl | later
      · rw [kept,kept_ring]
        exact pruned
      · have other : one.2 ≠ entry.2 := fun same => away (same ▸ List.mem_map_of_mem later)
        have same := spec.lists one later
        rw [other_lists one.2 other,inv.ring_same (other_lists one.2 other) (Nat.le_refl _)] at same
        exact same
    · rw [spec.entries]
      by_cases nothing : ring = []
      · rw [List.filter_cons_of_neg (by simp [kept_ring,nothing]),if_pos (decide_eq_true nothing)]
      · rw [List.filter_cons_of_pos (by simp [kept_ring,nothing]),if_neg (by simp [nothing])]

end heaps

/-! ### The maps -/

/-- The entries ascend, and each has a list that was made for its key. -/
structure ProcsInv {κ : Type} [LinearOrder κ] (heap : Heap) (source : κ → Source) (procs_map : List (κ × CallersPtr)) : Prop where
  sorted : Sorted procs_map
  made : ∀ entry ∈ procs_map, (heap.lists entry.2).m_base.isSome ∧ heap.made_for entry.2 = source entry.1
structure MapInv (m : EventHandlerMap) (held dying : CallersPtr → List Address) : Prop where
  heap : HeapInv m.heap held dying
  names : ProcsInv m.heap .name m.m_name_procs
  types : ProcsInv m.heap .type m.m_type_procs

section procs_maps
variable {κ : Type} [LinearOrder κ] {heap heap' : Heap} {held dying : CallersPtr → List Address} {source : κ → Source}
  {procs_map : List (κ × CallersPtr)}

theorem ProcsInv.found (inv : ProcsInv heap source procs_map) {key : κ} {i : CallersPtr}
    (found : findCallerLocked procs_map key = some i) : (heap.lists i).m_base.isSome ∧ heap.made_for i = source key :=
  inv.made (key,i) ((lookup_eq_some inv.sorted).mp found)

/-- Lists stay lists, for what they were made. -/
theorem ProcsInv.mono (inv : ProcsInv heap source procs_map)
    (still : ∀ i, (heap.lists i).m_base.isSome → (heap'.lists i).m_base.isSome ∧ heap'.made_for i = heap.made_for i) :
    ProcsInv heap' source procs_map := by
  refine ⟨inv.sorted,fun entry member => ?_⟩
  obtain ⟨made,mine⟩ := inv.made entry member
  exact ⟨(still _ made).1,(still _ made).2.trans mine⟩

theorem ProcsInv.filter (inv : ProcsInv heap source procs_map) (p : κ × CallersPtr → Bool) :
    ProcsInv heap source (procs_map.filter p) :=
  ⟨List.Pairwise.filter p inv.sorted,fun entry member => inv.made entry (List.mem_filter.mp member).1⟩

/-- No list is in two entries. -/
theorem ProcsInv.distinct (inv : ProcsInv heap source procs_map) (injective : Function.Injective source) :
    (procs_map.map Prod.snd).Nodup := by
  refine List.Nodup.map_on (fun a one b other same => ?_) (inv.sorted.imp fun below => ?_)
  · have keys : a.1 = b.1 := by
      refine injective ?_
      rw [← (inv.made a one).2,← (inv.made b other).2,same]
    exact Prod.ext keys same
  · rintro rfl
    exact lt_irrefl _ below

/-- `AddHandlerProc`: the key has a list, with the caller at its end. -/
theorem addHandlerProc_spec (inv : HeapInv heap held dying) (procs : ProcsInv heap source procs_map) (key : κ) (tag : Tag)
    (skip_type_handler : Bool) :
    ∃ procs_map' heap' caller i address,
      addHandlerProc heap (source key) procs_map key tag skip_type_handler = (procs_map',heap',caller) ∧
      caller.params_type = (source key).params_type ∧ caller.tag = tag ∧ caller.skip_type_handler = skip_type_handler ∧
      HeapInv heap' held dying ∧ ProcsInv heap' source procs_map' ∧ Pushed heap heap' i caller address ∧
      findCallerLocked procs_map' key = some i ∧
      (∀ other, other ≠ key → findCallerLocked procs_map' other = findCallerLocked procs_map other) ∧
      (findCallerLocked procs_map key = some i ∨ findCallerLocked procs_map key = none ∧ (heap.lists i).m_base = none) := by
  unfold addHandlerProc
  cases found : findCallerLocked procs_map key with
  | some i =>
    obtain ⟨made,mine⟩ := procs.found found
    let caller : Caller := ⟨heap.fresh,(source key).params_type,tag,skip_type_handler⟩
    obtain ⟨inv',pushed⟩ : HeapInv (heap.pushCaller i caller) held dying ∧ Pushed heap (heap.pushCaller i caller) i caller _ :=
      inv.pushCaller made rfl (congrArg Source.params_type mine.symm)
    exact ⟨procs_map,_,caller,i,_,rfl,rfl,rfl,rfl,inv',procs.mono pushed.sources,pushed,found,fun _ _ => rfl,.inl rfl⟩
  | none =>
    have unmade := inv.unmade heap.fresh (Nat.le_refl _)
    obtain ⟨inv₁,empty⟩ := inv.makeCallers (source key)
    have mine : (heap.makeCallers (source key)).made_for heap.fresh = source key := Function.update_self ..
    have other_lists : ∀ j, j ≠ heap.fresh → (heap.makeCallers (source key)).lists j = heap.lists j :=
      fun j other => Function.update_of_ne other ..
    have still : ∀ j, (heap.lists j).m_base.isSome → ((heap.makeCallers (source key)).lists j).m_base.isSome ∧
        (heap.makeCallers (source key)).made_for j = heap.made_for j := by
      intro j made
      have other : j ≠ heap.fresh := by
        rintro rfl
        rw [unmade] at made
        cases made
      rw [other_lists j other]
      exact ⟨made,Function.update_of_ne other ..⟩
    have made : ((heap.makeCallers (source key)).lists heap.fresh).m_base.isSome := by
      have list : (heap.makeCallers (source key)).lists heap.fresh = CallbackList.create heap.fresh (heap.fresh + 1) :=
        Function.update_self ..
      rw [list]
      rfl
    let caller : Caller := ⟨heap.fresh + 2,(source key).params_type,tag,skip_type_handler⟩
    obtain ⟨inv',pushed⟩ : HeapInv ((heap.makeCallers (source key)).pushCaller heap.fresh caller) held dying ∧
        Pushed (heap.makeCallers (source key)) ((heap.makeCallers (source key)).pushCaller heap.fresh caller) heap.fresh caller _ :=
      inv₁.pushCaller made rfl (congrArg Source.params_type mine.symm)
    have entries : ProcsInv (heap.makeCallers (source key)) source (insert key heap.fresh procs_map) := by
      refine ⟨sorted_insert procs.sorted,fun entry member => ?_⟩
      rcases mem_insert_or member with rfl | old
      · exact ⟨made,mine⟩
      · exact (procs.mono still).made entry old
    have looked := fun other => lookup_insert key other heap.fresh procs.sorted
    refine ⟨_,_,caller,heap.fresh,heap.fresh + 3,rfl,rfl,rfl,rfl,inv',entries.mono pushed.sources,?_,?_,fun other away => ?_,
      .inr ⟨rfl,unmade⟩⟩
    · refine ⟨fun j other => (pushed.others j other).trans (other_lists j other),fun j before => ?_,?_,?_,pushed.last,
        pushed.made,?_,pushed.grown.2⟩
      · obtain ⟨one,same⟩ := still j before
        exact ⟨(pushed.sources j one).1,(pushed.sources j one).2.trans same⟩
      · refine pushed.ring.trans ?_
        rw [empty,ring_unmade unmade]
        rfl
      · intro part inside
        rw [ring_unmade unmade] at inside
        rw [List.subset_nil.mp inside]
        rfl
      · exact Nat.le_trans (Nat.le_add_right _ 2) pushed.grown.1
    · have mapped := looked key
      rw [if_pos rfl,show lookup key procs_map = none from found] at mapped
      exact mapped
    · exact (looked other).trans (if_neg away)

/-! ### The operations -/

variable {m : EventHandlerMap}

theorem MapInv.found (inv : MapInv m held dying) {source : Source} {i : CallersPtr} (found : m.find source = some i) :
    (m.heap.lists i).m_base.isSome ∧ m.heap.made_for i = source := by
  cases source with
  | name key => exact inv.names.found found
  | type key_name => exact inv.types.found found

/-- `AddHandlerName` and `AddHandlerType`. -/
structure Added (m m' : EventHandlerMap) (source : Source) (caller : Caller) (i : CallersPtr) (address : Address) : Prop where
  pushed : Pushed m.heap m'.heap i caller address
  found : m'.find source = some i
  others : ∀ other, other ≠ source → m'.find other = m.find other
  before : m.find source = some i ∨ m.find source = none ∧ (m.heap.lists i).m_base = none

theorem MapInv.addHandler (inv : MapInv m held dying) (source : Source) (tag : Tag) (skip_type_handler : Bool) :
    ∃ i address, MapInv (m.addHandler source tag skip_type_handler).1 held dying ∧
      Added m (m.addHandler source tag skip_type_handler).1 source (m.addHandler source tag skip_type_handler).2 i address ∧
      (m.addHandler source tag skip_type_handler).2.tag = tag ∧
      (m.addHandler source tag skip_type_handler).2.skip_type_handler = skip_type_handler := by
  cases source with
  | name key =>
    obtain ⟨procs_map',heap',caller,i,address,added,-,tagged,skips,heap,procs,pushed,found,others,before⟩ :=
      addHandlerProc_spec inv.heap inv.names key tag skip_type_handler
    have result : m.addHandler (.name key) tag skip_type_handler = ({ m with m_name_procs := procs_map', heap := heap' },caller) := by
      simp only [EventHandlerMap.addHandler,added]
    rw [result]
    refine ⟨i,address,⟨heap,procs,inv.types.mono pushed.sources⟩,⟨pushed,found,fun other away => ?_,before⟩,tagged,skips⟩
    cases other with
    | name key' => exact others key' fun same => away (congrArg Source.name same)
    | type key_name => rfl
  | type key_name =>
    obtain ⟨procs_map',heap',caller,i,address,added,-,tagged,skips,heap,procs,pushed,found,others,before⟩ :=
      addHandlerProc_spec inv.heap inv.types key_name tag skip_type_handler
    have result : m.addHandler (.type key_name) tag skip_type_handler =
        ({ m with m_type_procs := procs_map', heap := heap' },caller) := by
      simp only [EventHandlerMap.addHandler,added]
    rw [result]
    refine ⟨i,address,⟨heap,inv.names.mono pushed.sources,procs⟩,⟨pushed,found,fun other away => ?_,before⟩,tagged,skips⟩
    cases other with
    | name key => rfl
    | type key_name' => exact others key_name' fun same => away (congrArg Source.type same)

theorem MapInv.clearHandlerName (inv : MapInv m held dying) (key : Key) :
    MapInv (m.clearHandlerName key) held dying ∧
    ∀ source, (m.clearHandlerName key).find source = if source = .name key then none else m.find source := by
  refine ⟨⟨inv.heap,inv.names.filter _,inv.types⟩,fun source => ?_⟩
  cases source with
  | name key' =>
    have kept := lookup_filter key' (fun entry => decide (entry.1 ≠ key)) inv.names.sorted
    refine kept.trans ?_
    rcases eq_or_ne key' key with rfl | other
    · simp
    · simp only [EventHandlerMap.find,findCallerLocked,Source.name.injEq,if_neg other]
      cases lookup key' m.m_name_procs <;> simp [other]
  | type key_name => rfl

/-- `ClearHandlersWithTag`. -/
structure TagCleared (tag : Tag) (m m' : EventHandlerMap) : Prop where
  fresh : m'.heap.fresh = m.heap.fresh
  sources : m'.heap.made_for = m.heap.made_for
  bases : ∀ i, (m'.heap.lists i).m_base = (m.heap.lists i).m_base
  others : ∀ i, (∀ source, m.find source ≠ some i) → m'.heap.lists i = m.heap.lists i
  lists : ∀ source i, m.find source = some i → Pruned (fun element => !decide (element.tag = tag)) (m.heap.lists i)
    (m.heap.ring i) (m'.heap.lists i) (m'.heap.ring i)
  finds : ∀ source, m'.find source = (m.find source).filter fun i => m'.heap.ring i ≠ []

theorem TagRemoved.found {entries entries' : List (κ × CallersPtr)} {tag : Tag} (sorted : Sorted entries)
    (removed : TagRemoved tag heap entries heap' entries') (key : κ) :
    findCallerLocked entries' key = (findCallerLocked entries key).filter fun i => heap'.ring i ≠ [] := by
  rw [removed.entries]
  exact lookup_filter key (fun entry => decide (heap'.ring entry.2 ≠ [])) sorted

theorem MapInv.clearHandlersWithTag (inv : MapInv m held noneDying) (tag : Tag) :
    ∃ m', m.clearHandlersWithTag tag = some m' ∧ MapInv m' held noneDying ∧ TagCleared tag m m' := by
  have names_injective : Function.Injective Source.name := fun _ _ same => Source.name.inj same
  have types_injective : Function.Injective Source.type := fun _ _ same => Source.type.inj same
  obtain ⟨m_name_procs,heap₁,first,inv₁,removed₁⟩ := inv.heap.removeTag tag (fun entry member => (inv.names.made entry member).1)
    (inv.names.distinct names_injective)
  have still₁ : ∀ i, (m.heap.lists i).m_base.isSome → (heap₁.lists i).m_base.isSome ∧ heap₁.made_for i = m.heap.made_for i :=
    fun i made => ⟨removed₁.bases i ▸ made,congrFun removed₁.sources i⟩
  have types₁ := inv.types.mono still₁
  obtain ⟨m_type_procs,heap₂,second,inv₂,removed₂⟩ := inv₁.removeTag tag (fun entry member => (types₁.made entry member).1)
    (types₁.distinct types_injective)
  have still₂ : ∀ i, (heap₁.lists i).m_base.isSome → (heap₂.lists i).m_base.isSome ∧ heap₂.made_for i = heap₁.made_for i :=
    fun i made => ⟨removed₂.bases i ▸ made,congrFun removed₂.sources i⟩
  -- a list is for names or for types, so that one of the two maps leaves it alone
  have no_type : ∀ i key, m.find (.name key) = some i → i ∉ m.m_type_procs.map Prod.snd := by
    intro i key found member
    obtain ⟨entry,inside,rfl⟩ := List.mem_map.mp member
    have one := (inv.names.found found).2
    rw [(inv.types.made entry inside).2] at one
    cases one
  have no_name : ∀ i key_name, m.find (.type key_name) = some i → i ∉ m.m_name_procs.map Prod.snd := by
    intro i key_name found member
    obtain ⟨entry,inside,rfl⟩ := List.mem_map.mp member
    have one := (inv.types.found found).2
    rw [(inv.names.made entry inside).2] at one
    cases one
  have first_ring : ∀ i, i ∉ m.m_name_procs.map Prod.snd → heap₁.ring i = m.heap.ring i :=
    fun i away => inv.heap.ring_same (removed₁.others i away) (Nat.le_of_eq removed₁.fresh.symm)
  have second_ring : ∀ i, i ∉ m.m_type_procs.map Prod.snd → heap₂.ring i = heap₁.ring i :=
    fun i away => inv₁.ring_same (removed₂.others i away) (Nat.le_of_eq removed₂.fresh.symm)
  have names₂ : ProcsInv heap₂ .name m_name_procs := by
    rw [removed₁.entries]
    exact ((inv.names.mono still₁).mono still₂).filter _
  have types₂ : ProcsInv heap₂ .type m_type_procs := by
    rw [removed₂.entries]
    exact (types₁.mono still₂).filter _
  refine ⟨⟨m_name_procs,m_type_procs,heap₂⟩,?_,⟨inv₂,names₂,types₂⟩,removed₂.fresh.trans removed₁.fresh,
    removed₂.sources.trans removed₁.sources,fun i => (removed₂.bases i).trans (removed₁.bases i),fun i unmapped => ?_,
    fun source i found => ?_,fun source => ?_⟩
  · simp [EventHandlerMap.clearHandlersWithTag,first,second]
  · have away_names : i ∉ m.m_name_procs.map Prod.snd := by
      intro member
      obtain ⟨entry,inside,rfl⟩ := List.mem_map.mp member
      exact unmapped (.name entry.1) ((lookup_eq_some inv.names.sorted).mpr inside)
    have away_types : i ∉ m.m_type_procs.map Prod.snd := by
      intro member
      obtain ⟨entry,inside,rfl⟩ := List.mem_map.mp member
      exact unmapped (.type entry.1) ((lookup_eq_some inv.types.sorted).mpr inside)
    exact (removed₂.others i away_types).trans (removed₁.others i away_names)
  · cases source with
    | name key =>
      have away := no_type i key found
      have pruned := removed₁.lists (key,i) ((lookup_eq_some inv.names.sorted).mp found)
      rwa [← removed₂.others i away,← second_ring i away] at pruned
    | type key_name =>
      have away := no_name i key_name found
      have pruned := removed₂.lists (key_name,i) ((lookup_eq_some inv.types.sorted).mp found)
      rwa [removed₁.others i away,first_ring i away] at pruned
  · cases source with
    | name key =>
      refine (removed₁.found inv.names.sorted key).trans ?_
      cases found : findCallerLocked m.m_name_procs key with
      | none => simp [EventHandlerMap.find,found]
      | some i => rw [EventHandlerMap.find,found,Option.filter_some,Option.filter_some,second_ring i (no_type i key found)]
    | type key_name => exact removed₂.found inv.types.sorted key_name

/-! ### What is registered -/

/-- Rings are empty where nothing is in the list and no iterator holds a block. -/
theorem HeapInv.ring_nil (inv : HeapInv heap held noneDying) {i : CallersPtr} : heap.ring i = [] ↔ heap.live i = [] ∧ held i = [] := by
  cases based : (heap.lists i).m_base with
  | none => simp [ring_unmade based,inv.unheld i based,Heap.live,elements]
  | some base =>
    have usable := inv.lists i (by rw [based]; rfl)
    constructor
    · intro nothing
      refine ⟨by rw [Heap.live,nothing]; rfl,List.eq_nil_iff_forall_not_mem.mpr fun b holds => ?_⟩
      have member := usable.inv.inside b holds
      rw [nothing] at member
      cases member
    · rintro ⟨dead,free⟩
      refine List.eq_nil_iff_forall_not_mem.mpr fun b member => usable.inv.living member ?_
      have nothing : ((heap.lists i).blocks b).element = none := by
        cases element : ((heap.lists i).blocks b).element with
        | none => rfl
        | some caller =>
          have living : caller ∈ heap.live i := mem_elements.mpr ⟨b,member,element⟩
          rw [dead] at living
          cases living
      have apart : base ≠ b := fun same => usable.inv.base_outside based (same ▸ member)
      rw [usable.inv.count,free,nothing,based]
      simp [apart]

theorem handlers_some {m : EventHandlerMap} {source : Source} {i : CallersPtr} (found : m.find source = some i) :
    m.handlers source = m.heap.live i := by
  rw [EventHandlerMap.handlers,found]
  rfl

/-- A handler that is added is the last of its source. -/
theorem MapInv.handlers_addHandler (inv : MapInv m held dying) (source : Source) (tag : Tag) (skip_type_handler : Bool) :
    (m.addHandler source tag skip_type_handler).1.handlers =
      Function.update m.handlers source (m.handlers source ++ [(m.addHandler source tag skip_type_handler).2]) := by
  obtain ⟨i,address,-,added,-,-⟩ := inv.addHandler source tag skip_type_handler
  have pushed := added.pushed
  funext other
  rcases eq_or_ne other source with rfl | away
  · have old : m.handlers other = m.heap.live i := by
      rcases added.before with found | ⟨missing,unmade⟩
      · exact handlers_some found
      · rw [EventHandlerMap.handlers,missing,Heap.live,ring_unmade unmade]
        rfl
    rw [Function.update_self,handlers_some added.found,old,Heap.live,pushed.ring,elements_append,pushed.last,
      pushed.kept _ fun _ inside => inside]
    rfl
  · rw [Function.update_of_ne away,EventHandlerMap.handlers,EventHandlerMap.handlers,added.others other away]
    cases found : m.find other with
    | none => rfl
    | some j =>
      have apart : j ≠ i := by
        rintro rfl
        rcases added.before with mine | ⟨-,unmade⟩
        · exact away ((inv.found found).2.symm.trans (inv.found mine).2)
        · have made := (inv.found found).1
          rw [unmade] at made
          cases made
      change Heap.live _ j = m.heap.live j
      rw [Heap.live,Heap.live,pushed.others j apart,inv.heap.ring_same (pushed.others j apart)
        (Nat.le_of_lt (Nat.lt_of_le_of_lt pushed.grown.1 pushed.grown.2))]

/-- A name that is cleared has no handlers. -/
theorem MapInv.handlers_clearHandlerName (inv : MapInv m held dying) (key : Key) :
    (m.clearHandlerName key).handlers = Function.update m.handlers (.name key) [] := by
  funext source
  rw [EventHandlerMap.handlers,(inv.clearHandlerName key).2 source]
  rcases eq_or_ne source (.name key) with rfl | other
  · rw [if_pos rfl,Function.update_self]
    rfl
  · rw [if_neg other,Function.update_of_ne other]
    rfl

end procs_maps

end IpcPortable.HandlerLists
