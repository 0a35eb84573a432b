import IpcPortable.CallbackLists
import Mathlib.Data.List.Count

/-!
The shape of a `CallbackList` in use: the ring of the blocks, who owns them, and
which elements they hold. The references that others hold and the blocks that
wait for their destructor are counted in, so that the shape is kept by every
single access under the lock, whoever makes it.
-/
namespace IpcPortable.ListShape
open IpcPortable.Rings IpcPortable.CallbackLists
set_option linter.unusedSectionVars false
variable {ε : Type} [DecidableEq ε]

/-- The blocks of the ring, without the sentinel. When the list is destroyed the
    blocks that are left make a ring without it. -/
def Shape (s : CallbackList ε) (ring : List Address) : Prop :=
  match s.m_base with
  | some base => IsRing s.links base ring
  | none => ∀ first rest, ring = first :: rest → IsRing s.links first rest

/-- The list with the references that others hold and the blocks whose last
    owner has let go, but whose destructor has not run. -/
structure Inv (s : CallbackList ε) (held dying ring : List Address) : Prop where
  shape : Shape s ring
  alive : ∀ b, s.alive b = true ↔ s.m_base = some b ∨ b ∈ ring
  count : ∀ b, (s.blocks b).use_count =
    held.count b + (s.blocks b).element.toList.length + s.m_base.toList.count b
  dead : ∀ b, b ∈ dying ↔ b ∈ ring ∧ (s.blocks b).use_count = 0
  dead_once : dying.Nodup
  inside : ∀ b ∈ held, b ∈ ring
  cb : ∀ e b, s.m_cb e = some b ↔ b ∈ ring ∧ (s.blocks b).element = some e
  outside : ∀ b, b ∉ ring → (s.blocks b).element = none
  curr : ∀ b ∈ ring, (s.blocks b).curr = some b
  lock : ∀ b ∈ ring, (s.blocks b).shared_lock = s.m_shared_lock

/-- The elements of the blocks, in the order of the ring. -/
def elements (s : CallbackList ε) (ring : List Address) : List ε := ring.filterMap fun b => (s.blocks b).element

section spec
variable {s s' : CallbackList ε} {held dying ring part rest : List Address} {b : Address} {e : ε}

theorem mem_elements : e ∈ elements s part ↔ ∃ c ∈ part, (s.blocks c).element = some e := List.mem_filterMap

theorem elements_append (s : CallbackList ε) (part rest : List Address) :
    elements s (part ++ rest) = elements s part ++ elements s rest := List.filterMap_append ..

theorem elements_cons_some (element : (s.blocks b).element = some e) : elements s (b :: rest) = e :: elements s rest := by
  rw [elements,List.filterMap_cons,element]
  rfl

theorem elements_cons_none (nothing : (s.blocks b).element = none) : elements s (b :: rest) = elements s rest := by
  rw [elements,List.filterMap_cons,nothing]
  rfl

theorem elements_congr (same : ∀ c ∈ part, (s'.blocks c).element = (s.blocks c).element) :
    elements s' part = elements s part := List.filterMap_congr same

/-- Blocks may have gone, and the elements that are not kept have. -/
def Pruned (kept : ε → Bool) (s : CallbackList ε) (ring : List Address) (s' : CallbackList ε) (ring' : List Address) : Prop :=
  ∃ stays : Address → Bool, ring' = ring.filter stays ∧
    ∀ c ∈ ring, (s.blocks c).element.filter kept = if stays c then (s'.blocks c).element else none

section pruned
variable {s'' : CallbackList ε} {ring' ring'' : List Address} {kept kept' : ε → Bool}

theorem pruned_same (same : ∀ c ∈ ring, (s'.blocks c).element = (s.blocks c).element.filter kept) :
    Pruned kept s ring s' ring :=
  ⟨fun _ => true,(List.filter_eq_self.mpr fun _ _ => rfl).symm,fun c member => (same c member).symm⟩

theorem filter_all (element : Option ε) : element.filter (fun _ => true) = element := by
  cases element <;> rfl

theorem pruned_all (same : ∀ c ∈ ring, (s'.blocks c).element = (s.blocks c).element) :
    Pruned (fun _ => true) s ring s' ring :=
  pruned_same fun c member => (same c member).trans (filter_all _).symm

theorem Pruned.trans (first : Pruned kept s ring s' ring') (second : Pruned kept' s' ring' s'' ring'') :
    Pruned (fun e => kept e && kept' e) s ring s'' ring'' := by
  obtain ⟨stays,rfl,left⟩ := first
  obtain ⟨stays',rfl,right⟩ := second
  refine ⟨fun c => stays c && stays' c,List.filter_filter.trans (List.filter_congr fun c _ => Bool.and_comm ..),?_⟩
  intro c member
  have both : (s.blocks c).element.filter (fun e => kept e && kept' e) = ((s.blocks c).element.filter kept).filter kept' :=
    (Option.filter_filter ..).symm
  rw [both,left c member]
  cases stay : stays c with
  | false => simp [stay]
  | true => simpa [stay] using right c (List.mem_filter.mpr ⟨member,stay⟩)

theorem Pruned.congr (pruned : Pruned kept s ring s' ring') (same : ∀ e ∈ elements s ring, kept e = kept' e) :
    Pruned kept' s ring s' ring' := by
  obtain ⟨stays,cut,left⟩ := pruned
  refine ⟨stays,cut,fun c member => ?_⟩
  rw [← left c member]
  cases element : (s.blocks c).element with
  | none => rfl
  | some e => rw [Option.filter_some,Option.filter_some,same e (mem_elements.mpr ⟨c,member,element⟩)]

theorem elements_filter {stays : Address → Bool}
    (left : ∀ c ∈ part, (s.blocks c).element.filter kept = if stays c then (s'.blocks c).element else none) :
    elements s' (part.filter stays) = (elements s part).filter kept := by
  induction part with
  | nil => rfl
  | cons c rest ih =>
    have tail := ih fun d member => left d (List.mem_cons_of_mem _ member)
    have here := left c List.mem_cons_self
    cases stay : stays c with
    | false =>
      rw [List.filter_cons_of_neg (by simp [stay]),tail]
      cases element : (s.blocks c).element with
      | none => rw [elements_cons_none element]
      | some e =>
        rw [elements_cons_some element,List.filter_cons_of_neg]
        simpa [element,stay] using here
    | true =>
      rw [stay,if_pos rfl] at here
      rw [List.filter_cons_of_pos stay]
      cases element : (s.blocks c).element with
      | none =>
        rw [element] at here
        rw [elements_cons_none element,elements_cons_none here.symm,tail]
      | some e =>
        rw [element,Option.filter_some] at here
        rw [elements_cons_some element]
        split at here
        · next keep => rw [elements_cons_some here.symm,List.filter_cons_of_pos keep,tail]
        · next drop => rw [elements_cons_none here.symm,List.filter_cons_of_neg drop,tail]

theorem Pruned.elements_eq (pruned : Pruned kept s ring s' ring') : elements s' ring' = (elements s ring).filter kept := by
  obtain ⟨stays,rfl,left⟩ := pruned
  exact elements_filter left

/-- What is left of the elements, and of those behind a block that stays. -/
theorem Pruned.split (pruned : Pruned kept s ring s' ring') {before behind : List Address} (here : ring = before ++ b :: behind)
    (stayed : b ∈ ring') :
    ∃ before' behind', ring' = before' ++ b :: behind' ∧ behind'.length ≤ behind.length ∧
      elements s' before' = (elements s before).filter kept ∧ elements s' behind' = (elements s behind).filter kept ∧
      elements s' (b :: behind') = (elements s (b :: behind)).filter kept := by
  obtain ⟨stays,rfl,left⟩ := pruned
  have stay : stays b = true := (List.mem_filter.mp stayed).2
  subst here
  refine ⟨before.filter stays,behind.filter stays,?_,List.length_filter_le ..,elements_filter fun c member => ?_,
    elements_filter fun c member => ?_,?_⟩
  · rw [List.filter_append,List.filter_cons_of_pos stay]
  · exact left c (List.mem_append_left _ member)
  · exact left c (List.mem_append_right _ (List.mem_cons_of_mem _ member))
  · rw [← List.filter_cons_of_pos stay]
    exact elements_filter fun c member => left c (List.mem_append_right _ member)

end pruned

theorem Shape.once (shape : Shape s ring) : ring.Nodup := by
  unfold Shape at shape
  split at shape
  · exact (List.nodup_cons.mp shape.nodup).2
  · cases ring with
    | nil => exact List.nodup_nil
    | cons first rest => exact (shape first rest rfl).nodup

theorem Shape.isRing {base : Address} (shape : Shape s ring) (based : s.m_base = some base) : IsRing s.links base ring := by
  rwa [Shape,based] at shape

/-- No element is in two blocks. -/
theorem Inv.elements_nodup (inv : Inv s held dying ring) : (elements s ring).Nodup := by
  refine inv.shape.once.filterMap fun c d e one other => ?_
  have owned : ∀ a : Address, (s.blocks a).element = some e → s.m_cb e = some a := by
    intro a has
    refine (inv.cb e a).mpr ⟨?_,has⟩
    by_contra away
    rw [inv.outside a away] at has
    cases has
  exact Option.some.inj ((owned c one).symm.trans (owned d other))

theorem Inv.base_outside {base : Address} (inv : Inv s held dying ring) (based : s.m_base = some base) : base ∉ ring :=
  (List.nodup_cons.mp (inv.shape.isRing based).nodup).1

/-- In what order the references are counted is of no importance. -/
theorem Inv.perm {held' dying' : List Address} (inv : Inv s held dying ring) (references : held.Perm held')
    (destroyed : dying.Perm dying') : Inv s held' dying' ring where
  shape := inv.shape
  alive := inv.alive
  count b := references.count_eq b ▸ inv.count b
  dead b := destroyed.mem_iff.symm.trans (inv.dead b)
  dead_once := destroyed.nodup_iff.mp inv.dead_once
  inside b holds := inv.inside b (references.mem_iff.mpr holds)
  cb := inv.cb
  outside := inv.outside
  curr := inv.curr
  lock := inv.lock

theorem inv_create (shared_lock : SharedLock) (address : Address) :
    Inv (CallbackList.create (ε := ε) shared_lock address) [] [] [] where
  shape := isRing_single _ address
  alive b := by
    rcases eq_or_ne b address with rfl | other
    · simp [CallbackList.create,CallbackList.makeShared]
    · simp [CallbackList.create,CallbackList.makeShared,other,Ne.symm other]
  count b := by
    rcases eq_or_ne b address with rfl | other
    · simp [CallbackList.create,CallbackList.makeShared]
    · simp [CallbackList.create,CallbackList.makeShared,other,Ne.symm other]
  dead b := by simp
  dead_once := List.nodup_nil
  inside b member := by cases member
  cb e b := by simp [CallbackList.create,CallbackList.makeShared]
  outside b _ := by
    by_cases same : b = address <;> simp [CallbackList.create,CallbackList.makeShared,same]
  curr b member := by cases member
  lock b member := by cases member

/-- The number of owners of one block changes as the references to it do. -/
theorem Inv.setCount (inv : Inv s held dying ring) (member : b ∈ ring) {n : Nat} {held' dying' : List Address}
    (counted : n + held.count b = (s.blocks b).use_count + held'.count b)
    (others : ∀ c, c ≠ b → held'.count c = held.count c)
    (dies : ∀ c, c ∈ dying' ↔ if c = b then n = 0 else c ∈ dying) (once : dying'.Nodup) :
    Inv (s.modify b fun block => { block with use_count := n }) held' dying' ring where
  shape := inv.shape
  alive := inv.alive
  count c := by
    have before := inv.count c
    rcases eq_or_ne c b with rfl | other
    · simp only [CallbackList.modify_blocks,if_pos,CallbackList.modify_m_base]
      omega
    · rw [others c other]
      simpa [other] using before
  dead c := by
    rw [dies c]
    rcases eq_or_ne c b with rfl | other
    · simp [member]
    · simp [other,inv.dead c]
  dead_once := once
  inside c one := by
    rcases eq_or_ne c b with rfl | other
    · exact member
    · refine inv.inside c (List.count_pos_iff.mp ?_)
      rw [← others c other]
      exact List.count_pos_iff.mpr one
  cb e c := by
    rw [CallbackList.modify_m_cb,inv.cb e c]
    rcases eq_or_ne c b with rfl | other
    · simp
    · simp [other]
  outside c away := by
    have other : c ≠ b := fun same => away (same ▸ member)
    simpa [other] using inv.outside c away
  curr c one := by
    rcases eq_or_ne c b with rfl | other
    · simpa using inv.curr c one
    · simpa [other] using inv.curr c one
  lock c one := by
    rcases eq_or_ne c b with rfl | other
    · simpa using inv.lock c one
    · simpa [other] using inv.lock c one

theorem Inv.acquire (inv : Inv s held dying ring) (member : b ∈ ring) (owned : (s.blocks b).use_count ≠ 0) :
    Inv (s.acquire b) (b :: held) dying ring := by
  refine inv.setCount member ?_ ?_ ?_ inv.dead_once
  · rw [List.count_cons_self]
    omega
  · exact fun c other => List.count_cons_of_ne (Ne.symm other)
  · intro c
    rcases eq_or_ne c b with rfl | other
    · simp [inv.dead,owned]
    · simp [other]

/-- A reference is let go; the block dies with the last one. -/
theorem Inv.dropRef (inv : Inv s held dying ring) (holds : b ∈ held) :
    Inv (s.dropRef b) (held.erase b) (if (s.blocks b).use_count = 1 then b :: dying else dying) ring := by
  have member := inv.inside b holds
  have positive : 0 < held.count b := List.count_pos_iff.mpr holds
  have counted := inv.count b
  have living : b ∉ dying := fun dies => by
    have zero := ((inv.dead b).mp dies).2
    omega
  refine inv.setCount member ?_ ?_ ?_ ?_
  · rw [List.count_erase_self]
    omega
  · exact fun c other => List.count_erase_of_ne other
  · intro c
    rcases eq_or_ne c b with rfl | other
    · rw [if_pos rfl]
      split
      · exact iff_of_true List.mem_cons_self (by omega)
      · exact iff_of_false living (by omega)
    · split <;> simp [other]
  · split
    · exact List.nodup_cons.mpr ⟨living,inv.dead_once⟩
    · exact inv.dead_once

/-! ### What is read -/

theorem Inv.lockCurr_cases (inv : Inv s held dying ring) (member : b ∈ ring) :
    (s.blocks b).use_count = 0 ∧ s.lockCurr b = (none,s) ∨
    (s.blocks b).use_count ≠ 0 ∧ s.lockCurr b = (some b,s.acquire b) := by
  unfold CallbackList.lockCurr
  rw [inv.curr b member]
  by_cases dead : (s.blocks b).use_count = 0
  · exact .inl ⟨dead,if_pos dead⟩
  · exact .inr ⟨dead,if_neg dead⟩

theorem Inv.front_cases {base : Address} (inv : Inv s held dying ring) (based : s.m_base = some base) :
    ring = [] ∧ s.front = (none,s) ∨ ∃ first rest, ring = first :: rest ∧ s.front = s.lockCurr first := by
  have round := inv.shape.isRing based
  have alone := round.alone_iff
  have first := round.next_eq
  have listed : s.isInListLocked base = true ↔ ¬ ring = [] := (decide_eq_true_iff).trans (not_congr alone)
  simp only [CallbackList.front,based]
  cases ring with
  | nil => exact .inl ⟨rfl,if_neg fun linked => listed.mp linked rfl⟩
  | cons x rest => exact .inr ⟨x,rest,rfl,by rw [if_pos (listed.mpr (List.cons_ne_nil x rest)),first,List.headD_cons]⟩

theorem Inv.getElement_eq (inv : Inv s held dying ring) (member : b ∈ ring) : s.getElement b = (s.blocks b).element := by
  rw [CallbackList.getElement,CallbackList.lockSameCheck,inv.lock b member]
  simp

theorem Inv.getNext_cases {base : Address} (inv : Inv s held dying ring) (based : s.m_base = some base)
    {before behind : List Address} (here : ring = before ++ b :: behind) :
    behind = [] ∧ s.getNext b = (none,s) ∨ ∃ first rest, behind = first :: rest ∧ s.getNext b = s.lockCurr first := by
  subst here
  have round := inv.shape.isRing based
  have next := round.next_of
  have same := inv.lock b (List.mem_append_right _ List.mem_cons_self)
  simp only [CallbackList.getNext,CallbackList.lockSameCheck,same,based,next,decide_true,if_true]
  cases behind with
  | nil => exact .inl ⟨rfl,by simp⟩
  | cons x rest =>
    have outside := inv.base_outside based
    have other : base ≠ x := by
      rintro rfl
      exact outside (List.mem_append_right _ (List.mem_cons_of_mem _ List.mem_cons_self))
    exact .inr ⟨x,rest,rfl,by simp [other]⟩

/-! ### What is removed and put in -/

/-- The block of an element loses it, and its reference goes over. -/
theorem Inv.release {e : ε} (inv : Inv s held dying ring) (owns : s.m_cb e = some b) :
    Inv ((s.setCb e none).modify b fun block => { block with element := none }) (b :: held) dying ring where
  shape := inv.shape
  alive := inv.alive
  count c := by
    have before := inv.count c
    rcases eq_or_ne c b with rfl | other
    · rw [((inv.cb e c).mp owns).2] at before
      simp only [CallbackList.setCb,CallbackList.modify_blocks,if_pos,CallbackList.modify_m_base,List.count_cons_self]
      simp only [Option.toList_some,List.length_singleton,Option.toList_none,List.length_nil] at before ⊢
      omega
    · simpa [CallbackList.setCb,other,Ne.symm other] using before
  dead c := by
    rw [inv.dead c]
    rcases eq_or_ne c b with rfl | other
    · simp [CallbackList.setCb]
    · simp [CallbackList.setCb,other]
  dead_once := inv.dead_once
  inside c one := by
    rcases List.mem_cons.mp one with rfl | before
    · exact ((inv.cb e c).mp owns).1
    · exact inv.inside c before
  cb f c := by
    have element := ((inv.cb e b).mp owns).2
    rw [CallbackList.modify_m_cb,CallbackList.setCb,CallbackList.modify_blocks]
    simp only
    rcases eq_or_ne f e with rfl | another
    · rw [Function.update_self]
      refine iff_of_false (fun owned => by cases owned) ?_
      rintro ⟨member,has⟩
      split at has
      · cases has
      · next other =>
        have owned := (inv.cb f c).mpr ⟨member,has⟩
        exact other (Option.some.inj (owned.symm.trans owns))
    · rw [Function.update_of_ne another,inv.cb f c]
      rcases eq_or_ne c b with rfl | other
      · simp [element,Ne.symm another]
      · simp [other]
  outside c away := by
    have before := inv.outside c away
    rcases eq_or_ne c b with rfl | other
    · simp [CallbackList.setCb]
    · simpa [CallbackList.setCb,other] using before
  curr c one := by
    have before := inv.curr c one
    rcases eq_or_ne c b with rfl | other
    · simpa [CallbackList.setCb] using before
    · simpa [CallbackList.setCb,other] using before
  lock c one := by
    have before := inv.lock c one
    rcases eq_or_ne c b with rfl | other
    · simpa [CallbackList.setCb] using before
    · simpa [CallbackList.setCb,other] using before

/-- `RemoveFromList_Locked`: the element is in no block any more, and the block
    it was in has one more reference outside. -/
theorem Inv.removeFromListLocked (inv : Inv s held dying ring) (e : ε) :
    Inv (s.removeFromListLocked e).2 ((s.m_cb e).toList ++ held) dying ring ∧
    Pruned (fun f => f != e) s ring (s.removeFromListLocked e).2 ring ∧
    (s.removeFromListLocked e).2.m_cb = Function.update s.m_cb e none ∧ (s.removeFromListLocked e).1.cb = s.m_cb e ∧
    (s.removeFromListLocked e).2.m_base = s.m_base ∧ (s.removeFromListLocked e).2.alive = s.alive := by
  have unowned : ∀ c ∈ ring, s.m_cb e ≠ some c → (s.blocks c).element.filter (fun f => f != e) = (s.blocks c).element := by
    intro c member other
    cases element : (s.blocks c).element with
    | none => rfl
    | some f =>
      have kept : f ≠ e := by
        rintro rfl
        exact other ((inv.cb f c).mpr ⟨member,element⟩)
      exact Option.filter_some_pos (bne_iff_ne.mpr kept)
  unfold CallbackList.removeFromListLocked
  cases owns : s.m_cb e with
  | none =>
    refine ⟨inv,pruned_same fun c member => ?_,?_,rfl,rfl,rfl⟩
    · exact (unowned c member fun same => by rw [owns] at same; cases same).symm
    · exact (owns ▸ Function.update_eq_self e s.m_cb).symm
  | some b =>
    refine ⟨inv.release owns,pruned_same fun c member => ?_,rfl,rfl,rfl,rfl⟩
    rcases eq_or_ne c b with rfl | other
    · rw [((inv.cb e c).mp owns).2,Option.filter_some_neg (by simp)]
      simp [CallbackList.setCb]
    · rw [unowned c member fun same => other (Option.some.inj (same.symm.trans owns))]
      simp [CallbackList.setCb,other]

/-- What a dying block has left. -/
theorem Inv.dying_block (inv : Inv s held dying ring) (dies : b ∈ dying) :
    b ∈ ring ∧ b ∉ held ∧ (s.blocks b).element = none ∧ s.m_base ≠ some b := by
  obtain ⟨member,zero⟩ := (inv.dead b).mp dies
  have counted := inv.count b
  refine ⟨member,fun holds => ?_,?_,fun based => inv.base_outside based member⟩
  · have positive : 0 < held.count b := List.count_pos_iff.mpr holds
    omega
  · have nothing : (s.blocks b).element.toList.length = 0 := by omega
    simpa using nothing

theorem isInListLocked_iff : s.isInListLocked b = true ↔ s.links.next b ≠ b := decide_eq_true_iff

theorem Shape.unlink (shape : Shape s ring) (member : b ∈ ring) : Shape (s.unlinkLocked b) (ring.erase b) := by
  have once := shape.once
  obtain ⟨before,behind,rfl⟩ := List.append_of_mem member
  have split := List.nodup_cons.mp (List.nodup_middle.mp once)
  have earlier : b ∉ before := fun one => split.1 (List.mem_append_left _ one)
  rw [List.erase_append_right _ earlier,List.erase_cons_head]
  unfold Shape at shape ⊢
  rw [CallbackList.unlinkLocked_m_base]
  cases based : s.m_base with
  | some base =>
    rw [based] at shape
    have listed := isInListLocked_iff.mpr (shape.next_ne member)
    rw [CallbackList.unlinkLocked,if_pos listed]
    exact shape.unlink
  | none =>
    rw [based] at shape
    intro first rest ring
    cases before with
    | nil =>
      -- the ring goes on from the block behind the one that is unlinked
      have round := shape b behind rfl
      have alone : ¬ behind = [] := by
        rintro rfl
        cases ring
      have listed := isInListLocked_iff.mpr fun same => alone (round.alone_iff.mp same)
      rw [List.nil_append] at ring
      subst ring
      rw [CallbackList.unlinkLocked,if_pos listed]
      exact round.unlink_entry
    | cons c others =>
      obtain ⟨rfl,rfl⟩ := List.cons.inj ring
      have round := shape c (others ++ b :: behind) rfl
      have listed := isInListLocked_iff.mpr (round.next_ne (List.mem_append_right _ List.mem_cons_self))
      rw [CallbackList.unlinkLocked,if_pos listed]
      exact round.unlink

/-- `~CtrlBlock` of a block that nothing refers to. -/
theorem Inv.ctrlBlockDtor (inv : Inv s held dying ring) (dies : b ∈ dying) :
    Inv (s.ctrlBlockDtor b) held (dying.erase b) (ring.erase b) := by
  obtain ⟨member,unheld,nothing,unbased⟩ := inv.dying_block dies
  have once := inv.shape.once
  have apart : ∀ c, c ∈ ring.erase b ↔ c ≠ b ∧ c ∈ ring := fun c => once.mem_erase_iff
  have blocks : (s.ctrlBlockDtor b).blocks = s.blocks := CallbackList.unlinkLocked_blocks s b
  have based : (s.ctrlBlockDtor b).m_base = s.m_base := CallbackList.unlinkLocked_m_base s b
  have owned : (s.ctrlBlockDtor b).m_cb = s.m_cb := CallbackList.unlinkLocked_m_cb s b
  have locked : (s.ctrlBlockDtor b).m_shared_lock = s.m_shared_lock := CallbackList.unlinkLocked_m_shared_lock s b
  refine ⟨inv.shape.unlink member,fun c => ?_,?_,fun c => ?_,inv.dead_once.erase b,fun c one => ?_,fun f c => ?_,
    fun c away => ?_,fun c one => ?_,fun c one => ?_⟩
  · rw [based,apart]
    have living := inv.alive c
    rcases eq_or_ne c b with rfl | other
    · simp [CallbackList.ctrlBlockDtor,unbased]
    · simpa [CallbackList.ctrlBlockDtor,other] using living
  · rw [blocks,based]
    exact inv.count
  · rw [blocks,apart,inv.dead_once.mem_erase_iff,inv.dead c,and_assoc]
  · exact (apart c).mpr ⟨fun same => unheld (same ▸ one),inv.inside c one⟩
  · rw [owned,blocks,apart,inv.cb f c]
    constructor
    · rintro ⟨inside,has⟩
      refine ⟨⟨?_,inside⟩,has⟩
      rintro rfl
      rw [nothing] at has
      cases has
    · exact fun has => ⟨has.1.2,has.2⟩
  · rw [blocks]
    rcases eq_or_ne c b with rfl | other
    · exact nothing
    · exact inv.outside c fun inside => away ((apart c).mpr ⟨other,inside⟩)
  · rw [blocks]
    exact inv.curr c ((apart c).mp one).2
  · rw [blocks,locked]
    exact inv.lock c ((apart c).mp one).2

/-- An element in a new block that is linked beside the sentinel. -/
def withBlock (s : CallbackList ε) (insert : Links Address → Address → Address → Links Address) (base : Address) (e : ε)
    (address : Address) : CallbackList ε :=
  { s with
    links := insert (s.links.single address) base address
    blocks := Function.update s.blocks address
      { shared_lock := s.m_shared_lock, element := some e, curr := some address, use_count := 1 }
    alive := Function.update s.alive address true
    m_cb := Function.update s.m_cb e (some address) }

/-- Where `insert` puts a new block, and with it an element. -/
structure Inserts (insert : Links Address → Address → Address → Links Address)
    (placed : List Address → Address → List Address) (ordered : List ε → ε → List ε) : Prop where
  shape : ∀ k base ring x, IsRing k base ring → x ∉ base :: ring → IsRing (insert k base x) base (placed ring x)
  member : ∀ ring x c, c ∈ placed ring x ↔ c = x ∨ c ∈ ring
  order : ∀ (element : Address → Option ε) ring x e, element x = some e →
    (placed ring x).filterMap element = ordered (ring.filterMap element) e

theorem inserts_back : Inserts (ε := ε) Links.insertBefore (fun ring x => ring ++ [x]) fun order e => order ++ [e] where
  shape _ _ _ _ round new := round.insertBefore new
  member _ _ _ := by simp [or_comm]
  order _ _ _ _ has := by simp [has]
theorem inserts_front : Inserts (ε := ε) Links.insertAfter (fun ring x => x :: ring) fun order e => e :: order where
  shape _ _ _ _ round new := round.insertAfter new
  member _ _ _ := List.mem_cons
  order _ _ _ _ has := by simp [has]

variable {base address : Address} {insert : Links Address → Address → Address → Links Address}
  {placed : List Address → Address → List Address} {ordered : List ε → ε → List ε}

theorem Inv.free_outside (inv : Inv s held dying ring) (free : s.alive address = false) :
    address ∉ ring ∧ s.m_base ≠ some address := by
  have living := inv.alive address
  rw [free] at living
  exact ⟨fun inside => Bool.noConfusion (living.mpr (.inr inside)),fun same => Bool.noConfusion (living.mpr (.inl same))⟩

theorem Inv.withBlock (inv : Inv s held dying ring) (based : s.m_base = some base) (inserts : Inserts insert placed ordered)
    (new : s.m_cb e = none) (free : s.alive address = false) :
    Inv (ListShape.withBlock s insert base e address) held dying (placed ring address) := by
  obtain ⟨outside,unbased⟩ := inv.free_outside free
  have unheld : address ∉ held := fun one => outside (inv.inside address one)
  have other_base : base ≠ address := fun same => unbased (same ▸ based)
  have fresh : address ∉ base :: ring := fun one => by
    rcases List.mem_cons.mp one with same | inside
    · exact other_base same.symm
    · exact outside inside
  have placed_iff := inserts.member ring address
  refine ⟨?_,fun c => ?_,fun c => ?_,fun c => ?_,inv.dead_once,fun c one => (placed_iff c).mpr (.inr (inv.inside c one)),
    fun f c => ?_,fun c away => ?_,fun c one => ?_,fun c one => ?_⟩
  · have round := inserts.shape _ _ _ _ ((inv.shape.isRing based).single fresh) fresh
    simpa [Shape,ListShape.withBlock,based] using round
  · rw [placed_iff c]
    rcases eq_or_ne c address with rfl | other
    · simp [ListShape.withBlock]
    · simpa [ListShape.withBlock,other] using inv.alive c
  · rcases eq_or_ne c address with rfl | other
    · simp [ListShape.withBlock,based,other_base,List.count_eq_zero_of_not_mem unheld]
    · simpa [ListShape.withBlock,other] using inv.count c
  · rw [placed_iff c]
    rcases eq_or_ne c address with rfl | other
    · have living : c ∉ dying := fun dies => outside ((inv.dead c).mp dies).1
      simp [ListShape.withBlock,living]
    · simpa [ListShape.withBlock,other] using inv.dead c
  · rw [placed_iff c]
    rcases eq_or_ne f e with rfl | another
    · rcases eq_or_ne c address with rfl | other
      · simp [ListShape.withBlock]
      · have unowned : ¬ (c ∈ ring ∧ (s.blocks c).element = some f) := by
          rw [← inv.cb f c,new]
          exact fun same => by cases same
        simpa [ListShape.withBlock,other,Ne.symm other] using unowned
    · rcases eq_or_ne c address with rfl | other
      · have unowned : s.m_cb f ≠ some c := fun owned => outside ((inv.cb f c).mp owned).1
        simpa [ListShape.withBlock,another,Ne.symm another] using unowned
      · simpa [ListShape.withBlock,another,other] using inv.cb f c
  · have other : c ≠ address := fun same => away ((placed_iff c).mpr (.inl same))
    have before := inv.outside c fun inside => away ((placed_iff c).mpr (.inr inside))
    simpa [ListShape.withBlock,other] using before
  · rcases eq_or_ne c address with rfl | other
    · simp [ListShape.withBlock]
    · have before := inv.curr c (((placed_iff c).mp one).resolve_left other)
      simpa [ListShape.withBlock,other] using before
  · rcases eq_or_ne c address with rfl | other
    · simp [ListShape.withBlock]
    · have before := inv.lock c (((placed_iff c).mp one).resolve_left other)
      simpa [ListShape.withBlock,other] using before

theorem elements_withBlock (outside : address ∉ part) :
    elements (withBlock s insert base e address) part = elements s part := by
  refine elements_congr fun c one => ?_
  have other : c ≠ address := fun same => outside (same ▸ one)
  simp [withBlock,other]

/-- `PushBack` and `PushFront`: an element that is in the list is taken out, and
    then put in with a new block. -/
theorem Inv.push_eq (inv : Inv s held dying ring) (based : s.m_base = some base) (e : ε) :
    s.push insert (some e) address =
      ((s.removeFromListLocked e).1,ListShape.withBlock (s.removeFromListLocked e).2 insert base e address) := by
  have out : (s.removeFromListLocked e).2.m_cb e = none := by
    rw [(inv.removeFromListLocked e).2.2.1,Function.update_self]
  have first : s.takeListed e = s.removeFromListLocked e := by
    unfold CallbackList.takeListed
    cases owns : s.m_cb e with
    | none => simp only [CallbackList.removeFromListLocked,owns]
    | some cb =>
      have member := ((inv.cb e cb).mp owns).1
      exact if_pos (isInListLocked_iff.mpr ((inv.shape.isRing based).next_ne member))
  simp only [CallbackList.push,based,CallbackList.lockAddPrepare,first,out]
  simp [CallbackList.addLocked,CallbackList.makeShared,CallbackList.setCb,CallbackList.modify,ListShape.withBlock]

end spec

end IpcPortable.ListShape
