import IpcPortable.ListShape

/-!
A `CallbackList` on one thread. A destructor runs at once, so no block waits for
it between the operations: letting go, removing, pushing, and the loops that walk
from block to block and remove what they choose.
-/
namespace IpcPortable.ListShape
open IpcPortable.Rings IpcPortable.CallbackLists
set_option linter.unusedSectionVars false
variable {ε : Type} [DecidableEq ε] {s s' : CallbackList ε} {held ring part : List Address} {b base address : Address} {e : ε}

@[simp] theorem reset_m_cb (s : CallbackList ε) (b : Address) : (s.reset b).m_cb = s.m_cb := by
  unfold CallbackList.reset
  simp only
  split
  · exact CallbackList.unlinkLocked_m_cb ..
  · rfl
@[simp] theorem reset_m_base (s : CallbackList ε) (b : Address) : (s.reset b).m_base = s.m_base := by
  unfold CallbackList.reset
  simp only
  split
  · exact CallbackList.unlinkLocked_m_base ..
  · rfl
@[simp] theorem reset_element (s : CallbackList ε) (b c : Address) :
    ((s.reset b).blocks c).element = (s.blocks c).element := by
  have dropped : ((s.dropRef b).blocks c).element = (s.blocks c).element := by
    rcases eq_or_ne c b with rfl | other
    · simp [CallbackList.dropRef]
    · simp [CallbackList.dropRef,other]
  unfold CallbackList.reset
  simp only
  split
  · change (((s.dropRef b).unlinkLocked b).blocks c).element = _
    rw [CallbackList.unlinkLocked_blocks,dropped]
  · exact dropped

@[simp] theorem acquire_element (s : CallbackList ε) (b c : Address) :
    ((s.acquire b).blocks c).element = (s.blocks c).element := by
  rcases eq_or_ne c b with rfl | other
  · simp [CallbackList.acquire]
  · simp [CallbackList.acquire,other]

theorem elements_acquire (s : CallbackList ε) (b : Address) (part : List Address) :
    elements (s.acquire b) part = elements s part := elements_congr fun c _ => acquire_element s b c

theorem Inv.living (inv : Inv s held [] ring) (member : b ∈ ring) : (s.blocks b).use_count ≠ 0 :=
  fun dead => List.not_mem_nil ((inv.dead b).mpr ⟨member,dead⟩)

theorem Inv.lockCurr_eq (inv : Inv s held [] ring) (member : b ∈ ring) : s.lockCurr b = (some b,s.acquire b) := by
  rcases inv.lockCurr_cases member with ⟨dead,-⟩ | ⟨-,locked⟩
  · exact absurd dead (inv.living member)
  · exact locked

/-- `Front`: the first block, with one more reference. -/
theorem Inv.front_eq (inv : Inv s held [] ring) (based : s.m_base = some base) :
    ring = [] ∧ s.front = (none,s) ∨ ∃ first rest, ring = first :: rest ∧ s.front = (some first,s.acquire first) ∧
      Inv (s.acquire first) (first :: held) [] ring := by
  rcases inv.front_cases based with nothing | ⟨first,rest,rfl,found⟩
  · exact .inl nothing
  · have member : first ∈ first :: rest := List.mem_cons_self
    exact .inr ⟨first,rest,rfl,found.trans (inv.lockCurr_eq member),inv.acquire member (inv.living member)⟩

/-- `GetNext`: the next block, with one more reference. -/
theorem Inv.getNext_eq (inv : Inv s held [] ring) (based : s.m_base = some base) {before behind : List Address}
    (here : ring = before ++ b :: behind) :
    behind = [] ∧ s.getNext b = (none,s) ∨ ∃ next rest, behind = next :: rest ∧ s.getNext b = (some next,s.acquire next) ∧
      Inv (s.acquire next) (next :: held) [] ring := by
  rcases inv.getNext_cases based here with nothing | ⟨next,rest,rfl,found⟩
  · exact .inl nothing
  · have member : next ∈ ring := here ▸ List.mem_append_right _ (List.mem_cons_of_mem _ List.mem_cons_self)
    exact .inr ⟨next,rest,rfl,found.trans (inv.lockCurr_eq member),inv.acquire member (inv.living member)⟩

theorem Inv.reset (inv : Inv s held [] ring) (holds : b ∈ held) :
    ∃ ring', Inv (s.reset b) (held.erase b) [] ring' ∧ Pruned (fun _ => true) s ring (s.reset b) ring' := by
  have dropped := inv.dropRef holds
  have positive : 0 < held.count b := List.count_pos_iff.mpr holds
  have counted := inv.count b
  have count : ((s.dropRef b).blocks b).use_count = (s.blocks b).use_count - 1 := by simp [CallbackList.dropRef]
  by_cases last : (s.blocks b).use_count = 1
  · have nothing : (s.blocks b).element = none := by
      have none_left : (s.blocks b).element.toList.length = 0 := by omega
      simpa using none_left
    have gone : s.reset b = (s.dropRef b).ctrlBlockDtor b := by
      unfold CallbackList.reset
      exact if_pos (by omega)
    rw [if_pos last] at dropped
    have after := dropped.ctrlBlockDtor List.mem_cons_self
    rw [List.erase_cons_head,← gone] at after
    refine ⟨ring.erase b,after,fun c => c != b,inv.shape.once.erase_eq_filter b,fun c _ => ?_⟩
    rw [reset_element,filter_all]
    rcases eq_or_ne c b with rfl | other
    · simp [nothing]
    · simp [other]
  · have stays : s.reset b = s.dropRef b := by
      unfold CallbackList.reset
      exact if_neg (by omega)
    rw [if_neg last,← stays] at dropped
    exact ⟨ring,dropped,pruned_all fun c _ => reset_element s b c⟩

theorem Inv.destroyUnlocked {delete_unlocked : DeleteUnlocked ε} (inv : Inv s (delete_unlocked.cb.toList ++ held) [] ring) :
    ∃ ring', Inv (s.destroyUnlocked delete_unlocked) held [] ring' ∧
      Pruned (fun _ => true) s ring (s.destroyUnlocked delete_unlocked) ring' := by
  unfold CallbackList.destroyUnlocked
  cases cb : delete_unlocked.cb with
  | none =>
    rw [cb] at inv
    exact ⟨ring,inv,pruned_all fun _ _ => rfl⟩
  | some b =>
    rw [cb] at inv
    obtain ⟨ring',after,pruned⟩ := inv.reset (List.mem_append_left _ (List.mem_singleton_self b))
    rw [Option.toList_some,List.singleton_append,List.erase_cons_head] at after
    exact ⟨ring',after,pruned⟩

@[simp] theorem destroyUnlocked_m_base (s : CallbackList ε) (delete_unlocked : DeleteUnlocked ε) :
    (s.destroyUnlocked delete_unlocked).m_base = s.m_base := by
  unfold CallbackList.destroyUnlocked
  split
  · rfl
  · exact reset_m_base ..
@[simp] theorem removeFromList_m_base (s : CallbackList ε) (e : ε) : (s.removeFromList e).m_base = s.m_base := by
  refine (destroyUnlocked_m_base ..).trans ?_
  split <;> rfl

/-- `RemoveFromList`. -/
theorem Inv.removeFromList (inv : Inv s held [] ring) (e : ε) :
    ∃ ring', Inv (s.removeFromList e) held [] ring' ∧ Pruned (fun f => f != e) s ring (s.removeFromList e) ring' := by
  obtain ⟨out,taken,-,cb,-,-⟩ := inv.removeFromListLocked e
  rw [← cb] at out
  obtain ⟨ring',after,pruned⟩ := out.destroyUnlocked
  exact ⟨ring',after,(taken.trans pruned).congr fun f _ => Bool.and_true _⟩

/-- `PushBack` and `PushFront`. -/
theorem Inv.push {insert : Links Address → Address → Address → Links Address} {placed : List Address → Address → List Address}
    {ordered : List ε → ε → List ε} (inv : Inv s held [] ring) (based : s.m_base = some base)
    (inserts : Inserts insert placed ordered) (e : ε) (free : s.alive address = false) :
    ∃ ring', Inv ((s.push insert (some e) address).2.destroyUnlocked (s.push insert (some e) address).1) held [] ring' ∧
      elements ((s.push insert (some e) address).2.destroyUnlocked (s.push insert (some e) address).1) ring' =
        ordered ((elements s ring).erase e) e := by
  obtain ⟨out,taken,owned,cb,same_base,same_alive⟩ := inv.removeFromListLocked e
  have new : (s.removeFromListLocked e).2.m_cb e = none := by rw [owned,Function.update_self]
  have outside := (inv.free_outside free).1
  rw [inv.push_eq based e]
  have placed_in := out.withBlock (same_base.trans based) inserts new (by rw [same_alive]; exact free)
  rw [← cb] at placed_in
  obtain ⟨ring',after,pruned⟩ := placed_in.destroyUnlocked
  refine ⟨ring',after,?_⟩
  let placed_list := ListShape.withBlock (s.removeFromListLocked e).2 insert base e address
  have kept : elements placed_list ring = elements (s.removeFromListLocked e).2 ring := elements_withBlock outside
  have ordered_in := inserts.order (fun c => (placed_list.blocks c).element) ring address e
    (by simp [placed_list,ListShape.withBlock])
  rw [pruned.elements_eq,List.filter_eq_self.mpr fun _ _ => rfl]
  refine ordered_in.trans ?_
  change ordered (elements placed_list ring) e = _
  rw [kept,taken.elements_eq,inv.elements_nodup.erase_eq_filter]

/-- `PushBack` of an element that is in no list. -/
theorem Inv.pushNew {dying : List Address} (inv : Inv s held dying ring) (based : s.m_base = some base) (new : s.m_cb e = none) :
    s.pushBack (some e) address = ListShape.withBlock s Links.insertBefore base e address := by
  have out : s.removeFromListLocked e = ({},s) := by simp only [CallbackList.removeFromListLocked,new]
  have pushed : s.push Links.insertBefore (some e) address = _ := inv.push_eq based e
  rw [out] at pushed
  simp only [CallbackList.pushBack,CallbackList.pushBackLocked,pushed,CallbackList.destroyUnlocked]

/-- A temporary reference leaves the list as it was. -/
theorem acquire_reset (living : (s.blocks b).use_count ≠ 0) : (s.acquire b).reset b = s := by
  have dropped : (s.acquire b).dropRef b = s := by
    simp [CallbackList.acquire,CallbackList.dropRef,CallbackList.modify]
  unfold CallbackList.reset
  simp only [dropped,if_neg living]

/-! ### Loops -/

@[simp] theorem lockCurr_m_base (s : CallbackList ε) (b : Address) : (s.lockCurr b).2.m_base = s.m_base := by
  unfold CallbackList.lockCurr
  split
  · rfl
  · split <;> rfl
@[simp] theorem getNext_m_base (s : CallbackList ε) (b : Address) : (s.getNext b).2.m_base = s.m_base := by
  unfold CallbackList.getNext
  split
  · split
    · rfl
    · exact lockCurr_m_base ..
  · rfl
@[simp] theorem removeElement_m_base (chosen : ε → Bool) (s : CallbackList ε) (b : Address) :
    (s.removeElement chosen b).m_base = s.m_base := by
  unfold CallbackList.removeElement
  split
  · split
    · exact removeFromList_m_base ..
    · rfl
  · rfl

/-- An iterator goes from one block to the next, and lets go of the one. -/
theorem Inv.advance {before behind : List Address} (inv : Inv s (b :: held) [] (before ++ b :: behind))
    (based : s.m_base = some base) :
    (s.getNext b).1 = behind.head? ∧ ∃ ring', Inv ((s.getNext b).2.reset b) (behind.head?.toList ++ held) [] ring' ∧
      Pruned (fun _ => true) s (before ++ b :: behind) ((s.getNext b).2.reset b) ring' := by
  have later : b ∉ behind := by
    have split := List.nodup_cons.mp (List.nodup_middle.mp inv.shape.once)
    exact fun one => split.1 (List.mem_append_right _ one)
  obtain ⟨found,holding,same⟩ : (s.getNext b).1 = behind.head? ∧
      Inv (s.getNext b).2 (behind.head?.toList ++ b :: held) [] (before ++ b :: behind) ∧
      ∀ c, ((s.getNext b).2.blocks c).element = (s.blocks c).element := by
    rcases inv.getNext_eq based rfl with ⟨rfl,none_left⟩ | ⟨x,rest,rfl,got,acquired⟩
    · rw [none_left]
      exact ⟨rfl,inv,fun _ => rfl⟩
    · rw [got]
      exact ⟨rfl,acquired,fun c => acquire_element s x c⟩
  have other : b ∉ behind.head?.toList := fun one => later (List.mem_of_mem_head? (Option.mem_toList.mp one))
  obtain ⟨ring',after,pruned⟩ := holding.reset (List.mem_append_right _ List.mem_cons_self)
  rw [List.erase_append_right _ other,List.erase_cons_head] at after
  exact ⟨found,ring',after,((pruned_all fun c _ => same c).trans pruned).congr fun _ _ => rfl⟩

/-- The loop does away with the element that it has found, if it is chosen. -/
theorem Inv.removeElement (chosen : ε → Bool) (inv : Inv s (b :: held) [] ring) :
    ∃ ring', Inv (s.removeElement chosen b) (b :: held) [] ring' ∧
      Pruned (fun e => !(chosen e && decide ((s.blocks b).element = some e))) s ring (s.removeElement chosen b) ring' := by
  have unchanged : (∀ e, (s.blocks b).element = some e → chosen e = false) → s.removeElement chosen b = s →
      ∃ ring', Inv (s.removeElement chosen b) (b :: held) [] ring' ∧
        Pruned (fun e => !(chosen e && decide ((s.blocks b).element = some e))) s ring (s.removeElement chosen b) ring' := by
    intro spared same
    rw [same]
    refine ⟨ring,inv,(pruned_all fun _ _ => rfl).congr fun e _ => ?_⟩
    by_cases here : (s.blocks b).element = some e
    · simp [spared e here]
    · simp [here]
  unfold CallbackList.removeElement at unchanged ⊢
  rw [inv.getElement_eq (inv.inside b List.mem_cons_self)] at unchanged ⊢
  cases element : (s.blocks b).element with
  | none =>
    rw [element] at unchanged
    exact unchanged (fun e same => by cases same) rfl
  | some el =>
    rw [element] at unchanged
    by_cases picked : chosen el = true
    · obtain ⟨ring',after,pruned⟩ := inv.removeFromList el
      simp only [if_pos picked]
      refine ⟨ring',after,pruned.congr fun e _ => ?_⟩
      by_cases same : e = el
      · simp [same,picked]
      · simp [same,Ne.symm same]
    · refine unchanged (fun e same => ?_) (if_neg picked)
      obtain rfl := Option.some.inj same
      exact Bool.eq_false_iff.mpr picked

/-- One round of a loop that removes: it goes on from the block that is next by then. -/
theorem Inv.removeRound {before behind : List Address} (chosen : ε → Bool) (inv : Inv s (b :: held) [] (before ++ b :: behind))
    (based : s.m_base = some base) :
    ∃ round next ring', (∀ rounds, CallbackList.removeLoop chosen (rounds + 1) s (some b) =
        CallbackList.removeLoop chosen rounds round next) ∧
      round.m_base = some base ∧ Inv round (next.toList ++ held) [] ring' ∧
      Pruned (fun e => !(chosen e && decide ((s.blocks b).element = some e))) s (before ++ b :: behind) round ring' ∧
      (next = none → elements s behind = []) ∧
      ∀ x, next = some x → ∃ before' behind', ring' = before' ++ x :: behind' ∧ behind'.length < behind.length ∧
        elements round (x :: behind') = elements s behind := by
  have split := List.nodup_cons.mp (List.nodup_middle.mp inv.shape.once)
  obtain ⟨ring₁,cleared,first⟩ := inv.removeElement chosen
  have based₁ : (s.removeElement chosen b).m_base = some base := (removeElement_m_base ..).trans based
  obtain ⟨before₁,behind₁,rfl,shorter,-,rest₁,-⟩ := first.split rfl (cleared.inside b List.mem_cons_self)
  have spared : ∀ e ∈ elements s behind, (!(chosen e && decide ((s.blocks b).element = some e))) = true := by
    intro e member
    obtain ⟨c,within,has⟩ := mem_elements.mp member
    have other : (s.blocks b).element ≠ some e := by
      intro same
      have owned := (inv.cb e b).mpr ⟨List.mem_append_right _ List.mem_cons_self,same⟩
      have again := (inv.cb e c).mpr ⟨List.mem_append_right _ (List.mem_cons_of_mem _ within),has⟩
      exact split.1 (List.mem_append_right _ (Option.some.inj (owned.symm.trans again) ▸ within))
    simp [other]
  rw [List.filter_eq_self.mpr spared] at rest₁
  obtain ⟨found,ring₂,after,second⟩ := cleared.advance based₁
  refine ⟨_,behind₁.head?,ring₂,fun rounds => ?_,?_,after,(first.trans second).congr fun _ _ => Bool.and_true _,?_,?_⟩
  · rw [CallbackList.removeLoop,← found]
  · rw [reset_m_base,getNext_m_base,based₁]
  · intro none_left
    cases behind₁ with
    | nil => exact rest₁.symm
    | cons x rest => cases none_left
  · intro x at_head
    cases behind₁ with
    | nil => cases at_head
    | cons y rest =>
      obtain rfl := Option.some.inj at_head
      have here : before₁ ++ b :: y :: rest = (before₁ ++ [b]) ++ y :: rest := by simp
      obtain ⟨before₂,behind₂,cut,short,-,-,kept⟩ := second.split here (after.inside y List.mem_cons_self)
      rw [List.filter_eq_self.mpr fun _ _ => rfl] at kept
      exact ⟨before₂,behind₂,cut,Nat.lt_of_le_of_lt short shorter,kept.trans rest₁⟩

/-- A loop that removes comes to its end, and has removed the chosen elements
    from where it began. -/
theorem Inv.removeLoop {before behind : List Address} (chosen : ε → Bool) (inv : Inv s (b :: held) [] (before ++ b :: behind))
    (based : s.m_base = some base) (rounds : Nat) :
    (behind.length < rounds → (CallbackList.removeLoop chosen rounds s (some b)).isSome) ∧
    ∀ result, CallbackList.removeLoop chosen rounds s (some b) = some result →
      result.m_base = some base ∧ ∃ ring', Inv result held [] ring' ∧
        Pruned (fun e => !(chosen e && decide (e ∈ elements s (b :: behind)))) s (before ++ b :: behind) result ring' := by
  induction rounds generalizing s b before behind with
  | zero => exact ⟨fun few => absurd few (Nat.not_lt_zero _),fun result ended => by cases ended⟩
  | succ rounds ih =>
    obtain ⟨round,next,ring',turned,round_base,after,pruned,ended,goes_on⟩ := inv.removeRound chosen based
    have here : ∀ e, e ∈ elements s (b :: behind) ↔ (s.blocks b).element = some e ∨ e ∈ elements s behind := by
      intro e
      cases element : (s.blocks b).element with
      | none => simp [elements_cons_none element]
      | some f => simp [elements_cons_some element,eq_comm]
    rw [turned]
    cases next with
    | none =>
      have nothing := ended rfl
      have stops : CallbackList.removeLoop chosen rounds round none = some round := by cases rounds <;> rfl
      rw [stops]
      refine ⟨fun _ => rfl,fun result same => ?_⟩
      obtain rfl := Option.some.inj same
      refine ⟨round_base,ring',after,pruned.congr fun e _ => ?_⟩
      simp only [here,nothing,List.not_mem_nil,or_false]
    | some x =>
      obtain ⟨before',behind',rfl,shorter,kept⟩ := goes_on x rfl
      obtain ⟨ends,good⟩ := ih after round_base
      refine ⟨fun many => ends (by omega),fun result same => ?_⟩
      obtain ⟨still,ring'',left,rest⟩ := good result same
      refine ⟨still,ring'',left,(pruned.trans rest).congr fun e _ => ?_⟩
      rw [kept]
      simp only [here]
      by_cases at_block : (s.blocks b).element = some e <;> cases chosen e <;> simp [at_block]

/-- A loop over the whole list removes the chosen elements. -/
theorem Inv.removeAll (chosen : ε → Bool) (inv : Inv s held [] ring) (based : s.m_base = some base) (rounds : Nat) :
    (ring.length < rounds → (CallbackList.removeLoop chosen rounds s.front.2 s.front.1).isSome) ∧
    ∀ result, CallbackList.removeLoop chosen rounds s.front.2 s.front.1 = some result →
      result.m_base = some base ∧ ∃ ring', Inv result held [] ring' ∧ Pruned (fun e => !chosen e) s ring result ring' := by
  rcases inv.front_eq based with ⟨rfl,nothing⟩ | ⟨first,rest,rfl,found,acquired⟩
  · rw [nothing]
    have stops : CallbackList.removeLoop chosen rounds s none = some s := by cases rounds <;> rfl
    rw [stops]
    refine ⟨fun _ => rfl,fun result same => ?_⟩
    obtain rfl := Option.some.inj same
    exact ⟨based,[],inv,pruned_same fun c member => by cases member⟩
  · rw [found]
    have unpassed : Inv (s.acquire first) (first :: held) [] ([] ++ first :: rest) := acquired
    have still : (s.acquire first).m_base = some base := based
    obtain ⟨ends,good⟩ := unpassed.removeLoop chosen still rounds
    refine ⟨fun many => ends (Nat.lt_of_succ_lt many),fun result same => ?_⟩
    obtain ⟨result_base,ring',after,pruned⟩ := good result same
    refine ⟨result_base,ring',after,?_⟩
    have whole : Pruned (fun _ => true) s (first :: rest) (s.acquire first) (first :: rest) :=
      pruned_all fun c _ => acquire_element s first c
    refine (whole.trans pruned).congr fun e member => ?_
    rw [elements_acquire]
    simp [member]

/-! ### Where an iterator stands -/

/-- The blocks from `b` on. -/
def after (b : Address) (ring : List Address) : List Address := ring.dropWhile fun c => c != b

theorem after_split {before behind : List Address} (once : (before ++ b :: behind).Nodup) :
    after b (before ++ b :: behind) = b :: behind := by
  have away : b ∉ before := fun one =>
    (List.nodup_cons.mp (List.nodup_middle.mp once)).1 (List.mem_append_left _ one)
  have skipped : ∀ c ∈ before, (c != b) = true := fun c one => bne_iff_ne.mpr fun same => away (same ▸ one)
  rw [after,List.dropWhile_append_of_pos skipped,List.dropWhile_cons_of_neg (by simp)]

/-- What is left of the blocks from `b` on, and of those behind it. -/
theorem Pruned.after {kept : ε → Bool} {ring' : List Address} (pruned : Pruned kept s ring s' ring') (once : ring.Nodup)
    (member : b ∈ ring') :
    elements s' (ListShape.after b ring') = (elements s (ListShape.after b ring)).filter kept ∧
    elements s' (ListShape.after b ring').tail = (elements s (ListShape.after b ring).tail).filter kept ∧
    (ListShape.after b ring').length ≤ (ListShape.after b ring).length := by
  have sub : ring'.Sublist ring := by
    obtain ⟨stays,rfl,-⟩ := pruned
    exact List.filter_sublist
  obtain ⟨before,behind,rfl⟩ := List.append_of_mem (sub.subset member)
  obtain ⟨before',behind',rfl,shorter,-,behind_kept,kept_all⟩ := pruned.split rfl member
  rw [after_split once,after_split (once.sublist sub)]
  exact ⟨kept_all,behind_kept,Nat.succ_le_succ shorter⟩

theorem after_append {rest : List Address} (member : b ∈ ring) : after b (ring ++ rest) = after b ring ++ rest := by
  unfold after
  induction ring with
  | nil => cases member
  | cons c others ih =>
    rcases eq_or_ne c b with rfl | other
    · rw [List.cons_append,List.dropWhile_cons_of_neg (by simp),List.dropWhile_cons_of_neg (by simp),List.cons_append]
    · have later : b ∈ others := (List.mem_cons.mp member).resolve_left (Ne.symm other)
      simpa [List.dropWhile_cons,other] using ih later

theorem after_subset (b : Address) (ring : List Address) : after b ring ⊆ ring := (List.dropWhile_sublist _).subset

end IpcPortable.ListShape
