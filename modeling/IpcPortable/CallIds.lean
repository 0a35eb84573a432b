import IpcPortable.Pending

/-!
The ids that `NewCallId` gives out. The ids are walked through in the order of
the counter, which comes back to its beginning after the last one; how far away
an id still is goes down with every round that does not end the loop. An id
that is not recorded anywhere is given out again when all others were drawn
since, or have a reply pending (`newCallId_avoids`).
-/
namespace IpcPortable.CallIds
open IpcPortable.DataStream IpcPortable.Packets IpcPortable.Pending
variable {Tid : Type}

/-- A new id can be this one: it is not the invalid id and has no reply pending. -/
def Free (p : PendingResponces Tid) (id : CallId) : Prop := id ≠ c_invalid_id ∧ p.m_id_data_return id = none

/-- How many ids the counter passes before it reaches this one. -/
def distance (p : PendingResponces Tid) (id : CallId) : Nat := (id - p.nextId).toNat

/-- A drawn id that is not free brings every free one nearer. -/
theorem distance_next (p : PendingResponces Tid) {id : CallId} (nonzero : id ≠ c_invalid_id) (other : id ≠ p.nextId) :
    distance { p with m_incremental_id := p.nextId + 1 } id < distance p id := by
  have drawn := nextId_nonzero p
  unfold distance
  generalize p.nextId = next at drawn other ⊢
  unfold PendingResponces.nextId
  unfold c_invalid_id at nonzero drawn ⊢
  split
  · bv_omega
  · bv_omega

/-- Ids that are as far away after a round were so before it. -/
theorem distance_order (p : PendingResponces Tid) {near far : CallId} (far_nonzero : far ≠ c_invalid_id)
    (near_other : near ≠ p.nextId) (far_other : far ≠ p.nextId)
    (order : distance { p with m_incremental_id := p.nextId + 1 } near ≤
      distance { p with m_incremental_id := p.nextId + 1 } far) : distance p near ≤ distance p far := by
  have drawn := nextId_nonzero p
  unfold distance at order ⊢
  generalize p.nextId = next at drawn near_other far_other order ⊢
  unfold PendingResponces.nextId at order
  unfold c_invalid_id at far_nonzero drawn order
  split at order
  · bv_omega
  · bv_omega

/-- The id given out is the nearest free one, and the counter is one past it. -/
theorem newCallIdLoop_nearest {rounds : Nat} {p : PendingResponces Tid} {free : CallId} (available : Free p free)
    (enough : distance p free < rounds) :
    ∃ id, newCallIdLoop rounds p = some (id,{ p with m_incremental_id := id + 1 }) ∧ Free p id ∧
      distance p id ≤ distance p free := by
  induction rounds generalizing p with
  | zero => exact absurd enough (Nat.not_lt_zero _)
  | succ rounds ih =>
    unfold newCallIdLoop
    dsimp only
    by_cases taken : (p.m_id_data_return p.nextId).isSome
    · rw [if_pos taken]
      have other {id : CallId} (free : Free p id) : id ≠ p.nextId := by
        rintro rfl
        rw [free.2] at taken
        cases taken
      have nearer := distance_next p available.1 (other available)
      obtain ⟨id,drawn,found,order⟩ :=
        ih (p := { p with m_incremental_id := p.nextId + 1 }) available (by omega)
      exact ⟨id,drawn,found,distance_order p available.1 (other found) (other available) order⟩
    · rw [if_neg taken]
      exact ⟨p.nextId,rfl,⟨nextId_nonzero p,by simpa using taken⟩,by simp [distance]⟩

theorem newCallId_nearest {p : PendingResponces Tid} {free : CallId} (available : Free p free) :
    ∃ id, newCallId p = some (id,{ p with m_incremental_id := id + 1 }) ∧ Free p id ∧
      distance p id ≤ distance p free :=
  newCallIdLoop_nearest available (BitVec.isLt _)

/-- Right after an id was given out no other one is as far away. -/
theorem distance_last (p : PendingResponces Tid) {id other : CallId} (counter : p.m_incremental_id = id + 1)
    (other_nonzero : other ≠ c_invalid_id) (different : other ≠ id) :
    distance p other < distance p id := by
  unfold distance PendingResponces.nextId
  rw [counter]
  unfold c_invalid_id at other_nonzero ⊢
  split
  · bv_omega
  · bv_omega

/-- The call after it gives out another id, if one is free then. -/
theorem newCallId_again {p : PendingResponces Tid} {id other : CallId} (counter : p.m_incremental_id = id + 1)
    (available : Free p other) (different : other ≠ id) :
    ∃ again, newCallId p = some (again,{ p with m_incremental_id := again + 1 }) ∧ again ≠ id := by
  obtain ⟨again,drawn,_,order⟩ := newCallId_nearest available
  have before := distance_last p counter available.1 different
  exact ⟨again,drawn,by rintro rfl; omega⟩

/-- The loop ends with a free id whenever there is one, and leaves the counter
    one past it. The next call, whatever was stored or taken out between the two,
    gives out another id if two are free then. -/
theorem newCallId_fresh (p : PendingResponces Tid) (available : ∃ id, Free p id) :
    ∃ id, newCallId p = some (id,{ p with m_incremental_id := id + 1 }) ∧ Free p id ∧
      ∀ later : PendingResponces Tid, later.m_incremental_id = id + 1 →
        (∃ first second, first ≠ second ∧ Free later first ∧ Free later second) →
        ∃ again, newCallId later = some (again,{ later with m_incremental_id := again + 1 }) ∧ Free later again ∧
          again ≠ id := by
  obtain ⟨free,available⟩ := available
  obtain ⟨id,drawn,found,-⟩ := newCallId_nearest available
  refine ⟨id,drawn,found,?_⟩
  rintro later counter ⟨first,second,distinct,first_free,second_free⟩
  have other : ∃ other, Free later other ∧ other ≠ id := by
    by_cases same : first = id
    · exact ⟨second,second_free,same ▸ distinct.symm⟩
    · exact ⟨first,first_free,same⟩
  obtain ⟨other,other_free,different⟩ := other
  obtain ⟨again,drawn,unlike⟩ := newCallId_again counter other_free different
  obtain ⟨nonzero,absent,_⟩ := newCallId_result drawn
  exact ⟨again,drawn,⟨nonzero,absent⟩,unlike⟩

/-- A reply that nobody took yet. -/
def replyTo (id : CallId) : CallDataBuffer := { header := { type := pt_return, id } }
theorem replyTo_reply (id : CallId) : Reply (replyTo id) := by
  show pt_call < pt_return
  decide
/-- The counter stands in front of its end, and the last id and the first one have a reply pending. -/
def crowded : PendingResponces Nat :=
  (({ m_incremental_id := 0xFFFFFFFF, replies := @no_replies, calls := @no_calls } : PendingResponces Nat).insertReply
    (replyTo 0xFFFFFFFF) (replyTo_reply _)).insertReply (replyTo 1) (replyTo_reply _)

theorem crowded_free {id : CallId} (last : id ≠ 0xFFFFFFFF) (first : id ≠ 1) :
    crowded.m_id_data_return id = none := by
  have inserted : crowded.m_id_data_return = Function.update
      (Function.update (fun _ => none) 0xFFFFFFFF (some (replyTo 0xFFFFFFFF))) 1 (some (replyTo 1)) := rfl
  rw [inserted,Function.update_of_ne first,Function.update_of_ne last]

/-- The counter comes round and passes over ids with replies; the next call
    gives out another id, after the reply to the first one was taken. -/
theorem newCallId_fresh_wrapped :
    ∃ id, newCallId crowded = some (id,{ crowded with m_incremental_id := id + 1 }) ∧ Free crowded id ∧
      ∃ again, newCallId { crowded.eraseReply 1 with m_incremental_id := id + 1 } =
        some (again,{ crowded.eraseReply 1 with m_incremental_id := again + 1 }) ∧ again ≠ id := by
  have two : crowded.m_id_data_return 2 = none := crowded_free (by decide) (by decide)
  have three : crowded.m_id_data_return 3 = none := crowded_free (by decide) (by decide)
  obtain ⟨id,drawn,found,later⟩ := newCallId_fresh crowded ⟨2,by decide,two⟩
  have left {other : CallId} (absent : crowded.m_id_data_return other = none) :
      (crowded.eraseReply 1).m_id_data_return other = none := by
    by_cases one : other = 1
    · rw [one,eraseReply_id]
    · exact (Function.update_of_ne one _ _).trans absent
  obtain ⟨again,second,_,different⟩ := later { crowded.eraseReply 1 with m_incremental_id := id + 1 } rfl
    ⟨2,3,by decide,⟨by decide,left two⟩,⟨by decide,left three⟩⟩
  exact ⟨id,drawn,found,again,second,different⟩

/-! ### The ids drawn -/

/-- The ids that the loop draws, the last one first: those that it passes over
    and the one that it gives out. -/
def drawnIds : Nat → PendingResponces Tid → List CallId
  | 0, _ => []
  | rounds + 1, p =>
    if (p.m_id_data_return p.nextId).isSome then
      drawnIds rounds { p with m_incremental_id := p.nextId + 1 } ++ [p.nextId]
    else [p.nextId]
/-- The counter goes round: it comes to the ids that were drawn after an id, the
    last one first, later than to this id again, and to the others before. -/
def Walked (p : PendingResponces Tid) (drawn : List CallId) : Prop :=
  ∀ id ∈ drawn, id ≠ c_invalid_id ∧ ∀ other, other ≠ c_invalid_id → other ≠ id →
    (other ∈ drawn.takeWhile (· ≠ id) ↔ distance p id < distance p other)
/-- Some id can be given out that was not drawn since this one was drawn last. -/
def Undrawn (p : PendingResponces Tid) (drawn : List CallId) (id : CallId) : Prop :=
  ∃ free, Free p free ∧ free ≠ id ∧ free ∉ drawn.takeWhile (· ≠ id)

theorem distance_injective {p : PendingResponces Tid} {one other : CallId} (same : distance p one = distance p other) :
    one = other := by
  unfold distance at same
  bv_omega

/-- The order of the ids stays when another one is drawn. -/
theorem distance_iff (p : PendingResponces Tid) {near far : CallId} (near_nonzero : near ≠ c_invalid_id)
    (far_nonzero : far ≠ c_invalid_id) (near_other : near ≠ p.nextId) (far_other : far ≠ p.nextId) :
    distance { p with m_incremental_id := p.nextId + 1 } near < distance { p with m_incremental_id := p.nextId + 1 } far ↔
      distance p near < distance p far := by
  have far_near := distance_order p near_nonzero far_other near_other
  have near_far := distance_order p far_nonzero near_other far_other
  constructor
  · intro before
    refine Nat.lt_of_le_of_ne (near_far (Nat.le_of_lt before)) fun same => ?_
    rw [distance_injective same] at before
    exact absurd before (Nat.lt_irrefl _)
  · intro before
    exact Nat.lt_of_not_le fun after => absurd (far_near after) (Nat.not_le.mpr before)

theorem Walked.congr {p p' : PendingResponces Tid} {drawn : List CallId} (walked : Walked p drawn)
    (counter : p'.m_incremental_id = p.m_incremental_id) : Walked p' drawn := by
  have same (id : CallId) : distance p' id = distance p id := by
    unfold distance PendingResponces.nextId
    rw [counter]
  intro id member
  simp only [same]
  exact walked id member

/-- The next id is drawn. -/
theorem Walked.draw {p : PendingResponces Tid} {drawn : List CallId} (walked : Walked p drawn) :
    Walked { p with m_incremental_id := p.nextId + 1 } (p.nextId :: drawn) := by
  have last {other : CallId} (nonzero : other ≠ c_invalid_id) (different : other ≠ p.nextId) :
      distance { p with m_incremental_id := p.nextId + 1 } other <
        distance { p with m_incremental_id := p.nextId + 1 } p.nextId :=
    distance_last { p with m_incremental_id := p.nextId + 1 } rfl nonzero different
  intro id member
  by_cases newest : id = p.nextId
  · subst newest
    refine ⟨nextId_nonzero p,fun other nonzero different => ?_⟩
    rw [List.takeWhile_cons_of_neg (by simp)]
    simpa using Nat.le_of_lt (last nonzero different)
  · obtain ⟨id_nonzero,order⟩ := walked id (List.mem_of_ne_of_mem newest member)
    refine ⟨id_nonzero,fun other nonzero different => ?_⟩
    rw [List.takeWhile_cons_of_pos (by simpa using Ne.symm newest),List.mem_cons]
    by_cases now : other = p.nextId
    · subst now
      exact iff_of_true (.inl rfl) (last id_nonzero newest)
    · rw [or_iff_right now,order other nonzero different,distance_iff p id_nonzero nonzero newest now]

theorem newCallIdLoop_walked {rounds : Nat} {p p' : PendingResponces Tid} {id : CallId} {drawn : List CallId}
    (drew : newCallIdLoop rounds p = some (id,p')) (walked : Walked p drawn) :
    Walked p' (drawnIds rounds p ++ drawn) ∧ id ∈ drawnIds rounds p := by
  induction rounds generalizing p drawn with
  | zero => cases drew
  | succ rounds ih =>
    unfold newCallIdLoop at drew
    unfold drawnIds
    dsimp only at drew
    split at drew
    · rename_i stored
      obtain ⟨after,member⟩ := ih drew walked.draw
      rw [if_pos stored,List.append_assoc]
      exact ⟨after,List.mem_append_left _ member⟩
    · rename_i free
      cases drew
      rw [if_neg free]
      exact ⟨walked.draw,List.mem_cons_self⟩

/-- A new id differs from one that was drawn before exactly when that one has a
    reply pending, or another id is free that was not drawn since. -/
theorem newCallId_avoids {p p' : PendingResponces Tid} {id other : CallId} {drawn : List CallId} (walked : Walked p drawn)
    (drew : newCallId p = some (id,p')) (member : other ∈ drawn) :
    id ≠ other ↔ p.m_id_data_return other ≠ none ∨ Undrawn p drawn other := by
  obtain ⟨nonzero,order⟩ := walked other member
  obtain ⟨id_nonzero,absent,_⟩ := newCallId_result drew
  constructor
  · intro different
    by_cases stored : p.m_id_data_return other = none
    · obtain ⟨again,drew_again,_,near⟩ := newCallId_nearest ⟨nonzero,stored⟩
      rw [drew] at drew_again
      cases drew_again
      exact .inr ⟨id,⟨id_nonzero,absent⟩,different,fun since =>
        absurd near (Nat.not_le.mpr ((order id id_nonzero different).mp since))⟩
    · exact .inl stored
  · rintro (stored | ⟨free,available,different,unsince⟩) rfl
    · exact stored absent
    · obtain ⟨again,drew_again,_,near⟩ := newCallId_nearest available
      rw [drew] at drew_again
      cases drew_again
      refine unsince ((order free available.1 different).mpr (Nat.lt_of_le_of_ne near fun same => ?_))
      exact different (distance_injective same).symm

end IpcPortable.CallIds
