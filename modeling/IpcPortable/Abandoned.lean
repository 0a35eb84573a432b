import Mathlib.Data.List.Count
import IpcPortable.Responses
import IpcPortable.Waiters

/-!
The responses that are stored, with a peer that answers every waiting call
once. A wait may return before its response came in: the transport failed, or
the wait was begun inside a `Read` of the transport. Its response is stored
when it comes, and nobody takes it. Every other response that is stored has a
call that waits for it (`stored_awaited`).
-/
namespace IpcPortable.Abandoned
open IpcPortable.Runs IpcPortable.DataStream IpcPortable.Packets IpcPortable.Pending IpcPortable.Endpoints
open IpcPortable.EndpointMoves IpcPortable.HandOver IpcPortable.CallQueue IpcPortable.Matching IpcPortable.Responses
open IpcPortable.Waiters
variable {Tid κ : Type}

/-- A call was written that waits for its response. -/
def wroteWaiter : Event κ → Option CallId
  | .wrote operation id _ => if hasWaiter operation then some id else none
  | _ => none
/-- The waits that returned, but not with a response. -/
def abandonedIds : List (Event κ) → List CallId
  | .left exit :: .returned operation id _ :: rest =>
    if exit ≠ .response ∧ hasWaiter operation then id :: abandonedIds rest else abandonedIds rest
  | _ :: rest => abandonedIds rest
  | [] => []
/-- The ids of the replies that an action reads. -/
def answerIds : Action κ → List CallId
  | .move (.read _ (some packet) type_raw) => replyIds [receiveCallDataBuffer type_raw packet]
  | _ => []

/-- An endpoint and what it has to do with its peer. -/
structure Peered (Tid κ : Type) where
  endpoint : Endpoint Tid κ := {}
  /-- The waiting calls that were written and not answered yet. -/
  unanswered : List CallId := []
  /-- The waits that returned without their response. -/
  abandoned : List (Tid × CallId) := []
/-- A step of the endpoint, where a reply that it reads answers a waiting call
    that was not answered before. -/
def step [DecidableEq Tid] (call_info : CallInfo κ) (w : Peered Tid κ) (action : Tid × Action κ) : Option (Peered Tid κ) :=
  if ∀ id ∈ answerIds action.2, id ∈ w.unanswered then
    (Endpoints.step call_info w.endpoint action).map fun endpoint =>
      let happened := (endpoint.events.drop w.endpoint.events.length).map Prod.snd
      { endpoint
        unanswered := w.unanswered.diff (answerIds action.2) ++ happened.filterMap wroteWaiter
        abandoned := w.abandoned ++ (abandonedIds happened).map (action.1,·) }
  else none

/-- The call was written, and its response was not taken. -/
def awaitsAt (wait_response_id : CallId) : Point → Bool
  | .newCallId => false
  | .writing => false
  | .handling buffer => !responsePrecessed buffer wait_response_id
  | .processing response_precessed _ => !response_precessed
  | _ => true
/-- The id of a wait that has neither its response nor returned. -/
def awaitedId (frame : Activation κ) : Option CallId :=
  if awaitsAt frame.id frame.point ∧ hasWaiter frame.operation then some frame.id else none
def awaitedIds (stack : List (Activation κ)) : List CallId := stack.filterMap awaitedId
@[simp] theorem awaitedIds_nil : awaitedIds ([] : List (Activation κ)) = [] := rfl
/-- Whether a response is stored, as a number. -/
def storedCount (p : PendingResponces Tid) (id : CallId) : Nat := if (p.m_id_data_return id).isSome then 1 else 0

/-! ### Counting over the threads -/

theorem count_said_le {ι γ : Type} [DecidableEq ι] [DecidableEq γ] {a b : List (ι × γ)} {entry : γ}
    (each : ∀ i, a.count (i,entry) ≤ b.count (i,entry)) : (a.map Prod.snd).count entry ≤ (b.map Prod.snd).count entry := by
  have counted (l : List (ι × γ)) : (l.map Prod.snd).count entry = (l.filter fun one => one.2 == entry).length := by
    rw [List.count,List.countP_map,List.countP_eq_length_filter]
    rfl
  have sub : (a.filter fun one => one.2 == entry).Subperm (b.filter fun one => one.2 == entry) := by
    refine List.subperm_ext_iff.mpr fun one member => ?_
    obtain ⟨i,value⟩ := one
    obtain ⟨_,same⟩ := List.mem_filter.mp member
    obtain rfl : value = entry := eq_of_beq same
    have kept (l : List (ι × γ)) : (l.filter fun one => one.2 == value).count (i,value) = l.count (i,value) :=
      List.count_filter same
    rw [kept,kept]
    exact each i
  rw [counted,counted]
  exact sub.length_le

/-! ### One step -/

section activation
variable [DecidableEq Tid] {call_info : CallInfo κ} {t : Tid} {p : PendingResponces Tid} {frame : Activation κ}
variable {move : Move} {out : Advance Tid κ}

omit [DecidableEq Tid] in
theorem store_count (p : PendingResponces Tid) (process_incoming_calls : Bool) (buffer : CallDataBuffer) (id : CallId) :
    storedCount (writeBuffer p process_incoming_calls buffer).1 id ≤
      (replyIds [buffer]).count id + storedCount p id := by
  unfold storedCount
  rw [writeBuffer_replies]
  by_cases reply : Reply buffer ∧ p.m_id_data_return buffer.header.id = none
  · rw [if_pos reply,replyIds_reply reply.1]
    by_cases same : id = buffer.header.id
    · subst same
      simp
    · rw [Function.update_of_ne same]
      exact Nat.le_add_left _ _
  · rw [if_neg reply]
    exact Nat.le_add_left _ _

/-- A response is taken once for every one that is stored. -/
theorem moves_stored (moved : Moves call_info t p frame move out) (id : CallId) :
    (out.events.filterMap tookId).count id + storedCount out.pending id ≤
      (replyIds (out.events.filterMap enteredPacket)).count id + storedCount p id := by
  have same {q : PendingResponces Tid} (replies : q.m_id_data_return = p.m_id_data_return) :
      storedCount q id = storedCount p id := by
    rw [storedCount,storedCount,replies]
  cases moved with
  | issues at_point drawn =>
    obtain ⟨_,_,kept⟩ := newCallId_result drawn
    refine Nat.add_le_add_left (Nat.le_of_eq (same ?_)) _
    rw [kept]
  | @takesResponse q buffer begins found =>
    have stored : storedCount q frame.id = 1 := by simp [storedCount,found]
    have before := same (begins_replies begins)
    by_cases own : id = frame.id
    · subst own
      have after : storedCount (q.eraseReply frame.id) frame.id = 0 := by simp [storedCount]
      simp only [List.filterMap_cons,tookId,List.filterMap_nil,List.count_singleton_self,after]
      omega
    · have after : storedCount (q.eraseReply frame.id) id = storedCount q id := by
        simp [storedCount,PendingResponces.eraseReply,Function.update_of_ne own]
      have other : ([frame.id] : List CallId).count id = 0 := List.count_eq_zero.mpr (by simpa using own)
      simp only [List.filterMap_cons,tookId,List.filterMap_nil,other,after]
      omega
  | takesCall begins => exact Nat.add_le_add_left (Nat.le_of_eq (same (begins_replies begins))) _
  | waits begins => exact Nat.add_le_add_left (Nat.le_of_eq (same (begins_replies begins))) _
  | busy begins => exact Nat.add_le_add_left (Nat.le_of_eq (same (begins_replies begins))) _
  | locks begins => exact Nat.add_le_add_left (Nat.le_of_eq (same (begins_replies begins))) _
  | enters at_point => simpa [List.filterMap_cons,tookId,enteredPacket] using store_count p _ _ id
  | entersLast at_point =>
    simpa [List.filterMap_cons,tookId,enteredPacket,Activation.leave] using store_count p _ _ id
  | _ => exact Nat.le_refl _

/-- What is read is what the action says. -/
theorem moves_answers (moved : Moves call_info t p frame move out) :
    replyIds (out.events.filterMap receivedPacket) = answerIds (.move move : Action κ) := by
  cases moved <;> rfl

omit [DecidableEq Tid] in
theorem awaitedId_at {next : Point} (same : awaitsAt frame.id next = awaitsAt frame.id frame.point) :
    awaitedId (frame.at next) = awaitedId frame := by
  simp only [awaitedId,Activation.at,same]

theorem begins_awaits {q : PendingResponces Tid} (begins : Begins t p frame q) : awaitsAt frame.id frame.point = true := by
  rcases begins_point begins with at_point | at_point <;> rw [at_point] <;> rfl

/-- A wait that was written goes on, gets a response or is abandoned. -/
theorem moves_awaited (moved : Moves call_info t p frame move out) (id : CallId) :
    (out.events.filterMap wroteWaiter).count id + (awaitedIds [frame]).count id ≤
      (awaitedIds out.frames).count id + (out.events.filterMap tookId).count id + (abandonedIds out.events).count id := by
  have on (next : Point) (same : awaitsAt frame.id next = awaitsAt frame.id frame.point) :
      awaitedIds [frame.at next] = awaitedIds [frame] := by
    simp only [awaitedIds,List.filterMap_cons,awaitedId_at same]
  have ended (done : awaitsAt frame.id frame.point = false) : awaitedIds [frame] = [] := by
    simp [awaitedIds,awaitedId,done]
  have leaves (exit : Exit) (result : DataStream) (early : exit ≠ .response) :
      (awaitedIds [frame]).count id ≤ (abandonedIds (frame.leave exit result)).count id := by
    by_cases waiter : hasWaiter frame.operation = true
    · by_cases awaits : awaitsAt frame.id frame.point = true
      · simp [awaitedIds,awaitedId,awaits,waiter,Activation.leave,abandonedIds,early]
      · simp [awaitedIds,awaitedId,awaits]
    · simp [awaitedIds,awaitedId,waiter]
  cases moved with
  | issues at_point => rw [ended (by rw [at_point]; rfl)]; exact Nat.zero_le _
  | unsent at_point => rw [ended (by rw [at_point]; rfl)]; exact Nat.zero_le _
  | sends at_point written waits =>
    rw [ended (by rw [at_point]; rfl)]
    cases waiter : hasWaiter frame.operation <;>
      simp [awaitedIds,awaitedId,Activation.at,awaitsAt,wroteWaiter,tookId,abandonedIds,List.filterMap_cons,waiter]
  | sendsOnly at_point written unwaited =>
    have asynchronous : hasWaiter frame.operation = false := by
      cases operation : frame.operation <;> first | rfl | (rw [operation] at unwaited; cases unwaited)
    rw [ended (by rw [at_point]; rfl)]
    simp [wroteWaiter,List.filterMap_cons,asynchronous]
  | reenters at_point =>
    have early := leaves .reentrance {} (by decide)
    simpa [Activation.leave,List.filterMap_cons,wroteWaiter] using Nat.le_trans early (Nat.le_add_left _ _)
  | takesResponse begins found =>
    have once : (awaitedIds [frame]).count id ≤ ([frame.id] : List CallId).count id := by
      by_cases waiter : hasWaiter frame.operation = true
      · simp [awaitedIds,awaitedId,begins_awaits begins,waiter]
      · simp [awaitedIds,awaitedId,waiter]
    simpa [List.filterMap_cons,wroteWaiter,tookId,abandonedIds] using Nat.le_trans once (Nat.le_add_left _ _)
  | @takesCall q buffer rest begins absent allowed first =>
    have call : Incoming buffer := q.calls (first ▸ List.mem_cons_self)
    have unprecessed := call_not_precessed (fun reply => reply.not_incoming call) frame.id
    have awaits : awaitsAt frame.id (.handling buffer) = awaitsAt frame.id frame.point := by
      rw [begins_awaits begins,awaitsAt,unprecessed]
      rfl
    simp [on _ awaits,List.filterMap_cons,wroteWaiter,tookId,abandonedIds]
  | waits begins =>
    rw [on .waiting (show true = _ from (begins_awaits begins).symm)]
    exact Nat.le_of_eq (Nat.zero_add _)
  | busy begins =>
    have early := leaves .busy {} (by decide)
    simpa [Activation.leave,List.filterMap_cons,wroteWaiter,tookId] using early
  | locks begins =>
    rw [on .reading (show true = _ from (begins_awaits begins).symm)]
    exact Nat.le_of_eq (Nat.zero_add _)
  | passes at_point =>
    rw [on _ (by rw [at_point]; rfl)]
    exact Nat.le_of_eq (Nat.zero_add _)
  | answers at_point =>
    rw [ended (by rw [at_point]; rfl)]
    exact Nat.zero_le _
  | continues at_point =>
    rw [on _ (by rw [at_point]; rfl)]
    exact Nat.le_of_eq (Nat.zero_add _)
  | receives at_point =>
    rw [on _ (by rw [at_point]; rfl)]
    exact Nat.le_of_eq (Nat.zero_add _)
  | receivesNothing at_point =>
    rw [on _ (by rw [at_point]; rfl)]
    exact Nat.le_of_eq (Nat.zero_add _)
  | enters at_point =>
    rw [on _ (by rw [at_point]; rfl)]
    exact Nat.le_of_eq (Nat.zero_add _)
  | @entersLast transport_ok buffer exit at_point reason =>
    have early := leaves exit {} (by rcases reason with ⟨_,rfl⟩ | ⟨_,rfl⟩ <;> decide)
    simpa [Activation.leave,List.filterMap_cons,wroteWaiter,tookId,abandonedIds] using early

end activation

/-! ### Every run -/

variable [DecidableEq Tid]

/-- What was written, answered, stored, taken and abandoned adds up. -/
structure Balanced (w : Peered Tid κ) : Prop where
  owned : Owned w.endpoint
  kept : Kept w.endpoint
  taken : ∀ id, (picked tookId w.endpoint.events).count id + storedCount w.endpoint.pending id ≤
    (replyIds (picked enteredPacket w.endpoint.events)).count id
  due : ∀ id, (replyIds (picked receivedPacket w.endpoint.events)).count id + w.unanswered.count id =
    (picked wroteWaiter w.endpoint.events).count id
  waits : ∀ t id, (said wroteWaiter w.endpoint.events).count (t,id) ≤
    (awaitedIds (w.endpoint.threads t)).count id + (said tookId w.endpoint.events ++ w.abandoned).count (t,id)

theorem count_labeled (t u : Tid) (ids : List CallId) (id : CallId) :
    (ids.map (t,·)).count (u,id) = if u = t then ids.count id else 0 := by
  by_cases same : u = t
  · subst same
    rw [if_pos rfl]
    exact List.count_map_of_injective ids _ (fun a b equal => (Prod.mk.inj equal).2) id
  · rw [if_neg same,List.count_eq_zero]
    intro member
    obtain ⟨_,_,equal⟩ := List.mem_map.mp member
    exact same (Prod.mk.inj equal).1.symm

theorem answerIds_count {ids : List CallId} {action : Action κ} (answers : ∀ id ∈ answerIds action, id ∈ ids) (id : CallId) :
    (answerIds action).count id ≤ ids.count id := by
  have few : (answerIds action).length ≤ 1 := by
    unfold answerIds
    split
    · rw [replyIds,List.length_map]
      exact List.length_filter_le _ _
    · exact Nat.zero_le 1
  by_cases member : id ∈ answerIds action
  · exact Nat.le_trans (Nat.le_trans List.count_le_length few) (List.count_pos_iff.mpr (answers id member))
  · rw [List.count_eq_zero.mpr member]
    exact Nat.zero_le _

theorem start_balanced {w : Peered Tid κ} (balanced : Balanced w) {t : Tid} (free : ready (w.endpoint.threads t) = true)
    (operation : Operation κ) :
    Balanced { w with endpoint := { w.endpoint with
      threads := Function.update w.endpoint.threads t (enter operation :: w.endpoint.threads t) } } := by
  refine ⟨start_owned balanced.owned free operation,start_kept balanced.kept free operation,balanced.taken,balanced.due,?_⟩
  intro u id
  refine Nat.le_trans (balanced.waits u id) (Nat.add_le_add_right ?_ _)
  dsimp only
  by_cases same : u = t
  · subst same
    rw [Function.update_self]
    exact (List.sublist_cons_self _ _).filterMap _ |>.count_le id
  · rw [Function.update_of_ne same]

theorem moves_balanced {call_info : CallInfo κ} {w : Peered Tid κ} (balanced : Balanced w) {t : Tid} {frame : Activation κ}
    {below : List (Activation κ)} {move : Move} {out : Advance Tid κ} (running : w.endpoint.threads t = frame :: below)
    (answers : ∀ id ∈ answerIds (.move move : Action κ), id ∈ w.unanswered)
    (moved : Moves call_info t w.endpoint.pending frame move out) :
    Balanced {
      endpoint := { pending := out.pending
                    threads := Function.update w.endpoint.threads t (out.frames ++ below)
                    events := w.endpoint.events ++ out.events.map (t,·) }
      unanswered := w.unanswered.diff (answerIds (.move move : Action κ)) ++ out.events.filterMap wroteWaiter
      abandoned := w.abandoned ++ (abandonedIds out.events).map (t,·) } := by
  refine ⟨moves_owned balanced.owned running moved,moves_kept balanced.owned balanced.kept running moved,?_,?_,?_⟩
  · intro id
    have before := balanced.taken id
    have step := moves_stored moved id
    simp only [picked_append,List.count_append,replyIds_append]
    omega
  · intro id
    have before := balanced.due id
    have enough := answerIds_count answers id
    simp only [picked_append,List.count_append,replyIds_append,moves_answers moved,List.count_diff]
    omega
  · intro u id
    have before := balanced.waits u id
    simp only [said_append,List.count_append,count_labeled] at before ⊢
    by_cases same : u = t
    · subst same
      have step := moves_awaited moved id
      have parts (above : List (Activation κ)) : (awaitedIds (above ++ below)).count id =
          (awaitedIds above).count id + (awaitedIds below).count id := by
        rw [awaitedIds,List.filterMap_append,List.count_append]
        rfl
      have old := parts [frame]
      rw [List.singleton_append,← running] at old
      rw [Function.update_self,parts]
      simp only [if_true]
      omega
    · rw [Function.update_of_ne same]
      simp only [if_neg same]
      omega

theorem step_balanced {call_info : CallInfo κ} {w w' : Peered Tid κ} {action : Tid × Action κ} (balanced : Balanced w)
    (stepped : step call_info w action = some w') : Balanced w' := by
  unfold step at stepped
  split at stepped
  · rename_i answers
    obtain ⟨endpoint,went,rfl⟩ := Option.map_eq_some_iff.mp stepped
    cases step_steps went with
    | @starts t operation free =>
      have quiet : (w.endpoint.events.drop w.endpoint.events.length).map Prod.snd = [] := by simp
      simpa [quiet,answerIds,abandonedIds] using start_balanced balanced free operation
    | @moves t move frame below out running moved =>
      have happened : ((w.endpoint.events ++ out.events.map (t,·)).drop w.endpoint.events.length).map Prod.snd = out.events := by
        simp
      simpa only [happened] using moves_balanced balanced running answers moved
  · cases stepped

theorem empty_balanced : Balanced ({} : Peered Tid κ) where
  owned := empty_owned
  kept := empty_kept
  taken _ := Nat.le_refl 0
  due _ := rfl
  waits _ _ := Nat.le_refl 0

/-- A response that is stored is awaited, or its wait was abandoned. -/
theorem Balanced.stored {w : Peered Tid κ} (balanced : Balanced w) {id : CallId}
    (stored : w.endpoint.pending.m_id_data_return id ≠ none) :
    (∃ t, id ∈ awaitedIds (w.endpoint.threads t)) ∨ ∃ t, (t,id) ∈ w.abandoned := by
  refine Classical.byContradiction fun neither => ?_
  obtain ⟨unawaited,kept⟩ := not_or.mp neither
  have taken := balanced.taken id
  have due := balanced.due id
  have one : storedCount w.endpoint.pending id = 1 := by
    rw [storedCount,if_pos (Option.isSome_iff_ne_none.mpr stored)]
  have served : (picked wroteWaiter w.endpoint.events).count id ≤ (picked tookId w.endpoint.events).count id := by
    rw [← said_picked,← said_picked]
    refine count_said_le fun t => ?_
    have waits := balanced.waits t id
    have awaited : (awaitedIds (w.endpoint.threads t)).count id = 0 :=
      List.count_eq_zero.mpr fun member => unawaited ⟨t,member⟩
    have abandoned : w.abandoned.count (t,id) = 0 := List.count_eq_zero.mpr fun member => kept ⟨t,member⟩
    rw [List.count_append] at waits
    omega
  rw [balanced.kept.hands,replyIds_append,List.count_append] at due
  omega

omit [DecidableEq Tid] in
theorem awaited_waiter {stack : List (Activation κ)} {id : CallId} (awaited : id ∈ awaitedIds stack) : id ∈ waiterIds stack := by
  obtain ⟨frame,member,some_id⟩ := List.mem_filterMap.mp awaited
  refine List.mem_filterMap.mpr ⟨frame,member,?_⟩
  unfold awaitedId at some_id
  split at some_id
  · rename_i awaits
    unfold waiterId
    split
    · rename_i at_point
      rw [at_point] at awaits
      cases awaits.1
    · rwa [if_pos awaits.2]
  · cases some_id

/-- In every state that is reached with a peer that answers every waiting call
    once, each response that is stored is that of a call that was issued and
    did not return, or of a wait that returned early. As long as no wait did,
    nothing is stored when no call waits. -/
theorem stored_awaited (call_info : CallInfo κ) (actions : List (Tid × Action κ)) :
    (∀ id, (run (step call_info) {} actions).endpoint.pending.m_id_data_return id ≠ none →
      (∃ t, id ∈ waiterIds ((run (step call_info) {} actions).endpoint.threads t)) ∨
        ∃ t, (t,id) ∈ (run (step call_info) {} actions).abandoned) ∧
    ((run (step call_info) {} actions).abandoned = [] →
      (∀ t, waiterIds ((run (step call_info) {} actions).endpoint.threads t) = []) →
      ∀ id, (run (step call_info) {} actions).endpoint.pending.m_id_data_return id = none) := by
  have preserves : Preserves (step call_info) fun w : Peered Tid κ => Balanced w :=
    fun w action w' balanced stepped => step_balanced balanced stepped
  have balanced := preserves.run (empty_balanced : Balanced ({} : Peered Tid κ)) actions
  generalize run (step call_info) {} actions = w at balanced
  have found (id : CallId) (stored : w.endpoint.pending.m_id_data_return id ≠ none) :
      (∃ t, id ∈ waiterIds (w.endpoint.threads t)) ∨ ∃ t, (t,id) ∈ w.abandoned := by
    rcases balanced.stored stored with ⟨t,awaited⟩ | early
    · exact .inl ⟨t,awaited_waiter awaited⟩
    · exact .inr early
  refine ⟨found,?_⟩
  intro none_early none_waits id
  refine Decidable.byContradiction fun stored => ?_
  rcases found id stored with ⟨t,waits⟩ | ⟨t,early⟩
  · rw [none_waits t] at waits
    cases waits
  · rw [none_early] at early
    cases early

/-! ### A wait that is abandoned -/

/-- A state of an endpoint with one thread. -/
def single (pending : PendingResponces Unit) (frames : List (Activation Unit)) (events : List (Event Unit))
    (unanswered abandoned : List CallId) : Peered Unit Unit where
  endpoint := { pending, threads := Function.update (fun _ => []) () frames, events := events.map ((),·) }
  unanswered := unanswered
  abandoned := abandoned.map ((),·)

/-- A step of the activation of the thread. -/
theorem single_moves {pending p : PendingResponces Unit} {frame : Activation Unit} {frames : List (Activation Unit)}
    {events happened : List (Event Unit)} {unanswered abandoned asks early : List CallId} {move : Move}
    (moved : advance header () pending frame move = some ⟨p,frames,happened⟩)
    (answers : ∀ id ∈ answerIds (.move move : Action Unit), id ∈ unanswered)
    (due : unanswered.diff (answerIds (.move move : Action Unit)) ++ happened.filterMap wroteWaiter = asks)
    (left : abandoned ++ abandonedIds happened = early) (rest : List (Unit × Action Unit)) :
    run (step header) (single pending [frame] events unanswered abandoned) (((),.move move) :: rest) =
      run (step header) (single p frames (events ++ happened) asks early) rest := by
  subst due left
  have stepped : step header (single pending [frame] events unanswered abandoned) ((),.move move) =
      some (single p frames (events ++ happened)
        (unanswered.diff (answerIds (.move move : Action Unit)) ++ happened.filterMap wroteWaiter)
        (abandoned ++ abandonedIds happened)) := by
    have allowed : ∀ id ∈ answerIds (((),.move move) : Unit × Action Unit).2,
        id ∈ (single pending [frame] events unanswered abandoned).unanswered := answers
    rw [step,if_pos allowed]
    simp [single,Endpoints.step,moved]
  rw [run,stepped,Option.getD_some]

theorem single_starts {pending : PendingResponces Unit} {events : List (Event Unit)} {unanswered abandoned : List CallId}
    (operation : Operation Unit) (rest : List (Unit × Action Unit)) :
    run (step header) (single pending [] events unanswered abandoned) (((),.start operation) :: rest) =
      run (step header) (single pending [enter operation] events unanswered abandoned) rest := by
  have stepped : step header (single pending [] events unanswered abandoned) ((),.start operation) =
      some (single pending [enter operation] events unanswered abandoned) := by
    simp [step,answerIds,single,Endpoints.step,ready,abandonedIds]
  rw [run,stepped,Option.getD_some]

/-- The response of a call without a result. -/
def lateResponse : Data := ⟨encodeHeader 0 pt_return 1,by decide⟩
/-- A wait fails, and its response comes in later. -/
def failedWait : List (Unit × Action Unit) :=
  [((),.start (.waitInvoke () false)),((),.move .proceed),((),.move (.write none true)),((),.move .proceed),
    ((),.move (.read false none 0)),((),.move .proceed),((),.start .processTransport),((),.move .proceed),
    ((),.move (.read true (some lateResponse) 0)),((),.move .proceed)]

/-- A reply that `ProcessTransport` read is stored, and no call waits for it. -/
theorem late_enters (pending : PendingResponces Unit) {buffer : CallDataBuffer} (reply : Reply buffer) :
    ∃ p frames happened,
      Activation.writeBuffer { operation := .processTransport, point := .writeBuffer true buffer } pending true buffer =
          (⟨p,frames,happened⟩ : Advance Unit Unit) ∧
        p.m_id_data_return buffer.header.id ≠ none ∧ waiterIds frames = [] ∧ happened.filterMap wroteWaiter = [] ∧
        abandonedIds happened = [] := by
  have stored : (Pending.writeBuffer pending true buffer).1.m_id_data_return buffer.header.id ≠ none := by
    rw [writeBuffer_replies]
    by_cases absent : pending.m_id_data_return buffer.header.id = none
    · simp [reply,absent]
    · simp [absent]
  unfold Activation.writeBuffer
  dsimp only
  rw [if_neg (show ¬ true = false by decide)]
  split
  · exact ⟨_,_,_,rfl,stored,rfl,rfl,rfl⟩
  · exact ⟨_,_,_,rfl,stored,rfl,rfl,rfl⟩

theorem failedWait_ends :
    ∃ pending frames events, run (step header) {} failedWait = single pending frames events [] [1] ∧
      waiterIds frames = [] ∧ pending.m_id_data_return 1 ≠ none := by
  have empty : ({} : Peered Unit Unit) = single {} [] [] [] [] := by simp [single]
  have free : ({} : PendingResponces Unit).m_id_data_return ({} : PendingResponces Unit).nextId = none := rfl
  have drawn := newCallId_next free
  have response : (receiveCallDataBuffer 0 lateResponse).header = { size := 0, type := pt_return, id := 1 } :=
    (receiveCallDataBuffer_reads 0 (List.append_nil (encodeHeader 0 pt_return 1)).symm).1
  generalize received : receiveCallDataBuffer 0 lateResponse = buffer at response
  have reply : Reply buffer := by
    rw [Reply,response]
    decide
  have answers : answerIds (.move (.read true (some lateResponse) 0) : Action Unit) = [1] := by
    rw [answerIds,received,replyIds_reply reply,response]
  have issues : advance header () ({} : PendingResponces Unit) (enter (.waitInvoke () false)) .proceed =
      some ⟨{ m_incremental_id := 2 },[{ operation := .waitInvoke () false, id := 1, point := .writing }],
        [.issued (.waitInvoke () false) 1]⟩ := by
    simp only [enter,advance,drawn,Option.map_some]
    rfl
  have writes : advance header () ({ m_incremental_id := 2 } : PendingResponces Unit)
      { operation := .waitInvoke () false, id := 1, point := .writing } (.write none true) =
      some ⟨{ m_incremental_id := 2 },[{ operation := .waitInvoke () false, id := 1, point := .readBuffer }],
        [.wrote (.waitInvoke () false) 1 ⟨List.replicate 12 0,by decide⟩]⟩ := rfl
  have locks : advance header () ({ m_incremental_id := 2 } : PendingResponces Unit)
      { operation := .waitInvoke () false, id := 1, point := .readBuffer } .proceed =
      some ⟨{ m_incremental_id := 2, m_thread_waiting_transport := { m_locked_id := some () } },
        [{ operation := .waitInvoke () false, id := 1, point := .reading }],[]⟩ := rfl
  have fails : advance header () ({ m_incremental_id := 2, m_thread_waiting_transport := { m_locked_id := some () } } :
      PendingResponces Unit) { operation := .waitInvoke () false, id := 1, point := .reading } (.read false none 0) =
      some ⟨{ m_incremental_id := 2, m_thread_waiting_transport := { m_locked_id := some () } },
        [{ operation := .waitInvoke () false, id := 1, point := .writeBuffer false {} }],[.received {}]⟩ := rfl
  have leaves : advance header () ({ m_incremental_id := 2, m_thread_waiting_transport := { m_locked_id := some () } } :
      PendingResponces Unit) { operation := .waitInvoke () false, id := 1, point := .writeBuffer false {} } .proceed =
      some ⟨{ m_incremental_id := 2 },[],
        [.entered {},.left .transportFailed,.returned (.waitInvoke () false) 1 {}]⟩ := rfl
  have relocks : advance header () ({ m_incremental_id := 2 } : PendingResponces Unit) (enter .processTransport) .proceed =
      some ⟨{ m_incremental_id := 2, m_thread_waiting_transport := { m_locked_id := some () } },
        [{ operation := .processTransport, point := .reading }],[]⟩ := rfl
  have receives : advance header () ({ m_incremental_id := 2, m_thread_waiting_transport := { m_locked_id := some () } } :
      PendingResponces Unit) { operation := .processTransport, point := .reading } (.read true (some lateResponse) 0) =
      some ⟨{ m_incremental_id := 2, m_thread_waiting_transport := { m_locked_id := some () } },
        [{ operation := .processTransport, point := .writeBuffer true buffer }],[.received buffer]⟩ := by
    simp only [advance,received]
    rfl
  obtain ⟨p,frames,happened,last,stored,none_waits,unwritten,kept⟩ :=
    late_enters { m_incremental_id := 2, m_thread_waiting_transport := { m_locked_id := some () } } reply
  rw [response] at stored
  have enters : advance header () ({ m_incremental_id := 2, m_thread_waiting_transport := { m_locked_id := some () } } :
      PendingResponces Unit) { operation := .processTransport, point := .writeBuffer true buffer } .proceed =
      some ⟨p,frames,happened⟩ := congrArg some last
  have quiet (move : Move) (silent : answerIds (.move move : Action Unit) = []) (ids : List CallId) :
      ∀ id ∈ answerIds (.move move : Action Unit), id ∈ ids := by
    rw [silent]
    intro _ member
    cases member
  rw [empty,failedWait,single_starts,single_moves issues (quiet _ rfl _) rfl rfl,
    single_moves writes (quiet _ rfl _) rfl rfl,single_moves locks (quiet _ rfl _) rfl rfl,
    single_moves fails (quiet _ rfl _) rfl rfl,single_moves leaves (quiet _ rfl _) rfl rfl,single_starts,
    single_moves relocks (quiet _ rfl _) rfl rfl,
    single_moves receives (fun id member => by rwa [answers] at member) (by rw [answers]) rfl]
  have asks : ([] : List CallId).diff (answerIds (.move .proceed : Action Unit)) ++ happened.filterMap wroteWaiter = [] := by
    rw [unwritten]
    rfl
  have early : [1] ++ abandonedIds happened = [1] := by rw [kept]; rfl
  exact ⟨p,frames,_,single_moves enters (quiet _ rfl _) asks early [],none_waits,stored⟩

/-- The response of the abandoned wait stays, and no call waits. -/
theorem stored_abandoned :
    ¬ ∀ (actions : List (Unit × Action Unit)) (id : CallId),
      (run (step header) ({} : Peered Unit Unit) actions).endpoint.pending.m_id_data_return id ≠ none →
        ∃ t, id ∈ waiterIds ((run (step header) ({} : Peered Unit Unit) actions).endpoint.threads t) := by
  intro awaited
  obtain ⟨pending,frames,events,ended,none_waits,stored⟩ := failedWait_ends
  obtain ⟨t,waits⟩ := awaited failedWait 1 (by rw [ended]; exact stored)
  rw [ended] at waits
  simp only [single,Function.update_self,none_waits] at waits
  cases waits

end IpcPortable.Abandoned
