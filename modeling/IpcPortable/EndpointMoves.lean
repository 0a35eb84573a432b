import IpcPortable.Endpoints

/-!
Every way a step of an activation can go, with what it found and what it
leaves. Invariants of the endpoint are proved along these cases.
-/
namespace IpcPortable.EndpointMoves
open IpcPortable.DataStream IpcPortable.Packets IpcPortable.Pending IpcPortable.Endpoints
variable {Tid κ : Type} [DecidableEq Tid]

/-- A round of the ReadBuffer section begins: when the section is entered by a
    thread that does not have the transport, or behind a wait. -/
inductive Begins (t : Tid) (p : PendingResponces Tid) (frame : Activation κ) : PendingResponces Tid → Prop
  | fresh (at_point : frame.point = .readBuffer) (elsewhere : p.m_thread_waiting_transport.m_locked_id ≠ some t) :
    Begins t p frame p
  | woken (at_point : frame.point = .waiting) : Begins t p frame (p.wake t)

/-- Every way a step of an activation can go. -/
inductive Moves (call_info : CallInfo κ) (t : Tid) (p : PendingResponces Tid) (frame : Activation κ) :
    Move → Advance Tid κ → Prop
  | issues {id : CallId} {p' : PendingResponces Tid} (at_point : frame.point = .newCallId)
    (drawn : newCallId p = some (id,p')) :
    Moves call_info t p frame .proceed
      ⟨p',[{ frame with id, point := .writing }],[.issued frame.operation id]⟩
  | unsent {created : Option TransportShare} {alive : Bool} (at_point : frame.point = .writing)
    (failed : alive = false ∨ (frame.operation.stream call_info created frame.id).m_write = none) :
    Moves call_info t p frame (.write created alive) ⟨p,[],[.returned frame.operation frame.id {}]⟩
  | sends {created : Option TransportShare} {alive : Bool} {packet : Data} (at_point : frame.point = .writing)
    (written : (frame.operation.stream call_info created frame.id).m_write = some packet)
    (waits : frame.operation.waitsReturn = true) :
    Moves call_info t p frame (.write created alive)
      ⟨p,[frame.at .readBuffer],[.wrote frame.operation frame.id packet]⟩
  | sendsOnly {created : Option TransportShare} {alive : Bool} {packet : Data} (at_point : frame.point = .writing)
    (written : (frame.operation.stream call_info created frame.id).m_write = some packet)
    (leaves : frame.operation.waitsReturn = false) :
    Moves call_info t p frame (.write created alive)
      ⟨p,[],[.wrote frame.operation frame.id packet,.returned frame.operation frame.id {}]⟩
  | reenters (at_point : frame.point = .readBuffer) (current : p.m_thread_waiting_transport.m_locked_id = some t) :
    Moves call_info t p frame .proceed ⟨p,[],frame.leave .reentrance {}⟩
  | takesResponse {q : PendingResponces Tid} {buffer : CallDataBuffer} (begins : Begins t p frame q)
    (found : q.m_id_data_return frame.id = some buffer) :
    Moves call_info t p frame .proceed
      ⟨q.eraseReply frame.id,[frame.at (.handling buffer)],[.tookResponse frame.id buffer]⟩
  | takesCall {q : PendingResponces Tid} {buffer : CallDataBuffer} {rest : List CallDataBuffer}
    (begins : Begins t p frame q) (absent : q.m_id_data_return frame.id = none)
    (allowed : frame.operation.processIncomingCalls = true) (first : q.m_data_incoming_call = buffer :: rest) :
    Moves call_info t p frame .proceed ⟨q.popCall,[frame.at (.handling buffer)],[.tookCall buffer]⟩
  | waits {q : PendingResponces Tid} (begins : Begins t p frame q) (absent : q.m_id_data_return frame.id = none)
    (empty : frame.operation.processIncomingCalls = true → q.m_data_incoming_call = [])
    (locked : q.m_thread_waiting_transport.m_locked_id ≠ none) (waiting : frame.id ≠ c_invalid_id) :
    Moves call_info t p frame .proceed ⟨q.wait t,[frame.at .waiting],[]⟩
  | busy {q : PendingResponces Tid} (begins : Begins t p frame q)
    (locked : q.m_thread_waiting_transport.m_locked_id ≠ none) (polling : frame.id = c_invalid_id) :
    Moves call_info t p frame .proceed ⟨q,[],frame.leave .busy {}⟩
  | locks {q : PendingResponces Tid} (begins : Begins t p frame q)
    (unlocked : q.m_thread_waiting_transport.m_locked_id = none) :
    Moves call_info t p frame .proceed
      ⟨{ q with m_thread_waiting_transport := { m_locked_id := some t } },[frame.at .reading],[]⟩
  | passes {buffer : CallDataBuffer} (at_point : frame.point = .handling buffer) :
    Moves call_info t p frame .proceed
      ⟨p,[frame.at (.processing (responsePrecessed buffer frame.id) (processBufferResult buffer))],[.passed buffer]⟩
  | answers {result : DataStream} (at_point : frame.point = .processing true result) :
    Moves call_info t p frame .proceed ⟨p,[],frame.leave .response result⟩
  | continues {result : DataStream} (at_point : frame.point = .processing false result) :
    Moves call_info t p frame .proceed ⟨p,[frame.at .readBuffer],[]⟩
  | receives {transport_ok : Bool} {packet : Data} {type_raw : BitVec 32} (at_point : frame.point = .reading) :
    Moves call_info t p frame (.read transport_ok (some packet) type_raw)
      ⟨p,[frame.at (.writeBuffer transport_ok (receiveCallDataBuffer type_raw packet))],
        [.received (receiveCallDataBuffer type_raw packet)]⟩
  | receivesNothing {transport_ok : Bool} {type_raw : BitVec 32} (at_point : frame.point = .reading) :
    Moves call_info t p frame (.read transport_ok none type_raw)
      ⟨p,[frame.at (.writeBuffer transport_ok {})],[.received {}]⟩
  | enters {transport_ok : Bool} {buffer : CallDataBuffer} (at_point : frame.point = .writeBuffer transport_ok buffer) :
    Moves call_info t p frame .proceed
      ⟨(Pending.writeBuffer p frame.operation.processIncomingCalls buffer).1,[frame.at .readBuffer],[.entered buffer]⟩
  | entersLast {transport_ok : Bool} {buffer : CallDataBuffer} {exit : Exit}
    (at_point : frame.point = .writeBuffer transport_ok buffer)
    (reason : transport_ok = false ∧ exit = .transportFailed ∨ frame.id = c_invalid_id ∧ exit = .drained) :
    Moves call_info t p frame .proceed
      ⟨(Pending.writeBuffer p frame.operation.processIncomingCalls buffer).1,[],.entered buffer :: frame.leave exit {}⟩

theorem branch_defined (frame : Activation κ) {buffer : CallDataBuffer} (defined : buffer.header.type ≠ pt_undefined) :
    frame.branch buffer = frame.at (.handling buffer) := by
  rw [Activation.branch,if_pos defined]

theorem branch_default (frame : Activation κ) : frame.branch {} = frame.at .reading := rfl

omit [DecidableEq Tid] in
/-- A stored reply is taken at once. -/
theorem round_response {q : PendingResponces Tid} {frame : Activation κ} {buffer : CallDataBuffer}
    (stored : q.m_id_data_return frame.id = some buffer) (t : Tid) :
    frame.round q t =
      ⟨q.eraseReply frame.id,[frame.at (.handling buffer)],[.tookResponse frame.id buffer]⟩ := by
  have taken : readBuffer q t frame.id frame.operation.processIncomingCalls =
      (q.eraseReply frame.id,.response buffer) := by
    simp only [readBuffer,stored]
  unfold Activation.round
  rw [taken]
  dsimp only [Round.buffer]
  rw [branch_defined frame (q.replies stored).1.defined]

theorem round_moves (call_info : CallInfo κ) {t : Tid} {p q : PendingResponces Tid} {frame : Activation κ}
    (begins : Begins t p frame q) : Moves call_info t p frame .proceed (frame.round q t) := by
  have ends := readBuffer_ends q t frame.id frame.operation.processIncomingCalls
  unfold Activation.round
  revert ends
  generalize readBuffer q t frame.id frame.operation.processIncomingCalls = section_end
  obtain ⟨p',round⟩ := section_end
  intro ends
  cases ends with
  | response found =>
    simp only [Round.buffer,branch_defined frame (q.replies found).1.defined]
    exact .takesResponse begins found
  | call absent allowed first =>
    simp only [Round.buffer,branch_defined frame (q.calls (first ▸ List.mem_cons_self)).defined]
    exact .takesCall begins absent allowed first
  | waits absent empty locked waiting => exact .waits begins absent empty locked waiting
  | busy _ _ locked polling => exact .busy begins locked polling
  | transport _ _ unlocked => simpa [Round.buffer,branch_default] using Moves.locks begins unlocked

theorem writeBuffer_moves (call_info : CallInfo κ) {t : Tid} {p : PendingResponces Tid} {frame : Activation κ}
    {transport_ok : Bool} {buffer : CallDataBuffer} (at_point : frame.point = .writeBuffer transport_ok buffer) :
    Moves call_info t p frame .proceed (frame.writeBuffer p transport_ok buffer) := by
  unfold Activation.writeBuffer
  by_cases failed : transport_ok = false
  · simpa [failed] using Moves.entersLast at_point (.inl ⟨failed,rfl⟩)
  · by_cases drained : frame.id = c_invalid_id ∧
        (Pending.writeBuffer p frame.operation.processIncomingCalls buffer).2.1 = false ∧
        (Pending.writeBuffer p frame.operation.processIncomingCalls buffer).2.2 = false
    · simpa [failed,drained] using Moves.entersLast at_point (.inr ⟨drained.1,rfl⟩)
    · simpa [failed,drained] using Moves.enters at_point

theorem write_moves (call_info : CallInfo κ) {t : Tid} {p : PendingResponces Tid} {frame : Activation κ}
    (at_point : frame.point = .writing) (created : Option TransportShare) (alive : Bool) :
    Moves call_info t p frame (.write created alive) (frame.write call_info p created alive) := by
  unfold Activation.write
  cases alive with
  | false => exact .unsent at_point (.inl rfl)
  | true =>
    cases written : (frame.operation.stream call_info created frame.id).m_write with
    | none => exact .unsent at_point (.inr written)
    | some packet =>
      cases waits : frame.operation.waitsReturn with
      | true => exact .sends at_point written waits
      | false => exact .sendsOnly at_point written waits

/-- A step of an activation goes one of these ways. -/
theorem advance_moves {call_info : CallInfo κ} {t : Tid} {p : PendingResponces Tid} {frame : Activation κ} {move : Move}
    {out : Advance Tid κ} (stepped : advance call_info t p frame move = some out) :
    Moves call_info t p frame move out := by
  unfold advance at stepped
  split at stepped
  · rename_i at_point
    obtain ⟨⟨id,p'⟩,drawn,rfl⟩ := Option.map_eq_some_iff.mp stepped
    exact .issues at_point drawn
  · rename_i at_point
    cases stepped
    exact write_moves call_info at_point _ _
  · rename_i at_point
    by_cases current : p.m_thread_waiting_transport.m_locked_id = some t
    · simp only [LockCurrentThreadId.isCurrent,current,decide_true,if_true] at stepped
      cases stepped
      exact .reenters at_point current
    · simp only [LockCurrentThreadId.isCurrent,current,decide_false] at stepped
      cases stepped
      exact round_moves call_info (.fresh at_point current)
  · rename_i at_point
    cases stepped
    exact round_moves call_info (.woken at_point)
  · rename_i at_point
    cases stepped
    exact .passes at_point
  · rename_i response_precessed result at_point
    cases response_precessed with
    | true =>
      cases stepped
      exact .answers at_point
    | false =>
      cases stepped
      exact .continues at_point
  · rename_i packet _ at_point
    cases stepped
    cases packet with
    | some packet => exact .receives at_point
    | none => exact .receivesNothing at_point
  · rename_i at_point
    cases stepped
    exact writeBuffer_moves call_info at_point
  · cases stepped

theorem begins_point {t : Tid} {p q : PendingResponces Tid} {frame : Activation κ} (begins : Begins t p frame q) :
    frame.point = .readBuffer ∨ frame.point = .waiting := by
  cases begins with
  | fresh at_point => exact .inl at_point
  | woken at_point => exact .inr at_point
theorem begins_left {t : Tid} {p q : PendingResponces Tid} {frame : Activation κ} (begins : Begins t p frame q) :
    frame.point ≠ .newCallId := by
  rcases begins_point begins with at_point | at_point <;> rw [at_point] <;> exact Point.noConfusion

theorem begins_counter {t : Tid} {p q : PendingResponces Tid} {frame : Activation κ} (begins : Begins t p frame q) :
    q.m_incremental_id = p.m_incremental_id := by
  cases begins <;> rfl

/-- Only `NewCallId` changes the counter. -/
theorem moves_counter {call_info : CallInfo κ} {t : Tid} {p : PendingResponces Tid} {frame : Activation κ} {move : Move}
    {out : Advance Tid κ} (moved : Moves call_info t p frame move out) (left : frame.point ≠ .newCallId) :
    out.pending.m_incremental_id = p.m_incremental_id := by
  cases moved with
  | issues at_point => exact absurd at_point left
  | takesResponse begins => exact (begins_counter begins :)
  | takesCall begins => exact (begins_counter begins :)
  | waits begins => exact (begins_counter begins :)
  | busy begins => exact (begins_counter begins :)
  | locks begins => exact (begins_counter begins :)
  | enters => exact writeBuffer_counter _ _ frame.operation.processIncomingCalls
  | entersLast => exact writeBuffer_counter _ _ frame.operation.processIncomingCalls
  | _ => rfl

/-- A step draws the id of the activation, or leaves the operation and the id. -/
theorem moves_stays {call_info : CallInfo κ} {t : Tid} {p : PendingResponces Tid} {frame : Activation κ} {move : Move}
    {out : Advance Tid κ} (moved : Moves call_info t p frame move out) :
    (move = .proceed ∧ frame.point = .newCallId ∧ ∃ id p', newCallId p = some (id,p') ∧
      out.frames = [{ frame with id, point := .writing }]) ∨
    frame.point ≠ .newCallId ∧ (out.frames = [] ∨ ∃ point, point ≠ .newCallId ∧ out.frames = [frame.at point]) := by
  have passed {point : Point} (at_point : frame.point = point) (other : point ≠ .newCallId) : frame.point ≠ .newCallId :=
    at_point ▸ other
  cases moved with
  | issues at_point drawn => exact .inl ⟨rfl,at_point,_,_,drawn,rfl⟩
  | unsent at_point => exact .inr ⟨passed at_point Point.noConfusion,.inl rfl⟩
  | sends at_point => exact .inr ⟨passed at_point Point.noConfusion,.inr ⟨_,Point.noConfusion,rfl⟩⟩
  | sendsOnly at_point => exact .inr ⟨passed at_point Point.noConfusion,.inl rfl⟩
  | reenters at_point => exact .inr ⟨passed at_point Point.noConfusion,.inl rfl⟩
  | takesResponse begins => exact .inr ⟨begins_left begins,.inr ⟨_,Point.noConfusion,rfl⟩⟩
  | takesCall begins => exact .inr ⟨begins_left begins,.inr ⟨_,Point.noConfusion,rfl⟩⟩
  | waits begins => exact .inr ⟨begins_left begins,.inr ⟨_,Point.noConfusion,rfl⟩⟩
  | busy begins => exact .inr ⟨begins_left begins,.inl rfl⟩
  | locks begins => exact .inr ⟨begins_left begins,.inr ⟨_,Point.noConfusion,rfl⟩⟩
  | passes at_point => exact .inr ⟨passed at_point Point.noConfusion,.inr ⟨_,Point.noConfusion,rfl⟩⟩
  | answers at_point => exact .inr ⟨passed at_point Point.noConfusion,.inl rfl⟩
  | continues at_point => exact .inr ⟨passed at_point Point.noConfusion,.inr ⟨_,Point.noConfusion,rfl⟩⟩
  | receives at_point => exact .inr ⟨passed at_point Point.noConfusion,.inr ⟨_,Point.noConfusion,rfl⟩⟩
  | receivesNothing at_point => exact .inr ⟨passed at_point Point.noConfusion,.inr ⟨_,Point.noConfusion,rfl⟩⟩
  | enters at_point => exact .inr ⟨passed at_point Point.noConfusion,.inr ⟨_,Point.noConfusion,rfl⟩⟩
  | entersLast at_point => exact .inr ⟨passed at_point Point.noConfusion,.inl rfl⟩

/-- A step in front of `NewCallId` draws an id. -/
theorem moves_issues {call_info : CallInfo κ} {t : Tid} {p : PendingResponces Tid} {frame : Activation κ} {move : Move}
    {out : Advance Tid κ} (moved : Moves call_info t p frame move out) (at_point : frame.point = .newCallId) :
    move = .proceed ∧ ∃ id p', newCallId p = some (id,p') ∧
      out = ⟨p',[{ frame with id, point := .writing }],[.issued frame.operation id]⟩ := by
  have elsewhere {point : Point} (here : frame.point = point) (other : point ≠ .newCallId) : False :=
    other (here.symm.trans at_point)
  cases moved with
  | issues _ drawn => exact ⟨rfl,_,_,drawn,rfl⟩
  | unsent here => exact (elsewhere here Point.noConfusion).elim
  | sends here => exact (elsewhere here Point.noConfusion).elim
  | sendsOnly here => exact (elsewhere here Point.noConfusion).elim
  | reenters here => exact (elsewhere here Point.noConfusion).elim
  | takesResponse begins => exact absurd at_point (begins_left begins)
  | takesCall begins => exact absurd at_point (begins_left begins)
  | waits begins => exact absurd at_point (begins_left begins)
  | busy begins => exact absurd at_point (begins_left begins)
  | locks begins => exact absurd at_point (begins_left begins)
  | passes here => exact (elsewhere here Point.noConfusion).elim
  | answers here => exact (elsewhere here Point.noConfusion).elim
  | continues here => exact (elsewhere here Point.noConfusion).elim
  | receives here => exact (elsewhere here Point.noConfusion).elim
  | receivesNothing here => exact (elsewhere here Point.noConfusion).elim
  | enters here => exact (elsewhere here Point.noConfusion).elim
  | entersLast here => exact (elsewhere here Point.noConfusion).elim

/-- A step of the endpoint begins an operation, or is a step of the topmost
    activation of a thread. -/
inductive Steps (call_info : CallInfo κ) (s : Endpoint Tid κ) : Tid × Action κ → Endpoint Tid κ → Prop
  | starts {t : Tid} {operation : Operation κ} (free : ready (s.threads t) = true) :
    Steps call_info s (t,.start operation)
      { s with threads := Function.update s.threads t (enter operation :: s.threads t) }
  | moves {t : Tid} {move : Move} {frame : Activation κ} {below : List (Activation κ)} {out : Advance Tid κ}
    (running : s.threads t = frame :: below) (moved : Moves call_info t s.pending frame move out) :
    Steps call_info s (t,.move move)
      { pending := out.pending
        threads := Function.update s.threads t (out.frames ++ below)
        events := s.events ++ out.events.map (t,·) }

theorem step_steps {call_info : CallInfo κ} {s s' : Endpoint Tid κ} {action : Tid × Action κ}
    (stepped : step call_info s action = some s') : Steps call_info s action s' := by
  obtain ⟨t,action⟩ := action
  cases action with
  | start operation =>
    by_cases free : ready (s.threads t) = true
    · rw [step,if_pos free] at stepped
      cases stepped
      exact .starts free
    · rw [step,if_neg free] at stepped
      cases stepped
  | move move =>
    cases running : s.threads t with
    | nil => simp [step,running] at stepped
    | cons frame below =>
      simp only [step,running] at stepped
      obtain ⟨out,advanced,rfl⟩ := Option.map_eq_some_iff.mp stepped
      exact .moves running (advance_moves advanced)

end IpcPortable.EndpointMoves
