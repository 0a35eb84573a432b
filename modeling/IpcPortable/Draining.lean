import IpcPortable.CallQueue

/-!
One thread alone with a transport. Its call of the endpoint runs to its end:
`Read` answers the next pending packet, or none when the call does not wait, and
what `ProcessBuffer` calls returns without using the endpoint. `ProcessTransport`
takes in everything that is pending (`processTransport_drains`).
-/
namespace IpcPortable.Draining
set_option linter.unusedSectionVars false
open IpcPortable.DataStream IpcPortable.Packets IpcPortable.Pending IpcPortable.Endpoints IpcPortable.CallQueue
variable {Tid κ : Type} [DecidableEq Tid]

/-! ### The thread and its transport -/

/-- An endpoint, and the packets that its transport did not deliver yet, each with
    the variable that its receiver does not initialise. -/
structure Alone (Tid κ : Type) where
  endpoint : Endpoint Tid κ
  packets : List (Data × BitVec 32)
/-- The packets as they are received. -/
def received (packets : List (Data × BitVec 32)) : List CallDataBuffer :=
  packets.map fun packet => receiveCallDataBuffer packet.2 packet.1

/-- The next step of the thread; a `Read` that waits does not return without a packet. -/
def perform (call_info : CallInfo κ) (transport : TransportShare) (t : Tid) (w : Alone Tid κ) : Option (Alone Tid κ) :=
  match w.endpoint.threads t with
  | [] => none
  | frame :: _ =>
    match frame.point, w.packets with
    | .writing, packets =>
      (Endpoints.step call_info w.endpoint (t,.move (.write (some transport) true))).map fun endpoint => { endpoint, packets }
    | .reading, (packet,type_raw) :: packets =>
      (Endpoints.step call_info w.endpoint (t,.move (.read true (some packet) type_raw))).map fun endpoint => { endpoint, packets }
    | .reading, [] =>
      if frame.id = c_invalid_id then
        (Endpoints.step call_info w.endpoint (t,.move (.read true none 0))).map fun endpoint => { endpoint, packets := [] }
      else none
    | _, packets =>
      (Endpoints.step call_info w.endpoint (t,.move .proceed)).map fun endpoint => { endpoint, packets }
/-- The thread runs until its stack is as low as it was before the call. -/
def serve (call_info : CallInfo κ) (transport : TransportShare) (t : Tid) (height : Nat) : Nat → Alone Tid κ → Option (Alone Tid κ)
  | 0, _ => none
  | rounds + 1, w =>
    if (w.endpoint.threads t).length ≤ height then some w
    else (perform call_info transport t w).bind (serve call_info transport t height rounds)
/-- An operation is called, and runs to its end. -/
def callAlone (call_info : CallInfo κ) (transport : TransportShare) (t : Tid) (operation : Operation κ) (rounds : Nat)
    (w : Alone Tid κ) : Option (Alone Tid κ) :=
  (Endpoints.step call_info w.endpoint (t,.start operation)).bind fun endpoint =>
    serve call_info transport t (w.endpoint.threads t).length rounds { w with endpoint }

/-- The endpoint during the call: what the call left so far, its activation, and
    what happened. -/
def during (s : Endpoint Tid κ) (t : Tid) (p : PendingResponces Tid) (frames : List (Activation κ)) (happened : List (Event κ)) :
    Endpoint Tid κ where
  pending := p
  threads := Function.update s.threads t (frames ++ s.threads t)
  events := s.events ++ happened.map (t,·)

/-- The endpoint behind the call. -/
def behind (s : Endpoint Tid κ) (t : Tid) (p : PendingResponces Tid) (happened : List (Event κ)) : Endpoint Tid κ where
  pending := p
  threads := s.threads
  events := s.events ++ happened.map (t,·)

theorem during_ended (s : Endpoint Tid κ) (t : Tid) (p : PendingResponces Tid) (happened : List (Event κ)) :
    during s t p [] happened = behind s t p happened := by
  simp [during,behind]

section alone
variable {call_info : CallInfo κ} {transport : TransportShare} {t : Tid} {s : Endpoint Tid κ}
variable {p : PendingResponces Tid} {happened : List (Event κ)} {packets : List (Data × BitVec 32)}

theorem during_start (free : ready (s.threads t) = true) (operation : Operation κ) :
    Endpoints.step call_info s (t,.start operation) = some (during s t s.pending [enter operation] []) := by
  simp [Endpoints.step,free,during]

theorem during_step {frame : Activation κ} {move : Move} {out : Advance Tid κ}
    (advanced : advance call_info t p frame move = some out) :
    Endpoints.step call_info (during s t p [frame] happened) (t,.move move) =
      some (during s t out.pending out.frames (happened ++ out.events)) := by
  simp only [Endpoints.step,during,Function.update_self,List.singleton_append,advanced,Option.map_some,
    Function.update_idem,List.map_append,List.append_assoc]

/-- The run comes from one state to the other before the call ends. -/
def Leads (call_info : CallInfo κ) (transport : TransportShare) (t : Tid) (height : Nat) (w w' : Alone Tid κ) : Prop :=
  ∃ rounds, ∀ more, serve call_info transport t height (rounds + more) w = serve call_info transport t height more w'

theorem Leads.trans {height : Nat} {w w' w'' : Alone Tid κ} (first : Leads call_info transport t height w w')
    (second : Leads call_info transport t height w' w'') : Leads call_info transport t height w w'' := by
  obtain ⟨rounds,leads⟩ := first
  obtain ⟨rounds',leads'⟩ := second
  refine ⟨rounds + rounds',fun more => ?_⟩
  rw [Nat.add_assoc,leads,leads']

theorem Leads.refl {height : Nat} (w : Alone Tid κ) : Leads call_info transport t height w w :=
  ⟨0,fun more => by rw [Nat.zero_add]⟩

theorem leads_performed {frame : Activation κ} {w' : Alone Tid κ}
    (performed : perform call_info transport t ⟨during s t p [frame] happened,packets⟩ = some w') :
    Leads call_info transport t (s.threads t).length ⟨during s t p [frame] happened,packets⟩ w' := by
  refine ⟨1,fun more => ?_⟩
  have high : ¬ ((during s t p [frame] happened).threads t).length ≤ (s.threads t).length := by simp [during]
  rw [Nat.add_comm,serve,if_neg high,performed,Option.bind_some]

/-- A step that does not use the transport. -/
theorem leads_proceed {frame : Activation κ} {out : Advance Tid κ} (inside : frame.point ≠ .writing ∧ frame.point ≠ .reading)
    (advanced : advance call_info t p frame .proceed = some out) :
    Leads call_info transport t (s.threads t).length ⟨during s t p [frame] happened,packets⟩
      ⟨during s t out.pending out.frames (happened ++ out.events),packets⟩ := by
  refine leads_performed ?_
  obtain ⟨not_writing,not_reading⟩ := inside
  have top : (during s t p [frame] happened).threads t = frame :: s.threads t := by simp [during]
  unfold perform
  simp only [top]
  split
  · contradiction
  · contradiction
  · contradiction
  · rw [during_step advanced,Option.map_some]

theorem leads_write {frame : Activation κ} {out : Advance Tid κ} (at_point : frame.point = .writing)
    (advanced : advance call_info t p frame (.write (some transport) true) = some out) :
    Leads call_info transport t (s.threads t).length ⟨during s t p [frame] happened,packets⟩
      ⟨during s t out.pending out.frames (happened ++ out.events),packets⟩ := by
  refine leads_performed ?_
  have top : (during s t p [frame] happened).threads t = frame :: s.threads t := by simp [during]
  simp only [perform,top,at_point,during_step advanced,Option.map_some]

theorem leads_read {frame : Activation κ} {out : Advance Tid κ} {packet : Data} {type_raw : BitVec 32}
    (at_point : frame.point = .reading) (advanced : advance call_info t p frame (.read true (some packet) type_raw) = some out) :
    Leads call_info transport t (s.threads t).length ⟨during s t p [frame] happened,(packet,type_raw) :: packets⟩
      ⟨during s t out.pending out.frames (happened ++ out.events),packets⟩ := by
  refine leads_performed ?_
  have top : (during s t p [frame] happened).threads t = frame :: s.threads t := by simp [during]
  simp only [perform,top,at_point,during_step advanced,Option.map_some]

theorem leads_empty {frame : Activation κ} {out : Advance Tid κ} (at_point : frame.point = .reading)
    (polls : frame.id = c_invalid_id) (advanced : advance call_info t p frame (.read true none 0) = some out) :
    Leads call_info transport t (s.threads t).length ⟨during s t p [frame] happened,[]⟩
      ⟨during s t out.pending out.frames (happened ++ out.events),[]⟩ := by
  refine leads_performed ?_
  have top : (during s t p [frame] happened).threads t = frame :: s.threads t := by simp [during]
  simp only [perform,top,at_point,if_pos polls,during_step advanced,Option.map_some]

/-! ### The rounds of the loop -/

variable {operation : Operation κ} {id : CallId}

/-- A reply that is stored under the id ends the call. -/
theorem leads_response {buffer : CallDataBuffer} (unlocked : p.m_thread_waiting_transport.m_locked_id = none)
    (stored : p.m_id_data_return id = some buffer) (answers : responsePrecessed buffer id = true) :
    Leads call_info transport t (s.threads t).length ⟨during s t p [⟨operation,id,.readBuffer⟩] happened,packets⟩
      ⟨during s t (p.eraseReply id) [] (happened ++ [.tookResponse id buffer,.passed buffer,.left .response,
        .returned operation id (processBufferResult buffer)]),packets⟩ := by
  have elsewhere : p.m_thread_waiting_transport.isCurrent t = false := by simp [LockCurrentThreadId.isCurrent,unlocked]
  have takes : advance call_info t p ⟨operation,id,.readBuffer⟩ .proceed =
      some ⟨p.eraseReply id,[⟨operation,id,.handling buffer⟩],[.tookResponse id buffer]⟩ := by
    have round : Activation.round (⟨operation,id,.readBuffer⟩ : Activation κ) p t = _ := EndpointMoves.round_response stored t
    simp only [advance,elsewhere,Bool.false_eq_true,if_false,round,Activation.at]
  have passes : advance call_info t (p.eraseReply id) ⟨operation,id,.handling buffer⟩ .proceed =
      some ⟨p.eraseReply id,[⟨operation,id,.processing true (processBufferResult buffer)⟩],[.passed buffer]⟩ := by
    simp only [advance,answers,Activation.at]
  have leaves : advance call_info t (p.eraseReply id) ⟨operation,id,.processing true (processBufferResult buffer)⟩ .proceed =
      some ⟨p.eraseReply id,[],[.left .response,.returned operation id (processBufferResult buffer)]⟩ := rfl
  rw [show happened ++ [.tookResponse id buffer,.passed buffer,.left .response,.returned operation id (processBufferResult buffer)] =
    happened ++ [.tookResponse id buffer] ++ [.passed buffer] ++
      [.left .response,.returned operation id (processBufferResult buffer)] by simp]
  exact (leads_proceed (by simp) takes).trans ((leads_proceed (by simp) passes).trans (leads_proceed (by simp) leaves))

/-- A packet of the queue is passed to `ProcessBuffer`, and the next round begins. -/
theorem leads_call {buffer : CallDataBuffer} {rest : List CallDataBuffer}
    (unlocked : p.m_thread_waiting_transport.m_locked_id = none) (absent : p.m_id_data_return id = none)
    (allowed : operation.processIncomingCalls = true) (first : p.m_data_incoming_call = buffer :: rest) :
    Leads call_info transport t (s.threads t).length ⟨during s t p [⟨operation,id,.readBuffer⟩] happened,packets⟩
      ⟨during s t p.popCall [⟨operation,id,.readBuffer⟩] (happened ++ [.tookCall buffer,.passed buffer]),packets⟩ := by
  have elsewhere : p.m_thread_waiting_transport.isCurrent t = false := by simp [LockCurrentThreadId.isCurrent,unlocked]
  have call : Incoming buffer := p.calls (first ▸ List.mem_cons_self)
  have unanswered : responsePrecessed buffer id = false := by
    have low := ((incoming_iff buffer).mp call).2
    have early : ¬ buffer.header.type ≥ pt_return := by
      unfold pt_call at low
      unfold pt_return
      bv_omega
    simp [responsePrecessed,early]
  have takes : advance call_info t p ⟨operation,id,.readBuffer⟩ .proceed =
      some ⟨p.popCall,[⟨operation,id,.handling buffer⟩],[.tookCall buffer]⟩ := by
    simp [advance,elsewhere,Activation.round,readBuffer,absent,allowed,first,Round.buffer,EndpointMoves.branch_defined,
      call.defined,Activation.at]
  have passes : advance call_info t p.popCall ⟨operation,id,.handling buffer⟩ .proceed =
      some ⟨p.popCall,[⟨operation,id,.processing false (processBufferResult buffer)⟩],[.passed buffer]⟩ := by
    simp only [advance,unanswered,Activation.at]
  have continues : advance call_info t p.popCall ⟨operation,id,.processing false (processBufferResult buffer)⟩ .proceed =
      some ⟨p.popCall,[⟨operation,id,.readBuffer⟩],[]⟩ := rfl
  rw [show happened ++ [.tookCall buffer,.passed buffer] = happened ++ [.tookCall buffer] ++ [.passed buffer] ++ [] by simp]
  exact (leads_proceed (by simp) takes).trans ((leads_proceed (by simp) passes).trans (leads_proceed (by simp) continues))

/-- The transport is locked for a `Read`. -/
theorem leads_lock (unlocked : p.m_thread_waiting_transport.m_locked_id = none) (absent : p.m_id_data_return id = none)
    (empty : operation.processIncomingCalls = true → p.m_data_incoming_call = []) :
    Leads call_info transport t (s.threads t).length ⟨during s t p [⟨operation,id,.readBuffer⟩] happened,packets⟩
      ⟨during s t { p with m_thread_waiting_transport := { m_locked_id := some t } } [⟨operation,id,.reading⟩] happened,packets⟩ := by
  have elsewhere : p.m_thread_waiting_transport.isCurrent t = false := by simp [LockCurrentThreadId.isCurrent,unlocked]
  have queue : (if operation.processIncomingCalls then p.m_data_incoming_call.head? else none) = none := by
    cases allowed : operation.processIncomingCalls with
    | false => rfl
    | true => simp [empty allowed]
  have locks : advance call_info t p ⟨operation,id,.readBuffer⟩ .proceed =
      some ⟨{ p with m_thread_waiting_transport := { m_locked_id := some t } },[⟨operation,id,.reading⟩],[]⟩ := by
    simp only [advance,elsewhere,Activation.round,readBuffer,absent,queue]
    simp [LockCurrentThreadId.isLocked,LockCurrentThreadId.lock,unlocked,Round.buffer,EndpointMoves.branch_default,Activation.at]
  have run : Leads call_info transport t _ ⟨during s t p _ happened,packets⟩ _ := leads_proceed (by simp) locks
  rwa [List.append_nil] at run

/-- What is shared after a packet was read and put where it belongs. -/
def taken (p : PendingResponces Tid) (operation : Operation κ) (t : Tid) (buffer : CallDataBuffer) : PendingResponces Tid :=
  (Pending.writeBuffer { p with m_thread_waiting_transport := { m_locked_id := some t } } operation.processIncomingCalls buffer).1

@[simp] theorem taken_transport (buffer : CallDataBuffer) :
    (taken p operation t buffer).m_thread_waiting_transport.m_locked_id = none :=
  writeBuffer_transport ..
@[simp] theorem taken_counter (buffer : CallDataBuffer) : (taken p operation t buffer).m_incremental_id = p.m_incremental_id :=
  writeBuffer_counter ..
@[simp] theorem taken_calls (buffer : CallDataBuffer) : (taken p operation t buffer).m_data_incoming_call =
    p.m_data_incoming_call ++ [buffer].filter fun buffer => Incoming buffer :=
  writeBuffer_calls ..
/-- A reply is stored unless there is one with its id. -/
theorem taken_replies (buffer : CallDataBuffer) (other : CallId) : (taken p operation t buffer).m_id_data_return other =
    (p.m_id_data_return other).or (if Reply buffer ∧ buffer.header.id = other then some buffer else none) := by
  rw [taken,writeBuffer_replies]
  by_cases same : other = buffer.header.id
  · subst same
    by_cases reply : Reply buffer
    · cases found : p.m_id_data_return buffer.header.id with
      | none => simp [reply]
      | some stored => simp [found]
    · simp [reply]
  · have elsewhere : ¬ (Reply buffer ∧ buffer.header.id = other) := fun both => same both.2.symm
    rw [if_neg elsewhere,Option.or_none]
    split
    · rw [Function.update_of_ne same]
    · rfl

theorem store_returned (buffer : CallDataBuffer) : (p.store buffer).2 = decide (Reply buffer) := by
  unfold PendingResponces.store
  split
  · split
    · rename_i low
      exact (decide_eq_false (BitVec.not_lt.mpr low)).symm
    · rename_i high
      exact (decide_eq_true (BitVec.not_le.mp high)).symm
  · rename_i missing
    exact (decide_eq_false fun reply : Reply buffer => missing reply.defined).symm

/-- Another round begins for a call that waits, and for one that processes incoming
    calls when a packet is there. -/
theorem writeBuffer_again {buffer : CallDataBuffer}
    (again : id ≠ c_invalid_id ∨ operation.processIncomingCalls = true ∧ buffer.header.type ≠ pt_undefined)
    (q : PendingResponces Tid) :
    ¬ (id = c_invalid_id ∧ (Pending.writeBuffer q operation.processIncomingCalls buffer).2.1 = false ∧
      (Pending.writeBuffer q operation.processIncomingCalls buffer).2.2 = false) := by
  rintro ⟨polls,no_call,no_reply⟩
  obtain ⟨allowed,defined⟩ := again.resolve_left (not_not.mpr polls)
  have unreturned : ¬ Reply buffer := by
    rw [Pending.writeBuffer,store_returned] at no_reply
    exact of_decide_eq_false no_reply
  have call : Incoming buffer := (incoming_iff buffer).mpr ⟨defined,BitVec.not_lt.mp unreturned⟩
  rw [Pending.writeBuffer,allowed,Bool.true_and,store_calls] at no_call
  simp [call] at no_call

/-- A packet is read and put where it belongs, and the next round begins. -/
theorem leads_packet {packet : Data} {type_raw : BitVec 32} {buffer : CallDataBuffer}
    (same : receiveCallDataBuffer type_raw packet = buffer) (unlocked : p.m_thread_waiting_transport.m_locked_id = none)
    (absent : p.m_id_data_return id = none) (empty : operation.processIncomingCalls = true → p.m_data_incoming_call = [])
    (again : id ≠ c_invalid_id ∨ operation.processIncomingCalls = true ∧ buffer.header.type ≠ pt_undefined) :
    Leads call_info transport t (s.threads t).length
      ⟨during s t p [⟨operation,id,.readBuffer⟩] happened,(packet,type_raw) :: packets⟩
      ⟨during s t (taken p operation t buffer) [⟨operation,id,.readBuffer⟩] (happened ++ [.received buffer,.entered buffer]),packets⟩ := by
  have reads : advance call_info t { p with m_thread_waiting_transport := { m_locked_id := some t } } ⟨operation,id,.reading⟩
      (.read true (some packet) type_raw) =
      some ⟨{ p with m_thread_waiting_transport := { m_locked_id := some t } },
        [⟨operation,id,.writeBuffer true buffer⟩],[.received buffer]⟩ := by
    simp only [advance,same,Activation.at]
  have stores : advance call_info t { p with m_thread_waiting_transport := { m_locked_id := some t } }
      ⟨operation,id,.writeBuffer true buffer⟩ .proceed =
      some ⟨taken p operation t buffer,[⟨operation,id,.readBuffer⟩],[.entered buffer]⟩ := by
    simp only [advance,Activation.writeBuffer,Bool.true_eq_false,if_false,if_neg (writeBuffer_again again _),Activation.at,taken]
  rw [show happened ++ [.received buffer,.entered buffer] = happened ++ [.received buffer] ++ [.entered buffer] by simp]
  exact (leads_lock unlocked absent empty).trans ((leads_read rfl reads).trans (leads_proceed (by simp) stores))

/-- Nothing is pending, and the call that does not wait ends. -/
theorem leads_drained (unlocked : p.m_thread_waiting_transport.m_locked_id = none) (absent : p.m_id_data_return c_invalid_id = none)
    (empty : p.m_data_incoming_call = []) :
    Leads call_info transport t (s.threads t).length
      ⟨during s t p [⟨operation,c_invalid_id,.readBuffer⟩] happened,[]⟩
      ⟨during s t (taken p operation t {}) [] (happened ++ [.received {},.entered {},.left .drained,
        .returned operation c_invalid_id {}]),[]⟩ := by
  have reads : advance call_info t { p with m_thread_waiting_transport := { m_locked_id := some t } }
      ⟨operation,c_invalid_id,.reading⟩ (.read true none 0) =
      some ⟨{ p with m_thread_waiting_transport := { m_locked_id := some t } },
        [⟨operation,c_invalid_id,.writeBuffer true {}⟩],[.received {}]⟩ := rfl
  have ended : (Pending.writeBuffer { p with m_thread_waiting_transport := { m_locked_id := some t } }
        operation.processIncomingCalls {}).2.1 = false ∧
      (Pending.writeBuffer { p with m_thread_waiting_transport := { m_locked_id := some t } }
        operation.processIncomingCalls {}).2.2 = false := by
    constructor
    · rw [Pending.writeBuffer,store_calls]
      simp [empty,default_not_incoming]
    · rw [Pending.writeBuffer,store_returned]
      exact decide_eq_false default_not_reply
  have stores : advance call_info t { p with m_thread_waiting_transport := { m_locked_id := some t } }
      ⟨operation,c_invalid_id,.writeBuffer true {}⟩ .proceed =
      some ⟨taken p operation t {},[],[.entered {},.left .drained,.returned operation c_invalid_id {}]⟩ := by
    simp only [advance,Activation.writeBuffer,Bool.true_eq_false,if_false,ended,and_self,if_true,Activation.leave,taken]
  rw [show happened ++ [.received {},.entered {},.left .drained,.returned operation c_invalid_id {}] =
    happened ++ [.received {}] ++ [.entered {},.left .drained,.returned operation c_invalid_id {}] by simp]
  exact (leads_lock unlocked absent fun _ => empty).trans ((leads_empty rfl rfl reads).trans (leads_proceed (by simp) stores))

/-! ### ProcessTransport -/

/-- The first reply with the id. -/
def firstReply (buffers : List CallDataBuffer) (id : CallId) : Option CallDataBuffer :=
  buffers.find? fun buffer => Reply buffer ∧ buffer.header.id = id
/-- What a call leaves that took in everything: what is pending was read, the
    calls were processed in their order, and the replies are stored. -/
structure TakesIn (p p' : PendingResponces Tid) (packets : List (Data × BitVec 32)) (happened : List (Event κ)) : Prop where
  unlocked : p'.m_thread_waiting_transport.m_locked_id = none
  counter : p'.m_incremental_id = p.m_incremental_id
  queue : p'.m_data_incoming_call = []
  replies : ∀ id, p'.m_id_data_return id = (p.m_id_data_return id).or (firstReply (received packets) id)
  passed : happened.filterMap passedPacket =
    p.m_data_incoming_call ++ incoming (received packets)
  read : happened.filterMap receivedPacket = received packets ++ [({} : CallDataBuffer)]

/-- What happens when a queue is processed. -/
def processed (queue : List CallDataBuffer) : List (Event κ) :=
  queue.flatMap fun buffer => [.tookCall buffer,.passed buffer]

/-- The queue is processed, packet by packet. -/
theorem leads_queue (call_info : CallInfo κ) (transport : TransportShare) (t : Tid) (s : Endpoint Tid κ)
    (packets : List (Data × BitVec 32)) (queue : List CallDataBuffer) {p : PendingResponces Tid} (happened : List (Event κ))
    (unlocked : p.m_thread_waiting_transport.m_locked_id = none) (absent : p.m_id_data_return id = none)
    (allowed : operation.processIncomingCalls = true) (calls : p.m_data_incoming_call = queue) :
    ∃ p', Leads call_info transport t (s.threads t).length ⟨during s t p [⟨operation,id,.readBuffer⟩] happened,packets⟩
        ⟨during s t p' [⟨operation,id,.readBuffer⟩] (happened ++ processed queue),packets⟩ ∧
      p'.m_thread_waiting_transport.m_locked_id = none ∧ p'.m_incremental_id = p.m_incremental_id ∧
      p'.m_data_incoming_call = [] ∧ p'.m_id_data_return = p.m_id_data_return := by
  induction queue generalizing p happened with
  | nil => exact ⟨p,by simpa [processed] using Leads.refl _,unlocked,rfl,calls,rfl⟩
  | cons buffer rest ih =>
    have popped : p.popCall.m_data_incoming_call = rest := by rw [popCall_calls,calls,List.tail_cons]
    obtain ⟨p',later,free,counter,empty,same⟩ := ih (p := p.popCall) _ unlocked absent popped
    refine ⟨p',?_,free,counter,empty,same⟩
    rw [processed,List.flatMap_cons,← List.append_assoc]
    exact (leads_call unlocked absent allowed calls).trans later

theorem processed_passed (queue : List CallDataBuffer) :
    (processed queue : List (Event κ)).filterMap passedPacket = queue ∧
      (processed queue : List (Event κ)).filterMap receivedPacket = [] := by
  induction queue with
  | nil => exact ⟨rfl,rfl⟩
  | cons buffer rest ih =>
    rw [processed,List.flatMap_cons,List.filterMap_append,List.filterMap_append,← processed,ih.1,ih.2]
    exact ⟨rfl,rfl⟩

theorem firstReply_cons (buffer : CallDataBuffer) (rest : List CallDataBuffer) (id : CallId) :
    firstReply (buffer :: rest) id =
      (if Reply buffer ∧ buffer.header.id = id then some buffer else none).or (firstReply rest id) := by
  unfold firstReply
  rw [List.find?_cons]
  by_cases here : Reply buffer ∧ buffer.header.id = id
  · simp [here]
  · simp [here]

/-- Everything that is pending is taken in, packet by packet. -/
theorem leads_takesIn (call_info : CallInfo κ) (transport : TransportShare) (t : Tid) (s : Endpoint Tid κ)
    (operation : Operation κ) (packets : List (Data × BitVec 32)) {p : PendingResponces Tid} (happened : List (Event κ))
    (unlocked : p.m_thread_waiting_transport.m_locked_id = none) (absent : p.m_id_data_return c_invalid_id = none)
    (allowed : operation.processIncomingCalls = true)
    (valid : ∀ buffer ∈ received packets, buffer.header.type ≠ pt_undefined ∧ buffer.header.id ≠ c_invalid_id) :
    ∃ p' more, Leads call_info transport t (s.threads t).length
        ⟨during s t p [⟨operation,c_invalid_id,.readBuffer⟩] happened,packets⟩
        ⟨during s t p' [] (happened ++ more ++ [.left .drained,.returned operation c_invalid_id {}]),[]⟩ ∧
      TakesIn p p' packets more := by
  induction packets generalizing p happened with
  | nil =>
    obtain ⟨q,run,free,counter,empty,same⟩ := leads_queue call_info transport t s [] _ happened unlocked absent allowed rfl
    refine ⟨taken q operation t {},processed p.m_data_incoming_call ++ [.received {},.entered {}],?_,?_⟩
    · have ended := run.trans (leads_drained free (same ▸ absent) empty)
      simpa using ended
    · obtain ⟨passed,read⟩ := processed_passed (κ := κ) p.m_data_incoming_call
      refine ⟨taken_transport _,(taken_counter _).trans counter,?_,?_,?_,?_⟩
      · simp [empty,default_not_incoming]
      · intro id
        rw [taken_replies,same,if_neg fun both => default_not_reply both.1]
        rfl
      · rw [List.filterMap_append,passed]
        rfl
      · rw [List.filterMap_append,read]
        rfl
  | cons packet rest ih =>
    obtain ⟨packet,type_raw⟩ := packet
    obtain ⟨q,run,free,counter,empty,same⟩ :=
      leads_queue call_info transport t s ((packet,type_raw) :: rest) _ happened unlocked absent allowed rfl
    generalize here : receiveCallDataBuffer type_raw packet = buffer
    have first : received ((packet,type_raw) :: rest) = buffer :: received rest := by rw [← here]; rfl
    rw [first] at valid
    obtain ⟨defined,nonzero⟩ := valid buffer List.mem_cons_self
    have absent' : (taken q operation t buffer).m_id_data_return c_invalid_id = none := by
      rw [taken_replies,same,absent,if_neg fun both => nonzero both.2]
      rfl
    obtain ⟨p',more,later,takes⟩ := ih (p := taken q operation t buffer)
      (happened ++ processed p.m_data_incoming_call ++ [.received buffer,.entered buffer]) (taken_transport _) absent'
      fun other member => valid other (List.mem_cons_of_mem _ member)
    refine ⟨p',processed p.m_data_incoming_call ++ [.received buffer,.entered buffer] ++ more,?_,?_⟩
    · have reads := run.trans ((leads_packet here free (same ▸ absent) (fun _ => empty) (.inr ⟨allowed,defined⟩)).trans later)
      simpa using reads
    · obtain ⟨passed,read⟩ := processed_passed (κ := κ) p.m_data_incoming_call
      refine ⟨takes.unlocked,?_,takes.queue,?_,?_,?_⟩
      · rw [takes.counter,taken_counter,counter]
      · intro id
        rw [takes.replies,taken_replies,same,first,firstReply_cons,Option.or_assoc]
      · rw [first,List.filterMap_append,List.filterMap_append,passed,takes.passed,taken_calls,empty]
        by_cases call : Incoming buffer
        · simp [incoming,call,passedPacket]
        · simp [incoming,call,passedPacket]
      · rw [first,List.filterMap_append,List.filterMap_append,read,takes.read]
        rfl

/-- The call comes to its end, with any number of rounds from some number on. -/
theorem leads_callAlone {q : PendingResponces Tid} {later : List (Event κ)} {rest : List (Data × BitVec 32)}
    (free : ready (s.threads t) = true) (leads : Leads call_info transport t (s.threads t).length
      ⟨during s t s.pending [enter operation] [],packets⟩ ⟨during s t q [] later,rest⟩) :
    ∃ rounds, ∀ more, callAlone call_info transport t operation (rounds + more) ⟨s,packets⟩ = some ⟨behind s t q later,rest⟩ := by
  obtain ⟨rounds,served⟩ := leads
  refine ⟨rounds + 1,fun more => ?_⟩
  have low : ((during s t q [] later).threads t).length ≤ (s.threads t).length := by simp [during]
  unfold callAlone
  rw [during_start free,Option.bind_some,Nat.add_assoc,served,Nat.add_comm,serve,if_pos low,during_ended]

end alone

/-- What one call of `ProcessTransport` does on a thread that is not inside a
    `Read`: it ends, with nothing left that is pending. -/
theorem processTransport_drains (call_info : CallInfo κ) (transport : TransportShare) (t : Tid) (s : Endpoint Tid κ)
    (free : ready (s.threads t) = true) (unlocked : s.pending.m_thread_waiting_transport.m_locked_id = none)
    (nonzero : s.pending.m_id_data_return c_invalid_id = none) (packets : List (Data × BitVec 32))
    (valid : ∀ buffer ∈ received packets, buffer.header.type ≠ pt_undefined ∧ buffer.header.id ≠ c_invalid_id) :
    ∃ p happened, TakesIn s.pending p packets happened ∧
      ∃ rounds, ∀ more, callAlone call_info transport t .processTransport (rounds + more) ⟨s,packets⟩ =
        some ⟨behind s t p (happened ++ [Event.left .drained,.returned .processTransport c_invalid_id {}]),[]⟩ := by
  obtain ⟨p,happened,run,takes⟩ := leads_takesIn call_info transport t s .processTransport packets []
    unlocked nonzero rfl valid
  exact ⟨p,happened,takes,leads_callAlone free run⟩

/-- A packet without a body. -/
def headerOf (pt : PacketType) (id : CallId) : Data := ⟨encodeHeader 0 pt id,by simp⟩
theorem none_stored {id : CallId} {buffer : CallDataBuffer}
    (found : (fun _ : CallId => (none : Option CallDataBuffer)) id = some buffer) : Reply buffer ∧ buffer.header.id = id := by
  cases found
theorem none_queued {buffer : CallDataBuffer} (member : buffer ∈ ([] : List CallDataBuffer)) : Incoming buffer := by
  cases member
/-- A call is in the queue, and the reply 5 is stored. -/
def half : Endpoint Bool Unit where
  pending := (({ replies := none_stored, calls := none_queued } : PendingResponces Bool).pushCall
    (receiveCallDataBuffer 0 (headerOf pt_call 3)) (by decide)).insertReply
      (receiveCallDataBuffer 0 (headerOf pt_return 5)) (by decide)

/-- On the way are a call, a second reply 5 and a reply 6. -/
def coming : List (Data × BitVec 32) := [(headerOf pt_call 4,0),(headerOf pt_return 5,0),(headerOf pt_return 6,0)]

theorem processTransport_drains_half : ∃ p happened, TakesIn half.pending p coming happened ∧
    ∃ rounds, ∀ more, callAlone (fun _ _ _ _ => {}) (proxyTransport fun _ => 0) true .processTransport (rounds + more) ⟨half,coming⟩ =
      some ⟨behind half true p (happened ++ [Event.left .drained,.returned .processTransport c_invalid_id {}]),[]⟩ :=
  processTransport_drains _ _ true half rfl rfl (by decide) coming (by decide)

end IpcPortable.Draining
