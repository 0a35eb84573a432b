import IpcPortable.Runs
import IpcPortable.Pending

/-!
The threads of one endpoint. A thread is a stack of activations, of which the
lowest was called by the program and the others by the code of the user that
the activation below them runs: a handler, or `Create`, `Write` and `Read` of
the transport. A step of a thread is one section that holds `m_lock`, or one
call of that code. What a call is, and how its packet is built, is given.
-/
namespace IpcPortable.Endpoints
open IpcPortable.DataStream IpcPortable.Packets IpcPortable.Pending
variable {Tid κ : Type} [DecidableEq Tid]

/-- What a thread can ask of the endpoint that passes through its queues. -/
inductive Operation (κ : Type)
  | processTransport
  | enumerateRemote
  | waitInvoke (call : κ) (process_incoming_calls : Bool)
  | asyncInvoke (call : κ)
/-- `process_incoming_calls`. -/
def Operation.processIncomingCalls : Operation κ → Bool
  | .processTransport => true
  | .waitInvoke _ process_incoming_calls => process_incoming_calls
  | _ => false
/-- There is a `result_buf_wait_return`. -/
def Operation.waitsReturn : Operation κ → Bool
  | .asyncInvoke _ => false
  | _ => true
/-- How the packet of a call is built: the call, `send_return`, the transport
    and the id give the stream `call_info`. -/
abbrev CallInfo (κ : Type) := κ → Bool → Option TransportShare → CallId → DataStream
/-- The stream that is given to `InvokeRemote`. -/
def Operation.stream (call_info : CallInfo κ) (weak_transport : Option TransportShare) (new_id : CallId) :
    Operation κ → DataStream
  | .processTransport => {}
  | .enumerateRemote => createDataStream weak_transport 0 pt_enumerate new_id
  | .waitInvoke call _ => call_info call true weak_transport new_id
  | .asyncInvoke call => call_info call false weak_transport new_id

/-- Where an activation is. -/
inductive Point
  /-- Before the section of `NewCallId`. -/
  | newCallId
  /-- The packet is built and written. -/
  | writing
  /-- Before the ReadBuffer section. -/
  | readBuffer
  /-- In `m_write_cond.wait`. -/
  | waiting
  /-- A packet was taken out. -/
  | handling (buffer : CallDataBuffer)
  /-- In `ProcessBuffer`. -/
  | processing (response_precessed : Bool) (result : DataStream)
  /-- In `Read` of the transport. -/
  | reading
  /-- Before the WriteBuffer section. -/
  | writeBuffer (transport_ok : Bool) (call_data_buffer : CallDataBuffer)
/-- Code of the user runs, which can use the endpoint. -/
def Point.nests : Point → Bool
  | .writing => true
  | .processing _ _ => true
  | .reading => true
  | _ => false
/-- The transport was locked and is not unlocked yet. -/
def Point.holds : Point → Bool
  | .reading => true
  | .writeBuffer _ _ => true
  | _ => false

/-- An activation of an operation; `id` is the `wait_response_id`. -/
structure Activation (κ : Type) where
  operation : Operation κ
  id : CallId := c_invalid_id
  point : Point
/-- An operation begins; `ProcessTransport` has no packet to write. -/
def enter : Operation κ → Activation κ
  | .processTransport => { operation := .processTransport, point := .readBuffer }
  | operation => { operation, point := .newCallId }

/-- The five ways out of `ProcessTransportResponse`. -/
inductive Exit
  | reentrance
  | busy
  | response
  | transportFailed
  | drained
deriving DecidableEq
/-- What happened, for the record. -/
inductive Event (κ : Type)
  | issued (operation : Operation κ) (id : CallId)
  | wrote (operation : Operation κ) (id : CallId) (packet : Data)
  /-- The assertion of `lock` failed. -/
  | asserted
  | tookResponse (id : CallId) (buffer : CallDataBuffer)
  | tookCall (buffer : CallDataBuffer)
  /-- The packet was passed to `ProcessBuffer`. -/
  | passed (buffer : CallDataBuffer)
  /-- `Read` returned, with the packet if there was one. -/
  | received (buffer : CallDataBuffer)
  /-- The WriteBuffer section was executed. -/
  | entered (buffer : CallDataBuffer)
  /-- `ProcessTransportResponse` returned. -/
  | left (exit : Exit)
  | returned (operation : Operation κ) (id : CallId) (result : DataStream)
/-- One step of an activation; `created` and `alive` are what the weak pointer
    to the transport gives for `CreateDataStream` and for `Write`, and
    `type_raw` is a variable that is not initialised. A transport that is gone
    reads nothing and fails. -/
inductive Move
  | proceed
  | write (created : Option TransportShare) (alive : Bool)
  | read (transport_ok : Bool) (packet : Option Data) (type_raw : BitVec 32)
/-- What a step of an activation leaves: the activation, if it is not over. -/
structure Advance (Tid κ : Type) where
  pending : PendingResponces Tid
  frames : List (Activation κ)
  events : List (Event κ)

/-- The stream that `ProcessBuffer` answers. -/
def processBufferResult (buffer : CallDataBuffer) : DataStream :=
  if buffer.header.type = pt_return_enumerate ∨ buffer.header.type = pt_return then buffer.data else {}
/-- `response_precessed`. -/
def responsePrecessed (buffer : CallDataBuffer) (wait_response_id : CallId) : Bool :=
  buffer.header.id = wait_response_id ∧ buffer.header.type ≥ pt_return ∧ buffer.header.type < pt_count_not_a_type

def Activation.at (frame : Activation κ) (point : Point) : Activation κ := { frame with point }
/-- `ProcessTransportResponse` returns, and with it the operation. -/
def Activation.leave (frame : Activation κ) (exit : Exit) (result : DataStream) : List (Event κ) :=
  [.left exit,.returned frame.operation frame.id result]
/-- `InvokeRemote` up to `ProcessTransportResponse`. -/
def Activation.write (frame : Activation κ) (call_info : CallInfo κ) (p : PendingResponces Tid)
    (created : Option TransportShare) (alive : Bool) : Advance Tid κ :=
  if alive then
    match (frame.operation.stream call_info created frame.id).m_write with
    | some data =>
      if frame.operation.waitsReturn then
        ⟨p,[frame.at .readBuffer],[.wrote frame.operation frame.id data]⟩
      else ⟨p,[],[.wrote frame.operation frame.id data,.returned frame.operation frame.id {}]⟩
    | none => ⟨p,[],[.returned frame.operation frame.id {}]⟩
  else ⟨p,[],[.returned frame.operation frame.id {}]⟩
/-- The branch behind the ReadBuffer section. -/
def Activation.branch (frame : Activation κ) (buffer : CallDataBuffer) : Activation κ :=
  frame.at (if buffer.header.type ≠ pt_undefined then .handling buffer else .reading)
/-- A round of the ReadBuffer section and the branch behind it. -/
def Activation.round (frame : Activation κ) (p : PendingResponces Tid) (get_id : Tid) : Advance Tid κ :=
  let section_end := Pending.readBuffer p get_id frame.id frame.operation.processIncomingCalls
  let behind := frame.branch section_end.2.buffer
  match section_end.2 with
  | .busy => ⟨section_end.1,[],frame.leave .busy {}⟩
  | .waits => ⟨section_end.1,[frame.at .waiting],[]⟩
  | .response buffer => ⟨section_end.1,[behind],[.tookResponse frame.id buffer]⟩
  | .call buffer => ⟨section_end.1,[behind],[.tookCall buffer]⟩
  | .transport asserted => ⟨section_end.1,[behind],if asserted then [.asserted] else []⟩
/-- The WriteBuffer section and the tests behind it. -/
def Activation.writeBuffer (frame : Activation κ) (p : PendingResponces Tid) (transport_ok : Bool)
    (call_data_buffer : CallDataBuffer) : Advance Tid κ :=
  let (p,process_more_incoming_calls,new_return_buffer) :=
    Pending.writeBuffer p frame.operation.processIncomingCalls call_data_buffer
  if transport_ok = false then ⟨p,[],.entered call_data_buffer :: frame.leave .transportFailed {}⟩
  else if frame.id = c_invalid_id ∧ process_more_incoming_calls = false ∧ new_return_buffer = false then
    ⟨p,[],.entered call_data_buffer :: frame.leave .drained {}⟩
  else ⟨p,[frame.at .readBuffer],[.entered call_data_buffer]⟩

/-- A step of an activation of the thread `get_id`. -/
def advance (call_info : CallInfo κ) (get_id : Tid) (p : PendingResponces Tid) (frame : Activation κ) (move : Move) :
    Option (Advance Tid κ) :=
  match frame.point, move with
  | .newCallId, .proceed =>
    (newCallId p).map fun drawn =>
      ⟨drawn.2,[{ frame with id := drawn.1, point := .writing }],[.issued frame.operation drawn.1]⟩
  | .writing, .write created alive => some (frame.write call_info p created alive)
  | .readBuffer, .proceed =>
    if p.m_thread_waiting_transport.isCurrent get_id then some ⟨p,[],frame.leave .reentrance {}⟩
    else some (frame.round p get_id)
  | .waiting, .proceed => some (frame.round (p.wake get_id) get_id)
  | .handling buffer, .proceed =>
    some ⟨p,[frame.at (.processing (responsePrecessed buffer frame.id) (processBufferResult buffer))],[.passed buffer]⟩
  | .processing response_precessed result, .proceed =>
    if response_precessed then some ⟨p,[],frame.leave .response result⟩ else some ⟨p,[frame.at .readBuffer],[]⟩
  | .reading, .read transport_ok packet type_raw =>
    let call_data_buffer := match packet with
      | some packet => receiveCallDataBuffer type_raw packet
      | none => {}
    some ⟨p,[frame.at (.writeBuffer transport_ok call_data_buffer)],[.received call_data_buffer]⟩
  | .writeBuffer transport_ok call_data_buffer, .proceed => some (frame.writeBuffer p transport_ok call_data_buffer)
  | _, _ => none

/-- The endpoint with its threads, and the record of what happened. -/
structure Endpoint (Tid κ : Type) where
  pending : PendingResponces Tid := {}
  threads : Tid → List (Activation κ) := fun _ => []
  events : List (Tid × Event κ) := []
inductive Action (κ : Type)
  | start (operation : Operation κ)
  | move (move : Move)
/-- A thread can begin an operation: it runs no other one, or code of the user. -/
def ready : List (Activation κ) → Bool
  | [] => true
  | frame :: _ => frame.point.nests
/-- A step of the endpoint. -/
def step (call_info : CallInfo κ) (s : Endpoint Tid κ) : Tid × Action κ → Option (Endpoint Tid κ)
  | (get_id,.start operation) =>
    if ready (s.threads get_id) then
      some { s with threads := Function.update s.threads get_id (enter operation :: s.threads get_id) }
    else none
  | (get_id,.move move) =>
    match s.threads get_id with
    | [] => none
    | frame :: below =>
      (advance call_info get_id s.pending frame move).map fun out =>
        { pending := out.pending
          threads := Function.update s.threads get_id (out.frames ++ below)
          events := s.events ++ out.events.map (get_id,·) }

end IpcPortable.Endpoints
