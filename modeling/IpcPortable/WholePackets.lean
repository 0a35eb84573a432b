import IpcPortable.LinkRuns
import IpcPortable.SentFrames

/-!
The packets of a connection as frames. A packet that is on its way has the size
that its header tells, if no call is put into a buffer that is larger than it has
to be. So a transport that only keeps bytes can tell the packets apart.
-/
namespace IpcPortable.WholePackets
open IpcPortable.Runs IpcPortable.DataStream IpcPortable.Packets IpcPortable.PacketParser IpcPortable.Messages
open IpcPortable.SentFrames IpcPortable.ProcMaps IpcPortable.Calls IpcPortable.Dispatch
open IpcPortable.Replies hiding callOf
open IpcPortable.EndpointMoves IpcPortable.HandOver IpcPortable.CallQueue IpcPortable.Matching
open IpcPortable.Responses IpcPortable.Enumerations IpcPortable.Connections IpcPortable.DueReplies
open IpcPortable.Numbering IpcPortable.Links IpcPortable.LinkSteps IpcPortable.LinkRuns
open IpcPortable.Endpoints hiding step
open IpcPortable.Peers hiding Deed step
variable {Tid : Type}

/-- A buffer that is given for the call has the size of its packet. -/
def ExactCall (operation : Operation Invocation) : Prop :=
  ∀ call, callOf operation = some call → ∀ buffer, call.inplace_send_buffer = some buffer →
    buffer.size = 12 + call.encoded.length

theorem packetOf_whole {packet : Data} {type : PacketType} {id : CallId} {body : List LittleEndian.Byte}
    (bytes : packet.bytes = packetOf type id body) : WholeFrame packet := by
  have length : packet.size = 12 + body.length := by
    rw [show packet.size = packet.bytes.length from rfl,bytes,packetOf,List.length_append,encodeHeader_length]
  have fits : packet.size < 2^32 := packet.fits
  have header : packet.bytes.take 12 = encodeHeader body.length type id := by
    rw [bytes,packetOf]
    exact List.take_left' (encodeHeader_length _ _ _)
  rw [WholeFrame,size_header (by omega) header,length]

/-- The packet of an operation. -/
theorem stream_whole {transport : TransportShare} (creates : Creates transport) {id : CallId} (nonzero : id ≠ c_invalid_id)
    {operation : Operation Invocation} (exact_call : ExactCall operation) (asks : operation ≠ .processTransport) {packet : Data}
    (written : (operation.stream invocationInfo (some transport) id).m_write = some packet) : WholeFrame packet := by
  have called (call : Invocation) (made : callOf operation = some call) (send_return : Bool)
      (same : operation.stream invocationInfo (some transport) id = invocationInfo call send_return (some transport) id) :
      WholeFrame packet := by
    have alike : (encodeCall call.proc_name send_return call.return_type call.params call.args).length =
        call.encoded.length := by
      simp [Invocation.encoded,encodeCall,encodeSignature]
    have fits : 12 + (encodeCall call.proc_name send_return call.return_type call.params call.args).length < 2^32 := by
      rw [alike]
      exact call.fits
    have exact_buffer : (Message.call call.inplace_send_buffer call.proc_name send_return call.return_type call.params
        call.args).ExactBuffer := by
      cases given : call.inplace_send_buffer with
      | none => trivial
      | some buffer =>
        show buffer.size = calcCallSize _ _ _ _ _
        rw [calcCallSize_fits fits,alike]
        exact exact_call call made buffer given
    obtain ⟨made_packet,filled,bytes,_⟩ := @stream_filled _ creates _ nonzero (.call call.inplace_send_buffer call.proc_name
      send_return call.return_type call.params call.args) fits exact_buffer
    have stream : operation.stream invocationInfo (some transport) id =
        (Message.call call.inplace_send_buffer call.proc_name send_return call.return_type call.params
          call.args).stream (some transport) id := by
      rw [same]
      unfold invocationInfo callInfo
      cases call.inplace_send_buffer <;> rfl
    rw [stream,filled] at written
    cases written
    exact packetOf_whole bytes
  cases operation with
  | processTransport => exact absurd rfl asks
  | enumerateRemote =>
    obtain ⟨request,made,bytes⟩ := request_made creates nonzero
    cases made.symm.trans written
    exact packetOf_whole bytes
  | waitInvoke call process_incoming_calls => exact called call rfl true rfl
  | asyncInvoke call => exact called call rfl false rfl

theorem replies_whole {infos : CallInfos} {proc_map : ProcMap} {ran : List (CallId × InvokeRemote × List Values.Value)} {id : CallId}
    {operation : Operation Invocation} {packet : Data} (replies : Replies infos proc_map ran id operation packet) :
    WholeFrame packet := by
  obtain ⟨type,body,bytes,_⟩ := replies
  exact packetOf_whole bytes

/-- What is left of the packets on their way. -/
theorem transports_left {transport : TransportShare} {arriving rest : List Data} {move : Move}
    (transports : Transports transport arriving move rest) : ∀ packet ∈ rest, packet ∈ arriving := by
  intro packet member
  cases transports with
  | delivers => exact List.mem_cons_of_mem _ member
  | proceeds | writes | waits => exact member

theorem transports_written {transport : TransportShare} {arriving rest : List Data} {move : Move}
    (transports : Transports transport arriving move rest) {created : Option TransportShare} {alive : Bool}
    (write : move = .write created alive) : created = some transport := by
  cases transports with
  | writes =>
    cases write
    rfl
  | delivers | proceeds | waits => cases write

variable [DecidableEq Tid]

/-! ### Every step -/

section step
variable {infos peer_infos : CallInfos} {ipc peer_ipc : Internals} {party peer : Party Tid} {transport : TransportShare}

/-- What is written in a step of a thread. -/
theorem moves_whole (creates : Creates transport) {may : Operation Invocation → Prop} (numbered : Numbered may party.endpoint)
    (few : Few party.endpoint.events)
    (exact_calls : ∀ t, ∀ frame ∈ party.endpoint.threads t, ExactCall frame.operation) {t : Tid} {move : Move}
    {endpoint : Endpoint Tid Invocation} {arriving : List Data}
    (transports : Transports transport party.arriving move arriving)
    (stepped : Endpoints.step invocationInfo party.endpoint (t,.move move) = some endpoint) :
    ∀ packet ∈ picked wrotePacket (endpoint.events.drop party.endpoint.events.length), WholeFrame packet := by
  cases step_steps stepped with
  | @moves t move frame below out running moved =>
    have sent : picked wrotePacket ((party.endpoint.events ++ out.events.map (t,·)).drop party.endpoint.events.length) =
        out.events.filterMap wrotePacket := by
      rw [List.drop_left]
      exact picked_append wrotePacket [] t out.events
    rw [sent]
    have mine : frame ∈ party.endpoint.threads t := running ▸ List.mem_cons_self
    have placed := numbered.placed t frame mine
    have writes {created : Option TransportShare} {alive : Bool} {written : Data} (at_point : frame.point = .writing)
        (write : move = .write created alive)
        (made : (frame.operation.stream invocationInfo created frame.id).m_write = some written) : WholeFrame written := by
      rw [transports_written transports write] at made
      have asks : frame.operation ≠ .processTransport := fun polls => (placed.polls polls).2.2 at_point
      have issued := placed.issued asks (by rw [at_point]; exact Point.noConfusion)
      exact stream_whole creates (numbered.nonzero few issued) (exact_calls t frame mine) asks made
    intro packet member
    cases moved with
    | sends at_point made =>
      obtain rfl := List.mem_singleton.mp member
      exact writes at_point rfl made
    | sendsOnly at_point made =>
      obtain rfl := List.mem_singleton.mp member
      exact writes at_point rfl made
    | issues | unsent | reenters | takesResponse | takesCall | waits | busy | locks | passes | answers | continues | receives
      | receivesNothing | enters | entersLast => cases member

theorem acts_whole (alive : ipc.m_transport = some transport) (creates : Creates transport)
    (linked : Linked infos peer_infos ipc peer_ipc party peer) {gone : Party Tid × List Data}
    (acts : Acts (Typed peer_infos peer_ipc.m_proc_map) ipc party gone) (few : Few gone.1.endpoint.events)
    (peer_few : Few peer.endpoint.events)
    (exact_calls : ∀ t, ∀ frame ∈ party.endpoint.threads t, ExactCall frame.operation)
    (whole : ∀ packet ∈ party.arriving, WholeFrame packet) :
    (∀ packet ∈ gone.1.arriving, WholeFrame packet) ∧ ∀ packet ∈ gone.2, WholeFrame packet := by
  obtain ⟨events,grew⟩ := acts_grow acts
  have few_now : Few party.endpoint.events := few_prefix (grew ▸ few)
  have proceeds : Transports transport party.arriving .proceed party.arriving := .proceeds
  have numbered := linked.carried.numbered
  cases acts with
  | starts _ _ _ => exact ⟨whole,fun _ member => by cases member⟩
  | moves transports stepped plain ended =>
    have through := transports transport alive
    exact ⟨fun packet member => whole packet (transports_left through packet member),
      moves_whole creates numbered few_now exact_calls through stepped⟩
  | dispatches _ _ _ _ stepped => exact ⟨whole,moves_whole creates numbered few_now exact_calls proceeds stepped⟩
  | finishes running at_point latest _ stepped =>
    obtain ⟨_,u,operation,_,due⟩ := finishes_serving linked.serving running at_point latest stepped
    exact ⟨whole,fun packet member => replies_whole (due.writes packet member)⟩
  | works found =>
    obtain ⟨_,u,operation,_,due⟩ := works_serving alive creates linked.serving linked.back.numbered peer_few found
    exact ⟨whole,fun packet member => replies_whole (due.writes packet member)⟩

end step

/-! ### Every run -/

section runs
variable {infos : Bool → CallInfos} {ipc : Bool → Internals} {deeds : List (Connections.Deed Tid)}

/-- Every packet on its way is a whole frame. -/
theorem run_whole (usable : Usable infos ipc deeds)
    (exact_calls : ∀ side t operation, .start side t operation ∈ deeds → ExactCall operation) (side : Bool) :
    ∀ packet ∈ (run (step ipc) (opened infos) deeds side).arriving, WholeFrame packet := by
  let Framed (c : Connection Tid) : Prop := ∀ side, (∀ t, ∀ frame ∈ (c side).endpoint.threads t, ExactCall frame.operation) ∧
    ∀ packet ∈ (c side).arriving, WholeFrame packet
  have start : Framed (opened infos) := fun _ => ⟨fun _ _ member => (by cases member),fun _ member => by cases member⟩
  refine ((@run_induction Tid _ infos ipc deeds usable Framed start ?_).2 side).2
  intro c mover gone links acts few peer_few framed other
  obtain ⟨transport,alive,creates⟩ := usable.alive mover
  have typed := acts.mono fun _ allowed => allowed.1
  obtain ⟨arrives,sent⟩ := acts_whole alive creates (links mover) typed few peer_few (framed mover).1 (framed mover).2
  by_cases same : other = mover
  · rw [same,after_self]
    refine ⟨acts_started (acts.mono fun operation allowed => ?_) (framed mover).1,arrives⟩
    obtain ⟨_,t,started⟩ := allowed
    exact exact_calls mover t operation started
  · rw [(Bool.eq_not_of_ne same : other = !mover),after_other]
    refine ⟨(framed (!mover)).1,fun packet member => ?_⟩
    rcases List.mem_append.mp member with old | new
    · exact (framed (!mover)).2 packet old
    · exact sent packet new

end runs

end IpcPortable.WholePackets
