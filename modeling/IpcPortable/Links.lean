import IpcPortable.Numbering

/-!
What holds at each side of a connection, whatever the threads of both sides do.
Every packet that is on its way or came belongs to an operation: it asks for one
of the sender's, or answers one of the receiver's. A side runs a handler only for
a packet that was passed to `ProcessBuffer`, once for each, and what it still has
to do for a packet serves the operation that wrote it.
-/
namespace IpcPortable.Links
open IpcPortable.Runs IpcPortable.DataStream IpcPortable.Values IpcPortable.Packets IpcPortable.ProcMaps
open IpcPortable.Dispatch IpcPortable.Replies IpcPortable.Buffers IpcPortable.Pending IpcPortable.Endpoints
open IpcPortable.EndpointMoves IpcPortable.HandOver IpcPortable.CallQueue IpcPortable.Peers IpcPortable.Matching
open IpcPortable.Responses IpcPortable.Enumerations IpcPortable.Connections IpcPortable.DueReplies
open IpcPortable.Numbering
variable {Tid : Type}

/-- The ids of the packets that ask for something. -/
def requestIds (buffers : List CallDataBuffer) : List CallId := (incoming buffers).map fun buffer => buffer.header.id
/-- A packet from the side `peer` with this registry. -/
def Comes (call_infos : CallInfos) (proc_map : ProcMap) (party peer : Party Tid) (packet : Data) : Prop :=
  (∃ t operation id, (t,operation,id) ∈ issues peer.endpoint.events ∧ Asks id packet operation) ∨
    ∃ t operation id, (t,operation,id) ∈ issues party.endpoint.events ∧
      Replies call_infos proc_map peer.ran id operation packet
/-- The ids of the packets that are processed, that a job calls a handler for, and
    that a handler was run for. -/
def servedIds (party : Party Tid) : List CallId :=
  party.dispatched.map (fun entry => entry.2.1) ++ (party.jobs.filter fun entry => isCall entry.2).map Prod.fst ++
    party.ran.map Prod.fst

/-- The endpoint of a side, with the packets that came from the other. -/
structure Carried [DecidableEq Tid] (peer_infos : CallInfos) (peer_ipc : Internals) (party peer : Party Tid) : Prop where
  owned : Owned party.endpoint
  kept : Kept party.endpoint
  traced : Traced party.endpoint
  numbered : Numbered (Typed peer_infos peer_ipc.m_proc_map) party.endpoint
  coming : ∀ packet ∈ party.arriving, Comes peer_infos peer_ipc.m_proc_map party peer packet
  came : ∀ buffer ∈ picked receivedPacket party.endpoint.events, buffer = {} ∨ ∃ packet type_raw,
    Comes peer_infos peer_ipc.m_proc_map party peer packet ∧ buffer = receiveCallDataBuffer type_raw packet
  fifo : picked wroteId peer.endpoint.events = requestIds (picked receivedPacket party.endpoint.events) ++
    requestIds (party.arriving.map (receiveCallDataBuffer 0))
/-- The registry of a side, with what it does for the other. -/
structure Serving (infos : CallInfos) (ipc : Internals) (party peer : Party Tid) : Prop where
  same : SameHandlers infos party.call_infos
  once : ∀ id, (servedIds party).count id ≤ (requestIds (picked passedPacket party.endpoint.events)).count id
  complete : ∀ id, (∃ t operation, (t,operation,id) ∈ issues peer.endpoint.events ∧ ¬ Taken infos ipc.m_proc_map operation) ∨
    (requestIds (picked passedPacket party.endpoint.events)).count id ≤ (servedIds party).count id
  due : ∀ entry ∈ party.dispatched, ∃ t operation, (t,operation,entry.2.1) ∈ issues peer.endpoint.events ∧
    Due infos ipc.m_proc_map [] entry.2.1 operation entry.2.2 ∧ RunsOnce infos ipc.m_proc_map operation entry.2.2
  jobs : ∀ entry ∈ party.jobs, ∃ t operation, (t,operation,entry.1) ∈ issues peer.endpoint.events ∧
    DueJob infos ipc.m_proc_map party.ran entry.1 operation entry.2
  ran : ∀ run ∈ party.ran, ∃ t operation, (t,operation,run.1) ∈ issues peer.endpoint.events ∧
    Runs infos ipc.m_proc_map operation run.2

/-! ### Packets -/

@[simp] theorem requestIds_append (a b : List CallDataBuffer) : requestIds (a ++ b) = requestIds a ++ requestIds b := by
  simp [requestIds]

theorem requestIds_incoming {buffer : CallDataBuffer} (asks : Incoming buffer) : requestIds [buffer] = [buffer.header.id] := by
  simp [requestIds,incoming_call asks]

theorem requestIds_other {buffer : CallDataBuffer} (other : ¬ Incoming buffer) : requestIds [buffer] = [] := by
  simp [requestIds,incoming,other]

theorem asks_received {id : CallId} {packet : Data} {operation : Operation Invocation} (asks : Asks id packet operation)
    (type_raw : BitVec 32) :
    Incoming (receiveCallDataBuffer type_raw packet) ∧ (receiveCallDataBuffer type_raw packet).header.id = id := by
  obtain ⟨no_header_size,pt,body,bytes,kind⟩ := asks_header asks
  obtain ⟨header,_⟩ := receiveCallDataBuffer_reads type_raw bytes
  rw [Incoming,header]
  exact ⟨kind,rfl⟩

section registry
variable {infos peer_infos : CallInfos} {ipc peer_ipc : Internals} {proc_map : ProcMap} {party peer : Party Tid}

theorem answers_reply {ran : List (CallId × InvokeRemote × List Value)} {id : CallId} {operation : Operation Invocation}
    {type : PacketType} {body : List LittleEndian.Byte} (answers : Answers infos proc_map ran id operation type body) :
    pt_call < type := by
  cases answers <;> decide

theorem replies_received {ran : List (CallId × InvokeRemote × List Value)} {id : CallId}
    {operation : Operation Invocation} {packet : Data} (replies : Replies infos proc_map ran id operation packet)
    (type_raw : BitVec 32) :
    Reply (receiveCallDataBuffer type_raw packet) ∧ (receiveCallDataBuffer type_raw packet).header.id = id := by
  obtain ⟨type,body,bytes,answers⟩ := replies
  obtain ⟨header,same,_⟩ := reply_received type_raw bytes
  rw [Reply,header]
  exact ⟨answers_reply answers,same⟩

/-- Which packet it is does not depend on the variable that is not initialised. -/
theorem comes_ids {packet : Data} (comes : Comes infos proc_map party peer packet) (type_raw : BitVec 32) :
    requestIds [receiveCallDataBuffer type_raw packet] = requestIds [receiveCallDataBuffer 0 packet] := by
  rcases comes with ⟨_,_,id,_,asks⟩ | ⟨_,_,id,_,replies⟩
  · obtain ⟨first,same⟩ := asks_received asks type_raw
    obtain ⟨second,same'⟩ := asks_received asks 0
    rw [requestIds_incoming first,requestIds_incoming second,same,same']
  · have first := (replies_received replies type_raw).1.not_incoming
    have second := (replies_received replies 0).1.not_incoming
    rw [requestIds_other first,requestIds_other second]

theorem issues_mono {events : List (Tid × Event Invocation)} {entry : Tid × Operation Invocation × CallId}
    (member : entry ∈ issues events) (more : List (Tid × Event Invocation)) : entry ∈ issues (events ++ more) := by
  rw [issues,said,List.filterMap_append]
  exact List.mem_append_left _ member

theorem Comes.mono {packet : Data} (comes : Comes infos proc_map party peer packet) {party' peer' : Party Tid}
    {events more : List (Tid × Event Invocation)} {ran : List (CallId × InvokeRemote × List Value)}
    (mine : party'.endpoint.events = party.endpoint.events ++ events)
    (theirs : peer'.endpoint.events = peer.endpoint.events ++ more) (runs : peer'.ran = peer.ran ++ ran) :
    Comes infos proc_map party' peer' packet := by
  rcases comes with ⟨t,operation,id,issued,asks⟩ | ⟨t,operation,id,issued,replies⟩
  · exact .inl ⟨t,operation,id,theirs ▸ issues_mono issued more,asks⟩
  · exact .inr ⟨t,operation,id,mine ▸ issues_mono issued events,runs ▸ replies.mono (List.subset_append_left _ ran)⟩

variable [DecidableEq Tid]

/-- What is asked for was issued by the other side. -/
theorem Carried.asked (carried : Carried peer_infos peer_ipc party peer) {buffer : CallDataBuffer}
    (member : buffer ∈ picked receivedPacket party.endpoint.events) (asks : Incoming buffer) :
    ∃ t operation packet type_raw, (t,operation,buffer.header.id) ∈ issues peer.endpoint.events ∧
      Asks buffer.header.id packet operation ∧ buffer = receiveCallDataBuffer type_raw packet := by
  rcases carried.came buffer member with rfl | ⟨packet,type_raw,comes,rfl⟩
  · exact absurd asks default_not_incoming
  · rcases comes with ⟨t,operation,id,issued,asked⟩ | ⟨_,_,_,_,replies⟩
    · have same := (asks_received asked type_raw).2
      exact ⟨t,operation,packet,type_raw,same.symm ▸ issued,same.symm ▸ asked,rfl⟩
    · exact absurd asks (replies_received replies type_raw).1.not_incoming

/-- A reply that came answers an operation of this side. -/
theorem Carried.answered (carried : Carried peer_infos peer_ipc party peer) {buffer : CallDataBuffer}
    (member : buffer ∈ picked receivedPacket party.endpoint.events) (reply : Reply buffer) :
    ∃ t operation packet type_raw, (t,operation,buffer.header.id) ∈ issues party.endpoint.events ∧
      Replies peer_infos peer_ipc.m_proc_map peer.ran buffer.header.id operation packet ∧
      buffer = receiveCallDataBuffer type_raw packet := by
  rcases carried.came buffer member with rfl | ⟨packet,type_raw,comes,rfl⟩
  · exact absurd reply default_not_reply
  · rcases comes with ⟨_,_,_,_,asked⟩ | ⟨t,operation,id,issued,replies⟩
    · exact absurd (asks_received asked type_raw).1 reply.not_incoming
    · have same := (replies_received replies type_raw).2
      exact ⟨t,operation,packet,type_raw,same.symm ▸ issued,same.symm ▸ replies,rfl⟩

omit [DecidableEq Tid] in
theorem came_received {events : List (Tid × Event Invocation)} {buffer : CallDataBuffer} (came : Came events buffer) :
    buffer ∈ picked receivedPacket events := by
  obtain ⟨u,member⟩ := came
  exact List.mem_filterMap.mpr ⟨_,member,rfl⟩

/-- The next id has no reply pending. -/
theorem Carried.next_free (carried : Carried peer_infos peer_ipc party peer) (few : Few party.endpoint.events) :
    party.endpoint.pending.m_id_data_return party.endpoint.pending.nextId = none := by
  cases found : party.endpoint.pending.m_id_data_return party.endpoint.pending.nextId with
  | none => rfl
  | some buffer =>
    obtain ⟨reply,same⟩ := party.endpoint.pending.replies found
    have came := came_received (carried.traced.replies _ buffer found)
    obtain ⟨_,_,_,_,issued,_⟩ := carried.answered came reply
    rw [same] at issued
    exact absurd issued (carried.numbered.next_new few)

end registry

end IpcPortable.Links
