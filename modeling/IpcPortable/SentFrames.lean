import IpcPortable.Messages
import IpcPortable.PacketRuns

/-!
The packets that are given to the transport, as frames. The transport writes a
whole packet, and the receiver takes as much as the header declares; the two
agree unless a call is put into a buffer that is larger than it has to be, or
the size of a packet does not fit a `PacketSize` (`sent_frames`).
-/
namespace IpcPortable.SentFrames
open IpcPortable.LittleEndian IpcPortable.Regions IpcPortable.Frames IpcPortable.DataStream IpcPortable.Values
open IpcPortable.Packets IpcPortable.PacketParser IpcPortable.PacketRuns IpcPortable.Calls IpcPortable.ProcMaps
open IpcPortable.Dispatch IpcPortable.Replies IpcPortable.Writers IpcPortable.Buffers IpcPortable.Messages

/-- The size of a packet is that of the header and of the body that the header declares. -/
def WholeFrame (packet : Data) : Prop := packet.size = packetFraming.size packet.bytes
instance (packet : Data) : Decidable (WholeFrame packet) :=
  inferInstanceAs (Decidable (packet.size = packetFraming.size packet.bytes))

/-- What the sizes of a message have to meet. `CreateDataStreamInplace` refuses
    a buffer that is too small, and `ResultJob::Invoke` a packet that is
    smaller than a header. -/
def Sized (id : CallId) : Message → Prop
  | .call (some inplace_send_buffer) proc_name send_return return_type params args =>
    inplace_send_buffer.size < calcCallSize send_return proc_name return_type params args ∨
      inplace_send_buffer.size = 12 + (encodeCall proc_name send_return return_type params args).length % 2^32
  | .result _ => True
  | message => id = c_invalid_id ∨ 12 + message.body.length % 2^32 < 2^32

/-- The packets that are given to the transport for messages under their ids. -/
def sent (ipc : Internals) (messages : List (CallId × Message)) : List Data :=
  messages.flatMap fun m => writes (m.2.send ipc m.1)

/-! ### One packet -/

theorem wholeFrame_packet {packet : Data} (whole : WholeFrame packet) : Packet packet.bytes := by
  refine ⟨⟨?_,whole⟩,packet.fits⟩
  rw [show packet.bytes.length = _ from whole]
  exact Nat.le_add_right _ _

theorem wholeFrame_header {packet : Data} (whole : WholeFrame packet) : 12 ≤ packet.size :=
  (wholeFrame_packet whole).frame.header

/-- Behind a header in given storage, a writer leaves a packet that is a whole
    frame exactly when the storage has the size that the header tells. -/
theorem writer_wholeFrame (pt : PacketType) (id : CallId) (buffer : Data) {no_header_size n : Nat}
    (small : no_header_size < 2^32) {op : StateM DataStream Unit} (writer : Writer op n)
    (inside : (op (packetHeaderWrite no_header_size pt id (DataStream.ofWrite buffer)).2).2.overrun = 0) :
    ∃ packet, (op (packetHeaderWrite no_header_size pt id (DataStream.ofWrite buffer)).2).2.m_write = some packet ∧
      packet.size = buffer.size ∧ (WholeFrame packet ↔ buffer.size = 12 + no_header_size) := by
  have kept := (writer.keeps _).trans ((packetHeaderWrite_writer no_header_size pt id).keeps (DataStream.ofWrite buffer))
  obtain ⟨packet,written,size⟩ := Option.map_eq_some_iff.mp kept
  refine ⟨packet,written,size,?_⟩
  by_cases header : 12 ≤ buffer.size
  · have length : (encodeHeader no_header_size pt id).length ≤ buffer.size := by
      rw [encodeHeader_length]
      exact header
    have emitted := packetHeaderWrite_emits no_header_size pt id _ (room_ofWrite length)
    have behind := writer.behind 12 (packetHeaderWrite no_header_size pt id (DataStream.ofWrite buffer)).2
    have stored := ofWrite_emit_take length
    have position : ((DataStream.ofWrite buffer).emit (encodeHeader no_header_size pt id)).m_write_pos = 12 := by
      simp [DataStream.emit,DataStream.ofWrite]
    rw [emitted] at behind written inside
    rw [position] at stored
    obtain ⟨_,packet',written',front⟩ := behind.front inside _ rfl (Nat.le_of_eq position.symm)
    obtain rfl : packet = packet' := Option.some.inj (written.symm.trans written')
    rw [WholeFrame,size_header small (front.trans stored),size]
  · constructor
    · intro whole
      have := wholeFrame_header whole
      omega
    · intro exact_size
      omega

/-! ### One message -/

theorem stream_keeps (weak_transport : Option TransportShare) (id : CallId) (message : Message) :
    (message.stream weak_transport id).m_write.map Data.size =
      (message.create weak_transport id (message.write {}).2.m_write_pos).m_write.map Data.size :=
  (write_writer message).keeps _

/-- The storage of a message whose id is not valid. -/
theorem create_invalid (weak_transport : Option TransportShare) (no_header_size : Nat) (pt : PacketType) :
    createDataStream weak_transport no_header_size pt c_invalid_id = {} := if_neg fun valid => valid rfl

theorem writes_writeDetached (stream : DataStream) : writes (writeDetached stream) = stream.m_write.toList := by
  unfold writeDetached
  cases stream.m_write <;> rfl

/-- What is given to the transport is the packet of the stream. -/
theorem send_writes {ipc : Internals} {transport : TransportShare} (alive : ipc.m_transport = some transport)
    (id : CallId) (message : Message) :
    writes (message.send ipc id) = ((message.stream (some transport) id).m_write.filter message.writes).toList := by
  have detached (stream : DataStream) (whole : message.writes = fun _ => true)
      (same : stream = message.stream (some transport) id) :
      writes (raisedSince {} stream ++ writeDetached stream) =
        ((message.stream (some transport) id).m_write.filter message.writes).toList := by
    rw [writes_append,(raisedSince_silent _ _).writes,writes_writeDetached,whole,same,List.nil_append]
    cases (message.stream (some transport) id).m_write <;> rfl
  cases message with
  | call inplace proc_name send_return return_type params args =>
    simp only [Message.send,invokeRemote,alive]
    refine detached _ (funext fun _ => rfl) ?_
    cases inplace <;> rfl
  | result ret =>
    by_cases nonzero : id = c_invalid_id
    · have unused : (serializeReturn (some transport) id ret) = (none,[]) := by
        cases ret <;> exact if_pos nonzero
      have created : (Message.result ret).create (some transport) id ((Message.result ret).write {}).2.m_write_pos = {} := by
        rw [nonzero]
        exact create_invalid _ _ pt_return
      have missing := stream_keeps (some transport) id (.result ret)
      rw [created] at missing
      have empty : ((Message.result ret).stream (some transport) id).m_write = none := Option.map_eq_none_iff.mp missing
      simp only [Message.send,alive,unused,resultJobInvoke,empty]
      rfl
    · have stream : serializeReturn (some transport) id ret =
          (((Message.result ret).stream (some transport) id).m_write,
            raisedSince {} ((Message.result ret).stream (some transport) id)) := by
        cases ret <;> exact if_neg nonzero
      simp only [Message.send,alive,stream,writes_append,(raisedSince_silent _ _).writes,List.nil_append]
      cases ((Message.result ret).stream (some transport) id).m_write with
      | none => rfl
      | some packet =>
        by_cases large : c_net_call_packet_header_size ≤ packet.size
        · have whole : (Message.result ret).writes packet = true := decide_eq_true large
          rw [resultJobInvoke,if_pos large,Option.filter_some,whole]
          rfl
        · have refused : (Message.result ret).writes packet = false := decide_eq_false large
          rw [resultJobInvoke,if_neg large,Option.filter_some,refused]
          rfl
  | fail error_arg =>
    simp only [Message.send,alive,invokeOrFail,if_true]
    exact detached _ (funext fun _ => rfl) rfl
  | enumerate =>
    simp only [Message.send,invokeRemote,alive]
    exact detached _ (funext fun _ => rfl) rfl
  | enumerated res =>
    simp only [Message.send,enumerateReply,alive]
    exact detached _ (funext fun _ => rfl) rfl

/-- The stream of a message that gets no storage. -/
theorem stream_nothing {weak_transport : Option TransportShare} {id : CallId} {message : Message}
    (empty : (message.create weak_transport id (message.write {}).2.m_write_pos).m_write = none) :
    (message.stream weak_transport id).m_write = none := by
  have kept := stream_keeps weak_transport id message
  rw [empty] at kept
  exact Option.map_eq_none_iff.mp kept

/-- A new stream for a message: nothing for an id that is not valid, otherwise
    the header in storage of the size that was computed. -/
theorem createDataStream_cases {transport : TransportShare} (creates : Creates transport) {no_header_size : Nat}
    (pt : PacketType) {id : CallId} (nonzero : id ≠ c_invalid_id) :
    ∃ buffer : Data, buffer.size = (12 + no_header_size) % 2^32 ∧
      createDataStream (some transport) no_header_size pt id =
        (packetHeaderWrite no_header_size pt id (DataStream.ofWrite buffer)).2 := by
  obtain ⟨buffer,created⟩ := Option.isSome_iff_exists.mp (creates _ (Nat.mod_lt (12 + no_header_size) (Nat.two_pow_pos 32)))
  refine ⟨buffer,transport.create_size created,?_⟩
  have made : createDataBuffer (some transport) ((c_net_call_packet_header_size + no_header_size) % 2^32) = some buffer :=
    created
  simp only [createDataStream,if_pos nonzero,made]

/-- The packet of a message that gets storage of the size that was computed:
    a whole frame, unless that size did not fit. -/
theorem created_wholeFrame {transport : TransportShare} (creates : Creates transport) {id : CallId}
    (nonzero : id ≠ c_invalid_id) {message : Message}
    (fresh : ∀ n, message.create (some transport) id n = createDataStream (some transport) n message.type id)
    (inside : (message.stream (some transport) id).overrun = 0) :
    ∃ packet, (message.stream (some transport) id).m_write = some packet ∧
      (WholeFrame packet ↔ 12 + message.body.length % 2^32 < 2^32) ∧ (12 ≤ packet.size → WholeFrame packet) := by
  have writer := write_writer message
  obtain ⟨buffer,size,stream⟩ :=
    @createDataStream_cases transport creates (message.write {}).2.m_write_pos message.type id nonzero
  rw [writer.measured] at size stream
  rw [Message.stream,fresh,writer.measured,stream] at inside ⊢
  have small : message.body.length % 2^32 < 2^32 := Nat.mod_lt _ (Nat.two_pow_pos 32)
  obtain ⟨packet,written,kept,whole⟩ := writer_wholeFrame message.type id buffer small writer inside
  refine ⟨packet,written,?_,?_⟩
  · rw [whole,size]
    omega
  · intro header
    rw [whole]
    omega

/-- The packet of a call that was put into a given buffer. -/
theorem inplace_wholeFrame (weak_transport : Option TransportShare) (id : CallId) {inplace_send_buffer : Data}
    {proc_name : List Byte} {send_return : Bool} {return_type : List Byte} {params : List (List Byte)} {args : List Value}
    (accepted : ¬ inplace_send_buffer.size < calcCallSize send_return proc_name return_type params args)
    (inside : ((Message.call (some inplace_send_buffer) proc_name send_return return_type params args).stream
      weak_transport id).overrun = 0) :
    ∃ packet, ((Message.call (some inplace_send_buffer) proc_name send_return return_type params args).stream
        weak_transport id).m_write = some packet ∧
      (WholeFrame packet ↔ inplace_send_buffer.size =
        12 + (encodeCall proc_name send_return return_type params args).length % 2^32) := by
  have writer := serializeCall_writer proc_name send_return return_type params args
  have stream : (Message.call (some inplace_send_buffer) proc_name send_return return_type params args).stream
      weak_transport id = (serializeCall proc_name send_return return_type params args
        (packetHeaderWrite (serializeCall proc_name send_return return_type params args {}).2.m_write_pos pt_call id
          (DataStream.ofWrite inplace_send_buffer)).2).2 := by
    refine congrArg (fun s => (serializeCall proc_name send_return return_type params args s).2) ?_
    exact if_neg accepted
  rw [stream,writer.measured] at inside ⊢
  obtain ⟨packet,written,_,whole⟩ :=
    writer_wholeFrame pt_call id inplace_send_buffer (Nat.mod_lt _ (Nat.two_pow_pos 32)) writer inside
  exact ⟨packet,written,whole⟩

/-- What is given to the transport for one message. -/
theorem send_wholeFrame {ipc : Internals} {transport : TransportShare} (alive : ipc.m_transport = some transport)
    (creates : Creates transport) (id : CallId) (message : Message)
    (inside : (message.stream (some transport) id).overrun = 0) :
    (∀ packet ∈ writes (message.send ipc id), WholeFrame packet) ↔ Sized id message := by
  rw [send_writes alive]
  have invalid (fresh : ∀ n, message.create (some transport) id n = createDataStream (some transport) n message.type id)
      (zero : id = c_invalid_id) : (message.stream (some transport) id).m_write = none := by
    refine stream_nothing ?_
    rw [fresh,zero,create_invalid]
  have unconditional (fresh : ∀ n, message.create (some transport) id n = createDataStream (some transport) n message.type id)
      (whole : message.writes = fun _ => true) :
      (∀ packet ∈ ((message.stream (some transport) id).m_write.filter message.writes).toList, WholeFrame packet) ↔
        id = c_invalid_id ∨ 12 + message.body.length % 2^32 < 2^32 := by
    by_cases zero : id = c_invalid_id
    · rw [invalid fresh zero]
      simp [zero]
    · obtain ⟨packet,written,frames,_⟩ := created_wholeFrame creates zero fresh inside
      simp [written,whole,zero,frames]
  cases message with
  | call inplace proc_name send_return return_type params args =>
    cases inplace with
    | none => exact unconditional (fun _ => rfl) rfl
    | some given =>
      by_cases refused : given.size < calcCallSize send_return proc_name return_type params args
      · have empty : ((Message.call (some given) proc_name send_return return_type params args).stream
            (some transport) id).m_write = none := by
          refine stream_nothing ?_
          simp only [Message.create,createDataStreamInplace]
          exact congrArg DataStream.m_write (if_pos refused)
        simp [empty,Sized,refused]
      · obtain ⟨packet,written,frames⟩ := inplace_wholeFrame (some transport) id refused inside
        simp [written,Message.writes,frames,Sized,refused]
  | result ret =>
    refine iff_of_true ?_ trivial
    intro packet member
    obtain ⟨made,header⟩ := Option.filter_eq_some_iff.mp (Option.mem_toList.mp member)
    have valid : id ≠ c_invalid_id := by
      intro zero
      cases (invalid (fun _ => rfl) zero).symm.trans made
    obtain ⟨packet',made',_,frames⟩ := created_wholeFrame creates valid (fun _ => rfl) inside
    obtain rfl : packet = packet' := Option.some.inj (made.symm.trans made')
    exact frames (of_decide_eq_true header)
  | fail error_arg => exact unconditional (fun _ => rfl) rfl
  | enumerate => exact unconditional (fun _ => rfl) rfl
  | enumerated res => exact unconditional (fun _ => rfl) rfl

/-- A serialiser that has room behind the header copies nothing beyond the storage. -/
theorem written_inside (pt : PacketType) (id : CallId) {buffer : Data} (no_header_size : Nat)
    {op : StateM DataStream Unit} {body : List Byte} (emits : Emits op body) (large : 12 + body.length ≤ buffer.size) :
    (op (packetHeaderWrite no_header_size pt id (DataStream.ofWrite buffer)).2).2.overrun = 0 := by
  have whole : (encodeHeader no_header_size pt id ++ body).length = 12 + body.length := by simp
  have room : Room (DataStream.ofWrite buffer) (encodeHeader no_header_size pt id ++ body).length :=
    room_ofWrite (whole ▸ large)
  rw [packetHeaderWrite_emits no_header_size pt id _ (room_left room),emits _ (room_right room)]
  rfl

/-- Nor does one that has no storage. -/
theorem measured_inside {op : StateM DataStream Unit} {body : List Byte} (emits : Emits op body)
    (small : body.length < 2^32) {s : DataStream} (empty : s.m_write = none) (cursor : s.m_write_pos < 2^32)
    (quiet : s.overrun = 0) : (op s).2.overrun = 0 := by
  have room : Room s body.length := ⟨cursor,small,fun d storage => by cases empty.symm.trans storage⟩
  rw [emits s room]
  exact quiet

/-- A message that fits a packet is written inside the storage. -/
theorem stream_inside (weak_transport : Option TransportShare) (id : CallId) {message : Message}
    (fits : 12 + message.body.length < 2^32) : (message.stream weak_transport id).overrun = 0 := by
  have emits := write_emits message
  have measured : (message.write {}).2.m_write_pos = message.body.length := measured_size emits (by omega)
  have unstored (s : DataStream) (empty : s.m_write = none) (start : s.m_write_pos = 0) (quiet : s.overrun = 0) :
      (message.write s).2.overrun = 0 :=
    measured_inside emits (by omega) empty (start ▸ Nat.two_pow_pos 32) quiet
  have fresh (pt : PacketType) :
      (message.write (createDataStream weak_transport (message.write {}).2.m_write_pos pt id)).2.overrun = 0 := by
    rw [measured]
    by_cases zero : id = c_invalid_id
    · rw [zero,create_invalid]
      exact unstored {} rfl rfl rfl
    · unfold createDataStream
      rw [if_pos zero]
      cases created : createDataBuffer weak_transport ((c_net_call_packet_header_size + message.body.length) % 2^32) with
      | none => exact unstored _ rfl rfl rfl
      | some buffer =>
        refine written_inside pt id _ emits ?_
        cases weak_transport with
        | none => cases created
        | some transport =>
          have size := transport.create_size created
          rw [size,Nat.mod_eq_of_lt (show c_net_call_packet_header_size + message.body.length < 2^32 from fits)]
          exact Nat.le_refl _
  cases message with
  | call inplace proc_name send_return return_type params args =>
    cases inplace with
    | none => exact fresh pt_call
    | some given =>
      by_cases refused : given.size < calcCallSize send_return proc_name return_type params args
      · have created : (Message.call (some given) proc_name send_return return_type params args).create weak_transport id
            ((Message.call (some given) proc_name send_return return_type params args).write {}).2.m_write_pos =
              { raised := 1 } := if_pos refused
        rw [Message.stream,created]
        exact unstored _ rfl rfl rfl
      · have size := calcCallSize_fits fits
        have created : (Message.call (some given) proc_name send_return return_type params args).create weak_transport id
            ((Message.call (some given) proc_name send_return return_type params args).write {}).2.m_write_pos =
              (packetHeaderWrite ((Message.call (some given) proc_name send_return return_type params args).write
                {}).2.m_write_pos pt_call id (DataStream.ofWrite given)).2 := if_neg refused
        rw [Message.stream,created]
        refine written_inside pt_call id _ emits ?_
        rw [size] at refused
        exact Nat.not_lt.mp refused
  | result ret => exact fresh pt_return
  | fail error_arg => exact fresh pt_return_fail_call
  | enumerate => exact fresh pt_enumerate
  | enumerated res => exact fresh pt_return_enumerate

/-! ### What the receiver gets -/

/-- Every packet that the transport is given is one whole frame, and a receiver
    gets exactly these packets however they arrive, if and only if the sizes of
    the messages are as they have to be. A message that does not fit a packet
    is left out where its copies leave the storage. -/
theorem sent_frames {ipc : Internals} {transport : TransportShare} (alive : ipc.m_transport = some transport)
    (creates : Creates transport) (messages : List (CallId × Message))
    (inside : ∀ m ∈ messages, 2^32 ≤ 12 + m.2.body.length → (m.2.stream (some transport) m.1).overrun = 0) :
    ((∀ packet ∈ sent ipc messages, WholeFrame packet) ∧
      ∀ (fresh : Nat → Byte) (schedule : List (List Byte)) (n : Nat),
        schedule.flatten = ((sent ipc messages).map Data.bytes).flatten →
        schedule.length + (sent ipc messages).length ≤ n →
        delivered (calls pieces fresh n { in_data := { schedule } }).1 = (sent ipc messages).map Data.bytes) ↔
    ∀ m ∈ messages, Sized m.1 m.2 := by
  have each (m : CallId × Message) (member : m ∈ messages) :
      (∀ packet ∈ writes (m.2.send ipc m.1), WholeFrame packet) ↔ Sized m.1 m.2 := by
    refine send_wholeFrame alive creates m.1 m.2 ?_
    by_cases fits : 12 + m.2.body.length < 2^32
    · exact stream_inside _ _ fits
    · exact inside m member (Nat.not_lt.mp fits)
  constructor
  · rintro ⟨frames,_⟩ m member
    refine (each m member).mp ?_
    intro packet written
    exact frames packet (List.mem_flatMap.mpr ⟨m,member,written⟩)
  · intro sized
    have frames : ∀ packet ∈ sent ipc messages, WholeFrame packet := by
      intro packet member
      obtain ⟨m,listed,written⟩ := List.mem_flatMap.mp member
      exact (each m listed).mpr (sized m listed) packet written
    have framed : ∀ packet ∈ (sent ipc messages).map Data.bytes, Packet packet := by
      intro bytes member
      obtain ⟨packet,listed,rfl⟩ := List.mem_map.mp member
      exact wholeFrame_packet (frames packet listed)
    refine ⟨frames,?_⟩
    intro fresh schedule n arrives enough
    refine pieces_delivered fresh framed arrives ?_
    rwa [List.length_map]

/-- The call `not(true)` in a buffer that is one byte larger than it has to be. -/
theorem sent_frames_larger :
    ¬ ∀ packet ∈ sent endpointOf
        [(7,.call (some ⟨List.replicate 33 0,by decide⟩) [110,111,116] true [98] [[98]] [⟨.bool,true⟩])],
      WholeFrame packet := by
  intro frames
  have alive : endpointOf.m_transport = some (proxyTransport fun _ => 0) := rfl
  have fits : 12 + (encodeCall [110,111,116] true [98] [[98]] [⟨.bool,true⟩]).length < 2^32 := by decide
  have one := send_wholeFrame alive (proxyTransport_creates _) 7
    (.call (some ⟨List.replicate 33 0,by decide⟩) [110,111,116] true [98] [[98]] [⟨.bool,true⟩]) (stream_inside _ _ fits)
  rcases one.mp fun packet member => frames packet (List.mem_flatMap.mpr ⟨_,List.mem_singleton.mpr rfl,member⟩) with
    refused | exact_size
  · rw [calcCallSize_fits fits] at refused
    revert refused
    decide
  · revert exact_size
    decide

/-- An enumeration and the call `not(true)` in a buffer of the right size. -/
theorem sent_frames_not :
    (sent endpointOf [(6,.enumerate),
        (7,.call (some ⟨List.replicate 32 0,by decide⟩) [110,111,116] true [98] [[98]] [⟨.bool,true⟩])]).map Data.size =
      [12,32] ∧
    ∀ packet ∈ sent endpointOf [(6,.enumerate),
        (7,.call (some ⟨List.replicate 32 0,by decide⟩) [110,111,116] true [98] [[98]] [⟨.bool,true⟩])],
      WholeFrame packet := by
  refine ⟨by decide +kernel,((sent_frames (show endpointOf.m_transport = some (proxyTransport fun _ => 0) from rfl)
    (proxyTransport_creates _) _ ?_).mpr ?_).1⟩
  · intro m member large
    simp only [List.mem_cons,List.not_mem_nil,or_false] at member
    rcases member with rfl | rfl
    · exact absurd large (by decide)
    · exact absurd large (by decide)
  · intro m member
    simp only [List.mem_cons,List.not_mem_nil,or_false] at member
    rcases member with rfl | rfl
    · exact .inr (by decide)
    · exact .inr (by decide)

end IpcPortable.SentFrames
