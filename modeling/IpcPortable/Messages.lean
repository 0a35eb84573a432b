import IpcPortable.Writers
import IpcPortable.Buffers

/-!
The packets that the library makes, on all its paths: a call, its result, its
failure, the request to enumerate and its answer. Each path measures the body,
makes a stream for a packet of that size and writes the body again; what was
measured is what is written (`measured_filled`).
-/
namespace IpcPortable.Messages
open IpcPortable.LittleEndian IpcPortable.DataStream IpcPortable.Values IpcPortable.Packets IpcPortable.Calls
open IpcPortable.ProcMaps IpcPortable.Dispatch IpcPortable.Replies IpcPortable.Writers IpcPortable.Buffers

/-- What a packet is made for. -/
inductive Message
  /-- `InvokeUnified`, with the buffer that is given to it if there is one. -/
  | call (inplace_send_buffer : Option Data) (proc_name : List Byte) (send_return : Bool) (return_type : List Byte)
    (params : List (List Byte)) (args : List Value)
  /-- The value that a handler answers. -/
  | result (ret : Option Value)
  /-- No handler accepts a call. -/
  | fail (error_arg : ErrorArg)
  /-- `EnumerateRemote`. -/
  | enumerate
  /-- The answer to a request to enumerate. -/
  | enumerated (res : List ProcDescription)

def Message.type : Message → PacketType
  | .call .. => pt_call
  | .result _ => pt_return
  | .fail _ => pt_return_fail_call
  | .enumerate => pt_enumerate
  | .enumerated _ => pt_return_enumerate
/-- The serialiser of the body. -/
def Message.write : Message → StateM DataStream Unit
  | .call _ proc_name send_return return_type params args => serializeCall proc_name send_return return_type params args
  | .result (some ret) => insert ret.1 ret.2
  | .result none => pure ()
  | .fail error_arg => storeReturnFailCall error_arg
  | .enumerate => pure ()
  | .enumerated res => insert .enumerateData res
/-- The encoding of the body. -/
def Message.body : Message → List Byte
  | .call _ proc_name send_return return_type params args => encodeCall proc_name send_return return_type params args
  | .result ret => encodeRet ret
  | .fail error_arg => encodeFail error_arg
  | .enumerate => []
  | .enumerated res => encode .enumerateData res

/-- `CalcCallSize`. -/
def calcCallSize (send_return : Bool) (proc_name return_type : List Byte) (params : List (List Byte))
    (args : List Value) : Nat :=
  ((serializeCall proc_name send_return return_type params args {}).2.m_write_pos + c_net_call_packet_header_size) % 2^32
/-- The first part of `InvokeRemote`. -/
def invokeRemote (ipc : Internals) (call_info_data : DataStream) : List Effect :=
  match ipc.m_transport with
  | some _ => writeDetached call_info_data
  | none => [.raised]

/-- What the library does to send a message under an id. -/
def Message.send (ipc : Internals) (id : CallId) : Message → List Effect
  | .call inplace_send_buffer proc_name send_return return_type params args =>
    let call_info := callInfo ipc.m_transport inplace_send_buffer id proc_name send_return return_type params args
    raisedSince {} call_info ++ invokeRemote ipc call_info
  | .result ret =>
    let result := serializeReturn ipc.m_transport id ret
    result.2 ++ resultJobInvoke ipc.m_transport result.1
  | .fail error_arg =>
    match ipc.m_transport with
    | some transport => invokeOrFail ipc transport {} id { send_return := true, error_arg := some error_arg }
    | none => [.raised]
  | .enumerate =>
    let call_info_data_stream := createDataStream ipc.m_transport 0 pt_enumerate id
    raisedSince {} call_info_data_stream ++ invokeRemote ipc call_info_data_stream
  | .enumerated res => enumerateReply ipc id res

/-! ### What the paths have in common -/

/-- The stream that a path makes for a measured body. -/
def Message.create (weak_transport : Option TransportShare) (id : CallId) (no_header_size : Nat) : Message → DataStream
  | .call (some inplace_send_buffer) .. => createDataStreamInplace inplace_send_buffer no_header_size id
  | message => createDataStream weak_transport no_header_size message.type id
/-- The stream after the body was written. -/
def Message.stream (weak_transport : Option TransportShare) (id : CallId) (message : Message) : DataStream :=
  (message.write (message.create weak_transport id (message.write {}).2.m_write_pos)).2
/-- A result that is shorter than a header is not written. -/
def Message.writes : Message → Data → Bool
  | .result _, packet => c_net_call_packet_header_size ≤ packet.size
  | _, _ => true

theorem write_writer (message : Message) : Writer message.write message.body.length := by
  cases message with
  | call inplace proc_name send_return return_type params args =>
    exact serializeCall_writer proc_name send_return return_type params args
  | result ret =>
    cases ret with
    | none => exact .nothing
    | some ret => exact insert_writer ret.1 ret.2
  | fail error_arg => exact storeReturnFailCall_writer error_arg
  | enumerate => exact .nothing
  | enumerated res => exact insert_writer .enumerateData res

theorem write_emits (message : Message) : Emits message.write message.body := by
  cases message with
  | call inplace proc_name send_return return_type params args =>
    exact serializeCall_emits proc_name send_return return_type params args
  | result ret =>
    cases ret with
    | none => exact Emits.pure
    | some ret => exact insert_emits ret.1 ret.2
  | fail error_arg => exact storeReturnFailCall_emits error_arg
  | enumerate => exact Emits.pure
  | enumerated res => exact insert_emits .enumerateData res

/-- Every path raises what its stream raises, and gives the transport the
    packet of the stream. -/
theorem send_stream {ipc : Internals} {transport : TransportShare} (alive : ipc.m_transport = some transport)
    {id : CallId} (nonzero : id ≠ c_invalid_id) (message : Message) {packet : Data}
    (made : (message.stream (some transport) id).m_write = some packet) :
    message.send ipc id = raisedSince {} (message.stream (some transport) id) ++
      if message.writes packet then [.write packet] else [.raised] := by
  cases message with
  | call inplace proc_name send_return return_type params args =>
    have stream : callInfo (some transport) inplace id proc_name send_return return_type params args =
        (Message.call inplace proc_name send_return return_type params args).stream (some transport) id := by
      cases inplace <;> rfl
    simp only [Message.send,invokeRemote,alive,stream,writeDetached,made]
    rfl
  | result ret =>
    have stream : serializeReturn (some transport) id ret =
        (((Message.result ret).stream (some transport) id).m_write,
          raisedSince {} ((Message.result ret).stream (some transport) id)) := by
      cases ret <;> exact if_neg nonzero
    simp only [Message.send,alive,stream,made,resultJobInvoke,Message.writes,decide_eq_true_eq]
  | fail error_arg =>
    have stream : (storeReturnFailCall error_arg (createDataStream (some transport)
        (storeReturnFailCall error_arg {}).2.m_write_pos pt_return_fail_call id)).2 =
        (Message.fail error_arg).stream (some transport) id := rfl
    simp only [Message.send,alive,invokeOrFail,if_true,stream,made]
    rfl
  | enumerate =>
    have stream : createDataStream (some transport) 0 pt_enumerate id = Message.enumerate.stream (some transport) id := rfl
    simp only [Message.send,invokeRemote,alive,stream,writeDetached,made]
    rfl
  | enumerated res =>
    have stream : (insert .enumerateData res (createDataStream (some transport)
        (insert .enumerateData res {}).2.m_write_pos pt_return_enumerate id)).2 =
        (Message.enumerated res).stream (some transport) id := rfl
    simp only [Message.send,enumerateReply,alive,stream,writeDetached,made]
    rfl

theorem calcCallSize_fits {send_return : Bool} {proc_name return_type : List Byte} {params : List (List Byte)}
    {args : List Value} (fits : 12 + (encodeCall proc_name send_return return_type params args).length < 2^32) :
    calcCallSize send_return proc_name return_type params args =
      12 + (encodeCall proc_name send_return return_type params args).length := by
  rw [calcCallSize,(serializeCall_writer proc_name send_return return_type params args).measured,c_net_call_packet_header_size]
  omega

/-- A buffer for in-place sending has exactly the size that `CalcCallSize` tells. -/
def Message.ExactBuffer : Message → Prop
  | .call (some inplace_send_buffer) proc_name send_return return_type params args =>
    inplace_send_buffer.size = calcCallSize send_return proc_name return_type params args
  | _ => True

/-- The stream of a message that fits: the packet is the header and the body,
    and nothing was refused. -/
theorem stream_filled {transport : TransportShare} (creates : Creates transport) {id : CallId} (nonzero : id ≠ c_invalid_id)
    {message : Message} (fits : 12 + message.body.length < 2^32) (exact_buffer : message.ExactBuffer) :
    ∃ packet, (message.stream (some transport) id).m_write = some packet ∧
      packet.bytes = packetOf message.type id message.body ∧ (message.stream (some transport) id).raised = 0 := by
  have emits := write_emits message
  have measured := measured_size emits (by omega)
  obtain ⟨buffer,created⟩ := Option.isSome_iff_exists.mp (creates _ fits)
  have fresh := createDataStream_filled message.type emits measured fits nonzero created
  cases message with
  | call inplace proc_name send_return return_type params args =>
    cases inplace with
    | none => exact fresh
    | some given =>
      have size : given.size = 12 + (encodeCall proc_name send_return return_type params args).length :=
        Eq.trans exact_buffer (calcCallSize_fits fits)
      obtain ⟨packet,tail,written,packet_size,bytes,quiet⟩ :=
        createDataStreamInplace_filled id emits measured (Nat.le_of_eq size.symm)
      have nothing : tail = [] := by
        have lengths := congrArg List.length bytes
        rw [List.length_append,List.length_append,encodeHeader_length] at lengths
        have total : packet.bytes.length = given.size := packet_size
        refine List.length_eq_zero_iff.mp ?_
        simp only [Message.body] at lengths
        omega
      have stream : (Message.call (some given) proc_name send_return return_type params args).stream (some transport) id =
          ((Message.call (some given) proc_name send_return return_type params args).write (createDataStreamInplace given
            ((Message.call (some given) proc_name send_return return_type params args).write {}).2.m_write_pos id)).2 := rfl
      rw [nothing,List.append_nil] at bytes
      rw [stream]
      exact ⟨packet,written,bytes,quiet⟩
  | result ret => exact fresh
  | fail error_arg => exact fresh
  | enumerate => exact fresh
  | enumerated res => exact fresh

/-- Both runs of the serialiser agree: the cursor moves by the length of the
    encoding, whether there is storage or not, and the packet that is allocated
    from the first run is filled by the second one up to its last byte, with
    nothing refused. A buffer of the size that `CalcCallSize` tells will do. -/
theorem measured_filled {transport : TransportShare} (creates : Creates transport) {ipc : Internals}
    (alive : ipc.m_transport = some transport) {id : CallId} (nonzero : id ≠ c_invalid_id) (message : Message)
    (fits : 12 + message.body.length < 2^32) (exact_buffer : message.ExactBuffer) :
    (message.write {}).2.m_write_pos = message.body.length ∧
      (∀ s, Room s message.body.length → s.m_write.isSome →
        (message.write s).2.m_write_pos = s.m_write_pos + message.body.length ∧
          (message.write s).2.raised = s.raised ∧ (message.write s).2.overrun = s.overrun) ∧
      ∃ packet, message.send ipc id = [.write packet] ∧ packet.bytes = packetOf message.type id message.body := by
  have emits := write_emits message
  refine ⟨measured_size emits (by omega),?_,?_⟩
  · intro s room storage
    obtain ⟨d,present⟩ := Option.isSome_iff_exists.mp storage
    have inside := room.inside d present
    have bound : d.size < 2^32 := d.fits
    rw [emits s room]
    refine ⟨Nat.mod_eq_of_lt ?_,rfl,rfl⟩
    omega
  · obtain ⟨packet,made,bytes,quiet⟩ := stream_filled creates nonzero fits exact_buffer
    have size : packet.size = 12 + message.body.length := by simp [Data.size,bytes,packetOf]
    have whole : message.writes packet = true := by
      cases message with
      | result ret => simp [Message.writes,size,c_net_call_packet_header_size]
      | _ => rfl
    refine ⟨packet,?_,bytes⟩
    rw [send_stream alive nonzero message made,if_pos whole]
    simp [raisedSince,quiet]

/-- The call `not(true)` in a buffer that is given. -/
theorem measured_filled_not :
    ∃ packet, (Message.call (some ⟨List.replicate 32 0,by decide⟩) [110,111,116] true [98] [[98]] [⟨.bool,true⟩]).send
        endpointOf 7 = [.write packet] ∧
      packet.bytes = packetOf pt_call 7 (encodeCall [110,111,116] true [98] [[98]] [⟨.bool,true⟩]) := by
  have fits : 12 + (encodeCall [110,111,116] true [98] [[98]] [⟨.bool,true⟩]).length < 2^32 := by decide
  have size : 32 = calcCallSize true [110,111,116] [98] [[98]] [⟨.bool,true⟩] := (calcCallSize_fits fits).symm
  exact (measured_filled (proxyTransport_creates fun _ => 0) rfl (by decide)
    (.call (some ⟨List.replicate 32 0,by decide⟩) [110,111,116] true [98] [[98]] [⟨.bool,true⟩]) fits size).2.2

end IpcPortable.Messages
