import IpcPortable.Values

/-!
`MAssIpc_Packet`: the header in front of every packet, and how a stream over a
new packet is made. The storage comes from the transport (`Create`), which is
code of the user; it answers storage of the requested size or none.
-/
namespace IpcPortable.Packets
open IpcPortable.LittleEndian IpcPortable.DataStream IpcPortable.Values

abbrev CallId := BitVec 32
/-- `PacketType` has the fixed underlying type `uint32_t`, so every value of
    that type can be in a header. -/
abbrev PacketType := BitVec 32
def pt_undefined : PacketType := 0
def pt_enumerate : PacketType := 1
def pt_call : PacketType := 2
def pt_return : PacketType := 3
def pt_return_fail_call : PacketType := 4
def pt_return_enumerate : PacketType := 5
def pt_count_not_a_type : PacketType := 6
def c_net_call_packet_header_size : Nat := 12
def c_invalid_packet_size : Nat := 2^32 - 1
def c_invalid_id : CallId := 0

/-- `MAssIpc_PacketParser::Header`. -/
structure Header where
  size : BitVec 32 := BitVec.ofNat 32 c_invalid_packet_size
  type : PacketType := pt_undefined
  id : CallId := c_invalid_id
deriving DecidableEq

/-- `ReadHeader`. The local `type_raw` is not initialised: its value is given. -/
def readHeader (type_raw : BitVec 32) : StateM DataStream Header := do
  let size ← readBytes 4 (BitVec.ofNat 32 c_invalid_packet_size)
  let type_raw ← readBytes 4 type_raw
  let id ← readBytes 4 c_invalid_id
  pure { size := size, type := type_raw, id := id }
/-- `PacketHeaderWrite`. -/
def packetHeaderWrite (no_header_size : Nat) (pt : PacketType) (id : CallId) : StateM DataStream Unit := do
  insertU32 no_header_size
  writeBytes true 4 pt
  writeBytes true 4 id
/-- The twelve bytes of a header. -/
def encodeHeader (no_header_size : Nat) (pt : PacketType) (id : CallId) : List Byte :=
  encodeU32 no_header_size ++ (bytesOf 4 (show BitVec (8*4) from pt) ++ bytesOf 4 (show BitVec (8*4) from id))

/-- A packet that was received, its header read. -/
structure CallDataBuffer where
  data : DataStream := {}
  header : Header := {}
/-- `ReceiveCallDataBuffer`. -/
def receiveCallDataBuffer (type_raw : BitVec 32) (packet : Data) : CallDataBuffer :=
  let header := readHeader type_raw (DataStream.ofRead packet)
  { data := header.2, header := header.1 }

/-- `MAssIpc_TransportShare::Create`. -/
structure TransportShare where
  create : Nat → Option Data
  create_size : ∀ {size : Nat} {data : Data}, create size = some data → data.size = size
/-- `MAssIpcData_Vector`; its bytes are not initialised and therefore given. -/
def dataVector (fresh : Nat → Byte) (size : BitVec 32) : Data where
  bytes := (List.range size.toNat).map fresh
  fits := by simpa using size.isLt
@[simp] theorem dataVector_size (fresh : Nat → Byte) (size : BitVec 32) : (dataVector fresh size).size = size.toNat := by
  simp [Data.size,dataVector]
/-- `TransportProxy::Create`. -/
def proxyTransport (fresh : Nat → Byte) : TransportShare where
  create size := if size < 2^32 then some (dataVector fresh (BitVec.ofNat 32 size)) else none
  create_size := by
    intro size data created
    split at created
    · rename_i small
      cases created
      rw [dataVector_size,BitVec.toNat_ofNat,Nat.mod_eq_of_lt small]
    · cases created
/-- `CreateDataBuffer`; `none` is a transport that is gone. -/
def createDataBuffer (weak_transport : Option TransportShare) (packet_size : Nat) : Option Data :=
  match weak_transport with
  | some transport => transport.create packet_size
  | none => none
/-- `CreateDataStream`; the assertion about a transport that is gone is the one
    of `CreateDataBuffer`. -/
def createDataStream (weak_transport : Option TransportShare) (no_header_size : Nat) (pt : PacketType)
    (respond_id : CallId) : DataStream :=
  if respond_id ≠ c_invalid_id then
    match createDataBuffer weak_transport ((c_net_call_packet_header_size + no_header_size) % 2^32) with
    | some data_buffer => (packetHeaderWrite no_header_size pt respond_id (DataStream.ofWrite data_buffer)).2
    | none => { raised := if weak_transport.isSome then 0 else 1 }
  else {}
/-- `CreateDataStreamInplace`, which writes `pt_call` whatever `pt` is. -/
def createDataStreamInplace (inplace_send_buffer : Data) (no_header_size : Nat) (respond_id : CallId) : DataStream :=
  let packet_size := (no_header_size + c_net_call_packet_header_size) % 2^32
  if inplace_send_buffer.size < packet_size then { raised := 1 }
  else (packetHeaderWrite no_header_size pt_call respond_id (DataStream.ofWrite inplace_send_buffer)).2

theorem proxyTransport_create (fresh : Nat → Byte) {size : Nat} (small : size < 2^32) :
    (proxyTransport fresh).create size = some (dataVector fresh (BitVec.ofNat 32 size)) :=
  if_pos small

@[simp] theorem encodeHeader_length (no_header_size : Nat) (pt : PacketType) (id : CallId) :
    (encodeHeader no_header_size pt id).length = 12 := by
  simp [encodeHeader]

theorem packetHeaderWrite_emits (no_header_size : Nat) (pt : PacketType) (id : CallId) :
    Emits (packetHeaderWrite no_header_size pt id) (encodeHeader no_header_size pt id) :=
  (insertU32_emits no_header_size).bind ((writeBytes_emits true 4 pt).bind (writeBytes_emits true 4 id))

theorem readHeader_decodes (type_raw : BitVec 32) (no_header_size : Nat) (pt : PacketType) (id : CallId) :
    Decodes (readHeader type_raw) (encodeHeader no_header_size pt id)
      { size := BitVec.ofNat 32 no_header_size, type := pt, id := id } :=
  (readBytes_decodes 4 _ (BitVec.ofNat (8*4) no_header_size)).bind
    ((readBytes_decodes 4 type_raw pt).bind ((readBytes_decodes 4 _ id).map fun id : BitVec (8*4) =>
      ({ size := BitVec.ofNat 32 no_header_size, type := pt, id := id } : Header)))

theorem receiveCallDataBuffer_reads (type_raw : BitVec 32) {packet : Data} {no_header_size : Nat} {pt : PacketType}
    {id : CallId} {body : List Byte} (bytes : packet.bytes = encodeHeader no_header_size pt id ++ body) :
    (receiveCallDataBuffer type_raw packet).header = { size := BitVec.ofNat 32 no_header_size, type := pt, id := id } ∧
      (receiveCallDataBuffer type_raw packet).data = (DataStream.ofRead packet).advance 12 ∧
      Reads (receiveCallDataBuffer type_raw packet).data body := by
  have reads := reads_ofRead packet
  rw [bytes] at reads
  have header := readHeader_decodes type_raw no_header_size pt id _ _ reads
  have behind := reads.advance
  rw [encodeHeader_length] at header behind
  unfold receiveCallDataBuffer
  rw [header]
  exact ⟨rfl,rfl,behind⟩

/-- A writer that fits behind the header leaves the header and what it emits at
    the beginning of the packet. -/
theorem packetHeaderWrite_then (pt : PacketType) (id : CallId) {buffer : Data} {writer : StateM DataStream Unit}
    {body : List Byte} (emits : Emits writer body) (large : 12 + body.length ≤ buffer.size) :
    ∃ packet,
      (writer (packetHeaderWrite body.length pt id (DataStream.ofWrite buffer)).2).2.m_write = some packet ∧
      packet.size = buffer.size ∧
      packet.bytes.take (12 + body.length) = encodeHeader body.length pt id ++ body ∧
      (writer (packetHeaderWrite body.length pt id (DataStream.ofWrite buffer)).2).2.raised = 0 := by
  have whole : (encodeHeader body.length pt id ++ body).length = 12 + body.length := by simp
  have inside : (encodeHeader body.length pt id ++ body).length ≤ buffer.size := whole ▸ large
  have room : Room (DataStream.ofWrite buffer) (encodeHeader body.length pt id ++ body).length := room_ofWrite inside
  have header := packetHeaderWrite_emits body.length pt id _ (room_left room)
  rw [header,emits _ (room_right room),← emit_append room]
  refine ⟨buffer.store 0 (encodeHeader body.length pt id ++ body),rfl,Data.store_size ..,?_,rfl⟩
  have stored := ofWrite_emit_take inside
  have bound : buffer.size < 2^32 := buffer.fits
  have position : ((DataStream.ofWrite buffer).emit (encodeHeader body.length pt id ++ body)).m_write_pos =
      12 + body.length := by
    simp only [DataStream.emit,DataStream.ofWrite,whole]
    omega
  rwa [position] at stored

/-- A writer that fits behind the header fills the new packet exactly, and the
    packet is the header and what the writer emits. -/
theorem createDataStream_filled (pt : PacketType) {transport : TransportShare} {buffer : Data} {no_header_size : Nat}
    {id : CallId} {writer : StateM DataStream Unit} {body : List Byte} (emits : Emits writer body)
    (measured : no_header_size = body.length) (total : 12 + body.length < 2^32) (nonzero : id ≠ c_invalid_id)
    (created : transport.create (12 + body.length) = some buffer) :
    ∃ packet, (writer (createDataStream (some transport) no_header_size pt id)).2.m_write = some packet ∧
      packet.bytes = encodeHeader body.length pt id ++ body ∧
      (writer (createDataStream (some transport) no_header_size pt id)).2.raised = 0 := by
  subst measured
  have size : (c_net_call_packet_header_size + body.length) % 2^32 = 12 + body.length := Nat.mod_eq_of_lt total
  have allocated := transport.create_size created
  have stream : createDataStream (some transport) body.length pt id =
      (packetHeaderWrite body.length pt id (DataStream.ofWrite buffer)).2 := by
    simp only [createDataStream,if_pos nonzero,createDataBuffer,size,created]
  obtain ⟨packet,written,packet_size,bytes,quiet⟩ := packetHeaderWrite_then pt id emits (Nat.le_of_eq allocated.symm)
  rw [stream]
  refine ⟨packet,written,?_,quiet⟩
  rwa [← allocated,← packet_size,Data.size,List.take_length] at bytes

/-- In a buffer that is given and large enough, the packet is followed by what
    was in the buffer. -/
theorem createDataStreamInplace_filled (id : CallId) {buffer : Data} {no_header_size : Nat}
    {writer : StateM DataStream Unit} {body : List Byte} (emits : Emits writer body)
    (measured : no_header_size = body.length) (large : 12 + body.length ≤ buffer.size) :
    ∃ packet tail, (writer (createDataStreamInplace buffer no_header_size id)).2.m_write = some packet ∧
      packet.size = buffer.size ∧ packet.bytes = encodeHeader body.length pt_call id ++ body ++ tail ∧
      (writer (createDataStreamInplace buffer no_header_size id)).2.raised = 0 := by
  subst measured
  have bound : buffer.size < 2^32 := buffer.fits
  have size : (body.length + c_net_call_packet_header_size) % 2^32 = 12 + body.length := by
    rw [Nat.add_comm]
    exact Nat.mod_eq_of_lt (Nat.lt_of_le_of_lt large bound)
  have stream : createDataStreamInplace buffer body.length id =
      (packetHeaderWrite body.length pt_call id (DataStream.ofWrite buffer)).2 := by
    simp only [createDataStreamInplace,size,if_neg (Nat.not_lt.mpr large)]
  obtain ⟨packet,written,packet_size,bytes,quiet⟩ := packetHeaderWrite_then pt_call id emits large
  rw [stream]
  refine ⟨packet,packet.bytes.drop (12 + body.length),written,packet_size,?_,quiet⟩
  rw [← bytes,List.take_append_drop]

/-- Without storage a writer measures its own output. -/
theorem measured_size {writer : StateM DataStream Unit} {body : List Byte} (emits : Emits writer body)
    (small : body.length < 2^32) : (writer {}).2.m_write_pos = body.length := by
  rw [emits {} (room_measure small)]
  exact (congrArg (· % 2^32) (Nat.zero_add _)).trans (Nat.mod_eq_of_lt small)

end IpcPortable.Packets
