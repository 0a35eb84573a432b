import IpcPortable.Endpoints

/-!
Packets shorter than a header. The three reads of the header fail one by one,
depending on how many bytes there are. The size and the id keep their defaults,
which mean no packet, but the type keeps what was in memory, and a type that was
read is believed without an id (`short_ignored`).
-/
namespace IpcPortable.ShortPackets
open IpcPortable.LittleEndian IpcPortable.DataStream IpcPortable.Packets IpcPortable.Pending IpcPortable.Endpoints
variable {Tid κ : Type}

/-- The bytes of the packet at the place of the type. -/
def typeField (packet : Data) : PacketType := ofBytes (8*4) ((packet.bytes.drop 4).take 4)

theorem readBytes_missing {s : DataStream} {bs : List Byte} (reads : Reads s bs) {n : Nat} (missing : bs.length < n)
    (t : BitVec (8*n)) : readBytes n t s = (t,s.raise) := by
  rw [reads.readBytes,if_neg (by omega)]

theorem readBytes_there {s : DataStream} {bs : List Byte} (reads : Reads s bs) {n : Nat} (there : n ≤ bs.length)
    (t : BitVec (8*n)) : readBytes n t s = (ofBytes (8*n) (bs.take n),s.advance n) := by
  rw [reads.readBytes,if_pos there]

/-- Three reads of four bytes each, one after the other, from less than twelve bytes. -/
theorem short_reads {s : DataStream} {bs : List Byte} (reads : Reads s bs) (short : bs.length < 12)
    (size type id : BitVec (8*4)) :
    (readBytes 4 size s).1 = (if 4 ≤ bs.length then ofBytes (8*4) (bs.take 4) else size) ∧
      (readBytes 4 type (readBytes 4 size s).2).1 =
        (if 8 ≤ bs.length then ofBytes (8*4) ((bs.drop 4).take 4) else type) ∧
      (readBytes 4 id (readBytes 4 type (readBytes 4 size s).2).2).1 = id := by
  have left : (bs.drop 4).length = bs.length - 4 := List.length_drop
  by_cases sized : 4 ≤ bs.length
  · have behind : Reads (s.advance 4) (bs.drop 4) := reads.drop sized
    rw [if_pos sized,readBytes_there reads sized]
    by_cases typed : 8 ≤ bs.length
    · have further := behind.drop (n := 4) (by omega)
      rw [if_pos typed,readBytes_there behind (by omega),
        readBytes_missing further (by rw [List.length_drop]; omega)]
      exact ⟨rfl,rfl,rfl⟩
    · rw [if_neg typed,readBytes_missing behind (by omega),readBytes_missing behind.raise (by omega)]
      exact ⟨rfl,rfl,rfl⟩
  · rw [if_neg sized,if_neg (by omega),readBytes_missing reads (by omega),readBytes_missing reads.raise (by omega),
      readBytes_missing reads.raise.raise (by omega)]
    exact ⟨rfl,rfl,rfl⟩

theorem readHeader_parts (type_raw : BitVec 32) (s : DataStream) :
    ∃ behind, readHeader type_raw s =
      ({ size := (readBytes 4 (BitVec.ofNat 32 c_invalid_packet_size) s).1
         type := (readBytes 4 type_raw (readBytes 4 (BitVec.ofNat 32 c_invalid_packet_size) s).2).1
         id := (readBytes 4 c_invalid_id
           (readBytes 4 type_raw (readBytes 4 (BitVec.ofNat 32 c_invalid_packet_size) s).2).2).1 },behind) := by
  unfold readHeader
  rw [run_bind,run_bind,run_bind,run_pure]
  exact ⟨_,rfl⟩

/-- The header of a short packet, by the number of its bytes. -/
theorem short_header (type_raw : BitVec 32) {packet : Data} (short : packet.size < 12) :
    (receiveCallDataBuffer type_raw packet).header =
      { size := if 4 ≤ packet.size then ofBytes (8*4) (packet.bytes.take 4) else BitVec.ofNat 32 c_invalid_packet_size
        type := if 8 ≤ packet.size then typeField packet else type_raw
        id := c_invalid_id } := by
  obtain ⟨size,type,id⟩ := short_reads (reads_ofRead packet) short (BitVec.ofNat 32 c_invalid_packet_size) type_raw c_invalid_id
  obtain ⟨behind,parts⟩ := readHeader_parts type_raw (DataStream.ofRead packet)
  rw [size,type,id] at parts
  unfold receiveCallDataBuffer
  rw [parts]
  rfl

theorem short_type (type_raw : BitVec 32) {packet : Data} (short : packet.size < 12) :
    (receiveCallDataBuffer type_raw packet).header.type = if 8 ≤ packet.size then typeField packet else type_raw := by
  rw [short_header type_raw short]

theorem short_id (type_raw : BitVec 32) {packet : Data} (short : packet.size < 12) :
    (receiveCallDataBuffer type_raw packet).header.id = c_invalid_id := by
  rw [short_header type_raw short]

/-- The packet is ignored by the activation that read it: its header does not
    depend on a variable that is not initialised, nothing is stored for it, and
    nothing is passed to `ProcessBuffer`. -/
structure Ignored (frame : Activation κ) (p : PendingResponces Tid) (packet : Data) : Prop where
  determined : ∀ type_raw other : BitVec 32,
    (receiveCallDataBuffer type_raw packet).header = (receiveCallDataBuffer other packet).header
  calls : ∀ (type_raw : BitVec 32) (transport_ok : Bool),
    (frame.writeBuffer p transport_ok (receiveCallDataBuffer type_raw packet)).pending.m_data_incoming_call =
      p.m_data_incoming_call
  replies : ∀ (type_raw : BitVec 32) (transport_ok : Bool),
    (frame.writeBuffer p transport_ok (receiveCallDataBuffer type_raw packet)).pending.m_id_data_return =
      p.m_id_data_return
  undispatched : ∀ (type_raw : BitVec 32) (transport_ok : Bool) (buffer : CallDataBuffer),
    Event.passed buffer ∉ (frame.writeBuffer p transport_ok (receiveCallDataBuffer type_raw packet)).events

/-- A type is read and means no packet, or a reply whose place under the invalid id is taken. -/
def Harmless (p : PendingResponces Tid) (packet : Data) : Prop :=
  8 ≤ packet.size ∧ (typeField packet = pt_undefined ∨
    pt_call < typeField packet ∧ p.m_id_data_return c_invalid_id ≠ none)

theorem writeBuffer_pending (frame : Activation κ) (p : PendingResponces Tid) (transport_ok : Bool)
    (buffer : CallDataBuffer) :
    (frame.writeBuffer p transport_ok buffer).pending =
      (Pending.writeBuffer p frame.operation.processIncomingCalls buffer).1 := by
  unfold Activation.writeBuffer
  dsimp only
  split
  · rfl
  · split <;> rfl

theorem writeBuffer_passes (frame : Activation κ) (p : PendingResponces Tid) (transport_ok : Bool)
    (buffer passed : CallDataBuffer) : Event.passed passed ∉ (frame.writeBuffer p transport_ok buffer).events := by
  unfold Activation.writeBuffer Activation.leave
  dsimp only
  split
  · simp
  · split <;> simp

/-- Nothing is stored for a buffer exactly when it is no packet, or a reply
    whose place is taken. -/
theorem stores_nothing (p : PendingResponces Tid) (process_incoming_calls : Bool) (buffer : CallDataBuffer) :
    ((Pending.writeBuffer p process_incoming_calls buffer).1.m_data_incoming_call = p.m_data_incoming_call ∧
        (Pending.writeBuffer p process_incoming_calls buffer).1.m_id_data_return = p.m_id_data_return) ↔
      ¬ Incoming buffer ∧ (Reply buffer → p.m_id_data_return buffer.header.id ≠ none) := by
  rw [writeBuffer_calls,writeBuffer_replies]
  constructor
  · rintro ⟨queue,map⟩
    refine ⟨fun incoming => ?_,fun reply absent => ?_⟩
    · simp [incoming] at queue
    · rw [if_pos ⟨reply,absent⟩] at map
      have here := congrFun map buffer.header.id
      rw [Function.update_self,absent] at here
      cases here
  · rintro ⟨other,taken⟩
    refine ⟨by simp [other],if_neg ?_⟩
    rintro ⟨reply,absent⟩
    exact taken reply absent

theorem harmless_type (buffer : CallDataBuffer) (taken : Prop) :
    (¬ Incoming buffer ∧ (Reply buffer → taken)) ↔
      (buffer.header.type = pt_undefined ∨ pt_call < buffer.header.type ∧ taken) := by
  have calls := incoming_iff buffer
  by_cases undefined : buffer.header.type = pt_undefined
  · refine ⟨fun _ => .inl undefined,fun _ => ⟨fun incoming => incoming.defined undefined,fun reply => ?_⟩⟩
    exact absurd undefined reply.defined
  · by_cases reply : Reply buffer
    · refine ⟨fun ignored => .inr ⟨reply,ignored.2 reply⟩,?_⟩
      rintro (none | ⟨_,holds⟩)
      · exact absurd none undefined
      · exact ⟨reply.not_incoming,fun _ => holds⟩
    · have incoming : Incoming buffer := calls.mpr ⟨undefined,BitVec.not_lt.mp reply⟩
      refine ⟨fun ignored => absurd incoming ignored.1,?_⟩
      rintro (none | ⟨above,_⟩)
      · exact absurd none undefined
      · exact absurd above reply

/-- A packet shorter than a header is ignored exactly when its type is there
    and harmless. -/
theorem short_ignored (frame : Activation κ) (p : PendingResponces Tid) (packet : Data) (short : packet.size < 12) :
    Ignored frame p packet ↔ Harmless p packet := by
  constructor
  · intro ignored
    have typed : 8 ≤ packet.size := by
      by_contra missing
      have same := congrArg Header.type (ignored.determined 0 1)
      rw [short_type 0 short,short_type 1 short,if_neg missing,if_neg missing] at same
      exact absurd same (by decide)
    have stored := (stores_nothing p frame.operation.processIncomingCalls (receiveCallDataBuffer 0 packet)).mp
      ⟨writeBuffer_pending frame p true _ ▸ ignored.calls 0 true,writeBuffer_pending frame p true _ ▸ ignored.replies 0 true⟩
    rw [harmless_type,short_type 0 short,if_pos typed,short_id 0 short] at stored
    exact ⟨typed,stored⟩
  · rintro ⟨typed,harmless⟩
    have stored (type_raw : BitVec 32) := (stores_nothing p frame.operation.processIncomingCalls
      (receiveCallDataBuffer type_raw packet)).mpr (by
        rw [harmless_type,short_type type_raw short,if_pos typed,short_id type_raw short]
        exact harmless)
    refine ⟨?_,?_,?_,?_⟩
    · intro type_raw other
      rw [short_header type_raw short,short_header other short,if_pos typed,if_pos typed]
    · intro type_raw transport_ok
      rw [writeBuffer_pending]
      exact (stored type_raw).1
    · intro type_raw transport_ok
      rw [writeBuffer_pending]
      exact (stored type_raw).2
    · intro type_raw transport_ok buffer
      exact writeBuffer_passes frame p transport_ok _ buffer

theorem eight_small (bs : List Byte) (eight : bs.length = 8) : bs.length < 2^32 := by omega
/-- A size and a type, without an id. -/
def eightBytes (type : Byte) : Data := ⟨[0,0,0,0,type,0,0,0],eight_small _ rfl⟩
/-- A thread that polls. -/
def polling : Activation Unit := enter .processTransport
def emptyPending : PendingResponces Unit := {}

theorem short_ignored_undefined : (eightBytes 0).size < 12 ∧ Ignored polling emptyPending (eightBytes 0) :=
  ⟨by decide,(short_ignored polling emptyPending (eightBytes 0) (by decide)).mpr ⟨by decide,.inl (by decide +kernel)⟩⟩

/-- Eight bytes with the type of a call go to the queue of the calls. -/
theorem short_call_stored : ¬ Ignored polling emptyPending (eightBytes 2) := by
  intro ignored
  have incoming : Incoming (receiveCallDataBuffer 0 (eightBytes 2)) := by decide +kernel
  have stored := (stores_nothing emptyPending true (receiveCallDataBuffer 0 (eightBytes 2))).mp
    ⟨writeBuffer_pending polling emptyPending true _ ▸ ignored.calls 0 true,
      writeBuffer_pending polling emptyPending true _ ▸ ignored.replies 0 true⟩
  exact stored.1 incoming

end IpcPortable.ShortPackets
