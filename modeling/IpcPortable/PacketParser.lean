import IpcPortable.Packets
import IpcPortable.Frames

/-!
`MAssIpc_PacketParser`: cuts the bytes that a `MAssIpc_TransportCopy` hands
over into packets. Its state survives from call to call: the header or the
packet that is being received, and how much of it is missing.

The bytes that were handed over so far are always the packets that were
delivered and the incomplete one (`Between`), until a header arrives whose
size does not fit a packet (`Broken`).
-/
namespace IpcPortable.PacketParser
open IpcPortable.LittleEndian IpcPortable.Regions IpcPortable.Frames IpcPortable.DataStream IpcPortable.Packets
variable {σ : Type}

/-- `MAssIpc_TransportCopy` as the framer uses it. Polling may find that more
    has arrived; `Read` stores what it was asked for, or fails on the way. -/
structure TransportCopy (σ : Type) where
  readBytesAvailable : σ → Nat × σ
  read : σ → Nat → Bool × List Byte × σ
  read_le : ∀ in_data size, (read in_data size).2.1.length ≤ size
  read_ok : ∀ in_data size, (read in_data size).1 = true → (read in_data size).2.1.length = size

structure ReadState where
  data_size : Nat := c_invalid_packet_size
  need_size : Nat := c_net_call_packet_header_size
  raw_header_buffer : Data := ⟨List.replicate 12 0,by decide⟩

/-- What the framer does to memory. -/
inductive Access
  /-- `length` bytes stored at `position` into an array of `capacity` bytes. -/
  | write (capacity position length : Nat)
  /-- A packet buffer of `size` bytes for a header that declares `declared`. -/
  | allocate (declared size : Nat)
  /-- `Data()` of a missing packet buffer. -/
  | nullData
deriving DecidableEq
/-- The access stays inside its target, and the buffer holds the header and
    the declared body, whose size is not the one that means no header. -/
def Access.Safe : Access → Prop
  | .write capacity position length => position + length ≤ capacity
  | .allocate declared size => size = 12 + declared ∧ declared ≠ c_invalid_packet_size
  | .nullData => False
instance : (access : Access) → Decidable access.Safe
  | .write capacity position length => inferInstanceAs (Decidable (position + length ≤ capacity))
  | .allocate declared size => inferInstanceAs (Decidable (size = 12 + declared ∧ declared ≠ c_invalid_packet_size))
  | .nullData => inferInstanceAs (Decidable False)

/-- The members of the parser, its transport, and what is observed of a run:
    the bytes handed over, the accesses to memory and the assertions raised. -/
structure Receiver (σ : Type) where
  m_incoming_packet : ReadState := {}
  m_incoming_packet_header_data : Option Data := none
  in_data : σ
  received : List Byte := []
  accesses : List Access := []
  raised : Nat := 0
/-- A parser that read nothing yet. -/
def Receiver.start (in_data : σ) : Receiver σ := { in_data }

inductive ReadDataStatus
  | available
  | nodata
  | failed
deriving DecidableEq

/-- `ReadDataIsAvailable`, which reads into `buffer` from the position `base` on. -/
def readDataIsAvailable (t : TransportCopy σ) (buffer : Data) (base incoming_packet_data_size : Nat) (s : Receiver σ) :
    ReadDataStatus × Data × Receiver σ :=
  let polled := t.readBytesAvailable s.in_data
  let s := { s with in_data := polled.2 }
  if polled.1 > 0 then
    let read_size := min s.m_incoming_packet.need_size polled.1
    if read_size ≠ 0 then
      let read_offset := (incoming_packet_data_size + 2^32 - s.m_incoming_packet.need_size) % 2^32
      let read := t.read s.in_data read_size
      let buffer' := buffer.store (base + read_offset) read.2.1
      let s := { s with
        in_data := read.2.2
        accesses := s.accesses ++ [.write buffer.size (base + read_offset) read_size] }
      if read.1 then
        (.available,buffer',{ s with
          received := s.received ++ read.2.1
          m_incoming_packet.need_size := s.m_incoming_packet.need_size - read_size })
      else (.failed,buffer',s)
    else (.available,buffer,s)
  else (.nodata,buffer,s)
/-- `ReceiveReadHeader`; the new buffer is not initialised, its bytes are given. -/
def receiveReadHeader (fresh : Nat → Byte) (s : Receiver σ) : Receiver σ :=
  let data_size := (readUnsafe 4 s.m_incoming_packet.raw_header_buffer.bytes).toNat
  let size := BitVec.ofNat 32 (c_net_call_packet_header_size + data_size)
  { s with
    m_incoming_packet.data_size := data_size
    m_incoming_packet.need_size := data_size
    m_incoming_packet_header_data := some ((dataVector fresh size).store 0 s.m_incoming_packet.raw_header_buffer.bytes)
    accesses := s.accesses ++ [.allocate data_size size.toNat,.write size.toNat 0 s.m_incoming_packet.raw_header_buffer.size] }
/-- The first part of `ReadNeededDataSize`; `false` is the return after a failure. -/
def receiveHeader (t : TransportCopy σ) (fresh : Nat → Byte) (s : Receiver σ) : Bool × Receiver σ :=
  if s.m_incoming_packet.data_size = c_invalid_packet_size then
    match readDataIsAvailable t s.m_incoming_packet.raw_header_buffer 0 c_net_call_packet_header_size s with
    | (status,buffer,s) =>
      let s := { s with m_incoming_packet.raw_header_buffer := buffer }
      match status with
      | .failed => (false,{ s with raised := s.raised + 1 })
      | .available => (true,if s.m_incoming_packet.need_size = 0 then receiveReadHeader fresh s else s)
      | .nodata => (true,s)
  else (true,s)
/-- The second part of `ReadNeededDataSize`. -/
def receiveBody (t : TransportCopy σ) (s : Receiver σ) : (Nat × Option Data) × Receiver σ :=
  if s.m_incoming_packet.data_size ≠ c_invalid_packet_size then
    match s.m_incoming_packet_header_data with
    | some data =>
      match readDataIsAvailable t data c_net_call_packet_header_size s.m_incoming_packet.data_size s with
      | (status,data,s) =>
        let s := { s with m_incoming_packet_header_data := some data }
        if status = .failed then ((c_invalid_packet_size,none),{ s with raised := s.raised + 1 })
        else if s.m_incoming_packet.need_size = 0 then
          ((({} : ReadState).need_size,some data),{ s with
            m_incoming_packet := {}
            m_incoming_packet_header_data := none })
        else ((s.m_incoming_packet.need_size,none),s)
    | none => ((s.m_incoming_packet.need_size,none),{ s with accesses := s.accesses ++ [.nullData] })
  else ((s.m_incoming_packet.need_size,none),s)
/-- `ReadNeededDataSize`: the size it answers and the packet it delivers. -/
def readNeededDataSize (t : TransportCopy σ) (fresh : Nat → Byte) (s : Receiver σ) :
    (Nat × Option Data) × Receiver σ :=
  match receiveHeader t fresh s with
  | (false,s) => ((c_invalid_packet_size,none),s)
  | (true,s) => receiveBody t s
/-- The answers of `n` calls, one after the other. -/
def calls (t : TransportCopy σ) (fresh : Nat → Byte) : Nat → Receiver σ → List (Nat × Option Data) × Receiver σ
  | 0, s => ([],s)
  | n+1, s =>
    let before := calls t fresh n s
    let call := readNeededDataSize t fresh before.2
    (before.1 ++ [call.1],call.2)
/-- The packets among the answers. -/
def delivered (answers : List (Nat × Option Data)) : List (List Byte) :=
  answers.filterMap fun answer => answer.2.map Data.bytes

/-! ### What one read does -/

/-- The header is twelve bytes, the first four of which are the size of the body. -/
def packetFraming : Framing Byte where
  header := c_net_call_packet_header_size
  header_pos := by decide
  declared header := (ofBytes (8*4) (header.take 4)).toNat
/-- One packet: a header that declares the size of its body, and the body. -/
structure Packet (packet : List Byte) : Prop where
  frame : packetFraming.Frame packet
  small : packet.length < 2^32
instance (packet : List Byte) : Decidable (Packet packet) :=
  decidable_of_iff (12 ≤ packet.length ∧ packet.length = packetFraming.size packet ∧ packet.length < 2^32)
    ⟨fun h => ⟨⟨h.1,h.2.1⟩,h.2.2⟩,fun h => ⟨h.frame.header,h.frame.length,h.small⟩⟩

/-- The size that a header declares. -/
theorem size_header {packet : List Byte} {no_header_size : Nat} {pt : PacketType} {id : CallId}
    (small : no_header_size < 2^32) (header : packet.take 12 = encodeHeader no_header_size pt id) :
    packetFraming.size packet = 12 + no_header_size := by
  have declared : (encodeHeader no_header_size pt id).take 4 = bytesOf 4 (BitVec.ofNat (8*4) no_header_size) :=
    List.take_left' (bytesOf_length 4 _)
  calc packetFraming.size packet
      = 12 + (ofBytes (8*4) ((packet.take 12).take 4)).toNat := rfl
    _ = 12 + (BitVec.ofNat (8*4) no_header_size).toNat := by rw [header,declared,ofBytes_bytesOf]
    _ = 12 + no_header_size := by
      rw [BitVec.toNat_ofNat]
      exact congrArg (12 + ·) (Nat.mod_eq_of_lt small)

/-- `s'` comes after `s` in a run. -/
structure Grows (s s' : Receiver σ) : Prop where
  received : s.received <+: s'.received
  accesses : s.accesses <+: s'.accesses

theorem Grows.refl (s : Receiver σ) : Grows s s := ⟨List.prefix_rfl,List.prefix_rfl⟩
theorem Grows.trans {a b c : Receiver σ} (first : Grows a b) (second : Grows b c) : Grows a c :=
  ⟨first.received.trans second.received,first.accesses.trans second.accesses⟩

theorem readDataIsAvailable_grows (t : TransportCopy σ) (buffer : Data) (base size : Nat) (s : Receiver σ) :
    Grows s (readDataIsAvailable t buffer base size s).2.2 := by
  unfold readDataIsAvailable
  dsimp only
  split
  · split
    · split
      · exact ⟨List.prefix_append _ _,List.prefix_append _ _⟩
      · exact ⟨List.prefix_rfl,List.prefix_append _ _⟩
    · exact ⟨List.prefix_rfl,List.prefix_rfl⟩
  · exact ⟨List.prefix_rfl,List.prefix_rfl⟩

theorem receiveBody_grows (t : TransportCopy σ) (s : Receiver σ) : Grows s (receiveBody t s).2 := by
  unfold receiveBody
  split
  · split
    · rename_i data _
      have grows := readDataIsAvailable_grows t data c_net_call_packet_header_size s.m_incoming_packet.data_size s
      dsimp only
      split
      · exact ⟨grows.received,grows.accesses⟩
      · split
        · exact ⟨grows.received,grows.accesses⟩
        · exact ⟨grows.received,grows.accesses⟩
    · exact ⟨List.prefix_rfl,List.prefix_append _ _⟩
  · exact Grows.refl s

theorem receiveHeader_grows (t : TransportCopy σ) (fresh : Nat → Byte) (s : Receiver σ) :
    Grows s (receiveHeader t fresh s).2 := by
  unfold receiveHeader
  split
  · have grows := readDataIsAvailable_grows t s.m_incoming_packet.raw_header_buffer 0 c_net_call_packet_header_size s
    dsimp only
    split
    · exact ⟨grows.received,grows.accesses⟩
    · dsimp only
      split
      · exact ⟨grows.received,grows.accesses.trans (List.prefix_append _ _)⟩
      · exact ⟨grows.received,grows.accesses⟩
    · exact ⟨grows.received,grows.accesses⟩
  · exact Grows.refl s

theorem readNeededDataSize_grows (t : TransportCopy σ) (fresh : Nat → Byte) (s : Receiver σ) :
    Grows s (readNeededDataSize t fresh s).2 := by
  have grows := receiveHeader_grows t fresh s
  unfold readNeededDataSize
  split
  · rename_i s' failed
    rwa [failed] at grows
  · rename_i s' received
    rw [received] at grows
    exact grows.trans (receiveBody_grows t s')

/-- What a read into a buffer that is being filled leaves: the bytes `bs` went
    behind the bytes `held`, without leaving the buffer. -/
structure Took (buffer : Data) (held : List Byte) (s : Receiver σ) (bs : List Byte) (buffer' : Data)
    (s' : Receiver σ) : Prop where
  size : buffer'.size = buffer.size
  filling : Filling buffer'.bytes (held ++ bs) s'.m_incoming_packet.need_size
  received : s'.received = s.received ++ bs
  data_size : s'.m_incoming_packet.data_size = s.m_incoming_packet.data_size
  header_data : s'.m_incoming_packet_header_data = s.m_incoming_packet_header_data
  raw_header_buffer : s'.m_incoming_packet.raw_header_buffer = s.m_incoming_packet.raw_header_buffer
  safe : (∀ access ∈ s.accesses, access.Safe) → ∀ access ∈ s'.accesses, access.Safe

theorem readDataIsAvailable_took (t : TransportCopy σ) (base size : Nat) {buffer : Data} {s : Receiver σ}
    {held : List Byte} (filling : Filling buffer.bytes held s.m_incoming_packet.need_size)
    (whole : buffer.size = base + size) (begun : base ≤ held.length) :
    ∃ bs, Took buffer held s bs (readDataIsAvailable t buffer base size s).2.1 (readDataIsAvailable t buffer base size s).2.2 ∧
      ((readDataIsAvailable t buffer base size s).1 = .nodata → bs = []) ∧
      ((readDataIsAvailable t buffer base size s).1 = .failed →
        0 < (readDataIsAvailable t buffer base size s).2.2.m_incoming_packet.need_size) := by
  have stay : Took buffer held s [] buffer { s with in_data := (t.readBytesAvailable s.in_data).2 } := by
    refine ⟨rfl,?_,?_,rfl,rfl,rfl,fun safe => safe⟩
    · rw [List.append_nil]
      exact filling
    · exact (List.append_nil s.received).symm
  have length : buffer.bytes.length = held.length + s.m_incoming_packet.need_size := filling.size
  have whole' : buffer.bytes.length = base + size := whole
  have bound := buffer.fits
  unfold readDataIsAvailable
  dsimp only
  split
  · split
    · rename_i asked
      have read_le := t.read_le (t.readBytesAvailable s.in_data).2
        (min s.m_incoming_packet.need_size (t.readBytesAvailable s.in_data).1)
      have read_ok := t.read_ok (t.readBytesAvailable s.in_data).2
        (min s.m_incoming_packet.need_size (t.readBytesAvailable s.in_data).1)
      -- the offset counted back from the end is the number of bytes that are there
      have position : base + (size + 2^32 - s.m_incoming_packet.need_size) % 2^32 = held.length := by omega
      have safe : (∀ access ∈ s.accesses, access.Safe) → ∀ access ∈ s.accesses ++
          [.write buffer.size (base + (size + 2^32 - s.m_incoming_packet.need_size) % 2^32)
            (min s.m_incoming_packet.need_size (t.readBytesAvailable s.in_data).1)], access.Safe := by
        intro before access member
        rcases List.mem_append.mp member with old | new
        · exact before access old
        · rw [List.mem_singleton.mp new,position]
          show held.length + min _ _ ≤ buffer.bytes.length
          omega
      split
      · rename_i ok
        refine ⟨_,⟨Data.store_size _ _ _,?_,rfl,rfl,rfl,rfl,safe⟩,fun nodata => (by cases nodata),fun failed => (by cases failed)⟩
        rw [position]
        have filled := filling.store (Nat.le_trans read_le (Nat.min_le_left _ _))
        rwa [read_ok ok] at filled
      · refine ⟨[],⟨Data.store_size _ _ _,?_,(List.append_nil _).symm,rfl,rfl,rfl,safe⟩,fun _ => rfl,
          fun _ => by dsimp only; omega⟩
        rw [position,List.append_nil]
        exact filling.scratch (by omega)
    · exact ⟨[],stay,fun _ => rfl,fun failed => by cases failed⟩
  · exact ⟨[],stay,fun _ => rfl,fun failed => by cases failed⟩

/-! ### One call -/

/-- The framer waits for the rest of a header. -/
structure AtHeader (s : Receiver σ) (held : List Byte) : Prop where
  waiting : s.m_incoming_packet.data_size = c_invalid_packet_size
  nothing : s.m_incoming_packet_header_data = none
  size : s.m_incoming_packet.raw_header_buffer.size = 12
  filling : Filling s.m_incoming_packet.raw_header_buffer.bytes held s.m_incoming_packet.need_size
/-- The framer has a header and a buffer for the packet. -/
structure AtBody (s : Receiver σ) (held : List Byte) (data : Data) : Prop where
  buffer : s.m_incoming_packet_header_data = some data
  size : data.size = 12 + s.m_incoming_packet.data_size
  filling : Filling data.bytes held s.m_incoming_packet.need_size
  header : 12 ≤ held.length
  declared : packetFraming.size held = 12 + s.m_incoming_packet.data_size

/-- All that was handed over are the packets delivered and, of the next one,
    the bytes `held`; every access to memory was safe. -/
structure Held (s : Receiver σ) (before : List (List Byte)) (held : List Byte) : Prop where
  received : s.received = before.flatten ++ held
  packets : ∀ packet ∈ before, Packet packet
  safe : ∀ access ∈ s.accesses, access.Safe
  stage : (AtHeader s held ∧ held.length < 12) ∨ ∃ data, AtBody s held data
/-- The same between two calls, when the packet is never complete. -/
structure Between (s : Receiver σ) (before : List (List Byte)) (held : List Byte) : Prop extends
  Held s before held where
  pending : 0 < s.m_incoming_packet.need_size
/-- A header arrived that declares more than fits into a packet, and memory was
    accessed outside the buffers. -/
structure Broken (s : Receiver σ) : Prop where
  oversize : ∃ (packets : List (List Byte)) (rest : List Byte), s.received = packets.flatten ++ rest ∧ (∀ packet ∈ packets, Packet packet) ∧
    12 ≤ rest.length ∧ 2^32 ≤ packetFraming.size rest
  unsafe_access : ∃ access ∈ s.accesses, ¬ access.Safe

theorem Broken.grows {s s' : Receiver σ} (broken : Broken s) (grows : Grows s s') : Broken s' := by
  obtain ⟨packets,rest,received,framed,header,large⟩ := broken.oversize
  obtain ⟨more,received'⟩ := grows.received
  obtain ⟨access,member,outside⟩ := broken.unsafe_access
  refine ⟨⟨packets,rest ++ more,?_,framed,by simp; omega,?_⟩,access,grows.accesses.subset member,outside⟩
  · rw [← received',received,List.append_assoc]
  · rwa [size_append header more]

theorem AtHeader.length {s : Receiver σ} {held : List Byte} (at_header : AtHeader s held) :
    held.length + s.m_incoming_packet.need_size = 12 := by
  rw [← at_header.filling.size]
  exact at_header.size

theorem AtBody.length {s : Receiver σ} {held : List Byte} {data : Data} (at_body : AtBody s held data) :
    held.length + s.m_incoming_packet.need_size = packetFraming.size held := by
  rw [← at_body.filling.size,at_body.declared]
  exact at_body.size

/-- A complete header either gets a buffer of exactly the size of its packet,
    or the copy of the header already leaves the buffer. -/
theorem receiveReadHeader_stage (fresh : Nat → Byte) {s : Receiver σ} {held : List Byte}
    (at_header : AtHeader s held) (complete : s.m_incoming_packet.need_size = 0)
    (safe : ∀ access ∈ s.accesses, access.Safe) :
    ((∀ access ∈ (receiveReadHeader fresh s).accesses, access.Safe) ∧
      ∃ data, AtBody (receiveReadHeader fresh s) held data) ∨
    (2^32 ≤ packetFraming.size held ∧ ∃ access ∈ (receiveReadHeader fresh s).accesses, ¬ access.Safe) := by
  have length := at_header.length
  have header : s.m_incoming_packet.raw_header_buffer.bytes = held := by
    have filling := at_header.filling
    rw [complete] at filling
    exact filling.full
  have twelve : held.length = 12 := by omega
  have size : (readUnsafe 4 s.m_incoming_packet.raw_header_buffer.bytes).toNat + 12 = packetFraming.size held := by
    rw [header,readUnsafe_ofBytes 4 held (by omega),Nat.add_comm,Framing.size,
      List.take_of_length_le (show held.length ≤ packetFraming.header from Nat.le_of_eq twelve)]
    rfl
  have raw := at_header.size
  unfold receiveReadHeader
  generalize (readUnsafe 4 s.m_incoming_packet.raw_header_buffer.bytes).toNat = declared at size ⊢
  have allocated : (BitVec.ofNat 32 (c_net_call_packet_header_size + declared)).toNat = (12 + declared) % 2^32 :=
    BitVec.toNat_ofNat _ _
  simp only [allocated,header,List.mem_append,List.mem_cons,List.not_mem_nil,or_false]
  by_cases fits : packetFraming.size held < 2^32
  · have whole : (12 + declared) % 2^32 = 12 + declared := Nat.mod_eq_of_lt (by omega)
    rw [whole]
    refine .inl ⟨?_,_,rfl,?_,?_,by omega,size.symm.trans (Nat.add_comm _ _)⟩
    · rintro access (old | rfl | rfl)
      · exact safe access old
      · exact ⟨rfl,by unfold c_invalid_packet_size; omega⟩
      · show 0 + s.m_incoming_packet.raw_header_buffer.size ≤ 12 + declared
        omega
    · rw [Data.store_size,dataVector_size,allocated,whole]
    · have start := Filling.start (dataVector fresh (BitVec.ofNat 32 (c_net_call_packet_header_size + declared))).bytes
      have length : (dataVector fresh (BitVec.ofNat 32 (c_net_call_packet_header_size + declared))).bytes.length =
          12 + declared := by
        rw [← whole,← allocated]
        exact dataVector_size _ _
      rw [length] at start
      have stored := start.store (show held.length ≤ 12 + declared by omega)
      rwa [show 12 + declared - held.length = declared by omega] at stored
  · refine .inr ⟨by omega,_,.inr (.inl rfl),?_⟩
    rintro ⟨equal,_⟩
    omega

theorem receiveHeader_held (t : TransportCopy σ) (fresh : Nat → Byte) {s : Receiver σ} {before : List (List Byte)}
    {held : List Byte} (between : Between s before held) :
    (∃ bs, Held (receiveHeader t fresh s).2 before (held ++ bs) ∧
      ((receiveHeader t fresh s).1 = false → Between (receiveHeader t fresh s).2 before (held ++ bs))) ∨
    Broken (receiveHeader t fresh s).2 := by
  unfold receiveHeader
  rcases between.stage with ⟨at_header,short⟩ | ⟨data,at_body⟩
  · rw [if_pos at_header.waiting]
    obtain ⟨bs,took,nodata,failed⟩ := readDataIsAvailable_took t 0 c_net_call_packet_header_size
      at_header.filling at_header.size (Nat.zero_le _)
    revert took nodata failed
    generalize readDataIsAvailable t s.m_incoming_packet.raw_header_buffer 0 c_net_call_packet_header_size s = read
    obtain ⟨status,buffer,s'⟩ := read
    intro took nodata failed
    have received : s'.received = before.flatten ++ (held ++ bs) := by
      rw [took.received,between.received,List.append_assoc]
    have header (raised : Nat) :
        AtHeader { s' with m_incoming_packet.raw_header_buffer := buffer, raised } (held ++ bs) :=
      ⟨took.data_size.trans at_header.waiting,took.header_data.trans at_header.nothing,
        took.size.trans at_header.size,took.filling⟩
    have length : (held ++ bs).length + s'.m_incoming_packet.need_size = 12 := (header s'.raised).length
    have safe := took.safe between.safe
    -- the header is still incomplete
    have waits (raised : Nat) (unfinished : 0 < s'.m_incoming_packet.need_size) :
        Between { s' with m_incoming_packet.raw_header_buffer := buffer, raised } before (held ++ bs) :=
      ⟨⟨received,between.packets,safe,.inl ⟨header raised,by omega⟩⟩,unfinished⟩
    cases status with
    | failed =>
      have still := waits (s'.raised + 1) (failed rfl)
      exact .inl ⟨bs,still.toHeld,fun _ => still⟩
    | nodata =>
      have still := waits s'.raised (by
        rw [nodata rfl,List.append_nil] at length
        omega)
      exact .inl ⟨bs,still.toHeld,fun _ => still⟩
    | available =>
      dsimp only
      split
      · rename_i complete
        rcases receiveReadHeader_stage fresh (header s'.raised) complete safe with ⟨inside,body⟩ | ⟨large,outside⟩
        · exact .inl ⟨bs,⟨received,between.packets,inside,.inr body⟩,fun failed => by cases failed⟩
        · exact .inr ⟨⟨before,held ++ bs,received,between.packets,by omega,large⟩,outside⟩
      · rename_i unfinished
        have still := waits s'.raised (Nat.pos_of_ne_zero unfinished)
        exact .inl ⟨bs,still.toHeld,fun _ => still⟩
  · have sized : s.m_incoming_packet.data_size ≠ c_invalid_packet_size := by
      have fits : data.size < 2^32 := data.fits
      have size := at_body.size
      unfold c_invalid_packet_size
      omega
    rw [if_neg sized]
    refine .inl ⟨[],?_,fun failed => by cases failed⟩
    rw [List.append_nil]
    exact between.toHeld

/-- What the second part answers: it delivers the packet once it is whole. -/
inductive Answered (before : List (List Byte)) (held : List Byte) (s : Receiver σ) : Nat × Option Data → Prop
  | failed (between : Between s before held) : Answered before held s (c_invalid_packet_size,none)
  | waits (between : Between s before held) : Answered before held s (s.m_incoming_packet.need_size,none)
  | delivers (packet : Data) (whole : packet.bytes = held) (framed : Packet held)
      (between : Between s (before ++ [held]) []) : Answered before held s (c_net_call_packet_header_size,some packet)

theorem receiveBody_held (t : TransportCopy σ) {s : Receiver σ} {before : List (List Byte)} {held : List Byte}
    (holds : Held s before held) :
    ∃ bs, Answered before (held ++ bs) (receiveBody t s).2 (receiveBody t s).1 := by
  unfold receiveBody
  rcases holds.stage with ⟨at_header,short⟩ | ⟨data,at_body⟩
  · rw [if_neg (fun sized => sized at_header.waiting)]
    refine ⟨[],?_⟩
    rw [List.append_nil]
    have length := at_header.length
    have pending : 0 < s.m_incoming_packet.need_size := by omega
    exact .waits ⟨holds,pending⟩
  · have sized : s.m_incoming_packet.data_size ≠ c_invalid_packet_size := by
      have fits : data.size < 2^32 := data.fits
      have size := at_body.size
      unfold c_invalid_packet_size
      omega
    rw [if_pos sized,at_body.buffer]
    dsimp only
    obtain ⟨bs,took,nodata,failed⟩ := readDataIsAvailable_took t c_net_call_packet_header_size
      s.m_incoming_packet.data_size at_body.filling at_body.size at_body.header
    revert took nodata failed
    generalize readDataIsAvailable t data c_net_call_packet_header_size s.m_incoming_packet.data_size s = read
    obtain ⟨status,buffer,s'⟩ := read
    intro took nodata failed
    have received : s'.received = before.flatten ++ (held ++ bs) := by
      rw [took.received,holds.received,List.append_assoc]
    have body (raised : Nat) :
        AtBody { s' with m_incoming_packet_header_data := some buffer, raised } (held ++ bs) buffer := by
      refine ⟨rfl,?_,took.filling,?_,?_⟩
      · rw [took.size,at_body.size,took.data_size]
      · have := at_body.header
        simp only [List.length_append]
        omega
      · rw [size_append at_body.header,at_body.declared,took.data_size]
    have safe := took.safe holds.safe
    have length : (held ++ bs).length + s'.m_incoming_packet.need_size = packetFraming.size (held ++ bs) :=
      (body s'.raised).length
    have waits (raised : Nat) (unfinished : 0 < s'.m_incoming_packet.need_size) :
        Between { s' with m_incoming_packet_header_data := some buffer, raised } before (held ++ bs) :=
      ⟨⟨received,holds.packets,safe,.inr ⟨buffer,body raised⟩⟩,unfinished⟩
    refine ⟨bs,?_⟩
    dsimp only
    split
    · rename_i stopped
      exact .failed (waits (s'.raised + 1) (failed stopped))
    · split
      · rename_i complete
        have filling := (body s'.raised).filling
        rw [complete] at filling
        have whole : buffer.bytes = held ++ bs := filling.full
        have framed : Packet (held ++ bs) := by
          refine ⟨⟨(body s'.raised).header,by omega⟩,?_⟩
          rw [← whole]
          exact buffer.fits
        refine .delivers buffer whole framed ⟨⟨?_,?_,safe,.inl ⟨⟨rfl,rfl,rfl,?_⟩,by decide⟩⟩,show 0 < c_net_call_packet_header_size by decide⟩
        · simpa using received
        · intro packet member
          rcases List.mem_append.mp member with old | new
          · exact holds.packets packet old
          · rwa [List.mem_singleton.mp new]
        · exact Filling.start _
      · rename_i unfinished
        exact .waits (waits s'.raised (Nat.pos_of_ne_zero unfinished))

/-- One call keeps the state between two calls, unless a header breaks it. -/
theorem readNeededDataSize_step (t : TransportCopy σ) (fresh : Nat → Byte) {s : Receiver σ} {before : List (List Byte)}
    {held : List Byte} (between : Between s before held) :
    (∃ held', Answered before held' (readNeededDataSize t fresh s).2 (readNeededDataSize t fresh s).1) ∨
    Broken (readNeededDataSize t fresh s).2 := by
  have first := receiveHeader_held t fresh between
  unfold readNeededDataSize
  cases received : receiveHeader t fresh s with
  | mk ok s' =>
    rw [received] at first
    rcases first with ⟨bs,holds,stopped⟩ | broken
    · cases ok with
      | false => exact .inl ⟨held ++ bs,.failed (stopped rfl)⟩
      | true =>
        obtain ⟨more,answered⟩ := receiveBody_held t holds
        exact .inl ⟨held ++ bs ++ more,answered⟩
    · cases ok with
      | false => exact .inr broken
      | true => exact .inr (broken.grows (receiveBody_grows t s'))

end IpcPortable.PacketParser
