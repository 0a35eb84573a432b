import IpcPortable.TransportProxy
import IpcPortable.Runs

/-!
The Windows transports over one TCP socket. `IpcWin_TransportTcpClient_Copy`
hands the bytes of the socket to a framer, for example to `TransportProxy`;
`IpcWin_TransportTcpClient_Share` makes a packet of whatever has arrived. What
has arrived when it is called decides whether that is one packet.
-/
namespace IpcPortable.WinSockets
open IpcPortable.LittleEndian IpcPortable.Frames IpcPortable.Regions IpcPortable.DataStream IpcPortable.Packets
open IpcPortable.PacketParser IpcPortable.PacketRuns IpcPortable.Runs

/-- `IpcWin_TransportTcpClient_Copy::WaitRespond`: `select` waits until there is
    something to read; the next piece may arrive in the meantime. -/
def waitRespond (_expected_size : Nat) (m_socket : Pieces) : Bool × Pieces :=
  let m_socket := m_socket.poll
  (decide (0 < m_socket.arrived.length),m_socket)
/-- `IpcWin_TransportTcpClient_Share::Read`. The size of the buffer is a
    `PacketSize`; `recv` is asked for all that is available. -/
def shareRead (fresh : Nat → Byte) (wait_incoming_packet : Bool) (m_socket : Pieces) : (Bool × Option Data) × Pieces :=
  let m_socket := if wait_incoming_packet then (waitRespond 0 m_socket).2 else m_socket
  let available := pieces.readBytesAvailable m_socket
  if available.1 = 0 then ((false,none),available.2)
  else
    let data := dataVector fresh (BitVec.ofNat 32 available.1)
    let read := pieces.read available.2 available.1
    ((true,some (data.store 0 read.2.1)),read.2.2)
/-- `TransportProxy::Read` over `IpcWin_TransportTcpClient_Copy`. -/
def proxyRead (fresh : Nat → Byte) (wait_incoming_packet : Bool) (s : Receiver Pieces) : (Bool × Option Data) × Receiver Pieces :=
  let first := readNeededDataSize pieces fresh s
  if first.1.1 = c_invalid_packet_size then ((false,first.1.2),{ first.2 with raised := first.2.raised + 1 })
  else if first.1.2.isNone ∧ wait_incoming_packet then
    let wait := waitRespond first.1.1 first.2.in_data
    if wait.1 then
      let second := readNeededDataSize pieces fresh { first.2 with in_data := wait.2 }
      if second.1.1 = c_invalid_packet_size then ((false,second.1.2),{ second.2 with raised := second.2.raised + 1 })
      else ((true,second.1.2),second.2)
    else ((false,first.1.2),{ first.2 with in_data := wait.2 })
  else ((true,first.1.2),first.2)

/-! ### The framer -/

/-- What `TransportProxy` got of a stream of packets, read by read. -/
def proxyReads (fresh : Nat → Byte) : List Bool → Receiver Pieces → List (List Byte) × Receiver Pieces
  | [], s => ([],s)
  | wait_incoming_packet :: waits, s =>
    let read := proxyRead fresh wait_incoming_packet s
    let rest := proxyReads fresh waits read.2
    ((read.1.2.map Data.bytes).toList ++ rest.1,rest.2)

/-- The packets `before` were delivered and the rest of the stream is held by
    the framer or still on its way. -/
structure Streams (packets before : List (List Byte)) (s : Receiver Pieces) : Prop where
  between : ∃ held, Between s before held
  bytes : s.received ++ s.in_data.unread = packets.flatten

section proxy
variable (fresh : Nat → Byte) {packets : List (List Byte)} (framed : ∀ packet ∈ packets, Packet packet)
include framed

theorem Streams.readNeededDataSize {before : List (List Byte)} {s : Receiver Pieces} (streams : Streams packets before s) :
    Streams packets (before ++ ((readNeededDataSize pieces fresh s).1.2.map Data.bytes).toList)
      (readNeededDataSize pieces fresh s).2 := by
  obtain ⟨held,between⟩ := streams.between
  obtain ⟨held',answered,flow⟩ := pieces_step fresh framed between (streams.bytes ▸ List.prefix_rfl)
  exact ⟨TransportProxy.answered_between answered,flow.bytes.trans streams.bytes⟩

omit framed in
theorem Streams.aside {before : List (List Byte)} {s : Receiver Pieces} (streams : Streams packets before s)
    {in_data : Pieces} (same : in_data.unread = s.in_data.unread) (raised : Nat) :
    Streams packets before { s with in_data, raised } := by
  obtain ⟨held,between⟩ := streams.between
  refine ⟨⟨held,TransportProxy.between_aside between in_data raised⟩,?_⟩
  rw [← streams.bytes]
  exact congrArg (s.received ++ ·) same

theorem Streams.proxyRead {before : List (List Byte)} {s : Receiver Pieces} (streams : Streams packets before s)
    (wait_incoming_packet : Bool) :
    Streams packets (before ++ ((proxyRead fresh wait_incoming_packet s).1.2.map Data.bytes).toList)
      (proxyRead fresh wait_incoming_packet s).2 := by
  have first := streams.readNeededDataSize fresh framed
  unfold WinSockets.proxyRead
  dsimp only
  generalize PacketParser.readNeededDataSize pieces fresh s = call at first ⊢
  obtain ⟨⟨needed_data_size,packet⟩,s'⟩ := call
  dsimp only at first ⊢
  split
  · exact first.aside rfl (s'.raised + 1)
  split
  · rename_i waits
    have nothing : packet = none := Option.isNone_iff_eq_none.mp waits.1
    subst nothing
    have waited := first.aside (poll_unread s'.in_data) s'.raised
    split
    · have second := waited.readNeededDataSize fresh framed
      have same : before ++ (Option.map Data.bytes none).toList = before := by simp
      rw [same] at second
      split
      · exact second.aside rfl _
      · exact second
    · exact waited
  · exact first

theorem Streams.proxyReads {before : List (List Byte)} {s : Receiver Pieces} (streams : Streams packets before s)
    (waits : List Bool) :
    Streams packets (before ++ (proxyReads fresh waits s).1) (proxyReads fresh waits s).2 := by
  induction waits generalizing s before with
  | nil => simpa [WinSockets.proxyReads] using streams
  | cons wait_incoming_packet waits ih =>
    have later := ih (streams.proxyRead fresh framed wait_incoming_packet)
    rwa [List.append_assoc] at later

/-- Of a stream of packets the framer returns the first ones. -/
theorem Streams.split {before : List (List Byte)} {s : Receiver Pieces} (streams : Streams packets before s) :
    ∃ later held, packets = before ++ later ∧ later.flatten = held ++ s.in_data.unread := by
  obtain ⟨held,between⟩ := streams.between
  have whole := streams.bytes
  rw [between.received,List.append_assoc] at whole
  obtain ⟨later,split,ends⟩ := frames_prefix (fun f member => (between.packets f member).frame)
    (fun f member => (framed f member).frame) whole
  exact ⟨later,held,split,ends.symm⟩

end proxy

/-! ### Whatever has arrived -/

/-- The socket of an `IpcWin_TransportTcpClient_Share` and the packets that its
    reads returned. -/
structure Share where
  m_socket : Pieces
  returned : List (List Byte) := []
/-- One `Read`. -/
def Share.read (fresh : Nat → Byte) (s : Share) (wait_incoming_packet : Bool) : Option Share :=
  let read := shareRead fresh wait_incoming_packet s.m_socket
  some { m_socket := read.2, returned := s.returned ++ (read.1.2.map Data.bytes).toList }
/-- What the socket has for a read, after all that arrives before or in it. -/
def Share.available (s : Share) (wait_incoming_packet : Bool) : List Byte :=
  (if wait_incoming_packet then s.m_socket.poll.poll else s.m_socket.poll).arrived

/-- The reads returned the first of the packets, one for each, and the others
    are still on their way. -/
def OnePacketEach (packets : List (List Byte)) (s : Share) : Prop :=
  ∃ later, packets = s.returned ++ later ∧ s.m_socket.unread = later.flatten
/-- What is available is nothing or one whole packet. -/
def WholePacket (s : Share) (wait_incoming_packet : Bool) : Prop :=
  s.available wait_incoming_packet = [] ∨ Packet (s.available wait_incoming_packet)

/-- A read that finds something takes all of it off the socket. -/
theorem share_read (fresh : Nat → Byte) (s : Share) (wait_incoming_packet : Bool) :
    ∃ schedule, s.m_socket.unread = s.available wait_incoming_packet ++ schedule.flatten ∧
      (s.available wait_incoming_packet = [] →
        s.read fresh wait_incoming_packet = some { s with m_socket := { arrived := [], schedule } }) ∧
      (s.available wait_incoming_packet ≠ [] → ∃ data : Data,
        s.read fresh wait_incoming_packet =
          some { m_socket := { arrived := [], schedule }, returned := s.returned ++ [data.bytes] } ∧
        ((s.available wait_incoming_packet).length < 2^32 → data.bytes = s.available wait_incoming_packet)) := by
  have shape : ∃ socket : Pieces, socket.unread = s.m_socket.unread ∧ socket.poll.arrived = s.available wait_incoming_packet ∧
      socket = if wait_incoming_packet then (waitRespond 0 s.m_socket).2 else s.m_socket := by
    refine ⟨_,?_,?_,rfl⟩
    · split
      · exact poll_unread s.m_socket
      · rfl
    · unfold Share.available
      split <;> rfl
  obtain ⟨socket,unread,arrived,is⟩ := shape
  refine ⟨socket.poll.schedule,?_,?_,?_⟩
  · rw [← unread,← arrived,← poll_unread socket]
    rfl
  · intro nothing
    rw [nothing] at arrived
    have polled : socket.poll = { arrived := [], schedule := socket.poll.schedule } := by rw [← arrived]
    have returns : shareRead fresh wait_incoming_packet s.m_socket = ((false,none),socket.poll) := by
      unfold shareRead
      rw [← is]
      exact if_pos (show socket.poll.arrived.length = 0 by rw [arrived]; rfl)
    rw [Share.read,returns,← polled]
    simp
  · intro something
    rw [← arrived] at something ⊢
    have positive : ¬ socket.poll.arrived.length = 0 := by simpa using something
    have returns : shareRead fresh wait_incoming_packet s.m_socket =
        ((true,some ((dataVector fresh (BitVec.ofNat 32 socket.poll.arrived.length)).store 0 socket.poll.arrived)),
          { arrived := [], schedule := socket.poll.schedule }) := by
      unfold shareRead
      rw [← is]
      simp [pieces,something]
    rw [Share.read,returns]
    refine ⟨_,rfl,?_⟩
    intro small
    have start := Filling.start (dataVector fresh (BitVec.ofNat 32 socket.poll.arrived.length)).bytes
    have length : (dataVector fresh (BitVec.ofNat 32 socket.poll.arrived.length)).bytes.length = socket.poll.arrived.length := by
      rw [← Data.size,dataVector_size,BitVec.toNat_ofNat,Nat.mod_eq_of_lt small]
    rw [length] at start
    have filled := start.store (Nat.le_refl socket.poll.arrived.length)
    rw [Nat.sub_self] at filled
    exact filled.full

/-- The reads of a share return a packet each exactly as long as one whole
    packet is available to each of them. -/
theorem read_onePacketEach (fresh : Nat → Byte) {packets : List (List Byte)} (framed : ∀ packet ∈ packets, Packet packet)
    {s s' : Share} {wait_incoming_packet : Bool} (each : OnePacketEach packets s)
    (read : s.read fresh wait_incoming_packet = some s') :
    OnePacketEach packets s' ↔ WholePacket s wait_incoming_packet := by
  obtain ⟨later,split,unread⟩ := each
  obtain ⟨schedule,taken,idle,returns⟩ := share_read fresh s wait_incoming_packet
  rw [unread] at taken
  by_cases nothing : s.available wait_incoming_packet = []
  · rw [idle nothing] at read
    obtain rfl := Option.some.inj read
    refine iff_of_true ⟨later,split,?_⟩ (.inl nothing)
    rw [taken,nothing]
    rfl
  · obtain ⟨data,returned,whole⟩ := returns nothing
    rw [returned] at read
    obtain rfl := Option.some.inj read
    constructor
    · rintro ⟨rest,split',unread'⟩
      right
      rw [split,List.append_assoc,List.append_cancel_left_eq] at split'
      have arrived : schedule.flatten = rest.flatten := by simpa [Pieces.unread] using unread'
      rw [split',arrived,List.flatten_append,List.append_cancel_right_eq] at taken
      have packet := framed data.bytes (by rw [split,split']; simp)
      rw [← taken]
      simpa using packet
    · rintro (empty | packet)
      · exact absurd empty nothing
      · have rest_framed : ∀ f ∈ later, packetFraming.Frame f :=
          fun f member => (framed f (by rw [split]; exact List.mem_append_right _ member)).frame
        have one : ∀ f ∈ [s.available wait_incoming_packet], packetFraming.Frame f := by
          intro f member
          rw [List.mem_singleton.mp member]
          exact packet.frame
        obtain ⟨rest,rfl,ends⟩ := frames_prefix one rest_framed
          (show [s.available wait_incoming_packet].flatten ++ schedule.flatten = later.flatten by
            rw [taken]
            simp)
        refine ⟨rest,?_,by simpa [Pieces.unread] using ends⟩
        rw [split,whole packet.small,List.append_assoc]

/-- A share of a stream that has not been read yet. -/
def Share.start (schedule : List (List Byte)) : Share := { m_socket := { schedule } }

theorem onePacketEach_start {packets schedule : List (List Byte)} (arrives : schedule.flatten = packets.flatten) :
    OnePacketEach packets (Share.start schedule) :=
  ⟨packets,rfl,by simpa [Share.start,Pieces.unread] using arrives⟩

theorem packets_nonempty {packets : List (List Byte)} (framed : ∀ packet ∈ packets, Packet packet)
    (empty : packets.flatten = []) : packets = [] := by
  cases packets with
  | nil => rfl
  | cons packet rest =>
    have header := (framed packet List.mem_cons_self).frame.header
    rw [List.flatten_cons] at empty
    have none : packet = [] := (List.append_eq_nil_iff.mp empty).1
    rw [none] at header
    cases header

/-- Over a stream of packets, however its bytes arrive: `TransportProxy` over
    the socket returns the first packets, and all of them once the socket is
    drained. The reads of the share return one packet each, all along, if and
    only if whenever one of them finds something it finds exactly one whole
    packet; then they return the first packets too, and all of them once the
    socket is drained. -/
theorem share_frames_iff (fresh : Nat → Byte) (packets schedule : List (List Byte)) (waits : List Bool)
    (framed : ∀ packet ∈ packets, Packet packet) (arrives : schedule.flatten = packets.flatten) :
    ((∃ later held, packets = (proxyReads fresh waits { in_data := { schedule } }).1 ++ later ∧
        later.flatten = held ++ (proxyReads fresh waits { in_data := { schedule } }).2.in_data.unread) ∧
      ((proxyReads fresh waits { in_data := { schedule } }).2.in_data.unread = [] →
        (proxyReads fresh waits { in_data := { schedule } }).1 = packets)) ∧
    ((∀ before, before <+: waits → OnePacketEach packets (run (Share.read fresh) (Share.start schedule) before)) ↔
      Along (Share.read fresh) WholePacket (Share.start schedule) waits) ∧
    ∀ before, OnePacketEach packets (run (Share.read fresh) (Share.start schedule) before) →
      (run (Share.read fresh) (Share.start schedule) before).m_socket.unread = [] →
        (run (Share.read fresh) (Share.start schedule) before).returned = packets := by
  refine ⟨?_,?_,?_⟩
  · have start : Streams packets [] ({ in_data := { schedule } } : Receiver Pieces) :=
      ⟨⟨[],start_between _⟩,by simpa [Pieces.unread] using arrives⟩
    have streams := start.proxyReads fresh framed waits
    rw [List.nil_append] at streams
    refine ⟨streams.split framed,fun drained => ?_⟩
    obtain ⟨held,between⟩ := streams.between
    have bytes := streams.bytes
    rw [drained,List.append_nil] at bytes
    exact (all_delivered framed between bytes).symm
  · have always : Preserves (Share.read fresh) fun _ => True := fun _ _ _ _ _ => trivial
    exact along_iff always (fun s wait s' _ each read => read_onePacketEach fresh framed each read) trivial
      (onePacketEach_start arrives) waits
  · rintro before ⟨later,split,unread⟩ drained
    rw [drained] at unread
    have none : later = [] :=
      packets_nonempty (fun packet member => framed packet (by rw [split]; exact List.mem_append_right _ member)) unread.symm
    rw [none,List.append_nil] at split
    exact split.symm

/-- Two packets, of which the second one arrives in two parts, the first of them with the first packet. -/
def twoPackets : List (List Byte) := [[0,0,0,0,2,0,0,0,1,0,0,0],[1,0,0,0,2,0,0,0,2,0,0,0,7]]
def twoArrivals : List (List Byte) := [[0,0,0,0,2,0,0,0,1,0,0,0,1,0,0,0,2],[0,0,0,2,0,0,0,7]]

/-- The framer returns both, and the reads of the share do not. -/
theorem share_frames_two :
    (proxyReads (fun _ => 0) [false,true] { in_data := { schedule := twoArrivals } }).1 = twoPackets ∧
      ¬ ∀ before, before <+: [false,true] →
        OnePacketEach twoPackets (run (Share.read fun _ => 0) (Share.start twoArrivals) before) := by
  obtain ⟨⟨_,drained⟩,each,_⟩ := share_frames_iff (fun _ => 0) twoPackets twoArrivals [false,true] (by decide) (by decide)
  refine ⟨drained (by decide +kernel),fun all => ?_⟩
  obtain ⟨first,_⟩ := each.mp all
  rcases first (by decide +kernel) with nothing | whole
  · exact absurd nothing (by decide +kernel)
  · exact absurd whole (by decide +kernel)

/-- Two packets without a body arrive together: the framer returns both, the
    share one packet that is both of them. -/
theorem merged_packets :
    let packets : List (List Byte) := [[0,0,0,0,2,0,0,0,1,0,0,0],[0,0,0,0,2,0,0,0,2,0,0,0]]
    let share := run (Share.read fun _ => 0) (Share.start [packets.flatten]) [false,false]
    (proxyReads (fun _ => 0) [false,false] { in_data := { schedule := [packets.flatten] } }).1 = packets ∧
      share.returned = [packets.flatten] ∧ ¬ OnePacketEach packets share := by
  refine ⟨by decide +kernel,by decide +kernel,?_⟩
  rintro ⟨later,split,_⟩
  have returned : (run (Share.read fun _ => 0) (Share.start [[0,0,0,0,2,0,0,0,1,0,0,0,0,0,0,0,2,0,0,0,2,0,0,0]])
      [false,false]).returned = [[0,0,0,0,2,0,0,0,1,0,0,0,0,0,0,0,2,0,0,0,2,0,0,0]] := by decide +kernel
  have same : [[0,0,0,0,2,0,0,0,1,0,0,0],[0,0,0,0,2,0,0,0,2,0,0,0]] =
      [[0,0,0,0,2,0,0,0,1,0,0,0,0,0,0,0,2,0,0,0,2,0,0,0]] ++ later := returned ▸ split
  have first := congrArg List.length (List.cons.inj same).1
  cases first

end IpcPortable.WinSockets
