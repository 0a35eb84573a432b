import IpcPortable.PacketRuns

/-!
`TransportProxy` over `IpcQt_TransporTcp`. The framer is a member of the proxy
and lives as long as the endpoint, while the socket is replaced when a
connection is lost and another one is assigned.
-/
namespace IpcPortable.TransportProxy
open IpcPortable.LittleEndian IpcPortable.Frames IpcPortable.DataStream IpcPortable.Packets
open IpcPortable.PacketParser IpcPortable.PacketRuns
variable {σ τ : Type}

/-- `IpcQt_TransporTcp`: the socket, by what has arrived at it and what will. -/
structure TransporTcp where
  m_connection : Option Pieces := none
def TransporTcp.unread (t : TransporTcp) : List Byte :=
  match t.m_connection with
  | some connection => connection.unread
  | none => []
/-- `ReadBytesAvailable` and `Read`; both ask the socket, if there is one. -/
def transporTcp : TransportCopy TransporTcp where
  readBytesAvailable t :=
    match t.m_connection with
    | some connection => let polled := pieces.readBytesAvailable connection; (polled.1,{ m_connection := some polled.2 })
    | none => (0,t)
  read t size :=
    match t.m_connection with
    | some connection => let read := pieces.read connection size; (read.1,read.2.1,{ m_connection := some read.2.2 })
    | none => (false,[],t)
  read_le := by
    intro t size
    split
    · exact pieces.read_le _ size
    · exact Nat.zero_le _
  read_ok := by
    intro t size ok
    split at ok
    · exact pieces.read_ok _ size ok
    · cases ok

/-- What happens while `waitForReadyRead` runs. -/
inductive Waited
  /-- The next piece arrives. -/
  | ready
  /-- The socket is not connected any more. -/
  | unconnected
  /-- `OnDisconnected` ran. -/
  | disconnected
/-- `IpcQt_TransporTcp::WaitRespond`. -/
def TransporTcp.waitRespond (_expected_size : Nat) (waited : Waited) (t : TransporTcp) : Bool × TransporTcp :=
  match t.m_connection with
  | none => (false,t)
  | some connection =>
    if connection.arrived.length > 0 then (true,t)
    else match waited with
      | .ready => (true,{ m_connection := some connection.poll })
      | .unconnected => (false,t)
      | .disconnected => (false,{ m_connection := none })
/-- `TransportProxy::Read`. -/
def proxyRead (fresh : Nat → Byte) (wait_incoming_packet : Bool) (waited : Waited) (s : Receiver TransporTcp) :
    (Bool × Option Data) × Receiver TransporTcp :=
  let first := readNeededDataSize transporTcp fresh s
  if first.1.1 = c_invalid_packet_size then ((false,first.1.2),{ first.2 with raised := first.2.raised + 1 })
  else if first.1.2.isNone ∧ wait_incoming_packet then
    let wait := first.2.in_data.waitRespond first.1.1 waited
    if wait.1 then
      let second := readNeededDataSize transporTcp fresh { first.2 with in_data := wait.2 }
      if second.1.1 = c_invalid_packet_size then ((false,second.1.2),{ second.2 with raised := second.2.raised + 1 })
      else ((true,second.1.2),second.2)
    else ((false,first.1.2),{ first.2 with in_data := wait.2 })
  else ((true,first.1.2),first.2)

/-- What happens to the transport of an endpoint. -/
inductive Event
  | read (wait_incoming_packet : Bool) (waited : Waited)
  /-- `OnDisconnected`. -/
  | disconnected
  /-- `AssignConnection`. -/
  | assigned (connection : Pieces)
/-- The packet that the endpoint gets, if any, and the state afterwards. -/
def Event.step (fresh : Nat → Byte) (s : Receiver TransporTcp) : Event → Option Data × Receiver TransporTcp
  | .read wait_incoming_packet waited =>
    let read := proxyRead fresh wait_incoming_packet waited s
    (read.1.2,read.2)
  | .disconnected => (none,{ s with in_data := { m_connection := none } })
  | .assigned connection => (none,{ s with in_data := { m_connection := some connection } })
/-- The packets that the endpoint gets in a run. -/
def run (fresh : Nat → Byte) : List Event → Receiver TransporTcp → List (List Byte) × Receiver TransporTcp
  | [], s => ([],s)
  | event :: events, s =>
    let step := event.step fresh s
    let rest := run fresh events step.2
    ((step.1.map Data.bytes).toList ++ rest.1,rest.2)

/-! ### The framer over another transport -/

/-- One transport does on images what another one does. -/
structure Images (t : TransportCopy σ) (t' : TransportCopy τ) (f : σ → τ) : Prop where
  available : ∀ x, t'.readBytesAvailable (f x) = ((t.readBytesAvailable x).1,f (t.readBytesAvailable x).2)
  read : ∀ x size, t'.read (f x) size = ((t.read x size).1,(t.read x size).2.1,f (t.read x size).2.2)
/-- The framer with its transport replaced by the image. -/
def across (f : σ → τ) (s : Receiver σ) : Receiver τ where
  m_incoming_packet := s.m_incoming_packet
  m_incoming_packet_header_data := s.m_incoming_packet_header_data
  in_data := f s.in_data
  received := s.received
  accesses := s.accesses
  raised := s.raised

theorem between_across (f : σ → τ) {s : Receiver σ} {before : List (List Byte)} {held : List Byte} :
    Between (across f s) before held ↔ Between s before held := by
  have stages : (AtHeader (across f s) held ↔ AtHeader s held) ∧ ∀ data, AtBody (across f s) held data ↔ AtBody s held data :=
    ⟨⟨fun h => ⟨h.1,h.2,h.3,h.4⟩,fun h => ⟨h.1,h.2,h.3,h.4⟩⟩,
      fun data => ⟨fun h => ⟨h.1,h.2,h.3,h.4,h.5⟩,fun h => ⟨h.1,h.2,h.3,h.4,h.5⟩⟩⟩
  constructor
  · intro between
    refine ⟨⟨between.received,between.packets,between.safe,?_⟩,between.pending⟩
    simpa only [stages.1,stages.2] using between.stage
  · intro between
    refine ⟨⟨between.received,between.packets,between.safe,?_⟩,between.pending⟩
    simpa only [stages.1,stages.2] using between.stage

variable {t : TransportCopy σ} {t' : TransportCopy τ} {f : σ → τ}

theorem readDataIsAvailable_across (images : Images t t' f) (buffer : Data) (base size : Nat) (s : Receiver σ) :
    readDataIsAvailable t' buffer base size (across f s) =
      ((readDataIsAvailable t buffer base size s).1,(readDataIsAvailable t buffer base size s).2.1,
        across f (readDataIsAvailable t buffer base size s).2.2) := by
  unfold readDataIsAvailable across
  simp only [images.available,images.read]
  split
  · split
    · split <;> rfl
    · rfl
  · rfl

theorem receiveHeader_across (images : Images t t' f) (fresh : Nat → Byte) (s : Receiver σ) :
    receiveHeader t' fresh (across f s) = ((receiveHeader t fresh s).1,across f (receiveHeader t fresh s).2) := by
  have read := readDataIsAvailable_across images s.m_incoming_packet.raw_header_buffer 0 c_net_call_packet_header_size s
  unfold receiveHeader
  by_cases waiting : s.m_incoming_packet.data_size = c_invalid_packet_size
  · rw [if_pos waiting,if_pos (show (across f s).m_incoming_packet.data_size = _ from waiting)]
    rw [show (across f s).m_incoming_packet.raw_header_buffer = s.m_incoming_packet.raw_header_buffer from rfl,read]
    generalize readDataIsAvailable t s.m_incoming_packet.raw_header_buffer 0 c_net_call_packet_header_size s = read
    obtain ⟨status,buffer,s'⟩ := read
    cases status with
    | available =>
      by_cases complete : s'.m_incoming_packet.need_size = 0
      · simp only [across,complete,if_true]
        rfl
      · simp only [across,complete,if_false]
    | nodata => rfl
    | failed => rfl
  · rw [if_neg waiting,if_neg (show ¬ (across f s).m_incoming_packet.data_size = _ from waiting)]

theorem receiveBody_across (images : Images t t' f) (s : Receiver σ) :
    receiveBody t' (across f s) = ((receiveBody t s).1,across f (receiveBody t s).2) := by
  unfold receiveBody
  by_cases sized : s.m_incoming_packet.data_size ≠ c_invalid_packet_size
  · rw [if_pos sized,if_pos (show (across f s).m_incoming_packet.data_size ≠ _ from sized)]
    rw [show (across f s).m_incoming_packet_header_data = s.m_incoming_packet_header_data from rfl]
    cases s.m_incoming_packet_header_data with
    | none => rfl
    | some data =>
      have read := readDataIsAvailable_across images data c_net_call_packet_header_size s.m_incoming_packet.data_size s
      dsimp only
      rw [show (across f s).m_incoming_packet.data_size = s.m_incoming_packet.data_size from rfl,read]
      generalize readDataIsAvailable t data c_net_call_packet_header_size s.m_incoming_packet.data_size s = read
      obtain ⟨status,data,s'⟩ := read
      dsimp only
      by_cases stopped : status = .failed
      · rw [if_pos stopped,if_pos stopped]
        rfl
      · rw [if_neg stopped,if_neg stopped]
        by_cases complete : s'.m_incoming_packet.need_size = 0
        · simp only [across,complete,if_true]
        · simp only [across,complete,if_false]
  · rw [if_neg sized,if_neg (show ¬ (across f s).m_incoming_packet.data_size ≠ _ from sized)]
    rfl

theorem readNeededDataSize_across (images : Images t t' f) (fresh : Nat → Byte) (s : Receiver σ) :
    readNeededDataSize t' fresh (across f s) = ((readNeededDataSize t fresh s).1,across f (readNeededDataSize t fresh s).2) := by
  unfold readNeededDataSize
  rw [receiveHeader_across images]
  generalize receiveHeader t fresh s = header
  obtain ⟨received,s'⟩ := header
  cases received with
  | false => rfl
  | true => exact receiveBody_across images s'

/-- Neither the transport nor the assertions matter between two calls. -/
theorem between_aside {s : Receiver σ} {before : List (List Byte)} {held : List Byte} (between : Between s before held)
    (in_data : σ) (raised : Nat) : Between { s with in_data, raised } before held := by
  refine ⟨⟨between.received,between.packets,between.safe,?_⟩,between.pending⟩
  rcases between.stage with ⟨at_header,short⟩ | ⟨data,at_body⟩
  · exact .inl ⟨⟨at_header.1,at_header.2,at_header.3,at_header.4⟩,short⟩
  · exact .inr ⟨data,⟨at_body.1,at_body.2,at_body.3,at_body.4,at_body.5⟩⟩

theorem answered_across (f : σ → τ) {s : Receiver σ} {before : List (List Byte)} {held : List Byte} {answer : Nat × Option Data}
    (answered : Answered before held s answer) : Answered before held (across f s) answer := by
  cases answered with
  | failed between => exact .failed ((between_across f).mpr between)
  | waits between => exact .waits ((between_across f).mpr between)
  | delivers packet whole framed between => exact .delivers packet whole framed ((between_across f).mpr between)

theorem answered_between {s : Receiver σ} {before : List (List Byte)} {held : List Byte} {answer : Nat × Option Data}
    (answered : Answered before held s answer) :
    ∃ held', Between s (before ++ (answer.2.map Data.bytes).toList) held' := by
  cases answered with
  | failed between => exact ⟨held,by simpa using between⟩
  | waits between => exact ⟨held,by simpa using between⟩
  | delivers packet whole framed between => exact ⟨[],by simpa [whole] using between⟩

/-! ### A connection -/

/-- What is done to the stream of the connection; `packet` is what was delivered. -/
structure Flows (before : List (List Byte)) (s : Receiver TransporTcp) (connection : Pieces) (packet : Option Data)
    (s' : Receiver TransporTcp) (connection' : Pieces) : Prop where
  still : s'.in_data.m_connection = some connection'
  between : ∃ held, Between s' (before ++ (packet.map Data.bytes).toList) held
  bytes : s'.received ++ connection'.unread = s.received ++ connection.unread
  polled : connection'.schedule.length ≤ connection.schedule.length - 1
  drained : packet = none → connection'.arrived = []

theorem Flows.raised {before : List (List Byte)} {s s' : Receiver TransporTcp} {connection connection' : Pieces}
    {packet : Option Data} (flows : Flows before s connection packet s' connection') :
    Flows before s connection packet { s' with raised := s'.raised + 1 } connection' := by
  obtain ⟨held,between⟩ := flows.between
  exact ⟨flows.still,⟨held,between_aside between s'.in_data (s'.raised + 1)⟩,flows.bytes,flows.polled,flows.drained⟩

theorem readNeededDataSize_flows (fresh : Nat → Byte) {packets : List (List Byte)}
    (framed : ∀ packet ∈ packets, Packet packet) {s : Receiver TransporTcp} {before : List (List Byte)} {held : List Byte}
    (between : Between s before held) {connection : Pieces} (connected : s.in_data.m_connection = some connection)
    (bytes : s.received ++ connection.unread <+: packets.flatten) :
    ∃ connection', Flows before s connection (readNeededDataSize transporTcp fresh s).1.2
      (readNeededDataSize transporTcp fresh s).2 connection' := by
  let socket : Receiver Pieces := across (fun _ => connection) s
  have images : Images pieces transporTcp fun p => { m_connection := some p } := ⟨fun _ => rfl,fun _ _ => rfl⟩
  have same : s = across (fun p => { m_connection := some p }) socket := by
    obtain ⟨m_incoming_packet,header_data,⟨m_connection⟩,received,accesses,raised⟩ := s
    cases connected
    rfl
  have within : Between socket before held := (between_across _).mpr between
  obtain ⟨held',answered,flow⟩ := pieces_step fresh framed within bytes
  have call := readNeededDataSize_across images fresh socket
  rw [← same] at call
  have image := answered_across (fun p : Pieces => ({ m_connection := some p } : TransporTcp)) answered
  rw [call]
  exact ⟨_,rfl,answered_between image,flow.bytes,flow.polled,fun nothing => (flow.waits nothing).2⟩

/-- Without a connection nothing is read. -/
theorem readNeededDataSize_unconnected (fresh : Nat → Byte) {s : Receiver TransporTcp} {before : List (List Byte)}
    {held : List Byte} (between : Between s before held) (unconnected : s.in_data.m_connection = none) :
    readNeededDataSize transporTcp fresh s = ((s.m_incoming_packet.need_size,none),s) := by
  have nothing (buffer : Data) (base size : Nat) : readDataIsAvailable transporTcp buffer base size s = (.nodata,buffer,s) := by
    obtain ⟨m_incoming_packet,header_data,⟨m_connection⟩,received,accesses,raised⟩ := s
    cases unconnected
    rfl
  have header : receiveHeader transporTcp fresh s = (true,s) := by
    unfold receiveHeader
    rw [nothing]
    split <;> rfl
  have pending := between.pending
  have body : receiveBody transporTcp s = ((s.m_incoming_packet.need_size,none),s) := by
    unfold receiveBody
    by_cases sized : s.m_incoming_packet.data_size ≠ c_invalid_packet_size
    · rcases between.stage with ⟨at_header,_⟩ | ⟨data,at_body⟩
      · exact absurd at_header.waiting sized
      · have buffer := at_body.buffer
        have unfinished : s.m_incoming_packet.need_size ≠ 0 := by omega
        rw [if_pos sized,buffer]
        dsimp only
        rw [nothing]
        obtain ⟨m_incoming_packet,header_data,in_data,received,accesses,raised⟩ := s
        cases buffer
        exact if_neg unfinished
    · exact if_neg sized
  rw [readNeededDataSize,header]
  exact body

theorem poll_polled (p : Pieces) : p.poll.schedule.length ≤ p.schedule.length - 1 := by
  simp [Pieces.poll]

/-- A read while the connection lasts. -/
theorem proxyRead_ready (fresh : Nat → Byte) (wait_incoming_packet : Bool) {packets : List (List Byte)}
    (framed : ∀ packet ∈ packets, Packet packet) {s : Receiver TransporTcp} {before : List (List Byte)} {held : List Byte}
    (between : Between s before held) {connection : Pieces} (connected : s.in_data.m_connection = some connection)
    (bytes : s.received ++ connection.unread <+: packets.flatten) :
    ∃ connection', Flows before s connection (proxyRead fresh wait_incoming_packet .ready s).1.2
      (proxyRead fresh wait_incoming_packet .ready s).2 connection' := by
  obtain ⟨connection',first⟩ := readNeededDataSize_flows fresh framed between connected bytes
  unfold proxyRead
  dsimp only
  generalize readNeededDataSize transporTcp fresh s = call at first ⊢
  obtain ⟨⟨needed_data_size,packet⟩,s'⟩ := call
  dsimp only at first ⊢
  by_cases invalid : needed_data_size = c_invalid_packet_size
  · rw [if_pos invalid]
    exact ⟨connection',first.raised⟩
  · rw [if_neg invalid]
    by_cases waits : packet.isNone ∧ wait_incoming_packet
    · rw [if_pos waits]
      have nothing : packet = none := Option.isNone_iff_eq_none.mp waits.1
      subst nothing
      obtain ⟨held',between'⟩ := first.between
      have between'' : Between s' before held' := by simpa using between'
      have waited : s'.in_data.waitRespond needed_data_size .ready = (true,{ m_connection := some connection'.poll }) := by
        simp [TransporTcp.waitRespond,first.still,first.drained rfl]
      rw [waited]
      have polled : s'.received ++ connection'.poll.unread = s.received ++ connection.unread := by
        rw [poll_unread,first.bytes]
      obtain ⟨connection'',second⟩ := readNeededDataSize_flows fresh framed
        (between_aside between'' { m_connection := some connection'.poll } s'.raised) rfl (polled ▸ bytes)
      have earlier : Flows before s connection (readNeededDataSize transporTcp fresh
          { s' with in_data := { m_connection := some connection'.poll } }).1.2 (readNeededDataSize transporTcp fresh
          { s' with in_data := { m_connection := some connection'.poll } }).2 connection'' := by
        refine ⟨second.still,second.between,second.bytes.trans polled,?_,second.drained⟩
        have first_polled := first.polled
        have second_polled := second.polled
        have between_polled := poll_polled connection'
        omega
      dsimp only
      generalize readNeededDataSize transporTcp fresh { s' with in_data := { m_connection := some connection'.poll } } =
        call at earlier ⊢
      by_cases invalid : call.1.1 = c_invalid_packet_size
      · rw [if_pos rfl,if_pos invalid]
        exact ⟨connection'',earlier.raised⟩
      · rw [if_pos rfl,if_neg invalid]
        exact ⟨connection'',earlier⟩
    · rw [if_neg waits]
      exact ⟨connection',first⟩

/-! ### Runs -/

/-- The bytes that were taken and those on their way are the beginning of a
    stream of packets, of which `before` were delivered. -/
structure Streams (packets before : List (List Byte)) (s : Receiver TransporTcp) : Prop where
  between : ∃ held, Between s before held
  bytes : s.received ++ s.in_data.unread <+: packets.flatten

theorem Streams.aside {packets before : List (List Byte)} {s : Receiver TransporTcp} (streams : Streams packets before s)
    {in_data : TransporTcp} (unread : in_data.unread <+: s.in_data.unread) (raised : Nat) :
    Streams packets before { s with in_data, raised } := by
  obtain ⟨held,between⟩ := streams.between
  exact ⟨⟨held,between_aside between in_data raised⟩,((List.prefix_append_right_inj _).mpr unread).trans streams.bytes⟩

theorem Flows.streams {packets before : List (List Byte)} {s s' : Receiver TransporTcp} {connection connection' : Pieces}
    {packet : Option Data} (flows : Flows before s connection packet s' connection')
    (bytes : s.received ++ connection.unread <+: packets.flatten) :
    Streams packets (before ++ (packet.map Data.bytes).toList) s' := by
  refine ⟨flows.between,?_⟩
  rw [← flows.bytes] at bytes
  simpa only [TransporTcp.unread,flows.still] using bytes

/-- A wait in which nothing arrives fails. -/
theorem waitRespond_lost (expected_size : Nat) {waited : Waited} (lost : waited ≠ .ready) {t : TransporTcp}
    {connection : Pieces} (connected : t.m_connection = some connection) (drained : connection.arrived = []) :
    (t.waitRespond expected_size waited).1 = false ∧ (t.waitRespond expected_size waited).2.unread <+: t.unread := by
  unfold TransporTcp.waitRespond
  rw [connected]
  dsimp only
  rw [drained,if_neg (show ¬ ([] : List Byte).length > 0 from Nat.lt_irrefl 0)]
  cases waited with
  | ready => exact absurd rfl lost
  | unconnected => exact ⟨rfl,List.prefix_rfl⟩
  | disconnected => exact ⟨rfl,List.nil_prefix⟩

theorem proxyRead_streams (fresh : Nat → Byte) (wait_incoming_packet : Bool) (waited : Waited) {packets : List (List Byte)}
    (framed : ∀ packet ∈ packets, Packet packet) {before : List (List Byte)} {s : Receiver TransporTcp}
    (streams : Streams packets before s) :
    Streams packets (before ++ ((proxyRead fresh wait_incoming_packet waited s).1.2.map Data.bytes).toList)
      (proxyRead fresh wait_incoming_packet waited s).2 := by
  obtain ⟨held,between⟩ := streams.between
  cases connected : s.in_data.m_connection with
  | none =>
    have unread (t : TransporTcp) : ({ m_connection := none } : TransporTcp).unread <+: t.unread := List.nil_prefix
    have same : s.in_data = { m_connection := none } := by
      rw [← connected]
    have waits : s.in_data.waitRespond s.m_incoming_packet.need_size waited = (false,s.in_data) := by
      rw [same]
      rfl
    unfold proxyRead
    rw [readNeededDataSize_unconnected fresh between connected]
    dsimp only
    rw [waits]
    split
    · simpa using streams.aside List.prefix_rfl (s.raised + 1)
    · split
      · simpa using streams
      · simpa using streams
  | some connection =>
    have bytes : s.received ++ connection.unread <+: packets.flatten := by
      simpa only [TransporTcp.unread,connected] using streams.bytes
    by_cases ready : waited = .ready
    · obtain ⟨connection',flows⟩ := proxyRead_ready fresh wait_incoming_packet framed between connected bytes
      rw [ready]
      exact flows.streams bytes
    · obtain ⟨connection',first⟩ := readNeededDataSize_flows fresh framed between connected bytes
      have kept := first.streams bytes
      unfold proxyRead
      dsimp only
      generalize readNeededDataSize transporTcp fresh s = call at first kept ⊢
      obtain ⟨⟨needed_data_size,packet⟩,s'⟩ := call
      dsimp only at first kept ⊢
      split
      · exact kept.aside List.prefix_rfl _
      · split
        · rename_i waits
          have nothing : packet = none := Option.isNone_iff_eq_none.mp waits.1
          obtain ⟨lost,unread⟩ := waitRespond_lost needed_data_size ready first.still (first.drained nothing)
          rw [lost]
          exact kept.aside unread s'.raised
        · exact kept

/-- The event is not another connection. -/
def Event.Stays : Event → Prop
  | .assigned _ => False
  | _ => True

theorem step_streams (fresh : Nat → Byte) {packets : List (List Byte)} (framed : ∀ packet ∈ packets, Packet packet)
    {before : List (List Byte)} {s : Receiver TransporTcp} (streams : Streams packets before s) {event : Event}
    (stays : event.Stays) :
    Streams packets (before ++ ((event.step fresh s).1.map Data.bytes).toList) (event.step fresh s).2 := by
  cases event with
  | read wait_incoming_packet waited => exact proxyRead_streams fresh wait_incoming_packet waited framed streams
  | disconnected =>
    rw [Event.step,Option.map_none,Option.toList_none,List.append_nil]
    exact streams.aside (show ({ m_connection := none } : TransporTcp).unread <+: _ from List.nil_prefix) s.raised
  | assigned connection => exact stays.elim

/-- Whatever happens to a connection, what the endpoint got of it are the first
    packets of its stream. -/
theorem run_streams (fresh : Nat → Byte) {packets : List (List Byte)} (framed : ∀ packet ∈ packets, Packet packet)
    {events : List Event} (stay : ∀ event ∈ events, event.Stays) {before : List (List Byte)} {s : Receiver TransporTcp}
    (streams : Streams packets before s) :
    Streams packets (before ++ (run fresh events s).1) (run fresh events s).2 := by
  induction events generalizing s before with
  | nil => simpa [run] using streams
  | cons event events ih =>
    have stepped := step_streams fresh framed streams (stay event List.mem_cons_self)
    have later := ih (fun event member => stay event (List.mem_cons_of_mem _ member)) stepped
    rwa [List.append_assoc] at later

/-- As long as the connection lasts, enough reads deliver its stream. -/
theorem run_delivers (fresh : Nat → Byte) (waits : List Bool) {before packets : List (List Byte)}
    (framed : ∀ packet ∈ before ++ packets, Packet packet) {s : Receiver TransporTcp} {held : List Byte}
    (between : Between s before held) {connection : Pieces} (connected : s.in_data.m_connection = some connection)
    (bytes : s.received ++ connection.unread = (before ++ packets).flatten) :
    (run fresh (waits.map fun wait_incoming_packet => .read wait_incoming_packet .ready) s).1 <+: packets ∧
      (connection.schedule.length + packets.length ≤ waits.length →
        (run fresh (waits.map fun wait_incoming_packet => .read wait_incoming_packet .ready) s).1 = packets) := by
  induction waits generalizing before packets s held connection with
  | nil =>
    refine ⟨List.nil_prefix,?_⟩
    intro enough
    have nothing : packets = [] := List.length_eq_zero_iff.mp (by simp only [List.length_nil] at enough; omega)
    rw [nothing]
    rfl
  | cons wait_incoming_packet waits ih =>
    obtain ⟨connection',flows⟩ := proxyRead_ready fresh wait_incoming_packet framed between connected (bytes ▸ List.prefix_rfl)
    have kept := flows.bytes.trans bytes
    obtain ⟨held',between'⟩ := flows.between
    have polled := flows.polled
    simp only [List.map_cons,run,Event.step]
    cases answer : (proxyRead fresh wait_incoming_packet .ready s).1.2 with
    | none =>
      rw [answer] at between' flows
      have same : Between (proxyRead fresh wait_incoming_packet .ready s).2 before held' := by simpa using between'
      obtain ⟨first,all⟩ := ih framed same flows.still kept
      refine ⟨by simpa using first,?_⟩
      intro enough
      rw [List.length_cons] at enough
      by_cases finished : connection.schedule.length = 0
      · have empty : connection'.schedule = [] := List.length_eq_zero_iff.mp (by omega)
        have unread : connection'.unread = [] := by simp [Pieces.unread,flows.drained rfl,empty]
        rw [unread,List.append_nil] at kept
        have nothing : packets = [] := List.append_right_eq_self.mp (all_delivered framed same kept)
        rw [nothing] at first ⊢
        simpa using first
      · have later := all (by omega)
        simpa using later
    | some packet =>
      rw [answer] at between' flows
      have next : Between (proxyRead fresh wait_incoming_packet .ready s).2 (before ++ [packet.bytes]) held' := between'
      have taken := next.received
      rw [taken,List.append_assoc] at kept
      obtain ⟨later,split,_⟩ := frames_prefix (fun f member => (next.packets f member).frame)
        (fun f member => (framed f member).frame) kept
      obtain rfl : packets = packet.bytes :: later := by simpa [List.append_assoc] using split
      have moved : before ++ packet.bytes :: later = before ++ [packet.bytes] ++ later := by simp
      rw [moved] at framed
      obtain ⟨first,all⟩ := ih framed next flows.still (by rw [flows.bytes,bytes,moved])
      refine ⟨by simpa using first,?_⟩
      intro enough
      simp only [List.length_cons] at enough
      have whole := all (by omega)
      simpa using whole

end IpcPortable.TransportProxy
