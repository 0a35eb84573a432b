import IpcPortable.PacketParser

/-!
Whole runs of the framer. Over any transport its accesses to memory are safe
exactly as long as no header declares more than fits into a packet
(`accesses_safe_iff`); over a stream of packets that arrives in pieces it
delivers the packets, whatever the pieces are (`framing_independent`).
-/
namespace IpcPortable.PacketRuns
open IpcPortable.LittleEndian IpcPortable.Frames IpcPortable.DataStream IpcPortable.Packets IpcPortable.PacketParser
variable {σ : Type}

theorem delivered_append (answers : List (Nat × Option Data)) (answer : Nat × Option Data) :
    delivered (answers ++ [answer]) = delivered answers ++ (answer.2.map Data.bytes).toList := by
  obtain ⟨size,packet⟩ := answer
  cases packet <;> simp [delivered]

theorem start_between (in_data : σ) : Between ({ in_data } : Receiver σ) [] [] where
  received := rfl
  packets := fun _ member => by cases member
  safe := fun _ member => by cases member
  stage := .inl ⟨⟨rfl,rfl,rfl,Regions.Filling.start _⟩,by decide⟩
  pending := show 0 < c_net_call_packet_header_size by decide

/-- After any number of calls the framer is between two packets or inside one,
    unless a header broke it. -/
theorem calls_between (t : TransportCopy σ) (fresh : Nat → Byte) (in_data : σ) (n : Nat) :
    (∃ held, Between (calls t fresh n { in_data }).2 (delivered (calls t fresh n { in_data }).1) held) ∨
    Broken (calls t fresh n { in_data }).2 := by
  induction n with
  | zero => exact .inl ⟨[],start_between in_data⟩
  | succ n ih =>
    rcases ih with ⟨held,between⟩ | broken
    · rcases readNeededDataSize_step t fresh between with ⟨held',answered⟩ | broken
      · left
        simp only [calls,delivered_append]
        revert answered
        generalize readNeededDataSize t fresh (calls t fresh n { in_data }).2 = call
        obtain ⟨answer,s'⟩ := call
        intro (answered : Answered _ held' s' answer)
        cases answered with
        | failed between => exact ⟨held',by simpa using between⟩
        | waits between => exact ⟨held',by simpa using between⟩
        | delivers packet whole framed between => exact ⟨[],by simpa [whole] using between⟩
      · exact .inr broken
    · exact .inr (broken.grows (readNeededDataSize_grows t fresh _))

/-! ### Memory -/

/-- No header in the stream, the first one or one behind whole packets,
    declares more than fits into a packet. -/
def SizesFit (stream : List Byte) : Prop :=
  ∀ (packets : List (List Byte)) (rest : List Byte), stream = packets.flatten ++ rest →
    (∀ packet ∈ packets, Packet packet) → 12 ≤ rest.length → packetFraming.size rest < 2^32

theorem incomplete_held {s : Receiver σ} {before : List (List Byte)} {held : List Byte}
    (between : Between s before held) : packetFraming.Incomplete held := by
  have pending := between.pending
  rcases between.stage with ⟨_,short⟩ | ⟨data,at_body⟩
  · exact .inl short
  · have length := at_body.length
    exact .inr (by omega)

theorem sizesFit_between {s : Receiver σ} {before : List (List Byte)} {held : List Byte}
    (between : Between s before held) : SizesFit s.received := by
  intro packets rest split framed header
  rw [between.received] at split
  obtain ⟨later,rfl,rest_eq⟩ := frames_incomplete (fun f member => (framed f member).frame)
    (fun f member => (between.packets f member).frame) (incomplete_held between) split.symm
  cases later with
  | nil =>
    rw [show rest = held by simpa using rest_eq] at header ⊢
    rcases between.stage with ⟨_,short⟩ | ⟨data,at_body⟩
    · omega
    · rw [at_body.declared,← at_body.size]
      exact data.fits
  | cons packet later =>
    have first := between.packets packet (by simp)
    rw [rest_eq,List.flatten_cons,List.append_assoc,size_append first.frame.header,← first.frame.length]
    exact first.small

/-- Every access of every run is safe exactly as long as every header that was
    handed over declares a size that fits. -/
theorem accesses_safe_iff (t : TransportCopy σ) (fresh : Nat → Byte) (in_data : σ) (n : Nat) :
    (∀ access ∈ (calls t fresh n { in_data }).2.accesses, access.Safe) ↔
      SizesFit (calls t fresh n { in_data }).2.received := by
  rcases calls_between t fresh in_data n with ⟨held,between⟩ | broken
  · exact ⟨fun _ => sizesFit_between between,fun _ => between.safe⟩
  · constructor
    · intro safe
      obtain ⟨access,member,outside⟩ := broken.unsafe_access
      exact absurd (safe access member) outside
    · intro fit
      obtain ⟨packets,rest,received,framed,header,large⟩ := broken.oversize
      have := fit packets rest received framed header
      omega

/-! ### Arrival in pieces -/

/-- A stream on its way: what has arrived and the pieces still to come, one at
    each poll. -/
structure Pieces where
  arrived : List Byte := []
  schedule : List (List Byte)
def Pieces.unread (p : Pieces) : List Byte := p.arrived ++ p.schedule.flatten
def Pieces.poll (p : Pieces) : Pieces where
  arrived := p.arrived ++ p.schedule.headD []
  schedule := p.schedule.tail
/-- The transport over a stream that arrives in pieces. -/
def pieces : TransportCopy Pieces where
  readBytesAvailable p := (p.poll.arrived.length,p.poll)
  read p size :=
    if size ≤ p.arrived.length then (true,p.arrived.take size,{ p with arrived := p.arrived.drop size })
    else (false,[],p)
  read_le := by
    intro p size
    split
    · exact List.length_take_le ..
    · exact Nat.zero_le _
  read_ok := by
    intro p size ok
    split at ok
    · rename_i there
      simp [there]
    · cases ok

/-- A header that declares the size which means no header: its copy leaves the
    packet buffer of eleven bytes. -/
theorem accesses_unsafe :
    ¬ ∀ (fresh : Nat → Byte) (schedule : List (List Byte)) (n : Nat),
      ∀ access ∈ (calls pieces fresh n { in_data := { schedule } }).2.accesses, access.Safe := by
  intro safe
  have first := safe (fun _ => 0) [[255,255,255,255,2,0,0,0,1,0,0,0]] 1
  revert first
  decide +kernel

theorem poll_unread (p : Pieces) : p.poll.unread = p.unread := by
  obtain ⟨arrived,schedule⟩ := p
  cases schedule <;> simp [Pieces.poll,Pieces.unread]

/-- A read over pieces never fails and loses nothing; it takes all that has
    arrived unless it completes what it reads. -/
structure Flow (s : Receiver Pieces) (status : ReadDataStatus) (s' : Receiver Pieces) : Prop where
  success : status ≠ .failed
  bytes : s'.received ++ s'.in_data.unread = s.received ++ s.in_data.unread
  schedule : s'.in_data.schedule = s.in_data.schedule.tail
  drained : s'.in_data.arrived = [] ∨ (status = .available ∧ s'.m_incoming_packet.need_size = 0)

theorem readDataIsAvailable_flow (buffer : Data) (base size : Nat) (s : Receiver Pieces) :
    Flow s (readDataIsAvailable pieces buffer base size s).1 (readDataIsAvailable pieces buffer base size s).2.2 := by
  have unread := poll_unread s.in_data
  have there : min s.m_incoming_packet.need_size s.in_data.poll.arrived.length ≤ s.in_data.poll.arrived.length :=
    Nat.min_le_right _ _
  unfold readDataIsAvailable
  simp only [pieces,if_pos there,if_true]
  split
  · split
    · refine ⟨by simp,?_,rfl,?_⟩
      · rw [← unread]
        simp only [Pieces.unread,List.append_assoc]
        rw [← List.append_assoc (List.take _ _),List.take_append_drop]
      · by_cases all : s.in_data.poll.arrived.length ≤ s.m_incoming_packet.need_size
        · left
          simp [Nat.min_eq_right all]
        · right
          simp
          omega
    · rename_i some nothing
      refine ⟨by simp,by rw [← unread],rfl,.inr ⟨rfl,?_⟩⟩
      dsimp only
      omega
  · rename_i none
    have empty : s.in_data.poll.arrived = [] := by simpa using none
    exact ⟨by simp,by rw [← unread],rfl,.inl empty⟩

theorem receiveHeader_flow (fresh : Nat → Byte) {s : Receiver Pieces}
    (waiting : s.m_incoming_packet.data_size = c_invalid_packet_size) :
    (receiveHeader pieces fresh s).1 = true ∧
      (receiveHeader pieces fresh s).2.received ++ (receiveHeader pieces fresh s).2.in_data.unread =
        s.received ++ s.in_data.unread ∧
      (receiveHeader pieces fresh s).2.in_data.schedule = s.in_data.schedule.tail ∧
      ((receiveHeader pieces fresh s).2.m_incoming_packet_header_data = none →
        (receiveHeader pieces fresh s).2.in_data.arrived = []) := by
  have flow := readDataIsAvailable_flow s.m_incoming_packet.raw_header_buffer 0 c_net_call_packet_header_size s
  unfold receiveHeader
  rw [if_pos waiting]
  revert flow
  generalize readDataIsAvailable pieces s.m_incoming_packet.raw_header_buffer 0 c_net_call_packet_header_size s = read
  obtain ⟨status,buffer,s'⟩ := read
  intro (flow : Flow s status s')
  cases status with
  | failed => exact absurd rfl flow.success
  | nodata =>
    refine ⟨rfl,flow.bytes,flow.schedule,fun _ => ?_⟩
    exact flow.drained.resolve_right fun read => by cases read.1
  | available =>
    dsimp only
    split
    · exact ⟨rfl,flow.bytes,flow.schedule,fun missing => by cases missing⟩
    · rename_i unfinished
      exact ⟨rfl,flow.bytes,flow.schedule,fun _ => flow.drained.resolve_right fun read => unfinished read.2⟩

/-- What a call over pieces answers: a packet, or what is missing after all
    that has arrived was taken. -/
structure CallFlow (s : Receiver Pieces) (answer : Nat × Option Data) (s' : Receiver Pieces) : Prop where
  bytes : s'.received ++ s'.in_data.unread = s.received ++ s.in_data.unread
  polled : s'.in_data.schedule.length ≤ s.in_data.schedule.length - 1
  waits : answer.2 = none → answer.1 = s'.m_incoming_packet.need_size ∧ s'.in_data.arrived = []

theorem receiveBody_flow {s : Receiver Pieces} {data : Data} (buffer : s.m_incoming_packet_header_data = some data)
    (sized : s.m_incoming_packet.data_size ≠ c_invalid_packet_size) :
    CallFlow s (receiveBody pieces s).1 (receiveBody pieces s).2 := by
  have flow := readDataIsAvailable_flow data c_net_call_packet_header_size s.m_incoming_packet.data_size s
  unfold receiveBody
  rw [if_pos sized,buffer]
  dsimp only
  revert flow
  generalize readDataIsAvailable pieces data c_net_call_packet_header_size s.m_incoming_packet.data_size s = read
  obtain ⟨status,data,s'⟩ := read
  intro (flow : Flow s status s')
  have polled : s'.in_data.schedule.length ≤ s.in_data.schedule.length - 1 := by simp [flow.schedule]
  rw [if_neg flow.success]
  dsimp only
  split
  · exact ⟨flow.bytes,polled,fun missing => by cases missing⟩
  · rename_i unfinished
    exact ⟨flow.bytes,polled,fun _ => ⟨rfl,flow.drained.resolve_right fun read => unfinished read.2⟩⟩

/-- A stream of packets breaks no framer that reads it. -/
theorem packets_not_broken {packets : List (List Byte)} (framed : ∀ packet ∈ packets, Packet packet) {s : Receiver σ}
    {rest : List Byte} (whole : s.received ++ rest = packets.flatten) : ¬ Broken s := by
  intro broken
  obtain ⟨before,behind,received,before_framed,header,large⟩ := broken.oversize
  rw [received,List.append_assoc] at whole
  obtain ⟨later,rfl,ends⟩ := frames_prefix (fun f member => (before_framed f member).frame)
    (fun f member => (framed f member).frame) whole
  cases later with
  | nil =>
    have empty := congrArg List.length ends
    simp only [List.length_append,List.flatten_nil,List.length_nil] at empty
    omega
  | cons packet later =>
    have first := framed packet (by simp)
    have size : packetFraming.size behind = packet.length := by
      rw [← size_append header rest,ends,List.flatten_cons,size_append first.frame.header,← first.frame.length]
    have small := first.small
    omega

/-- One call over the beginning of a stream of packets, whatever has arrived of it. -/
theorem pieces_step (fresh : Nat → Byte) {packets : List (List Byte)} (framed : ∀ packet ∈ packets, Packet packet)
    {s : Receiver Pieces} {before : List (List Byte)} {held : List Byte} (between : Between s before held)
    (bytes : s.received ++ s.in_data.unread <+: packets.flatten) :
    ∃ held', Answered before held' (readNeededDataSize pieces fresh s).2 (readNeededDataSize pieces fresh s).1 ∧
      CallFlow s (readNeededDataSize pieces fresh s).1 (readNeededDataSize pieces fresh s).2 := by
  have sized {s' : Receiver Pieces} {held : List Byte} {data : Data} (at_body : AtBody s' held data) :
      s'.m_incoming_packet.data_size ≠ c_invalid_packet_size := by
    have fits : data.size < 2^32 := data.fits
    have size := at_body.size
    unfold c_invalid_packet_size
    omega
  unfold readNeededDataSize
  rcases between.stage with ⟨at_header,short⟩ | ⟨data,at_body⟩
  · have first := receiveHeader_held pieces fresh between
    have flow := receiveHeader_flow fresh at_header.waiting
    revert first flow
    generalize receiveHeader pieces fresh s = received
    obtain ⟨ok,s'⟩ := received
    rintro (⟨bs,holds,_⟩ | broken) ⟨rfl,kept,schedule,drained⟩
    · obtain ⟨more,answered⟩ := receiveBody_held pieces holds
      refine ⟨_,answered,?_⟩
      have polled : s'.in_data.schedule.length = s.in_data.schedule.length - 1 := by
        rw [show s'.in_data.schedule = s.in_data.schedule.tail from schedule,List.length_tail]
      rcases holds.stage with ⟨still,_⟩ | ⟨data,at_body⟩
      · have stays : receiveBody pieces s' = ((s'.m_incoming_packet.need_size,none),s') :=
          if_neg fun sized => sized still.waiting
        show CallFlow s (receiveBody pieces s').1 (receiveBody pieces s').2
        rw [stays]
        exact ⟨kept,Nat.le_of_eq polled,fun _ => ⟨rfl,drained still.nothing⟩⟩
      · have then_body := receiveBody_flow at_body.buffer (sized at_body)
        refine ⟨then_body.bytes.trans kept,?_,then_body.waits⟩
        calc (receiveBody pieces s').2.in_data.schedule.length
            ≤ s'.in_data.schedule.length - 1 := then_body.polled
          _ ≤ s.in_data.schedule.length - 1 := by omega
    · obtain ⟨rest,whole⟩ := bytes
      rw [← kept,List.append_assoc] at whole
      exact absurd broken (packets_not_broken framed whole)
  · have stays : receiveHeader pieces fresh s = (true,s) := if_neg (sized at_body)
    obtain ⟨bs,answered⟩ := receiveBody_held pieces between.toHeld
    rw [stays]
    exact ⟨_,answered,receiveBody_flow at_body.buffer (sized at_body)⟩

theorem missing_held {s : Receiver σ} {before : List (List Byte)} {held : List Byte} (between : Between s before held) :
    s.m_incoming_packet.need_size = packetFraming.missing held := by
  unfold Framing.missing
  rcases between.stage with ⟨at_header,short⟩ | ⟨data,at_body⟩
  · have length := at_header.length
    rw [if_pos (show held.length < packetFraming.header from short)]
    show _ = 12 - held.length
    omega
  · have length := at_body.length
    have header := at_body.header
    rw [if_neg (show ¬ held.length < packetFraming.header from Nat.not_lt.mpr header)]
    omega

/-- After `n` calls over pieces of a stream of packets: what was delivered,
    what is held of the next packet, and how much the calls got done. -/
structure PiecesRun (packets schedule : List (List Byte)) (n : Nat) (answers : List (Nat × Option Data))
    (s : Receiver Pieces) (held : List Byte) : Prop where
  between : Between s (delivered answers) held
  bytes : s.received ++ s.in_data.unread = packets.flatten
  progress : s.in_data.schedule.length + packets.length ≤ schedule.length + packets.length - n + (delivered answers).length
  last : ∀ answer, answers.getLast? = some answer →
    (answer.2 ≠ none → held = []) ∧ (answer.2 = none → 0 < answer.1 ∧ answer.1 = packetFraming.missing held)

theorem PiecesRun.split {packets schedule : List (List Byte)} (framed : ∀ packet ∈ packets, Packet packet) {n : Nat}
    {answers : List (Nat × Option Data)} {s : Receiver Pieces} {held : List Byte}
    (run : PiecesRun packets schedule n answers s held) :
    ∃ later, packets = delivered answers ++ later ∧ held ++ s.in_data.unread = later.flatten := by
  have whole := run.bytes
  rw [run.between.received,List.append_assoc] at whole
  exact frames_prefix (fun f member => (run.between.packets f member).frame)
    (fun f member => (framed f member).frame) whole

/-- Once everything was taken, everything was delivered. -/
theorem all_delivered {packets before : List (List Byte)} (framed : ∀ packet ∈ packets, Packet packet)
    {s : Receiver σ} {held : List Byte} (between : Between s before held) (bytes : s.received = packets.flatten) :
    packets = before := by
  rw [between.received] at bytes
  obtain ⟨later,rfl,ends⟩ := frames_prefix (fun f member => (between.packets f member).frame)
    (fun f member => (framed f member).frame) bytes
  cases later with
  | nil => simp
  | cons packet later =>
    have incomplete := incomplete_held between
    rw [ends,List.flatten_cons] at incomplete
    exact absurd incomplete (incomplete_first (framed packet (by simp)).frame)

theorem pieces_run (fresh : Nat → Byte) {packets schedule : List (List Byte)}
    (framed : ∀ packet ∈ packets, Packet packet) (arrives : schedule.flatten = packets.flatten) (n : Nat) :
    ∃ held, PiecesRun packets schedule n (calls pieces fresh n { in_data := { schedule } }).1
      (calls pieces fresh n { in_data := { schedule } }).2 held := by
  induction n with
  | zero =>
    refine ⟨[],start_between _,?_,by simp [calls,delivered],fun answer last => by cases last⟩
    simpa [calls,Pieces.unread] using arrives
  | succ n ih =>
    obtain ⟨held,run⟩ := ih
    obtain ⟨held',answered,flow⟩ := pieces_step fresh framed run.between (run.bytes ▸ List.prefix_rfl)
    simp only [calls]
    have progress := run.progress
    revert answered flow
    generalize readNeededDataSize pieces fresh (calls pieces fresh n { in_data := { schedule } }).2 = call
    obtain ⟨answer,s'⟩ := call
    intro (answered : Answered _ held' s' answer) (flow : CallFlow _ answer s')
    have polled := flow.polled
    have bytes := flow.bytes.trans run.bytes
    have waited (between : Between s' (delivered (calls pieces fresh n { in_data := { schedule } }).1) held')
        (nothing : answer.2 = none) : ∃ held, PiecesRun packets schedule (n+1)
          ((calls pieces fresh n { in_data := { schedule } }).1 ++ [answer]) s' held := by
      obtain ⟨needed,drained⟩ := flow.waits nothing
      have same : delivered ((calls pieces fresh n { in_data := { schedule } }).1 ++ [answer]) =
          delivered (calls pieces fresh n { in_data := { schedule } }).1 := by
        simp [delivered_append,nothing]
      refine ⟨held',by rwa [same],bytes,?_,?_⟩
      · rw [same]
        by_cases finished : (calls pieces fresh n { in_data := { schedule } }).2.in_data.schedule = []
        · have ended : s'.in_data.schedule = [] := by
            rw [finished] at polled
            exact List.length_eq_zero_iff.mp (by simpa using polled)
          have nothing : s'.in_data.unread = [] := by simp [Pieces.unread,drained,ended]
          rw [nothing,List.append_nil] at bytes
          have all := all_delivered framed between bytes
          rw [ended,← all]
          simp
        · have some := List.length_pos_iff.mpr finished
          omega
      · intro last is_last
        obtain rfl : answer = last := by simpa using is_last
        rw [needed,missing_held between]
        exact ⟨fun packet => absurd nothing packet,fun _ => ⟨missing_pos (incomplete_held between),rfl⟩⟩
    cases answered with
    | failed between => exact waited between rfl
    | waits between => exact waited between rfl
    | delivers packet whole packed between =>
      refine ⟨[],by simpa [delivered_append,whole] using between,bytes,?_,?_⟩
      · simp only [delivered_append,Option.map_some,Option.toList_some,List.length_append,List.length_singleton]
        omega
      · intro last is_last
        obtain rfl : _ = last := by simpa using is_last
        exact ⟨fun _ => rfl,fun nothing => by cases nothing⟩

/-- Enough calls deliver the whole stream. -/
theorem pieces_delivered (fresh : Nat → Byte) {packets schedule : List (List Byte)}
    (framed : ∀ packet ∈ packets, Packet packet) (arrives : schedule.flatten = packets.flatten) {n : Nat}
    (enough : schedule.length + packets.length ≤ n) :
    delivered (calls pieces fresh n { in_data := { schedule } }).1 = packets := by
  obtain ⟨held,run⟩ := pieces_run fresh framed arrives n
  obtain ⟨later,split,_⟩ := run.split framed
  have progress := run.progress
  have lengths := congrArg List.length split
  rw [List.length_append] at lengths
  have nothing : later = [] := List.length_eq_zero_iff.mp (by omega)
  rw [nothing,List.append_nil] at split
  exact split.symm

/-- However the bytes of a sequence of packets arrive, repeated calls deliver
    the packets, in order and byte for byte. A call takes nothing of the packet
    after the one it delivers, and one that delivers nothing answers what is
    missing. -/
theorem framing_independent (fresh : Nat → Byte) (packets schedule : List (List Byte))
    (framed : ∀ packet ∈ packets, Packet packet) (arrives : schedule.flatten = packets.flatten) (n : Nat) :
    (∃ later held,
      packets = delivered (calls pieces fresh n { in_data := { schedule } }).1 ++ later ∧
      later.flatten = held ++ (calls pieces fresh n { in_data := { schedule } }).2.in_data.unread ∧
      ∀ answer, (calls pieces fresh n { in_data := { schedule } }).1.getLast? = some answer →
        (answer.2 ≠ none → held = []) ∧
        (answer.2 = none → 0 < answer.1 ∧ answer.1 = packetFraming.missing held)) ∧
    (schedule.length + packets.length ≤ n → delivered (calls pieces fresh n { in_data := { schedule } }).1 = packets) := by
  obtain ⟨held,run⟩ := pieces_run fresh framed arrives n
  obtain ⟨later,split,ends⟩ := run.split framed
  exact ⟨⟨later,held,split,ends.symm,run.last⟩,pieces_delivered fresh framed arrives⟩

/-- A packet without a body and one with two bytes, cut inside the second header. -/
theorem framing_independent_two :
    delivered (calls pieces (fun _ => 0) 5
      { in_data := { schedule := [[0,0,0,0,2,0,0,0,1,0,0,0,2,0,0],[],[0,2,0,0,0,2,0,0,0,65,66]] } }).1 =
      [[0,0,0,0,2,0,0,0,1,0,0,0],[2,0,0,0,2,0,0,0,2,0,0,0,65,66]] :=
  (framing_independent (fun _ => 0) [[0,0,0,0,2,0,0,0,1,0,0,0],[2,0,0,0,2,0,0,0,2,0,0,0,65,66]]
    [[0,0,0,0,2,0,0,0,1,0,0,0,2,0,0],[],[0,2,0,0,0,2,0,0,0,65,66]] (by decide) (by decide) 5).2 (by decide)

end IpcPortable.PacketRuns
