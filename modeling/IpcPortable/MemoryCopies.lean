import IpcPortable.SentFrames
import IpcPortable.TransportProxy

/-!
`TransportProxy` over `IpcTransport_MemoryCopy`. What one side wrote and the other
one did not read is kept as bytes. The other side may write while a `Read` of the
proxy runs, so whenever it asks for the bytes there may be more. However they come,
a `Read` takes the next packet or nothing (`read_takes`).
-/
namespace IpcPortable.MemoryCopies
open IpcPortable.LittleEndian IpcPortable.Frames IpcPortable.DataStream IpcPortable.Packets
open IpcPortable.PacketParser IpcPortable.PacketRuns IpcPortable.TransportProxy IpcPortable.SentFrames
variable {σ τ : Type}

/-- The loop of `IpcTransport_MemoryCopy::WaitRespond`, which looks again whenever
    something was written; without an end it still waits. -/
def waitLoop (expected_size : Nat) (data : List Byte) : List (List Byte) → Option Pieces
  | [] => if data.length < expected_size then none else some { arrived := data, schedule := [] }
  | written :: schedule =>
    if data.length < expected_size then waitLoop expected_size (data ++ written) schedule
    else some { arrived := data, schedule := written :: schedule }
/-- `IpcTransport_MemoryCopy::WaitRespond`. -/
def waitRespond (expected_size : Nat) (m_read : Pieces) : Option Pieces := waitLoop expected_size m_read.arrived m_read.schedule
/-- `TransportProxy::Read`. -/
def proxyRead (fresh : Nat → Byte) (wait_incoming_packet : Bool) (s : Receiver Pieces) :
    Option ((Bool × Option Data) × Receiver Pieces) :=
  let first := readNeededDataSize pieces fresh s
  if first.1.1 = c_invalid_packet_size then some ((false,first.1.2),{ first.2 with raised := first.2.raised + 1 })
  else if first.1.2.isNone ∧ wait_incoming_packet then
    (waitRespond first.1.1 first.2.in_data).map fun m_read =>
      let second := readNeededDataSize pieces fresh { first.2 with in_data := m_read }
      if second.1.1 = c_invalid_packet_size then ((false,second.1.2),{ second.2 with raised := second.2.raised + 1 })
      else ((true,second.1.2),second.2)
  else some ((true,first.1.2),first.2)
/-- The same where the transport keeps bytes; `schedule` is what was written before
    the `Read` and in the meantime. -/
def memoryRead (fresh : Nat → Byte) (wait_incoming_packet : Bool) (schedule : List (List Byte)) (s : Receiver (List Byte)) :
    Option ((Bool × Option Data) × Receiver (List Byte)) :=
  if schedule.flatten = s.in_data then
    (proxyRead fresh wait_incoming_packet (across (fun _ => { schedule }) s)).map fun read =>
      (read.1,across Pieces.unread read.2)
  else none
/-- `TransportProxy::Write` of packets, one after the other. -/
def memoryWrite (packets : List Data) (s : Receiver (List Byte)) : Receiver (List Byte) :=
  { s with in_data := s.in_data ++ (packets.map Data.bytes).flatten }

/-- What is still to come are the packets: the framer holds the beginning of them. -/
def Left (s : Receiver σ) (unread : List Byte) (packets : List Data) : Prop :=
  ∃ before held, Between s before held ∧ held ++ unread = (packets.map Data.bytes).flatten

theorem start_left (in_data : σ) : Left ({ in_data } : Receiver σ) [] [] := ⟨[],[],start_between in_data,rfl⟩

/-- The packets are the same for another transport. -/
theorem Left.across {s : Receiver σ} {unread : List Byte} {packets : List Data} (left : Left s unread packets) (f : σ → τ) :
    Left (TransportProxy.across f s) unread packets := by
  obtain ⟨before,held,between,bytes⟩ := left
  exact ⟨before,held,(between_across f).mpr between,bytes⟩

theorem Left.aside {s : Receiver σ} {unread : List Byte} {packets : List Data} (left : Left s unread packets) (in_data : σ)
    (raised : Nat) : Left { s with in_data, raised } unread packets := by
  obtain ⟨before,held,between,bytes⟩ := left
  exact ⟨before,held,between_aside between in_data raised,bytes⟩

theorem Left.write {s : Receiver (List Byte)} {packets : List Data} (left : Left s s.in_data packets) (sent : List Data) :
    Left (memoryWrite sent s) (memoryWrite sent s).in_data (packets ++ sent) := by
  obtain ⟨before,held,between,bytes⟩ := left
  refine ⟨before,held,between_aside between _ s.raised,?_⟩
  show held ++ (s.in_data ++ _) = _
  rw [← List.append_assoc,bytes,List.map_append,List.flatten_append]

/-- What is missing of a packet is not the size that means an error. -/
theorem between_needs {s : Receiver σ} {before : List (List Byte)} {held : List Byte} (between : Between s before held) :
    s.m_incoming_packet.need_size < c_invalid_packet_size := by
  unfold c_invalid_packet_size
  rcases between.stage with ⟨at_header,_⟩ | ⟨data,at_body⟩
  · have length := at_header.length
    omega
  · have length := at_body.length
    have header := at_body.header
    have size := at_body.size
    have declared := at_body.declared
    have fits : data.size < 2^32 := data.fits
    omega

section packets
variable {packets : List Data} (framed : ∀ packet ∈ packets, WholeFrame packet)
include framed

theorem framed_bytes : ∀ bytes ∈ packets.map Data.bytes, Packet bytes := by
  intro bytes member
  obtain ⟨packet,listed,rfl⟩ := List.mem_map.mp member
  exact wholeFrame_packet (framed packet listed)

/-- A call of the framer takes the next packet or nothing. -/
theorem call_takes (fresh : Nat → Byte) {s : Receiver Pieces} (left : Left s s.in_data.unread packets) :
    (readNeededDataSize pieces fresh s).1.1 ≠ c_invalid_packet_size ∧
      ∃ rest, packets = (readNeededDataSize pieces fresh s).1.2.toList ++ rest ∧
        Left (readNeededDataSize pieces fresh s).2 (readNeededDataSize pieces fresh s).2.in_data.unread rest := by
  obtain ⟨before,held,between,bytes⟩ := left
  have whole : ∀ packet ∈ before ++ packets.map Data.bytes, Packet packet := by
    intro packet member
    rcases List.mem_append.mp member with old | new
    · exact between.packets packet old
    · exact framed_bytes framed packet new
  have stream : s.received ++ s.in_data.unread = (before ++ packets.map Data.bytes).flatten := by
    rw [between.received,List.append_assoc,bytes,List.flatten_append]
  obtain ⟨held',answered,flow⟩ := pieces_step fresh whole between (stream ▸ List.prefix_rfl)
  have kept := flow.bytes.trans stream
  have waits := flow.waits
  revert answered kept waits
  generalize readNeededDataSize pieces fresh s = call
  obtain ⟨answer,s'⟩ := call
  intro (answered : Answered before held' s' answer) kept waits
  have behind {taken : List (List Byte)} {part : List Byte} (received : s'.received = (before ++ taken).flatten ++ part) :
      taken.flatten ++ (part ++ s'.in_data.unread) = (packets.map Data.bytes).flatten := by
    have same : s'.received ++ s'.in_data.unread = (before ++ packets.map Data.bytes).flatten := kept
    rw [received,List.flatten_append,List.flatten_append,List.append_assoc,List.append_assoc] at same
    exact List.append_cancel_left same
  cases answered with
  | failed between' =>
    have missing : c_invalid_packet_size = s'.m_incoming_packet.need_size := (waits rfl).1
    exact absurd missing.symm (Nat.ne_of_lt (between_needs between'))
  | waits between' =>
    refine ⟨Nat.ne_of_lt (between_needs between'),packets,rfl,before,held',between',?_⟩
    exact @behind [] held' (by rw [List.append_nil]; exact between'.received)
  | delivers packet is_packet packet_framed between' =>
    refine ⟨show c_net_call_packet_header_size ≠ c_invalid_packet_size by decide,?_⟩
    have first := @behind [held'] [] between'.received
    obtain ⟨later,listed,ends⟩ := frames_prefix (fun f member => (List.mem_singleton.mp member ▸ packet_framed.frame))
      (fun f member => (framed_bytes framed f member).frame) first
    obtain ⟨next,rest,rfl,same,rfl⟩ := List.map_eq_cons_iff.mp listed
    have equal : next = packet := by
      obtain ⟨content,fits⟩ := next
      obtain ⟨content',fits'⟩ := packet
      obtain rfl : content = content' := same.trans is_packet.symm
      rfl
    subst equal
    exact ⟨rest,rfl,before ++ [held'],[],between',ends⟩

end packets

theorem waitLoop_unread {expected_size : Nat} {data : List Byte} {schedule : List (List Byte)} {m_read : Pieces}
    (waited : waitLoop expected_size data schedule = some m_read) : m_read.unread = data ++ schedule.flatten := by
  induction schedule generalizing data with
  | nil =>
    unfold waitLoop at waited
    split at waited
    · cases waited
    · cases waited
      rfl
  | cons written schedule ih =>
    unfold waitLoop at waited
    split at waited
    · rw [ih waited,List.flatten_cons,List.append_assoc]
    · cases waited
      rfl

section reads
variable {packets : List Data} (framed : ∀ packet ∈ packets, WholeFrame packet) (fresh : Nat → Byte) (wait_incoming_packet : Bool)
include framed

theorem proxyRead_takes {s s' : Receiver Pieces} {answer : Bool × Option Data} (left : Left s s.in_data.unread packets)
    (read : proxyRead fresh wait_incoming_packet s = some (answer,s')) :
    answer.1 = true ∧ ∃ rest, packets = answer.2.toList ++ rest ∧ Left s' s'.in_data.unread rest := by
  obtain ⟨valid,rest,taken,left'⟩ := call_takes framed fresh left
  unfold proxyRead at read
  dsimp only at read
  revert valid taken left' read
  generalize readNeededDataSize pieces fresh s = call
  obtain ⟨⟨needed_data_size,packet⟩,between⟩ := call
  intro read valid taken left'
  dsimp only at read valid taken left'
  rw [if_neg valid] at read
  by_cases waits : packet.isNone ∧ wait_incoming_packet
  · rw [if_pos waits] at read
    obtain ⟨m_read,waited,read⟩ := Option.map_eq_some_iff.mp read
    obtain rfl : packet = none := Option.isNone_iff_eq_none.mp waits.1
    obtain rfl : packets = rest := taken
    have unread : m_read.unread = between.in_data.unread := waitLoop_unread waited
    obtain ⟨valid',rest',taken',left''⟩ := @call_takes packets framed fresh { between with in_data := m_read }
      (unread.symm ▸ left'.aside m_read between.raised)
    rw [if_neg valid'] at read
    cases read
    exact ⟨rfl,rest',taken',left''⟩
  · rw [if_neg waits] at read
    cases read
    exact ⟨rfl,rest,taken,left'⟩

/-- However the bytes come, a `Read` succeeds and takes the next packet or nothing. -/
theorem read_takes {schedule : List (List Byte)} {s s' : Receiver (List Byte)} {answer : Bool × Option Data}
    (left : Left s s.in_data packets) (read : memoryRead fresh wait_incoming_packet schedule s = some (answer,s')) :
    answer.1 = true ∧ ∃ rest, packets = answer.2.toList ++ rest ∧ Left s' s'.in_data rest := by
  unfold memoryRead at read
  split at read
  · rename_i same
    obtain ⟨⟨answer',between⟩,reads,whole⟩ := Option.map_eq_some_iff.mp read
    cases whole
    have arrives : Left (TransportProxy.across (fun _ => ({ schedule } : Pieces)) s)
        (TransportProxy.across (fun _ => ({ schedule } : Pieces)) s).in_data.unread packets := by
      rw [show (TransportProxy.across (fun _ => ({ schedule } : Pieces)) s).in_data.unread = schedule.flatten from rfl,same]
      exact left.across _
    obtain ⟨ok,rest,taken,left'⟩ := proxyRead_takes framed fresh wait_incoming_packet arrives reads
    exact ⟨ok,rest,taken,left'.across _⟩
  · cases read

end reads

end IpcPortable.MemoryCopies
