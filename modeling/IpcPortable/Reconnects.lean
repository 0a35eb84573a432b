import IpcPortable.TransportProxy

/-!
A connection that takes the place of another one. The framer is not told of
it: what it holds of an incomplete packet goes before the first packet of the
new connection, so that the new stream is framed as it has to be exactly when
the framer stopped between two packets (`reconnected_afresh`).
-/
namespace IpcPortable.Reconnects
open IpcPortable.LittleEndian IpcPortable.Frames IpcPortable.DataStream IpcPortable.Packets
open IpcPortable.PacketParser IpcPortable.PacketRuns IpcPortable.TransportProxy

/-- The bytes that were taken are whole packets. -/
def Whole (received : List Byte) : Prop :=
  ∃ packets : List (List Byte), (∀ packet ∈ packets, Packet packet) ∧ received = packets.flatten

/-- An object whose connections so far brought the beginnings of streams of
    packets and ended, as far as they were read, between two packets. -/
inductive Clean (fresh : Nat → Byte) : Receiver TransporTcp → Prop
  | start : Clean fresh { in_data := {} }
  | lost {s : Receiver TransporTcp} {packets schedule : List (List Byte)} {events : List Event} (clean : Clean fresh s)
    (framed : ∀ packet ∈ packets, Packet packet) (arrives : schedule.flatten <+: packets.flatten)
    (stay : ∀ event ∈ events, event.Stays)
    (whole : Whole (run fresh (.assigned { schedule } :: events) s).2.received) :
    Clean fresh (run fresh (.assigned { schedule } :: events) s).2

/-! ### What the framer holds -/

theorem whole_held {σ : Type} {s : Receiver σ} {before : List (List Byte)} {held : List Byte} (between : Between s before held) :
    Whole s.received ↔ held = [] := by
  constructor
  · rintro ⟨packets,framed,bytes⟩
    have all := all_delivered framed between bytes
    have received := between.received
    rw [bytes,all] at received
    exact List.append_right_eq_self.mp received.symm
  · rintro rfl
    exact ⟨before,between.packets,by simpa using between.received⟩

theorem assigned_streams {s : Receiver TransporTcp} {before packets schedule : List (List Byte)}
    (between : Between s before []) (arrives : schedule.flatten <+: packets.flatten) :
    Streams (before ++ packets) before { s with in_data := { m_connection := some { schedule } } } := by
  refine ⟨⟨[],between_aside between _ s.raised⟩,?_⟩
  have received := between.received
  rw [List.append_nil] at received
  show s.received ++ ([] ++ schedule.flatten) <+: (before ++ packets).flatten
  rw [received,List.nil_append,List.flatten_append]
  exact (List.prefix_append_right_inj _).mpr arrives

/-- A connection of a clean object. -/
theorem connection_streams (fresh : Nat → Byte) {s : Receiver TransporTcp} {before packets schedule : List (List Byte)}
    (between : Between s before []) (framed : ∀ packet ∈ packets, Packet packet)
    (arrives : schedule.flatten <+: packets.flatten) {events : List Event} (stay : ∀ event ∈ events, event.Stays) :
    Streams (before ++ packets) (before ++ (run fresh (.assigned { schedule } :: events) s).1)
      (run fresh (.assigned { schedule } :: events) s).2 := by
  have all : ∀ packet ∈ before ++ packets, Packet packet := by
    intro packet member
    rcases List.mem_append.mp member with old | new
    · exact between.packets packet old
    · exact framed packet new
  exact run_streams fresh all stay (assigned_streams between arrives)

theorem clean_between {fresh : Nat → Byte} {s : Receiver TransporTcp} (clean : Clean fresh s) :
    ∃ before, Between s before [] := by
  induction clean with
  | start => exact ⟨[],start_between _⟩
  | lost _ framed arrives stay whole ih =>
    obtain ⟨before,between⟩ := ih
    obtain ⟨held,after⟩ := (connection_streams fresh between framed arrives stay).between
    obtain rfl : held = [] := (whole_held after).mp whole
    exact ⟨_,after⟩

/-! ### A second stream that is framed otherwise -/

/-- A packet of zeros behind the declared size. -/
def zeroPacket (size : Nat) : List Byte := encodeHeader size pt_undefined c_invalid_id ++ List.replicate size 0

@[simp] theorem zeroPacket_length (size : Nat) : (zeroPacket size).length = 12 + size := by
  simp [zeroPacket]

theorem zeroPacket_packet {size : Nat} (small : 12 + size < 2^32) : Packet (zeroPacket size) := by
  have header : (zeroPacket size).take 12 = encodeHeader size pt_undefined c_invalid_id :=
    List.take_left' (encodeHeader_length ..)
  refine ⟨⟨?_,?_⟩,by simpa using small⟩
  · rw [zeroPacket_length]
    exact Nat.le_add_right 12 size
  · rw [zeroPacket_length,size_header (by omega) header]

/-- The declared size is in the first four bytes. -/
theorem size_first {a : List Byte} (sized : 4 ≤ a.length) (b : List Byte) :
    packetFraming.size (a ++ b) = 12 + (ofBytes (8*4) (a.take 4)).toNat := by
  have first : ((a ++ b).take 12).take 4 = a.take 4 := by
    rw [List.take_take,List.take_append_of_le_length (by simpa using sized)]
    rfl
  exact congrArg (fun bs => 12 + (ofBytes (8*4) bs).toNat) first

/-- Behind a piece of a packet that has its size. -/
theorem realign_sized {packet held : List Byte} (framed : Packet packet) (begins : held <+: packet)
    (short : held.length < packet.length) (sized : 4 ≤ held.length) :
    ∃ second third : List (List Byte), (∀ f ∈ second, Packet f) ∧ (∀ f ∈ third, Packet f) ∧
      third.flatten = held ++ second.flatten := by
  obtain ⟨tail,rfl⟩ := begins
  have small := framed.small
  have total : held.length + tail.length = 12 + (ofBytes (8*4) (held.take 4)).toNat := by
    rw [← size_first sized tail,← framed.frame.length,List.length_append]
  rw [List.length_append] at short small
  by_cases large : 12 ≤ tail.length
  · have small' : 12 + (tail.length - 12) < 2^32 := by omega
    have frame : Packet (held ++ zeroPacket (tail.length - 12)) := by
      have length : (held ++ zeroPacket (tail.length - 12)).length = held.length + tail.length := by
        rw [List.length_append,zeroPacket_length]
        omega
      refine ⟨⟨?_,?_⟩,by omega⟩
      · show 12 ≤ _
        omega
      · rw [length,size_first sized,total]
    refine ⟨[zeroPacket (tail.length - 12)],[held ++ zeroPacket (tail.length - 12)],?_,?_,by simp⟩
    · simpa using zeroPacket_packet small'
    · simpa using frame
  · have fits : 12 + tail.length < 2^32 := by omega
    have behind : ∀ n < 12, 0 < n → Packet ((zeroPacket n).drop n) := by decide
    have frame : Packet (held ++ (zeroPacket tail.length).take tail.length) := by
      have length : (held ++ (zeroPacket tail.length).take tail.length).length = held.length + tail.length := by
        rw [List.length_append,List.length_take,zeroPacket_length]
        omega
      refine ⟨⟨?_,?_⟩,by omega⟩
      · show 12 ≤ _
        omega
      · rw [length,size_first sized,total]
    refine ⟨[zeroPacket tail.length],[held ++ (zeroPacket tail.length).take tail.length,
      (zeroPacket tail.length).drop tail.length],?_,?_,?_⟩
    · simpa using zeroPacket_packet fits
    · intro f member
      rcases List.mem_cons.mp member with rfl | rest
      · exact frame
      · rw [List.mem_singleton.mp rest]
        exact behind _ (by omega) (by omega)
    · simp

theorem ofBytes_cons_size {b : Byte} {bs : List Byte} {n : Nat} (rest : (ofBytes (8*4) bs).toNat = n)
    (fits : n*256 + b.toNat < 4294967296) : (ofBytes (8*4) (b :: bs)).toNat = n*256 + b.toNat := by
  subst rest
  exact ofBytes_cons_toNat (Nat.lt_of_lt_of_eq fits (by decide))

/-- A size whose byte `1` comes behind some bytes of another one. -/
theorem ofBytes_begun {held : List Byte} (begun : held ≠ []) (unsized : held.length < 4) :
    ∃ declared, (ofBytes (8*4) ((held ++ [1,0,0,0]).take 4)).toNat = declared ∧ 256 ≤ declared ∧ declared < 2^26 := by
  have one : (ofBytes (8*4) [1]).toNat = 1 := by decide
  have one_zero : (ofBytes (8*4) [1,0]).toNat = 1 := by decide
  have one_zeros : (ofBytes (8*4) [1,0,0]).toNat = 1 := by decide
  match held with
  | [] => exact absurd rfl begun
  | [a] =>
    have first : a.toNat < 256 := a.isLt
    exact ⟨_,ofBytes_cons_size one_zeros (by omega),by omega,by omega⟩
  | [a,b] =>
    have first : a.toNat < 256 := a.isLt
    have second : b.toNat < 256 := b.isLt
    exact ⟨_,ofBytes_cons_size (ofBytes_cons_size one_zero (by omega)) (by omega),by omega,by omega⟩
  | [a,b,c] =>
    have first : a.toNat < 256 := a.isLt
    have second : b.toNat < 256 := b.isLt
    have third : c.toNat < 256 := c.isLt
    exact ⟨_,ofBytes_cons_size (ofBytes_cons_size (ofBytes_cons_size one (by omega)) (by omega)) (by omega),
      by omega,by omega⟩
  | a :: b :: c :: d :: rest =>
    simp only [List.length_cons] at unsized
    omega

/-- Behind the first bytes of a size. -/
theorem realign_unsized {held : List Byte} (begun : held ≠ []) (unsized : held.length < 4) :
    ∃ second third : List (List Byte), (∀ f ∈ second, Packet f) ∧ (∀ f ∈ third, Packet f) ∧
      third.flatten = held ++ second.flatten := by
  obtain ⟨declared,value,large,small⟩ := ofBytes_begun begun unsized
  have front : zeroPacket 1 = [1,0,0,0] ++ List.replicate 9 0 := by decide
  have frame : Packet (held ++ (zeroPacket 1 ++ zeroPacket (declared - 13 - held.length))) := by
    have length : (held ++ (zeroPacket 1 ++ zeroPacket (declared - 13 - held.length))).length = 12 + declared := by
      simp only [List.length_append,zeroPacket_length]
      omega
    refine ⟨⟨?_,?_⟩,by omega⟩
    · show 12 ≤ _
      omega
    · rw [length,front,List.append_assoc,← List.append_assoc held,
        size_first (show 4 ≤ (held ++ [1,0,0,0]).length by simp),value]
  refine ⟨[zeroPacket 1,zeroPacket (declared - 13 - held.length)],
    [held ++ (zeroPacket 1 ++ zeroPacket (declared - 13 - held.length))],?_,?_,by simp⟩
  · intro f member
    rcases List.mem_cons.mp member with rfl | rest
    · exact zeroPacket_packet (by decide)
    · rw [List.mem_singleton.mp rest]
      exact zeroPacket_packet (by omega)
  · simpa using frame

/-- Behind any piece of a packet some stream of packets is framed otherwise. -/
theorem realign {packet held : List Byte} (framed : Packet packet) (begins : held <+: packet)
    (short : held.length < packet.length) (begun : held ≠ []) :
    ∃ second third : List (List Byte), (∀ f ∈ second, Packet f) ∧ (∀ f ∈ third, Packet f) ∧
      third.flatten = held ++ second.flatten := by
  by_cases sized : 4 ≤ held.length
  · exact realign_sized framed begins short sized
  · exact realign_unsized begun (Nat.not_le.mp sized)

/-- What is held is a piece of a packet of the stream. -/
theorem held_piece {packets before : List (List Byte)} (framed : ∀ packet ∈ packets, Packet packet)
    {s : Receiver TransporTcp} {held : List Byte} (between : Between s before held)
    (bytes : s.received ++ s.in_data.unread <+: packets.flatten) (begun : held ≠ []) :
    ∃ packet, Packet packet ∧ held <+: packet ∧ held.length < packet.length := by
  obtain ⟨rest,whole⟩ := bytes
  rw [between.received,List.append_assoc,List.append_assoc] at whole
  obtain ⟨later,rfl,ends⟩ := frames_prefix (fun f member => (between.packets f member).frame)
    (fun f member => (framed f member).frame) whole
  cases later with
  | nil => exact absurd (List.append_eq_nil_iff.mp ends).1 begun
  | cons packet later =>
    have first : Packet packet := framed packet (by simp)
    have begins : held <+: packet ++ later.flatten := ⟨_,ends⟩
    have short : held.length < packet.length := by
      refine Nat.lt_of_not_le fun long => ?_
      obtain ⟨tail,rfl⟩ := List.prefix_of_prefix_length_le (List.prefix_append packet later.flatten) begins long
      exact incomplete_first first.frame (incomplete_held between)
    exact ⟨packet,first,List.prefix_of_prefix_length_le begins (List.prefix_append _ _) (Nat.le_of_lt short),short⟩

/-! ### The next connection -/

/-- On another connection the endpoint gets the packets of its stream, whatever
    they are, if and only if the bytes that were taken of the connections
    before are whole packets. -/
theorem reconnected_afresh {fresh : Nat → Byte} {s : Receiver TransporTcp} (clean : Clean fresh s)
    {packets schedule : List (List Byte)} (framed : ∀ packet ∈ packets, Packet packet)
    (arrives : schedule.flatten <+: packets.flatten) {events : List Event} (stay : ∀ event ∈ events, event.Stays) :
    (∀ second : List (List Byte), (∀ packet ∈ second, Packet packet) →
      ∀ (next : List (List Byte)) (waits : List Bool), next.flatten = second.flatten →
        (run fresh (.assigned { schedule := next } :: waits.map fun wait => .read wait .ready)
            (run fresh (.assigned { schedule } :: events) s).2).1 <+: second ∧
          (next.length + second.length ≤ waits.length →
            (run fresh (.assigned { schedule := next } :: waits.map fun wait => .read wait .ready)
              (run fresh (.assigned { schedule } :: events) s).2).1 = second)) ↔
    Whole (run fresh (.assigned { schedule } :: events) s).2.received := by
  obtain ⟨before,between⟩ := clean_between clean
  have streams := connection_streams fresh between framed arrives stay
  have all : ∀ packet ∈ before ++ packets, Packet packet := by
    intro packet member
    rcases List.mem_append.mp member with old | new
    · exact between.packets packet old
    · exact framed packet new
  generalize before ++ (run fresh (.assigned { schedule } :: events) s).1 = done at streams
  generalize (run fresh (.assigned { schedule } :: events) s).2 = s' at streams ⊢
  obtain ⟨held,after⟩ := streams.between
  have framed_with {stream : List (List Byte)} (framed : ∀ packet ∈ stream, Packet packet) :
      ∀ packet ∈ done ++ stream, Packet packet := by
    intro packet member
    rcases List.mem_append.mp member with old | new
    · exact after.packets packet old
    · exact framed packet new
  rw [whole_held after]
  constructor
  · intro delivers
    refine Decidable.byContradiction fun begun => ?_
    obtain ⟨packet,first,begins,short⟩ := held_piece all after streams.bytes begun
    obtain ⟨second,third,second_framed,third_framed,bytes⟩ := realign first begins short begun
    have enough : [second.flatten].length + second.length ≤
        (List.replicate ([second.flatten].length + second.length + third.length) false).length := by simp
    have expected := (delivers second second_framed [second.flatten] _ (by simp)).2 enough
    have received : s'.received ++ ([] ++ [second.flatten].flatten) = (done ++ third).flatten := by
      rw [after.received,List.flatten_append,bytes]
      simp
    have framed' := (run_delivers fresh (List.replicate ([second.flatten].length + second.length + third.length) false)
      (framed_with third_framed) (between_aside after { m_connection := some { schedule := [second.flatten] } } s'.raised)
      rfl received).2 (by simp)
    have same : second = third := expected.symm.trans framed'
    rw [same] at bytes
    exact begun (List.append_left_eq_self.mp bytes.symm)
  · rintro rfl second second_framed next waits arrives'
    have received : s'.received ++ ([] ++ next.flatten) = (done ++ second).flatten := by
      rw [after.received,List.flatten_append,arrives']
      simp
    exact run_delivers fresh waits (framed_with second_framed)
      (between_aside after { m_connection := some { schedule := next } } s'.raised) rfl received

/-- The connection is lost behind five bytes of a packet; of the same packet on
    the next connection the first seven bytes complete another one. -/
theorem reconnected_stale :
    (run (fun _ => 0) [.assigned { schedule := [[0,0,0,0,3,0,0,0,1,0,0,0]] },.read false .ready,.read false .ready]
      (run (fun _ => 0) [.assigned { schedule := [[0,0,0,0,3]] },.read false .ready,.disconnected] { in_data := {} }).2).1 ≠
      [[0,0,0,0,3,0,0,0,1,0,0,0]] := by
  decide +kernel

/-- The connection is lost behind a whole packet. -/
theorem reconnected_afresh_packet :
    (run (fun _ => 0) [.assigned { schedule := [[0,0,0,0,3,0],[0,0,1,0,0,0]] },.read true .ready,.read true .ready,.read true .ready]
      (run (fun _ => 0) [.assigned { schedule := [[0,0,0,0,3,0,0,0,1,0,0,0]] },.read false .ready,.disconnected]
        { in_data := {} }).2).1 = [[0,0,0,0,3,0,0,0,1,0,0,0]] := by
  have stay : ∀ event ∈ ([.read false .ready,.disconnected] : List Event), event.Stays := by
    intro event member
    simp only [List.mem_cons,List.not_mem_nil,or_false] at member
    rcases member with rfl | rfl <;> trivial
  refine ((@reconnected_afresh (fun _ => 0) _ .start [[0,0,0,0,3,0,0,0,1,0,0,0]] [[0,0,0,0,3,0,0,0,1,0,0,0]] (by decide)
    List.prefix_rfl _ stay).mpr ?_ [[0,0,0,0,3,0,0,0,1,0,0,0]] (by decide) _ [true,true,true] (by decide)).2 (by decide)
  exact ⟨[[0,0,0,0,3,0,0,0,1,0,0,0]],by decide,by decide +kernel⟩

end IpcPortable.Reconnects
