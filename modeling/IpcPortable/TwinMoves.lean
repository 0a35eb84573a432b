import IpcPortable.UnknownPackets

/-!
The activations of the twin. A step that is not about an unknown packet is made
on both sides; a step that takes such a packet out, or handles it, is made on
one side only, and the twin still looks for a packet.
-/
namespace IpcPortable.TwinMoves
open IpcPortable.DataStream IpcPortable.Packets IpcPortable.Pending IpcPortable.Endpoints
open IpcPortable.EndpointMoves IpcPortable.HandOver IpcPortable.CallQueue IpcPortable.Waiters IpcPortable.UnknownPackets
variable {Tid κ : Type}

/-! ### The activations of the twin -/

/-- Where the twin of an activation can be. -/
inductive PointTwin : Point → Point → Prop
  | same {point : Point} (idle : unenteredAt point = none) : PointTwin point point
  | read {transport_ok : Bool} {buffer : CallDataBuffer} :
    PointTwin (.writeBuffer transport_ok buffer) (.writeBuffer transport_ok (quieted buffer))
  /-- The activation took an unknown packet, and its twin still waits. -/
  | behind : PointTwin .readBuffer .waiting
  | handles {buffer : CallDataBuffer} {point : Point} (unknown : ¬ Known buffer) (looking : looks point = true) :
    PointTwin (.handling buffer) point
  | drops {point : Point} (looking : looks point = true) : PointTwin (.processing false {}) point
/-- Only the topmost activations differ. -/
inductive StackTwin : List (Activation κ) → List (Activation κ) → Prop
  | nil : StackTwin [] []
  | top {frame : Activation κ} {point : Point} {below : List (Activation κ)} (twin : PointTwin frame.point point) :
    StackTwin (frame :: below) (frame.at point :: below)

theorem StackTwin.keep (frame : Activation κ) (idle : unenteredAt frame.point = none) (below : List (Activation κ)) :
    StackTwin (frame :: below) (frame :: below) := @StackTwin.top κ frame frame.point below (.same idle)

theorem StackTwin.one (frame : Activation κ) {point : Point} (idle : unenteredAt point = none) :
    StackTwin [frame.at point] [frame.at point] := .keep (frame.at point) idle []

theorem StackTwin.append {frames others : List (Activation κ)} (twin : StackTwin frames others)
    {below : List (Activation κ)} (nested : ∀ frame ∈ below, frame.point.nests = true) :
    StackTwin (frames ++ below) (others ++ below) := by
  cases twin with
  | nil =>
    cases below with
    | nil => exact .nil
    | cons frame below => exact .keep frame (unentered_nests (nested frame List.mem_cons_self)) below
  | top twin => exact .top twin

/-- The twin of a step: it leaves the same, and nothing else is seen. -/
structure SameOut (out other : Advance Tid κ) : Prop where
  pending : SamePending out.pending other.pending
  frames : StackTwin out.frames other.frames
  events : out.events.filterMap observe = other.events.filterMap observe

variable {call_info : CallInfo κ} {t : Tid} {p q : PendingResponces Tid} {frame : Activation κ}

theorem branch_twin (frame : Activation κ) (buffer : CallDataBuffer) (point : Point) :
    StackTwin [frame.branch buffer] [(frame.at point).branch buffer] := by
  refine StackTwin.one frame ?_
  split <;> rfl

/-- A round that does not find an unknown packet. -/
theorem round_same (same : SamePending p q) (clear : storesUnknown p frame.id = false) (point : Point) :
    SameOut (frame.round p t) ((frame.at point).round q t) := by
  obtain ⟨ends,pending⟩ := readBuffer_same same clear t frame.operation.processIncomingCalls
  unfold Activation.round
  dsimp only
  rw [show (frame.at point).id = frame.id from rfl,show (frame.at point).operation = frame.operation from rfl]
  revert ends pending
  generalize Pending.readBuffer p t frame.id frame.operation.processIncomingCalls = noisy
  generalize Pending.readBuffer q t frame.id frame.operation.processIncomingCalls = quiet
  obtain ⟨p',round⟩ := noisy
  obtain ⟨q',round'⟩ := quiet
  rintro rfl pending
  cases round' with
  | busy => exact ⟨pending,.nil,rfl⟩
  | waits => exact ⟨pending,.one frame rfl,rfl⟩
  | response buffer => exact ⟨pending,branch_twin frame buffer point,rfl⟩
  | call buffer => exact ⟨pending,branch_twin frame buffer point,rfl⟩
  | transport asserted => exact ⟨pending,branch_twin frame {} point,rfl⟩

/-- A round that finds an unknown packet: the twin does not need to go on. -/
theorem round_takes (same : SamePending p q) (unknown : storesUnknown p frame.id = true) :
    ∃ buffer, ¬ Known buffer ∧
      frame.round p t = ⟨p.eraseReply frame.id,[frame.at (.handling buffer)],[.tookResponse frame.id buffer]⟩ ∧
      SamePending (p.eraseReply frame.id) q := by
  obtain ⟨buffer,found,dropped⟩ := storesUnknown_iff.mp unknown
  exact ⟨buffer,dropped,round_response found t,erase_same same unknown⟩

theorem write_same (same : SamePending p q) (created : Option TransportShare)
    (alive : Bool) : SameOut (frame.write call_info p created alive) (frame.write call_info q created alive) := by
  unfold Activation.write
  split
  · split
    · split
      · exact ⟨same,.one frame rfl,rfl⟩
      · exact ⟨same,.nil,rfl⟩
    · exact ⟨same,.nil,rfl⟩
  · exact ⟨same,.nil,rfl⟩

/-- The reading ends after the section. -/
def Lasts (p : PendingResponces Tid) (frame : Activation κ) (buffer : CallDataBuffer) : Prop :=
  frame.id = c_invalid_id ∧ (Pending.writeBuffer p frame.operation.processIncomingCalls buffer).2.1 = false ∧
    (Pending.writeBuffer p frame.operation.processIncomingCalls buffer).2.2 = false

/-- `ProcessTransport` and its twin end together, except where it polls on. -/
theorem lasts_same (same : SamePending p q) {buffer : CallDataBuffer} (at_point : frame.point = .writeBuffer true buffer) :
    Lasts q (frame.at (.writeBuffer true (quieted buffer))) (quieted buffer) ↔
      Lasts p frame buffer ∨ pollsOn p frame = true := by
  have more := writeBuffer_more_same same frame.operation.processIncomingCalls buffer
  unfold Lasts pollsOn
  rw [show (frame.at (.writeBuffer true (quieted buffer))).operation = frame.operation from rfl,
    show (frame.at (.writeBuffer true (quieted buffer))).id = frame.id from rfl,more,writeBuffer_new,writeBuffer_new,at_point]
  rw [writeBuffer_more]
  by_cases known : Known buffer
  · simp [quieted,known]
  · have call : ¬ Incoming buffer := fun incoming => known (Incoming.known incoming)
    by_cases reply : Reply buffer
    · have empty : (frame.operation.processIncomingCalls = true → p.m_data_incoming_call = []) ↔
          frame.operation.processIncomingCalls = false ∨ p.m_data_incoming_call = [] := by
        cases frame.operation.processIncomingCalls <;> simp
      simp [quieted,known,reply,default_not_reply,call,empty]
    · simp [quieted,known,reply,default_not_reply,call]

theorem enter_same (same : SamePending p q) {transport_ok : Bool} {buffer : CallDataBuffer}
    (at_point : frame.point = .writeBuffer transport_ok buffer) (still : pollsOn p frame = false)
    (clear : Known buffer → Reply buffer → storesUnknown p buffer.header.id = false) :
    SameOut (frame.writeBuffer p transport_ok buffer)
      ((frame.at (.writeBuffer transport_ok (quieted buffer))).writeBuffer q transport_ok (quieted buffer)) := by
  have pending := writeBuffer_same same frame.operation.processIncomingCalls clear
  unfold Activation.writeBuffer
  cases transport_ok with
  | false => exact ⟨pending,.nil,rfl⟩
  | true =>
    have together := lasts_same same at_point
    rw [still,Bool.false_eq_true,or_false] at together
    by_cases lasts : Lasts p frame buffer
    · have both := together.mpr lasts
      unfold Lasts at lasts both
      simp only [Bool.true_eq_false,if_false,if_pos lasts,if_pos both]
      exact ⟨pending,.nil,rfl⟩
    · have both := fun twin => lasts (together.mp twin)
      unfold Lasts at lasts both
      simp only [Bool.true_eq_false,if_false,if_neg lasts,if_neg both]
      exact ⟨pending,.one frame rfl,rfl⟩

theorem pollsOn_goes_on {buffer : CallDataBuffer} (at_point : frame.point = .writeBuffer true buffer)
    (polls : pollsOn p frame = true) : frame.id = c_invalid_id ∧ ¬ Lasts p frame buffer := by
  unfold pollsOn at polls
  rw [at_point] at polls
  have reply : (Reply buffer ∧ ¬ Known buffer) ∧ frame.id = c_invalid_id := by
    simp only [Bool.and_eq_true,decide_eq_true_eq] at polls
    exact polls.1
  refine ⟨reply.2,fun lasts => ?_⟩
  have new := lasts.2.2
  rw [writeBuffer_new,decide_eq_false_iff_not] at new
  exact new reply.1.1

/-- The twin of a `ProcessTransport` that polls on returns. -/
theorem enter_polls (same : SamePending p q) {buffer : CallDataBuffer}
    (at_point : frame.point = .writeBuffer true buffer) (polls : pollsOn p frame = true) :
    frame.writeBuffer p true buffer =
        ⟨(Pending.writeBuffer p frame.operation.processIncomingCalls buffer).1,[frame.at .readBuffer],[.entered buffer]⟩ ∧
      (frame.at (.writeBuffer true (quieted buffer))).writeBuffer q true (quieted buffer) =
        ⟨(Pending.writeBuffer q frame.operation.processIncomingCalls (quieted buffer)).1,[],
          .entered (quieted buffer) :: frame.leave .drained {}⟩ := by
  have goes_on := (pollsOn_goes_on at_point polls).2
  have returns := (lasts_same same at_point).mpr (.inr polls)
  unfold Lasts at goes_on returns
  unfold Activation.writeBuffer
  constructor
  · simp only [Bool.true_eq_false,if_false,if_neg goes_on]
  · simp only [Bool.true_eq_false,if_false,if_pos returns]
    rfl

theorem leaves_same (same : SamePending p q) (frame : Activation κ) {point : Point} (idle : unenteredAt point = none)
    (events : List (Event κ)) : SameOut ⟨p,[frame.at point],events⟩ ⟨q,[frame.at point],events⟩ :=
  ⟨same,.one frame idle,rfl⟩

/-- The thread goes on with an unknown packet, and its twin stays. -/
structure Lags (q : PendingResponces Tid) (other : Activation κ) (out : Advance Tid κ) : Prop where
  pending : SamePending out.pending q
  frames : ∃ next, out.frames = [next] ∧ ∃ point, other = next.at point ∧ PointTwin next.point point
  silent : out.events.filterMap observe = []

theorem PointTwin.looking {own point : Point} (twin : PointTwin own point) (looking : looks own = true) :
    looks point = true := by
  cases twin with
  | same => exact looking
  | behind => rfl
  | _ => cases looking

theorem round_lags (same : SamePending p q) {point : Point} (looking : looks point = true)
    (unknown : storesUnknown p frame.id = true) : Lags q (frame.at point) (frame.round p t) := by
  obtain ⟨buffer,dropped,taken,erased⟩ := round_takes same unknown
  rw [taken]
  exact ⟨erased,⟨_,rfl,point,rfl,.handles dropped looking⟩,rfl⟩

variable [DecidableEq Tid] {move : Move} {out : Advance Tid κ}

theorem issue_same (same : SamePending p q)
    (clear : ∀ k, (∀ i < k, p.m_id_data_return (idAt p i) ≠ none) → storesUnknown p (idAt p k) = false)
    (at_point : frame.point = .newCallId) (stepped : advance call_info t p frame .proceed = some out) :
    ∃ other, advance call_info t q frame .proceed = some other ∧ SameOut out other := by
  simp only [advance,at_point] at stepped ⊢
  obtain ⟨⟨id,p'⟩,drawn,rfl⟩ := Option.map_eq_some_iff.mp stepped
  obtain ⟨_,_,kept⟩ := newCallId_result drawn
  rw [newCallId_same same clear,drawn]
  refine ⟨_,rfl,⟨?_,.one { frame with id } rfl,rfl⟩⟩
  rw [kept]
  exact ⟨same.transport,rfl,same.replies,same.calls⟩

/-- Before a round the twin looks for a packet too. -/
theorem looks_same (same : SamePending p q) {point : Point} (at_point : frame.point = .readBuffer)
    (twin : PointTwin .readBuffer point) (takes : takesUnknown p t frame = false)
    (elsewhere : point = .waiting → p.m_thread_waiting_transport.m_locked_id ≠ some t)
    (stepped : advance call_info t p frame .proceed = some out) :
    ∃ other, advance call_info t q (frame.at point) .proceed = some other ∧ SameOut out other := by
  simp only [takesUnknown,at_point] at takes
  simp only [advance,at_point] at stepped
  cases current : p.m_thread_waiting_transport.isCurrent t with
  | true =>
    have locked : p.m_thread_waiting_transport.m_locked_id = some t := of_decide_eq_true current
    rw [if_pos current] at stepped
    cases stepped
    cases twin with
    | same =>
      refine ⟨⟨q,[],frame.leave .reentrance {}⟩,?_,same,.nil,rfl⟩
      simp only [advance,Activation.at]
      rw [same.transport,if_pos current]
      rfl
    | behind => exact absurd locked (elsewhere rfl)
  | false =>
    have clear : storesUnknown p frame.id = false := by simpa [current] using takes
    rw [if_neg (by rw [current]; exact Bool.false_ne_true)] at stepped
    cases stepped
    cases twin with
    | same =>
      refine ⟨(frame.at .readBuffer).round q t,?_,round_same same clear .readBuffer⟩
      simp only [advance,Activation.at]
      rw [same.transport,if_neg (by rw [current]; exact Bool.false_ne_true)]
    | behind => exact ⟨_,rfl,round_same same.wakes clear .waiting⟩

/-- `Read` returns on both sides, at the twin without an unknown packet. -/
theorem read_same (same : SamePending p q) (at_point : frame.point = .reading)
    (stepped : advance call_info t p frame move = some out) :
    ∃ other, advance call_info t q (frame.at .reading) (silence move) = some other ∧ SameOut out other := by
  have twin (transport_ok : Bool) (buffer : CallDataBuffer) :
      SameOut (⟨p,[frame.at (.writeBuffer transport_ok buffer)],[.received buffer]⟩ : Advance Tid κ)
        ⟨q,[frame.at (.writeBuffer transport_ok (quieted buffer))],[.received (quieted buffer)]⟩ := by
    refine ⟨same,@StackTwin.top κ (frame.at (.writeBuffer transport_ok buffer)) _ [] .read,?_⟩
    by_cases known : Known buffer
    · rw [quieted,if_pos known]
    · simp [quieted,observe,known,default_not_known]
  cases move with
  | proceed => simp only [advance,at_point] at stepped; cases stepped
  | write created alive => simp only [advance,at_point] at stepped; cases stepped
  | read transport_ok packet type_raw =>
    simp only [advance,at_point] at stepped
    cases stepped
    refine ⟨_,?_,twin transport_ok _⟩
    cases packet with
    | none => simp [silence,advance,Activation.at,quieted,default_not_known]
    | some packet =>
      by_cases known : Known (receiveCallDataBuffer type_raw packet)
      · simp [silence,advance,Activation.at,quieted,known]
      · simp [silence,advance,Activation.at,quieted,known]

/-- Only `Write` and `Read` have steps of their own. -/
theorem advance_proceeds {point : Point} (at_point : frame.point = point) (writes : point ≠ .writing)
    (reads : point ≠ .reading) (stepped : advance call_info t p frame move = some out) : move = .proceed := by
  subst at_point
  unfold advance at stepped
  split at stepped
  · rfl
  · exact absurd ‹_› writes
  · rfl
  · rfl
  · rfl
  · rfl
  · exact absurd ‹_› reads
  · rfl
  · cases stepped

/-- A step of an activation that is not about an unknown packet. -/
theorem advance_same (same : SamePending p q) {point : Point} (twin : PointTwin frame.point point)
    (abreast : (handles frame.point && looks point) = false) (takes : takesUnknown p t frame = false)
    (still : pollsOn p frame = false)
    (elsewhere : point = .waiting → p.m_thread_waiting_transport.m_locked_id ≠ some t)
    (clear : move = .proceed → ClearAt p frame) (stepped : advance call_info t p frame move = some out) :
    ∃ other, advance call_info t q (frame.at point) (silence move) = some other ∧ SameOut out other := by
  generalize at_point : frame.point = own at twin abreast
  cases twin with
  | handles unknown looking => simp [handles,looking] at abreast
  | drops looking => simp [handles,looking] at abreast
  | behind =>
    obtain rfl := advance_proceeds at_point Point.noConfusion Point.noConfusion stepped
    exact looks_same same at_point .behind takes elsewhere stepped
  | @read transport_ok buffer =>
    obtain rfl := advance_proceeds at_point Point.noConfusion Point.noConfusion stepped
    simp only [advance,at_point] at stepped
    cases stepped
    exact ⟨_,rfl,enter_same same at_point still ((clear rfl).2 transport_ok buffer at_point)⟩
  | same idle =>
    cases point with
    | newCallId =>
      obtain rfl := advance_proceeds at_point Point.noConfusion Point.noConfusion stepped
      have whole : frame.at .newCallId = frame := by rw [← at_point]; rfl
      rw [whole]
      exact issue_same same ((clear rfl).1 at_point) at_point stepped
    | writing =>
      have whole : frame.at .writing = frame := by rw [← at_point]; rfl
      rw [whole]
      cases move with
      | write created alive =>
        simp only [advance,silence,at_point] at stepped ⊢
        cases stepped
        exact ⟨_,rfl,write_same same created alive⟩
      | _ => simp only [advance,at_point] at stepped; cases stepped
    | readBuffer =>
      obtain rfl := advance_proceeds at_point Point.noConfusion Point.noConfusion stepped
      exact looks_same same at_point (.same idle) takes elsewhere stepped
    | waiting =>
      obtain rfl := advance_proceeds at_point Point.noConfusion Point.noConfusion stepped
      simp only [takesUnknown,at_point] at takes
      simp only [advance,at_point] at stepped
      cases stepped
      exact ⟨_,rfl,round_same same.woken takes .waiting⟩
    | handling buffer =>
      obtain rfl := advance_proceeds at_point Point.noConfusion Point.noConfusion stepped
      simp only [advance,at_point] at stepped
      cases stepped
      exact ⟨_,rfl,leaves_same same frame rfl _⟩
    | processing response_precessed result =>
      obtain rfl := advance_proceeds at_point Point.noConfusion Point.noConfusion stepped
      simp only [advance,at_point] at stepped
      cases response_precessed with
      | true => cases stepped; exact ⟨_,rfl,same,.nil,rfl⟩
      | false => cases stepped; exact ⟨_,rfl,leaves_same same frame rfl _⟩
    | reading => exact read_same same at_point stepped
    | writeBuffer transport_ok buffer => cases idle

theorem lag_advances (same : SamePending p q) {point : Point} (twin : PointTwin frame.point point)
    (lags : (handles frame.point && looks point) = true) (stepped : advance call_info t p frame move = some out) :
    Lags q (frame.at point) out := by
  generalize at_point : frame.point = own at twin lags
  cases twin with
  | same idle => cases point <;> cases lags
  | read => cases lags
  | behind => cases lags
  | @handles buffer point unknown looking =>
    obtain rfl := advance_proceeds at_point Point.noConfusion Point.noConfusion stepped
    simp only [advance,at_point,unknown_precessed unknown,unknown_result unknown] at stepped
    cases stepped
    have call : ¬ Incoming buffer := fun incoming => unknown (Incoming.known incoming)
    exact ⟨same,⟨_,rfl,point,rfl,.drops looking⟩,by simp [observe,call]⟩
  | drops looking =>
    obtain rfl := advance_proceeds at_point Point.noConfusion Point.noConfusion stepped
    simp only [advance,at_point] at stepped
    cases stepped
    refine ⟨same,⟨_,rfl,point,rfl,?_⟩,rfl⟩
    cases point with
    | readBuffer => exact .same rfl
    | waiting => exact .behind
    | _ => cases looking

theorem take_advances (same : SamePending p q) {point : Point} (twin : PointTwin frame.point point)
    (takes : takesUnknown p t frame = true) (stepped : advance call_info t p frame move = some out) :
    Lags q (frame.at point) out := by
  generalize at_point : frame.point = own at twin
  simp only [takesUnknown,at_point] at takes
  cases own with
  | readBuffer =>
    obtain rfl := advance_proceeds at_point Point.noConfusion Point.noConfusion stepped
    obtain ⟨elsewhere,unknown⟩ := Bool.and_eq_true_iff.mp takes
    have other : ¬ p.m_thread_waiting_transport.isCurrent t = true := by simpa using elsewhere
    simp only [advance,at_point,if_neg other] at stepped
    cases stepped
    exact round_lags same (twin.looking rfl) unknown
  | waiting =>
    obtain rfl := advance_proceeds at_point Point.noConfusion Point.noConfusion stepped
    simp only [advance,at_point] at stepped
    cases stepped
    exact round_lags same.awake (twin.looking rfl) takes
  | _ => cases takes

end IpcPortable.TwinMoves
