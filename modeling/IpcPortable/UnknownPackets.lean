import IpcPortable.CallQueue
import IpcPortable.Waiters

/-!
Packets whose type the library does not have. An endpoint that receives them
runs beside a twin that does not: whatever a thread does because of such a
packet, its twin leaves out. `ProcessBuffer` calls such a packet invalid, but
it is stored among the replies before, and `insert` keeps what is there.
-/
namespace IpcPortable.UnknownPackets
open IpcPortable.Runs IpcPortable.DataStream IpcPortable.Packets IpcPortable.Pending IpcPortable.Endpoints
open IpcPortable.EndpointMoves IpcPortable.HandOver IpcPortable.CallQueue IpcPortable.Waiters
variable {Tid κ : Type}

/-- The type is one of `pt_enumerate` to `pt_return_enumerate`. -/
def Known (buffer : CallDataBuffer) : Prop :=
  buffer.header.type ≠ pt_undefined ∧ buffer.header.type < pt_count_not_a_type
instance (buffer : CallDataBuffer) : Decidable (Known buffer) := inferInstanceAs (Decidable (_ ∧ _))
/-- A packet of an unknown type is stored among the replies, under the id. -/
def storesUnknown (p : PendingResponces Tid) (id : CallId) : Bool :=
  (p.m_id_data_return id).any fun buffer => ¬ Known buffer
/-- The ids that `NewCallId` looks at, one after the other, for as long as it goes on. -/
def idAt (p : PendingResponces Tid) : Nat → CallId
  | 0 => p.nextId
  | j+1 => idAt { p with m_incremental_id := p.nextId + 1 } j

/-! ### The twin -/

/-- The activation looks for a packet, or waits for one. -/
def looks : Point → Bool
  | .readBuffer => true
  | .waiting => true
  | _ => false
/-- The activation has a packet. -/
def handles : Point → Bool
  | .handling _ => true
  | .processing _ _ => true
  | _ => false
/-- `Read` returns, without the packet if its type is unknown. -/
def silence : Move → Move
  | .read transport_ok (some packet) type_raw =>
    .read transport_ok (if Known (receiveCallDataBuffer type_raw packet) then some packet else none) type_raw
  | move => move

/-- The topmost activation of the thread. -/
def topmost (s : Endpoint Tid κ) (t : Tid) (holds : Activation κ → Bool) : Bool := (s.threads t).head?.any holds

/-- An endpoint, and its twin that does not receive the unknown packets. -/
structure Twins (Tid κ : Type) where
  noisy : Endpoint Tid κ := {}
  quiet : Endpoint Tid κ := {}
/-- The thread handles an unknown packet: its twin still looks for one. -/
def Twins.lags (w : Twins Tid κ) (t : Tid) : Bool :=
  topmost w.noisy t (fun frame => handles frame.point) && topmost w.quiet t fun frame => looks frame.point
/-- `ProcessTransport` goes on reading, only because an unknown packet came. -/
def pollsOn (p : PendingResponces Tid) (frame : Activation κ) : Bool :=
  match frame.point with
  | .writeBuffer true buffer => decide (Reply buffer ∧ ¬ Known buffer) && decide (frame.id = c_invalid_id) &&
    !(frame.operation.processIncomingCalls && !p.m_data_incoming_call.isEmpty)
  | _ => false
section follow
variable [DecidableEq Tid]

/-- The next section of the thread takes out an unknown packet. -/
def takesUnknown (p : PendingResponces Tid) (t : Tid) (frame : Activation κ) : Bool :=
  match frame.point with
  | .readBuffer => !p.m_thread_waiting_transport.isCurrent t && storesUnknown p frame.id
  | .waiting => storesUnknown p frame.id
  | _ => false
/-- What the twin does: nothing while the thread is about an unknown packet, and
    another `ProcessTransport` where the thread goes on reading. -/
def Twins.follow (w : Twins Tid κ) : Tid × Action κ → List (Tid × Action κ)
  | (t,.start operation) => [(t,.start operation)]
  | (t,.move move) =>
    if w.lags t || topmost w.noisy t (takesUnknown w.noisy.pending t) then []
    else (t,.move (silence move)) ::
      if topmost w.noisy t (pollsOn w.noisy.pending) then [(t,.start .processTransport)] else []
/-- A step of the endpoint, and of its twin. For an unknown packet
    `ProcessBuffer` runs no code of the user that could begin an operation. -/
def step (call_info : CallInfo κ) (w : Twins Tid κ) : Tid × Action κ → Option (Twins Tid κ)
  | (t,.start operation) =>
    if w.lags t then none
    else (Endpoints.step call_info w.noisy (t,.start operation)).map fun noisy =>
      { noisy, quiet := run (Endpoints.step call_info) w.quiet (w.follow (t,.start operation)) }
  | (t,.move move) =>
    (Endpoints.step call_info w.noisy (t,.move move)).map fun noisy =>
      { noisy, quiet := run (Endpoints.step call_info) w.quiet (w.follow (t,.move move)) }

end follow

/-- A step that does not receive an unknown packet. -/
def Silent (action : Tid × Action κ) : Prop :=
  ∀ transport_ok packet type_raw, action.2 = .move (.read transport_ok (some packet) type_raw) →
    Known (receiveCallDataBuffer type_raw packet)
/-- What an endpoint does that can be seen. -/
inductive Deed (κ : Type)
  | received (buffer : CallDataBuffer)
  | dispatched (buffer : CallDataBuffer)
  | answered (operation : Operation κ) (id : CallId) (result : DataStream)
/-- The known packets that are read, the calls that are dispatched, and what the
    calls that wait return. -/
def observe : Event κ → Option (Deed κ)
  | .received buffer => if Known buffer then some (.received buffer) else none
  | .passed buffer => if Incoming buffer then some (.dispatched buffer) else none
  | .returned operation id result => if hasWaiter operation then some (.answered operation id result) else none
  | _ => none
/-- The unknown packets change nothing: the same calls are dispatched and the
    waiting calls return the same, in the same order, and no reply is lost. -/
structure Inert (w : Twins Tid κ) : Prop where
  deeds : said observe w.noisy.events = said observe w.quiet.events
  replies : ∀ id buffer, Known buffer →
    (w.noisy.pending.m_id_data_return id = some buffer ↔ w.quiet.pending.m_id_data_return id = some buffer)
/-- The section does not come upon an unknown packet that is stored: `NewCallId`
    does not pass over one, and no known reply enters under its id. -/
def ClearAt (p : PendingResponces Tid) (frame : Activation κ) : Prop :=
  (frame.point = .newCallId → ∀ k, (∀ i < k, p.m_id_data_return (idAt p i) ≠ none) → storesUnknown p (idAt p k) = false) ∧
  ∀ transport_ok buffer, frame.point = .writeBuffer transport_ok buffer → Known buffer → Reply buffer →
    storesUnknown p buffer.header.id = false
def Clear (s : Endpoint Tid κ) : Tid × Action κ → Prop
  | (t,.move .proceed) => ∀ frame below, s.threads t = frame :: below → ClearAt s.pending frame
  | _ => True

/-! ### Unknown packets -/

section packets
variable {buffer : CallDataBuffer}

theorem Incoming.known (incoming : Incoming buffer) : Known buffer := by
  unfold Incoming pt_enumerate pt_call at incoming
  unfold Known pt_undefined pt_count_not_a_type
  bv_omega

theorem default_not_known : ¬ Known ({} : CallDataBuffer) := by decide

theorem unknown_precessed (unknown : ¬ Known buffer) (id : CallId) : responsePrecessed buffer id = false := by
  unfold Known pt_undefined pt_count_not_a_type at unknown
  unfold responsePrecessed pt_return pt_count_not_a_type
  refine decide_eq_false fun precessed => ?_
  bv_omega

theorem unknown_result (unknown : ¬ Known buffer) : processBufferResult buffer = {} := by
  refine if_neg fun reply => unknown ?_
  unfold pt_return_enumerate pt_return at reply
  unfold Known pt_undefined pt_count_not_a_type
  bv_omega

/-- The packet that the twin has in hand. -/
def quieted (buffer : CallDataBuffer) : CallDataBuffer := if Known buffer then buffer else {}

end packets

/-! ### The pending packets of the twin -/

/-- The twin has the same packets pending, without the unknown ones. -/
structure SamePending (p q : PendingResponces Tid) : Prop where
  transport : q.m_thread_waiting_transport = p.m_thread_waiting_transport
  counter : q.m_incremental_id = p.m_incremental_id
  replies : ∀ id, q.m_id_data_return id = (p.m_id_data_return id).filter fun buffer => Known buffer
  calls : q.m_data_incoming_call = p.m_data_incoming_call

section pending
variable {p q : PendingResponces Tid} {id : CallId}

theorem storesUnknown_iff :
    storesUnknown p id = true ↔ ∃ buffer, p.m_id_data_return id = some buffer ∧ ¬ Known buffer := by
  simp [storesUnknown,Option.any_eq_true]

theorem SamePending.stored (same : SamePending p q) (clear : storesUnknown p id = false) :
    q.m_id_data_return id = p.m_id_data_return id := by
  rw [same.replies]
  cases found : p.m_id_data_return id with
  | none => rfl
  | some buffer =>
    have known : Known buffer := Decidable.byContradiction fun unknown =>
      Bool.eq_false_iff.mp clear (storesUnknown_iff.mpr ⟨buffer,found,unknown⟩)
    exact Option.filter_some_pos (by simpa using known)

/-- Where the next ids have no unknown packet, the twin draws the same one. -/
theorem newCallIdLoop_same {rounds : Nat} (same : SamePending p q)
    (clear : ∀ k, (∀ i < k, p.m_id_data_return (idAt p i) ≠ none) → storesUnknown p (idAt p k) = false) :
    newCallIdLoop rounds q = (newCallIdLoop rounds p).map fun drawn =>
      (drawn.1,{ q with m_incremental_id := drawn.2.m_incremental_id }) := by
  induction rounds generalizing p q with
  | zero => rfl
  | succ rounds ih =>
    have next : q.nextId = p.nextId := by
      unfold PendingResponces.nextId
      rw [same.counter]
    have stored : q.m_id_data_return p.nextId = p.m_id_data_return p.nextId :=
      same.stored (clear 0 fun i before => absurd before (Nat.not_lt_zero i))
    unfold newCallIdLoop
    dsimp only
    rw [next,stored]
    cases found : p.m_id_data_return p.nextId with
    | none => rfl
    | some buffer =>
      simp only [Option.isSome_some,if_true]
      have later : SamePending { p with m_incremental_id := p.nextId + 1 } { q with m_incremental_id := p.nextId + 1 } :=
        ⟨same.transport,rfl,same.replies,same.calls⟩
      refine ih later fun k passed => clear (k+1) fun i before => ?_
      cases i with
      | zero => exact found ▸ Option.some_ne_none buffer
      | succ i => exact passed i (by omega)

theorem newCallId_same (same : SamePending p q)
    (clear : ∀ k, (∀ i < k, p.m_id_data_return (idAt p i) ≠ none) → storesUnknown p (idAt p k) = false) :
    newCallId q = (newCallId p).map fun drawn => (drawn.1,{ q with m_incremental_id := drawn.2.m_incremental_id }) :=
  newCallIdLoop_same same clear

theorem readBuffer_same (same : SamePending p q) (clear : storesUnknown p id = false) (t : Tid) (allowed : Bool) :
    (Pending.readBuffer q t id allowed).2 = (Pending.readBuffer p t id allowed).2 ∧
      SamePending (Pending.readBuffer p t id allowed).1 (Pending.readBuffer q t id allowed).1 := by
  have queue : (if allowed then q.m_data_incoming_call.head? else none) =
      if allowed then p.m_data_incoming_call.head? else none := by rw [same.calls]
  have locked : q.m_thread_waiting_transport.isLocked = p.m_thread_waiting_transport.isLocked := by rw [same.transport]
  unfold Pending.readBuffer
  rw [same.stored clear,queue,locked]
  cases found : p.m_id_data_return id with
  | some buffer =>
    refine ⟨rfl,same.transport,same.counter,fun other => ?_,same.calls⟩
    by_cases here : other = id
    · subst here
      rw [eraseReply_id,eraseReply_id]
      rfl
    · exact (Function.update_of_ne here ..).trans ((same.replies other).trans
        (congrArg _ (Function.update_of_ne here ..).symm))
  | none =>
    cases first : (if allowed then p.m_data_incoming_call.head? else none) with
    | some buffer => exact ⟨rfl,same.transport,same.counter,same.replies,congrArg List.tail same.calls⟩
    | none =>
      dsimp only
      split
      · split
        · exact ⟨rfl,same.transport,same.counter,same.replies,same.calls⟩
        · exact ⟨rfl,same⟩
      · rw [same.transport]
        exact ⟨rfl,rfl,same.counter,same.replies,same.calls⟩

theorem erase_same (same : SamePending p q) (unknown : storesUnknown p id = true) : SamePending (p.eraseReply id) q := by
  obtain ⟨buffer,found,dropped⟩ := storesUnknown_iff.mp unknown
  refine ⟨same.transport,same.counter,fun other => ?_,same.calls⟩
  by_cases here : other = id
  · subst here
    rw [eraseReply_id,same.replies,found]
    exact Option.filter_some_neg (by simpa using dropped)
  · exact (same.replies other).trans (congrArg _ (Function.update_of_ne here ..).symm)

theorem quieted_calls (buffer : CallDataBuffer) :
    [quieted buffer].filter (fun buffer => Incoming buffer) = [buffer].filter fun buffer => Incoming buffer := by
  unfold quieted
  by_cases known : Known buffer
  · rw [if_pos known]
  · have other : ¬ Incoming buffer := fun incoming => known (Incoming.known incoming)
    rw [if_neg known]
    simp [default_not_incoming,other]

/-- A reply is inserted on both sides, an unknown one only on this side. -/
theorem insert_same (same : SamePending p q) {buffer : CallDataBuffer}
    (clear : Known buffer → Reply buffer → storesUnknown p buffer.header.id = false) (id : CallId) :
    (if Reply (quieted buffer) ∧ q.m_id_data_return (quieted buffer).header.id = none then
        Function.update q.m_id_data_return (quieted buffer).header.id (some (quieted buffer))
      else q.m_id_data_return) id =
    ((if Reply buffer ∧ p.m_id_data_return buffer.header.id = none then
        Function.update p.m_id_data_return buffer.header.id (some buffer)
      else p.m_id_data_return) id).filter fun buffer => Known buffer := by
  by_cases known : Known buffer
  · rw [quieted,if_pos known]
    by_cases reply : Reply buffer
    · rw [same.stored (clear known reply)]
      split
      · by_cases here : id = buffer.header.id
        · subst here
          rw [Function.update_self,Function.update_self]
          exact (Option.filter_some_pos (by simpa using known)).symm
        · rw [Function.update_of_ne here,Function.update_of_ne here,same.replies]
      · exact same.replies id
    · rw [if_neg fun both => reply both.1,if_neg fun both => reply both.1,same.replies]
  · rw [quieted,if_neg known,if_neg fun both => default_not_reply both.1,same.replies]
    split
    · rename_i inserts
      by_cases here : id = buffer.header.id
      · subst here
        rw [Function.update_self,inserts.2]
        exact (Option.filter_some_neg (by simpa using known)).symm
      · rw [Function.update_of_ne here]
    · rfl

theorem writeBuffer_unlocks (p : PendingResponces Tid) (allowed : Bool) (buffer : CallDataBuffer) :
    (Pending.writeBuffer p allowed buffer).1.m_thread_waiting_transport = { m_locked_id := none } :=
  store_transport _ buffer

/-- Both enter what they read. A known reply does not find an unknown packet. -/
theorem writeBuffer_same (same : SamePending p q) (allowed : Bool) {buffer : CallDataBuffer}
    (clear : Known buffer → Reply buffer → storesUnknown p buffer.header.id = false) :
    SamePending (Pending.writeBuffer p allowed buffer).1 (Pending.writeBuffer q allowed (quieted buffer)).1 where
  transport := (writeBuffer_unlocks q allowed _).trans (writeBuffer_unlocks p allowed _).symm
  counter := by rw [writeBuffer_counter,writeBuffer_counter,same.counter]
  replies id := by
    rw [writeBuffer_replies,writeBuffer_replies]
    exact insert_same same clear id
  calls := by rw [writeBuffer_calls,writeBuffer_calls,same.calls,quieted_calls]

theorem writeBuffer_more (p : PendingResponces Tid) (allowed : Bool) (buffer : CallDataBuffer) :
    (Pending.writeBuffer p allowed buffer).2.1 =
      (allowed && !(p.m_data_incoming_call ++ [buffer].filter fun buffer => Incoming buffer).isEmpty) := by
  rw [← writeBuffer_calls p buffer allowed]
  rfl

/-- Exactly a reply is a new return buffer. -/
theorem writeBuffer_new (p : PendingResponces Tid) (allowed : Bool) (buffer : CallDataBuffer) :
    (Pending.writeBuffer p allowed buffer).2.2 = decide (Reply buffer) := by
  unfold Pending.writeBuffer PendingResponces.store
  dsimp only
  split
  · split
    · rename_i call
      exact (decide_eq_false fun reply => absurd call (BitVec.not_le.mpr reply)).symm
    · rename_i reply
      exact (decide_eq_true (BitVec.not_le.mp reply)).symm
  · rename_i missing
    exact (decide_eq_false fun reply => missing (Reply.defined reply)).symm

theorem writeBuffer_more_same (same : SamePending p q) (allowed : Bool) (buffer : CallDataBuffer) :
    (Pending.writeBuffer q allowed (quieted buffer)).2.1 = (Pending.writeBuffer p allowed buffer).2.1 := by
  rw [writeBuffer_more,writeBuffer_more,same.calls,quieted_calls]

section waking
variable [DecidableEq Tid] {t : Tid}

theorem SamePending.wakes (same : SamePending p q) : SamePending p (q.wake t) :=
  ⟨same.transport,same.counter,same.replies,same.calls⟩

theorem SamePending.awake (same : SamePending p q) : SamePending (p.wake t) q :=
  ⟨same.transport,same.counter,same.replies,same.calls⟩

theorem SamePending.woken (same : SamePending p q) : SamePending (p.wake t) (q.wake t) := same.awake.wakes

end waking

end pending

end IpcPortable.UnknownPackets
