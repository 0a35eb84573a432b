import IpcPortable.Nesting

/-!
Every packet that was passed to `ProcessBuffer` for an operation that waits is in one
place: processed, left to a job, or answered with a reply that is on its way or came.
-/
namespace IpcPortable.ReplyCounts
open IpcPortable.Runs IpcPortable.DataStream IpcPortable.Values IpcPortable.Packets IpcPortable.ProcMaps
open IpcPortable.Dispatch IpcPortable.Replies IpcPortable.Buffers IpcPortable.Pending IpcPortable.EndpointMoves
open IpcPortable.CallQueue IpcPortable.Matching IpcPortable.Responses IpcPortable.Enumerations IpcPortable.Connections
open IpcPortable.DueReplies IpcPortable.Numbering IpcPortable.Links IpcPortable.LinkSteps IpcPortable.LinkRuns
open IpcPortable.Endpoints hiding step
open IpcPortable.Peers hiding Deed step
variable {Tid : Type}

/-- The ids of what the side has still to do. -/
def pendingIds (party : Party Tid) : List CallId :=
  party.dispatched.map (fun entry => entry.2.1) ++ party.jobs.map Prod.fst
/-- The ids of the replies that came or are on their way. -/
def repliedIds (party : Party Tid) : List CallId :=
  replyIds (picked receivedPacket party.endpoint.events) ++ arrivingIds party.arriving
/-- The operation with the id, if there is one, waits. -/
def Waits (party : Party Tid) (id : CallId) : Prop :=
  ∀ t operation, (t,operation,id) ∈ issues party.endpoint.events → operation.waitsReturn = true
/-- Each packet of an operation that waits is still to be answered, or was answered once. -/
def Replied (party peer : Party Tid) : Prop :=
  ∀ id, Waits party id → (requestIds (picked passedPacket peer.endpoint.events)).count id =
    (pendingIds peer).count id + (repliedIds party).count id

section party
variable {infos peer_infos : CallInfos} {ipc peer_ipc : Internals} {party peer : Party Tid} {transport : TransportShare}

/-- Which reply a packet is does not depend on the variable that is not initialised. -/
theorem comes_reply {proc_map : ProcMap} {packet : Data} (comes : Comes infos proc_map party peer packet) (type_raw : BitVec 32) :
    replyIds [receiveCallDataBuffer type_raw packet] = arrivingIds [packet] := by
  rcases comes with ⟨_,_,id,_,asks⟩ | ⟨_,_,id,_,replies⟩
  · have first (type_raw : BitVec 32) : ¬ Reply (receiveCallDataBuffer type_raw packet) := fun reply =>
      reply.not_incoming (asks_received asks type_raw).1
    rw [arrivingIds,List.map_singleton,replyIds_other (first type_raw),replyIds_other (first 0)]
  · obtain ⟨first,same⟩ := replies_received replies type_raw
    obtain ⟨second,same'⟩ := replies_received replies 0
    rw [arrivingIds,List.map_singleton,replyIds_reply first,replyIds_reply second,same,same']

theorem Waits.before {gone : Party Tid} {id : CallId} {events : List (Tid × Event Invocation)} (waits : Waits gone id)
    (grew : gone.endpoint.events = party.endpoint.events ++ events) : Waits party id :=
  fun t operation issued => waits t operation (grew ▸ issues_mono issued events)

variable [DecidableEq Tid]

/-! ### The side that asked -/

theorem replyIds_nothing {buffers : List CallDataBuffer} (nothing : ∀ buffer ∈ buffers, buffer = {}) : replyIds buffers = [] := by
  rw [replyIds,List.map_eq_nil_iff,List.filter_eq_nil_iff]
  intro buffer member
  rw [nothing buffer member]
  simp [default_not_reply]

/-- A packet that is read was on its way. -/
theorem moves_replied (carried : Carried peer_infos peer_ipc party peer) {t : Tid} {move : Move}
    {endpoint : Endpoint Tid Invocation} {arriving : List Data}
    (transports : Transports transport party.arriving move arriving)
    (stepped : Endpoints.step invocationInfo party.endpoint (t,.move move) = some endpoint) :
    repliedIds { party with endpoint, arriving } = repliedIds party := by
  cases step_steps stepped with
  | @moves t move frame below out running moved =>
    unfold repliedIds
    dsimp only
    rw [picked_append,replyIds_append,List.append_assoc]
    congr 1
    rcases transports_received transports moved with ⟨nothing,rfl⟩ | ⟨packet,type_raw,before,received⟩
    · rw [replyIds_nothing nothing,List.nil_append]
    · have comes := carried.coming packet (by rw [before]; exact List.mem_cons_self)
      rw [received,before,comes_reply comes type_raw,← arrivingIds_append,List.singleton_append]

theorem acts_repliedIds (alive : ipc.m_transport = some transport) {may : Operation Invocation → Prop}
    (carried : Carried peer_infos peer_ipc party peer) {gone : Party Tid × List Data} (acts : Acts may ipc party gone) :
    repliedIds gone.1 = repliedIds party := by
  cases acts with
  | starts _ _ started =>
    cases step_steps started with
    | starts => rfl
  | moves transports stepped => exact moves_replied carried (transports transport alive) stepped
  | dispatches _ _ _ _ stepped =>
    have proceeds : Transports transport party.arriving .proceed party.arriving := .proceeds
    exact moves_replied carried proceeds stepped
  | finishes _ _ _ _ stepped =>
    have proceeds : Transports transport party.arriving .proceed party.arriving := .proceeds
    exact moves_replied carried proceeds stepped
  | works _ => rfl

/-! ### The side that answers -/

omit [DecidableEq Tid] in
/-- Requests are not replies. -/
theorem requests_arriving {packets : List Data}
    (asks : ∀ packet ∈ packets, ∃ operation id, Asks id packet operation) : arrivingIds packets = [] := by
  rw [arrivingIds,replyIds,List.map_eq_nil_iff,List.filter_eq_nil_iff]
  intro buffer member
  obtain ⟨packet,inside,rfl⟩ := List.mem_map.mp member
  obtain ⟨operation,id,asked⟩ := asks packet inside
  simpa using fun reply : Reply _ => reply.not_incoming (asks_received asked 0).1

omit [DecidableEq Tid] in
theorem replies_arriving {proc_map : ProcMap} {ran : List (CallId × InvokeRemote × List Value)} {id : CallId}
    {operation : Operation Invocation} {packets : List Data}
    (replies : ∀ packet ∈ packets, Replies infos proc_map ran id operation packet) :
    arrivingIds packets = List.replicate packets.length id := by
  induction packets with
  | nil => rfl
  | cons packet rest ih =>
    obtain ⟨reply,same⟩ := replies_received (replies packet List.mem_cons_self) 0
    rw [← List.singleton_append,arrivingIds_append,ih fun other member => replies other (List.mem_cons_of_mem _ member),
      arrivingIds,List.map_singleton,replyIds_reply reply,same]
    rfl

omit [DecidableEq Tid] in
/-- What the effects for a packet leave to do, and the replies that they send. -/
theorem deal_pending (party : Party Tid) {t : Tid} {operation : Operation Invocation} {id : CallId} {effects : List Effect}
    (issued : (t,operation,id) ∈ issues peer.endpoint.events) (due : Due infos ipc.m_proc_map party.ran id operation effects)
    {other : CallId} (waits : Waits peer other) :
    (pendingIds (party.deal id effects).1).count other + (arrivingIds (party.deal id effects).2).count other =
      (pendingIds party).count other + if other = id then 1 else 0 := by
  have jobs : ((callJobs effects).map (id,·)).map Prod.fst = List.replicate (callJobs effects).length id := by
    rw [List.map_map]
    exact List.map_const'
  have sent : arrivingIds (party.deal id effects).2 = List.replicate (writes effects).length id := replies_arriving due.writes
  rw [sent]
  simp only [pendingIds,Party.deal,List.map_append,List.count_append,jobs,List.count_replicate]
  by_cases same : other = id
  · subst same
    have one := due.answers (waits t operation issued)
    simp only [beq_self_eq_true,if_true]
    omega
  · have different : (id == other) = false := by simpa using Ne.symm same
    simp only [different,same,if_false,Bool.false_eq_true]
    omega

/-- A step of the side that answers. -/
theorem acts_pending (alive : ipc.m_transport = some transport) (creates : Creates transport)
    (linked : Linked infos peer_infos ipc peer_ipc party peer) {gone : Party Tid × List Data}
    (acts : Acts (Typed peer_infos peer_ipc.m_proc_map) ipc party gone) (few : Few gone.1.endpoint.events)
    (peer_few : Few peer.endpoint.events) {id : CallId} (waits : Waits peer id)
    (replied : (requestIds (picked passedPacket party.endpoint.events)).count id =
      (pendingIds party).count id + (repliedIds peer).count id) :
    (requestIds (picked passedPacket gone.1.endpoint.events)).count id =
      (pendingIds gone.1).count id + (repliedIds { peer with arriving := peer.arriving ++ gone.2 }).count id := by
  have sends (sent : List Data) : (repliedIds { peer with arriving := peer.arriving ++ sent }).count id =
      (repliedIds peer).count id + (arrivingIds sent).count id := by
    simp only [repliedIds,arrivingIds_append,List.count_append]
    omega
  rw [sends]
  cases acts with
  | starts _ _ started =>
    cases step_steps started with
    | starts => exact replied
  | @moves t move endpoint arriving transports stepped plain ended =>
    obtain ⟨_,_,asks,_⟩ := moves_sends creates linked.carried (transports transport alive) stepped few
    rw [requests_arriving fun packet member => ?_]
    · cases step_steps stepped with
      | @moves t move frame below out running moved =>
        dsimp only
        rw [picked_append,requestIds_append,moves_passed running moved plain,List.append_nil]
        exact replied
    · obtain ⟨_,operation,id,_,asked⟩ := asks packet member
      exact ⟨operation,id,asked⟩
  | @dispatches t endpoint frame below buffer call_infos result effects running at_point asks processed stepped =>
    have proceeds : Transports transport party.arriving .proceed party.arriving := .proceeds
    obtain ⟨_,_,requests,_⟩ := moves_sends creates linked.carried proceeds stepped few
    rw [requests_arriving fun packet member => ?_]
    · cases step_steps stepped with
      | @moves t move frame' below' out running' moved =>
        rw [running] at running'
        cases running'
        have happened : out.events.filterMap passedPacket = [buffer] := by
          rw [handling_passes at_point moved]
          rfl
        dsimp only
        rw [picked_append,requestIds_append,happened,requestIds_incoming asks,List.count_append,replied]
        simp only [pendingIds,List.map_cons,List.cons_append,List.count_cons,List.count_nil]
        omega
    · obtain ⟨_,operation,id,_,asked⟩ := requests packet member
      exact ⟨operation,id,asked⟩
  | @finishes t endpoint frame below result before after other effects running at_point latest _ stepped =>
    obtain ⟨_,u,operation,issued,due⟩ := finishes_serving linked.serving running at_point latest stepped
    have dealt := deal_pending { party with endpoint, dispatched := before ++ after } issued due waits
    have counted : (pendingIds party).count id =
        (pendingIds { party with endpoint, dispatched := before ++ after }).count id + if id = other then 1 else 0 := by
      simp only [pendingIds,latest,List.map_append,List.map_cons,List.count_append,List.count_cons]
      by_cases same : id = other
      · subst same
        simp only [beq_self_eq_true,if_true]
        omega
      · have different : (other == id) = false := by simpa using Ne.symm same
        simp only [different,same,if_false,Bool.false_eq_true]
        omega
    have passed : requestIds (picked passedPacket endpoint.events) = requestIds (picked passedPacket party.endpoint.events) := by
      cases step_steps stepped with
      | @moves t move frame' below' out running' moved =>
        rw [running] at running'
        cases running'
        rw [picked_append,processing_continues at_point moved]
        simp
    show (requestIds (picked passedPacket endpoint.events)).count id = _
    rw [passed,replied,counted]
    omega
  | @works place other job found =>
    obtain ⟨_,u,operation,issued,due⟩ := works_serving alive creates linked.serving linked.back.numbered peer_few found
    have dealt := deal_pending { party with jobs := party.jobs.eraseIdx place } issued due waits
    have counted : (pendingIds party).count id =
        (pendingIds { party with jobs := party.jobs.eraseIdx place }).count id + if id = other then 1 else 0 := by
      obtain ⟨inside,here⟩ := List.getElem?_eq_some_iff.mp found
      have moved : ((other,job) :: party.jobs.eraseIdx place).Perm party.jobs := here ▸ List.getElem_cons_eraseIdx_perm inside
      have same := (moved.map Prod.fst).count_eq id
      simp only [pendingIds,List.count_append,← same,List.map_cons,List.count_cons]
      by_cases same : id = other
      · subst same
        simp only [beq_self_eq_true,if_true]
        omega
      · have different : (other == id) = false := by simpa using Ne.symm same
        simp only [different,same,if_false,Bool.false_eq_true]
        omega
    show (requestIds (picked passedPacket party.endpoint.events)).count id = _
    rw [replied,counted]
    omega

end party

end IpcPortable.ReplyCounts
