import IpcPortable.Links

/-!
Each step of a connection keeps what holds at both sides: at the side that goes
on, and at the other one, which gets what is sent.
-/
namespace IpcPortable.LinkSteps
open IpcPortable.Runs IpcPortable.DataStream IpcPortable.Values IpcPortable.Packets IpcPortable.ProcMaps
open IpcPortable.Dispatch IpcPortable.Replies IpcPortable.Buffers IpcPortable.Pending IpcPortable.Endpoints
open IpcPortable.EndpointMoves IpcPortable.HandOver IpcPortable.CallQueue IpcPortable.Peers IpcPortable.Matching
open IpcPortable.Responses IpcPortable.Enumerations IpcPortable.Connections IpcPortable.DueReplies
open IpcPortable.Numbering IpcPortable.Links
variable {Tid : Type} [DecidableEq Tid]

section sides
variable {infos peer_infos : CallInfos} {ipc peer_ipc : Internals} {party peer : Party Tid} {transport : TransportShare}

/-! ### A thread moves -/

section move
variable {t : Tid} {frame : Activation Invocation} {below : List (Activation Invocation)} {move : Move}
variable {out : Advance Tid Invocation} {arriving : List Data}

omit [DecidableEq Tid] in
theorem elsewhere_begins [DecidableEq Tid] {p q : PendingResponces Tid} (begins : Begins t p frame q) {point : Point}
    (at_point : frame.point = point) (first : point ≠ .readBuffer) (second : point ≠ .waiting) : False := by
  rcases begins_point begins with elsewhere | elsewhere
  · exact first (at_point.symm.trans elsewhere)
  · exact second (at_point.symm.trans elsewhere)

/-- A packet that was taken out is passed. -/
theorem handling_passes {p : PendingResponces Tid} {buffer : CallDataBuffer} (at_point : frame.point = .handling buffer)
    (moved : Moves invocationInfo t p frame move out) :
    out = ⟨p,[frame.at (.processing (responsePrecessed buffer frame.id) (processBufferResult buffer))],[.passed buffer]⟩ := by
  cases moved with
  | @passes other at_point' =>
    rw [at_point] at at_point'
    cases at_point'
    rfl
  | takesResponse begins | takesCall begins | waits begins | busy begins | locks begins =>
    exact (elsewhere_begins begins at_point Point.noConfusion Point.noConfusion).elim
  | _ elsewhere => rw [at_point] at elsewhere; cases elsewhere

/-- An activation goes on behind a packet. -/
theorem processing_continues {p : PendingResponces Tid} {result : DataStream} (at_point : frame.point = .processing false result)
    (moved : Moves invocationInfo t p frame move out) : out = ⟨p,[frame.at .readBuffer],[]⟩ := by
  cases moved with
  | continues => rfl
  | takesResponse begins | takesCall begins | waits begins | busy begins | locks begins =>
    exact (elsewhere_begins begins at_point Point.noConfusion Point.noConfusion).elim
  | _ elsewhere => rw [at_point] at elsewhere; cases elsewhere

theorem transports_dependable {before : List Data} (transports : Transports transport before move arriving) : Dependable transport move := by
  cases transports with
  | proceeds => trivial
  | writes => exact ⟨rfl,rfl⟩
  | delivers => rfl
  | waits => rfl

/-- What a step reads was the next packet, or is nothing. -/
theorem transports_received {before : List Data} (transports : Transports transport before move arriving)
    (moved : Moves invocationInfo t party.endpoint.pending frame move out) :
    (∀ buffer ∈ out.events.filterMap receivedPacket, buffer = {}) ∧ arriving = before ∨
      ∃ packet type_raw, before = packet :: arriving ∧
        out.events.filterMap receivedPacket = [receiveCallDataBuffer type_raw packet] := by
  cases transports with
  | proceeds =>
    have none : out.events.filterMap receivedPacket = [] := by cases moved <;> rfl
    exact .inl ⟨by simp [none],rfl⟩
  | writes =>
    have none : out.events.filterMap receivedPacket = [] := by cases moved <;> rfl
    exact .inl ⟨by simp [none],rfl⟩
  | @delivers packet rest type_raw => exact .inr ⟨packet,type_raw,rfl,by cases moved; rfl⟩
  | waits =>
    have one : out.events.filterMap receivedPacket = [{}] := by cases moved; rfl
    exact .inl ⟨by simp [one],rfl⟩

omit [DecidableEq Tid] in
/-- A packet that is written asks for the operation that writes it. -/
theorem goes_sends {s : Endpoint Tid Invocation} (goes : Goes s frame out) (placed : Placed s.events t frame) :
    (∀ packet ∈ out.events.filterMap wrotePacket,
      ∃ operation id, (t,operation,id) ∈ issues s.events ∧ Asks id packet operation) ∧
    out.events.filterMap wroteId =
      requestIds ((out.events.filterMap wrotePacket).map (receiveCallDataBuffer 0)) := by
  have wrote {packet : Data} (at_point : frame.point = .writing) (asks : Asks frame.id packet frame.operation) :
      (∀ other ∈ [packet], ∃ operation id, (t,operation,id) ∈ issues s.events ∧ Asks id other operation) ∧
        [frame.id] = requestIds ([packet].map (receiveCallDataBuffer 0)) := by
    obtain ⟨incoming,same⟩ := asks_received asks 0
    constructor
    · intro other member
      rw [List.mem_singleton.mp member]
      exact ⟨_,_,placed.issued (fun polls => (placed.polls polls).2.2 at_point) (by simp [at_point]),asks⟩
    · rw [List.map_singleton,requestIds_incoming incoming,same]
  cases goes with
  | issues => exact ⟨fun _ member => (by cases member),rfl⟩
  | sends at_point asks => exact wrote at_point asks
  | sendsOnly at_point asks => exact wrote at_point asks
  | goesOn _ _ unwritten unsent =>
    rw [unwritten,unsent]
    exact ⟨fun _ member => (by cases member),rfl⟩

end move

theorem carried_goes (creates : Creates transport) (carried : Carried peer_infos peer_ipc party peer) {t : Tid} {move : Move}
    {frame : Activation Invocation} {below : List (Activation Invocation)} {out : Advance Tid Invocation}
    (dependable : Dependable transport move) (few : Few party.endpoint.events)
    (running : party.endpoint.threads t = frame :: below)
    (moved : Moves invocationInfo t party.endpoint.pending frame move out) : Goes party.endpoint frame out :=
  moves_goes creates carried.numbered carried.owned carried.traced few (carried.next_free few) running dependable moved

/-- A thread of the side moves. -/
theorem moves_carried (creates : Creates transport) (carried : Carried peer_infos peer_ipc party peer) {t : Tid} {move : Move}
    {endpoint : Endpoint Tid Invocation} {arriving : List Data}
    (transports : Transports transport party.arriving move arriving)
    (stepped : Endpoints.step invocationInfo party.endpoint (t,.move move) = some endpoint) (few : Few endpoint.events) :
    Carried peer_infos peer_ipc { party with endpoint, arriving } peer := by
  have traced := step_traced invocationInfo _ _ _ carried.traced stepped
  have dependable := transports_dependable transports
  cases step_steps stepped with
  | @moves t move frame below out running moved =>
    have goes := carried_goes creates carried dependable (few_before few) running moved
    have stays {packet : Data} (comes : Comes peer_infos peer_ipc.m_proc_map party peer packet) :
        Comes peer_infos peer_ipc.m_proc_map { party with
          endpoint := {
            pending := out.pending
            threads := Function.update party.endpoint.threads t (out.frames ++ below)
            events := party.endpoint.events ++ out.events.map (t,·) }
          arriving } peer packet :=
      comes.mono rfl (List.append_nil _).symm (List.append_nil _).symm
    have read := transports_received transports moved
    exact {
      owned := moves_owned carried.owned running moved
      kept := moves_kept carried.owned carried.kept running moved
      traced := traced
      numbered := goes_numbered carried.numbered few running goes
      coming := fun packet member => by
        refine stays (carried.coming packet ?_)
        rcases read with ⟨_,rfl⟩ | ⟨_,_,before,_⟩
        · exact member
        · rw [before]
          exact List.mem_cons_of_mem _ member
      came := fun buffer member => by
        rw [picked_append] at member
        rcases List.mem_append.mp member with old | new
        · refine (carried.came buffer old).imp_right ?_
          rintro ⟨packet,type_raw,comes,same⟩
          exact ⟨packet,type_raw,stays comes,same⟩
        · rcases read with ⟨nothing,_⟩ | ⟨packet,type_raw,before,received⟩
          · exact .inl (nothing buffer new)
          · rw [received] at new
            refine .inr ⟨packet,type_raw,stays (carried.coming packet ?_),List.mem_singleton.mp new⟩
            rw [before]
            exact List.mem_cons_self
      fifo := by
        rw [carried.fifo,picked_append,requestIds_append,List.append_assoc]
        congr 1
        rcases read with ⟨nothing,rfl⟩ | ⟨packet,type_raw,before,received⟩
        · have none : requestIds (out.events.filterMap receivedPacket) = [] := by
            rw [requestIds,incoming,List.map_eq_nil_iff,List.filter_eq_nil_iff]
            intro buffer member
            rw [nothing buffer member]
            simp [default_not_incoming]
          rw [none,List.nil_append]
        · have comes := carried.coming packet (by rw [before]; exact List.mem_cons_self)
          rw [received,before,comes_ids comes type_raw,List.map_cons,← List.singleton_append,requestIds_append] }

/-- An operation begins at the side. -/
theorem starts_carried (carried : Carried peer_infos peer_ipc party peer) {t : Tid} {operation : Operation Invocation}
    {endpoint : Endpoint Tid Invocation} (free : calm (party.endpoint.threads t) = true)
    (started : Endpoints.step invocationInfo party.endpoint (t,.start operation) = some endpoint)
    (typed : Typed peer_infos peer_ipc.m_proc_map operation) : Carried peer_infos peer_ipc { party with endpoint } peer := by
  have traced := step_traced invocationInfo _ _ _ carried.traced started
  have numbered := start_numbered carried.numbered free typed
  obtain ⟨owned,kept⟩ := step_kept invocationInfo _ _ _ ⟨carried.owned,carried.kept⟩ started
  cases step_steps started with
  | starts => exact { carried with owned := owned, kept := kept, traced := traced, numbered := numbered }

/-- The other side goes on, and sends something. -/
theorem after_carried (carried : Carried peer_infos peer_ipc party peer) {gone : Party Tid}
    {events : List (Tid × Event Invocation)} {ran : List (CallId × InvokeRemote × List Value)} {sent : List Data}
    (grew : gone.endpoint.events = peer.endpoint.events ++ events) (runs : gone.ran = peer.ran ++ ran)
    (sends : ∀ packet ∈ sent, Comes peer_infos peer_ipc.m_proc_map party gone packet)
    (wrote : picked wroteId gone.endpoint.events =
      picked wroteId peer.endpoint.events ++ requestIds (sent.map (receiveCallDataBuffer 0))) :
    Carried peer_infos peer_ipc { party with arriving := party.arriving ++ sent } gone where
  owned := carried.owned
  kept := carried.kept
  traced := carried.traced
  numbered := carried.numbered
  coming packet member := by
    rcases List.mem_append.mp member with old | new
    · exact (carried.coming packet old).mono (List.append_nil _).symm grew runs
    · exact sends packet new
  came buffer member := by
    refine (carried.came buffer member).imp_right ?_
    rintro ⟨packet,type_raw,comes,same⟩
    exact ⟨packet,type_raw,comes.mono (List.append_nil _).symm grew runs,same⟩
  fifo := by
    rw [wrote,carried.fifo,List.map_append,requestIds_append,List.append_assoc]

/-! ### What a side does for the other -/

omit [DecidableEq Tid] in
theorem after_serving (serving : Serving infos ipc party peer) {gone : Party Tid} {events : List (Tid × Event Invocation)}
    (grew : gone.endpoint.events = peer.endpoint.events ++ events) (sent : List Data) :
    Serving infos ipc { party with arriving := party.arriving ++ sent } gone := by
  have issued {entry : Tid × Operation Invocation × CallId} (member : entry ∈ issues peer.endpoint.events) :
      entry ∈ issues gone.endpoint.events := grew ▸ issues_mono member events
  exact {
    same := serving.same
    once := serving.once
    complete := fun id => (serving.complete id).imp_left fun ⟨t,operation,member,untaken⟩ =>
      ⟨t,operation,issued member,untaken⟩
    due := fun entry member => by
      obtain ⟨t,operation,asks,due⟩ := serving.due entry member
      exact ⟨t,operation,issued asks,due⟩
    jobs := fun entry member => by
      obtain ⟨t,operation,asks,due⟩ := serving.jobs entry member
      exact ⟨t,operation,issued asks,due⟩
    ran := fun run member => by
      obtain ⟨t,operation,asks,runs⟩ := serving.ran run member
      exact ⟨t,operation,issued asks,runs⟩ }

/-- Packets are passed to `ProcessBuffer` one by one. -/
theorem moves_passed {t : Tid} {frame : Activation Invocation} {below : List (Activation Invocation)} {move : Move}
    {out : Advance Tid Invocation} (running : party.endpoint.threads t = frame :: below)
    (moved : Moves invocationInfo t party.endpoint.pending frame move out)
    (plain : Plain (party.endpoint.threads t)) : requestIds (out.events.filterMap passedPacket) = [] := by
  cases moved with
  | passes at_point => exact requestIds_other (plain frame below running _ at_point)
  | _ => rfl

theorem moves_serving (serving : Serving infos ipc party peer) {t : Tid} {move : Move} {endpoint : Endpoint Tid Invocation}
    (stepped : Endpoints.step invocationInfo party.endpoint (t,.move move) = some endpoint)
    (plain : Plain (party.endpoint.threads t)) (arriving : List Data) :
    Serving infos ipc { party with endpoint, arriving } peer := by
  cases step_steps stepped with
  | @moves t move frame below out running moved =>
    have same : requestIds (picked passedPacket (party.endpoint.events ++ out.events.map (t,·))) =
        requestIds (picked passedPacket party.endpoint.events) := by
      rw [picked_append,requestIds_append,moves_passed running moved plain,List.append_nil]
    exact {
      same := serving.same
      once := fun id => by
        dsimp only
        rw [same]
        exact serving.once id
      complete := fun id => by
        dsimp only
        rw [same]
        exact serving.complete id
      due := serving.due
      jobs := serving.jobs
      ran := serving.ran }

theorem starts_serving (serving : Serving infos ipc party peer) {t : Tid} {operation : Operation Invocation}
    {endpoint : Endpoint Tid Invocation}
    (started : Endpoints.step invocationInfo party.endpoint (t,.start operation) = some endpoint) :
    Serving infos ipc { party with endpoint } peer := by
  cases step_steps started with
  | starts => exact { serving with once := serving.once, complete := serving.complete }

/-- A packet that a thread is about to pass was read. -/
theorem handled_received (carried : Carried peer_infos peer_ipc party peer) {t : Tid} {frame : Activation Invocation}
    {below : List (Activation Invocation)} (running : party.endpoint.threads t = frame :: below) {buffer : CallDataBuffer}
    (at_point : frame.point = .handling buffer) (asks : Incoming buffer) :
    buffer ∈ picked receivedPacket party.endpoint.events := by
  have kept := carried.kept
  have unpassed : buffer ∈ incoming (unpassed (party.endpoint.threads t)) := by
    rw [running]
    simp [inStack,unpassedAt,at_point,incoming,asks]
  have taken : buffer ∈ pickedBy t CallQueue.tookCall party.endpoint.events := by
    rw [kept.passed t]
    exact List.mem_append_right _ unpassed
  obtain ⟨⟨u,event⟩,member,took⟩ := List.mem_filterMap.mp taken
  have anyone : buffer ∈ picked CallQueue.tookCall party.endpoint.events := by
    refine List.mem_filterMap.mpr ⟨⟨u,event⟩,member,?_⟩
    dsimp only at took
    split at took
    · exact took
    · cases took
  have entered : buffer ∈ incoming (picked enteredPacket party.endpoint.events) := by
    rw [kept.queue]
    exact List.mem_append_left _ anyone
  rw [kept.hands]
  exact List.mem_append_left _ (List.mem_of_mem_filter entered)

/-- A thread begins to process a packet. -/
theorem dispatches_serving (alive : ipc.m_transport = some transport) (creates : Creates transport)
    (carried : Carried peer_infos peer_ipc party peer) (serving : Serving infos ipc party peer)
    (theirs : Numbered (Typed infos ipc.m_proc_map) peer.endpoint) (few : Few peer.endpoint.events) {t : Tid}
    {endpoint : Endpoint Tid Invocation} {frame : Activation Invocation} {below : List (Activation Invocation)}
    {buffer : CallDataBuffer} {call_infos : CallInfos} {result : DataStream} {effects : List Effect}
    (running : party.endpoint.threads t = frame :: below) (at_point : frame.point = .handling buffer)
    (asks : Incoming buffer) (processed : processBuffer party.call_infos ipc buffer = some (call_infos,result,effects))
    (stepped : Endpoints.step invocationInfo party.endpoint (t,.move .proceed) = some endpoint) :
    Serving infos ipc
      { party with endpoint, call_infos, dispatched := (t,buffer.header.id,effects) :: party.dispatched } peer := by
  obtain ⟨u,operation,packet,type_raw,issued,asked,same⟩ :=
    carried.asked (handled_received carried running at_point asks) asks
  rw [same] at processed
  obtain ⟨handlers,due,once⟩ : SameHandlers infos call_infos ∧ Due infos ipc.m_proc_map [] buffer.header.id operation effects ∧
      RunsOnce infos ipc.m_proc_map operation effects :=
    processBuffer_due alive creates (theirs.nonzero few issued) (theirs.may_issue _ _ _ issued) serving.same asked processed
  cases step_steps stepped with
  | @moves t move frame' below' out running' moved =>
    rw [running] at running'
    cases running'
    have passed : requestIds (picked passedPacket (party.endpoint.events ++ out.events.map (t,·))) =
        requestIds (picked passedPacket party.endpoint.events) ++ [buffer.header.id] := by
      have happened : out.events.filterMap passedPacket = [buffer] := by
        rw [handling_passes at_point moved]
        rfl
      rw [picked_append,requestIds_append,happened,requestIds_incoming asks]
    exact {
      same := handlers
      once := fun id => by
        dsimp only
        rw [passed]
        have before := serving.once id
        show (buffer.header.id :: servedIds party).count id ≤ _
        rw [List.count_append,List.count_singleton,List.count_cons]
        omega
      complete := fun id => by
        refine (serving.complete id).imp_right fun before => ?_
        dsimp only
        rw [passed]
        show _ ≤ (buffer.header.id :: servedIds party).count id
        rw [List.count_append,List.count_singleton,List.count_cons]
        omega
      due := fun entry member => by
        rcases List.mem_cons.mp member with rfl | old
        · exact ⟨u,operation,issued,due,once⟩
        · exact serving.due entry old
      jobs := serving.jobs
      ran := serving.ran }

/-! ### The effects take place -/

omit [DecidableEq Tid] in
/-- The handlers that the effects run, now or by a job, are counted. -/
theorem deal_count (party : Party Tid) (id other : CallId) (effects : List Effect) :
    (servedIds (party.deal id effects).1).count other =
      (servedIds party).count other + if other = id then runsOf effects else 0 := by
  have jobs : (((callJobs effects).map (id,·)).filter fun entry => isCall entry.2).map Prod.fst =
      List.replicate ((callJobs effects).filter isCall).length id := by
    rw [List.filter_map,List.map_map]
    exact List.map_const'
  have runs : ((invocations effects).map (id,·)).map Prod.fst = List.replicate (invocations effects).length id := by
    rw [List.map_map]
    exact List.map_const'
  simp only [servedIds,Party.deal,List.filter_append,List.map_append,List.count_append,jobs,runs,List.count_replicate,runsOf]
  by_cases same : other = id
  · subst same
    simp only [beq_self_eq_true,if_true]
    omega
  · have different : (id == other) = false := by simpa using Ne.symm same
    simp only [different,same,if_false,Bool.false_eq_true]
    omega

omit [DecidableEq Tid] in
/-- What the effects leave serves the operation that they are for. -/
theorem deal_serving {t : Tid} {operation : Operation Invocation} {id : CallId} {effects : List Effect}
    (issued : (t,operation,id) ∈ issues peer.endpoint.events)
    (due : Due infos ipc.m_proc_map party.ran id operation effects) (same : SameHandlers infos party.call_infos)
    (once : ∀ other, (servedIds (party.deal id effects).1).count other ≤
      (requestIds (picked passedPacket party.endpoint.events)).count other)
    (complete : ∀ other, (∃ t operation, (t,operation,other) ∈ issues peer.endpoint.events ∧
        ¬ Taken infos ipc.m_proc_map operation) ∨
      (requestIds (picked passedPacket party.endpoint.events)).count other ≤ (servedIds (party.deal id effects).1).count other)
    (dispatched : ∀ entry ∈ party.dispatched, ∃ t operation, (t,operation,entry.2.1) ∈ issues peer.endpoint.events ∧
      Due infos ipc.m_proc_map [] entry.2.1 operation entry.2.2 ∧ RunsOnce infos ipc.m_proc_map operation entry.2.2)
    (jobs : ∀ entry ∈ party.jobs, ∃ t operation, (t,operation,entry.1) ∈ issues peer.endpoint.events ∧
      DueJob infos ipc.m_proc_map party.ran entry.1 operation entry.2)
    (ran : ∀ run ∈ party.ran, ∃ t operation, (t,operation,run.1) ∈ issues peer.endpoint.events ∧
      Runs infos ipc.m_proc_map operation run.2) :
    Serving infos ipc (party.deal id effects).1 peer where
  same := same
  once := once
  complete := complete
  due := dispatched
  jobs entry member := by
    rcases List.mem_append.mp member with old | new
    · obtain ⟨u,other,asks,serves⟩ := jobs entry old
      exact ⟨u,other,asks,serves.mono (List.subset_append_left _ _)⟩
    · obtain ⟨job,posted,rfl⟩ := List.mem_map.mp new
      exact ⟨t,operation,issued,due.jobs job posted⟩
  ran run member := by
    rcases List.mem_append.mp member with old | new
    · exact ran run old
    · obtain ⟨invoked,happened,rfl⟩ := List.mem_map.mp new
      exact ⟨t,operation,issued,due.runs invoked happened⟩

omit [DecidableEq Tid] in
/-- What is written answers the operation. -/
theorem deal_sends {t : Tid} {operation : Operation Invocation} {id : CallId} {effects : List Effect}
    (issued : (t,operation,id) ∈ issues peer.endpoint.events)
    (due : Due infos ipc.m_proc_map party.ran id operation effects) :
    (∀ packet ∈ (party.deal id effects).2, Comes infos ipc.m_proc_map peer (party.deal id effects).1 packet) ∧
      requestIds ((party.deal id effects).2.map (receiveCallDataBuffer 0)) = [] := by
  constructor
  · intro packet member
    exact .inr ⟨t,operation,id,issued,due.writes packet member⟩
  · rw [requestIds,incoming,List.map_eq_nil_iff,List.filter_eq_nil_iff]
    intro buffer member
    obtain ⟨packet,written,rfl⟩ := List.mem_map.mp member
    simpa using (replies_received (due.writes packet written) 0).1.not_incoming

omit [DecidableEq Tid] in
theorem runsOf_le {operation : Operation Invocation} {effects : List Effect}
    (once : RunsOnce infos ipc.m_proc_map operation effects) : runsOf effects ≤ 1 := by
  by_cases taken : Taken infos ipc.m_proc_map operation
  · exact Nat.le_of_eq (once.1 taken)
  · rw [once.2 taken]
    exact Nat.zero_le 1

/-- A thread ends processing a packet. -/
theorem finishes_serving (serving : Serving infos ipc party peer) {t : Tid} {endpoint : Endpoint Tid Invocation}
    {frame : Activation Invocation} {below : List (Activation Invocation)} {result : DataStream}
    {before after : List (Tid × CallId × List Effect)} {id : CallId} {effects : List Effect}
    (running : party.endpoint.threads t = frame :: below) (at_point : frame.point = .processing false result)
    (latest : party.dispatched = before ++ (t,id,effects) :: after)
    (stepped : Endpoints.step invocationInfo party.endpoint (t,.move .proceed) = some endpoint) :
    Serving infos ipc ({ party with endpoint, dispatched := before ++ after }.deal id effects).1 peer ∧
      ∃ u operation, (u,operation,id) ∈ issues peer.endpoint.events ∧
        Due infos ipc.m_proc_map party.ran id operation effects := by
  have there : (t,id,effects) ∈ party.dispatched := by
    rw [latest]
    exact List.mem_append_right _ List.mem_cons_self
  obtain ⟨u,operation,issued,owed,once⟩ := serving.due _ there
  have due : Due infos ipc.m_proc_map party.ran id operation effects := owed.mono (List.nil_subset _)
  have plain : Plain (party.endpoint.threads t) := by
    rw [running]
    intro other deeper cut buffer elsewhere
    cases cut
    rw [at_point] at elsewhere
    cases elsewhere
  have moved : Serving infos ipc { party with endpoint } peer := moves_serving serving stepped plain party.arriving
  have counted (other : CallId) : (servedIds party).count other =
      (servedIds { party with endpoint, dispatched := before ++ after }).count other + if other = id then 1 else 0 := by
    simp only [servedIds,latest,List.map_append,List.map_cons,List.count_append,List.count_cons]
    by_cases same : other = id
    · subst same
      simp only [beq_self_eq_true,if_true]
      omega
    · have different : (id == other) = false := by simpa using Ne.symm same
      simp only [different,same,if_false,Bool.false_eq_true]
      omega
  refine ⟨deal_serving issued due moved.same ?_ ?_ ?_
    moved.jobs moved.ran,u,operation,issued,due⟩
  · intro other
    rw [deal_count]
    refine Nat.le_trans ?_ (moved.once other)
    show _ ≤ (servedIds party).count other
    rw [counted]
    have le : runsOf effects ≤ 1 := runsOf_le once
    split <;> omega
  · intro other
    by_cases untaken : other = id ∧ ¬ Taken infos ipc.m_proc_map operation
    · exact .inl ⟨u,operation,untaken.1 ▸ issued,untaken.2⟩
    · refine (moved.complete other).imp_right fun full => Nat.le_trans full ?_
      show (servedIds party).count other ≤ _
      rw [deal_count,counted]
      by_cases same : other = id
      · have taken : Taken infos ipc.m_proc_map operation := not_not.mp fun none => untaken ⟨same,none⟩
        rw [if_pos same,if_pos same,once.1 taken]
      · rw [if_neg same,if_neg same]
  · intro entry member
    refine moved.due entry ?_
    show entry ∈ party.dispatched
    rw [latest]
    rcases List.mem_append.mp member with first | last
    · exact List.mem_append_left _ first
    · exact List.mem_append_right _ (List.mem_cons_of_mem _ last)

omit [DecidableEq Tid] in
/-- A job is executed. -/
theorem works_serving (alive : ipc.m_transport = some transport) (creates : Creates transport)
    (serving : Serving infos ipc party peer) (theirs : Numbered (Typed infos ipc.m_proc_map) peer.endpoint)
    (few : Few peer.endpoint.events) {place : Nat} {id : CallId} {job : Job} (found : party.jobs[place]? = some (id,job)) :
    Serving infos ipc ({ party with jobs := party.jobs.eraseIdx place }.deal id (jobInvoke ipc job)).1 peer ∧
      ∃ u operation, (u,operation,id) ∈ issues peer.endpoint.events ∧
        Due infos ipc.m_proc_map party.ran id operation (jobInvoke ipc job) := by
  obtain ⟨u,operation,issued,owed⟩ := serving.jobs _ (List.mem_of_getElem? found)
  have due := jobInvoke_due alive creates (theirs.nonzero few issued) (theirs.may_issue _ _ _ issued) owed
  have counted (other : CallId) : (servedIds party).count other =
      (servedIds { party with jobs := party.jobs.eraseIdx place }).count other +
        if other = id then if isCall job then 1 else 0 else 0 := by
    obtain ⟨inside,here⟩ := List.getElem?_eq_some_iff.mp found
    have moved : ((id,job) :: party.jobs.eraseIdx place).Perm party.jobs := here ▸ List.getElem_cons_eraseIdx_perm inside
    have same := ((moved.filter fun entry => isCall entry.2).map Prod.fst).count_eq other
    simp only [servedIds,List.count_append,← same]
    by_cases calls : isCall job = true
    · rw [List.filter_cons_of_pos (by simpa using calls),List.map_cons,List.count_cons,if_pos calls]
      by_cases here : other = id
      · subst here
        simp only [beq_self_eq_true,if_true]
        omega
      · have different : (id == other) = false := by simpa using Ne.symm here
        simp only [different,here,if_false,Bool.false_eq_true]
        omega
    · rw [List.filter_cons_of_neg (by simpa using calls),if_neg calls]
      split <;> omega
  refine ⟨deal_serving issued due serving.same ?_ ?_ serving.due
    (fun entry member => serving.jobs entry (List.mem_of_mem_eraseIdx member)) serving.ran,u,operation,issued,due⟩
  · intro other
    rw [deal_count,jobInvoke_runs,← counted]
    exact serving.once other
  · intro other
    rw [deal_count,jobInvoke_runs,← counted]
    exact serving.complete other

end sides

end IpcPortable.LinkSteps
