import Mathlib.Data.List.Dedup
import IpcPortable.DroppedReplies
import IpcPortable.LinkSteps

/-!
What holds at both sides of a connection along every run, whatever the threads, the
handlers and the jobs of both sides do. An operation that waits returns the value of
the handler that the other side ran for it once, or the default value where no
handler accepts the call, or the list of the handlers (`waits_answered`).
-/
namespace IpcPortable.LinkRuns
open IpcPortable.Runs IpcPortable.DataStream IpcPortable.Values IpcPortable.Packets IpcPortable.Calls IpcPortable.ProcMaps
open IpcPortable.Signatures
open IpcPortable.Dispatch IpcPortable.Replies IpcPortable.Buffers IpcPortable.Pending
open IpcPortable.Endpoints hiding step
open IpcPortable.Peers hiding Deed step
open IpcPortable.EndpointMoves IpcPortable.HandOver IpcPortable.CallQueue IpcPortable.Matching
open IpcPortable.Responses IpcPortable.Enumerations IpcPortable.Connections IpcPortable.DueReplies
open IpcPortable.Numbering IpcPortable.Links IpcPortable.LinkSteps
variable {Tid : Type} [DecidableEq Tid]

/-- What holds in both directions between a side and its peer. -/
structure Linked (infos peer_infos : CallInfos) (ipc peer_ipc : Internals) (party peer : Party Tid) : Prop where
  carried : Carried peer_infos peer_ipc party peer
  serving : Serving infos ipc party peer
  back : Carried infos ipc peer party
  served : Serving peer_infos peer_ipc peer party

/-! ### One step -/

section step
variable {infos peer_infos : CallInfos} {ipc peer_ipc : Internals} {party peer : Party Tid} {transport : TransportShare}

theorem Linked.symm (linked : Linked infos peer_infos ipc peer_ipc party peer) :
    Linked peer_infos infos peer_ipc ipc peer party :=
  ⟨linked.back,linked.served,linked.carried,linked.serving⟩

/-- What is written in a step asks for operations of the side. -/
theorem moves_sends (creates : Creates transport) (carried : Carried peer_infos peer_ipc party peer) {t : Tid} {move : Move}
    {endpoint : Endpoint Tid Invocation} {arriving : List Data}
    (transports : Transports transport party.arriving move arriving)
    (stepped : Endpoints.step invocationInfo party.endpoint (t,.move move) = some endpoint) (few : Few endpoint.events) :
    ∃ events, endpoint.events = party.endpoint.events ++ events ∧
      (∀ packet ∈ picked wrotePacket (endpoint.events.drop party.endpoint.events.length),
        ∃ u operation id, (u,operation,id) ∈ issues endpoint.events ∧ Asks id packet operation) ∧
      picked wroteId endpoint.events = picked wroteId party.endpoint.events ++
        requestIds ((picked wrotePacket (endpoint.events.drop party.endpoint.events.length)).map (receiveCallDataBuffer 0)) := by
  cases step_steps stepped with
  | @moves t move frame below out running moved =>
    have dependable := transports_dependable transports
    have goes := carried_goes creates carried dependable (few_before few) running moved
    obtain ⟨asks,wrote⟩ := goes_sends goes (carried.numbered.placed t frame (running ▸ List.mem_cons_self))
    have sent : picked wrotePacket ((party.endpoint.events ++ out.events.map (t,·)).drop party.endpoint.events.length) =
        out.events.filterMap wrotePacket := by
      rw [List.drop_left]
      exact picked_append wrotePacket [] t out.events
    refine ⟨out.events.map (t,·),rfl,?_,?_⟩
    · intro packet member
      rw [sent] at member
      obtain ⟨operation,id,issued,asked⟩ := asks packet member
      exact ⟨t,operation,id,said_mono issued t _,asked⟩
    · rw [sent,picked_append,wrote]

/-- Nothing is written without the transport. -/
theorem proceeds_silent {t : Tid} {endpoint : Endpoint Tid Invocation}
    (stepped : Endpoints.step invocationInfo party.endpoint (t,.move .proceed) = some endpoint) :
    picked wroteId endpoint.events = picked wroteId party.endpoint.events := by
  cases step_steps stepped with
  | @moves t move frame below out running moved =>
    have none : out.events.filterMap wroteId = [] := by cases moved <;> rfl
    rw [picked_append,none,List.append_nil]

/-- A side goes on. -/
theorem acts_linked (alive : ipc.m_transport = some transport) (creates : Creates transport)
    (linked : Linked infos peer_infos ipc peer_ipc party peer) {gone : Party Tid × List Data}
    (acts : Acts (Typed peer_infos peer_ipc.m_proc_map) ipc party gone) (few : Few gone.1.endpoint.events)
    (peer_few : Few peer.endpoint.events) :
    Linked infos peer_infos ipc peer_ipc gone.1 { peer with arriving := peer.arriving ++ gone.2 } := by
  obtain ⟨carried,serving,back,served⟩ := linked
  cases acts with
  | @starts t operation endpoint allowed free started =>
    have quiet : endpoint.events = party.endpoint.events ++ [] := by
      cases step_steps started with
      | starts => exact (List.append_nil _).symm
    have mine := starts_carried carried free started allowed
    have mine' := starts_serving serving started
    refine ⟨⟨mine.owned,mine.kept,mine.traced,mine.numbered,mine.coming,mine.came,mine.fifo⟩,
      ⟨mine'.same,mine'.once,mine'.complete,mine'.due,mine'.jobs,mine'.ran⟩,?_,after_serving served quiet []⟩
    refine after_carried back quiet (List.append_nil _).symm (fun packet member => by cases member) ?_
    show picked wroteId endpoint.events = _
    rw [quiet,List.append_nil]
    exact (List.append_nil _).symm
  | @moves t move endpoint arriving transports stepped plain ended =>
    have mine := moves_carried creates carried (transports transport alive) stepped few
    have mine' := moves_serving serving stepped plain arriving
    obtain ⟨events,grew,asks,wrote⟩ := moves_sends creates carried (transports transport alive) stepped few
    refine ⟨⟨mine.owned,mine.kept,mine.traced,mine.numbered,mine.coming,mine.came,mine.fifo⟩,
      ⟨mine'.same,mine'.once,mine'.complete,mine'.due,mine'.jobs,mine'.ran⟩,?_,after_serving served grew _⟩
    exact after_carried back grew (List.append_nil _).symm (fun packet member => .inl (asks packet member)) wrote
  | @dispatches t endpoint frame below buffer call_infos result effects running at_point asks processed stepped =>
    have mine := moves_carried creates carried .proceeds stepped few
    have mine' := dispatches_serving alive creates carried serving back.numbered peer_few running at_point asks processed stepped
    obtain ⟨events,grew,requests,wrote⟩ := moves_sends creates carried .proceeds stepped few
    refine ⟨⟨mine.owned,mine.kept,mine.traced,mine.numbered,mine.coming,mine.came,mine.fifo⟩,
      ⟨mine'.same,mine'.once,mine'.complete,mine'.due,mine'.jobs,mine'.ran⟩,?_,after_serving served grew _⟩
    exact after_carried back grew (List.append_nil _).symm (fun packet member => .inl (requests packet member)) wrote
  | @finishes t endpoint frame below result before after id effects running at_point latest _ stepped =>
    have mine := moves_carried creates carried .proceeds stepped few
    obtain ⟨mine',u,operation,issued,due⟩ := finishes_serving serving running at_point latest stepped
    obtain ⟨events,grew,_⟩ := moves_sends creates carried .proceeds stepped few
    obtain ⟨sends,silent⟩ := deal_sends issued due
    refine ⟨⟨mine.owned,mine.kept,mine.traced,mine.numbered,mine.coming,mine.came,mine.fifo⟩,
      ⟨mine'.same,mine'.once,mine'.complete,mine'.due,mine'.jobs,mine'.ran⟩,?_,after_serving served grew _⟩
    refine after_carried back grew rfl (fun packet member => ?_) ?_
    · exact (sends packet member).mono (List.append_nil _).symm grew (List.append_nil _).symm
    · show picked wroteId endpoint.events = picked wroteId party.endpoint.events ++ requestIds ((writes effects).map _)
      rw [proceeds_silent stepped]
      exact (silent ▸ (List.append_nil _)).symm
  | @works place id job found =>
    obtain ⟨mine',u,operation,issued,due⟩ := works_serving alive creates serving back.numbered peer_few found
    obtain ⟨sends,silent⟩ := deal_sends issued due
    have quiet : ({ party with jobs := party.jobs.eraseIdx place }.deal id (jobInvoke ipc job)).1.endpoint.events =
        party.endpoint.events ++ [] := (List.append_nil _).symm
    refine ⟨⟨carried.owned,carried.kept,carried.traced,carried.numbered,carried.coming,carried.came,carried.fifo⟩,
      ⟨mine'.same,mine'.once,mine'.complete,mine'.due,mine'.jobs,mine'.ran⟩,?_,after_serving served quiet _⟩
    refine after_carried back quiet rfl sends ?_
    show picked wroteId party.endpoint.events = picked wroteId party.endpoint.events ++ requestIds ((writes _).map _)
    exact (silent ▸ (List.append_nil _)).symm

omit [DecidableEq Tid] in
theorem few_prefix {events more : List (Tid × Event Invocation)} (few : Few (events ++ more)) : Few events := by
  unfold Few issues at few ⊢
  rw [said,List.filterMap_append,List.length_append] at few
  exact Nat.lt_of_le_of_lt (Nat.le_add_right _ _) few

theorem acts_grow {may : Operation Invocation → Prop} {gone : Party Tid × List Data} (acts : Acts may ipc party gone) :
    ∃ events, gone.1.endpoint.events = party.endpoint.events ++ events := by
  have grows {t : Tid} {move : Move} {endpoint : Endpoint Tid Invocation}
      (stepped : Endpoints.step invocationInfo party.endpoint (t,.move move) = some endpoint) :
      ∃ events, endpoint.events = party.endpoint.events ++ events := by
    cases step_steps stepped with
    | moves _ _ => exact ⟨_,rfl⟩
  cases acts with
  | starts _ _ started =>
    cases step_steps started with
    | starts => exact ⟨[],(List.append_nil _).symm⟩
  | moves _ stepped => exact grows stepped
  | dispatches _ _ _ _ stepped => exact grows stepped
  | finishes _ _ _ _ stepped => exact grows stepped
  | works _ => exact ⟨[],(List.append_nil _).symm⟩

/-- The threads run what the code of the user started. -/
theorem acts_started {may : Operation Invocation → Prop} {gone : Party Tid × List Data}
    (acts : Acts may ipc party gone) (held : ∀ t, ∀ frame ∈ party.endpoint.threads t, may frame.operation) :
    ∀ t, ∀ frame ∈ gone.1.endpoint.threads t, may frame.operation := by
  have moves {t : Tid} {move : Move} {endpoint : Endpoint Tid Invocation}
      (stepped : Endpoints.step invocationInfo party.endpoint (t,.move move) = some endpoint) :
      ∀ u, ∀ frame ∈ endpoint.threads u, may frame.operation := by
    intro u other member
    cases step_steps stepped with
    | @moves t move frame below out running moved =>
      rcases after_member running member with ⟨rfl,new⟩ | ⟨old,_⟩
      · rw [(DroppedReplies.moves_named moved other new).1]
        exact held u frame (running ▸ List.mem_cons_self)
      · exact held u other old
  cases acts with
  | @starts t operation endpoint allowed free started =>
    cases step_steps started with
    | starts =>
      intro u frame member
      dsimp only at member
      by_cases same : u = t
      · subst same
        rw [Function.update_self] at member
        rcases List.mem_cons.mp member with rfl | old
        · cases operation <;> exact allowed
        · exact held u frame old
      · rw [Function.update_of_ne same] at member
        exact held u frame member
  | moves _ stepped => exact moves stepped
  | dispatches _ _ _ _ stepped => exact moves stepped
  | finishes _ _ _ _ stepped => exact moves stepped
  | works _ => exact held

end step

/-! ### Every run -/

section runs
variable {infos : Bool → CallInfos} {ipc : Bool → Internals} {deeds : List (Deed Tid)}

/-- Both sides before anything happened. -/
def opened (infos : Bool → CallInfos) : Connection Tid := fun side =>
  { endpoint := { pending := { replies := @no_replies, calls := @no_calls } }, call_infos := infos side }
/-- What a run keeps to in which the code of the user starts some operations and the sides
    become `parties`: the transports create what is asked for, the calls are typed as the handlers
    of the other side, they and their results fit into packets, and no side runs out of ids. -/
structure UsableBy (infos : Bool → CallInfos) (ipc : Bool → Internals) (starts : Bool → Tid → Operation Invocation → Prop)
    (parties : Connection Tid) : Prop where
  alive : ∀ side, ∃ transport, (ipc side).m_transport = some transport ∧ Creates transport
  typed : ∀ side t operation, starts side t operation → Typed (infos (!side)) (ipc (!side)).m_proc_map operation
  few : ∀ side, Few (parties side).endpoint.events
abbrev Usable (infos : Bool → CallInfos) (ipc : Bool → Internals) (deeds : List (Deed Tid)) : Prop :=
  UsableBy infos ipc (fun side t operation => .start side t operation ∈ deeds) (run (step ipc) (opened infos) deeds)

omit [DecidableEq Tid] in
/-- Another run in which nothing else is started but `ProcessTransport`. -/
theorem UsableBy.other {starts starts' : Bool → Tid → Operation Invocation → Prop} {parties parties' : Connection Tid}
    (usable : UsableBy infos ipc starts parties)
    (fewer : ∀ side t operation, starts' side t operation → starts side t operation ∨ operation = .processTransport)
    (few : ∀ side, Few (parties' side).endpoint.events) : UsableBy infos ipc starts' parties' where
  alive := usable.alive
  typed side t operation started := by
    rcases fewer side t operation started with before | rfl
    · exact usable.typed side t operation before
    · trivial
  few := few

omit [DecidableEq Tid] in
theorem after_self (c : Connection Tid) (side : Bool) (gone : Party Tid × List Data) : c.after side gone side = gone.1 := if_pos rfl

omit [DecidableEq Tid] in
theorem after_other (c : Connection Tid) (side : Bool) (gone : Party Tid × List Data) :
    c.after side gone (!side) = { c (!side) with arriving := (c (!side)).arriving ++ gone.2 } := if_neg (by simp)

theorem opened_carried (infos : Bool → CallInfos) (side : Bool) (peer_infos : CallInfos) (peer_ipc : Internals) {peer : Party Tid}
    (quiet : peer.endpoint = {}) : Carried peer_infos peer_ipc (opened infos side) peer where
  owned := empty_owned
  kept := empty_kept
  traced := empty_traced
  numbered := empty_numbered _
  coming _ member := by cases member
  came _ member := by cases member
  fifo := by
    rw [quiet]
    rfl

omit [DecidableEq Tid] in
theorem opened_serving (infos : Bool → CallInfos) (side : Bool) (ipc : Internals) (peer : Party Tid) :
    Serving (infos side) ipc (opened infos side) peer where
  same _ := rfl
  once _ := Nat.le_refl _
  complete _ := .inr (Nat.le_refl _)
  due _ member := by cases member
  jobs _ member := by cases member
  ran _ member := by cases member

theorem opened_linked (infos : Bool → CallInfos) (ipc : Bool → Internals) (side : Bool) :
    Linked (infos side) (infos (!side)) (ipc side) (ipc (!side)) (opened infos side : Party Tid) (opened infos (!side)) :=
  ⟨opened_carried infos side _ _ rfl,opened_serving infos side _ _,opened_carried infos (!side) _ _ rfl,
    opened_serving infos (!side) _ _⟩

/-- What every step of a side keeps holds after every run, and so do both directions. -/
theorem run_induction (usable : Usable infos ipc deeds) {inv : Connection Tid → Prop} (start : inv (opened infos))
    (keeps : ∀ c mover gone,
      (∀ side, Linked (infos side) (infos (!side)) (ipc side) (ipc (!side)) (c side) (c (!side))) →
      Acts (fun operation => Typed (infos (!mover)) (ipc (!mover)).m_proc_map operation ∧
        ∃ t, .start mover t operation ∈ deeds) (ipc mover) (c mover) gone →
      Few gone.1.endpoint.events → Few (c (!mover)).endpoint.events → inv c → inv (c.after mover gone)) :
    (∀ side, Linked (infos side) (infos (!side)) (ipc side) (ipc (!side)) (run (step ipc) (opened infos) deeds side)
      (run (step ipc) (opened infos) deeds (!side))) ∧ inv (run (step ipc) (opened infos) deeds) := by
  let Both (c : Connection Tid) : Prop := (∀ side, Few (c side).endpoint.events) →
    (∀ side, Linked (infos side) (infos (!side)) (ipc side) (ipc (!side)) (c side) (c (!side))) ∧ inv c
  have keeps_both (c : Connection Tid) (deed : Connections.Deed Tid) (c' : Connection Tid) (both : Both c)
      (member : deed ∈ deeds) (stepped : step ipc c deed = some c') : Both c' := by
    intro few
    obtain ⟨mover,gone,acts,rfl⟩ := step_acts (fun side t operation same =>
      (⟨usable.typed side t operation (same ▸ member),t,same ▸ member⟩ :
        Typed (infos (!side)) (ipc (!side)).m_proc_map operation ∧ ∃ t, .start side t operation ∈ deeds)) stepped
    obtain ⟨events,grew⟩ := acts_grow acts
    have few_self := few mover
    have few_other := few (!mover)
    rw [after_self] at few_self
    rw [after_other] at few_other
    have before (side : Bool) : Few (c side).endpoint.events := by
      by_cases same : side = mover
      · rw [same]
        exact few_prefix (grew ▸ few_self)
      · rw [(Bool.eq_not_of_ne same : side = !mover)]
        exact few_other
    obtain ⟨transport,alive,creates⟩ := usable.alive mover
    obtain ⟨links,holds⟩ := both before
    have linked := acts_linked alive creates (links mover) (acts.mono fun _ allowed => allowed.1) few_self few_other
    rw [← after_self c mover gone,← after_other c mover gone] at linked
    refine ⟨fun side => ?_,keeps c mover gone links acts few_self few_other holds⟩
    by_cases same : side = mover
    · rw [same]
      exact linked
    · rw [(Bool.eq_not_of_ne same : side = !mover),Bool.not_not]
      exact linked.symm
  have members : Along (step ipc) (fun _ deed => deed ∈ deeds) (opened infos) deeds :=
    Along.of_prefixes fun before deed short _ => short.subset (List.mem_append_right _ List.mem_cons_self)
  exact members.run keeps_both (fun _ => ⟨opened_linked infos ipc,start⟩) usable.few

/-- Both directions hold after every run. -/
theorem run_linked (usable : Usable infos ipc deeds) (side : Bool) :
    Linked (infos side) (infos (!side)) (ipc side) (ipc (!side)) (run (step ipc) (opened infos) deeds side)
      (run (step ipc) (opened infos) deeds (!side)) :=
  (@run_induction Tid _ infos ipc deeds usable (fun _ => True) trivial fun _ _ _ _ _ _ _ _ => trivial).1 side

theorem run_started (usable : Usable infos ipc deeds) (side : Bool) :
    ∀ t, ∀ frame ∈ (run (step ipc) (opened infos) deeds side).endpoint.threads t, ∃ u, .start side u frame.operation ∈ deeds := by
  let Started (c : Connection Tid) : Prop :=
    ∀ side t, ∀ frame ∈ (c side).endpoint.threads t, ∃ u, Deed.start side u frame.operation ∈ deeds
  have start : Started (opened infos) := fun _ _ _ member => by cases member
  refine (@run_induction Tid _ infos ipc deeds usable Started start ?_).2 side
  intro c mover gone _ acts _ _ started other
  by_cases same : other = mover
  · rw [same,after_self]
    exact acts_started (acts.mono fun _ allowed => allowed.2) (started mover)
  · rw [(Bool.eq_not_of_ne same : other = !mover),after_other]
    exact started (!mover)

end runs

/-! ### What was run and returned -/

section places
variable {s : Endpoint Tid Invocation}

/-- What came is taken out, in the queue, or in the hands of the reader. -/
theorem queue_incoming (kept : Kept s) :
    incoming (picked receivedPacket s.events) = picked CallQueue.tookCall s.events ++ s.pending.m_data_incoming_call ++
      incoming (inHand s) := by
  rw [kept.hands,incoming_append,kept.queue]

/-- A packet that was taken out was passed, or a thread has it. -/
theorem took_perm (kept : Kept s) {who : List Tid} (distinct : who.Nodup) (covers : ∀ event ∈ s.events, event.1 ∈ who) :
    (picked CallQueue.tookCall s.events).Perm
      (incoming (picked passedPacket s.events) ++ who.flatMap fun t => incoming (unpassed (s.threads t))) := by
  have passed : (incoming (picked passedPacket s.events)).Perm
      (who.flatMap fun t => incoming (pickedBy t passedPacket s.events)) := by
    have all := (picked_perm passedPacket distinct covers).filter fun buffer => Incoming buffer
    rwa [List.filter_flatMap] at all
  refine (picked_perm CallQueue.tookCall distinct covers).trans ?_
  simp only [kept.passed]
  exact (List.flatMap_append_perm who _ _).symm.trans (passed.symm.append_right _)

/-- No more packets are passed than came. -/
theorem passed_count (kept : Kept s) (id : CallId) :
    (requestIds (picked passedPacket s.events)).count id ≤ (requestIds (picked receivedPacket s.events)).count id := by
  have covers : ∀ event ∈ s.events, event.1 ∈ (s.events.map Prod.fst).dedup := fun event member =>
    List.mem_dedup.mpr (List.mem_map.mpr ⟨event,member,rfl⟩)
  have took := (took_perm kept (List.nodup_dedup _) covers).map fun buffer => buffer.header.id
  have came := queue_incoming kept
  unfold requestIds
  rw [came,List.map_append,List.map_append,List.count_append,List.count_append,took.count_eq id,List.map_append,
    List.count_append]
  omega

end places

section results
variable {infos peer_infos : CallInfos} {ipc peer_ipc : Internals} {party peer : Party Tid}

/-- No more handlers are run for an id than the operation it belongs to wrote packets. -/
theorem served_count (linked : Linked infos peer_infos ipc peer_ipc party peer) (id : CallId) :
    (servedIds peer).count id ≤ (picked wroteId party.endpoint.events).count id := by
  have came := passed_count linked.back.kept id
  have once := linked.served.once id
  rw [linked.back.fifo,List.count_append]
  omega

/-- At most one handler was run for an id. -/
theorem ran_once (linked : Linked infos peer_infos ipc peer_ipc party peer) (id : CallId) :
    (peer.ran.filter fun run => run.1 = id).length ≤ 1 := by
  have wrote := List.nodup_iff_count_le_one.mp linked.carried.numbered.wrote_nodup id
  have served := served_count linked id
  have runs : (peer.ran.map Prod.fst).count id = (peer.ran.filter fun run => run.1 = id).length := by
    rw [List.count,List.countP_map,List.countP_eq_length_filter]
    rfl
  have inside : (peer.ran.map Prod.fst).count id ≤ (servedIds peer).count id := by
    rw [servedIds,List.count_append]
    exact Nat.le_add_left _ _
  omega

/-- What an operation that waits returns; `ran` are the handlers that the other side ran. -/
inductive Returns (call_infos : CallInfos) (proc_map : ProcMap) (ran : List (CallId × InvokeRemote × List Value)) (id : CallId) :
    Operation Invocation → DataStream → Prop
  | value {call : Invocation} {process_incoming_calls : Bool} {handler : InvokeRemote} {result : DataStream}
    (takes : Takes call_infos proc_map call handler)
    (once : (ran.filter fun run => run.1 = id) = [(id,handler,call.args)])
    (reads : DataStream.Reads result (encodeRet (delegateRet handler.m_del call.args)))
    (value : ∀ ret, delegateRet handler.m_del call.args = some ⟨call.ret,ret⟩ → waitInvokeRet call.ret result = ret) :
    Returns call_infos proc_map ran id (.waitInvoke call process_incoming_calls) result
  | refused {call : Invocation} {process_incoming_calls : Bool} {result : DataStream}
    (refuses : ∀ handler, ¬ Takes call_infos proc_map call handler) (unrun : (ran.filter fun run => run.1 = id) = [])
    (value : waitInvokeRet call.ret result = call.ret.default) :
    Returns call_infos proc_map ran id (.waitInvoke call process_incoming_calls) result
  | listed {result : DataStream} (list : enumerateRemote result = enumerateHandlers call_infos proc_map) :
    Returns call_infos proc_map ran id .enumerateRemote result

theorem returned_returns (linked : Linked infos peer_infos ipc peer_ipc party peer) (few : Few party.endpoint.events)
    {t : Tid} {operation : Operation Invocation} {id : CallId} {result : DataStream}
    (returned : (t,.returned operation id result) ∈ party.endpoint.events) (waits : operation.waitsReturn = true)
    (asks : operation ≠ .processTransport) : Returns peer_infos peer_ipc.m_proc_map peer.ran id operation result := by
  have numbered := linked.carried.numbered
  obtain ⟨issued,from_reply⟩ := (numbered.returned t operation id result returned).resolve_left asks
  obtain ⟨buffer,came,reply,same,rfl⟩ := from_reply waits
  obtain ⟨u,other,packet,type_raw,issued',⟨type,body,bytes,answers⟩,rfl⟩ := linked.carried.answered (came_received came) reply
  rw [same] at issued' bytes answers
  obtain ⟨rfl,rfl⟩ := numbered.owner few issued issued'
  obtain ⟨is_type,_,reads⟩ := reply_received type_raw bytes
  cases answers with
  | @value call process_incoming_calls handler takes once =>
    have answered : DataStream.Reads (processBufferResult (receiveCallDataBuffer type_raw packet))
        (encodeRet (delegateRet handler.m_del call.args)) := by
      rw [processBufferResult,if_pos (.inr is_type)]
      exact reads
    refine .value takes ?_ answered fun ret produced => ?_
    · have mine : (id,handler,call.args) ∈ peer.ran.filter fun run => run.1 = id :=
        List.mem_filter.mpr ⟨once,decide_eq_true rfl⟩
      obtain ⟨run,only⟩ := List.length_eq_one_iff.mp
        (Nat.le_antisymm (ran_once linked id) (List.length_pos_of_mem mine))
      rw [only] at mine ⊢
      rw [List.mem_singleton.mp mine]
    · rw [produced] at answered
      exact (waitInvokeRet_reads answered).2
  | @refused call process_incoming_calls error_arg refuses =>
    refine .refused refuses ?_ ?_
    · refine List.filter_eq_nil_iff.mpr fun run member => ?_
      intro mine
      obtain ⟨v,other,asked,called,made,takes,_⟩ := linked.served.ran run member
      rw [of_decide_eq_true mine] at asked
      obtain ⟨_,rfl⟩ := numbered.owner few issued asked
      cases made
      exact refuses _ takes
    · rw [processBufferResult,is_type]
      rfl
  | listed => exact .listed (answer_received bytes type_raw).2.2.2

/-- The packets of a side go through the transport and the queue of the other one in
    the order in which they were written, each of them once, and what is taken out
    asks for the operation that wrote it. -/
structure InOrder (party peer : Party Tid) : Prop where
  order : picked wroteId party.endpoint.events =
    requestIds (picked CallQueue.tookCall peer.endpoint.events) ++ requestIds peer.endpoint.pending.m_data_incoming_call ++
      requestIds (inHand peer.endpoint) ++ requestIds (peer.arriving.map (receiveCallDataBuffer 0))
  once : (picked wroteId party.endpoint.events).Nodup
  asks : ∀ buffer ∈ picked CallQueue.tookCall peer.endpoint.events, ∃ t operation packet type_raw,
    (t,operation,buffer.header.id) ∈ issues party.endpoint.events ∧ Asks buffer.header.id packet operation ∧
      buffer = receiveCallDataBuffer type_raw packet

theorem linked_inOrder (linked : Linked infos peer_infos ipc peer_ipc party peer) : InOrder party peer := by
  have came := queue_incoming linked.back.kept
  have again (buffers : List CallDataBuffer) : incoming (incoming buffers) = incoming buffers := by
    simp [incoming,List.filter_filter]
  refine ⟨?_,linked.carried.numbered.wrote_nodup,fun buffer member => ?_⟩
  · have ids : requestIds (picked receivedPacket peer.endpoint.events) =
        requestIds (picked CallQueue.tookCall peer.endpoint.events) ++
          requestIds peer.endpoint.pending.m_data_incoming_call ++ requestIds (inHand peer.endpoint) := by
      have twice : requestIds (picked receivedPacket peer.endpoint.events) =
          requestIds (incoming (picked receivedPacket peer.endpoint.events)) := by rw [requestIds,requestIds,again]
      have hand : requestIds (incoming (inHand peer.endpoint)) = requestIds (inHand peer.endpoint) := by
        rw [requestIds,requestIds,again]
      rw [twice,came,requestIds_append,requestIds_append,hand]
    rw [linked.back.fifo,ids]
  · have there : buffer ∈ incoming (picked receivedPacket peer.endpoint.events) := by
      rw [came,List.append_assoc]
      exact List.mem_append_left _ member
    obtain ⟨received,asks⟩ := List.mem_filter.mp there
    exact linked.back.asked received (of_decide_eq_true asks)

end results

/-! ### Every run of both sides -/

section connected
variable {infos : Bool → CallInfos} {ipc : Bool → Internals} {deeds : List (Deed Tid)}

/-- Whatever both sides do, an operation that waits returns with the value of the
    handler that the other side ran for it once, or without a value where no handler
    accepts the call, or with the list of the handlers. -/
theorem waits_answered (usable : Usable infos ipc deeds) (side : Bool) {t : Tid} {operation : Operation Invocation}
    {id : CallId} {result : DataStream}
    (returned : (t,.returned operation id result) ∈ (run (step ipc) (opened infos) deeds side).endpoint.events)
    (waits : operation.waitsReturn = true) (asks : operation ≠ .processTransport) :
    Returns (infos (!side)) (ipc (!side)).m_proc_map (run (step ipc) (opened infos) deeds (!side)).ran id operation result :=
  returned_returns (run_linked usable side) (usable.few side) returned waits asks

/-- Whatever both sides do, the calls of a side come to the other one in order. -/
theorem calls_in_order (usable : Usable infos ipc deeds) (side : Bool) :
    InOrder (run (step ipc) (opened infos) deeds side) (run (step ipc) (opened infos) deeds (!side)) :=
  linked_inOrder (run_linked usable side)

end connected

/-! ### Both sides call each other -/

def notHandler : InvokeRemote where
  params := [.bool]
  return_type := [98]
  m_del := .returns .bool fun args => match args with
    | [⟨.bool,flag⟩] => !flag
    | _ => false
/-- Both sides have a handler for `not(flag)`, and no other thread that executes it. -/
def notSignature : Signature := ⟨[110,111,116],paramsType [[98]]⟩
def notInfos : CallInfos := fun _ => { m_invoke := some notHandler, signature := notSignature }
/-- The same where one thread executes it. -/
def boundInfos (thread_id : ThreadId) : CallInfos := fun _ =>
  { m_invoke := some { notHandler with m_thread_id := thread_id }, signature := notSignature }
def notIpc : Internals where
  m_proc_map := ProcMap.single notSignature { call_info := 0 }
  m_transport := some (proxyTransport fun _ => 0)
  m_inter_thread_nullable := none
/-- Each side serves the call of the other while it waits. -/
def facing : List (Deed Unit) :=
  [.start false () (.waitInvoke (notCall false) true),.start true () (.waitInvoke (notCall true) true),
    .proceed false (),.write false (),.proceed true (),.write true (),
    .proceed true (),.read true () true 0,.proceed true (),.proceed true (),.proceed true (),.proceed true (),
    .proceed false (),.read false () true 0,.proceed false (),.proceed false (),.proceed false (),.proceed false (),
    .proceed true (),.read true () true 0,.proceed true (),.proceed true (),.proceed true (),.proceed true (),
    .proceed false (),.read false () true 0,.proceed false (),.proceed false (),.proceed false (),.proceed false ()]

theorem bound_typed (thread_id : ThreadId) (flag : Bool) (process_incoming_calls : Bool) :
    Typed (boundInfos thread_id) notIpc.m_proc_map (.waitInvoke (notCall flag) process_incoming_calls) := by
  intro call made handler takes
  cases made
  obtain ⟨_,_,_,installed,_⟩ := takes.callable
  cases installed
  have fits : 12 + (encodeRet (delegateRet notHandler.m_del (notCall flag).args)).length < 2^32 := by cases flag <;> decide
  exact ⟨rfl,fits⟩
theorem not_typed (flag : Bool) (process_incoming_calls : Bool) :
    Typed notInfos notIpc.m_proc_map (.waitInvoke (notCall flag) process_incoming_calls) := bound_typed none flag _

omit [DecidableEq Tid] in
/-- The code of the user only calls `not`. -/
theorem not_usable {starts : Bool → Tid → Operation Invocation → Prop} {parties : Connection Tid}
    (calls : ∀ side t operation, starts side t operation →
      ∃ flag process_incoming_calls, operation = .waitInvoke (notCall flag) process_incoming_calls)
    (few : ∀ side, Few (parties side).endpoint.events) : UsableBy (fun _ => notInfos) (fun _ => notIpc) starts parties where
  alive _ := ⟨_,rfl,proxyTransport_creates _⟩
  typed side t operation started := by
    obtain ⟨flag,process_incoming_calls,rfl⟩ := calls side t operation started
    exact not_typed flag process_incoming_calls
  few := few

theorem facing_usable : Usable (fun _ => notInfos) (fun _ => notIpc) facing := by
  refine not_usable (fun side t operation member => ?_) fun side => ?_
  · simp only [facing,List.mem_cons,List.not_mem_nil,reduceCtorEq,or_false,Connections.Deed.start.injEq] at member
    rcases member with ⟨_,_,rfl⟩ | ⟨_,_,rfl⟩ <;> exact ⟨_,_,rfl⟩
  · unfold Few
    cases side <;> decide +kernel

/-- The value that a call returned. -/
def returnedBool : Event Invocation → Option Bool
  | .returned (.waitInvoke _ _) _ result => some (waitInvokeRet .bool result)
  | _ => none

theorem waits_answered_facing : ∃ t call process_incoming_calls id result,
    (t,.returned (.waitInvoke call process_incoming_calls) id result) ∈
      (run (step fun _ => notIpc) (opened fun _ => notInfos) facing false).endpoint.events ∧
    waitInvokeRet .bool result = true ∧
    Returns notInfos notIpc.m_proc_map (run (step fun _ => notIpc) (opened fun _ => notInfos) facing true).ran id
      (.waitInvoke call process_incoming_calls) result := by
  have listed : true ∈ picked returnedBool (run (step fun _ => notIpc) (opened fun _ => notInfos) facing false).endpoint.events := by
    decide +kernel
  obtain ⟨⟨t,event⟩,member,value⟩ := List.mem_filterMap.mp listed
  cases event with
  | returned operation id result =>
    cases operation with
    | waitInvoke call process_incoming_calls =>
      exact ⟨t,call,process_incoming_calls,id,result,member,Option.some.inj value,
        waits_answered facing_usable false member rfl (by rintro ⟨⟩)⟩
    | _ => cases value
  | _ => cases value

theorem calls_in_order_facing :
    InOrder (run (step fun _ => notIpc) (opened fun _ => notInfos) facing true)
      (run (step fun _ => notIpc) (opened fun _ => notInfos) facing false) ∧
    picked wroteId (run (step fun _ => notIpc) (opened fun _ => notInfos) facing true).endpoint.events = [1] :=
  ⟨calls_in_order facing_usable true,by decide +kernel⟩

end IpcPortable.LinkRuns
