import IpcPortable.ReplyCounts

/-!
What holds at both sides beside the two directions: where the replies are, that
nobody reads for what is there, that every packet is answered once, and which ids
are younger. The id that a step draws is the youngest of both sides.
-/
namespace IpcPortable.SteadySides
open IpcPortable.Runs IpcPortable.DataStream IpcPortable.Values IpcPortable.Packets IpcPortable.ProcMaps
open IpcPortable.Dispatch IpcPortable.Replies IpcPortable.Buffers IpcPortable.Pending IpcPortable.EndpointMoves
open IpcPortable.HandOver IpcPortable.CallQueue IpcPortable.Matching IpcPortable.Responses IpcPortable.Enumerations
open IpcPortable.Connections IpcPortable.DueReplies IpcPortable.Numbering IpcPortable.Links IpcPortable.LinkSteps
open IpcPortable.LinkRuns IpcPortable.ReplyStages IpcPortable.Nesting IpcPortable.ReplyCounts
open IpcPortable.Endpoints hiding step
open IpcPortable.Peers hiding Deed step
variable {Tid : Type} [DecidableEq Tid]

/-- What holds at a side beside the two directions; `rank` and `peer_rank` say how old
    the ids of both sides are. -/
structure Steady (rank peer_rank : CallId → Nat) (now : Nat) (party peer : Party Tid) : Prop where
  consumed : Consumed party.endpoint
  looked : Looked party.endpoint
  replied : Replied party peer
  owes : ∀ t, Owes (fun mine theirs => peer_rank theirs < rank mine) (party.endpoint.threads t) (entriesOf party t)
  issued : ∀ t operation id, (t,operation,id) ∈ issues party.endpoint.events → rank id < now

/-! ### One step -/

section step
variable {infos peer_infos : CallInfos} {ipc peer_ipc : Internals} {party peer : Party Tid} {transport : TransportShare}
variable {may : Operation Invocation → Prop} {rank peer_rank : CallId → Nat} {now : Nat}

/-- What a step of a thread keeps in its endpoint. -/
theorem moves_steady (creates : Creates transport) (carried : Carried peer_infos peer_ipc party peer)
    (consumed : Consumed party.endpoint) (looked : Looked party.endpoint) {t : Tid} {move : Move}
    {endpoint : Endpoint Tid Invocation} {arriving : List Data}
    (transports : Transports transport party.arriving move arriving)
    (stepped : Endpoints.step invocationInfo party.endpoint (t,.move move) = some endpoint) (few : Few party.endpoint.events) :
    Consumed endpoint ∧ Looked endpoint ∧ ∀ entry ∈ issues endpoint.events,
      entry ∈ issues party.endpoint.events ∨ entry.2.2 = party.endpoint.pending.nextId := by
  have looks := step_looked carried.owned carried.numbered looked stepped
  cases step_steps stepped with
  | @moves t move frame below out running moved =>
    have goes := carried_goes creates carried (transports_dependable transports) few running moved
    refine ⟨moves_consumed carried.numbered few consumed running moved goes carried.traced (carried_known carried),looks,?_⟩
    intro entry member
    dsimp only [issues] at member
    rw [said_append] at member
    rcases List.mem_append.mp member with old | new
    · exact .inl old
    · rcases goes_counter goes with ⟨drawn,_⟩ | ⟨none,_⟩
      · rw [drawn] at new
        exact .inr (congrArg (fun entry => entry.2.2) (List.mem_singleton.mp new))
      · rw [none] at new
        cases new

theorem acts_held (alive : ipc.m_transport = some transport) (creates : Creates transport)
    (carried : Carried peer_infos peer_ipc party peer) (consumed : Consumed party.endpoint) (looked : Looked party.endpoint)
    {gone : Party Tid × List Data} (acts : Acts may ipc party gone) (few : Few party.endpoint.events) :
    Consumed gone.1.endpoint ∧ Looked gone.1.endpoint ∧ ∀ entry ∈ issues gone.1.endpoint.events,
      entry ∈ issues party.endpoint.events ∨ entry.2.2 = party.endpoint.pending.nextId := by
  have proceeds : Transports transport party.arriving .proceed party.arriving := .proceeds
  cases acts with
  | starts _ free started =>
    have looks := step_looked carried.owned carried.numbered looked started
    cases step_steps started with
    | starts => exact ⟨start_consumed consumed _,looks,fun _ member => .inl member⟩
  | moves transports stepped =>
    exact moves_steady creates carried consumed looked (transports transport alive) stepped few
  | dispatches _ _ _ _ stepped => exact moves_steady creates carried consumed looked proceeds stepped few
  | finishes _ _ _ _ stepped => exact moves_steady creates carried consumed looked proceeds stepped few
  | works _ => exact ⟨consumed,looked,fun _ member => .inl member⟩

omit [DecidableEq Tid] in
theorem entriesOf_issued [DecidableEq Tid] (serving : Serving infos ipc party peer) {t : Tid} {id : CallId}
    (member : id ∈ entriesOf party t) : ∃ u operation, (u,operation,id) ∈ issues peer.endpoint.events := by
  obtain ⟨entry,inside,rfl⟩ := List.mem_map.mp member
  obtain ⟨u,operation,issued,_⟩ := serving.due entry (List.mem_filter.mp inside).1
  exact ⟨u,operation,issued⟩

/-- A step of a side; the id that it can draw is the youngest of all. -/
theorem acts_steady (alive : ipc.m_transport = some transport) (creates : Creates transport)
    (linked : Linked infos peer_infos ipc peer_ipc party peer) {gone : Party Tid × List Data}
    (acts : Acts (Typed peer_infos peer_ipc.m_proc_map) ipc party gone) (few : Few gone.1.endpoint.events)
    (peer_few : Few peer.endpoint.events) (mine : Steady rank peer_rank now party peer)
    (theirs : Steady peer_rank rank now peer party) :
    ∃ younger, Steady younger peer_rank (now + 1) gone.1 { peer with arriving := peer.arriving ++ gone.2 } ∧
      Steady peer_rank younger (now + 1) { peer with arriving := peer.arriving ++ gone.2 } gone.1 := by
  obtain ⟨events,grew⟩ := acts_grow acts
  have few_now : Few party.endpoint.events := few_prefix (grew ▸ few)
  obtain ⟨consumed,looked,issued⟩ := acts_held alive creates linked.carried mine.consumed mine.looked acts few_now
  let next := party.endpoint.pending.nextId
  let younger : CallId → Nat := fun id => if id = next then now else rank id
  have kept {t : Tid} {operation : Operation Invocation} {id : CallId}
      (old : (t,operation,id) ∈ issues party.endpoint.events) : younger id = rank id := by
    refine if_neg ?_
    rintro rfl
    exact linked.carried.numbered.next_new few_now old
  have youngest : younger next = now := if_pos rfl
  refine ⟨younger,⟨consumed,looked,?_,?_,?_⟩,⟨theirs.consumed,theirs.looked,?_,?_,?_⟩⟩
  · intro id waits
    have replied := mine.replied id (waits.before grew)
    show _ = (pendingIds peer).count id + _
    rw [acts_repliedIds alive linked.carried acts]
    exact replied
  · refine acts_owes alive creates linked.carried mine.consumed acts few_now (fun t => ?_) fun t id member => ?_
    · refine (mine.owes t).mono fun other inside asks id _ before => ?_
      rw [kept (asking_issued linked.carried.numbered inside asks)]
      exact before
    · obtain ⟨u,operation,asked⟩ := entriesOf_issued linked.serving member
      show peer_rank id < younger next
      rw [youngest]
      exact theirs.issued u operation id asked
  · intro t operation id member
    rcases issued _ member with old | new
    · rw [kept old]
      exact Nat.lt_succ_of_lt (mine.issued t operation id old)
    · rw [show id = next from new,youngest]
      exact Nat.lt_succ_self now
  · intro id waits
    exact acts_pending alive creates linked acts few peer_few waits (theirs.replied id waits)
  · intro t
    refine (theirs.owes t).mono fun other inside asks id member before => ?_
    obtain ⟨u,operation,asked⟩ := entriesOf_issued linked.served member
    rw [kept asked]
    exact before
  · intro t operation id member
    exact Nat.lt_succ_of_lt (theirs.issued t operation id member)

end step

/-! ### Every run -/

section runs
variable {infos : Bool → CallInfos} {ipc : Bool → Internals} {deeds : List (Connections.Deed Tid)}

theorem opened_steady (infos : Bool → CallInfos) (side : Bool) {peer : Party Tid} (quiet : peer.endpoint = {})
    (idle : pendingIds peer = []) : Steady (fun _ => 0) (fun _ => 0) 0 (opened infos side) peer where
  consumed := empty_consumed
  looked := empty_looked
  replied id _ := by
    rw [quiet,idle]
    rfl
  owes _ := .nil
  issued _ _ _ member := by cases member

/-- Both sides are steady after every run. -/
theorem run_steady (usable : Usable infos ipc deeds) : ∃ (rank : Bool → CallId → Nat) (now : Nat), ∀ side,
    Steady (rank side) (rank (!side)) now (run (step ipc) (opened infos) deeds side)
      (run (step ipc) (opened infos) deeds (!side)) := by
  let Both (c : Connection Tid) : Prop := ∃ (rank : Bool → CallId → Nat) (now : Nat), ∀ side,
    Steady (rank side) (rank (!side)) now (c side) (c (!side))
  have start : Both (opened infos) := ⟨fun _ _ => 0,0,fun side => opened_steady infos side rfl rfl⟩
  refine (@run_induction Tid _ infos ipc deeds usable Both start ?_).2
  rintro c mover gone links acts few peer_few ⟨rank,now,steady⟩
  obtain ⟨transport,alive,creates⟩ := usable.alive mover
  have theirs := steady (!mover)
  rw [Bool.not_not] at theirs
  obtain ⟨younger,mine,other⟩ := acts_steady alive creates (links mover) (acts.mono fun _ allowed => allowed.1) few peer_few
    (steady mover) theirs
  rw [← after_self c mover gone,← after_other c mover gone] at mine other
  refine ⟨fun side => if side = mover then younger else rank side,now + 1,fun side => ?_⟩
  by_cases same : side = mover
  · rw [same]
    dsimp only
    rw [if_pos rfl,if_neg (by simp)]
    exact mine
  · rw [(Bool.eq_not_of_ne same : side = !mover),Bool.not_not]
    dsimp only
    rw [if_pos rfl,if_neg (by simp)]
    exact other

end runs

end IpcPortable.SteadySides
