import IpcPortable.SteadySides

/-!
Both sides when nothing is left to do. The handlers of all calls that were written
have then been run once each (`quiet_ran`). Threads never wait in a circle for the
handlers of each other that are dispatched directly (`waits_acyclic`), so a thread that
is still blocked waits for a packet that nobody takes out at the other side, or for a
job that is left there, itself or through such handlers (`stalled_queued`); and where no
job is left and all calls process what comes in, the other side does not use its endpoint
at all (`stalled_idle`). A posted handler is one step here, so a handler of which the
thread is blocked is a job that is left.
-/
namespace IpcPortable.Stalls
open IpcPortable.Runs IpcPortable.DataStream IpcPortable.Values IpcPortable.Packets IpcPortable.ProcMaps
open IpcPortable.Dispatch IpcPortable.Replies IpcPortable.Buffers IpcPortable.Pending IpcPortable.EndpointMoves
open IpcPortable.HandOver IpcPortable.CallQueue IpcPortable.Matching IpcPortable.Responses IpcPortable.Enumerations
open IpcPortable.Connections IpcPortable.DueReplies IpcPortable.Numbering IpcPortable.Links IpcPortable.LinkSteps
open IpcPortable.LinkRuns IpcPortable.ReplyStages IpcPortable.Nesting IpcPortable.ReplyCounts IpcPortable.SteadySides
open IpcPortable.Endpoints hiding step
open IpcPortable.Peers hiding Deed step
variable {Tid : Type} [DecidableEq Tid]

/-! ### Sides with nothing left to do -/

/-- The ids of the packets that nobody took out, of the queue or of the transport. -/
def leftIds (party : Party Tid) : List CallId :=
  requestIds party.endpoint.pending.m_data_incoming_call ++ requestIds (party.arriving.map (receiveCallDataBuffer 0))
/-- The side has nothing left to do for the other one. -/
structure Quiet (party : Party Tid) : Prop where
  left : leftIds party = []
  jobs : party.jobs = []
  threads : ∀ t, ∀ frame ∈ party.endpoint.threads t,
    unenteredAt frame.point = none ∧ unpassedAt frame.point = none ∧ processes frame = false
/-- The handler that accepts the call was run once, and if none does none was run. -/
def RanFor (call_infos : CallInfos) (proc_map : ProcMap) (ran : List (CallId × InvokeRemote × List Value)) (id : CallId)
    (operation : Operation Invocation) : Prop :=
  (∀ run, Runs call_infos proc_map operation run → (ran.filter fun entry => entry.1 = id) = [(id,run)]) ∧
    ((∀ run, ¬ Runs call_infos proc_map operation run) → (ran.filter fun entry => entry.1 = id) = [])

section quiet
variable {infos peer_infos : CallInfos} {ipc peer_ipc : Internals} {party peer : Party Tid}

omit [DecidableEq Tid] in
theorem inStack_nothing {pick : Point → Option CallDataBuffer} {stack : List (Activation Invocation)}
    (nothing : ∀ frame ∈ stack, pick frame.point = none) : inStack pick stack = [] := by
  refine List.flatMap_eq_nil_iff.mpr fun frame member => ?_
  rw [nothing frame member]
  rfl

omit [DecidableEq Tid] in
theorem inHand_nothing {s : Endpoint Tid Invocation} (nothing : ∀ t, ∀ frame ∈ s.threads t, unenteredAt frame.point = none) :
    inHand s = [] := by
  unfold inHand
  split
  · exact inStack_nothing (nothing _)
  · rfl

omit [DecidableEq Tid] in
theorem owes_nothing {after : CallId → CallId → Prop} {stack : List (Activation Invocation)} {ids : List CallId}
    (owes : Owes after stack ids) (idle : ∀ frame ∈ stack, processes frame = false) : ids = [] := by
  induction owes with
  | nil => rfl
  | cons mine later owes ih =>
    rw [idle _ List.mem_cons_self] at mine
    rw [List.eq_nil_of_length_eq_zero mine,ih fun frame inner => idle frame (List.mem_cons_of_mem _ inner)]
    rfl

/-- What was taken out was passed where no thread has a packet. -/
theorem took_passed {s : Endpoint Tid Invocation} (kept : Kept s)
    (nothing : ∀ t, ∀ frame ∈ s.threads t, unpassedAt frame.point = none) :
    (requestIds (picked CallQueue.tookCall s.events)).Perm (requestIds (picked passedPacket s.events)) := by
  have covers : ∀ event ∈ s.events, event.1 ∈ (s.events.map Prod.fst).dedup := fun event member =>
    List.mem_dedup.mpr (List.mem_map.mpr ⟨event,member,rfl⟩)
  have took := took_perm kept (List.nodup_dedup _) covers
  have none : ((s.events.map Prod.fst).dedup.flatMap fun t => incoming (unpassed (s.threads t))) = [] := by
    refine List.flatMap_eq_nil_iff.mpr fun t _ => ?_
    have empty : unpassed (s.threads t) = [] := inStack_nothing (nothing t)
    rw [empty]
    rfl
  rw [none,List.append_nil] at took
  have again := (took.filter fun buffer => Incoming buffer).map fun buffer => buffer.header.id
  have twice : incoming (incoming (picked passedPacket s.events)) = incoming (picked passedPacket s.events) := by
    simp [incoming,List.filter_filter]
  rwa [show (incoming (picked passedPacket s.events)).filter (fun buffer => Incoming buffer) = _ from twice] at again

/-- What was written was passed at the other side, or it is still there. -/
theorem wrote_passed (linked : Linked infos peer_infos ipc peer_ipc party peer)
    (nothing : ∀ t, ∀ frame ∈ peer.endpoint.threads t, unenteredAt frame.point = none ∧ unpassedAt frame.point = none)
    {id : CallId} (wrote : id ∈ picked wroteId party.endpoint.events) :
    id ∈ requestIds (picked passedPacket peer.endpoint.events) ∨ id ∈ leftIds peer := by
  have order := (linked_inOrder linked).order
  rw [inHand_nothing fun t frame member => (nothing t frame member).1] at order
  have took := took_passed linked.back.kept fun t frame member => (nothing t frame member).2
  have nowhere : requestIds [] = [] := rfl
  rw [order,nowhere,List.append_nil,List.append_assoc] at wrote
  exact (List.mem_append.mp wrote).imp_left took.mem_iff.mp

theorem quiet_ranFor (linked : Linked infos peer_infos ipc peer_ipc party peer) (few : Few party.endpoint.events)
    (owes : ∀ t, ∃ after, Owes after (peer.endpoint.threads t) (entriesOf peer t)) (quiet : Quiet peer) {t : Tid}
    {operation : Operation Invocation} {id : CallId} (issued : (t,operation,id) ∈ issues party.endpoint.events)
    (wrote : id ∈ picked wroteId party.endpoint.events) : RanFor peer_infos peer_ipc.m_proc_map peer.ran id operation := by
  have owner {u : Tid} {other : Operation Invocation} (issued' : (u,other,id) ∈ issues party.endpoint.events) :
      operation = other := (linked.carried.numbered.owner few issued issued').2
  have ran (entry : CallId × InvokeRemote × List Value) (member : entry ∈ peer.ran) (mine : entry.1 = id) :
      Runs peer_infos peer_ipc.m_proc_map operation entry.2 := by
    obtain ⟨u,other,issued',runs⟩ := linked.served.ran entry member
    rw [mine] at issued'
    rw [owner issued']
    exact runs
  constructor
  · intro run runs
    have passed := (wrote_passed linked (fun u frame member => ⟨(quiet.threads u frame member).1,
      (quiet.threads u frame member).2.1⟩) wrote).resolve_right (by rw [quiet.left]; exact List.not_mem_nil)
    obtain ⟨call,made,takes,args⟩ := runs
    have complete := (linked.served.complete id).resolve_left (by
      rintro ⟨u,other,issued',untaken⟩
      rw [← owner issued'] at untaken
      exact untaken ⟨call,run.1,made,takes⟩)
    have undispatched : peer.dispatched = [] := by
      refine List.eq_nil_iff_forall_not_mem.mpr fun entry member => ?_
      obtain ⟨after,owes⟩ := owes entry.1
      have none := owes_nothing owes fun frame inside => (quiet.threads _ frame inside).2.2
      have inside : entry.2.1 ∈ entriesOf peer entry.1 :=
        List.mem_map.mpr ⟨entry,List.mem_filter.mpr ⟨member,decide_eq_true rfl⟩,rfl⟩
      rw [none] at inside
      cases inside
    have served : id ∈ servedIds peer := List.count_pos_iff.mp (Nat.lt_of_lt_of_le (List.count_pos_iff.mpr passed) complete)
    rw [servedIds,undispatched,quiet.jobs] at served
    obtain ⟨entry,member,same⟩ := List.mem_map.mp (served : id ∈ peer.ran.map Prod.fst)
    obtain ⟨only,listed⟩ := List.length_eq_one_iff.mp (Nat.le_antisymm (ran_once linked id)
      (List.length_pos_of_mem (List.mem_filter.mpr ⟨member,decide_eq_true same⟩)))
    have inside : only ∈ peer.ran.filter fun run => run.1 = id := listed ▸ List.mem_cons_self
    obtain ⟨member,mine⟩ := List.mem_filter.mp inside
    obtain ⟨other,made',takes',args'⟩ := ran only member (of_decide_eq_true mine)
    cases made.symm.trans made'
    have handler := callable_unique takes.callable takes'.callable
    rw [listed,show only = (id,run) from Prod.ext (of_decide_eq_true mine) (Prod.ext handler.symm (args'.trans args.symm))]
  · intro none
    refine List.filter_eq_nil_iff.mpr fun entry member mine => ?_
    exact none entry.2 (ran entry member (of_decide_eq_true mine))

end quiet

/-! ### Threads that wait for each other -/

/-- The activation waits to be notified, or reads from the transport. -/
def blocks (frame : Activation Invocation) : Bool :=
  match frame.point with
  | .waiting => true
  | .reading => true
  | _ => false
/-- The thread is blocked until the reply with the id comes. -/
def BlockedOn (party : Party Tid) (t : Tid) (id : CallId) : Prop :=
  ((party.endpoint.threads t).head?.filter blocks).map Activation.id = some id ∧ id ≠ c_invalid_id
/-- A blocked thread waits for a handler in which a thread of the other side is blocked.
    The handler is one that was dispatched directly: a posted one runs in one step. -/
def WaitsFor (c : Connection Tid) (one other : Bool × Tid) : Prop :=
  other.1 = !one.1 ∧ (∃ id, BlockedOn (c one.1) one.2 id ∧ id ∈ entriesOf (c other.1) other.2) ∧
    ∃ id, BlockedOn (c other.1) other.2 id
/-- Nobody is there to read what arrives, and whoever uses the endpoint is blocked; who
    waits was not notified. Jobs may be left, of threads that are blocked too. -/
structure Stopped (party : Party Tid) : Prop where
  arriving : party.arriving = [] ∨ ∀ t, party.endpoint.threads t = []
  blocked : ∀ t, party.endpoint.threads t ≠ [] → ∃ id, BlockedOn party t id
  waiting : ∀ t frame below, party.endpoint.threads t = frame :: below → frame.point = .waiting →
    t ∈ party.endpoint.pending.m_write_cond
/-- No job is left either. -/
structure Stalled (party : Party Tid) : Prop extends Stopped party where
  jobs : party.jobs = []

section waits
variable {infos peer_infos : CallInfos} {ipc peer_ipc : Internals} {party peer : Party Tid}
variable {rank peer_rank : CallId → Nat} {now : Nat}

omit [DecidableEq Tid] in
theorem blockedOn_top {t : Tid} {id : CallId} (blocked : BlockedOn party t id) : ∃ frame below,
    party.endpoint.threads t = frame :: below ∧ (frame.point = .waiting ∨ frame.point = .reading) ∧ frame.id = id ∧
      id ≠ c_invalid_id := by
  obtain ⟨top,nonzero⟩ := blocked
  obtain ⟨frame,first,same⟩ := Option.map_eq_some_iff.mp top
  obtain ⟨first,inside⟩ := Option.filter_eq_some_iff.mp first
  obtain ⟨below,running⟩ := List.head?_eq_some_iff.mp first
  refine ⟨frame,below,running,?_,same,nonzero⟩
  unfold blocks at inside
  split at inside
  · exact .inl (by assumption)
  · exact .inr (by assumption)
  · cases inside

omit [DecidableEq Tid] in
theorem blocked_past {frame : Activation Invocation} (at_point : frame.point = .waiting ∨ frame.point = .reading) :
    frame.point ≠ .newCallId ∧ frame.point ≠ .writing := by
  rcases at_point with waits | reads
  · rw [waits]
    exact ⟨Point.noConfusion,Point.noConfusion⟩
  · rw [reads]
    exact ⟨Point.noConfusion,Point.noConfusion⟩

omit [DecidableEq Tid] in
/-- Who is blocked asked for something and waits for the reply. -/
theorem blockedOn_asks {may : Operation Invocation → Prop} (numbered : Numbered may party.endpoint) {t : Tid}
    {frame : Activation Invocation} {below : List (Activation Invocation)} (running : party.endpoint.threads t = frame :: below)
    (at_point : frame.point = .waiting ∨ frame.point = .reading) (nonzero : frame.id ≠ c_invalid_id) :
    asking frame = true ∧ frame.operation.waitsReturn = true := by
  have placed := numbered.placed t frame (running ▸ List.mem_cons_self)
  have past := blocked_past at_point
  refine ⟨asking_iff.mpr ⟨fun polls => nonzero (placed.polls polls).1,past.1⟩,?_⟩
  by_contra goes
  rcases placed.leaves (Bool.not_eq_true _ ▸ goes) with early | early
  · exact past.1 early
  · exact past.2 early

omit [DecidableEq Tid] in
theorem blocked_idle {frame : Activation Invocation} (at_point : frame.point = .waiting ∨ frame.point = .reading) :
    unenteredAt frame.point = none ∧ unpassedAt frame.point = none ∧ processes frame = false ∧ served frame.point = false := by
  unfold processes
  rcases at_point with waits | reads
  · rw [waits]
    exact ⟨rfl,rfl,rfl,rfl⟩
  · rw [reads]
    exact ⟨rfl,rfl,rfl,rfl⟩

/-- The packets of a blocked thread are older than its operation. -/
theorem blockedOn_later (linked : Linked infos peer_infos ipc peer_ipc party peer) (steady : Steady rank peer_rank now party peer)
    {t : Tid} {id : CallId} (blocked : BlockedOn party t id) : ∀ other ∈ entriesOf party t, peer_rank other < rank id := by
  obtain ⟨frame,below,running,at_point,rfl,nonzero⟩ := blockedOn_top blocked
  have owes := steady.owes t
  rw [running] at owes
  exact (owes.idle (blocked_idle at_point).2.2.1).2 (blockedOn_asks linked.carried.numbered running at_point nonzero).1

theorem blockedOn_young (linked : Linked infos peer_infos ipc peer_ipc party peer) (steady : Steady rank peer_rank now party peer)
    {t : Tid} {id : CallId} (blocked : BlockedOn party t id) : rank id < now := by
  obtain ⟨frame,below,running,at_point,rfl,nonzero⟩ := blockedOn_top blocked
  have numbered := linked.carried.numbered
  have asks := (blockedOn_asks numbered running at_point nonzero).1
  exact steady.issued t _ _ (asking_issued numbered (running ▸ List.mem_cons_self) asks)

omit [DecidableEq Tid] in
theorem Stopped.carries (stopped : Stopped party) {may : Operation Invocation → Prop} (numbered : Numbered may party.endpoint) :
    ∀ t, ∀ frame ∈ party.endpoint.threads t, unenteredAt frame.point = none ∧ unpassedAt frame.point = none := by
  intro t frame member
  obtain ⟨id,blocked⟩ := stopped.blocked t (List.ne_nil_of_mem member)
  obtain ⟨top,below,running,at_point,_⟩ := blockedOn_top blocked
  have inner := numbered.inner t frame
  rw [running] at member inner
  rcases List.mem_cons.mp member with rfl | deeper
  · exact ⟨(blocked_idle at_point).1,(blocked_idle at_point).2.1⟩
  · obtain ⟨precessed,result,inside⟩ := inner deeper
    rw [inside]
    exact ⟨rfl,rfl⟩

/-- The reply of a blocked operation did not come. -/
theorem stopped_unreplied (linked : Linked infos peer_infos ipc peer_ipc party peer)
    (steady : Steady rank peer_rank now party peer) (stopped : Stopped party) {t : Tid} {id : CallId}
    (blocked : BlockedOn party t id) : id ∉ repliedIds party := by
  obtain ⟨frame,below,running,at_point,rfl,nonzero⟩ := blockedOn_top blocked
  have numbered := linked.carried.numbered
  have carries := stopped.carries numbered
  have arriving := stopped.arriving.resolve_right fun idle => List.cons_ne_nil _ _ (running.symm.trans (idle t))
  have member : frame ∈ party.endpoint.threads t := running ▸ List.mem_cons_self
  have came := linked.carried.kept.hands
  rw [inHand_nothing fun u other inside => (carries u other inside).1,List.append_nil] at came
  rw [repliedIds,came,arriving,show arrivingIds [] = [] from rfl,List.append_nil]
  intro replied
  rcases steady.consumed.entered frame.id replied with took | stored
  · have asks := (blockedOn_asks numbered running at_point nonzero).1
    exact steady.consumed.unserved t frame member asks (blocked_idle at_point).2.2.2 took
  · rcases at_point with waits | reads
    · obtain ⟨top,deeper,running',_,_,absent,_⟩ := linked.carried.owned.blocked t (stopped.waiting t frame below running waits)
      cases running.symm.trans running'
      exact stored absent
    · exact stored (steady.looked t frame below running reads).1

/-- The packet of a blocked operation was not taken out at the other side, or its handler is
    still a job there, or a blocked thread there processes it. -/
theorem stopped_next (linked : Linked infos peer_infos ipc peer_ipc party peer) (few : Few party.endpoint.events)
    (mine : Steady rank peer_rank now party peer) (stopped : Stopped party) (peer_stopped : Stopped peer)
    (theirs : Steady peer_rank rank now peer party) {t : Tid} {id : CallId} (blocked : BlockedOn party t id) :
    (id ∈ leftIds peer ∨ id ∈ peer.jobs.map Prod.fst) ∨ ∃ u other, id ∈ entriesOf peer u ∧ BlockedOn peer u other := by
  have unreplied := stopped_unreplied linked mine stopped blocked
  obtain ⟨frame,below,running,at_point,rfl,nonzero⟩ := blockedOn_top blocked
  have numbered := linked.carried.numbered
  have member : frame ∈ party.endpoint.threads t := running ▸ List.mem_cons_self
  obtain ⟨asks,waits⟩ := blockedOn_asks numbered running at_point nonzero
  have wrote := mine.consumed.wrote t frame member asks (blocked_past at_point).2
  rcases wrote_passed linked (peer_stopped.carries linked.back.numbered) wrote with passed | queued
  on_goal 2 => exact .inl (.inl queued)
  have waiting : Waits party frame.id := by
    intro u operation issued
    rw [← (numbered.owner few (asking_issued numbered member asks) issued).2]
    exact waits
  have replied := mine.replied frame.id waiting
  rw [List.count_eq_zero.mpr unreplied,Nat.add_zero] at replied
  have pending : frame.id ∈ pendingIds peer := List.count_pos_iff.mp (replied ▸ List.count_pos_iff.mpr passed)
  rcases List.mem_append.mp pending with dispatched | posted
  on_goal 2 => exact .inl (.inr posted)
  obtain ⟨entry,inside,same⟩ := List.mem_map.mp dispatched
  have processed : frame.id ∈ entriesOf peer entry.1 :=
    List.mem_map.mpr ⟨entry,List.mem_filter.mpr ⟨inside,decide_eq_true rfl⟩,same⟩
  have busy : peer.endpoint.threads entry.1 ≠ [] := by
    intro empty
    have owes := theirs.owes entry.1
    rw [empty] at owes
    rw [owes_nothing owes fun _ inner => (by cases inner)] at processed
    cases processed
  obtain ⟨other,blocked⟩ := peer_stopped.blocked entry.1 busy
  exact .inr ⟨entry.1,other,processed,blocked⟩

end waits

/-! ### Every run of both sides -/

section connected
variable {infos : Bool → CallInfos} {ipc : Bool → Internals} {deeds : List (Connections.Deed Tid)}

/-- When a side has nothing left to do, the handlers of all calls that the other one
    wrote were run once each. -/
theorem quiet_ran (usable : Usable infos ipc deeds) (side : Bool)
    (quiet : Quiet (run (step ipc) (opened infos) deeds (!side))) {t : Tid} {operation : Operation Invocation} {id : CallId}
    (issued : (t,operation,id) ∈ issues (run (step ipc) (opened infos) deeds side).endpoint.events)
    (wrote : id ∈ picked wroteId (run (step ipc) (opened infos) deeds side).endpoint.events) :
    RanFor (infos (!side)) (ipc (!side)).m_proc_map (run (step ipc) (opened infos) deeds (!side)).ran id operation := by
  obtain ⟨rank,now,steady⟩ := run_steady usable
  exact quiet_ranFor (run_linked usable side) (usable.few side) (fun u => ⟨_,(steady (!side)).owes u⟩) quiet issued wrote

/-- How old the operation is in which a thread is blocked. -/
def age (rank : Bool → CallId → Nat) (c : Connection Tid) (who : Bool × Tid) : Nat :=
  match (c who.1).endpoint.threads who.2 with
  | frame :: _ => rank who.1 frame.id
  | [] => 0

omit [DecidableEq Tid] in
theorem age_blocked (rank : Bool → CallId → Nat) {c : Connection Tid} {who : Bool × Tid} {id : CallId}
    (blocked : BlockedOn (c who.1) who.2 id) : age rank c who = rank who.1 id := by
  obtain ⟨frame,below,running,_,rfl,_⟩ := blockedOn_top blocked
  rw [age,running]

/-- Who waits began before the one it waits for. -/
theorem waitsFor_later {c : Connection Tid} {rank : Bool → CallId → Nat} {now : Nat}
    (links : ∀ side, Linked (infos side) (infos (!side)) (ipc side) (ipc (!side)) (c side) (c (!side)))
    (steady : ∀ side, Steady (rank side) (rank (!side)) now (c side) (c (!side))) {one other : Bool × Tid}
    (waits : WaitsFor c one other) : age rank c one < age rank c other := by
  obtain ⟨across,⟨id,blocked,processed⟩,next,peer_blocked⟩ := waits
  rw [age_blocked rank blocked,age_blocked rank peer_blocked]
  have later := blockedOn_later (links other.1) (steady other.1) peer_blocked id processed
  have back : (!other.1) = one.1 := by rw [across,Bool.not_not]
  rwa [back] at later

/-- Threads never wait in a circle for the handlers of each other that are dispatched directly. -/
theorem waits_acyclic (usable : Usable infos ipc deeds) (who : Bool × Tid) :
    ¬ Relation.TransGen (WaitsFor (run (step ipc) (opened infos) deeds)) who who := by
  obtain ⟨rank,now,steady⟩ := run_steady usable
  intro circle
  have grows : Relation.TransGen (· < ·) (age rank _ who) (age rank _ who) :=
    Relation.TransGen.lift (age rank _) (fun one other => waitsFor_later (run_linked usable) steady) who who circle
  rw [Relation.transGen_eq_self] at grows
  exact Nat.lt_irrefl _ grows

/-- The operations on the way to the last one get younger. -/
theorem stopped_chain {c : Connection Tid} {rank : Bool → CallId → Nat} {now : Nat}
    (links : ∀ side, Linked (infos side) (infos (!side)) (ipc side) (ipc (!side)) (c side) (c (!side)))
    (few : ∀ side, Few (c side).endpoint.events)
    (steady : ∀ side, Steady (rank side) (rank (!side)) now (c side) (c (!side))) (stopped : ∀ side, Stopped (c side))
    (who : Bool × Tid) (inside : (c who.1).endpoint.threads who.2 ≠ []) :
    ∃ last id, Relation.ReflTransGen (WaitsFor c) who last ∧ BlockedOn (c last.1) last.2 id ∧
      (id ∈ leftIds (c (!last.1)) ∨ id ∈ (c (!last.1)).jobs.map Prod.fst) := by
  obtain ⟨id,blocked⟩ := (stopped who.1).blocked who.2 inside
  -- Who waits for another thread began before it, and no operation is younger than `now`.
  induction left : now - age rank c who using Nat.strong_induction_on generalizing who id with
  | _ left ih =>
    have linked := links who.1
    have theirs := steady (!who.1)
    rw [Bool.not_not] at theirs
    rcases stopped_next linked (few who.1) (steady who.1) (stopped who.1) (stopped (!who.1)) theirs blocked with
      queued | ⟨u,next,processed,peer_blocked⟩
    · exact ⟨who,id,.refl,blocked,queued⟩
    · have waits : WaitsFor c who (!who.1,u) := ⟨rfl,⟨id,blocked,processed⟩,next,peer_blocked⟩
      have later := waitsFor_later links steady waits
      have young : age rank c (!who.1,u) < now := by
        rw [age_blocked rank peer_blocked]
        exact blockedOn_young linked.symm theirs peer_blocked
      have goes_on : (c (!who.1)).endpoint.threads u ≠ [] := by
        obtain ⟨frame,below,running,_⟩ := blockedOn_top peer_blocked
        rw [running]
        exact List.cons_ne_nil _ _
      obtain ⟨last,final,chain,rest⟩ := ih _ (by omega) (!who.1,u) goes_on next peer_blocked rfl
      exact ⟨last,final,.head waits chain,rest⟩

/-- Every thread that is still blocked when both sides have stopped waits, itself or
    through handlers that wait for each other, for a packet that nobody takes out at
    the other side, or for a job that is left there. -/
theorem stalled_queued (usable : Usable infos ipc deeds)
    (stopped : ∀ side, Stopped (run (step ipc) (opened infos) deeds side)) (who : Bool × Tid)
    (inside : (run (step ipc) (opened infos) deeds who.1).endpoint.threads who.2 ≠ []) :
    ∃ last id, Relation.ReflTransGen (WaitsFor (run (step ipc) (opened infos) deeds)) who last ∧
      BlockedOn (run (step ipc) (opened infos) deeds last.1) last.2 id ∧
      (id ∈ leftIds (run (step ipc) (opened infos) deeds (!last.1)) ∨
        id ∈ (run (step ipc) (opened infos) deeds (!last.1)).jobs.map Prod.fst) := by
  obtain ⟨rank,now,steady⟩ := run_steady usable
  exact stopped_chain (run_linked usable) usable.few steady stopped who inside

/-- Where both sides are stalled and a thread is inside, a side left something. -/
theorem stalled_left (usable : Usable infos ipc deeds)
    (stalled : ∀ side, Stalled (run (step ipc) (opened infos) deeds side)) {side : Bool} {t : Tid}
    (inside : (run (step ipc) (opened infos) deeds side).endpoint.threads t ≠ []) :
    ∃ side, leftIds (run (step ipc) (opened infos) deeds side) ≠ [] := by
  obtain ⟨rank,now,steady⟩ := run_steady usable
  obtain ⟨last,id,_,_,ends⟩ :=
    stopped_chain (run_linked usable) usable.few steady (fun side => (stalled side).toStopped) (side,t) inside
  rw [(stalled (!last.1)).jobs,List.map_nil] at ends
  exact ⟨!last.1,List.ne_nil_of_mem (ends.resolve_right List.not_mem_nil)⟩

/-- A stalled side that a thread uses left nothing in its queue or in the transport, where
    every operation that waits processes the calls that come in. -/
theorem stalled_taken (usable : Usable infos ipc deeds) {side : Bool}
    (processes : ∀ t operation, .start side t operation ∈ deeds → operation.waitsReturn = true →
      operation.processIncomingCalls = true)
    (stalled : Stalled (run (step ipc) (opened infos) deeds side)) {u : Tid}
    (busy : (run (step ipc) (opened infos) deeds side).endpoint.threads u ≠ []) :
    leftIds (run (step ipc) (opened infos) deeds side) = [] := by
  obtain ⟨rank,now,steady⟩ := run_steady usable
  obtain ⟨other,blocked⟩ := stalled.blocked u busy
  obtain ⟨frame,below,running,at_point,rfl,nonzero⟩ := blockedOn_top blocked
  have linked := run_linked usable side
  have member : frame ∈ (run (step ipc) (opened infos) deeds side).endpoint.threads u := running ▸ List.mem_cons_self
  obtain ⟨v,started⟩ := run_started usable side u frame member
  have allowed := processes v _ started (blockedOn_asks linked.carried.numbered running at_point nonzero).2
  have empty : (run (step ipc) (opened infos) deeds side).endpoint.pending.m_data_incoming_call = [] := by
    rcases at_point with waits | reads
    · obtain ⟨top,deeper,running',_,_,_,empty⟩ := linked.carried.owned.blocked u (stalled.waiting u frame below running waits)
      cases running.symm.trans running'
      exact empty allowed
    · exact ((steady side).looked u frame below running reads).2 allowed
  rw [leftIds,empty,stalled.arriving.resolve_right fun idle => busy (idle u)]
  rfl

/-- Where every operation that waits processes the calls that come in, both sides are
    only stalled with no job left because one of them does not use its endpoint at all. -/
theorem stalled_idle (usable : Usable infos ipc deeds)
    (processes : ∀ side t operation, .start side t operation ∈ deeds → operation.waitsReturn = true →
      operation.processIncomingCalls = true)
    (stalled : ∀ side, Stalled (run (step ipc) (opened infos) deeds side)) (who : Bool × Tid)
    (inside : (run (step ipc) (opened infos) deeds who.1).endpoint.threads who.2 ≠ []) :
    ∃ side, leftIds (run (step ipc) (opened infos) deeds side) ≠ [] ∧
      ∀ t, (run (step ipc) (opened infos) deeds side).endpoint.threads t = [] := by
  obtain ⟨side,left⟩ := stalled_left usable stalled inside
  refine ⟨side,left,fun u => ?_⟩
  by_contra busy
  exact left (stalled_taken usable (processes side) (stalled side) busy)

end connected

/-! ### A call back to a thread that waits -/

instance (party : Party Tid) (t : Tid) (id : CallId) : Decidable (BlockedOn party t id) := inferInstanceAs (Decidable (_ ∧ _))

/-- The handler of one side is for a thread, here the one that calls. -/
def circularInfos (side : Bool) : CallInfos := boundInfos (if side then none else some 0)
def circularIpc : Internals := { notIpc with m_inter_thread_nullable := some ⟨some 1⟩ }
/-- That side calls, the handler calls back, and the thread reads the packet and posts the
    handler of it to itself. -/
def circular : List (Connections.Deed Unit) :=
  [.start false () (.waitInvoke (notCall false) true),.proceed false (),.write false (),
    .start true () .processTransport,.proceed true (),.read true () true 0,.proceed true (),.proceed true (),.proceed true (),
    .start true () (.waitInvoke (notCall true) true),.proceed true (),.write true (),.proceed true (),
    .proceed false (),.read false () true 0,.proceed false (),.proceed false (),.proceed false (),.proceed false (),
    .proceed false ()]
/-- A side calls, and the other one does not read. -/
def unheard : List (Connections.Deed Unit) :=
  [.start false () (.waitInvoke (notCall false) true),.proceed false (),.write false (),.proceed false ()]

theorem circular_usable : Usable circularInfos (fun _ => circularIpc) circular where
  alive _ := ⟨_,rfl,proxyTransport_creates _⟩
  typed side t operation member := by
    simp only [circular,List.mem_cons,List.not_mem_nil,reduceCtorEq,or_false,false_or,Connections.Deed.start.injEq] at member
    rcases member with ⟨_,_,rfl⟩ | ⟨_,_,rfl⟩ | ⟨_,_,rfl⟩
    · exact bound_typed _ false true
    · trivial
    · exact bound_typed _ true true
  few side := by
    unfold Few
    cases side <;> decide +kernel

theorem unheard_usable : Usable (fun _ => notInfos) (fun _ => notIpc) unheard := by
  refine not_usable (fun side t operation member => ?_) fun side => ?_
  · simp only [unheard,List.mem_cons,List.not_mem_nil,reduceCtorEq,or_false,Connections.Deed.start.injEq] at member
    exact ⟨_,_,member.2.2⟩
  · unfold Few
    cases side <;> decide +kernel

/-- The one thread of a side is outside, or reads for its reply. -/
theorem reads_stopped {party : Party Unit} {id : CallId}
    (ends : (party.endpoint.threads ()).isEmpty = true ∨ party.arriving.isEmpty = true ∧ BlockedOn party () id ∧
      (party.endpoint.threads ()).head?.map (fun frame => frame.point.holds) = some true) : Stopped party := by
  refine ⟨?_,fun _ busy => ?_,fun _ frame below running at_point => ?_⟩
  · rcases ends with idle | ⟨arriving,_⟩
    · exact .inr fun _ => List.isEmpty_iff.mp idle
    · exact .inl (List.isEmpty_iff.mp arriving)
  · rcases ends with idle | ⟨_,blocked,_⟩
    · exact absurd (List.isEmpty_iff.mp idle) busy
    · exact ⟨id,blocked⟩
  · rcases ends with idle | ⟨_,_,reads⟩
    · rw [running] at idle
      cases idle
    · rw [running,List.head?_cons,Option.map_some,at_point] at reads
      cases reads

theorem circular_stopped (side : Bool) : Stopped (run (step fun _ => circularIpc) (opened circularInfos) circular side) :=
  @reads_stopped _ 1 (by cases side <;> decide +kernel)

theorem unheard_stalled (side : Bool) : Stalled (run (step fun _ => notIpc) (opened fun _ => notInfos) unheard side) :=
  ⟨@reads_stopped _ 1 (by cases side <;> decide +kernel),List.isEmpty_iff.mp (by cases side <;> decide +kernel)⟩

theorem idle_quiet {party : Party Unit} (left : leftIds party = []) (jobs : party.jobs.isEmpty = true)
    (idle : (party.endpoint.threads ()).isEmpty = true) : Quiet party := by
  refine ⟨left,List.isEmpty_iff.mp jobs,fun _ frame member => ?_⟩
  rw [List.isEmpty_iff.mp idle] at member
  cases member

theorem quiet_ran_facing : ∃ t operation,
    (t,operation,1) ∈ issues (run (step fun _ => notIpc) (opened fun _ => notInfos) facing false).endpoint.events ∧
    RanFor notInfos notIpc.m_proc_map (run (step fun _ => notIpc) (opened fun _ => notInfos) facing true).ran 1 operation := by
  have quiet : Quiet (run (step fun _ => notIpc) (opened fun _ => notInfos) facing true) :=
    idle_quiet (by decide +kernel) (by decide +kernel) (by decide +kernel)
  have wrote : 1 ∈ picked wroteId (run (step fun _ => notIpc) (opened fun _ => notInfos) facing false).endpoint.events := by
    decide +kernel
  obtain ⟨t,operation,issued⟩ := (run_linked facing_usable false).carried.numbered.wrote_issued 1 wrote
  exact ⟨t,operation,issued,quiet_ran facing_usable false quiet issued wrote⟩

theorem waits_acyclic_circular :
    WaitsFor (run (step fun _ => circularIpc) (opened circularInfos) circular) (false,()) (true,()) ∧
      ¬ Relation.TransGen (WaitsFor (run (step fun _ => circularIpc) (opened circularInfos) circular)) (true,()) (true,()) :=
  ⟨⟨rfl,⟨1,by decide +kernel,by decide +kernel⟩,1,by decide +kernel⟩,waits_acyclic circular_usable (true,())⟩

theorem stalled_queued_circular : ∃ last id,
    Relation.ReflTransGen (WaitsFor (run (step fun _ => circularIpc) (opened circularInfos) circular)) (false,()) last ∧
      BlockedOn (run (step fun _ => circularIpc) (opened circularInfos) circular last.1) last.2 id ∧
      id ∈ (run (step fun _ => circularIpc) (opened circularInfos) circular (!last.1)).jobs.map Prod.fst := by
  have taken (side : Bool) : leftIds (run (step fun _ => circularIpc) (opened circularInfos) circular side) = [] := by
    cases side <;> decide +kernel
  obtain ⟨last,id,chain,blocked,ends⟩ := stalled_queued circular_usable circular_stopped (false,()) (by
    intro empty
    exact absurd (congrArg List.length empty) (by decide +kernel))
  rw [taken (!last.1)] at ends
  exact ⟨last,id,chain,blocked,ends.resolve_left List.not_mem_nil⟩

theorem stalled_idle_unheard : ∃ side, leftIds (run (step fun _ => notIpc) (opened fun _ => notInfos) unheard side) ≠ [] ∧
    ∀ t, (run (step fun _ => notIpc) (opened fun _ => notInfos) unheard side).endpoint.threads t = [] := by
  refine stalled_idle unheard_usable (fun side t operation member _ => ?_) unheard_stalled (false,()) fun empty => ?_
  · simp only [unheard,List.mem_cons,List.not_mem_nil,reduceCtorEq,or_false,Connections.Deed.start.injEq] at member
    obtain ⟨_,_,rfl⟩ := member
    rfl
  · exact absurd (congrArg List.length empty) (by decide +kernel)

end IpcPortable.Stalls
