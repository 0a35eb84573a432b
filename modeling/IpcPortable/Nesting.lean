import IpcPortable.ReplyStages

/-!
Calls inside of calls. A thread that processes a packet has the packet in its record
for as long as the activation beneath is in its handler, so the packets of a thread
are those of its activations, the innermost first; and an operation that a handler
begins is younger than every call that its thread is processing.
-/
namespace IpcPortable.Nesting
open IpcPortable.Runs IpcPortable.DataStream IpcPortable.Values IpcPortable.Packets IpcPortable.ProcMaps
open IpcPortable.Dispatch IpcPortable.Replies IpcPortable.Buffers IpcPortable.Pending IpcPortable.EndpointMoves
open IpcPortable.Matching
open IpcPortable.Responses IpcPortable.Enumerations IpcPortable.Connections IpcPortable.DueReplies
open IpcPortable.Numbering IpcPortable.Links IpcPortable.LinkSteps IpcPortable.LinkRuns IpcPortable.ReplyStages
open IpcPortable.Endpoints hiding step
open IpcPortable.Peers hiding Deed step
variable {Tid : Type}

/-- The activation is in the handler of a packet. -/
def processes (frame : Activation Invocation) : Bool :=
  match frame.point with
  | .processing false _ => true
  | _ => false
/-- The packets are those that the activations process, and every activation is younger
    than the packets beneath it. -/
inductive Owes (after : CallId → CallId → Prop) : List (Activation Invocation) → List CallId → Prop
  | nil : Owes after [] []
  | cons {frame : Activation Invocation} {below : List (Activation Invocation)} {own ids : List CallId}
    (mine : own.length = if processes frame then 1 else 0) (later : asking frame = true → ∀ id ∈ ids, after frame.id id)
    (owes : Owes after below ids) : Owes after (frame :: below) (own ++ ids)

section owes
variable {after after' : CallId → CallId → Prop} {frame : Activation Invocation} {below stack : List (Activation Invocation)}
variable {ids : List CallId}

theorem Owes.mono (owes : Owes after stack ids)
    (grow : ∀ other ∈ stack, asking other = true → ∀ id ∈ ids, after other.id id → after' other.id id) :
    Owes after' stack ids := by
  induction owes with
  | nil => exact .nil
  | cons mine later owes ih =>
    refine .cons mine (fun asks id member => ?_) (ih fun other inner asks id member => ?_)
    · exact grow _ List.mem_cons_self asks id (List.mem_append_right _ member) (later asks id member)
    · exact grow other (List.mem_cons_of_mem _ inner) asks id (List.mem_append_right _ member)

/-- An activation that is not in a handler has no packet. -/
theorem Owes.idle (owes : Owes after (frame :: below) ids) (idle : processes frame = false) :
    Owes after below ids ∧ (asking frame = true → ∀ id ∈ ids, after frame.id id) := by
  cases owes with
  | @cons _ _ own ids mine later owes =>
    rw [idle] at mine
    obtain rfl := List.eq_nil_of_length_eq_zero mine
    exact ⟨owes,later⟩

theorem Owes.busy (owes : Owes after (frame :: below) ids) (busy : processes frame = true) :
    ∃ id rest, ids = id :: rest ∧ Owes after below rest ∧ (asking frame = true → ∀ id ∈ rest, after frame.id id) := by
  cases owes with
  | @cons _ _ own ids mine later owes =>
    rw [busy] at mine
    obtain ⟨id,rfl⟩ := List.length_eq_one_iff.mp mine
    exact ⟨id,ids,rfl,owes,later⟩

theorem Owes.push (owes : Owes after below ids) (idle : processes frame = false)
    (later : asking frame = true → ∀ id ∈ ids, after frame.id id) : Owes after (frame :: below) ids := by
  have none : ([] : List CallId).length = if processes frame then 1 else 0 := by
    rw [idle]
    rfl
  exact .cons none later owes

theorem Owes.push_busy (owes : Owes after below ids) (busy : processes frame = true) (id : CallId)
    (later : asking frame = true → ∀ id ∈ ids, after frame.id id) : Owes after (frame :: below) (id :: ids) := by
  have one : [id].length = if processes frame then 1 else 0 := by
    rw [busy]
    rfl
  exact .cons one later owes

end owes

variable [DecidableEq Tid]

/-- The packets that the thread processes. -/
def entriesOf (party : Party Tid) (t : Tid) : List CallId :=
  (party.dispatched.filter fun entry => entry.1 = t).map fun entry => entry.2.1

section party
variable {may : Operation Invocation → Prop} {ipc : Internals} {party : Party Tid} {after after' : CallId → CallId → Prop}

/-- A thread moves on and passes no packet that asks for something. -/
theorem moves_owes (numbered : Numbered may party.endpoint) (few : Few party.endpoint.events) (traced : Traced party.endpoint)
    (known : KnownReplies party.endpoint) (consumed : Consumed party.endpoint) {t : Tid} {frame : Activation Invocation}
    {below : List (Activation Invocation)} {move : Move} {out : Advance Tid Invocation} {ids : List CallId}
    (running : party.endpoint.threads t = frame :: below)
    (moved : Moves invocationInfo t party.endpoint.pending frame move out) (goes : Numbering.Goes party.endpoint frame out)
    (plain : ∀ buffer, frame.point = .handling buffer → ¬ Incoming buffer) (owes : Owes after below ids)
    (later : asking frame = true → ∀ id ∈ ids, after frame.id id)
    (fresh : ∀ id ∈ ids, after party.endpoint.pending.nextId id) : Owes after (out.frames ++ below) ids := by
  have mine : frame ∈ party.endpoint.threads t := running ▸ List.mem_cons_self
  have quiet : ∀ next ∈ out.frames, processes next = false := by
    intro next member
    cases moved with
    | @passes buffer at_point =>
      have reply : Reply buffer := (consumed.handled t frame mine buffer at_point).resolve_left (plain buffer at_point)
      have brought := traced.frames t frame mine
      unfold Brought at brought
      rw [at_point] at brought
      obtain ⟨came,same⟩ := brought reply
      have precessed : responsePrecessed buffer frame.id = true :=
        decide_eq_true ⟨same,reply_returns reply,known buffer came reply⟩
      rw [List.mem_singleton.mp member,precessed]
      rfl
    | issues | sends | takesResponse | takesCall | waits | locks | continues | receives | receivesNothing | enters =>
      rw [List.mem_singleton.mp member]
      rfl
    | unsent | sendsOnly | reenters | busy | answers | entersLast => cases member
  rcases moves_stays moved with ⟨_,at_point,id,_,_,drawn⟩ | ⟨past,gone | ⟨point,_,goes_on⟩⟩
  · obtain ⟨rfl,_⟩ := drawn_next numbered few running goes drawn at_point
    rw [drawn] at quiet ⊢
    exact owes.push (quiet _ List.mem_cons_self) fun _ => fresh
  · rw [gone]
    exact owes
  · rw [goes_on] at quiet ⊢
    refine owes.push (quiet _ List.mem_cons_self) fun asks => ?_
    exact later (asking_iff.mpr ⟨(asking_iff.mp asks).1,past⟩)

omit [DecidableEq Tid] in
/-- The replies that came answer operations of the side. -/
theorem carried_known [DecidableEq Tid] {peer_infos : CallInfos} {peer_ipc : Internals} {peer : Party Tid}
    (carried : Carried peer_infos peer_ipc party peer) : KnownReplies party.endpoint := by
  intro buffer came reply
  obtain ⟨_,_,packet,type_raw,_,⟨type,body,bytes,answers⟩,rfl⟩ := carried.answered (came_received came) reply
  rw [(reply_received type_raw bytes).1]
  cases answers <;> decide

/-! ### The packets of a thread -/

theorem entriesOf_cons (party : Party Tid) {endpoint : Endpoint Tid Invocation} {call_infos : CallInfos} (t u : Tid) (id : CallId)
    (effects : List Effect) :
    entriesOf { party with endpoint, call_infos, dispatched := (t,id,effects) :: party.dispatched } u =
      if t = u then id :: entriesOf party u else entriesOf party u := by
  unfold entriesOf
  by_cases same : t = u
  · rw [if_pos same,List.filter_cons_of_pos (by simpa using same),List.map_cons]
  · rw [if_neg same,List.filter_cons_of_neg (by simpa using same)]

theorem entriesOf_split {t : Tid} {before after : List (Tid × CallId × List Effect)} {id : CallId} {effects : List Effect}
    (latest : party.dispatched = before ++ (t,id,effects) :: after) (others : ∀ entry ∈ before, entry.1 ≠ t)
    (endpoint : Endpoint Tid Invocation) (u : Tid) :
    entriesOf party u = if t = u then id :: entriesOf { party with endpoint, dispatched := before ++ after } u
      else entriesOf { party with endpoint, dispatched := before ++ after } u := by
  unfold entriesOf
  rw [latest,List.filter_append,List.filter_append]
  by_cases same : t = u
  · subst same
    have none : (before.filter fun entry => entry.1 = t) = [] :=
      List.filter_eq_nil_iff.mpr fun entry member => by simpa using others entry member
    rw [if_pos rfl,none,List.nil_append,List.nil_append,List.filter_cons_of_pos (by simp),List.map_cons]
  · rw [if_neg same,List.filter_cons_of_neg (by simpa using same)]

/-- A step of the side keeps the packets with the activations that process them. -/
theorem acts_owes {transport : TransportShare} (alive : ipc.m_transport = some transport) (creates : Creates transport)
    {peer_infos : CallInfos} {peer_ipc : Internals} {peer : Party Tid} (carried : Carried peer_infos peer_ipc party peer)
    (consumed : Consumed party.endpoint) {gone : Party Tid × List Data} (acts : Acts may ipc party gone)
    (few : Few party.endpoint.events) (owes : ∀ t, Owes after (party.endpoint.threads t) (entriesOf party t))
    (fresh : ∀ t, ∀ id ∈ entriesOf party t, after party.endpoint.pending.nextId id) (u : Tid) :
    Owes after (gone.1.endpoint.threads u) (entriesOf gone.1 u) := by
  cases acts with
  | @starts t operation endpoint allowed free started =>
    cases step_steps started with
    | starts =>
      show Owes after (Function.update party.endpoint.threads t (enter operation :: party.endpoint.threads t) u) (entriesOf party u)
      by_cases same : u = t
      · subst same
        rw [Function.update_self]
        have idle : processes (enter operation) = false := by cases operation <;> rfl
        have quiet : asking (enter operation) = false := by cases operation <;> rfl
        exact (owes u).push idle fun asks => absurd (quiet.symm.trans asks) Bool.noConfusion
      · rw [Function.update_of_ne same]
        exact owes u
  | @moves t move endpoint arriving transports stepped plain ended =>
    cases step_steps stepped with
    | @moves t move frame below out running moved =>
      show Owes after (Function.update party.endpoint.threads t (out.frames ++ below) u) (entriesOf party u)
      by_cases same : u = t
      · subst same
        have goes := carried_goes creates carried (transports_dependable (transports transport alive)) few running moved
        have mine := owes u
        rw [running] at mine
        have idle : processes frame = false := by
          rw [← Bool.not_eq_true]
          intro busy
          obtain ⟨id,rest,listed,_⟩ := mine.busy busy
          have there : id ∈ entriesOf party u := listed ▸ List.mem_cons_self
          obtain ⟨entry,inside,_⟩ := List.mem_map.mp there
          obtain ⟨member,here⟩ := List.mem_filter.mp inside
          have at_point : ∃ result, frame.point = .processing false result := by
            unfold processes at busy
            split at busy
            · exact ⟨_,by assumption⟩
            · cases busy
          obtain ⟨result,at_point⟩ := at_point
          exact ended frame below running result at_point entry member (of_decide_eq_true here)
        obtain ⟨deeper,later⟩ := mine.idle idle
        rw [Function.update_self]
        exact moves_owes carried.numbered few carried.traced (carried_known carried) consumed running moved goes
          (plain frame below running) deeper later (fresh u)
      · rw [Function.update_of_ne same]
        exact owes u
  | @dispatches t endpoint frame below buffer call_infos result effects running at_point asks processed stepped =>
    cases step_steps stepped with
    | @moves t move frame' below' out running' moved =>
      rw [running] at running'
      cases running'
      have next : out.frames = [frame.at (.processing false (processBufferResult buffer))] := by
        rw [handling_passes at_point moved,call_not_precessed fun reply => reply.not_incoming asks]
      rw [entriesOf_cons]
      show Owes after (Function.update party.endpoint.threads t (out.frames ++ below) u) _
      by_cases same : u = t
      · subst same
        have mine := owes u
        rw [running] at mine
        obtain ⟨deeper,later⟩ := mine.idle (by unfold processes; rw [at_point])
        rw [Function.update_self,next,if_pos rfl]
        refine deeper.push_busy rfl _ fun asking_next => later (asking_iff.mpr ⟨(asking_iff.mp asking_next).1,?_⟩)
        rw [at_point]
        exact Point.noConfusion
      · rw [Function.update_of_ne same,if_neg (Ne.symm same)]
        exact owes u
  | @finishes t endpoint frame below result before after_entries id effects running at_point latest others stepped =>
    cases step_steps stepped with
    | @moves t move frame' below' out running' moved =>
      rw [running] at running'
      cases running'
      have next : out.frames = [frame.at .readBuffer] := by rw [processing_continues at_point moved]
      have mine := owes u
      rw [entriesOf_split latest others {
        pending := out.pending
        threads := Function.update party.endpoint.threads t (out.frames ++ below)
        events := party.endpoint.events ++ out.events.map (t,·) } u] at mine
      show Owes after (Function.update party.endpoint.threads t (out.frames ++ below) u) (entriesOf _ u)
      by_cases same : u = t
      · subst same
        rw [if_pos rfl,running] at mine
        obtain ⟨first,rest,listed,deeper,later⟩ := mine.busy (by unfold processes; rw [at_point])
        cases listed
        rw [Function.update_self,next]
        refine deeper.push rfl fun asking_next => later (asking_iff.mpr ⟨(asking_iff.mp asking_next).1,?_⟩)
        rw [at_point]
        exact Point.noConfusion
      · rw [if_neg (Ne.symm same)] at mine
        rw [Function.update_of_ne same]
        exact mine
  | works found => exact owes u

end party

end IpcPortable.Nesting
