import IpcPortable.Responses
import IpcPortable.DueReplies

/-!
The ids of one side. Every operation but `ProcessTransport` draws an id of its own
and writes one packet with it, and an operation that waits returns only with a
reply that came with its id. This needs a transport that does not fail, and code
of the user that uses the endpoint only from the program and from the handlers.
-/
namespace IpcPortable.Numbering
open IpcPortable.Runs IpcPortable.DataStream IpcPortable.Packets IpcPortable.Replies IpcPortable.Pending
open IpcPortable.Endpoints IpcPortable.EndpointMoves IpcPortable.HandOver IpcPortable.Peers IpcPortable.Matching
open IpcPortable.Responses IpcPortable.Enumerations IpcPortable.Connections IpcPortable.DueReplies
variable {Tid : Type}

/-- Where an activation can be. -/
structure Placed (events : List (Tid × Event Invocation)) (t : Tid) (frame : Activation Invocation) : Prop where
  polls : frame.operation = .processTransport → frame.id = c_invalid_id ∧ frame.point ≠ .newCallId ∧ frame.point ≠ .writing
  issued : frame.operation ≠ .processTransport → frame.point ≠ .newCallId → (t,frame.operation,frame.id) ∈ issues events
  leaves : frame.operation.waitsReturn = false → frame.point = .newCallId ∨ frame.point = .writing
  ok : ∀ transport_ok buffer, frame.point = .writeBuffer transport_ok buffer → transport_ok = true
/-- The ids are drawn in order, written once, and returned with; the operations are those that the code of the user may use. -/
structure Numbered (may : Operation Invocation → Prop) (s : Endpoint Tid Invocation) : Prop where
  inner : ∀ t, ∀ frame ∈ (s.threads t).tail, ∃ precessed result, frame.point = .processing precessed result
  next : s.pending.nextId = idOf (issues s.events).length
  ids : (issues s.events).map (fun entry => entry.2.2) = (List.range (issues s.events).length).map idOf
  placed : ∀ t, ∀ frame ∈ s.threads t, Placed s.events t frame
  may_run : ∀ t, ∀ frame ∈ s.threads t, may frame.operation
  may_issue : ∀ t operation id, (t,operation,id) ∈ issues s.events → may operation
  unwritten : ∀ t, ∀ frame ∈ s.threads t, frame.point = .writing → frame.id ∉ picked wroteId s.events
  wrote_nodup : (picked wroteId s.events).Nodup
  wrote_issued : ∀ id ∈ picked wroteId s.events, ∃ t operation, (t,operation,id) ∈ issues s.events
  returned : ∀ t operation id result, (t,.returned operation id result) ∈ s.events →
    operation = .processTransport ∨ (t,operation,id) ∈ issues s.events ∧
      (operation.waitsReturn = true → FromReply s.events id result)

section ids
variable {may : Operation Invocation → Prop} {s : Endpoint Tid Invocation}

theorem Numbered.nonzero (numbered : Numbered may s) (few : Few s.events) {t : Tid} {operation : Operation Invocation}
    {id : CallId} (issued : (t,operation,id) ∈ issues s.events) : id ≠ c_invalid_id := by
  obtain ⟨n,below,rfl⟩ := issues_idOf numbered.ids issued
  exact idOf_nonzero (Nat.lt_trans below few)

/-- An id belongs to one operation of one thread. -/
theorem Numbered.owner (numbered : Numbered may s) (few : Few s.events) {t u : Tid} {one other : Operation Invocation}
    {id : CallId} (first : (t,one,id) ∈ issues s.events) (second : (u,other,id) ∈ issues s.events) : t = u ∧ one = other := by
  have same := List.inj_on_of_nodup_map (issues_nodup few numbered.ids) first second rfl
  cases same
  exact ⟨rfl,rfl⟩

/-- The next id is new. -/
theorem Numbered.next_new (numbered : Numbered may s) (few : Few s.events) {t : Tid} {operation : Operation Invocation} :
    (t,operation,s.pending.nextId) ∉ issues s.events := by
  intro issued
  obtain ⟨n,below,same⟩ := issues_idOf numbered.ids issued
  rw [numbered.next] at same
  have counted := idOf_injective few (Nat.lt_trans below few) same
  omega

theorem empty_numbered (may : Operation Invocation → Prop) : Numbered may ({} : Endpoint Tid Invocation) where
  inner _ _ member := by cases member
  next := rfl
  ids := rfl
  placed _ _ member := by cases member
  may_run _ _ member := by cases member
  may_issue _ _ _ member := by cases member
  unwritten _ _ member := by cases member
  wrote_nodup := List.nodup_nil
  wrote_issued _ member := by cases member
  returned _ _ _ _ member := by cases member

end ids

variable [DecidableEq Tid]

/-- What a transport does that does not fail. -/
def Dependable (transport : TransportShare) : Move → Prop
  | .proceed => True
  | .write created alive => created = some transport ∧ alive = true
  | .read transport_ok _ _ => transport_ok = true

/-- The ways a step can go then. -/
inductive Goes (s : Endpoint Tid Invocation) (frame : Activation Invocation) : Advance Tid Invocation → Prop
  | issues (at_point : frame.point = .newCallId) :
    Goes s frame ⟨{ s.pending with m_incremental_id := s.pending.nextId + 1 },
      [{ frame with id := s.pending.nextId, point := .writing }],[.issued frame.operation s.pending.nextId]⟩
  | sends {packet : Data} (at_point : frame.point = .writing) (asks : Asks frame.id packet frame.operation)
    (waits : frame.operation.waitsReturn = true) :
    Goes s frame ⟨s.pending,[frame.at .readBuffer],[.wrote frame.operation frame.id packet]⟩
  | sendsOnly {packet : Data} (at_point : frame.point = .writing) (asks : Asks frame.id packet frame.operation)
    (leaves : frame.operation.waitsReturn = false) :
    Goes s frame ⟨s.pending,[],[.wrote frame.operation frame.id packet,.returned frame.operation frame.id {}]⟩
  | goesOn {out : Advance Tid Invocation} (past : frame.point ≠ .newCallId ∧ frame.point ≠ .writing)
    (unissued : out.events.filterMap issue = []) (unwritten : out.events.filterMap wroteId = [])
    (unsent : out.events.filterMap wrotePacket = []) (counter : out.pending.m_incremental_id = s.pending.m_incremental_id)
    (frames : out.frames = [] ∨ ∃ point, point ≠ .newCallId ∧ point ≠ .writing ∧
      (∀ transport_ok buffer, point = .writeBuffer transport_ok buffer → transport_ok = true) ∧
      out.frames = [frame.at point])
    (returned : ∀ operation id result, .returned operation id result ∈ out.events →
      operation = frame.operation ∧ id = frame.id ∧ (frame.operation = .processTransport ∨ FromReply s.events id result)) :
    Goes s frame out

section move
variable {may : Operation Invocation → Prop} {s : Endpoint Tid Invocation} {t : Tid} {frame : Activation Invocation}
variable {below : List (Activation Invocation)} {move : Move} {out : Advance Tid Invocation} {transport : TransportShare}

theorem moves_goes (creates : Creates transport) (numbered : Numbered may s) (owned : Owned s) (traced : Traced s)
    (few : Few s.events) (free : s.pending.m_id_data_return s.pending.nextId = none)
    (running : s.threads t = frame :: below) (dependable : Dependable transport move)
    (moved : Moves invocationInfo t s.pending frame move out) : Goes s frame out := by
  have mine : frame ∈ s.threads t := running ▸ List.mem_cons_self
  have placed := numbered.placed t frame mine
  have drawn (left : frame.point ≠ .newCallId) (asks : frame.operation ≠ .processTransport) : frame.id ≠ c_invalid_id :=
    numbered.nonzero few (placed.issued asks left)
  have writes (at_point : frame.point = .writing) : frame.operation ≠ .processTransport := fun polls =>
    (placed.polls polls).2.2 at_point
  have began {q : PendingResponces Tid} (begins : Begins t s.pending frame q) : frame.point ≠ .newCallId ∧ frame.point ≠ .writing :=
    ⟨begins_left begins,(begins_served begins).2.2⟩
  have past {point : Point} (at_point : frame.point = point) (first : point ≠ .newCallId) (second : point ≠ .writing) :
      frame.point ≠ .newCallId ∧ frame.point ≠ .writing := by
    rw [at_point]
    exact ⟨first,second⟩
  have goes_on {point : Point} (first : point ≠ .newCallId) (second : point ≠ .writing)
      (ok : ∀ transport_ok buffer, point = .writeBuffer transport_ok buffer → transport_ok = true) :
      [frame.at point] = [] ∨ ∃ other, other ≠ .newCallId ∧ other ≠ .writing ∧
        (∀ transport_ok buffer, other = .writeBuffer transport_ok buffer → transport_ok = true) ∧
        [frame.at point] = [frame.at other] :=
    .inr ⟨point,first,second,ok,rfl⟩
  have polled (exit : Exit) (polls : frame.operation = .processTransport) : ∀ operation id result,
      .returned operation id result ∈ frame.leave exit {} →
      operation = frame.operation ∧ id = frame.id ∧ (frame.operation = .processTransport ∨ FromReply s.events id result) := by
    intro operation id result member
    obtain ⟨rfl,rfl,rfl⟩ : operation = frame.operation ∧ id = frame.id ∧ result = {} := by
      simpa [Activation.leave] using member
    exact ⟨rfl,rfl,.inl polls⟩
  have silent {operation : Operation Invocation} {id : CallId} {result : DataStream} {happened : List (Event Invocation)}
      (none : ∀ event ∈ happened, ∀ operation id result, event ≠ .returned operation id result)
      (member : .returned operation id result ∈ happened) : operation = frame.operation ∧ id = frame.id ∧
        (frame.operation = .processTransport ∨ FromReply s.events id result) :=
    absurd rfl (none _ member operation id result)
  cases moved with
  | issues at_point drawn =>
    rw [newCallId_next free] at drawn
    cases drawn
    exact .issues at_point
  | @unsent created alive at_point failed =>
    obtain ⟨rfl,rfl⟩ := dependable
    obtain ⟨packet,written,_⟩ := stream_asks creates (drawn (by simp [at_point]) (writes at_point)) (writes at_point)
    simp [written] at failed
  | @sends created alive packet at_point written waits =>
    obtain ⟨rfl,rfl⟩ := dependable
    obtain ⟨built,filled,asks⟩ := stream_asks creates (drawn (by simp [at_point]) (writes at_point)) (writes at_point)
    rw [filled] at written
    cases written
    exact .sends at_point asks waits
  | @sendsOnly created alive packet at_point written leaves =>
    obtain ⟨rfl,rfl⟩ := dependable
    obtain ⟨built,filled,asks⟩ := stream_asks creates (drawn (by simp [at_point]) (writes at_point)) (writes at_point)
    rw [filled] at written
    cases written
    exact .sendsOnly at_point asks leaves
  | reenters at_point current =>
    have held := (owned.owner t).mp current
    rw [running,holds_cons] at held
    rcases held with inside | ⟨other,member,inside⟩
    · simp [at_point,Point.holds] at inside
    · obtain ⟨precessed,result,nested⟩ := numbered.inner t other (by simpa [running] using member)
      simp [nested,Point.holds] at inside
  | takesResponse begins | takesCall begins | waits begins | locks begins =>
    exact .goesOn (began begins) rfl rfl rfl (begins_counter begins :) (goes_on (by simp) (by simp) (by simp))
      fun _ _ _ => silent (by simp)
  | busy begins _ polling =>
    have polls : frame.operation = .processTransport := by
      by_contra asks
      exact drawn (begins_left begins) asks polling
    exact .goesOn (began begins) rfl rfl rfl (begins_counter begins :) (.inl rfl) (polled _ polls)
  | @answers result at_point =>
    have brought := traced.frames t frame mine
    unfold Brought at brought
    rw [at_point] at brought
    refine .goesOn (past at_point (by simp) (by simp)) rfl rfl rfl rfl (.inl rfl) ?_
    intro operation id other member
    obtain ⟨rfl,rfl,rfl⟩ : operation = frame.operation ∧ id = frame.id ∧ other = result := by
      simpa [Activation.leave] using member
    exact ⟨rfl,rfl,.inr brought⟩
  | passes at_point | continues at_point =>
    exact .goesOn (past at_point (by simp) (by simp)) rfl rfl rfl rfl (goes_on (by simp) (by simp) (by simp))
      fun _ _ _ => silent (by simp)
  | receives at_point | receivesNothing at_point =>
    obtain rfl := dependable
    exact .goesOn (past at_point (by simp) (by simp)) rfl rfl rfl rfl
      (goes_on (by simp) (by simp) fun _ _ same => by cases same; rfl) fun _ _ _ => silent (by simp)
  | @enters transport_ok buffer at_point =>
    exact .goesOn (past at_point (by simp) (by simp)) rfl rfl rfl (writeBuffer_counter _ _ frame.operation.processIncomingCalls)
      (goes_on (by simp) (by simp) (by simp)) fun _ _ _ => silent (by simp)
  | @entersLast transport_ok buffer exit at_point reason =>
    have polls : frame.operation = .processTransport := by
      rcases reason with ⟨failed,_⟩ | ⟨polling,_⟩
      · have worked := placed.ok _ _ at_point
        rw [failed] at worked
        cases worked
      · by_contra asks
        exact drawn (by simp [at_point]) asks polling
    refine .goesOn (past at_point (by simp) (by simp)) rfl rfl rfl (writeBuffer_counter _ _ frame.operation.processIncomingCalls) (.inl rfl) ?_
    intro operation id result member
    rcases List.mem_cons.mp member with other | member
    · cases other
    · exact polled exit polls operation id result member

omit [DecidableEq Tid] in
theorem goes_frames (goes : Goes s frame out) : out.frames = [] ∨ ∃ next, out.frames = [next] := by
  cases goes with
  | issues | sends => exact .inr ⟨_,rfl⟩
  | sendsOnly => exact .inl rfl
  | goesOn _ _ _ _ _ frames => exact frames.imp_right fun ⟨point,_,_,_,goes_on⟩ => ⟨_,goes_on⟩

omit [DecidableEq Tid] in
/-- The activation writes its packet and is past it, or nothing is written. -/
theorem goes_wroteId (goes : Goes s frame out) :
    (frame.point = .writing ∧ out.events.filterMap wroteId = [frame.id] ∧ ∀ next ∈ out.frames, next.point ≠ .writing) ∨
      (out.events.filterMap wroteId = [] ∧ ∀ next ∈ out.frames, next.point = .writing → next.id = s.pending.nextId) := by
  cases goes with
  | issues => exact .inr ⟨rfl,fun next member _ => by rw [List.mem_singleton.mp member]⟩
  | sends at_point => exact .inl ⟨at_point,rfl,fun next member => by rw [List.mem_singleton.mp member]; exact Point.noConfusion⟩
  | sendsOnly at_point => exact .inl ⟨at_point,rfl,fun next member => by cases member⟩
  | goesOn _ _ unwritten _ _ frames =>
    refine .inr ⟨unwritten,fun next member at_point => ?_⟩
    rcases frames with gone | ⟨point,_,second,_,goes_on⟩
    · rw [gone] at member
      cases member
    · rw [goes_on] at member
      rw [List.mem_singleton.mp member] at at_point
      exact absurd at_point second

omit [DecidableEq Tid] in
theorem goes_returned (goes : Goes s frame out) (placed : Placed s.events t frame) {operation : Operation Invocation}
    {id : CallId} {result : DataStream} (returned : .returned operation id result ∈ out.events) :
    operation = .processTransport ∨ (t,operation,id) ∈ issues s.events ∧
      (operation.waitsReturn = true → FromReply s.events id result) := by
  cases goes with
  | issues => simp at returned
  | sends => simp at returned
  | sendsOnly at_point asks leaves =>
    obtain ⟨rfl,rfl,_⟩ : operation = frame.operation ∧ id = frame.id ∧ result = {} := by simpa using returned
    by_cases polls : frame.operation = .processTransport
    · exact .inl polls
    · exact .inr ⟨placed.issued polls (by simp [at_point]),fun waits => absurd (waits.symm.trans leaves) Bool.noConfusion⟩
  | goesOn past _ _ _ _ _ ends =>
    obtain ⟨rfl,rfl,polls | answered⟩ := ends operation id result returned
    · exact .inl polls
    · by_cases polls : frame.operation = .processTransport
      · exact .inl polls
      · exact .inr ⟨placed.issued polls past.1,fun _ => answered⟩

omit [DecidableEq Tid] in
theorem goes_counter (goes : Goes s frame out) :
    (out.events.filterMap issue = [(frame.operation,s.pending.nextId)] ∧
      out.pending.m_incremental_id = s.pending.nextId + 1) ∨
      (out.events.filterMap issue = [] ∧ out.pending.m_incremental_id = s.pending.m_incremental_id) := by
  cases goes with
  | issues => exact .inl ⟨rfl,rfl⟩
  | sends | sendsOnly => exact .inr ⟨rfl,rfl⟩
  | goesOn _ unissued _ _ counter => exact .inr ⟨unissued,counter⟩

omit [DecidableEq Tid] in
theorem Placed.mono {events : List (Tid × Event Invocation)} {u : Tid} {other : Activation Invocation}
    (placed : Placed events u other) (happened : List (Event Invocation)) :
    Placed (events ++ happened.map (t,·)) u other where
  polls := placed.polls
  issued asks past := said_mono (placed.issued asks past) t happened
  leaves := placed.leaves
  ok := placed.ok

omit [DecidableEq Tid] in
/-- The activation goes on where it can be. -/
theorem goes_placed (goes : Goes s frame out) (placed : Placed s.events t frame) :
    ∀ next ∈ out.frames, Placed (s.events ++ out.events.map (t,·)) t next ∧ next.operation = frame.operation := by
  intro next member
  cases goes with
  | issues at_point =>
    obtain rfl := List.mem_singleton.mp member
    refine ⟨⟨fun polls => absurd at_point (placed.polls polls).2.1,fun _ _ => ?_,fun _ => .inr rfl,?_⟩,rfl⟩
    · rw [issues,said_append]
      exact List.mem_append_right _ List.mem_cons_self
    · intro transport_ok buffer same
      cases same
  | sends at_point asks waits =>
    obtain rfl := List.mem_singleton.mp member
    refine ⟨⟨fun polls => absurd at_point (placed.polls polls).2.2,fun asks _ => ?_,fun leaves => ?_,?_⟩,rfl⟩
    · exact said_mono (placed.issued asks (by simp [at_point])) t _
    · exact absurd (waits.symm.trans leaves) Bool.noConfusion
    · intro transport_ok buffer same
      cases same
  | sendsOnly => cases member
  | goesOn past _ _ _ _ frames =>
    rcases frames with gone | ⟨point,first,second,ok,goes_on⟩
    · rw [gone] at member
      cases member
    · rw [goes_on] at member
      obtain rfl := List.mem_singleton.mp member
      refine ⟨⟨fun polls => ⟨(placed.polls polls).1,first,second⟩,fun asks _ => ?_,fun leaves => ?_,ok⟩,rfl⟩
      · exact said_mono (placed.issued asks past.1) t _
      · exact ((placed.leaves leaves).elim past.1 past.2).elim

/-- A step keeps the numbers. -/
theorem goes_numbered (numbered : Numbered may s) (few : Few (s.events ++ out.events.map (t,·)))
    (running : s.threads t = frame :: below) (goes : Goes s frame out) :
    Numbered may {
      pending := out.pending
      threads := Function.update s.threads t (out.frames ++ below)
      events := s.events ++ out.events.map (t,·) } where
  inner v := by
    by_cases same : v = t
    · subst same
      have nested : ∀ other ∈ below, ∃ precessed result, other.point = .processing precessed result := by
        simpa [running] using numbered.inner v
      intro other member
      simp only [Function.update_self] at member
      rcases goes_frames goes with gone | ⟨next,goes_on⟩
      · rw [gone,List.nil_append] at member
        exact nested other (List.mem_of_mem_tail member)
      · rw [goes_on] at member
        exact nested other member
    · simpa [same] using numbered.inner v
  next := by
    unfold Few issues at few
    dsimp only [issues]
    rw [said_append] at few ⊢
    rcases goes_counter goes with ⟨drawn,counter⟩ | ⟨none,counter⟩
    · rw [drawn,List.map_singleton,List.length_append,List.length_singleton] at few ⊢
      rw [numbered.next,idOf_succ] at counter
      exact nextId_nonzero_of counter (idOf_nonzero few)
    · rw [none,List.map_nil,List.append_nil,nextId_congr counter]
      exact numbered.next
  ids := by
    dsimp only [issues]
    rw [said_append]
    rcases goes_counter goes with ⟨drawn,_⟩ | ⟨none,_⟩
    · rw [drawn,List.map_singleton,List.map_append,List.length_append,List.length_singleton,List.range_succ,
        List.map_append,numbered.ids,numbered.next]
      rfl
    · rw [none,List.map_nil,List.append_nil]
      exact numbered.ids
  placed v other member := by
    rcases after_member running member with ⟨rfl,new⟩ | ⟨old,_⟩
    · exact (goes_placed goes (numbered.placed v frame (running ▸ List.mem_cons_self)) other new).1
    · exact (numbered.placed v other old).mono _
  may_run v other member := by
    rcases after_member running member with ⟨rfl,new⟩ | ⟨old,_⟩
    · have mine : frame ∈ s.threads v := running ▸ List.mem_cons_self
      rw [(goes_placed goes (numbered.placed v frame mine) other new).2]
      exact numbered.may_run v frame mine
    · exact numbered.may_run v other old
  may_issue v operation id issued := by
    dsimp only [issues] at issued
    rw [said_append] at issued
    rcases List.mem_append.mp issued with old | new
    · exact numbered.may_issue v operation id old
    · rcases goes_counter goes with ⟨drawn,_⟩ | ⟨none,_⟩
      · rw [drawn] at new
        cases List.mem_singleton.mp new
        exact numbered.may_run t frame (running ▸ List.mem_cons_self)
      · rw [none] at new
        cases new
  unwritten v other member at_point := by
    have few_now := few_before few
    rw [picked_append]
    rcases after_member running member with ⟨rfl,new⟩ | ⟨old,elsewhere⟩
    · rcases goes_wroteId goes with ⟨_,_,past⟩ | ⟨none,fresh⟩
      · exact absurd at_point (past other new)
      · rw [none,List.append_nil,fresh other new at_point]
        intro listed
        obtain ⟨u,operation,issued⟩ := numbered.wrote_issued _ listed
        exact numbered.next_new few_now issued
    · have before := numbered.unwritten v other old at_point
      rcases goes_wroteId goes with ⟨writing,wrote,_⟩ | ⟨none,_⟩
      · have different : other.id ≠ frame.id := by
          intro same
          have mine : frame ∈ s.threads t := running ▸ List.mem_cons_self
          have asks {u : Tid} {one : Activation Invocation} (there : one ∈ s.threads u) (writing : one.point = .writing) :
              (u,one.operation,one.id) ∈ issues s.events :=
            (numbered.placed u one there).issued (fun polls => ((numbered.placed u one there).polls polls).2.2 writing)
              (by simp [writing])
          obtain ⟨rfl,_⟩ := numbered.owner few_now (asks old at_point) (same ▸ asks mine writing)
          obtain ⟨precessed,result,inside⟩ := numbered.inner v other
            (by rw [running]; exact elsewhere.resolve_left fun other => other rfl)
          rw [inside] at at_point
          cases at_point
        simp [wrote,before,different]
      · rwa [none,List.append_nil]
  wrote_nodup := by
    rw [picked_append]
    rcases goes_wroteId goes with ⟨writing,wrote,_⟩ | ⟨none,_⟩
    · rw [wrote]
      refine List.nodup_append.mpr ⟨numbered.wrote_nodup,List.nodup_singleton _,fun a listed b new same => ?_⟩
      rw [List.mem_singleton.mp new] at same
      exact numbered.unwritten t frame (running ▸ List.mem_cons_self) writing (same ▸ listed)
    · rw [none,List.append_nil]
      exact numbered.wrote_nodup
  wrote_issued id member := by
    rw [picked_append] at member
    rcases List.mem_append.mp member with old | new
    · obtain ⟨u,operation,issued⟩ := numbered.wrote_issued id old
      exact ⟨u,operation,said_mono issued t _⟩
    · rcases goes_wroteId goes with ⟨writing,wrote,_⟩ | ⟨none,_⟩
      · have placed := numbered.placed t frame (running ▸ List.mem_cons_self)
        rw [wrote] at new
        rw [List.mem_singleton.mp new]
        refine ⟨t,frame.operation,said_mono (placed.issued (fun polls => (placed.polls polls).2.2 writing) ?_) t _⟩
        simp [writing]
      · rw [none] at new
        cases new
  returned v operation id result member := by
    have later (returns : operation = .processTransport ∨ (v,operation,id) ∈ issues s.events ∧
        (operation.waitsReturn = true → FromReply s.events id result)) :
        operation = .processTransport ∨ (v,operation,id) ∈ issues (s.events ++ out.events.map (t,·)) ∧
          (operation.waitsReturn = true → FromReply (s.events ++ out.events.map (t,·)) id result) :=
      returns.imp_right fun ⟨issued,answered⟩ => ⟨said_mono issued t _,fun waits => (answered waits).mono _⟩
    rcases List.mem_append.mp member with old | new
    · exact later (numbered.returned v operation id result old)
    · obtain ⟨event,happened,same⟩ := List.mem_map.mp new
      cases same
      exact later (goes_returned goes (numbered.placed t frame (running ▸ List.mem_cons_self)) happened)

end move

/-- An operation that begins. -/
theorem start_numbered {may : Operation Invocation → Prop} {s : Endpoint Tid Invocation} (numbered : Numbered may s) {t : Tid}
    (free : calm (s.threads t) = true) {operation : Operation Invocation} (allowed : may operation) :
    Numbered may { s with threads := Function.update s.threads t (enter operation :: s.threads t) } := by
  have running {u : Tid} {frame : Activation Invocation}
      (member : frame ∈ Function.update s.threads t (enter operation :: s.threads t) u) :
      frame = enter operation ∨ frame ∈ s.threads u := by
    by_cases same : u = t
    · subst same
      rw [Function.update_self] at member
      exact List.mem_cons.mp member
    · rw [Function.update_of_ne same] at member
      exact .inr member
  exact {
    numbered with
    inner := fun v => by
      by_cases same : v = t
      · subst same
        simpa using calm_inner free (numbered.inner v)
      · simpa [same] using numbered.inner v
    placed := fun v frame member => by
      rcases running member with rfl | old
      · cases operation with
        | processTransport =>
          exact ⟨fun _ => ⟨rfl,Point.noConfusion,Point.noConfusion⟩,fun asks => absurd rfl asks,Bool.noConfusion,
            fun _ _ same => by cases same⟩
        | _ => exact ⟨fun polls => (by cases polls),fun _ past => absurd rfl past,fun _ => .inl rfl,fun _ _ same => by cases same⟩
      · exact numbered.placed v frame old
    may_run := fun v frame member => by
      rcases running member with rfl | old
      · cases operation <;> exact allowed
      · exact numbered.may_run v frame old
    unwritten := fun v frame member at_point => by
      rcases running member with rfl | old
      · cases operation <;> cases at_point
      · exact numbered.unwritten v frame old at_point }

end IpcPortable.Numbering
