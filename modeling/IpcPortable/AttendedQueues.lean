import IpcPortable.ShortPackets
import IpcPortable.Stalls

/-!
The queue of the calls where every operation that waits also processes what comes in.
Nobody reads from the transport while a call is in the queue, and whoever left one there
looks again, so a call never stays in the queue of a side that no thread uses
(`run_attended`).
-/
namespace IpcPortable.AttendedQueues
open IpcPortable.Runs IpcPortable.DataStream IpcPortable.Packets IpcPortable.ProcMaps IpcPortable.Dispatch
open IpcPortable.Pending IpcPortable.EndpointMoves IpcPortable.HandOver IpcPortable.Matching IpcPortable.Responses
open IpcPortable.Enumerations IpcPortable.Numbering IpcPortable.LinkRuns IpcPortable.ReplyStages IpcPortable.Connections
open IpcPortable.Stalls
open IpcPortable.Endpoints hiding step
open IpcPortable.Peers hiding Deed step
variable {Tid : Type} [DecidableEq Tid]

/-- The activation comes to the ReadBuffer section again. -/
def looksAgain (frame : Activation Invocation) : Bool :=
  match frame.point with
  | .readBuffer => true
  | .waiting => true
  | .handling buffer => !responsePrecessed buffer frame.id
  | .processing response_precessed _ => !response_precessed
  | _ => false
/-- The activation will take a call out of the queue. -/
def Attends (p : PendingResponces Tid) (frame : Activation Invocation) : Prop :=
  frame.operation.processIncomingCalls = true ∧ p.m_id_data_return frame.id = none ∧ looksAgain frame = true
/-- The reader found nothing, and a call in the queue is taken out by an activation. -/
structure Attended (s : Endpoint Tid Invocation) : Prop where
  reader : ∀ t, ∀ frame ∈ s.threads t, frame.point.holds = true →
    s.pending.m_id_data_return frame.id = none ∧ s.pending.m_data_incoming_call = []
  queue : s.pending.m_data_incoming_call ≠ [] → ∃ t, ∃ frame ∈ s.threads t, Attends s.pending frame
/-- Every operation that waits also processes what comes in. -/
def Processes (s : Endpoint Tid Invocation) : Prop :=
  ∀ t, ∀ frame ∈ s.threads t, frame.operation.waitsReturn = true → frame.operation.processIncomingCalls = true

omit [DecidableEq Tid] in
theorem empty_attended : Attended ({} : Endpoint Tid Invocation) where
  reader _ _ member := by cases member
  queue some := absurd rfl some

section move
variable {may : Operation Invocation → Prop} {s : Endpoint Tid Invocation} {t : Tid} {frame : Activation Invocation}
variable {below : List (Activation Invocation)} {move : Move} {out : Advance Tid Invocation}

omit [DecidableEq Tid] in
/-- Who is past the writing of its packet processes what comes in. -/
theorem past_processes (numbered : Numbered may s) (processes : Processes s) (mine : frame ∈ s.threads t)
    (past : frame.point ≠ .newCallId ∧ frame.point ≠ .writing) : frame.operation.processIncomingCalls = true := by
  refine processes t frame mine ?_
  by_contra goes
  rcases (numbered.placed t frame mine).leaves (Bool.not_eq_true _ ▸ goes) with early | early
  · exact past.1 early
  · exact past.2 early

omit [DecidableEq Tid] in
theorem holds_past (holds : frame.point.holds = true) : frame.point ≠ .newCallId ∧ frame.point ≠ .writing := by
  constructor <;> intro at_point <;> rw [at_point] at holds <;> cases holds

/-- Who takes the transport reads from it first. -/
theorem moves_locks (moved : Moves invocationInfo t s.pending frame move out) (idle : frame.point.holds = false) :
    ∀ next ∈ out.frames, next.point.holds = true →
      next.point = .reading ∧ frame.point ≠ .newCallId ∧ frame.point ≠ .writing := by
  intro next member holds
  cases moved with
  | locks begins =>
    rw [List.mem_singleton.mp member]
    exact ⟨rfl,begins_left begins,(begins_served begins).2.2⟩
  | receives at_point | receivesNothing at_point | enters at_point => simp [at_point,Point.holds] at idle
  | issues | sends | takesResponse | takesCall | waits | passes | continues =>
    rw [List.mem_singleton.mp member] at holds
    cases holds
  | busy | unsent | sendsOnly | reenters | answers | entersLast => cases member

omit [DecidableEq Tid] in
/-- Nobody but the top of the thread holds the transport when it does. -/
theorem only_holder (owned : Owned s) (numbered : Numbered may s) (running : s.threads t = frame :: below)
    (holds : frame.point.holds = true) {u : Tid} {other : Activation Invocation} (member : other ∈ s.threads u)
    (behind : u ≠ t ∨ other ∈ below) : other.point.holds = false := by
  rw [← Bool.not_eq_true]
  intro also
  have mine := (owned.owner t).mpr ⟨frame,running ▸ List.mem_cons_self,holds⟩
  have theirs := (owned.owner u).mpr ⟨other,member,also⟩
  rw [mine] at theirs
  have same : t = u := Option.some.inj theirs
  have inside := behind.resolve_left fun different => different same.symm
  obtain ⟨precessed,result,at_point⟩ := numbered.inner t other (by rw [running]; exact inside)
  rw [at_point] at also
  cases also

/-- A step of an activation that attended and does not hold the transport: it attends
    again, or nothing is left in the queue. -/
theorem moves_attends (owned : Owned s) (attended : Attended s)
    (moved : Moves invocationInfo t s.pending frame move out)
    (looked : ∀ next ∈ out.frames, next.point = .reading → out.pending.m_id_data_return next.id = none ∧
      (next.operation.processIncomingCalls = true → out.pending.m_data_incoming_call = []))
    (attends : Attends s.pending frame) (left : out.pending.m_data_incoming_call ≠ []) :
    ∃ next ∈ out.frames, Attends out.pending next := by
  obtain ⟨allowed,absent,looks⟩ := attends
  have free (locked : s.pending.m_thread_waiting_transport.m_locked_id ≠ none) : s.pending.m_data_incoming_call = [] := by
    obtain ⟨owner,is_owner⟩ := Option.ne_none_iff_exists'.mp locked
    obtain ⟨reader,member,holds⟩ := (owned.owner owner).mp is_owner
    exact (attended.reader owner reader member holds).2
  cases moved with
  | issues at_point | unsent at_point | sends at_point | sendsOnly at_point | receives at_point | receivesNothing at_point
  | enters at_point | entersLast at_point => simp [looksAgain,at_point] at looks
  | reenters _ current => exact absurd (free (by rw [current]; exact Option.some_ne_none t)) left
  | takesResponse begins found =>
    rw [begins_replies begins,absent] at found
    cases found
  | @takesCall q buffer rest begins _ _ first =>
    have incoming : Incoming buffer := q.calls (first ▸ List.mem_cons_self)
    have other : responsePrecessed buffer frame.id = false := by
      refine decide_eq_false fun ⟨_,type,_⟩ => ?_
      rcases incoming with same | same <;> rw [same] at type <;> exact absurd type (by decide)
    refine ⟨_,List.mem_singleton_self _,allowed,?_,by simp [looksAgain,Activation.at,other]⟩
    show q.m_id_data_return frame.id = none
    rwa [begins_replies begins]
  | waits begins =>
    refine ⟨_,List.mem_singleton_self _,allowed,?_,rfl⟩
    exact (congrFun (begins_replies begins) frame.id).trans absent
  | busy begins locked _ =>
    rw [begins_transport begins] at locked
    exact absurd ((begins_calls begins).trans (free locked)) left
  | locks begins => exact absurd ((looked _ (List.mem_singleton_self _) rfl).2 allowed) left
  | passes at_point =>
    refine ⟨_,List.mem_singleton_self _,allowed,absent,?_⟩
    rw [looksAgain,at_point] at looks
    exact looks
  | answers at_point => simp [looksAgain,at_point] at looks
  | continues _ => exact ⟨_,List.mem_singleton_self _,allowed,absent,rfl⟩

omit [DecidableEq Tid] in
theorem writeBuffer_frames {p : PendingResponces Tid} {transport_ok : Bool} {buffer : CallDataBuffer} :
    ∀ next ∈ (frame.writeBuffer p transport_ok buffer).frames, next.point = .readBuffer := by
  intro next member
  unfold Activation.writeBuffer at member
  dsimp only at member
  split at member
  · cases member
  · split at member
    · cases member
    · rw [List.mem_singleton.mp member]
      rfl

/-- Where the reader leaves a call in the queue it looks again. -/
theorem enters_attends (numbered : Numbered may s) (mine : frame ∈ s.threads t) (allowed : frame.operation.processIncomingCalls = true)
    (absent : s.pending.m_id_data_return frame.id = none) (empty : s.pending.m_data_incoming_call = [])
    {transport_ok : Bool} {buffer : CallDataBuffer} (at_point : frame.point = .writeBuffer transport_ok buffer)
    (left : (Activation.writeBuffer frame s.pending transport_ok buffer).pending.m_data_incoming_call ≠ []) :
    ∃ next ∈ (Activation.writeBuffer frame s.pending transport_ok buffer).frames,
      Attends (Activation.writeBuffer frame s.pending transport_ok buffer).pending next := by
  have ok := (numbered.placed t frame mine).ok transport_ok buffer at_point
  rw [ShortPackets.writeBuffer_pending] at left ⊢
  rw [writeBuffer_calls,empty,List.nil_append] at left
  have incoming : Incoming buffer := by
    by_contra other
    simp [other] at left
  have again := Draining.writeBuffer_again (.inr ⟨allowed,incoming.defined⟩ :
    frame.id ≠ c_invalid_id ∨ frame.operation.processIncomingCalls = true ∧ buffer.header.type ≠ pt_undefined) s.pending
  refine ⟨frame.at .readBuffer,?_,allowed,?_,rfl⟩
  · unfold Activation.writeBuffer
    simp [ok,again]
  · show (Pending.writeBuffer s.pending frame.operation.processIncomingCalls buffer).1.m_id_data_return frame.id = none
    rw [writeBuffer_replies,if_neg fun ⟨reply,_⟩ => reply.not_incoming incoming]
    exact absent

/-- What a step does to the reader and to the queue. -/
theorem step_attended {move : Move} {s' : Endpoint Tid Invocation} (owned : Owned s) (numbered : Numbered may s)
    (processes : Processes s) (attended : Attended s)
    (stepped : Endpoints.step invocationInfo s (t,.move move) = some s') : Attended s' := by
  cases running : s.threads t with
  | nil => simp [Endpoints.step,running] at stepped
  | cons frame below =>
    simp only [Endpoints.step,running] at stepped
    obtain ⟨out,advanced,rfl⟩ := Option.map_eq_some_iff.mp stepped
    have moved := advance_moves advanced
    have mine : frame ∈ s.threads t := running ▸ List.mem_cons_self
    have stays {other : Activation Invocation} (member : other ∈ out.frames) :
        other ∈ Function.update s.threads t (out.frames ++ below) t := by
      rw [Function.update_self]
      exact List.mem_append_left _ member
    by_cases idle : frame.point.holds = false
    · obtain ⟨none,nothing⟩ := moves_brings moved idle
      constructor
      · intro u other member holds
        rcases after_member running member with ⟨rfl,new⟩ | ⟨old,_⟩
        · obtain ⟨reads,past⟩ := moves_locks moved idle other new holds
          obtain ⟨absent,empty⟩ := advance_looked advanced other new reads
          refine ⟨absent,empty ?_⟩
          rw [(DroppedReplies.moves_named moved other new).1]
          exact past_processes numbered processes mine past
        · obtain ⟨absent,empty⟩ := attended.reader u other old holds
          exact ⟨none _ absent,nothing empty⟩
      · intro left
        obtain ⟨u,other,member,attends⟩ := attended.queue fun empty => left (nothing empty)
        by_cases top : u = t ∧ other = frame
        · obtain ⟨rfl,rfl⟩ := top
          obtain ⟨next,new,again⟩ := moves_attends owned attended moved (advance_looked advanced) attends left
          exact ⟨u,next,stays new,again⟩
        · refine ⟨u,other,?_,attends.1,none _ attends.2.1,attends.2.2⟩
          dsimp only
          by_cases same : u = t
          · subst same
            rw [running] at member
            rw [Function.update_self]
            exact List.mem_append_right _ ((List.mem_cons.mp member).resolve_left fun is => top ⟨rfl,is⟩)
          · rwa [Function.update_of_ne same]
    · rw [Bool.not_eq_false] at idle
      obtain ⟨absent,empty⟩ := attended.reader t frame mine idle
      have allowed := past_processes numbered processes mine (holds_past idle)
      have alone {u : Tid} {other : Activation Invocation} (member : other ∈ s.threads u) (behind : u ≠ t ∨ other ∈ below)
          (holds : other.point.holds = true) : False := by
        rw [only_holder owned numbered running idle member behind] at holds
        cases holds
      have unchanged (same : out.pending = s.pending) (named : ∀ next ∈ out.frames, next.id = frame.id) :
          Attended ⟨out.pending,Function.update s.threads t (out.frames ++ below),s.events ++ out.events.map (t,·)⟩ := by
        constructor
        · intro u other member holds
          rcases after_member running member with ⟨rfl,new⟩ | ⟨old,behind⟩
          · dsimp only
            rw [same,named other new]
            exact ⟨absent,empty⟩
          · exact (alone old behind holds).elim
        · intro left
          exact absurd (same ▸ empty) left
      have entered {transport_ok : Bool} {buffer : CallDataBuffer} (at_point : frame.point = .writeBuffer transport_ok buffer)
          (same : frame.writeBuffer s.pending transport_ok buffer = out) :
          Attended ⟨out.pending,Function.update s.threads t (out.frames ++ below),s.events ++ out.events.map (t,·)⟩ := by
        subst same
        constructor
        · intro u other member holds
          rcases after_member running member with ⟨rfl,new⟩ | ⟨old,behind⟩
          · rw [writeBuffer_frames other new] at holds
            cases holds
          · exact (alone old behind holds).elim
        · intro left
          obtain ⟨next,new,attends⟩ := enters_attends numbered mine allowed absent empty at_point left
          exact ⟨t,next,stays new,attends⟩
      cases moved with
      | receives _ | receivesNothing _ =>
        exact unchanged rfl fun next member => by rw [List.mem_singleton.mp member]; rfl
      | enters at_point | entersLast at_point =>
        refine entered at_point (Option.some.inj ?_)
        simp only [← advanced,advance,at_point]
      | issues at_point | unsent at_point | sends at_point | sendsOnly at_point | reenters at_point | passes at_point
      | answers at_point | continues at_point =>
        rw [at_point] at idle
        cases idle
      | takesResponse begins | takesCall begins | waits begins | busy begins | locks begins =>
        rw [begins_idle begins] at idle
        cases idle

/-- A thread begins an operation. -/
theorem start_attended {operation : Operation Invocation} {s' : Endpoint Tid Invocation} (attended : Attended s)
    (started : Endpoints.step invocationInfo s (t,.start operation) = some s') : Attended s' := by
  cases step_steps started with
  | starts =>
    have added (u : Tid) : Function.update s.threads t (enter operation :: s.threads t) u =
        if u = t then enter operation :: s.threads u else s.threads u := by
      by_cases same : u = t
      · rw [same,Function.update_self,if_pos rfl]
      · rw [Function.update_of_ne same,if_neg same]
    constructor
    · intro u frame member holds
      dsimp only at member
      rw [added u] at member
      split at member
      · rcases List.mem_cons.mp member with rfl | old
        · rw [early_not_holds (enter_early operation)] at holds
          cases holds
        · exact attended.reader u frame old holds
      · exact attended.reader u frame member holds
    · intro left
      obtain ⟨u,frame,member,attends⟩ := attended.queue left
      refine ⟨u,frame,?_,attends⟩
      dsimp only
      rw [added u]
      split
      · exact List.mem_cons_of_mem _ member
      · exact member

end move

/-! ### Every run of both sides -/

section runs
variable {infos : Bool → CallInfos} {ipc : Bool → Internals} {deeds : List (Connections.Deed Tid)}

/-- A side goes on where its threads process what comes in. -/
theorem acts_attended {infos peer_infos : CallInfos} {ipc peer_ipc : Internals} {party peer : Party Tid}
    {may : Operation Invocation → Prop} {gone : Party Tid × List Data}
    (linked : Linked infos peer_infos ipc peer_ipc party peer) (acts : Acts may ipc party gone)
    (processes : Processes party.endpoint) (attended : Attended party.endpoint) : Attended gone.1.endpoint := by
  have moves {t : Tid} {move : Move} {endpoint : Endpoint Tid Invocation}
      (stepped : Endpoints.step invocationInfo party.endpoint (t,.move move) = some endpoint) : Attended endpoint :=
    step_attended linked.carried.owned linked.carried.numbered processes attended stepped
  cases acts with
  | starts _ _ started => exact start_attended attended started
  | moves _ stepped => exact moves stepped
  | dispatches _ _ _ _ stepped => exact moves stepped
  | finishes _ _ _ _ stepped => exact moves stepped
  | works _ => exact attended

/-- Whenever a call is in the queue of a side, one of its activations will take a call out. -/
theorem run_attended (usable : Usable infos ipc deeds)
    (processes : ∀ side t operation, .start side t operation ∈ deeds → operation.waitsReturn = true →
      operation.processIncomingCalls = true) (side : Bool) :
    Attended (run (step ipc) (opened infos) deeds side).endpoint := by
  let Both (c : Connection Tid) : Prop := ∀ side, Processes (c side).endpoint ∧ Attended (c side).endpoint
  have start : Both (opened infos) := fun _ => ⟨fun _ _ member => (by cases member),empty_attended⟩
  refine ((@run_induction Tid _ infos ipc deeds usable Both start ?_).2 side).2
  intro c mover gone links acts _ _ both other
  by_cases same : other = mover
  · rw [same,after_self]
    refine ⟨?_,acts_attended (links mover) acts (both mover).1 (both mover).2⟩
    have allowed : Acts (fun operation => operation.waitsReturn = true → operation.processIncomingCalls = true)
        (ipc mover) (c mover) gone := by
      refine acts.mono ?_
      rintro operation ⟨_,t,started⟩
      exact processes mover t operation started
    exact acts_started allowed (both mover).1
  · rw [(Bool.eq_not_of_ne same : other = !mover),after_other]
    exact both (!mover)

omit [DecidableEq Tid] in
/-- A side that no thread uses has no call in its queue. -/
theorem idle_queue {party : Party Tid} (attended : Attended party.endpoint) (idle : ∀ t, party.endpoint.threads t = []) :
    party.endpoint.pending.m_data_incoming_call = [] := by
  by_contra left
  obtain ⟨t,frame,member,_⟩ := attended.queue left
  rw [idle t] at member
  cases member

/-- Where both sides are stalled and nothing is unread, no thread is inside and nothing is left. -/
theorem stalled_gone (usable : Usable infos ipc deeds)
    (processes : ∀ side t operation, .start side t operation ∈ deeds → operation.waitsReturn = true →
      operation.processIncomingCalls = true)
    (stalled : ∀ side, Stalled (run (step ipc) (opened infos) deeds side))
    (empty : ∀ side, (run (step ipc) (opened infos) deeds side).arriving = []) (side : Bool) :
    (∀ t, (run (step ipc) (opened infos) deeds side).endpoint.threads t = []) ∧
      leftIds (run (step ipc) (opened infos) deeds side) = [] := by
  have taken (side : Bool) : leftIds (run (step ipc) (opened infos) deeds side) = [] := by
    by_cases used : ∃ t, (run (step ipc) (opened infos) deeds side).endpoint.threads t ≠ []
    · obtain ⟨t,busy⟩ := used
      exact stalled_taken usable (processes side) (stalled side) busy
    · have idle := idle_queue (run_attended usable processes side) fun t => Classical.byContradiction fun busy => used ⟨t,busy⟩
      rw [leftIds,idle,empty side]
      rfl
  refine ⟨fun t => ?_,taken side⟩
  by_contra inside
  obtain ⟨other,left⟩ := stalled_left usable stalled inside
  exact left (taken other)

end runs

end IpcPortable.AttendedQueues
