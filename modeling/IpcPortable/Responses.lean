import Mathlib.Data.List.Perm.Basic
import IpcPortable.Matching

/-!
Every response is consumed once. An id passes through its stages one after the
other (its call is written, answered, read, stored and taken), and the records
of these stages are the same ids, each of them once (`responses_matched`).
-/
namespace IpcPortable.Responses
open IpcPortable.Runs IpcPortable.LittleEndian IpcPortable.DataStream IpcPortable.Values IpcPortable.Packets
open IpcPortable.Calls IpcPortable.Replies IpcPortable.Pending IpcPortable.Endpoints IpcPortable.EndpointMoves
open IpcPortable.HandOver IpcPortable.CallQueue IpcPortable.Peers IpcPortable.Matching
variable {Tid : Type}

def wroteId : Event Invocation → Option CallId
  | .wrote _ id _ => some id
  | _ => none
def tookId {κ : Type} : Event κ → Option CallId
  | .tookResponse id _ => some id
  | _ => none
/-- The ids of the replies among packets. -/
def replyIds (buffers : List CallDataBuffer) : List CallId :=
  (buffers.filter fun buffer => Reply buffer).map fun buffer => buffer.header.id
/-- The ids of the replies that the transport did not deliver yet. -/
def arrivingIds (packets : List Data) : List CallId := replyIds (packets.map (receiveCallDataBuffer 0))
/-- The activation has its id. -/
def hasId : Point → Bool
  | .newCallId => false
  | _ => true
/-- The activation took its response. -/
def served : Point → Bool
  | .handling buffer => Reply buffer
  | .processing response_precessed _ => response_precessed
  | _ => false
def liveIds (stack : List (Activation Invocation)) : List CallId :=
  (stack.filter fun frame => hasId frame.point).map fun frame => frame.id

structure Counted (w : World Tid) : Prop where
  distinct : ∀ t, (liveIds (w.endpoint.threads t)).Nodup
  unwritten : ∀ t, ∀ frame ∈ w.endpoint.threads t, frame.point = .writing → frame.id ∉ picked wroteId w.endpoint.events
  unserved : ∀ t, ∀ frame ∈ w.endpoint.threads t, hasId frame.point = true → served frame.point = false →
    frame.id ∉ picked tookId w.endpoint.events
  served : ∀ t, ∀ frame ∈ w.endpoint.threads t, served frame.point = true →
    (t,frame.id) ∈ said tookId w.endpoint.events
  finished : ∀ t operation id result, (t,.returned operation id result) ∈ w.endpoint.events →
    (t,id) ∈ said tookId w.endpoint.events
  wrote_nodup : (picked wroteId w.endpoint.events).Nodup
  wrote_issued : ∀ id ∈ picked wroteId w.endpoint.events, ∃ t operation, (t,operation,id) ∈ issues w.endpoint.events
  took_nodup : (picked tookId w.endpoint.events).Nodup
  took_issued : ∀ t id, (t,id) ∈ said tookId w.endpoint.events → ∃ operation, (t,operation,id) ∈ issues w.endpoint.events
  letters : (w.answered ++ w.outgoing.map Letter.id).Perm (picked wroteId w.endpoint.events)
  answered : w.answered = replyIds (picked receivedPacket w.endpoint.events) ++ arrivingIds w.arriving
  entered : ∀ id, id ∈ replyIds (picked enteredPacket w.endpoint.events) ↔
    id ∈ picked tookId w.endpoint.events ∨ w.endpoint.pending.m_id_data_return id ≠ none
  exclusive : ∀ id ∈ picked tookId w.endpoint.events, w.endpoint.pending.m_id_data_return id = none

@[simp] theorem replyIds_append (a b : List CallDataBuffer) : replyIds (a ++ b) = replyIds a ++ replyIds b := by
  simp [replyIds]

@[simp] theorem arrivingIds_append (a b : List Data) : arrivingIds (a ++ b) = arrivingIds a ++ arrivingIds b := by
  simp [arrivingIds]

@[simp] theorem liveIds_append (above below : List (Activation Invocation)) :
    liveIds (above ++ below) = liveIds above ++ liveIds below := by
  simp [liveIds]

theorem replyIds_reply {buffer : CallDataBuffer} (reply : Reply buffer) : replyIds [buffer] = [buffer.header.id] := by
  simp [replyIds,reply]

theorem replyIds_other {buffer : CallDataBuffer} (other : ¬ Reply buffer) : replyIds [buffer] = [] := by
  simp [replyIds,other]

theorem replyIds_header {one other : CallDataBuffer} (same : one.header = other.header) :
    replyIds [one] = replyIds [other] := by
  by_cases reply : Reply other
  · have reply_one : Reply one := by rwa [Reply,same]
    rw [replyIds_reply reply_one,replyIds_reply reply,same]
  · have other_one : ¬ Reply one := by rwa [Reply,same]
    rw [replyIds_other other_one,replyIds_other reply]

/-- What a packet from the peer is does not depend on the variable that is not
    initialised, since its header is complete. -/
theorem arrives_ids {f : Handlers} {events : List (Tid × Event Invocation)} {packet : Data} (arrives : Arrives f events packet)
    (type_raw : BitVec 32) : replyIds [receiveCallDataBuffer type_raw packet] = arrivingIds [packet] := by
  have same : (receiveCallDataBuffer type_raw packet).header = (receiveCallDataBuffer 0 packet).header := by
    rcases arrives with ⟨no_header_size,pt,id,body,bytes,_⟩ | ⟨_,_,_,_,_,bytes⟩
    · rw [(receiveCallDataBuffer_reads type_raw bytes).1,(receiveCallDataBuffer_reads 0 bytes).1]
    · rw [(receiveCallDataBuffer_reads type_raw bytes).1,(receiveCallDataBuffer_reads 0 bytes).1]
  exact replyIds_header same

variable [DecidableEq Tid]

/-! ### What a step records -/

section goes
variable {f : Handlers} {events : List (Tid × Event Invocation)} {t : Tid} {p : PendingResponces Tid}
variable {frame : Activation Invocation} {out : Advance Tid Invocation}

theorem begins_served {q : PendingResponces Tid} (begins : Begins t p frame q) :
    hasId frame.point = true ∧ served frame.point = false ∧ frame.point ≠ .writing := by
  cases begins with
  | fresh at_point => simp [at_point,hasId,served]
  | woken at_point => simp [at_point,hasId,served]

/-- The activation writes its call and goes on, or nothing is written. -/
theorem goes_wroteId (goes : Goes f events t p frame out) :
    (frame.point = .writing ∧ out.events.filterMap wroteId = [frame.id] ∧
      (out.events.filterMap wroteCall).map Letter.id = [frame.id] ∧ ∀ next ∈ out.frames, next.point ≠ .writing) ∨
    (out.events.filterMap wroteId = [] ∧ out.events.filterMap wroteCall = []) := by
  cases goes with
  | sends at_point operation => exact .inl ⟨at_point,rfl,by simp [operation,wroteCall],by simp [Activation.at]⟩
  | _ => exact .inr ⟨rfl,rfl⟩

/-- A packet enters, or a response is taken and is then gone, or neither. -/
theorem goes_stored (goes : Goes f events t p frame out) :
    (∃ buffer, frame.point = .writeBuffer true buffer ∧ out.events.filterMap enteredPacket = [buffer] ∧
      out.events.filterMap tookId = [] ∧
      out.pending.m_id_data_return =
        if Reply buffer ∧ p.m_id_data_return buffer.header.id = none then
          Function.update p.m_id_data_return buffer.header.id (some buffer)
        else p.m_id_data_return) ∨
    (out.events.filterMap enteredPacket = [] ∧ out.events.filterMap tookId = [frame.id] ∧
      hasId frame.point = true ∧ served frame.point = false ∧ p.m_id_data_return frame.id ≠ none ∧
      out.pending.m_id_data_return = Function.update p.m_id_data_return frame.id none ∧
      ∀ next ∈ out.frames, served next.point = true) ∨
    (out.events.filterMap enteredPacket = [] ∧ out.events.filterMap tookId = [] ∧
      out.pending.m_id_data_return = p.m_id_data_return) := by
  cases goes with
  | @takesResponse q buffer begins found =>
    obtain ⟨has_id,unserved,_⟩ := begins_served begins
    refine .inr (.inl ⟨rfl,rfl,has_id,unserved,?_,?_,?_⟩)
    · rw [← begins_replies begins,found]
      simp
    · rw [← begins_replies begins]
      rfl
    · intro next member
      obtain rfl := List.mem_singleton.mp member
      simp [served,Activation.at,(q.replies found).1]
  | takesCall begins => exact .inr (.inr ⟨rfl,rfl,(begins_replies begins :)⟩)
  | waits begins => exact .inr (.inr ⟨rfl,rfl,(begins_replies begins :)⟩)
  | locks begins => exact .inr (.inr ⟨rfl,rfl,(begins_replies begins :)⟩)
  | @enters buffer at_point =>
    exact .inl ⟨buffer,at_point,rfl,rfl,writeBuffer_replies p buffer frame.operation.processIncomingCalls⟩
  | _ => exact .inr (.inr ⟨rfl,rfl,rfl⟩)

/-- An activation draws its id, or keeps it. -/
theorem goes_ids (goes : Goes f events t p frame out) :
    (frame.point = .newCallId ∧ out.events.filterMap wroteId = [] ∧ out.events.filterMap tookId = [] ∧
      out.frames = [{ frame with id := p.nextId, point := .writing }]) ∨
    (hasId frame.point = true ∧ ∀ next ∈ out.frames, next.id = frame.id ∧ next.point ≠ .writing ∧
      hasId next.point = true ∧ (served next.point = false → served frame.point = false)) := by
  have keeps {point : Point} (has_id : hasId frame.point = true) (not_writing : point ≠ .writing)
      (next_id : hasId point = true) (kept : served point = false → served frame.point = false) :
      hasId frame.point = true ∧ ∀ next ∈ [frame.at point], next.id = frame.id ∧ next.point ≠ .writing ∧
        hasId next.point = true ∧ (served next.point = false → served frame.point = false) := by
    refine ⟨has_id,fun next member => ?_⟩
    obtain rfl := List.mem_singleton.mp member
    exact ⟨rfl,not_writing,next_id,kept⟩
  cases goes with
  | issues at_point => exact .inl ⟨at_point,rfl,rfl,rfl⟩
  | sends at_point => exact .inr (keeps (by rw [at_point]; rfl) (by simp) rfl (by simp [at_point,served]))
  | takesResponse begins =>
    obtain ⟨has_id,unserved,_⟩ := begins_served begins
    exact .inr (keeps has_id (by simp) rfl fun _ => unserved)
  | takesCall begins =>
    obtain ⟨has_id,unserved,_⟩ := begins_served begins
    exact .inr (keeps has_id (by simp) rfl fun _ => unserved)
  | waits begins =>
    obtain ⟨has_id,unserved,_⟩ := begins_served begins
    exact .inr (keeps has_id (by simp) rfl fun _ => unserved)
  | locks begins =>
    obtain ⟨has_id,unserved,_⟩ := begins_served begins
    exact .inr (keeps has_id (by simp) rfl fun _ => unserved)
  | passesReply at_point => exact .inr (keeps (by rw [at_point]; rfl) (by simp) rfl (by simp [served]))
  | passesCall at_point call => exact .inr (keeps (by rw [at_point]; rfl) (by simp) rfl (by simp [at_point,served,call]))
  | answers at_point => exact .inr ⟨by rw [at_point]; rfl,fun _ member => by cases member⟩
  | continues at_point => exact .inr (keeps (by rw [at_point]; rfl) (by simp) rfl (by simp [at_point,served]))
  | receives at_point => exact .inr (keeps (by rw [at_point]; rfl) (by simp) rfl (by simp [at_point,served]))
  | enters at_point => exact .inr (keeps (by rw [at_point]; rfl) (by simp) rfl (by simp [at_point,served]))

/-- An activation is served when it takes its response. -/
theorem goes_served (goes : Goes f events t p frame out) : ∀ next ∈ out.frames, served next.point = true →
    served frame.point = true ∨ out.events.filterMap tookId = [frame.id] := by
  intro next member is_served
  cases goes with
  | takesResponse => exact .inr rfl
  | @takesCall q buffer rest begins first =>
    obtain rfl := List.mem_singleton.mp member
    have call : ¬ Reply buffer := fun reply => reply.not_incoming (q.calls (first ▸ List.mem_cons_self))
    simp [served,Activation.at,call] at is_served
  | passesReply at_point reply => exact .inl (by simp [at_point,served,reply])
  | answers => cases member
  | _ =>
    obtain rfl := List.mem_singleton.mp member
    simp [served,Activation.at] at is_served

theorem goes_finished (goes : Goes f events t p frame out) {operation : Operation Invocation} {id : CallId}
    {result : DataStream} (returned : .returned operation id result ∈ out.events) :
    served frame.point = true ∧ id = frame.id := by
  cases goes with
  | answers at_point serves =>
    simp only [Activation.leave,List.mem_cons,List.not_mem_nil,or_false,reduceCtorEq,false_or,
      Event.returned.injEq] at returned
    exact ⟨by rw [at_point]; rfl,returned.2.1⟩
  | _ => simp at returned

end goes

/-! ### Steps of the world -/

section counted
variable {f : Handlers} {w : World Tid} {t : Tid} {frame : Activation Invocation} {below : List (Activation Invocation)}
variable {out : Advance Tid Invocation}

omit [DecidableEq Tid] in
theorem running_issued (sound : Sound f w) {u : Tid} {other : Activation Invocation} (member : other ∈ w.endpoint.threads u)
    (has_id : hasId other.point = true) : (u,other.operation,other.id) ∈ issues w.endpoint.events := by
  refine (sound.running u other member).issued ?_
  intro at_point
  simp [at_point,hasId] at has_id

omit [DecidableEq Tid] in
theorem mem_liveIds {stack : List (Activation Invocation)} {other : Activation Invocation} (member : other ∈ stack)
    (has_id : hasId other.point = true) : other.id ∈ liveIds stack :=
  List.mem_map.mpr ⟨other,List.mem_filter.mpr ⟨member,has_id⟩,rfl⟩

omit [DecidableEq Tid] in
theorem liveIds_cons {other : Activation Invocation} (has_id : hasId other.point = true)
    (stack : List (Activation Invocation)) : liveIds (other :: stack) = other.id :: liveIds stack := by
  simp [liveIds,has_id]

omit [DecidableEq Tid] in
theorem taken_issued (counted : Counted w) {id : CallId} (taken : id ∈ picked tookId w.endpoint.events) :
    ∃ u operation, (u,operation,id) ∈ issues w.endpoint.events := by
  rw [← said_picked] at taken
  obtain ⟨⟨u,_⟩,listed,rfl⟩ := List.mem_map.mp taken
  exact ⟨u,counted.took_issued u _ listed⟩

omit [DecidableEq Tid] in
/-- Two activations that have their ids do not have the same. -/
theorem other_id (sound : Sound f w) (few : Few w.endpoint.events) (counted : Counted w)
    (running : w.endpoint.threads t = frame :: below) (has_id : hasId frame.point = true) {u : Tid}
    {other : Activation Invocation} (member : other ∈ w.endpoint.threads u) (elsewhere : u ≠ t ∨ other ∈ below)
    (other_has_id : hasId other.point = true) : other.id ≠ frame.id := by
  intro same
  have mine := running_issued sound (running ▸ List.mem_cons_self : frame ∈ w.endpoint.threads t) has_id
  have theirs := running_issued sound member other_has_id
  rw [same] at theirs
  obtain ⟨rfl,_⟩ := sound.owner few theirs mine
  have distinct := counted.distinct u
  rw [running,liveIds_cons has_id] at distinct
  exact (List.nodup_cons.mp distinct).1 (same ▸ mem_liveIds (elsewhere.resolve_left (fun other => other rfl)) other_has_id)

theorem after_member {threads : Tid → List (Activation Invocation)} (running : threads t = frame :: below)
    {above : List (Activation Invocation)} {u : Tid} {other : Activation Invocation}
    (member : other ∈ Function.update threads t (above ++ below) u) :
    (u = t ∧ other ∈ above) ∨ (other ∈ threads u ∧ (u ≠ t ∨ other ∈ below)) := by
  by_cases same : u = t
  · subst same
    rw [Function.update_self] at member
    rcases List.mem_append.mp member with new | old
    · exact .inl ⟨rfl,new⟩
    · exact .inr ⟨running ▸ List.mem_cons_of_mem _ old,.inr old⟩
  · rw [Function.update_of_ne same] at member
    exact .inr ⟨member,.inl same⟩

section move
variable (sound : Sound f w) (counted : Counted w) (few : Few w.endpoint.events)
variable (running : w.endpoint.threads t = frame :: below)
variable (goes : Goes f w.endpoint.events t w.endpoint.pending frame out)
include sound counted few running goes

theorem counted_distinct (v : Tid) : (liveIds (Function.update w.endpoint.threads t (out.frames ++ below) v)).Nodup := by
  have distinct := counted.distinct v
  by_cases same : v = t
  · subst same
    rw [Function.update_self,liveIds_append]
    rcases goes_ids goes with ⟨at_point,_,_,drawn⟩ | ⟨has_id,keeps⟩
    · have fresh : w.endpoint.pending.nextId ∉ liveIds below := by
        intro member
        obtain ⟨other,inner,same_id⟩ := List.mem_map.mp member
        obtain ⟨deeper,has_id⟩ := List.mem_filter.mp inner
        have issued := running_issued sound (running ▸ List.mem_cons_of_mem _ deeper : other ∈ w.endpoint.threads v) has_id
        rw [same_id] at issued
        exact sound.next_new few issued
      have unchanged : liveIds (frame :: below) = liveIds below := by simp [liveIds,at_point,hasId]
      rw [running,unchanged] at distinct
      rw [drawn,liveIds_cons rfl]
      exact List.nodup_cons.mpr ⟨fresh,distinct⟩
    · rw [running,liveIds_cons has_id] at distinct
      rcases goes_frames goes with gone | ⟨next,goes_on⟩
      · rw [gone]
        exact (List.nodup_cons.mp distinct).2
      · obtain ⟨same_id,_,next_id,_⟩ := keeps next (by simp [goes_on])
        rw [goes_on,liveIds_cons next_id,same_id]
        exact distinct
  · rwa [Function.update_of_ne same]

theorem counted_unwritten (u : Tid) (other : Activation Invocation)
    (member : other ∈ Function.update w.endpoint.threads t (out.frames ++ below) u) (at_point : other.point = .writing) :
    other.id ∉ picked wroteId w.endpoint.events ++ out.events.filterMap wroteId := by
  rcases after_member running member with ⟨rfl,new⟩ | ⟨old,elsewhere⟩
  · rcases goes_ids goes with ⟨_,wrote,_,drawn⟩ | ⟨_,keeps⟩
    · rw [drawn,List.mem_singleton] at new
      rw [wrote,List.append_nil]
      intro listed
      obtain ⟨v,operation,issued⟩ := counted.wrote_issued _ listed
      rw [new] at issued
      exact sound.next_new few issued
    · exact absurd at_point (keeps other new).2.1
  · have before := counted.unwritten u other old at_point
    rcases goes_wroteId goes with ⟨writing,wrote,_⟩ | ⟨wrote,_⟩
    · have different := other_id sound few counted running (by rw [writing]; rfl) old elsewhere (by rw [at_point]; rfl)
      simp [wrote,before,different]
    · rwa [wrote,List.append_nil]

theorem counted_unserved (u : Tid) (other : Activation Invocation)
    (member : other ∈ Function.update w.endpoint.threads t (out.frames ++ below) u) (has_id : hasId other.point = true)
    (unserved : served other.point = false) :
    other.id ∉ picked tookId w.endpoint.events ++ out.events.filterMap tookId := by
  rcases after_member running member with ⟨rfl,new⟩ | ⟨old,elsewhere⟩
  · rcases goes_ids goes with ⟨_,_,took,drawn⟩ | ⟨frame_id,keeps⟩
    · rw [drawn,List.mem_singleton] at new
      rw [took,List.append_nil]
      intro listed
      obtain ⟨v,operation,issued⟩ := taken_issued counted listed
      rw [new] at issued
      exact sound.next_new few issued
    · obtain ⟨same_id,_,_,still⟩ := keeps other new
      have before := counted.unserved u frame (running ▸ List.mem_cons_self) frame_id (still unserved)
      rw [same_id]
      rcases goes_stored goes with ⟨_,_,_,took,_⟩ | ⟨_,_,_,_,_,_,now_served⟩ | ⟨_,took,_⟩
      · rwa [took,List.append_nil]
      · simp [now_served other new] at unserved
      · rwa [took,List.append_nil]
  · have before := counted.unserved u other old has_id unserved
    rcases goes_stored goes with ⟨_,_,_,took,_⟩ | ⟨_,took,frame_id,_⟩ | ⟨_,took,_⟩
    · rwa [took,List.append_nil]
    · have different := other_id sound few counted running frame_id old elsewhere has_id
      simp [took,before,different]
    · rwa [took,List.append_nil]

omit sound few in
theorem counted_served (u : Tid) (other : Activation Invocation)
    (member : other ∈ Function.update w.endpoint.threads t (out.frames ++ below) u)
    (is_served : served other.point = true) :
    (u,other.id) ∈ said tookId (w.endpoint.events ++ out.events.map (t,·)) := by
  rcases after_member running member with ⟨rfl,new⟩ | ⟨old,_⟩
  · rcases goes_ids goes with ⟨_,_,_,drawn⟩ | ⟨_,keeps⟩
    · rw [drawn,List.mem_singleton] at new
      simp [new,served] at is_served
    · rw [(keeps other new).1]
      rcases goes_served goes other new is_served with before | took
      · exact said_mono (counted.served u frame (running ▸ List.mem_cons_self) before) u _
      · rw [said_append,took]
        exact List.mem_append_right _ List.mem_cons_self
  · exact said_mono (counted.served u other old is_served) t _

omit few in
theorem counted_wrote : (picked wroteId w.endpoint.events ++ out.events.filterMap wroteId).Nodup ∧
    ∀ id ∈ picked wroteId w.endpoint.events ++ out.events.filterMap wroteId,
      ∃ u operation, (u,operation,id) ∈ issues w.endpoint.events := by
  rcases goes_wroteId goes with ⟨writing,wrote,_⟩ | ⟨wrote,_⟩
  · have mine : frame ∈ w.endpoint.threads t := running ▸ List.mem_cons_self
    rw [wrote]
    constructor
    · exact List.nodup_append.mpr ⟨counted.wrote_nodup,List.nodup_singleton _,fun a listed b new same =>
        counted.unwritten t frame mine writing (List.mem_singleton.mp new ▸ same ▸ listed)⟩
    · intro id member
      rcases List.mem_append.mp member with old | new
      · exact counted.wrote_issued id old
      · rw [List.mem_singleton.mp new]
        exact ⟨t,_,running_issued sound mine (by rw [writing]; rfl)⟩
  · rw [wrote,List.append_nil]
    exact ⟨counted.wrote_nodup,counted.wrote_issued⟩

omit few in
theorem counted_took : (picked tookId w.endpoint.events ++ out.events.filterMap tookId).Nodup ∧
    ∀ u id, (u,id) ∈ said tookId w.endpoint.events ++ (out.events.filterMap tookId).map (t,·) →
      ∃ operation, (u,operation,id) ∈ issues w.endpoint.events := by
  have kept (took : out.events.filterMap tookId = []) :
      (picked tookId w.endpoint.events ++ out.events.filterMap tookId).Nodup ∧
        ∀ u id, (u,id) ∈ said tookId w.endpoint.events ++ (out.events.filterMap tookId).map (t,·) →
          ∃ operation, (u,operation,id) ∈ issues w.endpoint.events := by
    rw [took,List.map_nil,List.append_nil,List.append_nil]
    exact ⟨counted.took_nodup,counted.took_issued⟩
  rcases goes_stored goes with ⟨_,_,_,took,_⟩ | ⟨_,took,has_id,unserved,_⟩ | ⟨_,took,_⟩
  · exact kept took
  · have mine : frame ∈ w.endpoint.threads t := running ▸ List.mem_cons_self
    rw [took]
    constructor
    · exact List.nodup_append.mpr ⟨counted.took_nodup,List.nodup_singleton _,fun a listed b new same =>
        counted.unserved t frame mine has_id unserved (List.mem_singleton.mp new ▸ same ▸ listed)⟩
    · intro u id member
      rcases List.mem_append.mp member with old | new
      · exact counted.took_issued u id old
      · cases List.mem_singleton.mp new
        exact ⟨_,running_issued sound mine has_id⟩
  · exact kept took

omit sound few goes in
/-- The reply in the hands of the reader did not enter before. -/
theorem counted_new (owned : Owned w.endpoint) (kept : Kept w.endpoint) {buffer : CallDataBuffer}
    (at_point : frame.point = .writeBuffer true buffer) (reply : Reply buffer) :
    buffer.header.id ∉ replyIds (picked enteredPacket w.endpoint.events) := by
  have locked := (owned.owner t).mpr (by simp [running,at_point,Point.holds])
  have nested : ∀ other ∈ below, other.point.nests = true := by simpa [running] using kept.nested t
  have hand : inHand w.endpoint = [buffer] := by
    rw [inHand_locked locked,running,unentered,inStack_top unentered_nests frame nested]
    simp [inStack,at_point,unenteredAt]
  have once : w.answered.Nodup :=
    (List.nodup_append.mp ((counted.letters.nodup_iff).mpr counted.wrote_nodup)).1
  rw [counted.answered,kept.hands,hand,replyIds_append,replyIds_reply reply] at once
  have apart := (List.nodup_append.mp (List.nodup_append.mp once).1).2.2
  exact fun entered => apart _ entered _ List.mem_cons_self rfl

omit sound few in
theorem counted_entered (owned : Owned w.endpoint) (kept : Kept w.endpoint) :
    (∀ id, id ∈ replyIds (picked enteredPacket w.endpoint.events ++ out.events.filterMap enteredPacket) ↔
      id ∈ picked tookId w.endpoint.events ++ out.events.filterMap tookId ∨ out.pending.m_id_data_return id ≠ none) ∧
    ∀ id ∈ picked tookId w.endpoint.events ++ out.events.filterMap tookId, out.pending.m_id_data_return id = none := by
  rcases goes_stored goes with ⟨buffer,at_point,entered,took,stored⟩ | ⟨entered,took,_,_,present,stored,_⟩ |
    ⟨entered,took,stored⟩
  · rw [entered,took,stored,List.append_nil,replyIds_append]
    by_cases reply : Reply buffer
    · have fresh := counted_new counted running owned kept at_point reply
      have unknown := (not_congr (counted.entered _)).mp fresh
      obtain ⟨untaken,absent⟩ := not_or.mp unknown
      rw [replyIds_reply reply,if_pos ⟨reply,not_not.mp absent⟩]
      constructor
      · intro id
        by_cases same : id = buffer.header.id
        · simp [same]
        · simpa [same] using counted.entered id
      · intro id member
        have different : id ≠ buffer.header.id := fun same => untaken (same ▸ member)
        rw [Function.update_of_ne different]
        exact counted.exclusive id member
    · rw [replyIds_other reply,if_neg (fun inserted => reply inserted.1),List.append_nil]
      exact ⟨counted.entered,counted.exclusive⟩
  · rw [entered,took,stored,List.append_nil]
    constructor
    · intro id
      by_cases same : id = frame.id
      · subst same
        simpa using (counted.entered _).mpr (.inr present)
      · simpa [same] using counted.entered id
    · intro id member
      by_cases same : id = frame.id
      · rw [same,Function.update_self]
      · rw [Function.update_of_ne same]
        refine counted.exclusive id ?_
        simpa [same] using member
  · rw [entered,took,stored,List.append_nil,List.append_nil]
    exact ⟨counted.entered,counted.exclusive⟩

/-- A step of an activation keeps the records together. -/
theorem goes_counted (owned : Owned w.endpoint) (kept : Kept w.endpoint) {arriving : List Data}
    (delivered : replyIds (out.events.filterMap receivedPacket) ++ arrivingIds arriving = arrivingIds w.arriving) :
    Counted { w with
      endpoint := {
        pending := out.pending
        threads := Function.update w.endpoint.threads t (out.frames ++ below)
        events := w.endpoint.events ++ out.events.map (t,·) }
      outgoing := w.outgoing ++ out.events.filterMap wroteCall
      arriving := arriving } where
  distinct := counted_distinct sound counted few running goes
  unwritten u other member at_point := by
    rw [picked_append]
    exact counted_unwritten sound counted few running goes u other member at_point
  unserved u other member has_id unserved := by
    rw [picked_append]
    exact counted_unserved sound counted few running goes u other member has_id unserved
  served := counted_served counted running goes
  finished u operation id result member := by
    rcases List.mem_append.mp member with old | new
    · exact said_mono (counted.finished u operation id result old) t _
    · obtain ⟨event,happened,same⟩ := List.mem_map.mp new
      cases same
      obtain ⟨is_served,rfl⟩ := goes_finished goes happened
      exact said_mono (counted.served t frame (running ▸ List.mem_cons_self) is_served) t _
  wrote_nodup := by
    rw [picked_append]
    exact (counted_wrote sound counted running goes).1
  wrote_issued id member := by
    rw [picked_append] at member
    obtain ⟨u,operation,issued⟩ := (counted_wrote sound counted running goes).2 id member
    exact ⟨u,operation,said_mono issued t _⟩
  took_nodup := by
    rw [picked_append]
    exact (counted_took sound counted running goes).1
  took_issued u id member := by
    rw [said_append] at member
    obtain ⟨operation,issued⟩ := (counted_took sound counted running goes).2 u id member
    exact ⟨operation,said_mono issued t _⟩
  letters := by
    rw [picked_append,List.map_append,← List.append_assoc]
    refine counted.letters.append ?_
    rcases goes_wroteId goes with ⟨_,wrote,letters,_⟩ | ⟨wrote,letters⟩
    · rw [wrote,letters]
    · rw [wrote,letters]
      rfl
  answered := by
    rw [picked_append,replyIds_append,List.append_assoc,delivered]
    exact counted.answered
  entered id := by
    rw [picked_append,picked_append]
    exact (counted_entered counted running goes owned kept).1 id
  exclusive id member := by
    rw [picked_append] at member
    exact (counted_entered counted running goes owned kept).2 id member

end move

end counted

section happens
variable {f : Handlers} {transport : TransportShare} {w w' : World Tid}

omit [DecidableEq Tid] in
theorem arriving_answer {packet : Data} {id : CallId} {body : List Byte} (bytes : packet.bytes = packetOf pt_return id body) :
    arrivingIds [packet] = [id] := by
  obtain ⟨type,same,_⟩ := reply_received 0 bytes
  have reply : Reply (receiveCallDataBuffer 0 packet) := by
    rw [Reply,type]
    decide
  rw [arrivingIds,List.map_singleton,replyIds_reply reply,same]

omit [DecidableEq Tid] in
theorem arriving_own {packet : Data} {no_header_size : Nat} {pt : PacketType} {id : CallId} {body : List Byte}
    (bytes : packet.bytes = encodeHeader no_header_size pt id ++ body) (own : pt = pt_enumerate ∨ pt = pt_call) :
    arrivingIds [packet] = [] := by
  have header := (receiveCallDataBuffer_reads 0 bytes).1
  have call : ¬ Reply (receiveCallDataBuffer 0 packet) := by
    rw [Reply,header]
    rcases own with rfl | rfl
    · simp [pt_call,pt_enumerate]
    · simp [pt_call]
  rw [arrivingIds,List.map_singleton,replyIds_other call]

/-- What is read was arriving. -/
theorem moves_received (sound : Sound f w) {t : Tid} {frame : Activation Invocation} {move : Move} {arriving : List Data}
    {out : Advance Tid Invocation} (transports : Transports transport w.arriving move arriving)
    (moved : Moves invocationInfo t w.endpoint.pending frame move out) :
    replyIds (out.events.filterMap receivedPacket) ++ arrivingIds arriving = arrivingIds w.arriving := by
  have arrives := sound.arriving
  revert arrives
  generalize w.arriving = coming at transports
  intro arrives
  cases transports with
  | proceeds =>
    have none : out.events.filterMap receivedPacket = [] := by cases moved <;> rfl
    rw [none]
    rfl
  | writes =>
    have none : out.events.filterMap receivedPacket = [] := by cases moved <;> rfl
    rw [none]
    rfl
  | @delivers packet rest type_raw =>
    have one : out.events.filterMap receivedPacket = [receiveCallDataBuffer type_raw packet] := by cases moved; rfl
    rw [one,arrives_ids (arrives packet List.mem_cons_self),← arrivingIds_append]
    rfl
  | waits =>
    have one : out.events.filterMap receivedPacket = [{}] := by cases moved; rfl
    rw [one,replyIds_other default_not_reply]
    rfl

theorem start_counted (counted : Counted w) {t : Tid} (call : Invocation) (process_incoming_calls : Bool) :
    Counted { w with
      endpoint := { w.endpoint with
        threads := Function.update w.endpoint.threads t
          (enter (.waitInvoke call process_incoming_calls) :: w.endpoint.threads t) } } := by
  have running {u : Tid} {frame : Activation Invocation} (member : frame ∈ Function.update w.endpoint.threads t
      (enter (.waitInvoke call process_incoming_calls) :: w.endpoint.threads t) u) :
      frame.point = .newCallId ∨ frame ∈ w.endpoint.threads u := by
    by_cases same : u = t
    · subst same
      rw [Function.update_self] at member
      rcases List.mem_cons.mp member with rfl | old
      · exact .inl rfl
      · exact .inr old
    · rw [Function.update_of_ne same] at member
      exact .inr member
  exact {
    counted with
    distinct := fun v => by
      by_cases same : v = t
      · subst same
        simpa [liveIds,enter,hasId] using counted.distinct v
      · simpa [same] using counted.distinct v
    unwritten := fun u frame member at_point => by
      rcases running member with fresh | old
      · simp [fresh] at at_point
      · exact counted.unwritten u frame old at_point
    unserved := fun u frame member has_id unserved => by
      rcases running member with fresh | old
      · simp [fresh,hasId] at has_id
      · exact counted.unserved u frame old has_id unserved
    served := fun u frame member is_served => by
      rcases running member with fresh | old
      · simp [fresh,served] at is_served
      · exact counted.served u frame old is_served }

theorem happens_counted (creates : Creates transport) (owned : Owned w.endpoint) (kept : Kept w.endpoint)
    (sound : Sound f w) (counted : Counted w) (happens : Happens f transport w w') (few : Few w'.endpoint.events) :
    Counted w' := by
  have few_now := happens_few happens few
  cases happens with
  | starts => exact start_counted counted _ _
  | acts running transports moved =>
    have reliable := (transports_reliable sound transports).1
    have goes := moves_goes creates sound owned few_now running reliable moved
    exact goes_counted sound counted few_now running goes owned kept (moves_received sound transports moved)
  | @answers place type_raw letter id packet found answered =>
    obtain ⟨carries,_⟩ := sound.outgoing letter (List.mem_of_getElem? found)
    rw [peerAnswer_carries f type_raw carries] at answered
    obtain ⟨rfl,bytes⟩ := Prod.mk.inj (Option.some.inj answered)
    obtain ⟨inside,here⟩ := List.getElem?_eq_some_iff.mp found
    have moved : (letter :: w.outgoing.eraseIdx place).Perm w.outgoing := here ▸ List.getElem_cons_eraseIdx_perm inside
    exact {
      counted with
      letters := by
        rw [List.append_assoc]
        exact ((moved.map Letter.id).append_left w.answered).trans counted.letters
      answered := by
        rw [arrivingIds_append,arriving_answer bytes.symm,counted.answered,List.append_assoc] }
  | @sends enumerate id no_header_size body packet bytes =>
    exact {
      counted with
      answered := by
        rw [arrivingIds_append,arriving_own bytes (by cases enumerate <;> simp),List.append_nil,counted.answered] }

end happens

/-! ### Every run -/

/-- The threads that took the response with an id. -/
def takers (id : CallId) (events : List (Tid × Event Invocation)) : List Tid := sayers id (said tookId events)

/-- Every call that returned has its own value, and its response was taken
    once, by its own thread. A response is in one place: on its way, in the hands
    of the reader, stored, or taken. -/
structure Matched (f : Handlers) (w : World Tid) : Prop where
  results : ∀ t call process_incoming_calls id result,
    (t,.returned (.waitInvoke call process_incoming_calls) id result) ∈ w.endpoint.events →
    result.isReadBufferPresent = true ∧ waitInvokeRet call.ret result = call.value f ∧ takers id w.endpoint.events = [t]
  owners : ∀ t id, t ∈ takers id w.endpoint.events → ∃ operation, (t,operation,id) ∈ issues w.endpoint.events
  places : ∀ id, w.answered.count id =
    (arrivingIds w.arriving).count id + (replyIds (inHand w.endpoint)).count id +
      (w.endpoint.pending.m_id_data_return id).toList.length + (takers id w.endpoint.events).length
  once : ∀ id, w.answered.count id ≤ 1

omit [DecidableEq Tid] in
theorem start_sound_counted (f : Handlers) : Sound f ({} : World Tid) ∧ Counted ({} : World Tid) := by
  constructor
  · exact {
      inner := fun _ _ member => by cases member
      next := rfl
      ids := rfl
      running := fun _ _ member => by cases member
      replies := fun _ _ found => by cases found
      outgoing := fun _ member => by cases member
      arriving := fun _ member => by cases member
      returned := fun _ _ _ _ member => by cases member }
  · exact {
      distinct := fun _ => List.nodup_nil
      unwritten := fun _ _ member => by cases member
      unserved := fun _ _ member => by cases member
      served := fun _ _ member => by cases member
      finished := fun _ _ _ _ member => by cases member
      wrote_nodup := List.nodup_nil
      wrote_issued := fun _ member => by cases member
      took_nodup := List.nodup_nil
      took_issued := fun _ _ member => by cases member
      letters := List.Perm.nil
      answered := rfl
      entered := fun id => by simp [picked,replyIds]
      exclusive := fun _ member => by cases member }

theorem run_counted (f : Handlers) {transport : TransportShare} (creates : Creates transport) (deeds : List (Deed Tid))
    (few : Few (run (step f transport) {} deeds).endpoint.events) :
    Kept (run (step f transport) {} deeds).endpoint ∧ Sound f (run (step f transport) {} deeds) ∧
      Counted (run (step f transport) {} deeds) := by
  have keeps : Preserves (step f transport) fun w : World Tid =>
      Owned w.endpoint ∧ Kept w.endpoint ∧ (Few w.endpoint.events → Sound f w ∧ Counted w) := by
    intro w deed w' holds stepped
    obtain ⟨owned,kept,small⟩ := holds
    have happens := step_happens stepped
    refine ⟨happens_owned owned happens,happens_kept owned kept happens,fun few => ?_⟩
    obtain ⟨sound,counted⟩ := small (happens_few happens few)
    exact ⟨happens_sound creates owned sound happens few,happens_counted creates owned kept sound counted happens few⟩
  obtain ⟨_,kept,small⟩ := keeps.run ⟨empty_owned,empty_kept,fun _ => start_sound_counted f⟩ deeds
  exact ⟨kept,small few⟩

omit [DecidableEq Tid] in
/-- Whoever took the response with an id is the only one. -/
theorem takers_once {w : World Tid} (counted : Counted w) {t : Tid} {id : CallId}
    (took : (t,id) ∈ said tookId w.endpoint.events) : takers id w.endpoint.events = [t] := by
  refine sayers_once ?_ took
  rw [said_picked]
  exact counted.took_nodup

omit [DecidableEq Tid] in
theorem answered_nodup {w : World Tid} (counted : Counted w) : w.answered.Nodup := by
  have nodup := counted.letters.nodup_iff.mpr counted.wrote_nodup
  exact (List.nodup_append.mp nodup).1

omit [DecidableEq Tid] in
/-- A response that entered is stored or was taken. -/
theorem entered_count {w : World Tid} (counted : Counted w) {id : CallId}
    (once : (replyIds (picked enteredPacket w.endpoint.events)).count id ≤ 1) :
    (replyIds (picked enteredPacket w.endpoint.events)).count id =
      (w.endpoint.pending.m_id_data_return id).toList.length + (takers id w.endpoint.events).length := by
  have entered := counted.entered id
  by_cases taken : id ∈ picked tookId w.endpoint.events
  · have listed := List.count_pos_iff.mpr (entered.mpr (.inl taken))
    have gone := counted.exclusive id taken
    rw [← said_picked] at taken
    obtain ⟨⟨t,other⟩,took,same⟩ := List.mem_map.mp taken
    obtain rfl : other = id := same
    rw [gone,takers_once counted took]
    simp only [Option.toList_none,List.length_nil,List.length_singleton]
    omega
  · have nobody : takers id w.endpoint.events = [] := sayers_absent (by rwa [said_picked])
    rw [nobody]
    cases found : w.endpoint.pending.m_id_data_return id with
    | none =>
      have absent : id ∉ replyIds (picked enteredPacket w.endpoint.events) := by
        intro listed
        rcases entered.mp listed with took | stored
        · exact taken took
        · exact stored found
      exact List.count_eq_zero.mpr absent
    | some buffer =>
      have listed := List.count_pos_iff.mpr (entered.mpr (.inr (by simp [found])))
      simp only [Option.toList_some,List.length_singleton,List.length_nil]
      omega

/-- Every call gets the value it is for, and every response is consumed by the
    one thread that waits for it, in every run. -/
theorem responses_matched (f : Handlers) {transport : TransportShare} (creates : Creates transport) (deeds : List (Deed Tid))
    (few : Few (run (step f transport) {} deeds).endpoint.events) : Matched f (run (step f transport) {} deeds) := by
  obtain ⟨kept,sound,counted⟩ := run_counted f creates deeds few
  revert kept sound counted
  generalize run (step f transport) {} deeds = w
  intro kept sound counted
  have once := List.nodup_iff_count_le_one.mp (answered_nodup counted)
  have stages : w.answered = replyIds (picked enteredPacket w.endpoint.events) ++ replyIds (inHand w.endpoint) ++
      arrivingIds w.arriving := by
    rw [counted.answered,kept.hands,replyIds_append]
  constructor
  · intro t call process_incoming_calls id result returned
    obtain ⟨_,_,operation,reads⟩ := sound.returned t _ id result returned
    cases operation
    obtain ⟨present,value⟩ := waitInvokeRet_reads reads
    exact ⟨present,value,takers_once counted (counted.finished t _ id result returned)⟩
  · intro t id took
    exact counted.took_issued t id (mem_sayers.mp took)
  · intro id
    have sums := congrArg (List.count id) stages
    simp only [List.count_append] at sums
    have total := once id
    have entered := entered_count counted (show (replyIds (picked enteredPacket w.endpoint.events)).count id ≤ 1 by omega)
    omega
  · exact once

/-- The call `not(flag)`. -/
def notCall (flag : Bool) : Invocation where
  proc_name := [110,111,116]
  return_type := [98]
  params := [[98]]
  args := [⟨.bool,flag⟩]
  ret := .bool
  fits := by cases flag <;> decide
  large _ given := by cases given
def notHandlers : Handlers
  | .bool, _, [⟨.bool,flag⟩] => !flag
  | ret, _, _ => ret.default
/-- Two threads call, and the one that reads first reads the response of the
    other. -/
def crossing : List (Deed Bool) :=
  [.start false (notCall false) true,.proceed false,.write false,.start true (notCall true) false,.proceed true,
    .write true,.proceed true,.proceed false,.answer 0 0,.read true true 0,.proceed true,.proceed false,.proceed false,
    .proceed false,.answer 0 0,.proceed true,.read true true 0,.proceed true,.proceed true,.proceed true,.proceed true]

theorem crossing_matched :
    Matched notHandlers (run (step notHandlers (proxyTransport fun _ => 0)) {} crossing) ∧
      takers 1 (run (step notHandlers (proxyTransport fun _ => 0)) {} crossing).endpoint.events = [false] ∧
      takers 2 (run (step notHandlers (proxyTransport fun _ => 0)) {} crossing).endpoint.events = [true] := by
  refine ⟨responses_matched notHandlers (proxyTransport_creates _) crossing ?_,?_,?_⟩
  · rw [Few]
    decide +kernel
  · decide +kernel
  · decide +kernel

end IpcPortable.Responses
