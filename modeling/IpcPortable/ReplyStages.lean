import IpcPortable.LinkRuns

/-!
The replies at the side that asked. A reply that was read enters and is stored until
the activation with its id takes it, and nobody waits or reads for a reply that is
stored already. So an operation whose reply came does not stay blocked.
-/
namespace IpcPortable.ReplyStages
open IpcPortable.Runs IpcPortable.DataStream IpcPortable.Packets IpcPortable.Pending IpcPortable.Endpoints
open IpcPortable.EndpointMoves IpcPortable.HandOver IpcPortable.CallQueue IpcPortable.Peers IpcPortable.Matching
open IpcPortable.Responses IpcPortable.Enumerations IpcPortable.Numbering IpcPortable.Links
variable {Tid : Type}

/-- The activation has an id of its own. -/
def asking (frame : Activation Invocation) : Bool :=
  match frame.operation with
  | .processTransport => false
  | _ => hasId frame.point
def askingIds (stack : List (Activation Invocation)) : List CallId := (stack.filter asking).map fun frame => frame.id

/-- A reply that entered is stored or was taken, by the one activation with its id. -/
structure Consumed (s : Endpoint Tid Invocation) : Prop where
  distinct : ∀ t, (askingIds (s.threads t)).Nodup
  unserved : ∀ t, ∀ frame ∈ s.threads t, asking frame = true → served frame.point = false →
    frame.id ∉ picked tookId s.events
  took_issued : ∀ id ∈ picked tookId s.events, id = c_invalid_id ∨ ∃ t operation, (t,operation,id) ∈ issues s.events
  entered : ∀ id ∈ replyIds (picked enteredPacket s.events),
    id ∈ picked tookId s.events ∨ s.pending.m_id_data_return id ≠ none
  handled : ∀ t, ∀ frame ∈ s.threads t, ∀ buffer, frame.point = .handling buffer → Incoming buffer ∨ Reply buffer
  waiting : ∀ t, ∀ frame ∈ s.threads t, frame.point = .waiting → frame.id ≠ c_invalid_id
  wrote : ∀ t, ∀ frame ∈ s.threads t, asking frame = true → frame.point ≠ .writing → frame.id ∈ picked wroteId s.events
/-- Nobody reads for what is there already. -/
def Looked (s : Endpoint Tid Invocation) : Prop :=
  ∀ t frame below, s.threads t = frame :: below → frame.point = .reading → s.pending.m_id_data_return frame.id = none ∧
    (frame.operation.processIncomingCalls = true → s.pending.m_data_incoming_call = [])

/-- The replies that came are of the types of the library. -/
def KnownReplies (s : Endpoint Tid Invocation) : Prop :=
  ∀ buffer, Came s.events buffer → Reply buffer → buffer.header.type < pt_count_not_a_type

theorem asking_iff {frame : Activation Invocation} :
    asking frame = true ↔ frame.operation ≠ .processTransport ∧ frame.point ≠ .newCallId := by
  have has_id : hasId frame.point = true ↔ frame.point ≠ .newCallId := by cases frame.point <;> simp [hasId]
  unfold asking
  cases frame.operation <;> simp [has_id]

theorem asking_cons {frame : Activation Invocation} (asks : asking frame = true) (stack : List (Activation Invocation)) :
    askingIds (frame :: stack) = frame.id :: askingIds stack := by
  simp [askingIds,asks]

theorem reply_returns {buffer : CallDataBuffer} (reply : Reply buffer) : buffer.header.type ≥ pt_return := by
  unfold Reply pt_call at reply
  unfold pt_return
  bv_omega

theorem quiet_cons {frame : Activation Invocation} (quiet : asking frame = false) (stack : List (Activation Invocation)) :
    askingIds (frame :: stack) = askingIds stack := by
  simp [askingIds,quiet]

theorem empty_consumed : Consumed ({} : Endpoint Tid Invocation) where
  distinct _ := List.nodup_nil
  unserved _ _ member := by cases member
  took_issued _ member := by cases member
  entered _ member := by cases member
  handled _ _ member := by cases member
  waiting _ _ member := by cases member
  wrote _ _ member := by cases member

theorem empty_looked : Looked ({} : Endpoint Tid Invocation) := fun _ _ _ running => by cases running

variable [DecidableEq Tid]

/-! ### What a step does -/

section move
variable {s : Endpoint Tid Invocation} {t : Tid} {frame : Activation Invocation} {below : List (Activation Invocation)}
variable {move : Move} {out : Advance Tid Invocation}

/-- An activation is not served after a step if it was not before, and did not take anything. -/
theorem moves_served (traced : Traced s) (known : KnownReplies s) (mine : frame ∈ s.threads t)
    (moved : Moves invocationInfo t s.pending frame move out) :
    ∀ next ∈ out.frames, served next.point = false → served frame.point = false ∧ out.events.filterMap tookId = [] := by
  intro next member unserved
  cases moved with
  | issues at_point => exact ⟨by simp [at_point,served],rfl⟩
  | @takesResponse q buffer begins found =>
    rw [List.mem_singleton.mp member] at unserved
    simp [served,Activation.at,(q.replies found).1] at unserved
  | takesCall begins | waits begins | locks begins => exact ⟨(begins_served begins).2.1,rfl⟩
  | busy | unsent | sendsOnly | reenters | answers | entersLast => cases member
  | @passes buffer at_point =>
    rw [List.mem_singleton.mp member] at unserved
    refine ⟨?_,rfl⟩
    by_contra is_served
    have reply : Reply buffer := by simpa [at_point,served] using is_served
    have brought := traced.frames t frame mine
    unfold Brought at brought
    rw [at_point] at brought
    obtain ⟨came,same⟩ := brought reply
    have precessed : responsePrecessed buffer frame.id = true :=
      decide_eq_true ⟨same,reply_returns reply,known buffer came reply⟩
    simp [served,Activation.at,precessed] at unserved
  | sends at_point | continues at_point | receives at_point | receivesNothing at_point | enters at_point =>
    exact ⟨by simp [at_point,served],rfl⟩

/-- Only an activation that has an id takes something, and with its own id. -/
theorem moves_took (moved : Moves invocationInfo t s.pending frame move out) : out.events.filterMap tookId = [] ∨
    (out.events.filterMap tookId = [frame.id] ∧ frame.point ≠ .newCallId ∧ served frame.point = false) := by
  cases moved with
  | takesResponse begins => exact .inr ⟨rfl,begins_left begins,(begins_served begins).2.1⟩
  | _ => exact .inl rfl

/-- A reply that enters is stored, and what is stored stays until it is taken. -/
theorem moves_stored (moved : Moves invocationInfo t s.pending frame move out) :
    (∀ id ∈ replyIds (out.events.filterMap enteredPacket), out.pending.m_id_data_return id ≠ none) ∧
      ∀ id, s.pending.m_id_data_return id ≠ none →
        out.pending.m_id_data_return id ≠ none ∨ id ∈ out.events.filterMap tookId := by
  have enters (buffer : CallDataBuffer) (process_incoming_calls : Bool) :
      (∀ id ∈ replyIds [buffer], (Pending.writeBuffer s.pending process_incoming_calls buffer).1.m_id_data_return id ≠ none) ∧
        ∀ id, s.pending.m_id_data_return id ≠ none →
          (Pending.writeBuffer s.pending process_incoming_calls buffer).1.m_id_data_return id ≠ none := by
    rw [writeBuffer_replies]
    constructor
    · intro id member
      by_cases reply : Reply buffer
      · rw [replyIds_reply reply,List.mem_singleton] at member
        subst member
        by_cases absent : s.pending.m_id_data_return buffer.header.id = none
        · rw [if_pos ⟨reply,absent⟩,Function.update_self]
          exact Option.some_ne_none _
        · rwa [if_neg (fun inserted => absent inserted.2)]
      · rw [replyIds_other reply] at member
        cases member
    · intro id present
      split
      · rename_i inserted
        by_cases same : id = buffer.header.id
        · exact absurd (same ▸ inserted.2) present
        · rwa [Function.update_of_ne same]
      · exact present
  have keeps (same : out.pending.m_id_data_return = s.pending.m_id_data_return)
      (nothing : out.events.filterMap enteredPacket = []) :
      (∀ id ∈ replyIds (out.events.filterMap enteredPacket), out.pending.m_id_data_return id ≠ none) ∧
        ∀ id, s.pending.m_id_data_return id ≠ none →
          out.pending.m_id_data_return id ≠ none ∨ id ∈ out.events.filterMap tookId := by
    rw [nothing,same]
    exact ⟨fun _ member => by (cases member),fun _ present => .inl present⟩
  cases moved with
  | issues at_point drawn => exact keeps (by rw [(newCallId_result drawn).2.2]) rfl
  | @takesResponse q buffer begins found =>
    refine ⟨fun _ member => by (cases member),fun id present => ?_⟩
    by_cases same : id = frame.id
    · exact .inr (same ▸ List.mem_cons_self)
    · refine .inl ?_
      show Function.update q.m_id_data_return frame.id none id ≠ none
      rw [Function.update_of_ne same,begins_replies begins]
      exact present
  | takesCall begins | waits begins | locks begins | busy begins => exact keeps (begins_replies begins :) rfl
  | @enters transport_ok buffer =>
    obtain ⟨new,old⟩ := enters buffer frame.operation.processIncomingCalls
    exact ⟨new,fun id present => .inl (old id present)⟩
  | @entersLast transport_ok buffer =>
    obtain ⟨new,old⟩ := enters buffer frame.operation.processIncomingCalls
    exact ⟨new,fun id present => .inl (old id present)⟩
  | _ => exact keeps rfl rfl

theorem moves_handled (moved : Moves invocationInfo t s.pending frame move out) :
    ∀ next ∈ out.frames, ∀ buffer, next.point = .handling buffer → Incoming buffer ∨ Reply buffer := by
  intro next member buffer at_point
  cases moved with
  | @takesResponse q taken begins found =>
    rw [List.mem_singleton.mp member] at at_point
    cases at_point
    exact .inr (q.replies found).1
  | @takesCall q taken rest begins absent allowed first =>
    rw [List.mem_singleton.mp member] at at_point
    cases at_point
    exact .inl (q.calls (first ▸ List.mem_cons_self))
  | issues | sends | waits | locks | passes | continues | receives | receivesNothing | enters =>
    rw [List.mem_singleton.mp member] at at_point
    cases at_point
  | unsent | sendsOnly | reenters | busy | answers | entersLast => cases member

/-- Nobody waits who only polls. -/
theorem moves_waiting (moved : Moves invocationInfo t s.pending frame move out) :
    ∀ next ∈ out.frames, next.point = .waiting → next.id ≠ c_invalid_id := by
  intro next member at_point
  cases moved with
  | waits begins absent empty locked waiting =>
    rw [List.mem_singleton.mp member]
    exact waiting
  | issues | sends | takesResponse | takesCall | locks | passes | continues | receives | receivesNothing | enters =>
    rw [List.mem_singleton.mp member] at at_point
    cases at_point
  | unsent | sendsOnly | reenters | busy | answers | entersLast => cases member

end move

/-! ### Every step -/

section consumed
variable {may : Operation Invocation → Prop} {s : Endpoint Tid Invocation} {t : Tid} {frame : Activation Invocation}
variable {below : List (Activation Invocation)} {move : Move} {out : Advance Tid Invocation}

omit [DecidableEq Tid] in
theorem asking_issued (numbered : Numbered may s) {u : Tid} {other : Activation Invocation} (member : other ∈ s.threads u)
    (asks : asking other = true) : (u,other.operation,other.id) ∈ issues s.events :=
  (numbered.placed u other member).issued (asking_iff.mp asks).1 (asking_iff.mp asks).2

omit [DecidableEq Tid] in
theorem mem_askingIds {stack : List (Activation Invocation)} {other : Activation Invocation} (member : other ∈ stack)
    (asks : asking other = true) : other.id ∈ askingIds stack :=
  List.mem_map.mpr ⟨other,List.mem_filter.mpr ⟨member,asks⟩,rfl⟩

section moves
variable (numbered : Numbered may s) (few : Few s.events) (consumed : Consumed s) (running : s.threads t = frame :: below)
variable (moved : Moves invocationInfo t s.pending frame move out) (goes : Goes s frame out)
include numbered few consumed running

omit [DecidableEq Tid] in
/-- Two activations that ask do not have the same id. -/
theorem other_asks (asks : asking frame = true) {u : Tid} {other : Activation Invocation} (member : other ∈ s.threads u)
    (elsewhere : u ≠ t ∨ other ∈ below) (other_asks : asking other = true) : other.id ≠ frame.id := by
  intro same
  have mine := asking_issued numbered (running ▸ List.mem_cons_self : frame ∈ s.threads t) asks
  have theirs := asking_issued numbered member other_asks
  rw [same] at theirs
  obtain ⟨rfl,_⟩ := numbered.owner few theirs mine
  have distinct := consumed.distinct u
  rw [running,asking_cons asks] at distinct
  exact (List.nodup_cons.mp distinct).1 (same ▸ mem_askingIds (elsewhere.resolve_left (fun other => other rfl)) other_asks)

include goes in
omit [DecidableEq Tid] consumed in
/-- The id that is drawn is new. -/
theorem drawn_next {id : CallId} (drawn : out.frames = [{ frame with id, point := .writing }])
    (at_point : frame.point = .newCallId) :
    id = s.pending.nextId ∧ frame.operation ≠ .processTransport ∧ s.pending.nextId ≠ c_invalid_id := by
  have placed := numbered.placed t frame (running ▸ List.mem_cons_self)
  have asks : frame.operation ≠ .processTransport := fun polls => (placed.polls polls).2.1 at_point
  cases goes with
  | issues _ =>
    have same := congrArg Activation.id (List.singleton_inj.mp drawn)
    refine ⟨same.symm,asks,?_⟩
    rw [numbered.next]
    exact idOf_nonzero few
  | sends other => rw [at_point] at other; cases other
  | sendsOnly other => rw [at_point] at other; cases other
  | goesOn past => exact absurd at_point past.1

include moved goes

theorem consumed_distinct (v : Tid) : (askingIds (Function.update s.threads t (out.frames ++ below) v)).Nodup := by
  have distinct := consumed.distinct v
  by_cases same : v = t
  · subst same
    rw [Function.update_self]
    rcases moves_stays moved with ⟨_,at_point,id,_,_,drawn⟩ | ⟨past,gone | ⟨point,next_past,goes_on⟩⟩
    · obtain ⟨rfl,asks,_⟩ := drawn_next numbered few running goes drawn at_point
      have quiet : asking frame = false := by
        rw [← Bool.not_eq_true,asking_iff]
        exact fun both => both.2 at_point
      rw [running,quiet_cons quiet] at distinct
      have new_asks : asking { frame with id := s.pending.nextId, point := .writing } = true :=
        asking_iff.mpr ⟨asks,fun other => by cases other⟩
      rw [drawn,List.singleton_append,asking_cons new_asks]
      refine List.nodup_cons.mpr ⟨fun member => ?_,distinct⟩
      obtain ⟨other,inner,same_id⟩ := List.mem_map.mp member
      obtain ⟨deeper,other_asks⟩ := List.mem_filter.mp inner
      have issued := asking_issued numbered (running ▸ List.mem_cons_of_mem _ deeper : other ∈ s.threads v) other_asks
      rw [same_id] at issued
      exact numbered.next_new few issued
    · rw [gone,List.nil_append]
      rw [running] at distinct
      exact distinct.sublist ((List.sublist_cons_self frame below).filter _ |>.map _)
    · have alike : asking (frame.at point) = asking frame := by
        rw [Bool.eq_iff_iff,asking_iff,asking_iff]
        exact and_congr_right fun _ => iff_of_true next_past past
      rw [goes_on,List.singleton_append]
      by_cases asks : asking frame = true
      · rw [running,asking_cons asks] at distinct
        rw [asking_cons (alike.trans asks)]
        exact distinct
      · rw [running,quiet_cons (Bool.not_eq_true _ ▸ asks)] at distinct
        rw [quiet_cons (alike.trans (Bool.not_eq_true _ ▸ asks))]
        exact distinct
  · rwa [Function.update_of_ne same]

theorem consumed_unserved (traced : Traced s) (known : KnownReplies s) (u : Tid) (other : Activation Invocation)
    (member : other ∈ Function.update s.threads t (out.frames ++ below) u) (asks : asking other = true)
    (unserved : served other.point = false) :
    other.id ∉ picked tookId s.events ++ out.events.filterMap tookId := by
  have mine : frame ∈ s.threads t := running ▸ List.mem_cons_self
  have untaken {id : CallId}
      (fresh : id ≠ c_invalid_id ∧ ∀ v operation, (v,operation,id) ∉ issues s.events) : id ∉ picked tookId s.events := by
    intro listed
    rcases consumed.took_issued id listed with zero | ⟨v,operation,issued⟩
    · exact fresh.1 zero
    · exact fresh.2 v operation issued
  rcases after_member running member with ⟨rfl,new⟩ | ⟨old,elsewhere⟩
  · obtain ⟨was_unserved,took⟩ := moves_served traced known mine moved other new unserved
    rw [took,List.append_nil]
    rcases moves_stays moved with ⟨_,at_point,id,_,_,drawn⟩ | ⟨past,gone | ⟨point,_,goes_on⟩⟩
    · obtain ⟨rfl,_,nonzero⟩ := drawn_next numbered few running goes drawn at_point
      rw [drawn] at new
      rw [List.mem_singleton.mp new]
      exact untaken ⟨nonzero,fun _ _ => numbered.next_new few⟩
    · rw [gone] at new
      cases new
    · rw [goes_on] at new
      obtain rfl := List.mem_singleton.mp new
      exact consumed.unserved u frame mine (asking_iff.mpr ⟨(asking_iff.mp asks).1,past⟩) was_unserved
  · have before := consumed.unserved u other old asks unserved
    rcases moves_took moved with none | ⟨one,past,_⟩
    · rwa [none,List.append_nil]
    · have different : other.id ≠ frame.id := by
        by_cases frame_asks : asking frame = true
        · exact other_asks numbered few consumed running frame_asks old elsewhere asks
        · have polls : frame.operation = .processTransport := by
            by_contra not_polls
            exact frame_asks (asking_iff.mpr ⟨not_polls,past⟩)
          rw [((numbered.placed t frame mine).polls polls).1]
          exact numbered.nonzero few (asking_issued numbered old asks)
      simp [one,before,different]

/-- A step of an activation keeps the replies where they are. -/
theorem moves_consumed (traced : Traced s) (known : KnownReplies s) :
    Consumed {
      pending := out.pending
      threads := Function.update s.threads t (out.frames ++ below)
      events := s.events ++ out.events.map (t,·) } where
  distinct := consumed_distinct numbered few consumed running moved goes
  unserved u other member asks unserved := by
    rw [picked_append]
    exact consumed_unserved numbered few consumed running moved goes traced known u other member asks unserved
  took_issued id member := by
    rw [picked_append] at member
    rcases List.mem_append.mp member with old | new
    · exact (consumed.took_issued id old).imp_right fun ⟨v,operation,issued⟩ => ⟨v,operation,said_mono issued t _⟩
    · rcases moves_took moved with none | ⟨one,past,_⟩
      · rw [none] at new
        cases new
      · rw [one] at new
        rw [List.mem_singleton.mp new]
        have placed := numbered.placed t frame (running ▸ List.mem_cons_self)
        by_cases polls : frame.operation = .processTransport
        · exact .inl (placed.polls polls).1
        · exact .inr ⟨t,_,said_mono (placed.issued polls past) t _⟩
  entered id member := by
    obtain ⟨new,old⟩ := moves_stored moved
    rw [picked_append,replyIds_append] at member
    rw [picked_append]
    rcases List.mem_append.mp member with before | after
    · rcases consumed.entered id before with taken | stored
      · exact .inl (List.mem_append_left _ taken)
      · rcases old id stored with still | taken
        · exact .inr still
        · exact .inl (List.mem_append_right _ taken)
    · exact .inr (new id after)
  handled u other member := by
    rcases after_member running member with ⟨rfl,new⟩ | ⟨old,_⟩
    · exact moves_handled moved other new
    · exact consumed.handled u other old
  waiting u other member := by
    rcases after_member running member with ⟨rfl,new⟩ | ⟨old,_⟩
    · exact moves_waiting moved other new
    · exact consumed.waiting u other old
  wrote u other member asks past := by
    rw [picked_append]
    rcases after_member running member with ⟨rfl,new⟩ | ⟨old,_⟩
    · rcases moves_stays moved with ⟨_,_,_,_,_,drawn⟩ | ⟨frame_past,gone | ⟨point,_,goes_on⟩⟩
      · rw [drawn] at new
        exact absurd (congrArg Activation.point (List.mem_singleton.mp new)) past
      · rw [gone] at new
        cases new
      · rw [goes_on] at new
        obtain rfl := List.mem_singleton.mp new
        rcases goes_wroteId goes with ⟨_,wrote,_⟩ | ⟨none,_⟩
        · rw [wrote]
          exact List.mem_append_right _ List.mem_cons_self
        · by_cases writing : frame.point = .writing
          · cases goes with
            | issues at_point => exact absurd at_point frame_past
            | sends => exact absurd none (List.cons_ne_nil _ _)
            | sendsOnly => exact absurd none (List.cons_ne_nil _ _)
            | goesOn beyond => exact absurd writing beyond.2
          · exact List.mem_append_left _ (consumed.wrote u frame (running ▸ List.mem_cons_self)
              (asking_iff.mpr ⟨(asking_iff.mp asks).1,frame_past⟩) writing)
    · exact List.mem_append_left _ (consumed.wrote u other old asks past)

end moves

theorem start_consumed (consumed : Consumed s) (operation : Operation Invocation) :
    Consumed { s with threads := Function.update s.threads t (enter operation :: s.threads t) } := by
  have quiet : asking (enter operation) = false := by cases operation <;> rfl
  have running {u : Tid} {other : Activation Invocation}
      (member : other ∈ Function.update s.threads t (enter operation :: s.threads t) u) :
      other = enter operation ∨ other ∈ s.threads u := by
    by_cases same : u = t
    · subst same
      rw [Function.update_self] at member
      exact List.mem_cons.mp member
    · rw [Function.update_of_ne same] at member
      exact .inr member
  have asked {u : Tid} {other : Activation Invocation}
      (member : other ∈ Function.update s.threads t (enter operation :: s.threads t) u) (asks : asking other = true) :
      other ∈ s.threads u := by
    rcases running member with rfl | old
    · rw [quiet] at asks
      cases asks
    · exact old
  exact {
    consumed with
    distinct := fun u => by
      dsimp only
      by_cases same : u = t
      · subst same
        rw [Function.update_self,quiet_cons quiet]
        exact consumed.distinct u
      · rw [Function.update_of_ne same]
        exact consumed.distinct u
    unserved := fun u other member asks => consumed.unserved u other (asked member asks) asks
    handled := fun u other member buffer at_point => by
      rcases running member with rfl | old
      · cases operation <;> cases at_point
      · exact consumed.handled u other old buffer at_point
    waiting := fun u other member at_point => by
      rcases running member with rfl | old
      · cases operation <;> cases at_point
      · exact consumed.waiting u other old at_point
    wrote := fun u other member asks => consumed.wrote u other (asked member asks) asks }

end consumed

/-! ### Nobody reads for what is there -/

section looked
variable {κ : Type} {s s' : Endpoint Tid Invocation} {t : Tid}

omit [DecidableEq Tid] in
/-- Who reads from the transport found nothing before. -/
theorem round_looked (q : PendingResponces Tid) (frame : Activation κ) (t : Tid) :
    ∀ next ∈ (frame.round q t).frames, next.point = .reading →
      next = frame.at .reading ∧ (frame.round q t).pending.m_id_data_return frame.id = none ∧
        (frame.operation.processIncomingCalls = true → (frame.round q t).pending.m_data_incoming_call = []) := by
  have ends := readBuffer_ends q t frame.id frame.operation.processIncomingCalls
  unfold Activation.round
  revert ends
  generalize readBuffer q t frame.id frame.operation.processIncomingCalls = section_end
  obtain ⟨p',round⟩ := section_end
  intro ends next member at_point
  cases ends with
  | response found =>
    simp only [Round.buffer,branch_defined frame (q.replies found).1.defined,List.mem_singleton] at member
    rw [member] at at_point
    cases at_point
  | call absent allowed first =>
    simp only [Round.buffer,branch_defined frame (q.calls (first ▸ List.mem_cons_self)).defined,List.mem_singleton] at member
    rw [member] at at_point
    cases at_point
  | waits =>
    rw [List.mem_singleton.mp member] at at_point
    cases at_point
  | busy => cases member
  | transport absent empty unlocked =>
    simp only [Round.buffer,branch_default,List.mem_singleton] at member
    exact ⟨member,absent,empty⟩

theorem advance_looked {frame : Activation Invocation} {move : Move} {out : Advance Tid Invocation}
    (advanced : advance invocationInfo t s.pending frame move = some out) :
    ∀ next ∈ out.frames, next.point = .reading → out.pending.m_id_data_return next.id = none ∧
      (next.operation.processIncomingCalls = true → out.pending.m_data_incoming_call = []) := by
  intro next member at_point
  have found {q : PendingResponces Tid} (round : out = frame.round q t) :
      out.pending.m_id_data_return next.id = none ∧
        (next.operation.processIncomingCalls = true → out.pending.m_data_incoming_call = []) := by
    subst round
    obtain ⟨rfl,absent,empty⟩ := round_looked q frame t next member at_point
    exact ⟨absent,empty⟩
  cases advance_moves advanced with
  | locks begins =>
    cases begins with
    | fresh here elsewhere =>
      simp only [advance,here,LockCurrentThreadId.isCurrent,elsewhere,decide_false] at advanced
      exact found (Option.some.inj advanced).symm
    | woken here =>
      simp only [advance,here] at advanced
      exact found (Option.some.inj advanced).symm
  | issues | sends | takesResponse | takesCall | waits | passes | continues | receives | receivesNothing | enters =>
    rw [List.mem_singleton.mp member] at at_point
    cases at_point
  | unsent | sendsOnly | reenters | busy | answers | entersLast => cases member

/-- Only the reader brings something in. -/
theorem moves_brings {frame : Activation Invocation} {move : Move} {out : Advance Tid Invocation}
    (moved : Moves invocationInfo t s.pending frame move out) (idle : frame.point.holds = false) :
    (∀ id, s.pending.m_id_data_return id = none → out.pending.m_id_data_return id = none) ∧
      (s.pending.m_data_incoming_call = [] → out.pending.m_data_incoming_call = []) := by
  cases moved with
  | issues at_point drawn =>
    rw [(newCallId_result drawn).2.2]
    exact ⟨fun _ absent => absent,fun empty => empty⟩
  | takesResponse begins =>
    exact ⟨fun id absent => eraseReply_none _ _ (begins_replies begins ▸ absent),fun empty => begins_calls begins ▸ empty⟩
  | takesCall begins absent allowed first =>
    refine ⟨fun id none => (begins_replies begins ▸ none :),fun empty => ?_⟩
    rw [begins_calls begins,empty] at first
    cases first
  | waits begins | busy begins | locks begins =>
    exact ⟨fun id none => (begins_replies begins ▸ none :),fun empty => (begins_calls begins ▸ empty :)⟩
  | enters at_point | entersLast at_point => simp [at_point,Point.holds] at idle
  | _ => exact ⟨fun _ absent => absent,fun empty => empty⟩

theorem step_looked {may : Operation Invocation → Prop} (owned : Owned s) (numbered : Numbered may s) (looked : Looked s)
    {action : Action Invocation} (stepped : Endpoints.step invocationInfo s (t,action) = some s') : Looked s' := by
  intro v top deeper running' at_point
  cases action with
  | start operation =>
    cases step_steps stepped with
    | starts =>
      dsimp only at running'
      by_cases same : v = t
      · subst same
        rw [Function.update_self] at running'
        cases running'
        cases operation <;> cases at_point
      · rw [Function.update_of_ne same] at running'
        exact looked v top deeper running' at_point
  | move move =>
    cases running : s.threads t with
    | nil => simp [Endpoints.step,running] at stepped
    | cons frame below =>
      simp only [Endpoints.step,running] at stepped
      obtain ⟨out,advanced,rfl⟩ := Option.map_eq_some_iff.mp stepped
      dsimp only at running' ⊢
      by_cases same : v = t
      · subst same
        rw [Function.update_self] at running'
        have member : top ∈ out.frames ++ below := running' ▸ List.mem_cons_self
        rcases List.mem_append.mp member with new | old
        · exact advance_looked advanced top new at_point
        · obtain ⟨precessed,result,inside⟩ := numbered.inner v top (by rw [running]; exact old)
          rw [at_point] at inside
          cases inside
      · rw [Function.update_of_ne same] at running'
        have locked : s.pending.m_thread_waiting_transport.m_locked_id = some v :=
          (owned.owner v).mpr (by simp [running',at_point,Point.holds])
        have idle : frame.point.holds = false := by
          rw [← Bool.not_eq_true]
          intro inside
          have mine := (owned.owner t).mpr (by simp [running,inside])
          rw [locked] at mine
          exact same (Option.some.inj mine)
        obtain ⟨absent,empty⟩ := looked v top deeper running' at_point
        obtain ⟨none,nothing⟩ := moves_brings (advance_moves advanced) idle
        exact ⟨none _ absent,fun allowed => nothing (empty allowed)⟩

end looked

end IpcPortable.ReplyStages
