import Mathlib.Data.List.Nodup
import IpcPortable.Peers

/-!
Calls and their responses. An id is drawn once, and everything that is under
way with an id comes from the call that drew it: the packet of the call, the
answer of the peer, and the response where it is read, stored and taken.
-/
namespace IpcPortable.Matching
open IpcPortable.Runs IpcPortable.LittleEndian IpcPortable.DataStream IpcPortable.Values IpcPortable.Packets
open IpcPortable.Calls IpcPortable.Replies IpcPortable.Pending IpcPortable.Endpoints IpcPortable.EndpointMoves
open IpcPortable.HandOver IpcPortable.CallQueue IpcPortable.Peers
variable {Tid : Type}

def issue : Event Invocation → Option (Operation Invocation × CallId)
  | .issued operation id => some (operation,id)
  | _ => none
/-- The ids that were drawn, by which thread and for what. -/
abbrev issues (events : List (Tid × Event Invocation)) : List (Tid × Operation Invocation × CallId) := said issue events
/-- The id that the counter gives after `n` others. -/
def idOf (n : Nat) : CallId := BitVec.ofNat 32 (n + 1)

/-- A reply that answers the call of its id. -/
def Genuine (f : Handlers) (events : List (Tid × Event Invocation)) (buffer : CallDataBuffer) : Prop :=
  ∃ t call process_incoming_calls, (t,.waitInvoke call process_incoming_calls,buffer.header.id) ∈ issues events ∧
    buffer.header.type = pt_return ∧ DataStream.Reads buffer.data (encode call.ret (call.value f))
/-- The stream holds the value that the operation is for. -/
def Serves (f : Handlers) (operation : Operation Invocation) (result : DataStream) : Prop :=
  ∃ call process_incoming_calls, operation = .waitInvoke call process_incoming_calls ∧
    DataStream.Reads result (encode call.ret (call.value f))
/-- What an activation has in its hands is what it should be. -/
def Carrying (f : Handlers) (events : List (Tid × Event Invocation)) (frame : Activation Invocation) : Prop :=
  match frame.point with
  | .handling buffer => Reply buffer → Genuine f events buffer ∧ buffer.header.id = frame.id
  | .processing true result => Serves f frame.operation result
  | .writeBuffer transport_ok buffer => transport_ok = true ∧ (Reply buffer → Genuine f events buffer)
  | _ => True
structure Running (f : Handlers) (events : List (Tid × Event Invocation)) (t : Tid) (frame : Activation Invocation) :
    Prop where
  call : ∃ call process_incoming_calls, frame.operation = .waitInvoke call process_incoming_calls
  issued : frame.point ≠ .newCallId → (t,frame.operation,frame.id) ∈ issues events
  carrying : Carrying f events frame
/-- A packet from the peer: one of its own, or the answer to a call. -/
def Arrives (f : Handlers) (events : List (Tid × Event Invocation)) (packet : Data) : Prop :=
  (∃ no_header_size pt id body, packet.bytes = encodeHeader no_header_size pt id ++ body ∧
    (pt = pt_enumerate ∨ pt = pt_call)) ∨
  ∃ t call process_incoming_calls id, (t,.waitInvoke call process_incoming_calls,id) ∈ issues events ∧
    packet.bytes = packetOf pt_return id (encode call.ret (call.value f))

structure Sound (f : Handlers) (w : World Tid) : Prop where
  inner : ∀ t, ∀ frame ∈ (w.endpoint.threads t).tail, ∃ precessed result, frame.point = .processing precessed result
  next : w.endpoint.pending.nextId = idOf (issues w.endpoint.events).length
  ids : (issues w.endpoint.events).map (fun entry => entry.2.2) =
    (List.range (issues w.endpoint.events).length).map idOf
  running : ∀ t, ∀ frame ∈ w.endpoint.threads t, Running f w.endpoint.events t frame
  replies : ∀ id buffer, w.endpoint.pending.m_id_data_return id = some buffer → Genuine f w.endpoint.events buffer
  outgoing : ∀ letter ∈ w.outgoing, Carries letter.packet letter.id letter.call ∧
    ∃ t process_incoming_calls, (t,.waitInvoke letter.call process_incoming_calls,letter.id) ∈ issues w.endpoint.events
  arriving : ∀ packet ∈ w.arriving, Arrives f w.endpoint.events packet
  returned : ∀ t operation id result, (t,.returned operation id result) ∈ w.endpoint.events → Serves f operation result
/-- So few ids were drawn that the counter did not begin anew. -/
def Few (events : List (Tid × Event Invocation)) : Prop := (issues events).length < 2^32 - 1

/-! ### Ids -/

theorem idOf_injective {m n : Nat} (small_m : m < 2^32 - 1) (small_n : n < 2^32 - 1) (same : idOf m = idOf n) : m = n := by
  have values := congrArg BitVec.toNat same
  simp only [idOf,BitVec.toNat_ofNat] at values
  omega

theorem idOf_nonzero {n : Nat} (small : n < 2^32 - 1) : idOf n ≠ c_invalid_id := by
  intro same
  have values := congrArg BitVec.toNat same
  simp only [idOf,c_invalid_id,BitVec.toNat_ofNat,BitVec.ofNat_eq_ofNat] at values
  omega

theorem few_before {events : List (Tid × Event Invocation)} {i : Tid} {happened : List (Event Invocation)}
    (few : Few (events ++ happened.map (i,·))) : Few events := by
  unfold Few issues at few ⊢
  rw [said_append,List.length_append] at few
  omega

theorem idOf_succ (n : Nat) : idOf n + 1 = idOf (n + 1) := by
  simp [idOf,BitVec.ofNat_add]

theorem nextId_nonzero_of {p : PendingResponces Tid} {id : CallId} (counter : p.m_incremental_id = id)
    (nonzero : id ≠ c_invalid_id) : p.nextId = id := by
  rw [PendingResponces.nextId,counter,if_neg nonzero]

theorem nextId_congr {p p' : PendingResponces Tid} (counter : p'.m_incremental_id = p.m_incremental_id) :
    p'.nextId = p.nextId := by
  rw [PendingResponces.nextId,PendingResponces.nextId,counter]

theorem issues_idOf {events : List (Tid × Event Invocation)}
    (ids : (issues events).map (fun entry => entry.2.2) = (List.range (issues events).length).map idOf)
    {t : Tid} {operation : Operation Invocation} {id : CallId} (member : (t,operation,id) ∈ issues events) :
    ∃ n < (issues events).length, id = idOf n := by
  have listed : id ∈ (issues events).map (fun entry => entry.2.2) := List.mem_map.mpr ⟨_,member,rfl⟩
  rw [ids] at listed
  obtain ⟨n,below,same⟩ := List.mem_map.mp listed
  exact ⟨n,List.mem_range.mp below,same.symm⟩

theorem issues_nodup {events : List (Tid × Event Invocation)} (few : Few events)
    (ids : (issues events).map (fun entry => entry.2.2) = (List.range (issues events).length).map idOf) :
    ((issues events).map (fun entry => entry.2.2)).Nodup := by
  rw [ids]
  refine List.Nodup.map_on ?_ List.nodup_range
  intro m below_m n below_n same
  exact idOf_injective (Nat.lt_trans (List.mem_range.mp below_m) few) (Nat.lt_trans (List.mem_range.mp below_n) few) same

section sound
variable {f : Handlers} {w : World Tid}

theorem Sound.nonzero (sound : Sound f w) (few : Few w.endpoint.events) {t : Tid} {operation : Operation Invocation}
    {id : CallId} (member : (t,operation,id) ∈ issues w.endpoint.events) : id ≠ c_invalid_id := by
  obtain ⟨n,below,rfl⟩ := issues_idOf sound.ids member
  exact idOf_nonzero (Nat.lt_trans below few)

/-- An id belongs to one operation of one thread. -/
theorem Sound.owner (sound : Sound f w) (few : Few w.endpoint.events) {t u : Tid} {one other : Operation Invocation}
    {id : CallId} (first : (t,one,id) ∈ issues w.endpoint.events) (second : (u,other,id) ∈ issues w.endpoint.events) :
    t = u ∧ one = other := by
  have same := List.inj_on_of_nodup_map (issues_nodup few sound.ids) first second rfl
  cases same
  exact ⟨rfl,rfl⟩

/-- The next id is new. -/
theorem Sound.next_new (sound : Sound f w) (few : Few w.endpoint.events) {t : Tid} {operation : Operation Invocation} :
    (t,operation,w.endpoint.pending.nextId) ∉ issues w.endpoint.events := by
  intro issued
  obtain ⟨n,below,same⟩ := issues_idOf sound.ids issued
  rw [sound.next] at same
  have counted := idOf_injective few (Nat.lt_trans below few) same
  omega

theorem Sound.next_free (sound : Sound f w) (few : Few w.endpoint.events) :
    w.endpoint.pending.m_id_data_return w.endpoint.pending.nextId = none := by
  cases found : w.endpoint.pending.m_id_data_return w.endpoint.pending.nextId with
  | none => rfl
  | some buffer =>
    obtain ⟨t,call,process_incoming_calls,issued,_⟩ := sound.replies _ _ found
    rw [(w.endpoint.pending.replies found).2] at issued
    exact absurd issued (sound.next_new few)

end sound

/-! ### Steps of an activation -/

theorem arrives_genuine {f : Handlers} {events : List (Tid × Event Invocation)} {packet : Data} (arrives : Arrives f events packet)
    (type_raw : BitVec 32) (reply : Reply (receiveCallDataBuffer type_raw packet)) :
    Genuine f events (receiveCallDataBuffer type_raw packet) := by
  rcases arrives with ⟨no_header_size,pt,id,body,bytes,own⟩ | ⟨t,call,process_incoming_calls,id,issued,bytes⟩
  · obtain ⟨header,_⟩ := receiveCallDataBuffer_reads type_raw bytes
    unfold Reply at reply
    rw [header] at reply
    rcases own with rfl | rfl
    · exact absurd reply (by simp [pt_call,pt_enumerate])
    · exact absurd reply (by simp [pt_call])
  · obtain ⟨type,same,reads⟩ := reply_received type_raw bytes
    exact ⟨t,call,process_incoming_calls,same ▸ issued,type,reads⟩

theorem genuine_precessed {f : Handlers} {events : List (Tid × Event Invocation)} {buffer : CallDataBuffer}
    (genuine : Genuine f events buffer) :
    responsePrecessed buffer buffer.header.id = true ∧ processBufferResult buffer = buffer.data := by
  obtain ⟨_,_,_,_,type,_⟩ := genuine
  constructor
  · simp [responsePrecessed,type,pt_return,pt_count_not_a_type]
  · simp [processBufferResult,type]

theorem call_not_precessed {buffer : CallDataBuffer} (call : ¬ Reply buffer) (id : CallId) :
    responsePrecessed buffer id = false := by
  have low : ¬ buffer.header.type ≥ pt_return := by
    unfold Reply pt_call at call
    unfold pt_return
    bv_omega
  simp [responsePrecessed,low]

theorem Genuine.mono {f : Handlers} {events : List (Tid × Event Invocation)} {buffer : CallDataBuffer} (genuine : Genuine f events buffer) (i : Tid)
    (happened : List (Event Invocation)) : Genuine f (events ++ happened.map (i,·)) buffer := by
  obtain ⟨t,call,process_incoming_calls,issued,rest⟩ := genuine
  exact ⟨t,call,process_incoming_calls,said_mono issued i happened,rest⟩

theorem Arrives.mono {f : Handlers} {events : List (Tid × Event Invocation)} {packet : Data} (arrives : Arrives f events packet)
    (i : Tid) (happened : List (Event Invocation)) : Arrives f (events ++ happened.map (i,·)) packet := by
  refine arrives.imp_right ?_
  rintro ⟨t,call,process_incoming_calls,id,issued,bytes⟩
  exact ⟨t,call,process_incoming_calls,id,said_mono issued i happened,bytes⟩

theorem Running.mono {f : Handlers} {events : List (Tid × Event Invocation)} {u : Tid} {other : Activation Invocation} (running : Running f events u other) (i : Tid)
    (happened : List (Event Invocation)) : Running f (events ++ happened.map (i,·)) u other where
  call := running.call
  issued past := said_mono (running.issued past) i happened
  carrying := by
    have carrying := running.carrying
    unfold Carrying at carrying ⊢
    split at carrying
    · exact fun reply => ⟨(carrying reply).1.mono i happened,(carrying reply).2⟩
    · exact carrying
    · exact ⟨carrying.1,fun reply => (carrying.2 reply).mono i happened⟩
    · trivial

variable [DecidableEq Tid]

/-- What the reliable transport does. -/
def Reliable (f : Handlers) (transport : TransportShare) (events : List (Tid × Event Invocation)) : Move → Prop
  | .proceed => True
  | .write created alive => created = some transport ∧ alive = true
  | .read transport_ok packet _ => transport_ok = true ∧ ∀ arrived, packet = some arrived → Arrives f events arrived

/-- The ways a step can go when the peer and the transport keep to the rules. -/
inductive Goes (f : Handlers) (events : List (Tid × Event Invocation)) (t : Tid) (p : PendingResponces Tid)
    (frame : Activation Invocation) : Advance Tid Invocation → Prop
  | issues (at_point : frame.point = .newCallId) :
    Goes f events t p frame ⟨{ p with m_incremental_id := p.nextId + 1 },[{ frame with id := p.nextId, point := .writing }],
      [.issued frame.operation p.nextId]⟩
  | sends {packet : Data} {call : Invocation} {process_incoming_calls : Bool} (at_point : frame.point = .writing)
    (operation : frame.operation = .waitInvoke call process_incoming_calls) (carries : Carries packet frame.id call) :
    Goes f events t p frame ⟨p,[frame.at .readBuffer],[.wrote frame.operation frame.id packet]⟩
  | takesResponse {q : PendingResponces Tid} {buffer : CallDataBuffer} (begins : Begins t p frame q)
    (found : q.m_id_data_return frame.id = some buffer) (genuine : Genuine f events buffer) :
    Goes f events t p frame
      ⟨q.eraseReply frame.id,[frame.at (.handling buffer)],[.tookResponse frame.id buffer]⟩
  | takesCall {q : PendingResponces Tid} {buffer : CallDataBuffer} {rest : List CallDataBuffer}
    (begins : Begins t p frame q) (first : q.m_data_incoming_call = buffer :: rest) :
    Goes f events t p frame ⟨q.popCall,[frame.at (.handling buffer)],[.tookCall buffer]⟩
  | waits {q : PendingResponces Tid} (begins : Begins t p frame q) :
    Goes f events t p frame ⟨q.wait t,[frame.at .waiting],[]⟩
  | locks {q : PendingResponces Tid} (begins : Begins t p frame q) :
    Goes f events t p frame
      ⟨{ q with m_thread_waiting_transport := { m_locked_id := some t } },[frame.at .reading],[]⟩
  | passesReply {buffer : CallDataBuffer} (at_point : frame.point = .handling buffer) (reply : Reply buffer)
    (serves : Serves f frame.operation buffer.data) :
    Goes f events t p frame ⟨p,[frame.at (.processing true buffer.data)],[.passed buffer]⟩
  | passesCall {buffer : CallDataBuffer} {result : DataStream} (at_point : frame.point = .handling buffer)
    (call : ¬ Reply buffer) :
    Goes f events t p frame ⟨p,[frame.at (.processing false result)],[.passed buffer]⟩
  | answers {result : DataStream} (at_point : frame.point = .processing true result)
    (serves : Serves f frame.operation result) :
    Goes f events t p frame ⟨p,[],frame.leave .response result⟩
  | continues {result : DataStream} (at_point : frame.point = .processing false result) :
    Goes f events t p frame ⟨p,[frame.at .readBuffer],[]⟩
  | receives {buffer : CallDataBuffer} (at_point : frame.point = .reading) (genuine : Reply buffer → Genuine f events buffer) :
    Goes f events t p frame ⟨p,[frame.at (.writeBuffer true buffer)],[.received buffer]⟩
  | enters {buffer : CallDataBuffer} (at_point : frame.point = .writeBuffer true buffer)
    (genuine : Reply buffer → Genuine f events buffer) :
    Goes f events t p frame
      ⟨(Pending.writeBuffer p frame.operation.processIncomingCalls buffer).1,[frame.at .readBuffer],[.entered buffer]⟩

theorem moves_goes {f : Handlers} {transport : TransportShare} (creates : Creates transport) {w : World Tid}
    (sound : Sound f w) (owned : Owned w.endpoint) (few : Few w.endpoint.events) {t : Tid} {frame : Activation Invocation}
    {below : List (Activation Invocation)} {move : Move} {out : Advance Tid Invocation}
    (running : w.endpoint.threads t = frame :: below) (reliable : Reliable f transport w.endpoint.events move)
    (moved : Moves invocationInfo t w.endpoint.pending frame move out) :
    Goes f w.endpoint.events t w.endpoint.pending frame out := by
  have sane : Running f w.endpoint.events t frame := sound.running t frame (running ▸ List.mem_cons_self)
  obtain ⟨call,process_incoming_calls,operation⟩ := sane.call
  have drawn (past : frame.point ≠ .newCallId) : frame.id ≠ c_invalid_id := sound.nonzero few (sane.issued past)
  have carrying := sane.carrying
  unfold Carrying at carrying
  cases moved with
  | issues at_point drawn =>
    rw [newCallId_next (sound.next_free few)] at drawn
    cases drawn
    exact .issues at_point
  | @unsent created alive at_point failed =>
    obtain ⟨rfl,rfl⟩ := reliable
    obtain ⟨packet,written,_⟩ := invocationInfo_carries creates call (drawn (by simp [at_point]))
    simp [operation,Operation.stream,written] at failed
  | @sends created alive packet at_point written =>
    obtain ⟨rfl,rfl⟩ := reliable
    obtain ⟨built,filled,carries⟩ := invocationInfo_carries creates call (drawn (by simp [at_point]))
    rw [operation,Operation.stream,filled] at written
    cases written
    exact .sends at_point operation carries
  | sendsOnly at_point written leaves =>
    rw [operation] at leaves
    cases leaves
  | reenters at_point current =>
    have held := (owned.owner t).mp current
    rw [running,holds_cons] at held
    rcases held with inside | ⟨other,member,inside⟩
    · simp [at_point,Point.holds] at inside
    · obtain ⟨precessed,result,nested⟩ := sound.inner t other (by simpa [running] using member)
      simp [nested,Point.holds] at inside
  | @takesResponse q buffer begins found =>
    rw [begins_replies begins] at found
    exact .takesResponse begins (begins_replies begins ▸ found) (sound.replies _ _ found)
  | takesCall begins _ _ first => exact .takesCall begins first
  | waits begins => exact .waits begins
  | busy begins _ polling => exact absurd polling (drawn (begins_left begins))
  | locks begins => exact .locks begins
  | @passes buffer at_point =>
    rw [at_point] at carrying
    by_cases reply : Reply buffer
    · obtain ⟨genuine,own⟩ := carrying reply
      obtain ⟨precessed,answered⟩ := genuine_precessed genuine
      obtain ⟨u,other,_,issued,_,reads⟩ := genuine
      rw [own] at precessed issued
      obtain ⟨_,same⟩ := sound.owner few (sane.issued (by simp [at_point])) issued
      rw [precessed,answered]
      exact .passesReply at_point reply ⟨other,_,same,reads⟩
    · rw [call_not_precessed reply]
      exact .passesCall at_point reply
  | answers at_point =>
    rw [at_point] at carrying
    exact .answers at_point carrying
  | continues at_point => exact .continues at_point
  | @receives transport_ok packet type_raw at_point =>
    obtain ⟨rfl,arrived⟩ := reliable
    exact .receives at_point (arrives_genuine (arrived packet rfl) type_raw)
  | receivesNothing at_point =>
    obtain ⟨rfl,_⟩ := reliable
    exact .receives at_point fun reply => absurd reply default_not_reply
  | @enters transport_ok buffer at_point =>
    rw [at_point] at carrying
    obtain ⟨rfl,genuine⟩ := carrying
    exact .enters at_point genuine
  | entersLast at_point reason =>
    rw [at_point] at carrying
    rcases reason with ⟨failed,_⟩ | ⟨polling,_⟩
    · simp [failed] at carrying
    · exact absurd polling (drawn (by simp [at_point]))

section goes
variable {f : Handlers} {events : List (Tid × Event Invocation)} {t : Tid} {p : PendingResponces Tid}
variable {frame : Activation Invocation} {out : Advance Tid Invocation}

/-- A step draws the next id, or leaves the counter as it is. -/
theorem goes_counter (goes : Goes f events t p frame out) :
    (out.events.filterMap issue = [(frame.operation,p.nextId)] ∧ out.pending.m_incremental_id = p.nextId + 1) ∨
      (out.events.filterMap issue = [] ∧ out.pending.m_incremental_id = p.m_incremental_id) := by
  cases goes with
  | issues => exact .inl ⟨rfl,rfl⟩
  | takesResponse begins => exact .inr ⟨rfl,(begins_counter begins :)⟩
  | takesCall begins => exact .inr ⟨rfl,(begins_counter begins :)⟩
  | waits begins => exact .inr ⟨rfl,(begins_counter begins :)⟩
  | locks begins => exact .inr ⟨rfl,(begins_counter begins :)⟩
  | enters => exact .inr ⟨rfl,writeBuffer_counter _ _ frame.operation.processIncomingCalls⟩
  | _ => exact .inr ⟨rfl,rfl⟩

theorem goes_replies (goes : Goes f events t p frame out)
    (before : ∀ id buffer, p.m_id_data_return id = some buffer → Genuine f events buffer) (id : CallId)
    (buffer : CallDataBuffer) (found : out.pending.m_id_data_return id = some buffer) : Genuine f events buffer := by
  have began {q : PendingResponces Tid} (begins : Begins t p frame q) (found : q.m_id_data_return id = some buffer) :
      Genuine f events buffer := before id buffer (begins_replies begins ▸ found)
  cases goes with
  | @takesResponse q taken begins =>
    refine began begins ?_
    by_cases same : id = frame.id
    · rw [same,eraseReply_id] at found
      cases found
    · exact (Function.update_of_ne same ..).symm.trans found
  | takesCall begins => exact began begins found
  | waits begins => exact began begins found
  | locks begins => exact began begins found
  | @enters entered at_point genuine =>
    rw [writeBuffer_replies] at found
    split at found
    · rename_i inserted
      by_cases same : id = entered.header.id
      · subst same
        rw [Function.update_self] at found
        cases found
        exact genuine inserted.1
      · rw [Function.update_of_ne same] at found
        exact before id buffer found
    · exact before id buffer found
  | _ => exact before id buffer found

/-- The activation goes on as it should. -/
theorem goes_running (goes : Goes f events t p frame out) (running : Running f events t frame) :
    ∀ next ∈ out.frames, Running f (events ++ out.events.map (t,·)) t next := by
  intro next member
  have goes_on {point : Point} (past : frame.point ≠ .newCallId)
      (carrying : Carrying f (events ++ out.events.map (t,·)) (frame.at point)) :
      Running f (events ++ out.events.map (t,·)) t (frame.at point) :=
    ⟨running.call,fun _ => said_mono (running.issued past) t out.events,carrying⟩
  cases goes with
  | issues =>
    obtain rfl := List.mem_singleton.mp member
    refine ⟨running.call,fun _ => ?_,trivial⟩
    rw [issues,said_append]
    exact List.mem_append_right _ List.mem_cons_self
  | sends at_point =>
    obtain rfl := List.mem_singleton.mp member
    exact goes_on (by simp [at_point]) trivial
  | @takesResponse q buffer begins found genuine =>
    obtain rfl := List.mem_singleton.mp member
    exact goes_on (begins_left begins) fun _ => ⟨genuine.mono t _,(q.replies found).2⟩
  | @takesCall q buffer rest begins first =>
    obtain rfl := List.mem_singleton.mp member
    exact goes_on (begins_left begins) fun reply =>
      absurd (q.calls (first ▸ List.mem_cons_self)) reply.not_incoming
  | waits begins =>
    obtain rfl := List.mem_singleton.mp member
    exact goes_on (begins_left begins) trivial
  | locks begins =>
    obtain rfl := List.mem_singleton.mp member
    exact goes_on (begins_left begins) trivial
  | passesReply at_point _ serves =>
    obtain rfl := List.mem_singleton.mp member
    exact goes_on (by simp [at_point]) serves
  | passesCall at_point =>
    obtain rfl := List.mem_singleton.mp member
    exact goes_on (by simp [at_point]) trivial
  | answers => cases member
  | continues at_point =>
    obtain rfl := List.mem_singleton.mp member
    exact goes_on (by simp [at_point]) trivial
  | receives at_point genuine =>
    obtain rfl := List.mem_singleton.mp member
    exact goes_on (by simp [at_point]) ⟨rfl,fun reply => (genuine reply).mono t _⟩
  | enters at_point =>
    obtain rfl := List.mem_singleton.mp member
    exact goes_on (by simp [at_point]) trivial

theorem goes_returned (goes : Goes f events t p frame out) {operation : Operation Invocation} {id : CallId}
    {result : DataStream} (returned : .returned operation id result ∈ out.events) : Serves f operation result := by
  cases goes with
  | answers at_point serves =>
    simp only [Activation.leave,List.mem_cons,List.not_mem_nil,or_false,reduceCtorEq,false_or,
      Event.returned.injEq] at returned
    obtain ⟨rfl,_,rfl⟩ := returned
    exact serves
  | _ => simp at returned

theorem goes_wrote (goes : Goes f events t p frame out) (running : Running f events t frame) {letter : Letter}
    (wrote : letter ∈ out.events.filterMap wroteCall) :
    Carries letter.packet letter.id letter.call ∧
      ∃ process_incoming_calls, (t,.waitInvoke letter.call process_incoming_calls,letter.id) ∈ issues events := by
  cases goes with
  | sends at_point operation carries =>
    simp only [operation,List.filterMap_cons,wroteCall,List.filterMap_nil,List.mem_singleton] at wrote
    subst wrote
    exact ⟨carries,_,operation ▸ running.issued (by simp [at_point])⟩
  | _ => simp [List.filterMap_cons,wroteCall,Activation.leave] at wrote

theorem goes_frames (goes : Goes f events t p frame out) : out.frames = [] ∨ ∃ next, out.frames = [next] := by
  cases goes <;> first | exact .inl rfl | exact .inr ⟨_,rfl⟩

end goes

/-! ### Steps of the world -/

theorem goes_sound {f : Handlers} {w : World Tid} (sound : Sound f w) {t : Tid} {frame : Activation Invocation}
    {below : List (Activation Invocation)} {out : Advance Tid Invocation} {arriving : List Data}
    (few : Few (w.endpoint.events ++ out.events.map (t,·))) (running : w.endpoint.threads t = frame :: below)
    (fewer : ∀ packet ∈ arriving, packet ∈ w.arriving)
    (goes : Goes f w.endpoint.events t w.endpoint.pending frame out) :
    Sound f { w with
      endpoint := {
        pending := out.pending
        threads := Function.update w.endpoint.threads t (out.frames ++ below)
        events := w.endpoint.events ++ out.events.map (t,·) }
      outgoing := w.outgoing ++ out.events.filterMap wroteCall
      arriving := arriving } where
  inner v := by
    by_cases same : v = t
    · subst same
      have nested : ∀ other ∈ below, ∃ precessed result, other.point = .processing precessed result := by
        simpa [running] using sound.inner v
      intro other member
      simp only [Function.update_self] at member
      rcases goes_frames goes with gone | ⟨next,goes_on⟩
      · rw [gone,List.nil_append] at member
        exact nested other (List.mem_of_mem_tail member)
      · rw [goes_on] at member
        exact nested other member
    · simpa [same] using sound.inner v
  next := by
    unfold Few issues at few
    dsimp only [issues]
    rw [said_append] at few ⊢
    rcases goes_counter goes with ⟨drawn,counter⟩ | ⟨none,counter⟩
    · rw [drawn,List.map_singleton,List.length_append,List.length_singleton] at few ⊢
      rw [sound.next,idOf_succ] at counter
      exact nextId_nonzero_of counter (idOf_nonzero few)
    · rw [none,List.map_nil,List.append_nil,nextId_congr counter]
      exact sound.next
  ids := by
    dsimp only [issues]
    rw [said_append]
    rcases goes_counter goes with ⟨drawn,_⟩ | ⟨none,_⟩
    · rw [drawn,List.map_singleton,List.map_append,List.length_append,List.length_singleton,List.range_succ,
        List.map_append,sound.ids,sound.next]
      rfl
    · rw [none,List.map_nil,List.append_nil]
      exact sound.ids
  running v other member := by
    by_cases same : v = t
    · subst same
      simp only [Function.update_self] at member
      rcases List.mem_append.mp member with new | old
      · exact goes_running goes (sound.running v frame (running ▸ List.mem_cons_self)) other new
      · exact (sound.running v other (running ▸ List.mem_cons_of_mem _ old)).mono v _
    · simp only [Function.update_of_ne same] at member
      exact (sound.running v other member).mono t _
  replies id buffer found := (goes_replies goes sound.replies id buffer found).mono t _
  outgoing letter member := by
    rcases List.mem_append.mp member with old | new
    · obtain ⟨carries,u,process_incoming_calls,issued⟩ := sound.outgoing letter old
      exact ⟨carries,u,process_incoming_calls,said_mono issued t _⟩
    · obtain ⟨carries,process_incoming_calls,issued⟩ :=
        goes_wrote goes (sound.running t frame (running ▸ List.mem_cons_self)) new
      exact ⟨carries,t,process_incoming_calls,said_mono issued t _⟩
  arriving packet member := (sound.arriving packet (fewer packet member)).mono t _
  returned u operation id result member := by
    rcases List.mem_append.mp member with old | new
    · exact sound.returned u operation id result old
    · obtain ⟨event,happened,same⟩ := List.mem_map.mp new
      cases same
      exact goes_returned goes happened

section happens
variable {f : Handlers} {transport : TransportShare} {w w' : World Tid}

omit [DecidableEq Tid] in
theorem calm_top {frame : Activation Invocation} {below : List (Activation Invocation)}
    (free : calm (frame :: below) = true) : ∃ precessed result, frame.point = .processing precessed result := by
  cases at_point : frame.point with
  | processing precessed result => exact ⟨precessed,result,rfl⟩
  | _ => simp [calm,at_point] at free

omit [DecidableEq Tid] in
theorem calm_ready {stack : List (Activation Invocation)} (free : calm stack = true) : ready stack = true := by
  cases stack with
  | nil => rfl
  | cons frame below =>
    obtain ⟨precessed,result,at_point⟩ := calm_top free
    simp [ready,at_point,Point.nests]

omit [DecidableEq Tid] in
theorem calm_inner {stack : List (Activation Invocation)} (free : calm stack = true)
    (inner : ∀ frame ∈ stack.tail, ∃ precessed result, frame.point = .processing precessed result) :
    ∀ frame ∈ stack, ∃ precessed result, frame.point = .processing precessed result := by
  cases stack with
  | nil => exact fun _ member => by cases member
  | cons top below =>
    intro frame member
    rcases List.mem_cons.mp member with rfl | deeper
    · exact calm_top free
    · exact inner frame deeper

theorem happens_owned (owned : Owned w.endpoint) (happens : Happens f transport w w') : Owned w'.endpoint := by
  cases happens with
  | starts free => exact start_owned owned (calm_ready free) _
  | acts running _ moved => exact moves_owned owned running moved
  | answers => exact owned
  | sends => exact owned

theorem happens_kept (owned : Owned w.endpoint) (kept : Kept w.endpoint) (happens : Happens f transport w w') :
    Kept w'.endpoint := by
  cases happens with
  | starts free => exact start_kept kept (calm_ready free) _
  | acts running _ moved => exact moves_kept owned kept running moved
  | answers => exact kept
  | sends => exact kept

omit [DecidableEq Tid] in
theorem transports_reliable {move : Move} {arriving : List Data} (sound : Sound f w)
    (transports : Transports transport w.arriving move arriving) :
    Reliable f transport w.endpoint.events move ∧ ∀ packet ∈ arriving, packet ∈ w.arriving := by
  have arrives := sound.arriving
  revert arrives
  generalize w.arriving = coming at transports
  intro arrives
  cases transports with
  | proceeds => exact ⟨trivial,fun _ member => member⟩
  | writes => exact ⟨⟨rfl,rfl⟩,fun _ member => member⟩
  | delivers =>
    refine ⟨⟨rfl,?_⟩,fun _ member => List.mem_cons_of_mem _ member⟩
    intro packet same
    cases same
    exact arrives _ List.mem_cons_self
  | waits => exact ⟨⟨rfl,fun _ none => by cases none⟩,fun _ member => member⟩

theorem start_sound (sound : Sound f w) {t : Tid} (free : calm (w.endpoint.threads t) = true) (call : Invocation)
    (process_incoming_calls : Bool) :
    Sound f { w with
      endpoint := { w.endpoint with
        threads := Function.update w.endpoint.threads t
          (enter (.waitInvoke call process_incoming_calls) :: w.endpoint.threads t) } } where
  inner v := by
    by_cases same : v = t
    · subst same
      simpa using calm_inner free (sound.inner v)
    · simpa [same] using sound.inner v
  next := sound.next
  ids := sound.ids
  running v frame member := by
    by_cases same : v = t
    · subst same
      simp only [Function.update_self] at member
      rcases List.mem_cons.mp member with rfl | old
      · exact ⟨⟨call,process_incoming_calls,rfl⟩,fun past => absurd rfl past,trivial⟩
      · exact sound.running v frame old
    · simp only [Function.update_of_ne same] at member
      exact sound.running v frame member
  replies := sound.replies
  outgoing := sound.outgoing
  arriving := sound.arriving
  returned := sound.returned

theorem happens_few (happens : Happens f transport w w') (few : Few w'.endpoint.events) : Few w.endpoint.events := by
  cases happens with
  | starts => exact few
  | acts => exact few_before few
  | answers => exact few
  | sends => exact few

theorem happens_sound (creates : Creates transport) (owned : Owned w.endpoint) (sound : Sound f w)
    (happens : Happens f transport w w') (few : Few w'.endpoint.events) : Sound f w' := by
  have few_now := happens_few happens few
  cases happens with
  | starts free => exact start_sound sound free _ _
  | acts running transports moved =>
    obtain ⟨reliable,fewer⟩ := transports_reliable sound transports
    exact goes_sound sound few running fewer (moves_goes creates sound owned few_now running reliable moved)
  | @answers place type_raw letter id packet found answered =>
    obtain ⟨carries,t,process_incoming_calls,issued⟩ := sound.outgoing letter (List.mem_of_getElem? found)
    rw [peerAnswer_carries f type_raw carries] at answered
    obtain ⟨rfl,bytes⟩ := Prod.mk.inj (Option.some.inj answered)
    exact {
      sound with
      outgoing := fun other member => sound.outgoing other (List.mem_of_mem_eraseIdx member)
      arriving := fun other member => by
        rcases List.mem_append.mp member with old | new
        · exact sound.arriving other old
        · obtain rfl := List.mem_singleton.mp new
          exact .inr ⟨t,letter.call,process_incoming_calls,letter.id,issued,bytes.symm⟩ }
  | @sends enumerate id no_header_size body packet bytes =>
    exact {
      sound with
      arriving := fun other member => by
        rcases List.mem_append.mp member with old | new
        · exact sound.arriving other old
        · obtain rfl := List.mem_singleton.mp new
          refine .inl ⟨no_header_size,_,id,body,bytes,?_⟩
          cases enumerate
          · exact .inr rfl
          · exact .inl rfl }

end happens

end IpcPortable.Matching
