import IpcPortable.ExistingEntries
import IpcPortable.Messages
import IpcPortable.Matching
import IpcPortable.Draining

/-!
The enumeration of the handlers. What is enumerated is what the dispatch accepts,
signature by signature, and `EnumerateRemote` returns the list of the peer: the
request, the answer and its encoding, for one thread alone and in every order of
the steps of many (`enumeration_agrees`).
-/
namespace IpcPortable.Enumerations
open IpcPortable.LittleEndian IpcPortable.DataStream IpcPortable.Values IpcPortable.Packets IpcPortable.RawStrings
open IpcPortable.OrderedMaps IpcPortable.Calls IpcPortable.Signatures IpcPortable.ProcMaps IpcPortable.Dispatch
open IpcPortable.Replies IpcPortable.Buffers IpcPortable.Messages IpcPortable.ExistingEntries IpcPortable.Endpoints

/-! ### The list and the dispatch -/

/-- `AnalizeInvokeData` finds a handler for the call at the beginning of the stream. -/
def Accepted (call_infos : CallInfos) (ipc : Internals) (call_info_data : DataStream) : Prop :=
  ∃ invoke effects behind, analizeInvokeData call_infos ipc call_info_data = some (invoke,effects,behind) ∧
    invoke.invoke_base ≠ none
/-- The list has a record for exactly the calls that are accepted, and no two
    records for one signature. -/
structure Agrees (call_infos : CallInfos) (proc_map : ProcMap) : Prop where
  accepted : ∀ ipc : Internals, ipc.m_proc_map = proc_map →
    ∀ (name : List Byte) (send_return : Bool) (return_type params_types : List Byte), return_type ≠ [] →
    ∀ (call_info_data : DataStream) (args : List Byte),
      DataStream.Reads call_info_data (encodeSignature name send_return return_type params_types ++ args) →
      ((∃ comment, (⟨name,return_type,params_types,comment⟩ : ProcDescription) ∈ enumerateHandlers call_infos proc_map) ↔
        Accepted call_infos ipc call_info_data)
  distinct : ((enumerateHandlers call_infos proc_map).map fun record => (record.name,record.params_types)).Nodup

/-- A record is listed where a handler accepts the call that names its types. -/
theorem listed_accepts (call_infos : CallInfos) (proc_map : ProcMap) (name : List Byte) {return_type : List Byte}
    (params_types : List Byte) (named : return_type ≠ []) :
    (∃ comment, (⟨name,return_type,params_types,comment⟩ : ProcDescription) ∈ enumerateHandlers call_infos proc_map) ↔
      ∃ handler, Accepts call_infos proc_map name return_type params_types handler := by
  constructor
  · rintro ⟨comment,member⟩
    obtain ⟨entry,there,key,_,handler,installed,returns⟩ := enumerated_entry member
    obtain ⟨invoke,callable⟩ := isInvokable_some.mp installed
    exact ⟨handler,⟨entry,there,key,invoke,callable⟩,.inr returns.symm⟩
  · rintro ⟨handler,⟨entry,there,key,installed,callable⟩,returns⟩
    have listed := enumerated_comment call_infos there (isInvokable_some.mpr ⟨installed,callable⟩)
    rw [key,← returns.resolve_left named] at listed
    exact ⟨entry.2.comment,listed⟩

/-- The signatures of the records ascend as the keys do. -/
theorem enumerated_distinct (call_infos : CallInfos) (proc_map : ProcMap) :
    ((enumerateHandlers call_infos proc_map).map fun record => (record.name,record.params_types)).Nodup := by
  have keys : (proc_map.m_name_procs.map Prod.fst).Nodup :=
    List.pairwise_map.mpr (proc_map.sorted.imp fun below => ne_of_lt below)
  refine List.pairwise_map.mpr (List.Pairwise.filterMap _ ?_ (List.pairwise_map.mp keys))
  intro one other different record listed record' listed' same
  obtain ⟨⟨name,params_type⟩,call_data⟩ := one
  obtain ⟨⟨name',params_type'⟩,call_data'⟩ := other
  split at listed <;> cases listed
  split at listed' <;> cases listed'
  obtain ⟨names,params⟩ := Prod.mk.inj same
  dsimp only at names params
  subst names params
  exact different rfl

theorem enumerateHandlers_agrees (call_infos : CallInfos) (proc_map : ProcMap) : Agrees call_infos proc_map where
  distinct := enumerated_distinct call_infos proc_map
  accepted := by
    rintro ipc rfl name send_return return_type params_types named call_info_data args reads
    obtain ⟨names,_⟩ := deserializeNameSignature_yields name send_return return_type params_types _ _ reads
    obtain ⟨invoke,reported,analized,_,_,found⟩ := analizeNames_cases names call_infos ipc
    rw [listed_accepts call_infos ipc.m_proc_map name params_types named]
    have whole : analizeInvokeData call_infos ipc call_info_data = some (invoke,
        raisedSince call_info_data (deserializeNameSignature call_info_data).2 ++ reported,
        (deserializeNameSignature call_info_data).2) := by
      simp only [analizeInvokeData,analized,Option.bind_eq_bind,Option.bind_some,Option.pure_def]
    constructor
    · rintro ⟨handler,accepts⟩
      refine ⟨_,_,_,whole,?_⟩
      rcases found with ⟨_,_,base,_⟩ | ⟨rejects,_⟩
      · rw [base]
        exact Option.some_ne_none _
      · exact absurd accepts (rejects handler)
    · rintro ⟨invoke',effects,behind,answer,base⟩
      rw [whole] at answer
      cases answer
      rcases found with ⟨handler,accepts,_,_⟩ | ⟨_,missing,_⟩
      · exact ⟨handler,accepts⟩
      · exact absurd missing base

/-! ### The request and the answer -/

/-- The last part of `EnumerateRemote`. -/
def enumerateRemote (result : DataStream) : List ProcDescription := (extract .enumerateData [] result).1

/-- The packet is the answer with the list. -/
def Answer (res : List ProcDescription) (id : CallId) (reply : Data) : Prop :=
  reply.bytes = packetOf pt_return_enumerate id (encode .enumerateData res)

section answers
variable {transport : TransportShare} {id : CallId} {res : List ProcDescription} {reply : Data}

/-- The request is a header without a body. -/
theorem request_made (creates : Creates transport) (nonzero : id ≠ c_invalid_id) :
    ∃ request, (createDataStream (some transport) 0 pt_enumerate id).m_write = some request ∧
      request.bytes = packetOf pt_enumerate id [] := by
  obtain ⟨request,made,bytes,_⟩ := stream_filled creates nonzero
    (show 12 + Message.enumerate.body.length < 2^32 by decide) trivial
  exact ⟨request,made,bytes⟩

/-- `ProcessBuffer` of the peer answers the request with its list. -/
theorem request_answered (call_infos : CallInfos) {ipc : Internals} (alive : ipc.m_transport = some transport)
    (creates : Creates transport) (nonzero : id ≠ c_invalid_id)
    (fits : 12 + (encode .enumerateData (enumerateHandlers call_infos ipc.m_proc_map)).length < 2^32) {request : Data}
    (bytes : request.bytes = packetOf pt_enumerate id []) :
    ∃ reply, Answer (enumerateHandlers call_infos ipc.m_proc_map) id reply ∧
      ∀ type_raw, processBuffer call_infos ipc (receiveCallDataBuffer type_raw request) =
        some (call_infos,{},[.write reply]) := by
  obtain ⟨reply,made,answer,quiet⟩ := stream_filled creates nonzero
    (show 12 + (Message.enumerated (enumerateHandlers call_infos ipc.m_proc_map)).body.length < 2^32 from fits) trivial
  refine ⟨reply,answer,fun type_raw => ?_⟩
  obtain ⟨header,_,_⟩ := receiveCallDataBuffer_reads type_raw bytes
  have sent := send_stream alive nonzero (.enumerated (enumerateHandlers call_infos ipc.m_proc_map)) made
  have sends : enumerateReply ipc id (enumerateHandlers call_infos ipc.m_proc_map) = [.write reply] := by
    simpa [Message.send,Message.writes,raisedSince,quiet] using sent
  rw [← sends]
  simp only [processBuffer,header]
  rfl

/-- What is received as the answer is a reply with the id, and holds the list. -/
theorem answer_received (answer : Answer res id reply) (type_raw : BitVec 32) :
    Pending.Reply (receiveCallDataBuffer type_raw reply) ∧ (receiveCallDataBuffer type_raw reply).header.id = id ∧
      responsePrecessed (receiveCallDataBuffer type_raw reply) id = true ∧
      enumerateRemote (processBufferResult (receiveCallDataBuffer type_raw reply)) = res := by
  obtain ⟨type,same,reads⟩ := Peers.reply_received type_raw answer
  generalize receiveCallDataBuffer type_raw reply = buffer at type same reads ⊢
  refine ⟨?_,same,?_,?_⟩
  · rw [Pending.Reply,type]
    decide
  · simp only [responsePrecessed,type,same]
    decide
  · rw [processBufferResult,type,if_pos (.inl rfl)]
    have whole : DataStream.Reads buffer.data (encode .enumerateData res ++ []) := by rwa [List.append_nil]
    rw [enumerateRemote,extract_decodes .enumerateData [] res buffer.data [] whole]

end answers

/-! ### One thread asks -/

section asks
open IpcPortable.Pending IpcPortable.Draining IpcPortable.CallQueue
variable {Tid κ : Type} [DecidableEq Tid]

/-- What a call of `EnumerateRemote` leaves: the request was written, and the list
    is what it returns. -/
structure Enumerated (id : CallId) (request : Data) (res : List ProcDescription) (happened : List (Event κ)) : Prop where
  wrote : .wrote .enumerateRemote id request ∈ happened
  returned : ∃ result, happened.getLast? = some (.returned .enumerateRemote id result) ∧ enumerateRemote result = res

/-- Packets that are not the reply are put where they belong, one by one. -/
theorem leads_others (call_info : CallInfo κ) (transport : TransportShare) (t : Tid) (s : Endpoint Tid κ) {id : CallId}
    (nonzero : id ≠ c_invalid_id) (packets rest : List (Data × BitVec 32)) {p : PendingResponces Tid} (happened : List (Event κ))
    (unlocked : p.m_thread_waiting_transport.m_locked_id = none) (absent : p.m_id_data_return id = none)
    (others : ∀ buffer ∈ received packets, ¬ (Reply buffer ∧ buffer.header.id = id)) :
    ∃ p' more, Leads call_info transport t (s.threads t).length
        ⟨during s t p [⟨.enumerateRemote,id,.readBuffer⟩] happened,packets ++ rest⟩
        ⟨during s t p' [⟨.enumerateRemote,id,.readBuffer⟩] (happened ++ more),rest⟩ ∧
      p'.m_thread_waiting_transport.m_locked_id = none ∧ p'.m_id_data_return id = none := by
  induction packets generalizing p happened with
  | nil => exact ⟨p,[],by simpa using Leads.refl _,unlocked,absent⟩
  | cons packet packets ih =>
    obtain ⟨packet,type_raw⟩ := packet
    generalize here : receiveCallDataBuffer type_raw packet = buffer
    have first : received ((packet,type_raw) :: packets) = buffer :: received packets := by rw [← here]; rfl
    rw [first] at others
    have absent' : (taken p (.enumerateRemote : Operation κ) t buffer).m_id_data_return id = none := by
      rw [taken_replies,absent,if_neg (others buffer List.mem_cons_self)]
      rfl
    obtain ⟨p',more,later,unlocked',none'⟩ := ih (happened ++ [.received buffer,.entered buffer]) (taken_transport _) absent'
      fun other member => others other (List.mem_cons_of_mem _ member)
    refine ⟨p',[.received buffer,.entered buffer] ++ more,?_,unlocked',none'⟩
    have reads := (leads_packet here unlocked absent (fun allowed => by cases allowed) (.inl nonzero)).trans later
    simpa using reads

/-- The call draws its id, writes the request and comes to its first round. -/
theorem leads_request (call_info : CallInfo κ) {transport : TransportShare} (t : Tid) (s : Endpoint Tid κ)
    (packets : List (Data × BitVec 32)) {p : PendingResponces Tid} {id : CallId} (drawn : newCallId s.pending = some (id,p))
    {request : Data} (made : (createDataStream (some transport) 0 pt_enumerate id).m_write = some request) :
    Leads call_info transport t (s.threads t).length ⟨during s t s.pending [enter .enumerateRemote] [],packets⟩
      ⟨during s t p [⟨.enumerateRemote,id,.readBuffer⟩]
        [.issued .enumerateRemote id,.wrote .enumerateRemote id request],packets⟩ := by
  have issues : advance call_info t s.pending (enter .enumerateRemote) .proceed =
      some ⟨p,[⟨.enumerateRemote,id,.writing⟩],[.issued .enumerateRemote id]⟩ := by
    simp only [enter,advance,drawn,Option.map_some]
  have writes : advance call_info t p ⟨.enumerateRemote,id,.writing⟩ (.write (some transport) true) =
      some ⟨p,[⟨.enumerateRemote,id,.readBuffer⟩],[.wrote .enumerateRemote id request]⟩ := by
    simp only [advance,Activation.write,Operation.stream,made,Operation.waitsReturn,if_true,Activation.at]
  exact (leads_proceed (by simp [enter]) issues).trans (leads_write rfl writes)

/-- With the answer among its packets a call of `EnumerateRemote` returns the list. -/
theorem enumerateRemote_returns (call_info : CallInfo κ) {transport : TransportShare} (t : Tid) (s : Endpoint Tid κ)
    (free : ready (s.threads t) = true) (unlocked : s.pending.m_thread_waiting_transport.m_locked_id = none)
    {p : PendingResponces Tid} {id : CallId} (drawn : newCallId s.pending = some (id,p)) {request : Data}
    (made : (createDataStream (some transport) 0 pt_enumerate id).m_write = some request)
    {res : List ProcDescription} {reply : Data} (answer : Answer res id reply) (type_raw : BitVec 32)
    {before after : List (Data × BitVec 32)}
    (others : ∀ buffer ∈ received before, ¬ (Reply buffer ∧ buffer.header.id = id)) :
    ∃ q happened rounds, Enumerated id request res happened ∧
      ∀ more, callAlone call_info transport t .enumerateRemote (rounds + more) ⟨s,before ++ (reply,type_raw) :: after⟩ =
        some ⟨behind s t q happened,after⟩ := by
  obtain ⟨nonzero,absent,kept⟩ := newCallId_result drawn
  have unlocked' : p.m_thread_waiting_transport.m_locked_id = none := by rw [kept]; exact unlocked
  have absent' : p.m_id_data_return id = none := by rw [kept]; exact absent
  obtain ⟨is_reply,same,answers,list⟩ := answer_received answer type_raw
  generalize here : receiveCallDataBuffer type_raw reply = buffer at is_reply same answers list
  obtain ⟨p',more,skips,free_transport,none_stored⟩ := leads_others call_info transport t s nonzero before
    ((reply,type_raw) :: after) [.issued .enumerateRemote id,.wrote .enumerateRemote id request] unlocked' absent' others
  have stored : (taken p' (.enumerateRemote : Operation κ) t buffer).m_id_data_return id = some buffer := by
    rw [taken_replies,none_stored,if_pos ⟨is_reply,same⟩]
    rfl
  have run := (leads_request call_info t s (before ++ (reply,type_raw) :: after) drawn made).trans
    (skips.trans ((leads_packet here free_transport none_stored (by rintro ⟨⟩) (.inl nonzero)).trans
      (leads_response (taken_transport buffer) stored answers)))
  obtain ⟨rounds,returns⟩ := leads_callAlone free run
  refine ⟨_,_,rounds,⟨?_,processBufferResult buffer,?_,list⟩,returns⟩
  · simp
  · rw [List.getLast?_append]
    rfl

/-- A call of `ProcessTransport` passes the request to `ProcessBuffer`. -/
theorem request_passed (call_info : CallInfo κ) (transport : TransportShare) (t : Tid) (s : Endpoint Tid κ)
    (free : ready (s.threads t) = true) (unlocked : s.pending.m_thread_waiting_transport.m_locked_id = none)
    (nonzero : s.pending.m_id_data_return c_invalid_id = none) {packets : List (Data × BitVec 32)}
    (valid : ∀ buffer ∈ received packets, buffer.header.type ≠ pt_undefined ∧ buffer.header.id ≠ c_invalid_id)
    {id : CallId} {request : Data} (bytes : request.bytes = packetOf pt_enumerate id []) {type_raw : BitVec 32}
    (coming : (request,type_raw) ∈ packets) :
    ∃ q happened rounds, .passed (receiveCallDataBuffer type_raw request) ∈ happened ∧
      ∀ more, callAlone call_info transport t .processTransport (rounds + more) ⟨s,packets⟩ = some ⟨behind s t q happened,[]⟩ := by
  obtain ⟨q,happened,run,takes⟩ := leads_takesIn call_info transport t s .processTransport packets []
    unlocked nonzero rfl valid
  have ended : ∃ rounds, ∀ more, callAlone call_info transport t .processTransport (rounds + more) ⟨s,packets⟩ =
      some ⟨behind s t q (happened ++ [Event.left .drained,.returned .processTransport c_invalid_id {}]),[]⟩ :=
    leads_callAlone free run
  obtain ⟨rounds,returns⟩ := ended
  refine ⟨q,_,rounds,?_,returns⟩
  have call : Incoming (receiveCallDataBuffer type_raw request) := by
    obtain ⟨header,_,_⟩ := receiveCallDataBuffer_reads type_raw bytes
    rw [Incoming,header]
    exact .inl rfl
  have taken : receiveCallDataBuffer type_raw request ∈ happened.filterMap passedPacket := by
    rw [takes.passed]
    refine List.mem_append_right _ (List.mem_filter.mpr ⟨List.mem_map.mpr ⟨_,coming,rfl⟩,?_⟩)
    exact decide_eq_true call
  obtain ⟨event,member,passed⟩ := List.mem_filterMap.mp taken
  have passes : event = .passed (receiveCallDataBuffer type_raw request) := by
    cases event with
    | passed buffer => exact congrArg Event.passed (Option.some.inj passed)
    | _ => cases passed
  rw [← passes]
  simp [member]

end asks

/-! ### Many threads ask -/

section traced
open IpcPortable.Runs IpcPortable.Pending IpcPortable.EndpointMoves IpcPortable.HandOver IpcPortable.Matching
variable {Tid κ : Type}

/-- `Read` answered the packet before. -/
def Came (events : List (Tid × Event κ)) (buffer : CallDataBuffer) : Prop := ∃ u, (u,.received buffer) ∈ events
/-- The stream is what `ProcessBuffer` answers for a reply with the id that came. -/
def FromReply (events : List (Tid × Event κ)) (id : CallId) (result : DataStream) : Prop :=
  ∃ buffer, Came events buffer ∧ Reply buffer ∧ buffer.header.id = id ∧ result = processBufferResult buffer
/-- What an activation has in its hands came before. -/
def Brought (events : List (Tid × Event κ)) (frame : Activation κ) : Prop :=
  match frame.point with
  | .handling buffer => Reply buffer → Came events buffer ∧ buffer.header.id = frame.id
  | .processing true result => FromReply events frame.id result
  | .writeBuffer _ buffer => Reply buffer → Came events buffer
  | _ => True
/-- The replies, and what is returned for them, came from `Read`. -/
structure Traced (s : Endpoint Tid κ) : Prop where
  frames : ∀ t, ∀ frame ∈ s.threads t, Brought s.events frame
  replies : ∀ id buffer, s.pending.m_id_data_return id = some buffer → Came s.events buffer
  returned : ∀ t operation id result, (t,.returned operation id result) ∈ s.events →
    result.isReadBufferPresent = false ∨ FromReply s.events id result

theorem Came.mono {events : List (Tid × Event κ)} {buffer : CallDataBuffer} (came : Came events buffer)
    (more : List (Tid × Event κ)) : Came (events ++ more) buffer := by
  obtain ⟨u,member⟩ := came
  exact ⟨u,List.mem_append_left _ member⟩

theorem FromReply.mono {events : List (Tid × Event κ)} {id : CallId} {result : DataStream}
    (answered : FromReply events id result) (more : List (Tid × Event κ)) : FromReply (events ++ more) id result := by
  obtain ⟨buffer,came,rest⟩ := answered
  exact ⟨buffer,came.mono more,rest⟩

theorem Brought.mono {events : List (Tid × Event κ)} {frame : Activation κ} (brought : Brought events frame)
    (more : List (Tid × Event κ)) : Brought (events ++ more) frame := by
  unfold Brought at brought ⊢
  split at brought
  · exact fun reply => ⟨(brought reply).1.mono more,(brought reply).2⟩
  · exact brought.mono more
  · exact fun reply => (brought reply).mono more
  · trivial

theorem received_came (events : List (Tid × Event κ)) (t : Tid) (buffer : CallDataBuffer) :
    Came (events ++ [Event.received buffer].map (t,·)) buffer :=
  ⟨t,List.mem_append_right _ (List.mem_singleton.mpr rfl)⟩

variable [DecidableEq Tid] {call_info : CallInfo κ} {s : Endpoint Tid κ} {t : Tid} {frame : Activation κ}
variable {move : Move} {out : Advance Tid κ}

/-- What a step leaves in the hands of the activation came before, or just came. -/
theorem moves_brought (traced : Traced s) (brought : Brought s.events frame)
    (moved : Moves call_info t s.pending frame move out) :
    ∀ next ∈ out.frames, Brought (s.events ++ out.events.map (t,·)) next := by
  unfold Brought at brought
  cases moved with
  | issues | sends | continues | enters => exact fun next member => by cases List.mem_singleton.mp member; trivial
  | waits | locks => exact fun next member => by cases List.mem_singleton.mp member; trivial
  | unsent | sendsOnly | reenters | busy | answers | entersLast => exact fun next member => by cases member
  | @takesResponse q buffer begins found =>
    have stored := q.replies found
    rw [begins_replies begins] at found
    refine fun next member => ?_
    cases List.mem_singleton.mp member
    exact fun _ => ⟨(traced.replies _ _ found).mono _,stored.2⟩
  | @takesCall q buffer rest begins absent allowed first =>
    refine fun next member => ?_
    cases List.mem_singleton.mp member
    intro reply
    exact absurd (q.calls (first ▸ List.mem_cons_self)) reply.not_incoming
  | @passes buffer at_point =>
    rw [at_point] at brought
    refine fun next member => ?_
    cases List.mem_singleton.mp member
    cases precessed : responsePrecessed buffer frame.id with
    | false => trivial
    | true =>
      have reply : Reply buffer := by
        by_contra call
        rw [call_not_precessed call] at precessed
        cases precessed
      obtain ⟨came,own⟩ := brought reply
      exact ⟨buffer,came.mono _,reply,own,rfl⟩
  | @receives transport_ok packet type_raw at_point =>
    refine fun next member => ?_
    cases List.mem_singleton.mp member
    exact fun _ => received_came s.events t _
  | receivesNothing at_point =>
    refine fun next member => ?_
    cases List.mem_singleton.mp member
    exact fun reply => absurd reply default_not_reply

/-- A reply is stored from the hands of an activation. -/
theorem moves_stored (traced : Traced s) (brought : Brought s.events frame)
    (moved : Moves call_info t s.pending frame move out) {id : CallId} {buffer : CallDataBuffer}
    (stored : out.pending.m_id_data_return id = some buffer) : Came s.events buffer := by
  unfold Brought at brought
  have entered {transport_ok : Bool} {entering : CallDataBuffer} (at_point : frame.point = .writeBuffer transport_ok entering)
      (found : (Pending.writeBuffer s.pending frame.operation.processIncomingCalls entering).1.m_id_data_return id = some buffer) :
      Came s.events buffer := by
    rw [at_point] at brought
    rw [writeBuffer_replies] at found
    split at found
    · rename_i new
      by_cases here : id = entering.header.id
      · rw [here,Function.update_self] at found
        cases found
        exact brought new.1
      · rw [Function.update_of_ne here] at found
        exact traced.replies _ _ found
    · exact traced.replies _ _ found
  have before {q : PendingResponces Tid} (begins : Begins t s.pending frame q) (found : q.m_id_data_return id = some buffer) :
      Came s.events buffer := by
    rw [begins_replies begins] at found
    exact traced.replies _ _ found
  cases moved with
  | issues at_point drawn =>
    obtain ⟨_,_,kept⟩ := newCallId_result drawn
    rw [kept] at stored
    exact traced.replies _ _ stored
  | unsent | sends | sendsOnly | reenters | passes | answers | continues | receives | receivesNothing =>
    exact traced.replies _ _ stored
  | takesResponse begins =>
    refine before begins ?_
    by_cases own : id = frame.id
    · rw [own,eraseReply_id] at stored
      cases stored
    · exact (Function.update_of_ne own _ _).symm.trans stored
  | takesCall begins => exact before begins stored
  | waits begins => exact before begins stored
  | busy begins => exact before begins stored
  | locks begins => exact before begins stored
  | enters at_point => exact entered at_point stored
  | entersLast at_point => exact entered at_point stored

/-- What is returned is empty, or was in the hands of the activation. -/
theorem moves_returned (brought : Brought s.events frame) (moved : Moves call_info t s.pending frame move out)
    {operation : Operation κ} {id : CallId} {result : DataStream} (returned : .returned operation id result ∈ out.events) :
    result.isReadBufferPresent = false ∨ FromReply s.events id result := by
  unfold Brought at brought
  cases moved with
  | issues | sends | takesResponse | takesCall | waits | locks | passes | continues | receives | receivesNothing | enters =>
    simp at returned
  | unsent | sendsOnly | reenters | busy | entersLast =>
    obtain ⟨_,_,rfl⟩ : operation = frame.operation ∧ id = frame.id ∧ result = {} := by
      simpa [Activation.leave] using returned
    exact .inl rfl
  | answers at_point =>
    rw [at_point] at brought
    obtain ⟨_,rfl,rfl⟩ : operation = frame.operation ∧ id = frame.id ∧ result = _ := by
      simpa [Activation.leave] using returned
    exact .inr brought

omit [DecidableEq Tid] in
theorem empty_traced : Traced ({} : Endpoint Tid κ) where
  frames _ _ member := by cases member
  replies _ _ stored := by cases stored
  returned _ _ _ _ member := by cases member

theorem step_traced (call_info : CallInfo κ) : Preserves (Endpoints.step call_info) fun s : Endpoint Tid κ => Traced s := by
  intro s action s' traced stepped
  cases step_steps stepped with
  | @starts t operation free =>
    refine ⟨fun u frame member => ?_,traced.replies,traced.returned⟩
    dsimp only at member ⊢
    by_cases same : u = t
    · subst same
      rw [Function.update_self] at member
      rcases List.mem_cons.mp member with rfl | below
      · cases operation <;> trivial
      · exact traced.frames u frame below
    · rw [Function.update_of_ne same] at member
      exact traced.frames u frame member
  | @moves t move frame below out running moved =>
    have brought := traced.frames t frame (running ▸ List.mem_cons_self)
    refine ⟨fun u other member => ?_,fun id buffer stored => (moves_stored traced brought moved stored).mono _,?_⟩
    · dsimp only at member ⊢
      by_cases same : u = t
      · subst same
        rw [Function.update_self] at member
        rcases List.mem_append.mp member with above | inside
        · exact moves_brought traced brought moved other above
        · exact (traced.frames u other (running ▸ List.mem_cons_of_mem _ inside)).mono _
      · rw [Function.update_of_ne same] at member
        exact (traced.frames u other member).mono _
    · intro u operation id result member
      rcases List.mem_append.mp member with before | now
      · exact (traced.returned u operation id result before).imp_right fun answered => answered.mono _
      · obtain ⟨event,there,same⟩ := List.mem_map.mp now
        cases same
        exact (moves_returned brought moved there).imp_right fun answered => answered.mono _

/-- Where every reply with the id that comes is the answer with the list, a call
    of `EnumerateRemote` with the id returns the list, or nothing. -/
theorem run_enumerated (call_info : CallInfo κ) (actions : List (Tid × Action κ)) {res : List ProcDescription} {t : Tid}
    {id : CallId} {result : DataStream}
    (returned : (t,.returned .enumerateRemote id result) ∈ (run (Endpoints.step call_info) {} actions).events)
    (answers : ∀ buffer, Came (run (Endpoints.step call_info) {} actions).events buffer → Reply buffer → buffer.header.id = id →
      ∃ reply type_raw, Answer res id reply ∧ buffer = receiveCallDataBuffer type_raw reply) :
    result.isReadBufferPresent = false ∨ enumerateRemote result = res := by
  have traced := (step_traced call_info).run empty_traced actions
  refine (traced.returned t .enumerateRemote id result returned).imp_right ?_
  rintro ⟨buffer,came,reply,own,rfl⟩
  obtain ⟨packet,type_raw,answer,rfl⟩ := answers buffer came reply own
  exact (answer_received answer type_raw).2.2.2

end traced

/-! ### Both sides -/

section both
open IpcPortable.Pending IpcPortable.Draining
variable {ρ : Type} [DecidableEq ρ]

/-- The list of the peer is what `EnumerateRemote` returns. -/
structure Fetches (call_infos : CallInfos) (ipc : Internals) (res : List ProcDescription) : Prop where
  /-- A thread writes the request, the peer answers it, and with the answer among
      the packets that follow the call returns the list. -/
  asked : ∀ {Tid κ : Type} [DecidableEq Tid] (call_info : CallInfo κ) (transport : TransportShare) (t : Tid) (s : Endpoint Tid κ)
    (id : CallId) (p : PendingResponces Tid), Creates transport → ready (s.threads t) = true →
    s.pending.m_thread_waiting_transport.m_locked_id = none → newCallId s.pending = some (id,p) →
    ∃ request reply, request.bytes = packetOf pt_enumerate id [] ∧ Answer res id reply ∧
      (∀ type_raw, processBuffer call_infos ipc (receiveCallDataBuffer type_raw request) = some (call_infos,{},[.write reply])) ∧
      ∀ before after type_raw, (∀ buffer ∈ received before, ¬ (Reply buffer ∧ buffer.header.id = id)) →
        ∃ q happened rounds, Enumerated id request res happened ∧
          ∀ more, callAlone call_info transport t .enumerateRemote (rounds + more)
            ⟨s,before ++ (reply,type_raw) :: after⟩ = some ⟨behind s t q happened,after⟩
  /-- The peer passes a request that came to `ProcessBuffer`. -/
  taken_in : ∀ {Tid κ : Type} [DecidableEq Tid] (call_info : CallInfo κ) (transport : TransportShare) (t : Tid)
    (s : Endpoint Tid κ) (id : CallId) (request : Data) (type_raw : BitVec 32) (packets : List (Data × BitVec 32)),
    ready (s.threads t) = true → s.pending.m_thread_waiting_transport.m_locked_id = none →
    s.pending.m_id_data_return c_invalid_id = none →
    (∀ buffer ∈ received packets, buffer.header.type ≠ pt_undefined ∧ buffer.header.id ≠ c_invalid_id) →
    request.bytes = packetOf pt_enumerate id [] → (request,type_raw) ∈ packets →
    ∃ q happened rounds, .passed (receiveCallDataBuffer type_raw request) ∈ happened ∧
      ∀ more, callAlone call_info transport t .processTransport (rounds + more) ⟨s,packets⟩ = some ⟨behind s t q happened,[]⟩
  /-- Whatever other threads do, a call that returns a packet returns the list. -/
  returned : ∀ {Tid κ : Type} [DecidableEq Tid] (call_info : CallInfo κ) (actions : List (Tid × Endpoints.Action κ)) (t : Tid)
    (id : CallId) (result : DataStream),
    (t,.returned .enumerateRemote id result) ∈ (Runs.run (Endpoints.step call_info) {} actions).events →
    (∀ buffer, Came (Runs.run (Endpoints.step call_info) {} actions).events buffer → Reply buffer → buffer.header.id = id →
      ∃ reply type_raw, Answer res id reply ∧ buffer = receiveCallDataBuffer type_raw reply) →
    result.isReadBufferPresent = false ∨ enumerateRemote result = res

theorem fetches (call_infos : CallInfos) {ipc : Internals} {peer_transport : TransportShare}
    (alive : ipc.m_transport = some peer_transport) (peer_creates : Creates peer_transport)
    (fits : 12 + (encode .enumerateData (enumerateHandlers call_infos ipc.m_proc_map)).length < 2^32) :
    Fetches call_infos ipc (enumerateHandlers call_infos ipc.m_proc_map) where
  asked call_info transport t s id p creates free unlocked drawn := by
    have nonzero := (newCallId_result drawn).1
    obtain ⟨request,made,bytes⟩ := request_made creates nonzero
    obtain ⟨reply,answer,answered⟩ := request_answered call_infos alive peer_creates nonzero fits bytes
    exact ⟨request,reply,bytes,answer,answered,fun before after type_raw others =>
      enumerateRemote_returns call_info t s free unlocked drawn made answer type_raw others⟩
  taken_in call_info transport t s id request type_raw packets free unlocked nonzero valid bytes coming :=
    request_passed call_info transport t s free unlocked nonzero valid bytes coming
  returned call_info actions t id result returned answers := run_enumerated call_info actions returned answers

/-- Whatever the registries came through, what one of them enumerates is what its
    dispatch accepts, and what `EnumerateRemote` of the peer returns. -/
theorem enumeration_agrees (actions : List (Registries.Action ρ)) (r : ρ) :
    Agrees (Registries.run {} actions).store.call_infos ((Registries.run {} actions).proc_maps r) ∧
      ∀ (ipc : Internals) (transport : TransportShare), ipc.m_proc_map = (Registries.run {} actions).proc_maps r →
        ipc.m_transport = some transport → Creates transport →
        12 + (encode .enumerateData
          (enumerateHandlers (Registries.run {} actions).store.call_infos ipc.m_proc_map)).length < 2^32 →
        Fetches (Registries.run {} actions).store.call_infos ipc
          (enumerateHandlers (Registries.run {} actions).store.call_infos ((Registries.run {} actions).proc_maps r)) := by
  refine ⟨enumerateHandlers_agrees _ _,?_⟩
  rintro ipc transport registry alive creates fits
  rw [← registry]
  exact fetches _ alive creates fits

/-- A handler that returns a truth value, with a comment, and a procedure that is
    only declared. -/
def declared : List (Registries.Action Unit) :=
  [.addProcSignature () SharedEntries.plain
      (some { params := [], return_type := [98], m_del := .returns .bool fun _ => true }) [99],
    .addProcSignature () ⟨[103],[]⟩ none []]
def declaredPeer : Internals :=
  ⟨(Registries.run {} declared).proc_maps (),some (proxyTransport fun _ => 0),none⟩

theorem enumeration_agrees_declared :
    Agrees (Registries.run {} declared).store.call_infos declaredPeer.m_proc_map ∧
      Fetches (Registries.run {} declared).store.call_infos declaredPeer [⟨[102],[98],[],[99]⟩] :=
  ⟨(enumeration_agrees declared ()).1,
    (enumeration_agrees declared ()).2 declaredPeer _ rfl rfl (proxyTransport_creates _) (by decide)⟩

end both

end IpcPortable.Enumerations
