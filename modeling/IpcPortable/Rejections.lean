import IpcPortable.Buffers
import IpcPortable.Peers

/-!
A call that the receiver rejects, from end to end. The receiver writes one
packet with the reason. At the caller it is the response of the call: whoever
reads it stores it, the waiting thread takes it, its error handler is called
once, and the call returns the default value.
-/
namespace IpcPortable.Rejections
open IpcPortable.Runs IpcPortable.LittleEndian IpcPortable.DataStream IpcPortable.Values IpcPortable.Packets
open IpcPortable.Calls IpcPortable.Signatures IpcPortable.ProcMaps IpcPortable.Dispatch IpcPortable.Replies
open IpcPortable.Buffers IpcPortable.Pending IpcPortable.Endpoints IpcPortable.EndpointMoves IpcPortable.Peers
variable {Tid κ : Type} [DecidableEq Tid]

/-- The reason of the receiver, as the error handler of the caller gets it. -/
def Responds (call_infos : CallInfos) (proc_map : ProcMap) (proc_name return_type params_type : List Byte)
    (error : ErrorType) : Prop :=
  error = respond_no_matching_call_name_parameters ∧
      (∀ handler, ¬ Callable call_infos proc_map ⟨proc_name,params_type⟩ handler) ∨
    error = respond_no_matching_call_return_type ∧
      ∃ handler, Callable call_infos proc_map ⟨proc_name,params_type⟩ handler ∧ return_type ≠ handler.return_type

/-- What the threads of the caller do with the response of a call. -/
structure Answers (Tid κ : Type) [DecidableEq Tid] (id : CallId) (buffer : CallDataBuffer) (result : DataStream) : Prop where
  /-- Whoever reads it stores it for the call. -/
  stores : ∀ (p : PendingResponces Tid) (process_incoming_calls : Bool), p.m_id_data_return id = none →
    (writeBuffer p process_incoming_calls buffer).1.m_id_data_return id = some buffer
  /-- The call does not wait any longer when it is stored. -/
  takes : ∀ (call_info : CallInfo κ) (t : Tid) (p q : PendingResponces Tid) (frame : Activation κ), frame.id = id →
    Begins t p frame q → q.m_id_data_return id = some buffer →
    advance call_info t p frame .proceed =
      some ⟨q.eraseReply id,[frame.at (.handling buffer)],[.tookResponse id buffer]⟩
  passes : ∀ (call_info : CallInfo κ) (t : Tid) (p : PendingResponces Tid) (frame : Activation κ), frame.id = id →
    advance call_info t p (frame.at (.handling buffer)) .proceed =
      some ⟨p,[frame.at (.processing true result)],[.passed buffer]⟩

theorem takes_response (call_info : CallInfo κ) {t : Tid} {p q : PendingResponces Tid} {frame : Activation κ}
    {buffer : CallDataBuffer} (begins : Begins t p frame q) (stored : q.m_id_data_return frame.id = some buffer) :
    advance call_info t p frame .proceed =
      some ⟨q.eraseReply frame.id,[frame.at (.handling buffer)],[.tookResponse frame.id buffer]⟩ := by
  cases begins with
  | fresh at_point elsewhere =>
    have other : p.m_thread_waiting_transport.isCurrent t = false := by
      simpa [LockCurrentThreadId.isCurrent] using elsewhere
    simp only [advance,at_point,other,Bool.false_eq_true,if_false,round_response stored]
  | woken at_point => simp only [advance,at_point,round_response stored]

theorem failed_answers {buffer : CallDataBuffer} {id : CallId} (type : buffer.header.type = pt_return_fail_call)
    (own : buffer.header.id = id) : Answers Tid κ id buffer {} := by
  have reply : Reply buffer := by
    rw [Reply,type]
    decide
  refine ⟨?_,?_,?_⟩
  · intro p process_incoming_calls absent
    rw [writeBuffer_replies,own,if_pos ⟨reply,absent⟩,Function.update_self]
  · intro call_info t p q frame same begins stored
    subst same
    exact takes_response call_info begins stored
  · intro call_info t p frame same
    have precessed : responsePrecessed buffer frame.id = true := by
      simp [responsePrecessed,type,own,same,pt_return_fail_call,pt_return,pt_count_not_a_type]
    have nothing : processBufferResult buffer = {} := by
      rw [processBufferResult,type]
      rfl
    simp [advance,Activation.at,precessed,nothing]

/-- A step of the topmost activation of a thread. -/
theorem run_moves (call_info : CallInfo κ) {t : Tid} {p q : PendingResponces Tid} {threads : Tid → List (Activation κ)}
    {events : List (Tid × Event κ)} {frame : Activation κ} {frames below above : List (Activation κ)} {move : Move}
    {happened : List (Event κ)} (moved : advance call_info t p frame move = some ⟨q,frames,happened⟩)
    (left : frames ++ below = above) (rest : List (Tid × Action κ)) :
    run (Endpoints.step call_info) { pending := p, threads := Function.update threads t (frame :: below), events }
        ((t,.move move) :: rest) =
      run (Endpoints.step call_info)
        { pending := q, threads := Function.update threads t above, events := events ++ happened.map (t,·) } rest := by
  subst left
  have stepped : Endpoints.step call_info
      { pending := p, threads := Function.update threads t (frame :: below), events } (t,.move move) =
      some { pending := q
             threads := Function.update threads t (frames ++ below)
             events := events ++ happened.map (t,·) } := by
    simp [Endpoints.step,moved]
  rw [run,stepped,Option.getD_some]

omit [DecidableEq Tid] in
/-- A call that waits goes on after it entered what it read. -/
theorem writeBuffer_goes_on {frame : Activation κ} (waits : frame.id ≠ c_invalid_id) (p : PendingResponces Tid)
    (buffer : CallDataBuffer) : frame.writeBuffer p true buffer =
      ⟨(Pending.writeBuffer p frame.operation.processIncomingCalls buffer).1,[frame.at .readBuffer],
        [.entered buffer]⟩ := by
  unfold Activation.writeBuffer
  simp [waits]

/-- The steps by which a thread reads the response of its own call. -/
def readsOwn (t : Tid) (packet : Data) (type_raw : BitVec 32) : List (Tid × Action κ) :=
  [(t,.move (.read true (some packet) type_raw)),(t,.move .proceed),(t,.move .proceed),(t,.move .proceed),
    (t,.move .proceed)]

/-- The thread that reads the response of its own call returns. -/
theorem answers_returns {id : CallId} {type_raw : BitVec 32} {packet : Data} {result : DataStream}
    (answers : Answers Tid κ id (receiveCallDataBuffer type_raw packet) result) (call_info : CallInfo κ)
    {s : Endpoint Tid κ} {t : Tid} {frame : Activation κ} {below : List (Activation κ)}
    (running : s.threads t = frame :: below) (own : frame.id = id) (reading : frame.point = .reading)
    (waits : id ≠ c_invalid_id) (absent : s.pending.m_id_data_return id = none) :
    (run (Endpoints.step call_info) s (readsOwn t packet type_raw)).threads t = below ∧
      (run (Endpoints.step call_info) s (readsOwn t packet type_raw)).events = s.events ++
        ([.received (receiveCallDataBuffer type_raw packet),.entered (receiveCallDataBuffer type_raw packet),
          .tookResponse id (receiveCallDataBuffer type_raw packet),.passed (receiveCallDataBuffer type_raw packet),
          .left .response,.returned frame.operation id result] : List (Event κ)).map (t,·) := by
  subst own
  generalize received : receiveCallDataBuffer type_raw packet = buffer at answers
  have state : s = { pending := s.pending, threads := Function.update s.threads t (frame :: below), events := s.events } := by
    rw [← running,Function.update_eq_self]
  have reads : advance call_info t s.pending frame (.read true (some packet) type_raw) =
      some ⟨s.pending,[frame.at (.writeBuffer true buffer)],[.received buffer]⟩ := by
    simp only [advance,reading,received]
  have entered : advance call_info t s.pending (frame.at (.writeBuffer true buffer)) .proceed =
      some ⟨(writeBuffer s.pending frame.operation.processIncomingCalls buffer).1,[frame.at .readBuffer],
        [.entered buffer]⟩ := by
    show some ((frame.at (.writeBuffer true buffer)).writeBuffer s.pending true buffer) = _
    rw [writeBuffer_goes_on (show (frame.at (.writeBuffer true buffer)).id ≠ c_invalid_id from waits)]
    rfl
  have stored := answers.stores s.pending frame.operation.processIncomingCalls absent
  generalize writeBuffer_free : (writeBuffer s.pending frame.operation.processIncomingCalls buffer).1 = p at entered stored
  have unlocked : p.m_thread_waiting_transport.m_locked_id = none := writeBuffer_free ▸ writeBuffer_transport ..
  have begins : Begins t p (frame.at .readBuffer) p := .fresh rfl (by rw [unlocked]; exact nofun)
  have takes : advance call_info t p (frame.at .readBuffer) .proceed =
      some ⟨p.eraseReply frame.id,[frame.at (.handling buffer)],[.tookResponse frame.id buffer]⟩ :=
    answers.takes call_info t p p (frame.at .readBuffer) rfl begins stored
  have passes := answers.passes call_info t (p.eraseReply frame.id) frame rfl
  have returns : advance call_info t (p.eraseReply frame.id) (frame.at (.processing true result)) .proceed =
      some ⟨p.eraseReply frame.id,[],frame.leave .response result⟩ := by
    simp [advance,Activation.at,Activation.leave]
  have final : run (Endpoints.step call_info) s (readsOwn t packet type_raw) =
      { pending := p.eraseReply frame.id
        threads := Function.update s.threads t below
        events := ((((s.events ++ [(t,.received buffer)]) ++ [(t,.entered buffer)]) ++
          [(t,.tookResponse frame.id buffer)]) ++ [(t,.passed buffer)]) ++ (frame.leave .response result).map (t,·) } := by
    conv_lhs => rw [state]
    rw [readsOwn,run_moves call_info reads List.singleton_append,run_moves call_info entered List.singleton_append,
      run_moves call_info takes List.singleton_append,run_moves call_info passes List.singleton_append,
      run_moves call_info returns (List.nil_append _)]
    rfl
  rw [final]
  refine ⟨Function.update_self ..,?_⟩
  simp [Activation.leave]

/-! ### At the caller -/

theorem extractErrorArg_decodes (error_arg : ErrorArg) :
    Decodes extractErrorArg (encodeFail error_arg) error_arg := by
  have error : Decodes (extract (.integer false .one) unknown_error)
      (bytesOf 1 (show BitVec (8*1) from error_arg.error)) error_arg.error :=
    readBytes_decodes 1 unknown_error error_arg.error
  have message := extract_decodes .string ([] : List Byte) error_arg.message
  exact error.bind (message.map fun message => ({ error := error_arg.error, message } : ErrorArg))

/-- The error handler of the caller is called once, with the reason. -/
theorem failed_reported {buffer : CallDataBuffer} {error_arg : ErrorArg} (type : buffer.header.type = pt_return_fail_call)
    (reads : Reads buffer.data (encodeFail error_arg)) (call_infos : CallInfos) {caller : Internals} {callback : Callback}
    (installed : caller.m_proc_map.m_OnInvalidRemoteCall = some callback) (callable : callback.is_callable = true)
    (direct : isDirectCall caller.m_inter_thread_nullable callback.m_thread_id = true) :
    processBuffer call_infos caller buffer = some (call_infos,{},
      [.errorOccured callback { error_arg with error := respondError error_arg.error }]) := by
  have whole : Reads buffer.data (encodeFail error_arg ++ []) := by rwa [List.append_nil]
  have decoded := extractErrorArg_decodes error_arg buffer.data [] whole
  have call : ¬ pt_return_fail_call = pt_call := by decide
  have quiet (n : Nat) : raisedSince buffer.data (buffer.data.advance n) = [] := by
    simp [raisedSince,DataStream.advance]
  unfold processBuffer
  rw [type,if_neg call,if_pos rfl,decoded]
  simp [quiet,sendErrorMessage,installed,callable,direct]

theorem refusal_responds {call_infos : CallInfos} {proc_map : ProcMap} {proc_name return_type params_type : List Byte}
    {error : ErrorType} (refusal : Refusal call_infos proc_map ⟨proc_name,params_type⟩ error)
    (rejected : ∀ handler, ¬ Accepts call_infos proc_map proc_name return_type params_type handler) :
    Responds call_infos proc_map proc_name return_type params_type (respondError error) := by
  rcases refusal with ⟨rfl,none⟩ | ⟨rfl,handler,callable⟩
  · exact .inl ⟨rfl,none⟩
  · refine .inr ⟨rfl,handler,callable,?_⟩
    rintro rfl
    exact rejected handler ⟨callable,.inr rfl⟩

/-- A call that waits and that no handler of the receiver accepts. -/
theorem rejection_reported (call_infos : CallInfos) (ipc : Internals) (transport : TransportShare) (packet : Data)
    (type_raw : BitVec 32) (no_header_size : Nat) (id : CallId) (proc_name return_type params_type arguments : List Byte)
    (caller_infos : CallInfos) (caller : Internals) (callback : Callback)
    (alive : ipc.m_transport = some transport) (creates : Creates transport) (nonzero : id ≠ c_invalid_id)
    (wellformed : packet.bytes = encodeHeader no_header_size pt_call id ++
      (encodeSignature proc_name true return_type params_type ++ arguments))
    (rejected : ∀ handler, ¬ Accepts call_infos ipc.m_proc_map proc_name return_type params_type handler)
    (installed : caller.m_proc_map.m_OnInvalidRemoteCall = some callback) (callable : callback.is_callable = true)
    (direct : isDirectCall caller.m_inter_thread_nullable callback.m_thread_id = true) :
    ∃ call_infos' effects reply error,
      invokeLocal call_infos ipc (receiveCallDataBuffer type_raw packet).data
        (receiveCallDataBuffer type_raw packet).header.id = some (call_infos',effects) ∧
      writes effects = [reply] ∧ invocations effects = [] ∧
      Responds call_infos ipc.m_proc_map proc_name return_type params_type error ∧
      ∀ type_raw,
        processBuffer caller_infos caller (receiveCallDataBuffer type_raw reply) = some (caller_infos,{},
          [.errorOccured callback ⟨error,return_type ++ [32] ++ proc_name ++ [40] ++ params_type ++ [41]⟩]) ∧
        Answers Tid κ id (receiveCallDataBuffer type_raw reply) {} ∧
        (∀ (call_info : CallInfo κ) (s : Endpoint Tid κ) (t : Tid) (frame : Activation κ) (below : List (Activation κ)),
          s.threads t = frame :: below → frame.id = id → frame.point = .reading → s.pending.m_id_data_return id = none →
          (run (Endpoints.step call_info) s (readsOwn t reply type_raw)).threads t = below ∧
          (run (Endpoints.step call_info) s (readsOwn t reply type_raw)).events = s.events ++
            ([.received (receiveCallDataBuffer type_raw reply),.entered (receiveCallDataBuffer type_raw reply),
              .tookResponse id (receiveCallDataBuffer type_raw reply),.passed (receiveCallDataBuffer type_raw reply),
              .left .response,.returned frame.operation id {}] : List (Event κ)).map (t,·)) ∧
        ∀ τ, waitInvokeRet τ {} = τ.default := by
  obtain ⟨header,_,reads⟩ := receiveCallDataBuffer_reads type_raw wellformed
  obtain ⟨call_infos',quiet,invoke,_,_,ran,_⟩ := invokeLocal_outcome call_infos alive reads id
  obtain ⟨calls,error,refusal,replies⟩ := invokeLocal_rejected alive creates nonzero wellformed rejected ran
  rw [if_pos rfl] at replies
  obtain ⟨reply,written,bytes⟩ := List.map_eq_singleton_iff.mp replies
  rw [header]
  refine ⟨call_infos',_,reply,respondError error,ran,written,calls,refusal_responds refusal rejected,?_⟩
  intro type_raw
  obtain ⟨type,own,body⟩ := reply_received type_raw bytes
  have answers : Answers Tid κ id (receiveCallDataBuffer type_raw reply) {} := failed_answers type own
  refine ⟨?_,answers,?_,fun τ => rfl⟩
  · exact failed_reported type body caller_infos installed callable direct
  · intro call_info s t frame below running same reading absent
    exact answers_returns answers call_info running same reading nonzero absent

/-! ### A call of a procedure that is only looked up -/

/-- Entries that nobody implements. -/
def notImplemented : CallInfos := fun _ => { signature := ⟨[110],[]⟩ }
/-- A caller with an error handler. -/
def callerOf : Internals where
  m_proc_map := { ProcMap.single ⟨[110],[]⟩ { call_info := 0 } with m_OnInvalidRemoteCall := some {} }
  m_transport := some (proxyTransport fun _ => 0)
  m_inter_thread_nullable := none

theorem notImplemented_callable (proc_map : ProcMap) (signature : Signature) (handler : InvokeRemote) :
    ¬ Callable notImplemented proc_map signature handler := by
  rintro ⟨_,_,_,installed,_⟩
  exact nomatch installed

/-- The call `n()` at an endpoint that has no handler for it. -/
theorem rejection_reported_missing :
    ∃ call_infos' effects reply,
      invokeLocal notImplemented endpointOf (receiveCallDataBuffer 0 callOf).data
        (receiveCallDataBuffer 0 callOf).header.id = some (call_infos',effects) ∧
      writes effects = [reply] ∧
      processBuffer notImplemented callerOf (receiveCallDataBuffer 0 reply) = some (notImplemented,{},
        [.errorOccured {} ⟨respond_no_matching_call_name_parameters,[32,110,40,41]⟩]) ∧
      Answers Unit Unit 1 (receiveCallDataBuffer 0 reply) {} := by
  obtain ⟨call_infos',effects,reply,error,ran,written,_,responds,received⟩ :=
    @rejection_reported Unit Unit _ notImplemented endpointOf (proxyTransport fun _ => 0) callOf 0 14 1 [110]
      [] [] [] notImplemented callerOf {} rfl (proxyTransport_creates _) (by decide) rfl
      (fun handler accepts => notImplemented_callable _ _ _ accepts.callable) rfl rfl rfl
  obtain ⟨reported,answers,_⟩ := received 0
  refine ⟨call_infos',effects,reply,ran,written,?_,answers⟩
  rcases responds with ⟨rfl,_⟩ | ⟨_,handler,callable,_⟩
  · exact reported
  · exact absurd callable (notImplemented_callable _ _ _)

end IpcPortable.Rejections
