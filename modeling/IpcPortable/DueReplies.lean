import IpcPortable.CallCounts
import IpcPortable.Connections

/-!
What a side owes for a packet that asks for something. The dispatch runs the
handler that accepts the call or posts its call, and a reply that is written or
posted answers the operation at the other side: with the result of the handler that
was run, with the reason why there is none, or with the list of the handlers.
-/
namespace IpcPortable.DueReplies
open IpcPortable.LittleEndian IpcPortable.DataStream IpcPortable.Values IpcPortable.Packets IpcPortable.Calls
open IpcPortable.Signatures IpcPortable.ProcMaps IpcPortable.Dispatch IpcPortable.Replies IpcPortable.Buffers
open IpcPortable.Pending IpcPortable.Endpoints IpcPortable.Peers IpcPortable.Enumerations IpcPortable.Connections

/-- The call that an operation makes. -/
def callOf : Operation Invocation → Option Invocation
  | .waitInvoke call _ => some call
  | .asyncInvoke call => some call
  | _ => none
/-- The packet that an operation writes. -/
def Asks (id : CallId) (packet : Data) : Operation Invocation → Prop
  | .waitInvoke call _ => ∃ tail, packet.bytes = encodeHeader call.encoded.length pt_call id ++
      (encodeCall call.proc_name true call.return_type call.params call.args ++ tail)
  | .asyncInvoke call => ∃ tail, packet.bytes = encodeHeader call.encoded.length pt_call id ++
      (encodeCall call.proc_name false call.return_type call.params call.args ++ tail)
  | .enumerateRemote => packet.bytes = packetOf pt_enumerate id []
  | .processTransport => False

/-- The handlers are the same, whatever was counted. -/
def SameHandlers (call_infos call_infos' : CallInfos) : Prop := ∀ p, (call_infos' p).m_invoke = (call_infos p).m_invoke

section registry
variable (call_infos : CallInfos) (proc_map : ProcMap)

/-- The handler accepts the call. -/
def Takes (call : Invocation) (handler : InvokeRemote) : Prop :=
  Accepts call_infos proc_map call.proc_name call.return_type (paramsType call.params) handler
/-- A handler that accepts the call of an operation has parameters of the types of
    its arguments, and a result that fits into a packet; a list fits too. -/
def Typed : Operation Invocation → Prop
  | .processTransport => True
  | .enumerateRemote => 12 + (encode .enumerateData (enumerateHandlers call_infos proc_map)).length < 2^32
  | operation => ∀ call, callOf operation = some call → ∀ handler, Takes call_infos proc_map call handler →
    handler.params = call.args.map Sigma.fst ∧ 12 + (encodeRet (delegateRet handler.m_del call.args)).length < 2^32
/-- A handler is run for an operation. -/
def Runs (operation : Operation Invocation) (run : InvokeRemote × List Value) : Prop :=
  ∃ call, callOf operation = some call ∧ Takes call_infos proc_map call run.1 ∧ run.2 = call.args

/-- What a reply says to the operation with the id; `ran` are the handlers that were run. -/
inductive Answers (ran : List (CallId × InvokeRemote × List Value)) (id : CallId) :
    Operation Invocation → PacketType → List Byte → Prop
  | value {call : Invocation} {process_incoming_calls : Bool} {handler : InvokeRemote}
    (takes : Takes call_infos proc_map call handler) (once : (id,handler,call.args) ∈ ran) :
    Answers ran id (.waitInvoke call process_incoming_calls) pt_return (encodeRet (delegateRet handler.m_del call.args))
  | refused {call : Invocation} {process_incoming_calls : Bool} {error_arg : ErrorArg}
    (refuses : ∀ handler, ¬ Takes call_infos proc_map call handler) :
    Answers ran id (.waitInvoke call process_incoming_calls) pt_return_fail_call (encodeFail error_arg)
  | listed : Answers ran id .enumerateRemote pt_return_enumerate
      (encode .enumerateData (enumerateHandlers call_infos proc_map))
/-- The packet is such a reply. -/
def Replies (ran : List (CallId × InvokeRemote × List Value)) (id : CallId) (operation : Operation Invocation)
    (packet : Data) : Prop :=
  ∃ type body, packet.bytes = packetOf type id body ∧ Answers call_infos proc_map ran id operation type body
/-- What a job is for. -/
def DueJob (ran : List (CallId × InvokeRemote × List Value)) (id : CallId) (operation : Operation Invocation) : Job → Prop
  | .callJob call_info_data respond_id handler =>
    Runs call_infos proc_map operation (handler,handlerArgs handler call_info_data) ∧
      respond_id = if operation.waitsReturn then id else c_invalid_id
  | .resultJob result => ∃ packet, result = some packet ∧ Replies call_infos proc_map ran id operation packet
  | _ => False
/-- The job calls a handler. -/
def isCall : Job → Bool
  | .callJob _ _ _ => true
  | _ => false
/-- How many handlers are run, now or by a job. -/
def runsOf (effects : List Effect) : Nat := ((callJobs effects).filter isCall).length + (invocations effects).length
/-- Some handler accepts the call of the operation. -/
def Taken (operation : Operation Invocation) : Prop :=
  ∃ call handler, callOf operation = some call ∧ Takes call_infos proc_map call handler
/-- One handler is run if one accepts the call, and none otherwise. -/
def RunsOnce (operation : Operation Invocation) (effects : List Effect) : Prop :=
  (Taken call_infos proc_map operation → runsOf effects = 1) ∧ (¬ Taken call_infos proc_map operation → runsOf effects = 0)
/-- The effects serve the operation, and answer it once if it waits. -/
structure Due (ran : List (CallId × InvokeRemote × List Value)) (id : CallId) (operation : Operation Invocation)
    (effects : List Effect) : Prop where
  answers : operation.waitsReturn = true → (writes effects).length + (callJobs effects).length = 1
  writes : ∀ packet ∈ writes effects, Replies call_infos proc_map (ran ++ (invocations effects).map (id,·)) id operation packet
  jobs : ∀ job ∈ callJobs effects, DueJob call_infos proc_map (ran ++ (invocations effects).map (id,·)) id operation job
  runs : ∀ run ∈ invocations effects, Runs call_infos proc_map operation run

end registry

/-! ### Counting changes no handler -/

section same
variable {call_infos call_infos' : CallInfos} {proc_map : ProcMap}

theorem SameHandlers.trans {call_infos'' : CallInfos} (first : SameHandlers call_infos call_infos')
    (second : SameHandlers call_infos' call_infos'') : SameHandlers call_infos call_infos'' :=
  fun p => (second p).trans (first p)

theorem SameHandlers.accepts (same : SameHandlers call_infos call_infos') (proc_name return_type params_type : List Byte)
    (handler : InvokeRemote) : Accepts call_infos' proc_map proc_name return_type params_type handler ↔
      Accepts call_infos proc_map proc_name return_type params_type handler := by
  have callable : Callable call_infos' proc_map ⟨proc_name,params_type⟩ handler ↔
      Callable call_infos proc_map ⟨proc_name,params_type⟩ handler := by
    simp only [Callable,same _]
  exact ⟨fun accepts => ⟨callable.mp accepts.callable,accepts.returns⟩,
    fun accepts => ⟨callable.mpr accepts.callable,accepts.returns⟩⟩

theorem SameHandlers.enumerated (same : SameHandlers call_infos call_infos') :
    enumerateHandlers call_infos' proc_map = enumerateHandlers call_infos proc_map := by
  simp only [enumerateHandlers,CallInfoImpl.isInvokable,same _]

theorem counted_same {call_infos'' : CallInfos} {ipc : Internals} {transport : TransportShare}
    (alive : ipc.m_transport = some transport) {call_info_data : DataStream} {id : CallId} {effects : List Effect}
    (ran : invokeLocal call_infos ipc call_info_data id = some (call_infos'',effects)) :
    SameHandlers call_infos call_infos'' := by
  rcases CallCounts.invokeLocal_counted alive ran with ⟨_,rfl⟩ | ⟨p,_,rfl,_⟩
  · exact fun _ => rfl
  · intro other
    by_cases here : other = p
    · rw [here,Function.update_self]
      rfl
    · rw [Function.update_of_ne here]

end same

/-! ### Jobs among the effects -/

@[simp] theorem callJobs_append (a b : List Effect) : callJobs (a ++ b) = callJobs a ++ callJobs b := List.filterMap_append

theorem callJobs_raised {effects : List Effect} (raised : ∀ {effect}, effect ∈ effects → effect = .raised) :
    callJobs effects = [] := by
  refine List.filterMap_eq_nil_iff.mpr fun effect member => ?_
  rw [raised member]

theorem callJobs_sendErrorMessage (inter_thread_nullable : Option Transthread) (callback : Option Callback)
    (error_arg : ErrorArg) : callJobs (sendErrorMessage inter_thread_nullable callback error_arg) = [] := by
  refine List.filterMap_eq_nil_iff.mpr fun effect member => ?_
  obtain ⟨_,_,_,rfl | rfl⟩ := sendErrorMessage_effects member <;> rfl

theorem callJobs_countCall (call_infos : CallInfos) (ipc : Internals) (invoke : AnalizeInvokeDataRes) :
    callJobs (countCall call_infos ipc invoke).2 = [] := by
  refine List.filterMap_eq_nil_iff.mpr fun effect member => ?_
  obtain ⟨_,_,_,_,⟨_,rfl⟩ | rfl⟩ := countCall_effects member <;> rfl

theorem callJobs_analizeNames {call_infos : CallInfos} {ipc : Internals} {names : DeserializedFindCallInfo}
    {invoke : AnalizeInvokeDataRes} {reported : List Effect}
    (result : analizeNames call_infos ipc names = some (invoke,reported)) : callJobs reported = [] := by
  obtain ⟨found,_,result⟩ := Option.bind_eq_some_iff.mp result
  have refused (error : ErrorType)
      (result : reportError_FindCallInfo names error found ipc.m_inter_thread_nullable = some (invoke,reported)) :
      callJobs reported = [] := by
    obtain ⟨_,_,result⟩ := Option.bind_eq_some_iff.mp result
    obtain ⟨_,_,result⟩ := Option.bind_eq_some_iff.mp result
    obtain ⟨_,_,result⟩ := Option.bind_eq_some_iff.mp result
    cases result
    exact callJobs_sendErrorMessage _ _ _
  split at result
  · split at result
    · obtain ⟨same,_,result⟩ := Option.bind_eq_some_iff.mp result
      split at result
      · cases result
        rfl
      · exact refused _ result
    · cases result
      rfl
  · exact refused _ result

/-! ### Running a handler -/

section serves
variable {call_infos : CallInfos} {proc_map : ProcMap} {ran : List (CallId × InvokeRemote × List Value)} {id : CallId}
variable {operation : Operation Invocation} {ipc : Internals} {transport : TransportShare}

section mono
variable {ran' : List (CallId × InvokeRemote × List Value)} (sub : ran ⊆ ran')
include sub

theorem Answers.mono {type : PacketType} {body : List Byte} (answers : Answers call_infos proc_map ran id operation type body) :
    Answers call_infos proc_map ran' id operation type body := by
  cases answers with
  | value takes once => exact .value takes (sub once)
  | refused refuses => exact .refused refuses
  | listed => exact .listed

theorem Replies.mono {packet : Data} (replies : Replies call_infos proc_map ran id operation packet) :
    Replies call_infos proc_map ran' id operation packet := by
  obtain ⟨type,body,bytes,answers⟩ := replies
  exact ⟨type,body,bytes,answers.mono sub⟩

theorem DueJob.mono {job : Job} (due : DueJob call_infos proc_map ran id operation job) :
    DueJob call_infos proc_map ran' id operation job := by
  cases job with
  | callJob call_info_data respond_id handler => exact due
  | resultJob result =>
    obtain ⟨packet,same,replies⟩ := due
    exact ⟨packet,same,replies.mono sub⟩
  | countJob _ _ => exact due.elim
  | errorJob _ _ => exact due.elim

theorem Due.mono {effects : List Effect} (due : Due call_infos proc_map ran id operation effects) :
    Due call_infos proc_map ran' id operation effects where
  writes packet member := (due.writes packet member).mono
    (List.append_subset.mpr ⟨List.subset_append_of_subset_left _ sub,List.subset_append_right _ _⟩)
  jobs job member := (due.jobs job member).mono
    (List.append_subset.mpr ⟨List.subset_append_of_subset_left _ sub,List.subset_append_right _ _⟩)
  runs := due.runs
  answers := due.answers

end mono

/-- No handler is run, and what is written or posted answers the operation. -/
theorem due_quiet {effects : List Effect} (uncalled : invocations effects = [])
    (written : ∀ packet ∈ writes effects, Replies call_infos proc_map ran id operation packet)
    (posted : callJobs effects = []) (answers : operation.waitsReturn = true → (writes effects).length = 1) :
    Due call_infos proc_map ran id operation effects where
  writes packet member := (written packet member).mono (List.subset_append_left _ _)
  jobs job member := by
    rw [posted] at member
    cases member
  runs run member := by
    rw [uncalled] at member
    cases member
  answers waits := by
    rw [posted,answers waits]
    rfl

/-- A packet with a header is given to the transport. -/
theorem resultJobInvoke_sends (alive : ipc.m_transport = some transport) {packet : Data} {type : PacketType}
    {body : List Byte} (bytes : packet.bytes = packetOf type id body) :
    resultJobInvoke ipc.m_transport (some packet) = [.write packet] := by
  have whole : packet.size ≥ c_net_call_packet_header_size := by
    simp [Data.size,bytes,packetOf,c_net_call_packet_header_size]
  simp [resultJobInvoke,alive,whole]

theorem due_resultJob (alive : ipc.m_transport = some transport) {packet : Data}
    (replies : Replies call_infos proc_map ran id operation packet) :
    Due call_infos proc_map ran id operation (resultJobInvoke ipc.m_transport (some packet)) := by
  have sends : resultJobInvoke ipc.m_transport (some packet) = [.write packet] := by
    obtain ⟨type,body,bytes,_⟩ := replies
    exact resultJobInvoke_sends alive bytes
  rw [sends]
  exact due_quiet rfl (fun written member => List.mem_singleton.mp member ▸ replies) rfl fun _ => rfl

/-- The call of the handler itself, before the reply is sent. -/
theorem invokeRemoteInvoke_effects (handler : InvokeRemote) (weak : Option TransportShare) (respond_id : CallId)
    (params : DataStream) :
    invocations (invokeRemoteInvoke handler weak respond_id params).2 = [(handler,handlerArgs handler params)] ∧
      writes (invokeRemoteInvoke handler weak respond_id params).2 = [] ∧
      callJobs (invokeRemoteInvoke handler weak respond_id params).2 = [] := by
  have before := raisedSince_silent params (deserializeArgs handler.params params).2
  have after := serializeReturn_silent weak respond_id
    (delegateRet handler.m_del (deserializeArgs handler.params params).1)
  have first : callJobs (raisedSince params (deserializeArgs handler.params params).2) = [] := callJobs_raised raisedSince_raised
  have last : callJobs (serializeReturn weak respond_id
      (delegateRet handler.m_del (deserializeArgs handler.params params).1)).2 = [] := callJobs_raised serializeReturn_raised
  unfold invokeRemoteInvoke
  dsimp only
  refine ⟨?_,?_,?_⟩
  · rw [invocations_append,before.invocations,invocations_invoked,after.invocations]
    rfl
  · rw [writes_append,before.writes,writes_invoked,after.writes]
    rfl
  · rw [callJobs_append,first]
    exact last

/-- A handler that is called serves the operation, whoever sends the result. -/
theorem due_callJob (alive : ipc.m_transport = some transport) (creates : Creates transport) (nonzero : id ≠ c_invalid_id)
    (typed : Typed call_infos proc_map operation) {call_info_data : DataStream} {respond_id : CallId} {handler : InvokeRemote}
    (due : DueJob call_infos proc_map ran id operation (.callJob call_info_data respond_id handler)) :
    Due call_infos proc_map ran id operation
      (callJobInvoke ipc.m_transport ipc.m_inter_thread_nullable call_info_data handler respond_id) := by
  obtain ⟨⟨call,made,takes,args⟩,responds⟩ := due
  dsimp only at takes args
  obtain ⟨invoked,unwritten,unposted⟩ := invokeRemoteInvoke_effects handler ipc.m_transport respond_id call_info_data
  have runs : ∀ run ∈ [(handler,handlerArgs handler call_info_data)], Runs call_infos proc_map operation run := by
    intro run member
    rw [List.mem_singleton.mp member]
    exact ⟨call,made,takes,args⟩
  unfold callJobInvoke
  dsimp only
  cases operation with
  | processTransport => cases made
  | enumerateRemote => cases made
  | asyncInvoke other =>
    obtain rfl : respond_id = c_invalid_id := responds
    rw [if_neg (not_not.mpr rfl),List.append_nil]
    exact {
      writes := fun packet member => by rw [unwritten] at member; cases member
      jobs := fun job member => by rw [unposted] at member; cases member
      runs := invoked ▸ runs
      answers := Bool.noConfusion }
  | waitInvoke other process_incoming_calls =>
    obtain rfl : respond_id = id := responds
    obtain rfl : other = call := Option.some.inj made
    obtain ⟨_,fits⟩ := typed other rfl handler takes
    rw [← args] at fits
    obtain ⟨packet,result,bytes⟩ := serializeReturn_packet creates nonzero
      (delegateRet handler.m_del (handlerArgs handler call_info_data)) fits
    have answer : (invokeRemoteInvoke handler ipc.m_transport respond_id call_info_data).1 = some packet := by
      rw [alive]
      exact result
    have replies : Replies call_infos proc_map
        (ran ++ [(handler,handlerArgs handler call_info_data)].map (respond_id,·)) respond_id
        (.waitInvoke other process_incoming_calls) packet := by
      refine ⟨pt_return,_,bytes,?_⟩
      rw [args]
      exact .value takes (List.mem_append_right _ List.mem_cons_self)
    rw [if_pos nonzero,answer]
    cases ipc.m_inter_thread_nullable with
    | some inter_thread =>
      exact {
        writes := fun packet member => by
          rw [writes_append,unwritten] at member
          cases member
        jobs := fun job member => by
          rw [callJobs_append,unposted] at member
          rw [List.mem_singleton.mp member,invocations_append,invoked]
          exact ⟨packet,rfl,replies⟩
        runs := by
          rw [invocations_append,invoked]
          exact runs
        answers := fun _ => by
          rw [writes_append,unwritten,callJobs_append,unposted]
          rfl }
    | none =>
      dsimp only
      rw [resultJobInvoke_sends alive bytes]
      exact {
        writes := fun written member => by
          rw [writes_append,unwritten] at member
          rw [List.mem_singleton.mp member,invocations_append,invoked]
          exact replies
        jobs := fun job member => by
          rw [callJobs_append,unposted] at member
          cases member
        runs := by
          rw [invocations_append,invoked]
          exact runs
        answers := fun _ => by
          rw [writes_append,unwritten,callJobs_append,unposted]
          rfl }

theorem callJobs_resultJobInvoke (weak : Option TransportShare) (result : Option Data) :
    callJobs (resultJobInvoke weak result) = [] := by
  obtain ⟨effect,sent,kind⟩ := resultJobInvoke_single weak result
  rw [sent]
  rcases kind with rfl | rfl | ⟨_,rfl⟩ <;> rfl

/-- Only a posted call calls a handler, and once. -/
theorem jobInvoke_runs (ipc : Internals) (job : Job) : runsOf (jobInvoke ipc job) = if isCall job then 1 else 0 := by
  cases job with
  | callJob call_info_data respond_id handler =>
    obtain ⟨invoked,_,unposted⟩ := invokeRemoteInvoke_effects handler ipc.m_transport respond_id call_info_data
    unfold jobInvoke callJobInvoke runsOf
    dsimp only
    rw [callJobs_append,unposted,invocations_append,invoked]
    split
    · split
      · rfl
      · rw [callJobs_resultJobInvoke,resultJobInvoke_invocations]
        rfl
    · rfl
  | resultJob result =>
    rw [jobInvoke,runsOf,callJobs_resultJobInvoke,resultJobInvoke_invocations]
    rfl
  | countJob _ _ => rfl
  | errorJob _ _ => rfl

/-! ### The dispatch of a packet -/

theorem asks_header {packet : Data} (asks : Asks id packet operation) :
    ∃ no_header_size pt body, packet.bytes = encodeHeader no_header_size pt id ++ body ∧ (pt = pt_enumerate ∨ pt = pt_call) := by
  cases operation with
  | processTransport => exact asks.elim
  | enumerateRemote => exact ⟨_,_,_,asks,.inl rfl⟩
  | waitInvoke call process_incoming_calls =>
    obtain ⟨tail,bytes⟩ := asks
    exact ⟨_,_,_,bytes,.inr rfl⟩
  | asyncInvoke call =>
    obtain ⟨tail,bytes⟩ := asks
    exact ⟨_,_,_,bytes,.inr rfl⟩

/-- The handler that accepts a call gets its arguments. -/
theorem handlerArgs_sent {call : Invocation} {handler : InvokeRemote} (params : handler.params = call.args.map Sigma.fst)
    {call_info_data : DataStream} {send_return : Bool} {tail : List Byte}
    (reads : DataStream.Reads call_info_data
      (encodeCall call.proc_name send_return call.return_type call.params call.args ++ tail)) :
    handlerArgs handler (deserializeNameSignature call_info_data).2 = call.args := by
  rw [encodeCall,List.append_assoc] at reads
  obtain ⟨_,moved⟩ := deserializeNameSignature_yields _ _ _ _ _ _ reads
  have behind := reads.advance
  rw [← moved] at behind
  rw [handlerArgs,params,deserializeArgs_decodes call.args _ tail behind]

theorem typed_call (typed : Typed call_infos proc_map operation) {call : Invocation} (made : callOf operation = some call)
    {handler : InvokeRemote} (takes : Takes call_infos proc_map call handler) :
    handler.params = call.args.map Sigma.fst ∧ 12 + (encodeRet (delegateRet handler.m_del call.args)).length < 2^32 := by
  cases operation with
  | processTransport => cases made
  | enumerateRemote => cases made
  | waitInvoke other process_incoming_calls => exact typed call made handler takes
  | asyncInvoke other => exact typed call made handler takes

theorem due_behind {quiet effects : List Effect} (silent : Silent quiet) (unposted : callJobs quiet = [])
    (due : Due call_infos proc_map ran id operation effects) : Due call_infos proc_map ran id operation (quiet ++ effects) where
  writes := by
    rw [writes_append,silent.writes,invocations_append,silent.invocations]
    exact due.writes
  jobs := by
    rw [callJobs_append,unposted,invocations_append,silent.invocations]
    exact due.jobs
  runs := by
    rw [invocations_append,silent.invocations]
    exact due.runs
  answers := by
    rw [writes_append,silent.writes,callJobs_append,unposted]
    exact due.answers

theorem runsOf_behind {quiet effects : List Effect} (silent : Silent quiet) (unposted : callJobs quiet = []) :
    runsOf (quiet ++ effects) = runsOf effects := by
  rw [runsOf,callJobs_append,unposted,invocations_append,silent.invocations]
  rfl

theorem callJobs_refused {call_info_data : DataStream} {invoke : AnalizeInvokeDataRes} (missing : invoke.invoke_base = none) :
    callJobs (invokeOrFail ipc transport call_info_data id invoke) = [] := by
  unfold invokeOrFail
  rw [missing]
  dsimp only
  split
  · split
    · rw [callJobs_append,callJobs_raised raisedSince_raised]
      split <;> rfl
    · rfl
  · rfl

/-- What the dispatch of a call leaves to do. -/
theorem invokeLocal_due (alive : ipc.m_transport = some transport) (creates : Creates transport)
    (nonzero : id ≠ c_invalid_id) (typed : Typed call_infos ipc.m_proc_map operation) {call : Invocation}
    (made : callOf operation = some call) {call_infos' call_infos'' : CallInfos} (same : SameHandlers call_infos call_infos')
    {call_info_data : DataStream} {tail : List Byte}
    (reads : DataStream.Reads call_info_data
      (encodeCall call.proc_name operation.waitsReturn call.return_type call.params call.args ++ tail))
    (small : 12 + (encodeCall call.proc_name operation.waitsReturn call.return_type call.params call.args).length < 2^32)
    {effects : List Effect} (dispatched : invokeLocal call_infos' ipc call_info_data id = some (call_infos'',effects)) :
    Due call_infos ipc.m_proc_map ran id operation effects ∧ RunsOnce call_infos ipc.m_proc_map operation effects := by
  have sent {handler : InvokeRemote} (params : handler.params = call.args.map Sigma.fst) := handlerArgs_sent params reads
  rw [encodeCall,List.append_assoc] at reads
  obtain ⟨names,_⟩ := deserializeNameSignature_yields _ _ _ _ _ _ reads
  cases read : deserializeNameSignature call_info_data with
  | mk found behind =>
    rw [read] at names sent
    obtain ⟨invoke,reported,analized,returns,silent,outcome⟩ := analizeNames_cases names call_infos' ipc
    rw [invokeLocal_parts alive read analized id] at dispatched
    cases dispatched
    have quiet := ((raisedSince_silent call_info_data behind).append silent).append (countCall_silent call_infos' ipc invoke)
    have unposted : callJobs (raisedSince call_info_data behind ++ reported ++ (countCall call_infos' ipc invoke).2) = [] := by
      rw [callJobs_append,callJobs_append,callJobs_raised raisedSince_raised,callJobs_analizeNames analized,
        callJobs_countCall]
      rfl
    rw [RunsOnce,runsOf_behind quiet unposted]
    suffices rest : Due call_infos ipc.m_proc_map ran id operation (invokeOrFail ipc transport behind id invoke) ∧
        RunsOnce call_infos ipc.m_proc_map operation (invokeOrFail ipc transport behind id invoke) from
      ⟨due_behind quiet unposted rest.1,rest.2⟩
    rcases outcome with ⟨handler,accepts,base,_⟩ | ⟨refuses,missing,error,_,reason⟩
    · have takes : Takes call_infos ipc.m_proc_map call handler := (same.accepts _ _ _ handler).mp accepts
      have due : DueJob call_infos ipc.m_proc_map ran id operation
          (.callJob behind (calcRespondId invoke.send_return id) handler) := by
        refine ⟨⟨call,made,takes,sent (typed_call typed made takes).1⟩,?_⟩
        rw [returns]
        rfl
      have runs {effects : List Effect} (one : runsOf effects = 1) : RunsOnce call_infos ipc.m_proc_map operation effects :=
        ⟨fun _ => one,fun untaken => absurd ⟨call,handler,made,takes⟩ untaken⟩
      unfold invokeOrFail
      rw [base]
      dsimp only
      split
      · rw [← alive]
        exact ⟨due_callJob alive creates nonzero typed due,runs (jobInvoke_runs ipc (.callJob behind _ handler))⟩
      · refine ⟨?_,runs rfl⟩
        exact {
          writes := fun packet member => by cases member
          jobs := fun job member => by
            rw [List.mem_singleton.mp member]
            exact due.mono (List.subset_append_left _ _)
          runs := fun run member => by cases member
          answers := fun _ => rfl }
    · have fits : 12 + (encodeFail ⟨error,errorMessage call.return_type call.proc_name (paramsType call.params)⟩).length < 2^32 := by
        simp only [encodeCall,encodeSignature,List.length_append,encodeString_length,List.length_singleton] at small
        simp only [encodeFail,errorMessage,List.length_append,bytesOf_length,encodeString_length,List.length_singleton]
        omega
      obtain ⟨uncalled,replies⟩ := invokeOrFail_rejected alive creates behind nonzero missing reason fits
      have refused (handler : InvokeRemote) : ¬ Takes call_infos ipc.m_proc_map call handler := fun takes =>
        refuses handler ((same.accepts _ _ _ handler).mpr takes)
      have none : runsOf (invokeOrFail ipc transport behind id invoke) = 0 := by
        rw [runsOf,callJobs_refused missing,uncalled]
        rfl
      have untaken : ¬ Taken call_infos ipc.m_proc_map operation := by
        rintro ⟨other,handler,made',takes⟩
        obtain rfl : other = call := Option.some.inj (made'.symm.trans made)
        exact refused handler takes
      refine ⟨due_quiet uncalled ?_ (callJobs_refused missing) ?_,fun taken => absurd taken untaken,fun _ => none⟩
      swap
      · intro waits
        have one := congrArg List.length replies
        rwa [if_pos (returns.trans waits),List.length_map] at one
      intro packet member
      have bytes := List.mem_map_of_mem member (f := Data.bytes)
      rw [replies] at bytes
      split at bytes
      · rename_i waits
        rw [returns] at waits
        refine ⟨_,_,List.mem_singleton.mp bytes,?_⟩
        cases operation with
        | processTransport => cases made
        | enumerateRemote => cases made
        | asyncInvoke other => cases waits
        | waitInvoke other process_incoming_calls =>
          obtain rfl : other = call := Option.some.inj made
          exact .refused refused
      · cases bytes

theorem enumerate_untaken : ¬ Taken call_infos proc_map .enumerateRemote := by
  rintro ⟨call,handler,made,takes⟩
  cases made

/-- What the dispatch of any packet that asks for something leaves to do. -/
theorem processBuffer_due (alive : ipc.m_transport = some transport) (creates : Creates transport)
    (nonzero : id ≠ c_invalid_id) (typed : Typed call_infos ipc.m_proc_map operation)
    {call_infos' call_infos'' : CallInfos} (same : SameHandlers call_infos call_infos') {packet : Data}
    (asks : Asks id packet operation) {type_raw : BitVec 32} {result : DataStream} {effects : List Effect}
    (processed : processBuffer call_infos' ipc (receiveCallDataBuffer type_raw packet) = some (call_infos'',result,effects)) :
    SameHandlers call_infos call_infos'' ∧ Due call_infos ipc.m_proc_map ran id operation effects ∧
      RunsOnce call_infos ipc.m_proc_map operation effects := by
  have called {call : Invocation} {tail : List Byte} (made : callOf operation = some call)
      (bytes : packet.bytes = encodeHeader call.encoded.length pt_call id ++
        (encodeCall call.proc_name operation.waitsReturn call.return_type call.params call.args ++ tail)) :
      SameHandlers call_infos call_infos'' ∧ Due call_infos ipc.m_proc_map ran id operation effects ∧
      RunsOnce call_infos ipc.m_proc_map operation effects := by
    obtain ⟨header,_,reads⟩ := receiveCallDataBuffer_reads type_raw bytes
    have small : 12 + (encodeCall call.proc_name operation.waitsReturn call.return_type call.params call.args).length < 2^32 := by
      have bound := packet.fits
      rw [bytes,List.length_append,encodeHeader_length,List.length_append] at bound
      omega
    rw [processBuffer,if_pos (by rw [header]),header] at processed
    obtain ⟨⟨infos,left⟩,dispatched,ended⟩ := Option.bind_eq_some_iff.mp processed
    cases ended
    exact ⟨same.trans (counted_same alive dispatched),
      invokeLocal_due alive creates nonzero typed made same reads small dispatched⟩
  cases operation with
  | processTransport => exact asks.elim
  | waitInvoke call process_incoming_calls =>
    obtain ⟨tail,bytes⟩ := asks
    exact called rfl bytes
  | asyncInvoke call =>
    obtain ⟨tail,bytes⟩ := asks
    exact called rfl bytes
  | enumerateRemote =>
    have fits : 12 + (encode .enumerateData (enumerateHandlers call_infos' ipc.m_proc_map)).length < 2^32 := by
      rw [same.enumerated]
      exact typed
    obtain ⟨reply,answer,answered⟩ := request_answered call_infos' alive creates nonzero fits asks
    rw [answered type_raw] at processed
    cases processed
    refine ⟨same,due_quiet rfl (fun written member => ?_) rfl fun _ => rfl,fun taken => absurd taken enumerate_untaken,fun _ => rfl⟩
    rw [List.mem_singleton.mp member]
    rw [same.enumerated] at answer
    exact ⟨pt_return_enumerate,_,answer,.listed⟩

/-- A job that is executed serves its operation. -/
theorem jobInvoke_due (alive : ipc.m_transport = some transport) (creates : Creates transport) (nonzero : id ≠ c_invalid_id)
    (typed : Typed call_infos ipc.m_proc_map operation) {job : Job}
    (due : DueJob call_infos ipc.m_proc_map ran id operation job) :
    Due call_infos ipc.m_proc_map ran id operation (jobInvoke ipc job) := by
  cases job with
  | callJob call_info_data respond_id handler => exact due_callJob alive creates nonzero typed due
  | resultJob result =>
    obtain ⟨packet,rfl,replies⟩ := due
    exact due_resultJob alive replies
  | countJob _ _ => exact due.elim
  | errorJob _ _ => exact due.elim

/-! ### The packet of an operation -/

theorem invocationInfo_asks (creates : Creates transport) (call : Invocation) (send_return : Bool) (nonzero : id ≠ c_invalid_id) :
    ∃ packet tail, (invocationInfo call send_return (some transport) id).m_write = some packet ∧
      packet.bytes = encodeHeader call.encoded.length pt_call id ++
        (encodeCall call.proc_name send_return call.return_type call.params call.args ++ tail) := by
  have same : call.encoded.length =
      (encodeCall call.proc_name send_return call.return_type call.params call.args).length := by
    simp [Invocation.encoded,encodeCall,encodeSignature]
  have fits := call.fits
  rw [show encodeCall call.proc_name true call.return_type call.params call.args = call.encoded from rfl,same] at fits
  rw [same]
  cases inplace : call.inplace_send_buffer with
  | none =>
    obtain ⟨buffer,created⟩ := Option.isSome_iff_exists.mp (creates _ fits)
    obtain ⟨packet,written,bytes,_⟩ := callInfo_filled nonzero fits created
    refine ⟨packet,[],?_,?_⟩
    · rw [invocationInfo,inplace]
      exact written
    · rw [List.append_nil]
      exact bytes
  | some buffer =>
    have emits := serializeCall_emits call.proc_name send_return call.return_type call.params call.args
    have small := Nat.lt_of_le_of_lt (Nat.le_add_left _ 12) fits
    have large : 12 + call.encoded.length ≤ buffer.size := call.large buffer inplace
    obtain ⟨packet,tail,written,_,bytes,_⟩ := createDataStreamInplace_filled id emits (measured_size emits small)
      (same ▸ large)
    refine ⟨packet,tail,?_,?_⟩
    · rw [invocationInfo,inplace,callInfo]
      exact written
    · rw [bytes,List.append_assoc]

theorem stream_asks (creates : Creates transport) (nonzero : id ≠ c_invalid_id) (asks : operation ≠ .processTransport) :
    ∃ packet, (operation.stream invocationInfo (some transport) id).m_write = some packet ∧ Asks id packet operation := by
  cases operation with
  | processTransport => exact absurd rfl asks
  | enumerateRemote => exact request_made creates nonzero
  | waitInvoke call process_incoming_calls =>
    obtain ⟨packet,tail,written,bytes⟩ := invocationInfo_asks creates call true nonzero
    exact ⟨packet,written,tail,bytes⟩
  | asyncInvoke call =>
    obtain ⟨packet,tail,written,bytes⟩ := invocationInfo_asks creates call false nonzero
    exact ⟨packet,written,tail,bytes⟩

end serves

end IpcPortable.DueReplies
