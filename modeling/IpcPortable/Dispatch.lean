import IpcPortable.ProcMaps

/-!
The dispatch of an incoming call: `AnalizeInvokeData` looks the handler up,
`InvokeLocal` runs it, or reports why there is none, and writes the reply. What
a dispatch does outside the registry is the list of its effects, in order. It
answers nothing where a string of the packet is read outside the packet.
-/
namespace IpcPortable.Dispatch
open IpcPortable.LittleEndian IpcPortable.DataStream IpcPortable.Values IpcPortable.Packets IpcPortable.RawStrings
open IpcPortable.Calls IpcPortable.Signatures IpcPortable.ProcMaps

/-- `ErrorType` has the fixed underlying type `uint8_t`. -/
abbrev ErrorType := BitVec 8
def unknown_error : ErrorType := 0
def no_matching_call_name_parameters : ErrorType := 1
def no_matching_call_return_type : ErrorType := 2
def respond_no_matching_call_name_parameters : ErrorType := 3
def respond_no_matching_call_return_type : ErrorType := 4

/-- `ErrorJob::Arg`. -/
structure ErrorArg where
  error : ErrorType
  message : List Byte
deriving DecidableEq
/-- `MAssIpc_Transthread`, of which the dispatch uses the thread that sends results. -/
structure Transthread where
  getResultSendThreadId : ThreadId
/-- A job that is posted to a thread, with its members. -/
inductive Job
  | countJob (call_count_changed : Callback) (call_info : CallInfoPtr)
  | errorJob (error_occured : Callback) (arg : ErrorArg)
  | callJob (call_info_data : DataStream) (respond_id : CallId) (invoke_base : InvokeRemote)
  | resultJob (result : Option Data)
inductive Effect
  /-- The call of a call-count callback, which can see the count. -/
  | countChanged (callback : Callback) (call_info : CallInfoPtr) (call_count : BitVec 32)
  | errorOccured (callback : Callback) (arg : ErrorArg)
  /-- The call of a handler with its arguments. -/
  | invoked (handler : InvokeRemote) (args : List Value)
  /-- A packet given to the transport. -/
  | write (packet : Data)
  /-- `CallFromThread`. -/
  | posted (thread_id : ThreadId) (job : Job)
  /-- A failed assertion. -/
  | raised
  /-- A member of an absent packet is used. -/
  | nullDereference

/-- `MAssIpcCall::Internals`, without the queues; `none` is a weak pointer to
    something that is gone. -/
structure Internals where
  m_proc_map : ProcMap
  m_transport : Option TransportShare
  m_inter_thread_nullable : Option Transthread

/-- `IsDirectCall`. -/
def isDirectCall (inter_thread_nullable : Option Transthread) (thread_id : ThreadId) : Bool :=
  inter_thread_nullable.isNone || thread_id == none
/-- The assertions that operations on a stream raised. -/
def raisedSince (before after : DataStream) : List Effect := List.replicate (after.raised - before.raised) .raised

/-! ### Running a handler -/

/-- `SerializeReturn`, of a value and of `void`. -/
def serializeReturn (transport : Option TransportShare) (respond_id : CallId) :
    Option Value → Option Data × List Effect
  | some ⟨τ,ret⟩ =>
    if respond_id = c_invalid_id then (none,[])
    else
      let measure_size := (insert τ ret {}).2
      let result_stream := (insert τ ret (createDataStream transport measure_size.m_write_pos pt_return respond_id)).2
      (result_stream.m_write,raisedSince {} result_stream)
  | none =>
    if respond_id = c_invalid_id then (none,[])
    else
      let result_stream := createDataStream transport 0 pt_return respond_id
      (result_stream.m_write,raisedSince {} result_stream)
/-- What a handler answers; `void` has no value. -/
def delegateRet (m_del : Delegate) (args : List Value) : Option Value :=
  match m_del with
  | .void => none
  | .returns τ m_del => some ⟨τ,m_del args⟩
/-- `InvokeRemoteImpl::Invoke`. -/
def invokeRemoteInvoke (handler : InvokeRemote) (transport : Option TransportShare) (respond_id : CallId)
    (params : DataStream) : Option Data × List Effect :=
  let args := deserializeArgs handler.params params
  let result := serializeReturn transport respond_id (delegateRet handler.m_del args.1)
  (result.1,raisedSince params args.2 ++ .invoked handler args.1 :: result.2)
/-- `ResultJob::Invoke`. -/
def resultJobInvoke (transport : Option TransportShare) : Option Data → List Effect
  | none => [.nullDereference]
  | some result =>
    if result.size ≥ c_net_call_packet_header_size then
      match transport with
      | some _ => [.write result]
      | none => [.raised]
    else [.raised]
/-- `CallJob::CalcRespondId`. -/
def calcRespondId (send_return : Bool) (id : CallId) : CallId := if send_return then id else c_invalid_id
/-- `CallJob::Invoke`. -/
def callJobInvoke (transport : Option TransportShare) (inter_thread : Option Transthread)
    (call_info_data : DataStream) (invoke_base : InvokeRemote) (respond_id : CallId) : List Effect :=
  let result := invokeRemoteInvoke invoke_base transport respond_id call_info_data
  result.2 ++
    if respond_id ≠ c_invalid_id then
      match inter_thread with
      | some inter_thread => [.posted inter_thread.getResultSendThreadId (.resultJob result.1)]
      | none => resultJobInvoke transport result.1
    else []

/-! ### Finding the handler -/

structure AnalizeInvokeDataRes where
  call_info : Option CallInfoPtr := none
  invoke_base : Option InvokeRemote := none
  send_return : Bool := false
  on_call_count_changed : Option Callback := none
  error_arg : Option ErrorArg := none

/-- `SendErrorMessage`. -/
def sendErrorMessage (inter_thread_nullable : Option Transthread) (on_invalid_remote_call : Option Callback)
    (error_arg : ErrorArg) : List Effect :=
  match on_invalid_remote_call with
  | some callback =>
    if callback.is_callable then
      if isDirectCall inter_thread_nullable callback.m_thread_id then [.errorOccured callback error_arg]
      else [.posted callback.m_thread_id (.errorJob callback error_arg)]
    else []
  | none => []
/-- `return_type proc_name(params_type)`. -/
def errorMessage (return_type name params_type : List Byte) : List Byte :=
  return_type ++ [32] ++ name ++ [40] ++ params_type ++ [41]
/-- `ReportError_FindCallInfo`. -/
def reportError_FindCallInfo (find_call_info : DeserializedFindCallInfo) (error : ErrorType)
    (find_res : FindCallInfoRes) (inter_thread_nullable : Option Transthread) :
    Option (AnalizeInvokeDataRes × List Effect) := do
  let return_type ← find_call_info.return_type.content
  let name ← find_call_info.name.content
  let params_type ← find_call_info.params_type.content
  let error_arg : ErrorArg := { error, message := errorMessage return_type name params_type }
  pure (
    { call_info := find_res.call_info
      on_call_count_changed := find_res.on_call_count_changed
      send_return := find_call_info.send_return
      error_arg := some error_arg },
    sendErrorMessage inter_thread_nullable find_res.on_invalid_remote_call error_arg)
/-- `AnalizeInvokeData`, for the names that were read. -/
def analizeNames (call_infos : CallInfos) (ipc : Internals) (find_call_info : DeserializedFindCallInfo) :
    Option (AnalizeInvokeDataRes × List Effect) := do
  let find_res ← findCallInfo call_infos ipc.m_proc_map find_call_info.name find_call_info.params_type
  match find_res.call_info, find_res.invoke_base with
  | some _, some invoke_base =>
    let found : AnalizeInvokeDataRes := {
      call_info := find_res.call_info
      invoke_base := some invoke_base
      send_return := find_call_info.send_return
      on_call_count_changed := find_res.on_call_count_changed }
    if find_call_info.return_type.m_len ≠ 0 then
      if ← find_call_info.return_type.equals (RawString.ofBytes invoke_base.return_type) then pure (found,[])
      else reportError_FindCallInfo find_call_info no_matching_call_return_type find_res ipc.m_inter_thread_nullable
    else pure (found,[])
  | _, _ => reportError_FindCallInfo find_call_info no_matching_call_name_parameters find_res ipc.m_inter_thread_nullable
/-- `AnalizeInvokeData`, and the stream behind the names. -/
def analizeInvokeData (call_infos : CallInfos) (ipc : Internals) (call_info_data : DataStream) :
    Option (AnalizeInvokeDataRes × List Effect × DataStream) := do
  let names := deserializeNameSignature call_info_data
  let invoke ← analizeNames call_infos ipc names.1
  pure (invoke.1,raisedSince call_info_data names.2 ++ invoke.2,names.2)

/-! ### The dispatch -/

/-- `StoreReturnFailCall`. -/
def storeReturnFailCall (error_arg : ErrorArg) : StateM DataStream Unit := do
  writeBytes true 1 error_arg.error
  insertString error_arg.message
/-- The call info is counted, and the call-count callback hears of it. -/
def countCall (call_infos : CallInfos) (ipc : Internals) (invoke : AnalizeInvokeDataRes) : CallInfos × List Effect :=
  match invoke.call_info with
  | some call_info =>
    let call_infos := Function.update call_infos call_info (call_infos call_info).incrementCallCount
    (call_infos,
      match invoke.on_call_count_changed with
      | some callback =>
        if callback.is_callable then
          if isDirectCall ipc.m_inter_thread_nullable callback.m_thread_id then
            [.countChanged callback call_info (call_infos call_info).m_call_count]
          else [.posted callback.m_thread_id (.countJob callback call_info)]
        else []
      | none => [])
  | none => (call_infos,[])
/-- The last part of `InvokeLocal`: the call, or the reply that there is none. -/
def invokeOrFail (ipc : Internals) (transport : TransportShare) (call_info_data : DataStream) (id : CallId)
    (invoke : AnalizeInvokeDataRes) : List Effect :=
  match invoke.invoke_base with
  | some invoke_base =>
    let respond_id := calcRespondId invoke.send_return id
    if isDirectCall ipc.m_inter_thread_nullable invoke_base.m_thread_id then
      callJobInvoke (some transport) ipc.m_inter_thread_nullable call_info_data invoke_base respond_id
    else [.posted invoke_base.m_thread_id (.callJob call_info_data respond_id invoke_base)]
  | none =>
    match invoke.error_arg with
    | some error_arg =>
      if invoke.send_return then
        let measure_size := (storeReturnFailCall error_arg {}).2
        let result_str := (storeReturnFailCall error_arg
          (createDataStream ipc.m_transport measure_size.m_write_pos pt_return_fail_call id)).2
        raisedSince {} result_str ++
          match result_str.m_write with
          | some data => [.write data]
          | none => []
      else []
    | none => [.raised]
/-- `InvokeLocal`. -/
def invokeLocal (call_infos : CallInfos) (ipc : Internals) (call_info_data : DataStream) (id : CallId) :
    Option (CallInfos × List Effect) :=
  match ipc.m_transport with
  | none => some (call_infos,[.raised])
  | some transport => do
    let (invoke,reported,call_info_data) ← analizeInvokeData call_infos ipc call_info_data
    let (call_infos,counted) := countCall call_infos ipc invoke
    pure (call_infos,reported ++ counted ++ invokeOrFail ipc transport call_info_data id invoke)

/-! ### What is found -/

/-- The packets among the effects that were given to the transport. -/
def writes (effects : List Effect) : List Data :=
  effects.filterMap fun effect => match effect with
    | .write packet => some packet
    | _ => none
/-- The calls of handlers among the effects. -/
def invocations (effects : List Effect) : List (InvokeRemote × List Value) :=
  effects.filterMap fun effect => match effect with
    | .invoked handler args => some (handler,args)
    | _ => none

@[simp] theorem writes_append (a b : List Effect) : writes (a ++ b) = writes a ++ writes b := List.filterMap_append
@[simp] theorem invocations_append (a b : List Effect) : invocations (a ++ b) = invocations a ++ invocations b :=
  List.filterMap_append

@[simp] theorem writes_invoked (handler : InvokeRemote) (args : List Value) (effects : List Effect) :
    writes (.invoked handler args :: effects) = writes effects := rfl
@[simp] theorem invocations_invoked (handler : InvokeRemote) (args : List Value) (effects : List Effect) :
    invocations (.invoked handler args :: effects) = (handler,args) :: invocations effects := rfl
@[simp] theorem writes_write (packet : Data) : writes [.write packet] = [packet] := rfl
@[simp] theorem invocations_write (packet : Data) : invocations [.write packet] = [] := rfl

theorem raisedSince_raised {before after : DataStream} {effect : Effect} (member : effect ∈ raisedSince before after) :
    effect = .raised :=
  List.eq_of_mem_replicate member
theorem serializeReturn_raised {transport : Option TransportShare} {respond_id : CallId} {ret : Option Value} {effect : Effect}
    (member : effect ∈ (serializeReturn transport respond_id ret).2) : effect = .raised := by
  unfold serializeReturn at member
  split at member <;> split at member
  · cases member
  · exact raisedSince_raised member
  · cases member
  · exact raisedSince_raised member
theorem resultJobInvoke_single (transport : Option TransportShare) (result : Option Data) :
    ∃ effect, resultJobInvoke transport result = [effect] ∧
      (effect = .nullDereference ∨ effect = .raised ∨ ∃ packet, effect = .write packet) := by
  unfold resultJobInvoke
  split
  · exact ⟨_,rfl,.inl rfl⟩
  · split
    · split
      · exact ⟨_,rfl,.inr (.inr ⟨_,rfl⟩)⟩
      · exact ⟨_,rfl,.inr (.inl rfl)⟩
    · exact ⟨_,rfl,.inr (.inl rfl)⟩
/-- A job runs its handler, and sends the result at once or posts it. -/
theorem callJobInvoke_effects {transport : Option TransportShare} {inter_thread : Option Transthread}
    {call_info_data : DataStream} {invoke_base : InvokeRemote} {respond_id : CallId} {effect : Effect}
    (member : effect ∈ callJobInvoke transport inter_thread call_info_data invoke_base respond_id) :
    (∃ args, effect = .invoked invoke_base args) ∨ effect = .raised ∨ effect = .nullDereference ∨
      (∃ packet, effect = .write packet) ∨ ∃ thread_id result, effect = .posted thread_id (.resultJob result) := by
  rcases List.mem_append.mp member with runs | sends
  · rcases List.mem_append.mp runs with before | runs
    · exact .inr (.inl (raisedSince_raised before))
    · rcases List.mem_cons.mp runs with invoked | after
      · exact .inl ⟨_,invoked⟩
      · exact .inr (.inl (serializeReturn_raised after))
  · split at sends
    · split at sends
      · exact .inr (.inr (.inr (.inr ⟨_,_,List.mem_singleton.mp sends⟩)))
      · obtain ⟨sent,only,kind⟩ := resultJobInvoke_single transport (invokeRemoteInvoke invoke_base transport respond_id call_info_data).1
        rw [only] at sends
        cases List.mem_singleton.mp sends
        rcases kind with absent | raised | wrote
        · exact .inr (.inr (.inl absent))
        · exact .inr (.inl raised)
        · exact .inr (.inr (.inr (.inl wrote)))
    · cases sends
/-- A call that is counted tells the callable callback, at once or by a job. -/
theorem countCall_effects {call_infos : CallInfos} {ipc : Internals} {invoke : AnalizeInvokeDataRes} {effect : Effect}
    (member : effect ∈ (countCall call_infos ipc invoke).2) :
    ∃ callback call_info, invoke.on_call_count_changed = some callback ∧ callback.is_callable ∧
      ((∃ count, effect = .countChanged callback call_info count) ∨
        effect = .posted callback.m_thread_id (.countJob callback call_info)) := by
  unfold countCall at member
  split at member
  · dsimp only at member
    split at member
    · rename_i call_info _ _ callback installed
      split at member
      · rename_i callable
        refine ⟨callback,call_info,installed,callable,?_⟩
        split at member
        · exact .inl ⟨_,List.mem_singleton.mp member⟩
        · exact .inr (List.mem_singleton.mp member)
      · cases member
    · cases member
  · cases member
theorem sendErrorMessage_effects {inter_thread_nullable : Option Transthread} {on_invalid_remote_call : Option Callback}
    {error_arg : ErrorArg} {effect : Effect}
    (member : effect ∈ sendErrorMessage inter_thread_nullable on_invalid_remote_call error_arg) :
    ∃ callback, on_invalid_remote_call = some callback ∧ callback.is_callable ∧
      (effect = .errorOccured callback error_arg ∨ effect = .posted callback.m_thread_id (.errorJob callback error_arg)) := by
  unfold sendErrorMessage at member
  split at member
  · rename_i callback
    split at member
    · rename_i callable
      refine ⟨callback,rfl,callable,?_⟩
      split at member
      · exact .inl (List.mem_singleton.mp member)
      · exact .inr (List.mem_singleton.mp member)
    · cases member
  · cases member

/-- The effect calls a handler, or posts its call. -/
def Effect.calls : Effect → Bool
  | .invoked _ _ => true
  | .posted _ (.callJob _ _ _) => true
  | _ => false
/-- No handler is called, now or later, and no packet is written. -/
structure Silent (effects : List Effect) : Prop where
  writes : writes effects = []
  uncalled : ∀ effect ∈ effects, effect.calls = false

theorem invocations_uncalled {effects : List Effect} (uncalled : ∀ effect ∈ effects, effect.calls = false) :
    invocations effects = [] := by
  refine List.filterMap_eq_nil_iff.mpr fun effect member => ?_
  have quiet := uncalled effect member
  cases effect <;> first | rfl | cases quiet

theorem Silent.invocations {effects : List Effect} (silent : Silent effects) : invocations effects = [] :=
  invocations_uncalled silent.uncalled

theorem silent_nil : Silent [] := ⟨rfl,fun _ member => by cases member⟩

theorem silent_singleton {effect : Effect} (unwritten : Dispatch.writes [effect] = []) (uncalled : effect.calls = false) :
    Silent [effect] :=
  ⟨unwritten,fun _ member => List.mem_singleton.mp member ▸ uncalled⟩

theorem Silent.append {a b : List Effect} (first : Silent a) (second : Silent b) : Silent (a ++ b) :=
  ⟨by simp [first.writes,second.writes],
    fun effect member => (List.mem_append.mp member).elim (first.uncalled effect) (second.uncalled effect)⟩

/-- Silent are effects that write nothing and call no handler, one by one. -/
theorem silent_each {effects : List Effect} (each : ∀ effect ∈ effects, Silent [effect]) : Silent effects := by
  induction effects with
  | nil => exact silent_nil
  | cons effect rest ih =>
    have tail := ih fun other member => each other (List.mem_cons_of_mem _ member)
    exact (each effect List.mem_cons_self).append tail

theorem raisedSince_silent (before after : DataStream) : Silent (raisedSince before after) := by
  refine silent_each fun effect member => ?_
  rw [raisedSince_raised member]
  exact silent_singleton rfl rfl
theorem serializeReturn_silent (transport : Option TransportShare) (respond_id : CallId) (ret : Option Value) :
    Silent (serializeReturn transport respond_id ret).2 := by
  refine silent_each fun effect member => ?_
  rw [serializeReturn_raised member]
  exact silent_singleton rfl rfl
theorem sendErrorMessage_silent (inter_thread_nullable : Option Transthread) (callback : Option Callback)
    (error_arg : ErrorArg) : Silent (sendErrorMessage inter_thread_nullable callback error_arg) := by
  refine silent_each fun effect member => ?_
  obtain ⟨callback,-,-,rfl | rfl⟩ := sendErrorMessage_effects member
  · exact silent_singleton rfl rfl
  · exact silent_singleton rfl rfl
theorem countCall_silent (call_infos : CallInfos) (ipc : Internals) (invoke : AnalizeInvokeDataRes) :
    Silent (countCall call_infos ipc invoke).2 := by
  refine silent_each fun effect member => ?_
  obtain ⟨callback,call_info,-,-,⟨count,rfl⟩ | rfl⟩ := countCall_effects member
  · exact silent_singleton rfl rfl
  · exact silent_singleton rfl rfl
theorem countCall_raised (call_infos : CallInfos) (ipc : Internals) (invoke : AnalizeInvokeDataRes) :
    Effect.raised ∉ (countCall call_infos ipc invoke).2 := by
  intro member
  obtain ⟨callback,call_info,-,-,⟨count,same⟩ | same⟩ := countCall_effects member <;> cases same

/-- The registry has a callable handler for the call, and the call names no
    return type or the one of the handler. -/
structure Accepts (call_infos : CallInfos) (proc_map : ProcMap) (proc_name return_type params_type : List Byte)
    (handler : InvokeRemote) : Prop where
  callable : Callable call_infos proc_map ⟨proc_name,params_type⟩ handler
  returns : return_type = [] ∨ return_type = handler.return_type

/-- The reason why no handler accepts a call: none can be called, or the one
    that can returns another type. -/
def Refusal (call_infos : CallInfos) (proc_map : ProcMap) (signature : Signature) (error : ErrorType) : Prop :=
  error = no_matching_call_name_parameters ∧ (∀ handler, ¬ Callable call_infos proc_map signature handler) ∨
    error = no_matching_call_return_type ∧ ∃ handler, Callable call_infos proc_map signature handler

theorem callable_unique {call_infos : CallInfos} {proc_map : ProcMap} {signature : Signature} {a b : InvokeRemote}
    (first : Callable call_infos proc_map signature a) (second : Callable call_infos proc_map signature b) : a = b := by
  obtain ⟨entry,member,key,installed,_⟩ := first
  obtain ⟨entry',member',key',installed',_⟩ := second
  obtain rfl := entry_unique member member' (key.trans key'.symm)
  exact Option.some.inj (installed.symm.trans installed')

theorem reportError_names {found : DeserializedFindCallInfo} {proc_name : List Byte} {send_return : Bool}
    {return_type params_type : List Byte} (names : Names found proc_name send_return return_type params_type)
    (error : ErrorType) (find_res : FindCallInfoRes) (inter_thread_nullable : Option Transthread) :
    reportError_FindCallInfo found error find_res inter_thread_nullable = some (
      { call_info := find_res.call_info
        on_call_count_changed := find_res.on_call_count_changed
        send_return := send_return
        error_arg := some ⟨error,errorMessage return_type proc_name params_type⟩ },
      sendErrorMessage inter_thread_nullable find_res.on_invalid_remote_call
        ⟨error,errorMessage return_type proc_name params_type⟩) := by
  simp [reportError_FindCallInfo,names.name,names.return_type,names.params_type,names.send_return]

theorem content_length {str : RawString} {bs : List Byte} (content : str.content = some bs) :
    str.m_len ≠ 0 ↔ bs ≠ [] := by
  rw [(content_points content).1,ne_eq,List.length_eq_zero_iff]

/-- The analysis finds the handler that accepts the call, or the reason why
    there is none. -/
theorem analizeNames_cases {found : DeserializedFindCallInfo} {proc_name : List Byte} {send_return : Bool}
    {return_type params_type : List Byte} (names : Names found proc_name send_return return_type params_type)
    (call_infos : CallInfos) (ipc : Internals) :
    ∃ invoke reported, analizeNames call_infos ipc found = some (invoke,reported) ∧
      invoke.send_return = send_return ∧ Silent reported ∧
      ((∃ handler, Accepts call_infos ipc.m_proc_map proc_name return_type params_type handler ∧
          invoke.invoke_base = some handler ∧ reported = []) ∨
        ((∀ handler, ¬ Accepts call_infos ipc.m_proc_map proc_name return_type params_type handler) ∧
          invoke.invoke_base = none ∧
          ∃ error, Refusal call_infos ipc.m_proc_map ⟨proc_name,params_type⟩ error ∧
            invoke.error_arg = some ⟨error,errorMessage return_type proc_name params_type⟩)) := by
  have holds : SignatureKey.Holds ⟨found.name,found.params_type⟩ ⟨proc_name,params_type⟩ :=
    ⟨names.name,names.params_type⟩
  have nonempty := content_length names.return_type
  unfold analizeNames
  rcases findCallInfo_holds holds call_infos ipc.m_proc_map with ⟨entry,member,key,result⟩ | ⟨missing,result⟩
  · cases invokable : (call_infos entry.2.call_info).isInvokable with
    | none =>
      have uncallable (handler : InvokeRemote) : ¬ Callable call_infos ipc.m_proc_map ⟨proc_name,params_type⟩ handler := by
        rintro ⟨entry',member',key',installed,callable⟩
        obtain rfl := entry_unique member member' (key.trans key'.symm)
        rw [isInvokable_some.mpr ⟨installed,callable⟩] at invokable
        cases invokable
      simp only [result,invokable,Option.bind_eq_bind,Option.bind_some,reportError_names names]
      refine ⟨_,_,rfl,rfl,sendErrorMessage_silent _ _ _,.inr ⟨?_,rfl,_,.inl ⟨rfl,uncallable⟩,rfl⟩⟩
      exact fun handler accepts => uncallable handler accepts.callable
    | some handler =>
      obtain ⟨installed,callable⟩ := isInvokable_some.mp invokable
      have registered : Callable call_infos ipc.m_proc_map ⟨proc_name,params_type⟩ handler :=
        ⟨entry,member,key,installed,callable⟩
      simp only [result,invokable,Option.bind_eq_bind,Option.bind_some,reportError_names names,nonempty]
      by_cases empty : return_type = []
      · rw [if_neg (not_not.mpr empty)]
        exact ⟨_,_,rfl,names.send_return,silent_nil,.inl ⟨handler,⟨registered,.inl empty⟩,rfl,rfl⟩⟩
      · rw [if_pos empty,equals_content names.return_type (content_ofBytes handler.return_type),Option.bind_some]
        by_cases same : return_type = handler.return_type
        · rw [if_pos (by simpa using same)]
          exact ⟨_,_,rfl,names.send_return,silent_nil,.inl ⟨handler,⟨registered,.inr same⟩,rfl,rfl⟩⟩
        · rw [if_neg (by simpa using same)]
          refine ⟨_,_,rfl,rfl,sendErrorMessage_silent _ _ _,.inr ⟨?_,rfl,_,.inr ⟨rfl,handler,registered⟩,rfl⟩⟩
          intro other accepts
          obtain rfl := callable_unique accepts.callable registered
          exact accepts.returns.elim empty same
  · have uncallable (handler : InvokeRemote) : ¬ Callable call_infos ipc.m_proc_map ⟨proc_name,params_type⟩ handler := by
      rintro ⟨entry,member,key,_⟩
      exact missing entry member key
    simp only [result,Option.bind_eq_bind,Option.bind_some,reportError_names names]
    refine ⟨_,_,rfl,rfl,sendErrorMessage_silent _ _ _,.inr ⟨?_,rfl,_,.inl ⟨rfl,uncallable⟩,rfl⟩⟩
    exact fun handler accepts => uncallable handler accepts.callable

end IpcPortable.Dispatch
