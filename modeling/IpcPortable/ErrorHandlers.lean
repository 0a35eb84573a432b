import IpcPortable.Buffers
import IpcPortable.Workers

/-!
What the error handler of the receiver hears. The lookup gives the installed
handler away only where the registry has no entry for the signature; where it
has one, without a handler or with one of another return type, the call is
rejected behind the back of the error handler (`rejected_heard`).
-/
namespace IpcPortable.ErrorHandlers
open IpcPortable.LittleEndian IpcPortable.DataStream IpcPortable.Values IpcPortable.Packets IpcPortable.RawStrings
open IpcPortable.Calls IpcPortable.Signatures IpcPortable.ProcMaps IpcPortable.Dispatch IpcPortable.Buffers
open IpcPortable.Replies IpcPortable.Workers

/-- What the effect tells an error handler, at once or by a job that is posted to
    its thread, which tells no more and no less when it runs (`heard_job`). -/
def hears : Effect → Option (Callback × ErrorArg)
  | .errorOccured callback arg => some (callback,arg)
  | .posted _ (.errorJob callback arg) => some (callback,arg)
  | _ => none
def heard (effects : List Effect) : List (Callback × ErrorArg) := effects.filterMap hears

@[simp] theorem heard_append (a b : List Effect) : heard (a ++ b) = heard a ++ heard b := List.filterMap_append

theorem heard_nothing {effects : List Effect} (deaf : ∀ effect ∈ effects, hears effect = none) : heard effects = [] :=
  List.filterMap_eq_nil_iff.mpr deaf

theorem raisedSince_unheard (before after : DataStream) : heard (raisedSince before after) = [] := by
  refine heard_nothing fun effect member => ?_
  rw [raisedSince_raised member]
  rfl
theorem countCall_unheard (call_infos : CallInfos) (ipc : Internals) (invoke : AnalizeInvokeDataRes) :
    heard (countCall call_infos ipc invoke).2 = [] := by
  refine heard_nothing fun effect member => ?_
  obtain ⟨callback,call_info,-,-,⟨count,rfl⟩ | rfl⟩ := countCall_effects member <;> rfl
theorem resultJobInvoke_unheard (transport : Option TransportShare) (result : Option Data) :
    heard (resultJobInvoke transport result) = [] := by
  obtain ⟨effect,sent,rfl | rfl | ⟨packet,rfl⟩⟩ := resultJobInvoke_single transport result <;> rw [sent] <;> rfl

theorem callJobInvoke_unheard (transport : Option TransportShare) (inter_thread : Option Transthread)
    (call_info_data : DataStream) (invoke_base : InvokeRemote) (respond_id : CallId) :
    heard (callJobInvoke transport inter_thread call_info_data invoke_base respond_id) = [] := by
  refine heard_nothing fun effect member => ?_
  rcases callJobInvoke_effects member with ⟨_,rfl⟩ | rfl | rfl | ⟨_,rfl⟩ | ⟨_,_,rfl⟩ <;> rfl

/-- A job tells the error handlers what its posting told, no more and no less. -/
theorem heard_job (w : World) (thread_id : ThreadId) (job : Job) : heard (jobInvoke w job) = heard [.posted thread_id job] := by
  cases job with
  | countJob call_count_changed call_info => rfl
  | errorJob error_occured arg => rfl
  | callJob call_info_data respond_id invoke_base => exact callJobInvoke_unheard _ _ _ _ _
  | resultJob result => exact resultJobInvoke_unheard _ _

theorem sendErrorMessage_heard {callback : Callback} (callable : callback.is_callable = true)
    (inter_thread_nullable : Option Transthread) (error_arg : ErrorArg) :
    heard (sendErrorMessage inter_thread_nullable (some callback) error_arg) = [(callback,error_arg)] := by
  unfold sendErrorMessage
  dsimp only
  rw [if_pos callable]
  split <;> rfl

/-- The registry has an entry for the signature, with a handler or without. -/
def HasSignature (proc_map : ProcMap) (signature : Signature) : Prop := ∃ entry ∈ proc_map.m_name_procs, entry.1 = signature

/-- The analysis of a call that no handler accepts: what it reports depends on
    whether there is an entry. -/
theorem analizeNames_reported {found : DeserializedFindCallInfo} {proc_name : List Byte} {send_return : Bool}
    {return_type params_type : List Byte} (names : Names found proc_name send_return return_type params_type)
    (call_infos : CallInfos) (ipc : Internals)
    (rejected : ∀ handler, ¬ Accepts call_infos ipc.m_proc_map proc_name return_type params_type handler) :
    ∃ invoke reported, analizeNames call_infos ipc found = some (invoke,reported) ∧ invoke.invoke_base = none ∧
      ((¬ HasSignature ipc.m_proc_map ⟨proc_name,params_type⟩ ∧
          reported = sendErrorMessage ipc.m_inter_thread_nullable ipc.m_proc_map.m_OnInvalidRemoteCall
            ⟨no_matching_call_name_parameters,errorMessage return_type proc_name params_type⟩) ∨
        (HasSignature ipc.m_proc_map ⟨proc_name,params_type⟩ ∧ reported = [])) := by
  have holds : SignatureKey.Holds ⟨found.name,found.params_type⟩ ⟨proc_name,params_type⟩ :=
    ⟨names.name,names.params_type⟩
  have nonempty := content_length names.return_type
  unfold analizeNames
  rcases findCallInfo_holds holds call_infos ipc.m_proc_map with ⟨entry,member,key,result⟩ | ⟨missing,result⟩
  · have present : HasSignature ipc.m_proc_map ⟨proc_name,params_type⟩ := ⟨entry,member,key⟩
    cases invokable : (call_infos entry.2.call_info).isInvokable with
    | none =>
      simp only [result,invokable,Option.bind_eq_bind,Option.bind_some,reportError_names names]
      exact ⟨_,_,rfl,rfl,.inr ⟨present,rfl⟩⟩
    | some handler =>
      obtain ⟨installed,callable⟩ := isInvokable_some.mp invokable
      have other : return_type ≠ [] ∧ return_type ≠ handler.return_type := by
        refine ⟨fun empty => ?_,fun same => ?_⟩
        · exact rejected handler ⟨⟨entry,member,key,installed,callable⟩,.inl empty⟩
        · exact rejected handler ⟨⟨entry,member,key,installed,callable⟩,.inr same⟩
      simp only [result,invokable,Option.bind_eq_bind,Option.bind_some,reportError_names names,nonempty]
      rw [if_pos other.1,equals_content names.return_type (content_ofBytes handler.return_type),Option.bind_some,
        if_neg (by simpa using other.2)]
      exact ⟨_,_,rfl,rfl,.inr ⟨present,rfl⟩⟩
  · simp only [result,Option.bind_eq_bind,Option.bind_some,reportError_names names]
    refine ⟨_,_,rfl,rfl,.inl ⟨?_,rfl⟩⟩
    rintro ⟨entry,member,key⟩
    exact missing entry member key

/-- The last part of the dispatch of a call without a handler tells nobody. -/
theorem invokeOrFail_unheard (ipc : Internals) (transport : TransportShare) (call_info_data : DataStream) (id : CallId)
    {invoke : AnalizeInvokeDataRes} (missing : invoke.invoke_base = none) :
    heard (invokeOrFail ipc transport call_info_data id invoke) = [] := by
  unfold invokeOrFail
  rw [missing]
  dsimp only
  split
  · split
    · rw [heard_append,raisedSince_unheard,List.nil_append]
      split <;> rfl
    · rfl
  · rfl

/-- The error handler is told exactly once, with the reason and the message. -/
def ToldOnce (call_infos : CallInfos) (proc_map : ProcMap) (callback : Callback)
    (proc_name return_type params_type : List Byte) (effects : List Effect) : Prop :=
  ∃ error, Refusal call_infos proc_map ⟨proc_name,params_type⟩ error ∧
    heard effects = [(callback,⟨error,errorMessage return_type proc_name params_type⟩)]

/-- An incoming call that no handler accepts is told to the error handler
    exactly when the registry has no entry for its signature, as long as the
    transport is there. -/
theorem rejected_heard (call_infos : CallInfos) (ipc : Internals) (buffer : CallDataBuffer) (callback : Callback)
    (proc_name : List Byte) (send_return : Bool) (return_type params_type : List Byte)
    (call : buffer.header.type = pt_call)
    (installed : ipc.m_proc_map.m_OnInvalidRemoteCall = some callback) (callable : callback.is_callable = true)
    (names : Names (deserializeNameSignature buffer.data).1 proc_name send_return return_type params_type)
    (rejected : ∀ handler, ¬ Accepts call_infos ipc.m_proc_map proc_name return_type params_type handler) :
    ∃ call_infos' result effects, processBuffer call_infos ipc buffer = some (call_infos',result,effects) ∧
      (ToldOnce call_infos ipc.m_proc_map callback proc_name return_type params_type effects ↔
        ipc.m_transport.isSome ∧ ¬ HasSignature ipc.m_proc_map ⟨proc_name,params_type⟩) := by
  unfold processBuffer
  rw [if_pos call]
  cases alive : ipc.m_transport with
  | none =>
    refine ⟨call_infos,_,_,by simp only [invokeLocal,alive,Option.bind_eq_bind,Option.bind_some]; rfl,?_⟩
    refine ⟨?_,fun reached => by cases reached.1⟩
    rintro ⟨error,_,told⟩
    cases told
  | some transport =>
    obtain ⟨invoke,reported,analized,missing,report⟩ := analizeNames_reported names call_infos ipc rejected
    have ran := invokeLocal_parts alive (Prod.mk.eta (p := deserializeNameSignature buffer.data)).symm analized buffer.header.id
    rw [ran]
    refine ⟨_,_,_,rfl,?_⟩
    have told : heard (raisedSince buffer.data (deserializeNameSignature buffer.data).2 ++ reported ++
        (countCall call_infos ipc invoke).2 ++
        invokeOrFail ipc transport (deserializeNameSignature buffer.data).2 buffer.header.id invoke) = heard reported := by
      simp [raisedSince_unheard,countCall_unheard,invokeOrFail_unheard ipc transport _ _ missing]
    rw [ToldOnce,told]
    rcases report with ⟨absent,rfl⟩ | ⟨present,rfl⟩
    · rw [installed,sendErrorMessage_heard callable]
      refine ⟨fun _ => ⟨rfl,absent⟩,fun _ => ⟨_,.inl ⟨rfl,?_⟩,rfl⟩⟩
      rintro handler ⟨entry,member,key,_⟩
      exact absent ⟨entry,member,key⟩
    · refine ⟨?_,fun reached => absurd present reached.2⟩
      rintro ⟨error,_,told⟩
      cases told

/-- An endpoint that hears of rejected calls, with the given entries. -/
def hearing (proc_map : ProcMap) : Internals where
  m_proc_map := { proc_map with m_OnInvalidRemoteCall := some {} }
  m_transport := some (proxyTransport fun _ => 0)
  m_inter_thread_nullable := none
/-- The call `n()` that waits for its answer, received. -/
def receivedCall : CallDataBuffer := receiveCallDataBuffer 0 callOf
/-- Call infos without a handler. -/
def declaredInfos : CallInfos := fun _ => { signature := ⟨[110],[]⟩ }

theorem receivedCall_names : Names (deserializeNameSignature receivedCall.data).1 [110] true [] [] :=
  ⟨by decide +kernel,by decide +kernel,by decide +kernel,by decide +kernel⟩

theorem declaredInfos_rejects (proc_map : ProcMap) (handler : InvokeRemote) :
    ¬ Accepts declaredInfos proc_map [110] [] [] handler := by
  rintro ⟨⟨entry,_,_,installed,_⟩,_⟩
  cases installed

/-- The call of a name that the registry does not know. -/
theorem rejected_heard_unknown : receivedCall.header.type = pt_call ∧
    ∃ call_infos' result effects,
      processBuffer declaredInfos (hearing Registries.emptyMap) receivedCall = some (call_infos',result,effects) ∧
      ToldOnce declaredInfos (hearing Registries.emptyMap).m_proc_map {} [110] [] [] effects := by
  have type : receivedCall.header.type = pt_call := by decide +kernel
  obtain ⟨call_infos',result,effects,ran,told⟩ := rejected_heard declaredInfos (hearing Registries.emptyMap) receivedCall {}
    [110] true [] [] type rfl rfl receivedCall_names (declaredInfos_rejects _)
  refine ⟨type,call_infos',result,effects,ran,told.mpr ⟨rfl,?_⟩⟩
  rintro ⟨entry,member,_⟩
  cases member

/-- The call of a name that is declared without a handler: nobody hears of it. -/
theorem declared_not_heard :
    ¬ ∃ call_infos' result effects,
      processBuffer declaredInfos (hearing (ProcMap.single ⟨[110],[]⟩ { call_info := 0 })) receivedCall =
          some (call_infos',result,effects) ∧
        ToldOnce declaredInfos (hearing (ProcMap.single ⟨[110],[]⟩ { call_info := 0 })).m_proc_map {} [110] [] [] effects := by
  rintro ⟨call_infos',result,effects,ran,error,_,told⟩
  have deaf : (processBuffer declaredInfos (hearing (ProcMap.single ⟨[110],[]⟩ { call_info := 0 })) receivedCall).map
      (fun done => heard done.2.2) = some [] := by decide +kernel
  rw [ran,Option.map_some,told] at deaf
  cases deaf

end IpcPortable.ErrorHandlers
