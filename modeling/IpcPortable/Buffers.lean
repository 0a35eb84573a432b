import IpcPortable.Replies

/-!
`ProcessBuffer`: what an endpoint does with a packet that was taken out, by its
type. A call is dispatched, a failed call is reported, a result is handed to
the call that waits for it, and a request to enumerate is answered.
-/
namespace IpcPortable.Buffers
open IpcPortable.LittleEndian IpcPortable.DataStream IpcPortable.Values IpcPortable.Packets IpcPortable.ProcMaps
open IpcPortable.Dispatch

/-- `EnumerateHandlers`: the callable handlers, in the order of their keys. -/
def enumerateHandlers (call_infos : CallInfos) (proc_map : ProcMap) : List ProcDescription :=
  proc_map.m_name_procs.filterMap fun it =>
    match (call_infos it.2.call_info).isInvokable with
    | some invoke_base => some {
        name := it.1.name
        return_type := invoke_base.return_type
        params_types := it.1.params_type
        comment := it.2.comment }
    | none => none

/-- `DetachWrite`, and `Write` when there is a packet. -/
def writeDetached (stream : DataStream) : List Effect :=
  match stream.m_write with
  | some data => [.write data]
  | none => []
/-- The reply to a request to enumerate. -/
def enumerateReply (ipc : Internals) (id : CallId) (res : List ProcDescription) : List Effect :=
  let measure_size := (insert .enumerateData res {}).2
  let respond_str := (insert .enumerateData res
    (createDataStream ipc.m_transport measure_size.m_write_pos pt_return_enumerate id)).2
  raisedSince {} respond_str ++
    match ipc.m_transport with
    | some _ => writeDetached respond_str
    | none => [.raised]

/-- The error that the receiver of a call reports, as its caller sees it. -/
def respondError (error : ErrorType) : ErrorType :=
  if error = no_matching_call_name_parameters then respond_no_matching_call_name_parameters
  else if error = no_matching_call_return_type then respond_no_matching_call_return_type
  else unknown_error
/-- `buffer.data>>error_arg->error` and `buffer.data>>error_arg->message`. -/
def extractErrorArg : StateM DataStream ErrorArg := do
  let error ← extract (.integer false .one) unknown_error
  let message ← extract .string ([] : List Byte)
  pure { error, message }
/-- `ProcessBuffer`: the registry behind it, the stream it answers and its effects. -/
def processBuffer (call_infos : CallInfos) (ipc : Internals) (buffer : CallDataBuffer) :
    Option (CallInfos × DataStream × List Effect) :=
  if buffer.header.type = pt_call then do
    let (call_infos,effects) ← invokeLocal call_infos ipc buffer.data buffer.header.id
    pure (call_infos,{},effects)
  else if buffer.header.type = pt_return_fail_call then
    let read := extractErrorArg buffer.data
    some (call_infos,{},raisedSince buffer.data read.2 ++
      sendErrorMessage ipc.m_inter_thread_nullable ipc.m_proc_map.m_OnInvalidRemoteCall
        { read.1 with error := respondError read.1.error })
  else if buffer.header.type = pt_return_enumerate ∨ buffer.header.type = pt_return then
    some (call_infos,buffer.data,[])
  else if buffer.header.type = pt_enumerate then
    if buffer.header.size = 0 then
      some (call_infos,{},enumerateReply ipc buffer.header.id (enumerateHandlers call_infos ipc.m_proc_map))
    else some (call_infos,{},[.raised])
  else some (call_infos,{},[.raised])

end IpcPortable.Buffers
