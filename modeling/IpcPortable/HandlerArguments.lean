import IpcPortable.Replies
import IpcPortable.Decoding

/-!
The arguments that a handler sees. A stream has no state of failure: a read
past the end of the packet raises an assertion and leaves a default. So the
handler that accepts a call runs exactly once whatever the bytes behind the
signature are, and the assertions say whether they were a list of arguments
(`handler_arguments`). Only an endpoint that lost its transport runs nothing.
-/
namespace IpcPortable.HandlerArguments
open IpcPortable.LittleEndian IpcPortable.DataStream IpcPortable.Values IpcPortable.Decoding IpcPortable.Packets
open IpcPortable.RawStrings IpcPortable.Calls IpcPortable.Signatures IpcPortable.ProcMaps IpcPortable.Dispatch
open IpcPortable.Replies

/-- The effects once the posted calls have run, on their threads, with the
    transport and the threads that are there by then. -/
def runJobs (transport : Option TransportShare) (inter_thread : Option Transthread) (effects : List Effect) : List Effect :=
  effects.flatMap fun effect => match effect with
    | .posted _ (.callJob call_info_data respond_id invoke_base) =>
      callJobInvoke transport inter_thread call_info_data invoke_base respond_id
    | effect => [effect]

theorem runJobs_uncalled (transport : Option TransportShare) (inter_thread : Option Transthread)
    {effects : List Effect} (uncalled : ∀ effect ∈ effects, effect.calls = false) :
    runJobs transport inter_thread effects = effects := by
  induction effects with
  | nil => rfl
  | cons effect rest ih =>
    have quiet := uncalled effect List.mem_cons_self
    have tail : runJobs transport inter_thread rest = rest :=
      ih fun other member => uncalled other (List.mem_cons_of_mem _ member)
    have here : runJobs transport inter_thread (effect :: rest) = effect :: runJobs transport inter_thread rest := by
      cases effect with
      | posted thread_id job =>
        cases job with
        | callJob _ _ _ => cases quiet
        | countJob _ _ => rfl
        | errorJob _ _ => rfl
        | resultJob _ => rfl
      | invoked _ _ => cases quiet
      | countChanged _ _ _ => rfl
      | errorOccured _ _ => rfl
      | write _ => rfl
      | raised => rfl
      | nullDereference => rfl
    rw [here,tail]

theorem runJobs_append (transport : Option TransportShare) (inter_thread : Option Transthread) (a b : List Effect) :
    runJobs transport inter_thread (a ++ b) = runJobs transport inter_thread a ++ runJobs transport inter_thread b :=
  List.flatMap_append

theorem runJobs_invoked (transport : Option TransportShare) (inter_thread : Option Transthread)
    (handler : InvokeRemote) (args : List Value) (effects : List Effect) :
    runJobs transport inter_thread (.invoked handler args :: effects) =
      .invoked handler args :: runJobs transport inter_thread effects := rfl

/-- A call runs its handler once, after the arguments were read. -/
theorem callJobInvoke_parts (transport : Option TransportShare) (inter_thread : Option Transthread)
    (call_info_data : DataStream) (handler : InvokeRemote) (respond_id : CallId) :
    ∃ after, callJobInvoke transport inter_thread call_info_data handler respond_id =
        raisedSince call_info_data (deserializeArgs handler.params call_info_data).2 ++
          .invoked handler (handlerArgs handler call_info_data) :: after ∧
      ∀ effect ∈ after, effect.calls = false := by
  have answered := (serializeReturn_silent transport respond_id
    (delegateRet handler.m_del (deserializeArgs handler.params call_info_data).1)).uncalled
  unfold callJobInvoke invokeRemoteInvoke
  dsimp only
  rw [List.append_assoc]
  refine ⟨_,rfl,?_⟩
  intro effect member
  rcases List.mem_append.mp member with old | new
  · exact answered effect old
  · split at new
    · split at new
      · rw [List.mem_singleton.mp new]
        rfl
      · exact resultJobInvoke_uncalled _ _ effect new
    · cases new

theorem deserializeArgs_take (types : List SerialType) (k : Nat) (s : DataStream) :
    (deserializeArgs (types.take k) s).1 = (deserializeArgs types s).1.take k := by
  induction types generalizing k s with
  | nil => simp [deserializeArgs]
  | cons τ rest ih =>
    cases k with
    | zero => simp [deserializeArgs]
    | succ k => simp [deserializeArgs,ih]

/-- The encoding of values decodes to the values. -/
theorem decodeArgs_encodeArgs {values : List Value} {suffix : List Byte} {s : DataStream}
    (reads : Reads s (encodeArgs values ++ suffix)) :
    ∃ rest, decodeArgs (values.map Sigma.fst) (encodeArgs values ++ suffix) = some (values,rest) := by
  have follows := deserializeArgs_follows (values.map Sigma.fst)
  have executed := deserializeArgs_decodes values s suffix reads
  cases answer : decodeArgs (values.map Sigma.fst) (encodeArgs values ++ suffix) with
  | none =>
    have raised := follows.cut s _ reads answer
    rw [executed] at raised
    exact absurd raised (Nat.lt_irrefl _)
  | some answer' =>
    obtain ⟨others,rest⟩ := answer'
    have same := (follows.complete s _ others rest reads answer).1
    rw [executed] at same
    exact ⟨rest,by rw [← same]⟩

/-- The reads of the arguments raise an assertion exactly when the bytes end
    before the arguments do. -/
theorem raisedSince_iff {s : DataStream} {arguments : List Byte} (reads : Reads s arguments) (types : List SerialType) :
    Effect.raised ∈ raisedSince s (deserializeArgs types s).2 ↔ decodeArgs types arguments = none := by
  have follows := deserializeArgs_follows types
  have counted : Effect.raised ∈ raisedSince s (deserializeArgs types s).2 ↔
      s.raised < (deserializeArgs types s).2.raised := by
    simp only [raisedSince,List.mem_replicate,and_true]
    omega
  rw [counted]
  constructor
  · intro more
    cases answer : decodeArgs types arguments with
    | none => rfl
    | some answer' =>
      have same := (follows.complete s arguments answer'.1 answer'.2 reads answer).2.1
      omega
  · exact follows.cut s arguments reads

/-- While the transport is there, a call that a handler accepts runs it exactly
    once, directly or as a job. -/
theorem accepted_arguments {call_infos : CallInfos} {ipc : Internals} {transport : TransportShare} {packet : Data}
    {type_raw : BitVec 32} {no_header_size : Nat} {id : CallId} {proc_name : List Byte} {send_return : Bool}
    {return_type params_type arguments : List Byte} {handler : InvokeRemote}
    (alive : ipc.m_transport = some transport)
    (wellformed : packet.bytes = encodeHeader no_header_size pt_call id ++
      (encodeSignature proc_name send_return return_type params_type ++ arguments))
    (accepts : Accepts call_infos ipc.m_proc_map proc_name return_type params_type handler) :
    ∃ call_infos' effects args,
      invokeLocal call_infos ipc (receiveCallDataBuffer type_raw packet).data
        (receiveCallDataBuffer type_raw packet).header.id = some (call_infos',effects) ∧
      (∀ later inter_thread, ∃ before after,
        runJobs later inter_thread effects = before ++ .invoked handler args :: after ∧
        invocations before = [] ∧ invocations after = [] ∧
        (Effect.raised ∈ before ↔ decodeArgs handler.params arguments = none)) ∧
      (∀ k values rest, decodeArgs (handler.params.take k) arguments = some (values,rest) → args.take k = values) ∧
      (∀ values suffix, handler.params = values.map Sigma.fst → arguments = encodeArgs values ++ suffix →
        args = values ∧ decodeArgs handler.params arguments ≠ none) := by
  obtain ⟨header,_,reads⟩ := receiveCallDataBuffer_reads type_raw wellformed
  obtain ⟨call_infos',quiet,invoke,silent,returns,ran,outcome⟩ := invokeLocal_outcome call_infos alive reads id
  obtain ⟨_,moved⟩ := deserializeNameSignature_yields proc_name send_return return_type params_type _ _ reads
  have behind := reads.advance
  rw [← moved] at behind
  rw [header]
  revert ran behind
  generalize (deserializeNameSignature (receiveCallDataBuffer type_raw packet).data).2 = call_info_data
  intro ran behind
  obtain ⟨found,raised⟩ : invoke.invoke_base = some handler ∧ Effect.raised ∉ quiet := by
    rcases outcome with ⟨other,accepted,found,raised⟩ | ⟨none,_⟩
    · obtain rfl := callable_unique accepted.callable accepts.callable
      exact ⟨found,raised⟩
    · exact absurd accepts (none handler)
  refine ⟨call_infos',_,handlerArgs handler call_info_data,ran,?_,?_,?_⟩
  · intro later inter_thread
    obtain ⟨after,ends,uncalled⟩ : ∃ after,
        runJobs later inter_thread (invokeOrFail ipc transport call_info_data id invoke) =
          raisedSince call_info_data (deserializeArgs handler.params call_info_data).2 ++
            .invoked handler (handlerArgs handler call_info_data) :: after ∧
        ∀ effect ∈ after, effect.calls = false := by
      simp only [invokeOrFail,found]
      split
      · obtain ⟨after,parts,uncalled⟩ := callJobInvoke_parts (some transport) ipc.m_inter_thread_nullable
          call_info_data handler (calcRespondId invoke.send_return id)
        refine ⟨after,?_,uncalled⟩
        have first := (raisedSince_silent call_info_data (deserializeArgs handler.params call_info_data).2).uncalled
        rw [parts,runJobs_append,runJobs_uncalled _ _ first,runJobs_invoked,runJobs_uncalled _ _ uncalled]
      · obtain ⟨after,parts,uncalled⟩ := callJobInvoke_parts later inter_thread call_info_data handler
          (calcRespondId invoke.send_return id)
        exact ⟨after,by rw [← parts]; exact List.append_nil _,uncalled⟩
    have first := (raisedSince_silent call_info_data (deserializeArgs handler.params call_info_data).2).invocations
    refine ⟨quiet ++ raisedSince call_info_data (deserializeArgs handler.params call_info_data).2,after,?_,?_,
      invocations_uncalled uncalled,?_⟩
    · rw [runJobs_append,runJobs_uncalled _ _ silent.uncalled,ends,List.append_assoc]
    · rw [invocations_append,silent.invocations,first]
      rfl
    · rw [List.mem_append,raisedSince_iff behind]
      exact or_iff_right raised
  · intro k values rest answer
    rw [handlerArgs,← deserializeArgs_take]
    exact ((deserializeArgs_follows (handler.params.take k)).complete _ _ values rest behind answer).1
  · intro values suffix params sent
    rw [sent] at behind ⊢
    rw [handlerArgs,params]
    obtain ⟨rest,answer⟩ := decodeArgs_encodeArgs behind
    refine ⟨by rw [deserializeArgs_decodes values _ suffix behind],?_⟩
    rw [answer]
    simp

/-- A call that a handler accepts runs it exactly once, directly or as a job,
    whatever the bytes behind the signature are, and never when the transport
    is gone. An assertion is raised before if and only if they end before the
    arguments do; the arguments in front of the first one that is cut are the
    ones that the bytes encode. -/
theorem handler_arguments (call_infos : CallInfos) (ipc : Internals) (packet : Data) (type_raw : BitVec 32)
    (no_header_size : Nat) (id : CallId) (proc_name : List Byte) (send_return : Bool)
    (return_type params_type arguments : List Byte) (handler : InvokeRemote)
    (wellformed : packet.bytes = encodeHeader no_header_size pt_call id ++
      (encodeSignature proc_name send_return return_type params_type ++ arguments))
    (accepts : Accepts call_infos ipc.m_proc_map proc_name return_type params_type handler) :
    ∃ call_infos' effects,
      invokeLocal call_infos ipc (receiveCallDataBuffer type_raw packet).data
        (receiveCallDataBuffer type_raw packet).header.id = some (call_infos',effects) ∧
      (ipc.m_transport = none → ∀ later inter_thread, invocations (runJobs later inter_thread effects) = []) ∧
      (ipc.m_transport.isSome → ∃ args,
        (∀ later inter_thread, ∃ before after,
          runJobs later inter_thread effects = before ++ .invoked handler args :: after ∧
          invocations before = [] ∧ invocations after = [] ∧
          (Effect.raised ∈ before ↔ decodeArgs handler.params arguments = none)) ∧
        (∀ k values rest, decodeArgs (handler.params.take k) arguments = some (values,rest) → args.take k = values) ∧
        (∀ values suffix, handler.params = values.map Sigma.fst → arguments = encodeArgs values ++ suffix →
          args = values ∧ decodeArgs handler.params arguments ≠ none)) := by
  cases transport : ipc.m_transport with
  | none =>
    refine ⟨call_infos,[.raised],by simp only [invokeLocal,transport],fun _ _ _ => rfl,?_⟩
    intro there
    cases there
  | some transport' =>
    obtain ⟨call_infos',effects,args,ran,rest⟩ := accepted_arguments transport wellformed accepts
    refine ⟨call_infos',effects,ran,?_,fun _ => ⟨args,rest⟩⟩
    intro gone
    cases gone

/-! ### A handler with one parameter -/

/-- A handler of one `uint32_t`. -/
def taking : InvokeRemote where
  params := [.integer false .four]
  return_type := [118]
  m_del := .void
/-- The name of its parameter type and the separator. -/
def takingParams : List Byte := [117,105,110,116,51,50,95,116,59]
def takingInfos : CallInfos := fun _ => { m_invoke := some taking, signature := ⟨[110],takingParams⟩ }
def takingEndpoint : Internals where
  m_proc_map := ProcMap.single ⟨[110],takingParams⟩ { call_info := 0 }
  m_transport := some (proxyTransport fun _ => 0)
  m_inter_thread_nullable := none
/-- The call `n(7)`, and the same without the bytes of the argument. -/
def takingCall : Data := ⟨encodeHeader 27 pt_call 1 ++ (encodeSignature [110] false [] takingParams ++ [7,0,0,0]),by decide⟩
def cutCall : Data := ⟨encodeHeader 23 pt_call 1 ++ (encodeSignature [110] false [] takingParams ++ []),by decide⟩

theorem taking_accepts : Accepts takingInfos takingEndpoint.m_proc_map [110] [] takingParams taking :=
  ⟨⟨_,List.mem_singleton.mpr rfl,rfl,rfl,rfl⟩,.inl rfl⟩

/-- Without bytes the parameter keeps its default. -/
theorem taking_nothing {s : DataStream} (reads : Reads s []) :
    handlerArgs taking s = [⟨.integer false .four,(0 : BitVec 32)⟩] := by
  have missing := reads.readBytes 4 0
  show [(⟨.integer false .four,(readBytes 4 (0 : BitVec (8*4)) s).1⟩ : Value)] = _
  rw [missing]
  rfl

/-- The handler gets the argument that was sent. -/
theorem handler_arguments_seven :
    ∃ call_infos' effects,
      invokeLocal takingInfos takingEndpoint (receiveCallDataBuffer 0 takingCall).data
        (receiveCallDataBuffer 0 takingCall).header.id = some (call_infos',effects) ∧
      ∃ before after, runJobs none none effects =
        before ++ .invoked taking [⟨.integer false .four,(7 : BitVec 32)⟩] :: after ∧ Effect.raised ∉ before := by
  obtain ⟨call_infos',effects,ran,_,runs⟩ := handler_arguments takingInfos takingEndpoint takingCall 0 27 1 [110]
    false [] takingParams [7,0,0,0] taking rfl taking_accepts
  obtain ⟨args,once,_,sent⟩ := runs rfl
  obtain ⟨before,after,parts,_,_,raised⟩ := once none none
  obtain ⟨same,complete⟩ := sent [⟨.integer false .four,(7 : BitVec 32)⟩] [] rfl (by decide)
  rw [same] at parts
  exact ⟨call_infos',effects,ran,before,after,parts,fun member => complete (raised.mp member)⟩

/-- The packet without the bytes of the argument does not decode, but the
    handler runs, with a zero that nobody sent. -/
theorem cut_arguments_invoked :
    decodeArgs taking.params [] = none ∧
      ∃ call_infos' effects,
        invokeLocal takingInfos takingEndpoint (receiveCallDataBuffer 0 cutCall).data
          (receiveCallDataBuffer 0 cutCall).header.id = some (call_infos',effects) ∧
        invocations effects = [(taking,[⟨.integer false .four,(0 : BitVec 32)⟩])] := by
  refine ⟨rfl,?_⟩
  obtain ⟨header,_,reads⟩ := receiveCallDataBuffer_reads 0 (show cutCall.bytes = encodeHeader 23 pt_call 1 ++
    (encodeSignature [110] false [] takingParams ++ []) from rfl)
  obtain ⟨call_infos',quiet,invoke,silent,returns,ran,outcome⟩ :=
    invokeLocal_outcome takingInfos (show takingEndpoint.m_transport = _ from rfl) reads 1
  obtain ⟨_,moved⟩ := deserializeNameSignature_yields [110] false [] takingParams _ _ reads
  have behind := reads.advance
  rw [← moved] at behind
  rw [header]
  refine ⟨call_infos',_,ran,?_⟩
  rw [invocations_append,silent.invocations,List.nil_append]
  rcases outcome with ⟨handler,accepts,found,_⟩ | ⟨none,_⟩
  · obtain rfl := callable_unique accepts.callable taking_accepts.callable
    have calls := callJobInvoke_invocations (some (proxyTransport fun _ => 0))
      (deserializeNameSignature (receiveCallDataBuffer 0 cutCall).data).2 taking (calcRespondId invoke.send_return 1)
    rw [taking_nothing behind] at calls
    simp only [invokeOrFail,found]
    exact calls
  · exact absurd taking_accepts (none _)

end IpcPortable.HandlerArguments
