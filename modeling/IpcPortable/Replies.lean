import IpcPortable.Dispatch

/-!
The replies to incoming calls. With direct dispatch a call that waits gets
exactly one reply with its id: the result of the handler that accepts it, or
the error when none does (`one_reply`). The size of a packet is a 32-bit
number, so a result that does not fit behind a header gets no reply at all
(`oversize_result`); the handler runs once all the same.
-/
namespace IpcPortable.Replies
open IpcPortable.LittleEndian IpcPortable.DataStream IpcPortable.Values IpcPortable.Packets IpcPortable.RawStrings
open IpcPortable.Calls IpcPortable.Signatures IpcPortable.ProcMaps IpcPortable.Dispatch

/-- What a handler answers, in a packet. -/
def encodeRet : Option Value → List Byte
  | none => []
  | some ret => encode ret.1 ret.2
/-- The packet that carries a body. -/
def packetOf (pt : PacketType) (id : CallId) (body : List Byte) : List Byte := encodeHeader body.length pt id ++ body
/-- The body of the reply to a call that no handler accepts. -/
def encodeFail (error_arg : ErrorArg) : List Byte :=
  bytesOf 1 (show BitVec (8*1) from error_arg.error) ++ encodeString error_arg.message
/-- `Create` answers storage. -/
def Creates (transport : TransportShare) : Prop := ∀ size, size < 2^32 → (transport.create size).isSome

theorem serializeReturn_packet {transport : TransportShare} (creates : Creates transport) {respond_id : CallId}
    (nonzero : respond_id ≠ c_invalid_id) (ret : Option Value) (fits : 12 + (encodeRet ret).length < 2^32) :
    ∃ packet, (serializeReturn (some transport) respond_id ret).1 = some packet ∧
      packet.bytes = packetOf pt_return respond_id (encodeRet ret) := by
  obtain ⟨buffer,created⟩ := Option.isSome_iff_exists.mp (creates _ fits)
  unfold serializeReturn
  cases ret with
  | none =>
    obtain ⟨packet,written,bytes,_⟩ := createDataStream_filled pt_return Emits.pure (Eq.refl _) fits nonzero created
    dsimp only
    rw [if_neg nonzero]
    exact ⟨packet,written,bytes⟩
  | some ret =>
    have emits := insert_emits ret.1 ret.2
    obtain ⟨packet,written,bytes,_⟩ := createDataStream_filled pt_return emits
      (measured_size emits (Nat.lt_of_le_of_lt (Nat.le_add_left _ _) fits)) fits nonzero created
    dsimp only
    rw [if_neg nonzero]
    exact ⟨packet,written,bytes⟩

/-- The arguments that a handler gets from the stream behind the names. -/
def handlerArgs (handler : InvokeRemote) (call_info_data : DataStream) : List Value :=
  (deserializeArgs handler.params call_info_data).1

theorem resultJobInvoke_uncalled (transport : Option TransportShare) (result : Option Data) :
    ∀ effect ∈ resultJobInvoke transport result, effect.calls = false := by
  obtain ⟨effect,sent,rfl | rfl | ⟨packet,rfl⟩⟩ := resultJobInvoke_single transport result <;> rw [sent] <;>
    exact fun _ member => List.mem_singleton.mp member ▸ rfl
theorem resultJobInvoke_invocations (transport : Option TransportShare) (result : Option Data) :
    invocations (resultJobInvoke transport result) = [] :=
  invocations_uncalled (resultJobInvoke_uncalled transport result)

/-- A handler that is called directly runs once, with the arguments read. -/
theorem callJobInvoke_invocations (transport : Option TransportShare) (call_info_data : DataStream)
    (handler : InvokeRemote) (respond_id : CallId) :
    invocations (callJobInvoke transport none call_info_data handler respond_id) =
      [(handler,handlerArgs handler call_info_data)] := by
  have before := (raisedSince_silent call_info_data (deserializeArgs handler.params call_info_data).2).invocations
  have after := (serializeReturn_silent transport respond_id
    (delegateRet handler.m_del (deserializeArgs handler.params call_info_data).1)).invocations
  unfold callJobInvoke invokeRemoteInvoke
  dsimp only
  split
  · simp [before,after,resultJobInvoke_invocations,handlerArgs]
  · simp [before,after,handlerArgs]

theorem callJobInvoke_writes {transport : TransportShare} (creates : Creates transport) (call_info_data : DataStream)
    (handler : InvokeRemote) (respond_id : CallId)
    (fits : respond_id ≠ c_invalid_id →
      12 + (encodeRet (delegateRet handler.m_del (handlerArgs handler call_info_data))).length < 2^32) :
    (writes (callJobInvoke (some transport) none call_info_data handler respond_id)).map Data.bytes =
      if respond_id ≠ c_invalid_id then
        [packetOf pt_return respond_id (encodeRet (delegateRet handler.m_del (handlerArgs handler call_info_data)))]
      else [] := by
  have before := (raisedSince_silent call_info_data (deserializeArgs handler.params call_info_data).2).writes
  have after := (serializeReturn_silent (some transport) respond_id
    (delegateRet handler.m_del (deserializeArgs handler.params call_info_data).1)).writes
  unfold callJobInvoke invokeRemoteInvoke
  dsimp only
  split
  · rename_i nonzero
    obtain ⟨packet,result,bytes⟩ := serializeReturn_packet creates nonzero _ (fits nonzero)
    have size : packet.size = 12 + (encodeRet (delegateRet handler.m_del (handlerArgs handler call_info_data))).length := by
      simp [Data.size,bytes,packetOf]
    have whole : packet.size ≥ c_net_call_packet_header_size := by
      unfold c_net_call_packet_header_size
      omega
    unfold handlerArgs at result bytes ⊢
    simp [before,after,result,resultJobInvoke,whole,bytes]
  · simp [before,after]

theorem storeReturnFailCall_emits (error_arg : ErrorArg) : Emits (storeReturnFailCall error_arg) (encodeFail error_arg) :=
  (writeBytes_emits true 1 error_arg.error).bind (insertString_emits error_arg.message)

/-- The last part of the dispatch of a call that a handler accepts. -/
theorem invokeOrFail_accepted {ipc : Internals} {transport : TransportShare} (creates : Creates transport)
    (direct : ipc.m_inter_thread_nullable = none) (call_info_data : DataStream) {id : CallId}
    (nonzero : id ≠ c_invalid_id) {invoke : AnalizeInvokeDataRes} {handler : InvokeRemote}
    (found : invoke.invoke_base = some handler) :
    invocations (invokeOrFail ipc transport call_info_data id invoke) = [(handler,handlerArgs handler call_info_data)] ∧
      ((invoke.send_return = true →
          12 + (encodeRet (delegateRet handler.m_del (handlerArgs handler call_info_data))).length < 2^32) →
        (writes (invokeOrFail ipc transport call_info_data id invoke)).map Data.bytes =
          if invoke.send_return then
            [packetOf pt_return id (encodeRet (delegateRet handler.m_del (handlerArgs handler call_info_data)))]
          else []) := by
  have directly : isDirectCall none handler.m_thread_id = true := rfl
  unfold invokeOrFail
  rw [found,direct]
  dsimp only
  rw [if_pos directly]
  refine ⟨callJobInvoke_invocations _ _ _ _,?_⟩
  intro fits
  cases returns : invoke.send_return with
  | true =>
    rw [callJobInvoke_writes creates _ _ _ fun _ => fits returns]
    simp [calcRespondId,nonzero]
  | false =>
    have silent : calcRespondId false id = c_invalid_id := rfl
    rw [silent,callJobInvoke_writes creates _ _ _ fun waits => absurd rfl waits]
    simp

/-- The last part of the dispatch of a call that no handler accepts. -/
theorem invokeOrFail_rejected {ipc : Internals} {transport : TransportShare} (alive : ipc.m_transport = some transport)
    (creates : Creates transport) (call_info_data : DataStream) {id : CallId} (nonzero : id ≠ c_invalid_id)
    {invoke : AnalizeInvokeDataRes} (missing : invoke.invoke_base = none) {error_arg : ErrorArg}
    (reason : invoke.error_arg = some error_arg) (fits : 12 + (encodeFail error_arg).length < 2^32) :
    invocations (invokeOrFail ipc transport call_info_data id invoke) = [] ∧
      (writes (invokeOrFail ipc transport call_info_data id invoke)).map Data.bytes =
        if invoke.send_return then [packetOf pt_return_fail_call id (encodeFail error_arg)] else [] := by
  unfold invokeOrFail
  rw [missing,reason,alive]
  dsimp only
  cases invoke.send_return with
  | false => exact ⟨rfl,rfl⟩
  | true =>
    obtain ⟨buffer,created⟩ := Option.isSome_iff_exists.mp (creates _ fits)
    have emits := storeReturnFailCall_emits error_arg
    obtain ⟨packet,written,bytes,_⟩ := createDataStream_filled pt_return_fail_call emits
      (measured_size emits (Nat.lt_of_le_of_lt (Nat.le_add_left _ _) fits)) fits nonzero created
    have quiet := raisedSince_silent {} (storeReturnFailCall error_arg
      (createDataStream (some transport) (storeReturnFailCall error_arg {}).2.m_write_pos pt_return_fail_call id)).2
    simp [written,quiet.writes,quiet.invocations,bytes,packetOf]

/-- The effects of a dispatch, part by part. -/
theorem invokeLocal_parts {call_infos : CallInfos} {ipc : Internals} {transport : TransportShare}
    (alive : ipc.m_transport = some transport) {call_info_data behind : DataStream} {found : DeserializedFindCallInfo}
    (read : deserializeNameSignature call_info_data = (found,behind)) {invoke : AnalizeInvokeDataRes}
    {reported : List Effect} (analized : analizeNames call_infos ipc found = some (invoke,reported)) (id : CallId) :
    invokeLocal call_infos ipc call_info_data id = some ((countCall call_infos ipc invoke).1,
      raisedSince call_info_data behind ++ reported ++ (countCall call_infos ipc invoke).2 ++
        invokeOrFail ipc transport behind id invoke) := by
  simp only [invokeLocal,alive,analizeInvokeData,read,analized,Option.bind_eq_bind,Option.bind_some,Option.pure_def]

/-- The dispatch of a well-formed call up to its last part: nothing is called
    or written, and the handler that accepts the call is found if there is one. -/
theorem invokeLocal_outcome (call_infos : CallInfos) {ipc : Internals} {transport : TransportShare}
    (alive : ipc.m_transport = some transport) {call_info_data : DataStream} {proc_name : List Byte}
    {send_return : Bool} {return_type params_type arguments : List Byte}
    (reads : Reads call_info_data (encodeSignature proc_name send_return return_type params_type ++ arguments))
    (id : CallId) :
    ∃ call_infos' quiet invoke, Silent quiet ∧ invoke.send_return = send_return ∧
      invokeLocal call_infos ipc call_info_data id = some (call_infos',
        quiet ++ invokeOrFail ipc transport (deserializeNameSignature call_info_data).2 id invoke) ∧
      ((∃ handler, Accepts call_infos ipc.m_proc_map proc_name return_type params_type handler ∧
          invoke.invoke_base = some handler ∧ Effect.raised ∉ quiet) ∨
        ((∀ handler, ¬ Accepts call_infos ipc.m_proc_map proc_name return_type params_type handler) ∧
          invoke.invoke_base = none ∧
          ∃ error, Refusal call_infos ipc.m_proc_map ⟨proc_name,params_type⟩ error ∧
            invoke.error_arg = some ⟨error,errorMessage return_type proc_name params_type⟩)) := by
  obtain ⟨names,moved⟩ := deserializeNameSignature_yields proc_name send_return return_type params_type _ _ reads
  revert names moved
  cases read : deserializeNameSignature call_info_data with
  | mk found behind =>
    intro names moved
    obtain ⟨invoke,reported,analized,returns,quiet,outcome⟩ := analizeNames_cases names call_infos ipc
    refine ⟨_,_,invoke,?_,returns,invokeLocal_parts alive read analized id,?_⟩
    · exact ((raisedSince_silent call_info_data behind).append quiet).append (countCall_silent call_infos ipc invoke)
    · refine outcome.imp_left ?_
      rintro ⟨handler,accepts,base,rfl⟩
      have raised : raisedSince call_info_data behind = [] := by
        rw [show behind = _ from moved]
        simp [raisedSince,DataStream.advance]
      refine ⟨handler,accepts,base,?_⟩
      simpa [raised] using countCall_raised call_infos ipc invoke

/-- A call that no handler accepts is answered with the reason, if it waits. -/
theorem invokeLocal_rejected {call_infos call_infos' : CallInfos} {ipc : Internals} {transport : TransportShare} {packet : Data}
    {type_raw : BitVec 32} {no_header_size : Nat} {id : CallId} {proc_name : List Byte} {send_return : Bool}
    {return_type params_type arguments : List Byte} {effects : List Effect}
    (alive : ipc.m_transport = some transport) (creates : Creates transport) (nonzero : id ≠ c_invalid_id)
    (wellformed : packet.bytes = encodeHeader no_header_size pt_call id ++
      (encodeSignature proc_name send_return return_type params_type ++ arguments))
    (rejected : ∀ handler, ¬ Accepts call_infos ipc.m_proc_map proc_name return_type params_type handler)
    (ran : invokeLocal call_infos ipc (receiveCallDataBuffer type_raw packet).data id = some (call_infos',effects)) :
    invocations effects = [] ∧ ∃ error, Refusal call_infos ipc.m_proc_map ⟨proc_name,params_type⟩ error ∧
      (writes effects).map Data.bytes =
        if send_return then
          [packetOf pt_return_fail_call id (encodeFail ⟨error,errorMessage return_type proc_name params_type⟩)]
        else [] := by
  obtain ⟨_,_,reads⟩ := receiveCallDataBuffer_reads type_raw wellformed
  obtain ⟨_,quiet,invoke,silent,returns,same,outcome⟩ := invokeLocal_outcome call_infos alive reads id
  rw [ran] at same
  cases same
  rcases outcome with ⟨handler,accepts,_⟩ | ⟨_,missing,error,refusal,reason⟩
  · exact absurd accepts (rejected handler)
  · have small : 12 + (encodeFail ⟨error,errorMessage return_type proc_name params_type⟩).length < 2^32 := by
      have bound := packet.fits
      simp only [wellformed,encodeSignature,List.length_append,encodeHeader_length,encodeString_length,
        List.length_singleton] at bound
      simp only [encodeFail,errorMessage,List.length_append,bytesOf_length,encodeString_length,List.length_singleton]
      omega
    obtain ⟨calls,replies⟩ := invokeOrFail_rejected alive creates
      (deserializeNameSignature (receiveCallDataBuffer type_raw packet).data).2 nonzero missing reason small
    rw [returns] at replies
    refine ⟨?_,error,refusal,?_⟩
    · rw [invocations_append,silent.invocations,calls,List.nil_append]
    · rw [writes_append,silent.writes,List.nil_append,replies]

/-- Direct dispatch of a well-formed call: the handler that accepts it runs
    once, and a caller that waits gets exactly one packet, with its id: the
    encoded result if it fits into a packet, or the error when no handler
    accepts the call. A caller that does not wait gets no packet. -/
theorem one_reply (call_infos : CallInfos) (ipc : Internals) (transport : TransportShare) (packet : Data)
    (type_raw : BitVec 32) (no_header_size : Nat) (id : CallId) (proc_name : List Byte) (send_return : Bool)
    (return_type params_type arguments : List Byte)
    (alive : ipc.m_transport = some transport) (creates : Creates transport)
    (direct : ipc.m_inter_thread_nullable = none) (nonzero : id ≠ c_invalid_id)
    (wellformed : packet.bytes = encodeHeader no_header_size pt_call id ++
      (encodeSignature proc_name send_return return_type params_type ++ arguments)) :
    ∃ call_infos' effects,
      invokeLocal call_infos ipc (receiveCallDataBuffer type_raw packet).data
        (receiveCallDataBuffer type_raw packet).header.id = some (call_infos',effects) ∧
      (∀ handler, Accepts call_infos ipc.m_proc_map proc_name return_type params_type handler →
        ∃ args, args = handlerArgs handler (deserializeNameSignature (receiveCallDataBuffer type_raw packet).data).2 ∧
          invocations effects = [(handler,args)] ∧
          ((send_return = true → 12 + (encodeRet (delegateRet handler.m_del args)).length < 2^32) →
            (writes effects).map Data.bytes =
              if send_return then [packetOf pt_return id (encodeRet (delegateRet handler.m_del args))] else [])) ∧
      ((∀ handler, ¬ Accepts call_infos ipc.m_proc_map proc_name return_type params_type handler) →
        invocations effects = [] ∧
          ∃ error, (writes effects).map Data.bytes =
            if send_return then
              [packetOf pt_return_fail_call id (encodeFail ⟨error,errorMessage return_type proc_name params_type⟩)]
            else []) := by
  obtain ⟨header,_,reads⟩ := receiveCallDataBuffer_reads type_raw wellformed
  obtain ⟨call_infos',quiet,invoke,silent,returns,ran,outcome⟩ := invokeLocal_outcome call_infos alive reads id
  rw [header]
  refine ⟨call_infos',_,ran,?_,?_⟩
  · intro handler accepts
    obtain ⟨other,accepted,found⟩ : ∃ other, Accepts call_infos ipc.m_proc_map proc_name return_type params_type other ∧
        invoke.invoke_base = some other := by
      rcases outcome with ⟨other,accepted,found,_⟩ | ⟨none,_⟩
      · exact ⟨other,accepted,found⟩
      · exact absurd accepts (none handler)
    obtain rfl := callable_unique accepted.callable accepts.callable
    obtain ⟨calls,replies⟩ := invokeOrFail_accepted creates direct
      (deserializeNameSignature (receiveCallDataBuffer type_raw packet).data).2 nonzero found
    rw [returns] at replies
    refine ⟨_,rfl,?_,?_⟩
    · rw [invocations_append,silent.invocations,calls,List.nil_append]
    · intro fits
      rw [writes_append,silent.writes,List.nil_append,replies fits]
  · intro rejected
    obtain ⟨calls,error,_,replies⟩ := invokeLocal_rejected alive creates nonzero wellformed rejected ran
    exact ⟨calls,error,replies⟩

/-! ### One handler without parameters -/

/-- A handler without parameters that answers one value. -/
def answering (return_type : List Byte) (ret : Value) : InvokeRemote where
  params := []
  return_type := return_type
  m_del := .returns ret.1 fun _ => ret.2
def infosOf (handler : InvokeRemote) : CallInfos := fun _ => { m_invoke := some handler, signature := ⟨[110],[]⟩ }
/-- An endpoint with one handler, of the name `n`. -/
def endpointOf : Internals where
  m_proc_map := ProcMap.single ⟨[110],[]⟩ { call_info := 0 }
  m_transport := some (proxyTransport fun _ => 0)
  m_inter_thread_nullable := none
/-- The call `n()` that waits for its answer. -/
def callOf : Data := ⟨encodeHeader 14 pt_call 1 ++ (encodeSignature [110] true [] [] ++ []),by decide⟩

theorem proxyTransport_creates (fresh : Nat → Byte) : Creates (proxyTransport fresh) := by
  intro size small
  rw [proxyTransport_create fresh small]
  rfl

theorem infosOf_accepts (handler : InvokeRemote) (callable : handler.is_callable = true) :
    Accepts (infosOf handler) endpointOf.m_proc_map [110] [] [] handler :=
  ⟨⟨_,List.mem_singleton.mpr rfl,rfl,rfl,callable⟩,.inl rfl⟩

theorem infosOf_unique {handler other : InvokeRemote}
    (accepts : Accepts (infosOf handler) endpointOf.m_proc_map [110] [] [] other) : other = handler := by
  obtain ⟨entry,_,_,installed,_⟩ := accepts.callable
  exact (Option.some.inj installed).symm

/-- The call of a handler that answers `true`. -/
theorem one_reply_true :
    ∃ call_infos' effects,
      invokeLocal (infosOf (answering [98] ⟨.bool,true⟩)) endpointOf (receiveCallDataBuffer 0 callOf).data
        (receiveCallDataBuffer 0 callOf).header.id = some (call_infos',effects) ∧
      invocations effects = [(answering [98] ⟨.bool,true⟩,[])] ∧
      (writes effects).map Data.bytes = [packetOf pt_return 1 [1]] := by
  obtain ⟨call_infos',effects,ran,accepted,_⟩ := one_reply (infosOf (answering [98] ⟨.bool,true⟩)) endpointOf
    (proxyTransport fun _ => 0) callOf 0 14 1 [110] true [] [] [] rfl (proxyTransport_creates _) rfl (by decide) rfl
  obtain ⟨args,none,calls,replies⟩ := accepted _ (infosOf_accepts _ rfl)
  have empty : args = [] := none
  rw [empty] at calls replies
  exact ⟨call_infos',effects,ran,calls,replies fun _ => by decide⟩

/-! ### A result that does not fit -/

theorem insertString_keeps (v : List Byte) : Keeps (insertString v) :=
  (writeBytes_keeps true 4 _).bind (writeRawData_keeps _)

theorem packetHeaderWrite_keeps (no_header_size : Nat) (pt : PacketType) (id : CallId) :
    Keeps (packetHeaderWrite no_header_size pt id) :=
  (writeBytes_keeps true 4 _).bind ((writeBytes_keeps true 4 pt).bind (writeBytes_keeps true 4 id))

/-- The packet of a result is as large as its size modulo the largest packet. -/
theorem serializeReturn_wraps (fresh : Nat → Byte) (ret : List Byte) (small : 4 + ret.length < 2^32) :
    ∃ packet, (serializeReturn (some (proxyTransport fresh)) 1 (some ⟨.string,ret⟩)).1 = some packet ∧
      packet.size = (16 + ret.length) % 2^32 := by
  have measured : (insert .string ret {}).2.m_write_pos = 4 + ret.length := by
    rw [measured_size (insert_emits .string ret) (by simpa [encode] using small)]
    simp [encode]
  have total : (c_net_call_packet_header_size + (4 + ret.length)) % 2^32 = (16 + ret.length) % 2^32 := by
    unfold c_net_call_packet_header_size
    omega
  have created := proxyTransport_create fresh (Nat.mod_lt (16 + ret.length) (Nat.two_pow_pos 32))
  have header : (createDataStream (some (proxyTransport fresh)) (4 + ret.length) pt_return 1).m_write.map Data.size =
      some ((16 + ret.length) % 2^32) := by
    simp only [createDataStream,createDataBuffer,total,created]
    rw [if_pos (by decide),packetHeaderWrite_keeps]
    simp [DataStream.ofWrite]
  have written := insertString_keeps ret (createDataStream (some (proxyTransport fresh)) (4 + ret.length) pt_return 1)
  rw [header] at written
  obtain ⟨packet,stored,size⟩ := Option.map_eq_some_iff.mp written
  refine ⟨packet,?_,size⟩
  simp only [serializeReturn]
  rw [if_neg (by decide),measured]
  exact stored

/-- A packet shorter than a header is not written. -/
theorem callJobInvoke_short (fresh : Nat → Byte) (call_info_data : DataStream) (return_type ret : List Byte)
    (small : 4 + ret.length < 2^32) (short : (16 + ret.length) % 2^32 < 12) :
    writes (callJobInvoke (some (proxyTransport fresh)) none call_info_data (answering return_type ⟨.string,ret⟩) 1) = [] := by
  obtain ⟨packet,result,size⟩ := serializeReturn_wraps fresh ret small
  have before := (raisedSince_silent call_info_data (deserializeArgs [] call_info_data).2).writes
  have after := (serializeReturn_silent (some (proxyTransport fresh)) 1 (some ⟨.string,ret⟩)).writes
  have refused : ¬ packet.size ≥ c_net_call_packet_header_size := by
    unfold c_net_call_packet_header_size
    omega
  have answered : delegateRet (answering return_type ⟨.string,ret⟩).m_del
      (deserializeArgs (answering return_type ⟨.string,ret⟩).params call_info_data).1 = some ⟨.string,ret⟩ := rfl
  have params : (answering return_type ⟨.string,ret⟩).params = [] := rfl
  unfold callJobInvoke invokeRemoteInvoke
  dsimp only
  rw [answered,params,if_pos (by decide),writes_append,writes_append,before,writes_invoked,after,result]
  simp only [resultJobInvoke,if_neg refused]
  rfl

theorem oversize_silent (ret : List Byte) (small : 4 + ret.length < 2^32) (short : (16 + ret.length) % 2^32 < 12) :
    ∃ call_infos' effects,
      invokeLocal (infosOf (answering [98] ⟨.string,ret⟩)) endpointOf
        (receiveCallDataBuffer 0 callOf).data (receiveCallDataBuffer 0 callOf).header.id = some (call_infos',effects) ∧
      writes effects = [] := by
  obtain ⟨header,_,reads⟩ := receiveCallDataBuffer_reads 0 (show callOf.bytes = encodeHeader 14 pt_call 1 ++
    (encodeSignature [110] true [] [] ++ []) from rfl)
  obtain ⟨call_infos',quiet,invoke,silent,returns,ran,outcome⟩ :=
    invokeLocal_outcome (infosOf (answering [98] ⟨.string,ret⟩)) (show endpointOf.m_transport = _ from rfl) reads 1
  rw [header]
  refine ⟨call_infos',_,ran,?_⟩
  rw [writes_append,silent.writes,List.nil_append]
  rcases outcome with ⟨handler,accepts,found,_⟩ | ⟨none,_⟩
  · obtain rfl := infosOf_unique accepts
    simp only [invokeOrFail,found,returns]
    exact callJobInvoke_short _ _ [98] ret small short
  · exact absurd (infosOf_accepts _ rfl) (none _)

/-- The call of a handler that answers a string of 2^32 - 13 bytes: the handler
    accepts the call and the caller waits, but no packet is written. -/
theorem oversize_result :
    Accepts (infosOf (answering [98] ⟨.string,List.replicate (2^32 - 13) 0⟩)) endpointOf.m_proc_map [110] [] []
        (answering [98] ⟨.string,List.replicate (2^32 - 13) 0⟩) ∧
      ∃ call_infos' effects,
        invokeLocal (infosOf (answering [98] ⟨.string,List.replicate (2^32 - 13) 0⟩)) endpointOf
          (receiveCallDataBuffer 0 callOf).data (receiveCallDataBuffer 0 callOf).header.id = some (call_infos',effects) ∧
        writes effects = [] := by
  refine ⟨infosOf_accepts _ rfl,oversize_silent _ ?_ ?_⟩
  · rw [List.length_replicate]
    decide
  · rw [List.length_replicate]
    decide

end IpcPortable.Replies
