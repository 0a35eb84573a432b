import IpcPortable.RawStrings

/-!
The body of a call packet: `SerializeCall` writes the name, the flag, the
return type, the parameter types and the arguments, and
`DeserializeNameSignature` and `DeserializeArgs` read them. The parameter types
are put together three times, by `GetParams` with three different holders.
-/
namespace IpcPortable.Calls
open IpcPortable.LittleEndian IpcPortable.DataStream IpcPortable.Values IpcPortable.Packets IpcPortable.RawStrings

/-- `separator`, a semicolon. -/
def separator : Byte := 59

/-- `ProcSignature::GetParams`: one `AddType` for each parameter, from left to right. -/
def getParams {m : Type → Type} [Monad m] (addType : List Byte → m Unit) : List (List Byte) → m Unit
  | [] => pure ()
  | name :: rest => do
    addType name
    getParams addType rest
/-- `ParamsTypeHolder_string::AddType`. -/
def addTypeString (name : List Byte) : StateM (List Byte) Unit :=
  modify fun m_value => m_value ++ name ++ [separator]
/-- `ParamsTypeHolder_PacketSize::AddType`. -/
def addTypeSize (name : List Byte) : StateM Nat Unit :=
  modify fun m_size => ((m_size + name.length) % 2^32 + 1) % 2^32
/-- `ParamsTypeHolder_MAssIpcCallDataStream::AddType`. -/
def addTypeStream (name : List Byte) : StateM DataStream Unit := do
  writeRawData name
  writeRawData [separator]
/-- The size the counting pass arrives at. -/
def paramsTypeSize (params : List (List Byte)) : Nat := (getParams addTypeSize params 0).2
/-- `CallInfoImpl::MakeParamsType`. -/
def makeParamsType (params : List (List Byte)) : List Byte := (getParams addTypeString params []).2

/-- `SerializeCallSignature`; `return_type` and `params` are the names of the types. -/
def serializeCallSignature (proc_name : List Byte) (send_return : Bool) (return_type : List Byte)
    (params : List (List Byte)) : StateM DataStream Unit := do
  (RawString.ofBytes proc_name).write
  insert .bool send_return
  (RawString.ofBytes return_type).write
  insertU32 (paramsTypeSize params)
  getParams addTypeStream params
/-- `SerializeCall`. -/
def serializeCall (proc_name : List Byte) (send_return : Bool) (return_type : List Byte)
    (params : List (List Byte)) (args : List Value) : StateM DataStream Unit := do
  serializeCallSignature proc_name send_return return_type params
  serializeArgs args
/-- The stream `call_info` that `InvokeUnified` writes for a new id. -/
def callInfo (weak_transport : Option TransportShare) (inplace_send_buffer : Option Data) (new_id : CallId)
    (proc_name : List Byte) (send_return : Bool) (return_type : List Byte) (params : List (List Byte))
    (args : List Value) : DataStream :=
  let measure_size := (serializeCall proc_name send_return return_type params args {}).2
  let call_info := match inplace_send_buffer with
    | some buffer => createDataStreamInplace buffer measure_size.m_write_pos new_id
    | none => createDataStream weak_transport measure_size.m_write_pos pt_call new_id
  (serializeCall proc_name send_return return_type params args call_info).2

structure DeserializedFindCallInfo where
  name : RawString
  send_return : Bool
  return_type : RawString
  params_type : RawString
/-- `DeserializeNameSignature`. -/
def deserializeNameSignature : StateM DataStream DeserializedFindCallInfo := do
  let name ← RawString.read
  let send_return ← extract .bool false
  let return_type ← RawString.read
  let params_type ← RawString.read
  pure { name, send_return, return_type, params_type }

/-! ### What is written -/

/-- The names of the parameter types, each followed by the separator. -/
def paramsType (params : List (List Byte)) : List Byte := params.flatMap fun name => name ++ [separator]
def encodeSignature (proc_name : List Byte) (send_return : Bool) (return_type params_type : List Byte) : List Byte :=
  encodeString proc_name ++ ([boolImage send_return] ++ (encodeString return_type ++ encodeString params_type))
/-- The body of a call packet. -/
def encodeCall (proc_name : List Byte) (send_return : Bool) (return_type : List Byte)
    (params : List (List Byte)) (args : List Value) : List Byte :=
  encodeSignature proc_name send_return return_type (paramsType params) ++ encodeArgs args

theorem getParams_string (params : List (List Byte)) (m_value : List Byte) :
    (getParams addTypeString params m_value).2 = m_value ++ paramsType params := by
  induction params generalizing m_value with
  | nil => exact (List.append_nil m_value).symm
  | cons name rest ih =>
    calc (getParams addTypeString (name :: rest) m_value).2
        = (getParams addTypeString rest (m_value ++ name ++ [separator])).2 := rfl
      _ = m_value ++ paramsType (name :: rest) := by simp [ih,paramsType]

theorem makeParamsType_paramsType (params : List (List Byte)) : makeParamsType params = paramsType params :=
  getParams_string params []

theorem getParams_size (params : List (List Byte)) (m_size : Nat) :
    (getParams addTypeSize params m_size).2 % 2^32 = (m_size + (paramsType params).length) % 2^32 := by
  induction params generalizing m_size with
  | nil => rfl
  | cons name rest ih =>
    have step : (getParams addTypeSize (name :: rest) m_size).2 =
        (getParams addTypeSize rest (((m_size + name.length) % 2^32 + 1) % 2^32)).2 := rfl
    have length : (paramsType (name :: rest)).length = name.length + 1 + (paramsType rest).length := by
      simp [paramsType]
      omega
    rw [step,ih,length]
    omega

theorem getParams_size_lt (params : List (List Byte)) (m_size : Nat) (small : m_size < 2^32) :
    (getParams addTypeSize params m_size).2 < 2^32 := by
  induction params generalizing m_size with
  | nil => exact small
  | cons name rest ih => exact ih _ (Nat.mod_lt _ (by decide))

/-- The counting pass counts what the two other passes write. -/
theorem paramsTypeSize_eq (params : List (List Byte)) : paramsTypeSize params = (paramsType params).length % 2^32 := by
  have counted := getParams_size params 0
  have small := getParams_size_lt params 0 (by decide)
  rw [Nat.mod_eq_of_lt small,Nat.zero_add] at counted
  exact counted

theorem getParams_emits (params : List (List Byte)) : Emits (getParams addTypeStream params) (paramsType params) := by
  induction params with
  | nil => exact Emits.pure
  | cons name rest ih => exact ((writeRawData_emits name).bind (writeRawData_emits [separator])).bind ih

/-- The separate counting pass and the raw writes give the string of the parameter types. -/
theorem writeParams_emits (params : List (List Byte)) :
    Emits (insertU32 (paramsTypeSize params) >>= fun _ => getParams addTypeStream params)
      (encodeString (paramsType params)) := by
  intro s room
  have small : (paramsType params).length < 2^32 := by
    have := room.small
    simp only [encodeString_length] at this
    omega
  rw [paramsTypeSize_eq,Nat.mod_eq_of_lt small]
  exact (insertU32_emits _).bind (getParams_emits params) s room

theorem serializeCallSignature_emits (proc_name : List Byte) (send_return : Bool) (return_type : List Byte)
    (params : List (List Byte)) :
    Emits (serializeCallSignature proc_name send_return return_type params)
      (encodeSignature proc_name send_return return_type (paramsType params)) :=
  (write_emits proc_name).bind ((insert_emits .bool send_return).bind
    ((write_emits return_type).bind (writeParams_emits params)))

theorem serializeCall_emits (proc_name : List Byte) (send_return : Bool) (return_type : List Byte)
    (params : List (List Byte)) (args : List Value) :
    Emits (serializeCall proc_name send_return return_type params args)
      (encodeCall proc_name send_return return_type params args) :=
  (serializeCallSignature_emits proc_name send_return return_type params).bind (serializeArgs_emits args)

/-! ### What is read back -/

/-- The strings and the flag the reader found are those of a call. -/
structure Names (found : DeserializedFindCallInfo) (proc_name : List Byte) (send_return : Bool)
    (return_type params_type : List Byte) : Prop where
  name : found.name.content = some proc_name
  send_return : found.send_return = send_return
  return_type : found.return_type.content = some return_type
  params_type : found.params_type.content = some params_type

theorem deserializeNameSignature_yields (proc_name : List Byte) (send_return : Bool)
    (return_type params_type : List Byte) :
    Yields deserializeNameSignature (encodeSignature proc_name send_return return_type params_type)
      fun found => Names found proc_name send_return return_type params_type := by
  refine (read_yields proc_name).bind fun name named => ?_
  refine (extract_decodes .bool false send_return).yields.bind fun flag flagged => ?_
  refine (read_yields return_type).bind fun ret returns => ?_
  exact (read_yields params_type).map fun types typed => ⟨named,flagged,returns,typed⟩

/-- The packet of a call: the header and the encoded call, which fill the
    storage that the transport made. -/
theorem callInfo_filled {transport : TransportShare} {buffer : Data} {id : CallId} {proc_name : List Byte}
    {send_return : Bool} {return_type : List Byte} {params : List (List Byte)} {args : List Value}
    (nonzero : id ≠ c_invalid_id)
    (total : 12 + (encodeCall proc_name send_return return_type params args).length < 2^32)
    (created : transport.create (12 + (encodeCall proc_name send_return return_type params args).length) = some buffer) :
    ∃ packet,
      (callInfo (some transport) none id proc_name send_return return_type params args).m_write = some packet ∧
      packet.bytes = encodeHeader (encodeCall proc_name send_return return_type params args).length pt_call id ++
        encodeCall proc_name send_return return_type params args ∧
      (callInfo (some transport) none id proc_name send_return return_type params args).raised = 0 := by
  have emits := serializeCall_emits proc_name send_return return_type params args
  exact createDataStream_filled pt_call emits (measured_size emits (by omega)) total nonzero created

/-- The packet that `InvokeUnified` builds for a call is read back as that
    call: its header, its names and its arguments, up to its end. -/
theorem call_round_trip (transport : TransportShare) (buffer : Data) (id : CallId) (proc_name : List Byte)
    (send_return : Bool) (return_type : List Byte) (params : List (List Byte)) (args : List Value)
    (nonzero : id ≠ c_invalid_id)
    (total : 12 + (encodeCall proc_name send_return return_type params args).length < 2^32)
    (created : transport.create (12 + (encodeCall proc_name send_return return_type params args).length) = some buffer) :
    ∃ packet header found read,
      (callInfo (some transport) none id proc_name send_return return_type params args).m_write = some packet ∧
      (callInfo (some transport) none id proc_name send_return return_type params args).raised = 0 ∧
      (∀ type_raw, readHeader type_raw (DataStream.ofRead packet) = (header,(DataStream.ofRead packet).advance 12)) ∧
      packet.size = 12 + header.size.toNat ∧ header.type = pt_call ∧ header.id = id ∧
      deserializeNameSignature ((DataStream.ofRead packet).advance 12) = (found,read) ∧
      Names found proc_name send_return return_type (makeParamsType params) ∧
      (deserializeArgs (args.map Sigma.fst) read).1 = args ∧
      (deserializeArgs (args.map Sigma.fst) read).2.m_read_pos = packet.size ∧
      (deserializeArgs (args.map Sigma.fst) read).2.raised = 0 := by
  obtain ⟨packet,written,bytes,quiet⟩ := callInfo_filled nonzero total created
  have reads := reads_ofRead packet
  rw [bytes] at reads
  have header := fun type_raw => readHeader_decodes type_raw _ pt_call id _ _ reads
  have body := reads.advance
  simp only [encodeHeader_length] at header body
  rw [encodeCall] at body
  obtain ⟨names,moved⟩ := deserializeNameSignature_yields proc_name send_return return_type (paramsType params) _ _ body
  cases result : deserializeNameSignature ((DataStream.ofRead packet).advance 12) with
  | mk found read =>
    simp only [result] at names moved
    have signed := body.advance
    rw [← moved,← List.append_nil (encodeArgs args)] at signed
    have decoded := deserializeArgs_decodes args read [] signed
    have size : packet.size = 12 + (encodeCall proc_name send_return return_type params args).length := by
      simp [Data.size,bytes]
    have length : (encodeCall proc_name send_return return_type params args).length =
        (encodeSignature proc_name send_return return_type (paramsType params)).length + (encodeArgs args).length := by
      simp [encodeCall]
    refine ⟨packet,_,found,read,written,quiet,header,?_,rfl,rfl,result,?_,by rw [decoded],?_,?_⟩
    · rw [size,BitVec.toNat_ofNat]
      omega
    · rwa [makeParamsType_paramsType]
    · rw [decoded,moved,size]
      simp only [DataStream.advance,DataStream.ofRead]
      omega
    · rw [decoded,moved]
      rfl

/-- The call `not(true)` that asks for its answer, through `TransportProxy`. -/
theorem call_round_trip_not :
    ∃ packet header found read,
      (callInfo (some (proxyTransport fun _ => 0)) none 7 [110,111,116] true [98] [[98]] [⟨.bool,true⟩]).m_write = some packet ∧
      (callInfo (some (proxyTransport fun _ => 0)) none 7 [110,111,116] true [98] [[98]] [⟨.bool,true⟩]).raised = 0 ∧
      (∀ type_raw, readHeader type_raw (DataStream.ofRead packet) = (header,(DataStream.ofRead packet).advance 12)) ∧
      packet.size = 12 + header.size.toNat ∧ header.type = pt_call ∧ header.id = 7 ∧
      deserializeNameSignature ((DataStream.ofRead packet).advance 12) = (found,read) ∧
      Names found [110,111,116] true [98] (makeParamsType [[98]]) ∧
      (deserializeArgs [.bool] read).1 = [⟨.bool,true⟩] ∧
      (deserializeArgs [.bool] read).2.m_read_pos = packet.size ∧
      (deserializeArgs [.bool] read).2.raised = 0 :=
  call_round_trip (proxyTransport fun _ => 0) _ 7 [110,111,116] true [98] [[98]] [⟨.bool,true⟩]
    (by decide) (by decide) (proxyTransport_create _ (by decide))

end IpcPortable.Calls
