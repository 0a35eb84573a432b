import IpcPortable.Calls
import IpcPortable.Replies
import IpcPortable.CallQueue

/-!
An endpoint and its peer. The threads of the endpoint run calls that wait for a
value, from the program or from a handler; the transport is reliable and keeps
the order; the peer answers the calls in any order, and sends packets of its
own. The peer reads a call with the readers of the library.
-/
namespace IpcPortable.Peers
open IpcPortable.Runs IpcPortable.LittleEndian IpcPortable.DataStream IpcPortable.Values IpcPortable.Packets
open IpcPortable.RawStrings IpcPortable.Calls IpcPortable.Replies IpcPortable.Pending IpcPortable.Endpoints
open IpcPortable.EndpointMoves
variable {Tid : Type} [DecidableEq Tid]

/-- A call of `WaitInvokeRet`, with the names of its types. It fits into a
    packet, and into the buffer that is given for it if there is one. -/
structure Invocation where
  proc_name : List Byte
  return_type : List Byte
  params : List (List Byte)
  args : List Value
  ret : SerialType
  inplace_send_buffer : Option Data := none
  fits : 12 + (encodeCall proc_name true return_type params args).length < 2^32
  large : ∀ buffer, inplace_send_buffer = some buffer →
    12 + (encodeCall proc_name true return_type params args).length ≤ buffer.size
def Invocation.encoded (call : Invocation) : List Byte :=
  encodeCall call.proc_name true call.return_type call.params call.args
/-- The stream that `InvokeUnified` gives to `InvokeRemote`. -/
def invocationInfo : CallInfo Invocation := fun call send_return weak_transport new_id =>
  callInfo weak_transport call.inplace_send_buffer new_id call.proc_name send_return call.return_type call.params call.args
/-- The last part of `WaitInvokeRetUnified`. -/
def waitInvokeRet (τ : SerialType) (result : DataStream) : τ.Val :=
  if result.isReadBufferPresent then (readFromStream τ result).1 else τ.default

/-- What the handlers of the peer compute, from the name and the arguments. -/
abbrev Handlers := (ret : SerialType) → List Byte → List Value → ret.Val
/-- The value that a call is for. -/
def Invocation.value (f : Handlers) (call : Invocation) : call.ret.Val := f call.ret call.proc_name call.args
/-- The peer reads a packet, and answers a call that waits; the types are those
    of the handler of the peer. -/
def peerAnswer (f : Handlers) (params : List SerialType) (ret : SerialType) (buffer : CallDataBuffer) :
    Option (CallId × List Byte) :=
  let names := deserializeNameSignature buffer.data
  let args := deserializeArgs params names.2
  match names.1.name.content with
  | some name =>
    if buffer.header.type = pt_call ∧ names.1.send_return then
      some (buffer.header.id,packetOf pt_return buffer.header.id (encode ret (f ret name args.1)))
    else none
  | none => none

/-- A packet on its way to the peer, with the call it was built for. -/
structure Letter where
  id : CallId
  packet : Data
  call : Invocation
/-- The endpoint, the packets on their way to the peer and from the peer, and
    the record of the ids that the peer answered. -/
structure World (Tid : Type) where
  endpoint : Endpoint Tid Invocation := {}
  outgoing : List Letter := []
  arriving : List Data := []
  answered : List CallId := []
inductive Deed (Tid : Type)
  | start (t : Tid) (call : Invocation) (process_incoming_calls : Bool)
  | proceed (t : Tid)
  | write (t : Tid)
  /-- `Read` delivers the next packet, or returns without one. -/
  | read (t : Tid) (delivers : Bool) (type_raw : BitVec 32)
  | answer (place : Nat) (type_raw : BitVec 32)
  /-- The peer calls, or asks to enumerate. -/
  | send (enumerate : Bool) (id : CallId) (no_header_size : Nat) (body : List Byte)

/-- The program or a handler runs in the thread. -/
def calm : List (Activation Invocation) → Bool
  | [] => true
  | frame :: _ => match frame.point with
    | .processing _ _ => true
    | _ => false
/-- A packet that the endpoint gave to the transport. -/
def wroteCall : Event Invocation → Option Letter
  | .wrote (.waitInvoke call _) id packet => some { id, packet, call }
  | _ => none
/-- A step of the endpoint; what it writes is on its way. -/
def World.act (w : World Tid) (t : Tid) (move : Move) : Option (World Tid) :=
  (Endpoints.step invocationInfo w.endpoint (t,.move move)).map fun endpoint =>
    { w with
      endpoint := endpoint
      outgoing := w.outgoing ++ picked wroteCall (endpoint.events.drop w.endpoint.events.length) }
/-- A packet leaves the peer. -/
def World.arrive (w : World Tid) (bytes : List Byte) : Option (World Tid) :=
  if fits : bytes.length < 2^32 then some { w with arriving := w.arriving ++ [⟨bytes,fits⟩] } else none

def step (f : Handlers) (transport : TransportShare) (w : World Tid) : Deed Tid → Option (World Tid)
  | .start t call process_incoming_calls =>
    if calm (w.endpoint.threads t) then
      (Endpoints.step invocationInfo w.endpoint (t,.start (.waitInvoke call process_incoming_calls))).map fun endpoint =>
        { w with endpoint }
    else none
  | .proceed t => w.act t .proceed
  | .write t => w.act t (.write (some transport) true)
  | .read t true type_raw =>
    match w.arriving with
    | [] => none
    | packet :: rest => { w with arriving := rest }.act t (.read true (some packet) type_raw)
  | .read t false type_raw => w.act t (.read true none type_raw)
  | .answer place type_raw =>
    match w.outgoing[place]? with
    | none => none
    | some letter => do
      let (id,bytes) ← peerAnswer f (letter.call.args.map Sigma.fst) letter.call.ret
        (receiveCallDataBuffer type_raw letter.packet)
      let w ← w.arrive bytes
      pure { w with outgoing := w.outgoing.eraseIdx place, answered := w.answered ++ [id] }
  | .send enumerate id no_header_size body =>
    w.arrive (encodeHeader no_header_size (if enumerate then pt_enumerate else pt_call) id ++ body)

/-! ### Every step -/

/-- What the transport does in a step of an activation, and the packets that
    are still arriving behind it. -/
inductive Transports (transport : TransportShare) : List Data → Move → List Data → Prop
  | proceeds {arriving : List Data} : Transports transport arriving .proceed arriving
  | writes {arriving : List Data} : Transports transport arriving (.write (some transport) true) arriving
  | delivers {packet : Data} {rest : List Data} {type_raw : BitVec 32} :
    Transports transport (packet :: rest) (.read true (some packet) type_raw) rest
  | waits {arriving : List Data} {type_raw : BitVec 32} : Transports transport arriving (.read true none type_raw) arriving

/-- Every way a step of the world can go. -/
inductive Happens (f : Handlers) (transport : TransportShare) (w : World Tid) : World Tid → Prop
  | starts {t : Tid} {call : Invocation} {process_incoming_calls : Bool} (free : calm (w.endpoint.threads t) = true) :
    Happens f transport w { w with
      endpoint := { w.endpoint with
        threads := Function.update w.endpoint.threads t
          (enter (.waitInvoke call process_incoming_calls) :: w.endpoint.threads t) } }
  | acts {t : Tid} {frame : Activation Invocation} {below : List (Activation Invocation)} {move : Move}
    {out : Advance Tid Invocation} {arriving : List Data} (running : w.endpoint.threads t = frame :: below)
    (transports : Transports transport w.arriving move arriving)
    (moved : Moves invocationInfo t w.endpoint.pending frame move out) :
    Happens f transport w { w with
      endpoint := {
        pending := out.pending
        threads := Function.update w.endpoint.threads t (out.frames ++ below)
        events := w.endpoint.events ++ out.events.map (t,·) }
      outgoing := w.outgoing ++ out.events.filterMap wroteCall
      arriving := arriving }
  | answers {place : Nat} {type_raw : BitVec 32} {letter : Letter} {id : CallId} {packet : Data}
    (found : w.outgoing[place]? = some letter)
    (answered : peerAnswer f (letter.call.args.map Sigma.fst) letter.call.ret
      (receiveCallDataBuffer type_raw letter.packet) = some (id,packet.bytes)) :
    Happens f transport w { w with
      outgoing := w.outgoing.eraseIdx place
      arriving := w.arriving ++ [packet]
      answered := w.answered ++ [id] }
  | sends {enumerate : Bool} {id : CallId} {no_header_size : Nat} {body : List Byte} {packet : Data}
    (bytes : packet.bytes = encodeHeader no_header_size (if enumerate then pt_enumerate else pt_call) id ++ body) :
    Happens f transport w { w with arriving := w.arriving ++ [packet] }

omit [DecidableEq Tid] in
theorem arrive_result {w w' : World Tid} {bytes : List Byte} (arrived : w.arrive bytes = some w') :
    ∃ packet : Data, packet.bytes = bytes ∧ w' = { w with arriving := w.arriving ++ [packet] } := by
  unfold World.arrive at arrived
  split at arrived
  · rename_i fits
    cases arrived
    exact ⟨⟨bytes,fits⟩,rfl,rfl⟩
  · cases arrived

theorem act_happens (f : Handlers) {transport : TransportShare} {w : World Tid} {arriving : List Data} {w' : World Tid} {t : Tid}
    {move : Move} (transports : Transports transport w.arriving move arriving)
    (acted : { w with arriving }.act t move = some w') : Happens f transport w w' := by
  obtain ⟨endpoint,stepped,rfl⟩ := Option.map_eq_some_iff.mp acted
  cases step_steps stepped with
  | moves running moved =>
    have happens : Happens f transport w _ := .acts running transports moved
    simpa [picked,List.filterMap_map] using happens

theorem step_happens {f : Handlers} {transport : TransportShare} {w w' : World Tid} {deed : Deed Tid}
    (stepped : step f transport w deed = some w') : Happens f transport w w' := by
  cases deed with
  | start t call process_incoming_calls =>
    by_cases free : calm (w.endpoint.threads t) = true
    · rw [step,if_pos free] at stepped
      obtain ⟨endpoint,started,rfl⟩ := Option.map_eq_some_iff.mp stepped
      cases step_steps started with
      | starts => exact .starts free
    · rw [step,if_neg free] at stepped
      cases stepped
  | proceed t => exact act_happens f .proceeds stepped
  | write t => exact act_happens f .writes stepped
  | read t delivers type_raw =>
    cases delivers with
    | false => exact act_happens f .waits stepped
    | true =>
      cases coming : w.arriving with
      | nil => simp [step,coming] at stepped
      | cons packet rest =>
        simp only [step,coming] at stepped
        exact act_happens f (coming ▸ .delivers) stepped
  | answer place type_raw =>
    cases found : w.outgoing[place]? with
    | none => simp [step,found] at stepped
    | some letter =>
      simp only [step,found] at stepped
      obtain ⟨⟨id,bytes⟩,answered,stepped⟩ := Option.bind_eq_some_iff.mp stepped
      obtain ⟨w₁,arrived,rest⟩ := Option.bind_eq_some_iff.mp stepped
      obtain ⟨packet,rfl,rfl⟩ := arrive_result arrived
      cases rest
      exact .answers found answered
  | send enumerate id no_header_size body =>
    obtain ⟨packet,bytes,rfl⟩ := arrive_result stepped
    exact .sends bytes

/-! ### Packets on their way -/

section packets
omit [DecidableEq Tid]
variable {transport : TransportShare}

/-- The packet of a call begins with its header and its encoding. -/
structure Carries (packet : Data) (id : CallId) (call : Invocation) : Prop where
  bytes : ∃ tail, packet.bytes = encodeHeader call.encoded.length pt_call id ++ (call.encoded ++ tail)

/-- `InvokeUnified` makes the packet of the call, in new storage or in the
    buffer that is given. -/
theorem invocationInfo_carries (creates : Creates transport) (call : Invocation) {id : CallId} (nonzero : id ≠ c_invalid_id) :
    ∃ packet, (invocationInfo call true (some transport) id).m_write = some packet ∧ Carries packet id call := by
  cases inplace : call.inplace_send_buffer with
  | none =>
    obtain ⟨buffer,created⟩ := Option.isSome_iff_exists.mp (creates _ call.fits)
    obtain ⟨packet,written,bytes,_⟩ := callInfo_filled nonzero call.fits created
    refine ⟨packet,?_,⟨[],?_⟩⟩
    · rw [invocationInfo,inplace]
      exact written
    · rw [List.append_nil]
      exact bytes
  | some buffer =>
    have emits := serializeCall_emits call.proc_name true call.return_type call.params call.args
    have small : call.encoded.length < 2^32 := Nat.lt_of_le_of_lt (Nat.le_add_left _ _) call.fits
    obtain ⟨packet,tail,written,_,bytes,_⟩ := createDataStreamInplace_filled id emits (measured_size emits small)
      (call.large buffer inplace)
    refine ⟨packet,?_,⟨tail,?_⟩⟩
    · rw [invocationInfo,inplace,callInfo]
      exact written
    · rw [bytes,List.append_assoc]
      rfl

/-- The peer answers the call with the value it is for. -/
theorem peerAnswer_reads (f : Handlers) {buffer : CallDataBuffer} {call : Invocation} {tail : List Byte}
    (type : buffer.header.type = pt_call) (reads : DataStream.Reads buffer.data (call.encoded ++ tail)) :
    peerAnswer f (call.args.map Sigma.fst) call.ret buffer =
      some (buffer.header.id,packetOf pt_return buffer.header.id (encode call.ret (call.value f))) := by
  rw [Invocation.encoded,encodeCall,List.append_assoc] at reads
  obtain ⟨names,moved⟩ := deserializeNameSignature_yields _ _ _ _ _ _ reads
  have arguments := reads.advance
  rw [← moved] at arguments
  have decoded := congrArg Prod.fst (deserializeArgs_decodes call.args _ tail arguments)
  clear moved arguments reads
  unfold peerAnswer
  revert names decoded
  generalize deserializeNameSignature buffer.data = read
  obtain ⟨found,behind⟩ := read
  intro names decoded
  dsimp only at names decoded ⊢
  rw [names.name,names.send_return,decoded,type]
  rfl

theorem peerAnswer_carries (f : Handlers) (type_raw : BitVec 32) {packet : Data} {id : CallId} {call : Invocation}
    (carries : Carries packet id call) :
    peerAnswer f (call.args.map Sigma.fst) call.ret (receiveCallDataBuffer type_raw packet) =
      some (id,packetOf pt_return id (encode call.ret (call.value f))) := by
  obtain ⟨tail,bytes⟩ := carries.bytes
  obtain ⟨header,_,reads⟩ := receiveCallDataBuffer_reads type_raw bytes
  revert header reads
  generalize receiveCallDataBuffer type_raw packet = buffer
  intro header reads
  rw [peerAnswer_reads f (by rw [header]) reads,header]

theorem reply_received (type_raw : BitVec 32) {packet : Data} {pt : PacketType} {id : CallId} {body : List Byte}
    (bytes : packet.bytes = packetOf pt id body) :
    (receiveCallDataBuffer type_raw packet).header.type = pt ∧
      (receiveCallDataBuffer type_raw packet).header.id = id ∧ DataStream.Reads (receiveCallDataBuffer type_raw packet).data body := by
  obtain ⟨header,_,reads⟩ := receiveCallDataBuffer_reads type_raw bytes
  rw [header]
  exact ⟨rfl,rfl,reads⟩

/-- `WaitInvokeRet` returns the value whose encoding it received. -/
theorem waitInvokeRet_reads {τ : SerialType} {v : τ.Val} {result : DataStream} (reads : DataStream.Reads result (encode τ v)) :
    result.isReadBufferPresent = true ∧ waitInvokeRet τ result = v := by
  obtain ⟨packet,present,_⟩ := reads.packet
  have buffer : result.isReadBufferPresent = true := by simp [DataStream.isReadBufferPresent,present]
  refine ⟨buffer,?_⟩
  rw [← List.append_nil (encode τ v)] at reads
  rw [waitInvokeRet,if_pos buffer,readFromStream_decodes τ v result [] reads]

end packets

end IpcPortable.Peers
