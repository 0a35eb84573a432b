import IpcPortable.Writers

/-!
A result without a packet. Where the reply to a call cannot be built, because
the transport is gone or `Create` answers no storage, the absent packet goes on
to `ResultJob::Invoke`, on the thread that ran the handler or on the one that
sends results, which asks it for its size (`result_dropped`).
-/
namespace IpcPortable.AbsentPackets
open IpcPortable.LittleEndian IpcPortable.DataStream IpcPortable.Values IpcPortable.Packets IpcPortable.ProcMaps
open IpcPortable.Dispatch IpcPortable.Replies IpcPortable.Writers

/-- The effects once the posted results were sent, with the transport that is there by then. -/
def runResults (transport : Option TransportShare) (effects : List Effect) : List Effect :=
  effects.flatMap fun effect => match effect with
    | .posted _ (.resultJob result) => resultJobInvoke transport result
    | effect => [effect]

/-- No absent packet is used, and at most one packet is given to the transport. -/
structure Clean (effects : List Effect) : Prop where
  present : Effect.nullDereference ∉ effects
  once : (∃ packet, writes effects = [packet]) ∨ writes effects = []

/-- The transport is there and has storage for a reply with the given result. -/
def Builds (transport : Option TransportShare) (ret : Option Value) : Prop :=
  ∃ alive, transport = some alive ∧ (alive.create ((12 + (encodeRet ret).length % 2^32) % 2^32)).isSome

theorem runResults_append (transport : Option TransportShare) (a b : List Effect) :
    runResults transport (a ++ b) = runResults transport a ++ runResults transport b := List.flatMap_append

/-- The effects of a handler that runs and of its serialised result. -/
theorem runResults_silent (transport : Option TransportShare) {effects : List Effect}
    (plain : ∀ effect ∈ effects, effect = .raised ∨ ∃ handler args, effect = .invoked handler args) :
    runResults transport effects = effects := by
  induction effects with
  | nil => rfl
  | cons effect rest ih =>
    have tail : runResults transport rest = rest := ih fun other member => plain other (List.mem_cons_of_mem _ member)
    have here : runResults transport (effect :: rest) = effect :: runResults transport rest := by
      rcases plain effect List.mem_cons_self with rfl | ⟨handler,args,rfl⟩ <;> rfl
    rw [here,tail]

theorem raisedSince_plain (before after : DataStream) :
    ∀ effect ∈ raisedSince before after, effect = .raised ∨ ∃ handler args, effect = .invoked handler args :=
  fun _ member => .inl (raisedSince_raised member)

theorem invokeRemoteInvoke_plain (handler : InvokeRemote) (transport : Option TransportShare) (respond_id : CallId)
    (params : DataStream) : ∀ effect ∈ (invokeRemoteInvoke handler transport respond_id params).2,
      effect = .raised ∨ ∃ handler args, effect = .invoked handler args := by
  intro effect member
  unfold invokeRemoteInvoke at member
  rcases List.mem_append.mp member with before | after
  · exact raisedSince_plain _ _ effect before
  · rcases List.mem_cons.mp after with rfl | later
    · exact .inr ⟨_,_,rfl⟩
    · exact .inl (serializeReturn_raised later)

/-- Storage for a packet is there exactly when the transport is and answers some. -/
theorem createDataStream_present (transport : Option TransportShare) (no_header_size : Nat) (pt : PacketType)
    {respond_id : CallId} (nonzero : respond_id ≠ c_invalid_id) :
    (createDataStream transport no_header_size pt respond_id).m_write.isSome ↔
      ∃ alive, transport = some alive ∧ (alive.create ((12 + no_header_size) % 2^32)).isSome := by
  unfold createDataStream createDataBuffer c_net_call_packet_header_size
  rw [if_pos nonzero]
  cases transport with
  | none =>
    refine ⟨fun present => (by cases present),?_⟩
    rintro ⟨alive,gone,_⟩
    cases gone
  | some alive =>
    have same : (∃ other, some alive = some other ∧ (other.create ((12 + no_header_size) % 2^32)).isSome) ↔
        (alive.create ((12 + no_header_size) % 2^32)).isSome := by simp
    rw [same]
    dsimp only
    cases alive.create ((12 + no_header_size) % 2^32) with
    | none => exact ⟨fun present => (by cases present),fun created => (by cases created)⟩
    | some buffer =>
      have kept := packetHeaderWrite_keeps no_header_size pt respond_id (.ofWrite buffer)
      obtain ⟨packet,written,_⟩ := Option.map_eq_some_iff.mp (kept.trans (show _ = some buffer.size from rfl))
      simp [written]

theorem keeps_present {op : StateM DataStream Unit} (keeps : Keeps op) (s : DataStream) :
    (op s).2.m_write.isSome = s.m_write.isSome := by
  have kept := congrArg Option.isSome (keeps s)
  rwa [Option.isSome_map,Option.isSome_map] at kept

/-- A packet for the reply is there exactly when it can be built. -/
theorem serializeReturn_present (transport : Option TransportShare) {respond_id : CallId}
    (nonzero : respond_id ≠ c_invalid_id) (ret : Option Value) :
    (serializeReturn transport respond_id ret).1.isSome ↔ Builds transport ret := by
  unfold serializeReturn
  cases ret with
  | none =>
    dsimp only
    rw [if_neg nonzero]
    exact createDataStream_present transport 0 pt_return nonzero
  | some ret =>
    obtain ⟨τ,ret⟩ := ret
    have writer := insert_writer τ ret
    dsimp only
    rw [if_neg nonzero,keeps_present writer.keeps,writer.measured]
    exact createDataStream_present transport _ pt_return nonzero

theorem resultJobInvoke_clean (transport : Option TransportShare) (result : Option Data) :
    Clean (resultJobInvoke transport result) ↔ result.isSome := by
  cases result with
  | none =>
    refine ⟨fun clean => absurd List.mem_cons_self clean.present,fun present => by cases present⟩
  | some packet =>
    refine ⟨fun _ => rfl,fun _ => ?_⟩
    unfold resultJobInvoke
    dsimp only
    split
    · cases transport with
      | none => exact ⟨by simp,.inr rfl⟩
      | some alive => exact ⟨by simp,.inl ⟨packet,rfl⟩⟩
    · exact ⟨by simp,.inr rfl⟩

theorem runResults_sent (later transport : Option TransportShare) (result : Option Data) :
    runResults later (resultJobInvoke transport result) = resultJobInvoke transport result := by
  obtain ⟨effect,sent,rfl | rfl | ⟨packet,rfl⟩⟩ := resultJobInvoke_single transport result <;> rw [sent] <;> rfl

/-- The handler and its serialised result neither write nor use a packet. -/
theorem clean_behind {before : List Effect}
    (plain : ∀ effect ∈ before, effect = .raised ∨ ∃ handler args, effect = .invoked handler args) (effects : List Effect) :
    Clean (before ++ effects) ↔ Clean effects := by
  have unwritten : writes before = [] := by
    refine List.filterMap_eq_nil_iff.mpr fun effect member => ?_
    rcases plain effect member with rfl | ⟨handler,args,rfl⟩ <;> rfl
  have unused : Effect.nullDereference ∉ before := by
    intro member
    rcases plain _ member with same | ⟨handler,args,same⟩ <;> cases same
  have same : writes (before ++ effects) = writes effects := by rw [writes_append,unwritten,List.nil_append]
  constructor
  · rintro ⟨present,once⟩
    rw [same] at once
    exact ⟨fun member => present (List.mem_append_right _ member),once⟩
  · rintro ⟨present,once⟩
    rw [← same] at once
    exact ⟨fun member => (List.mem_append.mp member).elim unused present,once⟩

/-- The result of a handler is written as one packet or dropped cleanly exactly
    when, by the time the handler is run, the transport is there and answers
    storage for the reply. The result may be sent later, by a job, with the
    transport that is there then. -/
theorem result_dropped (transport later : Option TransportShare) (inter_thread : Option Transthread)
    (call_info_data : DataStream) (invoke_base : InvokeRemote) (respond_id : CallId)
    (nonzero : respond_id ≠ c_invalid_id) :
    Clean (runResults later (callJobInvoke transport inter_thread call_info_data invoke_base respond_id)) ↔
      Builds transport (delegateRet invoke_base.m_del (handlerArgs invoke_base call_info_data)) := by
  have plain := invokeRemoteInvoke_plain invoke_base transport respond_id call_info_data
  have built := serializeReturn_present transport nonzero
    (delegateRet invoke_base.m_del (handlerArgs invoke_base call_info_data))
  unfold callJobInvoke
  dsimp only
  rw [runResults_append,runResults_silent _ plain,clean_behind plain,if_pos nonzero,← built]
  cases inter_thread with
  | some inter_thread =>
    refine Iff.trans ?_ (resultJobInvoke_clean later _)
    simp [runResults,invokeRemoteInvoke,handlerArgs]
  | none =>
    dsimp only
    rw [runResults_sent]
    exact resultJobInvoke_clean transport _

/-- The call of a handler that answers `true`, whose transport is there. -/
theorem result_dropped_built : (1 : CallId) ≠ c_invalid_id ∧
    Clean (runResults none (callJobInvoke (some (proxyTransport fun _ => 0)) none {} (answering [98] ⟨.bool,true⟩) 1)) :=
  ⟨by decide,(result_dropped (some (proxyTransport fun _ => 0)) none none {} (answering [98] ⟨.bool,true⟩) 1 (by decide)).mpr
    ⟨_,rfl,proxyTransport_creates _ _ (by decide)⟩⟩

/-- The transport is gone when a queued call runs, and the absent packet is asked for its size. -/
theorem result_dereferenced :
    ¬ Clean (runResults none (callJobInvoke none none {} (answering [98] ⟨.bool,true⟩) 1)) := by
  intro clean
  have used : Effect.nullDereference ∈
      runResults none (callJobInvoke none none {} (answering [98] ⟨.bool,true⟩) 1) := .tail _ (.tail _ (.head _))
  exact clean.present used

end IpcPortable.AbsentPackets
