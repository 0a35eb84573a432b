import IpcPortable.Signatures

/-!
`ProcMap`: the registry of the handlers. Its entries refer to call infos that
several registries can share, so the call infos live in a store of their own.
The keys of a registry ascend, which is part of the type, so the search of
`std::map` finds the entry of a signature wherever there is one.
-/
namespace IpcPortable.ProcMaps
open IpcPortable.LittleEndian IpcPortable.DataStream IpcPortable.Values IpcPortable.RawStrings
open IpcPortable.OrderedMaps IpcPortable.Signatures

/-- `MAssIpc_TransthreadTarget::Id`; `none` is `DirectCallPseudoId`. -/
abbrev ThreadId := Option Nat
abbrev Tag := Nat

/-- `m_del` of a handler: what it does with its arguments. -/
inductive Delegate
  | void
  | returns (τ : SerialType) (m_del : List Value → τ.Val)
/-- `InvokeRemoteImpl`: a handler, the types of its parameters and the name of
    its return type. -/
structure InvokeRemote where
  m_thread_id : ThreadId := none
  m_tag : Tag := 0
  is_callable : Bool := true
  params : List SerialType
  return_type : List Byte
  m_del : Delegate
/-- `CallCountChanged` or `ErrorOccured`. -/
structure Callback where
  m_thread_id : ThreadId := none
  m_tag : Tag := 0
  is_callable : Bool := true
deriving DecidableEq

structure CallInfoImpl where
  m_invoke : Option InvokeRemote := none
  m_call_count : BitVec 32 := 0
  signature : Signature
def CallInfoImpl.incrementCallCount (call_info : CallInfoImpl) : CallInfoImpl :=
  { call_info with m_call_count := call_info.m_call_count + 1 }
def CallInfoImpl.isInvokable (call_info : CallInfoImpl) : Option InvokeRemote :=
  match call_info.m_invoke with
  | some invoke => if invoke.is_callable then some invoke else none
  | none => none

/-- A shared pointer to a call info, and what the pointers lead to. -/
abbrev CallInfoPtr := Nat
abbrev CallInfos := CallInfoPtr → CallInfoImpl

structure CallData where
  call_info : CallInfoPtr
  comment : List Byte := []
structure ProcMap where
  m_name_procs : List (Signature × CallData)
  sorted : Sorted m_name_procs
  m_OnCallCountChanged : Option Callback := none
  m_OnInvalidRemoteCall : Option Callback := none

/-- A registry with one entry. -/
def ProcMap.single (signature : Signature) (call_data : CallData) : ProcMap where
  m_name_procs := [(signature,call_data)]
  sorted := List.pairwise_singleton _ _

structure FindCallInfoRes where
  call_info : Option CallInfoPtr := none
  invoke_base : Option InvokeRemote := none
  on_call_count_changed : Option Callback := none
  on_invalid_remote_call : Option Callback := none

/-- `m_name_procs.find(key)`. -/
def find (key : SignatureKey) (m_name_procs : List (Signature × CallData)) : Option (Option (Signature × CallData)) :=
  keyFind Signature.key key m_name_procs
/-- `FindCallInfo`; it answers nothing where a comparison reads a missing byte. -/
def findCallInfo (call_infos : CallInfos) (proc_map : ProcMap) (proc_name params_type : RawString) :
    Option FindCallInfoRes := do
  match ← find ⟨proc_name,params_type⟩ proc_map.m_name_procs with
  | none => pure { on_invalid_remote_call := proc_map.m_OnInvalidRemoteCall }
  | some entry => pure {
      call_info := some entry.2.call_info
      invoke_base := (call_infos entry.2.call_info).isInvokable
      on_call_count_changed := proc_map.m_OnCallCountChanged }

/-- The search compares contents when all bytes of the key are there. -/
theorem find_holds {key : SignatureKey} {signature : Signature} (holds : key.Holds signature)
    (m_name_procs : List (Signature × CallData)) :
    find key m_name_procs = some (OrderedMaps.find signature m_name_procs) :=
  keyFind_holds holds fun entry _ => key_holds entry.1

/-- The registry has a callable handler for the signature. -/
def Callable (call_infos : CallInfos) (proc_map : ProcMap) (signature : Signature) (handler : InvokeRemote) : Prop :=
  ∃ entry ∈ proc_map.m_name_procs, entry.1 = signature ∧
    (call_infos entry.2.call_info).m_invoke = some handler ∧ handler.is_callable = true

/-- What is found for a signature that the registry has, and for one it has not. -/
theorem findCallInfo_holds {proc_name params_type : RawString} {signature : Signature}
    (holds : SignatureKey.Holds ⟨proc_name,params_type⟩ signature) (call_infos : CallInfos) (proc_map : ProcMap) :
    (∃ entry ∈ proc_map.m_name_procs, entry.1 = signature ∧
      findCallInfo call_infos proc_map proc_name params_type = some {
        call_info := some entry.2.call_info
        invoke_base := (call_infos entry.2.call_info).isInvokable
        on_call_count_changed := proc_map.m_OnCallCountChanged }) ∨
    ((∀ entry ∈ proc_map.m_name_procs, entry.1 ≠ signature) ∧
      findCallInfo call_infos proc_map proc_name params_type =
        some { on_invalid_remote_call := proc_map.m_OnInvalidRemoteCall }) := by
  unfold findCallInfo
  rw [find_holds holds]
  cases found : OrderedMaps.find signature proc_map.m_name_procs with
  | none => exact .inr ⟨(find_eq_none proc_map.sorted).mp found,rfl⟩
  | some entry =>
    obtain ⟨member,equal⟩ := (find_eq_some proc_map.sorted).mp found
    exact .inl ⟨entry,member,equal,rfl⟩

theorem isInvokable_some {call_info : CallInfoImpl} {handler : InvokeRemote} :
    call_info.isInvokable = some handler ↔ call_info.m_invoke = some handler ∧ handler.is_callable = true := by
  unfold CallInfoImpl.isInvokable
  cases installed : call_info.m_invoke with
  | none => simp
  | some invoke =>
    by_cases callable : invoke.is_callable = true
    · simp only [callable,if_true,Option.some.injEq]
      exact ⟨fun same => ⟨same,same ▸ callable⟩,And.left⟩
    · simp only [callable,Bool.false_eq_true,if_false,reduceCtorEq,Option.some.injEq,false_iff]
      exact fun ⟨same,called⟩ => callable (same ▸ called)

/-- Two entries with one signature are one entry. -/
theorem entry_unique {proc_map : ProcMap} {a b : Signature × CallData} (first : a ∈ proc_map.m_name_procs)
    (second : b ∈ proc_map.m_name_procs) (same : a.1 = b.1) : a = b := by
  have found := (find_eq_some proc_map.sorted).mpr ⟨first,same⟩
  rw [(find_eq_some proc_map.sorted).mpr ⟨second,rfl⟩] at found
  exact (Option.some.inj found).symm

end IpcPortable.ProcMaps
