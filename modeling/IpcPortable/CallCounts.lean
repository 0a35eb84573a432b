import IpcPortable.Runs
import IpcPortable.RegistryRuns
import IpcPortable.SharedEntries
import IpcPortable.Replies

/-!
The counts of the call infos. Registries are changed and packets are dispatched
one after the other, and every packet whose name and parameter types have an
entry is counted in the call info of that entry, whether a handler accepts it or
not, before anything else is called (`calls_counted`).
-/
namespace IpcPortable.CallCounts
open IpcPortable.Runs IpcPortable.LittleEndian IpcPortable.DataStream IpcPortable.Packets IpcPortable.RawStrings
open IpcPortable.OrderedMaps IpcPortable.Calls IpcPortable.Signatures IpcPortable.ProcMaps IpcPortable.Dispatch IpcPortable.Replies
open IpcPortable.Registries hiding run step
open IpcPortable.RegistryRuns IpcPortable.SharedEntries
variable {ρ : Type}

/-! ### The key of a packet -/

theorem next_some {m_str : Option (List Byte)} {b : Byte} {rest : Option (List Byte)} (read : next m_str = some (b,rest)) :
    ∃ behind, m_str = some (b :: behind) ∧ rest = some behind := by
  unfold next at read
  split at read
  · cases read
    exact ⟨_,rfl,rfl⟩
  · cases read

/-- A string that is neither less nor more than one that is there is the same,
    and is there too. -/
theorem lexicographicalCompare_same {first second : Option (List Byte)} {m : Nat} {bs : List Byte} (points : Points second bs)
    (below : lexicographicalCompare first m second bs.length = some false)
    (above : lexicographicalCompare second bs.length first m = some false) : m = bs.length ∧ Points first bs := by
  induction bs generalizing first second m with
  | nil =>
    cases m with
    | zero => exact ⟨rfl,.inl rfl⟩
    | succ m => cases above
  | cons b bs ih =>
    cases m with
    | zero => cases below
    | succ m =>
      obtain ⟨rest,there,points'⟩ := next_points points
      obtain ⟨⟨a,rest'⟩,here,below⟩ := Option.bind_eq_some_iff.mp below
      obtain ⟨behind,rfl,rfl⟩ := next_some here
      simp only [there,Option.bind_eq_bind,Option.bind_some] at below
      simp only [List.length_cons,lexicographicalCompare,there,here,Option.bind_eq_bind,Option.bind_some] at above
      by_cases less : a.slt b
      · rw [if_pos less] at below
        cases below
      · by_cases more : b.slt a
        · rw [if_pos more] at above
          cases above
        · rw [if_neg less,if_neg more] at below
          rw [if_neg more,if_neg less] at above
          obtain ⟨rfl,same⟩ := ih points' below above
          have equal : a = b := by
            rw [BitVec.slt_iff_toInt_lt] at less more
            exact BitVec.toInt_inj.mp (by omega)
          subst equal
          refine ⟨rfl,.inr ?_⟩
          rcases same with rfl | ⟨tail,pointer⟩
          · exact ⟨behind,rfl⟩
          · cases pointer
            exact ⟨tail,rfl⟩

theorem points_content {str : RawString} {bs : List Byte} (length : str.m_len = bs.length) (points : Points str.m_str bs) :
    str.content = some bs := by
  unfold RawString.content
  rw [length]
  rcases points with rfl | ⟨behind,pointer⟩
  · rfl
  · by_cases empty : bs = []
    · subst empty
      rfl
    · have positive : bs.length ≠ 0 := by simpa using empty
      simp [positive,pointer]

theorem less_same {str other : RawString} {bs : List Byte} (content : other.content = some bs)
    (below : str.less other = some false) (above : other.less str = some false) : str.content = some bs := by
  obtain ⟨length,points⟩ := content_points content
  unfold RawString.less at below above
  rw [length] at below above
  obtain ⟨equal,there⟩ := lexicographicalCompare_same points below above
  exact points_content equal there

theorem equals_true {str other : RawString} (same : str.equals other = some true) : str.content = other.content := by
  unfold RawString.equals at same
  split at same
  · cases same
  · obtain ⟨left,here,same⟩ := Option.bind_eq_some_iff.mp same
    obtain ⟨right,there,same⟩ := Option.bind_eq_some_iff.mp same
    rw [here,there,eq_of_beq (Option.some.inj same)]

/-- A key that is neither less nor more than the one of an entry has its strings. -/
theorem key_same {key : SignatureKey} {signature : Signature} (below : signature.key.less key = some false)
    (above : key.less signature.key = some false) : key.Holds signature := by
  have own := key_holds signature
  obtain ⟨equal,first,above⟩ := Option.bind_eq_some_iff.mp above
  obtain ⟨again,second,below⟩ := Option.bind_eq_some_iff.mp below
  have name : key.name.content = some signature.name := by
    cases equal with
    | true => exact (equals_true first).trans own.name
    | false =>
      cases again with
      | true => exact (equals_true second).symm.trans own.name
      | false => exact less_same own.name above below
  rw [equals_content name own.name,decide_eq_true rfl] at first
  rw [equals_content own.name name,decide_eq_true rfl] at second
  cases first
  cases second
  exact ⟨name,less_same own.params_type above below⟩

/-- Only a key whose strings are there is found. -/
theorem find_key {key : SignatureKey} {entry : Signature × CallData} {m_name_procs : List (Signature × CallData)}
    (found : ProcMaps.find key m_name_procs = some (some entry)) : key.Holds entry.1 := by
  obtain ⟨_,below,above⟩ := keyFind_same found
  exact key_same below above

/-- The name and the parameter types of a packet, when they lie inside it. -/
def packetSignature (call_info_data : DataStream) : Option Signature := do
  let found := (deserializeNameSignature call_info_data).1
  let name ← found.name.content
  let params_type ← found.params_type.content
  pure ⟨name,params_type⟩
/-- The call info of the entry that the registry has for the packet. -/
def entryOf (proc_map : ProcMap) (call_info_data : DataStream) : Option CallInfoPtr := do
  let signature ← packetSignature call_info_data
  let call_data ← lookup signature proc_map.m_name_procs
  pure call_data.call_info

theorem packetSignature_holds {call_info_data : DataStream} {signature : Signature} :
    packetSignature call_info_data = some signature ↔ SignatureKey.Holds
      ⟨(deserializeNameSignature call_info_data).1.name,(deserializeNameSignature call_info_data).1.params_type⟩ signature := by
  unfold packetSignature
  constructor
  · intro read
    obtain ⟨name,first,read⟩ := Option.bind_eq_some_iff.mp read
    obtain ⟨params_type,second,read⟩ := Option.bind_eq_some_iff.mp read
    cases read
    exact ⟨first,second⟩
  · intro holds
    simp only [holds.name,holds.params_type,Option.bind_eq_bind,Option.bind_some,Option.pure_def]

/-- `FindCallInfo` answers the entry of the packet, and with it the callback. -/
theorem findCallInfo_entryOf {call_infos : CallInfos} {proc_map : ProcMap} {call_info_data : DataStream} {found : FindCallInfoRes}
    (result : findCallInfo call_infos proc_map (deserializeNameSignature call_info_data).1.name
      (deserializeNameSignature call_info_data).1.params_type = some found) :
    found.call_info = entryOf proc_map call_info_data ∧
      (found.call_info ≠ none → found.on_call_count_changed = proc_map.m_OnCallCountChanged) := by
  obtain ⟨entry,searched,answered⟩ := Option.bind_eq_some_iff.mp result
  unfold entryOf
  cases entry with
  | some entry =>
    cases answered
    have holds := find_key searched
    rw [packetSignature_holds.mpr holds]
    have own := (lookup_eq_some proc_map.sorted).mpr (keyFind_same searched).1
    simp only [Option.bind_eq_bind,Option.bind_some,own,Option.pure_def]
    exact ⟨trivial,fun _ => trivial⟩
  | none =>
    cases answered
    refine ⟨?_,fun some => absurd rfl some⟩
    cases read : packetSignature call_info_data with
    | none => rfl
    | some signature =>
      rw [find_holds (packetSignature_holds.mp read)] at searched
      have absent := (find_eq_none proc_map.sorted).mp (Option.some.inj searched)
      have missing : lookup signature proc_map.m_name_procs = none :=
        (lookup_eq_none proc_map.sorted).mpr fun value member => absent _ member rfl
      simp only [Option.bind_eq_bind,Option.bind_some,missing,Option.bind_none]

/-! ### What is announced -/

/-- The effect is the call of a call-count callback. -/
def Effect.counts : Effect → Bool
  | .countChanged _ _ _ => true
  | _ => false
/-- No call-count callback is called. -/
def Uncounted (effects : List Effect) : Prop := ∀ effect ∈ effects, Effect.counts effect = false

theorem uncounted_append {a b : List Effect} (first : Uncounted a) (second : Uncounted b) : Uncounted (a ++ b) :=
  fun effect member => (List.mem_append.mp member).elim (first effect) (second effect)

theorem uncounted_raised {effects : List Effect} (raised : ∀ {effect}, effect ∈ effects → effect = .raised) :
    Uncounted effects := by
  intro effect member
  rw [raised member]
  rfl

theorem sendErrorMessage_uncounted (inter_thread_nullable : Option Transthread) (callback : Option Callback)
    (error_arg : ErrorArg) : Uncounted (sendErrorMessage inter_thread_nullable callback error_arg) := by
  intro effect member
  obtain ⟨_,_,_,rfl | rfl⟩ := sendErrorMessage_effects member <;> rfl

theorem callJobInvoke_uncounted (transport : Option TransportShare) (inter_thread : Option Transthread)
    (call_info_data : DataStream) (invoke_base : InvokeRemote) (respond_id : CallId) :
    Uncounted (callJobInvoke transport inter_thread call_info_data invoke_base respond_id) := by
  intro effect member
  rcases callJobInvoke_effects member with ⟨_,rfl⟩ | rfl | rfl | ⟨_,rfl⟩ | ⟨_,_,rfl⟩ <;> rfl

theorem invokeOrFail_uncounted (ipc : Internals) (transport : TransportShare) (call_info_data : DataStream) (id : CallId)
    (invoke : AnalizeInvokeDataRes) : Uncounted (invokeOrFail ipc transport call_info_data id invoke) := by
  unfold invokeOrFail
  split
  · dsimp only
    split
    · exact callJobInvoke_uncounted _ _ _ _ _
    · exact fun _ member => List.mem_singleton.mp member ▸ rfl
  · split
    · split
      · refine uncounted_append (uncounted_raised raisedSince_raised) ?_
        split
        · exact fun _ member => List.mem_singleton.mp member ▸ rfl
        · exact fun _ member => by cases member
      · exact fun _ member => by cases member
    · exact fun _ member => List.mem_singleton.mp member ▸ rfl

/-- The analysis passes on what was found, and neither counts nor calls. -/
theorem analizeNames_found {call_infos : CallInfos} {ipc : Internals} {names : DeserializedFindCallInfo}
    {invoke : AnalizeInvokeDataRes} {reported : List Effect}
    (result : analizeNames call_infos ipc names = some (invoke,reported)) :
    ∃ found, findCallInfo call_infos ipc.m_proc_map names.name names.params_type = some found ∧
      invoke.call_info = found.call_info ∧ invoke.on_call_count_changed = found.on_call_count_changed ∧
      Silent reported ∧ Uncounted reported := by
  obtain ⟨found,searched,result⟩ := Option.bind_eq_some_iff.mp result
  have refused (error : ErrorType)
      (result : reportError_FindCallInfo names error found ipc.m_inter_thread_nullable = some (invoke,reported)) :
      invoke.call_info = found.call_info ∧ invoke.on_call_count_changed = found.on_call_count_changed ∧
        Silent reported ∧ Uncounted reported := by
    obtain ⟨return_type,_,result⟩ := Option.bind_eq_some_iff.mp result
    obtain ⟨name,_,result⟩ := Option.bind_eq_some_iff.mp result
    obtain ⟨params_type,_,result⟩ := Option.bind_eq_some_iff.mp result
    cases result
    exact ⟨rfl,rfl,sendErrorMessage_silent _ _ _,sendErrorMessage_uncounted _ _ _⟩
  have quiet : Silent [] ∧ Uncounted [] := ⟨silent_nil,fun _ member => by cases member⟩
  refine ⟨found,searched,?_⟩
  split at result
  · split at result
    · obtain ⟨same,_,result⟩ := Option.bind_eq_some_iff.mp result
      split at result
      · cases result
        exact ⟨rfl,rfl,quiet⟩
      · exact refused _ result
    · cases result
      exact ⟨rfl,rfl,quiet⟩
  · exact refused _ result

/-- The dispatch of a packet by one of the endpoints, and what it does outside the registries. -/
def dispatch (s : State ρ) (self : ρ) (transport : TransportShare) (inter_thread_nullable : Option Transthread)
    (call_info_data : DataStream) (id : CallId) : Option (State ρ × List Effect) := do
  let (call_infos,effects) ← invokeLocal s.store.call_infos
    { m_proc_map := s.proc_maps self, m_transport := some transport, m_inter_thread_nullable := inter_thread_nullable }
    call_info_data id
  pure ({ s with store := { s.store with call_infos } },effects)
/-- The callback hears of the count once, before a handler is called or a packet written. -/
def Announced (callback : Callback) (call_info : CallInfoPtr) (call_count : BitVec 32) (effects : List Effect) : Prop :=
  ∃ earlier later, effects = earlier ++ .countChanged callback call_info call_count :: later ∧ Silent earlier ∧
    Uncounted earlier ∧ Uncounted later

/-- Every way a dispatch can go that reads no missing byte. -/
theorem invokeLocal_counted {call_infos call_infos' : CallInfos} {ipc : Internals} {transport : TransportShare}
    (alive : ipc.m_transport = some transport) {call_info_data : DataStream} {id : CallId} {effects : List Effect}
    (ran : invokeLocal call_infos ipc call_info_data id = some (call_infos',effects)) :
    entryOf ipc.m_proc_map call_info_data = none ∧ call_infos' = call_infos ∨
      ∃ p, entryOf ipc.m_proc_map call_info_data = some p ∧
        call_infos' = Function.update call_infos p (call_infos p).incrementCallCount ∧
        ∀ callback, ipc.m_proc_map.m_OnCallCountChanged = some callback → callback.is_callable = true →
          isDirectCall ipc.m_inter_thread_nullable callback.m_thread_id = true →
          Announced callback p (call_infos' p).m_call_count effects := by
  cases read : deserializeNameSignature call_info_data with
  | mk names behind =>
    cases analized : analizeNames call_infos ipc names with
    | none => simp only [invokeLocal,alive,analizeInvokeData,read,analized,Option.bind_eq_bind,Option.bind_none,reduceCtorEq] at ran
    | some result =>
      obtain ⟨invoke,reported⟩ := result
      rw [invokeLocal_parts alive read analized id] at ran
      obtain ⟨rfl,rfl⟩ := Prod.mk.inj (Option.some.inj ran)
      obtain ⟨found,searched,pointer,callbacks,silent,uncounted⟩ := analizeNames_found analized
      have names_read : (deserializeNameSignature call_info_data).1 = names := congrArg Prod.fst read
      rw [← names_read] at searched
      obtain ⟨entry,installed⟩ := findCallInfo_entryOf searched
      rw [← pointer] at entry installed
      cases counted : invoke.call_info with
      | none =>
        refine .inl ⟨entry.symm.trans counted,?_⟩
        simp only [countCall,counted]
      | some p =>
        refine .inr ⟨p,entry.symm.trans counted,by simp only [countCall,counted],?_⟩
        intro callback there callable direct
        have own : invoke.on_call_count_changed = some callback :=
          callbacks.trans ((installed (by rw [counted]; exact Option.some_ne_none p)).trans there)
        refine ⟨raisedSince call_info_data behind ++ reported,invokeOrFail ipc transport behind id invoke,?_,
          (raisedSince_silent _ _).append silent,uncounted_append (uncounted_raised raisedSince_raised) uncounted,
          invokeOrFail_uncounted _ _ _ _ _⟩
        simp only [countCall,counted,own,callable,direct,if_true,List.append_assoc,List.singleton_append]

/-! ### The endpoints -/

/-- What happens on the thread: an operation on the registries, or the dispatch of a packet. -/
inductive Item (ρ : Type)
  | operation (action : Action ρ)
  | packet (self : ρ) (transport : TransportShare) (inter_thread_nullable : Option Transthread)
    (call_info_data : DataStream) (id : CallId)

/-- The packet of an item, and the endpoint that gets it, have this property. -/
def Item.isPacket (item : Item ρ) (test : ρ → DataStream → Bool) : Bool :=
  match item with
  | .operation _ => false
  | .packet self _ _ call_info_data _ => test self call_info_data
/-- The item is a packet with this name and these parameter types. -/
def carries (signature : Signature) (_ : State ρ) (item : Item ρ) : Bool :=
  item.isPacket fun _ call_info_data => packetSignature call_info_data = some signature
/-- The item is such a packet, and the entry of its endpoint has the call info. -/
def hits (signature : Signature) (p : CallInfoPtr) (s : State ρ) (item : Item ρ) : Bool :=
  item.isPacket fun self call_info_data => packetSignature call_info_data = some signature &&
    (lookup signature (s.proc_maps self).m_name_procs).map CallData.call_info = some p

theorem setCallable_count (store : CallInfoStore) (p : CallInfoPtr) (invoke : Option InvokeRemote) (q : CallInfoPtr) :
    ((setCallable store p invoke).call_infos q).m_call_count = (store.call_infos q).m_call_count := by
  by_cases same : q = p
  · subst same
    rcases setCallable_cases store q invoke with ⟨_,same⟩ | ⟨handler,_,_,same⟩
    · rw [same]
    · rw [same,setInvoke_at]
  · rw [setCallable_other store p invoke same]

/-- Where only counts changed, and in the call infos that are pointed to. -/
theorem count_extends {s s' : State ρ} (maps : s'.proc_maps = s.proc_maps) (made : s'.store.made = s.store.made)
    (infos : ∀ p, (s'.store.call_infos p).signature = (s.store.call_infos p).signature ∧
      (s'.store.call_infos p).m_invoke = (s.store.call_infos p).m_invoke) : Extends s s' where
  made := Nat.le_of_eq made.symm
  signature p _ := (infos p).1
  invokable p _ handler installed := by
    rw [isInvokable_some] at installed ⊢
    exact ⟨(infos p).2.trans installed.1,installed.2⟩
  entry r signature call_data found := .inl ⟨call_data,maps ▸ found,rfl⟩

theorem dispatch_cases {s s' : State ρ} {self : ρ} {transport : TransportShare} {inter_thread_nullable : Option Transthread}
    {call_info_data : DataStream} {id : CallId} {effects : List Effect}
    (dispatched : dispatch s self transport inter_thread_nullable call_info_data id = some (s',effects)) :
    s'.proc_maps = s.proc_maps ∧ s'.store.made = s.store.made ∧
      (entryOf (s.proc_maps self) call_info_data = none ∧ s'.store.call_infos = s.store.call_infos ∨
        ∃ p, entryOf (s.proc_maps self) call_info_data = some p ∧
          s'.store.call_infos = Function.update s.store.call_infos p (s.store.call_infos p).incrementCallCount ∧
          ∀ callback, (s.proc_maps self).m_OnCallCountChanged = some callback → callback.is_callable = true →
            isDirectCall inter_thread_nullable callback.m_thread_id = true →
            Announced callback p (s'.store.call_infos p).m_call_count effects) := by
  obtain ⟨⟨call_infos,effects'⟩,ran,same⟩ := Option.bind_eq_some_iff.mp dispatched
  obtain ⟨rfl,rfl⟩ := Prod.mk.inj (Option.some.inj same)
  exact ⟨rfl,rfl,invokeLocal_counted rfl ran⟩

theorem dispatch_extends {s s' : State ρ} {self : ρ} {transport : TransportShare} {inter_thread_nullable : Option Transthread}
    {call_info_data : DataStream} {id : CallId} {effects : List Effect}
    (dispatched : dispatch s self transport inter_thread_nullable call_info_data id = some (s',effects)) : Extends s s' := by
  obtain ⟨maps,made,⟨_,same⟩ | ⟨p,_,counted,_⟩⟩ := dispatch_cases dispatched
  · exact count_extends maps made fun q => by rw [same]; exact ⟨rfl,rfl⟩
  · refine count_extends maps made fun q => ?_
    rw [counted]
    by_cases here : q = p
    · subst here
      rw [Function.update_self]
      exact ⟨rfl,rfl⟩
    · rw [Function.update_of_ne here]
      exact ⟨rfl,rfl⟩

/-- The entries, and one call info with its signature. -/
structure Known (signature : Signature) (p : CallInfoPtr) (s : State ρ) : Prop where
  consistent : Consistent s
  made : p < s.store.made
  signature : (s.store.call_infos p).signature = signature

theorem extends_known {signature : Signature} {p : CallInfoPtr} {s s' : State ρ} (known : Known signature p s)
    (extended : Extends s s') : Known signature p s' where
  consistent := extends_consistent known.consistent extended
  made := Nat.lt_of_lt_of_le known.made extended.made
  signature := (extended.signature p known.made).trans known.signature

/-- The packets that hit a call info are those whose entry has it. -/
theorem hits_entryOf {signature : Signature} {p : CallInfoPtr} {s : State ρ} (known : Known signature p s) (self : ρ)
    (call_info_data : DataStream) : (packetSignature call_info_data = some signature ∧
      (lookup signature (s.proc_maps self).m_name_procs).map CallData.call_info = some p) ↔
      entryOf (s.proc_maps self) call_info_data = some p := by
  constructor
  · rintro ⟨read,found⟩
    unfold entryOf
    obtain ⟨call_data,there,rfl⟩ := Option.map_eq_some_iff.mp found
    simp only [read,there,Option.bind_eq_bind,Option.bind_some,Option.pure_def]
  · intro entry
    obtain ⟨other,read,entry⟩ := Option.bind_eq_some_iff.mp entry
    obtain ⟨call_data,there,same⟩ := Option.bind_eq_some_iff.mp entry
    obtain rfl := Option.some.inj same
    have own := known.consistent.signature self other _ (hasEntry_lookup.mpr ⟨call_data,there,rfl⟩)
    obtain rfl := known.signature.symm.trans own
    exact ⟨read,by rw [there,Option.map_some]⟩

variable [DecidableEq ρ]

def step (s : State ρ) : Item ρ → Option (State ρ)
  | .operation action => some (Registries.step s action)
  | .packet self transport inter_thread_nullable call_info_data id =>
    (dispatch s self transport inter_thread_nullable call_info_data id).map Prod.fst

theorem step_extends {s s' : State ρ} {item : Item ρ} (stepped : step s item = some s') : Extends s s' := by
  cases item with
  | operation action =>
    cases stepped
    exact Registries.step_extends s action
  | packet self transport inter_thread_nullable call_info_data id =>
    obtain ⟨⟨_,effects⟩,dispatched,rfl⟩ := Option.map_eq_some_iff.mp stepped
    exact dispatch_extends dispatched

theorem known_preserved (signature : Signature) (p : CallInfoPtr) : Preserves (step (ρ := ρ)) (Known signature p) :=
  fun _ _ _ known stepped => extends_known known (step_extends stepped)

/-- Operations leave the counts of the call infos. -/
theorem operation_count (s : State ρ) (action : Action ρ) {p : CallInfoPtr} (old : p < s.store.made) :
    ((Registries.step s action).store.call_infos p).m_call_count = (s.store.call_infos p).m_call_count := by
  cases action with
  | addProcSignature self signature invoke comment =>
    have adds := addProcSignature_adds s.store (s.proc_maps self) signature invoke comment
    unfold Registries.step
    dsimp only
    generalize addProcSignature s.store (s.proc_maps self) signature invoke comment = added at adds
    cases adds with
    | creates absent => rw [setCallable_count,makeShared_other _ _ (Nat.ne_of_lt old)]
    | refuses found installed callable => rfl
    | reuses found free => rw [setCallable_count]
  | addAllProcs self other =>
    unfold Registries.step
    dsimp only
    split <;> rfl
  | clearAllProcs self => rfl
  | clearProcsWithTag self tag => rfl
  | setCallCountChanged self new_val => rfl
  | setErrorHandler self new_val => rfl

/-- A step adds one to the count of a call info exactly when it is a packet that hits it. -/
theorem step_count {signature : Signature} {p : CallInfoPtr} {s s' : State ρ} {item : Item ρ} (known : Known signature p s)
    (stepped : step s item = some s') :
    (s'.store.call_infos p).m_call_count =
      (s.store.call_infos p).m_call_count + BitVec.ofNat 32 (if hits signature p s item then 1 else 0) := by
  cases item with
  | operation action =>
    cases stepped
    rw [operation_count s action known.made]
    exact (BitVec.add_zero _).symm
  | packet self transport inter_thread_nullable call_info_data id =>
    obtain ⟨⟨_,effects⟩,dispatched,rfl⟩ := Option.map_eq_some_iff.mp stepped
    have hit := hits_entryOf known self call_info_data
    simp only [hits,Item.isPacket,Bool.and_eq_true,decide_eq_true_iff,hit]
    obtain ⟨_,_,⟨none,same⟩ | ⟨q,entry,counted,_⟩⟩ := dispatch_cases dispatched
    · rw [none,same,if_neg nofun]
      exact (BitVec.add_zero _).symm
    · rw [entry,counted]
      by_cases here : q = p
      · subst here
        rw [if_pos rfl,Function.update_self]
        rfl
      · rw [if_neg fun same => here (Option.some.inj same),Function.update_of_ne (Ne.symm here)]
        exact (BitVec.add_zero _).symm

/-! ### The counts -/

/-- The registry has the entry wherever the run comes. -/
def Keeps (r : ρ) (signature : Signature) (p : CallInfoPtr) (s : State ρ) (items : List (Item ρ)) : Prop :=
  ∀ before, before <+: items → HasEntry (run step s before) r signature p
/-- How the entry of a signature is counted since it was created in the state `s`. -/
structure Counted (r : ρ) (signature : Signature) (p : CallInfoPtr) (s : State ρ) (after : List (Item ρ)) : Prop where
  created : HasEntry s r signature p
  /-- All packets are counted that an endpoint processed whose registry had the entry. -/
  count : ((run step s after).store.call_infos p).m_call_count = BitVec.ofNat 32 (tally step (hits signature p) s after)
  /-- Those are all the packets with the signature when one endpoint got them and kept the entry. -/
  alone : Keeps r signature p s after → (∀ item ∈ after, item.isPacket (fun self _ => self ≠ r) = false) →
    tally step (hits signature p) s after = tally step (carries signature) s after
  /-- A packet adds one, and the callback hears of it. -/
  announced : ∀ self transport inter_thread_nullable call_info_data id s' effects,
    dispatch (run step s after) self transport inter_thread_nullable call_info_data id = some (s',effects) →
    packetSignature call_info_data = some signature → HasEntry (run step s after) self signature p →
    (s'.store.call_infos p).m_call_count = ((run step s after).store.call_infos p).m_call_count + 1 ∧
      ∀ callback, ((run step s after).proc_maps self).m_OnCallCountChanged = some callback → callback.is_callable = true →
        isDirectCall inter_thread_nullable callback.m_thread_id = true →
        Announced callback p (s'.store.call_infos p).m_call_count effects

/-- A new entry has a new call info, which was not counted. -/
theorem created_entry (s : State ρ) (r : ρ) {signature : Signature} (invoke : Option InvokeRemote) (comment : List Byte)
    (absent : lookup signature (s.proc_maps r).m_name_procs = none) {s' : State ρ}
    (added : Registries.step s (.addProcSignature r signature invoke comment) = s') :
    HasEntry s' r signature s.store.made ∧ (s'.store.call_infos s.store.made).m_call_count = 0 := by
  subst added
  have adds := addProcSignature_adds s.store (s.proc_maps r) signature invoke comment
  unfold Registries.step
  dsimp only
  generalize addProcSignature s.store (s.proc_maps r) signature invoke comment = added at adds
  cases adds with
  | creates =>
    refine ⟨hasEntry_lookup.mpr ⟨{ call_info := s.store.made, comment },?_,rfl⟩,?_⟩
    · dsimp only
      rw [Function.update_self,emplace,lookup_insert _ _ _ (s.proc_maps r).sorted,if_pos rfl,absent]
      rfl
    · dsimp only
      rw [setCallable_count,makeShared_new]
  | refuses found =>
    rw [absent] at found
    cases found
  | reuses found =>
    rw [absent] at found
    cases found

omit [DecidableEq ρ] in
theorem entry_known {s : State ρ} (consistent : Consistent s) {r : ρ} {signature : Signature} {p : CallInfoPtr}
    (entry : HasEntry s r signature p) : Known signature p s :=
  ⟨consistent,consistent.made r signature p entry,consistent.signature r signature p entry⟩

/-- Where one endpoint got all packets and kept the entry, each with the signature hits it. -/
theorem hits_alone {r : ρ} {signature : Signature} {p : CallInfoPtr} {s : State ρ} {after : List (Item ρ)}
    (keeps : Keeps r signature p s after) (own : ∀ item ∈ after, item.isPacket (fun self _ => self ≠ r) = false) :
    tally step (hits signature p) s after = tally step (carries signature) s after := by
  refine tally_congr fun before item short => ?_
  cases item with
  | operation action => rfl
  | packet self transport inter_thread_nullable call_info_data id =>
    have member := short.subset (List.mem_append_right before List.mem_cons_self)
    have here : self = r := by simpa [Item.isPacket] using own _ member
    subst here
    have entry := keeps before ((List.prefix_append before _).trans short)
    obtain ⟨call_data,found,rfl⟩ := hasEntry_lookup.mp entry
    simp [hits,carries,Item.isPacket,found]

omit [DecidableEq ρ] in
theorem announced_once {signature : Signature} {p : CallInfoPtr} {s s' : State ρ} {self : ρ} {transport : TransportShare}
    {inter_thread_nullable : Option Transthread} {call_info_data : DataStream} {id : CallId} {effects : List Effect}
    (dispatched : dispatch s self transport inter_thread_nullable call_info_data id = some (s',effects))
    (read : packetSignature call_info_data = some signature) (entry : HasEntry s self signature p) :
    (s'.store.call_infos p).m_call_count = (s.store.call_infos p).m_call_count + 1 ∧
      ∀ callback, (s.proc_maps self).m_OnCallCountChanged = some callback → callback.is_callable = true →
        isDirectCall inter_thread_nullable callback.m_thread_id = true →
        Announced callback p (s'.store.call_infos p).m_call_count effects := by
  obtain ⟨call_data,found,rfl⟩ := hasEntry_lookup.mp entry
  have there : entryOf (s.proc_maps self) call_info_data = some call_data.call_info := by
    simp only [entryOf,read,found,Option.bind_eq_bind,Option.bind_some,Option.pure_def]
  obtain ⟨_,_,⟨none,_⟩ | ⟨q,same,counted,announced⟩⟩ := dispatch_cases dispatched
  · rw [there] at none
    cases none
  · obtain rfl := Option.some.inj (there.symm.trans same)
    refine ⟨?_,announced⟩
    rw [counted,Function.update_self]
    rfl

/-- From the creation of an entry on its call info counts the packets with its
    name and parameter types, whatever becomes of them, and the callback hears of
    each before anything else. -/
theorem calls_counted (before after : List (Item ρ)) (r : ρ) (signature : Signature) (invoke : Option InvokeRemote)
    (comment : List Byte) (absent : lookup signature ((run step {} before).proc_maps r).m_name_procs = none) :
    Counted r signature (run step {} before).store.made
      (Registries.step (run step {} before) (.addProcSignature r signature invoke comment)) after := by
  have consistent : Consistent (run step ({} : State ρ) before) :=
    Preserves.run (fun _ _ _ consistent stepped => extends_consistent consistent (step_extends stepped)) empty_consistent before
  obtain ⟨entry,fresh⟩ := created_entry (run step {} before) r invoke comment absent rfl
  generalize run step {} before = s at consistent entry fresh
  have known := entry_known (extends_consistent consistent (Registries.step_extends s _)) entry
  refine ⟨entry,?_,hits_alone,?_⟩
  · have counted := counter_tally (known_preserved signature s.store.made)
      (fun s' => (s'.store.call_infos s.store.made).m_call_count) (fun _ _ _ => step_count) known after
    rw [counted,fresh]
    exact BitVec.zero_add _
  · intro self transport inter_thread_nullable call_info_data id s' effects dispatched read there
    exact announced_once dispatched read there

/-- A procedure that is only declared, in the only registry, and a packet for it. -/
theorem calls_counted_declared : Counted () plain 0 (Registries.step {} (.addProcSignature () plain none []))
    [.packet () (proxyTransport fun _ => 0) none
      (.ofRead ⟨encodeSignature plain.name true [] plain.params_type,by decide⟩) 1] :=
  calls_counted [] _ () plain none [] rfl

end IpcPortable.CallCounts
