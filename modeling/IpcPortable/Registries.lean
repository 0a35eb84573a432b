import IpcPortable.ProcMaps

/-!
What changes the registries: handlers and call infos are added, the entries of
a registry are added to another one, and entries are erased. The entries of all
registries refer to call infos in one store, and a call info that two of them
have is one object.
-/
namespace IpcPortable.Registries
open IpcPortable.LittleEndian IpcPortable.RawStrings IpcPortable.OrderedMaps IpcPortable.Signatures IpcPortable.ProcMaps
variable {ρ : Type}

/-! ### The call infos -/

/-- The call infos of all registries; `made` is the next pointer. -/
structure CallInfoStore where
  call_infos : CallInfos := fun _ => { signature := ⟨[],[]⟩ }
  made : CallInfoPtr := 0
/-- `make_shared`. -/
def CallInfoStore.makeShared (store : CallInfoStore) (call_info : CallInfoImpl) : CallInfoStore where
  call_infos := Function.update store.call_infos store.made call_info
  made := store.made + 1
/-- `SetInvoke`. -/
def CallInfoStore.setInvoke (store : CallInfoStore) (call_info : CallInfoPtr) (invoke : InvokeRemote) : CallInfoStore :=
  { store with call_infos :=
      Function.update store.call_infos call_info { store.call_infos call_info with m_invoke := some invoke } }

/-! ### One registry -/

/-- A registry as it is constructed. -/
def emptyMap : ProcMap where
  m_name_procs := []
  sorted := List.Pairwise.nil
/-- `emplace` and `insert` of a map. -/
def emplace (proc_map : ProcMap) (signature : Signature) (call_data : CallData) : ProcMap where
  m_name_procs := insert signature call_data proc_map.m_name_procs
  sorted := sorted_insert proc_map.sorted
  m_OnCallCountChanged := proc_map.m_OnCallCountChanged
  m_OnInvalidRemoteCall := proc_map.m_OnInvalidRemoteCall
/-- The value of an iterator is assigned to. -/
def assignEntry (proc_map : ProcMap) (signature : Signature) (call_data : CallData) : ProcMap where
  m_name_procs := assign signature call_data proc_map.m_name_procs
  sorted := sorted_assign proc_map.sorted
  m_OnCallCountChanged := proc_map.m_OnCallCountChanged
  m_OnInvalidRemoteCall := proc_map.m_OnInvalidRemoteCall

/-- `invoke_callable`. -/
def invokeCallable : Option InvokeRemote → Bool
  | some invoke => invoke.is_callable
  | none => false
/-- The handler is set where it is callable. -/
def setCallable (store : CallInfoStore) (call_info : CallInfoPtr) : Option InvokeRemote → CallInfoStore
  | some invoke => if invoke.is_callable then store.setInvoke call_info invoke else store
  | none => store
/-- `AddProcSignature`, and the call info that it answers. -/
def addProcSignature (store : CallInfoStore) (proc_map : ProcMap) (signature : Signature) (invoke : Option InvokeRemote)
    (comment : List Byte) : CallInfoStore × ProcMap × Option CallInfoPtr :=
  match lookup signature proc_map.m_name_procs with
  | none =>
    let call_info : CallInfoImpl := { signature }
    let result_call_info := store.made
    (setCallable (store.makeShared call_info) result_call_info invoke,
      emplace proc_map call_info.signature { call_info := result_call_info, comment },some result_call_info)
  | some it_name_params =>
    if (store.call_infos it_name_params.call_info).isInvokable.isSome && invokeCallable invoke then
      (store,proc_map,none)
    else
      let result_call_info := it_name_params.call_info
      (setCallable store result_call_info invoke,
        assignEntry proc_map signature { call_info := result_call_info, comment },some result_call_info)
/-- `AddAllProcs`, of another registry. -/
def addAllProcs (proc_map other : ProcMap) : ProcMap where
  m_name_procs := insertAll other.m_name_procs proc_map.m_name_procs
  sorted := sorted_insertAll proc_map.sorted
  m_OnCallCountChanged := proc_map.m_OnCallCountChanged
  m_OnInvalidRemoteCall := proc_map.m_OnInvalidRemoteCall
/-- `ClearAllProcs`. -/
def clearAllProcs (proc_map : ProcMap) : ProcMap where
  m_name_procs := []
  sorted := List.Pairwise.nil
  m_OnCallCountChanged := proc_map.m_OnCallCountChanged
  m_OnInvalidRemoteCall := proc_map.m_OnInvalidRemoteCall
/-- `ClearCallbackTag`. -/
def clearCallbackTag (member : Option Callback) (tag : Tag) : Option Callback :=
  match member with
  | some callback => if callback.m_tag = tag then none else some callback
  | none => none
/-- The call info has a callable handler with the tag. -/
def hasTag (store : CallInfoStore) (tag : Tag) (call_info : CallInfoPtr) : Bool :=
  match (store.call_infos call_info).isInvokable with
  | some invoke_base => invoke_base.m_tag == tag
  | none => false
/-- `ClearProcsWithTag`. -/
def clearProcsWithTag (store : CallInfoStore) (proc_map : ProcMap) (tag : Tag) : ProcMap where
  m_name_procs := proc_map.m_name_procs.filter fun entry => !hasTag store tag entry.2.call_info
  sorted := proc_map.sorted.filter _
  m_OnCallCountChanged := clearCallbackTag proc_map.m_OnCallCountChanged tag
  m_OnInvalidRemoteCall := clearCallbackTag proc_map.m_OnInvalidRemoteCall tag

/-- `SetCallCountChanged`, which answers the old callback. -/
def setCallCountChanged (proc_map : ProcMap) (new_val : Option Callback) : ProcMap × Option Callback :=
  ({ proc_map with m_OnCallCountChanged := new_val },proc_map.m_OnCallCountChanged)
/-- `SetErrorHandler`. -/
def setErrorHandler (proc_map : ProcMap) (new_val : Option Callback) : ProcMap × Option Callback :=
  ({ proc_map with m_OnInvalidRemoteCall := new_val },proc_map.m_OnInvalidRemoteCall)

/-! ### The registries -/

/-- Some registries, and the call infos that their entries refer to. -/
structure State (ρ : Type) where
  store : CallInfoStore := {}
  proc_maps : ρ → ProcMap := fun _ => emptyMap
/-- The operations; `AddHandler` is an `AddProcSignature` with a handler, and
    `AddCallInfo` one without. -/
inductive Action (ρ : Type)
  | addProcSignature (self : ρ) (signature : Signature) (invoke : Option InvokeRemote) (comment : List Byte)
  | addAllProcs (self other : ρ)
  | clearAllProcs (self : ρ)
  | clearProcsWithTag (self : ρ) (tag : Tag)
  | setCallCountChanged (self : ρ) (new_val : Option Callback)
  | setErrorHandler (self : ρ) (new_val : Option Callback)

variable [DecidableEq ρ]

/-- A registry changes, and nothing else. -/
def State.setMap (s : State ρ) (self : ρ) (proc_map : ProcMap) : State ρ :=
  { s with proc_maps := Function.update s.proc_maps self proc_map }
def step (s : State ρ) : Action ρ → State ρ
  | .addProcSignature self signature invoke comment =>
    let added := addProcSignature s.store (s.proc_maps self) signature invoke comment
    { store := added.1, proc_maps := Function.update s.proc_maps self added.2.1 }
  | .addAllProcs self other =>
    if self = other then s else s.setMap self (addAllProcs (s.proc_maps self) (s.proc_maps other))
  | .clearAllProcs self => s.setMap self (clearAllProcs (s.proc_maps self))
  | .clearProcsWithTag self tag => s.setMap self (clearProcsWithTag s.store (s.proc_maps self) tag)
  | .setCallCountChanged self new_val => s.setMap self (setCallCountChanged (s.proc_maps self) new_val).1
  | .setErrorHandler self new_val => s.setMap self (setErrorHandler (s.proc_maps self) new_val).1
def run (s : State ρ) (actions : List (Action ρ)) : State ρ := actions.foldl step s

/-! ### What the operations do -/

/-- Every way `AddProcSignature` can go. -/
inductive Adds (store : CallInfoStore) (proc_map : ProcMap) (signature : Signature) (invoke : Option InvokeRemote)
    (comment : List Byte) : CallInfoStore × ProcMap × Option CallInfoPtr → Prop
  | creates (absent : lookup signature proc_map.m_name_procs = none) :
    Adds store proc_map signature invoke comment (setCallable (store.makeShared { signature }) store.made invoke,
      emplace proc_map signature { call_info := store.made, comment },some store.made)
  | refuses {call_data : CallData} (found : lookup signature proc_map.m_name_procs = some call_data)
    (installed : (store.call_infos call_data.call_info).isInvokable ≠ none) (callable : invokeCallable invoke = true) :
    Adds store proc_map signature invoke comment (store,proc_map,none)
  | reuses {call_data : CallData} (found : lookup signature proc_map.m_name_procs = some call_data)
    (free : (store.call_infos call_data.call_info).isInvokable = none ∨ invokeCallable invoke = false) :
    Adds store proc_map signature invoke comment (setCallable store call_data.call_info invoke,
      assignEntry proc_map signature { call_info := call_data.call_info, comment },some call_data.call_info)

theorem addProcSignature_adds (store : CallInfoStore) (proc_map : ProcMap) (signature : Signature)
    (invoke : Option InvokeRemote) (comment : List Byte) :
    Adds store proc_map signature invoke comment (addProcSignature store proc_map signature invoke comment) := by
  unfold addProcSignature
  cases found : lookup signature proc_map.m_name_procs with
  | none => exact .creates found
  | some call_data =>
    dsimp only
    split
    · rename_i both
      obtain ⟨installed,callable⟩ := Bool.and_eq_true_iff.mp both
      exact .refuses found (Option.isSome_iff_ne_none.mp installed) callable
    · rename_i either
      refine .reuses found ?_
      cases installed : (store.call_infos call_data.call_info).isInvokable with
      | none => exact .inl rfl
      | some handler => exact .inr (by simpa [installed] using either)

section store
variable (store : CallInfoStore) (p : CallInfoPtr) (invoke : Option InvokeRemote)

/-- A callable handler is set, and any other is not. -/
theorem setCallable_cases :
    invokeCallable invoke = false ∧ setCallable store p invoke = store ∨
      ∃ handler, invoke = some handler ∧ handler.is_callable = true ∧
        setCallable store p invoke = store.setInvoke p handler := by
  cases invoke with
  | none => exact .inl ⟨rfl,rfl⟩
  | some handler =>
    cases callable : handler.is_callable with
    | false => exact .inl ⟨callable,by simp [setCallable,callable]⟩
    | true => exact .inr ⟨handler,rfl,callable,by simp [setCallable,callable]⟩

@[simp] theorem setInvoke_at (handler : InvokeRemote) :
    (store.setInvoke p handler).call_infos p = { store.call_infos p with m_invoke := some handler } :=
  Function.update_self ..

theorem setInvoke_other (handler : InvokeRemote) {q : CallInfoPtr} (other : q ≠ p) :
    (store.setInvoke p handler).call_infos q = store.call_infos q :=
  Function.update_of_ne other _ _

@[simp] theorem setCallable_made : (setCallable store p invoke).made = store.made := by
  rcases setCallable_cases store p invoke with ⟨_,same⟩ | ⟨handler,_,_,same⟩ <;> rw [same]
  rfl

/-- Only the handler of the one call info is set. -/
theorem setCallable_other {q : CallInfoPtr} (other : q ≠ p) :
    (setCallable store p invoke).call_infos q = store.call_infos q := by
  rcases setCallable_cases store p invoke with ⟨_,same⟩ | ⟨handler,_,_,same⟩
  · rw [same]
  · rw [same,setInvoke_other store p handler other]

@[simp] theorem setCallable_signature (q : CallInfoPtr) :
    ((setCallable store p invoke).call_infos q).signature = (store.call_infos q).signature := by
  by_cases same : q = p
  · subst same
    rcases setCallable_cases store q invoke with ⟨_,same⟩ | ⟨handler,_,_,same⟩
    · rw [same]
    · rw [same,setInvoke_at]
  · rw [setCallable_other store p invoke same]

theorem setCallable_uncallable (uncallable : invokeCallable invoke = false) : setCallable store p invoke = store := by
  rcases setCallable_cases store p invoke with ⟨_,same⟩ | ⟨handler,rfl,callable,_⟩
  · exact same
  · exact absurd callable (Bool.eq_false_iff.mp uncallable)

/-- A callable handler that is set is found. -/
theorem setCallable_invokable {handler : InvokeRemote} (callable : handler.is_callable = true) :
    ((setCallable store p (some handler)).call_infos p).isInvokable = some handler := by
  rcases setCallable_cases store p (some handler) with ⟨uncallable,_⟩ | ⟨_,equal,_,same⟩
  · exact absurd callable (Bool.eq_false_iff.mp uncallable)
  · cases equal
    rw [same,setInvoke_at]
    exact isInvokable_some.mpr ⟨rfl,callable⟩

theorem makeShared_other (call_info : CallInfoImpl) {q : CallInfoPtr} (other : q ≠ store.made) :
    (store.makeShared call_info).call_infos q = store.call_infos q :=
  Function.update_of_ne other _ _

theorem makeShared_new (call_info : CallInfoImpl) :
    (store.makeShared call_info).call_infos store.made = call_info :=
  Function.update_self ..

end store

/-- What any step leaves: call infos keep their signatures and the handlers
    that can be called, and an entry is an old one, perhaps of another registry,
    or has a new call info. -/
structure Extends (s s' : State ρ) : Prop where
  made : s.store.made ≤ s'.store.made
  signature : ∀ p < s.store.made, (s'.store.call_infos p).signature = (s.store.call_infos p).signature
  invokable : ∀ p < s.store.made, ∀ handler, (s.store.call_infos p).isInvokable = some handler →
    (s'.store.call_infos p).isInvokable = some handler
  entry : ∀ r signature call_data, lookup signature (s'.proc_maps r).m_name_procs = some call_data →
    (∃ old, lookup signature (s.proc_maps r).m_name_procs = some old ∧ call_data.call_info = old.call_info) ∨
    lookup signature (s.proc_maps r).m_name_procs = none ∧
      ((∃ q old, lookup signature (s.proc_maps q).m_name_procs = some old ∧ call_data.call_info = old.call_info) ∨
        call_data.call_info = s.store.made ∧ s.store.made < s'.store.made ∧
          (s'.store.call_infos s.store.made).signature = signature)

/-- Where only a registry changed, its entries are old ones. -/
theorem setMap_extends (s : State ρ) (self : ρ) {proc_map : ProcMap}
    (old : ∀ signature call_data, lookup signature proc_map.m_name_procs = some call_data →
      lookup signature (s.proc_maps self).m_name_procs = some call_data ∨
      lookup signature (s.proc_maps self).m_name_procs = none ∧
        ∃ q, lookup signature (s.proc_maps q).m_name_procs = some call_data) :
    Extends s (s.setMap self proc_map) where
  made := Nat.le_refl _
  signature _ _ := rfl
  invokable _ _ _ installed := installed
  entry r signature call_data found := by
    by_cases here : r = self
    · subst here
      simp only [State.setMap,Function.update_self] at found
      rcases old signature call_data found with kept | ⟨absent,q,copied⟩
      · exact .inl ⟨call_data,kept,rfl⟩
      · exact .inr ⟨absent,.inl ⟨q,call_data,copied,rfl⟩⟩
    · simp only [State.setMap,Function.update_of_ne here] at found
      exact .inl ⟨call_data,found,rfl⟩

omit [DecidableEq ρ] in
theorem refl_extends (s : State ρ) : Extends s s where
  made := Nat.le_refl _
  signature _ _ := rfl
  invokable _ _ _ installed := installed
  entry _ _ call_data found := .inl ⟨call_data,found,rfl⟩

theorem add_extends (s : State ρ) (self : ρ) (signature : Signature) (invoke : Option InvokeRemote) (comment : List Byte) :
    Extends s (step s (.addProcSignature self signature invoke comment)) := by
  have adds := addProcSignature_adds s.store (s.proc_maps self) signature invoke comment
  unfold step
  dsimp only
  generalize addProcSignature s.store (s.proc_maps self) signature invoke comment = added at adds
  cases adds with
  | creates absent =>
    refine ⟨?_,?_,?_,?_⟩
    · simp [CallInfoStore.makeShared]
    · intro p old
      simp [makeShared_other s.store _ (Nat.ne_of_lt old)]
    · intro p old handler installed
      rw [setCallable_other _ _ _ (Nat.ne_of_lt old),makeShared_other s.store _ (Nat.ne_of_lt old),installed]
    · intro r other call_data found
      by_cases here : r = self
      · subst here
        simp only [Function.update_self,emplace,lookup_insert _ _ _ (s.proc_maps r).sorted,absent] at found
        by_cases same : other = signature
        · subst same
          rw [if_pos rfl] at found
          cases found
          refine .inr ⟨absent,.inr ⟨rfl,?_,?_⟩⟩
          · simp [CallInfoStore.makeShared]
          · simp [makeShared_new]
        · rw [if_neg same] at found
          exact .inl ⟨call_data,found,rfl⟩
      · simp only [Function.update_of_ne here] at found
        exact .inl ⟨call_data,found,rfl⟩
  | refuses found installed callable =>
    simp only [Function.update_eq_self]
    exact refl_extends s
  | @reuses entry found free =>
    refine ⟨?_,?_,?_,?_⟩
    · simp
    · simp
    · intro p old handler installed
      rcases free with free | uncallable
      · have other : p ≠ entry.call_info := by
          rintro rfl
          rw [installed] at free
          cases free
        rw [setCallable_other _ _ _ other,installed]
      · rw [setCallable_uncallable _ _ _ uncallable,installed]
    · intro r other call_data there
      by_cases here : r = self
      · subst here
        simp only [Function.update_self,assignEntry,lookup_assign,found,Option.map_some] at there
        by_cases same : other = signature
        · subst same
          rw [if_pos rfl] at there
          cases there
          exact .inl ⟨entry,found,rfl⟩
        · rw [if_neg same] at there
          exact .inl ⟨call_data,there,rfl⟩
      · simp only [Function.update_of_ne here] at there
        exact .inl ⟨call_data,there,rfl⟩

theorem step_extends (s : State ρ) (action : Action ρ) : Extends s (step s action) := by
  cases action with
  | addProcSignature self signature invoke comment => exact add_extends s self signature invoke comment
  | addAllProcs self other =>
    unfold step
    dsimp only
    split
    · exact refl_extends s
    · refine setMap_extends s self fun signature call_data found => ?_
      rw [addAllProcs,lookup_insertAll signature (s.proc_maps other).sorted (s.proc_maps self).sorted] at found
      cases own : lookup signature (s.proc_maps self).m_name_procs with
      | some entry =>
        rw [own] at found
        exact .inl found
      | none =>
        rw [own] at found
        exact .inr ⟨rfl,other,found⟩
  | clearAllProcs self => exact setMap_extends s self fun signature call_data found => by cases found
  | clearProcsWithTag self tag =>
    refine setMap_extends s self fun signature call_data found => .inl ?_
    rw [clearProcsWithTag,lookup_filter signature _ (s.proc_maps self).sorted] at found
    exact (Option.filter_eq_some_iff.mp found).1
  | setCallCountChanged self new_val => exact setMap_extends s self fun _ _ found => .inl found
  | setErrorHandler self new_val => exact setMap_extends s self fun _ _ found => .inl found

end IpcPortable.Registries
