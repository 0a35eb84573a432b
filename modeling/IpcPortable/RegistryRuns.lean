import IpcPortable.Registries

/-!
What holds of the registries after any history of operations: the keys are the
signatures of the call infos, and an entry has the same call info, and the same
callable handler, as long as it is there (`registries_represent`).
-/
namespace IpcPortable.RegistryRuns
open IpcPortable.LittleEndian IpcPortable.RawStrings IpcPortable.OrderedMaps IpcPortable.Signatures IpcPortable.ProcMaps
open IpcPortable.Registries
variable {ρ : Type}

/-- `FindCallInfo` answers the call info and the handler, however the packet
    points to the two strings. -/
def Finds (s : State ρ) (r : ρ) (signature : Signature) (call_info : CallInfoPtr) (handler : InvokeRemote) : Prop :=
  ∀ proc_name params_type, SignatureKey.Holds ⟨proc_name,params_type⟩ signature →
    ∃ found, findCallInfo s.store.call_infos (s.proc_maps r) proc_name params_type = some found ∧
      found.call_info = some call_info ∧ found.invoke_base = some handler
/-- The entry of a signature has the call info. -/
def HasEntry (s : State ρ) (r : ρ) (signature : Signature) (call_info : CallInfoPtr) : Prop :=
  ∃ entry ∈ (s.proc_maps r).m_name_procs, entry.1 = signature ∧ entry.2.call_info = call_info
/-- In every state of the run the registry has an entry for the signature. -/
def Stays [DecidableEq ρ] (r : ρ) (signature : Signature) : State ρ → List (Action ρ) → Prop
  | s, [] => ∃ call_info, HasEntry s r signature call_info
  | s, action :: rest => (∃ call_info, HasEntry s r signature call_info) ∧ Stays r signature (step s action) rest

/-- Every entry has a call info that was made, of its own signature. -/
structure Consistent (s : State ρ) : Prop where
  made : ∀ r signature call_info, HasEntry s r signature call_info → call_info < s.store.made
  signature : ∀ r signature call_info, HasEntry s r signature call_info →
    (s.store.call_infos call_info).signature = signature

theorem hasEntry_lookup {s : State ρ} {r : ρ} {signature : Signature} {call_info : CallInfoPtr} :
    HasEntry s r signature call_info ↔
      ∃ call_data, lookup signature (s.proc_maps r).m_name_procs = some call_data ∧ call_data.call_info = call_info := by
  constructor
  · rintro ⟨⟨key,call_data⟩,member,rfl,rfl⟩
    exact ⟨call_data,(lookup_eq_some (s.proc_maps r).sorted).mpr member,rfl⟩
  · rintro ⟨call_data,found,rfl⟩
    exact ⟨(signature,call_data),(lookup_eq_some (s.proc_maps r).sorted).mp found,rfl,rfl⟩

/-- The handler of an entry is found. -/
theorem finds_entry {s : State ρ} {r : ρ} {signature : Signature} {call_info : CallInfoPtr} {handler : InvokeRemote}
    (entry : HasEntry s r signature call_info) (installed : (s.store.call_infos call_info).isInvokable = some handler) :
    Finds s r signature call_info handler := by
  intro proc_name params_type holds
  obtain ⟨own,member,key,rfl⟩ := entry
  rcases findCallInfo_holds holds s.store.call_infos (s.proc_maps r) with ⟨found,here,same,result⟩ | ⟨missing,_⟩
  · obtain rfl := entry_unique here member (same.trans key.symm)
    exact ⟨_,result,rfl,installed⟩
  · exact absurd key (missing own member)

/-- The entry behind an answer. -/
theorem Finds.entry {s : State ρ} {r : ρ} {signature : Signature} {call_info : CallInfoPtr} {handler : InvokeRemote}
    (finds : Finds s r signature call_info handler) :
    HasEntry s r signature call_info ∧ (s.store.call_infos call_info).isInvokable = some handler := by
  obtain ⟨found,result,pointer,base⟩ := finds _ _ (key_holds signature)
  rcases findCallInfo_holds (key_holds signature) s.store.call_infos (s.proc_maps r) with
    ⟨entry,member,key,there⟩ | ⟨_,there⟩
  · rw [result] at there
    cases there
    cases pointer
    exact ⟨⟨entry,member,key,rfl⟩,base⟩
  · rw [result] at there
    cases there
    cases pointer

variable [DecidableEq ρ]

/-! ### One step -/

omit [DecidableEq ρ] in
theorem extends_consistent {s s' : State ρ} (consistent : Consistent s) (extended : Extends s s') : Consistent s' := by
  have each (r : ρ) (signature : Signature) (call_info : CallInfoPtr) (entry : HasEntry s' r signature call_info) :
      call_info < s'.store.made ∧ (s'.store.call_infos call_info).signature = signature := by
    have old (q : ρ) (before : HasEntry s q signature call_info) :
        call_info < s'.store.made ∧ (s'.store.call_infos call_info).signature = signature := by
      have made := consistent.made q signature call_info before
      refine ⟨Nat.lt_of_lt_of_le made extended.made,?_⟩
      rw [extended.signature call_info made]
      exact consistent.signature q signature call_info before
    obtain ⟨call_data,found,rfl⟩ := hasEntry_lookup.mp entry
    rcases extended.entry r signature call_data found with ⟨before,there,same⟩ | ⟨_,⟨q,before,there,same⟩ | ⟨new,more,named⟩⟩
    · exact old r (hasEntry_lookup.mpr ⟨before,there,same.symm⟩)
    · exact old q (hasEntry_lookup.mpr ⟨before,there,same.symm⟩)
    · rw [new]
      exact ⟨more,named⟩
  exact ⟨fun r signature call_info entry => (each r signature call_info entry).1,
    fun r signature call_info entry => (each r signature call_info entry).2⟩

omit [DecidableEq ρ] in
/-- An entry that stays has the same call info. -/
theorem extends_entry {s s' : State ρ} (extended : Extends s s') {r : ρ} {signature : Signature} {a b : CallInfoPtr}
    (before : HasEntry s r signature a) (after : HasEntry s' r signature b) : b = a := by
  obtain ⟨old,there,rfl⟩ := hasEntry_lookup.mp before
  obtain ⟨new,found,rfl⟩ := hasEntry_lookup.mp after
  rcases extended.entry r signature new found with ⟨kept,same,equal⟩ | ⟨absent,_⟩
  · rw [there] at same
    cases same
    exact equal
  · rw [there] at absent
    cases absent

/-! ### Every run -/

theorem run_consistent (actions : List (Action ρ)) {s : State ρ} (consistent : Consistent s) :
    Consistent (run s actions) := by
  induction actions generalizing s with
  | nil => exact consistent
  | cons action rest ih => exact ih (extends_consistent consistent (step_extends s action))

omit [DecidableEq ρ] in
theorem empty_consistent : Consistent ({} : State ρ) where
  made _ _ _ entry := by
    obtain ⟨_,member,_⟩ := entry
    cases member
  signature _ _ _ entry := by
    obtain ⟨_,member,_⟩ := entry
    cases member

theorem stays_entry {r : ρ} {signature : Signature} {s : State ρ} {actions : List (Action ρ)}
    (stays : Stays r signature s actions) : ∃ call_info, HasEntry s r signature call_info := by
  cases actions with
  | nil => exact stays
  | cons action rest => exact stays.1

/-- As long as the entry is there, its call info and its callable handler stay. -/
theorem stays_same {r : ρ} {signature : Signature} {call_info : CallInfoPtr} (actions : List (Action ρ)) {s : State ρ}
    (consistent : Consistent s) (entry : HasEntry s r signature call_info) (stays : Stays r signature s actions) :
    HasEntry (run s actions) r signature call_info ∧
      ∀ handler, (s.store.call_infos call_info).isInvokable = some handler →
        ((run s actions).store.call_infos call_info).isInvokable = some handler := by
  induction actions generalizing s with
  | nil => exact ⟨entry,fun _ installed => installed⟩
  | cons action rest ih =>
    have extended := step_extends s action
    obtain ⟨next,behind⟩ := stays_entry stays.2
    obtain rfl := extends_entry extended entry behind
    obtain ⟨kept,handlers⟩ := ih (extends_consistent consistent extended) behind stays.2
    refine ⟨kept,fun handler installed => handlers handler ?_⟩
    exact extended.invokable next (consistent.made r signature next entry) handler installed

/-- Both the handler of the entry and the one that is added can be called. -/
def BothCallable (s : State ρ) (r : ρ) (signature : Signature) (invoke : Option InvokeRemote) : Prop :=
  (∃ handler, Callable s.store.call_infos (s.proc_maps r) signature handler) ∧ invokeCallable invoke = true

omit [DecidableEq ρ] in
theorem callable_entry {s : State ρ} {r : ρ} {signature : Signature} {call_data : CallData}
    (found : lookup signature (s.proc_maps r).m_name_procs = some call_data) :
    (∃ handler, Callable s.store.call_infos (s.proc_maps r) signature handler) ↔
      (s.store.call_infos call_data.call_info).isInvokable ≠ none := by
  have member := (lookup_eq_some (s.proc_maps r).sorted).mp found
  rw [← Option.isSome_iff_ne_none,Option.isSome_iff_exists]
  constructor
  · rintro ⟨handler,entry,here,key,installed⟩
    obtain rfl := entry_unique here member key
    exact ⟨handler,isInvokable_some.mpr installed⟩
  · rintro ⟨handler,installed⟩
    exact ⟨handler,_,member,rfl,isInvokable_some.mp installed⟩

omit [DecidableEq ρ] in
/-- `AddProcSignature` answers the call info of the entry, or refuses a second
    callable handler and changes nothing. -/
theorem add_answers {s : State ρ} {r : ρ} {signature : Signature} {call_info : CallInfoPtr}
    (entry : HasEntry s r signature call_info) (invoke : Option InvokeRemote) (comment : List Byte) :
    BothCallable s r signature invoke ∧
        addProcSignature s.store (s.proc_maps r) signature invoke comment = (s.store,s.proc_maps r,none) ∨
      ¬ BothCallable s r signature invoke ∧
        (addProcSignature s.store (s.proc_maps r) signature invoke comment).2.2 = some call_info := by
  obtain ⟨call_data,there,rfl⟩ := hasEntry_lookup.mp entry
  have adds := addProcSignature_adds s.store (s.proc_maps r) signature invoke comment
  generalize addProcSignature s.store (s.proc_maps r) signature invoke comment = added at adds
  cases adds with
  | creates absent =>
    rw [there] at absent
    cases absent
  | refuses found installed callable =>
    exact .inl ⟨⟨(callable_entry found).mpr installed,callable⟩,rfl⟩
  | reuses found free =>
    refine .inr ⟨fun both => ?_,?_⟩
    · obtain ⟨installed,callable⟩ := both
      rcases free with free | uncallable
      · exact (callable_entry found).mp installed free
      · rw [callable] at uncallable
        cases uncallable
    · rw [there] at found
      cases found
      rfl

/-- A callable handler that is not refused is found. -/
theorem add_finds (s : State ρ) (r : ρ) {signature : Signature} {handler : InvokeRemote} (callable : handler.is_callable = true)
    (comment : List Byte) {call_info : CallInfoPtr}
    (answered : (addProcSignature s.store (s.proc_maps r) signature (some handler) comment).2.2 = some call_info) :
    Finds (step s (.addProcSignature r signature (some handler) comment)) r signature call_info handler := by
  have adds := addProcSignature_adds s.store (s.proc_maps r) signature (some handler) comment
  have entry (call_data : CallData) (store : CallInfoStore) (proc_map : ProcMap)
      (found : lookup signature proc_map.m_name_procs = some call_data) :
      HasEntry { store, proc_maps := Function.update s.proc_maps r proc_map } r signature call_data.call_info := by
    refine hasEntry_lookup.mpr ⟨call_data,?_,rfl⟩
    dsimp only
    rwa [Function.update_self]
  unfold step
  dsimp only
  generalize addProcSignature s.store (s.proc_maps r) signature (some handler) comment = added at adds answered
  cases adds with
  | creates absent =>
    cases answered
    refine finds_entry (entry { call_info := s.store.made, comment } _ _ ?_) (setCallable_invokable _ _ callable)
    rw [emplace,lookup_insert _ _ _ (s.proc_maps r).sorted,if_pos rfl,absent]
    rfl
  | refuses => cases answered
  | @reuses call_data found free =>
    cases answered
    refine finds_entry (entry { call_info := call_data.call_info, comment } _ _ ?_) (setCallable_invokable _ _ callable)
    rw [assignEntry,lookup_assign,if_pos rfl,found]
    rfl

/-- What the registries represent. -/
structure Represents (s : State ρ) : Prop where
  keys : ∀ r, ∀ entry ∈ (s.proc_maps r).m_name_procs,
    entry.1 = (s.store.call_infos entry.2.call_info).signature
  distinct : ∀ r, ((s.proc_maps r).m_name_procs.map Prod.fst).Nodup
  installs : ∀ r signature handler comment call_info, handler.is_callable = true →
    (addProcSignature s.store (s.proc_maps r) signature (some handler) comment).2.2 = some call_info →
    Finds (step s (.addProcSignature r signature (some handler) comment)) r signature call_info handler
  /-- A handler that is found is found until the entry is erased. -/
  finds : ∀ r signature call_info handler, Finds s r signature call_info handler →
    ∀ actions, Stays r signature s actions → Finds (run s actions) r signature call_info handler
  /-- The answers to `AddProcSignature` until the entry is erased. -/
  answers : ∀ r signature call_info, HasEntry s r signature call_info →
    ∀ actions, Stays r signature s actions → ∀ invoke comment,
      BothCallable (run s actions) r signature invoke ∧
          addProcSignature (run s actions).store ((run s actions).proc_maps r) signature invoke comment =
            ((run s actions).store,(run s actions).proc_maps r,none) ∨
        ¬ BothCallable (run s actions) r signature invoke ∧
          (addProcSignature (run s actions).store ((run s actions).proc_maps r) signature invoke comment).2.2 =
            some call_info

theorem consistent_represents {s : State ρ} (consistent : Consistent s) : Represents s := by
  refine ⟨?_,?_,?_,?_,?_⟩
  · intro r entry member
    exact (consistent.signature r entry.1 entry.2.call_info ⟨entry,member,rfl,rfl⟩).symm
  · intro r
    exact (s.proc_maps r).sorted.map Prod.fst fun _ _ below => ne_of_lt below
  · intro r signature handler comment call_info callable answered
    exact add_finds s r callable comment answered
  · intro r signature call_info handler finds actions stays
    obtain ⟨entry,installed⟩ := finds.entry
    obtain ⟨kept,handlers⟩ := stays_same actions consistent entry stays
    exact finds_entry kept (handlers handler installed)
  · intro r signature call_info entry actions stays invoke comment
    exact add_answers (stays_same actions consistent entry stays).1 invoke comment

/-- After every history of operations on any number of registries. -/
theorem registries_represent (actions : List (Action ρ)) : Represents (run {} actions) :=
  consistent_represents (run_consistent actions empty_consistent)

end IpcPortable.RegistryRuns
