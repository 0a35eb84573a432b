import IpcPortable.SharedEntries
import IpcPortable.Buffers

/-!
Signatures that are added again. `AddProcSignature` refuses a second callable
handler, and otherwise writes over the comment of the entry, also when nothing
else about it changes (`add_undisturbed`); what is found stays the same in both
cases (`add_found`). `AddAllProcs` leaves every entry that is there, also one
that is only declared (`addAllProcs_merges`).
-/
namespace IpcPortable.ExistingEntries
open IpcPortable.LittleEndian IpcPortable.Values IpcPortable.RawStrings IpcPortable.OrderedMaps IpcPortable.Signatures IpcPortable.ProcMaps
open IpcPortable.Registries IpcPortable.RegistryRuns IpcPortable.SharedEntries IpcPortable.Buffers
variable {ρ : Type}

/-! ### The entry of a handler -/

/-- The registry has a callable handler for the signature. -/
def Live (s : State ρ) (r : ρ) (signature : Signature) : Prop :=
  ∃ handler, Callable s.store.call_infos (s.proc_maps r) signature handler
/-- The entry of the signature has the comment. -/
def Commented (s : State ρ) (r : ρ) (signature : Signature) (comment : List Byte) : Prop :=
  ∃ entry ∈ (s.proc_maps r).m_name_procs, entry.1 = signature ∧ entry.2.comment = comment
/-- `FindCallInfo` and `EnumerateHandlers` answer the same for every registry. -/
structure Undisturbed (s s' : State ρ) : Prop where
  found : ∀ r, SameFound s s' r
  enumerated : ∀ r, enumerateHandlers s'.store.call_infos (s'.proc_maps r) =
    enumerateHandlers s.store.call_infos (s.proc_maps r)

/-- The search only reads the keys. -/
theorem lowerBound_map (key : SignatureKey) (f : Signature × CallData → Signature × CallData)
    (keys : ∀ entry, (f entry).1 = entry.1) (m_name_procs : List (Signature × CallData)) :
    keyLowerBound Signature.key key (m_name_procs.map f) =
      (keyLowerBound Signature.key key m_name_procs).map (Option.map f) := by
  induction m_name_procs with
  | nil => rfl
  | cons entry rest ih =>
    simp only [List.map_cons,keyLowerBound,keys,ih]
    cases entry.1.key.less key with
    | none => rfl
    | some below => cases below <;> rfl

theorem find_map (key : SignatureKey) (f : Signature × CallData → Signature × CallData)
    (keys : ∀ entry, (f entry).1 = entry.1) (m_name_procs : List (Signature × CallData)) :
    ProcMaps.find key (m_name_procs.map f) = (ProcMaps.find key m_name_procs).map (Option.map f) := by
  unfold ProcMaps.find keyFind
  rw [lowerBound_map key f keys]
  cases keyLowerBound Signature.key key m_name_procs with
  | none => rfl
  | some bound =>
    cases bound with
    | none => rfl
    | some entry =>
      simp only [Option.map_some,Option.bind_eq_bind,Option.bind_some,keys]
      cases key.less entry.1.key with
      | none => rfl
      | some above => cases above <;> rfl

/-- What is found does not depend on the comments of the entries. -/
theorem findCallInfo_map (call_infos : CallInfos) {proc_map proc_map' : ProcMap}
    (f : Signature × CallData → Signature × CallData) (keys : ∀ entry, (f entry).1 = entry.1)
    (pointers : ∀ entry ∈ proc_map.m_name_procs, (f entry).2.call_info = entry.2.call_info)
    (entries : proc_map'.m_name_procs = proc_map.m_name_procs.map f)
    (counts : proc_map'.m_OnCallCountChanged = proc_map.m_OnCallCountChanged)
    (errors : proc_map'.m_OnInvalidRemoteCall = proc_map.m_OnInvalidRemoteCall) (proc_name params_type : RawString) :
    findCallInfo call_infos proc_map' proc_name params_type = findCallInfo call_infos proc_map proc_name params_type := by
  unfold findCallInfo
  rw [entries,find_map _ f keys,counts,errors]
  cases search : ProcMaps.find ⟨proc_name,params_type⟩ proc_map.m_name_procs with
  | none => rfl
  | some result =>
    cases result with
    | none => rfl
    | some entry =>
      simp only [Option.map_some,Option.bind_eq_bind,Option.bind_some,pointers entry (keyFind_same search).1]

theorem findCallInfo_assign (call_infos : CallInfos) {proc_map : ProcMap} {signature : Signature} {call_data : CallData}
    (found : lookup signature proc_map.m_name_procs = some call_data) (comment : List Byte) (proc_name params_type : RawString) :
    findCallInfo call_infos (assignEntry proc_map signature { call_info := call_data.call_info, comment }) proc_name params_type =
      findCallInfo call_infos proc_map proc_name params_type := by
  have entries : (assignEntry proc_map signature { call_info := call_data.call_info, comment }).m_name_procs =
      proc_map.m_name_procs.map _ := rfl
  refine findCallInfo_map call_infos _ (fun entry => ?_) (fun entry member => ?_) entries rfl rfl proc_name params_type
  · split <;> rfl
  · split
    · rename_i same
      rw [entry_unique member ((lookup_eq_some proc_map.sorted).mp found) same]
    · rfl

/-- Where the comment is the one that is there, nothing is written. -/
theorem assignEntry_same {proc_map : ProcMap} {signature : Signature} {call_data : CallData}
    (found : lookup signature proc_map.m_name_procs = some call_data) : assignEntry proc_map signature call_data = proc_map := by
  have same : assign signature call_data proc_map.m_name_procs = proc_map.m_name_procs := by
    refine (List.map_congr_left fun entry member => ?_).trans (List.map_id _)
    by_cases key : entry.1 = signature
    · have own := entry_unique member ((lookup_eq_some proc_map.sorted).mp found) key
      simp [own]
    · simp [key]
  unfold assignEntry
  congr

/-- The entry of a callable handler is enumerated with its comment. -/
theorem enumerated_comment (call_infos : CallInfos) {proc_map : ProcMap} {entry : Signature × CallData}
    (member : entry ∈ proc_map.m_name_procs) {handler : InvokeRemote}
    (installed : (call_infos entry.2.call_info).isInvokable = some handler) :
    (⟨entry.1.name,handler.return_type,entry.1.params_type,entry.2.comment⟩ : ProcDescription) ∈
      enumerateHandlers call_infos proc_map := by
  refine List.mem_filterMap.mpr ⟨entry,member,?_⟩
  rw [installed]

/-- A record is the one of an entry with its name and parameters. -/
theorem enumerated_entry {call_infos : CallInfos} {proc_map : ProcMap} {record : ProcDescription}
    (member : record ∈ enumerateHandlers call_infos proc_map) :
    ∃ entry ∈ proc_map.m_name_procs, entry.1 = ⟨record.name,record.params_types⟩ ∧ entry.2.comment = record.comment ∧
      ∃ handler, (call_infos entry.2.call_info).isInvokable = some handler ∧ handler.return_type = record.return_type := by
  obtain ⟨entry,there,described⟩ := List.mem_filterMap.mp member
  cases installed : (call_infos entry.2.call_info).isInvokable with
  | none =>
    rw [installed] at described
    cases described
  | some handler =>
    rw [installed] at described
    cases described
    exact ⟨entry,there,rfl,rfl,handler,installed,rfl⟩

section registrations
variable [DecidableEq ρ]

/-! ### A signature that is registered again -/

/-- A live entry has its call info and its handler, and the store is the same. -/
theorem add_live {s : State ρ} {r : ρ} {signature : Signature} (live : Live s r signature) (invoke : Option InvokeRemote)
    (comment : List Byte) :
    invokeCallable invoke = true ∧ step s (.addProcSignature r signature invoke comment) = s ∨
      invokeCallable invoke = false ∧ ∃ call_data, lookup signature (s.proc_maps r).m_name_procs = some call_data ∧
        step s (.addProcSignature r signature invoke comment) =
          s.setMap r (assignEntry (s.proc_maps r) signature { call_info := call_data.call_info, comment }) := by
  have adds := addProcSignature_adds s.store (s.proc_maps r) signature invoke comment
  unfold step
  dsimp only
  generalize addProcSignature s.store (s.proc_maps r) signature invoke comment = added at adds
  cases adds with
  | creates absent =>
    obtain ⟨handler,entry,member,rfl,_⟩ := live
    rw [(lookup_eq_some (s.proc_maps r).sorted).mpr member] at absent
    cases absent
  | refuses found installed callable =>
    refine .inl ⟨callable,?_⟩
    simp only [Function.update_eq_self]
  | @reuses call_data found free =>
    have installed := (callable_entry found).mp live
    have uncallable := free.resolve_left installed
    refine .inr ⟨uncallable,call_data,found,?_⟩
    simp only [setCallable_uncallable _ _ _ uncallable]
    rfl

/-- After a registration of a live signature a comment that was passed without a
    callable handler is the one of the entry. -/
theorem add_commented {s : State ρ} {r : ρ} {signature : Signature} (live : Live s r signature)
    {invoke : Option InvokeRemote} (uncallable : invokeCallable invoke = false) {comment : List Byte}
    (undisturbed : Undisturbed s (step s (.addProcSignature r signature invoke comment))) :
    Commented s r signature comment := by
  rcases add_live live invoke comment with ⟨callable,_⟩ | ⟨_,call_data,found,after⟩
  · rw [callable] at uncallable
    cases uncallable
  · have enumerated := undisturbed.enumerated r
    rw [after,State.setMap] at enumerated
    simp only [Function.update_self] at enumerated
    obtain ⟨handler,installed⟩ := Option.ne_none_iff_exists'.mp ((callable_entry found).mp live)
    have member : (signature,{ call_info := call_data.call_info, comment }) ∈
        (assignEntry (s.proc_maps r) signature { call_info := call_data.call_info, comment }).m_name_procs := by
      refine (lookup_eq_some (assignEntry _ _ _).sorted).mp ?_
      rw [assignEntry,lookup_assign,if_pos rfl,found]
      rfl
    have record := enumerated_comment s.store.call_infos member installed
    rw [enumerated] at record
    obtain ⟨entry,there,key,same,_⟩ := enumerated_entry record
    exact ⟨entry,there,key,same⟩

/-- A live signature that is registered again is undisturbed exactly when a
    callable handler is refused, or the comment is the one that is there. -/
theorem add_undisturbed (s : State ρ) (r : ρ) (signature : Signature) (live : Live s r signature)
    (invoke : Option InvokeRemote) (comment : List Byte) :
    Undisturbed s (step s (.addProcSignature r signature invoke comment)) ↔
      invokeCallable invoke = true ∨ Commented s r signature comment := by
  constructor
  · intro undisturbed
    cases callable : invokeCallable invoke with
    | true => exact .inl rfl
    | false => exact .inr (add_commented live callable undisturbed)
  · intro harmless
    have unchanged : step s (.addProcSignature r signature invoke comment) = s := by
      rcases add_live live invoke comment with ⟨_,same⟩ | ⟨uncallable,call_data,found,after⟩
      · exact same
      · rcases harmless with callable | ⟨entry,member,rfl,rfl⟩
        · rw [uncallable] at callable
          cases callable
        · rw [(lookup_eq_some (s.proc_maps r).sorted).mpr member] at found
          cases found
          rw [after,assignEntry_same ((lookup_eq_some (s.proc_maps r).sorted).mpr member)]
          simp only [State.setMap,Function.update_eq_self]
    rw [unchanged]
    exact ⟨fun _ _ _ => rfl,fun _ => rfl⟩

/-- The procedure with its handler and a comment. -/
def described : List (Action Unit) := [.addProcSignature () plain (some plainHandler) [99]]

theorem described_live : Live (run {} described) () plain := ⟨plainHandler,_,List.mem_cons_self,rfl,rfl,rfl⟩

/-- A second handler is refused. -/
theorem add_undisturbed_plain :
    Undisturbed (run {} described) (step (run {} described) (.addProcSignature () plain (some plainHandler) [])) :=
  (add_undisturbed (run {} described) () plain described_live (some plainHandler) []).mpr (.inl rfl)

/-- `AddCallInfo` passes no handler and an empty comment. -/
theorem add_disturbed :
    ¬ ∀ (actions : List (Action Unit)) (signature : Signature) (invoke : Option InvokeRemote) (comment : List Byte),
      Live (run {} actions) () signature →
        Undisturbed (run {} actions) (step (run {} actions) (.addProcSignature () signature invoke comment)) := by
  intro undisturbed
  obtain ⟨entry,member,_,erased⟩ := add_commented described_live rfl (undisturbed described plain none [] described_live)
  obtain rfl := List.mem_singleton.mp member
  cases erased

/-- In every case the registration leaves what is found. -/
theorem add_found {s : State ρ} {r : ρ} {signature : Signature} (live : Live s r signature) (invoke : Option InvokeRemote)
    (comment : List Byte) (a : ρ) : SameFound s (step s (.addProcSignature r signature invoke comment)) a := by
  intro proc_name params_type
  rcases add_live live invoke comment with ⟨_,same⟩ | ⟨_,call_data,found,after⟩
  · rw [same]
  · rw [after]
    by_cases here : a = r
    · subst here
      simp only [State.setMap,Function.update_self]
      exact findCallInfo_assign s.store.call_infos found comment proc_name params_type
    · simp only [State.setMap,Function.update_of_ne here]

/-! ### The entries of another registry -/

/-- A call with the signature finds a callable handler. -/
def FindsAny (s : State ρ) (r : ρ) (signature : Signature) : Prop :=
  ∃ call_info handler, Finds s r signature call_info handler
/-- The handlers of `b` are added to those of `a`. -/
structure Merged (s s' : State ρ) (a b : ρ) : Prop where
  found : ∀ signature, FindsAny s' a signature ↔ FindsAny s a signature ∨ FindsAny s b signature
  own : ∀ signature call_info handler, Finds s a signature call_info handler → Finds s' a signature call_info handler
  added : ∀ signature, ¬ FindsAny s a signature → ∀ call_info handler, Finds s b signature call_info handler →
    Finds s' a signature call_info handler
  other : SameFound s s' b

/-- After `AddAllProcs` a signature has its own entry, or the one of the other
    registry where there was none. -/
theorem addAllProcs_entry (s : State ρ) {a b : ρ} (apart : a ≠ b) {signature : Signature} {call_info : CallInfoPtr} :
    HasEntry (step s (.addAllProcs a b)) a signature call_info ↔
      HasEntry s a signature call_info ∨ (∀ own, ¬ HasEntry s a signature own) ∧ HasEntry s b signature call_info := by
  simp only [hasEntry_lookup,step,if_neg apart,State.setMap,Function.update_self,addAllProcs,
    lookup_insertAll signature (s.proc_maps b).sorted (s.proc_maps a).sorted]
  cases own : lookup signature (s.proc_maps a).m_name_procs with
  | none => simp
  | some entry =>
    simp only [Option.some_or,Option.some.injEq,exists_eq_left',iff_self_or]
    exact fun absent => absurd rfl (absent.1 entry.call_info)

omit [DecidableEq ρ] in
/-- A handler is found through its entry. -/
theorem finds_iff {s : State ρ} {r : ρ} {signature : Signature} {call_info : CallInfoPtr} {handler : InvokeRemote} :
    Finds s r signature call_info handler ↔
      HasEntry s r signature call_info ∧ (s.store.call_infos call_info).isInvokable = some handler :=
  ⟨Finds.entry,fun ⟨entry,installed⟩ => finds_entry entry installed⟩

theorem addAllProcs_store (s : State ρ) (a b : ρ) : (step s (.addAllProcs a b)).store = s.store := by
  unfold step
  dsimp only
  split <;> rfl

theorem addAllProcs_finds (s : State ρ) {a b : ρ} (apart : a ≠ b) {signature : Signature} {call_info : CallInfoPtr}
    {handler : InvokeRemote} :
    Finds (step s (.addAllProcs a b)) a signature call_info handler ↔
      Finds s a signature call_info handler ∨
        (∀ own, ¬ HasEntry s a signature own) ∧ Finds s b signature call_info handler := by
  simp only [finds_iff,addAllProcs_entry s apart,addAllProcs_store]
  tauto

/-- `AddAllProcs` adds all handlers exactly when no signature that has one in `b`
    has an entry without one in `a`. -/
theorem addAllProcs_merges (s : State ρ) (a b : ρ) (apart : a ≠ b) :
    Merged s (step s (.addAllProcs a b)) a b ↔
      ∀ signature, FindsAny s b signature → (∃ own, HasEntry s a signature own) → FindsAny s a signature := by
  constructor
  · rintro merged signature found ⟨own,entry⟩
    obtain ⟨call_info,handler,after⟩ := (merged.found signature).mpr (.inr found)
    rcases (addAllProcs_finds s apart).mp after with kept | ⟨absent,_⟩
    · exact ⟨call_info,handler,kept⟩
    · exact absurd entry (absent own)
  · intro undeclared
    have added (signature : Signature) (unfound : ¬ FindsAny s a signature) (call_info : CallInfoPtr)
        (handler : InvokeRemote) (found : Finds s b signature call_info handler) :
        Finds (step s (.addAllProcs a b)) a signature call_info handler := by
      refine (addAllProcs_finds s apart).mpr (.inr ⟨fun own entry => ?_,found⟩)
      exact unfound (undeclared signature ⟨call_info,handler,found⟩ ⟨own,entry⟩)
    refine ⟨fun signature => ⟨?_,?_⟩,?_,added,?_⟩
    · rintro ⟨call_info,handler,after⟩
      rcases (addAllProcs_finds s apart).mp after with kept | ⟨_,copied⟩
      · exact .inl ⟨call_info,handler,kept⟩
      · exact .inr ⟨call_info,handler,copied⟩
    · intro before
      by_cases own : FindsAny s a signature
      · obtain ⟨call_info,handler,found⟩ := own
        exact ⟨call_info,handler,(addAllProcs_finds s apart).mpr (.inl found)⟩
      · obtain ⟨call_info,handler,found⟩ := before.resolve_left own
        exact ⟨call_info,handler,added signature own call_info handler found⟩
    · exact fun signature call_info handler found => (addAllProcs_finds s apart).mpr (.inl found)
    · intro proc_name params_type
      rw [addAllProcs_store]
      simp only [step,if_neg apart,State.setMap,Function.update_of_ne apart.symm]

/-- Another procedure. -/
def second : Signature := ⟨[103],[]⟩
/-- Both registries have a handler of the first procedure, and the one that is copied also of the second. -/
def overlapping : List (Action Bool) :=
  [.addProcSignature false plain (some plainHandler) [],.addProcSignature true plain (some plainHandler) [1],
    .addProcSignature true second (some plainHandler) [2]]

/-- The handler of the second procedure is added beside the first one. -/
theorem addAllProcs_merges_overlapping :
    Merged (run {} overlapping) (step (run {} overlapping) (.addAllProcs false true)) false true ∧
      FindsAny (step (run {} overlapping) (.addAllProcs false true)) false second := by
  have merged : Merged (run {} overlapping) (step (run {} overlapping) (.addAllProcs false true)) false true := by
    refine (addAllProcs_merges (run {} overlapping) false true Bool.false_ne_true).mpr ?_
    rintro signature _ ⟨own,entry,member,rfl,_⟩
    obtain rfl := List.mem_singleton.mp member
    exact ⟨0,plainHandler,finds_entry ⟨_,member,rfl,rfl⟩ rfl⟩
  have entry : HasEntry (run {} overlapping) true second 2 :=
    ⟨_,List.mem_cons_of_mem _ List.mem_cons_self,rfl,rfl⟩
  exact ⟨merged,(merged.found second).mpr (.inr ⟨2,plainHandler,finds_entry entry rfl⟩)⟩

/-- `AddCallInfo` declared the procedure in the registry that the handlers are added to. -/
def declared : List (Action Bool) :=
  [.addProcSignature false plain none [],.addProcSignature true plain (some plainHandler) []]

/-- The declared entry stays, and the handler is not found. -/
theorem addAllProcs_misses :
    ¬ ∀ (actions : List (Action Bool)) (a b : Bool), a ≠ b →
      Merged (run {} actions) (step (run {} actions) (.addAllProcs a b)) a b := by
  intro merges
  have apart := Bool.false_ne_true
  have merged := merges declared false true apart
  have found : FindsAny (run {} declared) true plain :=
    ⟨1,plainHandler,finds_entry ⟨_,List.mem_cons_self,rfl,rfl⟩ rfl⟩
  obtain ⟨call_info,handler,after⟩ := (merged.found plain).mpr (.inr found)
  have own : HasEntry (run {} declared) false plain 0 := ⟨_,List.mem_cons_self,rfl,rfl⟩
  rcases (addAllProcs_finds _ apart).mp after with kept | ⟨absent,_⟩
  · obtain ⟨⟨entry,member,_,rfl⟩,installed⟩ := kept.entry
    obtain rfl := List.mem_singleton.mp member
    cases installed
  · exact absent 0 own

end registrations

end IpcPortable.ExistingEntries
