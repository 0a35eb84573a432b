import IpcPortable.Workers
import IpcPortable.SharedEntries

/-!
What a cleared tag leaves. `ClearHandlersWithTag` only knows the registry: jobs
that are posted, dispatches that looked their handler up, and guards that will
restore an old callback still have what was registered with the tag. Where none
of them does, nothing with the tag starts until it is registered again
(`clearing_final`).
-/
namespace IpcPortable.TagClearing
open IpcPortable.Runs IpcPortable.LittleEndian IpcPortable.DataStream IpcPortable.Packets IpcPortable.RawStrings
open IpcPortable.OrderedMaps IpcPortable.Signatures IpcPortable.ProcMaps IpcPortable.Dispatch IpcPortable.SharedEntries
open IpcPortable.Registries hiding run step Action
open IpcPortable.Workers

/-- Between the clearing of a tag and the start of something with that tag, the
    tag was registered again. -/
def Final (history : List Event) : Prop :=
  ∀ tag before between after, history = before ++ .cleared tag :: (between ++ .started tag :: after) →
    .registered tag ∈ between

/-- The callback cannot be called, or has another tag. -/
def Without (tag : Tag) (callback : Option Callback) : Prop :=
  ∀ some_callback, callback = some some_callback → some_callback.is_callable = true → some_callback.m_tag ≠ tag
/-- None of the effects has the tag. -/
def Free (tag : Tag) (effects : List Effect) : Prop := ∀ effect ∈ effects, heldTag effect ≠ some tag
/-- Nothing with the tag is in a dispatch, a job or a guard. -/
structure Unheld (tag : Tag) (w : World) : Prop where
  threads : ∀ t, ∀ frame ∈ w.threads t, Free tag frame.effects
  queues : ∀ t, ∀ job ∈ w.queues t, jobTag job ≠ some tag
  guards : ∀ guard m_old_handler, w.guards guard = some m_old_handler → Without tag m_old_handler
/-- A tag is only cleared when nothing else has it. -/
def Settled (w : World) : Worker × Action → Prop
  | (_,.call (.clearHandlersWithTag tag)) => Unheld tag w
  | _ => True

/-- Nothing with the tag is registered. -/
structure Unregistered (tag : Tag) (call_infos : CallInfos) (proc_map : ProcMap) : Prop where
  handlers : ∀ entry ∈ proc_map.m_name_procs, ∀ handler,
    (call_infos entry.2.call_info).isInvokable = some handler → handler.m_tag ≠ tag
  counts : Without tag proc_map.m_OnCallCountChanged
  errors : Without tag proc_map.m_OnInvalidRemoteCall
/-- Nothing with the tag is left. -/
structure Gone (tag : Tag) (w : World) : Prop where
  unregistered : Unregistered tag w.store.call_infos w.proc_map
  unheld : Unheld tag w

/-! ### The effects of dispatches and jobs -/

section effects
variable {tag : Tag}

theorem free_nil : Free tag [] := fun _ member => by cases member

theorem free_append {a b : List Effect} (first : Free tag a) (second : Free tag b) : Free tag (a ++ b) :=
  fun effect member => (List.mem_append.mp member).elim (first effect) (second effect)

theorem free_singleton {effect : Effect} (other : heldTag effect ≠ some tag) : Free tag [effect] :=
  fun _ member => List.mem_singleton.mp member ▸ other

theorem free_untagged {effect : Effect} (untagged : heldTag effect = none) : Free tag [effect] := by
  refine free_singleton ?_
  rw [untagged]
  exact nofun

theorem free_raised {effects : List Effect} (raised : ∀ {effect}, effect ∈ effects → effect = .raised) : Free tag effects := by
  intro effect member
  rw [raised member]
  exact nofun

theorem free_resultJobInvoke (transport : Option TransportShare) (result : Option Data) :
    Free tag (resultJobInvoke transport result) := by
  obtain ⟨effect,sent,rfl | rfl | ⟨packet,rfl⟩⟩ := resultJobInvoke_single transport result <;> rw [sent] <;>
    exact free_untagged rfl

theorem free_callJobInvoke {invoke_base : InvokeRemote} (other : invoke_base.m_tag ≠ tag) (transport : Option TransportShare)
    (inter_thread : Option Transthread) (call_info_data : DataStream) (respond_id : CallId) :
    Free tag (callJobInvoke transport inter_thread call_info_data invoke_base respond_id) := by
  intro effect member
  have held : heldTag effect = some invoke_base.m_tag ∨ heldTag effect = none := by
    rcases callJobInvoke_effects member with ⟨_,rfl⟩ | rfl | rfl | ⟨_,rfl⟩ | ⟨_,_,rfl⟩
    · exact .inl rfl
    all_goals exact .inr rfl
  rcases held with tagged | untagged
  · exact fun same => other (Option.some.inj (tagged.symm.trans same))
  · intro same
    rw [untagged] at same
    cases same

theorem free_jobInvoke (w : World) {job : Job} (other : jobTag job ≠ some tag) : Free tag (jobInvoke w job) := by
  cases job with
  | countJob call_count_changed call_info => exact free_singleton other
  | errorJob error_occured arg => exact free_singleton other
  | callJob call_info_data respond_id invoke_base =>
    exact free_callJobInvoke (fun same => other (congrArg some same)) _ _ _ _
  | resultJob result => exact free_resultJobInvoke _ _

theorem free_sendErrorMessage {callback : Option Callback} (without : Without tag callback)
    (inter_thread_nullable : Option Transthread) (error_arg : ErrorArg) :
    Free tag (sendErrorMessage inter_thread_nullable callback error_arg) := by
  intro effect member
  obtain ⟨callback,installed,callable,rfl | rfl⟩ := sendErrorMessage_effects member
  · exact fun same => without callback installed callable (Option.some.inj same)
  · exact fun same => without callback installed callable (Option.some.inj same)

/-- What is found for a call has no tag that is not registered. -/
theorem findCallInfo_registered {call_infos : CallInfos} {proc_map : ProcMap} (unregistered : Unregistered tag call_infos proc_map)
    {proc_name params_type : RawString} {found : FindCallInfoRes}
    (result : findCallInfo call_infos proc_map proc_name params_type = some found) :
    (∀ handler, found.invoke_base = some handler → handler.m_tag ≠ tag) ∧ Without tag found.on_call_count_changed ∧
      Without tag found.on_invalid_remote_call := by
  obtain ⟨entry,searched,result⟩ := Option.bind_eq_some_iff.mp result
  cases entry with
  | none =>
    cases result
    exact ⟨nofun,nofun,unregistered.errors⟩
  | some entry =>
    cases result
    exact ⟨unregistered.handlers entry (keyFind_same searched).1,unregistered.counts,nofun⟩

/-- The analysis of a call leaves no tag that is not registered. -/
theorem analizeNames_registered {call_infos : CallInfos} {ipc : Internals}
    (unregistered : Unregistered tag call_infos ipc.m_proc_map) {names : Calls.DeserializedFindCallInfo}
    {invoke : AnalizeInvokeDataRes} {reported : List Effect}
    (result : analizeNames call_infos ipc names = some (invoke,reported)) :
    (∀ handler, invoke.invoke_base = some handler → handler.m_tag ≠ tag) ∧ Without tag invoke.on_call_count_changed ∧
      Free tag reported := by
  obtain ⟨found,searched,result⟩ := Option.bind_eq_some_iff.mp result
  obtain ⟨handlers,counts,errors⟩ := findCallInfo_registered unregistered searched
  have refused (error : ErrorType)
      (result : reportError_FindCallInfo names error found ipc.m_inter_thread_nullable = some (invoke,reported)) :
      (∀ handler, invoke.invoke_base = some handler → handler.m_tag ≠ tag) ∧ Without tag invoke.on_call_count_changed ∧
        Free tag reported := by
    obtain ⟨return_type,_,result⟩ := Option.bind_eq_some_iff.mp result
    obtain ⟨name,_,result⟩ := Option.bind_eq_some_iff.mp result
    obtain ⟨params_type,_,result⟩ := Option.bind_eq_some_iff.mp result
    cases result
    exact ⟨nofun,counts,free_sendErrorMessage errors _ _⟩
  split at result
  · rename_i handler _ base
    have accepted : (∀ other : InvokeRemote, some handler = some other → other.m_tag ≠ tag) ∧
        Without tag found.on_call_count_changed ∧ Free tag [] :=
      ⟨fun other same => handlers other (base.trans same),counts,free_nil⟩
    split at result
    · obtain ⟨same,_,result⟩ := Option.bind_eq_some_iff.mp result
      split at result
      · cases result
        exact accepted
      · exact refused _ result
    · cases result
      exact accepted
  · exact refused _ result

theorem free_countCall {invoke : AnalizeInvokeDataRes} (without : Without tag invoke.on_call_count_changed)
    (call_infos : CallInfos) (ipc : Internals) : Free tag (countCall call_infos ipc invoke).2 := by
  intro effect member
  obtain ⟨callback,call_info,installed,callable,⟨count,rfl⟩ | rfl⟩ := countCall_effects member
  · exact fun same => without callback installed callable (Option.some.inj same)
  · exact fun same => without callback installed callable (Option.some.inj same)

theorem free_invokeOrFail {invoke : AnalizeInvokeDataRes}
    (handlers : ∀ handler, invoke.invoke_base = some handler → handler.m_tag ≠ tag) (ipc : Internals)
    (transport : TransportShare) (call_info_data : DataStream) (id : CallId) :
    Free tag (invokeOrFail ipc transport call_info_data id invoke) := by
  unfold invokeOrFail
  split
  · rename_i handler base
    have other := handlers handler base
    dsimp only
    split
    · exact free_callJobInvoke other _ _ _ _
    · exact free_singleton fun same => other (Option.some.inj same)
  · split
    · split
      · refine free_append (free_raised raisedSince_raised) ?_
        split
        · exact free_untagged rfl
        · exact free_nil
      · exact free_nil
    · exact free_untagged rfl

/-- A dispatch starts and posts nothing with a tag that is not registered. -/
theorem free_invokeLocal {call_infos call_infos' : CallInfos} {ipc : Internals}
    (unregistered : Unregistered tag call_infos ipc.m_proc_map) {call_info_data : DataStream} {id : CallId}
    {effects : List Effect} (result : Dispatch.invokeLocal call_infos ipc call_info_data id = some (call_infos',effects)) :
    Free tag effects := by
  unfold Dispatch.invokeLocal at result
  split at result
  · cases result
    exact free_untagged rfl
  · obtain ⟨⟨invoke,reported,behind⟩,analized,result⟩ := Option.bind_eq_some_iff.mp result
    cases result
    obtain ⟨⟨invoke',reported'⟩,names,result⟩ := Option.bind_eq_some_iff.mp analized
    cases result
    obtain ⟨handlers,counts,errors⟩ := analizeNames_registered unregistered names
    refine free_append (free_append (free_append (free_raised raisedSince_raised) errors) ?_) ?_
    · exact free_countCall counts call_infos ipc
    · exact free_invokeOrFail handlers ipc _ _ id

/-- A dispatch only counts. -/
theorem invokeLocal_invokable {call_infos call_infos' : CallInfos} {ipc : Internals} {call_info_data : DataStream}
    {id : CallId} {effects : List Effect}
    (result : Dispatch.invokeLocal call_infos ipc call_info_data id = some (call_infos',effects)) (p : CallInfoPtr) :
    (call_infos' p).isInvokable = (call_infos p).isInvokable := by
  unfold Dispatch.invokeLocal at result
  split at result
  · cases result
    rfl
  · obtain ⟨⟨invoke,reported,behind⟩,_,result⟩ := Option.bind_eq_some_iff.mp result
    cases result
    dsimp only
    split
    · rename_i call_info _
      dsimp only
      by_cases counted : p = call_info
      · subst counted
        rw [Function.update_self]
        rfl
      · rw [Function.update_of_ne counted]
    · rfl

end effects

/-! ### The registry -/

section registry
variable {tag : Tag} {store : CallInfoStore} {proc_map : ProcMap}

/-- Only a handler that is accepted registers its tag. -/
theorem added_unregistered (unregistered : Unregistered tag store.call_infos proc_map) {signature : Signature}
    {invoke : Option InvokeRemote} {comment : List Byte}
    (other : .registered tag ∉ addedEvents invoke (addProcSignature store proc_map signature invoke comment).2.2) :
    Unregistered tag (addProcSignature store proc_map signature invoke comment).1.call_infos
      (addProcSignature store proc_map signature invoke comment).2.1 := by
  have adds := addProcSignature_adds store proc_map signature invoke comment
  generalize addProcSignature store proc_map signature invoke comment = added at adds other
  have accepted (handler : InvokeRemote) (p : CallInfoPtr) (same : invoke = some handler)
      (callable : handler.is_callable = true) (quiet : .registered tag ∉ addedEvents invoke (some p)) :
      handler.m_tag ≠ tag := by
    rintro rfl
    simp [addedEvents,same,callable] at quiet
  -- a handler that is found behind the operation is the new one, or an old one
  have found (base : CallInfoStore) (p q : CallInfoPtr) (handler : InvokeRemote)
      (quiet : .registered tag ∉ addedEvents invoke (some p))
      (installed : ((setCallable base p invoke).call_infos q).isInvokable = some handler) :
      handler.m_tag ≠ tag ∨ (base.call_infos q).isInvokable = some handler := by
    rcases setCallable_cases base p invoke with ⟨_,same⟩ | ⟨new,there,callable,same⟩
    · rw [same] at installed
      exact .inr installed
    · rw [same] at installed
      by_cases here : q = p
      · subst here
        rw [setInvoke_at] at installed
        obtain ⟨equal,_⟩ := isInvokable_some.mp installed
        cases equal
        exact .inl (accepted handler q there callable quiet)
      · rw [setInvoke_other _ _ _ here] at installed
        exact .inr installed
  cases adds with
  | creates absent =>
    refine ⟨fun entry member handler installed => ?_,unregistered.counts,unregistered.errors⟩
    rcases found _ _ _ handler other installed with new | old
    · exact new
    · by_cases fresh : entry.2.call_info = store.made
      · rw [fresh,makeShared_new] at old
        cases old
      · rcases mem_insert_or member with rfl | before
        · exact absurd rfl fresh
        · rw [makeShared_other store _ fresh] at old
          exact unregistered.handlers entry before handler old
  | refuses => exact unregistered
  | @reuses call_data searched free =>
    refine ⟨fun entry member handler installed => ?_,unregistered.counts,unregistered.errors⟩
    rcases found _ _ _ handler other installed with new | old
    · exact new
    · obtain ⟨before,there,rfl⟩ := List.mem_map.mp member
      have own : ∃ entry ∈ proc_map.m_name_procs, (store.call_infos entry.2.call_info).isInvokable = some handler := by
        by_cases same : before.1 = signature
        · rw [if_pos same] at old
          exact ⟨_,(lookup_eq_some proc_map.sorted).mp searched,old⟩
        · rw [if_neg same] at old
          exact ⟨before,there,old⟩
      obtain ⟨entry,inside,kept⟩ := own
      exact unregistered.handlers entry inside handler kept

theorem without_clear {callback : Option Callback} (without : Without tag callback) (other : Tag) :
    Without tag (clearCallbackTag callback other) := by
  intro some_callback present callable
  unfold clearCallbackTag at present
  split at present
  · rename_i callback
    split at present
    · cases present
    · exact without some_callback present callable
  · cases present

theorem cleared_without (callback : Option Callback) : Without tag (clearCallbackTag callback tag) := by
  intro some_callback present _
  unfold clearCallbackTag at present
  split at present
  · split at present
    · cases present
    · rename_i other
      cases present
      exact other
  · cases present

/-- Clearing a tag registers nothing. -/
theorem clear_unregistered (unregistered : Unregistered tag store.call_infos proc_map) (other : Tag) :
    Unregistered tag store.call_infos (clearProcsWithTag store proc_map other) where
  handlers entry member := unregistered.handlers entry (List.mem_filter.mp member).1
  counts := without_clear unregistered.counts other
  errors := without_clear unregistered.errors other

/-- A tag that is cleared is not registered. -/
theorem cleared_unregistered (tag : Tag) (store : CallInfoStore) (proc_map : ProcMap) :
    Unregistered tag store.call_infos (clearProcsWithTag store proc_map tag) where
  handlers entry member handler installed := by
    have untagged := (List.mem_filter.mp member).2
    rintro rfl
    simp [hasTag,installed] at untagged
  counts := cleared_without _
  errors := cleared_without _

theorem set_without {new_val : Option Callback} (other : .registered tag ∉ setEvents new_val) : Without tag new_val := by
  rintro callback rfl callable rfl
  simp [setEvents,callable] at other

end registry

/-! ### One step -/

/-- What a step does to the tags: nothing starts that is gone, and a tag that is
    cleared is gone. -/
def Keeps (w w' : World) : Prop :=
  ∃ happened, w'.history = w.history ++ happened ∧ happened.length ≤ 1 ∧
    (∀ tag, .cleared tag ∈ happened → Gone tag w') ∧
    ∀ tag, Gone tag w → .registered tag ∉ happened → Gone tag w' ∧ .started tag ∉ happened

/-- A step that is not recorded. -/
theorem quiet_keeps {w w' : World} (same : w'.history = w.history) (gone : ∀ tag, Gone tag w → Gone tag w') : Keeps w w' :=
  ⟨[],by rw [same,List.append_nil],by simp,nofun,fun tag before _ => ⟨gone tag before,nofun⟩⟩

/-- A step that at most registers. -/
theorem registers_keeps {w w' : World} {happened : List Event} (same : w'.history = w.history ++ happened)
    (registers : happened.length ≤ 1 ∧ ∀ tag, .cleared tag ∉ happened ∧ .started tag ∉ happened)
    (gone : ∀ tag, Gone tag w → .registered tag ∉ happened → Gone tag w') : Keeps w w' := by
  obtain ⟨few,silent⟩ := registers
  refine ⟨happened,same,few,fun tag cleared => absurd cleared (silent tag).1,fun tag before other => ?_⟩
  exact ⟨gone tag before other,(silent tag).2⟩

theorem addedEvents_few (invoke : Option InvokeRemote) (added : Option CallInfoPtr) :
    (addedEvents invoke added).length ≤ 1 ∧ ∀ tag, .cleared tag ∉ addedEvents invoke added ∧ .started tag ∉ addedEvents invoke added := by
  unfold addedEvents
  split
  · split <;> simp
  · simp

theorem setEvents_few (new_val : Option Callback) :
    (setEvents new_val).length ≤ 1 ∧ ∀ tag, .cleared tag ∉ setEvents new_val ∧ .started tag ∉ setEvents new_val := by
  unfold setEvents
  split
  · split <;> simp
  · simp

section update
variable {ι β : Type} [DecidableEq ι] {P : β → Prop}

/-- One of the lists is replaced. -/
theorem update_lists {lists : ι → List β} (each : ∀ i, ∀ b ∈ lists i, P b) (i : ι) {list : List β} (here : ∀ b ∈ list, P b) :
    ∀ j, ∀ b ∈ Function.update lists i list j, P b :=
  (Function.forall_update_iff lists fun _ list => ∀ b ∈ list, P b).mpr ⟨here,fun j _ => each j⟩

/-- One of the values is replaced. -/
theorem update_values {values : ι → Option β} (each : ∀ i b, values i = some b → P b) (i : ι) {value : Option β}
    (here : ∀ b, value = some b → P b) : ∀ j b, Function.update values i value j = some b → P b :=
  (Function.forall_update_iff values fun _ value => ∀ b, value = some b → P b).mpr ⟨here,fun j _ => each j⟩

end update

/-- The frame of a thread that is begun. -/
theorem push_unheld {tag : Tag} {w : World} (unheld : Unheld tag w) (t : Worker) {effects : List Effect}
    (free : Free tag effects) : Unheld tag (w.push t effects) where
  threads := update_lists unheld.threads t (List.forall_mem_cons.mpr ⟨free,unheld.threads t⟩)
  queues := unheld.queues
  guards := unheld.guards

theorem operate_keeps {w w' : World} {t : Worker} {operation : Operation} (settled : Settled w (t,.call operation))
    (operated : operate w t operation = some w') : Keeps w w' := by
  cases operation with
  | addProcSignature signature invoke comment =>
    cases operated
    refine registers_keeps rfl (addedEvents_few invoke _) fun tag gone other => ?_
    exact ⟨added_unregistered gone.unregistered other,⟨gone.unheld.threads,gone.unheld.queues,gone.unheld.guards⟩⟩
  | setCallCountChanged new_val =>
    cases operated
    refine registers_keeps rfl (setEvents_few new_val) fun tag gone other => ?_
    exact ⟨⟨gone.unregistered.handlers,set_without other,gone.unregistered.errors⟩,
      ⟨gone.unheld.threads,gone.unheld.queues,gone.unheld.guards⟩⟩
  | setErrorHandler new_val =>
    cases operated
    refine registers_keeps rfl (setEvents_few new_val) fun tag gone other => ?_
    exact ⟨⟨gone.unregistered.handlers,gone.unregistered.counts,set_without other⟩,
      ⟨gone.unheld.threads,gone.unheld.queues,gone.unheld.guards⟩⟩
  | guardBegins guard handler =>
    unfold operate at operated
    dsimp only at operated
    split at operated
    · cases operated
      refine registers_keeps rfl (setEvents_few handler) fun tag gone other => ?_
      -- the guard has the callback that was registered
      have held : ∀ callback, some w.proc_map.m_OnCallCountChanged = some callback → Without tag callback :=
        fun callback same => Option.some.inj same ▸ gone.unregistered.counts
      exact ⟨⟨gone.unregistered.handlers,set_without other,gone.unregistered.errors⟩,
        ⟨gone.unheld.threads,gone.unheld.queues,update_values gone.unheld.guards guard held⟩⟩
    · cases operated
  | guardEnds guard =>
    obtain ⟨m_old_handler,there,rfl⟩ := Option.map_eq_some_iff.mp operated
    refine quiet_keeps rfl fun tag gone => ?_
    exact ⟨⟨gone.unregistered.handlers,gone.unheld.guards guard m_old_handler there,gone.unregistered.errors⟩,
      ⟨gone.unheld.threads,gone.unheld.queues,update_values gone.unheld.guards guard nofun⟩⟩
  | clearHandlersWithTag tag =>
    cases operated
    refine ⟨_,rfl,Nat.le_refl 1,fun other cleared => ?_,fun other gone _ => ⟨?_,by simp⟩⟩
    · obtain rfl : other = tag := by simpa using cleared
      exact ⟨cleared_unregistered other w.store w.proc_map,⟨settled.threads,settled.queues,settled.guards⟩⟩
    · exact ⟨clear_unregistered gone.unregistered tag,⟨gone.unheld.threads,gone.unheld.queues,gone.unheld.guards⟩⟩
  | invokeLocal call_info_data id =>
    obtain ⟨⟨call_infos,effects⟩,dispatched,rfl⟩ := Option.map_eq_some_iff.mp operated
    refine quiet_keeps rfl fun tag gone => ⟨⟨?_,gone.unregistered.counts,gone.unregistered.errors⟩,?_⟩
    · intro entry member handler installed
      exact gone.unregistered.handlers entry member handler ((invokeLocal_invokable dispatched _).symm.trans installed)
    · have free := free_invokeLocal gone.unregistered dispatched
      refine push_unheld ?_ t free
      exact ⟨gone.unheld.threads,gone.unheld.queues,gone.unheld.guards⟩
  | runJob =>
    unfold operate at operated
    dsimp only at operated
    split at operated
    · cases operated
    · rename_i job rest queue
      cases operated
      refine quiet_keeps rfl fun tag gone => ⟨gone.unregistered,?_⟩
      have waiting := gone.unheld.queues t
      rw [queue] at waiting
      obtain ⟨first,behind⟩ := List.forall_mem_cons.mp waiting
      refine push_unheld ?_ t (free_jobInvoke w first)
      exact ⟨gone.unheld.threads,update_lists gone.unheld.queues t behind,gone.unheld.guards⟩

/-- What starts is recorded. -/
theorem start_keeps {w v : World} {effect : Effect} (same : v.history = w.history) (gone : ∀ tag, Gone tag w → Gone tag v)
    (other : ∀ tag, Gone tag w → startTag effect ≠ some tag) :
    Keeps w { v with history := v.history ++ (startTag effect).toList.map .started } := by
  refine ⟨(startTag effect).toList.map .started,by rw [same],?_,?_,?_⟩
  · cases startTag effect <;> simp
  · intro tag cleared
    cases started : startTag effect <;> simp [started] at cleared
  · intro tag before _
    refine ⟨⟨(gone tag before).unregistered,?_⟩,?_⟩
    · have unheld := (gone tag before).unheld
      exact ⟨unheld.threads,unheld.queues,unheld.guards⟩
    · intro member
      obtain ⟨started,here,equal⟩ := List.mem_map.mp member
      cases equal
      exact other tag before (Option.mem_toList.mp here)

/-- A job is posted or run at once, or something starts. -/
theorem perform_keeps {w v : World} {t : Worker} {effect : Effect} (same : v.history = w.history)
    (gone : ∀ tag, Gone tag w → Gone tag v) (held : ∀ tag, Gone tag w → heldTag effect ≠ some tag) :
    Keeps w (perform v t effect) := by
  cases effect with
  | posted thread_id job =>
    cases thread_id with
    | none =>
      refine quiet_keeps same fun tag before => ⟨(gone tag before).unregistered,?_⟩
      exact push_unheld (gone tag before).unheld t (free_jobInvoke v (held tag before))
    | some thread_id =>
      refine quiet_keeps same fun tag before => ⟨(gone tag before).unregistered,?_⟩
      have unheld := (gone tag before).unheld
      refine ⟨unheld.threads,update_lists unheld.queues thread_id ?_,unheld.guards⟩
      intro posted member
      rcases List.mem_append.mp member with old | new
      · exact unheld.queues thread_id posted old
      · exact List.mem_singleton.mp new ▸ held tag before
  | _ => exact start_keeps same gone held

theorem step_keeps {w w' : World} {action : Worker × Action} (settled : Settled w action)
    (stepped : step w action = some w') : Keeps w w' := by
  obtain ⟨t,action⟩ := action
  cases action with
  | call operation =>
    unfold step at stepped
    dsimp only at stepped
    split at stepped
    · exact operate_keeps settled stepped
    · cases stepped
  | next =>
    unfold step at stepped
    dsimp only at stepped
    split at stepped
    · cases stepped
    · rename_i user below running
      cases stepped
      refine quiet_keeps rfl fun tag gone => ⟨gone.unregistered,⟨?_,gone.unheld.queues,gone.unheld.guards⟩⟩
      have frames := gone.unheld.threads t
      rw [running] at frames
      exact update_lists gone.unheld.threads t (List.forall_mem_cons.mp frames).2
    · rename_i effect rest user below running
      cases stepped
      have frames (tag : Tag) (gone : Gone tag w) : heldTag effect ≠ some tag ∧ Free tag rest ∧
          ∀ frame ∈ below, Free tag frame.effects := by
        have all := gone.unheld.threads t
        rw [running] at all
        obtain ⟨top,others⟩ := List.forall_mem_cons.mp all
        obtain ⟨first,behind⟩ := List.forall_mem_cons.mp top
        exact ⟨first,behind,others⟩
      refine perform_keeps rfl (fun tag gone => ?_) fun tag gone => (frames tag gone).1
      obtain ⟨_,behind,others⟩ := frames tag gone
      refine ⟨gone.unregistered,⟨?_,gone.unheld.queues,gone.unheld.guards⟩⟩
      exact update_lists gone.unheld.threads t (List.forall_mem_cons.mpr ⟨behind,others⟩)

/-! ### Every run -/

/-- The tag was cleared, and not registered since. -/
def Cleared (tag : Tag) (history : List Event) : Prop :=
  ∃ before between, history = before ++ .cleared tag :: between ∧ .registered tag ∉ between
/-- What is cleared is gone. -/
structure Kept (w : World) : Prop where
  gone : ∀ tag, Cleared tag w.history → Gone tag w
  final : Final w.history

/-- One more thing happened. -/
theorem cleared_concat {tag : Tag} {history : List Event} {event : Event} (cleared : Cleared tag (history ++ [event])) :
    event = .cleared tag ∨ Cleared tag history ∧ event ≠ .registered tag := by
  obtain ⟨before,between,split,quiet⟩ := cleared
  rcases List.eq_nil_or_concat between with rfl | ⟨between,last,rfl⟩
  · obtain ⟨_,same⟩ := List.append_inj' split rfl
    cases same
    exact .inl rfl
  · rw [List.concat_eq_append,← List.cons_append,← List.append_assoc] at split
    obtain ⟨old,same⟩ := List.append_inj' split rfl
    cases same
    refine .inr ⟨⟨before,between,old,fun member => quiet ?_⟩,?_⟩
    · rw [List.concat_eq_append]
      exact List.mem_append_left _ member
    · rintro rfl
      simp at quiet

theorem final_concat {history : List Event} {event : Event} (final : Final history)
    (other : ∀ tag, event = .started tag → ¬ Cleared tag history) : Final (history ++ [event]) := by
  intro tag before between after split
  rcases List.eq_nil_or_concat after with rfl | ⟨after,last,rfl⟩
  · rw [← List.cons_append,← List.append_assoc] at split
    obtain ⟨old,same⟩ := List.append_inj' split rfl
    cases same
    refine Classical.byContradiction fun quiet => ?_
    exact other tag rfl ⟨before,between,old,quiet⟩
  · refine final tag before between after ?_
    rw [List.concat_eq_append,← List.cons_append,← List.append_assoc,← List.cons_append,← List.append_assoc] at split
    have earlier := (List.append_inj' split rfl).1
    rwa [List.append_assoc,List.cons_append] at earlier

theorem keeps_kept {w w' : World} (kept : Kept w) (keeps : Keeps w w') : Kept w' := by
  obtain ⟨happened,history,few,cleared,gone⟩ := keeps
  cases happened with
  | nil =>
    rw [List.append_nil] at history
    refine ⟨fun tag before => ?_,history ▸ kept.final⟩
    rw [history] at before
    exact (gone tag (kept.gone tag before) nofun).1
  | cons event rest =>
    obtain rfl : rest = [] := List.length_eq_zero_iff.mp (by simpa using few)
    refine ⟨fun tag behind => ?_,?_⟩
    · rw [history] at behind
      rcases cleared_concat behind with rfl | ⟨before,other⟩
      · exact cleared tag (List.mem_singleton.mpr rfl)
      · exact (gone tag (kept.gone tag before) fun member => other (List.mem_singleton.mp member).symm).1
    · rw [history]
      refine final_concat kept.final ?_
      rintro tag rfl before
      exact (gone tag (kept.gone tag before) (by simp)).2 (List.mem_singleton.mpr rfl)

theorem initial_kept (transport : Option TransportShare) (inter_thread : Option Transthread) :
    Kept { transport, inter_thread } where
  gone tag cleared := by
    obtain ⟨before,between,split,_⟩ := cleared
    simp at split
  final tag before between after split := by simp at split

/-- In every run that clears a tag only when no job, dispatch or guard has it,
    nothing with a cleared tag starts until the tag is registered again. -/
theorem clearing_final (transport : Option TransportShare) (inter_thread : Option Transthread)
    {actions : List (Worker × Action)} (settled : Along step Settled { transport, inter_thread } actions) :
    Final (run step { transport, inter_thread } actions).history := by
  have kept : Kept (run step { transport, inter_thread } actions) :=
    settled.run (fun _ _ _ kept settled stepped => keeps_kept kept (step_keeps settled stepped))
      (initial_kept transport inter_thread)
  exact kept.final

/-- The packet of a call of `f` behind its header. -/
def callPlain : DataStream := .ofRead ⟨[1,0,0,0,102,0,0,0,0,0,0,0,0,0],by decide⟩
/-- A handler of `f` that runs in thread 1, with the tag 7. -/
def taggedHandler : InvokeRemote := { plainHandler with m_thread_id := some 1, m_tag := 7 }
/-- A handler of another procedure, with the tag 9. -/
def otherHandler : InvokeRemote := { plainHandler with m_tag := 9 }
/-- The call of the first procedure is posted to thread 1. -/
def postsCall : List (Worker × Action) :=
  [(1,.call (.addProcSignature plain (some taggedHandler) [])),(1,.call (.addProcSignature ⟨[103],[]⟩ (some otherHandler) [])),
    (0,.call (.invokeLocal callPlain 1)),(0,.next)]
/-- Then thread 1 clears the tag of the other one, and runs the job. -/
def clearsOther : List (Worker × Action) := [(1,.call (.clearHandlersWithTag 9)),(1,.call .runJob),(1,.next)]

/-- The tag 9 is not held while the job with the tag 7 is queued. -/
theorem postsCall_unheld :
    Unheld 9 (run step { transport := some (proxyTransport fun _ => 0), inter_thread := some ⟨none⟩ } postsCall) where
  threads t frame member := by
    cases t with
    | zero =>
      have finished : ((run step { transport := some (proxyTransport fun _ => 0), inter_thread := some ⟨none⟩ }
          postsCall).threads 0).all (fun frame => frame.effects.isEmpty) = true := by decide +kernel
      have none := List.isEmpty_iff.mp (List.all_eq_true.mp finished frame member)
      rw [Free,none]
      exact fun _ missing => (List.not_mem_nil missing).elim
    | succ t => cases member
  queues t job member := by
    match t with
    | 0 => cases member
    | 1 =>
      have queued : ((run step { transport := some (proxyTransport fun _ => 0), inter_thread := some ⟨none⟩ }
          postsCall).queues 1).map jobTag = [some 7] := by decide +kernel
      have tag : jobTag job ∈ _ := List.mem_map.mpr ⟨job,member,rfl⟩
      rw [queued] at tag
      rw [List.mem_singleton.mp tag]
      decide
    | t + 2 => cases member
  guards guard m_old_handler there := by cases there

/-- A tag is cleared while a job with another one is queued. -/
theorem clearing_final_queued :
    Final (run step { transport := some (proxyTransport fun _ => 0), inter_thread := some ⟨none⟩ }
      (postsCall ++ clearsOther)).history := by
  refine clearing_final (some (proxyTransport fun _ => 0)) (some ⟨none⟩) (along_append.mpr ⟨?_,?_⟩)
  · exact ⟨fun _ => trivial,fun _ => trivial,fun _ => trivial,fun _ => trivial,trivial⟩
  · exact ⟨fun _ => postsCall_unheld,fun _ => trivial,fun _ => trivial,trivial⟩

/-- The call is posted to thread 1, which clears the tag before it runs the job. -/
def clearsFirst : List (Worker × Action) :=
  [(1,.call (.addProcSignature plain (some taggedHandler) [])),(0,.call (.invokeLocal callPlain 1)),(0,.next),
    (1,.call (.clearHandlersWithTag 7)),(1,.call .runJob),(1,.next)]

theorem clearing_outlived :
    ¬ ∀ (transport : Option TransportShare) (inter_thread : Option Transthread) (actions : List (Worker × Action)),
      Final (run step { transport, inter_thread } actions).history := by
  intro final
  have posted : (run step { transport := some (proxyTransport fun _ => 0), inter_thread := some ⟨none⟩ } clearsFirst).history =
      [.registered 7,.cleared 7,.started 7] := by
    decide +kernel
  have registered := final (some (proxyTransport fun _ => 0)) (some ⟨none⟩) clearsFirst 7 [.registered 7] [] [] posted
  cases registered

end IpcPortable.TagClearing
