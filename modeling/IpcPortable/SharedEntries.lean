import IpcPortable.RegistryRuns

/-!
What one registry notices of a handler that is added to another one. The two
may share a call info that has no callable handler yet, and the handler that
one of them adds to it is then found by the other one too. Nothing else is
noticed (`dispatches_unchanged`).
-/
namespace IpcPortable.SharedEntries
open IpcPortable.LittleEndian IpcPortable.RawStrings IpcPortable.OrderedMaps IpcPortable.Signatures IpcPortable.ProcMaps
open IpcPortable.Registries IpcPortable.RegistryRuns
variable {ρ : Type}

/-- Every `FindCallInfo` on the registry answers the same in both states. -/
def SameFound (s s' : State ρ) (a : ρ) : Prop :=
  ∀ proc_name params_type, findCallInfo s'.store.call_infos (s'.proc_maps a) proc_name params_type =
    findCallInfo s.store.call_infos (s.proc_maps a) proc_name params_type
/-- The registry `b` would set the handler of a call info that it shares with `a`. -/
def FillsShared (s : State ρ) (a b : ρ) (signature : Signature) (invoke : Option InvokeRemote) : Prop :=
  invokeCallable invoke = true ∧ ∃ call_info, HasEntry s b signature call_info ∧ HasEntry s a signature call_info ∧
    (s.store.call_infos call_info).isInvokable = none

/-- What is found depends on the handlers of the entries only. -/
theorem findCallInfo_congr {call_infos call_infos' : CallInfos} {proc_map : ProcMap}
    (same : ∀ entry ∈ proc_map.m_name_procs,
      (call_infos' entry.2.call_info).isInvokable = (call_infos entry.2.call_info).isInvokable)
    (proc_name params_type : RawString) :
    findCallInfo call_infos' proc_map proc_name params_type = findCallInfo call_infos proc_map proc_name params_type := by
  unfold findCallInfo
  cases found : ProcMaps.find ⟨proc_name,params_type⟩ proc_map.m_name_procs with
  | none => rfl
  | some entry =>
    cases entry with
    | none => rfl
    | some entry => simp only [Option.bind_eq_bind,Option.bind_some,same entry (keyFind_same found).1]

variable [DecidableEq ρ]

/-- The other registries keep their entries. -/
theorem add_others (s : State ρ) {a b : ρ} (apart : a ≠ b) (signature : Signature) (invoke : Option InvokeRemote)
    (comment : List Byte) :
    (step s (.addProcSignature b signature invoke comment)).proc_maps a = s.proc_maps a :=
  Function.update_of_ne apart _ _

/-- Where no shared call info is filled, all handlers of the entries stay. -/
theorem unfilled_invokable {s : State ρ} (consistent : Consistent s) {a b : ρ} {signature : Signature}
    {invoke : Option InvokeRemote} (unfilled : ¬ FillsShared s a b signature invoke) (comment : List Byte) {key : Signature}
    {call_info : CallInfoPtr} (entry : HasEntry s a key call_info) :
    ((step s (.addProcSignature b signature invoke comment)).store.call_infos call_info).isInvokable =
      (s.store.call_infos call_info).isInvokable := by
  have adds := addProcSignature_adds s.store (s.proc_maps b) signature invoke comment
  unfold step
  dsimp only
  generalize addProcSignature s.store (s.proc_maps b) signature invoke comment = added at adds
  cases adds with
  | creates absent =>
    have old := consistent.made a key call_info entry
    rw [setCallable_other _ _ _ (Nat.ne_of_lt old),makeShared_other s.store _ (Nat.ne_of_lt old)]
  | refuses => rfl
  | @reuses call_data found free =>
    by_cases shared : call_info = call_data.call_info
    · subst shared
      have own : HasEntry s b signature call_data.call_info := hasEntry_lookup.mpr ⟨call_data,found,rfl⟩
      obtain rfl : key = signature :=
        (consistent.signature a key _ entry).symm.trans (consistent.signature b signature _ own)
      have uncallable : invokeCallable invoke = false := by
        rcases free with free | uncallable
        · cases callable : invokeCallable invoke with
          | false => rfl
          | true => exact absurd ⟨callable,_,own,entry,free⟩ unfilled
        · exact uncallable
      rw [setCallable_uncallable _ _ _ uncallable]
    · rw [setCallable_other _ _ _ shared]

/-- The handler that fills a shared call info is what both registries find. -/
theorem filled_finds {s : State ρ} {a b : ρ} (apart : a ≠ b) {signature : Signature} {invoke : Option InvokeRemote}
    (filled : FillsShared s a b signature invoke) (comment : List Byte) :
    ∃ call_info handler, invoke = some handler ∧
      (HasEntry s a signature call_info ∧ (s.store.call_infos call_info).isInvokable = none) ∧
      Finds (step s (.addProcSignature b signature invoke comment)) b signature call_info handler ∧
      Finds (step s (.addProcSignature b signature invoke comment)) a signature call_info handler := by
  obtain ⟨callable,call_info,own,entry,free⟩ := filled
  obtain ⟨handler,rfl⟩ : ∃ handler, invoke = some handler := by
    cases invoke with
    | none => cases callable
    | some handler => exact ⟨handler,rfl⟩
  have answered : (addProcSignature s.store (s.proc_maps b) signature (some handler) comment).2.2 = some call_info := by
    rcases add_answers own (some handler) comment with ⟨both,_⟩ | ⟨_,answer⟩
    · obtain ⟨call_data,found,rfl⟩ := hasEntry_lookup.mp own
      exact absurd free ((callable_entry found).mp both.1)
    · exact answer
  have added := add_finds s b callable comment answered
  have there : HasEntry (step s (.addProcSignature b signature (some handler) comment)) a signature call_info := by
    unfold HasEntry
    rwa [add_others s apart]
  exact ⟨call_info,handler,rfl,⟨entry,free⟩,added,finds_entry there added.entry.2⟩

/-- What `a` finds changes when a shared call info is filled. -/
theorem filled_found {s : State ρ} {a b : ρ} (apart : a ≠ b) {signature : Signature} {invoke : Option InvokeRemote}
    (filled : FillsShared s a b signature invoke) (comment : List Byte) :
    ¬ SameFound s (step s (.addProcSignature b signature invoke comment)) a := by
  intro same
  obtain ⟨call_info,handler,_,⟨_,free⟩,_,finds⟩ := filled_finds apart filled comment
  have before : Finds s a signature call_info handler := by
    intro proc_name params_type holds
    have after := finds proc_name params_type holds
    rwa [same] at after
  rw [before.entry.2] at free
  cases free

/-- A handler that is added to one registry changes what another one finds
    exactly when the two share the call info and nobody set its handler: then
    both find the new handler there. -/
theorem dispatches_unchanged (actions : List (Action ρ)) {a b : ρ} (apart : a ≠ b) (signature : Signature)
    (invoke : Option InvokeRemote) (comment : List Byte) :
    (SameFound (run {} actions) (step (run {} actions) (.addProcSignature b signature invoke comment)) a ↔
      ¬ FillsShared (run {} actions) a b signature invoke) ∧
    (FillsShared (run {} actions) a b signature invoke → ∃ call_info handler, invoke = some handler ∧
      (HasEntry (run {} actions) a signature call_info ∧
        ((run {} actions).store.call_infos call_info).isInvokable = none) ∧
      Finds (step (run {} actions) (.addProcSignature b signature invoke comment)) b signature call_info handler ∧
      Finds (step (run {} actions) (.addProcSignature b signature invoke comment)) a signature call_info handler) := by
  have consistent := run_consistent actions (empty_consistent (ρ := ρ))
  generalize run {} actions = s at consistent
  refine ⟨⟨?_,?_⟩,fun filled => filled_finds apart filled comment⟩
  · intro same filled
    exact filled_found apart filled comment same
  · intro unfilled proc_name params_type
    rw [add_others s apart]
    refine findCallInfo_congr (fun entry member => ?_) proc_name params_type
    exact unfilled_invokable consistent unfilled comment ⟨entry,member,rfl,rfl⟩

/-- A procedure without parameters, and a handler for it. -/
def plain : Signature := ⟨[102],[]⟩
def plainHandler : InvokeRemote where
  params := []
  return_type := []
  m_del := .void

/-- The entries are copied before the handler is added. -/
theorem dispatches_unchanged_plain :
    SameFound (run {} [.addAllProcs false true])
      (step (run {} [.addAllProcs false true]) (.addProcSignature true plain (some plainHandler) [])) false := by
  refine (dispatches_unchanged [.addAllProcs false true] Bool.false_ne_true plain (some plainHandler) []).1.mpr ?_
  rintro ⟨_,call_info,⟨entry,member,_⟩,_⟩
  cases member

/-- The procedure is only declared when the entries are copied. -/
theorem dispatches_changed :
    ¬ ∀ (actions : List (Action Bool)) (signature : Signature) (invoke : Option InvokeRemote) (comment : List Byte),
      SameFound (run {} actions) (step (run {} actions) (.addProcSignature true signature invoke comment)) false := by
  intro isolated
  have filled : FillsShared (run {} [.addProcSignature true plain none [],.addAllProcs false true]) false true plain
      (some plainHandler) :=
    ⟨rfl,0,⟨_,List.mem_cons_self,rfl,rfl⟩,⟨_,List.mem_cons_self,rfl,rfl⟩,rfl⟩
  exact filled_found Bool.false_ne_true filled [] (isolated _ plain (some plainHandler) [])

end IpcPortable.SharedEntries
