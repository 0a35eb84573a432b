import IpcPortable.RegistryRuns
import IpcPortable.Dispatch

/-!
`ClearProcsWithTag` as it runs: one loop that erases an entry where the iterator
stands, or moves the iterator on. It comes to the end, and what it leaves are the
entries without a callable handler of the tag (`clear_exact`).
-/
namespace IpcPortable.ClearedTags
open IpcPortable.LittleEndian IpcPortable.RawStrings IpcPortable.OrderedMaps IpcPortable.Signatures IpcPortable.ProcMaps
open IpcPortable.Calls IpcPortable.Registries IpcPortable.RegistryRuns IpcPortable.Dispatch
variable {ρ : Type}

/-! ### The loop -/

/-- `erase` of the entry where the iterator stands; the iterator then stands
    before the one behind it. -/
def eraseAt (proc_map : ProcMap) (it : Nat) : ProcMap where
  m_name_procs := proc_map.m_name_procs.eraseIdx it
  sorted := proc_map.sorted.sublist (List.eraseIdx_sublist ..)
  m_OnCallCountChanged := proc_map.m_OnCallCountChanged
  m_OnInvalidRemoteCall := proc_map.m_OnInvalidRemoteCall
/-- The loop of `ClearProcsWithTag`, with the place of its iterator. -/
def clearLoop (store : CallInfoStore) (tag : Tag) : Nat → ProcMap → Nat → Option ProcMap
  | 0, _, _ => none
  | rounds + 1, proc_map, it =>
    match proc_map.m_name_procs[it]? with
    | none => some proc_map
    | some entry =>
      if hasTag store tag entry.2.call_info then clearLoop store tag rounds (eraseAt proc_map it) it
      else clearLoop store tag rounds proc_map (it + 1)
/-- `ClearProcsWithTag` in so many rounds of its loop. -/
def clearProcsRounds (rounds : Nat) (store : CallInfoStore) (proc_map : ProcMap) (tag : Tag) : Option ProcMap := do
  let proc_map ← clearLoop store tag rounds proc_map 0
  pure { proc_map with
    m_OnCallCountChanged := clearCallbackTag proc_map.m_OnCallCountChanged tag
    m_OnInvalidRemoteCall := clearCallbackTag proc_map.m_OnInvalidRemoteCall tag }

theorem drop_eraseIdx {α : Type} {entries : List α} {it : Nat} {entry : α} (here : entries[it]? = some entry) :
    entries.drop it = entry :: entries.drop (it + 1) ∧ (entries.eraseIdx it).take it = entries.take it ∧
      (entries.eraseIdx it).drop it = entries.drop (it + 1) := by
  obtain ⟨inside,rfl⟩ := List.getElem?_eq_some_iff.mp here
  refine ⟨List.drop_eq_getElem_cons inside,?_,?_⟩
  · rw [List.eraseIdx_eq_take_drop_succ,List.take_append_of_le_length (by simp; omega),List.take_take,Nat.min_self]
  · rw [List.eraseIdx_eq_take_drop_succ,List.drop_append_of_le_length (by simp; omega)]
    simp

/-- Every round either erases an entry or passes it, so that the loop ends, and
    what lies before the iterator stays. -/
theorem clearLoop_filter (store : CallInfoStore) (tag : Tag) {rounds : Nat} (proc_map : ProcMap) (it : Nat)
    (enough : proc_map.m_name_procs.length - it < rounds) :
    ∃ cleared, clearLoop store tag rounds proc_map it = some cleared ∧
      cleared.m_name_procs = proc_map.m_name_procs.take it ++
        (proc_map.m_name_procs.drop it).filter (fun entry => !hasTag store tag entry.2.call_info) ∧
      cleared.m_OnCallCountChanged = proc_map.m_OnCallCountChanged ∧
      cleared.m_OnInvalidRemoteCall = proc_map.m_OnInvalidRemoteCall := by
  induction rounds generalizing proc_map it with
  | zero => exact absurd enough (Nat.not_lt_zero _)
  | succ rounds ih =>
    unfold clearLoop
    cases here : proc_map.m_name_procs[it]? with
    | none =>
      have ended := List.getElem?_eq_none_iff.mp here
      exact ⟨proc_map,rfl,by simp [List.take_of_length_le ended,List.drop_of_length_le ended],rfl,rfl⟩
    | some entry =>
      obtain ⟨inside,_⟩ := List.getElem?_eq_some_iff.mp here
      obtain ⟨behind,kept,erased⟩ := drop_eraseIdx here
      dsimp only
      by_cases tagged : hasTag store tag entry.2.call_info
      · rw [if_pos tagged]
        have shorter : (eraseAt proc_map it).m_name_procs.length - it < rounds := by
          simp only [eraseAt,List.length_eraseIdx_of_lt inside]
          omega
        obtain ⟨cleared,result,entries,counts,errors⟩ := ih (eraseAt proc_map it) it shorter
        refine ⟨cleared,result,?_,counts,errors⟩
        rw [entries,behind,List.filter_cons_of_neg (by simp [tagged])]
        simp only [eraseAt,kept,erased]
      · rw [if_neg tagged]
        obtain ⟨cleared,result,entries,counts,errors⟩ := ih proc_map (it + 1) (by omega)
        refine ⟨cleared,result,?_,counts,errors⟩
        have passed : proc_map.m_name_procs.take (it + 1) = proc_map.m_name_procs.take it ++ [entry] := by
          rw [List.take_add_one,here,Option.toList_some]
        rw [entries,behind,List.filter_cons_of_pos (by simp [tagged]),passed,List.append_assoc]
        rfl

/-- The loop leaves what `clearProcsWithTag` says. -/
theorem clearProcsRounds_filter {rounds : Nat} (store : CallInfoStore) (proc_map : ProcMap) (tag : Tag)
    (enough : proc_map.m_name_procs.length < rounds) :
    clearProcsRounds rounds store proc_map tag = some (clearProcsWithTag store proc_map tag) := by
  obtain ⟨⟨entries,sorted,counts,errors⟩,result,same,rfl,rfl⟩ :=
    clearLoop_filter store tag proc_map 0 enough
  simp only [List.take_zero,List.nil_append,List.drop_zero] at same
  subst same
  unfold clearProcsRounds
  rw [result]
  rfl

/-! ### What is left -/

theorem hasTag_iff {store : CallInfoStore} {tag : Tag} {call_info : CallInfoPtr} :
    hasTag store tag call_info = true ↔
      ∃ handler, (store.call_infos call_info).isInvokable = some handler ∧ handler.m_tag = tag := by
  unfold hasTag
  cases (store.call_infos call_info).isInvokable with
  | none => simp
  | some invoke_base => simp

theorem clearCallbackTag_iff {member : Option Callback} {tag : Tag} {callback : Callback} :
    clearCallbackTag member tag = some callback ↔ member = some callback ∧ callback.m_tag ≠ tag := by
  unfold clearCallbackTag
  cases member with
  | none => simp
  | some installed =>
    by_cases same : installed.m_tag = tag
    · simp only [same,if_true,reduceCtorEq,false_iff]
      rintro ⟨equal,other⟩
      cases equal
      exact other same
    · simp only [same,if_false,Option.some.injEq]
      exact ⟨fun equal => ⟨equal,equal ▸ same⟩,And.left⟩

/-- The registry has a callable handler of the tag for the signature. -/
def Tagged (s : State ρ) (r : ρ) (tag : Tag) (signature : Signature) : Prop :=
  ∃ handler, Callable s.store.call_infos (s.proc_maps r) signature handler ∧ handler.m_tag = tag
/-- Every call with the signature is refused, since nothing has its name and parameters. -/
def Rejects (call_infos : CallInfos) (proc_map : ProcMap) (signature : Signature) : Prop :=
  ∀ ipc : Internals, ipc.m_proc_map = proc_map → ∀ found send_return return_type,
    Names found signature.name send_return return_type signature.params_type →
    ∃ invoke reported, analizeNames call_infos ipc found = some (invoke,reported) ∧ invoke.invoke_base = none ∧
      invoke.error_arg = some ⟨no_matching_call_name_parameters,errorMessage return_type signature.name signature.params_type⟩
/-- A call with the signature finds the same call info and the same handler. -/
def SameHandler (s s' : State ρ) (r : ρ) (signature : Signature) : Prop :=
  ∀ proc_name params_type, SignatureKey.Holds ⟨proc_name,params_type⟩ signature →
    ∃ before after, findCallInfo s.store.call_infos (s.proc_maps r) proc_name params_type = some before ∧
      findCallInfo s'.store.call_infos (s'.proc_maps r) proc_name params_type = some after ∧
      after.call_info = before.call_info ∧ after.invoke_base = before.invoke_base
/-- What the clearing of a tag leaves. -/
structure Cleared (s s' : State ρ) (self : ρ) (tag : Tag) : Prop where
  loop : ∀ rounds, (s.proc_maps self).m_name_procs.length < rounds →
    clearProcsRounds rounds s.store (s.proc_maps self) tag = some (s'.proc_maps self)
  entries : ∀ entry, entry ∈ (s'.proc_maps self).m_name_procs ↔ entry ∈ (s.proc_maps self).m_name_procs ∧
    ∀ handler, (s.store.call_infos entry.2.call_info).isInvokable = some handler → handler.m_tag ≠ tag
  store : s'.store = s.store
  others : ∀ r, r ≠ self → s'.proc_maps r = s.proc_maps r
  counts : ∀ callback, (s'.proc_maps self).m_OnCallCountChanged = some callback ↔
    (s.proc_maps self).m_OnCallCountChanged = some callback ∧ callback.m_tag ≠ tag
  errors : ∀ callback, (s'.proc_maps self).m_OnInvalidRemoteCall = some callback ↔
    (s.proc_maps self).m_OnInvalidRemoteCall = some callback ∧ callback.m_tag ≠ tag
  removed : ∀ signature, Tagged s self tag signature → Rejects s'.store.call_infos (s'.proc_maps self) signature
  kept : ∀ signature, ¬ Tagged s self tag signature → SameHandler s s' self signature

/-- Where no handler can be called, calls are refused for their name and parameters. -/
theorem rejects_uncallable {call_infos : CallInfos} {proc_map : ProcMap} {signature : Signature}
    (uncallable : ∀ handler, ¬ Callable call_infos proc_map signature handler) : Rejects call_infos proc_map signature := by
  rintro ipc rfl found send_return return_type names
  obtain ⟨invoke,reported,result,-,-,outcome⟩ := analizeNames_cases names call_infos ipc
  rcases outcome with ⟨handler,accepts,-⟩ | ⟨-,missing,error,refusal,arg⟩
  · exact absurd accepts.callable (uncallable handler)
  · rcases refusal with ⟨rfl,-⟩ | ⟨-,handler,callable⟩
    · exact ⟨invoke,reported,result,missing,arg⟩
    · exact absurd callable (uncallable handler)

/-- Registries with the same entry for a signature, or both without one, find the
    same handler. -/
theorem sameHandler_lookup {s s' : State ρ} {r : ρ} {signature : Signature} (store : s'.store = s.store)
    (same : lookup signature (s'.proc_maps r).m_name_procs = lookup signature (s.proc_maps r).m_name_procs) :
    SameHandler s s' r signature := by
  intro proc_name params_type holds
  have answer (t : State ρ) : ∃ found, findCallInfo t.store.call_infos (t.proc_maps r) proc_name params_type = some found ∧
      found.call_info = (lookup signature (t.proc_maps r).m_name_procs).map CallData.call_info ∧
      found.invoke_base = (lookup signature (t.proc_maps r).m_name_procs).bind fun call_data =>
        (t.store.call_infos call_data.call_info).isInvokable := by
    rcases findCallInfo_holds holds t.store.call_infos (t.proc_maps r) with ⟨entry,member,rfl,result⟩ | ⟨missing,result⟩
    · rw [(lookup_eq_some (t.proc_maps r).sorted).mpr member]
      exact ⟨_,result,rfl,rfl⟩
    · rw [(lookup_eq_none (t.proc_maps r).sorted).mpr fun value member => missing _ member rfl]
      exact ⟨_,result,rfl,rfl⟩
  obtain ⟨before,found,pointer,base⟩ := answer s
  obtain ⟨after,found',pointer',base'⟩ := answer s'
  rw [same] at pointer' base'
  rw [store] at base'
  exact ⟨before,after,found,found',pointer'.trans pointer.symm,base'.trans base.symm⟩

variable [DecidableEq ρ]

/-- `ClearProcsWithTag` ends, and removes exactly the callable handlers and the
    callbacks of the tag. -/
theorem clear_exact (s : State ρ) (self : ρ) (tag : Tag) : Cleared s (step s (.clearProcsWithTag self tag)) self tag := by
  have there : (step s (.clearProcsWithTag self tag)).proc_maps self = clearProcsWithTag s.store (s.proc_maps self) tag := by
    simp only [step,State.setMap,Function.update_self]
  have found (signature : Signature) : lookup signature (clearProcsWithTag s.store (s.proc_maps self) tag).m_name_procs =
      (lookup signature (s.proc_maps self).m_name_procs).filter fun call_data => !hasTag s.store tag call_data.call_info :=
    lookup_filter signature _ (s.proc_maps self).sorted
  refine ⟨?_,?_,rfl,?_,?_,?_,?_,?_⟩
  · intro rounds enough
    rw [there]
    exact clearProcsRounds_filter s.store (s.proc_maps self) tag enough
  · intro entry
    rw [there,clearProcsWithTag,List.mem_filter]
    simp only [Bool.not_eq_true',Bool.eq_false_iff,ne_eq,hasTag_iff,not_exists,not_and]
  · intro r other
    exact Function.update_of_ne other _ _
  · intro callback
    rw [there]
    exact clearCallbackTag_iff
  · intro callback
    rw [there]
    exact clearCallbackTag_iff
  · rintro signature ⟨handler,⟨entry,member,rfl,installed⟩,rfl⟩
    rw [there]
    refine rejects_uncallable ?_
    rintro other ⟨left,kept,same,-⟩
    obtain ⟨old,untagged⟩ := List.mem_filter.mp kept
    obtain rfl := entry_unique old member same
    have tagged : hasTag s.store handler.m_tag left.2.call_info = true :=
      hasTag_iff.mpr ⟨handler,isInvokable_some.mpr installed,rfl⟩
    rw [tagged] at untagged
    cases untagged
  · intro signature untagged
    refine sameHandler_lookup rfl ?_
    rw [there,found]
    cases own : lookup signature (s.proc_maps self).m_name_procs with
    | none => rfl
    | some call_data =>
      have other : hasTag s.store tag call_data.call_info = false := by
        refine Bool.eq_false_iff.mpr fun tagged => untagged ?_
        obtain ⟨handler,installed,same⟩ := hasTag_iff.mp tagged
        exact ⟨handler,⟨_,(lookup_eq_some (s.proc_maps self).sorted).mp own,rfl,isInvokable_some.mp installed⟩,same⟩
      simp [other]

end IpcPortable.ClearedTags
