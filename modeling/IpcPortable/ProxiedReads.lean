import IpcPortable.EndedThreads
import IpcPortable.PacketParser

/-!
`IpcQt_TransthreadTransportCopy`: a transport of another thread. `Read` makes a
closure that reads from the transport and stores the answer in a cell, posts it
to the thread of the transport, waits for the call and answers what is in the
cell. The wait also ends when the call is canceled, and then the closure may
still be in the queue, or run: `Read` answers `false`, and the bytes are read
from the transport all the same.
-/
namespace IpcPortable.ProxiedReads
open IpcPortable.LittleEndian IpcPortable.Runs IpcPortable.TransthreadCaller IpcPortable.CallOutcomes IpcPortable.EndedThreads
open IpcPortable.PacketParser (TransportCopy)
set_option linter.unusedSectionVars false
variable {Tid σ : Type} [DecidableEq Tid]

/-- A call of `Read`, by its number. -/
abbrev ReadId := Nat
/-- Where an `invoke_proc` is: before `transport->Read`, before `result->store`, and behind it. -/
inductive Progress
  | created
  | read (ok : Bool)
  | stored (ok : Bool)
deriving DecidableEq
/-- Where a `Read` is. -/
inductive Point
  /-- `CallFromThread` calls `invoke_proc` directly. -/
  | invoking
  /-- Before `m_inter_thread->CallFromThread`, and in it. -/
  | calling
  | posting
  /-- Before `call_waiter->WaitProcessing`, in it, and behind it. -/
  | called (w : WaiterPtr)
  | waiting (w : WaiterPtr)
  | waited (w : WaiterPtr)
  /-- Before `result->load`. -/
  | loading (call_waiter : Option WaiterPtr)
  | returned (answer : Bool)
deriving DecidableEq
/-- A call of `Read`, with how many frames its thread had when it began, and
    what was written to `data`. -/
structure ReadCall where
  data : List Byte := []
  size : Nat := 0
  invoke_proc : Progress := .created
  below : Nat := 0
  point : Point := .calling
def Progress.isStored : Progress → Bool
  | .stored _ => true
  | _ => false
/-- What is in the cell. -/
def ReadCall.result (r : ReadCall) : Bool :=
  match r.invoke_proc with
  | .stored ok => ok
  | _ => false

/-- The threads, the transport and the calls of `Read`: those of each thread
    that did not return yet, the innermost first, and which posted call has the
    closure of which. What each took from the transport is recorded. -/
structure Proxy (Tid σ : Type) where
  system : System Tid := {}
  m_transport : σ
  reads : ReadId → ReadCall := fun _ => {}
  next_read : ReadId := 0
  active : Tid → List ReadId := fun _ => []
  closures : WaiterPtr → Option ReadId := fun _ => none
  took : List (ReadId × List Byte) := []

def Proxy.atRead (s : Proxy Tid σ) (i : ReadId) (change : ReadCall → ReadCall) : Proxy Tid σ :=
  { s with reads := Function.update s.reads i (change (s.reads i)) }
def Proxy.goTo (s : Proxy Tid σ) (i : ReadId) (point : Point) : Proxy Tid σ := s.atRead i fun r => { r with point := point }
/-- What the call took. -/
def Proxy.tookBy (s : Proxy Tid σ) (i : ReadId) : List (List Byte) := (s.took.filter (·.1 = i)).map Prod.snd

/-- The `Read` whose code the thread runs: the innermost one, if it is in no call. -/
def Proxy.inControl (s : Proxy Tid σ) (t : Tid) : Option ReadId :=
  match s.active t with
  | i :: _ => if (s.reads i).below = (s.system.frames t).length then some i else none
  | [] => none
/-- The `Read` whose `invoke_proc` the thread runs. -/
def Proxy.running (s : Proxy Tid σ) (t : Tid) : Option ReadId :=
  match s.inControl t with
  | some i => if (s.reads i).point = .invoking then some i else none
  | none =>
    match s.system.frames t with
    | .body (some w) :: _ => s.closures w
    | _ => none
/-- The thread runs other code of the user, or nothing. -/
def Proxy.free (s : Proxy Tid σ) (t : Tid) : Bool :=
  ready (s.system.frames t) && (s.inControl t).isNone && (s.running t).isNone

/-- A step of `invoke_proc`. -/
def Proxy.invoke (transport : TransportCopy σ) (s : Proxy Tid σ) (i : ReadId) : Option (Proxy Tid σ) :=
  match (s.reads i).invoke_proc with
  | .created =>
    let read := transport.read s.m_transport (s.reads i).size
    some ({ s with m_transport := read.2.2, took := s.took ++ [(i,read.2.1)] }.atRead i fun r =>
      { r with invoke_proc := .read read.1, data := read.2.1 })
  | .read ok => some (s.atRead i fun r => { r with invoke_proc := .stored ok })
  | .stored _ => none
/-- What a `Read` does with `m_inter_thread`, and where it is then. The waiter is
    given up when `CallFromThread` returns. -/
def Point.calls (m_transport_thread_id : Option Tid) : Point → Option (TransthreadCaller.Action Tid × Point)
  | .calling => some (.start (.callFromThread m_transport_thread_id),.posting)
  | .called w => some (.start (.waitProcessing w),.waiting w)
  | .waited w => some (.release w,.loading (some w))
  | _ => none
/-- A step of a `Read` that is in no call. -/
def Proxy.proceed (m_transport_thread_id : Option Tid) (s : Proxy Tid σ) (t : Tid) (i : ReadId) : Option (Proxy Tid σ) :=
  match (s.reads i).point with
  | .invoking => if (s.reads i).invoke_proc.isStored then some (s.goTo i (.loading none)) else none
  | .loading _ => some ({ s with active := Function.update s.active t (s.active t).tail }.goTo i (.returned (s.reads i).result))
  | point => do
    let (action,next) ← point.calls m_transport_thread_id
    let system ← TransthreadCaller.step s.system (t,action)
    some ({ s with system := system }.goTo i next)
/-- A step of the topmost frame. In the section of `CallFromThread` the closure
    of the `Read` that called it gets its waiter, and the end of a wait returns
    to the `Read` that waits. -/
def Proxy.next (s : Proxy Tid σ) (t : Tid) (system : System Tid) : Proxy Tid σ :=
  match s.active t, s.system.frames t with
  | i :: _, frame :: below =>
    if (s.reads i).below = below.length then
      match frame, (s.reads i).point with
      | .post id, .posting =>
        let w := (s.system.caller.postCall t id).2.2
        { s with system := system, closures := Function.update s.closures w (some i) }.goTo i (.called w)
      | .wait v .leave, .waiting w =>
        if v = w then { s with system := system }.goTo i (.waited w) else { s with system := system }
      | _, _ => { s with system := system }
    else { s with system := system }
  | _, _ => { s with system := system }
/-- What the threads can do besides. `invoke_proc` calls nothing else, and only
    the `Read` has its waiter. -/
def Proxy.allows (s : Proxy Tid σ) (t : Tid) : TransthreadCaller.Action Tid → Bool
  | .start (.waitProcessing w) => s.free t && (s.closures w).isNone
  | .start _ => s.free t
  | .next => (s.inControl t).isNone &&
    match s.running t with
    | some i => (s.reads i).invoke_proc.isStored
    | none => true
  | .release w => (s.closures w).isNone
  | .destroy _ => true

inductive Action (Tid : Type)
  /-- `Read` is called. -/
  | read (size : Nat)
  | proceed
  | invoke
  /-- The transport is asked what is available. -/
  | poll
  | other (action : TransthreadCaller.Action Tid)
/-- `none` is `DirectCallPseudoId`. -/
def step (transport : TransportCopy σ) (m_transport_thread_id : Option Tid) (s : Proxy Tid σ) :
    Tid × Action Tid → Option (Proxy Tid σ)
  | (t,.read size) =>
    if s.free t then
      some { s with
        reads := Function.update s.reads s.next_read {
          size := size
          below := (s.system.frames t).length
          point := if m_transport_thread_id = some t ∨ m_transport_thread_id = none then .invoking else .calling }
        next_read := s.next_read + 1
        active := Function.update s.active t (s.next_read :: s.active t) }
    else none
  | (t,.proceed) => do s.proceed m_transport_thread_id t (← s.inControl t)
  | (t,.invoke) => do s.invoke transport (← s.running t)
  | (_,.poll) => some { s with m_transport := (transport.readBytesAvailable s.m_transport).2 }
  | (t,.other action) =>
    if s.allows t action then
      (TransthreadCaller.step s.system (t,action)).map fun system =>
        match action with
        | .next => s.next t system
        | _ => { s with system := system }
    else none

/-! ### The steps -/

/-- What a step can be. -/
inductive Stepped (transport : TransportCopy σ) (m_transport_thread_id : Option Tid) (s : Proxy Tid σ) (t : Tid) :
    Action Tid → Proxy Tid σ → Prop
  | read (size : Nat) (point : Point) (begins : point = .invoking ∨ point = .calling) :
      Stepped transport m_transport_thread_id s t (.read size) { s with
        reads := Function.update s.reads s.next_read {
          size := size
          below := (s.system.frames t).length
          point := point }
        next_read := s.next_read + 1
        active := Function.update s.active t (s.next_read :: s.active t) }
  | takes (i : ReadId) (runs : s.running t = some i) (created : (s.reads i).invoke_proc = .created) :
      Stepped transport m_transport_thread_id s t .invoke
        ({ s with
          m_transport := (transport.read s.m_transport (s.reads i).size).2.2
          took := s.took ++ [(i,(transport.read s.m_transport (s.reads i).size).2.1)] }.atRead i fun r => { r with
            invoke_proc := .read (transport.read s.m_transport (s.reads i).size).1
            data := (transport.read s.m_transport (s.reads i).size).2.1 })
  | stores (i : ReadId) (ok : Bool) (runs : s.running t = some i) (read : (s.reads i).invoke_proc = .read ok) :
      Stepped transport m_transport_thread_id s t .invoke (s.atRead i fun r => { r with invoke_proc := .stored ok })
  | invoked (i : ReadId) (direct : (s.reads i).point = .invoking) (stored : (s.reads i).invoke_proc.isStored) :
      Stepped transport m_transport_thread_id s t .proceed (s.goTo i (.loading none))
  | loads (i : ReadId) (call_waiter : Option WaiterPtr) (control : s.inControl t = some i)
      (ends : (s.reads i).point = .loading call_waiter) :
      Stepped transport m_transport_thread_id s t .proceed
        ({ s with active := Function.update s.active t (s.active t).tail }.goTo i (.returned (s.reads i).result))
  | calls (i : ReadId) (action : TransthreadCaller.Action Tid) (next : Point) (system : System Tid)
      (calls : (s.reads i).point.calls m_transport_thread_id = some (action,next))
      (stepped : TransthreadCaller.step s.system (t,action) = some system) :
      Stepped transport m_transport_thread_id s t .proceed ({ s with system := system }.goTo i next)
  | poll : Stepped transport m_transport_thread_id s t .poll { s with m_transport := (transport.readBytesAvailable s.m_transport).2 }
  | posts (i : ReadId) (id : Tid) (below : List (Frame Tid)) (system : System Tid) (activated : i ∈ s.active t)
      (top : s.system.frames t = .post id :: below) (posting : (s.reads i).point = .posting)
      (stepped : TransthreadCaller.step s.system (t,.next) = some system) :
      Stepped transport m_transport_thread_id s t (.other .next)
        ({ s with
          system := system
          closures := Function.update s.closures (s.system.caller.postCall t id).2.2 (some i) }.goTo i
            (.called (s.system.caller.postCall t id).2.2))
  | waits (i : ReadId) (w : WaiterPtr) (below : List (Frame Tid)) (system : System Tid)
      (top : s.system.frames t = .wait w .leave :: below) (waiting : (s.reads i).point = .waiting w)
      (stepped : TransthreadCaller.step s.system (t,.next) = some system) :
      Stepped transport m_transport_thread_id s t (.other .next) ({ s with system := system }.goTo i (.waited w))
  | other (action : TransthreadCaller.Action Tid) (system : System Tid)
      (stepped : TransthreadCaller.step s.system (t,action) = some system)
      (stored : ∀ w below i, action = .next → s.system.frames t = .body (some w) :: below → s.closures w = some i →
        (s.reads i).invoke_proc.isStored) :
      Stepped transport m_transport_thread_id s t (.other action) { s with system := system }

variable {transport : TransportCopy σ} {m_transport_thread_id : Option Tid} {s s' : Proxy Tid σ} {t : Tid}

theorem invoke_stepped {i : ReadId} (runs : s.running t = some i) (invoked : s.invoke transport i = some s') :
    Stepped transport m_transport_thread_id s t .invoke s' := by
  unfold Proxy.invoke at invoked
  split at invoked
  · cases invoked; exact .takes i runs ‹_›
  · cases invoked; exact .stores i _ runs ‹_›
  · cases invoked
theorem proceed_stepped {i : ReadId} (control : s.inControl t = some i)
    (proceeds : s.proceed m_transport_thread_id t i = some s') : Stepped transport m_transport_thread_id s t .proceed s' := by
  unfold Proxy.proceed at proceeds
  split at proceeds
  · split at proceeds
    · cases proceeds; exact .invoked i ‹_› ‹_›
    · cases proceeds
  · cases proceeds; exact .loads i _ control ‹_›
  · obtain ⟨⟨action,next⟩,calls,rest⟩ := Option.bind_eq_some_iff.mp proceeds
    obtain ⟨system,stepped,after⟩ := Option.bind_eq_some_iff.mp rest
    cases after
    exact .calls i action next system calls stepped
/-- `CallFromTargetThread` of a posted `Read` returns when its closure has stored the answer. -/
theorem allows_next {w : WaiterPtr} {below : List (Frame Tid)} {i : ReadId} (allowed : s.allows t .next)
    (top : s.system.frames t = .body (some w) :: below) (closure : s.closures w = some i) :
    (s.reads i).invoke_proc.isStored := by
  obtain ⟨elsewhere,stored⟩ := Bool.and_eq_true_iff.mp allowed
  have runs : s.running t = some i := by
    simp only [Proxy.running,Option.isNone_iff_eq_none.mp elsewhere,top,closure]
  rwa [runs] at stored
theorem next_stepped {system : System Tid} (allowed : s.allows t .next)
    (stepped : TransthreadCaller.step s.system (t,.next) = some system) :
    Stepped transport m_transport_thread_id s t (.other .next) (s.next t system) := by
  have other : Stepped transport m_transport_thread_id s t (.other .next) { s with system := system } :=
    .other .next system stepped fun w below i _ top closure => allows_next allowed top closure
  unfold Proxy.next
  split
  · split
    · split
      · exact .posts _ _ _ system (by rw [‹s.active t = _›]; exact List.mem_cons_self) ‹_› ‹_› stepped
      · split
        · subst_vars; exact .waits _ _ _ system ‹_› ‹_› stepped
        · exact other
      · exact other
    · exact other
  · exact other
theorem step_stepped {action : Action Tid} (stepped : step transport m_transport_thread_id s (t,action) = some s') :
    Stepped transport m_transport_thread_id s t action s' := by
  cases action with
  | read size =>
    simp only [step] at stepped
    split at stepped
    · cases stepped
      refine .read size _ ?_
      split
      · exact .inl rfl
      · exact .inr rfl
    · cases stepped
  | proceed =>
    obtain ⟨i,control,proceeds⟩ := Option.bind_eq_some_iff.mp stepped
    exact proceed_stepped control proceeds
  | invoke =>
    obtain ⟨i,runs,invoked⟩ := Option.bind_eq_some_iff.mp stepped
    exact invoke_stepped runs invoked
  | poll => cases stepped; exact .poll
  | other action =>
    simp only [step] at stepped
    split at stepped
    · obtain ⟨system,made,after⟩ := Option.map_eq_some_iff.mp stepped
      cases action with
      | next => cases after; exact next_stepped ‹_› made
      | _ => cases after; exact .other _ system made fun _ _ _ next => by cases next
    · cases stepped

/-! ### The closures -/

def Proxy.progress (s : Proxy Tid σ) (i : ReadId) : Progress := (s.reads i).invoke_proc

/-- A closure belongs to one posted call and to one `Read` that was made. It is
    run when the call is, and has stored its answer when the call is over. -/
structure Bound (system : System Tid) (closures : WaiterPtr → Option ReadId) (progress : ReadId → Progress)
    (next_read : ReadId) : Prop where
  known : ∀ w i, closures w = some i → i < next_read ∧ (home system.caller w).isSome
  same : ∀ v w i, closures v = some i → closures w = some i → v = w
  executing : ∀ w i ok, closures w = some i → progress i = .read ok → ∃ t, .body (some w) ∈ system.frames t
  callDone : ∀ t w i, .callDone (some w) ∈ system.frames t → closures w = some i → (progress i).isStored
  resolved : ∀ w i result, .resolved w result ∈ system.caller.events → closures w = some i →
    result = .cs_canceled ∨ result = .cs_receiver_thread_finished ∨ (progress i).isStored
/-- What holds where a `Read` is. It answers `true` when the closure has stored
    it, and `false` when no thread ever runs the closure. -/
def Point.Holds (system : System Tid) (closures : WaiterPtr → Option ReadId) (progress : ReadId → Progress)
    (next_read i : ReadId) : Point → Prop
  | .invoking => i < next_read ∧ ∀ w, closures w ≠ some i
  | .calling | .posting => progress i = .created ∧ ∀ w, closures w ≠ some i
  | .called w | .waiting w => closures w = some i
  | .waited w | .loading (some w) => closures w = some i ∧ outcome w system.caller.events ≠ .cs_inprogress
  | .loading none | .returned true => (progress i).isStored
  | .returned false => progress i = .created ∧ ∃ w, closures w = some i ∧ Dropped system w

section closures
variable {system after : System Tid} {closures : WaiterPtr → Option ReadId} {progress : ReadId → Progress} {next_read : ReadId}
variable {action : TransthreadCaller.Action Tid}

/-- A step of the threads. -/
theorem Bound.steps (bound : Bound system closures progress next_read) (ended : Ended system)
    (stepped : TransthreadCaller.step system (t,action) = some after)
    (stored : ∀ w below i, action = .next → system.frames t = .body (some w) :: below → closures w = some i →
      (progress i).isStored) : Bound after closures progress next_read := by
  obtain ⟨top,new,below,changes⟩ := step_changes ended.answering.recorded stepped
  have body_stored : ∀ w i, .body (some w) ∈ top → closures w = some i → (progress i).isStored := by
    intro w i at_top closure
    have before := changes.before
    rw [changes.top_eq at_top,List.singleton_append] at before
    exact stored w below i (changes.acts (List.ne_nil_of_mem at_top)) before closure
  refine ⟨?_,bound.same,?_,?_,?_⟩
  · intro w i closure
    obtain ⟨made,there⟩ := bound.known w i closure
    obtain ⟨r,is⟩ := Option.isSome_iff_exists.mp there
    exact ⟨made,Option.isSome_iff_exists.mpr ⟨r,changes.grows.home w r is⟩⟩
  · intro w i ok closure reading
    obtain ⟨u,member⟩ := bound.executing w i ok closure reading
    refine ⟨u,?_⟩
    rw [changes.frames]
    by_cases acts : u = t
    · subst acts
      rw [changes.before] at member
      rcases List.mem_append.mp member with at_top | stayed
      · have finished := body_stored w i at_top closure
        rw [reading] at finished
        cases finished
      · rw [Function.update_self]
        exact List.mem_append_right _ stayed
    · rwa [Function.update_of_ne acts]
  · intro u w i member closure
    rcases changes.member member with ⟨rfl,begins⟩ | ⟨was,-⟩
    · exact body_stored w i (changes.arises _ begins) closure
    · exact bound.callDone u w i was closure
  · intro w i result happened closure
    rcases changes.resolves w result happened with before | ⟨frame,at_top,write⟩ | canceled
    · exact bound.resolved w i result before closure
    · unfold writes at write
      split at write
      · cases write
        exact .inr (.inr (bound.callDone t w i (changes.top_member at_top) closure))
      · cases write; exact .inl rfl
      · cases write; exact .inr (.inl rfl)
      · cases write
    · exact .inl canceled
theorem holds_steps {i : ReadId} {point : Point} (holds : point.Holds system closures progress next_read i) (ended : Ended system)
    (stepped : TransthreadCaller.step system (t,action) = some after) : point.Holds after closures progress next_read i := by
  have settled : ∀ w, outcome w system.caller.events ≠ .cs_inprogress → outcome w after.caller.events ≠ .cs_inprogress := by
    intro w
    obtain ⟨top,new,below,changes⟩ := step_changes ended.answering.recorded stepped
    have recorded := (step_answering system (t,action) after ended.answering stepped).recorded
    exact outcome_stays changes.events (recorded.settles w)
  cases point with
  | waited w => exact ⟨holds.1,settled w holds.2⟩
  | loading call_waiter =>
    cases call_waiter with
    | none => exact holds
    | some w => exact ⟨holds.1,settled w holds.2⟩
  | returned answer =>
    cases answer with
    | true => exact holds
    | false =>
      obtain ⟨created,w,closure,dropped⟩ := holds
      exact ⟨created,w,closure,step_dropped ended stepped dropped⟩
  | _ => exact holds

/-- The call that a `Read` posts gets its closure. -/
theorem Bound.register (bound : Bound system closures progress next_read) {w : WaiterPtr} {i : ReadId} (made : i < next_read)
    (there : (home system.caller w).isSome) (unused : ∀ v, closures v ≠ some i) (created : progress i = .created)
    (idle : ∀ t, .callDone (some w) ∉ system.frames t)
    (canceled : ∀ result, .resolved w result ∈ system.caller.events → result = .cs_canceled) :
    Bound system (Function.update closures w (some i)) progress next_read := by
  have was : ∀ v j, Function.update closures w (some i) v = some j → v = w ∧ j = i ∨ v ≠ w ∧ closures v = some j := by
    intro v j closure
    by_cases same : v = w
    · subst same
      rw [Function.update_self] at closure
      exact .inl ⟨rfl,(Option.some.inj closure).symm⟩
    · rw [Function.update_of_ne same] at closure
      exact .inr ⟨same,closure⟩
  refine ⟨?_,?_,?_,?_,?_⟩
  · intro v j closure
    rcases was v j closure with ⟨rfl,rfl⟩ | ⟨-,before⟩
    · exact ⟨made,there⟩
    · exact bound.known v j before
  · intro u v j first second
    rcases was u j first with ⟨rfl,rfl⟩ | ⟨-,before⟩
    · rcases was v j second with ⟨rfl,-⟩ | ⟨-,before⟩
      · rfl
      · exact absurd before (unused v)
    · rcases was v j second with ⟨-,rfl⟩ | ⟨-,before'⟩
      · exact absurd before (unused u)
      · exact bound.same u v j before before'
  · intro v j ok closure reading
    rcases was v j closure with ⟨rfl,rfl⟩ | ⟨-,before⟩
    · cases created.symm.trans reading
    · exact bound.executing v j ok before reading
  · intro u v j member closure
    rcases was v j closure with ⟨rfl,rfl⟩ | ⟨-,before⟩
    · exact absurd member (idle u)
    · exact bound.callDone u v j member before
  · intro v j result happened closure
    rcases was v j closure with ⟨rfl,rfl⟩ | ⟨-,before⟩
    · exact .inl (canceled result happened)
    · exact bound.resolved v j result happened before
theorem holds_register {w : WaiterPtr} {i j : ReadId} {point : Point} (holds : point.Holds system closures progress next_read j)
    (other : j ≠ i) (free : closures w = none) : point.Holds system (Function.update closures w (some i)) progress next_read j := by
  have same : ∀ v, Function.update closures w (some i) v = some j ↔ closures v = some j := by
    intro v
    by_cases is : v = w
    · subst is
      rw [Function.update_self,free]
      simp [Ne.symm other]
    · rw [Function.update_of_ne is]
  unfold Point.Holds at *
  simpa only [same,Ne] using holds

/-- The closures go on, and none that stored its answer goes back. -/
theorem Bound.progresses (bound : Bound system closures progress next_read) {later : ReadId → Progress}
    (stored : ∀ i, (progress i).isStored → (later i).isStored)
    (executing : ∀ w i ok, closures w = some i → later i = .read ok → ∃ t, .body (some w) ∈ system.frames t) :
    Bound system closures later next_read :=
  ⟨bound.known,bound.same,executing,fun u w i member closure => stored i (bound.callDone u w i member closure),
    fun w i result happened closure => (bound.resolved w i result happened closure).imp_right (Or.imp_right (stored i))⟩
theorem holds_congr {later : ReadId → Progress} {i : ReadId} {point : Point}
    (holds : point.Holds system closures progress next_read i) (same : later i = progress i) :
    point.Holds system closures later next_read i := by
  unfold Point.Holds at *
  rwa [same]
/-- A `Read` whose closure runs is about to call it directly, or has posted it. -/
theorem holds_runs {later : ReadId → Progress} {i : ReadId} {point : Point}
    (holds : point.Holds system closures progress next_read i) (bound : Bound system closures progress next_read)
    (unstored : (progress i).isStored = false)
    (runs : point = .invoking ∨ ∃ w, .body (some w) ∈ system.frames t ∧ closures w = some i) :
    point.Holds system closures later next_read i := by
  cases point with
  | calling | posting =>
    rcases runs with is | ⟨w,-,closure⟩
    · cases is
    · exact absurd closure (holds.2 w)
  | loading call_waiter =>
    cases call_waiter with
    | none => cases unstored.symm.trans holds
    | some w => exact holds
  | returned answer =>
    cases answer with
    | true => cases unstored.symm.trans holds
    | false =>
      obtain ⟨-,v,closure',r,-,-,-,elsewhere⟩ := holds
      rcases runs with is | ⟨w,member,closure⟩
      · cases is
      · exact absurd (bound.same w v i closure closure') (elsewhere t _ member)
  | _ => exact holds

end closures

/-! ### The calls of Read -/

/-- Where the calls of `Read` are, with the closures that did not fail and what they took. -/
structure Proxied (s : Proxy Tid σ) : Prop where
  ended : Ended s.system
  bound : Bound s.system s.closures s.progress s.next_read
  points : ∀ i, (s.reads i).point.Holds s.system s.closures s.progress s.next_read i
  sound : ∀ i, s.progress i ≠ .read false ∧ s.progress i ≠ .stored false
  fresh : ∀ i, s.next_read ≤ i → s.progress i = .created
  active : ∀ t, ∀ i ∈ s.active t, i < s.next_read
  took : ∀ i, (s.tookBy i).map List.length = if s.progress i = .created then [] else [(s.reads i).size]

theorem atRead_read (s : Proxy Tid σ) (i : ReadId) (change : ReadCall → ReadCall) (j : ReadId) :
    (s.atRead i change).reads j = if j = i then change (s.reads i) else s.reads j := by
  by_cases same : j = i
  · subst same; simp [Proxy.atRead]
  · simp [Proxy.atRead,same]
@[simp] theorem goTo_progress (s : Proxy Tid σ) (i : ReadId) (point : Point) : (s.goTo i point).progress = s.progress := by
  funext j
  unfold Proxy.progress Proxy.goTo
  rw [atRead_read]
  split
  · subst_vars; rfl
  · rfl
@[simp] theorem goTo_size (s : Proxy Tid σ) (i : ReadId) (point : Point) (j : ReadId) :
    ((s.goTo i point).reads j).size = (s.reads j).size := by
  unfold Proxy.goTo
  rw [atRead_read]
  split
  · subst_vars; rfl
  · rfl

theorem goTo_point (s : Proxy Tid σ) (i : ReadId) (point : Point) (j : ReadId) :
    ((s.goTo i point).reads j).point = if j = i then point else (s.reads j).point := by
  unfold Proxy.goTo
  rw [atRead_read]
  split <;> rfl

theorem Proxied.goTo (proxied : Proxied s) {i : ReadId} {point : Point}
    (holds : point.Holds s.system s.closures s.progress s.next_read i) : Proxied (s.goTo i point) := by
  refine ⟨proxied.ended,?_,?_,?_,?_,proxied.active,?_⟩
  · rw [goTo_progress]; exact proxied.bound
  · intro j
    rw [goTo_progress,goTo_point]
    split
    · subst j; exact holds
    · exact proxied.points j
  · rw [goTo_progress]; exact proxied.sound
  · rw [goTo_progress]; exact proxied.fresh
  · intro j
    rw [goTo_progress,goTo_size]
    exact proxied.took j
theorem Proxied.steps (proxied : Proxied s) {action : TransthreadCaller.Action Tid} {system : System Tid}
    (stepped : TransthreadCaller.step s.system (t,action) = some system)
    (stored : ∀ w below i, action = .next → s.system.frames t = .body (some w) :: below → s.closures w = some i →
      (s.progress i).isStored) : Proxied { s with system := system } :=
  ⟨step_ended s.system (t,action) system proxied.ended stepped,proxied.bound.steps proxied.ended stepped stored,
    fun i => holds_steps (proxied.points i) proxied.ended stepped,proxied.sound,proxied.fresh,proxied.active,proxied.took⟩

/-! #### The closures of the calls -/

theorem running_closure {i : ReadId} (runs : s.running t = some i) :
    (s.reads i).point = .invoking ∨ ∃ w, .body (some w) ∈ s.system.frames t ∧ s.closures w = some i := by
  unfold Proxy.running at runs
  split at runs
  · split at runs
    · cases runs; exact .inl ‹_›
    · cases runs
  · split at runs
    · rename_i w below top
      exact .inr ⟨w,by rw [top]; exact List.mem_cons_self,runs⟩
    · cases runs
/-- The closure of a `Read` goes on. -/
theorem Proxied.invokes (proxied : Proxied s) {i : ReadId} (after : Progress) (runs : s.running t = some i)
    (unstored : (s.progress i).isStored = false) (begun : after ≠ .created) (sound : after ≠ .read false ∧ after ≠ .stored false)
    {s' : Proxy Tid σ} (system : s'.system = s.system) (closures : s'.closures = s.closures) (next_read : s'.next_read = s.next_read)
    (active : s'.active = s.active)
    (progress : s'.progress = Function.update s.progress i after)
    (same : ∀ j, (s'.reads j).point = (s.reads j).point ∧ (s'.reads j).size = (s.reads j).size)
    (took : ∀ j, (s'.tookBy j).map List.length = if j = i then [(s.reads i).size] else (s.tookBy j).map List.length) :
    Proxied s' := by
  have running := running_closure runs
  have stays : ∀ j, (s.progress j).isStored → (Function.update s.progress i after j).isStored := by
    intro j stored
    have other : j ≠ i := by
      rintro rfl
      cases unstored.symm.trans stored
    rwa [Function.update_of_ne other]
  have made : i < s.next_read := by
    rcases running with direct | ⟨w,-,closure⟩
    · have holds := proxied.points i
      rw [direct] at holds
      exact holds.1
    · exact (proxied.bound.known w i closure).1
  refine ⟨system ▸ proxied.ended,?_,?_,?_,?_,?_,?_⟩
  · rw [system,closures,progress,next_read]
    refine proxied.bound.progresses stays fun w j ok closure reading => ?_
    by_cases is : j = i
    · subst is
      rcases running with direct | ⟨v,member,closure'⟩
      · have holds := proxied.points j
        rw [direct] at holds
        exact absurd closure (holds.2 w)
      · exact ⟨t,proxied.bound.same w v j closure closure' ▸ member⟩
    · rw [Function.update_of_ne is] at reading
      exact proxied.bound.executing w j ok closure reading
  · intro j
    rw [system,closures,progress,next_read,(same j).1]
    by_cases is : j = i
    · subst is
      exact holds_runs (proxied.points j) proxied.bound unstored running
    · exact holds_congr (proxied.points j) (Function.update_of_ne is _ _)
  · intro j
    rw [progress]
    by_cases is : j = i
    · subst is
      rw [Function.update_self]
      exact sound
    · rw [Function.update_of_ne is]
      exact proxied.sound j
  · intro j unmade
    rw [next_read] at unmade
    have is : j ≠ i := Nat.ne_of_gt (Nat.lt_of_lt_of_le made unmade)
    rw [progress,Function.update_of_ne is]
    exact proxied.fresh j unmade
  · rw [active,next_read]; exact proxied.active
  · intro j
    rw [progress,took,(same j).2]
    by_cases is : j = i
    · subst is
      rw [Function.update_self,if_pos rfl,if_neg begun]
    · rw [Function.update_of_ne is,if_neg is]
      exact proxied.took j

theorem atRead_progress (s : Proxy Tid σ) (i : ReadId) (change : ReadCall → ReadCall) :
    (s.atRead i change).progress = Function.update s.progress i (change (s.reads i)).invoke_proc := by
  funext j
  unfold Proxy.progress
  rw [atRead_read]
  by_cases is : j = i
  · subst is; rw [if_pos rfl,Function.update_self]
  · rw [if_neg is,Function.update_of_ne is]
theorem atRead_same {s : Proxy Tid σ} {i : ReadId} {change : ReadCall → ReadCall}
    (same : ∀ r, (change r).point = r.point ∧ (change r).size = r.size) (j : ReadId) :
    ((s.atRead i change).reads j).point = (s.reads j).point ∧ ((s.atRead i change).reads j).size = (s.reads j).size := by
  rw [atRead_read]
  split
  · subst j; exact same _
  · exact ⟨rfl,rfl⟩
theorem tookBy_append (s : Proxy Tid σ) (i j : ReadId) (bytes : List Byte) :
    { s with took := s.took ++ [(i,bytes)] }.tookBy j = s.tookBy j ++ if j = i then [bytes] else [] := by
  by_cases is : j = i
  · subst is; simp [Proxy.tookBy]
  · simp [Proxy.tookBy,is,Ne.symm is]

/-! #### The steps -/

/-- A `Read` begins. -/
theorem Proxied.begins (proxied : Proxied s) {s' : Proxy Tid σ} {created : ReadCall} (unstarted : created.invoke_proc = .created)
    (begins : created.point = .invoking ∨ created.point = .calling) (reads : s'.reads = Function.update s.reads s.next_read created)
    (system : s'.system = s.system) (closures : s'.closures = s.closures) (next_read : s'.next_read = s.next_read + 1)
    (active : s'.active = Function.update s.active t (s.next_read :: s.active t)) (took : s'.took = s.took) : Proxied s' := by
  have unused : ∀ w, s.closures w ≠ some s.next_read :=
    fun w closure => Nat.lt_irrefl _ (proxied.bound.known w _ closure).1
  have unmade := proxied.fresh s.next_read (Nat.le_refl _)
  have progress : s'.progress = s.progress := by
    funext i
    unfold Proxy.progress at *
    rw [reads]
    by_cases is : i = s.next_read
    · subst is; rw [Function.update_self,unstarted,unmade]
    · rw [Function.update_of_ne is]
  have later : ∀ (point : Point) (i : ReadId), point.Holds s.system s.closures s.progress s.next_read i →
      point.Holds s.system s.closures s.progress (s.next_read + 1) i := by
    intro point i holds
    cases point with
    | invoking => exact ⟨Nat.lt_succ_of_lt holds.1,holds.2⟩
    | loading call_waiter => cases call_waiter <;> exact holds
    | returned answer => cases answer <;> exact holds
    | _ => exact holds
  refine ⟨system ▸ proxied.ended,?_,?_,?_,?_,?_,?_⟩
  · rw [system,closures,progress,next_read]
    exact ⟨fun w i closure => (proxied.bound.known w i closure).imp_left Nat.lt_succ_of_lt,proxied.bound.same,
      proxied.bound.executing,proxied.bound.callDone,proxied.bound.resolved⟩
  · intro i
    rw [system,closures,progress,next_read,reads]
    by_cases is : i = s.next_read
    · subst is
      rw [Function.update_self]
      rcases begins with direct | posts
      · rw [direct]; exact ⟨Nat.lt_succ_self _,unused⟩
      · rw [posts]; exact ⟨unmade,unused⟩
    · rw [Function.update_of_ne is]
      exact later _ i (proxied.points i)
  · rw [progress]; exact proxied.sound
  · intro i above
    rw [next_read] at above
    rw [progress]
    exact proxied.fresh i (Nat.le_of_succ_le above)
  · intro u i member
    rw [active] at member
    rw [next_read]
    by_cases acts : u = t
    · subst acts
      rw [Function.update_self] at member
      rcases List.mem_cons.mp member with rfl | before
      · exact Nat.lt_succ_self _
      · exact Nat.lt_succ_of_lt (proxied.active u i before)
    · rw [Function.update_of_ne acts] at member
      exact Nat.lt_succ_of_lt (proxied.active u i member)
  · intro i
    have before := proxied.took i
    rw [progress,reads,Proxy.tookBy,took]
    by_cases is : i = s.next_read
    · subst is
      rw [if_pos unmade] at before ⊢
      exact before
    · rw [Function.update_of_ne is]
      exact before

/-- The section of `CallFromThread` posts the closure. -/
theorem Proxied.posts (proxied : Proxied s) {i : ReadId} {id : Tid} {below : List (Frame Tid)} {system : System Tid}
    (activated : i ∈ s.active t) (top : s.system.frames t = .post id :: below) (posting : (s.reads i).point = .posting)
    (stepped : TransthreadCaller.step s.system (t,.next) = some system) :
    Proxied ({ s with
      system := system
      closures := Function.update s.closures (s.system.caller.postCall t id).2.2 (some i) }.goTo i
        (.called (s.system.caller.postCall t id).2.2)) := by
  obtain ⟨homeless,there,idle,canceled⟩ := posts_new proxied.ended top stepped
  have later : Proxied { s with system := system } := proxied.steps stepped fun w below' j _ top' => by
    cases top.symm.trans top'
  obtain ⟨created,unused⟩ : s.progress i = .created ∧ ∀ w, s.closures w ≠ some i := by
    have holds := proxied.points i
    rwa [posting] at holds
  have free : s.closures (s.system.caller.postCall t id).2.2 = none := by
    refine Option.eq_none_iff_forall_not_mem.mpr fun j closure => ?_
    have present := (proxied.bound.known _ j closure).2
    rw [homeless] at present
    cases present
  refine ⟨later.ended,?_,?_,?_,?_,proxied.active,?_⟩
  · rw [goTo_progress]
    exact later.bound.register (proxied.active t i activated) there unused created idle canceled
  · intro j
    rw [goTo_progress,goTo_point]
    split
    · subst j; exact Function.update_self _ _ _
    · exact holds_register (later.points j) ‹_› free
  · rw [goTo_progress]; exact proxied.sound
  · rw [goTo_progress]; exact proxied.fresh
  · intro j
    rw [goTo_progress,goTo_size]
    exact proxied.took j

/-- `Read` returns after a wait that was not canceled, or that was canceled when
    the closure had stored its answer or nobody could run it any more. -/
def Answered (s : Proxy Tid σ) : Tid × Action Tid → Prop
  | (t,.proceed) =>
    match s.inControl t with
    | some i =>
      match (s.reads i).point with
      | .loading (some w) => (s.system.caller.waiters w).map CallWaiterPrivate.m_call_state = some .cs_canceled →
          (s.reads i).invoke_proc.isStored ∨ Dropped s.system w
      | _ => True
    | none => True
  | _ => True

/-- A closure that stored its answer stored `true`. -/
theorem Proxied.result (proxied : Proxied s) {i : ReadId} (stored : (s.progress i).isStored) : (s.reads i).result = true := by
  have sound := (proxied.sound i).2
  unfold Proxy.progress at stored sound
  unfold ReadCall.result
  cases is : (s.reads i).invoke_proc with
  | stored ok =>
    rw [is] at sound
    cases ok with
    | true => rfl
    | false => exact absurd rfl sound
  | _ => rw [is] at stored; cases stored
/-- The closure has stored its answer when the wait is over, or no thread runs it. -/
theorem Proxied.settled (proxied : Proxied s) {i : ReadId} {w : WaiterPtr} (closure : s.closures w = some i)
    (settled : outcome w s.system.caller.events ≠ .cs_inprogress)
    (answered : (s.system.caller.waiters w).map CallWaiterPrivate.m_call_state = some .cs_canceled →
      (s.progress i).isStored ∨ Dropped s.system w) : (s.progress i).isStored ∨ Dropped s.system w := by
  obtain ⟨d,present⟩ : ∃ d, s.system.caller.waiters w = some d := by
    have there := (proxied.bound.known w i closure).2
    rw [home,Option.isSome_map] at there
    exact Option.isSome_iff_exists.mp there
  have state := proxied.ended.answering.recorded.state w d present
  have written := outcome_written settled
  rcases proxied.bound.resolved w i _ written closure with canceled | finished | stored
  · exact answered (by rw [present,Option.map_some,state,canceled])
  · exact .inr (proxied.ended.finished w (finished ▸ written))
  · exact .inl stored
/-- What `Read` answers. -/
theorem Proxied.answers (proxied : Proxied s) {i : ReadId} {call_waiter : Option WaiterPtr}
    (ends : (s.reads i).point = .loading call_waiter)
    (answered : ∀ w, call_waiter = some w →
      (s.system.caller.waiters w).map CallWaiterPrivate.m_call_state = some .cs_canceled →
        (s.progress i).isStored ∨ Dropped s.system w) :
    (Point.returned (s.reads i).result).Holds s.system s.closures s.progress s.next_read i := by
  have holds := proxied.points i
  rw [ends] at holds
  have when_stored : (s.progress i).isStored →
      (Point.returned (s.reads i).result).Holds s.system s.closures s.progress s.next_read i := by
    intro stored
    rw [proxied.result stored]
    exact stored
  cases call_waiter with
  | none => exact when_stored holds
  | some w =>
    obtain ⟨closure,settled⟩ := holds
    rcases proxied.settled closure settled (answered w rfl) with stored | dropped
    · exact when_stored stored
    · cases is : s.progress i with
      | created =>
        have nothing : (s.reads i).result = false := by
          unfold Proxy.progress at is
          rw [ReadCall.result,is]
        rw [nothing]
        exact ⟨is,w,closure,dropped⟩
      | read ok =>
        -- The closure runs, and so does the call.
        obtain ⟨u,member⟩ := proxied.bound.executing w i ok closure is
        obtain ⟨r,-,-,-,elsewhere⟩ := dropped
        exact absurd rfl (elsewhere u _ member)
      | stored ok => exact when_stored (by rw [is]; rfl)

/-- `transport->Read`, which succeeds. -/
theorem Proxied.takes (proxied : Proxied s) {i : ReadId} (runs : s.running t = some i)
    (created : (s.reads i).invoke_proc = .created) (succeeds : (transport.read s.m_transport (s.reads i).size).1 = true) :
    Proxied ({ s with
      m_transport := (transport.read s.m_transport (s.reads i).size).2.2
      took := s.took ++ [(i,(transport.read s.m_transport (s.reads i).size).2.1)] }.atRead i fun r => { r with
        invoke_proc := .read (transport.read s.m_transport (s.reads i).size).1
        data := (transport.read s.m_transport (s.reads i).size).2.1 }) := by
  have unstored : (s.progress i).isStored = false := by rw [Proxy.progress,created]; rfl
  refine proxied.invokes (.read (transport.read s.m_transport (s.reads i).size).1) runs unstored (by rintro ⟨⟩) ?_ rfl rfl rfl rfl
    ?_ ?_ ?_
  · rw [succeeds]; decide
  · exact atRead_progress _ i _
  · refine atRead_same ?_
    intro _; exact ⟨rfl,rfl⟩
  · intro j
    refine (congrArg (List.map List.length) (tookBy_append s i j _)).trans ?_
    by_cases is : j = i
    · subst is
      have before := proxied.took j
      rw [Proxy.progress,created,if_pos rfl] at before
      rw [if_pos rfl,if_pos rfl,List.map_append,before,List.nil_append]
      exact congrArg (fun length => [length]) (transport.read_ok _ _ succeeds)
    · rw [if_neg is,if_neg is,List.append_nil]
/-- `result->store`. -/
theorem Proxied.stores (proxied : Proxied s) {i : ReadId} {ok : Bool} (runs : s.running t = some i)
    (read : (s.reads i).invoke_proc = .read ok) : Proxied (s.atRead i fun r => { r with invoke_proc := .stored ok }) := by
  have unstored : (s.progress i).isStored = false := by rw [Proxy.progress,read]; rfl
  refine proxied.invokes (.stored ok) runs unstored (by rintro ⟨⟩) ?_ rfl rfl rfl rfl (atRead_progress s i _) ?_ ?_
  · have sound := (proxied.sound i).1
    rw [Proxy.progress,read] at sound
    cases ok with
    | true => decide
    | false => exact absurd rfl sound
  · refine atRead_same ?_
    intro _; exact ⟨rfl,rfl⟩
  · intro j
    by_cases is : j = i
    · subst is
      have before := proxied.took j
      rw [Proxy.progress,read,if_neg (by rintro ⟨⟩)] at before
      rw [if_pos rfl]
      exact before
    · rw [if_neg is]; rfl
/-- The innermost `Read` is none any more. -/
theorem Proxied.deactivates (proxied : Proxied s) (t : Tid) :
    Proxied { s with active := Function.update s.active t (s.active t).tail } := by
  refine ⟨proxied.ended,proxied.bound,proxied.points,proxied.sound,proxied.fresh,?_,proxied.took⟩
  intro u j member
  by_cases acts : u = t
  · subst acts
    dsimp only at member
    rw [Function.update_self] at member
    exact proxied.active u j (List.mem_of_mem_tail member)
  · dsimp only at member
    rw [Function.update_of_ne acts] at member
    exact proxied.active u j member
/-- What `Read` does with `m_inter_thread`. -/
theorem Proxied.calls (proxied : Proxied s) {i : ReadId} {action : TransthreadCaller.Action Tid} {next : Point} {system : System Tid}
    (calls : (s.reads i).point.calls m_transport_thread_id = some (action,next))
    (stepped : TransthreadCaller.step s.system (t,action) = some system) : Proxied ({ s with system := system }.goTo i next) := by
  have later : Proxied { s with system := system } := proxied.steps stepped fun w below j is => by
    subst is
    unfold Point.calls at calls
    split at calls <;> cases calls
  have holds := later.points i
  refine later.goTo ?_
  dsimp only at holds
  unfold Point.calls at calls
  split at calls
  · cases calls; rw [‹(s.reads i).point = _›] at holds; exact holds
  · cases calls; rw [‹(s.reads i).point = _›] at holds; exact holds
  · cases calls; rw [‹(s.reads i).point = _›] at holds; exact holds
  · cases calls
/-- The wait of a `Read` is over. -/
theorem Proxied.waits (proxied : Proxied s) {i : ReadId} {w : WaiterPtr} {below : List (Frame Tid)} {system : System Tid}
    (top : s.system.frames t = .wait w .leave :: below) (waiting : (s.reads i).point = .waiting w)
    (stepped : TransthreadCaller.step s.system (t,.next) = some system) :
    Proxied ({ s with system := system }.goTo i (.waited w)) := by
  have later : Proxied { s with system := system } := proxied.steps stepped fun v below' j _ top' => by
    cases top.symm.trans top'
  refine later.goTo ⟨?_,?_⟩
  · have holds := proxied.points i
    rwa [waiting] at holds
  · have leaves := proxied.ended.answering.leaves t w (by rw [top]; exact List.mem_cons_self)
    obtain ⟨_,_,_,changes⟩ := step_changes proxied.ended.answering.recorded stepped
    exact outcome_stays changes.events (later.ended.answering.recorded.settles w) leaves

theorem step_proxied (succeeds : ∀ m_transport size, (transport.read m_transport size).1 = true) {action : Tid × Action Tid}
    (proxied : Proxied s) (answered : Answered s action) (stepped : step transport m_transport_thread_id s action = some s') :
    Proxied s' := by
  obtain ⟨t,action⟩ := action
  cases step_stepped stepped with
  | read size point begins => exact proxied.begins rfl begins rfl rfl rfl rfl rfl rfl
  | takes i runs created => exact proxied.takes runs created (succeeds _ _)
  | stores i ok runs read => exact proxied.stores runs read
  | invoked i direct stored => exact proxied.goTo stored
  | loads i call_waiter control ends =>
    refine (proxied.deactivates t).goTo (proxied.answers ends ?_)
    rintro w rfl
    simp only [Answered,control,ends] at answered
    exact answered
  | calls i action next system calls made => exact proxied.calls calls made
  | poll =>
    exact ⟨proxied.ended,proxied.bound,proxied.points,proxied.sound,proxied.fresh,proxied.active,proxied.took⟩
  | posts i id below system activated top posting made => exact proxied.posts activated top posting made
  | waits i w below system top waiting made => exact proxied.waits top waiting made
  | other action system made stored => exact proxied.steps made stored
theorem proxied_init (m_transport : σ) : Proxied ({ m_transport := m_transport } : Proxy Tid σ) where
  ended := ended_init
  bound := ⟨fun _ _ => by simp,fun _ _ _ => by simp,fun _ _ _ => by simp,fun _ _ _ => by simp,fun _ _ _ => by simp⟩
  points := fun _ => ⟨rfl,fun _ => by simp⟩
  sound := fun _ => ⟨by rintro ⟨⟩,by rintro ⟨⟩⟩
  fresh := fun _ _ => rfl
  active := fun _ _ => by simp
  took := fun _ => rfl

/-- A `Read` that answered `true` took its bytes from the transport, once, and
    one that answered `false` took none. -/
def Aligned (s : Proxy Tid σ) : Prop :=
  ∀ i answer, (s.reads i).point = .returned answer →
    (s.tookBy i).map List.length = if answer then [(s.reads i).size] else []

/-- Where the transport does not fail, and no `Read` returns from a canceled
    wait before its closure stored its answer, unless nobody can run it any
    more, a `Read` that answers `false` has taken nothing, and never will. -/
theorem failed_read_takes_nothing (succeeds : ∀ m_transport size, (transport.read m_transport size).1 = true)
    (m_transport : σ) {actions : List (Tid × Action Tid)}
    (answered : Along (step transport m_transport_thread_id) Answered { m_transport := m_transport } actions) :
    Aligned (run (step transport m_transport_thread_id) { m_transport := m_transport } actions) := by
  have proxied := Along.run (fun s action s' proxied answered stepped => step_proxied succeeds proxied answered stepped)
    (proxied_init m_transport) answered
  generalize run (step transport m_transport_thread_id) { m_transport := m_transport } actions = s' at proxied
  intro i answer returned
  have holds := proxied.points i
  have took := proxied.took i
  rw [returned] at holds
  cases answer with
  | true =>
    have unlike : ¬ (Progress.isStored .created) := by decide
    rw [if_neg fun is : s'.progress i = .created => unlike (is ▸ holds)] at took
    exact took
  | false =>
    rw [if_pos holds.1] at took
    exact took

/-- A transport that has as many bytes as it is asked for. -/
def endless : TransportCopy Nat where
  readBytesAvailable position := (1,position)
  read position size := (true,List.replicate size 0,position + size)
  read_le := fun _ _ => Nat.le_of_eq List.length_replicate
  read_ok := fun _ _ _ => List.length_replicate

/-- The thread `false` reads from the transport of the thread `true`, up to its
    wait, and what it does when the wait is over. -/
def reads_four : List (Bool × Action Bool) :=
  [(false,.read 4),(false,.proceed),(false,.other .next),(false,.other .next),(false,.proceed)]
def returns : List (Bool × Action Bool) :=
  [(false,.other .next),(false,.other .next),(false,.proceed),(false,.proceed)]
/-- The thread of the transport ends, cancels the calls of the other one, or runs its queue. -/
def thread_ends : List (Bool × Action Bool) :=
  [(true,.other (.start .onFinished)),(true,.other .next),(true,.other .next),(true,.other .next)]
def cancels : List (Bool × Action Bool) :=
  [(true,.other (.start (.cancelDisableWaitingCall false))),(true,.other .next),(true,.other .next),(true,.other .next)]
def runs_queue : List (Bool × Action Bool) :=
  [(true,.other (.start .processCalls)),(true,.other .next),(true,.other .next),(true,.invoke),(true,.invoke)]

/-- The thread of the transport ends while the call is queued. -/
theorem failed_read_takes_nothing_ended :
    Aligned (run (step endless (some true)) ({ m_transport := 0 } : Proxy Bool Nat) (reads_four ++ thread_ends ++ returns)) := by
  refine failed_read_takes_nothing (fun _ _ => rfl) 0 ⟨fun _ => trivial,fun _ => trivial,fun _ => trivial,fun _ => trivial,
    fun _ => trivial,fun _ => trivial,fun _ => trivial,fun _ => trivial,fun _ => trivial,fun _ => trivial,fun _ => trivial,
    fun _ => trivial,fun _ canceled => ?_,trivial⟩
  exact absurd canceled (by decide)
/-- The wait is canceled while the call is queued: `Read` answers `false`, and
    the closure takes the four bytes afterwards. -/
theorem canceled_read_takes :
    let s := run (step endless (some true)) ({ m_transport := 0 } : Proxy Bool Nat) (reads_four ++ cancels ++ returns)
    let s' := run (step endless (some true)) s runs_queue
    (∀ position size, (endless.read position size).1 = true) ∧ (s.reads 0).point = .returned false ∧ s.tookBy 0 = [] ∧
      (s'.reads 0).point = .returned false ∧ s'.tookBy 0 = [[0,0,0,0]] ∧ (s'.reads 0).invoke_proc = .stored true :=
  ⟨fun _ _ => rfl,by decide +kernel⟩

end IpcPortable.ProxiedReads
