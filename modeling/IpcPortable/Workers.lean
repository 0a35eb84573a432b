import IpcPortable.Runs
import IpcPortable.Registries
import IpcPortable.Dispatch

/-!
The threads of a program that has an endpoint: they register handlers and
callbacks, dispatch incoming calls and run the jobs that were posted to them. A
dispatch looks up what it needs in one step and then goes through its effects
one after the other, so that other threads, and the code of the user that an
effect starts, come in between.
-/
namespace IpcPortable.Workers
open IpcPortable.DataStream IpcPortable.Packets IpcPortable.Signatures IpcPortable.ProcMaps IpcPortable.Registries
open IpcPortable.Dispatch

abbrev Worker := Nat
abbrev Guard := Nat

/-- What happened with a tag, for the record. Only what can be called counts as
    registered, and only when it was not refused. -/
inductive Event
  | registered (tag : Tag)
  | cleared (tag : Tag)
  | started (tag : Tag)
deriving DecidableEq

/-- The tag of the handler or callback that the effect starts. -/
def startTag : Effect → Option Tag
  | .countChanged callback _ _ => some callback.m_tag
  | .errorOccured callback _ => some callback.m_tag
  | .invoked handler _ => some handler.m_tag
  | _ => none
/-- The tag of the handler or callback that the job has. -/
def jobTag : Job → Option Tag
  | .countJob call_count_changed _ => some call_count_changed.m_tag
  | .errorJob error_occured _ => some error_occured.m_tag
  | .callJob _ _ invoke_base => some invoke_base.m_tag
  | .resultJob _ => none
/-- The tag of the handler or callback that the effect starts or posts. -/
def heldTag : Effect → Option Tag
  | .posted _ job => jobTag job
  | effect => startTag effect
/-- The effect is a call of code of the user, or of the transport. -/
def runsUser : Effect → Bool
  | .write _ => true
  | effect => (startTag effect).isSome

/-- A dispatch, or a job that runs: the effects that are left, and whether the
    code of the user that the last one called still runs. -/
structure Frame where
  effects : List Effect
  user : Bool := false
/-- The program: one endpoint and its threads; `guards` are the objects
    `SetCallCountChangedGuard` that exist, with their `m_old_handler`. -/
structure World where
  store : CallInfoStore := {}
  proc_map : ProcMap := emptyMap
  transport : Option TransportShare := none
  inter_thread : Option Transthread := none
  threads : Worker → List Frame := fun _ => []
  queues : Worker → List Job := fun _ => []
  guards : Guard → Option (Option Callback) := fun _ => none
  history : List Event := []
def World.ipc (w : World) : Internals where
  m_proc_map := w.proc_map
  m_transport := w.transport
  m_inter_thread_nullable := w.inter_thread

/-- `Invoke` of a job. -/
def jobInvoke (w : World) : Job → List Effect
  | .countJob call_count_changed call_info =>
    [.countChanged call_count_changed call_info (w.store.call_infos call_info).m_call_count]
  | .errorJob error_occured arg => [.errorOccured error_occured arg]
  | .callJob call_info_data respond_id invoke_base =>
    callJobInvoke w.transport w.inter_thread call_info_data invoke_base respond_id
  | .resultJob result => resultJobInvoke w.transport result

/-- What code of the user does, and the event loop of a thread. -/
inductive Operation
  | addProcSignature (signature : Signature) (invoke : Option InvokeRemote) (comment : List (BitVec 8))
  | setCallCountChanged (new_val : Option Callback)
  | setErrorHandler (new_val : Option Callback)
  | guardBegins (guard : Guard) (handler : Option Callback)
  | guardEnds (guard : Guard)
  | clearHandlersWithTag (tag : Tag)
  /-- A packet is dispatched. -/
  | invokeLocal (call_info_data : DataStream) (id : CallId)
  /-- The first job of the thread's queue is run. -/
  | runJob
inductive Action
  | call (operation : Operation)
  /-- The next effect, once the code of the user returned. -/
  | next

/-- The record of a handler that was added. -/
def addedEvents (invoke : Option InvokeRemote) (added : Option CallInfoPtr) : List Event :=
  match invoke with
  | some invoke => if invoke.is_callable && added.isSome then [.registered invoke.m_tag] else []
  | none => []
/-- The record of a callback that was set. -/
def setEvents (new_val : Option Callback) : List Event :=
  match new_val with
  | some callback => if callback.is_callable then [.registered callback.m_tag] else []
  | none => []

/-- The thread begins a dispatch or a job. -/
def World.push (w : World) (t : Worker) (effects : List Effect) : World :=
  { w with threads := Function.update w.threads t ({ effects } :: w.threads t) }
/-- An operation of the thread. -/
def operate (w : World) (t : Worker) : Operation → Option World
  | .addProcSignature signature invoke comment =>
    let added := addProcSignature w.store w.proc_map signature invoke comment
    some { w with
      store := added.1
      proc_map := added.2.1
      history := w.history ++ addedEvents invoke added.2.2 }
  | .setCallCountChanged new_val =>
    some { w with
      proc_map := (setCallCountChanged w.proc_map new_val).1
      history := w.history ++ setEvents new_val }
  | .setErrorHandler new_val =>
    some { w with
      proc_map := (setErrorHandler w.proc_map new_val).1
      history := w.history ++ setEvents new_val }
  | .guardBegins guard handler =>
    let set := setCallCountChanged w.proc_map handler
    if (w.guards guard).isNone then
      some { w with
        proc_map := set.1
        guards := Function.update w.guards guard (some set.2)
        history := w.history ++ setEvents handler }
    else none
  | .guardEnds guard =>
    (w.guards guard).map fun m_old_handler =>
      { w with
        proc_map := (setCallCountChanged w.proc_map m_old_handler).1
        guards := Function.update w.guards guard none }
  | .clearHandlersWithTag tag =>
    some { w with
      proc_map := clearProcsWithTag w.store w.proc_map tag
      history := w.history ++ [.cleared tag] }
  | .invokeLocal call_info_data id =>
    (Dispatch.invokeLocal w.store.call_infos w.ipc call_info_data id).map fun done =>
      { w with store := { w.store with call_infos := done.1 } }.push t done.2
  | .runJob =>
    match w.queues t with
    | [] => none
    | job :: rest => some ({ w with queues := Function.update w.queues t rest }.push t (jobInvoke w job))
/-- An effect of the topmost frame of the thread; a job for `DirectCallPseudoId`
    is run at once. -/
def perform (w : World) (t : Worker) : Effect → World
  | .posted (some thread_id) job =>
    { w with queues := Function.update w.queues thread_id (w.queues thread_id ++ [job]) }
  | .posted none job => w.push t (jobInvoke w job)
  | effect => { w with history := w.history ++ (startTag effect).toList.map .started }

/-- A thread can do something: it is idle, or runs code of the user. -/
def ready : List Frame → Bool
  | [] => true
  | frame :: _ => frame.user
def step (w : World) : Worker × Action → Option World
  | (t,.call operation) => if ready (w.threads t) then operate w t operation else none
  | (t,.next) =>
    match w.threads t with
    | [] => none
    | ⟨[],_⟩ :: below => some { w with threads := Function.update w.threads t below }
    | ⟨effect :: rest,_⟩ :: below =>
      let behind : Frame := { effects := rest, user := runsUser effect }
      some (perform { w with threads := Function.update w.threads t (behind :: below) } t effect)

end IpcPortable.Workers
