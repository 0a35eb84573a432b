import Mathlib.Logic.Function.Basic
import IpcPortable.Packets

/-!
`PendingResponces`: what the threads of an endpoint share under `m_lock`, and
the three sections of code that hold the lock. A thread is named by its id; the
packets that were received are sorted by their type, so that no reply can be in
the queue of calls and no call among the replies.
-/
namespace IpcPortable.Pending
open IpcPortable.DataStream IpcPortable.Packets
variable {Tid : Type}

/-! ### The lock of the transport -/

/-- `LockCurrentThreadId`; no thread has the id `id()`. -/
structure LockCurrentThreadId (Tid : Type) where
  m_locked_id : Option Tid := none
/-- `lock`, and whether its assertion failed. -/
def LockCurrentThreadId.lock (l : LockCurrentThreadId Tid) (get_id : Tid) : LockCurrentThreadId Tid × Bool :=
  ({ m_locked_id := some get_id },l.m_locked_id ≠ none)
/-- `unlock`. -/
def LockCurrentThreadId.unlock (_ : LockCurrentThreadId Tid) : LockCurrentThreadId Tid := { m_locked_id := none }
/-- `IsLocked`. -/
def LockCurrentThreadId.isLocked (l : LockCurrentThreadId Tid) : Bool := l.m_locked_id ≠ none
/-- `IsCurrent`. -/
def LockCurrentThreadId.isCurrent [DecidableEq Tid] (l : LockCurrentThreadId Tid) (get_id : Tid) : Bool := l.m_locked_id = some get_id

/-! ### The pending packets -/

/-- A packet that asks for something: a call, or a request to enumerate. -/
def Incoming (buffer : CallDataBuffer) : Prop := buffer.header.type = pt_enumerate ∨ buffer.header.type = pt_call
/-- A packet that is neither missing nor incoming. -/
def Reply (buffer : CallDataBuffer) : Prop := pt_call < buffer.header.type

instance (buffer : CallDataBuffer) : Decidable (Incoming buffer) := inferInstanceAs (Decidable (_ ∨ _))
instance (buffer : CallDataBuffer) : Decidable (Reply buffer) := inferInstanceAs (Decidable (_ < _))

theorem incoming_iff (buffer : CallDataBuffer) :
    Incoming buffer ↔ buffer.header.type ≠ pt_undefined ∧ buffer.header.type ≤ pt_call := by
  unfold Incoming pt_undefined pt_enumerate pt_call
  bv_omega

theorem Incoming.defined {buffer : CallDataBuffer} (incoming : Incoming buffer) : buffer.header.type ≠ pt_undefined :=
  ((incoming_iff buffer).mp incoming).1

theorem Reply.defined {buffer : CallDataBuffer} (reply : Reply buffer) : buffer.header.type ≠ pt_undefined := by
  unfold Reply pt_call at reply
  unfold pt_undefined
  bv_omega

theorem Reply.not_incoming {buffer : CallDataBuffer} (reply : Reply buffer) : ¬ Incoming buffer := by
  unfold Reply pt_call at reply
  unfold Incoming pt_enumerate pt_call
  bv_omega

theorem default_not_incoming : ¬ Incoming ({} : CallDataBuffer) := by decide

theorem default_not_reply : ¬ Reply ({} : CallDataBuffer) := by decide

/-- `PendingResponces`. The threads blocked in `m_write_cond` are those that
    were not notified since they began to wait. -/
structure PendingResponces (Tid : Type) where
  m_thread_waiting_transport : LockCurrentThreadId Tid := {}
  m_incremental_id : CallId := 0
  m_write_cond : List Tid := []
  m_id_data_return : CallId → Option CallDataBuffer := fun _ => none
  m_data_incoming_call : List CallDataBuffer := []
  replies : ∀ {id : CallId} {buffer : CallDataBuffer}, m_id_data_return id = some buffer →
    Reply buffer ∧ buffer.header.id = id := by intro _ _ found; cases found
  calls : ∀ {buffer : CallDataBuffer}, buffer ∈ m_data_incoming_call → Incoming buffer := by intro _ member; cases member

theorem no_replies {id : CallId} {buffer : CallDataBuffer} (found : (none : Option CallDataBuffer) = some buffer) :
    Reply buffer ∧ buffer.header.id = id := by cases found
theorem no_calls {buffer : CallDataBuffer} (member : buffer ∈ ([] : List CallDataBuffer)) : Incoming buffer := by cases member

/-- `insert` of a map: a packet that is there stays. -/
def PendingResponces.insertReply (p : PendingResponces Tid) (buffer : CallDataBuffer) (reply : Reply buffer) :
    PendingResponces Tid where
  m_thread_waiting_transport := p.m_thread_waiting_transport
  m_incremental_id := p.m_incremental_id
  m_write_cond := p.m_write_cond
  m_id_data_return :=
    if (p.m_id_data_return buffer.header.id).isSome then p.m_id_data_return
    else Function.update p.m_id_data_return buffer.header.id (some buffer)
  m_data_incoming_call := p.m_data_incoming_call
  replies := by
    intro id stored found
    by_cases present : (p.m_id_data_return buffer.header.id).isSome
    · rw [if_pos present] at found
      exact p.replies found
    · rw [if_neg present] at found
      by_cases same : id = buffer.header.id
      · subst same
        rw [Function.update_self] at found
        cases found
        exact ⟨reply,rfl⟩
      · rw [Function.update_of_ne same] at found
        exact p.replies found
  calls := p.calls
/-- `erase` of a map. -/
def PendingResponces.eraseReply (p : PendingResponces Tid) (id : CallId) : PendingResponces Tid where
  m_thread_waiting_transport := p.m_thread_waiting_transport
  m_incremental_id := p.m_incremental_id
  m_write_cond := p.m_write_cond
  m_id_data_return := Function.update p.m_id_data_return id none
  m_data_incoming_call := p.m_data_incoming_call
  replies := by
    intro other stored found
    by_cases same : other = id
    · subst same
      simp at found
    · rw [Function.update_of_ne same] at found
      exact p.replies found
  calls := p.calls
/-- `push_back`. -/
def PendingResponces.pushCall (p : PendingResponces Tid) (buffer : CallDataBuffer) (incoming : Incoming buffer) :
    PendingResponces Tid where
  m_thread_waiting_transport := p.m_thread_waiting_transport
  m_incremental_id := p.m_incremental_id
  m_write_cond := p.m_write_cond
  m_id_data_return := p.m_id_data_return
  m_data_incoming_call := p.m_data_incoming_call ++ [buffer]
  replies := p.replies
  calls := by
    intro stored member
    rcases List.mem_append.mp member with member | member
    · exact p.calls member
    · exact List.mem_singleton.mp member ▸ incoming
/-- `pop_front`. -/
def PendingResponces.popCall (p : PendingResponces Tid) : PendingResponces Tid where
  m_thread_waiting_transport := p.m_thread_waiting_transport
  m_incremental_id := p.m_incremental_id
  m_write_cond := p.m_write_cond
  m_id_data_return := p.m_id_data_return
  m_data_incoming_call := p.m_data_incoming_call.tail
  replies := p.replies
  calls := fun member => p.calls (List.mem_of_mem_tail member)
/-- `wait` of the condition variable, up to the point where it blocks. -/
def PendingResponces.wait (p : PendingResponces Tid) (get_id : Tid) : PendingResponces Tid :=
  { p with m_write_cond := get_id :: p.m_write_cond }
/-- The end of `wait`, after a notification or without one. -/
def PendingResponces.wake [DecidableEq Tid] (p : PendingResponces Tid) (get_id : Tid) : PendingResponces Tid :=
  { p with m_write_cond := p.m_write_cond.filter (· ≠ get_id) }
/-- `notify_all`. -/
def PendingResponces.notifyAll (p : PendingResponces Tid) : PendingResponces Tid := { p with m_write_cond := [] }

/-! ### The sections -/

/-- The next id; the counter passes over the invalid one. -/
def PendingResponces.nextId (p : PendingResponces Tid) : CallId :=
  if p.m_incremental_id = c_invalid_id then p.m_incremental_id + 1 else p.m_incremental_id
/-- The loop of `NewCallId`. Every round draws one nonzero id. -/
def newCallIdLoop : Nat → PendingResponces Tid → Option (CallId × PendingResponces Tid)
  | 0, _ => none
  | rounds + 1, p =>
    let new_id := p.nextId
    let p := { p with m_incremental_id := new_id + 1 }
    if (p.m_id_data_return new_id).isSome then newCallIdLoop rounds p
    else some (new_id,p)
/-- `NewCallId`; after 2^32 rounds every id was drawn, so that the loop does not
    end when all of them have a reply pending. -/
def newCallId (p : PendingResponces Tid) : Option (CallId × PendingResponces Tid) := newCallIdLoop (2^32) p

/-- How a round of the inner loop of the ReadBuffer section ends. -/
inductive Round
  /-- The function returns: another thread is inside the transport. -/
  | busy
  /-- The thread waits and then begins another round. -/
  | waits
  /-- The reply that was waited for. -/
  | response (buffer : CallDataBuffer)
  /-- The first packet of the queue. -/
  | call (buffer : CallDataBuffer)
  /-- The transport is locked, `asserted` when the assertion of `lock` failed. -/
  | transport (asserted : Bool)
/-- The variable `buffer` after the section. -/
def Round.buffer : Round → CallDataBuffer
  | .response buffer => buffer
  | .call buffer => buffer
  | _ => {}

/-- One round of the inner loop of the ReadBuffer section. -/
def readBuffer (p : PendingResponces Tid) (get_id : Tid) (wait_response_id : CallId) (process_incoming_calls : Bool) :
    PendingResponces Tid × Round :=
  match p.m_id_data_return wait_response_id with
  | some buffer => (p.eraseReply wait_response_id,.response buffer)
  | none =>
    match (if process_incoming_calls then p.m_data_incoming_call.head? else none) with
    | some buffer => (p.popCall,.call buffer)
    | none =>
      if p.m_thread_waiting_transport.isLocked then
        if wait_response_id ≠ c_invalid_id then (p.wait get_id,.waits) else (p,.busy)
      else
        let locked := p.m_thread_waiting_transport.lock get_id
        ({ p with m_thread_waiting_transport := locked.1 },.transport locked.2)

/-- A packet that was read is put where it belongs; the answer is `new_return_buffer`. -/
def PendingResponces.store (p : PendingResponces Tid) (call_data_buffer : CallDataBuffer) : PendingResponces Tid × Bool :=
  if defined : call_data_buffer.header.type ≠ pt_undefined then
    if incoming : call_data_buffer.header.type ≤ pt_call then
      (p.pushCall call_data_buffer ((incoming_iff _).mpr ⟨defined,incoming⟩),false)
    else (p.insertReply call_data_buffer (BitVec.not_le.mp incoming),true)
  else (p,false)
/-- The WriteBuffer section, which answers `process_more_incoming_calls` and `new_return_buffer`. -/
def writeBuffer (p : PendingResponces Tid) (process_incoming_calls : Bool) (call_data_buffer : CallDataBuffer) :
    PendingResponces Tid × Bool × Bool :=
  let unlocked := { p with m_thread_waiting_transport := p.m_thread_waiting_transport.unlock }
  let stored := unlocked.store call_data_buffer
  let process_more_incoming_calls := process_incoming_calls && !stored.1.m_data_incoming_call.isEmpty
  (stored.1.notifyAll,process_more_incoming_calls,stored.2)

/-! ### What the sections do -/

/-- Every way a round of the ReadBuffer section can go. -/
inductive RoundEnds (p : PendingResponces Tid) (get_id : Tid) (id : CallId) (process_incoming_calls : Bool) :
    PendingResponces Tid → Round → Prop
  | response {buffer : CallDataBuffer} (found : p.m_id_data_return id = some buffer) :
    RoundEnds p get_id id process_incoming_calls (p.eraseReply id) (.response buffer)
  | call {buffer : CallDataBuffer} {rest : List CallDataBuffer} (absent : p.m_id_data_return id = none)
    (allowed : process_incoming_calls = true) (first : p.m_data_incoming_call = buffer :: rest) :
    RoundEnds p get_id id process_incoming_calls p.popCall (.call buffer)
  | waits (absent : p.m_id_data_return id = none) (empty : process_incoming_calls = true → p.m_data_incoming_call = [])
    (locked : p.m_thread_waiting_transport.m_locked_id ≠ none) (waiting : id ≠ c_invalid_id) :
    RoundEnds p get_id id process_incoming_calls (p.wait get_id) .waits
  | busy (absent : p.m_id_data_return id = none) (empty : process_incoming_calls = true → p.m_data_incoming_call = [])
    (locked : p.m_thread_waiting_transport.m_locked_id ≠ none) (polling : id = c_invalid_id) :
    RoundEnds p get_id id process_incoming_calls p .busy
  | transport (absent : p.m_id_data_return id = none)
    (empty : process_incoming_calls = true → p.m_data_incoming_call = [])
    (unlocked : p.m_thread_waiting_transport.m_locked_id = none) :
    RoundEnds p get_id id process_incoming_calls
      { p with m_thread_waiting_transport := { m_locked_id := some get_id } } (.transport false)

theorem readBuffer_ends (p : PendingResponces Tid) (get_id : Tid) (id : CallId) (process_incoming_calls : Bool) :
    RoundEnds p get_id id process_incoming_calls (readBuffer p get_id id process_incoming_calls).1
      (readBuffer p get_id id process_incoming_calls).2 := by
  unfold readBuffer
  cases found : p.m_id_data_return id with
  | some buffer => exact .response found
  | none =>
    cases first : (if process_incoming_calls then p.m_data_incoming_call.head? else none) with
    | some buffer =>
      obtain ⟨allowed,head⟩ : process_incoming_calls = true ∧ p.m_data_incoming_call.head? = some buffer := by
        simpa using first
      obtain ⟨rest,queue⟩ := List.head?_eq_some_iff.mp head
      exact .call found allowed queue
    | none =>
      have empty : process_incoming_calls = true → p.m_data_incoming_call = [] := fun allowed => by
        simpa [allowed] using first
      by_cases locked : p.m_thread_waiting_transport.m_locked_id = none
      · simpa [LockCurrentThreadId.isLocked,LockCurrentThreadId.lock,locked] using RoundEnds.transport found empty locked
      · by_cases polling : id = c_invalid_id
        · simpa [LockCurrentThreadId.isLocked,locked,polling] using RoundEnds.busy (polling ▸ found) empty locked rfl
        · simpa [LockCurrentThreadId.isLocked,locked,polling] using RoundEnds.waits found empty locked polling

theorem nextId_nonzero (p : PendingResponces Tid) : p.nextId ≠ c_invalid_id := by
  unfold PendingResponces.nextId
  by_cases first : p.m_incremental_id = c_invalid_id
  · simp [first,c_invalid_id]
  · simp [first]

/-- A new id is not the invalid one and has no reply pending, and only the
    counter changes. -/
theorem newCallIdLoop_result {rounds : Nat} {p p' : PendingResponces Tid} {id : CallId}
    (drawn : newCallIdLoop rounds p = some (id,p')) :
    id ≠ c_invalid_id ∧ p.m_id_data_return id = none ∧ p' = { p with m_incremental_id := p'.m_incremental_id } := by
  induction rounds generalizing p with
  | zero => cases drawn
  | succ rounds ih =>
    unfold newCallIdLoop at drawn
    dsimp only at drawn
    split at drawn
    · obtain ⟨nonzero,absent,kept⟩ := ih drawn
      exact ⟨nonzero,absent,kept⟩
    · rename_i free
      cases drawn
      exact ⟨nextId_nonzero p,by simpa using free,rfl⟩

theorem newCallId_result {p p' : PendingResponces Tid} {id : CallId} (drawn : newCallId p = some (id,p')) :
    id ≠ c_invalid_id ∧ p.m_id_data_return id = none ∧ p' = { p with m_incremental_id := p'.m_incremental_id } :=
  newCallIdLoop_result drawn

/-- Where the next id has no reply pending, it is the new one. -/
theorem newCallId_next {p : PendingResponces Tid} (free : p.m_id_data_return p.nextId = none) :
    newCallId p = some (p.nextId,{ p with m_incremental_id := p.nextId + 1 }) := by
  have round (rounds : Nat) : newCallIdLoop (rounds + 1) p = some (p.nextId,{ p with m_incremental_id := p.nextId + 1 }) := by
    simp [newCallIdLoop,free]
  exact round (2^32 - 1)

section fields
variable (p : PendingResponces Tid) (id : CallId) (buffer : CallDataBuffer) (t : Tid)

@[simp] theorem eraseReply_calls : (p.eraseReply id).m_data_incoming_call = p.m_data_incoming_call := rfl
@[simp] theorem eraseReply_id : (p.eraseReply id).m_id_data_return id = none := Function.update_self ..
@[simp] theorem popCall_calls : p.popCall.m_data_incoming_call = p.m_data_incoming_call.tail := rfl
@[simp] theorem wait_calls : (p.wait t).m_data_incoming_call = p.m_data_incoming_call := rfl

theorem eraseReply_none {other : CallId} (absent : p.m_id_data_return other = none) :
    (p.eraseReply id).m_id_data_return other = none := by
  by_cases same : other = id
  · rw [same,eraseReply_id]
  · exact (Function.update_of_ne same ..).trans absent

theorem store_transport : (p.store buffer).1.m_thread_waiting_transport = p.m_thread_waiting_transport := by
  unfold PendingResponces.store
  split
  · split <;> rfl
  · rfl

/-- Exactly the incoming packets go to the end of the queue. -/
theorem store_calls : (p.store buffer).1.m_data_incoming_call =
    p.m_data_incoming_call ++ [buffer].filter fun buffer => Incoming buffer := by
  unfold PendingResponces.store
  split
  · rename_i defined
    split
    · rename_i type
      have incoming : Incoming buffer := (incoming_iff buffer).mpr ⟨defined,type⟩
      simp [PendingResponces.pushCall,incoming]
    · rename_i type
      have reply : ¬ Incoming buffer := fun incoming => type ((incoming_iff buffer).mp incoming).2
      simp [PendingResponces.insertReply,reply]
  · rename_i missing
    have none : ¬ Incoming buffer := fun incoming => missing incoming.defined
    simp [none]

/-- Exactly the replies are inserted. -/
theorem store_replies : (p.store buffer).1.m_id_data_return =
    if Reply buffer ∧ p.m_id_data_return buffer.header.id = none then
      Function.update p.m_id_data_return buffer.header.id (some buffer)
    else p.m_id_data_return := by
  unfold PendingResponces.store
  split
  · split
    · rename_i type
      have call : ¬ Reply buffer := fun reply => absurd type (BitVec.not_le.mpr reply)
      simp [PendingResponces.pushCall,call]
    · rename_i type
      have reply : Reply buffer := BitVec.not_le.mp type
      cases found : p.m_id_data_return buffer.header.id with
      | none => simp [PendingResponces.insertReply,reply,found]
      | some stored => simp [PendingResponces.insertReply,found]
  · rename_i missing
    have none : ¬ Reply buffer := fun reply => missing reply.defined
    simp [none]

theorem store_counter : (p.store buffer).1.m_incremental_id = p.m_incremental_id := by
  unfold PendingResponces.store
  split
  · split <;> rfl
  · rfl

variable (process_incoming_calls : Bool)

@[simp] theorem writeBuffer_transport :
    (writeBuffer p process_incoming_calls buffer).1.m_thread_waiting_transport.m_locked_id = none :=
  congrArg _ (store_transport _ buffer)
@[simp] theorem writeBuffer_counter :
    (writeBuffer p process_incoming_calls buffer).1.m_incremental_id = p.m_incremental_id :=
  store_counter _ buffer
@[simp] theorem writeBuffer_calls : (writeBuffer p process_incoming_calls buffer).1.m_data_incoming_call =
    p.m_data_incoming_call ++ [buffer].filter fun buffer => Incoming buffer :=
  store_calls _ buffer
theorem writeBuffer_replies : (writeBuffer p process_incoming_calls buffer).1.m_id_data_return =
    if Reply buffer ∧ p.m_id_data_return buffer.header.id = none then
      Function.update p.m_id_data_return buffer.header.id (some buffer)
    else p.m_id_data_return :=
  store_replies _ buffer

section waking
variable [DecidableEq Tid]

@[simp] theorem wake_cond : (p.wake t).m_write_cond = p.m_write_cond.filter (· ≠ t) := rfl

end waking

end fields

end IpcPortable.Pending
