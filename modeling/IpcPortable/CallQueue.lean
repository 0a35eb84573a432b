import IpcPortable.HandOver

/-!
The packets that ask for something, on their way from the transport through the
queue to `ProcessBuffer`: along every run none of them is lost, duplicated or
overtaken (`incoming_calls_kept`). A step moves a packet from one place to the
next, and the places put together are the record of what came in.
-/
namespace IpcPortable.CallQueue
open IpcPortable.Runs IpcPortable.DataStream IpcPortable.Packets IpcPortable.Pending IpcPortable.Endpoints
open IpcPortable.EndpointMoves IpcPortable.HandOver
variable {Tid κ : Type}

def receivedPacket : Event κ → Option CallDataBuffer
  | .received buffer => some buffer
  | _ => none
def enteredPacket : Event κ → Option CallDataBuffer
  | .entered buffer => some buffer
  | _ => none
def tookCall : Event κ → Option CallDataBuffer
  | .tookCall buffer => some buffer
  | _ => none
def passedPacket : Event κ → Option CallDataBuffer
  | .passed buffer => some buffer
  | _ => none
/-- The packet that was read and did not enter yet. -/
def unenteredAt : Point → Option CallDataBuffer
  | .writeBuffer _ buffer => some buffer
  | _ => none
/-- The packet that was taken out and not passed yet. -/
def unpassedAt : Point → Option CallDataBuffer
  | .handling buffer => some buffer
  | _ => none
/-- The packets that the activations of a thread have. -/
def inStack (pick : Point → Option CallDataBuffer) (stack : List (Activation κ)) : List CallDataBuffer :=
  stack.flatMap fun frame => (pick frame.point).toList
abbrev unentered (stack : List (Activation κ)) : List CallDataBuffer := inStack unenteredAt stack
abbrev unpassed (stack : List (Activation κ)) : List CallDataBuffer := inStack unpassedAt stack
/-- The packets that ask for something. -/
def incoming (buffers : List CallDataBuffer) : List CallDataBuffer := buffers.filter fun buffer => Incoming buffer

@[simp] theorem incoming_nil : incoming [] = [] := rfl

@[simp] theorem incoming_append (a b : List CallDataBuffer) : incoming (a ++ b) = incoming a ++ incoming b :=
  List.filter_append a b

theorem incoming_call {buffer : CallDataBuffer} (call : Incoming buffer) : incoming [buffer] = [buffer] := by
  simp [incoming,call]

theorem incoming_reply {buffer : CallDataBuffer} (reply : Reply buffer) : incoming [buffer] = [] := by
  simp [incoming,reply.not_incoming]

@[simp] theorem inStack_append (pick : Point → Option CallDataBuffer) (above below : List (Activation κ)) :
    inStack pick (above ++ below) = inStack pick above ++ inStack pick below := by
  simp [inStack]

theorem unentered_idle {frame : Activation κ} (idle : frame.point.holds = false) : unenteredAt frame.point = none := by
  unfold Point.holds at idle
  unfold unenteredAt
  split at idle <;> simp_all

/-- What the reader has in its hands. -/
def inHand (s : Endpoint Tid κ) : List CallDataBuffer :=
  match s.pending.m_thread_waiting_transport.m_locked_id with
  | some t => unentered (s.threads t)
  | none => []

theorem inHand_locked {s : Endpoint Tid κ} {t : Tid} (locked : s.pending.m_thread_waiting_transport.m_locked_id = some t) :
    inHand s = unentered (s.threads t) := by
  simp [inHand,locked]

theorem inHand_unlocked {s : Endpoint Tid κ} (unlocked : s.pending.m_thread_waiting_transport.m_locked_id = none) :
    inHand s = [] := by
  simp [inHand,unlocked]

theorem inHand_same {s s' : Endpoint Tid κ}
    (transport : s'.pending.m_thread_waiting_transport = s.pending.m_thread_waiting_transport)
    (same : ∀ t, unentered (s'.threads t) = unentered (s.threads t)) : inHand s' = inHand s := by
  simp only [inHand,transport,same]

variable [DecidableEq Tid]

/-! ### One step -/

section activation
variable {call_info : CallInfo κ} {t : Tid} {p q : PendingResponces Tid} {frame : Activation κ} {move : Move}
variable {out : Advance Tid κ}

/-- What enters the queue leaves it in the same order. -/
theorem moves_queue (moved : Moves call_info t p frame move out) :
    p.m_data_incoming_call ++ incoming (out.events.filterMap enteredPacket) =
      out.events.filterMap tookCall ++ out.pending.m_data_incoming_call := by
  cases moved with
  | issues at_point drawn =>
    rw [(newCallId_result drawn).2.2]
    exact List.append_nil _
  | takesResponse begins => simp [begins_calls begins,List.filterMap_cons,enteredPacket,tookCall]
  | takesCall begins absent allowed first =>
    rw [begins_calls begins] at first
    simp [begins_calls begins,first,List.filterMap_cons,enteredPacket,tookCall]
  | waits begins => simp [begins_calls begins]
  | busy begins => simp [begins_calls begins,Activation.leave,List.filterMap_cons,enteredPacket,tookCall]
  | locks begins => simp [begins_calls begins]
  | _ => simp [Activation.leave,List.filterMap_cons,enteredPacket,tookCall,incoming]

theorem begins_unpassed (begins : Begins t p frame q) : unpassedAt frame.point = none := by
  rcases begins_point begins with at_point | at_point <;> rw [at_point] <;> rfl

/-- What is read enters in the same order. -/
theorem moves_unentered (moved : Moves call_info t p frame move out) :
    unentered [frame] ++ out.events.filterMap receivedPacket =
      out.events.filterMap enteredPacket ++ unentered out.frames := by
  have began {q : PendingResponces Tid} (begins : Begins t p frame q) : unentered [frame] = [] := by
    simp [inStack,unentered_idle (begins_idle begins)]
  cases moved with
  | takesResponse begins => rw [began begins]; rfl
  | takesCall begins => rw [began begins]; rfl
  | waits begins => rw [began begins]; rfl
  | busy begins => rw [began begins]; rfl
  | locks begins => rw [began begins]; rfl
  | _ at_point =>
    simp [inStack,at_point,unenteredAt,enteredPacket,receivedPacket,Activation.at,Activation.leave,
      List.filterMap_cons]

/-- What is taken out is passed on in the same order. -/
theorem moves_unpassed (moved : Moves call_info t p frame move out) :
    incoming (unpassed [frame]) ++ out.events.filterMap tookCall =
      incoming (out.events.filterMap passedPacket) ++ incoming (unpassed out.frames) := by
  have began {q : PendingResponces Tid} (begins : Begins t p frame q) : unpassed [frame] = [] := by
    simp [inStack,begins_unpassed begins]
  have handled {buffer : CallDataBuffer} : unpassed [frame.at (.handling buffer)] = [buffer] := rfl
  cases moved with
  | @takesResponse q buffer begins found =>
    rw [began begins,handled,incoming_reply (q.replies found).1]
    rfl
  | @takesCall q buffer rest begins absent allowed first =>
    rw [began begins,handled,incoming_call (q.calls (first ▸ List.mem_cons_self))]
    rfl
  | waits begins => rw [began begins]; rfl
  | busy begins => rw [began begins]; rfl
  | locks begins => rw [began begins]; rfl
  | _ at_point =>
    simp [inStack,at_point,unpassedAt,tookCall,passedPacket,Activation.at,Activation.leave,List.filterMap_cons]

/-- Only the reader touches the record of what was read. -/
theorem moves_idle (moved : Moves call_info t p frame move out) (idle : frame.point.holds = false) :
    out.events.filterMap enteredPacket = [] ∧ out.events.filterMap receivedPacket = [] ∧ unentered out.frames = [] := by
  cases moved with
  | receives at_point => simp [at_point,Point.holds] at idle
  | receivesNothing at_point => simp [at_point,Point.holds] at idle
  | enters at_point => simp [at_point,Point.holds] at idle
  | entersLast at_point => simp [at_point,Point.holds] at idle
  | _ => exact ⟨rfl,rfl,rfl⟩

end activation

/-! ### Every run -/

structure Kept (s : Endpoint Tid κ) : Prop where
  nested : ∀ t, ∀ frame ∈ (s.threads t).tail, frame.point.nests = true
  queue : incoming (picked enteredPacket s.events) = picked tookCall s.events ++ s.pending.m_data_incoming_call
  hands : picked receivedPacket s.events = picked enteredPacket s.events ++ inHand s
  passed : ∀ t, pickedBy t tookCall s.events =
    incoming (pickedBy t passedPacket s.events) ++ incoming (unpassed (s.threads t))

section nested
omit [DecidableEq Tid]

theorem ready_nested {stack : List (Activation κ)} (free : ready stack = true)
    (nested : ∀ frame ∈ stack.tail, frame.point.nests = true) : ∀ frame ∈ stack, frame.point.nests = true := by
  cases stack with
  | nil => exact fun _ member => by cases member
  | cons top below =>
    intro frame member
    rcases List.mem_cons.mp member with rfl | inner
    · exact free
    · exact nested frame inner

theorem unentered_enter (operation : Operation κ) (stack : List (Activation κ)) :
    unentered (enter operation :: stack) = unentered stack := by
  cases operation <;> rfl

theorem unpassed_enter (operation : Operation κ) (stack : List (Activation κ)) :
    unpassed (enter operation :: stack) = unpassed stack := by
  cases operation <;> rfl

theorem unentered_nests {point : Point} (nests : point.nests = true) : unenteredAt point = none := by
  cases point <;> first | rfl | cases nests

theorem unpassed_nests {point : Point} (nests : point.nests = true) : unpassedAt point = none := by
  cases point <;> first | rfl | cases nests

variable {pick : Point → Option CallDataBuffer} (empty : ∀ {point}, point.nests = true → pick point = none)
include empty

/-- An activation that runs code of the user has no packet in its hands. -/
theorem inStack_nested {stack : List (Activation κ)} (nested : ∀ frame ∈ stack, frame.point.nests = true) :
    inStack pick stack = [] := by
  refine List.flatMap_eq_nil_iff.mpr fun frame member => ?_
  rw [empty (nested frame member)]
  rfl

theorem inStack_top (frame : Activation κ) {below : List (Activation κ)}
    (nested : ∀ frame ∈ below, frame.point.nests = true) : inStack pick (frame :: below) = inStack pick [frame] := by
  rw [← List.singleton_append,inStack_append,inStack_nested empty nested,List.append_nil]

theorem inStack_length {stack : List (Activation κ)} (nested : ∀ frame ∈ stack.tail, frame.point.nests = true) :
    (inStack pick stack).length ≤ 1 := by
  cases stack with
  | nil => exact Nat.zero_le 1
  | cons top below =>
    rw [List.tail_cons] at nested
    rw [inStack_top empty top nested]
    cases has : pick top.point <;> simp [inStack,has]

end nested

theorem start_kept {s : Endpoint Tid κ} (kept : Kept s) {t : Tid} (free : ready (s.threads t) = true)
    (operation : Operation κ) :
    Kept { s with threads := Function.update s.threads t (enter operation :: s.threads t) } where
  nested v := by
    by_cases same : v = t
    · subst same
      simpa using ready_nested free (kept.nested v)
    · simpa [same] using kept.nested v
  queue := kept.queue
  hands := by
    rw [kept.hands]
    congr 1
    symm
    refine inHand_same rfl fun v => ?_
    by_cases same : v = t
    · subst same
      simpa using unentered_enter operation (s.threads v)
    · simp [same]
  passed v := by
    rw [kept.passed v]
    by_cases same : v = t
    · subst same
      simp [unpassed_enter]
    · simp [same]

theorem moves_kept {call_info : CallInfo κ} {s : Endpoint Tid κ} (owned : Owned s) (kept : Kept s) {t : Tid}
    {frame : Activation κ} {below : List (Activation κ)} {move : Move} {out : Advance Tid κ}
    (running : s.threads t = frame :: below) (moved : Moves call_info t s.pending frame move out) :
    Kept { pending := out.pending
           threads := Function.update s.threads t (out.frames ++ below)
           events := s.events ++ out.events.map (t,·) } where
  nested v := by
    by_cases same : v = t
    · subst same
      have nested : ∀ frame ∈ below, frame.point.nests = true := by simpa [running] using kept.nested v
      intro other member
      simp only [Function.update_self] at member
      rcases moves_frames moved with gone | ⟨next,goes_on⟩
      · rw [gone,List.nil_append] at member
        exact nested other (List.mem_of_mem_tail member)
      · rw [goes_on] at member
        exact nested other member
    · simpa [same] using kept.nested v
  queue := by
    rw [picked_append,picked_append,incoming_append,kept.queue,List.append_assoc,moves_queue moved,List.append_assoc]
  hands := by
    have nested : ∀ frame ∈ below, frame.point.nests = true := by simpa [running] using kept.nested t
    have mine : unentered (s.threads t) = unentered [frame] := by
      rw [running,unentered,inStack_top unentered_nests frame nested]
    have read := moves_unentered moved
    rw [picked_append,picked_append,kept.hands]
    by_cases inside : frame.point.holds = true
    · have current := (owned.owner t).mpr (by simp [running,inside])
      rw [inHand_locked current,mine,List.append_assoc,read,List.append_assoc]
      congr 2
      rcases moves_transport moved with ⟨kept,_⟩ | ⟨unlocked,_⟩ | ⟨_,unlocked,outside⟩
      · rw [inHand_locked (t := t) (by rw [kept,current])]
        simp [inStack_nested unentered_nests nested]
      · simp [unlocked] at current
      · rw [inHand_unlocked unlocked]
        refine List.flatMap_eq_nil_iff.mpr fun next member => ?_
        rw [unentered_idle (Bool.eq_false_iff.mpr fun holds => outside ⟨next,member,holds⟩)]
        rfl
    · have idle := Bool.eq_false_iff.mpr inside
      obtain ⟨entered,received,empty⟩ := moves_idle moved idle
      have none_mine : unentered (s.threads t) = [] := by
        rw [mine]
        simp [inStack,unentered_idle idle]
      have none_after : inStack unenteredAt (out.frames ++ below) = [] := by
        have gone : inStack unenteredAt out.frames = [] := empty
        rw [inStack_append,gone,inStack_nested unentered_nests nested,List.append_nil]
      rw [entered,received,List.append_nil,List.append_nil]
      congr 1
      rcases moves_transport moved with ⟨transport,_⟩ | ⟨unlocked,locked,_⟩ | ⟨inside',_⟩
      · symm
        refine inHand_same transport fun v => ?_
        by_cases same : v = t
        · subst same
          simp [none_mine,none_after]
        · simp [same]
      · rw [inHand_unlocked unlocked,inHand_locked locked]
        simpa using none_after.symm
      · exact absurd inside' inside
  passed v := by
    by_cases same : v = t
    · subst same
      have nested : ∀ frame ∈ below, frame.point.nests = true := by simpa [running] using kept.nested v
      have before := kept.passed v
      rw [running,unpassed,inStack_top unpassed_nests frame nested] at before
      rw [pickedBy_self,pickedBy_self,before,List.append_assoc,moves_unpassed moved]
      simp [inStack_nested unpassed_nests nested]
    · rw [pickedBy_other (Ne.symm same),pickedBy_other (Ne.symm same)]
      simpa [same] using kept.passed v

theorem step_kept (call_info : CallInfo κ) :
    Preserves (step call_info) fun s : Endpoint Tid κ => Owned s ∧ Kept s := by
  refine (step_owned call_info).and ?_
  intro s action s' owned kept stepped
  cases step_steps stepped with
  | starts free => exact start_kept kept free _
  | moves running moved => exact moves_kept owned kept running moved

theorem empty_kept : Kept ({} : Endpoint Tid κ) where
  nested _ _ member := by cases member
  queue := rfl
  hands := rfl
  passed _ := rfl

theorem run_kept (call_info : CallInfo κ) (actions : List (Tid × Action κ)) :
    Kept (run (step call_info) {} actions) :=
  ((step_kept call_info).run ⟨empty_owned,empty_kept⟩ actions).2

/-- What came in went through the queue in order, and from there to
    `ProcessBuffer`, except for the packets that a reader or a thread that took
    one out has in its hands. -/
structure CallsKept (s : Endpoint Tid κ) : Prop where
  queue : incoming (picked enteredPacket s.events) = picked tookCall s.events ++ s.pending.m_data_incoming_call
  read : incoming (picked receivedPacket s.events) = incoming (picked enteredPacket s.events) ++ incoming (inHand s)
  read_one : (inHand s).length ≤ 1
  passed : ∀ t, pickedBy t tookCall s.events =
    incoming (pickedBy t passedPacket s.events) ++ incoming (unpassed (s.threads t))
  passed_one : ∀ t, (unpassed (s.threads t)).length ≤ 1

/-- In every state that any number of threads can reach, the calls and the
    requests to enumerate that were read and entered are those that were taken
    out followed by those in the queue, and each thread passed every one it took
    out to `ProcessBuffer` once, but for the last one if it has it in its hands. -/
theorem incoming_calls_kept (call_info : CallInfo κ) (actions : List (Tid × Action κ)) :
    CallsKept (run (step call_info) {} actions) := by
  have kept := run_kept call_info actions
  generalize run (step call_info) {} actions = s at kept
  refine ⟨kept.queue,?_,?_,kept.passed,fun t => inStack_length unpassed_nests (kept.nested t)⟩
  · rw [kept.hands,incoming_append]
  · cases locked : s.pending.m_thread_waiting_transport.m_locked_id with
    | none => simp [inHand_unlocked locked]
    | some t => exact inHand_locked locked ▸ inStack_length unentered_nests (kept.nested t)

end IpcPortable.CallQueue
