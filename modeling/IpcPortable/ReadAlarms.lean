import IpcPortable.AttendedQueues
import IpcPortable.ByteConnections

/-!
Two endpoints, each with the thread of its socket. `OnReadyRead` calls `ProcessTransport`
when the socket took something in, and has itself called again while something is left.
The other threads read the socket from the event loop of this thread too. So nothing
stays unread because nobody was told (`rings`), and where that thread does not wait
itself, both sides come to rest only when all calls are served (`rest_served`).
-/
namespace IpcPortable.ReadAlarms
open IpcPortable.Runs IpcPortable.DataStream IpcPortable.Packets IpcPortable.ProcMaps IpcPortable.Dispatch
open IpcPortable.Pending IpcPortable.EndpointMoves IpcPortable.HandOver IpcPortable.Matching IpcPortable.Responses
open IpcPortable.Enumerations IpcPortable.DueReplies IpcPortable.Numbering IpcPortable.LinkRuns IpcPortable.ReplyStages
open IpcPortable.SteadySides IpcPortable.Stalls IpcPortable.AttendedQueues
open IpcPortable.ByteConnections (move_arriving proceed_moves)
open IpcPortable.Connections hiding Deed step
open IpcPortable.Endpoints hiding step
open IpcPortable.Peers hiding Deed step
variable {Tid : Type} [DecidableEq Tid]

/-- The `IpcQt_TransporTcp` of a side: how many of the packets on their way are in its
    socket, how often `OnReadyRead` is posted, and the calls of it that are not over, the
    latest first. A call is the number of activations below it, and whether the signal
    `readyRead` is emitted by it. -/
structure Alarm where
  heard : Nat := 0
  posted : Nat := 0
  running : List (Nat × Bool) := []
/-- Both sides, with their sockets. -/
structure AlarmedConnection (Tid : Type) where
  parties : Connection Tid
  alarms : Bool → Alarm := fun _ => {}

inductive Deed (Tid : Type)
  | act (deed : Connections.Deed Tid)
  /-- The socket takes in `count` more packets, of those that are on their way, or only the
      beginning of one, and emits `readyRead` unless it does already. -/
  | readyRead (side : Bool) (count : Nat)
  /-- The event loop makes a call of `OnReadyRead` that was posted. -/
  | invoked (side : Bool)
  /-- The end of `OnReadyRead`; `part` is the beginning of a packet that is still to come. -/
  | checked (side : Bool) (part : Bool)

section step
variable (ipc : Bool → Internals) (thread : Bool → Tid) (b : AlarmedConnection Tid)

omit [DecidableEq Tid] in
/-- The activations of the thread of the socket. -/
def AlarmedConnection.stack (side : Bool) : List (Activation Invocation) := (b.parties side).endpoint.threads (thread side)
omit [DecidableEq Tid] in
/-- `ProcessTransport` returned to `OnReadyRead`. -/
def AlarmedConnection.checks (side : Bool) : Bool :=
  (b.alarms side).running.head?.map Prod.fst = some (b.stack thread side).length
omit [DecidableEq Tid] in
/-- The thread of the socket is in an event loop. -/
def AlarmedConnection.loops (side : Bool) : Bool := calm (b.stack thread side) && !b.checks thread side
omit [DecidableEq Tid] in
/-- The thread of the socket is in `waitForReadyRead` for its own `Read`. -/
def AlarmedConnection.waits (side : Bool) : Bool :=
  match b.stack thread side with
  | [] => false
  | frame :: _ => match frame.point with
    | .reading => frame.id ≠ c_invalid_id
    | _ => false
omit [DecidableEq Tid] in
def AlarmedConnection.setAlarm (side : Bool) (alarm : Alarm) : AlarmedConnection Tid :=
  { b with alarms := Function.update b.alarms side alarm }
/-- Who acts in an endpoint. -/
def actor : Connections.Deed Tid → Option (Bool × Tid)
  | .start side t _ => some (side,t)
  | .proceed side t => some (side,t)
  | .write side t => some (side,t)
  | .read side t _ _ => some (side,t)
  | .work _ _ => none
/-- The thread of the socket goes on when `OnReadyRead` is over. A `Read` of another thread
    is executed in the event loop; it takes a packet if the socket has one. -/
def AlarmedConnection.allows (deed : Connections.Deed Tid) : Bool :=
  (match actor deed with
    | some (side,t) => t ≠ thread side || !b.checks thread side
    | none => true) &&
  match deed with
  | .read side t delivers _ => (t = thread side || b.loops thread side) && delivers = decide (0 < (b.alarms side).heard)
  | _ => true
/-- The part of `OnReadyRead` up to the call of `ProcessTransport`. -/
def AlarmedConnection.onReadyRead (side : Bool) (alarm : Alarm) (signalled : Bool) : Option (AlarmedConnection Tid) :=
  (Connections.step ipc b.parties (.start side (thread side) .processTransport)).map fun parties =>
    ⟨parties,(b.setAlarm side { alarm with running := ((b.stack thread side).length,signalled) :: alarm.running }).alarms⟩
/-- The socket after a step of an endpoint. -/
def AlarmedConnection.taken (deed : Connections.Deed Tid) : AlarmedConnection Tid :=
  match deed with
  | .read side _ true _ => b.setAlarm side { b.alarms side with heard := (b.alarms side).heard - 1 }
  | _ => b
/-- A step of both sides. In `waitForReadyRead` of its own `Read` the thread of the socket has
    the transport, so `ProcessTransport` returns at once and what came is left. -/
def step : Deed Tid → Option (AlarmedConnection Tid)
  | .act deed =>
    if b.allows thread deed then
      (Connections.step ipc b.parties deed).map fun parties => ⟨parties,(b.taken deed).alarms⟩
    else none
  | .readyRead side count =>
    let alarm := { b.alarms side with heard := (b.alarms side).heard + count }
    if alarm.heard ≤ (b.parties side).arriving.length ∧ (b.loops thread side ∨ b.waits thread side) then
      if alarm.running.any Prod.snd then some (b.setAlarm side alarm)
      else if b.waits thread side then some (b.setAlarm side { alarm with posted := alarm.posted + 1 })
      else b.onReadyRead ipc thread side alarm true
    else none
  | .invoked side =>
    let alarm := b.alarms side
    if 0 < alarm.posted ∧ b.loops thread side then
      b.onReadyRead ipc thread side { alarm with posted := alarm.posted - 1 } false
    else none
  | .checked side part =>
    let alarm := b.alarms side
    if b.checks thread side then
      some (b.setAlarm side { alarm with
        running := alarm.running.tail
        posted := alarm.posted + if 0 < alarm.heard ∨ part then 1 else 0 })
    else none

end step

def openedAlarms (infos : Bool → CallInfos) : AlarmedConnection Tid := { parties := opened infos }

/-! ### Steps of the endpoints -/

/-- What a step of an endpoint does to the stacks and to the packets on their way. -/
structure Goes (c c' : Connection Tid) (deed : Connections.Deed Tid) (side : Bool) (gone : Party Tid × List Data) : Prop where
  after : c' = c.after side gone
  mine : ∀ who, actor deed = some who → who.1 = side
  endpoint : gone.1.endpoint = (c side).endpoint ∨ ∃ t action, actor deed = some (side,t) ∧
    Endpoints.step invocationInfo (c side).endpoint (t,action) = some gone.1.endpoint ∧
    ∀ operation, action = .start operation → deed = .start side t operation
  arriving : ((∀ t type_raw, deed ≠ .read side t true type_raw) ∧ gone.1.arriving = (c side).arriving) ∨
    ∃ t type_raw packet, deed = .read side t true type_raw ∧ (c side).arriving = packet :: gone.1.arriving

section goes
variable {ipc : Bool → Internals} {c c' : Connection Tid} {deed : Connections.Deed Tid}

theorem move_endpoint {party : Party Tid} {t : Tid} {move : Move} {gone : Party Tid × List Data}
    (moved : party.move t move = some gone) :
    Endpoints.step invocationInfo party.endpoint (t,.move move) = some gone.1.endpoint := by
  obtain ⟨endpoint,stepped,rfl⟩ := Option.map_eq_some_iff.mp moved
  exact stepped

theorem step_goes (stepped : Connections.step ipc c deed = some c') : ∃ side gone, Goes c c' deed side gone := by
  have only {side : Bool} {t : Tid} (acts : actor deed = some (side,t)) : ∀ who, actor deed = some who → who.1 = side := by
    intro who same
    rw [acts] at same
    cases same
    rfl
  cases deed with
  | start side t operation =>
    by_cases free : calm ((c side).endpoint.threads t) = true
    · rw [Connections.step,if_pos free] at stepped
      obtain ⟨endpoint,started,rfl⟩ := Option.map_eq_some_iff.mp stepped
      refine ⟨side,_,rfl,only rfl,.inr ⟨t,_,rfl,started,?_⟩,.inl ⟨fun _ _ other => (by cases other),rfl⟩⟩
      rintro operation' ⟨⟩
      rfl
    · rw [Connections.step,if_neg free] at stepped
      cases stepped
  | proceed side t =>
    obtain ⟨gone,proceeded,rfl⟩ := Option.map_eq_some_iff.mp stepped
    obtain ⟨moved,made,endpoint,arriving⟩ := proceed_moves proceeded
    refine ⟨side,gone,rfl,only rfl,.inr ⟨t,_,rfl,endpoint ▸ move_endpoint made,fun _ other => (by cases other)⟩,.inl ⟨?_,?_⟩⟩
    · rintro _ _ ⟨⟩
    · exact arriving.trans (move_arriving made)
  | write side t =>
    obtain ⟨gone,moved,rfl⟩ := Option.map_eq_some_iff.mp stepped
    refine ⟨side,gone,rfl,only rfl,.inr ⟨t,_,rfl,move_endpoint moved,fun _ other => (by cases other)⟩,.inl ⟨?_,?_⟩⟩
    · rintro _ _ ⟨⟩
    · exact move_arriving moved
  | read side t delivers type_raw =>
    cases delivers with
    | false =>
      obtain ⟨gone,moved,rfl⟩ := Option.map_eq_some_iff.mp stepped
      refine ⟨side,gone,rfl,only rfl,.inr ⟨t,_,rfl,move_endpoint moved,fun _ other => (by cases other)⟩,.inl ⟨?_,?_⟩⟩
      · rintro _ _ ⟨⟩
      · exact move_arriving moved
    | true =>
      cases coming : (c side).arriving with
      | nil => simp [Connections.step,coming] at stepped
      | cons packet rest =>
        simp only [Connections.step,coming] at stepped
        obtain ⟨gone,moved,rfl⟩ := Option.map_eq_some_iff.mp stepped
        refine ⟨side,gone,rfl,only rfl,.inr ⟨t,_,rfl,(move_endpoint moved :),fun _ other => (by cases other)⟩,.inr ?_⟩
        exact ⟨t,type_raw,packet,rfl,by rw [coming,move_arriving moved]⟩
  | work side place =>
    cases found : (c side).jobs[place]? with
    | none => simp [Connections.step,found] at stepped
    | some entry =>
      obtain ⟨id,job⟩ := entry
      simp only [Connections.step,found] at stepped
      cases stepped
      exact ⟨side,_,rfl,fun _ other => (by cases other),.inl rfl,.inl ⟨fun _ _ other => (by cases other),rfl⟩⟩

/-- Only the thread that acts has another stack, by at most one activation less. -/
theorem endpoint_stacks {s s' : Endpoint Tid Invocation} {t : Tid} {action : Endpoints.Action Invocation}
    (stepped : Endpoints.step invocationInfo s (t,action) = some s') (u : Tid) :
    (u ≠ t → s'.threads u = s.threads u) ∧ (s.threads u).length ≤ (s'.threads u).length + 1 ∧
      ∀ frame ∈ s'.threads u, (∃ old ∈ s.threads u, frame.operation = old.operation) ∨
        u = t ∧ action = .start frame.operation := by
  cases step_steps stepped with
  | @starts _ operation _ =>
    by_cases same : u = t
    · subst same
      dsimp only
      rw [Function.update_self]
      refine ⟨fun other => absurd rfl other,by rw [List.length_cons]; omega,fun frame member => ?_⟩
      rcases List.mem_cons.mp member with rfl | old
      · exact .inr ⟨rfl,by cases operation <;> rfl⟩
      · exact .inl ⟨frame,old,rfl⟩
    · dsimp only
      rw [Function.update_of_ne same]
      exact ⟨fun _ => rfl,Nat.le_succ _,fun frame member => .inl ⟨frame,member,rfl⟩⟩
  | @moves _ _ frame below out running moved =>
    by_cases same : u = t
    · subst same
      dsimp only
      rw [Function.update_self,running]
      refine ⟨fun other => absurd rfl other,by rw [List.length_cons,List.length_append]; omega,fun next member => ?_⟩
      rcases List.mem_append.mp member with new | old
      · exact .inl ⟨frame,List.mem_cons_self,(DroppedReplies.moves_named moved next new).1⟩
      · exact .inl ⟨next,List.mem_cons_of_mem _ old,rfl⟩
    · dsimp only
      rw [Function.update_of_ne same]
      exact ⟨fun _ => rfl,Nat.le_succ _,fun next member => .inl ⟨next,member,rfl⟩⟩

/-- The stacks of both sides after a step. -/
theorem step_stacks (stepped : Connections.step ipc c deed = some c') (side : Bool) (t : Tid) :
    (actor deed ≠ some (side,t) → (c' side).endpoint.threads t = (c side).endpoint.threads t) ∧
      ((c side).endpoint.threads t).length ≤ ((c' side).endpoint.threads t).length + 1 ∧
      ∀ frame ∈ (c' side).endpoint.threads t, (∃ old ∈ (c side).endpoint.threads t, frame.operation = old.operation) ∨
        deed = .start side t frame.operation := by
  obtain ⟨mover,gone,rfl,_,endpoint,_⟩ := step_goes stepped
  have unchanged (same : (c.after mover gone side).endpoint = (c side).endpoint) :
      (actor deed ≠ some (side,t) → (c.after mover gone side).endpoint.threads t = (c side).endpoint.threads t) ∧
        ((c side).endpoint.threads t).length ≤ ((c.after mover gone side).endpoint.threads t).length + 1 ∧
        ∀ frame ∈ (c.after mover gone side).endpoint.threads t,
          (∃ old ∈ (c side).endpoint.threads t, frame.operation = old.operation) ∨ deed = .start side t frame.operation := by
    rw [same]
    exact ⟨fun _ => rfl,Nat.le_succ _,fun frame member => .inl ⟨frame,member,rfl⟩⟩
  by_cases same : side = mover
  · subst same
    rcases endpoint with still | ⟨u,action,acts,stepped,starts⟩
    · exact unchanged (by rw [after_self,still])
    · rw [after_self]
      obtain ⟨elsewhere,lower,frames⟩ := endpoint_stacks stepped t
      refine ⟨fun other => elsewhere ?_,lower,fun frame member => (frames frame member).imp_right ?_⟩
      · rintro rfl
        exact other acts
      · rintro ⟨rfl,started⟩
        exact starts _ started
  · exact unchanged (by rw [(Bool.eq_not_of_ne same : side = !mover),after_other])

/-- Packets are taken out one by one. -/
theorem step_arriving (stepped : Connections.step ipc c deed = some c') (side : Bool) :
    ((∀ t type_raw, deed ≠ .read side t true type_raw) ∧ (c side).arriving.length ≤ (c' side).arriving.length) ∨
      ∃ t type_raw, deed = .read side t true type_raw ∧ (c side).arriving.length = (c' side).arriving.length + 1 := by
  obtain ⟨mover,gone,rfl,mine,_,arriving⟩ := step_goes stepped
  by_cases same : side = mover
  · subst same
    rw [after_self]
    rcases arriving with ⟨other,still⟩ | ⟨t,type_raw,packet,read,taken⟩
    · exact .inl ⟨other,Nat.le_of_eq (congrArg List.length still.symm)⟩
    · exact .inr ⟨t,type_raw,read,by rw [taken,List.length_cons]⟩
  · refine .inl ⟨?_,?_⟩
    · rintro t type_raw rfl
      exact same (mine _ rfl)
    · rw [(Bool.eq_not_of_ne same : side = !mover),after_other,List.length_append]
      exact Nat.le_add_right _ _

theorem start_stack {side : Bool} {t : Tid} {operation : Operation Invocation}
    (stepped : Connections.step ipc c (.start side t operation) = some c') :
    (c' side).endpoint.threads t = enter operation :: (c side).endpoint.threads t := by
  by_cases free : calm ((c side).endpoint.threads t) = true
  · rw [Connections.step,if_pos free] at stepped
    obtain ⟨endpoint,started,rfl⟩ := Option.map_eq_some_iff.mp stepped
    rw [after_self]
    cases step_steps started with
    | starts _ => exact Function.update_self ..
  · rw [Connections.step,if_neg free] at stepped
    cases stepped

end goes

/-! ### Somebody was told -/

/-- Where the thread of the socket has `depth` activations and `coming` packets are on their
    way: what is in the socket is among them, and `OnReadyRead` is running or posted as long as
    something is. The calls of it are nested. -/
structure Rings (alarm : Alarm) (depth coming : Nat) : Prop where
  heard : alarm.heard ≤ coming
  told : 0 < alarm.heard → 0 < alarm.posted ∨ alarm.running ≠ []
  nested : alarm.running.Pairwise fun inner outer => outer.1 ≤ inner.1
  below : ∀ entry ∈ alarm.running, entry.1 ≤ depth

section alarm
variable {alarm : Alarm} {depth coming : Nat}

theorem Rings.more (rings : Rings alarm depth coming) {coming' : Nat} (grows : coming ≤ coming') : Rings alarm depth coming' :=
  { rings with heard := rings.heard.trans grows }

/-- A packet is taken out of the socket. -/
theorem Rings.takes (rings : Rings alarm depth (coming + 1)) : Rings { alarm with heard := alarm.heard - 1 } depth coming where
  heard := Nat.sub_le_of_le_add rings.heard
  told left := rings.told (Nat.lt_of_lt_of_le left (Nat.sub_le _ 1))
  nested := rings.nested
  below := rings.below

/-- An activation ends in which the latest call of `OnReadyRead` is not. -/
theorem Rings.returns (rings : Rings alarm depth coming) (other : alarm.running.head?.map Prod.fst ≠ some depth) {depth' : Nat}
    (lower : depth ≤ depth' + 1) : Rings alarm depth' coming := by
  refine { rings with below := fun entry member => ?_ }
  obtain ⟨heard,told,nested,below⟩ := rings
  cases running : alarm.running with
  | nil =>
    rw [running] at member
    cases member
  | cons latest outer =>
    rw [running] at member other nested
    have first := below latest (running ▸ List.mem_cons_self)
    have short : latest.1 ≠ depth := fun same => other (congrArg some same)
    rcases List.mem_cons.mp member with rfl | deeper
    · omega
    · have inside := (List.pairwise_cons.mp nested).1 entry deeper
      omega

/-- `OnReadyRead` calls `ProcessTransport`. -/
theorem Rings.calls {posted heard : Nat} (rings : Rings alarm depth coming) (signalled : Bool) (among : heard ≤ coming) :
    Rings { heard, posted, running := (depth,signalled) :: alarm.running } (depth + 1) coming where
  heard := among
  told _ := .inr (List.cons_ne_nil _ _)
  nested := List.pairwise_cons.mpr ⟨rings.below,rings.nested⟩
  below entry member := by
    rcases List.mem_cons.mp member with rfl | outer
    · exact Nat.le_succ depth
    · exact (rings.below entry outer).trans (Nat.le_succ depth)

/-- The socket takes what came while the signal is emitted, or while its thread reads itself. -/
theorem Rings.hears (rings : Rings alarm depth coming) {heard posted : Nat} (among : heard ≤ coming)
    (told : 0 < posted ∨ alarm.running ≠ []) : Rings { alarm with heard, posted } depth coming where
  heard := among
  told _ := told
  nested := rings.nested
  below := rings.below

/-- `OnReadyRead` ends, and is posted again while something is left. -/
theorem Rings.ends (rings : Rings alarm depth coming) (part : Bool) :
    Rings { alarm with
      running := alarm.running.tail
      posted := alarm.posted + if 0 < alarm.heard ∨ part = true then 1 else 0 } depth coming where
  heard := rings.heard
  told left := by
    left
    rw [if_pos (.inl left)]
    exact Nat.succ_pos _
  nested := rings.nested.sublist (List.tail_sublist _)
  below entry member := rings.below entry (List.mem_of_mem_tail member)

end alarm

section steps
variable {ipc : Bool → Internals} {thread : Bool → Tid} {b b' : AlarmedConnection Tid}

/-- The alarm of a side. -/
def AlarmedConnection.Ringing (thread : Bool → Tid) (b : AlarmedConnection Tid) (side : Bool) : Prop :=
  Rings (b.alarms side) (b.stack thread side).length (b.parties side).arriving.length

omit [DecidableEq Tid] in
theorem setAlarm_self (side : Bool) (alarm : Alarm) : (b.setAlarm side alarm).alarms side = alarm := Function.update_self ..

omit [DecidableEq Tid] in
theorem setAlarm_other {side other : Bool} (different : other ≠ side) (alarm : Alarm) :
    (b.setAlarm side alarm).alarms other = b.alarms other := Function.update_of_ne different ..

omit [DecidableEq Tid] in
theorem setAlarm_ringing (ringing : ∀ side, b.Ringing thread side) {side : Bool} {alarm : Alarm}
    (mine : Rings alarm (b.stack thread side).length (b.parties side).arriving.length) (other : Bool) :
    (b.setAlarm side alarm).Ringing thread other := by
  unfold AlarmedConnection.Ringing
  by_cases same : other = side
  · subst same
    rw [setAlarm_self]
    exact mine
  · rw [setAlarm_other same]
    exact ringing other

/-- Who acts in the thread of the socket is not in the part behind `ProcessTransport`. -/
theorem allows_checks {deed : Connections.Deed Tid} (allowed : b.allows thread deed = true) {side : Bool}
    (acts : actor deed = some (side,thread side)) : b.checks thread side = false := by
  unfold AlarmedConnection.allows at allowed
  rw [acts] at allowed
  simpa using (Bool.and_eq_true_iff.mp allowed).1

omit [DecidableEq Tid] in
theorem taken_other {deed : Connections.Deed Tid} {side : Bool} (other : ∀ t type_raw, deed ≠ .read side t true type_raw) :
    (b.taken deed).alarms side = b.alarms side := by
  unfold AlarmedConnection.taken
  split
  · rename_i mover t type_raw
    refine setAlarm_other ?_ _
    rintro rfl
    exact other t type_raw rfl
  · rfl

/-- The endpoints go on, and a packet is taken out of the socket where one is read. -/
theorem act_ringing (ringing : ∀ side, b.Ringing thread side) {deed : Connections.Deed Tid} {parties : Connection Tid}
    (allowed : b.allows thread deed = true) (stepped : Connections.step ipc b.parties deed = some parties) (side : Bool) :
    AlarmedConnection.Ringing thread ⟨parties,(b.taken deed).alarms⟩ side := by
  have rings : Rings (b.alarms side) ((parties side).endpoint.threads (thread side)).length (b.parties side).arriving.length := by
    have before := ringing side
    obtain ⟨elsewhere,lower,_⟩ := step_stacks stepped side (thread side)
    by_cases acts : actor deed = some (side,thread side)
    · exact before.returns (of_decide_eq_false (allows_checks allowed acts)) lower
    · rw [elsewhere acts]
      exact before
  unfold AlarmedConnection.Ringing
  rcases step_arriving stepped side with ⟨other,grows⟩ | ⟨t,type_raw,rfl,taken⟩
  · rw [taken_other other]
    exact rings.more grows
  · dsimp only [AlarmedConnection.taken]
    rw [setAlarm_self]
    rw [taken] at rings
    exact rings.takes

/-- `OnReadyRead` begins. -/
theorem onReadyRead_ringing (ringing : ∀ side, b.Ringing thread side) {side : Bool} {alarm : Alarm} {signalled : Bool}
    (called : b.onReadyRead ipc thread side alarm signalled = some b') (same : alarm.running = (b.alarms side).running)
    (among : alarm.heard ≤ (b.parties side).arriving.length) (other : Bool) : b'.Ringing thread other := by
  obtain ⟨parties,stepped,rfl⟩ := Option.map_eq_some_iff.mp called
  have grows : (b.parties other).arriving.length ≤ (parties other).arriving.length := by
    rcases step_arriving stepped other with ⟨_,grows⟩ | ⟨_,_,read,_⟩
    · exact grows
    · cases read
  unfold AlarmedConnection.Ringing AlarmedConnection.stack
  dsimp only
  by_cases mine : other = side
  · subst mine
    rw [setAlarm_self,start_stack stepped,List.length_cons,same]
    exact ((ringing other).calls signalled among).more grows
  · rw [setAlarm_other mine,(step_stacks stepped other (thread other)).1 fun acts => mine ?_]
    · exact (ringing other).more grows
    · cases acts
      rfl

theorem step_ringing (ringing : ∀ side, b.Ringing thread side) {deed : Deed Tid}
    (stepped : step ipc thread b deed = some b') : ∀ side, b'.Ringing thread side := by
  cases deed with
  | act deed =>
    by_cases allowed : b.allows thread deed = true
    · rw [step,if_pos allowed] at stepped
      obtain ⟨parties,made,rfl⟩ := Option.map_eq_some_iff.mp stepped
      exact act_ringing ringing allowed made
    · rw [step,if_neg allowed] at stepped
      cases stepped
  | readyRead side count =>
    simp only [step] at stepped
    split at stepped
    · rename_i told
      split at stepped
      · rename_i signalled
        cases stepped
        refine setAlarm_ringing ringing ((ringing side).hears told.1 (.inr ?_))
        rintro none
        rw [none] at signalled
        cases signalled
      · split at stepped
        · cases stepped
          exact setAlarm_ringing ringing ((ringing side).hears told.1 (.inl (Nat.succ_pos _)))
        · exact onReadyRead_ringing ringing stepped rfl told.1
    · cases stepped
  | invoked side =>
    simp only [step] at stepped
    split at stepped
    · exact onReadyRead_ringing ringing stepped rfl (ringing side).heard
    · cases stepped
  | checked side part =>
    simp only [step] at stepped
    split at stepped
    · cases stepped
      exact setAlarm_ringing ringing ((ringing side).ends part)
    · cases stepped

/-- Every step is one of the endpoints, which a thread starts or `OnReadyRead`, or none. -/
theorem step_parties {deed : Deed Tid} (stepped : step ipc thread b deed = some b') :
    b'.parties = b.parties ∨ ∃ other, Connections.step ipc b.parties other = some b'.parties ∧
      ∀ side t operation, other = .start side t operation →
        deed = .act (.start side t operation) ∨ t = thread side ∧ operation = .processTransport := by
  have called {side : Bool} {alarm : Alarm} {signalled : Bool}
      (begun : b.onReadyRead ipc thread side alarm signalled = some b') :
      ∃ other, Connections.step ipc b.parties other = some b'.parties ∧ ∀ side t operation, other = .start side t operation →
        deed = .act (.start side t operation) ∨ t = thread side ∧ operation = .processTransport := by
    obtain ⟨parties,made,rfl⟩ := Option.map_eq_some_iff.mp begun
    refine ⟨_,made,?_⟩
    rintro side t operation ⟨⟩
    exact .inr ⟨rfl,rfl⟩
  cases deed with
  | act deed =>
    by_cases allowed : b.allows thread deed = true
    · rw [step,if_pos allowed] at stepped
      obtain ⟨parties,made,rfl⟩ := Option.map_eq_some_iff.mp stepped
      refine .inr ⟨deed,made,?_⟩
      rintro side t operation rfl
      exact .inl rfl
    · rw [step,if_neg allowed] at stepped
      cases stepped
  | readyRead side count =>
    simp only [step] at stepped
    split at stepped
    · split at stepped
      · cases stepped
        exact .inl rfl
      · split at stepped
        · cases stepped
          exact .inl rfl
        · exact .inr (called stepped)
    · cases stepped
  | invoked side =>
    simp only [step] at stepped
    split at stepped
    · exact .inr (called stepped)
    · cases stepped
  | checked side part =>
    simp only [step] at stepped
    split at stepped
    · cases stepped
      exact .inl rfl
    · cases stepped

end steps

/-! ### Every run -/

/-- Nobody goes on at the side: no job is left, whoever uses the endpoint is blocked, and who
    waits for the reader was not notified. Where the thread of the socket is in an event loop,
    there is nothing to do. -/
structure Rest (thread : Bool → Tid) (b : AlarmedConnection Tid) (side : Bool) : Prop where
  jobs : (b.parties side).jobs = []
  blocked : ∀ t, (b.parties side).endpoint.threads t ≠ [] → ∃ id, BlockedOn (b.parties side) t id
  waiting : ∀ t frame below, (b.parties side).endpoint.threads t = frame :: below → frame.point = .waiting →
    t ∈ (b.parties side).endpoint.pending.m_write_cond
  loop : calm (b.stack thread side) = true → (b.alarms side).heard = (b.parties side).arriving.length ∧
    (b.alarms side).posted = 0 ∧ b.checks thread side = false

/-- As for a connection by packets. -/
abbrev UsableAlarms (infos : Bool → CallInfos) (ipc : Bool → Internals) (thread : Bool → Tid) (deeds : List (Deed Tid)) : Prop :=
  UsableBy infos ipc (fun side t operation => .act (.start side t operation) ∈ deeds)
    (run (step ipc thread) (openedAlarms infos) deeds).parties

section runs
variable {infos : Bool → CallInfos} {ipc : Bool → Internals} {thread : Bool → Tid} {deeds : List (Deed Tid)}

/-- As long as something is in the socket, `OnReadyRead` is running or posted. -/
theorem run_ringing (infos : Bool → CallInfos) (ipc : Bool → Internals) (thread : Bool → Tid) (deeds : List (Deed Tid))
    (side : Bool) : (run (step ipc thread) (openedAlarms infos) deeds).Ringing thread side := by
  have keeps : Preserves (step ipc thread) fun b => ∀ side, b.Ringing thread side :=
    fun b deed b' ringing stepped => step_ringing ringing stepped
  refine keeps.run (fun side => ⟨Nat.zero_le _,fun left => ?_,List.Pairwise.nil,fun _ none => ?_⟩) deeds side
  · cases left
  · cases none

/-- A thread has only activations that it started. -/
theorem run_operations {may : Bool → Tid → Operation Invocation → Prop} {c : Connection Tid}
    (held : ∀ side t, ∀ frame ∈ (c side).endpoint.threads t, may side t frame.operation) {others : List (Connections.Deed Tid)}
    (starts : ∀ side t operation, .start side t operation ∈ others → may side t operation) :
    ∀ side t, ∀ frame ∈ (run (Connections.step ipc) c others side).endpoint.threads t, may side t frame.operation := by
  induction others generalizing c with
  | nil => exact held
  | cons deed rest ih =>
    rw [run]
    have later : ∀ side t operation, .start side t operation ∈ rest → may side t operation :=
      fun side t operation member => starts side t operation (List.mem_cons_of_mem _ member)
    cases stepped : Connections.step ipc c deed with
    | none => exact ih held later
    | some c' =>
      refine ih (fun side t frame member => ?_) later
      rcases (step_stacks stepped side t).2.2 frame member with ⟨old,inside,same⟩ | started
      · rw [same]
        exact held side t old inside
      · exact starts side t _ (started ▸ List.mem_cons_self)

/-- Every run is a run over packets, where `OnReadyRead` starts `ProcessTransport`. -/
theorem run_alarms (b : AlarmedConnection Tid) (deeds : List (Deed Tid)) : ∃ others : List (Connections.Deed Tid),
    (∀ side t operation, .start side t operation ∈ others →
      Deed.act (.start side t operation) ∈ deeds ∨ t = thread side ∧ operation = .processTransport) ∧
      (run (step ipc thread) b deeds).parties = run (Connections.step ipc) b.parties others := by
  induction deeds generalizing b with
  | nil => exact ⟨[],fun _ _ _ member => (by cases member),rfl⟩
  | cons deed rest ih =>
    rw [run]
    cases stepped : step ipc thread b deed with
    | none =>
      obtain ⟨others,starts,same⟩ := ih b
      exact ⟨others,fun side t operation member => (starts side t operation member).imp_left (List.mem_cons_of_mem _),same⟩
    | some b' =>
      obtain ⟨others,starts,same⟩ := ih b'
      have later (side : Bool) (t : Tid) (operation : Operation Invocation) (member : .start side t operation ∈ others) :
          Deed.act (.start side t operation) ∈ deed :: rest ∨ t = thread side ∧ operation = .processTransport :=
        (starts side t operation member).imp_left (List.mem_cons_of_mem _)
      rcases step_parties stepped with still | ⟨other,made,started⟩
      · refine ⟨others,later,?_⟩
        rw [Option.getD_some,same,still]
      · refine ⟨other :: others,fun side t operation member => ?_,?_⟩
        · rcases List.mem_cons.mp member with now | after
          · rcases started side t operation now.symm with rfl | polls
            · exact .inl List.mem_cons_self
            · exact .inr polls
          · exact later side t operation after
        · rw [Option.getD_some,same,run,made,Option.getD_some]

/-- The thread of a socket only runs what it may. -/
theorem run_polls (polls : ∀ side operation, .act (.start side (thread side) operation) ∈ deeds →
      operation = .processTransport ∨ operation.waitsReturn = false) {others : List (Connections.Deed Tid)}
    (starts : ∀ side t operation, .start side t operation ∈ others →
      Deed.act (.start side t operation) ∈ deeds ∨ t = thread side ∧ operation = .processTransport) (side : Bool) :
    ∀ frame ∈ (run (Connections.step ipc) (opened infos) others side).endpoint.threads (thread side),
      frame.operation = .processTransport ∨ frame.operation.waitsReturn = false := by
  intro frame member
  let may (side : Bool) (t : Tid) (operation : Operation Invocation) : Prop :=
    t = thread side → operation = .processTransport ∨ operation.waitsReturn = false
  have nothing : ∀ side t, ∀ frame ∈ (opened infos side : Party Tid).endpoint.threads t, may side t frame.operation :=
    fun _ _ _ none => by cases none
  refine run_operations nothing (fun side t operation started is => ?_) side (thread side) frame member rfl
  rcases starts side t operation started with act | ⟨_,polling⟩
  · exact polls side operation (is ▸ act)
  · exact .inl polling

omit [DecidableEq Tid] in
/-- A thread that only polls and sends is blocked nowhere. -/
theorem polls_unblocked {party : Party Tid} {may : Operation Invocation → Prop} (numbered : Numbered may party.endpoint) {t : Tid}
    (polls : ∀ frame ∈ party.endpoint.threads t, frame.operation = .processTransport ∨ frame.operation.waitsReturn = false)
    {id : CallId} : ¬ BlockedOn party t id := by
  intro blocked
  obtain ⟨frame,below,running,at_point,rfl,nonzero⟩ := blockedOn_top blocked
  obtain ⟨asks,waits⟩ := blockedOn_asks numbered running at_point nonzero
  rcases polls frame (running ▸ List.mem_cons_self) with polls | leaves
  · exact (asking_iff.mp asks).1 polls
  · rw [waits] at leaves
    cases leaves

omit [DecidableEq Tid] in
/-- At rest the socket of a thread that is outside is empty. -/
theorem rest_empty {b : AlarmedConnection Tid} {side : Bool} (ringing : b.Ringing thread side) (rest : Rest thread b side)
    (outside : b.stack thread side = []) : (b.parties side).arriving = [] := by
  obtain ⟨all,posted,checks⟩ := rest.loop (by rw [outside]; rfl)
  have silent : (b.alarms side).running = [] := by
    cases running : (b.alarms side).running with
    | nil => rfl
    | cons latest outer =>
      have low := ringing.below latest (running ▸ List.mem_cons_self)
      rw [outside] at low
      simp [AlarmedConnection.checks,running,outside,Nat.le_zero.mp low] at checks
  refine List.eq_nil_of_length_eq_zero (Nat.eq_zero_of_not_pos fun left => ?_)
  rcases ringing.told (all ▸ left) with again | calls
  · omega
  · exact calls silent

/-- Where every operation that waits also processes what comes in, and the threads of the
    sockets only poll and send, both sides are at rest only when no thread is inside and nothing
    is left unread or in a queue; the handlers of all calls that were written were run once each. -/
theorem rest_served (usable : UsableAlarms infos ipc thread deeds)
    (processes : ∀ side t operation, .act (.start side t operation) ∈ deeds → operation.waitsReturn = true →
      operation.processIncomingCalls = true)
    (polls : ∀ side operation, .act (.start side (thread side) operation) ∈ deeds →
      operation = .processTransport ∨ operation.waitsReturn = false)
    (rest : ∀ side, Rest thread (run (step ipc thread) (openedAlarms infos) deeds) side) (side : Bool) :
    (∀ t, ((run (step ipc thread) (openedAlarms infos) deeds).parties side).endpoint.threads t = []) ∧
      leftIds ((run (step ipc thread) (openedAlarms infos) deeds).parties side) = [] ∧
      ∀ t operation id,
        (t,operation,id) ∈ issues ((run (step ipc thread) (openedAlarms infos) deeds).parties side).endpoint.events →
        id ∈ picked wroteId ((run (step ipc thread) (openedAlarms infos) deeds).parties side).endpoint.events →
        RanFor (infos (!side)) (ipc (!side)).m_proc_map
          ((run (step ipc thread) (openedAlarms infos) deeds).parties (!side)).ran id operation := by
  obtain ⟨others,starts,same⟩ := @run_alarms Tid _ ipc thread (openedAlarms infos) deeds
  change _ = run (Connections.step ipc) (opened infos) others at same
  have packets : Usable infos ipc others := usable.other (fun side t operation started =>
    (starts side t operation started).imp_right And.right) fun side => same ▸ usable.few side
  have allowed : ∀ side t operation, .start side t operation ∈ others → operation.waitsReturn = true →
      operation.processIncomingCalls = true := by
    intro side t operation member waits
    rcases starts side t operation member with started | ⟨_,rfl⟩
    · exact processes side t operation started waits
    · rfl
  have outside (side : Bool) : (run (step ipc thread) (openedAlarms infos) deeds).stack thread side = [] := by
    by_contra inside
    obtain ⟨id,blocked⟩ := (rest side).blocked (thread side) inside
    rw [same] at blocked
    exact polls_unblocked (run_linked packets side).carried.numbered (run_polls polls starts side) blocked
  have empty (side : Bool) := rest_empty (run_ringing infos ipc thread deeds side) (rest side) (outside side)
  simp only [same] at empty ⊢
  have stalled (side : Bool) : Stalled (run (Connections.step ipc) (opened infos) others side) := by
    obtain ⟨jobs,blocked,waiting,_⟩ := rest side
    simp only [same] at jobs blocked waiting
    exact ⟨⟨.inl (empty side),blocked,waiting⟩,jobs⟩
  have gone := stalled_gone packets allowed stalled empty
  refine ⟨(gone side).1,(gone side).2,fun t operation id issued wrote => ?_⟩
  have quiet : Quiet (run (Connections.step ipc) (opened infos) others (!side)) := by
    refine ⟨(gone (!side)).2,(stalled (!side)).jobs,fun u frame member => ?_⟩
    rw [(gone (!side)).1 u] at member
    cases member
  obtain ⟨rank,now,steady⟩ := run_steady packets
  exact quiet_ranFor (run_linked packets side) (packets.few side) (fun u => ⟨_,(steady (!side)).owes u⟩) quiet issued wrote

end runs

/-! ### A call that is heard -/

/-- A side calls from another thread than the one of its socket, and is answered; when the
    reply comes the socket's own thread finds the transport in use, and is told once more. -/
def heardCall : List (Deed Bool) :=
  [.act (.start false true (.waitInvoke (notCall false) true)),.act (.proceed false true),.act (.write false true),
    .act (.proceed false true),
    .readyRead true 1,.act (.proceed true false),.act (.read true false true 0),.act (.proceed true false),
    .act (.proceed true false),.act (.proceed true false),.act (.proceed true false),.act (.proceed true false),
    .act (.read true false false 0),.act (.proceed true false),.checked true false,
    .readyRead false 1,.act (.proceed false false),.checked false false,
    .act (.read false true true 0),.act (.proceed false true),.act (.proceed false true),.act (.proceed false true),
    .act (.proceed false true),
    .invoked false,.act (.proceed false false),.act (.read false false false 0),.act (.proceed false false),.checked false false]

theorem heardCall_starts {side t : Bool} {operation : Operation Invocation}
    (member : .act (.start side t operation) ∈ heardCall) : t = true ∧ operation = .waitInvoke (notCall false) true := by
  simp only [heardCall,List.mem_cons,List.not_mem_nil,reduceCtorEq,or_false,Deed.act.injEq,Connections.Deed.start.injEq] at member
  exact ⟨member.2.1,member.2.2⟩

theorem heardCall_usable : UsableAlarms (fun _ => notInfos) (fun _ => notIpc) (fun _ => false) heardCall := by
  refine not_usable (fun side t operation member => ⟨_,_,(heardCall_starts member).2⟩) fun side => ?_
  unfold Few
  cases side <;> decide +kernel

/-- Nobody is inside, and there is nothing to do. -/
theorem idle_rest {thread : Bool → Bool} {b : AlarmedConnection Bool} {side : Bool} (jobs : (b.parties side).jobs.isEmpty = true)
    (idle : ∀ t, ((b.parties side).endpoint.threads t).isEmpty = true)
    (loop : (b.alarms side).heard = (b.parties side).arriving.length ∧ (b.alarms side).posted = 0 ∧
      b.checks thread side = false) : Rest thread b side where
  jobs := List.isEmpty_iff.mp jobs
  blocked t busy := absurd (List.isEmpty_iff.mp (idle t)) busy
  waiting t frame below running := by
    have none := idle t
    rw [running] at none
    cases none
  loop _ := loop

theorem heardCall_rest (side : Bool) :
    Rest (fun _ => false) (run (step (fun _ => notIpc) fun _ => false) (openedAlarms fun _ => notInfos) heardCall) side :=
  idle_rest (by cases side <;> decide +kernel) (fun t => by cases side <;> cases t <;> decide +kernel)
    (by cases side <;> decide +kernel)

theorem rest_served_heard : ∃ t operation,
    (t,operation,1) ∈ issues ((run (step (fun _ => notIpc) fun _ => false) (openedAlarms fun _ => notInfos) heardCall).parties
      false).endpoint.events ∧
    RanFor notInfos notIpc.m_proc_map
      ((run (step (fun _ => notIpc) fun _ => false) (openedAlarms fun _ => notInfos) heardCall).parties true).ran 1 operation := by
  have wrote : 1 ∈ picked wroteId ((run (step (fun _ => notIpc) fun _ => false) (openedAlarms fun _ => notInfos)
      heardCall).parties false).endpoint.events := by decide +kernel
  have listed : 1 ∈ (issues ((run (step (fun _ => notIpc) fun _ => false) (openedAlarms fun _ => notInfos)
      heardCall).parties false).endpoint.events).map fun entry => entry.2.2 := by decide +kernel
  obtain ⟨⟨t,operation,id⟩,issued,same⟩ := List.mem_map.mp listed
  dsimp only at same
  subst same
  have served := rest_served heardCall_usable (fun side t operation member _ => by
    obtain ⟨_,rfl⟩ := heardCall_starts member
    rfl) (fun side operation member => by cases (heardCall_starts member).1) heardCall_rest false
  simp only [Bool.not_false] at served
  exact ⟨t,operation,issued,served.2.2 t operation _ issued wrote⟩

end IpcPortable.ReadAlarms
