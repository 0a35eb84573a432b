import Mathlib.Data.List.Induction
import IpcPortable.MemoryCopies
import IpcPortable.WholePackets

/-!
Two endpoints that are connected by bytes: each has a `TransportProxy` over its end of
an `IpcTransport_MemoryCopy`. A run of both is a run of two endpoints that are
connected by packets (`bytes_refine`), so what holds for those holds here
(`bytes_answered`). The calls must not be put into buffers that are too large.
-/
namespace IpcPortable.ByteConnections
open IpcPortable.Runs IpcPortable.LittleEndian IpcPortable.DataStream IpcPortable.Packets IpcPortable.PacketParser
open IpcPortable.PacketRuns IpcPortable.SentFrames IpcPortable.ProcMaps IpcPortable.Dispatch IpcPortable.EndpointMoves
open IpcPortable.Matching
open IpcPortable.Responses IpcPortable.DueReplies IpcPortable.Numbering IpcPortable.LinkRuns IpcPortable.MemoryCopies
open IpcPortable.WholePackets
open IpcPortable.Connections hiding Deed step
open IpcPortable.Endpoints hiding step
open IpcPortable.Peers hiding Deed step
variable {Tid : Type} [DecidableEq Tid]

/-- Both sides, with their proxies; nothing is on its way but bytes. -/
structure ByteConnection (Tid : Type) where
  parties : Connection Tid
  receivers : Bool → Receiver (List Byte)

/-- What was sent is written to the transports. -/
def ByteConnection.write (b : ByteConnection Tid) (c : Connection Tid) : ByteConnection Tid where
  parties := fun side => { c side with arriving := [] }
  receivers := fun side => memoryWrite (c side).arriving (b.receivers side)

inductive Deed (Tid : Type)
  | act (deed : Connections.Deed Tid)
  /-- `Read` of the proxy; `schedule` are the bytes that it can find. -/
  | read (side : Bool) (t : Tid) (fresh : Nat → Byte) (schedule : List (List Byte)) (type_raw : BitVec 32)
def reads : Connections.Deed Tid → Bool
  | .read _ _ _ _ => true
  | _ => false
/-- A step of both sides. -/
def step (ipc : Bool → Internals) (b : ByteConnection Tid) : Deed Tid → Option (ByteConnection Tid)
  | .act deed => if reads deed then none else (Connections.step ipc b.parties deed).map b.write
  | .read side t fresh schedule type_raw => do
    let frame ← ((b.parties side).endpoint.threads t).head?
    let (answer,receiver) ← memoryRead fresh (decide (frame.id ≠ c_invalid_id)) schedule (b.receivers side)
    let gone ← (b.parties side).move t (.read answer.1 answer.2 type_raw)
    pure ({ b with receivers := Function.update b.receivers side receiver }.write (b.parties.after side gone))
def openedBytes (infos : Bool → CallInfos) : ByteConnection Tid := { parties := opened infos, receivers := fun _ => .start [] }

/-- The same connection by packets: those that are on their way are the ones that the
    bytes are for. -/
structure Seen (b : ByteConnection Tid) (c : Connection Tid) : Prop where
  parties : ∀ side, b.parties side = { c side with arriving := [] }
  left : ∀ side, Left (b.receivers side) (b.receivers side).in_data (c side).arriving

/-! ### Steps that do not read -/

section under
variable {ipc : Internals} {party : Party Tid} {arriving : List Data}

/-- What is on its way does not matter for a step of a side. -/
def atop (arriving : List Data) (gone : Party Tid × List Data) : Party Tid × List Data := ({ gone.1 with arriving },gone.2)

theorem move_atop (t : Tid) (move : Move) : { party with arriving }.move t move = (party.move t move).map (atop arriving) := by
  unfold Party.move
  rw [Option.map_map]
  rfl

theorem proceed_atop (t : Tid) : { party with arriving }.proceed ipc t = (party.proceed ipc t).map (atop arriving) := by
  unfold Party.proceed
  rw [show ({ party with arriving } : Party Tid).endpoint = party.endpoint from rfl]
  split
  · split
    · rw [show ({ party with arriving } : Party Tid).call_infos = party.call_infos from rfl,move_atop]
      rename_i buffer _ _
      cases Buffers.processBuffer party.call_infos ipc buffer with
      | none => rfl
      | some processed => cases party.move t .proceed <;> rfl
    · exact move_atop t .proceed
  · rw [move_atop]
    cases party.move t .proceed with
    | none => rfl
    | some gone =>
      obtain ⟨moved,sent⟩ := gone
      simp only [Option.map_some,Option.bind_eq_bind,Option.bind_some,atop]
      cases moved.dispatched.find? fun entry => decide (entry.1 = t) with
      | none => rfl
      | some entry => rfl
  · exact move_atop t .proceed

end under

/-- The packets behind those that are on their way already. -/
def behind (arriving : Bool → List Data) (c : Connection Tid) : Connection Tid := fun side =>
  { c side with arriving := arriving side ++ (c side).arriving }

omit [DecidableEq Tid] in
theorem after_behind {arriving : Bool → List Data} {d : Connection Tid} {side : Bool} {gone : Party Tid × List Data}
    (none : gone.1.arriving = []) :
    (behind arriving d).after side (atop (arriving side) gone) = behind arriving (d.after side gone) := by
  funext other
  by_cases same : other = side
  · subst same
    rw [after_self,behind,after_self,none,List.append_nil]
    rfl
  · rw [(Bool.eq_not_of_ne same : other = !side)]
    simp only [after_other,atop,behind,List.append_assoc]

omit [DecidableEq Tid] in
theorem bare_behind {c d : Connection Tid} (bare : ∀ side, d side = { c side with arriving := [] }) :
    c = behind (fun side => (c side).arriving) d := by
  funext side
  simp only [behind,bare side,List.append_nil]

section steps
variable {infos : Bool → CallInfos} {ipc : Bool → Internals} {b b' : ByteConnection Tid} {c : Connection Tid}

theorem move_arriving {party : Party Tid} {t : Tid} {move : Move} {gone : Party Tid × List Data}
    (moved : party.move t move = some gone) : gone.1.arriving = party.arriving := by
  obtain ⟨endpoint,_,rfl⟩ := Option.map_eq_some_iff.mp moved
  rfl

/-- Where a thread goes on its endpoint does; the rest is what a dispatch leaves. -/
theorem proceed_moves {ipc : Internals} {party : Party Tid} {t : Tid} {gone : Party Tid × List Data}
    (proceeded : party.proceed ipc t = some gone) :
    ∃ moved, party.move t .proceed = some moved ∧ gone.1.endpoint = moved.1.endpoint ∧ gone.1.arriving = moved.1.arriving := by
  unfold Party.proceed at proceeded
  split at proceeded
  · split at proceeded
    · obtain ⟨⟨call_infos,result,effects⟩,_,proceeded⟩ := Option.bind_eq_some_iff.mp proceeded
      obtain ⟨⟨moved,sent⟩,made,rest⟩ := Option.bind_eq_some_iff.mp proceeded
      cases rest
      exact ⟨_,made,rfl,rfl⟩
    · exact ⟨gone,proceeded,rfl,rfl⟩
  · obtain ⟨⟨moved,sent⟩,made,rest⟩ := Option.bind_eq_some_iff.mp proceeded
    refine ⟨_,made,?_⟩
    dsimp only at rest
    split at rest
    · cases rest
      exact ⟨rfl,rfl⟩
    · cases rest
      exact ⟨rfl,rfl⟩
  · exact ⟨gone,proceeded,rfl,rfl⟩

/-- A step that does not read is the same with packets on their way. -/
theorem step_behind {d d' : Connection Tid} (none : ∀ side, (d side).arriving = []) {arriving : Bool → List Data}
    {deed : Connections.Deed Tid} (other : reads deed = false) (stepped : Connections.step ipc d deed = some d') :
    Connections.step ipc (behind arriving d) deed = some (behind arriving d') := by
  have same (side : Bool) : behind arriving d side = { d side with arriving := arriving side } := by
    simp only [behind,none side,List.append_nil]
  have goes {side : Bool} {gone : Party Tid × List Data} (kept : gone.1.arriving = (d side).arriving) :
      (behind arriving d).after side (atop (arriving side) gone) = behind arriving (d.after side gone) :=
    after_behind (kept.trans (none side))
  cases deed with
  | start side t operation =>
    by_cases free : calm ((d side).endpoint.threads t) = true
    · rw [Connections.step,if_pos free] at stepped
      obtain ⟨endpoint,started,rfl⟩ := Option.map_eq_some_iff.mp stepped
      rw [Connections.step,same side,if_pos free]
      exact Option.map_eq_some_iff.mpr ⟨endpoint,started,@goes side ({ d side with endpoint },[]) rfl⟩
    · rw [Connections.step,if_neg free] at stepped
      cases stepped
  | proceed side t =>
    obtain ⟨gone,proceeded,rfl⟩ := Option.map_eq_some_iff.mp stepped
    rw [Connections.step,same side,proceed_atop,proceeded]
    obtain ⟨moved,made,_,same⟩ := proceed_moves proceeded
    exact congrArg some (goes (same.trans (move_arriving made)))
  | write side t =>
    obtain ⟨gone,moved,rfl⟩ := Option.map_eq_some_iff.mp stepped
    rw [Connections.step,same side,move_atop,moved]
    exact congrArg some (goes (move_arriving moved))
  | read side t delivers type_raw => cases other
  | work side place =>
    cases found : (d side).jobs[place]? with
    | none => simp [Connections.step,found] at stepped
    | some entry =>
      obtain ⟨id,job⟩ := entry
      simp only [Connections.step,found] at stepped
      cases stepped
      have found' : (behind arriving d side).jobs[place]? = some (id,job) := found
      simp only [Connections.step,found']
      rw [same side]
      let left : Party Tid := { d side with jobs := (d side).jobs.eraseIdx place }
      have worked : (behind arriving d).after side (atop (arriving side) (left.deal id (jobInvoke (ipc side) job))) =
          behind arriving (d.after side (left.deal id (jobInvoke (ipc side) job))) := goes rfl
      exact congrArg some worked

/-! ### Every step -/

omit [DecidableEq Tid] in
theorem Seen.quiet (seen : Seen b c) (side : Bool) : (b.parties side).arriving = [] := by rw [seen.parties side]

/-- What a read brings is the next packet that is on its way. -/
theorem read_seen (seen : Seen b c) (framed : ∀ side, ∀ packet ∈ (c side).arriving, WholeFrame packet) {side : Bool} {t : Tid}
    {fresh : Nat → Byte} {wait_incoming_packet : Bool} {schedule : List (List Byte)} {type_raw : BitVec 32}
    {answer : Bool × Option Data} {receiver : Receiver (List Byte)} {gone : Party Tid × List Data}
    (read : memoryRead fresh wait_incoming_packet schedule (b.receivers side) = some (answer,receiver))
    (moved : (b.parties side).move t (.read answer.1 answer.2 type_raw) = some gone) :
    ∃ delivers c', Connections.step ipc c (.read side t delivers type_raw) = some c' ∧
      Seen ({ b with receivers := Function.update b.receivers side receiver }.write (b.parties.after side gone)) c' := by
  obtain ⟨ok,rest,taken,left⟩ := read_takes (framed side) fresh wait_incoming_packet (seen.left side) read
  have none : gone.1.arriving = [] := (move_arriving moved).trans (seen.quiet side)
  have after : Seen ({ b with receivers := Function.update b.receivers side receiver }.write (b.parties.after side gone))
      (c.after side (atop rest gone)) := by
    constructor
    · intro other
      by_cases same : other = side
      · subst same
        simp only [ByteConnection.write,after_self,atop]
      · rw [(Bool.eq_not_of_ne same : other = !side)]
        simp only [ByteConnection.write,after_other,seen.parties]
    · intro other
      by_cases same : other = side
      · subst same
        have kept := left.write []
        rw [List.append_nil] at kept
        simpa only [ByteConnection.write,after_self,atop,none,Function.update_self] using kept
      · have kept := (seen.left other).write gone.2
        rw [(Bool.eq_not_of_ne same : other = !side)] at kept ⊢
        simpa only [ByteConnection.write,after_other,atop,seen.quiet,List.nil_append,
          Function.update_of_ne (show (!side) ≠ side by simp)] using kept
  have moved' (arriving : List Data) : { c side with arriving }.move t (.read answer.1 answer.2 type_raw) = some (atop arriving gone) := by
    have bare : ({ c side with arriving } : Party Tid) = { b.parties side with arriving } := by rw [seen.parties side]
    rw [bare,move_atop,moved]
    rfl
  obtain ⟨transport_ok,packet⟩ := answer
  obtain rfl : transport_ok = true := ok
  cases packet with
  | none =>
    refine ⟨false,_,?_,after⟩
    have same : (c side).arriving = rest := taken
    have goes := moved' rest
    rw [← same] at goes ⊢
    rw [Connections.step]
    exact congrArg (Option.map (c.after side)) goes
  | some packet =>
    refine ⟨true,_,?_,after⟩
    have first : (c side).arriving = packet :: rest := taken
    simp only [Connections.step,first]
    exact congrArg (Option.map (c.after side)) (moved' rest)

/-- A step is a step of the connection by packets. -/
theorem step_seen (seen : Seen b c) (framed : ∀ side, ∀ packet ∈ (c side).arriving, WholeFrame packet) {deed : Deed Tid}
    (stepped : step ipc b deed = some b') : ∃ other c', Connections.step ipc c other = some c' ∧ Seen b' c' ∧
      ∀ side t operation, other = .start side t operation → deed = .act (.start side t operation) := by
  cases deed with
  | act deed =>
    by_cases read : reads deed = true
    · rw [step,if_pos read] at stepped
      cases stepped
    · rw [step,if_neg read] at stepped
      obtain ⟨d,made,rfl⟩ := Option.map_eq_some_iff.mp stepped
      have goes := @step_behind Tid _ ipc b.parties d seen.quiet (fun side => (c side).arriving) deed
        (Bool.not_eq_true _ ▸ read) made
      rw [← bare_behind seen.parties] at goes
      refine ⟨deed,_,goes,⟨fun side => rfl,fun side => (seen.left side).write (d side).arriving⟩,?_⟩
      rintro side t operation rfl
      rfl
  | read side t fresh schedule type_raw =>
    obtain ⟨frame,_,stepped⟩ := Option.bind_eq_some_iff.mp stepped
    obtain ⟨⟨answer,receiver⟩,read,stepped⟩ := Option.bind_eq_some_iff.mp stepped
    obtain ⟨gone,moved,same⟩ := Option.bind_eq_some_iff.mp stepped
    cases same
    obtain ⟨delivers,c',goes,seen'⟩ := @read_seen Tid _ ipc b c seen framed side t fresh _ schedule type_raw answer receiver gone read moved
    exact ⟨_,c',goes,seen',fun _ _ _ other => by cases other⟩

omit [DecidableEq Tid] in
theorem after_grows {c : Connection Tid} {side : Bool} {gone : Party Tid × List Data}
    (grows : ∃ events, gone.1.endpoint.events = (c side).endpoint.events ++ events) (other : Bool) :
    ∃ events, (c.after side gone other).endpoint.events = (c other).endpoint.events ++ events := by
  by_cases same : other = side
  · subst same
    rw [after_self]
    exact grows
  · rw [(Bool.eq_not_of_ne same : other = !side),after_other]
    exact ⟨[],(List.append_nil _).symm⟩

/-- The records only grow. -/
theorem step_grows {deed : Deed Tid} (stepped : step ipc b deed = some b') (side : Bool) :
    ∃ events, (b'.parties side).endpoint.events = (b.parties side).endpoint.events ++ events := by
  cases deed with
  | act deed =>
    by_cases read : reads deed = true
    · rw [step,if_pos read] at stepped
      cases stepped
    · rw [step,if_neg read] at stepped
      obtain ⟨d,made,rfl⟩ := Option.map_eq_some_iff.mp stepped
      obtain ⟨mover,gone,acts,rfl⟩ := @step_acts Tid _ (fun _ _ => True) ipc b.parties d deed (fun _ _ _ _ => trivial) made
      exact after_grows (acts_grow acts) side
  | read mover t fresh schedule type_raw =>
    obtain ⟨frame,_,stepped⟩ := Option.bind_eq_some_iff.mp stepped
    obtain ⟨⟨answer,receiver⟩,_,stepped⟩ := Option.bind_eq_some_iff.mp stepped
    obtain ⟨gone,moved,same⟩ := Option.bind_eq_some_iff.mp stepped
    cases same
    obtain ⟨endpoint,advanced,rfl⟩ := Option.map_eq_some_iff.mp moved
    refine after_grows ?_ side
    cases step_steps advanced with
    | moves _ _ => exact ⟨_,rfl⟩

end steps

/-! ### Every run -/

section runs
variable {infos : Bool → CallInfos} {ipc : Bool → Internals} {deeds : List (Deed Tid)}

/-- As for a connection by packets, and no call is put into a buffer that is too large. -/
structure UsableBytes (infos : Bool → CallInfos) (ipc : Bool → Internals) (deeds : List (Deed Tid)) : Prop extends
    UsableBy infos ipc (fun side t operation => Deed.act (.start side t operation) ∈ deeds)
      (run (step ipc) (openedBytes infos) deeds).parties where
  exact_calls : ∀ side t operation, .act (.start side t operation) ∈ deeds → ExactCall operation

omit [DecidableEq Tid] in
theorem opened_seen (infos : Bool → CallInfos) : Seen (openedBytes infos : ByteConnection Tid) (opened infos) :=
  ⟨fun _ => rfl,fun _ => start_left []⟩

omit [DecidableEq Tid] in
theorem Seen.few {b : ByteConnection Tid} {c : Connection Tid} (seen : Seen b c)
    (few : ∀ side, Few (b.parties side).endpoint.events) (side : Bool) : Few (c side).endpoint.events := by
  have mine := few side
  rwa [seen.parties side] at mine

/-- Every run over bytes is a run over packets in which the code of the user starts the same. -/
theorem bytes_seen (usable : UsableBytes infos ipc deeds) : ∃ others : List (Connections.Deed Tid),
    (∀ side t operation, .start side t operation ∈ others → Deed.act (.start side t operation) ∈ deeds) ∧
      Seen (run (step ipc) (openedBytes infos) deeds) (run (Connections.step ipc) (opened infos) others) := by
  induction deeds using List.reverseRecOn with
  | nil => exact ⟨[],fun _ _ _ member => (by cases member),opened_seen infos⟩
  | append_singleton deeds deed ih =>
    have few := usable.few
    rw [run_append] at few ⊢
    simp only [run] at few ⊢
    have inside {side : Bool} {t : Tid} {operation : Operation Invocation}
        (member : Deed.act (.start side t operation) ∈ deeds) : Deed.act (.start side t operation) ∈ deeds ++ [deed] :=
      List.mem_append_left _ member
    cases stepped : step ipc (run (step ipc) (openedBytes infos) deeds) deed with
    | none =>
      rw [stepped,Option.getD_none] at few
      obtain ⟨others,starts,seen⟩ := ih ⟨usable.other (fun _ _ _ started => .inl (inside started)) few,
        fun side t operation member => usable.exact_calls side t operation (inside member)⟩
      exact ⟨others,fun side t operation member => inside (starts side t operation member),seen⟩
    | some b' =>
      rw [stepped,Option.getD_some] at few
      have before (side : Bool) : Few ((run (step ipc) (openedBytes infos) deeds).parties side).endpoint.events := by
        obtain ⟨events,grew⟩ := step_grows stepped side
        exact few_prefix (grew ▸ few side)
      obtain ⟨others,starts,seen⟩ := ih ⟨usable.other (fun _ _ _ started => .inl (inside started)) before,
        fun side t operation member => usable.exact_calls side t operation (inside member)⟩
      have usable' : Usable infos ipc others :=
        usable.other (fun side t operation started => .inl (inside (starts side t operation started)))
          (seen.few before)
      have framed := run_whole usable' fun side t operation member =>
        usable.exact_calls side t operation (inside (starts side t operation member))
      obtain ⟨other,c',goes,seen',started⟩ := step_seen seen framed stepped
      refine ⟨others ++ [other],fun side t operation member => ?_,?_⟩
      · rcases List.mem_append.mp member with old | new
        · exact inside (starts side t operation old)
        · have same := started side t operation (List.mem_singleton.mp new).symm
          exact List.mem_append_right _ (same ▸ List.mem_cons_self)
      · rw [run_append]
        simp only [run]
        rw [goes]
        exact seen'

/-- Every run over bytes is a run over packets: the endpoints, their registries, their
    jobs and their records are the same, and what a framer holds and the bytes that it
    did not read yet are the packets that are on their way. -/
theorem bytes_refine (usable : UsableBytes infos ipc deeds) : ∃ others : List (Connections.Deed Tid),
    (∀ side t operation, .start side t operation ∈ others → Deed.act (.start side t operation) ∈ deeds) ∧
      ∀ side, (run (step ipc) (openedBytes infos) deeds).parties side =
          { run (Connections.step ipc) (opened infos) others side with arriving := [] } ∧
        ∃ before held, Between ((run (step ipc) (openedBytes infos) deeds).receivers side) before held ∧
          held ++ ((run (step ipc) (openedBytes infos) deeds).receivers side).in_data =
            ((run (Connections.step ipc) (opened infos) others side).arriving.map Data.bytes).flatten := by
  obtain ⟨others,starts,seen⟩ := bytes_seen usable
  exact ⟨others,starts,fun side => ⟨seen.parties side,seen.left side⟩⟩

/-- Over bytes too, an operation that waits returns with the value of the handler that
    the other side ran for it once, or without one, or with the list of the handlers. -/
theorem bytes_answered (usable : UsableBytes infos ipc deeds) (side : Bool) {t : Tid} {operation : Operation Invocation}
    {id : CallId} {result : DataStream}
    (returned : (t,.returned operation id result) ∈ ((run (step ipc) (openedBytes infos) deeds).parties side).endpoint.events)
    (waits : operation.waitsReturn = true) (asks : operation ≠ .processTransport) :
    Returns (infos (!side)) (ipc (!side)).m_proc_map ((run (step ipc) (openedBytes infos) deeds).parties (!side)).ran id
      operation result := by
  obtain ⟨others,starts,seen⟩ := bytes_seen usable
  have usable' : Usable infos ipc others := usable.other (fun side t operation started => .inl (starts side t operation started))
    (seen.few usable.few)
  rw [seen.parties side] at returned
  rw [seen.parties (!side)]
  exact returned_returns (run_linked usable' side) (usable'.few side) returned waits asks

end runs

/-! ### Packets in two parts -/

/-- The same deeds where each packet comes in two parts, the first one of five bytes. -/
def inParts (ipc : Bool → Internals) (b : ByteConnection Unit) : List (Connections.Deed Unit) → List (Deed Unit)
  | [] => []
  | deed :: rest =>
    let next : Deed Unit := match deed with
      | .read side t _ type_raw =>
        .read side t (fun _ => 0) [(b.receivers side).in_data.take 5,(b.receivers side).in_data.drop 5] type_raw
      | deed => .act deed
    next :: inParts ipc ((step ipc b next).getD b) rest

theorem inParts_starts {ipc : Bool → Internals} {b : ByteConnection Unit} {deeds : List (Connections.Deed Unit)} {side : Bool}
    {t : Unit} {operation : Operation Invocation} (member : .act (.start side t operation) ∈ inParts ipc b deeds) :
    .start side t operation ∈ deeds := by
  induction deeds generalizing b with
  | nil => cases member
  | cons deed rest ih =>
    rcases List.mem_cons.mp member with first | later
    · cases deed with
      | start =>
        cases first
        exact List.mem_cons_self
      | proceed | write | read | work => cases first
    · exact List.mem_cons_of_mem _ (ih later)

def facingBytes : List (Deed Unit) := inParts (fun _ => notIpc) (openedBytes fun _ => notInfos) facing

theorem facingBytes_usable : UsableBytes (fun _ => notInfos) (fun _ => notIpc) facingBytes where
  alive := facing_usable.alive
  typed side t operation member := facing_usable.typed side t operation (inParts_starts member)
  exact_calls side t operation member := by
    have started := inParts_starts member
    simp only [facing,List.mem_cons,List.not_mem_nil,reduceCtorEq,or_false,Connections.Deed.start.injEq] at started
    intro call made buffer given
    rcases started with ⟨_,_,rfl⟩ | ⟨_,_,rfl⟩
    · cases made
      cases given
    · cases made
      cases given
  few side := by
    unfold Few
    cases side <;> decide +kernel

theorem bytes_refine_facing : ∃ others : List (Connections.Deed Unit),
    (∀ side t operation, .start side t operation ∈ others → Deed.act (.start side t operation) ∈ facingBytes) ∧
      ∀ side, (run (step fun _ => notIpc) (openedBytes fun _ => notInfos) facingBytes).parties side =
          { run (Connections.step fun _ => notIpc) (opened fun _ => notInfos) others side with arriving := [] } ∧
        ∃ before held,
          Between ((run (step fun _ => notIpc) (openedBytes fun _ => notInfos) facingBytes).receivers side) before held ∧
          held ++ ((run (step fun _ => notIpc) (openedBytes fun _ => notInfos) facingBytes).receivers side).in_data =
            ((run (Connections.step fun _ => notIpc) (opened fun _ => notInfos) others side).arriving.map Data.bytes).flatten :=
  bytes_refine facingBytes_usable

theorem bytes_answered_facing : ∃ t call process_incoming_calls id result,
    (t,.returned (.waitInvoke call process_incoming_calls) id result) ∈
      ((run (step fun _ => notIpc) (openedBytes fun _ => notInfos) facingBytes).parties false).endpoint.events ∧
    waitInvokeRet .bool result = true ∧
    Returns notInfos notIpc.m_proc_map ((run (step fun _ => notIpc) (openedBytes fun _ => notInfos) facingBytes).parties true).ran
      id (.waitInvoke call process_incoming_calls) result := by
  have listed : true ∈ picked returnedBool
      ((run (step fun _ => notIpc) (openedBytes fun _ => notInfos) facingBytes).parties false).endpoint.events := by
    decide +kernel
  obtain ⟨⟨t,event⟩,member,value⟩ := List.mem_filterMap.mp listed
  cases event with
  | returned operation id result =>
    cases operation with
    | waitInvoke call process_incoming_calls =>
      have answered := bytes_answered facingBytes_usable false member rfl (by rintro ⟨⟩)
      simp only [Bool.not_false] at answered
      exact ⟨t,call,process_incoming_calls,id,result,member,Option.some.inj value,answered⟩
    | _ => cases value
  | _ => cases value

end IpcPortable.ByteConnections
