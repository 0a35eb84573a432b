import IpcPortable.Enumerations

/-!
Two endpoints that are connected. Each side is an endpoint with its threads and
its registry, and what one side writes arrives at the other in order. The code of
the user, in the program and in the handlers, makes any calls at any time; a
handler that was called directly writes its reply when it returns, and a call or a
result that was posted is a job until some thread executes it. The registries do not
change, `Read` does not fail, and no code of the user runs inside of the transport.
-/
namespace IpcPortable.Connections
open IpcPortable.Runs IpcPortable.DataStream IpcPortable.Values IpcPortable.Packets IpcPortable.ProcMaps
open IpcPortable.Dispatch IpcPortable.Buffers IpcPortable.Pending IpcPortable.Endpoints IpcPortable.EndpointMoves
open IpcPortable.Peers
variable {Tid : Type} [DecidableEq Tid]

/-- The jobs that a dispatch posts for the call itself. -/
def callJobs (effects : List Effect) : List Job :=
  effects.filterMap fun effect => match effect with
    | .posted _ (.callJob call_info_data respond_id invoke_base) => some (.callJob call_info_data respond_id invoke_base)
    | .posted _ (.resultJob result) => some (.resultJob result)
    | _ => none
/-- What a job does when it is executed. -/
def jobInvoke (ipc : Internals) : Job → List Effect
  | .callJob call_info_data respond_id invoke_base =>
    callJobInvoke ipc.m_transport ipc.m_inter_thread_nullable call_info_data invoke_base respond_id
  | .resultJob result => resultJobInvoke ipc.m_transport result
  | _ => []
/-- A packet that the endpoint gave to the transport. -/
def wrotePacket : Event Invocation → Option Data
  | .wrote _ _ packet => some packet
  | _ => none

/-- One side: its endpoint and its registry, the packets on their way to it, and
    what it owes to the other side. -/
structure Party (Tid : Type) where
  endpoint : Endpoint Tid Invocation := {}
  call_infos : CallInfos
  arriving : List Data := []
  /-- The packets that threads are processing, the latest first, with what is left to do. -/
  dispatched : List (Tid × CallId × List Effect) := []
  /-- The jobs, with the ids of the packets that they are for. -/
  jobs : List (CallId × Job) := []
  /-- The record of the handlers that were run. -/
  ran : List (CallId × InvokeRemote × List Value) := []
/-- Both sides. -/
abbrev Connection (Tid : Type) := Bool → Party Tid

/-- One side goes on, and what it sends is on its way to the other. -/
def Connection.after (c : Connection Tid) (side : Bool) (gone : Party Tid × List Data) : Connection Tid := fun other =>
  if other = side then gone.1 else { c other with arriving := (c other).arriving ++ gone.2 }
/-- A step of a thread in its endpoint. -/
def Party.move (party : Party Tid) (t : Tid) (move : Move) : Option (Party Tid × List Data) :=
  (Endpoints.step invocationInfo party.endpoint (t,.move move)).map fun endpoint =>
    ({ party with endpoint },picked wrotePacket (endpoint.events.drop party.endpoint.events.length))
/-- The effects for a packet take place. -/
def Party.deal (party : Party Tid) (id : CallId) (effects : List Effect) : Party Tid × List Data :=
  ({ party with
      jobs := party.jobs ++ (callJobs effects).map (id,·)
      ran := party.ran ++ (invocations effects).map (id,·) },
    writes effects)
/-- The thread goes on; a packet that asks for something is dispatched at the
    beginning of `ProcessBuffer`, and its effects have taken place at the end. -/
def Party.proceed (ipc : Internals) (party : Party Tid) (t : Tid) : Option (Party Tid × List Data) :=
  match (party.endpoint.threads t).head?.map Activation.point with
  | some (.handling buffer) =>
    if Incoming buffer then do
      let (call_infos,_,effects) ← processBuffer party.call_infos ipc buffer
      let (party,sent) ← party.move t .proceed
      pure ({ party with call_infos, dispatched := (t,buffer.header.id,effects) :: party.dispatched },sent)
    else party.move t .proceed
  | some (.processing false _) => do
    let (party,sent) ← party.move t .proceed
    match party.dispatched.find? fun entry => entry.1 = t with
    | some (_,id,effects) =>
      pure ({ party with dispatched := party.dispatched.eraseP fun entry => entry.1 = t }.deal id effects)
    | none => pure (party,sent)
  | _ => party.move t .proceed

inductive Deed (Tid : Type)
  | start (side : Bool) (t : Tid) (operation : Operation Invocation)
  | proceed (side : Bool) (t : Tid)
  | write (side : Bool) (t : Tid)
  /-- `Read` delivers the next packet, or returns without one. -/
  | read (side : Bool) (t : Tid) (delivers : Bool) (type_raw : BitVec 32)
  /-- A thread executes one of the jobs, in one step. The thread that it was posted to is not
      kept: whatever the threads with jobs do in the code is one order of these steps. -/
  | work (side : Bool) (place : Nat)

/-- A step of the connection; `ipc` are the registries and what they refer to. -/
def step (ipc : Bool → Internals) (c : Connection Tid) : Deed Tid → Option (Connection Tid)
  | .start side t operation =>
    if calm ((c side).endpoint.threads t) then
      (Endpoints.step invocationInfo (c side).endpoint (t,.start operation)).map fun endpoint =>
        c.after side ({ c side with endpoint },[])
    else none
  | .proceed side t => ((c side).proceed (ipc side) t).map (c.after side)
  | .write side t =>
    ((c side).move t (.write (ipc side).m_transport (ipc side).m_transport.isSome)).map (c.after side)
  | .read side t true type_raw =>
    match (c side).arriving with
    | [] => none
    | packet :: rest => ({ c side with arriving := rest }.move t (.read true (some packet) type_raw)).map (c.after side)
  | .read side t false type_raw => ((c side).move t (.read true none type_raw)).map (c.after side)
  | .work side place =>
    match (c side).jobs[place]? with
    | none => none
    | some (id,job) =>
      some (c.after side ({ c side with jobs := (c side).jobs.eraseIdx place }.deal id (jobInvoke (ipc side) job)))

/-! ### Every step -/

/-- The thread passes no packet that asks for something. -/
def Plain (stack : List (Activation Invocation)) : Prop :=
  ∀ frame below, stack = frame :: below → ∀ buffer, frame.point = .handling buffer → ¬ Incoming buffer

/-- The thread ends no packet that asks for something. -/
def Ended (party : Party Tid) (t : Tid) : Prop :=
  ∀ frame below, party.endpoint.threads t = frame :: below → ∀ result, frame.point = .processing false result →
    ∀ entry ∈ party.dispatched, entry.1 ≠ t

/-- Every way one side can go on, where the code of the user uses only some operations. -/
inductive Acts (may : Operation Invocation → Prop) (ipc : Internals) (party : Party Tid) : Party Tid × List Data → Prop
  | starts {t : Tid} {operation : Operation Invocation} {endpoint : Endpoint Tid Invocation} (allowed : may operation)
    (free : calm (party.endpoint.threads t) = true)
    (started : Endpoints.step invocationInfo party.endpoint (t,.start operation) = some endpoint) :
    Acts may ipc party ({ party with endpoint },[])
  | moves {t : Tid} {move : Move} {endpoint : Endpoint Tid Invocation} {arriving : List Data}
    (transports : ∀ transport, ipc.m_transport = some transport → Transports transport party.arriving move arriving)
    (stepped : Endpoints.step invocationInfo party.endpoint (t,.move move) = some endpoint)
    (plain : Plain (party.endpoint.threads t)) (ended : Ended party t) :
    Acts may ipc party ({ party with endpoint, arriving },picked wrotePacket (endpoint.events.drop party.endpoint.events.length))
  | dispatches {t : Tid} {endpoint : Endpoint Tid Invocation} {frame : Activation Invocation}
    {below : List (Activation Invocation)} {buffer : CallDataBuffer} {call_infos : CallInfos} {result : DataStream}
    {effects : List Effect} (running : party.endpoint.threads t = frame :: below) (at_point : frame.point = .handling buffer)
    (asks : Incoming buffer) (processed : processBuffer party.call_infos ipc buffer = some (call_infos,result,effects))
    (stepped : Endpoints.step invocationInfo party.endpoint (t,.move .proceed) = some endpoint) :
    Acts may ipc party ({ party with endpoint, call_infos, dispatched := (t,buffer.header.id,effects) :: party.dispatched },
      picked wrotePacket (endpoint.events.drop party.endpoint.events.length))
  | finishes {t : Tid} {endpoint : Endpoint Tid Invocation} {frame : Activation Invocation}
    {below : List (Activation Invocation)} {result : DataStream} {before after : List (Tid × CallId × List Effect)}
    {id : CallId} {effects : List Effect} (running : party.endpoint.threads t = frame :: below)
    (at_point : frame.point = .processing false result) (latest : party.dispatched = before ++ (t,id,effects) :: after)
    (others : ∀ entry ∈ before, entry.1 ≠ t)
    (stepped : Endpoints.step invocationInfo party.endpoint (t,.move .proceed) = some endpoint) :
    Acts may ipc party ({ party with endpoint, dispatched := before ++ after }.deal id effects)
  | works {place : Nat} {id : CallId} {job : Job} (found : party.jobs[place]? = some (id,job)) :
    Acts may ipc party ({ party with jobs := party.jobs.eraseIdx place }.deal id (jobInvoke ipc job))

theorem Acts.mono {may more : Operation Invocation → Prop} {ipc : Internals} {party : Party Tid} {gone : Party Tid × List Data}
    (acts : Acts may ipc party gone) (wider : ∀ operation, may operation → more operation) : Acts more ipc party gone := by
  cases acts with
  | starts allowed free started => exact .starts (wider _ allowed) free started
  | moves transports stepped plain ended => exact .moves transports stepped plain ended
  | dispatches running at_point asks processed stepped => exact .dispatches running at_point asks processed stepped
  | finishes running at_point latest others stepped => exact .finishes running at_point latest others stepped
  | works found => exact .works found

theorem move_acts {may : Operation Invocation → Prop} {ipc : Internals} {party : Party Tid} {t : Tid} {move : Move} {arriving : List Data}
    {gone : Party Tid × List Data}
    (transports : ∀ transport, ipc.m_transport = some transport → Transports transport party.arriving move arriving)
    (plain : Plain (party.endpoint.threads t)) (ended : Ended party t)
    (moved : { party with arriving }.move t move = some gone) : Acts may ipc party gone := by
  obtain ⟨endpoint,stepped,rfl⟩ := Option.map_eq_some_iff.mp moved
  exact .moves transports stepped plain ended

/-- A packet is processed without the transport. -/
theorem move_plain {party : Party Tid} {t : Tid} {move : Move} {gone : Party Tid × List Data}
    (moved : party.move t move = some gone) (other : move ≠ .proceed) :
    Plain (party.endpoint.threads t) ∧ Ended party t := by
  have elsewhere {frame : Activation Invocation} {below : List (Activation Invocation)}
      (running : party.endpoint.threads t = frame :: below) :
      (∀ buffer, frame.point ≠ .handling buffer) ∧ ∀ precessed result, frame.point ≠ .processing precessed result := by
    obtain ⟨endpoint,stepped,_⟩ := Option.map_eq_some_iff.mp moved
    simp only [Endpoints.step,running] at stepped
    obtain ⟨out,advanced,_⟩ := Option.map_eq_some_iff.mp stepped
    cases move with
    | proceed => exact absurd rfl other
    | write created alive =>
      constructor <;> intros <;> intro at_point <;> simp [advance,at_point] at advanced
    | read transport_ok packet type_raw =>
      constructor <;> intros <;> intro at_point <;> simp [advance,at_point] at advanced
  exact ⟨fun frame below running buffer at_point => absurd at_point ((elsewhere running).1 buffer),
    fun frame below running result at_point => absurd at_point ((elsewhere running).2 false result)⟩

theorem proceed_acts {may : Operation Invocation → Prop} {ipc : Internals} {party : Party Tid} {t : Tid}
    {gone : Party Tid × List Data} (proceeded : party.proceed ipc t = some gone) : Acts may ipc party gone := by
  have proceeds (transport : TransportShare) (_ : ipc.m_transport = some transport) :
      Transports transport party.arriving .proceed party.arriving := .proceeds
  cases running : party.endpoint.threads t with
  | nil =>
    simp only [Party.proceed,running,List.head?_nil,Option.map_none] at proceeded
    refine move_acts proceeds (fun frame below cut => ?_) (fun frame below cut => ?_) proceeded
    · rw [running] at cut
      cases cut
    · rw [running] at cut
      cases cut
  | cons frame below =>
    have plain (passes : ∀ buffer, frame.point = .handling buffer → ¬ Incoming buffer) :
        Plain (party.endpoint.threads t) := by
      rw [running]
      intro other deeper cut
      cases cut
      exact passes
    have ended (leaves : ∀ result, frame.point = .processing false result → ∀ entry ∈ party.dispatched, entry.1 ≠ t) :
        Ended party t := by
      intro other deeper cut
      rw [running] at cut
      cases cut
      exact leaves
    simp only [Party.proceed,running,List.head?_cons,Option.map_some] at proceeded
    cases at_point : frame.point with
    | handling buffer =>
      simp only [at_point] at proceeded
      by_cases asks : Incoming buffer
      · rw [if_pos asks] at proceeded
        obtain ⟨⟨call_infos,result,effects⟩,processed,proceeded⟩ := Option.bind_eq_some_iff.mp proceeded
        obtain ⟨⟨moved,sent⟩,made,rest⟩ := Option.bind_eq_some_iff.mp proceeded
        obtain ⟨endpoint,stepped,same⟩ := Option.map_eq_some_iff.mp made
        cases same
        cases rest
        exact .dispatches running at_point asks processed stepped
      · rw [if_neg asks] at proceeded
        refine move_acts proceeds (plain fun other same => ?_) (ended fun result same => ?_) proceeded
        · rw [at_point] at same
          cases same
          exact asks
        · rw [at_point] at same
          cases same
    | processing precessed result =>
      have passes : ∀ buffer, frame.point = .handling buffer → ¬ Incoming buffer := fun buffer same => by
        rw [at_point] at same
        cases same
      cases precessed with
      | true =>
        simp only [at_point] at proceeded
        refine move_acts proceeds (plain passes) (ended fun result same => ?_) proceeded
        rw [at_point] at same
        cases same
      | false =>
        simp only [at_point] at proceeded
        obtain ⟨⟨moved,sent⟩,made,rest⟩ := Option.bind_eq_some_iff.mp proceeded
        have acts (leaves : ∀ entry ∈ party.dispatched, entry.1 ≠ t) : Acts may ipc party (moved,sent) :=
          move_acts proceeds (plain passes) (ended fun _ _ => leaves) made
        obtain ⟨endpoint,stepped,same⟩ := Option.map_eq_some_iff.mp made
        cases same
        dsimp only at rest
        cases found : party.dispatched.find? fun entry => entry.1 = t with
        | none =>
          rw [found] at rest
          cases rest
          exact acts fun entry member => of_decide_eq_false (by simpa using List.find?_eq_none.mp found entry member)
        | some entry =>
          obtain ⟨u,id,effects⟩ := entry
          rw [found] at rest
          cases rest
          obtain ⟨mine,before,after,cut,others⟩ := List.find?_eq_some_iff_append.mp found
          obtain rfl : u = t := of_decide_eq_true mine
          have erased : (party.dispatched.eraseP fun entry => entry.1 = u) = before ++ after := by
            rw [cut,List.eraseP_append_right _ fun other member => by simpa using others other member,
              List.eraseP_cons_of_pos (by simp)]
          rw [erased]
          exact .finishes running at_point cut (fun other member => by simpa using others other member) stepped
    | _ =>
      simp only [at_point] at proceeded
      refine move_acts proceeds (plain fun buffer same => ?_) (ended fun result same => ?_) proceeded
      · rw [at_point] at same
        cases same
      · rw [at_point] at same
        cases same

/-- A step of the connection is a step of one side. -/
theorem step_acts {may : Bool → Operation Invocation → Prop} {ipc : Bool → Internals} {c c' : Connection Tid}
    {deed : Deed Tid} (allowed : ∀ side t operation, deed = .start side t operation → may side operation)
    (stepped : step ipc c deed = some c') : ∃ side gone, Acts (may side) (ipc side) (c side) gone ∧ c' = c.after side gone := by
  cases deed with
  | start side t operation =>
    by_cases free : calm ((c side).endpoint.threads t) = true
    · rw [step,if_pos free] at stepped
      obtain ⟨endpoint,started,rfl⟩ := Option.map_eq_some_iff.mp stepped
      exact ⟨side,_,.starts (allowed side t operation rfl) free started,rfl⟩
    · rw [step,if_neg free] at stepped
      cases stepped
  | proceed side t =>
    obtain ⟨gone,proceeded,rfl⟩ := Option.map_eq_some_iff.mp stepped
    exact ⟨side,gone,proceed_acts proceeded,rfl⟩
  | write side t =>
    obtain ⟨gone,moved,rfl⟩ := Option.map_eq_some_iff.mp stepped
    obtain ⟨plain,ended⟩ := move_plain moved Move.noConfusion
    refine ⟨side,gone,move_acts (fun transport alive => ?_) plain ended moved,rfl⟩
    rw [alive]
    exact .writes
  | read side t delivers type_raw =>
    cases delivers with
    | false =>
      obtain ⟨gone,moved,rfl⟩ := Option.map_eq_some_iff.mp stepped
      obtain ⟨plain,ended⟩ := move_plain moved Move.noConfusion
      exact ⟨side,gone,move_acts (fun _ _ => .waits) plain ended moved,rfl⟩
    | true =>
      cases coming : (c side).arriving with
      | nil => simp [step,coming] at stepped
      | cons packet rest =>
        simp only [step,coming] at stepped
        obtain ⟨gone,moved,rfl⟩ := Option.map_eq_some_iff.mp stepped
        obtain ⟨plain,ended⟩ := move_plain moved Move.noConfusion
        exact ⟨side,gone,move_acts (fun _ _ => coming ▸ .delivers) plain ended moved,rfl⟩
  | work side place =>
    cases found : (c side).jobs[place]? with
    | none => simp [step,found] at stepped
    | some entry =>
      obtain ⟨id,job⟩ := entry
      simp only [step,found] at stepped
      cases stepped
      exact ⟨side,_,.works found,rfl⟩

end IpcPortable.Connections
