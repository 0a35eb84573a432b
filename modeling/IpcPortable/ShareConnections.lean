import IpcPortable.ByteConnections
import IpcPortable.MemoryShares
import IpcPortable.Stalls

/-!
Two endpoints that are connected by an `IpcTransport_MemoryShare`. A thread that is in
its `Read` takes a packet, or sleeps in the condition variable until one is written. A
run is a run of two endpoints that are connected by packets, in which nobody sleeps
while a packet is there (`shares_refine`). So where no job is left and all calls process
what comes in, both sides only sleep while one of them does not use its endpoint
(`shares_idle`).
-/
namespace IpcPortable.ShareConnections
open IpcPortable.Runs IpcPortable.DataStream IpcPortable.Packets IpcPortable.ProcMaps IpcPortable.Dispatch
open IpcPortable.EndpointMoves IpcPortable.HandOver IpcPortable.Matching IpcPortable.Numbering IpcPortable.DueReplies
open IpcPortable.LinkRuns IpcPortable.Monitors IpcPortable.MemoryShares IpcPortable.Stalls
open IpcPortable.Responses (notCall)
open IpcPortable.ByteConnections (reads behind bare_behind step_behind move_atop atop move_arriving proceed_moves)
open IpcPortable.Connections hiding Deed step
open IpcPortable.Endpoints hiding step
open IpcPortable.Peers hiding Deed step
variable {Tid : Type} [DecidableEq Tid]

/-- The `SyncData` of the packets for one side. Threads of that side read; those of the other
    one write, which never waits, and `none` stands for them. -/
abbrev Share (Tid : Type) := Shared (Option Tid) SyncData Call Answer

/-- Both sides with what they read from; nothing is on its way but what is in memory. -/
structure ShareConnection (Tid : Type) where
  parties : Connection Tid
  shares : Bool → Share Tid := fun _ => { state := {} }

/-- `Write` of packets, one after the other. -/
def writeAll (share : Share Tid) (packets : List Data) : Share Tid :=
  run (Monitors.step memoryShare) share (packets.flatMap fun packet => [(none,.enter (.write packet)),(none,.hold)])
/-- What was sent is written to the transport. -/
def ShareConnection.write (b : ShareConnection Tid) (c : Connection Tid) : ShareConnection Tid where
  parties := fun side => { c side with arriving := [] }
  shares := fun side => writeAll (b.shares side) (c side).arriving
def ShareConnection.setShare (b : ShareConnection Tid) (side : Bool) (share : Share Tid) : ShareConnection Tid :=
  { b with shares := Function.update b.shares side share }

inductive Deed (Tid : Type)
  | act (deed : Connections.Deed Tid)
  /-- A thread calls `Read` of the transport. -/
  | call (side : Bool) (t : Tid)
  /-- It gets the lock, at first or when it was woken. -/
  | hold (side : Bool) (t : Tid) (type_raw : BitVec 32)
  /-- It wakes up without a notification. -/
  | wake (side : Bool) (t : Tid)
/-- The topmost activation of the thread is in `Read` of the transport. -/
def readingTop (c : Connection Tid) (side : Bool) (t : Tid) : Option (Activation Invocation) :=
  ((c side).endpoint.threads t).head?.filter fun frame => match frame.point with
    | .reading => true
    | _ => false
/-- A step of both sides. -/
def step (ipc : Bool → Internals) (b : ShareConnection Tid) : Deed Tid → Option (ShareConnection Tid)
  | .act deed => if reads deed then none else (Connections.step ipc b.parties deed).map b.write
  | .call side t => do
    let frame ← readingTop b.parties side t
    let share ← Monitors.step memoryShare (b.shares side) (some t,.enter (.read (decide (frame.id ≠ c_invalid_id))))
    pure (b.setShare side share)
  | .hold side t type_raw => do
    let op ← (b.shares side).inside (some t)
    let share ← Monitors.step memoryShare (b.shares side) (some t,.hold)
    if memoryShare.ready (b.shares side).state op then
      match (memoryShare.act (b.shares side).state op).2 with
      | .answered ok packet => do
        let gone ← (b.parties side).move t (.read ok packet type_raw)
        pure ((b.setShare side share).write (b.parties.after side gone))
      | .nothing => none
    else pure (b.setShare side share)
  | .wake side t => (Monitors.step memoryShare (b.shares side) (some t,.wake)).map (b.setShare side)
def openedShares (infos : Bool → CallInfos) : ShareConnection Tid := { parties := opened infos }

/-! ### Writing -/

/-- The packets are in memory, and only threads of the side use it, to read. -/
structure Holding (top : Tid → Option (Activation Invocation)) (share : Share Tid) (packets : List Data) : Prop where
  state : share.state = { data := packets }
  reading : ∀ who op, share.inside who = some op → ∃ t frame, who = some t ∧ top t = some frame ∧
    op = .read (decide (frame.id ≠ c_invalid_id))
  inside : Inside share
  awake : ∀ who, who ∈ share.condition.blocked → ¬ Due memoryShare share who

section sharing
variable {top : Tid → Option (Activation Invocation)} {share share' : Share Tid} {packets : List Data}

/-- What a section keeps of it. -/
theorem Holding.steps (holding : Holding top share packets) {who : Option Tid} {deed : Monitors.Deed Call}
    (stepped : Monitors.step memoryShare share (who,deed) = some share') :
    Inside share' ∧ ∀ other, other ∈ share'.condition.blocked → ¬ Due memoryShare share' other :=
  step_awake memoryShare_wakes share (who,deed) share' ⟨holding.inside,holding.awake⟩ stepped

omit [DecidableEq Tid] in
theorem Holding.outside (holding : Holding top share packets) : share.inside none = none := by
  cases inside : share.inside none with
  | none => rfl
  | some op =>
    obtain ⟨t,_,same,_⟩ := holding.reading none op inside
    cases same

theorem Holding.writeOne (holding : Holding top share packets) (packet : Data) :
    Holding top (run (Monitors.step memoryShare) share [(none,.enter (.write packet)),(none,.hold)]) (packets ++ [packet]) := by
  have outside := holding.outside
  have unblocked : none ∉ share.condition.blocked := fun sleeps => by
    have inside := holding.inside none sleeps
    rw [outside] at inside
    cases inside
  have enters : Monitors.step memoryShare share (none,.enter (.write packet)) = some (share.enter none (.write packet)) := by
    rw [Monitors.step,outside]
    rfl
  have acts : Monitors.step memoryShare (share.enter none (.write packet)) (none,.hold) =
      some ((share.enter none (.write packet)).finish memoryShare none (.write packet)) := by
    rw [Monitors.step,if_neg (show none ∉ (share.enter none (Call.write packet)).condition.blocked from unblocked),enter_self]
    rfl
  have kept := (step_awake memoryShare_wakes) _ _ _ ⟨holding.inside,holding.awake⟩ enters
  have kept := (step_awake memoryShare_wakes) _ _ _ kept acts
  simp only [run,enters,acts,Option.getD_some]
  refine ⟨?_,?_,kept.1,kept.2⟩
  · simp only [Shared.finish,Shared.enter,memoryShare,act,holding.state]
  · intro who op inside
    by_cases same : who = none
    · rw [same,finish_self] at inside
      cases inside
    · rw [finish_other same,enter_other same] at inside
      exact holding.reading who op inside

theorem Holding.writeAll (holding : Holding top share packets) (sent : List Data) :
    Holding top (writeAll share sent) (packets ++ sent) := by
  unfold ShareConnections.writeAll
  induction sent generalizing share packets with
  | nil => rwa [List.append_nil]
  | cons packet rest ih =>
    have next := ih (holding.writeOne packet)
    rwa [List.append_assoc] at next

omit [DecidableEq Tid] in
theorem Holding.mono {others : Tid → Option (Activation Invocation)} (holding : Holding top share packets)
    (same : ∀ t frame, top t = some frame → others t = some frame) : Holding others share packets where
  state := holding.state
  reading who op inside := by
    obtain ⟨t,frame,who_is,running,op_is⟩ := holding.reading who op inside
    exact ⟨t,frame,who_is,same t frame running,op_is⟩
  inside := holding.inside
  awake := holding.awake

omit [DecidableEq Tid] in
/-- Nobody sleeps while there is a packet. -/
theorem Holding.sleeps (holding : Holding top share packets) {who : Option Tid} (sleeps : who ∈ share.condition.blocked) :
    packets = [] := by
  obtain ⟨op,inside⟩ := Option.isSome_iff_exists.mp (holding.inside who sleeps)
  cases unready : ready share.state op with
  | true => exact absurd ⟨op,inside,unready⟩ (holding.awake who sleeps)
  | false =>
    have empty := (unready_waits unready).2
    rw [holding.state] at empty
    exact congrArg SyncData.data empty

/-- A `Read` ends. -/
theorem Holding.finish {others : Tid → Option (Activation Invocation)} {t : Tid} {op : Call} {rest : List Data}
    (holding : Holding top share packets) (inside : share.inside (some t) = some op) (ready : memoryShare.ready share.state op = true)
    (stepped : Monitors.step memoryShare share (some t,.hold) = some share')
    (left : (memoryShare.act share.state op).1 = { data := rest })
    (same : ∀ u frame, u ≠ t → top u = some frame → others u = some frame) : Holding others share' rest := by
  have kept := holding.steps stepped
  cases Monitors.step_steps stepped with
  | waits op' inside' unready =>
    cases inside'.symm.trans inside
    cases unready.symm.trans ready
  | acts op' _ inside' _ =>
    cases inside'.symm.trans inside
    refine ⟨left,?_,kept.1,kept.2⟩
    intro who next entered
    by_cases mine : who = some t
    · rw [mine,finish_self] at entered
      cases entered
    · rw [finish_other mine] at entered
      obtain ⟨u,frame,rfl,running,op_is⟩ := holding.reading who next entered
      exact ⟨u,frame,rfl,same u frame (fun is => mine (congrArg some is)) running,op_is⟩

/-- A section that does not end a call. -/
theorem Holding.stays (holding : Holding top share packets) {who : Option Tid} {deed : Monitors.Deed Call}
    (stepped : Monitors.step memoryShare share (who,deed) = some share')
    (enters : ∀ op, deed = .enter op → ∃ t frame, who = some t ∧ top t = some frame ∧ op = .read (decide (frame.id ≠ c_invalid_id)))
    (unready : ∀ op, deed = .hold → share.inside who = some op → memoryShare.ready share.state op = false) :
    Holding top share' packets := by
  have kept := holding.steps stepped
  refine ⟨?_,?_,kept.1,kept.2⟩
  · cases Monitors.step_steps stepped with
    | acts op _ inside ready => cases (unready op rfl inside).symm.trans ready
    | enters _ _ | waits _ _ _ | wakes => exact holding.state
  · intro other op inside
    cases Monitors.step_steps stepped with
    | acts op' _ inside' ready => cases (unready op' rfl inside').symm.trans ready
    | waits _ _ _ | wakes => exact holding.reading other op inside
    | enters op' _ =>
      by_cases same : other = who
      · subst same
        rw [enter_self] at inside
        cases inside
        exact enters op rfl
      · rw [enter_other same] at inside
        exact holding.reading other op inside

end sharing

/-! ### Threads in `Read` -/

section stays
variable {ipc : Bool → Internals} {party : Party Tid} {gone : Party Tid × List Data} {t u : Tid}
variable {frame : Activation Invocation} {below : List (Activation Invocation)}

omit [DecidableEq Tid] in
theorem readingTop_iff {c : Connection Tid} {side : Bool} : readingTop c side t = some frame ↔
    frame.point = .reading ∧ ∃ below, (c side).endpoint.threads t = frame :: below := by
  unfold readingTop
  rw [Option.filter_eq_some_iff,List.head?_eq_some_iff,and_comm]
  refine and_congr_left fun _ => ?_
  cases frame.point <;> simp

theorem move_elsewhere {move : Move} (moved : party.move t move = some gone) (other : u ≠ t) :
    gone.1.endpoint.threads u = party.endpoint.threads u := by
  obtain ⟨endpoint,stepped,rfl⟩ := Option.map_eq_some_iff.mp moved
  cases step_steps stepped with
  | moves _ _ => exact Function.update_of_ne other ..

/-- A thread that is in `Read` only goes on when that returns. -/
theorem move_reads {move : Move} (moved : party.move t move = some gone) (running : party.endpoint.threads t = frame :: below)
    (at_point : frame.point = .reading) : ∃ transport_ok packet type_raw, move = .read transport_ok packet type_raw := by
  obtain ⟨endpoint,stepped,rfl⟩ := Option.map_eq_some_iff.mp moved
  simp only [Endpoints.step,running] at stepped
  obtain ⟨out,advanced,_⟩ := Option.map_eq_some_iff.mp stepped
  cases move with
  | read transport_ok packet type_raw => exact ⟨transport_ok,packet,type_raw,rfl⟩
  | proceed => simp [advance,at_point] at advanced
  | write _ _ => simp [advance,at_point] at advanced

/-- The other threads do not disturb it. -/
theorem reading_stays {d d' : Connection Tid} {deed : Connections.Deed Tid} (other : reads deed = false)
    (stepped : Connections.step ipc d deed = some d') {side : Bool} (running : (d side).endpoint.threads t = frame :: below)
    (at_point : frame.point = .reading) : (d' side).endpoint.threads t = frame :: below := by
  have goes {mover : Bool} {gone : Party Tid × List Data}
      (kept : side = mover → gone.1.endpoint.threads t = frame :: below) :
      (d.after mover gone side).endpoint.threads t = frame :: below := by
    by_cases same : side = mover
    · subst same
      rw [after_self]
      exact kept rfl
    · obtain rfl : side = !mover := Bool.eq_not_of_ne same
      rw [after_other]
      exact running
  have undisturbed {mover : Bool} {who : Tid} {move : Move} {gone : Party Tid × List Data}
      (quiet : ∀ transport_ok packet type_raw, move ≠ .read transport_ok packet type_raw)
      (moved : (d mover).move who move = some gone) (same : side = mover) : gone.1.endpoint.threads t = frame :: below := by
    subst same
    by_cases mine : t = who
    · subst mine
      obtain ⟨transport_ok,packet,type_raw,rfl⟩ := move_reads moved running at_point
      exact absurd rfl (quiet transport_ok packet type_raw)
    · rw [move_elsewhere moved mine,running]
  cases deed with
  | start mover who operation =>
    by_cases free : calm ((d mover).endpoint.threads who) = true
    · rw [Connections.step,if_pos free] at stepped
      obtain ⟨endpoint,started,rfl⟩ := Option.map_eq_some_iff.mp stepped
      refine goes fun same => ?_
      subst same
      have elsewhere : t ≠ who := by
        rintro rfl
        simp [running,calm,at_point] at free
      cases step_steps started with
      | starts _ => exact (Function.update_of_ne elsewhere ..).trans running
    · rw [Connections.step,if_neg free] at stepped
      cases stepped
  | proceed mover who =>
    obtain ⟨gone,proceeded,rfl⟩ := Option.map_eq_some_iff.mp stepped
    obtain ⟨moved,made,same,_⟩ := proceed_moves proceeded
    exact goes fun mine => same ▸ undisturbed (fun _ _ _ is => by cases is) made mine
  | write mover who =>
    obtain ⟨gone,moved,rfl⟩ := Option.map_eq_some_iff.mp stepped
    exact goes (undisturbed (fun _ _ _ is => by cases is) moved)
  | read _ _ _ _ => cases other
  | work mover place =>
    cases found : (d mover).jobs[place]? with
    | none => simp [Connections.step,found] at stepped
    | some entry =>
      simp only [Connections.step,found] at stepped
      cases stepped
      refine goes fun same => ?_
      subst same
      exact running

end stays

/-! ### Every step -/

/-- The same connection by packets. -/
structure Seen (b : ShareConnection Tid) (c : Connection Tid) : Prop where
  parties : ∀ side, b.parties side = { c side with arriving := [] }
  holding : ∀ side, Holding (readingTop c side) (b.shares side) (c side).arriving

section steps
variable {ipc : Bool → Internals} {b b' : ShareConnection Tid} {c : Connection Tid}

omit [DecidableEq Tid] in
theorem Seen.top (seen : Seen b c) (side : Bool) : readingTop b.parties side = readingTop c side := by
  funext t
  unfold readingTop
  rw [seen.parties side]

omit [DecidableEq Tid] in
theorem Seen.setShare (seen : Seen b c) {side : Bool} {share : Share Tid}
    (holding : Holding (readingTop c side) share (c side).arriving) : Seen (b.setShare side share) c where
  parties := seen.parties
  holding other := by
    by_cases same : other = side
    · subst same
      simpa only [ShareConnection.setShare,Function.update_self] using holding
    · simpa only [ShareConnection.setShare,Function.update_of_ne same] using seen.holding other

/-- The `Read` of a thread takes the next packet, or returns without one. -/
theorem hold_seen (seen : Seen b c) {side : Bool} {t : Tid} {op : Call} {share : Share Tid} {ok : Bool} {packet : Option Data}
    {type_raw : BitVec 32} {gone : Party Tid × List Data} (inside : (b.shares side).inside (some t) = some op)
    (ready : memoryShare.ready (b.shares side).state op = true)
    (stepped : Monitors.step memoryShare (b.shares side) (some t,.hold) = some share)
    (answered : (memoryShare.act (b.shares side).state op).2 = .answered ok packet)
    (moved : (b.parties side).move t (.read ok packet type_raw) = some gone) :
    ∃ delivers c', Connections.step ipc c (.read side t delivers type_raw) = some c' ∧
      Seen ((b.setShare side share).write (b.parties.after side gone)) c' := by
  have holding := seen.holding side
  have none : gone.1.arriving = [] := (move_arriving moved).trans (by rw [seen.parties side])
  have moved' (arriving : List Data) : { c side with arriving }.move t (.read ok packet type_raw) = some (atop arriving gone) := by
    have bare : ({ c side with arriving } : Party Tid) = { b.parties side with arriving } := by rw [seen.parties side]
    rw [bare,move_atop,moved]
    rfl
  obtain ⟨_,frame,_,_,rfl⟩ := holding.reading (some t) op inside
  have after {rest : List Data} (left : (memoryShare.act (b.shares side).state (.read (decide (frame.id ≠ c_invalid_id)))).1 =
      { data := rest }) : Seen ((b.setShare side share).write (b.parties.after side gone)) (c.after side (atop rest gone)) := by
    constructor
    · intro other
      by_cases same : other = side
      · subst same
        simp only [ShareConnection.write,after_self,atop]
      · rw [(Bool.eq_not_of_ne same : other = !side)]
        simp only [ShareConnection.write,after_other,atop,seen.parties]
    · intro other
      by_cases same : other = side
      · subst same
        have kept : Holding (readingTop (c.after other (atop rest gone)) other) (writeAll share []) (rest ++ []) := by
          refine (holding.finish inside ready stepped left fun u top elsewhere running => ?_).writeAll []
          obtain ⟨at_point,below,running⟩ := readingTop_iff.mp running
          refine readingTop_iff.mpr ⟨at_point,below,?_⟩
          rw [after_self]
          show gone.1.endpoint.threads u = _
          rw [move_elsewhere moved elsewhere,seen.parties other]
          exact running
        rw [List.append_nil] at kept
        simpa only [ShareConnection.write,ShareConnection.setShare,after_self,atop,none,Function.update_self] using kept
      · obtain rfl : other = !side := Bool.eq_not_of_ne same
        have kept : Holding (readingTop (c.after side (atop rest gone)) (!side)) (writeAll (b.shares (!side)) gone.2)
            ((c (!side)).arriving ++ gone.2) := by
          refine ((seen.holding (!side)).writeAll gone.2).mono fun u top running => ?_
          obtain ⟨at_point,below,running⟩ := readingTop_iff.mp running
          refine readingTop_iff.mpr ⟨at_point,below,?_⟩
          rw [after_other]
          exact running
        simpa only [ShareConnection.write,ShareConnection.setShare,after_other,atop,seen.parties,List.nil_append,
          Function.update_of_ne (show (!side) ≠ side by simp)] using kept
  have state := holding.state
  cases arriving : (c side).arriving with
  | nil =>
    rw [arriving] at state
    rw [state] at answered after
    cases answered
    refine ⟨false,_,?_,after rfl⟩
    have goes := moved' []
    rw [← arriving] at goes
    rw [Connections.step,← arriving]
    exact congrArg (Option.map (c.after side)) goes
  | cons first rest =>
    rw [arriving] at state
    rw [state] at answered after
    cases answered
    refine ⟨true,_,?_,after rfl⟩
    simp only [Connections.step,arriving]
    exact congrArg (Option.map (c.after side)) (moved' rest)

/-- A step is one of the connection by packets, or nothing there. -/
theorem step_seen (seen : Seen b c) {deed : Deed Tid} (stepped : step ipc b deed = some b') :
    ∃ others, (∀ side t operation, .start side t operation ∈ others → deed = .act (.start side t operation)) ∧
      Seen b' (run (Connections.step ipc) c others) := by
  have bare (side : Bool) : (b.parties side).arriving = [] := by rw [seen.parties side]
  have nothing {side : Bool} {share : Share Tid} (holding : Holding (readingTop c side) share (c side).arriving) :
      ∃ others, (∀ side t operation, .start side t operation ∈ others → deed = .act (.start side t operation)) ∧
        Seen (b.setShare side share) (run (Connections.step ipc) c others) :=
    ⟨[],fun _ _ _ none => (by cases none),seen.setShare holding⟩
  cases deed with
  | act deed =>
    by_cases read : reads deed = true
    · rw [step,if_pos read] at stepped
      cases stepped
    · rw [step,if_neg read] at stepped
      obtain ⟨d,made,rfl⟩ := Option.map_eq_some_iff.mp stepped
      have other : reads deed = false := Bool.not_eq_true _ ▸ read
      have goes := @step_behind Tid _ ipc b.parties d bare (fun side => (c side).arriving) deed other made
      rw [← bare_behind seen.parties] at goes
      refine ⟨[deed],fun side t operation member => congrArg Deed.act (List.mem_singleton.mp member).symm,?_⟩
      rw [run,run,goes,Option.getD_some]
      refine ⟨fun _ => rfl,fun side => ((seen.holding side).mono fun t frame running => ?_).writeAll (d side).arriving⟩
      rw [← seen.top side] at running
      obtain ⟨at_point,below,running⟩ := readingTop_iff.mp running
      exact readingTop_iff.mpr ⟨at_point,below,reading_stays other made running at_point⟩
  | call side t =>
    obtain ⟨frame,running,stepped⟩ := Option.bind_eq_some_iff.mp stepped
    obtain ⟨share,entered,stepped⟩ := Option.bind_eq_some_iff.mp stepped
    cases stepped
    rw [seen.top side] at running
    refine nothing ((seen.holding side).stays entered (fun op same => ?_) (fun op same => ?_))
    · cases same
      exact ⟨t,frame,rfl,running,rfl⟩
    · cases same
  | hold side t type_raw =>
    obtain ⟨op,inside,stepped⟩ := Option.bind_eq_some_iff.mp stepped
    obtain ⟨share,held,stepped⟩ := Option.bind_eq_some_iff.mp stepped
    by_cases ready : memoryShare.ready (b.shares side).state op = true
    · rw [if_pos ready] at stepped
      split at stepped
      · rename_i ok packet answered
        obtain ⟨gone,moved,stepped⟩ := Option.bind_eq_some_iff.mp stepped
        cases stepped
        obtain ⟨delivers,c',goes,seen'⟩ := hold_seen seen inside ready held answered moved
        refine ⟨[.read side t delivers type_raw],fun _ _ _ member => (by cases List.mem_singleton.mp member),?_⟩
        rwa [run,run,goes,Option.getD_some]
      · cases stepped
    · rw [if_neg ready] at stepped
      cases stepped
      refine nothing ((seen.holding side).stays held (fun other same => ?_) (fun other _ inside' => ?_))
      · cases same
      · cases inside'.symm.trans inside
        exact Bool.not_eq_true _ ▸ ready
  | wake side t =>
    obtain ⟨share,woken,rfl⟩ := Option.map_eq_some_iff.mp stepped
    refine nothing ((seen.holding side).stays woken (fun op same => ?_) (fun op same => ?_))
    · cases same
    · cases same

end steps

/-! ### Every run -/

section runs
variable {infos : Bool → CallInfos} {ipc : Bool → Internals} {deeds : List (Deed Tid)}

omit [DecidableEq Tid] in
theorem opened_seen (infos : Bool → CallInfos) : Seen (openedShares infos : ShareConnection Tid) (opened infos) where
  parties _ := rfl
  holding _ := ⟨rfl,fun _ _ none => (by cases none),fun _ none => (by cases none),fun _ none => (by cases none)⟩

theorem run_shares {b : ShareConnection Tid} {c : Connection Tid} (seen : Seen b c) (deeds : List (Deed Tid)) :
    ∃ others : List (Connections.Deed Tid),
      (∀ side t operation, .start side t operation ∈ others → Deed.act (.start side t operation) ∈ deeds) ∧
        Seen (run (step ipc) b deeds) (run (Connections.step ipc) c others) := by
  induction deeds generalizing b c with
  | nil => exact ⟨[],fun _ _ _ member => (by cases member),seen⟩
  | cons deed rest ih =>
    rw [run]
    cases stepped : step ipc b deed with
    | none =>
      obtain ⟨others,starts,seen'⟩ := ih seen
      exact ⟨others,fun side t operation member => List.mem_cons_of_mem _ (starts side t operation member),seen'⟩
    | some b' =>
      obtain ⟨first,started,seen'⟩ := step_seen seen stepped
      obtain ⟨later,starts,seen''⟩ := ih seen'
      refine ⟨first ++ later,fun side t operation member => ?_,run_append _ _ _ _ ▸ seen''⟩
      rcases List.mem_append.mp member with now | after
      · exact started side t operation now ▸ List.mem_cons_self
      · exact List.mem_cons_of_mem _ (starts side t operation after)

/-- Every run over the memory is a run over packets: the endpoints, their registries,
    their jobs and their records are the same, what is in memory are the packets that are
    on their way, and nobody sleeps in `Read` while there is one. -/
theorem shares_refine (infos : Bool → CallInfos) (ipc : Bool → Internals) (deeds : List (Deed Tid)) :
    ∃ others : List (Connections.Deed Tid),
      (∀ side t operation, .start side t operation ∈ others → Deed.act (.start side t operation) ∈ deeds) ∧
        ∀ side, (run (step ipc) (openedShares infos) deeds).parties side =
            { run (Connections.step ipc) (opened infos) others side with arriving := [] } ∧
          ((run (step ipc) (openedShares infos) deeds).shares side).state =
            { data := (run (Connections.step ipc) (opened infos) others side).arriving } ∧
          ∀ who ∈ ((run (step ipc) (openedShares infos) deeds).shares side).condition.blocked,
            ((run (step ipc) (openedShares infos) deeds).shares side).state.data = [] := by
  obtain ⟨others,starts,seen⟩ := run_shares (opened_seen infos) deeds
  refine ⟨others,starts,fun side => ⟨seen.parties side,(seen.holding side).state,fun who sleeps => ?_⟩⟩
  rw [(seen.holding side).state]
  exact (seen.holding side).sleeps sleeps

/-- As for a connection by packets. -/
abbrev UsableShares (infos : Bool → CallInfos) (ipc : Bool → Internals) (deeds : List (Deed Tid)) : Prop :=
  UsableBy infos ipc (fun side t operation => .act (.start side t operation) ∈ deeds)
    (run (step ipc) (openedShares infos) deeds).parties

/-- Nobody goes on at the side: no job is left, whoever uses the endpoint is blocked, and
    neither who waits for the reader was notified nor who reads. -/
structure Asleep (b : ShareConnection Tid) (side : Bool) : Prop where
  jobs : (b.parties side).jobs = []
  blocked : ∀ t, (b.parties side).endpoint.threads t ≠ [] → ∃ id, BlockedOn (b.parties side) t id
  waiting : ∀ t frame below, (b.parties side).endpoint.threads t = frame :: below → frame.point = .waiting →
    t ∈ (b.parties side).endpoint.pending.m_write_cond
  reading : ∀ t frame below, (b.parties side).endpoint.threads t = frame :: below → frame.point = .reading →
    some t ∈ (b.shares side).condition.blocked

omit [DecidableEq Tid] in
/-- Who sleeps leaves no packet unread, as one of the threads is the reader. -/
theorem asleep_stalled {b : ShareConnection Tid} {c : Connection Tid} (seen : Seen b c) {side : Bool} (asleep : Asleep b side)
    (owned : Owned (c side).endpoint) : Stalled (c side) := by
  obtain ⟨jobs,blocked,waiting,reading⟩ := asleep
  simp only [seen.parties side] at jobs blocked waiting reading
  have reader {u : Tid} {frame : Activation Invocation} {below : List (Activation Invocation)}
      (running : (c side).endpoint.threads u = frame :: below) (at_point : frame.point = .reading) : (c side).arriving = [] :=
    (seen.holding side).sleeps (reading u frame below running at_point)
  refine ⟨⟨?_,blocked,waiting⟩,jobs⟩
  by_cases used : ∃ t, (c side).endpoint.threads t ≠ []
  · obtain ⟨t,busy⟩ := used
    obtain ⟨id,top⟩ := blocked t busy
    obtain ⟨frame,below,running,waits | reads,_⟩ := blockedOn_top top
    · obtain ⟨_,_,_,_,locked,_⟩ := owned.blocked t (waiting t frame below running waits)
      obtain ⟨owner,is_owner⟩ := Option.ne_none_iff_exists'.mp locked
      have holds := (owned.owner owner).mp is_owner
      have in_use : (c side).endpoint.threads owner ≠ [] := by
        obtain ⟨_,member,_⟩ := holds
        exact List.ne_nil_of_mem member
      obtain ⟨id',top'⟩ := blocked owner in_use
      obtain ⟨frame',below',running',waits' | reads',_⟩ := blockedOn_top top'
      · -- Above the activation that reads there are only those that did not look yet.
        rw [running',holds_cons,waits'] at holds
        have shaped := owned.shaped owner
        rw [running'] at shaped
        have is_early := shaped.1 (holds.resolve_left nofun)
        rw [waits'] at is_early
        cases is_early
      · exact .inl (reader running' reads')
    · exact .inl (reader running reads)
  · exact .inr fun t => Classical.byContradiction fun busy => used ⟨t,busy⟩

/-- What the side has not taken out of its queue or the memory. -/
def leftInMemory (b : ShareConnection Tid) (side : Bool) : List CallId :=
  leftIds { b.parties side with arriving := (b.shares side).state.data }

/-- Where every operation that waits processes the calls that come in, both sides are only
    asleep with no job left because one of them does not use its endpoint at all. -/
theorem shares_idle (usable : UsableShares infos ipc deeds)
    (processes : ∀ side t operation, .act (.start side t operation) ∈ deeds → operation.waitsReturn = true →
      operation.processIncomingCalls = true)
    (asleep : ∀ side, Asleep (run (step ipc) (openedShares infos) deeds) side) (who : Bool × Tid)
    (inside : ((run (step ipc) (openedShares infos) deeds).parties who.1).endpoint.threads who.2 ≠ []) :
    ∃ side, leftInMemory (run (step ipc) (openedShares infos) deeds) side ≠ [] ∧
      ∀ t, ((run (step ipc) (openedShares infos) deeds).parties side).endpoint.threads t = [] := by
  obtain ⟨others,starts,seen⟩ := run_shares (opened_seen infos) deeds
  have packets : Usable infos ipc others := usable.other (fun side t operation started => .inl (starts side t operation started))
    fun side => by
      have few := usable.few side
      rwa [seen.parties side] at few
  have stalled (side : Bool) : Stalled (run (Connections.step ipc) (opened infos) others side) :=
    asleep_stalled seen (asleep side) (run_linked packets side).carried.owned
  have same (side : Bool) : leftInMemory (run (step ipc) (openedShares infos) deeds) side =
      leftIds (run (Connections.step ipc) (opened infos) others side) := by
    rw [leftInMemory,seen.parties side,(seen.holding side).state]
  rw [seen.parties who.1] at inside
  obtain ⟨side,left⟩ := stalled_left packets stalled inside
  refine ⟨side,same side ▸ left,fun u => ?_⟩
  rw [seen.parties side]
  by_contra busy
  exact left (stalled_taken packets (fun v operation started => processes side v operation (starts _ v operation started))
    (stalled side) busy)

end runs

/-! ### A reader that nobody answers -/

/-- A side calls and sleeps, and the other one does not read. -/
def unheardShares : List (Deed Unit) :=
  [.act (.start false () (.waitInvoke (notCall false) true)),.act (.proceed false ()),.act (.write false ()),
    .act (.proceed false ()),.call false (),.hold false () 0]

theorem unheardShares_usable : UsableShares (fun _ => notInfos) (fun _ => notIpc) unheardShares := by
  refine not_usable (fun side t operation member => ?_) fun side => ?_
  · simp only [unheardShares,List.mem_cons,List.not_mem_nil,reduceCtorEq,or_false,Deed.act.injEq,
      Connections.Deed.start.injEq] at member
    exact ⟨_,_,member.2.2⟩
  · unfold Few
    cases side <;> decide +kernel

/-- The one thread of a side is outside, or sleeps in `Read` for its reply. -/
theorem reads_asleep {b : ShareConnection Unit} {side : Bool} {id : CallId} (jobs : (b.parties side).jobs.isEmpty = true)
    (ends : ((b.parties side).endpoint.threads ()).isEmpty = true ∨ some () ∈ (b.shares side).condition.blocked ∧
      BlockedOn (b.parties side) () id ∧
      ((b.parties side).endpoint.threads ()).head?.map (fun frame => frame.point.holds) = some true) : Asleep b side := by
  refine ⟨List.isEmpty_iff.mp jobs,fun _ busy => ?_,fun _ frame below running at_point => ?_,fun _ frame below running _ => ?_⟩
  · rcases ends with idle | ⟨_,blocked,_⟩
    · exact absurd (List.isEmpty_iff.mp idle) busy
    · exact ⟨id,blocked⟩
  · rcases ends with idle | ⟨_,_,reads⟩
    · rw [running] at idle
      cases idle
    · rw [running,List.head?_cons,Option.map_some,at_point] at reads
      cases reads
  · rcases ends with idle | ⟨sleeps,_⟩
    · rw [running] at idle
      cases idle
    · exact sleeps

theorem unheardShares_asleep (side : Bool) :
    Asleep (run (step fun _ => notIpc) (openedShares fun _ => notInfos) unheardShares) side :=
  @reads_asleep _ side 1 (by cases side <;> decide +kernel) (by cases side <;> decide +kernel)

theorem shares_idle_unheard : ∃ side,
    leftInMemory (run (step fun _ => notIpc) (openedShares fun _ => notInfos) unheardShares) side ≠ [] ∧
      ∀ t, ((run (step fun _ => notIpc) (openedShares fun _ => notInfos) unheardShares).parties side).endpoint.threads t = [] := by
  refine shares_idle unheardShares_usable (fun side t operation member _ => ?_) unheardShares_asleep (false,()) fun empty => ?_
  · simp only [unheardShares,List.mem_cons,List.not_mem_nil,reduceCtorEq,or_false,Deed.act.injEq,
      Connections.Deed.start.injEq] at member
    obtain ⟨_,_,rfl⟩ := member
    rfl
  · exact absurd (congrArg List.length empty) (by decide +kernel)

end IpcPortable.ShareConnections
