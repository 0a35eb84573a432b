import IpcPortable.EndpointMoves

/-!
The transport is handed from reader to reader. The invariant ties the recorded
owner of the transport to the activations that are inside it, and every thread
that is blocked to an owner who will notify it (`reader_hand_over`).
-/
namespace IpcPortable.HandOver
open IpcPortable.Runs IpcPortable.DataStream IpcPortable.Packets IpcPortable.Pending IpcPortable.Endpoints
open IpcPortable.EndpointMoves
variable {Tid κ : Type}

/-- An activation of the thread took the transport and has not released it. -/
def Holds (stack : List (Activation κ)) : Prop := ∃ frame ∈ stack, frame.point.holds = true
/-- The activation did not pass the test for reentrance yet. -/
def early : Point → Bool
  | .newCallId => true
  | .writing => true
  | .readBuffer => true
  | _ => false
/-- Above an activation that holds the transport all others are early. -/
def Shaped : List (Activation κ) → Prop
  | [] => True
  | frame :: below => (Holds below → early frame.point = true) ∧ Shaped below
/-- The thread is blocked in its topmost activation, for a reason. -/
def Blocked (p : PendingResponces Tid) (stack : List (Activation κ)) : Prop :=
  ∃ frame below, stack = frame :: below ∧ frame.point = .waiting ∧
    p.m_thread_waiting_transport.m_locked_id ≠ none ∧ p.m_id_data_return frame.id = none ∧
    (frame.operation.processIncomingCalls = true → p.m_data_incoming_call = [])

structure Owned (s : Endpoint Tid κ) : Prop where
  shaped : ∀ t, Shaped (s.threads t)
  owner : ∀ t, s.pending.m_thread_waiting_transport.m_locked_id = some t ↔ Holds (s.threads t)
  blocked : ∀ t ∈ s.pending.m_write_cond, Blocked s.pending (s.threads t)
  quiet : ∀ t, (t,.asserted) ∉ s.events

/-! ### Stacks -/

@[simp] theorem holds_nil : ¬ Holds ([] : List (Activation κ)) := fun ⟨_,member,_⟩ => by cases member

@[simp] theorem holds_cons (frame : Activation κ) (below : List (Activation κ)) :
    Holds (frame :: below) ↔ frame.point.holds = true ∨ Holds below := by
  simp [Holds]

@[simp] theorem holds_append (above below : List (Activation κ)) :
    Holds (above ++ below) ↔ Holds above ∨ Holds below := by
  simp [Holds,or_and_right,exists_or]

theorem early_not_holds {point : Point} (is_early : early point = true) : point.holds = false := by
  cases point <;> first | rfl | cases is_early

/-- At most one activation of a thread holds the transport. -/
theorem Shaped.countP {stack : List (Activation κ)} (shaped : Shaped stack) :
    stack.countP (fun frame => frame.point.holds) ≤ 1 := by
  induction stack with
  | nil => exact Nat.zero_le 1
  | cons frame below ih =>
    rw [List.countP_cons]
    by_cases inside : Holds below
    · have idle := early_not_holds (shaped.1 inside)
      simpa [idle] using ih shaped.2
    · have none : below.countP (fun frame => frame.point.holds) = 0 := by
        rw [List.countP_eq_zero]
        intro other member holds
        exact inside ⟨other,member,holds⟩
      rw [none]
      split <;> omega

theorem enter_early (operation : Operation κ) : early (enter operation).point = true := by
  cases operation <;> rfl

theorem Blocked.mono {p p' : PendingResponces Tid} {stack : List (Activation κ)}
    (locked : p.m_thread_waiting_transport.m_locked_id ≠ none → p'.m_thread_waiting_transport.m_locked_id ≠ none)
    (replies : ∀ id, p.m_id_data_return id = none → p'.m_id_data_return id = none)
    (calls : p.m_data_incoming_call = [] → p'.m_data_incoming_call = []) (blocked : Blocked p stack) :
    Blocked p' stack := by
  obtain ⟨frame,below,top,at_point,owned,absent,empty⟩ := blocked
  exact ⟨frame,below,top,at_point,locked owned,replies _ absent,fun allowed => calls (empty allowed)⟩

theorem empty_owned : Owned ({} : Endpoint Tid κ) where
  shaped _ := trivial
  owner t := by simp
  blocked _ member := by cases member
  quiet _ member := by cases member

theorem owned_elsewhere {s : Endpoint Tid κ} (owned : Owned s) {t : Tid} {frame : Activation κ}
    {below : List (Activation κ)} (running : s.threads t = frame :: below) (idle : frame.point.holds = false)
    (late : early frame.point = false) : s.pending.m_thread_waiting_transport.m_locked_id ≠ some t := by
  intro current
  have held := (owned.owner t).mp current
  have shaped := owned.shaped t
  rw [running] at held shaped
  rcases (holds_cons frame below).mp held with inside | held
  · simp [idle] at inside
  · simpa [late] using shaped.1 held

variable [DecidableEq Tid]

/-! ### Steps of an activation -/

section activation
variable {call_info : CallInfo κ} {t : Tid} {p q : PendingResponces Tid} {frame : Activation κ} {move : Move}
variable {out : Advance Tid κ}

theorem begins_transport (begins : Begins t p frame q) : q.m_thread_waiting_transport = p.m_thread_waiting_transport := by
  cases begins <;> rfl

theorem begins_replies (begins : Begins t p frame q) : q.m_id_data_return = p.m_id_data_return := by
  cases begins <;> rfl

theorem begins_calls (begins : Begins t p frame q) : q.m_data_incoming_call = p.m_data_incoming_call := by
  cases begins <;> rfl

theorem begins_idle (begins : Begins t p frame q) : frame.point.holds = false := by
  rcases begins_point begins with at_point | at_point <;> rw [at_point] <;> rfl

theorem idle_to {next : Activation κ} (idle : frame.point.holds = false) (next_idle : next.point.holds = false) :
    Holds [next] ↔ frame.point.holds = true := by
  simp [idle,next_idle]

theorem idle_gone (idle : frame.point.holds = false) : Holds ([] : List (Activation κ)) ↔ frame.point.holds = true := by
  simp [idle]

/-- What a step does to the transport: nothing, or it locks it, or it unlocks it. -/
theorem moves_transport (moved : Moves call_info t p frame move out) :
    (out.pending.m_thread_waiting_transport = p.m_thread_waiting_transport ∧
      (Holds out.frames ↔ frame.point.holds = true)) ∨
    (p.m_thread_waiting_transport.m_locked_id = none ∧
      out.pending.m_thread_waiting_transport.m_locked_id = some t ∧ Holds out.frames) ∨
    (frame.point.holds = true ∧ out.pending.m_thread_waiting_transport.m_locked_id = none ∧ ¬ Holds out.frames) := by
  have idle {point : Point} (at_point : frame.point = point) (none : point.holds = false) :
      frame.point.holds = false := at_point ▸ none
  cases moved with
  | issues at_point drawn =>
    refine .inl ⟨?_,idle_to (idle at_point rfl) rfl⟩
    rw [(newCallId_result drawn).2.2]
  | unsent at_point => exact .inl ⟨rfl,idle_gone (idle at_point rfl)⟩
  | sends at_point => exact .inl ⟨rfl,idle_to (idle at_point rfl) rfl⟩
  | sendsOnly at_point => exact .inl ⟨rfl,idle_gone (idle at_point rfl)⟩
  | reenters at_point => exact .inl ⟨rfl,idle_gone (idle at_point rfl)⟩
  | takesResponse begins => exact .inl ⟨(begins_transport begins :),idle_to (begins_idle begins) rfl⟩
  | takesCall begins => exact .inl ⟨(begins_transport begins :),idle_to (begins_idle begins) rfl⟩
  | waits begins => exact .inl ⟨(begins_transport begins :),idle_to (begins_idle begins) rfl⟩
  | busy begins => exact .inl ⟨(begins_transport begins :),idle_gone (begins_idle begins)⟩
  | locks begins unlocked => exact .inr (.inl ⟨begins_transport begins ▸ unlocked,rfl,by simp [Activation.at,Point.holds]⟩)
  | passes at_point => exact .inl ⟨rfl,idle_to (idle at_point rfl) rfl⟩
  | answers at_point => exact .inl ⟨rfl,idle_gone (idle at_point rfl)⟩
  | continues at_point => exact .inl ⟨rfl,idle_to (idle at_point rfl) rfl⟩
  | receives at_point => exact .inl ⟨rfl,by simp [at_point,Activation.at,Point.holds]⟩
  | receivesNothing at_point => exact .inl ⟨rfl,by simp [at_point,Activation.at,Point.holds]⟩
  | enters at_point => exact .inr (.inr ⟨by rw [at_point]; rfl,by simp,by simp [Activation.at,Point.holds]⟩)
  | entersLast at_point => exact .inr (.inr ⟨by rw [at_point]; rfl,by simp,by simp⟩)

/-- A thread that has the transport does not get past the test for reentrance. -/
theorem moves_early (moved : Moves call_info t p frame move out) (is_early : early frame.point = true)
    (current : p.m_thread_waiting_transport.m_locked_id = some t) : ∀ next ∈ out.frames, early next.point = true := by
  have not_begun {q : PendingResponces Tid} (begins : Begins t p frame q) : False := by
    cases begins with
    | fresh _ elsewhere => exact elsewhere current
    | woken at_point => simp [at_point,early] at is_early
  intro next member
  cases moved with
  | issues => exact List.mem_singleton.mp member ▸ rfl
  | sends => exact List.mem_singleton.mp member ▸ rfl
  | takesResponse begins => exact (not_begun begins).elim
  | takesCall begins => exact (not_begun begins).elim
  | waits begins => exact (not_begun begins).elim
  | locks begins => exact (not_begun begins).elim
  | passes at_point => simp [at_point,early] at is_early
  | continues at_point => simp [at_point,early] at is_early
  | receives at_point => simp [at_point,early] at is_early
  | receivesNothing at_point => simp [at_point,early] at is_early
  | enters at_point => simp [at_point,early] at is_early
  | _ => cases member

theorem begins_unblocked (begins : Begins t p frame q) (before : t ∈ p.m_write_cond → frame.point = .waiting) :
    ∀ v ∈ q.m_write_cond, v ≠ t ∧ v ∈ p.m_write_cond := by
  intro v member
  cases begins with
  | fresh at_point =>
    refine ⟨?_,member⟩
    rintro rfl
    simpa [at_point] using before member
  | woken => simpa [and_comm] using member

/-- After a step the thread that stepped is blocked for a reason, or not at
    all, and no other thread lost the reason it is blocked for. -/
theorem moves_blocked (moved : Moves call_info t p frame move out) (below : List (Activation κ))
    (before : t ∈ p.m_write_cond → frame.point = .waiting) {v : Tid} (member : v ∈ out.pending.m_write_cond) :
    (v = t ∧ Blocked out.pending (out.frames ++ below)) ∨
      (v ≠ t ∧ v ∈ p.m_write_cond ∧ ∀ stack : List (Activation κ), Blocked p stack → Blocked out.pending stack) := by
  have unblocked {point : Point} (at_point : frame.point = point) (other : point ≠ .waiting) (waits : v ∈ p.m_write_cond) :
      v ≠ t := by
    rintro rfl
    exact other (at_point ▸ before waits)
  have began {q : PendingResponces Tid} (begins : Begins t p frame q)
      (other : v ∈ q.m_write_cond) (lock : out.pending.m_thread_waiting_transport.m_locked_id = none →
        q.m_thread_waiting_transport.m_locked_id = none)
      (replies : ∀ id, q.m_id_data_return id = none → out.pending.m_id_data_return id = none)
      (calls : q.m_data_incoming_call = [] → out.pending.m_data_incoming_call = []) :
      v ≠ t ∧ v ∈ p.m_write_cond ∧ ∀ stack : List (Activation κ), Blocked p stack → Blocked out.pending stack := by
    obtain ⟨different,waits⟩ := begins_unblocked begins before v other
    rw [begins_transport begins] at lock
    rw [begins_replies begins] at replies
    rw [begins_calls begins] at calls
    exact ⟨different,waits,fun stack => Blocked.mono (mt lock) replies calls⟩
  cases moved with
  | issues at_point drawn =>
    rw [(newCallId_result drawn).2.2] at member ⊢
    exact .inr ⟨unblocked at_point (by simp) member,member,fun stack blocked => blocked⟩
  | unsent at_point => exact .inr ⟨unblocked at_point (by simp) member,member,fun stack blocked => blocked⟩
  | sends at_point => exact .inr ⟨unblocked at_point (by simp) member,member,fun stack blocked => blocked⟩
  | sendsOnly at_point => exact .inr ⟨unblocked at_point (by simp) member,member,fun stack blocked => blocked⟩
  | reenters at_point => exact .inr ⟨unblocked at_point (by simp) member,member,fun stack blocked => blocked⟩
  | takesResponse begins =>
    exact .inr (began begins member id (fun id => eraseReply_none _ _) id)
  | takesCall begins =>
    exact .inr (began begins member id (fun _ => id) fun empty => by rw [popCall_calls,empty,List.tail_nil])
  | @waits q begins absent empty locked waiting =>
    rcases List.mem_cons.mp member with rfl | other
    · exact .inl ⟨rfl,frame.at .waiting,below,rfl,rfl,locked,absent,empty⟩
    · exact .inr (began begins other id (fun _ => id) id)
  | busy begins => exact .inr (began begins member id (fun _ => id) id)
  | locks begins => exact .inr (began begins member (fun unlocked => by cases unlocked) (fun _ => id) id)
  | passes at_point => exact .inr ⟨unblocked at_point (by simp) member,member,fun stack blocked => blocked⟩
  | answers at_point => exact .inr ⟨unblocked at_point (by simp) member,member,fun stack blocked => blocked⟩
  | continues at_point => exact .inr ⟨unblocked at_point (by simp) member,member,fun stack blocked => blocked⟩
  | receives at_point => exact .inr ⟨unblocked at_point (by simp) member,member,fun stack blocked => blocked⟩
  | receivesNothing at_point => exact .inr ⟨unblocked at_point (by simp) member,member,fun stack blocked => blocked⟩
  | enters => cases member
  | entersLast => cases member

theorem moves_frames (moved : Moves call_info t p frame move out) : out.frames = [] ∨ ∃ next, out.frames = [next] := by
  cases moved <;> first | exact .inl rfl | exact .inr ⟨_,rfl⟩

theorem moves_quiet (moved : Moves call_info t p frame move out) : Event.asserted ∉ out.events := by
  cases moved <;> simp [Activation.leave]

end activation

/-! ### Steps of the endpoint -/

theorem start_owned {s : Endpoint Tid κ} (owned : Owned s) {t : Tid} (free : ready (s.threads t) = true)
    (operation : Operation κ) :
    Owned { s with threads := Function.update s.threads t (enter operation :: s.threads t) } where
  shaped v := by
    by_cases same : v = t
    · subst same
      simpa [Shaped] using ⟨fun _ => enter_early operation,owned.shaped v⟩
    · simpa [same] using owned.shaped v
  owner v := by
    by_cases same : v = t
    · subst same
      have idle := early_not_holds (enter_early operation)
      simpa [idle] using owned.owner v
    · simpa [same] using owned.owner v
  blocked v member := by
    have blocked := owned.blocked v member
    by_cases same : v = t
    · subst same
      obtain ⟨frame,below,top,at_point,_⟩ := blocked
      simp [top,ready,at_point,Point.nests] at free
    · simpa [same] using blocked
  quiet := owned.quiet

theorem moves_owned {call_info : CallInfo κ} {s : Endpoint Tid κ} (owned : Owned s) {t : Tid} {frame : Activation κ}
    {below : List (Activation κ)} {move : Move} {out : Advance Tid κ} (running : s.threads t = frame :: below)
    (moved : Moves call_info t s.pending frame move out) :
    Owned { pending := out.pending
            threads := Function.update s.threads t (out.frames ++ below)
            events := s.events ++ out.events.map (t,·) } where
  shaped v := by
    by_cases same : v = t
    · subst same
      obtain ⟨above_held,shaped⟩ : (Holds below → early frame.point = true) ∧ Shaped below := by
        simpa [running,Shaped] using owned.shaped v
      simp only [Function.update_self]
      rcases moves_frames moved with gone | ⟨next,goes_on⟩
      · rwa [gone]
      · rw [goes_on,List.singleton_append]
        refine ⟨fun held => ?_,shaped⟩
        have current := (owned.owner v).mpr (by simp [running,held])
        exact moves_early moved (above_held held) current next (by simp [goes_on])
    · simpa [same] using owned.shaped v
  owner v := by
    have mine := owned.owner t
    have theirs := owned.owner v
    rw [running,holds_cons] at mine
    rcases moves_transport moved with ⟨kept,inside⟩ | ⟨unlocked,locked,inside⟩ | ⟨inside,unlocked,outside⟩
    · by_cases same : v = t
      · subst same
        simpa [kept,inside] using mine
      · simpa [same,kept] using theirs
    · by_cases same : v = t
      · subst same
        simp [locked,inside]
      · simpa [same,Ne.symm same,locked,unlocked] using theirs
    · have current := mine.mpr (.inl inside)
      by_cases same : v = t
      · subst same
        have below_idle : ¬ Holds below := fun held => by
          have shaped := owned.shaped v
          rw [running] at shaped
          simpa [inside] using early_not_holds (shaped.1 held)
        simp [unlocked,outside,below_idle]
      · simpa [same,Ne.symm same,current,unlocked] using theirs
  blocked v member := by
    have before (waits : t ∈ s.pending.m_write_cond) : frame.point = .waiting := by
      obtain ⟨top,_,first,at_point,_⟩ := owned.blocked t waits
      rw [running] at first
      obtain ⟨rfl,_⟩ := List.cons.inj first
      exact at_point
    rcases moves_blocked moved below before member with ⟨rfl,blocked⟩ | ⟨different,waits,kept⟩
    · simpa using blocked
    · simpa [different] using kept _ (owned.blocked v waits)
  quiet v := by
    have quiet := owned.quiet v
    have none := moves_quiet moved
    simp only [List.mem_append,List.mem_map,Prod.mk.injEq,not_or]
    refine ⟨quiet,?_⟩
    rintro ⟨event,member,_,rfl⟩
    exact none member

theorem step_owned (call_info : CallInfo κ) : Preserves (step call_info) fun s : Endpoint Tid κ => Owned s := by
  intro s action s' owned stepped
  cases step_steps stepped with
  | starts free => exact start_owned owned free _
  | moves running moved => exact moves_owned owned running moved

theorem run_owned (call_info : CallInfo κ) (actions : List (Tid × Action κ)) :
    Owned (run (step call_info) {} actions) :=
  (step_owned call_info).run empty_owned actions

/-! ### The hand-over -/

/-- The transport is locked by at most one thread, which unlocks it before it
    leaves, and nobody is blocked who could go on. -/
structure HandsOver (call_info : CallInfo κ) (s : Endpoint Tid κ) : Prop where
  one_thread : ∀ t u, Holds (s.threads t) → Holds (s.threads u) → t = u
  one_activation : ∀ t, (s.threads t).countP (fun frame => frame.point.holds) ≤ 1
  owner : ∀ t, s.pending.m_thread_waiting_transport.m_locked_id = some t ↔ Holds (s.threads t)
  asserted : ∀ t, (t,.asserted) ∉ s.events
  exits : ∀ t move s' happened exit, step call_info s (t,.move move) = some s' → s'.events = s.events ++ happened →
    (t,.left exit) ∈ happened →
    (exit ≠ .reentrance → s'.pending.m_thread_waiting_transport.m_locked_id ≠ some t) ∧
      (exit = .reentrance → Holds (s'.threads t))
  waiters : ∀ t ∈ s.pending.m_write_cond, ∃ frame below, s.threads t = frame :: below ∧ frame.point = .waiting ∧
    s.pending.m_thread_waiting_transport.m_locked_id ≠ none ∧ s.pending.m_id_data_return frame.id = none ∧
    (frame.operation.processIncomingCalls = true → s.pending.m_data_incoming_call = [])

theorem moves_exits {call_info : CallInfo κ} {s : Endpoint Tid κ} (owned : Owned s) {t : Tid} {frame : Activation κ}
    {below : List (Activation κ)} {move : Move} {out : Advance Tid κ} (running : s.threads t = frame :: below)
    (moved : Moves call_info t s.pending frame move out) {exit : Exit} (left : .left exit ∈ out.events) :
    (exit ≠ .reentrance → out.pending.m_thread_waiting_transport.m_locked_id ≠ some t) ∧
      (exit = .reentrance → Holds (out.frames ++ below)) := by
  cases moved with
  | reenters at_point current =>
    obtain rfl : exit = .reentrance := by simpa [Activation.leave] using left
    refine ⟨fun other => absurd rfl other,fun _ => ?_⟩
    have held := (owned.owner t).mp current
    rw [running,holds_cons] at held
    simpa [at_point,Point.holds] using held
  | busy begins =>
    obtain rfl : exit = .busy := by simpa [Activation.leave] using left
    refine ⟨fun _ => ?_,fun other => by cases other⟩
    rw [begins_transport begins]
    cases begins with
    | fresh _ elsewhere => exact elsewhere
    | woken at_point => exact owned_elsewhere owned running (at_point ▸ rfl) (at_point ▸ rfl)
  | answers at_point =>
    obtain rfl : exit = .response := by simpa [Activation.leave] using left
    exact ⟨fun _ => owned_elsewhere owned running (at_point ▸ rfl) (at_point ▸ rfl),fun other => by cases other⟩
  | entersLast at_point reason =>
    refine ⟨fun _ => by simp,?_⟩
    rintro rfl
    simp [Activation.leave] at left
    simp [← left] at reason
  | _ => simp at left

/-- In every state that any number of threads can reach, the transport has at
    most one reader, who is its recorded owner and gives it back before it
    leaves, and no thread is blocked that was not notified while the transport
    is free or something it waits for is there. -/
theorem reader_hand_over (call_info : CallInfo κ) (actions : List (Tid × Action κ)) :
    HandsOver call_info (run (step call_info) {} actions) := by
  have owned := run_owned call_info actions
  generalize run (step call_info) {} actions = s at owned
  refine ⟨?_,fun t => (owned.shaped t).countP,owned.owner,owned.quiet,?_,owned.blocked⟩
  · intro t u first second
    have recorded := (owned.owner t).mpr first
    exact Option.some.inj (recorded.symm.trans ((owned.owner u).mpr second))
  · intro t move s' happened exit stepped events left
    cases step_steps stepped with
    | moves running moved =>
      obtain rfl := List.append_cancel_left events
      obtain ⟨event,member,same⟩ := List.mem_map.mp left
      cases same
      simpa using moves_exits owned running moved member

/-- While one thread reads, another one that asked for something is blocked. -/
example : (run (step fun _ _ _ _ => { m_write := some ⟨[],by decide⟩ }) ({} : Endpoint Bool Unit)
    [(false,.start .processTransport),(false,.move .proceed),(true,.start (.waitInvoke () true)),(true,.move .proceed),
      (true,.move (.write none true)),(true,.move .proceed)]).pending.m_write_cond = [true] := by
  decide

end IpcPortable.HandOver
