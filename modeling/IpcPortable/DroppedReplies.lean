import IpcPortable.TwinMoves

/-!
Runs of the twins. They stay related as long as no section comes upon an
unknown packet that is stored (`unknown_inert`). Where the response of a call
enters under the id of such a packet it is dropped, and the call goes on waiting.
-/
namespace IpcPortable.DroppedReplies
open IpcPortable.Runs IpcPortable.DataStream IpcPortable.Packets IpcPortable.Pending
open IpcPortable.Endpoints hiding step
open IpcPortable.EndpointMoves IpcPortable.HandOver IpcPortable.CallQueue IpcPortable.Waiters
open IpcPortable.UnknownPackets IpcPortable.TwinMoves
variable {Tid κ : Type}

/-! ### Both are runs -/

theorem silence_silent (t : Tid) (move : Move) : Silent (t,(.move (silence move) : Action κ)) := by
  intro transport_ok packet type_raw reads
  cases move with
  | read ok received raw =>
    cases received with
    | none => cases reads
    | some received =>
      by_cases known : Known (receiveCallDataBuffer raw received)
      · simp only [silence,known,if_true] at reads
        cases reads
        exact known
      · simp only [silence,known,if_false] at reads
        cases reads
  | _ => cases reads

theorem start_silent (t : Tid) (operation : Operation κ) : Silent (t,.start operation) := fun _ _ _ reads => by cases reads

variable [DecidableEq Tid] {call_info : CallInfo κ} {t : Tid} {p q : PendingResponces Tid} {frame : Activation κ}
variable {move : Move} {out : Advance Tid κ}

theorem follow_silent (w : Twins Tid κ) (action : Tid × Action κ) : ∀ other ∈ w.follow action, Silent other := by
  obtain ⟨t,action⟩ := action
  intro other member
  cases action with
  | start operation =>
    rw [List.mem_singleton.mp member]
    exact start_silent t operation
  | move move =>
    rw [Twins.follow] at member
    split at member
    · cases member
    · rcases List.mem_cons.mp member with rfl | again
      · exact silence_silent t move
      · split at again
        · rw [List.mem_singleton.mp again]
          exact start_silent t _
        · cases again

theorem step_runs {w w' : Twins Tid κ} {action : Tid × Action κ} (stepped : step call_info w action = some w') :
    Endpoints.step call_info w.noisy action = some w'.noisy ∧
      w'.quiet = run (Endpoints.step call_info) w.quiet (w.follow action) := by
  obtain ⟨t,action⟩ := action
  cases action with
  | start operation =>
    rw [step] at stepped
    split at stepped
    · cases stepped
    · obtain ⟨noisy,moved,rfl⟩ := Option.map_eq_some_iff.mp stepped
      exact ⟨moved,rfl⟩
  | move move =>
    obtain ⟨noisy,moved,rfl⟩ := Option.map_eq_some_iff.mp stepped
    exact ⟨moved,rfl⟩

/-- The endpoint makes a run, without the operations that could not begin. -/
theorem noisy_run (call_info : CallInfo κ) (w : Twins Tid κ) (actions : List (Tid × Action κ)) :
    ∃ others, others.Sublist actions ∧
      (run (step call_info) w actions).noisy = run (Endpoints.step call_info) w.noisy others := by
  induction actions generalizing w with
  | nil => exact ⟨[],List.Sublist.refl [],rfl⟩
  | cons action rest ih =>
    obtain ⟨others,fewer,noisy⟩ := ih ((step call_info w action).getD w)
    cases stepped : step call_info w action with
    | none =>
      rw [stepped,Option.getD_none] at noisy
      exact ⟨others,fewer.cons action,by rw [run,stepped,Option.getD_none,noisy]⟩
    | some w' =>
      have moved := (step_runs stepped).1
      rw [stepped,Option.getD_some] at noisy
      refine ⟨action :: others,fewer.cons_cons action,?_⟩
      rw [run,stepped,Option.getD_some,noisy,run,moved,Option.getD_some]

/-- The twin makes a run, and receives no unknown packet. -/
theorem quiet_run (call_info : CallInfo κ) (w : Twins Tid κ) (actions : List (Tid × Action κ)) :
    ∃ others, (∀ other ∈ others, Silent other) ∧
      (run (step call_info) w actions).quiet = run (Endpoints.step call_info) w.quiet others :=
  run_seen Twins.quiet (fun w action _ stepped => ⟨w.follow action,follow_silent w action,(step_runs stepped).2⟩) w actions

/-! ### Steps -/

/-- Only `ProcessTransport` has the invalid id. -/
def Polling (s : Endpoint Tid κ) : Prop :=
  ∀ t, ∀ frame ∈ s.threads t, frame.point ≠ .newCallId → frame.id = c_invalid_id → frame.operation = .processTransport

structure Related (w : Twins Tid κ) : Prop where
  owned : Owned w.noisy
  kept : Kept w.noisy
  polling : Polling w.noisy
  twin_owned : Owned w.quiet
  pending : SamePending w.noisy.pending w.quiet.pending
  threads : ∀ t, StackTwin (w.noisy.threads t) (w.quiet.threads t)
  deeds : said observe w.noisy.events = said observe w.quiet.events

/-- An activation keeps its operation, and its id when it has a new one. -/
theorem moves_named (moved : Moves call_info t p frame move out) : ∀ next ∈ out.frames,
    next.operation = frame.operation ∧ (frame.point ≠ .newCallId ∧ next.id = frame.id ∨ next.id ≠ c_invalid_id) := by
  intro next member
  rcases moves_stays moved with ⟨_,_,id,p',drawn,frames⟩ | ⟨left,gone | ⟨point,_,frames⟩⟩
  · rw [frames] at member
    rw [List.mem_singleton.mp member]
    exact ⟨rfl,.inr (newCallId_result drawn).1⟩
  · rw [gone] at member
    cases member
  · rw [frames] at member
    rw [List.mem_singleton.mp member]
    exact ⟨rfl,.inl ⟨left,rfl⟩⟩

theorem step_polling (call_info : CallInfo κ) : Preserves (Endpoints.step call_info) fun s : Endpoint Tid κ => Polling s := by
  intro s action s' polling stepped
  let named (_ : Tid) (stack : List (Activation κ)) : Prop := ∀ frame ∈ stack,
    frame.point ≠ .newCallId → frame.id = c_invalid_id → frame.operation = .processTransport
  cases step_steps stepped with
  | @starts t operation free =>
    refine (Function.forall_update_iff s.threads named).mpr ⟨?_,fun u _ => polling u⟩
    intro frame member
    rcases List.mem_cons.mp member with rfl | old
    · cases operation <;> intro left _ <;> first | rfl | exact absurd rfl left
    · exact polling t frame old
  | @moves t move frame below out running moved =>
    have stack := polling t
    rw [running] at stack
    refine (Function.forall_update_iff s.threads named).mpr ⟨?_,fun u _ => polling u⟩
    intro other member
    rcases List.mem_append.mp member with new | old
    · obtain ⟨operation,⟨left,same⟩ | issued⟩ := moves_named moved other new
      · rw [operation,same]
        exact fun _ polls => stack frame List.mem_cons_self left polls
      · exact fun _ polls => absurd polls issued
    · exact stack other (List.mem_cons_of_mem _ old)

section step
variable {w : Twins Tid κ} {noisy : Endpoint Tid κ} {below : List (Activation κ)} {point : Point}

theorem Related.next (related : Related w) {action : Tid × Action κ}
    (stepped : Endpoints.step call_info w.noisy action = some noisy) {others : List (Tid × Action κ)} {quiet : Endpoint Tid κ}
    (ran : run (Endpoints.step call_info) w.quiet others = quiet) (pending : SamePending noisy.pending quiet.pending)
    (threads : ∀ t, StackTwin (noisy.threads t) (quiet.threads t))
    (deeds : said observe noisy.events = said observe quiet.events) : Related { noisy, quiet } := by
  obtain ⟨owned,kept⟩ := step_kept call_info w.noisy action noisy ⟨related.owned,related.kept⟩ stepped
  have twin_owned := (step_owned call_info).run related.twin_owned others
  rw [ran] at twin_owned
  exact ⟨owned,kept,step_polling call_info w.noisy action noisy related.polling stepped,twin_owned,pending,threads,deeds⟩

omit [DecidableEq Tid] in
theorem StackTwin.update {s s' : Tid → List (Activation κ)} [DecidableEq Tid] (twins : ∀ t, StackTwin (s t) (s' t)) {t : Tid}
    {stack other : List (Activation κ)} (twin : StackTwin stack other) (u : Tid) :
    StackTwin (Function.update s t stack u) (Function.update s' t other u) := by
  by_cases here : u = t
  · subst here
    rw [Function.update_self,Function.update_self]
    exact twin
  · rw [Function.update_of_ne here,Function.update_of_ne here]
    exact twins u

/-- A thread that can begin an operation is where its twin is. -/
theorem ready_same (related : Related w) {t : Tid} (abreast : w.lags t = false)
    (free : ready (w.noisy.threads t) = true) : w.quiet.threads t = w.noisy.threads t := by
  have twin := related.threads t
  unfold Twins.lags topmost at abreast
  revert free twin abreast
  generalize w.noisy.threads t = stack
  generalize w.quiet.threads t = other
  intro abreast free twin
  cases twin with
  | nil => rfl
  | @top frame point below twin =>
    have nests : frame.point.nests = true := free
    generalize at_point : frame.point = own at twin nests
    cases twin with
    | same => rw [← at_point]; rfl
    | drops looking => simp [at_point,handles,Activation.at,looking] at abreast
    | _ => cases nests

theorem start_related (related : Related w) {t : Tid} {operation : Operation κ} (abreast : w.lags t = false)
    (stepped : Endpoints.step call_info w.noisy (t,.start operation) = some noisy) :
    Related { noisy, quiet := run (Endpoints.step call_info) w.quiet (w.follow (t,.start operation)) } := by
  cases step_steps stepped with
  | starts free =>
    have stack := ready_same related abreast free
    have twin_free : ready (w.quiet.threads t) = true := by rwa [stack]
    have entered : StackTwin (enter operation :: w.noisy.threads t) (enter operation :: w.quiet.threads t) := by
      rw [stack]
      exact .keep (enter operation) (unentered_idle (early_not_holds (enter_early operation))) _
    have ran : run (Endpoints.step call_info) w.quiet (w.follow (t,.start operation)) =
        { w.quiet with threads := Function.update w.quiet.threads t (enter operation :: w.quiet.threads t) } := by
      simp only [Twins.follow,run,Endpoints.step,if_pos twin_free,Option.getD_some]
    rw [ran]
    exact related.next stepped ran related.pending (StackTwin.update related.threads entered) related.deeds

theorem follow_move {t : Tid} (running : w.noisy.threads t = frame :: below)
    (twin_running : w.quiet.threads t = frame.at point :: below) (move : Move) :
    w.follow (t,.move move) =
      if (handles frame.point && looks point) || takesUnknown w.noisy.pending t frame then []
      else (t,.move (silence move)) :: if pollsOn w.noisy.pending frame then [(t,.start .processTransport)] else [] := by
  simp [Twins.follow,Twins.lags,topmost,running,twin_running,Activation.at]

/-- The endpoint after a step of the topmost activation of a thread. -/
def advanced (s : Endpoint Tid κ) (t : Tid) (below : List (Activation κ)) (out : Advance Tid κ) : Endpoint Tid κ where
  pending := out.pending
  threads := Function.update s.threads t (out.frames ++ below)
  events := s.events ++ out.events.map (t,·)

theorem step_advanced {s : Endpoint Tid κ} {t : Tid} (running : s.threads t = frame :: below)
    (moved : advance call_info t s.pending frame move = some out) :
    Endpoints.step call_info s (t,.move move) = some (advanced s t below out) := by
  simp [Endpoints.step,running,moved,advanced]

/-- While a thread is about an unknown packet its twin does nothing. -/
theorem lag_related (related : Related w) {t : Tid} (running : w.noisy.threads t = frame :: below)
    (twin_running : w.quiet.threads t = frame.at point :: below)
    (moved : advance call_info t w.noisy.pending frame move = some out)
    (lags : Lags w.quiet.pending (frame.at point) out) :
    Related { noisy := advanced w.noisy t below out, quiet := w.quiet } := by
  obtain ⟨next,frames,other,same,twin⟩ := lags.frames
  refine related.next (step_advanced running moved) (show run (Endpoints.step call_info) w.quiet [] = w.quiet from rfl)
    lags.pending (fun u => ?_) ?_
  · have kept : w.quiet.threads = Function.update w.quiet.threads t (frame.at point :: below) := by
      rw [← twin_running,Function.update_eq_self]
    rw [advanced,kept,frames,same]
    exact StackTwin.update related.threads (.top twin) u
  · rw [advanced,said_append,lags.silent,related.deeds]
    exact List.append_nil _

/-- The twin makes the same step. -/
theorem same_related (related : Related w) {t : Tid} (running : w.noisy.threads t = frame :: below)
    (twin_running : w.quiet.threads t = frame.at point :: below) {other : Advance Tid κ}
    (moved : advance call_info t w.noisy.pending frame move = some out)
    (twin_moved : advance call_info t w.quiet.pending (frame.at point) (silence move) = some other)
    (same : SameOut out other) :
    Related {
      noisy := advanced w.noisy t below out
      quiet := run (Endpoints.step call_info) w.quiet [(t,.move (silence move))] } := by
  have nested := related.kept.nested t
  rw [running] at nested
  have ran : run (Endpoints.step call_info) w.quiet [(t,.move (silence move))] = advanced w.quiet t below other := by
    rw [run,step_advanced twin_running twin_moved]
    rfl
  rw [ran]
  refine related.next (step_advanced running moved) ran same.pending ?_ ?_
  · exact fun u => StackTwin.update related.threads (same.frames.append nested) u
  · rw [advanced,advanced,said_append,said_append,same.events,related.deeds]

omit [DecidableEq Tid] in
theorem nested_ready (nested : ∀ frame ∈ below, frame.point.nests = true) : ready below = true := by
  cases below with
  | nil => rfl
  | cons frame rest => exact nested frame List.mem_cons_self

/-- An operation returns, and another one begins. -/
theorem run_again {s : Endpoint Tid κ} {t : Tid} {events : List (Event κ)} (running : s.threads t = frame :: below)
    (moved : advance call_info t s.pending frame move = some ⟨q,[],events⟩) (free : ready below = true)
    (operation : Operation κ) :
    run (Endpoints.step call_info) s [(t,.move move),(t,.start operation)] =
      { pending := q
        threads := Function.update s.threads t (enter operation :: below)
        events := s.events ++ events.map (t,·) } := by
  have left : ready ((advanced s t below (⟨q,[],events⟩ : Advance Tid κ)).threads t) = true := by
    simpa [advanced] using free
  rw [run,step_advanced running moved,Option.getD_some,run,Endpoints.step,if_pos left]
  simp [run,advanced]

omit [DecidableEq Tid] in
theorem pollsOn_point (polls : pollsOn p frame = true) : ∃ buffer, frame.point = .writeBuffer true buffer := by
  unfold pollsOn at polls
  split at polls
  · exact ⟨_,‹_›⟩
  · cases polls

/-- The twin returns from `ProcessTransport` and calls it again. -/
theorem polls_related (related : Related w) {t : Tid} (running : w.noisy.threads t = frame :: below)
    (twin_running : w.quiet.threads t = frame.at point :: below) (twin : PointTwin frame.point point)
    (polls : pollsOn w.noisy.pending frame = true) (clear : move = .proceed → ClearAt w.noisy.pending frame)
    (moved : advance call_info t w.noisy.pending frame move = some out) :
    Related {
      noisy := advanced w.noisy t below out
      quiet := run (Endpoints.step call_info) w.quiet [(t,.move (silence move)),(t,.start .processTransport)] } := by
  have nested := related.kept.nested t
  rw [running] at nested
  obtain ⟨buffer,at_point⟩ := pollsOn_point polls
  obtain ⟨invalid,_⟩ := pollsOn_goes_on at_point polls
  have operation : frame.operation = .processTransport := by
    refine related.polling t frame (by rw [running]; exact List.mem_cons_self) ?_ invalid
    rw [at_point]
    exact nofun
  obtain rfl := advance_proceeds at_point Point.noConfusion Point.noConfusion moved
  obtain ⟨goes_on,returns⟩ := enter_polls related.pending at_point polls
  have entered := (clear rfl).2 true buffer at_point
  have pending := writeBuffer_same related.pending frame.operation.processIncomingCalls entered
  have enters : advance call_info t w.noisy.pending frame .proceed =
      some (frame.writeBuffer w.noisy.pending true buffer) := by simp only [advance,at_point]
  have same := Option.some.inj (enters.symm.trans moved)
  rw [goes_on] at same
  subst same
  rw [at_point] at twin
  cases twin with
  | same idle => cases idle
  | read =>
    have twin_moved : advance call_info t w.quiet.pending (frame.at (.writeBuffer true (quieted buffer))) .proceed =
        some ⟨_,_,_⟩ := congrArg some returns
    have again : enter .processTransport = frame.at .readBuffer := by
      rw [Activation.at,operation,invalid]
      rfl
    have ran := run_again twin_running twin_moved (nested_ready nested) .processTransport
    rw [again] at ran
    refine ran ▸ related.next (step_advanced running moved) ran pending (fun u => ?_) ?_
    · exact StackTwin.update related.threads (.keep (frame.at .readBuffer) rfl below) u
    · have silent : (Event.entered (quieted buffer) :: frame.leave .drained {}).filterMap observe = [] := by
        rw [Activation.leave,operation]
        rfl
      rw [advanced,said_append,said_append,related.deeds,silent]
      rfl

theorem move_related (related : Related w) {t : Tid} (clear : Clear w.noisy (t,.move move))
    (stepped : Endpoints.step call_info w.noisy (t,.move move) = some noisy) :
    Related { noisy, quiet := run (Endpoints.step call_info) w.quiet (w.follow (t,.move move)) } := by
  cases running : w.noisy.threads t with
  | nil => simp [Endpoints.step,running] at stepped
  | cons frame below =>
    cases moved : advance call_info t w.noisy.pending frame move with
    | none => simp [Endpoints.step,running,moved] at stepped
    | some out =>
      rw [step_advanced running moved] at stepped
      cases stepped
      have twins := related.threads t
      rw [running] at twins
      generalize twin_running : w.quiet.threads t = other at twins
      cases twins with
      | @top _ point _ twin =>
        have clear_at : move = .proceed → ClearAt w.noisy.pending frame := fun proceeds =>
          (proceeds ▸ clear : Clear w.noisy (t,.move .proceed)) frame below running
        rw [follow_move running twin_running]
        cases lags : handles frame.point && looks point with
        | true => exact lag_related related running twin_running moved (lag_advances related.pending twin lags moved)
        | false =>
          cases takes : takesUnknown w.noisy.pending t frame with
          | true => exact lag_related related running twin_running moved (take_advances related.pending twin takes moved)
          | false =>
            cases polls : pollsOn w.noisy.pending frame with
            | true => exact polls_related related running twin_running twin polls clear_at moved
            | false =>
              have elsewhere : point = .waiting → w.noisy.pending.m_thread_waiting_transport.m_locked_id ≠ some t := by
                rintro rfl
                rw [← related.pending.transport]
                exact owned_elsewhere related.twin_owned twin_running rfl rfl
              obtain ⟨other,twin_moved,same⟩ :=
                advance_same related.pending twin lags takes polls elsewhere clear_at moved
              exact same_related related running twin_running moved twin_moved same

theorem step_related {w' : Twins Tid κ} {action : Tid × Action κ} (related : Related w) (clear : Clear w.noisy action)
    (stepped : step call_info w action = some w') : Related w' := by
  obtain ⟨t,action⟩ := action
  cases action with
  | start operation =>
    rw [step] at stepped
    split at stepped
    · cases stepped
    · rename_i abreast
      obtain ⟨noisy,moved,rfl⟩ := Option.map_eq_some_iff.mp stepped
      exact start_related related (by simpa using abreast) moved
  | move move =>
    obtain ⟨noisy,moved,rfl⟩ := Option.map_eq_some_iff.mp stepped
    exact move_related related clear moved

end step

theorem empty_related : Related ({} : Twins Tid κ) where
  owned := empty_owned
  kept := empty_kept
  polling _ _ member := by cases member
  twin_owned := empty_owned
  pending := ⟨rfl,rfl,fun _ => rfl,rfl⟩
  threads _ := .nil
  deeds := rfl

theorem Related.inert {w : Twins Tid κ} (related : Related w) : Inert w where
  deeds := related.deeds
  replies id buffer known := by
    rw [related.pending.replies]
    simp [known]

/-- In every run whose sections do not come upon a stored unknown packet, the
    unknown packets change nothing. -/
theorem unknown_inert (call_info : CallInfo κ) {actions : List (Tid × Action κ)}
    (clear : Along (step call_info) (fun w => Clear w.noisy) {} actions) : Inert (run (step call_info) {} actions) :=
  (clear.run (fun _ _ _ related clear stepped => step_related related clear stepped) empty_related).inert

/-! ### A response is dropped -/

/-- A packet of the type behind the last one, and a response without a result. -/
def unknownOf (id : CallId) : Data := ⟨encodeHeader 0 pt_count_not_a_type id,by simp⟩
def responseOf (id : CallId) : Data := ⟨encodeHeader 0 pt_return id,by simp⟩
/-- The thread `false` waits for the call `1` while `true` reads an unknown packet
    with that id, and then the response. -/
def crowded : List (Bool × Action Unit) :=
  [(true,.start .processTransport),(true,.move .proceed),
    (false,.start (.waitInvoke () false)),(false,.move .proceed),(false,.move (.write none true)),(false,.move .proceed),
    (true,.move (.read true (some (unknownOf 1)) 0)),(true,.move .proceed),(true,.move .proceed),
    (true,.move (.read true (some (responseOf 1)) 0)),(true,.move .proceed),
    (false,.move .proceed),(false,.move .proceed),(false,.move .proceed),(false,.move .proceed),
    (false,.move (.read true none 0)),(false,.move .proceed),(false,.move .proceed)]
/-- The calls that returned what they waited for. -/
def answeredIds (deeds : List (Tid × Deed κ)) : List CallId := deeds.filterMap fun deed =>
  match deed.2 with
  | .answered _ id _ => some id
  | _ => none

/-- The twin gets the response, and the call `1` itself does not. -/
theorem crowded_answers :
    answeredIds (said observe (run (step header) ({} : Twins Bool Unit) crowded).noisy.events) = [] ∧
      answeredIds (said observe (run (step header) ({} : Twins Bool Unit) crowded).quiet.events) = [1] := by
  decide +kernel

theorem unknown_not_inert : ¬ ∀ actions : List (Bool × Action Unit), Inert (run (step header) {} actions) := by
  intro inert
  obtain ⟨dropped,answered⟩ := crowded_answers
  rw [(inert crowded).deeds,answered] at dropped
  cases dropped

/-- The section draws no id, and enters nothing under the id of an unknown packet. -/
def plain (p : PendingResponces Tid) (frame : Activation κ) : Bool :=
  match frame.point with
  | .newCallId => false
  | .writeBuffer _ buffer => !storesUnknown p buffer.header.id
  | _ => true

omit [DecidableEq Tid] in
theorem plain_clear {s : Endpoint Tid κ} {t : Tid} (top : topmost s t (plain s.pending) = true) :
    Clear s (t,.move .proceed) := by
  intro frame below running
  have is_plain : plain s.pending frame = true := by simpa [topmost,running] using top
  unfold plain at is_plain
  refine ⟨fun at_point => ?_,fun transport_ok buffer at_point _ _ => ?_⟩
  · rw [at_point] at is_plain
    cases is_plain
  · rw [at_point] at is_plain
    simpa using is_plain

/-- An unknown packet, and then a response with another id. -/
theorem unknown_inert_other :
    Inert (run (step header) ({} : Twins Bool Unit) [(true,.start .processTransport),(true,.move .proceed),
      (true,.move (.read true (some (unknownOf 5)) 0)),(true,.move .proceed),(true,.move .proceed),
      (true,.move (.read true (some (responseOf 1)) 0)),(true,.move .proceed)]) := by
  refine unknown_inert header ⟨fun _ => trivial,fun _ => plain_clear ?_,fun _ => trivial,fun _ => plain_clear ?_,
    fun _ => plain_clear ?_,fun _ => trivial,fun _ => plain_clear ?_,trivial⟩
  · decide +kernel
  · decide +kernel
  · decide +kernel
  · decide +kernel

end IpcPortable.DroppedReplies
