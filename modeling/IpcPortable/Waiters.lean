import IpcPortable.CallIds
import IpcPortable.EndpointMoves

/-!
The ids of the calls that wait. `NewCallId` only looks at the responses that
are stored; the calls whose response did not arrive yet are nowhere recorded,
and the counter may come round to one of them. The calls that wait have
different ids as long as it does not, which the ids that were drawn since tell
(`outstanding_distinct`).
-/
namespace IpcPortable.Waiters
open IpcPortable.Runs IpcPortable.DataStream IpcPortable.Packets IpcPortable.Pending IpcPortable.CallIds
open IpcPortable.Endpoints IpcPortable.EndpointMoves
variable {Tid κ : Type}

/-- The operation waits for the response to a call of its own. -/
def hasWaiter : Operation κ → Bool
  | .waitInvoke _ _ => true
  | .enumerateRemote => true
  | _ => false
/-- The id of a call that was issued and waits for its response. -/
def waiterId (frame : Activation κ) : Option CallId :=
  match frame.point with
  | .newCallId => none
  | _ => if hasWaiter frame.operation then some frame.id else none
def waiterIds (stack : List (Activation κ)) : List CallId := stack.filterMap waiterId

/-- The ids of the calls that wait are distinct, over all threads, and valid. -/
structure Distinct (s : Endpoint Tid κ) : Prop where
  nodup : ∀ t, (waiterIds (s.threads t)).Nodup
  apart : ∀ t u, t ≠ u → (waiterIds (s.threads t)).Disjoint (waiterIds (s.threads u))
  nonzero : ∀ t, ∀ id ∈ waiterIds (s.threads t), id ≠ c_invalid_id
/-- The ids that a step draws, the last one first. -/
def drawnBy (s : Endpoint Tid κ) : Tid × Action κ → List CallId
  | (t,.move .proceed) =>
    match s.threads t with
    | { point := .newCallId, .. } :: _ => drawnIds (2^32) s.pending
    | _ => []
  | _ => []
/-- The endpoint with the ids that `NewCallId` drew since the beginning, the last one first. -/
structure History (Tid κ : Type) where
  endpoint : Endpoint Tid κ := {}
  drawn : List CallId := []
/-- A step of the endpoint, with the ids that it draws. -/
def record [DecidableEq Tid] (call_info : CallInfo κ) (h : History Tid κ) (action : Tid × Action κ) : Option (History Tid κ) :=
  (step call_info h.endpoint action).map fun endpoint => { endpoint, drawn := drawnBy h.endpoint action ++ h.drawn }
/-- Where the step is a `NewCallId` for a call that will wait, the counter has
    not come round to another call that waits: the response to it is stored, or
    not all the ids that can be given out were drawn since its own was. -/
def Early (h : History Tid κ) : Tid × Action κ → Prop
  | (t,.move .proceed) => ∀ frame below, h.endpoint.threads t = frame :: below → frame.point = .newCallId →
      hasWaiter frame.operation = true → ∀ u, ∀ id ∈ waiterIds (h.endpoint.threads u),
        h.endpoint.pending.m_id_data_return id ≠ none ∨ Undrawn h.endpoint.pending h.drawn id
  | _ => True

/-! ### Steps -/

theorem waiterIds_append (above below : List (Activation κ)) : waiterIds (above ++ below) = waiterIds above ++ waiterIds below :=
  List.filterMap_append

theorem waiterIds_cons (frame : Activation κ) (below : List (Activation κ)) :
    waiterIds (frame :: below) = waiterIds [frame] ++ waiterIds below :=
  waiterIds_append [frame] below

theorem waiterId_at (frame : Activation κ) {point : Point} (left : frame.point ≠ .newCallId) (stays : point ≠ .newCallId) :
    waiterId (frame.at point) = waiterId frame := by
  obtain ⟨operation,id,was⟩ := frame
  cases was <;> cases point <;> first | rfl | exact absurd rfl left | exact absurd rfl stays

theorem waiterId_enter (operation : Operation κ) : waiterId (enter operation) = none := by
  cases operation <;> rfl

/-- Where no thread gets another waiting call, the ids stay distinct. -/
theorem Distinct.mono {s s' : Endpoint Tid κ} (distinct : Distinct s)
    (fewer : ∀ u, (waiterIds (s'.threads u)).Sublist (waiterIds (s.threads u))) : Distinct s' where
  nodup u := (distinct.nodup u).sublist (fewer u)
  apart u v other := fun _ here there => distinct.apart u v other ((fewer u).subset here) ((fewer v).subset there)
  nonzero u id member := distinct.nonzero u id ((fewer u).subset member)

/-- A thread gets a waiting call with a new id. -/
theorem Distinct.issue {s s' : Endpoint Tid κ} (distinct : Distinct s) {t : Tid} {id : CallId} (nonzero : id ≠ c_invalid_id)
    (new : ∀ u, id ∉ waiterIds (s.threads u)) (issued : (waiterIds (s'.threads t)).Sublist (id :: waiterIds (s.threads t)))
    (others : ∀ u, u ≠ t → s'.threads u = s.threads u) : Distinct s' := by
  have within (u : Tid) (other : CallId) (member : other ∈ waiterIds (s'.threads u)) :
      other = id ∧ u = t ∨ other ∈ waiterIds (s.threads u) := by
    by_cases here : u = t
    · subst here
      rcases List.mem_cons.mp (issued.subset member) with same | old
      · exact .inl ⟨same,rfl⟩
      · exact .inr old
    · exact .inr (others u here ▸ member)
  refine ⟨?_,?_,?_⟩
  · intro u
    by_cases here : u = t
    · subst here
      exact (List.nodup_cons.mpr ⟨new u,distinct.nodup u⟩).sublist issued
    · rw [others u here]
      exact distinct.nodup u
  · intro u v other common here there
    rcases within u common here with ⟨rfl,rfl⟩ | old
    · rcases within v common there with ⟨_,rfl⟩ | old
      · exact other rfl
      · exact new v old
    · rcases within v common there with ⟨rfl,rfl⟩ | also
      · exact new u old
      · exact distinct.apart u v other old also
  · intro u other member
    rcases within u other member with ⟨rfl,_⟩ | old
    · exact nonzero
    · exact distinct.nonzero u other old

theorem empty_distinct : Distinct ({} : Endpoint Tid κ) where
  nodup _ := List.nodup_nil
  apart _ _ _ := List.disjoint_nil_left _
  nonzero _ _ member := by cases member

variable [DecidableEq Tid] {call_info : CallInfo κ} {t : Tid} {p : PendingResponces Tid} {frame : Activation κ}
variable {move : Move} {out : Advance Tid κ}

/-- A step of an activation issues its id, or keeps the one that it has. -/
theorem moves_waiters (moved : Moves call_info t p frame move out) :
    (move = .proceed ∧ frame.point = .newCallId ∧ ∃ id p', newCallId p = some (id,p') ∧
      out.frames = [{ frame with id, point := .writing }]) ∨ (waiterIds out.frames).Sublist (waiterIds [frame]) := by
  rcases moves_stays moved with issues | ⟨left,gone | ⟨point,stays,frames⟩⟩
  · exact .inl issues
  · rw [gone]
    exact .inr (List.nil_sublist _)
  · rw [frames]
    simp only [waiterIds,List.filterMap_cons,waiterId_at frame left stays]
    exact .inr (List.Sublist.refl _)

/-- The counter walks through the ids, and the calls that wait drew theirs. -/
structure Recorded (h : History Tid κ) : Prop where
  walked : Walked h.endpoint.pending h.drawn
  drew : ∀ t, ∀ id ∈ waiterIds (h.endpoint.threads t), id ∈ h.drawn

omit [DecidableEq Tid] in
theorem empty_recorded : Recorded ({} : History Tid κ) where
  walked _ member := by cases member
  drew _ _ member := by cases member

omit [DecidableEq Tid] in
theorem drawnBy_other {s : Endpoint Tid κ} {below : List (Activation κ)} (running : s.threads t = frame :: below)
    (left : frame.point ≠ .newCallId) (move : Move) : drawnBy s (t,.move move) = [] := by
  obtain ⟨operation,id,point⟩ := frame
  cases move with
  | proceed =>
    simp only [drawnBy,running]
    cases point with
    | newCallId => exact absurd rfl left
    | _ => rfl
  | _ => rfl

omit [DecidableEq Tid] in
theorem drawnBy_issue {s : Endpoint Tid κ} {below : List (Activation κ)} (running : s.threads t = frame :: below)
    (at_point : frame.point = .newCallId) : drawnBy s (t,.move .proceed) = drawnIds (2^32) s.pending := by
  obtain ⟨operation,id,point⟩ := frame
  obtain rfl : point = .newCallId := at_point
  simp only [drawnBy,running]

/-- What a step does to the ids of the calls that wait. -/
inductive Ids (h h' : History Tid κ) : Tid × Action κ → Prop
  /-- No call that waits is added. -/
  | fewer {action : Tid × Action κ} (fewer : ∀ u, (waiterIds (h'.endpoint.threads u)).Sublist (waiterIds (h.endpoint.threads u)))
    (met : Early h action) : Ids h h' action
  /-- A call that waits gets its id. -/
  | issues {t : Tid} {frame : Activation κ} {below : List (Activation κ)} {id : CallId} {p : PendingResponces Tid}
    (running : h.endpoint.threads t = frame :: below) (at_point : frame.point = .newCallId)
    (waits : hasWaiter frame.operation = true) (drawn : newCallId h.endpoint.pending = some (id,p))
    (issued : waiterIds (h'.endpoint.threads t) = id :: waiterIds (h.endpoint.threads t))
    (others : ∀ u, u ≠ t → h'.endpoint.threads u = h.endpoint.threads u) : Ids h h' (t,.move .proceed)

omit [DecidableEq Tid] in
/-- A step that draws no id. -/
theorem Recorded.fewer {h : History Tid κ} {s' : Endpoint Tid κ} {ids : List CallId} (recorded : Recorded h) (none : ids = [])
    (counter : s'.pending.m_incremental_id = h.endpoint.pending.m_incremental_id)
    (fewer : ∀ u, (waiterIds (s'.threads u)).Sublist (waiterIds (h.endpoint.threads u))) :
    Recorded { endpoint := s', drawn := ids ++ h.drawn } := by
  subst none
  exact ⟨recorded.walked.congr counter,fun u id member => recorded.drew u id ((fewer u).subset member)⟩

omit [DecidableEq Tid] in
/-- A step in which one activation gets its id. -/
theorem Recorded.issue {h : History Tid κ} {s' : Endpoint Tid κ} {below : List (Activation κ)} {id : CallId}
    (recorded : Recorded h) (running : h.endpoint.threads t = frame :: below) (at_point : frame.point = .newCallId)
    (drawn : newCallId h.endpoint.pending = some (id,s'.pending))
    (here : waiterIds (s'.threads t) =
      (if hasWaiter frame.operation then [id] else []) ++ waiterIds (h.endpoint.threads t))
    (others : ∀ u, u ≠ t → s'.threads u = h.endpoint.threads u) :
    Recorded { endpoint := s', drawn := drawnBy h.endpoint (t,.move .proceed) ++ h.drawn } := by
  obtain ⟨walked,member⟩ := newCallIdLoop_walked drawn recorded.walked
  rw [drawnBy_issue running at_point]
  refine ⟨walked,fun u other waiting => ?_⟩
  by_cases same : u = t
  · subst same
    rw [here] at waiting
    rcases List.mem_append.mp waiting with new | old
    · split at new
      · rw [List.mem_singleton.mp new]
        exact List.mem_append_left _ member
      · cases new
    · exact List.mem_append_right _ (recorded.drew u other old)
  · rw [others u same] at waiting
    exact List.mem_append_right _ (recorded.drew u other waiting)

omit [DecidableEq Tid] in
/-- Who is not at `NewCallId`, or does not wait, does not come round to another call. -/
theorem early_other {h : History Tid κ} {below : List (Activation κ)} (running : h.endpoint.threads t = frame :: below)
    (other : frame.point ≠ .newCallId ∨ hasWaiter frame.operation = false) (move : Move) : Early h (t,.move move) := by
  cases move with
  | proceed =>
    intro first rest same at_point waits
    rw [running] at same
    cases same
    rcases other with left | leaves
    · exact absurd at_point left
    · rw [leaves] at waits
      cases waits
  | write created alive => trivial
  | read transport_ok packet type_raw => trivial

theorem record_recorded {h h' : History Tid κ} {action : Tid × Action κ} (recorded : Recorded h)
    (stepped : record call_info h action = some h') : Recorded h' ∧ Ids h h' action := by
  obtain ⟨s',taken,rfl⟩ := Option.map_eq_some_iff.mp stepped
  cases step_steps taken with
  | @starts t operation free =>
    have same (u : Tid) : waiterIds (Function.update h.endpoint.threads t (enter operation :: h.endpoint.threads t) u) =
        waiterIds (h.endpoint.threads u) := by
      by_cases here : u = t
      · subst here
        rw [Function.update_self,waiterIds,List.filterMap_cons_none (waiterId_enter operation)]
        rfl
      · rw [Function.update_of_ne here]
    have fewer (u : Tid) : (waiterIds (Function.update h.endpoint.threads t (enter operation :: h.endpoint.threads t) u)).Sublist
        (waiterIds (h.endpoint.threads u)) := same u ▸ List.Sublist.refl _
    exact ⟨recorded.fewer rfl rfl fewer,.fewer fewer trivial⟩
  | @moves t move frame below out running moved =>
    have elsewhere (u : Tid) (other : u ≠ t) :
        Function.update h.endpoint.threads t (out.frames ++ below) u = h.endpoint.threads u :=
      Function.update_of_ne other _ _
    by_cases at_point : frame.point = .newCallId
    · obtain ⟨rfl,id,p',drawn,rfl⟩ := moves_issues moved at_point
      have here : waiterIds (Function.update h.endpoint.threads t
          ([{ frame with id, point := .writing }] ++ below) t) =
            (if hasWaiter frame.operation then [id] else []) ++ waiterIds (h.endpoint.threads t) := by
        rw [Function.update_self,running]
        cases waits : hasWaiter frame.operation <;> simp [waiterIds,waiterId,waits,at_point]
      refine ⟨recorded.issue running at_point drawn here elsewhere,?_⟩
      cases waits : hasWaiter frame.operation with
      | true =>
        rw [waits] at here
        exact .issues running at_point waits drawn here elsewhere
      | false =>
        rw [waits] at here
        refine .fewer (fun u => ?_) (early_other running (.inr waits) _)
        by_cases same : u = t
        · subst same
          exact here ▸ List.Sublist.refl _
        · exact elsewhere u same ▸ List.Sublist.refl _
    · have fewer (u : Tid) : (waiterIds (Function.update h.endpoint.threads t (out.frames ++ below) u)).Sublist
          (waiterIds (h.endpoint.threads u)) := by
        rcases moves_waiters moved with ⟨_,at_point',_⟩ | fewer
        · exact absurd at_point' at_point
        · by_cases here : u = t
          · subst here
            rw [Function.update_self,running,waiterIds_append,waiterIds_cons frame]
            exact fewer.append (List.Sublist.refl _)
          · rw [elsewhere u here]
      exact ⟨recorded.fewer (drawnBy_other running at_point move) (moves_counter moved at_point) fewer,
        .fewer fewer (early_other running (.inl at_point) move)⟩

/-- A step keeps the ids distinct exactly when the counter did not come round. -/
theorem record_distinct {h h' : History Tid κ} {action : Tid × Action κ} (recorded : Recorded h)
    (distinct : Distinct h.endpoint) (stepped : record call_info h action = some h') :
    Distinct h'.endpoint ↔ Early h action := by
  cases (record_recorded recorded stepped).2 with
  | fewer fewer met => exact iff_of_true (distinct.mono fewer) met
  | @issues t frame below id p running at_point waits drawn issued others =>
    have avoids (u : Tid) (other : CallId) (member : other ∈ waiterIds (h.endpoint.threads u)) :=
      newCallId_avoids recorded.walked drawn (recorded.drew u other member)
    constructor
    · intro after first rest same _ _ u other member
      refine (avoids u other member).mp ?_
      rintro rfl
      by_cases here : u = t
      · subst here
        have once := after.nodup u
        rw [issued] at once
        exact (List.nodup_cons.mp once).1 member
      · refine after.apart u t here ?_ (issued ▸ List.mem_cons_self)
        rw [others u here]
        exact member
    · intro early
      have new (u : Tid) : id ∉ waiterIds (h.endpoint.threads u) := fun member =>
        (avoids u id member).mpr (early frame below running at_point waits u id member) rfl
      exact distinct.issue (newCallId_result drawn).1 new (issued ▸ List.Sublist.refl _) others

/-- The record leaves the runs of the endpoint as they are. -/
theorem run_record (call_info : CallInfo κ) (h : History Tid κ) (actions : List (Tid × Action κ)) :
    (run (record call_info) h actions).endpoint = run (step call_info) h.endpoint actions := by
  induction actions generalizing h with
  | nil => rfl
  | cons action rest ih =>
    rw [run,run,ih]
    unfold record
    cases step call_info h.endpoint action <;> rfl

/-- In every run the calls that wait have distinct ids all along if and only if
    `NewCallId` is never asked for the id of a call that will wait when the
    counter has come round to another one. -/
theorem outstanding_distinct (call_info : CallInfo κ) (actions : List (Tid × Action κ)) :
    (∀ before, before <+: actions → Distinct (run (step call_info) {} before)) ↔
      Along (record call_info) Early {} actions := by
  have keeps : Preserves (record call_info) (Recorded : History Tid κ → Prop) :=
    fun _ _ _ recorded stepped => (record_recorded recorded stepped).1
  have exactly := @along_iff (History Tid κ) _ (record call_info) Early Recorded
    (fun h => Distinct h.endpoint) keeps (fun _ _ _ => record_distinct) {} empty_recorded empty_distinct actions
  simpa only [run_record] using exactly

/-! ### The counter comes round -/

theorem zeros_small : (List.replicate 12 (0 : LittleEndian.Byte)).length < 2^32 := by decide

/-- Calls whose packet is a header of zeros. -/
def header : CallInfo Unit := fun _ _ _ _ => DataStream.ofWrite ⟨List.replicate 12 0,zeros_small⟩
/-- The thread `true` calls without waiting. -/
def callOnce : List (Bool × Action Unit) :=
  [(true,.start (.asyncInvoke ())),(true,.move .proceed),(true,.move (.write none true))]
/-- The thread `false` reads and waits for the id `1`, and the counter stands at `next`. -/
structure OneWaits (next : Nat) (s : Endpoint Bool Unit) : Prop where
  counter : s.pending.m_incremental_id = BitVec.ofNat 32 next
  nothing : ∀ id, s.pending.m_id_data_return id = none
  waiter : s.threads false = [{ operation := .waitInvoke () false, id := 1, point := .reading }]
  free : s.threads true = []

/-- The state after a thread drew an id and stands at a point. -/
def drew (s : Endpoint Bool Unit) (t : Bool) (frames : List (Activation Unit)) (events : List (Event Unit)) :
    Endpoint Bool Unit where
  pending := { s.pending with m_incremental_id := s.pending.nextId + 1 }
  threads := Function.update s.threads t frames
  events := s.events ++ events.map (t,·)

omit [DecidableEq Tid] in
theorem nextId_counter {p : PendingResponces Tid} {next : Nat} (counter : p.m_incremental_id = BitVec.ofNat 32 next)
    (nonzero : 0 < next) (small : next < 2^32) : p.nextId = BitVec.ofNat 32 next := by
  unfold PendingResponces.nextId
  rw [counter]
  refine if_neg fun zero => ?_
  have value := congrArg BitVec.toNat zero
  rw [BitVec.toNat_ofNat,Nat.mod_eq_of_lt small] at value
  exact absurd value (Nat.ne_of_gt nonzero)

/-- A free thread begins a call and draws the next id. -/
theorem call_draws {s : Endpoint Bool Unit} {t : Bool} (free : s.threads t = [])
    (nothing : s.pending.m_id_data_return s.pending.nextId = none) {operation : Operation Unit}
    (calls : operation ≠ .processTransport) (rest : List (Bool × Action Unit)) :
    run (step header) s ((t,.start operation) :: (t,.move .proceed) :: rest) = run (step header)
      (drew s t [{ operation, id := s.pending.nextId, point := .writing }] [.issued operation s.pending.nextId]) rest := by
  have drawn := newCallId_next nothing
  have idle : ready (s.threads t) = true := by rw [free]; rfl
  have entered : enter operation = { operation, point := .newCallId } := by
    cases operation with
    | processTransport => exact absurd rfl calls
    | _ => rfl
  have begun : step header s (t,.start operation) =
      some { s with threads := Function.update s.threads t [{ operation, point := .newCallId }] } := by
    rw [step,if_pos idle,free,entered]
  have issued : step header { s with threads := Function.update s.threads t [{ operation, point := .newCallId }] }
      (t,.move .proceed) = some (drew s t [{ operation, id := s.pending.nextId, point := .writing }]
        [.issued operation s.pending.nextId]) := by
    simp only [step,Function.update_self,advance,drawn,Option.map_some,Function.update_idem]
    rfl
  rw [run,begun,Option.getD_some,run,issued,Option.getD_some]

theorem callOnce_waits {s : Endpoint Bool Unit} {next : Nat} (waits : OneWaits next s) (nonzero : 0 < next)
    (small : next < 2^32) : OneWaits (next + 1) (run (step header) s callOnce) := by
  have counter := nextId_counter waits.counter nonzero small
  obtain ⟨events,returned⟩ : ∃ events, step header (drew s true
      [{ operation := .asyncInvoke (), id := s.pending.nextId, point := .writing }]
      [.issued (.asyncInvoke ()) s.pending.nextId]) (true,.move (.write none true)) = some {
        pending := { s.pending with m_incremental_id := s.pending.nextId + 1 }
        threads := Function.update s.threads true []
        events } := by
    simp only [step,drew,Function.update_self,advance,Option.map_some,Function.update_idem]
    exact ⟨_,rfl⟩
  rw [callOnce,call_draws waits.free (waits.nothing _) (fun same => by cases same),run,returned,Option.getD_some,run]
  refine ⟨?_,waits.nothing,?_,Function.update_self true [] s.threads⟩
  · dsimp only
    rw [counter]
    exact (BitVec.ofNat_add next 1).symm
  · exact (Function.update_of_ne Bool.false_ne_true [] s.threads).trans waits.waiter

theorem calls_wait (n : Nat) (small : 2 + n ≤ 2^32) {s : Endpoint Bool Unit} (waits : OneWaits 2 s) :
    OneWaits (2 + n) (run (step header) s (List.replicate n callOnce).flatten) := by
  induction n with
  | zero => exact waits
  | succ n ih =>
    have before := ih (by omega)
    rw [List.replicate_succ',List.flatten_append,List.flatten_singleton,run_append]
    exact callOnce_waits before (show 0 < 2 + n by omega) (show 2 + n < 2^32 by omega)

/-- When the counter came round, the next call gets the id `1` too. -/
theorem waits_shared {s : Endpoint Bool Unit} (waits : OneWaits (2 + (2^32 - 2)) s) :
    ¬ Distinct (run (step header) s [(true,.start (.waitInvoke () false)),(true,.move .proceed)]) := by
  have one : s.pending.nextId = 1 := by
    unfold PendingResponces.nextId
    rw [waits.counter]
    rfl
  rw [call_draws waits.free (waits.nothing _) (fun same => by cases same),one,run]
  intro distinct
  have waiter := (Function.update_of_ne Bool.false_ne_true
    [{ operation := .waitInvoke () false, id := 1, point := .writing }] s.threads).trans waits.waiter
  have caller := Function.update_self true [({ operation := .waitInvoke () false, id := 1, point := .writing } : Activation Unit)]
    s.threads
  have apart := distinct.apart false true Bool.false_ne_true
  simp only [drew,waiter,caller] at apart
  exact apart (List.mem_singleton.mpr rfl) (List.mem_singleton.mpr rfl)

/-- One thread waits with the id `1` while another one calls 2^32 - 2 times and
    then waits for a call of its own. -/
theorem outstanding_shared :
    ¬ ∀ actions : List (Bool × Action Unit), Distinct (run (step header) {} actions) := by
  intro distinct
  have waits : OneWaits 2 (run (step header) ({} : Endpoint Bool Unit)
      [(false,.start (.waitInvoke () false)),(false,.move .proceed),(false,.move (.write none true)),(false,.move .proceed)]) := by
    rw [call_draws rfl rfl (fun same => by cases same)]
    exact ⟨rfl,fun _ => rfl,rfl,rfl⟩
  have after := calls_wait (2^32 - 2) (by omega) waits
  rw [← run_append] at after
  have shared := distinct (([(false,.start (.waitInvoke () false)),(false,.move .proceed),(false,.move (.write none true)),
    (false,.move .proceed)] ++ (List.replicate (2^32 - 2) callOnce).flatten) ++
      [(true,.start (.waitInvoke () false)),(true,.move .proceed)])
  rw [run_append] at shared
  exact waits_shared after shared

end IpcPortable.Waiters
