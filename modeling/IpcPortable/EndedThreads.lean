import IpcPortable.CallOutcomes

/-!
What the end of a thread leaves behind. `OnFinished_ReceiverThread` removes the
receiver of its thread when nothing runs on it, and resolves the calls that
were posted to that receiver. Whatever of them is still in the queue stays
there: no thread finds the receiver any more, so the call is never taken.
-/
namespace IpcPortable.EndedThreads
open IpcPortable.Runs IpcPortable.TransthreadCaller IpcPortable.CallOutcomes
set_option linter.unusedSectionVars false
variable {Tid : Type} [DecidableEq Tid]

/-- The receiver that the call was posted to. -/
def home (s : Caller Tid) (w : WaiterPtr) : Option (ReceiverPtr Tid) := (s.waiters w).map CallWaiterPrivate.m_receiver_calls
/-- The frames that others can run above. -/
def rests : Frame Tid → Bool
  | .body _ | .processReceiver _ | .wait _ .enter => true
  | _ => false
/-- What a frame on the thread can be about: a receiver that is stored later, the
    receiver of the thread, a call that was posted to it. -/
def Fits (s : Caller Tid) (t : Tid) : Frame Tid → Prop
  | .addStore id r => r.thread = id ∧ r.serial < s.next_receiver ∧ ∀ other, s.threads other ≠ some r
  | .processReceiver r => r.thread = t
  | .body (some w) | .callDone (some w) => ∃ r, home s w = some r ∧ r.thread = t
  | _ => True

/-- Where the calls are, and what runs on the threads. -/
structure Placed (s : System Tid) : Prop where
  owner : ∀ id r, s.caller.threads id = some r → r.thread = id ∧ r.serial < s.caller.next_receiver
  posted : ∀ r w, w ∈ (s.caller.receivers r).posted → home s.caller w = some r
  calls : ∀ r w, w ∈ (s.caller.receivers r).m_call_waiters_receiver → home s.caller w = some r
  resting : ∀ t frame, frame ∈ (s.frames t).tail → rests frame
  alone : ∀ t below, s.frames t = .finish :: below → below = []
  fits : ∀ t frame, frame ∈ s.frames t → Fits s.caller t frame
  once : ∀ t u id id' r, .addStore id r ∈ s.frames t → .addStore id' r ∈ s.frames u → t = u

/-- The frame may find the receiver, or runs the call. -/
def LeadsTo (r : ReceiverPtr Tid) (w : WaiterPtr) : Frame Tid → Prop
  | .addStore _ q | .processReceiver q => q = r
  | .body (some v) | .callDone (some v) => v = w
  | _ => False
/-- The receiver of the call was removed, and no thread runs the call or comes to it. -/
def Dropped (s : System Tid) (w : WaiterPtr) : Prop :=
  ∃ r, home s.caller w = some r ∧ r.serial < s.caller.next_receiver ∧ (∀ id, s.caller.threads id ≠ some r) ∧
    ∀ t, ∀ frame ∈ s.frames t, ¬ LeadsTo r w frame

/-! ### What a step adds -/

/-- The calls keep their receivers, and a receiver is found that was found
    before, or that the step stores or creates. -/
structure Grows (s after : Caller Tid) (stores : Tid → ReceiverPtr Tid → Prop) : Prop where
  home : ∀ w r, home s w = some r → home after w = some r
  next_receiver : s.next_receiver ≤ after.next_receiver
  threads : ∀ id r, after.threads id = some r → s.threads id = some r ∨ stores id r ∨
    r.thread = id ∧ s.next_receiver ≤ r.serial ∧ r.serial < after.next_receiver
  posted : ∀ r w, w ∈ (after.receivers r).posted → w ∈ (s.receivers r).posted ∨ EndedThreads.home after w = some r
  calls : ∀ r w, w ∈ (after.receivers r).m_call_waiters_receiver →
    w ∈ (s.receivers r).m_call_waiters_receiver ∨ EndedThreads.home after w = some r

variable {s after : Caller Tid} {stores : Tid → ReceiverPtr Tid → Prop}

/-- Where neither the calls nor the receivers change, and none is stored. -/
theorem Grows.same (waiters : after.waiters = s.waiters) (receivers : after.receivers = s.receivers)
    (threads : after.threads = s.threads) (next_receiver : s.next_receiver ≤ after.next_receiver) : Grows s after stores := by
  refine ⟨?_,next_receiver,?_,?_,?_⟩
  · intro w r is
    rwa [EndedThreads.home,waiters]
  · intro id r found
    exact .inl (threads ▸ found)
  · intro r w member
    exact .inl (receivers ▸ member)
  · intro r w member
    exact .inl (receivers ▸ member)
theorem Grows.refl (s : Caller Tid) (stores : Tid → ReceiverPtr Tid → Prop) : Grows s s stores :=
  .same rfl rfl rfl (Nat.le_refl _)
theorem Grows.record (s : Caller Tid) (stores : Tid → ReceiverPtr Tid → Prop) (event : Event Tid) :
    Grows s (s.record event) stores :=
  .same rfl rfl rfl (Nat.le_refl _)
theorem Grows.withLock (s : Caller Tid) (stores : Tid → ReceiverPtr Tid → Prop) (lock : Option Tid) :
    Grows s { s with lock_threads := lock } stores :=
  .same rfl rfl rfl (Nat.le_refl _)
theorem Grows.weaken {stores' : Tid → ReceiverPtr Tid → Prop} (grows : Grows s after stores)
    (more : ∀ id r, stores id r → stores' id r) : Grows s after stores' :=
  ⟨grows.home,grows.next_receiver,fun id r found => (grows.threads id r found).imp_right (Or.imp_left (more id r)),
    grows.posted,grows.calls⟩
theorem Grows.trans {later : Caller Tid} (first : Grows s after stores) (second : Grows after later stores) :
    Grows s later stores := by
  refine ⟨fun w r is => second.home w r (first.home w r is),Nat.le_trans first.next_receiver second.next_receiver,?_,?_,?_⟩
  · intro id r found
    rcases second.threads id r found with before | stored | ⟨owned,new,small⟩
    · rcases first.threads id r before with there | stored | ⟨owned,new,small⟩
      · exact .inl there
      · exact .inr (.inl stored)
      · exact .inr (.inr ⟨owned,new,Nat.lt_of_lt_of_le small second.next_receiver⟩)
    · exact .inr (.inl stored)
    · exact .inr (.inr ⟨owned,Nat.le_trans first.next_receiver new,small⟩)
  · intro r w member
    rcases second.posted r w member with before | is
    · exact (first.posted r w before).imp_right (second.home w r)
    · exact .inr is
  · intro r w member
    rcases second.calls r w member with before | is
    · exact (first.calls r w before).imp_right (second.home w r)
    · exact .inr is
/-- A receiver is written, and none of its calls is new. -/
theorem Grows.atReceiver (s : Caller Tid) (stores : Tid → ReceiverPtr Tid → Prop) (r : ReceiverPtr Tid)
    {change : ThreadCallReceiver Tid → ThreadCallReceiver Tid} (posted : (change (s.receivers r)).posted ⊆ (s.receivers r).posted)
    (calls : (change (s.receivers r)).m_call_waiters_receiver ⊆ (s.receivers r).m_call_waiters_receiver) :
    Grows s (s.atReceiver r change) stores := by
  refine ⟨fun _ _ => id,Nat.le_refl _,fun _ _ => .inl,?_,?_⟩
  · intro q w member
    rw [atReceiver_at] at member
    split at member
    · subst q; exact .inl (posted member)
    · exact .inl member
  · intro q w member
    rw [atReceiver_at] at member
    split at member
    · subst q; exact .inl (calls member)
    · exact .inl member
theorem home_atWaiter (s : Caller Tid) (v : WaiterPtr) {change : CallWaiterPrivate Tid → CallWaiterPrivate Tid}
    (same : ∀ d, (change d).m_receiver_calls = d.m_receiver_calls) (w : WaiterPtr) :
    home (s.atWaiter v change) w = home s w := by
  unfold home
  rw [atWaiter_waiters]
  by_cases changed : w = v
  · subst changed
    rw [Function.update_self,Option.map_map]
    exact congrArg (Option.map · _) (funext same)
  · rw [Function.update_of_ne changed]
theorem Grows.atWaiter (s : Caller Tid) (stores : Tid → ReceiverPtr Tid → Prop) (v : WaiterPtr)
    {change : CallWaiterPrivate Tid → CallWaiterPrivate Tid} (same : ∀ d, (change d).m_receiver_calls = d.m_receiver_calls) :
    Grows s (s.atWaiter v change) stores :=
  ⟨fun w _ is => (home_atWaiter s v same w).trans is,Nat.le_refl _,fun _ _ => .inl,fun _ _ => .inl,fun _ _ => .inl⟩
theorem Grows.resolve (s : Caller Tid) (stores : Tid → ReceiverPtr Tid → Prop) (w : WaiterPtr) (outcome : CallState) :
    Grows s (s.resolve w outcome) stores := by
  cases present : s.waiters w with
  | none => rw [resolve_absent s present]; exact .refl s stores
  | some d =>
    rw [resolve_present s present]
    have written : Grows s (s.atWaiter w fun d => { d with m_call_state := outcome }) stores :=
      .atWaiter s stores w fun _ => rfl
    have notified : ∀ between : Caller Tid, Grows between
        (between.atReceiver d.m_wait_return_processing_calls ThreadCallReceiver.notifyAll) stores :=
      fun between => .atReceiver between stores _ (List.Subset.refl _) (List.Subset.refl _)
    exact (written.trans (notified _)).trans (.record _ stores _)
theorem Grows.store (s : Caller Tid) {id : Tid} {r : ReceiverPtr Tid} (is_stored : stores id r) :
    Grows s (s.store id r) stores := by
  refine ⟨fun _ _ is => is,Nat.le_refl _,?_,fun _ _ => .inl,fun _ _ => .inl⟩
  intro other q found
  rw [store_threads] at found
  by_cases same : other = id
  · subst same
    rw [Function.update_self] at found
    exact .inr (.inl (Option.some.inj found ▸ is_stored))
  · rw [Function.update_of_ne same] at found
    exact .inl found
theorem Grows.makeFindThread (s : Caller Tid) (stores : Tid → ReceiverPtr Tid → Prop) (id : Tid) :
    Grows s (s.makeFindThread id).1 stores := by
  cases present : s.threads id with
  | some r => rw [makeFindThread_found s present]; exact .refl s stores
  | none =>
    rw [makeFindThread_absent s present]
    refine ⟨fun _ _ is => is,Nat.le_succ _,?_,fun _ _ => .inl,fun _ _ => .inl⟩
    intro other q found
    rw [store_threads] at found
    by_cases same : other = id
    · subst same
      rw [Function.update_self] at found
      cases found
      exact .inr (.inr ⟨rfl,Nat.le_refl _,Nat.lt_succ_self _⟩)
    · rw [Function.update_of_ne same] at found
      exact .inl found
/-- The call that is posted is a new one. -/
theorem Grows.posts {own found : ReceiverPtr Tid} (posts : Posts s after own found) (fresh : s.waiters s.next_waiter = none)
    (same : after.next_receiver = s.next_receiver) : Grows s after stores := by
  obtain ⟨created,waiters,-,receiver,-,-⟩ := posts.waiters
  have home_new : EndedThreads.home after s.next_waiter = some found := by
    rw [EndedThreads.home,waiters,Function.update_self,Option.map_some,receiver]
  refine ⟨?_,Nat.le_of_eq same.symm,?_,?_,?_⟩
  · intro w r is
    have old : w ≠ s.next_waiter := by
      rintro rfl
      rw [EndedThreads.home,fresh] at is
      cases is
    rwa [EndedThreads.home,waiters,Function.update_of_ne old]
  · intro id r there
    rw [posts.threads] at there
    exact .inl there
  · intro r w member
    rw [posts.posted] at member
    rcases List.mem_append.mp member with before | now
    · exact .inl before
    · split at now
      · subst r; exact .inr (List.mem_singleton.mp now ▸ home_new)
      · cases now
  · intro r w member
    rw [posts.calls] at member
    rcases List.mem_append.mp member with now | before
    · split at now
      · subst r; exact .inr (List.mem_singleton.mp now ▸ home_new)
      · cases now
    · exact .inl before
@[simp] theorem resolve_next_receiver (s : Caller Tid) (w : WaiterPtr) (outcome : CallState) :
    (s.resolve w outcome).next_receiver = s.next_receiver := by
  cases present : s.waiters w with
  | none => rw [resolve_absent s present]
  | some d => rw [resolve_present s present]; rfl
theorem postCall_next_receiver (s : Caller Tid) (sender receiver : Tid) :
    (s.postCall sender receiver).1.next_receiver = (s.makeFindThreads sender receiver).next_receiver := by
  simp only [Caller.postCall,Caller.makeFindThreads]
  split
  · exact resolve_next_receiver _ _ _
  · rfl
theorem Grows.postCall (recorded : Recorded s) (stores : Tid → ReceiverPtr Tid → Prop) (sender receiver : Tid) :
    Grows s (s.postCall sender receiver).1 stores := by
  have found := (Grows.makeFindThread s stores receiver).trans (.makeFindThread (s.makeFindThread receiver).1 stores sender)
  refine found.trans (Grows.posts (postCall_posts s sender receiver) ?_ (postCall_next_receiver s sender receiver))
  exact ((recorded.makeFindThread receiver).makeFindThread sender).fresh _ (Nat.le_refl _)
theorem Grows.destroyWaiter (s : Caller Tid) (stores : Tid → ReceiverPtr Tid → Prop) (w : WaiterPtr)
    (d : CallWaiterPrivate Tid) : Grows s (s.destroyWaiter w d) stores := by
  have forgets : ∀ between : Caller Tid, Grows between (between.atReceiver d.m_receiver_calls fun r =>
      { r with m_call_waiters_receiver := r.m_call_waiters_receiver.filter (· ≠ w) }) stores := by
    intro between
    exact .atReceiver between stores _ (List.Subset.refl _) (List.filter_subset_self _)
  unfold Caller.destroyWaiter
  split
  · refine Grows.trans (Grows.atReceiver s stores _ ?_ ?_) (forgets _)
    · exact List.Subset.refl _
    · exact List.Subset.refl _
  · exact forgets s

/-- What a step of a frame adds. -/
theorem advanced_grows {t : Tid} {frame : Frame Tid} {frames : List (Frame Tid)}
    (advanced : Advanced s t frame after frames) (recorded : Recorded s) :
    Grows s after fun id r => frame = .addStore id r := by
  cases advanced with
  | addCreate id => exact .same rfl rfl rfl (Nat.le_succ _)
  | addStore id r => exact .store s rfl
  | post id => exact .postCall recorded _ t id
  | notify r w =>
    refine Grows.trans (Grows.atReceiver s _ r ?_ ?_) (.atWaiter _ _ w fun _ => rfl)
    · exact List.Subset.refl _
    · exact List.Subset.refl _
  | raised w d | blocks w d | wakes w d | proceeds w d =>
    exact .atReceiver s _ _ (List.Subset.refl _) (List.Subset.refl _)
  | answers w d =>
    refine Grows.trans (Grows.atWaiter s _ w ?_) (.record _ _ _)
    intro _; rfl
  | takes r w rest queue =>
    refine Grows.trans (Grows.atReceiver s _ r ?_ ?_) (.record _ _ _)
    · rw [queue]; exact List.subset_cons_self w rest
    · exact List.Subset.refl _
  | callDone w => exact Grows.trans (.resolve s _ w _) (.atWaiter _ _ w fun _ => rfl)
  | cancel id r set => exact .withLock s _ _
  | cancels r w rest => exact .resolve s _ w _
  | canceled r =>
    refine Grows.trans (.withLock s _ none) (Grows.atReceiver _ _ r ?_ ?_)
    · exact List.Subset.refl _
    · exact List.Subset.refl _
  | finish r unlocked found =>
    refine ⟨fun _ _ => id,Nat.le_refl _,?_,fun _ _ => .inl,fun _ _ => .inl⟩
    intro id q there
    by_cases same : id = t
    · subst same; simp at there
    · exact .inl (by simpa [same] using there)
  | finishes w rest => exact .resolve s _ w _
  | finished => exact .withLock s _ none
  | _ => exact .refl s _

/-- Where a frame comes from that the step puts on the stack. -/
def Arises (s after : Caller Tid) (t : Tid) (top : List (Frame Tid)) : Frame Tid → Prop
  | .addStore id r => r = ⟨id,s.next_receiver⟩ ∧ after.next_receiver = s.next_receiver + 1 ∧ after.threads = s.threads
  | .processReceiver r => s.threads t = some r ∧ after.threads t = some r ∨ .processReceiver r ∈ top
  | .body (some w) => ∃ r, .processReceiver r ∈ top ∧ w ∈ (s.receivers r).posted
  | .callDone (some w) => .body (some w) ∈ top
  | .finishLoop rest => .finish ∈ top ∧ (∃ r, s.threads t = some r ∧ after.threads t = none ∧
      rest = (s.receivers r).m_call_waiters_receiver) ∨ ∃ v, .finishLoop (v :: rest) ∈ top
  | _ => True
/-- What a step does: of the stack of its thread it replaces what is at the top. -/
structure Changes (s s' : System Tid) (t : Tid) (action : Action Tid) (top new below : List (Frame Tid)) : Prop where
  before : s.frames t = top ++ below
  one : top.length ≤ 1
  acts : top ≠ [] → action = .next
  frames : s'.frames = Function.update s.frames t (new ++ below)
  grows : Grows s.caller s'.caller fun id r => .addStore id r ∈ top
  events : s.caller.events <+: s'.caller.events
  resolves : ∀ w result, .resolved w result ∈ s'.caller.events →
    .resolved w result ∈ s.caller.events ∨ (∃ frame ∈ top, writes frame = some (w,result)) ∨ result = .cs_canceled
  arises : ∀ frame ∈ new, Arises s.caller s'.caller t top frame
  resting : ∀ frame ∈ new.tail, rests frame
  is_ready : top = [] → new ≠ [] → ready (s.frames t)
  alone : .finish ∈ new → new ++ below = [.finish]

theorem advanced_arises {t : Tid} {frame : Frame Tid} {frames : List (Frame Tid)}
    (advanced : Advanced s t frame after frames) :
    (∀ other ∈ frames, Arises s after t [frame] other ∧ other ≠ .finish) ∧ ∀ other ∈ frames.tail, rests other := by
  cases advanced with
  | addCreate id => simp [Arises,Caller.createReceiver]
  | processCalls r found => simp [Arises,found]
  | takes r w rest queue => simp [Arises,queue,rests]
  | finish r unlocked found => simp [Arises,found]
  | raised w d | proceeds w d => simp [Arises,rests]
  | body call => cases call <;> simp [Arises]
  | _ => simp [Arises]
theorem resolve_resolves {s : Caller Tid} {v w : WaiterPtr} {outcome result : CallState}
    (member : .resolved w result ∈ (s.resolve v outcome).events) :
    .resolved w result ∈ s.events ∨ w = v ∧ result = outcome := by
  rw [resolve_events] at member
  rcases List.mem_append.mp member with before | now
  · exact .inl before
  · split at now
    · cases List.mem_singleton.mp now; exact .inr ⟨rfl,rfl⟩
    · cases now
theorem makeFindThread_resolves {s : Caller Tid} {id : Tid} {w : WaiterPtr} {result : CallState}
    (member : .resolved w result ∈ (s.makeFindThread id).1.events) : .resolved w result ∈ s.events := by
  cases present : s.threads id with
  | some r => rwa [makeFindThread_found s present] at member
  | none =>
    rw [makeFindThread_absent s present] at member
    simpa [Caller.createReceiver] using member
/-- An outcome is written by the frames that write one, and where a call is
    canceled when it is posted. -/
theorem advanced_resolves {t : Tid} {frame : Frame Tid} {frames : List (Frame Tid)}
    (advanced : Advanced s t frame after frames) {w : WaiterPtr} {result : CallState}
    (member : .resolved w result ∈ after.events) :
    .resolved w result ∈ s.events ∨ writes frame = some (w,result) ∨ result = .cs_canceled := by
  cases advanced with
  | addStore id r | answers v d | takes r v rest | finish r => exact .inl (by simpa using member)
  | post id =>
    obtain ⟨more,recorded,canceled⟩ := (postCall_posts s t id).events
    rw [recorded] at member
    rcases List.mem_append.mp member with before | now
    · exact .inl (makeFindThread_resolves (makeFindThread_resolves before))
    · cases canceled _ now; exact .inr (.inr rfl)
  | callDone v | cancels r v rest | finishes v rest =>
    rcases resolve_resolves (s := s) member with before | ⟨rfl,rfl⟩
    · exact .inl before
    · exact .inr (.inl rfl)
  | _ => exact .inl member
theorem step_changes {s s' : System Tid} {t : Tid} {action : Action Tid} (recorded : Recorded s.caller)
    (stepped : step s (t,action) = some s') : ∃ top new below, Changes s s' t action top new below := by
  have nothing : ∀ {caller : Caller Tid}, Grows s.caller caller (fun _ _ => False) →
      caller.events = s.caller.events → Changes s { s with caller := caller } t action [] [] (s.frames t) := fun grows same => {
    before := rfl
    one := Nat.zero_le _
    acts := fun some_top => absurd rfl some_top
    frames := (Function.update_eq_self t s.frames).symm
    grows := grows.weaken fun _ _ => False.elim
    events := same ▸ List.prefix_refl _
    resolves := fun w result member => .inl (same ▸ member)
    arises := fun _ member => (List.not_mem_nil member).elim
    resting := fun _ member => (List.not_mem_nil member).elim
    is_ready := fun _ some_new => absurd rfl some_new
    alone := fun member => (List.not_mem_nil member).elim }
  cases step_stepped stepped with
  | start operation caller frame is_ready begins =>
    have same : caller.events = s.caller.events := by cases begins <;> rfl
    refine ⟨[],[frame],s.frames t,rfl,Nat.zero_le _,fun some_top => absurd rfl some_top,rfl,?_,same ▸ List.prefix_refl _,
      fun w result member => .inl (same ▸ member),?_,by simp,fun _ _ => is_ready,?_⟩
    · cases begins with
      | waitProcessing w d => exact .atWaiter _ _ w fun _ => rfl
      | _ => exact .refl _ _
    · cases begins <;> simp [Arises]
    · cases begins with
      | onFinished idle => intro _; rw [idle]; rfl
      | _ => simp
  | next frame below caller frames top advanced =>
    obtain ⟨arises,resting⟩ := advanced_arises advanced
    refine ⟨[frame],frames,below,top,Nat.le_refl _,fun _ => rfl,rfl,?_,advanced_events advanced,?_,
      fun other member => (arises other member).1,resting,fun none_top => absurd none_top (List.cons_ne_nil _ _),
      fun member => absurd rfl (arises _ member).2⟩
    · exact (advanced_grows advanced recorded).weaken fun id r is => List.mem_singleton.mpr is.symm
    · intro w result member
      exact (advanced_resolves advanced member).imp_right (Or.imp_left fun write => ⟨frame,List.mem_singleton_self _,write⟩)
  | release w d =>
    exact ⟨_,_,_,nothing (.atWaiter _ _ w fun _ => rfl) rfl⟩
  | destroy w d => exact ⟨_,_,_,nothing (.destroyWaiter _ _ w d) (destroyWaiter_events _ _ _)⟩

/-! ### Where the calls are -/

section changes
variable {s s' : System Tid} {t : Tid} {action : Action Tid} {top new below : List (Frame Tid)}

/-- A frame is new, or it was there and was not replaced. -/
theorem Changes.member (changes : Changes s s' t action top new below) {u : Tid} {frame : Frame Tid}
    (member : frame ∈ s'.frames u) : u = t ∧ frame ∈ new ∨ frame ∈ s.frames u ∧ (u = t → frame ∈ below) := by
  rw [changes.frames] at member
  by_cases acts : u = t
  · subst acts
    rw [Function.update_self] at member
    rcases List.mem_append.mp member with begins | stayed
    · exact .inl ⟨rfl,begins⟩
    · exact .inr ⟨changes.before ▸ List.mem_append_right _ stayed,fun _ => stayed⟩
  · rw [Function.update_of_ne acts] at member
    exact .inr ⟨member,fun same => absurd same acts⟩
/-- What was at the top was there. -/
theorem Changes.top_member (changes : Changes s s' t action top new below) {frame : Frame Tid} (member : frame ∈ top) :
    frame ∈ s.frames t :=
  changes.before ▸ List.mem_append_left _ member
theorem ready_rests {frame : Frame Tid} {stack : List (Frame Tid)} (is_ready : ready (frame :: stack)) : rests frame := by
  cases frame <;> first | rfl | cases is_ready
/-- A step replaces one frame at most. -/
theorem Changes.top_eq (changes : Changes s s' t action top new below) {frame : Frame Tid} (member : frame ∈ top) : top = [frame] := by
  have one := changes.one
  cases top with
  | nil => cases member
  | cons first more =>
    have none_more : more = [] := List.eq_nil_of_length_eq_zero (Nat.le_zero.mp (Nat.le_of_succ_le_succ one))
    subst none_more
    rw [List.mem_singleton.mp member]
/-- What stays below a change can be below other frames. -/
theorem Changes.below_rests (changes : Changes s s' t action top new below) (placed : Placed s) (changed : top ≠ [] ∨ new ≠ [])
    {frame : Frame Tid} (member : frame ∈ below) : rests frame := by
  have resting := placed.resting t frame
  rw [changes.before] at resting
  cases top with
  | cons first more =>
    exact resting (List.mem_append_right _ member)
  | nil =>
    have is_ready := changes.is_ready rfl (changed.resolve_left fun none_top => none_top rfl)
    rw [changes.before,List.nil_append] at is_ready
    cases below with
    | nil => cases member
    | cons head tail =>
      rcases List.mem_cons.mp member with rfl | later
      · exact ready_rests is_ready
      · exact resting later

/-- What the step puts on the stack fits the thread. -/
theorem Changes.arises_fits (changes : Changes s s' t action top new below) (placed : Placed s) {frame : Frame Tid}
    (begins : frame ∈ new) : Fits s'.caller t frame := by
  have grows := changes.grows
  have arises := changes.arises frame begins
  cases frame with
  | addStore id r =>
    obtain ⟨rfl,next,same⟩ := arises
    refine ⟨rfl,next ▸ Nat.lt_succ_self _,fun other found => ?_⟩
    exact Nat.lt_irrefl _ (placed.owner other _ (same ▸ found)).2
  | processReceiver r =>
    rcases arises with ⟨found,-⟩ | before
    · exact (placed.owner t r found).1
    · exact placed.fits t _ (changes.top_member before)
  | body call =>
    cases call with
    | none => trivial
    | some w =>
      obtain ⟨r,processes,queued⟩ := arises
      exact ⟨r,grows.home w r (placed.posted r w queued),placed.fits t _ (changes.top_member processes)⟩
  | callDone call =>
    cases call with
    | none => trivial
    | some w =>
      obtain ⟨r,is,owned⟩ := placed.fits t _ (changes.top_member arises)
      exact ⟨r,grows.home w r is,owned⟩
  | _ => trivial
/-- What was there fits as before. -/
theorem Changes.fits_stays (changes : Changes s s' t action top new below) (placed : Placed s) {u : Tid} {frame : Frame Tid}
    (was : frame ∈ s.frames u) (stayed : u = t → frame ∈ below) : Fits s'.caller u frame := by
  have grows := changes.grows
  have fits := placed.fits u frame was
  cases frame with
  | addStore id r =>
    obtain ⟨owned,small,absent⟩ := fits
    refine ⟨owned,Nat.lt_of_lt_of_le small grows.next_receiver,fun other found => ?_⟩
    rcases grows.threads other r found with before | stored | ⟨-,large,-⟩
    · exact absent other before
    · have same := placed.once u t id other r was (changes.top_member stored)
      have resting := changes.below_rests placed (.inl (List.ne_nil_of_mem stored)) (stayed same)
      cases resting
    · exact absurd small (Nat.not_lt_of_le large)
  | body call | callDone call =>
    cases call with
    | none => trivial
    | some w =>
      obtain ⟨r,is,owned⟩ := fits
      exact ⟨r,grows.home w r is,owned⟩
  | _ => exact fits
theorem Changes.rests (changes : Changes s s' t action top new below) (placed : Placed s) {u : Tid} {frame : Frame Tid}
    (member : frame ∈ (s'.frames u).tail) : rests frame := by
  rw [changes.frames] at member
  by_cases acts : u = t
  · subst acts
    rw [Function.update_self] at member
    cases new with
    | cons first more =>
      rcases List.mem_append.mp member with begins | stayed
      · exact changes.resting frame begins
      · exact changes.below_rests placed (.inr (List.cons_ne_nil _ _)) stayed
    | nil =>
      refine placed.resting u frame ?_
      rw [changes.before]
      cases top with
      | nil => exact member
      | cons first more => exact List.mem_append_right _ (List.mem_of_mem_tail member)
  · rw [Function.update_of_ne acts] at member
    exact placed.resting u frame member
theorem Changes.finish_last (changes : Changes s s' t action top new below) (placed : Placed s) {u : Tid} {under : List (Frame Tid)}
    (is : s'.frames u = .finish :: under) : under = [] := by
  rw [changes.frames] at is
  by_cases acts : u = t
  · subst acts
    rw [Function.update_self] at is
    cases new with
    | cons first more =>
      have head : first = .finish := (List.cons.inj is).1
      have whole := changes.alone (head ▸ List.mem_cons_self)
      exact (List.cons.inj (is.symm.trans whole)).2
    | nil =>
      cases top with
      | nil => exact placed.alone u under (changes.before.trans is)
      | cons first more =>
        have member : Frame.finish ∈ below := by
          rw [show below = .finish :: under from is]
          exact List.mem_cons_self
        cases changes.below_rests placed (.inl (List.cons_ne_nil _ _)) member
  · rw [Function.update_of_ne acts] at is
    exact placed.alone u under is
/-- A receiver is stored by one thread: a new one is unlike those that wait to be stored. -/
theorem Changes.stores_once (changes : Changes s s' t action top new below) (placed : Placed s) {a b id id' : Tid}
    {r : ReceiverPtr Tid} (first : .addStore id r ∈ s'.frames a) (second : .addStore id' r ∈ s'.frames b) : a = b := by
  have new_large : ∀ id, .addStore id r ∈ new → r.serial = s.caller.next_receiver := by
    intro id begins
    obtain ⟨rfl,-⟩ := changes.arises _ begins
    rfl
  have old_small : ∀ u id, .addStore id r ∈ s.frames u → r.serial < s.caller.next_receiver :=
    fun u id was => (placed.fits u _ was).2.1
  rcases changes.member first with ⟨rfl,begins⟩ | ⟨was,-⟩
  · rcases changes.member second with ⟨rfl,-⟩ | ⟨was,-⟩
    · rfl
    · exact absurd (new_large id begins) (Nat.ne_of_lt (old_small b id' was))
  · rcases changes.member second with ⟨rfl,begins⟩ | ⟨was',-⟩
    · exact absurd (new_large id' begins) (Nat.ne_of_lt (old_small a id was))
    · exact placed.once a b id id' r was was'

theorem Changes.placed (changes : Changes s s' t action top new below) (placed : Placed s) : Placed s' := by
  have grows := changes.grows
  refine ⟨?_,?_,?_,fun u frame member => changes.rests placed member,fun u under is => changes.finish_last placed is,?_,
    fun a b id id' r first second => changes.stores_once placed first second⟩
  · intro id r found
    rcases grows.threads id r found with before | stored | ⟨owned,-,small⟩
    · obtain ⟨owned,small⟩ := placed.owner id r before
      exact ⟨owned,Nat.lt_of_lt_of_le small grows.next_receiver⟩
    · obtain ⟨owned,small,-⟩ := placed.fits t _ (changes.top_member stored)
      exact ⟨owned,Nat.lt_of_lt_of_le small grows.next_receiver⟩
    · exact ⟨owned,small⟩
  · intro r w member
    exact (grows.posted r w member).elim (fun before => grows.home w r (placed.posted r w before)) id
  · intro r w member
    exact (grows.calls r w member).elim (fun before => grows.home w r (placed.calls r w before)) id
  · intro u frame member
    rcases changes.member member with ⟨rfl,begins⟩ | ⟨was,stayed⟩
    · exact changes.arises_fits placed begins
    · exact changes.fits_stays placed was stayed

/-- What the step puts on the stack leads to the receiver only where the thread
    finds it, or what was at the top led there. -/
theorem Changes.leads (changes : Changes s s' t action top new below) (placed : Placed s) {r : ReceiverPtr Tid} {w : WaiterPtr}
    (is : home s.caller w = some r) (small : r.serial < s.caller.next_receiver) {frame : Frame Tid} (begins : frame ∈ new)
    (leads : LeadsTo r w frame) :
    s.caller.threads t = some r ∧ s'.caller.threads t = some r ∨ ∃ other ∈ top, LeadsTo r w other := by
  have arises := changes.arises frame begins
  cases frame with
  | addStore id q =>
    cases leads
    obtain ⟨rfl,-⟩ := arises
    exact absurd small (Nat.lt_irrefl _)
  | processReceiver q =>
    cases leads
    exact arises.imp_right fun before => ⟨.processReceiver r,before,rfl⟩
  | body call =>
    cases call with
    | none => cases leads
    | some v =>
      cases leads
      obtain ⟨q,processes,queued⟩ := arises
      have same : r = q := Option.some.inj (is.symm.trans (placed.posted q _ queued))
      exact .inr ⟨_,processes,same.symm⟩
  | callDone call =>
    cases call with
    | none => cases leads
    | some v =>
      cases leads
      exact .inr ⟨_,arises,rfl⟩
  | _ => cases leads
/-- A call that was dropped stays so. -/
theorem Changes.dropped (changes : Changes s s' t action top new below) (placed : Placed s) {w : WaiterPtr}
    (dropped : Dropped s w) : Dropped s' w := by
  obtain ⟨r,is,small,absent,elsewhere⟩ := dropped
  have grows := changes.grows
  refine ⟨r,grows.home w r is,Nat.lt_of_lt_of_le small grows.next_receiver,?_,?_⟩
  · intro id found
    rcases grows.threads id r found with before | stored | ⟨-,large,-⟩
    · exact absent id before
    · exact elsewhere t _ (changes.top_member stored) rfl
    · exact absurd small (Nat.not_lt_of_le large)
  · intro u frame member leads
    rcases changes.member member with ⟨rfl,begins⟩ | ⟨was,-⟩
    · rcases changes.leads placed is small begins leads with ⟨found,-⟩ | ⟨other,at_top,led⟩
      · exact absent u found
      · exact elsewhere u other (changes.top_member at_top) led
    · exact elsewhere u frame was leads

/-- A thread that ends runs nothing else. -/
theorem Changes.finish_alone (changes : Changes s s' t action top new below) (placed : Placed s) (finishes : .finish ∈ top) :
    s.frames t = [.finish] := by
  have whole := changes.before
  rw [changes.top_eq finishes,List.singleton_append] at whole
  rw [whole,placed.alone t below whole]
/-- What runs on another thread leads to no receiver of the thread. -/
theorem fits_leads {s : System Tid} {t u : Tid} {r : ReceiverPtr Tid} {w : WaiterPtr} {frame : Frame Tid}
    (found : s.caller.threads t = some r) (owned : r.thread = t) (is : home s.caller w = some r)
    (fits : Fits s.caller u frame) (leads : LeadsTo r w frame) : u = t := by
  cases frame with
  | addStore id q =>
    cases leads
    exact absurd found (fits.2.2 t)
  | processReceiver q =>
    cases leads
    exact fits.symm.trans owned
  | body call | callDone call =>
    cases call with
    | none => cases leads
    | some v =>
      cases leads
      obtain ⟨q,home_is,at_thread⟩ := fits
      have same : q = r := Option.some.inj (home_is.symm.trans is)
      exact at_thread.symm.trans (same ▸ owned)
  | _ => cases leads
/-- When a thread ends, the calls that its receiver knows of are dropped. -/
theorem Changes.drops (changes : Changes s s' t action top new below) (placed : Placed s) {r : ReceiverPtr Tid}
    (finishes : .finish ∈ top) (found : s.caller.threads t = some r) (removed : s'.caller.threads t = none)
    {w : WaiterPtr} (called : w ∈ (s.caller.receivers r).m_call_waiters_receiver) : Dropped s' w := by
  obtain ⟨owned,small⟩ := placed.owner t r found
  have is := placed.calls r w called
  have stack := changes.finish_alone placed finishes
  have nothing_else : ∀ other ∈ s.frames t, ¬ LeadsTo r w other := by
    intro other member leads
    rw [stack] at member
    cases List.mem_singleton.mp member
    exact leads
  refine ⟨r,changes.grows.home w r is,Nat.lt_of_lt_of_le small changes.grows.next_receiver,?_,?_⟩
  · intro id there
    rcases changes.grows.threads id r there with before | stored | ⟨-,large,-⟩
    · have same : r.thread = id := (placed.owner id r before).1
      rw [← same,owned,removed] at there
      cases there
    · exact nothing_else _ (changes.top_member stored) rfl
    · exact absurd small (Nat.not_lt_of_le large)
  · intro u frame member leads
    rcases changes.member member with ⟨rfl,begins⟩ | ⟨was,-⟩
    · rcases changes.leads placed is small begins leads with ⟨-,there⟩ | ⟨other,at_top,led⟩
      · cases removed.symm.trans there
      · exact nothing_else other (changes.top_member at_top) led
    · have same := fits_leads found owned is (placed.fits u frame was) leads
      subst same
      exact nothing_else frame was leads

end changes

/-! ### The calls of a thread that ended -/

/-- Every call that the end of a thread resolves is dropped. -/
structure Ended (s : System Tid) : Prop where
  answering : Answering s
  placed : Placed s
  ending : ∀ t rest w, .finishLoop rest ∈ s.frames t → w ∈ rest → Dropped s w
  finished : ∀ w, .resolved w .cs_receiver_thread_finished ∈ s.caller.events → Dropped s w

theorem step_ended : Preserves step (Ended : System Tid → Prop) := by
  rintro s ⟨t,action⟩ s' ended stepped
  obtain ⟨answering,placed,ending,finished⟩ := ended
  obtain ⟨top,new,below,changes⟩ := step_changes answering.recorded stepped
  refine ⟨step_answering s (t,action) s' answering stepped,changes.placed placed,?_,?_⟩
  · intro u rest w member listed
    rcases changes.member member with ⟨rfl,begins⟩ | ⟨was,-⟩
    · rcases changes.arises _ begins with ⟨finishes,r,found,removed,rfl⟩ | ⟨v,loops⟩
      · exact changes.drops placed finishes found removed listed
      · exact changes.dropped placed (ending u _ w (changes.top_member loops) (List.mem_cons_of_mem _ listed))
    · exact changes.dropped placed (ending u rest w was listed)
  · intro w resolved
    rcases changes.resolves w _ resolved with before | ⟨frame,at_top,write⟩ | canceled
    · exact changes.dropped placed (finished w before)
    · unfold writes at write
      split at write
      · cases write
      · cases write
      · cases write
        exact changes.dropped placed (ending t _ w (changes.top_member at_top) List.mem_cons_self)
      · cases write
    · cases canceled
theorem ended_init : Ended ({} : System Tid) where
  answering := answering_init
  placed := ⟨fun _ _ => by simp,fun _ _ => by simp,fun _ _ => by simp,fun _ _ => by simp,fun _ _ => by simp,
    fun _ _ => by simp,fun _ _ _ _ _ => by simp⟩
  ending := fun _ _ _ => by simp
  finished := fun _ => by simp
/-- What was dropped stays so. -/
theorem step_dropped {s s' : System Tid} {action : Tid × Action Tid} (ended : Ended s) (stepped : step s action = some s')
    {w : WaiterPtr} (dropped : Dropped s w) : Dropped s' w := by
  obtain ⟨t,action⟩ := action
  obtain ⟨top,new,below,changes⟩ := step_changes ended.answering.recorded stepped
  exact changes.dropped ended.placed dropped

/-- The call that is posted is a new one, and canceled if it is over. -/
theorem posts_new {s s' : System Tid} (ended : Ended s) {t id : Tid} {below : List (Frame Tid)}
    (top : s.frames t = .post id :: below) (stepped : step s (t,.next) = some s') :
    let w := (s.caller.postCall t id).2.2
    home s.caller w = none ∧ (home s'.caller w).isSome ∧ (∀ u, .callDone (some w) ∉ s'.frames u) ∧
      ∀ result, .resolved w result ∈ s'.caller.events → result = .cs_canceled := by
  intro w
  have recorded := ended.answering.recorded
  have fresh : s.caller.waiters w = none := by
    have none_there := ((recorded.makeFindThread id).makeFindThread t).fresh w (Nat.le_refl _)
    rwa [makeFindThread_waiters,makeFindThread_waiters] at none_there
  have homeless : home s.caller w = none := by rw [home,fresh]; rfl
  cases step_stepped stepped with
  | next frame below' after frames top' advanced =>
    cases top.symm.trans top'
    cases advanced with
    | post _ unlocked =>
      refine ⟨homeless,?_,?_,?_⟩
      · obtain ⟨created,waiters,-⟩ := (postCall_posts s.caller t id).waiters
        have there : (s.caller.postCall t id).1.waiters w = some created := by
          rw [waiters]
          exact Function.update_self _ _ _
        rw [home,there]; rfl
      · intro u member
        rcases mem_update_frames top member with ⟨-,begins⟩ | was
        · cases List.mem_singleton.mp begins
        · obtain ⟨r,is,-⟩ := ended.placed.fits u _ was
          cases homeless.symm.trans is
      · intro result member
        rcases advanced_resolves (.post id unlocked) member with before | write | canceled
        · have nothing := recorded.absent w fresh
          have recorded_before := mem_outcomes.mpr before
          rw [nothing] at recorded_before
          cases recorded_before
        · cases write
        · exact canceled

/-- Once `SetReceiverThreadFinished` was called for a call, no thread runs it,
    at that time or later. -/
theorem finished_dropped (before after : List (Tid × Action Tid)) {w : WaiterPtr}
    (finished : .resolved w .cs_receiver_thread_finished ∈ (run step {} before).caller.events) (t : Tid) :
    .body (some w) ∉ (run step {} (before ++ after)).frames t := by
  have both : Preserves step fun s : System Tid => Ended s ∧ Dropped s w :=
    step_ended.and fun s action s' ended dropped stepped => step_dropped ended stepped dropped
  have ended := step_ended.run ended_init before
  rw [run_append]
  obtain ⟨-,r,-,-,-,elsewhere⟩ := both.run ⟨ended,ended.finished w finished⟩ after
  exact fun member => elsewhere t _ member rfl

/-- The thread `true` ends with a call in its queue. -/
def ends_posted : List (Bool × Action Bool) :=
  [(false,.start (.callFromThread (some true))),(false,.next),(false,.next),
    (true,.start .onFinished),(true,.next),(true,.next),(true,.next)]
/-- Afterwards a thread with the same id processes its calls. -/
theorem finished_dropped_posted :
    .resolved 0 .cs_receiver_thread_finished ∈ (run step {} ends_posted).caller.events ∧
      .body (some 0) ∉ (run step {} (ends_posted ++ [(true,.start (.addTargetThreadId true)),(true,.next),(true,.next),
        (true,.next),(true,.start .processCalls),(true,.next),(true,.next)])).frames true := by
  have finished : .resolved 0 .cs_receiver_thread_finished ∈ (run step {} ends_posted).caller.events := by decide +kernel
  exact ⟨finished,finished_dropped ends_posted _ finished true⟩

end IpcPortable.EndedThreads
