import IpcPortable.HandOver

/-!
The build for a single thread. Its `get_id` is a constant, its mutex does nothing, and its
`wait` returns at once, so that the loop around it would never end. An endpoint whose code
only one thread uses does not come there: where the transport is locked the thread itself
is inside of it, and returns (`single_never_waits`).
-/
namespace IpcPortable.SingleThread
open IpcPortable.Runs IpcPortable.Pending IpcPortable.Endpoints IpcPortable.EndpointMoves IpcPortable.HandOver
variable {κ : Type}

/-- The activation waits for another thread. -/
def waits : Point → Bool
  | .waiting => true
  | _ => false
/-- No activation waits for another thread, or gave up because of one. -/
structure Alone (s : Endpoint Unit κ) : Prop where
  frames : ∀ frame ∈ s.threads (), waits frame.point = false
  exits : ((),.left .busy) ∉ s.events

theorem enter_alone (operation : Operation κ) : waits (enter operation).point = false := by
  cases operation <;> rfl

section activation
variable {call_info : CallInfo κ} {p q : PendingResponces Unit} {frame : Activation κ} {move : Move} {out : Advance Unit κ}

/-- A round begins only when nobody has the transport. -/
theorem begins_unlocked (begins : Begins () p frame q) (runs : waits frame.point = false) :
    q.m_thread_waiting_transport.m_locked_id = none := by
  cases begins with
  | fresh _ elsewhere =>
    cases locked : p.m_thread_waiting_transport.m_locked_id with
    | none => rfl
    | some _ => exact absurd locked elsewhere
  | woken at_point =>
    rw [at_point] at runs
    cases runs

theorem moves_alone (moved : Moves call_info () p frame move out) (runs : waits frame.point = false) :
    (∀ next ∈ out.frames, waits next.point = false) ∧ .left .busy ∉ out.events := by
  have single {next : Activation κ} (fine : waits next.point = false) : ∀ other ∈ [next], waits other.point = false := by
    intro other member
    rw [List.mem_singleton.mp member]
    exact fine
  cases moved with
  | waits begins _ _ locked _ => exact absurd (begins_unlocked begins runs) locked
  | busy begins locked _ => exact absurd (begins_unlocked begins runs) locked
  | unsent _ _ | sendsOnly _ _ _ | reenters _ _ | answers _ => exact ⟨fun _ none => (by cases none),by simp [Activation.leave]⟩
  | entersLast _ reason =>
    refine ⟨fun _ none => (by cases none),?_⟩
    rcases reason with ⟨_,rfl⟩ | ⟨_,rfl⟩ <;> simp [Activation.leave]
  | issues _ _ | sends _ _ _ | takesResponse _ _ | takesCall _ _ _ _ | locks _ _ | passes _ | continues _ | receives _
  | receivesNothing _ | enters _ => exact ⟨single rfl,by simp⟩

end activation

theorem step_alone (call_info : CallInfo κ) : Preserves (step call_info) (Alone : Endpoint Unit κ → Prop) := by
  rintro s ⟨⟨⟩,action⟩ s' alone stepped
  cases step_steps stepped with
  | starts _ =>
    refine ⟨fun frame member => ?_,alone.exits⟩
    dsimp only at member
    rw [Function.update_self] at member
    rcases List.mem_cons.mp member with rfl | below
    · exact enter_alone _
    · exact alone.frames frame below
  | @moves _ _ frame below out running moved =>
    obtain ⟨frames,events⟩ := moves_alone moved (alone.frames frame (running ▸ List.mem_cons_self))
    refine ⟨fun next member => ?_,fun member => ?_⟩
    · dsimp only at member
      rw [Function.update_self] at member
      rcases List.mem_append.mp member with new | old
      · exact frames next new
      · exact alone.frames next (running ▸ List.mem_cons_of_mem _ old)
    · rcases List.mem_append.mp member with old | new
      · exact alone.exits old
      · obtain ⟨event,listed,same⟩ := List.mem_map.mp new
        cases same
        exact events listed

/-- However the calls nest, in every run of one thread no activation waits in the
    condition variable or gives up because of another thread, and the assertion of
    `lock` holds. -/
theorem single_never_waits (call_info : CallInfo κ) (actions : List (Unit × Action κ)) :
    (∀ frame ∈ (run (step call_info) {} actions).threads (), waits frame.point = false) ∧
      ((),.left .busy) ∉ (run (step call_info) {} actions).events ∧
      ((),.asserted) ∉ (run (step call_info) {} actions).events := by
  have alone := (step_alone call_info).run (s := {}) ⟨fun _ none => (by cases none),fun none => (by cases none)⟩ actions
  exact ⟨alone.frames,alone.exits,((step_owned call_info).run empty_owned actions).quiet ()⟩

end IpcPortable.SingleThread
