import IpcPortable.TypeHandlers

/-!
Entries of names without handlers. `ClearHandlersWithTag` erases an entry when
its list looks empty from the front; a block that a loop holds still stands
there, so that the entry stays, and nothing erases it when the loop lets go. As
long as no loop lets go of the last block of such a list, the entries of the
names are those with handlers whenever no call is going on.
-/
namespace IpcPortable.EventCalls
open IpcPortable.Runs IpcPortable.CallbackLists IpcPortable.ListShape IpcPortable.EventHandlerMaps IpcPortable.HandlerLists

def Loop.isNames (l : Loop) : Bool :=
  match l.source with
  | .name _ => true
  | .type _ => false
/-- The loop of the innermost call that goes on. -/
def World.current (w : World) : Option Loop := w.calls.head?.bind fun call => call.types.or call.named
/-- A loop over the handlers of a name that goes on does not hold the only block
    that is left of the list, without any handler, of an entry in the map. -/
def World.Keeps (w : World) : Action → Prop
  | .proceed => ∀ l ∈ w.current, ∀ b ∈ l.el, l.isNames = true → w.map.find l.source = some l.callers →
      w.map.handlers l.source ≠ [] ∨ heldBy w.loops l.callers ≠ [b]
  | .addHandlerName .. | .addHandlerType .. | .clearHandlerName .. | .clearHandlersWithTag _ | .callName .. => True

instance (w : World) : (action : Action) → Decidable (w.Keeps action)
  | .proceed => inferInstanceAs (Decidable (∀ l ∈ w.current, ∀ b ∈ l.el, l.isNames = true →
      w.map.find l.source = some l.callers → w.map.handlers l.source ≠ [] ∨ heldBy w.loops l.callers ≠ [b]))
  | .addHandlerName .. | .addHandlerType .. | .clearHandlerName .. | .clearHandlersWithTag _ | .callName .. => .isTrue trivial

/-- The entries of the names have handlers, or blocks that loops hold. -/
def NamesKept (w : World) : Prop :=
  ∀ key i, w.map.find (.name key) = some i → w.map.handlers (.name key) ≠ [] ∨ heldBy w.loops i ≠ []
/-- The calls that nothing disturbs have found handlers where they found an entry. -/
def NamesFound (w : World) : Prop :=
  ∀ call ∈ w.calls ++ w.returned, call.undisturbed = true → call.caller_base.isSome → call.names ≠ []

section steps
variable {w w' : World} {call : Call} {others : List Call} {l : Loop} {b : Address}

theorem proceed_registered (l : Loop) (heap : Heap) (b : Address) : (l.proceed heap b).1.registered = l.registered := by
  unfold Loop.proceed
  split
  · rfl
  · split <;> rfl

theorem current_types (calls : w.calls = call :: others) (types : call.types = some l) : w.current = some l := by
  rw [World.current,calls,List.head?_cons,Option.bind_some,types]
  rfl
theorem current_named (calls : w.calls = call :: others) (types : call.types = none) (named : call.named = some l) :
    w.current = some l := by
  rw [World.current,calls,List.head?_cons,Option.bind_some,types,named]
  rfl

theorem NamesKept.change {map : EventHandlerMap} (kept : ∀ key i, map.find (.name key) = some i →
    map.handlers (.name key) ≠ [] ∨ heldBy w.loops i ≠ []) (events : Loop → List Event) : NamesKept (w.change map events) := by
  intro key i found
  rw [note_loops,heldBy_note]
  exact kept key i found

theorem NamesKept.withCalls {heap : Heap} {calls : List Call} (kept : NamesKept w) (loose : Loosened w.map.heap heap)
    (holds : ∀ key i, w.map.find (.name key) = some i → w.map.handlers (.name key) = [] → heldBy w.loops i ≠ [] →
      heldBy (calls.flatMap Call.loops) i ≠ []) : NamesKept (w.withCalls heap calls) := by
  intro key i found
  have same : (w.withCalls heap calls).map.handlers (.name key) = w.map.handlers (.name key) := by
    rw [handlers_some found,handlers_some (show w.map.find (.name key) = some i from found)]
    exact loose.live i
  rw [same]
  rcases kept key i found with registered | held
  · exact .inl registered
  · by_cases nothing : w.map.handlers (.name key) = []
    · exact .inr (holds key i found nothing held)
    · exact .inl nothing

/-- A loop that begins holds blocks as well. -/
theorem NamesKept.began {calls : List Call} {source : Source} {i : CallersPtr} (kept : NamesKept w) (inv : Inv w)
    (made : (w.map.heap.lists i).m_base.isSome)
    (loops : calls.flatMap Call.loops = (Loop.start w.map.heap source i).1 :: w.loops) :
    NamesKept (w.withCalls (Loop.start w.map.heap source i).2 calls) := by
  obtain ⟨-,loose,-,-⟩ := start_spec inv.map.heap source made
  refine kept.withCalls loose fun key j _ _ held => ?_
  rw [loops,heldBy_cons,show (Loop.start w.map.heap source i).1.callers = i from rfl]
  rcases eq_or_ne j i with rfl | other
  · rw [Function.update_self]
    exact fun none_held => held (List.append_eq_nil_iff.mp none_held).2
  · rw [Function.update_of_ne other]
    exact held

theorem NamesKept.moved {call' : Call} {rest : List Loop} (kept : NamesKept w) (inv : Inv w) (calls : w.calls = call :: others)
    (stands : l.el = some b) (before : call.loops = l :: rest) (loops : call'.loops = (l.proceed w.map.heap b).1 :: rest)
    (current : w.current = some l) (keeps : w.Keeps .proceed) :
    NamesKept (w.withCalls (l.proceed w.map.heap b).2 (call' :: others)) := by
  have whole : w.loops = l :: (rest ++ others.flatMap Call.loops) := by rw [loops_cons calls,before,List.cons_append]
  obtain ⟨⟨made,mine⟩,-,loose⟩ := innermost inv calls before stands
  have callers := (proceed_moves (whole ▸ inv.map.heap) made mine stands).2.2.1
  refine kept.withCalls loose fun key j found nothing held => ?_
  rw [List.flatMap_cons,loops,List.cons_append,heldBy_cons,callers]
  rw [whole,heldBy_cons,stands] at held
  rcases eq_or_ne j l.callers with rfl | other
  · have source : l.source = .name key := mine.symm.trans (inv.map.found found).2
    have names : l.isNames = true := by rw [Loop.isNames,source]
    rw [Function.update_self]
    rcases keeps l current b stands names (source ▸ found) with registered | more
    · exact absurd (source ▸ nothing) registered
    · intro none_held
      have free := (List.append_eq_nil_iff.mp none_held).2
      refine more ?_
      rw [whole,heldBy_cons,Function.update_self,stands,free]
      rfl
  · rw [Function.update_of_ne other] at held ⊢
    exact held

theorem NamesKept.finish (kept : NamesKept w) (calls : w.calls = call :: others) (closed : ∀ l ∈ call.loops, l.el = none) :
    NamesKept (w.finish call others) := by
  intro key i found
  have held := kept key i found
  rw [loops_cons calls,heldBy_ended closed] at held
  exact held

theorem NamesKept.callTypes (kept : NamesKept w) (inv : Inv w) (calls : w.calls = call :: others) (types : call.types = none)
    (closed : ∀ l, call.named = some l → l.el = none) : NamesKept (w.callTypes call others) := by
  rcases callTypes_cases w call others with ⟨-,i,base,began⟩ | ⟨-,finished⟩
  · obtain ⟨made,-⟩ := inv.types call (calls ▸ List.mem_cons_self) i base
    rw [began]
    refine kept.began inv made ?_
    rw [loops_cons calls,List.flatMap_cons,Call.loops,Call.loops,types]
    rfl
  · rw [finished]
    refine kept.finish calls fun l member => closed l ?_
    simpa [Call.loops,types] using member

/-- A step that does not let go of the last block keeps the names. -/
theorem namesKept_step {action : Action} (kept : NamesKept w) (inv : Inv w) (keeps : w.Keeps action)
    (stepped : step w action = some w') : NamesKept w' := by
  have added : ∀ source tag skip_type_handler, NamesKept (w.addHandler source tag skip_type_handler) := by
    intro source tag skip_type_handler
    obtain ⟨i,address,-,added,-,-⟩ := inv.map.addHandler source tag skip_type_handler
    change NamesKept (w.change (w.map.addHandler source tag skip_type_handler).1 _)
    refine NamesKept.change (fun key j found => ?_) _
    rw [inv.map.handlers_addHandler]
    rcases eq_or_ne (Source.name key) source with rfl | other
    · rw [Function.update_self]
      exact .inl (List.append_ne_nil_of_right_ne_nil _ (List.cons_ne_nil _ _))
    · rw [Function.update_of_ne other]
      exact kept key j ((added.others _ other).symm.trans found)
  cases action with
  | addHandlerName name params tag skip_type_handler | addHandlerType params tag skip_type_handler =>
    obtain rfl := Option.some.inj stepped
    exact added _ tag skip_type_handler
  | clearHandlerName name params =>
    obtain rfl := Option.some.inj stepped
    refine NamesKept.change (fun key j found => ?_) _
    rw [(inv.map.clearHandlerName ⟨name,params.type_index⟩).2] at found
    rw [inv.map.handlers_clearHandlerName]
    by_cases same : Source.name key = .name ⟨name,params.type_index⟩
    · rw [if_pos same] at found
      cases found
    · rw [if_neg same] at found
      rw [Function.update_of_ne same]
      exact kept key j found
  | clearHandlersWithTag tag =>
    obtain ⟨map,cleared,map_inv,spec⟩ := inv.map.clearHandlersWithTag tag
    simp only [step,cleared,Option.map_some,Option.some.injEq] at stepped
    subst stepped
    refine NamesKept.change (fun key j found => ?_) _
    have ring : map.heap.ring j ≠ [] := by
      have kept_entry := found
      rw [spec.finds] at kept_entry
      obtain ⟨-,here⟩ := Option.filter_eq_some_iff.mp kept_entry
      simpa using here
    rw [handlers_some found]
    by_contra neither
    obtain ⟨dead,free⟩ := not_or.mp neither
    exact ring (map_inv.heap.ring_nil.mpr ⟨not_not.mp dead,not_not.mp free⟩)
  | callName name params =>
    obtain rfl := Option.some.inj stepped
    unfold World.callName
    cases found : w.map.find (.name ⟨name,params.type_index⟩) with
    | none => exact kept.withCalls (.refl _) fun _ _ _ _ held => held
    | some i => exact kept.began inv (inv.map.names.found found).1 rfl
  | proceed =>
    obtain ⟨call,others,calls,cases⟩ := proceed_cases stepped
    rcases cases with ⟨l,b,types,stands,rfl⟩ | ⟨l,b,types,named,stands,rfl⟩ | ⟨types,closed,rfl⟩ | ⟨l,types,closed,rfl⟩
    · refine kept.moved inv calls stands ?_ rfl (current_types calls types) keeps
      rw [Call.loops,types]
      rfl
    · have before : call.loops = [l] := by
        rw [Call.loops,types,named]
        rfl
      refine kept.moved inv calls stands before ?_ (current_named calls types named) keeps
      change call.types.toList ++ [_] = [_]
      rw [types]
      rfl
    · exact kept.callTypes inv calls types closed
    · refine kept.finish calls fun one member => ?_
      rw [Call.loops,types] at member
      rcases List.mem_cons.mp member with rfl | old
      · exact closed
      · exact inv.ended call (calls ▸ List.mem_cons_self) (by rw [types]; rfl) one (Option.mem_toList.mp old)

theorem NamesFound.change (found : NamesFound w) (map : EventHandlerMap) (events : Loop → List Event) :
    NamesFound (w.change map events) := by
  intro call member undisturbed
  rcases List.mem_append.mp member with going | gone
  · obtain ⟨before,-,rfl⟩ := List.mem_map.mp going
    cases undisturbed
  · exact found call (List.mem_append_right _ gone) undisturbed

/-- The innermost call goes on, with the handlers that it found. -/
theorem NamesFound.goesOn {call' : Call} {heap : Heap} (found : NamesFound w) (calls : w.calls = call :: others)
    (same : call'.undisturbed = call.undisturbed ∧ call'.caller_base = call.caller_base ∧ call'.names = call.names) :
    NamesFound (w.withCalls heap (call' :: others)) := by
  intro one member undisturbed based
  rcases List.mem_append.mp member with going | gone
  · rcases List.mem_cons.mp going with rfl | old
    · rw [same.1] at undisturbed
      rw [same.2.1] at based
      rw [same.2.2]
      exact found call (List.mem_append_left _ (calls ▸ List.mem_cons_self)) undisturbed based
    · exact found one (List.mem_append_left _ (calls ▸ List.mem_cons_of_mem call old)) undisturbed based
  · exact found one (List.mem_append_right _ gone) undisturbed based

theorem NamesFound.finish (found : NamesFound w) (calls : w.calls = call :: others) : NamesFound (w.finish call others) := by
  intro one member
  refine found one ?_
  rw [calls]
  rcases List.mem_append.mp member with going | gone
  · exact List.mem_append_left _ (List.mem_cons_of_mem call going)
  · rcases List.mem_cons.mp gone with rfl | old
    · exact List.mem_append_left _ List.mem_cons_self
    · exact List.mem_append_right _ old

theorem namesFound_step {action : Action} (found : NamesFound w) (kept : NamesKept w) (stepped : step w action = some w') :
    NamesFound w' := by
  cases action with
  | addHandlerName name params tag skip_type_handler | addHandlerType params tag skip_type_handler =>
    obtain rfl := Option.some.inj stepped
    exact found.change _ _
  | clearHandlerName name params =>
    obtain rfl := Option.some.inj stepped
    exact found.change _ _
  | clearHandlersWithTag tag =>
    obtain ⟨map,-,rfl⟩ := Option.map_eq_some_iff.mp stepped
    exact found.change _ _
  | callName name params =>
    obtain rfl := Option.some.inj stepped
    unfold World.callName
    cases entry : w.map.find (.name ⟨name,params.type_index⟩) with
    | none =>
      intro call member undisturbed based
      rcases List.mem_append.mp member with going | gone
      · rcases List.mem_cons.mp going with rfl | old
        · cases based
        · exact found call (List.mem_append_left _ old) undisturbed based
      · exact found call (List.mem_append_right _ gone) undisturbed based
    | some i =>
      intro call member undisturbed based
      rcases List.mem_append.mp member with going | gone
      · rcases List.mem_cons.mp going with rfl | old
        · -- no loop holds anything, so that the entry has handlers
          have alone : w.calls = [] := List.isEmpty_iff.mp undisturbed
          change w.map.heap.live i ≠ []
          rw [← handlers_some entry]
          refine (kept _ i entry).resolve_right ?_
          rw [World.loops,alone]
          exact not_not.mpr rfl
        · exact found call (List.mem_append_left _ old) undisturbed based
      · exact found call (List.mem_append_right _ gone) undisturbed based
  | proceed =>
    obtain ⟨call,others,calls,cases⟩ := proceed_cases stepped
    rcases cases with ⟨l,b,types,stands,rfl⟩ | ⟨l,b,types,named,stands,rfl⟩ | ⟨types,closed,rfl⟩ | ⟨l,types,closed,rfl⟩
    · exact found.goesOn calls ⟨rfl,rfl,rfl⟩
    · refine found.goesOn calls ⟨rfl,rfl,?_⟩
      rw [Call.names,Call.names,named]
      exact proceed_registered l w.map.heap b
    · rcases callTypes_cases w call others with ⟨-,i,-,began⟩ | ⟨-,finished⟩
      · rw [began]
        exact found.goesOn calls ⟨rfl,rfl,rfl⟩
      · rw [finished]
        exact found.finish calls
    · exact found.finish calls

end steps

/-! ### Every run -/

/-- What the code decided by is right unless there is an entry without handlers. -/
theorem Settled.lawful_iff {call : Call} (settled : Settled call) :
    call.Lawful ↔ (call.caller_base.isSome → call.names ≠ []) ∨ call.type_registered = [] := by
  rw [Call.Lawful,settled.types]
  cases base : call.caller_base with
  | none =>
    have based := settled.named
    have nothing : call.names = [] := by
      rw [Call.names]
      cases named : call.named with
      | none => rfl
      | some l =>
        rw [base,named] at based
        cases based
    simp [nothing]
  | some i =>
    by_cases nothing : call.names = []
    · have same : ([] = call.type_registered) ↔ call.type_registered = [] := eq_comm
      simp [nothing,same]
    · simp [nothing]

theorem callsInv_run (actions : List Action) : CallsInv (run step {} actions) := by
  have keeps : Preserves step fun w => Inv w ∧ CallsInv w := by
    rintro w action w' ⟨inv,calls⟩ stepped
    exact ⟨(step_moves inv stepped).1,callsInv_step calls inv stepped⟩
  refine (keeps.run ⟨inv_empty,fun call member => ?_,fun call member => ?_⟩ actions).2
  · cases member
  · cases member

theorem namesFound_run {actions : List Action} (keeps : Along step World.Keeps {} actions) : NamesFound (run step {} actions) := by
  have step_keeps : ∀ w action w', Inv w ∧ NamesKept w ∧ NamesFound w → w.Keeps action → step w action = some w' →
      Inv w' ∧ NamesKept w' ∧ NamesFound w' := by
    rintro w action w' ⟨inv,kept,found⟩ met stepped
    exact ⟨(step_moves inv stepped).1,namesKept_step kept inv met stepped,namesFound_step found kept stepped⟩
  refine (Along.run step_keeps ⟨inv_empty,fun key i found => ?_,fun call member => ?_⟩ keeps).2.2
  · cases found
  · cases member

/-- A call that nothing disturbs goes on to the type handlers as it should where
    its name has no entry without handlers, and in runs where no loop lets go of
    the last block of such an entry every call does. -/
theorem type_handlers_run (actions : List Action) :
    (∀ call ∈ (run step {} actions).returned, call.undisturbed = true →
      (call.Lawful ↔ (call.caller_base.isSome → call.names ≠ []) ∨ call.type_registered = [])) ∧
    (Along step World.Keeps {} actions → ∀ call ∈ (run step {} actions).returned, call.undisturbed = true → call.Lawful) := by
  have lawful : ∀ call ∈ (run step {} actions).returned, call.undisturbed = true →
      (call.Lawful ↔ (call.caller_base.isSome → call.names ≠ []) ∨ call.type_registered = []) :=
    fun call member undisturbed => ((callsInv_run actions).returned call member undisturbed).lawful_iff
  refine ⟨lawful,fun keeps call member undisturbed => (lawful call member undisturbed).mpr (.inl ?_)⟩
  exact namesFound_run keeps call (List.mem_append_right _ member) undisturbed

/-- Two handlers of a name, of which the first one clears its tag while it runs,
    and a handler of the type. -/
def firstCleared : List Action :=
  [.addHandlerName [] ⟨1,2⟩ 1 true,.addHandlerName [] ⟨1,2⟩ 3 false,.addHandlerType ⟨1,2⟩ 2 false,.callName [] ⟨1,2⟩,.proceed,
    .clearHandlersWithTag 1] ++ List.replicate 8 .proceed ++ .callName [] ⟨1,2⟩ :: List.replicate 6 .proceed

theorem type_handlers_called : Along step World.Keeps {} firstCleared ∧
    ∃ call ∈ (run step {} firstCleared).returned, call.undisturbed = true ∧ call.names ≠ [] ∧ call.Lawful := by
  have keeps : Along step World.Keeps {} firstCleared := by decide +kernel
  have calls : ((run step {} firstCleared).returned.any fun call => call.undisturbed && !call.names.isEmpty) = true := by
    decide +kernel
  obtain ⟨call,member,facts⟩ := List.any_eq_true.mp calls
  obtain ⟨undisturbed,names⟩ := Bool.and_eq_true_iff.mp facts
  refine ⟨keeps,call,member,undisturbed,?_,(type_handlers_run firstCleared).2 keeps call member undisturbed⟩
  simpa using names

/-- The handler of a name clears its own tag while it runs, and the name is
    called again, which has a handler of the type. -/
def clearedByItself : List Action :=
  [.addHandlerName [] ⟨1,2⟩ 1 false,.addHandlerType ⟨1,2⟩ 2 false,.callName [] ⟨1,2⟩,.proceed,.clearHandlersWithTag 1,.proceed,
    .proceed,.proceed,.proceed,.proceed,.callName [] ⟨1,2⟩,.proceed]

theorem type_handlers_missed :
    ¬ ∀ actions, ∀ call ∈ (run step {} actions).returned, call.undisturbed = true → call.Lawful := by
  intro all
  have calls : ((run step {} clearedByItself).returned.any fun call =>
      call.undisturbed && call.names.isEmpty && call.typesInvoked.isEmpty && !call.type_registered.isEmpty) = true := by
    decide +kernel
  obtain ⟨call,member,facts⟩ := List.any_eq_true.mp calls
  simp only [Bool.and_eq_true,List.isEmpty_iff,Bool.not_eq_true',Bool.eq_false_iff,ne_eq] at facts
  obtain ⟨⟨⟨undisturbed,names⟩,invoked⟩,registered⟩ := facts
  have lawful := all clearedByItself call member undisturbed
  rw [Call.Lawful,names,invoked,if_pos (.inl rfl)] at lawful
  exact registered lawful.symm

end IpcPortable.EventCalls
