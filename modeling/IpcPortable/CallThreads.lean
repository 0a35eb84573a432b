import IpcPortable.EventHandlerMaps

/-!
`CallName` and `ClearHandlersWithTag` on several threads. What is done to a list
under its lock is one step. Letting go of a reference to a block is another one,
without any lock, and the destructor of a block whose last reference it was is
one more, which takes the lock first. `m_lock` is held while
`ClearHandlersWithTag` runs and for the one step in which `CallName` looks for
its lists or a handler is added. Every null pointer that `Front` or `GetNext`
returns is noted with the handlers that stand behind.
-/
namespace IpcPortable.CallThreads
open IpcPortable.LittleEndian IpcPortable.CallbackLists IpcPortable.ListShape IpcPortable.EventHandlerMaps

/-- Where a loop over the blocks of a list stands. -/
inductive Point
  /-- Before `Front`. -/
  | entry
  /-- Before `GetElement`. -/
  | block (el : Address)
  /-- With an element of the block that the loop is for, if there is one. -/
  | element (el : Address) (element : Option Caller)
  /-- `el` is null. -/
  | ended
deriving DecidableEq

/-- A loop over a list. `due` are the handlers that were in the list when
    `CallName` looked for it, and are neither removed nor called since. -/
structure Walk where
  source : Source
  callers : CallersPtr
  point : Point := .entry
  due : List Caller := []

/-- `CallName` with its two loops, and `ClearHandlersWithTag` with the loops over
    the entries that are left. -/
inductive Frame
  | callName (names types : Option Walk) (call_type_handler : Bool)
  | clearHandlersWithTag (tag : Tag) (walks : List Walk)

/-- What a thread does with a shared pointer that goes out of scope. -/
inductive Release
  | drop (callers : CallersPtr) (cb : Address)
  /-- `~CtrlBlock`. -/
  | dtor (callers : CallersPtr) (cb : Address)
structure Thread where
  frames : List Frame := []
  releases : List Release := []

/-- The map and the threads, with the calls that have returned, the handlers in
    the lists of erased entries, and those behind null pointers. -/
structure World where
  map : EventHandlerMap := {}
  m_lock : Option Nat := none
  threads : List Thread
  returned : List Frame := []
  erased : List (List Caller) := []
  nulls : List (List Caller) := []

/-! ### Loops -/

def Point.el : Point → Option Address
  | .block el | .element el _ => some el
  | .entry | .ended => none
def Point.ofNext : Option Address → Point
  | some el => .block el
  | none => .ended
/-- The handler that ran does not skip the type handlers. -/
def Point.asks : Point → Bool
  | .element _ (some caller) => !caller.skip_type_handler
  | .element _ none | .entry | .block _ | .ended => false
/-- The blocks behind `el`, all of them where it is null. -/
def behind (heap : Heap) (callers : CallersPtr) : Option Address → List Address
  | some el => (after el (heap.ring callers)).tail
  | none => heap.ring callers
def followers (heap : Heap) (callers : CallersPtr) (el : Option Address) : List Caller :=
  elements (heap.lists callers) (behind heap callers el)
/-- `GetNext`, and `Front` where there is no block yet. -/
def nextBlock (list : CallbackList Caller) : Option Address → Option Address × CallbackList Caller
  | some el => list.getNext el
  | none => list.front
/-- A loop that begins when `CallName` has found the list. -/
def Walk.enter (heap : Heap) (source : Source) (callers : CallersPtr) : Walk :=
  { source := source, callers := callers, due := heap.live callers }
def Walk.forget (callers : CallersPtr) (caller : Caller) (walk : Walk) : Walk :=
  if walk.callers = callers then { walk with due := walk.due.filter fun one => one ≠ caller } else walk

/-- What the body of a loop does next with its list. -/
inductive Task
  | getElement (el : Address)
  | removeFromList (element : Caller)
  /-- `GetNext`, or `Front` at the beginning. -/
  | fetch
  /-- `!callers.Front()` behind the loop. -/
  | look

namespace Frame

def walks : Frame → List Walk
  | callName names types _ => names.toList ++ types.toList
  | clearHandlersWithTag _ walks => walks
/-- The loop that goes on. -/
def current : Frame → Option Walk
  | callName names types call_type_handler =>
    (names.filter fun walk => walk.point ≠ .ended).or
      (types.filter fun walk => walk.point ≠ .ended ∧ (walk.point = .entry → call_type_handler))
  | clearHandlersWithTag _ walks => walks.head?
def setCurrent (walk : Walk) : Frame → Frame
  | callName names types call_type_handler =>
    if names.any fun walk => walk.point ≠ .ended then callName (some walk) types call_type_handler
    else callName names (some walk) call_type_handler
  | clearHandlersWithTag tag walks => clearHandlersWithTag tag (walk :: walks.tail)
/-- The elements that the loop is for. -/
def takes (walk : Walk) : Frame → Caller → Bool
  | callName _ _ _, caller => caller.params_type = walk.source.params_type
  | clearHandlersWithTag tag _, caller => caller.tag = tag
/-- The loop leaves a block. -/
def leave (point : Point) : Frame → Frame
  | callName names types call_type_handler => callName names types (call_type_handler || point.asks)
  | clearHandlersWithTag tag walks => clearHandlersWithTag tag walks
def running (frame : Frame) : Bool :=
  match frame,frame.current with
  | callName _ _ _,some walk =>
    match walk.point with
    | .element _ (some _) => true
    | .element _ none | .entry | .block _ | .ended => false
  | _,_ => false
def task : Frame → Point → Task
  | _, .block el => .getElement el
  | clearHandlersWithTag _ _, .element _ (some element) => .removeFromList element
  | clearHandlersWithTag _ _, .ended => .look
  | _, _ => .fetch
/-- `++it`, or what is behind the erased entry. -/
def nextEntry : Frame → Frame
  | clearHandlersWithTag tag walks => clearHandlersWithTag tag walks.tail
  | callName names types call_type_handler => callName names types call_type_handler
def map (f : Walk → Walk) : Frame → Frame
  | callName names types call_type_handler => callName (names.map f) (types.map f) call_type_handler
  | clearHandlersWithTag tag walks => clearHandlersWithTag tag (walks.map f)

end Frame

/-- Nothing is left to let go of, and a handler runs or nothing. -/
def Thread.free (thread : Thread) : Bool := thread.releases.isEmpty && thread.frames.head?.all Frame.running

/-! ### Steps -/

/-- The loops of `RemoveTagFromMap_Locked` over both maps. -/
def entries (m : EventHandlerMap) : List Walk :=
  m.m_name_procs.map (fun entry => { source := .name entry.1, callers := entry.2 }) ++
    m.m_type_procs.map fun entry => { source := .type entry.1, callers := entry.2 }
def erase (m : EventHandlerMap) : Source → EventHandlerMap
  | .name key => { m with m_name_procs := m.m_name_procs.filter fun entry => entry.1 ≠ key }
  | .type key_name => { m with m_type_procs := m.m_type_procs.filter fun entry => entry.1 ≠ key_name }

namespace World

def setThread (w : World) (t : Nat) (thread : Thread) : World := { w with threads := w.threads.set t thread }
def setLock (w : World) (owner : Option Nat) : World := { w with m_lock := owner }
def setMap (w : World) (map : EventHandlerMap) : World := { w with map := map }
def setList (w : World) (callers : CallersPtr) (list : CallbackList Caller) : World :=
  w.setMap ⟨w.map.m_name_procs,w.map.m_type_procs,w.map.heap.setList callers list⟩
/-- No loop waits for a handler that is removed. -/
def forget (w : World) (callers : CallersPtr) (caller : Caller) : World :=
  { w with threads := w.threads.map fun thread => ⟨thread.frames.map (Frame.map (Walk.forget callers caller)),thread.releases⟩ }
/-- `Front` or `GetNext`. -/
def fetch (w : World) (callers : CallersPtr) (el : Option Address) : Option Address × World :=
  let (el',list) := nextBlock (w.map.heap.lists callers) el
  let nulls := if el'.isNone then followers w.map.heap callers el :: w.nulls else w.nulls
  (el',{ w.setList callers list with nulls := nulls })
/-- `it = map_procs.erase(it)`, noting the handlers that were in the list. -/
def eraseEntry (w : World) (source : Source) (handlers : List Caller) : World :=
  { w with map := erase w.map source, erased := handlers :: w.erased }
/-- `RemoveFromList` up to the end of the lock, on a thread that then has the
    frames. -/
def remove (w : World) (t : Nat) (callers : CallersPtr) (element : Caller) (frames : List Frame) : World :=
  let (delete_unlocked,list) := (w.map.heap.lists callers).removeFromListLocked element
  ((w.setList callers list).setThread t ⟨frames,delete_unlocked.cb.toList.map (.drop callers)⟩).forget callers element

/-- A reference is let go, or a destructor runs. -/
def release (w : World) (t : Nat) (thread : Thread) : Release → World
  | .drop callers cb =>
    let list := (w.map.heap.lists callers).dropRef cb
    let dtor := if (list.blocks cb).use_count = 0 then [Release.dtor callers cb] else []
    (w.setList callers list).setThread t ⟨thread.frames,dtor ++ thread.releases⟩
  | .dtor callers cb => (w.setList callers ((w.map.heap.lists callers).ctrlBlockDtor cb)).setThread t thread
/-- The function returns. -/
def finish (w : World) (t : Nat) (frame : Frame) (frames : List Frame) : World :=
  match frame with
  | .callName _ _ _ => { w.setThread t ⟨frames,[]⟩ with returned := frame :: w.returned }
  | .clearHandlersWithTag _ _ => (w.setThread t ⟨frames,[]⟩).setLock none
/-- The loop of the innermost function goes on. -/
def perform (w : World) (t : Nat) (frame : Frame) (frames : List Frame) (walk : Walk) : Task → World
  | .getElement el =>
    let element := ((w.map.heap.lists walk.callers).getElement el).filter (frame.takes walk)
    let due := walk.due.filter fun caller => some caller ≠ element
    w.setThread t ⟨frame.setCurrent ⟨walk.source,walk.callers,.element el element,due⟩ :: frames,[]⟩
  | .removeFromList element =>
    let point := walk.point.el.elim Point.ended fun el => .element el none
    w.remove t walk.callers element (frame.setCurrent ⟨walk.source,walk.callers,point,walk.due⟩ :: frames)
  | .fetch =>
    let (el,w) := w.fetch walk.callers walk.point.el
    let frame := (frame.leave walk.point).setCurrent ⟨walk.source,walk.callers,.ofNext el,walk.due⟩
    w.setThread t ⟨frame :: frames,walk.point.el.toList.map (.drop walk.callers)⟩
  | .look =>
    match w.fetch walk.callers none with
    | (some cb,w) => w.setThread t ⟨frame.nextEntry :: frames,[.drop walk.callers cb]⟩
    | (none,w') => (w'.eraseEntry walk.source (w.map.heap.live walk.callers)).setThread t ⟨frame.nextEntry :: frames,[]⟩
def proceed (w : World) (t : Nat) (thread : Thread) : Option World :=
  match thread.releases,thread.frames with
  | release :: releases, frames => some (w.release t ⟨frames,releases⟩ release)
  | [], [] => none
  | [], frame :: frames =>
    match frame.current with
    | some walk => some (w.perform t frame frames walk (frame.task walk.point))
    | none => some (w.finish t frame frames)
/-- `CallName` when it has looked for its lists. -/
def call (w : World) (key : Key) (key_name : TypeIndex) : Frame :=
  let names := (w.map.find (.name key)).map (Walk.enter w.map.heap (.name key))
  let types := (w.map.find (.type key_name)).map (Walk.enter w.map.heap (.type key_name))
  .callName names types names.isNone

end World

inductive Action
  | addHandler (source : Source) (tag : Tag) (skip_type_handler : Bool)
  | clearHandlersWithTag (tag : Tag)
  | callName (key : Key) (key_name : TypeIndex)
  /-- `Element::RemoveFromList`. -/
  | removeFromList (callers : CallersPtr) (element : Caller)
  /-- The thread goes on with what it does. -/
  | proceed

def World.act (w : World) (t : Nat) (thread : Thread) : Action → Option World
  | .proceed => w.proceed t thread
  | .addHandler source tag skip_type_handler =>
    if thread.free ∧ w.m_lock = none then some (w.setMap (w.map.addHandler source tag skip_type_handler).1) else none
  | .clearHandlersWithTag tag =>
    if thread.free ∧ w.m_lock = none then
      some ((w.setThread t ⟨.clearHandlersWithTag tag (entries w.map) :: thread.frames,[]⟩).setLock (some t))
    else none
  | .callName key key_name =>
    if thread.free ∧ w.m_lock = none then some (w.setThread t ⟨w.call key key_name :: thread.frames,[]⟩) else none
  | .removeFromList callers element =>
    if thread.free ∧ (w.map.heap.lists callers).m_base.isSome then some (w.remove t callers element thread.frames) else none
/-- A step of one of the threads. -/
def step (w : World) (action : Nat × Action) : Option World :=
  w.threads[action.1]?.bind fun thread => w.act action.1 thread action.2
/-- Threads that have done nothing yet. -/
def World.start (n : Nat) : World := { threads := List.replicate n {} }

/-- What the next step of a thread fetches, if it does. -/
def World.fetches (w : World) (action : Nat × Action) : Option (CallersPtr × Option Address) :=
  match action.2,w.threads[action.1]? with
  | .proceed,some ⟨frame :: _,[]⟩ => frame.current.bind fun walk =>
    match frame.task walk.point with
    | .fetch => some (walk.callers,walk.point.el)
    | .look => some (walk.callers,none)
    | .getElement _ | .removeFromList _ => none
  | _,_ => none
/-- The next block has an owner, or no handler stands behind the position. -/
def NextOwned (heap : Heap) (callers : CallersPtr) (el : Option Address) : Prop :=
  ∀ c ∈ (behind heap callers el).head?, ((heap.lists callers).blocks c).use_count = 0 → followers heap callers el = []
def World.Owned (w : World) (action : Nat × Action) : Prop :=
  ∀ one ∈ w.fetches action, NextOwned w.map.heap one.1 one.2

end IpcPortable.CallThreads
