import IpcPortable.EventHandlerMaps

/-!
`CallName` on one thread. A call goes through the handlers of the name and then,
if it has to, through those of the type; while a handler runs it may change the
map and make further calls. The innermost call goes on step by step: it starts
the handler of the next block, or its handler returns and the loop moves on.
Beside its variables a loop keeps what happened to its list since it began.
-/
namespace IpcPortable.EventCalls
open IpcPortable.LittleEndian IpcPortable.CallbackLists IpcPortable.ListShape IpcPortable.EventHandlerMaps

inductive Event
  /-- The loop calls the handler. -/
  | invoked (caller : Caller)
  /-- A handler was added for the same events. -/
  | added (caller : Caller)
  /-- `ClearHandlersWithTag` took the handler out of the list. -/
  | removed (caller : Caller)
  /-- `ClearHandlerName` erased the entry. -/
  | nameCleared
deriving DecidableEq

/-- A loop over the handlers of a list: `element` is the one whose handler runs.
    The rest is history: the handlers and blocks at the beginning, how many
    blocks were passed, and what happened while the loop ran. -/
structure Loop where
  source : Source
  callers : CallersPtr
  el : Option Address
  element : Option Caller := none
  registered : List Caller
  blocks : Nat
  turns : Nat := 0
  history : List Event := []
/-- `CallName`. `type_registered` are the type handlers when it began, and it is
    `undisturbed` when no other call was going on and nothing changed the map. -/
structure Call where
  key : Key
  key_name : TypeIndex
  caller_base : Option CallersPtr
  caller_base_name : Option CallersPtr
  call_type_handler : Bool
  named : Option Loop := none
  types : Option Loop := none
  type_registered : List Caller
  undisturbed : Bool
/-- The map, the calls that are going on, the innermost first, and those that
    have returned. -/
structure World where
  map : EventHandlerMap := {}
  calls : List Call := []
  returned : List Call := []

/-- The two types that `TypeCheckParams` stands for. -/
structure TypeCheckParams where
  type_index : TypeIndex
  name_type_index : TypeIndex

namespace Loop

/-- `el = callers.Front()`. -/
def start (heap : Heap) (source : Source) (callers : CallersPtr) : Loop × Heap :=
  let (el,list) := (heap.lists callers).front
  ({ source := source
     callers := callers
     el := el
     registered := heap.live callers
     blocks := (heap.ring callers).length },heap.setList callers list)
/-- `el = callers.GetNext(el)`. -/
def advance (l : Loop) (heap : Heap) (el : Address) : Loop × Heap :=
  let (next,list) := (heap.lists l.callers).getNext el
  ({ l with el := next, element := none, turns := l.turns + 1 },heap.setList l.callers (list.reset el))
/-- `GetElement` and the `dynamic_cast`. -/
def callerAt (l : Loop) (heap : Heap) (el : Address) : Option Caller :=
  ((heap.lists l.callers).getElement el).filter fun caller => caller.params_type = l.source.params_type
/-- The loop goes on: its handler has returned, or it looks at the block. -/
def proceed (l : Loop) (heap : Heap) (el : Address) : Loop × Heap :=
  match l.element with
  | some _ => l.advance heap el
  | none =>
    match l.callerAt heap el with
    | some caller => ({ l with element := some caller, history := l.history ++ [.invoked caller] },heap)
    | none => l.advance heap el
/-- What happened to the list is only of interest while the loop runs. -/
def note (events : Loop → List Event) (l : Loop) : Loop :=
  if l.el.isSome then { l with history := l.history ++ events l } else l

end Loop

def Call.loops (call : Call) : List Loop := call.types.toList ++ call.named.toList
def Call.note (events : Loop → List Event) (call : Call) : Call :=
  { call with
    named := call.named.map (Loop.note events)
    types := call.types.map (Loop.note events)
    undisturbed := false }
def World.loops (w : World) : List Loop := w.calls.flatMap Call.loops

/-- The map is changed. -/
def World.change (w : World) (map : EventHandlerMap) (events : Loop → List Event) : World :=
  { w with map := map, calls := w.calls.map (Call.note events) }
/-- The lists as they are now, and the calls. -/
def World.withCalls (w : World) (heap : Heap) (calls : List Call) : World :=
  ⟨⟨w.map.m_name_procs,w.map.m_type_procs,heap⟩,calls,w.returned⟩
/-- `CallName` returns. -/
def World.finish (w : World) (call : Call) (others : List Call) : World := ⟨w.map,others,call :: w.returned⟩
/-- `CallName` behind the loop over the names. -/
def World.callTypes (w : World) (call : Call) (others : List Call) : World :=
  match call.call_type_handler,call.caller_base_name with
  | true,some callers =>
    let (l,heap) := Loop.start w.map.heap (.type call.key_name) callers
    w.withCalls heap ({ call with types := some l } :: others)
  | _,_ => w.finish call others
/-- `CallName` up to the first block. -/
def World.callName (w : World) (key : Key) (key_name : TypeIndex) : World :=
  let caller_base := w.map.find (.name key)
  let caller_base_name := w.map.find (.type key_name)
  let call : Call :=
    { key := key
      key_name := key_name
      caller_base := caller_base
      caller_base_name := caller_base_name
      call_type_handler := caller_base.isNone
      type_registered := w.map.handlers (.type key_name)
      undisturbed := w.calls.isEmpty }
  match caller_base with
  | none => w.withCalls w.map.heap (call :: w.calls)
  | some callers =>
    let (l,heap) := Loop.start w.map.heap (.name key) callers
    w.withCalls heap ({ call with named := some l } :: w.calls)
/-- The handler of a name returns: `call_type_handler |= !caller->skip_type_handler`. -/
def Call.handlerReturns (call : Call) (element : Option Caller) : Bool :=
  match element with
  | some caller => call.call_type_handler || !caller.skip_type_handler
  | none => call.call_type_handler
/-- The innermost call goes on. -/
def World.proceed (w : World) : Option World :=
  match w.calls with
  | [] => none
  | call :: others =>
    match call.types with
    | some l =>
      match l.el with
      | some el =>
        let (l,heap) := l.proceed w.map.heap el
        some (w.withCalls heap ({ call with types := some l } :: others))
      | none => some (w.finish call others)
    | none =>
      match call.named with
      | some l =>
        match l.el with
        | some el =>
          let call_type_handler := call.handlerReturns l.element
          let (l,heap) := l.proceed w.map.heap el
          some (w.withCalls heap ({ call with named := some l, call_type_handler := call_type_handler } :: others))
        | none => some (w.callTypes call others)
      | none => some (w.callTypes call others)

inductive Action
  | addHandlerName (name : List Byte) (params : TypeCheckParams) (tag : Tag) (skip_type_handler : Bool)
  | addHandlerType (params : TypeCheckParams) (tag : Tag) (skip_type_handler : Bool)
  | clearHandlerName (name : List Byte) (params : TypeCheckParams)
  | clearHandlersWithTag (tag : Tag)
  | callName (name : List Byte) (params : TypeCheckParams)
  | proceed
/-- A handler is added for the events of a source. -/
def World.addHandler (w : World) (source : Source) (tag : Tag) (skip_type_handler : Bool) : World :=
  let (map,caller) := w.map.addHandler source tag skip_type_handler
  w.change map fun l => if l.source = source then [.added caller] else []
/-- The handlers with the tag that the loop could still see go. -/
def World.removedFrom (w : World) (tag : Tag) (l : Loop) : List Event :=
  if w.map.find l.source = some l.callers then
    ((w.map.heap.live l.callers).filter fun caller => caller.tag = tag).map .removed
  else []
/-- `ClearHandlerName`. -/
def World.clearHandlerName (w : World) (key : Key) : World :=
  w.change (w.map.clearHandlerName key) fun l => if l.source = .name key then [.nameCleared] else []
def step (w : World) : Action → Option World
  | .addHandlerName name params tag skip_type_handler =>
    some (w.addHandler (.name ⟨name,params.type_index⟩) tag skip_type_handler)
  | .addHandlerType params tag skip_type_handler => some (w.addHandler (.type params.name_type_index) tag skip_type_handler)
  | .clearHandlerName name params => some (w.clearHandlerName ⟨name,params.type_index⟩)
  | .clearHandlersWithTag tag => (w.map.clearHandlersWithTag tag).map fun map => w.change map (w.removedFrom tag)
  | .callName name params => some (w.callName ⟨name,params.type_index⟩ params.name_type_index)
  | .proceed => w.proceed

end IpcPortable.EventCalls
