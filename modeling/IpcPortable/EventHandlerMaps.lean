import IpcPortable.ListWalks
import IpcPortable.LittleEndian
import IpcPortable.OrderedMaps
import Mathlib.Data.List.Lex
import Mathlib.Data.Prod.Lex

/-!
`EventHandlerMap`: lists of handlers for the names and for the types of events.
Handlers are added to the list of their key, which is made when it is missing,
and removed by their tags; an entry goes when its list looks empty from the
front. One counter gives every new object its address.
-/
namespace IpcPortable.EventHandlerMaps
open IpcPortable.Rings IpcPortable.LittleEndian IpcPortable.OrderedMaps IpcPortable.CallbackLists IpcPortable.ListShape

/-- A `std::type_index`. -/
abbrev TypeIndex := Nat
abbrev Tag := Nat
/-- A pointer to `Callers`. -/
abbrev CallersPtr := Nat

structure Key where
  name : List Byte
  params_type : TypeIndex
deriving DecidableEq

/-- `Key::operator<` compares the types first, and the names as unsigned bytes. -/
def Key.order (key : Key) : Lex (TypeIndex × List Nat) := toLex (key.params_type,key.name.map BitVec.toNat)

theorem key_order_injective : Function.Injective Key.order := by
  rintro ⟨name,params_type⟩ ⟨name',params_type'⟩ same
  have both := toLex.injective same
  simp only [Prod.mk.injEq] at both
  have names : name = name' := List.map_injective_iff.mpr (fun _ _ same => BitVec.eq_of_toNat_eq same) both.2
  rw [both.1,names]

instance : LinearOrder Key := LinearOrder.lift' Key.order key_order_injective

/-- What handlers are for: the events of a name, or of a type. -/
inductive Source
  | name (key : Key)
  | type (key_name : TypeIndex)
deriving DecidableEq
/-- The arguments of the `CallerArgs` that are in a list. -/
def Source.params_type : Source → TypeIndex
  | .name key => key.params_type
  | .type key_name => key_name

/-- A `CallerArgs` at its address, with what a `dynamic_cast` finds of its type. -/
structure Caller where
  id : Nat
  params_type : TypeIndex
  tag : Tag
  skip_type_handler : Bool
deriving DecidableEq

/-- All `Callers`, what each was made for, and the next free address. -/
structure Heap where
  lists : CallersPtr → CallbackList Caller := fun _ => { m_shared_lock := 0 }
  made_for : CallersPtr → Source := fun _ => .type 0
  fresh : Nat := 0
structure EventHandlerMap where
  m_name_procs : List (Key × CallersPtr) := []
  m_type_procs : List (TypeIndex × CallersPtr) := []
  heap : Heap := {}

def Heap.setList (heap : Heap) (callers : CallersPtr) (list : CallbackList Caller) : Heap :=
  { heap with lists := Function.update heap.lists callers list }
/-- `std::make_shared<Callers>()`. -/
def Heap.makeCallers (heap : Heap) (source : Source) : Heap where
  lists := Function.update heap.lists heap.fresh (CallbackList.create heap.fresh (heap.fresh + 1))
  made_for := Function.update heap.made_for heap.fresh source
  fresh := heap.fresh + 2
/-- The new `Caller` that is pushed, and its block. -/
def Heap.pushCaller (heap : Heap) (callers : CallersPtr) (caller : Caller) : Heap :=
  { heap.setList callers ((heap.lists callers).pushBack (some caller) (heap.fresh + 1)) with fresh := heap.fresh + 2 }

section procs
variable {κ : Type} [LinearOrder κ]

/-- `FindCaller_Locked`. -/
def findCallerLocked (procs_map : List (κ × CallersPtr)) (key : κ) : Option CallersPtr := lookup key procs_map

/-- `AddHandlerProc`: the map and the heap behind it, and the caller. -/
def addHandlerProc (heap : Heap) (source : Source) (procs_map : List (κ × CallersPtr)) (key : κ) (tag : Tag)
    (skip_type_handler : Bool) : List (κ × CallersPtr) × Heap × Caller :=
  let (callers,procs_map,heap) := match findCallerLocked procs_map key with
    | some callers => (callers,procs_map,heap)
    | none => (heap.fresh,insert key heap.fresh procs_map,heap.makeCallers source)
  let caller : Caller := ⟨heap.fresh,source.params_type,tag,skip_type_handler⟩
  (procs_map,heap.pushCaller callers caller,caller)

/-- `!callers.Front()`, with the temporary pointer. -/
def looksEmpty (list : CallbackList Caller) : Bool × CallbackList Caller :=
  match list.front with
  | (some cb,list) => (false,list.reset cb)
  | (none,list) => (true,list)
/-- `RemoveTagFromMap_Locked`. Its loops have as many rounds as there are
    addresses in use, which is enough. -/
def removeTagFromMapLocked (tag : Tag) : Heap → List (κ × CallersPtr) → Option (List (κ × CallersPtr) × Heap)
  | heap, [] => some ([],heap)
  | heap, entry :: others => do
    let (el,list) := (heap.lists entry.2).front
    let list ← CallbackList.removeLoop (fun element => element.tag = tag) heap.fresh list el
    let (empty,list) := looksEmpty list
    let (others,heap) ← removeTagFromMapLocked tag (heap.setList entry.2 list) others
    pure (if empty then others else entry :: others,heap)

end procs

namespace EventHandlerMap

/-- The list for the events of a name or of a type. -/
def find (m : EventHandlerMap) : Source → Option CallersPtr
  | .name key => findCallerLocked m.m_name_procs key
  | .type key_name => findCallerLocked m.m_type_procs key_name
/-- `AddHandlerName` and `AddHandlerType`, with the other functions that add. -/
def addHandler (m : EventHandlerMap) (source : Source) (tag : Tag) (skip_type_handler : Bool) : EventHandlerMap × Caller :=
  match source with
  | .name key =>
    let (m_name_procs,heap,caller) := addHandlerProc m.heap source m.m_name_procs key tag skip_type_handler
    ({ m with m_name_procs := m_name_procs, heap := heap },caller)
  | .type key_name =>
    let (m_type_procs,heap,caller) := addHandlerProc m.heap source m.m_type_procs key_name tag skip_type_handler
    ({ m with m_type_procs := m_type_procs, heap := heap },caller)
/-- `ClearHandlerName`. -/
def clearHandlerName (m : EventHandlerMap) (key : Key) : EventHandlerMap :=
  { m with m_name_procs := m.m_name_procs.filter fun entry => entry.1 ≠ key }
/-- `ClearHandlersWithTag`. -/
def clearHandlersWithTag (m : EventHandlerMap) (tag : Tag) : Option EventHandlerMap := do
  let (m_name_procs,heap) ← removeTagFromMapLocked tag m.heap m.m_name_procs
  let (m_type_procs,heap) ← removeTagFromMapLocked tag heap m.m_type_procs
  pure ⟨m_name_procs,m_type_procs,heap⟩

end EventHandlerMap

/-- The blocks of a list, and the handlers in it, as a walk finds them. -/
def Heap.ring (heap : Heap) (callers : CallersPtr) : List Address :=
  match (heap.lists callers).m_base with
  | none => []
  | some base => (heap.lists callers).links.walk base heap.fresh base
def Heap.live (heap : Heap) (callers : CallersPtr) : List Caller := elements (heap.lists callers) (heap.ring callers)
/-- The handlers that are registered for the events of a source, in their order. -/
def EventHandlerMap.handlers (m : EventHandlerMap) (source : Source) : List Caller := (m.find source).elim [] m.heap.live

end IpcPortable.EventHandlerMaps
