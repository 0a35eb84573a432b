import IpcPortable.Rings

/-!
`CallbackList`: a ring of control blocks through a sentinel. A block is owned by
the element that it was made for and by every iterator that stands on it. The
element may be taken out at any time; the block stays in the ring until its last
owner lets go, and its destructor unlinks it.
-/
namespace IpcPortable.CallbackLists
open IpcPortable.Rings
set_option linter.unusedSectionVars false
variable {ε : Type} [DecidableEq ε]

/-- A `CtrlBlock*`. -/
abbrev Address := Nat
/-- A `std::recursive_mutex`, as its owner shares it. -/
abbrev SharedLock := Nat

/-- `CtrlBlock` but for `next` and `prev`, with the number of its owners. -/
structure CtrlBlock (ε : Type) where
  shared_lock : SharedLock := 0
  element : Option ε := none
  curr : Option Address := none
  use_count : Nat := 0

/-- `CallbackList` with the control blocks and the `m_cb` of all elements.
    `m_base` is the `m_cb` of the member of that name, the sentinel. -/
structure CallbackList (ε : Type) where
  links : Links Address := ⟨id,id⟩
  blocks : Address → CtrlBlock ε := fun _ => {}
  alive : Address → Bool := fun _ => false
  m_cb : ε → Option Address := fun _ => none
  m_shared_lock : SharedLock
  m_base : Option Address := none

/-- What `RemoveFromList_Locked` hands out, to be destroyed behind the lock. -/
structure DeleteUnlocked (ε : Type) where
  el : Option ε := none
  cb : Option Address := none

namespace CallbackList

def modify (s : CallbackList ε) (b : Address) (f : CtrlBlock ε → CtrlBlock ε) : CallbackList ε :=
  { s with blocks := Function.update s.blocks b (f (s.blocks b)) }
def setCb (s : CallbackList ε) (e : ε) (cb : Option Address) : CallbackList ε :=
  { s with m_cb := Function.update s.m_cb e cb }
/-- `std::make_shared<CtrlBlock>` where the allocator has a free place. -/
def makeShared (s : CallbackList ε) (address : Address) : CallbackList ε :=
  { s with
    links := s.links.single address
    blocks := Function.update s.blocks address { shared_lock := s.m_shared_lock, use_count := 1 }
    alive := Function.update s.alive address true }
/-- `CallbackList()`. -/
def create (shared_lock : SharedLock) (address : Address) : CallbackList ε :=
  { makeShared { m_shared_lock := shared_lock } address with m_base := some address }

/-- One more owner. -/
def acquire (s : CallbackList ε) (b : Address) : CallbackList ε :=
  s.modify b fun block => { block with use_count := block.use_count + 1 }
/-- One owner less. -/
def dropRef (s : CallbackList ε) (b : Address) : CallbackList ε :=
  s.modify b fun block => { block with use_count := block.use_count - 1 }
/-- `curr.lock()`: a block without owners gives no pointer. -/
def lockCurr (s : CallbackList ε) (b : Address) : Option Address × CallbackList ε :=
  match (s.blocks b).curr with
  | none => (none,s)
  | some cb => if (s.blocks cb).use_count = 0 then (none,s) else (some cb,s.acquire cb)

/-- `CtrlBlock::IsInList_Locked`. -/
def isInListLocked (s : CallbackList ε) (b : Address) : Bool := s.links.next b ≠ b
/-- `CtrlBlock::RemoveFromList_Locked`. -/
def unlinkLocked (s : CallbackList ε) (b : Address) : CallbackList ε :=
  if s.isInListLocked b then { s with links := s.links.unlink b } else s
/-- `~CtrlBlock`. -/
def ctrlBlockDtor (s : CallbackList ε) (b : Address) : CallbackList ε :=
  { s.unlinkLocked b with alive := Function.update s.alive b false }
/-- A shared pointer lets go, and runs the destructor when it was the last one. -/
def reset (s : CallbackList ε) (b : Address) : CallbackList ε :=
  let s := s.dropRef b
  if (s.blocks b).use_count = 0 then s.ctrlBlockDtor b else s

/-- `LockSameCheck`. -/
def lockSameCheck (s : CallbackList ε) (other_cb : Address) : Bool := (s.blocks other_cb).shared_lock = s.m_shared_lock
/-- `GetElement`. -/
def getElement (s : CallbackList ε) (current : Address) : Option ε :=
  if s.lockSameCheck current then (s.blocks current).element else none
/-- `GetNext`. -/
def getNext (s : CallbackList ε) (current : Address) : Option Address × CallbackList ε :=
  if s.lockSameCheck current then
    if s.m_base = some (s.links.next current) then (none,s) else s.lockCurr (s.links.next current)
  else (none,s)
/-- `Front`. -/
def front (s : CallbackList ε) : Option Address × CallbackList ε :=
  match s.m_base with
  | none => (none,s)
  | some base => if s.isInListLocked base then s.lockCurr (s.links.next base) else (none,s)

/-- `Element::RemoveFromList_Locked`. -/
def removeFromListLocked (s : CallbackList ε) (e : ε) : DeleteUnlocked ε × CallbackList ε :=
  match s.m_cb e with
  | none => ({},s)
  | some cb => (⟨(s.blocks cb).element,some cb⟩,(s.setCb e none).modify cb fun block => { block with element := none })
/-- `~Delete_Unlocked`. An element that goes with its last owner is in no list. -/
def destroyUnlocked (s : CallbackList ε) (delete_unlocked : DeleteUnlocked ε) : CallbackList ε :=
  match delete_unlocked.cb with
  | none => s
  | some cb => s.reset cb
/-- `Element::RemoveFromList`, and `~Element`. -/
def removeFromList (s : CallbackList ε) (e : ε) : CallbackList ε :=
  let (delete_unlocked,s) := s.removeFromListLocked e
  s.destroyUnlocked delete_unlocked

/-- How `LockAddPrepare` takes out an element that is in the list. -/
def takeListed (s : CallbackList ε) (add_element : ε) : DeleteUnlocked ε × CallbackList ε :=
  match s.m_cb add_element with
  | some cb => if s.isInListLocked cb then s.removeFromListLocked add_element else ({},s)
  | none => ({},s)
/-- `LockAddPrepare`, for an element that is not null. -/
def lockAddPrepare (s : CallbackList ε) (add_element : ε) (address : Address) : DeleteUnlocked ε × CallbackList ε :=
  let (delete_unlocked,s) := s.takeListed add_element
  let (cb,s) := match s.m_cb add_element with
    | some cb => (cb,s)
    | none => (address,(s.makeShared address).setCb add_element (some address))
  (delete_unlocked,s.modify cb fun block => { block with element := some add_element, curr := some cb })
/-- `PrepareAdd_Locked` and the assignments of `AddBefore_Locked` or
    `AddAfter_Locked`. -/
def addLocked (s : CallbackList ε) (insert : Links Address → Address → Address → Links Address) (this : Address)
    (element : ε) : CallbackList ε :=
  match s.m_cb element with
  | none => s
  | some cb =>
    let s := s.modify cb fun block => { block with curr := some cb }
    { s with links := insert s.links this cb }
/-- `PushBack` or `PushFront` up to the end of the lock. -/
def push (s : CallbackList ε) (insert : Links Address → Address → Address → Links Address) (element : Option ε)
    (address : Address) : DeleteUnlocked ε × CallbackList ε :=
  match element,s.m_base with
  | some e,some base =>
    let (delete_unlocked,s) := s.lockAddPrepare e address
    (delete_unlocked,s.addLocked insert base e)
  | _,_ => ({},s)
def pushBackLocked (s : CallbackList ε) (element : Option ε) (address : Address) : DeleteUnlocked ε × CallbackList ε :=
  s.push Links.insertBefore element address
def pushFrontLocked (s : CallbackList ε) (element : Option ε) (address : Address) : DeleteUnlocked ε × CallbackList ε :=
  s.push Links.insertAfter element address
def pushBack (s : CallbackList ε) (element : Option ε) (address : Address) : CallbackList ε :=
  let (delete_unlocked,s) := s.pushBackLocked element address
  s.destroyUnlocked delete_unlocked
def pushFront (s : CallbackList ε) (element : Option ε) (address : Address) : CallbackList ε :=
  let (delete_unlocked,s) := s.pushFrontLocked element address
  s.destroyUnlocked delete_unlocked

/-- What a loop that removes elements does with the one it has found. -/
def removeElement (chosen : ε → Bool) (s : CallbackList ε) (cb : Address) : CallbackList ε :=
  match s.getElement cb with
  | some el => if chosen el then s.removeFromList el else s
  | none => s
/-- A loop from block to block that removes the chosen elements, in so many rounds. -/
def removeLoop (chosen : ε → Bool) : Nat → CallbackList ε → Option Address → Option (CallbackList ε)
  | _, s, none => some s
  | 0, _, some _ => none
  | rounds + 1, s, some cb =>
    let s := s.removeElement chosen cb
    let (next,s) := s.getNext cb
    removeLoop chosen rounds (s.reset cb) next
/-- The loop of `~CallbackList`. -/
def destroyLoop : Nat → CallbackList ε → Option Address → Option (CallbackList ε) := removeLoop fun _ => true
/-- The destructor of `m_base`. -/
def destroyBase (s : CallbackList ε) : CallbackList ε :=
  match s.m_base with
  | none => s
  | some base => (modify { s with m_base := none } base fun block => { block with element := none }).reset base
/-- `~CallbackList`, with the destructor of `m_base`. -/
def destroy (rounds : Nat) (s : CallbackList ε) : Option (CallbackList ε) := do
  let (cb,s) := s.front
  let s ← destroyLoop rounds s cb
  pure s.destroyBase

/-! ### What the operations touch -/

@[simp] theorem modify_blocks (s : CallbackList ε) (b c : Address) (f : CtrlBlock ε → CtrlBlock ε) :
    (s.modify b f).blocks c = if c = b then f (s.blocks b) else s.blocks c := Function.update_apply ..
@[simp] theorem modify_links (s : CallbackList ε) (b : Address) (f : CtrlBlock ε → CtrlBlock ε) :
    (s.modify b f).links = s.links := rfl
@[simp] theorem modify_alive (s : CallbackList ε) (b : Address) (f : CtrlBlock ε → CtrlBlock ε) :
    (s.modify b f).alive = s.alive := rfl
@[simp] theorem modify_m_cb (s : CallbackList ε) (b : Address) (f : CtrlBlock ε → CtrlBlock ε) :
    (s.modify b f).m_cb = s.m_cb := rfl
@[simp] theorem modify_m_base (s : CallbackList ε) (b : Address) (f : CtrlBlock ε → CtrlBlock ε) :
    (s.modify b f).m_base = s.m_base := rfl
@[simp] theorem modify_m_shared_lock (s : CallbackList ε) (b : Address) (f : CtrlBlock ε → CtrlBlock ε) :
    (s.modify b f).m_shared_lock = s.m_shared_lock := rfl
@[simp] theorem unlinkLocked_blocks (s : CallbackList ε) (b : Address) : (s.unlinkLocked b).blocks = s.blocks := by
  unfold unlinkLocked
  split <;> rfl
@[simp] theorem unlinkLocked_m_cb (s : CallbackList ε) (b : Address) : (s.unlinkLocked b).m_cb = s.m_cb := by
  unfold unlinkLocked
  split <;> rfl
@[simp] theorem unlinkLocked_m_base (s : CallbackList ε) (b : Address) : (s.unlinkLocked b).m_base = s.m_base := by
  unfold unlinkLocked
  split <;> rfl
@[simp] theorem unlinkLocked_m_shared_lock (s : CallbackList ε) (b : Address) :
    (s.unlinkLocked b).m_shared_lock = s.m_shared_lock := by
  unfold unlinkLocked
  split <;> rfl

end CallbackList

end IpcPortable.CallbackLists
