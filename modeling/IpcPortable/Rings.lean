import Mathlib.Data.List.Nodup
import Mathlib.Logic.Function.Basic

/-!
Circular doubly linked lists as the pointers of their nodes. A ring is entered
at one node and goes through a list of others back to it, the `next` pointers
forwards and the `prev` pointers backwards.
-/
namespace IpcPortable.Rings
variable {α : Type*}

/-- The pointers of all nodes. -/
structure Links (α : Type*) where
  next : α → α
  prev : α → α

section assignments
variable [DecidableEq α]

def Links.setNext (k : Links α) (a b : α) : Links α := { k with next := Function.update k.next a b }
def Links.setPrev (k : Links α) (a b : α) : Links α := { k with prev := Function.update k.prev a b }
/-- A node alone, linked to itself. -/
def Links.single (k : Links α) (x : α) : Links α := (k.setNext x x).setPrev x x
/-- The assignments that put `x` behind `this`. -/
def Links.insertAfter (k : Links α) (this x : α) : Links α :=
  let k := k.setPrev x this
  let k := k.setNext x (k.next this)
  let k := k.setPrev (k.next this) x
  k.setNext this x
/-- The assignments that put `x` before `this`. -/
def Links.insertBefore (k : Links α) (this x : α) : Links α :=
  let k := k.setNext x this
  let k := k.setPrev x (k.prev this)
  let k := k.setNext (k.prev this) x
  k.setPrev this x
/-- The assignments that take `x` out and leave it linked to itself. -/
def Links.unlink (k : Links α) (x : α) : Links α :=
  let k := k.setNext (k.prev x) (k.next x)
  let k := k.setPrev (k.next x) (k.prev x)
  k.single x

@[simp] theorem setNext_next (k : Links α) (a b c : α) : (k.setNext a b).next c = if c = a then b else k.next c :=
  Function.update_apply ..
@[simp] theorem setNext_prev (k : Links α) (a b : α) : (k.setNext a b).prev = k.prev := rfl
@[simp] theorem setPrev_prev (k : Links α) (a b c : α) : (k.setPrev a b).prev c = if c = a then b else k.prev c :=
  Function.update_apply ..
@[simp] theorem setPrev_next (k : Links α) (a b : α) : (k.setPrev a b).next = k.next := rfl

end assignments

/-- The pointers lead from `a` through the list to `b`, and back. -/
def Path (k : Links α) : α → List α → α → Prop
  | a, [], b => k.next a = b ∧ k.prev b = a
  | a, x :: l, b => (k.next a = x ∧ k.prev x = a) ∧ Path k x l b

section paths
variable {k k' : Links α} {a b x : α} {l m : List α}

theorem path_append : Path k a (l ++ x :: m) b ↔ Path k a l x ∧ Path k x m b := by
  induction l generalizing a with
  | nil => exact Iff.rfl
  | cons y l ih => simp only [List.cons_append,Path,ih,and_assoc]

theorem Path.congr (path : Path k a l b) (next : ∀ y ∈ a :: l, k'.next y = k.next y)
    (prev : ∀ y ∈ l ++ [b], k'.prev y = k.prev y) : Path k' a l b := by
  induction l generalizing a with
  | nil => exact ⟨(next a List.mem_cons_self).trans path.1,(prev b List.mem_cons_self).trans path.2⟩
  | cons y l ih =>
    obtain ⟨⟨forward,back⟩,rest⟩ := path
    refine ⟨⟨(next a List.mem_cons_self).trans forward,(prev y List.mem_cons_self).trans back⟩,ih rest ?_ ?_⟩
    · exact fun z member => next z (List.mem_cons_of_mem _ member)
    · exact fun z member => prev z (List.mem_cons_of_mem _ member)

theorem Path.next_eq (path : Path k a l b) : k.next a = l.headD b := by
  cases l with
  | nil => exact path.1
  | cons y l => exact path.1.1

theorem Path.next_mem (path : Path k a l b) : k.next a ∈ l ++ [b] := by
  rw [path.next_eq]
  cases l <;> simp

theorem Path.prev_mem (path : Path k a l b) : k.prev b ∈ a :: l := by
  induction l generalizing a with
  | nil => exact path.2 ▸ List.mem_cons_self
  | cons y l ih => exact List.mem_cons_of_mem _ (ih path.2)

theorem Path.prev_next (path : Path k a l b) {y : α} (member : y ∈ a :: l) : k.prev (k.next y) = y ∧ k.next y ∈ l ++ [b] := by
  induction l generalizing a with
  | nil =>
    obtain rfl := List.mem_singleton.mp member
    exact ⟨by rw [path.1,path.2],path.next_mem⟩
  | cons z l ih =>
    rcases List.mem_cons.mp member with rfl | later
    · exact ⟨by rw [path.1.1,path.1.2],path.next_mem⟩
    · obtain ⟨back,inside⟩ := ih path.2 later
      exact ⟨back,List.mem_cons_of_mem _ inside⟩

theorem Path.next_prev (path : Path k a l b) {y : α} (member : y ∈ l ++ [b]) : k.next (k.prev y) = y ∧ k.prev y ∈ a :: l := by
  induction l generalizing a with
  | nil =>
    obtain rfl := List.mem_singleton.mp member
    exact ⟨by rw [path.2,path.1],path.prev_mem⟩
  | cons z l ih =>
    rcases List.mem_cons.mp member with rfl | later
    · exact ⟨by rw [path.1.2,path.1.1],by rw [path.1.2]; exact List.mem_cons_self⟩
    · obtain ⟨forward,inside⟩ := ih path.2 later
      exact ⟨forward,List.mem_cons_of_mem _ inside⟩

/-- A path that is left by another node. -/
theorem Path.leave [DecidableEq α] (path : Path k a l b) (once : (a :: l).Nodup) (new : x ∉ l) :
    Path ((k.setPrev x (k.prev b)).setNext (k.prev b) x) a l x := by
  induction l generalizing a with
  | nil =>
    have last : k.prev b = a := path.2
    simp [Path,last]
  | cons y l ih =>
    obtain ⟨⟨forward,back⟩,rest⟩ := path
    obtain ⟨absent,once⟩ := List.nodup_cons.mp once
    have other : a ≠ k.prev b := fun same => absent (same ▸ rest.prev_mem)
    have fresh : y ≠ x := fun same => new (same ▸ List.mem_cons_self)
    refine ⟨⟨?_,?_⟩,ih rest once fun member => new (List.mem_cons_of_mem _ member)⟩
    · rw [setNext_next,if_neg other]
      exact forward
    · rw [setNext_prev,setPrev_prev,if_neg fresh]
      exact back

/-- A path that is entered by another node. -/
theorem Path.enter [DecidableEq α] (path : Path k a l b) (once : (l ++ [b]).Nodup) (new : x ∉ l) :
    Path ((k.setNext x (k.next a)).setPrev (k.next a) x) x l b := by
  cases l with
  | nil =>
    have first : k.next a = b := path.1
    simp [Path,first]
  | cons y l =>
    obtain ⟨⟨forward,back⟩,rest⟩ := path
    obtain ⟨absent,once⟩ := List.nodup_cons.mp once
    refine ⟨by simp [forward],rest.congr ?_ ?_⟩
    · intro z member
      have other : z ≠ x := fun same => new (same ▸ member)
      rw [setPrev_next,setNext_next,if_neg other]
    · intro z member
      have other : z ≠ k.next a := fun same => absent (forward ▸ same ▸ member)
      rw [setPrev_prev,if_neg other,setNext_prev]

/-- Two paths that meet at `x`, joined beside it. -/
theorem Path.join [DecidableEq α] (front : Path k a l x) (back : Path k x m b) (once : (a :: l).Nodup)
    (behind : (m ++ [b]).Nodup) (apart : ∀ y ∈ l, y ∉ m ++ [b]) (new : a ∉ m) :
    Path ((k.setNext (k.prev x) (k.next x)).setPrev (k.next x) (k.prev x)) a (l ++ m) b := by
  induction l generalizing a with
  | nil =>
    have last : k.prev x = a := front.2
    have entered := back.enter behind new
    rwa [last]
  | cons y l ih =>
    obtain ⟨⟨forward,backward⟩,rest⟩ := front
    obtain ⟨absent,once⟩ := List.nodup_cons.mp once
    have other : a ≠ k.prev x := fun same => absent (same ▸ rest.prev_mem)
    have away : y ∉ m ++ [b] := apart y List.mem_cons_self
    have skipped : y ≠ k.next x := fun same => away (same ▸ back.next_mem)
    refine ⟨⟨?_,?_⟩,ih rest once (fun z member => apart z (List.mem_cons_of_mem _ member))
      fun member => away (List.mem_append_left _ member)⟩
    · rw [setPrev_next,setNext_next,if_neg other]
      exact forward
    · rw [setPrev_prev,if_neg skipped]
      exact backward

end paths

/-- The nodes behind `a` before `stop`, so many of them at most. -/
def Links.walk [DecidableEq α] (k : Links α) (stop : α) : Nat → α → List α
  | 0, _ => []
  | n + 1, a => if k.next a = stop then [] else k.next a :: k.walk stop n (k.next a)

theorem Path.walk_eq [DecidableEq α] {k : Links α} {a stop : α} {l : List α} (path : Path k a l stop) (outside : stop ∉ l)
    {n : Nat} (short : l.length ≤ n) : k.walk stop n a = l := by
  induction l generalizing a n with
  | nil =>
    cases n with
    | zero => rfl
    | succ n => rw [Links.walk,if_pos path.1]
  | cons y l ih =>
    obtain ⟨m,rfl⟩ := Nat.exists_eq_add_of_lt (Nat.lt_of_lt_of_le (Nat.succ_pos l.length) short)
    obtain ⟨⟨forward,-⟩,rest⟩ := path
    have inside : y ≠ stop := fun same => outside (same ▸ List.mem_cons_self)
    rw [Nat.zero_add,Links.walk,forward,if_neg inside,
      ih rest (fun member => outside (List.mem_cons_of_mem _ member)) (by simpa using short)]

/-- The ring that is entered at `s`. -/
structure IsRing (k : Links α) (s : α) (l : List α) : Prop where
  path : Path k s l s
  nodup : (s :: l).Nodup

section rings
variable {k : Links α} {s x : α} {l m : List α}

theorem IsRing.next_eq (ring : IsRing k s l) : k.next s = l.headD s := ring.path.next_eq

/-- Behind a node of the ring comes the next one, or again where it is entered. -/
theorem IsRing.next_of (ring : IsRing k s (l ++ x :: m)) : k.next x = m.headD s :=
  (path_append.mp ring.path).2.next_eq

theorem IsRing.walk_eq [DecidableEq α] (ring : IsRing k s l) {n : Nat} (short : l.length ≤ n) : k.walk s n s = l :=
  ring.path.walk_eq (List.nodup_cons.mp ring.nodup).1 short

/-- The pointers of the ring stay in the ring and are mutually inverse. -/
theorem IsRing.inverse (ring : IsRing k s l) {b : α} (member : b ∈ s :: l) :
    (k.prev (k.next b) = b ∧ k.next b ∈ s :: l) ∧ (k.next (k.prev b) = b ∧ k.prev b ∈ s :: l) := by
  have turned : ∀ y, y ∈ l ++ [s] ↔ y ∈ s :: l := fun y => by simp [or_comm]
  obtain ⟨back,next⟩ := ring.path.prev_next member
  obtain ⟨forward,prev⟩ := ring.path.next_prev ((turned b).mpr member)
  exact ⟨⟨back,(turned _).mp next⟩,forward,prev⟩

/-- A node is linked to itself if and only if it is alone. -/
theorem IsRing.next_ne (ring : IsRing k s l) {b : α} (member : b ∈ l) : k.next b ≠ b := by
  obtain ⟨before,behind,rfl⟩ := List.append_of_mem member
  obtain ⟨outside,once⟩ := List.nodup_cons.mp ring.nodup
  rw [ring.next_of]
  cases behind with
  | nil => exact fun same => outside (same ▸ member)
  | cons y m =>
    have split := List.nodup_middle.mp once
    have absent := (List.nodup_cons.mp split).1
    exact fun same => absent (List.mem_append_right _ (same ▸ List.mem_cons_self))

theorem IsRing.alone_iff (ring : IsRing k s l) : k.next s = s ↔ l = [] := by
  rw [ring.next_eq]
  cases l with
  | nil => simp
  | cons y m =>
    have outside := (List.nodup_cons.mp ring.nodup).1
    have other : y ≠ s := fun same => outside (same ▸ List.mem_cons_self)
    simpa using other

/-- The ring entered at its first node. -/
theorem IsRing.rotate (ring : IsRing k s (x :: l)) : IsRing k x (l ++ [s]) := by
  obtain ⟨first,rest⟩ := ring.path
  refine ⟨path_append.mpr ⟨rest,first⟩,?_⟩
  have turned : (x :: (l ++ [s])).Perm (s :: x :: l) := List.perm_append_singleton s (x :: l)
  exact turned.nodup_iff.mpr ring.nodup

variable [DecidableEq α]

theorem isRing_single (k : Links α) (s : α) : IsRing (k.single s) s [] := by
  refine ⟨⟨?_,?_⟩,List.nodup_singleton s⟩ <;> simp [Links.single]

/-- A node outside the ring is linked to itself. -/
theorem IsRing.single (ring : IsRing k s l) (new : x ∉ s :: l) : IsRing (k.single x) s l := by
  refine ⟨ring.path.congr ?_ ?_,ring.nodup⟩
  · intro y member
    have other : y ≠ x := fun same => new (same ▸ member)
    simp [Links.single,other]
  · intro y member
    have other : y ≠ x := by
      rintro rfl
      exact new ((List.perm_append_singleton s l).mem_iff.mp member)
    simp [Links.single,other]

theorem IsRing.insertBefore (ring : IsRing k s l) (new : x ∉ s :: l) : IsRing (k.insertBefore s x) s (l ++ [x]) := by
  have other : x ≠ s := fun same => new (same ▸ List.mem_cons_self)
  have absent : x ∉ l := fun member => new (List.mem_cons_of_mem _ member)
  have last : k.prev s ≠ x := fun same => new (same ▸ ring.path.prev_mem)
  have left := ring.path.leave ring.nodup absent
  refine ⟨path_append.mpr ⟨left.congr ?_ ?_,?_,?_⟩,?_⟩
  · intro y member
    have fresh : y ≠ x := fun same => new (same ▸ member)
    simp [Links.insertBefore,Ne.symm other,fresh]
  · intro y member
    have inside : y ≠ s := by
      rcases List.mem_append.mp member with inside | appended
      · exact fun same => (List.nodup_cons.mp ring.nodup).1 (same ▸ inside)
      · exact fun same => other ((List.mem_singleton.mp appended).symm.trans same)
    simp [Links.insertBefore,Ne.symm other,inside]
  · simp [Links.insertBefore,Ne.symm other,Ne.symm last]
  · simp [Links.insertBefore]
  · refine (List.perm_append_singleton x (s :: l)).nodup_iff.mpr ?_
    exact List.nodup_cons.mpr ⟨new,ring.nodup⟩

theorem IsRing.insertAfter (ring : IsRing k s l) (new : x ∉ s :: l) : IsRing (k.insertAfter s x) s (x :: l) := by
  have other : x ≠ s := fun same => new (same ▸ List.mem_cons_self)
  have absent : x ∉ l := fun member => new (List.mem_cons_of_mem _ member)
  have turned : (l ++ [s]).Nodup := (List.perm_append_singleton s l).nodup_iff.mpr ring.nodup
  have first : k.next s ≠ x := by
    intro same
    have inside := ring.path.next_mem
    exact new ((List.perm_append_singleton s l).mem_iff.mp (same ▸ inside))
  have entered := ring.path.enter turned absent
  refine ⟨⟨⟨?_,?_⟩,entered.congr ?_ ?_⟩,?_⟩
  · simp [Links.insertAfter]
  · simp [Links.insertAfter,Ne.symm other,Ne.symm first]
  · intro y member
    have inside : y ≠ s := by
      rcases List.mem_cons.mp member with rfl | inside
      · exact other
      · exact fun same => (List.nodup_cons.mp ring.nodup).1 (same ▸ inside)
    simp [Links.insertAfter,inside]
  · intro y member
    have fresh : y ≠ x := by
      rintro rfl
      exact new ((List.perm_append_singleton s l).mem_iff.mp member)
    simp [Links.insertAfter,Ne.symm other,fresh]
  · refine (List.Perm.swap s x l).nodup_iff.mp ?_
    exact List.nodup_cons.mpr ⟨new,ring.nodup⟩

theorem IsRing.unlink (ring : IsRing k s (l ++ x :: m)) : IsRing (k.unlink x) s (l ++ m) := by
  obtain ⟨front,back⟩ := path_append.mp ring.path
  have together : (s :: l ++ x :: m).Nodup := ring.nodup
  obtain ⟨absent,once⟩ := List.nodup_cons.mp (List.nodup_middle.mp together)
  have once : (s :: (l ++ m)).Nodup := once
  obtain ⟨outside,rest⟩ := List.nodup_cons.mp once
  obtain ⟨left,right,apart⟩ := List.nodup_append.mp rest
  have beside : ∀ y ∈ l, y ∉ m ++ [s] := by
    intro y member behind
    rcases List.mem_append.mp behind with inside | last
    · exact apart y member y inside rfl
    · exact outside (List.mem_append_left _ (List.mem_singleton.mp last ▸ member))
  have entry : s ∉ l := fun member => outside (List.mem_append_left _ member)
  have exit : s ∉ m := fun member => outside (List.mem_append_right _ member)
  have turned : (m ++ [s]).Nodup :=
    (List.perm_append_singleton s m).nodup_iff.mpr (List.nodup_cons.mpr ⟨exit,right⟩)
  have joined := front.join back (List.nodup_cons.mpr ⟨entry,left⟩) turned beside exit
  refine ⟨joined.congr ?_ ?_,once⟩
  · intro y member
    have other : y ≠ x := fun same => absent (same ▸ member)
    simp [Links.unlink,Links.single,other]
  · intro y member
    have other : y ≠ x := by
      rintro rfl
      exact absent ((List.perm_append_singleton s (l ++ m)).mem_iff.mp member)
    simp [Links.unlink,Links.single,other]

/-- The node where the ring is entered is taken out. -/
theorem IsRing.unlink_entry (ring : IsRing k s (x :: l)) : IsRing (k.unlink s) x l := by
  have turned : IsRing k x (l ++ s :: []) := ring.rotate
  have left := turned.unlink
  rwa [List.append_nil] at left

end rings

end IpcPortable.Rings
