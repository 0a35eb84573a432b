import Mathlib.Algebra.Group.Nat.Defs

/-!
Storing a run of elements into a list of fixed length, as a block copy into an
array does: what lies inside the array is replaced, its length never changes.
-/
namespace IpcPortable.Regions
universe u
variable {α : Type u}

/-- The array after copying `bs` to the positions from `pos` on. -/
def overwrite (old : List α) (pos : Nat) (bs : List α) : List α :=
  (old.take pos ++ bs ++ old.drop (pos + bs.length)).take old.length

@[simp] theorem overwrite_length (old : List α) (pos : Nat) (bs : List α) :
    (overwrite old pos bs).length = old.length := by
  simp [overwrite]; omega

/-- A copy that stays inside replaces exactly the positions it covers. -/
theorem overwrite_inside {old : List α} {pos : Nat} {bs : List α} (inside : pos + bs.length ≤ old.length) :
    overwrite old pos bs = old.take pos ++ bs ++ old.drop (pos + bs.length) := by
  apply List.take_of_length_le
  simp; omega

theorem overwrite_take {old : List α} {pos : Nat} {bs : List α} (inside : pos + bs.length ≤ old.length) :
    (overwrite old pos bs).take (pos + bs.length) = old.take pos ++ bs := by
  rw [overwrite_inside inside]
  apply List.take_left'
  simp; omega

theorem overwrite_drop {old : List α} {pos : Nat} {bs : List α} (inside : pos + bs.length ≤ old.length) :
    (overwrite old pos bs).drop (pos + bs.length) = old.drop (pos + bs.length) := by
  rw [overwrite_inside inside]
  apply List.drop_left'
  simp; omega

/-- Two copies, the second starting where the first one ends, are one. -/
theorem overwrite_append {old : List α} {pos : Nat} {a b : List α}
    (inside : pos + (a ++ b).length ≤ old.length) :
    overwrite (overwrite old pos a) (pos + a.length) b = overwrite old pos (a ++ b) := by
  have within : pos + (a.length + b.length) ≤ old.length := by simpa using inside
  have first : pos + a.length ≤ old.length := by omega
  have second : (pos + a.length) + b.length ≤ (overwrite old pos a).length := by simp; omega
  have tail : (overwrite old pos a).drop (pos + a.length + b.length) = old.drop (pos + (a ++ b).length) := by
    rw [← List.drop_drop,overwrite_drop first,List.drop_drop]
    simp [Nat.add_assoc]
  rw [overwrite_inside second,overwrite_take first,tail,overwrite_inside inside]
  simp

theorem overwrite_nil {old : List α} {pos : Nat} (inside : pos ≤ old.length) : overwrite old pos [] = old := by
  rw [overwrite_inside (by simpa using inside)]
  simp

/-- What lies in front of the copy stays. -/
theorem overwrite_front {old : List α} {pos k : Nat} (behind : k ≤ pos) (bs : List α) :
    (overwrite old pos bs).take k = old.take k := by
  rw [overwrite,List.take_take,List.append_assoc,List.take_append_of_le_length (by simp; omega),List.take_take]
  by_cases inside : k ≤ old.length
  · rw [show min (min k old.length) pos = k by omega]
  · rw [List.take_of_length_le (by simp; omega),List.take_of_length_le (by omega)]

/-! ### Arrays that are filled from the front -/

/-- The first elements of the array are `held`, and `need` more are missing. -/
structure Filling (array held : List α) (need : Nat) : Prop where
  size : array.length = held.length + need
  front : array.take held.length = held

theorem Filling.start (array : List α) : Filling array [] array.length := ⟨by simp,rfl⟩

theorem Filling.full {array held : List α} (filling : Filling array held 0) : array = held := by
  have size : array.length = held.length := filling.size
  have front := filling.front
  rwa [← size,List.take_length] at front

/-- The next elements go behind those that are there. -/
theorem Filling.store {array held : List α} {need : Nat} (filling : Filling array held need) {bs : List α}
    (fits : bs.length ≤ need) : Filling (overwrite array held.length bs) (held ++ bs) (need - bs.length) := by
  have size := filling.size
  refine ⟨by simp; omega,?_⟩
  rw [List.length_append,overwrite_take (by omega),filling.front]

/-- Elements that do not count may lie behind those that do. -/
theorem Filling.scratch {array held bs : List α} {need : Nat} (filling : Filling array held need)
    (fits : bs.length ≤ need) : Filling (overwrite array held.length bs) held need := by
  have size := filling.size
  refine ⟨by simp [size],?_⟩
  have stored := (filling.store fits).front
  calc (overwrite array held.length bs).take held.length
      = ((overwrite array held.length bs).take (held ++ bs).length).take held.length := by simp [List.take_take]
    _ = held := by rw [stored,List.take_left]

end IpcPortable.Regions
