import Mathlib.Algebra.Group.Nat.Defs

/-!
Little-endian byte strings of bit vectors, for any number of bytes: `bytesOf`
lists the bytes of a word from the lowest one, `ofBytes` puts them together
again. Both are described bit by bit, which is what the shift loops of a
program can be compared with.
-/
namespace IpcPortable.LittleEndian

abbrev Byte := BitVec 8

/-- The lowest `n` bytes of a word, from the lowest one. -/
def bytesOf {w : Nat} (n : Nat) (t : BitVec w) : List Byte :=
  (List.range n).map fun i => t.extractLsb' (8*i) 8
/-- The word of the given width whose bytes, from the lowest one, are given. -/
def ofBytes (w : Nat) (bs : List Byte) : BitVec w :=
  bs.foldr (fun b t => (t <<< 8) ||| b.setWidth w) 0

@[simp] theorem bytesOf_length {w : Nat} (n : Nat) (t : BitVec w) : (bytesOf n t).length = n := by
  simp [bytesOf]

theorem bytesOf_succ {w : Nat} (n : Nat) (t : BitVec w) :
    bytesOf (n+1) t = t.setWidth 8 :: (List.range n).map fun i => t.extractLsb' (8*(i+1)) 8 := by
  have lowest : t.extractLsb' 0 8 = t.setWidth 8 := by
    ext i inside
    simp
  simp [bytesOf,List.range_succ_eq_map,lowest]

/-- Every bit of the word comes from the byte that holds it. -/
theorem ofBytes_getLsbD {w : Nat} (bs : List Byte) (i : Nat) :
    (ofBytes w bs).getLsbD i = (decide (i < w) && (bs.getD (i/8) 0).getLsbD (i%8)) := by
  induction bs generalizing i with
  | nil => simp [ofBytes]
  | cons b bs ih =>
    have step : ofBytes w (b :: bs) = (ofBytes w bs <<< 8) ||| b.setWidth w := rfl
    simp only [step,BitVec.getLsbD_or,BitVec.getLsbD_shiftLeft,BitVec.getLsbD_setWidth,ih]
    by_cases low : i < 8
    · have first : i/8 = 0 := by omega
      have bit : i%8 = i := by omega
      simp [low,first,bit]
    · have later : i/8 = (i-8)/8+1 := by omega
      have bit : i%8 = (i-8)%8 := by omega
      have beyond : b.getLsbD i = false := BitVec.getLsbD_of_ge b i (by omega)
      have inside : decide (i-8 < w) = true ∨ decide (i < w) = false := by
        by_cases h : i < w
        · left; simp; omega
        · right; simpa using h
      rcases inside with inside | outside
      · simp [low,later,bit,beyond,inside]
      · simp [outside]

theorem bytesOf_getD {w : Nat} (n : Nat) (t : BitVec w) (i : Nat) (inside : i < n) :
    (bytesOf n t).getD i 0 = t.extractLsb' (8*i) 8 := by
  simp [bytesOf,List.getD_eq_getElem?_getD,inside]

/-- Reading the bytes of a word gives the word back. -/
theorem ofBytes_bytesOf (n : Nat) (t : BitVec (8*n)) : ofBytes (8*n) (bytesOf n t) = t := by
  apply BitVec.eq_of_getLsbD_eq
  intro i inside
  have position : 8*(i/8) + i%8 = i := by omega
  rw [ofBytes_getLsbD,bytesOf_getD n t (i/8) (by omega)]
  simp only [inside,decide_true,Bool.true_and,BitVec.getLsbD_extractLsb',position]
  simp [Nat.mod_lt]

/-- The bytes of the word that bytes make are these bytes. -/
theorem bytesOf_ofBytes {n : Nat} {bs : List Byte} (length : bs.length = n) : bytesOf n (ofBytes (8*n) bs) = bs := by
  refine List.ext_getElem (by simp [length]) fun i there inside => ?_
  have low : i < n := by omega
  have same : (bytesOf n (ofBytes (8*n) bs)).getD i 0 = bs.getD i 0 := by
    rw [bytesOf_getD n _ i low]
    apply BitVec.eq_of_getLsbD_eq
    intro bit small
    have position : (8*i+bit)/8 = i := by omega
    have rest : (8*i+bit)%8 = bit := by omega
    have within : 8*i+bit < 8*n := by omega
    rw [BitVec.getLsbD_extractLsb',ofBytes_getLsbD,position,rest]
    simp only [small,within,decide_true,Bool.true_and]
  simpa [List.getD_eq_getElem?_getD,low,inside] using same

theorem ofBytes_cons_toNat {w : Nat} {b : Byte} {bs : List Byte} (fits : (ofBytes w bs).toNat * 256 + b.toNat < 2^w) :
    (ofBytes w (b :: bs)).toNat = (ofBytes w bs).toNat * 256 + b.toNat := by
  have low : b.toNat < 2^8 := b.isLt
  have step : ofBytes w (b :: bs) = (ofBytes w bs <<< 8) ||| b.setWidth w := rfl
  have shifted : (ofBytes w bs <<< 8).toNat = (ofBytes w bs).toNat <<< 8 := by
    rw [BitVec.toNat_shiftLeft]
    refine Nat.mod_eq_of_lt ?_
    rw [Nat.shiftLeft_eq]
    exact Nat.lt_of_le_of_lt (Nat.le_add_right _ _) fits
  have widened : (b.setWidth w).toNat = b.toNat := by
    rw [BitVec.toNat_setWidth]
    exact Nat.mod_eq_of_lt (Nat.lt_of_le_of_lt (Nat.le_add_left _ _) fits)
  rw [step,BitVec.toNat_or,shifted,widened,← Nat.shiftLeft_add_eq_or_of_lt low,Nat.shiftLeft_eq]

end IpcPortable.LittleEndian
