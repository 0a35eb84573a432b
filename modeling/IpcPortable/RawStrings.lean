import IpcPortable.Packets

/-!
`RawString`: a pointer and a length, with no storage of its own. A pointer is
modelled by what lies behind it in the object it points into, and a comparison
answers `none` when it would read a byte that is not there.
-/
namespace IpcPortable.RawStrings
open IpcPortable.LittleEndian IpcPortable.DataStream IpcPortable.Values IpcPortable.Packets

structure RawString where
  m_str : Option (List Byte)
  m_len : Nat
/-- The `RawString` of a `std::string` or a literal. -/
def RawString.ofBytes (bs : List Byte) : RawString := ⟨some bs,bs.length⟩
/-- The bytes of the string, when all of them exist. -/
def RawString.content (str : RawString) : Option (List Byte) :=
  if str.m_len = 0 then some []
  else match str.m_str with
    | some behind => if str.m_len ≤ behind.length then some (behind.take str.m_len) else none
    | none => none

/-- `RawString::Read`. -/
def RawString.read : StateM DataStream RawString := do
  let length ← extractU32
  if length ≠ 0 then do
    let raw_data ← peekRawData length
    pure ⟨raw_data,length⟩
  else pure ⟨none,length⟩
/-- `RawString::Write`. -/
def RawString.write (str : RawString) : StateM DataStream Unit := do
  insertU32 str.m_len
  writeRawData ((str.m_str.getD []).take str.m_len)

/-- `operator==`: lengths first, then `memcmp`. -/
def RawString.equals (str other : RawString) : Option Bool :=
  if str.m_len ≠ other.m_len then some false
  else do
    let left ← str.content
    let right ← other.content
    pure (left == right)
/-- The byte a pointer points to, and the pointer to the next one. -/
def next : Option (List Byte) → Option (Byte × Option (List Byte))
  | some (b :: behind) => some (b,some behind)
  | _ => none
/-- `std::lexicographical_compare` over `char`, which is signed. -/
def lexicographicalCompare : Option (List Byte) → Nat → Option (List Byte) → Nat → Option Bool
  | _, _, _, 0 => some false
  | _, 0, _, _+1 => some true
  | first, m+1, second, n+1 => do
    let (a,first) ← next first
    let (b,second) ← next second
    if a.slt b then pure true
    else if b.slt a then pure false
    else lexicographicalCompare first m second n
/-- `operator<`. -/
def RawString.less (str other : RawString) : Option Bool :=
  lexicographicalCompare str.m_str str.m_len other.m_str other.m_len

@[simp] theorem content_ofBytes (bs : List Byte) : (RawString.ofBytes bs).content = some bs := by
  unfold RawString.content RawString.ofBytes
  split
  · rename_i empty
    rw [List.length_eq_zero_iff.mp empty]
  · simp

theorem write_emits (bs : List Byte) : Emits (RawString.ofBytes bs).write (encodeString bs) := by
  have whole : Emits (writeRawData ((some bs).getD [] |>.take bs.length)) bs := by
    simpa using writeRawData_emits bs
  exact (insertU32_emits bs.length).bind whole

/-- Reading a string that was written gives a pointer to its bytes in the packet. -/
theorem read_yields (bs : List Byte) : Yields RawString.read (encodeString bs) fun str => str.content = some bs := by
  intro s rest reads
  have small : bs.length < 2^32 := by
    have := reads.small
    simp only [List.length_append,encodeString_length] at this
    omega
  rw [encodeString,List.append_assoc] at reads
  have behind := reads.advance
  have first := extractU32_decodes bs.length small s _ reads
  unfold RawString.read
  rw [run_bind,first]
  by_cases empty : bs = []
  · subst empty
    exact ⟨rfl,rfl⟩
  · have positive : bs.length ≠ 0 := by simpa using empty
    simp only [if_pos positive,run_bind,behind.peekRawData,run_pure]
    simp [RawString.content,empty,advance_advance]

/-- What `RawString::Read` answers at the bytes `bs`, and what it leaves unread:
    after a failure the cursor has moved past the length only. -/
def takeString (bs : List Byte) : RawString × List Byte :=
  if bs.length < 4 then (⟨none,0⟩,bs)
  else
    let length := (ofBytes (8*4) (bs.take 4)).toNat
    if length = 0 then (⟨none,0⟩,bs.drop 4)
    else if length ≤ bs.length - 4 then (⟨some (bs.drop 4),length⟩,bs.drop (4 + length))
    else (⟨none,length⟩,bs.drop 4)

theorem read_takeString {s : DataStream} {bs : List Byte} (reads : Reads s bs) :
    (RawString.read s).1 = (takeString bs).1 ∧ Reads (RawString.read s).2 (takeString bs).2 := by
  unfold RawString.read takeString
  rw [run_bind,Values.Reads.extractU32 reads]
  by_cases short : bs.length < 4
  · have missing : ¬ 4 ≤ bs.length := by omega
    simp [short,missing,reads.raise]
  · have there : 4 ≤ bs.length := by omega
    have after := reads.drop there
    simp only [there,short,if_true,if_false]
    by_cases empty : (ofBytes (8*4) (bs.take 4)).toNat = 0
    · simp [empty,after]
    · by_cases fits : (ofBytes (8*4) (bs.take 4)).toNat ≤ bs.length - 4
      · have inside : (ofBytes (8*4) (bs.take 4)).toNat ≤ (bs.drop 4).length := by simpa using fits
        have behind := after.drop inside
        rw [List.drop_drop] at behind
        simp [empty,fits,after.peekRawData,behind]
      · simp [empty,fits,after.peekRawData,after.raise]

end IpcPortable.RawStrings
