import IpcPortable.Values

/-!
How large the containers are that are decoded. A string is resized once its
bytes are known to be there, and rejected with an assertion before where they
are not. The two decoders of vectors resize to the count that the length field
declares, and only then find out that the elements are missing
(`decode_bounded`).
-/
namespace IpcPortable.DecodeBounds
open IpcPortable.LittleEndian IpcPortable.DataStream IpcPortable.Values

/-- The built-in types that are containers of a size that the packet declares. -/
inductive Container
  | string
  | vector (signed : Bool) (width : Width)
  | enumerateData
def Container.type : Container → SerialType
  | .string => .string
  | .vector signed width => .vector signed width
  | .enumerateData => .enumerateData
/-- The number of elements. -/
def Container.count : (τ : Container) → τ.type.Val → Nat
  | .string, v => List.length v
  | .vector _ _, v => List.length v
  | .enumerateData, v => List.length v
/-- The least number of bytes that stand for an element: a record is four strings. -/
def Container.minimal : Container → Nat
  | .string => 1
  | .vector _ width => width.bytes
  | .enumerateData => 16

/-- The count that the length field declares; a missing field leaves zero. -/
def declared (bs : List Byte) : Nat := if 4 ≤ bs.length then (ofBytes (8*4) (bs.take 4)).toNat else 0
/-- The container is not larger than the bytes behind the length field allow. -/
def Bounded (τ : Container) (s : DataStream) (bs : List Byte) : Prop :=
  τ.count (readFromStream τ.type s).1 * τ.minimal ≤ (bs.drop 4).length
/-- A count that is too large is rejected before the container is resized: an
    assertion is raised and the container stays as it was, whatever it held. -/
def Rejects (τ : Container) (s : DataStream) (bs : List Byte) : Prop :=
  (bs.drop 4).length < declared bs * τ.minimal →
    ∀ v, (extract τ.type v s).1 = v ∧ s.raised < (extract τ.type v s).2.raised
/-- The decoder checks the count, or the count declares no more elements than there are bytes for. -/
def Covered (τ : Container) (bs : List Byte) : Prop :=
  τ = .string ∨ declared bs * τ.minimal ≤ (bs.drop 4).length

theorem extractU32_declared {s : DataStream} {bs : List Byte} (reads : Reads s bs) :
    (extractU32 s).1 = declared bs ∧ Reads (extractU32 s).2 (if 4 ≤ bs.length then bs.drop 4 else bs) := by
  rw [Reads.extractU32 reads,declared]
  by_cases sized : 4 ≤ bs.length
  · rw [if_pos sized,if_pos sized,if_pos sized]
    exact ⟨rfl,reads.drop sized⟩
  · rw [if_neg sized,if_neg sized,if_neg sized]
    exact ⟨rfl,reads.raise⟩

/-- The loops keep the number of elements. -/
theorem mapM_length {α : Type} (one : α → StateM DataStream α) (old : List α) (s : DataStream) :
    (old.mapM one s).1.length = old.length := by
  induction old generalizing s with
  | nil => rfl
  | cons item rest ih =>
    rw [List.mapM_cons]
    simp only [run_bind,run_pure,List.length_cons,ih]
theorem extractItems_length (w : Width) (old : List (BitVec (8*w.bytes))) (s : DataStream) :
    (extractItems w old s).1.length = old.length := by
  rw [extractItems_mapM]
  exact mapM_length _ old s
theorem extractDescriptions_length (old : List ProcDescription) (s : DataStream) :
    (extractDescriptions old s).1.length = old.length := by
  rw [extractDescriptions_mapM]
  exact mapM_length _ old s

/-- A string holds no more than the bytes that are there. -/
theorem extractString_bounded {s : DataStream} {bs : List Byte} (reads : Reads s bs) :
    (extractString [] s).1.length ≤ (bs.drop 4).length := by
  obtain ⟨value,behind⟩ := extractU32_declared reads
  unfold extractString
  rw [run_bind,run_bind,run_get,value,behind.available]
  by_cases sized : 4 ≤ bs.length
  · rw [if_pos sized] at behind ⊢
    by_cases inside : declared bs ≤ (bs.drop 4).length
    · rw [if_pos (decide_eq_true inside)]
      by_cases empty : declared bs ≠ 0
      · rw [if_pos empty,behind.readRawData,if_pos inside,List.length_take]
        omega
      · rw [if_neg empty]
        exact Nat.zero_le _
    · rw [if_neg (by simpa using inside)]
      exact Nat.zero_le _
  · have nothing : declared bs = 0 := if_neg sized
    rw [nothing,if_pos (by simp),if_neg (by simp)]
    exact Nat.zero_le _

/-- A string whose bytes are not there is not resized. -/
theorem extractString_rejects {s : DataStream} {bs : List Byte} (reads : Reads s bs)
    (beyond : (bs.drop 4).length < declared bs) (v : List Byte) :
    (extractString v s).1 = v ∧ (extractString v s).2.raised = s.raised + 1 := by
  have sized : 4 ≤ bs.length := by
    by_cases sized : 4 ≤ bs.length
    · exact sized
    · rw [declared,if_neg sized] at beyond
      exact absurd beyond (Nat.not_lt_zero _)
  obtain ⟨value,behind⟩ := extractU32_declared reads
  have silent : (extractU32 s).2.raised = s.raised := by
    rw [Reads.extractU32 reads,if_pos sized]
    rfl
  rw [if_pos sized] at behind
  have missing : ¬ declared bs ≤ (bs.drop 4).length := Nat.not_le.mpr beyond
  unfold extractString
  rw [run_bind,run_bind,run_get,value,behind.available,if_neg (by simpa using missing)]
  exact ⟨rfl,congrArg (· + 1) silent⟩

/-- A decoder of vectors resizes to the declared count, whatever the container
    held and whatever is behind the length field. -/
theorem vector_declared {τ : Container} (checked : τ ≠ .string) {s : DataStream} {bs : List Byte} (reads : Reads s bs)
    (v : τ.type.Val) : τ.count (extract τ.type v s).1 = declared bs := by
  have value := (extractU32_declared reads).1
  cases τ with
  | string => exact absurd rfl checked
  | vector signed width =>
    exact (extractItems_length width (resize v (extractU32 s).1 0) (extractU32 s).2).trans ((resize_length _ _ _).trans value)
  | enumerateData =>
    exact (extractDescriptions_length (resize v (extractU32 s).1 {}) (extractU32 s).2).trans ((resize_length _ _ _).trans value)

/-- What is decoded is bounded by the bytes behind the length field, and a count
    that is too large rejected before the resize, for every string, and for a
    vector exactly when the declared count is bounded: a vector is resized to
    it whatever it held and whatever bytes follow. -/
theorem decode_bounded (τ : Container) (s : DataStream) (bs : List Byte) (reads : Reads s bs) :
    ((Bounded τ s bs ∧ Rejects τ s bs) ↔ Covered τ bs) ∧
    (τ ≠ .string → ∀ v, τ.count (extract τ.type v s).1 = declared bs) := by
  refine ⟨?_,fun checked v => vector_declared checked reads v⟩
  by_cases checked : τ = .string
  · subst checked
    refine ⟨fun _ => .inl rfl,fun _ => ⟨?_,?_⟩⟩
    · have bounded := extractString_bounded reads
      unfold Bounded
      rw [Container.minimal,Nat.mul_one]
      exact bounded
    · intro beyond v
      rw [Container.minimal,Nat.mul_one] at beyond
      obtain ⟨untouched,raised⟩ := extractString_rejects reads beyond v
      exact ⟨untouched,Nat.lt_of_lt_of_eq (Nat.lt_succ_self _) raised.symm⟩
  · have bounded : Bounded τ s bs ↔ declared bs * τ.minimal ≤ (bs.drop 4).length := by
      unfold Bounded
      rw [readFromStream,vector_declared checked reads]
    constructor
    · intro holds
      exact .inr (bounded.mp holds.1)
    · intro covered
      have inside := covered.resolve_left checked
      exact ⟨bounded.mpr inside,fun beyond => absurd inside (Nat.not_le.mpr beyond)⟩

/-- The length field of a vector with 2^32-1 elements, and nothing behind it. -/
def lengthOnly : List Byte := [255,255,255,255]
theorem lengthOnly_small : lengthOnly.length < 2^32 := by decide
def lengthPacket : Data := ⟨lengthOnly,lengthOnly_small⟩

/-- Read as a string, they are rejected. -/
theorem decode_bounded_string :
    Reads (DataStream.ofRead lengthPacket) lengthOnly ∧
      (lengthOnly.drop 4).length < declared lengthOnly * Container.string.minimal ∧
      Bounded .string (DataStream.ofRead lengthPacket) lengthOnly ∧
      Rejects .string (DataStream.ofRead lengthPacket) lengthOnly :=
  ⟨reads_ofRead lengthPacket,by decide,
    (decode_bounded .string (DataStream.ofRead lengthPacket) lengthOnly (reads_ofRead lengthPacket)).1.mpr (.inl rfl)⟩

/-- Four bytes become a vector of 2^32-1 bytes. -/
theorem vector_unbounded : ¬ Bounded (.vector false .one) (DataStream.ofRead lengthPacket) lengthOnly := by
  unfold Bounded
  rw [readFromStream,vector_declared Container.noConfusion (reads_ofRead lengthPacket)]
  decide

end IpcPortable.DecodeBounds
