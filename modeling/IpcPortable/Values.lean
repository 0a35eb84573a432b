import IpcPortable.DataStream

/-!
The values the library can send: `operator<<` and `operator>>` for every
built-in serialisable type, and what they put into a packet (`encode`). Each
writer emits exactly the encoding and each reader takes exactly the encoding
back, whatever follows it, so sequences of values do too.
-/
namespace IpcPortable.Values
open IpcPortable.LittleEndian IpcPortable.DataStream

/-- `sizeof` of the integer types. -/
inductive Width
  | one
  | two
  | four
  | eight
deriving DecidableEq
def Width.bytes : Width → Nat
  | .one => 1
  | .two => 2
  | .four => 4
  | .eight => 8
theorem Width.bytes_pos (w : Width) : 1 ≤ w.bytes := by cases w <;> decide

/-- The built-in types that have both stream operators. -/
inductive SerialType
  | integer (signed : Bool) (width : Width)
  | bool
  | float
  | double
  | string
  | vector (signed : Bool) (width : Width)
  | enumerateData
deriving DecidableEq

/-- `MAssIpcCall_ProcDescription`. -/
structure ProcDescription where
  name : List Byte := []
  return_type : List Byte := []
  params_types : List Byte := []
  comment : List Byte := []
deriving DecidableEq

/-- The values of a type: numbers as their bits, a floating point number as its
    image in memory, a string as its bytes. -/
def SerialType.Val : SerialType → Type
  | .integer _ w => BitVec (8*w.bytes)
  | .bool => Bool
  | .float => BitVec (8*4)
  | .double => BitVec (8*8)
  | .string => List Byte
  | .vector _ w => List (BitVec (8*w.bytes))
  | .enumerateData => List ProcDescription
/-- `T{}`. -/
def SerialType.default : (τ : SerialType) → τ.Val
  | .integer _ _ => (0 : BitVec _)
  | .bool => false
  | .float => (0 : BitVec _)
  | .double => (0 : BitVec _)
  | .string => ([] : List Byte)
  | .vector _ _ => ([] : List (BitVec _))
  | .enumerateData => ([] : List ProcDescription)
abbrev Value := Σ τ : SerialType, τ.Val

/-! ### The stream operators -/

/-- The byte in memory of a `bool`. -/
def boolImage (v : Bool) : Byte := if v then 1 else 0

/-- `stream<<(uint32_t)n`; the unsigned operators cast to the signed type. -/
def insertU32 (n : Nat) : StateM DataStream Unit := writeBytes true 4 (BitVec.ofNat (8*4) n)
/-- `uint32_t n = 0; stream>>n`. -/
def extractU32 : StateM DataStream Nat := do
  let n ← readBytes 4 0
  pure n.toNat
/-- `operator<<` for `std::string`. -/
def insertString (v : List Byte) : StateM DataStream Unit := do
  insertU32 v.length
  writeRawData (v.take (v.length % 2^32))
/-- `operator>>` for `std::string`. -/
def extractString (v : List Byte) : StateM DataStream (List Byte) := do
  let length ← extractU32
  let stream ← get
  if stream.isReadAvailable length then
    if length ≠ 0 then readRawData length else pure []
  else do
    modify DataStream.raise
    pure v
/-- The loop of `operator<<` for `std::vector`. -/
def insertItems (signed : Bool) (w : Width) : List (BitVec (8*w.bytes)) → StateM DataStream Unit
  | [] => pure ()
  | item :: rest => do
    writeBytes signed w.bytes item
    insertItems signed w rest
/-- The loop of `operator>>` for `std::vector`. -/
def extractItems (w : Width) : List (BitVec (8*w.bytes)) → StateM DataStream (List (BitVec (8*w.bytes)))
  | [] => pure []
  | item :: rest => do
    let item ← readBytes w.bytes item
    let rest ← extractItems w rest
    pure (item :: rest)
/-- `stream<<v[i].name<<v[i].return_type<<v[i].params_types<<v[i].comment`. -/
def insertDescription (v : ProcDescription) : StateM DataStream Unit := do
  insertString v.name
  insertString v.return_type
  insertString v.params_types
  insertString v.comment
/-- `stream>>v[i].name>>v[i].return_type>>v[i].params_types>>v[i].comment`. -/
def extractDescription (v : ProcDescription) : StateM DataStream ProcDescription := do
  let name ← extractString v.name
  let return_type ← extractString v.return_type
  let params_types ← extractString v.params_types
  let comment ← extractString v.comment
  pure { name, return_type, params_types, comment }
/-- The loop of `operator<<` for `MAssIpcCall_EnumerateData`. Its counter is a
    `PacketSize`, so it ends only for fewer than 2^32 records. -/
def insertDescriptions : List ProcDescription → StateM DataStream Unit
  | [] => pure ()
  | item :: rest => do
    insertDescription item
    insertDescriptions rest
/-- The loop of `operator>>` for `MAssIpcCall_EnumerateData`. -/
def extractDescriptions : List ProcDescription → StateM DataStream (List ProcDescription)
  | [] => pure []
  | item :: rest => do
    let item ← extractDescription item
    let rest ← extractDescriptions rest
    pure (item :: rest)
/-- `v.resize(n)`. -/
def resize {α : Type} (v : List α) (n : Nat) (fresh : α) : List α :=
  v.take n ++ List.replicate (n - v.length) fresh

/-- `stream<<v`. -/
def insert : (τ : SerialType) → τ.Val → StateM DataStream Unit
  | .integer _ w, v => writeBytes true w.bytes v
  | .bool, v => writeRawData [boolImage v]
  | .float, v => writeRawData (bytesOf 4 v)
  | .double, v => writeRawData (bytesOf 8 v)
  | .string, v => insertString v
  | .vector signed w, v => do
    insertU32 (List.length v)
    insertItems signed w v
  | .enumerateData, v => do
    insertU32 (List.length v)
    insertDescriptions v
/-- `stream>>v`. -/
def extract : (τ : SerialType) → τ.Val → StateM DataStream τ.Val
  | .integer _ w, v => readBytes w.bytes v
  | .bool, _ => do
    let image ← readRawData 1
    pure (image.getD 0 0 != 0)
  | .float, _ => do
    let image ← readRawData 4
    pure (ofBytes (8*4) image)
  | .double, _ => do
    let image ← readRawData 8
    pure (ofBytes (8*8) image)
  | .string, v => extractString v
  | .vector _ w, v => do
    let length ← extractU32
    extractItems w (resize v length 0)
  | .enumerateData, v => do
    let size ← extractU32
    extractDescriptions (resize v size {})
/-- `ReadFromStream`. -/
def readFromStream (τ : SerialType) : StateM DataStream τ.Val := extract τ τ.default
/-- `SerializeArgs`: the pack is expanded from left to right. -/
def serializeArgs : List Value → StateM DataStream Unit
  | [] => pure ()
  | ⟨τ,v⟩ :: rest => do
    insert τ v
    serializeArgs rest
/-- `DeserializeArgs`: the braced list is evaluated from left to right. -/
def deserializeArgs : List SerialType → StateM DataStream (List Value)
  | [] => pure []
  | τ :: rest => do
    let v ← readFromStream τ
    let rest ← deserializeArgs rest
    pure (⟨τ,v⟩ :: rest)

/-! ### What is written -/

def encodeU32 (n : Nat) : List Byte := bytesOf 4 (BitVec.ofNat (8*4) n)
/-- A string in a packet: its length and its bytes. -/
def encodeString (v : List Byte) : List Byte := encodeU32 v.length ++ v
def encodeDescription (v : ProcDescription) : List Byte :=
  encodeString v.name ++ (encodeString v.return_type ++ (encodeString v.params_types ++ encodeString v.comment))
/-- The bytes that stand for a value in a packet. -/
def encode : (τ : SerialType) → τ.Val → List Byte
  | .integer _ w, v => bytesOf w.bytes v
  | .bool, v => [boolImage v]
  | .float, v => bytesOf 4 v
  | .double, v => bytesOf 8 v
  | .string, v => encodeString v
  | .vector _ w, v => encodeU32 (List.length v) ++ List.flatMap (bytesOf w.bytes) v
  | .enumerateData, v => encodeU32 (List.length v) ++ List.flatMap encodeDescription v
/-- The bytes that stand for a sequence of values. -/
def encodeArgs (values : List Value) : List Byte := values.flatMap fun value => encode value.1 value.2

@[simp] theorem encodeU32_length (n : Nat) : (encodeU32 n).length = 4 := by simp [encodeU32]
@[simp] theorem encodeString_length (v : List Byte) : (encodeString v).length = 4 + v.length := by
  simp [encodeString]

theorem insertU32_emits (n : Nat) : Emits (insertU32 n) (encodeU32 n) := writeBytes_emits true 4 _

theorem insertString_emits (v : List Byte) : Emits (insertString v) (encodeString v) := by
  intro s room
  have small : v.length % 2^32 = v.length := by
    have := room.small
    simp only [encodeString_length] at this
    omega
  have whole : Emits (writeRawData (v.take (v.length % 2^32))) v := by
    rw [small,List.take_length]
    exact writeRawData_emits v
  exact (insertU32_emits v.length).bind whole s room

theorem insertItems_emits (signed : Bool) (w : Width) (v : List (BitVec (8*w.bytes))) :
    Emits (insertItems signed w v) (v.flatMap (bytesOf w.bytes)) := by
  induction v with
  | nil => exact Emits.pure
  | cons item rest ih => exact (writeBytes_emits signed w.bytes item).bind ih

theorem insertDescription_emits (v : ProcDescription) : Emits (insertDescription v) (encodeDescription v) :=
  (insertString_emits v.name).bind ((insertString_emits v.return_type).bind
    ((insertString_emits v.params_types).bind (insertString_emits v.comment)))

theorem insertDescriptions_emits (v : List ProcDescription) :
    Emits (insertDescriptions v) (v.flatMap encodeDescription) := by
  induction v with
  | nil => exact Emits.pure
  | cons item rest ih => exact (insertDescription_emits item).bind ih

/-- Every writer stores exactly the encoding of its value. -/
theorem insert_emits (τ : SerialType) (v : τ.Val) : Emits (insert τ v) (encode τ v) := by
  cases τ with
  | integer signed w => exact writeBytes_emits true w.bytes v
  | bool => exact writeRawData_emits _
  | float => exact writeRawData_emits _
  | double => exact writeRawData_emits _
  | string => exact insertString_emits v
  | vector signed w => exact (insertU32_emits _).bind (insertItems_emits signed w v)
  | enumerateData => exact (insertU32_emits _).bind (insertDescriptions_emits v)

theorem serializeArgs_emits (values : List Value) : Emits (serializeArgs values) (encodeArgs values) := by
  induction values with
  | nil => exact Emits.pure
  | cons value rest ih => exact (insert_emits value.1 value.2).bind ih

/-! ### What is read back -/

/-- The length in front of a string or a container. -/
theorem Reads.extractU32 {s : DataStream} {bs : List Byte} (reads : Reads s bs) :
    extractU32 s =
      if 4 ≤ bs.length then ((ofBytes (8*4) (bs.take 4)).toNat,s.advance 4) else (0,s.raise) := by
  unfold Values.extractU32
  rw [run_bind,reads.readBytes]
  split <;> rfl

theorem extractU32_decodes (n : Nat) (small : n < 2^32) : Decodes extractU32 (encodeU32 n) n := by
  have value : (BitVec.ofNat (8*4) n).toNat = n := by simpa using small
  have decodes := (readBytes_decodes 4 0 (BitVec.ofNat (8*4) n)).map BitVec.toNat
  rw [value] at decodes
  exact decodes

theorem extractString_decodes (old v : List Byte) : Decodes (extractString old) (encodeString v) v := by
  intro s rest reads
  have small : v.length < 2^32 := by
    have := reads.small
    simp only [List.length_append,encodeString_length] at this
    omega
  rw [encodeString,List.append_assoc] at reads
  have behind := reads.advance
  rw [encodeU32_length] at behind
  have available : (s.advance 4).isReadAvailable v.length = true := by simp [behind.available]
  have first := extractU32_decodes v.length small s _ reads
  rw [encodeU32_length] at first
  unfold extractString
  rw [run_bind,first,run_bind,run_get]
  dsimp only
  rw [if_pos available]
  by_cases empty : v = []
  · subst empty
    simp [encodeString]
  · have positive : v.length ≠ 0 := by simpa using empty
    rw [if_pos positive,readRawData_decodes v _ rest behind,advance_advance,encodeString_length]

/-- The loops read into the items one after the other. -/
theorem extractItems_mapM (w : Width) (old : List (BitVec (8*w.bytes))) : extractItems w old = old.mapM (readBytes w.bytes) := by
  induction old with
  | nil => rfl
  | cons first others ih => rw [extractItems,List.mapM_cons,ih]
theorem extractDescriptions_mapM (old : List ProcDescription) : extractDescriptions old = old.mapM extractDescription := by
  induction old with
  | nil => rfl
  | cons first others ih => rw [extractDescriptions,List.mapM_cons,ih]

theorem mapM_decodes {α : Type} {one : α → StateM DataStream α} {image : α → List Byte}
    (each : ∀ old v, Decodes (one old) (image v) v) (old v : List α) (same : old.length = v.length) :
    Decodes (old.mapM one) (v.flatMap image) v := by
  induction v generalizing old with
  | nil =>
    have none : old = [] := List.length_eq_zero_iff.mp same
    subst none
    exact Decodes.pure _
  | cons item rest ih =>
    cases old with
    | nil => simp at same
    | cons first others =>
      have tail := ih others (by simpa using same)
      rw [List.mapM_cons]
      exact (each first item).bind (tail.map (item :: ·))
theorem extractItems_decodes (w : Width) (old v : List (BitVec (8*w.bytes))) (same : old.length = v.length) :
    Decodes (extractItems w old) (v.flatMap (bytesOf w.bytes)) v := by
  rw [extractItems_mapM]
  exact mapM_decodes (readBytes_decodes w.bytes) old v same

theorem extractDescription_decodes (old v : ProcDescription) :
    Decodes (extractDescription old) (encodeDescription v) v :=
  (extractString_decodes old.name v.name).bind ((extractString_decodes old.return_type v.return_type).bind
    ((extractString_decodes old.params_types v.params_types).bind
      ((extractString_decodes old.comment v.comment).map fun comment => { v with comment })))

theorem extractDescriptions_decodes (old v : List ProcDescription) (same : old.length = v.length) :
    Decodes (extractDescriptions old) (v.flatMap encodeDescription) v := by
  rw [extractDescriptions_mapM]
  exact mapM_decodes extractDescription_decodes old v same

theorem resize_length {α : Type} (v : List α) (n : Nat) (fresh : α) : (resize v n fresh).length = n := by
  simp [resize]
  omega

theorem length_le_flatMap {α : Type} (v : List α) (f : α → List Byte) (some : ∀ item, 1 ≤ (f item).length) :
    v.length ≤ (v.flatMap f).length := by
  induction v with
  | nil => simp
  | cons item rest ih =>
    have := some item
    simp only [List.flatMap_cons,List.length_append,List.length_cons]
    omega

theorem image_decodes (n : Nat) (v : BitVec (8*n)) :
    Decodes (readRawData n >>= fun image => pure (ofBytes (8*n) image)) (bytesOf n v) v := by
  have decodes := (readRawData_decodes (bytesOf n v)).map (ofBytes (8*n))
  rw [ofBytes_bytesOf,bytesOf_length] at decodes
  exact decodes

/-- A container: its element count, then its elements. -/
theorem counted_decodes {α : Type} (v : List α) (f : α → List Byte) (some : ∀ item, 1 ≤ (f item).length)
    (loop : Nat → StateM DataStream (List α)) (decodes : Decodes (loop v.length) (v.flatMap f) v) :
    Decodes (extractU32 >>= loop) (encodeU32 v.length ++ v.flatMap f) v := by
  intro s rest reads
  have small : v.length < 2^32 := by
    have bound := reads.small
    have elements := length_le_flatMap v f some
    simp only [List.length_append] at bound
    omega
  exact (extractU32_decodes v.length small).bind decodes s rest reads

/-- Every reader takes exactly the encoding of a value and answers the value. -/
theorem extract_decodes (τ : SerialType) (old v : τ.Val) : Decodes (extract τ old) (encode τ v) v := by
  cases τ with
  | integer signed w => exact readBytes_decodes w.bytes old v
  | bool =>
    have decodes := (readRawData_decodes [boolImage v]).map fun image => (image.getD 0 0 != 0 : Bool)
    have value : ([boolImage v].getD 0 0 != 0) = v := by
      change Bool at v
      cases v <;> decide
    rw [value] at decodes
    exact decodes
  | float => exact image_decodes 4 v
  | double => exact image_decodes 8 v
  | string => exact extractString_decodes old v
  | vector signed w =>
    exact counted_decodes v (bytesOf w.bytes) (fun _ => by simpa using w.bytes_pos)
      (fun length => extractItems w (resize old length 0)) (extractItems_decodes w _ v (resize_length old v.length 0))
  | enumerateData =>
    exact counted_decodes v encodeDescription (fun item => by simp [encodeDescription]; omega)
      (fun size => extractDescriptions (resize old size {})) (extractDescriptions_decodes _ v (resize_length old v.length {}))

theorem readFromStream_decodes (τ : SerialType) (v : τ.Val) : Decodes (readFromStream τ) (encode τ v) v :=
  extract_decodes τ τ.default v

theorem deserializeArgs_decodes (values : List Value) :
    Decodes (deserializeArgs (values.map Sigma.fst)) (encodeArgs values) values := by
  induction values with
  | nil => exact Decodes.pure _
  | cons value rest ih => exact (readFromStream_decodes value.1 value.2).bind (ih.map (value :: ·))

/-- A sequence written into a large enough buffer is read back from the written
    bytes, whatever follows them, and the cursor then stands at what follows. -/
theorem stream_round_trip (values : List Value) (buffer : Data) (large : (encodeArgs values).length ≤ buffer.size) :
    ∃ storage, ∃ written : DataStream,
      serializeArgs values (DataStream.ofWrite buffer) = ((),written) ∧
      written.m_write = some storage ∧ written.m_write_pos = (encodeArgs values).length ∧
      written.raised = 0 ∧ written.overrun = 0 ∧
      ∀ (suffix : List Byte) (packet : Data), packet.bytes = storage.bytes.take written.m_write_pos ++ suffix →
        ∃ read : DataStream,
          deserializeArgs (values.map Sigma.fst) (DataStream.ofRead packet) = (values,read) ∧
          read.m_read = some packet ∧ read.m_read_pos = written.m_write_pos ∧ read.unread = suffix ∧
          read.raised = 0 := by
  have bound : buffer.size < 2^32 := buffer.fits
  have executed := serializeArgs_emits values (DataStream.ofWrite buffer) (room_ofWrite large)
  have position : (0 + (encodeArgs values).length) % 2^32 = (encodeArgs values).length := by omega
  refine ⟨buffer.store 0 (encodeArgs values),_,executed,rfl,position,rfl,rfl,?_⟩
  intro suffix packet contents
  have stored : (buffer.store 0 (encodeArgs values)).bytes.take ((DataStream.ofWrite buffer).emit (encodeArgs values)).m_write_pos =
      encodeArgs values := ofWrite_emit_take large
  rw [stored] at contents
  have reads : Reads (DataStream.ofRead packet) (encodeArgs values ++ suffix) := by
    rw [← contents]
    exact reads_ofRead packet
  exact ⟨_,deserializeArgs_decodes values _ suffix reads,rfl,rfl,reads.advance.unread,rfl⟩

/-- A number and a string in a buffer of exactly their size. -/
theorem stream_round_trip_number_string :
    ∃ storage, ∃ written : DataStream,
      serializeArgs [⟨.integer true .two,(-2 : BitVec 16)⟩,⟨.string,[104,105]⟩]
        (DataStream.ofWrite ⟨List.replicate 8 0,by decide⟩) = ((),written) ∧
      written.m_write = some storage ∧ written.m_write_pos = 8 ∧ written.raised = 0 ∧ written.overrun = 0 ∧
      ∀ (suffix : List Byte) (packet : Data), packet.bytes = storage.bytes.take written.m_write_pos ++ suffix →
        ∃ read : DataStream,
          deserializeArgs [.integer true .two,.string] (DataStream.ofRead packet) =
            ([⟨.integer true .two,(-2 : BitVec 16)⟩,⟨.string,[104,105]⟩],read) ∧
          read.m_read = some packet ∧ read.m_read_pos = written.m_write_pos ∧ read.unread = suffix ∧
          read.raised = 0 :=
  stream_round_trip [⟨.integer true .two,(-2 : BitVec 16)⟩,⟨.string,[104,105]⟩]
    ⟨List.replicate 8 0,by decide⟩ (by decide)

end IpcPortable.Values
