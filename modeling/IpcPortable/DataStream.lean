import IpcPortable.LittleEndian
import IpcPortable.Regions

/-!
`MAssIpc_DataStream`: a cursor that writes into, or reads from, the storage of
one packet. A stream without storage still counts what is written to it, which
is how the library measures a packet before it allocates one.

`Emits` and `Decodes` say what a writing and a reading operation do while they
stay inside the storage; they compose along the sequence of the operations.
-/
set_option linter.dupNamespace false
namespace IpcPortable.DataStream
open IpcPortable.LittleEndian IpcPortable.Regions
variable {α β : Type}

/-- `MAssIpc_Data`: bytes whose number, `Size()`, is a `PacketSize`. -/
structure Data where
  bytes : List Byte
  fits : bytes.length < 2^32
/-- `MAssIpc_Data::Size`. -/
def Data.size (d : Data) : Nat := d.bytes.length
/-- A `memcpy` into the storage. -/
def Data.store (d : Data) (pos : Nat) (bs : List Byte) : Data where
  bytes := overwrite d.bytes pos bs
  fits := by simpa using d.fits
@[simp] theorem Data.store_size (d : Data) (pos : Nat) (bs : List Byte) : (d.store pos bs).size = d.size := by
  simp [Data.size,Data.store]

/-- The members of `MAssIpc_DataStream`. `raised` counts the calls of
    `MAssIpc_Assert::Raise`, `overrun` the copies that left the storage. -/
structure DataStream where
  m_read : Option Data := none
  m_write : Option Data := none
  m_read_pos : Nat := 0
  m_write_pos : Nat := 0
  raised : Nat := 0
  overrun : Nat := 0

def DataStream.ofRead (d : Data) : DataStream := { m_read := some d }
def DataStream.ofWrite (d : Data) : DataStream := { m_write := some d }
def DataStream.raise (s : DataStream) : DataStream := { s with raised := s.raised + 1 }
/-- `IsReadBufferPresent`. -/
def DataStream.isReadBufferPresent (s : DataStream) : Bool := s.m_read.isSome
/-- `IsReadAvailable`; the subtraction of two `PacketSize` values wraps. -/
def DataStream.isReadAvailable (s : DataStream) (size : Nat) : Bool :=
  match s.m_read with
  | some d => decide ((d.size + 2^32 - s.m_read_pos) % 2^32 ≥ size)
  | none => false
/-- What lies at `m_read->Data()+m_read_pos`. -/
def DataStream.unread (s : DataStream) : List Byte :=
  match s.m_read with
  | some d => d.bytes.drop s.m_read_pos
  | none => []
/-- `m_read_pos += len`. -/
def DataStream.advance (s : DataStream) (len : Nat) : DataStream :=
  { s with m_read_pos := (s.m_read_pos + len) % 2^32 }
/-- Copying `bs` to `m_write->Data()+pos`. -/
def DataStream.copy (s : DataStream) (pos : Nat) (bs : List Byte) : DataStream :=
  match s.m_write with
  | some d => { s with
      m_write := some (d.store pos bs)
      overrun := if pos + bs.length ≤ d.size then s.overrun else s.overrun + 1 }
  | none => s

/-! ### The shift loops -/

/-- The loop of `WriteUnsafe`; `>>=` copies the sign of a signed type. -/
def writeLoop {w : Nat} (signed : Bool) : Nat → BitVec w → List Byte
  | 0, _ => []
  | n+1, t => t.setWidth 8 :: writeLoop signed n (if signed then t.sshiftRight 8 else t >>> 8)
/-- `WriteUnsafe`: the bytes of a number of `n` bytes. -/
def writeUnsafe (signed : Bool) (n : Nat) (t : BitVec (8*n)) : List Byte :=
  if n = 1 then [t.setWidth 8] else writeLoop signed n t
/-- The loop of `ReadUnsafe` with `k` turns left, which reads `bytes[k-1]` next. -/
def readLoop {w : Nat} (bytes : List Byte) : Nat → BitVec w → BitVec w
  | 0, t => t
  | k+1, t => readLoop bytes k ((t <<< 8) ||| (bytes.getD k 0).setWidth w)
/-- `ReadUnsafe`: the number of `n` bytes that begins at `bytes`. -/
def readUnsafe (n : Nat) (bytes : List Byte) : BitVec (8*n) :=
  if n = 1 then (bytes.getD 0 0).setWidth (8*n) else readLoop bytes n 0

theorem shifted_byte {w : Nat} (signed : Bool) (t : BitVec w) (i : Nat) (inside : 8*(i+1) + 8 ≤ w) :
    (if signed then t.sshiftRight 8 else t >>> 8).extractLsb' (8*i) 8 = t.extractLsb' (8*(i+1)) 8 := by
  apply BitVec.eq_of_getLsbD_eq
  intro j low
  have position : 8 + (8*i+j) = 8*(i+1)+j := by omega
  have within : 8*(i+1)+j < w := by omega
  have below : 8*i+j < w := by omega
  cases signed with
  | false => simp [low,position]
  | true => simp [low,within,below,BitVec.getElem_sshiftRight,position]

theorem writeLoop_bytesOf {w : Nat} (signed : Bool) (n : Nat) (t : BitVec w) (inside : 8*n ≤ w) :
    writeLoop signed n t = bytesOf n t := by
  induction n generalizing t with
  | zero => rfl
  | succ n ih =>
    rw [writeLoop,bytesOf_succ,ih _ (by omega)]
    congr 1
    apply List.map_congr_left
    intro i member
    exact shifted_byte signed t i (by have := List.mem_range.mp member; omega)

/-- Whatever the sign, the writer stores the bytes of the number, lowest first. -/
theorem writeUnsafe_bytesOf (signed : Bool) (n : Nat) (t : BitVec (8*n)) :
    writeUnsafe signed n t = bytesOf n t := by
  unfold writeUnsafe
  split
  · rename_i one
    subst one
    rw [bytesOf_succ]
    rfl
  · exact writeLoop_bytesOf signed n t (by omega)

theorem readLoop_foldr {w : Nat} (bytes : List Byte) (k : Nat) (t : BitVec w) (inside : k ≤ bytes.length) :
    readLoop bytes k t = (bytes.take k).foldr (fun b (t : BitVec w) => (t <<< 8) ||| b.setWidth w) t := by
  induction k generalizing t with
  | zero => simp [readLoop]
  | succ k ih =>
    have here : bytes.getD k 0 = bytes[k] := by simp [List.getD_eq_getElem?_getD,Nat.lt_of_succ_le inside]
    rw [readLoop,ih _ (by omega),here,List.take_succ_eq_append_getElem (Nat.lt_of_succ_le inside),
      List.foldr_append]
    rfl

/-- The reader puts the first `n` bytes together, lowest first. -/
theorem readUnsafe_ofBytes (n : Nat) (bytes : List Byte) (inside : n ≤ bytes.length) :
    readUnsafe n bytes = ofBytes (8*n) (bytes.take n) := by
  unfold readUnsafe
  split
  · rename_i one
    subst one
    cases bytes with
    | nil => simp at inside
    | cons b bs => simp [ofBytes]
  · exact readLoop_foldr bytes n 0 inside

/-- Reading back what was written, whatever follows it. -/
theorem readUnsafe_append (n : Nat) (t : BitVec (8*n)) (rest : List Byte) :
    readUnsafe n (bytesOf n t ++ rest) = t := by
  rw [readUnsafe_ofBytes n _ (by simp),List.take_left' (by simp),ofBytes_bytesOf]

/-! ### Operations of the stream -/

/-- `WriteRawData(len)`: moves the cursor and answers the place to write to. -/
def reserveRawData (len : Nat) : StateM DataStream (Option Nat) := fun s =>
  match s.m_write with
  | some d =>
    if s.m_write_pos < 2^32 - 1 - len ∧ d.size < (s.m_write_pos + len) % 2^32 then (none,s.raise)
    else (some s.m_write_pos,{ s with m_write_pos := (s.m_write_pos + len) % 2^32 })
  | none => (none,{ s with m_write_pos := (s.m_write_pos + len) % 2^32 })
/-- `WriteRawData(data,len)` for the `len` bytes that begin at `data`. -/
def writeRawData (data : List Byte) : StateM DataStream Unit := fun s =>
  match reserveRawData data.length s with
  | (some pos,s) => ((),s.copy pos data)
  | (none,s) => ((),s)
/-- `WriteBytes`: the assertion compares in `size_t`, which does not wrap here. -/
def writeBytes (signed : Bool) (n : Nat) (t : BitVec (8*n)) : StateM DataStream Unit := fun s =>
  match s.m_write with
  | some d =>
    if s.m_write_pos < 2^32 - 1 - n ∧ d.size < s.m_write_pos + n then ((),s.raise)
    else ((),{ s.copy s.m_write_pos (writeUnsafe signed n t) with m_write_pos := (s.m_write_pos + n) % 2^32 })
  | none => ((),{ s with m_write_pos := (s.m_write_pos + n) % 2^32 })

/-- `ReadRawData(len)`: the pointer it answers is what lies behind it. -/
def peekRawData (len : Nat) : StateM DataStream (Option (List Byte)) := fun s =>
  if s.isReadAvailable len then (some s.unread,s.advance len) else (none,s.raise)
/-- `ReadRawData(data,len)`: zeros when the bytes are not there. -/
def readRawData (len : Nat) : StateM DataStream (List Byte) := do
  let pos ← peekRawData len
  match pos with
  | some bytes => pure (bytes.take len)
  | none => pure (List.replicate len 0)
/-- `ReadBytes`: `t` keeps its value when the bytes are not there. -/
def readBytes (n : Nat) (t : BitVec (8*n)) : StateM DataStream (BitVec (8*n)) := fun s =>
  if s.isReadAvailable n then (readUnsafe n s.unread,s.advance n) else (t,s.raise)

@[simp] theorem run_pure (a : α) (s : DataStream) : (pure a : StateM DataStream α) s = (a,s) := rfl
@[simp] theorem run_bind (op : StateM DataStream α) (f : α → StateM DataStream β) (s : DataStream) :
    (op >>= f) s = f (op s).1 (op s).2 := rfl
@[simp] theorem run_map (f : α → β) (op : StateM DataStream α) (s : DataStream) :
    (f <$> op) s = (f (op s).1,(op s).2) := rfl
@[simp] theorem run_get (s : DataStream) : (get : StateM DataStream DataStream) s = (s,s) := rfl

/-! ### Writing inside the storage -/

/-- The stream after `bs` was written at the cursor. -/
def DataStream.emit (s : DataStream) (bs : List Byte) : DataStream :=
  { s with
    m_write := s.m_write.map fun d => d.store s.m_write_pos bs
    m_write_pos := (s.m_write_pos + bs.length) % 2^32 }
/-- There is room for `n` more bytes; without storage there always is. -/
structure Room (s : DataStream) (n : Nat) : Prop where
  cursor : s.m_write_pos < 2^32
  small : n < 2^32
  inside : ∀ d, s.m_write = some d → s.m_write_pos + n ≤ d.size
/-- The operation writes the bytes `bs` wherever there is room for them. -/
def Emits (op : StateM DataStream Unit) (bs : List Byte) : Prop :=
  ∀ s, Room s bs.length → op s = ((),s.emit bs)

theorem emit_append {s : DataStream} {a b : List Byte} (room : Room s (a ++ b).length) :
    s.emit (a ++ b) = (s.emit a).emit b := by
  cases storage : s.m_write with
  | none => simp [DataStream.emit,storage,Nat.add_assoc]
  | some d =>
    have inside : s.m_write_pos + (a ++ b).length ≤ d.bytes.length := room.inside d storage
    have bound := d.fits
    have position : (s.m_write_pos + a.length) % 2^32 = s.m_write_pos + a.length := by
      rw [List.length_append] at inside
      omega
    simp only [DataStream.emit,storage,Option.map_some,position]
    simp [Data.store,overwrite_append inside,Nat.add_assoc]

theorem emit_nil {s : DataStream} (room : Room s 0) : s.emit [] = s := by
  have same : (s.m_write.map fun d => d.store s.m_write_pos []) = s.m_write := by
    cases storage : s.m_write with
    | none => rfl
    | some d =>
      have inside : s.m_write_pos ≤ d.bytes.length := room.inside d storage
      cases d
      simp only [Option.map_some,Data.store,overwrite_nil inside]
  simp only [DataStream.emit,same,List.length_nil,Nat.add_zero,Nat.mod_eq_of_lt room.cursor]

theorem room_left {s : DataStream} {a b : List Byte} (room : Room s (a ++ b).length) : Room s a.length := by
  have total : (a ++ b).length = a.length + b.length := List.length_append
  refine ⟨room.cursor,by have := room.small; omega,?_⟩
  intro d storage
  have := room.inside d storage
  omega

theorem room_right {s : DataStream} {a b : List Byte} (room : Room s (a ++ b).length) :
    Room (s.emit a) b.length := by
  have total : (a ++ b).length = a.length + b.length := List.length_append
  refine ⟨Nat.mod_lt _ (by decide),by have := room.small; omega,?_⟩
  intro d storage
  obtain ⟨old,was,rfl⟩ : ∃ old, s.m_write = some old ∧ old.store s.m_write_pos a = d := by
    simpa [DataStream.emit] using storage
  have inside := room.inside old was
  have bound : old.size < 2^32 := old.fits
  have position : (s.m_write_pos + a.length) % 2^32 = s.m_write_pos + a.length := by omega
  simp only [DataStream.emit,position,Data.store_size]
  omega

/-- A stream over fresh storage has the room that the storage has. -/
theorem room_ofWrite {buffer : Data} {n : Nat} (large : n ≤ buffer.size) : Room (DataStream.ofWrite buffer) n := by
  have bound : buffer.size < 2^32 := buffer.fits
  refine ⟨Nat.two_pow_pos 32,by omega,?_⟩
  intro d storage
  cases storage
  simpa [DataStream.ofWrite] using large

theorem room_measure {n : Nat} (small : n < 2^32) : Room {} n :=
  ⟨Nat.two_pow_pos 32,small,fun _ storage => by cases storage⟩

/-- What was written from the start of fresh storage are its first bytes. -/
theorem ofWrite_emit_take {buffer : Data} {bs : List Byte} (large : bs.length ≤ buffer.size) :
    (buffer.store 0 bs).bytes.take ((DataStream.ofWrite buffer).emit bs).m_write_pos = bs := by
  have bound : buffer.size < 2^32 := buffer.fits
  have position : ((DataStream.ofWrite buffer).emit bs).m_write_pos = 0 + bs.length := by
    simp only [DataStream.emit,DataStream.ofWrite]
    omega
  rw [position,Data.store,overwrite_take (by simpa [Data.size] using large)]
  rfl

theorem Emits.pure : Emits (pure ()) [] := by
  intro s room
  rw [emit_nil room,run_pure]

theorem Emits.bind {first : StateM DataStream Unit} {second : Unit → StateM DataStream Unit} {a b : List Byte}
    (before : Emits first a) (after : Emits (second ()) b) : Emits (first >>= second) (a ++ b) := by
  intro s room
  rw [run_bind,before s (room_left room),after _ (room_right room),emit_append room]

/-- A copy to the cursor, while it fits, is what `emit` does to the storage. -/
theorem copy_emit {s : DataStream} {bs : List Byte} {d : Data} (storage : s.m_write = some d)
    (inside : s.m_write_pos + bs.length ≤ d.size) :
    { s.copy s.m_write_pos bs with m_write_pos := (s.m_write_pos + bs.length) % 2^32 } = s.emit bs := by
  simp [DataStream.copy,DataStream.emit,storage,inside]

theorem writeBytes_emits (signed : Bool) (n : Nat) (t : BitVec (8*n)) :
    Emits (writeBytes signed n t) (bytesOf n t) := by
  intro s room
  rw [bytesOf_length] at room
  unfold writeBytes
  split
  · rename_i d storage
    have inside := room.inside d storage
    have accepted : ¬ (s.m_write_pos < 2^32 - 1 - n ∧ d.size < s.m_write_pos + n) := by omega
    have copied : { s.copy s.m_write_pos (bytesOf n t) with m_write_pos := (s.m_write_pos + n) % 2^32 } =
        s.emit (bytesOf n t) := by
      simpa using copy_emit storage (show s.m_write_pos + (bytesOf n t).length ≤ d.size by simpa using inside)
    rw [if_neg accepted,writeUnsafe_bytesOf,copied]
  · rename_i storage
    simp [DataStream.emit,storage]

theorem writeRawData_emits (data : List Byte) : Emits (writeRawData data) data := by
  intro s room
  unfold writeRawData reserveRawData
  cases storage : s.m_write with
  | none => simp [DataStream.emit,storage]
  | some d =>
    have inside := room.inside d storage
    have bound : d.size < 2^32 := d.fits
    have accepted : ¬ (s.m_write_pos < 2^32 - 1 - data.length ∧ d.size < (s.m_write_pos + data.length) % 2^32) := by
      omega
    simp only [if_neg accepted]
    simp [DataStream.copy,DataStream.emit,storage,inside]

/-! ### Writing anywhere -/

/-- The operation leaves the size of the storage as it is. -/
def Keeps (op : StateM DataStream Unit) : Prop :=
  ∀ s, (op s).2.m_write.map Data.size = s.m_write.map Data.size

theorem Keeps.bind {first : StateM DataStream Unit} {second : Unit → StateM DataStream Unit} (before : Keeps first)
    (after : Keeps (second ())) : Keeps (first >>= second) := by
  intro s
  rw [run_bind]
  exact (after _).trans (before s)

theorem copy_size (s : DataStream) (pos : Nat) (bs : List Byte) :
    (s.copy pos bs).m_write.map Data.size = s.m_write.map Data.size := by
  unfold DataStream.copy
  cases storage : s.m_write with
  | none => simp [storage]
  | some d => simp

theorem writeBytes_keeps (signed : Bool) (n : Nat) (t : BitVec (8*n)) : Keeps (writeBytes signed n t) := by
  intro s
  unfold writeBytes
  split
  · split
    · rfl
    · exact copy_size s s.m_write_pos (writeUnsafe signed n t)
  · rfl

theorem writeRawData_keeps (data : List Byte) : Keeps (writeRawData data) := by
  intro s
  unfold writeRawData reserveRawData
  cases storage : s.m_write with
  | none => simp
  | some d =>
    dsimp only
    split
    · rename_i pos s' reserved
      have same : s'.m_write = s.m_write := by
        split at reserved <;> cases reserved
        exact storage.symm ▸ rfl
      rw [copy_size,same,storage]
    · rename_i s' refused
      have same : s'.m_write = s.m_write := by
        split at refused <;> cases refused
        rfl
      rw [same,storage]

/-! ### Reading inside the packet -/

/-- The cursor stands inside the packet and `bs` is what lies behind it. -/
structure Reads (s : DataStream) (bs : List Byte) : Prop where
  packet : ∃ d, s.m_read = some d ∧ s.m_read_pos ≤ d.size ∧ d.bytes.drop s.m_read_pos = bs
/-- The operation reads exactly the bytes `bs`, whatever follows them, answers
    `a` and raises nothing. -/
def Decodes (op : StateM DataStream α) (bs : List Byte) (a : α) : Prop :=
  ∀ s rest, Reads s (bs ++ rest) → op s = (a,s.advance bs.length)
/-- The same for an answer that depends on what follows the bytes, as a pointer
    into the packet does. -/
def Yields (op : StateM DataStream α) (bs : List Byte) (answer : α → Prop) : Prop :=
  ∀ s rest, Reads s (bs ++ rest) → answer (op s).1 ∧ (op s).2 = s.advance bs.length

theorem reads_ofRead (d : Data) : Reads (DataStream.ofRead d) d.bytes :=
  ⟨d,rfl,Nat.zero_le _,rfl⟩

theorem Reads.unread {s : DataStream} {bs : List Byte} (reads : Reads s bs) : s.unread = bs := by
  obtain ⟨d,present,_,behind⟩ := reads.packet
  simp [DataStream.unread,present,behind]

/-- Inside the packet the wrapping subtraction compares as it should. -/
theorem Reads.available {s : DataStream} {bs : List Byte} (reads : Reads s bs) (size : Nat) :
    s.isReadAvailable size = decide (size ≤ bs.length) := by
  obtain ⟨d,present,inside,behind⟩ := reads.packet
  have bound : d.size < 2^32 := d.fits
  have left : (d.size + 2^32 - s.m_read_pos) % 2^32 = d.size - s.m_read_pos := by omega
  have length : bs.length = d.size - s.m_read_pos := by simp [← behind,Data.size]
  rw [length,← left]
  simp only [DataStream.isReadAvailable,present]

theorem Reads.advance {s : DataStream} {a b : List Byte} (reads : Reads s (a ++ b)) :
    Reads (s.advance a.length) b := by
  obtain ⟨d,present,inside,behind⟩ := reads.packet
  have bound : d.size < 2^32 := d.fits
  have length : (a ++ b).length = d.size - s.m_read_pos := by simp [← behind,Data.size]
  rw [List.length_append] at length
  have position : (s.m_read_pos + a.length) % 2^32 = s.m_read_pos + a.length := by omega
  refine ⟨d,present,by simp only [DataStream.advance,position]; omega,?_⟩
  simp only [DataStream.advance,position]
  rw [← List.drop_drop,behind,List.drop_left]

theorem Reads.drop {s : DataStream} {bs : List Byte} (reads : Reads s bs) {n : Nat} (inside : n ≤ bs.length) :
    Reads (s.advance n) (bs.drop n) := by
  rw [← List.take_append_drop n bs] at reads
  have after := reads.advance
  rwa [List.length_take,Nat.min_eq_left inside] at after

theorem Reads.raise {s : DataStream} {bs : List Byte} (reads : Reads s bs) : Reads s.raise bs := by
  obtain ⟨d,present,inside,behind⟩ := reads.packet
  exact ⟨d,present,inside,behind⟩

theorem Reads.small {s : DataStream} {bs : List Byte} (reads : Reads s bs) : bs.length < 2^32 := by
  obtain ⟨d,_,_,behind⟩ := reads.packet
  have bound := d.fits
  rw [← behind,List.length_drop]
  omega

/-- A number is read when its bytes are there; otherwise it keeps its value. -/
theorem Reads.readBytes {s : DataStream} {bs : List Byte} (reads : Reads s bs) (n : Nat) (t : BitVec (8*n)) :
    readBytes n t s = if n ≤ bs.length then (ofBytes (8*n) (bs.take n),s.advance n) else (t,s.raise) := by
  unfold DataStream.readBytes
  rw [reads.available]
  by_cases there : n ≤ bs.length
  · simp [there,reads.unread,readUnsafe_ofBytes n bs there]
  · simp [there]

theorem Reads.peekRawData {s : DataStream} {bs : List Byte} (reads : Reads s bs) (len : Nat) :
    peekRawData len s = if len ≤ bs.length then (some bs,s.advance len) else (none,s.raise) := by
  unfold DataStream.peekRawData
  rw [reads.available,reads.unread]
  simp

theorem Reads.readRawData {s : DataStream} {bs : List Byte} (reads : Reads s bs) (len : Nat) :
    readRawData len s = if len ≤ bs.length then (bs.take len,s.advance len) else (List.replicate len 0,s.raise) := by
  unfold DataStream.readRawData
  rw [run_bind,reads.peekRawData]
  split <;> rfl

theorem advance_advance (s : DataStream) (m n : Nat) : (s.advance m).advance n = s.advance (m + n) := by
  simp [DataStream.advance,Nat.add_assoc]

theorem Reads.advance_zero {s : DataStream} {bs : List Byte} (reads : Reads s bs) : s.advance 0 = s := by
  obtain ⟨d,_,inside,_⟩ := reads.packet
  have bound : d.size < 2^32 := d.fits
  simp only [DataStream.advance,Nat.add_zero,Nat.mod_eq_of_lt (Nat.lt_of_le_of_lt inside bound)]

theorem Decodes.pure (a : α) : Decodes (pure a) [] a := by
  intro s rest reads
  simp [reads.advance_zero]

theorem Decodes.bind {first : StateM DataStream α} {second : α → StateM DataStream β} {a b : List Byte}
    {x : α} {y : β} (before : Decodes first a x) (after : Decodes (second x) b y) :
    Decodes (first >>= second) (a ++ b) y := by
  intro s rest reads
  rw [List.append_assoc] at reads
  rw [run_bind,before s _ reads,after _ _ reads.advance,advance_advance,List.length_append]

theorem Decodes.map {op : StateM DataStream α} {bs : List Byte} {x : α} (f : α → β) (decodes : Decodes op bs x) :
    Decodes (op >>= fun a => Pure.pure (f a)) bs (f x) := by
  intro s rest reads
  rw [run_bind,decodes s rest reads,run_pure]

theorem Decodes.yields {op : StateM DataStream α} {bs : List Byte} {x : α} (decodes : Decodes op bs x) :
    Yields op bs (· = x) := by
  intro s rest reads
  rw [decodes s rest reads]
  exact ⟨rfl,rfl⟩

theorem Yields.bind {first : StateM DataStream α} {second : α → StateM DataStream β} {a b : List Byte}
    {here : α → Prop} {after : β → Prop} (before : Yields first a here)
    (next : ∀ x, here x → Yields (second x) b after) : Yields (first >>= second) (a ++ b) after := by
  intro s rest reads
  rw [List.append_assoc] at reads
  obtain ⟨answer,moved⟩ := before s _ reads
  obtain ⟨final,ended⟩ := next _ answer (first s).2 rest (by rw [moved]; exact reads.advance)
  rw [run_bind]
  exact ⟨final,by rw [ended,moved,advance_advance,List.length_append]⟩

theorem Yields.map {op : StateM DataStream α} {bs : List Byte} {here : α → Prop} {after : β → Prop} {f : α → β}
    (yields : Yields op bs here) (maps : ∀ x, here x → after (f x)) :
    Yields (op >>= fun a => Pure.pure (f a)) bs after := by
  intro s rest reads
  obtain ⟨answer,moved⟩ := yields s rest reads
  exact ⟨maps _ answer,moved⟩

theorem readBytes_decodes (n : Nat) (old t : BitVec (8*n)) : Decodes (readBytes n old) (bytesOf n t) t := by
  intro s rest reads
  have available : s.isReadAvailable n = true := by simp [reads.available]
  simp [readBytes,available,reads.unread,readUnsafe_append]

theorem readRawData_decodes (data : List Byte) : Decodes (readRawData data.length) data data := by
  intro s rest reads
  have available : s.isReadAvailable data.length = true := by simp [reads.available]
  simp [readRawData,peekRawData,available,reads.unread]

end IpcPortable.DataStream
