import IpcPortable.Decoding

/-!
The cursor of a stream that reads a packet. `Reading` writes a reader as the
calls of the stream's own members that it makes one after the other, each next
call chosen by the answers so far, so that the states between the calls of one
decoder can be spoken about. No call takes the cursor out of the packet.
-/
namespace IpcPortable.ReadCursor
open IpcPortable.LittleEndian IpcPortable.DataStream IpcPortable.Values IpcPortable.Decoding
variable {α β : Type}

/-- The members of the stream that readers call: `ReadBytes`,
    `ReadRawData(data,len)`, `ReadRawData(len)`, `IsReadAvailable` and the
    assertion. -/
inductive Access
  | bytes (n : Nat) (t : BitVec (8*n))
  | raw (len : Nat)
  | pointer (len : Nat)
  | available (size : Nat)
  | raise
@[reducible] def Access.Answer : Access → Type
  | .bytes n _ => BitVec (8*n)
  | .raw _ => List Byte
  | .pointer _ => Option (List Byte)
  | .available _ => Bool
  | .raise => Unit
def Access.perform : (access : Access) → StateM DataStream access.Answer
  | .bytes n t => readBytes n t
  | .raw len => readRawData len
  | .pointer len => peekRawData len
  | .available size => fun s => (s.isReadAvailable size,s)
  | .raise => modify DataStream.raise

/-- A reader as the calls it makes. -/
inductive Reading (α : Type)
  | done (a : α)
  | call (access : Access) (next : access.Answer → Reading α)
def Reading.bind : Reading α → (α → Reading β) → Reading β
  | .done a, f => f a
  | .call access next, f => .call access fun answer => (next answer).bind f
instance : Monad Reading where
  pure := .done
  bind := Reading.bind
/-- Making the calls. -/
def Reading.exec : Reading α → StateM DataStream α
  | .done a => pure a
  | .call access next => fun s => (next (access.perform s).1).exec (access.perform s).2
/-- The calls that are made, each with the stream it is made on. -/
def Reading.accesses : Reading α → DataStream → List (DataStream × Access)
  | .done _, _ => []
  | .call access next, s => (s,access) :: (next (access.perform s).1).accesses (access.perform s).2
def Access.reading (access : Access) : Reading access.Answer := .call access .done

/-! ### The readers as calls -/

def readingU32 : Reading Nat := do
  let n ← (Access.bytes 4 0).reading
  pure n.toNat
def readingString (v : List Byte) : Reading (List Byte) := do
  let length ← readingU32
  let present ← (Access.available length).reading
  if present then
    if length ≠ 0 then (Access.raw length).reading else pure []
  else do
    Access.raise.reading
    pure v
def readingItems (w : Width) : List (BitVec (8*w.bytes)) → Reading (List (BitVec (8*w.bytes)))
  | [] => pure []
  | item :: rest => do
    let item ← (Access.bytes w.bytes item).reading
    let rest ← readingItems w rest
    pure (item :: rest)
def readingDescription (v : ProcDescription) : Reading ProcDescription := do
  let name ← readingString v.name
  let return_type ← readingString v.return_type
  let params_types ← readingString v.params_types
  let comment ← readingString v.comment
  pure { name, return_type, params_types, comment }
def readingDescriptions : List ProcDescription → Reading (List ProcDescription)
  | [] => pure []
  | item :: rest => do
    let item ← readingDescription item
    let rest ← readingDescriptions rest
    pure (item :: rest)
/-- The calls that `stream>>v` makes. -/
def reading : (τ : SerialType) → τ.Val → Reading τ.Val
  | .integer _ w, v => (Access.bytes w.bytes v).reading
  | .bool, _ => do
    let image ← (Access.raw 1).reading
    pure (image.getD 0 0 != 0)
  | .float, _ => do
    let image ← (Access.raw 4).reading
    pure (ofBytes (8*4) image)
  | .double, _ => do
    let image ← (Access.raw 8).reading
    pure (ofBytes (8*8) image)
  | .string, v => readingString v
  | .vector _ w, v => do
    let length ← readingU32
    readingItems w (resize v length 0)
  | .enumerateData, v => do
    let size ← readingU32
    readingDescriptions (resize v size {})

theorem exec_pure (a : α) : (pure a : Reading α).exec = pure a := rfl
theorem exec_reading (access : Access) : access.reading.exec = access.perform := rfl
theorem exec_bind (first : Reading α) (second : α → Reading β) :
    (first >>= second).exec = first.exec >>= fun a => (second a).exec := by
  induction first with
  | done a => rfl
  | call access next ih =>
    funext s
    exact congrFun (ih (access.perform s).1) (access.perform s).2

theorem readingU32_exec : readingU32.exec = extractU32 := rfl

theorem readingString_exec (v : List Byte) : (readingString v).exec = extractString v := by
  have branches (length : Nat) (present : Bool) :
      (if present then if length ≠ 0 then (Access.raw length).reading else pure []
        else Access.raise.reading >>= fun _ => pure v : Reading (List Byte)).exec =
      if present then if length ≠ 0 then readRawData length else pure []
        else modify DataStream.raise >>= fun _ => pure v := by
    cases present with
    | false => rfl
    | true =>
      cases length with
      | zero => rfl
      | succ length => rfl
  unfold readingString extractString
  rw [exec_bind,readingU32_exec]
  congr 1
  funext length
  rw [exec_bind,exec_reading]
  funext s
  exact congrFun (branches length (s.isReadAvailable length)) s

theorem readingItems_exec (w : Width) (v : List (BitVec (8*w.bytes))) : (readingItems w v).exec = extractItems w v := by
  induction v with
  | nil => rfl
  | cons item rest ih =>
    rw [readingItems,extractItems,exec_bind]
    congr 1
    funext item
    rw [exec_bind,ih]
    rfl

theorem readingDescription_exec (v : ProcDescription) : (readingDescription v).exec = extractDescription v := by
  simp only [readingDescription,extractDescription,exec_bind,exec_pure,readingString_exec]

theorem readingDescriptions_exec (v : List ProcDescription) : (readingDescriptions v).exec = extractDescriptions v := by
  induction v with
  | nil => rfl
  | cons item rest ih =>
    simp only [readingDescriptions,extractDescriptions,exec_bind,exec_pure,readingDescription_exec,ih]

/-- Making the calls of a reader is running it. -/
theorem reading_exec (τ : SerialType) (v : τ.Val) : (reading τ v).exec = extract τ v := by
  cases τ with
  | integer signed w => rfl
  | bool => rfl
  | float => rfl
  | double => rfl
  | string => exact readingString_exec v
  | vector signed w =>
    have items (length : Nat) : (readingItems w (resize v length 0)).exec = extractItems w (resize v length 0) :=
      readingItems_exec w _
    exact (exec_bind readingU32 _).trans (congrArg (extractU32 >>= ·) (funext items))
  | enumerateData =>
    have items (size : Nat) : (readingDescriptions (resize v size {})).exec = extractDescriptions (resize v size {}) :=
      readingDescriptions_exec _
    exact (exec_bind readingU32 _).trans (congrArg (extractU32 >>= ·) (funext items))

/-! ### The cursor -/

/-- The stream reads the packet and its cursor stands inside it. -/
structure Inside (packet : Data) (s : DataStream) : Prop where
  present : s.m_read = some packet
  cursor : s.m_read_pos ≤ packet.size
/-- The bytes `[pos,pos+len)` of a packet. -/
def slice (packet : Data) (pos len : Nat) : List Byte := (packet.bytes.drop pos).take len
/-- What a call on the stream `s` answers and how far it moves the cursor: over
    the bytes it answers when they are there, and not at all otherwise. -/
def Access.Exact (packet : Data) (s : DataStream) : Access → Prop
  | .bytes n t =>
    if s.m_read_pos + n ≤ packet.size then
      bytesOf n (readBytes n t s).1 = slice packet s.m_read_pos n ∧ (readBytes n t s).2.m_read_pos = s.m_read_pos + n
    else (readBytes n t s).1 = t ∧ (readBytes n t s).2.m_read_pos = s.m_read_pos
  | .raw len =>
    if s.m_read_pos + len ≤ packet.size then
      (readRawData len s).1 = slice packet s.m_read_pos len ∧ (readRawData len s).2.m_read_pos = s.m_read_pos + len
    else (readRawData len s).1 = List.replicate len 0 ∧ (readRawData len s).2.m_read_pos = s.m_read_pos
  | .pointer len =>
    if s.m_read_pos + len ≤ packet.size then
      (∃ bytes, (peekRawData len s).1 = some bytes ∧ bytes.take len = slice packet s.m_read_pos len) ∧
        (peekRawData len s).2.m_read_pos = s.m_read_pos + len
    else (peekRawData len s).1 = none ∧ (peekRawData len s).2.m_read_pos = s.m_read_pos
  | .available size => s.isReadAvailable size = decide (s.m_read_pos + size ≤ packet.size)
  | .raise => s.raise.m_read_pos = s.m_read_pos

theorem inside_ofRead (packet : Data) : Inside packet (DataStream.ofRead packet) := ⟨rfl,Nat.zero_le _⟩

theorem Inside.reads {packet : Data} {s : DataStream} (inside : Inside packet s) :
    Reads s (packet.bytes.drop s.m_read_pos) := ⟨packet,inside.present,inside.cursor,rfl⟩

theorem Inside.length {packet : Data} {s : DataStream} (inside : Inside packet s) (len : Nat) :
    len ≤ (packet.bytes.drop s.m_read_pos).length ↔ s.m_read_pos + len ≤ packet.size := by
  have cursor := inside.cursor
  rw [List.length_drop]
  simp only [Data.size] at cursor ⊢
  omega

/-- The subtraction of `IsReadAvailable` does not wrap. -/
theorem Inside.subtraction {packet : Data} {s : DataStream} (inside : Inside packet s) :
    (packet.size + 2^32 - s.m_read_pos) % 2^32 = packet.size - s.m_read_pos := by
  have cursor := inside.cursor
  have bound : packet.size < 2^32 := packet.fits
  omega

theorem Inside.raise {packet : Data} {s : DataStream} (inside : Inside packet s) : Inside packet s.raise :=
  ⟨inside.present,inside.cursor⟩

theorem advance_position {packet : Data} {s : DataStream} {len : Nat} (fits : s.m_read_pos + len ≤ packet.size) : (s.advance len).m_read_pos = s.m_read_pos + len := by
  have bound : packet.size < 2^32 := packet.fits
  exact Nat.mod_eq_of_lt (by omega)

theorem Inside.advance {packet : Data} {s : DataStream} (inside : Inside packet s) {len : Nat}
    (fits : s.m_read_pos + len ≤ packet.size) : Inside packet (s.advance len) :=
  ⟨inside.present,by rw [advance_position fits]; exact fits⟩

/-- No call takes the cursor out of the packet. -/
theorem Inside.perform {packet : Data} {s : DataStream} (inside : Inside packet s) (access : Access) :
    Inside packet (access.perform s).2 := by
  have moved (len : Nat) {moved : DataStream}
      (either : moved = if len ≤ (packet.bytes.drop s.m_read_pos).length then s.advance len else s.raise) : Inside packet moved := by
    rw [either]
    split
    · rename_i fits
      exact inside.advance ((inside.length len).mp fits)
    · exact inside.raise
  cases access with
  | bytes n t =>
    apply moved n
    simp only [Access.perform,inside.reads.readBytes]
    split <;> rfl
  | raw len =>
    apply moved len
    simp only [Access.perform,inside.reads.readRawData]
    split <;> rfl
  | pointer len =>
    apply moved len
    simp only [Access.perform,inside.reads.peekRawData]
    split <;> rfl
  | available size => exact inside
  | raise => exact inside.raise

/-- Every call answers exactly the bytes at the cursor, or leaves it. -/
theorem Inside.exact {packet : Data} {s : DataStream} (inside : Inside packet s) (access : Access) :
    access.Exact packet s := by
  cases access with
  | bytes n t =>
    rw [Access.Exact,inside.reads.readBytes]
    by_cases fits : s.m_read_pos + n ≤ packet.size
    · rw [if_pos fits,if_pos ((inside.length n).mpr fits)]
      refine ⟨?_,advance_position fits⟩
      have whole : (slice packet s.m_read_pos n).length = n := by
        rw [slice,List.length_take,Nat.min_eq_left ((inside.length n).mpr fits)]
      exact bytesOf_ofBytes whole
    · rw [if_neg fits,if_neg (fits ∘ (inside.length n).mp)]
      exact ⟨rfl,rfl⟩
  | raw len =>
    rw [Access.Exact,inside.reads.readRawData]
    by_cases fits : s.m_read_pos + len ≤ packet.size
    · rw [if_pos fits,if_pos ((inside.length len).mpr fits)]
      exact ⟨rfl,advance_position fits⟩
    · rw [if_neg fits,if_neg (fits ∘ (inside.length len).mp)]
      exact ⟨rfl,rfl⟩
  | pointer len =>
    rw [Access.Exact,inside.reads.peekRawData]
    by_cases fits : s.m_read_pos + len ≤ packet.size
    · rw [if_pos fits,if_pos ((inside.length len).mpr fits)]
      exact ⟨⟨_,rfl,rfl⟩,advance_position fits⟩
    · rw [if_neg fits,if_neg (fits ∘ (inside.length len).mp)]
      exact ⟨rfl,rfl⟩
  | available size =>
    rw [Access.Exact,inside.reads.available]
    exact decide_eq_decide.mpr (inside.length size)
  | raise => rfl

/-- Every call of a reader is made on a stream whose cursor is inside. -/
theorem Inside.accesses {packet : Data} {reading : Reading α} {s : DataStream} (inside : Inside packet s) :
    ∀ entry ∈ reading.accesses s, Inside packet entry.1 := by
  induction reading generalizing s with
  | done a => exact fun entry member => (List.not_mem_nil member).elim
  | call access next ih =>
    intro entry member
    rcases List.mem_cons.mp member with rfl | later
    · exact inside
    · exact ih _ (inside.perform access) entry later

theorem Inside.exec {packet : Data} {reading : Reading α} {s : DataStream} (inside : Inside packet s) :
    Inside packet (reading.exec s).2 := by
  induction reading generalizing s with
  | done a => exact inside
  | call access next ih => exact ih _ (inside.perform access)

/-- A read operation: a member of the stream, or `stream>>v` for a value that
    holds `v` before. -/
inductive ReadOperation
  | member (access : Access)
  | value (τ : SerialType) (v : τ.Val)
/-- The stream after the operation. -/
def ReadOperation.perform : ReadOperation → DataStream → DataStream
  | .member access, s => (access.perform s).2
  | .value τ v, s => (extract τ v s).2
/-- The calls of the stream's members that the operation makes. -/
def ReadOperation.accesses : ReadOperation → DataStream → List (DataStream × Access)
  | .member access, s => access.reading.accesses s
  | .value τ v, s => (reading τ v).accesses s
/-- The stream after a sequence of operations. -/
def readAll (s : DataStream) (operations : List ReadOperation) : DataStream :=
  operations.foldl (fun s operation => operation.perform s) s

theorem Inside.operation {packet : Data} {s : DataStream} (inside : Inside packet s) (operation : ReadOperation) :
    Inside packet (operation.perform s) := by
  cases operation with
  | member access => exact inside.perform access
  | value τ v =>
    rw [ReadOperation.perform,← reading_exec τ v]
    exact inside.exec

theorem Inside.readAll {packet : Data} {s : DataStream} (inside : Inside packet s) (operations : List ReadOperation) :
    Inside packet (readAll s operations) := by
  induction operations generalizing s with
  | nil => exact inside
  | cons operation rest ih => exact ih (inside.operation operation)

theorem Inside.operation_accesses {packet : Data} {s : DataStream} (inside : Inside packet s) (operation : ReadOperation) :
    ∀ entry ∈ operation.accesses s, Inside packet entry.1 := by
  cases operation with
  | member access => exact inside.accesses
  | value τ v => exact inside.accesses

/-- A value that is read without an assertion is what the bytes from the cursor
    on decode to, and the cursor then stands behind them. -/
theorem Inside.decoded {packet : Data} {s : DataStream} (inside : Inside packet s) (τ : SerialType) (v : τ.Val)
    (quiet : (extract τ v s).2.raised = s.raised) :
    decode τ (packet.bytes.drop s.m_read_pos) =
      some ((extract τ v s).1,packet.bytes.drop (extract τ v s).2.m_read_pos) := by
  have follows := extract_follows τ v
  cases answer : decode τ (packet.bytes.drop s.m_read_pos) with
  | none =>
    have raised := follows.cut s _ inside.reads answer
    omega
  | some decoded =>
    obtain ⟨a,rest⟩ := decoded
    obtain ⟨value,_,reads⟩ := follows.complete s _ a rest inside.reads answer
    have after : Inside packet (extract τ v s).2 := inside.operation (.value τ v)
    rw [value,← reads.unread,after.reads.unread]

/-- Whatever is read from a packet, in whatever order: before, in and after
    every operation the cursor stands inside the packet and the subtraction of
    `IsReadAvailable` does not wrap. Every call answers exactly the bytes at the
    cursor and moves over them, or does not fit and leaves the cursor; a value
    that is read without an assertion is what the bytes at the cursor decode to,
    and the cursor moves over these. -/
theorem cursor_stays_inside (packet : Data) (operations : List ReadOperation) :
    (∀ before, before <+: operations → Inside packet (readAll (DataStream.ofRead packet) before)) ∧
    ∀ before operation, before ++ [operation] <+: operations →
      let s := readAll (DataStream.ofRead packet) before
      (∀ entry ∈ operation.accesses s,
        Inside packet entry.1 ∧
        (packet.size + 2^32 - entry.1.m_read_pos) % 2^32 = packet.size - entry.1.m_read_pos ∧
        entry.2.Exact packet entry.1 ∧
        Inside packet (entry.2.perform entry.1).2) ∧
      ∀ τ v, operation = .value τ v →
        (reading τ v).exec s = extract τ v s ∧
        ((extract τ v s).2.raised = s.raised →
          decode τ (packet.bytes.drop s.m_read_pos) =
            some ((extract τ v s).1,packet.bytes.drop (extract τ v s).2.m_read_pos)) := by
  have everywhere (before : List ReadOperation) : Inside packet (readAll (DataStream.ofRead packet) before) :=
    (inside_ofRead packet).readAll before
  refine ⟨fun before _ => everywhere before,?_⟩
  intro before operation _
  refine ⟨?_,?_⟩
  · intro entry member
    have inside := (everywhere before).operation_accesses operation entry member
    exact ⟨inside,inside.subtraction,inside.exact entry.2,inside.perform entry.2⟩
  · intro τ v _
    exact ⟨congrFun (reading_exec τ v) _,(everywhere before).decoded τ v⟩

end IpcPortable.ReadCursor
