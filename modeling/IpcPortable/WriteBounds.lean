import IpcPortable.Runs
import IpcPortable.Values

/-!
Where the writing operations of a stream store. The guard refuses a write only
while the end of the write is below the top of the range of a `PacketSize`;
behind it, a write that does not fit is let through.
-/
namespace IpcPortable.WriteBounds
open IpcPortable.LittleEndian IpcPortable.DataStream IpcPortable.Values IpcPortable.Runs

/-- A writing operation with what it is given. `WriteRawData(len)` answers the
    place to which `WriteRawData(data,len)` copies. -/
inductive WriteOp
  | writeRawData (data : List Byte) (small : data.length < 2^32)
  | writeBytes (signed : Bool) (w : Width) (t : BitVec (8*w.bytes))
def WriteOp.perform : WriteOp → StateM DataStream Unit
  | .writeRawData data _ => DataStream.writeRawData data
  | .writeBytes signed w t => DataStream.writeBytes signed w.bytes t
/-- The bytes that are to be stored. -/
def WriteOp.image : WriteOp → List Byte
  | .writeRawData data _ => data
  | .writeBytes _ w t => bytesOf w.bytes t
/-- One write after the other; every write returns. -/
def write (s : DataStream) (op : WriteOp) : Option DataStream := some (op.perform s).2

/-- All bytes are stored inside the storage and the cursor moves behind them, or
    nothing is stored and an assertion is raised. The sums are over the naturals. -/
inductive Confined (bs : List Byte) (s s' : DataStream) : Prop
  | stored {d : Data} (storage : s.m_write = some d) (inside : s.m_write_pos + bs.length ≤ d.size)
      (after : s' = { s with
        m_write := some (d.store s.m_write_pos bs)
        m_write_pos := s.m_write_pos + bs.length })
  | refused (after : s' = s.raise)

/-- The write ends below the top of the range, or inside the storage. -/
def EndsBelow (size : Nat) (s : DataStream) (op : WriteOp) : Prop :=
  s.m_write_pos + op.image.length < 2^32 - 1 ∨ s.m_write_pos + op.image.length ≤ size

theorem image_small (op : WriteOp) : op.image.length < 2^32 := by
  cases op with
  | writeRawData data small => exact small
  | writeBytes signed w t =>
    rw [WriteOp.image,bytesOf_length]
    cases w <;> decide

/-- The write refuses, or copies and moves the cursor. In the guard the sum does
    not wrap, for the first comparison bounds it. -/
theorem writeRawData_copies (data : List Byte) {s : DataStream} {d : Data} (storage : s.m_write = some d) :
    (DataStream.writeRawData data s).2 =
      if s.m_write_pos < 2^32 - 1 - data.length ∧ d.size < s.m_write_pos + data.length then s.raise
      else { s.copy s.m_write_pos data with m_write_pos := (s.m_write_pos + data.length) % 2^32 } := by
  have guard : (s.m_write_pos < 2^32 - 1 - data.length ∧ d.size < (s.m_write_pos + data.length) % 2^32) ↔
      (s.m_write_pos < 2^32 - 1 - data.length ∧ d.size < s.m_write_pos + data.length) := by omega
  unfold DataStream.writeRawData reserveRawData
  rw [storage]
  dsimp only
  by_cases refused : s.m_write_pos < 2^32 - 1 - data.length ∧ d.size < s.m_write_pos + data.length
  · rw [if_pos (guard.mpr refused),if_pos refused]
  · rw [if_neg (mt guard.mp refused),if_neg refused]
    simp only [DataStream.copy,storage]

theorem writeBytes_copies (signed : Bool) (n : Nat) (t : BitVec (8*n)) {s : DataStream} {d : Data}
    (storage : s.m_write = some d) :
    (DataStream.writeBytes signed n t s).2 =
      if s.m_write_pos < 2^32 - 1 - (bytesOf n t).length ∧ d.size < s.m_write_pos + (bytesOf n t).length then s.raise
      else { s.copy s.m_write_pos (bytesOf n t) with
        m_write_pos := (s.m_write_pos + (bytesOf n t).length) % 2^32 } := by
  unfold DataStream.writeBytes
  rw [storage,bytesOf_length,writeUnsafe_bytesOf]
  dsimp only
  split <;> rfl

theorem perform_copies (op : WriteOp) {s : DataStream} {d : Data} (storage : s.m_write = some d) :
    (op.perform s).2 =
      if s.m_write_pos < 2^32 - 1 - op.image.length ∧ d.size < s.m_write_pos + op.image.length then s.raise
      else { s.copy s.m_write_pos op.image with m_write_pos := (s.m_write_pos + op.image.length) % 2^32 } := by
  cases op with
  | writeRawData data small => exact writeRawData_copies data storage
  | writeBytes signed w t => exact writeBytes_copies signed w.bytes t storage

/-- A copy that does not stay inside the storage is seen. -/
theorem copy_outside {s : DataStream} {d : Data} (storage : s.m_write = some d) {pos : Nat} {bs : List Byte}
    (outside : ¬ pos + bs.length ≤ d.size) : (s.copy pos bs).overrun = s.overrun + 1 := by
  simp [DataStream.copy,storage,outside]

theorem copy_inside {s : DataStream} {d : Data} (storage : s.m_write = some d) {pos : Nat} {bs : List Byte}
    (inside : pos + bs.length ≤ d.size) : s.copy pos bs = { s with m_write := some (d.store pos bs) } := by
  simp [DataStream.copy,storage,inside]

theorem perform_confined (op : WriteOp) {s : DataStream} {d : Data} (storage : s.m_write = some d) :
    Confined op.image s (op.perform s).2 ↔ EndsBelow d.size s op := by
  have bound : d.size < 2^32 := d.fits
  have small := image_small op
  rw [perform_copies op storage]
  by_cases refused : s.m_write_pos < 2^32 - 1 - op.image.length ∧ d.size < s.m_write_pos + op.image.length
  · rw [if_pos refused]
    exact ⟨fun _ => .inl (by omega),fun _ => .refused rfl⟩
  · rw [if_neg refused]
    by_cases inside : s.m_write_pos + op.image.length ≤ d.size
    · refine ⟨fun _ => .inr inside,fun _ => .stored storage inside ?_⟩
      rw [copy_inside storage inside,Nat.mod_eq_of_lt (by omega)]
    · -- the guard is open and the copy does not fit
      refine ⟨?_,?_⟩
      · intro confined
        cases confined with
        | stored present fits _ =>
          obtain rfl := Option.some.inj (storage.symm.trans present)
          exact absurd fits inside
        | refused after =>
          have seen := congrArg DataStream.overrun after
          rw [show _ = s.overrun + 1 from copy_outside storage inside] at seen
          exact absurd seen (Nat.succ_ne_self _)
      · rintro (below | fits)
        · omega
        · exact absurd fits inside

/-- The stream has storage of the given size. -/
def HasStorage (size : Nat) (s : DataStream) : Prop := ∃ d, s.m_write = some d ∧ d.size = size

theorem perform_keeps (op : WriteOp) : Keeps op.perform := by
  cases op with
  | writeRawData data small => exact writeRawData_keeps data
  | writeBytes signed w t => exact writeBytes_keeps signed w.bytes t

theorem write_hasStorage (size : Nat) : Preserves write (HasStorage size) := by
  rintro s op s' ⟨d,storage,sized⟩ stepped
  cases stepped
  have kept := perform_keeps op s
  rw [storage,Option.map_some,sized] at kept
  exact Option.map_eq_some_iff.mp kept

theorem Confined.overrun {bs : List Byte} {s s' : DataStream} (confined : Confined bs s s') :
    s'.overrun = s.overrun := by
  cases confined with
  | stored _ _ after => rw [after]
  | refused after => exact after ▸ rfl

/-- A write is confined exactly when it ends below the top of the range or
    inside the storage, whatever was written before it. In a run of such writes
    no byte outside the storage is ever written. -/
theorem writes_confined (buffer : Data) (ops : List WriteOp) :
    (∀ op, Confined op.image (run write (.ofWrite buffer) ops) (op.perform (run write (.ofWrite buffer) ops)).2 ↔
      EndsBelow buffer.size (run write (.ofWrite buffer) ops) op) ∧
    (Along write (EndsBelow buffer.size) (.ofWrite buffer) ops → (run write (.ofWrite buffer) ops).overrun = 0) := by
  have fresh : HasStorage buffer.size (.ofWrite buffer) := ⟨buffer,rfl,rfl⟩
  constructor
  · intro op
    obtain ⟨d,storage,sized⟩ := (write_hasStorage buffer.size).run fresh ops
    rw [← sized]
    exact perform_confined op storage
  · intro below
    have keeps : ∀ s op s', HasStorage buffer.size s ∧ s.overrun = 0 → EndsBelow buffer.size s op →
        write s op = some s' → HasStorage buffer.size s' ∧ s'.overrun = 0 := by
      rintro s op s' ⟨present,clean⟩ ends stepped
      refine ⟨write_hasStorage buffer.size s op s' present stepped,?_⟩
      obtain ⟨d,storage,sized⟩ := present
      cases stepped
      rw [← sized] at ends
      rw [((perform_confined op storage).mpr ends).overrun,clean]
    exact (Along.run keeps ⟨fresh,rfl⟩ below).2

theorem sixteen_small : (List.replicate 16 (0 : Byte)).length < 2^32 := by decide
def sixteenBytes : Data := ⟨List.replicate 16 0,sixteen_small⟩
theorem longest_small : (List.replicate (2^32 - 1) (0 : Byte)).length < 2^32 := by
  rw [List.length_replicate]
  decide

def twoWrites : List WriteOp := [.writeBytes true .four 7,.writeRawData [1] (by decide)]
theorem writes_confined_two : (run write (.ofWrite sixteenBytes) twoWrites).overrun = 0 ∧ twoWrites.length = 2 :=
  ⟨(writes_confined sixteenBytes twoWrites).2 ⟨fun _ => .inl (by decide),fun _ => .inl (by decide),trivial⟩,rfl⟩

/-- A write of 2^32-1 bytes into storage of sixteen bytes is let through. -/
theorem longest_write_outside :
    ¬ Confined (List.replicate (2^32 - 1) 0) (.ofWrite sixteenBytes)
      ((WriteOp.writeRawData (List.replicate (2^32 - 1) 0) longest_small).perform (.ofWrite sixteenBytes)).2 := by
  intro confined
  have ends := (perform_confined (.writeRawData (List.replicate (2^32 - 1) 0) longest_small)
    (show (DataStream.ofWrite sixteenBytes).m_write = some sixteenBytes from rfl)).mp confined
  have length : (WriteOp.writeRawData (List.replicate (2^32 - 1) 0) longest_small).image.length = 2^32 - 1 :=
    List.length_replicate
  have start : (DataStream.ofWrite sixteenBytes).m_write_pos = 0 := rfl
  have size : sixteenBytes.size = 16 := rfl
  rw [EndsBelow,length,start,size] at ends
  omega

end IpcPortable.WriteBounds
