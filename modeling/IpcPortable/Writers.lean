import IpcPortable.Replies

/-!
The serialisers as sequences of writes. Every serialiser runs twice, first on a
stream without storage, to measure, and then on the storage of the packet; both
runs make the same writes, whether there is room for them or not.
-/
namespace IpcPortable.Writers
open IpcPortable.LittleEndian IpcPortable.Regions IpcPortable.DataStream IpcPortable.Values IpcPortable.Packets
open IpcPortable.RawStrings IpcPortable.Calls IpcPortable.Dispatch IpcPortable.Replies

/-- The operation is a sequence of writes of `n` bytes, modulo the range of a
    `PacketSize`. -/
inductive Writer : StateM DataStream Unit → Nat → Prop
  | nothing : Writer (pure ()) 0
  | bytes (signed : Bool) (n : Nat) (t : BitVec (8*n)) : Writer (writeBytes signed n t) n
  | raw (data : List Byte) : Writer (writeRawData data) data.length
  | seq {first : StateM DataStream Unit} {second : Unit → StateM DataStream Unit} {a b : Nat} (before : Writer first a)
    (after : Writer (second ()) b) : Writer (first >>= second) (a + b)
  | wraps {op : StateM DataStream Unit} {m n : Nat} (writer : Writer op m) (same : m % 2^32 = n % 2^32) : Writer op n

/-! ### What writers do -/

/-- Without storage the cursor moves by the bytes that would be written. -/
theorem Writer.measures {op : StateM DataStream Unit} {n : Nat} (writer : Writer op n) :
    ∀ s, s.m_write = none → s.m_write_pos < 2^32 → op s = ((),{ s with m_write_pos := (s.m_write_pos + n) % 2^32 }) := by
  induction writer with
  | nothing =>
    intro s _ cursor
    rw [run_pure,Nat.add_zero,Nat.mod_eq_of_lt cursor]
  | bytes signed n t =>
    intro s empty _
    simp only [writeBytes,empty]
  | raw data =>
    intro s empty _
    simp only [writeRawData,reserveRawData,empty]
  | @seq first second a b _ _ before after =>
    intro s empty cursor
    have position : ((s.m_write_pos + a) % 2^32 + b) % 2^32 = (s.m_write_pos + (a + b)) % 2^32 := by omega
    rw [run_bind,before s empty cursor]
    refine (after { s with m_write_pos := (s.m_write_pos + a) % 2^32 } empty (Nat.mod_lt _ (Nat.two_pow_pos 32))).trans ?_
    simp only [position]
  | @wraps op m n _ same ih =>
    intro s empty cursor
    have position : (s.m_write_pos + m) % 2^32 = (s.m_write_pos + n) % 2^32 := by omega
    rw [ih s empty cursor,position]

theorem Writer.measured {op : StateM DataStream Unit} {n : Nat} (writer : Writer op n) : (op {}).2.m_write_pos = n % 2^32 := by
  rw [writer.measures {} rfl (Nat.two_pow_pos 32)]
  exact congrArg (· % 2^32) (Nat.zero_add n)

theorem Writer.keeps {op : StateM DataStream Unit} {n : Nat} (writer : Writer op n) : Keeps op := by
  induction writer with
  | nothing => exact fun _ => rfl
  | bytes signed n t => exact writeBytes_keeps signed n t
  | raw data => exact writeRawData_keeps data
  | seq _ _ before after => exact before.bind after
  | wraps _ _ ih => exact ih

/-- As long as no copy leaves the storage, the first `k` bytes stay and the
    cursor stays behind them. -/
structure Behind (k : Nat) (s s' : DataStream) : Prop where
  overrun : s.overrun ≤ s'.overrun
  front : s'.overrun = s.overrun → ∀ d, s.m_write = some d → k ≤ s.m_write_pos →
    k ≤ s'.m_write_pos ∧ ∃ d', s'.m_write = some d' ∧ d'.bytes.take k = d.bytes.take k

theorem Behind.refl (k : Nat) (s : DataStream) : Behind k s s :=
  ⟨Nat.le_refl _,fun _ d storage behind => ⟨behind,d,storage,rfl⟩⟩

theorem Behind.trans {k : Nat} {a b c : DataStream} (first : Behind k a b) (second : Behind k b c) : Behind k a c := by
  have grows := first.overrun
  have more := second.overrun
  refine ⟨Nat.le_trans grows more,?_⟩
  intro inside d storage behind
  obtain ⟨behind',d',storage',front⟩ := first.front (by omega) d storage behind
  obtain ⟨behind'',d'',storage'',front'⟩ := second.front (by omega) d' storage' behind'
  exact ⟨behind'',d'',storage'',front'.trans front⟩

theorem raise_behind (k : Nat) (s : DataStream) : Behind k s s.raise :=
  ⟨Nat.le_refl _,fun _ d storage behind => ⟨behind,d,storage,rfl⟩⟩

/-- A copy to the cursor that moves the cursor behind it. -/
theorem copy_behind (k : Nat) (s : DataStream) (bs : List Byte) {d : Data} (storage : s.m_write = some d) :
    Behind k s { s.copy s.m_write_pos bs with m_write_pos := (s.m_write_pos + bs.length) % 2^32 } := by
  have bound : d.size < 2^32 := d.fits
  simp only [DataStream.copy,storage]
  by_cases inside : s.m_write_pos + bs.length ≤ d.size
  · rw [if_pos inside]
    refine ⟨Nat.le_refl _,?_⟩
    intro _ d' same behind
    obtain rfl : d = d' := Option.some.inj (storage.symm.trans same)
    refine ⟨?_,_,rfl,overwrite_front behind bs⟩
    dsimp only
    omega
  · rw [if_neg inside]
    refine ⟨Nat.le_succ _,?_⟩
    intro outside
    exact absurd outside (Nat.succ_ne_self _)

theorem writeBytes_behind (k : Nat) (signed : Bool) (n : Nat) (t : BitVec (8*n)) (s : DataStream) :
    Behind k s (writeBytes signed n t s).2 := by
  unfold writeBytes
  split
  · rename_i d storage
    split
    · exact raise_behind k s
    · have copied := copy_behind k s (writeUnsafe signed n t) storage
      rw [writeUnsafe_bytesOf,bytesOf_length] at copied
      rw [writeUnsafe_bytesOf]
      exact copied
  · rename_i empty
    exact ⟨Nat.le_refl _,fun _ d storage => by cases empty.symm.trans storage⟩

theorem writeRawData_behind (k : Nat) (data : List Byte) (s : DataStream) : Behind k s (writeRawData data s).2 := by
  unfold writeRawData reserveRawData
  cases storage : s.m_write with
  | none => exact ⟨Nat.le_refl _,fun _ d present => by cases storage.symm.trans present⟩
  | some d =>
    dsimp only
    by_cases refused : s.m_write_pos < 2^32 - 1 - data.length ∧ d.size < (s.m_write_pos + data.length) % 2^32
    · rw [if_pos refused]
      exact raise_behind k s
    · rw [if_neg refused]
      have copied := copy_behind k s data storage
      simpa only [DataStream.copy,storage] using copied

theorem Writer.behind {op : StateM DataStream Unit} {n : Nat} (writer : Writer op n) (k : Nat) (s : DataStream) :
    Behind k s (op s).2 := by
  induction writer generalizing s with
  | nothing => exact Behind.refl k s
  | bytes signed n t => exact writeBytes_behind k signed n t s
  | raw data => exact writeRawData_behind k data s
  | seq _ _ before after => exact (before s).trans (after _)
  | wraps _ _ ih => exact ih s

/-! ### The serialisers -/

theorem insertU32_writer (n : Nat) : Writer (insertU32 n) 4 := .bytes true 4 _

theorem insertString_writer (v : List Byte) : Writer (insertString v) (encodeString v).length := by
  refine .wraps ((insertU32_writer v.length).seq (.raw _)) ?_
  have short : v.length % 2^32 ≤ v.length := Nat.mod_le _ _
  rw [List.length_take,Nat.min_eq_left short,encodeString_length]
  omega

theorem insertItems_writer (signed : Bool) (w : Width) (items : List (BitVec (8*w.bytes))) :
    Writer (insertItems signed w items) (items.flatMap (bytesOf w.bytes)).length := by
  induction items with
  | nil => exact .nothing
  | cons item rest ih =>
    rw [List.flatMap_cons,List.length_append,bytesOf_length]
    exact .seq (.bytes signed w.bytes item) ih

theorem insertDescription_writer (v : ProcDescription) : Writer (insertDescription v) (encodeDescription v).length := by
  simp only [encodeDescription,List.length_append]
  exact (insertString_writer v.name).seq ((insertString_writer v.return_type).seq
    ((insertString_writer v.params_types).seq (insertString_writer v.comment)))

theorem insertDescriptions_writer (items : List ProcDescription) :
    Writer (insertDescriptions items) (items.flatMap encodeDescription).length := by
  induction items with
  | nil => exact .nothing
  | cons item rest ih =>
    rw [List.flatMap_cons,List.length_append]
    exact (insertDescription_writer item).seq ih

theorem insert_writer (τ : SerialType) (v : τ.Val) : Writer (insert τ v) (encode τ v).length := by
  cases τ with
  | integer signed w =>
    have length : (encode (.integer signed w) v).length = w.bytes := bytesOf_length w.bytes _
    rw [length]
    exact .bytes true w.bytes v
  | bool => exact .raw _
  | float => exact .raw _
  | double => exact .raw _
  | string => exact insertString_writer v
  | vector signed w =>
    rw [encode,List.length_append,encodeU32_length]
    exact (insertU32_writer _).seq (insertItems_writer signed w v)
  | enumerateData =>
    rw [encode,List.length_append,encodeU32_length]
    exact (insertU32_writer _).seq (insertDescriptions_writer v)

theorem serializeArgs_writer (args : List Value) : Writer (serializeArgs args) (encodeArgs args).length := by
  induction args with
  | nil => exact .nothing
  | cons arg rest ih =>
    rw [encodeArgs,List.flatMap_cons,List.length_append]
    exact (insert_writer arg.1 arg.2).seq ih

theorem write_writer (bs : List Byte) : Writer (RawString.ofBytes bs).write (encodeString bs).length := by
  have whole : ((some bs).getD [] |>.take bs.length).length = bs.length := by simp
  rw [encodeString_length,← whole]
  exact (insertU32_writer _).seq (.raw _)

theorem getParams_writer (params : List (List Byte)) : Writer (getParams addTypeStream params) (paramsType params).length := by
  induction params with
  | nil => exact .nothing
  | cons name rest ih =>
    rw [paramsType,List.flatMap_cons,List.length_append,List.length_append]
    exact .seq (.seq (.raw name) (.raw [separator])) ih

theorem serializeCallSignature_writer (proc_name : List Byte) (send_return : Bool) (return_type : List Byte)
    (params : List (List Byte)) :
    Writer (serializeCallSignature proc_name send_return return_type params)
      (encodeSignature proc_name send_return return_type (paramsType params)).length := by
  simp only [encodeSignature,List.length_append,encodeString_length (paramsType params)]
  exact (write_writer proc_name).seq ((insert_writer .bool send_return).seq ((write_writer return_type).seq
    ((insertU32_writer _).seq (getParams_writer params))))

theorem serializeCall_writer (proc_name : List Byte) (send_return : Bool) (return_type : List Byte)
    (params : List (List Byte)) (args : List Value) :
    Writer (serializeCall proc_name send_return return_type params args)
      (encodeCall proc_name send_return return_type params args).length := by
  rw [encodeCall,List.length_append]
  exact (serializeCallSignature_writer proc_name send_return return_type params).seq (serializeArgs_writer args)

theorem storeReturnFailCall_writer (error_arg : ErrorArg) :
    Writer (storeReturnFailCall error_arg) (encodeFail error_arg).length := by
  rw [encodeFail,List.length_append,bytesOf_length]
  exact .seq (.bytes true 1 error_arg.error) (insertString_writer error_arg.message)

theorem packetHeaderWrite_writer (no_header_size : Nat) (pt : PacketType) (id : CallId) :
    Writer (packetHeaderWrite no_header_size pt id) (4 + (4 + 4)) :=
  (insertU32_writer no_header_size).seq (.seq (.bytes true 4 pt) (.bytes true 4 id))

end IpcPortable.Writers
