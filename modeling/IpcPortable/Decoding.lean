import IpcPortable.Values

/-!
Decoding as a function of the bytes: what each reader should answer and leave,
or nothing when the bytes end too soon. The stream readers follow it. Where it
answers they answer the same and raise nothing; where it does not they raise
an assertion and go on (`Follows`).
-/
namespace IpcPortable.Decoding
open IpcPortable.LittleEndian IpcPortable.DataStream IpcPortable.Values
variable {α β : Type}

/-- A decoder answers a value and what is left of the bytes. -/
abbrev Decoder := StateT (List Byte) Option

def takeBytes (n : Nat) : Decoder (List Byte) := fun bs =>
  if n ≤ bs.length then some (bs.take n,bs.drop n) else none
def decodeU32 : Decoder Nat := do
  let image ← takeBytes 4
  pure (ofBytes (8*4) image).toNat
def decodeString : Decoder (List Byte) := do
  let length ← decodeU32
  takeBytes length
def decodeItems (w : Width) : Nat → Decoder (List (BitVec (8*w.bytes)))
  | 0 => pure []
  | n+1 => do
    let image ← takeBytes w.bytes
    let rest ← decodeItems w n
    pure (ofBytes (8*w.bytes) image :: rest)
def decodeDescription : Decoder ProcDescription := do
  let name ← decodeString
  let return_type ← decodeString
  let params_types ← decodeString
  let comment ← decodeString
  pure { name, return_type, params_types, comment }
def decodeDescriptions : Nat → Decoder (List ProcDescription)
  | 0 => pure []
  | n+1 => do
    let item ← decodeDescription
    let rest ← decodeDescriptions n
    pure (item :: rest)
/-- The value of a type at the start of the bytes. -/
def decode : (τ : SerialType) → Decoder τ.Val
  | .integer _ w => do
    let image ← takeBytes w.bytes
    pure (ofBytes (8*w.bytes) image : BitVec (8*w.bytes))
  | .bool => do
    let image ← takeBytes 1
    pure (image.getD 0 0 != 0 : Bool)
  | .float => do
    let image ← takeBytes 4
    pure (ofBytes (8*4) image : BitVec (8*4))
  | .double => do
    let image ← takeBytes 8
    pure (ofBytes (8*8) image : BitVec (8*8))
  | .string => decodeString
  | .vector _ w => do
    let length ← decodeU32
    decodeItems w length
  | .enumerateData => do
    let size ← decodeU32
    decodeDescriptions size
/-- The values of a list of types, one after the other. -/
def decodeArgs : List SerialType → Decoder (List Value)
  | [] => pure []
  | τ :: rest => do
    let v ← decode τ
    let rest ← decodeArgs rest
    pure (⟨τ,v⟩ :: rest)

/-- A stream reader follows a decoder: it answers the same and raises nothing
    where the decoder answers, and raises an assertion where it does not. -/
structure Follows (op : StateM DataStream α) (decoder : Decoder α) : Prop where
  monotone : ∀ s, s.raised ≤ (op s).2.raised
  complete : ∀ s bs a rest, Reads s bs → decoder bs = some (a,rest) →
    (op s).1 = a ∧ (op s).2.raised = s.raised ∧ Reads (op s).2 rest
  cut : ∀ s bs, Reads s bs → decoder bs = none → s.raised < (op s).2.raised

theorem follows_pure (a : α) : Follows (pure a) (pure a) where
  monotone := fun _ => Nat.le_refl _
  complete := by
    intro s bs b rest reads answer
    cases answer
    exact ⟨rfl,rfl,reads⟩
  cut := by
    intro s bs reads none
    cases none

theorem Follows.bind {first : StateM DataStream α} {second : α → StateM DataStream β} {p : Decoder α}
    {q : α → Decoder β} (before : Follows first p) (after : ∀ a, Follows (second a) (q a)) :
    Follows (first >>= second) (p >>= q) where
  monotone := fun s => Nat.le_trans (before.monotone s) ((after _).monotone _)
  complete := by
    intro s bs b rest reads answer
    obtain ⟨⟨a,middle⟩,here,there⟩ := Option.bind_eq_some_iff.mp answer
    obtain ⟨value,quiet,reads⟩ := before.complete s bs a middle reads here
    rw [← value] at there
    obtain ⟨value',quiet',reads'⟩ := (after _).complete _ middle b rest reads there
    exact ⟨value',quiet'.trans quiet,reads'⟩
  cut := by
    intro s bs reads none
    cases here : p bs with
    | none => exact Nat.lt_of_lt_of_le (before.cut s bs reads here) ((after _).monotone _)
    | some answer =>
      obtain ⟨a,middle⟩ := answer
      obtain ⟨value,quiet,reads⟩ := before.complete s bs a middle reads here
      have there : q (first s).1 middle = .none := by
        rw [value]
        have both : (p bs).bind (fun answer => q answer.1 answer.2) = .none := none
        rwa [here] at both
      rw [run_bind,← quiet]
      exact (after _).cut _ middle reads there

theorem readBytes_follows (n : Nat) (old : BitVec (8*n)) :
    Follows (readBytes n old) (takeBytes n >>= fun image => pure (ofBytes (8*n) image)) where
  monotone := by
    intro s
    unfold readBytes
    split
    · exact Nat.le_refl _
    · exact Nat.le_succ _
  complete := by
    intro s bs a rest reads answer
    obtain ⟨⟨image,middle⟩,here,there⟩ := Option.bind_eq_some_iff.mp answer
    cases there
    unfold takeBytes at here
    split at here
    · rename_i inside
      cases here
      rw [reads.readBytes,if_pos inside]
      exact ⟨rfl,rfl,reads.drop inside⟩
    · cases here
  cut := by
    intro s bs reads none
    have missing : ¬ n ≤ bs.length := by
      intro inside
      have both : (takeBytes n bs).bind (fun answer => some (ofBytes (8*n) answer.1,answer.2)) = .none := none
      simp [takeBytes,inside] at both
    rw [reads.readBytes,if_neg missing]
    exact Nat.lt_succ_self _

theorem readRawData_follows (n : Nat) : Follows (readRawData n) (takeBytes n) where
  monotone := by
    intro s
    unfold readRawData peekRawData
    rw [run_bind]
    split
    · exact Nat.le_refl _
    · exact Nat.le_succ _
  complete := by
    intro s bs a rest reads here
    unfold takeBytes at here
    split at here
    · rename_i inside
      cases here
      rw [reads.readRawData,if_pos inside]
      exact ⟨rfl,rfl,reads.drop inside⟩
    · cases here
  cut := by
    intro s bs reads none
    have missing : ¬ n ≤ bs.length := by
      intro inside
      simp [takeBytes,inside] at none
    rw [reads.readRawData,if_neg missing]
    exact Nat.lt_succ_self _

theorem Follows.map {op : StateM DataStream α} {decoder : Decoder α} (f : α → β) (follows : Follows op decoder) :
    Follows (op >>= fun a => pure (f a)) (decoder >>= fun a => pure (f a)) :=
  follows.bind fun a => follows_pure (f a)

theorem extractU32_follows : Follows extractU32 decodeU32 := by
  have follows := (readBytes_follows 4 0).map BitVec.toNat
  simpa [extractU32,decodeU32] using follows

/-- The bytes of a string behind its length. -/
theorem stringBytes_follows (v : List Byte) (length : Nat) :
    Follows (do
      let stream ← get
      if stream.isReadAvailable length then
        if length ≠ 0 then readRawData length else pure []
      else do
        modify DataStream.raise
        pure v) (takeBytes length) where
  monotone := by
    intro s
    rw [run_bind,run_get]
    dsimp only
    split
    · split
      · exact (readRawData_follows length).monotone s
      · exact Nat.le_refl _
    · exact Nat.le_succ _
  complete := by
    intro s bs a rest reads here
    have inside : length ≤ bs.length := by
      unfold takeBytes at here
      split at here
      · assumption
      · cases here
    rw [run_bind,run_get]
    dsimp only
    rw [if_pos (by simpa [reads.available] using inside)]
    by_cases empty : length = 0
    · subst empty
      rw [takeBytes,if_pos inside] at here
      cases here
      exact ⟨rfl,rfl,reads⟩
    · rw [if_pos empty]
      exact (readRawData_follows length).complete s bs a rest reads here
  cut := by
    intro s bs reads none
    have missing : ¬ length ≤ bs.length := by
      intro inside
      simp [takeBytes,inside] at none
    rw [run_bind,run_get]
    dsimp only
    rw [if_neg (by simpa [reads.available] using missing)]
    exact Nat.lt_succ_self _

theorem extractString_follows (v : List Byte) : Follows (extractString v) decodeString :=
  extractU32_follows.bind (stringBytes_follows v)

theorem extractItems_follows (w : Width) (old : List (BitVec (8*w.bytes))) :
    Follows (extractItems w old) (decodeItems w old.length) := by
  induction old with
  | nil => exact follows_pure []
  | cons item rest ih =>
    have follows := (readBytes_follows w.bytes item).bind fun item => ih.map (item :: ·)
    simpa [extractItems,decodeItems] using follows

theorem extractDescription_follows (v : ProcDescription) : Follows (extractDescription v) decodeDescription :=
  (extractString_follows v.name).bind fun name => (extractString_follows v.return_type).bind fun return_type =>
    (extractString_follows v.params_types).bind fun params_types =>
      (extractString_follows v.comment).map fun comment => ({ name, return_type, params_types, comment } : ProcDescription)

theorem extractDescriptions_follows (old : List ProcDescription) :
    Follows (extractDescriptions old) (decodeDescriptions old.length) := by
  induction old with
  | nil => exact follows_pure []
  | cons item rest ih => exact (extractDescription_follows item).bind fun item => ih.map (item :: ·)

/-- Every reader follows the decoder of its type, whatever value it starts from. -/
theorem extract_follows (τ : SerialType) (old : τ.Val) : Follows (extract τ old) (decode τ) := by
  cases τ with
  | integer signed w =>
    have follows := readBytes_follows w.bytes old
    exact follows
  | bool => exact (readRawData_follows 1).map fun image => (image.getD 0 0 != 0 : Bool)
  | float => exact (readRawData_follows 4).map fun image => (ofBytes (8*4) image : BitVec (8*4))
  | double => exact (readRawData_follows 8).map fun image => (ofBytes (8*8) image : BitVec (8*8))
  | string => exact extractString_follows old
  | vector signed w =>
    change List (BitVec (8*w.bytes)) at old
    refine extractU32_follows.bind fun length => ?_
    have follows := extractItems_follows w (resize old length 0)
    rwa [resize_length] at follows
  | enumerateData =>
    change List ProcDescription at old
    refine extractU32_follows.bind fun size => ?_
    have follows := extractDescriptions_follows (resize old size {})
    rwa [resize_length] at follows

theorem readFromStream_follows (τ : SerialType) : Follows (readFromStream τ) (decode τ) :=
  extract_follows τ τ.default

theorem deserializeArgs_follows (types : List SerialType) : Follows (deserializeArgs types) (decodeArgs types) := by
  induction types with
  | nil => exact follows_pure []
  | cons τ rest ih => exact (readFromStream_follows τ).bind fun v => ih.map (⟨τ,v⟩ :: ·)

end IpcPortable.Decoding
