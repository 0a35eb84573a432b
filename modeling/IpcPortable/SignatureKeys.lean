import IpcPortable.ProcMaps

/-!
The keys of the handler map as the call infos make them. A `RawString` counts
its bytes in a `PacketSize`, so a `std::string` of 2^32 bytes or more does not
become a key: `ConvertCheckStrLen` raises an assertion and the key is empty.
Below that length keys compare as their contents do, and the map, whose only
means are these comparisons, keeps one entry for each content.
-/
namespace IpcPortable.SignatureKeys
open IpcPortable.LittleEndian IpcPortable.RawStrings IpcPortable.OrderedMaps IpcPortable.Signatures
variable {ν : Type}

/-- `RawString::ConvertCheckStrLen`: the length, and whether it raised an assertion. -/
def convertCheckStrLen (str_len : Nat) : Nat × Bool :=
  let res := str_len % 2^32
  if res ≠ str_len then (0,true) else (res,false)
/-- `RawString(const std::string&)`. -/
def ofStdString (str : List Byte) : RawString := ⟨some str,(convertCheckStrLen str.length).1⟩
/-- `CallInfoImpl::GetSignatureKey`. -/
def getSignatureKey (call_info : Signature) : SignatureKey :=
  ⟨ofStdString call_info.name,ofStdString call_info.params_type⟩

/-- `m_name_procs.find(key)`. -/
def find (key : SignatureKey) (m_name_procs : List (Signature × ν)) : Option (Option (Signature × ν)) :=
  keyFind getSignatureKey key m_name_procs
/-- `m_name_procs.emplace(call_info->GetSignatureKey(),value)`. -/
def emplace (call_info : Signature) (value : ν) : List (Signature × ν) → Option (List (Signature × ν))
  | [] => some [(call_info,value)]
  | entry :: rest => do
    if ← (getSignatureKey entry.1).less (getSignatureKey call_info) then
      let rest ← emplace call_info value rest
      pure (entry :: rest)
    else if ← (getSignatureKey call_info).less (getSignatureKey entry.1) then pure ((call_info,value) :: entry :: rest)
    else pure (entry :: rest)
/-- The map after the entries were put into it one after the other. -/
def emplaceAll : List (Signature × ν) → List (Signature × ν) → Option (List (Signature × ν))
  | [], m_name_procs => some m_name_procs
  | entry :: others, m_name_procs => do
    let m_name_procs ← emplace entry.1 entry.2 m_name_procs
    emplaceAll others m_name_procs

/-- Both strings have a length that a `PacketSize` can hold. -/
structure Fits (call_info : Signature) : Prop where
  name : call_info.name.length < 2^32
  params_type : call_info.params_type.length < 2^32

theorem ofStdString_content {str : List Byte} (small : str.length < 2^32) :
    (ofStdString str).content = some str ∧ (convertCheckStrLen str.length).2 = false := by
  have kept : convertCheckStrLen str.length = (str.length,false) := by
    rw [convertCheckStrLen,Nat.mod_eq_of_lt small]
    simp
  have same : ofStdString str = RawString.ofBytes str := by rw [ofStdString,kept,RawString.ofBytes]
  exact ⟨same ▸ content_ofBytes str,by rw [kept]⟩

/-- A string that is too long is the empty one, with an assertion. -/
theorem ofStdString_long {str : List Byte} (long : 2^32 ≤ str.length) :
    (convertCheckStrLen str.length).2 = true ∧ (ofStdString str).content = some [] := by
  have cut : str.length % 2^32 ≠ str.length :=
    Nat.ne_of_lt (Nat.lt_of_lt_of_le (Nat.mod_lt _ (Nat.two_pow_pos 32)) long)
  have dropped : convertCheckStrLen str.length = (0,true) := if_pos cut
  exact ⟨by rw [dropped],by rw [ofStdString,dropped]; rfl⟩

theorem getSignatureKey_holds {call_info : Signature} (fits : Fits call_info) : (getSignatureKey call_info).Holds call_info :=
  ⟨(ofStdString_content fits.name).1,(ofStdString_content fits.params_type).1⟩

/-! ### The order -/

theorem less_irrefl {key : SignatureKey} {a : Signature} (holds : key.Holds a) : key.less key = some false := by
  rw [less_holds holds holds]
  simp

theorem less_trans {key middle other : SignatureKey} {a b c : Signature} (left : key.Holds a) (between : middle.Holds b)
    (right : other.Holds c) (first : key.less middle = some true) (second : middle.less other = some true) :
    key.less other = some true := by
  rw [less_holds left between] at first
  rw [less_holds between right] at second
  rw [less_holds left right]
  have below : a < b := by simpa using first
  have above : b < c := by simpa using second
  simpa using lt_trans below above

/-- Keys of which none is less have the same content. -/
theorem less_total {key other : SignatureKey} {a b : Signature} (left : key.Holds a) (right : other.Holds b) :
    key.less other = some false ∧ other.less key = some false ↔ a = b := by
  rw [less_holds left right,less_holds right left]
  simp only [Option.some.injEq,decide_eq_false_iff_not,not_lt]
  exact ⟨fun ⟨above,below⟩ => le_antisymm below above,fun same => ⟨ge_of_eq same,le_of_eq same⟩⟩

/-! ### The map -/

theorem find_holds {key : SignatureKey} {a : Signature} (holds : key.Holds a) {m_name_procs : List (Signature × ν)}
    (fits : ∀ entry ∈ m_name_procs, Fits entry.1) : find key m_name_procs = some (OrderedMaps.find a m_name_procs) :=
  keyFind_holds holds fun entry member => getSignatureKey_holds (fits entry member)

theorem emplace_holds {call_info : Signature} (small : Fits call_info) (value : ν) {m_name_procs : List (Signature × ν)}
    (fits : ∀ entry ∈ m_name_procs, Fits entry.1) :
    emplace call_info value m_name_procs = some (OrderedMaps.insert call_info value m_name_procs) := by
  induction m_name_procs with
  | nil => rfl
  | cons entry rest ih =>
    have first := getSignatureKey_holds (fits entry List.mem_cons_self)
    have sought := getSignatureKey_holds small
    have later := ih fun other member => fits other (List.mem_cons_of_mem entry member)
    simp only [emplace,less_holds first sought,less_holds sought first,Option.bind_eq_bind,Option.bind_some,
      decide_eq_true_eq,OrderedMaps.insert,later]
    split
    · rfl
    · split
      · rfl
      · rfl

theorem insert_fits {call_info : Signature} (small : Fits call_info) (value : ν) {m_name_procs : List (Signature × ν)}
    (fits : ∀ entry ∈ m_name_procs, Fits entry.1) : ∀ entry ∈ OrderedMaps.insert call_info value m_name_procs, Fits entry.1 := by
  intro entry member
  rcases mem_insert_or member with rfl | old
  · exact small
  · exact fits entry old

/-- The map compares nothing else than the contents. -/
theorem emplaceAll_holds {others m_name_procs : List (Signature × ν)} (small : ∀ entry ∈ others, Fits entry.1)
    (fits : ∀ entry ∈ m_name_procs, Fits entry.1) :
    emplaceAll others m_name_procs = some (insertAll others m_name_procs) ∧
      ∀ entry ∈ insertAll others m_name_procs, Fits entry.1 := by
  induction others generalizing m_name_procs with
  | nil => exact ⟨rfl,fits⟩
  | cons entry others ih =>
    have first := small entry List.mem_cons_self
    have later (other : Signature × ν) (member : other ∈ others) := small other (List.mem_cons_of_mem entry member)
    simp only [emplaceAll,emplace_holds first entry.2 fits,Option.bind_eq_bind,Option.bind_some]
    exact ih later (insert_fits first entry.2 fits)

theorem find_lookup (a : Signature) {m_name_procs : List (Signature × ν)} (sorted : Sorted m_name_procs) :
    OrderedMaps.find a m_name_procs = (lookup a m_name_procs).map (a,·) := by
  unfold lookup
  cases found : OrderedMaps.find a m_name_procs with
  | none => rfl
  | some entry =>
    obtain ⟨_,rfl⟩ := (find_eq_some sorted).mp found
    rfl

/-- After insertions a key has the value of the first insertion of it. -/
theorem find_insertAll (a : Signature) (others : List (Signature × ν)) {m_name_procs : List (Signature × ν)}
    (sorted : Sorted m_name_procs) :
    OrderedMaps.find a (insertAll others m_name_procs) =
      (OrderedMaps.find a m_name_procs).or (others.find? fun entry => entry.1 = a) := by
  induction others generalizing m_name_procs with
  | nil => simp [insertAll]
  | cons entry others ih =>
    have inserted : OrderedMaps.find a (OrderedMaps.insert entry.1 entry.2 m_name_procs) =
        (OrderedMaps.find a m_name_procs).or (if entry.1 = a then some entry else none) := by
      rw [find_lookup a (sorted_insert sorted),find_lookup a sorted,lookup_insert entry.1 a entry.2 sorted]
      by_cases same : a = entry.1
      · subst same
        cases lookup entry.1 m_name_procs <;> simp
      · simp [same,Ne.symm same]
    rw [insertAll,List.foldl_cons,← insertAll,ih (sorted_insert sorted),inserted,List.find?_cons,Option.or_assoc]
    by_cases same : entry.1 = a
    · simp [same]
    · simp [same]

/-- For all contents of name and parameter signature, of any bytes, the order of
    the keys is irreflexive, transitive and total up to equality of the bytes.
    The strings of a call info become a key of their content without an
    assertion when a `PacketSize` can hold their lengths, and a map of such call
    infos finds, for every content, the entry that was put in first with exactly
    these bytes, and nothing if there is none. A longer string raises an
    assertion and becomes the empty key. -/
theorem key_ordered_by_content :
    (∀ (key : SignatureKey) a, key.Holds a → key.less key = some false) ∧
    (∀ (key middle other : SignatureKey) a b c, key.Holds a → middle.Holds b → other.Holds c →
      key.less middle = some true → middle.less other = some true → key.less other = some true) ∧
    (∀ (key other : SignatureKey) a b, key.Holds a → other.Holds b →
      (key.less other = some false ∧ other.less key = some false ↔ a = b)) ∧
    (∀ call_info, Fits call_info → (getSignatureKey call_info).Holds call_info ∧
      (convertCheckStrLen call_info.name.length).2 = false ∧
      (convertCheckStrLen call_info.params_type.length).2 = false) ∧
    (∀ others : List (Signature × ν), (∀ entry ∈ others, Fits entry.1) →
      ∃ m_name_procs, emplaceAll others [] = some m_name_procs ∧
        ∀ (key : SignatureKey) a, key.Holds a →
          find key m_name_procs = some (others.find? fun entry => entry.1 = a)) ∧
    ∀ str, 2^32 ≤ str.length → (convertCheckStrLen str.length).2 = true ∧ (ofStdString str).content = some [] := by
  refine ⟨?_,?_,?_,?_,?_,?_⟩
  · exact fun key a holds => less_irrefl holds
  · exact fun key middle other a b c left between right => less_trans left between right
  · exact fun key other a b left right => less_total left right
  · exact fun call_info fits =>
      ⟨getSignatureKey_holds fits,(ofStdString_content fits.name).2,(ofStdString_content fits.params_type).2⟩
  · intro others small
    have none : ∀ entry ∈ ([] : List (Signature × ν)), Fits entry.1 := fun entry member => (List.not_mem_nil member).elim
    obtain ⟨built,fits⟩ := emplaceAll_holds small none
    refine ⟨_,built,?_⟩
    intro key a holds
    rw [find_holds holds fits,find_insertAll a others List.Pairwise.nil]
    rfl
  · exact fun str long => ofStdString_long long

/-- A name of 2^32 bytes becomes the empty key: neither key is less, the strings
    differ, and the map answers the entry of the empty name. -/
theorem key_long_name :
    let long : Signature := ⟨List.replicate (2^32) 97,[]⟩
    let empty : Signature := ⟨[],[]⟩
    long.params_type = empty.params_type ∧ long.name ≠ empty.name ∧
      (convertCheckStrLen long.name.length).2 = true ∧
      (getSignatureKey long).less (getSignatureKey empty) = some false ∧
      (getSignatureKey empty).less (getSignatureKey long) = some false ∧
      find (getSignatureKey long) [(empty,())] = some (some (empty,())) := by
  have length : (List.replicate (2^32) (97 : Byte)).length = 2^32 := List.length_replicate
  have key : getSignatureKey ⟨List.replicate (2^32) 97,[]⟩ = ⟨⟨some (List.replicate (2^32) 97),0⟩,⟨some [],0⟩⟩ := by
    unfold getSignatureKey ofStdString
    rw [length]
    rfl
  refine ⟨rfl,?_,?_,?_,?_,?_⟩
  · intro same
    have lengths := congrArg List.length same
    rw [length] at lengths
    cases lengths
  · rw [length]
    rfl
  · rw [key]; rfl
  · rw [key]; rfl
  · rw [key]; rfl

end IpcPortable.SignatureKeys
