import IpcPortable.Calls
import IpcPortable.OrderedMaps
import Mathlib.Data.List.Lex
import Mathlib.Data.Prod.Lex

/-!
`CallInfoImpl::SignatureKey`: the keys of the registry. A key that comes out of
a packet is two raw strings; the keys in the registry are strings of the call
infos. Where all their bytes exist, the comparison of two keys is a linear
order of their contents.
-/
namespace IpcPortable.Signatures
open IpcPortable.LittleEndian IpcPortable.DataStream IpcPortable.RawStrings

structure SignatureKey where
  name : RawString
  params_type : RawString
/-- `SignatureKey::operator<`. -/
def SignatureKey.less (key other : SignatureKey) : Option Bool := do
  if ← key.name.equals other.name then key.params_type.less other.params_type
  else key.name.less other.name

/-- The strings `m_name` and `m_params_type` of a call info. -/
structure Signature where
  name : List Byte
  params_type : List Byte
deriving DecidableEq
/-- `GetSignatureKey`. -/
def Signature.key (signature : Signature) : SignatureKey :=
  ⟨RawString.ofBytes signature.name,RawString.ofBytes signature.params_type⟩

/-! ### The order of the keys -/

/-- The string as its signed characters. -/
def chars (bs : List Byte) : List Int := bs.map BitVec.toInt

theorem chars_injective : Function.Injective chars :=
  List.map_injective_iff.mpr fun _ _ same => BitVec.toInt_inj.mp same

def Signature.order (signature : Signature) : Lex (List Int × List Int) :=
  toLex (chars signature.name,chars signature.params_type)

theorem order_injective : Function.Injective Signature.order := by
  rintro ⟨name,params⟩ ⟨name',params'⟩ same
  have both := toLex.injective same
  simp only [Prod.mk.injEq] at both
  rw [chars_injective both.1,chars_injective both.2]

instance : LinearOrder Signature := LinearOrder.lift' Signature.order order_injective

theorem signature_lt {a b : Signature} :
    a < b ↔ chars a.name < chars b.name ∨ a.name = b.name ∧ chars a.params_type < chars b.params_type := by
  have unfolded : a < b ↔ chars a.name < chars b.name ∨
      chars a.name = chars b.name ∧ chars a.params_type < chars b.params_type := Prod.Lex.lt_iff
  rw [unfolded,chars_injective.eq_iff]

/-- The pointer points to the bytes. -/
def Points (m_str : Option (List Byte)) (bs : List Byte) : Prop := bs = [] ∨ ∃ behind, m_str = some (bs ++ behind)

theorem next_points {m_str : Option (List Byte)} {b : Byte} {bs : List Byte} (points : Points m_str (b :: bs)) :
    ∃ rest, next m_str = some (b,rest) ∧ Points rest bs := by
  rcases points with empty | ⟨behind,rfl⟩
  · cases empty
  · exact ⟨some (bs ++ behind),rfl,.inr ⟨behind,rfl⟩⟩

theorem lexicographicalCompare_points {first second : Option (List Byte)} {a b : List Byte} (left : Points first a)
    (right : Points second b) :
    lexicographicalCompare first a.length second b.length = some (decide (chars a < chars b)) := by
  induction a generalizing first second b with
  | nil =>
    cases b with
    | nil => simp [lexicographicalCompare,chars]
    | cons y b => simp [lexicographicalCompare,chars]
  | cons x a ih =>
    cases b with
    | nil => simp [lexicographicalCompare,chars]
    | cons y b =>
      obtain ⟨first',here,left'⟩ := next_points left
      obtain ⟨second',there,right'⟩ := next_points right
      have below : chars (x :: a) < chars (y :: b) ↔ x.toInt < y.toInt ∨ x.toInt = y.toInt ∧ chars a < chars b :=
        List.cons_lt_cons_iff
      simp only [List.length_cons,lexicographicalCompare,here,there,Option.bind_eq_bind,Option.bind_some,
        BitVec.slt_iff_toInt_lt,below,ih left' right']
      by_cases less : x.toInt < y.toInt
      · simp [less]
      · by_cases more : y.toInt < x.toInt
        · have different : x.toInt ≠ y.toInt := by omega
          simp [less,more,different]
        · have same : x.toInt = y.toInt := by omega
          simp [same]

theorem content_points {str : RawString} {bs : List Byte} (content : str.content = some bs) :
    str.m_len = bs.length ∧ Points str.m_str bs := by
  obtain ⟨m_str,m_len⟩ := str
  unfold RawString.content at content
  split at content
  · rename_i empty
    cases content
    exact ⟨empty,.inl rfl⟩
  · split at content
    · rename_i behind pointer
      split at content
      · rename_i inside
        obtain rfl := Option.some.inj content
        exact ⟨by simpa using inside,.inr ⟨behind.drop m_len,by simpa using pointer⟩⟩
      · cases content
    · cases content

theorem less_content {str other : RawString} {a b : List Byte} (left : str.content = some a)
    (right : other.content = some b) : str.less other = some (decide (chars a < chars b)) := by
  obtain ⟨length,points⟩ := content_points left
  obtain ⟨length',points'⟩ := content_points right
  rw [RawString.less,length,length']
  exact lexicographicalCompare_points points points'

theorem equals_content {str other : RawString} {a b : List Byte} (left : str.content = some a)
    (right : other.content = some b) : str.equals other = some (decide (a = b)) := by
  obtain ⟨length,_⟩ := content_points left
  obtain ⟨length',_⟩ := content_points right
  unfold RawString.equals
  split
  · rename_i different
    have : a ≠ b := by
      rintro rfl
      omega
    simp [this]
  · simp [left,right,beq_eq_decide]

/-- The two strings of a key are there. -/
structure SignatureKey.Holds (key : SignatureKey) (signature : Signature) : Prop where
  name : key.name.content = some signature.name
  params_type : key.params_type.content = some signature.params_type

theorem key_holds (signature : Signature) : signature.key.Holds signature :=
  ⟨content_ofBytes signature.name,content_ofBytes signature.params_type⟩

/-- Keys compare as their contents do. -/
theorem less_holds {key other : SignatureKey} {a b : Signature} (left : key.Holds a) (right : other.Holds b) :
    key.less other = some (decide (a < b)) := by
  simp only [SignatureKey.less,equals_content left.name right.name,Option.bind_eq_bind,Option.bind_some,signature_lt]
  by_cases same : a.name = b.name
  · simp [same,less_content left.params_type right.params_type]
  · simp [same,less_content left.name right.name]

/-! ### The search -/

section search
variable {ν : Type} {key_of : Signature → SignatureKey} {key : SignatureKey} {m_name_procs : List (Signature × ν)}

/-- The search of `std::map` for the first key that is not less; `key_of` is
    how a call info gives its key. -/
def keyLowerBound (key_of : Signature → SignatureKey) (key : SignatureKey) :
    List (Signature × ν) → Option (Option (Signature × ν))
  | [] => some none
  | entry :: rest => do
    if ← (key_of entry.1).less key then keyLowerBound key_of key rest else pure (some entry)
/-- `std::map::find`. -/
def keyFind (key_of : Signature → SignatureKey) (key : SignatureKey) (m_name_procs : List (Signature × ν)) :
    Option (Option (Signature × ν)) := do
  match ← keyLowerBound key_of key m_name_procs with
  | some entry => if ← key.less (key_of entry.1) then pure none else pure (some entry)
  | none => pure none

/-- What a bound answers is an entry of the map that is not less. -/
theorem keyLowerBound_above {entry : Signature × ν} (found : keyLowerBound key_of key m_name_procs = some (some entry)) :
    entry ∈ m_name_procs ∧ (key_of entry.1).less key = some false := by
  induction m_name_procs with
  | nil => cases found
  | cons first rest ih =>
    obtain ⟨below,compared,found⟩ := Option.bind_eq_some_iff.mp found
    cases below with
    | true => exact ⟨List.mem_cons_of_mem first (ih found).1,(ih found).2⟩
    | false =>
      cases found
      exact ⟨List.mem_cons_self,compared⟩
/-- What is found is an entry of the map, with a key that is neither less nor more. -/
theorem keyFind_same {entry : Signature × ν} (found : keyFind key_of key m_name_procs = some (some entry)) :
    entry ∈ m_name_procs ∧ (key_of entry.1).less key = some false ∧ key.less (key_of entry.1) = some false := by
  obtain ⟨bound,bounded,found⟩ := Option.bind_eq_some_iff.mp found
  cases bound with
  | none => cases found
  | some first =>
    obtain ⟨above,compared,found⟩ := Option.bind_eq_some_iff.mp found
    cases above with
    | true => cases found
    | false =>
      cases found
      exact ⟨(keyLowerBound_above bounded).1,(keyLowerBound_above bounded).2,compared⟩

/-- The search compares contents when all bytes of the keys are there. -/
theorem keyFind_holds {signature : Signature} (holds : key.Holds signature)
    (keys : ∀ entry ∈ m_name_procs, (key_of entry.1).Holds entry.1) :
    keyFind key_of key m_name_procs = some (OrderedMaps.find signature m_name_procs) := by
  have bound : keyLowerBound key_of key m_name_procs = some (OrderedMaps.lowerBound signature m_name_procs) := by
    induction m_name_procs with
    | nil => rfl
    | cons entry rest ih =>
      have first := keys entry List.mem_cons_self
      have later := ih fun other member => keys other (List.mem_cons_of_mem entry member)
      simp only [keyLowerBound,less_holds first holds,Option.bind_eq_bind,Option.bind_some,decide_eq_true_eq,
        OrderedMaps.lowerBound,later]
      split <;> rfl
  unfold keyFind OrderedMaps.find
  rw [bound]
  cases found : OrderedMaps.lowerBound signature m_name_procs with
  | none => rfl
  | some entry =>
    have here := keys entry (keyLowerBound_above (bound.trans (congrArg some found))).1
    simp only [Option.bind_eq_bind,Option.bind_some,less_holds holds here,decide_eq_true_eq]
    split <;> rfl

end search

end IpcPortable.Signatures
