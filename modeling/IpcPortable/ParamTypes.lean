import IpcPortable.Calls

/-!
The parameter types of a call as one string: each name with a separator behind
it. No two lists of names that pass `CheckSeparatorInName` have the same string,
and the three holders make the same of every list (`params_types`).
-/
namespace IpcPortable.ParamTypes
open IpcPortable.LittleEndian IpcPortable.DataStream IpcPortable.RawStrings IpcPortable.Calls

/-! ### Lists with an end mark -/

section marks
variable {α : Type} {mark : α}

/-- The first mark ends the first word. -/
theorem first_word {a b rest rest' : List α} (first : mark ∉ a) (second : mark ∉ b)
    (same : a ++ mark :: rest = b ++ mark :: rest') : a = b ∧ rest = rest' := by
  induction a generalizing b with
  | nil =>
    cases b with
    | nil => exact ⟨rfl,List.tail_eq_of_cons_eq same⟩
    | cons x b =>
      obtain ⟨rfl,_⟩ := List.cons.inj same
      exact absurd List.mem_cons_self second
  | cons x a ih =>
    cases b with
    | nil =>
      obtain ⟨rfl,_⟩ := List.cons.inj same
      exact absurd List.mem_cons_self first
    | cons y b =>
      obtain ⟨rfl,behind⟩ := List.cons.inj same
      obtain ⟨rfl,rest⟩ := ih (fun later => first (.tail x later)) (fun later => second (.tail x later)) behind
      exact ⟨rfl,rest⟩

/-- Words without the mark can be told apart by it. -/
theorem marked_injective {a b : List (List α)} (first : ∀ word ∈ a, mark ∉ word) (second : ∀ word ∈ b, mark ∉ word)
    (same : (a.flatMap fun word => word ++ [mark]) = b.flatMap fun word => word ++ [mark]) : a = b := by
  induction a generalizing b with
  | nil =>
    cases b with
    | nil => rfl
    | cons word b => simp at same
  | cons word a ih =>
    cases b with
    | nil => simp at same
    | cons word' b =>
      simp only [List.flatMap_cons,List.append_assoc,List.singleton_append] at same
      obtain ⟨rfl,behind⟩ := first_word (first word List.mem_cons_self) (second word' List.mem_cons_self) same
      rw [ih (fun later member => first later (.tail word member)) (fun later member => second later (.tail word member)) behind]

end marks

/-! ### The names -/

/-- `IsSeparatorInName`, from the place `i` on; behind a name there is a zero. -/
def isSeparatorInName : List Byte → Bool
  | [] => true
  | c :: behind => c ≠ separator && (c = 0 || isSeparatorInName behind)

/-- `CheckSeparatorInName` refuses the separator in a name without a zero. -/
theorem isSeparatorInName_iff {name_value : List Byte} (nonzero : 0 ∉ name_value) :
    isSeparatorInName name_value = true ↔ separator ∉ name_value := by
  induction name_value with
  | nil => simp [isSeparatorInName]
  | cons c behind ih =>
    obtain ⟨here,later⟩ := List.ne_and_not_mem_of_not_mem_cons nonzero
    rw [isSeparatorInName,Bool.and_eq_true,Bool.or_eq_true,ih later,List.mem_cons,not_or,decide_eq_true_iff,decide_eq_true_iff]
    constructor
    · rintro ⟨other,first | none⟩
      · exact absurd first.symm here
      · exact ⟨Ne.symm other,none⟩
    · rintro ⟨other,none⟩
      exact ⟨Ne.symm other,.inr none⟩

/-- The raw writes of the stream holder. -/
def rawWrites (params : List (List Byte)) : List (List Byte) := params.flatMap fun name => [name,[separator]]

theorem rawWrites_flatten (params : List (List Byte)) : (rawWrites params).flatten = makeParamsType params := by
  rw [makeParamsType_paramsType]
  induction params with
  | nil => rfl
  | cons name rest ih =>
    calc (rawWrites (name :: rest)).flatten = name ++ ([separator] ++ (rawWrites rest).flatten) := rfl
      _ = paramsType (name :: rest) := by rw [ih]; simp [paramsType]

/-- What the holders make of a list. The counting one has 32 bits. -/
structure HoldersAgree (params : List (List Byte)) : Prop where
  size : paramsTypeSize params = (makeParamsType params).length % 2^32
  writes : ∀ stream, (getParams addTypeStream params stream).2 =
    (rawWrites params).foldl (fun stream piece => (writeRawData piece stream).2) stream
  pieces : (rawWrites params).flatten = makeParamsType params
  written : Emits (getParams addTypeStream params) (makeParamsType params)

theorem getParams_writes (params : List (List Byte)) (stream : DataStream) :
    (getParams addTypeStream params stream).2 =
      (rawWrites params).foldl (fun stream piece => (writeRawData piece stream).2) stream := by
  induction params generalizing stream with
  | nil => rfl
  | cons name rest ih => exact ih _

theorem holders_agree (params : List (List Byte)) : HoldersAgree params where
  size := by rw [makeParamsType_paramsType,paramsTypeSize_eq]
  writes := getParams_writes params
  pieces := rawWrites_flatten params
  written := by
    rw [makeParamsType_paramsType]
    exact getParams_emits params

/-- The names are told apart by their string, and the holders agree on every list. -/
theorem params_types (a b : List (List Byte)) (first : ∀ name ∈ a, separator ∉ name) (second : ∀ name ∈ b, separator ∉ name) :
    (makeParamsType a = makeParamsType b ↔ a = b) ∧ ∀ params, HoldersAgree params := by
  refine ⟨⟨fun same => ?_,congrArg makeParamsType⟩,holders_agree⟩
  rw [makeParamsType_paramsType,makeParamsType_paramsType] at same
  exact marked_injective first second same

/-- The names `int8_t` and `bool`; `CheckSeparatorInName` accepts both. -/
def int8Name : List Byte := [105,110,116,56,95,116]
def boolName : List Byte := [98,111,111,108]
theorem names_checked : ∀ name ∈ [int8Name,boolName], separator ∉ name := by
  intro name member
  rcases List.mem_cons.mp member with rfl | member
  · exact (isSeparatorInName_iff (by decide)).mp rfl
  · obtain rfl := List.mem_singleton.mp member
    exact (isSeparatorInName_iff (by decide)).mp rfl

/-- The order of the parameters counts. -/
theorem params_types_swapped :
    makeParamsType [int8Name,boolName] ≠ makeParamsType [boolName,int8Name] ∧ ∀ params, HoldersAgree params := by
  have swapped : ∀ name ∈ [boolName,int8Name], separator ∉ name := fun name member =>
    names_checked name ((List.Perm.swap int8Name boolName []).subset member)
  obtain ⟨told,agree⟩ := params_types [int8Name,boolName] [boolName,int8Name] names_checked swapped
  exact ⟨fun same => absurd (told.mp same) (by decide),agree⟩

/-- The string of 2^32 empty names is longer than the counting holder can count. -/
theorem params_size_wraps : ¬ ∀ params : List (List Byte), paramsTypeSize params = (makeParamsType params).length := by
  intro counted
  have length (n : Nat) : (paramsType (List.replicate n [])).length = n := by
    induction n with
    | zero => rfl
    | succ n ih =>
      rw [List.replicate_succ,paramsType,List.flatMap_cons,List.length_append,← paramsType,ih]
      exact Nat.add_comm _ _
  have many := counted (List.replicate (2^32) [])
  rw [paramsTypeSize_eq,makeParamsType_paramsType,length] at many
  exact absurd many (by decide)

end IpcPortable.ParamTypes
