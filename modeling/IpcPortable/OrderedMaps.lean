import Mathlib.Order.Lattice

/-!
Ordered maps as the list of their entries, in ascending order of the keys:
what a search that stops at the first entry not below the key finds.
-/
namespace IpcPortable.OrderedMaps
universe u v
variable {κ : Type u} {ν : Type v} [LinearOrder κ]

/-- The keys ascend, so no key occurs twice. -/
def Sorted (entries : List (κ × ν)) : Prop := entries.Pairwise fun a b => a.1 < b.1

/-- The first entry whose key is not below `key`. -/
def lowerBound (key : κ) : List (κ × ν) → Option (κ × ν)
  | [] => none
  | entry :: rest => if entry.1 < key then lowerBound key rest else some entry
def find (key : κ) (entries : List (κ × ν)) : Option (κ × ν) :=
  match lowerBound key entries with
  | none => none
  | some entry => if key < entry.1 then none else some entry

theorem find_cons_lt {key : κ} {entry : κ × ν} {rest : List (κ × ν)} (below : entry.1 < key) :
    find key (entry :: rest) = find key rest := by
  simp only [find,lowerBound,if_pos below]

theorem find_cons_ge {key : κ} {entry : κ × ν} {rest : List (κ × ν)} (above : ¬ entry.1 < key) :
    find key (entry :: rest) = if key < entry.1 then none else some entry := by
  simp only [find,lowerBound,if_neg above]

/-- The search finds exactly the entry with the key. -/
theorem find_eq_some {key : κ} {entries : List (κ × ν)} (sorted : Sorted entries) {entry : κ × ν} :
    find key entries = some entry ↔ entry ∈ entries ∧ entry.1 = key := by
  induction entries with
  | nil => simp [find,lowerBound]
  | cons first rest ih =>
    obtain ⟨ascends,sorted⟩ := List.pairwise_cons.mp sorted
    by_cases below : first.1 < key
    · rw [find_cons_lt below,ih sorted,List.mem_cons]
      constructor
      · exact fun ⟨member,equal⟩ => ⟨.inr member,equal⟩
      · rintro ⟨rfl | member,equal⟩
        · exact absurd equal (ne_of_lt below)
        · exact ⟨member,equal⟩
    · rw [find_cons_ge below]
      split
      · rename_i above
        simp only [reduceCtorEq,List.mem_cons,false_iff]
        rintro ⟨rfl | member,equal⟩
        · exact absurd equal (ne_of_gt above)
        · exact absurd equal (ne_of_gt (lt_trans above (ascends entry member)))
      · rename_i above
        have equal : first.1 = key := le_antisymm (le_of_not_gt above) (le_of_not_gt below)
        simp only [Option.some.injEq,List.mem_cons]
        constructor
        · rintro rfl
          exact ⟨.inl rfl,equal⟩
        · rintro ⟨rfl | member,found⟩
          · rfl
          · exact absurd (equal.trans found.symm) (ne_of_lt (ascends entry member))

theorem find_eq_none {key : κ} {entries : List (κ × ν)} (sorted : Sorted entries) :
    find key entries = none ↔ ∀ entry ∈ entries, entry.1 ≠ key := by
  constructor
  · intro missing entry member equal
    have found := (find_eq_some sorted).mpr ⟨member,equal⟩
    rw [missing] at found
    cases found
  · intro missing
    cases found : find key entries with
    | none => rfl
    | some entry =>
      obtain ⟨member,equal⟩ := (find_eq_some sorted).mp found
      exact absurd equal (missing entry member)

/-! ### The map of the entries -/

/-- The value of a key. -/
def lookup (key : κ) (entries : List (κ × ν)) : Option ν := (find key entries).map Prod.snd

/-- `insert`: an entry that is there stays. -/
def insert (key : κ) (value : ν) : List (κ × ν) → List (κ × ν)
  | [] => [(key,value)]
  | entry :: rest =>
    if entry.1 < key then entry :: insert key value rest
    else if key < entry.1 then (key,value) :: entry :: rest
    else entry :: rest
/-- `insert` of the entries of another map, one after the other. -/
def insertAll (others : List (κ × ν)) (entries : List (κ × ν)) : List (κ × ν) :=
  others.foldl (fun entries other => insert other.1 other.2 entries) entries
/-- The value of an entry that is there is overwritten. -/
def assign (key : κ) (value : ν) (entries : List (κ × ν)) : List (κ × ν) :=
  entries.map fun entry => if entry.1 = key then (entry.1,value) else entry

theorem lookup_eq_some {key : κ} {value : ν} {entries : List (κ × ν)} (sorted : Sorted entries) :
    lookup key entries = some value ↔ (key,value) ∈ entries := by
  unfold lookup
  constructor
  · intro found
    obtain ⟨⟨k,v⟩,at_key,rfl⟩ := Option.map_eq_some_iff.mp found
    obtain ⟨member,rfl⟩ := (find_eq_some sorted).mp at_key
    exact member
  · intro member
    rw [(find_eq_some sorted).mpr ⟨member,rfl⟩]
    rfl

theorem lookup_eq_none {key : κ} {entries : List (κ × ν)} (sorted : Sorted entries) :
    lookup key entries = none ↔ ∀ value, (key,value) ∉ entries := by
  rw [Option.eq_none_iff_forall_ne_some]
  exact forall_congr' fun value => not_congr (lookup_eq_some sorted)

theorem mem_insert_or {key : κ} {value : ν} {entries : List (κ × ν)} {entry : κ × ν}
    (member : entry ∈ insert key value entries) : entry = (key,value) ∨ entry ∈ entries := by
  induction entries with
  | nil => exact .inl (List.mem_singleton.mp member)
  | cons first rest ih =>
    rw [insert] at member
    split at member
    · rcases List.mem_cons.mp member with rfl | member
      · exact .inr List.mem_cons_self
      · exact (ih member).imp_right (List.mem_cons_of_mem first)
    · split at member
      · exact List.mem_cons.mp member
      · exact .inr member

theorem sorted_insert {key : κ} {value : ν} {entries : List (κ × ν)} (sorted : Sorted entries) :
    Sorted (insert key value entries) := by
  induction entries with
  | nil => exact List.pairwise_singleton _ _
  | cons first rest ih =>
    obtain ⟨ascends,behind⟩ := List.pairwise_cons.mp sorted
    rw [insert]
    split
    · rename_i below
      refine List.pairwise_cons.mpr ⟨fun entry member => ?_,ih behind⟩
      rcases mem_insert_or member with rfl | old
      · exact below
      · exact ascends entry old
    · split
      · rename_i above
        refine List.pairwise_cons.mpr ⟨fun entry member => ?_,sorted⟩
        rcases List.mem_cons.mp member with rfl | old
        · exact above
        · exact lt_trans above (ascends entry old)
      · exact sorted

theorem lookup_nil (key : κ) : lookup key ([] : List (κ × ν)) = none := rfl

theorem lookup_cons (key : κ) (entry : κ × ν) (rest : List (κ × ν)) :
    lookup key (entry :: rest) =
      if entry.1 < key then lookup key rest else if key < entry.1 then none else some entry.2 := by
  unfold lookup
  by_cases below : entry.1 < key
  · rw [find_cons_lt below,if_pos below]
  · rw [find_cons_ge below,if_neg below]
    split <;> rfl

/-- Only the inserted key gets a value, and only if it had none. -/
theorem lookup_insert (key other : κ) (value : ν) {entries : List (κ × ν)} (sorted : Sorted entries) :
    lookup other (insert key value entries) =
      if other = key then some ((lookup key entries).getD value) else lookup other entries := by
  induction entries with
  | nil =>
    rcases lt_trichotomy key other with below | rfl | above
    · simp [insert,lookup_cons,lookup_nil,below,ne_of_gt below]
    · simp [insert,lookup_cons,lookup_nil]
    · simp [insert,lookup_cons,lookup_nil,not_lt_of_gt above,above,ne_of_lt above]
  | cons first rest ih =>
    obtain ⟨ascends,behind⟩ := List.pairwise_cons.mp sorted
    rw [insert]
    split
    · rename_i below
      rw [lookup_cons,ih behind,lookup_cons key,if_pos below,lookup_cons other]
      by_cases same : other = key
      · subst same
        simp [below]
      · simp [same]
    · rename_i reached
      split
      · rename_i above
        rw [lookup_cons,lookup_cons key,if_neg reached,if_pos above]
        rcases lt_trichotomy key other with below | rfl | before
        · simp [below,ne_of_gt below]
        · simp
        · simp [not_lt_of_gt before,before,ne_of_lt before,lookup_cons,lt_trans before above,
            not_lt_of_gt (lt_trans before above)]
      · rename_i equal
        obtain rfl : first.1 = key := le_antisymm (le_of_not_gt equal) (le_of_not_gt reached)
        by_cases same : other = first.1
        · subst same
          simp [lookup_cons]
        · rw [if_neg same]

theorem sorted_insertAll {others entries : List (κ × ν)} (sorted : Sorted entries) : Sorted (insertAll others entries) := by
  induction others generalizing entries with
  | nil => exact sorted
  | cons other rest ih => exact ih (sorted_insert sorted)

/-- A key keeps its value, or gets the one of the other map. -/
theorem lookup_insertAll (key : κ) {others entries : List (κ × ν)} (ascending : Sorted others) (sorted : Sorted entries) :
    lookup key (insertAll others entries) = (lookup key entries).or (lookup key others) := by
  induction others generalizing entries with
  | nil => simp [insertAll,lookup_nil]
  | cons other rest ih =>
    obtain ⟨ascends,behind⟩ := List.pairwise_cons.mp ascending
    have inserted : Sorted (insert other.1 other.2 entries) := sorted_insert sorted
    have step := ih behind inserted
    rw [insertAll,List.foldl_cons,← insertAll,step,lookup_insert other.1 key other.2 sorted,lookup_cons]
    rcases lt_trichotomy other.1 key with below | rfl | above
    · simp [below,ne_of_gt below]
    · cases lookup other.1 entries <;> simp
    · have missing : lookup key rest = none := by
        refine (lookup_eq_none behind).mpr fun value member => ?_
        exact lt_asymm above (ascends _ member)
      simp [not_lt_of_gt above,above,ne_of_lt above,missing]

theorem sorted_assign {key : κ} {value : ν} {entries : List (κ × ν)} (sorted : Sorted entries) :
    Sorted (assign key value entries) := by
  refine List.pairwise_map.mpr (sorted.imp fun {a b} below => ?_)
  split <;> split <;> exact below

theorem lookup_assign (key other : κ) (value : ν) (entries : List (κ × ν)) :
    lookup other (assign key value entries) =
      if other = key then (lookup key entries).map fun _ => value else lookup other entries := by
  induction entries with
  | nil => simp [assign,lookup_nil]
  | cons first rest ih =>
    have key_of : (if first.1 = key then (first.1,value) else first).1 = first.1 := by split <;> rfl
    have behind : assign key value (first :: rest) =
        (if first.1 = key then (first.1,value) else first) :: assign key value rest := rfl
    rw [behind,lookup_cons,key_of,ih,lookup_cons key,lookup_cons other first]
    by_cases same : other = key
    · subst same
      rw [if_pos rfl,if_pos rfl]
      rcases lt_trichotomy first.1 other with below | rfl | above
      · simp [below]
      · simp
      · simp [not_lt_of_gt above,above]
    · rw [if_neg same,if_neg same]
      by_cases here : first.1 = key
      · subst here
        rcases lt_or_gt_of_ne same with before | behind
        · simp [before,not_lt_of_gt before]
        · simp [behind]
      · rw [if_neg here]

theorem lookup_filter (key : κ) (p : κ × ν → Bool) {entries : List (κ × ν)} (sorted : Sorted entries) :
    lookup key (entries.filter p) = (lookup key entries).filter fun value => p (key,value) := by
  have kept : Sorted (entries.filter p) := List.Pairwise.filter p sorted
  refine Option.ext fun value => ?_
  rw [lookup_eq_some kept,List.mem_filter,Option.filter_eq_some_iff,lookup_eq_some sorted]

end IpcPortable.OrderedMaps
