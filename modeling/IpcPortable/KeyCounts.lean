import Mathlib.Data.Multiset.AddSub
import Mathlib.Data.List.Basic

/-!
Counting keys. A multiset gets the keys of the items of a list one after the
other, and loses them again; a key that is not there is not missed.
-/
namespace IpcPortable.KeyCounts
set_option linter.unusedSectionVars false
variable {κ ι : Type*} [DecidableEq κ]

/-- The keys are added one after the other. -/
def addKeys (keys : List κ) (counted : Multiset κ) : Multiset κ := keys.foldl (fun counted key => key ::ₘ counted) counted
/-- The keys are taken away one after the other, as far as they are there. -/
def eraseKeys (keys : List κ) (counted : Multiset κ) : Multiset κ := keys.foldl Multiset.erase counted

theorem addKeys_append (first later : List κ) (counted : Multiset κ) :
    addKeys later (addKeys first counted) = addKeys (first ++ later) counted :=
  List.foldl_append.symm
theorem count_addKeys (key : κ) (keyOf : ι → κ) (items : List ι) (counted : Multiset κ) :
    (addKeys (items.map keyOf) counted).count key = counted.count key + items.countP fun item => keyOf item = key := by
  induction items generalizing counted with
  | nil => rfl
  | cons item rest ih =>
    rw [List.map_cons,addKeys,List.foldl_cons,← addKeys,ih,Multiset.count_cons,List.countP_cons]
    by_cases same : keyOf item = key
    · simp [same]; omega
    · simp [same,Ne.symm same]
theorem count_eraseKeys (key : κ) (keyOf : ι → κ) (items : List ι) (counted : Multiset κ) :
    (eraseKeys (items.map keyOf) counted).count key = counted.count key - items.countP fun item => keyOf item = key := by
  induction items generalizing counted with
  | nil => rfl
  | cons item rest ih =>
    rw [List.map_cons,eraseKeys,List.foldl_cons,← eraseKeys,ih,List.countP_cons]
    by_cases same : keyOf item = key
    · subst same
      rw [Multiset.count_erase_self]
      simp; omega
    · rw [Multiset.count_erase_of_ne (Ne.symm same)]
      simp [same]

/-- Fewer items have a property that none has anew, and that one of them has lost. -/
theorem countP_lt_of_lost {had has : ι → Bool} {items : List ι} (kept : ∀ item ∈ items, has item → had item) {item : ι}
    (member : item ∈ items) (before : had item) (lost : has item = false) : items.countP has < items.countP had := by
  obtain ⟨first,later,rfl⟩ := List.append_of_mem member
  have first_kept : first.countP has ≤ first.countP had :=
    List.countP_mono_left fun one one_member => kept one (List.mem_append_left _ one_member)
  have later_kept : later.countP has ≤ later.countP had :=
    List.countP_mono_left fun one one_member =>
      kept one (List.mem_append_right _ (List.mem_cons_of_mem _ one_member))
  rw [List.countP_append,List.countP_append,List.countP_cons_of_pos before,List.countP_cons_of_neg (by simp [lost])]
  omega

end IpcPortable.KeyCounts
