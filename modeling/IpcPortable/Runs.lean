import Mathlib.Data.List.Basic
import Mathlib.Data.List.Perm.Basic
import Mathlib.Logic.Function.Basic

/-!
Runs of a system whose steps are partial. A run tries its actions one after the
other, and an action that is not enabled is skipped, so that every list of
actions is a schedule. What every step keeps holds after every run, and a run
of one system is seen as a run of another when every step is.
-/
namespace IpcPortable.Runs
variable {σ τ α β : Type*}

/-- The state after the actions were tried one after the other. -/
def run (step : σ → α → Option σ) (s : σ) : List α → σ
  | [] => s
  | action :: rest => run step ((step s action).getD s) rest

/-- Every step keeps the property. -/
def Preserves (step : σ → α → Option σ) (inv : σ → Prop) : Prop :=
  ∀ s action s', inv s → step s action = some s' → inv s'

theorem run_append (step : σ → α → Option σ) (s : σ) (before after : List α) :
    run step s (before ++ after) = run step (run step s before) after := by
  induction before generalizing s with
  | nil => rfl
  | cons action rest ih => exact ih _

theorem Preserves.getD {step : σ → α → Option σ} {inv : σ → Prop} (keeps : Preserves step inv) {s : σ} (holds : inv s)
    (action : α) : inv ((step s action).getD s) := by
  cases stepped : step s action with
  | none => exact holds
  | some s' => exact keeps s action s' holds stepped

theorem Preserves.run {step : σ → α → Option σ} {inv : σ → Prop} (keeps : Preserves step inv) {s : σ} (holds : inv s)
    (actions : List α) : inv (run step s actions) := by
  induction actions generalizing s with
  | nil => exact holds
  | cons action rest ih => exact ih (keeps.getD holds action)

/-- Every step that the run makes meets a condition on the state before it. -/
def Along (step : σ → α → Option σ) (meets : σ → α → Prop) : σ → List α → Prop
  | _, [] => True
  | s, action :: rest => ((step s action).isSome → meets s action) ∧ Along step meets ((step s action).getD s) rest

instance Along.decidable (step : σ → α → Option σ) (meets : σ → α → Prop) [∀ s action, Decidable (meets s action)] :
    ∀ s actions, Decidable (Along step meets s actions)
  | _, [] => .isTrue trivial
  | s, action :: rest =>
    have := Along.decidable step meets ((step s action).getD s) rest
    inferInstanceAs (Decidable (((step s action).isSome → meets s action) ∧ Along step meets ((step s action).getD s) rest))

/-- What every step keeps that meets the condition holds after the run. -/
theorem Along.run {step : σ → α → Option σ} {meets : σ → α → Prop} {inv : σ → Prop}
    (keeps : ∀ s action s', inv s → meets s action → step s action = some s' → inv s') {s : σ} (holds : inv s)
    {actions : List α} (along : Along step meets s actions) : inv (run step s actions) := by
  induction actions generalizing s with
  | nil => exact holds
  | cons action rest ih =>
    obtain ⟨met,later⟩ := along
    refine ih ?_ later
    cases stepped : step s action with
    | none => exact holds
    | some s' => exact keeps s action s' holds (met (by rw [stepped]; rfl)) stepped

/-- Where a step keeps a property if and only if it meets the condition, all
    steps of a run meet it if and only if the property holds all along. -/
theorem along_iff {step : σ → α → Option σ} {meets : σ → α → Prop} {inv holds : σ → Prop} (keeps : Preserves step inv)
    (exactly : ∀ s action s', inv s → holds s → step s action = some s' → (holds s' ↔ meets s action)) {s : σ}
    (start : inv s) (now : holds s) (actions : List α) :
    (∀ before, before <+: actions → holds (run step s before)) ↔ Along step meets s actions := by
  induction actions generalizing s with
  | nil =>
    refine ⟨fun _ => trivial,?_⟩
    rintro - before short
    rw [List.prefix_nil.mp short]
    exact now
  | cons action rest ih =>
    have unfolded : (∀ before, before <+: action :: rest → holds (run step s before)) ↔
        ∀ before, before <+: rest → holds (run step ((step s action).getD s) before) := by
      constructor
      · exact fun all before short => all (action :: before) (List.cons_prefix_cons.mpr ⟨rfl,short⟩)
      · intro later before short
        cases before with
        | nil => exact now
        | cons first others =>
          obtain ⟨rfl,rest_short⟩ := List.cons_prefix_cons.mp short
          exact later others rest_short
    rw [unfolded]
    cases stepped : step s action with
    | none =>
      rw [Option.getD_none,ih start now,Along,stepped,Option.getD_none]
      simp
    | some s' =>
      rw [Option.getD_some,Along,stepped,Option.getD_some]
      have same := exactly s action s' start now stepped
      constructor
      · intro all
        have after : holds s' := all [] (List.nil_prefix)
        exact ⟨fun _ => same.mp after,(ih (keeps s action s' start stepped) after).mp all⟩
      · rintro ⟨met,later⟩
        exact (ih (keeps s action s' start stepped) (same.mpr (met rfl))).mpr later

/-- How many steps of the run meet a condition on the state before them. -/
def tally (step : σ → α → Option σ) (meets : σ → α → Bool) : σ → List α → Nat
  | _, [] => 0
  | s, action :: rest =>
    (if (step s action).isSome && meets s action then 1 else 0) + tally step meets ((step s action).getD s) rest

/-- Conditions that agree wherever the run comes have the same tally. -/
theorem tally_congr {step : σ → α → Option σ} {meets meets' : σ → α → Bool} {s : σ} {actions : List α}
    (same : ∀ before action, before ++ [action] <+: actions →
      meets (run step s before) action = meets' (run step s before) action) :
    tally step meets s actions = tally step meets' s actions := by
  induction actions generalizing s with
  | nil => rfl
  | cons action rest ih =>
    have first := same [] action (List.cons_prefix_cons.mpr ⟨rfl,List.nil_prefix⟩)
    have later := ih fun before other short => same (action :: before) other (List.cons_prefix_cons.mpr ⟨rfl,short⟩)
    rw [tally,tally,later,show meets s action = meets' s action from first]

/-- A counter that every step that meets the condition adds one to. -/
theorem counter_tally {step : σ → α → Option σ} {meets : σ → α → Bool} {inv : σ → Prop} (keeps : Preserves step inv)
    {w : Nat} (counter : σ → BitVec w)
    (counts : ∀ s action s', inv s → step s action = some s' →
      counter s' = counter s + BitVec.ofNat w (if meets s action then 1 else 0)) {s : σ} (holds : inv s) (actions : List α) :
    counter (run step s actions) = counter s + BitVec.ofNat w (tally step meets s actions) := by
  induction actions generalizing s with
  | nil => exact (BitVec.add_zero _).symm
  | cons action rest ih =>
    rw [run,ih (keeps.getD holds action),tally]
    cases stepped : step s action with
    | none => simp
    | some s' =>
      rw [Option.getD_some,counts s action s' holds stepped,Option.isSome_some,Bool.true_and,BitVec.add_assoc,← BitVec.ofNat_add]

/-- A run whose steps meet the condition, one by one. -/
theorem Along.of_prefixes {step : σ → α → Option σ} {meets : σ → α → Prop} {s : σ} {actions : List α}
    (each : ∀ before action, before ++ [action] <+: actions → (step (Runs.run step s before) action).isSome →
      meets (Runs.run step s before) action) : Along step meets s actions := by
  induction actions generalizing s with
  | nil => trivial
  | cons action rest ih =>
    refine ⟨each [] action (List.cons_prefix_cons.mpr ⟨rfl,List.nil_prefix⟩),ih fun before other short => ?_⟩
    exact each (action :: before) other (List.cons_prefix_cons.mpr ⟨rfl,short⟩)

theorem Along.both {step : σ → α → Option σ} {meets more : σ → α → Prop} {s : σ} {actions : List α}
    (first : Along step meets s actions) (second : Along step more s actions) :
    Along step (fun s action => meets s action ∧ more s action) s actions := by
  induction actions generalizing s with
  | nil => trivial
  | cons action rest ih => exact ⟨fun made => ⟨first.1 made,second.1 made⟩,ih first.2 second.2⟩

theorem along_append {step : σ → α → Option σ} {meets : σ → α → Prop} {s : σ} {before after : List α} :
    Along step meets s (before ++ after) ↔ Along step meets s before ∧ Along step meets (Runs.run step s before) after := by
  induction before generalizing s with
  | nil => exact (iff_of_eq (true_and _)).symm
  | cons action rest ih => rw [List.cons_append,Along,Along,Runs.run,ih,and_assoc]

/-- What the steps of the run amount to, taken together. -/
def total (step : σ → α → Option σ) (amount : σ → α → Nat) : σ → List α → Nat
  | _, [] => 0
  | s, action :: rest =>
    (if (step s action).isSome then amount s action else 0) + total step amount ((step s action).getD s) rest

theorem total_append (step : σ → α → Option σ) (amount : σ → α → Nat) (s : σ) (before after : List α) :
    total step amount s (before ++ after) = total step amount s before + total step amount (run step s before) after := by
  induction before generalizing s with
  | nil => exact (Nat.zero_add _).symm
  | cons action rest ih => rw [List.cons_append,total,total,run,ih,Nat.add_assoc]

/-- A gauge that no step raises by more than its amount stays below what the
    amounts of the whole run leave it. -/
theorem Along.of_total {step : σ → α → Option σ} {inv : σ → Prop} {amount : σ → α → Nat} {gauge : σ → Nat} {bound : Nat}
    (keeps : Preserves step inv)
    (raised : ∀ s action s', inv s → step s action = some s' → gauge s' ≤ gauge s + amount s action) {s : σ} (holds : inv s)
    {actions : List α} (small : gauge s + total step amount s actions < bound) :
    Along step (fun s action => gauge s + amount s action < bound) s actions := by
  induction actions generalizing s with
  | nil => trivial
  | cons action rest ih =>
    rw [total] at small
    cases stepped : step s action with
    | none =>
      rw [stepped,Option.getD_none] at small
      refine ⟨fun made => ?_,?_⟩
      · rw [stepped] at made
        cases made
      · rw [stepped,Option.getD_none]
        exact ih holds (by simpa using small)
    | some s' =>
      rw [stepped,Option.isSome_some,if_pos rfl,Option.getD_some] at small
      have rises := raised s action s' holds stepped
      refine ⟨fun _ => by omega,?_⟩
      rw [stepped,Option.getD_some]
      exact ih (keeps s action s' holds stepped) (by omega)

/-- What every step balances is balanced over the run. -/
theorem Along.balance {step : σ → α → Option σ} {meets : σ → α → Prop} {inv : σ → Prop} {measure : σ → Nat}
    {gain loss : σ → α → Nat}
    (keeps : ∀ s action s', inv s → meets s action → step s action = some s' →
      inv s' ∧ loss s action + measure s' = measure s + gain s action) {s : σ} (holds : inv s) {actions : List α}
    (along : Along step meets s actions) :
    total step loss s actions + measure (Runs.run step s actions) = measure s + total step gain s actions := by
  induction actions generalizing s with
  | nil => exact Nat.add_comm _ _
  | cons action rest ih =>
    obtain ⟨met,later⟩ := along
    rw [total,total,Runs.run]
    cases stepped : step s action with
    | none =>
      rw [stepped,Option.getD_none] at later
      simpa using ih holds later
    | some s' =>
      rw [stepped,Option.getD_some] at later
      obtain ⟨holds',balanced⟩ := keeps s action s' holds (met (by rw [stepped]; rfl)) stepped
      have rest_balanced := ih holds' later
      rw [Option.isSome_some,if_pos rfl,if_pos rfl,Option.getD_some]
      omega

/-- A property that the steps keep while another one holds that they keep. -/
theorem Preserves.and {step : σ → α → Option σ} {inv more : σ → Prop} (keeps : Preserves step inv)
    (under : ∀ s action s', inv s → more s → step s action = some s' → more s') :
    Preserves step fun s => inv s ∧ more s :=
  fun s action s' holds stepped => ⟨keeps s action s' holds.1 stepped,under s action s' holds.1 holds.2 stepped⟩

/-- Where every step is seen as a run of another system, every run is. -/
theorem run_seen {step : σ → α → Option σ} {step' : τ → β → Option τ} (view : σ → τ) {allowed : β → Prop}
    (seen : ∀ s action s', step s action = some s' →
      ∃ others, (∀ other ∈ others, allowed other) ∧ view s' = run step' (view s) others)
    (s : σ) (actions : List α) :
    ∃ others, (∀ other ∈ others, allowed other) ∧ view (run step s actions) = run step' (view s) others := by
  induction actions generalizing s with
  | nil => exact ⟨[],fun _ member => (List.not_mem_nil member).elim,rfl⟩
  | cons action rest ih =>
    obtain ⟨later,allowed_later,reached⟩ := ih ((step s action).getD s)
    cases stepped : step s action with
    | none =>
      rw [stepped,Option.getD_none] at reached
      exact ⟨later,allowed_later,by rw [run,stepped,Option.getD_none,reached]⟩
    | some s' =>
      obtain ⟨first,allowed_first,moved⟩ := seen s action s' stepped
      rw [stepped,Option.getD_some,moved] at reached
      refine ⟨first ++ later,?_,by rw [run,stepped,Option.getD_some,reached,run_append]⟩
      intro other member
      rcases List.mem_append.mp member with one | one
      · exact allowed_first other one
      · exact allowed_later other one

/-- The actions of the run that were enabled. -/
def taken (step : σ → α → Option σ) : σ → List α → List α
  | _, [] => []
  | s, action :: rest =>
    match step s action with
    | none => taken step s rest
    | some s' => action :: taken step s' rest

/-- What is computed from the actions taken, beside the run. -/
theorem run_fold {step : σ → α → Option σ} {inv : σ → τ → Prop} {next : τ → α → τ}
    (keeps : ∀ s t action s', inv s t → step s action = some s' → inv s' (next t action)) {s : σ} {t : τ} (holds : inv s t)
    (actions : List α) : inv (run step s actions) ((taken step s actions).foldl next t) := by
  induction actions generalizing s t with
  | nil => exact holds
  | cons action rest ih =>
    rw [run,taken]
    cases stepped : step s action with
    | none => exact ih holds
    | some s' => exact ih (keeps s t action s' holds stepped)

/-! ### Records

Threads record events one after the other. What a selector picks is taken from
the whole record, or from what one thread recorded. -/

section records
variable {ι ε γ : Type*}

def picked (pick : ε → Option γ) (events : List (ι × ε)) : List γ := events.filterMap fun event => pick event.2
def pickedBy [DecidableEq ι] (i : ι) (pick : ε → Option γ) (events : List (ι × ε)) : List γ :=
  events.filterMap fun event => if event.1 = i then pick event.2 else none

theorem picked_append (pick : ε → Option γ) (events : List (ι × ε)) (i : ι) (happened : List ε) :
    picked pick (events ++ happened.map (i,·)) = picked pick events ++ happened.filterMap pick := by
  simp [picked,List.filterMap_map]

/-- The same with the threads. -/
def said (pick : ε → Option γ) (events : List (ι × ε)) : List (ι × γ) :=
  events.filterMap fun event => (pick event.2).map (event.1,·)

theorem said_append (pick : ε → Option γ) (events : List (ι × ε)) (i : ι) (happened : List ε) :
    said pick (events ++ happened.map (i,·)) = said pick events ++ (happened.filterMap pick).map (i,·) := by
  simp [said,List.filterMap_map,List.map_filterMap]

theorem said_picked (pick : ε → Option γ) (events : List (ι × ε)) : (said pick events).map Prod.snd = picked pick events := by
  simp [said,picked,List.map_filterMap,Function.comp_def]

theorem said_mono {pick : ε → Option γ} {events : List (ι × ε)} {entry : ι × γ} (member : entry ∈ said pick events)
    (i : ι) (happened : List ε) : entry ∈ said pick (events ++ happened.map (i,·)) :=
  said_append pick events i happened ▸ List.mem_append_left _ member

/-- Who recorded an entry. -/
def sayers [DecidableEq γ] (entry : γ) (entries : List (ι × γ)) : List ι :=
  (entries.filter fun one => one.2 = entry).map Prod.fst

theorem mem_sayers [DecidableEq γ] {i : ι} {entry : γ} {entries : List (ι × γ)} :
    i ∈ sayers entry entries ↔ (i,entry) ∈ entries := by
  simp [sayers]

theorem sayers_absent [DecidableEq γ] {entry : γ} {entries : List (ι × γ)} (absent : entry ∉ entries.map Prod.snd) :
    sayers entry entries = [] := by
  refine List.eq_nil_iff_forall_not_mem.mpr fun i member => absent ?_
  exact List.mem_map.mpr ⟨_,mem_sayers.mp member,rfl⟩

/-- An entry that is recorded once has one who recorded it. -/
theorem sayers_once [DecidableEq γ] {i : ι} {entry : γ} {entries : List (ι × γ)}
    (once : (entries.map Prod.snd).Nodup) (member : (i,entry) ∈ entries) : sayers entry entries = [i] := by
  induction entries with
  | nil => cases member
  | cons one rest ih =>
    obtain ⟨absent,rest_once⟩ := List.nodup_cons.mp once
    rcases List.mem_cons.mp member with rfl | later
    · have none := sayers_absent absent
      simpa [sayers] using none
    · have other : one.2 ≠ entry := by
        rintro rfl
        exact absent (List.mem_map.mpr ⟨_,later,rfl⟩)
      simpa [sayers,other] using ih rest_once later

variable [DecidableEq ι]

theorem pickedBy_self (i : ι) (pick : ε → Option γ) (events : List (ι × ε)) (happened : List ε) :
    pickedBy i pick (events ++ happened.map (i,·)) = pickedBy i pick events ++ happened.filterMap pick := by
  simp [pickedBy,List.filterMap_map]

theorem pickedBy_other {i j : ι} (other : j ≠ i) (pick : ε → Option γ) (events : List (ι × ε)) (happened : List ε) :
    pickedBy i pick (events ++ happened.map (j,·)) = pickedBy i pick events := by
  simp [pickedBy,List.filterMap_map,other]

/-- What is picked from the whole record is what is picked from the threads. -/
theorem picked_perm (pick : ε → Option γ) {who : List ι} (distinct : who.Nodup) {events : List (ι × ε)}
    (covers : ∀ event ∈ events, event.1 ∈ who) : (picked pick events).Perm (who.flatMap fun i => pickedBy i pick events) := by
  induction events with
  | nil =>
    have none : (who.flatMap fun i => pickedBy i pick ([] : List (ι × ε))) = [] :=
      List.flatMap_eq_nil_iff.mpr fun _ _ => rfl
    rw [none]
    exact List.Perm.refl _
  | cons event rest ih =>
    have split (i : ι) : pickedBy i pick (event :: rest) =
        (if event.1 = i then (pick event.2).toList else []) ++ pickedBy i pick rest := by
      rw [pickedBy,List.filterMap_cons]
      by_cases mine : event.1 = i
      · rw [if_pos mine,if_pos mine]
        cases pick event.2 <;> rfl
      · rw [if_neg mine,if_neg mine]
        rfl
    have first : (who.flatMap fun i => if event.1 = i then (pick event.2).toList else []) = (pick event.2).toList := by
      obtain ⟨before,after,rfl⟩ := List.append_of_mem (covers event List.mem_cons_self)
      obtain ⟨_,_,apart⟩ := List.nodup_append.mp distinct
      obtain ⟨absent,_⟩ := List.nodup_cons.mp (List.nodup_append.mp distinct).2.1
      have none (others : List ι) (elsewhere : event.1 ∉ others) :
          (others.flatMap fun i => if event.1 = i then (pick event.2).toList else []) = [] := by
        refine List.flatMap_eq_nil_iff.mpr fun i member => if_neg ?_
        rintro rfl
        exact elsewhere member
      rw [List.flatMap_append,List.flatMap_cons,if_pos rfl,none after absent,none before,List.nil_append,List.append_nil]
      exact fun member => apart _ member _ List.mem_cons_self rfl
    have whole : picked pick (event :: rest) = (pick event.2).toList ++ picked pick rest := by
      rw [picked,List.filterMap_cons]
      cases pick event.2 <;> rfl
    rw [whole]
    simp only [split]
    refine List.Perm.trans ?_ (List.flatMap_append_perm who _ _)
    rw [first]
    exact (ih fun other member => covers other (List.mem_cons_of_mem _ member)).append_left _

end records

end IpcPortable.Runs
