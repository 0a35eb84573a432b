import IpcPortable.DataStream
import IpcPortable.Monitors

/-!
`IpcTransport_MemoryShare`: a list of packets in memory for each direction, under a
lock, with a condition variable. Any number of threads write, read and wait. The
packets are read once each, in the order in which they were written
(`packets_in_order`), nobody sleeps while there is a packet, and the cancellation ends
every wait (`reads_awake`).
-/
namespace IpcPortable.MemoryShares
open IpcPortable.Runs IpcPortable.DataStream IpcPortable.Monitors
variable {Tid : Type} [DecidableEq Tid]

/-- `SyncData`. -/
structure SyncData where
  cancel_wait_respond : Bool := false
  data : List Data := []

inductive Call
  | write (packet : Data)
  | read (wait_incoming_packet : Bool)
  | waitIncomingData
  | cancelWaitRespond
inductive Answer
  | nothing
  /-- What the call returns, and the packet if it has one. -/
  | answered (ok : Bool) (packet : Option Data)

/-- The loops that wait end. -/
def ready (s : SyncData) : Call → Bool
  | .read true => !s.data.isEmpty || s.cancel_wait_respond
  | .waitIncomingData => s.cancel_wait_respond || !s.data.isEmpty
  | _ => true
/-- `Read` behind the waiting. -/
def SyncData.read (s : SyncData) : SyncData × Answer :=
  match s.data, s.cancel_wait_respond with
  | [], false => (s,.answered true none)
  | _, true => (s,.answered false none)
  | packet :: data, false => ({ s with data },.answered true (some packet))
/-- `Write`, `Read`, `WaitIncomingData` and `CancelWaitRespond` behind the waiting. -/
def act (s : SyncData) : Call → SyncData × Answer
  | .write packet => ({ s with data := s.data ++ [packet] },.nothing)
  | .read _ => s.read
  | .waitIncomingData => (s,.answered (!s.cancel_wait_respond) none)
  | .cancelWaitRespond => ({ s with cancel_wait_respond := true },.nothing)
def notifies : Call → Bool
  | .write _ => true
  | .cancelWaitRespond => true
  | _ => false
def memoryShare : Monitor SyncData Call Answer := { ready, act, notifies }

/-- The packet that was written. -/
def wrote : Call × Answer → Option Data
  | (.write packet,_) => some packet
  | _ => none
/-- The packet that was read. -/
def took : Call × Answer → Option Data
  | (.read _,.answered _ packet) => packet
  | _ => none
/-- The call failed if it was to read or to wait. -/
def Failed : Call × Answer → Prop
  | (.read _,answer) => answer = .answered false none
  | (.waitIncomingData,answer) => answer = .answered false none
  | _ => True

/-! ### One call -/

/-- What a `Read` finds. -/
theorem read_cases (s : SyncData) : s.read = (s,.answered (!s.cancel_wait_respond) none) ∨
    ∃ packet rest, s.data = packet :: rest ∧ s.read = ({ s with data := rest },.answered true (some packet)) := by
  obtain ⟨cancelled,data⟩ := s
  cases cancelled with
  | true => exact .inl (by cases data <;> rfl)
  | false =>
    cases data with
    | nil => exact .inl rfl
    | cons packet rest => exact .inr ⟨packet,rest,rfl,rfl⟩

theorem ready_iff {s : SyncData} {op : Call} (waits : op = .read true ∨ op = .waitIncomingData) :
    ready s op = true ↔ s.data ≠ [] ∨ s.cancel_wait_respond = true := by
  rcases waits with rfl | rfl
  · simp [ready]
  · simp [ready,or_comm]

theorem unready_waits {s : SyncData} {op : Call} (unready : ready s op = false) :
    (op = .read true ∨ op = .waitIncomingData) ∧ s = {} := by
  have waits : op = .read true ∨ op = .waitIncomingData := by
    cases op with
    | write _ | cancelWaitRespond => cases unready
    | waitIncomingData => exact .inr rfl
    | read wait_incoming_packet =>
      cases wait_incoming_packet with
      | false => cases unready
      | true => exact .inl rfl
  refine ⟨waits,?_⟩
  obtain ⟨cancelled,data⟩ := s
  have none := (not_congr (ready_iff waits)).mp (Bool.not_eq_true _ ▸ unready)
  simp only [ne_eq,not_or,Classical.not_not,Bool.not_eq_true] at none
  obtain ⟨rfl,rfl⟩ := none
  rfl

theorem memoryShare_wakes : Wakes memoryShare := by
  intro s op other _ unready ready'
  obtain ⟨waits,rfl⟩ := unready_waits unready
  cases op with
  | write _ | cancelWaitRespond => rfl
  | waitIncomingData | read _ => cases unready.symm.trans ready'

/-- What was written is what was read, and what is still there. -/
def InOrder (s : SyncData) (ops : List (Call × Answer)) : Prop := ops.filterMap wrote = ops.filterMap took ++ s.data

theorem act_inOrder {s : SyncData} {ops : List (Call × Answer)} {op : Call} (order : InOrder s ops) :
    InOrder (act s op).1 (ops ++ [(op,(act s op).2)]) := by
  unfold InOrder at order ⊢
  rw [List.filterMap_append,List.filterMap_append,order]
  cases op with
  | write packet => simp [act,wrote,took,List.filterMap_cons]
  | waitIncomingData | cancelWaitRespond => simp [act,wrote,took,List.filterMap_cons]
  | read _ =>
    rcases read_cases s with same | ⟨packet,rest,present,same⟩
    · simp [act,same,wrote,took,List.filterMap_cons]
    · simp [act,same,present,wrote,took,List.filterMap_cons]

/-- Once the waiting is cancelled every call fails. -/
theorem replays_failed {s s' : SyncData} {ops : List (Call × Answer)} (cancelled : s.cancel_wait_respond = true)
    (replays : Replays memoryShare s ops s') : ∀ entry ∈ ops, Failed entry := by
  induction ops generalizing s with
  | nil => exact fun _ none => (by cases none)
  | cons entry rest ih =>
    obtain ⟨op,answer⟩ := entry
    obtain ⟨_,rfl,later⟩ := replays
    have fails : s.read = (s,.answered false none) := by
      unfold SyncData.read
      rw [cancelled]
      cases s.data <;> rfl
    have still : (act s op).1.cancel_wait_respond = true := by
      cases op <;> simp [act,cancelled,fails]
    intro entry member
    rcases List.mem_cons.mp member with rfl | after
    · cases op <;> simp [memoryShare,act,Failed,cancelled,fails]
    · exact ih still later entry after

/-! ### Every run -/

variable {deeds : List (Tid × Deed Call)}

/-- What was written was read, once each and in order, or is still there; and every
    call that ends after a cancellation fails. -/
theorem packets_in_order (deeds : List (Tid × Deed Call)) :
    picked wrote (run (step memoryShare) { state := {} } deeds).record =
        picked took (run (step memoryShare) { state := {} } deeds).record ++
          (run (step memoryShare) { state := {} } deeds).state.data ∧
      ∀ before t answer after,
        (run (step memoryShare) { state := {} } deeds).record = before ++ (t,.cancelWaitRespond,answer) :: after →
        ∀ entry ∈ after, Failed entry.2 := by
  have replays := run_sequential memoryShare {} deeds
  refine ⟨?_,?_⟩
  · have order := replays.holds InOrder rfl fun _ _ _ order _ => act_inOrder order
    unfold InOrder at order
    rwa [List.filterMap_map,List.filterMap_map] at order
  · intro before t answer after same entry member
    rw [same,List.map_append,List.map_cons] at replays
    obtain ⟨between,_,_,_,later⟩ := replays.split
    exact replays_failed rfl later entry.2 (List.mem_map_of_mem member)

/-- Whoever sleeps is inside of a `Read` or a `WaitIncomingData`, nothing is there to
    read, and nothing was cancelled. -/
theorem reads_awake (deeds : List (Tid × Deed Call)) {t : Tid}
    (sleeps : t ∈ (run (step memoryShare) { state := {} } deeds).condition.blocked) :
    (run (step memoryShare) { state := {} } deeds).state = {} ∧
      ((run (step memoryShare) { state := {} } deeds).inside t = some (.read true) ∨
        (run (step memoryShare) { state := {} } deeds).inside t = some .waitIncomingData) := by
  obtain ⟨op,inside,unready⟩ := run_awake memoryShare_wakes {} deeds sleeps
  obtain ⟨rfl | rfl,empty⟩ := unready_waits unready
  · exact ⟨empty,.inl inside⟩
  · exact ⟨empty,.inr inside⟩

theorem reads_awake_reader :
    (run (step memoryShare) { state := {} } [((),Deed.enter (.read true)),((),.hold)]).state = {} ∧
      ((run (step memoryShare) { state := {} } [((),Deed.enter (.read true)),((),.hold)]).inside () = some (.read true) ∨
        (run (step memoryShare) { state := {} } [((),Deed.enter (.read true)),((),.hold)]).inside () = some .waitIncomingData) :=
  reads_awake [((),.enter (.read true)),((),.hold)] (by decide)

end IpcPortable.MemoryShares
