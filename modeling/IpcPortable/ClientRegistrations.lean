import IpcPortable.Runs

/-!
`AutotestServer::ServerInternals`: clients are registered by any number of
threads while the thread of the connections adds connections. A call holds a
mutex only for a part at a time: the latest connection is read and written
under the mutex of the connections, the list of the clients under its own.
-/
namespace IpcPortable.ClientRegistrations
open IpcPortable.Runs

abbrev SutConnection := Nat
/-- A `ClientPrivate`; every call of `AddClient` has a client of its own. -/
abbrev Client := Nat

/-- How far the call of `AddClient` for a client is. -/
inductive AddClient
  | notCalled
  /-- Behind `RemoveExpiredClients`. -/
  | pruned
  /-- Behind the part that holds the mutex of the connections. -/
  | assigned
  | returned
deriving DecidableEq
/-- How far the call of `AddNewConnection` on the thread of the connections is. -/
inductive AddNewConnection
  | returned
  /-- The connection is in `m_connections` and in `m_on_connected_sut`. -/
  | published (connection : SutConnection)
  /-- In the loop, with the rest of the copy of `m_clients`. -/
  | distributing (connection : SutConnection) (clients : List Client)
deriving DecidableEq

/-- The connection last published, the registered clients, slot 0 of every
    client, which clients were released, how many connections were added, and
    the calls. -/
structure ServerInternals where
  m_on_connected_sut : Option SutConnection := none
  m_clients : List Client := []
  on_connected_sut : Client → Option SutConnection := fun _ => none
  expired : Client → Bool := fun _ => false
  added : Nat := 0
  addClient : Client → AddClient := fun _ => .notCalled
  addNewConnection : AddNewConnection := .returned

/-- `RemoveExpiredClients`. -/
def ServerInternals.removeExpiredClients (s : ServerInternals) : ServerInternals :=
  { s with m_clients := s.m_clients.filter fun client => !s.expired client }
/-- `SetOnConnectedSut`. -/
def ServerInternals.setOnConnectedSut (s : ServerInternals) (client : Client) (connection : Option SutConnection) :
    ServerInternals :=
  { s with on_connected_sut := Function.update s.on_connected_sut client connection }
/-- The call of `AddClient` is behind the next of its parts. -/
def ServerInternals.goOn (s : ServerInternals) (client : Client) (stage : AddClient) : ServerInternals :=
  { s with addClient := Function.update s.addClient client stage }

inductive Action
  | addClient (client : Client)
  | addNewConnection
  /-- `RemoveConnection`, as far as it concerns the clients. -/
  | removeConnection
  /-- The last reference to a client is dropped; its `AddClient` holds one. -/
  | release (client : Client)
/-- One part of a call: what is done under one mutex. -/
def step (s : ServerInternals) : Action → Option ServerInternals
  | .addClient client =>
    match s.addClient client with
    | .notCalled => some (s.removeExpiredClients.goOn client .pruned)
    | .pruned => some ((s.setOnConnectedSut client s.m_on_connected_sut).goOn client .assigned)
    | .assigned => some ({ s with m_clients := s.m_clients ++ [client] }.goOn client .returned)
    | .returned => none
  | .addNewConnection =>
    match s.addNewConnection with
    | .returned => some { s with
        m_on_connected_sut := some s.added
        added := s.added + 1
        addNewConnection := .published s.added }
    | .published connection =>
      some { s.removeExpiredClients with
        addNewConnection := .distributing connection s.removeExpiredClients.m_clients }
    | .distributing connection (client :: clients) =>
      let s := if s.expired client then s else s.setOnConnectedSut client (some connection)
      some { s with addNewConnection := .distributing connection clients }
    | .distributing _ [] => some { s with addNewConnection := .returned }
  | .removeConnection => some s.removeExpiredClients
  | .release client =>
    if s.addClient client = .returned then some { s with expired := Function.update s.expired client true } else none

/-- No call is in progress. -/
structure Quiet (s : ServerInternals) : Prop where
  addClient : ∀ client, s.addClient client = .notCalled ∨ s.addClient client = .returned
  addNewConnection : s.addNewConnection = .returned
/-- The connection added last. -/
def ServerInternals.latest (s : ServerInternals) : Option SutConnection := if s.added = 0 then none else some (s.added - 1)
/-- Slot 0 of every live client in `m_clients` is the connection added last. -/
def UpToDate (s : ServerInternals) : Prop :=
  ∀ client ∈ s.m_clients, s.expired client = false → s.on_connected_sut client = s.latest
/-- Whenever no call is in progress in a run, the clients are up to date. -/
def UpToDateWhenQuiet (actions : List Action) : Prop :=
  ∀ before, before <+: actions → Quiet (run step {} before) → UpToDate (run step {} before)
/-- A client is not pushed to `m_clients` with an old connection after the call
    of `AddNewConnection` that added the latest one copied the list. -/
def PushedInTime (s : ServerInternals) : Action → Prop
  | .addClient client => s.addClient client = .assigned →
    s.on_connected_sut client = s.m_on_connected_sut ∨ ∃ connection, s.addNewConnection = .published connection
  | _ => True

/-- What the steps keep whatever their order. -/
structure Inv (s : ServerInternals) : Prop where
  latest : s.m_on_connected_sut = s.latest
  published : ∀ connection, s.addNewConnection = .published connection → s.m_on_connected_sut = some connection
  distributing : ∀ connection clients, s.addNewConnection = .distributing connection clients →
    s.m_on_connected_sut = some connection
  registered : ∀ client ∈ s.m_clients, s.addClient client = .returned
/-- A registered client is up to date, or the loop will come to it. -/
def Covered (s : ServerInternals) : Prop :=
  ∀ client ∈ s.m_clients, s.expired client = false → s.on_connected_sut client = s.m_on_connected_sut ∨
    (∃ connection, s.addNewConnection = .published connection) ∨
    ∃ connection clients, s.addNewConnection = .distributing connection clients ∧ client ∈ clients

theorem inv_start : Inv {} where
  latest := rfl
  published := fun _ phase => by cases phase
  distributing := fun _ _ phase => by cases phase
  registered := fun _ there => (List.not_mem_nil there).elim

theorem mem_pruned {s : ServerInternals} {client : Client} :
    client ∈ s.removeExpiredClients.m_clients ↔ client ∈ s.m_clients ∧ s.expired client = false := by
  simp [ServerInternals.removeExpiredClients]

theorem goOn_returned {s : ServerInternals} {client other : Client} {stage : AddClient}
    (member : s.addClient other = .returned) (calls : s.addClient client ≠ .returned) :
    (s.goOn client stage).addClient other = .returned := by
  have different : other ≠ client := by
    rintro rfl
    exact calls member
  simpa [ServerInternals.goOn,different] using member

theorem step_inv : Preserves step Inv := by
  intro s action s' inv stepped
  cases action with
  | addClient client =>
    cases stage : s.addClient client with
    | notCalled =>
      simp only [step,stage,Option.some.injEq] at stepped
      subst stepped
      have calls : s.addClient client ≠ .returned := by simp [stage]
      exact ⟨inv.latest,inv.published,inv.distributing,fun other there =>
        goOn_returned (s := s.removeExpiredClients) (inv.registered other (mem_pruned.mp there).1) calls⟩
    | pruned =>
      simp only [step,stage,Option.some.injEq] at stepped
      subst stepped
      have calls : s.addClient client ≠ .returned := by simp [stage]
      exact ⟨inv.latest,inv.published,inv.distributing,fun other there =>
        goOn_returned (s := s.setOnConnectedSut client s.m_on_connected_sut) (inv.registered other there) calls⟩
    | assigned =>
      simp only [step,stage,Option.some.injEq] at stepped
      subst stepped
      have calls : s.addClient client ≠ .returned := by simp [stage]
      refine ⟨inv.latest,inv.published,inv.distributing,fun other there => ?_⟩
      rcases List.mem_append.mp there with old | new
      · exact goOn_returned (s := { s with m_clients := s.m_clients ++ [client] }) (inv.registered other old) calls
      · obtain rfl := List.mem_singleton.mp new
        simp [ServerInternals.goOn]
    | returned =>
      simp [step,stage] at stepped
  | addNewConnection =>
    cases phase : s.addNewConnection with
    | returned =>
      simp only [step,phase,Option.some.injEq] at stepped
      subst stepped
      refine ⟨by simp [ServerInternals.latest],?_,?_,inv.registered⟩
      · intro connection same
        cases same
        rfl
      · intro connection clients same
        cases same
    | published connection =>
      simp only [step,phase,Option.some.injEq] at stepped
      subst stepped
      refine ⟨inv.latest,?_,?_,fun other there => inv.registered other (mem_pruned.mp there).1⟩
      · intro other same
        cases same
      · intro other clients same
        cases same
        exact inv.published connection phase
    | distributing connection clients =>
      cases clients with
      | nil =>
        simp only [step,phase,Option.some.injEq] at stepped
        subst stepped
        refine ⟨inv.latest,?_,?_,inv.registered⟩
        · intro other same
          cases same
        · intro other clients same
          cases same
      | cons client clients =>
        have here := inv.distributing connection _ phase
        simp only [step,phase,Option.some.injEq] at stepped
        subst stepped
        refine ⟨?_,?_,?_,?_⟩
        · split <;> exact inv.latest
        · intro other same
          cases same
        · intro other others same
          cases same
          split <;> exact here
        · split <;> exact inv.registered
  | removeConnection =>
    obtain rfl := Option.some.inj stepped
    exact ⟨inv.latest,inv.published,inv.distributing,fun other there => inv.registered other (mem_pruned.mp there).1⟩
  | release client =>
    rw [step] at stepped
    split at stepped
    · obtain rfl := Option.some.inj stepped
      exact ⟨inv.latest,inv.published,inv.distributing,inv.registered⟩
    · cases stepped

/-- A client whose slot is assigned is none of the registered ones. -/
theorem slot_assigned {s : ServerInternals} (inv : Inv s) {client other : Client} (calls : s.addClient client ≠ .returned)
    (there : other ∈ s.m_clients) (connection : Option SutConnection) :
    (s.setOnConnectedSut client connection).on_connected_sut other = s.on_connected_sut other := by
  have different : other ≠ client := by
    rintro rfl
    exact calls (inv.registered other there)
  simp [ServerInternals.setOnConnectedSut,different]

theorem step_covered {s s' : ServerInternals} {action : Action} (inv : Inv s) (covered : Covered s)
    (inTime : PushedInTime s action) (stepped : step s action = some s') : Covered s' := by
  cases action with
  | addClient client =>
    cases stage : s.addClient client with
    | notCalled =>
      simp only [step,stage,Option.some.injEq] at stepped
      subst stepped
      exact fun other there live => covered other (mem_pruned.mp there).1 live
    | pruned =>
      simp only [step,stage,Option.some.injEq] at stepped
      subst stepped
      have calls : s.addClient client ≠ .returned := by simp [stage]
      intro other there live
      have same := slot_assigned inv calls there s.m_on_connected_sut
      exact (covered other there live).imp_left same.trans
    | assigned =>
      simp only [step,stage,Option.some.injEq] at stepped
      subst stepped
      intro other there live
      rcases List.mem_append.mp there with old | new
      · exact covered other old live
      · obtain rfl := List.mem_singleton.mp new
        exact (inTime stage).imp_right .inl
    | returned => simp [step,stage] at stepped
  | addNewConnection =>
    cases phase : s.addNewConnection with
    | returned =>
      simp only [step,phase,Option.some.injEq] at stepped
      subst stepped
      exact fun other _ _ => .inr (.inl ⟨s.added,rfl⟩)
    | published connection =>
      -- the copy has every live client of the list
      simp only [step,phase,Option.some.injEq] at stepped
      subst stepped
      exact fun other there _ => .inr (.inr ⟨connection,_,rfl,there⟩)
    | distributing connection clients =>
      have here := inv.distributing connection _ phase
      have ahead (other : Client) (there : other ∈ s.m_clients) (live : s.expired other = false) :
          s.on_connected_sut other = s.m_on_connected_sut ∨ other ∈ clients := by
        rcases covered other there live with done | ⟨_,other_phase⟩ | ⟨_,_,same,member⟩
        · exact .inl done
        · rw [phase] at other_phase
          cases other_phase
        · rw [phase] at same
          cases same
          exact .inr member
      cases clients with
      | nil =>
        simp only [step,phase,Option.some.injEq] at stepped
        subst stepped
        intro other there live
        exact .inl ((ahead other there live).resolve_right List.not_mem_nil)
      | cons client clients =>
        simp only [step,phase,Option.some.injEq] at stepped
        subst stepped
        split
        · rename_i expired
          intro other there live
          rcases ahead other there live with done | member
          · exact .inl done
          rcases List.mem_cons.mp member with rfl | later
          · rw [show s.expired other = false from live] at expired
            cases expired
          · exact .inr (.inr ⟨connection,clients,rfl,later⟩)
        · intro other there live
          by_cases same : other = client
          · subst same
            exact .inl (by simp [ServerInternals.setOnConnectedSut,here])
          · have kept : (s.setOnConnectedSut client (some connection)).on_connected_sut other = s.on_connected_sut other := by
              simp [ServerInternals.setOnConnectedSut,same]
            rcases ahead other there live with done | member
            · exact .inl (kept.trans done)
            · exact .inr (.inr ⟨connection,clients,rfl,(List.mem_cons.mp member).resolve_left same⟩)
  | removeConnection =>
    obtain rfl := Option.some.inj stepped
    exact fun other there live => covered other (mem_pruned.mp there).1 live
  | release client =>
    rw [step] at stepped
    split at stepped
    · obtain rfl := Option.some.inj stepped
      intro other there live
      have different : other ≠ client := by
        rintro rfl
        simp at live
      exact covered other there (by simpa [different] using live)
    · cases stepped

theorem covered_start : Covered {} := fun _ there => (List.not_mem_nil there).elim

/-- In every run in which no client is pushed too late, whenever no call is in
    progress, slot 0 of every live registered client is the connection added
    last. -/
theorem quiet_upToDate (actions : List Action) (inTime : Along step PushedInTime {} actions) : UpToDateWhenQuiet actions := by
  rintro before ⟨later,rfl⟩ quiet client there live
  have both : Inv (run step {} before) ∧ Covered (run step {} before) := by
    have keeps (s : ServerInternals) (action : Action) (s' : ServerInternals) (holds : Inv s ∧ Covered s)
        (met : PushedInTime s action) (stepped : step s action = some s') : Inv s' ∧ Covered s' :=
      ⟨step_inv s action s' holds.1 stepped,step_covered holds.1 holds.2 met stepped⟩
    exact (along_append.mp inTime).1.run keeps ⟨inv_start,covered_start⟩
  rw [← both.1.latest]
  rcases both.2 client there live with done | ⟨_,phase⟩ | ⟨_,_,phase,_⟩
  · exact done
  · rw [quiet.addNewConnection] at phase
    cases phase
  · rw [quiet.addNewConnection] at phase
    cases phase

/-- A client that reads the connection after it was published. -/
theorem quiet_upToDate_one :
    UpToDateWhenQuiet [.addNewConnection,.addClient 0,.addClient 0,.addClient 0,.addNewConnection,.addNewConnection,
      .addNewConnection] :=
  quiet_upToDate _ (by
    refine ⟨fun _ => trivial,fun _ => ?_,fun _ => ?_,fun _ => ?_,fun _ => trivial,fun _ => trivial,fun _ => trivial,trivial⟩
    · intro stage
      cases stage
    · intro stage
      cases stage
    · exact fun _ => .inl rfl)

/-- The client reads that there is no connection; one is added and distributed
    to the clients, of which it is none yet; then it is registered. -/
theorem late_client :
    let s := run step {} [.addClient 0,.addClient 0,.addNewConnection,.addNewConnection,.addNewConnection,.addClient 0]
    Quiet s ∧ 0 ∈ s.m_clients ∧ s.expired 0 = false ∧ s.on_connected_sut 0 = none ∧ s.latest = some 0 ∧ ¬ UpToDate s := by
  refine ⟨⟨fun client => ?_,by decide⟩,by decide,by decide,by decide,by decide,fun holds => ?_⟩
  · by_cases first : client = 0
    · subst first
      exact .inr (by decide)
    · left
      simp [run,step,ServerInternals.goOn,ServerInternals.removeExpiredClients,ServerInternals.setOnConnectedSut,first]
  · cases holds 0 (by decide) (by decide)

end IpcPortable.ClientRegistrations
