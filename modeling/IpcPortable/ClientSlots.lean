import IpcPortable.Runs
import IpcPortable.OrderedMaps

/-!
`AutotestClient_Internals` and the clients that share it. Every client has a
slot for each `SutIndexId`, a weak reference to a connection; the usage of a
connection is kept once for all clients. Connections come and go between the
calls of the clients, each of which holds the mutex from start to end.
-/
namespace IpcPortable.ClientSlots
open IpcPortable.OrderedMaps IpcPortable.Runs

/-- The weak pointers to transports, by their owner. -/
abbrev ConnectionId := Nat
abbrev SutConnection := Nat
/-- An `AutotestServer_Client`. -/
abbrev Client := Nat

inductive ConnectionUsage
  | newly_connected
  | not_used
  | use_ipc_call
deriving DecidableEq
structure ConnectionState where
  connection : SutConnection
  usage : ConnectionUsage := .newly_connected
deriving DecidableEq

/-- `SutIndexId::on_connected_sut`. -/
def onConnectedSut : Nat := 0
/-- `SutIndexId::max_count`. -/
def maxCount : Nat := 16

/-- The connections in the map, the slots of the clients, which connections have
    been destroyed, how many were made and how many assertions were raised. -/
structure Internals where
  m_connections : List (ConnectionId × ConnectionState)
  sorted : Sorted m_connections
  m_client_connections : Client → Nat → Option SutConnection
  expired : SutConnection → Bool
  created : Nat
  raised : Nat

theorem no_connections : Sorted ([] : List (ConnectionId × ConnectionState)) := List.Pairwise.nil
/-- No connection yet, and all slots empty. -/
def Internals.start : Internals := ⟨[],no_connections,fun _ _ => none,fun _ => false,0,0⟩

/-- `m_client_connections[sut_index_id].lock()`. -/
def Internals.lock (s : Internals) (client : Client) (sut_index_id : Nat) : Option SutConnection :=
  (s.m_client_connections client sut_index_id).filter fun connection => !s.expired connection
/-- The search of `ClearIpcUseLocked` in the slots behind `on_connected_sut`. -/
def Internals.hasConnection (s : Internals) (client : Client) (connection : SutConnection) : Bool :=
  (List.range' (onConnectedSut + 1) (maxCount - 1)).any fun sut_index_id =>
    s.m_client_connections client sut_index_id = some connection
/-- `SetConnectionLocked`. -/
def Internals.setConnectionLocked (s : Internals) (client : Client) (sut_id : Nat) (connection : Option SutConnection) :
    Bool × Internals :=
  if sut_id < maxCount then
    (true,{ s with
      m_client_connections := Function.update s.m_client_connections client
        (Function.update (s.m_client_connections client) sut_id connection) })
  else (false,{ s with raised := s.raised + 1 })
/-- `it->second.usage = usage`. -/
def Internals.setUsage (s : Internals) (entry : ConnectionId × ConnectionState) (usage : ConnectionUsage) : Internals :=
  { s with
    m_connections := assign entry.1 { entry.2 with usage } s.m_connections
    sorted := sorted_assign s.sorted }
/-- `ClearIpcUseLocked`. -/
def Internals.clearIpcUseLocked (s : Internals) (client : Client) (sut_index_id : Nat) : Internals :=
  if sut_index_id ≥ maxCount ∨ sut_index_id = onConnectedSut then s
  else match s.lock client sut_index_id with
    | none => s
    | some connection =>
      let s := (s.setConnectionLocked client sut_index_id none).2
      if s.hasConnection client connection then s
      else match s.m_connections.find? fun entry => entry.2.connection = connection with
        | some it_connection => s.setUsage it_connection .not_used
        | none => s
/-- `Connections_ClearIpcUse`. -/
def Internals.clearIpcUse (s : Internals) (client : Client) (sut_index_id : Nat) : Internals :=
  s.clearIpcUseLocked client sut_index_id
/-- `Connections_SetIpcUse`. -/
def Internals.setIpcUse (s : Internals) (client : Client) (connection_id : ConnectionId) (sut_index_id : Nat) : Internals :=
  let sut_index_id := if sut_index_id = onConnectedSut then maxCount else sut_index_id
  let s := s.clearIpcUseLocked client sut_index_id
  match OrderedMaps.find connection_id s.m_connections with
  | some it =>
    match s.setConnectionLocked client sut_index_id (some it.2.connection) with
    | (true,s) => s.setUsage it .use_ipc_call
    | (false,s) => s
  | none => s
/-- The locked part of `AddNewConnection`: a new connection is put into the map
    unless its transport has an entry. -/
def Internals.addNewConnection (s : Internals) (transport : ConnectionId) : Internals :=
  { s with
    m_connections := OrderedMaps.insert transport { connection := s.created } s.m_connections
    sorted := sorted_insert s.sorted
    created := s.created + 1 }
/-- `SetOnConnectedSut`. -/
def Internals.setOnConnectedSut (s : Internals) (client : Client) (connection : Option SutConnection) : Internals :=
  (s.setConnectionLocked client onConnectedSut connection).2
/-- `RemoveConnection`. -/
def Internals.removeConnection (s : Internals) (transport : ConnectionId) : Internals :=
  { s with
    m_connections := s.m_connections.filter fun entry => entry.1 ≠ transport
    sorted := List.Pairwise.filter _ s.sorted }

inductive Action
  | setIpcUse (client : Client) (connection_id : ConnectionId) (sut_index_id : Nat)
  | clearIpcUse (client : Client) (sut_index_id : Nat)
  | addNewConnection (transport : ConnectionId)
  | setOnConnectedSut (client : Client) (connection : Option SutConnection)
  | removeConnection (transport : ConnectionId)
  /-- The last reference to a connection is dropped; the map holds one. -/
  | destroy (connection : SutConnection)
def step (s : Internals) : Action → Option Internals
  | .setIpcUse client connection_id sut_index_id => some (s.setIpcUse client connection_id sut_index_id)
  | .clearIpcUse client sut_index_id => some (s.clearIpcUse client sut_index_id)
  | .addNewConnection transport => some (s.addNewConnection transport)
  | .setOnConnectedSut client connection => some (s.setOnConnectedSut client connection)
  | .removeConnection transport => some (s.removeConnection transport)
  | .destroy connection =>
    if connection < s.created ∧ ∀ entry ∈ s.m_connections, entry.2.connection ≠ connection then
      some { s with expired := Function.update s.expired connection true }
    else none

/-- The connection is in a slot of the client with index 1 to 15. -/
def Internals.Occupies (s : Internals) (client : Client) (connection : SutConnection) : Prop :=
  ∃ sut_index_id, onConnectedSut < sut_index_id ∧ sut_index_id < maxCount ∧
    s.m_client_connections client sut_index_id = some connection
/-- The connection is in the map with this usage. -/
def Internals.Shows (s : Internals) (connection : SutConnection) (usage : ConnectionUsage) : Prop :=
  ∃ entry ∈ s.m_connections, entry.2.connection = connection ∧ entry.2.usage = usage
/-- The slot holds a connection of the map that no other slot of the client holds. -/
structure Internals.Drops (s : Internals) (client : Client) (sut_index_id : Nat) (connection : SutConnection) : Prop where
  present : ∃ usage, s.Shows connection usage
  behind : onConnectedSut < sut_index_id
  inside : sut_index_id < maxCount
  here : s.m_client_connections client sut_index_id = some connection
  only : ∀ other, onConnectedSut < other → other < maxCount →
    s.m_client_connections client other = some connection → other = sut_index_id
/-- The connection is in a slot of the client, one slot of one client left aside. -/
def Internals.OccupiesBut (s : Internals) (client : Client) (sut_index_id : Nat) (other : Client)
    (connection : SutConnection) : Prop :=
  ∃ index, onConnectedSut < index ∧ index < maxCount ∧ s.m_client_connections other index = some connection ∧
    ¬ (other = client ∧ index = sut_index_id)

/-! ### What the operations do -/

/-- The map holds live connections that were made, each under one transport. -/
structure Held (s : Internals) : Prop where
  distinct : ∀ entry ∈ s.m_connections, ∀ other ∈ s.m_connections,
    entry.2.connection = other.2.connection → entry = other
  made : ∀ entry ∈ s.m_connections, entry.2.connection < s.created
  live : ∀ entry ∈ s.m_connections, s.expired entry.2.connection = false
  fresh : ∀ connection, s.created ≤ connection → s.expired connection = false

theorem mem_keys {κ ν : Type} [LinearOrder κ] {entries : List (κ × ν)} (sorted : Sorted entries) {a b : κ × ν}
    (first : a ∈ entries) (second : b ∈ entries) (same : a.1 = b.1) : a = b := by
  have found := (find_eq_some sorted).mpr ⟨first,same⟩
  rw [(find_eq_some sorted).mpr ⟨second,rfl⟩] at found
  exact (Option.some.inj found).symm

theorem Held.mem_setUsage {s : Internals} (held : Held s) {it : ConnectionId × ConnectionState}
    (member : it ∈ s.m_connections) (usage : ConnectionUsage) (entry : ConnectionId × ConnectionState) :
    entry ∈ (s.setUsage it usage).m_connections ↔
      entry = (it.1,{ it.2 with usage }) ∨ entry ∈ s.m_connections ∧ entry.2.connection ≠ it.2.connection := by
  unfold Internals.setUsage assign
  rw [List.mem_map]
  constructor
  · rintro ⟨old,there,rfl⟩
    by_cases same : old.1 = it.1
    · left
      rw [if_pos same,same]
    · right
      rw [if_neg same]
      refine ⟨there,fun connection => same ?_⟩
      rw [held.distinct old there it member connection]
  · rintro (rfl | ⟨there,other⟩)
    · exact ⟨it,member,if_pos rfl⟩
    · refine ⟨entry,there,if_neg fun same => other ?_⟩
      rw [mem_keys s.sorted there member same]

theorem Held.shows_setUsage {s : Internals} (held : Held s) {it : ConnectionId × ConnectionState}
    (member : it ∈ s.m_connections) (usage : ConnectionUsage) (connection : SutConnection) (shown : ConnectionUsage) :
    (s.setUsage it usage).Shows connection shown ↔
      if connection = it.2.connection then shown = usage else s.Shows connection shown := by
  unfold Internals.Shows
  simp only [held.mem_setUsage member usage]
  split
  · rename_i same
    subst same
    constructor
    · rintro ⟨entry,rfl | ⟨_,other⟩,connection,rfl⟩
      · rfl
      · exact absurd connection other
    · rintro rfl
      exact ⟨_,.inl rfl,rfl,rfl⟩
  · rename_i other
    constructor
    · rintro ⟨entry,rfl | ⟨there,_⟩,rfl,rfl⟩
      · exact absurd rfl other
      · exact ⟨entry,there,rfl,rfl⟩
    · rintro ⟨entry,there,rfl,rfl⟩
      exact ⟨entry,.inr ⟨there,other⟩,rfl,rfl⟩

theorem hasConnection_iff {s : Internals} {client : Client} {connection : SutConnection} :
    s.hasConnection client connection = true ↔ s.Occupies client connection := by
  simp only [Internals.hasConnection,Internals.Occupies,List.any_eq_true,List.mem_range'_1,decide_eq_true_eq,
    onConnectedSut,maxCount]
  constructor
  · rintro ⟨index,⟨low,high⟩,here⟩
    exact ⟨index,by omega,by omega,here⟩
  · rintro ⟨index,low,high,here⟩
    exact ⟨index,⟨by omega,by omega⟩,here⟩

/-- What a call with the slot `sut_index_id` of the client does: the slot is left
    aside, a connection that was nowhere else in the client is marked as not
    used, and the connection that is put into the slot, if any, as used. -/
structure Moved (s s' : Internals) (client : Client) (sut_index_id : Nat) (put : Option SutConnection) : Prop where
  shows : ∀ connection usage, s'.Shows connection usage ↔
    put = some connection ∧ usage = .use_ipc_call ∨
    put ≠ some connection ∧ s.Drops client sut_index_id connection ∧ usage = .not_used ∨
    put ≠ some connection ∧ ¬ s.Drops client sut_index_id connection ∧ s.Shows connection usage
  occupies : ∀ connection, s.expired connection = false → ∀ other, s'.Occupies other connection ↔
    other = client ∧ put = some connection ∨ s.OccupiesBut client sut_index_id other connection
  elsewhere : ∀ other index, ¬ (other = client ∧ index = sut_index_id) →
    s'.m_client_connections other index = s.m_client_connections other index
  present : ∀ connection, put = some connection → ∃ usage, s.Shows connection usage
  entries : ∀ entry ∈ s'.m_connections, ∃ usage, (entry.1,⟨entry.2.connection,usage⟩) ∈ s.m_connections
  kept : ∀ entry ∈ s.m_connections, ∃ usage, (entry.1,⟨entry.2.connection,usage⟩) ∈ s'.m_connections
  expired : s'.expired = s.expired
  created : s'.created = s.created

theorem Moved.held {s s' : Internals} {client : Client} {sut_index_id : Nat} {put : Option SutConnection}
    (moved : Moved s s' client sut_index_id put) (held : Held s) : Held s' where
  distinct := by
    intro entry there other here same
    obtain ⟨usage,old⟩ := moved.entries entry there
    obtain ⟨usage',old'⟩ := moved.entries other here
    have one := congrArg Prod.fst (held.distinct _ old _ old' same)
    exact mem_keys s'.sorted there here one
  made := by
    intro entry there
    obtain ⟨usage,old⟩ := moved.entries entry there
    have below := held.made _ old
    rwa [moved.created]
  live := by
    intro entry there
    obtain ⟨usage,old⟩ := moved.entries entry there
    have alive := held.live _ old
    rwa [moved.expired]
  fresh := by
    rw [moved.expired,moved.created]
    exact held.fresh

/-- A transport keeps its connection. -/
theorem Moved.find {s s' : Internals} {client : Client} {sut_index_id : Nat} {put : Option SutConnection}
    (moved : Moved s s' client sut_index_id put) (id : ConnectionId) :
    (OrderedMaps.find id s'.m_connections).map (·.2.connection) = (OrderedMaps.find id s.m_connections).map (·.2.connection) := by
  cases found : OrderedMaps.find id s.m_connections with
  | none =>
    have missing : OrderedMaps.find id s'.m_connections = none := by
      refine (find_eq_none s'.sorted).mpr fun entry there => ?_
      obtain ⟨usage,old⟩ := moved.entries entry there
      have other := (find_eq_none s.sorted).mp found _ old
      exact other
    rw [missing]
  | some it =>
    obtain ⟨there,key⟩ := (find_eq_some s.sorted).mp found
    obtain ⟨usage,here⟩ := moved.kept it there
    rw [(find_eq_some s'.sorted).mpr ⟨here,key⟩]
    rfl

theorem slots_set {s : Internals} {client : Client} {sut_index_id : Nat} (inside : sut_index_id < maxCount)
    (put : Option SutConnection) (other : Client) (index : Nat) :
    (s.setConnectionLocked client sut_index_id put).2.m_client_connections other index =
      if other = client ∧ index = sut_index_id then put else s.m_client_connections other index := by
  rw [Internals.setConnectionLocked,if_pos inside]
  by_cases own : other = client
  · subst own
    by_cases here : index = sut_index_id
    · subst here
      simp
    · simp [here]
  · simp [own]

theorem occupies_set {s : Internals} {client : Client} {sut_index_id : Nat} (behind : onConnectedSut < sut_index_id)
    (inside : sut_index_id < maxCount) (put : Option SutConnection) (other : Client) (connection : SutConnection) :
    (s.setConnectionLocked client sut_index_id put).2.Occupies other connection ↔
      other = client ∧ put = some connection ∨ s.OccupiesBut client sut_index_id other connection := by
  unfold Internals.Occupies Internals.OccupiesBut
  simp only [slots_set inside]
  constructor
  · rintro ⟨index,low,high,here⟩
    split at here
    · rename_i slot
      exact .inl ⟨slot.1,here⟩
    · rename_i slot
      exact .inr ⟨index,low,high,here,slot⟩
  · rintro (⟨own,here⟩ | ⟨index,low,high,here,slot⟩)
    · exact ⟨sut_index_id,behind,inside,by rw [if_pos ⟨own,rfl⟩]; exact here⟩
    · exact ⟨index,low,high,by rw [if_neg slot]; exact here⟩

/-- A call that finds nothing to clear. -/
theorem moved_nothing {s : Internals} {client : Client} {sut_index_id : Nat}
    (nothing : ∀ connection, s.expired connection = false → onConnectedSut < sut_index_id → sut_index_id < maxCount →
      s.m_client_connections client sut_index_id ≠ some connection) (held : Held s) : Moved s s client sut_index_id none where
  shows := by
    intro connection usage
    have none : ¬ s.Drops client sut_index_id connection := by
      intro drops
      obtain ⟨shown,entry,there,rfl,_⟩ := drops.present
      exact nothing _ (held.live entry there) drops.behind drops.inside drops.here
    simp [none]
  occupies := by
    intro connection live other
    constructor
    · rintro ⟨index,low,high,here⟩
      refine .inr ⟨index,low,high,here,?_⟩
      rintro ⟨rfl,rfl⟩
      exact nothing connection live low high here
    · rintro (⟨_,put⟩ | ⟨index,low,high,here,_⟩)
      · cases put
      · exact ⟨index,low,high,here⟩
  elsewhere := fun _ _ _ => rfl
  present := by
    intro connection put
    cases put
  entries := fun entry there => ⟨entry.2.usage,there⟩
  kept := fun entry there => ⟨entry.2.usage,there⟩
  expired := rfl
  created := rfl

theorem lock_some {s : Internals} {client : Client} {sut_index_id : Nat} {connection : SutConnection} :
    s.lock client sut_index_id = some connection ↔
      s.m_client_connections client sut_index_id = some connection ∧ s.expired connection = false := by
  unfold Internals.lock
  rw [Option.filter_eq_some_iff]
  simp

theorem set_rest (s : Internals) (client : Client) {sut_index_id : Nat} (inside : sut_index_id < maxCount)
    (put : Option SutConnection) :
    (s.setConnectionLocked client sut_index_id put).2.m_connections = s.m_connections ∧
    (s.setConnectionLocked client sut_index_id put).2.expired = s.expired ∧
    (s.setConnectionLocked client sut_index_id put).2.created = s.created := by
  rw [Internals.setConnectionLocked,if_pos inside]
  exact ⟨rfl,rfl,rfl⟩

section emptied
variable {s : Internals} {client : Client} {sut_index_id : Nat} (behind : onConnectedSut < sut_index_id)
  (inside : sut_index_id < maxCount)
include behind inside

theorem occupies_emptied (other : Client) (connection : SutConnection) :
    (s.setConnectionLocked client sut_index_id none).2.Occupies other connection ↔
      other = client ∧ none = some connection ∨ s.OccupiesBut client sut_index_id other connection :=
  occupies_set behind inside none other connection

/-- The slot is emptied and no usage changes. -/
theorem moved_emptied (stays : ∀ connection, ¬ s.Drops client sut_index_id connection) :
    Moved s (s.setConnectionLocked client sut_index_id none).2 client sut_index_id none := by
  obtain ⟨same,expired,created⟩ := set_rest s client inside none
  refine ⟨?_,fun connection _ other => occupies_emptied behind inside other connection,?_,?_,?_,?_,expired,created⟩
  · intro connection usage
    unfold Internals.Shows
    simp [same,stays connection]
  · exact fun other index slot => (slots_set inside none other index).trans (if_neg slot)
  · intro connection put
    cases put
  · exact fun entry there => ⟨entry.2.usage,same ▸ there⟩
  · exact fun entry there => ⟨entry.2.usage,same ▸ there⟩

/-- The slot is emptied and its connection marked as not used. -/
theorem moved_dropped (held : Held s) {it : ConnectionId × ConnectionState} (member : it ∈ s.m_connections)
    (drops : s.Drops client sut_index_id it.2.connection) :
    Moved s ((s.setConnectionLocked client sut_index_id none).2.setUsage it .not_used) client sut_index_id none := by
  obtain ⟨same,expired,created⟩ := set_rest s client inside none
  have held' : Held (s.setConnectionLocked client sut_index_id none).2 :=
    ⟨same ▸ held.distinct,by rw [same,created]; exact held.made,by rw [same,expired]; exact held.live,
      by rw [created,expired]; exact held.fresh⟩
  have member' : it ∈ (s.setConnectionLocked client sut_index_id none).2.m_connections := same ▸ member
  have mem (entry : ConnectionId × ConnectionState) := held'.mem_setUsage member' .not_used entry
  refine ⟨?_,fun connection _ other => occupies_emptied behind inside other connection,?_,?_,?_,?_,expired,created⟩
  · intro connection usage
    rw [held'.shows_setUsage member']
    have one : s.Drops client sut_index_id connection ↔ connection = it.2.connection :=
      ⟨fun other => Option.some.inj (other.here.symm.trans drops.here),fun equal => equal ▸ drops⟩
    have shown : (s.setConnectionLocked client sut_index_id none).2.Shows connection usage ↔ s.Shows connection usage := by
      unfold Internals.Shows
      rw [same]
    rw [one,shown]
    by_cases equal : connection = it.2.connection
    · simp [equal]
    · simp [equal]
  · exact fun other index slot => (slots_set inside none other index).trans (if_neg slot)
  · intro connection put
    cases put
  · intro entry there
    rcases (mem entry).mp there with rfl | ⟨old,_⟩
    · exact ⟨it.2.usage,member⟩
    · exact ⟨entry.2.usage,same ▸ old⟩
  · intro entry there
    by_cases equal : entry.2.connection = it.2.connection
    · obtain rfl := held.distinct entry there it member equal
      exact ⟨.not_used,(mem _).mpr (.inl rfl)⟩
    · exact ⟨entry.2.usage,(mem _).mpr (.inr ⟨same ▸ there,equal⟩)⟩

end emptied

theorem clear_moved {s : Internals} (held : Held s) (client : Client) (sut_index_id : Nat) :
    Moved s (s.clearIpcUseLocked client sut_index_id) client sut_index_id none := by
  unfold Internals.clearIpcUseLocked
  split
  · rename_i outside
    refine moved_nothing (fun connection _ behind inside => ?_) held
    unfold onConnectedSut at behind outside
    omega
  rename_i range
  have behind : onConnectedSut < sut_index_id := by
    unfold onConnectedSut at range ⊢
    omega
  have inside : sut_index_id < maxCount := by omega
  split
  · rename_i nothing
    refine moved_nothing (fun connection live _ _ here => ?_) held
    rw [lock_some.mpr ⟨here,live⟩] at nothing
    cases nothing
  rename_i connection locked
  obtain ⟨here,live⟩ := lock_some.mp locked
  dsimp only
  split
  · rename_i again
    refine moved_emptied behind inside fun other drops => ?_
    obtain rfl : connection = other := Option.some.inj (here.symm.trans drops.here)
    rcases (occupies_emptied behind inside client connection).mp (hasConnection_iff.mp again) with ⟨_,put⟩ |
      ⟨index,low,high,there,elsewhere⟩
    · cases put
    · exact elsewhere ⟨rfl,drops.only index low high there⟩
  rename_i last
  obtain ⟨same,_,_⟩ := set_rest s client inside none
  split
  · rename_i it found
    have member : it ∈ s.m_connections := same ▸ List.mem_of_find?_eq_some found
    obtain rfl : it.2.connection = connection := by simpa using List.find?_some found
    refine moved_dropped behind inside held member ⟨⟨_,it,member,rfl,rfl⟩,behind,inside,here,?_⟩
    intro other low high there
    by_contra elsewhere
    exact last (hasConnection_iff.mpr ((occupies_emptied behind inside client _).mpr
      (.inr ⟨other,low,high,there,fun slot => elsewhere slot.2⟩)))
  · rename_i missing
    refine moved_emptied behind inside fun other drops => ?_
    obtain rfl : connection = other := Option.some.inj (here.symm.trans drops.here)
    obtain ⟨usage,entry,there,equal,_⟩ := drops.present
    rw [same] at missing
    have different := List.find?_eq_none.mp missing entry there
    exact different (by simpa using equal)

/-- The connection that `Connections_SetIpcUse` puts into the slot. -/
def Internals.put (s : Internals) (connection_id : ConnectionId) (sut_index_id : Nat) : Option SutConnection :=
  if onConnectedSut < sut_index_id ∧ sut_index_id < maxCount then
    (OrderedMaps.find connection_id s.m_connections).map (·.2.connection)
  else none

theorem Moved.occupiesBut {s s' : Internals} {client : Client} {sut_index_id : Nat} {put : Option SutConnection}
    (moved : Moved s s' client sut_index_id put) (other : Client) (connection : SutConnection) :
    s'.OccupiesBut client sut_index_id other connection ↔ s.OccupiesBut client sut_index_id other connection := by
  constructor
  · rintro ⟨index,low,high,here,slot⟩
    exact ⟨index,low,high,(moved.elsewhere other index slot).symm.trans here,slot⟩
  · rintro ⟨index,low,high,here,slot⟩
    exact ⟨index,low,high,(moved.elsewhere other index slot).trans here,slot⟩

/-- A connection is put into the slot that was cleared before. -/
theorem Moved.used {s s' : Internals} {client : Client} {sut_index_id : Nat} (moved : Moved s s' client sut_index_id none)
    (held : Held s) (behind : onConnectedSut < sut_index_id) (inside : sut_index_id < maxCount)
    {it : ConnectionId × ConnectionState} (member : it ∈ s'.m_connections) :
    Moved s ((s'.setConnectionLocked client sut_index_id (some it.2.connection)).2.setUsage it .use_ipc_call) client
      sut_index_id (some it.2.connection) := by
  obtain ⟨same,expired,created⟩ := set_rest s' client inside (some it.2.connection)
  have after := moved.held held
  have held' : Held (s'.setConnectionLocked client sut_index_id (some it.2.connection)).2 :=
    ⟨same ▸ after.distinct,by rw [same,created]; exact after.made,by rw [same,expired]; exact after.live,
      by rw [created,expired]; exact after.fresh⟩
  have member' : it ∈ (s'.setConnectionLocked client sut_index_id (some it.2.connection)).2.m_connections := same ▸ member
  have mem (entry : ConnectionId × ConnectionState) := held'.mem_setUsage member' .use_ipc_call entry
  refine ⟨?_,?_,?_,?_,?_,?_,expired.trans moved.expired,created.trans moved.created⟩
  · intro connection usage
    have shown : (s'.setConnectionLocked client sut_index_id (some it.2.connection)).2.Shows connection usage ↔
        s'.Shows connection usage := by
      unfold Internals.Shows
      rw [same]
    rw [held'.shows_setUsage member',shown,moved.shows]
    by_cases equal : connection = it.2.connection
    · simp [equal]
    · simp [equal,Ne.symm equal]
  · intro connection live other
    rw [← moved.occupiesBut]
    exact occupies_set behind inside _ other connection
  · exact fun other index slot => ((slots_set inside _ other index).trans (if_neg slot)).trans (moved.elsewhere other index slot)
  · intro connection put
    obtain ⟨usage,old⟩ := moved.entries it member
    exact ⟨usage,_,old,Option.some.inj put,rfl⟩
  · intro entry there
    rcases (mem entry).mp there with rfl | ⟨old,_⟩
    · exact moved.entries it member
    · exact moved.entries entry (same ▸ old)
  · intro entry there
    obtain ⟨usage,old⟩ := moved.kept entry there
    by_cases equal : entry.2.connection = it.2.connection
    · obtain rfl := after.distinct _ old it member equal
      exact ⟨.use_ipc_call,(mem _).mpr (.inl rfl)⟩
    · exact ⟨usage,(mem _).mpr (.inr ⟨same ▸ old,equal⟩)⟩

/-- An assertion changes no connection. -/
theorem Moved.raised {s s' : Internals} {client : Client} {sut_index_id : Nat} {put : Option SutConnection}
    (moved : Moved s s' client sut_index_id put) (raised : Nat) : Moved s { s' with raised } client sut_index_id put :=
  ⟨moved.shows,moved.occupies,moved.elsewhere,moved.present,moved.entries,moved.kept,moved.expired,moved.created⟩

theorem setConnectionLocked_outside {s : Internals} {client : Client} {sut_id : Nat} (outside : ¬ sut_id < maxCount)
    (connection : Option SutConnection) :
    s.setConnectionLocked client sut_id connection = (false,{ s with raised := s.raised + 1 }) := by
  rw [Internals.setConnectionLocked,if_neg outside]

theorem set_moved {s : Internals} (held : Held s) (client : Client) (connection_id : ConnectionId) (sut_index_id : Nat) :
    Moved s (s.setIpcUse client connection_id sut_index_id) client sut_index_id (s.put connection_id sut_index_id) := by
  unfold Internals.setIpcUse Internals.put
  by_cases range : onConnectedSut < sut_index_id ∧ sut_index_id < maxCount
  · have behind := range.1
    have inside := range.2
    have other : ¬ sut_index_id = onConnectedSut := by omega
    have cleared := clear_moved held client sut_index_id
    have found := cleared.find connection_id
    rw [if_pos range]
    simp only [if_neg other]
    split
    · rename_i it here
      rw [here] at found
      rw [← found]
      have set : (s.clearIpcUseLocked client sut_index_id).setConnectionLocked client sut_index_id (some it.2.connection) =
          (true,((s.clearIpcUseLocked client sut_index_id).setConnectionLocked client sut_index_id (some it.2.connection)).2) := by
        rw [Internals.setConnectionLocked,if_pos inside]
      rw [set]
      exact cleared.used held behind inside ((find_eq_some (Internals.sorted _)).mp here).1
    · rename_i missing
      rw [missing] at found
      rw [← found]
      exact cleared
  · rw [if_neg range]
    have outside : ¬ (if sut_index_id = onConnectedSut then maxCount else sut_index_id) < maxCount := by
      split
      · exact Nat.lt_irrefl _
      · unfold onConnectedSut at *
        omega
    have nothing : s.clearIpcUseLocked client (if sut_index_id = onConnectedSut then maxCount else sut_index_id) = s := by
      unfold Internals.clearIpcUseLocked
      rw [if_pos (.inl (Nat.le_of_not_lt outside))]
    have moved : Moved s s client sut_index_id none :=
      moved_nothing (fun connection _ behind inside => absurd ⟨behind,inside⟩ range) held
    dsimp only
    rw [nothing]
    split
    · rw [setConnectionLocked_outside outside]
      exact moved.raised _
    · exact moved

/-! ### The usage of the connections -/

/-- What the slots say about the usage, whatever was done to them. -/
structure Inv (s : Internals) : Prop where
  held : Held s
  placed : ∀ client connection, s.expired connection = false → s.Occupies client connection → connection < s.created
  /-- A connection that is marked as used is in a slot. -/
  used : ∀ connection, s.Shows connection .use_ipc_call → ∃ client, s.Occupies client connection
  /-- A connection in a slot is no longer a new one. -/
  marked : ∀ connection, s.Shows connection .newly_connected → ∀ client, ¬ s.Occupies client connection
/-- Every connection in a slot is marked as used. -/
def Used (s : Internals) : Prop :=
  ∀ connection usage, s.Shows connection usage → (∃ client, s.Occupies client connection) → usage = .use_ipc_call

theorem Held.shows_live {s : Internals} (held : Held s) {connection : SutConnection} {usage : ConnectionUsage}
    (shows : s.Shows connection usage) : s.expired connection = false := by
  obtain ⟨entry,there,rfl,_⟩ := shows
  exact held.live entry there

theorem Internals.OccupiesBut.occupies {s : Internals} {client : Client} {sut_index_id : Nat} {other : Client}
    {connection : SutConnection} (remains : s.OccupiesBut client sut_index_id other connection) :
    s.Occupies other connection := by
  obtain ⟨index,low,high,here,_⟩ := remains
  exact ⟨index,low,high,here⟩

theorem Moved.inv {s s' : Internals} {client : Client} {sut_index_id : Nat} {put : Option SutConnection}
    (moved : Moved s s' client sut_index_id put) (inv : Inv s) : Inv s' where
  held := moved.held inv.held
  placed := by
    intro other connection live occupied
    rw [moved.expired] at live
    rw [moved.created]
    rcases (moved.occupies connection live other).mp occupied with ⟨_,here⟩ | remains
    · obtain ⟨usage,entry,there,rfl,_⟩ := moved.present connection here
      exact inv.held.made entry there
    · exact inv.placed other connection live remains.occupies
  used := by
    intro connection shows
    have live := (moved.held inv.held).shows_live shows
    rw [moved.expired] at live
    rcases (moved.shows connection _).mp shows with ⟨here,_⟩ | ⟨_,_,usage⟩ | ⟨_,stays,before⟩
    · exact ⟨client,(moved.occupies connection live client).mpr (.inl ⟨rfl,here⟩)⟩
    · cases usage
    obtain ⟨other,index,low,high,there⟩ := inv.used connection before
    by_cases slot : other = client ∧ index = sut_index_id
    · obtain ⟨rfl,rfl⟩ := slot
      -- the client holds the connection in another slot too, or it would be dropped
      have again : ∃ more, onConnectedSut < more ∧ more < maxCount ∧
          s.m_client_connections other more = some connection ∧ more ≠ index := by
        by_contra alone
        exact stays ⟨⟨_,before⟩,low,high,there,fun more low high here => by
          by_contra different
          exact alone ⟨more,low,high,here,different⟩⟩
      obtain ⟨more,low,high,here,different⟩ := again
      exact ⟨other,(moved.occupies connection live other).mpr
        (.inr ⟨more,low,high,here,fun slot => different slot.2⟩)⟩
    · exact ⟨other,(moved.occupies connection live other).mpr (.inr ⟨index,low,high,there,slot⟩)⟩
  marked := by
    intro connection shows other occupied
    have live := (moved.held inv.held).shows_live shows
    rw [moved.expired] at live
    rcases (moved.shows connection _).mp shows with ⟨_,usage⟩ | ⟨_,_,usage⟩ | ⟨elsewhere,_,before⟩
    · cases usage
    · cases usage
    rcases (moved.occupies connection live other).mp occupied with ⟨_,here⟩ | remains
    · exact elsewhere here
    · exact inv.marked connection before other remains.occupies

/-- A call keeps every slot marked as used exactly if the connection that it
    drops, and does not put back, is in no slot of another client. -/
theorem Moved.used_iff {s s' : Internals} {client : Client} {sut_index_id : Nat} {put : Option SutConnection}
    (moved : Moved s s' client sut_index_id put) (inv : Inv s) (used : Used s) :
    Used s' ↔ ∀ connection, s.Drops client sut_index_id connection → put ≠ some connection →
      ∀ other, other ≠ client → ¬ s.Occupies other connection := by
  constructor
  · rintro used' connection drops elsewhere other different ⟨index,low,high,here⟩
    have live : s.expired connection = false := by
      obtain ⟨usage,shows⟩ := drops.present
      exact inv.held.shows_live shows
    have shows : s'.Shows connection .not_used := (moved.shows connection _).mpr (.inr (.inl ⟨elsewhere,drops,rfl⟩))
    have occupied : s'.Occupies other connection :=
      (moved.occupies connection live other).mpr (.inr ⟨index,low,high,here,fun slot => different slot.1⟩)
    cases used' connection _ shows ⟨other,occupied⟩
  · rintro alone connection usage shows ⟨other,occupied⟩
    have live := (moved.held inv.held).shows_live shows
    rw [moved.expired] at live
    rcases (moved.shows connection usage).mp shows with ⟨_,marked⟩ | ⟨elsewhere,drops,_⟩ | ⟨elsewhere,_,before⟩
    · exact marked
    · exfalso
      rcases (moved.occupies connection live other).mp occupied with ⟨_,here⟩ | remains
      · exact elsewhere here
      · by_cases own : other = client
        · obtain ⟨index,low,high,here,slot⟩ := remains
          subst own
          exact slot ⟨rfl,drops.only index low high here⟩
        · exact alone connection drops elsewhere other own remains.occupies
    · rcases (moved.occupies connection live other).mp occupied with ⟨_,here⟩ | remains
      · exact absurd here elsewhere
      · exact used connection usage before ⟨other,remains.occupies⟩

/-- What only takes connections out of the map, or leaves it as it is. -/
structure Shrunk (s s' : Internals) : Prop where
  entries : ∀ entry ∈ s'.m_connections, entry ∈ s.m_connections
  occupies : ∀ client connection, s'.Occupies client connection ↔ s.Occupies client connection
  created : s'.created = s.created
  alive : ∀ connection, s'.expired connection = false → s.expired connection = false
  live : ∀ entry ∈ s'.m_connections, s.expired entry.2.connection = false → s'.expired entry.2.connection = false
  fresh : ∀ connection, s.created ≤ connection → s.expired connection = false → s'.expired connection = false

theorem Shrunk.shows {s s' : Internals} (shrunk : Shrunk s s') {connection : SutConnection} {usage : ConnectionUsage}
    (shows : s'.Shows connection usage) : s.Shows connection usage := by
  obtain ⟨entry,there,same⟩ := shows
  exact ⟨entry,shrunk.entries entry there,same⟩

theorem Shrunk.inv {s s' : Internals} (shrunk : Shrunk s s') (inv : Inv s) : Inv s' where
  held := by
    refine ⟨?_,?_,?_,?_⟩
    · exact fun entry there other here => inv.held.distinct entry (shrunk.entries entry there) other (shrunk.entries other here)
    · intro entry there
      rw [shrunk.created]
      exact inv.held.made entry (shrunk.entries entry there)
    · exact fun entry there => shrunk.live entry there (inv.held.live entry (shrunk.entries entry there))
    · intro connection new
      rw [shrunk.created] at new
      exact shrunk.fresh connection new (inv.held.fresh connection new)
  placed := by
    intro client connection live occupied
    rw [shrunk.created]
    exact inv.placed client connection (shrunk.alive connection live) ((shrunk.occupies client connection).mp occupied)
  used := by
    intro connection shows
    obtain ⟨client,occupied⟩ := inv.used connection (shrunk.shows shows)
    exact ⟨client,(shrunk.occupies client connection).mpr occupied⟩
  marked := fun connection shows client occupied =>
    inv.marked connection (shrunk.shows shows) client ((shrunk.occupies client connection).mp occupied)

theorem Shrunk.used {s s' : Internals} (shrunk : Shrunk s s') (used : Used s) : Used s' := by
  rintro connection usage shows ⟨client,occupied⟩
  exact used connection usage (shrunk.shows shows) ⟨client,(shrunk.occupies client connection).mp occupied⟩

theorem shrunk_setOnConnectedSut (s : Internals) (client : Client) (connection : Option SutConnection) :
    Shrunk s (s.setOnConnectedSut client connection) := by
  have inside : onConnectedSut < maxCount := by decide
  obtain ⟨same,expired,created⟩ := set_rest s client inside connection
  have slots (other : Client) (index : Nat) (behind : onConnectedSut < index) :
      (s.setOnConnectedSut client connection).m_client_connections other index = s.m_client_connections other index :=
    (slots_set inside connection other index).trans (if_neg fun slot => absurd slot.2 (Nat.ne_of_gt behind))
  refine ⟨fun entry there => same ▸ there,?_,created,?_,?_,?_⟩
  · intro other held
    constructor
    · rintro ⟨index,low,high,here⟩
      exact ⟨index,low,high,(slots other index low).symm.trans here⟩
    · rintro ⟨index,low,high,here⟩
      exact ⟨index,low,high,(slots other index low).trans here⟩
  · exact fun other live => (congrFun expired other).symm.trans live
  · exact fun entry _ live => (congrFun expired entry.2.connection).trans live
  · exact fun other _ live => (congrFun expired other).trans live

theorem shrunk_removeConnection (s : Internals) (transport : ConnectionId) : Shrunk s (s.removeConnection transport) :=
  ⟨fun _ there => List.mem_of_mem_filter there,fun _ _ => Iff.rfl,rfl,fun _ live => live,fun _ _ live => live,
    fun _ _ live => live⟩

theorem shrunk_destroy {s : Internals} {connection : SutConnection} (made : connection < s.created)
    (absent : ∀ entry ∈ s.m_connections, entry.2.connection ≠ connection) :
    Shrunk s { s with expired := Function.update s.expired connection true } := by
  refine ⟨fun _ there => there,fun _ _ => Iff.rfl,rfl,?_,?_,?_⟩
  · intro other live
    by_cases same : other = connection
    · subst same
      simp at live
    · simpa [same] using live
  · intro entry there live
    simpa [absent entry there] using live
  · intro other new live
    have different : other ≠ connection := Nat.ne_of_gt (Nat.lt_of_lt_of_le made new)
    simpa [different] using live

/-- A connection of the map after an addition was there, or is the new one. -/
theorem shows_added {s : Internals} {transport : ConnectionId} {connection : SutConnection} {usage : ConnectionUsage}
    (shows : (s.addNewConnection transport).Shows connection usage) :
    s.Shows connection usage ∨ connection = s.created ∧ usage = .newly_connected := by
  obtain ⟨entry,there,rfl,rfl⟩ := shows
  rcases mem_insert_or there with rfl | old
  · exact .inr ⟨rfl,rfl⟩
  · exact .inl ⟨entry,old,rfl,rfl⟩

theorem Inv.unplaced {s : Internals} (inv : Inv s) (client : Client) : ¬ s.Occupies client s.created :=
  fun occupied => Nat.lt_irrefl _ (inv.placed client _ (inv.held.fresh _ (Nat.le_refl _)) occupied)

theorem inv_added {s : Internals} (inv : Inv s) (transport : ConnectionId) : Inv (s.addNewConnection transport) where
  held := by
    refine ⟨?_,?_,?_,?_⟩
    · intro entry there other here same
      rcases mem_insert_or there with rfl | old
      · rcases mem_insert_or here with rfl | old'
        · rfl
        · exact absurd same (Nat.ne_of_gt (inv.held.made other old'))
      · rcases mem_insert_or here with rfl | old'
        · exact absurd same (Nat.ne_of_lt (inv.held.made entry old))
        · exact inv.held.distinct entry old other old' same
    · intro entry there
      rcases mem_insert_or there with rfl | old
      · exact Nat.lt_succ_self _
      · exact Nat.lt_succ_of_lt (inv.held.made entry old)
    · intro entry there
      rcases mem_insert_or there with rfl | old
      · exact inv.held.fresh _ (Nat.le_refl _)
      · exact inv.held.live entry old
    · exact fun connection new => inv.held.fresh connection (Nat.le_of_succ_le new)
  placed := fun client connection live occupied => Nat.lt_succ_of_lt (inv.placed client connection live occupied)
  used := by
    intro connection shows
    rcases shows_added shows with before | ⟨_,usage⟩
    · exact inv.used connection before
    · cases usage
  marked := by
    intro connection shows client occupied
    rcases shows_added shows with before | ⟨rfl,_⟩
    · exact inv.marked connection before client occupied
    · exact inv.unplaced client occupied

theorem used_added {s : Internals} (inv : Inv s) (used : Used s) (transport : ConnectionId) :
    Used (s.addNewConnection transport) := by
  rintro connection usage shows ⟨client,occupied⟩
  rcases shows_added shows with before | ⟨rfl,_⟩
  · exact used connection usage before ⟨client,occupied⟩
  · exact absurd occupied (inv.unplaced client)

/-- The step drops no connection that another client has in a slot. -/
def KeepsOthers (s : Internals) : Action → Prop
  | .setIpcUse client connection_id sut_index_id => ∀ connection, s.Drops client sut_index_id connection →
      s.put connection_id sut_index_id ≠ some connection → ∀ other, other ≠ client → ¬ s.Occupies other connection
  | .clearIpcUse client sut_index_id => ∀ connection, s.Drops client sut_index_id connection →
      ∀ other, other ≠ client → ¬ s.Occupies other connection
  | _ => True

theorem inv_start : Inv Internals.start where
  held := by
    refine ⟨?_,?_,?_,?_⟩
    · exact fun entry there => (List.not_mem_nil there).elim
    · exact fun entry there => (List.not_mem_nil there).elim
    · exact fun entry there => (List.not_mem_nil there).elim
    · exact fun connection _ => rfl
  placed := fun client connection _ ⟨index,_,_,here⟩ => absurd here (Option.some_ne_none connection).symm
  used := fun connection ⟨entry,there,_⟩ => (List.not_mem_nil there).elim
  marked := fun connection ⟨entry,there,_⟩ => (List.not_mem_nil there).elim

theorem used_start : Used Internals.start := by
  rintro connection usage ⟨entry,there,_⟩
  exact (List.not_mem_nil there).elim

theorem step_inv : Preserves step Inv := by
  intro s action s' inv stepped
  cases action with
  | setIpcUse client connection_id sut_index_id =>
    obtain rfl := Option.some.inj stepped
    exact (set_moved inv.held client connection_id sut_index_id).inv inv
  | clearIpcUse client sut_index_id =>
    obtain rfl := Option.some.inj stepped
    exact (clear_moved inv.held client sut_index_id).inv inv
  | addNewConnection transport =>
    obtain rfl := Option.some.inj stepped
    exact inv_added inv transport
  | setOnConnectedSut client connection =>
    obtain rfl := Option.some.inj stepped
    exact (shrunk_setOnConnectedSut s client connection).inv inv
  | removeConnection transport =>
    obtain rfl := Option.some.inj stepped
    exact (shrunk_removeConnection s transport).inv inv
  | destroy connection =>
    rw [step] at stepped
    split at stepped
    · rename_i last
      obtain rfl := Option.some.inj stepped
      exact (shrunk_destroy last.1 last.2).inv inv
    · cases stepped

theorem step_used {s s' : Internals} {action : Action} (inv : Inv s) (used : Used s) (stepped : step s action = some s') :
    Used s' ↔ KeepsOthers s action := by
  cases action with
  | setIpcUse client connection_id sut_index_id =>
    obtain rfl := Option.some.inj stepped
    exact (set_moved inv.held client connection_id sut_index_id).used_iff inv used
  | clearIpcUse client sut_index_id =>
    obtain rfl := Option.some.inj stepped
    have exactly := (clear_moved inv.held client sut_index_id).used_iff inv used
    simpa [KeepsOthers,Internals.clearIpcUse] using exactly
  | addNewConnection transport =>
    obtain rfl := Option.some.inj stepped
    exact iff_of_true (used_added inv used transport) trivial
  | setOnConnectedSut client connection =>
    obtain rfl := Option.some.inj stepped
    exact iff_of_true ((shrunk_setOnConnectedSut s client connection).used used) trivial
  | removeConnection transport =>
    obtain rfl := Option.some.inj stepped
    exact iff_of_true ((shrunk_removeConnection s transport).used used) trivial
  | destroy connection =>
    rw [step] at stepped
    split at stepped
    · rename_i last
      obtain rfl := Option.some.inj stepped
      exact iff_of_true ((shrunk_destroy last.1 last.2).used used) trivial
    · cases stepped

/-! ### Connections that were in a slot -/

/-- The connection is not a new one, and will not be one again. -/
def Marked (connection : SutConnection) (s : Internals) : Prop :=
  connection < s.created ∧ ¬ s.Shows connection .newly_connected

theorem Inv.occupies_marked {s : Internals} (inv : Inv s) {client : Client} {connection : SutConnection}
    (occupied : s.Occupies client connection) : Marked connection s := by
  refine ⟨?_,fun shows => inv.marked connection shows client occupied⟩
  by_contra new
  have live := inv.held.fresh connection (Nat.le_of_not_lt new)
  exact new (inv.placed client connection live occupied)

theorem Moved.marks {s s' : Internals} {client : Client} {sut_index_id : Nat} {put : Option SutConnection}
    (moved : Moved s s' client sut_index_id put) {connection : SutConnection} (marked : Marked connection s) :
    Marked connection s' := by
  refine ⟨moved.created ▸ marked.1,fun shows => ?_⟩
  rcases (moved.shows connection _).mp shows with ⟨_,usage⟩ | ⟨_,_,usage⟩ | ⟨_,_,before⟩
  · cases usage
  · cases usage
  · exact marked.2 before

theorem Shrunk.marks {s s' : Internals} (shrunk : Shrunk s s') {connection : SutConnection} (marked : Marked connection s) :
    Marked connection s' :=
  ⟨shrunk.created ▸ marked.1,fun shows => marked.2 (shrunk.shows shows)⟩

theorem step_marked (connection : SutConnection) : Preserves step fun s => Inv s ∧ Marked connection s := by
  refine step_inv.and fun s action s' inv marked stepped => ?_
  cases action with
  | setIpcUse client connection_id sut_index_id =>
    obtain rfl := Option.some.inj stepped
    exact (set_moved inv.held client connection_id sut_index_id).marks marked
  | clearIpcUse client sut_index_id =>
    obtain rfl := Option.some.inj stepped
    exact (clear_moved inv.held client sut_index_id).marks marked
  | addNewConnection transport =>
    obtain rfl := Option.some.inj stepped
    refine ⟨Nat.lt_succ_of_lt marked.1,fun shows => ?_⟩
    rcases shows_added shows with before | ⟨rfl,_⟩
    · exact marked.2 before
    · exact Nat.lt_irrefl _ marked.1
  | setOnConnectedSut client other =>
    obtain rfl := Option.some.inj stepped
    exact (shrunk_setOnConnectedSut s client other).marks marked
  | removeConnection transport =>
    obtain rfl := Option.some.inj stepped
    exact (shrunk_removeConnection s transport).marks marked
  | destroy other =>
    rw [step] at stepped
    split at stepped
    · rename_i last
      obtain rfl := Option.some.inj stepped
      exact (shrunk_destroy last.1 last.2).marks marked
    · cases stepped

/-- The connection was in a slot at some time of the run. -/
def Assigned (actions : List Action) (connection : SutConnection) : Prop :=
  ∃ before, before <+: actions ∧ ∃ client, (run step Internals.start before).Occupies client connection
/-- The usage of the connections in the map after a run is what the slots say. -/
structure Matches (actions : List Action) : Prop where
  used : Used (run step Internals.start actions)
  unused : ∀ connection usage, (run step Internals.start actions).Shows connection usage → Assigned actions connection →
    (¬ ∃ client, (run step Internals.start actions).Occupies client connection) → usage = .not_used

/-- A connection that left all its slots is never marked otherwise. -/
theorem unused_marked (actions : List Action) {connection : SutConnection} {usage : ConnectionUsage}
    (shows : (run step Internals.start actions).Shows connection usage) (assigned : Assigned actions connection)
    (left : ¬ ∃ client, (run step Internals.start actions).Occupies client connection) : usage = .not_used := by
  obtain ⟨before,⟨later,rfl⟩,client,occupied⟩ := assigned
  have inv := step_inv.run inv_start before
  have marked := (step_marked connection).run ⟨inv,inv.occupies_marked occupied⟩ later
  rw [← run_append] at marked
  cases usage with
  | newly_connected => exact absurd shows marked.2.2
  | not_used => rfl
  | use_ipc_call => exact absurd (marked.1.used connection shows) left

/-- The usage matches the slots all along a run if and only if no step drops a
    connection that another client has in a slot. -/
theorem usage_matches_iff (actions : List Action) :
    (∀ before, before <+: actions → Matches before) ↔ Along step KeepsOthers Internals.start actions := by
  have exactly := along_iff step_inv (fun s action s' inv used stepped => step_used inv used stepped) inv_start used_start actions
  rw [← exactly]
  constructor
  · exact fun all before short => (all before short).used
  · exact fun all before short => ⟨all before short,fun connection usage => unused_marked before⟩

/-- Two clients have the connection in slot 1, and the first one clears its slot:
    the connection counts as not used while it is in the slot of the second. -/
theorem usage_of_others :
    let actions : List Action := [.addNewConnection 0,.setIpcUse 0 0 1,.setIpcUse 1 0 1,.clearIpcUse 0 1]
    let s := run step Internals.start actions
    s.m_connections = [(0,⟨0,.not_used⟩)] ∧ s.m_client_connections 1 1 = some 0 ∧ s.Occupies 1 0 ∧ ¬ Matches actions := by
  refine ⟨by decide,by decide,⟨1,by decide,by decide,by decide⟩,fun holds => ?_⟩
  have shows : (run step Internals.start [.addNewConnection 0,.setIpcUse 0 0 1,.setIpcUse 1 0 1,.clearIpcUse 0 1]).Shows 0 .not_used :=
    ⟨(0,⟨0,.not_used⟩),by decide,rfl,rfl⟩
  cases holds.used 0 .not_used shows ⟨1,1,by decide,by decide,by decide⟩

end IpcPortable.ClientSlots
