import FleetUpgrade.Store.Basic

/-!
# Stores in memory

A store in memory is its snapshot. Its changing calls leave the disk alone.
-/

namespace FleetUpgrade

/-- A store that lives in memory. -/
structure MemoryStore where
  snapshot : Snapshot

namespace MemoryStore

def apply (ops : Transaction) (m : MemoryStore) (disk : Disk) : Outcome MemoryStore :=
  match m.snapshot.apply ops with
  | .error e => ⟨.error e, m, disk⟩
  | .ok s => ⟨.ok (), ⟨s⟩, disk⟩

def resume (m : MemoryStore) (disk : Disk) : Outcome MemoryStore :=
  let result := m.snapshot.resume
  ⟨result.1.map fun _ => (), ⟨result.2⟩, disk⟩

def drop (name : String) (m : MemoryStore) (disk : Disk) : Outcome MemoryStore :=
  ⟨.ok (), ⟨m.snapshot.dropCollection name⟩, disk⟩

def stage (ops : Transaction) (m : MemoryStore) : MemoryStore :=
  ⟨m.snapshot.stage ops⟩

instance : DocumentStore MemoryStore where
  names m := m.snapshot.collections.keys
  scan m := m.snapshot.scan
  find m := m.snapshot.find
  count m := m.snapshot.count
  apply := apply
  resume := resume
  drop := drop

end MemoryStore

end FleetUpgrade
