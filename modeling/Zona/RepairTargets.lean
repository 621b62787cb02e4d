import Zona.BincodeLayout
import Zona.PeerTables

/-!
# Repair targets and recovery

Every tick a node looks up pseudo-random identifiers derived from the epoch
seed and its own identifier, under one prefix for repair and another for the
long-jump slot.  A node is in recovery when too few live greedy slots, or too
few referrers behind them, are left.
-/

namespace Zona

/-- The number of repair targets per tick. -/
def repairTargetsPerTick : Nat := 2

/-- The byte strings `b"repair"` and `b"longjump"`. -/
def repairPrefix : List UInt8 := [0x72, 0x65, 0x70, 0x61, 0x69, 0x72]

def longJumpPrefix : List UInt8 := [0x6C, 0x6F, 0x6E, 0x67, 0x6A, 0x75, 0x6D, 0x70]

section Targets

variable [Crypto]

def hashTarget (pre : List UInt8) (epochSeed : UInt64) (selfId : NodeId) (index : UInt64) :
    NodeId :=
  ⟨Crypto.sha256 (pre ++ Bincode.u64 epochSeed ++ selfId.bytes.toList ++ Bincode.u64 index)⟩

/-- The repair targets of an epoch. -/
def repairTargets (epochSeed : UInt64) (selfId : NodeId) (count : Nat) : List NodeId :=
  (List.range count).map fun i => hashTarget repairPrefix epochSeed selfId (UInt64.ofNat i)

/-- The long-jump target of an epoch. -/
def longJumpTarget (epochSeed : UInt64) (selfId : NodeId) : NodeId :=
  hashTarget longJumpPrefix epochSeed selfId 0

end Targets

/-- The recovery state of a node. -/
inductive RecoveryState
  | healthy
  | recovery
  deriving DecidableEq

/-- Evaluate the recovery state of a table: `dedup` drops a referrer that
repeats the one right before it. -/
def evaluateRecovery (table : PeerTable) : RecoveryState :=
  if table.inRecovery then .recovery
  else if (table.greedyReferrers.destutter (· ≠ ·)).length < 2 then .recovery
  else .healthy

end Zona
