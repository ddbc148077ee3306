import AgentsServer.TeamHub.Announcements
import AgentsServer.TeamHub.Attachments

/-!
# Runs of attachment operations

The steps of any number of clients on one host. Declarations, chunks and
reclamations hold the attachment lease, a call on messages only its own transaction.
A call that read the clock earlier may go on later, and a process may die after any
effect on a file.
-/

namespace AgentsServer.TeamHub

open Library

/-- Who holds the attachment lease, and how far that operation is. -/
inductive Lease where
  | free
  /-- the transaction of a chunk failed, and the failure is recorded next -/
  | failing (teamId id : String)
  /-- the reclaimed rows are gone, and the tombstones are read next -/
  | reclaiming (limit : Nat)
  | draining (pending completed failed : List (PathKind × String))

structure AttachmentHost where
  limits : AttachmentLimits
  store : AttachmentStore
  clock : Nat
  lease : Lease

def AttachmentHost.start (limits : AttachmentLimits) : AttachmentHost where
  limits := limits
  store := { hub := .empty, staging _ := none, content _ := none, trace := [] }
  clock := 0
  lease := .free

/-- Whether an unlink fails, before or after the name is gone. -/
inductive UnlinkFault where
  | none
  | before
  | after
  deriving DecidableEq

/-- The arguments of a chunk, with the time its call read. -/
structure ChunkCall where
  caller : Caller
  teamId : String
  id : String
  chunk : Chunk
  timestamp : Nat

inductive HostAction where
  | tick (seconds : Nat)
  | call (call : Call)
  /-- the effects after the `cut`-th one are lost with the process -/
  | declare (caller : Caller) (token : TokenHex) (teamId : String)
      (fields : List (String × Json)) (timestamp : Nat) (cut : Option Nat)
  | chunk (call : ChunkCall) (cut : Option Nat)
  | recordFailure
  | purge (teamId : Option String) (timestamp : Nat) (limit : Int)
  | readCleanup
  | cleanNext (fault : UnlinkFault)
  | settleCleanup
  /-- the holder of the lease dies -/
  | kill

/-- The time a call read. -/
def HostAction.timestamp : HostAction → Nat
  | .call c => c.context.timestamp
  | .declare _ _ _ _ timestamp _ => timestamp
  | .chunk c _ => c.timestamp
  | .purge _ timestamp _ => timestamp
  | _ => 0

namespace AttachmentStore

/-- The store after the first effects of a task, or after all of them. -/
def after {ε α : Type} (task : Task ε α) (s : AttachmentStore) : Option Nat → AttachmentStore
  | none => task.final s
  | some n => (task.cuts s).getD n (task.final s)

/-- One tombstone of a drain: whether it is completed, and the store afterwards. -/
def cleanOne (s : AttachmentStore) (kind : PathKind) (key : String) (fault : UnlinkFault) :
    Bool × AttachmentStore :=
  match validateCleanupKey kind key with
  | .error _ => (false, s)
  | .ok () =>
      if s.hub.isProtected kind key then (true, s)
      else if fault = .before then (false, s)
      else
        let unlinked := s.trace ++ [.unlinked kind key]
        (decide (fault = .none), match kind with
          | .staging =>
              if (s.staging key).isNone then s
              else { s with staging := Function.update s.staging key none, trace := unlinked }
          | .content =>
              if (s.content key).isNone then s
              else { s with content := Function.update s.content key none, trace := unlinked })

end AttachmentStore

namespace AttachmentHost

/-- The tombstones a drain takes after a purge with this limit. -/
def cleanupLimit (limit : Int) : Nat :=
  min 8192 (max attachmentCleanupBatch (2 * limit.toNat))

variable [Sha256] [UnicodeTables] [Conversions]

/-- A chunk that fails without being cut off keeps the lease to record the failure. -/
def chunk (s : AttachmentHost) (call : ChunkCall) (cut : Option Nat) : AttachmentHost :=
  let task := AttachmentStore.writeChunk call.caller call.teamId call.id call.chunk call.timestamp
  let store := AttachmentStore.after task s.store cut
  match cut, (task.run s.store).2 with
  | none, .error (.uploadFailed _) =>
      { s with store, lease := .failing call.teamId call.id }
  | _, _ => { s with store }

/-- The steps that need the lease to be free. -/
def leased (s : AttachmentHost) : HostAction → AttachmentHost
  | .declare caller token teamId fields timestamp cut =>
      { s with
        store := AttachmentStore.after
          (declareTeamAttachment s.limits caller token teamId fields timestamp) s.store cut }
  | .chunk call cut => s.chunk call cut
  | .purge teamId timestamp limit =>
      match s.store.hub.purgeExpired teamId timestamp limit with
      | .ok hub =>
          { s with store := { s.store with hub }, lease := .reclaiming (cleanupLimit limit) }
      | .error _ => s
  | _ => s

/-- The steps of the operation that holds the lease. -/
def holding (s : AttachmentHost) (a : HostAction) : AttachmentHost :=
  match s.lease, a with
  | .failing teamId id, .recordFailure =>
      { s with
        store := { s.store with hub := s.store.hub.markFailed teamId id }, lease := .free }
  | .reclaiming limit, .readCleanup =>
      { s with lease := .draining (s.store.hub.pendingCleanup limit) [] [] }
  | .draining ((kind, key) :: rest) completed failed, .cleanNext fault =>
      let result := s.store.cleanOne kind key fault
      { s with
        store := result.2
        lease := if result.1 then .draining rest (completed ++ [(kind, key)]) failed
          else .draining rest completed (failed ++ [(kind, key)]) }
  | .draining [] completed failed, .settleCleanup =>
      { s with
        store := { s.store with hub := s.store.hub.settleCleanup completed failed }
        lease := .free }
  | _, .kill => { s with lease := .free }
  | _, _ => s

/-- A step of the host. A call cannot have read a time that is still to come. -/
def step (s : AttachmentHost) (a : HostAction) : AttachmentHost × Unit :=
  if s.clock < a.timestamp then (s, ())
  else
    match a with
    | .tick seconds => ({ s with clock := s.clock + seconds }, ())
    | .call call => ({ s with store := { s.store with hub := (TeamHub.step s.store.hub call).1 } }, ())
    | .declare .. | .chunk .. | .purge .. =>
        (match s.lease with
          | .free => s.leased a
          | _ => s, ())
    | _ => (s.holding a, ())

end AttachmentHost

end AgentsServer.TeamHub
