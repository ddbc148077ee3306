import AgentsServer.Library.Latest
import AgentsServer.Library.Runs
import AgentsServer.Notifications.Records

/-!
# The notification broker

Subscriptions with two heads and one pending flag, the registry of the open
ones with its count, and every call as one step under the broker's guard.
-/

namespace AgentsServer.Notifications

open Library

/-- The two capacity limits a broker is made with. -/
structure Capacity where
  maxSubscriptions : Nat
  maxPerRecipient : Nat
  subscriptions_ok : 1 ≤ maxSubscriptions ∧ maxSubscriptions ≤ 4096
  recipient_ok : 1 ≤ maxPerRecipient ∧ maxPerRecipient ≤ 64

structure Subscription where
  mailbox : Mailbox
  mail : Option MailArrival
  bulletin : Option BulletinChange
  seeded : Bool
  pending : Bool
  closed : Bool

/-- A published record. -/
inductive Hint where
  | mail (arrival : MailArrival)
  | bulletin (change : BulletinChange)

/-- The subscriptions a record is published to. -/
def Subscription.concerns (s : Subscription) : Hint → Prop
  | .mail arrival => s.mailbox = arrival.mailbox
  | .bulletin change => s.mailbox.teamId = change.teamId

instance (s : Subscription) (hint : Hint) : Decidable (s.concerns hint) := by
  cases hint <;> unfold Subscription.concerns <;> infer_instance

/-- `_publish`. No result means that history changed and the subscription closes. -/
def Subscription.publish (s : Subscription) : Hint → Option Subscription
  | .mail arrival =>
      match Latest.compare MailArrival.throughSequence s.mail arrival with
      | .newer => some { s with mail := some arrival, pending := true }
      | .conflict => none
      | _ => some s
  | .bulletin change =>
      match Latest.compare BulletinChange.throughSequence s.bulletin change with
      | .newer => some { s with bulletin := some change, pending := true }
      | .conflict => none
      | _ => some s

/-- One field of `seed`: the head after it, and whether a publication raced ahead. -/
def seedField {α : Type} [DecidableEq α] (seq : α → Nat) (pending : Option α) (value : α) :
    Option (Option α × Bool) :=
  match Latest.compare seq pending value with
  | .conflict => none
  | .older => some (pending, true)
  | _ => some (some value, false)

/-- The loop of `seed`. No result means that the snapshot changed history. -/
def Subscription.seed (s : Subscription) (cursor : NotificationCursor) : Option Subscription := do
  let (mail, mailRaced) ← seedField MailArrival.throughSequence s.mail cursor.mail
  let (bulletin, bulletinRaced) ←
    seedField BulletinChange.throughSequence s.bulletin cursor.bulletin
  return { s with mail, bulletin, seeded := true, pending := mailRaced || bulletinRaced }

def Subscription.shut (s : Subscription) : Subscription :=
  { s with closed := true, pending := false, mail := none, bulletin := none }

/-- All subscriptions ever made are numbered in the order they were made. The
registry holds each open one under its own mailbox, so it is the list of their
numbers. -/
structure Broker where
  capacity : Capacity
  objects : List Subscription
  registered : List Nat
  count : Int
  closed : Bool

def Broker.new (capacity : Capacity) : Broker where
  capacity := capacity
  objects := []
  registered := []
  count := 0
  closed := false

/-- The registered subscriptions that meet a condition. -/
def Broker.members (b : Broker) (condition : Subscription → Bool) : List Nat :=
  b.registered.filter fun i => b.objects[i]?.any condition

def Broker.put (b : Broker) (i : Nat) (s : Subscription) : Broker :=
  { b with objects := b.objects.set i s }

def Broker.closeLocked (b : Broker) (i : Nat) : Broker :=
  match b.objects[i]? with
  | none => b
  | some s =>
      if s.closed then b
      else { b.put i s.shut with
        registered := b.registered.filter fun j => j ≠ i
        count := b.count - 1 }

/-- `_publish` on one subscription of a broker. -/
def Broker.publishOne (hint : Hint) (b : Broker) (i : Nat) : Broker :=
  match b.objects[i]? with
  | none => b
  | some s =>
      match s.publish hint with
      | some s' => b.put i s'
      | none => b.closeLocked i

def Broker.publish (b : Broker) (hint : Hint) : Broker :=
  (b.members fun s => decide (s.concerns hint)).foldl (Broker.publishOne hint) b

def Broker.closeAll (b : Broker) (condition : Subscription → Bool) : Broker :=
  (b.members condition).foldl Broker.closeLocked b

/-! ## Calls -/

inductive Action where
  | subscribe (teamId recipientServerId : String)
  | publishMail (arrival : MailArrival)
  | publishBulletin (change : BulletinChange)
  | invalidate (teamId : String) (recipientServerId : Option String)
  | close
  | seed (i : Nat) (cursor : NotificationCursor)
  | take (i : Nat)
  | closeSubscription (i : Nat)

inductive Answer where
  | done
  | subscribed (i : Nat)
  | cursor (value : Option NotificationCursor)

/-- The record an action publishes. -/
def Action.hint? : Action → Option Hint
  | .publishMail arrival => some (.mail arrival)
  | .publishBulletin change => some (.bulletin change)
  | _ => none

def Broker.subscribe (b : Broker) (teamId recipientServerId : String) :
    Broker × Except Failure Answer :=
  match makeMailbox teamId recipientServerId with
  | .error e => (b, .error e)
  | .ok mailbox =>
      if b.closed then (b, .error (.mailHintClosed "Notification broker is closed"))
      else if b.capacity.maxSubscriptions ≤ b.count ∨
          b.capacity.maxPerRecipient ≤ (b.members fun s => decide (s.mailbox = mailbox)).length then
        (b, .error (.mailHintCapacity "Notification capacity reached"))
      else
        ({ b with
          objects := b.objects ++ [{
            mailbox, mail := none, bulletin := none, seeded := false, pending := false
            closed := false }]
          registered := b.registered ++ [b.objects.length]
          count := b.count + 1 }, .ok (.subscribed b.objects.length))

def unknownSubscription : Failure :=
  .valueError "Unknown subscription"

def Broker.seed (b : Broker) (i : Nat) (cursor : NotificationCursor) :
    Broker × Except Failure Answer :=
  match b.objects[i]? with
  | none => (b, .error unknownSubscription)
  | some s =>
      if cursor.mailbox ≠ s.mailbox then
        (b, .error (.valueError "Notification subscription snapshot changed mailbox"))
      else if s.closed then (b, .error (.mailHintClosed "Notification subscription is closed"))
      else if s.seeded then (b, .ok .done)
      else
        match s.seed cursor with
        | none =>
            (b.closeLocked i, .error (.mailHintClosed "Notification snapshot changed history"))
        | some s' => (b.put i s', .ok .done)

/-- `take` once its wait is over. Without a pending hint the wait timed out. -/
def Broker.take (b : Broker) (i : Nat) : Broker × Except Failure Answer :=
  match b.objects[i]? with
  | none => (b, .error unknownSubscription)
  | some s =>
      if s.closed then (b, .error (.mailHintClosed "Notification subscription is closed"))
      else if !s.seeded || !s.pending then (b, .ok (.cursor none))
      else
        (b.put i { s with pending := false },
          (makeCursor s.mail s.bulletin).map fun cursor => .cursor (some cursor))

def step (b : Broker) : Action → Broker × Except Failure Answer
  | .subscribe teamId recipientServerId => b.subscribe teamId recipientServerId
  | .publishMail arrival => (b.publish (.mail arrival), .ok .done)
  | .publishBulletin change => (b.publish (.bulletin change), .ok .done)
  | .invalidate teamId recipientServerId =>
      (b.closeAll fun s => s.mailbox.teamId == teamId &&
        recipientServerId.all fun recipient => s.mailbox.recipientServerId == recipient, .ok .done)
  | .close => ({ b with closed := true }.closeAll fun _ => true, .ok .done)
  | .seed i cursor => b.seed i cursor
  | .take i => b.take i
  | .closeSubscription i => (b.closeLocked i, .ok .done)

end AgentsServer.Notifications
