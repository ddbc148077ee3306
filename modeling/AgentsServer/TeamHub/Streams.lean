import AgentsServer.Notifications.NoLostHint
import AgentsServer.TeamHub.Announcements
import Mathlib.Logic.Function.Basic

/-!
# Notification streams

The Team Hub with its notification broker. A call commits first and owes its
publications afterwards; they run one by one in any order, and one may fail, which
closes the streams it was for. A stream finds out its mailbox, subscribes, reads a
fresh snapshot and seeds its subscription with it, each as a step of its own.
-/

namespace AgentsServer.TeamHub

open Library
open Notifications (MailArrival BulletinChange NotificationCursor Mailbox Broker Capacity)

/-- `team_notification_snapshot`, with the previous cursor already read from its
fields. The cursor is written out and read back by the callers. -/
def teamNotificationSnapshot (h : Hub) (caller : Caller) (teamId : String)
    (previous : Option NotificationCursor) : Except Failure NotificationCursor := do
  let _ ← caller.networkScope false
  let recipient ← caller.networkNode
  require (∀ p ∈ previous, p.mailbox.teamId = teamId ∧ p.mailbox.recipientServerId = recipient)
    (.hubError "forbidden" "Notification cursor belongs to another mailbox" 403)
  let mail ← h.mailArrival teamId recipient
  let bulletin ← h.bulletinChange teamId
  if same : mail.mailbox.teamId = bulletin.teamId then
    return {
      mail, bulletin, same_team := same
      mailReset := previous.all fun p =>
        decide (mail.throughSequence < p.mail.throughSequence) || !h.anchorMatches p.mail
      bulletinReset := previous.all fun p =>
        decide (bulletin.throughSequence < p.bulletin.throughSequence) ||
          !h.bulletinAnchorMatches p.bulletin }
  else .error .valueError

/-- How far `subscribe_team_notifications` is with a subscription, and what its stream
reported last. A failed one is not handed out, and its subscription is closed next. -/
inductive Stage where
  | failed
  | subscribed (previous : Option NotificationCursor)
  | fresh (snapshot : NotificationCursor)
  | streaming (reported : NotificationCursor)

/-- What a committed call still has to publish. A Bulletin publication reads the head
before it publishes it. -/
inductive Owed where
  | publication (p : Publication)
  | head (change : BulletinChange)

/-- The subscriptions that are closed when a publication fails. -/
def Owed.audience : Owed → String × Option String
  | .publication (.mail teamId nodeId _ _) => (teamId, some nodeId)
  | .publication (.bulletin teamId _) => (teamId, none)
  | .head change => (change.teamId, none)

/-- The first snapshot of a call of `subscribe_team_notifications`. -/
structure Binding where
  mailbox : Mailbox
  previous : Option NotificationCursor

structure Streams where
  hub : Hub
  broker : Broker
  bindings : List Binding
  stages : Nat → Stage
  owed : List Owed

def Streams.start (capacity : Capacity) : Streams where
  hub := .empty
  broker := .new capacity
  bindings := []
  stages _ := .failed
  owed := []

inductive StreamAction where
  | call (call : Call)
  /-- one owed publication runs -/
  | publish (k : Nat)
  /-- one owed publication fails -/
  | fail (k : Nat)
  | identify (caller : Caller) (teamId : String) (previous : Option NotificationCursor)
  | subscribe (k : Nat)
  | snapshot (i : Nat) (caller : Caller)
  | seed (i : Nat)
  | take (i : Nat)
  | close (i : Nat)
  | invalidate (teamId : String) (recipientServerId : Option String)
  | closeBroker

namespace Streams

/-- A call of the broker, with what happens to the stages. -/
def invalidate (s : Streams) (audience : String × Option String) : Streams :=
  { s with broker := (Notifications.step s.broker (.invalidate audience.1 audience.2)).1 }

/-- One iteration of `_publish_team_mail_arrival`, one of the two steps of
`_publish_team_bulletin_head`. -/
def publish (s : Streams) (k : Nat) : Streams :=
  let rest := { s with owed := s.owed.eraseIdx k }
  match s.owed[k]? with
  | none => s
  | some (.publication (.mail teamId nodeId sequence messageId)) =>
      match makeArrival teamId nodeId sequence (some messageId) with
      | some arrival =>
          { rest with broker := (Notifications.step s.broker (.publishMail arrival)).1 }
      | none => rest.invalidate (teamId, some nodeId)
  | some (.publication (.bulletin teamId only)) =>
      if only.all (s.hub.isBulletin teamId) then
        match s.hub.bulletinChange teamId with
        | .ok change => { s with owed := s.owed.set k (.head change) }
        | .error _ => rest.invalidate (teamId, none)
      else rest
  | some (.head change) =>
      { rest with broker := (Notifications.step s.broker (.publishBulletin change)).1 }

def fail (s : Streams) (k : Nat) : Streams :=
  match s.owed[k]? with
  | none => s
  | some owed => { s with owed := s.owed.eraseIdx k }.invalidate owed.audience

/-- The broker's part of `subscribe_team_notifications`. -/
def subscribe (s : Streams) (k : Nat) : Streams :=
  match s.bindings[k]? with
  | none => s
  | some binding =>
      let rest := { s with bindings := s.bindings.eraseIdx k }
      let mailbox := binding.mailbox
      match Notifications.step s.broker (.subscribe mailbox.teamId mailbox.recipientServerId) with
      | (broker, .ok (.subscribed i)) =>
          { rest with
            broker, stages := Function.update s.stages i (.subscribed binding.previous) }
      | (broker, _) => { rest with broker }

/-- The fresh snapshot, of the same team and the same mailbox. -/
def snapshot (s : Streams) (i : Nat) (caller : Caller) : Streams :=
  match s.stages i, s.broker.objects[i]? with
  | .subscribed previous, some subscription =>
      let mailbox := subscription.mailbox
      let stage :=
        match teamNotificationSnapshot s.hub caller mailbox.teamId previous with
        | .ok cursor => if cursor.mailbox = mailbox then .fresh cursor else .failed
        | .error _ => .failed
      { s with stages := Function.update s.stages i stage }
  | _, _ => s

def seed (s : Streams) (i : Nat) : Streams :=
  match s.stages i with
  | .fresh cursor =>
      match Notifications.step s.broker (.seed i cursor) with
      | (broker, .ok _) =>
          { s with broker, stages := Function.update s.stages i (.streaming cursor) }
      | (broker, .error _) => { s with broker, stages := Function.update s.stages i .failed }
  | _ => s

def take (s : Streams) (i : Nat) : Streams :=
  match s.stages i with
  | .streaming _ =>
      match Notifications.step s.broker (.take i) with
      | (broker, .ok (.cursor (some cursor))) =>
          { s with broker, stages := Function.update s.stages i (.streaming cursor) }
      | (broker, _) => { s with broker }
  | _ => s

variable [Sha256] [UnicodeTables] [Conversions]

def step (s : Streams) : StreamAction → Streams × Unit
  | .call call =>
      let result := TeamHub.step s.hub call
      ({ s with
        hub := result.1
        owed := s.owed ++ (publicationsOf result.2).map .publication }, ())
  | .publish k => (s.publish k, ())
  | .fail k => (s.fail k, ())
  | .identify caller teamId previous =>
      (match teamNotificationSnapshot s.hub caller teamId previous with
      | .ok cursor => { s with bindings := s.bindings ++ [⟨cursor.mailbox, previous⟩] }
      | .error _ => s, ())
  | .subscribe k => (s.subscribe k, ())
  | .snapshot i caller => (s.snapshot i caller, ())
  | .seed i => (s.seed i, ())
  | .take i => (s.take i, ())
  | .close i => ({ s with broker := (Notifications.step s.broker (.closeSubscription i)).1 }, ())
  | .invalidate teamId recipientServerId => (s.invalidate (teamId, recipientServerId), ())
  | .closeBroker => ({ s with broker := (Notifications.step s.broker .close).1 }, ())

end Streams

end AgentsServer.TeamHub
