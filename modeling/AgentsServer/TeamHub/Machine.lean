import AgentsServer.Library.Runs
import AgentsServer.TeamHub.Skills

/-!
# Runs of Team Messages operations

A call carries its arguments, what the identity tables answer at its time, the
time its clock showed and the identifiers it draws. Each call is one write
transaction, so calls of any number of clients interleave one after another.
-/

namespace AgentsServer.TeamHub

open Library

/-- What a call has beside its arguments. -/
structure Context where
  caller : Caller
  directory : Directory
  draws : Draws
  timestamp : Nat

inductive Operation where
  | create (fields : List (String × Json))
  | revise (messageId : String) (fields : List (String × Json)) (includeMailSubject : Bool)
  | delete (messageId : String) (fields : List (String × Json))
  | dismiss (messageId : String) (fields : List (String × Json))
  | setMailboxState (messageId : String) (fields : List (String × Json))
  | recordReceipt (messageId : String) (fields : List (String × Json))
  | setSkillFlag (flag : SkillFlag) (skillId : String) (fields : List (String × Json))

structure Call where
  context : Context
  teamId : String
  operation : Operation

variable [Sha256] [UnicodeTables] [Conversions]

/-- An answer without publications. -/
def silently (x : Except Failure (Json × Hub)) : Except Failure (Reply × Hub) :=
  x.map fun r => (⟨r.1, []⟩, r.2)

/-- The transaction of a call. -/
def Call.body (h : Hub) (call : Call) : Except Failure (Reply × Hub) :=
  let c := call.context
  match call.operation with
  | .create fields =>
      createTeamMessage h c.caller c.directory c.draws call.teamId fields c.timestamp
  | .revise messageId fields includeMailSubject =>
      reviseTeamMessage h c.caller c.directory c.draws call.teamId messageId fields
        includeMailSubject c.timestamp
  | .delete messageId fields =>
      deleteTeamMessage h c.caller c.draws call.teamId messageId fields c.timestamp
  | .dismiss messageId fields =>
      silently (dismissTeamMessage h c.caller call.teamId messageId fields c.timestamp)
  | .setMailboxState messageId fields =>
      silently (setTeamMessageMailboxState h c.caller c.directory call.teamId messageId fields
        c.timestamp)
  | .recordReceipt messageId fields =>
      silently (recordTeamMessageReceipt h c.caller c.directory call.teamId messageId fields
        c.timestamp)
  | .setSkillFlag flag skillId fields =>
      silently (setTeamSkillFlag h c.caller c.directory flag call.teamId skillId fields
        c.timestamp)

def step (h : Hub) (call : Call) : Hub × Except Failure Reply :=
  atomically h (call.body h)

end AgentsServer.TeamHub
