import AgentsServer.TeamHub.Messages

/-!
# Pinning and archiving skills

The two flags of a skill, and what readers of the library see of it.
-/

namespace AgentsServer.TeamHub

open Library

variable [Sha256]

inductive SkillFlag where
  | pinned
  | archived
  deriving DecidableEq

def SkillFlag.text : SkillFlag → String
  | .pinned => "pinned"
  | .archived => "archived"

/-- `_team_can_write`. -/
def Caller.canWrite (caller : Caller) (role : Role) : Bool :=
  if caller.claims.authKind.isAutomation then caller.claims.scopes.contains "teamspace.write"
  else decide (role = .owner ∨ role = .admin ∨ role = .member)

namespace Hub

/-- The version of a skill that its row points at, with the message that published it. -/
def currentSkillPost? (h : Hub) (s : SkillRow) : Option (SkillVersionRow × MessageRow) := do
  let v ← h.skillVersions.find? fun v =>
    v.teamId = s.teamId ∧ v.skillId = s.id ∧ v.version = s.currentVersion
  let m ← h.message? v.teamId v.messageId
  return (v, m)

end Hub

/-- `_team_skill_public` without the body. -/
def skillPublic (directory : Directory) (h : Hub) (s : SkillRow) (v : SkillVersionRow)
    (m : MessageRow) (canWrite : Bool) : Json :=
  .obj [("id", .str s.id), ("slug", .str s.slug), ("title", .str s.title),
    ("summary", .str s.summary), ("tags", .arr (s.tags.map .str)),
    ("version", number s.currentVersion), ("versions_count", number (h.versionsOf s.id).length),
    ("pinned", .bool s.pinnedAt.isSome), ("pinned_at", time s.pinnedAt),
    ("archived", .bool s.archivedAt.isSome), ("archived_at", time s.archivedAt),
    ("author", senderParty directory m.senderPrincipalId m.senderNodeId),
    ("body_bytes", number m.body.bytes),
    ("current", .obj [("version", number s.currentVersion), ("message_id", .str v.messageId),
      ("change_note", .str v.changeNote), ("created_at", time (some v.createdAt))]),
    ("created_at", time (some s.createdAt)), ("updated_at", time (some s.updatedAt)),
    ("permissions", .obj [("edit", .bool (canWrite && s.archivedAt.isNone)),
      ("manage", .bool canWrite)])]

/-- A pin that is set again keeps its time. Archiving removes the pin. -/
def SkillRow.setFlag (flag : SkillFlag) (value : Bool) (timestamp : Nat) (s : SkillRow) :
    SkillRow :=
  let stamp := if value then some timestamp else none
  match flag with
  | .pinned => if value = s.pinnedAt.isSome then s else { s with pinnedAt := stamp }
  | .archived =>
      if value = s.archivedAt.isSome then s
      else { s with
        archivedAt := stamp
        pinnedAt := if value then none else s.pinnedAt
        updatedAt := timestamp }

/-- `UPDATE team_skills … WHERE team_id=? AND id=?`. -/
def Hub.replaceSkill (h : Hub) (skill : SkillRow) : Hub :=
  { h with skills := h.skills.map fun s =>
      if s.teamId = skill.teamId ∧ s.id = skill.id then skill else s }

def skillFlagValue (flag : SkillFlag) (fields : List (String × Json)) : Except Failure Bool :=
  required (get fields flag.text).bool? (invalidRequest (flag.text ++ " must be a boolean"))

def skillFlagFingerprint (teamId skillId : String) (flag : SkillFlag) (value : Bool) : Bytes :=
  canonicalFingerprint
    (.obj [("team_id", .str teamId), ("skill_id", .str skillId), (flag.text, .bool value)])

/-- `_set_team_skill_flag`. -/
def setTeamSkillFlag (h : Hub) (caller : Caller) (directory : Directory) (flag : SkillFlag)
    (teamId skillId : String) (fields : List (String × Json)) (timestamp : Nat) :
    Except Failure (Json × Hub) := do
  let value ← skillFlagValue flag fields
  let key ← teamIdempotencyKey fields
  let fingerprint := skillFlagFingerprint teamId skillId flag value
  let k : RequestKey :=
    ⟨teamId, caller.claims.principalId, "team.skill." ++ flag.text, key⟩
  let role ← caller.networkScope true
  match ← h.idempotencyLookup k fingerprint with
  | some cached => return (cached, h)
  | none => do
      let skill ← required (h.skills.find? fun s => s.teamId = teamId ∧ s.id = skillId)
        resourceNotFound
      require (flag = .archived ∨ value = false ∨ skill.archivedAt = none)
        (.hubError "skill_archived" "Restore the skill before pinning it" 409)
      let updated := skill.setFlag flag value timestamp
      -- the checks `archived_at >= created_at` and `updated_at >= created_at`
      require (updated.createdAt ≤ updated.updatedAt) .integrityError
      let h := h.replaceSkill updated
      let (v, m) ← required (h.currentSkillPost? updated) .assertionError
      let response : Json := .obj [("skill",
        skillPublic directory h updated v m (caller.canWrite role))]
      let h ← h.idempotencyStore k fingerprint response
      caller.recorded
      return (response, h)

end AgentsServer.TeamHub
