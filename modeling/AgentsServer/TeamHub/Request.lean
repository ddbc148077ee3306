import AgentsServer.Library.Json
import AgentsServer.Library.Outcome

/-!
# Team Hub requests

Checks of the fields of a request, the validated request to create a message,
and the fingerprint by which a repeated request is recognized.
-/

namespace AgentsServer.TeamHub

open Library

inductive Failure where
  | hubError (code text : String) (status : Nat)
  | typeError
  | assertionError
  | valueError
  | overflowError
  | integrityError
  | runtimeError
  | databaseFull
  deriving DecidableEq

def invalidRequest (text : String) : Failure :=
  .hubError "invalid_request" text 422

/-- What the interpreter's Unicode tables decide. -/
class UnicodeTables where
  lower : List Char → List Char

def maxTitleChars : Nat := 160

def maxBodyBytes : Nat := 49152

def maxRecipients : Nat := 16

def maxAttachments : Nat := 16

def maxSkillTags : Nat := 8

/-- The largest integer that JavaScript represents exactly. -/
def maxExactInteger : Nat := 9007199254740991

/-! ## Field checks -/

/-- `request.get(key)`. -/
def get (fields : List (String × Json)) (key : String) : Json :=
  (Json.lookup fields key).getD .null

/-- `value in {…}` of a set of texts. Lists and dictionaries are not hashable. -/
def isOneOf (choices : List String) : Json → Except Failure Bool
  | .str text => .ok (choices.contains text)
  | .arr _ | .obj _ => .error .typeError
  | _ => .ok false

/-- The characters of the categories `Cc`, `Zl` and `Zp`. -/
def isLineControl (c : Char) : Bool :=
  c.toNat < 32 || (127 ≤ c.toNat && c.toNat ≤ 159) || c.toNat == 0x2028 || c.toNat == 0x2029

def teamMailSubject : Json → Except Failure (Option String)
  | .null => .ok none
  | .str value => do
      require (value.toList.any isLineControl = false)
        (invalidRequest "Mail subject must be a single line without control characters")
      let subject := strip value.toList
      require (1 ≤ subject.length ∧ subject.length ≤ maxTitleChars)
        (invalidRequest "Mail subject must be between 1 and 160 characters")
      return some (String.ofList subject)
  | _ => .error (invalidRequest "Mail subject must be a single line without control characters")

def teamText (value : Json) (field : String) (minimum maximum : Nat) (allowNone : Bool) :
    Except Failure (Option String) :=
  match value with
  | .null =>
      if allowNone then .ok none
      else if minimum = 0 then .ok (some "")
      else .error (invalidRequest (field ++ " is required"))
  | .str text => do
      let normalized := normalizeSpace text.toList
      require (minimum ≤ normalized.length ∧ normalized.length ≤ maximum)
        (invalidRequest (field ++ " must be between " ++ toString minimum ++ " and " ++
          toString maximum ++ " characters"))
      return some (String.ofList normalized)
  | _ => .error (invalidRequest (field ++ " is invalid"))

inductive BodyFormat where
  | plain
  | markdown
  deriving DecidableEq

def BodyFormat.text : BodyFormat → String
  | .plain => "plain"
  | .markdown => "markdown"

structure Body where
  text : String
  format : BodyFormat
  deriving DecidableEq

/-- `len(body.encode("utf-8"))`. -/
def Body.bytes (body : Body) : Nat :=
  Json.utf8Size body.text.toList

def Body.sha256 [Sha256] (body : Body) : Bytes :=
  Sha256.digest (utf8 body.text.toList)

def teamBody (fields : List (String × Json)) : Except Failure Body :=
  match get fields "body" with
  | .str text => do
      require (1 ≤ Json.utf8Size text.toList ∧ Json.utf8Size text.toList ≤ maxBodyBytes)
        (invalidRequest "Message body is invalid")
      -- the default stands for a missing key only
      let format := (Json.lookup fields "body_format").getD (.str "markdown")
      let known ← isOneOf ["plain", "markdown"] format
      require (known = true) (invalidRequest "Message body format is invalid")
      return ⟨text, if format.str? = some "plain" then .plain else .markdown⟩
  | _ => .error (invalidRequest "Message body is invalid")

def isSlugChar (c : Char) : Bool :=
  c.isDigit || ('a' ≤ c && c ≤ 'z')

/-- `TEAM_SKILL_SLUG_RE` and `TEAM_SKILL_TAG_RE`, which differ in the length. -/
def isSlug (maximum : Nat) : List Char → Bool
  | [] => false
  | c :: rest =>
      isSlugChar c && rest.all (fun c => isSlugChar c || c == '-') && decide (rest.length < maximum)

section Texts

variable [UnicodeTables]

def teamSlug [Conversions] (value : Json) : Except Failure String := do
  let text := if value.truthy then value.toText else ""
  let slug := UnicodeTables.lower (strip text.toList)
  require (isSlug 64 slug = true) (invalidRequest "Skill slug is invalid")
  return String.ofList slug

def addTag (tags : List String) (item : Json) : Except Failure (List String) := do
  let tag := UnicodeTables.lower (strip (item.str?.getD "").toList)
  require (isSlug 32 tag = true) (invalidRequest "Skill tags are invalid")
  return if String.ofList tag ∈ tags then tags else tags ++ [String.ofList tag]

def teamTags : Json → Except Failure (List String)
  | .null => .ok []
  | .arr items => do
      require (items.length ≤ maxSkillTags) (invalidRequest "Skill tags are invalid")
      items.foldlM addTag []
  | _ => .error (invalidRequest "Skill tags are invalid")

end Texts

/-! ## Provenance -/

def provenanceKeys : List String := ["via", "backend", "chat_id", "run_id"]

def utf16Length (cs : List Char) : Nat :=
  (cs.map fun c => if c.toNat < 65536 then 1 else 2).sum

def provenanceFieldValid (key : String) : Json → Bool
  | .null => true
  | .str value =>
      if key = "via" then value == "agent" || value == "desktop"
      else
        decide (1 ≤ utf16Length value.toList) &&
          decide (utf16Length value.toList ≤ if key = "backend" then 80 else 240) &&
          decide (strip value.toList = value.toList) &&
          value.toList.all fun c => !(decide (c.toNat < 32) || c.toNat == 127)
  | _ => false

/-- The stored dictionary. A missing one is stored as an empty one. -/
def teamProvenance : Json → Except Failure (List (String × Json))
  | .null => .ok []
  | .obj fields => do
      require (fields.all (fun field =>
          provenanceKeys.contains field.1 && provenanceFieldValid field.1 field.2) = true)
        (invalidRequest "Provenance is invalid")
      require (Json.utf8Size (Json.canonical (.obj fields)) ≤ 2048)
        (invalidRequest "Provenance is invalid")
      return fields
  | _ => .error (invalidRequest "Provenance is invalid")

def provenanceText (provenance : List (String × Json)) : String :=
  String.ofList (Json.canonical (.obj provenance))

/-! ## Keys and versions -/

def teamIdempotencyKey (fields : List (String × Json)) : Except Failure String :=
  match get fields "idempotency_key" with
  | .str key => do
      require (8 ≤ key.length ∧ key.length ≤ 240)
        (invalidRequest "idempotency_key must be 8-240 characters")
      return key
  | _ => .error (invalidRequest "idempotency_key must be 8-240 characters")

theorem teamIdempotencyKey_length {fields : List (String × Json)} {key : String}
    (hk : teamIdempotencyKey fields = .ok key) : 8 ≤ key.length ∧ key.length ≤ 240 := by
  unfold teamIdempotencyKey at hk
  split at hk
  · simp only [bind_eq_ok, require_eq_ok, pure_eq_ok] at hk
    obtain ⟨_, hlength, rfl⟩ := hk
    exact hlength
  · cases hk

/-- An integer of at least one that is not a Boolean. -/
def positive? (value : Json) : Option Nat :=
  match value.int? with
  | some n => if 1 ≤ n then some n.toNat else none
  | none => none

def expectedVersion (value : Json) : Except Failure Nat :=
  required (positive? value) (invalidRequest "expected_version is invalid")

/-! ## Recipients -/

inductive Requested where
  | server (id : String)
  | human (id : String)
  | all
  | allServers
  deriving DecidableEq

def Requested.json : Requested → Json
  | .server id => .arr [.str "server", .str id]
  | .human id => .arr [.str "human", .str id]
  | .all => .arr [.str "all", .null]
  | .allServers => .arr [.str "all_servers", .null]

def recipientsInvalid : Failure :=
  invalidRequest "Message recipients are invalid"

/-- The recipient that an entry names. -/
def requestedRecipient (kind : String) (id : Json) : Except Failure Requested :=
  if kind = "all" ∨ kind = "all_servers" then do
    require (id.str? = some kind ∨ id matches .null) recipientsInvalid
    return if kind = "all" then .all else .allServers
  else
    match id with
    | .str text => do
        require (1 ≤ text.length ∧ text.length ≤ 240) recipientsInvalid
        return if kind = "server" then .server text else .human text
    | _ => .error recipientsInvalid

def routeLifecycle (kind : String) : Json → Except Failure (Option String)
  | .null => .ok none
  | .str lifecycle => do
      require (kind = "server" ∧ isHexOf 64 lifecycle.toList = true)
        (invalidRequest "Mail route identity is invalid")
      return some lifecycle
  | _ => .error (invalidRequest "Mail route identity is invalid")

/-- The recipients requested so far, and the route identity each server was named with. -/
structure Addressed where
  requested : List Requested
  lifecycles : List (String × Option String)

def Addressed.add (acc : Addressed) : Json → Except Failure Addressed
  | .obj fields => do
      let known ← isOneOf ["server", "human", "all", "all_servers"] (get fields "kind")
      require (known = true) recipientsInvalid
      let kind := (get fields "kind").str?.getD ""
      let recipient ← requestedRecipient kind (get fields "id")
      let lifecycle ← routeLifecycle kind (get fields "mail_route_lifecycle_id")
      let requested :=
        if recipient ∈ acc.requested then acc.requested else acc.requested ++ [recipient]
      match recipient with
      | .server id =>
          match acc.lifecycles.lookup id with
          | some named => do
              require (named = lifecycle) (invalidRequest "Conflicting mail route identities")
              return { acc with requested }
          | none => return { requested, lifecycles := acc.lifecycles ++ [(id, lifecycle)] }
      | _ => return { acc with requested }
  | _ => .error recipientsInvalid

def teamRecipients (fields : List (String × Json)) : Except Failure Addressed :=
  match get fields "recipients" with
  | .arr entries => do
      require (1 ≤ entries.length ∧ entries.length ≤ maxRecipients) recipientsInvalid
      entries.foldlM Addressed.add ⟨[], []⟩
  | _ => .error recipientsInvalid

/-! ## Creating a message -/

structure SkillDetails where
  slug : String
  summary : String
  tags : List String
  changeNote : String
  expectedVersion : Option Nat

/-- Ordinary mail has a subject or none; a skill post has a title and its details. -/
inductive Content where
  | message (subject : Option String)
  | skill (title : String) (details : SkillDetails)

def Content.title : Content → Option String
  | .message subject => subject
  | .skill title _ => some title

def Content.kindText : Content → String
  | .message _ => "message"
  | .skill .. => "skill"

structure CreateRequest where
  content : Content
  body : Body
  provenance : List (String × Json)
  idempotencyKey : String
  replyTo : Option String
  addressed : Addressed
  attachmentIds : List String

def replyTarget : Json → Except Failure (Option String)
  | .null => .ok none
  | .str id => do
      require (8 ≤ id.length ∧ id.length ≤ 240)
        (invalidRequest "in_reply_to_message_id is invalid")
      return some id
  | _ => .error (invalidRequest "in_reply_to_message_id is invalid")

/-- A text of 8 to 240 characters. -/
def attachmentId? (value : Json) : Option String :=
  match value with
  | .str id => if 8 ≤ id.length ∧ id.length ≤ 240 then some id else none
  | _ => none

def teamAttachmentIds (value : Json) : Except Failure (List String) :=
  if value.truthy then
    match value with
    | .arr items => do
        require (items.length ≤ maxAttachments) (invalidRequest "Message attachments are invalid")
        let ids ← required (items.mapM attachmentId?)
          (invalidRequest "Message attachments are invalid")
        require ids.Nodup (invalidRequest "Message attachments are invalid")
        return ids
    | _ => .error (invalidRequest "Message attachments are invalid")
  else .ok []

section Create

variable [UnicodeTables] [Conversions] [Sha256]

def skillContent (title : Option String) (requested : List Requested) (details : Json) :
    Except Failure Content := do
  let title ← required title (invalidRequest "A skill post requires a title")
  match details with
  | .obj fields => do
      require (requested = [.all])
        (invalidRequest "A skill post must be addressed to the whole team")
      let slug ← teamSlug (get fields "slug")
      let summary ← teamText (get fields "summary") "summary" 0 280 false
      let tags ← teamTags (get fields "tags")
      let changeNote ← teamText (get fields "change_note") "change note" 0 280 false
      let expectedVersion ← match get fields "expected_version" with
        | .null => pure none
        | value => some <$> expectedVersion value
      return .skill title
        { slug, summary := summary.getD "", tags, changeNote := changeNote.getD ""
          expectedVersion }
  | _ => .error (invalidRequest "A skill post requires skill details")

def createRequest (fields : List (String × Json)) : Except Failure CreateRequest := do
  let known ← isOneOf ["message", "skill"] (get fields "kind")
  require (known = true) (invalidRequest "Message kind is invalid")
  let isMessage := decide ((get fields "kind").str? = some "message")
  let title ←
    if isMessage then teamMailSubject (get fields "title")
    else teamText (get fields "title") "title" 1 maxTitleChars true
  let body ← teamBody fields
  let provenance ← teamProvenance (get fields "provenance")
  let idempotencyKey ← teamIdempotencyKey fields
  let replyTo ← replyTarget (get fields "in_reply_to_message_id")
  let addressed ← teamRecipients fields
  require (.allServers ∉ addressed.requested ∨
      (isMessage = true ∧ addressed.requested = [.allServers]))
    (invalidRequest "All-server mail must be a message with only the all_servers recipient")
  let attachmentIds ← teamAttachmentIds (get fields "attachment_ids")
  let content ←
    if isMessage then do
      require (get fields "skill" matches .null)
        (invalidRequest "Only skill posts carry skill details")
      pure (Content.message title)
    else skillContent title addressed.requested (get fields "skill")
  return { content, body, provenance, idempotencyKey, replyTo, addressed, attachmentIds }

omit [Sha256] in
/-- The key of a request is the checked text of its field. -/
theorem createRequest_key {fields : List (String × Json)} {request : CreateRequest}
    (hr : createRequest fields = .ok request) :
    teamIdempotencyKey fields = .ok request.idempotencyKey := by
  unfold createRequest at hr
  dsimp only at hr
  by_cases hkind : decide ((get fields "kind").str? = some "message") = true
  · simp only [hkind, if_true, bind_eq_ok, require_eq_ok, pure_eq_ok] at hr
    obtain ⟨_, _, _, _, _, _, _, _, _, _, key, hkey, _, _, _, _, _, _, _, _, _, _, _, _, rfl⟩ := hr
    exact hkey
  · simp only [hkind, Bool.false_eq_true, if_false, bind_eq_ok, require_eq_ok, pure_eq_ok] at hr
    obtain ⟨_, _, _, _, _, _, _, _, _, _, key, hkey, _, _, _, _, _, _, _, _, _, _, rfl⟩ := hr
    exact hkey

omit [Sha256] in
/-- A skill post is addressed to the whole team. -/
theorem createRequest_skill {fields : List (String × Json)} {request : CreateRequest}
    (hr : createRequest fields = .ok request) {title : String} {details : SkillDetails}
    (hskill : request.content = .skill title details) :
    request.addressed.requested = [.all] := by
  unfold createRequest at hr
  dsimp only at hr
  by_cases hkind : decide ((get fields "kind").str? = some "message") = true
  · simp only [hkind, if_true, bind_eq_ok, require_eq_ok, pure_eq_ok] at hr
    obtain ⟨_, _, _, _, _, _, _, _, _, _, _, _, _, _, _, _, _, _, _, _, _, _, _, rfl, rfl⟩ := hr
    cases hskill
  · simp only [hkind, Bool.false_eq_true, if_false, bind_eq_ok, require_eq_ok, pure_eq_ok] at hr
    obtain ⟨_, _, _, _, title', _, _, _, _, _, _, _, _, _, addressed, _, _, _, _, _, content,
      hcontent, rfl⟩ := hr
    unfold skillContent at hcontent
    simp only [bind_eq_ok] at hcontent
    obtain ⟨_, _, hcontent⟩ := hcontent
    split at hcontent
    · simp only [bind_eq_ok, require_eq_ok] at hcontent
      obtain ⟨_, hall, _⟩ := hcontent
      exact hall
    · cases hcontent

/-! ## Fingerprints -/

def nullable (value : Option String) : Json :=
  value.elim .null .str

def number (n : Nat) : Json :=
  .num (.ofNat n)

def canonicalFingerprint (value : Json) : Bytes :=
  Sha256.digest (utf8 value.canonical)

def SkillDetails.json (details : SkillDetails) : Json :=
  .obj [("slug", .str details.slug), ("summary", .str details.summary),
    ("tags", .arr (details.tags.map .str)), ("change_note", .str details.changeNote),
    ("expected_version", details.expectedVersion.elim .null number)]

/-- The route identities that were given, sorted by server. -/
def Addressed.routes (acc : Addressed) : List (String × String) :=
  (acc.lifecycles.filterMap fun entry => entry.2.map fun lifecycle => (entry.1, lifecycle)).mergeSort
    fun a b => decide (a.1 ≤ b.1)

/-- What the fingerprint of a message request covers. -/
def CreateRequest.json (request : CreateRequest) (teamId : String) : Json :=
  .obj ([("team_id", .str teamId), ("kind", .str request.content.kindText),
    ("title", nullable request.content.title), ("body", .str request.body.text),
    ("body_format", .str request.body.format.text),
    ("recipients", .arr (request.addressed.requested.map Requested.json)),
    ("attachment_ids", .arr (request.attachmentIds.map .str)),
    ("in_reply_to_message_id", nullable request.replyTo),
    ("skill", match request.content with
      | .message _ => .null
      | .skill _ details => details.json),
    ("provenance", .str (provenanceText request.provenance))] ++
    if request.addressed.routes.isEmpty then []
    else [("mail_route_lifecycles",
      .arr (request.addressed.routes.map fun route => .arr [.str route.1, .str route.2]))])

def CreateRequest.fingerprint (request : CreateRequest) (teamId : String) : Bytes :=
  canonicalFingerprint (request.json teamId)

end Create

end AgentsServer.TeamHub
