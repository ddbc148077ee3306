import AgentsServer.Library.Tables
import AgentsServer.PublicShares.Snapshot

/-!
# The store of public shares

Shares with their first page, their later pages, and revocations. Every write is one
transaction; a streamed share is captured page by page while its messages are loaded.
-/

namespace AgentsServer.PublicShares

open Library

/-- `TOKEN_PATTERN`. -/
def isToken (text : String) : Bool := text.length == 43 && text.toList.all isUrlSafe

/-- `SHARE_ID_PATTERN`. -/
def isShareId (text : String) : Bool := isPrefixedHex "share_" 32 text

/-- What `secrets.token_urlsafe(32)` returns. -/
structure Token where
  text : String
  valid : isToken text = true

/-- `share_` and what `secrets.token_hex(16)` returns. -/
structure ShareId where
  text : String
  valid : isShareId text = true

structure ShareRow where
  shareId : String
  sessionId : String
  tokenHash : Bytes
  title : String
  createdAt : NumLit
  expiresAt : Option NumLit
  messageCount : Nat
  snapshotJson : Bytes
  snapshotSha256 : Bytes

structure PageRow where
  shareId : String
  pageIndex : Nat
  snapshotJson : Bytes
  snapshotSha256 : Bytes

structure RevocationRow where
  shareId : String
  revokedAt : NumLit

structure Store where
  shares : List ShareRow
  pages : List PageRow
  revocations : List RevocationRow

def Store.empty : Store := ⟨[], [], []⟩

/-- Less than, where both literals denote numbers. -/
def NumLit.before (a b : NumLit) : Bool :=
  match a.value?, b.value? with
  | some x, some y => decide (x < y)
  | _, _ => false

def tokenHash [Sha256] (token : String) : Bytes := Sha256.digest (utf8 token.toList)

/-- `_session_id`. -/
def checkSessionId (sessionId : String) : Except Failure Unit := do
  require (sessionId ≠ "" ∧ Char.ofNat 0 ∉ sessionId.toList)
    (.validation "session_id must be a nonempty string.")
  let _ ← utf8Size sessionId "session_id" 1024

/-- The check of `expires_at` against the time of creation. -/
def checkExpiry (expiresAt : Option Json) (createdAt : NumLit) :
    Except Failure (Option NumLit) :=
  match expiresAt with
  | none => pure none
  | some value => do
      let expiry ← timestamp value "expires_at"
      require (NumLit.before createdAt expiry = true)
        (.validation "expires_at must be in the future.")
      pure (some expiry)

/-- What a creation returns. -/
structure Created where
  shareId : String
  sessionId : String
  title : String
  createdAt : NumLit
  expiresAt : Option NumLit
  messageCount : Nat
  token : String

namespace Store

variable (store : Store)

/-- `INSERT INTO public_chat_shares`. -/
def insertShare (row : ShareRow) : Except Failure Store := do
  let allowed (row : ShareRow) : Bool := store.shares.all (·.tokenHash != row.tokenHash) &&
    decide (1 ≤ row.messageCount) && decide (row.snapshotJson.length ≤ 2097152)
  let shares ← required (Tables.insertRow ShareRow.shareId allowed row store.shares)
    .integrityError
  pure { store with shares := shares }

/-- `INSERT INTO public_chat_share_pages`. -/
def insertPage (row : PageRow) : Except Failure Store := do
  let allowed (row : PageRow) : Bool :=
    decide (1 ≤ row.pageIndex) && decide (row.snapshotJson.length ≤ 2097152)
  let pages ← required (Tables.insertRow (fun r : PageRow => (r.shareId, r.pageIndex)) allowed row
    store.pages) .integrityError
  pure { store with pages := pages }

/-! ## Creation -/

/-- `create_share`. -/
def createShare [Sha256] [FloatText] (sessionId : String) (messages : Value) (title : Json)
    (expiresAt : Option Json) (token : Token) (shareId : ShareId) (now : Value) :
    Store × Except Failure Created :=
  atomically store do
    checkSessionId sessionId
    let createdAt ← timestamp now.json "current time"
    let expiry ← checkExpiry expiresAt createdAt
    let (captured, encoded) ← snapshot messages.json title (.num createdAt)
    let store ← store.insertShare {
      shareId := shareId.text
      sessionId := sessionId
      tokenHash := tokenHash token.text
      title := captured.title
      createdAt := createdAt
      expiresAt := expiry
      messageCount := captured.messages.length
      snapshotJson := encoded
      snapshotSha256 := Sha256.digest encoded }
    pure (⟨shareId.text, sessionId, captured.title, createdAt, expiry, captured.messages.length,
      token.text⟩, store)

/-- `revoke_share`. -/
def revokeShare (shareId sessionId : String) (now : Json) : Store × Except Failure Bool :=
  atomically store do
    checkSessionId sessionId
    if isShareId shareId = true then do
      let revokedAt ← timestamp now "current time"
      if store.shares.any fun s => s.shareId == shareId && s.sessionId == sessionId then
        if store.revocations.any fun r => r.shareId == shareId then pure (true, store)
        else pure (true, { store with revocations := store.revocations ++ [⟨shareId, revokedAt⟩] })
      else pure (false, store)
    else pure (false, store)

end Store

/-! ## Capturing pages -/

/-- The variables of `create_streamed_share` while messages are loaded. -/
structure Sink where
  store : Store
  firstPage : Option Bytes
  page : List Message
  pageBytes : Nat
  pageIndex : Nat
  total : Nat

def Sink.start (store : Store) : Sink := ⟨store, none, [], 0, 0, 0⟩

/-- What every page of one share has in common. -/
structure Capture where
  shareId : String
  title : String
  createdAt : NumLit

namespace Capture

/-- The metadata is checked before anything is loaded. -/
def begin (shareId : String) (title : Json) (createdAt : NumLit) : Except Failure Capture := do
  let (seed, _) ← snapshot (.arr [.obj [("role", .str "user"), ("text", .str "")]]) title
    (.num createdAt)
  pure ⟨shareId, seed.title, createdAt⟩

variable (c : Capture)

/-- `flush`. -/
def flush [Sha256] (sink : Sink) : Except Failure Sink :=
  if sink.page.isEmpty then pure sink
  else do
    let (_, encoded) ←
      snapshot (.arr (sink.page.map Message.json)) (.str c.title) (.num c.createdAt)
    let sink ← if sink.pageIndex = 0 then pure { sink with firstPage := some encoded }
      else do
        let store ← sink.store.insertPage
          ⟨c.shareId, sink.pageIndex, encoded, Sha256.digest encoded⟩
        pure { sink with store := store }
    pure { sink with pageIndex := sink.pageIndex + 1, page := [], pageBytes := 0 }

/-- A message alone, as `emit` checks it. -/
def normalize (message : Json) : Except Failure Message := do
  let (checked, _) ← snapshot (.arr [message]) (.str c.title) (.num c.createdAt)
  required checked.messages.head? (.other "IndexError")

/-- A message that does not fit into the current page. -/
def overflows (sink : Sink) (item : Message) : Bool :=
  !sink.page.isEmpty && (decide (maxSnapshotPageMessages ≤ sink.page.length) ||
    decide (maxSnapshotBytes <
      overhead c.title c.createdAt + sink.pageBytes + item.size + sink.page.length))

/-- `emit`. It raises before it changes anything. -/
def emit [Sha256] (sink : Sink) (message : Json) : Except Failure Sink := do
  let item ← c.normalize message
  let sink ← if c.overflows sink item then c.flush sink else pure sink
  pure { sink with
    page := sink.page ++ [item]
    pageBytes := sink.pageBytes + item.size
    total := sink.total + 1 }

end Capture

/-- What the caller passes as `load_messages`: it emits messages one after another and sees
what each `emit` raised. -/
inductive Loader [FloatText] where
  | done
  | raise (error : Failure)
  | emit (message : Value) (next : Option Failure → Loader)

namespace Loader

variable [FloatText] [Sha256]

/-- The sink after the loader, or what the loader raises. -/
def run (c : Capture) : Loader → Sink → Except Failure Sink
  | .done, sink => pure sink
  | .raise error, _ => .error error
  | .emit message next, sink =>
      match c.emit sink message.json with
      | .ok sink => (next none).run c sink
      | .error error => (next (some error)).run c sink

/-- The messages that the loader passes to `emit`, with what it raises. -/
def calls (c : Capture) : Loader → Sink → List (Value × Option Failure)
  | .done, _ => []
  | .raise _, _ => []
  | .emit message next, sink =>
      match c.emit sink message.json with
      | .ok sink => (message, none) :: (next none).calls c sink
      | .error error => (message, some error) :: (next (some error)).calls c sink

/-- The loader that emits a list of messages and stops at the first error. -/
def ofList : List Value → Loader
  | [] => .done
  | message :: rest => .emit message fun
      | none => ofList rest
      | some error => .raise error

end Loader

namespace Store

variable [FloatText] [Sha256] (store : Store)

/-- `create_streamed_share`. `prepared` and `committed` are what opening the database and
the commit raise. -/
def createStreamedShare (sessionId : String) (loader : Loader) (title : Json)
    (expiresAt : Option Json) (token : Token) (shareId : ShareId) (now : Value)
    (prepared committed : Except Failure Unit) : Store × Except Failure Created :=
  atomically store do
    checkSessionId sessionId
    let createdAt ← timestamp now.json "current time"
    let expiry ← checkExpiry expiresAt createdAt
    let c ← Capture.begin shareId.text title createdAt
    prepared
    let sink ← loader.run c (Sink.start store)
    let sink ← c.flush sink
    let firstPage ← required sink.firstPage
      (.validation "messages must contain at least one item.")
    let store ← sink.store.insertShare {
      shareId := shareId.text
      sessionId := sessionId
      tokenHash := tokenHash token.text
      title := c.title
      createdAt := createdAt
      expiresAt := expiry
      messageCount := sink.total
      snapshotJson := firstPage
      snapshotSha256 := Sha256.digest firstPage }
    committed
    pure (⟨shareId.text, sessionId, c.title, createdAt, expiry, sink.total, token.text⟩, store)

/-! ## Reading -/

/-- What a reader gets of one page. -/
structure PageView where
  snapshot : Snapshot
  page : Nat
  pageCount : Nat
  messageCount : Nat

/-- The checks of a stored page when it is read. -/
def readPage (encoded digest : Bytes) : Except Failure Snapshot := do
  require (encoded.length ≤ maxSnapshotBytes ∧ Sha256.digest encoded = digest) .unavailable
  let decoded ← required ((Json.loadsBytes encoded).bind Json.obj?) .unavailable
  require (Json.hasKeys ["title", "created_at", "messages"] decoded = true) .unavailable
  let field (key : String) : Json := (Json.lookup decoded key).getD .null
  match snapshot (field "messages") (field "title") (field "created_at") with
  | .ok (captured, _) => pure captured
  | .error _ => .error .unavailable

/-- The share that a token opens. -/
def opened (token : String) (shareId : Option String) (now : NumLit) : Option ShareRow :=
  store.shares.find? fun s => decide (s.tokenHash = tokenHash token) &&
    shareId.all (· == s.shareId) && s.expiresAt.all (fun expiry => NumLit.before now expiry) &&
    !store.revocations.any fun r => r.shareId == s.shareId

def pagesOf (shareId : String) : List PageRow := store.pages.filter fun p => p.shareId == shareId

/-- `get_snapshot_page`. -/
def getSnapshotPage (token : String) (shareId : Option String) (page : Option Int) (now : Json) :
    Except Failure PageView := do
  require (isToken token = true) .unavailable
  require (shareId.all isShareId = true) .unavailable
  require (page.all (fun p => decide (0 ≤ p ∧ p ≤ 2 ^ 31 - 1)) = true) .unavailable
  let now ← timestamp now "current time"
  let row ← required (store.opened token shareId now) .unavailable
  let pageCount := 1 + (store.pagesOf row.shareId).length
  let page := (page.map Int.toNat).getD (pageCount - 1)
  require (page < pageCount) .unavailable
  let (encoded, digest) ← if page = 0 then pure (row.snapshotJson, row.snapshotSha256)
    else do
      let found ← required ((store.pagesOf row.shareId).find? fun p => p.pageIndex == page)
        .unavailable
      pure (found.snapshotJson, found.snapshotSha256)
  let captured ← readPage encoded digest
  pure ⟨captured, page, pageCount, row.messageCount⟩

end Store

end AgentsServer.PublicShares
