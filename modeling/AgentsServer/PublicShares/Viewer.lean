import AgentsServer.PublicShares.Lossless
import AgentsServer.PublicShares.Rendering

/-!
# Pages of a shared conversation

`render_public_chat_html` checks the snapshot again, builds the page and refuses
it where it has too many bytes. The text of the style sheet is not inspected by
anything and stays a parameter; so does the rounding of a time to microseconds.
-/

namespace AgentsServer.PublicShares

open Library Html

def maxRenderBytes : Nat := 16 * 1024 * 1024

/-- The microseconds that `datetime.fromtimestamp` makes of a number of seconds. -/
class Datetime where
  microseconds : NumLit → Nat
  microseconds_int : ∀ literal (n : Nat), literal.value? = some (n : Rat) →
    microseconds literal = n * 1000000

/-! ## Texts -/

/-- A comma behind every third digit, counted from the last; the digits stand in reverse. -/
def commas : List Char → List Char
  | a :: b :: c :: d :: rest => a :: b :: c :: ',' :: commas (d :: rest)
  | digits => digits

/-- `f"{n:,}"` -/
def grouped (n : Nat) : List Char :=
  (commas (Nat.toDigits 10 n).reverse).reverse

def monthNames : List String :=
  ["Jan", "Feb", "Mar", "Apr", "May", "Jun", "Jul", "Aug", "Sep", "Oct", "Nov", "Dec"]

/-- `%b %d` -/
def monthDay (seconds : Nat) : String :=
  let (_, month, day) := civilDate (seconds / 86400)
  (monthNames[month - 1]?).getD "" ++ " " ++ padded 2 day

/-- `%H:%M UTC` -/
def clock (seconds : Nat) : String :=
  padded 2 (seconds / 3600 % 24) ++ ":" ++ padded 2 (seconds / 60 % 60) ++ " UTC"

/-- `datetime.isoformat()` in UTC -/
def isoformat (microseconds : Nat) : String :=
  let seconds := microseconds / 1000000
  let fraction := microseconds % 1000000
  let (year, month, day) := civilDate (seconds / 86400)
  padded 4 year ++ "-" ++ padded 2 month ++ "-" ++ padded 2 day ++ "T" ++
    padded 2 (seconds / 3600 % 24) ++ ":" ++ padded 2 (seconds / 60 % 60) ++ ":" ++
    padded 2 (seconds % 60) ++ (if fraction = 0 then "" else "." ++ padded 6 fraction) ++ "+00:00"

/-- `/(?:shared-chat/share_[a-f0-9]{32}|share/[A-Za-z0-9_-]{43})` -/
def isNavigationBase (base : String) : Bool :=
  (dropPrefix? "/shared-chat/" base.toList).any (fun rest => isShareId (String.ofList rest)) ||
    (dropPrefix? "/share/" base.toList).any fun rest => isToken (String.ofList rest)

/-! ## Parts -/

/-- The filename of a checked video. -/
def videoName (video : Json) : String :=
  ((video.obj?.bind fun fields => Json.lookup fields "filename").bind Json.str?).getD ""

def videoHtml (base : Option String) (page index videoIndex : Nat) (video : Json) : List Char :=
  let filename := escape (videoName video).toList
  match base with
  | none => "<p class=\"video-caption\">Video: ".toList ++ filename ++ "</p>".toList
  | some base =>
      let source := base ++ "/media/" ++ toString page ++ "/" ++ toString index ++ "/" ++
        toString videoIndex
      ("<figure class=\"shared-video\"><video controls preload=\"metadata\" playsinline " ++
          "aria-label=\"").toList ++ filename ++
        ("\" src=\"" ++ source ++ "\">Your browser cannot play this video.</video>" ++
          "<figcaption>").toList ++ filename ++ "</figcaption></figure>".toList

def isUser (m : Message) : Bool :=
  m.role == "user"

def roleLabel (m : Message) : String :=
  if isUser m then "User" else "Assistant"

def stampHtml [Datetime] : Option NumLit → List Char
  | none => []
  | some literal =>
      let microseconds := Datetime.microseconds literal
      let seconds := microseconds / 1000000
      ("<time datetime=\"" ++ isoformat microseconds ++ "\">" ++ monthDay seconds ++ " · " ++
        clock seconds ++ "</time>").toList

/-- The text of a message: that of a user as it is, that of an assistant formatted. -/
def contentHtml (m : Message) : List Char :=
  if isUser m then escape m.text.toList else renderMessageMarkdown m.text.toList

def messageHtml [Datetime] (base : Option String) (page index : Nat) (m : Message) : List Char :=
  let anchor := "message-" ++ toString index
  ("<section class=\"message " ++ m.role ++ "\" aria-labelledby=\"" ++ anchor ++
      "\"><div class=\"message-header\">").toList ++
    ("<span class=\"avatar\" aria-hidden=\"true\">" ++ String.singleton (roleLabel m).front ++
      "</span><h2 class=\"message-label\" id=\"" ++ anchor ++ "\">" ++ roleLabel m ++
      "</h2>").toList ++
    stampHtml m.timestamp ++ "</div>".toList ++
    ("<div class=\"message-body " ++ (if isUser m then "plain-text" else "markdown") ++
      "\">").toList ++ contentHtml m ++
    (m.videos.zipIdx.flatMap fun entry => videoHtml base page index entry.2 entry.1) ++
    "</div>".toList ++ "</section>".toList

def navigationHtml (base : Option String) (page pageCount : Nat) : List Char :=
  match base with
  | none => []
  | some base =>
      if 1 < pageCount then
        let older := if page = 0 then ""
          else "<a href=\"" ++ base ++ "?page=" ++ toString (page - 1) ++
            "#conversation-end\" rel=\"prev\">← Older messages</a>"
        let newer := if page + 1 < pageCount then "<a href=\"" ++ base ++ "?page=" ++
            toString (page + 1) ++ "#conversation-end\" rel=\"next\">Newer messages →</a>"
          else ""
        ("<nav class=\"pagination\" aria-label=\"Conversation pages\">" ++ older ++
            "<span>Page ").toList ++ grouped (page + 1) ++ " of ".toList ++ grouped pageCount ++
          ("</span>" ++ newer ++ "</nav>").toList
      else []

variable [Datetime] (style : String)

def headHtml (s : Snapshot) (count : Nat) (navigation : List Char) : List Char :=
  let title := escape s.title.toList
  let microseconds := Datetime.microseconds s.createdAt
  let seconds := microseconds / 1000000
  let (year, _, _) := civilDate (seconds / 86400)
  let created := monthDay seconds ++ ", " ++ padded 4 year ++ " · " ++ clock seconds
  ("<!doctype html><html lang=\"en\"><head><meta charset=\"utf-8\">" ++
      "<meta name=\"viewport\" content=\"width=device-width,initial-scale=1\">" ++
      "<meta name=\"robots\" content=\"noindex,nofollow,noarchive\">" ++ "<title>").toList ++
    title ++
    (" · AgentsDock</title><style>" ++ style ++ "</style></head><body>" ++
      "<div class=\"masthead\"><div class=\"masthead-inner\"><div class=\"brand\">" ++
      "<span class=\"brand-mark\" aria-hidden=\"true\">A</span>AgentsDock</div>" ++
      "<span class=\"masthead-label\">Shared conversations</span></div></div><main>" ++
      "<header class=\"conversation-header\"><div class=\"eyebrow\">Conversation" ++
      "<span class=\"view-badge\">View only</span></div>" ++ "<h1>").toList ++
    title ++
    ("</h1><p class=\"description\">A saved conversation, shared for reading.</p>" ++
      "<div class=\"metadata\"><span>Shared <time datetime=\"" ++ isoformat microseconds ++ "\">" ++
      created ++ "</time></span>" ++
      "<span class=\"metadata-separator\" aria-hidden=\"true\">·</span><span>").toList ++
    grouped count ++
    (" " ++ (if count = 1 then "message" else "messages") ++ "</span>" ++ "</div>").toList ++
    navigation ++
    ("</header><div class=\"transcript\" " ++
      "aria-label=\"Read-only conversation snapshot\">").toList

def footHtml (navigation : List Char) : List Char :=
  "</div>".toList ++ navigation ++
    ("<footer class=\"conversation-footer\"><p>This is a saved copy. Replies and updates stay in " ++
      "the original chat.</p><p class=\"footer-brand\">Shared with AgentsDock</p></footer>" ++
      "<div id=\"conversation-end\"></div></main></body></html>").toList

/-- The page of a snapshot. -/
def pageHtml (s : Snapshot) (page pageCount count : Nat) (base : Option String) : List Char :=
  let navigation := navigationHtml base page pageCount
  headHtml style s count navigation ++
    (s.messages.zipIdx.flatMap fun entry => messageHtml base page entry.2 entry.1) ++
    footHtml navigation

/-! ## The renderer -/

def renderTooLarge : Failure := .validation "Rendered snapshot is too large."

/-- `render_public_chat_html` -/
def renderPublicChatHtml (given : Json) (page pageCount : Int) (messageCount : Option Int)
    (navigationBase : Option String) : Except Failure Bytes := do
  let invalid : Failure := .validation "Invalid public snapshot fields."
  let fields ← required given.obj? invalid
  require (Json.hasKeys ["title", "created_at", "messages"] fields = true) invalid
  let field (key : String) : Json := (Json.lookup fields key).getD .null
  let (checked, _) ← snapshot (field "messages") (field "title") (field "created_at")
  require (0 ≤ page ∧ page < pageCount ∧
      messageCount.all (fun count => decide ((checked.messages.length : Int) ≤ count)) = true)
    (.validation "Invalid snapshot page.")
  require (navigationBase.all isNavigationBase = true) (.validation "Invalid snapshot navigation.")
  let count := (messageCount.map Int.toNat).getD checked.messages.length
  let rendered :=
    utf8 (pageHtml style checked page.toNat pageCount.toNat count navigationBase)
  require (rendered.length ≤ maxRenderBytes) renderTooLarge
  pure rendered

end AgentsServer.PublicShares
