import AgentsServer.PeerProxy.Gate
import Mathlib.Data.Bool.AllAny

/-!
# The gate confines what it forwards

A forwarded request stands on the table of routes for the peer's own team, its query and
its headers say nothing else than the route allows, and its body is an object within the
bounds. A refused request is refused with the error of the protocol, unless a digit is no
decimal, a channel has too short a name, or the brackets of the body nest too deeply.
-/

namespace AgentsServer.PeerProxy

open Library
open PeerStore (PeerAuthorization)

section
variable [Interpreter]

/-! ## Headers -/

/-- Forwarded headers: allowed names, each once, with the one-line values the peer sent. -/
structure HeadersConfined (rules : HeaderRules) (received forwarded : Headers) : Prop where
  count : forwarded.length ≤ maxHeaders
  once : (forwarded.map Prod.fst).Nodup
  each : ∀ header ∈ forwarded, header.1 ∈ rules.pass ∧ isOneLine header.2 = true ∧
    (utf8 header.2.toList).length ≤ maxHeaderValueBytes ∧
    ∃ source ∈ received, headerName source.1 = header.1 ∧ rules.value source.2 = header.2

/-- What the loop adds to the headers it has seen. -/
structure Forwards (rules : HeaderRules) (seen : List String) (received forwarded : Headers) :
    Prop where
  count : forwarded.length ≤ received.length
  once : (forwarded.map Prod.fst).Nodup
  fresh : ∀ header ∈ forwarded, header.1 ∉ seen
  each : ∀ header ∈ forwarded, header.1 ∈ rules.pass ∧ isOneLine header.2 = true ∧
    (utf8 header.2.toList).length ≤ maxHeaderValueBytes ∧
    ∃ source ∈ received, headerName source.1 = header.1 ∧ rules.value source.2 = header.2

/-- A header that is dropped. -/
theorem Forwards.skip {rules : HeaderRules} {seen : List String} {received forwarded : Headers}
    (header : String × String)
    (h : Forwards rules (headerName header.1 :: seen) received forwarded) :
    Forwards rules seen (header :: received) forwarded where
  count := Nat.le_succ_of_le h.count
  once := h.once
  fresh := fun other hother hseen => h.fresh other hother (List.mem_cons_of_mem _ hseen)
  each := by
    intro other hother
    obtain ⟨hpass, hline, hsize, source, hsource, hname, hvalue⟩ := h.each other hother
    exact ⟨hpass, hline, hsize, source, List.mem_cons_of_mem _ hsource, hname, hvalue⟩

theorem forwardHeaders_forwards {rules : HeaderRules} {seen : List String}
    {received forwarded : Headers} (h : forwardHeaders rules seen received = .ok forwarded) :
    Forwards rules seen received forwarded := by
  induction received generalizing seen forwarded with
  | nil =>
      cases h
      exact ⟨Nat.le_refl _, List.nodup_nil, by simp, by simp⟩
  | cons header rest ih =>
      obtain ⟨rawName, rawValue⟩ := header
      rw [forwardHeaders, bind_eq_ok] at h
      obtain ⟨_, hchecked, h⟩ := h
      rw [require_eq_ok] at hchecked
      obtain ⟨_, _, hsize, hline, hfresh⟩ := hchecked
      split at h
      · exact (ih h).skip (rawName, rawValue)
      split at h
      · next hpass =>
          simp only [bind_eq_ok, require_eq_ok, pure_eq_ok] at h
          obtain ⟨_, hbreaks, more, hmore, rfl⟩ := h
          have hrest := ih hmore
          have hone : isOneLine (rules.value rawValue) = true := hbreaks.elim hline id
          constructor
          · exact Nat.succ_le_succ hrest.count
          · rw [List.map_cons, List.nodup_cons]
            refine ⟨?_, hrest.once⟩
            intro hmem
            obtain ⟨other, hother, heq⟩ := List.mem_map.mp hmem
            exact hrest.fresh other hother (heq ▸ List.mem_cons_self)
          · intro other hother
            rcases List.mem_cons.mp hother with rfl | hother
            · exact hfresh
            · exact (hrest.skip (rawName, rawValue)).fresh other hother
          · intro other hother
            rcases List.mem_cons.mp hother with rfl | hother
            · exact ⟨List.contains_iff_mem.mp hpass, hone, hsize, (rawName, rawValue),
                List.mem_cons_self, rfl, rfl⟩
            · exact (hrest.skip (rawName, rawValue)).each other hother
      · exact (ih h).skip (rawName, rawValue)

theorem forwardHeaders_raises {rules : HeaderRules} {seen : List String} {received : Headers} :
    OnlyRaises Failure.IsSecurePeerError (forwardHeaders rules seen received) := by
  induction received generalizing seen with
  | nil => exact .ok []
  | cons header rest ih =>
      rw [forwardHeaders]
      refine .bind (.require (isSecurePeerError ..)) fun _ _ => ?_
      split
      · exact ih
      split
      · refine .bind (.require (isSecurePeerError ..)) fun _ _ => ?_
        exact .bind ih fun _ _ => .ok _
      · exact ih

theorem requestHeaders_confined {rules : HeaderRules} {received forwarded : Headers}
    (h : requestHeaders rules received = .ok forwarded) :
    HeadersConfined rules received forwarded := by
  simp only [requestHeaders, bind_eq_ok, require_eq_ok] at h
  obtain ⟨_, hcount, h⟩ := h
  have hforwards := forwardHeaders_forwards h
  exact ⟨hforwards.count.trans hcount, hforwards.once, hforwards.each⟩

theorem requestHeaders_raises {rules : HeaderRules} {received : Headers} :
    OnlyRaises Failure.IsSecurePeerError (requestHeaders rules received) :=
  .bind (.require (isSecurePeerError ..)) fun _ _ => forwardHeaders_raises

/-! ## The route and the resource -/

/-- The channel that a path names. -/
def NamesChannel (path channel : String) : Prop :=
  segments path = ["", "v1", "channels", channel, "messages"]

/-- The Hub has the channel, in the team. -/
def InTeam (channels : List Channel) (teamId channel : String) : Prop :=
  ∃ row ∈ channels, row.id = channel ∧ row.archivedAt = none ∧ row.teamId = teamId

/-- What a granted access needs. -/
theorem proxyAccess_grants {teamId method path : String} {access : Access}
    (h : proxyAccess teamId method path = .ok access) :
    access.requiredScope = scopeOf method ∧
      ∀ channel, NamesChannel path channel → access.channel = some channel := by
  rw [proxyAccess] at h
  split at h
  · next hhealth =>
      obtain ⟨rfl, rfl⟩ := hhealth
      cases h
      refine ⟨rfl, fun channel hnames => ?_⟩
      have hpath : segments "/v1/health" = ["", "v1", "health"] := by decide
      exact absurd (hpath.symm.trans hnames) (by simp)
  split at h
  · next hsession =>
      obtain ⟨hpath, rfl⟩ := hsession
      cases h
      refine ⟨rfl, fun channel hnames => ?_⟩
      have hshort : (segments path).length ≤ 3 := by
        simp only [List.mem_cons, List.not_mem_nil, or_false] at hpath
        rcases hpath with rfl | rfl | rfl <;> decide
      rw [hnames] at hshort
      exact absurd hshort (by simp)
  split at h
  · next team hroute =>
      obtain ⟨_, _, _, hpath⟩ := teamMemberRoute_eq hroute
      simp only [bind_eq_ok, require_eq_ok, exists_and_left, pure_eq_ok] at h
      obtain ⟨_, rfl, _, _, rfl⟩ := h
      exact ⟨rfl, fun channel hnames => absurd (hpath.symm.trans hnames) (by simp)⟩
  split at h
  · next team child hroute =>
      obtain ⟨_, hpath⟩ := teamRoute_eq hroute
      simp only [bind_eq_ok, require_eq_ok, exists_and_left, pure_eq_ok] at h
      obtain ⟨_, ⟨rfl, _⟩, _, _, rfl⟩ := h
      refine ⟨rfl, fun channel hnames => ?_⟩
      exact absurd (hpath.symm.trans hnames) (by simp)
  split at h
  · next channel hroute =>
      obtain ⟨_, hpath⟩ := channelMessages_eq hroute
      cases h
      refine ⟨rfl, fun other hnames => ?_⟩
      cases hpath.symm.trans hnames
      rfl
  split at h
  · next team pieces hroute =>
      obtain ⟨_, _, hpath⟩ := networkRoute_eq hroute
      simp only [bind_eq_ok, require_eq_ok, required_eq_ok, exists_and_left, pure_eq_ok] at h
      obtain ⟨_, _, query, _, rfl⟩ := h
      refine ⟨rfl, fun channel hnames => ?_⟩
      exact absurd (hpath.symm.trans hnames) (by simp)
  · cases h

theorem proxyAccess_raises {teamId method path : String} :
    OnlyRaises Failure.IsSecurePeerError (proxyAccess teamId method path) := by
  rw [proxyAccess]
  have outside (message : String) : (routeForbidden message).IsSecurePeerError :=
    isSecurePeerError ..
  split
  · exact .ok _
  split
  · exact .ok _
  split
  · exact .bind (.require (outside _)) fun _ _ => .bind (.require (outside _)) fun _ _ => .ok _
  split
  · exact .bind (.require (outside _)) fun _ _ => .bind (.require (outside _)) fun _ _ => .ok _
  split
  · exact .ok _
  split
  · exact .bind (.require (outside _)) fun _ _ => .bind (.required (outside _)) fun _ _ => .ok _
  · exact .error (outside _)

/-- The channel of an access is the one its path names. -/
theorem proxyAccess_channel {teamId method path channel : String} {access : Access}
    (h : proxyAccess teamId method path = .ok access) (named : access.channel = some channel) :
    isHubSegment channel ∧ NamesChannel path channel := by
  rw [proxyAccess] at h
  split at h
  · cases h
    cases named
  split at h
  · cases h
    cases named
  split at h
  · simp only [bind_eq_ok, require_eq_ok, exists_and_left, pure_eq_ok] at h
    obtain ⟨_, _, _, _, rfl⟩ := h
    cases named
  split at h
  · simp only [bind_eq_ok, require_eq_ok, exists_and_left, pure_eq_ok] at h
    obtain ⟨_, _, _, _, rfl⟩ := h
    cases named
  split at h
  · next other hroute =>
      cases h
      cases named
      exact channelMessages_eq hroute
  split at h
  · simp only [bind_eq_ok, require_eq_ok, required_eq_ok, exists_and_left, pure_eq_ok] at h
    obtain ⟨_, _, query, _, rfl⟩ := h
    cases named
  · cases h

/-! ## The resolver of the Hub -/

omit [Interpreter] in
theorem strip_plain {cs : List Char} (h : ∀ c ∈ cs, isspace c = false) : strip cs = cs := by
  have hkeep (cs : List Char) (h : ∀ c ∈ cs, isspace c = false) : cs.dropWhile isspace = cs := by
    cases cs with
    | nil => rfl
    | cons c rest => exact List.dropWhile_cons_of_neg (by simp [h c List.mem_cons_self])
  rw [strip, hkeep cs h, hkeep cs.reverse fun c hc => h c (List.mem_reverse.mp hc),
    List.reverse_reverse]

omit [Interpreter] in
theorem alnum_not_space {c : Char} (h : PeerStore.isAsciiAlnum c = true) : isspace c = false := by
  have table : ∀ n < 128, (Char.ofNat n).isAlphanum = true → isspace (Char.ofNat n) = false := by
    decide
  rw [PeerStore.isAsciiAlnum, Bool.and_eq_true, decide_eq_true_eq] at h
  have hc := table c.toNat h.2
  rw [Char.ofNat_toNat] at hc
  exact hc h.1

omit [Interpreter] in
/-- The characters of a segment are those of an identifier. -/
theorem isHubSegment_chars {segment : String} (h : isHubSegment segment) :
    ∃ c rest, segment.toList = c :: rest ∧ PeerStore.isAsciiAlnum c = true ∧
      rest.length ≤ 239 ∧
      ∀ d ∈ rest, PeerStore.isAsciiAlnum d = true ∨ d ∈ "._:-".toList := by
  rw [isHubSegment] at h
  split at h
  · cases h
  · next c rest hlist =>
      simp only [Bool.and_eq_true, List.all_eq_true, Bool.or_eq_true, List.contains_iff_mem,
        decide_eq_true_eq] at h
      exact ⟨c, rest, hlist, h.1.1, h.1.2, h.2⟩

omit [Interpreter] in
theorem strip_segment {segment : String} (h : isHubSegment segment) :
    String.ofList (strip segment.toList) = segment := by
  obtain ⟨c, rest, hlist, hfirst, _, hrest⟩ := isHubSegment_chars h
  have hsign : ∀ d ∈ "._:-".toList, isspace d = false :=
    List.all_iff_forall_prop.mp (by decide)
  rw [strip_plain, String.ofList_toList]
  rw [hlist]
  intro d hd
  rcases List.mem_cons.mp hd with rfl | hd
  · exact alnum_not_space hfirst
  · exact (hrest d hd).elim alnum_not_space (hsign d)

omit [Interpreter] in
/-- Only a segment of fewer than eight characters is no identity. -/
theorem identity_segment {segment : String} (h : isHubSegment segment)
    (long : 8 ≤ segment.length) : identity segment = .ok segment := by
  obtain ⟨c, rest, hlist, hfirst, hmost, hrest⟩ := isHubSegment_chars h
  have hsign : ∀ d ∈ "._:-".toList, d ∈ "._:@/-".toList :=
    List.all_iff_forall_prop.mp (by decide)
  have hlong : 7 ≤ rest.length := by
    rw [← String.length_toList, hlist, List.length_cons] at long
    omega
  have hid : PeerStore.isIdentifier segment = true := by
    rw [PeerStore.isIdentifier, hlist]
    simp only [Bool.and_eq_true, List.all_eq_true, Bool.or_eq_true, List.contains_iff_mem,
      decide_eq_true_eq]
    refine ⟨⟨⟨hfirst, hlong⟩, hmost⟩, ?_⟩
    intro d hd
    exact (hrest d hd).imp id (hsign d)
  simp only [identity, strip_segment h, hid, if_true]

omit [Interpreter] in
theorem checkResource_inTeam {hub : Option (List Channel)} {teamId channel : String} {u : Unit}
    (segment : isHubSegment channel)
    (h : checkResource (hub.map resourceTeam) teamId (some channel) = .ok u) :
    ∃ channels ∈ hub, InTeam channels teamId channel := by
  cases hub with
  | none => cases h
  | some channels =>
      simp only [checkResource, Option.map_some, bind_eq_ok, require_eq_ok, resourceTeam] at h
      obtain ⟨team, hteam, rfl⟩ := h
      rw [if_neg (by simp), bind_eq_ok] at hteam
      obtain ⟨clean, hclean, hrow⟩ := hteam
      rw [identity] at hclean
      split at hclean
      · cases hclean
        rw [strip_segment segment, pure_eq_ok, Option.map_eq_some_iff] at hrow
        obtain ⟨row, hfind, hteam⟩ := hrow
        have hrow := List.find?_some hfind
        simp only [Bool.and_eq_true, decide_eq_true_eq, Option.isNone_iff_eq_none] at hrow
        exact ⟨channels, rfl, row, List.mem_of_find?_eq_some hfind, hrow.1, hrow.2, hteam⟩
      · cases hclean

omit [Interpreter] in
theorem checkResource_raises {hub : Option (List Channel)} {teamId : String}
    {channel : Option String}
    (long : ∀ id ∈ channel, isHubSegment id ∧ 8 ≤ id.length) :
    OnlyRaises Failure.IsSecurePeerError
      (checkResource (hub.map resourceTeam) teamId channel) := by
  cases channel with
  | none => exact .ok ()
  | some id =>
      obtain ⟨segment, hlong⟩ := long id rfl
      cases hub with
      | none => exact .error (isSecurePeerError ..)
      | some channels =>
          refine .bind ?_ fun _ _ => .require (isSecurePeerError ..)
          rw [resourceTeam, if_neg (by simp), identity_segment segment hlong]
          exact .ok _

/-! ## Bodies -/

/-- A JSON object within the bounds, or nothing. -/
def BodyConfined (method : String) (body : Bytes) : Prop :=
  body.length ≤ maxProxyBodyBytes ∧
    if method = "GET" then body = [] else JsonScan.loadsDict jsonLimits body = .ok true

theorem checkBody_confined {method : String} {headers : Headers} {body : Bytes} {u : Unit}
    (hmethod : method ∈ ["GET", "POST", "DELETE"]) (size : body.length ≤ maxProxyBodyBytes)
    (h : checkBody method headers body = .ok u) : BodyConfined method body := by
  refine ⟨size, ?_⟩
  rw [checkBody] at h
  split at h
  · next hjson =>
      have hget : method ≠ "GET" := by
        rintro rfl
        exact absurd hjson (by decide)
      rw [if_neg hget]
      simp only [bind_eq_ok, require_eq_ok] at h
      obtain ⟨_, _, h⟩ := h
      rw [checkJsonBody] at h
      split at h
      · next hloads => exact hloads
      · cases h
      · cases h
      · cases h
  · next hplain =>
      have hget : method = "GET" := by
        simp only [List.mem_cons, List.not_mem_nil, or_false] at hmethod
        exact hmethod.resolve_right hplain
      rw [if_pos hget]
      exact (require_eq_ok ..).mp h

theorem checkBody_raises {method : String} {headers : Headers} {body : Bytes}
    (shallow : JsonScan.openings body ≤ Interpreter.nesting) :
    OnlyRaises Failure.IsSecurePeerError (checkBody method headers body) := by
  unfold checkBody
  split
  · refine .bind (.require (isSecurePeerError ..)) fun _ _ => ?_
    unfold checkJsonBody
    split
    · exact .ok ()
    · exact .error (isSecurePeerError ..)
    · exact .error (isSecurePeerError ..)
    · next hdeep => exact absurd hdeep (JsonScan.loadsDict_shallow shallow)
  · exact .require (isSecurePeerError ..)

/-! ## Requests -/

/-- A request that may be forwarded for the peer. -/
structure Confined (hub : Option (List Channel)) (peer : PeerAuthorization) (received : Headers)
    (r : ProxyRequest) : Prop where
  asks : r.peer = peer
  route : ∃ route ∈ proxyRoutes, route.Fits peer.teamId r.method r.path ∧
    ∃ pairs, parseQsl r.query = some pairs ∧ (pairs.map Prod.fst).Nodup ∧
      (∀ pair ∈ pairs, pair.1 ∈ route.keys) ∧ Documented r.method r.path pairs
  scope : scopeOf r.method ∈ peer.scopes
  channel : ∀ channel, NamesChannel r.path channel →
    ∃ channels ∈ hub, InTeam channels peer.teamId channel
  body : BodyConfined r.method r.body
  headers : HeadersConfined proxyHeaderRules received r.headers

/-- What the gate can read: decimal digits, channels with long names, shallow bodies. -/
structure Readable (path query : String) (body : Bytes) : Prop where
  digits : ∀ pairs, parseQsl query = some pairs → DecimalDigits pairs
  channel : ∀ channel, NamesChannel path channel → 8 ≤ channel.length
  body : JsonScan.openings body ≤ Interpreter.nesting

variable {hub : Option (List Channel)} {peer : PeerAuthorization} {method path query : String}
  {headers : Headers} {body : Bytes}

theorem sanitizeProxyRequest_confined {r : ProxyRequest}
    (h : sanitizeProxyRequest (hub.map resourceTeam) peer method path query headers body =
      .ok r) : Confined hub peer headers r := by
  simp only [sanitizeProxyRequest, bind_eq_ok, require_eq_ok, pure_eq_ok] at h
  obtain ⟨_, hmethod, _, _, _, _, _, hsize, access, haccess, _, hscope, _, hresource, text,
    hquery, forwarded, hheaders, _, hbody, rfl⟩ := h
  obtain ⟨hneeds, hchannel⟩ := proxyAccess_grants haccess
  obtain ⟨route, mem, fits, hkeys⟩ := proxyAccess_onTable hmethod haccess
  obtain ⟨pairs, hread, once, allowed, documented⟩ := proxyQuery_documented hquery
  exact
    { asks := rfl
      route := ⟨route, mem, fits, pairs, hread, once,
        fun pair hpair => hkeys pair.1 (allowed pair hpair).1 (allowed pair hpair).2, documented⟩
      scope := hneeds ▸ hscope
      channel := by
        intro channel hnames
        have hnamed := hchannel channel hnames
        rw [hnamed] at hresource
        exact checkResource_inTeam (proxyAccess_channel haccess hnamed).1 hresource
      body := checkBody_confined hmethod hsize hbody
      headers := requestHeaders_confined hheaders }

theorem sanitizeProxyRequest_raises (readable : Readable path query body) :
    OnlyRaises Failure.IsSecurePeerError
      (sanitizeProxyRequest (hub.map resourceTeam) peer method path query headers body) := by
  refine .bind (.require (isSecurePeerError ..)) fun _ _ => ?_
  refine .bind (.require (isSecurePeerError ..)) fun _ _ => ?_
  refine .bind (.require (isSecurePeerError ..)) fun _ _ => ?_
  refine .bind (.require (isSecurePeerError ..)) fun _ _ => ?_
  refine .bind proxyAccess_raises fun access haccess => ?_
  refine .bind (.require (isSecurePeerError ..)) fun _ _ => ?_
  refine .bind (checkResource_raises fun id hid => ?_) fun _ _ => ?_
  · obtain ⟨segment, hnames⟩ := proxyAccess_channel haccess hid
    exact ⟨segment, readable.channel id hnames⟩
  refine .bind (proxyQuery_raises readable.digits) fun _ _ => ?_
  refine .bind requestHeaders_raises fun _ _ => ?_
  exact .bind (checkBody_raises readable.body) fun _ _ => .ok _

/-! ## Attachments -/

/-- A chunk with the range it covers. -/
structure UploadConfined (headers : Headers) (body : Bytes) (maximum : Nat) : Prop where
  size : 1 ≤ body.length ∧ body.length ≤ maxAttachmentChunkBytes
  type : headers.lookup "content-type" = some "application/octet-stream"
  covers : ∃ text, headers.lookup "content-range" = some text ∧
    ∃ range, contentRange? text = some range ∧ range.Covers body.length maximum
  noRange : headers.lookup "range" = none

structure DownloadConfined (headers : Headers) (body : Bytes) : Prop where
  empty : body = []
  noType : headers.lookup "content-type" = none
  noContentRange : headers.lookup "content-range" = none
  range : ∀ range ∈ headers.lookup "range", isRange range = true

structure AttachmentConfined (peer : PeerAuthorization) (received : Headers) (maximum : Nat)
    (r : AttachmentProxyRequest) : Prop where
  asks : r.peer = peer
  method : r.method ∈ ["PUT", "GET", "HEAD"]
  route : ∃ attachment, isHubSegment peer.teamId ∧ isHubSegment attachment ∧
    segments r.path =
      ["", "v1", "teams", peer.teamId, "network", "attachments", attachment, "content"]
  scope : (if r.method = "PUT" then .teamspaceWrite else .teamspaceRead) ∈ peer.scopes
  body : if r.method = "PUT" then UploadConfined r.headers r.body maximum
    else DownloadConfined r.headers r.body
  headers : HeadersConfined attachmentHeaderRules received r.headers

omit [Interpreter] in
theorem attachmentRoute_eq {team : String} (h : attachmentRoute? path = some team) :
    ∃ attachment, isHubSegment team ∧ isHubSegment attachment ∧
      segments path =
        ["", "v1", "teams", team, "network", "attachments", attachment, "content"] := by
  rw [attachmentRoute?] at h
  split at h
  · next root v1 teams member network attachments attachment content hpath =>
      split at h
      · next hfits =>
          obtain ⟨hwords, hteam, hnetwork, hattachment, rfl⟩ := hfits
          cases hwords
          cases hnetwork
          cases h
          exact ⟨attachment, hteam, hattachment, hpath⟩
      · cases h
  · cases h

omit [Interpreter] in
theorem checkTransfer_confined {maximum : Nat} {u : Unit}
    (h : checkTransfer method headers body maximum = .ok u) :
    if method = "PUT" then UploadConfined headers body maximum
      else DownloadConfined headers body := by
  rw [checkTransfer] at h
  split at h
  · next hput =>
      rw [if_pos hput]
      simp only [checkUpload, bind_eq_ok, require_eq_ok, required_eq_ok,
        Option.bind_eq_some_iff] at h
      obtain ⟨_, hsize, _, htype, range, ⟨text, htext, hrange⟩, hcovers, hnone⟩ := h
      exact ⟨hsize, htype, ⟨text, htext, range, hrange, hcovers⟩, hnone⟩
  · next hget =>
      rw [if_neg hget]
      simp only [checkDownload, bind_eq_ok, require_eq_ok] at h
      obtain ⟨_, ⟨hbody, htype, hcontent⟩, h⟩ := h
      refine ⟨hbody, htype, hcontent, ?_⟩
      intro range hrange
      rw [Option.mem_def] at hrange
      rw [hrange] at h
      exact (require_eq_ok ..).mp h

theorem sanitizeAttachmentProxyRequest_confined {maximum : Nat} {r : AttachmentProxyRequest}
    (h : sanitizeAttachmentProxyRequest peer method path query headers body maximum = .ok r) :
    AttachmentConfined peer headers maximum r := by
  simp only [sanitizeAttachmentProxyRequest, bind_eq_ok, require_eq_ok, pure_eq_ok] at h
  obtain ⟨_, _, _, ⟨_, _, _, hroute⟩, _, hmethod, _, _, _, hscope, forwarded, hheaders, _,
    htransfer, rfl⟩ := h
  exact ⟨rfl, hmethod, attachmentRoute_eq hroute, hscope, checkTransfer_confined htransfer,
    requestHeaders_confined hheaders⟩

omit [Interpreter] in
theorem checkTransfer_raises {maximum : Nat} :
    OnlyRaises Failure.IsSecurePeerError (checkTransfer method headers body maximum) := by
  unfold checkTransfer
  split
  · refine .bind (.require (isSecurePeerError ..)) fun _ _ => ?_
    refine .bind (.require (isSecurePeerError ..)) fun _ _ => ?_
    exact .bind (.required (isSecurePeerError ..)) fun _ _ => .require (isSecurePeerError ..)
  · refine .bind (.require (isSecurePeerError ..)) fun _ _ => ?_
    split
    · exact .ok ()
    · exact .require (isSecurePeerError ..)

theorem sanitizeAttachmentProxyRequest_raises {maximum : Nat} :
    OnlyRaises Failure.IsSecurePeerError
      (sanitizeAttachmentProxyRequest peer method path query headers body maximum) := by
  refine .bind (.require (isSecurePeerError ..)) fun _ _ => ?_
  refine .bind (.require (isSecurePeerError ..)) fun _ _ => ?_
  refine .bind (.require (isSecurePeerError ..)) fun _ _ => ?_
  refine .bind (.require (isSecurePeerError ..)) fun _ _ => ?_
  refine .bind (.require (isSecurePeerError ..)) fun _ _ => ?_
  refine .bind requestHeaders_raises fun _ _ => ?_
  exact .bind checkTransfer_raises fun _ _ => .ok _

/-- Whatever a peer sends, what the two gates return is confined to the peer's team and to
what its route allows. What they can read they refuse with the error of the protocol
only. -/
theorem gates_confine (hub : Option (List Channel)) (peer : PeerAuthorization)
    (method path query : String) (headers : Headers) (body : Bytes) (maximum : Nat) :
    (∀ r, sanitizeProxyRequest (hub.map resourceTeam) peer method path query headers body =
        .ok r → Confined hub peer headers r) ∧
      (Readable path query body → ∀ e,
        sanitizeProxyRequest (hub.map resourceTeam) peer method path query headers body =
          .error e → e.IsSecurePeerError) ∧
      (∀ r, sanitizeAttachmentProxyRequest peer method path query headers body maximum = .ok r →
        AttachmentConfined peer headers maximum r) ∧
      ∀ e, sanitizeAttachmentProxyRequest peer method path query headers body maximum =
        .error e → e.IsSecurePeerError :=
  ⟨fun _ => sanitizeProxyRequest_confined, sanitizeProxyRequest_raises,
    fun _ => sanitizeAttachmentProxyRequest_confined, sanitizeAttachmentProxyRequest_raises⟩

end

/-! ## What the gates do not promise -/

/-- The interpreter on Latin text. A superscript two is a digit and no decimal. -/
@[reducible] def latin : Interpreter where
  upper := List.map Char.toUpper
  lower := List.map Char.toLower
  isDigit c := c.isDigit || c.toNat == 0xB2
  decimal c := if c.isDigit then some (c.toNat - '0'.toNat) else none
  nesting := 900
  intDigits := 4300
  isDigit_ascii := by
    intro c hc
    rw [Bool.or_eq_left_iff_imp, beq_iff_eq]
    intro heq
    omega
  decimal_ascii := fun _ _ => rfl

def pairedPeer : PeerAuthorization where
  peerId := "peer"
  pairingId := "pairing"
  peerServerIdentity := "server-one"
  teamId := "team"
  scopes := [.teamspaceRead, .teamspaceWrite]
  certificateFingerprint := "sha256"
  certificateExpiresAt := 1
  peerDisplayName := "Peer"
  crossChatGrantEpoch := none

def unlistedBody : Bytes := utf8 "\x7b\"unlisted\": 1\x7d".toList

section
attribute [local instance] latin

/-- No key of a body is looked at, a read carries no object at all, and a superscript digit
gets past the test and fails in the conversion. -/
theorem unlisted_body_and_superscript_digit :
    ((sanitizeProxyRequest none pairedPeer "POST" "/v1/teams/team/network/messages" ""
        [("content-type", "application/json")] unlistedBody).toOption.map ProxyRequest.body =
      some unlistedBody) ∧
      ((sanitizeProxyRequest none pairedPeer "GET" "/v1/health" "" [] []).toOption.map
        ProxyRequest.body = some []) ∧
      (sanitizeProxyRequest none pairedPeer "GET" "/v1/teams/team/network" "limit=%C2%B2" []
        []).map ProxyRequest.body = .error .valueError := by
  decide +kernel

end

end AgentsServer.PeerProxy
