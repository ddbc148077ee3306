import AgentsServer.PublicShares.Extends
import Mathlib.Algebra.Order.BigOperators.Group.List
import Mathlib.Algebra.Order.Ring.Nat

/-!
# Lossless pages

The pages of a streamed share, read one after another, are the messages that were emitted.
-/

namespace AgentsServer.PublicShares

open Library

namespace Store

section

variable [FloatText] [Sha256] {store store' t : Store} {sessionId : String} {loader : Loader} {title : Json}
  {expiresAt : Option Json} {token : Token} {shareId : ShareId} {now : Value} {created : Created}
  {c : Capture} {pages : List (List Message)} {row : ShareRow}

/-! ## Reading -/

omit [FloatText] in
theorem opens_iff {token : String} {given : Option String} {time : NumLit} :
    (decide (row.tokenHash = tokenHash token) && given.all (· == row.shareId) &&
      row.expiresAt.all (fun expiry => NumLit.before time expiry) &&
      !t.revocations.any fun r => r.shareId == row.shareId) = true ↔
    row.tokenHash = tokenHash token ∧ (given = none ∨ given = some row.shareId) ∧
      (∀ expiry, row.expiresAt = some expiry → NumLit.before time expiry = true) ∧
      ∀ r ∈ t.revocations, r.shareId ≠ row.shareId := by
  simp only [Bool.and_eq_true, decide_eq_true_eq, Bool.not_eq_true', List.any_eq_false,
    Option.all_eq_true, beq_iff_eq, and_assoc, ne_eq]
  cases given <;> simp

omit [FloatText] in
theorem opened_eq_some {token : String} {given : Option String} {time : NumLit}
    (h : t.opened token given time = some row) :
    row ∈ t.shares ∧ row.tokenHash = tokenHash token ∧ (given = none ∨ given = some row.shareId) ∧
      (∀ expiry, row.expiresAt = some expiry → NumLit.before time expiry = true) ∧
      ∀ r ∈ t.revocations, r.shareId ≠ row.shareId := by
  have hpred := List.find?_some h
  exact ⟨List.mem_of_find?_eq_some h, opens_iff.mp hpred⟩

omit [FloatText] in
/-- A row that satisfies the query is the one found, since no other has its token. -/
theorem opened_eq (hs : t.Sound) (hrow : row ∈ t.shares) {token : String}
    (htoken : row.tokenHash = tokenHash token) {given : Option String}
    (hgiven : given = none ∨ given = some row.shareId) {time : NumLit}
    (hlive : ∀ r ∈ t.revocations, r.shareId ≠ row.shareId)
    (hexpiry : ∀ expiry, row.expiresAt = some expiry → NumLit.before time expiry = true) :
    t.opened token given time = some row := by
  have hfound : (t.opened token given time).isSome = true := by
    rw [opened, List.find?_isSome]
    exact ⟨row, hrow, opens_iff.mpr ⟨htoken, hgiven, hexpiry, hlive⟩⟩
  obtain ⟨found, hopened⟩ := Option.isSome_iff_exists.mp hfound
  obtain ⟨hmem, hfoundToken, -⟩ := opened_eq_some hopened
  have hsame : found = row :=
    List.inj_on_of_nodup_map hs.tokens hmem hrow (hfoundToken.trans htoken.symm)
  rw [hopened, hsame]

omit [FloatText] in
/-- The rows of the later pages are found by their indices. -/
theorem find_pageRows {index : Nat} {page : List Message} (hpage : pages[index + 1]? = some page) :
    ((c.pageRows pages).find? fun p => p.pageIndex == index + 1) =
      some (c.pageRow page (index + 1)) := by
  have hfound : ((c.pageRows pages).find? fun p => p.pageIndex == index + 1).isSome = true := by
    rw [List.find?_isSome]
    refine ⟨c.pageRow page (index + 1), ?_, by simp [Capture.pageRow]⟩
    rw [List.mem_iff_getElem?]
    exact ⟨index, by rw [Capture.getElem?_pageRows, hpage]; rfl⟩
  obtain ⟨found, hfind⟩ := Option.isSome_iff_exists.mp hfound
  obtain ⟨index', page', hpage', rfl⟩ := Capture.mem_pageRows (List.mem_of_find?_eq_some hfind)
  have hsame : index' + 1 = index + 1 := by simpa [Capture.pageRow] using List.find?_some hfind
  rw [hsame, hpage] at hpage'
  obtain rfl : page = page' := Option.some.inj hpage'
  rw [hfind, hsame]

/-- The pages of the share are those that were captured. -/
theorem Streamed.pagesOf_eq
    (h : Streamed store store' sessionId loader title expiresAt token shareId now created c pages row)
    (hs : store.Sound) : store'.pagesOf row.shareId = c.pageRows pages := by
  have hold : store.pages.filter (fun p => p.shareId == row.shareId) = [] := by
    rw [List.filter_eq_nil_iff]
    intro p hp hsame
    obtain ⟨share, hshare, hid⟩ := hs.pages p hp
    exact h.freshShare share hshare (hid.trans (by simpa using hsame))
  have hnew : (c.pageRows pages).filter (fun p => p.shareId == row.shareId) = c.pageRows pages := by
    rw [List.filter_eq_self]
    intro p hp
    rw [pageRows_share p hp, h.share, beq_self_eq_true]
  rw [h.left, pagesOf, List.filter_append, hold, hnew, List.nil_append]

/-- Every captured page is read while the share lives, up to the largest page number. -/
theorem Streamed.read
    (h : Streamed store store' sessionId loader title expiresAt token shareId now created c pages row)
    (given : Option String) (time : NumLit)
    (hs : store.Sound) (ht : t.Sound) (hext : Extends store' t)
    (hgiven : given = none ∨ given = some shareId.text) (htime : isTimestamp time = true)
    (hlive : ∀ r ∈ t.revocations, r.shareId ≠ shareId.text)
    (hexpiry : ∀ expiry, row.expiresAt = some expiry → NumLit.before time expiry = true)
    {index : Nat} {page : List Message} (hpage : pages[index]? = some page)
    (hindex : index ≤ 2 ^ 31 - 1) :
    t.getSnapshotPage token.text given (some index) (.num time) =
      .ok ⟨c.pageOf page, index, pages.length, row.messageCount⟩ := by
  obtain ⟨hvalid, hshare⟩ := h.valid
  have hsame : row.shareId = shareId.text := h.share.trans hshare
  have hmem : row ∈ store'.shares := by
    rw [h.left]
    exact List.mem_append_right _ (List.mem_singleton_self row)
  have hopened := opened_eq ht (hext.shares row hmem) h.tokenHash (hsame ▸ hgiven) (hsame ▸ hlive)
    hexpiry
  have hpages : t.pagesOf row.shareId = c.pageRows pages := by
    rw [hext.pagesOf_eq hmem, h.pagesOf_eq hs]
  have hlt : index < pages.length := (List.getElem?_eq_some_iff.mp hpage).1
  have hcount : 1 + (c.pageRows pages).length = pages.length := by
    rw [Capture.length_pageRows]
    omega
  have hread := Capture.readPage_fits hvalid (h.fits page (List.mem_of_getElem? hpage))
  unfold getSnapshotPage
  simp only [bind_eq_ok, require_eq_ok, required_eq_ok]
  refine ⟨(), token.valid, (), ?_, (), ?_, time, timestamp_eq_ok htime _, row, hopened, (), ?_, ?_⟩
  · rcases hgiven with rfl | rfl
    · rfl
    · exact shareId.valid
  · simp only [Option.all_some, decide_eq_true_eq]
    omega
  · rw [hpages, hcount]
    exact hlt
  · rw [hpages, hcount]
    dsimp only [Option.map_some, Option.getD_some, Int.toNat_natCast]
    cases index with
    | zero =>
        obtain ⟨first, hfirst, hencoded, hdigest⟩ := h.first
        have hsamePage : page = first := by
          rw [← List.head?_eq_getElem?, hfirst] at hpage
          exact (Option.some.inj hpage).symm
        subst hsamePage
        rw [if_pos rfl]
        simp only [bind_eq_ok, pure_eq_ok]
        refine ⟨_, rfl, c.pageOf page, ?_, rfl⟩
        rw [hencoded, hdigest]
        exact hread
    | succ index =>
        rw [if_neg (Nat.succ_ne_zero index)]
        simp only [bind_eq_ok, required_eq_ok, pure_eq_ok]
        exact ⟨_, find_pageRows hpage, _, rfl, c.pageOf page, hread, rfl⟩

/-! ## Raising -/

omit [FloatText] [Sha256] in
theorem Sound.page_share (hs : store.Sound) {id : String}
    (h : ∃ p ∈ store.pages, p.shareId = id) : ∃ s ∈ store.shares, s.shareId = id := by
  obtain ⟨p, hp, rfl⟩ := h
  exact hs.pages p hp

/-- What `emit` raises is about the message alone, or the share id is taken. -/
theorem Sound.emit_error (hs : store.Sound) (hv : c.Valid) (hid : c.shareId = shareId.text)
    {attempt : Value × Option Failure} (hmem : attempt ∈ loader.calls c (Sink.start store))
    {e : Failure} (he : attempt.2 = some e) :
    c.normalize attempt.1.json = .error e ∨
      e = .integrityError ∧ ∃ s ∈ store.shares, s.shareId = shareId.text := by
  obtain ⟨-, hcalls⟩ := Capture.run_captured hv loader (c.captured_start store)
  rcases hcalls attempt hmem e he with hitem | ⟨hintegrity, hpage⟩
  · exact .inl hitem
  · rw [hid] at hpage
    exact .inr ⟨hintegrity, hs.page_share hpage⟩

/-- The last flush fails only where the share id is taken. -/
theorem Sound.flush_error (hs : store.Sound) (hv : c.Valid) (hid : c.shareId = shareId.text)
    {sink : Sink} (hrun : loader.run c (Sink.start store) = .ok sink) {e : Failure}
    (he : c.flush sink = .error e) :
    e = .integrityError ∧ ∃ s ∈ store.shares, s.shareId = shareId.text := by
  obtain ⟨hcontent, -⟩ := Capture.run_captured hv loader (c.captured_start store)
  obtain ⟨done, hdone⟩ := hcontent sink hrun
  rcases Capture.flush_captured hv hdone with ⟨sink', done', hok, -⟩ | ⟨herror, hpage⟩
  · rw [hok] at he
    cases he
  · rw [herror] at he
    cases he
    rw [hid] at hpage
    exact ⟨rfl, hs.page_share hpage⟩

/-! ## Returning -/

omit [FloatText] [Sha256] in
theorem insertShare_fresh {row : ShareRow} (hshare : ∀ old ∈ store.shares, old.shareId ≠ row.shareId)
    (htoken : ∀ old ∈ store.shares, old.tokenHash ≠ row.tokenHash) (hcount : 1 ≤ row.messageCount)
    (hlength : row.snapshotJson.length ≤ maxSnapshotBytes) :
    store.insertShare row = .ok { store with shares := store.shares ++ [row] } := by
  dsimp only [insertShare]
  rw [bind_eq_ok]
  refine ⟨store.shares ++ [row], ?_, rfl⟩
  rw [required_eq_ok]
  refine Tables.insertRow_eq_some.mpr ⟨⟨?_, hshare⟩, rfl⟩
  rw [Bool.and_eq_true, Bool.and_eq_true, List.all_eq_true]
  exact ⟨⟨fun old hold => bne_iff_ne.mpr (htoken old hold), decide_eq_true hcount⟩,
    decide_eq_true hlength⟩

/-- Messages that pass alone are all captured, where the share id is new. -/
theorem ofList_captured {base : Store} {sink : Sink} {before : List Message}
    {done : List (List Message)} (hv : c.Valid) (hfresh : ∀ p ∈ base.pages, p.shareId ≠ c.shareId)
    {messages : List Value} (hall : ∀ m ∈ messages, ∃ item, c.normalize m.json = .ok item)
    (h : c.Captured base before done sink) :
    ∃ sink', (Loader.ofList messages).run c sink = .ok sink' ∧
      (Loader.ofList messages).calls c sink = messages.map fun m => (m, none) := by
  induction messages generalizing before done sink with
  | nil => exact ⟨sink, rfl, rfl⟩
  | cons m rest ih =>
      obtain ⟨item, hitem⟩ := hall m List.mem_cons_self
      rcases Capture.emit_captured hv h m with
        ⟨sink₁, done₁, _, -, hemit, hcaptured⟩ | ⟨e, -, hcause | ⟨-, p, hp, hsame⟩⟩
      · obtain ⟨sink', hrun, hcalls⟩ :=
          ih (fun m' hm => hall m' (List.mem_cons_of_mem m hm)) hcaptured
        refine ⟨sink', ?_, ?_⟩
        · rw [Loader.ofList, Loader.run, hemit]
          exact hrun
        · rw [Loader.ofList, Loader.calls, hemit, List.map_cons]
          exact congrArg _ hcalls
      · rw [hitem] at hcause
        cases hcause
      · exact absurd hsame (hfresh p hp)

/-- The number of messages that are taken from a list whose messages pass alone. -/
theorem length_emitted_ofList {messages : List Value} {sink : Sink}
    (hall : ∀ m ∈ messages, ∃ item, c.normalize m.json = .ok item)
    (hcalls : (Loader.ofList messages).calls c sink = messages.map fun m => (m, none)) :
    (c.emitted (.ofList messages) sink).length = messages.length := by
  rw [Capture.emitted, hcalls]
  clear hcalls
  induction messages with
  | nil => rfl
  | cons m rest ih =>
      obtain ⟨item, hitem⟩ := hall m List.mem_cons_self
      have haccepted : c.accepted (m, none) = some item := by
        change (c.normalize m.json).toOption = some item
        rw [hitem]
        rfl
      rw [List.map_cons, List.filterMap_cons_some haccepted, List.length_cons, List.length_cons,
        ih fun m' hm => hall m' (List.mem_cons_of_mem m hm)]

variable (expiresAt token) in
/-- A share of messages that pass alone is created, where its id and token are new. -/
theorem createStreamedShare_returns (hs : store.Sound) {createdAt : NumLit} {expiry : Option NumLit}
    {messages : List Value} (hsession : checkSessionId sessionId = .ok ())
    (htime : timestamp now.json "current time" = .ok createdAt)
    (hexpiry : checkExpiry expiresAt createdAt = .ok expiry)
    (hbegin : Capture.begin shareId.text title createdAt = .ok c)
    (hshare : ∀ old ∈ store.shares, old.shareId ≠ shareId.text)
    (htoken : ∀ old ∈ store.shares, old.tokenHash ≠ tokenHash token.text) (hne : messages ≠ [])
    (hall : ∀ m ∈ messages, ∃ item, c.normalize m.json = .ok item) :
    (∃ created, (store.createStreamedShare sessionId (.ofList messages) title expiresAt token shareId
      now (.ok ()) (.ok ())).2 = .ok created) ∧
      (Loader.ofList messages).calls c (Sink.start store) = messages.map fun m => (m, none) := by
  obtain ⟨hnum, -⟩ := timestamp_eq htime
  obtain ⟨hvalid, hid, -⟩ := Capture.begin_valid (hnum ▸ now.proper) hbegin
  have hfresh : ∀ p ∈ store.pages, p.shareId ≠ c.shareId := by
    intro p hp hsame
    obtain ⟨old, hold, hpage⟩ := hs.pages p hp
    exact hshare old hold (hpage.trans (hsame.trans hid))
  obtain ⟨sink, hrun, hcalls⟩ := ofList_captured hvalid hfresh hall (c.captured_start store)
  refine ⟨?_, hcalls⟩
  obtain ⟨hcontent, -⟩ := Capture.run_captured hvalid (.ofList messages) (c.captured_start store)
  obtain ⟨done, hdone⟩ := hcontent sink hrun
  rw [List.nil_append] at hdone
  have hlength := length_emitted_ofList hall hcalls
  have hpos : 0 < messages.length := List.length_pos_iff.mpr hne
  rcases Capture.flush_captured hvalid hdone with
    ⟨sink', pages, hflush, hpages, hempty⟩ | ⟨-, p, hp, hsame⟩
  swap
  · exact absurd hsame (hfresh p hp)
  have hflatten : pages.flatten.length = messages.length := by
    have hcount := congrArg List.length hpages.content
    rw [hempty, List.append_nil] at hcount
    exact hcount.trans hlength
  have hpagesNe : pages ≠ [] := by
    rintro rfl
    exact absurd hflatten (Nat.ne_of_lt hpos)
  obtain ⟨first, rest, rfl⟩ := List.exists_cons_of_ne_nil hpagesNe
  have hinsert : sink'.store.insertShare ⟨shareId.text, sessionId, tokenHash token.text, c.title,
      createdAt, expiry, sink'.total, c.encode first, Sha256.digest (c.encode first)⟩ = .ok _ :=
    insertShare_fresh (by rw [hpages.store]; exact hshare) (by rw [hpages.store]; exact htoken)
    (by rw [hpages.total, hlength]; exact hpos)
    (Capture.encode_length (hpages.fits first List.mem_cons_self))
  refine ⟨⟨shareId.text, sessionId, c.title, createdAt, expiry, sink'.total, token.text⟩, ?_⟩
  rw [createStreamedShare, hsession, ok_bind, htime, ok_bind, hexpiry, ok_bind, hbegin, ok_bind, ok_bind, hrun, ok_bind,
    hflush, ok_bind, hpages.first]
  dsimp only [List.head?_cons, Option.map_some, required]
  rw [ok_bind, hinsert]
  rfl

/-! ## Later readers -/

/-- A share is read at a time until it expires or is revoked. -/
def Serves (t : Store) (row : ShareRow) (now : Json) : Prop :=
  (∃ time, timestamp now "current time" = .ok time ∧
    ∀ expiry, row.expiresAt = some expiry → NumLit.before time expiry = true) ∧
  ∀ r ∈ t.revocations, r.shareId ≠ row.shareId

/-- What was read once is read again while the share is served, and nothing else is. -/
theorem getSnapshotPage_later {s : Store} (ht : t.Sound) (hext : Extends s t) {token : String}
    {given : Option String} {page : Option Int} {now : Json} {view : PageView}
    (h : s.getSnapshotPage token given page now = .ok view) :
    ∃ row ∈ s.shares, row.tokenHash = tokenHash token ∧ ∀ now' v,
      t.getSnapshotPage token given page now' = .ok v ↔ t.Serves row now' ∧ v = view := by
  unfold getSnapshotPage at h ⊢
  simp only [bind_eq_ok, require_eq_ok, required_eq_ok] at h ⊢
  obtain ⟨_, htoken, _, hid, _, hpage, time, -, row, hopened, _, hlt, hread⟩ := h
  obtain ⟨hmem, hhash, hgiven, -, -⟩ := opened_eq_some hopened
  have hrow := hext.shares row hmem
  refine ⟨row, hmem, hhash, fun now' v => ⟨?_, ?_⟩⟩
  · rintro ⟨_, -, _, -, _, -, time', htime, row', hopened', _, -, hread'⟩
    obtain ⟨hmem', hhash', -, hexpiry, hlive⟩ := opened_eq_some hopened'
    cases List.inj_on_of_nodup_map ht.tokens hmem' hrow (hhash'.trans hhash.symm)
    rw [hext.pagesOf_eq hmem] at hread'
    exact ⟨⟨⟨time', htime, hexpiry⟩, hlive⟩, Except.ok.inj (hread'.symm.trans hread)⟩
  · rintro ⟨⟨⟨time', htime, hexpiry⟩, hlive⟩, rfl⟩
    have hfound : t.opened token given time' = some row :=
      opened_eq ht hrow hhash hgiven hlive hexpiry
    refine ⟨(), htoken, (), hid, (), hpage, time', htime, row, hfound, ?_⟩
    rw [hext.pagesOf_eq hmem]
    exact ⟨(), hlt, hread⟩

/-- In every run: a share that was revoked is not served again, and a page that was read once is
read again at exactly the times at which its share is served, with the same messages. -/
theorem pages_until_revoked (pre post : List Call) :
    let s := Runs.run call Store.empty pre
    let t := Runs.run call s post
    (∀ shareId sessionId now, (s.revokeShare shareId sessionId now).2 = .ok true →
      ∀ token given time row, (Runs.run call s (.revoke shareId sessionId now :: post)).opened
        token given time = some row → row.shareId ≠ shareId) ∧
    ∀ token given page now view, s.getSnapshotPage token given page now = .ok view →
      ∃ row ∈ s.shares, row.tokenHash = tokenHash token ∧ ∀ now' v,
        t.getSnapshotPage token given page now' = .ok v ↔ t.Serves row now' ∧ v = view := by
  intro s t
  have hs : s.Sound := run_sound sound_empty pre
  refine ⟨?_, ?_⟩
  · intro shareId sessionId now hrevoked token given time row hopened
    have hlater := run_extends (call_extends hs (.revoke shareId sessionId now)).1 post
    have hlive := (opened_eq_some hopened).2.2.2.2
    rcases revokeShare_eq s shareId sessionId now with ⟨hsame, hold⟩ | ⟨r, rfl, -, heq⟩
    · obtain ⟨r, hr, rfl⟩ := hold hrevoked
      exact (hlive r (hlater.revocations r (hsame.symm ▸ hr))).symm
    · have hr : r ∈ (s.revokeShare r.shareId sessionId now).1.revocations := by
        rw [heq]
        exact List.mem_append_right _ List.mem_cons_self
      exact (hlive r (hlater.revocations r hr)).symm
  · intro token given page now view h
    exact getSnapshotPage_later (run_sound hs post) (run_extends hs post) h

end

/-! ## One share -/

section Example

@[reducible] def constantDigest : Sha256 where
  digest := fun _ => List.replicate 32 0
  length_digest := Sha256.length_zeros

@[reducible] def noFloats : FloatText := ⟨fun _ => none⟩

attribute [local instance] constantDigest noFloats

def someToken : Token := ⟨String.ofList (List.replicate 43 'A'), by decide⟩

def someShareId : ShareId :=
  ⟨"share_" ++ String.ofList (List.replicate 32 '0'), by decide⟩

def greeting : Value where
  json := .obj [("role", .str "user"), ("text", .str "hello")]
  proper := by
    refine .obj (by decide) ?_
    intro field hfield
    simp only [List.mem_cons, List.not_mem_nil, or_false] at hfield
    rcases hfield with rfl | rfl <;> exact .str _

def morning : NumLit := NumLit.ofInt 1700000000

def someTime : Value := ⟨.num morning, .num (by decide)⟩

theorem greeting_passes : ∃ c : Capture, Capture.begin someShareId.text .null morning = .ok c ∧
    ∃ item, c.normalize greeting.json = .ok item := by
  have hsome : ((Capture.begin someShareId.text .null morning).bind fun c =>
      c.normalize greeting.json).toOption.isSome = true := by decide +kernel
  obtain ⟨item, hitem⟩ := Option.isSome_iff_exists.mp hsome
  cases hbegin : Capture.begin someShareId.text .null morning with
  | error e =>
      rw [hbegin] at hitem
      cases hitem
  | ok c =>
      refine ⟨c, rfl, ?_⟩
      rw [hbegin] at hitem
      cases hnormal : c.normalize greeting.json with
      | ok item => exact ⟨item, rfl⟩
      | error e =>
          change (c.normalize greeting.json).toOption = some item at hitem
          rw [hnormal] at hitem
          cases hitem

/-- The creation of a share of so many greetings. -/
def greetings (count : Nat) : Store × Except Failure Created :=
  Store.empty.createStreamedShare "session" (.ofList (List.replicate count greeting)) .null none
    someToken someShareId someTime (.ok ()) (.ok ())

/-- It returns, and it took every greeting. -/
theorem greetings_streamed {count : Nat} (hpos : 0 < count) :
    ∃ created c pages row, (greetings count).2 = .ok created ∧
      Streamed Store.empty (greetings count).1 "session" (.ofList (List.replicate count greeting))
        .null none someToken someShareId someTime created c pages row ∧
      (∀ attempt ∈ (Loader.ofList (List.replicate count greeting)).calls c (Sink.start Store.empty),
        attempt.2 = none) ∧
      pages.flatten.length = count ∧ c.createdAt = morning := by
  obtain ⟨c, hbegin, hitem⟩ := greeting_passes
  have htime : timestamp someTime.json "current time" = .ok morning :=
    timestamp_eq_ok (by decide +kernel) _
  have hall : ∀ m ∈ List.replicate count greeting, ∃ item, c.normalize m.json = .ok item := by
    intro m hm
    rw [List.eq_of_mem_replicate hm]
    exact hitem
  have hne : List.replicate count greeting ≠ [] := by
    rw [Ne, List.replicate_eq_nil_iff]
    exact Nat.ne_of_gt hpos
  have hsession : checkSessionId "session" = .ok () := by decide
  obtain ⟨⟨created, hcreated⟩, hcalls⟩ := createStreamedShare_returns none someToken sound_empty hsession htime rfl hbegin (by rintro _ ⟨⟩) (by rintro _ ⟨⟩) hne
    hall
  obtain ⟨c', pages, row, h⟩ := createStreamedShare_eq_ok hcreated
  have hmorning : c'.createdAt = morning := Except.ok.inj (h.time.symm.trans htime)
  have hbegan := h.began
  rw [hmorning, hbegin] at hbegan
  obtain rfl : c = c' := Except.ok.inj hbegan
  refine ⟨created, c, pages, row, hcreated, h, ?_, ?_, hmorning⟩
  · intro attempt hattempt
    rw [hcalls] at hattempt
    obtain ⟨m, -, rfl⟩ := List.mem_map.mp hattempt
    rfl
  · rw [h.content, length_emitted_ofList hall hcalls, List.length_replicate]

/-- What is read of its pages: those with an index that can be asked for. -/
theorem greetings_pages {count : Nat} (hpos : 0 < count) :
    ∃ created c view, (greetings count).2 = .ok created ∧
      Capture.begin someShareId.text .null created.createdAt = .ok c ∧
      (∀ attempt ∈ (Loader.ofList (List.replicate count greeting)).calls c (Sink.start Store.empty),
        attempt.2 = none) ∧
      (greetings count).1.getSnapshotPage someToken.text none (some 0) someTime.json = .ok view ∧
      count ≤ view.pageCount * maxSnapshotPageMessages := by
  obtain ⟨created, c, pages, row, hcreated, h, hcalls, hlength, hmorning⟩ := greetings_streamed hpos
  have hsound : (greetings count).1.Sound :=
    (call_extends sound_empty (.stream _ _ _ _ _ _ _ _ _)).1
  have hlive : (greetings count).1.revocations = [] := congrArg Store.revocations h.left
  have hforever : row.expiresAt = none := (Except.ok.inj h.expiry).symm
  obtain ⟨page, hpage, -⟩ := h.first
  have hview := h.read none morning sound_empty hsound (.refl _) (.inl rfl)
    (by decide +kernel) (by rw [hlive]; rintro _ ⟨⟩) (by rw [hforever]; rintro _ ⟨⟩)
    (List.head?_eq_getElem? ▸ hpage) (Nat.zero_le _)
  have hanswer := h.answer
  subst hanswer
  refine ⟨_, c, _, hcreated, h.began, hcalls, hview, ?_⟩
  have hfew : ∀ length ∈ pages.map List.length, length ≤ maxSnapshotPageMessages := by
    intro length hmem
    obtain ⟨some, hsome, rfl⟩ := List.mem_map.mp hmem
    exact (h.fits some hsome).few
  have hsum := List.sum_le_card_nsmul _ _ hfew
  rw [List.length_map, nsmul_eq_mul, Nat.cast_id, ← List.length_flatten, hlength] at hsum
  exact hsum

end Example

/-! ## Streamed shares -/

/-- A streamed share is written whole or not at all. Its pages are full of checked messages,
and reading them gives back what was emitted; a page number over `2 ** 31 - 1` is not read. -/
theorem streamed_share_pages [FloatText] [Sha256] (earlier : List Call) (sessionId : String) (loader : Loader)
    (title : Json) (expiresAt : Option Json) (token : Token) (shareId : ShareId) (now : Value)
    (prepared committed : Except Failure Unit) :
    let store := Runs.run call Store.empty earlier
    let result := store.createStreamedShare sessionId loader title expiresAt token shareId now
      prepared committed
    (∀ e, result.2 = .error e → result.1 = store) ∧
    (∀ createdAt c, timestamp now.json "current time" = .ok createdAt →
      Capture.begin shareId.text title createdAt = .ok c →
      (∀ attempt ∈ loader.calls c (Sink.start store), ∀ e, attempt.2 = some e →
        c.normalize attempt.1.json = .error e ∨
          e = .integrityError ∧ ∃ s ∈ store.shares, s.shareId = shareId.text) ∧
      ∀ sink, loader.run c (Sink.start store) = .ok sink → ∀ e, c.flush sink = .error e →
        e = .integrityError ∧ ∃ s ∈ store.shares, s.shareId = shareId.text) ∧
    ∀ created, result.2 = .ok created → ∃ (c : Capture) (pages : List (List Message)),
      Capture.begin shareId.text title created.createdAt = .ok c ∧
      pages.flatten = c.emitted loader (Sink.start store) ∧
      created.messageCount = pages.flatten.length ∧
      (∀ page ∈ pages, 1 ≤ page.length ∧ page.length ≤ maxSnapshotPageMessages ∧
        (c.encode page).length ≤ maxSnapshotBytes) ∧
      ∀ later given time, (given = none ∨ given = some shareId.text) →
        isTimestamp time = true →
        (∀ r ∈ (Runs.run call result.1 later).revocations, r.shareId ≠ shareId.text) →
        (∀ expiry, created.expiresAt = some expiry → NumLit.before time expiry = true) →
        ∀ (index : Nat) page, pages[index]? = some page → index ≤ 2 ^ 31 - 1 →
          (Runs.run call result.1 later).getSnapshotPage token.text given (some index) (.num time) =
            .ok ⟨c.pageOf page, index, pages.length, created.messageCount⟩ := by
  intro store result
  have hs : store.Sound := run_sound sound_empty earlier
  refine ⟨fun e he => createStreamedShare_error he, ?_, ?_⟩
  · intro createdAt c htime hbegin
    obtain ⟨hnum, -⟩ := timestamp_eq htime
    obtain ⟨hvalid, hid, -⟩ := Capture.begin_valid (hnum ▸ now.proper) hbegin
    constructor
    · intro attempt hmem e he
      exact hs.emit_error hvalid hid hmem he
    · intro sink hrun e he
      exact hs.flush_error hvalid hid hrun he
  · intro created hcreated
    obtain ⟨c, pages, row, h⟩ := createStreamedShare_eq_ok hcreated
    have hresult : result.1.Sound :=
      (call_extends hs (.stream sessionId loader title expiresAt token shareId now prepared
        committed)).1
    have hanswer := h.answer
    subst hanswer
    refine ⟨c, pages, h.began, h.content, h.count, ?_, ?_⟩
    · intro page hpage
      have hfits := h.fits page hpage
      exact ⟨List.length_pos_iff.mpr hfits.nonempty, hfits.few, Capture.encode_length hfits⟩
    · intro later given time hgiven htime hlive hexpiry index page hpage hindex
      exact h.read given time hs (run_sound hresult later) (run_extends hresult later) hgiven htime hlive
        hexpiry hpage hindex

section Example

attribute [local instance] constantDigest noFloats

/-- A share of one greeting is read. -/
theorem streamed_share_pages_greeting :
    ∃ created c page pageCount, (greetings 1).2 = .ok created ∧ created.messageCount = 1 ∧
      Capture.begin someShareId.text .null created.createdAt = .ok c ∧ page ≠ [] ∧
      (greetings 1).1.getSnapshotPage someToken.text none (some 0) someTime.json =
        .ok ⟨c.pageOf page, 0, pageCount, 1⟩ := by
  obtain ⟨created, c₀, pages₀, row, hcreated, h, -, hlength, -⟩ := greetings_streamed one_pos
  obtain ⟨-, -, hall⟩ := streamed_share_pages [] "session" (.ofList (List.replicate 1 greeting)) .null
    none someToken someShareId someTime (.ok ()) (.ok ())
  obtain ⟨c, pages, hbegin, -, hcount, hsizes, hread⟩ := hall created hcreated
  have hone : created.messageCount = 1 := by
    rw [h.answer, h.count, hlength]
  have hforever : created.expiresAt = none := by
    rw [h.answer]
    exact (Except.ok.inj h.expiry).symm
  have hlive : (greetings 1).1.revocations = [] := congrArg Store.revocations h.left
  cases pages with
  | nil => rw [hone] at hcount; cases hcount
  | cons page rest =>
      refine ⟨created, c, page, (page :: rest).length, hcreated, hone, hbegin, ?_, ?_⟩
      · exact List.length_pos_iff.mp (hsizes page List.mem_cons_self).1
      · have hpage := hread [] none morning (.inl rfl) (by decide +kernel)
          (by rw [Runs.run_nil]; exact hlive ▸ by rintro _ ⟨⟩) (by rw [hforever]; rintro _ ⟨⟩) 0 page
          rfl (Nat.zero_le _)
        rw [hone] at hpage
        exact hpage

/-- The claim for every page number fails: no page after `2 ** 31` others is read. -/
theorem last_page_unavailable :
    ¬ ∀ (_ : FloatText) (_ : Sha256) (sessionId : String) (loader : Loader) (title : Json)
      (expiresAt : Option Json) (token : Token) (shareId : ShareId) (now : Value)
      (created : Created) (c : Capture) (view : PageView),
      let result := Store.empty.createStreamedShare sessionId loader title expiresAt token shareId
        now (.ok ()) (.ok ())
      result.2 = .ok created → Capture.begin shareId.text title created.createdAt = .ok c →
      (∀ attempt ∈ loader.calls c (Sink.start Store.empty), attempt.2 = none) →
      result.1.getSnapshotPage token.text none (some 0) now.json = .ok view →
      ∀ index < view.pageCount, ∃ read,
        result.1.getSnapshotPage token.text none (some (index : Nat)) now.json = .ok read := by
  intro h
  have hpos : 0 < 100 * 2 ^ 31 + 1 := Nat.succ_pos _
  obtain ⟨created, c, view, hcreated, hbegin, hcalls, hview, hcount⟩ := greetings_pages hpos
  have hlt : 2 ^ 31 < view.pageCount := by
    rw [maxSnapshotPageMessages] at hcount
    omega
  obtain ⟨read, hread⟩ := h noFloats constantDigest "session" _ .null none someToken someShareId
    someTime created c view hcreated hbegin hcalls hview (2 ^ 31) hlt
  unfold getSnapshotPage at hread
  simp only [bind_eq_ok, require_eq_ok] at hread
  obtain ⟨_, -, _, -, _, hrange, -⟩ := hread
  exact absurd hrange (by decide)

end Example

end Store

end AgentsServer.PublicShares
