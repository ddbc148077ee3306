import AgentsServer.Library.Runs
import AgentsServer.PublicShares.Captured

/-!
# A store that only grows

Shares, pages and revocations are only added. The pages of a share are added together
with it, so a share that is there keeps its pages.
-/

namespace AgentsServer.PublicShares

open Library

namespace Store

variable (store : Store)

/-- Shares are known by their ids and by their tokens, and nothing refers to a share that is
not there. -/
structure Sound : Prop where
  tokens : (store.shares.map ShareRow.tokenHash).Nodup
  pages : ∀ p ∈ store.pages, ∃ s ∈ store.shares, s.shareId = p.shareId
  revocations : ∀ r ∈ store.revocations, ∃ s ∈ store.shares, s.shareId = r.shareId

theorem sound_empty : Store.empty.Sound where
  tokens := .nil
  pages := by rintro _ ⟨⟩
  revocations := by rintro _ ⟨⟩

/-- Only new shares have new pages. -/
structure Extends (s t : Store) : Prop where
  shares : ∀ row ∈ s.shares, row ∈ t.shares
  revocations : ∀ r ∈ s.revocations, r ∈ t.revocations
  pages : ∃ added, t.pages = s.pages ++ added ∧ ∀ p ∈ added, ∀ row ∈ s.shares, p.shareId ≠ row.shareId

variable {store} {s t u : Store}

theorem Extends.refl (s : Store) : Extends s s where
  shares := fun _ h => h
  revocations := fun _ h => h
  pages := ⟨[], (List.append_nil _).symm, by rintro _ ⟨⟩⟩

theorem Extends.trans (hst : Extends s t) (htu : Extends t u) : Extends s u where
  shares := fun row h => htu.shares row (hst.shares row h)
  revocations := fun r h => htu.revocations r (hst.revocations r h)
  pages := by
    obtain ⟨first, ht, hfirst⟩ := hst.pages
    obtain ⟨second, hu, hsecond⟩ := htu.pages
    refine ⟨first ++ second, by rw [hu, ht, List.append_assoc], ?_⟩
    intro p hp row hrow
    rcases List.mem_append.mp hp with hp | hp
    · exact hfirst p hp row hrow
    · exact hsecond p hp row (hst.shares row hrow)

/-- A share that was there keeps its pages. -/
theorem Extends.pagesOf_eq (h : Extends s t) {row : ShareRow} (hrow : row ∈ s.shares) :
    t.pagesOf row.shareId = s.pagesOf row.shareId := by
  obtain ⟨added, hpages, hfresh⟩ := h.pages
  have hnone : added.filter (fun p => p.shareId == row.shareId) = [] := by
    rw [List.filter_eq_nil_iff]
    intro p hp
    simpa using hfresh p hp row hrow
  rw [pagesOf, pagesOf, hpages, List.filter_append, hnone, List.append_nil]

/-- A new share with new pages of its own. -/
theorem Sound.insert (h : s.Sound) {row : ShareRow} {added : List PageRow}
    (htoken : ∀ old ∈ s.shares, old.tokenHash ≠ row.tokenHash)
    (hadded : ∀ p ∈ added, p.shareId = row.shareId) :
    Sound { s with shares := s.shares ++ [row], pages := s.pages ++ added } where
  tokens := by
    rw [List.map_append, List.map_singleton, List.nodup_append]
    refine ⟨h.tokens, List.nodup_singleton _, ?_⟩
    intro hash hhash hash' hhash' hsame
    obtain ⟨old, hold, rfl⟩ := List.mem_map.mp hhash
    rw [List.mem_singleton] at hhash'
    exact htoken old hold (hsame.trans hhash')
  pages := by
    intro p hp
    rcases List.mem_append.mp hp with hp | hp
    · obtain ⟨share, hshare, hsame⟩ := h.pages p hp
      exact ⟨share, List.mem_append_left _ hshare, hsame⟩
    · exact ⟨row, List.mem_append_right _ (List.mem_singleton_self row), (hadded p hp).symm⟩
  revocations := by
    intro r hr
    obtain ⟨share, hshare, hsame⟩ := h.revocations r hr
    exact ⟨share, List.mem_append_left _ hshare, hsame⟩

theorem extends_insert {row : ShareRow} {added : List PageRow}
    (hshare : ∀ old ∈ s.shares, old.shareId ≠ row.shareId)
    (hadded : ∀ p ∈ added, p.shareId = row.shareId) :
    Extends s { s with shares := s.shares ++ [row], pages := s.pages ++ added } where
  shares := fun _ hold => List.mem_append_left _ hold
  revocations := fun _ hold => hold
  pages := by
    refine ⟨added, rfl, ?_⟩
    intro p hp old hold hsame
    exact hshare old hold (hsame.symm.trans (hadded p hp))

end Store

/-! ## Creation -/

theorem timestamp_eq {value : Json} {label : String} {literal : NumLit}
    (h : timestamp value label = .ok literal) : value = .num literal ∧ isTimestamp literal = true := by
  cases value with
  | num given =>
      simp only [timestamp, bind_eq_ok, require_eq_ok, pure_eq_ok] at h
      obtain ⟨_, hrange, rfl⟩ := h
      exact ⟨rfl, hrange⟩
  | _ => cases h

theorem Store.insertShare_eq_ok {store store' : Store} {row : ShareRow}
    (h : store.insertShare row = .ok store') :
    store' = { store with shares := store.shares ++ [row] } ∧
      (∀ old ∈ store.shares, old.shareId ≠ row.shareId) ∧
      ∀ old ∈ store.shares, old.tokenHash ≠ row.tokenHash := by
  dsimp only [insertShare] at h
  rw [bind_eq_ok] at h
  obtain ⟨shares, hinsert, hstore⟩ := h
  cases hstore
  obtain ⟨⟨hallowed, hkeys⟩, rfl⟩ := Tables.insertRow_eq_some.mp ((required_eq_ok _ _ _).mp hinsert)
  simp only [Bool.and_eq_true, List.all_eq_true, bne_iff_ne] at hallowed
  exact ⟨rfl, hkeys, hallowed.1.1⟩

variable [FloatText] [Sha256]

namespace Store

variable {store store' : Store} {sessionId : String} {loader : Loader} {title : Json}
  {expiresAt : Option Json} {token : Token} {shareId : ShareId} {now : Value}
  {prepared committed : Except Failure Unit} {created : Created}

/-- What a streamed creation leaves when it returns. -/
structure Streamed (store store' : Store) (sessionId : String) (loader : Loader) (title : Json)
    (expiresAt : Option Json) (token : Token) (shareId : ShareId) (now : Value)
    (created : Created) (c : Capture) (pages : List (List Message)) (row : ShareRow) : Prop where
  began : Capture.begin shareId.text title c.createdAt = .ok c
  time : timestamp now.json "current time" = .ok c.createdAt
  expiry : checkExpiry expiresAt c.createdAt = .ok row.expiresAt
  content : pages.flatten = c.emitted loader (Sink.start store)
  fits : ∀ page ∈ pages, c.Fits page
  first : ∃ page, pages.head? = some page ∧ row.snapshotJson = c.encode page ∧
    row.snapshotSha256 = Sha256.digest (c.encode page)
  share : row.shareId = c.shareId
  tokenHash : row.tokenHash = PublicShares.tokenHash token.text
  count : row.messageCount = pages.flatten.length
  left : store' = { store with
    shares := store.shares ++ [row]
    pages := store.pages ++ c.pageRows pages }
  freshShare : ∀ old ∈ store.shares, old.shareId ≠ row.shareId
  freshToken : ∀ old ∈ store.shares, old.tokenHash ≠ row.tokenHash
  answer : created = ⟨row.shareId, sessionId, c.title, c.createdAt, row.expiresAt,
    row.messageCount, token.text⟩

/-- A capture that began is valid. -/
theorem Streamed.valid {c : Capture} {pages : List (List Message)} {row : ShareRow}
    (h : Streamed store store' sessionId loader title expiresAt token shareId now created c pages row) :
    c.Valid ∧ c.shareId = shareId.text := by
  obtain ⟨hnum, -⟩ := timestamp_eq h.time
  have hproper : (Json.num c.createdAt).Proper := hnum ▸ now.proper
  obtain ⟨hvalid, hshare, -⟩ := Capture.begin_valid hproper h.began
  exact ⟨hvalid, hshare⟩

theorem createStreamedShare_eq_ok
    (h : (store.createStreamedShare sessionId loader title expiresAt token shareId now prepared
      committed).2 = .ok created) :
    ∃ c pages row, Streamed store (store.createStreamedShare sessionId loader title expiresAt token
      shareId now prepared committed).1 sessionId loader title expiresAt token shareId now created
      c pages row := by
  obtain ⟨store', hbody, hstore⟩ := atomically_eq_ok h
  rw [createStreamedShare, hstore]
  simp only [bind_eq_ok, required_eq_ok, pure_eq_ok, Prod.mk.injEq] at hbody
  obtain ⟨_, -, createdAt, htime, expiry, hexpiry, c, hbegin, _, -, sink, hrun, sink', hflush,
    firstPage, hfirst, store'', hinsert, _, -, hcreated, rfl⟩ := hbody
  obtain ⟨hnum, -⟩ := timestamp_eq htime
  obtain ⟨hvalid, hshare, rfl⟩ := Capture.begin_valid (hnum ▸ now.proper) hbegin
  obtain ⟨hcaptured, -⟩ := Capture.run_captured hvalid loader (c.captured_start store)
  obtain ⟨done, hdone⟩ := hcaptured sink hrun
  rw [List.nil_append] at hdone
  obtain ⟨hrow, hfreshShare, hfreshToken⟩ := insertShare_eq_ok hinsert
  rcases Capture.flush_captured hvalid hdone with ⟨sink₁, pages, hok, hpages, hempty⟩ | ⟨herror, -⟩
  swap
  · rw [herror] at hflush
    cases hflush
  · rw [hok] at hflush
    cases hflush
    have hcontent : pages.flatten = c.emitted loader (Sink.start store) := by
      rw [← hpages.content, hempty, List.append_nil]
    have htotal : sink'.total = pages.flatten.length := by
      rw [hpages.total, hcontent]
    rw [hpages.first, Option.map_eq_some_iff] at hfirst
    obtain ⟨page, hpage, rfl⟩ := hfirst
    rw [hpages.store] at hrow hfreshShare hfreshToken
    refine ⟨c, pages, _, hbegin, htime, ?_, hcontent, hpages.fits, ⟨page, hpage, ?_, ?_⟩, ?_, ?_, ?_,
      hrow, hfreshShare, hfreshToken, ?_⟩
    · exact hexpiry
    · rfl
    · rfl
    · exact hshare.symm
    · rfl
    · exact htotal
    · exact hcreated.symm

variable (store) in
theorem createShare_eq {messages : Value} :
    (store.createShare sessionId messages title expiresAt token shareId now).1 = store ∨
      ∃ row, store.insertShare row = .ok
        (store.createShare sessionId messages title expiresAt token shareId now).1 := by
  rcases atomically_cases store _ with ⟨_, store', hbody, hall⟩ | ⟨e, -, hall⟩
  swap
  · exact .inl (congrArg Prod.fst hall)
  · right
    rw [createShare, hall]
    simp only [bind_eq_ok, pure_eq_ok, Prod.mk.injEq, Prod.exists] at hbody
    obtain ⟨_, -, createdAt, -, expiry, -, captured, encoded, -, store'', hinsert, -, rfl⟩ := hbody
    exact ⟨_, hinsert⟩

/-! ## Calls -/

end Store

/-- What changes a store. -/
inductive Call where
  | create (sessionId : String) (messages : Value) (title : Json) (expiresAt : Option Json)
      (token : Token) (shareId : ShareId) (now : Value)
  | stream (sessionId : String) (loader : Loader) (title : Json) (expiresAt : Option Json)
      (token : Token) (shareId : ShareId) (now : Value) (prepared committed : Except Failure Unit)
  | revoke (shareId sessionId : String) (now : Json)

namespace Store

variable (store : Store)

/-- The effect of a call, and whether it raised. -/
def call : Call → Store × Except Failure Unit
  | .create sessionId messages title expiresAt token shareId now =>
      let result := store.createShare sessionId messages title expiresAt token shareId now
      (result.1, result.2.map fun _ => ())
  | .stream sessionId loader title expiresAt token shareId now prepared committed =>
      let result := store.createStreamedShare sessionId loader title expiresAt token shareId now
        prepared committed
      (result.1, result.2.map fun _ => ())
  | .revoke shareId sessionId now =>
      let result := store.revokeShare shareId sessionId now
      (result.1, result.2.map fun _ => ())

variable {store}

omit [FloatText] in
theorem pageRows_share {c : Capture} {pages : List (List Message)} :
    ∀ p ∈ c.pageRows pages, p.shareId = c.shareId := by
  intro p hp
  obtain ⟨index, page, -, rfl⟩ := Capture.mem_pageRows hp
  rfl

omit [FloatText] [Sha256] in
variable (store) in
theorem revokeShare_eq (shareId sessionId : String) (now : Json) :
    ((store.revokeShare shareId sessionId now).1 = store ∧
        ((store.revokeShare shareId sessionId now).2 = .ok true →
          ∃ r ∈ store.revocations, r.shareId = shareId)) ∨
      ∃ row, row.shareId = shareId ∧ (∃ share ∈ store.shares, share.shareId = row.shareId) ∧
        (store.revokeShare shareId sessionId now).1 =
          { store with revocations := store.revocations ++ [row] } := by
  rcases atomically_cases store _ with ⟨answer, store', hbody, hall⟩ | ⟨e, -, hall⟩
  swap
  · rw [revokeShare, hall]
    exact .inl ⟨rfl, by rintro ⟨⟩⟩
  · rw [revokeShare, hall]
    simp only [bind_eq_ok] at hbody
    obtain ⟨_, -, hbody⟩ := hbody
    split at hbody
    swap
    · cases hbody
      exact .inl ⟨rfl, by rintro ⟨⟩⟩
    rw [bind_eq_ok] at hbody
    obtain ⟨revokedAt, -, hbody⟩ := hbody
    split at hbody
    next hthere =>
      split at hbody
      next hold =>
        cases hbody
        obtain ⟨r, hr, hsame⟩ := List.any_eq_true.mp hold
        exact .inl ⟨rfl, fun _ => ⟨r, hr, beq_iff_eq.mp hsame⟩⟩
      next =>
        cases hbody
        obtain ⟨share, hshare, hsame⟩ := List.any_eq_true.mp hthere
        rw [Bool.and_eq_true, beq_iff_eq] at hsame
        exact .inr ⟨⟨shareId, revokedAt⟩, rfl, ⟨share, hshare, hsame.1⟩, rfl⟩
    next =>
      cases hbody
      exact .inl ⟨rfl, by rintro ⟨⟩⟩

/-- A creation that raises leaves no row. -/
theorem createStreamedShare_error {e : Failure}
    (h : (store.createStreamedShare sessionId loader title expiresAt token shareId now
      prepared committed).2 = .error e) :
    (store.createStreamedShare sessionId loader title expiresAt token shareId now prepared
      committed).1 = store := by
  rcases atomically_cases store _ with ⟨answer, store', -, hall⟩ | ⟨e, -, hall⟩
  · rw [createStreamedShare, hall] at h
    cases h
  · rw [createStreamedShare, hall]

/-- Every call keeps the store sound and only adds to it. -/
theorem call_extends (h : store.Sound) (call : Call) :
    (store.call call).1.Sound ∧ Extends store (store.call call).1 := by
  cases call with
  | create sessionId messages title expiresAt token shareId now =>
      change Sound (store.createShare sessionId messages title expiresAt token shareId now).1 ∧
        Extends store (store.createShare sessionId messages title expiresAt token shareId now).1
      rcases createShare_eq store with hsame | ⟨row, hinsert⟩
      · rw [hsame]
        exact ⟨h, .refl store⟩
      · obtain ⟨hstore, hshare, htoken⟩ := insertShare_eq_ok hinsert
        have hnone : ∀ p ∈ ([] : List PageRow), p.shareId = row.shareId := by rintro _ ⟨⟩
        have hsound := h.insert htoken hnone
        have hextends := extends_insert hshare hnone
        rw [List.append_nil] at hsound hextends
        rw [hstore]
        exact ⟨hsound, hextends⟩
  | stream sessionId loader title expiresAt token shareId now prepared committed =>
      change Sound (store.createStreamedShare sessionId loader title expiresAt token shareId now
          prepared committed).1 ∧
        Extends store (store.createStreamedShare sessionId loader title expiresAt token shareId now
          prepared committed).1
      cases hresult : (store.createStreamedShare sessionId loader title expiresAt token shareId now
          prepared committed).2 with
      | ok created =>
          obtain ⟨c, pages, row, hstreamed⟩ := createStreamedShare_eq_ok hresult
          have hadded : ∀ p ∈ c.pageRows pages, p.shareId = row.shareId := by
            intro p hp
            rw [hstreamed.share]
            exact pageRows_share p hp
          rw [hstreamed.left]
          exact ⟨h.insert hstreamed.freshToken hadded,
            extends_insert hstreamed.freshShare hadded⟩
      | error e =>
          rw [createStreamedShare_error hresult]
          exact ⟨h, .refl store⟩
  | revoke shareId sessionId now =>
      change Sound (store.revokeShare shareId sessionId now).1 ∧
        Extends store (store.revokeShare shareId sessionId now).1
      rcases revokeShare_eq store shareId sessionId now with
        ⟨hsame, -⟩ | ⟨row, -, hthere, heq⟩
      · rw [hsame]
        exact ⟨h, .refl store⟩
      · rw [heq]
        refine ⟨⟨h.tokens, h.pages, ?_⟩, fun _ hold => hold,
          fun _ => List.mem_append_left _, [], (List.append_nil _).symm, ?_⟩
        · intro r hr
          rcases List.mem_append.mp hr with hr | hr
          · exact h.revocations r hr
          · rw [List.mem_singleton.mp hr]
            exact hthere
        · rintro _ ⟨⟩

theorem run_sound (h : store.Sound) (calls : List Call) : (Runs.run call store calls).Sound :=
  Runs.run_invariant (I := Sound) call (fun _ a hs => (call_extends hs a).1) store h calls

theorem run_extends (h : store.Sound) (calls : List Call) :
    Extends store (Runs.run call store calls) :=
  Runs.run_related call (fun _ a hs => (call_extends hs a).1) Extends.refl
    (fun _ _ _ => Extends.trans) (fun _ a hs => (call_extends hs a).2) store h calls

end Store

end AgentsServer.PublicShares
