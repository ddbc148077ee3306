import AgentsServer.PublicShares.Viewer

/-!
# Stored pages are shown

Every page of a share that a store holds passes the checks of the renderer. The
one thing left that it can refuse is the size of the page that it built: the
limit on what is stored counts the encoding, and markup can be much longer.
-/

namespace AgentsServer.PublicShares

open Library Html

section Stored

variable [FloatText] [Sha256]

namespace Store

variable {store store' : Store} {row : ShareRow} {c : Capture} {pages : List (List Message)}

/-- What stands in the row of a page. -/
def storedPage (store : Store) (row : ShareRow) (index : Nat) : Option (Bytes × Bytes) :=
  if index = 0 then some (row.snapshotJson, row.snapshotSha256)
  else ((store.pagesOf row.shareId).find? fun p => p.pageIndex == index).map fun found =>
    (found.snapshotJson, found.snapshotSha256)

/-- The pages of one share as they are stored. -/
structure Stored (store : Store) (row : ShareRow) (c : Capture) (pages : List (List Message)) :
    Prop where
  valid : c.Valid
  sized : ∀ page ∈ pages, c.Sized page
  first : ∃ page, pages.head? = some page ∧ row.snapshotJson = c.encode page ∧
    row.snapshotSha256 = Sha256.digest (c.encode page)
  count : row.messageCount = pages.flatten.length
  later : store.pagesOf row.shareId = c.pageRows pages

theorem Stored.extends (h : Stored store row c pages) (hext : Extends store store')
    (hrow : row ∈ store.shares) : Stored store' row c pages :=
  { h with later := (hext.pagesOf_eq hrow).trans h.later }

omit [FloatText] [Sha256] in
/-- A share of which no page has been stored before. -/
theorem pagesOf_fresh (hs : store.Sound) {shareId : String}
    (fresh : ∀ old ∈ store.shares, old.shareId ≠ shareId) : store.pagesOf shareId = [] := by
  rw [pagesOf, List.filter_eq_nil_iff]
  intro p hp hsame
  obtain ⟨share, hshare, hid⟩ := hs.pages p hp
  exact fresh share hshare (hid.trans (beq_iff_eq.mp hsame))

/-- What a creation of one page leaves. -/
theorem createShare_stored (hs : store.Sound) (sessionId : String) (messages : Value) (title : Json)
    (expiresAt : Option Json) (token : Token) (shareId : ShareId) (now : Value) :
    ∀ row ∈ (store.createShare sessionId messages title expiresAt token shareId now).1.shares,
      row ∈ store.shares ∨ ∃ c pages, Stored
        (store.createShare sessionId messages title expiresAt token shareId now).1 row c pages := by
  rcases atomically_cases store _ with ⟨answer, store', hbody, hall⟩ | ⟨e, -, hall⟩
  swap
  · rw [createShare, hall]
    exact fun row hrow => .inl hrow
  · rw [createShare, hall]
    simp only [bind_eq_ok, pure_eq_ok, Prod.mk.injEq, Prod.exists] at hbody
    obtain ⟨_, -, createdAt, htime, expiry, -, captured, encoded, hsnapshot, left, hinsert, -, rfl⟩ :=
      hbody
    obtain ⟨hleft, hfresh, -⟩ := insertShare_eq_ok hinsert
    obtain ⟨hnum, -⟩ := timestamp_eq htime
    have hproper : (Json.num createdAt).Proper := hnum ▸ now.proper
    obtain ⟨hvalid, hsized, rfl⟩ :=
      Capture.snapshot_eq_ok messages.proper hproper shareId.text hsnapshot
    intro row hrow
    rw [hleft] at hrow ⊢
    rcases List.mem_append.mp hrow with hrow | hrow
    · exact .inl hrow
    · rw [List.mem_singleton.mp hrow]
      refine .inr ⟨_, [captured.messages], hvalid, ?_, ⟨captured.messages, rfl, rfl, rfl⟩, ?_, ?_⟩
      · exact List.forall_mem_singleton.mpr hsized
      · rw [List.flatten_singleton]
      · exact pagesOf_fresh hs hfresh

theorem call_create (sessionId : String) (messages : Value) (title : Json) (expiresAt : Option Json)
    (token : Token) (shareId : ShareId) (now : Value) :
    (store.call (.create sessionId messages title expiresAt token shareId now)).1 =
      (store.createShare sessionId messages title expiresAt token shareId now).1 := rfl

/-- A page within the limits is created, where its id and token are new. -/
theorem createShare_returns {messages : List Message} {value : Value} {sessionId : String}
    {expiresAt : Option Json} {expiry : Option NumLit} {now : Value} (hv : c.Valid)
    (h : c.Sized messages) (hvalue : value.json = .arr (messages.map Message.json))
    (hsession : checkSessionId sessionId = .ok ())
    (htime : timestamp now.json "current time" = .ok c.createdAt)
    (hexpiry : checkExpiry expiresAt c.createdAt = .ok expiry) (token : Token) (shareId : ShareId)
    (hshare : ∀ old ∈ store.shares, old.shareId ≠ shareId.text)
    (htoken : ∀ old ∈ store.shares, old.tokenHash ≠ tokenHash token.text) :
    ∃ row : ShareRow, row.messageCount = messages.length ∧ row.snapshotJson = c.encode messages ∧
      row.snapshotSha256 = Sha256.digest (c.encode messages) ∧
      (store.createShare sessionId value (.str c.title) expiresAt token shareId now).1 =
        { store with shares := store.shares ++ [row] } := by
  have captured := Capture.snapshot_sized hv h
  have short : (c.encode messages).length ≤ maxSnapshotBytes := by
    rw [Capture.encode, length_snapshot]
    exact h.size
  let row : ShareRow := ⟨shareId.text, sessionId, tokenHash token.text, c.title, c.createdAt, expiry,
    messages.length, c.encode messages, Sha256.digest (c.encode messages)⟩
  have inserted : store.insertShare row = .ok { store with shares := store.shares ++ [row] } :=
    insertShare_fresh hshare htoken (List.length_pos_iff.mpr h.nonempty) short
  refine ⟨row, rfl, rfl, rfl, ?_⟩
  rw [createShare, hsession, ok_bind, htime, ok_bind, hexpiry, ok_bind, hvalue, captured, ok_bind]
  change (atomically store (store.insertShare row >>= _)).1 = _
  rw [inserted]
  rfl

/-- What a streamed creation leaves. -/
theorem createStreamedShare_stored (hs : store.Sound) (sessionId : String) (loader : Loader)
    (title : Json) (expiresAt : Option Json) (token : Token) (shareId : ShareId) (now : Value)
    (prepared committed : Except Failure Unit) :
    ∀ row ∈ (store.createStreamedShare sessionId loader title expiresAt token shareId now prepared
        committed).1.shares,
      row ∈ store.shares ∨ ∃ c pages, Stored (store.createStreamedShare sessionId loader title
        expiresAt token shareId now prepared committed).1 row c pages := by
  intro row hrow
  cases hresult : (store.createStreamedShare sessionId loader title expiresAt token shareId now
      prepared committed).2 with
  | error e =>
      rw [createStreamedShare_error hresult] at hrow
      exact .inl hrow
  | ok created =>
      obtain ⟨c, pages, added, h⟩ := createStreamedShare_eq_ok hresult
      rw [h.left] at hrow
      rcases List.mem_append.mp hrow with hrow | hrow
      · exact .inl hrow
      · rw [List.mem_singleton.mp hrow]
        refine .inr ⟨c, pages, h.valid.1, fun page hpage => (h.fits page hpage).sized, h.first,
          h.count, h.pagesOf_eq hs⟩

/-- All shares of a store are stored with their pages. -/
structure Kept (store : Store) : Prop where
  sound : store.Sound
  stored : ∀ row ∈ store.shares, ∃ c pages, Stored store row c pages

theorem kept_empty : Kept .empty where
  sound := sound_empty
  stored := List.forall_mem_nil _

theorem Kept.call (h : Kept store) (call : Call) : Kept (store.call call).1 := by
  obtain ⟨sound, hext⟩ := call_extends h.sound call
  refine ⟨sound, fun row hrow => ?_⟩
  have hnew : row ∈ store.shares ∨ ∃ c pages, Stored (store.call call).1 row c pages := by
    cases call with
    | create sessionId messages title expiresAt token shareId now =>
        exact createShare_stored h.sound _ _ _ _ _ _ _ row hrow
    | stream sessionId loader title expiresAt token shareId now prepared committed =>
        exact createStreamedShare_stored h.sound _ _ _ _ _ _ _ _ _ row hrow
    | revoke shareId sessionId now =>
        rcases revokeShare_eq store shareId sessionId now with ⟨hsame, -⟩ | ⟨revoked, -, -, heq⟩
        · change row ∈ (store.revokeShare shareId sessionId now).1.shares at hrow
          rw [hsame] at hrow
          exact .inl hrow
        · change row ∈ (store.revokeShare shareId sessionId now).1.shares at hrow
          rw [heq] at hrow
          exact .inl hrow
  rcases hnew with hold | hnew
  · obtain ⟨c, pages, hstored⟩ := h.stored row hold
    exact ⟨c, pages, hstored.extends hext hold⟩
  · exact hnew

theorem run_kept (calls : List Call) : Kept (Runs.run call Store.empty calls) :=
  Runs.run_invariant (I := Kept) call (fun _ a h => h.call a) _ kept_empty calls

/-- Each page of a stored share is found and passes its checks. -/
theorem Stored.page (h : Stored store row c pages) {index : Nat}
    (hindex : index < 1 + (store.pagesOf row.shareId).length) :
    ∃ page ∈ pages, store.storedPage row index = some (c.encode page, Sha256.digest (c.encode page)) ∧
      readPage (c.encode page) (Sha256.digest (c.encode page)) = .ok (c.pageOf page) := by
  obtain ⟨first, hfirst, hencoded, hdigest⟩ := h.first
  have hread : ∀ page ∈ pages,
      readPage (c.encode page) (Sha256.digest (c.encode page)) = .ok (c.pageOf page) :=
    fun page hpage => Capture.readPage_sized h.valid (h.sized page hpage)
  have hmem : first ∈ pages := List.mem_of_mem_head? hfirst
  cases index with
  | zero =>
      refine ⟨first, hmem, ?_, hread first hmem⟩
      rw [storedPage, if_pos rfl, hencoded, hdigest]
  | succ index =>
      have hlt : index + 1 < pages.length := by
        rw [h.later, Capture.length_pageRows] at hindex
        omega
      have hpage : pages[index + 1]? = some pages[index + 1] := List.getElem?_eq_getElem hlt
      refine ⟨pages[index + 1], List.getElem_mem hlt, ?_, hread _ (List.getElem_mem hlt)⟩
      rw [storedPage, if_neg (Nat.succ_ne_zero index), h.later, find_pageRows hpage]
      rfl

end Store

variable [Datetime] (style : String)

omit [Sha256] in
/-- The renderer's checks pass for a page within the limit of its bytes: only the size of the page
that it built is left. -/
theorem render_sized {c : Capture} {messages : List Message} (hv : c.Valid)
    (h : c.Sized messages) {index pageCount count : Nat} (hindex : index < pageCount)
    (hcount : messages.length ≤ count) {base : String} (hbase : isNavigationBase base = true) :
    renderPublicChatHtml style (c.pageOf messages).json index pageCount (some (count : Int))
        (some base) =
      let rendered := utf8 (pageHtml style (c.pageOf messages) index pageCount count (some base))
      if rendered.length ≤ maxRenderBytes then .ok rendered else .error renderTooLarge := by
  have hsnapshot := Capture.snapshot_sized hv h
  have hrange : (0 : Int) ≤ index ∧ (index : Int) < pageCount ∧
      (some (count : Int)).all
        (fun count => decide (((c.pageOf messages).messages.length : Int) ≤ count)) = true := by
    refine ⟨Int.natCast_nonneg index, Int.ofNat_lt.mpr hindex, ?_⟩
    exact decide_eq_true (Int.ofNat_le.mpr hcount)
  have hbase' : (some base).all isNavigationBase = true := hbase
  have hfields : (c.pageOf messages).json.obj? = some [("title", .str c.title),
      ("created_at", .num c.createdAt), ("messages", .arr (messages.map Message.json))] := rfl
  have hkeys : Json.hasKeys ["title", "created_at", "messages"] [("title", .str c.title),
      ("created_at", .num c.createdAt), ("messages", .arr (messages.map Message.json))] = true := rfl
  unfold renderPublicChatHtml
  dsimp only
  rw [hfields, required, ok_bind, require_bind hkeys]
  change (snapshot (.arr (messages.map Message.json)) (.str c.title) (.num c.createdAt) >>= _) = _
  rw [hsnapshot, ok_bind]
  dsimp only
  rw [require_bind hrange, require_bind hbase']
  change (require ((utf8 (pageHtml style (c.pageOf messages) index pageCount count
    (some base))).length ≤ maxRenderBytes) renderTooLarge >>= _) = _
  by_cases small : (utf8 (pageHtml style (c.pageOf messages) index pageCount count
      (some base))).length ≤ maxRenderBytes
  · rw [if_pos small]
    exact require_bind small _ _
  · rw [if_neg small, require, if_neg small]
    rfl

/-- Every page of every share that was stored, in every run of the store, passes the renderer's
checks for any navigation base of the viewer; what the renderer refuses is only a page of more than
`MAX_RENDER_BYTES` that it built. -/
theorem stored_page_rendered (calls : List Call) :
    let store := Runs.run Store.call Store.empty calls
    ∀ row ∈ store.shares, ∀ pageCount, pageCount = 1 + (store.pagesOf row.shareId).length →
      ∀ index < pageCount, ∃ encoded digest captured,
        store.storedPage row index = some (encoded, digest) ∧
        Store.readPage encoded digest = .ok captured ∧
        ∀ base, isNavigationBase base = true →
          renderPublicChatHtml style captured.json index pageCount (some (row.messageCount : Int))
              (some base) =
            let rendered :=
              utf8 (pageHtml style captured index pageCount row.messageCount (some base))
            if rendered.length ≤ maxRenderBytes then .ok rendered else .error renderTooLarge := by
  intro store row hrow pageCount hpageCount index hindex
  obtain ⟨c, pages, h⟩ := (Store.run_kept calls).stored row hrow
  obtain ⟨page, hpage, hstored, hread⟩ := h.page (hpageCount ▸ hindex)
  refine ⟨c.encode page, Sha256.digest (c.encode page), c.pageOf page, hstored, hread, ?_⟩
  intro base hbase
  have hcount : page.length ≤ row.messageCount := by
    rw [h.count, List.length_flatten]
    exact List.single_le_sum (fun _ _ => Nat.zero_le _) _ (List.mem_map_of_mem hpage)
  exact render_sized style h.valid (h.sized page hpage) hindex hcount hbase

end Stored

/-! ## Tables without rows

The columns of a table take many times the bytes of the lines that spell them.
-/

section Tables

/-- A table of two columns without a row, and a blank line. -/
def emptyTable : List Char := "a|a\n---|---\n\n".toList

def emptyTables (n : Nat) : List Char := (List.replicate n emptyTable).flatten

def emptyTableHtml : List Char := renderTable [['a'], ['a']] []

theorem renderInlineText_letter : renderInlineText ['a'] = ['a'] := by
  have nothing : renderInlineText [] = [] := by
    rw [renderInlineText]
    rfl
  rw [renderInlineText_plain (by rfl), nothing]
  rfl

theorem length_emptyTableHtml : emptyTableHtml.length = 187 := by
  unfold emptyTableHtml renderTable
  simp only [List.flatMap_cons, List.flatMap_nil, renderInlineText_letter]
  decide +kernel

theorem splitlines_emptyTables (n : Nat) : splitlines (emptyTables n) =
    (List.replicate n [['a', '|', 'a'], ['-', '-', '-', '|', '-', '-', '-'], []]).flatten := by
  induction n with
  | zero => rfl
  | succ n ih =>
      rw [emptyTables, List.replicate_succ, List.flatten_cons, ← emptyTables, List.replicate_succ,
        List.flatten_cons, ← ih]
      rfl

theorem renderLines_emptyTables (n : Nat) :
    renderLines [] (List.replicate n
        [['a', '|', 'a'], ['-', '-', '-', '|', '-', '-', '-'], []]).flatten =
      (List.replicate n emptyTableHtml).flatten := by
  induction n with
  | zero =>
      rw [List.replicate_zero, List.flatten_nil, renderLines]
      rfl
  | succ n ih =>
      rw [List.replicate_succ, List.flatten_cons, List.replicate_succ, List.flatten_cons, ← ih,
        List.cons_append, renderLines]
      have table : step [] ['a', '|', 'a'] ([['-', '-', '-', '|', '-', '-', '-'], []] ++
          (List.replicate n [['a', '|', 'a'], ['-', '-', '-', '|', '-', '-', '-'], []]).flatten) =
            { output := emptyTableHtml
              paragraph := []
              rest := [] :: (List.replicate n
                [['a', '|', 'a'], ['-', '-', '-', '|', '-', '-', '-'], []]).flatten } := rfl
      rw [table]
      dsimp only
      rw [renderLines]
      rfl

theorem utf8Size_emptyTables (f : Char → List Char) (n : Nat) :
    Json.utf8Size ((emptyTables n).flatMap f) = n * Json.utf8Size (emptyTable.flatMap f) := by
  induction n with
  | zero => rw [Nat.zero_mul]; rfl
  | succ n ih =>
      rw [emptyTables, List.replicate_succ, List.flatten_cons, ← emptyTables, List.flatMap_append,
        Json.utf8Size_append, ih, Nat.succ_mul, Nat.add_comm]

theorem length_emptyTables (n : Nat) : (emptyTables n).length = n * 13 := by
  rw [emptyTables, List.length_flatten, List.map_replicate, List.sum_replicate]
  rfl

/-- A message of an assistant with so many tables. -/
def tablesMessage (n : Nat) : Message :=
  ⟨"assistant", String.ofList (emptyTables n), [], none⟩

theorem size_tablesMessage (n : Nat) : (tablesMessage n).size = 16 * n + 30 := by
  have quoted : Json.utf8Size (Json.quote Json.escape (String.ofList (emptyTables n))) =
      16 * n + 2 := by
    rw [Json.quote, Json.utf8Size_cons, Json.utf8Size_append, String.toList_ofList,
      utf8Size_emptyTables]
    have unit : Json.utf8Size (emptyTable.flatMap Json.escape) = 16 := by decide
    have mark : '"'.utf8Size = 1 := by decide
    rw [unit, mark, Json.utf8Size_cons, Json.utf8Size_nil, mark]
    omega
  have role : Json.fieldSize Json.escape ("role", .str "assistant") = 19 := by decide
  have key : Json.utf8Size (Json.quote Json.escape "text") = 6 := by decide
  rw [Message.size, length_dumps, Message.json, Json.size_obj]
  change 1 + (Json.fieldSize Json.escape ("role", .str "assistant") +
    (2 + Json.utf8Size (Json.quote Json.escape "text") +
      Json.utf8Size (Json.quote Json.escape (String.ofList (emptyTables n))) + 0)) = _
  rw [role, key, quoted]
  omega

theorem pageSize_tables (count n : Nat) :
    pageSize (List.replicate count (tablesMessage n)) = count * (16 * n + 30) + (count - 1) := by
  rw [pageSize, List.map_replicate, List.sum_replicate, List.length_replicate, size_tablesMessage,
    nsmul_eq_mul, Nat.cast_id]

theorem length_content (n : Nat) : (contentHtml (tablesMessage n)).length = n * 187 := by
  have html : contentHtml (tablesMessage n) = renderMessageMarkdown (emptyTables n) := by
    have assistant : ¬isUser (tablesMessage n) = true := Bool.false_ne_true
    rw [contentHtml, if_neg assistant, tablesMessage, String.toList_ofList]
  rw [html, renderMessageMarkdown, splitlines_emptyTables, renderLines_emptyTables,
    List.length_flatten, List.map_replicate, List.sum_replicate, length_emptyTableHtml, nsmul_eq_mul,
    Nat.cast_id]

theorem length_messageHtml [Datetime] (base : Option String) (page index n : Nat) :
    n * 187 ≤ (messageHtml base page index (tablesMessage n)).length := by
  rw [← length_content, messageHtml]
  simp only [List.length_append]
  omega

/-- Every table is in the page. -/
theorem length_pageHtml [Datetime] (style : String) (c : Capture) (messages n page pageCount count : Nat)
    (base : Option String) :
    messages * (n * 187) ≤ (utf8 (pageHtml style
      (c.pageOf (List.replicate messages (tablesMessage n))) page pageCount count base)).length := by
  have bytes : ∀ cs : List Char, cs.length ≤ (utf8 cs).length := by
    intro cs
    rw [Json.length_utf8]
    induction cs with
    | nil => exact Nat.le_refl 0
    | cons c cs ih =>
        rw [Json.utf8Size_cons, List.length_cons]
        have positive := c.utf8Size_pos
        omega
  have all : ∀ entries : List (Message × Nat), (∀ entry ∈ entries, entry.1 = tablesMessage n) →
      entries.length * (n * 187) ≤
        (entries.flatMap fun entry => messageHtml base page entry.2 entry.1).length := by
    intro entries hentries
    induction entries with
    | nil =>
        rw [List.length_nil, Nat.zero_mul]
        exact Nat.zero_le _
    | cons entry rest ih =>
        have tail := ih fun other hother => hentries other (List.mem_cons_of_mem entry hother)
        have head := length_messageHtml base page entry.2 n
        rw [← hentries entry List.mem_cons_self] at head
        rw [List.flatMap_cons, List.length_append, List.length_cons, Nat.succ_mul, Nat.add_comm]
        exact Nat.add_le_add head tail
  refine le_trans ?_ (bytes _)
  have entries := all (List.replicate messages (tablesMessage n)).zipIdx fun entry hentry =>
    List.eq_of_mem_replicate (List.fst_mem_of_mem_zipIdx hentry)
  rw [List.length_zipIdx, List.length_replicate] at entries
  rw [pageHtml, List.length_append, List.length_append, Capture.pageOf]
  dsimp only
  omega

theorem tablesMessage_checked [FloatText] {n : Nat} (h : n * 13 ≤ maxMessageTextBytes) :
    (tablesMessage n).Checked where
  role := Or.inr rfl
  text := by
    have letters : (String.ofList (emptyTables n)).length = n * 13 := by
      rw [String.length_ofList, length_emptyTables]
    have unit : Json.utf8Size (emptyTable.flatMap fun c => [c]) = 13 := by decide
    have bytes : (utf8 (emptyTables n)).length = n * 13 := by
      rw [Json.length_utf8, ← unit, ← utf8Size_emptyTables, List.flatMap_singleton']
    rw [tablesMessage, String.toList_ofList, letters, bytes]
    exact ⟨h, h⟩
  videos := ⟨Nat.zero_le 32, rfl⟩
  timestamp := by
    intro seconds hseconds
    cases hseconds
  proper := by
    refine .obj (by simp [Message.fields, tablesMessage]) ?_
    intro field hfield
    have fields : (tablesMessage n).fields =
        [("role", .str "assistant"), ("text", .str (String.ofList (emptyTables n)))] := rfl
    rw [fields] at hfield
    simp only [List.mem_cons, List.not_mem_nil, or_false] at hfield
    rcases hfield with rfl | rfl
    · exact .str _
    · exact .str _

end Tables

section Example

attribute [local instance] Store.constantDigest Store.noFloats

@[reducible] def wholeSeconds : Datetime where
  microseconds literal := (literal.value?.map fun seconds => seconds.num.toNat * 1000000).getD 0
  microseconds_int := by
    intro literal n h
    rw [h]
    simp

attribute [local instance] wholeSeconds

def oversizedCapture : Capture :=
  ⟨Store.someShareId.text, defaultTitle, Store.morning⟩

def oversizedMessages : List Message :=
  List.replicate 6 (tablesMessage 20000)

theorem oversizedCapture_valid : oversizedCapture.Valid where
  title := by decide
  titleBytes := by decide
  created := by decide +kernel
  proper := .num (by decide)

theorem oversizedMessages_sized : oversizedCapture.Sized oversizedMessages where
  nonempty := List.cons_ne_nil _ _
  checked := by
    intro m hm
    rw [List.eq_of_mem_replicate hm]
    exact tablesMessage_checked (by decide)
  size := by
    have overhead : overhead oversizedCapture.title oversizedCapture.createdAt ≤ 1000 := by
      decide
    have messages : pageSize oversizedMessages ≤ 2000000 := by
      rw [oversizedMessages, pageSize_tables]
      decide
    exact (Nat.add_le_add overhead messages).trans (by decide)

/-- Six messages of such tables are stored as one page. -/
def oversizedValue : Value where
  json := .arr (oversizedMessages.map Message.json)
  proper := by
    refine .arr fun item hitem => ?_
    obtain ⟨m, hm, rfl⟩ := List.mem_map.mp hitem
    exact (oversizedMessages_sized.checked m hm).proper

def oversizedCall : Call :=
  .create "session" oversizedValue (.str oversizedCapture.title) none Store.someToken
    Store.someShareId Store.someTime

theorem oversized_stored : ∃ row, row.messageCount = oversizedMessages.length ∧
    row.snapshotJson = oversizedCapture.encode oversizedMessages ∧
    row.snapshotSha256 = Sha256.digest (oversizedCapture.encode oversizedMessages) ∧
    Runs.run Store.call Store.empty [oversizedCall] = { Store.empty with shares := [row] } := by
  have session : checkSessionId "session" = .ok () := by decide
  have time : timestamp Store.someTime.json "current time" = .ok oversizedCapture.createdAt :=
    timestamp_eq_ok (by decide +kernel) _
  have noExpiry : checkExpiry none oversizedCapture.createdAt = .ok none := rfl
  have encodes : oversizedValue.json = .arr (oversizedMessages.map Message.json) := rfl
  have noShares : ∀ old ∈ Store.empty.shares, old.shareId ≠ Store.someShareId.text :=
    List.forall_mem_nil _
  have noTokens : ∀ old ∈ Store.empty.shares, old.tokenHash ≠ tokenHash Store.someToken.text :=
    List.forall_mem_nil _
  obtain ⟨row, hcount, hjson, hdigest, hcreated⟩ :=
    Store.createShare_returns oversizedCapture_valid oversizedMessages_sized encodes session time
      noExpiry Store.someToken Store.someShareId noShares noTokens
  refine ⟨row, hcount, hjson, hdigest, ?_⟩
  rw [Runs.run_cons, Runs.run_nil, oversizedCall, Store.call_create]
  exact hcreated

theorem someBase_navigation :
    isNavigationBase ("/share/" ++ String.ofList (List.replicate 43 'A')) = true := by
  decide

theorem oversized_html (style : String) (page pageCount count : Nat) (base : Option String) :
    maxRenderBytes < (utf8 (pageHtml style (oversizedCapture.pageOf oversizedMessages) page pageCount
      count base)).length :=
  lt_of_lt_of_le (by decide) (length_pageHtml style oversizedCapture 6 20000 page pageCount count base)

theorem stored_page_rendered_tables : ∃ (row : ShareRow) (captured : Snapshot),
    Store.readPage row.snapshotJson row.snapshotSha256 = .ok captured ∧
    renderPublicChatHtml "" captured.json 0 1 (some (row.messageCount : Int))
        (some ("/share/" ++ String.ofList (List.replicate 43 'A'))) =
      let rendered := utf8 (pageHtml "" captured 0 1 row.messageCount
        (some ("/share/" ++ String.ofList (List.replicate 43 'A'))))
      if rendered.length ≤ maxRenderBytes then .ok rendered else .error renderTooLarge := by
  obtain ⟨row, -, -, -, hrun⟩ := oversized_stored
  have shown := stored_page_rendered "" [oversizedCall]
  rw [hrun] at shown
  obtain ⟨encoded, digest, captured, hstored, hread, hrendered⟩ :=
    shown row (List.mem_singleton_self row) 1 rfl 0 Nat.one_pos
  cases hstored
  exact ⟨row, captured, hread, hrendered _ someBase_navigation⟩

/-- A run stores a page that the renderer refuses. -/
theorem not_every_page_rendered : ¬ ∀ (_ : FloatText) (_ : Sha256) (_ : Datetime) (style : String)
    (calls : List Call),
    let store := Runs.run Store.call Store.empty calls
    ∀ row ∈ store.shares, ∀ pageCount, pageCount = 1 + (store.pagesOf row.shareId).length →
      ∀ index < pageCount, ∀ encoded digest captured,
        store.storedPage row index = some (encoded, digest) →
        Store.readPage encoded digest = .ok captured →
        ∀ base, isNavigationBase base = true → ∃ html,
          renderPublicChatHtml style captured.json index pageCount (some (row.messageCount : Int))
            (some base) = .ok html := by
  intro h
  obtain ⟨row, hcount, hjson, hdigest, hrun⟩ := oversized_stored
  have shown := h Store.noFloats Store.constantDigest wholeSeconds "" [oversizedCall]
  rw [hrun] at shown
  have read : Store.readPage row.snapshotJson row.snapshotSha256 =
      .ok (oversizedCapture.pageOf oversizedMessages) := by
    rw [hjson, hdigest]
    exact Capture.readPage_sized oversizedCapture_valid oversizedMessages_sized
  obtain ⟨html, hhtml⟩ := shown row (List.mem_singleton_self row) 1 rfl 0 Nat.one_pos _ _ _ rfl read
    _ someBase_navigation
  have rendered := @render_sized _ _ "" _ _ oversizedCapture_valid oversizedMessages_sized 0 _ _
    Nat.one_pos (le_of_eq hcount.symm) _ someBase_navigation
  dsimp only at rendered
  rw [if_neg (Nat.not_le.mpr (oversized_html _ _ _ _ _))] at rendered
  have clash := hhtml.symm.trans rendered
  cases clash

end Example

end AgentsServer.PublicShares
