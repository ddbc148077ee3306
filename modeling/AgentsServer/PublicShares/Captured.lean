import AgentsServer.PublicShares.Pages

/-!
# Pages captured from a loader

While messages are emitted, the pages already written and the page in memory together
hold what was emitted so far.
-/

namespace AgentsServer.PublicShares

open Library

namespace Capture

variable (c : Capture)

/-- The stored bytes of a page. -/
def encode (messages : List Message) : Bytes := Json.dumps (c.pageOf messages).json

theorem encode_length [FloatText] {c : Capture} {messages : List Message} (h : c.Fits messages) :
    (c.encode messages).length ≤ maxSnapshotBytes := by
  rw [encode, length_snapshot]
  exact h.size

variable [Sha256]

def pageRow (messages : List Message) (index : Nat) : PageRow :=
  ⟨c.shareId, index, c.encode messages, Sha256.digest (c.encode messages)⟩

/-- The rows of the pages after the first. -/
def pageRows (pages : List (List Message)) : List PageRow :=
  (pages.zipIdx.map fun p => c.pageRow p.1 p.2).tail

variable {c} {done : List (List Message)}

theorem pageRows_append {page : List Message} (h : done ≠ []) :
    c.pageRows (done ++ [page]) = c.pageRows done ++ [c.pageRow page done.length] := by
  obtain ⟨first, rest, rfl⟩ := List.exists_cons_of_ne_nil h
  simp [pageRows, List.zipIdx_append, List.zipIdx_cons, Nat.add_comm]

theorem length_pageRows : (c.pageRows done).length = done.length - 1 := by
  simp [pageRows]

theorem getElem?_pageRows (index : Nat) :
    (c.pageRows done)[index]? = (done[index + 1]?).map fun page => c.pageRow page (index + 1) := by
  rw [pageRows, List.getElem?_tail, List.getElem?_map, List.getElem?_zipIdx]
  cases done[index + 1]? <;> simp

theorem mem_pageRows {row : PageRow} (h : row ∈ c.pageRows done) :
    ∃ index page, done[index + 1]? = some page ∧ row = c.pageRow page (index + 1) := by
  obtain ⟨index, hrow⟩ := List.mem_iff_getElem?.mp h
  rw [getElem?_pageRows, Option.map_eq_some_iff] at hrow
  obtain ⟨page, hpage, rfl⟩ := hrow
  exact ⟨index, page, hpage, rfl⟩

variable [FloatText] (c)

/-- The pages `done` are written, and the rest of the messages is in memory. -/
structure Captured (base : Store) (messages : List Message) (done : List (List Message))
    (sink : Sink) : Prop where
  content : done.flatten ++ sink.page = messages
  total : sink.total = messages.length
  index : sink.pageIndex = done.length
  first : sink.firstPage = done.head?.map c.encode
  store : sink.store = { base with pages := base.pages ++ c.pageRows done }
  fits : ∀ page ∈ done, c.Fits page
  page : sink.page = [] ∨ c.Fits sink.page
  bytes : sink.pageBytes = (sink.page.map Message.size).sum

theorem captured_start (base : Store) : c.Captured base [] [] (Sink.start base) where
  content := rfl
  total := rfl
  index := rfl
  first := rfl
  store := by simp [Sink.start, pageRows]
  fits := by simp
  page := .inl rfl
  bytes := rfl

variable {c} {base : Store} {messages : List Message} {sink sink' : Sink}

/-- The page in memory becomes a written page. -/
theorem Captured.written (h : c.Captured base messages done sink) (hfits : c.Fits sink.page)
    (first : sink'.firstPage = (done ++ [sink.page]).head?.map c.encode)
    (store : sink'.store = { base with pages := base.pages ++ c.pageRows (done ++ [sink.page]) })
    (index : sink'.pageIndex = sink.pageIndex + 1) (total : sink'.total = sink.total)
    (page : sink'.page = []) (bytes : sink'.pageBytes = 0) :
    c.Captured base messages (done ++ [sink.page]) sink' where
  content := by
    rw [page, List.append_nil, List.flatten_append, List.flatten_singleton]
    exact h.content
  total := total.trans h.total
  index := by rw [index, h.index, List.length_append, List.length_singleton]
  first := first
  store := store
  fits := by
    intro messages hmem
    rcases List.mem_append.mp hmem with hmem | hmem
    · exact h.fits messages hmem
    · rw [List.mem_singleton.mp hmem]
      exact hfits
  page := .inl page
  bytes := by rw [bytes, page]; rfl

/-- A later page can be refused only by the row of a page with the same key. -/
theorem insertPage_captured (h : c.Captured base messages done sink) (hdone : done ≠ [])
    (hfits : c.Fits sink.page) :
    sink.store.insertPage (c.pageRow sink.page sink.pageIndex) =
        .ok { base with pages := base.pages ++ c.pageRows (done ++ [sink.page]) } ∨
      sink.store.insertPage (c.pageRow sink.page sink.pageIndex) = .error .integrityError ∧
        ∃ row ∈ base.pages, row.shareId = c.shareId := by
  have hindex : 1 ≤ sink.pageIndex := by
    rw [h.index]
    exact List.length_pos_iff.mpr hdone
  by_cases hclash : ∃ row ∈ base.pages, row.shareId = c.shareId ∧ row.pageIndex = sink.pageIndex
  · right
    obtain ⟨row, hrow, hshare, hkey⟩ := hclash
    refine ⟨?_, row, hrow, hshare⟩
    have hnone : Tables.insertRow (fun r : PageRow => (r.shareId, r.pageIndex))
        (fun row => decide (1 ≤ row.pageIndex) && decide (row.snapshotJson.length ≤ 2097152))
        (c.pageRow sink.page sink.pageIndex) sink.store.pages = none := by
      rw [Option.eq_none_iff_forall_ne_some]
      intro rows hrows
      refine (Tables.insertRow_eq_some.mp hrows).1.2 row ?_ (Prod.ext hshare hkey)
      rw [h.store]
      exact List.mem_append_left _ hrow
    dsimp only [Store.insertPage]
    rw [hnone]
    rfl
  · left
    have hsome : Tables.insertRow (fun r : PageRow => (r.shareId, r.pageIndex))
        (fun row => decide (1 ≤ row.pageIndex) && decide (row.snapshotJson.length ≤ 2097152))
        (c.pageRow sink.page sink.pageIndex) sink.store.pages =
          some (sink.store.pages ++ [c.pageRow sink.page sink.pageIndex]) := by
      refine Tables.insertRow_eq_some.mpr ⟨⟨?_, ?_⟩, rfl⟩
      · rw [Bool.and_eq_true, decide_eq_true_iff, decide_eq_true_iff]
        exact ⟨hindex, encode_length hfits⟩
      · intro old hold hkey
        rw [h.store] at hold
        have hshare : old.shareId = c.shareId := congrArg Prod.fst hkey
        have hsame : old.pageIndex = sink.pageIndex := congrArg Prod.snd hkey
        rcases List.mem_append.mp hold with hold | hold
        · exact hclash ⟨old, hold, hshare, hsame⟩
        · obtain ⟨index, page, hpage, rfl⟩ := mem_pageRows hold
          have hlt : index + 1 < done.length := (List.getElem?_eq_some_iff.mp hpage).1
          rw [h.index] at hsame
          exact absurd hsame (Nat.ne_of_lt hlt)
    dsimp only [Store.insertPage]
    rw [hsome, h.store, pageRows_append hdone, ← List.append_assoc, h.index]
    rfl

/-- A flush writes the page in memory. It can fail only on the row of the page. -/
theorem flush_captured (hv : c.Valid) (h : c.Captured base messages done sink) :
    (∃ sink' done', c.flush sink = .ok sink' ∧ c.Captured base messages done' sink' ∧
        sink'.page = []) ∨
      c.flush sink = .error .integrityError ∧ ∃ row ∈ base.pages, row.shareId = c.shareId := by
  unfold flush
  by_cases hempty : sink.page = []
  · left
    rw [if_pos (by rw [hempty]; rfl)]
    exact ⟨sink, done, rfl, h, hempty⟩
  have hfits : c.Fits sink.page := h.page.resolve_left hempty
  rw [if_neg (by simpa using hempty), snapshot_fits hv hfits, ok_bind]
  by_cases hzero : sink.pageIndex = 0
  · left
    have hnil : done = [] := List.length_eq_zero_iff.mp (h.index.symm.trans hzero)
    subst hnil
    dsimp only
    rw [if_pos hzero]
    refine ⟨_, _, rfl, h.written hfits rfl ?_ rfl rfl rfl rfl, rfl⟩
    exact h.store
  · have hdone : done ≠ [] := by
      rintro rfl
      exact hzero h.index
    dsimp only
    rw [if_neg hzero]
    rcases insertPage_captured h hdone hfits with hok | ⟨herror, hrow⟩
    · left
      rw [← encode, ← pageRow, hok]
      refine ⟨_, _, rfl, h.written hfits ?_ rfl rfl rfl rfl rfl, rfl⟩
      obtain ⟨first, rest, rfl⟩ := List.exists_cons_of_ne_nil hdone
      exact h.first
    · right
      rw [← encode, ← pageRow, herror]
      exact ⟨rfl, hrow⟩

/-- A message that does not overflow the page in memory fits into it. -/
theorem Captured.fits_append (h : c.Captured base messages done sink) {item : Message}
    (hitem : c.Fits [item]) (hroom : c.overflows sink item = false) :
    c.Fits (sink.page ++ [item]) := by
  rcases h.page with hempty | hpage
  · rw [hempty]
    exact hitem
  have hne : sink.page.isEmpty = false := by simpa using hpage.nonempty
  simp only [overflows, hne, Bool.not_false, Bool.true_and, Bool.or_eq_false_iff,
    decide_eq_false_iff_not, Nat.not_le, Nat.not_lt] at hroom
  obtain ⟨hfew, hsize⟩ := hroom
  refine ⟨by simp, ?_, ?_, ?_⟩
  · rw [List.length_append, List.length_singleton]
    exact hfew
  · intro m hm
    rcases List.mem_append.mp hm with hm | hm
    · exact hpage.checked m hm
    · exact hitem.checked m hm
  · rw [h.bytes] at hsize
    rw [pageSize_append, hne, pageSize]
    have hpos : 1 ≤ sink.page.length := List.length_pos_iff.mpr hpage.nonempty
    simp only [Bool.false_eq_true, if_false]
    omega

/-- The message is added to the page in memory. -/
theorem Captured.added (h : c.Captured base messages done sink) {item : Message}
    (hfits : c.Fits (sink.page ++ [item])) :
    c.Captured base (messages ++ [item]) done
      { sink with
        page := sink.page ++ [item]
        pageBytes := sink.pageBytes + item.size
        total := sink.total + 1 } where
  content := by
    rw [← List.append_assoc, h.content]
  total := by rw [h.total, List.length_append, List.length_singleton]
  index := h.index
  first := h.first
  store := h.store
  fits := h.fits
  page := .inr hfits
  bytes := by simp [h.bytes]

/-- What emitting a message can do: it is captured, or nothing changes, and then the message
is bad by itself or the share id was taken. -/
theorem emit_captured (hv : c.Valid) (h : c.Captured base messages done sink) (message : Value) :
    (∃ sink' done' item, c.normalize message.json = .ok item ∧
        c.emit sink message.json = .ok sink' ∧
        c.Captured base (messages ++ [item]) done' sink') ∨
      ∃ e, c.emit sink message.json = .error e ∧ (c.normalize message.json = .error e ∨
        e = .integrityError ∧ ∃ row ∈ base.pages, row.shareId = c.shareId) := by
  unfold emit
  cases hitem : c.normalize message.json with
  | error e => exact .inr ⟨e, rfl, .inl rfl⟩
  | ok item =>
      have hfits : c.Fits [item] := normalize_fits message.proper hitem
      rw [ok_bind]
      cases hroom : c.overflows sink item with
      | false =>
          left
          exact ⟨_, done, item, rfl, rfl, h.added (h.fits_append hfits hroom)⟩
      | true =>
          rw [if_pos rfl]
          rcases flush_captured hv h with ⟨sink', done', hflush, hcaptured, hempty⟩ | ⟨herror, hrow⟩
          · left
            rw [hflush]
            refine ⟨_, done', item, rfl, rfl, hcaptured.added ?_⟩
            rw [hempty]
            exact hfits
          · right
            rw [herror]
            exact ⟨_, rfl, .inr ⟨rfl, hrow⟩⟩

variable (c)

/-- The normalized form of a message that `emit` took. -/
def accepted (call : Value × Option Failure) : Option Message :=
  match call with
  | (message, none) => (c.normalize message.json).toOption
  | (_, some _) => none

/-- The normalized messages that a loader emitted. -/
def emitted (loader : Loader) (sink : Sink) : List Message :=
  (loader.calls c sink).filterMap c.accepted

variable {c}

/-- The whole loader: every message it emitted is captured, and what `emit` raised in it. -/
theorem run_captured (hv : c.Valid) (loader : Loader) (h : c.Captured base messages done sink) :
    (∀ sink', loader.run c sink = .ok sink' →
        ∃ done', c.Captured base (messages ++ c.emitted loader sink) done' sink') ∧
      ∀ call ∈ loader.calls c sink, ∀ e, call.2 = some e → c.normalize call.1.json = .error e ∨
        e = .integrityError ∧ ∃ row ∈ base.pages, row.shareId = c.shareId := by
  induction loader generalizing messages done sink with
  | done =>
      constructor
      · rintro sink' ⟨⟩
        refine ⟨done, ?_⟩
        rw [show c.emitted .done sink = [] from rfl, List.append_nil]
        exact h
      · rintro call ⟨⟩
  | raise error =>
      constructor
      · rintro sink' ⟨⟩
      · rintro call ⟨⟩
  | emit message next ih =>
      rcases emit_captured hv h message with
        ⟨sink₁, done₁, item, hitem, hemit, hcaptured⟩ | ⟨e, hemit, hcause⟩
      · have hrun : (Loader.emit message next).run c sink = (next none).run c sink₁ := by
          rw [Loader.run, hemit]
        have hcalls : (Loader.emit message next).calls c sink =
            (message, none) :: (next none).calls c sink₁ := by
          rw [Loader.calls, hemit]
        have haccepted : c.accepted (message, none) = some item := by
          change (c.normalize message.json).toOption = some item
          rw [hitem]
          rfl
        obtain ⟨hcontent, herrors⟩ := ih none hcaptured
        constructor
        · intro sink' hsink
          rw [hrun] at hsink
          obtain ⟨done', hdone⟩ := hcontent sink' hsink
          refine ⟨done', ?_⟩
          rw [emitted, hcalls, List.filterMap_cons_some haccepted, List.append_cons]
          exact hdone
        · intro call hcall
          rw [hcalls] at hcall
          rcases List.mem_cons.mp hcall with rfl | hcall
          · rintro e ⟨⟩
          · exact herrors call hcall
      · have hrun : (Loader.emit message next).run c sink = (next (some e)).run c sink := by
          rw [Loader.run, hemit]
        have hcalls : (Loader.emit message next).calls c sink =
            (message, some e) :: (next (some e)).calls c sink := by
          rw [Loader.calls, hemit]
        obtain ⟨hcontent, herrors⟩ := ih (some e) h
        constructor
        · intro sink' hsink
          rw [hrun] at hsink
          obtain ⟨done', hdone⟩ := hcontent sink' hsink
          refine ⟨done', ?_⟩
          rw [emitted, hcalls, List.filterMap_cons_none rfl]
          exact hdone
        · intro call hcall
          rw [hcalls] at hcall
          rcases List.mem_cons.mp hcall with rfl | hcall
          · rintro e' ⟨⟩
            exact hcause
          · exact herrors call hcall

end Capture

end AgentsServer.PublicShares
