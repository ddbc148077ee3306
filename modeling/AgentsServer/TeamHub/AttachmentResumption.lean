import AgentsServer.TeamHub.AttachmentRows

/-!
# Chunks of the right bytes

What a chunk leaves behind, wherever it is cut off, when it brings the bytes that the
content has at its offset. An upload goes on from its committed bytes, from nothing, or
from content that was published before its commit was lost. The one place that it cannot
go on from is a staging file without a committed byte.
-/

namespace AgentsServer.TeamHub

open Library AttachmentStore Program

/-! ## Rows that are found again -/

section Found

variable {h : Hub} {teamId id : String} {row : AttachmentRow}

/-- An update in place that keeps the names of the rows. -/
theorem attachment?_map {f : AttachmentRow → AttachmentRow}
    (names : ∀ a, (f a).teamId = a.teamId ∧ (f a).id = a.id) :
    ({ h with attachments := h.attachments.map f } : Hub).attachment? teamId id =
      (h.attachment? teamId id).map f := by
  unfold Hub.attachment?
  rw [List.find?_map]
  congr 2
  funext a
  simp only [Function.comp_apply, (names a).1, (names a).2]

theorem attachment?_setReceived (found : h.attachment? teamId id = some row) (n : Nat) :
    (h.setReceived row.id n).attachment? teamId id = some { row with receivedBytes := n } := by
  unfold Hub.setReceived
  rw [attachment?_map, found]
  · rw [Option.map_some, if_pos rfl]
  · intro a
    split <;> exact ⟨rfl, rfl⟩

/-- The row of an upload that was marked ready. -/
def AttachmentRow.readied (row : AttachmentRow) (timestamp : Nat) : AttachmentRow :=
  { row with
    receivedBytes := row.byteSize, state := .ready timestamp
    expiresAt := timestamp + attachmentUploadTtlSeconds }

theorem attachment?_readyHub (found : h.attachment? teamId id = some row)
    (uploading : row.state = .uploading) (timestamp : Nat) :
    (readyHub h row timestamp).attachment? teamId id = some (row.readied timestamp) := by
  unfold readyHub
  rw [attachment?_map, found]
  · rw [Option.map_some, if_pos ⟨rfl, uploading⟩]
    rfl
  · intro a
    split <;> exact ⟨rfl, rfl⟩

end Found

/-! ## Uploads of one content -/

/-- An upload of these bytes that is not finished. -/
structure Ongoing [Sha256] (data : Bytes) (row : AttachmentRow) : Prop where
  uploading : row.state = .uploading
  size : row.byteSize = data.length
  digest : Sha256.hexdigest data = row.storageKey
  received : row.receivedBytes < row.byteSize

/-- The files from which an upload goes on. -/
inductive Resumes (data : Bytes) (row : AttachmentRow) (s : AttachmentStore) : Prop
  | fresh (received : row.receivedBytes = 0) (staging : s.staging row.id = none)
  | staged (received : 0 < row.receivedBytes) (rest : Bytes)
      (staging : s.staging row.id = some (data.take row.receivedBytes ++ rest))
  | published (staging : s.staging row.id = none) (content : s.content row.storageKey = some data)

/-- A staging file of an upload without a committed byte. -/
structure Stale (row : AttachmentRow) (s : AttachmentStore) : Prop where
  received : row.receivedBytes = 0
  staging : (s.staging row.id).isSome = true

/-- Bytes are committed, and the staging file is already renamed away. -/
structure Renamed (row : AttachmentRow) (s : AttachmentStore) : Prop where
  received : 0 < row.receivedBytes
  staging : s.staging row.id = none

/-- The chunk brings the bytes of the content at its offset. Once the staging file is
renamed away, a chunk that goes on brings all that is left. -/
structure Faithful (data : Bytes) (call : ChunkCall) (row : AttachmentRow)
    (s : AttachmentStore) : Prop where
  found : s.hub.attachment? call.teamId call.id = some row
  held : row.isHeld call.timestamp = true
  bytes : call.chunk.data <+: data.drop call.chunk.offset.toNat
  whole : Renamed row s → call.chunk.offset = row.receivedBytes → call.chunk.Completes row

/-- The checks that a chunk passes when it goes on with an upload. -/
structure GoesOn (call : ChunkCall) (row : AttachmentRow) : Prop where
  scope : ∃ role, call.caller.networkScope true = .ok role
  owner : row.uploadedBy = call.caller.claims.principalId
  recorded : call.caller.recorded = .ok ()
  created : row.createdAt ≤ call.timestamp
  offset : call.chunk.offset = row.receivedBytes
  total : call.chunk.total = row.byteSize
  nonempty : call.chunk.data ≠ []
  fits : call.chunk.data.length ≤ attachmentChunkBytes

/-- The chunk is committed. -/
inductive Landed (data : Bytes) (call : ChunkCall) (row : AttachmentRow)
    (s t : AttachmentStore) : Prop
  | received (more : row.receivedBytes + call.chunk.data.length < row.byteSize)
      (nonempty : call.chunk.data ≠ [])
      (hub : t.hub = s.hub.setReceived row.id (row.receivedBytes + call.chunk.data.length))
      (staging : t.staging row.id =
        some (data.take (row.receivedBytes + call.chunk.data.length)))
  | ready (last : row.byteSize ≤ row.receivedBytes + call.chunk.data.length)
      (hub : t.hub = readyHub s.hub row call.timestamp)
      (content : t.content row.storageKey = some data)

/-- The upload goes on from here as before. -/
structure Kept (data : Bytes) (row : AttachmentRow) (s t : AttachmentStore) : Prop where
  hub : t.hub = s.hub
  resumes : Resumes data row t

/-- What a chunk leaves behind when it is cut off. -/
inductive LeftBehind (data : Bytes) (call : ChunkCall) (row : AttachmentRow)
    (s t : AttachmentStore) : Prop
  | kept (kept : Kept data row s t)
  | stale (hub : t.hub = s.hub) (stale : Stale row t)
  | committed (committed : Landed data call row s t)

/-- A chunk that goes on is committed, any other changes nothing. -/
inductive Answered (data : Bytes) (call : ChunkCall) (row : AttachmentRow)
    (s t : AttachmentStore) : Prop
  | kept (stays : ¬ GoesOn call row) (kept : Kept data row s t)
  | committed (committed : Landed data call row s t)

/-- An error that is not recorded, and from which the upload goes on as before. -/
structure Refused (data : Bytes) (call : ChunkCall) (row : AttachmentRow) (s : AttachmentStore)
    (e : ChunkError) (t : AttachmentStore) : Prop where
  raised : ∃ failure, e = .raised failure
  stays : ¬ GoesOn call row
  kept : Kept data row s t

section Chunks

variable [Sha256] {data : Bytes} {call : ChunkCall} {row : AttachmentRow}
  {s t : AttachmentStore} {I : AttachmentStore → Prop}
  {E : ChunkError → AttachmentStore → Prop}

omit [Sha256] in
theorem meets_raised {α : Type} {x : Except Failure α} {Q : α → AttachmentStore → Prop}
    (hv : ∀ a, x = .ok a → Q a t) (he : ∀ f, x = .error f → E (.raised f) t) :
    Meets I (raised x) Q E t := by
  apply Meets.look
  · intro a ha
    cases x with
    | ok b =>
        cases ha
        exact hv _ rfl
    | error f => cases ha
  · intro e h
    cases x with
    | ok b => cases h
    | error f =>
        cases h
        exact he f rfl

omit [Sha256] in
/-- A check of a chunk: it passes, or the chunk is refused. -/
theorem meets_require {c : Prop} [Decidable c] {f : Failure} (kept : Kept data row s t)
    (goes : GoesOn call row → c) :
    Meets I (raised (require c f)) (fun _ u => u = t ∧ c) (Refused data call row s) t := by
  apply meets_raised
  · intro _ h
    exact ⟨rfl, (require_eq_ok c f _).mp h⟩
  · intro g h
    rw [require_eq_error] at h
    exact ⟨⟨g, rfl⟩, fun on => h.1 (goes on), kept⟩

omit [Sha256] in
theorem meets_answer {h : Hub} {teamId id : String}
    (found : h.attachment? teamId id = some row) :
    Meets I (answer h teamId id) (fun _ u => u = t) E t := by
  unfold answer
  refine Meets.bind (R := fun _ u => u = t) (Meets.look ?_ ?_) ?_
  · intro _ _
    rfl
  · intro e he
    rw [found] at he
    cases he
  · rintro _ u rfl
    exact Meets.pure rfl

omit [Sha256] in
/-- Everything staged starts with the committed bytes. -/
theorem LeftBehind.of_staging (rest : Bytes) (hub : t.hub = s.hub)
    (staging : t.staging row.id = some (data.take row.receivedBytes ++ rest)) :
    LeftBehind data call row s t := by
  rcases Nat.eq_zero_or_pos row.receivedBytes with zero | positive
  · exact .stale hub ⟨zero, by rw [staging]; rfl⟩
  · exact .kept ⟨hub, .staged positive rest staging⟩

omit [Sha256] in
/-- The staging file is opened with exactly the committed bytes. -/
theorem meets_openStaging (kept : Kept data row s t) (length : row.receivedBytes ≤ data.length)
    (staged : ¬ Renamed row t) :
    Meets (LeftBehind data call row s) (openStaging row.id row.receivedBytes)
      (fun opened u => opened = data.take row.receivedBytes ∧ u.hub = s.hub ∧
        u.staging row.id = some (data.take row.receivedBytes)) E t := by
  have looked : Meets (LeftBehind data call row s)
      (Program.look fun s => .ok (s.staging row.id) : Task ChunkError _)
      (fun file u => u = t ∧ file = t.staging row.id) E t := by
    apply Meets.look
    · intro file hfile
      cases hfile
      exact ⟨rfl, rfl⟩
    · intro e he
      cases he
  unfold openStaging
  refine Meets.bind looked ?_
  rintro file u ⟨rfl, rfl⟩
  rcases Nat.eq_zero_or_pos row.receivedBytes with zero | positive
  · have empty : u.staging row.id = none := by
      cases kept.resumes with
      | fresh _ staging => exact staging
      | staged received => omega
      | published staging => exact staging
    rw [empty]
    dsimp only
    rw [if_pos zero]
    refine Meets.bind (R := fun _ v => v.hub = s.hub ∧ v.staging row.id = some [])
      (Meets.act rfl ?_ ?_) ?_
    · exact .of_staging [] kept.hub (by simp [zero])
    · exact ⟨kept.hub, by simp⟩
    · rintro _ v ⟨hub, staging⟩
      refine Meets.pure ?_
      rw [zero, List.take_zero]
      exact ⟨rfl, hub, staging⟩
  · obtain ⟨rest, staging⟩ : ∃ rest, u.staging row.id =
        some (data.take row.receivedBytes ++ rest) := by
      cases kept.resumes with
      | fresh received => omega
      | staged _ rest staging => exact ⟨rest, staging⟩
      | published staging => exact absurd ⟨positive, staging⟩ staged
    have taken : (data.take row.receivedBytes).length = row.receivedBytes := by
      rw [List.length_take]
      omega
    rw [staging]
    dsimp only
    rw [if_neg (by omega), if_neg (by rw [List.length_append]; omega)]
    split
    · next exact =>
        have hrest : rest = [] := by
          rw [List.length_append] at exact
          exact List.length_eq_zero_iff.mp (by omega)
        refine Meets.pure ?_
        rw [hrest, List.append_nil] at staging ⊢
        exact ⟨rfl, kept.hub, staging⟩
    · have cut : (data.take row.receivedBytes ++ rest).take row.receivedBytes =
          data.take row.receivedBytes := by
        rw [List.take_append_of_le_length (by omega), List.take_take, Nat.min_self]
      rw [cut]
      refine Meets.bind (R := fun _ v => v.hub = s.hub ∧
        v.staging row.id = some (data.take row.receivedBytes)) (Meets.act rfl ?_ ?_) ?_
      · exact .of_staging [] kept.hub (by simp)
      · exact ⟨kept.hub, by simp⟩
      · rintro _ v ⟨hub, staging⟩
        exact Meets.pure ⟨rfl, hub, staging⟩

omit [Sha256] in
/-- The writes of a chunk, however few bytes each of them takes. -/
theorem meets_writeAll (sizes : List Nat) (early bytes : Bytes) (hub : t.hub = s.hub)
    (staging : t.staging row.id = some (data.take row.receivedBytes ++ early)) :
    Meets (LeftBehind data call row s)
      (writeAll row.id (data.take row.receivedBytes ++ early) sizes bytes)
      (fun written u => written = data.take row.receivedBytes ++ early ++ bytes ∧
        u.hub = s.hub ∧ u.staging row.id = some written) E t := by
  have write : ∀ (t : AttachmentStore) (more : Bytes), t.hub = s.hub →
      Meets (LeftBehind data call row s)
        (setStaging row.id (data.take row.receivedBytes ++ more) : Task ChunkError Unit)
        (fun _ u => u.hub = s.hub ∧
          u.staging row.id = some (data.take row.receivedBytes ++ more)) E t := by
    intro t more hub
    refine Meets.act rfl ?_ ⟨hub, by simp⟩
    exact .of_staging more hub (by simp)
  induction sizes generalizing early bytes t with
  | nil =>
      cases bytes with
      | nil => exact Meets.pure ⟨(List.append_nil _).symm, hub, staging⟩
      | cons b bytes =>
          unfold writeAll
          rw [List.append_assoc]
          refine Meets.bind (write t _ hub) ?_
          rintro _ u ⟨hub, staging⟩
          exact Meets.pure ⟨rfl, hub, staging⟩
  | cons n rest ih =>
      cases bytes with
      | nil => exact Meets.pure ⟨(List.append_nil _).symm, hub, staging⟩
      | cons b bytes =>
          unfold writeAll
          dsimp only
          rw [List.append_assoc]
          refine Meets.bind (write t _ hub) ?_
          rintro _ u ⟨hub, staging⟩
          refine (ih _ _ hub staging).weaken (fun _ h => h) ?_
          rintro written v ⟨rfl, hub, staging⟩
          refine ⟨?_, hub, staging⟩
          simp only [List.append_assoc, List.take_append_drop]

omit [Sha256] in
theorem GoesOn.marks (on : GoesOn call row) (h : Hub) :
    h.markReady call.caller row call.timestamp = .ok (readyHub h row call.timestamp) := by
  unfold Hub.markReady
  rw [require_bind on.created, on.recorded]
  rfl

omit [Sha256] in
/-- The upload is marked ready, or the mark is refused. -/
theorem meets_markReady (kept : Kept data row s t) :
    Meets I (raised (s.hub.markReady call.caller row call.timestamp))
      (fun h u => u = t ∧ h = readyHub s.hub row call.timestamp) (Refused data call row s) t := by
  apply meets_raised
  · intro h hm
    exact ⟨rfl, markReady_eq_ok hm⟩
  · intro f hf
    refine ⟨⟨f, rfl⟩, ?_, kept⟩
    intro on
    rw [on.marks s.hub] at hf
    cases hf

omit [Sha256] in
theorem meets_commit_ready
    (last : row.byteSize ≤ row.receivedBytes + call.chunk.data.length)
    (content : t.content row.storageKey = some data) :
    Meets (LeftBehind data call row s)
      (commit (readyHub s.hub row call.timestamp) : Task ChunkError Unit)
      (fun _ u => Landed data call row s u) E t :=
  Meets.act rfl (.committed (.ready last rfl content)) (.ready last rfl content)

/-- The end of an upload whose staging file holds the content. -/
theorem meets_finish (ongoing : Ongoing data row)
    (found : s.hub.attachment? row.teamId row.id = some row)
    (last : row.byteSize ≤ row.receivedBytes + call.chunk.data.length) (hub : t.hub = s.hub)
    (staging : t.staging row.id = some data) :
    Meets (LeftBehind data call row s) (finish s.hub call.caller row data call.timestamp)
      (fun _ u => Landed data call row s u) (Refused data call row s) t := by
  have staged : data.take row.receivedBytes ++ data.drop row.receivedBytes = data :=
    List.take_append_drop _ _
  unfold finish
  refine Meets.bind (R := fun _ u => u.hub = s.hub) (Meets.act rfl ?_ hub) ?_
  · exact .of_staging (data.drop row.receivedBytes) hub (by rw [staged]; exact staging)
  intro _ u hub
  rw [if_pos ongoing.digest]
  refine Meets.bind (R := fun _ v => Kept data row s v ∧
    v.content row.storageKey = some data) (Meets.act rfl ?_ ?_) ?_
  · exact .kept ⟨hub, .published (by simp) (by simp)⟩
  · exact ⟨⟨hub, .published (by simp) (by simp)⟩, by simp⟩
  rintro _ v ⟨kept, content⟩
  refine Meets.bind (meets_markReady kept) ?_
  rintro _ w ⟨rfl, rfl⟩
  refine Meets.bind (meets_commit_ready last content) ?_
  intro _ x landed
  refine (meets_answer (attachment?_readyHub found ongoing.uploading _)).weaken
    (fun _ h => h) ?_
  rintro _ y rfl
  exact landed

/-- A blob of the content's size and digest is opened, and no other file is touched. -/
theorem meets_openVerifiedBlob (byteSize : Nat) (key : String)
    (quiet : ∀ u, u.hub = t.hub → u.staging = t.staging → u.content = t.content → I u) :
    Meets I (openVerifiedBlob key byteSize : Task ChunkError (Option Bytes))
      (fun found u => u.hub = t.hub ∧ u.staging = t.staging ∧ u.content = t.content ∧
        (∀ bytes, found = some bytes → u.content key = some bytes ∧ bytes.length = byteSize) ∧
        ∀ bytes, t.content key = some bytes → bytes.length = byteSize →
          Sha256.hexdigest bytes = key → found = some bytes) E t := by
  unfold openVerifiedBlob
  refine Meets.bind (R := fun file u => u = t ∧ file = t.content key) (Meets.look ?_ ?_) ?_
  · rintro file ⟨⟩
    exact ⟨rfl, rfl⟩
  · rintro e ⟨⟩
  rintro file u ⟨rfl, rfl⟩
  cases stored : u.content key with
  | none =>
      refine Meets.pure ⟨rfl, rfl, rfl, ?_, ?_⟩
      · rintro bytes ⟨⟩
      · rintro bytes ⟨⟩
  | some bytes =>
      dsimp only
      split
      · next size =>
          refine Meets.bind (R := fun _ v => v.hub = u.hub ∧ v.staging = u.staging ∧
            v.content = u.content) (Meets.act rfl (quiet _ rfl rfl rfl) ⟨rfl, rfl, rfl⟩) ?_
          rintro _ v ⟨hub, staging, content⟩
          refine Meets.pure ⟨hub, staging, content, ?_, ?_⟩
          · intro found hfound
            split at hfound
            · cases hfound
              exact ⟨by rw [content, stored], size⟩
            · cases hfound
          · rintro found ⟨⟩ _ digest
            rw [if_pos digest]
      · next size =>
          refine Meets.pure ⟨rfl, rfl, rfl, ?_, ?_⟩
          · rintro found ⟨⟩
          · rintro found ⟨⟩ same
            exact absurd same size

omit [Sha256] in
/-- What an upload goes on from depends on its two files. -/
theorem Kept.same_files (kept : Kept data row s t) {u : AttachmentStore} (hub : u.hub = t.hub)
    (staging : u.staging = t.staging) (content : u.content = t.content) : Kept data row s u := by
  refine ⟨hub.trans kept.hub, ?_⟩
  cases kept.resumes with
  | fresh received empty => exact .fresh received (by rw [staging]; exact empty)
  | staged received rest file => exact .staged received rest (by rw [staging]; exact file)
  | published empty stored =>
      exact .published (by rw [staging]; exact empty) (by rw [content]; exact stored)

omit [Sha256] in
theorem Resumes.content_of_renamed (resumes : Resumes data row s) (renamed : Renamed row s) :
    s.content row.storageKey = some data := by
  have positive := renamed.received
  cases resumes with
  | fresh received => omega
  | staged _ _ file =>
      rw [renamed.staging] at file
      cases file
  | published _ content => exact content

omit [Sha256] in
/-- A chunk that goes on takes the committed bytes to more of the content. -/
theorem Faithful.take_append (faithful : Faithful data call row s)
    (offset : call.chunk.offset = row.receivedBytes) :
    data.take row.receivedBytes ++ call.chunk.data =
      data.take (row.receivedBytes + call.chunk.data.length) := by
  have bytes := faithful.bytes
  rw [offset, Int.toNat_natCast, List.prefix_iff_eq_take] at bytes
  rw [List.take_add, ← bytes]

omit [Sha256] in
theorem Faithful.length_le (faithful : Faithful data call row s)
    (offset : call.chunk.offset = row.receivedBytes) :
    call.chunk.data.length ≤ data.length - row.receivedBytes := by
  have length := faithful.bytes.length_le
  rwa [offset, Int.toNat_natCast, List.length_drop] at length

omit [Sha256] in
theorem Faithful.found_row (faithful : Faithful data call row s) :
    s.hub.attachment? row.teamId row.id = some row := by
  obtain ⟨_, team, id⟩ := attachment?_names faithful.found
  rw [team, id]
  exact faithful.found

/-- The replay of the last chunk: it is committed, or the staging file is not renamed away. -/
theorem meets_reconcile (ongoing : Ongoing data row) (faithful : Faithful data call row s)
    (completes : call.chunk.Completes row) (resumes : Resumes data row s) :
    Meets (LeftBehind data call row s)
      (reconcile s.hub call.caller row call.chunk.data call.timestamp)
      (fun found u => if found.isSome then Landed data call row s u
        else Kept data row s u ∧ ¬ Renamed row u) (Refused data call row s) s := by
  have kept : Kept data row s s := ⟨rfl, resumes⟩
  have size := ongoing.size
  have last := completes.2
  have suffix : call.chunk.data = data.drop row.receivedBytes := by
    have bytes := faithful.bytes
    rw [completes.1, Int.toNat_natCast] at bytes
    apply bytes.eq_of_length
    rw [List.length_drop]
    omega
  unfold reconcile
  refine Meets.bind (R := fun file u => u = s ∧ file = s.staging row.id) (Meets.look ?_ ?_) ?_
  · rintro file ⟨⟩
    exact ⟨rfl, rfl⟩
  · rintro e ⟨⟩
  rintro file u ⟨rfl, rfl⟩
  cases staging : u.staging row.id with
  | some bytes =>
      refine Meets.pure ⟨kept, ?_⟩
      intro renamed
      rw [renamed.staging] at staging
      cases staging
  | none =>
      refine Meets.bind (meets_openVerifiedBlob row.byteSize row.storageKey ?_) ?_
      · intro v hub staging content
        exact .kept (kept.same_files hub staging content)
      rintro found v ⟨hub, files, content, opened, stored⟩
      have keptHere := kept.same_files hub files content
      cases found with
      | none =>
          refine Meets.pure ⟨keptHere, ?_⟩
          intro renamed
          have there := resumes.content_of_renamed ⟨renamed.received, staging⟩
          cases stored data there size.symm ongoing.digest
      | some bytes =>
          obtain ⟨here, length⟩ := opened bytes rfl
          dsimp only
          split
          · next replayed =>
              have same : bytes = data := by
                rcases Nat.eq_zero_or_pos row.receivedBytes with zero | positive
                · rw [suffix, zero, List.drop_zero, List.drop_zero,
                    List.take_of_length_le (by omega)] at replayed
                  exact replayed
                · have there := keptHere.resumes.content_of_renamed
                    ⟨positive, by rw [files]; exact staging⟩
                  rw [here] at there
                  exact Option.some.inj there
              rw [same] at here
              refine Meets.bind (meets_markReady keptHere) ?_
              rintro _ w ⟨rfl, rfl⟩
              refine Meets.bind (meets_commit_ready (Nat.le_of_eq last.symm) here) ?_
              intro _ x landed
              refine Meets.bind (meets_answer
                (attachment?_readyHub faithful.found_row ongoing.uploading _)) ?_
              rintro _ y rfl
              exact Meets.pure landed
          · next replayed =>
              refine Meets.pure ⟨keptHere, ?_⟩
              intro renamed
              have there := keptHere.resumes.content_of_renamed renamed
              rw [here] at there
              cases there
              rw [← suffix, List.take_length] at replayed
              exact replayed rfl

/-- The part of a chunk that writes. -/
theorem meets_append (ongoing : Ongoing data row) (faithful : Faithful data call row s)
    (kept : Kept data row s t) (here : call.chunk.offset = row.receivedBytes → ¬ Renamed row t)
    (nonempty : call.chunk.data ≠ []) :
    Meets (LeftBehind data call row s)
      (AttachmentStore.append s.hub call.caller row call.chunk call.timestamp)
      (fun _ u => Answered data call row s u) (Refused data call row s) t := by
  have size := ongoing.size
  have received := ongoing.received
  have positive := List.length_pos_iff.mpr nonempty
  unfold AttachmentStore.append
  dsimp only
  split
  · next old =>
      refine Meets.pure (.kept ?_ kept)
      intro on
      have offset := on.offset
      omega
  · refine Meets.bind (meets_require kept GoesOn.offset) ?_
    rintro _ u ⟨rfl, offset⟩
    have length := faithful.length_le offset
    have taken := faithful.take_append offset
    refine Meets.bind (meets_require kept fun _ => by omega) ?_
    rintro _ t ⟨rfl, _⟩
    refine Meets.bind (meets_openStaging kept (by omega) (here offset)) ?_
    rintro opened u ⟨rfl, hub, staging⟩
    have written : Meets (LeftBehind data call row s)
        (writeAll row.id (data.take row.receivedBytes ++ []) call.chunk.writes call.chunk.data)
        _ (Refused data call row s) u :=
      meets_writeAll call.chunk.writes [] call.chunk.data hub
        (by rw [List.append_nil]; exact staging)
    rw [List.append_nil, taken] at written
    refine Meets.bind written ?_
    rintro bytes v ⟨rfl, hub, staging⟩
    split
    · next more =>
        have landed : Landed data call row s
            { v with hub :=
                s.hub.setReceived row.id (row.receivedBytes + call.chunk.data.length) } :=
          .received more nonempty rfl staging
        refine Meets.bind (R := fun _ w => Landed data call row s w)
          (Meets.act rfl (.committed landed) landed) ?_
        intro _ w landed
        refine (meets_answer (attachment?_setReceived faithful.found_row _)).weaken
          (fun _ h => h) ?_
        rintro _ x rfl
        exact .committed landed
    · next last =>
        have all : data.take (row.receivedBytes + call.chunk.data.length) = data :=
          List.take_of_length_le (by omega)
        rw [all] at staging ⊢
        rw [if_pos size.symm]
        refine (meets_finish ongoing faithful.found_row (Nat.le_of_not_lt last) hub staging).weaken (fun _ h => h) ?_
        intro _ w landed
        exact .committed landed

/-- A chunk of the right bytes is committed when it goes on with its upload. Otherwise,
and wherever it is cut off or refused, the upload goes on as before or has a staging file
without a committed byte. -/
theorem meets_writeChunk (ongoing : Ongoing data row) (faithful : Faithful data call row s)
    (resumes : Resumes data row s) :
    Meets (LeftBehind data call row s)
      (writeChunk call.caller call.teamId call.id call.chunk call.timestamp)
      (fun _ u => Answered data call row s u) (Refused data call row s) s := by
  have kept : Kept data row s s := ⟨rfl, resumes⟩
  unfold writeChunk
  refine Meets.bind (meets_require kept GoesOn.nonempty) ?_
  rintro _ t ⟨rfl, nonempty⟩
  refine Meets.bind (meets_require kept GoesOn.fits) ?_
  rintro _ s ⟨rfl, _⟩
  refine Meets.bind (meets_require kept ?_) ?_
  · intro on
    have offset := on.offset
    have total := on.total
    have received := ongoing.received
    omega
  rintro _ t ⟨rfl, _⟩
  refine Meets.bind (R := fun h u => u = t ∧ h = t.hub) (Meets.look ?_ ?_) ?_
  · rintro h ⟨⟩
    exact ⟨rfl, rfl⟩
  · rintro e ⟨⟩
  rintro h s ⟨rfl, rfl⟩
  refine Meets.bind (R := fun _ u => u = s) (meets_raised (fun _ _ => rfl) ?_) ?_
  · intro f refused
    refine ⟨⟨f, rfl⟩, ?_, kept⟩
    intro on
    obtain ⟨role, scope⟩ := on.scope
    rw [refused] at scope
    cases scope
  rintro _ t rfl
  refine Meets.bind (R := fun found u => u = t ∧ found = row) (meets_raised ?_ ?_) ?_
  · intro found hfound
    rw [faithful.found] at hfound
    cases hfound
    exact ⟨rfl, rfl⟩
  · intro f missing
    rw [faithful.found] at missing
    cases missing
  rintro found s ⟨rfl, rfl⟩
  refine Meets.bind (meets_require kept GoesOn.owner) ?_
  rintro _ t ⟨rfl, _⟩
  rw [if_pos faithful.held]
  refine Meets.bind (meets_require kept GoesOn.total) ?_
  rintro _ s ⟨rfl, _⟩
  rw [ongoing.uploading]
  dsimp only
  split
  · next completes =>
      refine Meets.bind (meets_reconcile ongoing faithful completes resumes) ?_
      intro answer u hu
      cases answer with
      | some response => exact Meets.pure (.committed hu)
      | none => exact meets_append ongoing faithful hu.1 (fun _ => hu.2) nonempty
  · next unfinished =>
      refine meets_append ongoing faithful kept ?_ nonempty
      intro offset renamed
      exact unfinished (faithful.whole renamed offset)

end Chunks

end AgentsServer.TeamHub
