import AgentsServer.InteractiveShares.Routes

/-!
# A ledger that only grows

Rows are added and filled in: a revocation, a reference and a receipt are written once and
stay. Every transaction keeps the keys distinct and the uploads of a share within bounds.
-/

namespace AgentsServer.InteractiveShares

open Library

namespace Store

variable (store : Store)

structure Sound : Prop where
  shares : (store.shares.map ShareRow.id).Nodup
  uploads : (store.uploads.map UploadRow.id).Nodup
  submissions : (store.submissions.map SubmissionRow.key).Nodup
  room : ∀ shareId, store.usedBytes shareId ≤ maxShareUploadBytes

theorem sound_empty : Store.empty.Sound where
  shares := .nil
  uploads := .nil
  submissions := .nil
  room := fun _ => Nat.zero_le _

/-- Every row is still there, with what was filled in. -/
structure Grows (s t : Store) : Prop where
  shares : ∀ row ∈ s.shares, ∃ kept ∈ t.shares, kept.id = row.id ∧
    (row.revokedAt.isSome = true → kept.revokedAt.isSome = true)
  uploads : ∀ shareId uploadId ref, s.completedRef shareId uploadId = some ref →
    t.completedRef shareId uploadId = some ref
  submissions : ∀ row ∈ s.submissions, ∃ kept ∈ t.submissions, kept.key = row.key ∧
    kept.fingerprint = row.fingerprint ∧ ∀ receipt, row.receipt = some receipt →
      kept.receipt = some receipt

variable {store} {s t : Store}

theorem Grows.refl (s : Store) : Grows s s where
  shares := fun row h => ⟨row, h, rfl, id⟩
  uploads := fun _ _ _ => id
  submissions := fun row h => ⟨row, h, rfl, rfl, fun _ => id⟩

/-! ## Shares -/

theorem createShare_grows [Sha256] {sessionId : String} {title : Option String}
    {expiresAt : Option Time} {publicOrigin invite shareId : String} {now : Time} {row : ShareRow}
    (h : s.Sound)
    (hok : s.createShare sessionId title expiresAt publicOrigin invite shareId now = .ok (row, t)) :
    t.Sound ∧ Grows s t := by
  unfold createShare at hok
  simp only [bind_eq_ok, required_eq_ok, pure_eq_ok, Prod.mk.injEq] at hok
  obtain ⟨_, -, _, -, _, -, created, -, _, -, digest, -, shares, hrows, -, rfl⟩ := hok
  obtain ⟨⟨-, hfresh⟩, rfl⟩ := Tables.insertRow_eq_some.mp hrows
  constructor
  · exact ⟨Tables.nodup_append_row h.shares hfresh, h.uploads, h.submissions, h.room⟩
  · refine ⟨?_, (Grows.refl s).uploads, (Grows.refl s).submissions⟩
    intro row hrow
    exact ⟨row, List.mem_append_left _ hrow, rfl, id⟩

/-- An update of shares that keeps their ids and their revocations. -/
theorem Sound.updateShares (h : s.Sound) {f : ShareRow → ShareRow} (keep : ∀ row, (f row).id = row.id)
    (revoked : ∀ row, row.revokedAt.isSome = true → (f row).revokedAt.isSome = true) :
    Sound { s with shares := s.shares.map f } ∧ Grows s { s with shares := s.shares.map f } := by
  constructor
  · exact ⟨Tables.nodup_map h.shares keep, h.uploads, h.submissions, h.room⟩
  · refine ⟨?_, (Grows.refl s).uploads, (Grows.refl s).submissions⟩
    intro row hrow
    exact ⟨f row, List.mem_map_of_mem hrow, keep row, revoked row⟩

theorem redeem_grows [Sha256] {shareId invite token : String} {now : Time} (h : s.Sound)
    (hok : s.redeem shareId invite now = .ok (token, t)) : t.Sound ∧ Grows s t := by
  unfold redeem at hok
  simp only [bind_eq_ok, pure_eq_ok, Prod.mk.injEq] at hok
  obtain ⟨digest, -, _, -, -, rfl⟩ := hok
  apply h.updateShares
  · intro row
    split <;> rfl
  · intro row hrevoked
    split <;> exact hrevoked

theorem revokeShare_grows {shareId sessionId : String} {now : Time} {found : Bool} (h : s.Sound)
    (hok : s.revokeShare shareId sessionId now = .ok (found, t)) : t.Sound ∧ Grows s t := by
  unfold revokeShare at hok
  simp only [pure_eq_ok, Prod.mk.injEq] at hok
  obtain ⟨-, rfl⟩ := hok
  apply h.updateShares
  · intro row
    split <;> rfl
  · intro row hrevoked
    split
    · rfl
    · exact hrevoked

/-- A share that was found is revoked. -/
theorem revokeShare_revoked {shareId sessionId : String} {now : Time}
    (hok : s.revokeShare shareId sessionId now = .ok (true, t)) :
    ∃ row ∈ t.shares, row.id = shareId ∧ row.revokedAt.isSome = true := by
  unfold revokeShare at hok
  simp only [pure_eq_ok, Prod.mk.injEq] at hok
  obtain ⟨hfound, rfl⟩ := hok
  obtain ⟨row, hrow, hselected⟩ := List.any_eq_true.mp hfound
  refine ⟨_, List.mem_map_of_mem hrow, ?_, ?_⟩
  · rw [if_pos hselected]
    exact beq_iff_eq.mp (Bool.and_eq_true_iff.mp hselected).1
  · rw [if_pos hselected]
    rfl

/-- Who is authorized has a share that is not revoked. -/
theorem authorized_eq_ok [Sha256] {shareId token : String} {now : Time} {row : ShareRow}
    (hok : s.authorized shareId token now = .ok row) :
    row ∈ s.shares ∧ row.id = shareId ∧ row.revokedAt = none := by
  unfold authorized at hok
  simp only [bind_eq_ok, required_eq_ok] at hok
  obtain ⟨digest, -, hfind⟩ := hok
  have hpred := List.find?_some hfind
  simp only [Bool.and_eq_true, beq_iff_eq, Option.isNone_iff_eq_none] at hpred
  exact ⟨List.mem_of_find?_eq_some hfind, hpred.1.1.1.1, hpred.1.2⟩

/-! ## Uploads -/

theorem Sound.completedRef_eq_some (h : s.Sound) {shareId uploadId ref : String} :
    s.completedRef shareId uploadId = some ref ↔
      ∃ row ∈ s.uploads, row.id = uploadId ∧ row.shareId = shareId ∧ row.privateRef = some ref := by
  unfold completedRef
  constructor
  · intro href
    obtain ⟨row, hfind, href⟩ := Option.bind_eq_some_iff.mp href
    have hpred := List.find?_some hfind
    simp only [Bool.and_eq_true, beq_iff_eq] at hpred
    exact ⟨row, List.mem_of_find?_eq_some hfind, hpred.1.1, hpred.1.2, href⟩
  · rintro ⟨row, hrow, hid, hshare, href⟩
    have honly : s.uploads.find? (fun row => row.id == uploadId && row.shareId == shareId &&
        row.privateRef.isSome) = some row := by
      apply Tables.find?_of_only hrow
      · simp [hid, hshare, href]
      · intro other hother hpred
        simp only [Bool.and_eq_true, beq_iff_eq] at hpred
        exact Tables.eq_of_key h.uploads hother hrow (hpred.1.1.trans hid.symm)
    rw [honly]
    exact href

theorem reserveUpload_grows [Sha256] {shareId token name mediaType uploadId id : String}
    {byteSize : Nat} {now : Time} (h : s.Sound)
    (hok : s.reserveUpload shareId token name mediaType byteSize uploadId now = .ok (id, t)) :
    t.Sound ∧ Grows s t := by
  unfold reserveUpload at hok
  simp only [bind_eq_ok, require_eq_ok, required_eq_ok, pure_eq_ok, Prod.mk.injEq] at hok
  obtain ⟨_, -, _, -, _, -, _, -, _, -, _, hroom, uploads, hrows, -, rfl⟩ := hok
  obtain ⟨⟨-, hfresh⟩, rfl⟩ := Tables.insertRow_eq_some.mp hrows
  constructor
  · refine ⟨h.shares, Tables.nodup_append_row h.uploads hfresh, h.submissions, ?_⟩
    intro other
    rw [usedBytes, List.filter_append]
    by_cases hsame : shareId = other
    · subst hsame
      simpa [usedBytes] using hroom
    · simpa [usedBytes, hsame] using h.room other
  · refine ⟨(Grows.refl s).shares, ?_, (Grows.refl s).submissions⟩
    intro other id ref href
    obtain ⟨row, hfind, hsome⟩ := Option.bind_eq_some_iff.mp href
    rw [completedRef, List.find?_append, hfind]
    exact hsome

/-- An update of uploads that keeps what they are charged with and the references they have. -/
theorem Sound.updateUploads (h : s.Sound) {f : UploadRow → UploadRow}
    (keep : ∀ row, (f row).id = row.id ∧ (f row).shareId = row.shareId ∧
      (f row).byteSize = row.byteSize)
    (completed : ∀ row ref, row.privateRef = some ref → f row = row) :
    Sound { s with uploads := s.uploads.map f } ∧ Grows s { s with uploads := s.uploads.map f } := by
  have hsound : Sound { s with uploads := s.uploads.map f } := by
    refine ⟨h.shares, Tables.nodup_map h.uploads fun row => (keep row).1, h.submissions, ?_⟩
    intro shareId
    have hshare : ∀ row, (f row).shareId = row.shareId := fun row => (keep row).2.1
    have hsize : ∀ row, (f row).byteSize = row.byteSize := fun row => (keep row).2.2
    have hsame : usedBytes { s with uploads := s.uploads.map f } shareId = s.usedBytes shareId := by
      simp only [usedBytes, List.filter_map, List.map_map, Function.comp_def, hshare, hsize]
    rw [hsame]
    exact h.room shareId
  refine ⟨hsound, (Grows.refl s).shares, ?_, (Grows.refl s).submissions⟩
  intro shareId uploadId ref href
  obtain ⟨row, hrow, hid, hshare, hprivate⟩ := h.completedRef_eq_some.mp href
  refine hsound.completedRef_eq_some.mpr ⟨row, ?_, hid, hshare, hprivate⟩
  rw [← completed row ref hprivate]
  exact List.mem_map_of_mem hrow

theorem completeUpload_grows [Sha256] {shareId token uploadId privateRef : String} {now : Time}
    {done : Unit} (h : s.Sound)
    (hok : s.completeUpload shareId token uploadId privateRef now = .ok (done, t)) :
    t.Sound ∧ Grows s t := by
  unfold completeUpload at hok
  simp only [bind_eq_ok, pure_eq_ok, Prod.mk.injEq] at hok
  obtain ⟨_, -, _, -, _, -, -, rfl⟩ := hok
  apply h.updateUploads
  · intro row
    split <;> exact ⟨rfl, rfl, rfl⟩
  · intro row ref href
    rw [if_neg (by simp [href])]

/-! ## Submissions -/

/-- What a reservation does: it finds the same work with its receipt, or it is the first. -/
theorem reserveSubmission_cases [Sha256] {shareId token requestId prompt operation : String}
    {refs : List String} {now : Time} {previous : Option Json}
    (hok : s.reserveSubmission shareId token requestId prompt refs operation now =
      .ok (previous, t)) :
    (∃ row receipt, s.submission shareId requestId = some row ∧
        row.fingerprint = fingerprint operation prompt refs ∧ row.receipt = some receipt ∧
        previous = some receipt ∧ t = s) ∨
      s.submission shareId requestId = none ∧ previous = none ∧
        t = { s with submissions := s.submissions ++
          [⟨shareId, requestId, fingerprint operation prompt refs, none, now⟩] } := by
  unfold reserveSubmission at hok
  rw [bind_eq_ok] at hok
  obtain ⟨_, -, hok⟩ := hok
  cases hrow : s.submission shareId requestId with
  | some row =>
      rw [hrow] at hok
      simp only [bind_eq_ok, require_eq_ok, required_eq_ok, pure_eq_ok, Prod.mk.injEq] at hok
      obtain ⟨_, hprint, receipt, hreceipt, rfl, rfl⟩ := hok
      exact .inl ⟨row, receipt, rfl, hprint, hreceipt, rfl, rfl⟩
  | none =>
      rw [hrow] at hok
      simp only [pure_eq_ok, Prod.mk.injEq] at hok
      obtain ⟨rfl, rfl⟩ := hok
      exact .inr ⟨rfl, rfl, rfl⟩

theorem submission_eq_none {shareId requestId : String} :
    s.submission shareId requestId = none ↔ ∀ row ∈ s.submissions, row.key ≠ (shareId, requestId) :=
  Tables.find_eq_none

theorem Sound.submission_eq_some (h : s.Sound) {shareId requestId : String} {row : SubmissionRow} :
    s.submission shareId requestId = some row ↔
      row ∈ s.submissions ∧ row.key = (shareId, requestId) :=
  Tables.find_eq_some h.submissions

/-- A new row for a submission that has none. -/
theorem Sound.addSubmission (h : s.Sound) (row : SubmissionRow)
    (hnone : s.submission row.shareId row.requestId = none) :
    Sound { s with submissions := s.submissions ++ [row] } ∧
      Grows s { s with submissions := s.submissions ++ [row] } := by
  constructor
  · refine ⟨h.shares, h.uploads, Tables.nodup_append_row h.submissions ?_, h.room⟩
    exact submission_eq_none.mp hnone
  · refine ⟨(Grows.refl s).shares, (Grows.refl s).uploads, ?_⟩
    intro old hold
    exact ⟨old, List.mem_append_left _ hold, rfl, rfl, fun _ => id⟩

/-- A receipt is written once, on the row that was reserved. -/
theorem acceptSubmission_grows {shareId requestId : String} {receipt : Json} {done : Unit}
    (h : s.Sound) (hok : s.acceptSubmission shareId requestId receipt = .ok (done, t)) :
    (t.Sound ∧ Grows s t) ∧
      ∃ row ∈ t.submissions, row.key = (shareId, requestId) ∧ row.receipt = some receipt := by
  unfold acceptSubmission at hok
  simp only [bind_eq_ok, require_eq_ok, pure_eq_ok, Prod.mk.injEq] at hok
  obtain ⟨_, hany, -, rfl⟩ := hok
  refine ⟨⟨⟨h.shares, h.uploads, ?_, h.room⟩, (Grows.refl s).shares,
    (Grows.refl s).uploads, ?_⟩, ?_⟩
  · apply Tables.nodup_map h.submissions
    intro row
    split <;> rfl
  · intro row hrow
    refine ⟨_, List.mem_map_of_mem hrow, ?_, ?_, ?_⟩
    · split <;> rfl
    · split <;> rfl
    · intro earlier hearlier
      rw [if_neg (by simp [hearlier])]
      exact hearlier
  · obtain ⟨row, hrow, hselected⟩ := List.any_eq_true.mp hany
    refine ⟨_, List.mem_map_of_mem hrow, ?_, ?_⟩
    · rw [if_pos hselected]
      simp only [Bool.and_eq_true, beq_iff_eq] at hselected
      exact Prod.ext hselected.1.1 hselected.1.2
    · rw [if_pos hselected]

end Store

/-! ## Fingerprints -/

theorem submissionText_inj {operation prompt operation' prompt' : String}
    {refs refs' : List String}
    (h : submissionText operation prompt refs = submissionText operation' prompt' refs') :
    operation = operation' ∧ prompt = prompt' ∧ refs = refs' := by
  have hnil : Json.Delimited [] := by rintro _ _ ⟨⟩
  have htext := congrArg (· ++ []) (utf8_inj h)
  obtain ⟨hvalue, -⟩ := Json.render_inj _ _ hnil hnil htext
  simp only [Json.arr.injEq, List.cons.injEq, Json.str.injEq, and_true] at hvalue
  obtain ⟨hoperation, hprompt, hrefs⟩ := hvalue
  exact ⟨hoperation, hprompt, List.map_injective_iff.mpr (fun _ _ heq => Json.str.inj heq) hrefs⟩

/-- Equal fingerprints are of the same work, or they are a collision of its texts. -/
theorem same_or_collides [Sha256] {operation prompt operation' prompt' : String}
    {refs refs' : List String}
    (h : fingerprint operation prompt refs = fingerprint operation' prompt' refs') :
    (operation = operation' ∧ prompt = prompt' ∧ refs = refs') ∨
      submissionText operation prompt refs ≠ submissionText operation' prompt' refs' ∧
        Sha256.digest (submissionText operation prompt refs) =
          Sha256.digest (submissionText operation' prompt' refs') := by
  by_cases htext : submissionText operation prompt refs = submissionText operation' prompt' refs'
  · exact .inl (submissionText_inj htext)
  · exact .inr ⟨htext, h⟩

end AgentsServer.InteractiveShares
