import AgentsServer.TeamHub.AttachmentUploads
import AgentsServer.TeamHub.Attention

/-!
# The attachment quota

A declaration counts the rows that are held at the time its call read. A row that is
not counted, since it expired, comes back when a call that read the clock before its
expiry completes it or binds it. In runs without such a call the rows of a team that
are held stay within the quota.
-/

namespace AgentsServer.TeamHub

open Library

/-! ## Counting -/

/-- The rows that take up space of a team at a time: a message has it, or it is an
unexpired upload. -/
def AttachmentRow.occupies (teamId : String) (timestamp : Nat) (a : AttachmentRow) : Bool :=
  decide (a.teamId = teamId ∧ (a.messageId.isSome = true ∨
    ((a.state = .uploading ∨ a.state.isReady = true) ∧ timestamp < a.expiresAt)))

def Hub.occupiedBytes (h : Hub) (teamId : String) (timestamp : Nat) : Nat :=
  tally (AttachmentRow.occupies teamId timestamp) AttachmentRow.byteSize h.attachments

theorem AttachmentRow.isCharged_iff {teamId : String} {timestamp : Nat} {a : AttachmentRow} :
    a.isCharged teamId timestamp = true ↔
      a.teamId = teamId ∧ a.state ≠ .failed ∧
        (a.messageId.isSome = true ∨ timestamp < a.expiresAt) := by
  simp [isCharged, isHeld, and_assoc]

/-- The rows that take up space are the ones that the quota counts. -/
theorem RowsSound.occupies_eq {rows : List AttachmentRow} (hs : RowsSound rows) (teamId : String)
    (timestamp : Nat) {a : AttachmentRow} (ha : a ∈ rows) :
    a.occupies teamId timestamp = a.isCharged teamId timestamp := by
  rw [Bool.eq_iff_iff, AttachmentRow.isCharged_iff, AttachmentRow.occupies, decide_eq_true_eq]
  have hbound := hs.bound a ha
  cases hstate : a.state with
  | uploading =>
      rw [hstate] at hbound
      simp
  | failed =>
      rw [hstate] at hbound
      have hnone : a.messageId.isSome ≠ true := fun hsome => nomatch hbound hsome
      simp [hnone, UploadState.isReady]
  | ready readyAt => simp [UploadState.isReady]

theorem usedBytes_eq_tally (h : Hub) (teamId : String) (timestamp : Nat) :
    h.usedBytes teamId timestamp =
      tally (AttachmentRow.isCharged teamId timestamp) AttachmentRow.byteSize h.attachments :=
  rfl

/-- A later time counts no more. -/
theorem AttachmentRow.isCharged_earlier {teamId : String} {early late : Nat} {a : AttachmentRow}
    (le : early ≤ late) (charged : a.isCharged teamId late = true) :
    a.isCharged teamId early = true := by
  rw [isCharged_iff] at charged ⊢
  obtain ⟨team, alive, held⟩ := charged
  exact ⟨team, alive, held.imp_right fun hlt => Nat.lt_of_le_of_lt le hlt⟩

/-- An update in place that charges no row that was not charged. -/
theorem usedBytes_map_le {h t : Hub} {f : AttachmentRow → AttachmentRow} {teamId : String}
    {timestamp later : Nat} (update : t.attachments = h.attachments.map f)
    (size : ∀ a, (f a).byteSize = a.byteSize)
    (charged : ∀ a ∈ h.attachments, (f a).isCharged teamId later = true →
      a.isCharged teamId timestamp = true) :
    t.usedBytes teamId later ≤ h.usedBytes teamId timestamp := by
  rw [usedBytes_eq_tally, usedBytes_eq_tally, update]
  apply tally_map_le
  intro a ha hcharged
  exact ⟨charged a ha hcharged, Nat.le_of_eq (size a)⟩

theorem usedBytes_later (h : Hub) (teamId : String) {early late : Nat} (le : early ≤ late) :
    h.usedBytes teamId late ≤ h.usedBytes teamId early := by
  apply usedBytes_map_le (List.map_id _).symm
  · intro a
    rfl
  · intro a _ charged
    exact AttachmentRow.isCharged_earlier le charged

theorem usedBytes_drops {h t : Hub} (drops : h.DropsAttachments t) (teamId : String)
    (timestamp : Nat) : t.usedBytes teamId timestamp ≤ h.usedBytes teamId timestamp :=
  tally_sublist_le drops

/-! ## Updates of the rows -/

section Updates

variable {h t : Hub}

/-- A message takes only rows that are counted already. -/
theorem Binds.usedBytes_le {call : Call} {rows : List AttachmentRow} {messageId : String}
    {clock : Nat} (hb : Binds h call rows messageId t) (hs : RowsSound h.attachments)
    (held : ∀ row ∈ rows, clock < row.expiresAt) (teamId : String) :
    t.usedBytes teamId clock ≤ h.usedBytes teamId clock := by
  apply usedBytes_map_le hb.attachments
  · intro a
    split <;> rfl
  · intro a ha charged
    split at charged
    · next hany =>
        obtain ⟨row, hrow, hcond⟩ := List.any_eq_true.mp hany
        simp only [decide_eq_true_eq] at hcond
        have this : a = row := hs.selected (hb.selected row hrow).1 ha hcond.2
        have hlater : clock < a.expiresAt := this ▸ held row hrow
        rw [AttachmentRow.isCharged_iff] at charged ⊢
        exact ⟨charged.1, charged.2.1, Or.inr hlater⟩
    · exact charged

/-- An upload that is complete was counted while it went on. -/
theorem readyHub_usedBytes_le {row : AttachmentRow} {timestamp clock : Nat}
    (hs : RowsSound h.attachments) {teamId id : String} (found : h.attachment? teamId id = some row)
    (held : clock < row.expiresAt) (team : String) :
    (readyHub h row timestamp).usedBytes team clock ≤ h.usedBytes team clock := by
  apply usedBytes_map_le rfl
  · intro a
    split <;> rfl
  · intro a ha charged
    split at charged
    · next hthis =>
        have same : a = row := Tables.eq_of_key hs.ids ha (attachment?_names found).1 hthis.1
        rw [AttachmentRow.isCharged_iff] at charged ⊢
        refine ⟨charged.1, ?_, Or.inr (same ▸ held)⟩
        rw [hthis.2]
        exact UploadState.noConfusion
    · exact charged

theorem setReceived_usedBytes_le (id : String) (n : Nat) (teamId : String) (clock : Nat) :
    (h.setReceived id n).usedBytes teamId clock ≤ h.usedBytes teamId clock := by
  apply usedBytes_map_le rfl
  · intro a
    split <;> rfl
  · intro a _ charged
    split at charged
    · exact charged
    · exact charged

theorem markFailed_usedBytes_le (teamId id team : String) (clock : Nat) :
    (h.markFailed teamId id).usedBytes team clock ≤ h.usedBytes team clock := by
  apply usedBytes_map_le rfl
  · intro a
    split <;> rfl
  · intro a _ charged
    split at charged
    · rw [AttachmentRow.isCharged_iff] at charged
      exact absurd rfl charged.2.1
    · exact charged

/-- A declaration fits at the time its call read, and later no less. -/
theorem Declared.usedBytes_le [Sha256] {limits : AttachmentLimits} {s u : AttachmentStore} {teamId : String}
    {timestamp clock : Nat} {row : AttachmentRow} (d : Declared limits s u teamId timestamp row)
    (read : timestamp ≤ clock)
    (quota : ∀ team, s.hub.usedBytes team clock ≤ limits.quotaBytes) (team : String) :
    u.hub.usedBytes team clock ≤ limits.quotaBytes := by
  obtain ⟨requests, hhub⟩ := d.hub
  have hsplit : u.hub.usedBytes team clock = s.hub.usedBytes team clock +
      tally (AttachmentRow.isCharged team clock) AttachmentRow.byteSize [row] := by
    rw [hhub]
    exact tally_append
  rw [hsplit, tally_cons]
  by_cases charged : row.isCharged team clock = true
  · have hteam : team = teamId := (AttachmentRow.isCharged_iff.mp charged).1.symm.trans d.team
    have hlater := usedBytes_later s.hub teamId read
    have hfits := d.quota
    rw [if_pos charged, hteam]
    change _ + (_ + 0) ≤ _
    omega
  · rw [if_neg charged]
    exact quota team

/-- An upload that goes on has no message, so it is held while it is unexpired. -/
theorem Uploads.unexpired {call : ChunkCall} {s : AttachmentStore} {row : AttachmentRow}
    (uploads : Uploads call s row) (hs : RowsSound s.hub.attachments) :
    call.timestamp < row.expiresAt := by
  have hbound := hs.bound row (attachment?_names uploads.found).1
  have held := uploads.held
  rw [AttachmentRow.isHeld, Bool.or_eq_true, decide_eq_true_eq] at held
  rcases held with hsome | hlt
  · have hready := hbound hsome
    rw [uploads.uploading] at hready
    cases hready
  · exact hlt

end Updates

/-! ## Calls that are not late -/

section Runs

variable [Sha256] [UnicodeTables] [Conversions]

/-- The call brings back no row that expired since it read the clock. -/
def HostAction.Timely (s : AttachmentHost) : HostAction → Prop
  | .call c => ∀ fields request, c.operation = .create fields →
      createRequest fields = .ok request → ∀ id ∈ request.attachmentIds, ∀ row,
        s.store.hub.attachment? c.teamId id = some row → row.messageId = none →
          c.context.timestamp < row.expiresAt → s.clock < row.expiresAt
  | .chunk c _ => ∀ row, s.store.hub.attachment? c.teamId c.id = some row →
      row.state = .uploading → c.chunk.Completes row →
        c.timestamp < row.expiresAt → s.clock < row.expiresAt
  | _ => True

/-- The tables stay within the quota of the host. -/
structure WithinQuota (limits : AttachmentLimits) (s : AttachmentHost) : Prop where
  sameLimits : s.limits = limits
  rows : RowsSound s.store.hub.attachments
  quota : ∀ teamId, s.store.hub.usedBytes teamId s.clock ≤ limits.quotaBytes

theorem WithinQuota.step {limits : AttachmentLimits} {s u : AttachmentHost} {a : HostAction}
    (inv : WithinQuota limits s) (effect : HostEffect s a u) (timely : a.Timely s) :
    WithinQuota limits u := by
  have rows := inv.rows.step effect
  cases effect with
  | leased => exact ⟨inv.sameLimits, rows, inv.quota⟩
  | ticked seconds =>
      refine ⟨inv.sameLimits, rows, ?_⟩
      intro teamId
      exact (usedBytes_later _ teamId (Nat.le_add_right _ seconds)).trans (inv.quota teamId)
  | called call =>
      refine ⟨inv.sameLimits, rows, ?_⟩
      intro teamId
      rcases step_attachments s.store.hub call with
        hsame | ⟨fields, request, bound, messageId, operation, checked, named, hb⟩
      · have hused : (TeamHub.step s.store.hub call).1.usedBytes teamId s.clock =
            s.store.hub.usedBytes teamId s.clock := by
          rw [usedBytes_eq_tally, hsame, usedBytes_eq_tally]
        exact hused.trans_le (inv.quota teamId)
      · refine (hb.usedBytes_le inv.rows ?_ teamId).trans (inv.quota teamId)
        intro row hrow
        obtain ⟨found, hbindable⟩ := hb.selected row hrow
        unfold Hub.bindable at hbindable
        simp only [Bool.and_eq_true, Option.isNone_iff_eq_none, decide_eq_true_eq] at hbindable
        exact timely fields request operation checked row.id (named row hrow) row found
          hbindable.1.1.2 hbindable.2
  | declared read left =>
      refine ⟨inv.sameLimits, rows, ?_⟩
      rcases left with q | ⟨row, d⟩
      · rw [q.hub]
        exact inv.quota
      · rw [inv.sameLimits] at d
        exact d.usedBytes_le read inv.quota
  | chunked lease left =>
      refine ⟨inv.sameLimits, rows, ?_⟩
      intro teamId
      refine le_trans ?_ (inv.quota teamId)
      cases left with
      | quiet q => rw [q.hub]
      | mismatch _ hub => rw [hub]
      | published _ hub => rw [hub]
      | received _ hub =>
          rw [hub]
          exact setReceived_usedBytes_le _ _ _ _
      | ready uploads completes hub =>
          rw [hub]
          apply readyHub_usedBytes_le inv.rows uploads.found
          exact timely _ uploads.found uploads.uploading completes (uploads.unexpired inv.rows)
  | failed =>
      refine ⟨inv.sameLimits, rows, ?_⟩
      intro teamId
      exact (markFailed_usedBytes_le _ _ _ _).trans (inv.quota teamId)
  | purged _ purge =>
      refine ⟨inv.sameLimits, rows, ?_⟩
      intro teamId
      exact (usedBytes_drops (purgeExpired_drops purge) _ _).trans (inv.quota teamId)
  | cleaned kind key _ =>
      refine ⟨inv.sameLimits, rows, ?_⟩
      rw [cleanOne_hub]
      exact inv.quota
  | settled => exact ⟨inv.sameLimits, rows, inv.quota⟩

omit [Sha256] [UnicodeTables] [Conversions] in
theorem WithinQuota.start (limits : AttachmentLimits) :
    WithinQuota limits (AttachmentHost.start limits) where
  sameLimits := rfl
  rows := ⟨List.nodup_nil, fun _ ha => nomatch ha⟩
  quota _ := Nat.zero_le _

end Runs

/-! ## A late call -/

/-- A stand-in for the digest that tells inputs of different lengths apart. -/
@[reducible] def lengthDigest : Sha256 where
  digest bytes := UInt8.ofNat bytes.length :: List.replicate 31 0
  length_digest _ := rfl

def tokenOf (n : Nat) : TokenHex where
  text := hexText (UInt8.ofNat n :: List.replicate 15 0)
  hex := isHexOf_hexText _

/-- A key of `8 + n` characters. -/
def keyOf (n : Nat) : String :=
  String.ofList (List.replicate (8 + n) 'k')

/-- The digest of one byte. -/
def oneByteKey : String :=
  "0100000000000000000000000000000000000000000000000000000000000000"

def declareFields (n size : Nat) : List (String × Json) :=
  [("file_name", .str "f"), ("media_type", .str "text/plain"), ("byte_size", number size),
    ("sha256", .str oneByteKey), ("idempotency_key", .str (keyOf n))]

/-- A declaration with the reclamation before it. -/
def declareCall (n size timestamp : Nat) : List HostAction :=
  reclaim (some "t") timestamp attachmentReclaimBatch ++
    [.declare serverContext.caller (tokenOf n) "t" (declareFields n size) timestamp none]

theorem declareCall_run [Sha256] [UnicodeTables] [Conversions] (s : AttachmentHost)
    (n size timestamp : Nat) :
    Runs.run AttachmentHost.step s (declareCall n size timestamp) =
      (AttachmentHost.step (Runs.run AttachmentHost.step s
          (reclaim (some "t") timestamp attachmentReclaimBatch))
        (.declare serverContext.caller (tokenOf n) "t" (declareFields n size) timestamp none)).1 := by
  rw [declareCall, Runs.run_append, Runs.run_cons, Runs.run_nil]

def declareKey (n : Nat) : RequestKey :=
  ⟨"t", "p", "team.attachment.declare", keyOf n⟩

def backlogRequest (n size : Nat) : DeclareRequest :=
  ⟨"f", "text/plain", size, oneByteKey, keyOf n⟩

section Backlog

attribute [local instance] lengthDigest sameCase noConversions

def backlogRow (n size timestamp : Nat) : AttachmentRow :=
  declaredRow (backlogRequest n size) serverContext.caller (tokenOf n) (declareKey n) (some "n")
    false timestamp

theorem tokenOf_inj {m n : Nat} (hm : m < 256) (hn : n < 256)
    (h : (tokenOf m).text = (tokenOf n).text) : m = n := by
  have hbytes := hexText_inj h
  have hbyte := congrArg UInt8.toNat (List.head_eq_of_cons_eq hbytes)
  simpa [UInt8.toNat_ofNat', Nat.mod_eq_of_lt, hm, hn] using hbyte

theorem backlogRow_id_ne {m n : Nat} (hm : m < 256) (hn : n < 256) (hne : m ≠ n)
    (size size' t t' : Nat) : (backlogRow m size t).id ≠ (backlogRow n size' t').id := by
  intro h
  exact hne (tokenOf_inj hm hn (newId_inj h))

theorem utf8_length_replicate (n : Nat) : (utf8 (List.replicate n 'k')).length = n := by
  induction n with
  | zero => rfl
  | succ n ih =>
      have hone : (utf8 ['k']).length = 1 := by decide
      have hsplit : List.replicate (n + 1) 'k' = ['k'] ++ List.replicate n 'k' := rfl
      rw [hsplit, utf8_append, List.length_append, ih]
      omega

theorem keyHash_ne {m n : Nat} (hm : m < 200) (hn : n < 200) (hne : m ≠ n) :
    (declareKey m).keyHash ≠ (declareKey n).keyHash := by
  intro h
  have hbyte := congrArg UInt8.toNat (List.head_eq_of_cons_eq h)
  simp only [declareKey, keyOf, String.toList_ofList, utf8_length_replicate,
    UInt8.toNat_ofNat'] at hbyte
  omega

theorem rowKey_ne {m n : Nat} (hm : m < 200) (hn : n < 200) (hne : m ≠ n) :
    (declareKey m).rowKey ≠ (declareKey n).rowKey := by
  intro h
  have hbyte := congrArg UInt8.toNat (List.head_eq_of_cons_eq h)
  simp only [declareKey, keyOf, String.toList_ofList, utf8_append, List.length_append,
    utf8_length_replicate, UInt8.toNat_ofNat'] at hbyte
  have hfixed : (utf8 "t".toList).length + (utf8 [Char.ofNat 0]).length + (utf8 "p".toList).length +
      (utf8 [Char.ofNat 0]).length + (utf8 "team.attachment.declare".toList).length +
      (utf8 [Char.ofNat 0]).length = 28 := by decide
  omega

/-- Unfinished uploads of one client, each under its own number below `n`. -/
structure Backlog (limits : AttachmentLimits) (clock n : Nat) (rows : List AttachmentRow)
    (s : AttachmentHost) : Prop where
  sameLimits : s.limits = limits
  atClock : s.clock = clock
  free : s.lease = .free
  staging : ∀ id, s.store.staging id = none
  content : ∀ key, s.store.content key = none
  attachments : s.store.hub.attachments = rows
  numbered : ∀ a ∈ rows, ∃ m < n, ∃ size timestamp, a = backlogRow m size timestamp
  requests : ∀ r ∈ s.store.hub.requests, ∃ m < n, r.keyHash = (declareKey m).keyHash

variable {limits : AttachmentLimits} {clock n size timestamp : Nat} {rows : List AttachmentRow}
  {s : AttachmentHost}

theorem keyOf_length (hn : n < 200) : 8 ≤ (keyOf n).length ∧ (keyOf n).length ≤ 240 := by
  rw [keyOf, String.length_ofList, List.length_replicate]
  omega

theorem declareRequest_fields (hsize : size = 1 ∨ size = 129) (fits : size ≤ limits.maxBytes)
    (hn : n < 200) : declareRequest limits (declareFields n size) = .ok (backlogRequest n size) := by
  have hkey : teamIdempotencyKey (declareFields n size) = .ok (keyOf n) := by
    have hfield : get (declareFields n size) "idempotency_key" = .str (keyOf n) := rfl
    unfold teamIdempotencyKey
    rw [hfield]
    dsimp only
    rw [require_bind (keyOf_length hn)]
    rfl
  have hint : (get (declareFields n size) "byte_size").int? = some (size : Int) := by
    rcases hsize with rfl | rfl
    · rfl
    · rfl
  have hdigest : teamSha256Hex (.str oneByteKey) = .ok oneByteKey := by decide
  have hname : isAttachmentFileName "f".toList = true := by decide
  have hmedia : isMediaType (strip "text/plain".toList) = true := by decide
  have hstrip : String.ofList (strip "text/plain".toList) = "text/plain" := by decide
  have hpositive : (1 : Int) ≤ size := by omega
  have hfits : (size : Int) ≤ limits.maxBytes := by omega
  simp only [declareRequest, bind_eq_ok, required_eq_ok, require_eq_ok, pure_eq_ok]
  refine ⟨"f", rfl, (), hname, "text/plain", rfl, (), hmedia, size, hint, (), hpositive, (), hfits,
    oneByteKey, hdigest, keyOf n, hkey, ?_⟩
  rw [hstrip, Int.toNat_natCast]
  rfl

theorem backlogRow_valid (n size timestamp : Nat) :
    isPrefixedHex "tatt_" 32 (backlogRow n size timestamp).id = true ∧
      isStorageKey (backlogRow n size timestamp).storageKey = true := by
  have hkey : isStorageKey oneByteKey = true := by decide
  exact ⟨(isPrefixedHex_newId "tatt" (tokenOf n)).trans (tokenOf n).hex, hkey⟩

namespace Backlog

/-- A reclamation leaves a backlog. -/
theorem reclaims (b : Backlog limits clock n rows s) (read : timestamp ≤ clock) :
    Backlog limits clock n (rows.filter fun a => a.id ∉
        (s.store.hub.expiredAttachments (some "t") timestamp attachmentReclaimBatch).map
          AttachmentRow.id)
      (Runs.run AttachmentHost.step s (reclaim (some "t") timestamp attachmentReclaimBatch)) := by
  have valid : ∀ a ∈ s.store.hub.attachments,
      isPrefixedHex "tatt_" 32 a.id = true ∧ isStorageKey a.storageKey = true := by
    intro a ha
    obtain ⟨m, _, size, timestamp, rfl⟩ := b.numbered a (b.attachments ▸ ha)
    exact backlogRow_valid m size timestamp
  have sized : 1 ≤ (attachmentReclaimBatch : Int) ∧ (attachmentReclaimBatch : Int) ≤ 4096 := by
    decide
  obtain ⟨purged, purge, requests, attachments⟩ :=
    purgeExpired_ok s.store.hub (some "t") timestamp sized valid
  obtain ⟨cleanup, reclaimed⟩ := reclaim_run b.free (b.atClock ▸ read) purge b.staging b.content
  rw [reclaimed]
  refine ⟨b.sameLimits, b.atClock, b.free, b.staging, b.content, ?_, ?_, ?_⟩
  · rw [← b.attachments]
    exact attachments
  · intro a ha
    exact b.numbered a (List.mem_of_mem_filter ha)
  · intro r hr
    exact b.requests r (requests ▸ hr)

theorem unanswered (b : Backlog limits clock n rows s) (hn : n < 200) :
    s.store.hub.request? (declareKey n) = none := by
  rw [Hub.request?, List.find?_eq_none]
  intro r hr hnames
  obtain ⟨m, hm, hhash⟩ := b.requests r hr
  have hsame := (of_decide_eq_true hnames).2.2.2
  exact keyHash_ne (by omega) hn (by omega) (hhash.symm.trans hsame)

/-- A declaration within the quota adds its row. -/
theorem declares (b : Backlog limits clock n rows s) (hn : n < 200)
    (hsize : size = 1 ∨ size = 129) (fits : size ≤ limits.maxBytes) (read : timestamp ≤ clock)
    (quota : s.store.hub.usedBytes "t" timestamp + size ≤ limits.quotaBytes) :
    Backlog limits clock (n + 1) (rows ++ [backlogRow n size timestamp])
      (AttachmentHost.step s (.declare serverContext.caller (tokenOf n) "t"
        (declareFields n size) timestamp none)).1 := by
  have unanswered := b.unanswered hn
  have lookup : s.store.hub.idempotencyLookup (declareKey n)
      ((backlogRequest n size).fingerprint "t") = .ok none := by
    have checked : require (8 ≤ (declareKey n).key.length ∧ (declareKey n).key.length ≤ 240)
        (invalidRequest "idempotency_key must be 8-240 characters") = .ok () :=
      (require_eq_ok _ _ _).mpr (keyOf_length hn)
    rw [Hub.idempotencyLookup, checked, unanswered]
    rfl
  have unique : s.store.hub.hasDuplicateReady "t" (backlogRequest n size) timestamp = false := by
    rw [Hub.hasDuplicateReady, List.any_eq_false]
    intro a ha
    obtain ⟨m, _, size, t, rfl⟩ := b.numbered a (b.attachments ▸ ha)
    simp [backlogRow, declaredRow, UploadState.isReady]
  have fresh : ∀ a ∈ s.store.hub.attachments, a.id ≠ (backlogRow n size timestamp).id ∧
      a.idempotencyKey ≠ (backlogRow n size timestamp).idempotencyKey := by
    intro a ha
    obtain ⟨m, hm, size', t, rfl⟩ := b.numbered a (b.attachments ▸ ha)
    exact ⟨backlogRow_id_ne (by omega) (by omega) (by omega) _ _ _ _,
      rowKey_ne (by omega) hn (by omega)⟩
  have short : (backlogRow n size timestamp).mediaType.length ≤ 160 := by
    have hlength : "text/plain".length ≤ 160 := by decide
    exact hlength
  have recorded : serverContext.caller.recorded = .ok () := rfl
  have insert := insertDeclared_ok ((backlogRequest n size).fingerprint "t") short fresh unanswered
    recorded
  have final : (declareTeamAttachment limits serverContext.caller (tokenOf n) "t"
      (declareFields n size) timestamp).final s.store = _ :=
    declare_final (k := declareKey n) (declareRequest_fields hsize fits hn) rfl rfl lookup quota rfl
      unique insert
  rw [step_leased (a := .declare serverContext.caller (tokenOf n) "t" (declareFields n size)
    timestamp none) b.free (b.atClock ▸ read) rfl, AttachmentHost.leased, AttachmentStore.after,
    b.sameLimits, final]
  refine ⟨rfl, b.atClock, b.free, b.staging, b.content, ?_, ?_, ?_⟩
  · exact congrArg (· ++ [backlogRow n size timestamp]) b.attachments
  · intro a ha
    rcases List.mem_append.mp ha with ha | ha
    · obtain ⟨m, hm, rest⟩ := b.numbered a ha
      exact ⟨m, by omega, rest⟩
    · exact ⟨n, Nat.lt_succ_self n, size, timestamp, List.mem_singleton.mp ha⟩
  · intro r hr
    rcases List.mem_append.mp hr with hr | hr
    · obtain ⟨m, hm, hhash⟩ := b.requests r hr
      exact ⟨m, by omega, hhash⟩
    · rw [List.mem_singleton.mp hr]
      exact ⟨n, Nat.lt_succ_self n, rfl⟩

/-- No row is expired yet. -/
theorem keeps (b : Backlog limits clock n rows s) (read : timestamp ≤ clock)
    (unexpired : ∀ a ∈ rows, timestamp < a.expiresAt) :
    Backlog limits clock n rows
      (Runs.run AttachmentHost.step s (reclaim (some "t") timestamp attachmentReclaimBatch)) := by
  have none : s.store.hub.expiredAttachments (some "t") timestamp attachmentReclaimBatch = [] := by
    have empty : (s.store.hub.attachments.filter fun a => a.messageId = Option.none ∧
        a.expiresAt ≤ timestamp ∧ ∀ team ∈ some "t", a.teamId = team) = [] := by
      rw [List.filter_eq_nil_iff, b.attachments]
      intro a ha hcond
      have hexpired := (of_decide_eq_true hcond).2.1
      have hunexpired := unexpired a ha
      omega
    rw [Hub.expiredAttachments, empty]
    rfl
  have kept := b.reclaims read
  rw [none] at kept
  simpa using kept

end Backlog

theorem orderedInsert_concat {α : Type*} {r : α → α → Prop} [DecidableRel r] {a last : α}
    {items : List α} (h : r a last) :
    (items ++ [last]).orderedInsert r a = items.orderedInsert r a ++ [last] := by
  induction items with
  | nil => simp [h]
  | cons b rest ih =>
      by_cases hab : r a b
      · simp [hab]
      · simp [hab, ih]

theorem insertionSort_concat {α : Type*} {r : α → α → Prop} [DecidableRel r] {last : α}
    {items : List α} (h : ∀ a ∈ items, r a last) :
    (items ++ [last]).insertionSort r = items.insertionSort r ++ [last] := by
  induction items with
  | nil => rfl
  | cons a rest ih =>
      have hrest := ih fun b hb => h b (List.mem_cons_of_mem _ hb)
      rw [List.cons_append, List.insertionSort_cons, hrest,
        orderedInsert_concat (h a List.mem_cons_self), List.insertionSort_cons]

/-- Uploads of one byte each. -/
def fillers (n : Nat) : List AttachmentRow :=
  (List.range n).map fun m => backlogRow m 1 0

theorem fillers_expiry {n : Nat} {a : AttachmentRow} (ha : a ∈ fillers n) : a.expiresAt = 86400 := by
  obtain ⟨m, _, rfl⟩ := List.mem_map.mp ha
  rfl

theorem fillers_used (h : Hub) (attachments : h.attachments = fillers n) (timestamp : Nat) :
    h.usedBytes "t" timestamp ≤ n := by
  have small : ∀ a ∈ fillers n, a.byteSize ≤ 1 := by
    intro a ha
    obtain ⟨m, _, rfl⟩ := List.mem_map.mp ha
    exact Nat.le_refl 1
  have hle : tally (AttachmentRow.isCharged "t" timestamp) AttachmentRow.byteSize (fillers n) ≤
      (fillers n).length * 1 := tally_le_mul small
  rw [usedBytes_eq_tally, attachments]
  rwa [fillers, List.length_map, List.length_range, Nat.mul_one] at hle

/-- The first `n` uploads. -/
theorem backlog_filled (quota : 129 ≤ limits.quotaBytes) (fits : 1 ≤ limits.maxBytes) (hn : n ≤ 128) :
    Backlog limits 0 n (fillers n) (Runs.run AttachmentHost.step (.start limits)
      ((List.range n).flatMap fun m => declareCall m 1 0)) := by
  induction n with
  | zero =>
      exact ⟨rfl, rfl, rfl, fun _ => rfl, fun _ => rfl, rfl,
        fun _ ha => absurd ha List.not_mem_nil, fun _ hr => absurd hr List.not_mem_nil⟩
  | succ n ih =>
      have b := ih (by omega)
      have kept := b.keeps (Nat.le_refl 0) fun a ha => by
        rw [fillers_expiry ha]
        decide
      have used := fillers_used _ kept.attachments 0
      have next := kept.declares (by omega) (Or.inl rfl) fits (Nat.le_refl 0) (by omega)
      have rows : fillers (n + 1) = fillers n ++ [backlogRow n 1 0] := by
        rw [fillers, List.range_succ, List.map_append]
        rfl
      rw [rows, List.range_succ, List.flatMap_append, Runs.run_append, List.flatMap_singleton,
        declareCall_run]
      exact next

/-- The upload that is left over. -/
def lastRow : AttachmentRow :=
  backlogRow 128 1 1

/-- The reclamation takes the fillers, and its batch is full before the last row. -/
theorem reclaims_fillers {h : Hub} (attachments : h.attachments = fillers 128 ++ [lastRow]) :
    h.expiredAttachments (some "t") 86401 attachmentReclaimBatch =
      (fillers 128).insertionSort AttachmentRow.ReclaimedBefore := by
  have all : (h.attachments.filter fun a => a.messageId = none ∧ a.expiresAt ≤ 86401 ∧
      ∀ team ∈ some "t", a.teamId = team) = fillers 128 ++ [lastRow] := by
    rw [attachments, List.filter_eq_self]
    intro a ha
    have expired : a.messageId = none ∧ a.expiresAt ≤ 86401 ∧ a.teamId = "t" := by
      rcases List.mem_append.mp ha with ha | ha
      · have hexpiry := fillers_expiry ha
        obtain ⟨m, _, rfl⟩ := List.mem_map.mp ha
        exact ⟨rfl, hexpiry.trans_le (by decide), rfl⟩
      · rw [List.mem_singleton.mp ha]
        exact ⟨rfl, by decide, rfl⟩
    exact decide_eq_true ⟨expired.1, expired.2.1, fun _ hteam => Option.some.inj hteam ▸ expired.2.2⟩
  have before : ∀ a ∈ fillers 128, a.ReclaimedBefore lastRow := by
    intro a ha
    exact Or.inl (by rw [fillers_expiry ha]; decide)
  rw [Hub.expiredAttachments, all, insertionSort_concat before]
  have length : ((fillers 128).insertionSort AttachmentRow.ReclaimedBefore).length =
      attachmentReclaimBatch := by
    rw [List.length_insertionSort, fillers, List.length_map, List.length_range]
    rfl
  rw [← length, List.take_left]

/-- What the reclamation leaves. -/
theorem filter_reclaimed : ((fillers 128 ++ [lastRow]).filter fun a => a.id ∉
    ((fillers 128).insertionSort AttachmentRow.ReclaimedBefore).map AttachmentRow.id) =
      [lastRow] := by
  rw [List.filter_append, List.filter_eq_nil_iff.mpr, List.nil_append, List.filter_eq_self.mpr]
  · intro a ha
    rw [List.mem_singleton.mp ha, decide_eq_true_eq]
    intro hid
    obtain ⟨b, hb, heq⟩ := List.mem_map.mp hid
    obtain ⟨m, hm, rfl⟩ := List.mem_map.mp ((List.mem_insertionSort _).mp hb)
    have hlt := List.mem_range.mp hm
    exact backlogRow_id_ne (by omega) (by omega) (by omega) 1 1 0 1 heq
  · intro a ha
    rw [decide_eq_true_eq, not_not]
    exact List.mem_map_of_mem ((List.mem_insertionSort _).mpr ha)

theorem Backlog.ticks (b : Backlog limits clock n rows s) (seconds : Nat) :
    Backlog limits (clock + seconds) n rows (AttachmentHost.step s (.tick seconds)).1 :=
  ⟨b.sameLimits, congrArg (· + seconds) b.atClock, b.free, b.staging, b.content, b.attachments,
    b.numbered, b.requests⟩

/-- The last bytes of the row that is left over, read before it expired. -/
def lateChunk : ChunkCall where
  caller := serverContext.caller
  teamId := "t"
  id := lastRow.id
  chunk := { offset := 0, total := 1, data := [7], writes := [] }
  timestamp := 86400

/-- A day after 128 uploads and one more were declared, a large upload is declared. -/
def lateStart : List HostAction :=
  ((List.range 128).flatMap fun m => declareCall m 1 0) ++
    (.tick 1 :: (declareCall 128 1 1 ++ (.tick 86400 :: declareCall 129 129 86401)))

/-- The chunk that completes the one more waited for the lease meanwhile. -/
def lateRun : List HostAction :=
  lateStart ++ [.chunk lateChunk none]

theorem lastRow_uncounted (h : Hub) (attachments : h.attachments = [lastRow]) :
    h.usedBytes "t" 86401 = 0 := by
  rw [usedBytes_eq_tally, attachments]
  decide

theorem lateStart_backlog (limits : AttachmentLimits) (quota : limits.quotaBytes = 129) (fits : 129 ≤ limits.maxBytes) :
    Backlog limits 86401 130 [lastRow, backlogRow 129 129 86401]
      (Runs.run AttachmentHost.step (.start limits) lateStart) := by
  have filled : Backlog limits 1 128 (fillers 128) _ :=
    (backlog_filled (Nat.le_of_eq quota.symm) (by omega) (Nat.le_refl _)).ticks 1
  have kept := filled.keeps (Nat.le_refl 1) fun a ha => by
    rw [fillers_expiry ha]
    decide
  have used := fillers_used _ kept.attachments 1
  have full : Backlog limits 86401 129 (fillers 128 ++ [lastRow]) _ :=
    (kept.declares (by decide) (Or.inl rfl) (by omega) (Nat.le_refl 1) (by omega)).ticks 86400
  have reclaimed := full.reclaims (Nat.le_refl 86401)
  rw [reclaims_fillers full.attachments, filter_reclaimed] at reclaimed
  have uncounted := lastRow_uncounted _ reclaimed.attachments
  have declared := reclaimed.declares (by decide) (Or.inr rfl) fits (Nat.le_refl 86401)
    (by rw [uncounted, quota])
  rw [lateStart, Runs.run_append, Runs.run_cons, Runs.run_append, declareCall_run, Runs.run_cons,
    declareCall_run]
  exact declared

/-- The late chunk completes the row that the large upload did not count. -/
theorem late_ready (b : Backlog limits 86401 130 [lastRow, backlogRow 129 129 86401] s) :
    (AttachmentHost.step s (.chunk lateChunk none)).1.store.hub =
        readyHub s.store.hub lastRow 86400 ∧
      (AttachmentHost.step s (.chunk lateChunk none)).1.clock = 86401 := by
  have found : s.store.hub.attachment? "t" lastRow.id = some lastRow := by
    rw [Hub.attachment?, b.attachments]
    exact List.find?_cons_of_pos (by decide)
  have whole : WholeUpload lateChunk s.store lastRow :=
    ⟨⟨found, rfl, by decide⟩, rfl, ⟨_, rfl⟩, rfl, rfl, rfl, rfl, by decide, rfl, b.staging _,
      b.content _⟩
  have digest : Sha256.hexdigest lateChunk.chunk.data = lastRow.storageKey := by decide
  have ready := whole.ready digest (by decide) rfl
  have read : (HostAction.chunk lateChunk none).timestamp ≤ s.clock := by
    rw [b.atClock]
    decide
  rw [step_leased b.free read rfl]
  unfold AttachmentHost.leased AttachmentHost.chunk
  dsimp only
  split
  · exact ⟨ready, b.atClock⟩
  · exact ⟨ready, b.atClock⟩

/-- An upload that is declared and completed at once. -/
def timelyRun : List HostAction :=
  [.declare serverContext.caller (tokenOf 128) "t" (declareFields 128 1) 0 none,
    .chunk { lateChunk with timestamp := 0 } none]

theorem timelyRun_timely (limits : AttachmentLimits) :
    ∀ e ∈ Runs.history AttachmentHost.step (.start limits) timelyRun, e.action.Timely e.before := by
  intro e he
  rw [timelyRun, Runs.history_cons, Runs.history_cons, Runs.history_nil] at he
  rcases List.mem_cons.mp he with rfl | he
  · trivial
  · rw [List.mem_singleton.mp he]
    intro row _ _ _ unexpired
    exact unexpired

end Backlog

end AgentsServer.TeamHub
