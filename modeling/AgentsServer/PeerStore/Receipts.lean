import AgentsServer.PeerStore.Leases

/-!
# Receipts of relayed envelopes

A receipt is recorded once, by the server of the target route under the current lease, and
a replay of it is answered from its record.
-/

namespace AgentsServer.PeerStore

open Library

variable {hostServerIdentity : String}

/-! ## The events -/

/-- The server that a receiver stands for. -/
def Receiver.serverIdentity (hostServerIdentity : String) : Receiver → String
  | .peer caller => caller.peerServerIdentity
  | .host .. => hostServerIdentity

/-- The first receipt of a leased envelope, by the server of its target route. -/
def Records [Sha256] (hostServerIdentity : String) (e : HostEvent) (r : RelayReceipt) : Prop :=
  ∃ receiver token available,
    e.action.1 = .receiptEnvelope receiver r.envelopeId token r.outcome available ∧
    e.outcome = .ok (.receipted ⟨r.envelopeId, r.outcome, e.action.2⟩) ∧
    r.receivedAt = e.action.2 ∧ r.targetPeerId = receiver.peerId ∧
    ∃ x ∈ e.before.db.envelopes, x.id = r.envelopeId ∧ x.targetRouteId = r.targetRouteId ∧
      x.leasedTo (Sha256.digest (utf8 token.toList)) e.action.2 = true ∧
      e.action.2 < x.expiresAt ∧ ∃ target ∈ e.before.db.routes, target.id = x.targetRouteId ∧
      target.status = .active ∧ target.revision = x.targetRouteRevision ∧
      target.serverIdentity = receiver.serverIdentity hostServerIdentity ∧
      target.peerId = receiver.peerId

/-- The receipt passes its own checks. -/
def Db.MayReceipt (db : Db) (receiver : Receiver) (envelopeId token : String)
    (available : Bool) : Prop :=
  isUuid4 envelopeId = true ∧ (32 ≤ token.length ∧ token.length ≤ 96) ∧
    ∃ epoch, db.requireCrossChat available receiver.authorization = .ok epoch

/-! ## What a receipt checks -/

theorem Db.checkReceiptRoutes_eq {db : Db} {receiver : Receiver} {x : RelayEnvelope}
    {target : PeerRoute} (haddressed : addressedTo hostServerIdentity receiver x = true)
    (h : db.checkReceiptRoutes hostServerIdentity receiver x = .ok target) :
    target ∈ db.routes ∧ target.id = x.targetRouteId ∧ target.status = .active ∧
      target.revision = x.targetRouteRevision ∧
      target.serverIdentity = receiver.serverIdentity hostServerIdentity ∧
      match receiver with
      | .peer caller => target.peerId = some caller.peerId
      | .host .. => target.targetKind = .host := by
  unfold checkReceiptRoutes at h
  simp only [bind_eq_ok, required_eq_ok, require_eq_ok] at h
  obtain ⟨found, hfound, _, -, h⟩ := h
  obtain ⟨hroute, hrevision⟩ := Option.filter_eq_some_iff.mp hfound
  cases receiver with
  | peer caller =>
      simp only [Receiver.authorization, bind_eq_ok, pure_eq_ok] at h
      obtain ⟨_, -, rfl⟩ := h
      obtain ⟨hfind, hsel⟩ := Option.filter_eq_some_iff.mp hroute
      obtain ⟨hmem, hid⟩ := Tables.find_mem hfind
      simp only [Bool.and_eq_true, beq_iff_eq] at hsel hrevision
      exact ⟨hmem, hid, hsel.1.1.1.1, hrevision, hsel.1.1.2, hsel.1.1.1.2⟩
  | host teamId routeId =>
      simp only [Receiver.authorization, pure_eq_ok] at h
      subst h
      obtain ⟨hfind, hsel⟩ := Option.filter_eq_some_iff.mp hroute
      obtain ⟨hmem, hid⟩ := Tables.find_mem hfind
      simp only [addressedTo, Bool.and_eq_true, beq_iff_eq] at hsel hrevision haddressed
      exact ⟨hmem, hid.trans haddressed.2.symm, hsel.1.1.1, hrevision, hsel.1.1.2, hsel.2⟩

section Receipts

variable [Sha256] [CertificateEncoding]

/-- A new receipt is recorded by its receiver under the current lease. -/
theorem receipt_recorded {h : Host} {act : HostCall × Nat} {r : RelayReceipt}
    (consistent : h.Consistent hostServerIdentity)
    (hr : r ∈ (step hostServerIdentity h act).1.db.receipts) (new : r ∉ h.db.receipts) :
    Records hostServerIdentity ⟨h, act, (step hostServerIdentity h act).2⟩ r := by
  have hcall : act.1.touched = .receipted r.envelopeId := by
    have hkept : ∀ r ∈ (step hostServerIdentity h act).1.db.core.receipts,
        r ∈ h.db.receipts ∨ act.1.touched = .receipted r.envelopeId := by
      refine step_keep (P := fun c : Core => ∀ r ∈ c.receipts, r ∈ h.db.receipts ∨
        act.1.touched = .receipted r.envelopeId) h act ?_ fun r hr => .inl hr
      intro c c' hchange hcore r hr
      cases hchange with
      | settle _ _ _ named =>
          rcases List.mem_append.mp hr with hold | hadded
          · exact hcore r hold
          · rw [List.mem_singleton.mp hadded]
            exact .inr named
      | forget => exact hcore r (List.mem_filter.mp hr).1
      | revoke | approve | issue | activate | endAll | endRoute | publish | expire | requeue
      | submit | lease => exact hcore r hr
    exact (hkept r hr).resolve_left new
  obtain ⟨call, now⟩ := act
  cases call with
  | receiptEnvelope receiver envelopeId token outcome available =>
      obtain rfl : envelopeId = r.envelopeId := by
        cases hcall
        rfl
      obtain ⟨hdb, -⟩ | ⟨hdb, hout⟩ := step_cases hostServerIdentity h
        (.receiptEnvelope receiver r.envelopeId token outcome available, now)
      · rw [hdb] at hr
        exact absurd hr new
      rw [hdb] at hr
      obtain ⟨hsame, _⟩ | ⟨_, _, hexpired⟩ | ⟨x, hx, hid, hlive, haddressed, hleased, answer, hok,
          hsettle⟩ := Db.receiptEnvelope_cases hostServerIdentity h.db receiver r.envelopeId token
            outcome available now
      · change r ∈ (h.db.receiptEnvelope hostServerIdentity receiver r.envelopeId token outcome
          available now).1.receipts at hr
        rw [hsame] at hr
        exact absurd hr new
      · have hreceipts := congrArg Core.receipts hexpired
        change r ∈ (h.db.receiptEnvelope hostServerIdentity receiver r.envelopeId token outcome
          available now).1.core.receipts at hr
        rw [hreceipts] at hr
        exact absurd hr new
      · obtain ⟨target, htarget, -, rfl, hcore⟩ := Db.settleEnvelope_eq hsettle
        have hreceipts := congrArg Core.receipts hcore
        change r ∈ (h.db.receiptEnvelope hostServerIdentity receiver r.envelopeId token outcome
          available now).1.core.receipts at hr
        rw [hreceipts] at hr
        obtain ⟨hmem, htargetId, hactive, hrevision, hserver, hkind⟩ :=
          Db.checkReceiptRoutes_eq haddressed htarget
        have hadded := List.mem_singleton.mp ((List.mem_append.mp hr).resolve_left new)
        have hpeer : target.peerId = receiver.peerId := by
          cases receiver with
          | peer caller => exact hkind
          | host teamId routeId =>
              obtain ⟨p, -, -, hpublished, -⟩ := consistent.relayed.published target hmem
              cases hpublished with
              | peer kind => rw [kind] at hkind; cases hkind
              | host _ audience => exact audience.2
        refine ⟨receiver, token, available, ?_, ?_, ?_, ?_, x, hx, hid, ?_, hleased, hlive, target,
          hmem, htargetId, hactive, hrevision, hserver, hpeer⟩
        · rw [hadded]
        · have houtcome : r.outcome = outcome := by rw [hadded]
          rw [hid] at hok
          rw [hout, houtcome]
          exact congrArg (Except.map Answer.receipted) hok
        · rw [hadded]
        · rw [hadded]
        · rw [hadded]
          exact htargetId.symm
  | _ => cases hcall

/-- What was receipted before is not receipted again. -/
theorem recorded_once (hostServerIdentity : String) (consentEpoch : Nat)
    (acts : List (HostCall × Nat)) {pre mid post : List HostEvent} {e f : HostEvent}
    (split : Runs.history (step hostServerIdentity) (Host.start consentEpoch) acts =
      pre ++ e :: mid ++ f :: post) {r : RelayReceipt}
    (hr : r ∈ (step hostServerIdentity e.before e.action).1.db.receipts)
    (undrawn : NoneDrawn mid r.envelopeId) :
    ∀ other, Records hostServerIdentity f other → other.envelopeId ≠ r.envelopeId := by
  rintro other ⟨receiver, token, available, -, -, -, -, y, hy, hid, -, hleased, -⟩ hname
  have hmem : e ∈ Runs.history (step hostServerIdentity) (Host.start consentEpoch) acts := by
    rw [split]
    simp
  have hafter := Runs.history_forall (step hostServerIdentity)
    (I := fun h : Host => h.Consistent hostServerIdentity)
    (P := fun e => (step hostServerIdentity e.before e.action).1.Consistent hostServerIdentity)
    consistent_keep consistent_keep _ (Host.Consistent.start consentEpoch) acts e hmem
  obtain ⟨x, hx, hxid, hstatus⟩ := hafter.relayed.receipted r hr
  have hfollows := envelope_followed hostServerIdentity consentEpoch acts split hx
    (hxid ▸ undrawn) y hy (hid.trans (hname.trans hxid.symm))
  have hsettled : x.status.isLive = false := by
    rw [hstatus]
    cases r.outcome <;> rfl
  simp only [RelayEnvelope.leasedTo, Bool.and_eq_true, beq_iff_eq] at hleased
  rw [hfollows.settled hsettled, hstatus] at hleased
  cases houtcome : r.outcome <;> simp [houtcome, ReceiptOutcome.status] at hleased

/-- A receipt is kept as long as its envelope is. -/
def Core.Keeps (c : Core) (r : RelayReceipt) : Prop :=
  r ∈ c.receipts ∨ ∀ y ∈ c.envelopes, y.id ≠ r.envelopeId

omit [Sha256] [CertificateEncoding] in
theorem Core.Keeps.change {c c' : Core} {r : RelayReceipt} {now : Nat} {touched : Touched}
    (relayed : c.Relayed hostServerIdentity) (h : c.Keeps r)
    (undrawn : touched ≠ .submitted r.envelopeId)
    (hchange : Change hostServerIdentity now touched c c') : c'.Keeps r := by
  rcases h with hr | hgone
  · cases hchange with
    | @forget which =>
        -- the receipt goes only together with its envelope
        by_cases hdropped : r.envelopeId ∈ (c.envelopes.filter which).map RelayEnvelope.id
        · refine .inr ?_
          intro y hy hid
          obtain ⟨hymem, hkept⟩ := List.mem_filter.mp hy
          obtain ⟨x, hx, hxid⟩ := List.mem_map.mp hdropped
          obtain ⟨hxmem, hwhich⟩ := List.mem_filter.mp hx
          rw [Tables.eq_of_key relayed.envelopeIds hymem hxmem (hid.trans hxid.symm)] at hkept
          simp [hwhich] at hkept
        · refine .inl (List.mem_filter.mpr ⟨hr, ?_⟩)
          simpa using hdropped
    | settle => exact .inl (List.mem_append_left _ hr)
    | revoke | approve | issue | activate | endAll | endRoute | publish | expire | requeue
    | submit | lease => exact .inl hr
  · refine .inr ?_
    intro y hy hid
    rcases hchange.follows relayed.envelopeIds y hy with ⟨x, hx, hfollows⟩ | hdrawn
    · exact hgone x hx (hfollows.id.symm.trans hid)
    · exact absurd (hid ▸ hdrawn) undrawn

/-- As long as an envelope exists so does its receipt. -/
theorem receipt_kept (hostServerIdentity : String) (consentEpoch : Nat)
    (acts : List (HostCall × Nat)) {pre mid post : List HostEvent} {e f : HostEvent}
    (split : Runs.history (step hostServerIdentity) (Host.start consentEpoch) acts =
      pre ++ e :: mid ++ f :: post) {r : RelayReceipt}
    (hr : r ∈ (step hostServerIdentity e.before e.action).1.db.receipts)
    (undrawn : NoneDrawn mid r.envelopeId) {y : RelayEnvelope} (hy : y ∈ f.before.db.envelopes)
    (hid : y.id = r.envelopeId) : r ∈ f.before.db.receipts := by
  have hkept := (Runs.history_since (step hostServerIdentity)
    (I := fun h : Host => h.Consistent hostServerIdentity)
    (M := fun h => h.db.core.Keeps r)
    (A := fun e => r ∈ (step hostServerIdentity e.before e.action).1.db.receipts)
    (O := fun o => o.action.1.touched = .submitted r.envelopeId) consistent_keep
    (fun _ _ _ hmark => .inl hmark) ?_ _ (Host.Consistent.start consentEpoch) acts split hr
    undrawn).2.1
  · exact hkept.resolve_right fun hgone => hgone y hy hid
  · intro h act consistent hkeeps hno
    exact (step_keep (P := fun c : Core => c.Relayed hostServerIdentity ∧ c.Keeps r) h act
      (fun hchange hcore => ⟨hcore.1.change hchange, hcore.2.change hcore.1 hno hchange⟩)
      ⟨consistent.relayed, hkeeps⟩).2

/-- A receipt of what is receipted already changes nothing; where it passes its own checks and
agrees with the record, the record is the answer. -/
theorem receipt_replayed {h : Host} {now : Nat} {receiver : Receiver} {token : String}
    {outcome : ReceiptOutcome} {available : Bool} {r : RelayReceipt}
    (consistent : h.Consistent hostServerIdentity) (hr : r ∈ h.db.receipts) :
    let act : HostCall × Nat := (.receiptEnvelope receiver r.envelopeId token outcome available, now)
    let answer : Answer := .receipted ⟨r.envelopeId, r.outcome, r.receivedAt⟩
    (step hostServerIdentity h act).1.db = h.db ∧
      (∀ given, (step hostServerIdentity h act).2 = .ok given → given = answer) ∧
      (act.1.holder.all h.granted.contains = true →
        h.db.MayReceipt receiver r.envelopeId token available → outcome = r.outcome →
        r.targetPeerId = receiver.peerId →
        (∀ teamId routeId, receiver = .host teamId routeId → r.targetRouteId = routeId) →
        (step hostServerIdentity h act).2 = .ok answer) := by
  have hfind : Tables.find RelayReceipt.envelopeId h.db.receipts r.envelopeId = some r :=
    Tables.find_of_mem consistent.relayed.receiptIds hr
  dsimp only
  have hperformed : (perform hostServerIdentity h.db now
        (.receiptEnvelope receiver r.envelopeId token outcome available)).1 = h.db ∧
      ∀ given, (perform hostServerIdentity h.db now
        (.receiptEnvelope receiver r.envelopeId token outcome available)).2 = .ok given →
        given = .receipted ⟨r.envelopeId, r.outcome, r.receivedAt⟩ := by
    obtain ⟨hsame, hanswer⟩ | ⟨hnone, _⟩ | ⟨x, -, hid, -, -, -, answer, -, hsettle⟩ :=
      Db.receiptEnvelope_cases hostServerIdentity h.db receiver r.envelopeId token outcome
        available now
    · refine ⟨hsame, ?_⟩
      intro given hgiven
      obtain ⟨answer, hok, rfl⟩ := map_eq_ok.mp hgiven
      obtain ⟨record, hrecord, rfl, -, -, rfl⟩ := hanswer answer hok
      rw [Option.some.inj (hfind.symm.trans hrecord)]
    · rw [hfind] at hnone
      cases hnone
    · obtain ⟨-, -, hfresh, -⟩ := Db.settleEnvelope_eq hsettle
      exact absurd hid.symm (hfresh r hr)
  refine ⟨?_, ?_, ?_⟩
  · obtain ⟨hdb, -⟩ | ⟨hdb, -⟩ := step_cases hostServerIdentity h
      (.receiptEnvelope receiver r.envelopeId token outcome available, now)
    · exact hdb
    · exact hdb.trans hperformed.1
  · intro given hgiven
    exact hperformed.2 given (step_ok hgiven).1
  · rintro hheld ⟨huuid, htoken, epoch, hchat⟩ rfl hpeer hroute
    rw [step, if_pos hheld]
    exact congrArg (Except.map Answer.receipted)
      (Db.receiptEnvelope_replay huuid htoken hchat hfind hpeer hroute)

end Receipts

end AgentsServer.PeerStore
