import AgentsServer.InteractiveShares.Ledger

/-!
# Sections keep the ledger

Whatever a callback returns and wherever the server stops, each section leaves a log that
agrees with the ledger.
-/

namespace AgentsServer.InteractiveShares

open Library Routine

variable [Sha256] {w : World}

/-- The receipt of a submission is written. -/
def World.Accepted (w : World) (shareId requestId : String) (receipt : Json) : Prop :=
  ∃ row ∈ w.store.submissions, row.key = (shareId, requestId) ∧ row.receipt = some receipt

/-- What `auth` answers is about a share that is not revoked, and it changes nothing. -/
theorem holds_auth {I : World → Prop} (h : w.Inv) {request : Request}
    {shareId : String} {turn : Turn} {sessionExists : String → Bool} :
    Program.Holds I (auth request shareId turn sessionExists)
      (fun _ t => t = w ∧ w.Live shareId) w := by
  unfold auth
  apply holds_given_bind
  intro _ _
  apply holds_check_bind
  intro _
  apply holds_check_bind
  intro _
  apply holds_given_bind
  intro token _
  refine holds_still_bind (P := fun _ => w.Live shareId) (holds_translate ?_) ?_
  · apply holds_query
    intro row hrow
    exact ⟨rfl, h.live hrow⟩
  · intro grant hlive
    apply holds_check_bind
    intro _
    apply holds_given_bind
    intro expected _
    apply holds_check_bind
    intro _
    exact Program.Holds.pure ⟨rfl, hlive⟩

/-- An accepted receipt is written. -/
theorem holds_accept (h : w.Inv) {turn : Turn} {shareId requestId : String} {receipt : Json} :
    Program.Holds World.Inv (accept turn shareId requestId receipt)
      (fun _ t => t.Inv ∧ t.Accepted shareId requestId receipt) w := by
  apply holds_transaction
  intro done store hok
  obtain ⟨⟨hsound, hgrows⟩, haccepted⟩ := Store.acceptSubmission_grows h.sound hok
  have hinv := h.grows hsound hgrows
  rw [List.append_nil]
  exact ⟨hinv, hinv, haccepted⟩

omit [Sha256] in
theorem World.Live.append {shareId : String} {store : Store} {entries : List Effect}
    (h : w.Live shareId) (hentries : ∀ e ∈ entries, e ≠ .revoked shareId) :
    World.Live { w with store := store, log := w.log ++ entries } shareId := by
  intro hmem
  rcases List.mem_append.mp hmem with hmem | hmem
  · exact h hmem
  · exact hentries _ hmem rfl

/-- What a reservation leaves: a recorded receipt, or a submission that was not called back. -/
def World.Reserved (w : World) (shareId requestId operation prompt : String)
    (refs : List String) : Option Json → Prop
  | some receipt => w.Accepted shareId requestId receipt
  | none => w.Fresh shareId requestId operation prompt refs ∧ w.Live shareId

theorem holds_reserve (h : w.Inv) {turn : Turn} {shareId token requestId prompt operation : String}
    {refs : List String} (hlive : w.Live shareId) :
    Program.Holds World.Inv (reserve turn shareId token requestId prompt refs operation)
      (fun previous t => t.Inv ∧ Store.Grows w.store t.store ∧
        t.Reserved shareId requestId operation prompt refs previous) w := by
  refine holds_translate (holds_transaction ?_)
  intro previous store hok
  rcases Store.reserveSubmission_cases hok with
    ⟨row, receipt, hrow, -, hreceipt, rfl, rfl⟩ | ⟨hnone, rfl, rfl⟩
  · obtain ⟨hmem, hkey⟩ := h.sound.submission_eq_some.mp hrow
    rw [List.append_nil]
    exact ⟨h, h, .refl _, row, hmem, hkey, hreceipt⟩
  · obtain ⟨hsound, hgrows⟩ := h.sound.addSubmission
      ⟨shareId, requestId, fingerprint operation prompt refs, none, turn.now⟩ hnone
    have hrow := List.mem_append_right w.store.submissions
      (List.mem_singleton_self (SubmissionRow.mk shareId requestId
        (fingerprint operation prompt refs) none turn.now))
    have hinv := (h.grows hsound hgrows).record (.reserved shareId requestId operation
      prompt refs) ⟨_, hrow, rfl, rfl⟩
    refine ⟨hinv, hinv, hgrows, ⟨by simp, ?_⟩, hlive.append (by simp)⟩
    intro hcalled
    have hbefore : (shareId, requestId) ∈ w.invocations := by
      simpa [World.invocations, Effect.invocation] using hcalled
    obtain ⟨row, hold, hkey⟩ := h.row hbefore
    exact Store.submission_eq_none.mp hnone row hold hkey

/-- The part of a delivery from the ledger on. -/
theorem holds_submitted (h : w.Inv) {turn : Turn}
    {shareId token requestId prompt operation : String} {refs : List String} {first : Routine Json}
    (hlive : w.Live shareId)
    (hfirst : ∀ t : World, t.Inv → Store.Grows w.store t.store →
      t.Fresh shareId requestId operation prompt refs → t.Live shareId → Program.Holds World.Inv first
      (fun receipt u => u.Inv ∧ u.Accepted shareId requestId receipt) t) :
    Program.Holds World.Inv (submitted turn shareId token requestId prompt refs operation first)
      (fun _ t => t.Inv) w := by
  have hanswer : ∀ (receipt : Json) (t : World), t.Inv → t.Accepted shareId requestId receipt →
      Program.Holds World.Inv
        (do record (.answered shareId requestId receipt); pure receipt) (fun _ u => u.Inv) t := by
    intro receipt t ht haccepted
    have hinv := ht.record (.answered shareId requestId receipt) haccepted
    exact holds_record_bind hinv (Program.Holds.pure hinv)
  unfold submitted
  refine Program.Holds.bind (holds_reserve h hlive) ?_
  rintro previous t ⟨ht, hgrows, hreserved⟩
  cases previous with
  | some receipt => exact hanswer receipt t ht hreserved
  | none =>
      refine Program.Holds.bind (hfirst t ht hgrows hreserved.1 hreserved.2) ?_
      rintro receipt u ⟨hu, haccepted⟩
      exact hanswer receipt u hu haccepted

/-- What precedes the ledger: the share is not revoked, and the references are those of the
uploads that were named. -/
theorem PromptCall.holds_prepare {I : World → Prop} (call : PromptCall) (body : PromptBody)
    (h : w.Inv) :
    Program.Holds I (call.prepare body) (fun r t => t = w ∧ w.Live call.shareId ∧
      w.store.Names call.shareId body.uploadIds r.2.2) w := by
  unfold PromptCall.prepare
  refine holds_still_bind (holds_auth h) ?_
  rintro ⟨grant, token⟩ hlive
  refine holds_still_bind (P := w.store.Names call.shareId body.uploadIds) (holds_translate ?_) ?_
  · apply holds_given_bind
    intro _ _
    apply holds_query
    intro refs hrefs
    exact ⟨rfl, Store.uploadRefs_names hrefs⟩
  · intro refs hnames
    apply holds_check_bind
    intro _
    exact Program.Holds.pure ⟨rfl, hlive, hnames⟩

/-- The callback of a prompt, in a submission that was not called back. -/
theorem PromptCall.holds_first (call : PromptCall) (body : PromptBody) {sessionId : String}
    {refs : List String} (h : w.Inv) (hfresh : w.Fresh call.shareId body.requestId "prompt" body.prompt refs)
    (hlive : w.Live call.shareId) (hnames : w.store.Names call.shareId body.uploadIds refs) :
    Program.Holds World.Inv (call.first body sessionId refs)
      (fun receipt t => t.Inv ∧ t.Accepted call.shareId body.requestId receipt) w := by
  have hinv := h.record
    (.prompted call.shareId body.requestId sessionId body.prompt body.uploadIds refs)
    ⟨hfresh, hlive, hnames⟩
  refine holds_translate (holds_record_bind hinv ?_)
  apply holds_given_bind
  intro returned _
  apply holds_given_bind
  intro receipt _
  refine Program.Holds.bind (holds_accept hinv) ?_
  rintro _ t ⟨ht, haccepted⟩
  exact Program.Holds.pure ⟨ht, haccepted⟩

theorem PromptCall.holds_route (call : PromptCall) (h : w.Inv) :
    Program.Holds World.Inv call.route (fun _ t => t.Inv) w := by
  unfold PromptCall.route
  apply holds_given_bind
  intro _ _
  apply holds_given_bind
  intro body _
  refine holds_still_bind (call.holds_prepare body h) ?_
  rintro ⟨grant, token, refs⟩ ⟨hlive, hnames⟩
  apply holds_submitted h hlive
  intro t ht hgrows hfresh hstill
  exact call.holds_first body ht hfresh hstill (hgrows.names hnames)

/-- The callback of a control: also its refusal is a receipt. -/
theorem ControlCall.holds_first (call : ControlCall) (body : ControlBody) {sessionId : String}
    (h : w.Inv) (hfresh : w.Fresh call.shareId body.requestId ("control:" ++ body.action)
      body.encoded []) (hlive : w.Live call.shareId) :
    Program.Holds World.Inv (call.first body sessionId)
      (fun receipt t => t.Inv ∧ t.Accepted call.shareId body.requestId receipt) w := by
  have hinv := h.record
    (.controlled call.shareId body.requestId sessionId body.action body.payload)
    ⟨hfresh, hlive⟩
  refine Program.Holds.rescue (holds_record_bind hinv ?_) h ?_
  · apply holds_given_bind
    intro returned _
    apply holds_given_bind
    intro receipt _
    refine Program.Holds.bind (holds_accept hinv) ?_
    rintro _ t ⟨ht, haccepted⟩
    exact Program.Holds.pure ⟨ht, haccepted⟩
  · intro e t ht
    cases e with
    | control code =>
        refine Program.Holds.bind (holds_accept ht) ?_
        rintro _ u ⟨hu, haccepted⟩
        exact Program.Holds.pure ⟨hu, haccepted⟩
    | _ => exact Program.Holds.raise

theorem ControlCall.holds_route (call : ControlCall) (h : w.Inv) :
    Program.Holds World.Inv call.route (fun _ t => t.Inv) w := by
  unfold ControlCall.route
  apply holds_given_bind
  intro _ _
  apply holds_given_bind
  intro body _
  apply holds_check_bind
  intro _
  refine holds_still_bind (holds_auth h) ?_
  rintro ⟨grant, token⟩ hlive
  exact holds_submitted h hlive fun t ht _ hfresh hstill => call.holds_first body ht hfresh hstill

theorem ControlCall.holds_startRead (call : ControlCall) (h : w.Inv) :
    Program.Holds World.Inv call.startRead (fun _ t => t.Inv) w := by
  unfold ControlCall.startRead
  apply holds_given_bind
  intro _ _
  apply holds_given_bind
  intro body _
  apply holds_check_bind
  intro _
  refine holds_still_bind (holds_auth h) ?_
  rintro ⟨grant, token⟩ _
  have hinv : World.Inv { w with
      reading := w.reading ++
        [⟨call.shareId, body.requestId, grant.sessionId, body.action, body.payload⟩] } :=
    ⟨h.sound, h.once, h.known, h.reserved, h.answered, h.revoked, h.named, h.quiet⟩
  apply Program.Holds.act
  rintro _ ⟨⟩
  exact ⟨hinv, hinv⟩

theorem UploadCall.holds_route (call : UploadCall) (h : w.Inv) :
    Program.Holds World.Inv call.route (fun _ t => t.Inv) w := by
  unfold UploadCall.route UploadCall.commitUpload
  apply holds_given_bind
  intro _ _
  refine holds_still_bind (holds_auth h) ?_
  rintro ⟨grant, token⟩ hlive
  refine Program.Holds.bind (R := fun _ t => t.Inv ∧ t.Live call.shareId) ?_ ?_
  · refine holds_translate (holds_transaction ?_)
    intro id store hok
    obtain ⟨hsound, hgrows⟩ := Store.reserveUpload_grows h.sound hok
    have hinv := h.grows hsound hgrows
    refine ⟨?_, ?_, hlive.append (by simp)⟩ <;> rw [List.append_nil] <;> exact hinv
  · rintro uploadId t ⟨ht, hstill⟩
    have hinv := ht.record
      (.saved call.shareId grant.sessionId call.name call.mediaType call.data) hstill
    refine Program.Holds.bind (R := fun _ u => u.Inv)
      (holds_translate (holds_record_bind hinv ?_)) ?_
    · apply holds_given_bind
      intro privateRef _
      apply holds_transaction
      intro done store hok
      obtain ⟨hsound, hgrows⟩ := Store.completeUpload_grows hinv.sound hok
      have hcompleted := hinv.grows hsound hgrows
      constructor <;> rw [List.append_nil] <;> exact hcompleted
    · intro _ u hu
      exact Program.Holds.pure hu

/-! ## Shares -/

/-- A transaction that keeps the ledger sound and logs nothing. -/
theorem holds_growing {α : Type} {turn : Turn} {body : Store → Except Failure (α × Store)}
    (h : w.Inv) (hbody : ∀ a store, body w.store = .ok (a, store) →
      store.Sound ∧ Store.Grows w.store store) :
    Program.Holds World.Inv (transaction turn body fun _ => []) (fun _ t => t.Inv) w := by
  apply holds_transaction
  intro a store hok
  obtain ⟨hsound, hgrows⟩ := hbody a store hok
  rw [List.append_nil]
  exact ⟨h.grows hsound hgrows, h.grows hsound hgrows⟩

theorem holds_createRoute (h : w.Inv) {admitted : Except Failure Unit} {sessionId : String}
    {title : Option String} {expiresAt : Option Time} {publicOrigin invite shareId : String}
    {turn : Turn} :
    Program.Holds World.Inv
      (createRoute admitted sessionId title expiresAt publicOrigin invite shareId turn)
      (fun _ t => t.Inv) w := by
  apply holds_given_bind
  intro _ _
  refine Program.Holds.bind (holds_growing h fun row store hok => ?_) ?_
  · exact Store.createShare_grows h.sound hok
  · intro _ t ht
    exact Program.Holds.pure ht

theorem holds_redeemRoute (h : w.Inv) {admitted : Except Failure Unit} {shareId invite : String}
    {turn : Turn} :
    Program.Holds World.Inv (redeemRoute admitted shareId invite turn) (fun _ t => t.Inv) w := by
  apply holds_given_bind
  intro _ _
  apply holds_check_bind
  intro _
  refine Program.Holds.bind (holds_translate (holds_growing h fun token store hok => ?_)) ?_
  · exact Store.redeem_grows h.sound hok
  · intro token t ht
    apply holds_given_bind
    intro _ _
    exact Program.Holds.pure ht

/-- A revocation that returns has revoked the share. -/
theorem holds_revokeRoute (h : w.Inv) {admitted : Except Failure Unit}
    {sessionId shareId : String} {turn : Turn} :
    Program.Holds World.Inv (revokeRoute admitted sessionId shareId turn) (fun _ t => t.Inv) w := by
  apply holds_given_bind
  intro _ _
  refine Program.Holds.bind (R := fun found t => t.Inv ∧ (found = true →
    ∃ row ∈ t.store.shares, row.id = shareId ∧ row.revokedAt.isSome = true))
    (Program.Holds.rescue (holds_transaction ?_) h ?_) ?_
  · intro found store hok
    obtain ⟨hsound, hgrows⟩ := Store.revokeShare_grows h.sound hok
    rw [List.append_nil]
    refine ⟨h.grows hsound hgrows, h.grows hsound hgrows, ?_⟩
    rintro rfl
    exact Store.revokeShare_revoked hok
  · intro e t ht
    split
    · exact Program.Holds.pure ⟨ht, by rintro ⟨⟩⟩
    · exact Program.Holds.raise
  · rintro found t ⟨ht, hrevoked⟩
    apply holds_check_bind
    intro hfound
    have hinv := ht.record (.revoked shareId) (hrevoked hfound)
    exact holds_record_bind hinv (Program.Holds.pure hinv)

/-! ## Runs -/

theorem Call.holds_routine (call : Call) (h : w.Inv) :
    Program.Holds World.Inv call.routine (fun _ t => t.Inv) w := by
  cases call with
  | create => exact holds_createRoute h
  | redeem => exact holds_redeemRoute h
  | revoke => exact holds_revokeRoute h
  | prompt call => exact call.holds_route h
  | control call => exact call.holds_route h
  | upload call => exact call.holds_route h

/-- Every step keeps the ledger, also one that is cut off. -/
theorem World.Inv.step (h : w.Inv) (action : Action) : (w.step action).1.Inv := by
  cases action with
  | ran call => exact Program.Holds.at_end (call.holds_routine h) h
  | stopped call effects =>
      apply World.Inv.restarted
      cases hcut : (call.routine.cuts w)[effects]? with
      | none => exact h
      | some t =>
          rcases List.mem_cons.mp (List.mem_of_getElem? hcut) with rfl | hmem
          · exact h
          · exact (call.holds_routine h).1 t hmem
  | startRead call => exact Program.Holds.at_end (call.holds_startRead h) h
  | callRead index =>
      change (w.callRead index).Inv
      unfold World.callRead
      split
      · exact h
      · next r _ =>
        have hinv := h.record
          (.read r.shareId r.requestId r.sessionId r.action r.payload) trivial
        exact ⟨hinv.sound, hinv.once, hinv.known, hinv.reserved, hinv.answered, hinv.revoked,
          hinv.named, hinv.quiet⟩

theorem World.inv_run (actions : List Action) : (Runs.run World.step World.empty actions).Inv :=
  Runs.run_invariant World.step (fun _ action h => h.step action) World.empty World.inv_empty
    actions

end AgentsServer.InteractiveShares
