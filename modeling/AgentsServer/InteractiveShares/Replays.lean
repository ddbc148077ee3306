import AgentsServer.InteractiveShares.Sections

/-!
# Deliveries at most once

A delivery of a request id that was used before calls nothing back. It is answered with the
recorded receipt if it asks for the same, and refused otherwise.
-/

namespace AgentsServer.InteractiveShares

open Library Routine

/-- What a delivery asks for. -/
structure Asked where
  operation : String
  prompt : String
  refs : List String

namespace Asked

variable (asked : Asked)

def text : Bytes := submissionText asked.operation asked.prompt asked.refs

def fingerprint [Sha256] : Bytes :=
  InteractiveShares.fingerprint asked.operation asked.prompt asked.refs

end Asked

section

variable [Sha256]

namespace Call

/-- The share and the request id of a delivery. -/
def submission? : Call → Option (String × String)
  | .prompt call => (promptBody call.fields).toOption.map fun body => (call.shareId, body.requestId)
  | .control call => (controlBody call.fields).toOption.map fun body => (call.shareId, body.requestId)
  | _ => none

/-- A delivery asks for this, with the references that the ledger has for its uploads. -/
inductive Asks (store : Store) : Call → Asked → Prop
  | prompt {call : PromptCall} {body : PromptBody} {refs : List String}
      (parsed : promptBody call.fields = .ok body)
      (names : store.Names call.shareId body.uploadIds refs) :
      Asks store (.prompt call) ⟨"prompt", body.prompt, refs⟩
  | control {call : ControlCall} {body : ControlBody} (parsed : controlBody call.fields = .ok body) :
      Asks store (.control call) ⟨"control:" ++ body.action, body.encoded, []⟩

/-- A delivery passes every check before the ledger, and is authorized there. -/
inductive Reaches (w : World) : Call → Prop
  | prompt {call : PromptCall} {body : PromptBody} {grant row : ShareRow} {token : String}
      {refs : List String} (admitted : call.admitted = .ok ())
      (parsed : promptBody call.fields = .ok body)
      (prepared : ((call.prepare body).run w).2 = .ok (grant, token, refs))
      (fault : call.reserveTurn.fault = none)
      (authorized : w.store.authorized call.shareId token call.reserveTurn.now = .ok row) :
      Reaches w (.prompt call)
  | control {call : ControlCall} {body : ControlBody} {grant row : ShareRow} {token : String}
      (admitted : call.admitted = .ok ()) (parsed : controlBody call.fields = .ok body)
      (action : body.action ∉ controlReadActions)
      (prepared : ((auth call.request call.shareId call.authTurn call.sessionExists).run w).2 =
        .ok (grant, token))
      (fault : call.reserveTurn.fault = none)
      (authorized : w.store.authorized call.shareId token call.reserveTurn.now = .ok row) :
      Reaches w (.control call)

end Call

variable {w : World}

/-- At most an answer is added, and it is the receipt of the submission. -/
def World.Replayed (w : World) (shareId requestId : String) (t : World) : Prop :=
  t = w ∨ ∃ row receipt, w.store.submission shareId requestId = some row ∧
    row.receipt = some receipt ∧
    t = { w with log := w.log ++ [.answered shareId requestId receipt] }

/-- The ledger answers for a submission that it has. -/
theorem holds_submitted_again {turn : Turn} {shareId requestId token prompt operation : String}
    {refs : List String} {first : Routine Json} {row : SubmissionRow}
    (hrow : w.store.submission shareId requestId = some row) :
    Program.Holds (w.Replayed shareId requestId)
      (submitted turn shareId token requestId prompt refs operation first)
      (fun receipt _ => row.receipt = some receipt ∧
        row.fingerprint = fingerprint operation prompt refs) w := by
  unfold submitted
  refine Program.Holds.bind (R := fun previous t => t = w ∧ ∃ receipt, previous = some receipt ∧
    row.receipt = some receipt ∧ row.fingerprint = fingerprint operation prompt refs)
    (holds_translate (holds_transaction ?_)) ?_
  · intro previous store hok
    rcases Store.reserveSubmission_cases hok with
      ⟨found, receipt, hfound, hprint, hreceipt, rfl, rfl⟩ | ⟨hnone, -⟩
    · obtain rfl : row = found := Option.some.inj (hrow.symm.trans hfound)
      rw [List.append_nil]
      exact ⟨.inl rfl, rfl, receipt, rfl, hreceipt, hprint⟩
    · rw [hrow] at hnone
      cases hnone
  · rintro _ t ⟨rfl, receipt, rfl, hreceipt, hprint⟩
    have hanswer : t.Replayed shareId requestId
        { t with log := t.log ++ [.answered shareId requestId receipt] } :=
      .inr ⟨row, receipt, hrow, hreceipt, rfl⟩
    change Program.Holds (t.Replayed shareId requestId)
      (do record (.answered shareId requestId receipt); pure receipt) _ t
    exact holds_record_bind hanswer (Program.Holds.pure ⟨hreceipt, hprint⟩)

/-- A delivery whose request id the ledger has calls nothing back. -/
theorem Call.holds_replayed (h : w.Inv) {call : Call} {shareId requestId : String}
    {row : SubmissionRow} (hcall : call.submission? = some (shareId, requestId))
    (hrow : w.store.submission shareId requestId = some row) :
    Program.Holds (w.Replayed shareId requestId) call.routine
      (fun receipt _ => row.receipt = some receipt ∧
        ∃ asked, call.Asks w.store asked ∧ row.fingerprint = asked.fingerprint) w := by
  cases call with
  | prompt call =>
      apply holds_given_bind
      intro _ _
      apply holds_given_bind
      intro body hbody
      rw [submission?, hbody] at hcall
      obtain ⟨rfl, rfl⟩ := Prod.mk.inj (Option.some.inj hcall)
      refine holds_still_bind (call.holds_prepare body h) ?_
      rintro ⟨grant, token, refs⟩ ⟨-, hnames⟩
      refine (holds_submitted_again hrow).weaken (fun _ => id) ?_
      rintro receipt _ ⟨hreceipt, hprint⟩
      exact ⟨hreceipt, _, .prompt hbody hnames, hprint⟩
  | control call =>
      apply holds_given_bind
      intro _ _
      apply holds_given_bind
      intro body hbody
      rw [submission?, hbody] at hcall
      obtain ⟨rfl, rfl⟩ := Prod.mk.inj (Option.some.inj hcall)
      apply holds_check_bind
      intro _
      refine holds_still_bind (holds_auth h) ?_
      rintro ⟨grant, token⟩ -
      refine (holds_submitted_again hrow).weaken (fun _ => id) ?_
      rintro receipt _ ⟨hreceipt, hprint⟩
      exact ⟨hreceipt, _, .control hbody, hprint⟩
  | _ => cases hcall

/-! ## An answer for the same work -/

/-- The ledger answers the same work with its receipt. -/
theorem submitted_again {turn : Turn} {shareId requestId token prompt operation : String}
    {refs : List String} {first : Routine Json} {row : SubmissionRow} {grant : ShareRow}
    {receipt : Json} (hfault : turn.fault = none)
    (hauthorized : w.store.authorized shareId token turn.now = .ok grant)
    (hrow : w.store.submission shareId requestId = some row)
    (hprint : row.fingerprint = fingerprint operation prompt refs)
    (hreceipt : row.receipt = some receipt) :
    ((submitted turn shareId token requestId prompt refs operation first).run w).2 =
      .ok receipt := by
  have hreserve : w.store.reserveSubmission shareId token requestId prompt refs operation turn.now =
      .ok (some receipt, w.store) := by
    simp only [Store.reserveSubmission, hauthorized, hrow, ok_bind, require_bind hprint, hreceipt]
    rfl
  have hledger : ((reserve turn shareId token requestId prompt refs operation).run w).2 =
      .ok (some receipt) := by
    simp only [reserve, Routine.translate, Program.rescue, transaction, hfault, hreserve]
  rw [submitted, Program.bind_ok hledger]
  rfl

omit [Sha256] in
/-- What a request names has one list of references. -/
theorem Store.Names.unique {store : Store} {shareId : String} {uploadIds : Json}
    {refs refs' : List String} (h : store.Names shareId uploadIds refs)
    (h' : store.Names shareId uploadIds refs') : refs = refs' := by
  obtain ⟨ids, hids, hrefs⟩ := h
  obtain ⟨ids', hids', hrefs'⟩ := h'
  obtain rfl : ids = ids' := Option.some.inj (hids.symm.trans hids')
  clear hids hids'
  induction hrefs generalizing refs' with
  | nil =>
      cases hrefs'
      rfl
  | cons href _ ih =>
      cases hrefs' with
      | cons href' hrest' =>
          rw [Option.some.inj (href.symm.trans href'), ih hrest']

omit [Sha256] in
theorem run_given_bind {α β : Type} {result : Except Failure α} {a : α} {f : α → Routine β}
    (h : result = .ok a) : (given result >>= f).run w = (f a).run w :=
  Program.bind_ok h

omit [Sha256] in
theorem run_check_bind {β : Type} {c : Prop} [Decidable c] {e : Failure} {f : Unit → Routine β}
    (h : c) : (check c e >>= f).run w = (f ()).run w :=
  run_given_bind ((require_eq_ok c e ()).mpr h)

/-- A delivery that reaches the ledger gets the receipt of the same work. -/
theorem Call.Reaches.answered (h : w.Inv) {call : Call} (hreaches : call.Reaches w)
    {shareId requestId : String} {row : SubmissionRow} {receipt : Json} {asked : Asked}
    (hcall : call.submission? = some (shareId, requestId)) (hasks : call.Asks w.store asked)
    (hrow : w.store.submission shareId requestId = some row)
    (hprint : row.fingerprint = asked.fingerprint) (hreceipt : row.receipt = some receipt) :
    (call.routine.run w).2 = .ok receipt := by
  cases hreaches with
  | @prompt call body grant found token refs admitted parsed prepared fault authorized =>
      cases hasks with
      | @prompt _ body' refs' parsed' names =>
          obtain rfl : body = body' := Except.ok.inj (parsed.symm.trans parsed')
          rw [submission?, parsed] at hcall
          obtain ⟨rfl, rfl⟩ := Prod.mk.inj (Option.some.inj hcall)
          obtain ⟨hstill, -, hnames⟩ :=
            (call.holds_prepare (I := fun _ => True) body h).2 _ prepared
          obtain rfl : refs = refs' := hnames.unique names
          change (call.route.run w).2 = .ok receipt
          rw [PromptCall.route, run_given_bind admitted, run_given_bind parsed, PromptCall.deliver,
            Program.bind_ok prepared, hstill]
          exact submitted_again fault authorized hrow hprint hreceipt
  | @control call body grant found token admitted parsed action prepared fault authorized =>
      cases hasks with
      | @control _ body' parsed' =>
          obtain rfl : body = body' := Except.ok.inj (parsed.symm.trans parsed')
          rw [submission?, parsed] at hcall
          obtain ⟨rfl, rfl⟩ := Prod.mk.inj (Option.some.inj hcall)
          obtain ⟨hstill, -⟩ := (holds_auth (I := fun _ => True) h).2 _ prepared
          change (call.route.run w).2 = .ok receipt
          rw [ControlCall.route, run_given_bind admitted, run_given_bind parsed,
            run_check_bind action, ControlCall.applyControl, Program.bind_ok prepared, hstill]
          exact submitted_again fault authorized hrow hprint hreceipt

/-! ## Interactive shares -/

/-- The receipt that the ledger has for a submission. -/
def Store.recorded (store : Store) (shareId requestId : String) : Option Json :=
  (store.submission shareId requestId).bind SubmissionRow.receipt

/-- The row of a reservation. -/
theorem World.Inv.row_of_reserved (h : w.Inv) {shareId requestId operation prompt : String}
    {refs : List String}
    (hmem : Effect.reserved shareId requestId operation prompt refs ∈ w.log) :
    ∃ row, w.store.submission shareId requestId = some row ∧
      row.fingerprint = fingerprint operation prompt refs := by
  obtain ⟨row, hrow, hkey, hprint⟩ := h.reserved _ _ _ _ _ hmem
  exact ⟨row, h.sound.submission_eq_some.mpr ⟨hrow, hkey⟩, hprint⟩

/-- A delivery of a request id that was reserved: it calls nothing back, it is answered only
with the recorded receipt and for the same work, and it is answered so where it reaches the
ledger. -/
theorem World.Inv.replay (h : w.Inv) {call : Call} {shareId requestId operation prompt : String}
    {refs : List String}
    (hmem : Effect.reserved shareId requestId operation prompt refs ∈ w.log)
    (hcall : call.submission? = some (shareId, requestId)) :
    (∀ t ∈ (call.routine.run w).1, t = w ∨ ∃ receipt,
        t = { w with log := w.log ++ [.answered shareId requestId receipt] }) ∧
    (∀ receipt, (call.routine.run w).2 = .ok receipt →
      w.store.recorded shareId requestId = some receipt ∧
      ∃ asked, call.Asks w.store asked ∧ (asked = ⟨operation, prompt, refs⟩ ∨
        asked.text ≠ submissionText operation prompt refs ∧
          Sha256.digest asked.text = Sha256.digest (submissionText operation prompt refs))) ∧
    ∀ receipt, w.store.recorded shareId requestId = some receipt →
      call.Asks w.store ⟨operation, prompt, refs⟩ → call.Reaches w →
      (call.routine.run w).2 = .ok receipt := by
  obtain ⟨row, hrow, hprint⟩ := h.row_of_reserved hmem
  obtain ⟨hstates, houtcome⟩ := Call.holds_replayed h hcall hrow
  refine ⟨?_, ?_, ?_⟩
  · intro t ht
    rcases hstates t ht with hsame | ⟨_, receipt, -, -, hanswer⟩
    · exact .inl hsame
    · exact .inr ⟨receipt, hanswer⟩
  · intro receipt hok
    obtain ⟨hreceipt, asked, hasks, hsame⟩ := houtcome receipt hok
    refine ⟨by rw [Store.recorded, hrow]; exact hreceipt, asked, hasks, ?_⟩
    rcases same_or_collides (hsame.symm.trans hprint) with ⟨hop, htext, hrefs⟩ | hcollides
    · exact .inl (by cases asked; cases hop; cases htext; cases hrefs; rfl)
    · exact .inr hcollides
  · intro receipt hrecorded hasks hreaches
    rw [Store.recorded, hrow] at hrecorded
    exact hreaches.answered h hcall hasks hrow hprint hrecorded

/-- Whatever is delivered, uploaded, redeemed and revoked in whatever order, and wherever the
server stops: an action is called back at most once, and later deliveries of its request id are
answered from the ledger or refused; nothing starts after a revocation; uploads stay within the
bound of their share; and a prompt gets the references that its request names. -/
theorem deliveries_at_most_once (actions : List Action) :
    let w := Runs.run World.step World.empty actions
    w.invocations.Nodup ∧
    (∀ entry ∈ w.log, ∀ k, entry.invocation = some k → ∃ operation prompt refs,
      entry.reservation = some (.reserved k.1 k.2 operation prompt refs) ∧
        Effect.reserved k.1 k.2 operation prompt refs ∈ w.log) ∧
    (∀ (call : Call) (shareId requestId operation prompt : String) (refs : List String),
      Effect.reserved shareId requestId operation prompt refs ∈ w.log →
      call.submission? = some (shareId, requestId) →
      (∀ t ∈ (call.routine.run w).1, t = w ∨ ∃ receipt,
          t = { w with log := w.log ++ [.answered shareId requestId receipt] }) ∧
      (∀ receipt, (call.routine.run w).2 = .ok receipt →
        w.store.recorded shareId requestId = some receipt ∧
        ∃ asked, call.Asks w.store asked ∧ (asked = ⟨operation, prompt, refs⟩ ∨
          asked.text ≠ submissionText operation prompt refs ∧
            Sha256.digest asked.text = Sha256.digest (submissionText operation prompt refs))) ∧
      ∀ receipt, w.store.recorded shareId requestId = some receipt →
        call.Asks w.store ⟨operation, prompt, refs⟩ → call.Reaches w →
        (call.routine.run w).2 = .ok receipt) ∧
    (w.log.Pairwise fun a b => ∀ shareId, a = .revoked shareId → b.started ≠ some shareId) ∧
    (∀ shareId, w.store.usedBytes shareId ≤ maxShareUploadBytes) ∧
    ∀ shareId requestId sessionId prompt uploadIds refs,
      Effect.prompted shareId requestId sessionId prompt uploadIds refs ∈ w.log →
      w.store.Names shareId uploadIds refs := by
  intro w
  have h : w.Inv := World.inv_run actions
  refine ⟨h.once, ?_, ?_, h.quiet, h.sound.room, h.named⟩
  · intro entry hentry k hk
    obtain ⟨operation, prompt, refs, hreservation⟩ := World.reservation_of_invocation hk
    exact ⟨operation, prompt, refs, hreservation, h.known entry hentry _ hreservation⟩
  · intro call shareId requestId operation prompt refs hmem hcall
    exact h.replay hmem hcall

end

section Example

/-- The first bytes as a digest. -/
@[reducible] def prefixDigest : Sha256 where
  digest bytes := (bytes ++ List.replicate 32 0).take 32
  length_digest := Sha256.length_padded

attribute [local instance] prefixDigest

def guestToken : String := String.ofList (List.replicate 43 'A')

def guestShare : String := "interactive_" ++ String.ofList (List.replicate 32 '0')

def guestTurn : Turn := ⟨1700000000, none⟩

def guestRequest : Request where
  guard := .ok ()
  cookies := [guestToken]
  csrf := (csrfToken guestToken).toOption.getD ""

/-- A share is created and redeemed. -/
def invited : List Action :=
  [.ran (.create (.ok ()) "chat" none none "" guestToken guestShare guestTurn),
    .ran (.redeem (.ok ()) guestShare guestToken guestTurn)]

def helloPrompt : PromptCall where
  request := guestRequest
  shareId := guestShare
  fields := [("prompt", .str "hello"), ("request_id", .str "request-0000000000")]
  admitted := .ok ()
  sessionExists := fun _ => true
  authTurn := guestTurn
  refsTurn := guestTurn
  reserveTurn := guestTurn
  acceptTurn := guestTurn
  callback := .ok (.obj [("accepted", .bool true), ("queued", .bool false)])

def helloBody : PromptBody := ⟨"hello", .arr [], "request-0000000000"⟩

/-- The world after the prompt was delivered. -/
def greeted : World :=
  Runs.run World.step World.empty (invited ++ [.ran (.prompt helloPrompt)])

theorem hello_reserved :
    Effect.reserved guestShare "request-0000000000" "prompt" "hello" [] ∈ greeted.log := by
  have hfirst : (greeted.log.head?.any fun
      | .reserved shareId requestId operation prompt refs => decide (shareId = guestShare ∧
          requestId = "request-0000000000" ∧ operation = "prompt" ∧ prompt = "hello" ∧ refs = [])
      | _ => false) = true := by decide
  cases hentry : greeted.log.head? with
  | none =>
      rw [hentry] at hfirst
      cases hfirst
  | some entry =>
      rw [hentry] at hfirst
      cases entry with
      | reserved shareId requestId operation prompt refs =>
          obtain ⟨rfl, rfl, rfl, rfl, rfl⟩ := of_decide_eq_true hfirst
          exact List.mem_of_mem_head? hentry
      | _ => cases hfirst

theorem hello_reaches : (Call.prompt helloPrompt).Reaches greeted := by
  have hparsed : promptBody helloPrompt.fields = .ok helloBody := rfl
  have hprepared : (((helloPrompt.prepare helloBody).run greeted).2.toOption.any fun r =>
      decide (r.2.1 = guestToken)) = true := by decide
  have hauthorized : (greeted.store.authorized guestShare guestToken
      guestTurn.now).toOption.isSome = true := by decide
  cases hrun : ((helloPrompt.prepare helloBody).run greeted).2 with
  | error e =>
      rw [hrun] at hprepared
      cases hprepared
  | ok r =>
      obtain ⟨grant, token, refs⟩ := r
      rw [hrun] at hprepared
      obtain rfl : token = guestToken := of_decide_eq_true hprepared
      cases hrow : greeted.store.authorized guestShare guestToken guestTurn.now with
      | error e =>
          rw [hrow] at hauthorized
          cases hauthorized
      | ok row => exact .prompt rfl hparsed hrun rfl hrow

/-- Delivered again, the prompt gets its receipt. -/
theorem deliveries_at_most_once_hello : ∃ receipt,
    greeted.store.recorded guestShare "request-0000000000" = some receipt ∧
      ((Call.prompt helloPrompt).routine.run greeted).2 = .ok receipt := by
  obtain ⟨-, -, hagain, -⟩ := deliveries_at_most_once (invited ++ [.ran (.prompt helloPrompt)])
  have hparsed : promptBody helloPrompt.fields = .ok helloBody := rfl
  have hsome : (greeted.store.recorded guestShare "request-0000000000").isSome = true := by
    decide
  obtain ⟨receipt, hreceipt⟩ := Option.isSome_iff_exists.mp hsome
  obtain ⟨-, -, hanswer⟩ := hagain (.prompt helloPrompt) guestShare "request-0000000000" "prompt"
    "hello" [] hello_reserved (by rw [Call.submission?, hparsed]; rfl)
  exact ⟨receipt, hreceipt,
    hanswer receipt hreceipt (.prompt hparsed ⟨[], rfl, .nil⟩) hello_reaches⟩

def olderTimeline : ControlCall where
  request := guestRequest
  shareId := guestShare
  fields := [("action", .str "timeline.older"), ("payload", .obj []),
    ("request_id", .str "request-0000000000")]
  admitted := .ok ()
  sessionExists := fun _ => true
  authTurn := guestTurn
  reserveTurn := guestTurn
  acceptTurn := guestTurn
  callback := .ok .null

/-- The submission for which an effect is a callback, also of a read. -/
def Effect.calledBack : Effect → Option (String × String)
  | .read shareId requestId _ _ _ => some (shareId, requestId)
  | entry => entry.invocation

/-- Reads are no submissions: a request id may be read with again. -/
theorem read_called_back_twice :
    ¬ ∀ (_ : Sha256) (actions : List Action),
      ((Runs.run World.step World.empty actions).log.filterMap Effect.calledBack).Nodup := by
  intro h
  have hnodup := h prefixDigest (invited ++ [.startRead olderTimeline, .callRead 0,
    .startRead olderTimeline, .callRead 0])
  have htwice : (Runs.run World.step World.empty (invited ++ [.startRead olderTimeline, .callRead 0,
      .startRead olderTimeline, .callRead 0])).log.filterMap Effect.calledBack =
      [(guestShare, "request-0000000000"), (guestShare, "request-0000000000")] := by decide +kernel
  rw [htwice] at hnodup
  exact absurd hnodup (by decide)

end Example

end AgentsServer.InteractiveShares
