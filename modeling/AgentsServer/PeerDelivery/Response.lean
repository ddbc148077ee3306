import AgentsServer.Library.JsonText
import AgentsServer.PeerDelivery.Lifecycle

/-!
# Response intents

What `prepare_response` leaves in the ledger. A row of which a response was committed without an
intent is returned as it is.
-/

namespace AgentsServer.PeerDelivery

open Library Library.Runs

section Intents

variable [Sha256]

/-- The text whose digest stands for an intent. -/
def intentText (requestId body : String) (requestResponse : Bool) : Bytes :=
  utf8 (responseIntent requestId body requestResponse).canonical

def intentColumns (requestId body : String) (requestResponse : Bool) :
    Option String × Option String × Option String × Option Bool :=
  (some requestId, some (Sha256.hexdigest (intentText requestId body requestResponse)), some body,
    some requestResponse)

/-- A row has no intent, or one with its digest. -/
def Row.IntentFits (row : Row) : Prop :=
  row.intent = (none, none, none, none) ∨
    ∃ requestId body requestResponse, row.intent = intentColumns requestId body requestResponse

omit [Sha256] in
theorem sortKeys_responseIntent (requestId body : String) (requestResponse : Bool) :
    (responseIntent requestId body requestResponse).sortKeys =
      .obj [("body", .str body), ("request_id", .str requestId),
        ("request_response", .bool requestResponse)] := by
  simp [responseIntent, Json.sortKeys, Json.sortFields, List.mergeSort,
    List.MergeSort.Internal.splitInTwo]

omit [Sha256] in
/-- Different intents have different texts. -/
theorem intentText_inj {requestId requestId' body body' : String} {flag flag' : Bool}
    (h : intentText requestId' body' flag' = intentText requestId body flag) :
    requestId' = requestId ∧ body' = body ∧ flag' = flag := by
  have hcanonical := utf8_inj h
  unfold Json.canonical at hcanonical
  rw [sortKeys_responseIntent, sortKeys_responseIntent] at hcanonical
  have hend : Json.Delimited [] := by rintro _ _ ⟨⟩
  have hsame := (Json.render_inj _ _ hend hend (congrArg (· ++ []) hcanonical)).1
  cases hsame
  exact ⟨rfl, rfl, rfl⟩

/-- The digest of another intent that a row has collides with the one that is asked for. -/
def Row.Collides (row : Row) (requestId body : String) (requestResponse : Bool) : Prop :=
  ∃ requestId' body' requestResponse',
    row.intent = intentColumns requestId' body' requestResponse' ∧
    intentText requestId' body' requestResponse' ≠ intentText requestId body requestResponse ∧
    Sha256.digest (intentText requestId' body' requestResponse') =
      Sha256.digest (intentText requestId body requestResponse)

theorem Row.digest_of_intent {requestId body : String} {requestResponse : Bool} (row : Row)
    (h : row.intent = intentColumns requestId body requestResponse) :
    row.responseRequestDigest =
      some (Sha256.hexdigest (intentText requestId body requestResponse)) :=
  congrArg (·.2.1) h

/-- A digest stands for one intent, as long as it does not collide. -/
theorem Row.IntentFits.intent_iff {row : Row} (h : row.IntentFits) {requestId body : String}
    {requestResponse : Bool} (hdigest : row.responseRequestDigest =
      some (Sha256.hexdigest (intentText requestId body requestResponse))) :
    row.intent = intentColumns requestId body requestResponse ↔
      ¬ row.Collides requestId body requestResponse := by
  constructor
  · rintro hintent ⟨requestId', body', requestResponse', hother, htext, -⟩
    rw [hintent] at hother
    simp only [intentColumns, Prod.mk.injEq, Option.some.injEq] at hother
    obtain ⟨rfl, -, rfl, rfl⟩ := hother
    exact htext rfl
  · intro hnot
    rcases h with hnone | ⟨requestId', body', requestResponse', hintent⟩
    · have : row.responseRequestDigest = none := congrArg (·.2.1) hnone
      rw [this] at hdigest
      cases hdigest
    · rw [row.digest_of_intent hintent] at hdigest
      have hsame := hexText_inj (Option.some.inj hdigest)
      by_cases htext : intentText requestId' body' requestResponse' =
          intentText requestId body requestResponse
      · obtain ⟨rfl, rfl, rfl⟩ := intentText_inj htext
        exact hintent
      · exact absurd ⟨requestId', body', requestResponse', hintent, htext, hsame⟩ hnot

/-! ## Intents in every run -/

def IntentsFit (db : Ledger) : Prop := ∀ row ∈ db.rows, row.IntentFits

variable {db db' : Ledger} {out : Option Row} {envelopeId : String} {now : Int}

theorem IntentsFit.same {α : Type} {a b : α} (h : IntentsFit db)
    (hs : (pure (a, db) : Except Failure (α × Ledger)) = .ok (b, db')) : IntentsFit db' := by
  simp only [pure_eq_ok, Prod.mk.injEq] at hs
  rw [← hs.2]
  exact h

theorem IntentsFit.update (h : IntentsFit db) {guard : Row → Bool} {change : Row → Row}
    (hupdate : db.update guard change = .ok db')
    (safe : ∀ row, row.IntentFits → (change row).IntentFits) : IntentsFit db' := by
  obtain ⟨hrows, _⟩ := update_rows hupdate
  intro row hrow
  rw [hrows] at hrow
  obtain ⟨old, hold, rfl⟩ := List.mem_map.mp hrow
  split
  · exact safe old (h old hold)
  · exact h old hold

theorem prepare_intents [Conversions] (h : IntentsFit db) {envelope : Envelope}
    {role connectionId leaseToken targetChatId : String} {r : Row × Bool}
    (hp : prepare db envelope role connectionId leaseToken targetChatId now = .ok (r, db')) :
    IntentsFit db' := by
  simp only [prepare, bind_eq_ok] at hp
  obtain ⟨claim, _, hp⟩ := hp
  cases hrow : db.row? claim.envelopeId with
  | some row =>
      simp only [hrow, bind_eq_ok, require_eq_ok] at hp
      obtain ⟨_, _, hp⟩ := hp
      split at hp
      · simp only [bind_eq_ok, pure_eq_ok, Prod.mk.injEq] at hp
        obtain ⟨db₁, hupdate, _, _, _, rfl⟩ := hp
        exact h.update hupdate fun _ hfits => hfits
      · simp only [pure_eq_ok, Prod.mk.injEq] at hp
        obtain ⟨_, rfl⟩ := hp
        exact h
  | none =>
      simp only [hrow, bind_eq_ok, require_eq_ok, pure_eq_ok, Prod.mk.injEq] at hp
      obtain ⟨db₁, hexpire, _, _, _, _, db₂, hinsert, _, _, _, rfl⟩ := hp
      have hexpired : IntentsFit db₁ := h.update hexpire fun _ hfits => hfits
      simp only [Ledger.insert, bind_eq_ok, require_eq_ok, pure_eq_ok] at hinsert
      obtain ⟨_, _, rfl⟩ := hinsert
      intro row hmem
      rcases List.mem_append.mp hmem with hmem | hmem
      · exact hexpired row hmem
      · rw [List.mem_singleton.mp hmem]
        exact .inl rfl

theorem transition_intents (h : IntentsFit db) {expected : List State} {state : State}
    {patch : Row → Row} (safe : ∀ row : Row, (patch row).intent = row.intent)
    (ht : transition db envelopeId expected state patch now = .ok (out, db')) :
    IntentsFit db' := by
  simp only [transition, bind_eq_ok] at ht
  obtain ⟨db₁, hupdate, ht⟩ := ht
  have hfits : IntentsFit db₁ := by
    apply h.update hupdate
    intro row hrow
    have hsame : Row.intent { patch row with state, updatedAt := now } = row.intent := safe row
    unfold Row.IntentFits
    rw [hsame]
    exact hrow
  split at ht
  · exact hfits.same ht
  · exact hfits.same ht

theorem failOwnerlessAuthorized_intents (h : IntentsFit db) {error : String}
    (hf : failOwnerlessAuthorized db envelopeId error now = .ok (out, db')) : IntentsFit db' := by
  simp only [failOwnerlessAuthorized, bind_eq_ok, pure_eq_ok, Prod.mk.injEq] at hf
  obtain ⟨db₁, hupdate, _, rfl⟩ := hf
  exact h.update hupdate fun _ hfits => hfits

theorem bindOwner_intents (h : IntentsFit db) {queuedId runId : Option String}
    (hb : bindOwner db envelopeId queuedId runId now = .ok (out, db')) : IntentsFit db' := by
  simp only [bindOwner, bind_eq_ok, require_eq_ok] at hb
  obtain ⟨_, _, hb⟩ := hb
  split at hb
  · exact h.same hb
  split at hb
  · simp only [bind_eq_ok, pure_eq_ok, Prod.mk.injEq] at hb
    obtain ⟨db₁, hupdate, _, rfl⟩ := hb
    exact h.update hupdate fun _ hfits => hfits
  · split at hb
    · exact h.same hb
    · split at hb
      · simp only [bind_eq_ok, pure_eq_ok, Prod.mk.injEq] at hb
        obtain ⟨db₁, hupdate, _, rfl⟩ := hb
        exact h.update hupdate fun _ hfits => hfits
      · exact h.same hb
  · split at hb <;> simp only [pure_eq_ok, Prod.mk.injEq] at hb <;> rw [← hb.2] <;> exact h
  · exact h.same hb

theorem deferAdmission_intents (h : IntentsFit db) {error : String}
    (hd : deferAdmission db envelopeId error now = .ok (out, db')) : IntentsFit db' := by
  simp only [deferAdmission] at hd
  split at hd
  · exact h.same hd
  split at hd
  · exact h.same hd
  · simp only [bind_eq_ok, pure_eq_ok, Prod.mk.injEq] at hd
    obtain ⟨db₁, hupdate, _, rfl⟩ := hd
    exact h.update hupdate fun _ hfits => hfits

theorem prepareResponse_intents (h : IntentsFit db) {requestId body : String}
    {requestResponse : Bool}
    (hp : prepareResponse db envelopeId requestId body requestResponse now = .ok (out, db')) :
    IntentsFit db' := by
  simp only [prepareResponse, bind_eq_ok, require_eq_ok] at hp
  obtain ⟨_, _, hp⟩ := hp
  split at hp
  · exact h.same hp
  split at hp
  · exact h.same hp
  split at hp
  · simp only [bind_eq_ok, pure_eq_ok, Prod.mk.injEq] at hp
    obtain ⟨_, _, _, rfl⟩ := hp
    exact h
  · simp only [bind_eq_ok, pure_eq_ok, Prod.mk.injEq] at hp
    obtain ⟨db₁, hupdate, _, rfl⟩ := hp
    exact h.update hupdate fun _ _ => .inr ⟨requestId, body, requestResponse, rfl⟩

theorem markResponseCommitted_intents (h : IntentsFit db) {requestId : Option String}
    (hm : markResponseCommitted db envelopeId requestId now = .ok (out, db')) :
    IntentsFit db' := by
  simp only [markResponseCommitted, bind_eq_ok, pure_eq_ok, Prod.mk.injEq] at hm
  obtain ⟨db₁, hupdate, _, _, _, rfl⟩ := hm
  exact h.update hupdate fun _ hfits => hfits

theorem clearResponseIntent_intents (h : IntentsFit db) {requestId : String}
    (hc : clearResponseIntent db envelopeId requestId now = .ok (out, db')) : IntentsFit db' := by
  simp only [clearResponseIntent, bind_eq_ok, pure_eq_ok, Prod.mk.injEq] at hc
  obtain ⟨db₁, hupdate, _, rfl⟩ := hc
  exact h.update hupdate fun _ _ => .inl rfl

theorem deferResponse_intents (h : IntentsFit db) {requestId error : String}
    (hd : deferResponse db envelopeId requestId error now = .ok (out, db')) : IntentsFit db' := by
  simp only [deferResponse] at hd
  split at hd
  · exact h.same hd
  split at hd
  · exact h.same hd
  · simp only [bind_eq_ok, pure_eq_ok, Prod.mk.injEq] at hd
    obtain ⟨db₁, hupdate, _, rfl⟩ := hd
    exact h.update hupdate fun _ hfits => hfits

variable [Conversions]

theorem step_intents (h : IntentsFit db) (action : Action) : IntentsFit (step db action).1 := by
  apply atomically_keep h
  intro answer db' hp
  cases action <;> simp only [perform, map_eq_ok, Prod.mk.injEq] at hp <;>
    obtain ⟨⟨_, _⟩, hp, _, rfl⟩ := hp
  case prepare => exact prepare_intents h hp
  case authorize => exact transition_intents h (fun _ => rfl) hp
  case failOwnerlessAuthorized => exact failOwnerlessAuthorized_intents h hp
  case bindOwner => exact bindOwner_intents h hp
  case deferAdmission => exact deferAdmission_intents h hp
  case finish =>
    unfold finish at hp
    refine transition_intents h ?_ hp
    intro row
    rfl
  case prepareResponse => exact prepareResponse_intents h hp
  case markResponseCommitted => exact markResponseCommitted_intents h hp
  case clearResponseIntent => exact clearResponseIntent_intents h hp
  case deferResponse => exact deferResponse_intents h hp

theorem intents_after (actions : List Action) : IntentsFit (after actions) :=
  run_invariant (I := IntentsFit) step (fun _ action h => step_intents h action) _
    (fun _ hrow => absurd hrow List.not_mem_nil) actions

/-! ## Prepared responses -/

/-- A row that is returned has exactly the intent. Otherwise nothing changes. -/
def ResponsePrepared (db : Ledger) (envelopeId requestId body : String) (requestResponse : Bool)
    (now : Int) : Prop :=
  match step db (.prepareResponse envelopeId requestId body requestResponse now) with
  | (db', .ok (.row (some row))) =>
      db'.row? envelopeId = some row ∧ row.intent = intentColumns requestId body requestResponse
  | (db', _) => db' = db

/-- What `prepare_response` accepts. -/
def ValidIntent (requestId body : String) : Prop :=
  requestId ≠ "" ∧ isBlank body = false ∧ body.length ≤ 100000

/-- The row of which a response may be prepared. -/
def Ledger.Answerable (db : Ledger) (envelopeId : String) (row : Row) : Prop :=
  db.row? envelopeId = some row ∧ row.state.isLive = true ∧ row.claim.kind ≠ .instruction

/-- A response of the row was committed although it has no intent. -/
def Row.CommittedWithoutIntent (row : Row) : Prop :=
  row.responseCommitted = true ∧ row.responseRequestDigest = none

/-- A committed response stays as it was, whatever is called. -/
def ResponseStays (db db' : Ledger) : Prop :=
  ∀ row ∈ db.rows, row.responseCommitted = true →
    ∀ row' ∈ db'.rows, row'.envelopeId = row.envelopeId →
      row'.responseCommitted = true ∧ row'.intent = row.intent

variable {requestId body : String} {requestResponse : Bool}

omit [Conversions] in
theorem prepareResponse_answerable (hvalid : ValidIntent requestId body) {row : Row}
    (hrow : db.Answerable envelopeId row) :
    prepareResponse db envelopeId requestId body requestResponse now =
      match row.responseRequestDigest with
      | some existing => do
          require (existing = Sha256.hexdigest (intentText requestId body requestResponse))
            (.runtimeError "secure peer response intent changed")
          return (some row, db)
      | none => do
          let db ← db.update
            (fun row => row.envelopeId = envelopeId ∧ row.responseRequestDigest = none ∧
              row.responseCommitted = false ∧ row.state.isLive = true)
            (fun row => { row with
              responseRequestId := some requestId
              responseRequestDigest :=
                some (Sha256.hexdigest (intentText requestId body requestResponse))
              responseBody := some body
              responseRequestResponse := some requestResponse
              responseRetryAt := some now
              responseAttempts := 0
              responseLastError := none
              updatedAt := now })
          return (db.row? envelopeId, db) := by
  obtain ⟨hfind, hlive, hkind⟩ := hrow
  unfold ValidIntent at hvalid
  unfold prepareResponse
  rw [require_bind hvalid]
  simp only [hfind]
  rw [if_neg (by simp [hlive, hkind])]
  rfl

theorem responsePrepared_of_error {failure : Failure}
    (h : prepareResponse db envelopeId requestId body requestResponse now = .error failure) :
    ResponsePrepared db envelopeId requestId body requestResponse now := by
  unfold ResponsePrepared
  simp only [step, perform, h, Except.map, atomically_error]

theorem responsePrepared_of_none
    (h : prepareResponse db envelopeId requestId body requestResponse now = .ok (none, db)) :
    ResponsePrepared db envelopeId requestId body requestResponse now := by
  unfold ResponsePrepared
  simp only [step, perform, h, Except.map, atomically_ok]

theorem responsePrepared_of_row {row : Row}
    (h : prepareResponse db envelopeId requestId body requestResponse now = .ok (some row, db')) :
    ResponsePrepared db envelopeId requestId body requestResponse now ↔
      db'.row? envelopeId = some row ∧
        row.intent = intentColumns requestId body requestResponse := by
  unfold ResponsePrepared
  simp only [step, perform, h, Except.map, atomically_ok]

omit [Conversions] in
/-- A call on any other row, or with other arguments, changes nothing and returns no row. -/
theorem prepareResponse_refused
    (hnot : ¬ (ValidIntent requestId body ∧ ∃ row, db.Answerable envelopeId row)) :
    (∃ failure, prepareResponse db envelopeId requestId body requestResponse now =
      .error failure) ∨
    prepareResponse db envelopeId requestId body requestResponse now = .ok (none, db) := by
  unfold prepareResponse
  by_cases hvalid : ValidIntent requestId body
  · have haccepted := hvalid
    unfold ValidIntent at haccepted
    rw [require_bind haccepted]
    cases hfind : db.row? envelopeId with
    | none => exact .inr rfl
    | some row =>
        refine .inr (if_pos ?_)
        by_contra hopen
        rw [not_or] at hopen
        refine hnot ⟨hvalid, row, hfind, ?_, hopen.2⟩
        exact Bool.eq_true_of_not_eq_false hopen.1
  · unfold ValidIntent at hvalid
    rw [require, if_neg hvalid]
    exact .inl ⟨.valueError "secure peer response intent is invalid", rfl⟩

omit [Sha256] [Conversions] in
/-- An update without a row to change. -/
theorem update_none (hdb : Inv db) {guard : Row → Bool} {change : Row → Row}
    (hguard : ∀ row ∈ db.rows, guard row = false) : db.update guard change = .ok db := by
  have hrows : db.rows.map (fun row => if guard row then change row else row) = db.rows := by
    conv_rhs => rw [← List.map_id db.rows]
    apply List.map_congr_left
    intro row hrow
    rw [hguard row hrow]
    rfl
  unfold Ledger.update
  rw [hrows, require_bind hdb.owners]
  rfl

omit [Sha256] [Conversions] in
/-- The row that is read back after an update of it. -/
theorem update_row? {guard : Row → Bool} {change : Row → Row}
    (hupdate : db.update guard change = .ok db') (keeps : ∀ row, (change row).envelopeId =
      row.envelopeId) {row : Row} (hrow : db.row? envelopeId = some row)
    (hguard : guard row = true) : db'.row? envelopeId = some (change row) := by
  have hkey : ∀ row : Row, (if guard row then change row else row).envelopeId =
      row.envelopeId := by
    intro row
    split
    · exact keeps row
    · rfl
  unfold Ledger.row? at hrow ⊢
  rw [(update_rows hupdate).1, Tables.find_map hkey, hrow, Option.map_some, if_pos hguard]

/-- `prepare_response` keeps its promise unless the row was committed without an intent, or has
one whose digest collides. -/
theorem responsePrepared_iff (hdb : Inv db) (hfits : IntentsFit db) :
    ResponsePrepared db envelopeId requestId body requestResponse now ↔
      ¬ (ValidIntent requestId body ∧ ∃ row, db.Answerable envelopeId row ∧
        (row.CommittedWithoutIntent ∨ row.Collides requestId body requestResponse)) := by
  by_cases hcall : ValidIntent requestId body ∧ ∃ row, db.Answerable envelopeId row
  · obtain ⟨hvalid, row, hrow⟩ := hcall
    have hkept := hrow.1
    have hmem := (Tables.find_mem hkept).1
    have honly : ∀ other, db.Answerable envelopeId other → other = row := by
      intro other hother
      exact Option.some.inj (hother.1.symm.trans hkept)
    have hright : (ValidIntent requestId body ∧ ∃ row, db.Answerable envelopeId row ∧
        (row.CommittedWithoutIntent ∨ row.Collides requestId body requestResponse)) ↔
        row.CommittedWithoutIntent ∨ row.Collides requestId body requestResponse := by
      constructor
      · rintro ⟨-, other, hother, hbad⟩
        rwa [honly other hother] at hbad
      · exact fun hbad => ⟨hvalid, row, hrow, hbad⟩
    rw [hright]
    have hcall : prepareResponse db envelopeId requestId body requestResponse now = _ :=
      prepareResponse_answerable hvalid hrow
    cases hdigest : row.responseRequestDigest with
    | some existing =>
        rw [hdigest] at hcall
        have hno : ¬ row.CommittedWithoutIntent := by
          intro hbad
          rw [hbad.2] at hdigest
          cases hdigest
        by_cases hsame : existing = Sha256.hexdigest (intentText requestId body requestResponse)
        · subst hsame
          simp only [require_bind] at hcall
          rw [responsePrepared_of_row hcall, (hfits row hmem).intent_iff hdigest,
            or_iff_right hno]
          exact and_iff_right hkept
        · simp only [require, if_neg hsame] at hcall
          refine iff_of_true (responsePrepared_of_error hcall) (not_or_intro hno ?_)
          rintro ⟨requestId', body', requestResponse', hintent, -, hcollision⟩
          apply hsame
          have hstored := row.digest_of_intent hintent
          rw [hdigest] at hstored
          rw [Option.some.inj hstored, Sha256.hexdigest, hcollision]
          rfl
    | none =>
        rw [hdigest] at hcall
        have hcol : ¬ row.Collides requestId body requestResponse := by
          rintro ⟨requestId', body', requestResponse', hintent, -⟩
          rw [row.digest_of_intent hintent] at hdigest
          cases hdigest
        by_cases hcommitted : row.responseCommitted = true
        · have hguard : ∀ other ∈ db.rows, decide (other.envelopeId = envelopeId ∧
              other.responseRequestDigest = none ∧ other.responseCommitted = false ∧
              other.state.isLive = true) = false := by
            intro other hother
            rw [decide_eq_false_iff_not]
            rintro ⟨hid, -, hopen, -⟩
            have hsame : other = row := by
              apply Tables.eq_of_key hdb.envelopes hother hmem
              rw [hid]
              exact (Tables.find_mem hkept).2.symm
            rw [hsame, hcommitted] at hopen
            cases hopen
          simp only [update_none hdb hguard, ok_bind, hkept] at hcall
          rw [responsePrepared_of_row hcall]
          refine iff_of_false ?_ (not_not_intro (.inl ⟨hcommitted, hdigest⟩))
          rintro ⟨-, hintent⟩
          rw [row.digest_of_intent hintent] at hdigest
          cases hdigest
        · have hno : ¬ row.CommittedWithoutIntent := fun hbad => hcommitted hbad.1
          refine iff_of_true ?_ (not_or_intro hno hcol)
          have hguard : decide (row.envelopeId = envelopeId ∧ row.responseRequestDigest = none ∧
              row.responseCommitted = false ∧ row.state.isLive = true) = true := by
            rw [decide_eq_true_iff]
            exact ⟨(Tables.find_mem hkept).2, hdigest, Bool.eq_false_iff.mpr hcommitted, hrow.2.1⟩
          cases hout : prepareResponse db envelopeId requestId body requestResponse now with
          | error failure => exact responsePrepared_of_error hout
          | ok out =>
              rw [hout] at hcall
              have hdone := hcall.symm
              simp only [bind_eq_ok, pure_eq_ok] at hdone
              obtain ⟨db₁, hupdate, rfl⟩ := hdone
              have hread := update_row? hupdate (fun _ => rfl) hkept hguard
              rw [hread] at hout
              rw [responsePrepared_of_row hout]
              exact ⟨hread, rfl⟩
  · have hright : ¬ (ValidIntent requestId body ∧ ∃ row, db.Answerable envelopeId row ∧
        (row.CommittedWithoutIntent ∨ row.Collides requestId body requestResponse)) :=
      fun ⟨hvalid, row, hrow, _⟩ => hcall ⟨hvalid, row, hrow⟩
    refine iff_of_true ?_ hright
    rcases prepareResponse_refused hcall with ⟨failure, h⟩ | h
    · exact responsePrepared_of_error h
    · exact responsePrepared_of_none h

/-- A committed response stays in every run. -/
theorem responseStays_after (pre post : List Action) :
    ResponseStays (after pre) (after (pre ++ post)) := by
  intro row hrow hcommitted row' hrow' hid
  have hkept : ∃ row' ∈ (after (pre ++ post)).rows, Kept row row' := by
    unfold after
    rw [run_append]
    exact run_goes (inv_after pre) post row hrow
  obtain ⟨later, hlater, hk⟩ := hkept
  have hsame : row' = later := by
    apply Tables.eq_of_key (inv_after (pre ++ post)).envelopes hrow' hlater
    rw [hid, hk.envelopeId]
  rw [hsame]
  exact hk.response hcommitted

end Intents

section Example

@[reducible] def zeroDigest : Sha256 where
  digest _ := List.replicate 32 0
  length_digest := Sha256.length_zeros

@[reducible] def integersOnly : Conversions where
  str _ := ""
  int
    | .num literal => literal.toInt?
    | _ => none

attribute [local instance] zeroDigest integersOnly

def question : Envelope :=
  [("action", .str "request_reply"), ("kind", .str "request_reply"),
    ("body", .obj [("message", .str "Is the build green?")]), ("used_legs", .num (.ofInt 1)),
    ("max_legs", .num (.ofInt 6)), ("expires_at", .num (.ofInt 100)),
    ("envelope_id", .str "envelope"), ("request_id", .str "request"), ("team_id", .str "team"),
    ("source_server_identity", .str "source"), ("source_route_id", .str "route"),
    ("source_route_revision", .str "revision"), ("target_server_identity", .str "target"),
    ("target_route_id", .str "route"), ("target_route_revision", .str "revision"),
    ("exchange_id", .str "exchange")]

/-- The response of a question is committed before it has an intent. -/
def committedEarly : List Action :=
  [.prepare question "host" "connection" "lease" "chat" 0, .authorize "envelope" 1,
    .markResponseCommitted "envelope" none 2]

end Example

end AgentsServer.PeerDelivery
