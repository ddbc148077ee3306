import AgentsServer.PeerDelivery.Ledger
import Mathlib.Data.List.Pairwise
import Mathlib.Tactic.Common

/-!
# The lifecycle of a delivery

One row for each envelope, states that only move forward, owners bound once and
a response that is frozen once committed, in every run of the ledger.
-/

namespace AgentsServer.PeerDelivery

open Library Library.Runs

/-- The place of a state on the chain. Both terminal states are last. -/
def State.rank : State → Nat
  | .prepared => 0
  | .authorized => 1
  | .queued => 2
  | .running => 3
  | .completed => 4
  | .failed => 4

def Row.intent (row : Row) : Option String × Option String × Option String × Option Bool :=
  (row.responseRequestId, row.responseRequestDigest, row.responseBody,
    row.responseRequestResponse)

/-- The owner columns that a state allows. -/
def Row.OwnerFits (row : Row) : Prop :=
  match row.state with
  | .prepared | .authorized => row.queuedId = none ∧ row.runId = none
  | .queued => row.queuedId ≠ none ∧ row.runId = none
  | .running => row.runId ≠ none
  | .completed | .failed => True

/-- What no later operation changes in a row. -/
structure Kept (row row' : Row) : Prop where
  claim : row'.claim = row.claim
  digest : row'.claimDigest = row.claimDigest
  state : row'.state = row.state ∨ row.state.rank < row'.state.rank
  queued : ∀ q, row.queuedId = some q → row'.queuedId = some q
  run : ∀ r, row.runId = some r → row'.runId = some r
  response : row.responseCommitted = true →
    row'.responseCommitted = true ∧ row'.intent = row.intent

theorem Kept.refl (row : Row) : Kept row row where
  claim := rfl
  digest := rfl
  state := Or.inl rfl
  queued _ h := h
  run _ h := h
  response h := ⟨h, rfl⟩

theorem Kept.trans {a b c : Row} (h : Kept a b) (h' : Kept b c) : Kept a c where
  claim := h'.claim.trans h.claim
  digest := h'.digest.trans h.digest
  state := by
    cases h.state with
    | inl same =>
        rw [← same]
        exact h'.state
    | inr lt =>
        cases h'.state with
        | inl same =>
            rw [same]
            exact Or.inr lt
        | inr lt' => exact Or.inr (Nat.lt_trans lt lt')
  queued q hq := h'.queued q (h.queued q hq)
  run r hr := h'.run r (h.run r hr)
  response hc := by
    obtain ⟨hb, hi⟩ := h.response hc
    obtain ⟨hb', hi'⟩ := h'.response hb
    exact ⟨hb', hi'.trans hi⟩

theorem Kept.envelopeId {a b : Row} (h : Kept a b) : b.envelopeId = a.envelopeId := by
  rw [Row.envelopeId, h.claim, Row.envelopeId]

/-- A terminal state stays. -/
theorem Kept.terminal {a b : Row} (h : Kept a b) (ha : a.state.isTerminal = true) :
    b.state = a.state := by
  cases h.state with
  | inl same => exact same
  | inr lt => cases hs : a.state <;> cases hs' : b.state <;> simp_all [State.rank, State.isTerminal]

/-! ## The invariant -/

structure Inv (db : Ledger) : Prop where
  envelopes : (db.rows.map Row.envelopeId).Nodup
  owners : OwnersUnique db.rows
  fits : ∀ row ∈ db.rows, row.OwnerFits
  capacity : db.nonterminal ≤ maxNonterminalDeliveries

theorem Inv.empty : Inv Ledger.empty := by
  constructor <;> simp [Ledger.empty, OwnersUnique, Ledger.nonterminal]

instance : Std.Symm OwnersApart where
  symm a b h := by
    constructor
    · cases h.1 with
      | inl none => exact or_iff_not_imp_right.mpr fun same => not_not.mp same ▸ none
      | inr ne => exact Or.inr fun same => ne same.symm
    · cases h.2 with
      | inl none => exact or_iff_not_imp_right.mpr fun same => not_not.mp same ▸ none
      | inr ne => exact Or.inr fun same => ne same.symm

/-- Two rows of one ledger with the same owner are the same row. -/
theorem Inv.owner_eq {db : Ledger} (hdb : Inv db) {a b : Row} (ha : a ∈ db.rows) (hb : b ∈ db.rows)
    (h : (a.queuedId ≠ none ∧ a.queuedId = b.queuedId) ∨
      (a.runId ≠ none ∧ a.runId = b.runId)) : a = b := by
  by_contra hne
  obtain ⟨hq, hr⟩ := List.Pairwise.forall hdb.owners ha hb hne
  cases h with
  | inl same =>
      cases hq with
      | inl none => exact same.1 none
      | inr ne => exact ne same.2
  | inr same =>
      cases hr with
      | inl none => exact same.1 none
      | inr ne => exact ne same.2

/-- What an operation does to a ledger that keeps the invariant. -/
structure Goes (db db' : Ledger) : Prop where
  inv : Inv db'
  kept : ∀ row ∈ db.rows, ∃ row' ∈ db'.rows, Kept row row'

theorem Goes.refl {db : Ledger} (h : Inv db) : Goes db db where
  inv := h
  kept row hrow := ⟨row, hrow, Kept.refl row⟩

theorem Goes.same {α : Type} {a b : α} (hdb : Inv db)
    (h : (pure (a, db) : Except Failure (α × Ledger)) = .ok (b, db')) : Goes db db' := by
  simp only [pure_eq_ok, Prod.mk.injEq] at h
  rw [← h.2]
  exact Goes.refl hdb

theorem Goes.trans {a b c : Ledger} (h : Goes a b) (h' : Goes b c) : Goes a c where
  inv := h'.inv
  kept row hrow := by
    obtain ⟨row', hrow', hkept⟩ := h.kept row hrow
    obtain ⟨row'', hrow'', hkept'⟩ := h'.kept row' hrow'
    exact ⟨row'', hrow'', hkept.trans hkept'⟩

section Update

variable {db db' : Ledger} {guard : Row → Bool} {change : Row → Row}

theorem update_rows (h : db.update guard change = .ok db') :
    db'.rows = db.rows.map (fun row => if guard row then change row else row) ∧
      OwnersUnique db'.rows := by
  simp only [Ledger.update, bind_eq_ok, require_eq_ok, pure_eq_ok] at h
  obtain ⟨_, howners, rfl⟩ := h
  exact ⟨rfl, howners⟩

/-- A guarded update moves each row it changes along its lifecycle. -/
theorem Goes.update (hdb : Inv db) (h : db.update guard change = .ok db')
    (safe : ∀ row, guard row = true → row.OwnerFits →
      Kept row (change row) ∧ (change row).OwnerFits) : Goes db db' := by
  obtain ⟨hrows, howners⟩ := update_rows h
  set next : Row → Row := fun row => if guard row = true then change row else row
  have hnext : ∀ row ∈ db.rows, Kept row (next row) ∧ (next row).OwnerFits := by
    intro row hrow
    change Kept row (if guard row = true then change row else row) ∧
      Row.OwnerFits (if guard row = true then change row else row)
    split
    · next hg => exact safe row hg (hdb.fits row hrow)
    · exact ⟨Kept.refl row, hdb.fits row hrow⟩
  have hfewer : db'.nonterminal ≤ db.nonterminal := by
    rw [Ledger.nonterminal, hrows, List.countP_map]
    apply List.countP_mono_left
    intro row hrow hopen
    cases hterm : row.state.isTerminal with
    | false => rfl
    | true =>
        have hsame := (hnext row hrow).1.terminal hterm
        simp only [Function.comp_apply] at hopen
        change (!(next row).state.isTerminal) = true at hopen
        rw [hsame, hterm] at hopen
        cases hopen
  refine ⟨⟨?_, howners, ?_, Nat.le_trans hfewer hdb.capacity⟩, ?_⟩
  · rw [hrows, List.map_map]
    have hsame : db.rows.map (Row.envelopeId ∘ next) = db.rows.map Row.envelopeId := by
      apply List.map_congr_left
      intro row hrow
      exact (hnext row hrow).1.envelopeId
    rw [hsame]
    exact hdb.envelopes
  · intro row hrow
    rw [hrows] at hrow
    obtain ⟨old, hold, rfl⟩ := List.mem_map.mp hrow
    exact (hnext old hold).2
  · intro row hrow
    refine ⟨next row, ?_, (hnext row hrow).1⟩
    rw [hrows]
    exact List.mem_map_of_mem hrow

/-- A new row of a new envelope, below capacity. -/
theorem Goes.insert (hdb : Inv db) {row : Row} (h : db.insert row = .ok db')
    (fits : row.OwnerFits) (free : row.queuedId = none ∧ row.runId = none)
    (room : db.nonterminal < maxNonterminalDeliveries) : Goes db db' := by
  simp only [Ledger.insert, bind_eq_ok, require_eq_ok, pure_eq_ok] at h
  obtain ⟨_, hfresh, rfl⟩ := h
  refine ⟨⟨?_, ?_, ?_, ?_⟩, ?_⟩
  · exact Tables.nodup_append_row hdb.envelopes (Tables.find_eq_none.mp hfresh)
  · refine List.pairwise_append.mpr ⟨hdb.owners, List.pairwise_singleton _ _, ?_⟩
    intro a ha b hb
    rw [List.mem_singleton.mp hb, OwnersApart, free.1, free.2]
    exact ⟨em _, em _⟩
  · intro old hold
    cases List.mem_append.mp hold with
    | inl hold => exact hdb.fits old hold
    | inr hold =>
        rw [List.mem_singleton.mp hold]
        exact fits
  · simp only [Ledger.nonterminal, List.countP_append] at room ⊢
    have hone := List.countP_le_length (p := fun row : Row => !row.state.isTerminal) (l := [row])
    rw [List.length_singleton] at hone
    omega
  · intro old hold
    exact ⟨old, List.mem_append_left _ hold, Kept.refl old⟩

end Update

/-! ## One operation -/

section Operations

variable [Sha256] {db db' : Ledger} {out : Option Row} {envelopeId : String} {now : Int}

theorem prepare_goes [Conversions] (hdb : Inv db) {envelope : Envelope}
    {role connectionId leaseToken targetChatId : String} {r : Row × Bool}
    (h : prepare db envelope role connectionId leaseToken targetChatId now = .ok (r, db')) :
    Goes db db' := by
  simp only [prepare, bind_eq_ok] at h
  obtain ⟨claim, _, h⟩ := h
  cases hrow : db.row? claim.envelopeId with
  | some row =>
      simp only [hrow, bind_eq_ok, require_eq_ok] at h
      obtain ⟨_, _, h⟩ := h
      split at h
      · simp only [bind_eq_ok, pure_eq_ok, Prod.mk.injEq] at h
        obtain ⟨db₁, hupdate, _, _, _, rfl⟩ := h
        apply Goes.update hdb hupdate
        intro row _ hfits
        exact ⟨⟨rfl, rfl, Or.inl rfl, fun _ => id, fun _ => id, fun hc => ⟨hc, rfl⟩⟩, hfits⟩
      · exact Goes.same hdb h
  | none =>
      simp only [hrow, bind_eq_ok, require_eq_ok, pure_eq_ok, Prod.mk.injEq] at h
      obtain ⟨db₁, hexpire, _, hroom, _, _, db₂, hinsert, _, _, _, rfl⟩ := h
      have hgoes : Goes db db₁ := by
        apply Goes.update hdb hexpire
        intro row hg _
        simp only [decide_eq_true_eq] at hg
        refine ⟨⟨rfl, rfl, Or.inr ?_, fun _ => id, fun _ => id, fun hc => ⟨hc, rfl⟩⟩, trivial⟩
        simp [hg.1, State.rank]
      exact hgoes.trans (Goes.insert hgoes.inv hinsert ⟨rfl, rfl⟩ ⟨rfl, rfl⟩ hroom)

omit [Sha256] in
theorem transition_goes (hdb : Inv db) {expected : List State} {state : State}
    {patch : Row → Row} (h : transition db envelopeId expected state patch now = .ok (out, db'))
    (safe : ∀ row, row.state ∈ expected → row.OwnerFits →
      Kept row { patch row with state, updatedAt := now } ∧
        Row.OwnerFits { patch row with state, updatedAt := now }) : Goes db db' := by
  simp only [transition, bind_eq_ok] at h
  obtain ⟨db₁, hupdate, h⟩ := h
  have hgoes : Goes db db₁ := by
    apply Goes.update hdb hupdate
    intro row hg hfits
    simp only [decide_eq_true_eq] at hg
    exact safe row hg.2 hfits
  split at h <;> simp only [pure_eq_ok, Prod.mk.injEq] at h <;> (rw [← h.2]; exact hgoes)

omit [Sha256] in
theorem authorize_goes (hdb : Inv db) (h : authorize db envelopeId now = .ok (out, db')) :
    Goes db db' := by
  apply transition_goes hdb h
  intro row hstate hfits
  simp only [List.mem_cons, List.not_mem_nil, or_false] at hstate
  cases hstate with
  | inl hs =>
      simp only [Row.OwnerFits, hs] at hfits
      refine ⟨⟨rfl, rfl, Or.inr ?_, fun _ => id, fun _ => id, fun hc => ⟨hc, rfl⟩⟩, hfits⟩
      simp [hs, State.rank]
  | inr hs =>
      simp only [Row.OwnerFits, hs] at hfits
      exact ⟨⟨rfl, rfl, Or.inl hs.symm, fun _ => id, fun _ => id, fun hc => ⟨hc, rfl⟩⟩, hfits⟩

theorem finish_goes (hdb : Inv db) {succeeded : Bool} {resultText : String}
    {error : Option String}
    (h : finish db envelopeId succeeded resultText error now = .ok (out, db')) : Goes db db' := by
  apply transition_goes hdb h
  intro row hstate _
  refine ⟨⟨rfl, rfl, Or.inr ?_, fun _ => id, fun _ => id, fun hc => ⟨hc, rfl⟩⟩, ?_⟩
  · cases succeeded <;> cases hs : row.state <;> simp_all [State.rank]
  · cases succeeded <;> trivial

omit [Sha256] in
theorem failOwnerlessAuthorized_goes (hdb : Inv db) {error : String}
    (h : failOwnerlessAuthorized db envelopeId error now = .ok (out, db')) : Goes db db' := by
  simp only [failOwnerlessAuthorized, bind_eq_ok, pure_eq_ok, Prod.mk.injEq] at h
  obtain ⟨db₁, hupdate, _, rfl⟩ := h
  apply Goes.update hdb hupdate
  intro row hg _
  simp only [decide_eq_true_eq] at hg
  refine ⟨⟨rfl, rfl, Or.inr ?_, fun _ => id, fun _ => id, fun hc => ⟨hc, rfl⟩⟩, trivial⟩
  simp [hg.2.1, State.rank]

omit [Sha256] in
theorem bindOwner_goes (hdb : Inv db) {queuedId runId : Option String}
    (h : bindOwner db envelopeId queuedId runId now = .ok (out, db')) : Goes db db' := by
  simp only [bindOwner, bind_eq_ok, require_eq_ok] at h
  obtain ⟨_, howner, h⟩ := h
  cases hrow : db.row? envelopeId with
  | none =>
      simp only [hrow] at h
      exact Goes.same hdb h
  | some row =>
      simp only [hrow] at h
      split at h
      · simp only [bind_eq_ok, pure_eq_ok, Prod.mk.injEq] at h
        obtain ⟨db₁, hupdate, _, rfl⟩ := h
        apply Goes.update hdb hupdate
        intro old hg _
        simp only [decide_eq_true_eq] at hg
        obtain ⟨_, hstate, hqueued, hrun⟩ := hg
        refine ⟨⟨rfl, rfl, Or.inr ?_, ?_, ?_, fun hc => ⟨hc, rfl⟩⟩, ?_⟩
        · cases runId <;> simp [hstate, State.rank]
        · rw [hqueued]
          intro _ hq
          cases hq
        · rw [hrun]
          intro _ hr
          cases hr
        · cases runId with
          | some run =>
              intro hr
              cases hr
          | none => exact ⟨fun hq => howner ⟨hq, rfl⟩, rfl⟩
      · split at h
        · exact Goes.same hdb h
        · split at h
          · next hsome =>
              simp only [bind_eq_ok, pure_eq_ok, Prod.mk.injEq] at h
              obtain ⟨db₁, hupdate, _, rfl⟩ := h
              apply Goes.update hdb hupdate
              intro old hg _
              simp only [decide_eq_true_eq] at hg
              obtain ⟨_, hstate, _, hqueued, hrun⟩ := hg
              refine ⟨⟨rfl, rfl, Or.inr ?_, fun _ => id, ?_, fun hc => ⟨hc, rfl⟩⟩, hsome⟩
              · simp [hstate, State.rank]
              · rw [hrun]
                intro _ hr
                cases hr
          · exact Goes.same hdb h
      · split at h <;> simp only [pure_eq_ok, Prod.mk.injEq] at h <;> rw [← h.2] <;>
          exact Goes.refl hdb
      · exact Goes.same hdb h

omit [Sha256] in
theorem deferAdmission_goes (hdb : Inv db) {error : String}
    (h : deferAdmission db envelopeId error now = .ok (out, db')) : Goes db db' := by
  simp only [deferAdmission] at h
  cases hrow : db.row? envelopeId with
  | none =>
      simp only [hrow] at h
      exact Goes.same hdb h
  | some row =>
      simp only [hrow] at h
      split at h
      · exact Goes.same hdb h
      · simp only [bind_eq_ok, pure_eq_ok, Prod.mk.injEq] at h
        obtain ⟨db₁, hupdate, _, rfl⟩ := h
        apply Goes.update hdb hupdate
        intro old _ hfits
        exact ⟨⟨rfl, rfl, Or.inl rfl, fun _ => id, fun _ => id, fun hc => ⟨hc, rfl⟩⟩, hfits⟩

theorem prepareResponse_goes (hdb : Inv db) {requestId body : String} {requestResponse : Bool}
    (h : prepareResponse db envelopeId requestId body requestResponse now = .ok (out, db')) :
    Goes db db' := by
  simp only [prepareResponse, bind_eq_ok, require_eq_ok] at h
  obtain ⟨_, _, h⟩ := h
  cases hrow : db.row? envelopeId with
  | none =>
      simp only [hrow] at h
      exact Goes.same hdb h
  | some row =>
      simp only [hrow] at h
      split at h
      · exact Goes.same hdb h
      · split at h
        · simp only [bind_eq_ok, pure_eq_ok, Prod.mk.injEq] at h
          obtain ⟨_, _, _, rfl⟩ := h
          exact Goes.refl hdb
        · simp only [bind_eq_ok, pure_eq_ok, Prod.mk.injEq] at h
          obtain ⟨db₁, hupdate, _, rfl⟩ := h
          apply Goes.update hdb hupdate
          intro old hg hfits
          simp only [decide_eq_true_eq] at hg
          refine ⟨⟨rfl, rfl, Or.inl rfl, fun _ => id, fun _ => id, fun hc => ?_⟩, hfits⟩
          rw [hg.2.2.1] at hc
          cases hc

omit [Sha256] in
theorem markResponseCommitted_goes (hdb : Inv db) {requestId : Option String}
    (h : markResponseCommitted db envelopeId requestId now = .ok (out, db')) : Goes db db' := by
  simp only [markResponseCommitted, bind_eq_ok, pure_eq_ok, Prod.mk.injEq] at h
  obtain ⟨db₁, hupdate, _, _, _, rfl⟩ := h
  apply Goes.update hdb hupdate
  intro old _ hfits
  exact ⟨⟨rfl, rfl, Or.inl rfl, fun _ => id, fun _ => id, fun _ => ⟨rfl, rfl⟩⟩, hfits⟩

omit [Sha256] in
theorem clearResponseIntent_goes (hdb : Inv db) {requestId : String}
    (h : clearResponseIntent db envelopeId requestId now = .ok (out, db')) : Goes db db' := by
  simp only [clearResponseIntent, bind_eq_ok, pure_eq_ok, Prod.mk.injEq] at h
  obtain ⟨db₁, hupdate, _, rfl⟩ := h
  apply Goes.update hdb hupdate
  intro old hg hfits
  simp only [decide_eq_true_eq] at hg
  refine ⟨⟨rfl, rfl, Or.inl rfl, fun _ => id, fun _ => id, fun hc => ?_⟩, hfits⟩
  rw [hg.2.2.1] at hc
  cases hc

omit [Sha256] in
theorem deferResponse_goes (hdb : Inv db) {requestId error : String}
    (h : deferResponse db envelopeId requestId error now = .ok (out, db')) : Goes db db' := by
  simp only [deferResponse] at h
  cases hrow : db.row? envelopeId with
  | none =>
      simp only [hrow] at h
      exact Goes.same hdb h
  | some row =>
      simp only [hrow] at h
      split at h
      · exact Goes.same hdb h
      · simp only [bind_eq_ok, pure_eq_ok, Prod.mk.injEq] at h
        obtain ⟨db₁, hupdate, _, rfl⟩ := h
        apply Goes.update hdb hupdate
        intro old _ hfits
        exact ⟨⟨rfl, rfl, Or.inl rfl, fun _ => id, fun _ => id, fun hc => ⟨hc, rfl⟩⟩, hfits⟩

/-! ## Runs -/

variable [Conversions]

theorem step_goes (hdb : Inv db) (action : Action) : Goes db (step db action).1 := by
  apply atomically_keep (P := Goes db) (Goes.refl hdb)
  intro answer db' h
  cases action <;> simp only [perform, map_eq_ok, Prod.mk.injEq] at h <;>
    obtain ⟨⟨_, _⟩, h, _, rfl⟩ := h
  case prepare => exact prepare_goes hdb h
  case authorize => exact authorize_goes hdb h
  case failOwnerlessAuthorized => exact failOwnerlessAuthorized_goes hdb h
  case bindOwner => exact bindOwner_goes hdb h
  case deferAdmission => exact deferAdmission_goes hdb h
  case finish => exact finish_goes hdb h
  case prepareResponse => exact prepareResponse_goes hdb h
  case markResponseCommitted => exact markResponseCommitted_goes hdb h
  case clearResponseIntent => exact clearResponseIntent_goes hdb h
  case deferResponse => exact deferResponse_goes hdb h

theorem inv_after (actions : List Action) : Inv (after actions) :=
  run_invariant (I := Inv) step (fun _ action h => (step_goes h action).inv) _ Inv.empty actions

theorem run_goes (hdb : Inv db) (actions : List Action) :
    ∀ row ∈ db.rows, ∃ row' ∈ (run step db actions).rows, Kept row row' := by
  apply run_related step (I := Inv)
    (R := fun db db' => ∀ row ∈ db.rows, ∃ row' ∈ db'.rows, Kept row row')
  · exact fun _ action h => (step_goes h action).inv
  · exact fun _ row hrow => ⟨row, hrow, Kept.refl row⟩
  · intro a b c hab hbc row hrow
    obtain ⟨row', hrow', hkept⟩ := hab row hrow
    obtain ⟨row'', hrow'', hkept'⟩ := hbc row' hrow'
    exact ⟨row'', hrow'', hkept.trans hkept'⟩
  · exact fun _ action h => (step_goes h action).kept
  · exact hdb

/-- In every run: one row for each envelope, whose claim never changes and whose
state only moves forward; owners that fit the state, are never replaced and
belong to one envelope; a committed response that is frozen; and a bounded
number of deliveries that are not finished. -/
theorem delivery_lifecycle (pre post : List Action) :
    ((after pre).rows.map Row.envelopeId).Nodup ∧
    (∀ row ∈ (after pre).rows, row.OwnerFits) ∧
    (after pre).nonterminal ≤ maxNonterminalDeliveries ∧
    (∀ row ∈ (after pre).rows, ∃ row' ∈ (after (pre ++ post)).rows, Kept row row') ∧
    ∀ row ∈ (after pre).rows, ∀ row' ∈ (after (pre ++ post)).rows,
      (row.queuedId ≠ none ∧ row.queuedId = row'.queuedId) ∨
        (row.runId ≠ none ∧ row.runId = row'.runId) →
      row'.envelopeId = row.envelopeId := by
  have hinv := inv_after pre
  have hkept : ∀ row ∈ (after pre).rows, ∃ row' ∈ (after (pre ++ post)).rows, Kept row row' := by
    rw [after, after, run_append]
    exact run_goes hinv post
  refine ⟨hinv.envelopes, hinv.fits, hinv.capacity, hkept, ?_⟩
  intro row hrow row' hrow' howner
  obtain ⟨later, hlater, hk⟩ := hkept row hrow
  have hsame : later = row' := by
    apply (inv_after (pre ++ post)).owner_eq hlater hrow'
    cases howner with
    | inl hq =>
        obtain ⟨q, hq'⟩ := Option.ne_none_iff_exists'.mp hq.1
        rw [hk.queued q hq', ← hq.2, hq']
        exact Or.inl ⟨by simp, rfl⟩
    | inr hr =>
        obtain ⟨r, hr'⟩ := Option.ne_none_iff_exists'.mp hr.1
        rw [hk.run r hr', ← hr.2, hr']
        exact Or.inr ⟨by simp, rfl⟩
  rw [← hsame]
  exact hk.envelopeId

end Operations

end AgentsServer.PeerDelivery
