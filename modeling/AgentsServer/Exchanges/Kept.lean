import AgentsServer.Exchanges.Replays

/-!
# Exchanges over whole runs

In every run the legs of an exchange are a chain, ends are final, replays of accepted calls change
nothing, and a constraint is violated only by names that are already taken.
-/

namespace AgentsServer.Exchanges

open Library

variable {d : Ledger}

/-! ## Constraints -/

/-- The leg identifier of a call is new, and no other leg of the exchange has the call's
idempotency key or is recorded under its run. Chats differ, and the legs of an exchange are one to
six. -/
def Distinct (d : Ledger) (a : Action) : Prop :=
  match a.call with
  | .createExchangeObligation c =>
      c.requesterSessionId ≠ c.responderSessionId ∧ 0 < c.maxLegs ∧ c.maxLegs ≤ 6
  | .createRouteExchangeRequest c =>
      c.requesterSessionId ≠ c.responderSessionId ∧ 0 < c.maxLegs ∧ c.maxLegs ≤ 6 ∧
        (d.exchange? c.exchangeId = none → ∀ l ∈ d.legs, l.id ≠ c.legId)
  | .createInitialExchangeLeg c =>
      (∀ l ∈ d.legs, l.id ≠ a.process.legId) ∧
        ∀ l ∈ d.legs, l.exchangeId = c.exchangeId → l.sourceRunId ≠ c.sourceRunId →
          l.idempotencyKey ≠ c.idempotencyKey
  | .commitExchangeResponse c =>
      (∀ l ∈ d.legs, l.id ≠ a.process.legId) ∧
        ∀ l ∈ d.legs, l.exchangeId = c.exchangeId → l.parentLegId ≠ some c.inboundLegId →
          l.idempotencyKey ≠ c.idempotencyKey ∧
            ∀ e, d.exchange? c.exchangeId = some e → l.sourceRunId ≠ c.durableSourceRunId e
  | .createExchangeStatusLeg c =>
      (d.exchange? c.exchangeId).isSome = true ∧ c.sourceSessionId ≠ c.targetSessionId ∧
        (∀ l ∈ d.legs, l.id ≠ a.process.legId) ∧
          ∀ l ∈ d.legs, l.exchangeId = c.exchangeId → l.kind ≠ .status →
            l.idempotencyKey ≠ "status:" ++ c.errorCode ∧
              l.sourceRunId ≠ "status:" ++ c.exchangeId
  | _ => True

theorem insertExchange_new {e : Exchange} (hchecked : e.checked = true)
    (hnew : d.exchange? e.id = none) :
    d.insertExchange e = some { d with exchanges := d.exchanges ++ [e] } :=
  insertExchange_eq_some.mpr ⟨⟨hchecked, Tables.find_eq_none.mp hnew⟩, rfl⟩

theorem insertLeg_new {l : Leg} (hexchange : (d.exchange? l.exchangeId).isSome = true)
    (hchats : l.sourceSessionId ≠ l.targetSessionId)
    (hapart : ∀ old ∈ d.legs, old.clashes l = false) :
    d.insertLeg l = some { d with legs := d.legs ++ [l] } :=
  insertLeg_eq_some.mpr ⟨⟨hexchange, hchats, hapart⟩, rfl⟩

/-- The update of the exchange that got a leg is within its checks. -/
theorem Inv.setExchanges_some (h : Inv d) (legs : List Leg) {e : Exchange}
    {f : Exchange → Exchange} {id : String}
    (he : d.exchange? id = some e) (hchecked : (f e).checked = true) :
    ∃ d', ({ d with legs := legs } : Ledger).setExchanges (fun e => decide (e.id = id)) f =
      some d' := by
  refine ⟨_, Option.map_eq_some_iff.mpr ⟨_, Tables.updateRows_eq_some.mpr ⟨?_, rfl⟩, rfl⟩⟩
  intro e' he' hid
  rw [decide_eq_true_eq] at hid
  rw [h.only_exchange he he' hid]
  exact hchecked

theorem ordinal_le (h : Inv d) {e : Exchange} (he : e ∈ d.exchanges) {l : Leg} (hl : l ∈ d.legs)
    (hid : l.exchangeId = e.id) : l.ordinal ≤ e.usedLegs := by
  by_cases hkind : l.kind = .status
  · rw [(h.statusLegs l hl hkind).2.2]
    exact Nat.zero_le _
  · have hmem : l.ordinal ∈ List.range' 1 e.usedLegs := by
      rw [← (h.chains e he).ordinals]
      exact List.mem_map_of_mem (mem_ordinary.mpr ⟨hl, hid, hkind⟩)
    rw [List.mem_range'_1] at hmem
    omega

theorem obligation_distinct {p : Process} {c : Ledger.Obligation}
    (hd : Distinct d ⟨p, .createExchangeObligation c⟩) :
    (d.createExchangeObligation c).2 ≠ .integrityError := by
  unfold Ledger.createExchangeObligation
  split
  · rintro ⟨⟩
  split
  · split
    · rintro ⟨⟩
    · rintro ⟨⟩
  next hnone =>
  rw [insertExchange_new _ hnone]
  · rintro ⟨⟩
  · apply checked_iff.mpr
    exact ⟨hd.2, Int.le_of_lt hd.2.1, hd.1⟩

theorem Inv.route_distinct (h : Inv d) {p : Process} {c : Ledger.RouteRequest}
    (hd : Distinct d ⟨p, .createRouteExchangeRequest c⟩) :
    (d.createRouteExchangeRequest p c).2 ≠ .integrityError := by
  unfold Ledger.createRouteExchangeRequest
  split
  · next result hvalidate =>
    obtain ⟨_, _, rfl⟩ | ⟨_, rfl⟩ := validate_error hvalidate
    · rintro ⟨⟩
    · rintro ⟨⟩
  split
  · split
    · rintro ⟨⟩
    split
    · rintro ⟨⟩
    · rintro ⟨⟩
  next actions hvalidate _ hnone =>
  obtain ⟨hchats, hpos, hmax, hnew⟩ := hd
  have hinsert := insertExchange_new (e := c.exchange p actions)
    (checked_iff.mpr ⟨⟨hpos, hmax⟩, hpos, hchats⟩) hnone
  dsimp only
  rw [hinsert, Option.bind_some, insertLeg_new _ hchats _]
  · rintro ⟨⟩
  · change (Tables.find Exchange.id (d.exchanges ++ [c.exchange p actions]) c.exchangeId).isSome = _
    rw [Tables.find_append, Option.isSome_or]
    simp [Tables.find, Ledger.RouteRequest.exchange]
  · intro old hold
    apply not_clashes.mpr
    refine ⟨hnew hnone old hold, fun hparent => absurd rfl hparent, ?_⟩
    intro hown
    obtain ⟨e, he, hid⟩ := h.owned old hold
    exact absurd (hid.trans hown) (Tables.find_eq_none.mp hnone e he)

theorem Inv.initial_distinct (h : Inv d) {p : Process} {c : Ledger.InitialLeg}
    (hd : Distinct d ⟨p, .createInitialExchangeLeg c⟩) :
    (d.createInitialExchangeLeg p c).2 ≠ .integrityError := by
  unfold Ledger.createInitialExchangeLeg
  split
  · rintro ⟨⟩
  next e he =>
  obtain ⟨hmem, hid⟩ := Tables.find_mem he
  split
  · split
    · rintro ⟨⟩
    · rintro ⟨⟩
  next hnone =>
  split
  · rintro ⟨⟩
  next hwaiting =>
  rw [not_not] at hwaiting
  split
  · rintro ⟨⟩
  split
  · rintro ⟨⟩
  next hchats =>
  rw [not_or, not_not, not_not] at hchats
  split
  · rintro ⟨⟩
  obtain ⟨hnew, hkey⟩ := hd
  have hchecked := checked_iff.mp (h.checked e hmem)
  obtain ⟨d₂, hset⟩ := h.setExchanges_some (d.legs ++ [c.leg p]) (f := c.activate p) he
    (checked_iff.mpr ⟨hchecked.1, hchecked.1.1, hchecked.2.2⟩)
  rw [insertLeg_new (l := c.leg p) _ _ _, Option.bind_some, hset]
  · rintro ⟨⟩
  · exact Option.isSome_iff_exists.mpr ⟨e, he⟩
  · change c.sourceSessionId ≠ c.targetSessionId
    rw [← hchats.1, ← hchats.2]
    exact hchecked.2.2
  · intro old hold
    apply not_clashes.mpr
    refine ⟨hnew old hold, fun hparent => absurd rfl hparent, ?_⟩
    intro hown
    have hrun : old.sourceRunId ≠ c.sourceRunId := by
      intro hrun
      have hno := List.find?_eq_none.mp hnone old hold
      rw [Bool.and_eq_true, decide_eq_true_eq, decide_eq_true_eq] at hno
      exact hno ⟨hown, hrun⟩
    refine ⟨?_, hrun, hkey old hold hown hrun⟩
    -- an exchange that waits for its request has a status leg at most
    have hle := ordinal_le h hmem hold (hown.trans hid.symm)
    rw [h.waiting e hmem hwaiting] at hle
    change old.ordinal ≠ 1
    omega

theorem Inv.response_distinct (h : Inv d) {p : Process} {c : Ledger.Response}
    (hd : Distinct d ⟨p, .commitExchangeResponse c⟩) :
    (d.commitExchangeResponse p c).2 ≠ .integrityError := by
  unfold Ledger.commitExchangeResponse
  split
  swap
  · rintro ⟨⟩
  next e inbound he hinbound =>
  obtain ⟨hmem, hid⟩ := Tables.find_mem he
  split
  · split
    · rintro ⟨⟩
    · rintro ⟨⟩
  next hnone =>
  split
  · split
    · rintro ⟨⟩
    · rintro ⟨⟩
  split
  · rintro ⟨⟩
  split
  · rintro ⟨⟩
  split
  · rintro ⟨⟩
  split
  · rintro ⟨⟩
  split
  · rintro ⟨⟩
  next hchats =>
  split
  · rintro ⟨⟩
  next hbudget =>
  obtain ⟨hnew, hother⟩ := hd
  have hchecked := checked_iff.mp (h.checked e hmem)
  have hslots : 1 ≤ c.requiredSlots := by
    unfold Ledger.Response.requiredSlots
    split
    · decide
    · decide
  have hadvanced : Exchange.checked
      { e with usedLegs := e.usedLegs + 1, activeLegId := some p.legId } = true := by
    refine checked_iff.mpr ⟨hchecked.1, ?_, hchecked.2.2⟩
    push_cast
    omega
  have hdiffer : c.sourceSessionId ≠ inbound.sourceSessionId := by
    rw [Bool.not_eq_true', Bool.not_eq_false] at hchats
    unfold Ledger.participants at hchats
    rw [Bool.and_eq_true, decide_eq_true_eq] at hchats
    exact hchats.2.symm
  have hkept : ∀ old ∈ (d.setLeg c.inboundLegId
      fun l => { l with responseState := c.committedState }).legs,
      old.clashes (c.leg p e inbound) = false := by
    intro old hold
    obtain ⟨l, hl, rfl⟩ := List.mem_map.mp hold
    have hclash : (if l.id = c.inboundLegId then
        { l with responseState := c.committedState } else l).clashes (c.leg p e inbound) =
        l.clashes (c.leg p e inbound) := by
      split
      · rfl
      · rfl
    rw [hclash]
    apply not_clashes.mpr
    have hparent : l.parentLegId ≠ some c.inboundLegId := by
      intro hparent
      have hno := List.find?_eq_none.mp hnone l hl
      rw [decide_eq_true_eq] at hno
      exact hno hparent
    refine ⟨hnew l hl, fun _ => hparent, ?_⟩
    intro hown
    obtain ⟨hkey, hrun⟩ := hother l hl hown hparent
    refine ⟨?_, hrun e he, hkey⟩
    have hle := ordinal_le h hmem hl (hown.trans hid.symm)
    change l.ordinal ≠ e.usedLegs + 1
    omega
  dsimp only
  rw [insertLeg_new (l := c.leg p e inbound) _ hdiffer hkept, Option.bind_some]
  · obtain ⟨d₂, hset⟩ := h.setExchanges_some
      ((d.setLeg c.inboundLegId
        fun l => { l with responseState := c.committedState }).legs ++ [c.leg p e inbound])
      (f := fun e => { e with usedLegs := e.usedLegs + 1, activeLegId := some p.legId })
      he hadvanced
    have hset' := hset
    change Ledger.setExchanges { (d.setLeg c.inboundLegId
      fun l => { l with responseState := c.committedState }) with
        legs := _ } _ _ = _ at hset'
    rw [hset']
    rintro ⟨⟩
  · exact Option.isSome_iff_exists.mpr ⟨e, he⟩

theorem Inv.status_distinct (h : Inv d) {p : Process} {c : Ledger.StatusLeg}
    (hd : Distinct d ⟨p, .createExchangeStatusLeg c⟩) :
    (d.createExchangeStatusLeg p c).2 ≠ .integrityError := by
  unfold Ledger.createExchangeStatusLeg
  split
  · rintro ⟨⟩
  next hnone =>
  obtain ⟨hexchange, hchats, hnew, hother⟩ := hd
  rw [insertLeg_new (l := c.leg p) hexchange hchats _]
  · rintro ⟨⟩
  · intro old hold
    apply not_clashes.mpr
    refine ⟨hnew old hold, fun hparent => absurd rfl hparent, ?_⟩
    intro hown
    have hkind : old.kind ≠ .status := by
      intro hkind
      have hno := List.find?_eq_none.mp hnone old hold
      rw [Bool.and_eq_true, decide_eq_true_eq, decide_eq_true_eq] at hno
      exact hno ⟨hown, hkind⟩
    obtain ⟨hkey, hrun⟩ := hother old hold hown hkind
    refine ⟨?_, hrun, hkey⟩
    obtain ⟨e, he, hid⟩ := h.owned old hold
    have hmem : old.ordinal ∈ List.range' 1 e.usedLegs := by
      rw [← (h.chains e he).ordinals]
      exact List.mem_map_of_mem (mem_ordinary.mpr ⟨hold, hid.symm, hkind⟩)
    rw [List.mem_range'_1] at hmem
    change old.ordinal ≠ 0
    omega

/-- A call with names of its own violates no constraint. -/
theorem Inv.distinct (h : Inv d) (a : Action) (hd : Distinct d a) :
    (d.step a).2 ≠ .integrityError := by
  obtain ⟨p, call⟩ := a
  cases call with
  | createExchangeObligation c => exact obligation_distinct hd
  | createRouteExchangeRequest c => exact h.route_distinct hd
  | createInitialExchangeLeg c => exact h.initial_distinct hd
  | commitExchangeResponse c => exact h.response_distinct hd
  | createExchangeStatusLeg c => exact h.status_distinct hd
  | downgradeLiveExchange exchangeId activeLegId instanceId =>
      change (d.downgradeLiveExchange exchangeId activeLegId instanceId).2 ≠ _
      unfold Ledger.downgradeLiveExchange
      split
      · rintro ⟨⟩
      · split
        · rintro ⟨⟩
        · rintro ⟨⟩
  | cancelExactQueuedExchangeLeg exchangeId legId targetSessionId queuedId =>
      change (d.cancelExactQueuedExchangeLeg exchangeId legId targetSessionId queuedId).2 ≠ _
      unfold Ledger.cancelExactQueuedExchangeLeg
      split
      · split
        · rintro ⟨⟩
        dsimp only
        split
        · rintro ⟨⟩
        · rintro ⟨⟩
      · rintro ⟨⟩
  | cancelExchange exchangeId status =>
      change (d.cancelExchange exchangeId status).2 ≠ _
      unfold Ledger.cancelExchange
      split
      · rintro ⟨⟩
      split
      · rintro ⟨⟩
      dsimp only
      split
      · rintro ⟨⟩
      · rintro ⟨⟩
  | finishExchangeLeg legId status preserve =>
      change (d.finishExchangeLeg legId status preserve).2 ≠ _
      unfold Ledger.finishExchangeLeg
      split
      · rintro ⟨⟩
      split
      · rintro ⟨⟩
      split
      · rintro ⟨⟩
      dsimp only
      split
      · split
        · rintro ⟨⟩
        · split
          · rintro ⟨⟩
          · rintro ⟨⟩
      · rintro ⟨⟩
  | updateExchangeLeg legId expected patch =>
      change (d.updateExchangeLeg legId expected patch).2 ≠ _
      unfold Ledger.updateExchangeLeg
      split
      · rintro ⟨⟩
      · split
        · rintro ⟨⟩
        · rintro ⟨⟩

/-! ## Cancellations -/

/-- A leg that no delivery starts any more. -/
def Leg.Stopped (l : Leg) : Prop :=
  l.status.terminal = true ∨ l.status = .running ∧ l.responseState = .closed

theorem Ledger.CancelStatus.stopped_close (status : Ledger.CancelStatus) (l : Leg) :
    (status.close l).Stopped := by
  have hended : status.leg.terminal = true := by
    cases status with
    | failed => rfl
    | cancelled => rfl
    | expired => rfl
  unfold Ledger.CancelStatus.close
  cases hstatus : l.status with
  | registered => exact .inl hended
  | submitting => exact .inl hended
  | queued => exact .inl hended
  | running => exact .inr ⟨rfl, rfl⟩
  | delivered => exact .inl (by rw [hstatus]; rfl)
  | failed => exact .inl (by rw [hstatus]; rfl)
  | cancelled => exact .inl (by rw [hstatus]; rfl)
  | expired => exact .inl (by rw [hstatus]; rfl)

/-- A cancellation that ends an exchange stops its active leg. -/
def Stops (e : Runs.Event Ledger Action Result) : Prop :=
  match e.action.call, e.outcome with
  | .cancelExchange _ status, .returned exchange leg true =>
      (∀ x ∈ exchange, x.status = status.exchange ∧ x ∈ (e.before.step e.action).1.exchanges) ∧
        ∀ l ∈ leg, l.Stopped ∧ l ∈ (e.before.step e.action).1.legs
  | .cancelExactQueuedExchangeLeg .., .returned _ leg true =>
      ∀ l ∈ leg, l.status = .cancelled ∧ l ∈ (e.before.step e.action).1.legs
  | _, _ => True

theorem Inv.stops (h : Inv d) (a : Action) : Stops ⟨d, a, (d.step a).2⟩ := by
  obtain ⟨p, call⟩ := a
  unfold Stops
  dsimp only
  split
  · next exchangeId status exchange leg hreturned =>
    change (d.cancelExchange exchangeId status).2 = _ at hreturned
    change (∀ x ∈ exchange, _ ∧ x ∈ (d.cancelExchange exchangeId status).1.exchanges) ∧
      ∀ l ∈ leg, _ ∧ l ∈ (d.cancelExchange exchangeId status).1.legs
    have hcall : d.cancelExchange exchangeId status =
        ((d.cancelExchange exchangeId status).1, .returned exchange leg true) :=
      Prod.ext rfl hreturned
    generalize (d.cancelExchange exchangeId status).1 = d₁ at hcall ⊢
    unfold Ledger.cancelExchange at hcall
    split at hcall
    · cases hcall
    next e he =>
    split at hcall
    · cases hcall
    dsimp only at hcall
    split at hcall
    · cases hcall
      refine ⟨?_, by rintro _ ⟨⟩⟩
      rintro _ ⟨⟩
      exact ⟨rfl, mem_setExchange he⟩
    · next l hl =>
      cases hcall
      refine ⟨?_, ?_⟩
      · rintro _ ⟨⟩
        exact ⟨rfl, mem_setExchange he⟩
      · rintro _ ⟨⟩
        refine ⟨status.stopped_close l, ?_⟩
        have hfound : d.leg? l.id = some l := by
          unfold Ledger.activeLeg at hl
          split at hl
          · cases hl
          · exact h.leg?_mem (Tables.find_mem hl).1
        exact mem_setLeg (d := d.setExchange exchangeId _) hfound
  · next exchangeId legId targetSessionId queuedId exchange leg hreturned =>
    change (d.cancelExactQueuedExchangeLeg exchangeId legId targetSessionId queuedId).2 = _
      at hreturned
    change ∀ l ∈ leg, _ ∧
      l ∈ (d.cancelExactQueuedExchangeLeg exchangeId legId targetSessionId queuedId).1.legs
    rintro l ⟨⟩
    have hcall : d.cancelExactQueuedExchangeLeg exchangeId legId targetSessionId queuedId =
        ((d.cancelExactQueuedExchangeLeg exchangeId legId targetSessionId queuedId).1,
          .returned exchange (some l) true) := Prod.ext rfl hreturned
    obtain ⟨hmem, _, hcancelled⟩ := exact_stored hcall
    exact ⟨hcancelled, hmem⟩
  · trivial

/-! ## Runs -/

/-- Later calls of the same kind with the same arguments change nothing. -/
def Settled (e : Runs.Event Ledger Action Result) (d : Ledger) : Prop :=
  Accepted e.action.call e.outcome → ∀ p : Process,
    (d.step ⟨p, e.action.call⟩).1 = d ∧
      Replayed e.action.call e.outcome (d.step ⟨p, e.action.call⟩).2

theorem Inv.settled (h : Inv d) (a : Action) {d' : Ledger} (later : Later (d.step a).1 d')
    (hd' : Inv d') : Settled ⟨d, a, (d.step a).2⟩ d' := by
  obtain ⟨p, call⟩ := a
  have hd₁ := (h.step ⟨p, call⟩).inv
  have hcall : d.step ⟨p, call⟩ = ((d.step ⟨p, call⟩).1, (d.step ⟨p, call⟩).2) := rfl
  unfold Settled
  dsimp only
  generalize (d.step ⟨p, call⟩).1 = d₁ at hcall later hd₁
  generalize (d.step ⟨p, call⟩).2 = result at hcall ⊢
  intro haccepted p'
  cases result with
  | raised statusCode detail => cases call <;> cases haccepted
  | valueError message => cases call <;> cases haccepted
  | integrityError => cases call <;> cases haccepted
  | returned e l changed =>
      cases call with
      | createExchangeObligation c =>
          obtain ⟨e', hreplay⟩ := later.createExchangeObligation hd' hcall
          change (d'.createExchangeObligation c).1 = _ ∧
            Replayed _ _ (d'.createExchangeObligation c).2
          rw [hreplay]
          exact ⟨rfl, rfl, e', l, rfl⟩
      | createRouteExchangeRequest c =>
          obtain ⟨e', l', hreplay, hid⟩ := later.createRouteExchangeRequest (q := p') hd₁ hd'
            hcall
          change (d'.createRouteExchangeRequest p' c).1 = _ ∧
            Replayed _ _ (d'.createRouteExchangeRequest p' c).2
          rw [hreplay]
          exact ⟨rfl, hid, e', l', rfl⟩
      | createInitialExchangeLeg c =>
          obtain ⟨e', l', hreplay, hid⟩ := later.createInitialExchangeLeg (q := p') hd₁ hd'
            hcall
          change (d'.createInitialExchangeLeg p' c).1 = _ ∧
            Replayed _ _ (d'.createInitialExchangeLeg p' c).2
          rw [hreplay]
          exact ⟨rfl, hid, e', l', rfl⟩
      | commitExchangeResponse c =>
          obtain ⟨e', l', hreplay, hid⟩ := later.commitExchangeResponse (q := p') haccepted hd'
            hcall
          change (d'.commitExchangeResponse p' c).1 = _ ∧
            Replayed _ _ (d'.commitExchangeResponse p' c).2
          rw [hreplay]
          exact ⟨rfl, hid, e', l', rfl⟩
      | downgradeLiveExchange exchangeId activeLegId instanceId =>
          cases (haccepted : changed = true)
          obtain ⟨e', hreplay⟩ := later.downgradeLiveExchange hd' hcall
          change (d'.downgradeLiveExchange exchangeId activeLegId instanceId).1 = _ ∧
            Replayed _ _ (d'.downgradeLiveExchange exchangeId activeLegId instanceId).2
          rw [hreplay]
          exact ⟨rfl, rfl, e', l, rfl⟩
      | cancelExactQueuedExchangeLeg exchangeId legId targetSessionId queuedId =>
          cases l with
          | none => cases haccepted
          | some l =>
              have hreplay := later.cancelExactQueuedExchangeLeg hd' hcall
              change (d'.cancelExactQueuedExchangeLeg exchangeId legId targetSessionId
                queuedId).1 = _ ∧ Replayed _ _ (d'.cancelExactQueuedExchangeLeg exchangeId legId
                  targetSessionId queuedId).2
              rw [hreplay]
              exact ⟨rfl, rfl⟩
      | cancelExchange exchangeId status =>
          cases e with
          | none => cases haccepted
          | some e =>
              obtain ⟨e', l', hreplay, hid⟩ := later.cancelExchange h hd' hcall
              change (d'.cancelExchange exchangeId status).1 = _ ∧
                Replayed _ _ (d'.cancelExchange exchangeId status).2
              rw [hreplay]
              exact ⟨rfl, hid, e', l', rfl⟩
      | finishExchangeLeg legId status preserve =>
          cases l with
          | none => cases haccepted
          | some l =>
              obtain ⟨e', l', hreplay, hid⟩ := later.finishExchangeLeg hd' hcall
              change (d'.finishExchangeLeg legId status preserve).1 = _ ∧
                Replayed _ _ (d'.finishExchangeLeg legId status preserve).2
              rw [hreplay]
              exact ⟨rfl, congrArg some hid, e', some l', rfl⟩
      | createExchangeStatusLeg c =>
          obtain ⟨l', hreplay, hid⟩ := later.createExchangeStatusLeg (q := p') hd' hcall
          change (d'.createExchangeStatusLeg p' c).1 = _ ∧
            Replayed _ _ (d'.createExchangeStatusLeg p' c).2
          rw [hreplay]
          exact ⟨rfl, hid, none, l', rfl⟩
      | updateExchangeLeg legId expected patch => cases haccepted

theorem Inv.run (h : Inv d) (actions : List Action) : Next d (Runs.run Ledger.step d actions) := by
  induction actions generalizing d with
  | nil => exact h.stays
  | cons a rest ih => exact (h.step a).then fun hinv => ih hinv

/-- In every run the legs of every exchange are a chain, no later ledger loses a row or changes
what has ended, an accepted call changes nothing when it is made again, a cancellation stops the
active leg, and a call with names of its own violates no constraint. -/
theorem exchange_chains (actions : List Action) :
    Chained (Runs.run Ledger.step .empty actions) ∧
      (∀ pre post, actions = pre ++ post →
        Later (Runs.run Ledger.step .empty pre) (Runs.run Ledger.step .empty actions)) ∧
      ∀ e ∈ Runs.history Ledger.step .empty actions,
        Settled e (Runs.run Ledger.step .empty actions) ∧ Stops e ∧
          (Distinct e.before e.action → e.outcome ≠ .integrityError) := by
  refine ⟨(inv_empty.run actions).inv.chained, ?_, ?_⟩
  · rintro pre post rfl
    rw [Runs.run_append]
    exact ((inv_empty.run pre).inv.run post).later
  · intro e he
    obtain ⟨before, after, hsplit⟩ := List.mem_iff_append.mp he
    obtain ⟨pre, a, post, rfl, _, rfl, _⟩ := Runs.history_split _ _ _ _ _ _ hsplit
    have hpre := (inv_empty.run pre).inv
    have hstep := (hpre.step a).inv
    rw [Runs.run_append, Runs.run_cons]
    exact ⟨hpre.settled a (hstep.run post).later (hstep.run post).inv, hpre.stops a,
      hpre.distinct a⟩

/-- An exchange is completed by its reply while its first leg is running, a repeated cancellation
of a queued leg returns nothing, and a used idempotency key violates a constraint. -/
theorem completed_while_running :
    let process (legId : String) : Process := ⟨"2026-01-01T00:00:00Z", legId, "server"⟩
    let asked := Runs.run Ledger.step .empty
      [⟨process "", .createExchangeObligation
          ⟨"exchange", "chat", "run_1", "other", 2, "2026-01-02T00:00:00Z", ""⟩⟩,
        ⟨process "leg_1", .createInitialExchangeLeg
          ⟨"exchange", "chat", "run_1", "other", "question", "key_1", false⟩⟩,
        ⟨process "", .updateExchangeLeg "leg_1" [.registered]
          ⟨some .running, none, some (some "run_2")⟩⟩]
    let response (key : String) : Call := .commitExchangeResponse
      ⟨"exchange", "leg_1", "other", "run_2", "answer", false, key, false⟩
    let answered := Runs.run Ledger.step asked
      [⟨process "leg_2", response "key_2"⟩,
        ⟨process "", .updateExchangeLeg "leg_2" [.registered]
          ⟨some .queued, some (some "row"), none⟩⟩]
    let cancelled := Runs.run Ledger.step answered
      [⟨process "", .cancelExactQueuedExchangeLeg "exchange" "leg_2" "chat" "row"⟩]
    let completed := Runs.run Ledger.step answered
      [⟨process "", .finishExchangeLeg "leg_2" .delivered false⟩]
    ((completed.exchanges.map Exchange.status) = [.completed] ∧
        completed.legs.map Leg.status = [.running, .delivered]) ∧
      (cancelled.step
          ⟨process "", .cancelExactQueuedExchangeLeg "exchange" "leg_2" "chat" "row"⟩).2 =
        .returned none none false ∧
      (asked.step ⟨process "leg_2", response "key_1"⟩).2 = .integrityError := by
  decide

end AgentsServer.Exchanges
