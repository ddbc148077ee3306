import AgentsServer.Exchanges.Steps

/-!
# Replays of exchange operations

A call that was accepted changes nothing when it is made again, whatever was called in between.
-/

namespace AgentsServer.Exchanges

open Library

variable {d d₁ d' : Ledger}

/-- The identifier of the leg that a call returns. -/
def Result.legId : Result → Option String
  | .returned _ l _ => l.map Leg.id
  | _ => none

/-- A call that found or made what it names. A downgrade is accepted when it changes the lease, a
response when it names its run. -/
def Accepted : Call → Result → Prop
  | .createExchangeObligation _, .returned .. => True
  | .createRouteExchangeRequest _, .returned .. => True
  | .createInitialExchangeLeg _, .returned .. => True
  | .commitExchangeResponse c, .returned .. => c.sourceRunId ≠ ""
  | .downgradeLiveExchange .., .returned _ _ changed => changed = true
  | .cancelExactQueuedExchangeLeg .., .returned _ (some _) _ => True
  | .cancelExchange .., .returned (some _) _ _ => True
  | .finishExchangeLeg .., .returned _ (some _) _ => True
  | .createExchangeStatusLeg _, .returned .. => True
  | _, _ => False

/-- What the same call returns later. A queued leg is cancelled once. -/
def Replayed (call : Call) (result later : Result) : Prop :=
  match call with
  | .cancelExactQueuedExchangeLeg .. => later = .returned none none false
  | _ => later.legId = result.legId ∧ ∃ e l, later = .returned e l false

/-! ## Rows that are found -/

theorem Inv.begun (h : Inv d) {e : Exchange} {l : Leg} (he : e ∈ d.exchanges) (hl : l ∈ d.legs)
    (hid : l.exchangeId = e.id) (hordinal : l.ordinal = 1) : e.status ≠ .waitingRequest := by
  intro hwaiting
  have hkind : l.kind ≠ .status := by
    intro hstatus
    have := (h.statusLegs l hl hstatus).2.2
    omega
  have hmem : l ∈ d.ordinary e.id := mem_ordinary.mpr ⟨hl, hid, hkind⟩
  rw [h.ordinary_waiting he hwaiting] at hmem
  cases hmem

theorem pairwise_mem {α : Type*} {R : α → α → Prop} {rows : List α} (h : rows.Pairwise R) {a b : α}
    (ha : a ∈ rows) (hb : b ∈ rows) : a = b ∨ R a b ∨ R b a := by
  induction h with
  | nil => cases ha
  | cons hfirst _ ih =>
      rcases List.mem_cons.mp ha with rfl | ha'
      · rcases List.mem_cons.mp hb with rfl | hb'
        · exact .inl rfl
        · exact .inr (.inl (hfirst b hb'))
      · rcases List.mem_cons.mp hb with rfl | hb'
        · exact .inr (.inr (hfirst a ha'))
        · exact ih ha' hb'

/-- A search for what no two legs share finds its leg. -/
theorem Inv.find_leg (h : Inv d) {p : Leg → Bool} {l : Leg} (hl : l ∈ d.legs) (hp : p l = true)
    (hclash : ∀ a b : Leg, a ∈ d.legs → b ∈ d.legs → p a = true → p b = true →
      a.clashes b = true) : d.legs.find? p = some l := by
  apply Tables.find?_of_only hl hp
  intro other hother hpo
  rcases pairwise_mem h.apart hother hl with heq | hapart | hapart
  · exact heq
  · rw [hclash other l hother hl hpo hp] at hapart
    cases hapart
  · rw [hclash l other hl hother hp hpo] at hapart
    cases hapart

theorem Inv.find_run (h : Inv d) {l : Leg} (hl : l ∈ d.legs) {exchangeId sourceRunId : String}
    (hexchange : l.exchangeId = exchangeId) (hrun : l.sourceRunId = sourceRunId) :
    d.legs.find? (fun l =>
      decide (l.exchangeId = exchangeId) && decide (l.sourceRunId = sourceRunId)) = some l := by
  apply h.find_leg hl
  · rw [decide_eq_true hexchange, decide_eq_true hrun]
    rfl
  · intro a b _ _ ha hb
    rw [Bool.and_eq_true, decide_eq_true_eq, decide_eq_true_eq] at ha hb
    by_contra hnot
    apply ((not_clashes.mp (Bool.not_eq_true _ ▸ hnot)).2.2 (ha.1.trans hb.1.symm)).2.1
    rw [ha.2, hb.2]

theorem Inv.find_child (h : Inv d) {l : Leg} (hl : l ∈ d.legs) {parentLegId : String}
    (hparent : l.parentLegId = some parentLegId) :
    d.legs.find? (fun l => decide (l.parentLegId = some parentLegId)) = some l := by
  apply h.find_leg hl (decide_eq_true hparent)
  intro a b _ _ ha hb
  rw [decide_eq_true_eq] at ha hb
  by_contra hnot
  apply (not_clashes.mp (Bool.not_eq_true _ ▸ hnot)).2.1
  · rw [hb]
    exact Option.some_ne_none _
  · rw [ha, hb]

theorem Inv.find_status (h : Inv d) {l : Leg} (hl : l ∈ d.legs) {exchangeId : String}
    (hexchange : l.exchangeId = exchangeId) (hkind : l.kind = .status) :
    d.legs.find? (fun l =>
      decide (l.exchangeId = exchangeId) && decide (l.kind = .status)) = some l := by
  apply h.find_leg hl
  · rw [decide_eq_true hexchange, decide_eq_true hkind]
    rfl
  · intro a b hma hmb ha hb
    rw [Bool.and_eq_true, decide_eq_true_eq, decide_eq_true_eq] at ha hb
    by_contra hnot
    apply ((not_clashes.mp (Bool.not_eq_true _ ▸ hnot)).2.2 (ha.1.trans hb.1.symm)).1
    rw [(h.statusLegs a hma ha.2).2.2, (h.statusLegs b hmb hb.2).2.2]

/-- The active leg of an exchange is in the ledger. -/
theorem Inv.active_mem (h : Inv d) {e : Exchange} (he : e ∈ d.exchanges) {id : String}
    (hactive : e.activeLegId = some id) : ∃ l, d.leg? id = some l := by
  have hchain := (h.chains e he).active
  rw [hactive] at hchain
  obtain ⟨l, hlast, rfl⟩ := Option.map_eq_some_iff.mp hchain.symm
  exact ⟨l, h.leg?_mem (mem_ordinary.mp (List.mem_of_getLast? hlast)).1⟩

/-- The identifier of the leg that a cancellation returns. -/
theorem Inv.activeLeg_id (h : Inv d) {e : Exchange} (he : e ∈ d.exchanges) :
    (d.activeLeg e).map Leg.id = e.activeLegId.filter fun id => decide (id ≠ "") := by
  unfold Ledger.activeLeg
  cases hactive : e.activeLegId with
  | none => rfl
  | some id =>
      rw [Option.getD_some]
      by_cases hid : id = ""
      · rw [if_pos hid, hid]
        rfl
      · obtain ⟨l, hl⟩ := h.active_mem he hactive
        rw [if_neg hid, hl, Option.filter_some, if_pos (decide_eq_true hid)]
        exact congrArg some (Tables.find_mem hl).2

/-! ## Requests -/

/-- The exchange that an accepted call returns is in the ledger afterwards, as it was named. -/
theorem obligation_stored {c : Ledger.Obligation} {e : Option Exchange} {l : Option Leg}
    {changed : Bool} (h : d.createExchangeObligation c = (d₁, .returned e l changed)) :
    l = none ∧ Ledger.validInstruction c.sourceUserInstruction = true ∧
      ∃ e ∈ d₁.exchanges, e.id = c.exchangeId ∧ c.matches e = true := by
  unfold Ledger.createExchangeObligation at h
  split at h
  · cases h
  next hvalid =>
  rw [Bool.not_eq_true', Bool.not_eq_false] at hvalid
  split at h
  · next e he =>
    split at h
    · next hmatches =>
      cases h
      exact ⟨rfl, hvalid, e, (Tables.find_mem he).1, (Tables.find_mem he).2, hmatches⟩
    · cases h
  · next he =>
    split at h
    · next d₂ hinsert =>
      cases h
      obtain ⟨_, rfl⟩ := insertExchange_eq_some.mp hinsert
      refine ⟨rfl, hvalid, c.exchange, List.mem_append_right _ (List.mem_singleton_self _), rfl, ?_⟩
      simp [Ledger.Obligation.matches, Ledger.Obligation.exchange]
    · cases h

theorem Later.createExchangeObligation {c : Ledger.Obligation} {e : Option Exchange}
    {l : Option Leg} {changed : Bool} (later : Later d₁ d') (hd' : Inv d')
    (h : d.createExchangeObligation c = (d₁, .returned e l changed)) :
    ∃ e', d'.createExchangeObligation c = (d', .returned e' l false) := by
  obtain ⟨rfl, hvalid, e, he, hid, hmatches⟩ := obligation_stored h
  obtain ⟨e', he', hkeeps⟩ := later.exchanges e he
  have hfound := hd'.exchange?_mem he'
  rw [hkeeps.id, hid] at hfound
  have hsame : c.matches e' = c.matches e := hkeeps.column c.matches fun _ => rfl
  refine ⟨some e', ?_⟩
  unfold Ledger.createExchangeObligation
  rw [if_neg (by rw [hvalid]; exact Bool.false_ne_true), hfound]
  dsimp only
  rw [hsame, if_pos hmatches]

/-- A request that is refused before its transaction. -/
theorem validate_error {c : Ledger.RouteRequest} {result : Result}
    (h : c.validate = .error result) :
    (∃ statusCode detail, result = .raised statusCode detail) ∨
      ∃ message, result = .valueError message := by
  unfold Ledger.RouteRequest.validate at h
  split at h
  · cases h
    exact .inl ⟨_, _, rfl⟩
  split at h
  · cases h
    exact .inr ⟨_, rfl⟩
  split at h
  · cases h
    exact .inr ⟨_, rfl⟩
  split at h
  · cases h
    exact .inr ⟨_, rfl⟩
  split at h
  · cases h
    exact .inl ⟨_, _, rfl⟩
  split at h
  · cases h
    exact .inr ⟨_, rfl⟩
  · cases h

theorem route_stored {p : Process} {c : Ledger.RouteRequest} {e : Option Exchange}
    {l : Option Leg} {changed : Bool}
    (h : d.createRouteExchangeRequest p c = (d₁, .returned e l changed)) :
    ∃ actions e l', c.validate = .ok actions ∧ l = some l' ∧ e ∈ d₁.exchanges ∧
      e.id = c.exchangeId ∧ l' ∈ d₁.legs ∧ l'.id = c.legId ∧ c.matches actions e l' = true := by
  unfold Ledger.createRouteExchangeRequest at h
  split at h
  · next result hvalidate =>
    cases h
    obtain ⟨_, _, hrefused⟩ | ⟨_, hrefused⟩ := validate_error hvalidate
    · cases hrefused
    · cases hrefused
  next actions hvalidate =>
  split at h
  · next e he =>
    split at h
    · cases h
    next l' hl' =>
    split at h
    · next hmatches =>
      cases h
      exact ⟨actions, e, l', hvalidate, rfl, (Tables.find_mem he).1, (Tables.find_mem he).2,
        (Tables.find_mem hl').1, (Tables.find_mem hl').2, hmatches⟩
    · cases h
  · next he =>
    dsimp only at h
    split at h
    · next d₂ hinsert =>
      cases h
      obtain ⟨d₂, hexchange, hleg⟩ := Option.bind_eq_some_iff.mp hinsert
      obtain ⟨_, rfl⟩ := insertExchange_eq_some.mp hexchange
      obtain ⟨_, rfl⟩ := insertLeg_eq_some.mp hleg
      refine ⟨actions, c.exchange p actions, c.leg, hvalidate, rfl,
        List.mem_append_right _ (List.mem_singleton_self _), rfl,
        List.mem_append_right _ (List.mem_singleton_self _), rfl, ?_⟩
      simp [Ledger.RouteRequest.matches, Ledger.RouteRequest.exchange, Ledger.RouteRequest.leg,
        Ledger.firstLeg]
    · cases h

theorem Later.createRouteExchangeRequest {p q : Process} {c : Ledger.RouteRequest}
    {e : Option Exchange} {l : Option Leg} {changed : Bool} (hd₁ : Inv d₁) (later : Later d₁ d')
    (hd' : Inv d') (h : d.createRouteExchangeRequest p c = (d₁, .returned e l changed)) :
    ∃ e' l', d'.createRouteExchangeRequest q c = (d', .returned e' l' false) ∧
      l'.map Leg.id = l.map Leg.id := by
  obtain ⟨actions, e, l, hvalidate, rfl, he, heId, hl, hlId, hmatches⟩ := route_stored h
  have hown : l.exchangeId = e.id ∧ l.ordinal = 1 := by
    simp only [Ledger.RouteRequest.matches, Bool.and_eq_true, decide_eq_true_eq] at hmatches
    exact ⟨by rw [heId]; tauto, by tauto⟩
  obtain ⟨e', he', hkeeps⟩ := later.exchanges e he
  obtain ⟨l', hl', hkeepsLeg⟩ := later.legs l hl
  have hlive := (hkeeps.begun (hd₁.begun he hl hown.1 hown.2)).2.1
  have hfound := hd'.exchange?_mem he'
  rw [hkeeps.id, heId] at hfound
  have hfoundLeg := hd'.leg?_mem hl'
  rw [hkeepsLeg.id, hlId] at hfoundLeg
  -- the replay compares columns that stay, and the live response that was asked for
  have hsame : c.matches actions e' l' = c.matches actions e l := by
    calc
      c.matches actions e' l' =
          c.matches actions { e' with liveResponseRequested := e.liveResponseRequested } l' := by
        rw [← hlive]
      _ = c.matches actions e l' :=
        hkeeps.column (fun x =>
          c.matches actions { x with liveResponseRequested := e.liveResponseRequested } l')
          fun _ => rfl
      _ = c.matches actions e l := hkeepsLeg.column (c.matches actions e) fun _ => rfl
  refine ⟨some e', some l', ?_, congrArg some hkeepsLeg.id⟩
  unfold Ledger.createRouteExchangeRequest
  rw [hvalidate]
  dsimp only
  rw [hfound]
  dsimp only
  rw [hfoundLeg]
  dsimp only
  rw [hsame, if_pos hmatches]

theorem initial_stored {p : Process} {c : Ledger.InitialLeg} {e : Option Exchange}
    {l : Option Leg} {changed : Bool}
    (h : d.createInitialExchangeLeg p c = (d₁, .returned e l changed)) :
    ∃ e l', l = some l' ∧ e ∈ d₁.exchanges ∧ e.id = c.exchangeId ∧ l' ∈ d₁.legs ∧
      l'.exchangeId = c.exchangeId ∧ l'.sourceRunId = c.sourceRunId ∧ c.matches e l' = true := by
  unfold Ledger.createInitialExchangeLeg at h
  split at h
  · cases h
  next e he =>
  obtain ⟨hmem, hid⟩ := Tables.find_mem he
  split at h
  · next l' hl' =>
    split at h
    · next hmatches =>
      cases h
      have hfound := List.find?_some hl'
      rw [Bool.and_eq_true, decide_eq_true_eq, decide_eq_true_eq] at hfound
      exact ⟨e, l', rfl, hmem, hid, List.mem_of_find?_eq_some hl', hfound.1, hfound.2, hmatches⟩
    · cases h
  split at h
  · cases h
  split at h
  · cases h
  split at h
  · cases h
  split at h
  · cases h
  split at h
  · next d₂ hgrow =>
    cases h
    obtain ⟨d₃, hinsert, hset⟩ := Option.bind_eq_some_iff.mp hgrow
    obtain ⟨_, rfl⟩ := insertLeg_eq_some.mp hinsert
    unfold Ledger.setExchanges at hset
    obtain ⟨exchanges, hupdate, rfl⟩ := Option.map_eq_some_iff.mp hset
    obtain ⟨_, rfl⟩ := Tables.updateRows_eq_some.mp hupdate
    refine ⟨c.activate p e, c.leg p, rfl, ?_, hid,
      List.mem_append_right _ (List.mem_singleton_self _), rfl, rfl, ?_⟩
    · exact List.mem_map.mpr ⟨e, hmem, if_pos (decide_eq_true hid)⟩
    · simp [Ledger.InitialLeg.matches, Ledger.InitialLeg.leg, Ledger.InitialLeg.activate,
        Ledger.firstLeg]
  · cases h

theorem Later.createInitialExchangeLeg {p q : Process} {c : Ledger.InitialLeg}
    {e : Option Exchange} {l : Option Leg} {changed : Bool} (hd₁ : Inv d₁) (later : Later d₁ d')
    (hd' : Inv d') (h : d.createInitialExchangeLeg p c = (d₁, .returned e l changed)) :
    ∃ e' l', d'.createInitialExchangeLeg q c = (d', .returned e' l' false) ∧
      l'.map Leg.id = l.map Leg.id := by
  obtain ⟨e, l, rfl, he, heId, hl, hexchange, hrun, hmatches⟩ := initial_stored h
  have hordinal : l.ordinal = 1 := by
    simp only [Ledger.InitialLeg.matches, Bool.and_eq_true, decide_eq_true_eq] at hmatches
    tauto
  obtain ⟨e', he', hkeeps⟩ := later.exchanges e he
  obtain ⟨l', hl', hkeepsLeg⟩ := later.legs l hl
  have hlive := (hkeeps.begun (hd₁.begun he hl (hexchange.trans heId.symm) hordinal)).2.1
  have hfound := hd'.exchange?_mem he'
  rw [hkeeps.id, heId] at hfound
  have hfoundLeg := hd'.find_run hl' (hkeepsLeg.exchangeId.trans hexchange)
    (hkeepsLeg.sourceRunId.trans hrun)
  have hsame : c.matches e' l' = c.matches e l := by
    calc
      c.matches e' l' =
          c.matches { e' with liveResponseRequested := e.liveResponseRequested } l' := by
        rw [← hlive]
      _ = c.matches e l' := rfl
      _ = c.matches e l := hkeepsLeg.column (c.matches e) fun _ => rfl
  refine ⟨some e', some l', ?_, congrArg some hkeepsLeg.id⟩
  unfold Ledger.createInitialExchangeLeg
  rw [hfound]
  dsimp only
  rw [hfoundLeg]
  dsimp only
  rw [hsame, if_pos hmatches]

/-! ## Responses -/

theorem response_stored {p : Process} {c : Ledger.Response} {e : Option Exchange}
    {l : Option Leg} {changed : Bool} (hrun : c.sourceRunId ≠ "")
    (h : d.commitExchangeResponse p c = (d₁, .returned e l changed)) :
    ∃ e inbound l', l = some l' ∧ e ∈ d₁.exchanges ∧ e.id = c.exchangeId ∧ inbound ∈ d₁.legs ∧
      inbound.id = c.inboundLegId ∧ inbound.exchangeId = c.exchangeId ∧ l' ∈ d₁.legs ∧
      l'.parentLegId = some c.inboundLegId ∧ c.matches l' = true := by
  unfold Ledger.commitExchangeResponse at h
  split at h
  swap
  · cases h
  next e inbound he hinbound =>
  obtain ⟨hmem, hid⟩ := Tables.find_mem he
  obtain ⟨hfound, hexchange⟩ := Option.filter_eq_some_iff.mp hinbound
  obtain ⟨hleg, hlegId⟩ := Tables.find_mem hfound
  rw [decide_eq_true_eq] at hexchange
  split at h
  · next l' hl' =>
    split at h
    · next hmatches =>
      cases h
      have hparent := List.find?_some hl'
      rw [decide_eq_true_eq] at hparent
      exact ⟨e, inbound, l', rfl, hmem, hid, hleg, hlegId, hexchange,
        List.mem_of_find?_eq_some hl', hparent, hmatches⟩
    · cases h
  split at h
  · split at h
    · cases h
    · cases h
  split at h
  · cases h
  split at h
  · cases h
  split at h
  · cases h
  split at h
  · cases h
  split at h
  · cases h
  split at h
  · cases h
  dsimp only at h
  split at h
  · next d₂ hgrow =>
    cases h
    obtain ⟨d₃, hinsert, hset⟩ := Option.bind_eq_some_iff.mp hgrow
    obtain ⟨_, rfl⟩ := insertLeg_eq_some.mp hinsert
    unfold Ledger.setExchanges at hset
    obtain ⟨exchanges, hupdate, rfl⟩ := Option.map_eq_some_iff.mp hset
    obtain ⟨_, rfl⟩ := Tables.updateRows_eq_some.mp hupdate
    refine ⟨_, { inbound with responseState := c.committedState }, c.leg p e inbound, rfl,
      List.mem_map.mpr ⟨e, hmem, if_pos (decide_eq_true hid)⟩, hid,
      List.mem_append_left _ (List.mem_map.mpr ⟨inbound, hleg, if_pos hlegId⟩), hlegId, hexchange,
      List.mem_append_right _ (List.mem_singleton_self _), rfl, ?_⟩
    simp [Ledger.Response.matches, Ledger.Response.leg, Leg.owner, hrun]
  · cases h

theorem Later.commitExchangeResponse {p q : Process} {c : Ledger.Response}
    {e : Option Exchange} {l : Option Leg} {changed : Bool} (hrun : c.sourceRunId ≠ "")
    (later : Later d₁ d') (hd' : Inv d')
    (h : d.commitExchangeResponse p c = (d₁, .returned e l changed)) :
    ∃ e' l', d'.commitExchangeResponse q c = (d', .returned e' l' false) ∧
      l'.map Leg.id = l.map Leg.id := by
  obtain ⟨e, inbound, l, rfl, he, heId, hinbound, hinboundId, hexchange, hl, hparent, hmatches⟩ :=
    response_stored hrun h
  obtain ⟨e', he', hkeeps⟩ := later.exchanges e he
  obtain ⟨inbound', hinbound', hkeepsInbound⟩ := later.legs inbound hinbound
  obtain ⟨l', hl', hkeepsLeg⟩ := later.legs l hl
  have hfound := hd'.exchange?_mem he'
  rw [hkeeps.id, heId] at hfound
  have hfoundInbound := hd'.leg?_mem hinbound'
  rw [hkeepsInbound.id, hinboundId] at hfoundInbound
  have hfoundLeg := hd'.find_child hl' (hkeepsLeg.parentLegId.trans hparent)
  have hsame : c.matches l' = c.matches l := hkeepsLeg.column c.matches fun _ => rfl
  refine ⟨some e', some l', ?_, congrArg some hkeepsLeg.id⟩
  unfold Ledger.commitExchangeResponse
  rw [hfound, hfoundInbound, Option.filter_some,
    if_pos (decide_eq_true (hkeepsInbound.exchangeId.trans hexchange))]
  dsimp only
  rw [hfoundLeg]
  dsimp only
  rw [hsame, if_pos hmatches]

theorem Later.downgradeLiveExchange {exchangeId activeLegId instanceId : String}
    {e : Option Exchange} {l : Option Leg} (later : Later d₁ d') (hd' : Inv d')
    (h : d.downgradeLiveExchange exchangeId activeLegId instanceId =
      (d₁, .returned e l true)) :
    ∃ e', d'.downgradeLiveExchange exchangeId activeLegId instanceId =
      (d', .returned e' l false) := by
  unfold Ledger.downgradeLiveExchange at h
  split at h
  · cases h
  next e he =>
  obtain ⟨hmem, hid⟩ := Tables.find_mem he
  split at h
  swap
  · cases h
  next hlive =>
  cases h
  obtain ⟨e', he', hkeeps⟩ := later.exchanges _ (List.mem_map.mpr ⟨e, hmem, if_pos hid⟩)
  have hlease : e'.liveResponseLease = false := by
    have hbegun := (hkeeps.begun (by
      change e.status ≠ _
      rw [hlive.1]
      exact ExchangeStatus.noConfusion)).2.2
    rw [Bool.eq_false_iff]
    intro hleased
    cases hbegun hleased
  have hfound := hd'.exchange?_mem he'
  rw [hkeeps.id] at hfound
  change d'.exchange? e.id = _ at hfound
  rw [hid] at hfound
  refine ⟨some e', ?_⟩
  unfold Ledger.downgradeLiveExchange
  rw [hfound]
  dsimp only
  rw [if_neg]
  rintro ⟨_, _, hleased, _⟩
  rw [hlease] at hleased
  cases hleased

/-! ## Ends -/

theorem mem_setLeg {id : String} {f : Leg → Leg} {l : Leg} (hl : d.leg? id = some l) :
    f l ∈ (d.setLeg id f).legs := by
  obtain ⟨hmem, hid⟩ := Tables.find_mem hl
  exact List.mem_map.mpr ⟨l, hmem, if_pos hid⟩

theorem mem_setExchange {id : String} {f : Exchange → Exchange} {e : Exchange}
    (he : d.exchange? id = some e) : f e ∈ (d.setExchange id f).exchanges := by
  obtain ⟨hmem, hid⟩ := Tables.find_mem he
  exact List.mem_map.mpr ⟨e, hmem, if_pos hid⟩

theorem exact_stored {exchangeId legId targetSessionId queuedId : String} {e : Option Exchange}
    {l : Leg} {changed : Bool}
    (h : d.cancelExactQueuedExchangeLeg exchangeId legId targetSessionId queuedId =
      (d₁, .returned e (some l) changed)) :
    l ∈ d₁.legs ∧ l.id = legId ∧ l.status = .cancelled := by
  unfold Ledger.cancelExactQueuedExchangeLeg at h
  split at h
  swap
  · cases h
  next l' e' hl he =>
  obtain ⟨hfound, _⟩ := Option.filter_eq_some_iff.mp hl
  split at h
  · cases h
  dsimp only at h
  split at h
  · cases h
    exact ⟨mem_setLeg hfound, (Tables.find_mem hfound).2, rfl⟩
  · cases h
    exact ⟨mem_setLeg hfound, (Tables.find_mem hfound).2, rfl⟩

/-- The leg of a cancelled queue row is not cancelled again. -/
theorem Later.cancelExactQueuedExchangeLeg {exchangeId legId targetSessionId queuedId : String}
    {e : Option Exchange} {l : Leg} {changed : Bool} (later : Later d₁ d') (hd' : Inv d')
    (h : d.cancelExactQueuedExchangeLeg exchangeId legId targetSessionId queuedId =
      (d₁, .returned e (some l) changed)) :
    d'.cancelExactQueuedExchangeLeg exchangeId legId targetSessionId queuedId =
      (d', .returned none none false) := by
  obtain ⟨hl, hid, hcancelled⟩ := exact_stored h
  obtain ⟨l', hl', hkeeps⟩ := later.legs l hl
  have hstatus : l'.status = .cancelled :=
    (hkeeps.terminal (by rw [hcancelled]; rfl)).trans hcancelled
  have hfound := hd'.leg?_mem hl'
  rw [hkeeps.id, hid] at hfound
  unfold Ledger.cancelExactQueuedExchangeLeg
  rw [hfound, Option.filter_some, if_neg]
  rw [hstatus]
  simp

theorem cancel_stored {exchangeId : String} {status : Ledger.CancelStatus} {e : Exchange}
    {l : Option Leg} {changed : Bool} (hd : Inv d)
    (h : d.cancelExchange exchangeId status = (d₁, .returned (some e) l changed)) :
    e ∈ d₁.exchanges ∧ e.id = exchangeId ∧ e.status.terminal = true ∧
      l.map Leg.id = e.activeLegId.filter fun id => decide (id ≠ "") := by
  unfold Ledger.cancelExchange at h
  split at h
  · cases h
  next e he =>
  obtain ⟨hmem, hid⟩ := Tables.find_mem he
  split at h
  · next hterminal =>
    cases h
    exact ⟨hmem, hid, hterminal, hd.activeLeg_id hmem⟩
  have hended : status.exchange.terminal = true := by
    cases status with
    | failed => rfl
    | cancelled => rfl
    | expired => rfl
  dsimp only at h
  split at h
  · next hnone =>
    cases h
    refine ⟨mem_setExchange he, hid, hended, ?_⟩
    rw [← hd.activeLeg_id hmem, hnone]
  · next l hl =>
    cases h
    refine ⟨mem_setExchange he, hid, hended, ?_⟩
    rw [← hd.activeLeg_id hmem, hl]
    exact congrArg some (status.keeps_close l).id

theorem Later.cancelExchange {exchangeId : String} {status : Ledger.CancelStatus} {e : Exchange}
    {l : Option Leg} {changed : Bool} (hd : Inv d) (later : Later d₁ d') (hd' : Inv d')
    (h : d.cancelExchange exchangeId status = (d₁, .returned (some e) l changed)) :
    ∃ e' l', d'.cancelExchange exchangeId status = (d', .returned e' l' false) ∧
      l'.map Leg.id = l.map Leg.id := by
  obtain ⟨hmem, hid, hterminal, hleg⟩ := cancel_stored hd h
  obtain ⟨e', he', hkeeps⟩ := later.exchanges e hmem
  obtain ⟨hstatus, _, hactive⟩ := hkeeps.terminal hterminal
  have hfound := hd'.exchange?_mem he'
  rw [hkeeps.id, hid] at hfound
  refine ⟨some e', d'.activeLeg e', ?_, ?_⟩
  · unfold Ledger.cancelExchange
    rw [hfound]
    dsimp only
    rw [hstatus, if_pos hterminal]
  · rw [hd'.activeLeg_id he', hactive, hleg]

theorem Ledger.FinalStatus.terminal_leg (status : Ledger.FinalStatus) :
    status.leg.terminal = true := by
  cases status with
  | delivered => rfl
  | failed => rfl
  | cancelled => rfl
  | expired => rfl

theorem finish_stored {legId : String} {status : Ledger.FinalStatus} {preserve changed : Bool}
    {e : Option Exchange} {l : Leg}
    (h : d.finishExchangeLeg legId status preserve = (d₁, .returned e (some l) changed)) :
    l ∈ d₁.legs ∧ l.id = legId ∧ l.status.terminal = true ∧
      ∃ e ∈ d₁.exchanges, e.id = l.exchangeId := by
  unfold Ledger.finishExchangeLeg at h
  split at h
  · cases h
  next l hl =>
  obtain ⟨hmem, hid⟩ := Tables.find_mem hl
  split at h
  · cases h
  next e he =>
  obtain ⟨hmemE, hidE⟩ := Tables.find_mem he
  split at h
  · next hterminal =>
    cases h
    exact ⟨hmem, hid, hterminal, e, hmemE, hidE⟩
  dsimp only at h
  have hended := (Ledger.effectiveStatus status preserve l).terminal_leg
  split at h
  · split at h
    · cases h
      exact ⟨mem_setLeg hl, hid, hended, _, mem_setExchange he, hidE⟩
    · split at h
      · cases h
        exact ⟨mem_setLeg hl, hid, hended, _, mem_setExchange he, hidE⟩
      · cases h
        exact ⟨mem_setLeg hl, hid, hended, e, hmemE, hidE⟩
  · cases h
    exact ⟨mem_setLeg hl, hid, hended, e, hmemE, hidE⟩

theorem Later.finishExchangeLeg {legId : String} {status : Ledger.FinalStatus}
    {preserve changed : Bool} {e : Option Exchange} {l : Leg} (later : Later d₁ d')
    (hd' : Inv d')
    (h : d.finishExchangeLeg legId status preserve = (d₁, .returned e (some l) changed)) :
    ∃ e' l', d'.finishExchangeLeg legId status preserve = (d', .returned e' (some l') false) ∧
      l'.id = l.id := by
  obtain ⟨hmem, hid, hterminal, e, he, heId⟩ := finish_stored h
  obtain ⟨l', hl', hkeepsLeg⟩ := later.legs l hmem
  obtain ⟨e', he', hkeeps⟩ := later.exchanges e he
  have hfound := hd'.exchange?_mem he'
  rw [hkeeps.id, heId, ← hkeepsLeg.exchangeId] at hfound
  have hfoundLeg := hd'.leg?_mem hl'
  rw [hkeepsLeg.id, hid] at hfoundLeg
  refine ⟨some e', l', ?_, hkeepsLeg.id⟩
  unfold Ledger.finishExchangeLeg
  rw [hfoundLeg]
  dsimp only
  rw [hfound]
  dsimp only
  rw [hkeepsLeg.terminal hterminal, if_pos hterminal]

theorem Later.createExchangeStatusLeg {p q : Process} {c : Ledger.StatusLeg}
    {e : Option Exchange} {l : Option Leg} {changed : Bool} (later : Later d₁ d')
    (hd' : Inv d') (h : d.createExchangeStatusLeg p c = (d₁, .returned e l changed)) :
    ∃ l', d'.createExchangeStatusLeg q c = (d', .returned none l' false) ∧
      l'.map Leg.id = l.map Leg.id := by
  have hstored : ∃ l' ∈ d₁.legs, l = some l' ∧ l'.exchangeId = c.exchangeId ∧
      l'.kind = .status := by
    unfold Ledger.createExchangeStatusLeg at h
    split at h
    · next l' hl' =>
      cases h
      have hfound := List.find?_some hl'
      rw [Bool.and_eq_true, decide_eq_true_eq, decide_eq_true_eq] at hfound
      exact ⟨l', List.mem_of_find?_eq_some hl', rfl, hfound.1, hfound.2⟩
    split at h
    · next d₂ hinsert =>
      cases h
      obtain ⟨_, rfl⟩ := insertLeg_eq_some.mp hinsert
      exact ⟨c.leg p, List.mem_append_right _ (List.mem_singleton_self _), rfl, rfl, rfl⟩
    · cases h
  obtain ⟨l, hmem, rfl, hexchange, hkind⟩ := hstored
  obtain ⟨l', hl', hkeeps⟩ := later.legs l hmem
  have hfound := hd'.find_status hl' (hkeeps.exchangeId.trans hexchange) (hkeeps.kind.trans hkind)
  refine ⟨some l', ?_, congrArg some hkeeps.id⟩
  unfold Ledger.createExchangeStatusLeg
  rw [hfound]

end AgentsServer.Exchanges
