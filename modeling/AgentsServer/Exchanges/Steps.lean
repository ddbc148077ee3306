import AgentsServer.Exchanges.Later

/-!
# Steps of the exchange operations

Every operation keeps the chains and leads to a later ledger.
-/

namespace AgentsServer.Exchanges

open Library

variable {d : Ledger}

/-! ## Requests -/

theorem Inv.createExchangeObligation (h : Inv d) (c : Ledger.Obligation) :
    Next d (d.createExchangeObligation c).1 := by
  unfold Ledger.createExchangeObligation
  split
  · exact h.stays
  split
  · split
    · exact h.stays
    · exact h.stays
  · split
    · next d' hinsert => exact h.nextObligation hinsert rfl rfl
    · exact h.stays

theorem Inv.createRouteExchangeRequest (h : Inv d) (p : Process) (c : Ledger.RouteRequest) :
    Next d (d.createRouteExchangeRequest p c).1 := by
  unfold Ledger.createRouteExchangeRequest
  split
  · exact h.stays
  split
  · split
    · exact h.stays
    split
    · exact h.stays
    · exact h.stays
  · dsimp only
    split
    swap
    · exact h.stays
    next actions _ _ d' hinsert =>
    obtain ⟨d₁, hexchange, hleg⟩ := Option.bind_eq_some_iff.mp hinsert
    obtain ⟨⟨hchecked, hnew⟩, rfl⟩ := insertExchange_eq_some.mp hexchange
    obtain ⟨⟨_, _, hapart⟩, rfl⟩ := insertLeg_eq_some.mp hleg
    refine ⟨?_, ?_, ?_⟩
    · apply h.grow
      · exact Tables.nodup_append_row h.exchangeIds hnew
      · intro e he
        rcases List.mem_append.mp he with he | he
        · exact h.checked e he
        · rw [List.mem_singleton.mp he]
          exact hchecked
      · exact fun e he => ⟨e, List.mem_append_left _ he, rfl⟩
      · exact ⟨_, List.mem_append_right _ (List.mem_singleton_self _), rfl⟩
      · exact Kind.noConfusion
      · exact hapart
      · intro e he hne
        rcases List.mem_append.mp he with he | he
        · exact he
        · rw [List.mem_singleton.mp he] at hne
          exact absurd rfl hne
      · intro e he hid
        rcases List.mem_append.mp he with he | he
        · exact absurd hid (hnew e he)
        · rw [List.mem_singleton.mp he, h.ordinary_new hnew]
          refine ⟨⟨rfl, .singleton _, rfl, ?_⟩, ExchangeStatus.noConfusion⟩
          intro l hl _
          rw [List.mem_singleton.mp hl]
          rfl
    · exact fun e he => ⟨e, List.mem_append_left _ he, .refl e⟩
    · exact fun l hl => ⟨l, List.mem_append_left _ hl, .refl l⟩

/-- An exchange that waits for its request has no leg. -/
theorem Inv.ordinary_waiting (h : Inv d) {e : Exchange} (he : e ∈ d.exchanges)
    (hwaiting : e.status = .waitingRequest) : d.ordinary e.id = [] := by
  have hordinals := (h.chains e he).ordinals
  rw [h.waiting e he hwaiting] at hordinals
  exact List.map_eq_nil_iff.mp hordinals

theorem Inv.createInitialExchangeLeg (h : Inv d) (p : Process) (c : Ledger.InitialLeg) :
    Next d (d.createInitialExchangeLeg p c).1 := by
  unfold Ledger.createInitialExchangeLeg
  split
  · exact h.stays
  next e he =>
  obtain ⟨hmem, hid⟩ := Tables.find_mem he
  split
  · split
    · exact h.stays
    · exact h.stays
  split
  · exact h.stays
  next hstatus =>
  rw [not_not] at hstatus
  split
  · exact h.stays
  split
  · exact h.stays
  split
  · apply h.nextEnd (h.exchange?_mem hmem)
    · rw [hstatus]
      rfl
    · exact ExchangeStatus.noConfusion
  split
  swap
  · exact h.stays
  next d' hgrow =>
  apply h.nextGrow hgrow he
  · exact Kind.noConfusion
  · rfl
  · rw [h.ordinary_waiting hmem hstatus]
    refine ⟨rfl, .singleton _, rfl, ?_⟩
    intro l hl _
    rw [List.mem_singleton.mp hl]
    rfl
  · rfl
  · refine ⟨rfl, ?_, fun hbegun => absurd hstatus hbegun⟩
    intro hterminal
    rw [hstatus] at hterminal
    cases hterminal

/-! ## Responses -/

/-- The response to the last leg is the next one. -/
theorem Chain.extend {e e' : Exchange} {legs : List Leg} {last l : Leg} (h : Chain e legs)
    (hlast : legs.getLast? = some last) (hanswers : Answers last l)
    (hordinal : l.ordinal = e.usedLegs + 1) (hused : e'.usedLegs = e.usedLegs + 1)
    (hactive : e'.activeLegId = some l.id) (hclosed : ∀ a ∈ legs, a.responseState ≠ .opened) :
    Chain e' (legs ++ [l]) where
  ordinals := by
    rw [List.map_append, h.ordinals, hused, List.range'_concat, Nat.one_mul, Nat.add_comm 1]
    simp [hordinal]
  answers := by
    rw [List.isChain_append]
    refine ⟨h.answers, .singleton _, ?_⟩
    intro a ha b hb
    rw [hlast] at ha
    cases ha
    cases hb
    exact hanswers
  active := by
    rw [List.getLast?_append, hactive]
    rfl
  opened := by
    intro a ha hopened
    rcases List.mem_append.mp ha with ha | ha
    · exact absurd hopened (hclosed a ha)
    · rw [List.mem_singleton.mp ha]
      exact hactive

/-- The leg that is answered is the last one, and the response is the next. -/
theorem Inv.answered (h : Inv d) {e e' : Exchange} {inbound l : Leg} {state : ResponseState}
    (he : e ∈ d.exchanges) (hinbound : inbound ∈ d.ordinary e.id)
    (hopened : inbound.responseState = .opened) (hstate : state ≠ .opened)
    (ha : Inv (d.setLeg inbound.id fun l => { l with responseState := state }))
    (hanswers : Answers inbound l) (hordinal : l.ordinal = e.usedLegs + 1)
    (hused : e'.usedLegs = e.usedLegs + 1) (hactive : e'.activeLegId = some l.id) :
    Chain e' ((d.setLeg inbound.id fun l => { l with responseState := state }).ordinary e.id ++
      [l]) := by
  have hchain := ha.chains e he
  have hlastId := (h.chains e he).opened inbound hinbound hopened
  have hmem : ({ inbound with responseState := state } : Leg) ∈
      (d.setLeg inbound.id fun l => { l with responseState := state }).legs :=
    List.mem_map.mpr ⟨inbound, (mem_ordinary.mp hinbound).1, if_pos rfl⟩
  have hlastActive := hchain.active
  rw [hlastId] at hlastActive
  obtain ⟨last, hlast, hlastInbound⟩ := Option.map_eq_some_iff.mp hlastActive.symm
  have hlastMem := (mem_ordinary.mp (List.mem_of_getLast? hlast)).1
  have hlastEq : last = { inbound with responseState := state } :=
    Tables.eq_of_key ha.legIds hlastMem hmem hlastInbound
  apply hchain.extend hlast _ hordinal hused hactive
  · intro a hmemA hopenedA
    have hactiveA := hchain.opened a hmemA hopenedA
    rw [hlastId] at hactiveA
    have haEq : a = { inbound with responseState := state } :=
      Tables.eq_of_key ha.legIds (mem_ordinary.mp hmemA).1 hmem (Option.some.inj hactiveA).symm
    rw [haEq] at hopenedA
    exact hstate hopenedA
  · rw [hlastEq]
    exact ⟨hanswers.parent, hanswers.source, hanswers.target⟩

theorem Ledger.Response.committedState_ne (c : Ledger.Response) : c.committedState ≠ .opened := by
  unfold Ledger.Response.committedState
  split
  · exact ResponseState.noConfusion
  · exact ResponseState.noConfusion

theorem Ledger.Response.kind_ne (c : Ledger.Response) : c.kind ≠ .status := by
  unfold Ledger.Response.kind
  split
  · exact Kind.noConfusion
  · exact Kind.noConfusion

theorem Inv.commitExchangeResponse (h : Inv d) (p : Process) (c : Ledger.Response) :
    Next d (d.commitExchangeResponse p c).1 := by
  unfold Ledger.commitExchangeResponse
  split
  swap
  · exact h.stays
  next e inbound he hinbound =>
  obtain ⟨hmem, hid⟩ := Tables.find_mem he
  obtain ⟨hfound, hexchange⟩ := Option.filter_eq_some_iff.mp hinbound
  obtain ⟨hleg, hlegId⟩ := Tables.find_mem hfound
  rw [decide_eq_true_eq] at hexchange
  split
  · split
    · exact h.stays
    · exact h.stays
  split
  · split
    · exact h.stays
    · exact h.stays
  next hactive =>
  rw [not_not] at hactive
  split
  · apply h.nextEnd (h.exchange?_mem hmem)
    · rw [hactive]
      rfl
    · exact ExchangeStatus.noConfusion
  split
  · exact h.stays
  next hopened =>
  rw [not_not] at hopened
  split
  · exact h.stays
  split
  · exact h.stays
  next hbound =>
  rw [not_or] at hbound
  split
  · exact h.stays
  split
  · exact h.stays
  dsimp only
  split
  swap
  · exact h.stays
  next d' hgrow =>
  have hkind : inbound.kind ≠ .status := by
    intro hstatus
    have hnot := (h.statusLegs inbound hleg hstatus).2.1
    rw [hopened] at hnot
    cases hnot
  have hinboundMem : inbound ∈ d.ordinary e.id :=
    mem_ordinary.mpr ⟨hleg, hexchange.trans hid.symm, hkind⟩
  rw [← hlegId] at hgrow hfound
  have hkeeps : ∀ l ∈ d.legs, l.id = inbound.id →
      l.Keeps { l with responseState := c.committedState } := by
    intro l hl hl'
    rw [h.only_leg hfound hl hl']
    exact ⟨rfl, .inr ⟨c.committedState_ne, fun hstatus => absurd hstatus hkind⟩, fun _ => rfl⟩
  refine (h.nextLeg hkeeps).then fun ha => ?_
  apply ha.nextGrow hgrow he
  · exact c.kind_ne
  · rfl
  · apply h.answered hmem hinboundMem hopened c.committedState_ne ha
    · exact ⟨congrArg some hlegId.symm, (not_not.mp hbound.1).symm, rfl⟩
    · rfl
    · rfl
    · rfl
  · exact hactive
  · refine ⟨rfl, ?_, fun hbegun => ⟨hbegun, rfl, fun hlease => hlease⟩⟩
    intro hterminal
    rw [hactive] at hterminal
    cases hterminal

theorem Inv.downgradeLiveExchange (h : Inv d) (exchangeId activeLegId instanceId : String) :
    Next d (d.downgradeLiveExchange exchangeId activeLegId instanceId).1 := by
  unfold Ledger.downgradeLiveExchange
  split
  · exact h.stays
  next e he =>
  split
  swap
  · exact h.stays
  · apply h.nextExchange
    · intro e' _ _
      exact ⟨rfl, rfl, rfl, rfl, rfl, rfl, fun hwaiting => hwaiting⟩
    · intro e' _ _
      exact ⟨rfl, fun _ => ⟨rfl, rfl, rfl⟩, fun hbegun => ⟨hbegun, rfl, Bool.noConfusion⟩⟩

/-! ## Ends -/

/-- A leg that has not ended changes. -/
theorem Inv.nextOpenLeg (h : Inv d) {id : String} {l : Leg} {f : Leg → Leg}
    (hl : d.leg? id = some l) (hopen : l.status.terminal = false) (hfixed : (f l).fixed = l.fixed)
    (hresponse : (f l).responseState = l.responseState ∨ (f l).responseState = .closed) :
    Next d (d.setLeg id f) := by
  apply h.nextLeg
  intro l' hl' hid
  rw [h.only_leg hl hl' hid]
  refine ⟨hfixed, ?_, ?_⟩
  · rcases hresponse with hsame | hclosed
    · exact .inl hsame
    · rw [hclosed]
      exact .inr ⟨ResponseState.noConfusion, fun _ => rfl⟩
  · intro hterminal
    rw [hopen] at hterminal
    cases hterminal

theorem Inv.cancelExactQueuedExchangeLeg (h : Inv d)
    (exchangeId legId targetSessionId queuedId : String) :
    Next d (d.cancelExactQueuedExchangeLeg exchangeId legId targetSessionId queuedId).1 := by
  unfold Ledger.cancelExactQueuedExchangeLeg
  split
  swap
  · exact h.stays
  next l e hl he =>
  obtain ⟨hfound, hqueued⟩ := Option.filter_eq_some_iff.mp hl
  simp only [Bool.and_eq_true, decide_eq_true_eq] at hqueued
  have hopen : l.status.terminal = false := by
    rw [hqueued.2]
    rfl
  split
  · exact h.stays
  dsimp only
  split
  · next hends =>
    refine Next.then (b := d.setLeg legId fun l =>
      { l with status := .cancelled, responseState := .closed }) ?_ fun hcancelled => ?_
    · exact h.nextOpenLeg hfound hopen rfl (.inr rfl)
    apply hcancelled.nextEnd he
    · rw [hends.2.1]
      rfl
    · exact ExchangeStatus.noConfusion
  · exact h.nextOpenLeg hfound hopen rfl (.inr rfl)

theorem Ledger.CancelStatus.exchange_ne (status : Ledger.CancelStatus) :
    status.exchange ≠ .waitingRequest := by
  cases status with
  | failed => exact ExchangeStatus.noConfusion
  | cancelled => exact ExchangeStatus.noConfusion
  | expired => exact ExchangeStatus.noConfusion

theorem Ledger.CancelStatus.keeps_close (status : Ledger.CancelStatus) (l : Leg) :
    l.Keeps (status.close l) := by
  unfold Ledger.CancelStatus.close
  have hclosed : ResponseState.closed ≠ .opened ∧ (l.kind = .status →
      ResponseState.closed = .closed) := ⟨ResponseState.noConfusion, fun _ => rfl⟩
  cases hstatus : l.status with
  | registered => exact ⟨rfl, .inr hclosed, by rw [hstatus]; exact Bool.noConfusion⟩
  | submitting => exact ⟨rfl, .inr hclosed, by rw [hstatus]; exact Bool.noConfusion⟩
  | queued => exact ⟨rfl, .inr hclosed, by rw [hstatus]; exact Bool.noConfusion⟩
  | running => exact ⟨rfl, .inr hclosed, fun _ => hstatus.symm⟩
  | delivered => exact .refl l
  | failed => exact .refl l
  | cancelled => exact .refl l
  | expired => exact .refl l

theorem Inv.cancelExchange (h : Inv d) (exchangeId : String) (status : Ledger.CancelStatus) :
    Next d (d.cancelExchange exchangeId status).1 := by
  unfold Ledger.cancelExchange
  split
  · exact h.stays
  next e he =>
  split
  · exact h.stays
  next hopen =>
  have hend := h.nextEnd he (Bool.eq_false_iff.mpr hopen) status.exchange_ne
  dsimp only
  split
  · exact hend
  · next l hl =>
    refine hend.then fun hclosed => hclosed.nextLeg ?_
    intro l' _ _
    exact status.keeps_close l'

theorem Inv.finishExchangeLeg (h : Inv d) (legId : String) (status : Ledger.FinalStatus)
    (preserve : Bool) : Next d (d.finishExchangeLeg legId status preserve).1 := by
  unfold Ledger.finishExchangeLeg
  split
  · exact h.stays
  next l hl =>
  split
  · exact h.stays
  next e he =>
  split
  · exact h.stays
  next hopen =>
  rw [Bool.not_eq_true] at hopen
  dsimp only
  split
  swap
  · exact h.nextOpenLeg hl hopen rfl (.inl rfl)
  next hactive =>
  have hrunning : e.status.terminal = false := by
    rw [hactive.2]
    rfl
  split
  · next ended hended =>
    refine Next.then (b := d.setLeg legId fun l' =>
      { l' with status := (Ledger.effectiveStatus status preserve l).leg }) ?_
        fun hfinished => ?_
    · exact h.nextOpenLeg hl hopen rfl (.inl rfl)
    apply hfinished.nextEnd he hrunning
    generalize Ledger.effectiveStatus status preserve l = effective at hended
    cases effective with
    | delivered => cases hended
    | failed => cases hended; exact ExchangeStatus.noConfusion
    | cancelled => cases hended; exact ExchangeStatus.noConfusion
    | expired => cases hended; exact ExchangeStatus.noConfusion
  · split
    · refine Next.then (b := d.setLeg legId fun l' =>
        { l' with
          status := (Ledger.effectiveStatus status preserve l).leg
          responseState := .closed }) ?_ fun hfinished => ?_
      · exact h.nextOpenLeg hl hopen rfl (.inr rfl)
      exact hfinished.nextEnd he hrunning ExchangeStatus.noConfusion
    · exact h.nextOpenLeg hl hopen rfl (.inl rfl)

theorem Inv.createExchangeStatusLeg (h : Inv d) (p : Process) (c : Ledger.StatusLeg) :
    Next d (d.createExchangeStatusLeg p c).1 := by
  unfold Ledger.createExchangeStatusLeg
  split
  · exact h.stays
  split
  · next d' hinsert => exact h.nextStatus hinsert rfl rfl rfl rfl
  · exact h.stays

/-! ## Deliveries -/

theorem Inv.updateExchangeLeg (h : Inv d) (legId : String) (expected : List Ledger.Delivery)
    (patch : Ledger.Patch) : Next d (d.updateExchangeLeg legId expected patch).1 := by
  unfold Ledger.updateExchangeLeg
  split
  · exact h.stays
  next l hl =>
  split
  swap
  · exact h.stays
  next hexpected =>
  obtain ⟨delivery, _, hstatus⟩ := List.mem_map.mp hexpected
  apply h.nextOpenLeg hl _ rfl (.inl rfl)
  rw [← hstatus]
  cases delivery with
  | registered => rfl
  | submitting => rfl
  | queued => rfl
  | running => rfl

theorem Inv.step (h : Inv d) (a : Action) : Next d (d.step a).1 := by
  unfold Ledger.step
  cases a.call with
  | createExchangeObligation c => exact h.createExchangeObligation c
  | createRouteExchangeRequest c => exact h.createRouteExchangeRequest a.process c
  | createInitialExchangeLeg c => exact h.createInitialExchangeLeg a.process c
  | commitExchangeResponse c => exact h.commitExchangeResponse a.process c
  | downgradeLiveExchange exchangeId activeLegId instanceId =>
      exact h.downgradeLiveExchange exchangeId activeLegId instanceId
  | cancelExactQueuedExchangeLeg exchangeId legId targetSessionId queuedId =>
      exact h.cancelExactQueuedExchangeLeg exchangeId legId targetSessionId queuedId
  | cancelExchange exchangeId status => exact h.cancelExchange exchangeId status
  | finishExchangeLeg legId status preserve => exact h.finishExchangeLeg legId status preserve
  | createExchangeStatusLeg c => exact h.createExchangeStatusLeg a.process c
  | updateExchangeLeg legId expected patch => exact h.updateExchangeLeg legId expected patch

end AgentsServer.Exchanges
