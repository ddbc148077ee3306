import AgentsServer.Exchanges.Chain

/-!
# Later ledgers

No row is lost, what an exchange or a leg is stays, and an end stays an end.
-/

namespace AgentsServer.Exchanges

open Library

/-- What no operation changes of an exchange. -/
def Exchange.fixed (e : Exchange) : Exchange :=
  { e with
    status := .active
    usedLegs := 0
    activeLegId := none
    liveResponseRequested := false
    liveResponseLease := false
    liveResponseInstanceId := "" }

/-- An exchange keeps what it is. After its end it gets no further leg, and a live response is
asked for at its first leg only. -/
structure Exchange.Keeps (e e' : Exchange) : Prop where
  fixed : e'.fixed = e.fixed
  terminal : e.status.terminal = true →
    e'.status = e.status ∧ e'.usedLegs = e.usedLegs ∧ e'.activeLegId = e.activeLegId
  begun : e.status ≠ .waitingRequest → e'.status ≠ .waitingRequest ∧
    e'.liveResponseRequested = e.liveResponseRequested ∧
      (e'.liveResponseLease = true → e.liveResponseLease = true)

variable {e e' : Exchange}

theorem Exchange.Keeps.column {α : Type*} (f : Exchange → α) (h : e.Keeps e')
    (hf : ∀ x : Exchange, f x.fixed = f x) : f e' = f e := by
  rw [← hf e', h.fixed, hf e]

theorem Exchange.Keeps.id (h : e.Keeps e') : e'.id = e.id := h.column Exchange.id fun _ => rfl

theorem Exchange.Keeps.refl (e : Exchange) : e.Keeps e :=
  ⟨rfl, fun _ => ⟨rfl, rfl, rfl⟩, fun h => ⟨h, rfl, fun h => h⟩⟩

theorem Exchange.Keeps.trans {a b c : Exchange} (hab : a.Keeps b) (hbc : b.Keeps c) :
    a.Keeps c where
  fixed := hbc.fixed.trans hab.fixed
  terminal := by
    intro hterminal
    obtain ⟨hstatus, hused, hactive⟩ := hab.terminal hterminal
    rw [← hstatus] at hterminal
    obtain ⟨hstatus', hused', hactive'⟩ := hbc.terminal hterminal
    exact ⟨hstatus'.trans hstatus, hused'.trans hused, hactive'.trans hactive⟩
  begun := by
    intro hbegun
    obtain ⟨hb, hlive, hlease⟩ := hab.begun hbegun
    obtain ⟨hc, hlive', hlease'⟩ := hbc.begun hb
    exact ⟨hc, hlive'.trans hlive, fun h => hlease (hlease' h)⟩

structure Later (d d' : Ledger) : Prop where
  exchanges : ∀ e ∈ d.exchanges, ∃ e' ∈ d'.exchanges, e.Keeps e'
  legs : ∀ l ∈ d.legs, ∃ l' ∈ d'.legs, l.Keeps l'

theorem Later.refl (d : Ledger) : Later d d :=
  ⟨fun e he => ⟨e, he, .refl e⟩, fun l hl => ⟨l, hl, .refl l⟩⟩

theorem Later.trans {a b c : Ledger} (hab : Later a b) (hbc : Later b c) : Later a c where
  exchanges := by
    intro e he
    obtain ⟨e', he', hkeeps⟩ := hab.exchanges e he
    obtain ⟨e'', he'', hkeeps'⟩ := hbc.exchanges e' he'
    exact ⟨e'', he'', hkeeps.trans hkeeps'⟩
  legs := by
    intro l hl
    obtain ⟨l', hl', hkeeps⟩ := hab.legs l hl
    obtain ⟨l'', hl'', hkeeps'⟩ := hbc.legs l' hl'
    exact ⟨l'', hl'', hkeeps.trans hkeeps'⟩

variable {d d' : Ledger}

/-! ## Steps -/

/-- A ledger of the invariant, and later. -/
structure Next (d d' : Ledger) : Prop where
  inv : Inv d'
  later : Later d d'

theorem Inv.stays (h : Inv d) : Next d d := ⟨h, .refl d⟩

theorem Next.then {a b c : Ledger} (hab : Next a b) (hbc : Inv b → Next b c) : Next a c :=
  ⟨(hbc hab.inv).inv, hab.later.trans (hbc hab.inv).later⟩

theorem Inv.nextLeg (h : Inv d) {id : String} {f : Leg → Leg}
    (hf : ∀ l ∈ d.legs, l.id = id → l.Keeps (f l)) : Next d (d.setLeg id f) where
  inv := h.setLeg hf
  later := by
    refine ⟨fun e he => ⟨e, he, .refl e⟩, ?_⟩
    intro l hl
    exact ⟨_, List.mem_map_of_mem hl, atLeg_keeps (hf l hl)⟩

theorem Inv.nextExchange (h : Inv d) {id : String} {f : Exchange → Exchange}
    (hrests : ∀ e ∈ d.exchanges, e.id = id → e.Rests (f e))
    (hkeeps : ∀ e ∈ d.exchanges, e.id = id → e.Keeps (f e)) : Next d (d.setExchange id f) where
  inv := h.setExchange hrests
  later := by
    refine ⟨?_, fun l hl => ⟨l, hl, .refl l⟩⟩
    intro e he
    refine ⟨_, List.mem_map_of_mem he, ?_⟩
    split
    · next hid => exact hkeeps e he hid
    · exact .refl e

theorem Inv.nextObligation (h : Inv d) {e : Exchange} (hinsert : d.insertExchange e = some d')
    (hempty : e.usedLegs = 0) (hactive : e.activeLegId = none) : Next d d' where
  inv := h.insertExchange hinsert hempty hactive
  later := by
    obtain ⟨_, rfl⟩ := insertExchange_eq_some.mp hinsert
    exact ⟨fun e he => ⟨e, List.mem_append_left _ he, .refl e⟩, fun l hl => ⟨l, hl, .refl l⟩⟩

theorem Inv.nextStatus (h : Inv d) {l : Leg} (hinsert : d.insertLeg l = some d')
    (hkind : l.kind = .status) (hparent : l.parentLegId = none)
    (hclosed : l.responseState = .closed) (hordinal : l.ordinal = 0) : Next d d' where
  inv := h.insertStatus hinsert hkind hparent hclosed hordinal
  later := by
    obtain ⟨_, rfl⟩ := insertLeg_eq_some.mp hinsert
    exact ⟨fun e he => ⟨e, he, .refl e⟩, fun l hl => ⟨l, List.mem_append_left _ hl, .refl l⟩⟩

/-- The status of an exchange that has not ended changes, or its lease is given up. -/
theorem Inv.nextEnd (h : Inv d) {id : String} {e : Exchange} (he : d.exchange? id = some e)
    (hopen : e.status.terminal = false) {status : ExchangeStatus}
    (hstatus : status ≠ .waitingRequest) :
    Next d (d.setExchange id fun e => { e with status := status }) := by
  apply h.nextExchange
  · intro e' _ _
    exact ⟨rfl, rfl, rfl, rfl, rfl, rfl, fun hwaiting => absurd hwaiting hstatus⟩
  · intro e' he' hid
    rw [h.only_exchange he he' hid]
    refine ⟨rfl, ?_, fun _ => ⟨hstatus, rfl, fun h => h⟩⟩
    intro hterminal
    rw [hopen] at hterminal
    cases hterminal

/-- One exchange gets its next leg. -/
theorem Inv.nextGrow (h : Inv d) {e : Exchange} {l : Leg} {f : Exchange → Exchange}
    (hgrow : (d.insertLeg l).bind (fun d' =>
      d'.setExchanges (fun e => decide (e.id = l.exchangeId)) f) = some d')
    (he : d.exchange? l.exchangeId = some e) (hkind : l.kind ≠ .status)
    (hid : (f e).id = e.id) (hchain : Chain (f e) (d.ordinary e.id ++ [l]))
    (hactive : (f e).status = .active) (hkeeps : e.Keeps (f e)) : Next d d' := by
  obtain ⟨heMem, heId⟩ := Tables.find_mem he
  obtain ⟨d₁, hinsert, hset⟩ := Option.bind_eq_some_iff.mp hgrow
  obtain ⟨⟨_, _, hapart⟩, rfl⟩ := insertLeg_eq_some.mp hinsert
  unfold Ledger.setExchanges at hset
  obtain ⟨exchanges, hupdate, rfl⟩ := Option.map_eq_some_iff.mp hset
  obtain ⟨hchecked, rfl⟩ := Tables.updateRows_eq_some.mp hupdate
  have honly : ∀ e' ∈ d.exchanges, e'.id = l.exchangeId → e' = e :=
    fun e' he' hl => h.only_exchange he he' hl
  -- the rows after the update, by the rows before
  have hrow : ∀ e' ∈ d.exchanges,
      (if decide (e'.id = l.exchangeId) = true then f e' else e') =
        if e'.id = l.exchangeId then f e else e' := by
    intro e' he'
    simp only [decide_eq_true_eq]
    split
    · next hid => rw [honly e' he' hid]
    · rfl
  refine ⟨?_, ?_, ?_⟩
  · apply h.grow
    · have hkeys : (d.exchanges.map fun e' =>
          if decide (e'.id = l.exchangeId) = true then f e' else e').map Exchange.id =
          d.exchanges.map Exchange.id := by
        rw [List.map_map]
        apply List.map_congr_left
        intro e' he'
        dsimp only [Function.comp]
        rw [hrow e' he']
        split
        · next hl =>
          rw [honly e' he' hl]
          exact hid
        · rfl
      change (List.map Exchange.id (List.map _ d.exchanges)).Nodup
      rw [hkeys]
      exact h.exchangeIds
    · intro e'' he''
      obtain ⟨e', he', rfl⟩ := List.mem_map.mp he''
      split
      · next hl => exact hchecked e' he' hl
      · exact h.checked e' he'
    · intro e' he'
      refine ⟨_, List.mem_map_of_mem he', ?_⟩
      rw [hrow e' he']
      split
      · next hl =>
        rw [honly e' he' hl]
        exact hid
      · rfl
    · refine ⟨_, List.mem_map_of_mem heMem, ?_⟩
      rw [hrow e heMem, if_pos heId]
      exact hid.trans heId
    · exact hkind
    · exact hapart
    · intro e'' he'' hne
      obtain ⟨e', he', rfl⟩ := List.mem_map.mp he''
      rw [hrow e' he'] at hne ⊢
      split at hne
      · exact absurd (hid.trans heId) hne
      · next hl =>
        rw [if_neg hl]
        exact he'
    · intro e'' he'' hl
      obtain ⟨e', he', rfl⟩ := List.mem_map.mp he''
      rw [hrow e' he'] at hl ⊢
      split at hl
      · next hl' =>
        rw [if_pos hl', hid]
        refine ⟨hchain, ?_⟩
        rw [hactive]
        exact ExchangeStatus.noConfusion
      · next hl' => exact absurd hl hl'
  · intro e' he'
    refine ⟨_, List.mem_map_of_mem he', ?_⟩
    rw [hrow e' he']
    split
    · next hl =>
      rw [honly e' he' hl]
      exact hkeeps
    · exact .refl e'
  · exact fun l hl => ⟨l, List.mem_append_left _ hl, .refl l⟩

end AgentsServer.Exchanges
