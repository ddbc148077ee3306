import Mathlib.Data.List.Chain
import AgentsServer.Exchanges.Store

/-!
# The legs of an exchange

The ordinary legs of an exchange are a chain. Each one answers the one before it, and only the
last one can be answered.
-/

namespace AgentsServer.Exchanges

open Library

/-- The legs of an exchange that are not its status leg, in the order of their inserts. -/
def Ledger.ordinary (d : Ledger) (exchangeId : String) : List Leg :=
  d.legs.filter fun l => decide (l.exchangeId = exchangeId) && decide (l.kind ≠ .status)

/-- The second leg is the response to the first. -/
structure Answers (a b : Leg) : Prop where
  parent : b.parentLegId = some a.id
  source : b.sourceSessionId = a.targetSessionId
  target : b.targetSessionId = a.sourceSessionId

structure Chain (e : Exchange) (legs : List Leg) : Prop where
  ordinals : legs.map Leg.ordinal = List.range' 1 e.usedLegs
  answers : legs.IsChain Answers
  active : e.activeLegId = legs.getLast?.map Leg.id
  opened : ∀ l ∈ legs, l.responseState = .opened → e.activeLegId = some l.id

/-- What the two tables say of the chains. -/
structure Chained (d : Ledger) : Prop where
  bounded : ∀ e ∈ d.exchanges, e.usedLegs ≤ e.maxLegs ∧ e.maxLegs ≤ 6
  chains : ∀ e ∈ d.exchanges, Chain e (d.ordinary e.id)
  owned : ∀ l ∈ d.legs, ∃ e ∈ d.exchanges, e.id = l.exchangeId
  children : ∀ l ∈ d.legs, (d.legs.countP fun child => decide (child.parentLegId = some l.id)) ≤ 1
  status : ∀ e ∈ d.exchanges,
    (d.legs.countP fun l => decide (l.exchangeId = e.id) && decide (l.kind = .status)) ≤ 1

/-! ## The invariant -/

structure Inv (d : Ledger) : Prop where
  exchangeIds : (d.exchanges.map Exchange.id).Nodup
  apart : d.legs.Pairwise fun a b => a.clashes b = false
  checked : ∀ e ∈ d.exchanges, e.checked = true
  owned : ∀ l ∈ d.legs, ∃ e ∈ d.exchanges, e.id = l.exchangeId
  chains : ∀ e ∈ d.exchanges, Chain e (d.ordinary e.id)
  waiting : ∀ e ∈ d.exchanges, e.status = .waitingRequest → e.usedLegs = 0
  statusLegs : ∀ l ∈ d.legs, l.kind = .status →
    l.parentLegId = none ∧ l.responseState = .closed ∧ l.ordinal = 0

variable {d : Ledger}

theorem inv_empty : Inv .empty where
  exchangeIds := .nil
  apart := .nil
  checked := by rintro _ ⟨⟩
  owned := by rintro _ ⟨⟩
  chains := by rintro _ ⟨⟩
  waiting := by rintro _ ⟨⟩
  statusLegs := by rintro _ ⟨⟩

/-- What two legs that do not clash have different. -/
theorem not_clashes {old new : Leg} : old.clashes new = false ↔
    old.id ≠ new.id ∧ (new.parentLegId ≠ none → old.parentLegId ≠ new.parentLegId) ∧
      (old.exchangeId = new.exchangeId → old.ordinal ≠ new.ordinal ∧
        old.sourceRunId ≠ new.sourceRunId ∧ old.idempotencyKey ≠ new.idempotencyKey) := by
  unfold Leg.clashes
  simp only [Bool.or_eq_false_iff, Bool.and_eq_false_iff, decide_eq_false_iff_not]
  cases new.parentLegId with
  | none => simp; tauto
  | some parent => simp; tauto

theorem Inv.legIds (h : Inv d) : (d.legs.map Leg.id).Nodup := by
  rw [List.Nodup, List.pairwise_map]
  exact h.apart.imp fun hab => (not_clashes.mp hab).1

theorem Inv.leg?_mem (h : Inv d) {l : Leg} (hl : l ∈ d.legs) : d.leg? l.id = some l :=
  Tables.find_of_mem h.legIds hl

theorem Inv.exchange?_mem (h : Inv d) {e : Exchange} (he : e ∈ d.exchanges) :
    d.exchange? e.id = some e :=
  Tables.find_of_mem h.exchangeIds he

/-- One row has the identifier of a row that was found. -/
theorem Inv.only_leg (h : Inv d) {id : String} {l l' : Leg} (hl : d.leg? id = some l)
    (hl' : l' ∈ d.legs) (hid : l'.id = id) : l' = l := by
  rw [← hid, h.leg?_mem hl'] at hl
  exact Option.some.inj hl

theorem Inv.only_exchange (h : Inv d) {id : String} {e e' : Exchange}
    (he : d.exchange? id = some e) (he' : e' ∈ d.exchanges) (hid : e'.id = id) : e' = e := by
  rw [← hid, h.exchange?_mem he'] at he
  exact Option.some.inj he

theorem mem_ordinary {l : Leg} {exchangeId : String} : l ∈ d.ordinary exchangeId ↔
    l ∈ d.legs ∧ l.exchangeId = exchangeId ∧ l.kind ≠ .status := by
  unfold Ledger.ordinary
  rw [List.mem_filter, Bool.and_eq_true, decide_eq_true_eq, decide_eq_true_eq]

theorem checked_iff {e : Exchange} : e.checked = true ↔
    (0 < e.maxLegs ∧ e.maxLegs ≤ 6) ∧ e.usedLegs ≤ e.maxLegs ∧
      e.requesterSessionId ≠ e.responderSessionId := by
  unfold Exchange.checked
  simp only [Bool.and_eq_true, decide_eq_true_eq]
  tauto

/-- A condition that excludes itself later in a list holds once. -/
theorem countP_le_one {α : Type*} {p : α → Bool} {rows : List α}
    (h : rows.Pairwise fun a b => p a = true → p b = false) : rows.countP p ≤ 1 := by
  induction h with
  | nil => exact Nat.zero_le _
  | @cons a rows hfirst _ ih =>
      rw [List.countP_cons]
      by_cases ha : p a = true
      · have hnone : rows.countP p = 0 := by
          rw [List.countP_eq_zero]
          intro b hb
          rw [hfirst b hb ha]
          exact Bool.false_ne_true
        simp only [hnone, ha, if_true]
        exact Nat.le_refl _
      · rw [if_neg ha]
        exact ih

theorem Inv.chained (h : Inv d) : Chained d where
  bounded := fun e he =>
    have hchecked := checked_iff.mp (h.checked e he)
    ⟨hchecked.2.1, hchecked.1.2⟩
  chains := h.chains
  owned := h.owned
  children := by
    intro l _
    apply countP_le_one
    apply h.apart.imp
    intro a b hab ha
    have hclash := (not_clashes.mp hab).2.1
    rw [decide_eq_true_eq] at ha
    rw [decide_eq_false_iff_not]
    intro hb
    apply hclash
    · rw [hb]
      exact Option.some_ne_none _
    · rw [ha, hb]
  status := by
    intro e _
    apply countP_le_one
    apply h.apart.imp_of_mem
    intro a b hma hmb hab ha
    rw [Bool.and_eq_true, decide_eq_true_eq, decide_eq_true_eq] at ha
    rw [Bool.and_eq_false_iff, decide_eq_false_iff_not, decide_eq_false_iff_not]
    by_contra hboth
    rw [not_or, not_not, not_not] at hboth
    -- both have ordinal zero
    apply ((not_clashes.mp hab).2.2 (ha.1.trans hboth.1.symm)).1
    rw [(h.statusLegs a hma ha.2).2.2, (h.statusLegs b hmb hboth.2).2.2]

/-! ## Updates of a leg -/

/-- What no operation changes of a leg. -/
def Leg.fixed (l : Leg) : Leg :=
  { l with responseState := .closed, status := .registered, queuedId := none, targetRunId := none }

/-- A leg keeps what it is. Its response is not opened again and its last status stays. -/
structure Leg.Keeps (l l' : Leg) : Prop where
  fixed : l'.fixed = l.fixed
  response : l'.responseState = l.responseState ∨
    l'.responseState ≠ .opened ∧ (l.kind = .status → l'.responseState = .closed)
  terminal : l.status.terminal = true → l'.status = l.status

variable {l l' : Leg}

theorem Leg.Keeps.column {α : Type*} (f : Leg → α) (h : l.Keeps l')
    (hf : ∀ x : Leg, f x.fixed = f x) : f l' = f l := by
  rw [← hf l', h.fixed, hf l]

theorem Leg.Keeps.id (h : l.Keeps l') : l'.id = l.id := h.column Leg.id fun _ => rfl

theorem Leg.Keeps.exchangeId (h : l.Keeps l') : l'.exchangeId = l.exchangeId :=
  h.column Leg.exchangeId fun _ => rfl

theorem Leg.Keeps.parentLegId (h : l.Keeps l') : l'.parentLegId = l.parentLegId :=
  h.column Leg.parentLegId fun _ => rfl

theorem Leg.Keeps.ordinal (h : l.Keeps l') : l'.ordinal = l.ordinal :=
  h.column Leg.ordinal fun _ => rfl

theorem Leg.Keeps.sourceSessionId (h : l.Keeps l') : l'.sourceSessionId = l.sourceSessionId :=
  h.column Leg.sourceSessionId fun _ => rfl

theorem Leg.Keeps.sourceRunId (h : l.Keeps l') : l'.sourceRunId = l.sourceRunId :=
  h.column Leg.sourceRunId fun _ => rfl

theorem Leg.Keeps.targetSessionId (h : l.Keeps l') : l'.targetSessionId = l.targetSessionId :=
  h.column Leg.targetSessionId fun _ => rfl

theorem Leg.Keeps.kind (h : l.Keeps l') : l'.kind = l.kind := h.column Leg.kind fun _ => rfl

theorem Leg.Keeps.idempotencyKey (h : l.Keeps l') : l'.idempotencyKey = l.idempotencyKey :=
  h.column Leg.idempotencyKey fun _ => rfl

theorem Leg.Keeps.refl (l : Leg) : l.Keeps l := ⟨rfl, .inl rfl, fun _ => rfl⟩

theorem Leg.Keeps.trans {a b c : Leg} (hab : a.Keeps b) (hbc : b.Keeps c) : a.Keeps c where
  fixed := hbc.fixed.trans hab.fixed
  response := by
    rcases hbc.response with hc | hc
    · rw [hc]
      exact hab.response
    · rw [hab.kind] at hc
      exact .inr hc
  terminal := by
    intro hterminal
    have hb := hab.terminal hterminal
    rw [← hb] at hterminal
    exact (hbc.terminal hterminal).trans hb

theorem Leg.Keeps.opened (h : l.Keeps l') (ho : l'.responseState = .opened) :
    l.responseState = .opened := by
  rcases h.response with hr | hr
  · rw [← hr]
    exact ho
  · exact absurd ho hr.1

theorem Leg.Keeps.clashes {a a' b b' : Leg} (ha : a.Keeps a') (hb : b.Keeps b') :
    a'.clashes b' = a.clashes b := by
  unfold Leg.clashes
  rw [ha.id, hb.id, ha.parentLegId, hb.parentLegId, ha.exchangeId, hb.exchangeId, ha.ordinal,
    hb.ordinal, ha.sourceRunId, hb.sourceRunId, ha.idempotencyKey, hb.idempotencyKey]

/-- A chain stays one when its legs keep what they are. -/
theorem Chain.map {e : Exchange} {legs : List Leg} (h : Chain e legs) {f : Leg → Leg}
    (hf : ∀ l ∈ legs, l.Keeps (f l)) : Chain e (legs.map f) where
  ordinals := by
    rw [← h.ordinals, List.map_map]
    exact List.map_congr_left fun l hl => (hf l hl).ordinal
  answers := by
    rw [List.isChain_map]
    apply h.answers.imp_of_mem_imp
    intro a b ha hb hab
    exact ⟨by rw [(hf b hb).parentLegId, (hf a ha).id, hab.parent],
      by rw [(hf b hb).sourceSessionId, (hf a ha).targetSessionId, hab.source],
      by rw [(hf b hb).targetSessionId, (hf a ha).sourceSessionId, hab.target]⟩
  active := by
    rw [h.active, List.getLast?_map, Option.map_map]
    cases hlast : legs.getLast? with
    | none => rfl
    | some l => exact congrArg some (hf l (List.mem_of_getLast? hlast)).id.symm
  opened := by
    intro l' hl' ho
    obtain ⟨l, hl, rfl⟩ := List.mem_map.mp hl'
    rw [(hf l hl).id]
    exact h.opened l hl ((hf l hl).opened ho)

/-- What `setLeg` does to a row. -/
def atLeg (id : String) (f : Leg → Leg) (l : Leg) : Leg := if l.id = id then f l else l

theorem atLeg_keeps {id : String} {f : Leg → Leg} (hf : l.id = id → l.Keeps (f l)) :
    l.Keeps (atLeg id f l) := by
  unfold atLeg
  split
  · next hid => exact hf hid
  · exact .refl l

theorem ordinary_setLeg {id : String} {f : Leg → Leg}
    (hf : ∀ l ∈ d.legs, l.id = id → l.Keeps (f l)) (exchangeId : String) :
    (d.setLeg id f).ordinary exchangeId = (d.ordinary exchangeId).map (atLeg id f) := by
  change (d.legs.map (atLeg id f)).filter _ = _
  rw [List.filter_map]
  unfold Ledger.ordinary
  congr 1
  apply List.filter_congr
  intro l hl
  have hkeeps := atLeg_keeps (hf l hl)
  dsimp only [Function.comp]
  rw [hkeeps.exchangeId, hkeeps.kind]

theorem Inv.setLeg (h : Inv d) {id : String} {f : Leg → Leg}
    (hf : ∀ l ∈ d.legs, l.id = id → l.Keeps (f l)) : Inv (d.setLeg id f) where
  exchangeIds := h.exchangeIds
  apart := by
    change (d.legs.map (atLeg id f)).Pairwise _
    rw [List.pairwise_map]
    apply h.apart.imp_of_mem
    intro a b ha hb hab
    rw [(atLeg_keeps (hf a ha)).clashes (atLeg_keeps (hf b hb))]
    exact hab
  checked := h.checked
  owned := by
    intro l' hl'
    obtain ⟨l, hl, rfl⟩ := List.mem_map.mp hl'
    obtain ⟨e, he, hid⟩ := h.owned l hl
    exact ⟨e, he, hid.trans (atLeg_keeps (hf l hl)).exchangeId.symm⟩
  chains := by
    intro e he
    rw [ordinary_setLeg hf]
    exact (h.chains e he).map fun l hl => atLeg_keeps (hf l (mem_ordinary.mp hl).1)
  waiting := h.waiting
  statusLegs := by
    intro l' hl' hkind
    obtain ⟨l, hl, rfl⟩ := List.mem_map.mp hl'
    have hkeeps := atLeg_keeps (hf l hl)
    change (atLeg id f l).kind = _ at hkind
    change (atLeg id f l).parentLegId = _ ∧ (atLeg id f l).responseState = _ ∧
      (atLeg id f l).ordinal = _
    rw [hkeeps.kind] at hkind
    obtain ⟨hparent, hclosed, hordinal⟩ := h.statusLegs l hl hkind
    refine ⟨hkeeps.parentLegId.trans hparent, ?_, hkeeps.ordinal.trans hordinal⟩
    rcases hkeeps.response with hr | hr
    · exact hr.trans hclosed
    · exact hr.2 hkind

/-! ## Updates of an exchange -/

/-- The legs of an exchange are as they were. -/
structure Exchange.Rests (e e' : Exchange) : Prop where
  id : e'.id = e.id
  requesterSessionId : e'.requesterSessionId = e.requesterSessionId
  responderSessionId : e'.responderSessionId = e.responderSessionId
  maxLegs : e'.maxLegs = e.maxLegs
  usedLegs : e'.usedLegs = e.usedLegs
  activeLegId : e'.activeLegId = e.activeLegId
  waiting : e'.status = .waitingRequest → e.status = .waitingRequest

theorem Exchange.Rests.refl (e : Exchange) : e.Rests e := ⟨rfl, rfl, rfl, rfl, rfl, rfl, fun h => h⟩

theorem Exchange.Rests.checked {e e' : Exchange} (h : e.Rests e') : e'.checked = e.checked := by
  unfold Exchange.checked
  rw [h.requesterSessionId, h.responderSessionId, h.maxLegs, h.usedLegs]

theorem Chain.rests {e e' : Exchange} {legs : List Leg} (h : Chain e legs) (he : e.Rests e') :
    Chain e' legs where
  ordinals := by
    rw [he.usedLegs]
    exact h.ordinals
  answers := h.answers
  active := he.activeLegId.trans h.active
  opened := fun l hl ho => he.activeLegId.trans (h.opened l hl ho)

/-- What `setExchange` does to a row. -/
def atExchange (id : String) (f : Exchange → Exchange) (e : Exchange) : Exchange :=
  if e.id = id then f e else e

theorem atExchange_rests {id : String} {f : Exchange → Exchange} {e : Exchange}
    (hf : e.id = id → e.Rests (f e)) : e.Rests (atExchange id f e) := by
  unfold atExchange
  split
  · next hid => exact hf hid
  · exact .refl e

theorem Inv.setExchange (h : Inv d) {id : String} {f : Exchange → Exchange}
    (hf : ∀ e ∈ d.exchanges, e.id = id → e.Rests (f e)) : Inv (d.setExchange id f) where
  exchangeIds := by
    change ((d.exchanges.map (atExchange id f)).map Exchange.id).Nodup
    have hkeys : (d.exchanges.map (atExchange id f)).map Exchange.id =
        d.exchanges.map Exchange.id := by
      rw [List.map_map]
      exact List.map_congr_left fun e he => (atExchange_rests (hf e he)).id
    rw [hkeys]
    exact h.exchangeIds
  apart := h.apart
  checked := by
    intro e' he'
    obtain ⟨e, he, rfl⟩ := List.mem_map.mp he'
    exact (atExchange_rests (hf e he)).checked.trans (h.checked e he)
  owned := by
    intro l hl
    obtain ⟨e, he, hid⟩ := h.owned l hl
    exact ⟨_, List.mem_map_of_mem he, (atExchange_rests (hf e he)).id.trans hid⟩
  chains := by
    intro e' he'
    obtain ⟨e, he, rfl⟩ := List.mem_map.mp he'
    have hrests := atExchange_rests (hf e he)
    change Chain (atExchange id f e) (d.ordinary (atExchange id f e).id)
    rw [hrests.id]
    exact (h.chains e he).rests hrests
  waiting := by
    intro e' he' hwaiting
    obtain ⟨e, he, rfl⟩ := List.mem_map.mp he'
    have hrests := atExchange_rests (hf e he)
    exact hrests.usedLegs.trans (h.waiting e he (hrests.waiting hwaiting))
  statusLegs := h.statusLegs

/-! ## Inserts -/

theorem insertExchange_eq_some {e : Exchange} {d' : Ledger} : d.insertExchange e = some d' ↔
    (e.checked = true ∧ ∀ old ∈ d.exchanges, old.id ≠ e.id) ∧
      d' = { d with exchanges := d.exchanges ++ [e] } := by
  unfold Ledger.insertExchange
  rw [Option.map_eq_some_iff]
  constructor
  · rintro ⟨exchanges, hinsert, rfl⟩
    obtain ⟨hok, rfl⟩ := Tables.insertRow_eq_some.mp hinsert
    exact ⟨hok, rfl⟩
  · rintro ⟨hok, rfl⟩
    exact ⟨_, Tables.insertRow_eq_some.mpr ⟨hok, rfl⟩, rfl⟩

theorem insertLeg_eq_some {d' : Ledger} : d.insertLeg l = some d' ↔
    ((d.exchange? l.exchangeId).isSome = true ∧ l.sourceSessionId ≠ l.targetSessionId ∧
      ∀ old ∈ d.legs, old.clashes l = false) ∧ d' = { d with legs := d.legs ++ [l] } := by
  unfold Ledger.insertLeg
  split
  · next hok =>
    constructor
    · rintro ⟨⟩
      exact ⟨hok, rfl⟩
    · rintro ⟨-, rfl⟩
      rfl
  · next hok =>
    constructor
    · rintro ⟨⟩
    · rintro ⟨h, -⟩
      exact absurd h hok

/-- An exchange that is not in the ledger has no legs. -/
theorem Inv.ordinary_new (h : Inv d) {id : String} (hnew : ∀ e ∈ d.exchanges, e.id ≠ id) :
    d.ordinary id = [] := by
  rw [List.eq_nil_iff_forall_not_mem]
  intro l hl
  obtain ⟨hl, hid, _⟩ := mem_ordinary.mp hl
  obtain ⟨e, he, hown⟩ := h.owned l hl
  exact hnew e he (hown.trans hid)

theorem apart_append (h : Inv d) (hapart : ∀ old ∈ d.legs, old.clashes l = false) :
    (d.legs ++ [l]).Pairwise fun a b => a.clashes b = false := by
  rw [List.pairwise_append]
  refine ⟨h.apart, List.pairwise_singleton _ _, ?_⟩
  intro old hold new hnew
  rw [List.mem_singleton.mp hnew]
  exact hapart old hold

theorem Inv.insertExchange (h : Inv d) {e : Exchange} {d' : Ledger}
    (hinsert : d.insertExchange e = some d') (hempty : e.usedLegs = 0)
    (hactive : e.activeLegId = none) : Inv d' := by
  obtain ⟨⟨hchecked, hnew⟩, rfl⟩ := insertExchange_eq_some.mp hinsert
  refine ⟨Tables.nodup_append_row h.exchangeIds hnew, h.apart, ?_, ?_, ?_, ?_, h.statusLegs⟩
  · intro e' he'
    rcases List.mem_append.mp he' with he' | he'
    · exact h.checked e' he'
    · rw [List.mem_singleton.mp he']
      exact hchecked
  · intro l hl
    obtain ⟨e', he', hid⟩ := h.owned l hl
    exact ⟨e', List.mem_append_left _ he', hid⟩
  · intro e' he'
    rcases List.mem_append.mp he' with he' | he'
    · exact h.chains e' he'
    · rw [List.mem_singleton.mp he']
      change Chain e (d.ordinary e.id)
      rw [h.ordinary_new hnew]
      refine ⟨?_, .nil, hactive, by rintro _ ⟨⟩⟩
      rw [hempty]
      rfl
  · intro e' he' hwaiting
    rcases List.mem_append.mp he' with he' | he'
    · exact h.waiting e' he' hwaiting
    · rw [List.mem_singleton.mp he']
      exact hempty

/-- A status leg is in no chain. -/
theorem Inv.insertStatus (h : Inv d) {d' : Ledger} (hinsert : d.insertLeg l = some d')
    (hkind : l.kind = .status) (hparent : l.parentLegId = none)
    (hclosed : l.responseState = .closed) (hordinal : l.ordinal = 0) : Inv d' := by
  obtain ⟨⟨hexchange, _, hapart⟩, rfl⟩ := insertLeg_eq_some.mp hinsert
  refine ⟨h.exchangeIds, apart_append h hapart, h.checked, ?_, ?_, h.waiting, ?_⟩
  · intro l' hl'
    rcases List.mem_append.mp hl' with hl' | hl'
    · exact h.owned l' hl'
    · rw [List.mem_singleton.mp hl']
      obtain ⟨e, he⟩ := Option.isSome_iff_exists.mp hexchange
      exact ⟨e, Tables.find_mem he⟩
  · intro e he
    have hsame : ({ d with legs := d.legs ++ [l] } : Ledger).ordinary e.id = d.ordinary e.id := by
      unfold Ledger.ordinary
      rw [List.filter_append]
      simp [hkind]
    rw [hsame]
    exact h.chains e he
  · intro l' hl' hl'kind
    rcases List.mem_append.mp hl' with hl' | hl'
    · exact h.statusLegs l' hl' hl'kind
    · rw [List.mem_singleton.mp hl']
      exact ⟨hparent, hclosed, hordinal⟩

/-- One exchange gets its next leg. -/
theorem Inv.grow (h : Inv d) {exchanges : List Exchange}
    (hids : (exchanges.map Exchange.id).Nodup) (hchecked : ∀ e ∈ exchanges, e.checked = true)
    (hkept : ∀ e ∈ d.exchanges, ∃ e' ∈ exchanges, e'.id = e.id)
    (howner : ∃ e ∈ exchanges, e.id = l.exchangeId) (hkind : l.kind ≠ .status)
    (hapart : ∀ old ∈ d.legs, old.clashes l = false)
    (hothers : ∀ e ∈ exchanges, e.id ≠ l.exchangeId → e ∈ d.exchanges)
    (hgrown : ∀ e ∈ exchanges, e.id = l.exchangeId →
      Chain e (d.ordinary e.id ++ [l]) ∧ e.status ≠ .waitingRequest) :
    Inv { exchanges := exchanges, legs := d.legs ++ [l] } := by
  refine ⟨hids, apart_append h hapart, hchecked, ?_, ?_, ?_, ?_⟩
  · intro l' hl'
    rcases List.mem_append.mp hl' with hl' | hl'
    · obtain ⟨e, he, hid⟩ := h.owned l' hl'
      obtain ⟨e', he', hid'⟩ := hkept e he
      exact ⟨e', he', hid'.trans hid⟩
    · rw [List.mem_singleton.mp hl']
      exact howner
  · intro e he
    by_cases hid : e.id = l.exchangeId
    · have hmore : (d.legs ++ [l]).filter
          (fun l => decide (l.exchangeId = e.id) && decide (l.kind ≠ .status)) =
            d.ordinary e.id ++ [l] := by
        rw [List.filter_append]
        simp [Ledger.ordinary, hid, hkind]
      change Chain e (List.filter _ _)
      rw [hmore]
      exact (hgrown e he hid).1
    · have hsame : (d.legs ++ [l]).filter
          (fun l => decide (l.exchangeId = e.id) && decide (l.kind ≠ .status)) =
            d.ordinary e.id := by
        rw [List.filter_append]
        simp [Ledger.ordinary, Ne.symm hid]
      change Chain e (List.filter _ _)
      rw [hsame]
      exact h.chains e (hothers e he hid)
  · intro e he hwaiting
    by_cases hid : e.id = l.exchangeId
    · exact absurd hwaiting (hgrown e he hid).2
    · exact h.waiting e (hothers e he hid) hwaiting
  · intro l' hl' hl'kind
    rcases List.mem_append.mp hl' with hl' | hl'
    · exact h.statusLegs l' hl' hl'kind
    · rw [List.mem_singleton.mp hl'] at hl'kind
      exact absurd hl'kind hkind

end AgentsServer.Exchanges
