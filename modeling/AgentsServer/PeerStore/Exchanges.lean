import AgentsServer.PeerStore.ExchangeChanges
import AgentsServer.PeerStore.Authentication
import Mathlib.Data.List.Chain
import Mathlib.Data.List.MinMax

/-!
# Exchanges as chains

The legs that a run submits to one exchange are one chain, however replies,
revocations, retries and pruning come in between. The rows that are left agree
with the chain, and the same submission is never a second leg of any exchange.
-/

namespace AgentsServer.PeerStore

open Library Ledger

variable {hostServerIdentity : String} {now : Nat} {l l' : Ledger}
  {submitted legs : List RelayEnvelope} {x : RelayExchange} {e : RelayEnvelope}

/-- The legs of one exchange, in order. -/
def legsOf (exchangeId : String) (submitted : List RelayEnvelope) : List RelayEnvelope :=
  submitted.filter fun e => e.exchangeId = exchangeId

/-- One chain: numbered from one without gaps, at most six legs, each an answer to the leg
before it, and no sixth leg that asks for a reply. -/
structure Chained (legs : List RelayEnvelope) : Prop where
  numbered : legs.map RelayEnvelope.usedLegs = List.range' 1 legs.length
  bounded : legs.length ≤ maxRelayLegs
  linked : legs.IsChain Follows
  first : ∀ e ∈ legs.head?, e.parentEnvelopeId = none ∧ e.parentLeg = none
  sixth : ∀ e ∈ legs, e.usedLegs = maxRelayLegs → e.kind ≠ .requestReply

/-- The row of an exchange agrees with its legs: the last of them completes it exactly if it
asks for no reply. -/
structure Ends (x : RelayExchange) (legs : List RelayEnvelope) : Prop where
  used : x.usedLegs = legs.length
  last : ∃ e, legs.getLast? = some e ∧ x.lastEnvelopeId = some e.id ∧
    (x.status = .complete ↔ e.kind ≠ .requestReply)

/-- Two submissions of the same request. -/
def SameRequest (a b : RelayEnvelope) : Prop :=
  a.sourceRouteId = b.sourceRouteId ∧ a.requestId = b.requestId

theorem RelayExchange.close_opened {which : RelayExchange → Bool}
    (h : (x.close which).status = .opened) : x.status = .opened ∧ which x = false := by
  unfold close at h
  split at h
  next => cases h
  next hsel =>
    rw [Bool.and_eq_true, beq_iff_eq, not_and] at hsel
    exact ⟨h, Bool.eq_false_iff.mpr fun hx => hsel hx h⟩

@[simp] theorem RelayExchange.close_expiresAt (which : RelayExchange → Bool) (x : RelayExchange) :
    (x.close which).expiresAt = x.expiresAt := by
  unfold close
  split <;> rfl

/-! ## Chains -/

theorem chained_nil : Chained [] where
  numbered := rfl
  bounded := Nat.zero_le _
  linked := .nil
  first := by simp
  sixth := by simp

theorem Ledger.Opens.chained (h : l.Opens x e) : Chained [e] where
  numbered := by simp [h.leg.1]
  bounded := Nat.le_add_left 1 5
  linked := .singleton e
  first := by simpa using h.leg.2
  sixth := by
    intro f hf hfull
    rw [List.mem_singleton.mp hf, h.leg.1] at hfull
    exact absurd hfull (by decide)

theorem Chained.append {p : RelayEnvelope} (h : Chained legs) (last : legs.getLast? = some p)
    (follows : Follows p e) (number : e.usedLegs = legs.length + 1 ∧ e.usedLegs ≤ maxRelayLegs)
    (sixth : e.usedLegs = maxRelayLegs → e.kind ≠ .requestReply) : Chained (legs ++ [e]) where
  numbered := by
    rw [List.map_append, h.numbered, List.length_append, List.length_singleton,
      List.range'_1_concat, List.map_singleton, number.1, Nat.add_comm]
  bounded := by
    rw [List.length_append, List.length_singleton, ← number.1]
    exact number.2
  linked := by
    refine h.linked.append (.singleton e) ?_
    intro a ha b hb
    rw [last] at ha
    obtain rfl := Option.some.inj ha
    obtain rfl := Option.some.inj hb
    exact follows
  first := by
    have hhead : (legs ++ [e]).head? = legs.head? := by
      cases legs with
      | nil => simp at last
      | cons a rest => rfl
    rw [hhead]
    exact h.first
  sixth := by
    intro f hf
    rcases List.mem_append.mp hf with hf | hf
    · exact h.sixth f hf
    · rw [List.mem_singleton.mp hf]
      exact sixth

theorem Ends.close (h : Ends x legs) (which : RelayExchange → Bool) :
    Ends (x.close which) legs := by
  obtain ⟨hused, f, hlast, hid, hcomplete⟩ := h
  unfold RelayExchange.close
  split
  next hopened =>
    rw [Bool.and_eq_true, beq_iff_eq] at hopened
    refine ⟨hused, f, hlast, hid, ?_⟩
    rw [hopened.2] at hcomplete
    simpa using hcomplete
  next => exact ⟨hused, f, hlast, hid, hcomplete⟩

theorem ends_advance (number : e.usedLegs = legs.length + 1) :
    Ends (x.advance e) (legs ++ [e]) := by
  refine ⟨?_, e, List.getLast?_concat, rfl, ?_⟩
  · rw [List.length_append]
    exact number
  · unfold RelayExchange.advance
    dsimp only
    split <;> simp [*]

theorem advanced_id (x : RelayExchange) (e : RelayEnvelope) (y : RelayExchange) :
    (if y.id = x.id then y.advance e else y).id = y.id := by
  split <;> rfl

@[simp] theorem legsOf_append_self (h : e.exchangeId = x.id) :
    legsOf x.id (submitted ++ [e]) = legsOf x.id submitted ++ [e] := by
  simp [legsOf, h]

theorem legsOf_append_other {exchangeId : String} (h : e.exchangeId ≠ exchangeId) :
    legsOf exchangeId (submitted ++ [e]) = legsOf exchangeId submitted := by
  simp [legsOf, h]

/-! ## The ledger of a run -/

/-- The ledger at a time agrees with all legs that were submitted up to it. -/
structure Sound (now : Nat) (l : Ledger) (submitted : List RelayEnvelope) : Prop where
  ids : (l.exchanges.map RelayExchange.id).Nodup
  legIds : (l.legs.map RelayEnvelope.id).Nodup
  requests : l.legs.Pairwise fun a b => ¬ SameRequest a b
  chained : ∀ exchangeId, Chained (legsOf exchangeId submitted)
  rows : ∀ x ∈ l.exchanges, Ends x (legsOf x.id submitted)
  known : ∀ e ∈ l.legs, e ∈ submitted ∧ ∃ x ∈ l.exchanges, x.id = e.exchangeId
  spans : ∀ x ∈ l.exchanges, x.expiresAt ≤ x.createdAt + maxRelayTtlSeconds ∧
    ∀ e ∈ submitted, e.exchangeId = x.id → x.createdAt ≤ e.createdAt
  opened : ∀ x ∈ l.exchanges, x.status = .opened →
    ∀ e ∈ submitted, e.exchangeId = x.id → e ∈ l.legs
  past : ∀ e ∈ submitted, e.createdAt ≤ now ∧ e.expiresAt ≤ e.createdAt + maxRelayTtlSeconds ∧
    (e ∈ l.legs ∨ e.createdAt + relayTerminalRetentionSeconds < now)
  repeats : submitted.Pairwise fun a b => ¬ (SameRequest a b ∧ a.expiresAt = b.expiresAt)

namespace Sound

theorem start (now : Nat) : Sound now ⟨[], []⟩ [] where
  ids := .nil
  legIds := .nil
  requests := .nil
  chained := fun _ => chained_nil
  rows := by simp
  known := by simp
  spans := by simp
  opened := by simp
  past := by simp
  repeats := .nil

theorem later (h : Sound now l submitted) {after : Nat} (hle : now ≤ after) :
    Sound after l submitted where
  ids := h.ids
  legIds := h.legIds
  requests := h.requests
  chained := h.chained
  rows := h.rows
  known := h.known
  spans := h.spans
  opened := h.opened
  past := by
    intro e he
    obtain ⟨hcreated, hexpires, hkept⟩ := h.past e he
    exact ⟨hcreated.trans hle, hexpires, hkept.imp_right fun hold => hold.trans_le hle⟩
  repeats := h.repeats

theorem close (h : Sound now l submitted) (which : RelayExchange → Bool) :
    Sound now (l.close which) submitted where
  ids := by
    rw [close_ids]
    exact h.ids
  legIds := h.legIds
  requests := h.requests
  chained := h.chained
  rows := by
    intro x hx
    obtain ⟨old, hold, rfl⟩ := List.mem_map.mp hx
    rw [RelayExchange.close_id]
    exact (h.rows old hold).close which
  known := by
    intro e he
    obtain ⟨hsubmitted, x, hx, hid⟩ := h.known e he
    exact ⟨hsubmitted, x.close which, List.mem_map_of_mem hx, (x.close_id which).trans hid⟩
  spans := by
    intro x hx
    obtain ⟨old, hold, rfl⟩ := List.mem_map.mp hx
    have hspan := h.spans old hold
    unfold RelayExchange.close
    split <;> exact hspan
  opened := by
    intro x hx hopened e he hid
    obtain ⟨old, hold, rfl⟩ := List.mem_map.mp hx
    rw [RelayExchange.close_id] at hid
    exact h.opened old hold (RelayExchange.close_opened hopened).1 e he hid
  past := h.past
  repeats := h.repeats

/-- Pruning keeps the legs of every exchange that is still open: none of them is as old as
the retention. -/
theorem prune (h : Sound now l submitted) (hpruned : l.Pruned now l') :
    Sound now l' submitted where
  ids := hpruned.unique h.ids
  legIds := h.legIds.sublist (hpruned.legs.map _)
  requests := h.requests.sublist hpruned.legs
  chained := h.chained
  rows := fun x hx => (h.close _).rows x (hpruned.exchanges.subset hx)
  known := by
    intro e he
    obtain ⟨hsubmitted, x, hx, hid⟩ := (h.close fun x => decide (x.expiresAt ≤ now)).known e
      (hpruned.legs.subset he)
    exact ⟨hsubmitted, x, hpruned.owned x hx e he hid.symm, hid⟩
  spans := fun x hx => (h.close _).spans x (hpruned.exchanges.subset hx)
  opened := by
    intro x hx hopened e he hid
    have hmem := hpruned.exchanges.subset hx
    obtain hkept | hold := hpruned.legKept e ((h.close _).opened x hmem hopened e he hid)
    · exact hkept
    · obtain ⟨hbounded, hafter⟩ := (h.close _).spans x hmem
      have hcreated := hafter e he hid
      obtain ⟨old, -, rfl⟩ := List.mem_map.mp hmem
      have hdue := (RelayExchange.close_opened hopened).2
      have hwindow : maxRelayTtlSeconds ≤ relayTerminalRetentionSeconds := by decide
      rw [decide_eq_false_iff_not] at hdue
      have hsame : (old.close fun x => decide (x.expiresAt ≤ now)).expiresAt = old.expiresAt :=
        RelayExchange.close_expiresAt _ old
      omega
  past := by
    intro e he
    obtain ⟨hcreated, hexpires, hkept⟩ := h.past e he
    exact ⟨hcreated, hexpires, hkept.elim (hpruned.legKept e) .inr⟩
  repeats := h.repeats

/-! ### A new leg -/

section NewLeg

variable {call : HostCall} (h : Sound now l submitted) (hnew : l.Submitted now call e)

include h hnew

theorem legIds_append : ((l.legs ++ [e]).map RelayEnvelope.id).Nodup := by
  rw [List.map_append, List.map_singleton]
  refine List.nodup_append.mpr ⟨h.legIds, List.nodup_singleton _, ?_⟩
  intro a ha b hb
  obtain ⟨old, hold, rfl⟩ := List.mem_map.mp ha
  rw [List.mem_singleton.mp hb]
  exact hnew.fresh old hold

theorem requests_append : (l.legs ++ [e]).Pairwise fun a b => ¬ SameRequest a b := by
  refine List.pairwise_append.mpr ⟨h.requests, List.pairwise_singleton _ _, ?_⟩
  intro a ha b hb
  rw [List.mem_singleton.mp hb]
  exact hnew.unused a ha

theorem past_append : ∀ f ∈ submitted ++ [e], f.createdAt ≤ now ∧
    f.expiresAt ≤ f.createdAt + maxRelayTtlSeconds ∧
    (f ∈ l.legs ++ [e] ∨ f.createdAt + relayTerminalRetentionSeconds < now) := by
  intro f hf
  rcases List.mem_append.mp hf with hf | hf
  · obtain ⟨hcreated, hexpires, hkept⟩ := h.past f hf
    exact ⟨hcreated, hexpires, hkept.imp_left (List.mem_append_left _)⟩
  · rw [List.mem_singleton.mp hf]
    refine ⟨hnew.created.le, ?_, .inl (List.mem_append_right _ (List.mem_singleton_self e))⟩
    rw [hnew.created]
    exact hnew.expires.2

/-- A request that is still recorded is not submitted again, and one that is not recorded any
more has expired. -/
theorem repeats_append :
    (submitted ++ [e]).Pairwise fun a b => ¬ (SameRequest a b ∧ a.expiresAt = b.expiresAt) := by
  refine List.pairwise_append.mpr ⟨h.repeats, List.pairwise_singleton _ _, ?_⟩
  intro a ha b hb
  rw [List.mem_singleton.mp hb]
  rintro ⟨hsame, hexpires⟩
  obtain ⟨-, hbounded, hkept | hold⟩ := h.past a ha
  · exact hnew.unused a hkept hsame
  · have hafter := hnew.expires.1
    have hwindow : maxRelayTtlSeconds ≤ relayTerminalRetentionSeconds := by decide
    omega

end NewLeg

theorem begins {call : HostCall} (h : Sound now l submitted) (hnew : l.Submitted now call e)
    (hopens : l.Opens x e) (hfresh : ∀ f ∈ submitted, f.exchangeId ≠ x.id) :
    Sound now ⟨l.exchanges ++ [x.advance e], l.legs ++ [e]⟩ (submitted ++ [e]) := by
  have hnone : legsOf x.id submitted = [] := by
    rw [legsOf, List.filter_eq_nil_iff]
    intro f hf
    simp [hfresh f hf]
  have hother : ∀ y ∈ l.exchanges, e.exchangeId ≠ y.id := by
    intro y hy hid
    exact hopens.unknown y hy (hid.symm.trans hopens.names)
  refine ⟨?_, h.legIds_append hnew, h.requests_append hnew, ?_, ?_, ?_, ?_, ?_,
    h.past_append hnew, h.repeats_append hnew⟩
  · rw [List.map_append, List.map_singleton]
    refine List.nodup_append.mpr ⟨h.ids, List.nodup_singleton _, ?_⟩
    intro a ha b hb
    obtain ⟨old, hold, rfl⟩ := List.mem_map.mp ha
    rw [List.mem_singleton.mp hb]
    exact hopens.unknown old hold
  · intro exchangeId
    by_cases hid : e.exchangeId = exchangeId
    · obtain rfl : exchangeId = x.id := hid.symm.trans hopens.names
      rw [legsOf_append_self hid, hnone]
      exact hopens.chained
    · rw [legsOf_append_other hid]
      exact h.chained exchangeId
  · intro y hy
    rcases List.mem_append.mp hy with hy | hy
    · rw [legsOf_append_other (hother y hy)]
      exact h.rows y hy
    · rw [List.mem_singleton.mp hy]
      change Ends (x.advance e) (legsOf x.id (submitted ++ [e]))
      rw [legsOf_append_self hopens.names, hnone]
      exact ends_advance hopens.leg.1
  · intro f hf
    rcases List.mem_append.mp hf with hf | hf
    · obtain ⟨hsubmitted, y, hy, hid⟩ := h.known f hf
      exact ⟨List.mem_append_left _ hsubmitted, y, List.mem_append_left _ hy, hid⟩
    · rw [List.mem_singleton.mp hf]
      exact ⟨List.mem_append_right _ (List.mem_singleton_self e), x.advance e,
        List.mem_append_right _ (List.mem_singleton_self _), hopens.names.symm⟩
  · intro y hy
    rcases List.mem_append.mp hy with hy | hy
    · refine ⟨(h.spans y hy).1, ?_⟩
      intro f hf hid
      rcases List.mem_append.mp hf with hf | hf
      · exact (h.spans y hy).2 f hf hid
      · rw [List.mem_singleton.mp hf] at hid
        exact absurd hid (hother y hy)
    · rw [List.mem_singleton.mp hy]
      change x.expiresAt ≤ x.createdAt + maxRelayTtlSeconds ∧
        ∀ f ∈ submitted ++ [e], f.exchangeId = x.id → x.createdAt ≤ f.createdAt
      refine ⟨?_, ?_⟩
      · rw [hopens.times.1, hopens.times.2, hnew.created]
        exact hnew.expires.2
      · intro f hf hid
        rcases List.mem_append.mp hf with hf | hf
        · exact absurd hid (hfresh f hf)
        · rw [List.mem_singleton.mp hf]
          exact hopens.times.1.le
  · intro y hy hopened f hf hid
    rcases List.mem_append.mp hf with hf | hf
    · rcases List.mem_append.mp hy with hy | hy
      · exact List.mem_append_left _ (h.opened y hy hopened f hf hid)
      · rw [List.mem_singleton.mp hy] at hid
        exact absurd hid (hfresh f hf)
    · exact List.mem_append_right _ hf

/-- The leg that a new leg answers is the last of its chain. -/
theorem answered {p : RelayEnvelope} (h : Sound now l submitted) (hnext : l.Continues x p e) :
    (legsOf x.id submitted).getLast? = some p := by
  obtain ⟨-, t, hlast, hid, -⟩ := h.rows x hnext.row.1
  have hmem : t ∈ submitted ∧ t.exchangeId = x.id := by
    simpa [legsOf] using List.mem_of_getLast? hlast
  have hkept := h.opened x hnext.row.1 hnext.row.2.1 t hmem.1 hmem.2
  have hsame : t.id = p.id := by
    rw [hnext.row.2.2] at hid
    exact (Option.some.inj hid).symm
  rw [hlast, Tables.eq_of_key h.legIds hkept hnext.parent.1 hsame]

theorem continues {call : HostCall} {p : RelayEnvelope} (h : Sound now l submitted)
    (hnew : l.Submitted now call e) (hnext : l.Continues x p e) :
    Sound now ⟨l.exchanges.map fun y => if y.id = x.id then y.advance e else y, l.legs ++ [e]⟩
      (submitted ++ [e]) := by
  have hlast := h.answered hnext
  have hnumber : e.usedLegs = (legsOf x.id submitted).length + 1 := by
    rw [hnext.leg.1, (h.rows x hnext.row.1).used]
  have hid := advanced_id x e
  have hspan : ∀ y : RelayExchange, (if y.id = x.id then y.advance e else y).createdAt =
      y.createdAt ∧ (if y.id = x.id then y.advance e else y).expiresAt = y.expiresAt := by
    intro y
    split <;> exact ⟨rfl, rfl⟩
  refine ⟨?_, h.legIds_append hnew, h.requests_append hnew, ?_, ?_, ?_, ?_, ?_,
    h.past_append hnew, h.repeats_append hnew⟩
  · rw [List.map_map]
    exact (List.map_congr_left fun y _ => hid y).symm ▸ h.ids
  · intro exchangeId
    by_cases hown : e.exchangeId = exchangeId
    · obtain rfl : exchangeId = x.id := hown.symm.trans hnext.names
      rw [legsOf_append_self hown]
      exact (h.chained x.id).append hlast hnext.follows ⟨hnumber, hnext.leg.2⟩ hnext.last
    · rw [legsOf_append_other hown]
      exact h.chained exchangeId
  · intro z hz
    obtain ⟨y, hy, rfl⟩ := List.mem_map.mp hz
    rw [hid]
    split
    next hsame =>
      rw [hsame, legsOf_append_self hnext.names]
      exact ends_advance hnumber
    next hother =>
      rw [legsOf_append_other fun hown => hother (hown.symm.trans hnext.names)]
      exact h.rows y hy
  · intro f hf
    rcases List.mem_append.mp hf with hf | hf
    · obtain ⟨hsubmitted, y, hy, hown⟩ := h.known f hf
      exact ⟨List.mem_append_left _ hsubmitted, _, List.mem_map_of_mem hy, (hid y).trans hown⟩
    · rw [List.mem_singleton.mp hf]
      exact ⟨List.mem_append_right _ (List.mem_singleton_self e), _,
        List.mem_map_of_mem hnext.row.1, (hid x).trans hnext.names.symm⟩
  · intro z hz
    obtain ⟨y, hy, rfl⟩ := List.mem_map.mp hz
    rw [hid, (hspan y).1, (hspan y).2]
    refine ⟨(h.spans y hy).1, ?_⟩
    intro f hf hown
    rcases List.mem_append.mp hf with hf | hf
    · exact (h.spans y hy).2 f hf hown
    · -- the exchange is not younger than its last leg, which is not younger than the new one
      rw [List.mem_singleton.mp hf] at hown ⊢
      have hsame := Tables.eq_of_key h.ids hy hnext.row.1 (hown.symm.trans hnext.names)
      have hmem : p ∈ submitted ∧ p.exchangeId = x.id := by
        simpa [legsOf] using List.mem_of_getLast? hlast
      calc
        y.createdAt = x.createdAt := congrArg RelayExchange.createdAt hsame
        _ ≤ p.createdAt := (h.spans x hnext.row.1).2 p hmem.1 hmem.2
        _ ≤ now := (h.past p hmem.1).1
        _ = e.createdAt := hnew.created.symm
  · intro z hz hopened f hf hown
    rcases List.mem_append.mp hf with hf | hf
    · obtain ⟨y, hy, rfl⟩ := List.mem_map.mp hz
      rw [hid] at hown
      refine List.mem_append_left _ ?_
      by_cases hsame : y.id = x.id
      · exact h.opened x hnext.row.1 hnext.row.2.1 f hf (hown.trans hsame)
      · rw [if_neg hsame] at hopened
        exact h.opened y hy hopened f hf hown
    · exact List.mem_append_right _ hf

end Sound

/-! ## Runs -/

/-- The legs that a change of the ledger adds. -/
def Ledger.added (l l' : Ledger) : List RelayEnvelope := l'.legs.filter fun e => e ∉ l.legs

theorem Ledger.added_append {call : HostCall} (hpruned : l.Pruned now l')
    (hnew : l'.Submitted now call e) (xs : List RelayExchange) :
    l.added ⟨xs, l'.legs ++ [e]⟩ = [e] := by
  have hfresh : e ∉ l.legs := by
    intro he
    obtain hkept | hold := hpruned.legKept e he
    · exact hnew.fresh e hkept rfl
    · have hcreated := hnew.created
      omega
  have hnone : l'.legs.filter (fun f => f ∉ l.legs) = [] := by
    rw [List.filter_eq_nil_iff]
    intro f hf
    simpa using hpruned.legs.subset hf
  unfold added
  rw [List.filter_append, hnone]
  simp [hfresh]

theorem Ledger.added_none (hsub : ∀ f ∈ l'.legs, f ∈ l.legs) : l.added l' = [] := by
  rw [added, List.filter_eq_nil_iff]
  intro f hf
  simpa using hsub f hf

/-- One call at a time not before the last. The id it draws for an exchange is new. -/
theorem Turn.sound {call : HostCall} (h : Sound now l submitted) (hturn : Turn now call l l')
    (hfresh : ∀ exchangeId, call.drawnExchange = some exchangeId →
      ∀ f ∈ submitted, f.exchangeId ≠ exchangeId) : Sound now l' (submitted ++ l.added l') := by
  cases hturn with
  | rest =>
      rw [added_none fun _ hf => hf, List.append_nil]
      exact h
  | @close which =>
      have hnone : l.added (l.close which) = [] := added_none fun _ hf => hf
      rw [hnone, List.append_nil]
      exact h.close which
  | prune hpruned =>
      rw [added_none fun _ hf => hpruned.legs.subset hf, List.append_nil]
      exact h.prune hpruned
  | begins hpruned hnew hopens hdraws =>
      rw [added_append hpruned hnew]
      exact (h.prune hpruned).begins hnew hopens (hfresh _ hdraws)
  | continues hpruned hnew hnext =>
      rw [added_append hpruned hnew]
      exact (h.prune hpruned).continues hnew hnext

/-- A new leg is in the exchange that its call draws, or in one that has a leg. -/
theorem Turn.added_exchange {call : HostCall} (h : Sound now l submitted)
    (hturn : Turn now call l l') : ∀ f ∈ l.added l', call.drawnExchange = some f.exchangeId ∨
      ∃ g ∈ submitted, g.exchangeId = f.exchangeId := by
  cases hturn with
  | rest => simp [added_none]
  | close => simp [added_none, Ledger.close]
  | prune hpruned => simp [added_none fun _ hf => hpruned.legs.subset hf]
  | begins hpruned hnew hopens hdraws =>
      rw [added_append hpruned hnew]
      intro f hf
      rw [List.mem_singleton.mp hf, hopens.names]
      exact .inl hdraws
  | continues hpruned hnew hnext =>
      rw [added_append hpruned hnew]
      intro f hf
      rw [List.mem_singleton.mp hf, hnext.names]
      exact .inr ⟨_, ((h.prune hpruned).known _ hnext.parent.1).1, hnext.parent.2⟩

/-- A new leg carries the request of its call. -/
theorem Turn.added_sent {call : HostCall} (hturn : Turn now call l l') :
    ∀ f ∈ l.added l', ∃ payload, call.payload = some payload ∧
      f.sourceRouteId = payload.sourceRouteId ∧ f.requestId = payload.requestId ∧
      (f.expiresAt : Int) = payload.expiresAt := by
  cases hturn with
  | rest => simp [added_none]
  | close => simp [added_none, Ledger.close]
  | prune hpruned => simp [added_none fun _ hf => hpruned.legs.subset hf]
  | begins hpruned hnew =>
      rw [added_append hpruned hnew]
      simpa using hnew.sent
  | continues hpruned hnew =>
      rw [added_append hpruned hnew]
      simpa using hnew.sent

theorem Turn.unique {call : HostCall} (hturn : Turn now call l l')
    (h : (l.exchanges.map RelayExchange.id).Nodup) : (l'.exchanges.map RelayExchange.id).Nodup := by
  cases hturn with
  | rest => exact h
  | close =>
      rw [close_ids]
      exact h
  | prune hpruned => exact hpruned.unique h
  | begins hpruned _ hopens =>
      rw [List.map_append, List.map_singleton]
      refine List.nodup_append.mpr ⟨hpruned.unique h, List.nodup_singleton _, ?_⟩
      intro a ha b hb
      obtain ⟨old, hold, rfl⟩ := List.mem_map.mp ha
      rw [List.mem_singleton.mp hb]
      exact hopens.unknown old hold
  | continues hpruned =>
      rw [List.map_map]
      refine (List.map_congr_left fun y _ => ?_).symm ▸ hpruned.unique h
      exact advanced_id ..

section Run

variable [Sha256] [CertificateEncoding]

/-- The legs that an event adds. -/
def legsAdded (hostServerIdentity : String) (event : HostEvent) : List RelayEnvelope :=
  event.before.db.ledger.added (step hostServerIdentity event.before event.action).1.db.ledger

/-- The legs that a run submits, in order. -/
def submittedLegs (hostServerIdentity : String) (epoch : Nat) (acts : List (HostCall × Nat)) :
    List RelayEnvelope :=
  (Runs.history (step hostServerIdentity) (Host.start epoch) acts).flatMap
    (legsAdded hostServerIdentity)

theorem submittedLegs_append (epoch : Nat) (acts : List (HostCall × Nat)) (act : HostCall × Nat) :
    submittedLegs hostServerIdentity epoch (acts ++ [act]) =
      submittedLegs hostServerIdentity epoch acts ++ legsAdded hostServerIdentity
        (Runs.eventAfter (step hostServerIdentity) (Host.start epoch) acts act) := by
  simp [submittedLegs, Runs.history_append, Runs.eventAfter]

theorem run_sound (hostServerIdentity : String) (epoch : Nat) (acts : List (HostCall × Nat))
    (clock : (acts.map Prod.snd).Pairwise (· ≤ ·))
    (fresh : (acts.filterMap fun act => act.1.drawnExchange).Nodup) :
    (∀ now, (∀ act ∈ acts, act.2 ≤ now) →
      Sound now (Runs.run (step hostServerIdentity) (Host.start epoch) acts).db.ledger
        (submittedLegs hostServerIdentity epoch acts)) ∧
    ∀ e ∈ submittedLegs hostServerIdentity epoch acts,
      e.exchangeId ∈ acts.filterMap fun act => act.1.drawnExchange := by
  induction acts using List.reverseRecOn with
  | nil => exact ⟨fun now _ => Sound.start now, by simp [submittedLegs]⟩
  | append_singleton acts act ih =>
      rw [List.map_append, List.pairwise_append] at clock
      rw [List.filterMap_append, List.nodup_append] at fresh
      obtain ⟨hsound, hdrawn⟩ := ih clock.1 fresh.1
      have hpast : ∀ earlier ∈ acts, earlier.2 ≤ act.2 := fun earlier h =>
        clock.2.2 _ (List.mem_map_of_mem h) _ (by simp)
      have hbefore := hsound act.2 hpast
      have hturn := step_turn hostServerIdentity
        (Runs.run (step hostServerIdentity) (Host.start epoch) acts) act hbefore.ids
      have hafter := hturn.sound hbefore fun exchangeId hdraws f hf hid =>
        fresh.2.2 _ (hdrawn f hf) exchangeId (by simp [hdraws]) hid
      rw [submittedLegs_append, Runs.run_append]
      refine ⟨?_, ?_⟩
      · intro now hnow
        exact hafter.later (hnow act (by simp))
      · intro f hf
        rw [List.filterMap_append, List.mem_append]
        rcases List.mem_append.mp hf with hf | hf
        · exact .inl (hdrawn f hf)
        · obtain hdraws | ⟨g, hg, hid⟩ := hturn.added_exchange hbefore f hf
          · exact .inr (by simp [hdraws])
          · exact .inl (hid ▸ hdrawn g hg)

/-- In every run the legs of each exchange are one chain, the rows agree with it, and the same
submission adds a leg at most once. -/
theorem legs_form_chains (hostServerIdentity : String) (epoch : Nat) (acts : List (HostCall × Nat))
    (clock : (acts.map Prod.snd).Pairwise (· ≤ ·))
    (fresh : (acts.filterMap fun act => act.1.drawnExchange).Nodup) :
    let after := Runs.run (step hostServerIdentity) (Host.start epoch) acts
    let submitted := submittedLegs hostServerIdentity epoch acts
    (∀ exchangeId, Chained (legsOf exchangeId submitted)) ∧
      (∀ x ∈ after.db.exchanges, Ends x (legsOf x.id submitted)) ∧
      (∀ e ∈ after.db.envelopes, e.release .queued ∈ submitted ∧
        ∃ x ∈ after.db.exchanges, x.id = e.exchangeId) ∧
      after.db.envelopes.Pairwise (fun a b => ¬ SameRequest a b) ∧
      (Runs.history (step hostServerIdentity) (Host.start epoch) acts).Pairwise fun e f =>
        ∀ payload, e.action.1.payload = some payload → f.action.1.payload = some payload →
          legsAdded hostServerIdentity e = [] ∨ legsAdded hostServerIdentity f = [] := by
  obtain ⟨last, hlast⟩ : ∃ last, ∀ act ∈ acts, act.2 ≤ last :=
    ⟨(acts.map Prod.snd).foldr max 0, fun act h => List.le_max_of_le' 0 (List.mem_map_of_mem h) le_rfl⟩
  have hsound := (run_sound hostServerIdentity epoch acts clock fresh).1 last hlast
  refine ⟨hsound.chained, hsound.rows, ?_, ?_, ?_⟩
  · intro e he
    exact hsound.known _ (List.mem_map_of_mem he)
  · exact List.pairwise_map.mp hsound.requests
  · have hpairs := (List.pairwise_flatMap.mp hsound.repeats).2
    have hsent : ∀ event ∈ Runs.history (step hostServerIdentity) (Host.start epoch) acts,
        ∀ f ∈ legsAdded hostServerIdentity event, ∃ payload,
          event.action.1.payload = some payload ∧ f.sourceRouteId = payload.sourceRouteId ∧
            f.requestId = payload.requestId ∧ (f.expiresAt : Int) = payload.expiresAt :=
      Runs.history_forall (step hostServerIdentity)
        (I := fun h => (h.db.exchanges.map RelayExchange.id).Nodup)
        (fun h act hunique => (step_turn hostServerIdentity h act hunique).unique hunique)
        (fun h act hunique => (step_turn hostServerIdentity h act hunique).added_sent) (Host.start epoch) .nil acts
    refine hpairs.imp_of_mem ?_
    intro e f he hf hdistinct payload hpe hpf
    by_contra hboth
    rw [not_or] at hboth
    obtain ⟨a, ha⟩ := List.exists_mem_of_ne_nil _ hboth.1
    obtain ⟨b, hb⟩ := List.exists_mem_of_ne_nil _ hboth.2
    obtain ⟨_, hpa, hroute, hrequest, hexpires⟩ := hsent e he a ha
    obtain ⟨_, hpb, hroute', hrequest', hexpires'⟩ := hsent f hf b hb
    obtain rfl := Option.some.inj (hpe.symm.trans hpa)
    obtain rfl := Option.some.inj (hpf.symm.trans hpb)
    apply hdistinct a ha b hb
    exact ⟨⟨hroute.trans hroute'.symm, hrequest.trans hrequest'.symm⟩, by omega⟩

end Run

/-! ## A question and its answer -/

section Reply

attribute [local instance] zeroDigest serialFingerprint

def relayUuid (last : Char) : String :=
  "00000000-0000-4000-8000-00000000000" ++ String.singleton last

def relayRevision (last : Char) : String := "rev_0000000000000000000000000000000" ++ String.singleton last

def relayRoute (last : Char) : RouteDescriptor where
  routeId := relayUuid last
  revision := relayRevision last
  routeAlias := "main"
  displayTitle := "Main"
  actions := ["request_reply"]

def relayCaller : PeerAuthorization :=
  { caller with scopes := [.crossChatRequestReply], crossChatGrantEpoch := some 1 }

def relayPairing : NormalizedPairing :=
  { pairingOf with requestedScopes := [.crossChatRequestReply], sameKey := rfl }

def question : EnvelopePayload where
  requestId := relayUuid '6'
  sourceRouteId := relayUuid '4'
  targetRouteId := relayUuid '5'
  targetRouteRevision := relayRevision '5'
  kind := .requestReply
  exchangeId := none
  parentEnvelopeId := none
  expiresAt := 1000
  message := "Is it done?"

def answer : EnvelopePayload where
  requestId := relayUuid '7'
  sourceRouteId := relayUuid '5'
  targetRouteId := relayUuid '4'
  targetRouteRevision := relayRevision '4'
  kind := .response
  exchangeId := some (relayUuid '8')
  parentEnvelopeId := some (relayUuid '9')
  expiresAt := 1000
  message := "Yes."

/-- A peer is admitted and asks; the answer is sent twice. -/
def conversation : List (HostCall × Nat) :=
  [(.submitPairing relayPairing pairingUuid 0 false, 0),
   (.approvePairing pairingUuid "team-one" ["cross_chat.request_reply"] "owner-one" "server-two"
      transcript renewalUuid true ⟨peerUuid, 1, fun _ => ""⟩, 0),
   (.authenticatePeer (issueClientCertificate "key one" ⟨1, peerUuid, pairingUuid, "server-two",
      "team-one", [.crossChatRequestReply], transcript⟩ 1 0) false, 1),
   (.publishPeerRoute relayCaller (relayRoute '4') true false, 2),
   (.publishLocalRoute "team-one" peerUuid "chat-one" (relayRoute '5') (relayUuid 'a') "owner-one"
      true false, 3),
   (.submitEnvelope (.peer relayCaller) question (relayUuid '9') (relayUuid '8') true false, 4),
   (.submitEnvelope (.host "team-one" (relayUuid '5')) answer (relayUuid 'b') "" true false, 5),
   (.submitEnvelope (.host "team-one" (relayUuid '5')) answer (relayUuid 'c') "" true false, 6)]

theorem legs_form_chains_conversation :
    (∀ exchangeId, Chained (legsOf exchangeId (submittedLegs "server-one" 1 conversation))) ∧
      (Runs.history (step "server-one") (Host.start 1) conversation).Pairwise fun e f =>
        ∀ payload, e.action.1.payload = some payload → f.action.1.payload = some payload →
          legsAdded "server-one" e = [] ∨ legsAdded "server-one" f = [] := by
  obtain ⟨hchained, -, -, -, honce⟩ :=
    legs_form_chains "server-one" 1 conversation (by decide) (by decide)
  exact ⟨hchained, honce⟩

end Reply

end AgentsServer.PeerStore
