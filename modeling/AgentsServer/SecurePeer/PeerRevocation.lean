import AgentsServer.SecurePeer.HubAdapter

/-!
# Revoking a peer is a barrier

The count of a peer is the number of its admitted, unreleased requests and streams, its
tokens are those of the subscriptions under way, and a live lease is in the table. While
the fence of a peer is up nothing of the peer is admitted, so what a revocation saw
drained is still drained when it returns, unless the fence was lifted in between.
-/

namespace AgentsServer.SecurePeer

open Library Threads

namespace Adapter

variable {a a' : Adapter} {peer : String} {now : ℚ} {write attachment : Bool}

theorem charge_same (a : Adapter) (peer : String) (now : ℚ) (limits : List (RateKind × Nat)) :
    (a.charge peer now limits).1 =
      { a with rateEvents := (a.charge peer now limits).1.rateEvents } := by
  induction limits generalizing a with
  | nil => rfl
  | cons head rest ih =>
      obtain ⟨kind, limit⟩ := head
      simp only [charge]
      split
      · rfl
      · rw [ih]

theorem charge_eq {limits : List (RateKind × Nat)} {ok : Bool}
    (h : a.charge peer now limits = (a', ok)) : a' = { a with rateEvents := a'.rateEvents } := by
  have hsame := charge_same a peer now limits
  rw [h] at hsame
  exact hsame

/-- A refused admission changes only the rate events. -/
theorem admitRequest_refused {e : HubError} (h : a.admitRequest peer now write attachment = (a', some e)) :
    a' = { a with rateEvents := a'.rateEvents } := by
  unfold admitRequest at h
  split at h
  · cases h
    rfl
  · split at h
    · cases h
      rfl
    · split at h
      next charged hcharge =>
        cases h
        exact charge_eq hcharge
      next => cases h

/-- An admission needs a lowered fence, and counts. -/
theorem admitRequest_admitted (h : a.admitRequest peer now write attachment = (a', none)) :
    a.revoking peer = false ∧ a' = { a with
      rateEvents := a'.rateEvents
      inFlight := Function.update a.inFlight peer (a.inFlight peer + 1) } := by
  unfold admitRequest at h
  split at h
  · cases h
  · rename_i hfence
    refine ⟨by simpa using hfence, ?_⟩
    split at h
    · cases h
    · split at h
      next => cases h
      next charged hcharge =>
        cases h
        rw [charge_eq hcharge]

theorem reserve_refused {e : HubError} (h : a.reserve peer = (a', some e)) : a' = a := by
  unfold reserve at h
  split at h
  · cases h
    rfl
  · split at h
    · cases h
      rfl
    · cases h

theorem reserve_reserved (h : a.reserve peer = (a', none)) :
    a.revoking peer = false ∧ a' = { a with
      mailLeases := a.mailLeases ++ [(peer, .token a.nextObject)]
      nextObject := a.nextObject + 1 } := by
  unfold reserve at h
  split at h
  · cases h
  · rename_i hfence
    split at h
    · cases h
    · cases h
      exact ⟨by simpa using hfence, rfl⟩

theorem hints_eq_nil : a.hints peer = [] ↔ ∀ e ∈ a.mailLeases, e.1 ≠ peer := by
  simp [hints]

theorem mem_registered {n : Nat} (h : n ∈ a.registered peer) :
    (peer, Member.lease n) ∈ a.mailLeases := by
  simp only [registered, hints, List.mem_filterMap, List.mem_map, List.mem_filter,
    decide_eq_true_eq] at h
  obtain ⟨member, ⟨entry, ⟨hmem, hpeer⟩, hmember⟩, hlease⟩ := h
  cases member with
  | token k => cases hlease
  | lease k =>
      cases hlease
      rw [← hpeer, ← hmember]
      exact hmem

end Adapter

theorem HintLease.live_eq_false {l : HintLease} :
    l.live = false ↔ l.closed = true ∧ l.writer ≠ .writing := by
  simp [HintLease.live]

/-- What a section does to the admissions, the table and the leases. -/
inductive Effect (a : Adapter) : Call → Adapter → Call → Prop where
  /-- the counts, the table, the leases and the fences stay -/
  | still (t t' a') : a'.inFlight = a.inFlight → a'.mailLeases = a.mailLeases →
      a'.leases = a.leases → a'.revoking = a.revoking → a.nextObject ≤ a'.nextObject →
      (∀ p, t'.holds p = t.holds p) →
      (∀ p k, t'.subscribing p k = t.subscribing p k) → Effect a t a' t'
  | admitted (peer t events t') : a.revoking peer = false →
      (∀ p, t.holds p = false) → (∀ p k, t.subscribing p k = false) →
      (∀ p, t'.holds p = (peer == p)) → (∀ p k, t'.subscribing p k = false) →
      Effect a t { a with
        rateEvents := events
        inFlight := Function.update a.inFlight peer (a.inFlight peer + 1) } t'
  | released (peer) : Effect a (.releasing peer) (a.release peer) .done
  | reserved (peer) : a.revoking peer = false →
      Effect a (.subscribe peer) { a with
        mailLeases := a.mailLeases ++ [(peer, .token a.nextObject)]
        nextObject := a.nextObject + 1 } (.reserved peer a.nextObject)
  | registered (peer token) : Effect a (.leased peer token) (a.register peer token)
      (.registered peer a.nextObject)
  | unsubscribed (peer token) : Effect a (.unsubscribing peer token)
      (a.discard peer (.token token)) .done
  /-- a lease changes, and once it is dead it stays dead -/
  | lease (t lease l l' t') : a.leases lease = some l → l'.peer = l.peer →
      (l.closed = true → l'.closed = true) → (l.live = false → l'.live = false) →
      (∀ p, t.holds p = false) → (∀ p k, t.subscribing p k = false) →
      (∀ p, t'.holds p = false) → (∀ p k, t'.subscribing p k = false) →
      Effect a t (a.setLease lease l') t'
  | retired (lease l closer) : a.leases lease = some l →
      Effect a (.retireHint lease closer) (a.discard l.peer (.lease lease)) closer.resume
  | fenced (peer) : Effect a (.revoke peer) (a.fence peer) (.fenced peer)
  | lifted (peer ok t') : (∀ p, t'.holds p = false) → (∀ p k, t'.subscribing p k = false) →
      Effect a (.lifting peer ok) (a.lift peer) t'

@[simp] theorem Closer.resume_holds (c : Closer) (p : String) : c.resume.holds p = false := by
  cases c <;> rfl

@[simp] theorem Closer.resume_subscribing (c : Closer) (p : String) (k : Nat) :
    c.resume.subscribing p k = false := by
  cases c <;> rfl

theorem proceed_effect {x : Outside} {a a' : Adapter} {t t' : Call}
    (h : proceed x a t = some (a', t')) : Effect a t a' t' := by
  -- a section that moves the call only
  have still : ∀ {t₁ : Call}, some (a, t₁) = some (a', t') →
      (∀ p, t₁.holds p = t.holds p) → (∀ p k, t₁.subscribing p k = t.subscribing p k) →
      Effect a t a' t' := by
    intro t₁ heq hholds hsub
    obtain ⟨rfl, rfl⟩ := Prod.mk.inj (Option.some.inj heq)
    exact .still _ _ _ rfl rfl rfl rfl (Nat.le_refl _) hholds hsub
  -- a writer that does not send keeps a dead lease dead
  have leaves : ∀ {l : HintLease} {writer : Writer}, writer ≠ .writing → l.live = false →
      ({ l with writer := writer } : HintLease).live = false := by
    intro l writer hwriter hlive
    exact HintLease.live_eq_false.mpr ⟨(HintLease.live_eq_false.mp hlive).1, hwriter⟩
  cases t with
  | request peer write | attachment peer write =>
      simp only [proceed] at h
      split at h
      next a₁ hadmit =>
        cases h
        obtain ⟨hfence, ha⟩ := Adapter.admitRequest_admitted hadmit
        rw [ha]
        exact .admitted peer _ _ _ hfence (fun _ => rfl) (fun _ _ => rfl) (fun _ => rfl)
          (fun _ _ => rfl)
      next a₁ e hadmit =>
        cases h
        rw [Adapter.admitRequest_refused hadmit]
        exact .still _ _ _ rfl rfl rfl rfl (Nat.le_refl _) (fun _ => rfl) (fun _ _ => rfl)
  | releasing peer =>
      cases h
      exact .released peer
  | opened peer =>
      simp only [proceed] at h
      split at h
      · exact still h (fun _ => rfl) (fun _ _ => rfl)
      · cases h
        exact .still _ _ _ rfl rfl rfl rfl (Nat.le_succ _) (fun _ => rfl) (fun _ _ => rfl)
  | finalizing peer abort =>
      cases h
      exact .still _ _ _ rfl rfl rfl rfl (Nat.le_refl _) (fun _ => rfl) (fun _ _ => rfl)
  | subscribe peer =>
      simp only [proceed] at h
      split at h
      next a₁ hreserve =>
        cases h
        obtain ⟨hfence, ha⟩ := Adapter.reserve_reserved hreserve
        rw [ha]
        exact .reserved peer hfence
      next a₁ e hreserve =>
        cases h
        rw [Adapter.reserve_refused hreserve]
        exact .still _ _ _ rfl rfl rfl rfl (Nat.le_refl _) (fun _ => rfl) (fun _ _ => rfl)
  | leased peer token =>
      cases h
      exact .registered peer token
  | unsubscribing peer token =>
      cases h
      exact .unsubscribed peer token
  | retireHint lease closer =>
      simp only [proceed] at h
      split at h
      next => cases h
      next l hl =>
        cases h
        exact .retired lease l closer hl
  | authorized peer lease =>
      simp only [proceed] at h
      split at h
      next => cases h
      next l hl =>
        split at h
        · exact still h (fun _ => rfl) (fun _ _ => rfl)
        · cases h
          exact .lease _ _ l _ _ hl rfl id id (fun _ => rfl) (fun _ _ => rfl)
            (fun _ => rfl) (fun _ _ => rfl)
  | closeHint lease closer =>
      simp only [proceed] at h
      split at h
      next => cases h
      next l hl =>
        split at h
        · cases h
        · cases h
          refine .lease _ _ l _ _ hl rfl (fun _ => rfl) ?_ (fun _ => rfl) (fun _ _ => rfl)
            (fun _ => rfl) (fun _ _ => rfl)
          intro hlive
          exact HintLease.live_eq_false.mpr ⟨rfl, (HintLease.live_eq_false.mp hlive).2⟩
  | takeHint lease closer =>
      simp only [proceed] at h
      split at h
      next => cases h
      next l hl =>
        split at h
        · cases h
          exact .lease _ _ l _ _ hl rfl id id (fun _ => rfl) (fun _ _ => rfl)
            (fun _ => rfl) (fun _ _ => rfl)
        · exact still h (fun _ => closer.resume_holds _) (fun _ _ => closer.resume_subscribing _ _)
  | enterWriter lease =>
      simp only [proceed] at h
      split at h
      next => cases h
      next l hl =>
        split at h
        · cases h
          exact .lease _ _ l _ _ hl rfl id (leaves (by decide)) (fun _ => rfl)
            (fun _ _ => rfl) (fun _ => rfl) (fun _ _ => rfl)
        · cases h
  | validateWriter lease =>
      simp only [proceed] at h
      split at h
      next => cases h
      next l hl =>
        split at h
        · cases h
          exact .lease _ _ l _ _ hl rfl id (leaves (by decide)) (fun _ => rfl)
            (fun _ _ => rfl) (fun _ => rfl) (fun _ _ => rfl)
        · exact still h (fun _ => rfl) (fun _ _ => rfl)
  | validatedWriter lease =>
      simp only [proceed] at h
      split at h
      next => cases h
      next l hl =>
        split at h
        · cases h
          exact .lease _ _ l _ _ hl rfl id (leaves (by decide)) (fun _ => rfl)
            (fun _ _ => rfl) (fun _ => rfl) (fun _ _ => rfl)
        · rename_i hopen
          cases h
          refine .lease _ _ l _ _ hl rfl id ?_ (fun _ => rfl) (fun _ _ => rfl) (fun _ => rfl)
            (fun _ _ => rfl)
          intro hlive
          exact absurd (HintLease.live_eq_false.mp hlive).1 hopen
  | writingHint lease =>
      simp only [proceed] at h
      split at h
      next => cases h
      next l hl =>
        cases h
        exact .lease _ _ l _ _ hl rfl id (leaves (by decide)) (fun _ => rfl)
          (fun _ _ => rfl) (fun _ => rfl) (fun _ _ => rfl)
  | revoke peer =>
      cases h
      exact .fenced peer
  | closingHints peer todo =>
      cases todo with
      | nil => exact still h (fun _ => rfl) (fun _ _ => rfl)
      | cons lease rest => exact still h (fun _ => rfl) (fun _ _ => rfl)
  | aborting peer todo =>
      cases todo with
      | nil => exact still h (fun _ => rfl) (fun _ _ => rfl)
      | cons abort rest =>
          cases h
          exact .still _ _ _ rfl rfl rfl rfl (Nat.le_refl _) (fun _ => rfl) (fun _ _ => rfl)
  | lifting peer ok =>
      cases h
      cases ok with
      | true => exact .lifted peer _ _ (fun _ => rfl) (fun _ _ => rfl)
      | false => exact .lifted peer _ _ (fun _ => rfl) (fun _ _ => rfl)
  | settleHint lease closer =>
      simp only [proceed] at h
      split at h
      next => cases h
      next l hl =>
        split at h
        · exact still h (fun _ => rfl) (fun _ _ => rfl)
        · cases h
  | serving | streaming | fenced | waiting | drained =>
      exact still h (fun _ => rfl) (fun _ _ => rfl)
  | opening | reserved | registered | awaitingHints | draining =>
      simp only [proceed] at h
      split at h
      all_goals first
        | exact still h (fun _ => rfl) (fun _ _ => rfl)
        | cases h
  | revoked | done => cases h

section Counters

def Adapter.inFlightOf (peer : String) (a : Adapter) : Int := a.inFlight peer

/-- How often the token is in the table. -/
def Adapter.tokens (peer : String) (token : Nat) (a : Adapter) : Int :=
  a.mailLeases.count (peer, .token token)

variable {a a' : Adapter} {t t' : Call}

theorem Effect.holds_balanced (h : Effect a t a' t') (p : String)
    (held : t.holds p = true → 1 ≤ a.inFlight p) :
    a'.inFlight p + (if t.holds p then 1 else 0) =
      a.inFlight p + (if t'.holds p then 1 else 0) := by
  cases h with
  | still _ _ _ hin _ _ _ _ hholds => rw [hin, hholds]
  | admitted peer _ _ _ _ hleft _ hreached =>
      rw [hleft, hreached]
      by_cases hp : peer = p
      · subst hp
        simp
      · simp [hp, Function.update_of_ne (Ne.symm hp)]
  | released peer =>
      by_cases hp : peer = p
      · subst hp
        have hone := held (by simp [Call.holds])
        simp only [Adapter.release, Function.update_self, Call.holds, beq_self_eq_true, if_true]
        split
        · simp
        · simp
          omega
      · simp [Adapter.release, Call.holds, hp, Function.update_of_ne (Ne.symm hp)]
  | reserved peer => simp [Call.holds]
  | registered peer token => simp [Call.holds, Adapter.register]
  | unsubscribed peer token => simp [Call.holds, Adapter.discard]
  | lease _ _ _ _ _ _ _ _ _ hleft _ hreached => simp [hleft, hreached, Adapter.setLease]
  | retired _ _ closer =>
      rw [closer.resume_holds]
      rfl
  | fenced => rfl
  | lifted _ _ _ hreached =>
      rw [hreached]
      rfl

theorem Effect.tokens_balanced (h : Effect a t a' t') (p : String) (k : Nat)
    (held : t.subscribing p k = true → 1 ≤ a.tokens p k) :
    a'.tokens p k + (if t.subscribing p k then 1 else 0) =
      a.tokens p k + (if t'.subscribing p k then 1 else 0) := by
  -- a subscription gives its token back
  have discard : ∀ (peer : String) (token : Nat), (peer = p ∧ token = k → 1 ≤ a.tokens p k) →
      ((a.mailLeases.erase (peer, .token token)).count (p, .token k) : Int) +
        (if peer == p && token == k then 1 else 0) = a.tokens p k := by
    intro peer token hone
    unfold Adapter.tokens at hone ⊢
    rw [List.count_erase]
    by_cases hp : peer = p ∧ token = k
    · have := hone hp
      obtain ⟨rfl, rfl⟩ := hp
      simp
      omega
    · have hne : ¬ (peer == p && token == k) = true := by simpa using hp
      have hne' : ((peer, Member.token token) == (p, Member.token k)) = false := by
        simpa using hp
      rw [if_neg hne, hne']
      simp
  cases h with
  | still _ _ _ _ htable _ _ _ _ hsub => simp [Adapter.tokens, htable, hsub]
  | admitted _ _ _ _ _ _ hleft _ hreached => simp [hleft, hreached, Adapter.tokens]
  | released peer => simp [Call.subscribing, Adapter.tokens, Adapter.release]
  | reserved peer =>
      simp only [Adapter.tokens, List.count_append, List.count_singleton, Call.subscribing]
      by_cases hp : peer = p ∧ a.nextObject = k
      · obtain ⟨rfl, rfl⟩ := hp
        simp
      · simp [hp]
  | registered peer token =>
      have hgive := discard peer token fun hp =>
        held (by simp [Call.subscribing, hp])
      simp only [Adapter.tokens, Adapter.register, List.count_append, Call.subscribing] at hgive ⊢
      simpa using hgive
  | unsubscribed peer token =>
      have hgive := discard peer token fun hp =>
        held (by simp [Call.subscribing, hp])
      simp only [Adapter.tokens, Adapter.discard, Call.subscribing] at hgive ⊢
      simpa using hgive
  | lease _ _ _ _ _ _ _ _ _ _ hleft _ hreached =>
      simp [hleft, hreached, Adapter.setLease, Adapter.tokens]
  | retired lease l closer =>
      rw [closer.resume_subscribing]
      simp [Adapter.discard, Adapter.tokens, Call.subscribing]
  | fenced => rfl
  | lifted _ _ _ _ hreached =>
      rw [hreached]
      rfl

end Counters

/-- The count of a peer is the number of its admitted, unreleased requests and streams,
and a token is in the table as often as a subscription holds it. -/
structure Accounted (w : Hub) : Prop where
  holds : ∀ p, Exact (Adapter.inFlightOf p) (Call.holds p) w
  tokens : ∀ p k, Exact (Adapter.tokens p k) (Call.subscribing p k) w

theorem Call.start_idle {t : Call} (h : t.start = true) (p : String) (k : Nat) :
    t.holds p = false ∧ t.subscribing p k = false := by
  cases t <;> first | exact ⟨rfl, rfl⟩ | cases h

theorem Accounted.start : Accounted Hub.start := ⟨fun _ => rfl, fun _ _ => rfl⟩

theorem Accounted.step (w : Hub) (m : Move Call Outside) (h : Accounted w) :
    Accounted (advance w m).1 where
  holds p := Exact.step (Adapter.inFlightOf p) (Call.holds p)
    (fun _ ht => (Call.start_idle ht p 0).1)
    (fun _ _ _ _ _ hc held _ => (proceed_effect hc).holds_balanced p held) w m (h.holds p)
  tokens p k := Exact.step (Adapter.tokens p k) (Call.subscribing p k)
    (fun _ ht => (Call.start_idle ht p k).2)
    (fun _ _ _ _ _ hc held _ => (proceed_effect hc).tokens_balanced p k held) w m
    (h.tokens p k)

section Leases

/-- The leases of the table exist, and a live lease is in the table. -/
structure Sound (a : Adapter) : Prop where
  fresh : ∀ n, a.nextObject ≤ n → a.leases n = none
  live : ∀ lease l, a.leases lease = some l → l.live = true →
    (l.peer, Member.lease lease) ∈ a.mailLeases
  owned : ∀ p lease, (p, Member.lease lease) ∈ a.mailLeases →
    ∃ l, a.leases lease = some l ∧ l.peer = p

/-- The lease exists and is the peer's. -/
def Owned (a : Adapter) (p : String) (lease : Nat) : Prop :=
  ∃ l, a.leases lease = some l ∧ l.peer = p

def Closer.relies (a : Adapter) (lease : Nat) : Closer → Prop
  | .revocation p rest => Owned a p lease ∧ ∀ n ∈ rest, Owned a p n
  | _ => True

/-- What a call relies on: a close that is past the cancellation has a closed lease, past
the wait for the writer a dead one, and a revocation closes the leases of its peer. -/
def Call.relies (a : Adapter) : Call → Prop
  | .closingHints p todo => ∀ n ∈ todo, Owned a p n
  | .closeHint lease c => c.relies a lease
  | .settleHint lease c =>
      (∃ l, a.leases lease = some l ∧ l.closed = true) ∧ c.relies a lease
  | .takeHint lease c | .retireHint lease c =>
      (∃ l, a.leases lease = some l ∧ l.live = false) ∧ c.relies a lease
  | _ => True

/-- A lease keeps its peer, stays closed and stays dead. -/
def Ages (a a' : Adapter) : Prop :=
  ∀ lease l, a.leases lease = some l → ∃ l', a'.leases lease = some l' ∧ l'.peer = l.peer ∧
    (l.closed = true → l'.closed = true) ∧ (l.live = false → l'.live = false)

variable {a a' : Adapter} {t t' : Call}

theorem Ages.of_eq (h : a'.leases = a.leases) : Ages a a' := by
  intro lease l hl
  exact ⟨l, by rw [h, hl], rfl, id, id⟩

theorem Effect.ages (h : Effect a t a' t') (hsound : Sound a) : Ages a a' := by
  cases h with
  | still _ _ _ _ _ hleases => exact Ages.of_eq hleases
  | admitted => exact Ages.of_eq rfl
  | released => exact Ages.of_eq rfl
  | reserved => exact Ages.of_eq rfl
  | registered peer token =>
      intro lease l hl
      have hne : lease ≠ a.nextObject := by
        rintro rfl
        rw [hsound.fresh _ (Nat.le_refl _)] at hl
        cases hl
      exact ⟨l, by simp [Adapter.register, Function.update_of_ne hne, hl], rfl, id, id⟩
  | unsubscribed => exact Ages.of_eq rfl
  | lease _ lease l l' _ hl hpeer hclosed hlive =>
      intro n ln hn
      by_cases hne : n = lease
      · subst hne
        cases hl.symm.trans hn
        exact ⟨l', by simp [Adapter.setLease], hpeer, hclosed, hlive⟩
      · exact ⟨ln, by simp [Adapter.setLease, Function.update_of_ne hne, hn], rfl, id, id⟩
  | retired => exact Ages.of_eq rfl
  | fenced => exact Ages.of_eq rfl
  | lifted => exact Ages.of_eq rfl

theorem Owned.ages (h : Ages a a') {p : String} {n : Nat} (howned : Owned a p n) :
    Owned a' p n := by
  obtain ⟨l, hl, hp⟩ := howned
  obtain ⟨l', hl', hpeer, -⟩ := h n l hl
  exact ⟨l', hl', hpeer.trans hp⟩

theorem Closer.relies_ages (h : Ages a a') {lease : Nat} {c : Closer}
    (hc : c.relies a lease) : c.relies a' lease := by
  cases c with
  | revocation p rest => exact ⟨hc.1.ages h, fun n hn => (hc.2 n hn).ages h⟩
  | transport => trivial
  | subscriber => trivial

theorem Call.relies_ages (h : Ages a a') (ht : t.relies a) : t.relies a' := by
  have dead : ∀ {lease : Nat}, (∃ l, a.leases lease = some l ∧ l.live = false) →
      ∃ l, a'.leases lease = some l ∧ l.live = false := by
    rintro lease ⟨l, hl, hdead⟩
    obtain ⟨l', hl', -, -, hstays⟩ := h lease l hl
    exact ⟨l', hl', hstays hdead⟩
  cases t with
  | closingHints p todo => exact fun n hn => (ht n hn).ages h
  | closeHint lease c => exact Closer.relies_ages h ht
  | settleHint lease c =>
      obtain ⟨⟨l, hl, hclosed⟩, hc⟩ := ht
      obtain ⟨l', hl', -, hstays, -⟩ := h lease l hl
      exact ⟨⟨l', hl', hstays hclosed⟩, Closer.relies_ages h hc⟩
  | takeHint lease c => exact ⟨dead ht.1, Closer.relies_ages h ht.2⟩
  | retireHint lease c => exact ⟨dead ht.1, Closer.relies_ages h ht.2⟩
  | _ => trivial

theorem Closer.resume_relies {lease : Nat} {c : Closer} (hc : c.relies a lease) :
    c.resume.relies a := by
  cases c with
  | revocation p rest => exact hc.2
  | transport => trivial
  | subscriber => trivial

/-- A section establishes what the call relies on next. -/
theorem proceed_relies {x : Outside} (h : proceed x a t = some (a', t')) (hsound : Sound a)
    (ht : t.relies a) : t'.relies a' := by
  have hages := (proceed_effect h).ages hsound
  cases t with
  | fenced peer =>
      cases h
      exact fun n hn => hsound.owned peer n (Adapter.mem_registered hn)
  | closingHints peer todo =>
      cases todo with
      | nil =>
          cases h
          trivial
      | cons lease rest =>
          cases h
          exact ⟨ht lease List.mem_cons_self, fun n hn => ht n (List.mem_cons_of_mem _ hn)⟩
  | closeHint lease closer =>
      simp only [proceed] at h
      split at h
      next => cases h
      next l hl =>
        split at h
        · cases h
        · cases h
          exact ⟨⟨_, Function.update_self .., rfl⟩, Closer.relies_ages hages ht⟩
  | settleHint lease closer =>
      obtain ⟨⟨l, hl, hclosed⟩, hc⟩ := ht
      simp only [proceed, hl] at h
      split at h
      · rename_i hidle
        cases h
        refine ⟨⟨l, hl, ?_⟩, hc⟩
        rw [HintLease.live_eq_false, hidle]
        exact ⟨hclosed, by decide⟩
      · cases h
  | takeHint lease closer =>
      obtain ⟨⟨l, hl, hdead⟩, hc⟩ := ht
      simp only [proceed, hl] at h
      split at h
      · cases h
        exact ⟨⟨_, Function.update_self .., hdead⟩, Closer.relies_ages hages hc⟩
      · cases h
        exact Closer.resume_relies hc
  | retireHint lease closer =>
      obtain ⟨⟨l, hl, hdead⟩, hc⟩ := ht
      simp only [proceed, hl] at h
      cases h
      exact Closer.resume_relies (Closer.relies_ages hages hc)
  | lifting peer ok =>
      cases h
      cases ok <;> trivial
  | aborting peer todo =>
      cases todo <;>
        · cases h
          trivial
  | serving | releasing | streaming | finalizing | leased | unsubscribing | revoke | waiting
  | drained =>
      cases h
      trivial
  | request | attachment | subscribe | opening | opened | reserved | registered | authorized
  | enterWriter | validateWriter | validatedWriter | writingHint | awaitingHints | draining =>
      simp only [proceed] at h
      repeat' split at h
      all_goals
        cases h
        try trivial
  | revoked | done => cases h

/-- A section keeps the leases sound. A retired lease was dead. -/
theorem Effect.sound (h : Effect a t a' t') (hsound : Sound a) (ht : t.relies a) : Sound a' := by
  cases h with
  | still _ _ _ _ htable hleases _ hnext =>
      refine ⟨?_, ?_, ?_⟩
      · intro n hn
        rw [hleases]
        exact hsound.fresh n (Nat.le_trans hnext hn)
      · intro lease l hl
        rw [htable]
        rw [hleases] at hl
        exact hsound.live lease l hl
      · intro p lease hmem
        rw [hleases]
        rw [htable] at hmem
        exact hsound.owned p lease hmem
  | admitted => exact ⟨hsound.fresh, hsound.live, hsound.owned⟩
  | released => exact ⟨hsound.fresh, hsound.live, hsound.owned⟩
  | reserved peer =>
      refine ⟨fun n hn => hsound.fresh n (by exact Nat.le_of_succ_le hn), ?_, ?_⟩
      · intro lease l hl hlive
        exact List.mem_append_left _ (hsound.live lease l hl hlive)
      · intro p lease hmem
        rcases List.mem_append.mp hmem with hmem | hmem
        · exact hsound.owned p lease hmem
        · simp at hmem
  | registered peer token =>
      refine ⟨?_, ?_, ?_⟩
      · intro n hn
        have hlt : a.nextObject < n := hn
        simp only [Adapter.register, Function.update_of_ne (Nat.ne_of_gt hlt)]
        exact hsound.fresh n (Nat.le_of_lt hlt)
      · intro lease l hl hlive
        apply List.mem_append.mpr
        by_cases hne : lease = a.nextObject
        · subst hne
          right
          simp only [Adapter.register, Function.update_self, Option.some.injEq] at hl
          rw [← hl]
          exact List.mem_singleton.mpr rfl
        · left
          simp only [Adapter.register, Function.update_of_ne hne] at hl
          exact (List.mem_erase_of_ne (by simp)).mpr (hsound.live lease l hl hlive)
      · intro p lease hmem
        rcases List.mem_append.mp hmem with hmem | hmem
        · have hmem' := List.mem_of_mem_erase hmem
          obtain ⟨l, hl, hp⟩ := hsound.owned p lease hmem'
          have hne : lease ≠ a.nextObject := by
            rintro rfl
            rw [hsound.fresh _ (Nat.le_refl _)] at hl
            cases hl
          exact ⟨l, by simp [Adapter.register, Function.update_of_ne hne, hl], hp⟩
        · obtain ⟨rfl, hlease⟩ := Prod.mk.inj (List.mem_singleton.mp hmem)
          cases hlease
          exact ⟨_, Function.update_self .., rfl⟩
  | unsubscribed peer token =>
      refine ⟨hsound.fresh, ?_, ?_⟩
      · intro lease l hl hlive
        exact (List.mem_erase_of_ne (by simp)).mpr (hsound.live lease l hl hlive)
      · intro p lease hmem
        exact hsound.owned p lease (List.mem_of_mem_erase hmem)
  | lease _ lease l l' _ hl hpeer hclosed hdead =>
      refine ⟨?_, ?_, ?_⟩
      · intro n hn
        have hne : n ≠ lease := by
          rintro rfl
          rw [hsound.fresh _ hn] at hl
          cases hl
        simp only [Adapter.setLease, Function.update_of_ne hne]
        exact hsound.fresh n hn
      · intro n ln hn hlive
        by_cases hne : n = lease
        · subst hne
          simp only [Adapter.setLease, Function.update_self, Option.some.injEq] at hn
          subst hn
          rw [hpeer]
          apply hsound.live n l hl
          by_contra hnot
          rw [hdead (by simpa using hnot)] at hlive
          cases hlive
        · simp only [Adapter.setLease, Function.update_of_ne hne] at hn
          exact hsound.live n ln hn hlive
      · intro p n hmem
        obtain ⟨ln, hn, hp⟩ := hsound.owned p n hmem
        by_cases hne : n = lease
        · subst hne
          cases hl.symm.trans hn
          exact ⟨l', by simp [Adapter.setLease], hpeer.trans hp⟩
        · exact ⟨ln, by simp [Adapter.setLease, Function.update_of_ne hne, hn], hp⟩
  | retired lease l closer hl =>
      obtain ⟨⟨l₀, hl₀, hdead⟩, -⟩ := ht
      cases hl.symm.trans hl₀
      refine ⟨hsound.fresh, ?_, ?_⟩
      · intro n ln hn hlive
        refine (List.mem_erase_of_ne ?_).mpr (hsound.live n ln hn hlive)
        rintro heq
        cases (Prod.mk.inj heq).2
        cases hl.symm.trans hn
        rw [hdead] at hlive
        cases hlive
      · intro p n hmem
        exact hsound.owned p n (List.mem_of_mem_erase hmem)
  | fenced => exact ⟨hsound.fresh, hsound.live, hsound.owned⟩
  | lifted => exact ⟨hsound.fresh, hsound.live, hsound.owned⟩

end Leases

/-- What holds of an adapter and its calls in every reachable state. -/
structure Kept (w : Hub) : Prop where
  accounted : Accounted w
  reliable : Reliable Sound Call.relies w

theorem Kept.start : Kept Hub.start where
  accounted := Accounted.start
  reliable := by
    refine ⟨⟨fun _ _ => rfl, ?_, ?_⟩, ?_⟩
    · intro lease l hl
      cases hl
    · intro p lease hmem
      cases hmem
    · intro t ht
      cases ht

theorem Call.start_relies (a : Adapter) {t : Call} (h : t.start = true) : t.relies a := by
  cases t with
  | closeHint lease c =>
      cases c with
      | transport => trivial
      | subscriber => cases h
      | revocation => cases h
  | closingHints => cases h
  | settleHint => cases h
  | takeHint => cases h
  | retireHint => cases h
  | _ => trivial

theorem Kept.step (w : Hub) (m : Move Call Outside) (h : Kept w) : Kept (advance w m).1 where
  accounted := Accounted.step w m h.accounted
  reliable := Reliable.step Sound Call.relies (fun a _ => Call.start_relies a)
    (fun _ _ _ _ _ hc hsound ht =>
      ⟨(proceed_effect hc).sound hsound ht, proceed_relies hc hsound ht⟩)
    (fun _ _ _ _ _ _ hc hsound _ hu => Call.relies_ages ((proceed_effect hc).ages hsound) hu)
    w m h.reliable

/-- No request, stream or subscription of the peer is in flight. -/
structure Idle (p : String) (w : Hub) : Prop where
  requests : ∀ t ∈ w.threads, t.holds p = false
  subscriptions : ∀ t ∈ w.threads, ∀ k, t.subscribing p k = false
  leases : ∀ lease l, w.shared.leases lease = some l → l.peer = p → l.live = false

/-- The table of leases has no entry of the peer. -/
def NoHints (p : String) (a : Adapter) : Prop := ∀ e ∈ a.mailLeases, e.1 ≠ p

/-- An empty table and a zero count leave nothing of the peer in flight. -/
theorem Kept.idle {p : String} {w : Hub} (h : Kept w) (hhints : NoHints p w.shared)
    (hcount : w.shared.inFlight p = 0) : Idle p w where
  requests := (h.accounted.holds p).zero_iff.mp hcount
  subscriptions := by
    intro t ht k
    apply (h.accounted.tokens p k).zero_iff.mp _ t ht
    simp only [Adapter.tokens, Int.natCast_eq_zero]
    exact List.count_eq_zero.mpr fun hmem => hhints _ hmem rfl
  leases := by
    intro lease l hl hp
    by_contra hlive
    have hmem := h.reliable.shared.live lease l hl (by simpa using hlive)
    exact hhints _ hmem hp

section Fence

variable {a a' : Adapter} {t t' : Call} {p : String}

/-- Under the fence of a peer nothing of the peer is admitted. -/
theorem Effect.not_admitted (h : Effect a t a' t') (fence : a.revoking p = true) :
    (t.holds p = false → t'.holds p = false) ∧
      ((∀ k, t.subscribing p k = false) → ∀ k, t'.subscribing p k = false) := by
  cases h with
  | still _ _ _ _ _ _ _ _ hholds hsub =>
      exact ⟨fun hleft => (hholds p).trans hleft, fun hleft k => (hsub p k).trans (hleft k)⟩
  | admitted peer _ _ _ hopen _ _ hreached hsub =>
      refine ⟨fun _ => ?_, fun _ => hsub p⟩
      rw [hreached, beq_eq_false_iff_ne]
      rintro rfl
      rw [fence] at hopen
      cases hopen
  | released => exact ⟨fun _ => rfl, fun _ _ => rfl⟩
  | reserved peer hopen =>
      refine ⟨fun _ => rfl, fun _ k => ?_⟩
      have hne : peer ≠ p := by
        rintro rfl
        rw [fence] at hopen
        cases hopen
      simp [Call.subscribing, hne]
  | registered => exact ⟨fun _ => rfl, fun _ _ => rfl⟩
  | unsubscribed => exact ⟨fun _ => rfl, fun _ _ => rfl⟩
  | lease _ _ _ _ _ _ _ _ _ _ _ hholds hsub => exact ⟨fun _ => hholds p, fun _ => hsub p⟩
  | retired _ _ closer =>
      exact ⟨fun _ => closer.resume_holds p, fun _ => closer.resume_subscribing p⟩
  | fenced => exact ⟨fun _ => rfl, fun _ _ => rfl⟩
  | lifted _ _ _ hholds hsub => exact ⟨fun _ => hholds p, fun _ => hsub p⟩

theorem Effect.fence_kept (h : Effect a t a' t') (fence : a.revoking p = true)
    (stay : ∀ ok, t ≠ .lifting p ok) : a'.revoking p = true := by
  cases h with
  | still _ _ _ _ _ _ hfence => rw [hfence, fence]
  | fenced peer =>
      by_cases hp : p = peer
      · subst hp
        exact Function.update_self ..
      · simp [Adapter.fence, Function.update_of_ne hp, fence]
  | lifted peer ok =>
      have hp : p ≠ peer := by
        rintro rfl
        exact stay ok rfl
      simp [Adapter.lift, Function.update_of_ne hp, fence]
  | _ => exact fence

/-- Under the fence no entry of the peer comes into an empty table. A lease could only
come in for a token. -/
theorem Effect.noHints_kept (h : Effect a t a' t') (fence : a.revoking p = true)
    (token : ∀ k, t.subscribing p k = true → (p, Member.token k) ∈ a.mailLeases)
    (hints : NoHints p a) : NoHints p a' := by
  cases h with
  | still _ _ _ _ htable =>
      unfold NoHints
      rw [htable]
      exact hints
  | reserved peer hopen =>
      intro e he
      rcases List.mem_append.mp he with he | he
      · exact hints e he
      · rw [List.mem_singleton.mp he]
        rintro rfl
        rw [fence] at hopen
        cases hopen
  | registered peer token' =>
      intro e he
      rcases List.mem_append.mp he with he | he
      · exact hints e (List.mem_of_mem_erase he)
      · rw [List.mem_singleton.mp he]
        rintro rfl
        exact hints _ (token token' (by simp [Call.subscribing])) rfl
  | unsubscribed => exact fun e he => hints e (List.mem_of_mem_erase he)
  | retired => exact fun e he => hints e (List.mem_of_mem_erase he)
  | _ => exact hints

theorem Effect.count_kept (h : Effect a t a' t') (fence : a.revoking p = true)
    (held : t.holds p = true → 1 ≤ a.inFlight p) (hzero : a.inFlight p = 0) :
    a'.inFlight p = 0 := by
  have hleft : t.holds p = false := by
    by_contra hholds
    have := held (by simpa using hholds)
    omega
  have hbalance := h.holds_balanced p held
  rw [hleft, (h.not_admitted fence).1 hleft] at hbalance
  simpa [hzero] using hbalance

/-- What a revocation has seen drained when it stands at a point. -/
def Call.passed (p : String) (a : Adapter) : Call → Prop
  | .draining q | .aborting q _ | .waiting q => q = p → NoHints p a
  | .drained q | .lifting q _ => q = p → NoHints p a ∧ a.inFlight p = 0
  | _ => True

theorem Call.passed_kept (hhints : NoHints p a → NoHints p a')
    (hcount : a.inFlight p = 0 → a'.inFlight p = 0) (h : t.passed p a) : t.passed p a' := by
  cases t with
  | draining => exact fun hq => hhints (h hq)
  | aborting => exact fun hq => hhints (h hq)
  | waiting => exact fun hq => hhints (h hq)
  | drained => exact fun hq => ⟨hhints (h hq).1, hcount (h hq).2⟩
  | lifting => exact fun hq => ⟨hhints (h hq).1, hcount (h hq).2⟩
  | _ => trivial

theorem Closer.resume_passed (c : Closer) : c.resume.passed p a := by
  cases c <;> trivial

/-- A revocation goes on only past what it has seen drained. -/
theorem proceed_passed {x : Outside} (h : proceed x a t = some (a', t'))
    (hnonneg : 0 ≤ a.inFlight p) (ht : t.passed p a) : t'.passed p a' := by
  cases t with
  | awaitingHints peer =>
      simp only [proceed] at h
      split at h
      · rename_i hempty
        cases h
        rintro rfl
        exact Adapter.hints_eq_nil.mp hempty
      · cases h
  | draining peer =>
      simp only [proceed] at h
      split at h
      · rename_i hzero
        cases h
        rintro rfl
        exact ⟨ht rfl, by omega⟩
      · cases h
        exact ht
  | aborting peer todo =>
      cases todo with
      | nil =>
          cases h
          exact ht
      | cons abort rest =>
          cases h
          exact ht
  | waiting peer =>
      cases h
      exact ht
  | drained peer =>
      cases h
      exact ht
  | lifting peer ok =>
      cases h
      cases ok <;> trivial
  | closingHints peer todo =>
      cases todo <;>
        · cases h
          trivial
  | serving | releasing | streaming | finalizing | leased | unsubscribing | revoke | fenced =>
      cases h
      trivial
  | takeHint lease closer =>
      simp only [proceed] at h
      repeat' split at h
      · cases h
      · cases h
        trivial
      · cases h
        exact closer.resume_passed
  | retireHint lease closer =>
      simp only [proceed] at h
      split at h
      · cases h
      · cases h
        exact closer.resume_passed
  | request | attachment | subscribe | opening | opened | reserved | registered | authorized
  | closeHint | settleHint | enterWriter | validateWriter | validatedWriter | writingHint =>
      simp only [proceed] at h
      repeat' split at h
      all_goals
        cases h
        try trivial
  | revoked | done => cases h

end Fence

/-- One event of a run, with the state after it. -/
abbrev Event := Runs.Event Hub (Move Call Outside) (Option (Turn Call))

namespace Event

variable (e : Event)

def after : Hub := (advance e.before e.action).1

/-- The call that the event moves. -/
def Moves (i : Nat) (left reached : Call) : Prop :=
  (∃ x, e.action = .turn i x) ∧ e.outcome = some ⟨left, reached⟩

/-- The revocation `i` raises the fence of the peer. -/
def Fences (i : Nat) (p : String) : Prop := e.Moves i (.revoke p) (.fenced p)

/-- The revocation `i` of the peer returns. -/
def RevokeReturns (i : Nat) (p : String) : Prop := e.Moves i (.lifting p true) (.revoked p)

/-- Some revocation of the peer ends, and with it the fence. -/
def Lifts (p : String) : Prop :=
  ∃ r, e.outcome = some r ∧ ∃ ok, r.left = .lifting p ok

/-- A request, a stream or a subscription of the peer is admitted. -/
def Admits (p : String) : Prop :=
  ∃ r, e.outcome = some r ∧
    ((r.left.holds p = false ∧ r.reached.holds p = true) ∨
      ((∀ k, r.left.subscribing p k = false) ∧ ∃ k, r.reached.subscribing p k = true))

end Event

section Runs

variable {w : Hub} {move : Move Call Outside} {p : String} {i : Nat}

/-- The event of one move. -/
def eventAt (w : Hub) (move : Move Call Outside) : Event := ⟨w, move, (advance w move).2⟩

/-- The fence of the peer is up, and the revocation `i` has seen drained what it passed. -/
def Fenced (i : Nat) (p : String) (w : Hub) : Prop :=
  w.shared.revoking p = true ∧ ∃ t, w.threads[i]? = some t ∧ t.passed p w.shared

theorem fences_fenced (h : (eventAt w move).Fences i p) : Fenced i p (advance w move).1 := by
  obtain ⟨⟨x, hmove⟩, hout⟩ := h
  obtain ⟨j, input, a', hj, ht, hc, hw⟩ := step_turn hout
  change move = _ at hmove
  rw [hj] at hmove
  cases hmove
  cases hc
  unfold advance
  rw [hw]
  obtain ⟨hlt, -⟩ := List.getElem?_eq_some_iff.mp ht
  exact ⟨Function.update_self .., .fenced p, List.getElem?_set_self hlt, trivial⟩

/-- A raised fence stays, and what was seen drained stays drained, unless the event lifts
the fence. -/
theorem Fenced.step (hkept : Kept w) (h : Fenced i p w)
    (hstay : ¬ (eventAt w move).Lifts p) : Fenced i p (advance w move).1 := by
  obtain ⟨fence, t, ht, hpassed⟩ := h
  have hmoves := step_moves Call.start proceed w move
  change Moves Call.start proceed w move (advance w move).1 (eventAt w move).outcome at hmoves
  generalize hw : (advance w move).1 = w' at hmoves
  generalize hout : (eventAt w move).outcome = o at hmoves
  cases hmoves with
  | idle => exact ⟨fence, t, ht, hpassed⟩
  | call u hu =>
      refine ⟨fence, t, ?_, hpassed⟩
      obtain ⟨hlt, -⟩ := List.getElem?_eq_some_iff.mp ht
      rw [List.getElem?_append_left hlt]
      exact ht
  | turn j x u a' u' hu hc =>
      have hmem := mem_of_getElem? hu
      have heffect := proceed_effect hc
      have hheld := (hkept.accounted.holds p).held hmem
      have htoken : ∀ k, u.subscribing p k = true →
          (p, Member.token k) ∈ w.shared.mailLeases := by
        intro k hk
        have hone := (hkept.accounted.tokens p k).held hmem hk
        unfold Adapter.tokens at hone
        exact List.count_pos_iff.mp (by omega)
      have hlift : ∀ ok, u ≠ .lifting p ok := by
        rintro ok rfl
        exact hstay ⟨_, hout, ok, rfl⟩
      refine ⟨heffect.fence_kept fence hlift, ?_⟩
      by_cases hij : j = i
      · subst hij
        cases ht.symm.trans hu
        obtain ⟨hlt, -⟩ := List.getElem?_eq_some_iff.mp hu
        refine ⟨u', List.getElem?_set_self hlt, ?_⟩
        exact proceed_passed hc (hkept.accounted.holds p).nonneg hpassed
      · refine ⟨t, by rw [List.getElem?_set_ne hij]; exact ht, ?_⟩
        exact Call.passed_kept (heffect.noHints_kept fence htoken)
          (heffect.count_kept fence hheld) hpassed

/-- Under the fence of the peer no event admits anything of it. -/
theorem fence_refuses (fence : w.shared.revoking p = true) : ¬ (eventAt w move).Admits p := by
  rintro ⟨r, hout, hadmits⟩
  obtain ⟨j, x, a', -, -, hc, -⟩ := step_turn hout
  obtain ⟨hholds, hsub⟩ := (proceed_effect hc).not_admitted fence
  rcases hadmits with ⟨hleft, hreached⟩ | ⟨hleft, k, hreached⟩
  · rw [hholds hleft] at hreached
    cases hreached
  · rw [hsub hleft k] at hreached
    cases hreached

theorem revokeReturns_idle (hkept : Kept w) (hfenced : Fenced i p w)
    (h : (eventAt w move).RevokeReturns i p) : Idle p (advance w move).1 := by
  have hkept' := Kept.step w move hkept
  obtain ⟨⟨x, hmove⟩, hout⟩ := h
  obtain ⟨j, input, a', hj, ht, hc, hw⟩ := step_turn hout
  change move = _ at hmove
  rw [hj] at hmove
  cases hmove
  obtain ⟨-, t, ht', hpassed⟩ := hfenced
  cases ht.symm.trans ht'
  obtain ⟨hhints, hcount⟩ := hpassed rfl
  apply hkept'.idle
  · unfold advance
    rw [hw]
    cases hc
    exact hhints
  · unfold advance
    rw [hw]
    cases hc
    exact hcount

end Runs

section Others

/-- What the adapter keeps for a peer is the same. -/
structure Untouched (q : String) (a a' : Adapter) : Prop where
  rateEvents : a'.rateEvents q = a.rateEvents q
  inFlight : a'.inFlight q = a.inFlight q
  revoking : a'.revoking q = a.revoking q
  streamAborters : a'.aborters q = a.aborters q
  mailLeases : a'.hints q = a.hints q
  leases : ∀ lease l, l.peer = q → (a'.leases lease = some l ↔ a.leases lease = some l)
  cancelled : ∀ n, (q, n) ∈ a'.cancelled ↔ (q, n) ∈ a.cancelled

/-- The call is a step of a revocation of the peer. -/
def Call.revokes (p : String) : Call → Prop
  | .revoke q | .fenced q | .closingHints q _ | .awaitingHints q | .draining q
  | .aborting q _ | .waiting q | .drained q | .lifting q _ => q = p
  | .closeHint _ (.revocation q _) | .settleHint _ (.revocation q _)
  | .takeHint _ (.revocation q _) | .retireHint _ (.revocation q _) => q = p
  | _ => False

variable {a a' : Adapter} {t t' : Call} {p q : String}

theorem Untouched.refl (q : String) (a : Adapter) : Untouched q a a :=
  ⟨rfl, rfl, rfl, rfl, rfl, fun _ _ _ => Iff.rfl, fun _ => Iff.rfl⟩

theorem Untouched.setLease {lease : Nat} {l l' : HintLease} (hl : a.leases lease = some l)
    (hpeer : l'.peer = l.peer) (hne : l.peer ≠ q) : Untouched q a (a.setLease lease l') := by
  refine ⟨rfl, rfl, rfl, rfl, rfl, ?_, fun _ => Iff.rfl⟩
  intro n ln hq
  by_cases hn : n = lease
  · subst hn
    simp only [Adapter.setLease, Function.update_self, hl, Option.some.injEq]
    constructor
    · rintro rfl
      exact absurd (hpeer.symm.trans hq) hne
    · rintro rfl
      exact absurd hq hne
  · simp only [Adapter.setLease, Function.update_of_ne hn]

theorem Untouched.discard {member : Member} (hne : p ≠ q) :
    Untouched q a (a.discard p member) := by
  refine ⟨rfl, rfl, rfl, rfl, ?_, fun _ _ _ => Iff.rfl, fun _ => Iff.rfl⟩
  unfold Adapter.hints Adapter.discard
  congr 1
  rw [← List.erase_filter]
  exact List.erase_of_not_mem (by simp [hne])

/-- A revocation touches nothing of the other peers. -/
theorem proceed_untouched {x : Outside} (h : proceed x a t = some (a', t'))
    (hrevokes : t.revokes p) (ht : t.relies a) (hne : q ≠ p) : Untouched q a a' := by
  have owner : ∀ {lease : Nat} {l : HintLease} {r : String} {rest : List Nat},
      a.leases lease = some l → Closer.relies a lease (.revocation r rest) → r = p →
      l.peer ≠ q := by
    rintro lease l r rest hl ⟨⟨l', hl', hpeer⟩, -⟩ rfl
    cases hl.symm.trans hl'
    rw [hpeer]
    exact Ne.symm hne
  cases t with
  | revoke peer =>
      cases h
      have hpeer : q ≠ peer := fun hq => hne (hq.trans hrevokes)
      exact { Untouched.refl q a with revoking := Function.update_of_ne hpeer .. }
  | lifting peer ok =>
      cases h
      have hpeer : q ≠ peer := fun hq => hne (hq.trans hrevokes)
      exact { Untouched.refl q a with revoking := Function.update_of_ne hpeer .. }
  | aborting peer todo =>
      cases todo with
      | nil =>
          cases h
          exact Untouched.refl q a
      | cons abort rest =>
          cases h
          have hpeer : q ≠ peer := fun hq => hne (hq.trans hrevokes)
          refine { Untouched.refl q a with cancelled := ?_ }
          simp [hpeer]
  | closingHints peer todo =>
      cases todo <;>
        · cases h
          exact Untouched.refl q a
  | fenced | waiting | drained =>
      cases h
      exact Untouched.refl q a
  | awaitingHints | draining =>
      simp only [proceed] at h
      split at h
      all_goals
        cases h
        try exact Untouched.refl q a
  | closeHint lease closer =>
      cases closer with
      | revocation r rest =>
          simp only [proceed] at h
          split at h
          next => cases h
          next l hl =>
            split at h
            · cases h
            · cases h
              exact Untouched.setLease hl rfl (owner hl ht hrevokes)
      | transport => cases hrevokes
      | subscriber => cases hrevokes
  | settleHint lease closer =>
      simp only [proceed] at h
      repeat' split at h
      all_goals
        cases h
        try exact Untouched.refl q a
  | takeHint lease closer =>
      cases closer with
      | revocation r rest =>
          simp only [proceed] at h
          split at h
          next => cases h
          next l hl =>
            split at h
            · cases h
              exact Untouched.setLease hl rfl (owner hl ht.2 hrevokes)
            · cases h
              exact Untouched.refl q a
      | transport => cases hrevokes
      | subscriber => cases hrevokes
  | retireHint lease closer =>
      cases closer with
      | revocation r rest =>
          simp only [proceed] at h
          split at h
          next => cases h
          next l hl =>
            cases h
            exact Untouched.discard (owner hl ht.2 hrevokes)
      | transport => cases hrevokes
      | subscriber => cases hrevokes
  | _ => cases hrevokes

end Others

/-- An event of a revocation of the peer. -/
def Event.Revokes (e : Event) (i : Nat) (p : String) : Prop :=
  ∃ left reached, e.Moves i left reached ∧ left.revokes p

theorem revokes_untouched {w : Hub} {move : Move Call Outside} {i : Nat} {p q : String}
    (hkept : Kept w) (h : (eventAt w move).Revokes i p) (hne : q ≠ p) :
    Untouched q w.shared (advance w move).1.shared ∧
      ∀ j ≠ i, (advance w move).1.threads[j]? = w.threads[j]? := by
  obtain ⟨left, reached, ⟨⟨x, hmove⟩, hout⟩, hrevokes⟩ := h
  obtain ⟨j, input, a', hj, ht, hc, hw⟩ := step_turn hout
  change move = _ at hmove
  rw [hj] at hmove
  cases hmove
  unfold advance
  rw [hw]
  constructor
  · exact proceed_untouched hc hrevokes (hkept.reliable.threads _ (mem_of_getElem? ht)) hne
  · intro k hk
    exact List.getElem?_set_ne (Ne.symm hk)

section Afterwards

/-- A revocation of an idle peer up to its return. -/
def revocation : List (Move Call Outside) :=
  [.call (.revoke "peer"), .turn 0 {}, .turn 0 {}, .turn 0 {}, .turn 0 {}, .turn 0 {},
   .turn 0 {}]

end Afterwards

end AgentsServer.SecurePeer
