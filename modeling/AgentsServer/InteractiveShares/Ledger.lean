import AgentsServer.InteractiveShares.Growth

/-!
# What the server did against its ledger

Every callback of a submission has its row, every answer is the receipt of its row, and
nothing is called back for a share after its revocation returned.
-/

namespace AgentsServer.InteractiveShares

open Library

/-! ## Rules for routines -/

namespace Routine

variable {α : Type} {I : World → Prop} {Q : α → World → Prop} {w : World} {turn : Turn}

theorem holds_query {body : Store → Except Failure α} (h : ∀ a, body w.store = .ok a → Q a w) :
    Program.Holds I (query turn body) Q w := by
  apply Program.Holds.look
  intro a ha
  cases hfault : turn.fault with
  | none =>
      rw [hfault] at ha
      exact h a ha
  | some e =>
      rw [hfault] at ha
      cases ha

theorem holds_transaction {body : Store → Except Failure (α × Store)} {entries : α → List Effect}
    (h : ∀ a store, body w.store = .ok (a, store) →
      I { w with store := store, log := w.log ++ entries a } ∧
        Q a { w with store := store, log := w.log ++ entries a }) :
    Program.Holds I (transaction turn body entries) Q w := by
  unfold Program.Holds Program.final transaction
  cases turn.fault with
  | some e => simp
  | none =>
      cases hbody : body w.store with
      | error e => simp [hbody]
      | ok result =>
          obtain ⟨hI, hQ⟩ := h result.1 result.2 hbody
          simp [hbody, hI, hQ]

theorem holds_record {entry : Effect} {Q : Unit → World → Prop}
    (h : I { w with log := w.log ++ [entry] } ∧ Q () { w with log := w.log ++ [entry] }) :
    Program.Holds I (record entry) Q w := by
  apply Program.Holds.act
  rintro _ ⟨⟩
  exact h

/-- What changes nothing is followed by a routine from the same state. -/
theorem holds_still_bind {β : Type} {p : Routine α} {f : α → Routine β} {P : α → Prop}
    {S : β → World → Prop} (hp : Program.Holds I p (fun a t => t = w ∧ P a) w)
    (hf : ∀ a, P a → Program.Holds I (f a) S w) : Program.Holds I (p >>= f) S w := by
  refine Program.Holds.bind hp ?_
  rintro a t ⟨rfl, ha⟩
  exact hf a ha

theorem holds_given_bind {β : Type} {result : Except Failure α} {f : α → Routine β}
    {S : β → World → Prop} (hf : ∀ a, result = .ok a → Program.Holds I (f a) S w) :
    Program.Holds I (given result >>= f) S w := by
  apply holds_still_bind _ hf
  apply Program.Holds.look
  intro a ha
  exact ⟨rfl, ha⟩

theorem holds_check_bind {β : Type} {c : Prop} [Decidable c] {e : Failure} {f : Unit → Routine β}
    {S : β → World → Prop} (hf : c → Program.Holds I (f ()) S w) :
    Program.Holds I (check c e >>= f) S w := by
  apply holds_given_bind
  intro a ha
  exact hf ((require_eq_ok _ _ _).mp ha)

theorem holds_record_bind {β : Type} {entry : Effect} {f : Unit → Routine β}
    {S : β → World → Prop} (hI : I { w with log := w.log ++ [entry] })
    (hf : Program.Holds I (f ()) S { w with log := w.log ++ [entry] }) :
    Program.Holds I (record entry >>= f) S w := by
  refine Program.Holds.bind (R := fun _ t => t = { w with log := w.log ++ [entry] }) ?_ ?_
  · exact holds_record ⟨hI, rfl⟩
  · rintro _ _ rfl
    exact hf

theorem holds_translate {change : Failure → Failure} {p : Routine α} (hp : Program.Holds I p Q w) :
    Program.Holds I (translate change p) Q w :=
  Program.Holds.rescue_raise hp

end Routine

/-! ## The log and the ledger -/

namespace Effect

/-- The submission whose callback an effect is. -/
def invocation : Effect → Option (String × String)
  | .prompted shareId requestId _ _ _ _ => some (shareId, requestId)
  | .controlled shareId requestId _ _ _ => some (shareId, requestId)
  | _ => none

/-- The reservation that a callback is for. -/
def reservation : Effect → Option Effect
  | .prompted shareId requestId _ prompt _ refs =>
      some (.reserved shareId requestId "prompt" prompt refs)
  | .controlled shareId requestId _ action payload =>
      some (.reserved shareId requestId ("control:" ++ action)
        (String.ofList (Json.canonical payload)) [])
  | _ => none

/-- The share for which an effect is a callback under its lock. -/
def started : Effect → Option String
  | .prompted shareId _ _ _ _ _ => some shareId
  | .controlled shareId _ _ _ _ => some shareId
  | .saved shareId _ _ _ _ => some shareId
  | _ => none

end Effect

/-- A list of computations gives the list of their values. -/
theorem mapM_eq_ok {ε α β : Type} {f : α → Except ε β} {items : List α} {values : List β} :
    items.mapM f = .ok values ↔ List.Forall₂ (fun a b => f a = .ok b) items values := by
  induction items generalizing values with
  | nil =>
      rw [List.mapM_nil, pure_eq_ok, List.forall₂_nil_left_iff, eq_comm]
  | cons a rest ih =>
      rw [List.mapM_cons]
      simp only [bind_eq_ok, pure_eq_ok]
      constructor
      · rintro ⟨b, hb, values, hvalues, rfl⟩
        exact .cons hb (ih.mp hvalues)
      · intro h
        cases h with
        | cons hb hvalues => exact ⟨_, hb, _, ih.mpr hvalues, rfl⟩

/-- The references of the uploads that a request names, in its order; all of them are completed
uploads of the share. -/
def Store.Names (store : Store) (shareId : String) (uploadIds : Json) (refs : List String) : Prop :=
  ∃ ids, Store.uploadIds uploadIds = some ids ∧
    List.Forall₂ (fun id ref => store.completedRef shareId id = some ref) ids refs

theorem Store.Grows.names {s t : Store} (h : Grows s t) {shareId : String} {uploadIds : Json}
    {refs : List String} (hnames : s.Names shareId uploadIds refs) :
    t.Names shareId uploadIds refs := by
  obtain ⟨ids, hids, hrefs⟩ := hnames
  exact ⟨ids, hids, hrefs.imp fun id ref => h.uploads shareId id ref⟩

theorem Store.uploadRefs_names [Sha256] {store : Store} {shareId token : String}
    {uploadIds : Json} {now : Time} {refs : List String}
    (h : store.uploadRefs shareId token uploadIds now = .ok refs) :
    store.Names shareId uploadIds refs := by
  unfold Store.uploadRefs at h
  simp only [bind_eq_ok, required_eq_ok] at h
  obtain ⟨ids, hids, _, -, hrefs⟩ := h
  refine ⟨ids, hids, (mapM_eq_ok.mp hrefs).imp ?_⟩
  intro id ref href
  exact (required_eq_ok _ _ _).mp href

variable [Sha256]

namespace World

variable (w : World)

/-- The submissions that were called back. -/
def invocations : List (String × String) := w.log.filterMap Effect.invocation

/-- The log and the ledger agree. -/
structure Inv : Prop where
  sound : w.store.Sound
  once : w.invocations.Nodup
  known : ∀ entry ∈ w.log, ∀ reservation, entry.reservation = some reservation →
    reservation ∈ w.log
  reserved : ∀ shareId requestId operation prompt refs,
    Effect.reserved shareId requestId operation prompt refs ∈ w.log →
      ∃ row ∈ w.store.submissions, row.key = (shareId, requestId) ∧
        row.fingerprint = fingerprint operation prompt refs
  answered : ∀ shareId requestId receipt, Effect.answered shareId requestId receipt ∈ w.log →
    ∃ row ∈ w.store.submissions, row.key = (shareId, requestId) ∧ row.receipt = some receipt
  revoked : ∀ shareId, Effect.revoked shareId ∈ w.log →
    ∃ row ∈ w.store.shares, row.id = shareId ∧ row.revokedAt.isSome = true
  named : ∀ shareId requestId sessionId prompt uploadIds refs,
    Effect.prompted shareId requestId sessionId prompt uploadIds refs ∈ w.log →
      w.store.Names shareId uploadIds refs
  quiet : w.log.Pairwise fun a b => ∀ shareId, a = .revoked shareId → b.started ≠ some shareId

theorem inv_empty : World.empty.Inv where
  sound := Store.sound_empty
  once := .nil
  known := by rintro _ ⟨⟩
  reserved := by rintro _ _ _ _ _ ⟨⟩
  answered := by rintro _ _ _ ⟨⟩
  revoked := by rintro _ ⟨⟩
  named := by rintro _ _ _ _ _ _ ⟨⟩
  quiet := .nil

/-- Work that is reserved and was not called back. -/
def Fresh (shareId requestId operation prompt : String) (refs : List String) : Prop :=
  Effect.reserved shareId requestId operation prompt refs ∈ w.log ∧
    (shareId, requestId) ∉ w.invocations

/-- No revocation of the share has returned. -/
def Live (shareId : String) : Prop := Effect.revoked shareId ∉ w.log

/-- What the ledger must say for an effect to come next. -/
def Allowed : Effect → Prop
  | .reserved shareId requestId operation prompt refs =>
      ∃ row ∈ w.store.submissions, row.key = (shareId, requestId) ∧
        row.fingerprint = fingerprint operation prompt refs
  | .prompted shareId requestId _ prompt uploadIds refs =>
      w.Fresh shareId requestId "prompt" prompt refs ∧ w.Live shareId ∧
        w.store.Names shareId uploadIds refs
  | .controlled shareId requestId _ action payload =>
      w.Fresh shareId requestId ("control:" ++ action) (String.ofList (Json.canonical payload)) [] ∧
        w.Live shareId
  | .read _ _ _ _ _ => True
  | .saved shareId _ _ _ _ => w.Live shareId
  | .answered shareId requestId receipt =>
      ∃ row ∈ w.store.submissions, row.key = (shareId, requestId) ∧ row.receipt = some receipt
  | .revoked shareId => ∃ row ∈ w.store.shares, row.id = shareId ∧ row.revokedAt.isSome = true

variable {w} {store : Store}

/-- A transaction that keeps the ledger sound and lets it grow. -/
theorem Inv.grows (h : w.Inv) (hs : store.Sound) (hg : Store.Grows w.store store) :
    Inv { w with store := store } where
  sound := hs
  once := h.once
  known := h.known
  reserved := by
    intro shareId requestId operation prompt refs hmem
    obtain ⟨row, hrow, hkey, hprint⟩ := h.reserved _ _ _ _ _ hmem
    obtain ⟨kept, hkept, hsame, hsamePrint, -⟩ := hg.submissions row hrow
    exact ⟨kept, hkept, hsame.trans hkey, hsamePrint.trans hprint⟩
  answered := by
    intro shareId requestId receipt hmem
    obtain ⟨row, hrow, hkey, hreceipt⟩ := h.answered _ _ _ hmem
    obtain ⟨kept, hkept, hsame, -, hreceipts⟩ := hg.submissions row hrow
    exact ⟨kept, hkept, hsame.trans hkey, hreceipts receipt hreceipt⟩
  revoked := by
    intro shareId hmem
    obtain ⟨row, hrow, rfl, hrevoked⟩ := h.revoked _ hmem
    obtain ⟨kept, hkept, hid, hstill⟩ := hg.shares row hrow
    exact ⟨kept, hkept, hid, hstill hrevoked⟩
  named := by
    intro shareId requestId sessionId prompt uploadIds refs hmem
    exact hg.names (h.named _ _ _ _ _ _ hmem)
  quiet := h.quiet

omit [Sha256] in
theorem invocations_append (entry : Effect) :
    invocations { w with log := w.log ++ [entry] } =
      w.invocations ++ entry.invocation.toList := by
  rw [invocations, List.filterMap_append]
  cases hentry : entry.invocation <;> simp [invocations, hentry]

/-- The invocation of an effect that is allowed is new. -/
theorem Allowed.fresh {entry : Effect} (ha : w.Allowed entry) {k : String × String}
    (hk : entry.invocation = some k) : k ∉ w.invocations := by
  cases entry with
  | prompted shareId requestId sessionId prompt uploadIds refs =>
      cases hk
      exact ha.1.2
  | controlled shareId requestId sessionId action payload =>
      cases hk
      exact ha.1.2
  | _ => cases hk

omit [Sha256] in
/-- The reservation of a callback has the key of its invocation. -/
theorem reservation_of_invocation {entry : Effect} {k : String × String}
    (hk : entry.invocation = some k) : ∃ operation prompt refs,
      entry.reservation = some (.reserved k.1 k.2 operation prompt refs) := by
  cases entry with
  | prompted shareId requestId sessionId prompt uploadIds refs =>
      cases hk
      exact ⟨_, _, _, rfl⟩
  | controlled shareId requestId sessionId action payload =>
      cases hk
      exact ⟨_, _, _, rfl⟩
  | _ => cases hk

/-- The reservation of a callback that is allowed was made. -/
theorem Allowed.reservation {entry reserved : Effect} (ha : w.Allowed entry)
    (hr : entry.reservation = some reserved) : reserved ∈ w.log := by
  cases entry with
  | prompted shareId requestId sessionId prompt uploadIds refs =>
      cases hr
      exact ha.1.1
  | controlled shareId requestId sessionId action payload =>
      cases hr
      exact ha.1.1
  | _ => cases hr

/-- The share of a callback that is allowed is not revoked. -/
theorem Allowed.live {entry : Effect} (ha : w.Allowed entry) {shareId : String}
    (hs : entry.started = some shareId) : w.Live shareId := by
  cases entry with
  | prompted shareId requestId sessionId prompt uploadIds refs =>
      cases hs
      exact ha.2.1
  | controlled shareId requestId sessionId action payload =>
      cases hs
      exact ha.2
  | saved shareId sessionId name mediaType data =>
      cases hs
      exact ha
  | _ => cases hs

/-- An effect that the ledger allows. -/
theorem Inv.record (h : w.Inv) (entry : Effect) (ha : w.Allowed entry) :
    Inv { w with log := w.log ++ [entry] } where
  sound := h.sound
  once := by
    rw [invocations_append]
    cases hentry : entry.invocation with
    | none =>
        rw [Option.toList_none, List.append_nil]
        exact h.once
    | some k =>
        rw [Option.toList_some, List.nodup_append]
        refine ⟨h.once, List.nodup_singleton k, ?_⟩
        intro a ha' b hb hsame
        rw [List.mem_singleton.mp hb] at hsame
        exact ha.fresh hentry (hsame ▸ ha')
  known := by
    intro earlier hearlier reserved hreserved
    apply List.mem_append_left
    rcases List.mem_append.mp hearlier with hearlier | hearlier
    · exact h.known earlier hearlier reserved hreserved
    · rw [List.mem_singleton.mp hearlier] at hreserved
      exact ha.reservation hreserved
  reserved := by
    intro shareId requestId operation prompt refs hmem
    rcases List.mem_append.mp hmem with hmem | hmem
    · exact h.reserved _ _ _ _ _ hmem
    · rw [← List.mem_singleton.mp hmem] at ha
      exact ha
  answered := by
    intro shareId requestId receipt hmem
    rcases List.mem_append.mp hmem with hmem | hmem
    · exact h.answered _ _ _ hmem
    · rw [← List.mem_singleton.mp hmem] at ha
      exact ha
  revoked := by
    intro shareId hmem
    rcases List.mem_append.mp hmem with hmem | hmem
    · exact h.revoked _ hmem
    · rw [← List.mem_singleton.mp hmem] at ha
      exact ha
  named := by
    intro shareId requestId sessionId prompt uploadIds refs hmem
    rcases List.mem_append.mp hmem with hmem | hmem
    · exact h.named _ _ _ _ _ _ hmem
    · rw [← List.mem_singleton.mp hmem] at ha
      exact ha.2.2
  quiet := by
    rw [List.pairwise_append]
    refine ⟨h.quiet, List.pairwise_singleton _ _, ?_⟩
    intro a hmem b hb shareId hrevoked hstarted
    rw [List.mem_singleton.mp hb] at hstarted
    apply ha.live hstarted
    rw [← hrevoked]
    exact hmem

theorem Inv.restarted (h : w.Inv) : w.restarted.Inv :=
  ⟨h.sound, h.once, h.known, h.reserved, h.answered, h.revoked, h.named, h.quiet⟩

/-- What was called back has a row. -/
theorem Inv.row (h : w.Inv) {k : String × String} (hk : k ∈ w.invocations) :
    ∃ row ∈ w.store.submissions, row.key = k := by
  obtain ⟨entry, hentry, hinvocation⟩ := List.mem_filterMap.mp hk
  obtain ⟨operation, prompt, refs, hreservation⟩ := reservation_of_invocation hinvocation
  obtain ⟨row, hrow, hkey, -⟩ := h.reserved _ _ _ _ _ (h.known entry hentry _ hreservation)
  exact ⟨row, hrow, hkey⟩

/-- Who is authorized has a share whose revocation has not returned. -/
theorem Inv.live (h : w.Inv) {shareId token : String} {now : Time} {row : ShareRow}
    (hok : w.store.authorized shareId token now = .ok row) : w.Live shareId := by
  intro hmem
  obtain ⟨hrow, hid, hnone⟩ := Store.authorized_eq_ok hok
  obtain ⟨other, hother, hsame, hrevoked⟩ := h.revoked shareId hmem
  rw [Tables.eq_of_key h.sound.shares hother hrow (hsame.trans hid.symm), hnone] at hrevoked
  cases hrevoked

end World

end AgentsServer.InteractiveShares
