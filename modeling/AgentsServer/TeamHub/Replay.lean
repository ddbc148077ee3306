import AgentsServer.TeamHub.Writes

/-!
# Repeated requests

A request is remembered in the transaction that did its work and is never
forgotten. A later call under its key changes nothing: it gets the remembered
answer if its fingerprint is the remembered one, and is refused otherwise.
-/

namespace AgentsServer.TeamHub

open Library

variable [Sha256] [UnicodeTables] [Conversions]

/-- The work of a call leaves the remembered requests alone. -/
theorem Effect.requests {h t : Hub} {call : Call} {publications : List Publication}
    (e : Effect h call publications t) : t.requests = h.requests := by
  cases e with
  | created _ _ work =>
      obtain ⟨_, _, _, _, _, _, rfl, _⟩ := work.tables
      rfl
  | revised _ _ work =>
      obtain ⟨_, _, rfl⟩ := Hub.insertRevision_eq_ok work.write
      rfl
  | deleted _ _ _ _ _ write =>
      obtain ⟨_, _, rfl⟩ := Hub.insertDeletion_eq_ok write
      rfl
  | deletedBefore => rfl
  | dismissed => rfl
  | attended => rfl
  | @receipted _ _ isRead rows _ _ =>
      obtain ⟨_, he⟩ := Hub.recordReceipts_eq rows isRead call.context.timestamp h
      rw [he]
  | flagged => rfl

/-- The requests that one state remembers and a later one still does. -/
def Remembers (h t : Hub) : Prop :=
  h.requests <+: t.requests

omit [UnicodeTables] [Conversions] in
theorem Remembers.request? {h t : Hub} (hr : Remembers h t) {k : RequestKey}
    {row : IdempotencyRow} (hrow : h.request? k = some row) : t.request? k = some row := by
  obtain ⟨more, hmore⟩ := hr
  unfold Hub.request? at hrow ⊢
  rw [← hmore, List.find?_append, hrow]
  rfl

theorem Committed.remembers {h t : Hub} {call : Call} {k : RequestKey} {fp : Bytes}
    {reply : Reply} (c : Committed h call k fp reply t) : Remembers h t := by
  cases c with
  | replayed => exact List.prefix_refl _
  | fresh _ work =>
      unfold Remembers Hub.remember
      rw [work.requests]
      exact List.prefix_append _ _

/-- A committed call is remembered under its key with its fingerprint and answer. -/
theorem Committed.remembered {h t : Hub} {call : Call} {k : RequestKey} {fp : Bytes}
    {reply : Reply} (c : Committed h call k fp reply t) :
    ∃ row, t.request? k = some row ∧ row.fingerprint = fp ∧
      reply.response = call.present t row.response := by
  cases c with
  | replayed found same => exact ⟨_, found, same, rfl⟩
  | fresh new work =>
      have hnone : _ = none := new
      unfold Hub.request? at hnone
      rw [← work.requests] at hnone
      obtain ⟨row, hrow, hfp, hresponse⟩ := Hub.request?_remember hnone
      exact ⟨row, hrow, hfp, by rw [hresponse]⟩

/-- A call either commits under its identity or leaves the tables as they were. -/
theorem step_cases (h : Hub) (call : Call) :
    (∃ key fp reply t, step h call = (t, .ok reply) ∧ call.identity = .ok (key, fp) ∧
      Committed h call (call.requestKey key) fp reply t) ∨
    ∃ e, step h call = (h, .error e) := by
  rcases atomically_cases h (call.body h) with ⟨reply, t, hb, hs⟩ | ⟨e, _, hs⟩
  · obtain ⟨key, fp, hi, hc⟩ := body_committed hb
    exact Or.inl ⟨key, fp, reply, t, hs, hi, hc⟩
  · exact Or.inr ⟨e, hs⟩

theorem step_remembers (h : Hub) (call : Call) : Remembers h (step h call).1 := by
  rcases step_cases h call with ⟨key, fp, reply, t, hs, _, hc⟩ | ⟨e, hs⟩
  · rw [hs]
    exact hc.remembers
  · rw [hs]
    exact List.prefix_refl _

theorem run_remembers (h : Hub) (calls : List Call) : Remembers h (Runs.run step h calls) :=
  Runs.run_related step (I := fun _ => True) (R := Remembers) (fun _ _ _ => trivial)
    (fun _ => List.prefix_refl _) (fun _ _ _ => List.IsPrefix.trans)
    (fun s call _ => step_remembers s call) h trivial calls

/-- Two calls of one operation by one principal under one key. -/
def Call.SameKey (a b : Call) : Prop :=
  ∃ key fp fp', a.identity = .ok (key, fp) ∧ b.identity = .ok (key, fp') ∧
    a.requestKey key = b.requestKey key

/-- A call whose key is remembered changes nothing. -/
theorem step_of_remembered {h : Hub} {call : Call} {key : String} {fp : Bytes}
    {row : IdempotencyRow} (hi : call.identity = .ok (key, fp))
    (hrow : h.request? (call.requestKey key) = some row) :
    (step h call).1 = h ∧ ∀ reply, (step h call).2 = .ok reply →
      row.fingerprint = fp ∧ reply = ⟨call.present h row.response, []⟩ := by
  rcases step_cases h call with ⟨key', fp', reply, t, hs, hi', hc⟩ | ⟨e, hs⟩
  · rw [hi] at hi'
    cases hi'
    rw [hs]
    cases hc with
    | replayed found same =>
        rw [hrow] at found
        cases found
        refine ⟨rfl, ?_⟩
        intro reply hreply
        cases hreply
        exact ⟨same, rfl⟩
    | fresh new => rw [hrow] at new; cases new
  · rw [hs]
    refine ⟨rfl, ?_⟩
    intro reply hreply
    cases hreply

/-- Once a call has committed, every later state remembers it. -/
theorem remembered_after {h : Hub} {a : Call} {reply : Reply} (ha : (step h a).2 = .ok reply)
    (calls : List Call) {key : String} {fp : Bytes} (hia : a.identity = .ok (key, fp)) :
    ∃ row, (Runs.run step (step h a).1 calls).request? (a.requestKey key) = some row ∧
      row.fingerprint = fp ∧ reply.response = a.present (step h a).1 row.response := by
  rcases step_cases h a with ⟨key', fp', reply', t, hs, hi, hc⟩ | ⟨e, hs⟩
  · rw [hia] at hi
    cases hi
    rw [hs] at ha ⊢
    cases ha
    obtain ⟨row, hrow, hfp, hresponse⟩ := hc.remembered
    exact ⟨row, (run_remembers t calls).request? hrow, hfp, hresponse⟩
  · rw [hs] at ha
    cases ha

/-- Once a call has committed, a call under its key has no effect in any later
state, and gets an answer only if it has the same fingerprint. -/
theorem repeated_call {h : Hub} {a b : Call} {reply : Reply} (ha : (step h a).2 = .ok reply)
    (calls : List Call) {key : String} {fp fp' : Bytes} (hia : a.identity = .ok (key, fp))
    (hib : b.identity = .ok (key, fp')) (hk : a.requestKey key = b.requestKey key) :
    (step (Runs.run step (step h a).1 calls) b).1 = Runs.run step (step h a).1 calls ∧
      ∃ stored, reply.response = a.present (step h a).1 stored ∧
        ∀ again, (step (Runs.run step (step h a).1 calls) b).2 = .ok again →
          fp' = fp ∧ again = ⟨b.present (Runs.run step (step h a).1 calls) stored, []⟩ := by
  obtain ⟨row, hrow, hfp, hresponse⟩ := remembered_after ha calls hia
  rw [hk] at hrow
  obtain ⟨hstate, hanswer⟩ := step_of_remembered hib hrow
  refine ⟨hstate, row.response, hresponse, ?_⟩
  intro again hagain
  obtain ⟨hsame, heq⟩ := hanswer again hagain
  exact ⟨hsame.symm.trans hfp, heq⟩

end AgentsServer.TeamHub
