import AgentsServer.TeamHub.Projection

/-!
# Remembered requests

The table of answered requests, the lookup that replays an answer, and the
insert that remembers one.
-/

namespace AgentsServer.TeamHub

open Library

variable [Sha256]

/-- What identifies a request: team, principal, operation and the caller's key. -/
structure RequestKey where
  teamId : String
  principalId : String
  operation : String
  key : String

def RequestKey.keyHash (k : RequestKey) : Bytes :=
  Sha256.digest (utf8 k.key.toList)

/-- The request that a row remembers has this key. -/
def RequestKey.Names (k : RequestKey) (row : IdempotencyRow) : Prop :=
  row.teamId = k.teamId ∧ row.principalId = k.principalId ∧ row.operation = k.operation ∧
    row.keyHash = k.keyHash

instance (k : RequestKey) (row : IdempotencyRow) : Decidable (k.Names row) := by
  unfold RequestKey.Names
  infer_instance

/-- The key of a request that creates a row: `team\0principal\0operation\0key`. -/
def RequestKey.rowKey (k : RequestKey) : Bytes :=
  let separator := [Char.ofNat 0]
  Sha256.digest (utf8 (k.teamId.toList ++ separator ++ k.principalId.toList ++ separator ++
    k.operation.toList ++ separator ++ k.key.toList))

namespace Hub

/-- The remembered request with a key. -/
def request? (h : Hub) (k : RequestKey) : Option IdempotencyRow :=
  h.requests.find? fun row => decide (k.Names row)

/-- `_idempotency_lookup`. -/
def idempotencyLookup (h : Hub) (k : RequestKey) (fingerprint : Bytes) :
    Except Failure (Option Json) := do
  require (8 ≤ k.key.length ∧ k.key.length ≤ 240)
    (invalidRequest "idempotency_key must be 8-240 characters")
  match h.request? k with
  | none => return none
  | some row => do
      require (row.fingerprint = fingerprint)
        (.hubError "idempotency_conflict"
          "Idempotency key was already used with a different request" 409)
      return some row.response

/-- The tables with one more remembered request. -/
def remember (h : Hub) (k : RequestKey) (fingerprint : Bytes) (response : Json) : Hub :=
  { h with requests := h.requests ++ [{
    teamId := k.teamId, principalId := k.principalId, operation := k.operation
    keyHash := k.keyHash, fingerprint, response }] }

/-- `_idempotency_store`. -/
def idempotencyStore (h : Hub) (k : RequestKey) (fingerprint : Bytes) (response : Json) :
    Except Failure Hub := do
  require ((h.request? k).isNone = true) .integrityError
  return h.remember k fingerprint response

@[simp] theorem idempotencyStore_eq_ok {h t : Hub} {k : RequestKey} {fingerprint : Bytes}
    {response : Json} :
    h.idempotencyStore k fingerprint response = .ok t ↔
      h.request? k = none ∧ h.remember k fingerprint response = t := by
  unfold idempotencyStore
  simp only [bind_eq_ok, require_eq_ok, pure_eq_ok, Option.isNone_iff_eq_none, exists_const]

/-- A lookup finds nothing, or an answer under the same fingerprint. -/
theorem idempotencyLookup_eq_ok {h : Hub} {k : RequestKey} {fingerprint : Bytes}
    {found : Option Json} (hl : h.idempotencyLookup k fingerprint = .ok found) :
    (h.request? k = none ∧ found = none) ∨
      ∃ row, h.request? k = some row ∧ row.fingerprint = fingerprint ∧
        found = some row.response := by
  unfold idempotencyLookup at hl
  simp only [bind_eq_ok, require_eq_ok] at hl
  obtain ⟨_, _, hl⟩ := hl
  cases hr : h.request? k with
  | none =>
      rw [hr] at hl
      exact Or.inl ⟨rfl, ((pure_eq_ok _ _).mp hl).symm⟩
  | some row =>
      simp only [hr, bind_eq_ok, require_eq_ok, pure_eq_ok] at hl
      obtain ⟨_, hfp, hc⟩ := hl
      exact Or.inr ⟨row, rfl, hfp, hc.symm⟩

/-- What the lookup of a remembered request answers. -/
theorem idempotencyLookup_of_some {h : Hub} {k : RequestKey} {row : IdempotencyRow}
    (hr : h.request? k = some row) (hk : 8 ≤ k.key.length ∧ k.key.length ≤ 240)
    (fingerprint : Bytes) :
    h.idempotencyLookup k fingerprint =
      if row.fingerprint = fingerprint then .ok (some row.response)
      else .error (.hubError "idempotency_conflict"
        "Idempotency key was already used with a different request" 409) := by
  unfold idempotencyLookup
  rw [require_bind hk, hr]
  by_cases he : row.fingerprint = fingerprint
  · rw [if_pos he]
    exact require_bind he _ _
  · rw [if_neg he]
    simp only [require, if_neg he]
    rfl

theorem request?_remember {h : Hub} {k : RequestKey} {fingerprint : Bytes} {response : Json}
    (hr : h.request? k = none) :
    ∃ row, (h.remember k fingerprint response).request? k = some row ∧
      row.fingerprint = fingerprint ∧ row.response = response := by
  refine ⟨⟨k.teamId, k.principalId, k.operation, k.keyHash, fingerprint, response⟩, ?_, rfl, rfl⟩
  unfold request? at hr ⊢
  unfold remember
  rw [List.find?_append, hr]
  simp [RequestKey.Names]

end Hub

end AgentsServer.TeamHub
