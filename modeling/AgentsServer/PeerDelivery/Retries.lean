import AgentsServer.Library.Paging
import AgentsServer.PeerDelivery.Outbound
import AgentsServer.PeerDelivery.Response

/-!
# Intents are settled once and tried in turn

What a call does to an intent, that nothing is lost before it is settled and old, and
that no intent is kept back by those that are tried before it.
-/

namespace AgentsServer.PeerDelivery

open Library Library.Runs

/-- The request whose intent was submitted before a call. -/
def Call.attempt? : Call → Option String
  | .commitOutbound requestId _ _ | .deferOutbound requestId _ _ | .failOutbound requestId _ _ =>
      some requestId
  | _ => none

def Call.clock? : Call → Option Int
  | .prepareOutbound _ now | .pendingOutboundFor _ now | .commitOutbound _ _ now
  | .deferOutbound _ _ now | .failOutbound _ _ now | .pendingOutbound _ now | .prune _ now =>
      some now
  | .delivery _ | .recoverableOutbound _ => none

/-- What a call makes of a pending intent. -/
inductive Changed (row : Outbound) : Call → Outbound → Prop
  | expired {scope : Scope} {now : Int} (late : row.expiresAt ≤ now) :
      Changed row (.pendingOutboundFor scope now) (row.fail "secure peer exchange expired" now)
  | committed {response : Envelope} {now : Int} :
      Changed row (.commitOutbound row.requestId response now)
        (row.commit (Json.obj response).canonical now)
  | deferred {error : String} {now : Int} :
      Changed row (.deferOutbound row.requestId error now) (row.defer error now)
  | failed {error : String} {now : Int} :
      Changed row (.failOutbound row.requestId error now) (row.fail (clip error) now)

section Intents

variable {rows : List Outbound} {c : Call}

/-! ## One intent -/

/-- What no later call changes in an intent. -/
structure Outbound.Kept (row row' : Outbound) : Prop where
  fixed : row' = { row with
    state := row'.state, responseJson := row'.responseJson, retryAt := row'.retryAt
    attempts := row'.attempts, lastError := row'.lastError, updatedAt := row'.updatedAt }
  settled : row.state ≠ .pending → row' = row
  attempts : row.attempts ≤ row'.attempts

/-- The columns that a state allows. -/
def Outbound.Fits (row : Outbound) : Prop :=
  match row.state with
  | .pending => row.responseJson = none ∧ row.retryAt =
      some (if row.attempts = 0 then row.createdAt else row.updatedAt + delay row.attempts)
  | .committed => row.responseJson ≠ none ∧ row.retryAt = none ∧ row.lastError = none
  | .failed => row.responseJson = none ∧ row.retryAt = none ∧ row.lastError ≠ none

theorem Outbound.Kept.refl (row : Outbound) : row.Kept row :=
  ⟨rfl, fun _ => rfl, Nat.le_refl _⟩

theorem Outbound.Kept.trans (a b c : Outbound) (hab : a.Kept b) (hbc : b.Kept c) : a.Kept c where
  fixed := by
    rw [hbc.fixed, hab.fixed]
  settled h := by
    have hb := hab.settled h
    rw [← hb] at h
    exact (hbc.settled h).trans hb
  attempts := Nat.le_trans hab.attempts hbc.attempts

theorem Changed.kept {row row' : Outbound} (hp : row.state = .pending) (h : Changed row c row') :
    row.Kept row' := by
  cases h with
  | deferred => exact ⟨rfl, fun hs => absurd hp hs, Nat.le_succ _⟩
  | _ => exact ⟨rfl, fun hs => absurd hp hs, Nat.le_refl _⟩

theorem Changed.fits {row row' : Outbound} (hp : row.state = .pending) (hf : row.Fits)
    (h : Changed row c row') : row'.Fits := by
  rw [Outbound.Fits, hp] at hf
  cases h with
  | committed => exact ⟨nofun, rfl, rfl⟩
  | deferred =>
      change (match row.state with | .pending => _ | .committed => _ | .failed => _)
      rw [hp]
      exact ⟨hf.1, rfl⟩
  | _ => exact ⟨hf.1, rfl, nofun⟩

/-! ## Turns -/

/-- The pending intents that are tried before a place. -/
def ahead (k : Int ×ₗ (Int ×ₗ String)) (row : Outbound) : Bool :=
  decide (row.state = .pending) && decide (row.turn < k)

def waiting (k : Int ×ₗ (Int ×ₗ String)) (db : Database) : Nat := db.outbound.countP (ahead k)

theorem ahead_eq_true {k : Int ×ₗ (Int ×ₗ String)} {row : Outbound} :
    ahead k row = true ↔ row.state = .pending ∧ row.turn < k := by
  rw [ahead, Bool.and_eq_true, decide_eq_true_iff, decide_eq_true_iff]

/-- An intent ahead of a place is submitted. -/
def Tries (k : Int ×ₗ (Int ×ₗ String)) (e : Event Database Call (Except Failure Reply)) : Bool :=
  e.before.outbound.any fun row => ahead k row && decide (e.action.attempt? = some row.requestId)

/-- What a call puts off or settles is not ahead of a place that was due before. -/
theorem Changed.not_ahead {k : Int ×ₗ (Int ×ₗ String)} {row row' : Outbound}
    (due : ∀ now ∈ c.clock?, (ofLex k).1 < now) (h : Changed row c row') :
    ahead k row' = false := by
  cases h with
  | deferred =>
      rw [Bool.eq_false_iff, ne_eq, ahead_eq_true]
      rintro ⟨-, hlt⟩
      have hk := due _ rfl
      rcases Prod.Lex.lt_iff.mp hlt with hlt | ⟨heq, -⟩
      · change _ + _ < _ at hlt
        omega
      · change _ + _ = _ at heq
        omega
  | _ => rfl

theorem countP_map_lt {p : Outbound → Bool} {next : Outbound → Outbound}
    (keep : ∀ row ∈ rows, p (next row) = true → p row = true) {row : Outbound} (hrow : row ∈ rows)
    (before : p row = true) (after : p (next row) = false) :
    (rows.map next).countP p < rows.countP p := by
  obtain ⟨first, rest, rfl⟩ := List.append_of_mem hrow
  have hfirst : first.countP (p ∘ next) ≤ first.countP p :=
    List.countP_mono_left fun r hr => keep r (List.mem_append_left _ hr)
  have hrest : rest.countP (p ∘ next) ≤ rest.countP p :=
    List.countP_mono_left fun r hr =>
      keep r (List.mem_append_right _ (List.mem_cons_of_mem _ hr))
  rw [List.countP_map, List.countP_append, List.countP_append, List.countP_cons_of_pos before,
    List.countP_cons_of_neg (by rw [Function.comp_apply, after]; exact Bool.false_ne_true)]
  omega

/-! ## The page of retries -/

theorem turns_nodup {rows : List Outbound} (unique : (rows.map Outbound.requestId).Nodup) :
    (rows.map Outbound.turn).Nodup := by
  apply List.Nodup.of_map fun k : Int ×ₗ (Int ×ₗ String) => (ofLex (ofLex k).2).2
  rw [List.map_map]
  exact unique

theorem mem_pendingBy {κ : Type} [LinearOrder κ] {key : Outbound → κ} {selected : Outbound → Bool}
    {rows : List Outbound} {row : Outbound} :
    row ∈ pendingBy key selected rows ↔
      row ∈ rows ∧ row.state = .pending ∧ selected row = true := by
  rw [pendingBy, List.mem_mergeSort, List.mem_filter, Bool.and_eq_true, decide_eq_true_iff]

theorem pendingBy_pairwise {κ : Type} [LinearOrder κ] {key : Outbound → κ}
    {selected : Outbound → Bool} {rows : List Outbound} (unique : (rows.map key).Nodup) :
    (pendingBy key selected rows).Pairwise fun a b => key a < key b := by
  have hsorted : (pendingBy key selected rows).Pairwise fun a b => decide (key a ≤ key b) = true := by
    apply List.pairwise_mergeSort
    · intro a b c hab hbc
      rw [decide_eq_true_iff] at hab hbc ⊢
      exact le_trans hab hbc
    · intro a b
      rw [Bool.or_eq_true, decide_eq_true_iff, decide_eq_true_iff]
      exact le_total _ _
  have hdistinct : ((pendingBy key selected rows).map key).Nodup :=
    ((List.mergeSort_perm _ _).map key).nodup_iff.mpr
      (unique.sublist (List.filter_sublist.map key))
  rw [List.Nodup, List.pairwise_map] at hdistinct
  refine (hsorted.and hdistinct).imp ?_
  rintro a b ⟨hle, hne⟩
  exact lt_of_le_of_ne (of_decide_eq_true hle) hne

/-- A transaction on the intents commits, or changes nothing. -/
theorem onOutbound_cases {α : Type} (db : Database) (body : Except Failure (α × List Outbound))
    (reply : α → Reply) :
    (∃ a rows, body = .ok (a, rows) ∧
      db.onOutbound body reply = ({ db with outbound := rows }, .ok (reply a))) ∨
    ∃ e, db.onOutbound body reply = (db, .error e) := by
  cases body with
  | ok r => exact .inl ⟨r.1, r.2, rfl, rfl⟩
  | error e => exact .inr ⟨e, rfl⟩

/-- A pending intent is committed, and any other is left as it is. -/
theorem commitOutbound_cases (rows : List Outbound) (requestId : String) (response : Envelope)
    (now : Int) :
    (∃ row answer, outbound? rows requestId = some row ∧ row.state = .pending ∧
      commitOutbound rows requestId response now = .ok (answer, updatePending rows
        (fun row => row.requestId == requestId)
        fun row => row.commit (Json.obj response).canonical now)) ∨
    (∀ row, outbound? rows requestId = some row → row.state ≠ .pending) ∧
      ∀ answer t, commitOutbound rows requestId response now = .ok (answer, t) →
        t = rows ∧ ∀ row, outbound? rows requestId = some row → row.state = .committed →
          row.responseJson.getD [] = (Json.obj response).canonical ∧ answer = some row := by
  unfold commitOutbound
  cases hrow : outbound? rows requestId with
  | none =>
      refine .inr ⟨nofun, ?_⟩
      rintro answer t ⟨⟩
      exact ⟨rfl, nofun⟩
  | some row =>
      cases hs : row.state with
      | pending =>
          simp only [hs]
          exact .inl ⟨row, _, rfl, hs, rfl⟩
      | failed =>
          refine .inr ⟨?_, ?_⟩
          · rintro _ ⟨⟩ h
            cases hs.symm.trans h
          · simp only [hs]
            rintro answer t ⟨⟩
            refine ⟨rfl, ?_⟩
            rintro _ ⟨⟩ h
            cases hs.symm.trans h
      | committed =>
          refine .inr ⟨?_, ?_⟩
          · rintro _ ⟨⟩ h
            cases hs.symm.trans h
          · intro answer t h
            simp only [hs, bind_eq_ok, require_eq_ok, pure_eq_ok, Prod.mk.injEq] at h
            obtain ⟨-, hsame, rfl, rfl⟩ := h
            refine ⟨rfl, ?_⟩
            rintro _ ⟨⟩ -
            exact ⟨hsame, rfl⟩

variable [Sha256] [Conversions]

/-- A row of an intent that was checked, with its digest. -/
structure Outbound.Sound (row : Outbound) : Prop where
  fits : row.Fits
  intended : ∃ (intent : Intent) (action : DeliveryAction) (now : Int),
    intent.checked = .ok action ∧ (intent.row action now).Kept row

/-! ## One call -/

/-- How a call leaves the intents. -/
inductive Moved (rows : List Outbound) (c : Call) : List Outbound → Prop
  | added {intent : Intent} {action : DeliveryAction} {now : Int}
      (is : c = .prepareOutbound intent now) (checked : intent.checked = .ok action)
      (fresh : ∀ row ∈ rows, row.requestId ≠ intent.requestId) :
      Moved rows c (rows ++ [intent.row action now])
  | changed (next : Outbound → Outbound)
      (each : ∀ row ∈ rows,
        (next row = row ∧ (row.state = .pending → c.attempt? ≠ some row.requestId)) ∨
          row.state = .pending ∧ Changed row c (next row)) :
      Moved rows c (rows.map next)
  | pruned {retainSeconds now : Int} (is : c = .prune retainSeconds now) :
      Moved rows c (rows.filter fun row => !row.stale (now - retainSeconds))

theorem Moved.same (idle : ∀ row ∈ rows, row.state = .pending → c.attempt? ≠ some row.requestId) :
    Moved rows c rows := by
  have h : Moved rows c (rows.map id) := .changed id fun row hrow => .inl ⟨rfl, idle row hrow⟩
  rwa [List.map_id] at h

theorem Moved.update {selected : Outbound → Bool} {change : Outbound → Outbound}
    (given : ∀ row, selected row = true → Changed row c (change row))
    (others : ∀ row, c.attempt? = some row.requestId → selected row = true) :
    Moved rows c (updatePending rows selected change) := by
  apply Moved.changed
  intro row _
  by_cases h : row.state = .pending ∧ selected row = true
  · rw [if_pos h]
    exact .inr ⟨h.1, given row h.2⟩
  · rw [if_neg h]
    exact .inl ⟨rfl, fun hp ha => h ⟨hp, others row ha⟩⟩

theorem Moved.updateOne {requestId : String} {change : Outbound → Outbound}
    (is : c.attempt? = some requestId)
    (given : ∀ row, row.requestId = requestId → Changed row c (change row)) :
    Moved rows c (updatePending rows (fun row => row.requestId == requestId) change) := by
  apply Moved.update
  · exact fun row hrow => given row (beq_iff_eq.mp hrow)
  · exact fun row hrow => beq_iff_eq.mpr (Option.some.inj (is.symm.trans hrow)).symm

/-- A request that has an intent gets it back if it is the same, and a new one is added. -/
theorem prepareOutbound_eq_ok {intent : Intent} {now : Int} {answer : Outbound × Bool}
    {t : List Outbound} (h : prepareOutbound rows intent now = .ok (answer, t)) :
    (∃ row, outbound? rows intent.requestId = some row ∧ row.intentDigest = intent.digest ∧
      answer = (row, false) ∧ t = rows) ∨
    outbound? rows intent.requestId = none ∧ ∃ action, intent.checked = .ok action ∧
      t = rows ++ [intent.row action now] := by
  simp only [prepareOutbound, bind_eq_ok] at h
  obtain ⟨action, checked, h⟩ := h
  cases hrow : outbound? rows intent.requestId with
  | some row =>
      simp only [hrow, bind_eq_ok, require_eq_ok, pure_eq_ok, Prod.mk.injEq] at h
      obtain ⟨_, hdigest, hanswer, hrows⟩ := h
      exact .inl ⟨row, rfl, hdigest, hanswer.symm, hrows.symm⟩
  | none =>
      simp only [hrow, bind_eq_ok, pure_eq_ok, Prod.mk.injEq] at h
      obtain ⟨_, _, _, hrows⟩ := h
      exact .inr ⟨rfl, action, checked, hrows.symm⟩

theorem call_moved {db : Database} (unique : (db.outbound.map Outbound.requestId).Nodup)
    (c : Call) : Moved db.outbound c (call db c).1.outbound := by
  cases c with
  | prepareOutbound intent now =>
      have hsame : Moved db.outbound (.prepareOutbound intent now) db.outbound :=
        .same fun _ _ _ => nofun
      rcases onOutbound_cases db (prepareOutbound db.outbound intent now)
        (fun r => .prepared r.1 r.2) with ⟨answer, rows, hrows, hcall⟩ | ⟨e, hcall⟩
      · rw [call, hcall]
        rcases prepareOutbound_eq_ok hrows with ⟨_, -, -, -, rfl⟩ | ⟨hnone, action, checked, rfl⟩
        · exact hsame
        · exact .added rfl checked (Tables.find_eq_none.mp hnone)
      · rw [call, hcall]
        exact hsame
  | commitOutbound requestId response now =>
      rcases commitOutbound_cases db.outbound requestId response now with
        ⟨row, answer, -, -, h⟩ | ⟨idle, h⟩
      · rw [call, h]
        exact .updateOne rfl fun row hrow => hrow ▸ .committed
      · have hsame : Moved db.outbound (.commitOutbound requestId response now) db.outbound := by
          refine .same fun row hrow hp hid => ?_
          rw [Option.some.inj hid] at idle
          exact idle row (Tables.find_of_mem unique hrow) hp
        rcases onOutbound_cases db (commitOutbound db.outbound requestId response now) .row
          with ⟨answer, rows, hrows, hcall⟩ | ⟨e, hcall⟩
        · rw [call, hcall, (h answer rows hrows).1]
          exact hsame
        · rw [call, hcall]
          exact hsame
  | pendingOutboundFor scope now =>
      exact .update (fun row hrow => .expired (of_decide_eq_true hrow)) fun _ => nofun
  | deferOutbound requestId error now =>
      exact .updateOne rfl fun row hrow => hrow ▸ .deferred
  | failOutbound requestId error now =>
      exact .updateOne rfl fun row hrow => hrow ▸ .failed
  | prune retainSeconds now => exact .pruned rfl
  | _ => exact .same fun _ _ _ => nofun

/-! ## The invariant -/

structure OutboundInv (rows : List Outbound) : Prop where
  requests : (rows.map Outbound.requestId).Nodup
  sound : ∀ row ∈ rows, row.Sound

/-- A call keeps an intent, or prunes it when it is settled and old. -/
theorem Moved.kept {t : List Outbound} (h : Moved rows c t) :
    ∀ row ∈ rows, (∃ row' ∈ t, row.Kept row') ∨
      ∃ retainSeconds now, c = .prune retainSeconds now ∧ row.stale (now - retainSeconds) = true := by
  intro row hrow
  cases h with
  | added => exact .inl ⟨row, List.mem_append_left _ hrow, .refl row⟩
  | changed next each =>
      refine .inl ⟨next row, List.mem_map_of_mem hrow, ?_⟩
      rcases each row hrow with ⟨heq, -⟩ | ⟨hp, hc⟩
      · rw [heq]
        exact .refl row
      · exact hc.kept hp
  | @pruned retainSeconds now is =>
      cases hs : row.stale (now - retainSeconds) with
      | true => exact .inr ⟨retainSeconds, now, is, hs⟩
      | false => exact .inl ⟨row, List.mem_filter.mpr ⟨hrow, by rw [hs]; rfl⟩, .refl row⟩

theorem Moved.inv {t : List Outbound} (h : Moved rows c t) (hi : OutboundInv rows) :
    OutboundInv t := by
  cases h with
  | @added intent action now is checked fresh =>
      refine ⟨Tables.nodup_append_row hi.requests fresh, ?_⟩
      intro row hrow
      rcases List.mem_append.mp hrow with hrow | hrow
      · exact hi.sound row hrow
      · rw [List.mem_singleton.mp hrow]
        exact ⟨⟨rfl, rfl⟩, intent, action, now, checked, .refl _⟩
  | changed next each =>
      constructor
      · have hsame : rows.map (Outbound.requestId ∘ next) = rows.map Outbound.requestId := by
          apply List.map_congr_left
          intro row hrow
          rcases each row hrow with ⟨heq, -⟩ | ⟨hp, hc⟩
          · exact congrArg Outbound.requestId heq
          · exact (congrArg Outbound.requestId (hc.kept hp).fixed).trans rfl
        rw [List.map_map, hsame]
        exact hi.requests
      · intro row' hrow'
        obtain ⟨row, hrow, rfl⟩ := List.mem_map.mp hrow'
        have hs := hi.sound row hrow
        rcases each row hrow with ⟨heq, -⟩ | ⟨hp, hc⟩
        · rw [heq]
          exact hs
        · obtain ⟨intent, action, now, checked, hkept⟩ := hs.intended
          exact ⟨hc.fits hp hs.fits, intent, action, now, checked,
            .trans _ _ _ hkept (hc.kept hp)⟩
  | pruned =>
      exact ⟨Tables.nodup_filter hi.requests _, fun row hrow =>
        hi.sound row (List.mem_filter.mp hrow).1⟩

/-- Every call that submits an intent ahead of a place brings the place forward, and no other
call sets it back. -/
theorem Moved.ahead_le {t : List Outbound} (h : Moved rows c t) {k : Int ×ₗ (Int ×ₗ String)}
    (due : ∀ now ∈ c.clock?, (ofLex k).1 < now) :
    t.countP (ahead k) ≤ rows.countP (ahead k) -
      if rows.any fun row => ahead k row && decide (c.attempt? = some row.requestId) then 1
      else 0 := by
  have hidle (none : c.attempt? = none) :
      (rows.any fun row => ahead k row && decide (c.attempt? = some row.requestId)) = false := by
    simp [none]
  cases h with
  | @added intent action now is checked fresh =>
      subst is
      have hbehind : ahead k (intent.row action now) = false := by
        rw [Bool.eq_false_iff, ne_eq, ahead_eq_true]
        rintro ⟨-, hlt⟩
        have hk := due now rfl
        rcases Prod.Lex.lt_iff.mp hlt with hlt | ⟨heq, -⟩
        · change now < _ at hlt
          omega
        · change now = _ at heq
          omega
      rw [hidle rfl, List.countP_append, List.countP_singleton, hbehind]
      exact Nat.le_refl _
  | pruned is =>
      subst is
      rw [hidle rfl]
      exact List.filter_sublist.countP_le
  | changed next each =>
      have hkeep : ∀ row ∈ rows, ahead k (next row) = true → ahead k row = true := by
        intro row hrow hnext
        rcases each row hrow with ⟨heq, -⟩ | ⟨-, hc⟩
        · rwa [heq] at hnext
        · rw [hc.not_ahead due] at hnext
          cases hnext
      split
      · next htried =>
          obtain ⟨row, hrow, hand⟩ := List.any_eq_true.mp htried
          rw [Bool.and_eq_true, decide_eq_true_iff] at hand
          have hpending := (ahead_eq_true.mp hand.1).1
          rcases each row hrow with ⟨-, hidle⟩ | ⟨-, hc⟩
          · exact absurd hand.2 (hidle hpending)
          · have hlt := countP_map_lt hkeep hrow hand.1 (hc.not_ahead due)
            omega
      · rw [List.countP_map]
        exact List.countP_mono_left hkeep

end Intents

/-! ## Runs -/

section Runs

variable [Sha256] [Conversions]

theorem call_outboundInv (db : Database) (c : Call) (h : OutboundInv db.outbound) :
    OutboundInv (call db c).1.outbound :=
  (call_moved h.requests c).inv h

theorem inv_outbound (calls : List Call) : OutboundInv (run call Database.empty calls).outbound := by
  apply run_invariant (I := fun db => OutboundInv db.outbound) call call_outboundInv
  exact ⟨List.nodup_nil, fun _ h => absurd h List.not_mem_nil⟩

/-- A repeated request changes nothing, and gets the intent it made before if it is the same. -/
def Outbound.PreparedOnce (db : Database) (row : Outbound) : Prop :=
  ∀ intent now, intent.requestId = row.requestId →
    (call db (.prepareOutbound intent now)).1 = db ∧
      ∀ reply, (call db (.prepareOutbound intent now)).2 = .ok reply →
        row.intentDigest = intent.digest ∧ reply = .prepared row false

/-- A repeated commitment changes nothing, and is answered only if it is the one before. -/
def Outbound.CommittedOnce (db : Database) (row : Outbound) : Prop :=
  row.state = .committed → ∀ response now,
    (call db (.commitOutbound row.requestId response now)).1 = db ∧
      ∀ reply, (call db (.commitOutbound row.requestId response now)).2 = .ok reply →
        row.responseJson = some (Json.obj response).canonical ∧ reply = .row (some row)

theorem OutboundInv.preparedOnce {db : Database} (hi : OutboundInv db.outbound) {row : Outbound}
    (hrow : row ∈ db.outbound) : row.PreparedOnce db := by
  intro intent now hid
  have hfound : outbound? db.outbound intent.requestId = some row := by
    rw [hid]
    exact Tables.find_of_mem hi.requests hrow
  rw [call]
  rcases onOutbound_cases db (prepareOutbound db.outbound intent now)
    (fun r => .prepared r.1 r.2) with ⟨answer, rows, hrows, hcall⟩ | ⟨e, hcall⟩
  · rw [hcall]
    rcases prepareOutbound_eq_ok hrows with ⟨old, hold, hdigest, rfl, rfl⟩ | ⟨hnone, -⟩
    · rw [hfound] at hold
      cases hold
      refine ⟨rfl, ?_⟩
      rintro _ ⟨⟩
      exact ⟨hdigest, rfl⟩
    · rw [hfound] at hnone
      cases hnone
  · rw [hcall]
    refine ⟨rfl, ?_⟩
    rintro _ ⟨⟩

theorem OutboundInv.committedOnce {db : Database} (hi : OutboundInv db.outbound) {row : Outbound}
    (hrow : row ∈ db.outbound) : row.CommittedOnce db := by
  intro hcommitted response now
  have hfound : outbound? db.outbound row.requestId = some row :=
    Tables.find_of_mem hi.requests hrow
  have hfits := (hi.sound row hrow).fits
  rw [Outbound.Fits, hcommitted] at hfits
  obtain ⟨given, hgiven⟩ := Option.ne_none_iff_exists'.mp hfits.1
  rcases commitOutbound_cases db.outbound row.requestId response now with
    ⟨old, answer, hold, hpending, -⟩ | ⟨-, h⟩
  · rw [hfound] at hold
    cases hold
    cases hcommitted.symm.trans hpending
  · rw [call]
    rcases onOutbound_cases db (commitOutbound db.outbound row.requestId response now) .row
      with ⟨answer, rows, hrows, hcall⟩ | ⟨e, hcall⟩
    · obtain ⟨rfl, hanswer⟩ := h answer rows hrows
      obtain ⟨hsame, rfl⟩ := hanswer row hfound hcommitted
      rw [hgiven, Option.getD_some] at hsame
      rw [hcall]
      refine ⟨rfl, ?_⟩
      rintro _ ⟨⟩
      exact ⟨by rw [hgiven, hsame], rfl⟩
    · rw [hcall]
      refine ⟨rfl, ?_⟩
      rintro _ ⟨⟩

/-- In every run: one intent for each request, checked, with its digest and with the columns that
its state allows; an intent that is settled stays as it is until it is pruned as old, and one
that is not settled is never lost; a repeated request gets the intent it made before, and a
repeated commitment only the response it gave before. -/
theorem outbound_lifecycle (pre post : List Call) :
    let db := run call Database.empty pre
    (db.outbound.map Outbound.requestId).Nodup ∧ (∀ row ∈ db.outbound, row.Sound) ∧
    (∀ row ∈ db.outbound, (∃ row' ∈ (run call db post).outbound, row.Kept row') ∨
      ∃ e ∈ history call db post, ∃ row' ∈ e.before.outbound, row.Kept row' ∧
        ∃ retainSeconds now, e.action = .prune retainSeconds now ∧
          row'.stale (now - retainSeconds) = true) ∧
    ∀ row ∈ db.outbound, row.PreparedOnce db ∧ row.CommittedOnce db := by
  intro db
  have hi : OutboundInv db.outbound := inv_outbound pre
  refine ⟨hi.requests, hi.sound, ?_, ?_⟩
  · intro row hrow
    exact run_kept call (I := fun db => OutboundInv db.outbound) (R := Outbound.Kept)
      (D := fun e row => ∃ retainSeconds now, e.action = .prune retainSeconds now ∧
        row.stale (now - retainSeconds) = true)
      call_outboundInv .refl .trans (fun db c h => (call_moved h.requests c).kept) db hi post hrow
  · exact fun row hrow => ⟨hi.preparedOnce hrow, hi.committedOnce hrow⟩

/-- In every run, what the retries are given is due and in turn. A due intent that is left out has
the whole page ahead of it, and once enough of those ahead of it were submitted it is given,
whatever other calls went between. -/
theorem due_intents_in_turn (pre post : List Call) (limit now : Int)
    (valid : 1 ≤ limit ∧ limit ≤ 50) (row : Outbound) (pending : row.state = .pending)
    (due : row.retryAt.getD 0 ≤ now)
    (there : row ∈ (run call Database.empty (pre ++ post)).outbound)
    (later : ∀ c ∈ post, ∀ t ∈ c.clock?, row.retryAt.getD 0 < t) :
    let db := run call Database.empty pre
    let t := run call db post
    ∃ page, (call t (.pendingOutbound limit now)).2 = .ok (.rows page) ∧
      (page.Pairwise fun a b => a.turn < b.turn) ∧
      (∀ r ∈ page, r ∈ t.outbound ∧ r.state = .pending ∧ r.retryAt.getD 0 ≤ now) ∧
      (row ∈ page ∨ (page.length = limit.toNat ∧ ∀ r ∈ page, r.turn < row.turn) ∧
        limit.toNat + (history call db post).countP (Tries row.turn) ≤
          waiting row.turn db) := by
  intro db t
  rw [run_append] at there
  have hi : OutboundInv db.outbound := inv_outbound pre
  have hlast : OutboundInv t.outbound :=
    run_invariant (I := fun db => OutboundInv db.outbound) call call_outboundInv db hi post
  have hsorted : (pendingBy Outbound.turn (fun row => decide (row.retryAt.getD 0 ≤ now))
      t.outbound).Pairwise fun a b => a.turn < b.turn :=
    pendingBy_pairwise (turns_nodup hlast.requests)
  refine ⟨(pendingBy Outbound.turn (fun row => decide (row.retryAt.getD 0 ≤ now))
    t.outbound).take limit.toNat, ?_, hsorted.sublist (List.take_sublist _ _), ?_, ?_⟩
  · rw [call, pendingOutbound, require_bind valid]
    rfl
  · intro r hr
    obtain ⟨hmem, hp, hdue⟩ := mem_pendingBy.mp (List.mem_of_mem_take hr)
    exact ⟨hmem, hp, of_decide_eq_true hdue⟩
  · rcases Paging.take_of_sorted hsorted
      (mem_pendingBy.mpr ⟨there, pending, decide_eq_true due⟩) limit.toNat with hin | ⟨hfull, hbefore⟩
    · exact .inl hin
    · refine .inr ⟨⟨hfull, hbefore⟩, ?_⟩
      have hlower : ∀ (db : Database) (c : Call), OutboundInv db.outbound →
          (∀ now ∈ c.clock?, row.retryAt.getD 0 < now) →
          waiting row.turn (call db c).1 ≤ waiting row.turn db -
            if Tries row.turn ⟨db, c, (call db c).2⟩ then 1 else 0 :=
        fun db c h hdue => (call_moved h.requests c).ahead_le hdue
      have hrank := run_ranked call (I := fun db => OutboundInv db.outbound)
        (G := fun e => ∀ now ∈ e.action.clock?, row.retryAt.getD 0 < now)
        (fun db c h _ => call_outboundInv db c h) hlower db hi post
        fun e he => later e.action (history_actions call db post ▸ List.mem_map_of_mem he)
      -- The page is ahead of the row, and stands among the intents.
      have hpage : limit.toNat ≤ waiting row.turn t := by
        rw [← hfull, ← List.countP_eq_length.mpr fun r hr => ahead_eq_true.mpr
          ⟨(mem_pendingBy.mp (List.mem_of_mem_take hr)).2.1, hbefore r hr⟩]
        calc _ ≤ (pendingBy Outbound.turn _ t.outbound).countP (ahead row.turn) :=
              (List.take_sublist _ _).countP_le
          _ = (t.outbound.filter _).countP (ahead row.turn) :=
              (List.mergeSort_perm _ _).countP_eq _
          _ ≤ t.outbound.countP (ahead row.turn) := List.filter_sublist.countP_le
      change waiting row.turn t ≤ _ at hrank
      omega

end Runs

section Example

attribute [local instance] zeroDigest integersOnly

def greeting (requestId : String) : Intent where
  requestId
  sourceSessionId := "chat"
  sourceRunId := "run"
  snapshot := [("connection_id", .str "connection"), ("source_route_id", .str "route"),
    ("source_route_revision", .str "revision"), ("source_chat_id", .str "chat"),
    ("action", .str "instruction")]
  body := "Hello."
  action := "instruction"
  expiresAt := 100

/-- The first of two intents was put off. -/
theorem second_greeting_in_turn :
    ∃ page, (call (run call (run call Database.empty
        [.prepareOutbound (greeting "a") 0, .prepareOutbound (greeting "b") 0])
        [.deferOutbound "a" "offline" 5]) (.pendingOutbound 1 9)).2 = .ok (.rows page) ∧
      ∀ row ∈ page, row.state = .pending ∧ row.retryAt.getD 0 ≤ 9 := by
  obtain ⟨page, hpage, -, hrows, -⟩ := due_intents_in_turn
    [.prepareOutbound (greeting "a") 0, .prepareOutbound (greeting "b") 0]
    [.deferOutbound "a" "offline" 5] 1 9 (by decide) ((greeting "b").row .instruction 0) rfl
    (by decide) (List.mem_cons_of_mem _ List.mem_cons_self) (by
      intro c hc t ht
      cases List.mem_singleton.mp hc
      cases ht
      decide)
  exact ⟨page, hpage, fun row hrow => (hrows row hrow).2⟩

end Example

end AgentsServer.PeerDelivery
