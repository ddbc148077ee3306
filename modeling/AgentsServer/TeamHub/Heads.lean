import AgentsServer.Library.Latest
import AgentsServer.TeamHub.ListingPages

/-!
# Heads

The last arrival of a mailbox and the last Bulletin change of a team, and the
records that are made from them.
-/

namespace AgentsServer.TeamHub

open Library
open Notifications (MailArrival BulletinChange)

/-! ## The Bulletin head -/

def newerChange (best : Option ChangeRow) (c : ChangeRow) : Option ChangeRow :=
  match best with
  | some b => if b.sequence < c.sequence then some c else best
  | none => some c

def ChangeKind.shown : ChangeKind → Notifications.ChangeKind
  | .created => .created
  | .revised => .revised
  | .deleted => .deleted

def changeKindOf : Notifications.ChangeKind → ChangeKind
  | .created => .created
  | .revised => .revised
  | .deleted => .deleted

@[simp] theorem changeKindOf_shown (kind : ChangeKind) : changeKindOf kind.shown = kind := by
  cases kind <;> rfl

@[simp] theorem shown_changeKindOf (kind : Notifications.ChangeKind) :
    (changeKindOf kind).shown = kind := by
  cases kind <;> rfl

/-- The constructor of `BulletinChange`, where it does not raise. -/
def makeChange (teamId : String) (row : Option ChangeRow) : Option BulletinChange :=
  if ht : Notifications.isMailIdentifier teamId = true then
    match row with
    | none =>
        some {
          teamId, throughSequence := 0, details := none, team_ok := ht
          bounded := Nat.zero_le _, empty_or_details := by simp }
    | some c =>
        if hc : (c.sequence ≤ Notifications.maxMailSequence ∧ c.sequence ≠ 0) ∧
            Notifications.isChangeId c.id = true ∧ Notifications.isArrivalId c.messageId = true ∧
            1 ≤ c.messageVersion ∧ c.messageVersion ≤ Notifications.maxMailSequence then
          some {
            teamId, throughSequence := c.sequence
            details := some {
              changeId := c.id, messageId := c.messageId, changeKind := c.changeKind.shown
              messageVersion := c.messageVersion, change_ok := hc.2.1, message_ok := hc.2.2.1
              version_ok := hc.2.2.2 }
            team_ok := ht, bounded := hc.1.1, empty_or_details := by simp [hc.1.2] }
        else none
  else none

/-- The row a change was made from. -/
def changeRow (c : BulletinChange) : Option ChangeRow :=
  c.details.map fun d => {
    sequence := c.throughSequence, id := d.changeId, teamId := c.teamId, messageId := d.messageId
    changeKind := changeKindOf d.changeKind, messageVersion := d.messageVersion }

def bulletinCursorUnavailable : Failure :=
  .hubError "bulletin_cursor_unavailable" "Bulletin change cursor is unavailable" 409

namespace Hub

variable (h : Hub)

/-- The change of a team with the largest sequence. -/
def latestChange? (teamId : String) : Option ChangeRow :=
  (h.changes.filter fun c => c.teamId = teamId).foldl newerChange none

/-- `_team_bulletin_change`. The constructor of the empty change is not guarded. -/
def bulletinChange (teamId : String) : Except Failure BulletinChange :=
  match h.latestChange? teamId with
  | none => required (makeChange teamId none) .valueError
  | some c => required (makeChange teamId (some c)) bulletinCursorUnavailable

/-- `_team_bulletin_anchor_matches`. -/
def bulletinAnchorMatches (anchor : BulletinChange) : Bool :=
  anchor.throughSequence = 0 || h.changes.any fun c => some c = changeRow anchor

end Hub

/-! ## Rows and records -/

def mailThrough (row : Option ArrivalRow) : Nat :=
  row.elim 0 ArrivalRow.throughSequence

def bulletinThrough (row : Option ChangeRow) : Nat :=
  row.elim 0 ChangeRow.sequence

/-- The row an arrival was made from. -/
def arrivalRow (a : MailArrival) : Option ArrivalRow :=
  a.arrivalId.map fun id => {
    teamId := a.mailbox.teamId, nodeId := a.mailbox.recipientServerId
    throughSequence := a.throughSequence, arrivalId := id }

@[simp] theorem mailThrough_arrivalRow (a : MailArrival) :
    mailThrough (arrivalRow a) = a.throughSequence := by
  have hempty := a.empty_or_id
  unfold arrivalRow
  cases hid : a.arrivalId with
  | none =>
      rw [hid] at hempty
      exact hempty.symm
  | some id => rfl

@[simp] theorem bulletinThrough_changeRow (c : BulletinChange) :
    bulletinThrough (changeRow c) = c.throughSequence := by
  have hempty := c.empty_or_details
  unfold changeRow
  cases hd : c.details with
  | none => exact (hempty.mpr hd).symm
  | some d => rfl

/-- The constructor gives an arrival back from its own fields. -/
theorem makeArrival_self (a : MailArrival) :
    makeArrival a.mailbox.teamId a.mailbox.recipientServerId a.throughSequence a.arrivalId =
      some a := by
  obtain ⟨⟨teamId, nodeId, hteam, hnode⟩, sequence, id, hbounded, hempty⟩ := a
  unfold makeArrival
  rw [dif_pos ⟨hteam, hnode⟩]
  cases id with
  | none => exact dif_pos hempty
  | some id => exact dif_pos ⟨hbounded, hempty.1, hempty.2⟩

/-- The constructor keeps the row, and gives a change back from its row. -/
theorem makeChange_eq_some {teamId : String} {row : Option ChangeRow} {c : BulletinChange}
    (team : ∀ r ∈ row, r.teamId = teamId) :
    makeChange teamId row = some c ↔ c.teamId = teamId ∧ changeRow c = row := by
  constructor
  · intro hc
    unfold makeChange at hc
    split at hc
    · cases row with
      | none =>
          cases hc
          exact ⟨rfl, rfl⟩
      | some r =>
          dsimp only at hc
          split at hc
          · cases hc
            have hteam := team r rfl
            refine ⟨rfl, ?_⟩
            simp only [changeRow, Option.map_some, changeKindOf_shown]
            rw [← hteam]
          · cases hc
    · cases hc
  · rintro ⟨rfl, rfl⟩
    obtain ⟨teamId, sequence, details, hteam, hbounded, hempty⟩ := c
    unfold makeChange
    rw [dif_pos hteam]
    cases details with
    | none =>
        obtain rfl := hempty.mpr rfl
        rfl
    | some d =>
        have hne : sequence ≠ 0 := fun h0 => by cases hempty.mp h0
        have hd : (sequence ≤ Notifications.maxMailSequence ∧ sequence ≠ 0) ∧
            Notifications.isChangeId d.changeId = true ∧
            Notifications.isArrivalId d.messageId = true ∧
            1 ≤ d.messageVersion ∧ d.messageVersion ≤ Notifications.maxMailSequence :=
          ⟨⟨hbounded, hne⟩, d.change_ok, d.message_ok, d.version_ok⟩
        simp only [changeRow, Option.map_some, shown_changeKindOf]
        rw [dif_pos hd]

namespace Hub

variable {h t : Hub} {teamId nodeId : String}

/-- The mail head of a mailbox is the record made from its row. -/
theorem mailArrival_iff {a : MailArrival} : h.mailArrival teamId nodeId = .ok a ↔
    (a.mailbox.teamId = teamId ∧ a.mailbox.recipientServerId = nodeId) ∧
      arrivalRow a = h.arrival? teamId nodeId := by
  constructor
  · intro ha
    obtain ⟨hteam, hnode, hsequence, hid⟩ := Query.mailArrival_eq_ok ha
    refine ⟨⟨hteam, hnode⟩, ?_⟩
    unfold arrivalRow
    rw [hid, hsequence, hteam, hnode]
    cases hrow : h.arrival? teamId nodeId with
    | none => rfl
    | some row =>
        obtain ⟨_, rfl, rfl⟩ := arrival?_names hrow
        rfl
  · rintro ⟨⟨rfl, rfl⟩, hrow⟩
    unfold mailArrival
    rw [required_eq_ok, ← hrow]
    have hempty := a.empty_or_id
    have hself := makeArrival_self a
    unfold arrivalRow
    cases hid : a.arrivalId with
    | none =>
        rw [hid] at hempty hself
        dsimp only at hempty
        rw [hempty] at hself
        exact hself
    | some id =>
        rw [hid] at hself
        exact hself

theorem foldl_newerChange_mem (rows : List ChangeRow) (best : Option ChangeRow) {c : ChangeRow}
    (hc : rows.foldl newerChange best = some c) : best = some c ∨ c ∈ rows := by
  induction rows generalizing best with
  | nil => exact Or.inl hc
  | cons r rest ih =>
      rcases ih _ hc with hbest | hmem
      · unfold newerChange at hbest
        split at hbest
        · split at hbest
          · rw [Option.some.inj hbest]
            exact Or.inr List.mem_cons_self
          · exact Or.inl hbest
        · rw [Option.some.inj hbest]
          exact Or.inr List.mem_cons_self
      · exact Or.inr (List.mem_cons_of_mem _ hmem)

theorem latestChange?_names {c : ChangeRow} (hc : h.latestChange? teamId = some c) :
    c ∈ h.changes ∧ c.teamId = teamId := by
  rcases foldl_newerChange_mem _ _ hc with hnone | hmem
  · cases hnone
  · have hmem := List.mem_filter.mp hmem
    exact ⟨hmem.1, of_decide_eq_true hmem.2⟩

/-- The Bulletin head of a team is the record made from its row. -/
theorem bulletinChange_iff {c : BulletinChange} : h.bulletinChange teamId = .ok c ↔
    c.teamId = teamId ∧ changeRow c = h.latestChange? teamId := by
  have hteam : ∀ r ∈ h.latestChange? teamId, r.teamId = teamId := fun r hr =>
    (latestChange?_names hr).2
  rw [← makeChange_eq_some hteam]
  unfold bulletinChange
  cases h.latestChange? teamId with
  | none => exact required_eq_ok _ _ _
  | some row => exact required_eq_ok _ _ _

end Hub

/-! ## Records of a head -/

section Records

variable {h : Hub}

/-- The record is the mail head of its mailbox or older. -/
def Hub.KnowsMail (h : Hub) (a : MailArrival) : Prop :=
  Latest.Covers mailThrough (some (h.arrival? a.mailbox.teamId a.mailbox.recipientServerId))
    (arrivalRow a)

/-- The record is the Bulletin head of its team or older. -/
def Hub.KnowsBulletin (h : Hub) (c : BulletinChange) : Prop :=
  Latest.Covers bulletinThrough (some (h.latestChange? c.teamId)) (changeRow c)

theorem Hub.KnowsMail.of_ok {teamId nodeId : String} {a : MailArrival}
    (ha : h.mailArrival teamId nodeId = .ok a) : h.KnowsMail a := by
  obtain ⟨⟨rfl, rfl⟩, hrow⟩ := Hub.mailArrival_iff.mp ha
  exact ⟨_, rfl, Or.inr hrow⟩

theorem Hub.KnowsBulletin.of_ok {teamId : String} {c : BulletinChange}
    (hc : h.bulletinChange teamId = .ok c) : h.KnowsBulletin c := by
  obtain ⟨rfl, hrow⟩ := Hub.bulletinChange_iff.mp hc
  exact ⟨_, rfl, Or.inr hrow⟩

/-- A known record that has reached the head is the head. -/
theorem Hub.KnowsMail.head {a : MailArrival} (hk : h.KnowsMail a)
    (reached : mailThrough (h.arrival? a.mailbox.teamId a.mailbox.recipientServerId) ≤
      a.throughSequence) :
    h.mailArrival a.mailbox.teamId a.mailbox.recipientServerId = .ok a := by
  obtain ⟨head, hhead, hle⟩ := hk
  obtain rfl := Option.some.inj hhead
  rw [mailThrough_arrivalRow] at hle
  rcases hle with hlt | hrow
  · omega
  · exact Hub.mailArrival_iff.mpr ⟨⟨rfl, rfl⟩, hrow⟩

theorem Hub.KnowsBulletin.head {c : BulletinChange} (hk : h.KnowsBulletin c)
    (reached : bulletinThrough (h.latestChange? c.teamId) ≤ c.throughSequence) :
    h.bulletinChange c.teamId = .ok c := by
  obtain ⟨head, hhead, hle⟩ := hk
  obtain rfl := Option.some.inj hhead
  rw [bulletinThrough_changeRow] at hle
  rcases hle with hlt | hrow
  · omega
  · exact Hub.bulletinChange_iff.mpr ⟨rfl, hrow⟩

end Records

end AgentsServer.TeamHub
