import AgentsServer.TeamHub.StreamSteps

/-!
# No lost notification

Once nothing is owed, every open stream with no pending hint has reported the mail
head of its mailbox and the Bulletin head of its team.
-/

namespace AgentsServer.TeamHub

open Library
open Notifications (MailArrival BulletinChange NotificationCursor Mailbox Broker Capacity
  Subscription Hint SubInv Published)

variable [Sha256] [UnicodeTables] [Conversions]

omit [Sha256] [UnicodeTables] [Conversions] in
/-- A stream for which nothing is owed or pending has reported both heads. -/
theorem Streams.Sound.reported {s : Streams} (hs : s.Sound) (settled : s.owed = []) {i : Nat}
    {sub : Subscription} {c : NotificationCursor} (hsub : s.broker.objects[i]? = some sub)
    (streaming : s.stages i = .streaming c) (hopen : sub.closed = false)
    (idle : sub.pending = false) :
    s.hub.mailArrival sub.mailbox.teamId sub.mailbox.recipientServerId = .ok c.mail ∧
      s.hub.bulletinChange sub.mailbox.teamId = .ok c.bulletin := by
  have ht := hs.tracks i sub hsub hopen
  have hi := hs.broker.objects i sub hsub
  obtain ⟨_, hreported⟩ := ht.streaming c streaming
  obtain ⟨hmail, hbulletin⟩ := hreported idle
  have hbox := hi.mailbox _ hmail
  have hteam := hi.team _ hbulletin
  have hfollowing : (s.stages i).isFollowing = true := by
    rw [streaming]
    rfl
  have hthrough : (s.stages i).mailThrough sub = c.mail.throughSequence ∧
      (s.stages i).bulletinThrough sub = c.bulletin.throughSequence := by
    rw [streaming]
    simp [Stage.mailThrough, Stage.bulletinThrough, Stage.snapshot?, subMailThrough,
      subBulletinThrough, hmail, hbulletin]
  constructor
  · rcases ht.mailReached hfollowing with hle | ⟨o, ho, _⟩
    · rw [hthrough.1, ← hbox] at hle
      rw [← hbox]
      exact (ht.mail _ hmail).head hle
    · rw [settled] at ho
      cases ho
  · rcases ht.bulletinReached hfollowing with hle | ⟨o, ho, _⟩
    · rw [hthrough.2, ← hteam] at hle
      rw [← hteam]
      exact (ht.bulletin _ hbulletin).head hle
    · rw [settled] at ho
      cases ho

/-- How the heads of a later state stand to those of an earlier one: each is the same
or has a larger number. -/
structure HeadsAdvance (h t : Hub) : Prop where
  mail : ∀ teamId nodeId,
    Latest.Covers mailThrough (some (t.arrival? teamId nodeId)) (h.arrival? teamId nodeId)
  bulletin : ∀ teamId,
    Latest.Covers bulletinThrough (some (t.latestChange? teamId)) (h.latestChange? teamId)

omit [Sha256] [UnicodeTables] [Conversions] in
theorem HeadsAdvance.refl (h : Hub) : HeadsAdvance h h :=
  ⟨fun _ _ => Latest.covers_self _, fun _ => Latest.covers_self _⟩

omit [Sha256] [UnicodeTables] [Conversions] in
theorem HeadsAdvance.trans {h t u : Hub} (first : HeadsAdvance h t) (second : HeadsAdvance t u) :
    HeadsAdvance h u :=
  ⟨fun teamId nodeId => (second.mail teamId nodeId).trans (first.mail teamId nodeId),
    fun teamId => (second.bulletin teamId).trans (first.bulletin teamId)⟩

/-- Only a call moves the tables. -/
theorem Streams.step_hub (s : Streams) (a : StreamAction) :
    (∃ call, a = .call call) ∨ (s.step a).1.hub = s.hub := by
  cases a with
  | call call => exact Or.inl ⟨call, rfl⟩
  | publish k =>
      refine Or.inr ?_
      change (s.publish k).hub = s.hub
      unfold Streams.publish Streams.invalidate
      repeat' split
      all_goals rfl
  | fail k =>
      refine Or.inr ?_
      change (s.fail k).hub = s.hub
      unfold Streams.fail
      split <;> rfl
  | identify caller teamId previous =>
      refine Or.inr ?_
      simp only [Streams.step]
      split <;> rfl
  | subscribe k =>
      refine Or.inr ?_
      change (s.subscribe k).hub = s.hub
      unfold Streams.subscribe
      split
      · rfl
      · dsimp only
        split <;> rfl
  | snapshot i caller =>
      refine Or.inr ?_
      change (s.snapshot i caller).hub = s.hub
      unfold Streams.snapshot
      split <;> rfl
  | seed i =>
      refine Or.inr ?_
      change (s.seed i).hub = s.hub
      unfold Streams.seed
      repeat' split
      all_goals rfl
  | take i =>
      refine Or.inr ?_
      change (s.take i).hub = s.hub
      unfold Streams.take
      repeat' split
      all_goals rfl
  | close i => exact Or.inr rfl
  | invalidate teamId recipientServerId => exact Or.inr rfl
  | closeBroker => exact Or.inr rfl

theorem Streams.Sound.advance {s : Streams} (hs : s.Sound) (a : StreamAction) :
    HeadsAdvance s.hub (s.step a).1.hub := by
  rcases s.step_hub a with ⟨call, rfl⟩ | hsame
  · obtain ⟨_, ha⟩ := step_announces hs.queue hs.changes call
    exact ⟨ha.mail_covers, ha.bulletin_covers⟩
  · rw [hsame]
    exact .refl s.hub

/-- No lost notification, in every run of calls, publications and streams. -/
theorem no_lost_notification (capacity : Capacity) (actions : List StreamAction) :
    let s := Runs.run Streams.step (Streams.start capacity) actions
    (s.owed = [] → ∀ i sub c, s.broker.objects[i]? = some sub → s.stages i = .streaming c →
      sub.closed = false → sub.pending = false →
      s.hub.mailArrival sub.mailbox.teamId sub.mailbox.recipientServerId = .ok c.mail ∧
        s.hub.bulletinChange sub.mailbox.teamId = .ok c.bulletin) ∧
    (∀ call : Call, ((∃ e, (step s.hub call).2 = .error e) ∨
        ∃ key fp row, call.identity = .ok (key, fp) ∧
          s.hub.request? (call.requestKey key) = some row) →
      ∀ teamId nodeId,
        (step s.hub call).1.arrival? teamId nodeId = s.hub.arrival? teamId nodeId ∧
        (step s.hub call).1.latestChange? teamId = s.hub.latestChange? teamId) ∧
    ∀ more, HeadsAdvance s.hub (Runs.run Streams.step s more).hub := by
  intro s
  have hs : s.Sound := .run capacity actions
  refine ⟨?_, ?_, ?_⟩
  · intro settled i sub c hsub streaming hopen idle
    exact hs.reported settled hsub streaming hopen idle
  · intro call hcall teamId nodeId
    have hstays : (step s.hub call).1 = s.hub := by
      rcases hcall with ⟨e, he⟩ | ⟨key, fp, row, hidentity, hrow⟩
      · rcases step_cases s.hub call with ⟨_, _, _, _, hstep, _⟩ | ⟨_, hstep⟩
        · rw [hstep] at he
          cases he
        · rw [hstep]
      · exact (step_of_remembered hidentity hrow).1
    rw [hstays]
    exact ⟨rfl, rfl⟩
  · intro more
    exact Runs.run_related Streams.step (I := Streams.Sound)
      (R := fun s t => HeadsAdvance s.hub t.hub) (fun _ a hs => hs.step a)
      (fun s => .refl s.hub) (fun _ _ _ => .trans) (fun _ a hs => hs.advance a) s hs more

end AgentsServer.TeamHub
