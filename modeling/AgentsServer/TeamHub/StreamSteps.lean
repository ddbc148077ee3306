import AgentsServer.TeamHub.StreamInvariant

/-!
# What a stream does

The steps of `subscribe_team_notifications` and the takes of its stream keep what
streams have reached, so it holds in every run.
-/

namespace AgentsServer.TeamHub

open Library
open Notifications (MailArrival BulletinChange NotificationCursor Mailbox Broker Capacity
  Subscription Hint SubInv Published)

section Stream

variable {h : Hub} {owed : List Owed} {stage : Stage} {b : Broker} {i : Nat}
  {sub sub' : Subscription} {c : NotificationCursor}

theorem teamNotificationSnapshot_eq_ok {caller : Caller} {teamId : String}
    {previous : Option NotificationCursor}
    (hc : teamNotificationSnapshot h caller teamId previous = .ok c) :
    ∃ recipient, h.mailArrival teamId recipient = .ok c.mail ∧
      h.bulletinChange teamId = .ok c.bulletin := by
  unfold teamNotificationSnapshot at hc
  simp only [bind_eq_ok, require_eq_ok] at hc
  obtain ⟨_, _, recipient, _, _, _, mail, hmail, bulletin, hbulletin, hc⟩ := hc
  split at hc
  · rw [pure_eq_ok] at hc
    subst hc
    exact ⟨recipient, hmail, hbulletin⟩
  · cases hc

theorem turn_quiet {a : Notifications.Action} {out : Except Notifications.Failure Notifications.Answer}
    (turn : Notifications.Turn a out i sub sub') (hint : a.hint? = none)
    (seed : ∀ c, a ≠ .seed i c) (take : a ≠ .take i) (hopen : sub'.closed = false) :
    sub' = sub := by
  cases turn with
  | kept quiet => rfl
  | closed _ shut =>
      rw [shut] at hopen
      cases hopen
  | published _ _ action =>
      rw [hint] at action
      cases action
  | seeded c _ action => exact absurd action (seed c)
  | took _ action => exact absurd action take

/-- A stream that is given up. -/
theorem Tracks.failed (ht : Tracks h owed stage sub) : Tracks h owed .failed sub where
  mail := ht.mail
  bulletin := ht.bulletin
  unseeded hu := by cases hu
  snapshot _ hc := by cases hc
  mailReached hf := by cases hf
  bulletinReached hf := by cases hf
  streaming _ hc := by cases hc

/-- A fresh snapshot has reached both heads. -/
theorem Tracks.fresh {previous : Option NotificationCursor} {caller : Caller}
    (ht : Tracks h owed (.subscribed previous) sub)
    (hc : teamNotificationSnapshot h caller sub.mailbox.teamId previous = .ok c)
    (same : c.mailbox = sub.mailbox) : Tracks h owed (.fresh c) sub := by
  obtain ⟨recipient, hmail, hbulletin⟩ := teamNotificationSnapshot_eq_ok hc
  obtain ⟨⟨_, hnode⟩, hrow⟩ := Hub.mailArrival_iff.mp hmail
  obtain ⟨_, hchange⟩ := Hub.bulletinChange_iff.mp hbulletin
  have hrecipient : recipient = sub.mailbox.recipientServerId := by
    rw [← hnode, ← same]
    rfl
  refine ⟨ht.mail, ht.bulletin, fun _ => ht.unseeded rfl, ?_, ?_, ?_, ?_⟩
  · intro c' hc'
    cases hc'
    exact ⟨same, Hub.KnowsMail.of_ok hmail, Hub.KnowsBulletin.of_ok hbulletin⟩
  · intro _
    refine Or.inl ?_
    rw [← hrecipient, ← hrow, mailThrough_arrivalRow]
    exact Nat.le_max_left _ _
  · intro _
    refine Or.inl ?_
    rw [← hchange, bulletinThrough_changeRow]
    exact Nat.le_max_left _ _
  · intro c' hc'
    cases hc'

/-- A snapshot seeds its subscription or closes it. -/
theorem seed_step (hsub : b.objects[i]? = some sub) (hopen : sub.closed = false)
    (same : c.mailbox = sub.mailbox) (unseeded : sub.seeded = false) :
    Notifications.step b (.seed i c) =
      match sub.seed c with
      | none => (b.closeLocked i, .error (.mailHintClosed "Notification snapshot changed history"))
      | some sub' => (b.put i sub', .ok .done) := by
  cases hseed : sub.seed c with
  | none =>
      simp only [Notifications.step, Broker.seed, hsub, same, hopen, unseeded, ne_eq,
        not_true_eq_false, if_false, Bool.false_eq_true, hseed]
  | some _ =>
      simp only [Notifications.step, Broker.seed, hsub, same, hopen, unseeded, ne_eq,
        not_true_eq_false, if_false, Bool.false_eq_true, hseed]

theorem Tracks.seeded (ht : Tracks h owed (.fresh c) sub) (hp : sub.seed c = some sub') :
    Tracks h owed (.streaming c) sub' := by
  have spec := Notifications.seed_spec hp
  obtain ⟨same, hmail, hbulletin⟩ := ht.snapshot c rfl
  obtain ⟨hmle, hble⟩ := through_le spec.kept
  have hcm := covers_mail spec.mail
  have hcb := covers_bulletin spec.bulletin
  refine ⟨?_, ?_, ?_, ?_, ?_, ?_, ?_⟩
  · intro a ha
    rcases spec.mail_cases with he | he
    · rw [he, Option.some.injEq] at ha
      rw [← ha]
      exact hmail
    · rw [he] at ha
      exact ht.mail a ha
  · intro a ha
    rcases spec.bulletin_cases with he | he
    · rw [he, Option.some.injEq] at ha
      rw [← ha]
      exact hbulletin
    · rw [he] at ha
      exact ht.bulletin a ha
  · intro hu
    cases hu
  · intro c' hc'
    cases hc'
  · intro _
    rw [spec.mailbox]
    rcases ht.mailReached rfl with hle | howed
    · refine Or.inl (Nat.le_trans hle ?_)
      change max c.mail.throughSequence _ ≤ max 0 _
      omega
    · exact Or.inr howed
  · intro _
    rw [spec.mailbox]
    rcases ht.bulletinReached rfl with hle | howed
    · refine Or.inl (Nat.le_trans hle ?_)
      change max c.bulletin.throughSequence _ ≤ max 0 _
      omega
    · exact Or.inr howed
  · intro c' hc'
    cases hc'
    exact ⟨spec.seeded, spec.raced⟩

/-- A stream takes a cursor of both heads when a hint is pending, and none otherwise. -/
theorem take_step (hi : SubInv sub) (hsub : b.objects[i]? = some sub) (hopen : sub.closed = false)
    (seeded : sub.seeded = true) :
    (sub.pending = false ∧ Notifications.step b (.take i) = (b, .ok (.cursor none))) ∨
      ∃ cursor, Notifications.step b (.take i) =
          (b.put i { sub with pending := false }, .ok (.cursor (some cursor))) ∧
        sub.mail = some cursor.mail ∧ sub.bulletin = some cursor.bulletin := by
  cases hpending : sub.pending with
  | false => exact Or.inl ⟨rfl, by simp [Notifications.step, Broker.take, hsub, hopen, hpending]⟩
  | true =>
      obtain ⟨cursor, hmake, hm, hc⟩ := Notifications.makeCursor_ok hi hopen seeded
      refine Or.inr ⟨cursor, ?_, hm, hc⟩
      simp [Notifications.step, Broker.take, hsub, hopen, hpending, seeded, hmake, Except.map]

theorem Tracks.took (ht : Tracks h owed stage sub) (seeded : sub.seeded = true)
    (following : stage.isFollowing = true) (started : stage.snapshot? = none)
    (mail : sub.mail = some c.mail) (bulletin : sub.bulletin = some c.bulletin) :
    Tracks h owed (.streaming c) { sub with pending := false } where
  mail := ht.mail
  bulletin := ht.bulletin
  unseeded hu := by cases hu
  snapshot _ hc := by cases hc
  mailReached _ := by
    have hr := ht.mailReached following
    rw [Stage.mailThrough, started] at hr
    exact hr
  bulletinReached _ := by
    have hr := ht.bulletinReached following
    rw [Stage.bulletinThrough, started] at hr
    exact hr
  streaming c' hc' := by
    cases hc'
    exact ⟨seeded, fun _ => ⟨mail, bulletin⟩⟩

end Stream

namespace Streams.Sound

variable {s : Streams}

/-- A broker call that publishes nothing, about one subscription at most. -/
theorem at_one (hs : s.Sound) (i : Nat) (stage : Stage) {a : Notifications.Action}
    (hint : a.hint? = none)
    (subscribe : ∀ teamId recipient, a ≠ .subscribe teamId recipient)
    (other : ∀ j, j ≠ i → (∀ c, a ≠ .seed j c) ∧ a ≠ .take j)
    (one : ∀ sub sub', s.broker.objects[i]? = some sub →
      (Notifications.step s.broker a).1.objects[i]? = some sub' → sub.closed = false →
      sub'.closed = false → Tracks s.hub s.owed stage sub') :
    Streams.Sound { s with
      broker := (Notifications.step s.broker a).1
      stages := Function.update s.stages i stage } where
  broker := Notifications.step_inv _ _ hs.broker
  queue := hs.queue
  changes := hs.changes
  owed := hs.owed
  tracks j sub' hsub' hopen := by
    obtain ⟨sub, hsub⟩ := object_before (Notifications.step_length a subscribe) hsub'
    obtain ⟨t, ht, turn⟩ := (Notifications.step_turn hs.broker a).2 j sub hsub
    obtain rfl : sub' = t := Option.some.inj (hsub'.symm.trans ht)
    have hbefore : sub.closed = false := by
      cases hclosed : sub.closed with
      | false => rfl
      | true =>
          rw [turn.closed_stays hclosed] at hopen
          cases hopen
    dsimp only
    by_cases hj : j = i
    · subst hj
      rw [Function.update_self]
      exact one sub sub' hsub hsub' hbefore hopen
    · rw [Function.update_of_ne hj]
      obtain ⟨hseed, htake⟩ := other j hj
      rw [turn_quiet turn hint hseed htake hopen]
      exact hs.tracks j sub hsub hbefore

/-- A broker call that closes subscriptions. -/
theorem closing (hs : s.Sound) {a : Notifications.Action} (hint : a.hint? = none)
    (subscribe : ∀ teamId recipient, a ≠ .subscribe teamId recipient)
    (other : ∀ j, (∀ c, a ≠ .seed j c) ∧ a ≠ .take j) :
    Streams.Sound { s with broker := (Notifications.step s.broker a).1 } := by
  have hone := hs.at_one 0 (s.stages 0) hint subscribe (fun j _ => other j) (by
    intro sub sub' hsub hsub' hbefore hopen
    obtain ⟨t, ht, turn⟩ := (Notifications.step_turn hs.broker a).2 0 sub hsub
    obtain rfl : sub' = t := Option.some.inj (hsub'.symm.trans ht)
    rw [turn_quiet turn hint (other 0).1 (other 0).2 hopen]
    exact hs.tracks 0 sub hsub hbefore)
  rw [Function.update_eq_self] at hone
  exact hone

theorem subscribe (hs : s.Sound) (k : Nat) : (s.subscribe k).Sound := by
  unfold Streams.subscribe
  cases hk : s.bindings[k]? with
  | none => exact hs
  | some binding =>
      have hinv := Notifications.step_inv s.broker
        (.subscribe binding.mailbox.teamId binding.mailbox.recipientServerId) hs.broker
      dsimp only
      rcases Notifications.subscribe_cases s.broker binding.mailbox.teamId
        binding.mailbox.recipientServerId with ⟨e, he⟩ | ⟨mailbox, b', _, he, hobjects⟩
      · rw [Notifications.step, he]
        exact ⟨hs.broker, hs.queue, hs.changes, hs.owed, hs.tracks⟩
      · rw [Notifications.step, he] at hinv ⊢
        refine ⟨hinv, hs.queue, hs.changes, hs.owed, ?_⟩
        intro j sub hsub hopen
        dsimp only at hsub ⊢
        rw [hobjects] at hsub
        by_cases hj : j = s.broker.objects.length
        · subst hj
          rw [List.getElem?_concat_length] at hsub
          obtain rfl := Option.some.inj hsub
          rw [Function.update_self]
          refine ⟨?_, ?_, fun _ => rfl, ?_, ?_, ?_, ?_⟩
          · intro a ha
            cases ha
          · intro c hc
            cases hc
          · intro c hc
            cases hc
          · intro hf
            cases hf
          · intro hf
            cases hf
          · intro c hc
            cases hc
        · have hlt : j < s.broker.objects.length := by
            have hlt := (List.getElem?_eq_some_iff.mp hsub).1
            rw [List.length_append, List.length_singleton] at hlt
            omega
          rw [List.getElem?_append_left hlt] at hsub
          rw [Function.update_of_ne hj]
          exact hs.tracks j sub hsub hopen

theorem snapshot (hs : s.Sound) (i : Nat) (caller : Caller) : (s.snapshot i caller).Sound := by
  unfold Streams.snapshot
  split
  · next previous sub hstage hsub =>
      refine ⟨hs.broker, hs.queue, hs.changes, hs.owed, ?_⟩
      intro j sub' hsub' hopen
      have ht := hs.tracks j sub' hsub' hopen
      dsimp only
      by_cases hj : j = i
      · subst hj
        obtain rfl : sub' = sub := Option.some.inj (hsub'.symm.trans hsub)
        rw [Function.update_self]
        rw [hstage] at ht
        split
        · next c hc =>
            split
            · next same => exact ht.fresh hc same
            · exact ht.failed
        · exact ht.failed
      · rw [Function.update_of_ne hj]
        exact ht
  · exact hs

theorem seed (hs : s.Sound) (i : Nat) : (s.seed i).Sound := by
  unfold Streams.seed
  split
  · next c hstage =>
      have hother : ∀ j, j ≠ i →
          (∀ c', Notifications.Action.seed i c ≠ .seed j c') ∧
            Notifications.Action.seed i c ≠ .take j := by
        intro j hj
        refine ⟨?_, ?_⟩
        · intro c' he
          cases he
          exact hj rfl
        · intro he
          cases he
      have hstep : ∀ sub sub', s.broker.objects[i]? = some sub →
          (Notifications.step s.broker (.seed i c)).1.objects[i]? = some sub' →
          sub.closed = false → sub'.closed = false →
          (∃ a, (Notifications.step s.broker (.seed i c)).2 = .ok a) ∧
            Tracks s.hub s.owed (.streaming c) sub' := by
        intro sub sub' hsub hsub' hbefore hopen
        have ht := hs.tracks i sub hsub hbefore
        rw [hstage] at ht
        rw [seed_step hsub hbefore (ht.snapshot c rfl).1 (ht.unseeded rfl)] at hsub' ⊢
        cases hp : sub.seed c with
        | none =>
            rw [hp] at hsub'
            dsimp only at hsub'
            rw [(hs.broker.closeOpen hsub hbefore).2, if_pos rfl, Option.some.injEq] at hsub'
            rw [← hsub'] at hopen
            cases hopen
        | some t =>
            rw [hp] at hsub'
            dsimp only at hsub'
            rw [Notifications.put_objects hsub, if_pos rfl, Option.some.injEq] at hsub'
            rw [← hsub']
            exact ⟨⟨_, rfl⟩, ht.seeded hp⟩
      have hsubscribe : ∀ teamId recipient,
          Notifications.Action.seed i c ≠ .subscribe teamId recipient := by
        intro _ _ he
        cases he
      split
      · next b' a he =>
          have hsound := hs.at_one i (.streaming c) rfl hsubscribe hother
            fun sub sub' hsub hsub' hbefore hopen => (hstep sub sub' hsub hsub' hbefore hopen).2
          rw [he] at hsound
          exact hsound
      · next b' e he =>
          have hsound := hs.at_one i .failed rfl hsubscribe hother (by
            intro sub sub' hsub hsub' hbefore hopen
            obtain ⟨⟨a, ha⟩, _⟩ := hstep sub sub' hsub hsub' hbefore hopen
            rw [he] at ha
            cases ha)
          rw [he] at hsound
          exact hsound
  · exact hs

theorem take (hs : s.Sound) (i : Nat) : (s.take i).Sound := by
  unfold Streams.take
  split
  · next c hstage =>
      have hother : ∀ j, j ≠ i →
          (∀ c', Notifications.Action.take i ≠ .seed j c') ∧
            Notifications.Action.take i ≠ .take j := by
        intro j hj
        refine ⟨?_, ?_⟩
        · intro c' he
          cases he
        · intro he
          cases he
          exact hj rfl
      have hsubscribe : ∀ teamId recipient,
          Notifications.Action.take i ≠ .subscribe teamId recipient := by
        intro _ _ he
        cases he
      split
      · next b' cursor he =>
          have hsound := hs.at_one i (.streaming cursor) rfl hsubscribe hother (by
            intro sub sub' hsub hsub' hbefore _
            have ht := hs.tracks i sub hsub hbefore
            have hseeded := (ht.streaming c hstage).1
            rcases take_step (hs.broker.objects i sub hsub) hsub hbefore hseeded with
              ⟨_, hstep⟩ | ⟨cursor', hstep, hm, hb⟩
            · rw [hstep] at he
              cases he
            · rw [hstep] at he
              cases he
              rw [hstep] at hsub'
              dsimp only at hsub'
              rw [Notifications.put_objects hsub, if_pos rfl, Option.some.injEq] at hsub'
              rw [← hsub']
              rw [hstage] at ht
              exact ht.took hseeded rfl rfl hm hb)
          rw [he] at hsound
          exact hsound
      · next b' out hnone he =>
          have hsound := hs.at_one i (s.stages i) rfl hsubscribe hother (by
            intro sub sub' hsub hsub' hbefore _
            have ht := hs.tracks i sub hsub hbefore
            rcases take_step (hs.broker.objects i sub hsub) hsub hbefore
              (ht.streaming c hstage).1 with ⟨_, hstep⟩ | ⟨cursor', hstep, _⟩
            · rw [hstep] at hsub'
              obtain rfl := Option.some.inj (hsub.symm.trans hsub')
              exact ht
            · rw [hstep] at he
              cases he
              exact absurd rfl (hnone cursor'))
          rw [Function.update_eq_self, he] at hsound
          exact hsound
  · exact hs

variable [Sha256] [UnicodeTables] [Conversions]

omit [Sha256] [UnicodeTables] [Conversions] in
theorem start (capacity : Capacity) : (Streams.start capacity).Sound where
  broker := Notifications.Inv.new capacity
  queue := empty_queue
  changes _ hc := by cases hc
  owed _ ho := by cases ho
  tracks i sub hsub := by cases hsub

theorem call (hs : s.Sound) (call : Call) : (s.step (.call call)).1.Sound := by
  obtain ⟨hbounded, ha⟩ := step_announces hs.queue hs.changes call
  refine ⟨hs.broker, (step_queue hs.queue call).1, hbounded, ?_, ?_⟩
  · intro o ho
    rcases List.mem_append.mp ho with ho | ho
    · exact (hs.owed o ho).commit ha
    · obtain ⟨p, hp, rfl⟩ := List.mem_map.mp ho
      exact .of_publication ha hp
  · intro i sub hsub hopen
    exact (hs.tracks i sub hsub hopen).commit ha

theorem step (hs : s.Sound) (a : StreamAction) : (s.step a).1.Sound := by
  cases a with
  | call call => exact hs.call call
  | publish k => exact hs.publish k
  | fail k => exact hs.fail k
  | identify caller teamId previous =>
      unfold Streams.step
      dsimp only
      split
      · exact ⟨hs.broker, hs.queue, hs.changes, hs.owed, hs.tracks⟩
      · exact hs
  | subscribe k => exact hs.subscribe k
  | snapshot i caller => exact hs.snapshot i caller
  | seed i => exact hs.seed i
  | take i => exact hs.take i
  | close i =>
      exact hs.closing rfl (fun _ _ => by simp)
        fun _ => ⟨fun _ => by simp, by simp⟩
  | invalidate teamId recipientServerId =>
      exact hs.closing rfl (fun _ _ => by simp)
        fun _ => ⟨fun _ => by simp, by simp⟩
  | closeBroker =>
      exact hs.closing rfl (fun _ _ => by simp)
        fun _ => ⟨fun _ => by simp, by simp⟩

theorem run (capacity : Capacity) (actions : List StreamAction) :
    (Runs.run Streams.step (Streams.start capacity) actions).Sound :=
  Runs.run_invariant Streams.step (I := Streams.Sound) (fun _ a hs => hs.step a)
    (Streams.start capacity) (start capacity) actions

end Streams.Sound

end AgentsServer.TeamHub
