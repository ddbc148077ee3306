import AgentsServer.Transcript.Reader
import Mathlib.Tactic.Common

/-!
# Preview and creation agree

A reading of a log that returns is repeated exactly by a reading of any longer
log up to the same boundary, and its digest determines the bytes read and the
messages shown.
-/

namespace AgentsServer.Transcript

open Library

/-! ## Lines -/

theorem take_lineOf (rest : Bytes) : lineOf rest = rest.take (lineOf rest).length := by
  induction rest with
  | nil => rfl
  | cons b rest ih =>
      rw [lineOf]
      split
      · next hb => simp [hb]
      · rw [List.length_cons, List.take_succ_cons, ← ih]

theorem lineOf_length_le (rest : Bytes) : (lineOf rest).length ≤ rest.length := by
  rw [take_lineOf, List.length_take]
  exact Nat.min_le_right _ _

/-- A complete line is the first line of every prefix that holds it. -/
theorem lineOf_take {rest : Bytes} (complete : (lineOf rest).getLast? = some 10) {k : Nat}
    (h : (lineOf rest).length ≤ k) : lineOf (rest.take k) = lineOf rest := by
  induction rest generalizing k with
  | nil => simp
  | cons b rest ih =>
      rw [lineOf] at complete h ⊢
      cases k with
      | zero =>
          split at h <;> simp at h
      | succ k =>
          rw [List.take_succ_cons, lineOf]
          split
          · rfl
          · next hb =>
              rw [if_neg hb] at complete h
              rw [List.length_cons] at h
              have hrest : (lineOf rest).getLast? = some 10 := by
                cases hl : lineOf rest with
                | nil =>
                    rw [hl, List.getLast?_singleton, Option.some.injEq] at complete
                    exact absurd complete hb
                | cons c cs =>
                    rw [hl, List.getLast?_cons_cons] at complete
                    exact complete
              rw [ih hrest (Nat.le_of_succ_le_succ h)]

/-- A line within the limit is a whole line. -/
theorem readline_eq {rest : Bytes}
    (h : (readline (min (maxLineBytes + 1) rest.length) rest).length ≤ maxLineBytes) :
    readline (min (maxLineBytes + 1) rest.length) rest = lineOf rest := by
  have hle := lineOf_length_le rest
  rw [readline, List.length_take] at h
  rw [readline, List.take_of_length_le]
  omega

section Readings

variable {σ τ : Type} [Sha256] [Conversions] [Times] [Loads]
variable {project : Project σ} {project' : Project τ} {sink sink' : Bool}
variable {scan scan' : Scan σ}

/-! ## One record -/

omit [Sha256] [Conversions] [Times] [Loads] in
/-- What the list accepts the sink accepts. -/
theorem addMessage_sink {message : Message} (hsink : sink = true → sink' = true)
    (h : scan.addMessage sink message = .ok scan') : scan.addMessage sink' message = .ok scan' := by
  simp only [Scan.addMessage, bind_eq_ok, require_eq_ok, pure_eq_ok] at h ⊢
  obtain ⟨_, hroom, rfl⟩ := h
  refine ⟨(), ?_, rfl⟩
  cases hroom with
  | inl hs => exact Or.inl (hsink hs)
  | inr hfits => exact Or.inr hfits

omit [Conversions] [Times] [Loads] in
theorem addText_sink {run kind : String} {message : Message} (hsink : sink = true → sink' = true)
    (h : scan.addText sink run kind message = .ok scan') :
    scan.addText sink' run kind message = .ok scan' := by
  simp only [Scan.addText, bind_eq_ok, require_eq_ok] at h ⊢
  obtain ⟨_, hsize, h⟩ := h
  refine ⟨(), hsize, ?_⟩
  split at h
  · next hr =>
      rw [if_pos hr]
      exact h
  · next hr =>
      rw [if_neg hr]
      exact addMessage_sink hsink h

omit [Loads] in
theorem show_sink {event : Event} {kind : String} (hsink : sink = true → sink' = true)
    (h : scan.show sink event kind = .ok scan') : scan.show sink' event kind = .ok scan' := by
  simp only [Scan.show, bind_eq_ok, require_eq_ok] at h ⊢
  obtain ⟨_, hrun, videos, hvideos, h⟩ := h
  refine ⟨(), hrun, videos, hvideos, ?_⟩
  cases ht : shownText event kind videos with
  | none =>
      simp only [ht] at h ⊢
      exact h
  | some text =>
      simp only [ht] at h ⊢
      exact addText_sink hsink h

theorem record_sink {line : Bytes} (hsink : sink = true → sink' = true)
    (h : scan.record project sink line = .ok scan') : scan.record project sink' line = .ok scan' := by
  simp only [Scan.record] at h ⊢
  split at h
  · cases h
  · next raw hl =>
      simp only [bind_eq_ok] at h ⊢
      obtain ⟨kind, hkind, ⟨out, projector⟩, hoffer, h⟩ := h
      refine ⟨kind, hkind, ⟨out, projector⟩, hoffer, ?_⟩
      cases out with
      | none => exact h
      | some event =>
          simp only at h ⊢
          split at h
          · next he =>
              rw [if_pos he]
              exact h
          · next he =>
              rw [if_neg he]
              exact show_sink hsink h
  · cases h

/-! ## What a scan hashes -/

/-- The scan hashed exactly the messages it has. -/
def Scan.Framed (scan : Scan σ) : Prop :=
  scan.projected = utf8 (opened scan.messages)

omit [Sha256] [Conversions] [Times] [Loads] in
theorem fresh_framed (start : σ) : (Scan.fresh start).Framed := rfl

omit [Sha256] [Conversions] [Times] [Loads] in
theorem addMessage_spec {message : Message} (h : scan.addMessage sink message = .ok scan') :
    scan'.source = scan.source ∧ (scan.Framed → scan'.Framed) := by
  simp only [Scan.addMessage, bind_eq_ok, require_eq_ok, pure_eq_ok] at h
  obtain ⟨_, _, rfl⟩ := h
  refine ⟨rfl, fun framed => ?_⟩
  change scan.projected ++ (if scan.messages = [] then [] else utf8 [',']) ++ message.encoded =
    utf8 (opened (scan.messages ++ [message]))
  rw [framed, opened_append, utf8_append, utf8_append]
  split <;> rfl

omit [Conversions] [Times] [Loads] in
theorem addText_spec {run kind : String} {message : Message}
    (h : scan.addText sink run kind message = .ok scan') :
    scan'.source = scan.source ∧ (scan.Framed → scan'.Framed) := by
  simp only [Scan.addText, bind_eq_ok] at h
  obtain ⟨_, _, h⟩ := h
  split at h
  · rw [pure_eq_ok] at h
    rw [← h]
    exact ⟨rfl, id⟩
  · obtain ⟨hsource, hframed⟩ := addMessage_spec h
    exact ⟨hsource, hframed⟩

omit [Loads] in
theorem show_spec {event : Event} {kind : String} (h : scan.show sink event kind = .ok scan') :
    scan'.source = scan.source ∧ (scan.Framed → scan'.Framed) := by
  simp only [Scan.show, bind_eq_ok] at h
  obtain ⟨_, _, videos, _, h⟩ := h
  have popped : (if isUserEvent event kind = true then scan.setOutput (shownRun event) none
      else scan).source = scan.source ∧ (scan.Framed →
      (if isUserEvent event kind = true then scan.setOutput (shownRun event) none
        else scan).Framed) := by
    split <;> exact ⟨rfl, id⟩
  cases ht : shownText event kind videos with
  | none =>
      simp only [ht, pure_eq_ok] at h
      rw [← h]
      exact popped
  | some text =>
      simp only [ht] at h
      obtain ⟨hsource, hframed⟩ := addText_spec h
      exact ⟨hsource.trans popped.1, fun framed => hframed (popped.2 framed)⟩

theorem record_spec {line : Bytes} (h : scan.record project sink line = .ok scan') :
    scan'.source = scan.source ++ line ∧ (scan.Framed → scan'.Framed) := by
  simp only [Scan.record] at h
  split at h
  · cases h
  · simp only [bind_eq_ok] at h
    obtain ⟨kind, _, ⟨out, projector⟩, _, h⟩ := h
    cases out with
    | none =>
        rw [pure_eq_ok] at h
        rw [← h]
        exact ⟨rfl, id⟩
    | some event =>
        simp only at h
        split at h
        · rw [pure_eq_ok] at h
          rw [← h]
          exact ⟨rfl, id⟩
        · obtain ⟨hsource, hframed⟩ := show_spec h
          exact ⟨hsource, hframed⟩
  · cases h

/-! ## The loop again -/

/-- A reading that returned took a prefix of its bytes. Any reading of exactly
that prefix ends in the same scan or runs out of time. -/
theorem readLoop_again {loop : Loop} {tick tick' : Nat} {rest : Bytes}
    (h : readLoop project sink loop tick scan rest = .ok (scan', tick')) :
    ∃ k, k ≤ rest.length ∧ scan'.source = scan.source ++ rest.take k ∧
      (scan.Framed → scan'.Framed) ∧
      ∀ (sink' : Bool) (loop' : Loop) (tick₁ : Nat), (sink = true → sink' = true) →
        (∃ tick₂, readLoop project sink' loop' tick₁ scan (rest.take k) = .ok (scan', tick₂)) ∨
        (readLoop project sink' loop' tick₁ scan (rest.take k) = .error timedOut ∧
          ∃ t, loop'.deadline ≤ loop'.clock t) := by
  induction hn : rest.length using Nat.strongRecOn generalizing scan rest tick with
  | ind n ih =>
      rw [readLoop] at h
      have nothing : scan' = scan → ∃ k, k ≤ n ∧ scan'.source = scan.source ++ rest.take k ∧
          (scan.Framed → scan'.Framed) ∧
          ∀ (sink' : Bool) (loop' : Loop) (tick₁ : Nat), (sink = true → sink' = true) →
            (∃ tick₂, readLoop project sink' loop' tick₁ scan (rest.take k) = .ok (scan', tick₂)) ∨
            (readLoop project sink' loop' tick₁ scan (rest.take k) = .error timedOut ∧
              ∃ t, loop'.deadline ≤ loop'.clock t) := by
        rintro rfl
        refine ⟨0, Nat.zero_le _, by simp, id, ?_⟩
        intro sink' loop' tick₁ _
        refine Or.inl ⟨tick₁, ?_⟩
        rw [List.take_zero, readLoop, if_pos rfl]
      split at h
      · cases h
        exact nothing rfl
      split at h
      · cases h
      dsimp only at h
      split at h
      · cases h
      next hlimit =>
      split at h
      · next hline =>
          have hwhole := readline_eq (Nat.le_of_not_lt hlimit)
          rw [hwhole] at h hline hlimit
          cases hr : scan.record project sink (lineOf rest) with
          | error e =>
              rw [hr] at h
              cases h
          | ok scan₁ =>
              rw [hr] at h
              obtain ⟨hsource₁, hframed₁⟩ := record_spec hr
              have hpos : 0 < (lineOf rest).length := by
                apply List.length_pos_iff.mpr
                intro he
                rw [he] at hline
                cases hline
              have hle := lineOf_length_le rest
              have hdrop : (rest.drop (lineOf rest).length).length = n - (lineOf rest).length := by
                rw [List.length_drop, hn]
              obtain ⟨k, hk, hsource, hframed, hagain⟩ := ih _ (by omega) h hdrop
              refine ⟨(lineOf rest).length + k, by omega, ?_, fun f => hframed (hframed₁ f), ?_⟩
              · rw [hsource, hsource₁, List.take_add, ← take_lineOf, List.append_assoc]
              · intro sink' loop' tick₁ hsink
                have hlength : (rest.take ((lineOf rest).length + k)).length =
                    (lineOf rest).length + k := by
                  rw [List.length_take]
                  omega
                have hne : rest.take ((lineOf rest).length + k) ≠ [] := by
                  intro he
                  rw [he] at hlength
                  simp at hlength
                  omega
                have hsame : readline (min (maxLineBytes + 1)
                    (rest.take ((lineOf rest).length + k)).length)
                    (rest.take ((lineOf rest).length + k)) = lineOf rest := by
                  rw [readline, lineOf_take hline (Nat.le_add_right _ _), hlength]
                  apply List.take_of_length_le
                  omega
                rw [readLoop, if_neg hne]
                by_cases htime : loop'.deadline ≤ loop'.clock tick₁
                · rw [if_pos htime]
                  exact Or.inr ⟨rfl, tick₁, htime⟩
                · rw [if_neg htime]
                  dsimp only
                  rw [hsame, if_neg hlimit, dif_pos hline, record_sink hsink hr]
                  have hrest : (rest.take ((lineOf rest).length + k)).drop (lineOf rest).length =
                      (rest.drop (lineOf rest).length).take k := by
                    rw [List.drop_take]
                    congr 1
                    omega
                  simp only [hrest]
                  exact hagain sink' loop' (tick₁ + 1) hsink
      · split at h
        · cases h
        · cases h
          exact nothing rfl

/-! ## The whole reading again -/

/-- The reading has time, and its log is not rewritten or cut. -/
def Environment.Quiet (env : Environment) (initialSize : Nat) : Prop :=
  (∀ t, env.clock t < env.clock 0 + maxScanSeconds) ∧ ¬ env.changedLog initialSize

/-- What a reading that returned did. -/
theorem read_ok {start : σ} {through : Option Nat} {env : Environment} {log : Bytes}
    {reply : Reply} (h : readPublicTranscript project sink start through env log = .ok reply) :
    ∃ scan : Scan σ, ∃ k, k ≤ log.length ∧ k ≤ maxSnapshotBoundary ∧ 0 < k ∧
      scan.source = log.take k ∧ scan.Framed ∧
      reply.shown = scan.messages ∧ reply.throughBytes = k ∧
      reply.digest =
        Sha256.hexdigest (confirmation scan.source (scan.projected ++ utf8 [']'])) ∧
      scan.messages ≠ [] ∧
      ∀ (sink' : Bool) (loop' : Loop) (tick₁ : Nat), (sink = true → sink' = true) →
        (∃ tick₂, readLoop project sink' loop' tick₁ (Scan.fresh start) (log.take k) =
          .ok (scan, tick₂)) ∨
        (readLoop project sink' loop' tick₁ (Scan.fresh start) (log.take k) = .error timedOut ∧
          ∃ t, loop'.deadline ≤ loop'.clock t) := by
  simp only [readPublicTranscript, bind_eq_ok, require_eq_ok, pure_eq_ok] at h
  obtain ⟨_, _, _, hmax, _, hboundary, ⟨scan, tick⟩, hloop, _, _, _, _, _, hmessages, rfl⟩ := h
  obtain ⟨k, hk, hsource, hframed, hagain⟩ := readLoop_again hloop
  have hlength : (log.take (through.getD log.length)).length = through.getD log.length := by
    rw [List.length_take]
    omega
  have htake : (log.take (through.getD log.length)).take k = log.take k := by
    rw [List.take_take]
    congr 1
    omega
  rw [htake] at hsource hagain
  have hread : scan.source = log.take k := hsource
  have hcount : scan.source.length = k := by
    rw [hread, List.length_take]
    omega
  refine ⟨scan, k, by omega, by omega, ?_, hread, hframed (fresh_framed start), ?_, hcount, rfl,
    hmessages, hagain⟩
  · -- Without a byte there is no message.
    rcases Nat.eq_zero_or_pos k with rfl | hpos
    · exfalso
      obtain ⟨tick₂, htwice⟩ | ⟨hbad, _⟩ := hagain sink ⟨env.clock, 0, false⟩ 0 id
      · rw [List.take_zero, readLoop, if_pos rfl] at htwice
        cases htwice
        exact hmessages rfl
      · rw [List.take_zero, readLoop, if_pos rfl] at hbad
        cases hbad
    · exact hpos
  · cases sink <;> simp [Reply.shown, Scan.reply]

/-- A second reading up to the boundary of the first. -/
theorem read_again {start : σ} {through : Option Nat} {env : Environment} {log : Bytes}
    {reply : Reply} (h : readPublicTranscript project sink start through env log = .ok reply)
    (hsink : sink = true → sink' = true) (more : Bytes) (env' : Environment) :
    (∃ reply', readPublicTranscript project sink' start (some reply.throughBytes) env'
        (log ++ more) = .ok reply' ∧ reply'.shown = reply.shown ∧
        reply'.throughBytes = reply.throughBytes ∧ reply'.digest = reply.digest) ∨
      (¬ env'.Quiet (log ++ more).length ∧ ∃ e, (e = timedOut ∨ e = changed) ∧
        readPublicTranscript project sink' start (some reply.throughBytes) env' (log ++ more) =
          .error e) := by
  obtain ⟨scan, k, hk, hmax, hpos, hsource, _, hshown, hthrough, hdigest, hmessages, hagain⟩ :=
    read_ok h
  have htake : (log ++ more).take k = log.take k := List.take_append_of_le_length hk
  have hlength : k ≤ (log ++ more).length := by
    rw [List.length_append]
    omega
  have hcount : scan.source.length = k := by
    rw [hsource, List.length_take]
    omega
  have hbound : ∀ n ∈ some k, 0 < n ∧ n ≤ maxSnapshotBoundary := by
    intro n hn
    cases hn
    exact ⟨hpos, hmax⟩
  rw [hthrough]
  simp only [readPublicTranscript, require_bind hbound, Option.getD_some, require_bind hmax,
    require_bind hlength, htake]
  obtain ⟨tick₂, hloop⟩ | ⟨hloop, t, ht⟩ := hagain sink'
    ⟨env'.clock, env'.clock 0 + maxScanSeconds, (some k).isSome⟩ 1 hsink
  · rw [hloop, ok_bind]
    by_cases htime : env'.clock tick₂ < env'.clock 0 + maxScanSeconds
    · by_cases hchanged : env'.changedLog (log ++ more).length
      · refine Or.inr ⟨fun quiet => quiet.2 hchanged, changed, Or.inr rfl, ?_⟩
        rw [require_bind htime, require, if_neg (not_not.mpr hchanged)]
        rfl
      · refine Or.inl ⟨scan.reply sink', ?_, ?_, ?_, ?_⟩
        · rw [require_bind htime, require_bind hchanged, require_bind hmessages]
          rfl
        · rw [hshown]
          cases sink' <;> simp [Reply.shown, Scan.reply]
        · exact hcount
        · exact hdigest.symm
    · refine Or.inr ⟨fun quiet => htime (quiet.1 tick₂), timedOut, Or.inl rfl, ?_⟩
      rw [require, if_neg htime]
      rfl
  · refine Or.inr ⟨fun quiet => ?_, timedOut, Or.inl rfl, ?_⟩
    · exact absurd (quiet.1 t) (Nat.not_lt.mpr ht)
    · rw [hloop]
      rfl

/-! ## What a digest confirms -/

/-- Two different byte strings with one digest. -/
def Collides (a b : Bytes) : Prop :=
  a ≠ b ∧ Sha256.digest a = Sha256.digest b

omit [Conversions] [Times] [Loads] in
theorem eq_or_collides {a b : Bytes} (h : Sha256.digest a = Sha256.digest b) :
    a = b ∨ Collides a b := by
  by_cases he : a = b
  · exact Or.inl he
  · exact Or.inr ⟨he, h⟩

omit [Conversions] [Times] [Loads] in
/-- The digests of the two parts can be read off a confirmation. -/
theorem confirmation_inj {source source' projected projected' : Bytes}
    (h : confirmation source projected = confirmation source' projected') :
    Sha256.digest source = Sha256.digest source' ∧
      Sha256.digest projected = Sha256.digest projected' := by
  simp only [confirmation, List.append_assoc] at h
  have htail := List.append_cancel_left (List.append_cancel_left h)
  obtain ⟨hsource, hrest⟩ := List.append_inj htail (by
    rw [Sha256.length_digest, Sha256.length_digest])
  exact ⟨hsource, List.append_cancel_left hrest⟩

/-- The array of messages whose digest is part of a confirmation. -/
def projection (messages : List Message) : Bytes :=
  utf8 (opened messages ++ [']'])

omit [Conversions] [Times] [Loads] in
/-- Equal confirmation digests come from equal bytes and equal messages, or
from a collision of two digest inputs. -/
theorem confirmed_eq {source source' : Bytes} {shown shown' : List Message}
    (h : Sha256.hexdigest (confirmation source (projection shown)) =
      Sha256.hexdigest (confirmation source' (projection shown'))) :
    (source = source' ∧ shown = shown') ∨ Collides source source' ∨
      Collides (projection shown) (projection shown') ∨
      Collides (confirmation source (projection shown))
        (confirmation source' (projection shown')) := by
  cases eq_or_collides (hexText_inj h) with
  | inr collides => exact Or.inr (Or.inr (Or.inr collides))
  | inl same =>
      obtain ⟨hsource, hprojected⟩ := confirmation_inj same
      cases eq_or_collides hsource with
      | inr collides => exact Or.inr (Or.inl collides)
      | inl hbytes =>
          cases eq_or_collides hprojected with
          | inr collides => exact Or.inr (Or.inr (Or.inl collides))
          | inl hshown => exact Or.inl ⟨hbytes, opened_inj (utf8_inj hshown)⟩

theorem read_digest {start : σ} {through : Option Nat} {env : Environment} {log : Bytes}
    {reply : Reply} (h : readPublicTranscript project sink start through env log = .ok reply) :
    reply.digest = Sha256.hexdigest
      (confirmation (log.take reply.throughBytes) (projection reply.shown)) := by
  obtain ⟨scan, k, _, _, _, hsource, hframed, hshown, hthrough, hdigest, _⟩ := read_ok h
  rw [hdigest, hsource, hframed, hshown, hthrough, projection, utf8_append]

end Readings

/-- A reading that returned is repeated by a reading up to its boundary, with the
same projector, of the log with any bytes appended: as a list, or through a
sink. It can only fail by running out of time or because the log is rewritten
while it is read. And two readings of any logs with one digest read the same
bytes and show the same messages, unless two of the inputs of their digests
collide. -/
theorem preview_agrees {σ τ : Type} [Sha256] [Conversions] [Times] [Loads] (project : Project σ)
    (project' : Project τ) (start : σ) (start' : τ) :
    (∀ (sink sink' : Bool) through env log reply, (sink = true → sink' = true) →
      readPublicTranscript project sink start through env log = .ok reply →
      ∀ more env',
        (∃ reply', readPublicTranscript project sink' start (some reply.throughBytes) env'
            (log ++ more) = .ok reply' ∧ reply'.shown = reply.shown ∧
            reply'.throughBytes = reply.throughBytes ∧ reply'.digest = reply.digest) ∨
          (¬ env'.Quiet (log ++ more).length ∧ ∃ e, (e = timedOut ∨ e = changed) ∧
            readPublicTranscript project sink' start (some reply.throughBytes) env'
              (log ++ more) = .error e)) ∧
    (∀ (sink sink' : Bool) through through' env env' log log' reply reply',
      readPublicTranscript project sink start through env log = .ok reply →
      readPublicTranscript project' sink' start' through' env' log' = .ok reply' →
      reply.digest = reply'.digest →
      (log.take reply.throughBytes = log'.take reply'.throughBytes ∧
          reply.shown = reply'.shown) ∨
        Collides (log.take reply.throughBytes) (log'.take reply'.throughBytes) ∨
        Collides (projection reply.shown) (projection reply'.shown) ∨
        Collides (confirmation (log.take reply.throughBytes) (projection reply.shown))
          (confirmation (log'.take reply'.throughBytes) (projection reply'.shown))) := by
  constructor
  · intro sink sink' through env log reply hsink h more env'
    exact read_again h hsink more env'
  · intro sink sink' through through' env env' log log' reply reply' h h' hsame
    rw [read_digest h, read_digest h'] at hsame
    exact confirmed_eq hsame

end AgentsServer.Transcript
