import AgentsServer.SessionSaves.Store

/-!
# Records and their writes

A record is open until it is done. At most two are open: the one that marks join, and the one
whose thread is under way. No thread is under way otherwise, so the file only gets newer.
-/

namespace AgentsServer.SessionSaves

open Library

theorem getElem?_append_singleton {α : Type} {xs : List α} {x v : α} {k : Nat}
    (h : (xs ++ [x])[k]? = some v) : xs[k]? = some v ∨ k = xs.length ∧ v = x := by
  rw [List.getElem?_append] at h
  split at h
  · exact .inl h
  · next hge =>
    have hk := (List.getElem?_eq_some_iff.mp h).1
    rw [List.length_singleton] at hk
    exact .inr ⟨by omega, List.mem_singleton.mp (List.mem_of_getElem? h)⟩

namespace World

variable (w : World)

/-- A record that is not done. -/
def Open (p : Nat) : Prop := ∃ q, w.pendings[p]? = some q ∧ q.done = false

/-- A write that starts after a mark has landed, with every mutation before the mark. -/
def Covered (index : Nat) (m : Mark) : Prop :=
  ∃ s ∈ w.written, index < s.marks ∧ m.sessions ≤ s.sessions

/-- What is known of the thread that writes for a record. -/
structure Writing (p t : Nat) : Prop where
  opened : w.Open p
  apart : w.pendingSave ≠ some p
  thread : ∃ thread, w.threads[t]? = some thread ∧
    thread.snapshot.sessions ≤ w.sessions ∧ thread.snapshot.marks ≤ w.marks.length ∧
    (∀ index m, w.marks[index]? = some m → m.pending = p →
      index < thread.snapshot.marks ∧ m.sessions ≤ thread.snapshot.sessions) ∧
    (∀ s ∈ w.written, s.sessions ≤ thread.snapshot.sessions) ∧
    (thread.result = some .ok → thread.snapshot ∈ w.written)

/-- The records, threads and writes, where `busy` is the write under way. -/
structure Core (busy : Option (Nat × Nat)) : Prop where
  joined : ∀ p, w.pendingSave = some p → w.Open p
  opened : ∀ p, w.Open p → w.pendingSave = some p ∨ ∃ t, busy = some (p, t)
  writing : ∀ p t, busy = some (p, t) → w.Writing p t
  running : ∀ t thread, w.threads[t]? = some thread → thread.result = none → ∃ p, busy = some (p, t)
  sorted : w.written.Pairwise fun a b => a.sessions ≤ b.sessions
  bounded : ∀ s ∈ w.written, s.sessions ≤ w.sessions ∧ s.marks ≤ w.marks.length
  marks : ∀ index m, w.marks[index]? = some m → m.sessions ≤ w.sessions ∧
    ∃ q, w.pendings[m.pending]? = some q ∧
      (q.done = true → q.error.isSome = true ∨ w.Covered index m)

variable {w} {busy : Option (Nat × Nat)}

theorem core_empty : World.empty.Core none where
  joined := by rintro _ ⟨⟩
  opened := by rintro _ ⟨_, ⟨⟩, _⟩
  writing := by rintro _ _ ⟨⟩
  running := by rintro _ _ ⟨⟩
  sorted := .nil
  bounded := by rintro _ ⟨⟩
  marks := by rintro _ _ ⟨⟩

/-- The records do not depend on who waits for them. -/
theorem Core.others (h : w.Core busy) (worker : Worker) (writers : Nat) (callers : List Caller)
    (flushers : List Nat) :
    Core { w with worker := worker, writers := writers, callers := callers, flushers := flushers }
      busy :=
  ⟨h.joined, h.opened, fun p t hb => ⟨(h.writing p t hb).opened, (h.writing p t hb).apart,
    (h.writing p t hb).thread⟩, h.running, h.sorted, h.bounded, h.marks⟩

theorem Core.mutate (h : w.Core busy) : Core { w with sessions := w.sessions + 1 } busy where
  joined := h.joined
  opened := h.opened
  writing := by
    intro p t hbusy
    obtain ⟨hopen, hapart, thread, hthread, hsessions, hrest⟩ := h.writing p t hbusy
    exact ⟨hopen, hapart, thread, hthread, Nat.le_succ_of_le hsessions, hrest⟩
  running := h.running
  sorted := h.sorted
  bounded := fun s hs => ⟨Nat.le_succ_of_le (h.bounded s hs).1, (h.bounded s hs).2⟩
  marks := fun index m hm =>
    ⟨Nat.le_succ_of_le (h.marks index m hm).1, (h.marks index m hm).2⟩

/-! ## Marks -/

theorem open_modify {p : Nat} {f : Pending → Pending} (keep : ∀ q, (f q).done = q.done) (p' : Nat) :
    Open { w with pendings := w.pendings.modify p f } p' ↔ w.Open p' := by
  unfold Open
  simp only [List.getElem?_modify]
  cases w.pendings[p']? with
  | none => simp
  | some q =>
      by_cases hsame : p = p' <;> simp [hsame, keep]

/-- A change of a record that leaves open whether it is done. -/
theorem Core.modify (h : w.Core busy) (p : Nat) {f : Pending → Pending}
    (keep : ∀ q, (f q).done = q.done ∧ (f q).error = q.error) :
    Core { w with pendings := w.pendings.modify p f } busy where
  joined := fun p' hp => (open_modify (fun q => (keep q).1) p').mpr (h.joined p' hp)
  opened := fun p' hp => h.opened p' ((open_modify (fun q => (keep q).1) p').mp hp)
  writing := by
    intro p' t hbusy
    obtain ⟨hopen, hapart, hthread⟩ := h.writing p' t hbusy
    exact ⟨(open_modify (fun q => (keep q).1) p').mpr hopen, hapart, hthread⟩
  running := h.running
  sorted := h.sorted
  bounded := h.bounded
  marks := by
    intro index m hm
    obtain ⟨hsessions, q, hq, hdone⟩ := h.marks index m hm
    refine ⟨hsessions, if p = m.pending then f q else q, ?_, ?_⟩
    · simp only [List.getElem?_modify, hq]
      rfl
    · intro hdone'
      have hsame : (if p = m.pending then f q else q).done = q.done ∧
          (if p = m.pending then f q else q).error = q.error := by
        split
        · exact keep q
        · exact ⟨rfl, rfl⟩
      rw [hsame.2]
      exact hdone (hsame.1 ▸ hdone')

/-- A new record that marks join. -/
theorem Core.newPending (h : w.Core busy) (hnone : w.pendingSave = none) :
    Core { w with
      pendings := w.pendings ++ [⟨false, false, false, none⟩]
      pendingSave := some w.pendings.length } busy := by
  have hopen : ∀ p, Open { w with
      pendings := w.pendings ++ [⟨false, false, false, none⟩]
      pendingSave := some w.pendings.length } p ↔ w.Open p ∨ p = w.pendings.length := by
    intro p
    unfold Open
    rw [List.getElem?_append]
    split
    · next hlt =>
      constructor
      · exact .inl
      · rintro (hopen | rfl)
        · exact hopen
        · exact absurd hlt (Nat.lt_irrefl _)
    · next hge =>
      constructor
      · rintro ⟨q, hq, -⟩
        right
        have hzero := (List.getElem?_eq_some_iff.mp hq).1
        rw [List.length_singleton] at hzero
        omega
      · rintro (⟨q, hq, -⟩ | rfl)
        · exact absurd (List.getElem?_eq_some_iff.mp hq).1 hge
        · exact ⟨⟨false, false, false, none⟩, by simp, rfl⟩
  refine ⟨?_, ?_, ?_, h.running, h.sorted, h.bounded, ?_⟩
  · rintro p ⟨⟩
    exact (hopen _).mpr (.inr rfl)
  · intro p hp
    rcases (hopen p).mp hp with hp | rfl
    · right
      rcases h.opened p hp with hjoined | hbusy
      · rw [hnone] at hjoined
        cases hjoined
      · exact hbusy
    · exact .inl rfl
  · intro p t hbusy
    obtain ⟨hp, -, hthread⟩ := h.writing p t hbusy
    refine ⟨(hopen p).mpr (.inl hp), ?_, hthread⟩
    rintro ⟨⟩
    obtain ⟨q, hq, -⟩ := hp
    exact absurd (List.getElem?_eq_some_iff.mp hq).1 (Nat.lt_irrefl _)
  · intro index m hm
    obtain ⟨hsessions, q, hq, hdone⟩ := h.marks index m hm
    refine ⟨hsessions, q, ?_, hdone⟩
    rw [List.getElem?_append_left (List.getElem?_eq_some_iff.mp hq).1]
    exact hq

/-- A mark on the record that marks join. -/
theorem Core.mark (h : w.Core busy) {p : Nat} (hp : w.pendingSave = some p) :
    Core { w with marks := w.marks ++ [⟨p, w.sessions⟩] } busy where
  joined := h.joined
  opened := h.opened
  writing := by
    intro p' t hbusy
    obtain ⟨hopen, hapart, thread, hthread, hsessions, hmarks, hcovers, hrest⟩ := h.writing p' t hbusy
    refine ⟨hopen, hapart, thread, hthread, hsessions, ?_, ?_, hrest⟩
    · rw [List.length_append]
      exact Nat.le_add_right_of_le hmarks
    · intro index m hm hpending
      rcases getElem?_append_singleton hm with hm | ⟨-, rfl⟩
      · exact hcovers index m hm hpending
      · exact absurd (hpending ▸ hp) hapart
  running := h.running
  sorted := h.sorted
  bounded := by
    intro s hs
    rw [List.length_append]
    exact ⟨(h.bounded s hs).1, Nat.le_add_right_of_le (h.bounded s hs).2⟩
  marks := by
    intro index m hm
    rcases getElem?_append_singleton hm with hm | ⟨-, rfl⟩
    · exact h.marks index m hm
    · obtain ⟨q, hq, hdone⟩ := h.joined p hp
      refine ⟨Nat.le_refl _, q, hq, ?_⟩
      rw [hdone]
      rintro ⟨⟩

/-! ## Writes -/

/-- The writer takes over the record that marks joined. -/
theorem Core.begin (h : w.Core none) {p : Nat} (hp : w.pendingSave = some p) (durable : Bool) :
    Core { w with
      pendingSave := none
      threads := w.threads ++ [⟨w.snapshot, durable, none⟩] } (some (p, w.threads.length)) where
  joined := by rintro _ ⟨⟩
  opened := by
    intro p' hopen
    right
    rcases h.opened p' hopen with hjoined | ⟨t, ⟨⟩⟩
    obtain rfl : p' = p := Option.some.inj (hjoined.symm.trans hp)
    exact ⟨_, rfl⟩
  writing := by
    rintro _ _ ⟨⟩
    refine ⟨h.joined p hp, by rintro ⟨⟩, ⟨w.snapshot, durable, none⟩, by simp, Nat.le_refl _,
      Nat.le_refl _, ?_, ?_, by rintro ⟨⟩⟩
    · intro index m hm _
      exact ⟨(List.getElem?_eq_some_iff.mp hm).1, (h.marks index m hm).1⟩
    · intro s hs
      exact (h.bounded s hs).1
  running := by
    intro t thread hthread hnone
    rcases getElem?_append_singleton hthread with hthread | ⟨rfl, -⟩
    · obtain ⟨p', ⟨⟩⟩ := h.running t thread hthread hnone
    · exact ⟨p, rfl⟩
  sorted := h.sorted
  bounded := h.bounded
  marks := h.marks

theorem written_record (snapshot : Snapshot) (result : Replaced) :
    (w.record snapshot result).written =
      if result.landed then w.written ++ [snapshot] else w.written := by
  unfold record
  split <;> rfl

theorem mem_record {snapshot : Snapshot} {result : Replaced} {s : Snapshot}
    (h : s ∈ (w.record snapshot result).written) : s ∈ w.written ∨ s = snapshot := by
  rw [written_record] at h
  split at h
  · rcases List.mem_append.mp h with h | h
    · exact .inl h
    · exact .inr (List.mem_singleton.mp h)
  · exact .inl h

theorem record_mono {snapshot : Snapshot} {result : Replaced} {s : Snapshot} (h : s ∈ w.written) :
    s ∈ (w.record snapshot result).written := by
  rw [written_record]
  split
  · exact List.mem_append_left _ h
  · exact h

theorem record_ok {snapshot : Snapshot} : snapshot ∈ (w.record snapshot .ok).written :=
  List.mem_append_right _ (List.mem_singleton_self snapshot)

theorem record_rest {snapshot : Snapshot} {result : Replaced} :
    w.record snapshot result = { w with written := (w.record snapshot result).written } := by
  unfold record
  split
  · rfl
  · rfl

/-- A content that is not older than the present one, nor newer than a write under way. -/
theorem Core.record (h : w.Core busy) {snapshot : Snapshot}
    (newer : ∀ s ∈ w.written, s.sessions ≤ snapshot.sessions)
    (bound : snapshot.sessions ≤ w.sessions ∧ snapshot.marks ≤ w.marks.length)
    (under : ∀ p t thread, busy = some (p, t) → w.threads[t]? = some thread →
      snapshot.sessions ≤ thread.snapshot.sessions) (result : Replaced) :
    (w.record snapshot result).Core busy := by
  rw [record_rest]
  refine ⟨h.joined, h.opened, ?_, h.running, ?_, ?_, ?_⟩
  · intro p t hbusy
    obtain ⟨hopen, hapart, thread, hthread, hsessions, hmarks, hcovers, hnewer, hok⟩ :=
      h.writing p t hbusy
    refine ⟨hopen, hapart, thread, hthread, hsessions, hmarks, hcovers, ?_, ?_⟩
    · intro s hs
      rcases mem_record hs with hs | rfl
      · exact hnewer s hs
      · exact under p t thread hbusy hthread
    · intro hresult
      exact record_mono (hok hresult)
  · change (w.record snapshot result).written.Pairwise _
    rw [written_record]
    split
    · rw [List.pairwise_append]
      refine ⟨h.sorted, List.pairwise_singleton _ _, ?_⟩
      intro a ha b hb
      rw [List.mem_singleton.mp hb]
      exact newer a ha
    · exact h.sorted
  · intro s hs
    rcases mem_record hs with hs | rfl
    · exact h.bounded s hs
    · exact bound
  · intro index m hm
    obtain ⟨hsessions, q, hq, hdone⟩ := h.marks index m hm
    refine ⟨hsessions, q, hq, ?_⟩
    intro hd
    rcases hdone hd with herror | ⟨s, hs, hcovers⟩
    · exact .inl herror
    · exact .inr ⟨s, record_mono hs, hcovers⟩

/-- The result of the thread under way. -/
theorem Core.setResult (h : w.Core busy) {p t : Nat} (hbusy : busy = some (p, t)) {result : Replaced}
    (hok : result = .ok → ∀ thread, w.threads[t]? = some thread → thread.snapshot ∈ w.written) :
    Core { w with
      threads := w.threads.modify t fun thread => { thread with result := some result } } busy := by
  refine ⟨h.joined, h.opened, ?_, ?_, h.sorted, h.bounded, h.marks⟩
  · intro p' t' hbusy'
    obtain ⟨rfl, rfl⟩ := Prod.mk.inj (Option.some.inj (hbusy.symm.trans hbusy'))
    obtain ⟨hopen, hapart, thread, hthread, hsessions, hmarks, hcovers, hnewer, -⟩ :=
      h.writing p t hbusy
    refine ⟨hopen, hapart, { thread with result := some result }, ?_, hsessions, hmarks, hcovers,
      hnewer, ?_⟩
    · rw [List.getElem?_modify_eq, hthread]
      rfl
    · intro hresult
      exact hok (Option.some.inj hresult) thread hthread
  · intro t' thread hthread hnone
    rw [List.getElem?_modify] at hthread
    obtain ⟨old, hold, hsame⟩ := Option.map_eq_some_iff.mp hthread
    split at hsame
    · subst hsame
      cases hnone
    · subst hsame
      exact h.running t' old hold hnone

/-- The thread under way has replaced the file or failed to. -/
theorem Core.runThread (h : w.Core busy) (t : Nat) (result : Replaced) :
    (w.runThread t result).Core busy := by
  unfold World.runThread
  split
  · exact h
  · next thread hthread =>
    split
    swap
    · exact h
    · next hnone =>
      obtain ⟨p, hbusy⟩ := h.running t thread hthread hnone
      obtain ⟨-, -, same, hsame, hsessions, hmarks, -, hnewer, -⟩ := h.writing p t hbusy
      obtain rfl : thread = same := Option.some.inj (hthread.symm.trans hsame)
      have hthreads : (w.record thread.snapshot result).threads = w.threads := by rw [record_rest]
      have hrecorded := h.record hnewer ⟨hsessions, hmarks⟩ (by
        intro p' t' thread' hbusy' hthread'
        obtain ⟨rfl, rfl⟩ := Prod.mk.inj (Option.some.inj (hbusy.symm.trans hbusy'))
        apply Nat.le_of_eq
        rw [Option.some.inj (hthread.symm.trans hthread')]) result
      have hlanded : result = .ok → ∀ thread',
          (w.record thread.snapshot result).threads[t]? = some thread' →
          thread'.snapshot ∈ (w.record thread.snapshot result).written := by
        rintro rfl thread' hthread'
        rw [hthreads, hthread] at hthread'
        rw [← Option.some.inj hthread']
        exact record_ok
      have hset := hrecorded.setResult hbusy hlanded
      rw [hthreads] at hset
      exact hset

/-! ## Records that are done -/

theorem open_settle {p : Nat} (error : Option Failure) (p' : Nat) :
    (w.settle p error).Open p' ↔ w.Open p' ∧ p' ≠ p := by
  unfold Open settle
  simp only [List.getElem?_modify]
  cases w.pendings[p']? with
  | none => simp
  | some q =>
      by_cases hsame : p = p'
      · simp [hsame]
      · simp [hsame, Ne.symm hsame]

/-- A record is done, with an error or with its marks covered, and is not joined any more. -/
theorem Core.settle (h : w.Core busy) {p : Nat} (error : Option Failure) (save : Option Nat)
    (left : ∀ p', save = some p' ↔ w.pendingSave = some p' ∧ p' ≠ p)
    (reported : error.isSome = true ∨
      ∀ index m, w.marks[index]? = some m → m.pending = p → w.Covered index m)
    (ended : ∀ p' t, busy = some (p', t) →
      p' = p ∧ ∀ thread, w.threads[t]? = some thread → thread.result ≠ none) :
    Core { w.settle p error with pendingSave := save } none where
  joined := by
    intro p' hp
    obtain ⟨hjoined, hne⟩ := (left p').mp hp
    exact (open_settle error p').mpr ⟨h.joined p' hjoined, hne⟩
  opened := by
    intro p' hp
    obtain ⟨hopen, hne⟩ := (open_settle error p').mp hp
    rcases h.opened p' hopen with hjoined | ⟨t, hbusy⟩
    · exact .inl ((left p').mpr ⟨hjoined, hne⟩)
    · exact absurd (ended p' t hbusy).1 hne
  writing := by rintro _ _ ⟨⟩
  running := by
    intro t thread hthread hnone
    obtain ⟨p', hbusy⟩ := h.running t thread hthread hnone
    exact absurd hnone ((ended p' t hbusy).2 thread hthread)
  sorted := h.sorted
  bounded := h.bounded
  marks := by
    intro index m hm
    obtain ⟨hsessions, q, hq, hdone⟩ := h.marks index m hm
    refine ⟨hsessions, ?_⟩
    by_cases hsame : p = m.pending
    · refine ⟨{ q with done := true, error := error <|> q.error }, ?_, ?_⟩
      · change (w.pendings.modify p _)[m.pending]? = _
        rw [← hsame, List.getElem?_modify_eq, hsame, hq]
        rfl
      · intro _
        rcases reported with herror | hcovered
        · left
          obtain ⟨e, rfl⟩ := Option.isSome_iff_exists.mp herror
          rfl
        · exact .inr (hcovered index m hm hsame.symm)
    · refine ⟨q, ?_, hdone⟩
      change (w.pendings.modify p _)[m.pending]? = _
      rw [List.getElem?_modify_ne _ _ hsame, hq]

end World

end AgentsServer.SessionSaves
