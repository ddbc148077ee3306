import AgentsServer.SessionSaves.Records

/-!
# Steps of the session saves

What a step keeps of the records that are done and of who waits, and the invariant of a run
in which the writer is cancelled only where it may be.
-/

namespace AgentsServer.SessionSaves

open Library

/-- The write under way, with its record. -/
def Worker.busy : Worker → Option (Nat × Nat)
  | .writing p t => some (p, t)
  | _ => none

namespace World

/-- What never changes: the order of the marks, a record that is done, what a caller waits
for. -/
structure Later (w w' : World) : Prop where
  sessions : w.sessions ≤ w'.sessions
  marks : ∀ m ∈ w.marks, m ∈ w'.marks
  settled : ∀ (p : Nat) (q : Pending), w.pendings[p]? = some q → q.done = true → w'.pendings[p]? = some q
  waiting : ∀ (index : Nat) (c : Caller) (p : Nat), w.callers[index]? = some c → c.pending = some p →
    ∃ c' : Caller, w'.callers[index]? = some c' ∧ c'.pending = some p

theorem Later.refl (w : World) : Later w w :=
  ⟨Nat.le_refl _, fun _ h => h, fun _ _ h _ => h, fun _ c _ h hp => ⟨c, h, hp⟩⟩

theorem Later.trans {w w' w'' : World} (h : Later w w') (h' : Later w' w'') : Later w w'' where
  sessions := Nat.le_trans h.sessions h'.sessions
  marks := fun m hm => h'.marks m (h.marks m hm)
  settled := fun p q hq hd => h'.settled p q (h.settled p q hq hd) hd
  waiting := by
    intro index c p hc hp
    obtain ⟨c', hc', hp'⟩ := h.waiting index c p hc hp
    exact h'.waiting index c' p hc' hp'

variable {w : World}

/-- The threads, the writer and the writes are free to change. -/
theorem Later.rest (pendingSave : Option Nat) (worker : Worker) (writers : Nat)
    (threads : List Thread) (written : List Snapshot) (flushers : List Nat) :
    Later w { w with
      pendingSave := pendingSave, worker := worker, writers := writers, threads := threads
      written := written, flushers := flushers } :=
  ⟨Nat.le_refl _, fun _ h => h, fun _ _ h _ => h, fun _ c _ h hp => ⟨c, h, hp⟩⟩

/-- A change of a record that is not done. -/
theorem Later.modify {p : Nat} (hopen : w.Open p) (f : Pending → Pending) :
    Later w { w with pendings := w.pendings.modify p f } := by
  refine ⟨Nat.le_refl _, fun _ h => h, ?_, fun _ c _ h hp => ⟨c, h, hp⟩⟩
  intro p' q hq hd
  have hne : p ≠ p' := by
    rintro rfl
    obtain ⟨q', hq', hopen⟩ := hopen
    rw [hq] at hq'
    rw [Option.some.inj hq', hopen] at hd
    cases hd
  change (w.pendings.modify p f)[p']? = some q
  rw [List.getElem?_modify_ne _ _ hne, hq]

theorem Later.settle {p : Nat} (hopen : w.Open p) (error : Option Failure) :
    Later w (w.settle p error) :=
  Later.modify hopen _

/-- A record that is done stays so. -/
theorem Later.not_open {w' : World} (h : Later w w') {p : Nat} {q : Pending}
    (hq : w.pendings[p]? = some q) (hp : ¬ w.Open p) : ¬ w'.Open p := by
  rintro ⟨q', hq', hopen⟩
  have hd : q.done = true := by
    cases hq' : q.done with
    | false => exact absurd ⟨q, hq, hq'⟩ hp
    | true => rfl
  rw [h.settled p q hq hd] at hq'
  rw [← Option.some.inj hq', hd] at hopen
  cases hopen

/-- The writer is where the record that marks join needs it. -/
structure Sound (w : World) : Prop where
  core : w.Core w.worker.busy
  rests : w.worker = .ended → w.pendingSave = none
  waits : ∀ p, w.worker = .window p → w.pendingSave = some p

/-! ## Marks -/

theorem currentPending_rest :
    w.currentPending.1 = { w with
      pendings := w.currentPending.1.pendings, pendingSave := some w.currentPending.2 } := by
  unfold currentPending
  split
  · next p hp => rw [← hp]
  · rfl

theorem currentPending_joined {p : Nat} (hp : w.pendingSave = some p) :
    w.currentPending = (w, p) := by
  unfold currentPending
  rw [hp]

theorem Core.currentPending {busy : Option (Nat × Nat)} (h : w.Core busy) :
    w.currentPending.1.Core busy ∧ Later w w.currentPending.1 := by
  unfold World.currentPending
  split
  · exact ⟨h, .refl w⟩
  · next hnone =>
    refine ⟨h.newPending hnone, Nat.le_refl _, fun _ h => h, ?_, fun _ c _ h hp => ⟨c, h, hp⟩⟩
    intro p q hq _
    change (w.pendings ++ _)[p]? = some q
    rw [List.getElem?_append_left (List.getElem?_eq_some_iff.mp hq).1]
    exact hq

theorem ensureWorker_eq :
    w.ensureWorker = { w with
      worker := if w.worker = .ended then .created else w.worker
      writers := if w.worker = .ended then w.writers + 1 else w.writers } := by
  unfold ensureWorker
  split
  · rfl
  · rfl

/-- What a mark leaves: the record that it joined, the mark, and all else but the writer. -/
theorem Sound.markDirty (h : w.Sound) (durable wake : Bool) :
    (w.markDirty durable wake).1.Sound ∧ Later w (w.markDirty durable wake).1 ∧
      ⟨(w.markDirty durable wake).2, w.sessions⟩ ∈ (w.markDirty durable wake).1.marks ∧
      (w.markDirty durable wake).1.sessions = w.sessions ∧
      (w.markDirty durable wake).1.callers = w.callers := by
  obtain ⟨hcore, hlater⟩ := h.core.currentPending
  have hrest := currentPending_rest (w := w)
  have hkeep : ∀ p, w.pendingSave = some p → w.currentPending.2 = p :=
    fun p hp => by rw [currentPending_joined hp]
  unfold World.markDirty
  generalize w.currentPending = found at hcore hlater hrest hkeep
  obtain ⟨w', p⟩ := found
  dsimp only at hcore hlater hrest hkeep ⊢
  have hjoined : w'.pendingSave = some p := by rw [hrest]
  have hworker : w'.worker = w.worker := by rw [hrest]
  have hopen : w'.Open p := hcore.joined p hjoined
  rw [ensureWorker_eq]
  refine ⟨⟨?_, ?_, ?_⟩, ?_, ?_, ?_, ?_⟩
  · have hmarked := (hcore.modify p (f := fun pending =>
      { pending with durable := pending.durable || durable, wake := pending.wake || wake || durable })
      fun _ => ⟨rfl, rfl⟩).mark hjoined
    have hbusy : (if w'.worker = .ended then Worker.created else w'.worker).busy = w.worker.busy := by
      rw [hworker]
      split
      · next hended => rw [hended]; rfl
      · rfl
    have hall := hmarked.others (if w'.worker = .ended then .created else w'.worker)
      (if w'.worker = .ended then w'.writers + 1 else w'.writers) w'.callers w'.flushers
    rw [← hbusy] at hall
    exact hall
  · intro hended
    change (if w'.worker = .ended then Worker.created else w'.worker) = .ended at hended
    split at hended
    · cases hended
    · next hne => exact absurd hended hne
  · intro p' hwindow
    change (if w'.worker = .ended then Worker.created else w'.worker) = .window p' at hwindow
    change w'.pendingSave = some p'
    split at hwindow
    · cases hwindow
    · rw [hjoined, hkeep p' (h.waits p' (hworker ▸ hwindow))]
  · refine hlater.trans ((Later.modify hopen _).trans ⟨Nat.le_refl _, ?_, fun _ _ h _ => h,
      fun _ c _ h hp => ⟨c, h, hp⟩⟩)
    intro m hm
    exact List.mem_append_left _ hm
  · have hsessions : w'.sessions = w.sessions := by rw [hrest]
    rw [← hsessions]
    exact List.mem_append_right _ (List.mem_singleton_self _)
  · rw [hrest]
  · rw [hrest]

/-! ## The writer -/

/-- The writer settles a record while no other write is under way. -/
theorem Core.beginWrite (h : w.Core none) {p : Nat} (hp : w.pendingSave = some p) (turn : Turn) :
    (w.beginWrite p turn).Sound ∧ Later w (w.beginWrite p turn) := by
  unfold World.beginWrite
  split
  · next error herror =>
    have hsettled := h.settle (p := p) (some error) none (by simp [hp]) (.inl rfl) (by rintro _ _ ⟨⟩)
    refine ⟨⟨hsettled.others .ended w.writers w.callers w.flushers, fun _ => rfl, ?_⟩, ?_⟩
    · rintro _ ⟨⟩
    · exact (Later.settle (h.joined p hp) (some error)).trans
        (.rest none .ended w.writers w.threads w.written w.flushers)
  · refine ⟨⟨(h.begin hp _).others (.writing p w.threads.length) w.writers w.callers w.flushers,
      ?_, ?_⟩, .rest ..⟩
    · rintro ⟨⟩
    · rintro _ ⟨⟩

theorem Core.waitForSaveWindow (h : w.Core none) {p : Nat} (hp : w.pendingSave = some p)
    (turn : Turn) :
    (w.waitForSaveWindow p turn).Sound ∧ Later w (w.waitForSaveWindow p turn) := by
  unfold World.waitForSaveWindow
  split
  · exact h.beginWrite hp turn
  · refine ⟨⟨h.others (.window p) w.writers w.callers w.flushers, ?_, ?_⟩, .rest ..⟩
    · rintro ⟨⟩
    · rintro _ ⟨⟩
      exact hp

theorem Core.loop (h : w.Core none) (turn : Turn) :
    (w.loop turn).Sound ∧ Later w (w.loop turn) := by
  unfold World.loop
  split
  · next hnone =>
    refine ⟨⟨h.others .ended w.writers w.callers w.flushers, fun _ => hnone, ?_⟩, .rest ..⟩
    rintro _ ⟨⟩
  · next p hp => exact h.waitForSaveWindow hp turn

/-- The write of a record that landed covers its marks. -/
theorem Writing.covers {p t : Nat} (h : w.Writing p t)
    (hok : w.threads[t]?.bind Thread.result = some .ok) :
    ∀ index m, w.marks[index]? = some m → m.pending = p → w.Covered index m := by
  obtain ⟨-, -, thread, hthread, -, -, hcovers, -, hlanded⟩ := h
  rw [hthread] at hok
  intro index m hm hpending
  exact ⟨thread.snapshot, hlanded hok, hcovers index m hm hpending⟩

/-- The record of the write under way is done when its thread has ended. -/
theorem Core.finish {p t : Nat} (h : w.Core (some (p, t))) {result : Replaced}
    (error : Option Failure) (hended : w.threads[t]?.bind Thread.result = some result)
    (herror : result = .ok ∨ error.isSome = true) : (w.settle p error).Core none := by
  have hwriting := h.writing p t rfl
  refine h.settle error w.pendingSave ?_ ?_ ?_
  · intro p'
    constructor
    · intro hp'
      refine ⟨hp', ?_⟩
      rintro rfl
      exact hwriting.apart hp'
    · exact And.left
  · rcases herror with rfl | herror
    · exact .inr (hwriting.covers hended)
    · exact .inl herror
  · rintro p' t' ⟨⟩
    refine ⟨rfl, ?_⟩
    intro thread hthread hnone
    rw [hthread] at hended
    rw [Option.bind_some, hnone] at hended
    cases hended

theorem Sound.saveWorker (h : w.Sound) (turn : Turn) :
    (w.saveWorker turn).Sound ∧ Later w (w.saveWorker turn) := by
  have hcore := h.core
  unfold World.saveWorker
  split
  · exact ⟨h, .refl w⟩
  · next hworker =>
    rw [hworker] at hcore
    exact hcore.loop turn
  · next p hworker =>
    rw [hworker] at hcore
    exact hcore.waitForSaveWindow (h.waits p hworker) turn
  · next p t hworker =>
    rw [hworker] at hcore
    split
    · exact ⟨h, .refl w⟩
    · next result hended =>
      have hsettled := hcore.finish result.error hended result.ok_or_error
      obtain ⟨hsound, hlater⟩ := hsettled.loop turn
      exact ⟨hsound, (Later.settle (hcore.writing p t rfl).opened _).trans hlater⟩

theorem record_comm {snapshot : Snapshot} {result : Replaced} {pendingSave : Option Nat}
    {worker : Worker} :
    World.record { w with pendingSave := pendingSave, worker := worker } snapshot result =
      { w.record snapshot result with pendingSave := pendingSave, worker := worker } := by
  unfold record
  split
  · rfl
  · rfl

/-- What was marked is written with everything before it, or reported. -/
theorem Core.writeLeftover (h : w.Core none) (teardown : Teardown) :
    (w.writeLeftover teardown).Sound ∧ Later w (w.writeLeftover teardown) := by
  unfold World.writeLeftover
  split
  · next hnone =>
    refine ⟨⟨h.others .ended w.writers w.callers w.flushers, fun _ => hnone, ?_⟩, .rest ..⟩
    rintro _ ⟨⟩
  · next p hp =>
    have hlater := fun error => (Later.settle (h.joined p hp) error).trans
        (.rest none .ended w.writers w.threads w.written w.flushers)
    have hsave : ∀ p', none = some p' ↔ w.pendingSave = some p' ∧ p' ≠ p := by simp [hp]
    split
    · next error herror =>
      have hsettled := h.settle (p := p) (some error) none hsave (.inl rfl) (by rintro _ _ ⟨⟩)
      refine ⟨⟨hsettled.others .ended w.writers w.callers w.flushers, fun _ => rfl, ?_⟩, ?_⟩
      · rintro _ ⟨⟩
      · exact hlater _
    · have hwritten := h.record (fun s hs => (h.bounded s hs).1)
        ⟨Nat.le_refl w.snapshot.sessions, Nat.le_refl w.snapshot.marks⟩ (by rintro _ _ _ ⟨⟩)
        teardown.result
      have hlanded := hwritten.settle (p := p) teardown.result.error none
        (by rw [record_rest]; exact hsave) ?_ (by rintro _ _ ⟨⟩)
      · dsimp only
        rw [record_comm]
        refine ⟨⟨hlanded.others .ended _ _ _, fun _ => rfl, ?_⟩, ?_⟩
        · rintro _ ⟨⟩
        · have hlast := hlater teardown.result.error
          rw [record_rest]
          exact hlast.trans (.rest none .ended w.writers w.threads _ w.flushers)
      · cases hresult : teardown.result with
        | failed landed error => exact .inl rfl
        | ok =>
            right
            intro index m hm _
            have hm' : w.marks[index]? = some m := by
              rw [record_rest] at hm
              exact hm
            exact ⟨w.snapshot, record_ok, (List.getElem?_eq_some_iff.mp hm').1,
              (h.marks index m hm').1⟩

theorem cancellable_writing {p t : Nat} (hworker : w.worker = .writing p t)
    (h : w.cancellable = true) : w.threads[t]?.bind Thread.result = some .ok := by
  unfold cancellable at h
  rw [hworker] at h
  exact of_decide_eq_true h

/-- A thread that has ended is not withdrawn. -/
theorem withdraw_ended {t : Nat} {result : Replaced} (withdraw : Thread → Thread)
    (h : w.threads[t]?.bind Thread.result = some result)
    (keep : ∀ thread, thread.result ≠ none → withdraw thread = thread) :
    w.threads.modify t withdraw = w.threads := by
  apply List.ext_getElem?
  intro k
  rw [List.getElem?_modify]
  by_cases hk : t = k
  · subst hk
    obtain ⟨thread, hthread, hresult⟩ := Option.bind_eq_some_iff.mp h
    simp [hthread, keep thread (by simp [hresult])]
  · simp [hk]

theorem Sound.cancelWorker (h : w.Sound) (hmay : w.cancellable = true) (teardown : Teardown) :
    (w.cancelWorker teardown).Sound ∧ Later w (w.cancelWorker teardown) := by
  have hcore := h.core
  unfold World.cancelWorker
  split
  · exact ⟨h, .refl w⟩
  · next hworker =>
    unfold cancellable at hmay
    rw [hworker] at hmay
    cases hmay
  · next p hworker =>
    rw [hworker] at hcore
    exact hcore.writeLeftover teardown
  · next p t hworker =>
    rw [hworker] at hcore
    have hended := cancellable_writing hworker hmay
    have hopen := (hcore.writing p t rfl).opened
    have hdone : ¬ ((w.settle p none).pendingSave ≠ some p ∧
        ((w.settle p none).pendings[p]?.map Pending.done).getD false = false) := by
      rintro ⟨-, hdone⟩
      obtain ⟨q, hq, -⟩ := hopen
      simp [settle, hq] at hdone
    have hsame := withdraw_ended (fun thread =>
      if thread.result = none then
        { thread with result := some (.failed false (.write "withdrawn")) }
      else thread) hended fun thread hne => if_neg hne
    dsimp only
    rw [if_neg hdone]
    have hwithdrawn : (if teardown.withdrawn = true then
        { w.settle p none with threads := (w.settle p none).threads.modify t fun thread =>
          if thread.result = none then
            { thread with result := some (.failed false (.write "withdrawn")) }
          else thread }
        else w.settle p none) = w.settle p none := by
      split
      · have hthreads : (w.settle p none).threads = w.threads := rfl
        rw [hthreads, hsame]
        rfl
      · rfl
    rw [hwithdrawn]
    obtain ⟨hsound, hlater⟩ := (hcore.finish none hended (.inl rfl)).writeLeftover teardown
    exact ⟨hsound, (Later.settle hopen none).trans hlater⟩

theorem runThread_rest (t : Nat) (result : Replaced) :
    ∃ threads written, w.runThread t result = { w with threads := threads, written := written } := by
  unfold World.runThread
  split
  · exact ⟨_, _, rfl⟩
  · split
    · rw [record_rest]
      exact ⟨_, _, rfl⟩
    · exact ⟨_, _, rfl⟩

theorem Sound.runThread (h : w.Sound) (t : Nat) (result : Replaced) :
    (w.runThread t result).Sound ∧ Later w (w.runThread t result) := by
  have hcore := h.core.runThread t result
  obtain ⟨threads, written, hrest⟩ := runThread_rest (w := w) t result
  rw [hrest] at hcore ⊢
  exact ⟨⟨hcore, h.rests, h.waits⟩, .rest w.pendingSave w.worker w.writers threads written w.flushers⟩

theorem flushPendingSave_rest :
    ∃ pendings flushers, w.flushPendingSave =
      { w with pendings := pendings, flushers := flushers } := by
  have hjoin : ∀ w' : World, (∃ pendings, w' = { w with pendings := pendings }) →
      ∃ pendings flushers,
        (if w'.worker = .ended then w' else { w' with flushers := w'.flushers ++ [w'.writers] }) =
          { w with pendings := pendings, flushers := flushers } := by
    rintro _ ⟨pendings, rfl⟩
    split
    · exact ⟨pendings, w.flushers, rfl⟩
    · exact ⟨pendings, _, rfl⟩
  unfold World.flushPendingSave
  apply hjoin
  split
  · exact ⟨w.pendings, rfl⟩
  · exact ⟨_, rfl⟩

theorem Sound.flushPendingSave (h : w.Sound) :
    w.flushPendingSave.Sound ∧ Later w w.flushPendingSave := by
  have hwoken : ∀ w' : World, w'.Sound ∧ Later w w' →
      (if w'.worker = .ended then w' else { w' with flushers := w'.flushers ++ [w'.writers] }).Sound ∧
      Later w (if w'.worker = .ended then w'
        else { w' with flushers := w'.flushers ++ [w'.writers] }) := by
    rintro w' ⟨hsound, hlater⟩
    split
    · exact ⟨hsound, hlater⟩
    · exact ⟨⟨hsound.core.others w'.worker w'.writers w'.callers _, hsound.rests, hsound.waits⟩,
        hlater.trans (.rest w'.pendingSave w'.worker w'.writers w'.threads w'.written _)⟩
  unfold World.flushPendingSave
  apply hwoken
  split
  · exact ⟨h, .refl w⟩
  · next p hp =>
    exact ⟨⟨h.core.modify p fun _ => ⟨rfl, rfl⟩, h.rests, h.waits⟩,
      .modify (h.core.joined p hp) _⟩

end World

end AgentsServer.SessionSaves
