import AgentsServer.LiveEvents.Streams

/-!
# Streams without a hole

Every step keeps what a socket was sent, unless `append_event` ends between its write and its
broadcast while an open socket waits for the event. The streams of a run have no hole exactly
when no step of it does that.
-/

namespace AgentsServer.LiveEvents

open Library

variable {w : World}

/-! ## Appends -/

theorem mem_numbered {seq : Nat} {visible : List Bool} {e : Event}
    (h : e ∈ World.numbered seq visible) : seq ≤ e.seq ∧ e.seq < seq + visible.length := by
  induction visible generalizing seq with
  | nil => cases h
  | cons b visible ih =>
      rw [List.length_cons]
      rcases List.mem_cons.mp h with rfl | h
      · exact ⟨Nat.le_refl _, Nat.lt_add_of_pos_right (Nat.succ_pos _)⟩
      · have := ih h
        omega

theorem rising_numbered (seq : Nat) (visible : List Bool) :
    Rising (World.numbered seq visible) := by
  induction visible generalizing seq with
  | nil => exact .nil
  | cons b visible ih =>
      refine List.pairwise_cons.mpr ⟨?_, ih (seq + 1)⟩
      intro e he
      exact (mem_numbered he).1

theorem Settled.append {after last : Nat} {log : List Event} (h : Settled after last log)
    (events : List Event) : Settled after last (log ++ events) := by
  rcases h with h | ⟨e, he, hle⟩
  · exact .inl h
  · exact .inr ⟨e, List.mem_append_left _ he, hle⟩

/-- New events are behind a settled cursor. -/
theorem Settled.through_append {after last : Nat} {log events : List Event}
    (h : Settled after last log) (hnew : ∀ a ∈ log, ∀ e ∈ events, a.seq < e.seq) :
    through after last (log ++ events) = through after last log := by
  apply through_append_new
  intro e he
  rcases h with h | ⟨a, ha, hle⟩
  · omega
  · exact .inl (Nat.lt_of_le_of_lt hle (hnew a ha e he))

theorem Inv.write (h : Inv w) (durable : Bool) (visible : List Bool) :
    Inv (w.write durable visible) := by
  unfold World.write
  split
  swap
  · exact h
  next hidle =>
  have hnew : ∀ a ∈ w.log, ∀ e ∈ World.numbered w.nextEventSeq visible, a.seq < e.seq :=
    fun a ha e he => Nat.lt_of_lt_of_le (h.next_lt a ha) (mem_numbered he).1
  refine ⟨?_, ?_, ?_, ?_, h.seen, ?_⟩
  · exact List.pairwise_append.mpr ⟨h.rising, rising_numbered _ _, hnew⟩
  · rintro _ ⟨⟩ e he
    have hpos := List.length_pos_iff.mpr hidle.2
    rcases List.mem_append.mp he with he | he
    · have := h.next_lt e he
      omega
    · have := (mem_numbered he).2
      omega
  · rintro _ _ _ _ ⟨⟩
  · rintro _ ⟨⟩
  · intro i socket hi hopen
    have hfed := h.fed i socket hi hopen
    unfold Fed at hfed ⊢
    cases hstage : socket.stage with
    | reserved =>
        rw [hstage] at hfed
        exact hfed
    | catching cursor boundary =>
        rw [hstage] at hfed
        obtain ⟨hsent, hle, hcursor, hboundary⟩ := hfed
        exact ⟨hsent.trans (hcursor.through_append hnew).symm, hle, hcursor.append _,
          hboundary.append _⟩
    | caught cursor =>
        rw [hstage] at hfed
        obtain ⟨hsent, hle, hcursor⟩ := hfed
        exact ⟨hsent.trans (hcursor.through_append hnew).symm, hle, hcursor.append _⟩
    | active =>
        rw [hstage, hidle.1] at hfed
        change _ = wanted socket.after (w.log ++ _)
        rw [wanted_append, ← hfed]
        simp [Work.unsent, wanted]

/-- The numbers after a failed write are behind what is in the log. -/
theorem Inv.failWrite (h : Inv w) (consumedHighWater : Nat) (repaired : Bool) :
    Inv (w.failWrite consumedHighWater repaired) := by
  unfold World.failWrite
  split
  · refine ⟨h.rising, ?_, h.targets, h.active, h.seen, h.fed⟩
    cases repaired with
    | false => rintro _ ⟨⟩
    | true =>
        rintro _ ⟨⟩ e he
        have := last_le h.rising e he
        omega
  · exact h

/-- A section goes on, with the sockets as they are. -/
theorem Inv.goOn (h : Inv w) (work : Work)
    (htargets : ∀ durable event targets rest, work = .broadcasting durable event targets rest →
      targets.Nodup ∧ event.visible = true)
    (hactive : ∀ i ∈ work.targets,
      ∃ socket, w.sockets[i]? = some socket ∧ socket.stage = .active)
    (hunsent : ∀ i socket, w.sockets[i]? = some socket → socket.stage = .active →
      socket.closed = false →
      wanted socket.after (work.unsent i) = wanted socket.after (w.work.unsent i)) :
    Inv { w with work := work } := by
  refine ⟨h.rising, h.cache, htargets, hactive, h.seen, ?_⟩
  intro i socket hi hopen
  have hfed := h.fed i socket hi hopen
  unfold Fed at hfed ⊢
  cases hstage : socket.stage with
  | reserved => rw [hstage] at hfed; exact hfed
  | catching cursor boundary => rw [hstage] at hfed; exact hfed
  | caught cursor => rw [hstage] at hfed; exact hfed
  | active =>
      rw [hstage] at hfed
      change wanted socket.after socket.sent ++ wanted socket.after (work.unsent i) = _
      rw [hunsent i socket hi hstage hopen]
      exact hfed

theorem mem_subscribers {i : Nat} {socket : Socket} (hi : w.sockets[i]? = some socket)
    (hactive : socket.stage = .active) : i ∈ w.subscribers := by
  unfold World.subscribers
  rw [List.mem_filter, List.mem_range]
  refine ⟨(List.getElem?_eq_some_iff.mp hi).1, ?_⟩
  rw [hi, Option.map_some, Option.getD_some]
  exact decide_eq_true hactive

theorem active_of_subscribers {i : Nat} (h : i ∈ w.subscribers) :
    ∃ socket, w.sockets[i]? = some socket ∧ socket.stage = .active := by
  have hactive := (List.mem_filter.mp h).2
  cases hi : w.sockets[i]? with
  | none =>
      rw [hi] at hactive
      cases hactive
  | some socket =>
      rw [hi] at hactive
      exact ⟨socket, rfl, of_decide_eq_true hactive⟩

theorem Inv.broadcast (h : Inv w) : Inv w.broadcast := by
  unfold World.broadcast
  split
  · next durable hwork =>
    apply h.goOn
    · rintro _ _ _ _ ⟨⟩
    · rintro _ ⟨⟩
    · intro i socket _ _ _
      rw [hwork]
      rfl
  · next durable event rest hwork =>
    split
    · next hvisible =>
      apply h.goOn
      · rintro _ _ _ _ ⟨⟩
        exact ⟨List.nodup_range.filter _, hvisible⟩
      · exact fun i hi => active_of_subscribers hi
      · intro i socket hi hactive _
        rw [hwork]
        change wanted _ ((if i ∈ w.subscribers then [event] else []) ++ rest) = _
        rw [if_pos (mem_subscribers hi hactive)]
        rfl
    · next hhidden =>
      apply h.goOn
      · rintro _ _ _ _ ⟨⟩
      · rintro _ ⟨⟩
      · intro i socket _ _ _
        rw [hwork]
        change wanted _ rest = wanted _ (event :: rest)
        simp [wanted, hhidden]
  · next durable event rest hwork =>
    apply h.goOn
    · rintro _ _ _ _ ⟨⟩
    · rintro _ ⟨⟩
    · intro i socket _ _ _
      rw [hwork]
      rfl
  · exact h

theorem Inv.abort (h : Inv w) (steady : Steady ⟨w, .abort, ()⟩) : Inv w.abort := by
  unfold World.abort
  split
  · next events hwork =>
    apply h.goOn
    · rintro _ _ _ _ ⟨⟩
    · rintro _ ⟨⟩
    · intro i socket hi hactive hopen
      rw [hwork]
      unfold Steady at steady
      simp only [hwork] at steady
      symm
      change wanted socket.after events = []
      unfold wanted
      rw [List.filter_eq_nil_iff]
      intro e he hwanted
      rw [Bool.and_eq_true, decide_eq_true_eq] at hwanted
      have := steady e he hwanted.1 socket (List.mem_of_getElem? hi) hactive hopen
      omega
  · exact h

/-! ## Sockets -/

/-- What is at an index after a change there or elsewhere. -/
theorem getElem?_modified {sockets : List Socket} {i j : Nat} {f : Socket → Socket}
    {socket' : Socket} (h : (sockets.modify i f)[j]? = some socket') :
    ∃ socket, sockets[j]? = some socket ∧ socket' = if i = j then f socket else socket := by
  rw [List.getElem?_modify] at h
  obtain ⟨socket, hsocket, rfl⟩ := Option.map_eq_some_iff.mp h
  refine ⟨socket, hsocket, ?_⟩
  split
  · rfl
  · rfl

/-- A section goes on and one socket changes. -/
theorem Inv.served (h : Inv w) (i : Nat) (f : Socket → Socket) (work : Work)
    (htargets : ∀ durable event targets rest, work = .broadcasting durable event targets rest →
      targets.Nodup ∧ event.visible = true)
    (hreached : ∀ j ∈ work.targets, j ∈ w.work.targets)
    (hothers : ∀ j, i ≠ j → work.unsent j = w.work.unsent j)
    (hactive : ∀ socket, socket.stage = .active → (f socket).stage = .active)
    (hsent : ∀ socket, w.sockets[i]? = some socket → ∀ e ∈ (f socket).sent, e.visible = true)
    (hfed : ∀ socket, w.sockets[i]? = some socket → (f socket).closed = false →
      Fed { w with work := work } i (f socket)) :
    Inv { w with work := work, sockets := w.sockets.modify i f } := by
  refine ⟨h.rising, h.cache, htargets, ?_, ?_, ?_⟩
  · intro j hj
    obtain ⟨socket, hsocket, hstage⟩ := h.active j (hreached j hj)
    refine ⟨if i = j then f socket else socket, ?_, ?_⟩
    · change (w.sockets.modify i f)[j]? = _
      rw [List.getElem?_modify, hsocket]
      split
      · rfl
      · rfl
    · split
      · exact hactive socket hstage
      · exact hstage
  · intro socket' hmem
    obtain ⟨j, hj⟩ := List.mem_iff_getElem?.mp hmem
    obtain ⟨socket, hsocket, rfl⟩ := getElem?_modified hj
    split
    · next hij =>
      subst hij
      exact hsent socket hsocket
    · exact h.seen socket (List.mem_of_getElem? hsocket)
  · intro j socket' hj hopen
    obtain ⟨socket, hsocket, rfl⟩ := getElem?_modified hj
    change Fed { w with work := work } j _
    split
    · next hij =>
      subst hij
      rw [if_pos rfl] at hopen
      exact hfed socket hsocket hopen
    · next hij =>
      rw [if_neg hij] at hopen
      have hbefore := h.fed j socket hsocket hopen
      unfold Fed at hbefore ⊢
      dsimp only
      rw [hothers j hij]
      exact hbefore

/-- One socket changes. -/
theorem Inv.socket (h : Inv w) (i : Nat) (f : Socket → Socket)
    (hactive : ∀ socket, socket.stage = .active → (f socket).stage = .active)
    (hsent : ∀ socket, w.sockets[i]? = some socket → ∀ e ∈ (f socket).sent, e.visible = true)
    (hfed : ∀ socket, w.sockets[i]? = some socket → (f socket).closed = false →
      Fed w i (f socket)) :
    Inv { w with sockets := w.sockets.modify i f } :=
  h.served i f w.work h.targets (fun _ hj => hj) (fun _ _ => rfl) hactive hsent hfed

/-- The sends of a broadcast are independent of each other. -/
theorem Inv.deliver (h : Inv w) (i : Nat) (ok : Bool) : Inv (w.deliver i ok) := by
  unfold World.deliver
  split
  swap
  · exact h
  next durable event targets rest hwork =>
  split
  swap
  · exact h
  next hmem =>
  obtain ⟨hnodup, hvisible⟩ := h.targets durable event targets rest hwork
  apply h.served
  · rintro _ _ _ _ ⟨⟩
    exact ⟨hnodup.erase i, hvisible⟩
  · intro j hj
    rw [hwork]
    exact List.mem_of_mem_erase hj
  · intro j hij
    rw [hwork]
    simp only [Work.unsent, List.mem_erase_of_ne (Ne.symm hij)]
  · intro socket hstage
    split
    · exact hstage
    split
    · exact hstage
    · exact hstage
  · intro socket hi
    have hseen := h.seen socket (List.mem_of_getElem? hi)
    split
    · exact hseen
    split
    · intro e he
      rcases List.mem_append.mp he with he | he
      · exact hseen e he
      · rw [List.mem_singleton.mp he]
        exact hvisible
    · exact hseen
  · intro socket hi hopen
    by_cases hclosed : socket.closed = true
    · rw [if_pos hclosed, hclosed] at hopen
      cases hopen
    rw [if_neg hclosed] at hopen ⊢
    cases ok with
    | false => cases hopen
    | true =>
        have hstage : socket.stage = .active := by
          have htarget : i ∈ w.work.targets := by rw [hwork]; exact hmem
          obtain ⟨socket', hi', hstage⟩ := h.active i htarget
          rw [hi] at hi'
          cases hi'
          exact hstage
        have hfed := h.fed i socket hi (Bool.eq_false_iff.mpr hclosed)
        have hgone : i ∉ targets.erase i := fun hin => (hnodup.mem_erase_iff.mp hin).1 rfl
        unfold Fed at hfed ⊢
        rw [hstage, hwork] at hfed
        rw [if_pos rfl, hstage]
        change wanted socket.after (socket.sent ++ [event]) ++ wanted socket.after
          ((if i ∈ targets.erase i then [event] else []) ++ rest) = wanted socket.after w.log
        rw [if_neg hgone, List.nil_append, ← hfed]
        simp only [Work.unsent]
        rw [if_pos hmem, wanted_append, wanted_append, List.append_assoc]

/-- A socket that goes away is owed nothing. -/
theorem Inv.close (h : Inv w) (i : Nat) : Inv (w.close i) := by
  apply h.socket i
  · exact fun _ hstage => hstage
  · exact fun socket hi => h.seen socket (List.mem_of_getElem? hi)
  · rintro socket _ ⟨⟩

theorem Inv.connect (h : Inv w) (after : Nat) : Inv (w.connect after) := by
  refine ⟨h.rising, h.cache, h.targets, ?_, ?_, ?_⟩
  · intro i hi
    obtain ⟨socket, hsocket, hstage⟩ := h.active i hi
    exact ⟨socket, (List.getElem?_append_left (List.getElem?_eq_some_iff.mp hsocket).1).trans
      hsocket, hstage⟩
  · intro socket hsocket
    rcases List.mem_append.mp hsocket with hsocket | hsocket
    · exact h.seen socket hsocket
    · rw [List.mem_singleton.mp hsocket]
      rintro _ ⟨⟩
  · intro i socket hi hopen
    change (w.sockets ++ _)[i]? = _ at hi
    rw [List.getElem?_append] at hi
    split at hi
    · exact h.fed i socket hi hopen
    · rw [List.mem_singleton.mp (List.mem_of_getElem? hi)]
      exact rfl

theorem Inv.sessionEvents (h : Inv w) (i : Nat) : Inv (w.sessionEvents i) := by
  apply h.socket i
  · intro socket hstage
    split
    · exact hstage
    · unfold World.advance
      rw [hstage]
      exact hstage
  · intro socket hi
    have hseen := h.seen socket (List.mem_of_getElem? hi)
    split
    · exact hseen
    unfold World.advance
    split
    · split
      · exact hseen
      · exact hseen
    · intro e he
      rcases List.mem_append.mp he with he | he
      · exact hseen e he
      · have hcatchup := (List.mem_filter.mp he).2
        rw [Bool.and_eq_true, Bool.and_eq_true] at hcatchup
        exact hcatchup.1.1
    · split
      · split
        · exact hseen
        · exact hseen
      · exact hseen
    · exact hseen
  · intro socket hi hopen
    by_cases hclosed : socket.closed = true
    · rw [if_pos hclosed] at hopen
      rw [hclosed] at hopen
      cases hopen
    rw [if_neg hclosed]
    have hfed := h.fed i socket hi (Bool.eq_false_iff.mpr hclosed)
    unfold World.advance
    unfold Fed at hfed
    split
    · next hstage =>
      rw [hstage] at hfed
      split
      · exact ⟨hfed.trans (through_self _ _).symm, Nat.le_refl _, .inl (Nat.le_refl _),
          settled_last _⟩
      · unfold Fed
        rw [hstage]
        exact hfed
    · next cursor boundary hstage =>
      rw [hstage] at hfed
      obtain ⟨hsent, hle, hcursor, hboundary⟩ := hfed
      refine ⟨?_, Nat.le_trans hle (Nat.le_max_left ..), ?_⟩
      · change socket.sent ++ through cursor boundary w.log = _
        rw [hsent, through_through h.rising hle]
      · rcases Nat.le_total cursor boundary with hmax | hmax
        · rw [Nat.max_eq_right hmax]
          exact hboundary
        · rw [Nat.max_eq_left hmax]
          exact hcursor
    · next cursor hstage =>
      rw [hstage] at hfed
      obtain ⟨hsent, hle, hcursor⟩ := hfed
      split
      · next hidle =>
        split
        · next hcaught =>
          have hall : through socket.after cursor w.log = wanted socket.after w.log :=
            through_all fun e he => Nat.le_trans (last_le h.rising e he) hcaught
          unfold Fed
          dsimp only
          rw [hidle, hsent, hall]
          simp [Work.unsent, wanted, List.filter_filter]
        · exact ⟨hsent, hle, hcursor, settled_last _⟩
      · unfold Fed
        rw [hstage]
        exact ⟨hsent, hle, hcursor⟩
    · next hstage =>
      unfold Fed
      rw [hstage] at hfed ⊢
      exact hfed

/-! ## Runs -/

theorem Inv.step (h : Inv w) (a : Action) (steady : Steady ⟨w, a, (w.step a).2⟩) :
    Inv (w.step a).1 := by
  cases a with
  | write durable visible => exact h.write durable visible
  | failWrite consumedHighWater repaired => exact h.failWrite consumedHighWater repaired
  | abort => exact h.abort steady
  | broadcast => exact h.broadcast
  | deliver i ok => exact h.deliver i ok
  | forgetEventSeq =>
      exact ⟨h.rising, by rintro _ ⟨⟩, h.targets, h.active, h.seen, h.fed⟩
  | setLatest stored => exact ⟨h.rising, h.cache, h.targets, h.active, h.seen, h.fed⟩
  | connect after => exact h.connect after
  | sessionEvents i => exact h.sessionEvents i
  | close i => exact h.close i

/-- Where the chat is at rest after a step with every stream complete, the step was steady. -/
theorem Inv.steady (h : Inv w) (a : Action)
    (hcomplete : (w.step a).1.work = .idle → Complete (w.step a).1) :
    Steady ⟨w, a, (w.step a).2⟩ := by
  unfold Steady
  dsimp only
  split
  swap
  · trivial
  next events hwork =>
  intro event hevent hvisible socket hsocket hactive hopen
  by_contra hlt
  have habort : (w.step .abort).1 = { w with work := .idle } := by
    simp only [World.step, World.abort, hwork]
  rw [habort] at hcomplete
  have hsent := (hcomplete rfl socket hsocket hactive hopen).1
  obtain ⟨i, hi⟩ := List.mem_iff_getElem?.mp hsocket
  have hfed := h.fed i socket hi hopen
  unfold Fed at hfed
  rw [hactive, hwork] at hfed
  rw [h.sent_wanted hsocket] at hsent
  -- nothing was left to send, but the event was
  have hnone : wanted socket.after events = [] := by
    have hlog : wanted socket.after socket.sent = wanted socket.after w.log := hsent
    rw [hlog] at hfed
    exact List.append_right_eq_self.mp hfed
  have hmem : event ∈ wanted socket.after events := by
    apply List.mem_filter.mpr
    exact ⟨hevent, by rw [hvisible, decide_eq_true (Nat.lt_of_not_le hlt)]; rfl⟩
  rw [hnone] at hmem
  cases hmem

theorem Inv.complete_iff (h : Inv w) (actions : List Action) :
    (∀ pre, pre <+: actions → (Runs.run World.step w pre).work = .idle →
      Complete (Runs.run World.step w pre)) ↔
    ∀ e ∈ Runs.history World.step w actions, Steady e := by
  induction actions generalizing w with
  | nil =>
      constructor
      · rintro _ _ ⟨⟩
      · intro _ pre hpre hidle
        rw [List.prefix_nil.mp hpre] at hidle ⊢
        exact h.complete hidle
  | cons a rest ih =>
      rw [Runs.history_cons, List.forall_mem_cons]
      constructor
      · intro hall
        have hfirst : Steady ⟨w, a, (w.step a).2⟩ :=
          h.steady a (hall [a] ⟨rest, rfl⟩)
        refine ⟨hfirst, (ih (h.step a hfirst)).mp ?_⟩
        intro pre hpre
        exact hall (a :: pre) (List.cons_prefix_cons.mpr ⟨rfl, hpre⟩)
      · rintro ⟨hfirst, hrest⟩ pre hpre
        cases pre with
        | nil => exact h.complete
        | cons b pre =>
            obtain ⟨rfl, htail⟩ := List.cons_prefix_cons.mp hpre
            exact (ih (h.step b hfirst)).mpr hrest pre htail

/-- Whenever no append section runs, every open socket that was activated has every event behind
its cursor, once and in order, exactly if no `append_event` ends before its broadcast while such
a socket waits for the event. -/
theorem streams_complete_iff (actions : List Action) :
    (∀ pre, pre <+: actions → (Runs.run World.step .empty pre).work = .idle →
      Complete (Runs.run World.step .empty pre)) ↔
    ∀ e ∈ Runs.history World.step .empty actions, Steady e :=
  inv_empty.complete_iff actions

/-- An active socket is not sent the event of a cancelled `append_event`, and later ones are. -/
theorem append_event_unsent :
    let lost := Runs.run World.step .empty
      [.connect 0, .sessionEvents 0, .sessionEvents 0, .sessionEvents 0, .write false [true],
        .abort]
    let next := Runs.run World.step lost
      [.write false [true], .broadcast, .deliver 0 true, .broadcast, .broadcast]
    lost.work = .idle ∧ ¬ Complete lost ∧ next.work = .idle ∧
      next.sockets.map Socket.sent = [[⟨2, true⟩]] := by
  decide

end AgentsServer.LiveEvents
