import AgentsServer.LiveEvents.Store

/-!
# What a socket was sent

While a socket catches up it has every event up to its cursor. Once it is active it has, with
what the running section still has to send it, every event.
-/

namespace AgentsServer.LiveEvents

open Library

/-! ## Events behind a cursor -/

/-- The visible events behind a cursor. -/
def wanted (after : Nat) (events : List Event) : List Event :=
  events.filter fun e => e.visible && decide (after < e.seq)

/-- The visible events behind a cursor, through another. -/
def through (after last : Nat) (events : List Event) : List Event :=
  events.filter fun e => e.visible && decide (after < e.seq) && decide (e.seq ≤ last)

def Rising (events : List Event) : Prop := events.Pairwise fun a b => a.seq < b.seq

variable {after last last' : Nat} {log events : List Event}

theorem wanted_append (after : Nat) (log events : List Event) :
    wanted after (log ++ events) = wanted after log ++ wanted after events :=
  List.filter_append ..

theorem through_append_new (h : ∀ e ∈ events, last < e.seq ∨ e.seq ≤ after) :
    through after last (log ++ events) = through after last log := by
  unfold through
  rw [List.filter_append]
  have hnone : events.filter
      (fun e => e.visible && decide (after < e.seq) && decide (e.seq ≤ last)) = [] := by
    rw [List.filter_eq_nil_iff]
    intro e he
    simp only [Bool.and_eq_true, decide_eq_true_eq]
    have := h e he
    omega
  rw [hnone, List.append_nil]

theorem through_self (after : Nat) (log : List Event) : through after after log = [] := by
  unfold through
  rw [List.filter_eq_nil_iff]
  intro e _
  simp only [Bool.and_eq_true, decide_eq_true_eq]
  omega

theorem through_all (h : ∀ e ∈ log, e.seq ≤ last) : through after last log = wanted after log := by
  unfold through wanted
  apply List.filter_congr
  intro e he
  rw [decide_eq_true (h e he), Bool.and_true]

/-- One catch-up after another. -/
theorem through_through (hlog : Rising log) (hle : after ≤ last) :
    through after last log ++ through last last' log = through after (max last last') log := by
  induction hlog with
  | nil => rfl
  | @cons e log hfirst _ ih =>
      have hsame : ∀ m n, through m n (e :: log) =
          if e.visible && decide (m < e.seq) && decide (e.seq ≤ n) then e :: through m n log
          else through m n log := fun m n => List.filter_cons
      rw [hsame, hsame, hsame]
      by_cases hearly : e.seq ≤ last
      · have hno : (e.visible && decide (last < e.seq) && decide (e.seq ≤ last')) = false := by
          simp
          omega
        have hboth : (e.visible && decide (after < e.seq) && decide (e.seq ≤ max last last')) =
            (e.visible && decide (after < e.seq) && decide (e.seq ≤ last)) := by
          rw [decide_eq_true hearly, decide_eq_true (Nat.le_trans hearly (Nat.le_max_left ..))]
        rw [hno, hboth, ← ih]
        split
        · rfl
        · rfl
      · -- what follows is later still
        have hnone : through after last log = [] := by
          unfold through
          rw [List.filter_eq_nil_iff]
          intro a ha
          have := hfirst a ha
          simp
          omega
        have hno : (e.visible && decide (after < e.seq) && decide (e.seq ≤ last)) = false := by
          simp
          omega
        have hboth : (e.visible && decide (after < e.seq) && decide (e.seq ≤ max last last')) =
            (e.visible && decide (last < e.seq) && decide (e.seq ≤ last')) := by
          by_cases hlast : e.seq ≤ last'
          · have hafter : after < e.seq := by omega
            have hlt : last < e.seq := by omega
            rw [decide_eq_true hafter, decide_eq_true hlt, decide_eq_true hlast,
              decide_eq_true (Nat.le_trans hlast (Nat.le_max_right ..))]
          · have hmax : ¬ e.seq ≤ max last last' := by omega
            rw [decide_eq_false hmax, decide_eq_false hlast, Bool.and_false, Bool.and_false]
        rw [hnone, List.nil_append] at ih
        rw [hno, hboth, hnone, ← ih]
        rfl

/-! ## The invariant -/

/-- What the running section has still to send a socket. -/
def Work.unsent (i : Nat) : Work → List Event
  | .idle => []
  | .delivering _ events => events
  | .broadcasting _ event targets rest => (if i ∈ targets then [event] else []) ++ rest

/-- The sockets a broadcast has not reached. -/
def Work.targets : Work → List Nat
  | .broadcasting _ _ targets _ => targets
  | _ => []

/-- No later event has a number up to this one. -/
def Settled (after last : Nat) (log : List Event) : Prop :=
  last ≤ after ∨ ∃ e ∈ log, last ≤ e.seq

/-- What a socket was sent. -/
def Fed (w : World) (i : Nat) (socket : Socket) : Prop :=
  match socket.stage with
  | .reserved => socket.sent = []
  | .catching cursor boundary =>
      socket.sent = through socket.after cursor w.log ∧ socket.after ≤ cursor ∧
        Settled socket.after cursor w.log ∧ Settled socket.after boundary w.log
  | .caught cursor =>
      socket.sent = through socket.after cursor w.log ∧ socket.after ≤ cursor ∧
        Settled socket.after cursor w.log
  | .active =>
      wanted socket.after socket.sent ++ wanted socket.after (w.work.unsent i) =
        wanted socket.after w.log

structure Inv (w : World) : Prop where
  rising : Rising w.log
  cache : ∀ seq, w.cache = some seq → ∀ e ∈ w.log, e.seq ≤ seq
  targets : ∀ durable event targets rest, w.work = .broadcasting durable event targets rest →
    targets.Nodup ∧ event.visible = true
  active : ∀ i ∈ w.work.targets, ∃ socket, w.sockets[i]? = some socket ∧ socket.stage = .active
  seen : ∀ socket ∈ w.sockets, ∀ e ∈ socket.sent, e.visible = true
  fed : ∀ i socket, w.sockets[i]? = some socket → socket.closed = false → Fed w i socket

variable {w : World}

theorem inv_empty : Inv .empty where
  rising := .nil
  cache := by rintro _ ⟨⟩
  targets := by rintro _ _ _ _ ⟨⟩
  active := by rintro _ ⟨⟩
  seen := by rintro _ ⟨⟩
  fed := by rintro _ _ ⟨⟩

theorem last_le (h : Rising w.log) : ∀ e ∈ w.log, e.seq ≤ w.lastEventSeq := by
  intro e he
  unfold World.lastEventSeq
  cases hlast : w.log.getLast? with
  | none =>
      rw [List.getLast?_eq_none_iff.mp hlast] at he
      cases he
  | some last =>
      obtain ⟨before, hlog⟩ := List.getLast?_eq_some_iff.mp hlast
      rw [hlog] at he h
      rcases List.mem_append.mp he with he | he
      · exact Nat.le_of_lt ((List.pairwise_append.mp h).2.2 e he last (List.mem_singleton_self _))
      · rw [List.mem_singleton.mp he]
        exact Nat.le_refl _

theorem settled_last (after : Nat) : Settled after w.lastEventSeq w.log := by
  unfold World.lastEventSeq
  cases hlast : w.log.getLast? with
  | none => exact .inl (Nat.zero_le _)
  | some last => exact .inr ⟨last, List.mem_of_getLast? hlast, Nat.le_refl _⟩

theorem Inv.next_lt (h : Inv w) : ∀ e ∈ w.log, e.seq < w.nextEventSeq := by
  intro e he
  unfold World.nextEventSeq
  split
  · next seq hseq => exact Nat.lt_succ_of_le (h.cache seq hseq e he)
  · have := last_le h.rising e he
    omega

/-- What a socket was sent of the events behind its cursor. -/
theorem Inv.sent_wanted (h : Inv w) {socket : Socket} (hsocket : socket ∈ w.sockets) :
    socket.sent.filter (fun e => decide (socket.after < e.seq)) =
      wanted socket.after socket.sent := by
  apply List.filter_congr
  intro e he
  rw [h.seen socket hsocket e he, Bool.true_and]

/-- At rest every open active socket has every event. -/
theorem Inv.complete (h : Inv w) (hidle : w.work = .idle) : Complete w := by
  intro socket hsocket hactive hopen
  obtain ⟨i, hi⟩ := List.mem_iff_getElem?.mp hsocket
  have hfed := h.fed i socket hi hopen
  unfold Fed at hfed
  rw [hactive, hidle] at hfed
  have hall : wanted socket.after socket.sent = wanted socket.after w.log := by
    simpa [Work.unsent, wanted] using hfed
  rw [h.sent_wanted hsocket, hall]
  exact ⟨rfl, h.rising.filter _⟩

end AgentsServer.LiveEvents
