import AgentsServer.Mailbox.Message
import Mathlib.Data.List.TakeDrop
import Mathlib.Tactic.Common

/-!
# Selections and pages

Which rows a selection contains, and what one run of the page loop returns: a
prefix of the selection that respects both budgets, with `more` set exactly
when something is left.
-/

namespace AgentsServer.Mailbox

open Library

variable {db : Ledger}

theorem envelope?_id {id : String} {e : Envelope} (h : db.envelope? id = some e) : e.id = id :=
  (Tables.find_mem h).2

theorem mem_join {row : Joined} :
    row ∈ db.join ↔ row.1 ∈ db.messages ∧ db.envelope? row.1.messageId = some row.2 := by
  obtain ⟨m, e⟩ := row
  simp only [Ledger.join, List.mem_filterMap, Option.map_eq_some_iff, Prod.mk.injEq]
  constructor
  · rintro ⟨m', hm, e', he, rfl, rfl⟩
    exact ⟨hm, he⟩
  · rintro ⟨hm, he⟩
    exact ⟨m, hm, e, he, rfl, rfl⟩

theorem mem_select {condition : Joined → Bool} {row : Joined} :
    row ∈ db.select condition ↔ row ∈ db.join ∧ condition row = true := by
  simp [Ledger.select, List.mem_insertionSort, List.mem_filter]

theorem valid_unexcluded {row : Joined} (h : valid row = true) : row.1.excludedAt = none := by
  simp only [valid, Bool.and_eq_true] at h
  simpa using h.1.1.1.1.1.1.1

/-- What a scope admits. -/
theorem admits_iff {scope : Scope} {row : Joined} :
    scope.admits row = true ↔ valid row = true ∧ row.1.targetSessionId = scope.target ∧
      row.1.pairId ∈ scope.allowed ∧
      (∀ source, scope.source = some source → row.1.sourceSessionId = source) := by
  obtain ⟨target, source, allowed⟩ := scope
  cases source <;> simp [Scope.admits, and_assoc]

/-- Messages in the order of their numbers, each number once. -/
def Ordered (db : Ledger) : Prop :=
  db.messages.Pairwise fun a b => a.mailboxSeq < b.mailboxSeq

theorem join_ordered (h : Ordered db) :
    db.join.Pairwise fun a b => a.1.mailboxSeq < b.1.mailboxSeq := by
  unfold Ledger.join
  refine List.Pairwise.filterMap _ ?_ h
  intro a b hab x hx y hy
  simp only [Option.map_eq_some_iff] at hx hy
  obtain ⟨_, _, rfl⟩ := hx
  obtain ⟨_, _, rfl⟩ := hy
  exact hab

/-- Ordered messages are selected without any sorting. -/
theorem select_eq_filter (h : Ordered db) (condition : Joined → Bool) :
    db.select condition = db.join.filter condition := by
  apply List.Pairwise.insertionSort_eq
  apply List.Pairwise.imp _ ((join_ordered h).filter condition)
  intro a b hab
  exact Nat.le_of_lt hab

theorem select_ordered (h : Ordered db) (condition : Joined → Bool) :
    (db.select condition).Pairwise fun a b => a.1.mailboxSeq < b.1.mailboxSeq := by
  rw [select_eq_filter h]
  exact (join_ordered h).filter condition

@[simp] theorem pageMessage_messageId (receipt : Option (String × String)) (row : Joined) :
    (pageMessage receipt row).messageId = row.1.messageId := by
  unfold pageMessage
  split <;> rfl

@[simp] theorem pageMessage_mailboxSeq (receipt : Option (String × String)) (row : Joined) :
    (pageMessage receipt row).mailboxSeq = row.1.mailboxSeq := by
  unfold pageMessage
  split <;> rfl

/-! ## The loop -/

/-- The bytes of a list of rows on one page. -/
def pageBytes (receipt : Option (String × String)) (rows : List Joined) : Nat :=
  (rows.map fun row => (pageMessage receipt row).size).sum

@[simp] theorem pageBytes_nil (receipt : Option (String × String)) : pageBytes receipt [] = 0 := rfl

@[simp] theorem pageBytes_cons (receipt : Option (String × String)) (row : Joined)
    (rows : List Joined) :
    pageBytes receipt (row :: rows) = (pageMessage receipt row).size + pageBytes receipt rows := by
  simp [pageBytes]

/-- A finished loop took the first `k` rows within both budgets. -/
theorem pageLoop_ok {pageLimit : Nat} {receipt : Option (String × String)} {rows : List Joined}
    {taken messages : List Message} {used : Nat} {more : Bool}
    (hcount : taken.length ≤ pageLimit) (hbytes : used ≤ maxPageBytes)
    (h : pageLoop pageLimit receipt rows taken used = .ok (messages, more)) :
    ∃ k ≤ rows.length, messages = taken ++ (rows.take k).map (pageMessage receipt) ∧
      more = decide (k < rows.length) ∧ messages.length ≤ pageLimit ∧
      used + pageBytes receipt (rows.take k) ≤ maxPageBytes ∧
      (more = true → messages ≠ []) := by
  induction rows generalizing taken used with
  | nil =>
      simp only [pageLoop, Except.ok.injEq, Prod.mk.injEq] at h
      obtain ⟨rfl, rfl⟩ := h
      exact ⟨0, by simp, by simp, by simp, hcount, by simpa using hbytes, by simp⟩
  | cons row rest ih =>
      simp only [pageLoop] at h
      split at h
      · -- The page is cut before this row.
        split at h
        · cases h
        · next hne =>
            simp only [Except.ok.injEq, Prod.mk.injEq] at h
            obtain ⟨rfl, rfl⟩ := h
            exact ⟨0, by simp, by simp, by simp, hcount, by simpa using hbytes,
              fun _ => by simpa using hne⟩
      · next hcut =>
          simp only [not_or, Nat.not_lt] at hcut
          have hlen : (taken ++ [pageMessage receipt row]).length ≤ pageLimit := by
            rw [List.length_append, List.length_singleton]
            omega
          obtain ⟨k, hk, hm, hmore, hl, hb, hne⟩ := ih hlen hcut.2 h
          refine ⟨k + 1, by simpa using hk, by simpa using hm, by simpa using hmore, hl, ?_, hne⟩
          rw [List.take_succ_cons, pageBytes_cons]
          omega

/-- Rows that fit both budgets are all taken. -/
theorem pageLoop_all {pageLimit : Nat} {receipt : Option (String × String)} {rows : List Joined}
    {taken : List Message} {used : Nat} (hcount : taken.length + rows.length ≤ pageLimit)
    (hbytes : used + pageBytes receipt rows ≤ maxPageBytes) :
    pageLoop pageLimit receipt rows taken used =
      .ok (taken ++ rows.map (pageMessage receipt), false) := by
  induction rows generalizing taken used with
  | nil => simp [pageLoop]
  | cons row rest ih =>
      rw [pageBytes_cons] at hbytes
      rw [List.length_cons] at hcount
      have hfit : ¬ (taken.length = pageLimit ∨
          maxPageBytes < used + (pageMessage receipt row).size) := by
        omega
      simp only [pageLoop, if_neg hfit]
      rw [ih]
      · simp
      · rw [List.length_append, List.length_singleton]
        omega
      · omega

/-- A loop raises only at its first row. -/
theorem pageLoop_total {pageLimit : Nat} {receipt : Option (String × String)} {rows : List Joined}
    {taken : List Message} {used : Nat}
    (h : taken ≠ [] ∨ (0 < pageLimit ∧
      ∀ row ∈ rows, used + (pageMessage receipt row).size ≤ maxPageBytes)) :
    ∃ out, pageLoop pageLimit receipt rows taken used = .ok out := by
  induction rows generalizing taken used with
  | nil => exact ⟨_, rfl⟩
  | cons row rest ih =>
      simp only [pageLoop]
      split
      · next hcut =>
          rcases h with hne | ⟨hpos, hfit⟩
          · rw [if_neg (by simpa using hne)]
            exact ⟨_, rfl⟩
          · have hrow := hfit row (by simp)
            by_cases hnil : taken = []
            · subst hnil
              simp only [List.length_nil] at hcut
              omega
            · rw [if_neg (by simpa using hnil)]
              exact ⟨_, rfl⟩
      · exact ih (Or.inl (by simp))

theorem page_ok {condition : Joined → Bool} {pageLimit : Nat}
    {receipt : Option (String × String)} {messages : List Message} {more : Bool}
    (h : page db condition pageLimit receipt = .ok (messages, more)) :
    ∃ k ≤ (db.select condition).length, k ≤ pageLimit ∧
      messages = ((db.select condition).take k).map (pageMessage receipt) ∧
      more = decide (k < (db.select condition).length) ∧
      pageReserve + pageBytes receipt ((db.select condition).take k) ≤ maxPageBytes ∧
      (more = true → 0 < k) := by
  obtain ⟨k, hk, hm, hmore, hl, hb, hne⟩ := pageLoop_ok (Nat.zero_le _) (by decide) h
  rw [List.length_take] at hk hmore
  rw [List.take_take, List.nil_append] at hm
  rw [List.take_take] at hb
  have hlen : messages.length = k := by
    rw [hm, List.length_map, List.length_take]
    omega
  have hkl : k ≤ pageLimit := by omega
  have hmin : min k (pageLimit + 1) = k := by omega
  rw [hmin] at hm hb
  refine ⟨k, by omega, hkl, hm, ?_, hb, ?_⟩
  · rw [hmore, decide_eq_decide]
    omega
  · intro ht
    have hnil := hne ht
    rw [← List.length_pos_iff] at hnil
    omega

theorem page_all {condition : Joined → Bool} {pageLimit : Nat}
    {receipt : Option (String × String)} (hcount : (db.select condition).length ≤ pageLimit)
    (hbytes : pageReserve + pageBytes receipt (db.select condition) ≤ maxPageBytes) :
    page db condition pageLimit receipt =
      .ok ((db.select condition).map (pageMessage receipt), false) := by
  unfold page
  rw [List.take_of_length_le (by omega), pageLoop_all]
  · simp
  · simpa using hcount
  · exact hbytes

theorem page_total (db : Ledger) (condition : Joined → Bool) {pageLimit : Nat}
    (receipt : Option (String × String)) (hpos : 0 < pageLimit)
    (hfit : ∀ row ∈ db.select condition,
      pageReserve + (pageMessage receipt row).size ≤ maxPageBytes) :
    ∃ out, page db condition pageLimit receipt = .ok out := by
  apply pageLoop_total
  exact Or.inr ⟨hpos, fun row hrow => hfit row (List.mem_of_mem_take hrow)⟩

end AgentsServer.Mailbox
