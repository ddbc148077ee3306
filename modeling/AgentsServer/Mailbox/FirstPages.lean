import AgentsServer.Mailbox.ReadOnce
import Mathlib.Data.List.Perm.Basic

/-!
# A first page and its receipt

Taking a page never raises for a stored message, and selecting the recorded
page again returns the messages that were marked, with nothing left over.
-/

namespace AgentsServer.Mailbox

open Library Library.Runs

/-! ## Sizes of receipts -/

/-- A character that JSON writes as one byte. -/
def isPlain (c : Char) : Bool :=
  decide (32 ≤ c.toNat) && decide (c.toNat < 127) && c != '"' && c != '\\'

theorem escape_plain {c : Char} (h : isPlain c = true) :
    Json.escape c = [c] ∧ c.utf8Size = 1 := by
  simp only [isPlain, Bool.and_eq_true, decide_eq_true_eq, bne_iff_ne] at h
  obtain ⟨⟨⟨hlow, hhigh⟩, hquote⟩, hback⟩ := h
  have named : ∀ d : Char, d.toNat < 32 → c ≠ d := by
    rintro d hd rfl
    omega
  refine ⟨?_, ?_⟩
  · rw [Json.escape, if_neg hquote, if_neg hback, if_neg (named _ (by decide)),
      if_neg (named _ (by decide)), if_neg (named _ (by decide)), if_neg (named _ (by decide)),
      if_neg (named _ (by decide)), if_neg (by omega)]
  · rw [Char.utf8Size]
    have hle : c.val ≤ 127 := by
      rw [UInt32.le_iff_toNat_le]
      exact Nat.le_of_lt hhigh
    exact if_pos hle

theorem quotedSize_plain {s : String} (h : ∀ c ∈ s.toList, isPlain c = true) :
    quotedSize s = s.length + 2 := by
  have body : ∀ cs : List Char, (∀ c ∈ cs, isPlain c = true) →
      Json.utf8Size (cs.flatMap Json.escape) = cs.length := by
    intro cs
    induction cs with
    | nil => simp
    | cons c rest ih =>
        intro hall
        obtain ⟨hesc, hsize⟩ := escape_plain (hall c (by simp))
        rw [List.flatMap_cons, Json.utf8Size_append, hesc,
          ih fun d hd => hall d (List.mem_cons_of_mem _ hd)]
        simp only [Json.utf8Size_cons, Json.utf8Size_nil, hsize, List.length_cons]
        omega
  have hquote : ('"' : Char).utf8Size = 1 := by decide
  simp only [quotedSize, Json.quote, Json.utf8Size_cons, Json.utf8Size_append, Json.utf8Size_nil,
    body s.toList h, hquote, String.length_toList]
  omega

theorem quotedSize_wide (n : Nat) :
    quotedSize (String.ofList (List.replicate n 'x')) = n + 2 := by
  rw [quotedSize_plain]
  · simp
  · intro c hc
    rw [String.toList_ofList, List.mem_replicate] at hc
    rw [hc.2]
    decide

theorem isPlain_of_range {c : Char} (low : 35 ≤ c.toNat) (high : c.toNat < 127)
    (back : c.toNat ≠ 92) : isPlain c = true := by
  have hq : c ≠ '"' := by
    rintro rfl
    exact absurd low (by decide)
  have hb : c ≠ '\\' := by
    rintro rfl
    exact back (by decide)
  simp only [isPlain, Bool.and_eq_true, decide_eq_true_eq, bne_iff_ne]
  exact ⟨⟨⟨by omega, high⟩, hq⟩, hb⟩

theorem isPlain_digit {c : Char} (h : c.isDigit = true) : isPlain c = true := by
  simp only [Char.isDigit, Bool.and_eq_true, decide_eq_true_eq, ge_iff_le,
    UInt32.le_iff_toNat_le] at h
  obtain ⟨hl, hr⟩ := h
  have hl' : 48 ≤ c.toNat := hl
  have hr' : c.toNat ≤ 57 := hr
  exact isPlain_of_range (by omega) (by omega) (by omega)

theorem quotedSize_now (now : IsoTime) : quotedSize now.text ≤ 64 + 2 := by
  rw [quotedSize_plain]
  · have h := now.short
    omega
  · intro c hc
    have h := now.plain c hc
    simp only [Bool.or_eq_true, beq_iff_eq] at h
    rcases h with (((hd | rfl) | rfl) | rfl) | rfl
    · exact isPlain_digit hd
    all_goals decide

theorem quotedSize_readId (uuid : UuidHex) : quotedSize ("mailread_" ++ uuid.text) ≤ 240 + 2 := by
  have hhex := uuid.hex
  simp only [isHexOf, Bool.and_eq_true, beq_iff_eq, String.length_toList, List.all_eq_true] at hhex
  rw [quotedSize_plain]
  · rw [String.length_append, hhex.1]
    decide
  · intro c hc
    rw [String.toList_append] at hc
    rcases List.mem_append.mp hc with hpre | huuid
    · have hall : ("mailread_".toList.all isPlain) = true := by decide
      exact List.all_eq_true.mp hall c hpre
    · have hx := hhex.2 c huuid
      simp only [isLowerHex, Bool.or_eq_true, Bool.and_eq_true, decide_eq_true_eq] at hx
      rcases hx with hd | ⟨hl, hr⟩
      · exact isPlain_digit hd
      · have hl' : 97 ≤ c.toNat := hl
        have hr' : c.toNat ≤ 102 := hr
        exact isPlain_of_range (by omega) (by omega) (by omega)

variable {db db' : Ledger}

/-- A stored message fits a page with the receipt of any read. -/
theorem Inv.receipt_fits (h : Inv db) {batch : ReadRow} (opened : batch ∈ db.reads) (now : IsoTime)
    {row : Joined} (hrow : row ∈ db.join) :
    pageReserve + (pageMessage (some (batch.id, now.text)) row).size ≤ maxPageBytes := by
  obtain ⟨hm, he⟩ := mem_join.mp hrow
  have hfit := h.fits row.1 hm row.2 he
  obtain ⟨uuid, hid⟩ := h.readNames batch opened
  have hread : quotedSize batch.id ≤ quotedSize (String.ofList (List.replicate 240 'x')) := by
    rw [hid, quotedSize_wide]
    exact quotedSize_readId uuid
  have hnow : quotedSize now.text ≤ quotedSize (String.ofList (List.replicate 64 'x')) := by
    rw [quotedSize_wide]
    exact quotedSize_now now
  have hle := withReceipt_size_le (message row.1 row.2) hread hnow
  rw [Fits, widestReceipt] at hfit
  change pageReserve + ((message row.1 row.2).withReceipt batch.id now.text).size ≤ maxPageBytes
  omega

/-! ## Selecting a recorded page again -/

/-- The rows of a sublist are found again by their keys. -/
theorem filter_keys_sublist {α κ : Type} [DecidableEq κ] {key : α → κ} {xs ys : List α}
    (sub : xs.Sublist ys) (unique : (ys.map key).Nodup) :
    ys.filter (fun y => decide (key y ∈ xs.map key)) = xs := by
  induction sub with
  | slnil => rfl
  | @cons xs ys y sub ih =>
      rw [List.map_cons, List.nodup_cons] at unique
      have hnot : key y ∉ xs.map key := fun hy => unique.1 (sub.map key |>.subset hy)
      rw [List.filter_cons_of_neg (by simpa using hnot)]
      exact ih unique.2
  | @cons_cons xs ys y sub ih =>
      rw [List.map_cons, List.nodup_cons] at unique
      rw [List.filter_cons_of_pos (by simp)]
      congr 1
      rw [← ih unique.2]
      apply List.filter_congr
      intro z hz
      have hne : key z ≠ key y := by
        intro he
        apply unique.1
        rw [← he]
        exact List.mem_map_of_mem hz
      rw [ih unique.2]
      simp [hne]

/-- A joined row after its message was marked. -/
def markRow (ids : List String) (batch : ReadRow) (now : IsoTime) (row : Joined) : Joined :=
  (markRead ids batch now row.1, row.2)

theorem join_marked {ids : List String} {batch : ReadRow} {now : IsoTime}
    (messages : db'.messages = db.messages.map (markRead ids batch now))
    (envelopes : db'.envelopes = db.envelopes) :
    db'.join = db.join.map (markRow ids batch now) := by
  rw [Ledger.join, messages, List.filterMap_map, Ledger.join, List.map_filterMap]
  apply List.filterMap_congr
  intro m _
  simp only [Function.comp_def, Ledger.envelope?, envelopes,
    (markRead_identity ids batch now m).1, Option.map_map, markRow]

/-- A mark does not change what a scope admits. -/
theorem admits_marked (scope : Scope) (ids : List String) (batch : ReadRow) (now : IsoTime)
    (row : Joined) : scope.admits (markRow ids batch now row) = scope.admits row := by
  simp only [markRow, markRead]
  split <;> rfl

/-- The message of a freshly marked row is the message its page showed. -/
theorem message_marked {ids : List String} {batch : ReadRow} {now : IsoTime} {row : Joined}
    (hid : row.1.messageId ∈ ids) (unread : row.1.readAt = none) :
    pageMessage none (markRow ids batch now row) = pageMessage (some (batch.id, now.text)) row := by
  rw [markRow, markRead, if_pos ⟨hid, by rw [unread]; rfl⟩]
  rfl

theorem join_ids_nodup (h : Inv db) : (db.join.map fun row => row.1.messageId).Nodup := by
  rw [List.Nodup, List.pairwise_map]
  apply (join_ordered h.ordered).imp_of_mem
  intro a b ha hb hab he
  rw [h.same_row (mem_join.mp ha).1 (mem_join.mp hb).1 he] at hab
  exact Nat.lt_irrefl _ hab

/-- The rows of a first page, before and after they were marked. -/
structure PageRows (db : Ledger) (scope : Scope) (batch : ReadRow) (afterSeq pageLimit : Nat)
    (now : IsoTime) (row : PageRow) (db' : Ledger) (messages : List Message)
    (rows : List Joined) (k : Nat) : Prop where
  prefix_eq : rows = (db.select (unreadWithin scope afterSeq batch.snapshotSeq)).take k
  some_taken : row.hasMore = true → 0 < k ∧
    k < (db.select (unreadWithin scope afterSeq batch.snapshotSeq)).length
  all_taken : row.hasMore = false →
    (db.select (unreadWithin scope afterSeq batch.snapshotSeq)).length ≤ k
  messages_eq : messages = rows.map (pageMessage (some (batch.id, now.text)))
  count : rows.length ≤ pageLimit
  bytes : pageReserve + pageBytes (some (batch.id, now.text)) rows ≤ maxPageBytes
  ids : row.messageIds = rows.map fun r => r.1.messageId
  last : row.endSeq = (rows.getLast?.map fun r => r.1.mailboxSeq).getD afterSeq
  readId : row.readId = batch.id
  afterSeq : row.afterSeq = afterSeq
  join : db'.join = db.join.map (markRow row.messageIds batch now)

theorem FirstPage.pageRows {scope : Scope} {batch : ReadRow} {afterSeq pageLimit : Nat}
    {now : IsoTime} {row : PageRow} {messages : List Message}
    (page : FirstPage db scope batch afterSeq pageLimit now row db' messages) :
    ∃ rows k, PageRows db scope batch afterSeq pageLimit now row db' messages rows k := by
  obtain ⟨k, hk, hlim, hm, hmore, hbytes, hpos⟩ := page_ok page.selected
  refine ⟨_, k, rfl, ?_, ?_, hm, ?_, hbytes, ?_, ?_, ?_, ?_, ?_⟩
  · intro hyes
    refine ⟨hpos hyes, ?_⟩
    rw [hyes, eq_comm, decide_eq_true_eq] at hmore
    exact hmore
  · intro hnot
    rw [hnot, eq_comm, decide_eq_false_iff_not] at hmore
    omega
  · rw [List.length_take]
    omega
  · rw [page.row_eq]
    simp [hm, Function.comp_def]
  · rw [page.row_eq]
    simp only [hm, List.getLast?_map, Option.map_map, Function.comp_def, pageMessage_mailboxSeq]
  · rw [page.row_eq]
  · rw [page.row_eq]
  · exact join_marked (by rw [page.ledger]; rfl) (by rw [page.ledger])

section Rows

variable {scope : Scope} {batch : ReadRow} {afterSeq pageLimit : Nat} {now : IsoTime}
  {row : PageRow} {messages : List Message} {rows : List Joined} {k : Nat}

theorem PageRows.selected (p : PageRows db scope batch afterSeq pageLimit now row db' messages rows k)
    {r : Joined} (hr : r ∈ rows) : Selected db scope afterSeq batch.snapshotSeq r := by
  rw [p.prefix_eq] at hr
  exact selected_of_mem (List.mem_of_mem_take hr)

/-- Selecting the recorded ids again gives the marked rows of the page. -/
theorem PageRows.reselect (h : Inv db) (h' : Inv db')
    (p : PageRows db scope batch afterSeq pageLimit now row db' messages rows k) :
    db'.select (fun r => scope.admits r && row.messageIds.contains r.1.messageId) =
      rows.map (markRow row.messageIds batch now) := by
  have hsub : rows.Sublist db.join := by
    rw [p.prefix_eq, select_eq_filter h.ordered]
    exact (List.take_sublist _ _).trans List.filter_sublist
  rw [select_eq_filter h'.ordered, p.join, List.filter_map]
  congr 1
  calc db.join.filter _
      = db.join.filter (fun r => decide (r.1.messageId ∈ rows.map fun r => r.1.messageId)) := by
        apply List.filter_congr
        intro r hr
        simp only [Function.comp_apply, admits_marked]
        have hid : (markRow row.messageIds batch now r).1.messageId = r.1.messageId :=
          (markRead_identity _ _ _ _).1
        rw [hid, p.ids, List.contains_eq_mem]
        by_cases hmem : r.1.messageId ∈ rows.map fun r => r.1.messageId
        · obtain ⟨s, hs, he⟩ := List.mem_map.mp hmem
          have hsel := p.selected hs
          have hsame := h.same_row hsel.stored (mem_join.mp hr).1 he
          have henv : s.2 = r.2 := by
            have h1 := hsel.envelope
            rw [hsame, (mem_join.mp hr).2] at h1
            exact (Option.some.inj h1).symm
          have hsr : s = r := Prod.ext hsame henv
          rw [← hsr, hsel.admitted]
          simp
        · simp [hmem]
    _ = rows := filter_keys_sublist hsub (join_ids_nodup h)

/-- The answer of a first page is the page. -/
theorem PageRows.recorded (h : Inv db) (h' : Inv db')
    (p : PageRows db scope batch afterSeq pageLimit now row db' messages rows k) :
    recordedPage db' scope row pageLimit = .ok (messages, false) := by
  have hmsg : (rows.map (markRow row.messageIds batch now)).map (pageMessage none) = messages := by
    rw [p.messages_eq, List.map_map]
    apply List.map_congr_left
    intro r hr
    apply message_marked
    · rw [p.ids]
      exact List.mem_map_of_mem hr
    · exact (p.selected hr).unread
  have hbytes : pageBytes none (rows.map (markRow row.messageIds batch now)) =
      pageBytes (some (batch.id, now.text)) rows := by
    have hleft : pageBytes none (rows.map (markRow row.messageIds batch now)) =
        (messages.map Message.size).sum := by
      rw [← hmsg, List.map_map]
      rfl
    rw [hleft, p.messages_eq, List.map_map]
    rfl
  unfold recordedPage
  by_cases hempty : row.messageIds.isEmpty = true
  · rw [if_pos hempty]
    have hrows : rows = [] := by
      rw [List.isEmpty_iff, p.ids, List.map_eq_nil_iff] at hempty
      exact hempty
    rw [p.messages_eq, hrows]
    rfl
  · rw [if_neg hempty]
    have hre := p.reselect h h'
    rw [page_all]
    · rw [hre, hmsg]
    · rw [hre, List.length_map]
      exact p.count
    · rw [hre, hbytes]
      exact p.bytes

end Rows

end AgentsServer.Mailbox
