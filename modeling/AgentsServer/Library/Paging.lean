import Mathlib.Data.List.Basic
import Mathlib.Order.Basic
import Mathlib.Order.Lattice

/-!
# Reading a list page by page

Rows in increasing order of a number are read in pages. A page starts behind a
cursor, is cut anywhere, and says where it ends and whether rows are left. A
reader goes on behind the last row it saw until a page says that nothing is left.
-/

namespace AgentsServer.Library.Paging

variable {α π ε : Type*} (key : α → Nat)

/-- The rows behind a cursor. -/
def beyond (rows : List α) (after : Nat) : List α :=
  rows.filter fun a => decide (after < key a)

@[simp] theorem mem_beyond {rows : List α} {after : Nat} {a : α} :
    a ∈ beyond key rows after ↔ a ∈ rows ∧ after < key a := by
  simp [beyond]

theorem beyond_beyond {rows : List α} {first after : Nat} (h : first ≤ after) :
    beyond key (beyond key rows first) after = beyond key rows after := by
  unfold beyond
  rw [List.filter_filter]
  apply List.filter_congr
  intro a _
  by_cases ha : after < key a
  · simp [ha, Nat.lt_of_le_of_lt h ha]
  · simp [ha]

/-- Behind one of the rows are the rows that follow it. -/
theorem beyond_of_split {pre post : List α} {a : α}
    (sorted : (pre ++ a :: post).Pairwise fun a b => key a < key b) :
    beyond key (pre ++ a :: post) (key a) = post := by
  rw [List.pairwise_append, List.pairwise_cons] at sorted
  obtain ⟨_, ⟨hpost, _⟩, hpre⟩ := sorted
  unfold beyond
  rw [List.filter_append, List.filter_cons]
  have hnone : pre.filter (fun b => decide (key a < key b)) = [] := by
    refine List.filter_eq_nil_iff.mpr ?_
    intro b hb
    have hlt := hpre b hb a List.mem_cons_self
    simp only [decide_eq_true_eq]
    omega
  have hall : post.filter (fun b => decide (key a < key b)) = post := by
    refine List.filter_eq_self.mpr ?_
    intro b hb
    exact decide_eq_true (hpost b hb)
  simp [hnone, hall]

/-- What is not among the first of a sorted list has as many as there may be before it. -/
theorem take_of_sorted {le : α → α → Prop} {rows : List α} (sorted : rows.Pairwise le) {a : α}
    (h : a ∈ rows) (limit : Nat) :
    a ∈ rows.take limit ∨
      ((rows.take limit).length = limit ∧ ∀ b ∈ rows.take limit, le b a) := by
  rw [← List.take_append_drop limit rows] at sorted h
  rcases List.mem_append.mp h with hfirst | hrest
  · exact .inl hfirst
  · refine .inr ⟨?_, ?_⟩
    · have hdrop := List.length_pos_of_mem hrest
      rw [List.length_drop] at hdrop
      rw [List.length_take]
      omega
    · intro b hb
      exact (List.pairwise_append.mp sorted).2.2 b hb a hrest

/-- A page of the rows behind a cursor: a prefix of them, not empty while rows are
left, that ends at its last row. -/
structure IsPage (rows : List α) (after : Nat) (items : List α) (next : Nat) (more : Bool) :
    Prop where
  covers : ∃ rest, beyond key rows after = items ++ rest ∧ (more = false → rest = [])
  moves : more = true → items ≠ []
  ends : next = (items.getLast?.map key).getD after

variable {key}

/-- What is left behind the last row of a page. -/
theorem IsPage.rest {rows items : List α} {after next : Nat} {more : Bool}
    (sorted : rows.Pairwise fun a b => key a < key b)
    (page : IsPage key rows after items next more) :
    beyond key rows after = items ++ beyond key rows next ∧ after ≤ next := by
  obtain ⟨rest, hrest, _⟩ := page.covers
  cases hlast : items.getLast? with
  | none =>
      have hnext := page.ends
      rw [hlast] at hnext
      have hitems := List.getLast?_eq_none_iff.mp hlast
      change next = after at hnext
      rw [hnext, hitems]
      exact ⟨rfl, Nat.le_refl _⟩
  | some a =>
      have hnext := page.ends
      rw [hlast] at hnext
      change next = key a at hnext
      obtain ⟨pre, rfl⟩ := List.getLast?_eq_some_iff.mp hlast
      have hmem : a ∈ beyond key rows after := by
        rw [hrest]
        simp
      have hlt : after < key a := ((mem_beyond key).mp hmem).2
      have hsub : (beyond key rows after).Pairwise fun a b => key a < key b :=
        sorted.sublist List.filter_sublist
      rw [hrest, List.append_assoc, List.singleton_append] at hsub
      have hbehind := beyond_of_split key hsub
      rw [← List.singleton_append, ← List.append_assoc, ← hrest,
        beyond_beyond key (Nat.le_of_lt hlt)] at hbehind
      rw [hnext]
      exact ⟨by rw [hbehind, hrest], Nat.le_of_lt hlt⟩

/-- A page depends only on the rows behind its cursor. -/
theorem IsPage.of_beyond {rows rows' items : List α} {after next : Nat} {more : Bool}
    (page : IsPage key rows after items next more)
    (same : beyond key rows' after = beyond key rows after) :
    IsPage key rows' after items next more where
  covers := by
    rw [same]
    exact page.covers
  moves := page.moves
  ends := page.ends

/-- A page ends at one of the rows, or where it started. -/
theorem IsPage.cursor {rows items : List α} {after next : Nat} {more : Bool}
    (page : IsPage key rows after items next more) :
    next = after ∨ ∃ a ∈ rows, next = key a := by
  have hnext := page.ends
  cases hlast : items.getLast? with
  | none =>
      rw [hlast] at hnext
      exact Or.inl hnext
  | some a =>
      rw [hlast] at hnext
      obtain ⟨rest, hrest, _⟩ := page.covers
      have hmem : a ∈ beyond key rows after := by
        rw [hrest]
        exact List.mem_append_left _ (List.mem_of_getLast? hlast)
      exact Or.inr ⟨a, ((mem_beyond key).mp hmem).1, hnext⟩

/-! ## Reading to the end -/

variable (items : π → List α) (next : π → Nat) (more : π → Bool) (read : Nat → Nat → Except ε π)

/-- Read pages until one says that nothing is left, or fails. The bound is on the
number of reads; no result means that it was too small. -/
def readAll : (reads page after : Nat) → Option (Except ε (List π))
  | 0, _, _ => none
  | reads + 1, i, after =>
      match read i after with
      | .error e => some (.error e)
      | .ok page =>
          if more page then
            (readAll reads (i + 1) (next page)).map fun rest => rest.map (page :: ·)
          else some (.ok [page])

variable {items next more read}

/-- Every page of a reading was read behind some cursor. -/
theorem mem_readAll {reads i after : Nat} {all : List π}
    (h : readAll next more read reads i after = some (.ok all)) {page : π} (hp : page ∈ all) :
    ∃ j cursor, read j cursor = .ok page := by
  induction reads generalizing i after all with
  | zero => cases h
  | succ reads ih =>
      unfold readAll at h
      cases hread : read i after with
      | error e =>
          rw [hread] at h
          cases h
      | ok first =>
          rw [hread] at h
          dsimp only at h
          split at h
          · obtain ⟨result, hresult, heq⟩ := Option.map_eq_some_iff.mp h
            cases result with
            | error e => cases heq
            | ok rest =>
                cases heq
                cases List.mem_cons.mp hp with
                | inl hfirst => exact ⟨i, after, hfirst ▸ hread⟩
                | inr hrest => exact ih hresult hrest
          · cases h
            rw [List.mem_singleton.mp hp]
            exact ⟨i, after, hread⟩

/-- A reader comes to an end after at most one read for each row and one more, and
has then read every row once in order, or was refused a page. -/
theorem readAll_complete {rows : List α} (sorted : rows.Pairwise fun a b => key a < key b)
    {first : Nat} (pages : ∀ i after page, first ≤ after → read i after = .ok page →
      IsPage key rows after (items page) (next page) (more page))
    {reads : Nat} (i : Nat) {after : Nat} (start : first ≤ after)
    (enough : (beyond key rows after).length < reads) :
    ∃ result, readAll next more read reads i after = some result ∧
      (∀ all, result = .ok all → all.flatMap items = beyond key rows after) ∧
      ∀ e, result = .error e → ∃ j cursor,
        (cursor = after ∨ ∃ a ∈ rows, cursor = key a) ∧ read j cursor = .error e := by
  induction reads generalizing i after start with
  | zero => omega
  | succ reads ih =>
      unfold readAll
      cases hread : read i after with
      | error e =>
          refine ⟨.error e, rfl, ?_, ?_⟩
          · intro all hall
            cases hall
          · intro e' he
            cases he
            exact ⟨i, after, Or.inl rfl, hread⟩
      | ok page =>
          have hpage := pages i after page start hread
          obtain ⟨hsplit, hnext⟩ := hpage.rest sorted
          cases hmore : more page with
          | false =>
              refine ⟨.ok [page], by simp only [hmore]; rfl, ?_, ?_⟩
              · intro all hall
                cases hall
                obtain ⟨rest, hrest, hnone⟩ := hpage.covers
                rw [hrest, hnone hmore]
                simp
              · intro e he
                cases he
          | true =>
              have hpos : 0 < (items page).length :=
                List.length_pos_iff.mpr (hpage.moves hmore)
              have hless : (beyond key rows (next page)).length < reads := by
                have hlength := congrArg List.length hsplit
                rw [List.length_append] at hlength
                omega
              obtain ⟨result, hresult, hok, herror⟩ := ih (i + 1) (Nat.le_trans start hnext) hless
              refine ⟨result.map (page :: ·), ?_, ?_, ?_⟩
              · simp only [hmore, if_true, hresult, Option.map_some]
              · intro all hall
                cases result with
                | error e => cases hall
                | ok rest =>
                    cases hall
                    rw [List.flatMap_cons, hok rest rfl, hsplit]
              · intro e he
                cases result with
                | error e' =>
                    cases he
                    obtain ⟨j, cursor, hcursor, hrefused⟩ := herror e rfl
                    refine ⟨j, cursor, ?_, hrefused⟩
                    rcases hcursor with rfl | hrow
                    · exact hpage.cursor
                    · exact Or.inr hrow
                | ok rest => cases he

end AgentsServer.Library.Paging

/-! ## Reading rows behind a place

Rows have places in a linear order and are read from the greatest place down. A page has the
first of the rows that are behind the place where the page before it ended. Rows may come and go
between the pages; a reader passes every place once. -/

namespace AgentsServer.Library.Keyset

variable {α κ : Type*} [LinearOrder κ] (key : α → κ)

/-- A place lies behind another one, or anywhere. -/
def Behind (start : Option κ) (k : κ) : Prop := ∀ p ∈ start, k < p

instance (start : Option κ) (k : κ) : Decidable (Behind start k) :=
  inferInstanceAs (Decidable (∀ p ∈ start, k < p))

theorem Behind.of_le {start : Option κ} {k p : κ} (h : Behind start p) (hle : k ≤ p) :
    Behind start k :=
  fun q hq => lt_of_le_of_lt hle (h q hq)

/-! ## One page -/

/-- The rows behind a place, the greatest first. -/
def ordered (start : Option κ) (rows : List α) : List α :=
  (rows.filter fun a => decide (Behind start (key a))).mergeSort fun a b => decide (key b ≤ key a)

variable {key} {start : Option κ} {rows : List α} {a b : α} {limit : Nat}

theorem mem_ordered : a ∈ ordered key start rows ↔ a ∈ rows ∧ Behind start (key a) := by
  rw [ordered, List.mem_mergeSort, List.mem_filter, decide_eq_true_iff]

theorem ordered_pairwise (unique : (rows.map key).Nodup) :
    (ordered key start rows).Pairwise fun a b => key b < key a := by
  have hsorted : (ordered key start rows).Pairwise fun a b => decide (key b ≤ key a) = true := by
    apply List.pairwise_mergeSort
    · intro a b c hab hbc
      rw [decide_eq_true_iff] at hab hbc ⊢
      exact le_trans hbc hab
    · intro a b
      rw [Bool.or_eq_true, decide_eq_true_iff, decide_eq_true_iff]
      exact le_total _ _
  have hperm : (ordered key start rows).Perm (rows.filter fun a => decide (Behind start (key a))) :=
    List.mergeSort_perm _ _
  have hdistinct : ((ordered key start rows).map key).Nodup :=
    (hperm.map key).nodup_iff.mpr (unique.sublist (List.filter_sublist.map key))
  rw [List.Nodup, List.pairwise_map] at hdistinct
  refine (hsorted.and hdistinct).imp ?_
  rintro a b ⟨hle, hne⟩
  exact lt_of_le_of_ne (of_decide_eq_true hle) hne.symm

/-- A row that a page with more rows behind it leaves out is behind all of the page. -/
theorem mem_take (unique : (rows.map key).Nodup) (hmem : a ∈ rows) (hstart : Behind start (key a))
    (hend : (ordered key start rows).length ≤ limit ∨
      ∃ last ∈ (ordered key start rows).take limit, key last ≤ key a) :
    a ∈ (ordered key start rows).take limit := by
  have hrow : a ∈ ordered key start rows := mem_ordered.mpr ⟨hmem, hstart⟩
  rcases hend with hall | ⟨last, hlast, hle⟩
  · rw [List.take_of_length_le hall]
    exact hrow
  · rcases Paging.take_of_sorted (ordered_pairwise unique) hrow limit with htaken | ⟨-, hbefore⟩
    · exact htaken
    · exact absurd (hbefore last hlast) (not_lt_of_ge hle)

/-! ## A reader -/

/-- One page that was read: where it starts, its rows, and where the next one starts. -/
structure Read (α κ : Type*) where
  start : Option κ
  items : List α
  next : Option κ

/-- A place that the reader passes with this page. -/
def Read.Covers (r : Read α κ) (k : κ) : Prop := Behind r.start k ∧ ∀ p ∈ r.next, p ≤ k

variable (key)

/-- What each page owes: its rows are behind its start in decreasing order, and a next page
starts at the last of them. -/
structure Read.Sound (r : Read α κ) : Prop where
  behind : ∀ a ∈ r.items, Behind r.start (key a)
  decreasing : r.items.Pairwise fun a b => key b < key a
  ends : ∀ p ∈ r.next, r.items.getLast?.map key = some p

/-- Each page starts where the one before it ended, and only the last may have no next. -/
def Follows : Option κ → List (Read α κ) → Prop
  | _, [] => True
  | start, r :: rest => r.start = start ∧ r.Sound key ∧ match r.next with
    | none => rest = []
    | some p => Follows (some p) rest

variable {key} {r : Read α κ} {reads rest : List (Read α κ)}

/-- The rows of a page are not behind its end. -/
theorem Read.Sound.above (h : r.Sound key) {p : κ} (hp : p ∈ r.next) (ha : a ∈ r.items) :
    p ≤ key a := by
  obtain ⟨last, hlast, rfl⟩ := Option.map_eq_some_iff.mp (h.ends p hp)
  obtain ⟨pre, hpre⟩ := List.getLast?_eq_some_iff.mp hlast
  have hdecreasing := h.decreasing
  rw [hpre] at hdecreasing ha
  rcases List.mem_append.mp ha with hbefore | hself
  · exact le_of_lt ((List.pairwise_append.mp hdecreasing).2.2 a hbefore last List.mem_cons_self)
  · rw [List.mem_singleton.mp hself]

theorem Read.Sound.next_behind (h : r.Sound key) {p : κ} (hp : p ∈ r.next) :
    Behind r.start p ∧ r.items ≠ [] := by
  obtain ⟨last, hlast, rfl⟩ := Option.map_eq_some_iff.mp (h.ends p hp)
  refine ⟨h.behind last (List.mem_of_getLast? hlast), ?_⟩
  intro hnil
  rw [hnil] at hlast
  cases hlast

theorem Follows.behind (h : Follows key start reads) :
    ∀ a ∈ reads.flatMap Read.items, Behind start (key a) := by
  induction reads generalizing start with
  | nil => simp
  | cons r rest ih =>
      obtain ⟨rfl, hsound, hrest⟩ := h
      intro a ha
      rw [List.flatMap_cons, List.mem_append] at ha
      rcases ha with hfirst | hlater
      · exact hsound.behind a hfirst
      · cases hnext : r.next with
        | none =>
            rw [hnext] at hrest
            simp [hrest] at hlater
        | some p =>
            rw [hnext] at hrest
            have hbehind := ih hrest a hlater p rfl
            exact (hsound.next_behind hnext).1.of_le hbehind.le

/-- No place is read twice. -/
theorem Follows.decreasing (h : Follows key start reads) :
    (reads.flatMap Read.items).Pairwise fun a b => key b < key a := by
  induction reads generalizing start with
  | nil => exact List.Pairwise.nil
  | cons r rest ih =>
      obtain ⟨rfl, hsound, hrest⟩ := h
      rw [List.flatMap_cons]
      cases hnext : r.next with
      | none =>
          rw [hnext] at hrest
          rw [hrest, List.flatMap_nil, List.append_nil]
          exact hsound.decreasing
      | some p =>
          rw [hnext] at hrest
          rw [List.pairwise_append]
          refine ⟨hsound.decreasing, ih hrest, ?_⟩
          intro a ha b hb
          exact lt_of_lt_of_le (Follows.behind hrest b hb p rfl) (hsound.above hnext ha)

/-- A reader that came to the end has passed every place. -/
theorem Follows.covers (h : Follows key start reads) (hend : ∃ r ∈ reads, r.next = none) {k : κ}
    (hk : Behind start k) : ∃ r ∈ reads, r.Covers k := by
  induction reads generalizing start with
  | nil =>
      obtain ⟨r, hr, -⟩ := hend
      cases hr
  | cons r rest ih =>
      obtain ⟨rfl, hsound, hrest⟩ := h
      cases hnext : r.next with
      | none =>
          refine ⟨r, List.mem_cons_self, hk, ?_⟩
          rw [hnext]
          simp
      | some p =>
          rw [hnext] at hrest
          by_cases hle : p ≤ k
          · refine ⟨r, List.mem_cons_self, hk, ?_⟩
            intro q hq
            rw [hnext] at hq
            rwa [← Option.some.inj hq]
          · obtain ⟨last, hlast, hnone⟩ := hend
            have hlater : last ∈ rest := by
              rcases List.mem_cons.mp hlast with rfl | hlater
              · rw [hnext] at hnone
                cases hnone
              · exact hlater
            have hbehind : Behind (some p) k := by
              intro q hq
              rw [← Option.some.inj hq]
              exact not_le.mp hle
            obtain ⟨r', hr', hcovers⟩ := ih hrest ⟨last, hlater, hnone⟩ hbehind
            exact ⟨r', List.mem_cons_of_mem _ hr', hcovers⟩

/-- Every page that has a next one has a row. -/
theorem Follows.length_le (h : Follows key start reads) (hmore : ∀ r ∈ reads, r.next ≠ none) :
    reads.length ≤ (reads.flatMap Read.items).length := by
  induction reads generalizing start with
  | nil => exact Nat.le_refl _
  | cons r rest ih =>
      obtain ⟨rfl, hsound, hrest⟩ := h
      rw [List.forall_mem_cons] at hmore
      rw [List.flatMap_cons, List.length_append, List.length_cons]
      cases hnext : r.next with
      | none => exact absurd hnext hmore.1
      | some p =>
          rw [hnext] at hrest
          have hpos := List.length_pos_iff.mpr (hsound.next_behind hnext).2
          have hlength := ih hrest hmore.2
          omega

/-! ## A page of the first rows -/

/-- The first rows behind a place, and where the next page starts if there are more. -/
def Read.first (key : α → κ) (start : Option κ) (rows : List α) (limit : Nat) : Read α κ where
  start := start
  items := (ordered key start rows).take limit
  next := if limit < (ordered key start rows).length
    then ((ordered key start rows).take limit).getLast?.map key else none

theorem Read.sound_first (unique : (rows.map key).Nodup) :
    (Read.first key start rows limit).Sound key where
  behind a ha := (mem_ordered.mp (List.mem_of_mem_take ha)).2
  decreasing := (ordered_pairwise unique).sublist (List.take_sublist _ _)
  ends := by
    intro p hp
    unfold Read.first at hp
    dsimp only at hp
    split at hp
    · exact hp
    · cases hp

/-- A row that the reader passes with a page is on it. -/
theorem Read.covers_first (unique : (rows.map key).Nodup) (hlimit : 1 ≤ limit) (ha : a ∈ rows)
    (hcovers : (Read.first key start rows limit).Covers (key a)) :
    a ∈ (Read.first key start rows limit).items := by
  obtain ⟨hbehind, hend⟩ := hcovers
  apply mem_take unique ha hbehind
  by_cases hmore : limit < (ordered key start rows).length
  · right
    have hne : (ordered key start rows).take limit ≠ [] := by
      rw [ne_eq, List.take_eq_nil_iff]
      rintro (hzero | hnil)
      · omega
      · rw [hnil] at hmore
        exact absurd hmore (Nat.not_lt_zero _)
    obtain ⟨last, hlast⟩ := Option.isSome_iff_exists.mp (List.getLast?_isSome.mpr hne)
    refine ⟨last, List.mem_of_getLast? hlast, hend (key last) ?_⟩
    unfold Read.first
    dsimp only
    rw [if_pos hmore, hlast]
    rfl
  · exact .inl (Nat.not_lt.mp hmore)

end AgentsServer.Library.Keyset
