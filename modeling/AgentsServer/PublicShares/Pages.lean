import AgentsServer.PublicShares.Store

/-!
# Pages that fit

A page that fits passes the checks of a snapshot when it is written and again when it is
read, and its messages come back as they were.
-/

namespace AgentsServer.PublicShares

open Library

/-! ## Sizes -/

/-- The bytes of the messages of a page with the commas between them. -/
def pageSize (messages : List Message) : Nat :=
  (messages.map Message.size).sum + (messages.length - 1)

theorem pageSize_append (messages : List Message) (m : Message) :
    pageSize (messages ++ [m]) = pageSize messages + m.size + if messages.isEmpty then 0 else 1 := by
  unfold pageSize
  cases messages with
  | nil => simp
  | cons first rest =>
      simp only [List.map_append, List.map_cons, List.sum_append, List.sum_cons, List.map_nil,
        List.sum_nil, List.length_append, List.length_cons, List.length_nil, List.isEmpty_cons,
        Bool.false_eq_true, if_false]
      omega

theorem length_dumps (value : Json) : (Json.dumps value).length = Json.size Json.escape value :=
  Json.length_utf8 _

theorem size_items (messages : List Message) :
    Json.size Json.escape (.arr (messages.map Message.json)) = 2 + pageSize messages := by
  cases messages with
  | nil => rfl
  | cons first rest =>
      rw [Json.size_arr, if_neg (by simp), pageSize]
      have hsum : ∀ ms : List Message, (ms.map fun m => 1 + Json.size Json.escape m.json).sum =
          ms.length + (ms.map Message.size).sum := by
        intro ms
        induction ms with
        | nil => rfl
        | cons m ms ih =>
            rw [List.map_cons, List.sum_cons, ih, List.map_cons, List.sum_cons, List.length_cons,
              Message.size, length_dumps]
            omega
      have hall := hsum (first :: rest)
      rw [List.map_map]
      change 1 + ((first :: rest).map fun m => 1 + Json.size Json.escape m.json).sum = _
      rw [hall, List.length_cons]
      omega

/-- The incremental count is the size of the encoding. -/
theorem length_snapshot (s : Snapshot) :
    (Json.dumps s.json).length = overhead s.title s.createdAt + pageSize s.messages := by
  have hsize : ∀ messages : List Message,
      (Json.dumps (Snapshot.json ⟨s.title, s.createdAt, messages⟩)).length =
        Json.size Json.escape (.arr (messages.map Message.json)) +
          (1 + Json.fieldSize Json.escape ("title", .str s.title) +
            Json.fieldSize Json.escape ("created_at", .num s.createdAt) + 2 +
            Json.utf8Size (Json.quote Json.escape "messages")) := by
    intro messages
    rw [length_dumps, Snapshot.json, Json.size_obj, if_neg (by simp)]
    simp only [List.map_cons, List.map_nil, List.sum_cons, List.sum_nil]
    rw [Json.fieldSize.eq_def Json.escape ("messages", _)]
    dsimp only
    omega
  have hempty := size_items []
  rw [overhead, hsize [], hempty]
  change (Json.dumps (Snapshot.json ⟨s.title, s.createdAt, s.messages⟩)).length = _
  rw [hsize s.messages, size_items, pageSize, pageSize]
  simp only [List.map_nil, List.sum_nil, List.length_nil]
  omega

theorem utf8Size_le_escape (c : Char) : c.utf8Size ≤ Json.utf8Size (Json.escape c) := by
  unfold Json.escape
  split
  · next h => subst h; decide
  split
  · next h => subst h; decide
  split
  · next h => subst h; decide
  split
  · next h => subst h; decide
  split
  · next h => subst h; decide
  split
  · next h => subst h; decide
  split
  · next h => subst h; decide
  split
  · next h =>
      have hle : c.val ≤ 127 := by
        rw [UInt32.le_iff_toNat_le]
        exact Nat.le_of_lt (Nat.lt_of_lt_of_le h (by decide))
      have hone : c.utf8Size = 1 := by
        rw [Char.utf8Size]
        exact if_pos hle
      rw [hone, Json.unitEscape, Json.utf8Size_cons]
      exact Nat.le_add_right_of_le (by decide)
  · simp

/-- A text is not longer than it is in quotes. -/
theorem length_le_quote (text : String) :
    (utf8 text.toList).length ≤ Json.utf8Size (Json.quote Json.escape text) := by
  rw [Json.length_utf8, Json.quote, Json.utf8Size_cons, Json.utf8Size_append]
  have hall : ∀ cs : List Char,
      Json.utf8Size cs ≤ Json.utf8Size (cs.flatMap Json.escape) := by
    intro cs
    induction cs with
    | nil => exact Nat.le_refl _
    | cons c cs ih =>
        rw [List.flatMap_cons, Json.utf8Size_cons, Json.utf8Size_append]
        exact Nat.add_le_add (utf8Size_le_escape c) ih
  have htext := hall text.toList
  omega

theorem text_le_size (m : Message) : (utf8 m.text.toList).length ≤ m.size := by
  have hquote := length_le_quote m.text
  have hfields : m.fields = ("role", .str m.role) :: ("text", .str m.text) ::
      ((if m.videos.isEmpty then [] else [("videos", .arr m.videos)]) ++
        (m.timestamp.map fun seconds => ("timestamp", Json.num seconds)).toList) := rfl
  rw [Message.size, length_dumps, Message.json, Json.size_obj, hfields,
    if_neg (List.cons_ne_nil _ _), List.map_cons, List.map_cons, List.sum_cons, List.sum_cons,
    Json.fieldSize.eq_def Json.escape ("text", _)]
  change _ ≤ 1 + (_ + (2 + _ + Json.utf8Size (Json.quote Json.escape m.text) + _))
  omega

theorem title_le_overhead (title : String) (createdAt : NumLit) :
    (utf8 title.toList).length ≤ overhead title createdAt := by
  have hquote := length_le_quote title
  rw [overhead, length_dumps, Snapshot.json, Json.size_obj, if_neg (by simp), List.map_cons,
    List.sum_cons, Json.fieldSize.eq_def Json.escape ("title", _)]
  change _ ≤ 1 + (2 + _ + Json.utf8Size (Json.quote Json.escape title) + _)
  omega

/-! ## Checked messages -/

/-- What the checks of a message leave. -/
structure Message.Checked [FloatText] (m : Message) : Prop where
  role : m.role = "user" ∨ m.role = "assistant"
  text : m.text.length ≤ maxMessageTextBytes ∧ (utf8 m.text.toList).length ≤ maxMessageTextBytes
  videos : m.videos.length ≤ 32 ∧ areVideos [] m.videos = true
  timestamp : ∀ seconds, m.timestamp = some seconds → isTimestamp seconds = true
  proper : m.json.Proper

namespace Message

variable (m : Message)

theorem lookup_role : Json.lookup m.fields "role" = some (.str m.role) := rfl

theorem lookup_text : Json.lookup m.fields "text" = some (.str m.text) := rfl

theorem lookup_videos :
    Json.lookup m.fields "videos" = if m.videos.isEmpty then none else some (.arr m.videos) := by
  obtain ⟨role, text, videos, timestamp⟩ := m
  cases videos <;> cases timestamp <;> rfl

theorem lookup_timestamp : Json.lookup m.fields "timestamp" = m.timestamp.map .num := by
  obtain ⟨role, text, videos, timestamp⟩ := m
  cases videos <;> cases timestamp <;> rfl

theorem fields_known : ∀ field ∈ m.fields,
    field.1 ∈ ["role", "text", "timestamp", "videos"] := by
  obtain ⟨role, text, videos, timestamp⟩ := m
  cases videos <;> cases timestamp <;> simp [fields]

variable {m}

theorem Checked.messageVideos [FloatText] (h : m.Checked) : messageVideos m.fields = .ok m.videos := by
  unfold PublicShares.messageVideos
  rw [lookup_videos]
  cases hvideos : m.videos with
  | nil => rfl
  | cons first rest =>
      have hall := h.videos
      rw [hvideos] at hall
      rw [List.isEmpty_cons, if_neg Bool.false_ne_true]
      change required (normalizeSharedChatVideos (.arr (first :: rest))) _ = _
      rw [required_eq_ok, normalizeSharedChatVideos]
      change (if _ then some (first :: rest) else none) = _
      rw [if_pos hall]

theorem Checked.messageTimestamp [FloatText] (h : m.Checked) :
    messageTimestamp m.fields = .ok m.timestamp := by
  unfold PublicShares.messageTimestamp
  rw [lookup_timestamp]
  cases htime : m.timestamp with
  | none => rfl
  | some seconds =>
      change (PublicShares.timestamp (.num seconds) _).map some = _
      rw [map_eq_ok]
      refine ⟨seconds, ?_, rfl⟩
      simp [PublicShares.timestamp, h.timestamp seconds htime, pure, Except.pure, bind, Except.bind,
        require]

end Message

theorem utf8Size_eq_ok {value label : String} {limit n : Nat} :
    utf8Size value label limit = .ok n ↔
      value.length ≤ limit ∧ (utf8 value.toList).length ≤ limit ∧ (utf8 value.toList).length = n := by
  unfold utf8Size
  simp only [bind_eq_ok, require_eq_ok, pure_eq_ok]
  constructor
  · rintro ⟨_, hlength, _, hbytes, rfl⟩
    exact ⟨hlength, hbytes, rfl⟩
  · rintro ⟨hlength, hbytes, rfl⟩
    exact ⟨(), hlength, (), hbytes, rfl⟩

/-- The tally after a message. -/
def Tally.with (t : Tally) (m : Message) : Tally :=
  ⟨t.totalBytes + (utf8 m.text.toList).length,
    t.serializedBytes + m.size + if t.projected.isEmpty then 0 else 1, t.projected ++ [m]⟩

section Checks

variable [FloatText] {t t' : Tally} {m : Message}

theorem Tally.add_checked (h : m.Checked) (htotal : (t.with m).totalBytes ≤ maxSnapshotBytes)
    (hserialized : (t.with m).serializedBytes ≤ maxSnapshotBytes) :
    t.add m.json = .ok (t.with m) := by
  have htext : utf8Size m.text "message text" maxMessageTextBytes =
      .ok (utf8 m.text.toList).length := utf8Size_eq_ok.mpr ⟨h.text.1, h.text.2, rfl⟩
  unfold Tally.add
  simp only [bind_eq_ok, require_eq_ok, required_eq_ok, pure_eq_ok]
  refine ⟨m.fields, rfl, (), m.fields_known, m.role, ?_, m.text, ?_, (), h.role, _, htext, (),
    htotal, m.videos, h.messageVideos, m.timestamp, h.messageTimestamp, (), hserialized, rfl⟩
  · rw [m.lookup_role]
    rfl
  · rw [m.lookup_text]
    rfl

theorem lookup_proper {fields : List (String × Json)} {key : String} {value : Json}
    (h : (Json.obj fields).Proper) (hkey : Json.lookup fields key = some value) : value.Proper := by
  cases h with
  | obj keys each => exact each (key, value) (Tables.mem_of_lookup hkey)

theorem messageVideos_eq {fields : List (String × Json)} {videos : List Json}
    (h : (Json.obj fields).Proper) (hv : messageVideos fields = .ok videos) :
    (videos.length ≤ 32 ∧ areVideos [] videos = true) ∧ (Json.arr videos).Proper := by
  unfold messageVideos at hv
  split at hv
  next =>
    cases hv
    exact ⟨⟨Nat.zero_le _, rfl⟩, .arr (by simp)⟩
  next value hvalue =>
    rw [required_eq_ok, normalizeSharedChatVideos] at hv
    obtain ⟨items, hitems, hv⟩ := Option.bind_eq_some_iff.mp hv
    split at hv
    next hall =>
      cases hv
      cases value with
      | arr items =>
          cases hitems
          exact ⟨hall, lookup_proper h hvalue⟩
      | _ => cases hitems
    next => cases hv

theorem messageTimestamp_eq {fields : List (String × Json)} {seconds : Option NumLit}
    (h : (Json.obj fields).Proper) (ht : messageTimestamp fields = .ok seconds) :
    ∀ literal, seconds = some literal →
      isTimestamp literal = true ∧ (Json.num literal).Proper := by
  unfold messageTimestamp at ht
  split at ht
  next => cases ht; rintro _ ⟨⟩
  next value hvalue =>
    obtain ⟨literal, hliteral, rfl⟩ := map_eq_ok.mp ht
    unfold timestamp at hliteral
    split at hliteral
    next given =>
      simp only [bind_eq_ok, require_eq_ok, pure_eq_ok] at hliteral
      obtain ⟨_, hrange, rfl⟩ := hliteral
      rintro _ ⟨⟩
      exact ⟨hrange, lookup_proper h hvalue⟩
    next => cases hliteral

/-- What the loop accepts is a checked message, and the counts stay within the limit. -/
theorem Tally.add_eq {v : Json} (hv : v.Proper) (h : t.add v = .ok t') :
    ∃ m : Message, m.Checked ∧ t' = t.with m ∧ t'.totalBytes ≤ maxSnapshotBytes ∧
      t'.serializedBytes ≤ maxSnapshotBytes := by
  unfold Tally.add at h
  simp only [bind_eq_ok, require_eq_ok, required_eq_ok, pure_eq_ok] at h
  obtain ⟨fields, hfields, _, -, role, -, text, -, _, hrole, n, htext, _, htotal, videos, hvideos,
    seconds, hseconds, _, hserialized, rfl⟩ := h
  cases v with
  | obj given =>
      cases hfields
      obtain ⟨hlength, hbytes, rfl⟩ := utf8Size_eq_ok.mp htext
      obtain ⟨hall, hproper⟩ := messageVideos_eq hv hvideos
      have htime := messageTimestamp_eq hv hseconds
      refine ⟨⟨role, text, videos, seconds⟩,
        ⟨hrole, ⟨hlength, hbytes⟩, hall, fun s hs => (htime s hs).1, ?_⟩, rfl, htotal, hserialized⟩
      -- the parts of the new dictionary are parts of the given one
      refine .obj ?_ ?_
      · cases videos <;> cases seconds <;> simp [Message.fields]
      · intro field hfield
        simp only [Message.fields, List.mem_append, List.mem_cons, List.not_mem_nil, or_false]
          at hfield
        rcases hfield with ((rfl | rfl) | hfield) | hfield
        · exact .str role
        · exact .str text
        · split at hfield
          next => cases hfield
          next =>
            rw [List.mem_singleton.mp hfield]
            exact hproper
        · cases seconds with
          | none => cases hfield
          | some literal =>
              rw [List.mem_singleton.mp hfield]
              exact (htime literal rfl).2
  | _ => cases hfields

end Checks

/-! ## Pages -/

theorem timestamp_eq_ok {literal : NumLit} (h : isTimestamp literal = true) (label : String) :
    timestamp (.num literal) label = .ok literal := by
  simp only [timestamp, require, if_pos h]
  rfl

theorem checkTitle_str {title checked : String} :
    checkTitle (.str title) = .ok checked ↔
      (isBlank title = false ∧ title.length ≤ maxTitleCharacters) ∧ title = checked := by
  change (require _ _ >>= fun _ => pure title) = .ok checked ↔ _
  rw [bind_eq_ok]
  constructor
  · rintro ⟨_, hvalid, hsame⟩
    exact ⟨(require_eq_ok _ _ _).mp hvalid, (pure_eq_ok _ _).mp hsame⟩
  · rintro ⟨hvalid, rfl⟩
    exact ⟨(), (require_eq_ok _ _ _).mpr hvalid, rfl⟩

/-- A checked title is checked again with the same result. -/
theorem checkTitle_checked {title : Json} {checked : String}
    (h : checkTitle title = .ok checked) : checkTitle (.str checked) = .ok checked := by
  cases title with
  | null =>
      have hdefault : checkTitle (.str defaultTitle) = .ok checked := h
      obtain ⟨hvalid, rfl⟩ := checkTitle_str.mp hdefault
      exact hdefault
  | str title =>
      obtain ⟨hvalid, rfl⟩ := checkTitle_str.mp h
      exact h
  | _ => cases h

namespace Capture

variable [FloatText] (c : Capture)

/-- The metadata of a capture that passed its checks. -/
structure Valid : Prop where
  title : checkTitle (.str c.title) = .ok c.title
  titleBytes : utf8Size c.title "title" (maxTitleCharacters * 4) =
    .ok (utf8 c.title.toList).length
  created : isTimestamp c.createdAt = true
  proper : (Json.num c.createdAt).Proper

/-- The snapshot of one page. -/
def pageOf (messages : List Message) : Snapshot := ⟨c.title, c.createdAt, messages⟩

/-- A page within the limits. -/
structure Fits (messages : List Message) : Prop where
  nonempty : messages ≠ []
  few : messages.length ≤ maxSnapshotPageMessages
  checked : ∀ m ∈ messages, m.Checked
  size : overhead c.title c.createdAt + pageSize messages ≤ maxSnapshotBytes

/-- A page within the limit of its bytes. -/
structure Sized (messages : List Message) : Prop where
  nonempty : messages ≠ []
  checked : ∀ m ∈ messages, m.Checked
  size : overhead c.title c.createdAt + pageSize messages ≤ maxSnapshotBytes

variable {c} {messages : List Message}

theorem Fits.sized (h : c.Fits messages) : c.Sized messages :=
  ⟨h.nonempty, h.checked, h.size⟩

theorem foldlM_checked {t : Tally} {base : Nat} (checked : ∀ m ∈ messages, m.Checked)
    (counts : t.serializedBytes = base + pageSize t.projected)
    (texts : t.totalBytes ≤ t.serializedBytes)
    (room : base + pageSize (t.projected ++ messages) ≤ maxSnapshotBytes) :
    ∃ t', (messages.map Message.json).foldlM Tally.add t = .ok t' ∧
      t'.projected = t.projected ++ messages := by
  induction messages generalizing t with
  | nil => exact ⟨t, rfl, (List.append_nil _).symm⟩
  | cons m rest ih =>
      have hcounts : (t.with m).serializedBytes = base + pageSize (t.with m).projected := by
        change t.serializedBytes + m.size + _ = base + pageSize (t.projected ++ [m])
        rw [pageSize_append, counts]
        omega
      have htexts : (t.with m).totalBytes ≤ (t.with m).serializedBytes := by
        change t.totalBytes + _ ≤ t.serializedBytes + m.size + _
        have htext := text_le_size m
        omega
      have hroom : base + pageSize ((t.with m).projected ++ rest) ≤ maxSnapshotBytes := by
        change base + pageSize (t.projected ++ [m] ++ rest) ≤ _
        rw [List.append_assoc]
        exact room
      have hle : (t.with m).serializedBytes ≤ maxSnapshotBytes := by
        rw [hcounts]
        refine le_trans ?_ hroom
        have hmono : pageSize (t.with m).projected ≤ pageSize ((t.with m).projected ++ rest) := by
          unfold pageSize
          rw [List.map_append, List.sum_append, List.length_append]
          omega
        omega
      have hadd := Tally.add_checked (checked m List.mem_cons_self) (htexts.trans hle) hle
      obtain ⟨t', hfold, hprojected⟩ :=
        ih (fun m' hm => checked m' (List.mem_cons_of_mem m hm)) hcounts htexts hroom
      refine ⟨t', ?_, ?_⟩
      · rw [List.map_cons, List.foldlM_cons, hadd]
        exact hfold
      · rw [hprojected]
        change t.projected ++ [m] ++ rest = _
        rw [List.append_assoc, List.singleton_append]

/-- The messages that passed are checked and counted. -/
theorem foldlM_eq {t t' : Tally} {items : List Json} {base : Nat}
    (proper : ∀ item ∈ items, item.Proper) (checked : ∀ m ∈ t.projected, m.Checked)
    (counts : t.serializedBytes = base + pageSize t.projected)
    (h : items.foldlM Tally.add t = .ok t') :
    (∀ m ∈ t'.projected, m.Checked) ∧ t'.serializedBytes = base + pageSize t'.projected ∧
      t'.projected.length = t.projected.length + items.length := by
  induction items generalizing t with
  | nil =>
      cases h
      exact ⟨checked, counts, rfl⟩
  | cons item rest ih =>
      rw [List.foldlM_cons, bind_eq_ok] at h
      obtain ⟨next, hadd, hrest⟩ := h
      obtain ⟨m, hm, rfl, -⟩ := Tally.add_eq (proper item List.mem_cons_self) hadd
      have hcounts : (t.with m).serializedBytes = base + pageSize (t.with m).projected := by
        change t.serializedBytes + m.size + _ = base + pageSize (t.projected ++ [m])
        rw [pageSize_append, counts]
        omega
      have hall : ∀ m' ∈ (t.with m).projected, m'.Checked := by
        intro m' hm'
        rcases List.mem_append.mp hm' with hm' | hm'
        · exact checked m' hm'
        · rw [List.mem_singleton.mp hm']
          exact hm
      obtain ⟨hchecked, hsize, hlength⟩ :=
        ih (fun i hi => proper i (List.mem_cons_of_mem item hi)) hall hcounts hrest
      refine ⟨hchecked, hsize, ?_⟩
      rw [hlength]
      change (t.projected ++ [m]).length + _ = _
      rw [List.length_append, List.length_singleton, List.length_cons]
      omega

/-- A page that fits passes, at the size that was counted. -/
theorem snapshot_sized (hv : c.Valid) (h : c.Sized messages) :
    snapshot (.arr (messages.map Message.json)) (.str c.title) (.num c.createdAt) =
      .ok (c.pageOf messages, Json.dumps (c.pageOf messages).json) := by
  obtain ⟨t', hfold, hprojected⟩ := foldlM_checked
    (t := ⟨(utf8 c.title.toList).length, overhead c.title c.createdAt, []⟩) h.checked rfl
    (title_le_overhead c.title c.createdAt) h.size
  rw [List.nil_append] at hprojected
  have hsame : (⟨c.title, c.createdAt, t'.projected⟩ : Snapshot) = c.pageOf messages := by
    rw [hprojected]
    rfl
  have hlength : (Json.dumps (c.pageOf messages).json).length ≤ maxSnapshotBytes := by
    rw [length_snapshot]
    exact h.size
  unfold snapshot
  simp only [bind_eq_ok, require_eq_ok, required_eq_ok, pure_eq_ok]
  refine ⟨c.title, hv.title, _, hv.titleBytes, c.createdAt, timestamp_eq_ok hv.created _, _, rfl,
    (), ?_, t', hfold, (), ?_, ?_⟩
  · simpa using h.nonempty
  · rw [hsame]
    exact hlength
  · rw [hsame]

theorem snapshot_fits (hv : c.Valid) (h : c.Fits messages) :
    snapshot (.arr (messages.map Message.json)) (.str c.title) (.num c.createdAt) =
      .ok (c.pageOf messages, Json.dumps (c.pageOf messages).json) :=
  snapshot_sized hv h.sized

/-- A message that is accepted alone is a page that fits. -/
theorem normalize_fits {v : Json} {m : Message} (hv : v.Proper) (h : c.normalize v = .ok m) :
    c.Fits [m] := by
  unfold normalize at h
  simp only [bind_eq_ok, required_eq_ok, Prod.exists] at h
  obtain ⟨captured, encoded, hsnapshot, hhead⟩ := h
  unfold snapshot at hsnapshot
  simp only [bind_eq_ok, require_eq_ok, required_eq_ok, pure_eq_ok, Prod.mk.injEq] at hsnapshot
  obtain ⟨title, htitle, titleBytes, -, createdAt, hcreated, items, hitems, _, -, t', hfold, _, -,
    rfl, -⟩ := hsnapshot
  cases hitems
  have hsameTitle : title = c.title := (checkTitle_str.mp htitle).2.symm
  have hsameTime : createdAt = c.createdAt := by
    simp only [timestamp, bind_eq_ok, require_eq_ok, pure_eq_ok] at hcreated
    obtain ⟨_, -, rfl⟩ := hcreated
    rfl
  rw [List.foldlM_cons, bind_eq_ok] at hfold
  obtain ⟨last, hadd, hlast⟩ := hfold
  cases hlast
  obtain ⟨m', hchecked, rfl, -, hserialized⟩ := Tally.add_eq hv hadd
  obtain rfl : m' = m := Option.some.inj hhead
  refine ⟨List.cons_ne_nil _ _, Nat.le_add_left 1 99, ?_, ?_⟩
  · intro m hm
    rw [List.mem_singleton.mp hm]
    exact hchecked
  · rw [hsameTitle, hsameTime] at hserialized
    change overhead c.title c.createdAt + m'.size + 0 ≤ _ at hserialized
    simpa [pageSize] using hserialized

theorem pageOf_proper (hv : c.Valid) (h : c.Sized messages) : (c.pageOf messages).json.Proper := by
  refine .obj (by simp) ?_
  intro field hfield
  simp only [List.mem_cons, List.not_mem_nil, or_false] at hfield
  rcases hfield with rfl | rfl | rfl
  · exact .str c.title
  · exact hv.proper
  · refine .arr ?_
    intro item hitem
    obtain ⟨m, hm, rfl⟩ := List.mem_map.mp hitem
    exact (h.checked m hm).proper

/-- What was written is what is read. -/
theorem readPage_sized [Sha256] (hv : c.Valid) (h : c.Sized messages) :
    Store.readPage (Json.dumps (c.pageOf messages).json)
      (Sha256.digest (Json.dumps (c.pageOf messages).json)) = .ok (c.pageOf messages) := by
  have hlength : (Json.dumps (c.pageOf messages).json).length ≤ maxSnapshotBytes := by
    rw [length_snapshot]
    exact h.size
  have hloads : (Json.loadsBytes (Json.dumps (c.pageOf messages).json)).bind Json.obj? =
      some [("title", .str c.title), ("created_at", .num c.createdAt),
        ("messages", .arr (messages.map Message.json))] := by
    rw [Json.loadsBytes_dumps (pageOf_proper hv h)]
    rfl
  unfold Store.readPage
  simp only [bind_eq_ok, require_eq_ok, required_eq_ok]
  refine ⟨(), ⟨hlength, trivial⟩, _, hloads, (), rfl, ?_⟩
  have hsnapshot := snapshot_sized hv h
  split
  next hread =>
    have hpair := hread.symm.trans hsnapshot
    cases hpair
    rfl
  next hread =>
    have hpair := hread.symm.trans hsnapshot
    cases hpair

theorem readPage_fits [Sha256] (hv : c.Valid) (h : c.Fits messages) :
    Store.readPage (Json.dumps (c.pageOf messages).json)
      (Sha256.digest (Json.dumps (c.pageOf messages).json)) = .ok (c.pageOf messages) :=
  readPage_sized hv h.sized

/-- What passes the checks of a snapshot is a page of its own metadata. -/
theorem snapshot_eq_ok {messages title createdAt : Json} {s : Snapshot} {encoded : Bytes}
    (hmessages : messages.Proper) (hcreated : createdAt.Proper) (shareId : String)
    (h : snapshot messages title createdAt = .ok (s, encoded)) :
    Valid ⟨shareId, s.title, s.createdAt⟩ ∧ Sized ⟨shareId, s.title, s.createdAt⟩ s.messages ∧
      encoded = Json.dumps s.json := by
  unfold snapshot at h
  simp only [bind_eq_ok, require_eq_ok, required_eq_ok, pure_eq_ok, Prod.mk.injEq] at h
  obtain ⟨checked, htitle, titleBytes, hbytes, seconds, htime, items, hitems, _, hne, t', hfold, _,
    hlength, rfl, rfl⟩ := h
  obtain ⟨-, -, rfl⟩ := utf8Size_eq_ok.mp hbytes
  cases createdAt with
  | num literal =>
      simp only [timestamp, bind_eq_ok, require_eq_ok, pure_eq_ok] at htime
      obtain ⟨_, hrange, rfl⟩ := htime
      cases messages with
      | arr given =>
          cases hitems
          cases hmessages with
          | arr each =>
              obtain ⟨hall, -, hcount⟩ := foldlM_eq (t := ⟨(utf8 checked.toList).length,
                overhead checked literal, []⟩) each (List.forall_mem_nil _) rfl hfold
              refine ⟨⟨checkTitle_checked htitle, hbytes, hrange, hcreated⟩, ⟨?_, hall, ?_⟩, rfl⟩
              · intro hnone
                change t'.projected = [] at hnone
                rw [hnone] at hcount
                have hpos := List.length_pos_iff.mpr hne
                simp at hcount
                omega
              · rw [length_snapshot] at hlength
                exact hlength
      | _ => cases hitems
  | _ => cases htime

/-- The checks before the loader make every page valid. -/
theorem begin_valid {shareId : String} {title : Json} {createdAt : NumLit}
    (hproper : (Json.num createdAt).Proper) (h : Capture.begin shareId title createdAt = .ok c) :
    c.Valid ∧ c.shareId = shareId ∧ c.createdAt = createdAt := by
  unfold Capture.begin snapshot at h
  simp only [bind_eq_ok, require_eq_ok, required_eq_ok, pure_eq_ok, Prod.exists,
    Prod.mk.injEq] at h
  obtain ⟨seed, _, ⟨checked, htitle, titleBytes, hbytes, time, htime, _, -, _, -, _, -, _, -, rfl, -⟩,
    rfl⟩ := h
  obtain ⟨hlength, hsize, rfl⟩ := utf8Size_eq_ok.mp hbytes
  simp only [timestamp, bind_eq_ok, require_eq_ok, pure_eq_ok] at htime
  obtain ⟨_, hrange, rfl⟩ := htime
  exact ⟨⟨checkTitle_checked htitle, hbytes, hrange, hproper⟩, rfl, rfl⟩

end Capture

end AgentsServer.PublicShares
