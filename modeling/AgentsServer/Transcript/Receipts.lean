import AgentsServer.Transcript.Preview

/-!
# Repeated receipts

The receipts that a reading leaves out, compared with the texts that a run said since its user
last spoke or its last receipt.
-/

namespace AgentsServer.Transcript

open Library

/-! ## The texts of a run -/

/-- A projected event with the type of its record. -/
abbrev Item := Event × String

abbrev Text := List Char

section Reference

variable [Conversions]

def Item.videos (item : Item) : List Video :=
  match eventVideos item.1 item.2 with
  | .ok videos => videos
  | .error _ => []

def Item.text? (item : Item) : Option String :=
  shownText item.1 item.2 item.videos

/-- `" ".join(text.split())`. -/
def normalized (text : String) : Text :=
  normalizeSpace text.toList

def joined (texts : List Text) : Text :=
  [' '].intercalate texts

/-- The texts of a run after one more item. A user turn forgets them, a receipt replaces them. -/
def hear (run : String) (texts : List Text) (item : Item) : List Text :=
  if shownRun item.1 = run then
    let texts := if isUserEvent item.1 item.2 then [] else texts
    match item.text? with
    | none => texts
    | some text =>
        if item.2 = "turn_finished" then [normalized text]
        else if item.2 = "assistant_text" then texts ++ [normalized text]
        else texts
  else texts

/-- What a run said since its last user turn or receipt, oldest first. -/
def heard (run : String) (items : List Item) : List Text :=
  items.foldl (hear run) []

/-- What a receipt repeats: one of the texts of its run, or all of them joined. -/
def repeatable (texts : List Text) : List Text :=
  if texts = [] then [] else joined texts :: texts

def Item.candidates (before : List Item) (item : Item) : List Text :=
  repeatable (if isUserEvent item.1 item.2 then [] else heard (shownRun item.1) before)

/-- A receipt whose text is one of the candidates, as `same` compares them. -/
def Item.repeatsBy (same : Text → Text → Bool) (before : List Item) (item : Item) : Bool :=
  item.2 == "turn_finished" &&
    item.text?.any fun text => (item.candidates before).any fun c => same c (normalized text)

variable [Times]

/-- The message of an item, with exactly its text. -/
def Item.message? (item : Item) : Option Message :=
  item.text?.map fun text => {
    role := if isUserEvent item.1 item.2 then .user else .assistant
    text
    timestamp := publicTimestamp (item.1.get "ts")
    videos := item.videos }

/-- The messages of a list of items without those that are dropped. -/
def kept (dropped : List Item → Item → Bool) (before : List Item) : List Item → List Message
  | [] => []
  | item :: rest =>
      (if dropped before item then [] else item.message?.toList) ++
        kept dropped (before ++ [item]) rest

omit [Conversions] in
theorem kept_append (dropped : List Item → Item → Bool) (before xs ys : List Item) :
    kept dropped before (xs ++ ys) =
      kept dropped before xs ++ kept dropped (before ++ xs) ys := by
  induction xs generalizing before with
  | nil => simp [kept]
  | cons item xs ih =>
      rw [List.cons_append, kept, ih, kept, List.append_assoc, List.append_assoc,
        List.singleton_append]

omit [Conversions] in
theorem kept_congr {dropped dropped' : List Item → Item → Bool} {before items : List Item}
    (h : ∀ xs item ys, items = xs ++ item :: ys →
      dropped (before ++ xs) item = dropped' (before ++ xs) item) :
    kept dropped before items = kept dropped' before items := by
  induction items generalizing before with
  | nil => rfl
  | cons item rest ih =>
      have hhead := h [] item rest rfl
      rw [List.append_nil] at hhead
      rw [kept, kept, hhead]
      congr 1
      apply ih
      intro xs other ys heq
      have hnext := h (item :: xs) other ys (by rw [heq, List.cons_append])
      rwa [List.append_assoc]

end Reference

/-! ## The digests stand for the texts -/

section Digests

variable [Sha256]

/-- The comparison of two texts by their digests. -/
def sameDigest (a b : Text) : Bool :=
  Sha256.digest (utf8 a) == Sha256.digest (utf8 b)

/-- What is kept of a run fits the texts it said. -/
def Fits (output : Option Output) (texts : List Text) : Prop :=
  if texts = [] then output = none
  else ∃ stored, output = some stored ∧
    (∀ digest, digest ∈ stored.digests ↔
      ∃ text ∈ texts, digest = Sha256.digest (utf8 text)) ∧
    stored.running = utf8 (joined texts) ∧ stored.count = texts.length

omit [Sha256] in
theorem joined_append {texts : List Text} (h : texts ≠ []) (text : Text) :
    joined (texts ++ [text]) = joined texts ++ [' '] ++ text := by
  induction texts with
  | nil => exact absurd rfl h
  | cons first rest ih =>
      cases rest with
      | nil => simp [joined, List.intercalate]
      | cons second rest =>
          have hrest := ih (List.cons_ne_nil second rest)
          simp only [joined, List.intercalate, List.cons_append, List.intersperse_cons_cons,
            List.flatten_cons] at hrest ⊢
          rw [hrest]
          simp

theorem Fits.nil : Fits none [] := by
  unfold Fits
  rw [if_pos rfl]

theorem Fits.receipt (text : Text) : Fits (some (Output.receipt (utf8 text))) [text] := by
  unfold Fits
  rw [if_neg (List.cons_ne_nil _ _)]
  refine ⟨_, rfl, ?_, ?_, rfl⟩
  · intro digest
    simp [Output.receipt]
  · simp [Output.receipt, joined, List.intercalate]

theorem Fits.extend {output : Option Output} {texts : List Text} (h : Fits output texts)
    (text : Text) :
    Fits (some ((output.getD Output.none).extend (utf8 text))) (texts ++ [text]) := by
  unfold Fits at h ⊢
  rw [if_neg (by simp)]
  by_cases htexts : texts = []
  · rw [if_pos htexts] at h
    subst htexts h
    refine ⟨_, rfl, ?_, ?_, rfl⟩
    · intro digest
      simp [Output.extend, Output.none]
    · simp [Output.extend, Output.none, joined, List.intercalate]
  · rw [if_neg htexts] at h
    obtain ⟨old, rfl, hdigests, hrunning, hcount⟩ := h
    refine ⟨_, rfl, ?_, ?_, ?_⟩
    · intro digest
      simp only [Option.getD_some, Output.extend, List.mem_insert_iff, hdigests, List.mem_append,
        List.mem_singleton]
      constructor
      · rintro (rfl | ⟨other, hother, rfl⟩)
        · exact ⟨text, .inr rfl, rfl⟩
        · exact ⟨other, .inl hother, rfl⟩
      · rintro ⟨other, hother | rfl, rfl⟩
        · exact .inr ⟨other, hother, rfl⟩
        · exact .inl rfl
    · have hsome : old.count ≠ 0 := by
        rw [hcount]
        exact fun hzero => htexts (List.length_eq_zero_iff.mp hzero)
      simp only [Option.getD_some, Output.extend, if_neg hsome]
      rw [hrunning, joined_append htexts, utf8_append, utf8_append]
    · simp [Output.extend, hcount]

/-- The digests tell which receipts repeat. -/
theorem Fits.repeats {output : Option Output} {texts : List Text} (h : Fits output texts)
    (text : Text) : (output.any fun kept => kept.repeats (utf8 text)) =
      (repeatable texts).any fun candidate => sameDigest candidate text := by
  unfold Fits at h
  unfold repeatable
  by_cases htexts : texts = []
  · rw [if_pos htexts] at h ⊢
    rw [h]
    rfl
  · rw [if_neg htexts] at h ⊢
    obtain ⟨old, rfl, hdigests, hrunning, -⟩ := h
    rw [Option.any_some, List.any_cons, Output.repeats, hrunning, Bool.or_comm]
    congr 1
    · rw [sameDigest, Bool.eq_iff_iff, beq_iff_eq, beq_iff_eq]
      exact eq_comm
    · rw [Bool.eq_iff_iff, List.contains_iff_mem, hdigests, List.any_eq_true]
      constructor
      · rintro ⟨other, hother, hsame⟩
        exact ⟨other, hother, beq_iff_eq.mpr hsame.symm⟩
      · rintro ⟨other, hother, hsame⟩
        exact ⟨other, hother, (beq_iff_eq.mp hsame).symm⟩

end Digests

/-! ## One scan -/

section Scans

variable {σ : Type} [Sha256] [Conversions] [Times]
variable {scan scan' : Scan σ} {sink : Bool} {before : List Item}

/-- The scan of a list of items, from what is kept of their runs to the messages. -/
structure Reads (items : List Item) (scan : Scan σ) : Prop where
  outputs : ∀ run, Fits (scan.outputs run) (heard run items)
  messages : scan.messages = kept (Item.repeatsBy sameDigest) [] items

theorem Reads.fresh (start : σ) : Reads [] (Scan.fresh start) where
  outputs _ := Fits.nil
  messages := rfl

omit [Sha256] [Times] in
theorem heard_append (run : String) (items : List Item) (item : Item) :
    heard run (items ++ [item]) = hear run (heard run items) item := by
  rw [heard, List.foldl_append, List.foldl_cons, List.foldl_nil, heard]

omit [Sha256] [Conversions] in
theorem kept_one (dropped : List Item → Item → Bool) (before : List Item) (item : Item) :
    kept dropped before [item] = if dropped before item then [] else item.message?.toList := by
  rw [kept, kept, List.append_nil]

omit [Sha256] [Conversions] [Times] in
theorem addMessage_messages {message : Message} (h : scan.addMessage sink message = .ok scan') :
    scan'.messages = scan.messages ++ [message] ∧ scan'.outputs = scan.outputs ∧
      scan'.projector = scan.projector := by
  simp only [Scan.addMessage, bind_eq_ok, require_eq_ok, pure_eq_ok] at h
  obtain ⟨_, _, rfl⟩ := h
  exact ⟨rfl, rfl, rfl⟩

omit [Conversions] [Times] in
/-- A text changes what is kept of its run, and is shown unless it repeats. -/
theorem addText_messages {run kind : String} {message : Message}
    (h : scan.addText sink run kind message = .ok scan') :
    (∀ other, scan'.outputs other = if other = run then
      nextOutput kind (scan.outputs run) (utf8 (normalized message.text))
      else scan.outputs other) ∧
    scan'.projector = scan.projector ∧
    scan'.messages = scan.messages ++
      if (kind == "turn_finished" && (scan.outputs run).any fun output =>
        output.repeats (utf8 (normalized message.text))) then [] else [message] := by
  simp only [Scan.addText, bind_eq_ok] at h
  obtain ⟨_, _, h⟩ := h
  split at h
  · next hrepeats =>
      rw [pure_eq_ok] at h
      subst h
      refine ⟨fun _ => rfl, rfl, ?_⟩
      rw [if_pos (by simpa [normalized] using hrepeats), List.append_nil]
      rfl
  · next hrepeats =>
      obtain ⟨hmessages, houtputs, hprojector⟩ := addMessage_messages h
      rw [houtputs, hmessages, hprojector]
      refine ⟨fun _ => rfl, rfl, ?_⟩
      rw [if_neg (by simpa [normalized] using hrepeats)]
      rfl

omit [Conversions] [Times] in
theorem Fits.nextOutput {output : Option Output} {texts : List Text} (h : Fits output texts)
    (kind : String) (text : Text) :
    Fits (nextOutput kind output (utf8 text))
      (if kind = "turn_finished" then [text]
      else if kind = "assistant_text" then texts ++ [text] else texts) := by
  unfold Transcript.nextOutput
  split
  · exact Fits.receipt text
  · split
    · exact h.extend text
    · exact h

/-- What a user turn leaves of the runs, before its own text. -/
theorem Reads.begin (h : Reads before scan) (event : Event) (kind other : String) :
    Fits ((if isUserEvent event kind then scan.setOutput (shownRun event) none else scan).outputs
        other)
      (if shownRun event = other ∧ isUserEvent event kind = true then [] else heard other before)
      := by
  by_cases huser : isUserEvent event kind = true
  · rw [if_pos huser]
    by_cases hrun : shownRun event = other
    · change Fits (if other = shownRun event then none else scan.outputs other) _
      rw [if_pos hrun.symm, if_pos ⟨hrun, huser⟩]
      exact Fits.nil
    · change Fits (if other = shownRun event then none else scan.outputs other) _
      rw [if_neg (Ne.symm hrun), if_neg fun both => hrun both.1]
      exact h.outputs other
  · rw [if_neg huser, if_neg fun both => huser both.2]
    exact h.outputs other

/-- One projected event. -/
theorem Reads.show (h : Reads before scan) {event : Event} {kind : String}
    (hshow : scan.show sink event kind = .ok scan') :
    Reads (before ++ [(event, kind)]) scan' ∧ scan'.projector = scan.projector := by
  simp only [Scan.show, bind_eq_ok, require_eq_ok] at hshow
  obtain ⟨_, _, videos, hvideos, hshow⟩ := hshow
  have hitem : Item.videos (event, kind) = videos := by
    unfold Item.videos
    rw [hvideos]
  have hbegin := h.begin event kind
  set begun := if isUserEvent event kind then scan.setOutput (shownRun event) none else scan
    with hbegun
  have hmessages : begun.messages = scan.messages := by
    rw [hbegun]
    split <;> rfl
  have hprojector : begun.projector = scan.projector := by
    rw [hbegun]
    split <;> rfl
  have htext : Item.text? (event, kind) = shownText event kind videos := by
    unfold Item.text?
    rw [hitem]
  cases hsaid : shownText event kind videos with
  | none =>
      rw [hsaid] at htext
      simp only [hsaid, pure_eq_ok] at hshow
      rw [← hshow]
      refine ⟨⟨fun other => ?_, ?_⟩, hprojector⟩
      · have hfits := hbegin other
        rw [heard_append]
        unfold hear
        by_cases hrun : shownRun event = other
        · simp only [hrun, true_and, htext, if_true] at hfits ⊢
          exact hfits
        · rw [if_neg fun both => hrun both.1] at hfits
          rw [if_neg hrun]
          exact hfits
      · have hsilent : Item.message? (event, kind) = none := by
          rw [Item.message?, htext, Option.map_none]
        rw [hmessages, h.messages, kept_append, kept_one, List.nil_append, hsilent]
        split <;> simp
  | some text =>
      rw [hsaid] at htext
      simp only [hsaid] at hshow
      obtain ⟨houtputs, hkeeps, hspoke⟩ := addText_messages hshow
      refine ⟨⟨fun other => ?_, ?_⟩, hkeeps.trans hprojector⟩
      · have hfits := hbegin other
        rw [heard_append, houtputs]
        unfold hear
        by_cases hrun : shownRun event = other
        · subst hrun
          simp only [true_and, if_true, htext] at hfits ⊢
          exact hfits.nextOutput kind (normalized text)
        · rw [if_neg fun both => hrun both.1] at hfits
          rw [if_neg hrun, if_neg (Ne.symm hrun)]
          exact hfits
      · have hspoken : Item.message? (event, kind) = some {
            role := if isUserEvent event kind then .user else .assistant
            text
            timestamp := publicTimestamp (event.get "ts")
            videos } := by
          rw [Item.message?, htext, Option.map_some, hitem]
        have hown := hbegin (shownRun event)
        simp only [true_and] at hown
        have hrepeats : Item.repeatsBy sameDigest before (event, kind) =
            (kind == "turn_finished" && (begun.outputs (shownRun event)).any fun output =>
              output.repeats (utf8 (normalized text))) := by
          rw [Item.repeatsBy, htext, Option.any_some, hown.repeats, Item.candidates]
        rw [hspoke, hmessages, h.messages, kept_append, kept_one, List.nil_append, hspoken,
          hrepeats]
        rfl

variable [Loads] {project : Project σ}

/-- The events that the projector publishes of some lines, with the types of their records. -/
def published (project : Project σ) : σ → List Bytes → List Item
  | _, [] => []
  | state, line :: rest =>
      match Loads.loads line with
      | some (.obj raw) =>
          match eventType raw, offer project state raw with
          | .ok kind, .ok (some event, state) =>
              (if event = [] then [] else [(event, kind)]) ++ published project state rest
          | .ok _, .ok (none, state) => published project state rest
          | _, _ => []
      | _ => []

/-- One line of the log. -/
theorem Reads.record (h : Reads before scan) {line : Bytes}
    (hrecord : scan.record project sink line = .ok scan') :
    ∃ more, Reads (before ++ more) scan' ∧ ∀ rest,
      published project scan.projector (line :: rest) =
        more ++ published project scan'.projector rest := by
  simp only [Scan.record] at hrecord
  split at hrecord
  · cases hrecord
  · next raw hraw =>
      simp only [bind_eq_ok] at hrecord
      obtain ⟨kind, hkind, ⟨out, projector⟩, hoffer, hrecord⟩ := hrecord
      have hsource : Reads before { scan with source := scan.source ++ line, projector } :=
        ⟨h.outputs, h.messages⟩
      have hsilent : ∀ {scan : Scan σ}, Reads before scan → Reads (before ++ []) scan := by
        intro scan hscan
        rwa [List.append_nil]
      cases out with
      | none =>
          rw [pure_eq_ok] at hrecord
          subst hrecord
          refine ⟨[], hsilent hsource, fun rest => ?_⟩
          simp only [published, hraw, hkind, hoffer, List.nil_append]
      | some event =>
          simp only at hrecord
          split at hrecord
          · next hempty =>
              rw [pure_eq_ok] at hrecord
              subst hrecord
              refine ⟨[], hsilent hsource, fun rest => ?_⟩
              simp only [published, hraw, hkind, hoffer, if_pos hempty]
          · next hfull =>
              obtain ⟨hreads, hprojector⟩ := hsource.show hrecord
              refine ⟨[(event, kind)], hreads, fun rest => ?_⟩
              simp only [published, hraw, hkind, hoffer, if_neg hfull]
              rw [hprojector]
  · cases hrecord

omit [Sha256] [Conversions] [Times] [Loads] in
theorem readline_prefix (limit : Nat) (rest : Bytes) : readline limit rest <+: rest := by
  have hline : lineOf rest <+: rest := by
    rw [take_lineOf]
    exact List.take_prefix _ _
  exact (List.take_prefix _ _).trans hline

/-- The loop over the lines of the log. -/
theorem Reads.loop {loop : Loop} {tick tick' : Nat} {rest : Bytes} (h : Reads before scan)
    (hloop : readLoop project sink loop tick scan rest = .ok (scan', tick')) :
    ∃ lines : List Bytes, (∀ line ∈ lines, line.getLast? = some 10) ∧
      scan'.source = scan.source ++ lines.flatten ∧ lines.flatten <+: rest ∧
      Reads (before ++ published project scan.projector lines) scan' := by
  induction hn : rest.length using Nat.strongRecOn generalizing before scan rest tick with
  | ind n ih =>
      have nothing : scan = scan' → ∃ lines : List Bytes,
          (∀ line ∈ lines, line.getLast? = some 10) ∧
          scan'.source = scan.source ++ lines.flatten ∧ lines.flatten <+: rest ∧
          Reads (before ++ published project scan.projector lines) scan' := by
        rintro rfl
        refine ⟨[], by simp, by simp, List.nil_prefix, ?_⟩
        rw [published, List.append_nil]
        exact h
      rw [readLoop] at hloop
      split at hloop
      · cases hloop
        exact nothing rfl
      split at hloop
      · cases hloop
      dsimp only at hloop
      split at hloop
      · cases hloop
      split at hloop
      · next hempty _ _ hline =>
          split at hloop
          · cases hloop
          · next scan₁ hrecord =>
              set line := readline (min (maxLineBytes + 1) rest.length) rest
              have hpos : 0 < line.length := by
                apply List.length_pos_iff.mpr
                intro he
                rw [he] at hline
                cases hline
              have hrest : 0 < rest.length := List.length_pos_iff.mpr hempty
              have hdrop : (rest.drop line.length).length = n - line.length := by
                rw [List.length_drop, hn]
              obtain ⟨more, hreads, hpublished⟩ := h.record hrecord
              obtain ⟨lines, hlines, hsource, hbegins, hfinal⟩ :=
                ih _ (by omega) hreads hloop hdrop
              refine ⟨line :: lines, ?_, ?_, ?_, ?_⟩
              · intro other hother
                rcases List.mem_cons.mp hother with heq | hother
                · rw [heq]
                  exact hline
                · exact hlines other hother
              · rw [hsource, (record_spec hrecord).1, List.flatten_cons, List.append_assoc]
              · obtain ⟨after, hafter⟩ := readline_prefix _ rest
                change line ++ after = rest at hafter
                rw [← hafter, List.drop_left] at hbegins
                rw [List.flatten_cons, ← hafter]
                exact (List.prefix_append_right_inj line).mpr hbegins
              · rw [hpublished, ← List.append_assoc]
                exact hfinal
      · split at hloop
        · cases hloop
        · cases hloop
          exact nothing rfl

/-! ## All of the items -/

omit [Loads]

/-- The scan of a sequence of projected events. -/
def Scan.shows (scan : Scan σ) (sink : Bool) : List Item → Except Failure (Scan σ)
  | [] => .ok scan
  | item :: rest => do (← scan.show sink item.1 item.2).shows sink rest

theorem Reads.shows {items : List Item} (h : Reads before scan)
    (hshows : scan.shows sink items = .ok scan') : Reads (before ++ items) scan' := by
  induction items generalizing before scan with
  | nil =>
      cases hshows
      rwa [List.append_nil]
  | cons item rest ih =>
      simp only [Scan.shows, bind_eq_ok] at hshows
      obtain ⟨scan₁, hshow, hshows⟩ := hshows
      have hrest := ih (h.show hshow).1 hshows
      rwa [List.append_assoc, List.singleton_append] at hrest

def sameText (a b : Text) : Bool :=
  a = b

/-- Of two texts that a receipt is compared by, the digests collide. -/
def ReceiptCollides (items : List Item) : Prop :=
  ∃ before item rest text, items = before ++ item :: rest ∧ item.text? = some text ∧
    ∃ candidate ∈ item.candidates before, Collides (utf8 candidate) (utf8 (normalized text))

/-- The messages are those of the items but for the receipts that repeat a text. -/
def Deduplicated (items : List Item) (messages : List Message) : Prop :=
  messages = kept (Item.repeatsBy sameText) [] items ∨
    (ReceiptCollides items ∧ messages = kept (Item.repeatsBy sameDigest) [] items)

omit [Times] in
/-- Digests that do not collide compare texts. -/
theorem repeatsBy_sameDigest {items xs ys : List Item} {item : Item}
    (h : ¬ ReceiptCollides items) (hitem : items = xs ++ item :: ys) :
    item.repeatsBy sameDigest xs = item.repeatsBy sameText xs := by
  unfold Item.repeatsBy
  cases htext : item.text? with
  | none => rfl
  | some text =>
      simp only [Option.any_some]
      congr 1
      rw [Bool.eq_iff_iff, List.any_eq_true, List.any_eq_true]
      constructor
      · rintro ⟨candidate, hmem, hsame⟩
        refine ⟨candidate, hmem, ?_⟩
        by_contra hdiffers
        have hne : candidate ≠ normalized text := fun heq => hdiffers (by simp [sameText, heq])
        exact h ⟨xs, item, ys, text, hitem, htext, candidate, hmem,
          fun heq => hne (utf8_inj heq), beq_iff_eq.mp hsame⟩
      · rintro ⟨candidate, hmem, hsame⟩
        refine ⟨candidate, hmem, ?_⟩
        rw [of_decide_eq_true hsame, sameDigest]
        exact beq_self_eq_true _

theorem Reads.deduplicated {items : List Item} (h : Reads items scan) :
    Deduplicated items scan.messages := by
  by_cases hcollides : ReceiptCollides items
  · exact .inr ⟨hcollides, h.messages⟩
  · left
    rw [h.messages]
    apply kept_congr
    intro xs item ys hitem
    exact repeatsBy_sameDigest hcollides hitem

end Scans

/-- For every sequence of projected events, and every reading of a log: a receipt is left out
exactly when its text is, since the last user turn or receipt of its run, one of the texts of the
run or all of them joined, where that receipt is the first of the texts. Every other message stays
in its place with its own text. Only two texts whose digests collide are mistaken. -/
theorem receipts_deduplicated {σ : Type} [Sha256] [Conversions] [Times] [Loads]
    (project : Project σ) (start : σ) (sink : Bool) :
    (∀ items scan, (Scan.fresh start).shows sink items = .ok scan →
      Deduplicated items scan.messages) ∧
    ∀ through env log reply, readPublicTranscript project sink start through env log = .ok reply →
      ∃ lines : List Bytes, (∀ line ∈ lines, line.getLast? = some 10) ∧
        lines.flatten = log.take reply.throughBytes ∧
        Deduplicated (published project start lines) reply.shown := by
  constructor
  · intro items scan hshows
    exact ((Reads.fresh start).shows hshows).deduplicated
  · intro through env log reply hread
    simp only [readPublicTranscript, bind_eq_ok, require_eq_ok, pure_eq_ok] at hread
    obtain ⟨_, _, _, _, _, _, ⟨scan, tick⟩, hloop, _, _, _, _, _, _, rfl⟩ := hread
    obtain ⟨lines, hlines, hsource, hbegins, hreads⟩ := (Reads.fresh start).loop hloop
    have hcount : (scan.reply sink).throughBytes = lines.flatten.length := by
      rw [Scan.reply, hsource]
      rfl
    have hshown : (scan.reply sink).shown = scan.messages := by
      cases sink <;> simp [Reply.shown, Scan.reply]
    refine ⟨lines, hlines, ?_, ?_⟩
    · rw [hcount]
      exact List.prefix_iff_eq_take.mp (hbegins.trans (List.take_prefix _ _))
    · rw [hshown]
      exact hreads.deduplicated

section Example

/-! ## Two receipts of one turn -/

/-- The texts of a run since its user last spoke, and its last receipt since then. -/
def recallStep [Conversions] (run : String) (past : List Text × Option Text) (item : Item) :
    List Text × Option Text :=
  if shownRun item.1 = run then
    let past := if isUserEvent item.1 item.2 then ([], none) else past
    match item.text? with
    | none => past
    | some text =>
        if item.2 = "turn_finished" then (past.1, some (normalized text))
        else if item.2 = "assistant_text" then (past.1 ++ [normalized text], past.2)
        else past
  else past

/-- A receipt that repeats any text since its user last spoke. -/
def repeatsTurn [Conversions] (before : List Item) (item : Item) : Bool :=
  let past := before.foldl (recallStep (shownRun item.1)) ([], none)
  item.2 == "turn_finished" && item.text?.any fun text =>
    past.1.contains (normalized text) || past.2 == some (normalized text) ||
      (past.1 != [] && normalized text == joined past.1)

/-- A digest that tells short texts apart. -/
@[reducible] def paddedDigest : Sha256 where
  digest bytes := (bytes ++ List.replicate 32 0).take 32
  length_digest := Sha256.length_padded

@[reducible] def noConversions : Conversions where
  str _ := ""
  int _ := none

@[reducible] def noTimes : Times where
  fromisoformat _ := none
  inRange _ := false

attribute [local instance] paddedDigest noConversions noTimes

def spoken (kind key text : String) : Item :=
  ([("run_id", .str "run"), (key, .str text)], kind)

/-- A receipt of both texts, and then one of the first. -/
def twoReceipts : List Item :=
  [spoken "assistant_text" "text" "A", spoken "assistant_text" "text" "B",
    spoken "turn_finished" "result_text" "A B", spoken "turn_finished" "result_text" "A"]

/-- The second receipt is shown, although its text was said since the user last spoke. -/
theorem second_receipt_shown : ¬ ∀ (_ : Sha256) (_ : Conversions) (_ : Times) (items : List Item)
    (scan : Scan Unit), (Scan.fresh ()).shows true items = .ok scan →
    scan.messages = kept repeatsTurn [] items := by
  intro h
  have hshown : ((Scan.fresh ()).shows true twoReceipts).toOption.map
      (fun scan => scan.messages.map Message.text) = some ["A", "B", "A"] := by
    decide +kernel
  cases hscan : (Scan.fresh ()).shows true twoReceipts with
  | error failure =>
      rw [hscan] at hshown
      cases hshown
  | ok scan =>
      rw [hscan] at hshown
      have htexts := Option.some.inj hshown
      dsimp only at htexts
      rw [h paddedDigest noConversions noTimes twoReceipts scan hscan] at htexts
      exact absurd htexts (by decide +kernel)

end Example

end AgentsServer.Transcript
