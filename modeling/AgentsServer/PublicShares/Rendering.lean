import AgentsServer.PublicShares.Patterns
import Mathlib.Tactic.IntervalCases

/-!
# What the renderer shows

The output of the renderer is the print of a document that the lines of the
message spell. A step of its loop keeps an open paragraph or shows the lines it
took as one block, behind the paragraph that was open.
-/

namespace AgentsServer.PublicShares

open Library Html

/-! ## Texts -/

theorem inlineMatch?_split {text inner after : List Char} {tag : String}
    (h : inlineMatch? text = some (tag, inner, after)) :
    ∃ mark : Mark, tag = mark.tag.name ∧ text = mark.sign ++ inner ++ mark.sign ++ after := by
  have whole : ∀ {p : Char → Bool} {rest tail : List Char}, rest.dropWhile p = tail →
      rest = rest.takeWhile p ++ tail := by
    rintro p rest tail rfl
    exact List.takeWhile_append_dropWhile.symm
  unfold inlineMatch? at h
  split at h
  · next rest =>
      dsimp only at h
      split at h
      · next htake hdrop =>
          cases h
          refine ⟨.code, rfl, (congrArg _ (whole hdrop)).trans ?_⟩
          simp [Mark.sign]
      · cases h
  · next rest =>
      dsimp only at h
      split at h
      · next htake hdrop =>
          cases h
          refine ⟨.strong, rfl, (congrArg (fun tail => '*' :: '*' :: tail) (whole hdrop)).trans ?_⟩
          simp [Mark.sign]
      · cases h
  · next rest _ =>
      dsimp only at h
      split at h
      · next htake hdrop =>
          cases h
          refine ⟨.em, rfl, (congrArg _ (whole hdrop)).trans ?_⟩
          simp [Mark.sign]
      · cases h
  · cases h

theorem tagged_print (tag : Tag) (children : List (Node Tag)) :
    tagged tag.name (print Tag.name children) = print Tag.name [.element tag [] children] := by
  rw [print_element, tagged, Token.print, Token.print, String.toList_append, String.toList_append,
    String.toList_append, String.toList_append, List.flatMap_nil, List.append_nil]
  rfl

theorem renderInlineText_marked {text inner after : List Char} {tag : String}
    (h : inlineMatch? text = some (tag, inner, after)) :
    renderInlineText text = tagged tag (escape inner) ++ renderInlineText after := by
  rw [renderInlineText, tagged, String.toList_append, String.toList_append, String.toList_append,
    String.toList_append]
  split
  · next found =>
      rw [h] at found
      cases found
      simp
  · next found =>
      rw [h] at found
      cases found

theorem renderInlineText_plain {c : Char} {rest : List Char}
    (h : inlineMatch? (c :: rest) = none) :
    renderInlineText (c :: rest) = escapeChar c ++ renderInlineText rest := by
  rw [renderInlineText]
  split
  · next found =>
      rw [h] at found
      cases found
  · rfl

/-- How a text is read into its parts: nothing of it is lost, and they are what is shown. -/
def Reads (read : List Char → List Inline) : Prop :=
  ∀ text, source (read text) = text ∧
    renderInlineText text = print Tag.name ((read text).map Inline.node)

theorem exists_reads : ∃ read, Reads read := by
  have one : ∀ text, ∃ parts, source parts = text ∧
      renderInlineText text = print Tag.name (parts.map Inline.node) := by
    intro text
    induction text using renderInlineText.induct with
    | case1 text tag inner after h ih =>
        obtain ⟨parts, hsource, hprint⟩ := ih
        obtain ⟨mark, rfl, rfl⟩ := inlineMatch?_split h
        refine ⟨.marked mark inner :: parts, ?_, ?_⟩
        · rw [source, List.flatMap_cons, ← source, hsource]
          rfl
        · rw [renderInlineText_marked h, hprint, List.map_cons, print_cons, Inline.node,
            ← tagged_print, print_text]
    | case2 => exact ⟨[], rfl, by rw [renderInlineText]; rfl⟩
    | case3 c rest h ih =>
        obtain ⟨parts, hsource, hprint⟩ := ih
        refine ⟨.plain c :: parts, ?_, ?_⟩
        · rw [source, List.flatMap_cons, ← source, hsource]
          rfl
        · rw [renderInlineText_plain h, hprint, List.map_cons, print_cons, Inline.node, print_text,
            escape, List.flatMap_singleton]
  choose read hread using one
  exact ⟨read, hread⟩

/-! ## Blocks -/

section Blocks

variable {read : List Char → List Inline} {paragraph : List Line} {line : Line}
  {lines rest : List Line}

theorem textNode_print (reads : Reads read) (tag : Tag) (text : List Char) :
    tagged tag.name (renderInlineText text) = print Tag.name [textNode tag [] (read text)] := by
  rw [(reads text).2, tagged_print]
  rfl

/-! The fixed parts of the output are the printed tags. -/

theorem codeBlock_print : "<div class=\"code-block\">".toList =
    (Token.opening Tag.div (classed "code-block")).print Tag.name := by
  decide

theorem codeLanguage_print : "<div class=\"code-language\">".toList =
    (Token.opening Tag.div (classed "code-language")).print Tag.name := by
  decide

theorem labelEnd_print : "</div>".toList = (Token.closing Tag.div).print Tag.name := by
  decide

theorem codeStart_print : "<pre><code>".toList =
    (Token.opening Tag.pre []).print Tag.name ++ (Token.opening Tag.code []).print Tag.name := by
  decide

theorem codeEnd_print : "</code></pre></div>".toList = (Token.closing Tag.code).print Tag.name ++
    (Token.closing Tag.pre).print Tag.name ++ (Token.closing Tag.div).print Tag.name := by
  decide

theorem tableStart_print : ("<div class=\"table-wrap\" role=\"region\" aria-label=\"Conversation table\" " ++
      "tabindex=\"0\"><table><thead><tr>").toList =
    (Token.opening Tag.div tableAttributes).print Tag.name ++
      (Token.opening Tag.table []).print Tag.name ++
      (Token.opening Tag.thead []).print Tag.name ++ (Token.opening Tag.tr []).print Tag.name := by
  decide

theorem columnStart_print : "<th scope=\"col\">".toList =
    (Token.opening Tag.th [("scope", "col".toList)]).print Tag.name := by
  decide

theorem columnEnd_print : "</th>".toList = (Token.closing Tag.th).print Tag.name := by
  decide

theorem columnsEnd_print : "</tr></thead><tbody>".toList = (Token.closing Tag.tr).print Tag.name ++
    (Token.closing Tag.thead).print Tag.name ++ (Token.opening Tag.tbody []).print Tag.name := by
  decide

theorem tableEnd_print : "</tbody></table></div>".toList =
    (Token.closing Tag.tbody).print Tag.name ++ (Token.closing Tag.table).print Tag.name ++
      (Token.closing Tag.div).print Tag.name := by
  decide

theorem renderCode_print (label : Line) (code : List Line) :
    renderCode label code = print Tag.name [(Block.code label (joinLines code)).node] := by
  unfold renderCode Block.node
  by_cases h : label = []
  · simp only [h, if_true, print_element, print_text, List.nil_append, List.append_nil,
      List.append_assoc, codeBlock_print, codeStart_print, codeEnd_print]
  · simp only [h, if_false, print_element, print_append, print_text, List.append_assoc,
      codeBlock_print, codeLanguage_print, labelEnd_print, codeStart_print, codeEnd_print]

theorem headingTag_name {depth : Nat} (h : 1 ≤ depth ∧ depth ≤ 6) :
    (headingTag depth).name = "h" ++ toString (min (depth + 1) 6) := by
  obtain ⟨low, high⟩ := h
  interval_cases depth <;> decide

theorem renderHeading_print (reads : Reads read) {marks : Line} (text : Line)
    (h : 1 ≤ marks.length ∧ marks.length ≤ 6) :
    renderHeading marks text =
      print Tag.name [(Block.heading marks.length (read text)).node] := by
  rw [renderHeading, ← headingTag_name h, textNode_print reads]
  rfl

/-- No digit has an entity. -/
theorem escape_toString (n : Nat) : escape (toString n).toList = (toString n).toList := by
  have digit : ∀ c ∈ (toString n).toList, escapeChar c = [c] := by
    intro c hc
    rw [Nat.toString_eq_repr, Nat.toList_repr] at hc
    have plain : c.isDigit = true := Nat.isDigit_of_mem_toDigits (by omega) (by omega) hc
    unfold escapeChar entity?
    split_ifs with h h h h h
    · subst h
      exact absurd plain (by decide)
    · subst h
      exact absurd plain (by decide)
    · subst h
      exact absurd plain (by decide)
    · subst h
      exact absurd plain (by decide)
    · subst h
      exact absurd plain (by decide)
    · rfl
  rw [escape, List.flatMap_congr digit]
  exact List.flatMap_singleton' _

theorem start_print (start : Option Nat) :
    (startText start).toList = (startAttributes start).flatMap assignment := by
  cases start with
  | none => rfl
  | some n =>
      have opening : " start=\"".toList = ' ' :: ("start".toList ++ ['=', '"']) := by decide
      rw [startText, startAttributes, List.flatMap_singleton, assignment, escape_toString,
        String.toList_append, String.toList_append, opening]
      simp

theorem renderList_print (reads : Reads read) (mark : ListMark) (items : List Line) :
    renderList mark items = print Tag.name [(Block.list mark (items.map read)).node] := by
  have inner : items.flatMap (fun item => tagged "li" (renderInlineText item)) =
      print Tag.name ((items.map read).map (textNode .li [])) := by
    rw [List.map_map, print_map]
    exact List.flatMap_congr fun item _ => textNode_print reads .li item
  have tag : (if mark.isOrdered then "ol" else "ul") =
      (if mark.isOrdered then Tag.ol else Tag.ul).name := by
    cases mark.isOrdered <;> rfl
  rw [Block.node, print_element, ← inner, renderList, tag, String.toList_append,
    String.toList_append, String.toList_append, String.toList_append, String.toList_append,
    start_print]
  simp [Token.print]

/-- The cells of a row, each in a node of its own. -/
theorem cells_print (reads : Reads read) (tag : Tag) (attributes : List (String × List Char))
    (cells : List Line) :
    cells.flatMap (fun cell => (Token.opening tag attributes).print Tag.name ++
        renderInlineText cell ++ (Token.closing tag).print Tag.name) =
      print Tag.name ((cells.map read).map (textNode tag attributes)) := by
  rw [List.map_map, print_map]
  refine List.flatMap_congr fun cell _ => ?_
  rw [(reads cell).2, Function.comp_apply, textNode, print_element]

theorem renderTable_print (reads : Reads read) (columns : List Line) (rows : List (List Line)) :
    renderTable columns rows =
      print Tag.name [(Block.table (columns.map read) (rows.map (List.map read))).node] := by
  have row : ∀ cells : List Line,
      tagged "tr" (cells.flatMap fun cell => tagged "td" (renderInlineText cell)) =
        print Tag.name [.element .tr [] ((cells.map read).map (textNode .td []))] := by
    intro cells
    rw [List.map_map, ← tagged_print, print_map]
    exact congrArg (tagged "tr") (List.flatMap_congr fun cell _ => textNode_print reads .td cell)
  have inner : rows.flatMap (fun cells => print Tag.name
      [.element .tr [] ((cells.map read).map (textNode .td []))]) =
        print Tag.name ((rows.map (List.map read)).map fun cells =>
          .element .tr [] (cells.map (textNode .td []))) := by
    rw [List.map_map, print_map]
    rfl
  unfold renderTable Block.node
  rw [print_element, print_element, print_cons, print_element, print_element, print_element,
    ← cells_print reads, ← inner]
  simp only [row, tableStart_print, columnsEnd_print, tableEnd_print, columnStart_print,
    columnEnd_print, List.append_assoc]

/-! ## Loops -/

theorem takeCode_split (marker : Line) (lines : List Line) :
    ∃ closing, closing.length ≤ 1 ∧ (∀ line ∈ closing, Closes line marker) ∧
      lines = (takeCode marker lines).1 ++ closing ++ (takeCode marker lines).2 := by
  induction lines with
  | nil => exact ⟨[], Nat.zero_le 1, List.forall_mem_nil _, rfl⟩
  | cons line rest ih =>
      unfold takeCode
      split
      · next h => exact ⟨[line], Nat.le_refl 1, List.forall_mem_singleton.mpr (closes_of_closes h), rfl⟩
      · obtain ⟨closing, one, all, split⟩ := ih
        exact ⟨closing, one, all, congrArg (List.cons line) split⟩

theorem takeItems_split (ordered : Bool) (lines : List Line) :
    ∃ taken, ∃ entries : List (ListMark × Line), lines = taken ++ (takeItems ordered lines).2 ∧
      List.Forall₂ (fun line entry => Item line entry.1 entry.2) taken entries ∧
      entries.map Prod.snd = (takeItems ordered lines).1 ∧
      ∀ entry ∈ entries, entry.1.isOrdered = ordered := by
  induction lines with
  | nil => exact ⟨[], [], rfl, .nil, rfl, List.forall_mem_nil _⟩
  | cons line rest ih =>
      unfold takeItems
      split
      · next mark text h =>
          split
          · next same =>
              obtain ⟨taken, entries, split, items, texts, all⟩ := ih
              exact ⟨line :: taken, (mark, text) :: entries, congrArg (List.cons line) split,
                .cons (item_of_listItem h) items, congrArg (List.cons text) texts,
                List.forall_mem_cons.mpr ⟨same, all⟩⟩
          · exact ⟨[], [], rfl, .nil, rfl, List.forall_mem_nil _⟩
      · exact ⟨[], [], rfl, .nil, rfl, List.forall_mem_nil _⟩

theorem takeQuote_split (lines : List Line) :
    ∃ taken, lines = taken ++ (takeQuote lines).2 ∧
      List.Forall₂ Quotes taken (takeQuote lines).1 := by
  induction lines with
  | nil => exact ⟨[], rfl, .nil⟩
  | cons line rest ih =>
      unfold takeQuote
      split
      · next h =>
          obtain ⟨taken, split, quotes⟩ := ih
          exact ⟨line :: taken, congrArg (List.cons line) split, .cons (quotes_of_isQuote h) quotes⟩
      · exact ⟨[], rfl, .nil⟩

theorem takeRows_split (columns : Nat) (lines : List Line) :
    ∃ taken, lines = taken ++ (takeRows columns lines).2 ∧
      List.Forall₂ (fun line cells => Row line cells ∧ cells.length = columns) taken
        (takeRows columns lines).1 := by
  induction lines with
  | nil => exact ⟨[], rfl, .nil⟩
  | cons line rest ih =>
      unfold takeRows
      split
      · next h =>
          rw [Bool.and_eq_true, beq_iff_eq] at h
          obtain ⟨taken, split, rows⟩ := ih
          exact ⟨line :: taken, congrArg (List.cons line) split,
            .cons ⟨row_tableCells line, h.2⟩ rows⟩
      · exact ⟨[], rfl, .nil⟩

/-! ## Runs -/

theorem Spells.append {a b : List Line} {doc more : List Block} (ha : Spells a doc)
    (hb : Spells b more) : Spells (a ++ b) (doc ++ more) := by
  induction ha with
  | nil => exact hb
  | blank h _ ih => exact .blank h ih
  | block h _ ih =>
      rw [List.append_assoc]
      exact .block h ih

/-- The lines that are shown as blocks of their own. -/
structure Shows (lines : List Line) (output : List Char) : Prop where
  doc : ∃ doc, Spells lines doc ∧ output = print Tag.name (nodes doc)

theorem Shows.nil : Shows [] [] :=
  ⟨[], .nil, rfl⟩

theorem Shows.blank (h : Blank line) : Shows [line] [] :=
  ⟨[], .blank h .nil, rfl⟩

theorem Shows.block {block : Block} (h : Spelled lines block) :
    Shows lines (print Tag.name [block.node]) := by
  have spells : Spells (lines ++ []) [block] := .block h .nil
  rw [List.append_nil] at spells
  exact ⟨[block], spells, rfl⟩

theorem Shows.append {a b : List Line} {x y : List Char} (ha : Shows a x) (hb : Shows b y) :
    Shows (a ++ b) (x ++ y) := by
  obtain ⟨doc, spells, rfl⟩ := ha.doc
  obtain ⟨more, spells', rfl⟩ := hb.doc
  refine ⟨doc ++ more, spells.append spells', ?_⟩
  rw [nodes, nodes, nodes, List.map_append, print_append]

theorem shows_paragraph (reads : Reads read) (paragraph : List Line) :
    Shows paragraph (flushParagraph paragraph) := by
  cases paragraph with
  | nil => exact .nil
  | cons line rest =>
      have spelled : Spelled (line :: rest) (.paragraph (read (joinLines (line :: rest)))) :=
        .paragraph (List.cons_ne_nil line rest) (reads _).1
      rw [flushParagraph, if_neg (List.cons_ne_nil line rest), show "p" = Tag.p.name from rfl,
        textNode_print reads]
      exact .block spelled

theorem shows_code {marker label : Line} (h : fence? line = some (marker, label)) :
    ∃ taken, line :: rest = taken ++ (takeCode marker rest).2 ∧
      Shows taken (renderCode (strip label) (takeCode marker rest).1) := by
  obtain ⟨closing, one, closes, split⟩ := takeCode_split marker rest
  refine ⟨line :: ((takeCode marker rest).1 ++ closing), congrArg (List.cons line) split, ?_⟩
  rw [renderCode_print]
  exact .block (.code (opens_of_fence h) one closes)

theorem shows_heading (reads : Reads read) {marks text : Line}
    (h : heading? line = some (marks, text)) : Shows [line] (renderHeading marks text) := by
  have heads := heads_of_heading h
  rw [renderHeading_print reads text heads.bounds]
  have heads' : Heads line marks.length (source (read text)) := by
    rw [(reads text).1]
    exact heads
  exact .block (.heading heads')

theorem shows_list (reads : Reads read) {mark : ListMark} {text : Line}
    (h : listItem? line = some (mark, text)) :
    ∃ taken, line :: rest = taken ++ (takeItems mark.isOrdered (line :: rest)).2 ∧
      Shows taken (renderList mark (takeItems mark.isOrdered (line :: rest)).1) := by
  obtain ⟨taken, entries, split, items, texts, all⟩ := takeItems_split mark.isOrdered rest
  have first : takeItems mark.isOrdered (line :: rest) =
      (text :: (takeItems mark.isOrdered rest).1, (takeItems mark.isOrdered rest).2) := by
    rw [takeItems, h]
    exact if_pos rfl
  rw [first]
  refine ⟨line :: taken, congrArg (List.cons line) split, ?_⟩
  have spelled : Spelled (line :: taken) (.list mark (read text ::
      (entries.map fun entry => (entry.1, read entry.2)).map Prod.snd)) := by
    refine .list ?_ (.cons ?_ ?_)
    · intro entry hentry
      obtain ⟨origin, horigin, rfl⟩ := List.mem_map.mp hentry
      exact all origin horigin
    · rw [(reads text).1]
      exact item_of_listItem h
    · rw [List.forall₂_map_right_iff]
      refine items.imp fun item entry hitem => ?_
      rw [(reads entry.2).1]
      exact hitem
  rw [renderList_print reads, ← texts, List.map_cons, List.map_map]
  rw [List.map_map] at spelled
  exact .block spelled

theorem shows_quote (reads : Reads read) (h : isQuote line = true) :
    ∃ taken, line :: rest = taken ++ (takeQuote (line :: rest)).2 ∧
      Shows taken (tagged "blockquote"
        (renderInlineText (joinLines (takeQuote (line :: rest)).1))) := by
  obtain ⟨taken, split, quotes⟩ := takeQuote_split (line :: rest)
  refine ⟨taken, split, ?_⟩
  have found : taken ≠ [] := by
    rintro rfl
    rw [takeQuote, if_pos h] at quotes
    cases quotes
  rw [show "blockquote" = Tag.blockquote.name from rfl, textNode_print reads]
  exact .block (.quote found quotes (reads _).1)

theorem tableColumns?_split {columns : List Line} (h : tableColumns? line rest = some columns) :
    columns = tableCells line ∧ ∃ divider more, rest = divider :: more ∧ Divides divider := by
  unfold tableColumns? at h
  split at h
  · next divider more =>
      dsimp only at h
      split at h
      · next all =>
          cases h
          simp only [Bool.and_eq_true] at all
          exact ⟨rfl, divider, more, rfl, divides_of_dividers all.2⟩
      · cases h
  · cases h

theorem map_source (reads : Reads read) (cells : List Line) :
    (cells.map read).map source = cells := by
  rw [List.map_map]
  exact List.map_id'' (fun cell => (reads cell).1) cells

theorem shows_table (reads : Reads read) {columns : List Line}
    (h : tableColumns? line rest = some columns) :
    ∃ taken, line :: rest = taken ++ (takeRows columns.length rest.tail).2 ∧
      Shows taken (renderTable columns (takeRows columns.length rest.tail).1) := by
  obtain ⟨rfl, divider, more, rfl, divides⟩ := tableColumns?_split h
  obtain ⟨taken, split, rows⟩ := takeRows_split (tableCells line).length more
  refine ⟨line :: divider :: taken,
    congrArg (fun left => line :: divider :: left) split, ?_⟩
  rw [renderTable_print reads]
  refine .block (.table ?_ divides ?_)
  · rw [map_source reads]
    exact row_tableCells line
  · rw [List.forall₂_map_right_iff]
    refine rows.imp fun row cells hrow => ?_
    rw [map_source reads, List.length_map, List.length_map]
    exact hrow

/-- What a step makes of the open paragraph and the lines: it keeps the line with the paragraph,
or it shows lines behind the paragraph. -/
inductive Follows (paragraph : List Line) (line : Line) (rest : List Line) : Step → Prop
  | keeps : Follows paragraph line rest
      { output := [], paragraph := paragraph ++ [line], rest }
  | shows {taken left : List Line} {output : List Char} : line :: rest = taken ++ left →
      Shows taken output → Follows paragraph line rest
        { output := flushParagraph paragraph ++ output, paragraph := [], rest := left }

theorem step_follows (reads : Reads read) (paragraph : List Line) (line : Line)
    (rest : List Line) : Follows paragraph line rest (step paragraph line rest) := by
  unfold step
  split
  · next h =>
      have follows : Follows paragraph line rest
          { output := flushParagraph paragraph ++ [], paragraph := [], rest } :=
        .shows rfl (.blank (blank_of_strip h))
      rw [List.append_nil] at follows
      exact follows
  split
  · next h =>
      obtain ⟨taken, split, shows⟩ := shows_code h
      exact .shows split shows
  split
  · next h => exact .shows rfl (shows_heading reads h)
  split
  · next h => exact .shows rfl (.block (spelled_of_isRule h))
  split
  · next h =>
      obtain ⟨taken, split, shows⟩ := shows_list reads h
      exact .shows split shows
  split
  · next h =>
      obtain ⟨taken, split, shows⟩ := shows_quote reads h
      exact .shows split shows
  split
  · next h =>
      obtain ⟨taken, split, shows⟩ := shows_table reads h
      exact .shows split shows
  · exact .keeps

/-- The lines that are left and those of the open paragraph are all shown, in their order. -/
theorem renderLines_shows (reads : Reads read) (paragraph lines : List Line) :
    Shows (paragraph ++ lines) (renderLines paragraph lines) := by
  induction paragraph, lines using renderLines.induct with
  | case1 paragraph =>
      rw [renderLines, List.append_nil]
      exact shows_paragraph reads paragraph
  | case2 paragraph line rest next ih =>
      rw [renderLines]
      have follows : Follows paragraph line rest next := step_follows reads paragraph line rest
      change Shows _ (next.output ++ renderLines next.paragraph next.rest)
      generalize next = following at follows ih
      cases follows with
      | keeps =>
          rw [List.append_assoc] at ih
          exact ih
      | @shows taken left output split shown =>
          rw [split, ← List.append_assoc]
          exact ((shows_paragraph reads paragraph).append shown).append ih

end Blocks

/-! ## What is shown is fixed but for texts -/

/-- All tokens of a node are fixed. -/
def FixedNode (node : Node Tag) : Prop :=
  ∀ token ∈ tokens node, Fixed token

theorem fixed_element {tag : Tag} {attributes : List (String × List Char)}
    {children : List (Node Tag)} (opening : Fixed (.opening tag attributes))
    (inner : ∀ node ∈ children, FixedNode node) :
    FixedNode (.element tag attributes children) := by
  intro token htoken
  rw [tokens, List.mem_cons, List.mem_append, List.mem_singleton] at htoken
  rcases htoken with rfl | htoken | rfl
  · exact opening
  · obtain ⟨node, hnode, found⟩ := mem_tokensOf.mp htoken
    exact inner node hnode token found
  · exact .closing tag

theorem fixed_text (content : List Char) : FixedNode (.text content) := by
  intro token htoken
  rw [tokens, List.mem_singleton] at htoken
  rw [htoken]
  exact .text content

theorem fixed_inline (part : Inline) : FixedNode part.node := by
  cases part with
  | plain c => exact fixed_text [c]
  | marked mark inner =>
      exact fixed_element (.plain mark.tag) (List.forall_mem_singleton.mpr (fixed_text inner))

theorem fixed_textNode {tag : Tag} {attributes : List (String × List Char)}
    (opening : Fixed (.opening tag attributes)) (text : List Inline) :
    FixedNode (textNode tag attributes text) :=
  fixed_element opening (List.forall_mem_map.mpr fun part _ => fixed_inline part)

theorem fixed_block (block : Block) : FixedNode block.node := by
  cases block with
  | paragraph text => exact fixed_textNode (.plain .p) text
  | code label content =>
      refine fixed_element .codeBlock (List.forall_mem_append.mpr ⟨?_, ?_⟩)
      · split
        · exact List.forall_mem_nil _
        · exact List.forall_mem_singleton.mpr
            (fixed_element .codeLanguage (List.forall_mem_singleton.mpr (fixed_text label)))
      · refine List.forall_mem_singleton.mpr (fixed_element (.plain .pre) ?_)
        refine List.forall_mem_singleton.mpr (fixed_element (.plain .code) ?_)
        exact List.forall_mem_singleton.mpr (fixed_text content)
  | heading depth text => exact fixed_textNode (.plain (headingTag depth)) text
  | rule =>
      intro token htoken
      rw [Block.node, tokens, List.mem_singleton] at htoken
      rw [htoken]
      exact .void .hr
  | list mark items =>
      refine fixed_element ?_ (List.forall_mem_map.mpr fun item _ => fixed_textNode (.plain .li) item)
      cases mark with
      | bullet c => exact .plain .ul
      | number digits =>
          by_cases one : digits = ['1']
          · rw [startOf, if_pos one]
            exact .plain .ol
          · rw [startOf, if_neg one]
            exact .start (decimal digits)
  | quote text => exact fixed_textNode (.plain .blockquote) text
  | table columns rows =>
      refine fixed_element .tableWrap (List.forall_mem_singleton.mpr ?_)
      refine fixed_element (.plain .table) (List.forall_mem_cons.mpr ⟨?_, ?_⟩)
      · refine fixed_element (.plain .thead) (List.forall_mem_singleton.mpr ?_)
        refine fixed_element (.plain .tr) (List.forall_mem_map.mpr fun cell _ => ?_)
        exact fixed_textNode .column cell
      · refine List.forall_mem_singleton.mpr (fixed_element (.plain .tbody) ?_)
        refine List.forall_mem_map.mpr fun cells _ => fixed_element (.plain .tr) ?_
        exact List.forall_mem_map.mpr fun cell _ => fixed_textNode (.plain .td) cell

/-- The lines of a text have all of it but the line breaks. -/
theorem splitlines_flatten (text : List Char) :
    (splitlines text).flatten = text.filter fun c => !isLineBreak c := by
  induction text using splitlines.induct with
  | case1 => rfl
  | case2 rest ih =>
      rw [splitlines, List.flatten_cons, List.nil_append, ih]
      rfl
  | case3 c rest single breaks ih =>
      rw [splitlines, if_pos breaks, List.flatten_cons, List.nil_append, ih,
        List.filter_cons_of_neg (by rw [breaks]; decide)]
      exact single
  | case4 c rest single breaks empty ih =>
      rw [splitlines, if_neg breaks, empty, List.filter_cons_of_pos (by simp [breaks]), ← ih, empty]
      · rfl
      · exact single
  | case5 c rest single breaks line more split ih =>
      rw [splitlines, if_neg breaks, split, List.filter_cons_of_pos (by simp [breaks]), ← ih, split]
      · rfl
      · exact single

/-- For every text the renderer ends, since each of its steps takes lines and leaves fewer. What it
prints is a document that the lines of the text spell: balanced, of fixed tags and attributes but
for the number that a list starts with, and with every text escaped, from which it is read back. -/
theorem renderMessageMarkdown_shows (text : List Char) :
    (∀ paragraph line rest, (step paragraph line rest).rest.length < (line :: rest).length) ∧
    (splitlines text).flatten = text.filter (fun c => !isLineBreak c) ∧
    ∃ doc, Spells (splitlines text) doc ∧
      renderMessageMarkdown text = print Tag.name (nodes doc) ∧
      Balanced (tokensOf (nodes doc)) ∧
      (∀ token ∈ tokensOf (nodes doc), Fixed token) ∧
      ∀ content, Token.text content ∈ tokensOf (nodes doc) →
        Escaped ((Token.text content).print Tag.name) ∧
          unescape ((Token.text content).print Tag.name) = content := by
  refine ⟨fun paragraph line rest => Nat.lt_succ_of_le (step_advances paragraph line rest),
    splitlines_flatten text, ?_⟩
  obtain ⟨read, reads⟩ := exists_reads
  obtain ⟨doc, spells, printed⟩ := (renderLines_shows reads [] (splitlines text)).doc
  refine ⟨doc, spells, printed, balanced_tokensOf (nodes doc), ?_, ?_⟩
  · intro token htoken
    obtain ⟨node, hnode, found⟩ := mem_tokensOf.mp htoken
    obtain ⟨block, -, rfl⟩ := List.mem_map.mp hnode
    exact fixed_block block token found
  · intro content _
    exact ⟨escaped_escape content, unescape_escape content⟩

end AgentsServer.PublicShares
