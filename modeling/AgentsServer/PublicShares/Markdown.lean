import AgentsServer.Library.Html
import AgentsServer.Library.Text

/-!
# Markdown of shared messages

`_render_message_markdown` reads the lines of a message block by block. A step
of its loop takes at least one line: a blank one, one of a paragraph, or all
the lines of a code block, a list, a quotation or a table. The patterns are
those of the source with their backtracking worked out: no line holds a line
break, and the first run that a pattern can take is the only one it can match.
-/

namespace AgentsServer.PublicShares

open Library Html

abbrev Line := List Char

/-! ## Lines -/

/-- What ends a line for `str.splitlines`. -/
def isLineBreak (c : Char) : Bool :=
  let n := c.toNat
  (10 ≤ n && n ≤ 13) || (28 ≤ n && n ≤ 30) || n == 0x85 || n == 0x2028 || n == 0x2029

/-- `str.splitlines()` -/
def splitlines : List Char → List Line
  | [] => []
  | '\r' :: '\n' :: rest => [] :: splitlines rest
  | c :: rest =>
      if isLineBreak c then [] :: splitlines rest
      else
        match splitlines rest with
        | [] => [[c]]
        | line :: more => (c :: line) :: more

/-- `chr(10).join(lines)` -/
def joinLines (lines : List Line) : List Char :=
  ['\n'].intercalate lines

def lstrip (line : Line) : Line :=
  line.dropWhile isspace

/-- `line.strip(mark)` of one character. -/
def stripMark (mark : Char) (line : Line) : Line :=
  (((line.dropWhile (· == mark)).reverse).dropWhile (· == mark)).reverse

/-! ## Patterns -/

/-- ` {0,3}` and what follows it. -/
def indented? (line : Line) : Option Line :=
  if (line.takeWhile (· == ' ')).length ≤ 3 then some (line.dropWhile (· == ' ')) else none

/-- `p+(.+)$`: the run of blanks gives its last one back where nothing else is left. -/
def afterBlanks (p : Char → Bool) (line : Line) : Option Line :=
  match line.takeWhile p, line.dropWhile p with
  | [], _ => none
  | _ :: _, c :: rest => some (c :: rest)
  | [_], [] => none
  | _ :: b :: blanks, [] => some [(b :: blanks).getLast (List.cons_ne_nil b blanks)]

/-- `_FENCE`: the marker and what follows it. -/
def fence? (line : Line) : Option (Line × Line) := do
  let rest ← indented? line
  match rest with
  | c :: _ =>
      if (c == '`' || c == '~') && decide (3 ≤ (rest.takeWhile (· == c)).length) then
        some (rest.takeWhile (· == c), rest.dropWhile (· == c))
      else none
  | [] => none

/-- `_HEADING`: the marks and the text. -/
def heading? (line : Line) : Option (Line × Line) := do
  let rest ← indented? line
  let marks := rest.takeWhile (· == '#')
  if 1 ≤ marks.length ∧ marks.length ≤ 6 then do
    let text ← afterBlanks (fun c => c == ' ' || c == '\t') (rest.dropWhile (· == '#'))
    some (marks, text)
  else none

/-- The mark of a list item. -/
inductive ListMark where
  | bullet (c : Char)
  | number (digits : Line)
  deriving DecidableEq

def ListMark.isOrdered : ListMark → Bool
  | .bullet _ => false
  | .number _ => true

/-- The mark of an item and what follows it. -/
def listMark? (rest : Line) : Option (ListMark × Line) :=
  match rest with
  | c :: more =>
      if c == '-' || c == '+' || c == '*' then some (.bullet c, more)
      else
        let digits := rest.takeWhile Char.isDigit
        match rest.dropWhile Char.isDigit with
        | d :: more =>
            if decide (1 ≤ digits.length ∧ digits.length ≤ 9) && (d == '.' || d == ')') then
              some (.number digits, more)
            else none
        | [] => none
  | [] => none

/-- `_LIST_ITEM`: the mark and the text. -/
def listItem? (line : Line) : Option (ListMark × Line) := do
  let rest ← indented? line
  let (mark, rest) ← listMark? rest
  let text ← afterBlanks isspace rest
  some (mark, text)

/-- `:?` and what follows it. -/
def afterColon : Line → Line
  | ':' :: rest => rest
  | cell => cell

/-- `_TABLE_DIVIDER.fullmatch` -/
def isDivider (cell : Line) : Bool :=
  decide (3 ≤ ((afterColon cell).takeWhile (· == '-')).length) &&
    ((afterColon cell).dropWhile (· == '-') == [] ||
      (afterColon cell).dropWhile (· == '-') == [':'])

def isRule (line : Line) : Bool :=
  strip line == ['-', '-', '-'] || strip line == ['*', '*', '*'] || strip line == ['_', '_', '_']

def isQuote (line : Line) : Bool :=
  (lstrip line).take 2 == ['>', ' ']

/-- `_table_cells` -/
def tableCells (line : Line) : List Line :=
  ((stripMark '|' (strip line)).splitOn '|').map strip

/-! ## Texts -/

/-- A match of `_INLINE_MARKDOWN` at the start of a text: the tag, what is between the marks, and
what follows them. -/
def inlineMatch? (text : List Char) : Option (String × List Char × List Char) :=
  match text with
  | '`' :: rest =>
      let inner := rest.takeWhile fun c => c != '`' && c != '\n'
      match inner, rest.dropWhile fun c => c != '`' && c != '\n' with
      | _ :: _, '`' :: after => some ("code", inner, after)
      | _, _ => none
  | '*' :: '*' :: rest =>
      let inner := rest.takeWhile fun c => c != '*' && c != '\n'
      match inner, rest.dropWhile fun c => c != '*' && c != '\n' with
      | _ :: _, '*' :: '*' :: after => some ("strong", inner, after)
      | _, _ => none
  | '*' :: rest =>
      let inner := rest.takeWhile fun c => c != '*' && c != '\n'
      match inner, rest.dropWhile fun c => c != '*' && c != '\n' with
      | _ :: _, '*' :: after => some ("em", inner, after)
      | _, _ => none
  | _ => none

theorem inlineMatch?_shorter {text after inner : List Char} {tag : String}
    (h : inlineMatch? text = some (tag, inner, after)) : after.length < text.length := by
  have dropped : ∀ (p : Char → Bool) (rest : List Char), (rest.dropWhile p).length ≤ rest.length :=
    fun p rest => (List.dropWhile_sublist p).length_le
  unfold inlineMatch? at h
  split at h
  · next rest =>
      have := dropped (fun c => c != '`' && c != '\n') rest
      dsimp only at h
      split at h
      · next hdrop =>
          cases h
          rw [hdrop, List.length_cons] at this
          rw [List.length_cons]
          omega
      · cases h
  · next rest =>
      have := dropped (fun c => c != '*' && c != '\n') rest
      dsimp only at h
      split at h
      · next hdrop =>
          cases h
          rw [hdrop, List.length_cons, List.length_cons] at this
          rw [List.length_cons, List.length_cons]
          omega
      · cases h
  · next rest _ =>
      have := dropped (fun c => c != '*' && c != '\n') rest
      dsimp only at h
      split at h
      · next hdrop =>
          cases h
          rw [hdrop, List.length_cons] at this
          rw [List.length_cons]
          omega
      · cases h
  · cases h

/-- `_render_inline_text` -/
def renderInlineText (text : List Char) : List Char :=
  match _h : inlineMatch? text with
  | some (tag, inner, after) =>
      '<' :: (tag.toList ++ '>' :: (escape inner ++ '<' :: '/' :: (tag.toList ++ '>' ::
        renderInlineText after)))
  | none =>
      match text with
      | [] => []
      | c :: rest => escapeChar c ++ renderInlineText rest
termination_by text.length
decreasing_by
  · exact inlineMatch?_shorter _h
  · simp

/-! ## Loops over lines -/

/-- `len(closing) >= len(marker) and set(closing) == {marker[0]}` -/
def closes (marker line : Line) : Bool :=
  decide (marker.length ≤ (strip line).length) && strip line != [] &&
    (strip line).all fun c => some c == marker.head?

/-- The lines of a code block, and the lines after the one that closes it. -/
def takeCode (marker : Line) : List Line → List Line × List Line
  | [] => ([], [])
  | line :: rest =>
      if closes marker line then ([], rest)
      else (line :: (takeCode marker rest).1, (takeCode marker rest).2)

/-- The texts of the items of a list, and the lines after it. -/
def takeItems (ordered : Bool) : List Line → List Line × List Line
  | [] => ([], [])
  | line :: rest =>
      match listItem? line with
      | some (mark, text) =>
          if mark.isOrdered = ordered then
            (text :: (takeItems ordered rest).1, (takeItems ordered rest).2)
          else ([], line :: rest)
      | none => ([], line :: rest)

/-- The lines of a quotation, and the lines after it. -/
def takeQuote : List Line → List Line × List Line
  | [] => ([], [])
  | line :: rest =>
      if isQuote line then ((lstrip line).drop 2 :: (takeQuote rest).1, (takeQuote rest).2)
      else ([], line :: rest)

/-- The rows of a table, and the lines after it. -/
def takeRows (columns : Nat) : List Line → List (List Line) × List Line
  | [] => ([], [])
  | line :: rest =>
      if line.contains '|' && (tableCells line).length == columns then
        (tableCells line :: (takeRows columns rest).1, (takeRows columns rest).2)
      else ([], line :: rest)

/-! ## Blocks -/

def tagged (tag : String) (content : List Char) : List Char :=
  ("<" ++ tag ++ ">").toList ++ content ++ ("</" ++ tag ++ ">").toList

def renderCode (label : Line) (code : List Line) : List Char :=
  "<div class=\"code-block\">".toList ++
    (if label = [] then []
      else "<div class=\"code-language\">".toList ++ escape label ++ "</div>".toList) ++
    "<pre><code>".toList ++ escape (joinLines code) ++ "</code></pre></div>".toList

def renderHeading (marks text : Line) : List Char :=
  tagged ("h" ++ toString (min (marks.length + 1) 6)) (renderInlineText text)

/-- The number that an ordered list starts with, where it is not written `1`. -/
def startOf : ListMark → Option Nat
  | .bullet _ => none
  | .number digits => if digits = ['1'] then none else some (decimal digits)

def startText : Option Nat → String
  | some n => " start=\"" ++ toString n ++ "\""
  | none => ""

def renderList (mark : ListMark) (items : List Line) : List Char :=
  let tag := if mark.isOrdered then "ol" else "ul"
  ("<" ++ tag ++ startText (startOf mark) ++ ">").toList ++
    items.flatMap (fun item => tagged "li" (renderInlineText item)) ++ ("</" ++ tag ++ ">").toList

def renderTable (columns : List Line) (rows : List (List Line)) : List Char :=
  ("<div class=\"table-wrap\" role=\"region\" aria-label=\"Conversation table\" " ++
      "tabindex=\"0\"><table><thead><tr>").toList ++
    columns.flatMap (fun cell =>
      "<th scope=\"col\">".toList ++ renderInlineText cell ++ "</th>".toList) ++
    "</tr></thead><tbody>".toList ++
    rows.flatMap (fun cells =>
      tagged "tr" (cells.flatMap fun cell => tagged "td" (renderInlineText cell))) ++
    "</tbody></table></div>".toList

/-- `flush_paragraph` -/
def flushParagraph (paragraph : List Line) : List Char :=
  if paragraph = [] then [] else tagged "p" (renderInlineText (joinLines paragraph))

/-- The columns of a table that starts with a line, where the next line divides them. -/
def tableColumns? (line : Line) (rest : List Line) : Option (List Line) :=
  match rest with
  | next :: _ =>
      let columns := tableCells line
      let dividers := tableCells next
      if line.contains '|' && next.contains '|' && columns.length == dividers.length &&
          decide (1 < columns.length ∧ columns.length ≤ 64) && dividers.all isDivider then
        some columns
      else none
  | [] => none

/-- What one step of the loop adds to the output, the open paragraph behind it and the lines
that are left. -/
structure Step where
  output : List Char
  paragraph : List Line
  rest : List Line

def step (paragraph : List Line) (line : Line) (rest : List Line) : Step :=
  if strip line = [] then
    { output := flushParagraph paragraph, paragraph := [], rest }
  else
    match fence? line with
    | some (marker, label) =>
        { output := flushParagraph paragraph ++
            renderCode (strip label) (takeCode marker rest).1
          paragraph := []
          rest := (takeCode marker rest).2 }
    | none =>
        match heading? line with
        | some (marks, text) =>
            { output := flushParagraph paragraph ++ renderHeading marks text
              paragraph := []
              rest }
        | none =>
            if isRule line then
              { output := flushParagraph paragraph ++ "<hr>".toList, paragraph := [], rest }
            else
              match listItem? line with
              | some (mark, _) =>
                  { output := flushParagraph paragraph ++
                      renderList mark (takeItems mark.isOrdered (line :: rest)).1
                    paragraph := []
                    rest := (takeItems mark.isOrdered (line :: rest)).2 }
              | none =>
                  if isQuote line then
                    { output := flushParagraph paragraph ++ tagged "blockquote"
                        (renderInlineText (joinLines (takeQuote (line :: rest)).1))
                      paragraph := []
                      rest := (takeQuote (line :: rest)).2 }
                  else
                    match tableColumns? line rest with
                    | some columns =>
                        { output := flushParagraph paragraph ++
                            renderTable columns (takeRows columns.length rest.tail).1
                          paragraph := []
                          rest := (takeRows columns.length rest.tail).2 }
                    | none => { output := [], paragraph := paragraph ++ [line], rest }

/-! ## Every step advances -/

theorem takeCode_length (marker : Line) (lines : List Line) :
    (takeCode marker lines).2.length ≤ lines.length := by
  induction lines with
  | nil => exact Nat.le_refl 0
  | cons line rest ih =>
      unfold takeCode
      split
      · simp
      · simp only [List.length_cons]
        omega

theorem takeItems_length (ordered : Bool) (lines : List Line) :
    (takeItems ordered lines).2.length ≤ lines.length := by
  induction lines with
  | nil => exact Nat.le_refl 0
  | cons line rest ih =>
      unfold takeItems
      split
      · split
        · simp only [List.length_cons]
          omega
        · exact Nat.le_refl _
      · exact Nat.le_refl _

theorem takeQuote_length (lines : List Line) : (takeQuote lines).2.length ≤ lines.length := by
  induction lines with
  | nil => exact Nat.le_refl 0
  | cons line rest ih =>
      unfold takeQuote
      split
      · simp only [List.length_cons]
        omega
      · exact Nat.le_refl _

theorem takeRows_length (columns : Nat) (lines : List Line) :
    (takeRows columns lines).2.length ≤ lines.length := by
  induction lines with
  | nil => exact Nat.le_refl 0
  | cons line rest ih =>
      unfold takeRows
      split
      · simp only [List.length_cons]
        omega
      · exact Nat.le_refl _

/-- The first line is always taken. -/
theorem step_advances (paragraph : List Line) (line : Line) (rest : List Line) :
    (step paragraph line rest).rest.length ≤ rest.length := by
  unfold step
  split
  · exact Nat.le_refl _
  split
  · exact takeCode_length _ _
  split
  · exact Nat.le_refl _
  split
  · exact Nat.le_refl _
  split
  · next mark text hitem =>
      unfold takeItems
      rw [hitem]
      dsimp only
      rw [if_pos rfl]
      exact takeItems_length _ _
  split
  · next hquote =>
      unfold takeQuote
      rw [if_pos hquote]
      exact takeQuote_length _
  split
  · refine Nat.le_trans (takeRows_length _ _) ?_
    rw [List.length_tail]
    exact Nat.sub_le _ _
  · exact Nat.le_refl _

/-- The loop over the lines, with the paragraph that is open. -/
def renderLines (paragraph : List Line) : List Line → List Char
  | [] => flushParagraph paragraph
  | line :: rest =>
      let next := step paragraph line rest
      next.output ++ renderLines next.paragraph next.rest
termination_by lines => lines.length
decreasing_by exact Nat.lt_succ_of_le (step_advances paragraph line rest)

/-- `_render_message_markdown` -/
def renderMessageMarkdown (text : List Char) : List Char :=
  renderLines [] (splitlines text)

end AgentsServer.PublicShares
