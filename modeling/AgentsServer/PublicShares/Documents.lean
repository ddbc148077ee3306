import AgentsServer.PublicShares.Markdown

/-!
# Documents of messages

What a message says, apart from how it is spelled and how it is shown. `Spells`
says which lines spell a document: every line is blank or belongs to one block,
and what it does not contribute to the block are marks. `Block.nodes` are the
nodes that a block is shown as.
-/

namespace AgentsServer.PublicShares

open Library Html

/-! ## What is shown -/

/-- The tags of the renderer. -/
inductive Tag where
  | p | h2 | h3 | h4 | h5 | h6 | ul | ol | li | blockquote | pre | code | div
  | table | thead | tbody | tr | th | td | strong | em | hr
  deriving DecidableEq

def Tag.name : Tag → String
  | .p => "p"
  | .h2 => "h2"
  | .h3 => "h3"
  | .h4 => "h4"
  | .h5 => "h5"
  | .h6 => "h6"
  | .ul => "ul"
  | .ol => "ol"
  | .li => "li"
  | .blockquote => "blockquote"
  | .pre => "pre"
  | .code => "code"
  | .div => "div"
  | .table => "table"
  | .thead => "thead"
  | .tbody => "tbody"
  | .tr => "tr"
  | .th => "th"
  | .td => "td"
  | .strong => "strong"
  | .em => "em"
  | .hr => "hr"

/-- Marks around a part of a text. -/
inductive Mark where
  | code
  | strong
  | em
  deriving DecidableEq

def Mark.sign : Mark → List Char
  | .code => ['`']
  | .strong => ['*', '*']
  | .em => ['*']

def Mark.tag : Mark → Tag
  | .code => .code
  | .strong => .strong
  | .em => .em

/-- A part of a text. -/
inductive Inline where
  | plain (c : Char)
  | marked (mark : Mark) (inner : List Char)

def Inline.source : Inline → List Char
  | .plain c => [c]
  | .marked mark inner => mark.sign ++ inner ++ mark.sign

def Inline.node : Inline → Node Tag
  | .plain c => .text [c]
  | .marked mark inner => .element mark.tag [] [.text inner]

/-- A text with its marks. -/
def source (text : List Inline) : List Char :=
  text.flatMap Inline.source

inductive Block where
  | paragraph (text : List Inline)
  | code (label content : List Char)
  | heading (depth : Nat) (text : List Inline)
  | rule
  | list (mark : ListMark) (items : List (List Inline))
  | quote (text : List Inline)
  | table (columns : List (List Inline)) (rows : List (List (List Inline)))

/-- A heading of one to six marks. -/
def headingTag : Nat → Tag
  | 0 | 1 => .h2
  | 2 => .h3
  | 3 => .h4
  | 4 => .h5
  | _ => .h6

def classed (name : String) : List (String × List Char) :=
  [("class", name.toList)]

def startAttributes : Option Nat → List (String × List Char)
  | none => []
  | some n => [("start", (toString n).toList)]

def tableAttributes : List (String × List Char) :=
  [("class", "table-wrap".toList), ("role", "region".toList),
    ("aria-label", "Conversation table".toList), ("tabindex", "0".toList)]

def textNode (tag : Tag) (attributes : List (String × List Char)) (text : List Inline) : Node Tag :=
  .element tag attributes (text.map Inline.node)

def Block.node : Block → Node Tag
  | .paragraph text => textNode .p [] text
  | .code label content =>
      .element .div (classed "code-block")
        ((if label = [] then [] else [.element .div (classed "code-language") [.text label]]) ++
          [.element .pre [] [.element .code [] [.text content]]])
  | .heading depth text => textNode (headingTag depth) [] text
  | .rule => .void .hr
  | .list mark items =>
      .element (if mark.isOrdered then .ol else .ul) (startAttributes (startOf mark))
        (items.map (textNode .li []))
  | .quote text => textNode .blockquote [] text
  | .table columns rows =>
      .element .div tableAttributes [.element .table []
        [.element .thead [] [.element .tr []
            (columns.map (textNode .th [("scope", "col".toList)]))],
          .element .tbody []
            (rows.map fun cells => .element .tr [] (cells.map (textNode .td [])))]]

def nodes (doc : List Block) : List (Node Tag) :=
  doc.map Block.node

/-- The attributes that do not depend on any text, and the number that an ordered list starts
with. -/
inductive Fixed : Token Tag → Prop
  | text (content : List Char) : Fixed (.text content)
  | void (tag : Tag) : Fixed (.void tag)
  | closing (tag : Tag) : Fixed (.closing tag)
  | plain (tag : Tag) : Fixed (.opening tag [])
  | codeBlock : Fixed (.opening .div (classed "code-block"))
  | codeLanguage : Fixed (.opening .div (classed "code-language"))
  | tableWrap : Fixed (.opening .div tableAttributes)
  | column : Fixed (.opening .th [("scope", "col".toList)])
  | start (n : Nat) : Fixed (.opening .ol [("start", (toString n).toList)])

/-! ## How it is spelled -/

def Blank (text : List Char) : Prop :=
  ∀ c ∈ text, isspace c = true

/-- A text between blanks. -/
structure Padded (line text : List Char) : Prop where
  split : ∃ before after, Blank before ∧ Blank after ∧ line = before ++ text ++ after

/-- The line that opens a code block. -/
structure Opens (line marker label : Line) : Prop where
  indent : ∃ n ≤ 3, ∃ rest, line = List.replicate n ' ' ++ (marker ++ rest) ∧ Padded rest label
  marker : ∃ n, 3 ≤ n ∧ (marker = List.replicate n '`' ∨ marker = List.replicate n '~')

/-- The line that closes it: the same mark, at least as often. -/
structure Closes (line marker : Line) : Prop where
  split : ∃ n, marker.length ≤ n ∧ ∃ c ∈ marker, Padded line (List.replicate n c)

/-- The line of a heading. -/
structure Heads (line : Line) (depth : Nat) (text : List Char) : Prop where
  bounds : 1 ≤ depth ∧ depth ≤ 6
  split : ∃ n ≤ 3, ∃ blanks ≠ [], Blank blanks ∧
    line = List.replicate n ' ' ++ (List.replicate depth '#' ++ (blanks ++ text))

/-- How the mark of a list item is written. -/
inductive Written : ListMark → List Char → Prop
  | bullet {c : Char} : c ∈ ['-', '+', '*'] → Written (.bullet c) [c]
  | number {digits : List Char} {dot : Char} : (∀ c ∈ digits, c.isDigit = true) →
      1 ≤ digits.length → digits.length ≤ 9 → dot ∈ ['.', ')'] →
      Written (.number digits) (digits ++ [dot])

/-- The line of a list item. -/
structure Item (line : Line) (mark : ListMark) (text : List Char) : Prop where
  split : ∃ n ≤ 3, ∃ written, Written mark written ∧ ∃ blanks ≠ [], Blank blanks ∧
    line = List.replicate n ' ' ++ (written ++ (blanks ++ text))

/-- A line of a quotation. -/
structure Quotes (line : Line) (text : List Char) : Prop where
  split : ∃ before, Blank before ∧ line = before ++ ('>' :: ' ' :: text)

/-- A row of a table: the cells between bars, which may stand outside, too. -/
structure Row (line : Line) (cells : List (List Char)) : Prop where
  split : ∃ inner left right, Padded line inner ∧ (∀ c ∈ left ++ right, c = '|') ∧
    ∃ parts, inner = left ++ (['|'].intercalate parts ++ right) ∧
      List.Forall₂ (fun part cell => '|' ∉ part ∧ Padded part cell) parts cells

/-- The line below the columns of a table has nothing but marks. -/
def Divides (line : Line) : Prop :=
  ∀ c ∈ line, c ∈ ['-', ':', '|'] ∨ isspace c = true

/-- The lines that spell a block. -/
inductive Spelled : List Line → Block → Prop
  | paragraph {lines : List Line} {text : List Inline} : lines ≠ [] →
      source text = joinLines lines → Spelled lines (.paragraph text)
  | code {opening marker label : Line} {lines closing : List Line} : Opens opening marker label →
      closing.length ≤ 1 → (∀ line ∈ closing, Closes line marker) →
      Spelled (opening :: (lines ++ closing)) (.code label (joinLines lines))
  | heading {line : Line} {depth : Nat} {text : List Inline} : Heads line depth (source text) →
      Spelled [line] (.heading depth text)
  | rule {line : Line} {mark : Char} : mark ∈ ['-', '*', '_'] → Padded line [mark, mark, mark] →
      Spelled [line] .rule
  | list {lines : List Line} {mark : ListMark} {text : List Inline}
      {more : List (ListMark × List Inline)} :
      (∀ entry ∈ more, entry.1.isOrdered = mark.isOrdered) →
      List.Forall₂ (fun line entry => Item line entry.1 (source entry.2)) lines
        ((mark, text) :: more) →
      Spelled lines (.list mark (text :: more.map Prod.snd))
  | quote {lines texts : List Line} {text : List Inline} : lines ≠ [] →
      List.Forall₂ Quotes lines texts → source text = joinLines texts →
      Spelled lines (.quote text)
  | table {header divider : Line} {lines : List Line} {columns : List (List Inline)}
      {rows : List (List (List Inline))} : Row header (columns.map source) → Divides divider →
      List.Forall₂ (fun line cells => Row line (cells.map source) ∧
        cells.length = columns.length) lines rows →
      Spelled (header :: divider :: lines) (.table columns rows)

/-- The lines of a text, block by block. -/
inductive Spells : List Line → List Block → Prop
  | nil : Spells [] []
  | blank {line : Line} {rest : List Line} {doc : List Block} : Blank line → Spells rest doc →
      Spells (line :: rest) doc
  | block {lines rest : List Line} {block : Block} {doc : List Block} : Spelled lines block →
      Spells rest doc → Spells (lines ++ rest) (block :: doc)

end AgentsServer.PublicShares
