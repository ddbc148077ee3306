import Mathlib.Data.List.Basic
import Mathlib.Tactic.Common
import Mathlib.Data.Bool.AllAny

/-!
# Markup with escaped text

A document is a tree over a type of tags. Its texts and attribute values are
escaped when it is printed, so its tags stand out as the only markup. Printed
tags nest because trees do: what a reader of tokens sees is balanced, and a
text that was escaped is read back as it was.
-/

namespace AgentsServer.Library.Html

/-- The entity of a character that markup gives a meaning. -/
def entity? (c : Char) : Option (List Char) :=
  if c = '&' then some ['&', 'a', 'm', 'p', ';']
  else if c = '<' then some ['&', 'l', 't', ';']
  else if c = '>' then some ['&', 'g', 't', ';']
  else if c = '"' then some ['&', 'q', 'u', 'o', 't', ';']
  else if c = '\'' then some ['&', '#', 'x', '2', '7', ';']
  else none

/-- One character of an escaped text. -/
def escapeChar (c : Char) : List Char :=
  (entity? c).getD [c]

/-- `html.escape(text, quote=True)` -/
def escape (text : List Char) : List Char :=
  text.flatMap escapeChar

/-- A text without a character of markup but in entities. -/
inductive Escaped : List Char → Prop
  | nil : Escaped []
  | plain {c : Char} {rest : List Char} : entity? c = none → Escaped rest → Escaped (c :: rest)
  | entity {c : Char} {e rest : List Char} : entity? c = some e → Escaped rest →
      Escaped (e ++ rest)

section Escape

variable {c : Char} {a b : List Char}

theorem escape_cons (c : Char) (text : List Char) : escape (c :: text) = escapeChar c ++ escape text :=
  List.flatMap_cons

theorem escaped_escape (text : List Char) : Escaped (escape text) := by
  induction text with
  | nil => exact .nil
  | cons c text ih =>
      rw [escape_cons, escapeChar]
      cases h : entity? c with
      | none => exact .plain h ih
      | some e => exact .entity h ih

/-- A text as it is read back from its entities. -/
def unescape : List Char → List Char
  | '&' :: 'a' :: 'm' :: 'p' :: ';' :: rest => '&' :: unescape rest
  | '&' :: 'l' :: 't' :: ';' :: rest => '<' :: unescape rest
  | '&' :: 'g' :: 't' :: ';' :: rest => '>' :: unescape rest
  | '&' :: 'q' :: 'u' :: 'o' :: 't' :: ';' :: rest => '"' :: unescape rest
  | '&' :: '#' :: 'x' :: '2' :: '7' :: ';' :: rest => '\'' :: unescape rest
  | c :: rest => c :: unescape rest
  | [] => []

theorem unescape_escapeChar (c : Char) (rest : List Char) :
    unescape (escapeChar c ++ rest) = c :: unescape rest := by
  unfold escapeChar entity?
  by_cases ampersand : c = '&'
  · subst ampersand
    rfl
  by_cases less : c = '<'
  · subst less
    rfl
  by_cases greater : c = '>'
  · subst greater
    rfl
  by_cases double : c = '"'
  · subst double
    rfl
  by_cases single : c = '\''
  · subst single
    rfl
  · rw [if_neg ampersand, if_neg less, if_neg greater, if_neg double, if_neg single]
    simp [unescape, ampersand]

theorem unescape_escape (text : List Char) : unescape (escape text) = text := by
  induction text with
  | nil => rfl
  | cons c text ih => rw [escape_cons, unescape_escapeChar, ih]

end Escape

/-! ## Trees -/

/-- A node of a document. -/
inductive Node (T : Type) where
  | text (content : List Char)
  | void (tag : T)
  | element (tag : T) (attributes : List (String × List Char)) (children : List (Node T))

/-- What a reader sees of a document. -/
inductive Token (T : Type) where
  | text (content : List Char)
  | void (tag : T)
  | opening (tag : T) (attributes : List (String × List Char))
  | closing (tag : T)

/-- Every tag that is opened is closed, the last one first. -/
inductive Balanced {T : Type} : List (Token T) → Prop
  | nil : Balanced []
  | text (content : List Char) {rest : List (Token T)} : Balanced rest →
      Balanced (.text content :: rest)
  | void (tag : T) {rest : List (Token T)} : Balanced rest → Balanced (.void tag :: rest)
  | element (tag : T) (attributes : List (String × List Char)) {inner rest : List (Token T)} :
      Balanced inner → Balanced rest →
      Balanced (.opening tag attributes :: (inner ++ .closing tag :: rest))

section Trees

variable {T : Type}

mutual

def tokens : Node T → List (Token T)
  | .text content => [.text content]
  | .void tag => [.void tag]
  | .element tag attributes children =>
      .opening tag attributes :: (tokensOf children ++ [.closing tag])

def tokensOf : List (Node T) → List (Token T)
  | [] => []
  | node :: rest => tokens node ++ tokensOf rest

end

theorem tokensOf_cons (node : Node T) (rest : List (Node T)) :
    tokensOf (node :: rest) = tokens node ++ tokensOf rest := rfl

theorem tokensOf_singleton (node : Node T) : tokensOf [node] = tokens node :=
  List.append_nil _

theorem tokensOf_append (a b : List (Node T)) : tokensOf (a ++ b) = tokensOf a ++ tokensOf b := by
  induction a with
  | nil => rfl
  | cons node rest ih =>
      rw [List.cons_append, tokensOf_cons, tokensOf_cons, ih, List.append_assoc]

theorem mem_tokensOf {token : Token T} {nodes : List (Node T)} :
    token ∈ tokensOf nodes ↔ ∃ node ∈ nodes, token ∈ tokens node := by
  induction nodes with
  | nil =>
      constructor
      · intro h
        cases h
      · rintro ⟨node, hnode, -⟩
        cases hnode
  | cons node rest ih =>
      rw [tokensOf_cons, List.mem_append, ih]
      simp only [List.mem_cons, exists_eq_or_imp]

theorem Balanced.append {a b : List (Token T)} (ha : Balanced a) (hb : Balanced b) :
    Balanced (a ++ b) := by
  induction ha with
  | nil => exact hb
  | text content _ ih => exact .text content ih
  | void tag _ ih => exact .void tag ih
  | element tag attributes inner _ _ ih =>
      rw [List.cons_append, List.append_assoc, List.cons_append]
      exact .element tag attributes inner ih

mutual

theorem balanced_tokens : (node : Node T) → Balanced (tokens node)
  | .text content => .text content .nil
  | .void tag => .void tag .nil
  | .element tag attributes children =>
      .element tag attributes (balanced_tokensOf children) .nil

theorem balanced_tokensOf : (nodes : List (Node T)) → Balanced (tokensOf nodes)
  | [] => .nil
  | node :: rest => (balanced_tokens node).append (balanced_tokensOf rest)

end

/-! ## Printing -/

variable (name : T → String)

/-- An attribute with its value between quotes. -/
def assignment (a : String × List Char) : List Char :=
  ' ' :: (a.1.toList ++ '=' :: '"' :: (escape a.2 ++ ['"']))

def Token.print : Token T → List Char
  | .text content => escape content
  | .void tag => '<' :: ((name tag).toList ++ ['>'])
  | .opening tag attributes => '<' :: ((name tag).toList ++ attributes.flatMap assignment ++ ['>'])
  | .closing tag => '<' :: '/' :: ((name tag).toList ++ ['>'])

def print (nodes : List (Node T)) : List Char :=
  (tokensOf nodes).flatMap (Token.print name)

theorem print_append (a b : List (Node T)) : print name (a ++ b) = print name a ++ print name b := by
  unfold print
  rw [tokensOf_append, List.flatMap_append]

theorem print_cons (node : Node T) (rest : List (Node T)) :
    print name (node :: rest) = print name [node] ++ print name rest :=
  print_append name [node] rest

theorem print_text (content : List Char) :
    print name [.text content] = escape content :=
  List.flatMap_singleton _ _

theorem print_element (tag : T) (attributes : List (String × List Char))
    (children : List (Node T)) :
    print name [.element tag attributes children] =
      (Token.opening tag attributes).print name ++ print name children ++
        (Token.closing tag).print name := by
  unfold print
  rw [tokensOf_singleton]
  change (Token.opening tag attributes :: (tokensOf children ++ [Token.closing tag])).flatMap
    (Token.print name) = _
  rw [List.flatMap_cons, List.flatMap_append, List.flatMap_singleton, List.append_assoc]

theorem print_map {α : Type} (f : α → Node T) (items : List α) :
    print name (items.map f) = items.flatMap fun item => print name [f item] := by
  induction items with
  | nil => rfl
  | cons item rest ih => rw [List.map_cons, print_cons, ih, List.flatMap_cons]

end Trees

end AgentsServer.Library.Html
