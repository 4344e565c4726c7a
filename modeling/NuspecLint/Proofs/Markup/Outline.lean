import NuspecLint.Markup.Tree

/-!
# Outlines of manifests

Well-formed manifests, as they are before they are written down.

**Data.**  A manifest is a forest of elements, plain texts and CDATA sections.  Its names,
attributes and texts carry the proof that they can be written as they are.

**Writing.**  `Outline.renderAll` writes a forest down.  `Outline.layoutAll` is the forest again,
every node and every attribute with the place at which it is written.

**Results.**
* `Outline.forest_induction`: induction over forests, one case for each kind of outline.
-/

namespace NuspecLint
namespace Markup

open Text

/-- A name that can be written in a tag. -/
structure ElementName where
  chars : List Char
  ne_nil : chars ≠ []
  valid : ∀ c ∈ chars, isBlank c = false ∧ c ∉ ['/', '<', '>', '!', '?', '"', '\'', '=']

theorem ElementName.isTagNameChar_of_mem
    (name : ElementName)
    {c : Char}
    (hc : c ∈ name.chars) :
    isTagNameChar c = true := by
  obtain ⟨hblank, hmark⟩ := name.valid c hc
  simp_all [isTagNameChar, isQuote]

/-- An attribute whose value is written between quotes. -/
structure QuotedAttribute where
  name : List Char
  quote : Char
  value : List Char
  name_ne_nil : name ≠ []
  name_valid : ∀ c ∈ name, isBlank c = false ∧ c ∉ ['=', '"', '\'', '/', '<', '>']
  quote_valid : quote = '"' ∨ quote = '\''
  quote_not_mem : quote ∉ value

namespace QuotedAttribute

theorem isAttributeNameChar_of_mem
    (a : QuotedAttribute)
    {c : Char}
    (hc : c ∈ a.name) :
    isAttributeNameChar c = true := by
  obtain ⟨hblank, hmark⟩ := a.name_valid c hc
  simp_all [isAttributeNameChar, isQuote]

theorem isQuote_quote (a : QuotedAttribute) :
    isQuote a.quote = true := by
  rcases a.quote_valid with h | h <;> simp [isQuote, h]

def render (a : QuotedAttribute) : List Char :=
  a.name ++ '=' :: a.quote :: (a.value ++ [a.quote])

/-- The attributes of a tag are written with a space before each of them. -/
def renderAll : List QuotedAttribute → List Char
  | [] => []
  | a :: rest => ' ' :: (a.render ++ renderAll rest)

/-- The attributes whose writing starts at `offset`, each with the span it is written on. -/
def layoutAll (offset : Nat) : List QuotedAttribute → List Attribute
  | [] => []
  | a :: rest =>
      let stop := offset + 1 + a.render.length
      ⟨a.name, a.value, offset + 1, stop⟩ :: layoutAll stop rest

end QuotedAttribute

/-- A run of characters that stands for itself. -/
structure PlainText where
  chars : List Char
  ne_nil : chars ≠ []
  no_bracket : ∀ c ∈ chars, c ≠ '<'

/-- The content of a CDATA section. -/
structure CDataContent where
  chars : List Char
  not_infix : ¬ [']', ']', '>'] <:+: chars

/-- An element, a plain text or a CDATA section of a manifest. -/
inductive Outline where
  | element (name : ElementName) (attributes : List QuotedAttribute) (children : List Outline)
  | selfClosing (name : ElementName) (attributes : List QuotedAttribute)
  | text (run : PlainText)
  | cdata (content : CDataContent)

namespace Outline

/-- Whether an outline is a plain text. -/
def isText : Outline → Bool
  | text _ => true
  | _ => false

/-- Whether a plain text comes first. -/
def beginsWithText : List Outline → Bool
  | [] => false
  | o :: _ => o.isText

mutual

/-- Inside an outline no plain text follows directly on another. -/
def separated : Outline → Bool
  | element _ _ children => separatedAll children
  | _ => true

/-- In a forest, at any depth, no plain text follows directly on another. -/
def separatedAll : List Outline → Bool
  | [] => true
  | o :: rest => separated o && !(o.isText && beginsWithText rest) && separatedAll rest

end

def openTag (name : ElementName) (attributes : List QuotedAttribute) : List Char :=
  '<' :: (name.chars ++ (QuotedAttribute.renderAll attributes ++ ['>']))

def closeTag (name : ElementName) : List Char :=
  '<' :: '/' :: (name.chars ++ ['>'])

def emptyTag (name : ElementName) (attributes : List QuotedAttribute) : List Char :=
  '<' :: (name.chars ++ (QuotedAttribute.renderAll attributes ++ ['/', '>']))

mutual

def render : Outline → List Char
  | element name attributes children =>
      openTag name attributes ++ (renderAll children ++ closeTag name)
  | selfClosing name attributes => emptyTag name attributes
  | text run => run.chars
  | cdata content =>
      ['<', '!', '[', 'C', 'D', 'A', 'T', 'A', '['] ++ (content.chars ++ [']', ']', '>'])

def renderAll : List Outline → List Char
  | [] => []
  | o :: rest => render o ++ renderAll rest

end

mutual

/-- The node of the outline whose writing starts at `offset`. -/
def layout (offset : Nat) : Outline → Node
  | element name attributes children =>
      let startTagEnd := offset + (openTag name attributes).length
      let endTagStart := startTagEnd + (renderAll children).length
      .element
        ⟨name.chars, QuotedAttribute.layoutAll (offset + 1 + name.chars.length) attributes,
          offset, startTagEnd, some endTagStart, endTagStart + (closeTag name).length, false⟩
        (layoutAll startTagEnd children)
  | selfClosing name attributes =>
      let stop := offset + (emptyTag name attributes).length
      .element
        ⟨name.chars, QuotedAttribute.layoutAll (offset + 1 + name.chars.length) attributes,
          offset, stop, none, stop, true⟩
        []
  | text run => .text offset (offset + run.chars.length) run.chars
  -- The text of a CDATA section starts behind the nine characters that open the section.
  | cdata content => .text (offset + 9) (offset + 9 + content.chars.length) content.chars

/-- The nodes of the forest whose writing starts at `offset`. -/
def layoutAll (offset : Nat) : List Outline → List Node
  | [] => []
  | o :: rest => layout offset o :: layoutAll (offset + (render o).length) rest

end

/-- Induction over forests: into the children of an element, and on to later siblings. -/
@[elab_as_elim]
theorem forest_induction
    {motive : List Outline → Prop}
    (nil : motive [])
    (element : ∀ (name : ElementName) (attributes : List QuotedAttribute)
      (children rest : List Outline),
      motive children → motive rest → motive (.element name attributes children :: rest))
    (selfClosing : ∀ (name : ElementName) (attributes : List QuotedAttribute)
      (rest : List Outline),
      motive rest → motive (.selfClosing name attributes :: rest))
    (text : ∀ (run : PlainText) (rest : List Outline),
      motive rest → motive (.text run :: rest))
    (cdata : ∀ (content : CDataContent) (rest : List Outline),
      motive rest → motive (.cdata content :: rest))
    (forest : List Outline) :
    motive forest :=
  match forest with
  | [] => nil
  | .element name attributes children :: rest =>
      element name attributes children rest
        (forest_induction nil element selfClosing text cdata children)
        (forest_induction nil element selfClosing text cdata rest)
  | .selfClosing name attributes :: rest =>
      selfClosing name attributes rest
        (forest_induction nil element selfClosing text cdata rest)
  | .text run :: rest =>
      text run rest (forest_induction nil element selfClosing text cdata rest)
  | .cdata content :: rest =>
      cdata content rest (forest_induction nil element selfClosing text cdata rest)

end Outline

/-- A manifest that can be written down without loss. -/
structure Manifest where
  forest : List Outline
  separated : Outline.separatedAll forest = true

namespace Manifest

/-- The manifest as it is written. -/
def render (m : Manifest) : List Char :=
  Outline.renderAll m.forest

/-- The document tree of the manifest as it is written. -/
def tree (m : Manifest) : Node :=
  .document m.render.length (Outline.layoutAll 0 m.forest)

end Manifest

end Markup
end NuspecLint
