import Decisya.Text.Scan

/-!
# XML documents and their texts

Documents without a document type declaration, and which texts read as them. The content of an
element is kept as a chain: a node and the content after it. Comments and processing instructions
leave no trace in it. Of the names, the ASCII part is exact. Any character beyond ASCII is taken
as a name character, and a prefix need not be declared, so that more texts read as documents here
than a reader accepts.
-/

namespace Text.Xml

set_option autoImplicit false

abbrev Str := List Char

/-! ## Documents -/

structure QName where
  qualifier : Option Str
  localName : Str
  deriving DecidableEq

structure Attribute where
  name : QName
  value : Str
  deriving DecidableEq

inductive Content where
  | nil
  | text (value : Str) (rest : Content)
  | element (name : QName) (attributes : List Attribute) (children rest : Content)

structure Element where
  name : QName
  attributes : List Attribute
  children : Content

namespace Content

/-- The child elements. -/
def elements : Content → List Element
  | nil => []
  | text _ rest => rest.elements
  | element name attributes children rest => ⟨name, attributes, children⟩ :: rest.elements

/-- The elements at any depth, in the order of their start tags. -/
def descendants : Content → List Element
  | nil => []
  | text _ rest => rest.descendants
  | element name attributes children rest =>
    ⟨name, attributes, children⟩ :: (children.descendants ++ rest.descendants)

/-- The texts at any depth, joined. -/
def value : Content → Str
  | nil => []
  | text s rest => s ++ rest.value
  | element _ _ children rest => children.value ++ rest.value

end Content

namespace Element

/-- The value of the attribute of this name in no namespace. -/
def attribute? (e : Element) (name : Str) : Option Str :=
  (e.attributes.find? fun a => a.name = ⟨none, name⟩).map Attribute.value

def value (e : Element) : Str := e.children.value

def descendants (e : Element) : List Element := e.children.descendants

end Element

structure Document where
  root : Element

def Document.descendants (d : Document) : List Element := d.root :: d.root.descendants

/-! ## Characters, names and values -/

def isBlank (c : Char) : Bool := c == ' ' || c == '\t' || c == '\r' || c == '\n'

def isNameStart (c : Char) : Bool := c.isAlpha || c == '_' || 128 ≤ c.toNat

def isNameChar (c : Char) : Bool := isNameStart c || c.isDigit || c == '-' || c == '.'

def isName : Str → Bool
  | [] => false
  | c :: s => isNameStart c && s.all isNameChar

def QName.text (name : QName) : Str :=
  match name.qualifier with
  | none => name.localName
  | some qualifier => qualifier ++ ':' :: name.localName

def QName.IsValid (name : QName) : Prop :=
  isName name.localName = true ∧ ∀ qualifier, name.qualifier = some qualifier → isName qualifier = true

/-- A line ends with one line feed, however it was written. -/
def lineEnds : Str → Str
  | '\r' :: '\n' :: s => '\n' :: lineEnds s
  | '\r' :: s => '\n' :: lineEnds s
  | c :: s => c :: lineEnds s
  | [] => []

def digits? (base : ℕ) (digit : Char → Option ℕ) (s : Str) : Option ℕ :=
  if s = [] then none else s.foldlM (fun n c => (digit c).map fun d => base * n + d) 0

def decimalDigit (c : Char) : Option ℕ := if c.isDigit then some (c.toNat - 48) else none

def hexDigit (c : Char) : Option ℕ :=
  if c.isDigit then some (c.toNat - 48)
  else if 'a' ≤ c ∧ c ≤ 'f' then some (c.toNat - 87)
  else if 'A' ≤ c ∧ c ≤ 'F' then some (c.toNat - 55)
  else none

/-- What stands between `&` and `;`. -/
def reference? (s : Str) : Option Char :=
  match s with
  | '#' :: 'x' :: digits => (digits? 16 hexDigit digits).map Char.ofNat
  | '#' :: digits => (digits? 10 decimalDigit digits).map Char.ofNat
  | name =>
    if name = "lt".toList then some '<'
    else if name = "gt".toList then some '>'
    else if name = "amp".toList then some '&'
    else if name = "quot".toList then some '"'
    else if name = "apos".toList then some '\''
    else none

/-- A text with its references resolved. -/
inductive Resolves : Str → Str → Prop where
  | nil : Resolves [] []
  | char {c : Char} (hc : c ≠ '&') {s v : Str} (h : Resolves s v) : Resolves (c :: s) (c :: v)
  | reference {name : Str} (hname : ';' ∉ name) {c : Char} (hc : reference? name = some c) {s v : Str}
    (h : Resolves s v) : Resolves ('&' :: (name ++ ';' :: s)) (c :: v)

def attributeBlank (c : Char) : Char := if isBlank c then ' ' else c

/-! ## Reading -/

inductive ReadsAttributes : Str → List Attribute → Prop where
  | nil : ReadsAttributes [] []
  | cons {blank before after raw value s : Str} {name : QName} {quote : Char}
    {attributes : List Attribute} (hne : blank ≠ []) (hblank : blank.all isBlank = true)
    (hname : name.IsValid) (hbefore : before.all isBlank = true) (hafter : after.all isBlank = true)
    (hquote : quote = '"' ∨ quote = '\'') (hraw : quote ∉ raw ∧ '<' ∉ raw)
    (hvalue : Resolves ((lineEnds raw).map attributeBlank) value) (h : ReadsAttributes s attributes) :
    ReadsAttributes
      (blank ++ (name.text ++ (before ++ '=' :: (after ++ quote :: (raw ++ quote :: s)))))
      (⟨name, value⟩ :: attributes)

/-- A comment or a processing instruction. -/
inductive IsMisc : Str → Prop where
  | comment {s : Str} (h : ¬ "--".toList <:+: s ++ ['-']) :
    IsMisc ("<!--".toList ++ (s ++ "-->".toList))
  | instruction {target s : Str} (htarget : isName target = true)
    (hxml : target.map Char.toLower ≠ "xml".toList)
    (hs : s = [] ∨ ∃ c rest, s = c :: rest ∧ isBlank c = true) (h : ¬ "?>".toList <:+: s) :
    IsMisc ("<?".toList ++ (target ++ (s ++ "?>".toList)))

inductive ReadsContent : Str → Content → Prop where
  | nil : ReadsContent [] .nil
  | text {raw value s : Str} {rest : Content} (hne : raw ≠ []) (hraw : '<' ∉ raw)
    (hclose : ¬ "]]>".toList <:+: raw) (hvalue : Resolves (lineEnds raw) value)
    (h : ReadsContent s rest) : ReadsContent (raw ++ s) (.text value rest)
  | cdata {raw s : Str} {rest : Content} (hclose : ¬ "]]>".toList <:+: raw)
    (h : ReadsContent s rest) :
    ReadsContent ("<![CDATA[".toList ++ (raw ++ ("]]>".toList ++ s))) (.text (lineEnds raw) rest)
  | misc {s t : Str} {rest : Content} (hs : IsMisc s) (h : ReadsContent t rest) :
    ReadsContent (s ++ t) rest
  | empty {name : QName} {attributes : List Attribute} {tag blank s : Str} {rest : Content}
    (hname : name.IsValid) (htag : ReadsAttributes tag attributes)
    (hnodup : (attributes.map Attribute.name).Nodup) (hblank : blank.all isBlank = true)
    (h : ReadsContent s rest) :
    ReadsContent ('<' :: (name.text ++ (tag ++ (blank ++ ("/>".toList ++ s)))))
      (.element name attributes .nil rest)
  | element {name : QName} {attributes : List Attribute} {tag blank inner close s : Str}
    {children rest : Content} (hname : name.IsValid) (htag : ReadsAttributes tag attributes)
    (hnodup : (attributes.map Attribute.name).Nodup) (hblank : blank.all isBlank = true)
    (hinner : ReadsContent inner children) (hclose : close.all isBlank = true)
    (h : ReadsContent s rest) :
    ReadsContent
      ('<' :: (name.text ++ (tag ++ (blank ++ '>' ::
        (inner ++ ("</".toList ++ (name.text ++ (close ++ '>' :: s))))))))
      (.element name attributes children rest)

/-- What may stand before and after the root. -/
inductive IsProlog : Str → Prop where
  | nil : IsProlog []
  | blank {c : Char} (hc : isBlank c = true) {s : Str} (h : IsProlog s) : IsProlog (c :: s)
  | misc {s t : Str} (hs : IsMisc s) (h : IsProlog t) : IsProlog (s ++ t)

/-- The XML declaration, if any. Its pseudo-attributes are read like attributes. -/
inductive IsDeclaration : Str → Prop where
  | none : IsDeclaration []
  | some {s blank : Str} {attributes : List Attribute} (hs : ReadsAttributes s attributes)
    (hblank : blank.all isBlank = true) :
    IsDeclaration ("<?xml".toList ++ (s ++ (blank ++ "?>".toList)))

/-- The texts of a document. -/
inductive Reads : Str → Document → Prop where
  | document {declaration before body after : Str} {root : Element}
    (hdeclaration : IsDeclaration declaration) (hbefore : IsProlog before) (hafter : IsProlog after)
    (hbody : ReadsContent body (.element root.name root.attributes root.children .nil)) :
    Reads (declaration ++ (before ++ (body ++ after))) ⟨root⟩

/-! ## Start tags in the text -/

section Tags

open Scan

variable {starts : Str → Bool} (hmore : ∀ x z, starts x = true → starts (x ++ z) = true)
include hmore

theorem occurrences_tag (name : QName) (middle t : Str) :
    (if starts ('<' :: name.text) then 1 else 0) + occurrences starts t ≤
      occurrences starts ('<' :: (name.text ++ (middle ++ t))) := by
  have hrest : occurrences starts t ≤ occurrences starts (name.text ++ (middle ++ t)) := by
    rw [← List.append_assoc]
    exact occurrences_le_append starts _ t
  rw [occurrences]
  split
  · rename_i h
    have hstarts : starts ('<' :: (name.text ++ (middle ++ t))) = true := hmore _ (middle ++ t) h
    rw [if_pos hstarts]
    omega
  · omega

/-- The text has at least as many tags that start so as there are elements of such names. -/
theorem ReadsContent.countP_le {s : Str} {c : Content} (h : ReadsContent s c) :
    (c.descendants.countP fun e => starts ('<' :: e.name.text)) ≤ occurrences starts s := by
  induction h with
  | nil => exact Nat.zero_le _
  | @text raw _ s _ _ _ _ _ _ ih => exact ih.trans (occurrences_le_append starts raw s)
  | @cdata raw s _ _ _ ih =>
    rw [← List.append_assoc, ← List.append_assoc]
    exact ih.trans (occurrences_le_append starts _ s)
  | @misc s t _ _ _ ih => exact ih.trans (occurrences_le_append starts s t)
  | @empty name _ tag blank s rest _ _ _ _ _ ih =>
    have htag := occurrences_tag hmore name (tag ++ (blank ++ "/>".toList)) s
    simp only [List.append_assoc] at htag
    rw [Content.descendants, Content.descendants, List.nil_append, List.countP_cons]
    dsimp only
    omega
  | @element name _ tag blank inner close s children rest _ _ _ _ _ _ _ ihinner ih =>
    have htag := occurrences_tag hmore name (tag ++ (blank ++ ['>']))
      (inner ++ (("</".toList ++ (name.text ++ (close ++ ['>']))) ++ s))
    have hinner := occurrences_append hmore inner
      (("</".toList ++ (name.text ++ (close ++ ['>']))) ++ s)
    have hrest := occurrences_le_append starts ("</".toList ++ (name.text ++ (close ++ ['>']))) s
    simp only [List.append_assoc, List.singleton_append] at htag hinner hrest
    rw [Content.descendants, List.countP_cons, List.countP_append]
    dsimp only
    omega

theorem Reads.countP_le {s : Str} {d : Document} (h : Reads s d) :
    (d.descendants.countP fun e => starts ('<' :: e.name.text)) ≤ occurrences starts s := by
  cases h with
  | @document declaration before body after root _ _ _ hbody =>
    cases root
    have hcount := hbody.countP_le hmore
    rw [Content.descendants, Content.descendants, List.append_nil] at hcount
    have hbefore := occurrences_le_append starts declaration (before ++ (body ++ after))
    have hmiddle := occurrences_le_append starts before (body ++ after)
    have hafter := occurrences_append hmore body after
    rw [Document.descendants, Element.descendants]
    dsimp only at hcount ⊢
    omega

end Tags

theorem Reads.tag_infix {s : Str} {d : Document} (h : Reads s d) {e : Element}
    (he : e ∈ d.descendants) : ('<' :: e.name.text) <:+: s := by
  have hmore : ∀ x z, ('<' :: e.name.text).isPrefixOf x = true →
      ('<' :: e.name.text).isPrefixOf (x ++ z) = true := by
    intro x z hx
    rw [List.isPrefixOf_iff_prefix] at hx ⊢
    exact hx.trans (List.prefix_append x z)
  have hcount := h.countP_le hmore
  have hself : ('<' :: e.name.text).isPrefixOf ('<' :: e.name.text) = true :=
    List.isPrefixOf_iff_prefix.mpr (List.prefix_refl _)
  have hpos := List.countP_pos_iff
    (p := fun f : Element => ('<' :: e.name.text).isPrefixOf ('<' :: f.name.text)).mpr ⟨e, he, hself⟩
  obtain ⟨t, hsuffix, hstart⟩ := Scan.exists_of_occurrences_pos (lt_of_lt_of_le hpos hcount)
  exact (List.isPrefixOf_iff_prefix.mp hstart).isInfix.trans hsuffix.isInfix

end Text.Xml
