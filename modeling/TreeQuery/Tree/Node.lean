/-!
Nodes of a document. What a node is (its content) is told apart from where it stands: its parent,
its first and last child and its neighbours.
-/
namespace TreeQuery

/-- The number of a node. Numbers follow document order; the document node has number zero. -/
abbrev NodeId := Nat

inductive NodeKind where
  | document | element | attr | binding | text | cdata | comment | instruction | doctype
  | declaration
deriving DecidableEq, Repr

namespace NodeKind

def name : NodeKind → String
  | document => "document"
  | element => "element"
  | attr => "attribute"
  | binding => "namespace"
  | text => "text"
  | cdata => "cdata"
  | comment => "comment"
  | instruction => "processing-instruction"
  | doctype => "doctype"
  | declaration => "xml-declaration"

/-- Attributes and namespace bindings belong to an element and are not among its children. -/
def isOwned : NodeKind → Bool
  | attr | binding => true
  | _ => false

/-- Text as such or in a marked section. -/
def isText : NodeKind → Bool
  | text | cdata => true
  | _ => false

end NodeKind

/-- A name: prefix and local part as written, and the URI that the prefix stands for. The empty
text stands for a prefix or a URI that is not there. -/
structure QName where
  pfx : String
  localPart : String
  uri : String
deriving DecidableEq, Repr

namespace QName

/-- Cuts a written name at its first colon into prefix and local part. -/
def split (text : String) : String × String :=
  let cs := text.toList
  match cs.dropWhile (· != ':') with
  | [] => ("", text)
  | _ :: localPart => (String.ofList (cs.takeWhile (· != ':')), String.ofList localPart)

/-- Prefix and local part are the two sides of the first colon of a written name; without a colon
all of it is the local part. -/
def Parts (text pfx localPart : String) : Prop :=
  (':' ∉ text.toList ∧ pfx = "" ∧ localPart = text) ∨
    (':' ∉ pfx.toList ∧ text = pfx ++ ":" ++ localPart)

theorem toList_colon (pfx localPart : String) :
    (pfx ++ ":" ++ localPart).toList = pfx.toList ++ ':' :: localPart.toList := by
  simp

theorem split_of_not_mem {text : String} (h : ':' ∉ text.toList) : split text = ("", text) := by
  have hdrop : text.toList.dropWhile (· != ':') = [] := by
    have hother : ∀ c ∈ text.toList, (c != ':') = true := fun c hc =>
      bne_iff_ne.mpr fun heq => h (heq ▸ hc)
    simpa using @List.dropWhile_append_of_pos _ _ _ [] hother
  rw [split, hdrop]

theorem split_colon {pfx : String} (h : ':' ∉ pfx.toList) (localPart : String) :
    split (pfx ++ ":" ++ localPart) = (pfx, localPart) := by
  have hpfx : ∀ c ∈ pfx.toList, (c != ':') = true := fun c hc =>
    bne_iff_ne.mpr fun heq => h (heq ▸ hc)
  have hdrop : (pfx.toList ++ ':' :: localPart.toList).dropWhile (· != ':') =
      ':' :: localPart.toList := by
    rw [List.dropWhile_append_of_pos hpfx]
    rfl
  have htake : (pfx.toList ++ ':' :: localPart.toList).takeWhile (· != ':') = pfx.toList := by
    rw [List.takeWhile_append_of_pos hpfx]
    simp
  rw [split, toList_colon, hdrop, htake]
  simp

theorem split_eq_iff {text pfx localPart : String} :
    split text = (pfx, localPart) ↔ Parts text pfx localPart := by
  constructor
  · intro h
    by_cases hcolon : ':' ∈ text.toList
    · obtain ⟨before, behind, htext, hnew⟩ := List.eq_append_cons_of_mem hcolon
      have hcut : text = String.ofList before ++ ":" ++ String.ofList behind := by
        rw [← String.toList_inj, toList_colon, htext]
        simp
      have hbefore : ':' ∉ (String.ofList before).toList := by simpa using hnew
      rw [hcut, split_colon hbefore] at h
      cases h
      exact .inr ⟨hbefore, hcut⟩
    · rw [split_of_not_mem hcolon] at h
      cases h
      exact .inl ⟨hcolon, rfl, rfl⟩
  · rintro (⟨h, rfl, rfl⟩ | ⟨h, rfl⟩)
    · exact split_of_not_mem h
    · exact split_colon h localPart

end QName

inductive Content where
  | document
  /-- An element with so many namespace bindings and attributes right behind it. -/
  | element (name : QName) (bindings attrs : Nat)
  | attr (name : QName) (value : String)
  | binding (pfx uri : String)
  | text (value : String)
  | cdata (value : String)
  | comment (value : String)
  | instruction (target value : String)
  | doctype (value : String)
  | declaration (value : String)
deriving DecidableEq, Repr

/-- A text that is there only if it is not empty. -/
def nonEmpty? (text : String) : Option String := if text = "" then none else some text

namespace Content

def kind : Content → NodeKind
  | document => .document
  | element .. => .element
  | attr .. => .attr
  | binding .. => .binding
  | text _ => .text
  | cdata _ => .cdata
  | comment _ => .comment
  | instruction .. => .instruction
  | doctype _ => .doctype
  | declaration _ => .declaration

/-- The local part of a name, the prefix of a binding, or the target of an instruction. -/
def localName? : Content → Option String
  | element name _ _ => some name.localPart
  | attr name _ => some name.localPart
  | binding pfx _ => some pfx
  | instruction target _ => some target
  | _ => none

def pfx? : Content → Option String
  | element name _ _ => nonEmpty? name.pfx
  | attr name _ => nonEmpty? name.pfx
  | _ => none

def uri? : Content → Option String
  | element name _ _ => nonEmpty? name.uri
  | attr name _ => nonEmpty? name.uri
  | _ => none

/-- The text that a node itself holds; a binding holds its URI. -/
def value? : Content → Option String
  | document | element .. => none
  | attr _ value => some value
  | binding _ uri => some uri
  | text value | cdata value | comment value | instruction _ value | doctype value
  | declaration value => some value

end Content

structure Node where
  content : Content
  parent : Option NodeId
  firstChild : Option NodeId := none
  lastChild : Option NodeId := none
  prevSibling : Option NodeId := none
  nextSibling : Option NodeId := none
  /-- How many nodes lie on the way up, in a 16-bit word. -/
  depth : UInt16
deriving DecidableEq

end TreeQuery
