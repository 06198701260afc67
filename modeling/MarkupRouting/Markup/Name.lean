import MarkupRouting.Markup.Attributes
import MarkupRouting.Markup.Uri

/-!
# Names and namespaces

Names in a document may have a part in front of a colon that stands for a namespace, which is
declared among the attributes of the element or of one around it. What is amiss with namespaces does
not make a document unreadable: names are taken as far as they can be, and it is noted that
something was amiss.

* **Naming** — reading of names, with the note.
* **QName**, **QName.read** — a name in two parts.
* **Scope**, **Scope.declareAll** — the namespaces declared for an element.
* **Scope.elementName**, **attributeName** — a name with its namespace in braces in front.
* **Scope.enter** — the name and the attributes of a start tag, and the scope inside it.
-/

namespace MarkupRouting.Markup

/-- Reading of names; the state says whether something was amiss with namespaces. -/
abbrev Naming := StateT Bool (Except Flaw)

namespace Naming

/-- It is noted that something was amiss. -/
def amiss : Naming Unit := set true

/-- It is noted that something was amiss unless a condition holds. -/
def expect (condition : Bool) : Naming Unit := if condition then pure () else amiss

/-- The document is refused unless a condition holds. -/
def require (condition : Bool) : Naming Unit :=
  if condition then pure () else throw .malformed

end Naming

/-- How much of a document is kept together. -/
structure Limits where
  /-- The number of bytes that a part of a name may have. -/
  name : Nat
  /-- The number of bytes that may be kept of what was read. -/
  kept : Nat
  deriving DecidableEq, Repr

/-- The limits of a document of the usual size, or of one that may be larger. -/
def Limits.of (huge : Bool) : Limits :=
  if huge then ⟨10000000, 1000000000⟩ else ⟨50000, 10000000⟩

/-- A name in two parts. -/
structure QName where
  /-- What stands in front of the colon. -/
  space : Option String
  /-- What stands behind it. -/
  base : String
  deriving DecidableEq, Repr

namespace QName

/-- A name taken apart at its colon, if both parts are names. -/
def split? (cs : List Char) : Option QName :=
  let front := cs.takeWhile (· != ':')
  match cs.dropWhile (· != ':') with
  | [] => if isSimpleName front then some ⟨none, String.ofList front⟩ else none
  | _ :: back =>
    if isSimpleName front && isSimpleName back then
      some ⟨some (String.ofList front), String.ofList back⟩
    else none

/-- A name taken apart. Where its colons do not leave two names the whole is the name, which is
amiss. No part may be too long. -/
def read (limits : Limits) (cs : List Char) : Naming QName := do
  let q ← match split? cs with
    | some q => pure q
    | none => do
      Naming.amiss
      pure ⟨none, String.ofList cs⟩
  Naming.require ((q.space.getD "").utf8ByteSize ≤ limits.name && q.base.utf8ByteSize ≤ limits.name)
  return q

/-- The namespace that an attribute of this name declares: of all names without one, or of names
with the given part in front. -/
def declares? (q : QName) : Option (Option String) :=
  match q.space with
  | none => if q.base == "xmlns" then some none else none
  | some space => if space == "xmlns" then some (some q.base) else none

end QName

/-- The namespaces declared for an element, the innermost declaration first. -/
abbrev Scope := List (Option String × String)

namespace Scope

/-- The namespace that is declared in every document. -/
def reserved : String := "http://www.w3.org/XML/1998/namespace"

/-- The namespace of declarations. -/
def declaring : String := "http://www.w3.org/2000/xmlns/"

/-- The namespaces outside the root element. -/
def outer : Scope := [(some "xml", reserved)]

/-- The namespace of a name with the given part in front, or with none; an empty one is no
namespace. A part in front for which none is declared is amiss. -/
def find (s : Scope) (space : Option String) : Naming (Option String) :=
  match s.lookup space, space with
  | some uri, _ => pure (if uri.isEmpty then none else some uri)
  | none, none => pure none
  | none, some _ => do
    Naming.amiss
    return none

/-- A name with its namespace in braces in front. -/
def bracedName (uri : Option String) (base : String) : String :=
  match uri with
  | some uri => "\x7b" ++ uri ++ "\x7d" ++ base
  | none => base

/-- The name of an element with its namespace. -/
def elementName (s : Scope) (q : QName) : Naming String := do
  return bracedName (← s.find q.space) q.base

/-- The name of an attribute with its namespace; without a part in front it has none. -/
def attributeName (s : Scope) (q : QName) : Naming String := do
  match q.space with
  | none => return q.base
  | some space => return bracedName (← s.find (some space)) q.base

/-- A declaration that has no effect: it is about a reserved name, or takes a namespace away from a
part in front. All but one are amiss. -/
def isIdle (space : Option String) (uri : String) : Bool :=
  space == some "xml" || space == some "xmlns" || uri == reserved || uri == declaring
    || (space.isSome && uri.isEmpty)

/-- The declarations of an element with one more, which none of them may repeat. What is declared
has to be a reference to a resource, or it is amiss. -/
def declare (declared : Scope) (space : Option String) (uri : String) : Naming Scope := do
  if isIdle space uri then
    Naming.expect (space == some "xml" && uri == reserved)
    return declared
  else
    Naming.expect (uri.isEmpty || Uri.isReference uri.toList)
    Naming.require ((declared.lookup space).isNone)
    return (space, uri) :: declared

/-- The scope with the declarations among the given attributes. -/
def declareAll (s : Scope) (attributes : List (QName × String)) : Naming Scope := do
  let declared ← attributes.foldlM
    (fun declared (q, value) => match q.declares? with
      | some space => declare declared space value
      | none => pure declared) []
  return declared ++ s

/-- The attributes of a start tag with their references resolved, in declarations those to the
ampersand too. -/
def readAttributes (limits : Limits) (resolve : Bool) (t : StartTag) :
    Naming (List (QName × String)) :=
  t.written.mapM fun (key, value) => do
    let q ← QName.read limits key
    let value ← expand (resolve || q.declares?.isSome) value
    return (q, value)

/-- The part in front of a name is declared, or there is none. -/
def covers (s : Scope) (q : QName) : Bool :=
  match q.space with
  | none => true
  | some space => (s.lookup (some space)).isSome

/-- How many of several names come again behind them. -/
def repeats : List String → Nat
  | [] => 0
  | name :: rest => (if rest.contains name then 1 else 0) + repeats rest

/-- What a start tag opens: the name of the element and its attributes, with their namespaces, and
the scope inside the element. Declarations are no attributes. No attribute with a declared part in
front or none is written twice; two that have one name for different reasons are amiss, and where
there is more of that no attribute at all is written twice. -/
def enter (s : Scope) (limits : Limits) (resolve : Bool) (t : StartTag) :
    Naming (String × List (String × String) × Scope) := do
  let q ← QName.read limits t.name
  let attributes ← readAttributes limits resolve t
  let s ← s.declareAll attributes
  let name ← s.elementName q
  let attributes := attributes.filter (fun (q, _) => q.declares?.isNone)
  let covered := (attributes.map Prod.fst).filter s.covers
  Naming.require covered.Nodup
  let again := repeats (← covered.mapM s.attributeName)
  Naming.expect (again == 0)
  Naming.require (again ≤ 1 || (attributes.map Prod.fst).Nodup)
  let named ← attributes.mapM fun (q, value) => do
    let key ← s.attributeName q
    return (key, value)
  return (name, named, s)

end Scope

end MarkupRouting.Markup
