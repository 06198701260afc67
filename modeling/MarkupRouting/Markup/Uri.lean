import MarkupRouting.Markup.Character
import MarkupRouting.Text.Hex

/-!
# References to resources

Which texts may name a namespace: a scheme with an authority and a path behind it, or a part of
that, with a query and a fragment at the end.

* **Uri.unescaped** — a text with its escapes taken for one plain character each.
* **Uri.isReference** — the text refers to a resource, with a scheme or relative to another one.
-/

namespace MarkupRouting.Markup.Uri

/-- The characters with every escape, a percent sign and two hexadecimal digits, written as one
character that may stand anywhere. A percent sign that begins no escape stays, and may stand
nowhere. -/
def unescaped : List Char → List Char
  | '%' :: a :: b :: rest =>
    if (Text.hexValue? a).isSome && (Text.hexValue? b).isSome then '~' :: unescaped rest
    else '%' :: unescaped (a :: b :: rest)
  | c :: rest => c :: unescaped rest
  | [] => []

/-- The character has no meaning of its own. -/
def isUnreserved (c : Char) : Bool := c.isAlphanum || ['-', '.', '_', '~'].contains c

/-- The character may set parts of a part of its own kind apart. -/
def isDelimiter (c : Char) : Bool :=
  ['!', '$', '&', '(', ')', '*', '+', ',', ';', '='].contains c || c.toNat == 0x27

/-- The character may stand in a name of a host. -/
def isHost (c : Char) : Bool := isUnreserved c || isDelimiter c

/-- The character may stand in a part of a path. -/
def isSegment (c : Char) : Bool := isHost c || c == ':' || c == '@'

/-- The character may stand in a path. -/
def isPath (c : Char) : Bool := isSegment c || c == '/'

/-- The character may stand in a query. -/
def isQuery (c : Char) : Bool := isPath c || c == '?'

/-- The character may stand in a fragment. -/
def isFragment (c : Char) : Bool := isQuery c || c == '[' || c == ']'

/-- The text in front of the first of the given characters, and the text behind it if there is
one. -/
def cut (mark : Char) (cs : List Char) : List Char × Option (List Char) :=
  match cs.dropWhile (· != mark) with
  | [] => (cs, none)
  | _ :: rest => (cs.takeWhile (· != mark), some rest)

/-- The largest number of a service. -/
def lastService : Nat := Nat.pow 2 31 - 1

/-- The characters are the number of a service on a host. -/
def isService (cs : List Char) : Bool :=
  !cs.isEmpty && cs.all Char.isDigit &&
    cs.foldl (fun n c => min (lastService + 1) (10 * n + (c.toNat - 0x30))) 0 ≤ lastService

/-- The characters name a host, with the number of a service or without one. An address between
brackets may be anything. -/
def isHostService (cs : List Char) : Bool :=
  match cs with
  | '[' :: rest =>
    match cut ']' rest with
    | (_, some []) => true
    | (_, some (':' :: service)) => isService service
    | _ => false
  | cs =>
    match cut ':' cs with
    | (host, none) => host.all isHost
    | (host, some service) => host.all isHost && isService service

/-- The characters name an authority: somebody at a host, or a host. -/
def isAuthority (cs : List Char) : Bool :=
  match cut '@' cs with
  | (user, some host) => user.all (fun c => isHost c || c == ':') && isHostService host
  | (host, none) => isHostService host

/-- The characters are an authority and a path, or a path alone. -/
def isHierarchy : List Char → Bool
  | '/' :: '/' :: rest =>
    isAuthority (rest.takeWhile (· != '/')) && (rest.dropWhile (· != '/')).all isPath
  | cs => cs.all isPath

/-- The characters are a scheme. -/
def isScheme : List Char → Bool
  | c :: rest => c.isAlpha && rest.all (fun d => d.isAlphanum || ['+', '-', '.'].contains d)
  | [] => false

/-- The characters refer to a resource, with a scheme or without; without one no part of the path in
front of its first slash may look like a scheme. -/
def isPlainReference (cs : List Char) : Bool :=
  match cut ':' cs with
  | (scheme, some rest) =>
    (isScheme scheme && isHierarchy rest) || (scheme.contains '/' && isHierarchy cs)
  | (_, none) => isHierarchy cs

/-- The characters refer to a resource. -/
def isReference (cs : List Char) : Bool :=
  let (front, fragment) := cut '#' (unescaped cs)
  let (front, query) := cut '?' front
  isPlainReference front && (query.getD []).all isQuery && (fragment.getD []).all isFragment

end MarkupRouting.Markup.Uri
