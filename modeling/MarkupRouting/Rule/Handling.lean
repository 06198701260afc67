import MarkupRouting.Text.Lowercase
import MarkupRouting.Value.Mapping

/-!
# Handlings

What a rule does with the elements it selects: the handlers called when an element is entered and
when it is left, and the text mode of its node.

* **TextMode.ofValue** — the mode an untyped value stands for.
* **Supplied** — what a caller hands over where a handler may be expected.
* **Handling** — the handlers and the mode of a rule.
* **Handling.make** — a handling from named options.
* **Offer**, **Offer.read** — the ways in which a handling can be handed over.
-/

namespace MarkupRouting

/-- The mode a value stands for (`WhitespaceMode.coerce`): a mode itself, or the word for one in
letters of either case, with or without blanks around it. -/
def TextMode.ofValue? : Value → Option TextMode
  | .mode m => some m
  | .text s =>
    let word := String.ofList ((Text.trim s.toList).map Text.lowerAscii)
    TextMode.all.find? (fun m => m.word == word)
  | _ => none

/-- What is said of a value that stands for no mode. -/
def TextMode.unknownMessage (given : String) : String :=
  "whitespace mode must be one of " ++ Value.quotedTexts (TextMode.all.map TextMode.word) ++
    ", got " ++ given

/-- What a caller hands over where a handler may be expected. -/
inductive Supplied (H : Type) where
  /-- A handler. -/
  | handler (h : H)
  /-- Something that is no handler. -/
  | value (v : Value)
  deriving Repr, Inhabited

/-- The handlers and the mode of a rule (`HandlerSpec`). -/
structure Handling (H : Type) where
  /-- Called when an element is entered. -/
  onOpen : Option H
  /-- Called when an element is left, with its node. -/
  onClose : Option H
  /-- The text mode of the node, if it is not the default one. -/
  mode : Option TextMode
  deriving Repr, Inhabited

namespace Handling

/-- The names of the options, in the order in which messages list them. -/
def optionNames : List String := ["open_handler", "close_handler", "whitespace"]

/-- Why something is no handling. -/
inductive Flaw where
  /-- There is no handler in it. -/
  | noHandler
  /-- The option of the given name is no handler. -/
  | notCallable (option : String)
  /-- There is no mode of that kind. -/
  | unknownMode (given : String)
  /-- There are options of other names. -/
  | unknownOptions (names : List Value)
  /-- There are options of other names, which cannot be listed in order. -/
  | unorderedOptions
  /-- There is an option of another name where handlings are made directly. -/
  | unexpectedOption
  /-- It is neither a handler nor a handling nor options. -/
  | notOffered (typeName : String)
  deriving Repr

/-- The flaw in words; none where it has no words of its own. -/
def Flaw.message : Flaw → Option String
  | noHandler => some "HandlerSpec needs an open_handler or a close_handler"
  | notCallable option => some (option ++ " must be callable")
  | unknownMode given => some (TextMode.unknownMessage given)
  | unknownOptions names => some ("Unknown handler options " ++ (Value.list names).quoted
      ++ "; expected " ++ Value.quotedTexts optionNames)
  | unorderedOptions | unexpectedOption => none
  | notOffered typeName => some
      ("handler must be a callable, a HandlerSpec or a mapping, got " ++ typeName)

variable {H : Type}

/-- An option that may be left out: null counts as left out. -/
def given? (options : Table (Supplied H)) (name : String) : Option (Supplied H) :=
  match options.get? name with
  | some (.value .null) => none
  | other => other

/-- The handler in an option. -/
def readHandler (name : String) : Option (Supplied H) → Except Flaw (Option H)
  | none => .ok none
  | some (.handler h) => .ok (some h)
  | some (.value _) => .error (.notCallable name)

/-- The mode in an option. -/
def readMode : Option (Supplied H) → Except Flaw (Option TextMode)
  | none => .ok none
  | some (.handler _) => .error (.unknownMode "<function>")
  | some (.value v) =>
    match TextMode.ofValue? v with
    | some m => .ok (some m)
    | none => .error (.unknownMode v.quoted)

/-- The handling that options of the known names describe (`HandlerSpec.__post_init__`). -/
def make (options : Table (Supplied H)) : Except Flaw (Handling H) :=
  let opening := given? options "open_handler"
  let closing := given? options "close_handler"
  if opening.isNone && closing.isNone then .error .noHandler
  else do
    let onOpen ← readHandler "open_handler" opening
    let onClose ← readHandler "close_handler" closing
    let mode ← readMode (given? options "whitespace")
    return { onOpen, onClose, mode }

/-- The names among the options that are not known. -/
def unknownNames (options : Mapping (Supplied H)) : List Value :=
  (options.map Prod.fst).filter (fun n => !n.toText?.any optionNames.contains)

/-- The handling made directly from options: other names are refused without a word. -/
def ofArguments (options : Mapping (Supplied H)) : Except Flaw (Handling H) :=
  if (unknownNames options).isEmpty then make options.named else .error .unexpectedOption

/-- The handling that options describe: other names are refused in increasing order. -/
def ofOptions (options : Mapping (Supplied H)) : Except Flaw (Handling H) :=
  if (unknownNames options).isEmpty then make options.named
  else
    match Value.inOrder? (unknownNames options) with
    | some names => .error (.unknownOptions names)
    | none => .error .unorderedOptions

end Handling

/-- A way to hand over a handling. -/
inductive Offer (H : Type) where
  /-- A handler alone, called when an element is left. -/
  | handler (h : H)
  /-- A handling. -/
  | handling (s : Handling H)
  /-- Options by name. -/
  | options (entries : Mapping (Supplied H))
  /-- Something else. -/
  | other (v : Value)
  deriving Repr, Inhabited

namespace Offer

variable {H : Type}

/-- An untyped value as an offer: a record is options. -/
def ofValue : Value → Offer H
  | .record fields => options (fields.map (fun (n, v) => (.text n, .value v)))
  | v => other v

/-- The handling that is offered (`HandlerSpec.from_value`). -/
def read : Offer H → Except Handling.Flaw (Handling H)
  | handler h => .ok { onOpen := none, onClose := some h, mode := none }
  | handling s => .ok s
  | options entries => Handling.ofOptions entries
  | other v => .error (.notOffered v.typeName)

/-- The offer is a handling already, which is taken as it is. -/
def isHandling : Offer H → Bool
  | handling _ => true
  | _ => false

end Offer

end MarkupRouting
