import MarkupRouting.Routing.Fault

/-!
# Feeds

What a source hands out when it is asked for one item after the other, and what happens on the
way.

* **Item** — an event, or something else in place of one; **Item.ofEvent** tells which.
* **Feed** — everything a source will hand out.
* **Feed.items**, **ofItems**, **after** — the items of a feed, a feed of given items, items in
  front of a feed.
* **Feed.join**, **Feed.take** — the events of a feed with adjacent texts joined.
-/

namespace MarkupRouting

/-- What a source hands out. -/
inductive Item where
  /-- An event. -/
  | event (e : Event)
  /-- An element is entered under a name that is no text. -/
  | misnamed (name : Value)
  /-- Something that is no text comes in place of a text. -/
  | notText
  /-- A value of the given type that is no event. -/
  | foreign (typeName : String)
  deriving Repr, Inhabited

/-- The item of an event that was made with the given name or text. The name with which an element
is left does not matter. -/
def Item.ofEvent (given : Value) (e : Event) : Item :=
  match e, given with
  | e, .text _ => .event e
  | .opened _ _ _, name => .misnamed name
  | .text _ _, _ => .notText
  | e, _ => .event e

/-- Everything a source will hand out, in order. -/
inductive Feed where
  /-- There is nothing more. -/
  | done
  /-- The next thing asked for is an item. -/
  | item (i : Item) (rest : Feed)
  /-- The next thing asked for raises a fault. -/
  | fault (f : Fault)
  /-- A chunk of the document is read before the next thing is handed out. -/
  | read (chunk : List UInt8) (rest : Feed)
  /-- A record is made before the next thing is handed out. -/
  | note (r : Log.Record) (rest : Feed)
  deriving Repr, Inhabited

namespace Feed

/-- The items up to the end or the first fault. -/
def items : Feed → List Item
  | done | fault _ => []
  | item i rest => i :: rest.items
  | read _ rest | note _ rest => rest.items

/-- Items in front of a feed. -/
def after (front : List Item) (rest : Feed) : Feed := front.foldr item rest

/-- A feed of the given items. -/
def ofItems (front : List Item) : Feed := after front done

/-- Events in front of a feed. -/
def afterEvents (front : List Event) (rest : Feed) : Feed := after (front.map .event) rest

/-! ## Events with adjacent texts joined -/

/-- Events that came so far, the last one first, where a text that follows a text was joined to it
and empty texts were left out. -/
def join (sofar : List Event) (e : Event) : List Event :=
  match e with
  | .text s depth =>
    if s.isEmpty then sofar
    else
      match sofar with
      | .text t d :: rest => .text (t ++ s) d :: rest
      | sofar => .text s depth :: sofar
  | e => e :: sofar

/-- What came of asking a feed for its events. -/
structure Taken where
  /-- The events with adjacent texts joined. -/
  events : List Event
  /-- The feed was left before its end. -/
  cut : Bool
  /-- The fault that ended the feed. -/
  fault : Option Fault
  /-- The records made on the way, in order. -/
  records : List Log.Record
  deriving Repr, Inhabited

/-- Asks a feed for its events and leaves it as soon as more than `limit` of them came; `sofar` and
`records` are what came before, the last one first. -/
def takeFrom (limit : Option Nat) (sofar : List Event) (records : List Log.Record) : Feed → Taken
  | done => ⟨sofar.reverse, false, none, records.reverse⟩
  | fault f => ⟨sofar.reverse, false, some f, records.reverse⟩
  | read _ rest => takeFrom limit sofar records rest
  | note r rest => takeFrom limit sofar (r :: records) rest
  | item (.foreign name) _ => ⟨sofar.reverse, false, some (.eventType name), records.reverse⟩
  | item (.misnamed _) _ => ⟨sofar.reverse, false, some .noPath, records.reverse⟩
  | item .notText _ => ⟨sofar.reverse, false, some .notText, records.reverse⟩
  | item (.event e) rest =>
    let sofar := join sofar e
    match limit with
    | none => takeFrom limit sofar records rest
    | some n =>
      if n < sofar.length then ⟨sofar.reverse.take n, true, none, records.reverse⟩
      else takeFrom limit sofar records rest

/-- The events of a feed with adjacent texts joined, or as many of them as `limit` says where more
than that come. -/
def take (limit : Option Nat) (feed : Feed) : Taken := takeFrom limit [] [] feed

end Feed

end MarkupRouting
