import MarkupRouting.Proofs.Routing.Accounts
import MarkupRouting.Proofs.Routing.ObservationalEquality

/-!
# Dispatchers that were used before

A dispatcher keeps nothing of the documents that it drove, however the drives ended. What was asked
of it before shows in the rules that it granted, and nowhere else.

* **Use**, **Dispatcher.after**, **granted** — what is asked of a dispatcher; the dispatcher behind
  it, and the rules that it granted.
* **Dispatcher.registerEach**, **make_eq_registerEach** — rules registered one after the other, as a
  dispatcher is made with them.
* **Dispatcher.after_eq** — a used dispatcher is an unused one with the rules that were granted, but
  for what it counted.
* **Dispatcher.drive_reuses** — it drives documents as that one does.
-/

namespace MarkupRouting

variable {H σ : Type}

/-- What is asked of a dispatcher: to register a rule, or to drive a source with any handlers, in
whatever surroundings and to whatever end. -/
inductive Use (H : Type) : Type 1 where
  /-- A rule is to be registered. -/
  | register (source : Value) (offer : Offer H)
  /-- A source is to be driven. -/
  | drive {σ : Type} (b : Behavior H σ) (t : Markup.Tokenizer) (around : Surroundings)
      (source : Source) (world : σ)

namespace Dispatcher

variable {d : Dispatcher H}

/-- The dispatcher behind a use of it. -/
def use (d : Dispatcher H) : Use H → Dispatcher H
  | .register source offer =>
    match d.register source offer with
    | .ok (_, _, d) => d
    | .error _ => d
  | .drive b t around source world => (d.drive b t around source world).2

/-- The rule that is registered by a use, if one is. -/
def grants (d : Dispatcher H) : Use H → Mapping (Offer H)
  | .register source offer =>
    match d.register source offer with
    | .ok _ => [(source, offer)]
    | .error _ => []
  | .drive _ _ _ _ _ => []

/-- The dispatcher behind several uses of it. -/
def after (d : Dispatcher H) (history : List (Use H)) : Dispatcher H := history.foldl use d

/-- The rules that are registered by several uses, in order. -/
def granted (d : Dispatcher H) : List (Use H) → Mapping (Offer H)
  | [] => []
  | u :: rest => d.grants u ++ (d.use u).granted rest

/-- The dispatcher with rules registered one after the other, if none of them fails. -/
def registerEach (d : Dispatcher H) : Mapping (Offer H) → Except Fault (Dispatcher H)
  | [] => .ok d
  | (source, offer) :: rest =>
    match d.register source offer with
    | .ok (_, _, d) => d.registerEach rest
    | .error fault => .error fault

/-! ### Registrations -/

/-- An idle dispatcher registers a rule as its book does. -/
theorem register_idle (hidle : d.driving = false) (source : Value) (offer : Offer H) :
    d.register source offer =
      match d.book.register source offer with
      | .error flaw => .error (.rule flaw)
      | .ok (r, book) => .ok (r, book.registered r d.settings.correlation, { d with book }) := by
  unfold register
  split
  next fault hfault =>
    rw [refusal_idle hidle] at hfault
    cases hfault
  · rfl

/-- An idle dispatcher registers rules as its book does. -/
theorem registerEach_idle (hidle : d.driving = false) (entries : Mapping (Offer H)) :
    d.registerEach entries =
      match (d.book.registerAll entries).2.2 with
      | some flaw => .error (.rule flaw)
      | none => .ok { d with book := (d.book.registerAll entries).2.1 } := by
  induction entries generalizing d with
  | nil => rfl
  | cons e rest ih =>
      obtain ⟨source, offer⟩ := e
      rw [registerEach, register_idle hidle, RuleBook.registerAll]
      cases d.book.register source offer with
      | error flaw => rfl
      | ok made => exact ih (d := { d with book := made.2 }) hidle

/-- A dispatcher on which rules were registered has other rules, and nothing else. -/
theorem registerEach_ok (hidle : d.driving = false) {entries : Mapping (Offer H)}
    {made : Dispatcher H} (h : d.registerEach entries = .ok made) :
    ∃ book, made = { d with book } := by
  rw [registerEach_idle hidle] at h
  split at h
  · cases h
  · exact ⟨_, (Except.ok.inj h).symm⟩

/-- To register some entries and then others is to register all, unless the first ones are
refused. -/
theorem registerEach_append (d : Dispatcher H) (front back : Mapping (Offer H)) :
    d.registerEach (front ++ back) = (d.registerEach front).bind (·.registerEach back) := by
  induction front generalizing d with
  | nil => rfl
  | cons e rest ih =>
      obtain ⟨source, offer⟩ := e
      rw [List.cons_append, registerEach, registerEach]
      cases d.register source offer with
      | error fault => rfl
      | ok made => exact ih made.2.2

/-- A dispatcher is made with rules by registering them one after the other. -/
theorem make_eq_registerEach (settings : Settings) (rules : Mapping (Offer H)) :
    (make settings rules).2 = (make settings []).2.bind (·.registerEach rules) := by
  have heach := registerEach_idle
    (d := { settings, book := .empty settings.defaultMode }) rfl rules
  exact heach.symm

/-! ### Uses -/

/-- A use leaves a dispatcher idle, with the rule that it granted, but for what is counted. -/
theorem use_eq (hidle : d.driving = false) (ledger : Ledger) (u : Use H) :
    (d.use u).driving = false ∧
      ({ d with ledger } : Dispatcher H).registerEach (d.grants u) =
        .ok { d.use u with ledger } := by
  cases u with
  | register source offer =>
      rw [use, grants, register_idle hidle]
      cases hbook : d.book.register source offer with
      | error flaw => exact ⟨hidle, rfl⟩
      | ok made =>
          have hwith : ({ d with ledger } : Dispatcher H).driving = false := hidle
          refine ⟨hidle, ?_⟩
          dsimp only
          rw [registerEach, register_idle hwith, hbook]
          rfl
  | drive b t around source world =>
      obtain ⟨counted, hdrive⟩ := d.drive_keeps hidle b t around source world
      rw [use, hdrive]
      exact ⟨hidle, rfl⟩

/-- **A used dispatcher is an unused one with the rules that were granted**, but for what it
counted, and it is idle. -/
theorem after_eq (hidle : d.driving = false) (ledger : Ledger) (history : List (Use H)) :
    (d.after history).driving = false ∧
      ({ d with ledger } : Dispatcher H).registerEach (d.granted history) =
        .ok { d.after history with ledger } := by
  induction history generalizing d with
  | nil => exact ⟨hidle, rfl⟩
  | cons u rest ih =>
      obtain ⟨hused, hgrants⟩ := use_eq hidle ledger u
      obtain ⟨hafter, hrest⟩ := ih hused
      rw [granted, registerEach_append, hgrants]
      exact ⟨hafter, hrest⟩

/-- **Drives leave nothing behind** (`RuleDispatcher.drive`). Whatever is asked of a dispatcher, and
whatever its ledger said before, it is idle after each use. In the end it drives any source as a
dispatcher does that was never used, and on which the rules that were granted were registered in the
same order: what is seen of the outcome is the same. As much is seen of the identities of the two
runs as the handlers look at, which may be nothing. -/
theorem drive_reuses {settings : Settings} {rules : Mapping (Offer H)} {made : Dispatcher H}
    (hmade : (make settings rules).2 = .ok made) (ledger : Ledger) (history : List (Use H)) :
    let start : Dispatcher H := { made with ledger }
    let used := start.after history
    (∀ n, (start.after (history.take n)).driving = false) ∧
      ∃ blank fresh : Dispatcher H, (make settings []).2 = .ok blank ∧
        blank.registerEach (rules ++ start.granted history) = .ok fresh ∧
        ∀ {σ : Type} (e : Value → Value) (b : Behavior H σ), b.Sees e →
          ∀ (around around' : Surroundings), around.meter = around'.meter →
            e (used.identity around) = e (fresh.identity around') →
              ∀ (t : Markup.Tokenizer) (source : Source) (world : σ),
                (used.drive b t around source world).1.view e =
                  (fresh.drive b t around' source world).1.view e := by
  intro start used
  let blank : Dispatcher H := { settings, book := .empty settings.defaultMode }
  have hrules : blank.registerEach rules = .ok made := by
    rw [← hmade, make_eq_registerEach]
    rfl
  obtain ⟨book, rfl⟩ := registerEach_ok rfl hrules
  obtain ⟨hused, hgranted⟩ := after_eq (d := start) rfl {} history
  let fresh : Dispatcher H := { used with ledger := {} }
  have hfresh : fresh.driving = false := hused
  refine ⟨fun n => (after_eq (d := start) rfl {} (history.take n)).1, blank, fresh, rfl, ?_, ?_⟩
  · rw [registerEach_append, hrules]
    exact hgranted
  · intro σ e b hb around around' hmeter hidentity t source world
    exact (view_drive hused hfresh rfl rfl hb.matches hmeter hidentity t source world).1

/-- Handlers that count how often they are called. -/
def counting : Behavior Unit Nat := fun _ n => .finish (n + 1)

/-- What may be asked of a dispatcher: of two registrations one fails, and of three drives one ends
with an open element, one is aborted by a handler, and one has a source that cannot be driven. -/
def mixedUses : List (Use Unit) :=
  [.drive counting refusing calm (.items "list" brokenList true) 0,
    .register (.text "/") (.handler ()),
    .drive failing refusing calm (.items "list" brokenList true) (),
    .register (.text "list") (.handler ()),
    .drive counting refusing calm (.other .null) 0]

/-- Behind these uses any source is driven as by a dispatcher that is made with both rules, under
whatever identity. -/
theorem drive_reuses_mixedUses :
    ∃ made fresh : Dispatcher Unit,
      (make {} [(.text "item", .handler ())]).2 = .ok made ∧ made.driving = false ∧
        (made.after (mixedUses.take 3)).ledger.built = 1 ∧
        made.granted mixedUses = [(.text "list", .handler ())] ∧
        (make {} [(.text "item", .handler ()), (.text "list", .handler ())]).2 = .ok fresh ∧
        counting.Sees (fun _ => .null) ∧
        ∀ source, ((made.after mixedUses).drive counting refusing calm source 0).1.view
              (fun _ => .null) =
            (fresh.drive counting refusing { calm with identity := "other" } source 0).1.view
              fun _ => .null := by
  have hcounting : counting.Sees fun _ => .null := fun _ _ _ _ => rfl
  refine ⟨_, _, rfl, rfl, rfl, rfl, rfl, hcounting, fun source => ?_⟩
  have hmade : (make {} [(.text "item", .handler ())]).2 = .ok (_ : Dispatcher Unit) := rfl
  obtain ⟨-, blank, fresh, hblank, hfresh, hsame⟩ := drive_reuses hmade {} mixedUses
  cases hblank
  cases hfresh
  exact hsame _ counting hcounting calm { calm with identity := "other" } rfl rfl refusing source 0

end Dispatcher

end MarkupRouting
