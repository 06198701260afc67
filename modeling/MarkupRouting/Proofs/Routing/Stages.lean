import MarkupRouting.Proofs.Routing.Calls

/-!
# What an item of the feed leads to

An item of the feed has its effect in three parts: what happens before handlers are called, the
calls, and what happens afterwards (`_DriveSession._dispatch` with the `_on_` methods it leads to).
Only the calls depend on what the handlers do. What comes before them is told apart once, case by
case (**Session.Staged**); whatever a drive keeps before the calls is proved along these cases.

* **Item.enters**, **leaves** — items at which elements begin and end.
* **Stage**, **Session.stage** — what comes before the calls; **Session.afterCalls** is what comes
  behind them, and **Session.dispatch_eq** puts the three parts together.
* **Session.Staged**, **Session.staged** — the cases of the first part.
* **Stage.Fine**, **Stage.session**, **Stage.whole** — nothing went wrong so far; the session in
  which handlers are called, without and with the frame of their element.
* **Session.stage_eq**, **afterCalls_eq** — what the first and the last part leave as it is.
-/

namespace MarkupRouting

variable {H σ : Type}

/-! ### Items -/

namespace Item

/-- The item enters an element. -/
def enters : Item → Bool
  | .event (.opened _ _ _) | .misnamed _ => true
  | _ => false

/-- The item leaves an element. -/
def leaves : Item → Bool
  | .event (.closed _ _) => true
  | _ => false

/-- No item does both. -/
theorem leaves_of_enters {i : Item} (h : i.enters = true) : i.leaves = false := by
  cases i with
  | event e =>
      cases e with
      | opened name attributes depth => rfl
      | text text depth => rfl
      | closed name depth => cases h
  | misnamed name => rfl
  | notText => rfl
  | foreign typeName => rfl

end Item

/-! ### Before and after the calls -/

/-- What an item leads to before any handler is called. -/
inductive Stage (H σ : Type) where
  /-- No handler is to be called: the session afterwards, and the fault that ends the drive
  there. -/
  | settled (s : Session H σ) (fault : Option Fault)
  /-- The handlers of these rules are to be called for the element of a frame. -/
  | calling (phase : Phase) (rules : List (Rule H)) (s : Session H σ) (f : Frame H)

namespace Session

/-- What an item leads to before any handler is called. -/
def stage (s : Session H σ) : Item → Stage H σ
  | .event (.opened name attributes _) =>
    let entry := s.entering name attributes
    if s.stack.isSpoiled then .settled s (some .notText)
    else if entry.2.path.isSome && !s.stack.hasPath then .settled s (some .noPath)
    else .calling .opening entry.2.openRules entry.1 entry.2
  | .event (.text text _) => .settled (s.hear text) none
  | .event (.closed _ _) =>
    match s.stack.leave? with
    | none => .settled s (some .nothingOpen)
    | some (f, around) =>
      let s := { s with stack := around, tally := s.tally.left }
      if f.spoiled then .settled s (some .notText)
      else
        let f := f.complete
        .calling .closing (if f.contents.isSome then f.closeRules else []) s f
  | .misnamed name => .settled (s.enterMisnamed name).1 (s.enterMisnamed name).2
  | .notText => .settled s.mishear.1 s.mishear.2
  | .foreign typeName => .settled s (some (.eventType typeName))

/-- The session behind the calls for an element: its frame comes on top of the stack, or its node
goes where it belongs. Where a close handler is reported to have failed, the node is given up. -/
def afterCalls : Phase → Session H σ × Frame H × Option Fault → Session H σ × Option Fault
  | .opening, (s, f, fault) => ({ s with stack := s.stack.push f }, fault)
  | .closing, (s, f, some fault) =>
    (if fault.isHandler then (s.giveUp [f]).1 else s, some fault)
  | .closing, (s, f, none) =>
    match s.stack.settle f s.ledger with
    | .error flaw => (s, some (.frame flaw))
    | .ok (fate, stack, ledger) =>
      ({ s with stack, ledger }.tell .debug "Element closed"
        [("element", .value f.givenName), ("disposition", .value (.text fate.name))], none)

end Session

/-- The session behind an item, with the calls that it leads to. -/
def Stage.complete (b : Behavior H σ) : Stage H σ → Session H σ × Option Fault
  | settled s fault => (s, fault)
  | calling phase rules s f => Session.afterCalls phase (Session.invokeAll b phase rules s f)

/-- A frame begins with its path. -/
theorem Frame.path_start (f : Frame H) (l : Ledger) : (f.start l).1.path = f.path := by
  unfold Frame.start
  split <;> rfl

/-- **An item has its effect in three parts**, of which only the calls depend on the handlers. -/
theorem Session.dispatch_eq (b : Behavior H σ) (s : Session H σ) (i : Item) :
    s.dispatch b i = (s.stage i).complete b := by
  cases i with
  | event e =>
      cases e with
      | opened name attributes depth =>
          have hpath : (s.entering name attributes).2.path =
              ((s.stack.mapTop (·.flush false)).enter name attributes).1.path :=
            Frame.path_start _ _
          simp only [Session.dispatch, Session.enter, Session.stage, hpath]
          split_ifs
          · rfl
          · rfl
          · rfl
      | text text depth => rfl
      | closed name depth =>
          simp only [Session.dispatch, Session.leave, Session.stage]
          cases s.stack.leave? with
          | none => rfl
          | some top =>
              obtain ⟨f, around⟩ := top
              simp only
              split_ifs with hspoiled hbuilt
              · rfl
              · simp only [Stage.complete]
                generalize Session.invokeAll b .closing _ _ _ = called
                obtain ⟨s', f', fault⟩ := called
                cases fault with
                | some fault => rfl
                | none => rfl
              · rfl
  | misnamed name => rfl
  | notText => rfl
  | foreign typeName => rfl

/-! ### The cases -/

namespace Session

variable {s : Session H σ} {b : Behavior H σ}

/-- The frame of an element that is entered under a name that is no text. -/
def misnaming (s : Session H σ) (name : Value) : Frame H :=
  { ((s.stack.mapTop (·.flush false)).enter "" []).1 with misnomer := some name }

/-- What an item leads to before any handler is called, case by case, with all that is known in
each: one constructor for each way through `_on_open`, `_on_text` and `_on_close`. Invariants of a
step are proved from this list, and nothing else looks into the step. -/
inductive Staged (s : Session H σ) : Item → Stage H σ → Prop
  /-- An element is entered. It has no path unless the elements around it have one. -/
  | entered (name : String) (attributes : Table Value) (depth : Nat)
      (hpath : (s.entering name attributes).2.path.isSome = true → s.stack.hasPath = true) :
      Staged s (.event (.opened name attributes depth))
        (.calling .opening (s.entering name attributes).2.openRules
          (s.entering name attributes).1 (s.entering name attributes).2)
  /-- An element is entered under a name that is no text: nobody is told of it. -/
  | misnamed (name : Value) (hpath : (s.misnaming name).path.isSome = false) :
      Staged s (.misnamed name)
        (.settled ({ s with
          stack := (s.stack.around "").push (s.misnaming name)
          tally := s.tally.entered (s.misnaming name).depth }.tellEntered (s.misnaming name)) none)
  /-- An element is refused. -/
  | refused (i : Item) (fault : Fault) (nameless : Bool) (henters : i.enters = true)
      (hodd : s.stack.isSpoiled = true ∨ s.stack.hasPath = false ∨ ∃ name, i = .misnamed name) :
      Staged s i (.settled { s with nameless } (some fault))
  /-- A text comes inside an element. -/
  | heard (text : String) (depth : Nat) (hopen : s.stack.frames.isEmpty = false) :
      Staged s (.event (.text text depth))
        (.settled { s with stack := s.stack.mapTop (·.addText text) } none)
  /-- A text outside the root element is dropped: it is blank, or not the first one. -/
  | dropped (text : String) (depth : Nat) (hempty : s.stack.frames.isEmpty = true)
      (hquiet : (Text.isBlankText text || s.strayText) = true) :
      Staged s (.event (.text text depth)) (.settled s none)
  /-- The first text outside the root element that is not blank is reported. -/
  | reported (text : String) (depth : Nat) (hempty : s.stack.frames.isEmpty = true)
      (hloud : (Text.isBlankText text || s.strayText) = false) :
      Staged s (.event (.text text depth))
        (.settled ({ s with strayText := true }.diagnose .warning
          "Text outside the root element ignored" none none) none)
  /-- Something comes in place of a text inside an element. -/
  | spoilt (hopen : s.stack.frames.isEmpty = false) :
      Staged s .notText (.settled { s with stack := s.stack.mapTop (·.spoil) } none)
  /-- Outside the root element it is looked at. -/
  | unheard (hempty : s.stack.frames.isEmpty = true) :
      Staged s .notText (.settled s (some .notCapable))
  /-- An element is left. -/
  | left (name : String) (depth : Nat) (f : Frame H) (rest : List (Frame H))
      (hframes : s.stack.frames = f :: rest) (hspoiled : f.spoiled = false) :
      Staged s (.event (.closed name depth))
        (.calling .closing (if f.complete.contents.isSome then f.complete.closeRules else [])
          { s with stack := { s.stack with frames := rest }, tally := s.tally.left } f.complete)
  /-- The texts of an element that is left cannot be put together. -/
  | torn (name : String) (depth : Nat) (f : Frame H) (rest : List (Frame H))
      (hframes : s.stack.frames = f :: rest) (hspoiled : f.spoiled = true) :
      Staged s (.event (.closed name depth))
        (.settled { s with stack := { s.stack with frames := rest }, tally := s.tally.left }
          (some .notText))
  /-- No element is open that could be left. -/
  | nothing (name : String) (depth : Nat) (hempty : s.stack.frames = []) :
      Staged s (.event (.closed name depth)) (.settled s (some .nothingOpen))
  /-- What comes is no event. -/
  | foreign (typeName : String) :
      Staged s (.foreign typeName) (.settled s (some (.eventType typeName)))

/-- **An item leads to what its case says.** -/
theorem staged (s : Session H σ) (i : Item) : s.Staged i (s.stage i) := by
  cases i with
  | event e =>
      cases e with
      | opened name attributes depth =>
          simp only [Session.stage]
          split_ifs with hspoiled hpath
          · exact .refused _ _ s.nameless rfl (.inl hspoiled)
          · rw [Bool.and_eq_true, Bool.not_eq_true'] at hpath
            exact .refused _ _ s.nameless rfl (.inr (.inl hpath.2))
          · exact .entered name attributes depth fun hsome => by simpa [hsome] using hpath
      | text text depth =>
          simp only [Session.stage, Session.hear]
          split_ifs with hempty hquiet
          · exact .dropped text depth hempty hquiet
          · exact .reported text depth hempty (Bool.not_eq_true _ ▸ hquiet)
          · exact .heard text depth (Bool.not_eq_true _ ▸ hempty)
      | closed name depth =>
          simp only [Session.stage, Stack.leave?]
          cases hframes : s.stack.frames with
          | nil => exact .nothing name depth hframes
          | cons f rest =>
              dsimp only
              split_ifs with hspoiled hbuilt
              · exact .torn name depth f rest hframes hspoiled
              · have hleft := Staged.left name depth f rest hframes (Bool.not_eq_true _ ▸ hspoiled)
                rwa [if_pos hbuilt] at hleft
              · have hleft := Staged.left name depth f rest hframes (Bool.not_eq_true _ ▸ hspoiled)
                rwa [if_neg hbuilt] at hleft
  | misnamed name =>
      simp only [Session.stage, Session.enterMisnamed]
      split_ifs with hspoiled hkey hpath
      · exact .refused _ _ s.nameless rfl (.inl hspoiled)
      · exact .refused _ _ s.nameless rfl (.inr (.inr ⟨name, rfl⟩))
      · exact .refused _ _ true rfl (.inr (.inr ⟨name, rfl⟩))
      · exact .misnamed name (Bool.not_eq_true _ ▸ hpath)
  | notText =>
      simp only [Session.stage, Session.mishear]
      split_ifs with hempty
      · exact .unheard hempty
      · exact .spoilt (Bool.not_eq_true _ ▸ hempty)
  | foreign typeName => exact .foreign typeName

end Session

/-! ### What stays as it is -/

namespace Stage

/-- Handlers can be called, or nothing went wrong. -/
def Fine : Stage H σ → Prop
  | settled _ fault => fault = none
  | calling _ _ _ _ => True

/-- Where an item ends without a fault nothing went wrong before the calls. -/
theorem fine_of_complete {b : Behavior H σ} {g : Stage H σ} {s' : Session H σ}
    (hcomplete : g.complete b = (s', none)) : g.Fine := by
  cases g with
  | settled s fault => exact (Prod.mk.inj hcomplete).2
  | calling phase rules s f => trivial

/-- The session in which handlers are called, or with which the item is done. -/
def session : Stage H σ → Session H σ
  | settled s _ => s
  | calling _ _ s _ => s

/-- The session with the frame of the element for which handlers are called on the stack. -/
def whole : Stage H σ → Session H σ
  | settled s _ => s
  | calling _ _ s f => { s with stack := s.stack.push f }

end Stage

namespace Session

/-- Before handlers are called nothing is done to what they keep, to the calls made and to where the
drive was asked to stop. -/
theorem stage_eq (s : Session H σ) (i : Item) :
    ∃ stack ledger tally strayText nameless diagnostics records,
      (s.stage i).session =
        { s with stack, ledger, tally, strayText, nameless, diagnostics, records } := by
  have hstaged := s.staged i
  generalize s.stage i = g at hstaged ⊢
  cases hstaged with
  | entered | misnamed | refused | heard | dropped | reported | spoilt | unheard | left | torn
  | nothing | foreign => exact ⟨_, _, _, _, _, _, _, rfl⟩

/-- Behind the calls only the stack, the ledger and the records change. -/
theorem afterCalls_eq (phase : Phase) (called : Session H σ × Frame H × Option Fault) :
    ∃ stack ledger records,
      (afterCalls phase called).1 = { called.1 with stack, ledger, records } := by
  obtain ⟨s, f, fault⟩ := called
  cases phase with
  | opening => exact ⟨_, _, _, rfl⟩
  | closing =>
      cases fault with
      | some fault =>
          unfold Session.afterCalls
          dsimp only
          split
          · exact ⟨_, _, _, rfl⟩
          · exact ⟨_, _, _, rfl⟩
      | none =>
          unfold Session.afterCalls
          dsimp only
          cases s.stack.settle f s.ledger with
          | error flaw => exact ⟨_, _, _, rfl⟩
          | ok settled => exact ⟨_, _, _, rfl⟩

/-- What happens behind the calls makes up for no fault of a handler. -/
theorem afterCalls_fault (phase : Phase) (called : Session H σ × Frame H × Option Fault)
    {fault : Fault} (h : called.2.2 = some fault) : (afterCalls phase called).2 = some fault := by
  obtain ⟨s, f, fault'⟩ := called
  cases h
  cases phase with
  | opening => rfl
  | closing => rfl

/-- Where an element is left without a fault its node goes where it belongs. -/
theorem settle_of_afterCalls {s s' : Session H σ} {f : Frame H} {fault : Option Fault}
    (h : afterCalls .closing (s, f, fault) = (s', none)) :
    ∃ fate stack ledger records, s.stack.settle f s.ledger = .ok (fate, stack, ledger) ∧
      s' = { s with stack, ledger, records } := by
  cases fault with
  | some fault => cases (Prod.mk.inj h).2
  | none =>
      unfold Session.afterCalls at h
      dsimp only at h
      cases hsettle : s.stack.settle f s.ledger with
      | error flaw =>
          rw [hsettle] at h
          cases (Prod.mk.inj h).2
      | ok settled =>
          rw [hsettle] at h
          obtain ⟨rfl, -⟩ := Prod.mk.inj h
          exact ⟨settled.1, settled.2.1, settled.2.2, _, rfl, rfl⟩

end Session

end MarkupRouting
