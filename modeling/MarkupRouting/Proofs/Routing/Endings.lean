import MarkupRouting.Proofs.Routing.Accounts
import MarkupRouting.Proofs.Routing.Orderly

/-!
# The ends of drives

Whatever ends a drive, no handler is called behind its feed and nothing is taken from the source.
Up to the first handler that does not just return, a drive makes the calls that it would make if
every handler did.

* **Session.clear_eq**, **clear_counts**, **conclude_eq** — what the end of a session changes.
* **Dispatcher.session_fresh** — how a drive begins.
* **Dispatcher.calls_drive**, **calls_drive_follow** — the calls of a drive are those of its
  moments, and other handlers are called at the same ones.
* **Dispatcher.runSession_breaks** — a drive ends with the first handler that does not just return.
* **pairList**, **thenDoing** — a short list, and handlers that end its drive with the second item.
-/

namespace MarkupRouting

variable {H σ : Type}

/-! ### The end of a session -/

namespace Session

/-- Giving up what is open empties the stack, and else is seen in the ledger and in records only
(`release_all`). -/
theorem clear_eq (s : Session H σ) :
    ∃ ledger records, s.clear.1 = { s with stack := s.stack.cleared, ledger, records } := by
  obtain ⟨records, hgiven⟩ := ({ s with stack := s.stack.cleared } : Session H σ).giveUp_eq
    s.stack.frames
  unfold Session.clear
  dsimp only
  exact ⟨_, records, hgiven⟩

/-- With the stack cleared as many nodes are given up as the frames held. -/
theorem clear_counts (s : Session H σ) :
    s.clear.2 = (s.stack.frames.length, Frame.held s.stack.frames) := by
  have hfreed : (Frame.releaseAll s.stack.frames s.ledger).2.freed =
      s.ledger.freed + Frame.held s.stack.frames :=
    congrArg Ledger.freed (Frame.releaseAll_ledger s.stack.frames s.ledger)
  have hcount : (({ s with stack := s.stack.cleared } : Session H σ).giveUp s.stack.frames).2 =
      Frame.held s.stack.frames := by
    unfold Session.giveUp
    dsimp only
    split <;> omega
  unfold Session.clear
  dsimp only
  rw [hcount]

/-- The end of a drive makes no calls, takes nothing from the source and leaves alone what handlers
keep. -/
theorem conclude_eq (s : Session H σ) (fault : Option Fault) :
    ∃ stack ledger diagnostics records,
      (s.conclude fault).1 = { s with stack, ledger, diagnostics, records } := by
  obtain ⟨ledger, records, hclear⟩ := s.clear_eq
  unfold Session.conclude
  split
  · exact ⟨_, _, _, _, rfl⟩
  · cases fault with
    | some fault =>
        dsimp only [Session.endAborted]
        rw [hclear]
        exact ⟨_, _, _, _, rfl⟩
    | none =>
        dsimp only
        split
        · dsimp only [Session.endStopped]
          rw [hclear]
          exact ⟨_, _, _, _, rfl⟩
        · unfold Session.endFed
          split
          · exact ⟨_, _, _, _, rfl⟩
          · dsimp only
            rw [hclear]
            exact ⟨_, _, _, _, rfl⟩

end Session

/-! ### Drives of items -/

namespace Dispatcher

variable {b q : Behavior H σ}

/-- A drive begins with nothing called, nothing reported and nothing built. -/
theorem session_fresh (d : Dispatcher H) (around : Surroundings) (source : Source) (world : σ) :
    (d.engaged.session around source world).stopPath = none ∧
      (d.engaged.session around source world).calls = [] ∧
      (d.engaged.session around source world).Orderly ∧
      (d.engaged.session around source world).debt = 0 := by
  unfold Dispatcher.session
  dsimp only
  generalize hstart : Session.tell _ _ _ _ = start
  obtain ⟨monitor, records, hsample⟩ := start.sample_eq "start"
  rw [hsample, ← hstart]
  exact ⟨rfl, rfl, ⟨⟨nofun, .nil⟩, rfl, nofun⟩, rfl⟩

/-- A drive of a source that can be opened is a session from its beginning to its end. -/
theorem drive_opened {d : Dispatcher H} (hidle : d.driving = false) {t : Markup.Tokenizer}
    {around : Surroundings} {source : Source} {feed : Feed} {closable : Bool}
    (hopen : d.openSource t (d.identity around) source = .ok (feed, closable)) (b : Behavior H σ)
    (world : σ) :
    d.drive b t around source world =
      let ended := runSession b (d.engaged.session around source world) feed
      (outcome ended.1 ended.2 around.elapsed closable, { d with ledger := ended.1.ledger }) := by
  have hopens : d.engaged.openSource t (d.engaged.identity around) source =
      .ok (feed, closable) := hopen
  rw [drive, refusal_idle hidle]
  dsimp only
  rw [hopens, ← hidle]
  rfl

/-- The calls of an outcome are those of its session in their order. -/
theorem calls_outcome (s : Session H σ) (fault : Option Fault) (elapsed : Double) (closed : Bool) :
    (outcome s fault elapsed closed).calls = s.calls.reverse := rfl

/-- What was read is told by the session. -/
theorem pulled_outcome (s : Session H σ) (fault : Option Fault) (elapsed : Double)
    (closed : Bool) : (outcome s fault elapsed closed).pulled = s.pulled := rfl

/-- Behind the feed no call is made. -/
theorem runSession_eq (b : Behavior H σ) (s : Session H σ) (feed : Feed) :
    ∃ stack ledger diagnostics monitor records,
      (runSession b s feed).1 =
        { (s.run b feed).1 with stack, ledger, diagnostics, monitor, records } := by
  obtain ⟨_, _, _, _, hconclude⟩ := (s.run b feed).1.conclude_eq (s.run b feed).2
  obtain ⟨_, _, hsample⟩ := ((s.run b feed).1.conclude (s.run b feed).2).1.sample_eq "end"
  rw [hconclude] at hsample
  exact ⟨_, _, _, _, _, (congrArg (Session.sample · "end") hconclude).trans hsample⟩

/-- The calls of a drive of a source that can be opened are those of its moments. -/
theorem calls_opened {d : Dispatcher H} (hidle : d.driving = false) {t : Markup.Tokenizer}
    {around : Surroundings} {source : Source} {feed : Feed} {closable : Bool}
    (hopen : d.openSource t (d.identity around) source = .ok (feed, closable)) (b : Behavior H σ)
    (world : σ) :
    (d.drive b t around source world).1.calls =
      ((d.engaged.session around source world).moments b feed).map Moment.call := by
  obtain ⟨-, hnone, -, -⟩ := d.session_fresh around source world
  have hcalls := Session.calls_run b feed (d.engaged.session around source world)
  obtain ⟨_, _, _, _, _, hended⟩ := runSession_eq b (d.engaged.session around source world) feed
  rw [drive_opened hidle hopen]
  dsimp only
  rw [calls_outcome, hended]
  dsimp only
  rw [hcalls, hnone, List.append_nil, List.reverse_reverse]

variable (d : Dispatcher H) (hidle : d.driving = false) (t : Markup.Tokenizer)
  (around : Surroundings) (typeName : String) (feed : Feed) (closable : Bool) (world : σ)

include hidle in
/-- A drive of given items is a session from its beginning to its end. -/
theorem drive_items (b : Behavior H σ) :
    d.drive b t around (.items typeName feed closable) world =
      let ended :=
        runSession b (d.engaged.session around (.items typeName feed closable) world) feed
      (outcome ended.1 ended.2 around.elapsed closable, { d with ledger := ended.1.ledger }) :=
  drive_opened hidle rfl b world

include hidle in
/-- The calls of a drive are those of its moments. -/
theorem calls_drive (b : Behavior H σ) :
    (d.drive b t around (.items typeName feed closable) world).1.calls =
      ((d.engaged.session around (.items typeName feed closable) world).moments b feed).map
        Moment.call :=
  calls_opened hidle rfl b world

variable {d around typeName feed closable world} {before after : List (Moment H σ)} {m : Moment H σ}

section Prefix

variable (hcalls : (d.engaged.session around (.items typeName feed closable) world).moments b feed =
    before ++ m :: after)
  (hbefore : ∀ p ∈ before, p.Passes b)

include hidle hcalls hbefore in
/-- Handlers that do the same as long as those return are called as often, and in the same way. -/
theorem calls_drive_follow (hq : q.Follows b) :
    (d.drive q t around (.items typeName feed closable) world).1.calls.take (before.length + 1) =
      (before ++ [m]).map Moment.call := by
  obtain ⟨hgoing, -, -, -⟩ := d.session_fresh around (.items typeName feed closable) world
  obtain ⟨later, hlater⟩ := Session.moments_follow hq feed hgoing hcalls hbefore
  have hlength : before.length + 1 = ((before ++ [m]).map Moment.call).length := by
    rw [List.length_map, List.length_append, List.length_singleton]
  rw [calls_drive d hidle, hlater, List.append_cons, List.map_append, hlength, List.take_left]

end Prefix

/-- A drive ends with the first handler that does not just return. -/
theorem runSession_breaks {source : Source}
    (hcalls : (d.engaged.session around source world).moments b feed = before ++ m :: after)
    (hbefore : ∀ p ∈ before, p.Passes b) (hm : ¬ m.Passes b) :
    after = [] ∧ m.Orderly ∧
      runSession b (d.engaged.session around source world) feed =
        (((m.last b).1.conclude (m.last b).2).1.sample "end",
          ((m.last b).1.conclude (m.last b).2).2) := by
  obtain ⟨hgoing, -, horderly, -⟩ := d.session_fresh around source world
  obtain ⟨hlast, hrun⟩ := Session.run_breaks feed hgoing hcalls hbefore hm
  have hmem : m ∈ (d.engaged.session around source world).moments b feed := by
    rw [hcalls]
    exact List.mem_append_right before List.mem_cons_self
  refine ⟨hlast, Session.orderly_moments horderly hgoing feed hmem, ?_⟩
  rw [runSession, hrun]

/-- A list with two items in it. -/
def pairList : Feed :=
  .ofItems [.event (.opened "list" [] 1), .event (.opened "item" [] 2), .event (.closed "item" 2),
    .event (.opened "item" [] 2), .event (.closed "item" 2), .event (.closed "list" 1)]

/-- Handlers of which the first one that is called returns and each later one does the same. -/
def thenDoing (later : Action Nat) : Behavior Unit Nat :=
  fun _ n => if n = 0 then .finish 1 else later

end Dispatcher

end MarkupRouting
