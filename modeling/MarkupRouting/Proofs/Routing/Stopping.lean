import MarkupRouting.Proofs.Routing.Endings

/-!
# Handlers that ask for a stop

A handler asks for the drive to be stopped and returns, or it fails with a fault that means just
that. In both ways the event is brought to its end, the drive returns, and it reports where it was
stopped and what it left unfinished.

* **Action.stopPath_run** — a handler asks at the path of its element.
* **Moment.notice** — what is reported of a stop.
* **Session.Noted** — a session with other records, which change nothing else.
* **Moment.Stops.last_eq**, **Stops.noted** — the session behind the event of the call; both ways to
  ask for a stop lead to the same one.
* **Dispatcher.drive_stops** — what becomes of the drive.
* **Dispatcher.not_even_of_stops** — why the books need not be even.
-/

namespace MarkupRouting

variable {H σ : Type}

/-! ### Paths -/

namespace Action

/-- Putting something into a node does not move to another place. -/
theorem path_append (t : Turn H) (c : Content) : (t.append c).path = t.path := by
  unfold Turn.append
  cases t.phase <;> rfl

/-- Neither does changing a node. -/
theorem path_remake (t : Turn H) (n : Node) : (t.remake n).path = t.path := by
  unfold Turn.remake
  cases t.phase <;> rfl

/-- A handler that asks for a stop does so at the path of its element. -/
theorem stopPath_run (a : Action σ) {t : Turn H} (ht : t.stopPath = none) :
    (a.run t).1.stopPath = none ∨ (a.run t).1.stopPath = some t.path := by
  induction a generalizing t with
  | finish w => exact .inl ht
  | raise fault w => exact .inl ht
  | stop next ih => exact .inr (next.stopPath_run_of_some (stopPath_stop ht))
  | setAttribute name value next ih => exact ih (t := t.setAttribute name value) ht
  | append c next ih =>
      have hrest := ih (t := t.append c) ((stopPath_append t c).trans ht)
      rwa [path_append] at hrest
  | remake n next ih =>
      have hrest := ih (t := t.remake n) ((stopPath_remake t n).trans ht)
      rwa [path_remake] at hrest
  | look next ih => exact ih _ _ ht
  | ask request next ih => exact ih _ ht
  | note records next ih => exact ih (t := { t with records := records.reverse ++ t.records }) ht

/-- The path of the element stays what it is. -/
theorem path_run (a : Action σ) (t : Turn H) : (a.run t).1.path = t.path := by
  obtain ⟨_, _, _, heq, -⟩ := a.touched_run t
  rw [Turn.path, heq]
  rfl

end Action

namespace Moment

variable {b q : Behavior H σ} {m : Moment H σ}

/-- Where a handler asks for a stop, in either way, the drive is asked to stop at its element, and
no fault comes of the call. -/
theorem Stops.outcome_eq (h : m.Stops b) (hgoing : m.session.stopPath = none) :
    ∃ records, m.outcome b =
      ({ m.session with
          tally := m.session.tally.called m.phase
          stopPath := some m.call.path
          calls := m.call :: m.session.calls
          records
          world := (m.ending b).2.1 }, m.left b, none) := by
  have hpath : (m.ending b).1.path = m.call.path := Action.path_run _ _
  have hasked : (m.ending b).1.stopPath = none ∨ (m.ending b).1.stopPath = some m.call.path :=
    Action.stopPath_run _ hgoing
  rw [Moment.outcome_eq]
  rcases h with ⟨hnone, hsome⟩ | ⟨fault, hfault, hstop⟩
  · rcases hasked with hasked | hasked
    · rw [hasked] at hsome
      cases hsome
    · refine ⟨(m.ending b).1.records, ?_⟩
      simp only [hnone, settled, hasked]
  · refine ⟨(m.ending b).1.stop.records, ?_⟩
    have hstopped : (m.ending b).1.stop.stopPath = some m.call.path := by
      rcases hasked with hasked | hasked
      · rw [Action.stopPath_stop hasked, hpath]
      · simp only [Turn.stop, hasked]
    simp only [hfault, hstop, if_true, settled, hstopped]

/-- How many elements are open behind the event in which the call was made, where the drive ends
with it. -/
def stillOpen (m : Moment H σ) : Nat :=
  match m.phase with
  | .opening => m.session.stack.depth + 1
  | .closing => m.session.stack.depth

/-- How many nodes these elements hold. That of an element that is left is held by the one around it
where that is built. -/
def stillHeld (b : Behavior H σ) (m : Moment H σ) : Nat :=
  if m.phase = .opening ∨ m.session.stack.building = true then
    (m.left b).weight + Frame.held m.session.stack.frames
  else Frame.held m.session.stack.frames

/-- What is reported of a drive that a handler stopped (`_release_on_stop`): where it was stopped,
how many elements were open, and how many nodes they held. -/
def notice (b : Behavior H σ) (m : Moment H σ) : Diagnostic :=
  { severity := .info
    message := .text "Processing stopped by handler"
    component := .text "drive"
    path := .text m.call.path
    details := .record [("open_frames_released", .int m.stillOpen),
      ("nodes_released", .int (m.stillHeld b))]
    correlation := m.session.correlation }

end Moment

/-! ### Records -/

namespace Session

variable {s s' : Session H σ}

/-- The second session is the first one with other records. -/
def Noted (s s' : Session H σ) : Prop := ∃ records, s' = { s with records }

/-- A sample in both leaves them the same but for their records. -/
theorem Noted.sample (h : s.Noted s') (label : String) :
    (s.sample label).Noted (s'.sample label) := by
  obtain ⟨records, rfl⟩ := h
  cases hmonitor : s.monitor with
  | none => exact ⟨records, by simp only [Session.sample, hmonitor]⟩
  | some monitor =>
      refine ⟨Monitor.record label s.correlation :: records, ?_⟩
      simp only [Session.sample, hmonitor, Session.log]

/-- So does one that is due in both. -/
theorem Noted.maybeSample (h : s.Noted s') : s.maybeSample.Noted s'.maybeSample := by
  have hsample := h.sample ("event " ++ toString s.tally.events)
  obtain ⟨records, rfl⟩ := h
  cases hmonitor : s.monitor with
  | none => exact ⟨records, by simp only [Session.maybeSample, hmonitor]⟩
  | some monitor =>
      simp only [Session.maybeSample, hmonitor]
      split
      · simpa only [hmonitor] using hsample
      · exact ⟨records, by rw [hmonitor]⟩

/-- So does giving up frames. -/
theorem Noted.giveUp (h : s.Noted s') (frames : List (Frame H)) :
    (s.giveUp frames).1.Noted (s'.giveUp frames).1 := by
  obtain ⟨records, rfl⟩ := h
  unfold Session.giveUp
  dsimp only
  split
  · exact ⟨records, rfl⟩
  · exact ⟨_, rfl⟩

/-- So does the end of a stopped drive. -/
theorem Noted.endStopped (h : s.Noted s') : s.endStopped.Noted s'.endStopped := by
  obtain ⟨records, rfl⟩ := h
  obtain ⟨records', hclear⟩ := Noted.giveUp
    (s := { s with stack := s.stack.cleared }) ⟨records, rfl⟩ s.stack.frames
  have hcounts := s.clear_counts
  have hcounts' := ({ s with records } : Session H σ).clear_counts
  unfold Session.clear at hcounts hcounts'
  dsimp only at hcounts hcounts'
  refine ⟨records', ?_⟩
  simp only [Session.endStopped, Session.clear, hclear, hcounts, hcounts']
  rfl

/-- What is done behind the calls does not depend on the records. -/
theorem Noted.afterCalls (h : s.Noted s') (phase : Phase) (f : Frame H) :
    (Session.afterCalls phase (s, f, none)).1.Noted (Session.afterCalls phase (s', f, none)).1 ∧
      (Session.afterCalls phase (s', f, none)).2 = (Session.afterCalls phase (s, f, none)).2 := by
  obtain ⟨records, rfl⟩ := h
  cases phase with
  | opening => exact ⟨⟨records, rfl⟩, rfl⟩
  | closing =>
      unfold Session.afterCalls
      dsimp only
      cases s.stack.settle f s.ledger with
      | error flaw => exact ⟨⟨records, rfl⟩, rfl⟩
      | ok settled => exact ⟨⟨_, rfl⟩, rfl⟩

end Session

/-! ### Stops -/

namespace Moment

variable {b q : Behavior H σ} {m : Moment H σ}

/-- Where a handler asks for a stop the event is brought to its end without a fault. -/
theorem Stops.last_eq (h : m.Stops b) (horderly : m.Orderly) :
    (m.last b).2 = none ∧ (m.last b).1.stopPath = some m.call.path ∧
      (m.last b).1.pulled = m.session.pulled ∧
      (m.last b).1.diagnostics = m.session.diagnostics ∧
      (m.last b).1.correlation = m.session.correlation ∧
      (m.last b).1.stack.frames.length = m.stillOpen ∧
      Frame.held (m.last b).1.stack.frames = m.stillHeld b := by
  obtain ⟨records, houtcome⟩ := h.outcome_eq horderly.going
  have hshapes : ∀ {st st' : Stack H}, st'.shapes = st.shapes →
      st'.frames.length = st.frames.length := by
    intro st st' heq
    simpa [Stack.shapes] using congrArg List.length heq
  unfold Moment.last stillOpen stillHeld
  rw [houtcome]
  cases m.phase with
  | opening =>
      dsimp only [Session.afterCalls]
      obtain ⟨_, _, hsample⟩ := Session.maybeSample_eq
        { m.session with
          stack := m.session.stack.push (m.left b)
          tally := m.session.tally.called .opening
          stopPath := some m.call.path
          calls := m.call :: m.session.calls
          records
          world := (m.ending b).2.1 }
      rw [hsample]
      exact ⟨rfl, rfl, rfl, rfl, rfl, rfl, Frame.held_cons _ _⟩
  | closing =>
      -- the node of the element still goes where it belongs
      obtain ⟨fate, st, l, hsettle, hsame, -, hheld, -⟩ :=
        Stack.settle_kept horderly.whole.stack.around (m.left b) m.session.ledger
      dsimp only [Session.afterCalls] at hsettle ⊢
      rw [hsettle]
      dsimp only
      generalize hsettled : Session.tell _ _ _ _ = settled
      obtain ⟨_, _, hsample⟩ := settled.maybeSample_eq
      rw [hsample, ← hsettled]
      refine ⟨rfl, rfl, rfl, rfl, rfl, hshapes hsame, ?_⟩
      refine hheld.trans (if_congr ?_ rfl rfl)
      simp

/-- It does not matter in which way a handler asks for a stop. -/
theorem Stops.noted (hb : m.Stops b) (hq : m.Stops q) (hgoing : m.session.stopPath = none)
    (hleft : m.left q = m.left b) (hworld : (m.ending q).2.1 = (m.ending b).2.1) :
    (m.last b).1.Noted (m.last q).1 ∧ (m.last q).2 = (m.last b).2 := by
  obtain ⟨records, houtcome⟩ := hb.outcome_eq hgoing
  obtain ⟨records', houtcome'⟩ := hq.outcome_eq hgoing
  rw [hleft, hworld] at houtcome'
  unfold Moment.last
  rw [houtcome, houtcome']
  generalize hstart : ({ m.session with
    tally := m.session.tally.called m.phase
    stopPath := some m.call.path
    calls := m.call :: m.session.calls
    records
    world := (m.ending b).2.1 } : Session H σ) = start
  obtain ⟨hnoted, hfault⟩ :=
    Session.Noted.afterCalls (s := start) ⟨records', rfl⟩ m.phase (m.left b)
  rw [← hstart] at hnoted hfault ⊢
  generalize Session.afterCalls m.phase (_, m.left b, none) = one at hnoted hfault ⊢
  generalize Session.afterCalls m.phase (_, m.left b, none) = other at hnoted hfault ⊢
  obtain ⟨s, fault⟩ := one
  obtain ⟨s', fault'⟩ := other
  dsimp only at hnoted hfault
  subst hfault
  cases fault' with
  | some fault => exact ⟨hnoted, rfl⟩
  | none => exact ⟨hnoted.maybeSample, rfl⟩

end Moment

/-- A stop is reported at the end of a drive, and what is still held is given up. -/
theorem Session.conclude_stops {s : Session H σ} {path : String} (hstop : s.stopPath = some path) :
    s.conclude none = (s.endStopped, none) ∧ s.endStopped.stopPath = some path ∧
      s.endStopped.diagnostics = s.diagnostics ++
        [{ severity := .info
           message := .text "Processing stopped by handler"
           component := .text "drive"
           path := .text path
           details := .record [("open_frames_released", .int s.stack.frames.length),
             ("nodes_released", .int (Frame.held s.stack.frames))]
           correlation := s.correlation }] ∧
      s.endStopped.ledger.built = s.ledger.built ∧
      s.endStopped.ledger.freed = s.ledger.freed + Frame.held s.stack.frames := by
  have hfree : s.isStuck none = false := by
    simp [Session.isStuck, Session.stopped, hstop]
  obtain ⟨ledger, records, hclear⟩ := s.clear_eq
  obtain ⟨hframes, hnodes⟩ := Prod.ext_iff.mp s.clear_counts
  have hbuilt : s.clear.1.ledger.built = s.ledger.built := by rw [s.clear_ledger]
  have hfreed : s.clear.1.ledger.freed = s.ledger.freed + Frame.held s.stack.frames := by
    rw [s.clear_ledger]
  refine ⟨?_, ?_, ?_, hbuilt, hfreed⟩
  · unfold Session.conclude
    rw [hfree]
    simp [Session.stopped, hstop]
  · unfold Session.endStopped
    dsimp only [Session.diagnose]
    rw [hclear]
    exact hstop
  · unfold Session.endStopped
    dsimp only [Session.diagnose]
    rw [hclear, hframes, hnodes]
    simp only [hstop]
    rfl

namespace Dispatcher

section Stops

variable {b : Behavior H σ} {d : Dispatcher H} (hidle : d.driving = false) (t : Markup.Tokenizer)
  {around : Surroundings} {typeName : String} {feed : Feed} {closable : Bool} {world : σ}
  {before after : List (Moment H σ)} {m : Moment H σ}
  (hcalls : (d.engaged.session around (.items typeName feed closable) world).moments b feed =
    before ++ m :: after)
  (hbefore : ∀ p ∈ before, p.Passes b) (hm : m.Stops b)

include hidle hcalls hbefore hm

/-- What comes of a drive that a handler stops is what comes of the session behind the event in
which it did. -/
theorem drive_of_stops :
    d.drive b t around (.items typeName feed closable) world =
      (outcome ((m.last b).1.endStopped.sample "end") none around.elapsed closable,
        { d with ledger := ((m.last b).1.endStopped.sample "end").ledger }) := by
  obtain ⟨-, horderly, hended⟩ := runSession_breaks hcalls hbefore hm.not_passes
  obtain ⟨hnone, hstop, -⟩ := hm.last_eq horderly
  rw [d.drive_items hidle, hended, hnone, (Session.conclude_stops hstop).1]

/-- The drive reports that it was cancelled, and it observes so once more than it had observed
anything. -/
theorem report_of_stops :
    ∃ report, (d.drive b t around (.items typeName feed closable) world).1.result = .ok report ∧
      report.completed = false ∧ report.cancelled = true ∧
      report.diagnostics = m.session.diagnostics ++ [m.notice b] ∧
      report.ofSeverity .info = [m.notice b] := by
  obtain ⟨-, horderly, -⟩ := runSession_breaks hcalls hbefore hm.not_passes
  obtain ⟨-, hstop, -, hdiagnostics, hcorrelation, hopen, hheld⟩ := hm.last_eq horderly
  obtain ⟨-, hstop', hobserved, -, -⟩ := Session.conclude_stops hstop
  have hnotice : (m.last b).1.endStopped.diagnostics =
      m.session.diagnostics ++ [m.notice b] := by
    rw [hobserved, hdiagnostics, hcorrelation, hopen, hheld]
    rfl
  have hwarned : m.session.diagnostics.filter (fun d => d.severity == .info) = [] := by
    refine List.filter_eq_nil_iff.mpr fun d hd => ?_
    rw [horderly.whole.warned d hd]
    decide
  obtain ⟨_, _, hsample⟩ := (m.last b).1.endStopped.sample_eq "end"
  rw [drive_of_stops hidle t hcalls hbefore hm, hsample]
  refine ⟨_, rfl, ?_, ?_, hnotice, ?_⟩
  · rw [Session.report, Session.stopped, hstop']
    rfl
  · rw [Session.report, Session.stopped, hstop']
    rfl
  · rw [Session.report, Report.ofSeverity, hnotice, List.filter_append, hwarned]
    rfl

/-- Nothing is taken from the source behind the item at which the drive is stopped. -/
theorem pulled_of_stops :
    (d.drive b t around (.items typeName feed closable) world).1.pulled = m.session.pulled := by
  obtain ⟨-, horderly, -⟩ := runSession_breaks hcalls hbefore hm.not_passes
  obtain ⟨-, hstop, hpulled, -⟩ := hm.last_eq horderly
  obtain ⟨_, _, _, _, hkept⟩ := (m.last b).1.conclude_eq none
  rw [(Session.conclude_stops hstop).1] at hkept
  obtain ⟨_, _, hsample⟩ := (m.last b).1.endStopped.sample_eq "end"
  rw [drive_of_stops hidle t hcalls hbefore hm, pulled_outcome, hsample]
  exact (congrArg Session.pulled hkept).trans hpulled

/-- Where handlers leave the contents of nodes as they are, the nodes given up are those built. -/
theorem live_of_stops (hkeeps : b.KeepsContents) :
    (d.drive b t around (.items typeName feed closable) world).2.ledger.live = 0 := by
  obtain ⟨hgoing, -, hfresh, hdebt⟩ :=
    d.session_fresh around (.items typeName feed closable) world
  obtain ⟨-, horderly, -⟩ := runSession_breaks hcalls hbefore hm.not_passes
  have hrun := (Session.run_breaks feed hgoing hcalls hbefore hm.not_passes).2
  obtain ⟨hnone, hstop, -⟩ := hm.last_eq horderly
  obtain ⟨-, -, -, hbuilt, hfreed⟩ := Session.conclude_stops hstop
  obtain ⟨_, _, hsample⟩ := (m.last b).1.endStopped.sample_eq "end"
  obtain ⟨-, hlast⟩ := Session.orderly_run feed hfresh (b := b) (by rw [hrun]; exact hnone)
  have hlast := hlast hkeeps
  rw [hrun, hdebt, Session.debt] at hlast
  rw [drive_of_stops hidle t hcalls hbefore hm]
  dsimp only
  rw [hsample, Ledger.live, hbuilt, hfreed]
  push_cast
  omega

/-- Both ways to ask for a stop come to the same, records apart: the other drive comes to the same
call and ends with it in a session with other records. -/
theorem drive_stops_alike {q : Behavior H σ} (hq : q.Follows b) (hmq : m.Stops q)
    (hleft : m.left q = m.left b) (hworld : (m.ending q).2.1 = (m.ending b).2.1) :
    ∃ records, d.drive q t around (.items typeName feed closable) world =
      ({ (d.drive b t around (.items typeName feed closable) world).1 with records },
        (d.drive b t around (.items typeName feed closable) world).2) := by
  obtain ⟨hgoing, -, hfresh, -⟩ := d.session_fresh around (.items typeName feed closable) world
  obtain ⟨-, horderly, -⟩ := runSession_breaks hcalls hbefore hm.not_passes
  obtain ⟨later, hlater⟩ := Session.moments_follow hq feed hgoing hcalls hbefore
  have hbefore' : ∀ p ∈ before, p.Passes q := by
    intro p hp
    have hmem :
        p ∈ (d.engaged.session around (.items typeName feed closable) world).moments b feed := by
      rw [hcalls]
      exact List.mem_append_left (m :: after) hp
    exact ((hbefore p hp).follows hq (Session.orderly_moments hfresh hgoing feed hmem).going).1
  obtain ⟨hnoted, -⟩ := hm.noted hmq horderly.going hleft hworld
  obtain ⟨records, hsame⟩ := (hnoted.endStopped).sample "end"
  refine ⟨(d.drive q t around (.items typeName feed closable) world).1.records, ?_⟩
  rw [drive_of_stops hidle t hlater hbefore' hmq, drive_of_stops hidle t hcalls hbefore hm, hsame]
  rfl

end Stops

/-- **A handler that asks for a stop cuts the drive short** (`HandlerContext.stop`, or
`StopProcessing` raised). The calls made are those up to this one, which are the first ones of every
drive with handlers that do the same as long as these return; nothing more is taken from the source,
and it is closed. The drive returns and reports that it was cancelled, and it observes so once more
than it had observed anything: where it was stopped, how many elements were still open and how many
nodes they held. Where the handlers leave the contents of nodes as they are, all nodes that were
built are given up. Both ways to ask for a stop come to the same. -/
theorem drive_stops {b : Behavior H σ} (d : Dispatcher H) (hidle : d.driving = false)
    (t : Markup.Tokenizer) (around : Surroundings) (typeName : String) (feed : Feed)
    (closable : Bool) (world : σ) {before after : List (Moment H σ)} {m : Moment H σ}
    (hcalls : (d.engaged.session around (.items typeName feed closable) world).moments b feed =
      before ++ m :: after)
    (hbefore : ∀ p ∈ before, p.Passes b) (hm : m.Stops b) :
    let source := Source.items typeName feed closable
    let ended := d.drive b t around source world
    (∃ report, ended.1.result = .ok report ∧ report.completed = false ∧ report.cancelled = true ∧
        report.diagnostics = m.session.diagnostics ++ [m.notice b] ∧
        report.ofSeverity .info = [m.notice b]) ∧
      ended.1.calls = (before ++ [m]).map Moment.call ∧
      (∀ q : Behavior H σ, q.Follows b →
        ended.1.calls = (d.drive q t around source world).1.calls.take (before.length + 1)) ∧
      ended.1.pulled = m.session.pulled ∧
      ended.1.closes = (if closable then 1 else 0) ∧
      (b.KeepsContents → ended.2.ledger.live = 0) ∧
      ended.2.driving = false ∧ ended.2.book = d.book ∧
      ∀ q : Behavior H σ, q.Follows b → m.Stops q → m.left q = m.left b →
        (m.ending q).2.1 = (m.ending b).2.1 →
        ∃ records, d.drive q t around source world = ({ ended.1 with records }, ended.2) := by
  intro source ended
  obtain ⟨rfl, -, -⟩ := runSession_breaks hcalls hbefore hm.not_passes
  have hdrive : ended = _ := drive_of_stops hidle t hcalls hbefore hm
  have hmade : ended.1.calls = (before ++ [m]).map Moment.call := by
    rw [calls_drive d hidle, hcalls]
  refine ⟨report_of_stops hidle t hcalls hbefore hm, hmade, fun q hq => ?_,
    pulled_of_stops hidle t hcalls hbefore hm, ?_, live_of_stops hidle t hcalls hbefore hm, ?_, ?_,
    fun q => drive_stops_alike hidle t hcalls hbefore hm⟩
  · rw [hmade, calls_drive_follow hidle t hcalls hbefore hq]
  · rw [hdrive]
    rfl
  · rw [hdrive]
    exact hidle
  · rw [hdrive]

/-- Whatever the handler of the second item does, up to it all is as where it asks for a stop. -/
theorem thenDoing_follows_stop (later : Action Nat) (left : Nat) :
    (thenDoing later).Follows (thenDoing (.stop (.finish left))) := by
  intro c n t ht _ hgoing
  by_cases hn : n = 0
  · subst hn
    rfl
  · have hstops : thenDoing (.stop (.finish left)) c n = .stop (.finish left) := if_neg hn
    rw [hstops] at hgoing
    have hstopped : t.stop.stopPath = none := hgoing
    rw [Action.stopPath_stop ht] at hstopped
    cases hstopped

/-- To ask for a stop leaves the contents of the node as they are. -/
theorem thenDoing_stop_keeps (left : Nat) :
    (thenDoing (.stop (.finish left))).KeepsContents := by
  intro c n t
  show ((if n = 0 then Action.finish 1 else .stop (.finish left)).run t).1.frame.contents = _
  split
  · rfl
  · exact congrArg Frame.contents t.frame_stop

/-- Where the handler of the second item asks for a stop, in either way, the node of the list is
given up at the end with those of the items in it. -/
theorem drive_stops_pairList :
    let b := thenDoing (.stop (.finish 2))
    let q := thenDoing (.raise (.thrown .stop .null) 2)
    let ended := attentive.drive b refusing calm (.items "list" pairList true) 0
    attentive.driving = false ∧ q.Follows b ∧
      (∃ first m : Moment Unit Nat,
        (attentive.engaged.session calm (.items "list" pairList true) 0).moments b pairList =
            [first] ++ m :: [] ∧
          (∀ p ∈ [first], p.Passes b) ∧ m.Stops b ∧ m.Stops q ∧ m.left q = m.left b ∧
          (m.ending q).2.1 = (m.ending b).2.1) ∧
      (∃ report, ended.1.result = .ok report ∧ report.cancelled = true ∧
        (report.ofSeverity .info).map (fun d => (d.path, d.details)) =
          [(.text "/list/item", .record [("open_frames_released", .int 1),
            ("nodes_released", .int 3)])]) ∧
      ended.2.ledger.live = 0 ∧
      ∃ records, attentive.drive q refusing calm (.items "list" pairList true) 0 =
        ({ ended.1 with records }, ended.2) := by
  intro b q ended
  have hq : q.Follows b := thenDoing_follows_stop _ 2
  have hview : ((attentive.engaged.session calm (.items "list" pairList true) 0).moments b
      pairList).map (fun m => (m.session.world, m.session.stopPath, m.call.path, m.stillOpen,
        m.frame.contents, m.session.stack.frames.map fun f => (f.materializing, f.contents))) =
      [(0, none, "/list/item", 1, some [], [(true, some [])]),
        (1, none, "/list/item", 1, some [],
          [(true, some [.element ⟨"item", "/list/item", [], .int 1, .keep⟩ []])])] := rfl
  obtain ⟨first, m, hmoments⟩ : ∃ first m : Moment Unit Nat,
      (attentive.engaged.session calm (.items "list" pairList true) 0).moments b pairList =
        [first] ++ m :: [] :=
    List.length_eq_two.mp (by simpa using congrArg List.length hview)
  rw [hmoments] at hview
  simp only [List.cons_append, List.nil_append, List.map_cons, List.map_nil, List.cons.injEq,
    Prod.mk.injEq] at hview
  obtain ⟨⟨hfresh, hgoing, -⟩, ⟨hworld, hgoing', hpath, hopen, hcontents, haround⟩, -⟩ := hview
  obtain ⟨parent, hparent, hbuilt⟩ := List.map_eq_singleton_iff.mp haround
  obtain ⟨hbuilding, hheld⟩ := Prod.mk.inj hbuilt
  -- what the handlers do depends on what the first one left
  have hfirst : ∀ p ∈ [first], p.Passes b := by
    refine List.forall_mem_singleton.mpr ?_
    rw [Moment.Passes, Moment.ending, hfresh]
    exact ⟨rfl, hgoing⟩
  have hb : m.ending b = ((m.session.turn m.phase m.frame).stop, 2, none) := by
    rw [Moment.ending, hworld]
    rfl
  have hq' : m.ending q = (m.session.turn m.phase m.frame, 2, some (.thrown .stop .null)) := by
    rw [Moment.ending, hworld]
    rfl
  have hstop : m.Stops b := by
    refine .inl ⟨by rw [hb], ?_⟩
    rw [hb, Action.stopPath_stop hgoing']
    rfl
  have hstop' : m.Stops q := .inr ⟨_, by rw [hq'], rfl⟩
  have hleft : m.left b = m.frame := by
    rw [Moment.left, hb]
    exact Turn.frame_stop _
  have hleft' : m.left q = m.left b := by
    rw [hleft, Moment.left, hq']
    rfl
  have hkept : (m.ending q).2.1 = (m.ending b).2.1 := by rw [hb, hq']
  have hnodes : m.stillHeld b = 3 := by
    have hinside : m.session.stack.building = true := by
      rw [Stack.building, hparent]
      exact hbuilding
    rw [Moment.stillHeld, if_pos (.inr hinside), hleft, hparent, Frame.held_cons, Frame.held_nil,
      Frame.weight, hcontents, Frame.weight, hheld]
    rfl
  obtain ⟨⟨report, hresult, -, hcancelled, -, hinfo⟩, -, -, -, -, hlive, -, -, hways⟩ :=
    drive_stops attentive rfl refusing calm "list" pairList true 0 hmoments hfirst hstop
  refine ⟨rfl, hq, ⟨first, m, hmoments, hfirst, hstop, hstop', hleft', hkept⟩,
    ⟨report, hresult, hcancelled, ?_⟩, ?_, hways q hq hstop' hleft' hkept⟩
  · rw [hinfo, List.map_singleton, Moment.notice, hpath, hopen, hnodes]
    rfl
  · exact hlive (thenDoing_stop_keeps 2)

/-- An element with nothing in it. -/
def loneElement : Feed := .ofItems [.event (.opened "a" [] 1), .event (.closed "a" 1)]

/-- Handlers that put an element into the node and ask for a stop. -/
def fillingUp : Behavior Unit Unit :=
  fun _ w => .append (.element ⟨"b", "/a/b", [], .int 1, .keep⟩ []) (.stop (.finish w))

/-- What handlers put into nodes is given up without ever having been built: where one of them does
so and asks for a stop the books are not even. -/
theorem not_even_of_stops :
    ¬ ∀ (d : Dispatcher Unit) (b : Behavior Unit Unit) (feed : Feed)
        (before after : List (Moment Unit Unit)) (m : Moment Unit Unit), d.driving = false →
        (d.engaged.session calm (.items "list" feed true) ()).moments b feed =
          before ++ m :: after →
        (∀ p ∈ before, p.Passes b) → m.Stops b →
        (d.drive b refusing calm (.items "list" feed true) ()).2.ledger.live = 0 := by
  intro h
  have hview : ((attentive.engaged.session calm (.items "list" loneElement true) ()).moments
      fillingUp loneElement).map (fun m => ((m.ending fillingUp).2.2.isNone,
        (m.ending fillingUp).1.stopPath)) = [(true, some "/a")] := rfl
  obtain ⟨m, hmoments, hending⟩ := List.map_eq_singleton_iff.mp hview
  simp only [Prod.mk.injEq] at hending
  obtain ⟨hnone, hpath⟩ := hending
  have hbegin : ∀ p ∈ ([] : List (Moment Unit Unit)), p.Passes fillingUp :=
    fun p hp => absurd hp List.not_mem_nil
  have hstop : m.Stops fillingUp :=
    .inl ⟨Option.isNone_iff_eq_none.mp hnone, by rw [hpath]; rfl⟩
  have hbuilt : (attentive.drive fillingUp refusing calm (.items "list" loneElement true)
      ()).2.ledger.built = 1 := by rfl
  have hfreed : (attentive.drive fillingUp refusing calm (.items "list" loneElement true)
      ()).2.ledger.freed = 2 := by decide +kernel
  have hlive := h attentive fillingUp loneElement [] [] m rfl hmoments hbegin hstop
  rw [Ledger.live, hbuilt, hfreed] at hlive
  exact absurd hlive (by decide)

end Dispatcher

end MarkupRouting
