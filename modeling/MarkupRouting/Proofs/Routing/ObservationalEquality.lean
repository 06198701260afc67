import MarkupRouting.Proofs.Routing.Moments
import MarkupRouting.Routing.Dispatcher

/-!
# What is seen of a drive

Nobody who looks at the calls of a drive and at its report sees which records were made, or who was
told of the nodes that were built. Of the identity of the run as much is seen as one chooses to
look at. Drives that cannot be told apart at the beginning cannot be told apart at the end.

* **Session.view**, **Turn.view**, **Outcome.view** — what is seen of a session, a turn, an outcome.
* **Behavior.Matches** — handlers that do the same, as far as is seen.
* **Session.view_stage**, **view_conclude** — what is seen behind a step is what comes of what was
  seen before it.
* **Session.view_invoke**, **view_take**, **view_run** — the same of steps in which handlers are
  called.
* **Dispatcher.openSource_alike** — a source hands out the same for every run, records aside.
* **Dispatcher.view_drive** — what is seen of a drive depends on what is seen of its beginning.
-/

namespace MarkupRouting

variable {H σ : Type} {e : Value → Value}

/-! ### Views -/

/-- What is counted in a ledger, without those who are told of it. -/
def Ledger.counts (l : Ledger) : Ledger := { l with observers := [], told := [] }

/-- A call with what is seen of the identity of its run. -/
def Call.view (e : Value → Value) (c : Call H) : Call H := { c with correlation := e c.correlation }

/-- An observation with what is seen of the identity of its run. -/
def Diagnostic.view (e : Value → Value) (d : Diagnostic) : Diagnostic :=
  { d with correlation := e d.correlation }

/-- What is seen of a turn: neither the identity of the run nor the records. -/
def Turn.view (t : Turn H) : Turn H := { t with correlation := .null, records := [] }

namespace Session

/-- The session without the records made. -/
def unrecorded (s : Session H σ) : Session H σ := { s with records := [] }

/-- What is seen of a session: everything but the records and those who are told of nodes. Of the
identity of the run as much is seen as `e` shows; it is generated anew for each run unless the
settings give one. -/
def view (e : Value → Value) (s : Session H σ) : Session H σ :=
  { s with
    correlation := e s.correlation
    ledger := s.ledger.counts
    diagnostics := s.diagnostics.map (·.view e)
    calls := s.calls.map (·.view e)
    records := [] }

end Session

namespace Stage

/-- The stage without the records made. -/
def unrecorded : Stage H σ → Stage H σ
  | settled s fault => settled s.unrecorded fault
  | calling phase rules s f => calling phase rules s.unrecorded f

/-- What is seen of a stage. -/
def view (e : Value → Value) : Stage H σ → Stage H σ
  | settled s fault => settled (s.view e) fault
  | calling phase rules s f => calling phase rules (s.view e) f

end Stage

/-! ### Steps without calls -/

/-- Giving up frames is counted whoever is told of it. -/
theorem Frame.counts_releaseAll (frames : List (Frame H)) (l : Ledger) :
    (releaseAll frames l).2.counts = (releaseAll frames l.counts).2 := by
  induction frames generalizing l with
  | nil => rfl
  | cons f rest ih =>
      have hfirst : (f.release l).2.counts = (f.release l.counts).2 := by
        unfold Frame.release
        cases f.node? with
        | none => rfl
        | some n => rfl
      have hrest := ih (f.release l).2
      rw [hfirst] at hrest
      exact hrest

/-- What becomes of a node does not depend on who is told of it. -/
theorem Stack.settle_counts (st : Stack H) (f : Frame H) (l : Ledger) :
    st.settle f l.counts =
      (st.settle f l).map fun settled => (settled.1, settled.2.1, settled.2.2.counts) := by
  unfold Stack.settle
  cases f.node? with
  | none => rfl
  | some n =>
      cases st.frames with
      | nil => rfl
      | cons parent rest =>
          dsimp only
          split
          · cases parent.adopt n with
            | error flaw => rfl
            | ok parent => rfl
          · rfl

namespace Session

section Fields

variable (e : Value → Value) (s : Session H σ)

/-- A view shows the whole stack. -/
@[simp] theorem stack_view : (s.view e).stack = s.stack := rfl

/-- A view shows all that is counted. -/
@[simp] theorem tally_view : (s.view e).tally = s.tally := rfl

/-- A view shows what is counted in the ledger. -/
@[simp] theorem ledger_view : (s.view e).ledger = s.ledger.counts := rfl

/-- A view shows all samples. -/
@[simp] theorem monitor_view : (s.view e).monitor = s.monitor := rfl

/-- A view shows whether text was met outside of elements. -/
@[simp] theorem strayText_view : (s.view e).strayText = s.strayText := rfl

/-- A view shows whether a handler asked for a stop. -/
@[simp] theorem stopped_view : (s.view e).stopped = s.stopped := rfl

/-- A view shows whether the end of the drive can name its path. -/
@[simp] theorem isStuck_view (fault : Option Fault) :
    (s.view e).isStuck fault = s.isStuck fault := rfl

end Fields

/-- An observation (`add_diagnostic`) is seen as one made of what is seen. -/
theorem view_diagnose (s : Session H σ) (severity : Severity) (message : String)
    (path : Option String) (details : Option (Table Value)) :
    (s.diagnose severity message path details).view e =
      (s.view e).diagnose severity message path details := by
  simp only [diagnose, view, List.map_append, List.map_cons, List.map_nil]
  rfl

/-- A sample is seen as one taken in the view. -/
theorem view_sample (s : Session H σ) (label : String) :
    (s.sample label).view e = ((s.view e).sample label).unrecorded := by
  unfold sample
  rw [monitor_view]
  cases s.monitor with
  | none => rfl
  | some m => rfl

/-- So is a sample that is due. -/
theorem view_maybeSample (s : Session H σ) :
    s.maybeSample.view e = (s.view e).maybeSample.unrecorded := by
  unfold maybeSample
  rw [monitor_view, tally_view]
  cases s.monitor with
  | none => rfl
  | some m =>
      dsimp only
      split
      · exact s.view_sample _
      · rfl

/-- Giving up frames is seen as giving them up in the view, and fails alike. -/
theorem view_giveUp (s : Session H σ) (frames : List (Frame H)) :
    (s.giveUp frames).1.view e = ((s.view e).giveUp frames).1.unrecorded ∧
      (s.giveUp frames).2 = ((s.view e).giveUp frames).2 := by
  unfold giveUp
  dsimp only
  rw [ledger_view, ← Frame.counts_releaseAll]
  split
  · exact ⟨rfl, rfl⟩
  · exact ⟨rfl, rfl⟩

/-- Entering an element is seen as entering it in the view (`_on_open`). -/
theorem view_entering (s : Session H σ) (name : String) (attributes : Table Value) :
    (s.entering name attributes).1.view e = ((s.view e).entering name attributes).1.unrecorded ∧
      (s.entering name attributes).2 = ((s.view e).entering name attributes).2 := by
  unfold entering
  dsimp only
  rw [stack_view, ledger_view]
  unfold Frame.start
  split
  · exact ⟨rfl, rfl⟩
  · exact ⟨rfl, rfl⟩

/-- Hearing a text is seen as hearing it in the view (`_on_text`). -/
theorem view_hear (s : Session H σ) (text : String) :
    (s.hear text).view e = ((s.view e).hear text).unrecorded := by
  unfold hear
  rw [stack_view, strayText_view]
  split_ifs
  · rfl
  · rw [view_diagnose]
    rfl
  · rfl

/-- Entering an element whose name is no text is seen as doing so in the view, and fails alike. -/
theorem view_enterMisnamed (s : Session H σ) (name : Value) :
    (s.enterMisnamed name).1.view e = ((s.view e).enterMisnamed name).1.unrecorded ∧
      (s.enterMisnamed name).2 = ((s.view e).enterMisnamed name).2 := by
  unfold enterMisnamed
  rw [stack_view]
  dsimp only
  split_ifs
  · exact ⟨rfl, rfl⟩
  · exact ⟨rfl, rfl⟩
  · exact ⟨rfl, rfl⟩
  · exact ⟨rfl, rfl⟩

/-- Hearing something that is no text is seen as doing so in the view, and fails alike. -/
theorem view_mishear (s : Session H σ) :
    s.mishear.1.view e = (s.view e).mishear.1.unrecorded ∧ s.mishear.2 = (s.view e).mishear.2 := by
  unfold mishear
  rw [stack_view]
  split_ifs
  · exact ⟨rfl, rfl⟩
  · exact ⟨rfl, rfl⟩

/-- What is seen before the calls of an item comes of what was seen before the item. -/
theorem view_stage (s : Session H σ) (i : Item) :
    (s.stage i).view e = ((s.view e).stage i).unrecorded := by
  cases i with
  | event event =>
      cases event with
      | opened name attributes depth =>
          obtain ⟨hsession, hframe⟩ := s.view_entering (e := e) name attributes
          unfold stage
          dsimp only
          rw [stack_view, ← hframe]
          split_ifs
          · rfl
          · rfl
          · exact congrArg (Stage.calling _ _ · _) hsession
      | text text depth => exact congrArg (Stage.settled · none) (s.view_hear text)
      | closed name depth =>
          unfold stage
          dsimp only
          rw [stack_view]
          cases s.stack.leave? with
          | none => rfl
          | some top =>
              dsimp only
              split_ifs
              · rfl
              · rfl
              · rfl
  | misnamed name =>
      obtain ⟨hsession, hfault⟩ := s.view_enterMisnamed (e := e) name
      exact congrArg₂ Stage.settled hsession hfault
  | notText =>
      obtain ⟨hsession, hfault⟩ := s.view_mishear (e := e)
      exact congrArg₂ Stage.settled hsession hfault
  | foreign typeName => rfl

/-- What is seen behind the calls for an element comes of what was seen when they were made. -/
theorem view_afterCalls (phase : Phase) (s : Session H σ) (f : Frame H) (fault : Option Fault) :
    (afterCalls phase (s, f, fault)).1.view e =
        (afterCalls phase (s.view e, f, fault)).1.unrecorded ∧
      (afterCalls phase (s, f, fault)).2 = (afterCalls phase (s.view e, f, fault)).2 := by
  cases phase with
  | opening => exact ⟨rfl, rfl⟩
  | closing =>
      cases fault with
      | some fault =>
          refine ⟨?_, rfl⟩
          unfold afterCalls
          dsimp only
          split
          · exact (s.view_giveUp [f]).1
          · rfl
      | none =>
          unfold afterCalls
          dsimp only
          rw [stack_view, ledger_view, Stack.settle_counts]
          cases s.stack.settle f s.ledger with
          | error flaw => exact ⟨rfl, rfl⟩
          | ok settled => exact ⟨rfl, rfl⟩

/-- Giving up all that is open is seen as doing so in the view. -/
theorem view_clear (s : Session H σ) :
    s.clear.1.view e = (s.view e).clear.1.unrecorded ∧ s.clear.2 = (s.view e).clear.2 := by
  obtain ⟨hsession, hcount⟩ :=
    ({ s with stack := s.stack.cleared } : Session H σ).view_giveUp (e := e) s.stack.frames
  exact ⟨hsession, congrArg (Prod.mk s.stack.frames.length) hcount⟩

/-- What is seen of the end of a drive comes of what was seen before it. -/
theorem view_conclude (s : Session H σ) (fault : Option Fault) :
    (s.conclude fault).1.view e = ((s.view e).conclude fault).1.unrecorded ∧
      (s.conclude fault).2 = ((s.view e).conclude fault).2 := by
  obtain ⟨hclear, hcounts⟩ := s.view_clear (e := e)
  obtain ⟨hframes, hnodes⟩ := Prod.ext_iff.mp hcounts
  unfold conclude
  rw [isStuck_view, stopped_view]
  split
  · exact ⟨rfl, rfl⟩
  · cases fault with
    | some fault => exact ⟨hclear, rfl⟩
    | none =>
        dsimp only
        split
        · refine ⟨?_, rfl⟩
          have hpath : s.clear.1.stopPath = (s.view e).clear.1.stopPath :=
            (congrArg stopPath hclear :)
          unfold endStopped
          dsimp only
          rw [view_diagnose, hclear, hframes, hnodes, hpath]
          rfl
        · refine ⟨?_, rfl⟩
          unfold endFed
          rw [stack_view]
          split
          · rfl
          · dsimp only
            rw [view_diagnose, hclear, hframes]
            rfl

end Session

/-! ### Calls -/

namespace Turn

/-- A request to stop is seen as one in the view. -/
theorem view_stop (t : Turn H) : t.stop.view = t.view.stop.view := by
  unfold stop
  cases ht : t.stopPath with
  | none =>
      have hview : t.view.stopPath = none := ht
      rw [hview]
      rfl
  | some path =>
      have hview : t.view.stopPath = some path := ht
      rw [hview]
      rfl

/-- What is put into a node is seen as put into it in the view. -/
theorem view_append (t : Turn H) (c : Content) : (t.append c).view = t.view.append c := by
  have hphase : t.view.phase = t.phase := rfl
  unfold append
  rw [hphase]
  cases t.phase with
  | opening => rfl
  | closing => rfl

/-- A changed node is seen as changed in the view. -/
theorem view_remake (t : Turn H) (n : Node) : (t.remake n).view = t.view.remake n := by
  have hphase : t.view.phase = t.phase := rfl
  unfold remake
  rw [hphase]
  cases t.phase with
  | opening => rfl
  | closing => rfl

end Turn

/-- What a handler does depends on what is seen of its turn, and so does what is seen of it then. -/
theorem Action.run_view (a : Action σ) {t t' : Turn H} (h : t.view = t'.view) :
    (a.run t).1.view = (a.run t').1.view ∧ (a.run t).2 = (a.run t').2 := by
  induction a generalizing t t' with
  | finish w => exact ⟨h, rfl⟩
  | raise fault w => exact ⟨h, rfl⟩
  | stop next ih => exact ih (by rw [t.view_stop, t'.view_stop, h])
  | setAttribute name value next ih => exact ih (congrArg (·.setAttribute name value) h)
  | append c next ih => exact ih (by rw [t.view_append, t'.view_append, h])
  | remake n next ih => exact ih (by rw [t.view_remake, t'.view_remake, h])
  | look next ih =>
      have hsubject : t.subject = t'.subject := (congrArg Turn.subject h :)
      have hstop : t.stopPath = t'.stopPath := (congrArg Turn.stopPath h :)
      simp only [Action.run, hsubject, hstop]
      exact ih _ _ h
  | ask request next ih =>
      have hdriving : t.driving = t'.driving := (congrArg Turn.driving h :)
      simp only [Action.run, hdriving]
      exact ih _ h
  | note records next ih => exact ih h

namespace Behavior

variable {b b' : Behavior H σ}

/-- While a dispatcher drives, the second handlers do what the first ones do, as far as is seen of
their calls and of what comes of them. -/
def Matches (e : Value → Value) (b b' : Behavior H σ) : Prop :=
  ∀ (c c' : Call H) (w : σ) (t t' : Turn H), c.view e = c'.view e → t.view = t'.view →
    t.driving = true → ((b c w).run t).1.view = ((b' c' w).run t').1.view ∧
      ((b c w).run t).2 = ((b' c' w).run t').2

/-- Handlers that others match match themselves. -/
theorem Matches.refl_right (h : b.Matches e b') : b'.Matches e b' := by
  intro c c' w t t' hc ht hdriving
  obtain ⟨hview, hrest⟩ := h c c w t t rfl rfl hdriving
  obtain ⟨hview', hrest'⟩ := h c c w t t rfl rfl hdriving
  obtain ⟨hview'', hrest''⟩ := h c c' w t t' hc ht hdriving
  exact ⟨hview.symm.trans hview'', hrest.symm.trans hrest''⟩

/-- Handlers that see of the identity of a run no more than is looked at. -/
def Sees (e : Value → Value) (b : Behavior H σ) : Prop :=
  ∀ (c c' : Call H) (w : σ), c.view e = c'.view e → b c w = b c' w

/-- Such handlers do the same where the same is seen. -/
theorem Sees.matches (h : b.Sees e) : b.Matches e b := by
  intro c c' w t t' hc ht _
  rw [h c c' w hc]
  exact (b c' w).run_view ht

end Behavior

namespace Moment

variable {b b' : Behavior H σ} {m m' : Moment H σ}

/-- What is seen of a moment. -/
def view (e : Value → Value) (m : Moment H σ) : Moment H σ := { m with session := m.session.view e }

/-- What is seen of how a handler ends depends on what is seen of the moment at which it is
called. -/
theorem view_ending (hb : b.Matches e b') (h : m.view e = m'.view e)
    (hdriving : m.session.driving = true) :
    (m.ending b).1.view = (m'.ending b').1.view ∧ (m.ending b).2 = (m'.ending b').2 := by
  have hcall : m.call.view e = m'.call.view e := (congrArg call h :)
  have hturn : (m.session.turn m.phase m.frame).view = (m'.session.turn m'.phase m'.frame).view :=
    (congrArg (fun m => (m.session.turn m.phase m.frame).view) h :)
  have hworld : m.session.world = m'.session.world := (congrArg (fun m => m.session.world) h :)
  rw [ending, ending, ← hworld]
  exact hb _ _ _ _ _ hcall hturn hdriving

/-- What is left of a session behind its calls is seen as what is left of the view. -/
theorem view_settled (m : Moment H σ) (t : Turn H) (w : σ) :
    (m.settled t w).view e = ((m.view e).settled t.view w).unrecorded := rfl

/-- What is seen behind a call depends on what is seen of the moment at which it is made. -/
theorem view_outcome (hb : b.Matches e b') (h : m.view e = m'.view e)
    (hdriving : m.session.driving = true) :
    (m.outcome b).1.view e = (m'.outcome b').1.view e ∧ (m.outcome b).2 = (m'.outcome b').2 := by
  have hending := view_ending hb h hdriving
  have hreport : m.report = m'.report := (congrArg report h :)
  rw [outcome_eq, outcome_eq, left, left]
  generalize m.ending b = ending at hending ⊢
  generalize m'.ending b' = ending' at hending ⊢
  obtain ⟨t, w, fault⟩ := ending
  obtain ⟨t', w', fault'⟩ := ending'
  obtain ⟨ht, hrest⟩ := hending
  cases hrest
  have hframe : t.frame = t'.frame := (congrArg Turn.frame ht :)
  have hsettled : ∀ {t t' : Turn H}, t.view = t'.view →
      (m.settled t w).view e = (m'.settled t' w).view e := by
    intro t t' ht
    rw [view_settled, view_settled, h, ht]
  rw [hframe, hreport]
  cases fault with
  | none => exact ⟨hsettled ht, rfl⟩
  | some cause =>
      have ht : t.view = t'.view := ht
      have hstopped : t.stop.view = t'.stop.view := by rw [t.view_stop, t'.view_stop, ht]
      dsimp only
      split
      · exact ⟨hsettled hstopped, rfl⟩
      · exact ⟨hsettled ht, rfl⟩

end Moment

namespace Session

variable {b b' : Behavior H σ} {s s' : Session H σ}

/-- What is seen of a call depends on what is seen of the session in which it is made. -/
theorem view_invoke (hb : b.Matches e b') (h : s.view e = s'.view e) (hdriving : s.driving = true)
    (phase : Phase) (handler : H) (r : Rule H) (f : Frame H) :
    (s.invoke b phase handler r f).1.view e = (s'.invoke b' phase handler r f).1.view e ∧
      (s.invoke b phase handler r f).2 = (s'.invoke b' phase handler r f).2 := by
  have hmoment : (⟨s, f, phase, handler, r⟩ : Moment H σ).view e =
      (⟨s', f, phase, handler, r⟩ : Moment H σ).view e :=
    congrArg (fun s => (⟨s, f, phase, handler, r⟩ : Moment H σ)) h
  exact Moment.view_outcome hb hmoment hdriving

/-- What is seen of the calls for an element depends on what is seen of the session before them. -/
theorem view_invokeAll (hb : b.Matches e b') (h : s.view e = s'.view e)
    (hdriving : s.driving = true) (phase : Phase) (rules : List (Rule H)) (f : Frame H) :
    (invokeAll b phase rules s f).1.view e = (invokeAll b' phase rules s' f).1.view e ∧
      (invokeAll b phase rules s f).2 = (invokeAll b' phase rules s' f).2 := by
  induction rules generalizing s s' f with
  | nil => exact ⟨h, rfl⟩
  | cons r rest ih =>
      cases hr : handlerOf phase r with
      | none =>
          simp only [invokeAll, hr]
          exact ih h hdriving f
      | some handler =>
          obtain ⟨hview, hrest⟩ := view_invoke hb h hdriving phase handler r f
          have hkept : (s.invoke b phase handler r f).1.driving = true := by
            obtain ⟨_, _, _, _, _, hbeside⟩ := s.beside_invoke b phase handler r f
            rw [hbeside]
            exact hdriving
          simp only [invokeAll, hr]
          generalize s.invoke b phase handler r f = called at hview hrest hkept ⊢
          generalize s'.invoke b' phase handler r f = called' at hview hrest ⊢
          obtain ⟨s, f, fault⟩ := called
          obtain ⟨s', f', fault'⟩ := called'
          cases hrest
          have hstopped : s.stopped = s'.stopped := (congrArg stopped hview :)
          dsimp only
          rw [hstopped]
          split
          · exact ⟨hview, rfl⟩
          · exact ih hview hkept f

end Session

/-- Whatever is called, a dispatcher that is driving is still driving. -/
theorem Stage.driving_complete (b : Behavior H σ) (g : Stage H σ) :
    (g.complete b).1.driving = g.session.driving := by
  cases g with
  | settled s fault => rfl
  | calling phase rules s f =>
      obtain ⟨_, _, _, hafter⟩ :=
        Session.afterCalls_eq phase (Session.invokeAll b phase rules s f)
      obtain ⟨_, _, _, _, _, hbeside⟩ := s.invokeAll_beside b phase rules f
      rw [complete, hafter, hbeside]
      rfl

/-- What is seen of an item depends on what is seen of its first part. -/
theorem Stage.view_complete {b b' : Behavior H σ} (hb : b.Matches e b') {g g' : Stage H σ}
    (h : g.view e = g'.view e) (hdriving : g.session.driving = true) :
    (g.complete b).1.view e = (g'.complete b').1.view e ∧
      (g.complete b).2 = (g'.complete b').2 := by
  cases g with
  | settled s fault =>
      cases g' with
      | settled s' fault' =>
          obtain ⟨hview, rfl⟩ := Stage.settled.inj h
          exact ⟨hview, rfl⟩
      | calling phase rules s f => cases h
  | calling phase rules s f =>
      cases g' with
      | settled s' fault' => cases h
      | calling phase' rules' s' f' =>
          obtain ⟨rfl, rfl, hview, rfl⟩ := Stage.calling.inj h
          obtain ⟨hcalled, hrest⟩ := Session.view_invokeAll hb hview hdriving phase rules f
          simp only [Stage.complete]
          generalize Session.invokeAll b phase rules s f = called at hcalled hrest ⊢
          generalize Session.invokeAll b' phase rules s' f = called' at hcalled hrest ⊢
          obtain ⟨s, f, fault⟩ := called
          obtain ⟨s', f', fault'⟩ := called'
          cases hrest
          obtain ⟨hafter, hfault⟩ := s.view_afterCalls (e := e) phase f fault
          obtain ⟨hafter', hfault'⟩ := s'.view_afterCalls (e := e) phase f fault
          have hcalled : s.view e = s'.view e := hcalled
          rw [hafter, hfault, hafter', hfault', hcalled]
          exact ⟨rfl, rfl⟩

/-! ### Feeds -/

namespace Feed

/-- The feed without the records that are made on the way. -/
def unnoted : Feed → Feed
  | done => done
  | item i rest => item i rest.unnoted
  | fault f => fault f
  | read chunk rest => read chunk rest.unnoted
  | note _ rest => rest.unnoted

/-- Records have no part in the items that come before a feed. -/
theorem unnoted_after (front : List Item) (rest : Feed) :
    (after front rest).unnoted = after front rest.unnoted := by
  induction front with
  | nil => rfl
  | cons i front ih => exact congrArg (item i) ih

end Feed

namespace Document

/-- Records have no part in what was read. -/
theorem unnoted_behind (read : List (List UInt8 × List Event)) (rest : Feed) :
    (behind read rest).unnoted = behind read rest.unnoted := by
  induction read generalizing rest with
  | nil => rfl
  | cons chunk earlier ih =>
      obtain ⟨bytes, events⟩ := chunk
      have hfirst : (Feed.read bytes (.afterEvents events rest)).unnoted =
          .read bytes (.afterEvents events rest.unnoted) :=
        congrArg (Feed.read bytes) (Feed.unnoted_after _ rest)
      exact (ih _).trans (congrArg (behind earlier) hfirst)

/-- What a document hands out is the same for every run, but for the records made. -/
theorem unnoted_feedFrom (t : Markup.Tokenizer) (o : Options) (correlation : Value)
    (state : t.State) (depth : Nat) (read : List (List UInt8 × List Event))
    (chunks : List (List UInt8)) :
    (feedFrom t { o with correlation } state depth read chunks).unnoted =
      (feedFrom t o state depth read chunks).unnoted := by
  induction chunks generalizing state depth read with
  | nil =>
      unfold feedFrom
      cases t.finish state with
      | none =>
          dsimp only
          rw [unnoted_behind, unnoted_behind]
          rfl
      | some marks =>
          dsimp only
          cases eventsOf o.strip depth [] marks with
          | error fault => rfl
          | ok last =>
              dsimp only
              rw [unnoted_behind, unnoted_behind, Feed.afterEvents, Feed.afterEvents,
                Feed.unnoted_after, Feed.unnoted_after]
              rfl
  | cons chunk rest ih =>
      unfold feedFrom
      cases t.feed state chunk with
      | none =>
          dsimp only
          rw [unnoted_behind, unnoted_behind]
          rfl
      | some fed =>
          dsimp only
          cases eventsOf o.strip depth [] fed.1 with
          | error fault => rfl
          | ok last => exact ih fed.2 last.2 ((chunk, last.1) :: read)

/-- The feed of a document is the same for every identity of the run, records aside. -/
theorem unnoted_feed (t : Markup.Tokenizer) (o : Options) (correlation : Value) (s : Source) :
    (feed t { o with correlation } s).unnoted = (feed t o s).unnoted := by
  unfold feed
  cases chunks o.chunkSize s with
  | error fault => rfl
  | ok cs =>
      dsimp only
      unfold feedOf
      split
      · rfl
      · exact unnoted_feedFrom t o correlation _ 0 [] cs

/-- A document is refused for every run in the same way, or it hands out the same for every run, but
for the records made. -/
theorem open_alike (t : Markup.Tokenizer) (o : Options) (correlation : Value) (s : Source) :
    (∃ fault, open? t { o with correlation } s = .error fault ∧ open? t o s = .error fault) ∨
      ∃ feed feed', open? t { o with correlation } s = .ok feed ∧ open? t o s = .ok feed' ∧
        feed.unnoted = feed'.unnoted := by
  unfold open?
  dsimp only
  cases o.chunkSize.atMostZero? with
  | none => exact .inl ⟨_, rfl, rfl⟩
  | some small =>
      cases small with
      | true => exact .inl ⟨_, rfl, rfl⟩
      | false => exact .inr ⟨_, _, rfl, rfl, unnoted_feed t o correlation s⟩

end Document

namespace Session

variable {b b' : Behavior H σ} {s s' : Session H σ}

/-- A dispatcher that is driving is still driving behind an item. -/
theorem driving_take (b : Behavior H σ) (s : Session H σ) (i : Item) :
    (s.take b i).1.driving = s.driving := by
  obtain ⟨_, _, htake⟩ := s.take_complete b i
  obtain ⟨_, _, _, _, _, _, _, hstage⟩ := s.counted.stage_eq i
  rw [htake]
  dsimp only
  rw [Stage.driving_complete, hstage]
  rfl

/-- What is seen of taking an item depends on what is seen before. -/
theorem view_take (hb : b.Matches e b') (h : s.view e = s'.view e) (hdriving : s.driving = true)
    (i : Item) :
    (s.take b i).1.view e = (s'.take b' i).1.view e ∧ (s.take b i).2 = (s'.take b' i).2 := by
  have hcounted : s.counted.view e = s'.counted.view e := congrArg counted h
  have hstage : (s.counted.stage i).view e = (s'.counted.stage i).view e := by
    rw [view_stage, view_stage, hcounted]
  have hdriving : (s.counted.stage i).session.driving = true := by
    obtain ⟨_, _, _, _, _, _, _, heq⟩ := s.counted.stage_eq i
    rw [heq]
    exact hdriving
  obtain ⟨hview, hfault⟩ := Stage.view_complete hb hstage hdriving
  rw [take_eq, take_eq]
  generalize (s.counted.stage i).complete b = last at hview hfault ⊢
  generalize (s'.counted.stage i).complete b' = last' at hview hfault ⊢
  obtain ⟨s, fault⟩ := last
  obtain ⟨s', fault'⟩ := last'
  cases hfault
  cases fault with
  | some fault => exact ⟨hview, rfl⟩
  | none =>
      have hview : s.view e = s'.view e := hview
      dsimp only
      rw [view_maybeSample, view_maybeSample, hview]
      exact ⟨rfl, rfl⟩

/-- What is seen of a run depends on what is seen of its beginning, and not on the records that its
feed makes on the way. -/
theorem view_run_unnoted (hb : b.Matches e b') (feed : Feed) (h : s.view e = s'.view e)
    (hdriving : s.driving = true) :
    (s.run b feed).1.view e = (s'.run b' feed.unnoted).1.view e ∧
      (s.run b feed).2 = (s'.run b' feed.unnoted).2 := by
  induction feed generalizing s s' with
  | done => exact ⟨h, rfl⟩
  | fault fault =>
      exact ⟨congrArg (fun s : Session H σ => { s with pulled := s.pulled + 1 }) h, rfl⟩
  | read chunk rest ih => exact ih h hdriving
  | note r rest ih => exact ih (s := s.log r) h hdriving
  | item i rest ih =>
      obtain ⟨hview, hfault⟩ := view_take hb h hdriving i
      have hkept := (s.driving_take b i).trans hdriving
      unfold Feed.unnoted Session.run
      generalize s.take b i = taken at hview hfault hkept ⊢
      generalize s'.take b' i = taken' at hview hfault ⊢
      obtain ⟨s, fault⟩ := taken
      obtain ⟨s', fault'⟩ := taken'
      cases hfault
      cases fault with
      | some fault => exact ⟨hview, rfl⟩
      | none =>
          have hstopped : s.stopped = s'.stopped := (congrArg stopped hview :)
          dsimp only
          rw [hstopped]
          split
          · exact ⟨hview, rfl⟩
          · exact ih hview hkept

/-- What is seen of a run depends on what is seen of its beginning and on what is handed out. -/
theorem view_run (hb : b.Matches e b') {feed feed' : Feed} (hfeed : feed.unnoted = feed'.unnoted)
    (h : s.view e = s'.view e) (hdriving : s.driving = true) :
    (s.run b feed).1.view e = (s'.run b' feed').1.view e ∧
      (s.run b feed).2 = (s'.run b' feed').2 := by
  have hdriving' : s'.driving = true := (congrArg driving h :).symm.trans hdriving
  obtain ⟨hview, hfault⟩ := view_run_unnoted hb feed h hdriving
  obtain ⟨hview', hfault'⟩ := view_run_unnoted (s := s') hb.refl_right feed' rfl hdriving'
  rw [hview, hfault, hfeed]
  exact ⟨hview'.symm, hfault'.symm⟩

end Session

/-! ### Outcomes -/

/-- What is seen of a report: everything but the time. -/
def Report.view (e : Value → Value) (r : Report) : Report :=
  { r with
    statistics := { r.statistics with processingTime := Double.zero }
    diagnostics := r.diagnostics.map (·.view e)
    correlation := e r.correlation }

/-- What is seen of an outcome: everything but the time and the records. Two outcomes with one view
cannot be told apart by who looks at the calls and at the report. -/
def Outcome.view (e : Value → Value) (o : Outcome H σ) : Outcome H σ :=
  { o with
    result := o.result.map (·.view e)
    calls := o.calls.map (·.view e)
    records := [] }

namespace Dispatcher

variable {b b' : Behavior H σ} {s s' : Session H σ}

/-- Whole runs over feeds that are the same but for records are seen alike, from sessions that
are. -/
theorem view_runSession (hb : b.Matches e b') {feed feed' : Feed}
    (hfeed : feed.unnoted = feed'.unnoted) (h : s.view e = s'.view e)
    (hdriving : s.driving = true) :
    (runSession b s feed).1.view e = (runSession b' s' feed').1.view e ∧
      (runSession b s feed).2 = (runSession b' s' feed').2 := by
  obtain ⟨hview, hfault⟩ := Session.view_run hb hfeed h hdriving
  obtain ⟨hended, hlast⟩ := (s.run b feed).1.view_conclude (e := e) (s'.run b' feed').2
  obtain ⟨hended', hlast'⟩ := (s'.run b' feed').1.view_conclude (e := e) (s'.run b' feed').2
  rw [hview] at hended hlast
  unfold runSession
  dsimp only
  rw [hfault, Session.view_sample, Session.view_sample, hended, hended', hlast, hlast']
  exact ⟨rfl, rfl⟩

/-- What is seen of an outcome is what is seen of the session it came from. -/
theorem view_outcome (s : Session H σ) (fault : Option Fault) (elapsed : Double) (closed : Bool) :
    (outcome s fault elapsed closed).view e =
      { outcome (s.view e) fault Double.zero closed with records := [] } := by
  unfold outcome Outcome.view
  cases fault with
  | some fault => simp only [List.map_reverse]; rfl
  | none => simp only [List.map_reverse]; rfl

/-- A source is refused for every run in the same way, or it hands out the same for every run, but
for the records made. -/
theorem openSource_alike (d d' : Dispatcher H) (hsettings : d.settings = d'.settings)
    (t : Markup.Tokenizer) (correlation correlation' : Value) (s : Source) :
    (∃ fault, d.openSource t correlation s = .error fault ∧
        d'.openSource t correlation' s = .error fault) ∨
      ∃ feed feed' closable, d.openSource t correlation s = .ok (feed, closable) ∧
        d'.openSource t correlation' s = .ok (feed', closable) ∧ feed.unnoted = feed'.unnoted := by
  let o := Document.Options.ofSettings d'.settings correlation'
  -- a document is opened in one way, whatever it is given as
  have hdocument : ∀ {opened opened' : Except Fault (Feed × Bool)},
      opened = (Document.open? t { o with correlation } s).map (·, true) →
      opened' = (Document.open? t o s).map (·, true) →
      (∃ fault, opened = .error fault ∧ opened' = .error fault) ∨
        ∃ feed feed' closable, opened = .ok (feed, closable) ∧ opened' = .ok (feed', closable) ∧
          feed.unnoted = feed'.unnoted := by
    rintro _ _ rfl rfl
    rcases Document.open_alike t o correlation s with ⟨fault, h, h'⟩ | ⟨feed, feed', h, h', hfeed⟩
    · rw [h, h']
      exact .inl ⟨fault, rfl, rfl⟩
    · rw [h, h']
      exact .inr ⟨feed, feed', true, rfl, rfl, hfeed⟩
  unfold openSource
  rw [hsettings]
  cases s with
  | items typeName feed closable => exact .inr ⟨feed, feed, closable, rfl, rfl, rfl⟩
  | other v => exact .inl ⟨_, rfl, rfl⟩
  | text s => exact hdocument rfl rfl
  | bytes bs => exact hdocument rfl rfl
  | file name contents => exact hdocument rfl rfl
  | byteStream bs => exact hdocument rfl rfl
  | textStream s => exact hdocument rfl rfl

/-- A session tells whether its dispatcher is busy. -/
theorem driving_session (d : Dispatcher H) (around : Surroundings) (source : Source) (world : σ) :
    (d.session around source world).driving = d.driving := by
  unfold session
  dsimp only
  obtain ⟨_, _, hsample⟩ := Session.sample_eq _ "start"
  rw [hsample]
  rfl

/-- Drives that are given the same begin in sessions of which the same is seen. -/
theorem view_session (d d' : Dispatcher H) (hdriving : d.driving = d'.driving)
    (hsettings : d.settings = d'.settings) (hbook : d.book = d'.book)
    (hledger : d.ledger.counts = d'.ledger.counts) {around around' : Surroundings}
    (hmeter : around.meter = around'.meter)
    (hidentity : e (d.identity around) = e (d'.identity around')) (source : Source) (world : σ) :
    (d.session around source world).view e = (d'.session around' source world).view e := by
  unfold session
  dsimp only
  rw [Session.view_sample, Session.view_sample]
  refine congrArg (fun s : Session H σ => (s.sample "start").unrecorded) ?_
  simp only [Session.tell, Session.log, Session.view, hdriving, hsettings, hbook, hledger, hmeter,
    hidentity]

/-- Of a drive a dispatcher keeps what was counted last. -/
theorem drive_keeps {d : Dispatcher H} (hidle : d.driving = false) (b : Behavior H σ)
    (t : Markup.Tokenizer) (around : Surroundings) (source : Source) (world : σ) :
    ∃ ledger, (d.drive b t around source world).2 = { d with ledger } := by
  rw [drive, refusal_idle hidle, ← hidle]
  dsimp only
  split
  · exact ⟨_, rfl⟩
  · exact ⟨_, rfl⟩

/-- **What is seen of a drive depends on what is seen of its beginning.** Two idle dispatchers with
the same settings and rules drive a source with the same outcome, as far as is seen of it, if the
handlers do the same, the meter is read in the same way and the same is seen of the identities of
the runs. -/
theorem view_drive {d d' : Dispatcher H} (hidle : d.driving = false) (hidle' : d'.driving = false)
    (hsettings : d.settings = d'.settings) (hbook : d.book = d'.book) (hb : b.Matches e b')
    {around around' : Surroundings} (hmeter : around.meter = around'.meter)
    (hidentity : e (d.identity around) = e (d'.identity around')) (t : Markup.Tokenizer)
    (source : Source) (world : σ) :
    (d.drive b t around source world).1.view e = (d'.drive b' t around' source world).1.view e ∧
      (d.drive b t around source world).2.ledger.counts =
        (d'.drive b' t around' source world).2.ledger.counts := by
  have hsession : (d.engaged.session around source world).view e =
      (d'.engaged.session around' source world).view e :=
    view_session d.engaged d'.engaged rfl hsettings hbook rfl hmeter hidentity source world
  have hopened := openSource_alike d.engaged d'.engaged hsettings t (d.engaged.identity around)
    (d'.engaged.identity around') source
  rw [drive, drive, refusal_idle hidle, refusal_idle hidle']
  dsimp only
  rcases hopened with ⟨fault, hopen, hopen'⟩ | ⟨feed, feed', closable, hopen, hopen', hfeed⟩
  · rw [hopen, hopen']
    exact ⟨rfl, rfl⟩
  · rw [hopen, hopen']
    have hdriving := d.engaged.driving_session around source world
    obtain ⟨hview, hfault⟩ := view_runSession hb hfeed hsession hdriving
    dsimp only
    rw [view_outcome, view_outcome, hview, hfault]
    exact ⟨rfl, (congrArg Session.ledger hview :)⟩

end Dispatcher

end MarkupRouting
