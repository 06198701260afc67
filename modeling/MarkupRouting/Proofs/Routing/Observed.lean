import MarkupRouting.Proofs.Routing.Counts
import MarkupRouting.Proofs.Routing.Failing
import MarkupRouting.Proofs.Routing.Stopping

/-!
# What a drive observes

What a drive that returns reports besides its numbers is determined by how it ended: whether a
handler asked for a stop, and which elements were open where the input ended. The elements that are
left open are given up, and nobody is called for them.

* **Item.Stray** — some text came while no element was open.
* **Item.CallsFor**, **Called** — the calls that items lead to.
* **Diagnostic.stray**, **unclosed** — what is observed of texts outside the root element, and of
  elements that were not left.
* **Session.Observed** — what was observed and called behind the items taken so far;
  **Observed.take** — one item more.
* **Session.conclude_fed**, **Moment.Stops.observed** — what is observed at the end.
* **Dispatcher.drive_observes** — the report of a drive.
-/

namespace MarkupRouting

variable {H σ : Type}

/-! ### Items -/

namespace Item

/-- The item is a text that is not blank. -/
def speaks : Item → Bool
  | .event (.text text _) => !Text.isBlankText text
  | _ => false

/-- Among the items is a text that is not blank, in front of which no element is open. `_on_text`
observes the first of them only. -/
def Stray (items : List Item) : Prop :=
  ∃ front i rest, items = front ++ i :: rest ∧ i.speaks = true ∧ opened front = []

/-- Where nothing was taken no text was outside of elements. -/
theorem not_stray_nil : ¬ Stray [] := by
  rintro ⟨front, i, rest, h, -⟩
  cases front <;> cases h

/-- With one item more there is such a text if there was one before or the item is one. -/
theorem stray_concat {items : List Item} {i : Item} :
    Stray (items ++ [i]) ↔ Stray items ∨ i.speaks = true ∧ opened items = [] := by
  constructor
  · rintro ⟨front, j, rest, h, hspeaks, hopened⟩
    rcases List.eq_nil_or_concat rest with rfl | ⟨rest, last, rfl⟩
    · obtain ⟨rfl, hi⟩ := List.append_inj' h rfl
      obtain rfl := List.singleton_inj.mp hi
      exact .inr ⟨hspeaks, hopened⟩
    · rw [List.concat_eq_append, ← List.cons_append, ← List.append_assoc] at h
      exact .inl ⟨front, j, rest, (List.append_inj' h rfl).1, hspeaks, hopened⟩
  · rintro (⟨front, j, rest, rfl, hspeaks, hopened⟩ | ⟨hspeaks, hopened⟩)
    · exact ⟨front, j, rest ++ [i], by simp, hspeaks, hopened⟩
    · exact ⟨items, i, [], rfl, hspeaks, hopened⟩

/-- The call is one that an item leads to in front of which elements of these names are open: an
open handler is called for the element that the item enters, a close handler for the one that it
leaves. -/
def CallsFor (names : List String) (i : Item) (c : Call H) : Prop :=
  match c.phase with
  | .opening =>
    i.enters = true ∧ c.path = pathOf (i.track names) ∧ c.depth = (i.track names).length
  | .closing => i.leaves = true ∧ c.path = pathOf names ∧ c.depth = names.length

/-- The calls are those that the items lead to, one item after the other. -/
inductive Called : List Item → List (Call H) → Prop where
  /-- Without items nobody is called. -/
  | nil : Called [] []
  /-- One item more leads to more calls. -/
  | concat {items : List Item} {calls more : List (Call H)} {i : Item} (h : Called items calls)
      (hmore : ∀ c ∈ more, CallsFor (opened items) i c) : Called (items ++ [i]) (calls ++ more)

end Item

/-! ### Observations -/

namespace Diagnostic

/-- What is observed of texts outside the root element. -/
def stray (correlation : Value) : Diagnostic :=
  { severity := .warning
    message := .text "Text outside the root element ignored"
    component := .text "drive"
    correlation }

/-- What is observed of elements that are still open where the input ends: how many they are, and
the path of the innermost one. -/
def unclosed (names : List String) (correlation : Value) : Diagnostic :=
  { severity := .warning
    message := .text ("Input ended with " ++ toString names.length ++ " open element(s)")
    component := .text "drive"
    path := .text (pathOf names)
    correlation }

end Diagnostic

/-! ### Items taken -/

namespace Session

variable {b : Behavior H σ} {s s' : Session H σ}

/-- Before handlers are called nothing is observed of an item that is no text but a blank one. -/
theorem stage_silent {i : Item} (hi : i.speaks = false) :
    (s.stage i).session.strayText = s.strayText ∧
      (s.stage i).session.diagnostics = s.diagnostics := by
  have hstaged := s.staged i
  generalize s.stage i = g at hstaged ⊢
  cases hstaged with
  | reported text depth hempty hloud =>
      -- such a text is not blank
      have hblank : Text.isBlankText text = true := by simpa [Item.speaks] using hi
      rw [hblank, Bool.true_or] at hloud
      cases hloud
  | entered | misnamed | refused | heard | dropped | spoilt | unheard | left | torn | nothing
  | foreign => exact ⟨rfl, rfl⟩

/-- Before handlers are called a text is observed that is not blank and comes while no element is
open, unless one was observed before. -/
theorem stage_speaks {i : Item} (hi : i.speaks = true) :
    (s.stage i).session.strayText = (s.stack.frames.isEmpty || s.strayText) ∧
      (s.stage i).session.diagnostics = s.diagnostics ++
        if s.stack.frames.isEmpty && !s.strayText then [.stray s.correlation] else [] := by
  have hstaged := s.staged i
  generalize s.stage i = g at hstaged ⊢
  have hloud : ∀ text depth, i = .event (.text text depth) → Text.isBlankText text = false := by
    rintro text depth rfl
    simpa [Item.speaks] using hi
  cases hstaged with
  | heard text depth hopen =>
      rw [hopen]
      exact ⟨rfl, (List.append_nil _).symm⟩
  | dropped text depth hempty hquiet =>
      rw [hloud text depth rfl, Bool.false_or] at hquiet
      show s.strayText = _ ∧ s.diagnostics = _
      simp [hempty, hquiet]
  | reported text depth hempty hquiet =>
      rw [hloud text depth rfl, Bool.false_or] at hquiet
      rw [hempty, hquiet]
      exact ⟨rfl, rfl⟩
  | refused i _ _ henters =>
      cases i with
      | event e => cases e <;> first | cases hi | cases henters
      | misnamed | notText | foreign => cases hi
  | entered | misnamed | spoilt | unheard | left | torn | nothing | foreign => cases hi

/-- Handlers observe nothing, and neither does what comes behind their calls. -/
theorem complete_observes (b : Behavior H σ) (g : Stage H σ) :
    (g.complete b).1.correlation = g.session.correlation ∧
      (g.complete b).1.strayText = g.session.strayText ∧
      (g.complete b).1.diagnostics = g.session.diagnostics := by
  cases g with
  | settled s fault => exact ⟨rfl, rfl, rfl⟩
  | calling phase rules s f =>
      obtain ⟨_, _, _, hafter⟩ := afterCalls_eq phase (invokeAll b phase rules s f)
      obtain ⟨_, _, _, _, _, hbeside⟩ := invokeAll_beside b phase rules s f
      simp only [Stage.complete, hafter, hbeside]
      exact ⟨rfl, rfl, rfl⟩

/-- Handlers are called for the element that an item enters or leaves. -/
theorem names_calling {i : Item} {phase : Phase} {rules : List (Rule H)} {f : Frame H}
    (hstage : s.stage i = .calling phase rules s' f) :
    match phase with
    | .opening => i.enters = true ∧ (s'.stack.push f).names = i.track s.stack.names
    | .closing => i.leaves = true ∧ (s'.stack.push f).names = s.stack.names := by
  have hnames := s.names_stage (i := i) fun _ => by rw [hstage]; trivial
  have hstaged := s.staged i
  rw [hstage] at hnames hstaged
  cases hstaged with
  | entered name attributes depth => exact ⟨rfl, hnames⟩
  | left name depth top rest hframes =>
      obtain ⟨_, _, heq, -⟩ := top.complete_eq
      refine ⟨rfl, ?_⟩
      rw [Stack.names_push, heq, Stack.names, Stack.names, hframes, List.map_cons,
        List.reverse_cons]

/-- **A handler is called for the element that the item enters or leaves**, with its path and the
number of elements that are open then. -/
theorem callsFor_moment {book : RuleBook H} {i : Item} {m : Moment H σ}
    (h : s.stack.Nested book) (hgoing : s.stopPath = none) (hm : m ∈ (s.stage i).moments b) :
    Item.CallsFor s.stack.names i m.call := by
  obtain ⟨phase, s', f, hstage, hknown⟩ := exists_calling hgoing hm
  obtain ⟨hbeside, ⟨_, _, _, hframe, -⟩, hphase, hrule⟩ := hknown m hm
  have hnested := (Stack.lasting_nested b book).stage h (i := i) (by rw [hstage]; trivial)
  rw [hstage] at hnested
  have hfits : f.Fits book s'.stack.frames := hnested.frames.of_cons.1
  have hdepth : m.call.depth = (s'.stack.push f).names.length := by
    have hsame : m.call.depth = m.frame.depth := rfl
    rw [hsame, hframe, hfits.depth_eq, Stack.length_names]
    rfl
  have hpath : m.call.path = pathOf (s'.stack.push f).names := by
    have hsame : m.call.path = m.frame.path.getD "" := rfl
    have hwanted : (f.materializing || !f.openRules.isEmpty) = true := by
      cases phase with
      | opening =>
          have hopen : f.openRules.isEmpty = false :=
            List.isEmpty_eq_false_iff.mpr (List.ne_nil_of_mem hrule)
          rw [hopen, Bool.not_false, Bool.or_true]
      | closing =>
          rw [hfits.materializing_iff.mpr ⟨f, List.mem_cons_self, List.ne_nil_of_mem hrule⟩,
            Bool.true_or]
    rw [hsame, hframe, hfits.path_eq, if_pos hwanted]
    rfl
  have hnames := names_calling hstage
  unfold Item.CallsFor
  show match m.phase with | .opening => _ | .closing => _
  rw [hphase, hdepth, hpath]
  cases phase with
  | opening => exact ⟨hnames.1, congrArg pathOf hnames.2, congrArg List.length hnames.2⟩
  | closing => exact ⟨hnames.1, congrArg pathOf hnames.2, congrArg List.length hnames.2⟩

/-- What was observed and called behind the items taken so far: that there was text outside the root
element, which is observed at once and only once, and the calls that the items lead to. One item
more keeps this. -/
structure Observed (book : RuleBook H) (taken : List Item) (s : Session H σ) : Prop where
  /-- Frames know what is to be known inside each other. -/
  nested : s.stack.Nested book
  /-- The elements are open that the items opened. -/
  names_eq : s.stack.names = Item.opened taken
  /-- It is kept in mind whether there was a text outside the root element. -/
  strayText_iff : s.strayText = true ↔ Item.Stray taken
  /-- That was observed once, and nothing else. -/
  diagnostics_eq : s.diagnostics = if s.strayText then [.stray s.correlation] else []
  /-- Those handlers were called that the items lead to. -/
  called : Item.Called taken s.calls.reverse

namespace Observed

variable {book : RuleBook H} {taken : List Item}

/-- Making a record changes nothing of that. -/
theorem log (h : s.Observed book taken) (r : Log.Record) : (s.log r).Observed book taken :=
  ⟨h.nested, h.names_eq, h.strayText_iff, h.diagnostics_eq, h.called⟩

/-- No element is open where the items left none. -/
theorem frames_isEmpty (h : s.Observed book taken) :
    s.stack.frames.isEmpty = true ↔ Item.opened taken = [] := by
  rw [← h.names_eq, Stack.names_eq_nil_iff]

/-- Whether a text was met outside the root element, and what was observed of it, behind one item
more. -/
theorem stage {i : Item} (h : s.Observed book taken) :
    ((s.stage i).session.strayText = true ↔ Item.Stray (taken ++ [i])) ∧
      (s.stage i).session.diagnostics =
        if (s.stage i).session.strayText then [.stray s.correlation] else [] := by
  have hempty := h.frames_isEmpty
  cases hi : i.speaks with
  | false =>
      obtain ⟨hstray, hdiagnostics⟩ := s.stage_silent hi
      rw [hstray, hdiagnostics]
      refine ⟨?_, h.diagnostics_eq⟩
      rw [h.strayText_iff, Item.stray_concat, hi]
      simp
  | true =>
      obtain ⟨hstray, hdiagnostics⟩ := s.stage_speaks hi
      rw [hstray, hdiagnostics, h.diagnostics_eq]
      constructor
      · rw [Bool.or_eq_true, h.strayText_iff, Item.stray_concat, hi, hempty]
        simp [or_comm]
      cases s.stack.frames.isEmpty with
      | false => simp
      | true =>
          cases s.strayText with
          | false => rfl
          | true => rfl

/-- One item more is observed. -/
theorem take {i : Item} (h : s.Observed book taken) (hgoing : s.stopPath = none)
    (htake : s.take b i = (s', none)) : s'.Observed book (taken ++ [i]) := by
  have hnested := (Stack.lasting_nested b book).take h.nested htake
  obtain ⟨s₁, monitor, records, hcomplete, rfl⟩ := complete_of_take htake
  have hnames := s.names_take (b := b) (i := i) fun _ => Stage.fine_of_complete hcomplete
  rw [htake, h.names_eq, ← Item.opened_concat] at hnames
  have hcounted : s.counted.Observed book taken :=
    ⟨h.nested, h.names_eq, h.strayText_iff, h.diagnostics_eq, h.called⟩
  obtain ⟨hstray, hdiagnostics⟩ := hcounted.stage (i := i)
  obtain ⟨hcorrelation, hkept, hkept'⟩ := complete_observes b (s.counted.stage i)
  have hcalls := Stage.calls_complete b (s.counted.stage i)
  obtain ⟨_, _, _, _, _, _, _, hstage⟩ := s.counted.stage_eq i
  rw [hcomplete] at hcorrelation hkept hkept' hcalls
  rw [← hkept] at hstray hdiagnostics
  rw [← hkept'] at hdiagnostics
  rw [hstage] at hcorrelation hcalls
  have hsame : s₁.correlation = s.correlation := hcorrelation
  have hmade : s₁.calls = (((s.counted.stage i).moments b).map Moment.call).reverse ++ s.calls :=
    hcalls
  refine ⟨hnested, hnames, hstray, ?_, ?_⟩
  · dsimp only
    rw [hsame]
    exact hdiagnostics
  · dsimp only
    rw [hmade, List.reverse_append, List.reverse_reverse]
    refine h.called.concat fun c hc => ?_
    obtain ⟨m, hm, rfl⟩ := List.mem_map.mp hc
    rw [← h.names_eq]
    exact callsFor_moment (s := s.counted) h.nested hgoing hm

end Observed

/-! ### The end -/

/-- Where the input ended what was not left is observed, unless everything was. -/
theorem conclude_fed (hgoing : s.stopPath = none) (h : (s.conclude none).2 = none) :
    (s.conclude none).1.diagnostics = s.diagnostics ++
      if s.stack.names = [] then [] else [.unclosed s.stack.names s.correlation] := by
  have hgoes : s.stopped = false := by rw [stopped, hgoing]; rfl
  unfold Session.conclude at h ⊢
  split at h
  · cases h
  next hfree =>
    rw [if_neg hfree]
    dsimp only
    rw [hgoes, if_neg Bool.false_ne_true]
    unfold Session.endFed
    by_cases hempty : s.stack.frames.isEmpty = true
    · rw [if_pos hempty, if_pos (Stack.names_eq_nil_iff.mpr hempty), List.append_nil]
    · obtain ⟨ledger, records, hclear⟩ := s.clear_eq
      obtain ⟨hframes, -⟩ := Prod.ext_iff.mp s.clear_counts
      rw [if_neg hempty, if_neg (mt Stack.names_eq_nil_iff.mp hempty)]
      dsimp only [Session.diagnose]
      rw [hclear, hframes, ← Stack.length_names]
      rfl

end Session

/-- Where a handler asks for a stop it is observed where, and how much was given up for it. -/
theorem Moment.Stops.observed {b : Behavior H σ} {m : Moment H σ} (h : m.Stops b)
    (horderly : m.Orderly) :
    ((m.last b).1.conclude none).1.diagnostics = (m.last b).1.diagnostics ++ [m.notice b] := by
  obtain ⟨-, hstop, -, -, hcorrelation, hopen, hheld⟩ := h.last_eq horderly
  obtain ⟨hconclude, -, hobserved, -, -⟩ := Session.conclude_stops hstop
  rw [hconclude, hobserved, hcorrelation, hopen, hheld]
  rfl

namespace Session

variable {b : Behavior H σ} {s : Session H σ} {book : RuleBook H}

/-- **What is observed and called throughout a run that no fault ends** is that of the items
taken. -/
theorem run_observed (feed : Feed) (h : s.Observed book []) (hpulled : s.pulled = 0)
    (hgoing : s.stopPath = none) (hrun : (s.run b feed).2 = none) :
    let taken := feed.items.take (s.run b feed).1.pulled
    (s.run b feed).1.Observed book taken ∧
      ((s.run b feed).1.stopped = false → taken = feed.items) := by
  have hends := run_taken (b := b)
    (P := fun taken (s : Session H σ) => s.Observed book taken ∧ s.pulled = taken.length)
    (fun _ _ r h => ⟨h.1.log r, h.2⟩)
    (fun taken s i s' h hgoing htake => ⟨h.1.take hgoing htake, by
      rw [(take_counts htake).1, h.2, List.length_append, List.length_singleton]⟩)
    feed ⟨h, hpulled⟩ hgoing
  generalize s.run b feed = ran at hends hrun ⊢
  cases hends with
  | ended hk hs hall =>
      obtain ⟨hobserved, hcount⟩ := hs
      rw [List.nil_append] at hobserved hcount
      rw [List.length_take, Nat.min_eq_left hk] at hcount
      dsimp only at hall ⊢
      rw [hcount]
      exact ⟨hobserved, fun hgoes => by rw [hall hgoes, List.take_length]⟩
  | broken => cases hrun
  | failed => cases hrun

/-- What is observed at the end of a run tells how it ended: with the last handler that was called,
or with the input. -/
theorem run_concluded (feed : Feed) (horderly : s.Orderly) (hgoing : s.stopPath = none)
    (hrun : (s.run b feed).2 = none) (hend : ((s.run b feed).1.conclude none).2 = none) :
    let ran := (s.run b feed).1
    (ran.stopped = true → ∃ m, (s.moments b feed).getLast? = some m ∧ m.Stops b ∧
        (ran.conclude none).1.diagnostics = ran.diagnostics ++ [m.notice b]) ∧
      (ran.stopped = false → (∀ m ∈ s.moments b feed, m.Passes b) ∧
        (ran.conclude none).1.diagnostics = ran.diagnostics ++
          if ran.stack.names = [] then [] else [.unclosed ran.stack.names ran.correlation]) := by
  intro ran
  rcases run_calls (b := b) feed hgoing with
    ⟨hall, hgoes⟩ | ⟨before, m, hcalls, -, hstops | ⟨cause, hfails⟩, hlast⟩
  · have hstopped : ran.stopped = false := by rw [stopped, hgoes]; rfl
    refine ⟨fun hstop => ?_, fun _ => ⟨hall, conclude_fed hgoes hend⟩⟩
    rw [hstopped] at hstop
    cases hstop
  · have hm : m ∈ s.moments b feed := by
      rw [hcalls]
      exact List.mem_append_right before (List.mem_singleton_self m)
    have hordered := orderly_moments horderly hgoing feed hm
    have hran : ran = (m.last b).1 := congrArg Prod.fst hlast
    refine ⟨fun _ => ⟨m, by rw [hcalls, List.getLast?_concat], hstops, ?_⟩, fun hgoes => ?_⟩
    · rw [hran]
      exact hstops.observed hordered
    · rw [hran, stopped, (hstops.last_eq hordered).2.1] at hgoes
      cases hgoes
  · have hm : m ∈ s.moments b feed := by
      rw [hcalls]
      exact List.mem_append_right before (List.mem_singleton_self m)
    rw [hlast, (hfails.last_eq (orderly_moments horderly hgoing feed hm)).1] at hrun
    cases hrun

/-- Nothing of that is an error. -/
theorem run_mild (feed : Feed) (horderly : s.Orderly) (hgoing : s.stopPath = none)
    (hrun : (s.run b feed).2 = none) (hend : ((s.run b feed).1.conclude none).2 = none) :
    ∀ d ∈ ((s.run b feed).1.conclude none).1.diagnostics, d.severity ≠ .error := by
  obtain ⟨hstops, hfed⟩ := run_concluded feed horderly hgoing hrun hend
  have hwarned : ∀ d ∈ (s.run b feed).1.diagnostics, d.severity ≠ .error := by
    intro d hd
    rw [(orderly_run feed horderly hrun).1.warned d hd]
    exact nofun
  cases hstopped : (s.run b feed).1.stopped with
  | true =>
      obtain ⟨m, -, -, hnotice⟩ := hstops hstopped
      rw [hnotice]
      exact List.forall_mem_append.mpr ⟨hwarned, List.forall_mem_singleton.mpr nofun⟩
  | false =>
      rw [(hfed hstopped).2]
      refine List.forall_mem_append.mpr ⟨hwarned, ?_⟩
      split
      · exact nofun
      · exact List.forall_mem_singleton.mpr nofun

end Session

/-! ### Drives -/

namespace Dispatcher

variable {b : Behavior H σ}

/-- A drive begins with nothing observed. -/
theorem session_observed (d : Dispatcher H) (around : Surroundings) (source : Source) (world : σ) :
    (d.engaged.session around source world).Observed d.book [] ∧
      (d.engaged.session around source world).pulled = 0 := by
  unfold Dispatcher.session
  dsimp only
  generalize hstart : Session.tell _ _ _ _ = start
  obtain ⟨_, _, hsample⟩ := start.sample_eq "start"
  rw [hsample, ← hstart]
  exact ⟨⟨Stack.nested_ofBook d.book, rfl, ⟨nofun, fun h => absurd h Item.not_stray_nil⟩, rfl,
    .nil⟩, rfl⟩

/-- Behind the end of a run only a sample is taken. -/
theorem runSession_concluded {s : Session H σ} {feed : Feed} {fault : Option Fault}
    (hrun : (s.run b feed).2 = fault) :
    runSession b s feed =
      (((s.run b feed).1.conclude fault).1.sample "end", ((s.run b feed).1.conclude fault).2) := by
  rw [← hrun]
  rfl

/-- Behind the end of a session nothing is observed. -/
theorem diagnostics_runSession {s : Session H σ} {feed : Feed} (hrun : (s.run b feed).2 = none) :
    (runSession b s feed).1.diagnostics = ((s.run b feed).1.conclude none).1.diagnostics ∧
      (runSession b s feed).2 = ((s.run b feed).1.conclude none).2 := by
  obtain ⟨_, _, hsample⟩ := ((s.run b feed).1.conclude none).1.sample_eq "end"
  rw [runSession_concluded hrun]
  dsimp only
  rw [hsample]
  exact ⟨rfl, rfl⟩

section Returns

variable {d : Dispatcher H} (hidle : d.driving = false) {t : Markup.Tokenizer}
  {around : Surroundings} {source : Source} {feed : Feed} {closable : Bool}
  (hopen : d.openSource t (d.identity around) source = .ok (feed, closable)) (b : Behavior H σ)
  (world : σ) {report : Report}
  (hreport : (d.drive b t around source world).1.result = .ok report)

include hidle hopen hreport

/-- What a drive that returns reports is what its run came to and what was observed at the end. -/
theorem concluded_of_returns :
    let ran := ((d.engaged.session around source world).run b feed).1
    ((d.engaged.session around source world).run b feed).2 = none ∧ (ran.conclude none).2 = none ∧
      report.cancelled = ran.stopped ∧ report.completed = !report.cancelled ∧
      report.correlation = ran.correlation ∧
      report.diagnostics = (ran.conclude none).1.diagnostics := by
  intro ran
  obtain ⟨hnone, hreported, -⟩ := report_of_returns hidle hopen b world hreport
  obtain ⟨hrun, -, -, -, hstopped, -, -⟩ := runSession_returns hnone around.elapsed
  obtain ⟨hobserves, hconcluded⟩ := diagnostics_runSession hrun
  obtain ⟨_, _, _, _, _, hlast⟩ := runSession_eq b (d.engaged.session around source world) feed
  rw [hreported]
  refine ⟨hrun, hconcluded.symm.trans hnone, hstopped, rfl, ?_, hobserves⟩
  show (runSession b (d.engaged.session around source world) feed).1.correlation = _
  rw [hlast]

/-- What was observed and called in it is that of the items taken. -/
theorem observed_of_returns :
    let ran := ((d.engaged.session around source world).run b feed).1
    let taken := feed.items.take (d.drive b t around source world).1.pulled
    ran.Observed d.book taken ∧ (report.cancelled = false → taken = feed.items) := by
  intro ran taken
  obtain ⟨hrun, -, hcancelled, -⟩ := concluded_of_returns hidle hopen b world hreport
  obtain ⟨hnone, -, hended⟩ := report_of_returns hidle hopen b world hreport
  obtain ⟨-, -, hpulled, -⟩ := runSession_returns hnone around.elapsed
  obtain ⟨hgoing, -⟩ := d.session_fresh around source world
  obtain ⟨hbegins, hzero⟩ := d.session_observed around source world
  obtain ⟨hobserved, hall⟩ := Session.run_observed feed hbegins hzero hgoing hrun
  have htaken : taken = feed.items.take ran.pulled :=
    congrArg (feed.items.take ·) (by rw [hended, pulled_outcome, hpulled])
  rw [htaken, hcancelled]
  exact ⟨hobserved, hall⟩

/-- Text outside the root element is observed first, then how the drive ended. -/
theorem diagnostics_of_returns :
    let moments := (d.engaged.session around source world).moments b feed
    let taken := feed.items.take (d.drive b t around source world).1.pulled
    let names := Item.opened taken
    ∃ early, (early = [.stray report.correlation] ∧ Item.Stray taken ∨
        early = [] ∧ ¬ Item.Stray taken) ∧
      (report.cancelled = true → ∃ m, moments.getLast? = some m ∧ m.Stops b ∧
        report.diagnostics = early ++ [m.notice b]) ∧
      (report.cancelled = false → taken = feed.items ∧ (∀ m ∈ moments, m.Passes b) ∧
        report.diagnostics =
          early ++ if names = [] then [] else [.unclosed names report.correlation]) := by
  intro moments taken names
  obtain ⟨hrun, hend, hcancelled, -, hcorrelation, hdiagnostics⟩ :=
    concluded_of_returns hidle hopen b world hreport
  obtain ⟨hobserved, hall⟩ := observed_of_returns hidle hopen b world hreport
  obtain ⟨hgoing, -, horderly, -⟩ := d.session_fresh around source world
  obtain ⟨hstops, hfed⟩ := Session.run_concluded feed horderly hgoing hrun hend
  have hearly := hobserved.diagnostics_eq
  rw [← hcorrelation] at hearly
  refine ⟨((d.engaged.session around source world).run b feed).1.diagnostics, ?_, ?_,
    fun hgoes => ?_⟩
  · rw [hearly, ← hobserved.strayText_iff]
    cases ((d.engaged.session around source world).run b feed).1.strayText with
    | false => exact .inr ⟨rfl, Bool.false_ne_true⟩
    | true => exact .inl ⟨rfl, rfl⟩
  · rw [hcancelled, hdiagnostics]
    exact hstops
  · have hnames : names = ((d.engaged.session around source world).run b feed).1.stack.names :=
      hobserved.names_eq.symm
    rw [hdiagnostics, hcorrelation, hnames]
    exact ⟨hall hgoes, hfed (hcancelled.symm.trans hgoes)⟩

/-- None of this is an error. -/
theorem hasErrors_of_returns : report.hasErrors = false := by
  obtain ⟨hrun, hend, -, -, -, hdiagnostics⟩ := concluded_of_returns hidle hopen b world hreport
  obtain ⟨hgoing, -, horderly, -⟩ := d.session_fresh around source world
  have hmild := Session.run_mild feed horderly hgoing hrun hend
  rw [Report.hasErrors, hdiagnostics, List.any_eq_false]
  exact fun d hd => by simpa using hmild d hd

/-- Nobody is called but for an element that an item taken enters or leaves. -/
theorem called_of_returns :
    Item.Called (feed.items.take (d.drive b t around source world).1.pulled)
      (d.drive b t around source world).1.calls := by
  obtain ⟨hobserved, -⟩ := observed_of_returns hidle hopen b world hreport
  obtain ⟨hnone, -, hended⟩ := report_of_returns hidle hopen b world hreport
  obtain ⟨-, -, -, hcalls, -⟩ := runSession_returns hnone around.elapsed
  have hmade : (d.drive b t around source world).1.calls =
      ((d.engaged.session around source world).run b feed).1.calls.reverse := by
    rw [hended, calls_outcome, hcalls]
  rw [hmade]
  exact hobserved.called

end Returns

/-- **What is observed is determined by how the drive ended** (`DriveResult.diagnostics`). A drive
that returns was either completed or cancelled. It observed first that there was text outside the
root element, if there was any while no element was open. Where it was cancelled, it was by the last
handler that was called, and that is observed next and last. Where it was not, every handler just
returned and everything was taken; then it is observed next and last how many elements were still
open, and which was the innermost one, unless none was. None of this is an error. And nobody is
called but for an element that an item enters or leaves, so that nobody is for what is left open. -/
theorem drive_observes {d : Dispatcher H} (hidle : d.driving = false) {t : Markup.Tokenizer}
    {around : Surroundings} {source : Source} {feed : Feed} {closable : Bool}
    (hopen : d.openSource t (d.identity around) source = .ok (feed, closable)) (b : Behavior H σ)
    (world : σ) {report : Report}
    (hreport : (d.drive b t around source world).1.result = .ok report) :
    let ended := d.drive b t around source world
    let moments := (d.engaged.session around source world).moments b feed
    let taken := feed.items.take ended.1.pulled
    let names := Item.opened taken
    report.completed = !report.cancelled ∧
      (∃ early, (early = [.stray report.correlation] ∧ Item.Stray taken ∨
          early = [] ∧ ¬ Item.Stray taken) ∧
        (report.cancelled = true → ∃ m, moments.getLast? = some m ∧ m.Stops b ∧
          report.diagnostics = early ++ [m.notice b]) ∧
        (report.cancelled = false → taken = feed.items ∧ (∀ m ∈ moments, m.Passes b) ∧
          report.diagnostics =
            early ++ if names = [] then [] else [.unclosed names report.correlation])) ∧
      report.hasErrors = false ∧
      Item.Called taken ended.1.calls := by
  intro ended moments taken names
  obtain ⟨-, -, -, hcompleted, -⟩ := concluded_of_returns hidle hopen b world hreport
  exact ⟨hcompleted, diagnostics_of_returns hidle hopen b world hreport,
    hasErrors_of_returns hidle hopen b world hreport,
    called_of_returns hidle hopen b world hreport⟩

/-- A list that breaks off in its second item, with text in front of it. -/
def strayList : Feed :=
  .ofItems [.event (.text "stray" 0), .event (.opened "list" [] 1), .event (.opened "item" [] 2),
    .event (.closed "item" 2), .event (.text " " 1), .event (.opened "item" [] 2)]

/-- The text in front of the list is observed, and the two elements in which it breaks off. -/
theorem drive_observes_strayList :
    attentive.driving = false ∧
      attentive.openSource refusing (attentive.identity calm) (.items "list" strayList false) =
        .ok (strayList, false) ∧
      ∃ report,
        (attentive.drive Behavior.still refusing calm (.items "list" strayList false) ()).1.result =
          .ok report ∧
        report.completed = true ∧
        report.diagnostics =
          [.stray report.correlation, .unclosed ["list", "item"] report.correlation] ∧
        report.hasErrors = false ∧
        Item.Called strayList.items (attentive.drive Behavior.still refusing calm
          (.items "list" strayList false) ()).1.calls := by
  have hopens : attentive.openSource refusing (attentive.identity calm)
      (.items "list" strayList false) = .ok (strayList, false) := rfl
  obtain ⟨ended, hended⟩ : ∃ ended, ended = runSession (Behavior.still : Behavior Unit Unit)
      (attentive.engaged.session calm (.items "list" strayList false) ()) strayList := ⟨_, rfl⟩
  have hnone : ended.2 = none := by
    rw [hended]
    exact Option.isNone_iff_eq_none.mp (by decide +kernel)
  have hgoing : (ended.1.report calm.elapsed).cancelled = false := by
    have hstopped : ended.1.stopped = false := by
      rw [hended]
      decide +kernel
    exact hstopped
  have hreport : (attentive.drive Behavior.still refusing calm (.items "list" strayList false)
      ()).1.result = .ok (ended.1.report calm.elapsed) := by
    rw [drive_opened rfl hopens Behavior.still (), ← hended]
    exact result_outcome_eq_ok.mpr ⟨hnone, rfl⟩
  obtain ⟨hcompleted, ⟨early, hearly, -, hfed⟩, hfine, hcalled⟩ :=
    drive_observes (d := attentive) rfl hopens Behavior.still () hreport
  obtain ⟨htaken, -, hdiagnostics⟩ := hfed hgoing
  rw [htaken] at hearly hdiagnostics hcalled
  have hstray : Item.Stray strayList.items := ⟨[], _, _, rfl, by decide, rfl⟩
  obtain ⟨rfl, -⟩ := hearly.resolve_right fun h => h.2 hstray
  rw [hgoing] at hcompleted
  exact ⟨rfl, hopens, _, hreport, hcompleted, hdiagnostics, hfine, hcalled⟩

end Dispatcher

end MarkupRouting
