import MarkupRouting.Proofs.Routing.Observed
import MarkupRouting.Proofs.Routing.Raised

/-!
# What a drive records of its end

How a drive ended is recorded once. Where it failed that is an error, made while the open elements
are given up, behind everything that handlers did; where it returned it is the notice that it is
finished, which is the last record of all. Handlers and sources make records of their own, among
which there may be anything; those are told apart from what the drive says.

* **Log.Record.isVerdict** — records that say how something ended.
* **Log.Adds** — records made in between, of which the verdicts are those of others.
* **Action.notes**, **Session.foreign** — the records that handlers make, and sources.
* **Session.adds_run** — a drive that is not over says nothing of its end.
* **Log.Record.aborted**, **Session.records_endAborted** — what is recorded where a fault ended it.
* **Dispatcher.drive_records** — what is recorded of the end of a drive.
-/

namespace MarkupRouting

variable {H σ : Type}

/-! ### Records of others -/

namespace Log

/-- The record says how something ended: with an error (`_abort`), or that a drive is finished
(`_finalize`). Only these are counted; all others may come as they like. -/
def Record.isVerdict (r : Record) : Bool :=
  r.level == .error || r.message == "Drive finished"

/-- Between the records that come last first in the first list and those in the second one, some
were made, with just the verdicts among them that others made. -/
def Adds (others : List Record) (before after : List Record) : Prop :=
  ∃ more, after = more ++ before ∧
    more.reverse.filter Record.isVerdict = others.filter Record.isVerdict

namespace Adds

variable {others others' before after after' : List Record} {r : Record}

/-- Where no record was made there is nothing of others. -/
theorem refl (records : List Record) : Adds [] records records := ⟨[], rfl, rfl⟩

/-- A record that is no verdict may have been made by anybody. -/
theorem own (hr : r.isVerdict = false) (before : List Record) : Adds [] before (r :: before) := by
  refine ⟨[r], rfl, ?_⟩
  rw [List.reverse_singleton, List.filter_cons_of_neg (by rw [hr]; exact Bool.false_ne_true)]

/-- Records of others. -/
theorem foreign (others before : List Record) : Adds others before (others.reverse ++ before) :=
  ⟨others.reverse, rfl, by rw [List.reverse_reverse]⟩

/-- Records with the verdicts of others, and then more with those of more, are records with all of
them. -/
theorem trans (h : Adds others before after) (h' : Adds others' after after') :
    Adds (others ++ others') before after' := by
  obtain ⟨more, rfl, hmore⟩ := h
  obtain ⟨more', rfl, hmore'⟩ := h'
  refine ⟨more' ++ more, (List.append_assoc _ _ _).symm, ?_⟩
  rw [List.reverse_append, List.filter_append, List.filter_append, hmore, hmore']

/-- What the drive records behind others adds nothing to them. -/
theorem then_own (h : Adds others before after) (h' : Adds [] after after') :
    Adds others before after' := by
  have hall := h.trans h'
  rwa [List.append_nil] at hall

/-- What the drive records in front of others adds nothing to them. -/
theorem after_own (h : Adds [] before after) (h' : Adds others after after') :
    Adds others before after' := h.trans h'

/-- The verdicts among the records made from the beginning are those of others. -/
theorem filter_reverse (h : Adds others [] after) :
    after.reverse.filter Record.isVerdict = others.filter Record.isVerdict := by
  obtain ⟨more, rfl, hmore⟩ := h
  rwa [List.append_nil]

/-- Records stay: what was recorded before is still there behind. -/
theorem suffix (h : Adds others before after) : before <:+ after := by
  obtain ⟨more, rfl, -⟩ := h
  exact List.suffix_append more before

end Adds

end Log

open Log

/-- The records that a handler makes elsewhere, in order. -/
def Action.notes : Action σ → Turn H → List Record
  | finish _, _ | raise _ _, _ => []
  | stop next, t => next.notes t.stop
  | setAttribute name value next, t => next.notes (t.setAttribute name value)
  | append c next, t => next.notes (t.append c)
  | remake n next, t => next.notes (t.remake n)
  | look next, t => (next t.subject t.stopPath.isSome).notes t
  | ask request next, t => (next (refusal t.driving request)).notes t
  | note records next, t =>
    records ++ next.notes { t with records := records.reverse ++ t.records }

/-- A drive says nothing of its end when it is asked to stop. -/
theorem Turn.adds_stop (t : Turn H) : Adds [] t.records t.stop.records := by
  unfold Turn.stop
  split
  · exact .refl t.records
  · exact .own rfl t.records

/-- While a handler runs records are made by what it does elsewhere. -/
theorem Action.adds_run (a : Action σ) (t : Turn H) :
    Adds (a.notes t) t.records (a.run t).1.records := by
  induction a generalizing t with
  | finish w => exact .refl t.records
  | raise fault w => exact .refl t.records
  | stop next ih => exact t.adds_stop.after_own (ih t.stop)
  | setAttribute name value next ih => exact ih (t.setAttribute name value)
  | append c next ih =>
      have hsame : (t.append c).records = t.records := by
        unfold Turn.append
        cases t.phase <;> rfl
      rw [← hsame]
      exact ih (t.append c)
  | remake n next ih =>
      have hsame : (t.remake n).records = t.records := by
        unfold Turn.remake
        cases t.phase <;> rfl
      rw [← hsame]
      exact ih (t.remake n)
  | look next ih => exact ih t.subject t.stopPath.isSome t
  | ask request next ih => exact ih (refusal t.driving request) t
  | note records next ih =>
      exact (Adds.foreign records t.records).trans
        (ih { t with records := records.reverse ++ t.records })

namespace Moment

/-- The records that the handler makes elsewhere. -/
def notes (b : Behavior H σ) (m : Moment H σ) : List Record :=
  (b m.call m.session.world).notes (m.session.turn m.phase m.frame)

/-- A call adds the records of the handler. -/
theorem adds_outcome (b : Behavior H σ) (m : Moment H σ) :
    Adds (m.notes b) m.session.records (m.outcome b).1.records := by
  have hrun : Adds (m.notes b) m.session.records (m.ending b).1.records :=
    (b m.call m.session.world).adds_run (m.session.turn m.phase m.frame)
  rw [m.outcome_eq b]
  cases (m.ending b).2.2 with
  | none => exact hrun
  | some cause =>
      dsimp only
      split
      · exact hrun.then_own (m.ending b).1.adds_stop
      · exact hrun

end Moment

namespace Session

variable {b : Behavior H σ} {s s' : Session H σ}

/-- Several calls add the records of their handlers. What was recorded when each of them was over
stays recorded. -/
theorem adds_invokeAll (phase : Phase) (rules : List (Rule H)) (s : Session H σ) (f : Frame H) :
    Adds ((momentsFrom b phase rules s f).flatMap (Moment.notes b)) s.records
        (invokeAll b phase rules s f).1.records ∧
      ∀ m ∈ momentsFrom b phase rules s f,
        (m.outcome b).1.records <:+ (invokeAll b phase rules s f).1.records := by
  induction rules generalizing s f with
  | nil => exact ⟨.refl s.records, List.forall_mem_nil _⟩
  | cons r rest ih =>
      cases hr : handlerOf phase r with
      | none =>
          simp only [momentsFrom, invokeAll, hr]
          exact ih s f
      | some h =>
          have hone := Moment.adds_outcome b ⟨s, f, phase, h, r⟩
          by_cases hm : (⟨s, f, phase, h, r⟩ : Moment H σ).Passes b
          · obtain ⟨hmoments, hcalls⟩ := cons_of_passes hr rest hm
            obtain ⟨hadds, hkept⟩ := ih (s.invoke b phase h r f).1 (s.invoke b phase h r f).2.1
            rw [hmoments, hcalls, List.flatMap_cons]
            exact ⟨hone.trans hadds, List.forall_mem_cons.mpr ⟨hadds.suffix, hkept⟩⟩
          · obtain ⟨hmoments, hcalls⟩ := cons_of_not_passes hr rest hm
            rw [hmoments, hcalls, List.flatMap_singleton]
            exact ⟨hone, List.forall_mem_singleton.mpr (List.suffix_refl _)⟩

/-- A drive says nothing of its end when something is given up. -/
theorem adds_giveUp (s : Session H σ) (frames : List (Frame H)) :
    Adds [] s.records (s.giveUp frames).1.records := by
  unfold Session.giveUp
  dsimp only
  split
  · exact .refl s.records
  · exact .own rfl s.records

/-- Neither does it when a sample is taken. -/
theorem adds_sample (s : Session H σ) (label : String) :
    Adds [] s.records (s.sample label).records := by
  unfold Session.sample
  split
  · exact .refl s.records
  · exact .own rfl s.records

/-- A sample (`maybe_sample`) is recorded without a verdict. -/
theorem adds_maybeSample (s : Session H σ) : Adds [] s.records s.maybeSample.records := by
  unfold Session.maybeSample
  split
  · exact .refl s.records
  · split
    · exact s.adds_sample _
    · exact .refl s.records

/-- Neither does it when an item comes, -/
theorem adds_stage (s : Session H σ) (i : Item) :
    Adds [] s.records (s.stage i).session.records := by
  have hstaged := s.staged i
  generalize s.stage i = g at hstaged ⊢
  cases hstaged with
  | entered | misnamed => exact .own rfl s.records
  | refused | heard | dropped | reported | spoilt | unheard | left | torn | nothing | foreign =>
      exact .refl s.records

/-- nor behind the calls for it. -/
theorem adds_afterCalls (phase : Phase) (called : Session H σ × Frame H × Option Fault) :
    Adds [] called.1.records (afterCalls phase called).1.records := by
  obtain ⟨s, f, fault⟩ := called
  cases phase with
  | opening => exact .refl s.records
  | closing =>
      cases fault with
      | some fault =>
          dsimp only [afterCalls]
          split
          · exact s.adds_giveUp [f]
          · exact .refl s.records
      | none =>
          dsimp only [afterCalls]
          cases s.stack.settle f s.ledger with
          | error flaw => exact .refl s.records
          | ok settled => exact .own rfl s.records

/-- An item that is taken adds the records of the handlers that are called for it. -/
theorem adds_take (b : Behavior H σ) (s : Session H σ) (i : Item) :
    Adds (((s.counted.stage i).moments b).flatMap (Moment.notes b)) s.records
        (s.take b i).1.records ∧
      ∀ m ∈ (s.counted.stage i).moments b, (m.outcome b).1.records <:+ (s.take b i).1.records := by
  have hstage : Adds [] s.records (s.counted.stage i).session.records := s.counted.adds_stage i
  obtain ⟨hcomplete, hkept⟩ :
      Adds (((s.counted.stage i).moments b).flatMap (Moment.notes b))
          (s.counted.stage i).session.records ((s.counted.stage i).complete b).1.records ∧
        ∀ m ∈ (s.counted.stage i).moments b,
          (m.outcome b).1.records <:+ ((s.counted.stage i).complete b).1.records := by
    cases s.counted.stage i with
    | settled s fault => exact ⟨.refl s.records, List.forall_mem_nil _⟩
    | calling phase rules s f =>
        obtain ⟨hadds, hkept⟩ := adds_invokeAll (b := b) phase rules s f
        have hafter := adds_afterCalls phase (invokeAll b phase rules s f)
        exact ⟨hadds.then_own hafter, fun m hm => (hkept m hm).trans hafter.suffix⟩
  have hall := hstage.after_own hcomplete
  rw [take_eq]
  split
  next s' fault heq =>
    rw [heq] at hall hkept
    exact ⟨hall, hkept⟩
  next s' heq =>
    rw [heq] at hall hkept
    have hsample := s'.adds_maybeSample
    exact ⟨hall.then_own hsample, fun m hm => (hkept m hm).trans hsample.suffix⟩

/-- The records that handlers and the source make throughout a drive, in order. -/
def foreign (b : Behavior H σ) (s : Session H σ) : Feed → List Record
  | .done | .fault _ => []
  | .read _ rest => foreign b s rest
  | .note r rest => r :: foreign b (s.log r) rest
  | .item i rest =>
    ((s.counted.stage i).moments b).flatMap (Moment.notes b) ++
      match s.take b i with
      | (_, some _) => []
      | (s, none) => if s.stopped then [] else foreign b s rest

/-- **Throughout a run the drive says nothing of its end.** What was recorded when a handler was
done stays recorded. -/
theorem adds_run (feed : Feed) (s : Session H σ) :
    Adds (s.foreign b feed) s.records (s.run b feed).1.records ∧
      ∀ m ∈ s.moments b feed, (m.outcome b).1.records <:+ (s.run b feed).1.records := by
  induction feed generalizing s with
  | done => exact ⟨.refl s.records, List.forall_mem_nil _⟩
  | fault fault => exact ⟨.refl s.records, List.forall_mem_nil _⟩
  | read chunk rest ih => exact ih s
  | note r rest ih =>
      obtain ⟨hadds, hkept⟩ := ih (s.log r)
      exact ⟨(Adds.foreign [r] s.records).trans hadds, hkept⟩
  | item i rest ih =>
      obtain ⟨htake, hone⟩ := s.adds_take b i
      unfold Session.run Session.foreign Session.moments
      generalize s.take b i = taken at htake hone ⊢
      obtain ⟨s', fault⟩ := taken
      cases fault with
      | some fault =>
          dsimp only
          rw [List.append_nil, List.append_nil]
          exact ⟨htake, hone⟩
      | none =>
          dsimp only at htake hone ⊢
          split_ifs
          · rw [List.append_nil, List.append_nil]
            exact ⟨htake, hone⟩
          · obtain ⟨hadds, hkept⟩ := ih s'
            exact ⟨htake.trans hadds, List.forall_mem_append.mpr
              ⟨fun m hm => (hone m hm).trans hadds.suffix, hkept⟩⟩

/-- The identity of the run is known throughout. -/
theorem correlation_run (feed : Feed) (s : Session H σ) :
    (s.run b feed).1.correlation = s.correlation := by
  have htake : ∀ (s : Session H σ) i, (s.take b i).1.correlation = s.correlation := by
    intro s i
    obtain ⟨_, _, htake⟩ := s.take_complete b i
    obtain ⟨_, _, _, _, _, _, _, hstage⟩ := s.counted.stage_eq i
    obtain ⟨hcomplete, -⟩ := complete_observes b (s.counted.stage i)
    rw [hstage] at hcomplete
    rw [htake]
    exact hcomplete
  induction feed generalizing s with
  | done => rfl
  | fault fault => rfl
  | read chunk rest ih => exact ih s
  | note r rest ih => exact ih (s.log r)
  | item i rest ih =>
      have hone := htake s i
      unfold Session.run
      generalize s.take b i = taken at hone ⊢
      obtain ⟨s', fault⟩ := taken
      cases fault with
      | some fault => exact hone
      | none =>
          dsimp only
          split_ifs
          · exact hone
          · exact (ih s').trans hone

end Session

/-! ### The end -/

/-- The record of a drive that a fault ends while elements of these names are open, which hold so
many nodes. It names the path that the fault has, whatever that is, else that of the innermost
element. -/
def Log.Record.aborted (correlation : Value) (fault : Fault) (names : List String) (held : Nat) :
    Log.Record :=
  { driveRecord correlation .error "Drive aborted"
    [("error_type", .value (.text fault.kind)),
      ("path", .value (match fault.path? with
        | some path => path
        | none => if names = [] then .null else .text (pathOf names))),
      ("open_frames_released", .value (.int names.length)),
      ("nodes_released", .value (.int held))] with error := some fault.kind }

namespace Session

variable {s : Session H σ}

/-- The drive says nothing of its end when everything is given up. -/
theorem adds_clear (s : Session H σ) : Adds [] s.records s.clear.1.records :=
  ({ s with stack := s.stack.cleared } : Session H σ).adds_giveUp s.stack.frames

/-- Where a fault ends the drive that is recorded once everything is given up. -/
theorem records_endAborted (s : Session H σ) (fault : Fault) :
    (s.endAborted fault).records =
      .aborted s.correlation fault s.stack.names (Frame.held s.stack.frames) ::
        s.clear.1.records := by
  obtain ⟨ledger, records, hclear⟩ := s.clear_eq
  obtain ⟨hframes, hheld⟩ := Prod.ext_iff.mp s.clear_counts
  have hpath : s.abortPath fault =
      match fault.path? with
      | some path => path
      | none => if s.stack.names = [] then .null else .text (pathOf s.stack.names) := by
    unfold Session.abortPath
    cases fault.path? with
    | some path => rfl
    | none =>
        dsimp only
        by_cases hempty : s.stack.frames.isEmpty = true
        · rw [if_pos hempty, if_pos (Stack.names_eq_nil_iff.mpr hempty)]
          rfl
        · rw [if_neg hempty, if_neg (mt Stack.names_eq_nil_iff.mp hempty)]
          rfl
  unfold Session.endAborted Log.Record.aborted
  dsimp only [Session.log]
  rw [hpath, hclear, hframes, hheld, Stack.length_names]

/-- Where no fault ends it nothing is recorded of that. -/
theorem adds_concluded (hfree : s.isStuck none = false) :
    Adds [] s.records (s.conclude none).1.records := by
  unfold Session.conclude
  rw [if_neg (by rw [hfree]; exact Bool.false_ne_true)]
  dsimp only
  split
  · exact s.adds_clear
  · unfold Session.endFed
    split
    · exact .refl s.records
    · exact s.adds_clear

end Session

/-! ### Drives -/

namespace Dispatcher

variable {b : Behavior H σ}

/-- A drive begins with sound frames, and says nothing of its end. -/
theorem session_sound (d : Dispatcher H) (around : Surroundings) (source : Source) (world : σ) :
    (d.engaged.session around source world).Sound ∧
      (d.engaged.session around source world).correlation = d.identity around ∧
      Adds [] [] (d.engaged.session around source world).records := by
  have hbalanced := d.balanced_session around source world
  refine ⟨⟨hbalanced.stack.sound, hbalanced.named⟩, ?_, ?_⟩
  · unfold Dispatcher.session
    dsimp only
    generalize hstart : Session.tell _ _ _ _ = start
    obtain ⟨_, _, hsample⟩ := start.sample_eq "start"
    rw [hsample, ← hstart]
    rfl
  · exact (Adds.own rfl []).then_own (Session.adds_sample _ "start")

variable {s : Session H σ} {feed : Feed}

/-- A session that a fault ends records that behind everything else it recorded, but for a
sample. -/
theorem runSession_aborts {fault : Fault} (hsound : (s.run b feed).1.Sound)
    (hrun : (s.run b feed).2 = some fault) :
    let ran := (s.run b feed).1
    (runSession b s feed).2 = some fault ∧
      (runSession b s feed).1.ledger.freed = ran.ledger.freed + Frame.held ran.stack.frames ∧
      ∃ earlier, Adds [] ran.records earlier ∧
        Adds [] (.aborted ran.correlation fault ran.stack.names (Frame.held ran.stack.frames) ::
          earlier) (runSession b s feed).1.records := by
  intro ran
  have hconclude : ran.conclude (some fault) = (ran.endAborted fault, some fault) := by
    unfold Session.conclude
    rw [if_neg (by rw [hsound.not_isStuck]; exact Bool.false_ne_true)]
  have hsample := (ran.endAborted fault).adds_sample "end"
  rw [ran.records_endAborted] at hsample
  obtain ⟨_, _, hkept⟩ := (ran.endAborted fault).sample_eq "end"
  have hfreed : (ran.endAborted fault).ledger.freed =
      ran.ledger.freed + Frame.held ran.stack.frames :=
    congrArg Ledger.freed ran.clear_ledger
  rw [runSession_concluded hrun, hconclude]
  refine ⟨rfl, ?_, ran.clear.1.records, ran.adds_clear, hsample⟩
  dsimp only
  rw [hkept]
  exact hfreed

/-- A session that no fault ends says nothing of that itself. -/
theorem runSession_finishes (hsound : (s.run b feed).1.Sound) (hrun : (s.run b feed).2 = none) :
    (runSession b s feed).2 = none ∧
      Adds [] (s.run b feed).1.records (runSession b s feed).1.records := by
  have hfree := hsound.not_isStuck none
  have hnone : ((s.run b feed).1.conclude none).2 = none := by
    unfold Session.conclude
    rw [if_neg (by rw [hfree]; exact Bool.false_ne_true)]
  rw [runSession_concluded hrun]
  exact ⟨hnone, (Session.adds_concluded hfree).then_own (Session.adds_sample _ "end")⟩

section Records

variable {d : Dispatcher H} {around : Surroundings} {source : Source} {feed : Feed}
  (hfeed : ∀ i ∈ feed.items, i.IsProper) (b : Behavior H σ) (world : σ)

include hfeed

/-- A drive comes to its end in a sound session, in which the elements are open that it was told of,
and which made no record of that end. -/
theorem ran_sound :
    let start := d.engaged.session around source world
    let ran := (start.run b feed).1
    ran.Sound ∧ ran.stack.names = Item.opened (feed.items.take ran.pulled) ∧
      ran.correlation = d.identity around ∧
      ∀ {records}, Adds [] ran.records records →
        records.reverse.filter Record.isVerdict =
          (start.foreign b feed).filter Record.isVerdict := by
  intro start ran
  obtain ⟨hgoing, -, -, -⟩ := d.session_fresh around source world
  obtain ⟨hsound, hidentity, hbegins⟩ := d.session_sound around source world
  obtain ⟨hobserved, hzero⟩ := d.session_observed around source world
  obtain ⟨hran, hopened, -⟩ :=
    Session.run_sound (b := b) feed hfeed hsound hobserved.names_eq hzero hgoing
  obtain ⟨hadds, -⟩ := start.adds_run (b := b) feed
  exact ⟨hran, hopened, (Session.correlation_run feed start).trans hidentity, fun hafter =>
    ((hbegins.after_own hadds).then_own hafter).filter_reverse⟩

variable {t : Markup.Tokenizer} {closable : Bool} (hidle : d.driving = false)
  (hopen : d.openSource t (d.identity around) source = .ok (feed, closable))

include hidle hopen

/-- It fails with the fault that ended it, and took what it had taken by then. -/
theorem result_of_ran :
    let start := d.engaged.session around source world
    let ended := d.drive b t around source world
    ended = (outcome (runSession b start feed).1 (start.run b feed).2 around.elapsed closable,
        { d with ledger := (runSession b start feed).1.ledger }) ∧
      ended.1.pulled = (start.run b feed).1.pulled := by
  intro start ended
  obtain ⟨hran, -⟩ := ran_sound hfeed b world
  have hfault : (runSession b start feed).2 = (start.run b feed).2 := by
    cases hrun : (start.run b feed).2 with
    | some fault => exact (runSession_aborts hran hrun).1
    | none => exact (runSession_finishes hran hrun).1
  have hended : ended = (outcome (runSession b start feed).1 (runSession b start feed).2
      around.elapsed closable, { d with ledger := (runSession b start feed).1.ledger }) :=
    drive_opened hidle hopen b world
  obtain ⟨_, _, _, _, _, hlast⟩ := runSession_eq b start feed
  refine ⟨hended.trans (by rw [hfault]), ?_⟩
  rw [hended, pulled_outcome, hlast]

/-- What comes out of a drive that fails is the fault of the source, of an item or of a handler. -/
theorem raises_of_error {fault : Fault}
    (hresult : (d.drive b t around source world).1.result = .error fault) :
    let start := d.engaged.session around source world
    (start.run b feed).2 = some fault ∧
      Session.Raises b feed (feed.items.take (d.drive b t around source world).1.pulled)
        (start.moments b feed) fault := by
  intro start
  obtain ⟨hgoing, -, horderly, -⟩ := d.session_fresh around source world
  obtain ⟨hsound, -, -⟩ := d.session_sound around source world
  obtain ⟨hobserved, hzero⟩ := d.session_observed around source world
  obtain ⟨hended, hpulled⟩ := result_of_ran hfeed b world hidle hopen
  have hrun : (start.run b feed).2 = some fault := by
    rw [hended] at hresult
    cases hrun : (start.run b feed).2 with
    | some fault' =>
        rw [hrun] at hresult
        exact congrArg some (Except.error.inj hresult)
    | none =>
        rw [hrun] at hresult
        cases hresult
  rw [hpulled]
  exact ⟨hrun, Session.raises_run feed hfeed hsound horderly hobserved.names_eq hzero hgoing hrun⟩

/-- The record of it is made once everything is given up, behind what handlers did. -/
theorem aborted_of_error {fault : Fault}
    (hresult : (d.drive b t around source world).1.result = .error fault) :
    let start := d.engaged.session around source world
    let ran := (start.run b feed).1
    let ended := d.drive b t around source world
    ended.2.ledger.freed = ran.ledger.freed + Frame.held ran.stack.frames ∧
      ∃ front tail,
        ended.1.records = front ++ .aborted (d.identity around) fault
          (Item.opened (feed.items.take ended.1.pulled)) (Frame.held ran.stack.frames) :: tail ∧
        front.filter Record.isVerdict = (start.foreign b feed).filter Record.isVerdict ∧
        tail.filter Record.isVerdict = [] ∧
        ∀ m ∈ start.moments b feed, (m.outcome b).1.records.reverse <+: front := by
  intro start ran ended
  obtain ⟨hran, hopened, hcorrelation, hverdicts⟩ := ran_sound hfeed b world
  obtain ⟨hrun, -⟩ := raises_of_error hfeed b world hidle hopen hresult
  obtain ⟨hended, hpulled⟩ := result_of_ran hfeed b world hidle hopen
  obtain ⟨-, hfreed, earlier, hearlier, later, hrecords, hown⟩ := runSession_aborts hran hrun
  obtain ⟨-, hkept⟩ := start.adds_run (b := b) feed
  have hsame : ended.1.pulled = ran.pulled := hpulled
  rw [hsame, ← hopened, ← hcorrelation]
  have hdrive : ended = _ := hended
  rw [hdrive, hrun]
  refine ⟨hfreed, earlier.reverse, later.reverse, ?_, hverdicts hearlier, hown, fun m hm => ?_⟩
  · show (runSession b start feed).1.records.reverse ++ [] = _
    rw [hrecords, List.append_nil, List.reverse_append, List.reverse_cons, List.append_assoc]
    rfl
  · exact List.reverse_prefix.mpr ((hkept m hm).trans hearlier.suffix)

/-- The last record of a drive that returns says that it is finished. -/
theorem finished_of_ok {report : Report}
    (hresult : (d.drive b t around source world).1.result = .ok report) :
    ∃ front,
      (d.drive b t around source world).1.records = front ++
        [driveRecord (d.identity around) .info "Drive finished" report.summary] ∧
      front.filter Record.isVerdict =
        ((d.engaged.session around source world).foreign b feed).filter Record.isVerdict := by
  obtain ⟨start, hstart⟩ : ∃ start, start = d.engaged.session around source world := ⟨_, rfl⟩
  obtain ⟨hran, -, hcorrelation, hverdicts⟩ := ran_sound hfeed b world
  obtain ⟨hended, -⟩ := result_of_ran hfeed b world hidle hopen
  rw [← hstart] at hran hcorrelation hverdicts hended ⊢
  rw [hended] at hresult
  obtain ⟨hrun, rfl⟩ := result_outcome_eq_ok.mp hresult
  obtain ⟨-, hafter⟩ := runSession_finishes hran hrun
  obtain ⟨_, _, _, _, _, hlast⟩ := runSession_eq b start feed
  have hsame : (runSession b start feed).1.correlation = d.identity around := by
    rw [hlast, ← hcorrelation]
  refine ⟨(runSession b start feed).1.records.reverse, ?_, hverdicts hafter⟩
  rw [hended, hrun, ← hsame]
  rfl

end Records

/-- **Every drive that fails is recorded as aborted once, and no other one is** (`_DriveSession.run`
and `_abort`). It fails with the fault of the source, of an item or of a handler, and that is what
comes out. The record of it names the fault, its path or else that of the innermost open element,
and how many elements and nodes were given up with it; it is made behind everything that handlers
did, and neither before nor behind it does the drive record an error or that it is finished. A drive
that returns records as the last thing of all that it is finished, with the summary of its report,
and before that no error. -/
theorem drive_records {d : Dispatcher H} (hidle : d.driving = false) {t : Markup.Tokenizer}
    {around : Surroundings} {source : Source} {feed : Feed} {closable : Bool}
    (hopen : d.openSource t (d.identity around) source = .ok (feed, closable))
    (hfeed : ∀ i ∈ feed.items, i.IsProper) (b : Behavior H σ) (world : σ) :
    let start := d.engaged.session around source world
    let ran := (start.run b feed).1
    let ended := d.drive b t around source world
    let taken := feed.items.take ended.1.pulled
    (∀ fault, ended.1.result = .error fault →
      (start.run b feed).2 = some fault ∧ Session.Raises b feed taken (start.moments b feed) fault ∧
        ended.2.ledger.freed = ran.ledger.freed + Frame.held ran.stack.frames ∧
        ∃ front tail,
          ended.1.records = front ++ .aborted (d.identity around) fault (Item.opened taken)
            (Frame.held ran.stack.frames) :: tail ∧
          front.filter Record.isVerdict = (start.foreign b feed).filter Record.isVerdict ∧
          tail.filter Record.isVerdict = [] ∧
          ∀ m ∈ start.moments b feed, (m.outcome b).1.records.reverse <+: front) ∧
      (∀ report, ended.1.result = .ok report →
        ∃ front,
          ended.1.records = front ++
            [driveRecord (d.identity around) .info "Drive finished" report.summary] ∧
          front.filter Record.isVerdict = (start.foreign b feed).filter Record.isVerdict) := by
  intro start ran ended taken
  refine ⟨fun fault hresult => ?_, fun report hresult => ?_⟩
  · obtain ⟨hrun, hraises⟩ := raises_of_error hfeed b world hidle hopen hresult
    exact ⟨hrun, hraises, aborted_of_error hfeed b world hidle hopen hresult⟩
  · exact finished_of_ok hfeed b world hidle hopen hresult

/-- Where the handler of the item fails, that the drive is aborted is recorded once, with the path
of the item and with one element that is still open and has a node. -/
theorem drive_records_brokenList :
    let ended := attentive.drive failing refusing calm (.items "list" brokenList false) ()
    attentive.driving = false ∧
      attentive.openSource refusing (attentive.identity calm) (.items "list" brokenList false) =
        .ok (brokenList, false) ∧
      (∀ i ∈ brokenList.items, i.IsProper) ∧
      ended.1.records.filter Record.isVerdict =
        [.aborted (attentive.identity calm)
          (.handler (.thrown .value (.text "broken")) "/list/item" "item" "*" .closing) ["list"]
          1] := by
  have hopens : attentive.openSource refusing (attentive.identity calm)
      (.items "list" brokenList false) = .ok (brokenList, false) := rfl
  have hproper : ∀ i ∈ brokenList.items, i.IsProper := by
    simp [brokenList, Feed.ofItems, Feed.after, Feed.items, Item.IsProper]
  obtain ⟨hfails, -⟩ := drive_records (d := attentive) (t := refusing) rfl hopens
    hproper failing ()
  obtain ⟨-, -, -, front, tail, hrecords, hfront, htail, -⟩ := hfails
    (.handler (.thrown .value (.text "broken")) "/list/item" "item" "*" .closing) rfl
  have hforeign : Session.foreign failing (attentive.engaged.session calm
      (.items "list" brokenList false) ()) brokenList = [] := by rfl
  have hpulled : (attentive.drive failing refusing calm (.items "list" brokenList false)
      ()).1.pulled = 4 := by rfl
  have hheld : Frame.held (Session.run failing (attentive.engaged.session calm
      (.items "list" brokenList false) ()) brokenList).1.stack.frames = 1 := by decide +kernel
  refine ⟨rfl, hopens, hproper, ?_⟩
  rw [hrecords, List.filter_append, hfront, List.filter_cons_of_pos rfl, htail, hforeign, hpulled,
    hheld]
  rfl

end Dispatcher

end MarkupRouting
