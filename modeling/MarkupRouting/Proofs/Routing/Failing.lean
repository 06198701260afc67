import MarkupRouting.Proofs.Routing.Endings

/-!
# Handlers that fail

The fault of a handler that fails is that of the drive, with the place where it happened. Up to
there the drive makes the calls that it would make otherwise, and nothing that was built is kept.
All this is so if the fault can be put into words; if not, what comes of the attempt is the fault of
the drive, and the element that was just left is forgotten.

* **Moment.Fails.last_eq** — the session behind the event of the call.
* **Session.conclude_aborts** — a fault that ends a drive is reported.
* **Dispatcher.drive_fails** — both for drives of a dispatcher.
-/

namespace MarkupRouting

variable {H σ : Type}

namespace Moment

variable {b : Behavior H σ} {m : Moment H σ} {cause : Fault}

/-- The frames whose nodes are given up with the end of a drive in which the handler failed, where
this was reported so: all of them, unless the element was left already and the report was not
made. -/
def givenUp (b : Behavior H σ) (m : Moment H σ) (report : Fault) : List (Frame H) :=
  if m.phase = .closing ∧ report.isHandler = false then m.session.stack.frames
  else m.left b :: m.session.stack.frames

/-- A fault that can be put into words is reported with the place where the handler failed. -/
theorem report_of_told (htold : cause.mute? = none) :
    m.report cause =
      .handler cause m.call.path m.frame.name m.rule.pattern.source m.phase :=
  Session.reportOf_of_told htold _ _ _ _

/-- Of another one only that is left what comes of the attempt. -/
theorem report_of_mute {failure : Fault} (hmute : cause.mute? = some failure) :
    m.report cause = failure := by
  rw [report, Session.reportOf, hmute]
  rfl

/-- Where a handler fails the drive ends with the report of it. What the element and those around it
held is given up or still held. -/
theorem Fails.last_eq (h : m.Fails b cause) (horderly : m.Orderly) :
    (m.last b).2 = some (m.report cause) ∧
      (m.last b).1.pulled = m.session.pulled ∧
      (m.last b).1.stack.hasPath = true ∧ (m.last b).1.nameless = false ∧
      (m.last b).1.ledger.built = m.session.ledger.built ∧
      (m.last b).1.ledger.freed + Frame.held (m.last b).1.stack.frames =
        m.session.ledger.freed + Frame.held (m.givenUp b (m.report cause)) := by
  have hnamed : m.session.nameless = false := horderly.whole.named
  unfold Moment.last givenUp
  rw [h.outcome_eq]
  generalize m.report cause = report
  cases hphase : m.phase with
  | opening =>
      refine ⟨rfl, rfl, ?_, hnamed, rfl, rfl⟩
      obtain ⟨_, _, _, hleft, -⟩ := Action.touched_run (b m.call m.session.world)
        (m.session.turn m.phase m.frame)
      have htitled : (m.left b).misnomer.isNone = true := by
        rw [Moment.left, Moment.ending, hleft, Option.isNone_iff_eq_none]
        exact horderly.titled hphase
      have hpush : (m.session.stack.push (m.left b)).hasPath =
          ((m.left b).misnomer.isNone && m.session.stack.hasPath) := rfl
      simp only [Session.afterCalls, settled, hpush, htitled, horderly.pathful, Bool.and_true]
  | closing =>
      dsimp only [Session.afterCalls]
      cases hreport : report.isHandler with
      | false => exact ⟨rfl, rfl, horderly.pathful, hnamed, rfl, rfl⟩
      | true =>
          let s := m.settled (m.ending b).1 (m.ending b).2.1
          obtain ⟨records, hgiven⟩ := s.giveUp_eq [m.left b]
          rw [if_pos rfl, hgiven, Frame.releaseAll_ledger]
          refine ⟨rfl, rfl, horderly.pathful, hnamed, rfl, ?_⟩
          dsimp only
          rw [if_neg (by simp), Frame.held_cons, Frame.held_nil, Frame.held_cons, Nat.add_zero,
            Nat.add_assoc]
          rfl

end Moment

/-- A fault that ends a drive is reported, and what is still held is given up. -/
theorem Session.conclude_aborts {s : Session H σ} (hpath : s.stack.hasPath = true)
    (hnamed : s.nameless = false) (fault : Fault) :
    (s.conclude (some fault)).2 = some fault ∧
      (s.conclude (some fault)).1.ledger.built = s.ledger.built ∧
      (s.conclude (some fault)).1.ledger.freed =
        s.ledger.freed + Frame.held s.stack.frames := by
  have hfree : s.isStuck (some fault) = false := by
    rw [Session.isStuck, hpath, hnamed]
    simp
  have hbuilt : s.clear.1.ledger.built = s.ledger.built := by rw [s.clear_ledger]
  have hfreed : s.clear.1.ledger.freed = s.ledger.freed + Frame.held s.stack.frames := by
    rw [s.clear_ledger]
  unfold Session.conclude
  rw [hfree]
  exact ⟨rfl, hbuilt, hfreed⟩

/-- **A handler that fails aborts the drive cleanly** (`_DriveSession._invoke` and `_abort`). The
calls made are those up to this one, which are the first ones of every drive with handlers that do
the same as long as these return; nothing more is taken from the source, and it is closed. The
dispatcher is idle again with the rules it had. If the fault of the handler can be put into words,
the fault of the drive carries it, with the path and the name of its element, the pattern of its
rule and the phase of its call, and the nodes of all open elements and of the one that is entered or
left are given up.

A fault says itself what its words are. Where it fails with another fault instead (`__str__`), that
is the fault of the drive, and of an element that was just left the node is not given up. -/
theorem Dispatcher.drive_fails {b : Behavior H σ} (d : Dispatcher H) (hidle : d.driving = false)
    (t : Markup.Tokenizer) (around : Surroundings) (typeName : String) (feed : Feed)
    (closable : Bool) (world : σ) {before after : List (Moment H σ)} {m : Moment H σ}
    {cause : Fault}
    (hcalls : (d.engaged.session around (.items typeName feed closable) world).moments b feed =
      before ++ m :: after)
    (hbefore : ∀ p ∈ before, p.Passes b) (hm : m.Fails b cause) :
    let source := Source.items typeName feed closable
    let ended := d.drive b t around source world
    (cause.mute? = none →
      ended.1.result =
          .error (.handler cause m.call.path m.frame.name m.call.rule.pattern.source m.call.phase) ∧
        ended.2.ledger.freed =
          m.session.ledger.freed + Frame.held (m.left b :: m.session.stack.frames)) ∧
      (∀ failure, cause.mute? = some failure →
        ended.1.result = .error failure ∧
          ended.2.ledger.freed = m.session.ledger.freed + Frame.held (m.givenUp b failure)) ∧
      ended.1.calls = (before ++ [m]).map Moment.call ∧
      (∀ q : Behavior H σ, q.Follows b →
        ended.1.calls = (d.drive q t around source world).1.calls.take (before.length + 1)) ∧
      ended.1.pulled = m.session.pulled ∧
      ended.1.closes = (if closable then 1 else 0) ∧
      ended.2.ledger.built = m.session.ledger.built ∧
      ended.2.driving = false ∧ ended.2.book = d.book := by
  intro source ended
  obtain ⟨rfl, horderly, hended⟩ := runSession_breaks hcalls hbefore hm.not_passes
  obtain ⟨hfault, hpulled, hpath, hnamed, hbuilt, hheld⟩ := hm.last_eq horderly
  obtain ⟨hkept, hbuilt', hfreed'⟩ := Session.conclude_aborts hpath hnamed (m.report cause)
  have hmade : ended.1.calls = (before ++ [m]).map Moment.call := by
    rw [calls_drive d hidle, hcalls]
  have hdrive : ended = _ := d.drive_items hidle t around typeName feed closable world b
  rw [hended, hfault] at hdrive
  obtain ⟨_, _, _, _, hconclude⟩ := (m.last b).1.conclude_eq (some (m.report cause))
  generalize (m.last b).1.conclude _ = concluded at hkept hbuilt' hfreed' hdrive hconclude
  obtain ⟨_, _, hsample⟩ := concluded.1.sample_eq "end"
  have hresult : ended.1.result = .error (m.report cause) := by
    rw [hdrive, hkept]
    rfl
  have hfreed : ended.2.ledger.freed =
      m.session.ledger.freed + Frame.held (m.givenUp b (m.report cause)) := by
    rw [hdrive, hsample]
    exact hfreed'.trans hheld
  refine ⟨fun htold => ?_, fun failure hmute => ?_, hmade, fun q hq => ?_, ?_, ?_, ?_, ?_, ?_⟩
  · rw [m.report_of_told htold] at hresult hfreed
    exact ⟨hresult, hfreed.trans (by rw [Moment.givenUp, if_neg (by simp [Fault.isHandler])])⟩
  · rw [m.report_of_mute hmute] at hresult hfreed
    exact ⟨hresult, hfreed⟩
  · rw [hmade, calls_drive_follow hidle t hcalls hbefore hq]
  · rw [hdrive, pulled_outcome, hsample, hconclude]
    exact hpulled
  · rw [hdrive]
    rfl
  · rw [hdrive, hsample]
    exact hbuilt'.trans hbuilt
  · rw [hdrive]
    exact hidle
  · rw [hdrive]


namespace Dispatcher

/-- Where the handler of the second item fails, all three nodes are given up. -/
theorem drive_fails_pairList :
    let b := thenDoing (.raise (.thrown .value (.text "broken")) 2)
    let ended := attentive.drive b refusing calm (.items "list" pairList true) 0
    attentive.driving = false ∧
      (∃ first m : Moment Unit Nat,
        (attentive.engaged.session calm (.items "list" pairList true) 0).moments b pairList =
            [first] ++ m :: [] ∧
          (∀ p ∈ [first], p.Passes b) ∧ m.Fails b (.thrown .value (.text "broken")) ∧
          ended.1.pulled = m.session.pulled) ∧
      ended.1.result = .error
        (.handler (.thrown .value (.text "broken")) "/list/item" "item" "*" .closing) ∧
      ended.1.calls =
        (attentive.drive b.calmed refusing calm (.items "list" pairList true) 0).1.calls.take 2 ∧
      ended.1.closes = 1 ∧ ended.2.ledger.built = 3 ∧ ended.2.ledger.freed = 3 := by
  intro b ended
  -- what is needed of the two calls is read off the moments without writing these out
  have hview : ((attentive.engaged.session calm (.items "list" pairList true) 0).moments b
      pairList).map (fun m => ((m.ending b).2.2, (m.ending b).1.stopPath, m.session.ledger.freed,
        (m.left b).contents, m.session.stack.frames.map Frame.contents)) =
      [(none, none, 0, some [], [some []]),
        (some (.thrown .value (.text "broken")), none, 0, some [],
          [some [.element ⟨"item", "/list/item", [], .int 1, .keep⟩ []]])] := rfl
  obtain ⟨first, m, hmoments⟩ : ∃ first m : Moment Unit Nat,
      (attentive.engaged.session calm (.items "list" pairList true) 0).moments b pairList =
        [first] ++ m :: [] :=
    List.length_eq_two.mp (by simpa using congrArg List.length hview)
  rw [hmoments] at hview
  simp only [List.cons_append, List.nil_append, List.map_cons, List.map_nil, List.cons.injEq,
    Prod.mk.injEq] at hview
  obtain ⟨⟨hnone, hgoing, -⟩, ⟨hfault, -, hgiven, hleft, haround⟩, -⟩ := hview
  have hfirst : ∀ p ∈ [first], p.Passes b := List.forall_mem_singleton.mpr ⟨hnone, hgoing⟩
  have hfail : m.Fails b (.thrown .value (.text "broken")) := ⟨hfault, rfl⟩
  obtain ⟨htells, -, -, hprefix, hpulled, hcloses, -, -, -⟩ :=
    drive_fails attentive rfl refusing calm "list" pairList true 0 hmoments hfirst hfail
  obtain ⟨-, hfreed⟩ := htells (by decide)
  obtain ⟨parent, hparent, hcontents⟩ := List.map_eq_singleton_iff.mp haround
  rw [hgiven, hparent, Frame.held_cons, Frame.held_cons, Frame.held_nil, Frame.weight, hleft,
    Frame.weight, hcontents] at hfreed
  exact ⟨rfl, ⟨first, m, hmoments, hfirst, hfail, hpulled⟩, by rfl,
    hprefix b.calmed b.calmed_follows, hcloses, by rfl, hfreed⟩

end Dispatcher

end MarkupRouting
