import MarkupRouting.Proofs.Lists
import MarkupRouting.Proofs.Routing.Stages

/-!
# Moments of a drive

Of what an item of the feed leads to only the calls depend on what the handlers do. A drive is
therefore known up to any call when it is known what the handlers did at the calls before it.

* **Moment** — a call with everything that is known when it is made; **Session.moments** are those
  of a drive, in order.
* **Moment.Passes**, **Stops**, **Fails** — how the handler that is called ends.
* **Session.run_breaks** — a drive ends with the first handler that does not just return.
* **Behavior.calmed** — handlers that do the same but neither fail nor ask for a stop.
* **Behavior.Follows**, **Session.moments_follow** — handlers that do the same as long as those
  return are called at the same moments up to there.
* **Session.calls_run** — the calls a drive makes are those of its moments.
-/

namespace MarkupRouting

variable {H σ : Type}

/-! ### Calls with all that is known -/

/-- A call of a handler with everything that is known when it is made: the session, the frame of the
element, the rule, and what the handlers keep. What the handler does is not part of it, so that a
moment of one drive can be looked at with other handlers (`_DriveSession._invoke`). -/
structure Moment (H σ : Type) where
  /-- The session in which the handler is called. Where an element is entered its frame is not on
  the stack yet, where one is left it is no longer. -/
  session : Session H σ
  /-- The frame of the element. -/
  frame : Frame H
  /-- When the handler is called. -/
  phase : Phase
  /-- The handler. -/
  handler : H
  /-- The rule that selected the element. -/
  rule : Rule H

namespace Moment

/-- The call that is made. -/
def call (m : Moment H σ) : Call H :=
  m.session.call m.phase m.handler m.rule (m.session.turn m.phase m.frame)

/-- How the handler ends: what it changed, what it keeps, and the fault with which it failed. -/
def ending (b : Behavior H σ) (m : Moment H σ) : Turn H × σ × Option Fault :=
  (b m.call m.session.world).run (m.session.turn m.phase m.frame)

/-- The session and the frame behind the call, and the fault that ends the drive there. -/
def outcome (b : Behavior H σ) (m : Moment H σ) : Session H σ × Frame H × Option Fault :=
  m.session.invoke b m.phase m.handler m.rule m.frame

/-- The frame as the handler leaves it. -/
def left (b : Behavior H σ) (m : Moment H σ) : Frame H := (m.ending b).1.frame

/-- What is reported where the handler failed with a cause. -/
def report (m : Moment H σ) (cause : Fault) : Fault :=
  Session.reportOf cause m.call.path m.frame.name m.rule.pattern.source m.phase

/-- The handler returns and does not ask for the drive to be stopped. -/
def Passes (b : Behavior H σ) (m : Moment H σ) : Prop :=
  (m.ending b).2.2 = none ∧ (m.ending b).1.stopPath = none

/-- The handler asks for the drive to be stopped, either before it returns or by failing with a
fault that means just that. -/
def Stops (b : Behavior H σ) (m : Moment H σ) : Prop :=
  ((m.ending b).2.2 = none ∧ (m.ending b).1.stopPath.isSome = true) ∨
    ∃ fault, (m.ending b).2.2 = some fault ∧ fault.isStop = true

/-- The handler fails with a fault that does not mean that the drive should stop, that is, with
anything but `StopProcessing`. -/
def Fails (b : Behavior H σ) (m : Moment H σ) (cause : Fault) : Prop :=
  (m.ending b).2.2 = some cause ∧ cause.isStop = false

/-- The session behind the event in which the call was made, where the drive ends with it. -/
def last (b : Behavior H σ) (m : Moment H σ) : Session H σ × Option Fault :=
  match Session.afterCalls m.phase (m.outcome b) with
  | (s, some fault) => (s, some fault)
  | (s, none) => (s.maybeSample, none)

end Moment

namespace Session

/-- The moments at which the handlers of several rules are called in turn. -/
def momentsFrom (b : Behavior H σ) (phase : Phase) :
    List (Rule H) → Session H σ → Frame H → List (Moment H σ)
  | [], _, _ => []
  | r :: rest, s, f =>
    match handlerOf phase r with
    | none => momentsFrom b phase rest s f
    | some h =>
      ⟨s, f, phase, h, r⟩ ::
        match s.invoke b phase h r f with
        | (s, f, fault) =>
          if fault.isSome || s.stopped then [] else momentsFrom b phase rest s f

end Session

/-- The moments of an item. -/
def Stage.moments (b : Behavior H σ) : Stage H σ → List (Moment H σ)
  | settled _ _ => []
  | calling phase rules s f => Session.momentsFrom b phase rules s f

namespace Session

/-- The session in which an item is looked at when it is taken. -/
def counted (s : Session H σ) : Session H σ :=
  { s with pulled := s.pulled + 1, tally := s.tally.took }

/-- The moments of a drive, in order: those of its items, up to the one at which a fault or a stop
ends it. The calls of the drive are those of its moments. -/
def moments (b : Behavior H σ) (s : Session H σ) : Feed → List (Moment H σ)
  | .done | .fault _ => []
  | .read _ rest => moments b s rest
  | .note r rest => moments b (s.log r) rest
  | .item i rest =>
    (s.counted.stage i).moments b ++
      match s.take b i with
      | (_, some _) => []
      | (s, none) => if s.stopped then [] else moments b s rest

end Session

/-- The first handlers do what the second ones do wherever these return and do not ask for the drive
to be stopped. -/
def Behavior.Follows (q b : Behavior H σ) : Prop :=
  ∀ (c : Call H) (w : σ) (t : Turn H), t.stopPath = none → ((b c w).run t).2.2 = none →
    ((b c w).run t).1.stopPath = none → (q c w).run t = (b c w).run t

/-! ### Calm handlers -/

/-- What a handler does that asks for no stop and does not fail where the given one would. -/
def Action.calm : Action σ → Action σ
  | finish w => finish w
  | raise _ w => finish w
  | stop next => next.calm
  | setAttribute name value next => setAttribute name value next.calm
  | append c next => append c next.calm
  | remake n next => remake n next.calm
  | look next => look fun subject _ => (next subject false).calm
  | ask request next => ask request fun refusal => (next refusal).calm
  | note records next => note records next.calm

/-- The handlers that do the same but neither fail nor ask for a stop. -/
def Behavior.calmed (b : Behavior H σ) : Behavior H σ := fun c w => (b c w).calm

namespace Action

/-- Putting something into a node asks for no stop. -/
theorem stopPath_append (t : Turn H) (c : Content) : (t.append c).stopPath = t.stopPath := by
  unfold Turn.append
  cases t.phase <;> rfl

/-- Changing a node asks for no stop. -/
theorem stopPath_remake (t : Turn H) (n : Node) : (t.remake n).stopPath = t.stopPath := by
  unfold Turn.remake
  cases t.phase <;> rfl

/-- A request to stop keeps the path of the place where it was made. -/
theorem stopPath_stop {t : Turn H} (ht : t.stopPath = none) : t.stop.stopPath = some t.path := by
  simp only [Turn.stop, ht]

/-- What was asked for at some point stays asked for there. -/
theorem stopPath_run_of_some (a : Action σ) {t : Turn H} {path : String}
    (ht : t.stopPath = some path) : (a.run t).1.stopPath = some path := by
  induction a generalizing t with
  | finish w => exact ht
  | raise fault w => exact ht
  | stop next ih =>
      refine ih (t := t.stop) ?_
      simp only [Turn.stop, ht]
  | setAttribute name value next ih => exact ih (t := t.setAttribute name value) ht
  | append c next ih => exact ih ((stopPath_append t c).trans ht)
  | remake n next ih => exact ih ((stopPath_remake t n).trans ht)
  | look next ih => exact ih _ _ ht
  | ask request next ih => exact ih _ ht
  | note records next ih => exact ih (t := { t with records := records.reverse ++ t.records }) ht

/-- A handler that returns and asks for no stop is as good as calm. -/
theorem run_calm_eq (a : Action σ) {t : Turn H} (ht : t.stopPath = none)
    (hfault : (a.run t).2.2 = none) (hgoing : (a.run t).1.stopPath = none) :
    a.calm.run t = a.run t := by
  induction a generalizing t with
  | finish w => rfl
  | raise fault w => cases hfault
  | stop next ih =>
      have hasked := next.stopPath_run_of_some (stopPath_stop ht)
      rw [Action.run, hasked] at hgoing
      cases hgoing
  | setAttribute name value next ih =>
      exact ih (t := t.setAttribute name value) ht hfault hgoing
  | append c next ih => exact ih ((stopPath_append t c).trans ht) hfault hgoing
  | remake n next ih => exact ih ((stopPath_remake t n).trans ht) hfault hgoing
  | look next ih =>
      simp only [Action.run, ht, Option.isSome_none] at hfault hgoing
      simp only [Action.calm, Action.run, ht, Option.isSome_none]
      exact ih t.subject false ht hfault hgoing
  | ask request next ih => exact ih _ ht hfault hgoing
  | note records next ih =>
      exact ih (t := { t with records := records.reverse ++ t.records }) ht hfault hgoing

end Action

/-- Calm handlers do the same as long as the others return. -/
theorem Behavior.calmed_follows (b : Behavior H σ) : b.calmed.Follows b :=
  fun c w _ ht hfault hgoing => (b c w).run_calm_eq ht hfault hgoing

/-! ### One call -/

namespace Moment

variable {b q : Behavior H σ} {m : Moment H σ}

/-- Handlers that all return do not fail. -/
theorem Passes.not_fails (h : m.Passes b) (cause : Fault) : ¬ m.Fails b cause := by
  rintro ⟨hfault, -⟩
  rw [h.1] at hfault
  cases hfault

/-- Where one fails they do not all return. -/
theorem Fails.not_passes {cause : Fault} (h : m.Fails b cause) : ¬ m.Passes b :=
  fun hpass => hpass.not_fails cause h

/-- Where one asks for a stop they do not all just return. -/
theorem Stops.not_passes (h : m.Stops b) : ¬ m.Passes b := by
  rintro ⟨hnone, hgoing⟩
  rcases h with ⟨-, hsome⟩ | ⟨fault, hfault, -⟩
  · rw [hgoing] at hsome
    cases hsome
  · rw [hnone] at hfault
    cases hfault

/-- The session behind a call: the call is noted, and the drive is asked to stop where a handler
did. -/
def settled (m : Moment H σ) (t : Turn H) (world : σ) : Session H σ :=
  { m.session with
    tally := m.session.tally.called m.phase
    stopPath := t.stopPath
    calls := m.call :: m.session.calls
    records := t.records
    world }

/-- What comes of a call: where the handler returned, or failed by asking for a stop, the drive may
go on; else it ends with what is reported of the fault and of where the handler was called. -/
theorem outcome_eq (b : Behavior H σ) (m : Moment H σ) :
    m.outcome b =
      match (m.ending b).2.2 with
      | none => (m.settled (m.ending b).1 (m.ending b).2.1, m.left b, none)
      | some cause =>
        if cause.isStop then (m.settled (m.ending b).1.stop (m.ending b).2.1, m.left b, none)
        else (m.settled (m.ending b).1 (m.ending b).2.1, m.left b,
          some (m.report cause)) := rfl

/-- Where a handler fails, the rest of the item is left undone and the fault is reported as the
handler's (`HandlerError`). -/
theorem Fails.outcome_eq {cause : Fault} (h : m.Fails b cause) :
    m.outcome b =
      (m.settled (m.ending b).1 (m.ending b).2.1, m.left b, some (m.report cause)) := by
  rw [Moment.outcome_eq, h.1]
  simp [h.2]

/-- The drive goes on behind a call exactly where the handler just returned. -/
theorem passes_iff (b : Behavior H σ) (m : Moment H σ) :
    m.Passes b ↔ ((m.outcome b).2.2.isSome || (m.outcome b).1.stopped) = false := by
  rw [Moment.outcome_eq, Passes]
  cases (m.ending b).2.2 with
  | none => simp [settled, Session.stopped]
  | some cause =>
      by_cases hstop : cause.isStop = true
      · -- a turn that was stopped has a path at which it was
        have hsome : (m.ending b).1.stop.stopPath.isSome = true := by
          unfold Turn.stop
          split <;> simp_all
        simp [hstop, settled, Session.stopped, hsome]
      · simp [hstop]

/-- Behind a handler that returns and asks for no stop nobody has asked for one. -/
theorem Passes.going (h : m.Passes b) : (m.outcome b).1.stopPath = none := by
  have hgoes := (passes_iff b m).mp h
  rw [Bool.or_eq_false_iff] at hgoes
  simpa [Session.stopped] using hgoes.2

/-- Handlers that follow others do at a call what these do, if these return. -/
theorem Passes.follows (hq : q.Follows b) (hgoing : m.session.stopPath = none) (h : m.Passes b) :
    m.Passes q ∧ m.outcome q = m.outcome b := by
  have hsame : m.ending q = m.ending b := hq _ _ _ hgoing h.1 h.2
  constructor
  · rw [Passes, hsame]
    exact h
  · rw [Moment.outcome_eq, Moment.outcome_eq, left, left, hsame]

end Moment

/-! ### The calls for one element -/

namespace Session

variable {b q : Behavior H σ} {phase : Phase} {r : Rule H} {rest rules : List (Rule H)}
  {s : Session H σ} {f : Frame H} {before after : List (Moment H σ)} {m : Moment H σ}

section Cons

variable {h : H} (hr : handlerOf phase r = some h)

include hr

/-- Behind a handler that returns the next one is called. -/
theorem cons_of_passes (rest : List (Rule H))
    (hm : (⟨s, f, phase, h, r⟩ : Moment H σ).Passes b) :
    momentsFrom b phase (r :: rest) s f = ⟨s, f, phase, h, r⟩ ::
        momentsFrom b phase rest (s.invoke b phase h r f).1 (s.invoke b phase h r f).2.1 ∧
      invokeAll b phase (r :: rest) s f =
        invokeAll b phase rest (s.invoke b phase h r f).1 (s.invoke b phase h r f).2.1 := by
  have hgoes : ((s.invoke b phase h r f).2.2.isSome || (s.invoke b phase h r f).1.stopped) =
      false := (Moment.passes_iff b _).mp hm
  simp only [momentsFrom, invokeAll, hr, hgoes, Bool.false_eq_true, if_false]
  trivial

/-- Behind any other handler none is called. -/
theorem cons_of_not_passes (rest : List (Rule H))
    (hm : ¬ (⟨s, f, phase, h, r⟩ : Moment H σ).Passes b) :
    momentsFrom b phase (r :: rest) s f = [⟨s, f, phase, h, r⟩] ∧
      invokeAll b phase (r :: rest) s f = s.invoke b phase h r f := by
  have hends : ((s.invoke b phase h r f).2.2.isSome || (s.invoke b phase h r f).1.stopped) =
      true := by
    rw [← Bool.not_eq_false]
    exact fun hgoes => hm ((Moment.passes_iff b _).mpr hgoes)
  simp only [momentsFrom, invokeAll, hr, hends, if_true]
  trivial

end Cons

/-- Where every handler just returns, the drive goes on. -/
theorem invokeAll_passes (hgoing : s.stopPath = none)
    (hall : ∀ p ∈ momentsFrom b phase rules s f, p.Passes b) :
    (invokeAll b phase rules s f).2.2 = none ∧ (invokeAll b phase rules s f).1.stopPath = none := by
  induction rules generalizing s f with
  | nil => exact ⟨rfl, hgoing⟩
  | cons r rest ih =>
      cases hr : handlerOf phase r with
      | none =>
          simp only [momentsFrom, invokeAll, hr] at hall ⊢
          exact ih hgoing hall
      | some h =>
          by_cases hm : (⟨s, f, phase, h, r⟩ : Moment H σ).Passes b
          · obtain ⟨hmoments, hcalls⟩ := cons_of_passes hr rest hm
            rw [hmoments] at hall
            rw [hcalls]
            exact ih hm.going (List.forall_mem_cons.mp hall).2
          · rw [(cons_of_not_passes hr rest hm).1] at hall
            exact absurd (hall _ (List.mem_singleton.mpr rfl)) hm

/-- Behind the first handler that does not just return none is called. -/
theorem invokeAll_breaks (hcalls : momentsFrom b phase rules s f = before ++ m :: after)
    (hbefore : ∀ p ∈ before, p.Passes b) (hm : ¬ m.Passes b) :
    after = [] ∧ m.phase = phase ∧ invokeAll b phase rules s f = m.outcome b := by
  induction rules generalizing s f before with
  | nil => cases before <;> cases hcalls
  | cons r rest ih =>
      cases hr : handlerOf phase r with
      | none =>
          simp only [momentsFrom, invokeAll, hr] at hcalls ⊢
          exact ih hcalls hbefore
      | some h =>
          by_cases hfirst : (⟨s, f, phase, h, r⟩ : Moment H σ).Passes b
          · obtain ⟨hmoments, hrest⟩ := cons_of_passes hr rest hfirst
            rw [hmoments] at hcalls
            cases before with
            | nil =>
                obtain ⟨rfl, -⟩ := List.cons.inj hcalls
                exact absurd hfirst hm
            | cons p before =>
                rw [hrest]
                exact ih (List.cons.inj hcalls).2 (List.forall_mem_cons.mp hbefore).2
          · obtain ⟨hmoments, hone⟩ := cons_of_not_passes hr rest hfirst
            rw [hmoments] at hcalls
            cases before with
            | nil =>
                obtain ⟨rfl, rfl⟩ := List.cons.inj hcalls
                exact ⟨rfl, rfl, hone⟩
            | cons p before =>
                obtain ⟨rfl, -⟩ := List.cons.inj hcalls
                exact absurd (hbefore _ List.mem_cons_self) hfirst

/-- Where every handler just returns, handlers that follow lead to the same. -/
theorem invokeAll_follows (hq : q.Follows b) (hgoing : s.stopPath = none)
    (hall : ∀ p ∈ momentsFrom b phase rules s f, p.Passes b) :
    invokeAll q phase rules s f = invokeAll b phase rules s f ∧
      momentsFrom q phase rules s f = momentsFrom b phase rules s f := by
  induction rules generalizing s f with
  | nil => exact ⟨rfl, rfl⟩
  | cons r rest ih =>
      cases hr : handlerOf phase r with
      | none =>
          simp only [momentsFrom, invokeAll, hr] at hall ⊢
          exact ih hgoing hall
      | some h =>
          by_cases hm : (⟨s, f, phase, h, r⟩ : Moment H σ).Passes b
          · obtain ⟨hm', hsame⟩ := hm.follows hq hgoing
            have hsame : s.invoke q phase h r f = s.invoke b phase h r f := hsame
            obtain ⟨hmoments, hcalls⟩ := cons_of_passes hr rest hm
            obtain ⟨hmoments', hcalls'⟩ := cons_of_passes hr rest hm'
            rw [hmoments] at hall
            rw [hmoments, hcalls, hmoments', hcalls', hsame]
            obtain ⟨hrest, hrest'⟩ := ih hm.going (List.forall_mem_cons.mp hall).2
            exact ⟨hrest, congrArg _ hrest'⟩
          · rw [(cons_of_not_passes hr rest hm).1] at hall
            exact absurd (hall _ (List.mem_singleton.mpr rfl)) hm

/-- Handlers that follow are called at the same moments, up to the first one at which not just a
return follows. -/
theorem momentsFrom_follows (hq : q.Follows b) (hgoing : s.stopPath = none)
    (hcalls : momentsFrom b phase rules s f = before ++ m :: after)
    (hbefore : ∀ p ∈ before, p.Passes b) :
    ∃ later, momentsFrom q phase rules s f = before ++ m :: later := by
  induction rules generalizing s f before with
  | nil => cases before <;> cases hcalls
  | cons r rest ih =>
      cases hr : handlerOf phase r with
      | none =>
          simp only [momentsFrom, hr] at hcalls ⊢
          exact ih hgoing hcalls hbefore
      | some h =>
          -- the first call is the same, whatever comes of it
          have hfirst : ∀ b : Behavior H σ, ∃ later,
              momentsFrom b phase (r :: rest) s f = ⟨s, f, phase, h, r⟩ :: later := by
            intro b
            simp only [momentsFrom, hr]
            exact ⟨_, rfl⟩
          obtain ⟨later, hlater⟩ := hfirst q
          cases before with
          | nil =>
              obtain ⟨tail, htail⟩ := hfirst b
              rw [htail] at hcalls
              obtain ⟨rfl, -⟩ := List.cons.inj hcalls
              exact ⟨later, hlater⟩
          | cons p before =>
              obtain ⟨hp, hothers⟩ := List.forall_mem_cons.mp hbefore
              obtain ⟨tail, htail⟩ := hfirst b
              have hhead : (⟨s, f, phase, h, r⟩ : Moment H σ) = p := by
                rw [htail] at hcalls
                exact (List.cons.inj hcalls).1
              subst hhead
              obtain ⟨hp', hsame⟩ := hp.follows hq hgoing
              have hsame : s.invoke q phase h r f = s.invoke b phase h r f := hsame
              rw [(cons_of_passes hr rest hp).1] at hcalls
              rw [(cons_of_passes hr rest hp').1, hsame]
              obtain ⟨later, hlater⟩ := ih hp.going (List.cons.inj hcalls).2 hothers
              exact ⟨later, congrArg (List.cons _) hlater⟩

/-- At each of the moments nobody has asked for a stop, and nothing but earlier calls has happened
to the session and to the frame. -/
theorem mem_momentsFrom (hgoing : s.stopPath = none) (hm : m ∈ momentsFrom b phase rules s f) :
    m.session.stopPath = none ∧ s.Beside m.session ∧ f.Touched m.frame ∧ m.phase = phase ∧
      m.rule ∈ rules := by
  induction rules generalizing s f with
  | nil => cases hm
  | cons r rest ih =>
      cases hr : handlerOf phase r with
      | none =>
          simp only [momentsFrom, hr] at hm
          obtain ⟨hnone, hbeside, htouched, hphase, hrule⟩ := ih hgoing hm
          exact ⟨hnone, hbeside, htouched, hphase, List.mem_cons_of_mem r hrule⟩
      | some h =>
          by_cases hfirst : (⟨s, f, phase, h, r⟩ : Moment H σ).Passes b
          · rw [(cons_of_passes hr rest hfirst).1] at hm
            rcases List.mem_cons.mp hm with rfl | hm
            · exact ⟨hgoing, .refl s, .refl f, rfl, List.mem_cons_self⟩
            · obtain ⟨hnone, hbeside, htouched, hphase, hrule⟩ := ih hfirst.going hm
              exact ⟨hnone, (s.beside_invoke b phase h r f).trans hbeside,
                (s.touched_invoke b phase h r f).trans htouched, hphase,
                List.mem_cons_of_mem r hrule⟩
          · rw [(cons_of_not_passes hr rest hfirst).1] at hm
            rw [List.mem_singleton.mp hm]
            exact ⟨hgoing, .refl s, .refl f, rfl, List.mem_cons_self⟩

/-- The calls of several handlers are those of their moments. -/
theorem calls_invokeAll (b : Behavior H σ) (phase : Phase) (rules : List (Rule H))
    (s : Session H σ) (f : Frame H) :
    (invokeAll b phase rules s f).1.calls =
      ((momentsFrom b phase rules s f).map Moment.call).reverse ++ s.calls := by
  induction rules generalizing s f with
  | nil => rfl
  | cons r rest ih =>
      cases hr : handlerOf phase r with
      | none =>
          simp only [momentsFrom, invokeAll, hr]
          exact ih s f
      | some h =>
          have hone : (s.invoke b phase h r f).1.calls =
              (⟨s, f, phase, h, r⟩ : Moment H σ).call :: s.calls := by
            have hcalls : ∀ m : Moment H σ, (m.outcome b).1.calls = m.call :: m.session.calls := by
              intro m
              rw [Moment.outcome_eq]
              split
              · rfl
              · split <;> rfl
            exact hcalls ⟨s, f, phase, h, r⟩
          by_cases hm : (⟨s, f, phase, h, r⟩ : Moment H σ).Passes b
          · obtain ⟨hmoments, hcalls⟩ := cons_of_passes hr rest hm
            rw [hmoments, hcalls, ih, hone]
            simp
          · obtain ⟨hmoments, hcalls⟩ := cons_of_not_passes hr rest hm
            rw [hmoments, hcalls, hone]
            simp

end Session

/-! ### One item -/

/-- A drive that is not to go on behind a call ends with the item. -/
theorem Moment.last_ends {b : Behavior H σ} {m : Moment H σ} (hm : ¬ m.Passes b) :
    (m.last b).2.isSome = true ∨ (m.last b).2 = none ∧ (m.last b).1.stopped = true := by
  have hends : ((m.outcome b).2.2.isSome || (m.outcome b).1.stopped) = true := by
    rw [← Bool.not_eq_false]
    exact fun hgoes => hm ((passes_iff b m).mpr hgoes)
  obtain ⟨stack, ledger, records, hafter⟩ := Session.afterCalls_eq m.phase (m.outcome b)
  unfold Moment.last
  cases hfault : (m.outcome b).2.2 with
  | some fault =>
      have hkept := Session.afterCalls_fault m.phase (m.outcome b) hfault
      left
      split
      · rfl
      next s heq =>
        rw [heq] at hkept
        cases hkept
  | none =>
      rw [hfault] at hends
      split
      · exact .inl rfl
      next s heq =>
        right
        obtain ⟨monitor, records', hsample⟩ := s.maybeSample_eq
        rw [heq] at hafter
        subst hafter
        exact ⟨rfl, by rw [hsample]; exact hends⟩

namespace Stage

variable {b q : Behavior H σ} {g : Stage H σ} {before after : List (Moment H σ)} {m : Moment H σ}

/-- Where every handler just returns nobody asks for a stop. -/
theorem complete_passes (hgoing : g.session.stopPath = none)
    (hall : ∀ p ∈ g.moments b, p.Passes b) : (g.complete b).1.stopPath = none := by
  cases g with
  | settled s fault => exact hgoing
  | calling phase rules s f =>
      obtain ⟨stack, ledger, records, hafter⟩ :=
        Session.afterCalls_eq phase (Session.invokeAll b phase rules s f)
      simp only [Stage.complete, hafter]
      exact (Session.invokeAll_passes hgoing hall).2

/-- The first handler that does not just return is the last one that is called. -/
theorem complete_breaks (hcalls : g.moments b = before ++ m :: after)
    (hbefore : ∀ p ∈ before, p.Passes b) (hm : ¬ m.Passes b) :
    after = [] ∧ g.complete b = Session.afterCalls m.phase (m.outcome b) := by
  cases g with
  | settled s fault => cases before <;> cases hcalls
  | calling phase rules s f =>
      obtain ⟨hlast, hphase, hresult⟩ := Session.invokeAll_breaks hcalls hbefore hm
      refine ⟨hlast, ?_⟩
      simp only [Stage.complete, hphase, hresult]

/-- Where every handler just returns, handlers that follow lead to the same. -/
theorem complete_follows (hq : q.Follows b) (hgoing : g.session.stopPath = none)
    (hall : ∀ p ∈ g.moments b, p.Passes b) :
    g.complete q = g.complete b ∧ g.moments q = g.moments b := by
  cases g with
  | settled s fault => exact ⟨rfl, rfl⟩
  | calling phase rules s f =>
      obtain ⟨hsame, hmoments⟩ := Session.invokeAll_follows hq hgoing hall
      exact ⟨congrArg (Session.afterCalls phase) hsame, hmoments⟩

/-- Handlers that follow are called at the same moments, up to the first one at which not just a
return follows. -/
theorem moments_follow (hq : q.Follows b) (hgoing : g.session.stopPath = none)
    (hcalls : g.moments b = before ++ m :: after) (hbefore : ∀ p ∈ before, p.Passes b) :
    ∃ later, g.moments q = before ++ m :: later := by
  cases g with
  | settled s fault => cases before <;> cases hcalls
  | calling phase rules s f => exact Session.momentsFrom_follows hq hgoing hcalls hbefore

/-- The calls that an item leads to are those of its moments. -/
theorem calls_complete (b : Behavior H σ) (g : Stage H σ) :
    (g.complete b).1.calls = ((g.moments b).map Moment.call).reverse ++ g.session.calls := by
  cases g with
  | settled s fault => rfl
  | calling phase rules s f =>
      obtain ⟨stack, ledger, records, hafter⟩ :=
        Session.afterCalls_eq phase (Session.invokeAll b phase rules s f)
      simp only [Stage.complete, hafter]
      exact Session.calls_invokeAll b phase rules s f

end Stage

/-! ### Whole drives -/

namespace Session

variable {b q : Behavior H σ} {s : Session H σ} {before after : List (Moment H σ)} {m : Moment H σ}

/-- An item is taken in three parts and a sample. -/
theorem take_eq (b : Behavior H σ) (s : Session H σ) (i : Item) :
    s.take b i =
      match (s.counted.stage i).complete b with
      | (s, some fault) => (s, some fault)
      | (s, none) => (s.maybeSample, none) := by
  rw [← dispatch_eq]
  rfl

/-- Taking an item changes the session as its three parts do, but for the sample. -/
theorem take_complete (b : Behavior H σ) (s : Session H σ) (i : Item) :
    ∃ monitor records,
      (s.take b i).1 = { ((s.counted.stage i).complete b).1 with monitor, records } := by
  rw [take_eq]
  split
  next s' fault heq => exact ⟨s'.monitor, s'.records, by rw [heq]⟩
  next s' heq =>
    obtain ⟨monitor, records, hsample⟩ := s'.maybeSample_eq
    exact ⟨monitor, records, by rw [heq, hsample]⟩

/-- Where an item is taken without a fault there is none behind its three parts. -/
theorem complete_of_take {b : Behavior H σ} {s s' : Session H σ} {i : Item}
    (htake : s.take b i = (s', none)) :
    ∃ s₁ monitor records, (s.counted.stage i).complete b = (s₁, none) ∧
      s' = { s₁ with monitor, records } := by
  rw [take_eq] at htake
  cases hcomplete : (s.counted.stage i).complete b with
  | mk s₁ fault =>
      rw [hcomplete] at htake
      cases fault with
      | some fault => cases (Prod.mk.inj htake).2
      | none =>
          obtain ⟨rfl, -⟩ := Prod.mk.inj htake
          obtain ⟨monitor, records, hsample⟩ := s₁.maybeSample_eq
          exact ⟨s₁, monitor, records, rfl, hsample⟩

/-- Only handlers ask for a stop: what comes before their calls does not. -/
theorem stage_stopPath (s : Session H σ) (i : Item) :
    (s.counted.stage i).session.stopPath = s.stopPath := by
  obtain ⟨_, _, _, _, _, _, _, heq⟩ := s.counted.stage_eq i
  rw [heq]
  rfl

/-- Where every handler of an item just returns nobody asks for a stop. -/
theorem take_passes {i : Item} (hgoing : s.stopPath = none)
    (hall : ∀ p ∈ (s.counted.stage i).moments b, p.Passes b) : (s.take b i).1.stopPath = none := by
  obtain ⟨monitor, records, heq⟩ := s.take_complete b i
  rw [heq]
  exact Stage.complete_passes ((s.stage_stopPath i).trans hgoing) hall

/-- **A drive ends with the first handler that does not just return.** No other one is called after
it, and what is left of its event is the rest of the drive. -/
theorem run_breaks (feed : Feed) (hgoing : s.stopPath = none)
    (hcalls : s.moments b feed = before ++ m :: after) (hbefore : ∀ p ∈ before, p.Passes b)
    (hm : ¬ m.Passes b) : after = [] ∧ s.run b feed = m.last b := by
  induction feed generalizing s before with
  | done => cases before <;> cases hcalls
  | fault fault => cases before <;> cases hcalls
  | read chunk rest ih => exact ih hgoing hcalls hbefore
  | note r rest ih => exact ih (s := s.log r) hgoing hcalls hbefore
  | item i rest ih =>
      unfold Session.moments at hcalls
      unfold Session.run
      rcases append_eq_append_cons hcalls with ⟨mid, hstage, rfl⟩ | ⟨later, rfl, hlater⟩
      · -- the call is one of this item
        obtain ⟨rfl, hresult⟩ := Stage.complete_breaks hstage hbefore hm
        have htake : s.take b i = m.last b := by
          rw [take_eq, hresult]
          rfl
        rw [htake]
        rcases Moment.last_ends hm with hfault | ⟨hnone, hstopped⟩
        · obtain ⟨fault, hfault⟩ := Option.isSome_iff_exists.mp hfault
          generalize m.last b = last at hfault ⊢
          obtain ⟨s', fault'⟩ := last
          cases hfault
          exact ⟨rfl, rfl⟩
        · generalize m.last b = last at hnone hstopped ⊢
          obtain ⟨s', fault'⟩ := last
          cases hnone
          simp only [hstopped, if_true]
          exact ⟨rfl, trivial⟩
      · -- the call is one of a later item
        have hpassed := take_passes (i := i) hgoing
          fun p hp => hbefore p (List.mem_append_left later hp)
        generalize s.take b i = taken at hlater hpassed ⊢
        obtain ⟨s', fault⟩ := taken
        cases fault with
        | some fault => cases later <;> cases hlater
        | none =>
            have hgoes : s'.stopped = false := by rw [stopped, hpassed]; rfl
            simp only [hgoes, Bool.false_eq_true, if_false] at hlater ⊢
            exact ih hpassed hlater fun p hp => hbefore p (List.mem_append_right _ hp)

/-- **Handlers that do the same as long as they return are called at the same moments**, up to the
first one at which not just a return follows. -/
theorem moments_follow (hq : q.Follows b) (feed : Feed) (hgoing : s.stopPath = none)
    (hcalls : s.moments b feed = before ++ m :: after) (hbefore : ∀ p ∈ before, p.Passes b) :
    ∃ later, s.moments q feed = before ++ m :: later := by
  induction feed generalizing s before with
  | done => cases before <;> cases hcalls
  | fault fault => cases before <;> cases hcalls
  | read chunk rest ih => exact ih hgoing hcalls hbefore
  | note r rest ih => exact ih (s := s.log r) hgoing hcalls hbefore
  | item i rest ih =>
      unfold Session.moments at hcalls ⊢
      have hstart := (s.stage_stopPath i).trans hgoing
      rcases append_eq_append_cons hcalls with ⟨mid, hstage, rfl⟩ | ⟨later, rfl, hlater⟩
      · obtain ⟨later, hlater⟩ := Stage.moments_follow hq hstart hstage hbefore
        rw [hlater]
        exact ⟨_, by rw [List.append_assoc, List.cons_append]⟩
      · have hall : ∀ p ∈ (s.counted.stage i).moments b, p.Passes b :=
          fun p hp => hbefore p (List.mem_append_left later hp)
        obtain ⟨hsame, hmoments⟩ := Stage.complete_follows hq hstart hall
        have htake : s.take q i = s.take b i := by rw [take_eq, take_eq, hsame]
        have hpassed := take_passes (i := i) hgoing hall
        rw [hmoments, htake]
        generalize s.take b i = taken at hlater hpassed ⊢
        obtain ⟨s', fault⟩ := taken
        cases fault with
        | some fault => cases later <;> cases hlater
        | none =>
            have hgoes : s'.stopped = false := by rw [stopped, hpassed]; rfl
            simp only [hgoes, Bool.false_eq_true, if_false] at hlater ⊢
            obtain ⟨rest', hrest⟩ :=
              ih hpassed hlater fun p hp => hbefore p (List.mem_append_right _ hp)
            exact ⟨rest', by rw [hrest, List.append_assoc]⟩

/-- The calls that a drive makes are those of its moments. -/
theorem calls_run (b : Behavior H σ) (feed : Feed) (s : Session H σ) :
    (s.run b feed).1.calls = ((s.moments b feed).map Moment.call).reverse ++ s.calls := by
  induction feed generalizing s with
  | done => rfl
  | fault fault => rfl
  | read chunk rest ih => exact ih s
  | note r rest ih => exact ih (s.log r)
  | item i rest ih =>
      have htaken : (s.take b i).1.calls =
          (((s.counted.stage i).moments b).map Moment.call).reverse ++ s.calls := by
        obtain ⟨monitor, records, hcomplete⟩ := s.take_complete b i
        obtain ⟨_, _, _, _, _, _, _, hstage⟩ := s.counted.stage_eq i
        have hcalls := Stage.calls_complete b (s.counted.stage i)
        rw [hstage] at hcalls
        rw [hcomplete]
        exact hcalls
      unfold Session.run Session.moments
      generalize s.take b i = taken at htaken ⊢
      obtain ⟨s', fault⟩ := taken
      cases fault with
      | some fault => rw [htaken, List.append_nil]
      | none =>
          dsimp only at htaken ⊢
          split_ifs
          · rw [htaken, List.append_nil]
          · rw [ih s', htaken, List.map_append, List.reverse_append, List.append_assoc]

/-- What comes before a moment of a drive is what came before the item that it is a moment of, and
what comes before it at that item. The item is taken while nobody has asked for a stop, in a session
that has whatever making records and taking items keep. -/
theorem moments_split {P : Session H σ → Prop} (hlog : ∀ s r, P s → P (s.log r))
    (htake : ∀ s i s', P s → s.stopPath = none → s.take b i = (s', none) → P s') (feed : Feed)
    (hs : P s) (hgoing : s.stopPath = none) (hcalls : s.moments b feed = before ++ m :: after) :
    ∃ s' i earlier first rest, P s' ∧ s'.stopPath = none ∧ before = earlier ++ first ∧
      (s'.counted.stage i).moments b = first ++ m :: rest := by
  induction feed generalizing s before with
  | done => cases before <;> cases hcalls
  | fault fault => cases before <;> cases hcalls
  | read chunk rest ih => exact ih hs hgoing hcalls
  | note r rest ih => exact ih (hlog s r hs) hgoing hcalls
  | item i rest ih =>
      unfold Session.moments at hcalls
      rcases append_eq_append_cons hcalls with ⟨mid, hstage, rfl⟩ | ⟨later, rfl, hlater⟩
      · exact ⟨s, i, [], before, mid, hs, hgoing, rfl, hstage⟩
      · split at hlater
        · cases later <;> cases hlater
        next s' heq =>
          split at hlater
          · cases later <;> cases hlater
          next hgoes =>
            obtain ⟨s₁, j, earlier, first, rest', hs₁, hnone, rfl, hfirst⟩ :=
              ih (htake s i s' hs hgoing heq) (by simpa [stopped] using hgoes) hlater
            exact ⟨s₁, j, _ ++ earlier, first, rest', hs₁, hnone, (List.append_assoc _ _ _).symm,
              hfirst⟩

/-- Each moment of a drive is one of an item that is taken while nobody has asked for a stop, in a
session that has whatever making records and taking items keep. -/
theorem mem_moments {P : Session H σ → Prop} (hlog : ∀ s r, P s → P (s.log r))
    (htake : ∀ s i s', P s → s.stopPath = none → s.take b i = (s', none) → P s') (feed : Feed)
    (hs : P s) (hgoing : s.stopPath = none) (hm : m ∈ s.moments b feed) :
    ∃ s' i, P s' ∧ s'.stopPath = none ∧ m ∈ (s'.counted.stage i).moments b := by
  obtain ⟨before, after, hcalls⟩ := List.append_of_mem hm
  obtain ⟨s', i, -, first, rest, hs', hnone, -, hfirst⟩ :=
    moments_split hlog htake feed hs hgoing hcalls
  refine ⟨s', i, hs', hnone, ?_⟩
  rw [hfirst]
  exact List.mem_append_right first List.mem_cons_self

end Session

end MarkupRouting
