import MarkupRouting.Proofs.Routing.Failing
import MarkupRouting.Proofs.Routing.ObservationalEquality

/-!
# Dispatchers that are asked while they drive

While a dispatcher drives it refuses every request of the handlers that it calls. A refusal that a
handler deals with leaves no trace, and one that it does not deal with ends the drive. Nothing that
a handler does with another dispatcher matters to the drive.

* **Action.alone**, **Behavior.alone** — what handlers do, without asking for anything and without
  the records of what they do elsewhere.
* **Behavior.matches_alone** — while a dispatcher drives that is the same, as far as is seen.
* **Action.LetsOut** — a handler fails with the refusal of a request.
* **Session.driving_moments** — a dispatcher is driving at every call that it makes.
* **Session.passes_before** — every handler but the last one that is called just returns.
* **Dispatcher.Refuses** — nothing is granted, and nothing changes.
* **Dispatcher.drive_guarded** — what comes of requests, for drives of a dispatcher.
-/

namespace MarkupRouting

variable {H σ : Type}

/-! ### Handlers that ask -/

namespace Action

/-- What a handler does where every request is refused, without asking, and without the records of
what it does elsewhere. -/
def alone : Action σ → Action σ
  | finish w => finish w
  | raise fault w => raise fault w
  | stop next => stop next.alone
  | setAttribute name value next => setAttribute name value next.alone
  | append c next => append c next.alone
  | remake n next => remake n next.alone
  | look next => look fun subject stopped => (next subject stopped).alone
  | ask request next => (next (some (.reentrant request))).alone
  | note _ next => next.alone

/-- What a handler does that has something driven elsewhere, and goes on with what came of it. -/
def elsewhere {I ρ : Type} (o : Outcome I ρ) (next : Outcome I ρ → Action σ) : Action σ :=
  note o.records (next o)

/-- The handler fails with the refusal of a request: it does not deal with it. -/
def LetsOut (request : Request) : Action σ → Turn H → Prop
  | finish _, _ => False
  | raise _ _, _ => False
  | stop next, t => next.LetsOut request t.stop
  | setAttribute name value next, t => next.LetsOut request (t.setAttribute name value)
  | append c next, t => next.LetsOut request (t.append c)
  | remake n next, t => next.LetsOut request (t.remake n)
  | look next, t => (next t.subject t.stopPath.isSome).LetsOut request t
  | ask asked next, t =>
    (asked = request ∧ ∃ fault w, refusal t.driving asked = some fault ∧
        next (some fault) = raise fault w) ∨
      (next (refusal t.driving asked)).LetsOut request t
  | note records next, t => next.LetsOut request { t with records := records.reverse ++ t.records }

/-- A dispatcher that is driving refuses what is asked of it, and the turn stays as it is. -/
theorem run_ask {t : Turn H} (hdriving : t.driving = true) (request : Request)
    (next : Option Fault → Action σ) :
    (ask request next).run t = (next (some (.reentrant request))).run t := by
  rw [run, refusal_driving hdriving]

/-- A request to stop does not end a drive by itself. -/
theorem driving_stop (t : Turn H) : t.stop.driving = t.driving := by
  unfold Turn.stop
  split <;> rfl

/-- Putting something into a node does not end a drive. -/
theorem driving_append (t : Turn H) (c : Content) : (t.append c).driving = t.driving := by
  unfold Turn.append
  split <;> rfl

/-- Neither does changing a node. -/
theorem driving_remake (t : Turn H) (n : Node) : (t.remake n).driving = t.driving := by
  unfold Turn.remake
  split <;> rfl

/-- While a dispatcher drives it is the same whether a handler asks it for something or not. -/
theorem run_alone (a : Action σ) {t : Turn H} (hdriving : t.driving = true) :
    (a.run t).1.view = (a.alone.run t).1.view ∧ (a.run t).2 = (a.alone.run t).2 := by
  induction a generalizing t with
  | finish w => exact ⟨rfl, rfl⟩
  | raise fault w => exact ⟨rfl, rfl⟩
  | stop next ih => exact ih ((driving_stop t).trans hdriving)
  | setAttribute name value next ih => exact ih (t := t.setAttribute name value) hdriving
  | append c next ih => exact ih ((driving_append t c).trans hdriving)
  | remake n next ih => exact ih ((driving_remake t n).trans hdriving)
  | look next ih => exact ih t.subject t.stopPath.isSome hdriving
  | ask request next ih =>
      rw [run_ask hdriving]
      exact ih (some (.reentrant request)) hdriving
  | note records next ih =>
      obtain ⟨hview, hrest⟩ := ih (t := { t with records := records.reverse ++ t.records }) hdriving
      have hsame : ({ t with records := records.reverse ++ t.records } : Turn H).view = t.view :=
        rfl
      obtain ⟨hview', hrest'⟩ := next.alone.run_view hsame
      exact ⟨hview.trans hview', hrest.trans hrest'⟩

/-- A handler that does not deal with a refusal fails with it. -/
theorem run_of_letsOut {request : Request} (a : Action σ) {t : Turn H} (hdriving : t.driving = true)
    (h : a.LetsOut request t) : (a.run t).2.2 = some (.reentrant request) := by
  induction a generalizing t with
  | finish w => exact h.elim
  | raise fault w => exact h.elim
  | stop next ih => exact ih ((driving_stop t).trans hdriving) h
  | setAttribute name value next ih => exact ih (t := t.setAttribute name value) hdriving h
  | append c next ih => exact ih ((driving_append t c).trans hdriving) h
  | remake n next ih => exact ih ((driving_remake t n).trans hdriving) h
  | look next ih => exact ih t.subject t.stopPath.isSome hdriving h
  | ask asked next ih =>
      have hrefused := refusal_driving hdriving asked
      rw [run_ask hdriving]
      rcases h with ⟨rfl, fault, w, hfault, hnext⟩ | h
      · rw [hrefused] at hfault
        cases hfault
        rw [hnext]
        rfl
      · rw [hrefused] at h
        exact ih (some (.reentrant asked)) hdriving h
  | note records next ih =>
      exact ih (t := { t with records := records.reverse ++ t.records }) hdriving h

end Action

namespace Behavior

/-- The handlers that do the same where every request is refused, without asking. What is driven
elsewhere is left out as well: only what comes of it is kept. -/
def alone (b : Behavior H σ) : Behavior H σ := fun c w => (b c w).alone

/-- While a dispatcher drives nobody sees whether handlers ask it for something. -/
theorem matches_alone (b : Behavior H σ) : b.Matches id b.alone := by
  intro c c' w t t' hc ht hdriving
  obtain rfl : c = c' := hc
  have hdriving' : t'.driving = true := (congrArg Turn.driving ht :).symm.trans hdriving
  obtain ⟨hview, hrest⟩ := (b c w).run_view ht
  obtain ⟨halone, hrest'⟩ := (b c w).run_alone hdriving'
  exact ⟨hview.trans halone, hrest.trans hrest'⟩

end Behavior

/-! ### Calls of a dispatcher that is driving -/

namespace Moment

/-- The handler that is called fails with the refusal of a request. -/
def LetsOut (b : Behavior H σ) (request : Request) (m : Moment H σ) : Prop :=
  (b m.call m.session.world).LetsOut request (m.session.turn m.phase m.frame)

/-- Where a handler does not deal with a refusal, it fails with it. -/
theorem LetsOut.fails {b : Behavior H σ} {request : Request} {m : Moment H σ}
    (h : m.LetsOut b request) (hdriving : m.session.driving = true) :
    m.Fails b (.reentrant request) :=
  ⟨Action.run_of_letsOut _ hdriving h, rfl⟩

end Moment

namespace Session

variable {b : Behavior H σ} {s : Session H σ} {m : Moment H σ}

/-- A dispatcher is driving at every call that it makes. -/
theorem driving_moments (hdriving : s.driving = true) (hgoing : s.stopPath = none) (feed : Feed)
    (hm : m ∈ s.moments b feed) : m.session.driving = true := by
  obtain ⟨s', i, hkept, hnone, hmem⟩ := mem_moments (P := fun s => s.driving = true)
    (fun _ _ h => h)
    (fun s i s' h _ htake => by
      rw [← h, ← s.driving_take b i, htake])
    feed hdriving hgoing hm
  obtain ⟨_, _, _, _, _, _, _, hstage⟩ := s'.counted.stage_eq i
  have hnone := (s'.stage_stopPath i).trans hnone
  generalize s'.counted.stage i = g at hmem hstage hnone
  cases g with
  | settled s fault => cases hmem
  | calling phase rules s f =>
      obtain ⟨-, ⟨_, _, _, _, _, hbeside⟩, -⟩ := mem_momentsFrom hnone hmem
      have hstage : s = _ := hstage
      rw [hbeside, hstage]
      exact hkept

/-- Every handler that is called in front of another one just returns. -/
theorem passes_before {before after : List (Moment H σ)} (hgoing : s.stopPath = none) (feed : Feed)
    (hcalls : s.moments b feed = before ++ m :: after) : ∀ p ∈ before, p.Passes b := by
  induction before using List.reverseRecOn generalizing m after with
  | nil =>
      intro p hp
      exact absurd hp List.not_mem_nil
  | append_singleton earlier q ih =>
      rw [List.append_assoc, List.singleton_append] at hcalls
      have hearlier := ih hcalls
      by_cases hq : q.Passes b
      · intro p hp
        rcases List.mem_append.mp hp with hp | hp
        · exact hearlier p hp
        · exact List.mem_singleton.mp hp ▸ hq
      · -- behind a handler that does not just return none is called
        exact absurd (run_breaks feed hgoing hcalls hearlier hq).1 (List.cons_ne_nil m after)

end Session

namespace Dispatcher

/-- A drive in which a handler fails ends with the fault that says so, where it can be said. -/
theorem result_of_fails {d : Dispatcher H} (hidle : d.driving = false) {b : Behavior H σ}
    {t : Markup.Tokenizer} {around : Surroundings} {source : Source} {feed : Feed} {closable : Bool}
    (hopen : d.openSource t (d.identity around) source = .ok (feed, closable)) {world : σ}
    {m : Moment H σ} (hm : m ∈ (d.engaged.session around source world).moments b feed)
    {cause : Fault} (hfails : m.Fails b cause) (htold : cause.mute? = none) :
    (d.drive b t around source world).1.result = .error
      (.handler cause m.call.path m.frame.name m.call.rule.pattern.source m.call.phase) := by
  obtain ⟨before, after, hcalls⟩ := List.append_of_mem hm
  obtain ⟨hgoing, -, -, -⟩ := d.session_fresh around source world
  have hbefore := Session.passes_before hgoing feed hcalls
  obtain ⟨-, horderly, hended⟩ := runSession_breaks hcalls hbefore hfails.not_passes
  obtain ⟨hfault, -, hpath, hnamed, -⟩ := hfails.last_eq horderly
  obtain ⟨hkept, -⟩ := Session.conclude_aborts hpath hnamed (m.report cause)
  rw [drive_opened hidle hopen, hended, hfault]
  dsimp only
  rw [hkept, Moment.report_of_told htold]
  rfl

/-- The dispatcher refuses to drive and to register rules, and stays as it is
(`ReentrantDriveError`). -/
structure Refuses (d : Dispatcher H) : Prop where
  /-- It drives nothing. -/
  drive : ∀ {ρ : Type} (b : Behavior H ρ) (t : Markup.Tokenizer) (around : Surroundings)
    (source : Source) (world : ρ),
    d.drive b t around source world = ({ result := .error (.reentrant .drive), world }, d)
  /-- It registers no rule. -/
  register : ∀ (pattern : Value) (offer : Offer H),
    d.register pattern offer = .error (.reentrant .register)

/-- A dispatcher that is driving refuses everything. -/
theorem refuses_of_driving {d : Dispatcher H} (hdriving : d.driving = true) : d.Refuses := by
  constructor
  · intro ρ b t around source world
    rw [Dispatcher.drive, refusal_driving hdriving]
  · intro pattern offer
    rw [Dispatcher.register, refusal_driving hdriving]

/-- The dispatcher as it is found by a handler that is called. -/
def foundAt (d : Dispatcher H) (m : Moment H σ) : Dispatcher H :=
  { d with driving := m.session.driving, ledger := m.session.ledger }

/-- **A dispatcher that is driving is guarded against its own handlers** (`is_driving`,
`ReentrantDriveError`). What is seen of a drive is the same as if the handlers asked the dispatcher
for nothing and drove nothing elsewhere; its ledger counts the same, and its rules are those it had.
At every call of the drive, whatever was asked before, the dispatcher refuses what a handler asks
for, and stays as it is, with its rules, its ledger and its guard; so does the turn of the handler.
A handler that does not deal with a refusal ends the drive with the fault that says so. Another
dispatcher that is idle is refused nothing: it drives its source from the beginning to the end. -/
theorem drive_guarded (d : Dispatcher H) (hidle : d.driving = false) (b : Behavior H σ)
    (t : Markup.Tokenizer) (around : Surroundings) (source : Source) (world : σ) :
    (d.drive b t around source world).1.view id =
        (d.drive b.alone t around source world).1.view id ∧
      (d.drive b t around source world).2.ledger.counts =
        (d.drive b.alone t around source world).2.ledger.counts ∧
      (d.drive b t around source world).2.book = d.book ∧
      (∀ feed closable, d.openSource t (d.identity around) source = .ok (feed, closable) →
        ∀ m ∈ (d.engaged.session around source world).moments b feed,
          (d.foundAt m).Refuses ∧
            (∀ (turn : Turn H), turn.driving = (d.foundAt m).driving →
              ∀ request (next : Option Fault → Action σ),
                (Action.ask request next).run turn =
                  (next (some (.reentrant request))).run turn) ∧
            ∀ request, m.LetsOut b request →
              (d.drive b t around source world).1.result =
                .error (.handler (.reentrant request) m.call.path m.frame.name
                  m.call.rule.pattern.source m.call.phase)) ∧
      ∀ {I ρ : Type} (other : Dispatcher I), other.driving = false →
        ∀ (inner : Behavior I ρ) (t' : Markup.Tokenizer) (around' : Surroundings)
          (source' : Source) (world' : ρ) (feed : Feed) (closable : Bool),
          other.openSource t' (other.identity around') source' = .ok (feed, closable) →
            let ended := runSession inner (other.engaged.session around' source' world') feed
            let driven := other.drive inner t' around' source' world'
            driven = (outcome ended.1 ended.2 around'.elapsed closable,
                { other with ledger := ended.1.ledger }) ∧
              ∀ next : Outcome I ρ → Action σ,
                (Action.elsewhere driven.1 next).alone = (next driven.1).alone := by
  obtain ⟨hview, hcounts⟩ := view_drive hidle hidle rfl rfl b.matches_alone rfl rfl t source world
  obtain ⟨ledger, hkeeps⟩ := d.drive_keeps hidle b t around source world
  refine ⟨hview, hcounts, ?_, ?_, ?_⟩
  · rw [hkeeps]
  · intro feed closable hopen m hm
    obtain ⟨hgoing, -, -, -⟩ := d.session_fresh around source world
    have hdriving : m.session.driving = true :=
      Session.driving_moments (d.engaged.driving_session around source world) hgoing feed hm
    refine ⟨refuses_of_driving hdriving, ?_, ?_⟩
    · intro turn hturn request next
      exact Action.run_ask (hturn.trans hdriving) request next
    · intro request hout
      exact result_of_fails hidle hopen hm (hout.fails hdriving) rfl
  · intro I ρ other hother inner t' around' source' world' feed closable hopen
    exact ⟨drive_opened hother hopen inner world', fun next => rfl⟩

/-- Handlers that ask for a drive and for a rule. The second one that is called does not deal with
the refusal of the rule. -/
def asking : Behavior Unit Nat := fun _ n =>
  .ask .drive fun _ => .ask .register fun refused =>
    match refused, n with
    | some fault, 1 => .raise fault 2
    | _, n => .finish (n + 1)

/-- Both handlers are refused what they ask for, and the second one ends the drive. Meanwhile the
first one may drive a list elsewhere. -/
theorem drive_guarded_pairList :
    let source := Source.items "list" pairList true
    let elsewhere := attentive.drive failing refusing calm (.items "list" brokenList false) ()
    attentive.driving = false ∧
      attentive.openSource refusing (attentive.identity calm) source = .ok (pairList, true) ∧
      (attentive.drive asking refusing calm source 0).1.view id =
        (attentive.drive asking.alone refusing calm source 0).1.view id ∧
      (∃ first m : Moment Unit Nat,
        (attentive.engaged.session calm source 0).moments asking pairList = [first, m] ∧
          (attentive.foundAt first).Refuses ∧ m.LetsOut asking .register ∧
          (attentive.drive asking refusing calm source 0).1.result =
            .error (.handler (.reentrant .register) m.call.path m.frame.name
              m.call.rule.pattern.source m.call.phase)) ∧
      (Action.elsewhere elsewhere.1 fun o => .finish o.calls.length).alone = .finish 1 := by
  intro source elsewhere
  obtain ⟨hview, -, -, hcalls, hother⟩ := drive_guarded attentive rfl asking refusing calm source 0
  -- what is needed of the two calls is read off the moments without writing these out
  have hfacts : ((attentive.engaged.session calm source 0).moments asking pairList).map
      (fun m => (m.session.world, m.session.driving)) = [(0, true), (1, true)] := rfl
  obtain ⟨first, m, hmoments⟩ : ∃ first m : Moment Unit Nat,
      (attentive.engaged.session calm source 0).moments asking pairList = [first, m] :=
    List.length_eq_two.mp (by simpa using congrArg List.length hfacts)
  rw [hmoments] at hfacts
  simp only [List.map_cons, List.map_nil, List.cons.injEq, Prod.mk.injEq] at hfacts
  obtain ⟨-, ⟨hworld, hdriving⟩, -⟩ := hfacts
  have hout : m.LetsOut asking .register := by
    rw [Moment.LetsOut, hworld]
    exact .inr (.inl ⟨rfl, .reentrant .register, 2, refusal_driving hdriving .register, rfl⟩)
  have hfirst := hcalls pairList true rfl first (by rw [hmoments]; exact List.mem_cons_self)
  have hm := hcalls pairList true rfl m
    (by rw [hmoments]; exact List.mem_cons_of_mem first List.mem_cons_self)
  have helsewhere := hother attentive rfl failing refusing calm (.items "list" brokenList false) ()
    brokenList false rfl
  exact ⟨rfl, rfl, hview, ⟨first, m, hmoments, hfirst.1, hout, hm.2.2 .register hout⟩,
    (helsewhere.2 fun o => .finish o.calls.length).trans rfl⟩

end Dispatcher

end MarkupRouting
