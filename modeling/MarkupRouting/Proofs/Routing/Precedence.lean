import MarkupRouting.Proofs.Pattern.Narrowing
import MarkupRouting.Proofs.Routing.Endings
import MarkupRouting.Proofs.Routing.Nesting
import MarkupRouting.Proofs.Routing.Reading

/-!
# Narrower patterns come first

Whenever a handler is called, those of the rules before its own in the book that select the element
were called for the same event. A narrower pattern has the more specific rank, so that its rule
stands before that of the wider one.

* **Session.rules_momentsFrom** — the rules whose handlers are called are the first ones that have
  one.
* **Session.before_of_narrower** — where the handler of a wider pattern is called, that of a
  narrower one was called before.
* **Dispatcher.drive_prefers_narrower** — which patterns are narrower, and what a drive makes of it.
-/

namespace MarkupRouting

variable {H σ : Type}

namespace Session

variable {b : Behavior H σ} {s : Session H σ} {f : Frame H} {phase : Phase} {rules : List (Rule H)}
  {before after : List (Moment H σ)} {m : Moment H σ} {book : RuleBook H}

/-- Handlers are called for the first ones of the rules that have one. -/
theorem rules_momentsFrom (b : Behavior H σ) (phase : Phase) (rules : List (Rule H))
    (s : Session H σ) (f : Frame H) :
    (momentsFrom b phase rules s f).map Moment.rule <+:
      rules.filter fun r => (handlerOf phase r).isSome := by
  induction rules generalizing s f with
  | nil => exact List.nil_prefix
  | cons r rest ih =>
      cases hr : handlerOf phase r with
      | none =>
          rw [List.filter_cons_of_neg (by rw [hr]; exact Bool.false_ne_true)]
          simp only [momentsFrom, hr]
          exact ih s f
      | some h =>
          rw [List.filter_cons_of_pos (by rw [hr]; rfl)]
          by_cases hm : (⟨s, f, phase, h, r⟩ : Moment H σ).Passes b
          · rw [(cons_of_passes hr rest hm).1, List.map_cons]
            exact (List.prefix_cons_inj r).mpr (ih _ _)
          · rw [(cons_of_not_passes hr rest hm).1, List.map_singleton]
            exact (List.prefix_cons_inj r).mpr List.nil_prefix

/-- **Where the handler of a rule with a wider pattern is called for an element, that of a rule with
a narrower one was called before** for the same event. -/
theorem before_of_narrower (h : s.stack.Nested book) (hbook : book.Ordered)
    (hgoing : s.stopPath = none) {i : Item} (hcalls : (s.stage i).moments b = before ++ m :: after)
    {r : Rule H} (hr : r ∈ book.rules) (hnarrow : r.pattern.Narrower m.rule.pattern)
    (hselects : r.pattern.matchesPath (m.session.stack.push m.frame).names = true)
    (hhandler : (handlerOf m.phase r).isSome = true) :
    ∃ m' ∈ before, m'.rule = r ∧ m'.phase = m.phase ∧ m'.session.pulled = m.session.pulled ∧
      m'.session.stack = m.session.stack := by
  have hcalled : m ∈ (s.stage i).moments b := by
    rw [hcalls]
    exact List.mem_append_right before List.mem_cons_self
  obtain ⟨phase, s', f, hstage, hknown⟩ := exists_calling hgoing hcalled
  rw [hcalls] at hknown
  rw [hstage] at hcalls
  obtain ⟨hbeside, htouched, hphase, hrule⟩ :=
    hknown m (List.mem_append_right before List.mem_cons_self)
  generalize f.rulesFor phase = rules at hstage hcalls hrule
  have hrules := rules_of_calling h hstage (List.ne_nil_of_mem hrule)
  -- the narrower rule is among those for the element, in front of the wider one
  have hmem : r ∈ rules := by
    have hnames : (m.session.stack.push m.frame).names = (s'.stack.push f).names := by
      obtain ⟨_, _, _, hframe, -⟩ := htouched
      rw [hbeside.stack_eq, hframe]
      rfl
    rw [hrules, List.mem_filter, RuleBook.selecting, List.mem_filter, ← hnames, ← hphase]
    exact ⟨⟨hr, hselects⟩, hhandler⟩
  have hfirst : r.pattern.rank.before m.rule.pattern.rank = true :=
    hnarrow.before r.pattern.sequence m.rule.pattern.sequence
  have hordered : rules.Pairwise fun a b => a.pattern.rank.before b.pattern.rank = true := by
    rw [hrules]
    exact hbook.ranked.sublist (List.filter_sublist.trans List.filter_sublist)
  -- handlers are called for the rules in turn
  obtain ⟨later, hlater⟩ := rules_momentsFrom b phase rules s' f
  have hall : (rules.filter fun r => (handlerOf phase r).isSome) = rules := by
    rw [hrules, List.filter_filter]
    simp only [Bool.and_self]
  have hmoments : momentsFrom b phase rules s' f = before ++ m :: after := hcalls
  rw [hall, hmoments, List.map_append, List.map_cons, List.append_assoc,
    List.cons_append] at hlater
  rw [← hlater] at hmem hordered
  have hbefore := mem_before_of_pairwise
    (R := fun a b : Rule H => a.pattern.rank.before b.pattern.rank = true)
    (fun x => x.pattern.rank.before_irrefl) Rank.before_trans hordered hmem hfirst
  obtain ⟨m', hm', hrule'⟩ := List.mem_map.mp hbefore
  obtain ⟨hbeside', -, hphase', -⟩ := hknown m' (List.mem_append_left _ hm')
  refine ⟨m', hm', hrule', hphase'.trans hphase.symm, ?_, ?_⟩
  · rw [hbeside'.pulled_eq, hbeside.pulled_eq]
  · rw [hbeside'.stack_eq, hbeside.stack_eq]

end Session

namespace Dispatcher

/-- **Narrower patterns come first** (`rank_key`). A pattern that is not anchored selects what it
selects with a segment more in front of it, and what it selects at the root; any pattern selects
what it selects with a name for one of its stars. Each of these is the more specific one, whenever
the two are registered, so that in a drive its handler is called before that of the wider one for
every element that both select. A doubled separator for a single one between segments makes a
pattern that selects no less and is as specific. -/
theorem drive_prefers_narrower (d : Dispatcher H) (hidle : d.driving = false)
    (hbook : d.book.Registered) (b : Behavior H σ) (t : Markup.Tokenizer) (around : Surroundings)
    {source : Source} {feed : Feed} {closable : Bool}
    (hopen : d.openSource t (d.identity around) source = .ok (feed, closable)) (world : σ) :
    let moments := (d.engaged.session around source world).moments b feed
    (∀ (v s : String) (p q : Pattern) (k l : Int), Pattern.read v k = .ok p → p.anchored = false →
        Pattern.Segment s.toList → Pattern.read (s ++ "/" ++ v) l = .ok q → q.Narrower p) ∧
      (∀ (v : String) (p : Pattern) (k l : Int), Pattern.read v k = .ok p → p.anchored = false →
        ∃ q, Pattern.read ("/" ++ v) l = .ok q ∧ q.Narrower p) ∧
      (∀ (x name y : String) (p q : Pattern) (k l : Int), Pattern.read (x ++ "*" ++ y) k = .ok p →
        Name.Word name.toList → Pattern.read (x ++ name ++ y) l = .ok q → q.Narrower p) ∧
      (d.drive b t around source world).1.calls = moments.map Moment.call ∧
      (∀ before m after, moments = before ++ m :: after → ∀ r ∈ d.book.rules,
        r.pattern.Narrower m.rule.pattern →
        r.pattern.matchesPath (m.session.stack.push m.frame).names = true →
        (Session.handlerOf m.phase r).isSome = true →
          ∃ m' ∈ before, m'.rule = r ∧ m'.phase = m.phase ∧
            m'.session.pulled = m.session.pulled ∧ m'.session.stack = m.session.stack) ∧
      ∀ (x y : String) (p : Pattern) (k l : Int), Pattern.read (x ++ "/" ++ y) k = .ok p →
        x.toList ≠ [] → x.toList.getLast? ≠ some '/' → y.toList.head? ≠ some '/' →
          ∃ q, Pattern.read (x ++ "//" ++ y) l = .ok q ∧
            (∀ path, p.matchesPath path = true → q.matchesPath path = true) ∧
            q.rank = { p.rank with sequence := l } := by
  intro moments
  refine ⟨?_, ?_, ?_, calls_opened hidle hopen b world, ?_, ?_⟩
  · intro v s p q k l hp hfree hs hq
    exact Pattern.narrower_of_child hp hfree hs hq
  · intro v p k l hp hfree
    exact Pattern.exists_narrower_of_rooted hp hfree l
  · intro x name y p q k l hp hname hq
    exact Pattern.narrower_of_named hp hname hq
  · intro before m after hcalls r hr hnarrow hselects hhandler
    obtain ⟨hstack, hgoing, -⟩ := d.session_begins (fun v => v) around source world
    have hlasting := Stack.lasting_nested b d.book
    obtain ⟨s, i, earlier, first, rest, hs, hnone, rfl, hfirst⟩ :=
      Session.moments_split (P := fun s => s.stack.Nested d.book) (fun _ _ h => h)
        (fun _ _ _ h _ htake => hlasting.take h htake) feed
        (by rw [hstack]; exact Stack.nested_ofBook d.book) hgoing hcalls
    obtain ⟨m', hm', hsame⟩ := Session.before_of_narrower (s := s.counted) hs hbook.ordered hnone
      hfirst hr hnarrow hselects hhandler
    exact ⟨m', List.mem_append_right earlier hm', hsame⟩
  · intro x y p k l hp hx hlast hfirst
    exact Pattern.exists_wider_of_gap hp hx hlast hfirst l

/-- The rule for elements of any name, registered first. -/
def earlyStarRule : Rule Unit := ⟨⟨"*", [.any], false, 0⟩, none, some (), .keep⟩

/-- The rule for elements called `item`, registered behind it. -/
def lateItemRule : Rule Unit := ⟨⟨"item", [.element "item"], false, 1⟩, none, some (), .keep⟩

/-- A dispatcher with both rules, of which the wider one was registered first. -/
def widening : Dispatcher Unit :=
  { settings := {}
    book := { defaultMode := .keep, rules := [lateItemRule, earlyStarRule], next := 2 } }

/-- When the first item of a list is left, the handler for any element is the second one that is
called. -/
theorem drive_prefers_narrower_pairList :
    let b : Behavior Unit Unit := fun _ w => .finish w
    let source := Source.items "list" pairList true
    widening.driving = false ∧ widening.book.Registered ∧
      widening.openSource refusing (widening.identity calm) source = .ok (pairList, true) ∧
      lateItemRule.pattern.Narrower earlyStarRule.pattern ∧
      ∃ before m after,
        (widening.engaged.session calm source ()).moments b pairList = before ++ m :: after ∧
          m.rule = earlyStarRule ∧ ∃ m' ∈ before, m'.rule = lateItemRule := by
  intro b source
  have hbook : widening.book.Registered := by
    have hstar : (RuleBook.empty .keep).register (.text "*") (.handler ()) =
        .ok (earlyStarRule, (RuleBook.empty .keep).add earlyStarRule) := rfl
    have hitem : ((RuleBook.empty .keep).add earlyStarRule).register (.text "item") (.handler ()) =
        .ok (lateItemRule, widening.book) := rfl
    exact .register (.register (.empty .keep) hstar) hitem
  have hopen : widening.openSource refusing (widening.identity calm) source =
      .ok (pairList, true) := rfl
  obtain ⟨-, -, hnamed, -, hfirst, -⟩ :=
    drive_prefers_narrower widening rfl hbook b refusing calm hopen ()
  have hnarrow : lateItemRule.pattern.Narrower earlyStarRule.pattern :=
    hnamed "" "item" "" _ _ 0 1 (by decide) (Name.isValid_iff.mp (by decide)) (by decide)
  -- what is needed of the first two calls is read off the moments without writing these out
  have hview : ((widening.engaged.session calm source ()).moments b pairList).map
      (fun m => (m.rule, m.phase, (m.session.stack.push m.frame).names)) =
      [(lateItemRule, .closing, ["list", "item"]), (earlyStarRule, .closing, ["list", "item"]),
        (lateItemRule, .closing, ["list", "item"]), (earlyStarRule, .closing, ["list", "item"]),
        (earlyStarRule, .closing, ["list"])] := by rfl
  obtain ⟨m₁, rest, hmoments, -, hrest⟩ := List.map_eq_cons_iff.mp hview
  obtain ⟨m₂, after, rfl, hm₂, -⟩ := List.map_eq_cons_iff.mp hrest
  simp only [Prod.mk.injEq] at hm₂
  obtain ⟨hrule, hphase, hnames⟩ := hm₂
  obtain ⟨m', hm', hrule', -⟩ := hfirst [m₁] m₂ after hmoments lateItemRule
    (List.mem_cons_self) (by rw [hrule]; exact hnarrow) (by rw [hnames]; decide)
    (by rw [hphase]; rfl)
  exact ⟨rfl, hbook, hopen, hnarrow, [m₁], m₂, after, hmoments, hrule, m', hm', hrule'⟩

end Dispatcher

end MarkupRouting
