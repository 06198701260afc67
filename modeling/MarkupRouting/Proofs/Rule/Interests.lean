import MarkupRouting.Proofs.Pattern.Language
import MarkupRouting.Proofs.Rule.Order

/-!
# Following a path through the interests

At every name of a path the interests that died are left out. Nothing is lost by that: what is
selected at the end of the path, and what is still alive there, is what whole paths tell.

* **Interest.along** — the interests alive behind several names.
* **RuleBook.interests_along** — they are those of all rules, advanced by the whole path, that are
  alive there.
* **RuleBook.matched_along** — the rules matched at the end of a path are those that select it.
* **RuleBook.Tracks** — what interests say at the end of a path; **RuleBook.tracks_along** says that
  those alive there do.
* **RuleBook.interests_follow_path** — both together, with what becomes of rules that are left out.
-/

namespace MarkupRouting

namespace Positions

variable {steps : List Step} {states : Positions}

/-- Some member stands before a step. -/
theorem canExtend_iff : canExtend steps states = true ↔ ∃ i ∈ states, i < steps.length := by
  simp [canExtend]

/-- No name leads on from a set that no longer path can complete. -/
theorem advance_eq_nil (h : canExtend steps states = false) (name : String) :
    advance steps states name = [] := by
  rw [Bool.eq_false_iff, ne_eq, canExtend_iff] at h
  refine advance_eq_nil_iff.mpr fun i hi s hs => ?_
  exact absurd ⟨i, hi, (List.getElem?_eq_some_iff.mp hs).1⟩ h

end Positions

/-- A name that a step takes. -/
def Step.sample : Step → String
  | .element name => name
  | .any | .deep => "any"

/-- A step takes its sample. -/
theorem Step.spans_sample (s : Step) : s.Spans [s.sample] := by
  cases s <;> simp [Step.Spans, Step.sample]

/-- Where there are steps, they spell a path that is not empty. -/
theorem exists_spells {steps : List Step} (h : steps ≠ []) :
    ∃ path, path ≠ [] ∧ Spells steps path := by
  refine ⟨steps.map Step.sample, by simpa using h, steps.map (fun s => [s.sample]), ?_, ?_⟩
  · rw [← List.flatMap_def, ← List.map_eq_flatMap]
  · rw [List.forall₂_map_right_iff, List.forall₂_same]
    exact fun s _ => s.spans_sample

namespace Positions

variable {steps : List Step} {states : Positions}

/-- A set can be extended exactly where the steps behind a member spell a path that is not empty. -/
theorem canExtend_iff_exists_spells :
    canExtend steps states = true ↔
      ∃ path, path ≠ [] ∧ ∃ i ∈ states, Spells (steps.drop i) path := by
  rw [canExtend_iff]
  constructor
  · rintro ⟨i, hi, hlt⟩
    have hdrop : steps.drop i ≠ [] := by simpa using hlt
    obtain ⟨path, hne, hpath⟩ := exists_spells hdrop
    exact ⟨path, hne, i, hi, hpath⟩
  · rintro ⟨path, hne, i, hi, hpath⟩
    refine ⟨i, hi, Nat.lt_of_not_le fun hle => hne ?_⟩
    rwa [List.drop_eq_nil_of_le hle, spells_nil] at hpath

end Positions

namespace Pattern

/-- The positions of a pattern behind a path (`advance`, name by name), from which it is told
whether the path is selected and whether a longer one may be. -/
def reached (p : Pattern) (path : List String) : Positions :=
  Positions.advanceAll p.steps (Positions.start p.steps) path

/-- The positions behind one more name. -/
theorem reached_concat (p : Pattern) (path : List String) (name : String) :
    p.reached (path ++ [name]) = Positions.advance p.steps (p.reached path) name := by
  simp [reached, Positions.advanceAll]

/-- A pattern selects a path that is not empty where the match is complete behind it. -/
theorem matchesPath_eq_accepts (p : Pattern) {path : List String} (h : path ≠ []) :
    p.matchesPath path = Positions.accepts p.steps (p.reached path) := by
  rw [matchesPath, Positions.completes_eq_accepts, reached]
  simp [h]

/-- Behind a path a longer one may complete the match exactly where the pattern selects a longer
one. -/
theorem canExtend_reached_iff (p : Pattern) (path : List String) :
    Positions.canExtend p.steps (p.reached path) = true ↔
      ∃ more, more ≠ [] ∧ p.matchesPath (path ++ more) = true := by
  rw [Positions.canExtend_iff_exists_spells]
  refine exists_congr fun more => and_congr_right fun hne => ?_
  rw [reached, Positions.exists_spells_advanceAll (Positions.closed_start p.steps),
    Positions.exists_mem_start_spells, selects_iff]
  simp [hne]

end Pattern

namespace Interest

variable {H : Type} {pending : List (Interest H)}

/-- The interests alive behind several names, where the given ones were alive before them:
`MatchEngine.step` name by name, in which an interest that is over is dropped and never looked at
again. -/
def along (pending : List (Interest H)) (path : List String) : List (Interest H) :=
  path.foldl pendingBelow pending

/-- The interests alive behind one more name. -/
theorem along_concat (pending : List (Interest H)) (path : List String) (name : String) :
    along pending (path ++ [name]) = pendingBelow (along pending path) name := by
  simp [along]

/-- What is not alive has no positions one name further down. -/
theorem states_advance_eq_nil {i : Interest H} (h : i.isAlive = false) (name : String) :
    (i.advance name).states = [] :=
  Positions.advance_eq_nil h name

/-- What is not alive is neither alive nor matched one name further down. -/
theorem not_advance {i : Interest H} (h : i.isAlive = false) (name : String) :
    (i.advance name).isAlive = false ∧ (i.advance name).isMatch = false := by
  simp [isAlive, isMatch, Positions.canExtend, Positions.accepts, states_advance_eq_nil h name]

/-- Leaving out what is not alive before a name changes nothing behind it. -/
theorem filter_map_advance_filter (p : Interest H → Bool) (name : String)
    (hp : ∀ i : Interest H, i.isAlive = false → p (i.advance name) = false) :
    ((pending.filter isAlive).map (·.advance name)).filter p =
      (pending.map (·.advance name)).filter p := by
  induction pending with
  | nil => rfl
  | cons i rest ih =>
      by_cases h : i.isAlive = true
      · simp only [List.filter_cons_of_pos h, List.map_cons, List.filter_cons, ih]
      · rw [List.filter_cons_of_neg h, List.map_cons, List.filter_cons_of_neg, ih]
        rw [hp i (Bool.eq_false_iff.mpr h)]
        exact Bool.false_ne_true

end Interest

namespace RuleBook

variable {H : Type} {book : RuleBook H}

/-- The interests of all rules, advanced by a whole path. -/
def advanced (book : RuleBook H) (path : List String) : List (Interest H) :=
  book.rules.map fun r => ⟨r, r.pattern.reached path⟩

/-- The interests advanced by one more name. -/
theorem advanced_concat (book : RuleBook H) (path : List String) (name : String) :
    book.advanced (path ++ [name]) = (book.advanced path).map (·.advance name) := by
  simp [advanced, Interest.advance, Pattern.reached_concat]

/-- The interests alive at the end of a path are those of all rules that are alive there: whatever
was left out on the way would not be. -/
theorem interests_along (book : RuleBook H) (path : List String) (name : String) :
    Interest.along book.interests (path ++ [name]) =
      (book.advanced (path ++ [name])).filter Interest.isAlive := by
  induction path using List.reverseRecOn generalizing name with
  | nil =>
      rw [Interest.along_concat, Interest.pendingBelow, book.advanced_concat]
      rfl
  | append_singleton path last ih =>
      rw [Interest.along_concat, ih, Interest.pendingBelow, book.advanced_concat (path ++ [last]),
        Interest.filter_map_advance_filter _ _ fun i h => (Interest.not_advance h name).1]

/-- The rules matched at the end of a path are those that select it, in the order of the book. -/
theorem matched_along (book : RuleBook H) (path : List String) (name : String) :
    Interest.matched (Interest.along book.interests path) name =
      book.selecting (path ++ [name]) := by
  have hall : Interest.matched (Interest.along book.interests path) name =
      (((book.advanced path).map (·.advance name)).filter Interest.isMatch).map Interest.rule := by
    rcases List.eq_nil_or_concat path with rfl | ⟨front, last, rfl⟩
    · rfl
    · rw [List.concat_eq_append, book.interests_along, Interest.matched,
        Interest.filter_map_advance_filter _ _ fun i h => (Interest.not_advance h name).2]
  rw [hall, ← advanced_concat, advanced, selecting, List.filter_map, List.map_map]
  have hid : (Interest.rule ∘ fun r : Rule H =>
      (⟨r, r.pattern.reached (path ++ [name])⟩ : Interest H)) = id := rfl
  rw [hid, List.map_id]
  refine List.filter_congr fun r _ => ?_
  rw [r.pattern.matchesPath_eq_accepts (by simp)]
  rfl

/-- What interests say at the end of a path: which rules may select something further down, and how
far each of them has come. -/
structure Tracks (book : RuleBook H) (path : List String) (pending : List (Interest H)) : Prop where
  /-- A rule is there exactly where it selects something below the end of the path. -/
  alive : ∀ r, r ∈ pending.map Interest.rule ↔
    r ∈ book.rules ∧ ∃ more, more ≠ [] ∧ r.pattern.matchesPath (path ++ more) = true
  /-- The rules are there in the order of the book. -/
  order : (pending.map Interest.rule).Sublist book.rules
  /-- Every rule is more specific than all that come after it, so that none is there twice. -/
  ranked : (pending.map Interest.rule).Pairwise fun a b =>
    a.pattern.rank.before b.pattern.rank = true
  /-- Every rule is there with the positions that the whole path leads to. -/
  states : ∀ i ∈ pending, i.states =
    Positions.advanceAll i.rule.pattern.steps (Positions.start i.rule.pattern.steps) path

/-- The rules alive behind a path are those that are alive there on their own. -/
theorem rules_filter_advanced (book : RuleBook H) (path : List String) :
    ((book.advanced path).filter Interest.isAlive).map Interest.rule =
      book.rules.filter fun r => Positions.canExtend r.pattern.steps (r.pattern.reached path) := by
  rw [advanced, List.filter_map, List.map_map]
  exact List.map_id _

/-- The interests alive at the end of a path say what there is to say there. -/
theorem tracks_along (hb : book.Registered) (path : List String) (name : String) :
    book.Tracks (path ++ [name]) (Interest.along book.interests (path ++ [name])) := by
  rw [interests_along]
  have hsub : (((book.advanced (path ++ [name])).filter Interest.isAlive).map Interest.rule).Sublist
      book.rules := by
    rw [rules_filter_advanced]
    exact List.filter_sublist
  refine ⟨fun r => ?_, hsub, hb.ordered.ranked.sublist hsub, fun i hi => ?_⟩
  · rw [rules_filter_advanced, List.mem_filter, Pattern.canExtend_reached_iff]
  · obtain ⟨r, -, rfl⟩ := List.mem_map.mp (List.mem_filter.mp hi).1
    rfl

/-- **Following a path agrees with whole paths** (`MatchEngine.step` and `match_path`). Of a book
made by registrations, the rules matched at the end of a path are those that select it, in the order
of the book, and the interests alive there say which rules may select something further down, and
with which positions. A rule that is not alive at the end of some part of the path selects nothing
below it, and selects that end itself only where it was matched there. -/
theorem interests_follow_path (hb : book.Registered) (front : List String) (name : String) :
    Interest.matched (Interest.along book.interests front) name = book.selecting (front ++ [name]) ∧
      book.Tracks (front ++ [name]) (Interest.along book.interests (front ++ [name])) ∧
      ∀ around last, around ++ [last] <+: front ++ [name] → ∀ r ∈ book.rules,
        r ∉ (Interest.along book.interests (around ++ [last])).map Interest.rule →
          (r.pattern.matchesPath (around ++ [last]) = true ↔
            r ∈ Interest.matched (Interest.along book.interests around) last) ∧
          ∀ more, more ≠ [] → r.pattern.matchesPath (around ++ [last] ++ more) = false := by
  refine ⟨book.matched_along front name, tracks_along hb front name, ?_⟩
  intro around last _ r hr hout
  refine ⟨?_, fun more hne => ?_⟩
  · rw [book.matched_along, selecting, List.mem_filter, and_iff_right hr]
  · rw [(tracks_along hb around last).alive] at hout
    exact Bool.eq_false_iff.mpr fun h => hout ⟨hr, more, hne, h⟩

/-- The rule for a root element called `a`. -/
def rootRule : Rule Unit := ⟨⟨"/a", [.element "a"], true, 0⟩, none, some (), .normalize⟩

/-- The rule for elements called `b` inside an element called `a`. -/
def insideRule : Rule Unit :=
  ⟨⟨"a//b", [.element "a", .deep, .element "b"], false, 1⟩, none, some (), .normalize⟩

/-- The book of the two rules, the more specific one first. -/
def smallBook : RuleBook Unit :=
  { defaultMode := .normalize, rules := [insideRule, rootRule], next := 2 }

/-- The small book is made by two registrations. -/
theorem registered_smallBook : smallBook.Registered := by
  have hroot : (empty .normalize).register (.text "/a") (.handler ()) =
      .ok (rootRule, (empty .normalize).add rootRule) := rfl
  have hinside : ((empty .normalize).add rootRule).register (.text "a//b") (.handler ()) =
      .ok (insideRule, smallBook) := rfl
  exact .register (.register (.empty .normalize) hroot) hinside

/-- The rule for the root element is left out below it. -/
theorem rootRule_not_alive :
    rootRule ∉ (Interest.along smallBook.interests ["a"]).map Interest.rule := by
  intro h
  have heq : rootRule = insideRule := List.mem_singleton.mp h
  exact absurd (congrArg (fun r => r.pattern.segments.length) heq) (by decide)

/-- In the small book the rule for the root element is left out below it: nothing further down is
selected by it. -/
theorem interests_follow_path_smallBook :
    smallBook.Registered ∧
      Interest.matched (Interest.along smallBook.interests ["a"]) "b" = [insideRule] ∧
      (Interest.along smallBook.interests ["a"]).map Interest.rule = [insideRule] ∧
      ∀ more, more ≠ [] → rootRule.pattern.matchesPath ("a" :: more) = false := by
  obtain ⟨hmatched, -, hout⟩ := interests_follow_path registered_smallBook ["a"] "b"
  refine ⟨registered_smallBook, hmatched.trans rfl, rfl, ?_⟩
  exact (hout [] "a" (by simp) rootRule (by simp [smallBook]) rootRule_not_alive).2

/-- A rule that is left out at the end of a path may select that end: the rule for the root element
does. -/
theorem not_selecting_only_alive :
    ¬ ∀ (book : RuleBook Unit), book.Registered → ∀ front name, ∀ r ∈ book.rules,
      r ∉ (Interest.along book.interests (front ++ [name])).map Interest.rule →
        r.pattern.matchesPath (front ++ [name]) = false := by
  intro h
  have hroot := h smallBook registered_smallBook [] "a" rootRule (by simp [smallBook])
    rootRule_not_alive
  exact absurd hroot (by decide)

end RuleBook

end MarkupRouting
