import Mathlib.Data.List.Forall2
import MarkupRouting.Proofs.Pattern.Closure

/-!
# The language of a pattern

What a pattern says of a path, without positions: the path falls into consecutive pieces, one for
each step.

* **Step.Spans** — a step takes a piece of a path.
* **Spells** — steps take a whole path, piece by piece.
* **spells_append**, **spells_deep_between**, **spells_between** — what steps one behind the other
  spell, what a deep step between others stands for, and steps that spell more than others.
* **exists_spells_advance** — taking one name from a closed set of positions takes it from what the
  steps behind the positions spell.
* **completes_iff** — the invariant of a match: what is completed from a closed set of positions is
  what the steps behind one of them spell.
* **Pattern.selects_iff**, **Pattern.matchesPath_iff_spells** — a pattern selects exactly the paths
  that its steps spell.
-/

namespace MarkupRouting

/-- The step takes a piece of a path: one element of the step's name, any one element, or any number
of elements. -/
def Step.Spans : Step → List String → Prop
  | .element name, piece => piece = [name]
  | .any, piece => ∃ name, piece = [name]
  | .deep, _ => True

/-- The path falls into consecutive pieces which the steps take in turn, one piece for each step: a
name takes itself, a star any one name, and a doubled separator any number of names. It says what a
pattern means without positions (`matches`). -/
def Spells (steps : List Step) (path : List String) : Prop :=
  ∃ pieces : List (List String), pieces.flatten = path ∧ List.Forall₂ Step.Spans steps pieces

variable {steps : List Step} {path : List String}

/-! ### One step -/

/-- No steps spell the empty path only. -/
theorem spells_nil : Spells [] path ↔ path = [] := by
  constructor
  · rintro ⟨pieces, rfl, h⟩
    rw [List.forall₂_nil_left_iff.mp h]
    rfl
  · rintro rfl
    exact ⟨[], rfl, .nil⟩

/-- The first step takes a piece in front, and the others spell what is left. -/
theorem spells_cons {s : Step} :
    Spells (s :: steps) path ↔
      ∃ piece rest, path = piece ++ rest ∧ s.Spans piece ∧ Spells steps rest := by
  constructor
  · rintro ⟨pieces, rfl, h⟩
    obtain ⟨piece, more, hs, hmore, rfl⟩ := List.forall₂_cons_left_iff.mp h
    exact ⟨piece, more.flatten, rfl, hs, more, rfl, hmore⟩
  · rintro ⟨piece, rest, rfl, hs, pieces, rfl, hpieces⟩
    exact ⟨piece :: pieces, rfl, .cons hs hpieces⟩

/-- A step that is not deep takes exactly one name. -/
theorem spans_iff_takes {s : Step} (hs : s ≠ .deep) {piece : List String} :
    s.Spans piece ↔ ∃ name, piece = [name] ∧ s.takes name = true := by
  cases s with
  | element name => simp [Step.Spans, Step.takes]
  | any => simp [Step.Spans, Step.takes]
  | deep => exact absurd rfl hs

/-- A step that is not deep takes the first name, and the others spell what is left. -/
theorem spells_cons_of_ne_deep {s : Step} (hs : s ≠ .deep) :
    Spells (s :: steps) path ↔
      ∃ name rest, path = name :: rest ∧ s.takes name = true ∧ Spells steps rest := by
  rw [spells_cons]
  simp only [spans_iff_takes hs]
  constructor
  · rintro ⟨-, rest, rfl, ⟨name, rfl, hname⟩, hrest⟩
    exact ⟨name, rest, rfl, hname, hrest⟩
  · rintro ⟨name, rest, rfl, hname, hrest⟩
    exact ⟨[name], rest, rfl, ⟨name, rfl, hname⟩, hrest⟩

/-- A deep step takes nothing, or the first name and goes on. -/
theorem spells_deep_cons :
    Spells (.deep :: steps) path ↔
      Spells steps path ∨ ∃ name rest, path = name :: rest ∧ Spells (.deep :: steps) rest := by
  constructor
  · intro h
    obtain ⟨piece, rest, rfl, -, hrest⟩ := spells_cons.mp h
    cases piece with
    | nil => exact .inl hrest
    | cons name piece =>
        exact .inr ⟨name, piece ++ rest, rfl, spells_cons.mpr ⟨piece, rest, rfl, trivial, hrest⟩⟩
  · rintro (h | ⟨name, rest, rfl, h⟩)
    · exact spells_cons.mpr ⟨[], path, rfl, trivial, h⟩
    · obtain ⟨piece, rest, rfl, -, hrest⟩ := spells_cons.mp h
      exact spells_cons.mpr ⟨name :: piece, rest, rfl, trivial, hrest⟩

/-! ### Steps one behind the other -/

section Append

variable {front back : List Step}

/-- Steps behind others spell what is left of a path behind what these spell. -/
theorem spells_append :
    Spells (front ++ back) path ↔
      ∃ start rest, path = start ++ rest ∧ Spells front start ∧ Spells back rest := by
  induction front generalizing path with
  | nil => simp [spells_nil]
  | cons s front ih =>
      simp only [List.cons_append, spells_cons, ih]
      constructor
      · rintro ⟨piece, _, rfl, hs, start, rest, rfl, hfront, hback⟩
        exact ⟨piece ++ start, rest, by simp, ⟨piece, start, rfl, hs, hfront⟩, hback⟩
      · rintro ⟨_, rest, rfl, ⟨piece, start, rfl, hs, hfront⟩, hback⟩
        exact ⟨piece, start ++ rest, by simp, hs, start, rest, rfl, hfront, hback⟩

/-- Steps of which one is not deep spell no empty path. -/
theorem Spells.ne_nil (h : Spells steps path) {s : Step} (hmem : s ∈ steps) (hs : s ≠ .deep) :
    path ≠ [] := by
  obtain ⟨front, back, rfl⟩ := List.append_of_mem hmem
  obtain ⟨start, rest, rfl, -, hrest⟩ := spells_append.mp h
  obtain ⟨name, rest, rfl, -, -⟩ := (spells_cons_of_ne_deep hs).mp hrest
  exact List.append_ne_nil_of_right_ne_nil _ (List.cons_ne_nil _ _)

/-- Steps that are all one element of any name spell the paths of their number. -/
theorem spells_replicate_any {n : Nat} :
    Spells (List.replicate n .any) path ↔ path.length = n := by
  induction n generalizing path with
  | zero => simp [spells_nil]
  | succ n ih =>
      have hany : Step.any ≠ .deep := by decide
      rw [List.replicate_succ, spells_cons_of_ne_deep hany]
      cases path with
      | nil => simp
      | cons name rest => simp [Step.takes, ih]

/-- A deep step by itself spells every path. -/
theorem spells_deep : Spells [.deep] path :=
  spells_cons.mpr ⟨path, [], by simp, trivial, spells_nil.mpr rfl⟩

/-- A deep step in front leaves some end of the path to the others. -/
theorem spells_deep_front :
    Spells (.deep :: back) path ↔ ∃ rest, rest <:+ path ∧ Spells back rest := by
  rw [spells_cons]
  constructor
  · rintro ⟨piece, rest, rfl, -, hrest⟩
    exact ⟨rest, List.suffix_append _ _, hrest⟩
  · rintro ⟨rest, ⟨piece, rfl⟩, hrest⟩
    exact ⟨piece, rest, rfl, trivial, hrest⟩

/-- A deep step at the end leaves some beginning of the path to the others. -/
theorem spells_deep_end :
    Spells (front ++ [.deep]) path ↔ ∃ start, start <+: path ∧ Spells front start := by
  rw [spells_append]
  constructor
  · rintro ⟨start, rest, rfl, hstart, -⟩
    exact ⟨start, List.prefix_append _ _, hstart⟩
  · rintro ⟨start, ⟨rest, rfl⟩, hstart⟩
    exact ⟨start, rest, rfl, hstart, spells_deep⟩

/-- A deep step between others is as good as some number of single elements of any name. -/
theorem spells_deep_between :
    Spells (front ++ .deep :: back) path ↔
      ∃ n, Spells (front ++ (List.replicate n .any ++ back)) path := by
  simp only [spells_append, spells_cons, spells_replicate_any]
  constructor
  · rintro ⟨start, _, rfl, hstart, piece, rest, rfl, -, hrest⟩
    exact ⟨piece.length, start, piece ++ rest, rfl, hstart, piece, rest, rfl, rfl, hrest⟩
  · rintro ⟨n, start, _, rfl, hstart, piece, rest, rfl, -, hrest⟩
    exact ⟨start, piece ++ rest, rfl, hstart, piece, rest, rfl, trivial, hrest⟩

/-- Steps that spell no more than others spell no more between the same steps either. -/
theorem spells_between {inner outer : List Step} (h : ∀ path, Spells inner path → Spells outer path)
    (hpath : Spells (front ++ (inner ++ back)) path) : Spells (front ++ (outer ++ back)) path := by
  simp only [spells_append] at hpath ⊢
  obtain ⟨start, _, rfl, hstart, piece, rest, rfl, hpiece, hrest⟩ := hpath
  exact ⟨start, piece ++ rest, rfl, hstart, piece, rest, rfl, h piece hpiece, hrest⟩

end Append

/-! ### The steps behind a position -/

namespace Positions

variable {states : Positions}

/-- Deep steps between two positions need not take anything. -/
theorem spells_drop_of_passable {i j : Nat} (hle : j ≤ i)
    (hpass : ∀ k, j ≤ k → k < i → passable steps k = true) (h : Spells (steps.drop i) path) :
    Spells (steps.drop j) path := by
  induction i, hle using Nat.le_induction with
  | base => exact h
  | succ i hi ih =>
      refine ih (fun k h₁ h₂ => hpass k h₁ (Nat.lt_succ_of_lt h₂)) ?_
      rw [drop_of_getElem? (passable_iff.mp (hpass i hi (Nat.lt_succ_self i)))]
      exact spells_deep_cons.mpr (.inl h)

/-- What is spelled behind a position reached by one name is, with the name in front, spelled behind
the position it was reached from. -/
theorem exists_spells_of_mem_take {name : String} {i : Nat} (hi : i ∈ take steps states name)
    (h : Spells (steps.drop i) path) : ∃ j ∈ states, Spells (steps.drop j) (name :: path) := by
  rcases mem_take.mp hi with ⟨hi, hp⟩ | ⟨j, hj, rfl, s, hs, hname⟩
  · refine ⟨i, hi, ?_⟩
    rw [drop_of_getElem? (passable_iff.mp hp)] at h ⊢
    exact spells_deep_cons.mpr (.inr ⟨name, path, rfl, h⟩)
  · refine ⟨j, hj, ?_⟩
    have hdeep : s ≠ .deep := by
      rintro rfl
      exact absurd hname (by simp [Step.takes])
    rw [drop_of_getElem? hs]
    exact (spells_cons_of_ne_deep hdeep).mpr ⟨name, path, rfl, hname, h⟩

/-- What is spelled behind a member of a closed set with a name in front is spelled behind a
position reached by the name. -/
theorem exists_mem_take_of_spells (hc : Closed steps states) {name : String} {i : Nat}
    (hi : i ∈ states) (h : Spells (steps.drop i) (name :: path)) :
    ∃ j ∈ take steps states name, Spells (steps.drop j) path := by
  -- The position moves on over deep steps that take nothing, up to the step that takes the name.
  induction hn : steps.length - i generalizing i with
  | zero =>
      rw [List.drop_eq_nil_of_le (by omega), spells_nil] at h
      exact absurd h (List.cons_ne_nil name path)
  | succ n ih =>
      have hs : steps[i]? = some steps[i] := List.getElem?_eq_getElem (by omega)
      rw [drop_of_getElem? hs] at h
      by_cases hdeep : steps[i] = .deep
      · have hp : passable steps i = true := by
          rw [passable_iff, hs, hdeep]
        rw [hdeep, spells_deep_cons] at h
        rcases h with h | ⟨_, _, hcons, h⟩
        · exact ih (hc.pass i hi hp) h (by omega)
        · obtain ⟨rfl, rfl⟩ := List.cons.inj hcons
          refine ⟨i, mem_take.mpr (.inl ⟨hi, hp⟩), ?_⟩
          rwa [drop_of_getElem? (passable_iff.mp hp)]
      · obtain ⟨_, _, hcons, hname, h⟩ := (spells_cons_of_ne_deep hdeep).mp h
        obtain ⟨rfl, rfl⟩ := List.cons.inj hcons
        exact ⟨i + 1, mem_take.mpr (.inr ⟨i, hi, rfl, _, hs, hname⟩), h⟩

/-- The positions behind one more name spell what the positions before it spell with the name in
front. -/
theorem exists_spells_advance (hc : Closed steps states) {name : String} :
    (∃ i ∈ advance steps states name, Spells (steps.drop i) path) ↔
      ∃ i ∈ states, Spells (steps.drop i) (name :: path) := by
  constructor
  · rintro ⟨i, hi, h⟩
    obtain ⟨j, hj, hle, hpass⟩ := mem_advance.mp hi
    exact exists_spells_of_mem_take hj (spells_drop_of_passable hle hpass h)
  · rintro ⟨i, hi, h⟩
    obtain ⟨j, hj, hspells⟩ := exists_mem_take_of_spells hc hi h
    exact ⟨j, mem_advance.mpr (.of_mem hj), hspells⟩

/-- A match is complete at a closed set where nothing more has to be spelled. -/
theorem accepts_iff (hc : Closed steps states) :
    accepts steps states = true ↔ ∃ i ∈ states, Spells (steps.drop i) [] := by
  rw [accepts, List.contains_iff_mem]
  constructor
  · intro h
    exact ⟨steps.length, h, by rw [List.drop_length, spells_nil]⟩
  · rintro ⟨i, hi, h⟩
    -- All steps behind the position are deep, so that it moves on to the end.
    induction hn : steps.length - i generalizing i with
    | zero =>
        have hle := hc.bound i hi
        rwa [show steps.length = i by omega]
    | succ n ih =>
        have hs : steps[i]? = some steps[i] := List.getElem?_eq_getElem (by omega)
        rw [drop_of_getElem? hs] at h
        by_cases hdeep : steps[i] = .deep
        · rw [hdeep, spells_deep_cons] at h
          rcases h with h | ⟨_, _, hcons, -⟩
          · exact ih (i + 1) (hc.pass i hi (by rw [passable_iff, hs, hdeep])) h (by omega)
          · exact absurd hcons.symm (List.cons_ne_nil _ _)
        · obtain ⟨_, _, hcons, -⟩ := (spells_cons_of_ne_deep hdeep).mp h
          exact absurd hcons.symm (List.cons_ne_nil _ _)

/-! ### Whole paths -/

/-- The sets behind the names of a path spell what the first set spells with the path in front. -/
theorem exists_spells_advanceAll (hc : Closed steps states) (front : List String) :
    (∃ i ∈ advanceAll steps states front, Spells (steps.drop i) path) ↔
      ∃ i ∈ states, Spells (steps.drop i) (front ++ path) := by
  induction front generalizing states with
  | nil => rfl
  | cons name rest ih =>
      rw [advanceAll, List.foldl_cons, ← advanceAll, ih (closed_advance steps states name),
        exists_spells_advance hc]
      rfl

/-- Leaving a match early, once there are no positions, does not change its outcome. -/
theorem completes_eq_accepts (states : Positions) (path : List String) :
    completes steps states path = accepts steps (advanceAll steps states path) := by
  induction path generalizing states with
  | nil => rfl
  | cons name rest ih =>
      rw [completes, advanceAll, List.foldl_cons, ← advanceAll]
      by_cases h : advance steps states name = []
      · have hnone : accepts steps (advanceAll steps [] rest) = false := by
          rw [Bool.eq_false_iff, ne_eq, accepts_iff (closed_advanceAll ⟨by simp, by simp⟩ rest),
            exists_spells_advanceAll ⟨by simp, by simp⟩]
          simp
        simp [h, hnone]
      · simp [h, ih]

/-- From a closed set of positions exactly the paths are completed that the steps behind one of the
positions spell. -/
theorem completes_iff (hc : Closed steps states) :
    completes steps states path = true ↔ ∃ i ∈ states, Spells (steps.drop i) path := by
  rw [completes_eq_accepts, accepts_iff (closed_advanceAll hc path), exists_spells_advanceAll hc,
    List.append_nil]

/-- From the first set of positions exactly the paths are completed that all steps spell. -/
theorem exists_mem_start_spells :
    (∃ i ∈ start steps, Spells (steps.drop i) path) ↔ Spells steps path := by
  constructor
  · rintro ⟨i, hi, h⟩
    obtain ⟨j, hj, hle, hpass⟩ := mem_close.mp hi
    rw [List.mem_singleton] at hj
    subst hj
    exact spells_drop_of_passable hle hpass h
  · intro h
    exact ⟨0, mem_close_of_mem (List.mem_singleton_self 0), h⟩

end Positions

namespace Pattern

/-- A pattern selects exactly the paths other than the empty one that the steps it runs spell. -/
theorem selects_iff (p : Pattern) (path : List String) :
    p.matchesPath path = true ↔ path ≠ [] ∧ Spells p.steps path := by
  rw [matchesPath, Bool.and_eq_true, Positions.completes_iff (Positions.closed_start p.steps),
    Positions.exists_mem_start_spells]
  simp

/-- **A pattern selects what it says** (`matches`). Whatever text a pattern was read from, it
selects exactly the paths that are not empty and fall into consecutive pieces, one for each step:
those steps that were written, and in front of them, where the pattern does not begin at the root,
one more for any number of elements. -/
theorem matchesPath_iff_spells (p : Pattern) (path : List String) :
    p.matchesPath path = true ↔
      path ≠ [] ∧ Spells (if p.anchored then p.segments else .deep :: p.segments) path :=
  p.selects_iff path

end Pattern

end MarkupRouting
