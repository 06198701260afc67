import Mathlib.Data.Finset.Card
import Mathlib.Order.Bounds.Basic
import Mathlib.Tactic
import MarkupRouting.Pattern.Positions

/-!
# Sets of positions

What is in the sets of positions that a match goes through. A set is **Closed** when it stays within
the steps and holds, with every position in front of a deep step, the position behind that step: all
sets that a match goes through are closed.

A closed set is found by a search that looks at one position after the other. What the search knows
is an invariant of its rounds, and every round leaves one thing less to do, so that the search comes
to an end whatever it begins with and whatever it looks at first.

* **Reached** — a position is reached from a set over deep steps only.
* **Search.Going** — what a search knows; **Going.rounds** says that it keeps knowing it.
* **Search.left**, **Search.frontier_rounds** — how much is left to do, and that it gets done.
* **mem_close**, **mem_take**, **mem_advance** — the members of the sets that are made.
* **closed_start**, **closed_advance**, **closed_advanceAll** — the sets of a match are closed.
* **search_closes** — closing and advancing taken together.
-/

namespace MarkupRouting

/-- Only the deep step is deep. -/
theorem Step.isDeep_iff {s : Step} : s.isDeep = true ↔ s = .deep := by
  cases s <;> simp [Step.isDeep]

namespace Positions

variable {steps : List Step} {states : Positions}

/-! ### Sets -/

/-- The members of a set with one position more. -/
@[simp] theorem mem_add {i j : Nat} {states : Positions} :
    j ∈ add i states ↔ j = i ∨ j ∈ states := by
  induction states with
  | nil => simp [add]
  | cons k rest ih =>
      rw [add]
      split_ifs with hlt heq
      · simp
      · subst heq
        simp
      · rw [List.mem_cons, ih, List.mem_cons]
        tauto

/-- An increasing set stays increasing with one position more. -/
theorem increasing_add {states : Positions} (h : states.Pairwise (· < ·)) (i : Nat) :
    (add i states).Pairwise (· < ·) := by
  induction states with
  | nil => exact List.pairwise_singleton _ _
  | cons k rest ih =>
      obtain ⟨hfirst, hrest⟩ := List.pairwise_cons.mp h
      rw [add]
      split_ifs with hlt heq
      · refine List.pairwise_cons.mpr ⟨fun j hj => ?_, h⟩
        rcases List.mem_cons.mp hj with rfl | hj
        · exact hlt
        · exact hlt.trans (hfirst j hj)
      · exact h
      · refine List.pairwise_cons.mpr ⟨fun j hj => ?_, ih hrest⟩
        rcases mem_add.mp hj with rfl | hj
        · omega
        · exact hfirst j hj

/-! ### Single steps -/

/-- A position is passable where a deep step stands behind it. -/
theorem passable_iff {i : Nat} : passable steps i = true ↔ steps[i]? = some .deep := by
  rw [passable, List.getElem?_eq_some_iff]
  split_ifs with hi
  · rw [Step.isDeep_iff]
    exact ⟨fun hs => ⟨hi, hs⟩, fun ⟨_, hs⟩ => hs⟩
  · simp [hi]

/-- A passable position has a step behind it. -/
theorem lt_of_passable {i : Nat} (h : passable steps i = true) : i < steps.length := by
  rw [passable_iff] at h
  exact (List.getElem?_eq_some_iff.mp h).1

/-- What is left of the steps in front of a given one. -/
theorem drop_of_getElem? {i : Nat} {s : Step} (h : steps[i]? = some s) :
    steps.drop i = s :: steps.drop (i + 1) := by
  obtain ⟨hi, rfl⟩ := List.getElem?_eq_some_iff.mp h
  exact List.drop_eq_getElem_cons hi

/-- One name leads from a deep step to where it is, and behind a step that takes it. -/
theorem after?_eq_some_iff {name : String} {i j : Nat} :
    after? steps name i = some j ↔
      (j = i ∧ passable steps i = true) ∨
        j = i + 1 ∧ ∃ s : Step, steps[i]? = some s ∧ s.takes name = true := by
  by_cases hi : i < steps.length
  · rw [after?, passable, dif_pos hi, dif_pos hi, List.getElem?_eq_getElem hi]
    simp only [Option.some.injEq, exists_eq_left']
    cases steps[i] with
    | deep => simp [Step.isDeep, Step.takes, eq_comm (a := j)]
    | any => simp [Step.isDeep, Step.takes, eq_comm (a := j)]
    | element n =>
        by_cases hn : n = name
        · simp [Step.isDeep, Step.takes, hn, eq_comm (a := j)]
        · simp [Step.isDeep, Step.takes, hn]
  · rw [after?, passable, dif_neg hi, dif_neg hi, List.getElem?_eq_none (Nat.le_of_not_lt hi)]
    simp

/-! ### Searches -/

/-- The position is in the set, or behind deep steps that begin at a position in the set. This is
what the loop of `_closure` is to find, said without the loop. -/
def Reached (steps : List Step) (states : List Nat) (i : Nat) : Prop :=
  ∃ j ∈ states, j ≤ i ∧ ∀ k, j ≤ k → k < i → passable steps k = true

/-- The members of a set are reached from it. -/
theorem Reached.of_mem {states : List Nat} {i : Nat} (h : i ∈ states) : Reached steps states i :=
  ⟨i, h, le_rfl, fun _ h₁ h₂ => absurd h₂ (Nat.not_lt.mpr h₁)⟩

/-- Behind a passable position that is reached the next one is reached. -/
theorem Reached.pass {states : List Nat} {i : Nat} (h : Reached steps states i)
    (hp : passable steps i = true) : Reached steps states (i + 1) := by
  obtain ⟨j, hj, hle, hpass⟩ := h
  refine ⟨j, hj, Nat.le_succ_of_le hle, fun k h₁ h₂ => ?_⟩
  rcases Nat.lt_succ_iff_lt_or_eq.mp h₂ with hk | rfl
  · exact hpass k h₁ hk
  · exact hp

/-- What is reached from a set is in every set around it that holds what is behind its passable
positions. -/
theorem Reached.mem_of_pass {states : List Nat} {i : Nat} (h : Reached steps states i) {t : Set Nat}
    (hstates : ∀ j ∈ states, j ∈ t) (hpass : ∀ j ∈ t, passable steps j = true → j + 1 ∈ t) :
    i ∈ t := by
  obtain ⟨j, hj, hle, hdeep⟩ := h
  induction i, hle using Nat.le_induction with
  | base => exact hstates j hj
  | succ i hi ih =>
      refine hpass i (ih fun k h₁ h₂ => hdeep k h₁ (Nat.lt_succ_of_lt h₂)) ?_
      exact hdeep i hi (Nat.lt_succ_self i)

/-- What is reached from positions within the steps is within the steps. -/
theorem Reached.le_length {states : List Nat} {i : Nat} (h : Reached steps states i)
    (hstates : ∀ j ∈ states, j ≤ steps.length) : i ≤ steps.length :=
  h.mem_of_pass (t := {j | j ≤ steps.length}) hstates fun _ _ hp => lt_of_passable hp

namespace Search

variable {s : Search}

/-- What a search knows that began with the given positions: they are found, all that is found is
reached from them, what is still to be looked at is found, and where the next position is missing
behind a passable one, that one is still to be looked at. -/
structure Going (steps : List Step) (states : List Nat) (s : Search) : Prop where
  /-- What the search began with is found. -/
  kept : ∀ i ∈ states, i ∈ s.found
  /-- What is found is reached. -/
  reached : ∀ i ∈ s.found, Reached steps states i
  /-- What is still to be looked at is found. -/
  known : ∀ i ∈ s.frontier, i ∈ s.found
  /-- Nothing is missing but behind what is still to be looked at. -/
  pass : ∀ i ∈ s.found, passable steps i = true → i + 1 ∈ s.found ∨ i ∈ s.frontier

/-- A search knows all that at its beginning, in whatever order positions are looked at. -/
theorem Going.start {states : Positions} {frontier : List Nat} (h : frontier.Perm states) :
    Going steps states ⟨states, frontier⟩ where
  kept _ hi := hi
  reached _ hi := .of_mem hi
  known _ hi := h.mem_iff.mp hi
  pass _ hi _ := .inr (h.mem_iff.mpr hi)

/-- A round keeps what a search knows. -/
theorem Going.round {states : List Nat} (h : Going steps states s) :
    Going steps states (s.round steps) := by
  obtain ⟨found, frontier⟩ := s
  rw [Search.round]
  cases frontier with
  | nil => exact h
  | cons i rest =>
      dsimp only
      have hi : i ∈ found := h.known i List.mem_cons_self
      split_ifs with hnew
      · -- the next position is found, and is looked at next
        rw [Bool.and_eq_true, Bool.not_eq_true', List.contains_eq_mem, decide_eq_false_iff_not]
          at hnew
        refine ⟨fun j hj => mem_add.mpr (.inr (h.kept j hj)), fun j hj => ?_, fun j hj => ?_,
          fun j hj hp => ?_⟩
        · rcases mem_add.mp hj with rfl | hj
          · exact (h.reached i hi).pass hnew.1
          · exact h.reached j hj
        · rcases List.mem_cons.mp hj with rfl | hj
          · exact mem_add.mpr (.inl rfl)
          · exact mem_add.mpr (.inr (h.known j (List.mem_cons_of_mem i hj)))
        · rcases mem_add.mp hj with rfl | hj
          · exact .inr List.mem_cons_self
          · rcases h.pass j hj hp with hnext | hfront
            · exact .inl (mem_add.mpr (.inr hnext))
            · rcases List.mem_cons.mp hfront with rfl | hrest
              · exact .inl (mem_add.mpr (.inl rfl))
              · exact .inr (List.mem_cons_of_mem _ hrest)
      · -- the next position was found before, or is not reached from here
        refine ⟨h.kept, h.reached, fun j hj => h.known j (List.mem_cons_of_mem i hj),
          fun j hj hp => ?_⟩
        rcases h.pass j hj hp with hnext | hfront
        · exact .inl hnext
        · rcases List.mem_cons.mp hfront with rfl | hrest
          · simp only [hp, Bool.true_and, Bool.not_eq_true', List.contains_eq_mem,
              decide_eq_false_iff_not, not_not] at hnew
            exact .inl hnew
          · exact .inr hrest

/-- Rounds keep what a search knows. -/
theorem Going.rounds {states : List Nat} (h : Going steps states s) (n : Nat) :
    Going steps states (s.rounds steps n) := by
  induction n generalizing s with
  | zero => exact h
  | succ n ih => exact ih h.round

/-- Where there is nothing to look at, rounds change nothing. -/
theorem rounds_of_done (h : s.frontier = []) (n : Nat) : s.rounds steps n = s := by
  have hround : s.round steps = s := by
    rw [round, h]
  induction n with
  | zero => rfl
  | succ n ih => rw [rounds, hround, ih]

/-- A search that began with an increasing set has found one. -/
theorem increasing_rounds (h : s.found.Pairwise (· < ·)) (n : Nat) :
    (s.rounds steps n).found.Pairwise (· < ·) := by
  induction n generalizing s with
  | zero => exact h
  | succ n ih =>
      refine ih ?_
      rw [round]
      split
      · exact h
      · split_ifs
        · exact increasing_add h _
        · exact h

/-- Where nothing is missing behind what was found, nothing more is found. -/
theorem found_rounds_of_pass (hknown : ∀ i ∈ s.frontier, i ∈ s.found)
    (hpass : ∀ i ∈ s.found, passable steps i = true → i + 1 ∈ s.found) (n : Nat) :
    (s.rounds steps n).found = s.found := by
  induction n generalizing s with
  | zero => rfl
  | succ n ih =>
      obtain ⟨found, frontier⟩ := s
      cases frontier with
      | nil => rw [rounds_of_done rfl]
      | cons i rest =>
          have hnew : (passable steps i && !found.contains (i + 1)) = false := by
            rw [Bool.eq_false_iff]
            intro hnew
            rw [Bool.and_eq_true, Bool.not_eq_true', List.contains_eq_mem,
              decide_eq_false_iff_not] at hnew
            exact hnew.2 (hpass i (hknown i List.mem_cons_self) hnew.1)
          have hround : round steps ⟨found, i :: rest⟩ = ⟨found, rest⟩ := by
            rw [round]
            dsimp only
            rw [hnew, if_neg Bool.false_ne_true]
          rw [rounds, hround]
          exact ih (s := ⟨found, rest⟩) (fun j hj => hknown j (List.mem_cons_of_mem i hj)) hpass

/-- The steps behind which the position is not found. -/
def missing (steps : List Step) (found : Positions) : Finset Nat :=
  (Finset.range steps.length).filter fun i => i + 1 ∉ found

/-- How much a search has left to do: positions to look at, and positions it may find. -/
def left (steps : List Step) (s : Search) : Nat := s.frontier.length + (missing steps s.found).card

/-- Every round leaves one thing less to do. -/
theorem left_round (h : s.frontier ≠ []) : (s.round steps).left steps + 1 = s.left steps := by
  obtain ⟨found, frontier⟩ := s
  obtain ⟨i, rest, rfl⟩ := List.exists_cons_of_ne_nil h
  rw [round]
  dsimp only
  split_ifs with hnew
  · rw [Bool.and_eq_true, Bool.not_eq_true', List.contains_eq_mem, decide_eq_false_iff_not] at hnew
    have hmem : i ∈ missing steps found := by
      simpa [missing] using ⟨lt_of_passable hnew.1, hnew.2⟩
    have herase : missing steps (add (i + 1) found) = (missing steps found).erase i := by
      ext j
      simp only [missing, Finset.mem_filter, Finset.mem_range, Finset.mem_erase, mem_add,
        Nat.add_right_cancel_iff, not_or]
      tauto
    have hcard := Finset.card_erase_add_one hmem
    simp only [left, herase, List.length_cons]
    omega
  · simp only [left, List.length_cons]
    omega

/-- A search looks at nothing any more after as many rounds as there were things to do. -/
theorem frontier_rounds {n : Nat} (h : s.left steps ≤ n) : (s.rounds steps n).frontier = [] := by
  induction n generalizing s with
  | zero =>
      have hlength : s.frontier.length = 0 := by
        unfold left at h
        omega
      exact List.eq_nil_of_length_eq_zero hlength
  | succ n ih =>
      by_cases hs : s.frontier = []
      · rw [rounds_of_done hs, hs]
      · have hround : (s.round steps).left steps + 1 = s.left steps := left_round hs
        exact ih (by omega)

/-- There is no more to do than there are positions to look at and steps to pass. -/
theorem left_le (s : Search) : s.left steps ≤ steps.length + s.frontier.length := by
  have hmissing : (missing steps s.found).card ≤ steps.length := by
    refine (Finset.card_filter_le _ _).trans ?_
    rw [Finset.card_range]
  unfold left
  omega

/-- **A search comes to an end** after as many rounds as there are positions to look at and steps to
pass; what is found then is all that is reached. -/
theorem Going.mem_found_iff {states : List Nat} (h : Going steps states s) {n : Nat}
    (hn : (s.rounds steps n).frontier = []) {i : Nat} :
    i ∈ (s.rounds steps n).found ↔ Reached steps states i := by
  have hgoing := h.rounds n
  constructor
  · exact hgoing.reached i
  · intro hi
    refine hi.mem_of_pass (t := {j | j ∈ (s.rounds steps n).found}) hgoing.kept fun j hj hp => ?_
    rcases hgoing.pass j hj hp with hnext | hfront
    · exact hnext
    · rw [hn] at hfront
      exact absurd hfront List.not_mem_nil

end Search

/-! ### Members -/

/-- The members of a set with all positions reached from it. -/
theorem mem_close {i : Nat} : i ∈ close steps states ↔ Reached steps states i := by
  refine (Search.Going.start (List.Perm.refl states)).mem_found_iff ?_
  exact Search.frontier_rounds (Search.left_le _)

/-- The members of the set behind exactly one name. -/
theorem mem_take {name : String} {i : Nat} :
    i ∈ take steps states name ↔
      (i ∈ states ∧ passable steps i = true) ∨
        ∃ j ∈ states, i = j + 1 ∧ ∃ s : Step, steps[j]? = some s ∧ s.takes name = true := by
  have hfold : ∀ positions : List Nat, i ∈ positions.foldr add [] ↔ i ∈ positions := by
    intro positions
    induction positions with
    | nil => simp
    | cons j rest ih => rw [List.foldr_cons, mem_add, ih, List.mem_cons]
  rw [take, hfold, List.mem_filterMap]
  simp only [after?_eq_some_iff]
  constructor
  · rintro ⟨j, hj, ⟨rfl, hp⟩ | ⟨rfl, hs⟩⟩
    · exact .inl ⟨hj, hp⟩
    · exact .inr ⟨j, hj, rfl, hs⟩
  · rintro (⟨hi, hp⟩ | ⟨j, hj, rfl, hs⟩)
    · exact ⟨i, hi, .inl ⟨rfl, hp⟩⟩
    · exact ⟨j, hj, .inr ⟨rfl, hs⟩⟩

/-- What one name leads to is within the steps. -/
theorem le_length_of_mem_take {name : String} {i : Nat} (h : i ∈ take steps states name) :
    i ≤ steps.length := by
  rcases mem_take.mp h with ⟨-, hp⟩ | ⟨j, -, rfl, s, hs, -⟩
  · exact (lt_of_passable hp).le
  · exact (List.getElem?_eq_some_iff.mp hs).1

/-- That nothing is closed where no name leads anywhere makes no difference. -/
theorem advance_eq_close (steps : List Step) (states : Positions) (name : String) :
    advance steps states name = close steps (take steps states name) := by
  rw [advance]
  split_ifs with hnil
  · rw [List.isEmpty_iff.mp hnil]
    refine (List.eq_nil_iff_forall_not_mem.mpr fun i hi => ?_).symm
    obtain ⟨j, hj, -⟩ := mem_close.mp hi
    exact List.not_mem_nil hj
  · rfl

/-- The members of the set behind one more name. -/
theorem mem_advance {name : String} {i : Nat} :
    i ∈ advance steps states name ↔ Reached steps (take steps states name) i := by
  rw [advance_eq_close, mem_close]

/-! ### Closed sets -/

/-- The set stays within the steps, and holds with every passable position the next one: taking no
name leads nowhere from it that is not in it already. -/
structure Closed (steps : List Step) (states : Positions) : Prop where
  /-- No member lies behind the last step. -/
  bound : ∀ i ∈ states, i ≤ steps.length
  /-- What is reached over a deep step is a member as well. -/
  pass : ∀ i ∈ states, passable steps i = true → i + 1 ∈ states

/-- A set within the steps is closed together with all positions reached from it. -/
theorem closed_close (h : ∀ i ∈ states, i ≤ steps.length) : Closed steps (close steps states) where
  bound _ hi := (mem_close.mp hi).le_length h
  pass _ hi hp := mem_close.mpr ((mem_close.mp hi).pass hp)

/-- The members of a set are among the positions reached from it. -/
theorem mem_close_of_mem {i : Nat} (h : i ∈ states) : i ∈ close steps states :=
  mem_close.mpr (.of_mem h)

/-- The set before any name is closed. -/
theorem closed_start (steps : List Step) : Closed steps (start steps) := by
  refine closed_close fun i hi => ?_
  rw [List.mem_singleton.mp hi]
  exact Nat.zero_le _

/-- The set behind one more name is closed. -/
theorem closed_advance (steps : List Step) (states : Positions) (name : String) :
    Closed steps (advance steps states name) := by
  rw [advance_eq_close]
  exact closed_close fun _ hi => le_length_of_mem_take hi

/-- The set behind a path is closed. -/
theorem closed_advanceAll (h : Closed steps states) (path : List String) :
    Closed steps (advanceAll steps states path) := by
  induction path generalizing states with
  | nil => exact h
  | cons name rest ih => exact ih (closed_advance steps states name)

/-- The set behind one more name is increasing, whatever the one before it is. -/
theorem increasing_advance (steps : List Step) (states : Positions) (name : String) :
    (advance steps states name).Pairwise (· < ·) := by
  have hfold : ∀ positions : List Nat, (positions.foldr add []).Pairwise (· < ·) := by
    intro positions
    induction positions with
    | nil => exact .nil
    | cons i rest ih => exact increasing_add ih i
  rw [advance_eq_close]
  exact Search.increasing_rounds (hfold _) _

/-- The set behind a path is increasing. -/
theorem increasing_advanceAll (h : states.Pairwise (· < ·)) (path : List String) :
    (advanceAll steps states path).Pairwise (· < ·) := by
  induction path generalizing states with
  | nil => exact h
  | cons name rest ih => exact ih (increasing_advance steps states name)

/-! ### Closing and advancing -/

/-- What is reached from a set is reached from every larger one. -/
theorem Reached.mono {more : List Nat} (h : ∀ i ∈ states, i ∈ more) {i : Nat}
    (hi : Reached steps states i) : Reached steps more i := by
  obtain ⟨j, hj, hreached⟩ := hi
  exact ⟨j, h j hj, hreached⟩

/-- Closing a set again changes nothing. -/
theorem close_close (steps : List Step) (states : Positions) :
    close steps (close steps states) = close steps states :=
  Search.found_rounds_of_pass (s := ⟨close steps states, close steps states⟩) (fun _ hi => hi)
    (fun _ hi hp => mem_close.mpr ((mem_close.mp hi).pass hp)) _

/-- What is reached from a set is the least set around it that holds what is behind its passable
positions. -/
theorem isLeast_close (steps : List Step) (states : Positions) :
    IsLeast {t : Set Nat | (∀ i ∈ states, i ∈ t) ∧ ∀ i ∈ t, passable steps i = true → i + 1 ∈ t}
      {i | i ∈ close steps states} := by
  constructor
  · exact ⟨fun i hi => mem_close_of_mem hi,
      fun i hi hp => mem_close.mpr ((mem_close.mp hi).pass hp)⟩
  · rintro t ⟨hstates, hpass⟩ i hi
    exact (mem_close.mp hi).mem_of_pass hstates hpass

/-- Of two sets taken together one name reaches what it reaches of either. -/
theorem mem_advance_union {more both : Positions}
    (h : ∀ i, i ∈ both ↔ i ∈ states ∨ i ∈ more) (name : String) (i : Nat) :
    i ∈ advance steps both name ↔ i ∈ advance steps states name ∨ i ∈ advance steps more name := by
  have htake : ∀ j, j ∈ take steps both name ↔
      j ∈ take steps states name ∨ j ∈ take steps more name := by
    intro j
    simp only [mem_take, h]
    constructor
    · rintro (⟨hj | hj, hp⟩ | ⟨k, hk | hk, hs⟩)
      · exact .inl (.inl ⟨hj, hp⟩)
      · exact .inr (.inl ⟨hj, hp⟩)
      · exact .inl (.inr ⟨k, hk, hs⟩)
      · exact .inr (.inr ⟨k, hk, hs⟩)
    · rintro ((⟨hj, hp⟩ | ⟨k, hk, hs⟩) | (⟨hj, hp⟩ | ⟨k, hk, hs⟩))
      · exact .inl ⟨.inl hj, hp⟩
      · exact .inr ⟨k, .inl hk, hs⟩
      · exact .inl ⟨.inr hj, hp⟩
      · exact .inr ⟨k, .inr hk, hs⟩
  simp only [mem_advance]
  constructor
  · rintro ⟨j, hj, hreached⟩
    rcases (htake j).mp hj with hj | hj
    · exact .inl ⟨j, hj, hreached⟩
    · exact .inr ⟨j, hj, hreached⟩
  · rintro (hi | hi)
    · exact hi.mono fun j hj => (htake j).mpr (.inl hj)
    · exact hi.mono fun j hj => (htake j).mpr (.inr hj)

/-- One name leads nowhere exactly where no step behind a member takes it. -/
theorem advance_eq_nil_iff {name : String} :
    advance steps states name = [] ↔
      ∀ i ∈ states, ∀ s : Step, steps[i]? = some s → s ≠ .deep ∧ s.takes name = false := by
  rw [List.eq_nil_iff_forall_not_mem]
  constructor
  · intro hnone i hi s hs
    refine ⟨fun hdeep => ?_, Bool.eq_false_iff.mpr fun htakes => ?_⟩
    · have hp : passable steps i = true := passable_iff.mpr (hdeep ▸ hs)
      exact hnone i (mem_advance.mpr (.of_mem (mem_take.mpr (.inl ⟨hi, hp⟩))))
    · exact hnone (i + 1)
        (mem_advance.mpr (.of_mem (mem_take.mpr (.inr ⟨i, hi, rfl, s, hs, htakes⟩))))
  · intro hnone i hi
    obtain ⟨j, hj, -⟩ := mem_advance.mp hi
    rcases mem_take.mp hj with ⟨hj, hp⟩ | ⟨k, hk, -, s, hs, htakes⟩
    · exact (hnone j hj .deep (passable_iff.mp hp)).1 rfl
    · rw [(hnone k hk s hs).2] at htakes
      exact Bool.false_ne_true htakes

/-- **Closing and advancing are well behaved** (`_closure` and `advance`), whatever the steps are. A
search that begins with positions within the steps comes to an end after as many rounds as there are
positions and steps, in whatever order it looks at them; it never leaves the steps, so that what it
looks at is a step or the end of all, and at its end it has found the set that closing gives. That
set is the least one around the positions that holds, with every position in front of a deep step,
the next one; it grows with the positions, and closing it again changes nothing. One name leads from
any set to a closed one, which is empty exactly where no step behind a member takes the name, and
from two sets taken together to what it leads to from either. So all sets behind paths are closed
and increasing. -/
theorem search_closes (steps : List Step) :
    (∀ (states : Positions) (frontier : List Nat), frontier.Perm states →
        (∀ i ∈ states, i ≤ steps.length) →
        ∀ (n : Nat) (s : Search), Search.rounds steps n ⟨states, frontier⟩ = s →
          (steps.length + states.length ≤ n → s.frontier = []) ∧
            (∀ i ∈ s.found, i ≤ steps.length) ∧ (∀ i ∈ s.frontier, i ≤ steps.length) ∧
            (s.frontier = [] → ∀ i, i ∈ s.found ↔ i ∈ close steps states)) ∧
      (∀ states : Positions, (∀ i ∈ states, i ≤ steps.length) →
        Closed steps (close steps states) ∧
          IsLeast {t : Set Nat | (∀ i ∈ states, i ∈ t) ∧
            ∀ i ∈ t, steps[i]? = some .deep → i + 1 ∈ t} {i | i ∈ close steps states} ∧
          close steps (close steps states) = close steps states ∧
          ∀ more : Positions, (∀ i ∈ states, i ∈ more) →
            ∀ i ∈ close steps states, i ∈ close steps more) ∧
      (∀ (states : Positions) (name : String),
        Closed steps (advance steps states name) ∧
          (advance steps states name = [] ↔
            ∀ i ∈ states, ∀ s : Step, steps[i]? = some s → s ≠ .deep ∧ s.takes name = false) ∧
          ∀ more both : Positions, (∀ i, i ∈ both ↔ i ∈ states ∨ i ∈ more) →
            ∀ i, i ∈ advance steps both name ↔
              i ∈ advance steps states name ∨ i ∈ advance steps more name) ∧
      ∀ path : List String, Closed steps (advanceAll steps (start steps) path) ∧
        (advanceAll steps (start steps) path).Pairwise (· < ·) := by
  refine ⟨?_, ?_, ?_, ?_⟩
  · rintro states frontier hperm hstates n s rfl
    have hstart : Search.Going steps states ⟨states, frontier⟩ := .start hperm
    have hgoing := hstart.rounds n
    have hfound : ∀ i ∈ (Search.rounds steps n ⟨states, frontier⟩).found, i ≤ steps.length :=
      fun i hi => (hgoing.reached i hi).le_length hstates
    refine ⟨fun hn => ?_, hfound, fun i hi => hfound i (hgoing.known i hi), fun hdone i => ?_⟩
    · apply Search.frontier_rounds
      refine (Search.left_le _).trans ?_
      rwa [hperm.length_eq]
    · rw [hstart.mem_found_iff hdone, mem_close]
  · intro states hstates
    refine ⟨closed_close hstates, ?_, close_close steps states, fun more hmore i hi => ?_⟩
    · simpa only [passable_iff] using isLeast_close steps states
    · exact mem_close.mpr ((mem_close.mp hi).mono hmore)
  · intro states name
    exact ⟨closed_advance steps states name, advance_eq_nil_iff,
      fun more both hboth i => mem_advance_union hboth name i⟩
  · intro path
    have hstart : (start steps).Pairwise (· < ·) :=
      Search.increasing_rounds (List.pairwise_singleton _ 0) _
    exact ⟨closed_advanceAll (closed_start steps) path, increasing_advanceAll hstart path⟩

/-- Over two deep steps a search from the first position finds three of them in three rounds and
looks at all, and the name of the step behind them leads to the end of the steps as well. -/
theorem search_closes_chain :
    let steps : List Step := [.deep, .deep, .element "item"]
    [0].Perm [0] ∧ (∀ i ∈ [0], i ≤ steps.length) ∧
      (Search.rounds steps 4 ⟨[0], [0]⟩).frontier = [] ∧ close steps [0] = [0, 1, 2] ∧
      Closed steps (close steps [0]) ∧ advance steps [0, 1, 2] "item" = [0, 1, 2, 3] ∧
      Closed steps (advance steps [0, 1, 2] "item") := by
  intro steps
  obtain ⟨hsearch, hclose, hadvance, -⟩ := search_closes steps
  have hstates : ∀ i ∈ [0], i ≤ steps.length := by decide
  refine ⟨.refl _, hstates, ?_, by decide, (hclose [0] hstates).1, by decide,
    (hadvance [0, 1, 2] "item").1⟩
  exact (hsearch [0] [0] (.refl _) hstates 4 _ rfl).1 (by decide)

end Positions

end MarkupRouting
