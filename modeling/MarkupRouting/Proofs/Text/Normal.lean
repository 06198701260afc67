import Mathlib.Data.List.DropRight
import Mathlib.Data.List.TakeWhile
import Mathlib.Tactic
import MarkupRouting.TextMode

/-!
# Texts normalised in parts

What dropping blanks at the edges and writing runs of blanks as one space do to each other and to
texts that are put together: a text may be normalised part by part, and the whole once more.

* **Text.trim_eq_self_iff** — the texts without blanks at their ends.
* **Text.ink** — the characters that are not blank; normalising keeps them.
* **Text.collapseFrom_append**, **collapse_collapse** — runs of blanks across the seam of two texts.
* **Text.trimStart_collapse**, **trimEnd_collapse** — runs and edges have nothing to do with each
  other.
* **TextMode.kept** — what a mode keeps of a part before it looks at its edges.
* **TextMode.applyChars_part** — normalising a part changes nothing of the whole but for that.
-/

namespace MarkupRouting

namespace Text

variable {cs ds : List Char}

/-! ### Edges -/

/-- There is nothing to trim in nothing. -/
@[simp] theorem trimEnd_nil : trimEnd [] = [] := rfl

/-- A blank at the beginning is dropped. -/
theorem trimStart_cons_blank {c : Char} (h : isBlank c = true) (cs : List Char) :
    trimStart (c :: cs) = trimStart cs := by
  rw [trimStart, List.dropWhile_cons_of_pos h, trimStart]

/-- A text that begins with another character begins where it begins. -/
theorem trimStart_cons_ink {c : Char} (h : isBlank c = false) (cs : List Char) :
    trimStart (c :: cs) = c :: cs := by
  rw [trimStart, List.dropWhile_cons_of_neg (by simp [h])]

/-- A blank at the end is dropped. -/
theorem trimEnd_concat_blank {c : Char} (h : isBlank c = true) (cs : List Char) :
    trimEnd (cs ++ [c]) = trimEnd cs :=
  List.rdropWhile_concat_pos isBlank cs c h

/-- A text that ends with another character ends where it ends. -/
theorem trimEnd_concat_ink {c : Char} (h : isBlank c = false) (cs : List Char) :
    trimEnd (cs ++ [c]) = cs ++ [c] :=
  List.rdropWhile_concat_neg isBlank cs c (by simp [h])

/-- Nothing is left of blanks at the beginning. -/
theorem trimStart_eq_nil_iff : trimStart cs = [] ↔ allBlank cs = true := by
  simp [trimStart, allBlank, List.dropWhile_eq_nil_iff]

/-- Nothing is left of blanks at the end. -/
theorem trimEnd_eq_nil_iff : trimEnd cs = [] ↔ allBlank cs = true := by
  have hdrop : trimEnd cs = List.rdropWhile isBlank cs := rfl
  rw [hdrop, List.rdropWhile_eq_nil_iff]
  simp [allBlank]

/-- Nothing is left of blanks when they are dropped at the edges. -/
theorem trim_of_allBlank (h : allBlank cs = true) : trim cs = [] := by
  rw [trim, trimStart_eq_nil_iff.mpr h, trimEnd_nil]

/-- The beginning of two texts is that of the first one, unless that is blank. -/
theorem trimStart_append (cs ds : List Char) :
    trimStart (cs ++ ds) = if allBlank cs then trimStart ds else trimStart cs ++ ds := by
  have hempty : (cs.dropWhile isBlank).isEmpty = allBlank cs := by
    rw [Bool.eq_iff_iff, List.isEmpty_iff, ← trimStart_eq_nil_iff, trimStart]
  rw [trimStart, List.dropWhile_append, hempty]
  rfl

/-- The end of two texts is that of the second one, unless that is blank. -/
theorem trimEnd_append (cs ds : List Char) :
    trimEnd (cs ++ ds) = if allBlank ds then trimEnd cs else cs ++ trimEnd ds := by
  have hempty : (ds.reverse.dropWhile isBlank).isEmpty = allBlank ds := by
    rw [Bool.eq_iff_iff, List.isEmpty_iff, ← trimEnd_eq_nil_iff, trimEnd, List.reverse_eq_nil_iff]
  rw [trimEnd, List.reverse_append, List.dropWhile_append, hempty]
  split_ifs
  · rfl
  · rw [List.reverse_append, List.reverse_reverse]
    rfl

/-- Dropping blanks at one edge leaves a text that is blank throughout, or does not. -/
theorem allBlank_trimStart (cs : List Char) : allBlank (trimStart cs) = allBlank cs := by
  rw [Bool.eq_iff_iff, ← trimStart_eq_nil_iff, ← trimStart_eq_nil_iff, trimStart, trimStart,
    List.dropWhile_idempotent]

/-- A text is blank exactly if it is without the blanks at its end. -/
theorem allBlank_trimEnd (cs : List Char) : allBlank (trimEnd cs) = allBlank cs := by
  have hdrop : ∀ cs, trimEnd cs = List.rdropWhile isBlank cs := fun _ => rfl
  rw [Bool.eq_iff_iff, ← trimEnd_eq_nil_iff, ← trimEnd_eq_nil_iff, hdrop, hdrop,
    List.rdropWhile_idempotent]

/-- Dropping the blanks at the beginning of the first text adds nothing where they are dropped
afterwards. -/
theorem trimStart_trimStart_append (cs ds : List Char) :
    trimStart (trimStart cs ++ ds) = trimStart (cs ++ ds) := by
  have hidem : trimStart (trimStart cs) = trimStart cs := List.dropWhile_idempotent isBlank cs
  rw [trimStart_append, trimStart_append, allBlank_trimStart, hidem]

/-- Dropping the blanks at the end of the second text adds nothing where they are dropped
afterwards. -/
theorem trimEnd_append_trimEnd (cs ds : List Char) :
    trimEnd (cs ++ trimEnd ds) = trimEnd (cs ++ ds) := by
  have hidem : trimEnd (trimEnd ds) = trimEnd ds := List.rdropWhile_idempotent isBlank ds
  rw [trimEnd_append, trimEnd_append, allBlank_trimEnd, hidem]

/-- It does not matter which edge is looked at first. -/
theorem trimStart_trimEnd (cs : List Char) : trimStart (trimEnd cs) = trim cs := by
  induction cs with
  | nil => rfl
  | cons c rest ih =>
      rw [trim] at ih ⊢
      have hcons : trimEnd (c :: rest) = if allBlank rest then trimEnd [c] else c :: trimEnd rest :=
        trimEnd_append [c] rest
      by_cases hc : isBlank c = true
      · rw [trimStart_cons_blank hc, ← ih, hcons]
        split_ifs with hrest
        · rw [trimEnd_eq_nil_iff.mpr hrest, trimEnd_eq_nil_iff.mpr (by simp [allBlank, hc])]
        · rw [trimStart_cons_blank hc]
      · rw [Bool.not_eq_true] at hc
        have hone : trimEnd [c] = [c] := trimEnd_concat_ink hc []
        rw [trimStart_cons_ink hc, hcons, hone]
        split_ifs
        · rw [trimStart_cons_ink hc]
        · rw [trimStart_cons_ink hc]

/-- What is dropped at the beginning of the first of two texts would be dropped anyway. -/
theorem trim_trimStart_append (cs ds : List Char) :
    trim (trimStart cs ++ ds) = trim (cs ++ ds) := by
  rw [trim, trim, trimStart_trimStart_append]

/-- What is dropped at the end of the second of two texts would be dropped anyway. -/
theorem trim_append_trimEnd (cs ds : List Char) :
    trim (cs ++ trimEnd ds) = trim (cs ++ ds) := by
  rw [← trimStart_trimEnd, ← trimStart_trimEnd, trimEnd_append_trimEnd]

/-- Nothing is dropped at the beginning exactly where the first character is not blank. -/
theorem trimStart_eq_self_iff : trimStart cs = cs ↔ ∀ c ∈ cs.head?, isBlank c = false := by
  cases cs with
  | nil => simp [trimStart]
  | cons c rest =>
      cases hc : isBlank c with
      | true =>
          rw [trimStart_cons_blank hc]
          refine iff_of_false (fun heq => ?_) (by simp [hc])
          -- a text is longer than what is left of its rest
          have hlength := congrArg List.length heq
          have hle := (List.dropWhile_sublist (p := isBlank) (l := rest)).length_le
          rw [trimStart, List.length_cons] at hlength
          omega
      | false => simp [trimStart_cons_ink hc, hc]

/-- Nothing is dropped at the end exactly where the last character is not blank. -/
theorem trimEnd_eq_self_iff : trimEnd cs = cs ↔ ∀ c ∈ cs.getLast?, isBlank c = false := by
  rw [← List.head?_reverse, ← trimStart_eq_self_iff, trimEnd, trimStart]
  exact List.reverse_eq_iff

/-- No blanks stand at the ends of a text exactly where neither its first nor its last character is
one. -/
theorem trim_eq_self_iff :
    trim cs = cs ↔
      (∀ c ∈ cs.head?, isBlank c = false) ∧ ∀ c ∈ cs.getLast?, isBlank c = false := by
  rw [← trimStart_eq_self_iff, ← trimEnd_eq_self_iff]
  constructor
  · intro h
    constructor
    · rw [← h, ← trimStart_trimEnd]
      exact List.dropWhile_idempotent isBlank (trimEnd cs)
    · rw [← h]
      exact List.rdropWhile_idempotent isBlank (trimStart cs)
  · rintro ⟨hstart, hend⟩
    rw [trim, hstart, hend]

/-- No blanks stand at the ends of two texts put together where the first one does not begin with
one and the second one does not end with one. -/
theorem trim_append_eq_self_iff (hcs : cs ≠ []) (hds : ds ≠ []) :
    trim (cs ++ ds) = cs ++ ds ↔
      (∀ c ∈ cs.head?, isBlank c = false) ∧ ∀ c ∈ ds.getLast?, isBlank c = false := by
  rw [trim_eq_self_iff, List.head?_append_of_ne_nil _ hcs, List.getLast?_append_of_ne_nil _ hds]

/-- A string has no blanks at its ends exactly where its characters have none. -/
theorem trimmed_eq_self_iff {s : String} : trimmed s = s ↔ trim s.toList = s.toList := by
  rw [trimmed, ← String.toList_inj, String.toList_ofList]

/-! ### Runs -/

/-- A text that comes behind a run of blanks or not ends with a blank. -/
def inRun (before : Bool) (cs : List Char) : Bool := cs.foldl (fun _ c => isBlank c) before

/-- Runs of blanks in two texts are written one after the other; a run goes on across the seam. -/
theorem collapseFrom_append (before : Bool) (cs ds : List Char) :
    collapseFrom before (cs ++ ds) =
      collapseFrom before cs ++ collapseFrom (inRun before cs) ds := by
  induction cs generalizing before with
  | nil => rfl
  | cons c rest ih =>
      simp only [List.cons_append, collapseFrom, inRun, List.foldl_cons]
      by_cases hc : isBlank c = true
      · cases before with
        | true => simp only [hc, if_true, ih, inRun]
        | false =>
            simp only [hc, if_true, ih, inRun, Bool.false_eq_true, if_false, List.cons_append]
      · rw [Bool.not_eq_true] at hc
        simp only [hc, ih, inRun, Bool.false_eq_true, if_false, List.cons_append]

/-- Where runs are single spaces already, writing them so changes nothing, wherever the text
stands; and it ends as it did. -/
theorem collapseFrom_collapseFrom (before inner : Bool) (h : inner = true → before = true)
    (cs : List Char) :
    collapseFrom before (collapseFrom inner cs) = collapseFrom before cs ∧
      inRun before (collapseFrom inner cs) = inRun before cs := by
  induction cs generalizing before inner with
  | nil => exact ⟨rfl, rfl⟩
  | cons c rest ih =>
      by_cases hc : isBlank c = true
      · obtain ⟨hrest, hends⟩ := ih true true fun h => h
        cases inner with
        | true =>
            obtain rfl := h rfl
            simp only [collapseFrom, hc, if_true, inRun, List.foldl_cons]
            exact ⟨hrest, hends⟩
        | false =>
            simp only [collapseFrom, hc, if_true, inRun, List.foldl_cons, isBlank_space,
              Bool.false_eq_true, if_false, hrest]
            exact ⟨trivial, hends⟩
      · rw [Bool.not_eq_true] at hc
        obtain ⟨hrest, hends⟩ := ih false false fun h => h
        simp only [collapseFrom, hc, Bool.false_eq_true, if_false, inRun, List.foldl_cons, hrest]
        exact ⟨trivial, hends⟩

/-- Writing the runs of a part as single spaces adds nothing where those of the whole are written so
afterwards. -/
theorem collapse_collapse (cs part ds : List Char) :
    collapse (cs ++ collapse part ++ ds) = collapse (cs ++ part ++ ds) := by
  obtain ⟨hpart, hends⟩ :=
    collapseFrom_collapseFrom (inRun false cs) false nofun part
  simp only [collapse, List.append_assoc, collapseFrom_append] at hpart hends ⊢
  rw [hpart, hends]

/-- At the beginning it does not matter how runs are written. -/
theorem trimStart_collapseFrom (before : Bool) (cs : List Char) :
    trimStart (collapseFrom before cs) = collapse (trimStart cs) := by
  induction cs generalizing before with
  | nil => rfl
  | cons c rest ih =>
      by_cases hc : isBlank c = true
      · rw [trimStart_cons_blank hc, ← ih true]
        cases before with
        | true => simp only [collapseFrom, hc, if_true]
        | false =>
            simp only [collapseFrom, hc, if_true, Bool.false_eq_true, if_false,
              trimStart_cons_blank isBlank_space]
      · rw [Bool.not_eq_true] at hc
        rw [trimStart_cons_ink hc]
        simp only [collapseFrom, collapse, hc, Bool.false_eq_true, if_false]
        rw [trimStart_cons_ink hc]

/-- Blanks at the beginning are dropped before or after runs are written as single spaces. -/
theorem trimStart_collapse (cs : List Char) : trimStart (collapse cs) = collapse (trimStart cs) :=
  trimStart_collapseFrom false cs

/-- Blanks at the end are dropped before or after runs are written as single spaces. -/
theorem trimEnd_collapse (cs : List Char) : trimEnd (collapse cs) = collapse (trimEnd cs) := by
  induction cs using List.reverseRecOn with
  | nil => rfl
  | append_singleton cs c ih =>
      by_cases hc : isBlank c = true
      · rw [trimEnd_concat_blank hc, ← ih, collapse, collapseFrom_append]
        cases hends : inRun false cs with
        | true => simp [collapseFrom, hc, collapse]
        | false =>
            simp only [collapseFrom, hc, if_true, Bool.false_eq_true, if_false,
              trimEnd_concat_blank isBlank_space, collapse]
      · rw [Bool.not_eq_true] at hc
        rw [trimEnd_concat_ink hc, collapse, collapseFrom_append]
        simp only [collapseFrom, hc, Bool.false_eq_true, if_false]
        rw [trimEnd_concat_ink hc]

/-- Edges and runs have nothing to do with each other. -/
theorem trim_collapse (cs : List Char) : trim (collapse cs) = collapse (trim cs) := by
  rw [trim, trim, trimStart_collapse, trimEnd_collapse]

/-! ### Ink -/

/-- The characters that are not blank, in order. No mode changes them, and no way to cut a text
does, so that they tell whether anything was lost, doubled or put elsewhere. -/
def ink (cs : List Char) : List Char := cs.filter fun c => !isBlank c

/-- There is no ink in nothing. -/
@[simp] theorem ink_nil : ink [] = [] := rfl

/-- The ink of texts put together is that of their parts: there is none between them. -/
@[simp] theorem ink_append (cs ds : List Char) : ink (cs ++ ds) = ink cs ++ ink ds :=
  List.filter_append ..

/-- There is no ink in blanks. -/
theorem ink_of_allBlank (h : allBlank cs = true) : ink cs = [] := by
  simpa [ink, allBlank] using h

/-- Blanks are no ink, so that none is lost with those at the beginning. -/
theorem ink_trimStart (cs : List Char) : ink (trimStart cs) = ink cs := by
  induction cs with
  | nil => rfl
  | cons c rest ih =>
      by_cases hc : isBlank c = true
      · rw [trimStart_cons_blank hc, ih]
        simp [ink, hc]
      · rw [Bool.not_eq_true] at hc
        rw [trimStart_cons_ink hc]

/-- None is lost with those at the end. -/
theorem ink_trimEnd (cs : List Char) : ink (trimEnd cs) = ink cs := by
  induction cs using List.reverseRecOn with
  | nil => rfl
  | append_singleton cs c ih =>
      by_cases hc : isBlank c = true
      · rw [trimEnd_concat_blank hc, ih]
        simp [ink, hc]
      · rw [Bool.not_eq_true] at hc
        rw [trimEnd_concat_ink hc]

/-- None is lost where runs of blanks become single spaces. -/
theorem ink_collapseFrom (before : Bool) (cs : List Char) :
    ink (collapseFrom before cs) = ink cs := by
  induction cs generalizing before with
  | nil => rfl
  | cons c rest ih =>
      have hrest : ∀ before, List.filter (fun c => !isBlank c) (collapseFrom before rest) =
          List.filter (fun c => !isBlank c) rest := ih
      by_cases hc : isBlank c = true
      · cases before with
        | true => simp [collapseFrom, ink, hc, hrest]
        | false => simp [collapseFrom, ink, hc, hrest, isBlank_space]
      · rw [Bool.not_eq_true] at hc
        simp [collapseFrom, ink, hc, hrest]

end Text

/-! ### Modes -/

namespace TextMode

/-- The text that a mode makes, by its characters. -/
theorem toList_apply (m : TextMode) (s : String) (atStart atEnd : Bool) :
    (m.apply s atStart atEnd).toList = m.applyChars atStart atEnd s.toList :=
  String.toList_ofList

/-- What a mode keeps of a part of a text before it looks at its edges: a mode that drops blanks at
the edges drops a part that is blank throughout. -/
def kept (m : TextMode) (part : List Char) : List Char :=
  if m.trims && Text.allBlank part then [] else part

/-- A part normalised is what is kept of it, with its runs written as the mode says and without the
blanks at those edges that are edges of the element. -/
theorem applyChars_eq (m : TextMode) (atStart atEnd : Bool) (part : List Char) :
    m.applyChars atStart atEnd part =
      let cs := if m.collapses then Text.collapse (m.kept part) else m.kept part
      let cs := if m.trims && atStart then Text.trimStart cs else cs
      if m.trims && atEnd then Text.trimEnd cs else cs := by
  unfold applyChars kept
  split_ifs <;> rfl

/-- A whole text normalised. -/
theorem applyChars_whole (m : TextMode) (cs : List Char) :
    m.applyChars true true cs =
      let cs := if m.collapses then Text.collapse cs else cs
      if m.trims then Text.trim cs else cs := by
  unfold applyChars
  simp only [Bool.and_true]
  cases htrims : m.trims with
  | false => rfl
  | true =>
      cases hblank : Text.allBlank cs with
      | false => rfl
      | true =>
          -- nothing is left of a text that is blank throughout, either way
          have hnil : Text.trim cs = [] := Text.trim_of_allBlank hblank
          simp only [Bool.and_self, if_true]
          split_ifs
          · rw [Text.trim_collapse, hnil]
            rfl
          · exact hnil.symm

/-- Writing the runs of a part as the mode says adds nothing where the whole is normalised
afterwards. -/
theorem applyChars_collapse {m : TextMode} (h : m.collapses = true) (cs part ds : List Char) :
    m.applyChars true true (cs ++ Text.collapse part ++ ds) =
      m.applyChars true true (cs ++ part ++ ds) := by
  simp only [applyChars_whole, h, if_true, Text.collapse_collapse]

/-- Dropping the blanks at the beginning adds nothing where the whole is normalised afterwards. -/
theorem applyChars_trimStart {m : TextMode} (h : m.trims = true) (part ds : List Char) :
    m.applyChars true true (Text.trimStart part ++ ds) = m.applyChars true true (part ++ ds) := by
  simp only [applyChars_whole, h, if_true]
  cases m.collapses with
  | false => exact Text.trim_trimStart_append part ds
  | true => simp only [if_true, Text.trim_collapse, Text.trim_trimStart_append]

/-- Dropping the blanks at the end adds nothing where the whole is normalised afterwards. -/
theorem applyChars_trimEnd {m : TextMode} (h : m.trims = true) (cs part : List Char) :
    m.applyChars true true (cs ++ Text.trimEnd part) = m.applyChars true true (cs ++ part) := by
  simp only [applyChars_whole, h, if_true]
  cases m.collapses with
  | false => exact Text.trim_append_trimEnd cs part
  | true => simp only [if_true, Text.trim_collapse, Text.trim_append_trimEnd]

/-- **A part may be normalised before the whole is.** Where a part that is said to begin at the edge
does begin there, and one that is said to end there does end there, nothing of the whole changes but
that parts which are blank throughout are dropped by modes that drop blanks at the edges. -/
theorem applyChars_part (m : TextMode) {atStart atEnd : Bool} (cs part ds : List Char)
    (hstart : atStart = true → cs = []) (hend : atEnd = true → ds = []) :
    m.applyChars true true (cs ++ m.applyChars atStart atEnd part ++ ds) =
      m.applyChars true true (cs ++ m.kept part ++ ds) := by
  have hruns : m.applyChars true true
      (cs ++ (if m.collapses then Text.collapse (m.kept part) else m.kept part) ++ ds) =
        m.applyChars true true (cs ++ m.kept part ++ ds) := by
    split_ifs with hcollapses
    · exact applyChars_collapse hcollapses cs (m.kept part) ds
    · rfl
  rw [← hruns, applyChars_eq m atStart atEnd part]
  generalize (if m.collapses then Text.collapse (m.kept part) else m.kept part) = runs
  dsimp only
  -- first the end is put back, then the beginning
  have hends : ∀ runs : List Char,
      m.applyChars true true (cs ++ (if m.trims && atEnd then Text.trimEnd runs else runs) ++ ds) =
        m.applyChars true true (cs ++ runs ++ ds) := by
    intro runs
    split_ifs with htrims
    · rw [Bool.and_eq_true] at htrims
      rw [hend htrims.2, List.append_nil, List.append_nil, applyChars_trimEnd htrims.1]
    · rfl
  rw [hends]
  split_ifs with htrims
  · rw [Bool.and_eq_true] at htrims
    rw [hstart htrims.2, List.nil_append, List.nil_append, applyChars_trimStart htrims.1]
  · rfl

/-- Normalising keeps all characters but blanks. -/
theorem ink_applyChars (m : TextMode) (atStart atEnd : Bool) (cs : List Char) :
    Text.ink (m.applyChars atStart atEnd cs) = Text.ink cs := by
  have hkept : Text.ink (m.kept cs) = Text.ink cs := by
    rw [kept]
    split_ifs with hblank
    · rw [Bool.and_eq_true] at hblank
      rw [Text.ink_of_allBlank hblank.2, Text.ink_nil]
    · rfl
  rw [applyChars_eq]
  dsimp only
  split_ifs <;>
    simp only [Text.ink_trimEnd, Text.ink_trimStart, Text.collapse, Text.ink_collapseFrom, hkept]

end TextMode

end MarkupRouting
