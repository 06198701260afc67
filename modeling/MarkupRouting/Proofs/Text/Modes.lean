import Mathlib.Logic.Function.Conjugate
import MarkupRouting.Proofs.Text.Normal

/-!
# Modes one after the other

A text may be normalised several times, as one mode says and then as another. The modes act on
texts as their joins do: what is done twice, or in another order, is done once.

* **Text.changeIf** — a change of a text that is made or not.
* **TextMode.changes** — the three changes of a mode, each made where the mode says so.
* **TextMode.applyChars_applyChars** — two modes one after the other are their join.
* **TextMode.foldl_apply**, **foldl_join** — many modes, and what their join decides.
* **TextMode.apply_acts** — all of this about texts.
-/

namespace MarkupRouting

namespace Text

variable {cs : List Char} {f g : List Char → List Char} {a b : Bool}

/-! ### Changes made or not -/

/-- A change of a text where it is to be made. -/
def changeIf (made : Bool) (change : List Char → List Char) : List Char → List Char :=
  if made then change else id

/-- Changes that commute do so whether or not they are made. -/
theorem changeIf_comm (h : Function.Commute f g) :
    Function.Commute (changeIf a f) (changeIf b g) := by
  cases a with
  | false => exact Function.Commute.id_left
  | true =>
      cases b with
      | false => exact Function.Commute.id_right
      | true => exact h

/-- A change that made twice is made once is made where either asks for it. -/
theorem changeIf_changeIf (h : ∀ cs, f (f cs) = f cs) (cs : List Char) :
    changeIf b f (changeIf a f cs) = changeIf (a || b) f cs := by
  cases a with
  | false => rfl
  | true =>
      cases b with
      | false => rfl
      | true => exact h cs

/-! ### Edges and runs -/

/-- Blanks are dropped at one edge before or after they are at the other. -/
theorem commute_trimStart_trimEnd : Function.Commute trimStart trimEnd := trimStart_trimEnd

/-- The beginning is looked at before or after runs are written as single spaces. -/
theorem commute_trimStart_collapse : Function.Commute trimStart collapse := trimStart_collapse

/-- The end is looked at before or after runs are written as single spaces. -/
theorem commute_trimEnd_collapse : Function.Commute trimEnd collapse := trimEnd_collapse

/-- What was trimmed at its beginning is trimmed there. -/
theorem trimStart_trimStart (cs : List Char) : trimStart (trimStart cs) = trimStart cs :=
  List.dropWhile_idempotent isBlank cs

/-- What was trimmed at its end is trimmed there. -/
theorem trimEnd_trimEnd (cs : List Char) : trimEnd (trimEnd cs) = trimEnd cs :=
  List.rdropWhile_idempotent isBlank cs

/-- Collapsed runs of blanks are single spaces, of which none is left to collapse. -/
theorem collapse_collapse_self (cs : List Char) : collapse (collapse cs) = collapse cs := by
  simpa using collapse_collapse [] cs []

/-- A text is blank throughout where it has no ink. -/
theorem allBlank_iff_ink : allBlank cs = true ↔ ink cs = [] := by
  simp [allBlank, ink]

end Text

namespace TextMode

variable {m n : TextMode} {atStart atEnd : Bool}

/-! ### The changes of a mode -/

/-- The changes of a mode: runs are written as single spaces, then the beginning is looked at, then
the end, each where the mode says so. -/
def changes (m : TextMode) (atStart atEnd : Bool) (cs : List Char) : List Char :=
  Text.changeIf (m.trims && atEnd) Text.trimEnd
    (Text.changeIf (m.trims && atStart) Text.trimStart (Text.changeIf m.collapses Text.collapse cs))

/-- The changes are made to a text that the mode does not drop. -/
theorem applyChars_changes (m : TextMode) (atStart atEnd : Bool) (cs : List Char) :
    m.applyChars atStart atEnd cs =
      if m.trims && Text.allBlank cs then [] else m.changes atStart atEnd cs := by
  unfold applyChars changes Text.changeIf
  split_ifs <;> rfl

/-- The changes of one mode after those of another are those of their join: each commutes with the
others, so that the two of a kind meet. -/
theorem changes_changes (m n : TextMode) (atStart atEnd : Bool) (cs : List Char) :
    n.changes atStart atEnd (m.changes atStart atEnd cs) =
      (m.join n).changes atStart atEnd cs := by
  have hruns : ∀ a b cs, Text.changeIf n.collapses Text.collapse
      (Text.changeIf a Text.trimEnd (Text.changeIf b Text.trimStart cs)) =
        Text.changeIf a Text.trimEnd
          (Text.changeIf b Text.trimStart (Text.changeIf n.collapses Text.collapse cs)) := by
    intro a b cs
    rw [← Text.changeIf_comm Text.commute_trimEnd_collapse,
      ← Text.changeIf_comm Text.commute_trimStart_collapse]
  simp only [changes]
  rw [hruns, Text.changeIf_comm Text.commute_trimStart_trimEnd,
    Text.changeIf_changeIf Text.trimEnd_trimEnd, Text.changeIf_changeIf Text.trimStart_trimStart,
    Text.changeIf_changeIf Text.collapse_collapse_self]
  simp only [trims_join, collapses_join, Bool.and_or_distrib_right]

/-- Normalising leaves a text blank throughout, or leaves it with ink. -/
theorem allBlank_applyChars (m : TextMode) (atStart atEnd : Bool) (cs : List Char) :
    Text.allBlank (m.applyChars atStart atEnd cs) = Text.allBlank cs := by
  rw [Bool.eq_iff_iff, Text.allBlank_iff_ink, Text.allBlank_iff_ink, ink_applyChars]

/-- A mode that drops blanks at the edges leaves nothing of a text that is blank throughout. -/
theorem applyChars_of_allBlank {cs : List Char} (htrims : m.trims = true)
    (hblank : Text.allBlank cs = true) : m.applyChars atStart atEnd cs = [] := by
  rw [applyChars_changes, htrims, hblank]
  rfl

/-- Of no characters no mode makes any. -/
@[simp] theorem applyChars_nil : m.applyChars atStart atEnd [] = [] := by
  rw [← List.isEmpty_iff]
  cases m <;> cases atStart <;> cases atEnd <;> rfl

/-- Two modes one after the other are their join. -/
theorem applyChars_applyChars (m n : TextMode) (atStart atEnd : Bool) (cs : List Char) :
    n.applyChars atStart atEnd (m.applyChars atStart atEnd cs) =
      (m.join n).applyChars atStart atEnd cs := by
  cases hdrops : (m.join n).trims && Text.allBlank cs with
  | true =>
      obtain ⟨htrims, hblank⟩ := Bool.and_eq_true_iff.mp hdrops
      rw [applyChars_of_allBlank htrims hblank]
      rw [trims_join, Bool.or_eq_true] at htrims
      -- one of the two drops the text, and the other leaves nothing as it is
      rcases htrims with hm | hn
      · rw [applyChars_of_allBlank hm hblank, applyChars_nil]
      · exact applyChars_of_allBlank hn (by rw [allBlank_applyChars, hblank])
  | false =>
      have hkeeps :
          (m.trims && Text.allBlank cs) = false ∧ (n.trims && Text.allBlank cs) = false := by
        rw [trims_join, Bool.and_or_distrib_right] at hdrops
        exact Bool.or_eq_false_iff.mp hdrops
      rw [applyChars_changes n, allBlank_applyChars, hkeeps.2, applyChars_changes m, hkeeps.1,
        applyChars_changes (m.join n), hdrops]
      exact changes_changes m n atStart atEnd cs

/-! ### Modes on texts -/

/-- The join of two modes decides what either decides. -/
theorem join_comm (m n : TextMode) : m.join n = n.join m := by
  rw [join, join, Bool.or_comm, Bool.or_comm m.collapses]

/-- A mode joined with itself decides nothing new. -/
@[simp] theorem join_self (m : TextMode) : m.join m = m := by
  rw [join, Bool.or_self, Bool.or_self, ofFlags_trims_collapses]

/-- Leaving a text as it is. -/
@[simp] theorem apply_keep (text : String) (atStart atEnd : Bool) :
    keep.apply text atStart atEnd = text :=
  String.ofList_toList

/-- A text normalised twice is normalised once, as the join of the two modes says. -/
theorem apply_apply (m n : TextMode) (text : String) (atStart atEnd : Bool) :
    n.apply (m.apply text atStart atEnd) atStart atEnd = (m.join n).apply text atStart atEnd := by
  rw [apply, toList_apply, applyChars_applyChars, apply]

/-- A text normalised again and again is normalised once. -/
theorem foldl_apply (ms : List TextMode) (m : TextMode) (text : String) (atStart atEnd : Bool) :
    ms.foldl (fun text n => n.apply text atStart atEnd) (m.apply text atStart atEnd) =
      (ms.foldl join m).apply text atStart atEnd := by
  induction ms generalizing m with
  | nil => rfl
  | cons n rest ih => rw [List.foldl_cons, List.foldl_cons, apply_apply, ih]

/-- The join of many modes decides what any of them decides. -/
theorem foldl_join (ms : List TextMode) (m : TextMode) :
    ms.foldl join m = ofFlags (m.trims || ms.any trims) (m.collapses || ms.any collapses) := by
  induction ms generalizing m with
  | nil => simp
  | cons n rest ih =>
      rw [List.foldl_cons, ih, trims_join, collapses_join, List.any_cons, List.any_cons,
        Bool.or_assoc, Bool.or_assoc]

/-- So the join depends neither on the order of the modes nor on how often each stands there. -/
theorem foldl_join_congr {ms ns : List TextMode} (h : ∀ k, k ∈ ms ↔ k ∈ ns) (m : TextMode) :
    ms.foldl join m = ns.foldl join m := by
  have hany : ∀ decides : TextMode → Bool, ms.any decides = ns.any decides := by
    intro decides
    rw [Bool.eq_iff_iff, List.any_eq_true, List.any_eq_true]
    simp only [h]
  rw [foldl_join, foldl_join, hany, hany]

/-- **Normalising is an action of the joins of modes** (`WhitespaceMode.apply` and `combine`). With
the same edges throughout: a text normalised as one mode says and then as another is normalised as
their join says, in either order, and normalised twice as one mode says it is normalised once. Modes
that follow one another, in whatever order and each however often, are one mode, the join of all of
them. And the characters that are not blank stay, in their order. -/
theorem apply_acts (text : String) (atStart atEnd : Bool) :
    (∀ m n : TextMode,
      (m.join n).apply text atStart atEnd = n.apply (m.apply text atStart atEnd) atStart atEnd ∧
        n.apply (m.apply text atStart atEnd) atStart atEnd =
          m.apply (n.apply text atStart atEnd) atStart atEnd) ∧
    (∀ m : TextMode,
      m.apply (m.apply text atStart atEnd) atStart atEnd = m.apply text atStart atEnd) ∧
    (∀ ms ns : List TextMode, (∀ k, k ∈ ms ↔ k ∈ ns) →
      ms.foldl (fun text m => m.apply text atStart atEnd) text =
        (ns.foldl join keep).apply text atStart atEnd) ∧
    ∀ m : TextMode, Text.ink (m.apply text atStart atEnd).toList = Text.ink text.toList := by
  refine ⟨fun m n => ⟨(apply_apply m n text atStart atEnd).symm, ?_⟩, fun m => ?_,
    fun ms ns hsame => ?_, fun m => ?_⟩
  · rw [apply_apply, apply_apply, join_comm]
  · rw [apply_apply, join_self]
  · calc ms.foldl (fun text m => m.apply text atStart atEnd) text
        = ms.foldl (fun text m => m.apply text atStart atEnd) (keep.apply text atStart atEnd) := by
          rw [apply_keep]
      _ = (ms.foldl join keep).apply text atStart atEnd := foldl_apply ms keep text atStart atEnd
      _ = (ns.foldl join keep).apply text atStart atEnd := by rw [foldl_join_congr hsame]
  · rw [toList_apply, ink_applyChars]

/-- Dropping the blanks at the edges, writing runs as single spaces, and dropping again. -/
theorem apply_acts_sentence :
    (∀ k, k ∈ [trim, collapse, trim] ↔ k ∈ [collapse, trim]) ∧
      [trim, collapse, trim].foldl (fun text m => m.apply text true true) " a \t b\n" = "a b" := by
  have hsame : ∀ k, k ∈ [trim, collapse, trim] ↔ k ∈ [collapse, trim] := by
    intro k
    cases k <;> decide
  refine ⟨hsame, ?_⟩
  rw [(apply_acts " a \t b\n" true true).2.2.1 [trim, collapse, trim] [collapse, trim] hsame]
  decide

end TextMode

end MarkupRouting
