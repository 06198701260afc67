import Mathlib.Data.List.Basic

/-!
# Lists cut at a place

What stands at a place of two lists put together, and of a list in order; names that come once.

* **append_eq_append_cons** — it stands in the first list or in the second one.
* **mem_before_of_pairwise** — whatever comes before it in the order stands in front of it.
* **forall_or_first** — a list is all of a kind, or has a first thing that is not.
* **eraseDups_concat** — names in the order in which they come first, with one more behind them.
-/

namespace MarkupRouting

variable {α : Type} {before after : List α} {m : α}

/-- In two lists one behind the other, what stands at a place stands in the first one or in the
second one. -/
theorem append_eq_append_cons {l l' : List α} (h : l ++ l' = before ++ m :: after) :
    (∃ mid, l = before ++ m :: mid ∧ after = mid ++ l') ∨
      ∃ later, before = l ++ later ∧ l' = later ++ m :: after := by
  rcases List.append_eq_append_iff.mp h with ⟨later, hbefore, hl'⟩ | ⟨mid, hl, htail⟩
  · exact .inr ⟨later, hbefore, hl'⟩
  · cases mid with
    | nil => exact .inr ⟨[], by rw [hl, List.append_nil, List.append_nil], htail.symm⟩
    | cons p mid =>
        obtain ⟨rfl, hafter⟩ := List.cons.inj htail
        exact .inl ⟨mid, hl, hafter⟩

/-- In a list in strict order, what comes before something in the order stands in front of it. -/
theorem mem_before_of_pairwise {R : α → α → Prop} (hirrefl : ∀ x, ¬ R x x)
    (htrans : ∀ {x y z}, R x y → R y z → R x z) (hordered : (before ++ m :: after).Pairwise R)
    {x : α} (hmem : x ∈ before ++ m :: after) (hx : R x m) : x ∈ before := by
  rcases List.mem_append.mp hmem with hbefore | hrest
  · exact hbefore
  · obtain ⟨-, hordered, -⟩ := List.pairwise_append.mp hordered
    rcases List.mem_cons.mp hrest with rfl | hafter
    · exact absurd hx (hirrefl x)
    · exact absurd (htrans hx ((List.pairwise_cons.mp hordered).1 x hafter)) (hirrefl x)

/-- Everything in a list is of a kind, or there is a first thing that is not. -/
theorem forall_or_first (P : α → Prop) (l : List α) :
    (∀ x ∈ l, P x) ∨ ∃ before m after, l = before ++ m :: after ∧ (∀ x ∈ before, P x) ∧ ¬ P m := by
  induction l with
  | nil => exact .inl nofun
  | cons x rest ih =>
      by_cases hx : P x
      · rcases ih with hall | ⟨before, m, after, rfl, hbefore, hm⟩
        · exact .inl (List.forall_mem_cons.mpr ⟨hx, hall⟩)
        · exact .inr ⟨x :: before, m, after, rfl, List.forall_mem_cons.mpr ⟨hx, hbefore⟩, hm⟩
      · exact .inr ⟨[], x, rest, rfl, nofun, hx⟩

/-- One name more is new or is there already. -/
theorem eraseDups_concat (names : List String) (name : String) :
    (names ++ [name]).eraseDups =
      if name ∈ names then names.eraseDups else names.eraseDups ++ [name] := by
  rw [List.eraseDups_append]
  split_ifs with h
  · simp [List.removeAll, h]
  · simp [List.removeAll, h, List.eraseDups_cons]

end MarkupRouting
