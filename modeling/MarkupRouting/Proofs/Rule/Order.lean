import Mathlib.Tactic
import MarkupRouting.Rule.Book

/-!
# The order of a book

Every book that registrations make of an empty one keeps its rules in strict order of rank.

* **Rank.before_iff_lt** — one rank comes before another one where its key is the smaller one in
  dictionary order.
* **RuleBook.Registered** — the books that registrations make.
* **RuleBook.Ordered** — rules in strict order of rank, each registered before the next one to come.
* **RuleBook.Registered.ordered** — the first are all the second.
-/

namespace MarkupRouting

/-! ### Ranks -/

namespace Rank

/-- The order of keys is dictionary order. -/
theorem keyBefore_iff_lt {xs ys : List Int} : keyBefore xs ys = true ↔ xs < ys := by
  induction xs generalizing ys with
  | nil => cases ys <;> simp [keyBefore]
  | cons x xs ih =>
      cases ys with
      | nil => simp [keyBefore]
      | cons y ys => simp [keyBefore, List.cons_lt_cons_iff, ih]

/-- One rank comes before another one where its key does. -/
theorem before_iff_lt {a b : Rank} : a.before b = true ↔ a.key < b.key := keyBefore_iff_lt

/-- Of three ranks in order the first one comes before the last one. -/
theorem before_trans {a b c : Rank} (hab : a.before b = true) (hbc : b.before c = true) :
    a.before c = true := by
  rw [before_iff_lt] at *
  exact List.lt_trans hab hbc

/-- No rank comes before itself. -/
theorem before_irrefl (a : Rank) : ¬ a.before a = true := by
  rw [before_iff_lt]
  exact lt_irrefl _

/-- Of two ranks with different places in the order of registration one comes before the other. -/
theorem before_of_not_before {a b : Rank} (hne : a.sequence ≠ b.sequence)
    (h : ¬ a.before b = true) : b.before a = true := by
  rw [before_iff_lt] at *
  have hkey : b.key ≠ a.key := by
    intro hkey
    simp only [key, List.cons.injEq] at hkey
    exact hne hkey.2.2.2.1.symm
  exact lt_of_le_of_ne (not_lt.mp h) hkey

/-! What decides between two ranks, whatever their places in the order of registration -/

variable {a b : Rank}

/-- The rank with more names comes first. -/
theorem before_of_literals (h : b.literals < a.literals) : a.before b = true := by
  simp only [before, key, keyBefore, Bool.or_eq_true, decide_eq_true_eq]
  omega

/-- Of ranks with as many names the one with more wildcards comes first. -/
theorem before_of_wildcards (hliterals : a.literals = b.literals) (h : b.wildcards < a.wildcards) :
    a.before b = true := by
  simp only [before, key, keyBefore, hliterals, beq_self_eq_true, Bool.true_and, Bool.or_eq_true,
    decide_eq_true_eq]
  omega

/-- Of ranks that differ neither in names nor in wildcards a rooted one comes first. -/
theorem before_of_rooted (hliterals : a.literals = b.literals)
    (hwildcards : a.wildcards = b.wildcards) (ha : a.rooted = true) (hb : b.rooted = false) :
    a.before b = true := by
  simp [before, key, keyBefore, hliterals, hwildcards, ha, hb]

end Rank

/-! ### Reading keeps the place in the order of registration -/

/-- A pattern has the place that it was read for. -/
theorem Pattern.sequence_of_read {source : String} {sequence : Int} {p : Pattern}
    (h : Pattern.read source sequence = .ok p) : p.sequence = sequence := by
  dsimp only [Pattern.read] at h
  split at h
  · cases h
  · split at h
    · cases h
    · split at h
      · cases h
        rfl
      · cases h

namespace RuleBook

variable {H : Type} {book : RuleBook H}

/-- The rule that would be registered has the next place in the order of registration. -/
theorem sequence_of_rule {source : Value} {offer : Offer H} {r : Rule H}
    (h : book.rule source offer = .ok r) : r.pattern.sequence = book.next := by
  unfold rule at h
  split at h
  · cases h
  next p hp =>
    split at h
    · cases h
    · cases h
      cases source with
      | text source => exact Pattern.sequence_of_read hp
      | _ => cases hp

/-! ### Books -/

/-- The books that registrations make of an empty one. A registration that fails leaves the book as
it is. -/
inductive Registered : RuleBook H → Prop where
  /-- No rule was registered. -/
  | empty (mode : TextMode) : Registered (.empty mode)
  /-- One more rule was registered. -/
  | register {book book' : RuleBook H} {source : Value} {offer : Offer H} {r : Rule H} :
      Registered book → book.register source offer = .ok (r, book') → Registered book'

/-- The rules are in strict order of rank, and were all registered before the next one to come. No
two have one rank, since no two have one place in the order of registration (`rank_key`). -/
structure Ordered (book : RuleBook H) : Prop where
  /-- Every rule is more specific than all that come after it. -/
  ranked : book.rules.Pairwise fun a b => a.pattern.rank.before b.pattern.rank = true
  /-- Every rule has a place before the next one. -/
  earlier : ∀ r ∈ book.rules, r.pattern.sequence < book.next

/-- What is in a list of rules with one more. -/
theorem mem_insert {r x : Rule H} {rules : List (Rule H)} :
    x ∈ insert r rules ↔ x = r ∨ x ∈ rules := by
  induction rules with
  | nil => simp [insert]
  | cons other rest ih =>
      rw [insert]
      split
      · rw [List.mem_cons]
      · rw [List.mem_cons, ih, List.mem_cons, or_left_comm]

/-- A rule with a place of its own is put where its rank belongs. -/
theorem ranked_insert {r : Rule H} {rules : List (Rule H)}
    (hne : ∀ x ∈ rules, r.pattern.sequence ≠ x.pattern.sequence)
    (h : rules.Pairwise fun a b => a.pattern.rank.before b.pattern.rank = true) :
    (insert r rules).Pairwise fun a b => a.pattern.rank.before b.pattern.rank = true := by
  induction rules with
  | nil => exact List.pairwise_singleton _ r
  | cons other rest ih =>
      obtain ⟨hother, hrest⟩ := List.pairwise_cons.mp h
      rw [insert]
      split
      next hbefore =>
        refine List.pairwise_cons.mpr ⟨fun x hx => ?_, h⟩
        rcases List.mem_cons.mp hx with rfl | hx
        · exact hbefore
        · exact Rank.before_trans hbefore (hother x hx)
      next hbefore =>
        have hne' := List.forall_mem_cons.mp hne
        refine List.pairwise_cons.mpr ⟨fun x hx => ?_, ih hne'.2 hrest⟩
        rcases mem_insert.mp hx with rfl | hx
        · exact Rank.before_of_not_before hne'.1 hbefore
        · exact hother x hx

/-- A rule with the next place leaves the book ordered. -/
theorem Ordered.add (h : book.Ordered) {r : Rule H} (hr : r.pattern.sequence = book.next) :
    (book.add r).Ordered where
  ranked := by
    refine ranked_insert (fun x hx => ?_) h.ranked
    have hlt := h.earlier x hx
    omega
  earlier x hx := by
    have hnext : (book.add r).next = book.next + 1 := rfl
    rcases mem_insert.mp hx with rfl | hx
    · omega
    · have hlt := h.earlier x hx
      omega

/-- Books made by registrations are ordered. -/
theorem Registered.ordered (h : book.Registered) : book.Ordered := by
  induction h with
  | empty mode => exact ⟨List.Pairwise.nil, fun r hr => absurd hr List.not_mem_nil⟩
  | register _ hreg ih =>
      unfold RuleBook.register at hreg
      split at hreg
      · cases hreg
      next r hr =>
        cases hreg
        exact ih.add (sequence_of_rule hr)

end RuleBook

end MarkupRouting
