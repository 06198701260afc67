import MarkupRouting.Proofs.Rule.NonInterference

/-!
# Histories of registrations

A book is asked for registrations one after the other, of single rules and of several at once. Some
of them fail. Whatever the history, the book keeps exactly the rules that were registered, in strict
order of rank, and which order they came in shows only among rules that are equally specific.

* **Registration**, **RuleBook.after** — what is asked of a book; the rules registered by a history,
  and the book behind it.
* **RuleBook.Holds** — a book keeps exactly the given rules, which came in the given order.
* **RuleBook.Holds.after** — a book behind a history keeps the rules registered by it.
* **RuleBook.registerAll_fails** — several registrations up to one that fails.
* **Rule.standing**, **Rearranged** — how specific a rule is, places aside; rules that come in
  another order, but for those of one standing.
* **RuleBook.Holds.rules_eq_iff** — two books keep their rules in one order exactly where these are
  rearranged.
-/

namespace MarkupRouting

variable {H : Type}

/-! ### Registrations -/

/-- What is asked of a book: to register one rule (`register`) or several in turn
(`register_many`). -/
inductive Registration (H : Type) where
  /-- One rule is to be registered. -/
  | one (source : Value) (offer : Offer H)
  /-- Several rules are to be registered in turn, up to the first one that fails. -/
  | several (entries : Mapping (Offer H))

/-- The patterns to be registered, with their handlings. -/
def Registration.entries : Registration H → Mapping (Offer H)
  | one source offer => [(source, offer)]
  | several entries => entries

/-- A handling that is handed over as such was made of options. -/
def Offer.Made : Offer H → Prop
  | handling s => ∃ options, Handling.ofArguments options = .ok s
  | _ => True

namespace Handling

/-- An option that is there is read as a handler. -/
theorem isSome_of_readHandler {name : String} {given : Option (Supplied H)} {handler : Option H}
    (hread : readHandler name given = .ok handler) (hgiven : given.isNone = false) :
    handler.isSome = true := by
  cases given with
  | none => cases hgiven
  | some x =>
      cases x with
      | handler h =>
          cases hread
          rfl
      | value v => cases hread

/-- A handling that was made of options has a handler. -/
theorem handled_of_make {options : Table (Supplied H)} {s : Handling H}
    (h : make options = .ok s) : s.onOpen.isSome = true ∨ s.onClose.isSome = true := by
  unfold make at h
  dsimp only at h
  split_ifs at h with hnone
  generalize given? options "open_handler" = opening at h hnone
  generalize given? options "close_handler" = closing at h hnone
  cases hopen : readHandler "open_handler" opening with
  | error flaw =>
      rw [hopen] at h
      cases h
  | ok onOpen =>
      cases hclose : readHandler "close_handler" closing with
      | error flaw =>
          rw [hopen, hclose] at h
          cases h
      | ok onClose =>
          cases hmode : readMode (given? options "whitespace") with
          | error flaw =>
              rw [hopen, hclose, hmode] at h
              cases h
          | ok mode =>
              rw [hopen, hclose, hmode] at h
              cases h
              simp only [Bool.and_eq_true, not_and, Bool.not_eq_true] at hnone
              cases hgiven : opening.isNone with
              | false => exact .inl (isSome_of_readHandler hopen hgiven)
              | true => exact .inr (isSome_of_readHandler hclose (hnone hgiven))

end Handling

/-- A handling that is read from what is handed over has a handler. -/
theorem Offer.Made.handled {offer : Offer H} (hmade : offer.Made) {s : Handling H}
    (h : offer.read = .ok s) : s.onOpen.isSome = true ∨ s.onClose.isSome = true := by
  cases offer with
  | handler x =>
      cases h
      exact .inr rfl
  | handling x =>
      cases h
      obtain ⟨options, hoptions⟩ := hmade
      unfold Handling.ofArguments at hoptions
      split_ifs at hoptions
      exact Handling.handled_of_make hoptions
  | options entries =>
      have h : Handling.ofOptions entries = .ok s := h
      unfold Handling.ofOptions at h
      split_ifs at h
      · exact Handling.handled_of_make h
      · split at h <;> cases h
  | other v => cases h

namespace RuleBook

variable {book : RuleBook H}

/-- What comes of a registration: the rules registered, the book behind it, and what was wrong. -/
def answer (book : RuleBook H) : Registration H → List (Rule H) × RuleBook H × Option Rule.Flaw
  | .one source offer =>
    match book.register source offer with
    | .error flaw => ([], book, some flaw)
    | .ok (r, book) => ([r], book, none)
  | .several entries =>
    let (made, last, flaw) := book.registerAll entries
    (made.map Prod.fst, last, flaw)

/-- The rules registered by a history, in the order in which they came, and the book behind it. A
registration that fails adds none; of several those in front of the one that fails stay. -/
def after (book : RuleBook H) : List (Registration H) → List (Rule H) × RuleBook H
  | [] => ([], book)
  | x :: rest =>
    let (made, book, _) := book.answer x
    let (more, last) := after book rest
    (made ++ more, last)

/-- A single registration is one of several of which there is one. -/
theorem answer_eq (book : RuleBook H) (x : Registration H) :
    book.answer x =
      ((book.registerAll x.entries).1.map Prod.fst, (book.registerAll x.entries).2) := by
  cases x with
  | one source offer =>
      simp only [answer, Registration.entries, registerAll]
      cases book.register source offer with
      | error flaw => rfl
      | ok made => rfl
  | several entries => rfl

/-- A history is gone through call by call: the rules of the first one are accepted before those of
the rest. -/
theorem after_cons (book : RuleBook H) (x : Registration H) (rest : List (Registration H)) :
    book.after (x :: rest) =
      ((book.registerAll x.entries).1.map Prod.fst ++
          ((book.registerAll x.entries).2.1.after rest).1,
        ((book.registerAll x.entries).2.1.after rest).2) := by
  rw [after, answer_eq]

/-! ### What a book keeps -/

/-- The book keeps exactly the given rules, in strict order of rank. Their numbers are those from
zero on in the order given, and the next one is the number of the next rule. -/
structure Holds (book : RuleBook H) (made : List (Rule H)) : Prop where
  /-- The book is in order. -/
  ordered : book.Ordered
  /-- The rules are those given. -/
  perm : book.rules.Perm made
  /-- They are numbered in the order in which they came. -/
  numbered : made.map (fun r => r.pattern.sequence) = (List.range book.next).map Int.ofNat

/-- A rule is put among the others. -/
theorem perm_insert (r : Rule H) (rules : List (Rule H)) : (insert r rules).Perm (r :: rules) := by
  induction rules with
  | nil => exact .refl _
  | cons other rest ih =>
      rw [insert]
      split
      · exact .refl _
      · exact (ih.cons other).trans (.swap r other rest)

namespace Holds

variable {made : List (Rule H)}

/-- A book without rules holds no rule of any history. -/
theorem empty (mode : TextMode) : Holds (.empty mode : RuleBook H) [] :=
  ⟨(Registered.empty mode).ordered, .refl [], rfl⟩

/-- A rule with the next number is kept as the last one that came. -/
theorem add (h : book.Holds made) {r : Rule H} (hr : r.pattern.sequence = book.next) :
    (book.add r).Holds (made ++ [r]) where
  ordered := h.ordered.add hr
  perm := (perm_insert r book.rules).trans ((h.perm.cons r).trans
    (List.perm_append_singleton r made).symm)
  numbered := by
    have hnext : (book.add r).next = book.next + 1 := rfl
    rw [hnext, List.range_succ, List.map_append, List.map_append, h.numbered, List.map_singleton,
      List.map_singleton, hr]
    rfl

/-- There are as many rules as the next number says. -/
theorem next_eq (h : book.Holds made) : book.next = made.length := by
  have hlength := congrArg List.length h.numbered
  simpa using hlength.symm

/-- The rules that several registrations add are kept. -/
theorem registerAll (h : book.Holds made) (entries : Mapping (Offer H)) :
    (book.registerAll entries).2.1.Holds
      (made ++ (book.registerAll entries).1.map Prod.fst) := by
  induction entries generalizing book made with
  | nil =>
      rw [RuleBook.registerAll, List.map_nil, List.append_nil]
      exact h
  | cons e rest ih =>
      obtain ⟨source, offer⟩ := e
      rw [RuleBook.registerAll, register]
      cases hr : book.rule source offer with
      | error flaw =>
          rw [List.map_nil, List.append_nil]
          exact h
      | ok r =>
          have hrest := ih (h.add (sequence_of_rule hr))
          rwa [List.append_assoc] at hrest

/-- **Whatever the history, the rules registered by it are kept.** -/
theorem after (h : book.Holds made) (history : List (Registration H)) :
    (book.after history).2.Holds (made ++ (book.after history).1) := by
  induction history generalizing book made with
  | nil =>
      rw [RuleBook.after, List.append_nil]
      exact h
  | cons x rest ih =>
      have hrest := ih (h.registerAll x.entries)
      rw [after_cons, ← List.append_assoc]
      exact hrest

end Holds

/-! ### Registrations that fail -/

/-- What the rules registered by several registrations come from. -/
theorem exists_entry {entries : Mapping (Offer H)} {made : Rule H × RuleBook H}
    (h : made ∈ (book.registerAll entries).1) :
    ∃ e ∈ entries, ∃ earlier : RuleBook H, earlier.defaultMode = book.defaultMode ∧
      earlier.rule e.1 e.2 = .ok made.1 := by
  induction entries generalizing book with
  | nil => cases h
  | cons e rest ih =>
      obtain ⟨source, offer⟩ := e
      rw [registerAll, register] at h
      cases hr : book.rule source offer with
      | error flaw =>
          rw [hr] at h
          cases h
      | ok r =>
          rw [hr] at h
          rcases List.mem_cons.mp h with rfl | h
          · exact ⟨(source, offer), List.mem_cons_self, book, rfl, hr⟩
          · obtain ⟨e, hmem, earlier, hmode, hrule⟩ := ih h
            exact ⟨e, List.mem_cons_of_mem _ hmem, earlier, hmode, hrule⟩

/-- The mode of rules that name none stays. -/
theorem defaultMode_registerAll (book : RuleBook H) (entries : Mapping (Offer H)) :
    (book.registerAll entries).2.1.defaultMode = book.defaultMode := by
  induction entries generalizing book with
  | nil => rfl
  | cons e rest ih =>
      obtain ⟨source, offer⟩ := e
      rw [registerAll, register]
      cases book.rule source offer with
      | error flaw => rfl
      | ok r => exact ih (book.add r)

/-- What the rules registered by a history come from. -/
theorem exists_entry_after {history : List (Registration H)} {r : Rule H}
    (h : r ∈ (book.after history).1) :
    ∃ x ∈ history, ∃ e ∈ x.entries, ∃ earlier : RuleBook H,
      earlier.defaultMode = book.defaultMode ∧ earlier.rule e.1 e.2 = .ok r := by
  induction history generalizing book with
  | nil => cases h
  | cons x rest ih =>
      rw [after_cons] at h
      rcases List.mem_append.mp h with h | h
      · obtain ⟨made, hmade, rfl⟩ := List.mem_map.mp h
        obtain ⟨e, hmem, hearlier⟩ := exists_entry hmade
        exact ⟨x, List.mem_cons_self, e, hmem, hearlier⟩
      · obtain ⟨y, hy, e, hmem, earlier, hmode, hrule⟩ := ih h
        exact ⟨y, List.mem_cons_of_mem x hy, e, hmem, earlier,
          hmode.trans (book.defaultMode_registerAll x.entries), hrule⟩

/-- A rule has the handlers of its handling, and its mode where it names one. -/
theorem exists_handling {source : Value} {offer : Offer H} {r : Rule H}
    (h : book.rule source offer = .ok r) :
    ∃ s, offer.read = .ok s ∧ r.onOpen = s.onOpen ∧ r.onClose = s.onClose ∧
      r.mode = s.mode.getD book.defaultMode := by
  unfold rule at h
  split at h
  · cases h
  · split at h
    · cases h
    next s hs =>
      cases h
      exact ⟨s, hs, rfl, rfl, rfl⟩

/-- **Several registrations of which one fails are those in front of it.** -/
theorem registerAll_fails {entries : Mapping (Offer H)} {flaw : Rule.Flaw}
    (h : (book.registerAll entries).2.2 = some flaw) :
    ∃ first e rest, entries = first ++ e :: rest ∧
      book.registerAll first =
        ((book.registerAll entries).1, (book.registerAll entries).2.1, none) ∧
      (book.registerAll entries).1.length = first.length ∧
      (book.registerAll entries).2.1.register e.1 e.2 = .error flaw := by
  induction entries generalizing book with
  | nil => cases h
  | cons e rest ih =>
      obtain ⟨source, offer⟩ := e
      rw [registerAll] at h ⊢
      cases hr : book.register source offer with
      | error failed =>
          rw [hr] at h
          cases h
          exact ⟨[], (source, offer), rest, rfl, rfl, rfl, hr⟩
      | ok made =>
          obtain ⟨r, next⟩ := made
          rw [hr] at h
          obtain ⟨first, e, later, rfl, hfirst, hlength, hfails⟩ := ih h
          refine ⟨(source, offer) :: first, e, later, rfl, ?_, congrArg (· + 1) hlength, hfails⟩
          rw [registerAll, hr]
          dsimp only
          rw [hfirst]

/-- A pattern that cannot be read is reported whatever comes with it. -/
theorem register_reports {source : Value} {reason : Pattern.Flaw}
    (h : Pattern.ofValue source book.next = .error reason) (offer : Offer H) :
    book.register source offer = .error (.pattern source reason) := by
  rw [register, rule, h]

end RuleBook

/-! ### Orders in which rules come -/

/-- How specific a rule is, its place in the order of registration aside: the numbers by which ranks
are compared but for the last one. -/
def Rule.standing (r : Rule H) : List Int :=
  [-(r.pattern.literals : Int), -(r.pattern.wildcards : Int), if r.pattern.rooted then 0 else 1]

/-- Of two rules the one of lower standing comes first, and of one standing the earlier one. -/
theorem Rule.before_iff {r r' : Rule H} :
    r.pattern.rank.before r'.pattern.rank = true ↔
      r.standing < r'.standing ∨
        r.standing = r'.standing ∧ r.pattern.sequence < r'.pattern.sequence := by
  rw [Rank.before_iff_lt]
  simp only [Pattern.rank, Rank.key, standing, List.cons_lt_cons_iff, List.cons.injEq,
    List.not_lt_nil]
  tauto

/-- The second rules are the first ones in another order, in which those of one standing come in the
same order. Their places in the order of registration are left out of account. -/
structure Rearranged (rs rs' : List (Rule H)) : Prop where
  /-- They are the same rules. -/
  perm : (rs.map Rule.unnumbered).Perm (rs'.map Rule.unnumbered)
  /-- Those of one standing come in the same order. -/
  ties : ∀ k, (rs.filter (fun r => r.standing = k)).map Rule.unnumbered =
    (rs'.filter (fun r => r.standing = k)).map Rule.unnumbered

/-- Two lists with the same entries of each key have the same entries. -/
theorem mem_iff_of_filter_eq {α κ : Type} [DecidableEq κ] {key : α → κ} {xs ys : List α}
    (h : ∀ k, xs.filter (fun a => key a = k) = ys.filter (fun a => key a = k)) (a : α) :
    a ∈ xs ↔ a ∈ ys := by
  have hfilter := congrArg (a ∈ ·) (h (key a))
  simpa using hfilter

/-- Two lists in order of a key are the same where their entries of each key are, in order. -/
theorem eq_of_filter_eq {α κ : Type} [PartialOrder κ] [DecidableEq κ] {key : α → κ} {xs ys : List α}
    (hxs : xs.Pairwise fun a b => key a ≤ key b) (hys : ys.Pairwise fun a b => key a ≤ key b)
    (h : ∀ k, xs.filter (fun a => key a = k) = ys.filter (fun a => key a = k)) : xs = ys := by
  induction xs generalizing ys with
  | nil =>
      refine (List.eq_nil_iff_forall_not_mem.mpr fun a ha => ?_).symm
      exact List.not_mem_nil ((mem_iff_of_filter_eq h a).mpr ha)
  | cons x xs ih =>
      obtain ⟨hfirst, hrest⟩ := List.pairwise_cons.mp hxs
      cases ys with
      | nil =>
          exact absurd ((mem_iff_of_filter_eq h x).mp List.mem_cons_self) List.not_mem_nil
      | cons y ys =>
          obtain ⟨hfirst', hrest'⟩ := List.pairwise_cons.mp hys
          -- each of the first two entries is in the other list, and so not in front of the other
          have hle : key x ≤ key y := by
            rcases List.mem_cons.mp ((mem_iff_of_filter_eq h y).mpr List.mem_cons_self) with
              heq | hmem
            · exact heq ▸ le_rfl
            · exact hfirst y hmem
          have hge : key y ≤ key x := by
            rcases List.mem_cons.mp ((mem_iff_of_filter_eq h x).mp List.mem_cons_self) with
              heq | hmem
            · exact heq ▸ le_rfl
            · exact hfirst' x hmem
          have hhead := h (key x)
          rw [List.filter_cons_of_pos (by simp),
            List.filter_cons_of_pos (by simpa using le_antisymm hge hle)] at hhead
          obtain ⟨rfl, -⟩ := List.cons.inj hhead
          refine congrArg _ (ih hrest hrest' fun k => ?_)
          have hk := h k
          rw [List.filter_cons, List.filter_cons] at hk
          split at hk
          · exact (List.cons.inj hk).2
          · exact hk

namespace RuleBook.Holds

variable {book book' : RuleBook H} {made made' : List (Rule H)}

/-- **Rules of one standing are kept in the order in which they came.** -/
theorem filter_standing (h : book.Holds made) (k : List Int) :
    book.rules.filter (fun r => r.standing = k) = made.filter (fun r => r.standing = k) := by
  have hperm := h.perm.filter fun r => decide (r.standing = k)
  have hkept : (book.rules.filter fun r => r.standing = k).Pairwise
      fun r r' => r.pattern.sequence < r'.pattern.sequence := by
    refine (h.ordered.ranked.filter _).imp_of_mem fun {a b} ha hb hbefore => ?_
    have hsame : a.standing = b.standing := by
      rw [of_decide_eq_true (List.mem_filter.mp ha).2, of_decide_eq_true (List.mem_filter.mp hb).2]
    exact ((Rule.before_iff.mp hbefore).resolve_left (hsame ▸ lt_irrefl _)).2
  have hcame : (made.filter fun r => r.standing = k).Pairwise
      fun r r' => r.pattern.sequence < r'.pattern.sequence := by
    have hrange : ((List.range book.next).map Int.ofNat).Pairwise (· < ·) :=
      List.pairwise_map.mpr (List.pairwise_lt_range.imp fun hlt => Int.ofNat_lt.mpr hlt)
    rw [← h.numbered] at hrange
    exact (List.pairwise_map.mp hrange).filter _
  refine List.Perm.eq_of_pairwise ?_ hkept hcame hperm
  intro a b _ _ hab hba
  exact absurd hab (lt_asymm hba)

/-- **The order of a book shows in which order rules of one standing came**, and nothing more. -/
theorem rules_eq_iff (h : book.Holds made) (h' : book'.Holds made') :
    book.rules.map Rule.unnumbered = book'.rules.map Rule.unnumbered ↔ Rearranged made made' := by
  have hfilter : ∀ (rules : List (Rule H)) (k : List Int),
      (rules.map Rule.unnumbered).filter (fun r => r.standing = k) =
        (rules.filter (fun r => r.standing = k)).map Rule.unnumbered := by
    intro rules k
    rw [List.filter_map]
    rfl
  have hsorted : ∀ {book : RuleBook H}, book.Ordered →
      (book.rules.map Rule.unnumbered).Pairwise fun a b => a.standing ≤ b.standing := by
    intro book hbook
    refine List.pairwise_map.mpr (hbook.ranked.imp fun hbefore => ?_)
    rcases Rule.before_iff.mp hbefore with hlt | ⟨heq, -⟩
    · exact hlt.le
    · exact heq.le
  constructor
  · intro heq
    refine ⟨?_, fun k => ?_⟩
    · exact ((h.perm.map _).symm.trans (heq ▸ .refl _)).trans (h'.perm.map _)
    · rw [← h.filter_standing, ← h'.filter_standing, ← hfilter, ← hfilter, heq]
  · intro harranged
    refine eq_of_filter_eq (hsorted h.ordered) (hsorted h'.ordered) fun k => ?_
    rw [hfilter, hfilter, h.filter_standing, h'.filter_standing, harranged.ties k]

end RuleBook.Holds

/-! ### Whole histories -/

namespace RuleBook

/-- **A book keeps what was registered, in order of rank** (`register` and `register_many`). Behind
any history its rules are in strict order of rank, and they are the rules that were registered,
numbered from zero on in the order in which they came. Each has a handler, and its mode where it
names one. A registration that fails leaves nothing behind, and what it reports first is a pattern
that cannot be read; of several registrations up to one that fails those in front of it remain.
Which order the rules came in shows only among those of one standing. -/
theorem history_kept (mode : TextMode) (history : List (Registration H))
    (hmade : ∀ x ∈ history, ∀ e ∈ x.entries, e.2.Made) :
    let made := ((empty mode : RuleBook H).after history).1
    let book := ((empty mode : RuleBook H).after history).2
    (book.rules.Pairwise fun a b => a.pattern.rank.key < b.pattern.rank.key) ∧
      book.rules.Perm made ∧
      made.map (fun r => r.pattern.sequence) = (List.range made.length).map Int.ofNat ∧
      book.next = made.length ∧
      (∀ r ∈ book.rules, (r.onOpen.isSome = true ∨ r.onClose.isSome = true) ∧
        ∃ x ∈ history, ∃ e ∈ x.entries, ∃ s, e.2.read = .ok s ∧ r.mode = s.mode.getD mode) ∧
      (∀ source offer flaw, book.register source offer = .error flaw →
        (∀ reason, Pattern.ofValue source book.next = .error reason →
          flaw = .pattern source reason) ∧
        ∀ later, book.after (.one source offer :: later) = book.after later) ∧
      (∀ entries flaw, (book.registerAll entries).2.2 = some flaw →
        ∃ first e rest, entries = first ++ e :: rest ∧
          (book.registerAll entries).1.length = first.length ∧
          (book.registerAll first).2.2 = none ∧
          (book.registerAll first).2.1.register e.1 e.2 = .error flaw ∧
          ∀ later, book.after (.several entries :: later) = book.after (.several first :: later)) ∧
      ∀ (mode' : TextMode) (history' : List (Registration H)),
        let made' := ((empty mode' : RuleBook H).after history').1
        let book' := ((empty mode' : RuleBook H).after history').2
        book.rules.map Rule.unnumbered = book'.rules.map Rule.unnumbered ↔
          Rearranged made made' := by
  intro made book
  have hholds : book.Holds made := (Holds.empty mode).after history
  refine ⟨?_, hholds.perm, ?_, hholds.next_eq, fun r hr => ?_, fun source offer flaw hflaw => ?_,
    fun entries flaw hflaw => ?_, fun mode' history' => ?_⟩
  · exact hholds.ordered.ranked.imp Rank.before_iff_lt.mp
  · rw [hholds.numbered, hholds.next_eq]
  · obtain ⟨x, hx, e, he, earlier, hmode, hrule⟩ :=
      exists_entry_after (hholds.perm.mem_iff.mp hr)
    obtain ⟨s, hs, honOpen, honClose, hresolved⟩ := exists_handling hrule
    refine ⟨?_, x, hx, e, he, s, hs, hresolved.trans (congrArg _ hmode)⟩
    rw [honOpen, honClose]
    exact (hmade x hx e he).handled hs
  · refine ⟨fun reason hreason => ?_, fun later => ?_⟩
    · rw [register_reports hreason] at hflaw
      exact (Except.error.inj hflaw).symm
    · rw [after_cons, Registration.entries, registerAll, hflaw]
      rfl
  · obtain ⟨first, e, rest, hentries, hfirst, hlength, hfails⟩ := registerAll_fails hflaw
    refine ⟨first, e, rest, hentries, hlength, ?_, ?_, fun later => ?_⟩
    · rw [hfirst]
    · rw [hfirst]
      exact hfails
    · rw [after_cons, after_cons, Registration.entries, Registration.entries, hfirst]
  · exact hholds.rules_eq_iff ((Holds.empty mode').after history')

/-- A history in which a single registration fails, and the last of several. -/
def messyHistory : List (Registration Unit) :=
  [.one (.text "item") (.handling ⟨none, some (), some .keep⟩), .one (.text "/") (.other .null),
    .several [(.text "/list/item", .options [(.text "open_handler", .handler ())]),
      (.text "*", .other .null)]]

/-- Behind this history there are two rules, the second one that came in front. It does not matter
that they came in this order, since one is more specific. -/
theorem history_kept_messyHistory :
    let book := ((empty .trim : RuleBook Unit).after messyHistory).2
    (∀ x ∈ messyHistory, ∀ e ∈ x.entries, e.2.Made) ∧
      book.rules.map (fun r => (r.pattern.source, r.pattern.sequence)) =
        [("/list/item", 1), ("item", 0)] ∧
      (book.rules.Pairwise fun a b => a.pattern.rank.key < b.pattern.rank.key) ∧
      (∀ r ∈ book.rules, r.onOpen.isSome = true ∨ r.onClose.isSome = true) ∧
      book.register (.text "/") (.other .null) = .error (.pattern (.text "/") .noSegments) ∧
      book.after [.one (.text "/") (.other .null)] = book.after [] ∧
      (∃ first e rest, messyHistory.flatMap Registration.entries = first ++ e :: rest ∧
        (book.registerAll first).2.2 = none ∧
        (book.registerAll first).2.1.register e.1 e.2 =
          .error (.pattern (.text "/") .noSegments)) ∧
      Rearranged ((empty .trim : RuleBook Unit).after messyHistory).1
        ((empty .trim : RuleBook Unit).after messyHistory.reverse).1 := by
  intro book
  have hmade : ∀ x ∈ messyHistory, ∀ e ∈ x.entries, e.2.Made := by
    simp only [messyHistory, Registration.entries, List.forall_mem_cons]
    exact ⟨⟨⟨[(.text "close_handler", .handler ()), (.text "whitespace", .value (.mode .keep))],
      rfl⟩, nofun⟩, ⟨trivial, nofun⟩, ⟨trivial, trivial, nofun⟩, nofun⟩
  obtain ⟨hranked, -, -, -, hhandled, hone, hseveral, horder⟩ :=
    history_kept .trim messyHistory hmade
  have hflaw : book.register (.text "/") (.other .null) =
      .error (.pattern (.text "/") .noSegments) := rfl
  obtain ⟨first, e, rest, hentries, -, hfirst, hfails, -⟩ :=
    hseveral (messyHistory.flatMap Registration.entries) (.pattern (.text "/") .noSegments) rfl
  exact ⟨hmade, rfl, hranked, fun r hr => (hhandled r hr).1, hflaw,
    (hone _ _ _ hflaw).2 [], ⟨first, e, rest, hentries, hfirst, hfails⟩,
    (horder .trim messyHistory.reverse).mp rfl⟩

end RuleBook

end MarkupRouting
