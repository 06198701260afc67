import MarkupRouting.Proofs.Pattern.Grammar
import MarkupRouting.Proofs.Rule.Order
import MarkupRouting.Proofs.Routing.Forest

/-!
# Rules among other rules

Some of the rules of a book are registered by somebody who does not know of the others. Their places
in the order of registration are other ones than they would be without the others; nothing else is.

* **Rule.unnumbered** — a rule without its place in the order of registration.
* **RuleBook.filter_insert**, **map_insert** — a rule is put among some of the rules as it is put
  among all of them; places do not matter for it as long as it is the last one to come.
* **RuleBook.Apart** — the rules of one book among those of another one.
* **RuleBook.registerAll_apart** — rules are registered among others as they are alone.
* **RuleBook.Apart.selecting**, **Apart.modeAt_of_open**, **Apart.modeAt_of_one** — which rules
  select an element, and which mode is given to it.
-/

namespace MarkupRouting

variable {H : Type}

/-! ### Places in the order of registration -/

/-- Of two ranks with the later one in front it does not matter how far apart they are. -/
theorem Rank.before_later {a b : Rank} (h : b.sequence < a.sequence) :
    a.before b = ({ a with sequence := 1 } : Rank).before { b with sequence := 0 } := by
  have hle : ¬ a.sequence < b.sequence := by omega
  simp [before, key, keyBefore, hle]

/-- A rule without its place in the order of registration. -/
def Rule.unnumbered (r : Rule H) : Rule H := { r with pattern := { r.pattern with sequence := 0 } }

namespace Rule

variable {r r' : Rule H}

/-- Rules that are the same but for their places select the same. -/
theorem matchesPath_eq (h : r.unnumbered = r'.unnumbered) (path : List String) :
    r.pattern.matchesPath path = r'.pattern.matchesPath path :=
  (congrArg (fun r : Rule H => r.pattern.matchesPath path) h :)

/-- Of two rules the later one comes first where its pattern is more specific. That does not depend
on the places. -/
theorem before_eq {other other' : Rule H} (hr : r.unnumbered = r'.unnumbered)
    (hother : other.unnumbered = other'.unnumbered)
    (hlast : other.pattern.sequence < r.pattern.sequence)
    (hlast' : other'.pattern.sequence < r'.pattern.sequence) :
    r.pattern.rank.before other.pattern.rank = r'.pattern.rank.before other'.pattern.rank := by
  have hranks : ∀ {p q : Rule H} (sequence : Int), p.unnumbered = q.unnumbered →
      ({ p.pattern.rank with sequence } : Rank) = { q.pattern.rank with sequence } :=
    fun sequence h => (congrArg (fun r : Rule H => { r.pattern.rank with sequence }) h :)
  have hlater := Rank.before_later (a := r.pattern.rank) (b := other.pattern.rank) hlast
  have hlater' := Rank.before_later (a := r'.pattern.rank) (b := other'.pattern.rank) hlast'
  rw [hlater, hlater', hranks 1 hr, hranks 0 hother]

end Rule

namespace RuleBook

/-! ### One rule more -/

/-- Among some of the rules a rule is put where it is put among all of them. -/
theorem filter_insert {r : Rule H} {rules : List (Rule H)} (p : Rule H → Bool)
    (h : rules.Pairwise fun a b => a.pattern.rank.before b.pattern.rank = true) :
    (insert r rules).filter p =
      if p r then insert r (rules.filter p) else rules.filter p := by
  induction rules with
  | nil => cases hp : p r <;> simp [insert, hp]
  | cons other rest ih =>
      obtain ⟨hother, hrest⟩ := List.pairwise_cons.mp h
      rw [insert]
      split
      next hbefore =>
        -- what the rule comes before comes before all that stand behind it
        have hfirst : ∀ rules : List (Rule H),
            (∀ x ∈ rules, r.pattern.rank.before x.pattern.rank = true) →
              insert r rules = r :: rules := by
          intro rules hall
          cases rules with
          | nil => rfl
          | cons x rules => rw [insert, if_pos (hall x List.mem_cons_self)]
        rw [List.filter_cons]
        split
        · refine (hfirst _ fun x hx => ?_).symm
          rcases List.mem_cons.mp (List.mem_filter.mp hx).1 with rfl | hx
          · exact hbefore
          · exact Rank.before_trans hbefore (hother x hx)
        · rfl
      next hbefore =>
        rw [List.filter_cons, List.filter_cons, ih hrest]
        split
        · split
          · rw [insert, if_neg hbefore]
          · rfl
        · rfl

/-- Places do not matter for where the last rule to come is put. -/
theorem map_insert {r r' : Rule H} {rules rules' : List (Rule H)}
    (hr : r.unnumbered = r'.unnumbered)
    (hrules : rules.map Rule.unnumbered = rules'.map Rule.unnumbered)
    (hlast : ∀ x ∈ rules, x.pattern.sequence < r.pattern.sequence)
    (hlast' : ∀ x ∈ rules', x.pattern.sequence < r'.pattern.sequence) :
    (insert r rules).map Rule.unnumbered = (insert r' rules').map Rule.unnumbered := by
  induction rules generalizing rules' with
  | nil =>
      rw [List.map_nil, eq_comm, List.map_eq_nil_iff] at hrules
      subst hrules
      simp only [insert, List.map_cons, List.map_nil, hr]
  | cons other rest ih =>
      rw [List.map_cons, eq_comm, List.map_eq_cons_iff] at hrules
      obtain ⟨other', rest', rfl, hother, hrest⟩ := hrules
      obtain ⟨hlater, hlast⟩ := List.forall_mem_cons.mp hlast
      obtain ⟨hlater', hlast'⟩ := List.forall_mem_cons.mp hlast'
      rw [insert, insert, Rule.before_eq hr hother.symm hlater hlater']
      split
      · simp only [List.map_cons, hr, hother, hrest]
      · rw [List.map_cons, List.map_cons, hother, ih hrest.symm hlast hlast']

/-- What is registered is the same rule in any book with the same mode, but for its place. -/
theorem rule_unnumbered {book book' : RuleBook H} (hmode : book'.defaultMode = book.defaultMode)
    {source : Value} {offer : Offer H} {r : Rule H} (h : book.rule source offer = .ok r) :
    ∃ r', book'.rule source offer = .ok r' ∧ r.unnumbered = r'.unnumbered := by
  unfold rule at h ⊢
  cases hpattern : Pattern.ofValue source book.next with
  | error flaw =>
      rw [hpattern] at h
      cases h
  | ok p =>
      have hpattern' : Pattern.ofValue source book'.next =
          .ok { p with sequence := book'.next } := by
        cases source with
        | text source =>
            rw [Pattern.ofValue, Pattern.read_eq] at hpattern ⊢
            split_ifs at hpattern ⊢
            cases hsteps : Pattern.readSegments _ with
            | error flaw =>
                rw [hsteps] at hpattern
                cases hpattern
            | ok steps =>
                rw [hsteps] at hpattern
                cases hpattern
                rfl
        | _ => cases hpattern
      rw [hpattern] at h
      rw [hpattern']
      dsimp only at h ⊢
      cases hhandling : offer.read with
      | error flaw =>
          rw [hhandling] at h
          cases h
      | ok handling =>
          rw [hhandling] at h
          cases h
          rw [hmode]
          exact ⟨_, rfl, rfl⟩

/-! ### Books -/

/-- The rules of the second book are those of the first one for which somebody stands in, but for
their places. -/
structure Apart (ours : Rule H → Bool) (book book' : RuleBook H) : Prop where
  /-- The rules. -/
  rules_eq : (book.rules.filter ours).map Rule.unnumbered = book'.rules.map Rule.unnumbered
  /-- The mode of rules that name none. -/
  mode_eq : book'.defaultMode = book.defaultMode
  /-- The first book is in order. -/
  ordered : book.Ordered
  /-- So is the second one. -/
  ordered' : book'.Ordered

/-- The rule is one of those that are marked among everything that was registered. -/
def marked (offers : List (Bool × Value × Offer H)) (r : Rule H) : Bool :=
  offers[r.pattern.sequence.toNat]?.any Prod.fst

variable {book book' : RuleBook H} {ours : Rule H → Bool}

/-- One of the others more makes no difference. -/
theorem Apart.add_other (h : Apart ours book book') {r : Rule H}
    (hr : r.pattern.sequence = book.next) (hours : ours r = false) :
    Apart ours (book.add r) book' where
  rules_eq := by
    have hrules : (book.add r).rules = insert r book.rules := rfl
    rw [hrules, filter_insert ours h.ordered.ranked, hours, if_neg (by decide), h.rules_eq]
  mode_eq := h.mode_eq
  ordered := h.ordered.add hr
  ordered' := h.ordered'

/-- One of the rules more is one more in both books. -/
theorem Apart.add (h : Apart ours book book') {r r' : Rule H}
    (hr : r.pattern.sequence = book.next) (hr' : r'.pattern.sequence = book'.next)
    (hsame : r.unnumbered = r'.unnumbered) (hours : ours r = true) :
    Apart ours (book.add r) (book'.add r') where
  rules_eq := by
    have hrules : (book.add r).rules = insert r book.rules := rfl
    have hrules' : (book'.add r').rules = insert r' book'.rules := rfl
    rw [hrules, hrules', filter_insert ours h.ordered.ranked, if_pos hours]
    refine map_insert hsame h.rules_eq (fun x hx => ?_) fun x hx => ?_
    · have hlt := h.ordered.earlier x (List.mem_filter.mp hx).1
      omega
    · have hlt := h.ordered'.earlier x hx
      omega
  mode_eq := h.mode_eq
  ordered := h.ordered.add hr
  ordered' := h.ordered'.add hr'

/-- **Rules are registered among others as they are alone.** -/
theorem registerAll_apart {offers : List (Bool × Value × Offer H)}
    (h : Apart (marked offers) book book') (rest : List (Bool × Value × Offer H))
    (hrest : offers.drop book.next = rest)
    (hall : (book.registerAll (rest.map Prod.snd)).2.2 = none) :
    (book'.registerAll ((rest.filter Prod.fst).map Prod.snd)).2.2 = none ∧
      Apart (marked offers) (book.registerAll (rest.map Prod.snd)).2.1
        (book'.registerAll ((rest.filter Prod.fst).map Prod.snd)).2.1 := by
  induction rest generalizing book book' with
  | nil => exact ⟨rfl, h⟩
  | cons offered rest ih =>
      obtain ⟨mine, source, offer⟩ := offered
      rw [List.map_cons, registerAll, register] at hall ⊢
      cases hr : book.rule source offer with
      | error flaw =>
          rw [hr] at hall
          cases hall
      | ok r =>
          rw [hr] at hall
          have hplace := sequence_of_rule hr
          have hmarked : marked offers r = mine := by
            have hhead : offers[book.next]? = some (mine, source, offer) := by
              rw [← List.head?_drop, hrest]
              rfl
            rw [marked, hplace, Int.toNat_natCast, hhead]
            rfl
          have hnext : offers.drop (book.add r).next = rest := by
            have hdrop : offers.drop (book.next + 1) = (offers.drop book.next).tail :=
              List.tail_drop.symm
            have hsucc : (book.add r).next = book.next + 1 := rfl
            rw [hsucc, hdrop, hrest, List.tail_cons]
          cases mine with
          | false =>
              rw [List.filter_cons_of_neg (by simp)]
              exact ih (h.add_other hplace hmarked) hnext hall
          | true =>
              obtain ⟨r', hr', hsame⟩ := rule_unnumbered h.mode_eq hr
              rw [List.filter_cons_of_pos rfl, List.map_cons, registerAll, register, hr']
              exact ih (h.add hplace (sequence_of_rule hr') hsame hmarked) hnext hall

/-! ### Elements -/

/-- What is the same for rules but for their places holds of the rules of one book and of those that
it has among others. -/
theorem Apart.filter (h : Apart ours book book') {p : Rule H → Bool}
    (hp : ∀ r : Rule H, p r.unnumbered = p r) :
    ((book.rules.filter p).filter ours).map Rule.unnumbered =
      (book'.rules.filter p).map Rule.unnumbered := by
  have hmap : ∀ rules : List (Rule H), (rules.filter p).map Rule.unnumbered =
      (rules.map Rule.unnumbered).filter p := by
    intro rules
    rw [List.filter_map]
    refine congrArg _ (List.filter_congr fun r _ => (hp r).symm)
  rw [List.filter_comm, hmap, h.rules_eq, hmap]

/-- The rules that select an element are among all that do. -/
theorem Apart.selecting (h : Apart ours book book') (path : List String) :
    ((book.selecting path).filter ours).map Rule.unnumbered =
      (book'.selecting path).map Rule.unnumbered :=
  h.filter fun r => Rule.matchesPath_eq (r := r.unnumbered) rfl path

/-- Where none of the other rules has a close handler, all rules whose modes act on an element are
among those of the second book. -/
theorem Apart.modeAt_of_open (h : Apart ours book book')
    (hopen : ∀ r ∈ book.rules, ours r = false → r.onClose = none) (path : List String) :
    book.modeAt path = book'.modeAt path := by
  have hwanted : ∀ path, ((book.selecting path).filter Rule.wantsNode).map Rule.unnumbered =
      ((book'.selecting path).filter Rule.wantsNode).map Rule.unnumbered := by
    intro path
    have hboth := h.filter (p := fun r => r.wantsNode && r.pattern.matchesPath path) fun r => by
      have hpath : r.unnumbered.pattern.matchesPath path = r.pattern.matchesPath path :=
        Rule.matchesPath_eq rfl path
      rw [hpath]
      rfl
    have hours :
        (book.rules.filter fun r => r.wantsNode && r.pattern.matchesPath path).filter ours =
          book.rules.filter fun r => r.wantsNode && r.pattern.matchesPath path := by
      rw [List.filter_eq_self]
      intro r hr
      obtain ⟨hmem, hp⟩ := List.mem_filter.mp hr
      by_contra hother
      have hnone := hopen r hmem (Bool.eq_false_iff.mpr hother)
      rw [Rule.wantsNode, hnone] at hp
      cases hp
    rw [hours] at hboth
    rw [RuleBook.selecting, RuleBook.selecting, List.filter_filter, List.filter_filter]
    exact hboth
  have hfold : ∀ rules : List (Rule H),
      rules.foldl (fun (mode : TextMode) r => mode.join r.mode) TextMode.keep =
        (rules.map Rule.unnumbered).foldl (fun mode r => mode.join r.mode) TextMode.keep := by
    intro rules
    rw [List.foldl_map]
    rfl
  rw [modeAt, modeAt, hfold, hfold (book'.shaping path), shaping, shaping, List.filter_flatMap,
    List.filter_flatMap, List.map_flatMap, List.map_flatMap]
  simp only [hwanted]

/-- Where all rules with close handlers have one mode it is the mode of every element that one of
them selects, and of every element inside. -/
theorem modeAt_eq_of_one {m : TextMode}
    (hone : ∀ r ∈ book.rules, r.onClose.isSome = true → r.mode = m)
    {path : List String} (hsome : book.shaping path ≠ []) : book.modeAt path = m := by
  have hall : ∀ r ∈ book.shaping path, r.mode = m := by
    intro r hr
    obtain ⟨hr, hwants⟩ := List.mem_filter.mp hr
    obtain ⟨front, -, hr⟩ := List.mem_flatMap.mp hr
    exact hone r (List.mem_filter.mp hr).1 hwants
  have hfold : ∀ (rules : List (Rule H)) (mode : TextMode), mode.join m = m →
      (∀ r ∈ rules, r.mode = m) → rules ≠ [] →
        rules.foldl (fun mode r => mode.join r.mode) mode = m := by
    intro rules
    induction rules with
    | nil => exact fun _ _ _ hne => absurd rfl hne
    | cons r rest ih =>
        intro mode hmode hall _
        obtain ⟨hr, hrest⟩ := List.forall_mem_cons.mp hall
        rw [List.foldl_cons, hr, hmode]
        cases rest with
        | nil => rfl
        | cons other rest =>
            refine ih m ?_ hrest (List.cons_ne_nil _ _)
            cases m <;> rfl
  exact hfold _ _ (TextMode.keep_join m) hall hsome

/-- What acts on an element acts on every element inside. -/
theorem shaping_append_ne_nil {path : List String} (h : book.shaping path ≠ [])
    (more : List String) : book.shaping (path ++ more) ≠ [] := by
  obtain ⟨r, hr⟩ := List.exists_mem_of_ne_nil _ h
  obtain ⟨hr, hwants⟩ := List.mem_filter.mp hr
  obtain ⟨front, hfront, hselects⟩ := List.mem_flatMap.mp hr
  have hprefix : front ∈ (path ++ more).inits :=
    (List.mem_inits _ _).mpr (((List.mem_inits _ _).mp hfront).trans (List.prefix_append _ _))
  exact List.ne_nil_of_mem
    (List.mem_filter.mpr ⟨List.mem_flatMap.mpr ⟨front, hprefix, hselects⟩, hwants⟩)

/-- Every rule of the second book is one of the first book. -/
theorem Apart.exists_rule (h : Apart ours book book') {r' : Rule H} (hr' : r' ∈ book'.rules) :
    ∃ r ∈ book.rules, r.unnumbered = r'.unnumbered := by
  have hmem := List.mem_map_of_mem (f := Rule.unnumbered) hr'
  rw [← h.rules_eq] at hmem
  obtain ⟨r, hr, hsame⟩ := List.mem_map.mp hmem
  exact ⟨r, (List.mem_filter.mp hr).1, hsame⟩

/-- Where all rules with close handlers have one mode, the other ones add nothing to what acts on an
element that is built without them. -/
theorem Apart.modeAt_of_one (h : Apart ours book book') {m : TextMode}
    (hone : ∀ r ∈ book.rules, r.onClose.isSome = true → r.mode = m) {path : List String}
    (hsome : book'.shaping path ≠ []) : book.modeAt path = book'.modeAt path := by
  have hone' : ∀ r' ∈ book'.rules, r'.onClose.isSome = true → r'.mode = m := by
    intro r' hr' hcloses
    obtain ⟨r, hr, hsame⟩ := h.exists_rule hr'
    have hmode : r.mode = r'.mode := (congrArg Rule.mode hsame :)
    have honClose : r.onClose = r'.onClose := (congrArg Rule.onClose hsame :)
    rw [← hmode, hone r hr (honClose ▸ hcloses)]
  have hsome' : book.shaping path ≠ [] := by
    obtain ⟨r', hr'⟩ := List.exists_mem_of_ne_nil _ hsome
    obtain ⟨hr', hwants⟩ := List.mem_filter.mp hr'
    obtain ⟨front, hfront, hr'⟩ := List.mem_flatMap.mp hr'
    obtain ⟨hr', hselects⟩ := List.mem_filter.mp hr'
    obtain ⟨r, hr, hsame⟩ := h.exists_rule hr'
    have honClose : r.onClose = r'.onClose := (congrArg Rule.onClose hsame :)
    have hselected : r ∈ book.selecting front :=
      List.mem_filter.mpr ⟨hr, (Rule.matchesPath_eq hsame front).trans hselects⟩
    refine List.ne_nil_of_mem
      (List.mem_filter.mpr ⟨List.mem_flatMap.mpr ⟨front, hfront, hselected⟩, ?_⟩)
    rw [Rule.wantsNode, honClose]
    exact hwants
  rw [modeAt_eq_of_one hone hsome', modeAt_eq_of_one hone' hsome]

/-- What selects an element and has a close handler acts on it. -/
theorem shaping_ne_nil {path : List String}
    (h : ∃ r ∈ book.selecting path, r.onClose.isSome = true) : book.shaping path ≠ [] := by
  obtain ⟨r, hr, hcloses⟩ := h
  have hself : path ∈ path.inits := (List.mem_inits _ _).mpr (List.prefix_refl path)
  exact List.ne_nil_of_mem
    (List.mem_filter.mpr ⟨List.mem_flatMap.mpr ⟨path, hself, hr⟩, hcloses⟩)

end RuleBook

end MarkupRouting
