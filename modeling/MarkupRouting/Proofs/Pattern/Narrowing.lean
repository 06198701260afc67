import MarkupRouting.Proofs.Lists
import MarkupRouting.Proofs.Pattern.Joining
import MarkupRouting.Proofs.Rule.Order

/-!
# Patterns made narrower

A pattern that asks for more selects less, and its rank is the more specific one, wherever in the
order of registration the two stand.

* **Pattern.Narrower** — the first pattern selects no more than the second one and is more specific.
* **exists_any_of_star**, **exists_steps_of_separator** — the steps around a star and around a
  single separator in the text of a pattern.
* **narrower_of_child**, **exists_narrower_of_rooted**, **narrower_of_named** — a step more in
  front, the root in front, and a name for a star.
* **exists_wider_of_gap** — a doubled separator for a single one.
-/

namespace MarkupRouting

namespace Pattern

/-- The first pattern selects no more than the second one, and its rank comes first whatever the
places of the two in the order of registration. -/
structure Narrower (q p : Pattern) : Prop where
  /-- What the first pattern selects the second one selects. -/
  selects : ∀ path, q.matchesPath path = true → p.matchesPath path = true
  /-- The first pattern is more specific. -/
  before : ∀ m n : Int,
    ({ q.rank with sequence := m } : Rank).before { p.rank with sequence := n } = true

variable {p q : Pattern} {front back segments : List Step} {anchored : Bool}

/-! ### Places in the text of steps -/

/-- The text of a step with the separator that it takes. -/
def piece (behind : Bool) (s : Step) : List Char :=
  if s.isDeep then ['/', '/'] else if behind then '/' :: s.text.toList else s.text.toList

/-- Steps are written one behind the other; whether a step needs a separator is told by the one in
front. -/
theorem writeSteps_cons (behind : Bool) (s : Step) (rest : List Step) :
    writeSteps behind (s :: rest) = piece behind s ++ writeSteps (!s.isDeep) rest := rfl

/-- A step that is not deep is written with a single separator or none. -/
theorem piece_of_not_deep {s : Step} (h : s.isDeep = false) (behind : Bool) :
    piece behind s = (if behind then ['/'] else []) ++ s.text.toList := by
  cases behind <;> simp [piece, h]

/-- No star stands in a name. -/
theorem star_notMem {cs : List Char} (h : Name.Word cs) : '*' ∉ cs := by
  obtain ⟨c, rest, rfl, hc, hrest⟩ := h
  have hstar : ¬ Name.Follows '*' := by
    rw [← Name.isPart_iff]
    decide
  intro hmem
  rcases List.mem_cons.mp hmem with rfl | hmem
  · exact hstar (.inl hc)
  · exact hstar (hrest _ hmem)

/-- A step with a star in its text is one element of any name, and the star is all of its text. -/
theorem piece_eq_star {s : Step} {behind : Bool} {x y : List Char}
    (hname : ∀ name, s = .element name → Name.Word name.toList)
    (h : piece behind s = x ++ '*' :: y) :
    s = .any ∧ x = (if behind then ['/'] else []) ∧ y = [] := by
  have hmem : '*' ∈ piece behind s := by rw [h]; simp
  cases s with
  | element name =>
      rw [piece_of_not_deep rfl] at hmem
      have hstar := star_notMem (hname name rfl)
      cases behind <;> simp_all [Step.text]
  | deep => exact absurd hmem (by cases behind <;> decide)
  | any =>
      have hpiece : (if behind then ['/'] else []) ++ '*' :: [] = x ++ '*' :: y :=
        (piece_of_not_deep rfl behind).symm.trans h
      obtain ⟨hx, -, hy⟩ := (List.append_cons_inj_of_notMem (by cases behind <;> decide)
        List.not_mem_nil).mp hpiece
      exact ⟨rfl, hx.symm, hy.symm⟩

/-- Every star in the text of steps is one of them, and another step can be written for it. -/
theorem exists_any_of_star {behind : Bool} {x y : List Char}
    (hnamed : ∀ name, .element name ∈ segments → Name.Word name.toList)
    (h : writeSteps behind segments = x ++ '*' :: y) :
    ∃ front back, segments = front ++ .any :: back ∧ ∀ t : Step, t.isDeep = false →
      writeSteps behind (front ++ t :: back) = x ++ (t.text.toList ++ y) := by
  induction segments generalizing behind x with
  | nil => cases x <;> cases h
  | cons s rest ih =>
      rw [writeSteps_cons] at h
      rcases append_eq_append_cons h with ⟨mid, hpiece, rfl⟩ | ⟨later, rfl, hrest⟩
      · obtain ⟨rfl, rfl, rfl⟩ :=
          piece_eq_star (fun name hs => hnamed name (hs ▸ List.mem_cons_self)) hpiece
        refine ⟨[], rest, rfl, fun t ht => ?_⟩
        rw [List.nil_append, writeSteps_cons, piece_of_not_deep ht, ht, List.append_assoc]
        rfl
      · obtain ⟨front, back, rfl, hwrite⟩ :=
          ih (fun name hmem => hnamed name (List.mem_cons_of_mem s hmem)) hrest
        refine ⟨s :: front, back, rfl, fun t ht => ?_⟩
        rw [List.cons_append, writeSteps_cons, hwrite t ht, List.append_assoc]

/-- In the text of one step no separator stands by itself with something in front of it. -/
theorem piece_ne_separator {s : Step} (hname : ∀ name, s = .element name → Name.Word name.toList)
    (behind : Bool) {x y : List Char} (hx : x ≠ []) (hlast : x.getLast? ≠ some '/') :
    piece behind s ≠ x ++ '/' :: y := by
  intro h
  obtain ⟨c, x, rfl⟩ := List.exists_cons_of_ne_nil hx
  cases hdeep : s.isDeep with
  | true =>
      obtain rfl := Step.eq_deep hdeep
      obtain ⟨rfl, hrest⟩ := List.cons.inj (h : ['/', '/'] = c :: (x ++ '/' :: y))
      cases x with
      | nil => exact hlast rfl
      | cons d x =>
          exact List.append_ne_nil_of_right_ne_nil x (List.cons_ne_nil '/' y)
            (List.cons.inj hrest).2.symm
  | false =>
      refine (readWord_of_text hdeep hname).1.separator_notMem ?_
      rw [piece_of_not_deep hdeep] at h
      cases behind with
      | true =>
          have htext : s.text.toList = x ++ '/' :: y := (List.cons.inj h).2
          rw [htext]
          simp
      | false =>
          have htext : s.text.toList = c :: (x ++ '/' :: y) := h
          rw [htext]
          simp

/-- Where a single separator stands in the text of steps with something in front of it, it stands
between two of them neither of which is deep. -/
theorem exists_steps_of_separator {behind : Bool} {x y : List Char}
    (hnamed : ∀ name, .element name ∈ segments → Name.Word name.toList)
    (h : writeSteps behind segments = x ++ '/' :: y) (hx : x ≠ [])
    (hlast : x.getLast? ≠ some '/') (hfirst : y.head? ≠ some '/') :
    ∃ front t back, segments = front ++ t :: back ∧ front ≠ [] ∧ front.getLast? ≠ some .deep ∧
      t.isDeep = false ∧ x = writeSteps behind front ∧ y = writeSteps false (t :: back) := by
  induction segments generalizing behind x with
  | nil => cases x <;> cases h
  | cons s rest ih =>
      rw [writeSteps_cons] at h
      rcases append_eq_append_cons h with ⟨mid, hpiece, rfl⟩ | ⟨later, rfl, hrest⟩
      · exact absurd hpiece
          (piece_ne_separator (fun name hs => hnamed name (hs ▸ List.mem_cons_self)) behind hx
            hlast)
      · cases later with
        | nil =>
            -- the separator is that of the next step
            rw [List.append_nil] at hlast ⊢
            have hs : s ≠ .deep := by
              rintro rfl
              exact hlast rfl
            rw [Step.isDeep_eq_false hs, List.nil_append] at hrest
            cases rest with
            | nil => cases hrest
            | cons t rest =>
                have ht : t.isDeep = false := by
                  refine Step.isDeep_eq_false ?_
                  rintro rfl
                  obtain ⟨-, rfl⟩ := List.cons.inj hrest
                  exact hfirst rfl
                rw [Bool.not_false, writeSteps_behind ht] at hrest
                obtain ⟨-, rfl⟩ := List.cons.inj hrest
                refine ⟨[s], t, rest, rfl, List.cons_ne_nil s [], ?_, ht, ?_, rfl⟩
                · exact fun hdeep => hs (Option.some.inj hdeep)
                · rw [writeSteps_cons]
                  exact (List.append_nil _).symm
        | cons c later =>
            obtain ⟨front, t, back, rfl, hne, hfront, ht, hwritten, rfl⟩ :=
              ih (fun name hmem => hnamed name (List.mem_cons_of_mem s hmem)) hrest
                (List.cons_ne_nil c later) (by simpa using hlast)
            refine ⟨s :: front, t, back, rfl, List.cons_ne_nil s front, ?_, ht, ?_, rfl⟩
            · obtain ⟨u, front, rfl⟩ := List.exists_cons_of_ne_nil hne
              simpa using hfront
            · rw [hwritten, writeSteps_cons]

/-! ### Shapes -/

/-- Steps with a name in place of one element of any name keep their shape. -/
theorem Shaped.named_for_any (h : Shaped anchored (front ++ .any :: back)) {name : String}
    (hname : Name.Word name.toList) : Shaped anchored (front ++ .element name :: back) := by
  obtain ⟨hfront, hback, -⟩ := List.isChain_append.mp h.parted
  obtain ⟨-, hback⟩ := List.isChain_cons.mp hback
  refine ⟨⟨List.isChain_append.mpr ⟨hfront, List.isChain_cons.mpr ⟨nofun, hback⟩, ?_⟩, ?_⟩, by simp,
    fun hdeep => h.led ?_⟩
  · rintro _ - _ ⟨⟩ - ⟨⟩
  · intro other hmem
    rcases List.mem_append.mp hmem with hmem | hmem
    · exact h.named other (List.mem_append_left _ hmem)
    · rcases List.mem_cons.mp hmem with heq | hmem
      · cases heq
        exact hname
      · exact h.named other (List.mem_append_right _ (List.mem_cons_of_mem _ hmem))
  · cases front with
    | nil => cases hdeep
    | cons s front => exact hdeep

/-- A deep step may come between two steps neither of which is deep. -/
theorem Shaped.deep_between {t : Step} (h : Shaped anchored (front ++ t :: back)) (hne : front ≠ [])
    (hlast : front.getLast? ≠ some .deep) (ht : t.isDeep = false) :
    Shaped anchored (front ++ .deep :: t :: back) := by
  obtain ⟨hfront, hback, -⟩ := List.isChain_append.mp h.parted
  have hdeep : ∀ u ∈ (t :: back).head?, Parted .deep u := by
    rintro _ ⟨⟩ - rfl
    cases ht
  refine ⟨⟨List.isChain_append.mpr ⟨hfront, List.isChain_cons.mpr ⟨hdeep, hback⟩, ?_⟩, ?_⟩,
    List.append_ne_nil_of_left_ne_nil hne _, fun hhead => h.led ?_⟩
  · exact fun u hu _ _ hdeep => absurd (hdeep ▸ hu) hlast
  · intro name hmem
    refine h.named name ?_
    rcases List.mem_append.mp hmem with hmem | hmem
    · exact List.mem_append_left _ hmem
    · rcases List.mem_cons.mp hmem with heq | hmem
      · cases heq
      · exact List.mem_append_right _ hmem
  · rwa [List.head?_append_of_ne_nil _ hne] at hhead ⊢

/-! ### Narrower patterns -/

/-- A pattern selects what another one selects where the steps of the two differ in one place only
and those of the other one spell no more there. -/
theorem selects_of_between (front inner outer back : List Step)
    (hq : q.steps = front ++ (inner ++ back)) (hp : p.steps = front ++ (outer ++ back))
    (h : ∀ path, Spells inner path → Spells outer path) {path : List String}
    (hpath : q.matchesPath path = true) : p.matchesPath path = true := by
  rw [selects_iff, hq] at hpath
  rw [selects_iff, hp]
  exact ⟨hpath.1, spells_between h hpath.2⟩

section Narrowing

variable {source source' : String} {m n : Int}

/-- A step in front of a pattern that is not anchored makes it narrower. -/
theorem narrower_of_step {t : Step} (ht : t.isDeep = false) :
    Narrower ⟨source', t :: segments, false, n⟩ ⟨source, segments, false, m⟩ where
  selects path := selects_of_between [] [.deep, t] [.deep] segments rfl rfl fun _ _ => spells_deep
  before k l := by
    cases t with
    | element name =>
        exact Rank.before_of_literals (by simp [rank, literals, List.countP_cons, Step.isElement])
    | any =>
        exact Rank.before_of_wildcards (by simp [rank, literals, Step.isElement])
          (by simp [rank, wildcards, List.countP_cons, Step.isAny])
    | deep => cases ht

/-- The root in front of a pattern that is not anchored makes it narrower. -/
theorem narrower_of_root (h : Shaped false segments) :
    Narrower ⟨source', segments, true, n⟩ ⟨source, segments, false, m⟩ where
  selects path := selects_of_between [] [] [.deep] segments rfl rfl fun _ _ => spells_deep
  before k l := by
    refine Rank.before_of_rooted rfl rfl ?_ rfl
    obtain ⟨s, rest, rfl⟩ := List.exists_cons_of_ne_nil h.ne_nil
    cases s with
    | deep => exact absurd rfl h.head_ne_deep
    | element name => rfl
    | any => rfl

/-- A name for a star makes a pattern narrower. -/
theorem narrower_of_name (name : String) :
    Narrower ⟨source', front ++ .element name :: back, anchored, n⟩
      ⟨source, front ++ .any :: back, anchored, m⟩ where
  selects path := by
    have hany : ∀ path, Spells [.element name] path → Spells [.any] path := by
      intro path hpath
      obtain ⟨piece, rest, rfl, hpiece, hrest⟩ := spells_cons.mp hpath
      exact spells_cons.mpr ⟨piece, rest, rfl, ⟨name, hpiece⟩, hrest⟩
    exact selects_of_between _ [.element name] [.any] back (steps_append _ "" front _ anchored _ 0)
      (steps_append _ "" front _ anchored _ 0) hany
  before k l := by
    refine Rank.before_of_literals ?_
    simp [rank, literals, List.countP_cons, Step.isElement]

/-- A pattern with a deep step more selects no less. -/
theorem selects_of_deep_between {path : List String}
    (h : (⟨source, front ++ back, anchored, m⟩ : Pattern).matchesPath path = true) :
    (⟨source', front ++ .deep :: back, anchored, n⟩ : Pattern).matchesPath path = true :=
  selects_of_between _ [] [.deep] back (steps_append _ "" front _ anchored _ 0)
    (steps_append _ "" front _ anchored _ 0) (fun _ _ => spells_deep) h

/-- It is as specific. -/
theorem rank_of_deep_between (hne : front ≠ []) :
    (⟨source', front ++ .deep :: back, anchored, n⟩ : Pattern).rank =
      { (⟨source, front ++ back, anchored, m⟩ : Pattern).rank with sequence := n } := by
  obtain ⟨s, front, rfl⟩ := List.exists_cons_of_ne_nil hne
  have hrooted : (⟨source', s :: (front ++ .deep :: back), anchored, n⟩ : Pattern).rooted =
      (⟨source, s :: (front ++ back), anchored, m⟩ : Pattern).rooted := by
    cases s <;> rfl
  simp [rank, literals, wildcards, hrooted, List.countP_cons, Step.isElement, Step.isAny]

end Narrowing

/-! ### Texts made narrower -/

/-- A segment and a separator in front of a pattern that is not anchored make it narrower. -/
theorem narrower_of_child {s v : String} {m n : Int} (hp : read v m = .ok p)
    (hfree : p.anchored = false) (hs : Segment s.toList) (hq : read (s ++ "/" ++ v) n = .ok q) :
    q.Narrower p := by
  obtain ⟨t, ht⟩ := readWord_ok_iff.mpr hs
  obtain ⟨htext, hdeep, hname⟩ := readWord_text ht
  have hv := reads_of_read hp
  obtain ⟨source, segments, anchored, sequence⟩ := p
  obtain rfl : anchored = false := hfree
  have hreads : Reads (s ++ "/" ++ v) false (t :: segments) := by
    refine ⟨⟨hv.shaped.toProper.cons ?_ hname, List.cons_ne_nil t segments, ?_⟩, ?_,
      (reads_of_read hq).ends⟩
    · rintro u - rfl
      cases hdeep
    · rintro ⟨⟩
      cases hdeep
    · rw [writeSteps_front hdeep, hv.shaped.writeSteps_true, ← hv.written, htext]
      simp
  rw [hreads.eq_of_read hq]
  exact narrower_of_step hdeep

/-- A separator in front of a pattern that is not anchored makes it narrower. -/
theorem exists_narrower_of_rooted {v : String} {m : Int} (hp : read v m = .ok p)
    (hfree : p.anchored = false) (n : Int) :
    ∃ q, read ("/" ++ v) n = .ok q ∧ q.Narrower p := by
  have hv := reads_of_read hp
  obtain ⟨source, segments, anchored, sequence⟩ := p
  obtain rfl : anchored = false := hfree
  exact ⟨_, hv.rooted.read n, narrower_of_root hv.shaped⟩

/-- A name written for a star makes a pattern narrower. -/
theorem narrower_of_named {x name y : String} {m n : Int} (hp : read (x ++ "*" ++ y) m = .ok p)
    (hname : Name.Word name.toList) (hq : read (x ++ name ++ y) n = .ok q) : q.Narrower p := by
  have hstar := reads_of_read hp
  obtain ⟨source, segments, anchored, sequence⟩ := p
  obtain ⟨front, back, rfl, hwrite⟩ := exists_any_of_star (x := x.toList) (y := y.toList)
    hstar.shaped.named (by rw [← hstar.written]; simp)
  have hreads : Reads (x ++ name ++ y) anchored (front ++ .element name :: back) :=
    ⟨hstar.shaped.named_for_any hname, by rw [hwrite _ rfl]; simp [Step.text],
      (reads_of_read hq).ends⟩
  rw [hreads.eq_of_read hq]
  exact narrower_of_name name

/-- A doubled separator written for a single one between segments makes a pattern that selects no
less and is as specific. -/
theorem exists_wider_of_gap {x y : String} {m : Int} (hp : read (x ++ "/" ++ y) m = .ok p)
    (hx : x.toList ≠ []) (hlast : x.toList.getLast? ≠ some '/')
    (hfirst : y.toList.head? ≠ some '/') (n : Int) :
    ∃ q, read (x ++ "//" ++ y) n = .ok q ∧
      (∀ path, p.matchesPath path = true → q.matchesPath path = true) ∧
      q.rank = { p.rank with sequence := n } := by
  have hsingle := reads_of_read hp
  obtain ⟨source, segments, anchored, sequence⟩ := p
  obtain ⟨front, t, back, rfl, hne, hfront, ht, hxs, hys⟩ :=
    exists_steps_of_separator (x := x.toList) (y := y.toList) hsingle.shaped.named
      (by rw [← hsingle.written]; simp) hx hlast hfirst
  have hreads : Reads (x ++ "//" ++ y) anchored (front ++ .deep :: t :: back) := by
    refine ⟨hsingle.shaped.deep_between hne hfront ht, ?_, ?_⟩
    · rw [writeSteps_append anchored hne hfront, writeSteps_deep, ← hxs, ← hys]
      simp
    · -- the ends are those of the text with the single separator
      have hends := hsingle.ends
      simp only [String.toList_append, List.append_assoc] at hends ⊢
      rw [Text.trim_append_eq_self_iff hx (by simp)] at hends ⊢
      exact hends
  exact ⟨_, hreads.read n, fun path => selects_of_deep_between, rank_of_deep_between hne⟩

end Pattern

end MarkupRouting
