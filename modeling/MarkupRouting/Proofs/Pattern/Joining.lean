import MarkupRouting.Proofs.Pattern.Language
import MarkupRouting.Proofs.Pattern.Writing

/-!
# Patterns put together

Texts of patterns that are put together with separators between them are texts of patterns again,
and what these select is said by what the parts select.

* **Pattern.writeSteps_append** — the text of steps behind others.
* **Pattern.Reads** — a text with the steps that are read of it; **reads_of_read** and
  **Reads.read** say that these are the texts of patterns.
* **Reads.anywhere**, **rooted**, **below**, **gap**, **stars** — the steps of texts put together.
* **matchesPath_iff_rooted**, **matchesPath_iff_below** — what they select.
* **read_equations** — the equations between patterns that follow.
-/

namespace MarkupRouting

namespace Pattern

variable {front back segments : List Step} {anchored : Bool} {text : String}

/-! ### Steps one behind the other -/

/-- Behind a step that is not deep others are written as behind the root. -/
theorem writeSteps_append (behind : Bool) (hne : front ≠ []) (hlast : front.getLast? ≠ some .deep) :
    writeSteps behind (front ++ back) = writeSteps behind front ++ writeSteps true back := by
  induction front generalizing behind with
  | nil => exact absurd rfl hne
  | cons s rest ih =>
      simp only [List.cons_append, writeSteps, List.append_assoc, List.append_cancel_left_eq]
      cases rest with
      | nil =>
          have hs : s.isDeep = false :=
            Step.isDeep_eq_false fun hdeep => hlast (congrArg some hdeep)
          simp [hs, writeSteps]
      | cons t rest => exact ih _ (List.cons_ne_nil t rest) (by simpa using hlast)

/-- Proper steps one behind the other are proper where no deep ones come next to each other. -/
theorem Proper.append (hfront : Proper front) (hback : Proper back)
    (hseam : ∀ s ∈ front.getLast?, ∀ t ∈ back.head?, Parted s t) : Proper (front ++ back) where
  parted := List.isChain_append.mpr ⟨hfront.parted, hback.parted, hseam⟩
  named name hmem := by
    rcases List.mem_append.mp hmem with hmem | hmem
    · exact hfront.named name hmem
    · exact hback.named name hmem

/-- Steps that take any name are proper, however many they are. -/
theorem Proper.replicate_any (n : Nat) : Proper (List.replicate n .any) := by
  induction n with
  | zero => exact .nil
  | succ n ih => exact ih.cons nofun nofun

namespace Shaped

variable (h : Shaped false segments)

include h

/-- Steps that are not anchored do not begin with a deep one. -/
theorem head_ne_deep : segments.head? ≠ some .deep :=
  fun hdeep => Bool.false_ne_true (h.led hdeep)

/-- A deep step may come in front of steps that are not anchored. -/
theorem deep_cons : Proper (.deep :: segments) :=
  h.toProper.cons (fun _ ht _ hdeep => h.head_ne_deep (hdeep ▸ ht)) nofun

/-- Behind the root a separator comes in front of steps that are not anchored. -/
theorem writeSteps_true : writeSteps true segments = '/' :: writeSteps false segments := by
  obtain ⟨s, rest, rfl⟩ := List.exists_cons_of_ne_nil h.ne_nil
  have hs : s.isDeep = false :=
    Step.isDeep_eq_false fun hdeep => h.head_ne_deep (congrArg some hdeep)
  exact writeSteps_behind hs rest

/-- A number of elements of any name is written as stars, with a separator behind each of them. -/
theorem writeSteps_stars (n : Nat) :
    writeSteps true (List.replicate n .any ++ segments) =
      '/' :: ((List.replicate n ['*', '/']).flatten ++ writeSteps false segments) := by
  induction n with
  | zero => exact h.writeSteps_true
  | succ n ih =>
      rw [List.replicate_succ, List.cons_append, writeSteps_behind rfl, writeSteps_front rfl, ih]
      simp [Step.text, List.replicate_succ]

/-- What steps spell that are not anchored is not empty. -/
theorem spelled_ne_nil {path : List String} (hpath : Spells segments path) : path ≠ [] := by
  obtain ⟨s, rest, rfl⟩ := List.exists_cons_of_ne_nil h.ne_nil
  exact hpath.ne_nil List.mem_cons_self fun hdeep => h.head_ne_deep (congrArg some hdeep)

end Shaped

/-! ### Texts and their steps -/

/-- The text is that of a pattern with the given steps. -/
structure Reads (text : String) (anchored : Bool) (segments : List Step) : Prop where
  /-- The steps have the shape. -/
  shaped : Shaped anchored segments
  /-- The text is written of them. -/
  written : text.toList = writeSteps anchored segments
  /-- No blanks stand at its ends. -/
  ends : Text.trim text.toList = text.toList

/-- The text of a pattern is that of its steps. -/
theorem reads_of_read {n : Int} {p : Pattern} (h : read text n = .ok p) :
    Reads text p.anchored p.segments := by
  obtain ⟨hwritten, hshaped⟩ := write_of_read h
  have htrimmed := ((read_ok_iff text n).mp ⟨p, h⟩).1
  refine ⟨hshaped, ?_, Text.trimmed_eq_self_iff.mp htrimmed⟩
  rw [← hwritten, write, String.toList_ofList]

/-- A separator is not blank. -/
theorem isBlank_separator : ∀ c ∈ some '/', Text.isBlank c = false := by
  rintro _ ⟨⟩
  rfl

namespace Reads

/-- The text of steps is read as them. -/
theorem read (h : Reads text anchored segments) (n : Int) :
    Pattern.read text n = .ok ⟨text, segments, anchored, n⟩ := by
  have hwritten : write anchored segments = text := by
    rw [write, ← h.written, String.ofList_toList]
  have hread := read_write h.shaped
    (by rw [hwritten]; exact Text.trimmed_eq_self_iff.mpr h.ends) n
  rwa [hwritten] at hread

/-- Whatever is read of a text has its steps. -/
theorem eq_of_read (h : Reads text anchored segments) {n : Int} {p : Pattern}
    (hread : Pattern.read text n = .ok p) : p = ⟨text, segments, anchored, n⟩ :=
  Except.ok.inj (hread.symm.trans (h.read n))

/-- The text is not empty. -/
theorem ne_nil (h : Reads text anchored segments) : text.toList ≠ [] :=
  ((read_ok_iff text 0).mp ⟨_, h.read 0⟩).2.ne_nil

/-- A pattern is anchored exactly where its text begins with a separator. -/
theorem anchored_iff (h : Reads text anchored segments) :
    anchored = true ↔ text.toList.head? = some '/' := by
  obtain ⟨s, rest, rfl⟩ := List.exists_cons_of_ne_nil h.shaped.ne_nil
  obtain ⟨hname, -, -⟩ := h.shaped.toProper.of_cons
  rw [h.written]
  cases hdeep : s.isDeep with
  | true =>
      obtain rfl := Step.eq_deep hdeep
      exact iff_of_true (h.shaped.led rfl) rfl
  | false =>
      cases anchored with
      | true => exact iff_of_true rfl (by rw [writeSteps_behind hdeep]; rfl)
      | false =>
          -- the first character is that of a segment
          obtain ⟨hsegment, -⟩ := readWord_of_text hdeep hname
          obtain ⟨c, cs, hcs⟩ := List.exists_cons_of_ne_nil hsegment.ne_nil
          refine iff_of_false Bool.false_ne_true fun hhead => ?_
          rw [writeSteps_front hdeep, hcs, List.cons_append, List.head?_cons] at hhead
          obtain rfl := Option.some.inj hhead
          exact hsegment.separator_notMem (by rw [hcs]; exact List.mem_cons_self)

/-- Where no doubled separator stands at the end of the text the last step is not deep. -/
theorem last_ne_deep (h : Reads text anchored segments) (hends : ¬ "//".toList <:+ text.toList) :
    segments.getLast? ≠ some .deep := by
  intro hlast
  obtain ⟨front, rfl⟩ := List.getLast?_eq_some_iff.mp hlast
  refine hends ?_
  rw [h.written]
  cases front with
  | nil => exact List.suffix_rfl
  | cons s rest =>
      -- deep steps are parted, so that the one in front of the last one is none
      have hseam := (List.isChain_append.mp h.shaped.parted).2.2
      have hfront : (s :: rest).getLast? ≠ some .deep := fun hdeep =>
        hseam .deep hdeep .deep rfl rfl rfl
      rw [writeSteps_append anchored (List.cons_ne_nil s rest) hfront]
      exact List.suffix_append _ _

/-- Proper steps can be written behind a step that is not deep. -/
theorem append (h : Reads text anchored front) (hlast : front.getLast? ≠ some .deep)
    (hback : Proper back) (hend : ∀ c ∈ (writeSteps true back).getLast?, Text.isBlank c = false)
    {longer : String} (hlonger : longer.toList = text.toList ++ writeSteps true back) :
    Reads longer anchored (front ++ back) where
  shaped := by
    have hne := h.shaped.ne_nil
    refine ⟨h.shaped.toProper.append hback ?_, List.append_ne_nil_of_left_ne_nil hne _, ?_⟩
    · exact fun s hs t _ hdeep => absurd (hdeep ▸ hs) hlast
    · rw [List.head?_append_of_ne_nil _ hne]
      exact h.shaped.led
  written := by
    rw [hlonger, h.written, writeSteps_append anchored h.shaped.ne_nil hlast]
  ends := by
    rw [hlonger]
    cases hwritten : writeSteps true back with
    | nil => rw [List.append_nil, h.ends]
    | cons c cs =>
        refine (Text.trim_append_eq_self_iff h.ne_nil (List.cons_ne_nil c cs)).mpr ⟨?_, ?_⟩
        · exact (Text.trim_eq_self_iff.mp h.ends).1
        · rwa [hwritten] at hend

/-- Steps that are written with a separator in front of a text are those of the text put
together. -/
theorem behind (h : Reads text false back) (cs : List Char)
    (hcs : ∀ c ∈ cs.head?, Text.isBlank c = false) (hsegments : Shaped anchored segments)
    (hwritten : writeSteps anchored segments = cs ++ text.toList) {longer : String}
    (hlonger : longer.toList = cs ++ text.toList) : Reads longer anchored segments where
  shaped := hsegments
  written := hlonger.trans hwritten.symm
  ends := by
    rw [hlonger]
    cases cs with
    | nil => exact h.ends
    | cons c cs =>
        refine (Text.trim_append_eq_self_iff (List.cons_ne_nil c cs) h.ne_nil).mpr ⟨hcs, ?_⟩
        exact (Text.trim_eq_self_iff.mp h.ends).2

/-! ### Texts put together -/

section Compositions

variable {u v : String} {us vs : List Step} (hv : Reads v false vs) (hu : Reads u anchored us)
  (hlast : us.getLast? ≠ some .deep)

include hv

/-- Behind a doubled separator there is a deep step more, which anchors the pattern. -/
theorem anywhere : Reads ("//" ++ v) true (.deep :: vs) :=
  hv.behind ['/', '/'] isBlank_separator
    ⟨hv.shaped.deep_cons, List.cons_ne_nil .deep vs, fun _ => rfl⟩
    (by rw [hv.written]; rfl) String.toList_append

/-- Behind a single separator the steps are anchored. -/
theorem rooted : Reads ("/" ++ v) true vs :=
  hv.behind ['/'] isBlank_separator ⟨hv.shaped.toProper, hv.shaped.ne_nil, fun _ => rfl⟩
    (by rw [hv.shaped.writeSteps_true, hv.written]; rfl) String.toList_append

include hu hlast

omit hv in
/-- In front of a doubled separator there is a deep step less. -/
theorem below : Reads (u ++ "//") anchored (us ++ [.deep]) :=
  hu.append hlast (Proper.nil.cons nofun nofun : Proper [.deep]) isBlank_separator
    String.toList_append

/-- With a doubled separator between them two patterns have a deep step between theirs. -/
theorem gap : Reads (u ++ "//" ++ v) anchored (us ++ .deep :: vs) := by
  have hback : writeSteps true (.deep :: vs) = ['/', '/'] ++ v.toList := by
    rw [hv.written]
    rfl
  refine hu.append hlast hv.shaped.deep_cons ?_ ?_
  · rw [hback, List.getLast?_append_of_ne_nil _ hv.ne_nil]
    exact (Text.trim_eq_self_iff.mp hv.ends).2
  · rw [hback]
    simp

/-- With stars between them two patterns have as many elements of any name between their steps. -/
theorem stars (n : Nat) :
    Reads (u ++ "/" ++ String.join (List.replicate n "*/") ++ v) anchored
      (us ++ (List.replicate n .any ++ vs)) := by
  have hback := hv.shaped.writeSteps_stars n
  rw [← hv.written] at hback
  have hproper : Proper (List.replicate n .any ++ vs) := by
    refine (Proper.replicate_any n).append hv.shaped.toProper fun s hs _ _ hdeep => ?_
    rw [List.eq_of_mem_replicate (List.mem_of_getLast? hs)] at hdeep
    cases hdeep
  refine hu.append hlast hproper ?_ ?_
  · rw [hback, ← List.cons_append, List.getLast?_append_of_ne_nil _ hv.ne_nil]
    exact (Text.trim_eq_self_iff.mp hv.ends).2
  · rw [hback]
    simp [List.flatMap_def]

end Compositions

end Reads

/-! ### What patterns put together select -/

/-- Steps written behind others are run behind them. -/
theorem steps_append (source source' : String) (front back : List Step) (anchored : Bool)
    (m n : Int) :
    (⟨source, front ++ back, anchored, m⟩ : Pattern).steps =
      (⟨source', front, anchored, n⟩ : Pattern).steps ++ back := by
  cases anchored <;> rfl

section Selecting

variable {p q r : Pattern} {path : List String}

/-- What a pattern selects that is not anchored ends with what its steps select at the root. -/
theorem matchesPath_iff_rooted (hp : p.anchored = false) (hshaped : Shaped false p.segments)
    (hr : r.anchored = true) (hsegments : r.segments = p.segments) :
    p.matchesPath path = true ↔
      ∃ rest, rest <:+ path ∧ rest ≠ [] ∧ r.matchesPath rest = true := by
  have hpsteps : p.steps = .deep :: p.segments := by rw [steps, hp]; rfl
  have hrsteps : r.steps = p.segments := by rw [steps, hr, hsegments]; rfl
  simp only [selects_iff, hpsteps, hrsteps, spells_deep_front]
  constructor
  · rintro ⟨-, rest, hsuffix, hrest⟩
    exact ⟨rest, hsuffix, hshaped.spelled_ne_nil hrest, hshaped.spelled_ne_nil hrest, hrest⟩
  · rintro ⟨rest, hsuffix, hne, -, hrest⟩
    refine ⟨?_, rest, hsuffix, hrest⟩
    rintro rfl
    exact hne (List.suffix_nil.mp hsuffix)

/-- What a pattern selects with a deep step more at its end begins with what it selects without. -/
theorem matchesPath_iff_below (hne : q.segments ≠ []) (hlast : q.segments.getLast? ≠ some .deep)
    (hr : r.steps = q.steps ++ [.deep]) :
    r.matchesPath path = true ↔
      ∃ front, front <+: path ∧ front ≠ [] ∧ q.matchesPath front = true := by
  have hspelled : ∀ {front : List String}, Spells q.steps front → front ≠ [] := by
    intro front hfront
    obtain ⟨s, hs⟩ := Option.ne_none_iff_exists'.mp
      fun hnil : q.segments.getLast? = none => hne (List.getLast?_eq_none_iff.mp hnil)
    refine hfront.ne_nil (s := s) ?_ fun hdeep => hlast (hdeep ▸ hs)
    have hmem := List.mem_of_getLast? hs
    unfold steps
    split
    · exact hmem
    · exact List.mem_cons_of_mem _ hmem
  simp only [selects_iff, hr, spells_deep_end]
  constructor
  · rintro ⟨-, front, hprefix, hfront⟩
    exact ⟨front, hprefix, hspelled hfront, hspelled hfront, hfront⟩
  · rintro ⟨front, hprefix, hne, -, hfront⟩
    refine ⟨?_, front, hprefix, hfront⟩
    rintro rfl
    exact hne (List.prefix_nil.mp hprefix)

end Selecting

/-- **Equations between patterns** (`matches` and `rank_key`). Let `v` be a pattern that does not
begin with a separator and `u` one that does not end with a doubled one. Then `//v` selects what `v`
selects and is as specific; `v` selects what ends with something that `/v` selects; `u//v` selects
what one of `u/v`, `u/*/v`, `u/*/*/v` and so on selects; and `u//` selects what begins with
something that `u` selects. All these texts are patterns. -/
theorem read_equations {u v : String} {m n : Int} {p q : Pattern} (hv : read v m = .ok p)
    (hfree : v.toList.head? ≠ some '/') (hu : read u n = .ok q)
    (hends : ¬ "//".toList <:+ u.toList) (l : Int) :
    (∃ r, read ("//" ++ v) l = .ok r ∧ (∀ path, r.matchesPath path = p.matchesPath path) ∧
        r.rank = { p.rank with sequence := l }) ∧
      (∃ r, read ("/" ++ v) l = .ok r ∧ ∀ path, p.matchesPath path = true ↔
        ∃ rest, rest <:+ path ∧ rest ≠ [] ∧ r.matchesPath rest = true) ∧
      (∃ (r : Pattern) (stars : Nat → Pattern), read (u ++ "//" ++ v) l = .ok r ∧
        (∀ k, read (u ++ "/" ++ String.join (List.replicate k "*/") ++ v) l = .ok (stars k)) ∧
        ∀ path, r.matchesPath path = true ↔ ∃ k, (stars k).matchesPath path = true) ∧
      ∃ r, read (u ++ "//") l = .ok r ∧ ∀ path, r.matchesPath path = true ↔
        ∃ front, front <+: path ∧ front ≠ [] ∧ q.matchesPath front = true := by
  have hp := reads_of_read hv
  have hq := reads_of_read hu
  obtain ⟨source, vs, anchored, sequence⟩ := p
  obtain ⟨source', us, anchored', sequence'⟩ := q
  dsimp only at hp hq
  have hlast := hq.last_ne_deep hends
  obtain rfl : anchored = false := Bool.eq_false_iff.mpr fun h => hfree (hp.anchored_iff.mp h)
  refine ⟨⟨_, hp.anywhere.read l, fun path => rfl, ?_⟩,
    ⟨_, hp.rooted.read l, fun path => matchesPath_iff_rooted rfl hp.shaped rfl rfl⟩,
    ⟨_, _, (hp.gap hq hlast).read l, fun k => (hp.stars hq hlast k).read l, fun path => ?_⟩,
    ⟨_, (hq.below hlast).read l, fun path => matchesPath_iff_below hq.shaped.ne_nil hlast
      (steps_append _ _ us [.deep] _ _ _)⟩⟩
  · -- neither is rooted, and a deep step does not count
    simp [rank, literals, wildcards, Pattern.rooted, Step.isElement, Step.isAny]
  · simp only [selects_iff, steps_append _ source' us _ _ _ sequence', spells_deep_between,
      exists_and_left]

/-- Elements called `item` inside a root element called `list`, at any depth: two names further
down they are selected behind one star. -/
theorem read_equations_item :
    let p : Pattern := ⟨"item", [.element "item"], false, 0⟩
    let q : Pattern := ⟨"/list", [.element "list"], true, 1⟩
    read "item" 0 = .ok p ∧ "item".toList.head? ≠ some '/' ∧ read "/list" 1 = .ok q ∧
      ¬ "//".toList <:+ "/list".toList ∧
      (∃ r, read "//item" 2 = .ok r ∧ r.rank = { p.rank with sequence := 2 }) ∧
      (∃ r, read "/item" 2 = .ok r ∧ p.matchesPath ["list", "group", "item"] = true ∧
        ∃ rest, rest <:+ ["list", "group", "item"] ∧ r.matchesPath rest = true) ∧
      (∃ r, read "/list//item" 2 = .ok r ∧ r.matchesPath ["list", "group", "item"] = true) ∧
      ∃ r, read "/list//" 2 = .ok r ∧ r.matchesPath ["list", "group", "item"] = true := by
  intro p q
  have hp : read "item" 0 = .ok p := by decide
  have hq : read "/list" 1 = .ok q := by decide
  have hfree : "item".toList.head? ≠ some '/' := by decide
  have hends : ¬ "//".toList <:+ "/list".toList := by decide
  obtain ⟨⟨r₁, hr₁, -, hrank⟩, ⟨r₂, hr₂, hrooted⟩, ⟨r₃, stars, hr₃, hstars, hgap⟩,
      r₄, hr₄, hbelow⟩ :=
    read_equations hp hfree hq hends 2
  have hitem : p.matchesPath ["list", "group", "item"] = true := by decide
  obtain ⟨rest, hsuffix, -, hrest⟩ := (hrooted _).mp hitem
  have hstar : read "/list/*/item" 2 =
      .ok ⟨"/list/*/item", [.element "list", .any, .element "item"], true, 2⟩ := by decide
  refine ⟨hp, hfree, hq, hends, ⟨r₁, hr₁, hrank⟩, ⟨r₂, hr₂, hitem, rest, hsuffix, hrest⟩,
    ⟨r₃, hr₃, (hgap _).mpr ⟨1, ?_⟩⟩, r₄, hr₄, (hbelow _).mpr ⟨["list"], ?_, ?_, ?_⟩⟩
  · rw [← Except.ok.inj (hstar.symm.trans (hstars 1))]
    decide
  · decide
  · decide
  · decide

end Pattern

end MarkupRouting
