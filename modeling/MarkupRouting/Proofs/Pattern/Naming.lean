import MarkupRouting.Proofs.Pattern.Joining

/-!
# Names as patterns

A name may stand wherever a segment may, alone and with separators in front of it or behind it. What
decides whether the text is a pattern then is not the name as a segment but the ends of the text:
names may begin and end with blanks beyond ASCII, and a text with blanks at its ends is no pattern.

* **blankFirst**, **blankLast** — a blank stands at one end of a text.
* **read_written** — texts that are written of steps, with or without blanks at their ends.
* **matchesPath_named** — what a name alone selects.
* **read_named** — names alone, in front of a pattern, behind one and between two.
-/

namespace MarkupRouting

namespace Pattern

variable {segments : List Step} {anchored : Bool}

/-! ### Ends of texts -/

/-- The text begins with a blank. -/
def blankFirst (text : String) : Bool := text.toList.head?.any Text.isBlank

/-- The text ends with a blank. -/
def blankLast (text : String) : Bool := text.toList.getLast?.any Text.isBlank

/-- A text does not begin with a blank exactly if its first character, where there is one, is
none. -/
theorem blankFirst_eq_false_iff {text : String} :
    blankFirst text = false ↔ ∀ c ∈ text.toList.head?, Text.isBlank c = false := by
  rw [blankFirst]
  cases text.toList.head? <;> simp

/-- A text does not end with a blank exactly if its last character, where there is one, is none. -/
theorem blankLast_eq_false_iff {text : String} :
    blankLast text = false ↔ ∀ c ∈ text.toList.getLast?, Text.isBlank c = false := by
  rw [blankLast]
  cases text.toList.getLast? <;> simp

/-- No blanks stand at the ends of a text exactly where neither end is one. -/
theorem trim_eq_self_iff_ends {text : String} :
    Text.trim text.toList = text.toList ↔ (blankFirst text || blankLast text) = false := by
  rw [Text.trim_eq_self_iff, Bool.or_eq_false_iff, blankFirst_eq_false_iff, blankLast_eq_false_iff]

/-- A text put together begins as its first part does. -/
theorem blankFirst_append {front back : String} (h : front.toList ≠ []) :
    blankFirst (front ++ back) = blankFirst front := by
  rw [blankFirst, blankFirst, String.toList_append, List.head?_append_of_ne_nil _ h]

/-- A text put together ends as its last part does. -/
theorem blankLast_append {front back : String} (h : back.toList ≠ []) :
    blankLast (front ++ back) = blankLast back := by
  rw [blankLast, blankLast, String.toList_append, List.getLast?_append_of_ne_nil _ h]

/-- The text of a pattern neither begins nor ends with a blank. -/
theorem Reads.ends_eq_false {text : String} (h : Reads text anchored segments) :
    blankFirst text = false ∧ blankLast text = false := by
  rw [← Bool.or_eq_false_iff, ← trim_eq_self_iff_ends]
  exact h.ends

/-! ### Texts written of steps -/

/-- A text that is written of steps of the right shape is read as them, unless a blank stands at one
of its ends. -/
theorem read_written {text : String} (h : Shaped anchored segments)
    (hwritten : text.toList = writeSteps anchored segments) (n : Int) :
    read text n =
      if blankFirst text || blankLast text then
        .error (if Text.isBlankText text then .blank else .surroundingBlanks)
      else .ok ⟨text, segments, anchored, n⟩ := by
  split_ifs with hends hblank
  · rw [Text.isBlankText] at hblank
    rw [read_eq, if_pos hblank]
  · rw [Text.isBlankText] at hblank
    rw [read_eq, if_neg hblank, if_pos]
    intro htrim
    rw [trim_eq_self_iff_ends.mp htrim] at hends
    exact Bool.false_ne_true hends
  · have htrim := trim_eq_self_iff_ends.mpr (Bool.eq_false_iff.mpr hends)
    exact Reads.read ⟨h, hwritten, htrim⟩ n

/-- A text with a separator in it is not blank throughout. -/
theorem isBlankText_of_separator {text : String} (h : '/' ∈ text.toList) :
    Text.isBlankText text = false := by
  rw [Bool.eq_false_iff]
  intro hblank
  rw [Text.isBlankText, Text.allBlank, List.all_eq_true] at hblank
  exact absurd (hblank '/' h) (by decide)

/-! ### Names among steps -/

section Names

variable {name : String}

/-- In front of steps a name is written as it is. -/
theorem writeSteps_named (steps : List Step) :
    writeSteps false (.element name :: steps) = name.toList ++ writeSteps true steps :=
  writeSteps_front rfl steps

/-- Behind steps of which the last one is not deep a name is written behind a separator. -/
theorem writeSteps_append_named (h : segments ≠ []) (hlast : segments.getLast? ≠ some .deep)
    (back : List Step) :
    writeSteps anchored (segments ++ .element name :: back) =
      writeSteps anchored segments ++ '/' :: (name.toList ++ writeSteps true back) := by
  rw [writeSteps_append anchored h hlast, writeSteps_behind rfl, writeSteps_named]
  rfl

/-- Behind steps of which the last one is not deep a name may stand, with whatever may stand behind
the name. -/
theorem Shaped.append_named {back : List Step} (h : Shaped anchored segments)
    (hlast : segments.getLast? ≠ some .deep) (hback : Proper (.element name :: back)) :
    Shaped anchored (segments ++ .element name :: back) where
  toProper := h.toProper.append hback fun s hs _ _ hdeep => absurd (hdeep ▸ hs) hlast
  ne_nil := List.append_ne_nil_of_left_ne_nil h.ne_nil _
  led := by
    rw [List.head?_append_of_ne_nil _ h.ne_nil]
    exact h.led

/-- A name alone selects the elements called so: the paths that end with it. -/
theorem matchesPath_named (n : Int) (path : List String) :
    (⟨name, [.element name], false, n⟩ : Pattern).matchesPath path = true ↔
      path.getLast? = some name := by
  have hspells : ∀ rest, Spells [.element name] rest ↔ rest = [name] := by
    intro rest
    have hne : Step.element name ≠ .deep := nofun
    rw [spells_cons_of_ne_deep hne]
    constructor
    · rintro ⟨first, rest, rfl, htakes, hrest⟩
      rw [spells_nil] at hrest
      rw [Step.takes, beq_iff_eq] at htakes
      rw [hrest, htakes]
    · rintro rfl
      exact ⟨name, [], rfl, by simp [Step.takes], spells_nil.mpr rfl⟩
  have hsteps : (⟨name, [.element name], false, n⟩ : Pattern).steps = [.deep, .element name] := rfl
  rw [selects_iff, hsteps, spells_deep_front, List.getLast?_eq_some_iff]
  simp only [hspells]
  constructor
  · rintro ⟨-, _, ⟨front, rfl⟩, rfl⟩
    exact ⟨front, rfl⟩
  · rintro ⟨front, rfl⟩
    exact ⟨by simp, [name], List.suffix_append front [name], rfl⟩

variable (hname : Name.Word name.toList)

include hname

/-- A name is not empty. -/
theorem name_ne_nil : name.toList ≠ [] := Segment.ne_nil (.inr hname)

/-- A name is a step by itself. -/
theorem proper_named : Proper [.element name] := by
  refine Proper.nil.cons nofun fun other heq => ?_
  rw [← Step.element.inj heq]
  exact hname

/-- A name alone has the shape of a pattern, anchored or not. -/
theorem shaped_named (anchored : Bool) : Shaped anchored [.element name] :=
  ⟨proper_named hname, List.cons_ne_nil _ _, nofun⟩

/-- A name may stand in front of steps that are not anchored. -/
theorem Shaped.named_cons (h : Shaped false segments) :
    Shaped false (.element name :: segments) where
  toProper := by
    refine h.toProper.cons nofun fun other heq => ?_
    rw [← Step.element.inj heq]
    exact hname
  ne_nil := List.cons_ne_nil _ _
  led := nofun

/-- A name with a separator in front of it is read unless a blank stands at its end. -/
theorem read_rooted (n : Int) :
    read ("/" ++ name) n =
      if blankLast name then .error .surroundingBlanks
      else .ok ⟨"/" ++ name, [.element name], true, n⟩ := by
  have hwritten : ("/" ++ name).toList = writeSteps true [.element name] := by
    rw [writeSteps_behind rfl, writeSteps_named]
    simp [writeSteps]
  have hink : Text.isBlankText ("/" ++ name) = false := isBlankText_of_separator (by simp)
  have hfirst : blankFirst ("/" ++ name) = false := blankFirst_append (by decide)
  rw [read_written (shaped_named hname true) hwritten n, hink, hfirst,
    blankLast_append (name_ne_nil hname)]
  rfl

variable {text : String}

/-- A name in front of a pattern that is not anchored is read unless a blank stands at its
beginning. -/
theorem Reads.read_front (h : Reads text false segments) (n : Int) :
    Pattern.read (name ++ "/" ++ text) n =
      if blankFirst name then .error .surroundingBlanks
      else .ok ⟨name ++ "/" ++ text, .element name :: segments, false, n⟩ := by
  have hwritten : (name ++ "/" ++ text).toList = writeSteps false (.element name :: segments) := by
    rw [writeSteps_named, h.shaped.writeSteps_true, ← h.written]
    simp
  have hink : Text.isBlankText (name ++ "/" ++ text) = false := isBlankText_of_separator (by simp)
  have hfirst : blankFirst (name ++ "/" ++ text) = blankFirst name := by
    rw [String.append_assoc]
    exact blankFirst_append (name_ne_nil hname)
  have hlast : blankLast (name ++ "/" ++ text) = false :=
    (blankLast_append h.ne_nil).trans h.ends_eq_false.2
  rw [read_written (h.shaped.named_cons hname) hwritten n, hink, hfirst, hlast, Bool.or_false]
  rfl

/-- A name behind a pattern is read unless a blank stands at its end. -/
theorem Reads.read_behind (h : Reads text anchored segments)
    (hlast : segments.getLast? ≠ some .deep) (n : Int) :
    Pattern.read (text ++ "/" ++ name) n =
      if blankLast name then .error .surroundingBlanks
      else .ok ⟨text ++ "/" ++ name, segments ++ [.element name], anchored, n⟩ := by
  have hwritten : (text ++ "/" ++ name).toList =
      writeSteps anchored (segments ++ [.element name]) := by
    rw [writeSteps_append_named h.shaped.ne_nil hlast, ← h.written]
    simp [writeSteps]
  have hink : Text.isBlankText (text ++ "/" ++ name) = false := isBlankText_of_separator (by simp)
  have hfirst : blankFirst (text ++ "/" ++ name) = false := by
    rw [String.append_assoc]
    exact (blankFirst_append h.ne_nil).trans h.ends_eq_false.1
  have hend : blankLast (text ++ "/" ++ name) = blankLast name :=
    blankLast_append (name_ne_nil hname)
  rw [read_written (h.shaped.append_named hlast (proper_named hname)) hwritten n, hink, hfirst,
    hend, Bool.false_or]
  rfl

/-- A name between two patterns is read whatever its ends are. -/
theorem Reads.read_between {back : String} {segments' : List Step}
    (h : Reads text anchored segments) (hlast : segments.getLast? ≠ some .deep)
    (hback : Reads back false segments') (n : Int) :
    Pattern.read (text ++ "/" ++ name ++ "/" ++ back) n =
      .ok ⟨text ++ "/" ++ name ++ "/" ++ back, segments ++ .element name :: segments', anchored,
        n⟩ := by
  have hwritten : (text ++ "/" ++ name ++ "/" ++ back).toList =
      writeSteps anchored (segments ++ .element name :: segments') := by
    rw [writeSteps_append_named h.shaped.ne_nil hlast, ← h.written, hback.shaped.writeSteps_true,
      ← hback.written]
    simp
  have hfirst : blankFirst (text ++ "/" ++ name ++ "/" ++ back) = false := by
    simp only [String.append_assoc]
    exact (blankFirst_append h.ne_nil).trans h.ends_eq_false.1
  have hend : blankLast (text ++ "/" ++ name ++ "/" ++ back) = false :=
    (blankLast_append hback.ne_nil).trans hback.ends_eq_false.2
  have hproper := (hback.shaped.named_cons hname).toProper
  rw [read_written (h.shaped.append_named hlast hproper) hwritten n, hfirst, hend]
  rfl

end Names

/-! ### Names in every place -/

/-- **Names in every place** (`is_valid_name` and `compile_pattern`). A name by itself is read as
the one step that asks for it, and selects the paths that end with it, unless a blank stands at one
of its ends. Behind the separator of the root and behind a pattern it is read as one step more
unless it ends with a blank, and in front of a pattern that is not anchored unless it begins with
one; between two patterns it is always read. So whether a name is read does not depend on what
stands around it, but at the ends of the text. -/
theorem read_named {name : String} (hname : Name.isValid name.toList = true) (n : Int) :
    (read name n =
        if blankFirst name || blankLast name then
          .error (if Text.isBlankText name then .blank else .surroundingBlanks)
        else .ok ⟨name, [.element name], false, n⟩) ∧
      (∀ path, (⟨name, [.element name], false, n⟩ : Pattern).matchesPath path = true ↔
        path.getLast? = some name) ∧
      (read ("/" ++ name) n =
        if blankLast name then .error .surroundingBlanks
        else .ok ⟨"/" ++ name, [.element name], true, n⟩) ∧
      ∀ (text : String) (m : Int) (p : Pattern), read text m = .ok p → p.anchored = false →
        (read (name ++ "/" ++ text) n =
            if blankFirst name then .error .surroundingBlanks
            else .ok ⟨name ++ "/" ++ text, .element name :: p.segments, false, n⟩) ∧
          (¬ "//".toList <:+ text.toList →
            (read (text ++ "/" ++ name) n =
                if blankLast name then .error .surroundingBlanks
                else .ok ⟨text ++ "/" ++ name, p.segments ++ [.element name], false, n⟩) ∧
              ∀ (back : String) (l : Int) (q : Pattern), read back l = .ok q →
                q.anchored = false →
                  read (text ++ "/" ++ name ++ "/" ++ back) n =
                    .ok ⟨text ++ "/" ++ name ++ "/" ++ back,
                      p.segments ++ .element name :: q.segments, false, n⟩) := by
  rw [Name.isValid_iff] at hname
  refine ⟨?_, matchesPath_named n, read_rooted hname n, fun text m p hp hfree => ?_⟩
  · refine read_written (shaped_named hname false) ?_ n
    rw [writeSteps_named]
    simp [writeSteps]
  · have hreads := reads_of_read hp
    obtain ⟨source, segments, anchored, sequence⟩ := p
    obtain rfl : anchored = false := hfree
    refine ⟨hreads.read_front hname n, fun hends => ?_⟩
    have hlast := hreads.last_ne_deep hends
    refine ⟨hreads.read_behind hname hlast n, fun back l q hq hfree' => ?_⟩
    have hback := reads_of_read hq
    rw [hfree'] at hback
    exact hreads.read_between hname hlast hback n

/-- The name of an element in front of a pattern, behind it and between two. -/
theorem read_named_list :
    let p : Pattern := ⟨"item/*", [.element "item", .any], false, 0⟩
    Name.isValid "list".toList = true ∧ read "item/*" 0 = .ok p ∧ p.anchored = false ∧
      ¬ "//".toList <:+ "item/*".toList ∧
      read "list" 1 = .ok ⟨"list", [.element "list"], false, 1⟩ ∧
      read "list/item/*" 1 = .ok ⟨"list/item/*", .element "list" :: p.segments, false, 1⟩ ∧
      read "item/*/list" 1 = .ok ⟨"item/*/list", p.segments ++ [.element "list"], false, 1⟩ ∧
      read "item/*/list/item/*" 1 =
        .ok ⟨"item/*/list/item/*", p.segments ++ .element "list" :: p.segments, false, 1⟩ := by
  intro p
  have hname : Name.isValid "list".toList = true := by decide
  have hp : read "item/*" 0 = .ok p := by decide
  have hends : ¬ "//".toList <:+ "item/*".toList := by decide
  obtain ⟨halone, -, -, hplaced⟩ := read_named hname 1
  obtain ⟨hfront, hbehind⟩ := hplaced "item/*" 0 p hp rfl
  obtain ⟨hbehind, hbetween⟩ := hbehind hends
  exact ⟨hname, hp, rfl, hends, halone, hfront, hbehind, hbetween "item/*" 0 p hp rfl⟩

/-- A name that begins with a blank beyond ASCII is no pattern by itself, so that not every name may
stand in every place. -/
theorem not_read_of_blank :
    ¬ ∀ name : String, Name.isValid name.toList = true → ∀ (text : String) (p : Pattern),
      read text 0 = .ok p → p.anchored = false → ¬ "//".toList <:+ text.toList →
        (∃ q, read name 0 = .ok q) ∧ (∃ q, read ("/" ++ name) 0 = .ok q) ∧
          (∃ q, read (name ++ "/" ++ text) 0 = .ok q) ∧
            ∃ q, read (text ++ "/" ++ name) 0 = .ok q := by
  intro h
  obtain ⟨⟨q, hq⟩, -⟩ := h "\u00a0a" (by decide) "a" ⟨"a", [.element "a"], false, 0⟩ (by decide) rfl
    (by decide)
  have hblank : read "\u00a0a" 0 = .error .surroundingBlanks := by decide
  rw [hblank] at hq
  cases hq

end Pattern

end MarkupRouting
