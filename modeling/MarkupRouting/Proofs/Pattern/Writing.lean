import MarkupRouting.Proofs.Pattern.Grammar

/-!
# Writing patterns

What a pattern keeps of its text is whether it is anchored, and its steps. That is enough to write
the text down again, and steps of the right shape are read back from what is written of them.

* **Pattern.write** — the text of steps, anchored or not.
* **Pattern.Proper**, **Shaped** — the shape that the steps of a pattern have.
* **Cut.write_of_readSteps** — what is read of a text is written as the text, and is proper.
* **Proper.readSteps_write** — what is written of proper steps is read as them.
* **write_of_read**, **read_write** — both for whole patterns.
* **read_keeps** — patterns and their texts are one to one.
-/

namespace MarkupRouting

/-! ### Steps -/

namespace Step

variable {s : Step}

/-- There is only one deep step. -/
theorem eq_deep (h : s.isDeep = true) : s = .deep := by
  cases s with
  | deep => rfl
  | _ => cases h

/-- All other steps are not deep. -/
theorem isDeep_eq_false (h : s ≠ .deep) : s.isDeep = false :=
  Bool.eq_false_iff.mpr fun hdeep => h (eq_deep hdeep)

/-- The token that a step begins with. -/
def token (s : Step) : Pattern.Token := if s.isDeep then .separators 2 else .word s.text.toList

/-- A step that is not deep has its text as its token. -/
theorem token_of_not_deep (h : s.isDeep = false) : s.token = .word s.text.toList := by
  simp [token, h]

end Step

namespace Pattern

/-! ### Texts of steps -/

/-- The text of steps. A deep step is the doubled separator itself. Where a step stands in front, or
the root, which `behind` says, any other step comes behind a single one. -/
def writeSteps : Bool → List Step → List Char
  | _, [] => []
  | behind, s :: rest =>
    (if s.isDeep then ['/', '/'] else if behind then '/' :: s.text.toList else s.text.toList)
      ++ writeSteps (!s.isDeep) rest

/-- The text of a pattern with the given steps. -/
def write (anchored : Bool) (segments : List Step) : String :=
  String.ofList (writeSteps anchored segments)

example : write true [.element "list", .deep, .any] = "/list//*" := by decide

/-- Of two steps next to each other one is not deep. -/
def Parted (s t : Step) : Prop := s = .deep → t ≠ .deep

/-- No two deep steps stand next to each other, and what steps ask for are names. Texts of patterns
give such steps only, and such steps have a text. -/
structure Proper (steps : List Step) : Prop where
  /-- Deep steps are parted. -/
  parted : steps.IsChain Parted
  /-- What is asked for is a name. -/
  named : ∀ name, .element name ∈ steps → Name.Word name.toList

/-- The shape of the steps of a pattern: there is one, they are proper, and only those of an
anchored pattern begin with a deep one. -/
structure Shaped (anchored : Bool) (segments : List Step) : Prop extends Proper segments where
  /-- There is a step. -/
  ne_nil : segments ≠ []
  /-- A deep step in front anchors the pattern. -/
  led : segments.head? = some .deep → anchored = true

namespace Proper

variable {s : Step} {steps : List Step}

/-- No steps are proper. -/
theorem nil : Proper [] := ⟨.nil, by simp⟩

/-- A step more in front of proper ones. -/
theorem cons (h : Proper steps) (hs : ∀ t ∈ steps.head?, Parted s t)
    (hname : ∀ name, s = .element name → Name.Word name.toList) : Proper (s :: steps) where
  parted := List.isChain_cons.mpr ⟨hs, h.parted⟩
  named name hmem := by
    rcases List.mem_cons.mp hmem with heq | hmem
    · exact hname name heq.symm
    · exact h.named name hmem

/-- A proper step in front, and what is behind it. -/
theorem of_cons (h : Proper (s :: steps)) :
    (∀ name, s = .element name → Name.Word name.toList) ∧ (∀ t ∈ steps.head?, Parted s t) ∧
      Proper steps := by
  obtain ⟨hfirst, hrest⟩ := List.isChain_cons.mp h.parted
  refine ⟨fun name heq => h.named name (heq ▸ List.mem_cons_self), hfirst, hrest, ?_⟩
  exact fun name hmem => h.named name (List.mem_cons_of_mem s hmem)

end Proper

/-- The steps that are run are parted as well. -/
theorem Shaped.parted_steps {p : Pattern} (h : Shaped p.anchored p.segments) :
    p.steps.IsChain Parted := by
  unfold Pattern.steps
  split
  · exact h.parted
  next hfree =>
    refine List.isChain_cons.mpr ⟨fun t ht _ hdeep => hfree (h.led ?_), h.parted⟩
    rw [Option.mem_def.mp ht, hdeep]

/-! ### Words -/

/-- A word is the text of the step it is read as. -/
theorem readWord_text {w : List Char} {s : Step} (h : readWord w = .ok s) :
    s.text.toList = w ∧ s.isDeep = false ∧
      ∀ name, s = .element name → Name.Word name.toList := by
  unfold readWord at h
  split_ifs at h with hstar hvalid
  · cases h
    exact ⟨hstar.symm, rfl, nofun⟩
  · cases h
    refine ⟨String.toList_ofList, rfl, fun name heq => ?_⟩
    cases heq
    rw [String.toList_ofList]
    exact Name.isValid_iff.mp hvalid

/-- The text of a step that is not deep is a segment, and is read as the step. -/
theorem readWord_of_text {s : Step} (hdeep : s.isDeep = false)
    (hname : ∀ name, s = .element name → Name.Word name.toList) :
    Segment s.text.toList ∧ readWord s.text.toList = .ok s := by
  cases s with
  | element name =>
      have hword := hname name rfl
      have hstar : name.toList ≠ ['*'] := by
        intro heq
        rw [heq, ← Name.isValid_iff] at hword
        revert hword
        decide
      refine ⟨.inr hword, ?_⟩
      simp only [Step.text, readWord, hstar, Name.isValid_iff.mpr hword, if_false, if_true,
        String.ofList_toList]
  | any => exact ⟨.inl rfl, rfl⟩
  | deep => cases hdeep

/-! ### What is read is written again -/

/-- Where a word is read, its step stands in front of those that are read behind it. -/
theorem readSteps_word_eq {expecting : Bool} {w : List Char} {ts : List Token} {steps : List Step}
    (h : readSteps expecting (.word w :: ts) = .ok steps) :
    ∃ s more, steps = s :: more ∧ readWord w = .ok s ∧ readSteps false ts = .ok more := by
  unfold readSteps at h
  split at h
  · cases h
  next s hs =>
    split at h
    next more hmore =>
      cases h
      exact ⟨s, more, rfl, hs, hmore⟩
    · cases h

/-- **What is read of a text is written as the text.** Behind a segment that takes a separator in
front of each step that is not deep; at a segment it takes none in front of the first one. -/
theorem Cut.write_of_readSteps {ts : List Token} {cs : List Char} (h : Cut ts cs) :
    ((∀ t ∈ ts.head?, t.isWord = false) → ∀ steps, readSteps false ts = .ok steps →
        writeSteps true steps = cs ∧ Proper steps) ∧
      ∀ w rest, ts = .word w :: rest → ∀ expecting steps, readSteps expecting ts = .ok steps →
        writeSteps false steps = cs ∧ writeSteps true steps = '/' :: cs ∧ Proper steps ∧
          steps.head? ≠ some .deep := by
  induction h with
  | nil =>
      refine ⟨fun _ steps hsteps => ?_, nofun⟩
      cases hsteps
      exact ⟨rfl, .nil⟩
  | @separators ts cs n hnext h ih =>
      refine ⟨fun _ steps hsteps => ?_, nofun⟩
      unfold readSteps at hsteps
      split_ifs at hsteps with hlong hdouble
      · obtain rfl : n = 1 := by omega
        split at hsteps
        next more hmore =>
          cases hsteps
          by_cases hne : ts = []
          · subst hne
            cases h
            cases hmore
            exact ⟨rfl, Proper.nil.cons nofun nofun⟩
          · obtain ⟨w, rest, hword⟩ := exists_word hne hnext
            obtain ⟨hwritten, -, hproper, hfirst⟩ := ih.2 w rest hword _ more hmore
            refine ⟨congrArg (fun cs => '/' :: '/' :: cs) hwritten, hproper.cons ?_ nofun⟩
            exact fun t ht _ hdeep => hfirst (hdeep ▸ ht)
        · cases hsteps
      · obtain rfl : n = 0 := by omega
        have hne : ts ≠ [] := by
          rintro rfl
          cases hsteps
        obtain ⟨w, rest, hword⟩ := exists_word hne hnext
        obtain ⟨-, hwritten, hproper, -⟩ := ih.2 w rest hword true steps hsteps
        exact ⟨hwritten, hproper⟩
  | @word ts cs w hne hw hnext h ih =>
      refine ⟨fun hword => absurd (hword _ rfl) (by simp [Token.isWord]), ?_⟩
      intro _ _ _ expecting steps hsteps
      obtain ⟨s, more, rfl, hs, hmore⟩ := readSteps_word_eq hsteps
      obtain ⟨htext, hdeep, hname⟩ := readWord_text hs
      obtain ⟨hwritten, hproper⟩ := ih.1 hnext more hmore
      have hne : s ≠ .deep := by
        rintro rfl
        cases hdeep
      refine ⟨?_, ?_, hproper.cons (fun t _ hs => absurd hs hne) hname, ?_⟩
      · simp [writeSteps, hdeep, htext, hwritten]
      · simp [writeSteps, hdeep, htext, hwritten]
      · simpa using hne

/-- What is read of a whole text is written as the text, and has the shape. -/
theorem Cut.write_of_readSegments {ts : List Token} {cs : List Char} (h : Cut ts cs)
    {steps : List Step} (hsteps : readSegments (splitAnchor ts).2 = .ok steps) :
    writeSteps (splitAnchor ts).1 steps = cs ∧ Shaped (splitAnchor ts).1 steps := by
  cases h with
  | nil => cases hsteps
  | @separators ts cs n hnext h =>
      match n, hsteps with
      | 0, hsteps =>
          have hne : ts ≠ [] := by
            rintro rfl
            cases hsteps
          have hread : readSteps true ts = .ok steps := by
            have hsegments : readSegments ts = readSteps true ts := if_neg (by simpa using hne)
            rw [← hsegments]
            exact hsteps
          obtain ⟨w, rest, hword⟩ := exists_word hne hnext
          obtain ⟨-, hwritten, hproper, -⟩ :=
            h.write_of_readSteps.2 w rest hword true steps hread
          refine ⟨hwritten, hproper, ?_, fun _ => rfl⟩
          rintro rfl
          cases hwritten
      | 1, hsteps =>
          -- a doubled separator in front is a step like one behind a segment
          have hread : readSteps false (.separators 2 :: ts) = .ok steps := hsteps
          obtain ⟨hwritten, hproper⟩ := (Cut.separators 1 hnext h).write_of_readSteps.1
            (by simp [Token.isWord]) steps hread
          refine ⟨hwritten, hproper, ?_, fun _ => rfl⟩
          rintro rfl
          cases hwritten
      | n + 2, hsteps => cases hsteps
  | @word ts cs w hne hw hnext h =>
      obtain ⟨hwritten, -, hproper, hfirst⟩ :=
        (Cut.word hne hw hnext h).write_of_readSteps.2 w ts rfl true steps hsteps
      refine ⟨hwritten, hproper, ?_, fun hdeep => absurd hdeep hfirst⟩
      rintro rfl
      exact List.append_ne_nil_of_left_ne_nil hne cs hwritten.symm

/-- **A pattern keeps its text**: what it keeps is written as the text, and has the shape. -/
theorem write_of_read {source : String} {sequence : Int} {p : Pattern}
    (h : read source sequence = .ok p) :
    write p.anchored p.segments = source ∧ Shaped p.anchored p.segments := by
  rw [read_eq] at h
  split_ifs at h
  cases hsteps : readSegments (splitAnchor (tokens source.toList)).2 with
  | error flaw =>
      rw [hsteps] at h
      cases h
  | ok segments =>
      rw [hsteps] at h
      cases h
      obtain ⟨hwritten, hshaped⟩ := (cut_tokens source.toList).write_of_readSegments hsteps
      refine ⟨?_, hshaped⟩
      rw [write, hwritten, String.ofList_toList]

/-! ### What is written is read again -/

/-- A doubled separator in front of steps does not depend on what is in front of it. -/
theorem writeSteps_deep (behind : Bool) (rest : List Step) :
    writeSteps behind (.deep :: rest) = List.replicate 2 '/' ++ writeSteps false rest := rfl

/-- Behind a segment a single separator comes in front of a step that is not deep. -/
theorem writeSteps_behind {s : Step} (h : s.isDeep = false) (rest : List Step) :
    writeSteps true (s :: rest) = List.replicate 1 '/' ++ writeSteps false (s :: rest) := by
  simp [writeSteps, h]

/-- At a segment its text comes first. -/
theorem writeSteps_front {s : Step} (h : s.isDeep = false) (rest : List Step) :
    writeSteps false (s :: rest) = s.text.toList ++ writeSteps true rest := by
  simp [writeSteps, h]

/-- **What is written of proper steps is read as them**, whatever is expected. -/
theorem Proper.readSteps_write {s : Step} {rest : List Step} (h : Proper (s :: rest)) :
    ∃ ts, Cut (s.token :: ts) (writeSteps false (s :: rest)) ∧
      ∀ expecting, readSteps expecting (s.token :: ts) = .ok (s :: rest) := by
  induction rest generalizing s with
  | nil =>
      obtain ⟨hname, -, -⟩ := h.of_cons
      cases hdeep : s.isDeep with
      | true =>
          obtain rfl := Step.eq_deep hdeep
          exact ⟨[], .separators 1 (by simp) .nil, fun _ => rfl⟩
      | false =>
          obtain ⟨hsegment, hword⟩ := readWord_of_text hdeep hname
          rw [Step.token_of_not_deep hdeep, writeSteps_front hdeep]
          refine ⟨[], .word hsegment.ne_nil hsegment.separator_notMem (by simp) .nil, ?_⟩
          intro expecting
          simp only [readSteps, hword, Bool.false_eq_true, if_false]
  | cons t rest ih =>
      obtain ⟨hname, hparted, hrest⟩ := h.of_cons
      obtain ⟨ts, hcut, hread⟩ := ih hrest
      cases hdeep : s.isDeep with
      | true =>
          obtain rfl := Step.eq_deep hdeep
          have hnext : t.isDeep = false := by
            rw [Bool.eq_false_iff]
            exact fun hdeep => hparted t rfl rfl (Step.eq_deep hdeep)
          rw [Step.token_of_not_deep hnext] at hcut hread
          refine ⟨.word t.text.toList :: ts, ?_, fun expecting => ?_⟩
          · rw [writeSteps_deep]
            exact .separators 1 (by simp [Token.isWord]) hcut
          · have hdouble := readSteps_double expecting (.word t.text.toList :: ts)
            rw [List.isEmpty_cons, Bool.not_false, hread true] at hdouble
            exact hdouble
      | false =>
          obtain ⟨hsegment, hword⟩ := readWord_of_text hdeep hname
          -- behind the segment the next step is read with the separator it takes
          obtain ⟨ts, hcut, hnext, hread⟩ : ∃ ts, Cut ts (writeSteps true (t :: rest)) ∧
              (∀ t ∈ ts.head?, t.isWord = false) ∧ readSteps false ts = .ok (t :: rest) := by
            cases hdeep : t.isDeep with
            | true =>
                obtain rfl := Step.eq_deep hdeep
                exact ⟨.separators 2 :: ts, hcut, by simp [Token.isWord], hread false⟩
            | false =>
                rw [Step.token_of_not_deep hdeep] at hcut hread
                refine ⟨.separators 1 :: .word t.text.toList :: ts, ?_, by simp [Token.isWord],
                  hread true⟩
                rw [writeSteps_behind hdeep]
                exact .separators 0 (by simp [Token.isWord]) hcut
          rw [Step.token_of_not_deep hdeep, writeSteps_front hdeep]
          refine ⟨ts, .word hsegment.ne_nil hsegment.separator_notMem hnext hcut, ?_⟩
          intro expecting
          rw [readSteps, hword]
          dsimp only
          rw [hread]

/-- What is written of steps of the right shape is read as them, anchored where they are. -/
theorem Shaped.readSegments_write {anchored : Bool} {segments : List Step}
    (h : Shaped anchored segments) :
    (splitAnchor (tokens (writeSteps anchored segments))).1 = anchored ∧
      readSegments (splitAnchor (tokens (writeSteps anchored segments))).2 = .ok segments := by
  obtain ⟨s, rest, rfl⟩ := List.exists_cons_of_ne_nil h.ne_nil
  obtain ⟨ts, hcut, hread⟩ := h.toProper.readSteps_write
  cases hdeep : s.isDeep with
  | true =>
      -- the doubled separator in front is the first step
      obtain rfl := Step.eq_deep hdeep
      obtain rfl := h.led rfl
      rw [writeSteps_deep, ← writeSteps_deep false, hcut.tokens_eq]
      exact ⟨rfl, hread true⟩
  | false =>
      rw [Step.token_of_not_deep hdeep] at hcut hread
      cases anchored with
      | false =>
          rw [hcut.tokens_eq]
          exact ⟨rfl, hread true⟩
      | true =>
          rw [writeSteps_behind hdeep,
            (Cut.separators 0 (by simp [Token.isWord]) hcut).tokens_eq]
          exact ⟨rfl, hread true⟩

/-- Steps of the right shape are read from what is written of them, unless blanks stand at an end of
it: names may begin and end with blanks beyond ASCII. -/
theorem read_write {anchored : Bool} {segments : List Step} (h : Shaped anchored segments)
    (htrimmed : Text.trimmed (write anchored segments) = write anchored segments)
    (sequence : Int) :
    read (write anchored segments) sequence =
      .ok { source := write anchored segments, segments, anchored, sequence } := by
  have hchars : (write anchored segments).toList = writeSteps anchored segments :=
    String.toList_ofList
  obtain ⟨hanchored, hread⟩ := h.readSegments_write
  have htrim : Text.trim (writeSteps anchored segments) = writeSteps anchored segments := by
    rwa [Text.trimmed_eq_self_iff, hchars] at htrimmed
  have hink : Text.allBlank (writeSteps anchored segments) = false := by
    rw [Bool.eq_false_iff]
    intro hblank
    rw [← htrim, Text.trim_of_allBlank hblank] at hread
    cases hread
  rw [read_eq, hchars, hink, htrim, hread, hanchored]
  simp [Except.map]

/-! ### Patterns and texts -/

/-- The steps that were read do not depend on the order of registration. -/
theorem read_congr {source : String} {m : Int} {p : Pattern} (h : read source m = .ok p)
    (n : Int) : read source n = .ok { p with sequence := n } := by
  rw [read_eq] at h ⊢
  split_ifs at h ⊢
  cases hsteps : readSegments (splitAnchor (tokens source.toList)).2 with
  | error flaw =>
      rw [hsteps] at h
      cases h
  | ok segments =>
      rw [hsteps] at h
      cases h
      rfl

/-- **Reading a pattern loses nothing** (`compile_pattern` and `Pattern.__str__`). Two texts that
are patterns are the same exactly where what their patterns keep of them is, which is whether they
are anchored, and their steps; the text is written from that. What is kept has the shape, and so no
two deep steps stand next to each other among the steps that are run. Whatever has the shape, and is
written without blanks at the ends, is what is kept of its text. -/
theorem read_keeps :
    (∀ (s t : String) (m n : Int) (p q : Pattern), read s m = .ok p → read t n = .ok q →
        (s = t ↔ (p.anchored, p.segments) = (q.anchored, q.segments))) ∧
      (∀ (s : String) (n : Int) (p : Pattern), read s n = .ok p →
        write p.anchored p.segments = s ∧ Shaped p.anchored p.segments ∧
          p.steps.IsChain Parted) ∧
      ∀ (anchored : Bool) (segments : List Step), Shaped anchored segments →
        Text.trimmed (write anchored segments) = write anchored segments →
          ∀ n, read (write anchored segments) n =
            .ok { source := write anchored segments, segments, anchored, sequence := n } := by
  refine ⟨fun s t m n p q hp hq => ?_, fun s n p hp => ?_, fun _ _ h htrimmed n => ?_⟩
  · constructor
    · rintro rfl
      have hsame := (read_congr hp n).symm.trans hq
      cases hsame
      rfl
    · intro hkept
      obtain ⟨hanchored, hsegments⟩ := Prod.mk.inj hkept
      rw [← (write_of_read hp).1, ← (write_of_read hq).1, hanchored, hsegments]
  · obtain ⟨hwritten, hshaped⟩ := write_of_read hp
    exact ⟨hwritten, hshaped, hshaped.parted_steps⟩
  · exact read_write h htrimmed n

/-- Two patterns that begin in two ways are told apart by what is kept of them, and the first one is
read again from what is written of its steps. -/
theorem read_keeps_list :
    let p : Pattern := ⟨"/list//*", [.element "list", .deep, .any], true, 0⟩
    let q : Pattern := ⟨"//list", [.deep, .element "list"], true, 1⟩
    read "/list//*" 0 = .ok p ∧ read "//list" 1 = .ok q ∧
      ("/list//*" = "//list" ↔ (p.anchored, p.segments) = (q.anchored, q.segments)) ∧
      write p.anchored p.segments = "/list//*" ∧ Shaped p.anchored p.segments ∧
      Text.trimmed (write p.anchored p.segments) = write p.anchored p.segments ∧
      read (write p.anchored p.segments) 7 =
        .ok ⟨write p.anchored p.segments, p.segments, p.anchored, 7⟩ := by
  intro p q
  obtain ⟨hsame, hkept, hread⟩ := read_keeps
  have hp : read "/list//*" 0 = .ok p := by decide
  have hq : read "//list" 1 = .ok q := by decide
  have htrimmed : Text.trimmed (write p.anchored p.segments) = write p.anchored p.segments := by
    decide
  obtain ⟨hwritten, hshaped, -⟩ := hkept _ _ _ hp
  exact ⟨hp, hq, hsame _ _ _ _ _ _ hp hq, hwritten, hshaped, htrimmed,
    hread _ _ hshaped htrimmed 7⟩

/-- A blank beyond ASCII is a name, but stands at an end of what is written of it. -/
example : Name.isValid ['\u00a0'] = true ∧
    read (write false [.element "\u00a0"]) 0 = .error .blank := by decide

end Pattern

end MarkupRouting
