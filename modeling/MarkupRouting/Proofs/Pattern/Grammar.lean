import Mathlib.Tactic
import MarkupRouting.Rule.Book
import MarkupRouting.Routing.Fault
import MarkupRouting.Proofs.Text.Normal

/-!
# The grammar of patterns

Which texts are patterns, said of their characters: segments between single or doubled separators,
with a separator of either kind in front where one is wanted, and a doubled one at the end where one
is wanted. The reader goes through runs of separators and words instead.

* **Name.Word**, **Segment** — what stands between separators.
* **Row**, **Written** — segments with separators between them; the texts of patterns.
* **Cut** — a text cut into runs of separators and words; **cut_tokens** and **Cut.tokens_eq** say
  that the tokens of a text are the only way to do so.
* **Cut.row_of_readSteps**, **Row.readSteps_ok** — steps are read exactly where there is a row.
* **Cut.readSegments_flaw**, **read_flaw** — what is found wrong with a text.
* **read_ok_iff** — a text is a pattern exactly where it is written like one.
-/

namespace MarkupRouting

/-! ### Names -/

namespace Name

/-- The character may begin a name: an ASCII letter, `_`, `:`, or anything beyond ASCII. -/
def Begins (c : Char) : Prop :=
  ('a' ≤ c ∧ c ≤ 'z') ∨ ('A' ≤ c ∧ c ≤ 'Z') ∨ c = '_' ∨ c = ':' ∨ 0x80 ≤ c.toNat

/-- The character may stand behind the first one of a name: also an ASCII digit, `.` or `-`. -/
def Follows (c : Char) : Prop := Begins c ∨ ('0' ≤ c ∧ c ≤ '9') ∨ c = '.' ∨ c = '-'

/-- The characters are a name. -/
def Word (cs : List Char) : Prop := ∃ c rest, cs = c :: rest ∧ Begins c ∧ ∀ d ∈ rest, Follows d

/-- The code points that can begin a name (`is_name_start_char`) are those of the grammar. -/
theorem isStart_iff {c : Char} : isStart c = true ↔ Begins c := by
  have hletter : c.isAlpha =
      (decide ('A' ≤ c ∧ c ≤ 'Z') || (decide ('a' ≤ c) && decide (c ≤ 'z'))) := rfl
  simp only [isStart, Begins, hletter, Bool.or_eq_true, Bool.and_eq_true, decide_eq_true_eq,
    beq_iff_eq]
  tauto

/-- The code points that can follow in a name (`is_name_char`) are those of the grammar. -/
theorem isPart_iff {c : Char} : isPart c = true ↔ Follows c := by
  simp only [isPart, Follows, ← isStart_iff, Char.isDigit, Char.le_def, Bool.or_eq_true,
    Bool.and_eq_true, decide_eq_true_eq, beq_iff_eq]
  tauto

/-- The names that are accepted (`is_valid_name`) are the words of the grammar. -/
theorem isValid_iff {cs : List Char} : isValid cs = true ↔ Word cs := by
  cases cs with
  | nil => simp [isValid, Word]
  | cons c rest =>
      have hpart : isStart c = true → isPart c = true := fun h => by simp [isPart, h]
      simp only [isValid, Word, ← isStart_iff, ← isPart_iff, Bool.and_eq_true, List.all_eq_true,
        List.mem_cons, forall_eq_or_imp, List.cons.injEq]
      constructor
      · rintro ⟨hstart, -, hrest⟩
        exact ⟨c, rest, ⟨rfl, rfl⟩, hstart, hrest⟩
      · rintro ⟨_, _, ⟨rfl, rfl⟩, hstart, hrest⟩
        exact ⟨hstart, hpart hstart, hrest⟩

/-- A separator stands in no name. -/
theorem not_follows_separator : ¬ Follows '/' := by
  rw [← isPart_iff]
  decide

end Name

namespace Pattern

/-! ### The grammar -/

/-- What stands between separators: a star or a name. -/
def Segment (cs : List Char) : Prop := cs = ['*'] ∨ Name.Word cs

/-- Segments, at least one, each behind a single or a doubled separator but for the first one; a
doubled separator may stand at the end. -/
inductive Row : List Char → Prop where
  /-- The last segment. -/
  | last {w : List Char} : Segment w → Row w
  /-- The last segment with a doubled separator behind it. -/
  | trailing {w : List Char} : Segment w → Row (w ++ ['/', '/'])
  /-- A segment with a single separator behind it. -/
  | single {w cs : List Char} : Segment w → Row cs → Row (w ++ '/' :: cs)
  /-- A segment with a doubled separator behind it. -/
  | double {w cs : List Char} : Segment w → Row cs → Row (w ++ '/' :: '/' :: cs)

/-- How patterns are written: a doubled separator alone, or a row, with a single or a doubled
separator in front of it or none. -/
def Written (cs : List Char) : Prop :=
  cs = ['/', '/'] ∨ ∃ front row, front ∈ [[], ['/'], ['/', '/']] ∧ Row row ∧ cs = front ++ row

/-- A segment is not empty. -/
theorem Segment.ne_nil {w : List Char} (h : Segment w) : w ≠ [] := by
  rcases h with rfl | ⟨c, rest, rfl, -, -⟩
  · exact List.cons_ne_nil _ _
  · exact List.cons_ne_nil _ _

/-- No separator stands in a segment. -/
theorem Segment.separator_notMem {w : List Char} (h : Segment w) : '/' ∉ w := by
  rcases h with rfl | ⟨c, rest, rfl, hc, hrest⟩
  · decide
  · intro hmem
    rcases List.mem_cons.mp hmem with rfl | hmem
    · exact Name.not_follows_separator (.inl hc)
    · exact Name.not_follows_separator (hrest _ hmem)

/-- A word is read as a step exactly where it is a segment. -/
theorem readWord_ok_iff {w : List Char} : (∃ s, readWord w = .ok s) ↔ Segment w := by
  rw [readWord, Segment, ← Name.isValid_iff]
  split_ifs with hstar hvalid
  · simp [hstar]
  · simp [hvalid]
  · simp [hstar, hvalid]

/-! ### Tokens -/

/-- The token is a word. -/
def Token.isWord : Token → Bool
  | separators _ => false
  | word _ => true

/-- The tokens cut the text into runs of separators and words, each as long as can be. No other
tokens cut it so, whence what is read off the tokens is a matter of the text alone. -/
inductive Cut : List Token → List Char → Prop where
  /-- Nothing is left. -/
  | nil : Cut [] []
  /-- A run of separators. -/
  | separators {ts : List Token} {cs : List Char} (n : Nat)
      (hnext : ∀ t ∈ ts.head?, t.isWord = true) (h : Cut ts cs) :
      Cut (.separators (n + 1) :: ts) (List.replicate (n + 1) '/' ++ cs)
  /-- A word. -/
  | word {ts : List Token} {cs w : List Char} (hne : w ≠ []) (hw : '/' ∉ w)
      (hnext : ∀ t ∈ ts.head?, t.isWord = false) (h : Cut ts cs) : Cut (.word w :: ts) (w ++ cs)

/-- The tokens of a text cut it. -/
theorem cut_tokens (cs : List Char) : Cut (tokens cs) cs := by
  induction cs with
  | nil => exact .nil
  | cons c rest ih =>
      have hcons : tokens (c :: rest) = Token.extend c (tokens rest) := rfl
      rw [hcons]
      generalize tokens rest = ts at ih
      by_cases hc : c = '/'
      · subst hc
        cases ih with
        | nil => exact .separators 0 (by simp) .nil
        | separators n hnext h => exact .separators (n + 1) hnext h
        | word hne hw hnext h => exact .separators 0 (by simp [Token.isWord]) (.word hne hw hnext h)
      · have hslash : '/' ∉ [c] := by simpa using Ne.symm hc
        cases ih with
        | nil =>
            simpa [Token.extend, hc] using Cut.word (List.cons_ne_nil c []) hslash (by simp) .nil
        | separators n hnext h =>
            simpa [Token.extend, hc] using
              Cut.word (List.cons_ne_nil c []) hslash (by simp [Token.isWord])
                (.separators n hnext h)
        | @word _ _ w hne hw hnext h =>
            simpa [Token.extend, hc] using
              Cut.word (List.cons_ne_nil c w) (by simp [Ne.symm hc, hw]) hnext h

/-- There is only one way to cut a text. -/
theorem Cut.tokens_eq {ts : List Token} {cs : List Char} (h : Cut ts cs) : tokens cs = ts := by
  induction h with
  | nil => rfl
  | @separators ts cs n hnext h ih =>
      induction n with
      | zero =>
          have hcons : tokens ('/' :: cs) = Token.extend '/' (tokens cs) := rfl
          rw [List.replicate_one, List.singleton_append, hcons, ih]
          cases ts with
          | nil => rfl
          | cons t rest =>
              cases t with
              | separators m => exact absurd (hnext _ rfl) (by simp [Token.isWord])
              | word w => rfl
      | succ n ihn =>
          have hcons : tokens ('/' :: (List.replicate (n + 1) '/' ++ cs)) =
              Token.extend '/' (tokens (List.replicate (n + 1) '/' ++ cs)) := rfl
          rw [List.replicate_succ, List.cons_append, hcons, ihn]
          rfl
  | @word ts cs w hne hw hnext h ih =>
      induction w with
      | nil => exact absurd rfl hne
      | cons c w ihw =>
          rw [List.mem_cons, not_or] at hw
          have hcons : tokens (c :: (w ++ cs)) = Token.extend c (tokens (w ++ cs)) := rfl
          rw [List.cons_append, hcons]
          cases w with
          | nil =>
              rw [List.nil_append, ih]
              cases ts with
              | nil => simp [Token.extend, Ne.symm hw.1]
              | cons t rest =>
                  cases t with
                  | separators m => simp [Token.extend, Ne.symm hw.1]
                  | word w => exact absurd (hnext _ rfl) (by simp [Token.isWord])
          | cons d w =>
              rw [ihw (List.cons_ne_nil d w) hw.2]
              simp [Token.extend, Ne.symm hw.1]

/-! ### Steps -/

/-- What may stand behind a segment: nothing, a doubled separator, or a single or a doubled one with
a row behind it. -/
def Rest (cs : List Char) : Prop :=
  cs = [] ∨ cs = ['/', '/'] ∨ ∃ row, Row row ∧ (cs = '/' :: row ∨ cs = '/' :: '/' :: row)

/-- A segment and what may stand behind one are a row. -/
theorem Rest.row {w cs : List Char} (h : Rest cs) (hw : Segment w) : Row (w ++ cs) := by
  rcases h with rfl | rfl | ⟨row, hrow, rfl | rfl⟩
  · rw [List.append_nil]
    exact .last hw
  · exact .trailing hw
  · exact .single hw hrow
  · exact .double hw hrow

/-- Where a word is read, it is a segment, and steps are read behind it. -/
theorem readSteps_word_ok {expecting : Bool} {w : List Char} {ts : List Token} {steps : List Step}
    (h : readSteps expecting (.word w :: ts) = .ok steps) :
    Segment w ∧ ∃ more, readSteps false ts = .ok more := by
  unfold readSteps at h
  split at h
  · cases h
  next s hs =>
    split at h
    next more hmore => exact ⟨readWord_ok_iff.mp ⟨s, hs⟩, more, hmore⟩
    · cases h

/-- Where tokens begin with a word, the first of them is one. -/
theorem exists_word {ts : List Token} (hne : ts ≠ []) (hnext : ∀ t ∈ ts.head?, t.isWord = true) :
    ∃ w rest, ts = .word w :: rest := by
  cases ts with
  | nil => exact absurd rfl hne
  | cons t rest =>
      cases t with
      | separators n => exact absurd (hnext _ rfl) (by simp [Token.isWord])
      | word w => exact ⟨w, rest, rfl⟩

/-- **Where steps are read there is a row**, or behind a segment what may stand there. -/
theorem Cut.row_of_readSteps {ts : List Token} {cs : List Char} (h : Cut ts cs) :
    ((∀ t ∈ ts.head?, t.isWord = false) → (∃ steps, readSteps false ts = .ok steps) → Rest cs) ∧
      ∀ w rest, ts = .word w :: rest → ∀ expecting, (∃ steps, readSteps expecting ts = .ok steps) →
        Row cs := by
  induction h with
  | nil => exact ⟨fun _ _ => .inl rfl, nofun⟩
  | @separators ts cs n hnext h ih =>
      refine ⟨fun _ ⟨steps, hsteps⟩ => ?_, nofun⟩
      -- behind a run of separators steps are read from a word on, or there is nothing
      have hrow : ∀ {expecting : Bool} {more : List Step}, ts ≠ [] →
          readSteps expecting ts = .ok more → Row cs := by
        intro expecting more hne hmore
        obtain ⟨w, rest, hword⟩ := exists_word hne hnext
        exact ih.2 w rest hword expecting ⟨more, hmore⟩
      unfold readSteps at hsteps
      split_ifs at hsteps with hlong hdouble
      · obtain rfl : n = 1 := by omega
        split at hsteps
        next more hmore =>
          by_cases hne : ts = []
          · subst hne
            cases h
            exact .inr (.inl rfl)
          · exact .inr (.inr ⟨cs, hrow hne hmore, .inr rfl⟩)
        · cases hsteps
      · obtain rfl : n = 0 := by omega
        have hne : ts ≠ [] := by
          rintro rfl
          cases hsteps
        exact .inr (.inr ⟨cs, hrow hne hsteps, .inl rfl⟩)
  | @word ts cs w hne hw hnext h ih =>
      refine ⟨fun hword => absurd (hword _ rfl) (by simp [Token.isWord]), ?_⟩
      intro _ _ _ expecting ⟨steps, hsteps⟩
      obtain ⟨hsegment, more, hmore⟩ := readSteps_word_ok hsteps
      exact (ih.1 hnext ⟨more, hmore⟩).row hsegment

/-- A segment is read where steps are read behind it. -/
theorem readSteps_word {w : List Char} (hw : Segment w) (expecting : Bool) {ts : List Token}
    (h : ∃ more, readSteps false ts = .ok more) :
    ∃ steps, readSteps expecting (.word w :: ts) = .ok steps := by
  obtain ⟨s, hs⟩ := readWord_ok_iff.mpr hw
  obtain ⟨more, hmore⟩ := h
  exact ⟨s :: more, by rw [readSteps, hs]; dsimp only; rw [hmore]⟩

/-- Where tokens begin with a run of separators, reading them does not depend on what is expected
unless the run is a single one. -/
theorem readSteps_double (expecting : Bool) (ts : List Token) :
    readSteps expecting (.separators 2 :: ts) =
      match readSteps (!ts.isEmpty) ts with
      | .ok more => .ok (.deep :: more)
      | .error flaw => .error flaw := rfl

/-- **Where there is a row steps are read**, and the first token is a word. -/
theorem Row.readSteps_ok {cs : List Char} (h : Row cs) :
    ∃ w ts, Cut (.word w :: ts) cs ∧
      ∀ expecting, ∃ steps, readSteps expecting (.word w :: ts) = .ok steps := by
  induction h with
  | @last w hw =>
      refine ⟨w, [], ?_, fun expecting => readSteps_word hw expecting ⟨[], rfl⟩⟩
      simpa using Cut.word hw.ne_nil hw.separator_notMem (by simp) .nil
  | @trailing w hw =>
      refine ⟨w, [.separators 2], ?_, fun expecting => readSteps_word hw expecting ⟨[.deep], rfl⟩⟩
      exact .word hw.ne_nil hw.separator_notMem (by simp [Token.isWord])
        (.separators 1 (by simp) .nil)
  | @single w cs hw _ ih =>
      obtain ⟨v, ts, hcut, hread⟩ := ih
      refine ⟨w, .separators 1 :: .word v :: ts, ?_, fun expecting => ?_⟩
      · exact .word hw.ne_nil hw.separator_notMem (by simp [Token.isWord])
          (.separators 0 (by simp [Token.isWord]) hcut)
      · exact readSteps_word hw expecting (hread true)
  | @double w cs hw _ ih =>
      obtain ⟨v, ts, hcut, hread⟩ := ih
      refine ⟨w, .separators 2 :: .word v :: ts, ?_, fun expecting => ?_⟩
      · exact .word hw.ne_nil hw.separator_notMem (by simp [Token.isWord])
          (.separators 1 (by simp [Token.isWord]) hcut)
      · obtain ⟨more, hmore⟩ := hread true
        refine readSteps_word hw expecting ⟨.deep :: more, ?_⟩
        have hmiddle : (!(Token.word v :: ts).isEmpty) = true := rfl
        rw [readSteps_double, hmiddle, hmore]

/-- A row is not empty. -/
theorem Row.ne_nil {cs : List Char} (h : Row cs) : cs ≠ [] := by
  cases h with
  | last hw => exact hw.ne_nil
  | trailing hw => exact List.append_ne_nil_of_left_ne_nil hw.ne_nil _
  | single hw => exact List.append_ne_nil_of_left_ne_nil hw.ne_nil _
  | double hw => exact List.append_ne_nil_of_left_ne_nil hw.ne_nil _

/-! ### Whole texts -/

/-- Where the steps of a text are read, it is written like a pattern. -/
theorem Cut.written_of_readSegments {ts : List Token} {cs : List Char} (hcut : Cut ts cs)
    {steps : List Step} (hsteps : readSegments (splitAnchor ts).2 = .ok steps) : Written cs := by
  cases hcut with
  | nil => cases hsteps
  | @separators ts cs n hnext h =>
      -- what is read behind the separators in front is a row
      have hrow : ∀ {more : List Step}, ts ≠ [] → readSteps true ts = .ok more → Row cs := by
        intro more hne hmore
        obtain ⟨w, rest, hword⟩ := exists_word hne hnext
        exact h.row_of_readSteps.2 w rest hword true ⟨more, hmore⟩
      match n, hsteps with
      | 0, hsteps =>
          have hne : ts ≠ [] := by
            rintro rfl
            cases hsteps
          have hread : readSegments ts = readSteps true ts :=
            if_neg (by simpa using hne)
          exact .inr ⟨['/'], cs, by simp, hrow hne (hread ▸ hsteps), rfl⟩
      | 1, hsteps =>
          have hread : readSteps true (.separators 2 :: ts) = .ok steps := hsteps
          rw [readSteps_double] at hread
          by_cases hne : ts = []
          · subst hne
            cases h
            exact .inl rfl
          · have hexpecting : (!ts.isEmpty) = true := by simpa using hne
            rw [hexpecting] at hread
            split at hread
            next more hmore => exact .inr ⟨['/', '/'], cs, by simp, hrow hne hmore, rfl⟩
            · cases hread
      | n + 2, hsteps => cases hsteps
  | @word ts cs w hne hw hnext h =>
      have hrow := (Cut.word hne hw hnext h).row_of_readSteps.2 w ts rfl true ⟨steps, hsteps⟩
      exact .inr ⟨[], w ++ cs, by simp, hrow, rfl⟩

/-- Where a text is written like a pattern, its steps are read. -/
theorem Written.readSegments_ok {cs : List Char} (h : Written cs) :
    ∃ steps, readSegments (splitAnchor (tokens cs)).2 = .ok steps := by
  rcases h with rfl | ⟨front, row, hfront, hrow, rfl⟩
  · exact ⟨[.deep], rfl⟩
  · obtain ⟨w, ts, hcut, hread⟩ := hrow.readSteps_ok
    have hnext : ∀ t ∈ (Token.word w :: ts).head?, t.isWord = true := by simp [Token.isWord]
    simp only [List.mem_cons, List.not_mem_nil, or_false] at hfront
    rcases hfront with rfl | rfl | rfl
    · rw [List.nil_append, hcut.tokens_eq]
      exact hread true
    · have htokens : tokens (['/'] ++ row) = .separators 1 :: .word w :: ts :=
        (Cut.separators 0 hnext hcut).tokens_eq
      rw [htokens]
      exact hread true
    · have htokens : tokens (['/', '/'] ++ row) = .separators 2 :: .word w :: ts :=
        (Cut.separators 1 hnext hcut).tokens_eq
      obtain ⟨more, hmore⟩ := hread true
      rw [htokens]
      refine ⟨.deep :: more, ?_⟩
      have hdouble : readSegments (splitAnchor (.separators 2 :: .word w :: ts)).2 =
          readSteps true (.separators 2 :: .word w :: ts) := rfl
      rw [hdouble, readSteps_double, List.isEmpty_cons, Bool.not_false, hmore]

/-- The steps of a text are read exactly where it is written like a pattern. -/
theorem readSegments_ok_iff (cs : List Char) :
    (∃ steps, readSegments (splitAnchor (tokens cs)).2 = .ok steps) ↔ Written cs :=
  ⟨fun ⟨_, hsteps⟩ => (cut_tokens cs).written_of_readSegments hsteps, Written.readSegments_ok⟩

/-! ### Flaws -/

/-- What is wrong with a word that is no segment is just that. -/
theorem readWord_flaw {w : List Char} {flaw : Flaw} (h : readWord w = .error flaw) :
    flaw = .badSegment (String.ofList w) := by
  rw [readWord] at h
  split_ifs at h
  cases h
  rfl

/-- Reading steps (`_parse_segments`) does not find that there are none, nor that there is no text:
both are found before. -/
theorem readSteps_ne {flaw : Flaw} (hflaw : flaw = .noSegments ∨ flaw = .unwritable)
    (expecting : Bool) (ts : List Token) : readSteps expecting ts ≠ .error flaw := by
  have hword : ∀ w, .badSegment w ≠ flaw := by rcases hflaw with rfl | rfl <;> simp
  induction ts generalizing expecting with
  | nil => rcases hflaw with rfl | rfl <;> cases expecting <;> simp [readSteps]
  | cons t rest ih =>
      cases t with
      | separators n =>
          unfold readSteps
          split_ifs
          · rcases hflaw with rfl | rfl <;> simp
          · have hrest := ih (!rest.isEmpty)
            split
            · simp
            next found hfound => exact fun h => hrest (hfound.trans h)
          · rcases hflaw with rfl | rfl <;> simp
          · exact ih true
      | word w =>
          unfold readSteps
          have hrest := ih false
          split
          next found hfound =>
              rw [readWord_flaw hfound]
              exact fun h => hword _ (Except.error.inj h)
          · split
            · simp
            next found hfound => exact fun h => hrest (hfound.trans h)

/-- Where a text is cut, no two single separators stand with nothing between them. -/
theorem Cut.readSteps_ne_emptySegment {ts : List Token} {cs : List Char} (h : Cut ts cs)
    (expecting : Bool)
    (hfirst : expecting = true → ∀ n rest, ts = .separators n :: rest → 2 ≤ n) :
    readSteps expecting ts ≠ .error .emptySegment := by
  induction h generalizing expecting with
  | nil => cases expecting <;> simp [readSteps]
  | @separators ts cs n hnext h ih =>
      have hrest : ∀ expecting, readSteps expecting ts ≠ .error .emptySegment := by
        refine fun expecting => ih expecting fun _ m rest hm => ?_
        subst hm
        exact absurd (hnext _ rfl) (by simp [Token.isWord])
      unfold readSteps
      split_ifs with hlong hdouble hexpecting
      · simp
      · have hmore := hrest (!ts.isEmpty)
        split
        · simp
        next flaw hflaw => exact fun h => hmore (hflaw.trans h)
      · have hle := hfirst hexpecting _ _ rfl
        omega
      · exact hrest true
  | @word ts cs w hne hw hnext h ih =>
      have hrest := ih false nofun
      unfold readSteps
      split
      next flaw hflaw => simp [readWord_flaw hflaw]
      · split
        · simp
        next flaw hflaw => exact fun h => hrest (hflaw.trans h)

/-- Where there are tokens to be read that do not begin with a single separator, neither a segment
is missing nor all of them are. -/
theorem Cut.readSegments_flaw {ts : List Token} {cs : List Char} (hcut : Cut ts cs) (hne : ts ≠ [])
    (hfirst : ∀ n rest, ts = .separators n :: rest → 2 ≤ n) {flaw : Flaw}
    (h : readSegments ts = .error flaw) : flaw ≠ .emptySegment ∧ flaw ≠ .noSegments := by
  have hsteps : readSteps true ts = .error flaw := by
    rwa [readSegments, if_neg (by simpa using hne)] at h
  refine ⟨?_, ?_⟩
  · rintro rfl
    exact hcut.readSteps_ne_emptySegment true (fun _ => hfirst) hsteps
  · rintro rfl
    exact readSteps_ne (.inl rfl) true ts hsteps

/-- Reading the steps of a text finds no two single separators with nothing between them, and finds
that there are none in a single separator only. -/
theorem tokens_flaw {cs : List Char} {flaw : Flaw}
    (h : readSegments (splitAnchor (tokens cs)).2 = .error flaw) (hcs : cs ≠ []) :
    flaw ≠ .emptySegment ∧ (flaw = .noSegments ↔ cs = ['/']) := by
  have hcut := cut_tokens cs
  generalize tokens cs = ts at hcut h
  cases hcut with
  | nil => exact absurd rfl hcs
  | @separators ts cs n hnext hcut =>
      match n, h with
      | 0, h =>
          by_cases hne : ts = []
          · subst hne
            cases hcut
            cases h
            exact ⟨by simp, by simp⟩
          · obtain ⟨w, rest, rfl⟩ := exists_word hne hnext
            obtain ⟨hempty, hnone⟩ := hcut.readSegments_flaw hne nofun h
            refine ⟨hempty, iff_of_false hnone ?_⟩
            cases hcut with
            | word hw => simp [hw]
      | n + 1, h =>
          have hfirst : ∀ m rest, Token.separators (n + 2) :: ts = .separators m :: rest →
              2 ≤ m := by
            intro m rest hm
            cases hm
            omega
          have hsplit : (splitAnchor (.separators (n + 2) :: ts)).2 =
              .separators (n + 2) :: ts := by
            cases n <;> rfl
          rw [hsplit] at h
          obtain ⟨hempty, hnone⟩ :=
            (Cut.separators (n + 1) hnext hcut).readSegments_flaw (List.cons_ne_nil _ _) hfirst h
          refine ⟨hempty, iff_of_false hnone ?_⟩
          simp [List.replicate_succ]
  | @word ts cs w hne hw hnext hcut =>
      obtain ⟨hempty, hnone⟩ :=
        (Cut.word hne hw hnext hcut).readSegments_flaw (List.cons_ne_nil _ _) nofun h
      refine ⟨hempty, iff_of_false hnone fun hslash => ?_⟩
      cases w with
      | nil => exact hne rfl
      | cons c w =>
          obtain ⟨rfl, -⟩ := List.cons.inj hslash
          exact hw List.mem_cons_self

/-- A text that is written like a pattern is not empty. -/
theorem Written.ne_nil {cs : List Char} (h : Written cs) : cs ≠ [] := by
  rcases h with rfl | ⟨front, row, -, hrow, rfl⟩
  · exact List.cons_ne_nil _ _
  · exact List.append_ne_nil_of_right_ne_nil _ hrow.ne_nil

/-- Where there is nothing but blanks, or where blanks stand at an end, a text is no pattern; else
its tokens decide. -/
theorem read_eq (source : String) (sequence : Int) :
    read source sequence =
      if Text.allBlank source.toList then .error .blank
      else if Text.trim source.toList ≠ source.toList then .error .surroundingBlanks
      else (readSegments (splitAnchor (tokens source.toList)).2).map fun segments =>
        { source, segments, anchored := (splitAnchor (tokens source.toList)).1, sequence } := by
  rw [read]
  split_ifs
  · rfl
  · rfl
  · dsimp only
    generalize readSegments _ = steps
    cases steps with
    | ok segments => rfl
    | error flaw => rfl

/-- A text is a pattern exactly where it is written like one and has no blanks at its ends. -/
theorem read_ok_iff (source : String) (sequence : Int) :
    (∃ p, read source sequence = .ok p) ↔ Text.trimmed source = source ∧ Written source.toList := by
  rw [read_eq, Text.trimmed_eq_self_iff, ← readSegments_ok_iff]
  split_ifs with hblank htrim
  · refine iff_of_false (by simp) fun ⟨htrim, hread⟩ => ?_
    have hnil : source.toList = [] := by rw [← htrim, Text.trim_of_allBlank hblank]
    exact ((readSegments_ok_iff _).mp hread).ne_nil hnil
  · exact iff_of_false (by simp) fun h => htrim h.1
  · rw [ne_eq, not_not] at htrim
    rw [and_iff_right htrim]
    generalize readSegments _ = steps
    cases steps with
    | ok segments => simp [Except.map]
    | error flaw => simp [Except.map]

/-- Of a text it is never the flaw that a segment is missing, and that all of them are is the flaw
of a single separator only. -/
theorem read_flaw {source : String} {sequence : Int} {flaw : Flaw}
    (h : read source sequence = .error flaw) :
    flaw ≠ .emptySegment ∧ (flaw = .noSegments ↔ source = "/") := by
  have hslash : source = "/" ↔ source.toList = ['/'] := by
    rw [← String.toList_inj]
    rfl
  rw [read_eq] at h
  rw [hslash]
  split_ifs at h with hblank htrim
  · cases h
    refine ⟨by simp, iff_of_false (by simp) fun hsource => ?_⟩
    rw [hsource] at hblank
    exact absurd hblank (by decide)
  · cases h
    refine ⟨by simp, iff_of_false (by simp) fun hsource => htrim ?_⟩
    rw [hsource]
    decide
  · have hne : source.toList ≠ [] := by
      intro hnil
      rw [hnil] at hblank
      exact hblank rfl
    cases hsteps : readSegments (splitAnchor (tokens source.toList)).2 with
    | ok segments =>
        rw [hsteps] at h
        cases h
    | error flaw' =>
        rw [hsteps] at h
        cases h
        exact tokens_flaw hsteps hne

/-- Of a text it is never the flaw that it is no text and cannot be written. -/
theorem read_ne_unwritable (source : String) (sequence : Int) :
    read source sequence ≠ .error .unwritable := by
  rw [read_eq]
  split_ifs
  · simp
  · simp
  · rw [readSegments]
    split_ifs
    · simp [Except.map]
    · have hsteps := readSteps_ne (.inr rfl) true (splitAnchor (tokens source.toList)).2
      generalize readSteps true _ = steps at hsteps
      cases steps with
      | ok segments => simp [Except.map]
      | error flaw => simpa [Except.map] using hsteps

/-- What is wrong with a value that is no pattern does not depend on the order of registration. -/
theorem ofValue_error_congr {v : Value} {sequence : Int} {flaw : Flaw}
    (h : ofValue v sequence = .error flaw) (sequence' : Int) :
    ofValue v sequence' = .error flaw := by
  cases v with
  | text source =>
      simp only [ofValue, read_eq] at h ⊢
      split_ifs at h ⊢
      · exact h
      · exact h
      · generalize readSegments _ = steps at h ⊢
        cases steps with
        | ok segments => cases h
        | error flaw' => exact h
  | _ => exact h

/-- The fault with which a value is refused is one of patterns, if the value can be written. -/
theorem kind_of_ofValue {v : Value} (hv : v.isWritable = true) {sequence : Int} {flaw : Flaw}
    (h : ofValue v sequence = .error flaw) :
    (Fault.rule (.pattern v flaw)).kind = "InvalidPatternError" := by
  cases flaw with
  | unwritable =>
      cases v with
      | text source => exact absurd h (read_ne_unwritable source sequence)
      | _ => simp [ofValue, hv] at h
  | _ => rfl

/-- **Patterns are what the grammar says** (`compile_pattern`). A value is a pattern exactly where
it is a text without blanks at its ends that is written like one. Any other value is refused, with a
fault of patterns that carries it if the value can be written, as every text can: the fault shows
the value. If not, the attempt to show it fails with a plain fault. That two single separators stand
with nothing between them is never the reason, and that there is no step at all is the reason for a
single separator only. -/
theorem ofValue_ok_iff_written {H : Type} (v : Value) (sequence : Int) :
    ((∃ p, ofValue v sequence = .ok p) ↔
        ∃ source, v = .text source ∧ Text.trimmed source = source ∧ Written source.toList) ∧
      ∀ flaw, ofValue v sequence = .error flaw →
        flaw ≠ .emptySegment ∧ (flaw = .noSegments ↔ v = .text "/") ∧
          ∀ (book : RuleBook H) (offer : Offer H),
            book.register v offer = .error (.pattern v flaw) ∧
              (v.isWritable = true →
                (Fault.rule (.pattern v flaw)).kind = "InvalidPatternError") := by
  refine ⟨?_, fun flaw hflaw => ?_⟩
  · cases v with
    | text source => simp [ofValue, read_ok_iff]
    | _ => simp [ofValue]
  · have hregister : ∀ (book : RuleBook H) (offer : Offer H),
        book.register v offer = .error (.pattern v flaw) := by
      intro book offer
      rw [RuleBook.register, RuleBook.rule, ofValue_error_congr hflaw book.next]
    rw [← and_assoc]
    refine ⟨?_, fun book offer => ⟨hregister book offer, fun hv => kind_of_ofValue hv hflaw⟩⟩
    cases v with
    | text source => simpa using read_flaw hflaw
    | _ =>
        simp only [ofValue] at hflaw
        obtain rfl := Except.error.inj hflaw
        split_ifs <;> simp

/-- Two segments with a single separator in front and a doubled one between them are a pattern; a
separator alone is none, and neither is a number that can be written: the fault carries them, and
is one of patterns. -/
theorem ofValue_ok_iff_written_list :
    let refused := fun (v : Value) (flaw : Flaw) =>
      (RuleBook.empty .keep : RuleBook Unit).register v (.handler ()) = .error (.pattern v flaw) ∧
        (Fault.rule (.pattern v flaw)).kind = "InvalidPatternError"
    (∃ p, ofValue (.text "/list//*") 0 = .ok p) ∧
      ofValue (.text "/") 0 = .error .noSegments ∧ refused (.text "/") .noSegments ∧
      (Value.int 7).isWritable = true ∧ ofValue (.int 7) 0 = .error .notText ∧
      refused (.int 7) .notText := by
  intro refused
  have hlist : Segment "list".toList :=
    .inr ⟨'l', "ist".toList, rfl, by simp [Name.Begins], by simp [Name.Follows, Name.Begins]⟩
  have hflaw : ofValue (.text "/") 0 = .error .noSegments := rfl
  have hseven : (Value.int 7).isWritable = true := by decide
  have hnumber : ofValue (.int 7) 0 = .error .notText := rfl
  obtain ⟨hiff, -⟩ := ofValue_ok_iff_written (H := Unit) (.text "/list//*") 0
  obtain ⟨-, hflaws⟩ := ofValue_ok_iff_written (H := Unit) (.text "/") 0
  obtain ⟨-, hnumbers⟩ := ofValue_ok_iff_written (H := Unit) (.int 7) 0
  obtain ⟨hregister, hkind⟩ := (hflaws _ hflaw).2.2 (.empty .keep) (.handler ())
  obtain ⟨hregister', hkind'⟩ := (hnumbers _ hnumber).2.2 (.empty .keep) (.handler ())
  refine ⟨hiff.mpr ⟨_, rfl, by decide, ?_⟩, hflaw, ⟨hregister, hkind rfl⟩, hseven, hnumber,
    hregister', hkind' hseven⟩
  exact .inr ⟨['/'], "list//*".toList, by simp, .double hlist (.last (.inl rfl)), rfl⟩

end Pattern

end MarkupRouting
