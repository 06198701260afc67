import MarkupRouting.Proofs.Routing.Lasting
import MarkupRouting.Proofs.Routing.Visits

/-!
# Frames inside each other

What a frame knows of the rules is found from the frame around it alone, when its element is
entered. It is what the names of all elements around it tell.

* **Frame.Fits** — a frame knows what is to be known inside the frames around it.
* **Frame.Nested**, **Stack.Nested** — all frames of a stack do.
* **Frame.Nested.of_outlines** — nodes and counts have nothing to do with it.
* **Stack.Nested.fits_enter** — the frame of an element that is entered fits; **lasting_nested** —
  throughout a drive all frames do.
* **Frame.Nested.built_inwards**, **mode_inwards** — inside an element that is built everything is
  built, and no mode is lost.
* **Session.exists_calling**, **rule_mem_rulesFor** — handlers are those of the rules that the frame
  of the element names; **rules_of_calling** — these select the element.
-/

namespace MarkupRouting

variable {H : Type} {book : RuleBook H}

/-! ### Frames -/

namespace Frame

/-- The names of elements from the root down, with the innermost frame first. -/
def names (frames : List (Frame H)) : List String := (frames.map Frame.name).reverse

/-- The names on a stack are those around, and the top one last. -/
@[simp] theorem names_cons (f : Frame H) (around : List (Frame H)) :
    names (f :: around) = names around ++ [f.name] := by
  simp [names]

/-- What the frame of an element knows of the rules, where the given frames are around it: which
rules select it, which may select something further down, whether its node is built and in which
mode (`InterestTracker.open`). All of it is told by the names alone. -/
structure Fits (book : RuleBook H) (around : List (Frame H)) (f : Frame H) : Prop where
  /-- How many elements are open. -/
  depth_eq : f.depth = around.length + 1
  /-- The rules that may select something inside it. -/
  pending_eq : f.pending = Interest.along book.interests (names (f :: around))
  /-- The rules that select it and have an open handler. -/
  openRules_eq :
    f.openRules = (book.selecting (names (f :: around))).filter fun r => r.onOpen.isSome
  /-- The rules that select it and have a close handler. -/
  closeRules_eq :
    f.closeRules = (book.selecting (names (f :: around))).filter fun r => r.onClose.isSome
  /-- Its text mode. -/
  mode_eq : f.mode = book.modeAt (names (f :: around))
  /-- A node is built where a close handler wants that of the element or of one around it. -/
  materializing_iff : f.materializing = true ↔ ∃ g ∈ f :: around, g.closeRules ≠ []
  /-- Its path is known where somebody is told of it. -/
  path_eq : f.path = if f.materializing || !f.openRules.isEmpty then
    some (pathOf (names (f :: around))) else none

/-- Every frame fits into those around it. -/
inductive Nested (book : RuleBook H) : List (Frame H) → Prop where
  /-- No element is open. -/
  | nil : Nested book []
  /-- One more frame that fits. -/
  | cons {f : Frame H} {around : List (Frame H)} :
      f.Fits book around → Nested book around → Nested book (f :: around)

/-! ### What has nothing to do with it -/

/-- The frame without the state of its node and without what is counted and held back in it. -/
def outline (f : Frame H) : Frame H :=
  { f with attributes := [], position := 0, contents := none, buffer := [], counts := [],
           misnomer := none, spoiled := false, remade := none }

/-- The outline of a stack has the names of the stack. -/
theorem names_outline (frames : List (Frame H)) : names (frames.map outline) = names frames := by
  rw [names, List.map_map]
  rfl

/-- Outlines are enough to tell whether a frame fits. -/
theorem fits_outline {f : Frame H} {around : List (Frame H)} :
    f.outline.Fits book (around.map outline) ↔ f.Fits book around := by
  have hnames : names (f.outline :: around.map outline) = names (f :: around) :=
    names_outline (f :: around)
  have hclose : (∃ g ∈ f.outline :: around.map outline, g.closeRules ≠ []) ↔
      ∃ g ∈ f :: around, g.closeRules ≠ [] := by
    simp [outline]
  constructor
  · rintro ⟨h₁, h₂, h₃, h₄, h₅, h₆, h₇⟩
    rw [List.length_map] at h₁
    rw [hnames] at h₂ h₃ h₄ h₅ h₇
    exact ⟨h₁, h₂, h₃, h₄, h₅, h₆.trans hclose, h₇⟩
  · rintro ⟨h₁, h₂, h₃, h₄, h₅, h₆, h₇⟩
    rw [← hnames] at h₂ h₃ h₄ h₅ h₇
    refine ⟨?_, h₂, h₃, h₄, h₅, h₆.trans hclose.symm, h₇⟩
    rw [List.length_map]
    exact h₁

/-- What frames know of each other can be told from the outline: texts and nodes have no part in
it. -/
theorem nested_outline {frames : List (Frame H)} :
    Nested book (frames.map outline) ↔ Nested book frames := by
  induction frames with
  | nil => exact Iff.rfl
  | cons f around ih =>
      constructor
      · rintro (_ | ⟨hf, haround⟩)
        exact .cons (fits_outline.mp hf) (ih.mp haround)
      · rintro (_ | ⟨hf, haround⟩)
        exact .cons (fits_outline.mpr hf) (ih.mpr haround)

/-- Frames with the same outlines are nested as well. -/
theorem Nested.of_outlines {frames frames' : List (Frame H)} (h : Nested book frames)
    (heq : frames'.map outline = frames.map outline) : Nested book frames' := by
  rw [← nested_outline, heq]
  exact nested_outline.mpr h

/-! ### From the outside in -/

namespace Nested

variable {f : Frame H} {inner outer frames : List (Frame H)}

/-- The innermost frame fits into those around it, which are nested. -/
theorem of_cons (h : Nested book (f :: outer)) : f.Fits book outer ∧ Nested book outer := by
  obtain - | ⟨hf, houter⟩ := h
  exact ⟨hf, houter⟩

/-- Every frame fits into those around it, which are nested. -/
theorem of_append (h : Nested book (inner ++ f :: outer)) :
    f.Fits book outer ∧ Nested book outer := by
  induction inner with
  | nil => exact h.of_cons
  | cons g inner ih => exact ih h.of_cons.2

/-- Each element is open with one more than the one around it. -/
theorem depths_eq (h : Nested book frames) :
    frames.map Frame.depth = (List.range' 1 frames.length).reverse := by
  induction h with
  | nil => rfl
  | cons hf _ ih =>
      rw [List.map_cons, ih, hf.depth_eq, List.length_cons, List.range'_1_concat,
        List.reverse_append, Nat.add_comm]
      rfl

/-- Inside an element that is built everything is built. -/
theorem built_inwards (h : Nested book (inner ++ f :: outer)) (hf : f.materializing = true) :
    ∀ g ∈ inner, g.materializing = true := by
  intro g hg
  obtain ⟨before, after, rfl⟩ := List.append_of_mem hg
  obtain ⟨k, hk, hrules⟩ := h.of_append.1.materializing_iff.mp hf
  rw [List.append_assoc] at h
  refine h.of_append.1.materializing_iff.mpr ⟨k, ?_, hrules⟩
  exact List.mem_cons_of_mem g (List.mem_append_right after hk)

/-- Where no close handler wants a node no mode acts. -/
theorem mode_of_unwanted (h : Nested book frames) (hnone : ∀ g ∈ frames, g.closeRules = []) :
    book.modeAt (names frames) = .keep := by
  induction h with
  | nil => exact book.modeAt_nil
  | @cons f around hf haround ih =>
      obtain ⟨hrules, haround⟩ := List.forall_mem_cons.mp hnone
      have hclose := hf.closeRules_eq
      rw [hrules, names_cons] at hclose
      rw [names_cons, book.modeAt_concat, ih haround]
      exact congrArg (List.foldl _ TextMode.keep) hclose.symm

/-- An element that is not built has the mode that does nothing. -/
theorem mode_of_not_built (h : Nested book (f :: outer)) (hf : f.materializing = false) :
    f.mode = .keep := by
  obtain ⟨hfits, -⟩ := h.of_cons
  rw [hfits.mode_eq]
  refine h.mode_of_unwanted fun g hg => ?_
  by_contra hrules
  exact Bool.eq_false_iff.mp hf (hfits.materializing_iff.mpr ⟨g, hg, hrules⟩)

end Nested

end Frame

/-! ### Modes inside each other -/

namespace TextMode

/-- The second mode does whatever the first one does. -/
def Within (a b : TextMode) : Prop :=
  (a.trims = true → b.trims = true) ∧ (a.collapses = true → b.collapses = true)

/-- A mode does what it does. -/
theorem Within.refl (a : TextMode) : a.Within a := ⟨id, id⟩

/-- What a mode does, one that does more does too. -/
theorem Within.trans {a b c : TextMode} (hab : a.Within b) (hbc : b.Within c) : a.Within c :=
  ⟨hbc.1 ∘ hab.1, hbc.2 ∘ hab.2⟩

/-- Modes that are joined to one take nothing from it. -/
theorem within_foldl_join (rules : List (Rule H)) (a : TextMode) :
    a.Within (rules.foldl (fun mode r => mode.join r.mode) a) := by
  induction rules generalizing a with
  | nil => exact .refl a
  | cons r rest ih =>
      refine Within.trans ⟨fun h => ?_, fun h => ?_⟩ (ih (a.join r.mode))
      · rw [trims_join, h, Bool.true_or]
      · rw [collapses_join, h, Bool.true_or]

/-- In which order modes are joined makes no difference. -/
theorem foldl_join_perm {rules rules' : List (Rule H)} (h : rules.Perm rules') (a : TextMode) :
    rules.foldl (fun mode r => mode.join r.mode) a =
      rules'.foldl (fun mode r => mode.join r.mode) a := by
  refine h.foldl_eq' (fun r _ r' _ mode => ?_) a
  simp only [join, trims_ofFlags, collapses_ofFlags, Bool.or_assoc, Bool.or_comm r.mode.trims,
    Bool.or_comm r.mode.collapses]

end TextMode

/-- The mode of an element further down does whatever that of an element around it does. -/
theorem RuleBook.modeAt_within (book : RuleBook H) (path more : List String) :
    (book.modeAt path).Within (book.modeAt (path ++ more)) := by
  induction more using List.reverseRecOn with
  | nil => rw [List.append_nil]; exact .refl _
  | append_singleton more name ih =>
      rw [← List.append_assoc, book.modeAt_concat]
      exact ih.trans (TextMode.within_foldl_join _ _)

/-- Going inwards modes only do more. -/
theorem Frame.Nested.mode_inwards {f : Frame H} {inner outer : List (Frame H)}
    (h : Nested book (inner ++ f :: outer)) : ∀ g ∈ inner, f.mode.Within g.mode := by
  intro g hg
  obtain ⟨before, after, rfl⟩ := List.append_of_mem hg
  have hf := h.of_append.1.mode_eq
  rw [List.append_assoc] at h
  have hnames : names (g :: (after ++ f :: outer)) =
      names (f :: outer) ++ names (g :: after) := by
    simp [names]
  rw [hf, h.of_append.1.mode_eq]
  have hnames' : g :: (after.append (f :: outer)) = g :: (after ++ f :: outer) := rfl
  rw [hnames', hnames]
  exact book.modeAt_within _ _

/-! ### Stacks -/

namespace Stack

variable {st : Stack H}

/-- Every frame of the stack fits into those around it, and the rules above the root element are
those of the book. -/
structure Nested (book : RuleBook H) (st : Stack H) : Prop where
  /-- The frames fit. -/
  frames : Frame.Nested book st.frames
  /-- The rules above the root element. -/
  rootPending_eq : st.rootPending = book.interests

/-- Without open elements there is nothing to fit. -/
theorem nested_ofBook (book : RuleBook H) : (Stack.ofBook book).Nested book := ⟨.nil, rfl⟩

namespace Nested

/-- What a stack still expects is what the interests expect along its names. -/
theorem pending_eq (h : st.Nested book) :
    st.pending = Interest.along book.interests st.names := by
  obtain ⟨frames, rootPending, counts⟩ := st
  obtain ⟨hframes, rfl⟩ := h
  cases hframes with
  | nil => rfl
  | cons hf _ => exact hf.pending_eq

/-- A node is built for the innermost open element where a close handler wants that or one
around it. -/
theorem building_iff (h : st.Nested book) :
    st.building = true ↔ ∃ g ∈ st.frames, g.closeRules ≠ [] := by
  obtain ⟨frames, rootPending, counts⟩ := st
  cases h.frames with
  | nil => simp [Stack.building]
  | cons hf _ => exact hf.materializing_iff

/-- The mode a stack hands down to texts is the one of the book along its names. -/
theorem inheritedMode_eq (h : st.Nested book) :
    st.inheritedMode.getD .keep = book.modeAt st.names := by
  obtain ⟨frames, rootPending, counts⟩ := st
  cases frames with
  | nil => exact book.modeAt_nil.symm
  | cons f around =>
      have hfits := h.frames.of_cons.1
      have hmode : (⟨f :: around, rootPending, counts⟩ : Stack H).inheritedMode =
          if f.materializing then some f.mode else none := rfl
      rw [hmode]
      refine Eq.trans ?_ hfits.mode_eq
      cases hf : f.materializing with
      | true => rfl
      | false => exact (h.frames.mode_of_not_built hf).symm

/-- The frame of an element that is entered fits. -/
theorem fits_enter (h : st.Nested book) (name : String) (attributes : Table Value) :
    (st.enter name attributes).1.Fits book st.frames := by
  obtain ⟨hpending, hopen, hclose⟩ := rules_enter name attributes h.pending_eq
  have hmode := mode_enter name attributes h.pending_eq h.inheritedMode_eq
  have hnames : Frame.names ((st.enter name attributes).1 :: st.frames) = st.names ++ [name] :=
    Frame.names_cons _ _
  refine ⟨rfl, ?_, ?_, ?_, ?_, ?_, ?_⟩
  · rw [hnames, hpending]
  · rw [hnames, hopen]
  · rw [hnames, hclose]
  · rw [hnames, hmode]
  · rw [materializing_enter, h.building_iff, List.exists_mem_cons_iff, or_comm]
  · rw [hnames]
    rfl

/-- Around the innermost open element the stack is nested. -/
theorem around {f : Frame H} (h : (st.push f).Nested book) : st.Nested book :=
  ⟨(Frame.Nested.of_cons h.frames).2, h.rootPending_eq⟩

/-- A stack with the same outlines is nested as well. -/
theorem of_outlines {st' : Stack H} (h : st.Nested book)
    (heq : st'.frames.map Frame.outline = st.frames.map Frame.outline)
    (hroot : st'.rootPending = st.rootPending) : st'.Nested book :=
  ⟨h.frames.of_outlines heq, hroot.trans h.rootPending_eq⟩

/-- With the frame of an element on top that was entered the stack is nested. -/
theorem enter (h : st.Nested book) (name : String) (attributes : Table Value) :
    ((st.enter name attributes).2.push (st.enter name attributes).1).Nested book := by
  have hall : (st.push (st.enter name attributes).1).Nested book :=
    ⟨.cons (h.fits_enter name attributes) h.frames, h.rootPending_eq⟩
  obtain ⟨frames, rootPending, counts⟩ := st
  cases frames with
  | nil => exact hall.of_outlines rfl rfl
  | cons parent rest => exact hall.of_outlines rfl rfl

/-- Another state of the innermost frame makes no difference. -/
theorem of_push {f g : Frame H} (h : (st.push f).Nested book) (heq : g.outline = f.outline) :
    (st.push g).Nested book := by
  refine h.of_outlines ?_ rfl
  rw [push, push, List.map_cons, List.map_cons, heq]

end Nested

/-- **Throughout a drive every frame fits into those around it**, whatever handlers do. -/
theorem lasting_nested {σ : Type} (b : Behavior H σ) (book : RuleBook H) :
    Lasting b (Stack.Nested book) where
  entered name attributes h := h.enter name attributes
  reworded _ hword h := by
    obtain ⟨_, _, _, _, _, _, _, rfl, -, -⟩ := hword
    exact h.of_push rfl
  called c w t h := by
    obtain ⟨_, _, _, hrun, -⟩ := Action.touched_run (b c w) t
    refine h.of_push ?_
    rw [hrun]
    rfl
  left h := h.around
  adopted _ hnode hadopt h := by
    refine h.around.of_push ?_
    unfold Frame.adopt at hadopt
    split at hadopt
    · cases hadopt
    · cases hadopt
      rfl

end Stack

/-! ### Calls -/

/-- The rules whose handlers a frame says to call are those that select its element. -/
theorem Frame.Fits.rulesFor_eq {book : RuleBook H} {around : List (Frame H)} {f : Frame H}
    (hf : f.Fits book around) (phase : Phase) :
    f.rulesFor phase =
      (book.selecting (names (f :: around))).filter
        fun r => (Session.handlerOf phase r).isSome := by
  cases phase with
  | opening => exact hf.openRules_eq
  | closing => exact hf.closeRules_eq

namespace Session

variable {σ : Type} {b : Behavior H σ} {s s' : Session H σ} {f : Frame H} {phase : Phase}
  {rules : List (Rule H)} {m : Moment H σ}

/-- Where handlers are called for an element, the rules are those of its frame, or there is no node
to call close handlers with. -/
theorem rulesFor_of_calling {i : Item}
    (hstage : s.stage i = .calling phase rules s' f) : rules = f.rulesFor phase ∨ rules = [] := by
  have hstaged := s.staged i
  rw [hstage] at hstaged
  cases hstaged with
  | entered name attributes depth hpath => exact .inl rfl
  | left name depth f rest hframes hspoiled =>
      split
      · exact .inl rfl
      · exact .inr rfl

/-- Where handlers are called for an element, they are those of the rules that select it, in the
order of the book. -/
theorem rules_of_calling {i : Item} (h : s.stack.Nested book)
    (hstage : s.stage i = .calling phase rules s' f) (hne : rules ≠ []) :
    rules = (book.selecting (s'.stack.push f).names).filter
      fun r => (handlerOf phase r).isSome := by
  have hwhole :=
    (Stack.lasting_nested (fun (_ : Call H) (w : σ) => .finish w) book).stage (i := i) h
      (by rw [hstage]; trivial)
  rw [hstage] at hwhole
  rw [(rulesFor_of_calling hstage).resolve_right hne, hwhole.frames.of_cons.1.rulesFor_eq]
  rfl

/-- The handlers that are called for an item are called for one element, and are those of the rules
that its frame names. -/
theorem exists_calling {i : Item} (hgoing : s.stopPath = none) (hm : m ∈ (s.stage i).moments b) :
    ∃ phase s' f, s.stage i = .calling phase (f.rulesFor phase) s' f ∧
      ∀ p ∈ (s.stage i).moments b, s'.Beside p.session ∧ f.Touched p.frame ∧ p.phase = phase ∧
        p.rule ∈ f.rulesFor phase := by
  cases hstage : s.stage i with
  | settled s' fault =>
      rw [hstage] at hm
      cases hm
  | calling phase rules s' f =>
      rw [hstage] at hm
      have hsession : s'.stopPath = none := by
        obtain ⟨_, _, _, _, _, _, _, heq⟩ := s.stage_eq i
        rw [hstage] at heq
        exact (congrArg Session.stopPath heq).trans hgoing
      obtain ⟨-, -, -, -, hrule⟩ := mem_momentsFrom hsession hm
      obtain rfl := (rulesFor_of_calling hstage).resolve_right (List.ne_nil_of_mem hrule)
      exact ⟨phase, s', f, rfl, fun p hp => (mem_momentsFrom hsession hp).2⟩

/-- A handler that is called is that of a rule that the frame of the element names. -/
theorem rule_mem_rulesFor {feed : Feed} (hgoing : s.stopPath = none) (hm : m ∈ s.moments b feed) :
    m.rule ∈ m.frame.rulesFor m.phase := by
  obtain ⟨s', i, -, hnone, hmem⟩ := mem_moments (P := fun _ => True) (fun _ _ _ => trivial)
    (fun _ _ _ _ _ _ => trivial) feed trivial hgoing hm
  obtain ⟨phase, _, f, -, hknown⟩ := exists_calling (s := s'.counted) hnone hmem
  obtain ⟨-, ⟨_, _, _, hframe, -⟩, hphase, hrule⟩ := hknown m hmem
  rw [hphase, hframe]
  cases phase with
  | opening => exact hrule
  | closing => exact hrule

end Session

end MarkupRouting
