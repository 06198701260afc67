import MarkupRouting.Proofs.Routing.Nesting

/-!
# What the moves that led to a stack tell of it

Elements are entered and left, and sometimes all that are open are given up at once. A frame is made
from the stack alone, as it is when its element is entered. What it knows is told by the whole way
to the stack: which elements are still open, and which ones were entered in the same place before.

* **Move**, **Stack.move**, **Stack.follow** — what is done to a stack, one step and many.
* **Move.opened**, **Move.inside** — which moves entered the elements that are still open; the names
  of all elements that were entered in one place.
* **Frame.Entered**, **Stack.Trailed** — what one move keeps of a frame and of a stack.
* **Frame.Told**, **Stack.follow_tells** — everything a frame knows is told by the moves.
-/

namespace MarkupRouting

/-! ### Moves -/

/-- What is done to the stack of open elements (`InterestTracker.open`, `close` and `release_all`).
A history of moves need not be well nested. -/
inductive Move where
  /-- An element is entered. -/
  | enter (name : String) (attributes : Table Value)
  /-- The innermost open element is left; where none is open nothing is. -/
  | leave
  /-- All open elements are given up. -/
  | clear
  deriving Repr

namespace Move

/-- The name of the element that is entered. -/
def name? : Move → Option String
  | enter name _ => some name
  | leave | clear => none

/-- What a move at a place makes of the places of the elements that are open. -/
def track (places : List Nat) : Move × Nat → List Nat
  | (enter _ _, place) => place :: places
  | (leave, _) => places.tail
  | (clear, _) => []

/-- The places among the moves at which the elements were entered that are still open, the innermost
one first. -/
def opened (moves : List Move) : List Nat := moves.zipIdx.foldl track []

/-- The names of the elements that were entered directly inside the one that was entered at the
given place, or above the root, in order. -/
def inside (moves : List Move) (parent : Option Nat) : List String :=
  (List.range moves.length).filterMap fun place =>
    if (opened (moves.take place)).head? = parent then moves[place]?.bind name? else none

example :
    inside [.enter "a" [], .enter "b" [], .leave, .enter "c" [], .clear, .enter "b" []]
      (some 0) = ["b", "c"] := by decide

variable (moves : List Move) (m : Move)

/-- One more move. -/
theorem opened_concat : opened (moves ++ [m]) = track (opened moves) (m, moves.length) := by
  simp [opened, List.zipIdx_append]

/-- Open elements were entered, and the inner ones after the outer ones. -/
theorem opened_before :
    (∀ place ∈ opened moves, place < moves.length) ∧ (opened moves).Pairwise (· > ·) := by
  induction moves using List.reverseRecOn with
  | nil => exact ⟨nofun, .nil⟩
  | append_singleton moves m ih =>
      obtain ⟨hlt, hordered⟩ := ih
      have hlater : ∀ place ∈ opened moves, place < (moves ++ [m]).length := by
        intro place hplace
        rw [List.length_append]
        exact Nat.lt_add_right _ (hlt place hplace)
      rw [opened_concat]
      cases m with
      | enter name attributes =>
          refine ⟨List.forall_mem_cons.mpr ⟨?_, hlater⟩, List.pairwise_cons.mpr ⟨hlt, hordered⟩⟩
          simp
      | leave =>
          refine ⟨fun place hplace => hlater place (List.mem_of_mem_tail hplace), ?_⟩
          exact hordered.sublist (List.tail_sublist _)
      | clear => exact ⟨nofun, .nil⟩

/-- A move enters an element inside the innermost open one. -/
theorem inside_concat (parent : Option Nat) :
    inside (moves ++ [m]) parent =
      inside moves parent ++ if (opened moves).head? = parent then m.name?.toList else [] := by
  have hbefore : ∀ place ∈ List.range moves.length,
      (if (opened ((moves ++ [m]).take place)).head? = parent then
          (moves ++ [m])[place]?.bind name? else none) =
        if (opened (moves.take place)).head? = parent then moves[place]?.bind name? else none := by
    intro place hplace
    have hlt := List.mem_range.mp hplace
    rw [List.take_append_of_le_length (Nat.le_of_lt hlt), List.getElem?_append_left hlt]
  unfold inside
  rw [List.length_append, List.length_singleton, List.range_succ, List.filterMap_append,
    List.filterMap_congr hbefore]
  congr 1
  simp only [List.filterMap_cons, List.filterMap_nil, List.take_left, List.getElem?_concat_length,
    Option.bind_some]
  split_ifs
  · cases m.name? <;> rfl
  · rfl

/-- Nothing was entered inside an element that was not yet entered itself. -/
theorem inside_eq_nil {place : Nat} (h : moves.length ≤ place) :
    inside moves (some place) = [] := by
  rw [inside, List.filterMap_eq_nil_iff]
  intro earlier hearlier
  rw [if_neg]
  intro hhead
  have hlt := (opened_before (moves.take earlier)).1 place (List.mem_of_mem_head? hhead)
  rw [List.length_take] at hlt
  omega

end Move

/-! ### Stacks -/

namespace Stack

variable {H : Type}

/-- The stack after a move. -/
def move (st : Stack H) : Move → Stack H
  | .enter name attributes => (st.enter name attributes).2.push (st.enter name attributes).1
  | .leave =>
    match st.leave? with
    | some (_, around) => around
    | none => st
  | .clear => st.cleared

/-- The stack for the rules of a book after several moves. -/
def follow (book : RuleBook H) (moves : List Move) : Stack H := moves.foldl move (.ofBook book)

/-- One move more is made behind all others. -/
theorem follow_concat (book : RuleBook H) (moves : List Move) (m : Move) :
    follow book (moves ++ [m]) = (follow book moves).move m := by
  rw [follow, List.foldl_append]
  rfl

end Stack

/-! ### Frames and the moves that made them -/

variable {H : Type} {book : RuleBook H} {moves : List Move} {m : Move}

/-- What the frame knows of the move that entered its element, at the given place and inside the
element that was entered at the first of the others. -/
structure Frame.Entered (moves : List Move) (places : List Nat) (place : Nat) (f : Frame H) :
    Prop where
  /-- The move. -/
  move_eq : moves[place]? = some (.enter f.name f.attributes)
  /-- The elements of its name that were entered in the same place before. -/
  position_eq : f.position = (Move.inside (moves.take place) places.head?).count f.name + 1
  /-- The elements that were entered inside it. -/
  counts_eq : ∀ name, (f.counts.get? name).getD 0 = (Move.inside moves (some place)).count name

/-- Every frame knows of its move. -/
inductive Frame.AllEntered (moves : List Move) : List Nat → List (Frame H) → Prop where
  /-- No element is open. -/
  | nil : AllEntered moves [] []
  /-- One more frame that knows of its move. -/
  | cons {place : Nat} {places : List Nat} {f : Frame H} {around : List (Frame H)} :
      f.Entered moves places place → AllEntered moves places around →
        AllEntered moves (place :: places) (f :: around)

namespace Frame

variable {place : Nat} {places : List Nat} {f : Frame H} {frames : List (Frame H)}

/-- What a frame knows of its move stays so when others are made. -/
theorem Entered.later (h : f.Entered moves places place) (counts : Table Nat)
    (hcounts : ∀ name, (counts.get? name).getD 0 =
      (Move.inside (moves ++ [m]) (some place)).count name) :
    ({ f with counts } : Frame H).Entered (moves ++ [m]) places place := by
  have hlt : place < moves.length := (List.getElem?_eq_some_iff.mp h.move_eq).1
  refine ⟨?_, ?_, hcounts⟩
  · rw [List.getElem?_append_left hlt]
    exact h.move_eq
  · rw [List.take_append_of_le_length (Nat.le_of_lt hlt)]
    exact h.position_eq

/-- A move that enters nothing inside an element changes nothing that its frame knows. -/
theorem Entered.concat (h : f.Entered moves places place)
    (hquiet : (Move.opened moves).head? = some place → m.name? = none) :
    f.Entered (moves ++ [m]) places place := by
  refine h.later f.counts fun name => ?_
  rw [h.counts_eq, Move.inside_concat]
  split
  next hhead => rw [hquiet hhead, Option.toList_none, List.append_nil]
  · rw [List.append_nil]

/-- The frame around an element that is entered counts it. -/
theorem Entered.claim (h : f.Entered moves places place)
    (hhead : (Move.opened moves).head? = some place) (name : String) (attributes : Table Value) :
    (claim name f.counts).1 = (Move.inside moves (some place)).count name + 1 ∧
      ({ f with counts := (claim name f.counts).2 } : Frame H).Entered
        (moves ++ [.enter name attributes]) places place := by
  obtain ⟨hposition, hcounts⟩ := Stack.claim_eq h.counts_eq name
  refine ⟨hposition, h.later _ fun other => ?_⟩
  rw [hcounts, Move.inside_concat, if_pos hhead]
  rfl

/-- A frame that is made by a move knows of it. -/
theorem Entered.new {name : String} {attributes : Table Value} (hname : f.name = name)
    (hattributes : f.attributes = attributes) (hcounts : f.counts = [])
    (hposition : f.position = (Move.inside moves (Move.opened moves).head?).count name + 1) :
    f.Entered (moves ++ [.enter name attributes]) (Move.opened moves) moves.length := by
  have hnone : Move.inside (moves ++ [.enter name attributes]) (some moves.length) = [] := by
    rw [Move.inside_concat, Move.inside_eq_nil moves (Nat.le_refl _), if_neg, List.append_nil]
    intro hhead
    exact absurd ((Move.opened_before moves).1 _ (List.mem_of_mem_head? hhead)) (lt_irrefl _)
  refine ⟨?_, ?_, fun other => ?_⟩
  · rw [List.getElem?_concat_length, hname, hattributes]
  · rw [List.take_left, hname]
    exact hposition
  · rw [hcounts, hnone]
    rfl

/-- A move that enters nothing inside the elements of several frames changes nothing that these
know. -/
theorem AllEntered.concat (h : AllEntered moves places frames)
    (hquiet : ∀ place ∈ places, (Move.opened moves).head? = some place → m.name? = none) :
    AllEntered (moves ++ [m]) places frames := by
  induction h with
  | nil => exact .nil
  | cons hf _ ih =>
      obtain ⟨hplace, hplaces⟩ := List.forall_mem_cons.mp hquiet
      exact .cons (hf.concat hplace) (ih hplaces)

/-- Without frames no element is open. -/
theorem AllEntered.places_eq_nil (h : AllEntered moves places ([] : List (Frame H))) :
    places = [] := by
  cases h
  rfl

/-- The innermost frame knows of the move that entered the innermost open element. -/
theorem AllEntered.of_cons {around : List (Frame H)} (h : AllEntered moves places (f :: around)) :
    ∃ place others, places = place :: others ∧ f.Entered moves others place ∧
      AllEntered moves others around := by
  obtain - | ⟨hf, haround⟩ := h
  exact ⟨_, _, rfl, hf, haround⟩

/-- Each frame knows of the move that entered the element in its place. -/
theorem AllEntered.of_append {inner outer : List (Frame H)}
    (h : AllEntered moves places (inner ++ f :: outer)) :
    ∃ place others, places.drop inner.length = place :: others ∧
      f.Entered moves others place := by
  induction inner generalizing places with
  | nil =>
      obtain ⟨place, others, rfl, hf, -⟩ := h.of_cons
      exact ⟨place, others, rfl, hf⟩
  | cons g inner ih =>
      obtain ⟨_, others, rfl, -, hrest⟩ := h.of_cons
      exact ih hrest

/-- The names of frames are those of the elements that were entered. -/
theorem AllEntered.names_eq (h : AllEntered moves places frames) :
    (names frames).map some = places.reverse.map fun place => moves[place]?.bind Move.name? := by
  induction h with
  | nil => rfl
  | cons hf _ ih =>
      rw [names_cons, List.map_append, ih, List.reverse_cons, List.map_append, List.map_singleton,
        List.map_singleton, hf.move_eq]
      rfl

end Frame

namespace Stack

variable {st : Stack H}

/-- What the stack knows after several moves: of which of them its frames are, and that each frame
knows what the moves in front tell of its element. One move keeps it, by a case for each kind of
move. -/
structure Trailed (book : RuleBook H) (moves : List Move) (st : Stack H) : Prop where
  /-- Every frame fits into those around it. -/
  nested : st.Nested book
  /-- Every frame knows of its move. -/
  entered : Frame.AllEntered moves (Move.opened moves) st.frames
  /-- The elements that were entered above the root. -/
  counts_eq : ∀ name, (st.rootCounts.get? name).getD 0 = (Move.inside moves none).count name

namespace Trailed

/-- An element that is entered is counted in the place where it is. -/
theorem enter (h : st.Trailed book moves) (name : String) (attributes : Table Value) :
    (st.move (.enter name attributes)).Trailed book (moves ++ [.enter name attributes]) := by
  have hnested := h.nested.enter name attributes
  have hordered := (Move.opened_before moves).2
  obtain ⟨frames, rootPending, rootCounts⟩ := st
  obtain ⟨-, hentered, hroot⟩ := h
  cases frames with
  | nil =>
      have hopened : Move.opened moves = [] := hentered.places_eq_nil
      have hhead : (Move.opened moves).head? = none := by rw [hopened]; rfl
      obtain ⟨hposition, hcounts⟩ := claim_eq hroot name
      refine ⟨hnested, ?_, fun other => ?_⟩
      · rw [Move.opened_concat]
        refine .cons (.new rfl rfl rfl ?_) ?_
        · rw [hhead]
          exact hposition
        · rw [hopened]
          exact .nil
      · rw [Move.inside_concat, if_pos hhead]
        exact hcounts other
  | cons parent rest =>
      obtain ⟨place, places, hopened, hparent, hrest⟩ := hentered.of_cons
      have hhead : (Move.opened moves).head? = some place := by rw [hopened]; rfl
      obtain ⟨hposition, hclaimed⟩ := hparent.claim hhead name attributes
      refine ⟨hnested, ?_, fun other => ?_⟩
      · rw [Move.opened_concat]
        refine .cons (.new rfl rfl rfl ?_) ?_
        · rw [hhead]
          exact hposition
        · rw [hopened] at hordered ⊢
          refine .cons hclaimed (hrest.concat fun outer houter hsame => ?_)
          -- the element is entered inside the innermost open one only
          rw [hhead] at hsame
          have hlt : place > outer := (List.pairwise_cons.mp hordered).1 outer houter
          cases hsame
          exact absurd hlt (lt_irrefl place)
      · rw [Move.inside_concat, if_neg (by rw [hhead]; exact Option.some_ne_none place),
          List.append_nil]
        exact hroot other

/-- A move that enters no element counts nothing above the root. -/
theorem rootCounts_eq (h : st.Trailed book moves) (hm : m.name? = none) (name : String) :
    (st.rootCounts.get? name).getD 0 = (Move.inside (moves ++ [m]) none).count name := by
  rw [h.counts_eq, Move.inside_concat, hm, Option.toList_none, ite_self, List.append_nil]

/-- What is left around an element knows what it knew before. -/
theorem leave (h : st.Trailed book moves) : (st.move .leave).Trailed book (moves ++ [.leave]) := by
  have hcounts := h.rootCounts_eq (m := .leave) rfl
  obtain ⟨frames, rootPending, rootCounts⟩ := st
  obtain ⟨hnested, hentered, -⟩ := h
  cases frames with
  | nil =>
      refine ⟨hnested, ?_, hcounts⟩
      rw [Move.opened_concat, hentered.places_eq_nil]
      exact .nil
  | cons f around =>
      obtain ⟨place, places, hopened, -, haround⟩ := hentered.of_cons
      refine ⟨⟨(Frame.Nested.of_cons hnested.frames).2, hnested.rootPending_eq⟩, ?_, hcounts⟩
      rw [Move.opened_concat, hopened]
      exact haround.concat fun _ _ _ => rfl

/-- **Every move keeps what the stack knows.** -/
theorem move (h : st.Trailed book moves) (m : Move) :
    (st.move m).Trailed book (moves ++ [m]) := by
  cases m with
  | enter name attributes => exact h.enter name attributes
  | leave => exact h.leave
  | clear =>
      refine ⟨⟨.nil, h.nested.rootPending_eq⟩, ?_, h.rootCounts_eq (m := .clear) rfl⟩
      rw [Move.opened_concat]
      exact .nil

end Trailed

/-- After any moves the stack knows what the moves tell. -/
theorem trailed_follow (book : RuleBook H) (moves : List Move) :
    (follow book moves).Trailed book moves := by
  induction moves using List.reverseRecOn with
  | nil => exact ⟨nested_ofBook book, .nil, fun _ => rfl⟩
  | append_singleton moves m ih =>
      rw [follow_concat]
      exact ih.move m

end Stack

/-! ### What is told of a frame -/

/-- Everything that the frame of an open element knows, as the moves tell it: `inner` are the frames
inside the element, `outer` those around it, the innermost one first. -/
structure Frame.Told (book : RuleBook H) (moves : List Move) (inner outer : List (Frame H))
    (f : Frame H) : Prop where
  /-- How many elements are open with it. -/
  depth_eq : f.depth = outer.length + 1
  /-- The move that entered the element, and how many of its name were entered in the same place
  before. -/
  entered : ∃ place places, (Move.opened moves).drop inner.length = place :: places ∧
    moves[place]? = some (.enter f.name f.attributes) ∧
    f.position = 1 + (Move.inside (moves.take place) places.head?).count f.name
  /-- The rules with an open handler that select the element. -/
  openRules_eq :
    f.openRules = (book.selecting (names (f :: outer))).filter fun r => r.onOpen.isSome
  /-- The rules with a close handler that select the element. -/
  closeRules_eq :
    f.closeRules = (book.selecting (names (f :: outer))).filter fun r => r.onClose.isSome
  /-- A node is built where a close handler wants that of the element or of one around it. -/
  built_iff : f.materializing = true ↔ ∃ g ∈ f :: outer, g.closeRules ≠ []
  /-- Inside an element that is built everything is built. -/
  built_inwards : f.materializing = true → ∀ g ∈ inner, g.materializing = true
  /-- The mode of an element that is built joins those of all rules with a close handler that select
  it or an element around it, in any order. -/
  mode_of_built : f.materializing = true → ∀ rules : List (Rule H),
    rules.Perm (book.shaping (names (f :: outer))) →
      f.mode = rules.foldl (fun mode r => mode.join r.mode) .keep
  /-- The mode of any other element does nothing. -/
  mode_of_not_built : f.materializing = false → f.mode = .keep
  /-- Further down modes only do more. -/
  mode_inwards : ∀ g ∈ inner, f.mode.Within g.mode
  /-- The path is there where the element is built or an open handler is called for it. -/
  path_eq : f.path = if f.materializing = true ∨ f.openRules ≠ [] then
    some (pathOf (names (f :: outer))) else none

namespace Stack

/-- What a stack knows of each of its frames is told by the moves. -/
theorem Trailed.told {st : Stack H} (h : st.Trailed book moves) {inner outer : List (Frame H)}
    {f : Frame H} (hframes : st.frames = inner ++ f :: outer) : f.Told book moves inner outer := by
  have hnested := h.nested.frames
  have hentered := h.entered
  rw [hframes] at hnested hentered
  obtain ⟨hfits, houter⟩ := hnested.of_append
  obtain ⟨place, places, hplaces, hmove⟩ := hentered.of_append
  constructor
  case depth_eq => exact hfits.depth_eq
  case entered =>
    refine ⟨place, places, hplaces, hmove.move_eq, ?_⟩
    rw [hmove.position_eq, Nat.add_comm]
  case openRules_eq => exact hfits.openRules_eq
  case closeRules_eq => exact hfits.closeRules_eq
  case built_iff => exact hfits.materializing_iff
  case built_inwards => exact hnested.built_inwards
  case mode_of_built =>
    intro _ rules hrules
    rw [hfits.mode_eq, TextMode.foldl_join_perm hrules]
    rfl
  case mode_of_not_built => exact (Frame.Nested.cons hfits houter).mode_of_not_built
  case mode_inwards => exact hnested.mode_inwards
  case path_eq =>
    rw [hfits.path_eq]
    refine if_congr ?_ rfl rfl
    rw [Bool.or_eq_true, Bool.not_eq_true', List.isEmpty_eq_false_iff]

/-- **What a stack knows is told by the moves that led to it** (`InterestTracker.open`, `close` and
`release_all`). The names on it are those with which the elements were entered that are still open,
and every frame knows what the moves tell of its element. Leaving an element gives the innermost
frame and the stack around it; giving up all that are open gives all frames, from the innermost one
to the root element. -/
theorem follow_tells (book : RuleBook H) (moves : List Move) :
    let st := follow book moves
    st.names.map some =
        (Move.opened moves).reverse.map (fun place => moves[place]?.bind Move.name?) ∧
      (∀ inner f outer, st.frames = inner ++ f :: outer → f.Told book moves inner outer) ∧
      (∀ f outer, st.frames = f :: outer →
        st.leave? = some (f, follow book (moves ++ [.leave])) ∧
          (follow book (moves ++ [.leave])).frames = outer) ∧
      st.frames.map Frame.depth = (List.range' 1 st.depth).reverse ∧
      (follow book (moves ++ [.clear])).frames = [] := by
  intro st
  have h : st.Trailed book moves := trailed_follow book moves
  refine ⟨h.entered.names_eq, fun inner f outer hframes => h.told hframes, ?_,
    h.nested.frames.depths_eq, ?_⟩
  · intro f outer hframes
    have hleave : st.leave? = some (f, { st with frames := outer }) := by
      rw [leave?, hframes]
    have hleft : follow book (moves ++ [.leave]) = { st with frames := outer } := by
      rw [follow_concat, Stack.move, hleave]
    rw [hleft]
    exact ⟨hleave, rfl⟩
  · rw [follow_concat]
    rfl

end Stack

end MarkupRouting
