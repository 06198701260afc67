import MarkupRouting.Proofs.Routing.Calls
import MarkupRouting.Proofs.Routing.Forest
import MarkupRouting.Proofs.Rule.Interests

/-!
# Places in a document

A place in a document is the path of the innermost open element and the names of the elements inside
it that were left already. What the stack of open elements knows at a place is what the document as
a whole says of it.

* **Frame.Stands** — what the frame of an element knows; **Stack.stands_enter** is how it comes to.
* **Stack.At** — what the stack knows at a place.
* **Frame.Grown**, **Stack.Grown** — what changes around an element while it is read.
* **Frame.total**, **Stack.total** — what will stand in a node when the rest of its element is read;
  no step changes it.
-/

namespace MarkupRouting

variable {H : Type} {book : RuleBook H} {path before : List String}

/-! ### Frames -/

namespace Frame

/-- What the frame of an element knows that handlers cannot change: the element has the given name
and lies inside the one at a path, behind siblings of the given names. -/
structure Stands (book : RuleBook H) (path before : List String) (name : String) (f : Frame H) :
    Prop where
  /-- Its name. -/
  name_eq : f.name = name
  /-- Its place among the siblings of its name. -/
  position_eq : f.position = before.count name + 1
  /-- How many elements are open. -/
  depth_eq : f.depth = path.length + 1
  /-- The rules that may select something inside it. -/
  pending_eq : f.pending = Interest.along book.interests (path ++ [name])
  /-- The rules whose open handlers are called. -/
  openRules_eq :
    f.openRules = (book.selecting (path ++ [name])).filter fun r => r.onOpen.isSome
  /-- The rules whose close handlers are called. -/
  closeRules_eq :
    f.closeRules = (book.selecting (path ++ [name])).filter fun r => r.onClose.isSome
  /-- Its text mode. -/
  mode_eq : f.mode = book.modeAt (path ++ [name])
  /-- A node is built where a close handler wants one. -/
  wanted : f.closeRules ≠ [] → f.materializing = true
  /-- Where no node is built no mode acts. -/
  plain : f.materializing = false → f.mode = .keep
  /-- Where somebody is told of the element its path is known. -/
  path_eq : f.materializing = true ∨ f.openRules ≠ [] → f.path = some (pathOf (path ++ [name]))

/-- The state of the node has nothing to do with it. -/
theorem Stands.withState {f : Frame H} {name : String} (hf : f.Stands book path before name)
    (attributes : Table Value) (contents : Option (List Content)) (buffer : List String)
    (counts : Table Nat) (remade : Option Tag) :
    ({ f with attributes, contents, buffer, counts, remade } : Frame H).Stands book path before
      name :=
  ⟨hf.name_eq, hf.position_eq, hf.depth_eq, hf.pending_eq, hf.openRules_eq, hf.closeRules_eq,
    hf.mode_eq, hf.wanted, hf.plain, hf.path_eq⟩

/-- A frame whose node has another state knows the same of its element. -/
theorem Kin.stands {f g : Frame H} (h : f.Kin g) {name : String}
    (hf : f.Stands book path before name) : g.Stands book path before name := by
  obtain ⟨attributes, contents, buffer, counts, remade, rfl, -⟩ := h
  exact hf.withState attributes contents buffer counts remade

/-- The second frame is the first one with other contents, texts held back and counts, and has a
node where the first one has one. -/
def Grown (f g : Frame H) : Prop :=
  ∃ contents buffer counts, g = { f with contents, buffer, counts } ∧
    contents.isSome = f.contents.isSome

namespace Grown

/-- A frame in which nothing was read. -/
theorem refl (f : Frame H) : f.Grown f := ⟨f.contents, f.buffer, f.counts, rfl, rfl⟩

/-- What is read in turn is read together. -/
theorem trans {f g k : Frame H} (h₁ : f.Grown g) (h₂ : g.Grown k) : f.Grown k := by
  obtain ⟨contents, buffer, counts, rfl, hg⟩ := h₁
  obtain ⟨contents', buffer', counts', rfl, hk⟩ := h₂
  exact ⟨contents', buffer', counts', rfl, hk.trans hg⟩

/-- A frame that has grown is the same element still. -/
theorem kin {f g : Frame H} (h : f.Grown g) : f.Kin g := by
  obtain ⟨contents, buffer, counts, rfl, hg⟩ := h
  exact ⟨f.attributes, contents, buffer, counts, f.remade, rfl, hg⟩

/-- The attributes of an element do not change while it is read. -/
theorem attributes_eq {f g : Frame H} (h : f.Grown g) : g.attributes = f.attributes := by
  obtain ⟨contents, buffer, counts, rfl, -⟩ := h
  rfl

/-- Texts put in place are something read. -/
theorem flush (f : Frame H) (closing : Bool) : f.Grown (f.flush closing) := by
  obtain ⟨contents, buffer, heq, hsome, -⟩ := f.flush_eq closing
  rw [heq]
  exact ⟨contents, buffer, f.counts, rfl, hsome⟩

/-- A text held back is something read. -/
theorem addText (f : Frame H) (s : String) : f.Grown (f.addText s) := by
  obtain ⟨buffer, heq⟩ := f.addText_eq s
  rw [heq]
  exact ⟨f.contents, buffer, f.counts, rfl, rfl⟩

end Grown

/-! ### Contents -/

/-- The texts held back, as one. -/
def run (f : Frame H) : String := String.join f.buffer.reverse

/-- What will stand in the node when the given rest of the element is read: what stands there, the
texts held back joined to the rest, and the nodes of the elements to come. -/
def total (book : RuleBook H) (path before : List String) (rest : Forest) (f : Frame H) :
    Option (List Content) :=
  f.contents.map fun sofar => sofar.reverse ++ rest.contents book path before f.run

/-- Something stands in the node exactly where an element was left inside it. -/
def Edged (before : List String) (f : Frame H) : Prop :=
  ∀ sofar, f.contents = some sofar → sofar.isEmpty = before.isEmpty

/-- Where texts are put in place, the node has what is kept of them. -/
theorem contents_flush {f : Frame H} {sofar : List Content} (h : f.contents = some sofar)
    (closing : Bool) :
    (f.flush closing).contents =
        some ((sofar.reverse ++ keptText (f.mode.apply f.run sofar.isEmpty closing)).reverse) ∧
      (f.flush closing).buffer = [] := by
  unfold Frame.flush
  rw [h]
  dsimp only
  split
  next hempty =>
    have hbuffer : f.buffer = [] := List.isEmpty_iff.mp hempty
    have hrun : f.run = "" := by rw [run, hbuffer]; rfl
    refine ⟨?_, hbuffer⟩
    rw [h, hrun, TextMode.apply_empty]
    simp [keptText]
  next =>
    refine ⟨?_, rfl⟩
    rw [← run]
    unfold withText keptText
    split <;> simp

/-- The texts held back with one text more. -/
theorem run_addText {f : Frame H} (h : f.contents.isSome = true) (s : String) :
    (f.addText s).run = f.run ++ s := by
  rw [addText, if_pos h, run, run, List.reverse_cons]
  simp [String.join]

/-- A text that is read changes nothing of what will stand in the node. -/
theorem total_addText (f : Frame H) (s : String) (rest : Forest) :
    (f.addText s).total book path before rest = f.total book path before (.text s rest) := by
  cases h : f.contents with
  | none => rw [addText, h, Option.isSome_none, if_neg Bool.false_ne_true, total, total, h]; rfl
  | some sofar =>
      have hsome : f.contents.isSome = true := by rw [h]; rfl
      have hcontents : (f.addText s).contents = f.contents := by rw [addText, if_pos hsome]
      rw [total, total, hcontents, h, Option.map_some, Option.map_some, run_addText hsome]
      rfl

/-- The frame with a node, if there is one, taken in where the frame has a node of its own. -/
def joined (n : Option Node) (f : Frame H) : Frame H :=
  { f with contents := f.contents.map fun sofar => (n.map Node.toContent).toList ++ sofar }

/-- A node taken in is something read. -/
theorem Grown.joined (n : Option Node) (f : Frame H) : f.Grown (f.joined n) :=
  ⟨_, f.buffer, f.counts, rfl, Option.isSome_map⟩

/-- Where there is no node nothing is taken in. -/
theorem joined_of_none {f : Frame H} (h : f.contents = none) (n : Option Node) :
    f.joined n = f := by
  obtain ⟨⟩ := f
  subst h
  rfl

/-- An element that was left is what was to come in its place. -/
theorem total_joined {f : Frame H} {sofar : List Content} (h : f.contents = some sofar)
    (hmode : f.mode = book.modeAt path) (hedge : f.Edged before) (name : String)
    (attributes : Table Value) (inside rest : Forest) (counts : Table Nat) :
    (({ f.flush false with counts } : Frame H).joined
        (some (book.node path before name attributes inside))).total book path (before ++ [name])
          rest =
      f.total book path before (.element name attributes inside rest) := by
  obtain ⟨hcontents, hbuffer⟩ := contents_flush h false
  have hrun : ∀ n, (({ f.flush false with counts } : Frame H).joined n).run = "" := by
    intro n
    have hjoined : (({ f.flush false with counts } : Frame H).joined n).run =
        String.join (f.flush false).buffer.reverse := rfl
    rw [hjoined, hbuffer]
    rfl
  rw [total, hrun, total, h, joined, hcontents, hmode, hedge sofar h, Option.map_some,
    Option.map_some, Option.map_some, Option.map_some, Forest.contents]
  simp [RuleBook.node, Node.toContent]

/-- The frame behind an element of the given name that was entered and left, with the node of that
element. -/
def behind (f : Frame H) (name : String) (n : Option Node) : Frame H :=
  ({ f.flush false with counts := (claim name (f.flush false).counts).2 } : Frame H).joined n

/-- Behind an element that was left something stands in the node, and what will stand there is the
same as in front of the element. -/
theorem Sound.behind {f : Frame H} (hs : f.Sound)
    (hmode : f.materializing = true → f.mode = book.modeAt path)
    (hedge : f.Edged before) (name : String) (attributes : Table Value) (inside rest : Forest)
    (n : Option Node) (hn : f.materializing = true →
      n = some (book.node path before name attributes inside)) :
    (f.behind name n).Edged (before ++ [name]) ∧
      (f.behind name n).total book path (before ++ [name]) rest =
        f.total book path before (.element name attributes inside rest) := by
  have hbehind : (f.behind name n).contents = (f.flush false).contents.map
      fun sofar => (n.map Node.toContent).toList ++ sofar := rfl
  cases hcontents : f.contents with
  | none =>
      have hflush : f.flush false = f := by rw [Frame.flush, hcontents]
      have hnone : (f.behind name n).contents = none := by
        rw [hbehind, hflush, hcontents]
        rfl
      refine ⟨fun sofar hsofar => ?_, ?_⟩
      · rw [hnone] at hsofar
        cases hsofar
      · rw [total, hnone, total, hcontents]
        rfl
  | some sofar =>
      have hbuilt : f.materializing = true := by rw [← hs.built, hcontents]; rfl
      have htotal := total_joined hcontents (hmode hbuilt) hedge name attributes inside rest
        (claim name (f.flush false).counts).2
      refine ⟨fun sofar' hsofar' => ?_, ?_⟩
      · rw [hbehind, (contents_flush hcontents false).1, hn hbuilt, Option.map_some] at hsofar'
        rw [← Option.some.inj hsofar']
        simp
      · rw [hn hbuilt]
        exact htotal

/-- At the end of an element nothing is left to come. -/
theorem contents_flush_done {f : Frame H} (hmode : f.mode = book.modeAt path)
    (hedge : f.Edged before) :
    (f.flush true).contents.map List.reverse = f.total book path before .done := by
  cases h : f.contents with
  | none =>
      have hflush : f.flush true = f := by rw [Frame.flush, h]
      rw [hflush, total, h]
      rfl
  | some sofar =>
      rw [(contents_flush h true).1, total, h, Option.map_some, Option.map_some,
        List.reverse_reverse, hmode, hedge sofar h]
      rfl

end Frame

/-! ### The stack -/

namespace Stack

variable {st st' : Stack H}

/-- How many elements of each name were left at the place. -/
def counts (st : Stack H) : Table Nat :=
  match st.frames with
  | [] => st.rootCounts
  | f :: _ => f.counts

/-- The stack knows the place in the document that it is at: the elements around it, and in each of
them the siblings that were left. This is what reading an element has to give back, so that the next
sibling is read from it. -/
structure At (book : RuleBook H) (path before : List String) (st : Stack H) : Prop where
  /-- Every frame is sound. -/
  sound : ∀ f ∈ st.frames, f.Sound
  /-- The path of the innermost open element. -/
  names_eq : st.names = path
  /-- The rules that may select something inside it. -/
  pending_eq : st.pending = Interest.along book.interests path
  /-- The text mode of the innermost open element. -/
  mode_eq : st.inheritedMode.getD .keep = book.modeAt path
  /-- The elements that were left there. -/
  counts_eq : ∀ name, (st.counts.get? name).getD 0 = before.count name

/-- The second stack is the first one after something was read at the same place: the innermost
frame has grown, or, above the root, other elements were counted. -/
inductive Grown : Stack H → Stack H → Prop where
  /-- Above the root. -/
  | above (pending : List (Interest H)) (counts counts' : Table Nat) :
      Grown ⟨[], pending, counts⟩ ⟨[], pending, counts'⟩
  /-- Inside an element. -/
  | inside {f g : Frame H} (h : f.Grown g) (rest : List (Frame H)) (pending : List (Interest H))
      (counts : Table Nat) : Grown ⟨f :: rest, pending, counts⟩ ⟨g :: rest, pending, counts⟩

namespace Grown

/-- A stack at which nothing was read. -/
theorem refl (st : Stack H) : st.Grown st := by
  obtain ⟨frames, pending, counts⟩ := st
  cases frames with
  | nil => exact .above pending counts counts
  | cons f rest => exact .inside (.refl f) rest pending counts

/-- What is read in turn is read together. -/
theorem trans {st₁ st₂ st₃ : Stack H} (h₁ : st₁.Grown st₂) (h₂ : st₂.Grown st₃) :
    st₁.Grown st₃ := by
  cases h₁ with
  | above pending counts counts' =>
      cases h₂ with
      | above _ _ counts'' => exact .above pending counts counts''
  | inside h rest pending counts =>
      cases h₂ with
      | inside h' => exact .inside (h.trans h') rest pending counts

/-- The innermost frame grows. -/
theorem mapTop (st : Stack H) {g : Frame H → Frame H} (hg : ∀ f : Frame H, f.Grown (g f)) :
    st.Grown (st.mapTop g) := by
  obtain ⟨frames, pending, counts⟩ := st
  cases frames with
  | nil => exact .above pending counts counts
  | cons f rest => exact .inside (hg f) rest pending counts

/-- A position is taken. -/
theorem claimPosition (st : Stack H) (name : String) : st.Grown (st.claimPosition name).2 := by
  obtain ⟨frames, pending, counts⟩ := st
  cases frames with
  | nil => exact .above pending counts _
  | cons f rest =>
      exact .inside ⟨f.contents, f.buffer, (claim name f.counts).2, rfl, rfl⟩ rest pending counts

/-- A node is built for the innermost open element exactly where one was before. -/
theorem building_eq {st st' : Stack H} (h : st.Grown st') : st'.building = st.building := by
  cases h with
  | above pending counts counts' => rfl
  | inside hf rest pending counts =>
      obtain ⟨_, _, _, rfl, -⟩ := hf
      rfl

end Grown

/-- The stack knows its place when something was read there, if it has counted that. -/
theorem At.grown {after : List String} (h : st.At book path before) (hg : st.Grown st')
    (hcounts : ∀ name, (st'.counts.get? name).getD 0 = after.count name) :
    st'.At book path after := by
  obtain ⟨hsound, hnames, hpending, hmode, -⟩ := h
  cases hg with
  | above pending counts counts' => exact ⟨hsound, hnames, hpending, hmode, hcounts⟩
  | inside hf rest pending counts =>
      have hall := List.forall_mem_cons.mp hsound
      have hsound' := List.forall_mem_cons.mpr ⟨hf.kin.sound hall.1, hall.2⟩
      obtain ⟨contents, buffer, fcounts, rfl, -⟩ := hf
      exact ⟨hsound', hnames, hpending, hmode, hcounts⟩

/-- Where the innermost frame grows but counts nothing the place is the same. -/
theorem At.mapTop (h : st.At book path before) {g : Frame H → Frame H}
    (hg : ∀ f : Frame H, f.Grown (g f)) (hcounts : ∀ f : Frame H, (g f).counts = f.counts) :
    (st.mapTop g).At book path before := by
  refine h.grown (.mapTop st hg) ?_
  have hsame : (st.mapTop g).counts = st.counts := by
    obtain ⟨frames, pending, counts⟩ := st
    cases frames with
    | nil => rfl
    | cons f rest => exact hcounts f
  rw [hsame]
  exact h.counts_eq

/-- The position that is taken is the next one, and the counts know of it. -/
theorem claim_eq {counts : Table Nat} (h : ∀ name, (counts.get? name).getD 0 = before.count name)
    (name : String) :
    (claim name counts).1 = before.count name + 1 ∧
      ∀ other, ((claim name counts).2.get? other).getD 0 = (before ++ [name]).count other := by
  have hposition : (claim name counts).1 = before.count name + 1 := by rw [← h name]; rfl
  refine ⟨hposition, fun other => ?_⟩
  have htaken : (claim name counts).2 = counts.put name (claim name counts).1 := rfl
  rw [htaken, hposition, List.count_append]
  by_cases heq : other = name
  · subst heq
    rw [Table.get?_put_self]
    simp
  · rw [Table.get?_put_of_ne heq, h other]
    simp [Ne.symm heq]

/-- Taking a position is knowing that an element of that name is left behind. -/
theorem At.claimPosition (h : st.At book path before) (name : String) :
    (st.claimPosition name).1 = before.count name + 1 ∧
      (st.claimPosition name).2.At book path (before ++ [name]) := by
  obtain ⟨hposition, hcounts⟩ := claim_eq h.counts_eq name
  have hgrown : st.Grown (st.claimPosition name).2 := .claimPosition st name
  obtain ⟨frames, pending, counts⟩ := st
  cases frames with
  | nil => exact ⟨hposition, h.grown hgrown hcounts⟩
  | cons f rest => exact ⟨hposition, h.grown hgrown hcounts⟩

/-! ### Entering -/

/-- Where no node is built there is no mode to be inherited. -/
theorem inheritedMode_of_not_building (h : st.building = false) : st.inheritedMode = none := by
  unfold Stack.building at h
  unfold Stack.inheritedMode
  split
  · rfl
  next parent rest hframes =>
    rw [hframes] at h
    exact if_neg (Bool.eq_false_iff.mp h)

section Enter

variable (name : String) (attributes : Table Value)

/-- The rules of an element that is entered are those that select it, by what they have handlers
for, and those that may select something inside it. -/
theorem rules_enter (h : st.pending = Interest.along book.interests path) :
    (st.enter name attributes).1.pending = Interest.along book.interests (path ++ [name]) ∧
      (st.enter name attributes).1.openRules =
        (book.selecting (path ++ [name])).filter (fun r => r.onOpen.isSome) ∧
      (st.enter name attributes).1.closeRules =
        (book.selecting (path ++ [name])).filter (fun r => r.onClose.isSome) := by
  rw [Interest.along_concat, ← book.matched_along, ← h]
  exact ⟨rfl, rfl, rfl⟩

/-- A node is built for an element that is entered where the node around it is built or a close
handler wants one. -/
theorem materializing_enter :
    (st.enter name attributes).1.materializing = true ↔
      st.building = true ∨ (st.enter name attributes).1.closeRules ≠ [] := by
  have hbuilt : (st.enter name attributes).1.materializing =
      (st.building || !(st.enter name attributes).1.closeRules.isEmpty) := rfl
  rw [hbuilt, Bool.or_eq_true, Bool.not_eq_true', List.isEmpty_eq_false_iff]

/-- The mode of an element that is entered is the one it has in the document. -/
theorem mode_enter (h : st.pending = Interest.along book.interests path)
    (hmode : st.inheritedMode.getD .keep = book.modeAt path) :
    (st.enter name attributes).1.mode = book.modeAt (path ++ [name]) := by
  have hjoined : (st.enter name attributes).1.mode =
      (joinModes st.inheritedMode (st.enter name attributes).1.closeRules).getD .keep := rfl
  rw [hjoined, joinModes_getD, (rules_enter name attributes h).2.2, hmode, book.modeAt_concat]
  rfl

/-- What the frame of an element that is entered knows of it. -/
theorem At.stands_enter (h : st.At book path before) :
    (st.enter name attributes).1.Stands book path before name := by
  obtain ⟨hpending, hopen, hclose⟩ := rules_enter name attributes h.pending_eq
  constructor
  case name_eq => rfl
  case position_eq => exact (h.claimPosition name).1
  case depth_eq =>
    have hlength : st.depth = path.length := by
      rw [← h.names_eq]
      simp [Stack.depth, Stack.names]
    exact congrArg (· + 1) hlength
  case pending_eq => exact hpending
  case openRules_eq => exact hopen
  case closeRules_eq => exact hclose
  case mode_eq => exact mode_enter name attributes h.pending_eq h.mode_eq
  case wanted => exact fun hrules => (materializing_enter name attributes).mpr (.inr hrules)
  case plain =>
    intro hplain
    have hnone := mt (materializing_enter name attributes).mpr (Bool.eq_false_iff.mp hplain)
    rw [not_or, not_not, Bool.not_eq_true] at hnone
    have hjoined : (st.enter name attributes).1.mode =
        (joinModes st.inheritedMode (st.enter name attributes).1.closeRules).getD .keep := rfl
    rw [hjoined, hnone.2, inheritedMode_of_not_building hnone.1]
    rfl
  case path_eq =>
    intro htold
    have hpath : (st.enter name attributes).1.path =
        if (st.enter name attributes).1.materializing ||
          !(st.enter name attributes).1.openRules.isEmpty then some (pathOf (st.names ++ [name]))
        else none := rfl
    rw [hpath, if_pos, h.names_eq]
    rw [Bool.or_eq_true, Bool.not_eq_true', List.isEmpty_eq_false_iff]
    exact htold

end Enter

/-- When something was read above a stack, that stack is still there. -/
theorem Grown.of_push {f : Frame H} (h : (st.push f).Grown st') :
    ∃ g, f.Grown g ∧ st' = st.push g := by
  obtain ⟨frames, pending, counts⟩ := st
  cases h with
  | inside hf => exact ⟨_, hf, rfl⟩

/-- With the frame of an element on top the stack is at the place in front of everything inside
it. -/
theorem At.push {after : List String} {name : String} {f : Frame H} (h : st.At book path after)
    (hf : f.Stands book path before name) (hsound : f.Sound) (hcounts : f.counts = []) :
    (st.push f).At book (path ++ [name]) [] := by
  refine ⟨List.forall_mem_cons.mpr ⟨hsound, h.sound⟩, ?_, hf.pending_eq, ?_, ?_⟩
  · rw [← h.names_eq, ← hf.name_eq]
    simp [Stack.names, Stack.push]
  · rw [← hf.mode_eq]
    have hmode : (st.push f).inheritedMode = if f.materializing then some f.mode else none := rfl
    rw [hmode]
    by_cases hbuilt : f.materializing = true
    · rw [if_pos hbuilt]
      rfl
    · rw [if_neg hbuilt, hf.plain (Bool.eq_false_iff.mpr hbuilt)]
      rfl
  · intro other
    have hnone : (st.push f).counts = [] := hcounts
    rw [hnone]
    rfl

/-! ### Reading on -/

/-- The mode of the innermost frame, where its node is built. -/
theorem At.mode_head {f : Frame H} {below : List (Frame H)} {pending : List (Interest H)}
    {counts : Table Nat} (h : At book path before ⟨f :: below, pending, counts⟩)
    (hbuilt : f.materializing = true) : f.mode = book.modeAt path := by
  have hinherited : (⟨f :: below, pending, counts⟩ : Stack H).inheritedMode = some f.mode :=
    if_pos hbuilt
  rw [← h.mode_eq, hinherited]
  rfl

/-- What will stand in the node of the innermost open element when the given rest of it is read. -/
def total (book : RuleBook H) (path before : List String) (rest : Forest) (st : Stack H) :
    Option (List Content) :=
  st.frames.head?.bind (·.total book path before rest)

/-- Something stands in the node of the innermost open element exactly where an element was left
inside it. -/
def Edged (before : List String) (st : Stack H) : Prop :=
  ∀ f, st.frames.head? = some f → f.Edged before

/-- A text that is read changes neither the place nor what will stand in the node. -/
theorem At.addText (h : st.At book path before) (s : String) (rest : Forest) :
    (st.mapTop (·.addText s)).At book path before ∧ st.Grown (st.mapTop (·.addText s)) ∧
      (st.Edged before → (st.mapTop (·.addText s)).Edged before) ∧
      (st.mapTop (·.addText s)).total book path before rest =
        st.total book path before (.text s rest) := by
  have hcounts : ∀ f : Frame H, (f.addText s).counts = f.counts := by
    intro f
    obtain ⟨buffer, heq⟩ := f.addText_eq s
    rw [heq]
  refine ⟨h.mapTop (Frame.Grown.addText · s) hcounts, .mapTop st (Frame.Grown.addText · s), ?_, ?_⟩
  · intro hedge
    obtain ⟨frames, pending, counts⟩ := st
    cases frames with
    | nil => exact nofun
    | cons f rest =>
        intro g hg
        obtain ⟨buffer, heq⟩ := f.addText_eq s
        have hgf : g = f.addText s := (Option.some.inj hg).symm
        rw [hgf, heq]
        exact hedge f rfl
  · obtain ⟨frames, pending, counts⟩ := st
    cases frames with
    | nil => rfl
    | cons f below => exact f.total_addText s rest

/-- The node of an element that was left goes into the node around it, if there is one. -/
theorem settle_eq {f : Frame H} (hsound : ∀ p ∈ st.frames, p.Sound)
    (hnode : st.building = true → f.node?.isSome = true) (l : Ledger) :
    ∃ fate l', st.settle f l = .ok (fate, st.mapTop (·.joined f.node?), l') := by
  obtain ⟨frames, pending, counts⟩ := st
  cases frames with
  | nil =>
      unfold Stack.settle
      cases f.node? with
      | none => exact ⟨_, _, rfl⟩
      | some n => exact ⟨_, _, rfl⟩
  | cons parent rest =>
      have hparent := (List.forall_mem_cons.mp hsound).1
      unfold Stack.settle
      by_cases hbuilt : parent.materializing = true
      · obtain ⟨n, hn⟩ := Option.isSome_iff_exists.mp (hnode hbuilt)
        obtain ⟨sofar, hsofar⟩ := Option.isSome_iff_exists.mp (hparent.built.trans hbuilt)
        rw [hn]
        dsimp only
        rw [if_pos hbuilt, Frame.adopt, hsofar]
        refine ⟨.retained, l, ?_⟩
        simp only [Stack.mapTop, Frame.joined, hsofar]
        rfl
      · have hnone := hparent.contents_eq_none (Bool.eq_false_iff.mpr hbuilt)
        have hsame : (⟨parent :: rest, pending, counts⟩ : Stack H).mapTop (·.joined f.node?) =
            ⟨parent :: rest, pending, counts⟩ := by
          simp only [Stack.mapTop, Frame.joined_of_none hnone]
        rw [hsame]
        cases f.node? with
        | none => exact ⟨_, _, rfl⟩
        | some n =>
            dsimp only
            rw [if_neg hbuilt]
            exact ⟨_, _, rfl⟩

/-- Texts put in place change nothing of the place. -/
theorem At.flushed (h : st.At book path before) :
    (st.mapTop (·.flush false)).At book path before ∧ st.Grown (st.mapTop (·.flush false)) := by
  refine ⟨h.mapTop (Frame.Grown.flush · false) fun f => ?_, .mapTop st (Frame.Grown.flush · false)⟩
  obtain ⟨contents, buffer, heq, -⟩ := f.flush_eq false
  rw [heq]

/-- The stack around an element that is entered knows that the element will be left behind. -/
theorem At.around (h : st.At book path before) (name : String) :
    (st.around name).At book path (before ++ [name]) ∧ st.Grown (st.around name) := by
  obtain ⟨hflushed, hgrown⟩ := h.flushed
  exact ⟨(hflushed.claimPosition name).2, hgrown.trans (.claimPosition _ name)⟩

/-- When an element was left, the stack is at the place behind it. If the node of the element is
what the document says, what will stand in the node around it is the same as before. -/
theorem At.joined (h : st.At book path before) (name : String) (n : Option Node) :
    ((st.around name).mapTop (·.joined n)).At book path (before ++ [name]) ∧
      st.Grown ((st.around name).mapTop (·.joined n)) ∧
      ∀ attributes inside rest,
        (st.building = true → n = some (book.node path before name attributes inside)) →
        st.Edged before →
          ((st.around name).mapTop (·.joined n)).Edged (before ++ [name]) ∧
          ((st.around name).mapTop (·.joined n)).total book path (before ++ [name]) rest =
            st.total book path before (.element name attributes inside rest) := by
  obtain ⟨haround, hgrown⟩ := h.around name
  refine ⟨haround.mapTop (Frame.Grown.joined n) fun _ => rfl,
    hgrown.trans (.mapTop _ (Frame.Grown.joined n)), ?_⟩
  intro attributes inside rest hn hedge
  obtain ⟨frames, pending, counts⟩ := st
  cases frames with
  | nil => exact ⟨nofun, rfl⟩
  | cons f below =>
      have hf := (List.forall_mem_cons.mp h.sound).1
      obtain ⟨hedge', htotal⟩ := hf.behind (fun hbuilt => h.mode_head hbuilt) (hedge f rfl) name
        attributes inside rest n hn
      exact ⟨fun g hg => Option.some.inj hg ▸ hedge', htotal⟩

end Stack

end MarkupRouting
