import MarkupRouting.Proofs.Element.Size
import MarkupRouting.Routing.Frame

/-!
# Frames and the nodes they hold

What the operations on frames do to the number of nodes that are held by open elements, and to the
ledger that counts them.

* **Frame.Sound** — a frame has a node exactly where one is to be built, its element has a name that
  is a text, and only texts are held back.
* **Frame.weight**, **Frame.held** — how many nodes one frame and several frames hold.
* **Frame.weight_flush**, **Frame.adopt_of_built** — texts do not count, children do.
* **Frame.releaseAll_ledger** — frames that are given up give up all they hold.
-/

namespace MarkupRouting

namespace Frame

variable {H : Type} {f : Frame H}

/-- The frame has a node exactly where one is to be built, its element has a name that is a text,
and nothing but texts is held back. -/
structure Sound (f : Frame H) : Prop where
  /-- There is a node where one is to be built. -/
  built : f.contents.isSome = f.materializing
  /-- The name of the element is a text. -/
  named : f.misnomer = none
  /-- Only texts are held back. -/
  textual : f.spoiled = false

/-- How many nodes the frame holds: its own with everything inside it (`subtree_size`). A frame
without a node holds none. -/
def weight (f : Frame H) : Nat :=
  match f.contents with
  | none => 0
  | some contents => 1 + Content.weights contents

/-- How many nodes several frames hold: the sizes of the nodes of those that have one. -/
def held (fs : List (Frame H)) : Nat := ((fs.filterMap node?).map Node.size).sum

/-- A frame that has a node holds as many nodes as that is made of. -/
theorem weight_eq_size {n : Node} (h : f.node? = some n) : f.weight = n.size := by
  rw [node?, Option.map_eq_some_iff] at h
  obtain ⟨contents, hf, rfl⟩ := h
  rw [weight, hf, Node.size_eq, Content.weights_reverse]

/-- A frame without a node holds none. -/
theorem weight_eq_zero (h : f.node? = none) : f.weight = 0 := by
  rw [node?, Option.map_eq_none_iff] at h
  rw [weight, h]

/-- Where no node is to be built there is none. -/
theorem Sound.contents_eq_none (h : f.Sound) (hplain : f.materializing = false) :
    f.contents = none := by
  rw [← Option.not_isSome_iff_eq_none, h.built, hplain]
  exact Bool.false_ne_true

/-- Where no node is to be built nothing is held. -/
theorem Sound.weight_eq_zero (h : f.Sound) (hplain : f.materializing = false) : f.weight = 0 := by
  rw [weight, h.contents_eq_none hplain]

/-- Where no frame is open no node is held. -/
@[simp] theorem held_nil : held ([] : List (Frame H)) = 0 := rfl

/-- What the first frame holds is added to what the others hold. -/
@[simp] theorem held_cons (f : Frame H) (fs : List (Frame H)) :
    held (f :: fs) = f.weight + held fs := by
  cases h : f.node? with
  | none => rw [held, List.filterMap_cons_none h, weight_eq_zero h, Nat.zero_add, held]
  | some n =>
      rw [held, List.filterMap_cons_some h, List.map_cons, List.sum_cons, weight_eq_size h, held]

/-! ### Single operations -/

/-- The weight of what stands in a node does not change with a text. -/
theorem weights_withText (contents : List Content) (s : String) :
    Content.weights (withText contents s) = Content.weights contents := by
  unfold withText
  split
  · rfl
  · rw [Content.weights, Content.weight, Nat.zero_add]

/-- Texts put in place change nothing but the contents and the texts held back. -/
theorem flush_eq (f : Frame H) (closing : Bool) :
    ∃ contents buffer, f.flush closing = { f with contents, buffer } ∧
      contents.isSome = f.contents.isSome ∧ (f.flush closing).weight = f.weight := by
  unfold flush
  split
  next h => exact ⟨f.contents, f.buffer, rfl, rfl, rfl⟩
  next contents h =>
    split
    · exact ⟨f.contents, f.buffer, rfl, rfl, rfl⟩
    · refine ⟨_, _, rfl, by rw [h]; rfl, ?_⟩
      simp only [weight, h, weights_withText]

/-- Texts put in place do not change how many nodes a frame holds. -/
theorem weight_flush (f : Frame H) (closing : Bool) : (f.flush closing).weight = f.weight := by
  obtain ⟨-, -, -, -, h⟩ := f.flush_eq closing
  exact h

/-- A sound frame stays sound when its texts are put in place. -/
theorem Sound.flush (h : f.Sound) (closing : Bool) : (f.flush closing).Sound := by
  obtain ⟨contents, buffer, heq, hsome, -⟩ := f.flush_eq closing
  rw [heq]
  exact ⟨hsome.trans h.built, h.named, h.textual⟩

/-- What happens to the frame of an element that is left: its texts are put in place, and nobody
made anything of its node yet. -/
theorem complete_eq (f : Frame H) :
    ∃ contents buffer, f.complete = { f with contents, buffer, remade := none } ∧
      contents.isSome = f.contents.isSome := by
  obtain ⟨contents, buffer, heq, hsome, -⟩ := f.flush_eq true
  exact ⟨contents, buffer, by rw [complete, heq], hsome⟩

/-- That does not change how many nodes a frame holds. -/
theorem weight_complete (f : Frame H) : f.complete.weight = f.weight := f.weight_flush true

/-- A sound frame stays sound when its element is left. -/
theorem Sound.complete (h : f.Sound) : f.complete.Sound :=
  ⟨(h.flush true).built, (h.flush true).named, (h.flush true).textual⟩

/-- A text held back changes nothing but the texts held back. -/
theorem addText_eq (f : Frame H) (s : String) : ∃ buffer, f.addText s = { f with buffer } := by
  unfold addText
  split
  · exact ⟨_, rfl⟩
  · exact ⟨f.buffer, rfl⟩

/-- Where a node is to be built a frame begins with an empty one. -/
theorem start_eq (hf : f.contents = none) (l : Ledger) :
    (f.start l).1 = { f with contents := if f.materializing then some [] else none } := by
  unfold Frame.start
  split
  · rfl
  · rw [← hf]

/-- A frame that is entered begins with a node of its own where one is to be built. -/
theorem Sound.start (hf : f.contents = none) (hname : f.misnomer = none) (htext : f.spoiled = false)
    (l : Ledger) :
    (f.start l).1.Sound ∧ (f.start l).2.built = l.built + (f.start l).1.weight ∧
      (f.start l).2.freed = l.freed := by
  unfold Frame.start
  split
  next h =>
    refine ⟨⟨?_, hname, htext⟩, rfl, rfl⟩
    rw [h]
    rfl
  next h =>
    refine ⟨⟨?_, hname, htext⟩, ?_, rfl⟩
    · rw [hf, Bool.eq_false_iff.mpr h]
      rfl
    · rw [weight, hf, Nat.add_zero]

/-- A frame that has a node takes in a finished one. -/
theorem adopt_of_built (hf : f.contents.isSome = true) (n : Node) :
    ∃ contents, f.adopt n = .ok { f with contents } ∧ contents.isSome = true ∧
      ({ f with contents } : Frame H).weight = f.weight + n.size := by
  obtain ⟨contents, hcontents⟩ := Option.isSome_iff_exists.mp hf
  refine ⟨some (n.toContent :: contents), by rw [adopt, hcontents], rfl, ?_⟩
  simp only [weight, hcontents, Node.size_eq, Content.weights, Node.toContent, Content.weight]
  omega

/-! ### Giving up -/

/-- A frame that is given up gives up what it holds, and nothing else happens to the ledger. -/
theorem release_ledger (f : Frame H) (l : Ledger) :
    (f.release l).2 = { l with freed := l.freed + f.weight } := by
  unfold release
  cases h : f.node? with
  | none => rw [weight_eq_zero h, Nat.add_zero]
  | some n => rw [weight_eq_size h]; rfl

/-- Frames that are given up give up all they hold. -/
theorem releaseAll_ledger (fs : List (Frame H)) (l : Ledger) :
    (releaseAll fs l).2 = { l with freed := l.freed + held fs } := by
  induction fs generalizing l with
  | nil => rfl
  | cons f rest ih =>
      have hcons : (releaseAll (f :: rest) l).2 = (releaseAll rest (f.release l).2).2 := rfl
      rw [hcons, ih, release_ledger, held_cons, Nat.add_assoc]

end Frame

end MarkupRouting
