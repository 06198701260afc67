import MarkupRouting.Proofs.Routing.Orderly

/-!
# What lasts throughout a drive

A drive does few things to its stack. Whatever each of them keeps holds whenever a handler is
called.

* **Frame.Reworded** — a frame in another state, with nothing but texts more in its node.
* **Stack.Lasting** — a property of stacks that is kept by each of the things that a drive does.
* **Lasting.stage**, **complete**, **take** — it is kept before the calls, behind them, and by a
  whole item.
* **Lasting.momentsFrom**, **moment** — it holds at every call.
-/

namespace MarkupRouting

variable {H σ : Type}

/-! ### Frames in another state -/

namespace Frame

/-- The second frame is the first one in another state. Whatever stands in its node beyond what
stood there before is text, and there is no new node but where one is to be built. Nobody made
anything else of the node. -/
def Reworded (f g : Frame H) : Prop :=
  ∃ attributes contents buffer counts misnomer spoiled remade,
    g = { f with attributes, contents, buffer, counts, misnomer, spoiled, remade } ∧
      (remade = f.remade ∨ remade = none) ∧
      (contents.isSome = true → f.contents.isSome = true ∨ f.materializing = true) ∧
      ∀ c ∈ contents.getD [], c ∈ f.contents.getD [] ∨ ∃ s, c = .text s

namespace Reworded

/-- A frame to which nothing was done. -/
theorem refl (f : Frame H) : f.Reworded f :=
  ⟨f.attributes, f.contents, f.buffer, f.counts, f.misnomer, f.spoiled, f.remade, rfl, .inl rfl,
    .inl, fun _ => .inl⟩

/-- Texts put in place are texts. -/
theorem flush (f : Frame H) (closing : Bool) : f.Reworded (f.flush closing) := by
  unfold Frame.flush
  cases hcontents : f.contents with
  | none => exact .refl f
  | some contents =>
      dsimp only
      split
      · exact .refl f
      · refine ⟨_, _, _, _, _, _, _, rfl, .inl rfl, fun _ => .inl (by rw [hcontents]; rfl),
          fun c hc => ?_⟩
        rw [hcontents]
        unfold withText at hc
        split at hc
        · exact .inl hc
        · rcases List.mem_cons.mp hc with rfl | hc
          · exact .inr ⟨_, rfl⟩
          · exact .inl hc

/-- Texts put in place are texts, when the element is left as well. -/
theorem complete (f : Frame H) : f.Reworded f.complete := by
  obtain ⟨attributes, contents, buffer, counts, misnomer, spoiled, remade, heq, -, hbuilt, hmore⟩ :=
    Reworded.flush f true
  exact ⟨attributes, contents, buffer, counts, misnomer, spoiled, none,
    by rw [Frame.complete, heq], .inr rfl, hbuilt, hmore⟩

/-- A text held back is not yet in the node. -/
theorem addText (f : Frame H) (s : String) : f.Reworded (f.addText s) := by
  obtain ⟨buffer, heq⟩ := f.addText_eq s
  rw [heq]
  exact ⟨f.attributes, f.contents, buffer, f.counts, f.misnomer, f.spoiled, f.remade, rfl, .inl rfl,
    .inl, fun _ => .inl⟩

/-- Neither is what comes in place of a text. -/
theorem spoil (f : Frame H) : f.Reworded f.spoil := by
  unfold Frame.spoil
  split
  · exact ⟨f.attributes, f.contents, f.buffer, f.counts, f.misnomer, true, f.remade, rfl, .inl rfl,
      .inl, fun _ => .inl⟩
  · exact .refl f

/-- The node that a frame begins with is empty. -/
theorem start (f : Frame H) (l : Ledger) : f.Reworded (f.start l).1 := by
  unfold Frame.start
  split
  next hbuilt =>
    exact ⟨f.attributes, some [], f.buffer, f.counts, f.misnomer, f.spoiled, f.remade, rfl,
      .inl rfl, fun _ => .inr hbuilt, nofun⟩
  · exact .refl f

end Reworded

end Frame

/-! ### Stacks -/

/-- Whatever a drive with these handlers does to a stack keeps the property: entering and leaving
elements, texts, and what handlers do. What a property has to be for that is collected here, so that
each one is carried through a drive once. -/
structure Stack.Lasting (b : Behavior H σ) (P : Stack H → Prop) : Prop where
  /-- An element is entered. -/
  entered : ∀ {st : Stack H} (name : String) (attributes : Table Value), P st →
    P ((st.enter name attributes).2.push (st.enter name attributes).1)
  /-- The innermost frame comes into another state. -/
  reworded : ∀ {f g : Frame H} (st : Stack H), f.Reworded g → P (st.push f) → P (st.push g)
  /-- A handler is called with the innermost frame. -/
  called : ∀ {st : Stack H} (c : Call H) (w : σ) (t : Turn H), P (st.push t.frame) →
    P (st.push ((b c w).run t).1.frame)
  /-- An element is left. -/
  left : ∀ {st : Stack H} {f : Frame H}, P (st.push f) → P st
  /-- The node of an element that is left is taken in. -/
  adopted : ∀ {parent parent' f : Frame H} {n : Node} (st : Stack H), f.node? = some n →
    parent.adopt n = .ok parent' → P ((st.push parent).push f) → P (st.push parent')

namespace Stack.Lasting

variable {b : Behavior H σ} {P : Stack H → Prop} (hP : Lasting b P)

include hP

/-- What every new wording of a frame keeps, a change of the top frame keeps. -/
theorem mapTop {st : Stack H} {g : Frame H → Frame H} (hg : ∀ f : Frame H, f.Reworded (g f))
    (h : P st) : P (st.mapTop g) := by
  obtain ⟨frames, pending, counts⟩ := st
  cases frames with
  | nil => exact h
  | cons f rest => exact hP.reworded ⟨rest, pending, counts⟩ (hg f) h

/-- What becomes of the node of an element that is left keeps the property. -/
theorem settle {st st' : Stack H} {f : Frame H} {l l' : Ledger} {fate : Fate} (h : P (st.push f))
    (hsettle : st.settle f l = .ok (fate, st', l')) : P st' := by
  unfold Stack.settle at hsettle
  cases hnode : f.node? with
  | none =>
      rw [hnode] at hsettle
      cases hsettle
      exact hP.left h
  | some n =>
      rw [hnode] at hsettle
      obtain ⟨frames, pending, counts⟩ := st
      cases frames with
      | nil =>
          cases hsettle
          exact hP.left h
      | cons parent rest =>
          dsimp only at hsettle
          split at hsettle
          · cases hadopt : parent.adopt n with
            | error flaw =>
                rw [hadopt] at hsettle
                cases hsettle
            | ok parent' =>
                rw [hadopt] at hsettle
                cases hsettle
                exact hP.adopted ⟨rest, pending, counts⟩ hnode hadopt h
          · cases hsettle
            exact hP.left h

/-! ### Calls -/

variable {s s' : Session H σ} {f : Frame H} {m : Moment H σ}

/-- One call keeps the property. -/
theorem invoke (phase : Phase) (h : H) (r : Rule H) (hs : P (s.stack.push f)) :
    P ((s.invoke b phase h r f).1.stack.push (s.invoke b phase h r f).2.1) := by
  rw [(s.beside_invoke b phase h r f).stack_eq, s.frame_invoke]
  exact hP.called _ _ (s.turn phase f) hs

/-- The property holds at each of several calls, and behind them. -/
theorem momentsFrom (phase : Phase) (rules : List (Rule H)) (hs : P (s.stack.push f)) :
    (∀ m ∈ Session.momentsFrom b phase rules s f, P (m.session.stack.push m.frame)) ∧
      P ((Session.invokeAll b phase rules s f).1.stack.push
        (Session.invokeAll b phase rules s f).2.1) := by
  induction rules generalizing s f with
  | nil => exact ⟨fun m hm => absurd hm List.not_mem_nil, hs⟩
  | cons r rest ih =>
      cases hr : Session.handlerOf phase r with
      | none =>
          simp only [Session.momentsFrom, Session.invokeAll, hr]
          exact ih hs
      | some h =>
          have hnext := hP.invoke phase h r hs
          by_cases hm : (⟨s, f, phase, h, r⟩ : Moment H σ).Passes b
          · obtain ⟨hmoments, hcalls⟩ := Session.cons_of_passes hr rest hm
            rw [hmoments, hcalls]
            obtain ⟨hrest, hlast⟩ := ih hnext
            exact ⟨List.forall_mem_cons.mpr ⟨hs, hrest⟩, hlast⟩
          · obtain ⟨hmoments, hcalls⟩ := Session.cons_of_not_passes hr rest hm
            rw [hmoments, hcalls]
            exact ⟨List.forall_mem_singleton.mpr hs, hnext⟩

/-! ### Items -/

/-- What comes before the calls keeps the property. -/
theorem stage {i : Item} (hs : P s.stack) (hfine : (s.stage i).Fine) :
    P (s.stage i).whole.stack := by
  have hstaged := s.staged i
  generalize s.stage i = g at hstaged hfine ⊢
  cases hstaged with
  | entered name attributes depth hpath =>
      have hflushed := hP.mapTop (fun f => .flush f false) hs
      exact hP.reworded _ (.start _ s.ledger) (hP.entered name attributes hflushed)
  | misnamed name hpath =>
      have hflushed := hP.mapTop (fun f => .flush f false) hs
      refine hP.reworded _ ?_ (hP.entered "" [] hflushed)
      exact ⟨_, _, _, _, some name, _, _, rfl, .inl rfl, .inl, fun _ => .inl⟩
  | heard text depth => exact hP.mapTop (fun f => .addText f text) hs
  | dropped | reported => exact hs
  | spoilt => exact hP.mapTop Frame.Reworded.spoil hs
  | left name depth f rest hframes =>
      obtain ⟨_, _, ⟨frames, pending, counts⟩⟩ := s
      cases hframes
      exact hP.reworded ⟨rest, pending, counts⟩ (.complete f) hs
  | refused | unheard | torn | nothing | foreign => cases hfine

/-- What comes behind the calls keeps the property, as long as no fault ends the drive. -/
theorem complete {g : Stage H σ} (hs : P g.whole.stack) (hcomplete : g.complete b = (s', none)) :
    P s'.stack := by
  cases g with
  | settled s fault =>
      obtain ⟨rfl, -⟩ := Prod.mk.inj hcomplete
      exact hs
  | calling phase rules s f =>
      obtain ⟨-, hlast⟩ := hP.momentsFrom phase rules hs
      simp only [Stage.complete] at hcomplete
      generalize Session.invokeAll b phase rules s f = called at hcomplete hlast
      obtain ⟨s₁, f₁, fault⟩ := called
      cases phase with
      | opening =>
          obtain ⟨rfl, -⟩ := Prod.mk.inj hcomplete
          exact hlast
      | closing =>
          obtain ⟨fate, stack, ledger, records, hsettle, rfl⟩ :=
            Session.settle_of_afterCalls hcomplete
          exact hP.settle hlast hsettle

/-- An item that is taken keeps the property, as long as no fault ends the drive. -/
theorem take {i : Item} (hs : P s.stack) (htake : s.take b i = (s', none)) : P s'.stack := by
  obtain ⟨s₁, monitor, records, hcomplete, rfl⟩ := Session.complete_of_take htake
  have hwhole := hP.stage (s := s.counted) hs (Stage.fine_of_complete hcomplete)
  have hdone : P s₁.stack := hP.complete hwhole hcomplete
  exact hdone

/-- At a call for an item the property holds with the frame of the element on the stack. -/
theorem moment {i : Item} (hs : P s.stack) (hm : m ∈ (s.stage i).moments b) :
    P (m.session.stack.push m.frame) := by
  cases hstage : s.stage i with
  | settled s' fault =>
      rw [hstage] at hm
      cases hm
  | calling phase rules s' f =>
      have hwhole := hP.stage (i := i) hs (by rw [hstage]; trivial)
      rw [hstage] at hm hwhole
      exact (hP.momentsFrom phase rules hwhole).1 m hm

/-- **What lasts holds at every call of a drive.** -/
theorem moments {feed : Feed} (hs : P s.stack) (hgoing : s.stopPath = none)
    (hm : m ∈ s.moments b feed) : P (m.session.stack.push m.frame) := by
  obtain ⟨s', i, hs', -, hmem⟩ := Session.mem_moments (P := fun s => P s.stack)
    (fun _ _ h => h) (fun _ _ _ h _ htake => hP.take h htake) feed hs hgoing hm
  exact hP.moment (s := s'.counted) hs' hmem

end Stack.Lasting

end MarkupRouting
