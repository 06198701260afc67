import MarkupRouting.Proofs.Routing.Frame
import MarkupRouting.Routing.Session

/-!
# What calls of handlers change

Whatever handlers do, the state of a drive changes in few places: what is counted, where the drive
was asked to stop, the calls and records made and what the handlers keep. Of the frame of the
element only the attributes, the contents and what is known of the node change, and it has a node
afterwards where it had one before.

* **refusal_idle**, **refusal_driving** — when a dispatcher grants a request.
* **Frame.Kin**, **Frame.Touched** — a frame with another state of its node; one in which only
  attributes and node differ.
* **Session.Beside** — a session that differs in those few places only.
* **Behavior.KeepsContents** — handlers that leave the contents of the nodes they are given as they
  are.
* **Behavior.Tells** — handlers that fail only with what can be told.
* **Session.invokeAll_beside**, **Session.touched_invokeAll** — calls change nothing else.
* **Session.contents_invokeAll** — such handlers leave the contents as they are.
* **Session.enter_eq** — where nothing is amiss an element is entered by calling its open handlers.
-/

namespace MarkupRouting

variable {H σ : Type}

/-! ### Frames -/

/-- The second frame is the first one with other attributes, texts held back and counts, and with
another node where the first one has one. -/
def Frame.Kin (f g : Frame H) : Prop :=
  ∃ attributes contents buffer counts remade,
    g = { f with attributes, contents, buffer, counts, remade } ∧
      contents.isSome = f.contents.isSome

/-- A sound frame stays sound. -/
theorem Frame.Kin.sound {f g : Frame H} (h : f.Kin g) (hf : f.Sound) : g.Sound := by
  obtain ⟨_, _, _, _, _, rfl, hg⟩ := h
  exact ⟨hg.trans hf.built, hf.named, hf.textual⟩

/-- Where a node is to be built does not change. -/
theorem Frame.Kin.materializing_eq {f g : Frame H} (h : f.Kin g) :
    g.materializing = f.materializing := by
  obtain ⟨_, _, _, _, _, rfl, -⟩ := h
  rfl

/-- The frame of an element that is left is one with another state of its node. -/
theorem Frame.kin_complete (f : Frame H) : f.Kin f.complete := by
  obtain ⟨contents, buffer, heq, hsome⟩ := f.complete_eq
  rw [heq]
  exact ⟨f.attributes, contents, buffer, f.counts, none, rfl, hsome⟩

/-- The second frame is the first one with other attributes, and with another node where the first
one has one. -/
def Frame.Touched (f g : Frame H) : Prop :=
  ∃ attributes contents remade, g = { f with attributes, contents, remade } ∧
    contents.isSome = f.contents.isSome

namespace Frame.Touched

/-- A frame that nothing was done to. -/
theorem refl (f : Frame H) : f.Touched f := ⟨f.attributes, f.contents, f.remade, rfl, rfl⟩

/-- What is done in turn is done together. -/
theorem trans {f g k : Frame H} (h₁ : f.Touched g) (h₂ : g.Touched k) : f.Touched k := by
  obtain ⟨attributes, contents, remade, rfl, hg⟩ := h₁
  obtain ⟨attributes', contents', remade', rfl, hk⟩ := h₂
  exact ⟨attributes', contents', remade', rfl, hk.trans hg⟩

/-- What handlers do to a frame is some of what may happen to it. -/
theorem kin {f g : Frame H} (h : f.Touched g) : f.Kin g := by
  obtain ⟨attributes, contents, remade, rfl, hg⟩ := h
  exact ⟨attributes, contents, f.buffer, f.counts, remade, rfl, hg⟩

end Frame.Touched

/-! ### What one handler does -/

/-- A dispatcher that is idle grants what it is asked for. -/
theorem refusal_idle {driving : Bool} (h : driving = false) (request : Request) :
    refusal driving request = none := by
  rw [h]
  rfl

/-- A dispatcher that is driving does not. -/
theorem refusal_driving {driving : Bool} (h : driving = true) (request : Request) :
    refusal driving request = some (.reentrant request) := by
  rw [h]
  rfl

/-- Setting an attribute touches the frame only. -/
theorem Turn.touched_setAttribute (t : Turn H) (name : String) (value : Value) :
    t.frame.Touched (t.setAttribute name value).frame :=
  ⟨t.frame.attributes.put name value, t.frame.contents, _, rfl, rfl⟩

/-- Putting something into a node touches the frame only. -/
theorem Turn.touched_append (t : Turn H) (c : Content) : t.frame.Touched (t.append c).frame := by
  unfold Turn.append
  cases t.phase with
  | opening => exact .refl t.frame
  | closing => exact ⟨t.frame.attributes, _, t.frame.remade, rfl, Option.isSome_map⟩

/-- Making another node of a node touches the frame only. -/
theorem Turn.touched_remake (t : Turn H) (n : Node) : t.frame.Touched (t.remake n).frame := by
  unfold Turn.remake
  cases t.phase with
  | opening => exact .refl t.frame
  | closing => exact ⟨t.frame.attributes, _, _, rfl, Option.isSome_map⟩

/-- Asking for a stop leaves the frame as it is. -/
theorem Turn.frame_stop (t : Turn H) : t.stop.frame = t.frame := by
  unfold Turn.stop
  split <;> rfl

/-- Whatever a handler does, it touches the frame only. -/
theorem Action.touched_run (a : Action σ) (t : Turn H) : t.frame.Touched (a.run t).1.frame := by
  induction a generalizing t with
  | finish w => exact .refl t.frame
  | raise fault w => exact .refl t.frame
  | stop next ih =>
      have h := ih t.stop
      rwa [t.frame_stop] at h
  | setAttribute name value next ih =>
      exact (t.touched_setAttribute name value).trans (ih (t.setAttribute name value))
  | append c next ih => exact (t.touched_append c).trans (ih (t.append c))
  | remake n next ih => exact (t.touched_remake n).trans (ih (t.remake n))
  | look next ih => exact ih t.subject t.stopPath.isSome t
  | ask request next ih => exact ih (refusal t.driving request) t
  | note records next ih => exact ih { t with records := records.reverse ++ t.records }

/-- Whatever they are called with, handlers leave what stands in the nodes they are given as it
is. -/
def Behavior.KeepsContents (b : Behavior H σ) : Prop :=
  ∀ (c : Call H) (w : σ) (t : Turn H), ((b c w).run t).1.frame.contents = t.frame.contents

/-- Handlers that fail do so with a fault that says what it is when it is asked (`__str__`), or with
one that asks for the drive to be stopped. The report of a failed handler relies on the answer. -/
def Behavior.Tells (b : Behavior H σ) : Prop :=
  ∀ (c : Call H) (w : σ) (t : Turn H) (cause : Fault), ((b c w).run t).2.2 = some cause →
    cause.isStop = false → cause.mute? = none

/-! ### Calls -/

namespace Session

/-- What is reported of a handler whose fault can be put into words. -/
theorem reportOf_of_told {cause : Fault} (h : cause.mute? = none) (path element pattern : String)
    (phase : Phase) :
    reportOf cause path element pattern phase = .handler cause path element pattern phase := by
  rw [reportOf, h]
  rfl

/-- The second session is the first one but for what is counted, where the drive was asked to stop,
the calls and records made and what the handlers keep. -/
def Beside (s s' : Session H σ) : Prop :=
  ∃ tally stopPath calls records world, s' = { s with tally, stopPath, calls, records, world }

namespace Beside

/-- A session to which nothing happened. -/
theorem refl (s : Session H σ) : s.Beside s :=
  ⟨s.tally, s.stopPath, s.calls, s.records, s.world, rfl⟩

/-- What happens in turn happens together. -/
theorem trans {s₁ s₂ s₃ : Session H σ} (h₁ : s₁.Beside s₂) (h₂ : s₂.Beside s₃) : s₁.Beside s₃ := by
  obtain ⟨_, _, _, _, _, rfl⟩ := h₁
  obtain ⟨tally, stopPath, calls, records, world, rfl⟩ := h₂
  exact ⟨tally, stopPath, calls, records, world, rfl⟩

/-- What is measured or recorded beside does not touch the stack. -/
theorem stack_eq {s s' : Session H σ} (h : s.Beside s') : s'.stack = s.stack := by
  obtain ⟨_, _, _, _, _, rfl⟩ := h
  rfl

/-- Nor the ledger. -/
theorem ledger_eq {s s' : Session H σ} (h : s.Beside s') : s'.ledger = s.ledger := by
  obtain ⟨_, _, _, _, _, rfl⟩ := h
  rfl

/-- Nor whether the innermost element was refused for its name. -/
theorem nameless_eq {s s' : Session H σ} (h : s.Beside s') : s'.nameless = s.nameless := by
  obtain ⟨_, _, _, _, _, rfl⟩ := h
  rfl

/-- Nor how much was read. -/
theorem pulled_eq {s s' : Session H σ} (h : s.Beside s') : s'.pulled = s.pulled := by
  obtain ⟨_, _, _, _, _, rfl⟩ := h
  rfl

end Beside

/-- Making a record happens beside everything else. -/
theorem beside_log (s : Session H σ) (r : Log.Record) : s.Beside (s.log r) :=
  ⟨s.tally, s.stopPath, s.calls, r :: s.records, s.world, rfl⟩

/-- A sample changes what is measured and recorded. -/
theorem sample_eq (s : Session H σ) (label : String) :
    ∃ monitor records, s.sample label = { s with monitor, records } := by
  unfold Session.sample
  split
  · exact ⟨s.monitor, s.records, rfl⟩
  · exact ⟨_, _, rfl⟩

/-- A sample that may be due changes what is measured and recorded. -/
theorem maybeSample_eq (s : Session H σ) :
    ∃ monitor records, s.maybeSample = { s with monitor, records } := by
  unfold Session.maybeSample
  split
  · exact ⟨s.monitor, s.records, rfl⟩
  · split
    · exact s.sample_eq _
    · exact ⟨s.monitor, s.records, rfl⟩

variable {b : Behavior H σ} {phase : Phase} {s : Session H σ} {f : Frame H}

/-- The call of one handler happens beside everything else. -/
theorem beside_invoke (b : Behavior H σ) (phase : Phase) (h : H) (r : Rule H) (s : Session H σ)
    (f : Frame H) : s.Beside (s.invoke b phase h r f).1 := by
  unfold invoke
  dsimp only
  split
  · exact ⟨_, _, _, _, _, rfl⟩
  · split
    · exact ⟨_, _, _, _, _, rfl⟩
    · exact ⟨_, _, _, _, _, rfl⟩

/-- The frame that the call of one handler leaves is the one that the handler leaves. -/
theorem frame_invoke (b : Behavior H σ) (phase : Phase) (h : H) (r : Rule H) (s : Session H σ)
    (f : Frame H) :
    (s.invoke b phase h r f).2.1 =
      ((b (s.call phase h r (s.turn phase f)) s.world).run (s.turn phase f)).1.frame := by
  unfold invoke
  dsimp only
  split
  · rfl
  · split
    · rfl
    · rfl

/-- A handler that fails with what can be told is reported as one that failed. -/
theorem told_invoke (hb : b.Tells) {h : H} {r : Rule H} {fault : Fault}
    (hfault : (s.invoke b phase h r f).2.2 = some fault) :
    ∃ cause path name source, cause.mute? = none ∧
      fault = reportOf cause path name source phase := by
  unfold invoke at hfault
  dsimp only at hfault
  split at hfault
  · cases hfault
  next cause hcause =>
    split at hfault
    · cases hfault
    next hstop =>
      exact ⟨cause, _, _, _, hb _ _ _ cause hcause (Bool.not_eq_true _ ▸ hstop),
        (Option.some.inj hfault).symm⟩

/-- Where handlers fail with what can be told only, calls end with no fault but that of a handler
that failed. -/
theorem handler_invokeAll (hb : b.Tells) {rules : List (Rule H)} {fault : Fault}
    (hfault : (invokeAll b phase rules s f).2.2 = some fault) :
    ∃ cause path name source, fault = .handler cause path name source phase := by
  induction rules generalizing s f with
  | nil => cases hfault
  | cons r rest ih =>
      unfold invokeAll at hfault
      split at hfault
      · exact ih hfault
      · dsimp only at hfault
        split at hfault
        · obtain ⟨cause, path, name, source, htold, rfl⟩ := told_invoke hb hfault
          exact ⟨cause, path, name, source, reportOf_of_told htold path name source phase⟩
        · exact ih hfault

/-- Calls of handlers happen beside everything else. -/
theorem invokeAll_beside (b : Behavior H σ) (phase : Phase) (rules : List (Rule H))
    (s : Session H σ) (f : Frame H) : s.Beside (invokeAll b phase rules s f).1 := by
  induction rules generalizing s f with
  | nil => exact .refl s
  | cons r rest ih =>
      unfold invokeAll
      split
      · exact ih s f
      next h _ =>
        dsimp only
        split
        · exact s.beside_invoke b phase h r f
        · exact (s.beside_invoke b phase h r f).trans (ih _ _)

/-- The call of one handler only touches the frame of the element. -/
theorem touched_invoke (b : Behavior H σ) (phase : Phase) (h : H) (r : Rule H) (s : Session H σ)
    (f : Frame H) : f.Touched (s.invoke b phase h r f).2.1 := by
  rw [frame_invoke]
  exact Action.touched_run _ (s.turn phase f)

/-- Calls of handlers only touch the frame of the element. -/
theorem touched_invokeAll (b : Behavior H σ) (phase : Phase) (rules : List (Rule H))
    (s : Session H σ) (f : Frame H) : f.Touched (invokeAll b phase rules s f).2.1 := by
  induction rules generalizing s f with
  | nil => exact .refl f
  | cons r rest ih =>
      unfold invokeAll
      split
      · exact ih s f
      next h _ =>
        dsimp only
        split
        · exact s.touched_invoke b phase h r f
        · exact (s.touched_invoke b phase h r f).trans (ih _ _)

/-- Handlers that keep the contents of nodes leave those of the element as they are. -/
theorem contents_invokeAll (hb : b.KeepsContents) (rules : List (Rule H)) (s : Session H σ)
    (f : Frame H) : (invokeAll b phase rules s f).2.1.contents = f.contents := by
  induction rules generalizing s f with
  | nil => rfl
  | cons r rest ih =>
      unfold invokeAll
      split
      · exact ih s f
      next h _ =>
        have hone : (s.invoke b phase h r f).2.1.contents = f.contents := by
          rw [frame_invoke]
          exact hb _ _ (s.turn phase f)
        dsimp only
        split
        · exact hone
        · exact (ih _ _).trans hone

end Session

/-! ### Entering -/

namespace Stack

variable {st : Stack H}

/-- Where all frames are sound nothing but texts is held back. -/
theorem isSpoiled_of_sound (hsound : ∀ f ∈ st.frames, f.Sound) : st.isSpoiled = false := by
  unfold Stack.isSpoiled
  cases hframes : st.frames with
  | nil => rfl
  | cons f rest => exact (hsound f (hframes ▸ List.mem_cons_self)).textual

/-- Where all frames are sound every open element has a path. -/
theorem hasPath_of_sound (hsound : ∀ f ∈ st.frames, f.Sound) : st.hasPath = true :=
  List.all_eq_true.mpr fun f hf => by rw [(hsound f hf).named]; rfl

/-- The stack above which an element is entered: the texts in front of it are put in place, and its
position is taken. -/
def around (st : Stack H) (name : String) : Stack H :=
  ((st.mapTop (·.flush false)).claimPosition name).2

end Stack

namespace Session

/-- The session in which the open handlers of an element are called, and the frame that it begins
with. -/
def entering (s : Session H σ) (name : String) (attributes : Table Value) :
    Session H σ × Frame H :=
  let f := ((s.stack.mapTop (·.flush false)).enter name attributes).1
  let (f, ledger) := f.start s.ledger
  ({ s with stack := s.stack.around name, ledger, tally := s.tally.entered f.depth }.tellEntered f,
    f)

/-- Where all frames are sound an element is entered by calling its open handlers and putting its
frame on the stack. -/
theorem enter_eq (b : Behavior H σ) {s : Session H σ} (hsound : ∀ f ∈ s.stack.frames, f.Sound)
    (name : String) (attributes : Table Value) :
    s.enter b name attributes =
      let (s', f) := s.entering name attributes
      let (s', f, fault) := invokeAll b .opening f.openRules s' f
      ({ s' with stack := s'.stack.push f }, fault) := by
  unfold Session.enter
  rw [Stack.isSpoiled_of_sound hsound, Stack.hasPath_of_sound hsound]
  simp only [Bool.not_true, Bool.and_false, Bool.false_eq_true, ↓reduceIte]
  rfl

end Session

end MarkupRouting
