import MarkupRouting.Proofs.Routing.Moments
import MarkupRouting.Routing.Dispatcher

/-!
# Sessions that are alike

Two drives of one dispatcher may differ in what is measured and recorded, and in the pieces into
which the texts held back are cut. No call and no report shows the difference.

* **Frame.Akin**, **Stack.Akin** — the texts held back are cut into other pieces.
* **Session.Gauged**, **Session.Akin** — sessions that differ in nothing else but in what is
  measured and recorded.
* **Session.akin_take**, **akin_run**, **Akin.conclude** — such sessions stay such, whatever comes.
* **Report.reduced**, **Outcome.Alike** — what may differ of two outcomes.
* **Session.Akin.alike_outcome** — sessions that are alike come to outcomes that are.
-/

namespace MarkupRouting

variable {H σ : Type}

/-! ### Texts held back -/

namespace Frame

variable {f g k : Frame H}

/-- The second frame is the first one with texts held back that are cut into other pieces, if there
is a node for them to go into. -/
def Akin (f g : Frame H) : Prop :=
  ∃ buffer, g = { f with buffer } ∧
    (buffer = f.buffer ∨ f.contents.isSome = true ∧
      String.join buffer.reverse = String.join f.buffer.reverse)

namespace Akin

/-- Texts held back are cut as they are. -/
theorem refl (f : Frame H) : f.Akin f := ⟨f.buffer, rfl, .inl rfl⟩

theorem symm (h : f.Akin g) : g.Akin f := by
  obtain ⟨buffer, rfl, hpieces⟩ := h
  refine ⟨f.buffer, rfl, ?_⟩
  rcases hpieces with hsame | ⟨hbuilt, hjoin⟩
  · exact .inl hsame.symm
  · exact .inr ⟨hbuilt, hjoin.symm⟩

/-- Texts cut twice are cut once. -/
theorem trans (h₁ : f.Akin g) (h₂ : g.Akin k) : f.Akin k := by
  obtain ⟨buffer, rfl, hpieces⟩ := h₁
  obtain ⟨buffer', rfl, hpieces'⟩ := h₂
  refine ⟨buffer', rfl, ?_⟩
  rcases hpieces with rfl | ⟨hbuilt, hjoin⟩
  · exact hpieces'
  · rcases hpieces' with rfl | ⟨-, hjoin'⟩
    · exact .inr ⟨hbuilt, hjoin⟩
    · exact .inr ⟨hbuilt, hjoin'.trans hjoin⟩

/-- Put in place, the pieces are the same text. -/
theorem flush (h : f.Akin g) (closing : Bool) : g.flush closing = f.flush closing := by
  obtain ⟨buffer, rfl, hpieces⟩ := h
  rcases hpieces with rfl | ⟨hbuilt, hjoin⟩
  · rfl
  · obtain ⟨contents, hcontents⟩ := Option.isSome_iff_exists.mp hbuilt
    -- with no pieces nothing is put in place, and with empty ones nothing is left of them
    have hput : ∀ pieces : List String, ({ f with buffer := pieces } : Frame H).flush closing =
        { f with
          contents := some (withText contents
            (f.mode.apply (String.join pieces.reverse) contents.isEmpty closing))
          buffer := [] } := by
      intro pieces
      unfold Frame.flush
      simp only [hcontents]
      cases pieces with
      | nil =>
          have hnone : withText contents (f.mode.apply (String.join [].reverse) contents.isEmpty
              closing) = contents := by
            rw [show String.join ([] : List String).reverse = "" from rfl, TextMode.apply_empty]
            rfl
          rw [hnone, ← hcontents]
          rfl
      | cons piece rest => rfl
    have hf := hput f.buffer
    rw [hput buffer, hjoin, ← hf]

/-- Whether something that is no text is held back does not depend on the pieces. -/
theorem spoiled_eq (h : f.Akin g) : g.spoiled = f.spoiled := by
  obtain ⟨_, rfl, -⟩ := h
  rfl

/-- A text held back in both is cut alike behind what was. -/
theorem addText (h : f.Akin g) (s : String) : (f.addText s).Akin (g.addText s) := by
  obtain ⟨buffer, rfl, hpieces⟩ := h
  unfold Frame.addText
  by_cases hbuilt : f.contents.isSome = true
  · refine ⟨s :: buffer, ?_, .inr ⟨?_, ?_⟩⟩
    · simp only [hbuilt, if_true]
    · simp only [hbuilt, if_true]
    · rcases hpieces with rfl | ⟨-, hjoin⟩
      · simp only [hbuilt, if_true]
      · simp only [hbuilt, if_true, List.reverse_cons, String.join_append, hjoin]
  · simp only [hbuilt]
    exact ⟨buffer, rfl, hpieces⟩

/-- What is no text comes behind all pieces. -/
theorem spoil (h : f.Akin g) : f.spoil.Akin g.spoil := by
  obtain ⟨buffer, rfl, hpieces⟩ := h
  unfold Frame.spoil
  dsimp only
  split
  · exact ⟨buffer, rfl, hpieces⟩
  · exact ⟨buffer, rfl, hpieces⟩

/-- When its element is left the frame is the same. -/
theorem complete (h : f.Akin g) : g.complete = f.complete := by
  rw [Frame.complete, Frame.complete, h.flush]

end Akin

end Frame

namespace Stack

variable {st st' st'' : Stack H}


/-- The second stack is the first one where the texts held back for the innermost element are cut
into other pieces. -/
def Akin (st st' : Stack H) : Prop :=
  st' = st ∨ ∃ f g rest, st.frames = f :: rest ∧ f.Akin g ∧ st' = { st with frames := g :: rest }

namespace Akin

/-- A stack differs from itself in nothing. -/
theorem refl (st : Stack H) : st.Akin st := .inl rfl

theorem symm (h : st.Akin st') : st'.Akin st := by
  rcases h with rfl | ⟨f, g, rest, hframes, hfg, rfl⟩
  · exact .inl rfl
  · refine .inr ⟨g, f, rest, rfl, hfg.symm, ?_⟩
    rw [← hframes]

theorem trans (h₁ : st.Akin st') (h₂ : st'.Akin st'') : st.Akin st'' := by
  rcases h₁ with rfl | ⟨f, g, rest, hframes, hfg, rfl⟩
  · exact h₂
  · rcases h₂ with rfl | ⟨g', k, rest', hframes', hgk, rfl⟩
    · exact .inr ⟨f, g, rest, hframes, hfg, rfl⟩
    · obtain ⟨rfl, rfl⟩ := List.cons.inj hframes'
      exact .inr ⟨f, k, rest, hframes, hfg.trans hgk, rfl⟩

/-- What is done to the innermost frames is done to such stacks. -/
theorem mapTop (h : st.Akin st') {e e' : Frame H → Frame H}
    (he : ∀ f g, f.Akin g → (e f).Akin (e' g)) : (st.mapTop e).Akin (st'.mapTop e') := by
  rcases h with rfl | ⟨f, g, rest, hframes, hfg, rfl⟩
  · unfold Stack.mapTop
    cases hframes : st'.frames with
    | nil => exact .refl st'
    | cons f rest => exact .inr ⟨e f, e' f, rest, rfl, he f f (.refl f), rfl⟩
  · unfold Stack.mapTop
    simp only [hframes]
    exact .inr ⟨e f, e' g, rest, rfl, he f g hfg, rfl⟩

/-- With the texts put in place there is no difference left. -/
theorem flush (h : st.Akin st') (closing : Bool) :
    st'.mapTop (·.flush closing) = st.mapTop (·.flush closing) := by
  rcases h with rfl | ⟨f, g, rest, hframes, hfg, rfl⟩
  · rfl
  · unfold Stack.mapTop
    simp only [hframes, hfg.flush]

/-- Whether something that is no text is held back does not depend on the pieces. -/
theorem isSpoiled_eq (h : st.Akin st') : st'.isSpoiled = st.isSpoiled := by
  rcases h with rfl | ⟨f, g, rest, hframes, ⟨_, rfl, -⟩, rfl⟩
  · rfl
  · unfold Stack.isSpoiled
    rw [hframes]
    rfl

/-- Whether all open elements have names that are texts does not depend on the pieces. -/
theorem hasPath_eq (h : st.Akin st') : st'.hasPath = st.hasPath := by
  rcases h with rfl | ⟨f, g, rest, hframes, ⟨_, rfl, -⟩, rfl⟩
  · rfl
  · unfold Stack.hasPath
    rw [hframes]
    rfl

/-- The path to the top does not depend on the pieces. -/
theorem path_eq (h : st.Akin st') : st'.path = st.path := by
  rcases h with rfl | ⟨f, g, rest, hframes, ⟨_, rfl, -⟩, rfl⟩
  · rfl
  · unfold Stack.path Stack.names
    rw [hframes]
    rfl

/-- The height does not depend on the pieces. -/
theorem length_eq (h : st.Akin st') : st'.frames.length = st.frames.length := by
  rcases h with rfl | ⟨f, g, rest, hframes, -, rfl⟩
  · rfl
  · rw [hframes]
    rfl

/-- Nor whether anything is open. -/
theorem isEmpty_eq (h : st.Akin st') : st'.frames.isEmpty = st.frames.isEmpty := by
  rcases h with rfl | ⟨f, g, rest, hframes, -, rfl⟩
  · rfl
  · rw [hframes]
    rfl

/-- The same frame is left in such stacks, but for the pieces held back; the same stack stays. -/
theorem leave (h : st.Akin st') :
    (st.leave? = none ∧ st'.leave? = none) ∨
      ∃ f g around, st.leave? = some (f, around) ∧ st'.leave? = some (g, around) ∧ f.Akin g := by
  rcases h with rfl | ⟨f, g, rest, hframes, hfg, rfl⟩
  · cases hleave : st'.leave? with
    | none => exact .inl ⟨rfl, rfl⟩
    | some top => exact .inr ⟨top.1, top.1, top.2, rfl, rfl, .refl top.1⟩
  · refine .inr ⟨f, g, { st with frames := rest }, ?_, rfl, hfg⟩
    rw [Stack.leave?, hframes]

/-- Given up, nothing is left of the pieces (`release_all` clears what is held back). -/
theorem cleared_eq (h : st.Akin st') : st'.cleared = st.cleared := by
  rcases h with rfl | ⟨f, g, rest, -, -, rfl⟩
  · rfl
  · rfl

/-- Nodes are given up whatever is held back. -/
theorem releaseAll_eq (h : st.Akin st') (l : Ledger) :
    (Frame.releaseAll st'.frames l).2 = (Frame.releaseAll st.frames l).2 := by
  rcases h with rfl | ⟨f, g, rest, hframes, ⟨_, rfl, -⟩, rfl⟩
  · rfl
  · rw [hframes]
    rfl

end Akin

end Stack

/-! ### Sessions -/

/-- Samples were taken, and all readings, taken and to come, are of a kind. The kind is any amount
where amounts are not looked at, and one amount where memory is constant. -/
structure Monitor.Reads (R : Int → Prop) (m : Monitor) : Prop where
  /-- Samples were taken. -/
  begun : m.taken ≠ []
  /-- Their readings are of that kind. -/
  taken : ∀ x ∈ m.taken, R x.bytes
  /-- All readings to come are. -/
  meter : ∀ n, R (m.meter n)

/-- One reading more is of the kind, since the meter gives no other ones. -/
theorem Monitor.Reads.sample {R : Int → Prop} {m : Monitor} (h : m.Reads R) (label : String) :
    (m.sample label).Reads R := by
  refine ⟨List.cons_ne_nil _ _, fun x hx => ?_, h.meter⟩
  rcases List.mem_cons.mp hx with rfl | hx
  · exact h.meter m.count
  · exact h.taken x hx

namespace Session

variable {R : Int → Prop} {s s' s'' : Session H σ} {b : Behavior H σ}

/-- Whatever is measured is of a kind. -/
def Measures (R : Int → Prop) (s : Session H σ) : Prop := ∀ m ∈ s.monitor, m.Reads R

/-- The second session is the first one but for what is measured and recorded: how many items were
taken, what was asked of the feed, the samples, whose readings are of a kind, and the records. -/
def Gauged (R : Int → Prop) (s s' : Session H σ) : Prop :=
  ∃ events pulled monitor records,
    s' = { s with tally := { s.tally with events }, pulled, monitor, records } ∧
      monitor.isSome = s.monitor.isSome ∧ s.Measures R ∧ ∀ m ∈ monitor, m.Reads R

/-- The second session is the first one but for what is measured and recorded, and for the pieces
into which texts held back are cut. -/
def Akin (R : Int → Prop) (s s' : Session H σ) : Prop :=
  ∃ st, s.stack.Akin st ∧ Gauged R { s with stack := st } s'

namespace Gauged

/-- A session differs from itself in nothing, if its readings are of the kind. -/
theorem refl (h : s.Measures R) : s.Gauged R s :=
  ⟨s.tally.events, s.pulled, s.monitor, s.records, rfl, rfl, h, h⟩

theorem symm (h : s.Gauged R s') : s'.Gauged R s := by
  obtain ⟨events, pulled, monitor, records, rfl, hsome, hs, hs'⟩ := h
  exact ⟨s.tally.events, s.pulled, s.monitor, s.records, rfl, hsome.symm, hs', hs⟩

/-- What the first session measures is of the kind. -/
theorem measures (h : s.Gauged R s') : s.Measures R := by
  obtain ⟨_, _, _, _, -, -, hs, -⟩ := h
  exact hs

/-- Nothing but measures and records: in particular the pieces are the same. -/
theorem akin (h : s.Gauged R s') : s.Akin R s' := ⟨s.stack, .refl s.stack, h⟩

/-- A record is one of the things that may differ. -/
theorem log_right (h : s.Gauged R s') (r : Log.Record) : s.Gauged R (s'.log r) := by
  obtain ⟨events, pulled, monitor, records, rfl, hsome, hs, hs'⟩ := h
  exact ⟨events, pulled, monitor, r :: records, rfl, hsome, hs, hs'⟩

/-- A sample is one of the things that may differ. -/
theorem sample_right (h : s.Gauged R s') (label : String) : s.Gauged R (s'.sample label) := by
  unfold Session.sample
  split
  · exact h
  next m hm =>
    obtain ⟨events, pulled, monitor, records, rfl, hsome, hs, hs'⟩ := h
    have hread : m.Reads R := hs' m hm
    refine .log_right ⟨events, pulled, some (m.sample label), records, rfl, ?_, hs, ?_⟩ _
    · rw [← hsome]
      have hm : monitor = some m := hm
      rw [hm]
      rfl
    · intro m' hm'
      obtain rfl := Option.some.inj hm'
      exact hread.sample label

/-- A sample that is due is one of the things that may differ. -/
theorem maybeSample_right (h : s.Gauged R s') : s.Gauged R s'.maybeSample := by
  unfold Session.maybeSample
  split
  · exact h
  · split
    · exact h.sample_right _
    · exact h

/-- A record made in both leaves them as alike as they were. -/
theorem tell (h : s.Gauged R s') (level : Log.Level) (message : String)
    (details : List (String × Log.Detail)) :
    (s.tell level message details).Gauged R (s'.tell level message details) :=
  ((h.log_right _).symm.log_right _).symm

end Gauged

end Session

/-! ### Calls -/

/-- What a handler does depends on no records. -/
theorem Action.run_records (a : Action σ) (t : Turn H) (records : List Log.Record) :
    ∃ records', a.run { t with records } =
      ({ (a.run t).1 with records := records' }, (a.run t).2) := by
  induction a generalizing t records with
  | finish w => exact ⟨records, rfl⟩
  | raise fault w => exact ⟨records, rfl⟩
  | stop next ih =>
      have hstop : ∃ records', ({ t with records } : Turn H).stop =
          { t.stop with records := records' } := by
        unfold Turn.stop
        dsimp only
        split
        · exact ⟨records, rfl⟩
        · exact ⟨_, rfl⟩
      obtain ⟨records', hstop⟩ := hstop
      simp only [Action.run, hstop]
      exact ih t.stop records'
  | setAttribute name value next ih => exact ih (t.setAttribute name value) records
  | append c next ih =>
      have happend : ({ t with records } : Turn H).append c = { t.append c with records } := by
        unfold Turn.append
        dsimp only
        split <;> rfl
      simp only [Action.run, happend]
      exact ih (t.append c) records
  | remake n next ih =>
      have hremake : ({ t with records } : Turn H).remake n = { t.remake n with records } := by
        unfold Turn.remake
        dsimp only
        split <;> rfl
      simp only [Action.run, hremake]
      exact ih (t.remake n) records
  | look next ih => exact ih t.subject t.stopPath.isSome t records
  | ask request next ih => exact ih (refusal t.driving request) t records
  | note rs next ih =>
      exact ih { t with records := rs.reverse ++ t.records } (rs.reverse ++ records)

namespace Session

variable {R : Int → Prop} {s s' : Session H σ} {f : Frame H}

/-- What comes of a call does not depend on what is measured and recorded. -/
theorem Gauged.invoke (h : s.Gauged R s') (b : Behavior H σ) (phase : Phase) (handler : H)
    (r : Rule H) (f : Frame H) :
    (s.invoke b phase handler r f).1.Gauged R (s'.invoke b phase handler r f).1 ∧
      (s'.invoke b phase handler r f).2 = (s.invoke b phase handler r f).2 := by
  obtain ⟨events, pulled, monitor, records, heq, hsome, hs, hs'⟩ := h
  have hturn : s'.turn phase f = { s.turn phase f with records } := by
    rw [heq]
    rfl
  have hcall : s'.call phase handler r (s'.turn phase f) =
      s.call phase handler r (s.turn phase f) := by
    rw [heq]
    rfl
  have hworld : s'.world = s.world := by rw [heq]
  obtain ⟨records', hrun⟩ := (b (s.call phase handler r (s.turn phase f)) s.world).run_records
    (s.turn phase f) records
  have htally : s'.tally.called phase = { s.tally.called phase with events } := by
    rw [heq]
    cases phase <;> rfl
  have hstop : ∀ t : Turn H, ∃ records, ({ t with records := records' } : Turn H).stop =
      { t.stop with records } := by
    intro t
    unfold Turn.stop
    dsimp only
    split
    · exact ⟨records', rfl⟩
    · exact ⟨_, rfl⟩
  unfold Session.invoke
  dsimp only
  rw [hcall, hworld, hturn, hrun, htally]
  generalize (b (s.call phase handler r (s.turn phase f)) s.world).run (s.turn phase f) = ending
  obtain ⟨t, w, fault⟩ := ending
  subst heq
  cases fault with
  | none => exact ⟨⟨events, pulled, monitor, records', rfl, hsome, hs, hs'⟩, rfl⟩
  | some cause =>
      obtain ⟨records'', hstop⟩ := hstop t
      dsimp only
      split
      · rw [hstop]
        exact ⟨⟨events, pulled, monitor, records'', rfl, hsome, hs, hs'⟩, rfl⟩
      · exact ⟨⟨events, pulled, monitor, records', rfl, hsome, hs, hs'⟩, rfl⟩

/-- What comes of several calls does not depend on what is measured and recorded. -/
theorem Gauged.invokeAll (h : s.Gauged R s') (b : Behavior H σ) (phase : Phase)
    (rules : List (Rule H)) (f : Frame H) :
    (Session.invokeAll b phase rules s f).1.Gauged R (Session.invokeAll b phase rules s' f).1 ∧
      (Session.invokeAll b phase rules s' f).2 = (Session.invokeAll b phase rules s f).2 := by
  induction rules generalizing s s' f with
  | nil => exact ⟨h, rfl⟩
  | cons r rest ih =>
      unfold Session.invokeAll
      split
      · exact ih h f
      next handler _ =>
        obtain ⟨hone, hsame⟩ := h.invoke b phase handler r f
        generalize s.invoke b phase handler r f = called at hone hsame ⊢
        generalize s'.invoke b phase handler r f = called' at hone hsame ⊢
        obtain ⟨s₁, f₁, fault⟩ := called
        obtain ⟨s₂, f₂, fault₂⟩ := called'
        obtain ⟨rfl, rfl⟩ := Prod.mk.inj hsame
        have hstopped : s₂.stopped = s₁.stopped := by
          obtain ⟨_, _, _, _, heq, -⟩ := hone
          dsimp only at heq
          rw [heq]
          rfl
        dsimp only at hone ⊢
        rw [hstopped]
        split
        · exact ⟨hone, rfl⟩
        · exact ih hone f₂

/-- Frames that are given up give up the same nodes, whatever is measured and recorded. -/
theorem Gauged.giveUp (h : s.Gauged R s') {frames frames' : List (Frame H)}
    (hledger : ∀ l, (Frame.releaseAll frames' l).2 = (Frame.releaseAll frames l).2)
    (hempty : frames'.isEmpty = frames.isEmpty) :
    (s.giveUp frames).1.Gauged R (s'.giveUp frames').1 ∧
      (s'.giveUp frames').2 = (s.giveUp frames).2 := by
  obtain ⟨events, pulled, monitor, records, rfl, hsome, hs, hs'⟩ := h
  unfold Session.giveUp
  dsimp only
  rw [hledger, hempty]
  split
  · exact ⟨⟨events, pulled, monitor, records, rfl, hsome, hs, hs'⟩, rfl⟩
  · exact ⟨⟨events, pulled, monitor, _, rfl, hsome, hs, hs'⟩, rfl⟩

/-- What is done behind the calls does not depend on what is measured and recorded. -/
theorem Gauged.afterCalls (h : s.Gauged R s') (phase : Phase) (f : Frame H)
    (fault : Option Fault) :
    (Session.afterCalls phase (s, f, fault)).1.Gauged R
        (Session.afterCalls phase (s', f, fault)).1 ∧
      (Session.afterCalls phase (s', f, fault)).2 =
        (Session.afterCalls phase (s, f, fault)).2 := by
  cases phase with
  | opening =>
      obtain ⟨events, pulled, monitor, records, rfl, hsome, hs, hs'⟩ := h
      exact ⟨⟨events, pulled, monitor, records, rfl, hsome, hs, hs'⟩, rfl⟩
  | closing =>
      cases fault with
      | some fault =>
          refine ⟨?_, rfl⟩
          unfold Session.afterCalls
          dsimp only
          split
          · exact (h.giveUp (fun _ => rfl) rfl).1
          · exact h
      | none =>
          obtain ⟨events, pulled, monitor, records, rfl, hsome, hs, hs'⟩ := h
          unfold Session.afterCalls
          dsimp only
          cases s.stack.settle f s.ledger with
          | error flaw => exact ⟨⟨events, pulled, monitor, records, rfl, hsome, hs, hs'⟩, rfl⟩
          | ok settled =>
              have hsettled : Gauged R { s with stack := settled.2.1, ledger := settled.2.2 }
                  { s with
                    stack := settled.2.1
                    ledger := settled.2.2
                    tally := { s.tally with events }
                    pulled
                    monitor
                    records } :=
                ⟨events, pulled, monitor, records, rfl, hsome, hs, hs'⟩
              exact ⟨hsettled.tell _ _ _, rfl⟩

end Session

/-! ### Items -/

/-- What comes before the calls is the same but for what is measured and recorded, and for texts
held back where no handler is called. -/
inductive Stage.Akin (R : Int → Prop) : Stage H σ → Stage H σ → Prop where
  /-- No handler is called. -/
  | settled {s s' : Session H σ} (h : s.Akin R s') (fault : Option Fault) :
      Akin R (.settled s fault) (.settled s' fault)
  /-- The same handlers are called for the same frame. -/
  | calling {s s' : Session H σ} (h : s.Gauged R s') (phase : Phase) (rules : List (Rule H))
      (f : Frame H) : Akin R (.calling phase rules s f) (.calling phase rules s' f)

namespace Session

variable {R : Int → Prop} {s s' s'' : Session H σ} {b : Behavior H σ}

namespace Akin

/-- A session is alike to itself, if its readings are of the kind. -/
theorem refl (h : s.Measures R) : s.Akin R s := (Gauged.refl h).akin

/-- What the first session measures is of the kind. -/
theorem measures (h : s.Akin R s') : s.Measures R := by
  obtain ⟨st, -, hgauged⟩ := h
  exact hgauged.measures

theorem symm (h : s.Akin R s') : s'.Akin R s := by
  obtain ⟨st, hst, events, pulled, monitor, records, rfl, hsome, hs, hs'⟩ := h
  exact ⟨s.stack, hst.symm, s.tally.events, s.pulled, s.monitor, s.records, rfl, hsome.symm, hs',
    hs⟩

theorem trans (h₁ : s.Akin R s') (h₂ : s'.Akin R s'') : s.Akin R s'' := by
  obtain ⟨st, hst, _, _, _, _, rfl, hsome, hs, -⟩ := h₁
  obtain ⟨st', hst', events, pulled, monitor, records, rfl, hsome', -, hs''⟩ := h₂
  exact ⟨st', hst.trans hst', events, pulled, monitor, records, rfl, hsome'.trans hsome, hs, hs''⟩

/-- Whether and where a stop was asked for does not depend on pieces and measures. -/
theorem stopPath_eq (h : s.Akin R s') : s'.stopPath = s.stopPath := by
  obtain ⟨st, -, _, _, _, _, rfl, -⟩ := h
  rfl

/-- The ledger does not depend on pieces and measures. -/
theorem ledger_eq (h : s.Akin R s') : s'.ledger = s.ledger := by
  obtain ⟨st, -, _, _, _, _, rfl, -⟩ := h
  rfl

/-- Where the pieces are the same as well, only measures and records differ. -/
theorem gauged (h : s.Akin R s') (hst : s'.stack = s.stack) : s.Gauged R s' := by
  obtain ⟨st, -, events, pulled, monitor, records, rfl, hsome, hs, hs'⟩ := h
  have hst : st = s.stack := hst
  subst hst
  exact ⟨events, pulled, monitor, records, rfl, hsome, hs, hs'⟩

/-- What happens to such sessions apart from the stack happens to both. -/
theorem restack (h : s.Akin R s') {st st' : Stack H} (hst : st.Akin st') :
    Akin R { s with stack := st } { s' with stack := st' } := by
  obtain ⟨_, -, events, pulled, monitor, records, rfl, hsome, hs, hs'⟩ := h
  exact ⟨st', hst, events, pulled, monitor, records, rfl, hsome, hs, hs'⟩

end Akin

/-- The stacks of such sessions differ in pieces only. -/
theorem Akin.stack (h : s.Akin R s') : s.stack.Akin s'.stack := by
  obtain ⟨st, hst, _, _, _, _, rfl, -⟩ := h
  exact hst

/-- A text comes to such sessions alike. -/
theorem Akin.hear (h : s.Akin R s') (text : String) : (s.hear text).Akin R (s'.hear text) := by
  have hempty := h.stack.isEmpty_eq
  have hstray : s'.strayText = s.strayText := by
    obtain ⟨st, -, _, _, _, _, rfl, -⟩ := h
    rfl
  unfold Session.hear
  rw [hempty, hstray]
  split
  · split
    · exact h
    · obtain ⟨st, hst, events, pulled, monitor, records, rfl, hsome, hs, hs'⟩ := h
      exact ⟨st, hst, events, pulled, monitor, records, rfl, hsome, hs, hs'⟩
  · have hheard := h.restack (h.stack.mapTop fun f g hfg => hfg.addText text)
    rwa [hstray] at hheard

/-- Something comes to such sessions in place of a text. -/
theorem Akin.mishear (h : s.Akin R s') :
    s.mishear.1.Akin R s'.mishear.1 ∧ s'.mishear.2 = s.mishear.2 := by
  unfold Session.mishear
  rw [h.stack.isEmpty_eq]
  split
  · exact ⟨h, rfl⟩
  · exact ⟨h.restack (h.stack.mapTop fun f g hfg => hfg.spoil), rfl⟩

/-- An element is entered in such sessions alike: the texts in front of it are put in place. -/
theorem Akin.entering (h : s.Akin R s') (name : String) (attributes : Table Value) :
    (s.entering name attributes).1.Gauged R (s'.entering name attributes).1 ∧
      (s'.entering name attributes).2 = (s.entering name attributes).2 := by
  have hflush := h.stack.flush false
  obtain ⟨st, hst, events, pulled, monitor, records, rfl, hsome, hs, hs'⟩ := h
  unfold Session.entering Stack.around
  dsimp only at hflush ⊢
  rw [hflush]
  refine ⟨.tell ?_ _ _ _, rfl⟩
  exact ⟨events, pulled, monitor, records, rfl, hsome, hs, hs'⟩

/-- An element whose name is no text is entered alike, and the same fault comes of it. -/
theorem Akin.enterMisnamed (h : s.Akin R s') (name : Value) :
    (s.enterMisnamed name).1.Akin R (s'.enterMisnamed name).1 ∧
      (s'.enterMisnamed name).2 = (s.enterMisnamed name).2 := by
  have hflush := h.stack.flush false
  have hspoiled := h.stack.isSpoiled_eq
  unfold Session.enterMisnamed
  rw [hflush, hspoiled]
  obtain ⟨st, hst, events, pulled, monitor, records, rfl, hsome, hs, hs'⟩ := h
  split
  · exact ⟨⟨st, hst, events, pulled, monitor, records, rfl, hsome, hs, hs'⟩, rfl⟩
  · split
    · exact ⟨⟨st, hst, events, pulled, monitor, records, rfl, hsome, hs, hs'⟩, rfl⟩
    · dsimp only
      split
      · exact ⟨⟨st, hst, events, pulled, monitor, records, rfl, hsome, hs, hs'⟩, rfl⟩
      · refine ⟨Gauged.akin (.tell ?_ _ _ _), rfl⟩
        exact ⟨events, pulled, monitor, records, rfl, hsome, hs, hs'⟩

/-- What comes before the calls is alike in such sessions. -/
theorem Akin.stage (h : s.Akin R s') (i : Item) : (s.stage i).Akin R (s'.stage i) := by
  cases i with
  | event e =>
      cases e with
      | opened name attributes depth =>
          obtain ⟨hentering, hframe⟩ := h.entering name attributes
          have hpath : s'.stack.hasPath = s.stack.hasPath := h.stack.hasPath_eq
          unfold Session.stage
          dsimp only
          rw [h.stack.isSpoiled_eq, hpath, hframe]
          split_ifs
          · exact .settled h _
          · exact .settled h _
          · exact .calling hentering _ _ _
      | text text depth => exact .settled (h.hear text) none
      | closed name depth =>
          have hleft : ∀ around : Stack H,
              Gauged R { s with stack := around, tally := s.tally.left }
                { s' with stack := around, tally := s'.tally.left } := by
            obtain ⟨_, -, events, pulled, monitor, records, rfl, hsome, hs, hs'⟩ := h
            exact fun around => ⟨events, pulled, monitor, records, rfl, hsome, hs, hs'⟩
          unfold Session.stage
          dsimp only
          rcases h.stack.leave with ⟨hnone, hnone'⟩ | ⟨f, g, around, hf, hg, hfg⟩
          · rw [hnone, hnone']
            exact .settled h _
          · -- with its texts put in place the frame is the same
            rw [hf, hg]
            dsimp only
            rw [hfg.complete, hfg.spoiled_eq]
            split_ifs
            · exact .settled (hleft around).akin _
            · exact .calling (hleft around) _ _ _
            · exact .calling (hleft around) _ _ _
  | misnamed name =>
      obtain ⟨hentered, hfault⟩ := h.enterMisnamed name
      simp only [Session.stage, hfault]
      exact .settled hentered _
  | notText =>
      obtain ⟨hheard, hfault⟩ := h.mishear
      simp only [Session.stage, hfault]
      exact .settled hheard _
  | foreign typeName => exact .settled h _

end Session

/-- Such parts lead to sessions that are alike. -/
theorem Stage.Akin.complete {R : Int → Prop} {g g' : Stage H σ} (h : g.Akin R g')
    (b : Behavior H σ) :
    (g.complete b).1.Akin R (g'.complete b).1 ∧ (g'.complete b).2 = (g.complete b).2 := by
  cases h with
  | settled h fault => exact ⟨h, rfl⟩
  | @calling s s' h phase rules f =>
      obtain ⟨hcalled, hsame⟩ := h.invokeAll b phase rules f
      simp only [Stage.complete]
      generalize Session.invokeAll b phase rules s f = called at hcalled hsame ⊢
      generalize Session.invokeAll b phase rules s' f = called' at hcalled hsame ⊢
      obtain ⟨s₁, f₁, fault⟩ := called
      obtain ⟨s₂, f₂, fault₂⟩ := called'
      obtain ⟨rfl, rfl⟩ := Prod.mk.inj hsame
      obtain ⟨hafter, hfault⟩ := hcalled.afterCalls phase f₂ fault₂
      exact ⟨hafter.akin, hfault⟩

namespace Session

variable {R : Int → Prop} {s s' : Session H σ} {b : Behavior H σ}

/-- A sample in one of them is no difference. -/
theorem Akin.sample_right (h : s.Akin R s') (label : String) : s.Akin R (s'.sample label) := by
  obtain ⟨st, hst, hgauged⟩ := h
  exact ⟨st, hst, hgauged.sample_right label⟩

/-- Neither is one that is due in one of them only: this is where the count of events comes in. -/
theorem Akin.maybeSample_right (h : s.Akin R s') : s.Akin R s'.maybeSample := by
  obtain ⟨st, hst, hgauged⟩ := h
  exact ⟨st, hst, hgauged.maybeSample_right⟩

/-- Whatever is taken, sessions that are alike stay alike. -/
theorem akin_take (h : s.Akin R s') (b : Behavior H σ) (i : Item) :
    (s.take b i).1.Akin R (s'.take b i).1 ∧ (s'.take b i).2 = (s.take b i).2 := by
  have hcounted : s.counted.Akin R s'.counted := by
    obtain ⟨st, hst, events, pulled, monitor, records, rfl, hsome, hs, hs'⟩ := h
    exact ⟨st, hst, events + 1, pulled + 1, monitor, records, rfl, hsome, hs, hs'⟩
  obtain ⟨hcomplete, hfault⟩ := (hcounted.stage i).complete b
  rw [take_eq, take_eq]
  generalize (s.counted.stage i).complete b = one at hcomplete hfault ⊢
  generalize (s'.counted.stage i).complete b = other at hcomplete hfault ⊢
  obtain ⟨s₁, fault⟩ := one
  obtain ⟨s₂, fault'⟩ := other
  dsimp only at hcomplete hfault
  subst hfault
  cases fault' with
  | some fault => exact ⟨hcomplete, rfl⟩
  | none => exact ⟨(hcomplete.maybeSample_right.symm.maybeSample_right).symm, rfl⟩

/-- **Whatever comes, sessions that are alike stay alike.** -/
theorem akin_run (feed : Feed) (h : s.Akin R s') (b : Behavior H σ) :
    (s.run b feed).1.Akin R (s'.run b feed).1 ∧ (s'.run b feed).2 = (s.run b feed).2 := by
  induction feed generalizing s s' with
  | done => exact ⟨h, rfl⟩
  | fault fault =>
      obtain ⟨st, hst, events, pulled, monitor, records, rfl, hsome, hs, hs'⟩ := h
      exact ⟨⟨st, hst, events, pulled + 1, monitor, records, rfl, hsome, hs, hs'⟩, rfl⟩
  | read chunk rest ih => exact ih h
  | note r rest ih =>
      have hlogged : (s.log r).Akin R (s'.log r) := by
        obtain ⟨st, hst, events, pulled, monitor, records, rfl, hsome, hs, hs'⟩ := h
        exact ⟨st, hst, events, pulled, monitor, r :: records, rfl, hsome, hs, hs'⟩
      exact ih hlogged
  | item i rest ih =>
      obtain ⟨htaken, hfault⟩ := akin_take h b i
      unfold Session.run
      generalize s.take b i = one at htaken hfault ⊢
      generalize s'.take b i = other at htaken hfault ⊢
      obtain ⟨s₁, fault⟩ := one
      obtain ⟨s₂, fault'⟩ := other
      dsimp only at htaken hfault
      subst hfault
      cases fault' with
      | some fault => exact ⟨htaken, rfl⟩
      | none =>
          have hstopped : s₂.stopped = s₁.stopped := by
            rw [Session.stopped, htaken.stopPath_eq]
            rfl
          dsimp only
          rw [hstopped]
          split
          · exact ⟨htaken, rfl⟩
          · exact ih htaken

end Session

/-! ### The end -/

namespace Session

variable {R : Int → Prop} {s s' : Session H σ}

/-- An observation made in both leaves them as alike as they were. -/
theorem Gauged.diagnose (h : s.Gauged R s') (severity : Severity) (message : String)
    (path : Option String) (details : Option (Table Value)) :
    (s.diagnose severity message path details).Gauged R
      (s'.diagnose severity message path details) := by
  obtain ⟨events, pulled, monitor, records, rfl, hsome, hs, hs'⟩ := h
  exact ⟨events, pulled, monitor, records, rfl, hsome, hs, hs'⟩

/-- Records, even different ones, leave them as alike as they were. -/
theorem Gauged.log (h : s.Gauged R s') (r r' : Log.Record) : (s.log r).Gauged R (s'.log r') :=
  ((h.log_right r').symm.log_right r).symm

/-- With the stacks cleared there is no difference left in them. -/
theorem Akin.clear (h : s.Akin R s') :
    s.clear.1.Gauged R s'.clear.1 ∧ s'.clear.2 = s.clear.2 := by
  have hstack := h.stack
  have hcleared : Gauged R { s with stack := s.stack.cleared }
      { s' with stack := s'.stack.cleared } := by
    rw [hstack.cleared_eq]
    exact (h.restack (.refl s.stack.cleared)).gauged rfl
  obtain ⟨hgiven, hcount⟩ := hcleared.giveUp (fun l => hstack.releaseAll_eq l) hstack.isEmpty_eq
  refine ⟨hgiven, ?_⟩
  unfold Session.clear
  dsimp only
  rw [hcount, hstack.length_eq]

/-- Sessions that are alike end alike. -/
theorem Akin.conclude (h : s.Akin R s') (fault : Option Fault) :
    (s.conclude fault).1.Akin R (s'.conclude fault).1 ∧
      (s'.conclude fault).2 = (s.conclude fault).2 := by
  have hstack := h.stack
  have hstopPath := h.stopPath_eq
  have hstopped : s'.stopped = s.stopped := by rw [Session.stopped, hstopPath, Session.stopped]
  have hnameless : s'.nameless = s.nameless := by
    obtain ⟨_, -, _, _, _, _, rfl, -⟩ := h
    rfl
  have hstuck : s'.isStuck fault = s.isStuck fault := by
    rw [Session.isStuck, Session.isStuck, hstack.isEmpty_eq, hstopped, hstack.hasPath_eq, hnameless]
  obtain ⟨hclear, hcounts⟩ := h.clear
  unfold Session.conclude
  rw [hstuck]
  split
  · exact ⟨h, rfl⟩
  · cases fault with
    | some fault => exact ⟨(hclear.log _ _).akin, rfl⟩
    | none =>
        dsimp only
        rw [hstopped]
        split
        · unfold Session.endStopped
          dsimp only
          have hpath : s'.clear.1.stopPath = s.clear.1.stopPath := hclear.akin.stopPath_eq
          obtain ⟨hframes, hnodes⟩ := Prod.ext_iff.mp hcounts
          rw [hframes, hnodes, hpath]
          exact ⟨(hclear.diagnose _ _ _ _).akin, rfl⟩
        · unfold Session.endFed
          rw [hstack.isEmpty_eq]
          split
          · exact ⟨h, rfl⟩
          · dsimp only
            obtain ⟨hframes, -⟩ := Prod.ext_iff.mp hcounts
            rw [hframes, hstack.path_eq]
            exact ⟨(hclear.diagnose _ _ _ _).akin, rfl⟩

end Session

/-! ### Reports -/

namespace Monitor.Reads

variable {R : Int → Prop} {m : Monitor}

/-- The first reading is of the kind. -/
theorem start (h : m.Reads R) : ∃ x, m.start? = some x ∧ R x := by
  refine ⟨_, ?_, h.taken (m.taken.getLast h.begun) (List.getLast_mem h.begun)⟩
  rw [Monitor.start?, Monitor.samples, List.head?_reverse, List.getLast?_eq_some_getLast h.begun]
  rfl

/-- The largest reading is of the kind. -/
theorem peak (h : m.Reads R) : ∃ x, m.peak? = some x ∧ R x := by
  have hsome : m.peak?.isSome = true := by
    rw [Monitor.peak?, List.isSome_max?_iff]
    exact mt List.map_eq_nil_iff.mp h.begun
  obtain ⟨bytes, hbytes⟩ := Option.isSome_iff_exists.mp hsome
  obtain ⟨x, hx, rfl⟩ := List.mem_map.mp (List.max?_mem hbytes)
  exact ⟨x.bytes, hbytes, h.taken x hx⟩

/-- The last reading is of the kind. -/
theorem last (h : m.Reads R) : ∃ x, m.last? = some x ∧ R x := by
  obtain ⟨x, earlier, htaken⟩ := List.exists_cons_of_ne_nil h.begun
  refine ⟨x.bytes, ?_, h.taken x (htaken ▸ List.mem_cons_self)⟩
  rw [Monitor.last?, htaken]
  rfl

end Monitor.Reads

/-- An amount of memory without the amount: whether there is one. When memory is read depends on how
many events there are (`maybe_sample`), so that amounts cannot be compared over other pieces. -/
def Value.sampled : Value → Value
  | null => null
  | _ => bool true

/-- The report without what depends on how texts are cut and on the machine: without the count of
events and the time, and with what a function keeps of each amount of memory. -/
def Report.reduced (memory : Value → Value) (r : Report) : Report :=
  { r with
    statistics :=
      { r.statistics with
        eventsProcessed := .null
        processingTime := Double.zero
        startMemory := memory r.statistics.startMemory
        peakMemory := memory r.statistics.peakMemory
        endMemory := memory r.statistics.endMemory } }

/-- What came of one drive is what came of another one, but for the records made, for what was asked
of the source, and for what reports are reduced by. -/
structure Outcome.Alike (memory : Value → Value) (o o' : Outcome H σ) : Prop where
  /-- The same calls are made, with the same subjects. -/
  calls : o'.calls = o.calls
  /-- The handlers kept the same. -/
  world : o'.world = o.world
  /-- Both end with the same fault, or with reports that are reduced to the same. -/
  result : o'.result.map (Report.reduced memory) = o.result.map (Report.reduced memory)

namespace Session

variable {R : Int → Prop} {s s' : Session H σ} {memory : Value → Value}

/-- Sessions that are alike are reported alike, if all readings of the kind count as one. -/
theorem Akin.reduced_report (h : s.Akin R s')
    (hmemory : ∀ x y, R x → R y → memory (.int x) = memory (.int y)) (elapsed elapsed' : Double) :
    (s'.report elapsed').reduced memory = (s.report elapsed).reduced memory := by
  obtain ⟨st, -, events, pulled, monitor, records, rfl, hsome, hs, hs'⟩ := h
  have hfigure : ∀ figure : Monitor → Option Int,
      (∀ m, m.Reads R → ∃ x, figure m = some x ∧ R x) →
      memory (.ofInt? (monitor.bind figure)) = memory (.ofInt? (s.monitor.bind figure)) := by
    intro figure hreads
    cases hm : s.monitor with
    | none =>
        rw [hm, Option.isSome_none, Option.isSome_eq_false_iff, Option.isNone_iff_eq_none] at hsome
        rw [hsome]
    | some m =>
        rw [hm, Option.isSome_some] at hsome
        obtain ⟨m', rfl⟩ := Option.isSome_iff_exists.mp hsome
        obtain ⟨x, hx, hread⟩ := hreads m (hs m hm)
        obtain ⟨x', hx', hread'⟩ := hreads m' (hs' m' rfl)
        simp only [Option.bind_some, hx, hx', Value.ofInt?]
        exact hmemory x' x hread' hread
  have hstart := hfigure Monitor.start? fun _ hm => hm.start
  have hpeak := hfigure Monitor.peak? fun _ hm => hm.peak
  have hlast := hfigure Monitor.last? fun _ hm => hm.last
  simp only [Report.reduced, Session.report, Session.statistics, hstart, hpeak, hlast]
  rfl

/-- Sessions that are alike come to outcomes that are alike. -/
theorem Akin.alike_outcome (h : s.Akin R s')
    (hmemory : ∀ x y, R x → R y → memory (.int x) = memory (.int y)) (fault : Option Fault)
    (elapsed elapsed' : Double) (closed closed' : Bool) :
    (Dispatcher.outcome s fault elapsed closed).Alike memory
      (Dispatcher.outcome s' fault elapsed' closed') := by
  have hcalls : s'.calls = s.calls := by
    obtain ⟨_, -, _, _, _, _, rfl, -⟩ := h
    rfl
  have hworld : s'.world = s.world := by
    obtain ⟨_, -, _, _, _, _, rfl, -⟩ := h
    rfl
  refine ⟨congrArg List.reverse hcalls, hworld, ?_⟩
  cases fault with
  | some fault => rfl
  | none => exact congrArg Except.ok (h.reduced_report hmemory elapsed elapsed')

end Session

end MarkupRouting
