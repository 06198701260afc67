import MarkupRouting.Proofs.Routing.Calls
import MarkupRouting.Routing.Dispatcher

/-!
# Accounts of nodes

A ledger counts the nodes that are built and given up. At every moment of a drive the difference is
what the open elements hold, and at its end, however it ends, there is none.

* **Stack.Balanced**, **Session.Balanced** — the books are right for the elements that are open.
* **Session.Accounted**, **Session.accounted_dispatch** — every event keeps them right, and no node
  is ever offered to a parent that cannot take it.
* **Session.trace**, **Session.accounted_trace** — the session after each item that is taken.
* **Session.run_ends_trace**, **Session.balanced_run** — a run ends with the last of them.
* **Session.Balanced.conclude** — every end of a drive gives up all that is still held.
* **Dispatcher.drive_accounts** — both for drives of a dispatcher.
-/

namespace MarkupRouting

variable {H σ : Type}

/-! ### The stack -/

namespace Stack

/-- The frames are sound, and the nodes built and not given up are those that they hold.
`NodeAllocationTracker` counts, the frames hold; that the two agree is the invariant of all
accounts. -/
structure Balanced (st : Stack H) (l : Ledger) : Prop where
  /-- Every frame is sound. -/
  sound : ∀ f ∈ st.frames, f.Sound
  /-- What was built was given up or is held. -/
  balance : l.built = l.freed + Frame.held st.frames

variable {st : Stack H} {l : Ledger}

/-- A balanced stack is balanced with another innermost frame that is sound and holds as much. -/
theorem Balanced.mapTop (h : st.Balanced l) {g : Frame H → Frame H}
    (hg : ∀ f : Frame H, f.Sound → (g f).Sound ∧ (g f).weight = f.weight) :
    (st.mapTop g).Balanced l := by
  obtain ⟨hsound, hbalance⟩ := h
  unfold Stack.mapTop
  split
  · exact ⟨hsound, hbalance⟩
  next f rest hframes =>
    rw [hframes] at hsound hbalance
    have hall := List.forall_mem_cons.mp hsound
    obtain ⟨hgf, hweight⟩ := hg f hall.1
    refine ⟨List.forall_mem_cons.mpr ⟨hgf, hall.2⟩, ?_⟩
    rw [hbalance, Frame.held_cons, Frame.held_cons, hweight]

/-- Taking a position changes nothing that counts. -/
theorem Balanced.claimPosition (h : st.Balanced l) (name : String) :
    (st.claimPosition name).2.Balanced l := by
  obtain ⟨hsound, hbalance⟩ := h
  unfold Stack.claimPosition
  split
  next hframes =>
    rw [hframes] at hbalance
    exact ⟨fun f hf => hsound f hf, by rw [hbalance]; simp [hframes]⟩
  next parent rest hframes =>
    rw [hframes] at hsound hbalance
    have hall := List.forall_mem_cons.mp hsound
    refine ⟨List.forall_mem_cons.mpr ⟨⟨hall.1.built, hall.1.named, hall.1.textual⟩, hall.2⟩, ?_⟩
    rw [hbalance, Frame.held_cons, Frame.held_cons]
    rfl

/-- With a sound frame on top the stack holds more by what that frame holds. -/
theorem Balanced.push (h : st.Balanced l) {f : Frame H} (hf : f.Sound) {l' : Ledger}
    (hbuilt : l'.built = l.built + f.weight) (hfreed : l'.freed = l.freed) :
    (st.push f).Balanced l' := by
  refine ⟨List.forall_mem_cons.mpr ⟨hf, h.sound⟩, ?_⟩
  have hbalance := h.balance
  simp only [Stack.push, Frame.held_cons]
  omega

/-- The node of an element that was left is taken in or given up, and the books are right again. -/
theorem Balanced.settle (st : Stack H) (l : Ledger) (hsound : ∀ f ∈ st.frames, f.Sound)
    (f : Frame H) (hbalance : l.built = l.freed + (f.weight + Frame.held st.frames)) :
    ∃ fate st' l', st.settle f l = .ok (fate, st', l') ∧ st'.Balanced l' := by
  unfold Stack.settle
  cases hnode : f.node? with
  | none =>
      rw [Frame.weight_eq_zero hnode, Nat.zero_add] at hbalance
      exact ⟨_, _, _, rfl, hsound, hbalance⟩
  | some n =>
      rw [Frame.weight_eq_size hnode] at hbalance
      have hreleased : (l.released n).built = (l.released n).freed + Frame.held st.frames := by
        simp only [Ledger.released]
        omega
      dsimp only
      split
      next parent rest hframes =>
        have hall := List.forall_mem_cons.mp (hframes ▸ hsound)
        split
        next hparent =>
          have hbuilt : parent.contents.isSome = true := hall.1.built.trans hparent
          obtain ⟨contents, hadopt, hsome, hweight⟩ := Frame.adopt_of_built hbuilt n
          rw [hadopt]
          refine ⟨_, _, _, rfl, List.forall_mem_cons.mpr ⟨⟨hsome.trans hparent.symm, hall.1.named,
            hall.1.textual⟩, hall.2⟩, ?_⟩
          rw [hframes, Frame.held_cons] at hbalance
          rw [Frame.held_cons, hweight]
          omega
        · exact ⟨_, _, _, rfl, hsound, hreleased⟩
      · exact ⟨_, _, _, rfl, hsound, hreleased⟩

end Stack

/-! ### Sessions -/

namespace Session

/-- The books are right for the elements that are open, and all of these have names. -/
structure Balanced (s : Session H σ) : Prop where
  /-- The books are right. -/
  stack : s.stack.Balanced s.ledger
  /-- No element was refused for its name. -/
  named : s.nameless = false

/-- A step left the books right, and did not offer a node to a parent that cannot take it. -/
structure Accounted (r : Session H σ × Option Fault) : Prop where
  /-- The books are right. -/
  balanced : r.1.Balanced
  /-- No node was refused. -/
  taken : ∀ flaw, r.2 ≠ some (.frame flaw)

variable {b : Behavior H σ} {s s' : Session H σ}

/-- What happens beside the stack and the ledger keeps the books right. -/
theorem Balanced.beside (h : s.Balanced) (hs : s.Beside s') : s'.Balanced :=
  ⟨by rw [hs.stack_eq, hs.ledger_eq]; exact h.stack, hs.nameless_eq.trans h.named⟩

/-- A sample keeps the books right. -/
theorem Balanced.sample (h : s.Balanced) (label : String) : (s.sample label).Balanced := by
  obtain ⟨_, _, heq⟩ := s.sample_eq label
  rw [heq]
  exact ⟨h.stack, h.named⟩

/-- A sample that may be due keeps the books right. -/
theorem Balanced.maybeSample (h : s.Balanced) : s.maybeSample.Balanced := by
  obtain ⟨_, _, heq⟩ := s.maybeSample_eq
  rw [heq]
  exact ⟨h.stack, h.named⟩

/-! ### Events -/

/-- The frame that an element begins with is sound, and the books without it are right. -/
theorem Balanced.entering (h : s.Balanced) (name : String) (attributes : Table Value) :
    (s.entering name attributes).2.Sound ∧
      (s.entering name attributes).1.stack.Balanced s.ledger ∧
      (s.entering name attributes).1.nameless = false ∧
      (s.entering name attributes).1.ledger.built =
        s.ledger.built + (s.entering name attributes).2.weight ∧
      (s.entering name attributes).1.ledger.freed = s.ledger.freed := by
  have hflushed : (s.stack.mapTop (·.flush false)).Balanced s.ledger :=
    h.stack.mapTop fun f hf => ⟨hf.flush false, f.weight_flush false⟩
  obtain ⟨hsound, hbuilt, hfreed⟩ := Frame.Sound.start
    (f := ((s.stack.mapTop (·.flush false)).enter name attributes).1) rfl rfl rfl s.ledger
  exact ⟨hsound, hflushed.claimPosition name, h.named, hbuilt, hfreed⟩

/-- Handlers that leave the contents of nodes as they are do not change how many a frame holds. If
they fail, and with what can be told, this is reported of them. -/
theorem invokeAll_keeps (hb : b.KeepsContents) (htells : b.Tells) (phase : Phase)
    (rules : List (Rule H)) (s : Session H σ) (f : Frame H) :
    (invokeAll b phase rules s f).2.1.weight = f.weight ∧
      ∀ fault, (invokeAll b phase rules s f).2.2 = some fault → fault.isHandler = true := by
  refine ⟨by rw [Frame.weight, contents_invokeAll hb, Frame.weight], fun fault hfault => ?_⟩
  obtain ⟨_, _, _, _, rfl⟩ := handler_invokeAll htells hfault
  rfl

/-- What is reported of a handler is no refusal of a node. -/
theorem ne_frame_of_isHandler {fault : Option Fault}
    (h : ∀ found, fault = some found → found.isHandler = true) (flaw : Frame.Flaw) :
    fault ≠ some (.frame flaw) := by
  rintro rfl
  cases h _ rfl

/-- Entering an element keeps the books right. -/
theorem accounted_enter (hb : b.KeepsContents) (htells : b.Tells) (h : s.Balanced) (name : String)
    (attributes : Table Value) : Accounted (s.enter b name attributes) := by
  obtain ⟨hsound, hstack, hnamed, hbuilt, hfreed⟩ := h.entering name attributes
  rw [enter_eq b h.stack.sound]
  generalize s.entering name attributes = entry at *
  have hbeside := invokeAll_beside b .opening entry.2.openRules entry.1 entry.2
  have htouched := touched_invokeAll b .opening entry.2.openRules entry.1 entry.2
  obtain ⟨hweight, hflaw⟩ := invokeAll_keeps hb htells .opening entry.2.openRules entry.1 entry.2
  refine ⟨⟨?_, hbeside.nameless_eq.trans hnamed⟩, ne_frame_of_isHandler hflaw⟩
  refine Stack.Balanced.push (hbeside.stack_eq ▸ hstack) (htouched.kin.sound hsound) ?_ ?_
  · rw [hbeside.ledger_eq, hbuilt, hweight]
  · rw [hbeside.ledger_eq, hfreed]

/-- A text keeps the books right. -/
theorem balanced_hear (h : s.Balanced) (text : String) : (s.hear text).Balanced := by
  unfold Session.hear
  split
  · split
    · exact h
    · exact ⟨h.stack, h.named⟩
  · refine ⟨h.stack.mapTop fun f hf => ?_, h.named⟩
    obtain ⟨buffer, hbuffer⟩ := f.addText_eq text
    rw [hbuffer]
    exact ⟨⟨hf.built, hf.named, hf.textual⟩, rfl⟩

/-- Frames that are given up change the ledger only, and a record is made of it. -/
theorem giveUp_eq (s : Session H σ) (frames : List (Frame H)) :
    ∃ records,
      (s.giveUp frames).1 = { s with ledger := (Frame.releaseAll frames s.ledger).2, records } := by
  unfold Session.giveUp
  dsimp only
  split
  · exact ⟨s.records, rfl⟩
  · exact ⟨_, rfl⟩

/-- The close handlers of an element change the contents of its frame as little as they do those of
its node. -/
theorem invokeAll_closing (hb : b.KeepsContents) (htells : b.Tells) (s : Session H σ)
    (f : Frame H) :
    ∃ s' f' fault,
      (if f.contents.isSome then invokeAll b .closing f.closeRules s f else (s, f, none)) =
        (s', f', fault) ∧
      s.Beside s' ∧ f.Touched f' ∧ f'.weight = f.weight ∧
      ∀ found, fault = some found → found.isHandler = true := by
  split
  · obtain ⟨hweight, hflaw⟩ := invokeAll_keeps hb htells .closing f.closeRules s f
    exact ⟨_, _, _, rfl, invokeAll_beside b .closing f.closeRules s f,
      touched_invokeAll b .closing f.closeRules s f, hweight, hflaw⟩
  · exact ⟨s, f, none, rfl, .refl s, .refl f, rfl, nofun⟩

/-- Leaving an element keeps the books right: its node becomes part of the parent's or is given up,
also where a close handler is reported to have failed. -/
theorem accounted_leave (hb : b.KeepsContents) (htells : b.Tells) (h : s.Balanced) :
    Accounted (s.leave b) := by
  obtain ⟨⟨hsound, hbalance⟩, hnamed⟩ := h
  unfold Session.leave Stack.leave?
  cases hframes : s.stack.frames with
  | nil => exact ⟨⟨⟨hsound, hbalance⟩, hnamed⟩, nofun⟩
  | cons f rest =>
      rw [hframes, Frame.held_cons] at hbalance
      obtain ⟨hf, hrest⟩ := List.forall_mem_cons.mp (hframes ▸ hsound)
      rw [← f.weight_complete] at hbalance
      dsimp only
      rw [hf.textual]
      simp only [Bool.false_eq_true, ↓reduceIte]
      obtain ⟨s', f', fault, hcalled, hbeside, htouched, hweight, hflaw⟩ :=
        invokeAll_closing hb htells
          { s with stack := { s.stack with frames := rest }, tally := s.tally.left } f.complete
      rw [hcalled]
      have hstack : s'.stack = { s.stack with frames := rest } := hbeside.stack_eq
      have hledger : s'.ledger = s.ledger := hbeside.ledger_eq
      have hnameless : s'.nameless = false := hbeside.nameless_eq.trans hnamed
      rw [← hweight] at hbalance
      cases fault with
      | some fault =>
          -- the frame is off the stack already: the end of the drive will not give it up
          obtain ⟨records, hgiven⟩ := s'.giveUp_eq [f']
          dsimp only
          rw [hflaw fault rfl, if_pos rfl, hgiven, Frame.releaseAll_ledger]
          refine ⟨⟨⟨hstack ▸ hrest, ?_⟩, hnameless⟩, ne_frame_of_isHandler hflaw⟩
          · dsimp only
            rw [hledger, hstack, hbalance, Frame.held_cons, Frame.held_nil, Nat.add_zero,
              Nat.add_assoc]
      | none =>
          obtain ⟨fate, st, l, hsettled, hst⟩ :=
            Stack.Balanced.settle s'.stack s'.ledger (hstack ▸ hrest) f'
              (by rw [hledger, hstack, hbalance])
          dsimp only
          rw [hsettled]
          exact ⟨⟨hst, hnameless⟩, nofun⟩

end Session

/-! ### Runs -/

/-- What comes is an event, or something else that takes the place of one: no event has a name or a
text that is no text. -/
def Item.IsProper : Item → Prop
  | .event _ | .foreign _ => True
  | .misnamed _ | .notText => False

namespace Session

variable {b : Behavior H σ} {s : Session H σ}

/-- Whatever comes, the books stay right, and no node is offered to a parent that cannot take it. -/
theorem accounted_dispatch (hb : b.KeepsContents) (htells : b.Tells) (h : s.Balanced) {i : Item}
    (hi : i.IsProper) : Accounted (s.dispatch b i) := by
  cases i with
  | event e =>
      cases e with
      | opened name attributes depth => exact accounted_enter hb htells h name attributes
      | text text depth => exact ⟨balanced_hear h text, nofun⟩
      | closed name depth => exact accounted_leave hb htells h
  | foreign typeName => exact ⟨h, nofun⟩
  | misnamed name => exact hi.elim
  | notText => exact hi.elim

/-- The books stay right when an item is taken. -/
theorem accounted_take (hb : b.KeepsContents) (htells : b.Tells) (h : s.Balanced) {i : Item}
    (hi : i.IsProper) : Accounted (s.take b i) := by
  have hcounted :
      ({ s with pulled := s.pulled + 1, tally := s.tally.took } : Session H σ).Balanced :=
    ⟨h.stack, h.named⟩
  have hdispatched := accounted_dispatch hb htells hcounted hi
  unfold Session.take
  split
  next s' fault heq => exact heq ▸ hdispatched
  next s' heq =>
    rw [heq] at hdispatched
    exact ⟨hdispatched.balanced.maybeSample, nofun⟩

/-- The sessions after the items that are taken, each with the fault that ends the drive there. A
drive is the last of them (`_DriveSession.run`); what holds after every item is said of all. -/
def trace (b : Behavior H σ) (s : Session H σ) : Feed → List (Session H σ × Option Fault)
  | .done | .fault _ => []
  | .read _ rest => trace b s rest
  | .note r rest => trace b (s.log r) rest
  | .item i rest =>
    match s.take b i with
    | (s, some fault) => [(s, some fault)]
    | (s, none) => (s, none) :: if s.stopped then [] else trace b s rest

/-- The books are right after every item. -/
theorem accounted_trace (hb : b.KeepsContents) (htells : b.Tells) (feed : Feed) (h : s.Balanced)
    (hfeed : ∀ i ∈ feed.items, i.IsProper) : ∀ r ∈ s.trace b feed, Accounted r := by
  induction feed generalizing s with
  | done => exact nofun
  | fault fault => exact nofun
  | read chunk rest ih => exact ih h hfeed
  | note r rest ih => exact ih (h.beside (s.beside_log r)) hfeed
  | item i rest ih =>
      obtain ⟨hi, hrest⟩ := List.forall_mem_cons.mp hfeed
      have htaken := accounted_take hb htells h hi
      unfold Session.trace
      split
      next s' fault heq =>
        rw [heq] at htaken
        exact List.forall_mem_singleton.mpr htaken
      next s' heq =>
        rw [heq] at htaken
        refine List.forall_mem_cons.mpr ⟨htaken, ?_⟩
        split
        · exact nofun
        · exact ih htaken.balanced hrest

/-- What making records and asking the feed does not change is at the end of a run what it was after
the last item taken. -/
theorem run_ends_trace {α : Type} (view : Session H σ → α) (hlog : ∀ s r, view (s.log r) = view s)
    (hpulled : ∀ (s : Session H σ) n, view { s with pulled := n } = view s) (b : Behavior H σ)
    (feed : Feed) (s : Session H σ) :
    view (s.run b feed).1 = ((s.trace b feed).map fun r => view r.1).getLastD (view s) := by
  induction feed generalizing s with
  | done => rfl
  | fault fault => exact hpulled s (s.pulled + 1)
  | read chunk rest ih => exact ih s
  | note r rest ih =>
      have hrest := ih (s.log r)
      rwa [hlog] at hrest
  | item i rest ih =>
      unfold Session.run Session.trace
      cases s.take b i with
      | mk s' fault =>
          cases fault with
          | some fault => rfl
          | none =>
              dsimp only
              by_cases hstopped : s'.stopped = true
              · rw [if_pos hstopped, if_pos hstopped]
                rfl
              · rw [if_neg hstopped, if_neg hstopped, ih s', List.map_cons, List.getLastD_cons]

/-- The books are right behind the whole feed, however the run ended. -/
theorem balanced_run (hb : b.KeepsContents) (htells : b.Tells) (feed : Feed) (h : s.Balanced)
    (hfeed : ∀ i ∈ feed.items, i.IsProper) : (s.run b feed).1.Balanced := by
  let view : Session H σ → Stack H × Ledger × Bool := fun s => (s.stack, s.ledger, s.nameless)
  have hsame : ∀ {s s' : Session H σ}, view s' = view s → s.Balanced → s'.Balanced := by
    intro s s' heq hs
    simp only [view, Prod.mk.injEq] at heq
    obtain ⟨hstack, hledger, hnameless⟩ := heq
    exact ⟨by rw [hstack, hledger]; exact hs.stack, hnameless.trans hs.named⟩
  have hend := run_ends_trace view (fun _ _ => rfl) (fun _ _ => rfl) b feed s
  have hmem : view (s.run b feed).1 ∈ view s :: (s.trace b feed).map fun r => view r.1 :=
    hend ▸ List.getLastD_mem_cons
  rcases List.mem_cons.mp hmem with hlast | hlast
  · exact hsame hlast h
  · obtain ⟨r, hr, hview⟩ := List.mem_map.mp hlast
    exact hsame hview.symm (accounted_trace hb htells feed h hfeed r hr).balanced

/-! ### The end -/

/-- A balanced session can always name the path at its end. -/
theorem Balanced.not_isStuck (h : s.Balanced) (fault : Option Fault) : s.isStuck fault = false := by
  rw [Session.isStuck, Stack.hasPath_of_sound h.stack.sound, h.named]
  simp

/-- Where everything that is open is given up, everything that it holds is, and nothing else happens
to the ledger. -/
theorem clear_ledger (s : Session H σ) :
    s.clear.1.ledger =
      { s.ledger with freed := s.ledger.freed + Frame.held s.stack.frames } := by
  obtain ⟨records, hgiven⟩ := ({ s with stack := s.stack.cleared } : Session H σ).giveUp_eq
    s.stack.frames
  unfold Session.clear
  dsimp only
  rw [hgiven]
  exact Frame.releaseAll_ledger s.stack.frames s.ledger

/-- However a drive ends, nothing that was built is kept. -/
theorem Balanced.conclude (h : s.Balanced) (fault : Option Fault) :
    (s.conclude fault).1.ledger.built = (s.conclude fault).1.ledger.freed := by
  have hcleared : s.clear.1.ledger.built = s.clear.1.ledger.freed := by
    rw [s.clear_ledger]
    exact h.stack.balance
  unfold Session.conclude
  rw [h.not_isStuck fault]
  simp only [Bool.false_eq_true, ↓reduceIte]
  cases fault with
  | some fault => exact hcleared
  | none =>
      dsimp only
      split
      · exact hcleared
      · unfold Session.endFed
        split
        next hempty =>
          have hbalance := h.stack.balance
          rwa [List.isEmpty_iff.mp hempty, Frame.held_nil, Nat.add_zero] at hbalance
        · exact hcleared

end Session

/-! ### Drives -/

namespace Dispatcher

variable {b : Behavior H σ}

/-- A drive begins with right books: nothing was built. -/
theorem balanced_session (d : Dispatcher H) (around : Surroundings) (source : Source) (world : σ) :
    (d.engaged.session around source world).Balanced := by
  refine .sample (.beside ?_ (Session.beside_log _ _)) _
  exact ⟨⟨nofun, rfl⟩, rfl⟩

/-- **Every node is accounted for.** Handlers may return, ask for a stop, and fail with anything
that can be put into words; what comes may be well nested or not, may be no event at all, and the
source may fail with anything. As long as the handlers leave the contents of nodes as they are, the
nodes built and not given up (`NodeAllocationTracker`) are after every item the ones that the open
elements hold, no more are given up than were built, and no node is offered to a parent that cannot
take it. When the drive is over, however it ended, all are given up.

That a fault says what it is when it is asked is up to the fault (`__str__`), and its report
(`HandlerError`) relies on that. Where a close handler fails with one that does not, the report is
not made, and the node of the element that was just left is forgotten instead of given up. -/
theorem drive_accounts (d : Dispatcher H) (hidle : d.driving = false) (hb : b.KeepsContents)
    (htells : b.Tells) (t : Markup.Tokenizer) (around : Surroundings) (typeName : String)
    (feed : Feed) (hfeed : ∀ i ∈ feed.items, i.IsProper) (closable : Bool) (world : σ) :
    let source := Source.items typeName feed closable
    (∀ r ∈ (d.engaged.session around source world).trace b feed,
      r.1.ledger.live = Frame.held r.1.stack.frames ∧ r.1.ledger.freed ≤ r.1.ledger.built ∧
        ∀ flaw, r.2 ≠ some (.frame flaw)) ∧
      (d.drive b t around source world).2.ledger.live = 0 ∧
      (d.drive b t around source world).2.ledger.built =
        (d.drive b t around source world).2.ledger.freed := by
  intro source
  have hbegin := d.balanced_session around source world
  have hend : (d.drive b t around source world).2.ledger.built =
      (d.drive b t around source world).2.ledger.freed := by
    let ended := ((d.engaged.session around source world).run b feed).1.conclude
      ((d.engaged.session around source world).run b feed).2
    have hdrive : (d.drive b t around source world).2.ledger = (ended.1.sample "end").ledger := by
      rw [drive, hidle]
      rfl
    obtain ⟨_, _, hsample⟩ := ended.1.sample_eq "end"
    rw [hdrive, hsample]
    exact (Session.balanced_run hb htells feed hbegin hfeed).conclude _
  refine ⟨fun r hr => ?_, ?_, hend⟩
  · obtain ⟨hbalanced, hflaw⟩ := Session.accounted_trace hb htells feed hbegin hfeed r hr
    have hbalance := hbalanced.stack.balance
    refine ⟨?_, by omega, hflaw⟩
    rw [Ledger.live]
    omega
  · rw [Ledger.live, hend, sub_self]

/-- Surroundings in which nothing is measured. -/
def calm : Surroundings := { identity := "run", meter := fun _ => 0, elapsed := default }

/-- A tokenizer that refuses every document. -/
def refusing : Markup.Tokenizer :=
  { State := Unit, start := fun _ => (), feed := fun _ _ => none, finish := fun _ => none }

/-- A dispatcher that calls a handler whenever an element is left. -/
def attentive : Dispatcher Unit :=
  { settings := {}
    book :=
      { defaultMode := .keep
        rules := [⟨⟨"*", [.any], false, 0⟩, none, some (), .keep⟩]
        next := 1 } }

/-- Handlers that fail. -/
def failing : Behavior Unit Unit := fun _ w => .raise (.thrown .value (.text "broken")) w

/-- A list with one item in it that breaks off after the item. -/
def brokenList : Feed :=
  .ofItems [.event (.opened "list" [] 1), .event (.opened "item" [] 2), .event (.text "one" 2),
    .event (.closed "item" 2)]

/-- Where the handler of the item fails, the node of the item is given up with it and the node of
the list at the end of the drive. -/
theorem drive_accounts_brokenList :
    attentive.driving = false ∧ failing.KeepsContents ∧ failing.Tells ∧
      (∀ i ∈ brokenList.items, i.IsProper) ∧
      ((attentive.engaged.session calm (.items "list" brokenList false) ()).trace failing
        brokenList).map (fun r => r.1.ledger.built) = [1, 2, 2, 2] ∧
      (attentive.drive failing refusing calm (.items "list" brokenList false) ()).2.ledger.built =
        2 ∧
      (attentive.drive failing refusing calm (.items "list" brokenList false) ()).2.ledger.freed =
        2 := by
  have hproper : ∀ i ∈ brokenList.items, i.IsProper := by
    simp [brokenList, Feed.ofItems, Feed.after, Feed.items, Item.IsProper]
  have htells : failing.Tells := by
    rintro c w t cause hcause -
    obtain rfl := Option.some.inj hcause
    decide
  obtain ⟨-, -, hend⟩ := drive_accounts attentive rfl (fun _ _ _ => rfl : failing.KeepsContents)
    htells refusing calm "list" brokenList hproper false ()
  have hbuilt : (attentive.drive failing refusing calm (.items "list" brokenList false)
      ()).2.ledger.built = 2 := by rfl
  exact ⟨rfl, fun _ _ _ => rfl, htells, hproper, rfl, hbuilt, hend.symm.trans hbuilt⟩

end Dispatcher

end MarkupRouting
