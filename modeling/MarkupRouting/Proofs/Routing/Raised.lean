import MarkupRouting.Proofs.Routing.Failing
import MarkupRouting.Proofs.Routing.Stopping
import MarkupRouting.Proofs.Routing.Taken

/-!
# Where faults come from

As long as all names and texts are texts a drive fails for few reasons: the source does, something
comes that is no event, an element is left while none is open, or a handler fails. Whichever it is,
the drive can name the elements that are open there.

* **Session.Sound** — names and texts of what is open are texts; **Sound.take** — they stay it even
  where an item fails.
* **Session.fails_quietly** — why an item fails for which every handler just returns.
* **Session.SoundBehind**, **run_sound** — a session that is sound behind the items taken, as every
  run leaves it.
* **Session.Raises**, **raises_run** — the faults that end a run.
-/

namespace MarkupRouting

variable {H σ : Type}

/-! ### Stacks -/

namespace Stack

variable {st st' : Stack H}

/-- Sound frames are right for the books in which nothing else was built. -/
theorem balanced_of_sound (h : ∀ f ∈ st.frames, f.Sound) :
    st.Balanced { built := Frame.held st.frames } := ⟨h, (Nat.zero_add _).symm⟩

/-- The stack above which an element is entered keeps sound frames. -/
theorem sound_around (h : ∀ f ∈ st.frames, f.Sound) (name : String) :
    ∀ f ∈ (st.around name).frames, f.Sound :=
  (((balanced_of_sound h).mapTop fun f hf => ⟨hf.flush false, f.weight_flush false⟩).claimPosition
    name).sound

/-- A stack with sound frames takes in every node, and they stay sound. -/
theorem sound_settle (h : ∀ f ∈ st.frames, f.Sound) (f : Frame H) (l : Ledger) :
    ∃ fate st' l', st.settle f l = .ok (fate, st', l') ∧ ∀ f ∈ st'.frames, f.Sound := by
  unfold Stack.settle
  cases f.node? with
  | none => exact ⟨_, _, _, rfl, h⟩
  | some n =>
      cases hframes : st.frames with
      | nil => exact ⟨_, _, _, rfl, h⟩
      | cons parent rest =>
          obtain ⟨hparent, hrest⟩ := List.forall_mem_cons.mp (hframes ▸ h)
          cases hwanted : parent.materializing with
          | false =>
              simp only [hwanted, Bool.false_eq_true, ↓reduceIte]
              exact ⟨_, _, _, rfl, h⟩
          | true =>
              obtain ⟨contents, hadopt, hsome, -⟩ :=
                Frame.adopt_of_built (hparent.built.trans hwanted) n
              simp only [hwanted, ↓reduceIte, hadopt]
              exact ⟨_, _, _, rfl, List.forall_mem_cons.mpr
                ⟨⟨hsome, hparent.named, hparent.textual⟩, hrest⟩⟩

end Stack

/-! ### Sessions -/

namespace Session

/-- The names and texts of the elements that are open are texts, and none was refused for its
name. -/
structure Sound (s : Session H σ) : Prop where
  /-- Every frame is sound. -/
  frames : ∀ f ∈ s.stack.frames, f.Sound
  /-- No element was refused for its name. -/
  named : s.nameless = false

variable {b : Behavior H σ} {s s' : Session H σ}

/-- A sound session can always name the path at its end. -/
theorem Sound.not_isStuck (h : s.Sound) (fault : Option Fault) : s.isStuck fault = false := by
  rw [Session.isStuck, Stack.hasPath_of_sound h.frames, h.named, Bool.not_true, Bool.or_false,
    Bool.and_false]

/-- Counting an item leaves a session sound. -/
theorem Sound.counted (h : s.Sound) : s.counted.Sound := ⟨h.frames, h.named⟩

/-- Before handlers are called an item leaves a session sound. A fault ends the drive there only
where the item is no event, or where nothing is open that could be left. -/
theorem Sound.stage (h : s.Sound) {i : Item} (hi : i.IsProper) :
    (s.stage i).whole.Sound ∧
      ((s.stage i).Fine ∨
        (∃ typeName, i = .foreign typeName ∧ s.stage i = .settled s (some (.eventType typeName))) ∨
        i.leaves = true ∧ s.stack.names = [] ∧ s.stage i = .settled s (some .nothingOpen)) := by
  have hspoiled : s.stack.isSpoiled = false := Stack.isSpoiled_of_sound h.frames
  have hpath : s.stack.hasPath = true := Stack.hasPath_of_sound h.frames
  have hstaged := s.staged i
  generalize s.stage i = g at hstaged ⊢
  cases hstaged with
  | entered name attributes depth =>
      obtain ⟨hsound, -, -⟩ := Frame.Sound.start
        (f := ((s.stack.mapTop (·.flush false)).enter name attributes).1) rfl rfl rfl s.ledger
      exact ⟨⟨List.forall_mem_cons.mpr ⟨hsound, Stack.sound_around h.frames name⟩, h.named⟩,
        .inl trivial⟩
  | refused _ fault nameless henters hodd =>
      -- names and texts are texts, so that no element is refused
      rcases hodd with hodd | hodd | ⟨name, rfl⟩
      · rw [hspoiled] at hodd
        cases hodd
      · rw [hpath] at hodd
        cases hodd
      · exact hi.elim
  | heard text =>
      refine ⟨⟨((Stack.balanced_of_sound h.frames).mapTop fun f hf => ?_).sound, h.named⟩, .inl rfl⟩
      obtain ⟨buffer, heq⟩ := f.addText_eq text
      rw [heq]
      exact ⟨⟨hf.built, hf.named, hf.textual⟩, rfl⟩
  | dropped | reported => exact ⟨⟨h.frames, h.named⟩, .inl rfl⟩
  | left name depth f rest hframes =>
      obtain ⟨hf, hrest⟩ := List.forall_mem_cons.mp (hframes ▸ h.frames)
      exact ⟨⟨List.forall_mem_cons.mpr ⟨hf.complete, hrest⟩, h.named⟩, .inl trivial⟩
  | torn name depth f rest hframes htorn =>
      have hf := h.frames f (hframes ▸ List.mem_cons_self)
      rw [hf.textual] at htorn
      cases htorn
  | nothing name depth hempty =>
      have hnames : s.stack.names = [] := by rw [Stack.names, hempty]; rfl
      exact ⟨h, .inr (.inr ⟨rfl, hnames, rfl⟩)⟩
  | foreign typeName => exact ⟨h, .inr (.inl ⟨typeName, rfl, rfl⟩)⟩
  | misnamed | spoilt | unheard => exact hi.elim

/-- Calls leave a session sound, and so does what comes behind them. Where they end without a fault
the item does. -/
theorem Sound.complete {g : Stage H σ} (h : g.whole.Sound) :
    (g.complete b).1.Sound ∧
      (g.Fine → g.session.stopPath = none → (∀ m ∈ g.moments b, m.Passes b) →
        (g.complete b).2 = none) := by
  cases g with
  | settled s fault => exact ⟨h, fun hfine _ _ => hfine⟩
  | calling phase rules s f =>
      obtain ⟨hf, haround⟩ := List.forall_mem_cons.mp h.frames
      have hbeside := invokeAll_beside b phase rules s f
      have hsound := (touched_invokeAll b phase rules s f).kin.sound hf
      have hpasses : s.stopPath = none → (∀ m ∈ momentsFrom b phase rules s f, m.Passes b) →
          (invokeAll b phase rules s f).2.2 = none := fun hgoing hall =>
        (invokeAll_passes hgoing hall).1
      have hnamed : (invokeAll b phase rules s f).1.nameless = false :=
        hbeside.nameless_eq.trans h.named
      have hframes : ∀ g ∈ (invokeAll b phase rules s f).1.stack.frames, g.Sound := by
        rw [hbeside.stack_eq]
        exact haround
      simp only [Stage.complete, Stage.moments, Stage.session]
      generalize invokeAll b phase rules s f = called at *
      obtain ⟨s₁, f₁, fault⟩ := called
      cases phase with
      | opening =>
          exact ⟨⟨List.forall_mem_cons.mpr ⟨hsound, hframes⟩, hnamed⟩, fun _ => hpasses⟩
      | closing =>
          cases fault with
          | some fault =>
              obtain ⟨records, hgiven⟩ := s₁.giveUp_eq [f₁]
              dsimp only [Session.afterCalls]
              rw [hgiven]
              refine ⟨?_, fun _ => hpasses⟩
              split
              · exact ⟨hframes, hnamed⟩
              · exact ⟨hframes, hnamed⟩
          | none =>
              obtain ⟨fate, st, l, hsettle, hst⟩ := Stack.sound_settle hframes f₁ s₁.ledger
              dsimp only [Session.afterCalls]
              rw [hsettle]
              exact ⟨⟨hst, hnamed⟩, fun _ _ _ => rfl⟩

/-- **An item leaves a session sound**, whatever handlers do at it and even where it fails. -/
theorem Sound.take (h : s.Sound) {i : Item} (hi : i.IsProper) : (s.take b i).1.Sound := by
  obtain ⟨monitor, records, htake⟩ := s.take_complete b i
  have hcomplete := ((h.counted.stage hi).1.complete (b := b)).1
  rw [htake]
  exact ⟨hcomplete.frames, hcomplete.named⟩

/-- **Where every handler just returns an item fails only for what it is**: it is no event, or an
element should be left while none is open. -/
theorem fails_quietly (h : s.Sound) {i : Item} (hi : i.IsProper) (hgoing : s.stopPath = none)
    (hall : ∀ m ∈ (s.counted.stage i).moments b, m.Passes b) {fault : Fault}
    (htake : s.take b i = (s', some fault)) :
    (∃ typeName, i = .foreign typeName ∧ fault = .eventType typeName) ∨
      i.leaves = true ∧ s.stack.names = [] ∧ fault = .nothingOpen := by
  have hfault : ((s.counted.stage i).complete b).2 = some fault := by
    rw [take_eq] at htake
    split at htake
    next _ _ heq => rw [heq, ← (Prod.mk.inj htake).2]
    next => cases (Prod.mk.inj htake).2
  obtain ⟨hwhole, hfine | ⟨typeName, rfl, hstage⟩ | ⟨hleaves, hnames, hstage⟩⟩ := h.counted.stage hi
  · have hnone := (hwhole.complete (b := b)).2 hfine ((s.stage_stopPath i).trans hgoing) hall
    rw [hnone] at hfault
    cases hfault
  · rw [hstage] at hfault
    exact .inl ⟨typeName, rfl, (Option.some.inj hfault).symm⟩
  · rw [hstage] at hfault
    exact .inr ⟨hleaves, hnames, (Option.some.inj hfault).symm⟩

/-- The names of the open elements are known behind every item, also where it fails. -/
theorem Sound.names_take (h : s.Sound) {i : Item} (hi : i.IsProper) :
    (s.take b i).1.stack.names = i.track s.stack.names := by
  refine Session.names_take fun henters => ?_
  obtain ⟨-, hfine | ⟨typeName, rfl, -⟩ | ⟨hleaves, -⟩⟩ := h.counted.stage hi
  · exact hfine
  · cases henters
  · rw [Item.leaves_of_enters henters] at hleaves
    cases hleaves

/-! ### Runs -/

/-- The faults that end a run of a feed in which these items are taken and handlers are called at
these moments. -/
inductive Raises (b : Behavior H σ) (feed : Feed) (taken : List Item)
    (moments : List (Moment H σ)) : Fault → Prop where
  /-- Everything was taken, and then the source fails. -/
  | source {fault : Fault} (hall : taken = feed.items) (hlast : feed.last = .fault fault) :
      Raises b feed taken moments fault
  /-- What was taken last is no event. -/
  | foreign {typeName : String} (hlast : taken.getLast? = some (.foreign typeName)) :
      Raises b feed taken moments (.eventType typeName)
  /-- What was taken last leaves an element, and none is open. -/
  | nothingOpen {front : List Item} {i : Item} (htaken : taken = front ++ [i])
      (hleaves : i.leaves = true) (hopened : Item.opened front = []) :
      Raises b feed taken moments .nothingOpen
  /-- The handler that was called last fails with what can be put into words. -/
  | handler {m : Moment H σ} {cause : Fault} (hlast : moments.getLast? = some m)
      (hfails : m.Fails b cause) (htold : cause.mute? = none) :
      Raises b feed taken moments
        (.handler cause m.call.path m.frame.name m.rule.pattern.source m.phase)
  /-- The handler that was called last fails with what cannot, and only the attempt is left. -/
  | mute {m : Moment H σ} {cause failure : Fault} (hlast : moments.getLast? = some m)
      (hfails : m.Fails b cause) (hmute : cause.mute? = some failure) :
      Raises b feed taken moments failure

/-- The session is sound behind these items, the elements are open that they opened, and the source
was asked for nothing else. -/
structure SoundBehind (taken : List Item) (s : Session H σ) : Prop where
  /-- The session is sound. -/
  sound : s.Sound
  /-- The elements are open that the items opened. -/
  names_eq : s.stack.names = Item.opened taken
  /-- The source was asked for the items. -/
  pulled_eq : s.pulled = taken.length

/-- It is so behind one item more, also where that fails. -/
theorem SoundBehind.take {taken : List Item} (h : s.SoundBehind taken) {i : Item}
    (hi : i.IsProper) : (s.take b i).1.SoundBehind (taken ++ [i]) := by
  refine ⟨h.sound.take hi, ?_, ?_⟩
  · rw [h.sound.names_take hi, h.names_eq, Item.opened_concat]
  · rw [pulled_take, h.pulled_eq, List.length_append, List.length_singleton]

/-- Behind a run of proper items the session is sound and the elements are open that the items taken
opened, whichever way it ended. Where every handler just returned a fault has to do with the items
alone. -/
theorem run_sound (feed : Feed) (hfeed : ∀ i ∈ feed.items, i.IsProper) (hs : s.Sound)
    (hnames : s.stack.names = []) (hpulled : s.pulled = 0) (hgoing : s.stopPath = none) :
    let ran := s.run b feed
    let taken := feed.items.take ran.1.pulled
    ran.1.Sound ∧ ran.1.stack.names = Item.opened taken ∧
      ∀ fault, ran.2 = some fault → (∀ m ∈ s.moments b feed, m.Passes b) →
        Raises b feed taken (s.moments b feed) fault := by
  have hstart : (∀ i ∈ ([] : List Item), i.IsProper) → s.SoundBehind [] :=
    fun _ => ⟨hs, hnames, hpulled⟩
  have hends := run_taken (b := b)
    (P := fun taken (s : Session H σ) => (∀ i ∈ taken, i.IsProper) → s.SoundBehind taken)
    (fun _ _ _ h hproper => ⟨⟨(h hproper).sound.frames, (h hproper).sound.named⟩,
      (h hproper).names_eq, (h hproper).pulled_eq⟩)
    (fun taken s i s' h _ htake hproper => by
      obtain ⟨htaken, hi⟩ := List.forall_mem_append.mp hproper
      have hbehind := (h htaken).take (b := b) (List.forall_mem_singleton.mp hi)
      rwa [htake] at hbehind)
    feed hstart hgoing
  generalize s.run b feed = ran at hends ⊢
  cases hends with
  | @ended s' k hk hs' _ =>
      rw [List.nil_append] at hs'
      obtain ⟨hsound, hopened, hcount⟩ := hs' fun i hi => hfeed i (List.mem_of_mem_take hi)
      rw [List.length_take, Nat.min_eq_left hk] at hcount
      dsimp only
      rw [hcount]
      exact ⟨hsound, hopened, nofun⟩
  | @broken s' fault hs' hlast =>
      obtain ⟨hsound, hopened, hcount⟩ := hs' hfeed
      rw [List.nil_append] at hopened hcount
      have hall : feed.items.take (s'.pulled + 1) = feed.items :=
        List.take_of_length_le (by omega)
      dsimp only
      rw [hall]
      refine ⟨⟨hsound.frames, hsound.named⟩, hopened, fun fault' hfault _ => ?_⟩
      cases hfault
      exact .source rfl hlast
  | @failed s₁ s' front rest i fault hitems hs₁ hgoes hcalls htake =>
      rw [List.nil_append] at hs₁
      rw [hitems] at hfeed ⊢
      obtain ⟨hfront, hrest⟩ := List.forall_mem_append.mp hfeed
      have hi := (List.forall_mem_cons.mp hrest).1
      have hbefore := hs₁ hfront
      have hbehind := hbefore.take (b := b) hi
      rw [htake] at hbehind
      obtain ⟨hsound, hopened, hcount⟩ := hbehind
      have htaken : (front ++ i :: rest).take s'.pulled = front ++ [i] := by
        rw [hcount, List.length_append, List.length_singleton, List.take_length_add_append]
        rfl
      dsimp only at hsound hopened ⊢
      rw [htaken]
      refine ⟨hsound, hopened, fun fault' hfault hall => ?_⟩
      cases hfault
      obtain ⟨typeName, rfl, rfl⟩ | ⟨hleaves, hnone, rfl⟩ :=
        fails_quietly hbefore.sound hi hgoes (fun m hm => hall m (hcalls.subset hm)) htake
      · exact .foreign List.getLast?_concat
      · exact .nothingOpen rfl hleaves (hbefore.names_eq.symm.trans hnone)

/-- **A fault that ends a run is that of the source, of an item or of a handler**, and comes out
unchanged but for what is said of the handler. -/
theorem raises_run (feed : Feed) (hfeed : ∀ i ∈ feed.items, i.IsProper) (hs : s.Sound)
    (horderly : s.Orderly) (hnames : s.stack.names = []) (hpulled : s.pulled = 0)
    (hgoing : s.stopPath = none) {fault : Fault}
    (hrun : (s.run b feed).2 = some fault) :
    Raises b feed (feed.items.take (s.run b feed).1.pulled) (s.moments b feed) fault := by
  obtain ⟨-, -, hraises⟩ := run_sound (b := b) feed hfeed hs hnames hpulled hgoing
  have hordered : ∀ {before m}, s.moments b feed = before ++ [m] → m.Orderly := fun hcalls =>
    orderly_moments horderly hgoing feed (hcalls ▸ List.mem_append_right _ List.mem_cons_self)
  rcases run_calls (b := b) feed hgoing with
    ⟨hall, -⟩ | ⟨before, m, hcalls, -, hstops | ⟨cause, hfails⟩, hlast⟩
  · exact hraises fault hrun hall
  · rw [hlast, (hstops.last_eq (hordered hcalls)).1] at hrun
    cases hrun
  · rw [hlast, (hfails.last_eq (hordered hcalls)).1] at hrun
    obtain rfl := Option.some.inj hrun
    have hlast : (s.moments b feed).getLast? = some m := by rw [hcalls, List.getLast?_concat]
    cases hmute : cause.mute? with
    | none =>
        rw [Moment.report_of_told hmute]
        exact .handler hlast hfails hmute
    | some failure =>
        rw [Moment.report_of_mute hmute]
        exact .mute hlast hfails hmute

end Session

end MarkupRouting
