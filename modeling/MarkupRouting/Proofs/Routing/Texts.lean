import MarkupRouting.Proofs.Routing.Endings
import MarkupRouting.Proofs.Routing.SessionEquivalence

/-!
# Texts in pieces

Texts that come one after the other are held back and put in place as one. It does not matter into
how many pieces a text was cut, nor whether some of them are empty.

* **Feed.joined** — a feed with adjacent texts joined and empty ones left out.
* **Session.akin_hear_empty**, **akin_hear_append** — an empty text changes nothing; two texts are
  as good as both together.
* **Session.run_joined** — a feed and the feed with its texts joined lead to sessions that are
  alike.
* **Dispatcher.drive_joins** — drives do not show how texts were cut.
-/

namespace MarkupRouting

variable {H σ : Type}

/-! ### Feeds -/

namespace Feed

/-- An item in front of a feed in which texts are joined: a text is joined to one that the feed
begins with, and an empty one is left out. The depth of texts does not matter. -/
def lead : Item → Feed → Feed
  | .event (.text s _), rest =>
    if s = "" then rest
    else
      match rest with
      | item (.event (.text t _)) rest => item (.event (.text (s ++ t) 0)) rest
      | rest => item (.event (.text s 0)) rest
  | i, rest => item i rest

/-- The feed with adjacent texts joined and empty ones left out, without the chunks that are read
and the records that are made. -/
def joined : Feed → Feed
  | done => done
  | fault f => fault f
  | read _ rest | note _ rest => rest.joined
  | item i rest => lead i rest.joined

end Feed

/-! ### Texts held back -/

/-- Two texts together are blank exactly if both are. -/
theorem Text.isBlankText_append (s t : String) :
    Text.isBlankText (s ++ t) = (Text.isBlankText s && Text.isBlankText t) := by
  rw [Text.isBlankText, String.toList_append, Text.allBlank, List.all_append]
  rfl

namespace Frame

/-- An empty text adds nothing. -/
theorem akin_addText_empty (f : Frame H) : f.Akin (f.addText "") := by
  unfold Frame.addText
  split
  next hbuilt =>
    refine ⟨"" :: f.buffer, rfl, .inr ⟨hbuilt, ?_⟩⟩
    simp
  · exact .refl f

/-- Two texts are as good as one. -/
theorem akin_addText_append (f : Frame H) (s t : String) :
    ((f.addText s).addText t).Akin (f.addText (s ++ t)) := by
  by_cases hbuilt : f.contents.isSome = true
  · have hadd : ∀ {g : Frame H}, g.contents = f.contents → ∀ s,
        g.addText s = { g with buffer := s :: g.buffer } := by
      intro g hg s
      exact if_pos (hg ▸ hbuilt)
    rw [hadd (g := f) rfl s, hadd (g := { f with buffer := s :: f.buffer }) rfl t,
      hadd (g := f) rfl (s ++ t)]
    exact ⟨(s ++ t) :: f.buffer, rfl, .inr ⟨hbuilt, by simp⟩⟩
  · have hadd : ∀ s, f.addText s = f := fun s => if_neg hbuilt
    rw [hadd s, hadd t, hadd (s ++ t)]
    exact .refl f

end Frame

/-! ### Texts one after the other -/

namespace Stack

/-- Two changes of the top frame are one. -/
theorem mapTop_mapTop (st : Stack H) (e e' : Frame H → Frame H) :
    (st.mapTop e).mapTop e' = st.mapTop fun f => e' (e f) := by
  unfold Stack.mapTop
  cases hframes : st.frames with
  | nil => simp only [hframes]
  | cons f rest => rfl

/-- No change of the top frame is no change. -/
theorem mapTop_id (st : Stack H) : st.mapTop (fun f => f) = st := by
  unfold Stack.mapTop
  split
  · rfl
  next f rest hframes => rw [← hframes]

end Stack

namespace Session

variable {R : Int → Prop} {s s' : Session H σ} {b : Behavior H σ}

/-- A text changes what is held back, or what was observed, whatever was counted. -/
theorem hear_counting (s : Session H σ) (text : String) :
    ∃ stack strayText diagnostics, ∀ tally pulled,
      ({ s with tally, pulled } : Session H σ).hear text =
        { s with stack, strayText, diagnostics, tally, pulled } := by
  unfold Session.hear
  dsimp only
  split_ifs
  · exact ⟨_, _, _, fun _ _ => rfl⟩
  · exact ⟨_, _, (s.diagnose .warning "Text outside the root element ignored" none
      none).diagnostics, fun _ _ => rfl⟩
  · exact ⟨_, _, _, fun _ _ => rfl⟩

/-- Hearing a text takes no reading of another kind. -/
theorem Measures.hear (h : s.Measures R) (text : String) : (s.hear text).Measures R := by
  obtain ⟨_, _, _, heard⟩ := s.hear_counting text
  rw [heard s.tally s.pulled]
  exact h

/-- An empty text changes nothing. -/
theorem akin_hear_empty (h : s.Measures R) : s.Akin R (s.hear "") := by
  unfold Session.hear
  split
  · exact .refl h
  · have hstack : s.stack.Akin (s.stack.mapTop (·.addText "")) := by
      have hid : (s.stack.mapTop fun f => f).Akin (s.stack.mapTop (·.addText "")) :=
        (Stack.Akin.refl s.stack).mapTop fun f g hfg => hfg.trans g.akin_addText_empty
      rwa [Stack.mapTop_id] at hid
    exact (Akin.refl h).restack hstack

/-- Two texts one after the other are as good as both of them together. -/
theorem akin_hear_append (h : s.Measures R) (text text' : String) :
    ((s.hear text).hear text').Akin R (s.hear (text ++ text')) := by
  cases hframes : s.stack.frames with
  | nil =>
      -- what is reported of the first text that is not blank is not reported again
      have hsame : (s.hear text).hear text' = s.hear (text ++ text') := by
        simp only [Session.hear, hframes, List.isEmpty_nil, if_true, Text.isBlankText_append]
        cases hblank : Text.isBlankText text with
        | true => simp [hframes]
        | false =>
            cases hstray : s.strayText with
            | true => simp [hframes, hstray]
            | false => simp [hframes, Session.diagnose]
      rw [hsame]
      exact .refl (h.hear (text ++ text'))
  | cons f rest =>
      have hhear : ∀ {s : Session H σ} {f rest}, s.stack.frames = f :: rest → ∀ text : String,
          s.hear text = { s with stack := s.stack.mapTop (·.addText text) } := by
        intro s f rest hframes text
        simp [Session.hear, hframes]
      have hheard : (s.stack.mapTop (·.addText text)).frames = f.addText text :: rest := by
        simp only [Stack.mapTop, hframes]
      rw [hhear hframes, hhear hheard, hhear hframes]
      dsimp only
      rw [Stack.mapTop_mapTop]
      exact (Akin.refl h).restack ((Stack.Akin.refl s.stack).mapTop fun f g hfg =>
        ((hfg.addText text).addText text').trans (g.akin_addText_append text text'))

/-- A text that is taken is heard, and the item is counted. -/
theorem akin_take_text (h : s.Measures R) (b : Behavior H σ) (text : String) (depth : Nat) :
    (s.hear text).Akin R (s.take b (.event (.text text depth))).1 ∧
      (s.take b (.event (.text text depth))).2 = none := by
  obtain ⟨_, _, _, heard⟩ := s.hear_counting text
  have hgauged : (s.hear text).Gauged R (s.counted.hear text) := by
    rw [heard s.tally s.pulled, Session.counted, heard s.tally.took (s.pulled + 1)]
    exact ⟨s.tally.events + 1, s.pulled + 1, s.monitor, s.records, rfl, rfl, h, h⟩
  exact ⟨hgauged.maybeSample_right.akin, rfl⟩

/-- No text stops a drive. -/
theorem going_take_text (h : s.Measures R) (hgoing : s.stopPath = none) (b : Behavior H σ)
    (text : String) (depth : Nat) : (s.take b (.event (.text text depth))).1.stopPath = none := by
  obtain ⟨_, _, _, heard⟩ := s.hear_counting text
  rw [(akin_take_text h b text depth).1.stopPath_eq, heard s.tally s.pulled]
  exact hgoing

/-- Behind a text the rest of the feed is taken. -/
theorem run_text (h : s.Measures R) (hgoing : s.stopPath = none) (b : Behavior H σ) (text : String)
    (depth : Nat) (rest : Feed) :
    s.run b (.item (.event (.text text depth)) rest) =
      (s.take b (.event (.text text depth))).1.run b rest := by
  have hfault := (akin_take_text h b text depth).2
  have hgoes := going_take_text h hgoing b text depth
  rw [Session.run]
  generalize s.take b (.event (.text text depth)) = taken at hfault hgoes ⊢
  obtain ⟨s', fault⟩ := taken
  cases hfault
  have hgoes : s'.stopped = false := by
    rw [Session.stopped, hgoes]
    rfl
  dsimp only
  rw [hgoes]
  rfl

/-- A text joined to what the feed begins with leads to what both lead to. -/
theorem run_lead (h : s.Measures R) (hgoing : s.stopPath = none) (b : Behavior H σ)
    (text : String) (depth : Nat) (rest : Feed) :
    ((s.take b (.event (.text text depth))).1.run b rest).1.Akin R
        (s.run b (Feed.lead (.event (.text text depth)) rest)).1 ∧
      (s.run b (Feed.lead (.event (.text text depth)) rest)).2 =
        ((s.take b (.event (.text text depth))).1.run b rest).2 := by
  have htaken := (akin_take_text h b text depth).1
  simp only [Feed.lead]
  by_cases hempty : text = ""
  · rw [if_pos hempty]
    subst hempty
    exact akin_run rest ((akin_hear_empty h).trans htaken).symm b
  · rw [if_neg hempty]
    split
    next text' depth' rest =>
      -- both texts are taken on the one side, and their join on the other
      have hgoing' := going_take_text h hgoing b text depth
      have htaken' : (s.take b (.event (.text text depth))).1.Measures R := htaken.symm.measures
      rw [run_text h hgoing, run_text htaken' hgoing']
      refine akin_run rest ?_ b
      have hsecond := (akin_take htaken b (.event (.text text' depth'))).1
      have hheard := (akin_take_text (h.hear text) b text' depth').1
      have hboth := (akin_take_text h b (text ++ text') 0).1
      exact ((hheard.trans hsecond).symm.trans (akin_hear_append h text text')).trans hboth
    · rw [run_text h hgoing]
      exact akin_run rest (.refl htaken.symm.measures) b

/-- **Joining texts changes nothing.** -/
theorem run_joined (feed : Feed) (h : s.Measures R) (hgoing : s.stopPath = none)
    (b : Behavior H σ) :
    (s.run b feed).1.Akin R (s.run b feed.joined).1 ∧
      (s.run b feed.joined).2 = (s.run b feed).2 := by
  induction feed generalizing s with
  | done => exact ⟨.refl h, rfl⟩
  | fault fault => exact akin_run (.fault fault) (.refl h) b
  | read chunk rest ih => exact ih h hgoing
  | note r rest ih =>
      have hlog : (s.log r).Akin R s := ((Gauged.refl h).log_right r).symm.akin
      obtain ⟨hrest, hfault⟩ := ih hlog.measures hgoing
      obtain ⟨hjoined, hfault'⟩ := akin_run rest.joined hlog b
      exact ⟨hrest.trans hjoined, hfault'.trans hfault⟩
  | item i rest ih =>
      by_cases htext : ∃ text depth, i = .event (.text text depth)
      · obtain ⟨text, depth, rfl⟩ := htext
        have htaken := (akin_take_text h b text depth).1
        obtain ⟨hrest, hfault⟩ :=
          ih htaken.symm.measures (going_take_text h hgoing b text depth)
        obtain ⟨hlead, hfault'⟩ := run_lead h hgoing b text depth rest.joined
        rw [run_text h hgoing]
        exact ⟨hrest.trans hlead, hfault'.trans hfault⟩
      · have hjoined : (Feed.item i rest).joined = .item i rest.joined := by
          rw [Feed.joined]
          unfold Feed.lead
          split
          next text depth => exact absurd ⟨text, depth, rfl⟩ htext
          · rfl
        obtain ⟨hself, -⟩ := akin_take (.refl h) b i
        rw [hjoined]
        unfold Session.run
        generalize s.take b i = taken at hself ⊢
        obtain ⟨s', fault⟩ := taken
        cases fault with
        | some fault => exact ⟨hself, rfl⟩
        | none =>
            dsimp only at hself ⊢
            split
            · exact ⟨hself, rfl⟩
            next hgoes => exact ih hself.measures (by simpa [stopped] using hgoes)

end Session

/-! ### Drives -/

namespace Dispatcher

variable {R : Int → Prop} {b : Behavior H σ}

/-- The dispatcher when it reads so much at a time. -/
def reading (d : Dispatcher H) (chunkSize : Value) : Dispatcher H :=
  { d with settings := { d.settings with chunkSize } }

/-- Sessions begin alike, whatever the source and the machine, however much is read at a time. -/
theorem gauged_session (d : Dispatcher H) (chunkSize : Value) (around : Surroundings)
    (source source' : Source) (world : σ) {meter : Nat → Int} (elapsed : Double)
    (hmeter : ∀ n, R (around.meter n)) (hmeter' : ∀ n, R (meter n)) :
    (d.session around source world).Gauged R
      ((d.reading chunkSize).session { around with meter, elapsed } source' world) := by
  have hread : ∀ {meter : Nat → Int}, (∀ n, R (meter n)) → (Monitor.sample
      { interval := d.settings.sampleInterval, meter } "start").Reads R := by
    intro meter hmeter
    refine ⟨List.cons_ne_nil _ _, fun x hx => ?_, hmeter⟩
    obtain rfl := List.mem_singleton.mp hx
    exact hmeter 0
  unfold Dispatcher.session Dispatcher.reading
  dsimp only
  cases d.settings.trackMemory.isTruthy with
  | false => exact ⟨_, _, none, _, rfl, rfl, nofun, nofun⟩
  | true =>
      refine ⟨_, _, some _, _, rfl, rfl, fun m hm => ?_, fun m hm => ?_⟩
      · obtain rfl := Option.some.inj hm
        exact hread hmeter
      · obtain rfl := Option.some.inj hm
        exact hread hmeter'

/-- Sessions that are alike end alike with feeds that are the same with their texts joined. -/
theorem akin_runSession {s s' : Session H σ} (h : s.Akin R s') (hgoing : s.stopPath = none)
    {feed feed' : Feed} (hjoined : feed.joined = feed'.joined) (b : Behavior H σ) :
    (runSession b s feed).1.Akin R (runSession b s' feed').1 ∧
      (runSession b s' feed').2 = (runSession b s feed).2 := by
  obtain ⟨hone, hfault⟩ := Session.run_joined feed h.measures hgoing b
  obtain ⟨hother, hfault'⟩ :=
    Session.run_joined feed' h.symm.measures (h.stopPath_eq.trans hgoing) b
  obtain ⟨hboth, hsame⟩ := Session.akin_run feed.joined h b
  rw [← hjoined] at hother hfault'
  have hrun : (s.run b feed).1.Akin R (s'.run b feed').1 := (hone.trans hboth).trans hother.symm
  have hend : (s'.run b feed').2 = (s.run b feed).2 := by rw [← hfault', hsame, hfault]
  obtain ⟨hconclude, hlast⟩ := hrun.conclude (s.run b feed).2
  unfold runSession
  dsimp only
  rw [hend]
  exact ⟨((hconclude.sample_right "end").symm.sample_right "end").symm, hlast⟩

/-- Drives are alike if the feeds of their sources are the same once texts are joined, however much
is read at a time and whatever the dispatchers drove before. -/
theorem alike_drive {d d' : Dispatcher H} (hidle : d.driving = false) (hidle' : d'.driving = false)
    (hsame : d'.engaged = d.engaged.reading d'.settings.chunkSize) {t t' : Markup.Tokenizer}
    {around : Surroundings} {source source' : Source} {feed feed' : Feed}
    {closable closable' : Bool}
    (hopen : d.openSource t (d.identity around) source = .ok (feed, closable))
    (hopen' : d'.openSource t' (d'.identity around) source' = .ok (feed', closable'))
    (hjoined : feed.joined = feed'.joined) {memory : Value → Value}
    (hmemory : ∀ x y, R x → R y → memory (.int x) = memory (.int y)) {meter : Nat → Int}
    (hmeter : ∀ n, R (around.meter n)) (hmeter' : ∀ n, R (meter n)) (b : Behavior H σ)
    (elapsed : Double) (world : σ) :
    let one := d.drive b t around source world
    let other := d'.drive b t' { around with meter, elapsed } source' world
    (∃ ledger, one.2 = { d with ledger } ∧ other.2 = { d' with ledger }) ∧
      one.1.Alike memory other.1 := by
  obtain ⟨hgoing, -⟩ := d.session_fresh around source world
  obtain ⟨hended, hfault⟩ := akin_runSession (d.engaged.gauged_session d'.settings.chunkSize around
    source source' world elapsed hmeter hmeter').akin hgoing hjoined b
  have hother : d'.openSource t' (d'.identity { around with meter, elapsed }) source' =
      .ok (feed', closable') := hopen'
  intro one other
  unfold one other
  rw [drive_opened hidle hopen, drive_opened hidle' hother]
  rw [hsame]
  dsimp only
  rw [hfault, hended.ledger_eq]
  exact ⟨⟨_, rfl, rfl⟩, hended.alike_outcome hmemory _ _ _ _ _⟩

/-- **Into which pieces texts are cut is not seen** (`add_text` and `flush_text`). Drives of feeds
that are the same once adjacent texts are joined and empty ones are left out make the same calls,
end in the same way and leave the same dispatcher, with reports that differ at most in the count of
events, the time and the amounts of resident memory; where that is constant, not in those either. -/
theorem drive_joins (d : Dispatcher H) (b : Behavior H σ) (t t' : Markup.Tokenizer)
    (around : Surroundings) (meter : Nat → Int) (elapsed : Double) (typeName typeName' : String)
    (feed feed' : Feed) (closable closable' : Bool) (world : σ)
    (hjoined : feed.joined = feed'.joined) :
    let one := d.drive b t around (.items typeName feed closable) world
    let other :=
      d.drive b t' { around with meter, elapsed } (.items typeName' feed' closable') world
    other.2 = one.2 ∧ one.1.Alike Value.sampled other.1 ∧
      ((∃ bytes, (∀ n, around.meter n = bytes) ∧ ∀ n, meter n = bytes) →
        one.1.Alike id other.1) := by
  intro one other
  have halike : ∀ (R : Int → Prop) (memory : Value → Value),
      (∀ x y, R x → R y → memory (.int x) = memory (.int y)) →
      (∀ n, R (around.meter n)) → (∀ n, R (meter n)) →
      other.2 = one.2 ∧ one.1.Alike memory other.1 := by
    intro R memory hmemory hmeter hmeter'
    cases hdriving : d.driving with
    | true =>
        -- both drives are refused
        have hrefused : ∀ t around source, d.drive b t around source world =
            ({ result := .error (.reentrant .drive), world }, d) := by
          intro t around source
          rw [Dispatcher.drive, refusal_driving hdriving]
        unfold one other
        rw [hrefused, hrefused]
        exact ⟨rfl, rfl, rfl, rfl⟩
    | false =>
        have hopen : d.openSource t (d.identity around) (.items typeName feed closable) =
            .ok (feed, closable) := rfl
        have hopen' : d.openSource t' (d.identity around) (.items typeName' feed' closable') =
            .ok (feed', closable') := rfl
        obtain ⟨⟨ledger, hone, hother⟩, halike⟩ := alike_drive hdriving hdriving rfl hopen hopen'
          hjoined hmemory hmeter hmeter' b elapsed world
        exact ⟨hother.trans hone.symm, halike⟩
  obtain ⟨hdispatcher, hsampled⟩ := halike (fun _ => True) Value.sampled (fun _ _ _ _ => rfl)
    (fun _ => trivial) (fun _ => trivial)
  refine ⟨hdispatcher, hsampled, ?_⟩
  rintro ⟨bytes, hmeter, hmeter'⟩
  refine (halike (· = bytes) id ?_ hmeter hmeter').2
  rintro x y rfl rfl
  rfl

/-- A dispatcher that calls a handler whenever an element is left, and samples memory at every
event. -/
def watching : Dispatcher Unit :=
  { attentive with settings := { trackMemory := .bool true, sampleInterval := .int 1 } }

/-- Handlers that keep the texts of the elements that are left. -/
def keeping : Behavior Unit (List String) := fun call texts =>
  match call.subject with
  | .opening _ => .finish texts
  | .closing n => .finish (n.text :: texts)

/-- A greeting in one piece. -/
def wholeGreeting : Feed :=
  .ofItems [.event (.opened "p" [] 1), .event (.text " good day" 1), .event (.closed "p" 1)]

/-- The greeting in several pieces, of which some are empty. -/
def cutGreeting : Feed :=
  .ofItems [.event (.text "" 0), .event (.opened "p" [] 1), .event (.text " good" 1),
    .event (.text " " 1), .event (.text "" 1), .event (.text "day" 1), .event (.closed "p" 1)]

/-- Where samples are taken at every event, there are more of them for the greeting in pieces. -/
theorem drive_joins_greeting :
    let whole := watching.drive keeping refusing calm (.items "list" wholeGreeting false) []
    let cut := watching.drive keeping refusing calm (.items "Stream" cutGreeting true) []
    wholeGreeting.joined = cutGreeting.joined ∧ cutGreeting.items.length = 7 ∧
      whole.1.Alike id cut.1 ∧ cut.1.world = [" good day"] ∧ cut.1.calls.length = 1 := by
  intro whole cut
  have hjoined : wholeGreeting.joined = cutGreeting.joined := rfl
  obtain ⟨-, -, hconstant⟩ := drive_joins watching keeping refusing refusing calm calm.meter
    calm.elapsed "list" "Stream" wholeGreeting cutGreeting false true [] hjoined
  have halike : whole.1.Alike id cut.1 := hconstant ⟨0, fun _ => rfl, fun _ => rfl⟩
  have hworld : whole.1.world = [" good day"] := rfl
  have hcalls : whole.1.calls.length = 1 := rfl
  exact ⟨hjoined, rfl, halike, halike.world.trans hworld,
    (congrArg List.length halike.calls).trans hcalls⟩

/-- Surroundings in which each sample finds a byte more than the one before. -/
def growing : Surroundings := { calm with meter := fun n => n }

/-- Amounts of resident memory do show how texts were cut: with a sample at every event
(`maybe_sample`) there are more samples where there are more events, and where the memory grows from
one to the next the last one finds more. -/
theorem not_alike_of_growing :
    let whole := watching.drive keeping refusing growing (.items "list" wholeGreeting false) []
    let cut := watching.drive keeping refusing growing (.items "list" cutGreeting false) []
    wholeGreeting.joined = cutGreeting.joined ∧
      whole.1.result.map (fun r => r.statistics.endMemory) = .ok (.int 4) ∧
      cut.1.result.map (fun r => r.statistics.endMemory) = .ok (.int 8) ∧
      ¬ whole.1.Alike id cut.1 := by
  intro whole cut
  have hwhole : whole.1.result.map (fun r => r.statistics.endMemory) = .ok (.int 4) := rfl
  have hcut : cut.1.result.map (fun r => r.statistics.endMemory) = .ok (.int 8) := rfl
  refine ⟨rfl, hwhole, hcut, fun halike => ?_⟩
  -- reports that are the same but for the count of events and the time end with the same amount
  have hreduced : ∀ o : Outcome Unit (List String),
      o.result.map (fun r => r.statistics.endMemory) =
        (o.result.map (Report.reduced id)).map fun r => r.statistics.endMemory := by
    intro o
    cases o.result <;> rfl
  rw [hreduced, ← halike.result, ← hreduced, hcut] at hwhole
  cases hwhole

end Dispatcher

end MarkupRouting
