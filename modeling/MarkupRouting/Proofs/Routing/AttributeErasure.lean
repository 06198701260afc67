import MarkupRouting.Proofs.Routing.Moments
import MarkupRouting.Proofs.Routing.Reading

/-!
# Drives seen without attributes

Handlers that leave the nodes they are given as they are may still set attributes, fail or ask for a
stop. As far as attributes are not looked at, they are called as handlers that do nothing are, up to
the first one that does not just return.

* **Node.bare**, **Frame.bare**, **Stack.bare**, **Visit.bare** — what is seen without attributes.
* **Behavior.KeepsNodes** — such handlers.
* **Session.Alike**, **Stage.Alike** — sessions that look the same then.
* **Session.alike_stage**, **alike_afterCalls** — an item has the same effect on them, before and
  after handlers are called.
* **Session.seen_invokeAll** — the calls of handlers that leave nodes as they are.
* **Session.run_alike** — a drive with such handlers, and one with handlers that do nothing.
-/

namespace MarkupRouting

variable {H σ : Type}

/-! ### Without attributes -/

/-- What is known of an element but its attributes. -/
def Tag.bare (tag : Tag) : Tag := { tag with attributes := [] }

mutual

/-- A content without the attributes of elements. -/
def Content.bare : Content → Content
  | .text s => .text s
  | .element tag contents => .element tag.bare (Content.bares contents)

/-- Several contents without the attributes of elements. -/
def Content.bares : List Content → List Content
  | [] => []
  | c :: rest => Content.bare c :: Content.bares rest

end

/-- Contents are looked at one by one. -/
theorem Content.bares_eq_map (cs : List Content) : bares cs = cs.map bare := by
  induction cs with
  | nil => rfl
  | cons c rest ih => rw [bares, ih, List.map_cons]

/-- A node without attributes, its own and those inside it. -/
def Node.bare (n : Node) : Node := ⟨n.tag.bare, Content.bares n.contents⟩

/-- It does not matter whether attributes are left out before a node becomes a content or after. -/
theorem Node.toContent_bare (n : Node) : n.bare.toContent = n.toContent.bare := by
  rw [toContent, toContent, Content.bare]
  rfl

/-- What a handler is given, without attributes. -/
def Subject.bare : Subject → Subject
  | .opening o => .opening { o with attributes := [] }
  | .closing n => .closing n.bare

/-- A call without the attributes in what the handler is given. Handlers that set attributes only
make the same calls as others as far as this shows. -/
def Visit.bare (v : Visit H) : Visit H := { v with subject := v.subject.bare }

namespace Frame

/-- A frame without attributes, those of the element and those in and inside its node. It does not
matter whether what is known of the node was made by handlers. -/
def bare (f : Frame H) : Frame H :=
  { f with
    attributes := []
    contents := f.contents.map Content.bares
    remade := some f.nodeTag.bare }

/-- A text at the end has no attributes to be left out. -/
theorem bares_withText (contents : List Content) (s : String) :
    Content.bares (withText contents s) = withText (Content.bares contents) s := by
  unfold withText
  split
  · rfl
  · rw [Content.bares, Content.bare]

/-- Texts are put in place whatever the attributes are. -/
theorem bare_flush (f : Frame H) (closing : Bool) :
    (f.flush closing).bare = f.bare.flush closing := by
  cases hcontents : f.contents with
  | none => simp only [flush, bare, hcontents, Option.map_none]
  | some contents =>
      have hempty : (Content.bares contents).isEmpty = contents.isEmpty := by
        rw [Content.bares_eq_map, List.isEmpty_map]
      simp only [flush, bare, hcontents, Option.map_some, hempty]
      split
      · simp only [hcontents, Option.map_some]
      · simp only [Option.map_some, bares_withText]
        rfl

/-- The frame of an element that is left is the same, whatever the attributes are. -/
theorem bare_complete {f g : Frame H} (h : f.bare = g.bare) :
    f.complete.bare = g.complete.bare := by
  have hcomplete : ∀ f : Frame H,
      f.complete.bare = { f.bare.flush true with remade := some f.tag.bare } := by
    intro f
    rw [← bare_flush]
    obtain ⟨contents, buffer, heq, -⟩ := f.flush_eq true
    rw [complete, heq]
    rfl
  have htag : ∀ f : Frame H, f.tag.bare = f.bare.tag := fun _ => rfl
  rw [hcomplete, hcomplete, htag, htag, h]

/-- Texts are held back whatever the attributes are. -/
theorem bare_addText (f : Frame H) (s : String) : (f.addText s).bare = f.bare.addText s := by
  unfold addText bare
  simp only [Option.isSome_map]
  split <;> rfl

/-- A frame begins its node without looking at the attributes; the ledger has no part in it. -/
theorem bare_start (f : Frame H) (l l' : Ledger) : (f.start l).1.bare = (f.bare.start l').1 := by
  unfold start
  have hbuilt : f.bare.materializing = f.materializing := rfl
  rw [hbuilt]
  split
  · rfl
  · rfl

/-- The call for the element of a frame, seen without attributes, is that of the frame without
them. -/
theorem bare_visit (f : Frame H) (phase : Phase) (handler : H) (r : Rule H) :
    (f.visit phase handler r).bare = f.bare.visit phase handler r := by
  cases phase with
  | opening => rfl
  | closing =>
      cases hcontents : f.contents with
      | none => simp [visit, subject, Visit.bare, Subject.bare, Node.bare, bare, hcontents,
          nodeTag, Content.bares]
      | some contents => simp [visit, subject, Visit.bare, Subject.bare, Node.bare, bare, hcontents,
          nodeTag, Content.bares_eq_map]

variable {f g : Frame H}

/-- Frames that look the same without attributes lead to the same calls, seen without them. -/
theorem bare_visits (h : f.bare = g.bare) (phase : Phase) (rules : List (Rule H)) :
    f.visits Visit.bare phase rules = g.visits Visit.bare phase rules := by
  simp only [visits, bare_visit, h]

/-- A frame that handlers only touched looks the same without attributes, if they left the node as
it is. -/
theorem Touched.bare_eq (h : f.Touched g) (hcontents : g.contents = f.contents)
    (htag : g.nodeTag.bare = f.nodeTag.bare) : g.bare = f.bare := by
  rw [bare, bare, hcontents, htag]
  obtain ⟨attributes, contents, remade, rfl, -⟩ := h
  rfl

/-- The node of a frame that is looked at without attributes is the node without them. -/
theorem node?_bare (f : Frame H) : f.bare.node? = f.node?.map Node.bare := by
  cases hcontents : f.contents with
  | none => simp [node?, bare, hcontents]
  | some contents => simp [node?, bare, hcontents, Node.bare, nodeTag, Content.bares_eq_map]

/-- A node is taken in whatever the attributes are. -/
theorem adopt_bare (f : Frame H) (n : Node) :
    f.bare.adopt n.bare = (f.adopt n).map Frame.bare := by
  unfold adopt
  cases hcontents : f.contents with
  | none =>
      have hnone : f.bare.contents = none := by rw [bare, hcontents]; rfl
      rw [hnone]
      rfl
  | some contents =>
      have hsome : f.bare.contents = some (Content.bares contents) := by rw [bare, hcontents]; rfl
      rw [hsome]
      dsimp only
      rw [Except.map, Node.toContent_bare]
      rfl

end Frame

/-! ### Stacks -/

namespace Stack

/-- A stack without attributes. -/
def bare (st : Stack H) : Stack H := { st with frames := st.frames.map Frame.bare }

/-- What a change of the top does, it does to a stack that is looked at without attributes. -/
theorem bare_mapTop (st : Stack H) {g : Frame H → Frame H} (hg : ∀ f, (g f).bare = g f.bare) :
    (st.mapTop g).bare = st.bare.mapTop g := by
  obtain ⟨frames, pending, counts⟩ := st
  cases frames with
  | nil => rfl
  | cons f rest => simp only [mapTop, bare, List.map_cons, hg]

/-- Pushing a frame does not look at attributes. -/
theorem bare_push (st : Stack H) (f : Frame H) : (st.push f).bare = st.bare.push f.bare := rfl

/-- Whether something that is no text is held back does not depend on attributes. -/
theorem isSpoiled_bare (st : Stack H) : st.bare.isSpoiled = st.isSpoiled := by
  obtain ⟨frames, pending, counts⟩ := st
  cases frames with
  | nil => rfl
  | cons f rest => rfl

/-- Whether all open elements have names that are texts does not depend on attributes. -/
theorem hasPath_bare (st : Stack H) : st.bare.hasPath = st.hasPath := by
  rw [hasPath, bare, List.all_map]
  rfl

/-- An element is entered whatever the attributes are. -/
theorem bare_enter (st : Stack H) (name : String) (attributes : Table Value) :
    (st.enter name attributes).1.bare = (st.bare.enter name attributes).1.bare ∧
      (st.enter name attributes).2.bare = (st.bare.enter name attributes).2 := by
  have hnames : st.bare.names = st.names := by
    rw [names, names, bare, List.map_map]
    rfl
  have hdepth : st.bare.depth = st.depth := List.length_map ..
  obtain ⟨frames, pending, counts⟩ := st
  unfold enter
  rw [hnames, hdepth]
  cases frames with
  | nil => exact ⟨rfl, rfl⟩
  | cons f rest => exact ⟨rfl, rfl⟩

/-- The innermost frame and the stack around it, without attributes. -/
theorem leave?_bare (st : Stack H) :
    st.bare.leave? = st.leave?.map fun top => (top.1.bare, top.2.bare) := by
  obtain ⟨frames, pending, counts⟩ := st
  cases frames with
  | nil => rfl
  | cons f rest => rfl

/-- What becomes of a node does not depend on attributes, nor on the books. -/
theorem settle_bare (st : Stack H) (f : Frame H) (l l' : Ledger) :
    (st.bare.settle f.bare l').map (fun r => (r.1, r.2.1)) =
      (st.settle f l).map fun r => (r.1, r.2.1.bare) := by
  unfold settle
  rw [Frame.node?_bare]
  cases f.node? with
  | none => rfl
  | some n =>
      obtain ⟨frames, pending, counts⟩ := st
      cases frames with
      | nil => rfl
      | cons parent rest =>
          have hbuilt : parent.bare.materializing = parent.materializing := rfl
          simp only [bare, List.map_cons, Option.map_some, hbuilt, Frame.adopt_bare]
          split
          · cases parent.adopt n with
            | error flaw => rfl
            | ok adopted => rfl
          · rfl

end Stack

/-! ### Sessions -/

/-- Whatever they are called with, handlers leave the nodes they are given as they are, but for
attributes. -/
def Behavior.KeepsNodes (b : Behavior H σ) : Prop :=
  ∀ (c : Call H) (w : σ) (t : Turn H),
    ((b c w).run t).1.frame.contents = t.frame.contents ∧
      ((b c w).run t).1.frame.nodeTag.bare = t.frame.nodeTag.bare

/-- Setting an attribute leaves the node as it is but for attributes. -/
theorem Turn.bare_setAttribute (t : Turn H) (name : String) (value : Value) :
    (t.setAttribute name value).frame.nodeTag.bare = t.frame.nodeTag.bare := by
  unfold Turn.setAttribute Frame.nodeTag
  cases t.frame.remade with
  | none => rfl
  | some tag => rfl

/-- The sessions look the same without attributes: what is known of open elements, and the calls
made. -/
structure Session.Alike (s s' : Session H σ) : Prop where
  /-- What is known of open elements. -/
  stack_eq : s.stack.bare = s'.stack.bare
  /-- The calls made. -/
  seen_eq : s.seen Visit.bare = s'.seen Visit.bare

/-- What an item leads to looks the same without attributes. -/
inductive Stage.Alike : Stage H σ → Stage H σ → Prop where
  /-- No handler is to be called. -/
  | settled {s s' : Session H σ} (h : s.Alike s') (fault : Option Fault) :
      Alike (.settled s fault) (.settled s' fault)
  /-- The handlers of the same rules are to be called. -/
  | calling {s s' : Session H σ} {f g : Frame H} (h : s.Alike s') (hf : f.bare = g.bare)
      (phase : Phase) (rules : List (Rule H)) :
      Alike (.calling phase rules s f) (.calling phase rules s' g)

namespace Session

variable {b q : Behavior H σ} {s s' : Session H σ} {f g : Frame H}

/-- An element begins the same, whatever the attributes are. -/
theorem Alike.entering (h : s.Alike s') (name : String) (attributes : Table Value) :
    (s.entering name attributes).1.Alike (s'.entering name attributes).1 ∧
      (s.entering name attributes).2.bare = (s'.entering name attributes).2.bare := by
  have hflushed : (s.stack.mapTop (·.flush false)).bare =
      (s'.stack.mapTop (·.flush false)).bare := by
    rw [Stack.bare_mapTop _ (Frame.bare_flush · false),
      Stack.bare_mapTop _ (Frame.bare_flush · false), h.stack_eq]
  obtain ⟨hframe, haround⟩ := (s.stack.mapTop (·.flush false)).bare_enter name attributes
  obtain ⟨hframe', haround'⟩ := (s'.stack.mapTop (·.flush false)).bare_enter name attributes
  rw [hflushed, ← hframe'] at hframe
  rw [hflushed, ← haround'] at haround
  refine ⟨⟨haround, h.seen_eq⟩, ?_⟩
  unfold Session.entering
  dsimp only
  rw [Frame.bare_start _ _ s.ledger, Frame.bare_start _ s'.ledger s.ledger, hframe]

/-- The innermost element is the same, whatever the attributes are, if there is one. -/
theorem Alike.leave? (h : s.Alike s') :
    s.stack.leave? = none ∧ s'.stack.leave? = none ∨
      ∃ f around f' around', s.stack.leave? = some (f, around) ∧
        s'.stack.leave? = some (f', around') ∧ f.bare = f'.bare ∧ around.bare = around'.bare := by
  have hleave := congrArg Stack.leave? h.stack_eq
  rw [Stack.leave?_bare, Stack.leave?_bare] at hleave
  cases htop : s.stack.leave? with
  | none =>
      rw [htop, Option.map_none, eq_comm, Option.map_eq_none_iff] at hleave
      exact .inl ⟨rfl, hleave⟩
  | some top =>
      rw [htop, Option.map_some, eq_comm, Option.map_eq_some_iff] at hleave
      obtain ⟨top', htop', hsame⟩ := hleave
      obtain ⟨hframe, haround⟩ := Prod.mk.inj hsame
      exact .inr ⟨top.1, top.2, top'.1, top'.2, rfl, htop', hframe.symm, haround.symm⟩

/-- The beginning of an element leads to the same, whatever the attributes are. -/
theorem Alike.stage_opened (h : s.Alike s') (name : String) (attributes : Table Value)
    (depth : Nat) :
    (s.stage (.event (.opened name attributes depth))).Alike
      (s'.stage (.event (.opened name attributes depth))) := by
  obtain ⟨hentered, hframe⟩ := h.entering name attributes
  have hspoiled : s'.stack.isSpoiled = s.stack.isSpoiled := by
    rw [← Stack.isSpoiled_bare, ← h.stack_eq, Stack.isSpoiled_bare]
  have hpaths : s'.stack.hasPath = s.stack.hasPath := by
    rw [← Stack.hasPath_bare, ← h.stack_eq, Stack.hasPath_bare]
  have hrules : (s'.entering name attributes).2.openRules =
      (s.entering name attributes).2.openRules :=
    (congrArg Frame.openRules hframe.symm :)
  have hpath : (s'.entering name attributes).2.path = (s.entering name attributes).2.path :=
    (congrArg Frame.path hframe.symm :)
  unfold stage
  dsimp only
  rw [hspoiled, hpaths, hrules, hpath]
  split
  · exact .settled h _
  · split
    · exact .settled h _
    · exact .calling hentered hframe _ _

/-- So does text. -/
theorem Alike.hear (h : s.Alike s') (text : String) : (s.hear text).Alike (s'.hear text) := by
  obtain ⟨hstack, -, hseen⟩ := hear_eq Visit.bare s text
  obtain ⟨hstack', -, hseen'⟩ := hear_eq Visit.bare s' text
  constructor
  · rw [hstack, hstack', Stack.bare_mapTop _ (Frame.bare_addText · text),
      Stack.bare_mapTop _ (Frame.bare_addText · text), h.stack_eq]
  · rw [hseen, hseen', h.seen_eq]

/-- So does the end of an element. -/
theorem Alike.stage_closed (h : s.Alike s') (name : String) (depth : Nat) :
    (s.stage (.event (.closed name depth))).Alike
      (s'.stage (.event (.closed name depth))) := by
  unfold stage
  rcases h.leave? with ⟨hnone, hnone'⟩ | ⟨f, around, f', around', hsome, hsome', hframe, haround⟩
  · rw [hnone, hnone']
    exact .settled h _
  · have hleft : ({ s with stack := around, tally := s.tally.left } : Session H σ).Alike
        { s' with stack := around', tally := s'.tally.left } := ⟨haround, h.seen_eq⟩
    have hspoiled : f'.spoiled = f.spoiled := (congrArg Frame.spoiled hframe.symm :)
    have hcomplete := Frame.bare_complete hframe
    have hrules : f'.complete.closeRules = f.complete.closeRules :=
      (congrArg Frame.closeRules hcomplete.symm :)
    have hbuilt : f'.complete.contents.isSome = f.complete.contents.isSome := by
      have hcontents : f'.complete.contents.map Content.bares =
          f.complete.contents.map Content.bares :=
        (congrArg Frame.contents hcomplete.symm :)
      rw [← Option.isSome_map, hcontents, Option.isSome_map]
    rw [hsome, hsome']
    dsimp only
    rw [hspoiled, hbuilt, hrules]
    split
    · exact .settled hleft _
    · exact .calling hleft hcomplete _ _

/-- An event leads to the same, whatever the attributes are. -/
theorem alike_stage (h : s.Alike s') (e : Event) :
    (s.stage (.event e)).Alike (s'.stage (.event e)) := by
  cases e with
  | opened name attributes depth => exact h.stage_opened name attributes depth
  | text text depth => exact .settled (h.hear text) none
  | closed name depth => exact h.stage_closed name depth

/-- Whatever a handler does, it is called once. -/
theorem seen_invoke {α : Type} (s : Session H σ) (b : Behavior H σ) (view : Visit H → α)
    (phase : Phase) (handler : H) (r : Rule H) (f : Frame H) :
    (s.invoke b phase handler r f).1.seen view = view (f.visit phase handler r) :: s.seen view := by
  have hcalls : (s.invoke b phase handler r f).1.calls =
      s.call phase handler r (s.turn phase f) :: s.calls := by
    unfold invoke
    dsimp only
    split
    · rfl
    · split
      · rfl
      · rfl
  rw [seen, hcalls, List.map_cons, visit_call]
  rfl

/-- The handlers of several rules are called as the frame says, up to one that does not just
return. -/
theorem seen_invokeAll (hb : b.KeepsNodes) (phase : Phase) (rules : List (Rule H))
    (s : Session H σ) (f : Frame H) :
    (invokeAll b phase rules s f).2.1.bare = f.bare ∧
      ∃ made, made <+: f.visits Visit.bare phase rules ∧
        (invokeAll b phase rules s f).1.seen Visit.bare = made.reverse ++ s.seen Visit.bare ∧
        ((invokeAll b phase rules s f).2.2 = none →
          (invokeAll b phase rules s f).1.stopPath = none →
          made = f.visits Visit.bare phase rules) := by
  induction rules generalizing s f with
  | nil => exact ⟨rfl, [], List.nil_prefix, rfl, fun _ _ => rfl⟩
  | cons r rest ih =>
      unfold invokeAll
      cases hr : handlerOf phase r with
      | none =>
          have hvisits : f.visits Visit.bare phase (r :: rest) = f.visits Visit.bare phase rest :=
            List.filterMap_cons_none (by rw [hr]; rfl)
          rw [hvisits]
          exact ih s f
      | some handler =>
          have hvisits : f.visits Visit.bare phase (r :: rest) =
              (f.visit phase handler r).bare :: f.visits Visit.bare phase rest :=
            List.filterMap_cons_some (by rw [hr]; rfl)
          have hsame : (s.invoke b phase handler r f).2.1.bare = f.bare := by
            have htouched := s.touched_invoke b phase handler r f
            rw [frame_invoke] at htouched ⊢
            obtain ⟨hcontents, htag⟩ := hb _ _ (s.turn phase f)
            exact htouched.bare_eq hcontents htag
          have hseen := s.seen_invoke b Visit.bare phase handler r f
          rw [hvisits]
          dsimp only
          split
          next hends =>
            refine ⟨hsame, [(f.visit phase handler r).bare], ?_, hseen, fun hfault hgoing => ?_⟩
            · exact ⟨_, rfl⟩
            · rw [hfault, stopped, hgoing] at hends
              cases hends
          next =>
            obtain ⟨hrest, made, hprefix, hseen', hall⟩ :=
              ih (s.invoke b phase handler r f).1 (s.invoke b phase handler r f).2.1
            rw [Frame.bare_visits hsame] at hprefix hall
            refine ⟨hrest.trans hsame, (f.visit phase handler r).bare :: made, ?_, ?_,
              fun hfault hgoing => ?_⟩
            · exact List.cons_prefix_cons.mpr ⟨rfl, hprefix⟩
            · rw [hseen', hseen, List.reverse_cons, List.append_assoc, List.singleton_append]
            · rw [hall hfault hgoing]

/-- Behind the calls an item has the same effect, whatever the attributes are. -/
theorem alike_afterCalls (h : s.Alike s') (hf : f.bare = g.bare) (phase : Phase) :
    (afterCalls phase (s, f, none)).2 = (afterCalls phase (s', g, none)).2 ∧
      (afterCalls phase (s, f, none)).1.Alike (afterCalls phase (s', g, none)).1 := by
  cases phase with
  | opening =>
      refine ⟨rfl, ?_, h.seen_eq⟩
      rw [afterCalls, afterCalls, Stack.bare_push, Stack.bare_push, h.stack_eq, hf]
  | closing =>
      have hsettle := s.stack.settle_bare f s.ledger s'.ledger
      rw [h.stack_eq, hf, s'.stack.settle_bare g s'.ledger s'.ledger] at hsettle
      unfold afterCalls
      dsimp only
      generalize s.stack.settle f s.ledger = r at hsettle
      generalize s'.stack.settle g s'.ledger = r' at hsettle
      cases r with
      | error flaw =>
          cases r' with
          | error flaw' =>
              cases hsettle
              exact ⟨rfl, h⟩
          | ok _ => cases hsettle
      | ok settled =>
          cases r' with
          | error flaw' => cases hsettle
          | ok settled' =>
              have hst : settled.2.1.bare = settled'.2.1.bare :=
                (Prod.mk.inj (Except.ok.inj hsettle)).2.symm
              exact ⟨rfl, hst, h.seen_eq⟩

/-- The calls that a session has made stay made behind a handler. -/
theorem seen_afterCalls {α : Type} (view : Visit H → α) (phase : Phase)
    (called : Session H σ × Frame H × Option Fault) :
    (afterCalls phase called).1.seen view = called.1.seen view := by
  obtain ⟨_, _, _, hafter⟩ := afterCalls_eq phase called
  rw [hafter]
  rfl

/-- With handlers that leave nodes as they are, and with handlers that do nothing at all, an item
leads to calls that look the same, up to a handler that does not just return. -/
theorem complete_alike (hb : b.KeepsNodes) (hq : q.Returns) (hleaves : q.LeavesElements)
    {stage stage' : Stage H σ} (h : stage.Alike stage') (hgoing : stage'.session.stopPath = none) :
    (stage.complete b).1.seen Visit.bare <:+ (stage'.complete q).1.seen Visit.bare ∧
      ((stage.complete b).2 = none → (stage.complete b).1.stopPath = none →
        (stage.complete b).1.Alike (stage'.complete q).1 ∧ (stage'.complete q).2 = none ∧
          (stage'.complete q).1.stopPath = none) := by
  cases h with
  | settled h fault =>
      exact ⟨by rw [Stage.complete, Stage.complete, h.seen_eq],
        fun hfault _ => ⟨h, hfault, hgoing⟩⟩
  | @calling s s' f g h hf phase rules =>
      obtain ⟨hframe, made, hprefix, hseen, hall⟩ := seen_invokeAll hb phase rules s f
      obtain ⟨hfault', hgoing', hsame, hseen'⟩ :=
        invokeAll_returns hq (.inl hleaves : Visit.Fair q Visit.bare) phase rules s' g hgoing
      rw [Frame.bare_visits hf] at hprefix hall
      simp only [Stage.complete, seen_afterCalls]
      refine ⟨?_, fun hfault hgoes => ?_⟩
      · obtain ⟨more, hmore⟩ := hprefix
        rw [hseen, hseen', ← hmore, h.seen_eq, List.reverse_append, List.append_assoc]
        exact List.suffix_append _ _
      · obtain ⟨_, _, _, hafter⟩ := afterCalls_eq phase (invokeAll b phase rules s f)
        obtain ⟨_, _, _, hafter'⟩ := afterCalls_eq phase (invokeAll q phase rules s' g)
        have hnone : (invokeAll b phase rules s f).2.2 = none := by
          by_contra hsome
          obtain ⟨fault, hfault'⟩ := Option.ne_none_iff_exists'.mp hsome
          rw [afterCalls_fault phase _ hfault'] at hfault
          cases hfault
        rw [hafter] at hgoes
        have hmade := hall hnone hgoes
        have halike : (invokeAll b phase rules s f).1.Alike (invokeAll q phase rules s' g).1 := by
          refine ⟨?_, ?_⟩
          · rw [(invokeAll_beside b phase rules s f).stack_eq,
              (invokeAll_beside q phase rules s' g).stack_eq, h.stack_eq]
          · rw [hseen, hseen', hmade, h.seen_eq]
        have hframes : (invokeAll b phase rules s f).2.1.bare =
            (invokeAll q phase rules s' g).2.1.bare := by
          rw [hframe, hsame hleaves, hf]
        obtain ⟨hend, hafterAlike⟩ := alike_afterCalls halike hframes phase
        have hresult : invokeAll b phase rules s f =
            ((invokeAll b phase rules s f).1, (invokeAll b phase rules s f).2.1, none) :=
          Prod.ext rfl (Prod.ext rfl hnone)
        have hresult' : invokeAll q phase rules s' g =
            ((invokeAll q phase rules s' g).1, (invokeAll q phase rules s' g).2.1, none) :=
          Prod.ext rfl (Prod.ext rfl hfault')
        rw [← hresult, ← hresult'] at hend hafterAlike
        refine ⟨hafterAlike, hend.symm.trans hfault, ?_⟩
        rw [hafter']
        exact hgoing'

/-- An item is taken in three parts and a sample, which changes nothing that is looked at here. -/
theorem take_seen {α : Type} (b : Behavior H σ) (view : Visit H → α) (s : Session H σ) (i : Item) :
    (s.take b i).2 = ((s.counted.stage i).complete b).2 ∧
      (s.take b i).1.stack = ((s.counted.stage i).complete b).1.stack ∧
      (s.take b i).1.stopPath = ((s.counted.stage i).complete b).1.stopPath ∧
      (s.take b i).1.seen view = ((s.counted.stage i).complete b).1.seen view := by
  obtain ⟨_, _, htake⟩ := s.take_complete b i
  refine ⟨?_, by rw [htake], by rw [htake], by rw [htake]; rfl⟩
  rw [take_eq]
  split
  next heq => rw [heq]
  next heq => rw [heq]

/-- An event is taken with the same calls, up to a handler that does not just return. -/
theorem take_alike (hb : b.KeepsNodes) (hq : q.Returns) (hleaves : q.LeavesElements)
    (h : s.Alike s') (hgoing : s'.stopPath = none) (e : Event) :
    (s.take b (.event e)).1.seen Visit.bare <:+ (s'.take q (.event e)).1.seen Visit.bare ∧
      ((s.take b (.event e)).2 = none → (s.take b (.event e)).1.stopPath = none →
        (s.take b (.event e)).1.Alike (s'.take q (.event e)).1 ∧
          (s'.take q (.event e)).2 = none ∧ (s'.take q (.event e)).1.stopPath = none) := by
  have hcounted : s.counted.Alike s'.counted := ⟨h.stack_eq, h.seen_eq⟩
  obtain ⟨hsuffix, hgoes⟩ := complete_alike hb hq hleaves (alike_stage hcounted e)
    ((s'.stage_stopPath (.event e)).trans hgoing)
  obtain ⟨hfault, hstack, hstop, hseen⟩ := take_seen b Visit.bare s (.event e)
  obtain ⟨hfault', hstack', hstop', hseen'⟩ := take_seen q Visit.bare s' (.event e)
  rw [hseen, hseen', hfault, hfault', hstop, hstop']
  refine ⟨hsuffix, fun hnone hstopped => ?_⟩
  obtain ⟨halike, hnone', hstopped'⟩ := hgoes hnone hstopped
  exact ⟨⟨by rw [hstack, hstack', halike.stack_eq], by rw [hseen, hseen', halike.seen_eq]⟩, hnone',
    hstopped'⟩

/-- The calls that a session has made stay made. -/
theorem seen_run {α : Type} (b : Behavior H σ) (view : Visit H → α) (s : Session H σ)
    (feed : Feed) : s.seen view <:+ (s.run b feed).1.seen view := by
  rw [seen, seen, calls_run, List.map_append]
  exact List.suffix_append _ _

/-- Where nothing ends the drive with an item, it goes on with the next one. -/
theorem run_item_goes {i : Item} (hfault : (s.take b i).2 = none)
    (hgoing : (s.take b i).1.stopPath = none) (rest : Feed) :
    s.run b (.item i rest) = (s.take b i).1.run b rest := by
  have hgoes : (s.take b i).1.stopped = false := by rw [stopped, hgoing]; rfl
  conv_lhs => unfold run
  generalize s.take b i = taken at hfault hgoes ⊢
  obtain ⟨s', fault⟩ := taken
  cases hfault
  dsimp only at hgoes ⊢
  rw [hgoes]
  rfl

/-- Else it ends with that item. -/
theorem run_item_ends {i : Item}
    (h : ¬ ((s.take b i).2 = none ∧ (s.take b i).1.stopPath = none)) (rest : Feed) :
    s.run b (.item i rest) = s.take b i := by
  unfold run
  generalize s.take b i = taken at h ⊢
  obtain ⟨s', fault⟩ := taken
  cases fault with
  | some fault => rfl
  | none =>
      have hstopped : s'.stopped = true := by
        cases hpath : s'.stopPath with
        | none => exact absurd ⟨rfl, hpath⟩ h
        | some path => rw [stopped, hpath]; rfl
      dsimp only
      rw [hstopped]
      rfl

/-- The calls made while an item is taken stay made. -/
theorem seen_take_run {α : Type} (b : Behavior H σ) (view : Visit H → α) (s : Session H σ)
    (i : Item) (rest : Feed) :
    (s.take b i).1.seen view <:+ (s.run b (.item i rest)).1.seen view := by
  by_cases h : (s.take b i).2 = none ∧ (s.take b i).1.stopPath = none
  · rw [run_item_goes h.1 h.2]
    exact seen_run b view _ rest
  · rw [run_item_ends h]

/-- **Handlers that leave nodes as they are are called as handlers that do nothing are**, as far as
attributes are not looked at, up to the first one that does not just return. -/
theorem run_alike (hb : b.KeepsNodes) (hq : q.Returns) (hleaves : q.LeavesElements)
    (h : s.Alike s') (hgoing : s.stopPath = none) (hgoing' : s'.stopPath = none)
    (events : List Event) :
    (s.run b (.afterEvents events .done)).1.seen Visit.bare <:+
        (s'.run q (.afterEvents events .done)).1.seen Visit.bare ∧
      ((s.run b (.afterEvents events .done)).2 = none →
        (s.run b (.afterEvents events .done)).1.stopPath = none →
          (s.run b (.afterEvents events .done)).1.Alike (s'.run q (.afterEvents events .done)).1 ∧
            (s'.run q (.afterEvents events .done)).2 = none ∧
            (s'.run q (.afterEvents events .done)).1.stopPath = none) := by
  induction events generalizing s s' with
  | nil =>
      refine ⟨?_, fun _ _ => ⟨h, rfl, hgoing'⟩⟩
      have hsame : (s.run b (.afterEvents [] .done)).1.seen Visit.bare =
          (s'.run q (.afterEvents [] .done)).1.seen Visit.bare := h.seen_eq
      rw [hsame]
  | cons e rest ih =>
      obtain ⟨hsuffix, hgoes⟩ := take_alike hb hq hleaves h hgoing' e
      have hcons : Feed.afterEvents (e :: rest) .done =
          .item (.event e) (.afterEvents rest .done) := rfl
      rw [hcons]
      by_cases hends : (s.take b (.event e)).2 = none ∧ (s.take b (.event e)).1.stopPath = none
      · obtain ⟨halike, hfault', hstop'⟩ := hgoes hends.1 hends.2
        rw [run_item_goes hends.1 hends.2, run_item_goes hfault' hstop']
        exact ih halike hends.2 hstop'
      · rw [run_item_ends hends]
        exact ⟨hsuffix.trans (seen_take_run q Visit.bare s' _ _),
          fun hfault hstop => absurd ⟨hfault, hstop⟩ hends⟩

/-- Events are read one part after the other, where the first part does not end the drive. -/
theorem run_afterEvents (b : Behavior H σ) (front : List Event) (feed : Feed) (s : Session H σ)
    (hgoing : s.stopPath = none) :
    s.run b (.afterEvents front feed) =
      if (s.run b (.afterEvents front .done)).2 = none ∧
          (s.run b (.afterEvents front .done)).1.stopPath = none then
        (s.run b (.afterEvents front .done)).1.run b feed
      else s.run b (.afterEvents front .done) := by
  induction front generalizing s with
  | nil => exact (if_pos ⟨rfl, hgoing⟩).symm
  | cons e rest ih =>
      have hcons : ∀ feed, Feed.afterEvents (e :: rest) feed =
          .item (.event e) (.afterEvents rest feed) := fun _ => rfl
      rw [hcons, hcons]
      by_cases hends : (s.take b (.event e)).2 = none ∧ (s.take b (.event e)).1.stopPath = none
      · rw [run_item_goes hends.1 hends.2, run_item_goes hends.1 hends.2]
        exact ih _ hends.2
      · rw [run_item_ends hends, run_item_ends hends, if_neg hends]

end Session

end MarkupRouting
