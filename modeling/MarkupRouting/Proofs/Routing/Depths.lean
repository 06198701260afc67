import MarkupRouting.Proofs.Routing.Endings
import MarkupRouting.Proofs.Routing.Nesting
import MarkupRouting.Proofs.Routing.Reading

/-!
# Depths of nodes

A node tells its depth from its path, in which it counts the separators. Every name in the path
brings one with it, and whatever separators are in the names themselves are counted as well: a
prefix that is the address of a namespace is full of them.

* **separators**, **count_pathOf** — the separators in names, and in a path.
* **Node.Placed** — a node has the path of where it stands, and so has what the drive put into it;
  **Node.Inside** — a node stands inside another one, where the drive put it.
* **Behavior.KeepsPlaces** — handlers that leave the names and paths of nodes as they are.
* **Action.contents_run** — what a handler finds in a node and does not put there was there before.
* **Stack.lasting_filled** — throughout a drive all nodes are placed.
* **Dispatcher.drive_depths** — which depths nodes tell, and when these are the true ones.
-/

namespace MarkupRouting

variable {H σ : Type}

/-! ### Separators -/

/-- How many separators there are in names. `Node.depth` counts the separators of a path, so it is
off by these. -/
def separators (names : List String) : Nat := (names.map fun name => name.toList.count '/').sum

/-- There is no separator in names exactly where none of them has one. -/
theorem separators_eq_zero {names : List String} :
    separators names = 0 ↔ ∀ name ∈ names, '/' ∉ name.toList := by
  simp only [separators, List.sum_eq_zero_iff, List.forall_mem_map, List.count_eq_zero]

/-- In a path there is a separator in front of each name, and there are those in the names. -/
theorem count_pathOf {names : List String} (hne : names ≠ []) :
    (pathOf names).toList.count '/' = names.length + separators names := by
  induction names with
  | nil => exact absurd rfl hne
  | cons name rest ih =>
      have hslash : "/".toList.count '/' = 1 := rfl
      by_cases hrest : rest = []
      · subst hrest
        simp [pathOf, separators, Nat.add_comm]
      · have hcons : pathOf (name :: rest) = "/" ++ name ++ pathOf rest := by
          rw [pathOf, pathOf, String.intercalate_cons_of_ne_nil hrest, String.append_assoc,
            String.append_assoc]
        rw [hcons, String.toList_append, String.toList_append, List.count_append,
          List.count_append, ih hrest, hslash, List.length_cons]
        simp only [separators, List.map_cons, List.sum_cons]
        omega

/-! ### Nodes in their places -/

/-- A content stands inside the element at the given path: it is a text, or it was put there by
somebody else, or it is an element with the path that belongs to it. -/
inductive Content.Placed (put : Content → Prop) : List String → Content → Prop where
  /-- A text. -/
  | text (path : List String) (s : String) : Placed put path (.text s)
  /-- Something that was put there. -/
  | given {path : List String} {c : Content} : put c → Placed put path c
  /-- An element, with what is inside it. -/
  | element {path : List String} {tag : Tag} {contents : List Content} :
      tag.path = pathOf (path ++ [tag.name]) →
      (∀ c ∈ contents, Placed put (path ++ [tag.name]) c) →
        Placed put path (.element tag contents)

namespace Node

/-- The node of the element at the given path has that path, and what stands in it is placed: each
child has the path of its parent with its own name behind it. -/
structure Placed (put : Content → Prop) (path : List String) (n : Node) : Prop where
  /-- The path of the node. -/
  path_eq : n.tag.path = pathOf path
  /-- What stands in it. -/
  contents : ∀ c ∈ n.contents, c.Placed put path

/-- From the first node the given names lead down to the second one, and on the way there is nothing
that was put there by somebody else. -/
inductive Inside (put : Content → Prop) (n : Node) : List String → Node → Prop where
  /-- The node itself. -/
  | self : Inside put n [] n
  /-- A child of a node inside it. -/
  | child {names : List String} {parent c : Node} : Inside put n names parent →
      c ∈ parent.children → ¬ put c.toContent → Inside put n (names ++ [c.tag.name]) c

variable {put : Content → Prop} {path names : List String} {n k : Node}

/-- A child is placed in its parent, where nobody else put it there. -/
theorem Placed.child (h : n.Placed put path) (hk : k ∈ n.children) (hput : ¬ put k.toContent) :
    k.Placed put (path ++ [k.tag.name]) := by
  obtain ⟨c, hc, hnode⟩ := List.mem_filterMap.mp hk
  cases c with
  | text s => cases hnode
  | element tag contents =>
      obtain rfl : (⟨tag, contents⟩ : Node) = k := Option.some.inj hnode
      cases h.contents _ hc with
      | given hgiven => exact absurd hgiven hput
      | element hpath hcontents => exact ⟨hpath, hcontents⟩

/-- A node further down is placed where the names lead to. -/
theorem Placed.inside (h : n.Placed put path) (hk : n.Inside put names k) :
    k.Placed put (path ++ names) := by
  induction hk with
  | self => rwa [List.append_nil]
  | child _ hc hput ih =>
      rw [← List.append_assoc]
      exact ih.child hc hput

/-- A node with the path of its place tells how many names there are in it, with the separators in
these. -/
theorem Placed.depth_eq (h : n.Placed put path) (hne : path ≠ []) :
    n.depth = path.length + separators path := by
  rw [depth, h.path_eq, count_pathOf hne]

end Node

/-! ### What handlers put into nodes -/

/-- The handler may put the content into a node. -/
def Action.Puts (c : Content) : Action σ → Prop
  | .finish _ => False
  | .raise _ _ => False
  | .stop next => next.Puts c
  | .setAttribute _ _ next => next.Puts c
  | .append c' next => c' = c ∨ next.Puts c
  | .remake n next => c ∈ n.contents ∨ next.Puts c
  | .look next => ∃ subject stopping, (next subject stopping).Puts c
  | .ask _ next => ∃ refused, (next refused).Puts c
  | .note _ next => next.Puts c

/-- Some handler may put the content into a node. -/
def Behavior.Puts (b : Behavior H σ) (c : Content) : Prop := ∃ call w, (b call w).Puts c

/-- Whatever they are called with, handlers leave the names and paths of the nodes they are given as
they are. -/
def Behavior.KeepsPlaces (b : Behavior H σ) : Prop :=
  ∀ (c : Call H) (w : σ) (t : Turn H),
    ((b c w).run t).1.frame.nodeTag.name = t.frame.nodeTag.name ∧
      ((b c w).run t).1.frame.nodeTag.path = t.frame.nodeTag.path

/-- What stands in a node behind one thing more is that, or stood there before. -/
theorem Turn.contents_append (t : Turn H) (c : Content) {c' : Content}
    (hc : c' ∈ (t.append c).frame.contents.getD []) :
    c' ∈ t.frame.contents.getD [] ∨ c = c' := by
  unfold Turn.append at hc
  cases hphase : t.phase with
  | opening =>
      rw [hphase] at hc
      exact .inl hc
  | closing =>
      rw [hphase] at hc
      cases hcontents : t.frame.contents with
      | none =>
          rw [hcontents] at hc
          exact absurd hc List.not_mem_nil
      | some contents =>
          rw [hcontents] at hc
          have hcons : c' ∈ c :: contents := by
            cases c with
            | element tag inside => exact hc
            | text s =>
                simp only [Option.map_some, Option.getD_some, Turn.withContent,
                  Frame.withText] at hc
                split at hc
                · exact List.mem_cons_of_mem _ hc
                · exact hc
          rcases List.mem_cons.mp hcons with rfl | hc'
          · exact .inr rfl
          · exact .inl hc'

/-- What stands in a node that another one was made of stands in that one. -/
theorem Turn.contents_remake (t : Turn H) (n : Node) {c : Content}
    (hc : c ∈ (t.remake n).frame.contents.getD []) :
    c ∈ t.frame.contents.getD [] ∨ c ∈ n.contents := by
  unfold Turn.remake at hc
  cases hphase : t.phase with
  | opening =>
      rw [hphase] at hc
      exact .inl hc
  | closing =>
      rw [hphase] at hc
      dsimp only at hc
      cases hcontents : t.frame.contents with
      | none =>
          rw [hcontents] at hc
          exact absurd hc List.not_mem_nil
      | some contents =>
          rw [hcontents] at hc
          exact .inr (List.mem_reverse.mp hc)

/-- Whatever stands in the node when a handler is done stood there before or was put there by it. -/
theorem Action.contents_run (a : Action σ) (t : Turn H) {c : Content}
    (hc : c ∈ (a.run t).1.frame.contents.getD []) :
    c ∈ t.frame.contents.getD [] ∨ a.Puts c := by
  induction a generalizing t with
  | finish w => exact .inl hc
  | raise fault w => exact .inl hc
  | stop next ih =>
      have h := ih t.stop hc
      rwa [t.frame_stop] at h
  | setAttribute name value next ih => exact ih (t.setAttribute name value) hc
  | append c' next ih =>
      rcases ih (t.append c') hc with hbefore | hputs
      · exact (t.contents_append c' hbefore).imp_right .inl
      · exact .inr (.inr hputs)
  | remake n next ih =>
      rcases ih (t.remake n) hc with hbefore | hputs
      · exact (t.contents_remake n hbefore).imp_right .inl
      · exact .inr (.inr hputs)
  | look next ih =>
      exact (ih t.subject t.stopPath.isSome t hc).imp_right fun h => ⟨_, _, h⟩
  | ask request next ih => exact (ih (refusal t.driving request) t hc).imp_right fun h => ⟨_, h⟩
  | note records next ih => exact ih { t with records := records.reverse ++ t.records } hc

/-! ### Frames -/

namespace Frame

/-- Nodes are built where they are to be, they have the names and paths of their elements, and what
stands in them is placed inside the frames around them. -/
structure Filled (put : Content → Prop) (around : List (Frame H)) (f : Frame H) : Prop where
  /-- There is no node where none is to be built. -/
  built : f.contents.isSome = true → f.materializing = true
  /-- The name of the node is that of the element. -/
  name_eq : f.nodeTag.name = f.name
  /-- So is the path. -/
  path_eq : f.nodeTag.path = f.tag.path
  /-- What stands in the node. -/
  placed : ∀ c ∈ f.contents.getD [], c.Placed put (names (f :: around))

/-- All frames are filled that way. -/
def AllFilled (put : Content → Prop) : List (Frame H) → Prop
  | [] => True
  | f :: around => f.Filled put around ∧ AllFilled put around

variable {book : RuleBook H} {put : Content → Prop} {around : List (Frame H)} {f g : Frame H}

/-- The node of an element that is built is placed. -/
theorem Filled.node_placed (h : f.Filled put around) (hfits : f.Fits book around)
    (hbuilt : f.materializing = true) :
    (⟨f.nodeTag, (f.contents.getD []).reverse⟩ : Node).Placed put (names (f :: around)) where
  path_eq := by
    have hpath := hfits.path_eq
    rw [hbuilt, Bool.true_or, if_pos rfl] at hpath
    exact h.path_eq.trans (congrArg (Option.getD · "") hpath)
  contents c hc := h.placed c (List.mem_reverse.mp hc)

/-- Another state makes no difference. -/
theorem Filled.of_reworded (h : f.Filled put around) (hword : f.Reworded g) :
    g.Filled put around := by
  obtain ⟨_, _, _, _, _, _, _, rfl, hremade, hsome, htexts⟩ := hword
  have htag : ∀ remade, remade = f.remade ∨ remade = none →
      ∀ attributes, (remade.getD { f.tag with attributes }).name = f.name ∧
        (remade.getD { f.tag with attributes }).path = f.tag.path := by
    intro remade hremade attributes
    have hname := h.name_eq
    have hpath := h.path_eq
    unfold nodeTag at hname hpath
    rcases hremade with rfl | rfl
    · cases hmade : f.remade with
      | none => exact ⟨rfl, rfl⟩
      | some tag =>
          rw [hmade] at hname hpath
          exact ⟨hname, hpath⟩
    · exact ⟨rfl, rfl⟩
  refine ⟨fun hg => (hsome hg).elim h.built id, (htag _ hremade _).1, (htag _ hremade _).2,
    fun c hc => ?_⟩
  rcases htexts c hc with hold | ⟨s, rfl⟩
  · exact h.placed c hold
  · exact .text _ s

/-- A handler that is called makes no difference but by what it puts there. -/
theorem Filled.of_touched (h : f.Filled put around) (htouched : f.Touched g)
    (hcontents : ∀ c ∈ g.contents.getD [], c ∈ f.contents.getD [] ∨ put c)
    (hname : g.nodeTag.name = f.nodeTag.name) (hpath : g.nodeTag.path = f.nodeTag.path) :
    g.Filled put around := by
  have hname := hname.trans h.name_eq
  have hpath := hpath.trans h.path_eq
  obtain ⟨_, _, _, rfl, hsome⟩ := htouched
  refine ⟨fun hg => h.built (hsome.symm.trans hg), hname, hpath, fun c hc => ?_⟩
  rcases hcontents c hc with hold | hput
  · exact h.placed c hold
  · exact .given hput

/-- Neither does the node of a child that is taken in. -/
theorem Filled.of_adopt (h : f.Filled put around) {inner : Frame H} {n : Node}
    (hinner : inner.Filled put (f :: around)) (hfits : inner.Fits book (f :: around))
    (hnode : inner.node? = some n) (hadopt : f.adopt n = .ok g) : g.Filled put around := by
  obtain ⟨sofar, hsofar, rfl⟩ := Option.map_eq_some_iff.mp hnode
  have hplaced := hinner.node_placed hfits (hinner.built (by rw [hsofar]; rfl))
  rw [hsofar] at hplaced
  unfold Frame.adopt at hadopt
  cases hcontents : f.contents with
  | none =>
      rw [hcontents] at hadopt
      cases hadopt
  | some contents =>
      rw [hcontents] at hadopt
      cases hadopt
      have hnames : names (inner :: f :: around) =
          names (f :: around) ++ [inner.nodeTag.name] := by
        rw [names_cons, hinner.name_eq]
      rw [hnames] at hplaced
      refine ⟨fun _ => h.built (by rw [hcontents]; rfl), h.name_eq, h.path_eq, ?_⟩
      refine List.forall_mem_cons.mpr ⟨.element hplaced.path_eq hplaced.contents,
        fun c hc => h.placed c ?_⟩
      rw [hcontents]
      exact hc

end Frame

/-! ### Stacks -/

/-- **Throughout a drive all nodes are placed**, as far as handlers did not put them there and leave
names and paths as they are. -/
theorem Stack.lasting_filled {b : Behavior H σ} (hkeeps : b.KeepsPlaces) (book : RuleBook H) :
    Lasting b fun st => st.Nested book ∧ Frame.AllFilled b.Puts st.frames where
  entered {st} name attributes h := by
    refine ⟨h.1.enter name attributes, ⟨nofun, rfl, rfl, nofun⟩, ?_⟩
    obtain ⟨frames, pending, counts⟩ := st
    cases frames with
    | nil => exact trivial
    | cons parent rest =>
        exact ⟨⟨h.2.1.built, h.2.1.name_eq, h.2.1.path_eq, h.2.1.placed⟩, h.2.2⟩
  reworded st hword h :=
    ⟨(lasting_nested b book).reworded st hword h.1, h.2.1.of_reworded hword, h.2.2⟩
  called c w t h := by
    refine ⟨(lasting_nested b book).called c w t h.1, ?_, h.2.2⟩
    obtain ⟨hname, hpath⟩ := hkeeps c w t
    exact h.2.1.of_touched (Action.touched_run (b c w) t)
      (fun c' hc => ((b c w).contents_run t hc).imp_right fun hputs => ⟨c, w, hputs⟩) hname hpath
  left h := ⟨h.1.around, h.2.2⟩
  adopted st hnode hadopt h :=
    ⟨(lasting_nested b book).adopted st hnode hadopt h.1,
      h.2.2.1.of_adopt h.2.1 h.1.frames.of_cons.1 hnode hadopt, h.2.2.2⟩

/-! ### Drives -/

namespace Session

variable {b : Behavior H σ} {s : Session H σ} {m : Moment H σ} {feed : Feed} {book : RuleBook H}

/-- A node that a close handler is given is placed at the path of its element. -/
theorem closing_placed (hkeeps : b.KeepsPlaces)
    (hs : s.stack.Nested book ∧ Frame.AllFilled b.Puts s.stack.frames)
    (hgoing : s.stopPath = none) (hm : m ∈ s.moments b feed) {n : Node}
    (hsubject : m.call.subject = .closing n) :
    n.Placed b.Puts (m.session.stack.push m.frame).names := by
  obtain ⟨hnested, hfilled, -⟩ := (Stack.lasting_filled hkeeps book).moments hs hgoing hm
  obtain ⟨hfits, -⟩ := hnested.frames.of_cons
  have hrule := rule_mem_rulesFor hgoing hm
  obtain ⟨session, frame, phase, handler, rule⟩ := m
  cases phase with
  | opening => cases hsubject
  | closing =>
      obtain rfl := Subject.closing.inj hsubject
      have hbuilt : frame.materializing = true :=
        hfits.materializing_iff.mpr ⟨frame, List.mem_cons_self, List.ne_nil_of_mem hrule⟩
      exact hfilled.node_placed hfits hbuilt

/-- A call tells how many elements are open. -/
theorem depth_call (hs : s.stack.Nested book) (hgoing : s.stopPath = none)
    (hm : m ∈ s.moments b feed) : m.call.depth = (m.session.stack.push m.frame).names.length := by
  have hnested := (Stack.lasting_nested b book).moments hs hgoing hm
  refine hnested.frames.of_cons.1.depth_eq.trans ?_
  simp [Stack.names, Stack.push]

end Session

namespace Dispatcher

/-- **Which depths nodes tell** (`Node.depth`). Whatever comes and whatever handlers do, as long as
they leave the names and paths of nodes as they are: a call tells how many elements are open, and
the node that a close handler is given tells that number with the separators in the names of these
elements. A node further down, where no handler put it there, tells as many more as there are names
on the way to it, with the separators in these. So a node tells its true depth exactly where no name
from the root down to it has a separator in it. -/
theorem drive_depths (d : Dispatcher H) (hidle : d.driving = false) {b : Behavior H σ}
    (hkeeps : b.KeepsPlaces) (t : Markup.Tokenizer) (around : Surroundings) {source : Source}
    {feed : Feed} {closable : Bool}
    (hopen : d.openSource t (d.identity around) source = .ok (feed, closable)) (world : σ) :
    let moments := (d.engaged.session around source world).moments b feed
    (d.drive b t around source world).1.calls = moments.map Moment.call ∧
      ∀ m ∈ moments, ∀ n, m.call.subject = .closing n →
        let names := (m.session.stack.push m.frame).names
        m.call.depth = names.length ∧
          ∀ below k, n.Inside b.Puts below k →
            k.depth = m.call.depth + below.length + separators (names ++ below) ∧
              (k.depth = m.call.depth + below.length ↔
                ∀ name ∈ names ++ below, '/' ∉ name.toList) := by
  intro moments
  refine ⟨calls_opened hidle hopen b world, fun m hm n hsubject => ?_⟩
  obtain ⟨hstack, hgoing, -⟩ := d.session_begins (fun v => v) around source world
  have hs : (d.engaged.session around source world).stack.Nested d.book ∧
      Frame.AllFilled b.Puts (d.engaged.session around source world).stack.frames := by
    rw [hstack]
    exact ⟨Stack.nested_ofBook d.book, trivial⟩
  have hdepth := Session.depth_call hs.1 hgoing hm
  have hplaced := Session.closing_placed hkeeps hs hgoing hm hsubject
  refine ⟨hdepth, fun below k hk => ?_⟩
  have hne : (m.session.stack.push m.frame).names ++ below ≠ [] := by
    simp [Stack.names, Stack.push]
  have hdepths := (hplaced.inside hk).depth_eq hne
  rw [List.length_append, ← hdepth] at hdepths
  refine ⟨hdepths, ?_⟩
  rw [hdepths, Nat.add_eq_left, separators_eq_zero]

/-- The node of the first item of a list. -/
def itemNode : Node := ⟨⟨"item", "/list/item", [], .int 1, .keep⟩, []⟩

/-- The node of a list of two items. -/
def listNode : Node :=
  ⟨⟨"list", "/list", [], .int 1, .keep⟩,
    [itemNode.toContent, .element ⟨"item", "/list/item", [], .int 2, .keep⟩ []]⟩

/-- When a list of two items is left its node tells its true depth, and so does that of its first
item. -/
theorem drive_depths_pairList :
    let b : Behavior Unit Unit := fun _ w => .finish w
    let source := Source.items "list" pairList true
    attentive.driving = false ∧ b.KeepsPlaces ∧
      attentive.openSource refusing (attentive.identity calm) source = .ok (pairList, true) ∧
      ∃ m ∈ (attentive.engaged.session calm source ()).moments b pairList,
        m.call.subject = .closing listNode ∧ listNode.Inside b.Puts ["item"] itemNode ∧
          m.call.depth = 1 ∧ listNode.depth = 1 ∧ itemNode.depth = 2 := by
  intro b source
  have hopen : attentive.openSource refusing (attentive.identity calm) source =
      .ok (pairList, true) := rfl
  have hkeeps : b.KeepsPlaces := fun _ _ _ => ⟨rfl, rfl⟩
  obtain ⟨-, hdepths⟩ := drive_depths attentive rfl hkeeps refusing calm hopen ()
  -- what is needed of the last call is read off the moments without writing these out
  have hlast : (((attentive.engaged.session calm source ()).moments b pairList).map
      fun m => ((m.session.stack.push m.frame).names, m.call.subject)).getLast? =
      some (["list"], .closing listNode) := by rfl
  rw [List.getLast?_map, Option.map_eq_some_iff] at hlast
  obtain ⟨m, hm, hview⟩ := hlast
  obtain ⟨hnames, hsubject⟩ := Prod.mk.inj hview
  have hputs : ¬ b.Puts itemNode.toContent := fun ⟨_, _, hputs⟩ => hputs
  have hinside : listNode.Inside b.Puts ["item"] itemNode :=
    .child .self List.mem_cons_self hputs
  obtain ⟨hdepth, hbelow⟩ := hdepths m (List.mem_of_getLast? hm) listNode hsubject
  rw [hnames] at hdepth hbelow
  have hlist := (hbelow [] listNode .self).2.mpr (by decide)
  have hitem := (hbelow ["item"] itemNode hinside).2.mpr (by decide)
  rw [hdepth] at hlist hitem
  exact ⟨rfl, hkeeps, hopen, m, List.mem_of_getLast? hm, hsubject, hinside, hdepth, hlist, hitem⟩

/-- A list whose name is prefixed with the address of its namespace. -/
def prefixedList : Feed :=
  .ofItems [.event (.opened "{u/v}list" [] 1), .event (.closed "{u/v}list" 1)]

/-- The node of the list. -/
def prefixedNode : Node := ⟨⟨"{u/v}list", "/{u/v}list", [], .int 1, .keep⟩, []⟩

/-- The separator in the prefix of a name is counted: when the root is left one element is open, and
its node tells the depth two. -/
theorem not_depth_of_prefixed :
    let b : Behavior Unit Unit := fun _ w => .finish w
    let source := Source.items "list" prefixedList true
    attentive.driving = false ∧
      attentive.openSource refusing (attentive.identity calm) source = .ok (prefixedList, true) ∧
      ¬ ∀ m ∈ (attentive.engaged.session calm source ()).moments b prefixedList, ∀ n,
        m.call.subject = .closing n → n.depth = m.call.depth := by
  intro b source
  refine ⟨rfl, rfl, fun hall => ?_⟩
  have hlast : (((attentive.engaged.session calm source ()).moments b prefixedList).map
      fun m => (m.call.depth, m.call.subject)).getLast? = some (1, .closing prefixedNode) := by rfl
  rw [List.getLast?_map, Option.map_eq_some_iff] at hlast
  obtain ⟨m, hm, hview⟩ := hlast
  obtain ⟨hdepth, hsubject⟩ := Prod.mk.inj hview
  have htwo : prefixedNode.depth = 2 := by decide
  have htold := hall m (List.mem_of_getLast? hm) prefixedNode hsubject
  rw [hdepth, htwo] at htold
  cases htold

end Dispatcher

end MarkupRouting
