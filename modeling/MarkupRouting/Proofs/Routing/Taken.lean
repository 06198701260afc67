import MarkupRouting.Proofs.Markup.Reports
import MarkupRouting.Proofs.Routing.Nesting

/-!
# What was taken

A run takes items until the feed ends, an item fails or a handler asks for a stop. Which elements
are open behind an item is known from the items alone, whatever handlers did at them and even where
the item failed.

* **Item.track**, **opened** — the names of the elements that are open behind several items.
* **Session.names_take** — these are the ones on the stack.
* **Session.RunsOut**, **run_taken** — how a run ends, with whatever every item keeps.
* **Session.run_calls** — how it ends, seen from the last handler that was called.
-/

namespace MarkupRouting

variable {H σ : Type}

/-! ### Items -/

namespace Item

/-- The names of the open elements behind one item more, from the root down. An element without a
name that is a text is kept under an empty one. -/
def track (names : List String) : Item → List String
  | .event (.opened name _ _) => names ++ [name]
  | .misnamed _ => names ++ [""]
  | .event (.closed _ _) => names.dropLast
  | .event (.text _ _) | .notText | .foreign _ => names

/-- The names of the elements that are open behind several items, from the root down, told by the
items alone. The stack has just these names. -/
def opened (items : List Item) : List String := items.foldl track []

/-- The elements open behind one item more are told by those open in front of it. -/
@[simp] theorem opened_concat (items : List Item) (i : Item) :
    opened (items ++ [i]) = track (opened items) i := by
  rw [opened, List.foldl_append]
  rfl

end Item

/-! ### Names on the stack -/

namespace Stack

variable {st st' : Stack H}

/-- There is a name for every element that is open. -/
theorem length_names (st : Stack H) : st.names.length = st.frames.length := by
  rw [names, List.length_reverse, List.length_map]

/-- No names are on a stack exactly where nothing is open. -/
theorem names_eq_nil_iff : st.names = [] ↔ st.frames.isEmpty = true := by
  rw [names, List.reverse_eq_nil_iff, List.map_eq_nil_iff, List.isEmpty_iff]

/-- A frame that is pushed adds its name. -/
@[simp] theorem names_push (st : Stack H) (f : Frame H) :
    (st.push f).names = st.names ++ [f.name] := Frame.names_cons f st.frames

/-- Without the innermost frame there is one name less. -/
theorem names_tail (st : Stack H) :
    ({ st with frames := st.frames.tail } : Stack H).names = st.names.dropLast := by
  rw [names, names, List.map_tail, List.dropLast_reverse]

/-- A change of the top frame that keeps its name keeps all names. -/
theorem names_mapTop {g : Frame H → Frame H} (hg : ∀ f, (g f).name = f.name) :
    (st.mapTop g).names = st.names := by
  unfold Stack.mapTop
  split
  · rfl
  next f rest hframes => simp only [names, hframes, List.map_cons, hg]

/-- A place among siblings (`next_position`) keeps all names. -/
theorem names_claimPosition (st : Stack H) (name : String) :
    (st.claimPosition name).2.names = st.names := by
  unfold Stack.claimPosition
  split
  · rfl
  next parent rest hframes =>
    simp only [names, hframes, List.map_cons]

/-- The stack above which an element is entered has the names it had. -/
theorem names_around (st : Stack H) (name : String) : (st.around name).names = st.names := by
  refine (names_claimPosition _ name).trans (names_mapTop fun f => ?_)
  obtain ⟨_, _, heq, -⟩ := f.flush_eq false
  rw [heq]

/-- Where the node of an element goes does not change the names around it. -/
theorem names_settle {f : Frame H} {l l' : Ledger} {fate : Fate}
    (h : st.settle f l = .ok (fate, st', l')) : st'.names = st.names := by
  unfold Stack.settle at h
  split at h
  · cases h
    rfl
  next n _ =>
    split at h
    next parent rest hframes =>
      split at h
      · cases hadopt : parent.adopt n with
        | error flaw =>
            rw [hadopt] at h
            cases h
        | ok parent' =>
            rw [hadopt] at h
            cases h
            unfold Frame.adopt at hadopt
            split at hadopt
            · cases hadopt
            · cases hadopt
              simp only [names, hframes, List.map_cons]
      · cases h
        rfl
    · cases h
      rfl

end Stack

namespace Stage

/-- The names of the elements that are open behind the calls, from the root down. -/
def names : Stage H σ → List String
  | settled s _ => s.stack.names
  | calling .opening _ s f => (s.stack.push f).names
  | calling .closing _ s _ => s.stack.names

/-- Handlers change no names, and neither does what comes behind their calls. -/
theorem names_complete (b : Behavior H σ) (g : Stage H σ) :
    (g.complete b).1.stack.names = g.names := by
  cases g with
  | settled s fault => rfl
  | calling phase rules s f =>
      have hstack := (Session.invokeAll_beside b phase rules s f).stack_eq
      obtain ⟨_, _, _, hframe, -⟩ := Session.touched_invokeAll b phase rules s f
      have hname := congrArg Frame.name hframe
      simp only [Stage.complete]
      generalize Session.invokeAll b phase rules s f = called at hstack hname
      obtain ⟨s', f', fault⟩ := called
      dsimp only at hstack hname
      cases phase with
      | opening =>
          show (s'.stack.push f').names = (s.stack.push f).names
          rw [Stack.names_push, Stack.names_push, hstack, hname]
      | closing =>
          show _ = s.stack.names
          rw [← hstack]
          cases fault with
          | some fault =>
              obtain ⟨records, hgiven⟩ := s'.giveUp_eq [f']
              dsimp only [Session.afterCalls]
              split
              · rw [hgiven]
              · rfl
          | none =>
              dsimp only [Session.afterCalls]
              cases hsettle : s'.stack.settle f' s'.ledger with
              | error flaw => rfl
              | ok settled => exact Stack.names_settle hsettle

end Stage

/-- A handler that does not just return asks for a stop or fails. -/
theorem Moment.stops_or_fails {b : Behavior H σ} (m : Moment H σ) (hm : ¬ m.Passes b) :
    m.Stops b ∨ ∃ cause, m.Fails b cause := by
  cases hfault : (m.ending b).2.2 with
  | none =>
      left
      refine .inl ⟨hfault, ?_⟩
      rw [Option.isSome_iff_ne_none]
      exact fun hgoing => hm ⟨hfault, hgoing⟩
  | some cause =>
      cases hstop : cause.isStop with
      | true => exact .inl (.inr ⟨cause, hfault, hstop⟩)
      | false => exact .inr ⟨cause, hfault, hstop⟩

namespace Session

variable {b : Behavior H σ} {s s' : Session H σ}

/-- An item enters or leaves an element before handlers are called, unless the element is
refused. -/
theorem names_stage {i : Item} (hfine : i.enters = true → (s.stage i).Fine) :
    (s.stage i).names = i.track s.stack.names := by
  have hstaged := s.staged i
  generalize s.stage i = g at hstaged hfine ⊢
  cases hstaged with
  | entered name attributes depth =>
      have hname : (s.entering name attributes).2.name = name :=
        congrArg Frame.name (Frame.start_eq rfl s.ledger)
      show ((s.stack.around name).push (s.entering name attributes).2).names = _
      rw [Stack.names_push, Stack.names_around, hname]
      rfl
  | misnamed name =>
      show ((s.stack.around "").push (s.misnaming name)).names = _
      rw [Stack.names_push, Stack.names_around]
      rfl
  | refused _ fault nameless henters => cases hfine henters
  | heard text =>
      refine Stack.names_mapTop fun f => ?_
      obtain ⟨_, heq⟩ := f.addText_eq text
      rw [heq]
  | spoilt =>
      refine Stack.names_mapTop fun f => ?_
      unfold Frame.spoil
      split
      · rfl
      · rfl
  | left name depth f rest hframes | torn name depth f rest hframes =>
      have htail := s.stack.names_tail
      rw [hframes] at htail
      exact htail
  | nothing name depth hempty =>
      show s.stack.names = s.stack.names.dropLast
      rw [Stack.names, hempty]
      rfl
  | dropped | reported | unheard | foreign => rfl

/-- **Which elements are open behind an item is known from the item alone**, whatever handlers do at
it and even where it fails, unless it is refused. -/
theorem names_take {i : Item} (hfine : i.enters = true → (s.counted.stage i).Fine) :
    (s.take b i).1.stack.names = i.track s.stack.names := by
  obtain ⟨monitor, records, htake⟩ := s.take_complete b i
  rw [htake]
  exact (Stage.names_complete b _).trans (names_stage hfine)

/-- An item is taken by asking the source once. -/
theorem pulled_take (b : Behavior H σ) (s : Session H σ) (i : Item) :
    (s.take b i).1.pulled = s.pulled + 1 := by
  obtain ⟨_, _, htake⟩ := s.take_complete b i
  obtain ⟨_, _, _, _, _, _, _, hstage⟩ := s.counted.stage_eq i
  have hcomplete : ((s.counted.stage i).complete b).1.pulled =
      (s.counted.stage i).session.pulled := by
    cases s.counted.stage i with
    | settled s fault => rfl
    | calling phase rules s f =>
        obtain ⟨_, _, _, hafter⟩ := afterCalls_eq phase (invokeAll b phase rules s f)
        rw [Stage.complete, hafter]
        exact (invokeAll_beside b phase rules s f).pulled_eq
  rw [htake]
  dsimp only
  rw [hcomplete, hstage]
  rfl

/-! ### Runs -/

/-- How a run ends behind the items taken before, where more items come and then this end of the
feed, handlers are called at these moments, and every item keeps something. -/
inductive RunsOut (b : Behavior H σ) (P : List Item → Session H σ → Prop) (taken : List Item)
    (items : List Item) (last : Feed) (moments : List (Moment H σ)) :
    Session H σ × Option Fault → Prop where
  /-- So many items were taken: all, unless a handler asked for a stop. -/
  | ended {s : Session H σ} {k : Nat} (hk : k ≤ items.length) (hs : P (taken ++ items.take k) s)
      (hall : s.stopped = false → k = items.length) : RunsOut b P taken items last moments (s, none)
  /-- The source fails behind its last item. -/
  | broken {s : Session H σ} {fault : Fault} (hs : P (taken ++ items) s)
      (hlast : last = .fault fault) :
      RunsOut b P taken items last moments ({ s with pulled := s.pulled + 1 }, some fault)
  /-- An item fails. -/
  | failed {s s' : Session H σ} {front rest : List Item} {i : Item} {fault : Fault}
      (hitems : items = front ++ i :: rest) (hs : P (taken ++ front) s)
      (hgoing : s.stopPath = none) (hcalls : (s.counted.stage i).moments b <:+ moments)
      (htake : s.take b i = (s', some fault)) :
      RunsOut b P taken items last moments (s', some fault)

/-- It does not matter whether an item was taken before or is the first one. -/
theorem RunsOut.of_concat {P : List Item → Session H σ → Prop} {taken items : List Item} {i : Item}
    {last : Feed} {first moments : List (Moment H σ)} {r : Session H σ × Option Fault}
    (h : RunsOut b P (taken ++ [i]) items last moments r) :
    RunsOut b P taken (i :: items) last (first ++ moments) r := by
  have happend : ∀ later, taken ++ [i] ++ later = taken ++ i :: later := fun later => by simp
  cases h with
  | @ended _ k hk hs hall =>
      rw [happend] at hs
      exact .ended (k := k + 1) (Nat.succ_le_succ hk) hs
        fun hgoing => congrArg (· + 1) (hall hgoing)
  | broken hs hlast =>
      rw [happend] at hs
      exact .broken hs hlast
  | @failed _ _ front _ _ _ hitems hs hgoing hcalls htake =>
      rw [happend] at hs
      have hmore : i :: items = (i :: front) ++ _ :: _ := congrArg (i :: ·) hitems
      exact .failed hmore hs hgoing (hcalls.trans (List.suffix_append first moments)) htake

/-- **What every item keeps holds where a run ends**, whichever way it does. -/
theorem run_taken {P : List Item → Session H σ → Prop}
    (hlog : ∀ taken s r, P taken s → P taken (s.log r))
    (htake : ∀ taken s i s', P taken s → s.stopPath = none → s.take b i = (s', none) →
      P (taken ++ [i]) s')
    (feed : Feed) {taken : List Item} (hs : P taken s) (hgoing : s.stopPath = none) :
    RunsOut b P taken feed.items feed.last (s.moments b feed) (s.run b feed) := by
  induction feed generalizing s taken with
  | done =>
      refine .ended (k := 0) (Nat.le_refl 0) ?_ fun _ => rfl
      rwa [List.take_zero, List.append_nil]
  | fault fault => exact .broken (by rwa [Feed.items, List.append_nil]) rfl
  | read chunk rest ih => exact ih hs hgoing
  | note r rest ih => exact ih (hlog taken s r hs) hgoing
  | item i rest ih =>
      unfold Session.run Session.moments
      cases hone : s.take b i with
      | mk s' fault =>
          cases fault with
          | some fault =>
              have hfirst : i :: rest.items = [] ++ i :: rest.items := rfl
              refine .failed hfirst (by rwa [List.append_nil]) hgoing ?_ hone
              rw [List.append_nil]
          | none =>
              have hkept := htake taken s i s' hs hgoing hone
              dsimp only
              by_cases hstopped : s'.stopped = true
              · rw [if_pos hstopped, if_pos hstopped]
                refine .ended (k := 1) (Nat.succ_le_succ (Nat.zero_le _)) hkept fun hgoes => ?_
                rw [hstopped] at hgoes
                cases hgoes
              · rw [if_neg hstopped, if_neg hstopped]
                exact (ih hkept (by simpa [stopped] using hstopped)).of_concat

/-- Where every handler just returns nobody asks for a stop. -/
theorem run_passes (feed : Feed) (hgoing : s.stopPath = none)
    (hall : ∀ m ∈ s.moments b feed, m.Passes b) : (s.run b feed).1.stopPath = none := by
  induction feed generalizing s with
  | done => exact hgoing
  | fault fault => exact hgoing
  | read chunk rest ih => exact ih hgoing hall
  | note r rest ih => exact ih (s := s.log r) hgoing hall
  | item i rest ih =>
      unfold Session.moments at hall
      unfold Session.run
      have htaken := take_passes (i := i) hgoing fun m hm => hall m (List.mem_append_left _ hm)
      generalize s.take b i = taken at hall htaken ⊢
      obtain ⟨s', fault⟩ := taken
      cases fault with
      | some fault => exact htaken
      | none =>
          have hgoes : s'.stopped = false := by rw [stopped, htaken]; rfl
          simp only [hgoes, Bool.false_eq_true, if_false] at hall ⊢
          exact ih htaken fun m hm => hall m (List.mem_append_right _ hm)

/-- **A run ends with the last handler that was called, or every handler just returns.** -/
theorem run_calls (feed : Feed) (hgoing : s.stopPath = none) :
    (∀ m ∈ s.moments b feed, m.Passes b) ∧ (s.run b feed).1.stopPath = none ∨
      ∃ before m, s.moments b feed = before ++ [m] ∧ (∀ p ∈ before, p.Passes b) ∧
        (m.Stops b ∨ ∃ cause, m.Fails b cause) ∧ s.run b feed = m.last b := by
  rcases forall_or_first (fun m : Moment H σ => m.Passes b) (s.moments b feed) with
    hall | ⟨before, m, after, hcalls, hbefore, hm⟩
  · exact .inl ⟨hall, run_passes feed hgoing hall⟩
  · obtain ⟨rfl, hrun⟩ := run_breaks feed hgoing hcalls hbefore hm
    exact .inr ⟨before, m, hcalls, hbefore, m.stops_or_fails hm, hrun⟩

end Session

end MarkupRouting
