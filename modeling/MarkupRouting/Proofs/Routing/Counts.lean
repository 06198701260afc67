import MarkupRouting.Proofs.Routing.Built
import MarkupRouting.Proofs.Routing.Taken

/-!
# What a drive counts

A drive that returns reports how many events it took, how many elements it entered and left, how
deep it came, how many handlers it called, and how many nodes it built and gave up. These numbers
are kept up in several places, some before and some after what they count. Behind every item that is
taken they are right, and at the end they are what the feed, the calls and the ledger tell.

* **Item.height**, **Item.deepest** — how many elements are open behind several items, and how many
  ever were.
* **Session.stage_counts**, **stage_ledger** — what is counted before handlers are called.
* **Session.complete_counts** — what is counted with their calls and behind them.
* **Session.Counted** — the numbers are those of the items taken so far; **Counted.take**,
  **Counted.run** — they stay it.
* **Session.run_ledger** — every node that is built is known, and so is the largest number of them.
* **Session.conclude_returns** — what is still open at the end is given up and told of.
* **Dispatcher.drive_counts** — the report of a drive.
* **Dispatcher.not_even_of_returning** — why not as many nodes are given up as were built.
-/

namespace MarkupRouting

variable {H σ : Type}

/-! ### Items -/

namespace Item

/-- How many elements are open behind items that come one after the other. An item that leaves an
element where none is open ends the drive, so that it takes none away. -/
def height (items : List Item) : Nat := items.countP enters - items.countP leaves

/-- The largest number of elements that are open behind the first few of the items, told by the
items alone; `max_depth` is to agree with it. -/
def deepest (items : List Item) : Nat := (items.inits.map height).foldr max 0

/-- One item more counts if it is of the kind. -/
theorem countP_concat (p : Item → Bool) (items : List Item) (i : Item) :
    (items ++ [i]).countP p = items.countP p + (p i).toNat := by
  cases h : p i with
  | false => simp [h]
  | true => simp [h]

/-- Behind one item more either as many elements are open as ever or more than ever. -/
theorem deepest_concat (items : List Item) (i : Item) :
    deepest (items ++ [i]) = max (deepest items) (height (items ++ [i])) := by
  have hinits : (items ++ [i]).inits = items.inits ++ [items ++ [i]] := by
    simp [List.inits_append]
  rw [deepest, hinits, List.map_append, foldr_max_append, ← deepest]
  simp

end Item

/-! ### Calls -/

/-- The tally after several calls, of which the last one comes first. -/
def Tally.calledAll (calls : List (Call H)) (t : Tally) : Tally :=
  calls.foldr (fun c t => t.called c.phase) t

/-- Calls are counted by when they are made, and nothing else is counted with them. -/
theorem Tally.calledAll_eq (calls : List (Call H)) (t : Tally) :
    t.calledAll calls =
      { t with
        openCalls := t.openCalls + calls.countP fun c => c.phase = .opening
        closeCalls := t.closeCalls + calls.countP fun c => c.phase = .closing } := by
  induction calls with
  | nil => rfl
  | cons c rest ih =>
      have hcons : t.calledAll (c :: rest) = (t.calledAll rest).called c.phase := rfl
      rw [hcons, ih]
      cases hphase : c.phase with
      | opening => simp [called, hphase, Nat.add_assoc]
      | closing => simp [called, hphase, Nat.add_assoc]

namespace Session

variable {b : Behavior H σ} {phase : Phase} {s s' s'' : Session H σ}

/-- Between the two sessions calls were made, and each of them was counted. -/
def Tells (s s' : Session H σ) : Prop :=
  ∃ calls, s'.calls = calls ++ s.calls ∧ s'.tally = s.tally.calledAll calls

/-- Where no call is made nothing is counted. -/
theorem Tells.refl (s : Session H σ) : s.Tells s := ⟨[], rfl, rfl⟩

/-- Calls made in two steps are made in one. -/
theorem Tells.trans (h : s.Tells s') (h' : s'.Tells s'') : s.Tells s'' := by
  obtain ⟨calls, hcalls, htally⟩ := h
  obtain ⟨calls', hcalls', htally'⟩ := h'
  refine ⟨calls' ++ calls, ?_, ?_⟩
  · rw [hcalls', hcalls, List.append_assoc]
  · rw [htally', htally, Tally.calledAll, Tally.calledAll, Tally.calledAll, List.foldr_append]

/-- A call is counted. -/
theorem tells_invoke (b : Behavior H σ) (phase : Phase) (h : H) (r : Rule H) (s : Session H σ)
    (f : Frame H) : s.Tells (s.invoke b phase h r f).1 := by
  unfold invoke
  dsimp only
  split
  · exact ⟨[_], rfl, rfl⟩
  · split
    · exact ⟨[_], rfl, rfl⟩
    · exact ⟨[_], rfl, rfl⟩

/-- All calls for an element are counted, that of a handler that asks for a stop as well. -/
theorem tells_invokeAll (b : Behavior H σ) (phase : Phase) (rules : List (Rule H))
    (s : Session H σ) (f : Frame H) : s.Tells (invokeAll b phase rules s f).1 := by
  induction rules generalizing s f with
  | nil => exact .refl s
  | cons r rest ih =>
      unfold invokeAll
      split
      · exact ih s f
      next h _ =>
        dsimp only
        split
        · exact s.tells_invoke b phase h r f
        · exact (s.tells_invoke b phase h r f).trans (ih _ _)

end Session

/-! ### Stages -/

/-- Stacks of the same shapes are of the same height. -/
theorem Stack.length_of_shapes {st st' : Stack H} (h : st'.shapes = st.shapes) :
    st'.frames.length = st.frames.length := by
  simpa [Stack.shapes] using congrArg List.length h

/-- An element that is left leaves the stack around it as deep as it was. -/
theorem Stack.settle_length {st st' : Stack H} {f : Frame H} {l l' : Ledger} {fate : Fate}
    (h : st.settle f l = .ok (fate, st', l')) : st'.frames.length = st.frames.length := by
  unfold Stack.settle at h
  split at h
  · cases h
    rfl
  next n _ =>
    split at h
    next parent rest hframes =>
      split at h
      · split at h
        · cases h
          rw [hframes]
          rfl
        · cases h
      · cases h
        rfl
    · cases h
      rfl

namespace Stage

/-- The frame of the element comes on top of the stack when its handlers were called. -/
def rises : Stage H σ → Bool
  | calling .opening _ _ _ => true
  | _ => false

end Stage

/-- The tally after an item, before any handler is called, where so many elements are open. -/
def Tally.met (t : Tally) (depth : Nat) (i : Item) : Tally :=
  if i.enters then t.entered (depth + 1) else if i.leaves then t.left else t

/-- An item enters an element, leaves one, or does neither. -/
theorem Tally.met_eq (t : Tally) (depth : Nat) (i : Item) :
    t.met depth i =
      { t with
        opened := t.opened + i.enters.toNat
        closed := t.closed + i.leaves.toNat
        maxDepth := if i.enters then max t.maxDepth (depth + 1) else t.maxDepth } := by
  cases i with
  | event e => cases e <;> rfl
  | misnamed name => rfl
  | notText => rfl
  | foreign typeName => rfl

namespace Session

variable {b : Behavior H σ} {s s' : Session H σ}

/-- Before handlers are called an element is counted as entered or left, and the stack is as deep as
it will be, but for the frame that comes on top of it. -/
theorem stage_counts {i : Item} (hfine : (s.stage i).Fine) :
    (s.stage i).session.tally = s.tally.met s.stack.frames.length i ∧
      (s.stage i).session.stack.frames.length + (s.stage i).rises.toNat + i.leaves.toNat =
        s.stack.frames.length + i.enters.toNat := by
  have haround : ∀ name, (s.stack.around name).frames.length = s.stack.frames.length :=
    fun name => Stack.length_of_shapes (Stack.around_kept s.stack name).1
  have hdepth : ∀ name attributes,
      ((s.stack.mapTop (·.flush false)).enter name attributes).1.depth =
        s.stack.frames.length + 1 := by
    intro name attributes
    have hshapes : (s.stack.mapTop (·.flush false)).shapes = s.stack.shapes :=
      Stack.shapes_mapTop fun f => f.shape_flush false
    rw [Stack.enter, Stack.depth, Stack.length_of_shapes hshapes]
  have hstaged := s.staged i
  generalize s.stage i = g at hstaged hfine ⊢
  cases hstaged with
  | entered name attributes depth =>
      have hframe : (s.entering name attributes).2.depth = s.stack.frames.length + 1 := by
        let f := ((s.stack.mapTop (·.flush false)).enter name attributes).1
        have hstart : (s.entering name attributes).2 =
            { f with contents := if f.materializing then some [] else none } :=
          Frame.start_eq rfl s.ledger
        rw [hstart]
        exact hdepth name attributes
      exact ⟨congrArg s.tally.entered hframe, congrArg (· + 1) (haround name)⟩
  | misnamed name => exact ⟨congrArg s.tally.entered (hdepth "" []), congrArg (· + 1) (haround "")⟩
  | heard text =>
      exact ⟨rfl, Stack.length_of_shapes (Stack.shapes_mapTop fun f => f.shape_addText text)⟩
  | spoilt => exact ⟨rfl, Stack.length_of_shapes (Stack.shapes_mapTop fun f => f.shape_spoil)⟩
  | left name depth f rest hframes => exact ⟨rfl, by rw [hframes]; rfl⟩
  | dropped | reported => exact ⟨rfl, rfl⟩
  | refused | unheard | torn | nothing | foreign => cases hfine

/-- Before handlers are called nothing happens to the ledger but that the node of an element that is
entered may be built. -/
theorem stage_ledger {i : Item} (hfine : (s.stage i).Fine) :
    (s.stage i).session.ledger = s.ledger ∨
      (s.stage i).rises = true ∧ ∃ n, (s.stage i).session.ledger = s.ledger.created n := by
  have hstaged := s.staged i
  generalize s.stage i = g at hstaged hfine ⊢
  cases hstaged with
  | entered name attributes depth =>
      have hledger : (s.entering name attributes).1.ledger =
          (((s.stack.mapTop (·.flush false)).enter name attributes).1.start s.ledger).2 := rfl
      unfold Frame.start at hledger
      split at hledger
      · exact .inr ⟨rfl, _, hledger⟩
      · exact .inl hledger
  | misnamed | heard | spoilt | left | dropped | reported => exact .inl rfl
  | refused | unheard | torn | nothing | foreign => cases hfine

/-- The handlers of an element are counted, its frame comes on top of the stack or its node goes
where it belongs; with that nodes may be given up. -/
theorem complete_counts {g : Stage H σ} (hcomplete : g.complete b = (s', none)) :
    g.session.Tells s' ∧ s'.pulled = g.session.pulled ∧
      s'.stack.frames.length = g.session.stack.frames.length + g.rises.toNat ∧
      ∃ freed, g.session.ledger.freed ≤ freed ∧ s'.ledger = { g.session.ledger with freed } ∧
        (g.rises = true → freed = g.session.ledger.freed) := by
  cases g with
  | settled s fault =>
      obtain ⟨rfl, -⟩ := Prod.mk.inj hcomplete
      exact ⟨.refl s, rfl, rfl, s.ledger.freed, le_refl _, rfl, fun _ => rfl⟩
  | calling phase rules s f =>
      have htells := tells_invokeAll b phase rules s f
      have hbeside := invokeAll_beside b phase rules s f
      simp only [Stage.complete] at hcomplete
      generalize invokeAll b phase rules s f = called at *
      obtain ⟨s₁, f₁, fault⟩ := called
      dsimp only at htells hbeside
      have hstack := hbeside.stack_eq
      have hledger := hbeside.ledger_eq
      cases phase with
      | opening =>
          obtain ⟨rfl, -⟩ := Prod.mk.inj hcomplete
          exact ⟨htells, hbeside.pulled_eq, congrArg (fun st => st.frames.length + 1) hstack,
            s.ledger.freed, le_refl _, hledger, fun _ => rfl⟩
      | closing =>
          obtain ⟨fate, st, l, records, hsettle, rfl⟩ := settle_of_afterCalls hcomplete
          have hlength := Stack.settle_length hsettle
          obtain ⟨freed, hfreed, hl, -⟩ := Stack.settle_ledger hsettle
          rw [hledger] at hfreed hl
          rw [hstack] at hlength
          refine ⟨htells, hbeside.pulled_eq, hlength, freed, hfreed, hl, fun hrises => ?_⟩
          cases hrises

/-! ### Items taken -/

/-- When an item is taken without a fault it is counted, as an element entered or left where it is
one, and all calls that it leads to are. -/
theorem take_counts {i : Item} (htake : s.take b i = (s', none)) :
    s'.pulled = s.pulled + 1 ∧
      (∃ calls, s'.calls = calls ++ s.calls ∧
        s'.tally = (s.tally.took.met s.stack.frames.length i).calledAll calls) ∧
      s'.stack.frames.length + i.leaves.toNat = s.stack.frames.length + i.enters.toNat := by
  obtain ⟨s₁, monitor, records, hcomplete, rfl⟩ := complete_of_take htake
  obtain ⟨htally, hdepth⟩ := stage_counts (Stage.fine_of_complete hcomplete)
  obtain ⟨⟨calls, hcalls, hcalled⟩, hpulled, hlength, -⟩ := complete_counts hcomplete
  obtain ⟨_, _, _, _, _, _, _, hstage⟩ := s.counted.stage_eq i
  have hbefore : (s.counted.stage i).session.pulled = s.pulled + 1 ∧
      (s.counted.stage i).session.calls = s.calls := by
    rw [hstage]
    exact ⟨rfl, rfl⟩
  refine ⟨hpulled.trans hbefore.1, ⟨calls, ?_, ?_⟩, ?_⟩
  · rw [← hbefore.2]
    exact hcalls
  · exact hcalled.trans (congrArg (Tally.calledAll calls) htally)
  · exact (congrArg (· + i.leaves.toNat) hlength).trans hdepth

/-- When an item is taken without a fault at most one node is built, and the largest number of nodes
there was is brought up to date. -/
theorem take_ledger {i : Item} (hlow : s.ledger.built - s.ledger.freed ≤ s.ledger.peak)
    (htake : s.take b i = (s', none)) :
    (∃ nodes, s.ledger.Builds nodes s'.ledger) ∧
      s'.ledger.peak = max s.ledger.peak (s'.ledger.built - s'.ledger.freed) := by
  obtain ⟨s₁, monitor, records, hcomplete, rfl⟩ := complete_of_take htake
  obtain ⟨-, -, -, freed, hfreed, hledger, hrises⟩ := complete_counts hcomplete
  dsimp only
  rw [hledger]
  rcases stage_ledger (Stage.fine_of_complete hcomplete) with hsame | ⟨hrise, n, hbuilt⟩
  · have hsame : (s.counted.stage i).session.ledger = s.ledger := hsame
    rw [hsame] at hfreed ⊢
    refine ⟨⟨[], (Ledger.Builds.refl s.ledger).freed freed⟩, ?_⟩
    dsimp only
    omega
  · have hbuilt : (s.counted.stage i).session.ledger = s.ledger.created n := hbuilt
    rw [hrises hrise, hbuilt]
    exact ⟨⟨[n], Ledger.Builds.createdAll s.ledger [n]⟩, rfl⟩

/-! ### Runs -/

/-- What a session counted is what was taken so far, and the calls that were made. One item more
keeps this, whatever it leads to, so that it holds at the end of a drive (`DriveStatistics`). -/
structure Counted (taken : List Item) (s : Session H σ) : Prop where
  /-- Items are counted when they are taken. -/
  events_eq : s.tally.events = taken.length
  /-- The feed was asked for each of them. -/
  pulled_eq : s.pulled = taken.length
  /-- Elements are counted when they are entered. -/
  opened_eq : s.tally.opened = taken.countP Item.enters
  /-- Elements are counted when they are left. -/
  closed_eq : s.tally.closed = taken.countP Item.leaves
  /-- The others are open. -/
  open_eq : s.tally.opened = s.tally.closed + s.stack.frames.length
  /-- No element was left before it was entered. -/
  within : ∀ front, front <+: taken → front.countP Item.leaves ≤ front.countP Item.enters
  /-- The number of open elements was never larger than this one, and once as large. -/
  maxDepth_eq : s.tally.maxDepth = Item.deepest taken
  /-- It is no larger now. -/
  low : s.stack.frames.length ≤ s.tally.maxDepth
  /-- Open handlers are counted when they are called. -/
  openCalls_eq : s.tally.openCalls = s.calls.countP fun c => c.phase = .opening
  /-- So are close handlers. -/
  closeCalls_eq : s.tally.closeCalls = s.calls.countP fun c => c.phase = .closing

namespace Counted

variable {taken : List Item}

/-- As many elements are open as were entered and not left. -/
theorem length_eq (h : s.Counted taken) : s.stack.frames.length = Item.height taken := by
  have hopen := h.open_eq
  rw [h.opened_eq, h.closed_eq] at hopen
  rw [Item.height, hopen, Nat.add_sub_cancel_left]

/-- One item more is counted. -/
theorem take {i : Item} (h : s.Counted taken) (htake : s.take b i = (s', none)) :
    s'.Counted (taken ++ [i]) := by
  obtain ⟨hpulled, ⟨calls, hcalls, htally⟩, hlength⟩ := take_counts htake
  rw [Tally.calledAll_eq, Tally.met_eq] at htally
  have hopened : s'.tally.opened = (taken ++ [i]).countP Item.enters := by
    rw [htally, Item.countP_concat, ← h.opened_eq]
    rfl
  have hclosed : s'.tally.closed = (taken ++ [i]).countP Item.leaves := by
    rw [htally, Item.countP_concat, ← h.closed_eq]
    rfl
  have hopen : s'.tally.opened = s'.tally.closed + s'.stack.frames.length := by
    have hbefore := h.open_eq
    rw [h.opened_eq, h.closed_eq] at hbefore
    rw [hopened, hclosed, Item.countP_concat, Item.countP_concat]
    omega
  have hheight : s'.stack.frames.length = Item.height (taken ++ [i]) := by
    rw [hopened, hclosed] at hopen
    rw [Item.height, hopen, Nat.add_sub_cancel_left]
  have hdepth : s'.tally.maxDepth = max s.tally.maxDepth s'.stack.frames.length := by
    have hlow := h.low
    rw [htally]
    dsimp only [Tally.took]
    cases henters : i.enters with
    | false =>
        rw [henters, Bool.toNat_false] at hlength
        simp only [Bool.false_eq_true, if_false]
        omega
    | true =>
        have hstays : i.leaves = false := Item.leaves_of_enters henters
        rw [henters, hstays, Bool.toNat_false, Bool.toNat_true, Nat.add_zero] at hlength
        rw [if_pos rfl, hlength]
  refine ⟨?_, ?_, hopened, hclosed, hopen, fun front hfront => ?_, ?_, ?_, ?_, ?_⟩
  · rw [htally, List.length_append, List.length_singleton, ← h.events_eq]
    rfl
  · rw [hpulled, List.length_append, List.length_singleton, ← h.pulled_eq]
  · rcases List.prefix_concat_iff.mp hfront with rfl | hearlier
    · rw [← hopened, ← hclosed, hopen]
      exact Nat.le_add_right _ _
    · exact h.within front hearlier
  · rw [hdepth, Item.deepest_concat, h.maxDepth_eq, hheight]
  · rw [hdepth]
    exact Nat.le_max_right _ _
  · rw [hcalls, List.countP_append, ← h.openCalls_eq, htally]
    exact Nat.add_comm _ _
  · rw [hcalls, List.countP_append, ← h.closeCalls_eq, htally]
    exact Nat.add_comm _ _

/-- Making a record counts nothing. -/
theorem log (h : s.Counted taken) (r : Log.Record) : (s.log r).Counted taken :=
  ⟨h.events_eq, h.pulled_eq, h.opened_eq, h.closed_eq, h.open_eq, h.within, h.maxDepth_eq, h.low,
    h.openCalls_eq, h.closeCalls_eq⟩

/-- Whatever a drive takes is counted, up to its end or to the item with which it is stopped. -/
theorem run (feed : Feed) (h : s.Counted taken) (hgoing : s.stopPath = none)
    (hrun : (s.run b feed).2 = none) :
    ∃ k, k ≤ feed.items.length ∧ (s.run b feed).1.Counted (taken ++ feed.items.take k) ∧
      ((s.run b feed).1.stopped = false → k = feed.items.length) := by
  have hends := run_taken (b := b) (P := fun taken s => s.Counted taken)
    (fun _ _ r h => h.log r) (fun _ _ _ _ h _ htake => h.take htake) feed h hgoing
  generalize s.run b feed = ran at hends hrun ⊢
  cases hends with
  | ended hk hcounted hall => exact ⟨_, hk, hcounted, hall⟩
  | broken => cases hrun
  | failed => cases hrun

end Counted

/-- The largest number of nodes that a drive knows of at its end is the largest one there was behind
any of the items taken; and it knows of every node that was built. -/
theorem run_ledger (feed : Feed) (hlow : s.ledger.built - s.ledger.freed ≤ s.ledger.peak)
    (hrun : (s.run b feed).2 = none) :
    (∃ nodes, s.ledger.Builds nodes (s.run b feed).1.ledger) ∧
      ((s.run b feed).1.ledger.peak : Int) =
        max (s.ledger.peak : Int)
          (((s.trace b feed).map fun r => r.1.ledger.live).foldr max 0) := by
  induction feed generalizing s with
  | done => exact ⟨⟨[], .refl s.ledger⟩, (max_eq_left (Int.natCast_nonneg _)).symm⟩
  | fault fault => cases hrun
  | read chunk rest ih => exact ih hlow hrun
  | note r rest ih => exact ih (s := s.log r) hlow hrun
  | item i rest ih =>
      unfold Session.run at hrun ⊢
      unfold Session.trace
      cases htake : s.take b i with
      | mk s' fault =>
          rw [htake] at hrun
          cases fault with
          | some fault => cases hrun
          | none =>
              obtain ⟨⟨nodes, hbuilds⟩, hpeak⟩ := take_ledger hlow htake
              have hlive : s'.ledger.live = (s'.ledger.built : Int) - s'.ledger.freed := rfl
              dsimp only at hrun ⊢
              by_cases hstopped : s'.stopped = true
              · rw [if_pos hstopped, if_pos hstopped]
                refine ⟨⟨nodes, hbuilds⟩, ?_⟩
                simp only [List.map_cons, List.map_nil, List.foldr_cons, List.foldr_nil, hlive]
                omega
              · rw [if_neg hstopped] at hrun
                obtain ⟨⟨nodes', hbuilds'⟩, hpeak'⟩ := ih (by omega) hrun
                rw [if_neg hstopped, if_neg hstopped]
                refine ⟨⟨nodes ++ nodes', hbuilds.trans hbuilds'⟩, ?_⟩
                rw [hpeak', List.map_cons, List.foldr_cons]
                dsimp only
                rw [hlive]
                generalize ((s'.trace b rest).map fun r => r.1.ledger.live).foldr max 0 = later
                omega

end Session

/-! ### The end -/

/-- What a report tells last: where the drive was stopped, how many elements were still open; where
it was not, how many were, unless none was. -/
def Report.TellsOpen (r : Report) (n : Nat) : Prop :=
  if r.cancelled then
    ∃ earlier path nodes, r.diagnostics = earlier ++
      [{ severity := .info
         message := .text "Processing stopped by handler"
         component := .text "drive"
         path
         details := .record [("open_frames_released", .int n), ("nodes_released", .int nodes)]
         correlation := r.correlation }]
  else
    n = 0 ∨ ∃ earlier path, r.diagnostics = earlier ++
      [{ severity := .warning
         message := .text ("Input ended with " ++ toString n ++ " open element(s)")
         component := .text "drive"
         path
         correlation := r.correlation }]

namespace Session

variable {b : Behavior H σ} {s : Session H σ}

/-- A drive that returns gives up what is still open, and tells of it. -/
theorem conclude_returns {fault : Option Fault} (h : (s.conclude fault).2 = none)
    (elapsed : Double) :
    fault = none ∧
      (s.conclude fault).1.ledger =
        { s.ledger with freed := s.ledger.freed + Frame.held s.stack.frames } ∧
      ((s.conclude fault).1.report elapsed).TellsOpen s.stack.frames.length := by
  unfold Session.conclude at h ⊢
  split at h
  · cases h
  next hfree =>
    rw [if_neg hfree]
    cases fault with
    | some fault => cases h
    | none =>
        refine ⟨rfl, ?_⟩
        dsimp only
        obtain ⟨ledger, records, hclear⟩ := s.clear_eq
        obtain ⟨hframes, -⟩ := Prod.ext_iff.mp s.clear_counts
        by_cases hstopped : s.stopped = true
        · rw [if_pos hstopped]
          refine ⟨s.clear_ledger, ?_⟩
          unfold Session.endStopped
          dsimp only [Session.diagnose]
          rw [hclear, hframes]
          exact (if_pos hstopped).mpr ⟨s.diagnostics, _, _, rfl⟩
        · rw [if_neg hstopped]
          unfold Session.endFed
          split
          next hempty =>
            rw [List.isEmpty_iff.mp hempty]
            exact ⟨rfl, (if_neg hstopped).mpr (.inl rfl)⟩
          · refine ⟨s.clear_ledger, ?_⟩
            dsimp only [Session.diagnose]
            rw [hclear, hframes]
            exact (if_neg hstopped).mpr (.inr ⟨s.diagnostics, _, rfl⟩)

end Session

/-- The largest of several numbers and nothing is not less than nothing. -/
theorem foldr_max_nonneg (ns : List Int) : 0 ≤ ns.foldr max 0 := by
  induction ns with
  | nil => exact le_refl 0
  | cons n rest ih => exact ih.trans (le_max_right n _)

namespace Dispatcher

variable {b : Behavior H σ}

/-- A drive begins with nothing counted. -/
theorem session_counted (d : Dispatcher H) (around : Surroundings) (source : Source) (world : σ) :
    (d.engaged.session around source world).Counted [] := by
  unfold Dispatcher.session
  dsimp only
  generalize hstart : Session.tell _ _ _ _ = start
  obtain ⟨monitor, records, hsample⟩ := start.sample_eq "start"
  rw [hsample, ← hstart]
  refine ⟨rfl, rfl, rfl, rfl, rfl, fun front hfront => ?_, rfl, le_refl _, rfl, rfl⟩
  rw [List.prefix_nil.mp hfront]
  exact le_refl _

/-- A drive returns where it ended without a fault, and reports of the session it ended with. -/
theorem result_outcome_eq_ok {s : Session H σ} {fault : Option Fault} {elapsed : Double}
    {closed : Bool} {report : Report} :
    (outcome s fault elapsed closed).result = .ok report ↔
      fault = none ∧ report = s.report elapsed := by
  cases fault with
  | some fault => exact ⟨nofun, fun h => nomatch h.1⟩
  | none => exact ⟨fun h => ⟨rfl, (Except.ok.inj h).symm⟩, fun h => congrArg Except.ok h.2.symm⟩

/-- A session that comes to its end without a fault has counted there what it had counted behind the
last item; what was still held is given up, and the report tells of what was still open. -/
theorem runSession_returns {s : Session H σ} {feed : Feed}
    (h : (runSession b s feed).2 = none) (elapsed : Double) :
    (s.run b feed).2 = none ∧
      (runSession b s feed).1.tally = (s.run b feed).1.tally ∧
      (runSession b s feed).1.pulled = (s.run b feed).1.pulled ∧
      (runSession b s feed).1.calls = (s.run b feed).1.calls ∧
      (runSession b s feed).1.stopped = (s.run b feed).1.stopped ∧
      (runSession b s feed).1.ledger = { (s.run b feed).1.ledger with
        freed := (s.run b feed).1.ledger.freed + Frame.held (s.run b feed).1.stack.frames } ∧
      ((runSession b s feed).1.report elapsed).TellsOpen (s.run b feed).1.stack.frames.length := by
  obtain ⟨_, _, _, _, _, hlast⟩ := runSession_eq b s feed
  obtain ⟨hrun, hledger, htells⟩ := Session.conclude_returns h elapsed
  obtain ⟨_, _, hsample⟩ := ((s.run b feed).1.conclude (s.run b feed).2).1.sample_eq "end"
  have hend : (runSession b s feed).1 =
      ((s.run b feed).1.conclude (s.run b feed).2).1.sample "end" := rfl
  refine ⟨hrun, by rw [hlast], by rw [hlast], by rw [hlast], by rw [hlast]; rfl, ?_, ?_⟩
  · rw [hend, hsample]
    exact hledger
  · rw [hend, hsample]
    exact htells

/-- The ledger at the end of a drive that returns: every node that was built is known, as many were
given up where handlers leave the contents of nodes as they are, and the peak is right. -/
theorem ledger_returns (d : Dispatcher H) (b : Behavior H σ) (around : Surroundings)
    (source : Source) (world : σ) {feed : Feed}
    (h : (runSession b (d.engaged.session around source world) feed).2 = none) :
    let start := d.engaged.session around source world
    let ledger := (runSession b start feed).1.ledger
    (∃ nodes, ledger.seen = d.ledger.seen ++ Ledger.tidings d.ledger.observers nodes ∧
      ledger.built = nodes.length) ∧
    (b.KeepsContents → ledger.freed = ledger.built) ∧
    (ledger.peak : Int) = ((start.trace b feed).map fun r => r.1.ledger.live).foldr max 0 := by
  intro start ledger
  obtain ⟨hrun, -, -, -, -, hledger, -⟩ := runSession_returns h default
  obtain ⟨-, -, -, hreset⟩ := d.session_stands around source world
  obtain ⟨-, -, hfresh, hdebt⟩ := d.session_fresh around source world
  have hlow : start.ledger.built - start.ledger.freed ≤ start.ledger.peak := by
    rw [hreset]
    exact le_refl _
  obtain ⟨⟨nodes, hbuilds⟩, hpeak⟩ := Session.run_ledger feed hlow hrun
  obtain ⟨-, heven⟩ := Session.orderly_run (s := start) feed hfresh hrun
  rw [hreset] at hbuilds hpeak
  have hended : ledger = { (start.run b feed).1.ledger with
      freed := (start.run b feed).1.ledger.freed +
        Frame.held (start.run b feed).1.stack.frames } := hledger
  rw [hended]
  refine ⟨⟨nodes, hbuilds.seen_eq, hbuilds.built_eq.trans (Nat.zero_add _)⟩, fun hkeeps => ?_, ?_⟩
  · have hlast : (start.run b feed).1.debt = 0 := (heven hkeeps).trans hdebt
    rw [Session.debt] at hlast
    dsimp only
    omega
  · rw [hpeak]
    exact max_eq_right (foldr_max_nonneg _)

section Counts

variable {d : Dispatcher H} (hidle : d.driving = false) {t : Markup.Tokenizer}
  {around : Surroundings} {source : Source} {feed : Feed} {closable : Bool}
  (hopen : d.openSource t (d.identity around) source = .ok (feed, closable)) (b : Behavior H σ)
  (world : σ) {report : Report}
  (hreport : (d.drive b t around source world).1.result = .ok report)

include hidle hopen hreport

/-- A drive that returns reports of the session it ended with. -/
theorem report_of_returns :
    let start := d.engaged.session around source world
    (runSession b start feed).2 = none ∧
      report = (runSession b start feed).1.report around.elapsed ∧
      d.drive b t around source world =
        (outcome (runSession b start feed).1 none around.elapsed closable,
          { d with ledger := (runSession b start feed).1.ledger }) := by
  intro start
  have hended : d.drive b t around source world =
      (outcome (runSession b start feed).1 (runSession b start feed).2 around.elapsed closable,
        { d with ledger := (runSession b start feed).1.ledger }) := drive_opened hidle hopen b world
  rw [hended] at hreport
  obtain ⟨hnone, hreported⟩ := result_outcome_eq_ok.mp hreport
  exact ⟨hnone, hreported, by rw [hended, hnone]⟩

/-- What it counted there is what it took from the source, all of it unless it was stopped. -/
theorem counted_of_returns :
    let last := ((d.engaged.session around source world).run b feed).1
    let pulled := (d.drive b t around source world).1.pulled
    last.Counted (feed.items.take pulled) ∧ pulled ≤ feed.items.length ∧
      (report.cancelled = false → feed.items.take pulled = feed.items) ∧
      (runSession b (d.engaged.session around source world) feed).1.tally = last.tally := by
  intro last pulled
  obtain ⟨hnone, hreported, hended⟩ := report_of_returns hidle hopen b world hreport
  obtain ⟨hrun, htally, hpulled, -, hstopped, -, -⟩ := runSession_returns hnone around.elapsed
  obtain ⟨hgoing, -⟩ := d.session_fresh around source world
  obtain ⟨k, hk, hcounted, hall⟩ := (d.session_counted around source world).run feed hgoing hrun
  rw [List.nil_append] at hcounted
  have hpulls : pulled = k := by
    have hlength := hcounted.pulled_eq
    rw [List.length_take, Nat.min_eq_left hk] at hlength
    have hsame : pulled = (runSession b (d.engaged.session around source world) feed).1.pulled := by
      show (d.drive b t around source world).1.pulled = _
      rw [hended]
      rfl
    rw [hsame, hpulled, hlength]
  rw [hpulls]
  refine ⟨hcounted, hk, fun hgoing => ?_, htally⟩
  rw [hreported] at hgoing
  rw [hall (hstopped.symm.trans hgoing), List.take_length]

/-- It took as many events as it reports. -/
theorem events_of_returns :
    let pulled := (d.drive b t around source world).1.pulled
    report.statistics.eventsProcessed = .int pulled ∧ pulled ≤ feed.items.length ∧
      (report.cancelled = false → feed.items.take pulled = feed.items) := by
  intro pulled
  obtain ⟨-, hreported, -⟩ := report_of_returns hidle hopen b world hreport
  obtain ⟨hcounted, hk, hall, htally⟩ := counted_of_returns hidle hopen b world hreport
  refine ⟨?_, hk, hall⟩
  rw [hreported]
  dsimp only [Session.report, Session.statistics]
  rw [htally, hcounted.events_eq, List.length_take, Nat.min_eq_left hk]

/-- Of these as many enter and as many leave an element as it reports, and the elements that were
not left are the ones on the stack at the end, which it tells of last. -/
theorem elements_of_returns :
    let taken := feed.items.take (d.drive b t around source world).1.pulled
    report.statistics.elementsOpened = .int (taken.countP Item.enters) ∧
      report.statistics.elementsClosed = .int (taken.countP Item.leaves) ∧
      (∀ front, front <+: taken → front.countP Item.leaves ≤ front.countP Item.enters) ∧
      ((d.engaged.session around source world).run b feed).1.stack.frames.length =
        Item.height taken ∧
      report.TellsOpen (Item.height taken) := by
  intro taken
  obtain ⟨hnone, hreported, -⟩ := report_of_returns hidle hopen b world hreport
  obtain ⟨-, -, -, -, -, -, htells⟩ := runSession_returns hnone around.elapsed
  obtain ⟨hcounted, -, -, htally⟩ := counted_of_returns hidle hopen b world hreport
  rw [hcounted.length_eq, ← hreported] at htells
  refine ⟨?_, ?_, hcounted.within, hcounted.length_eq, htells⟩
  · rw [hreported]
    dsimp only [Session.report, Session.statistics]
    rw [htally, hcounted.opened_eq]
  · rw [hreported]
    dsimp only [Session.report, Session.statistics]
    rw [htally, hcounted.closed_eq]

/-- Never were more elements open at once than the depth that it reports, and once there were as
many. -/
theorem depth_of_returns :
    report.statistics.maxDepth =
      .int (Item.deepest (feed.items.take (d.drive b t around source world).1.pulled)) := by
  obtain ⟨-, hreported, -⟩ := report_of_returns hidle hopen b world hreport
  obtain ⟨hcounted, -, -, htally⟩ := counted_of_returns hidle hopen b world hreport
  rw [hreported]
  dsimp only [Session.report, Session.statistics]
  rw [htally, hcounted.maxDepth_eq]

/-- Of the calls made as many are of open and of close handlers as it reports. -/
theorem calls_of_returns :
    let calls := (d.drive b t around source world).1.calls
    report.statistics.openHandlerCalls = .int (calls.countP fun c => c.phase = .opening) ∧
      report.statistics.closeHandlerCalls = .int (calls.countP fun c => c.phase = .closing) := by
  intro calls
  obtain ⟨hnone, hreported, hended⟩ := report_of_returns hidle hopen b world hreport
  obtain ⟨-, -, -, hcalls, -, -, -⟩ := runSession_returns hnone around.elapsed
  obtain ⟨hcounted, -, -, htally⟩ := counted_of_returns hidle hopen b world hreport
  have hmade : calls = ((d.engaged.session around source world).run b feed).1.calls.reverse := by
    show (d.drive b t around source world).1.calls = _
    rw [hended, calls_outcome, hcalls]
  rw [hmade, hreported, List.countP_reverse, List.countP_reverse]
  dsimp only [Session.report, Session.statistics]
  rw [htally, hcounted.openCalls_eq, hcounted.closeCalls_eq]
  exact ⟨rfl, rfl⟩

/-- The observers were told of as many nodes as it reports to have been built, and as many were
given up where handlers leave the contents of nodes as they are. -/
theorem nodes_of_returns :
    (∃ nodes,
      (d.drive b t around source world).2.ledger.seen =
        d.ledger.seen ++ Ledger.tidings d.ledger.observers nodes ∧
      report.statistics.nodesCreated = .int nodes.length) ∧
      (b.KeepsContents → report.statistics.nodesReleased = report.statistics.nodesCreated) := by
  obtain ⟨hnone, hreported, hended⟩ := report_of_returns hidle hopen b world hreport
  obtain ⟨⟨nodes, hseen, hbuilt⟩, heven, -⟩ := d.ledger_returns b around source world hnone
  rw [hended, hreported]
  exact ⟨⟨nodes, hseen, congrArg (fun n : Nat => Value.int n) hbuilt⟩,
    fun hkeeps => congrArg (fun n : Nat => Value.int n) (heven hkeeps)⟩

/-- The peak is the largest number of nodes built and not given up that there was behind an
event. -/
theorem peak_of_returns :
    report.statistics.peakLiveNodes =
      .int ((((d.engaged.session around source world).trace b feed).map
        fun r => r.1.ledger.live).foldr max 0) := by
  obtain ⟨hnone, hreported, -⟩ := report_of_returns hidle hopen b world hreport
  obtain ⟨-, -, hpeak⟩ := d.ledger_returns b around source world hnone
  rw [hreported]
  exact congrArg Value.int hpeak

end Counts

/-- **What a drive that returns reports is exact** (`DriveStatistics`). It took as many events as it
reports, all of them where it was not stopped. Among these are as many that enter and as many that
leave an element as it reports; of the first few of them never more leave an element than enter one.
The elements that were not left are the ones on the stack at the end, and the report tells of them
last. The depth is the largest number of elements that were ever open at once. Of the calls as many
are of open and of close handlers as it reports. The observers were told of as many nodes as were
built, and as many were given up where handlers leave the contents of nodes as they are. And the
peak is the largest number of nodes built and not given up that there was behind any event. -/
theorem drive_counts {d : Dispatcher H} (hidle : d.driving = false) {t : Markup.Tokenizer}
    {around : Surroundings} {source : Source} {feed : Feed} {closable : Bool}
    (hopen : d.openSource t (d.identity around) source = .ok (feed, closable)) (b : Behavior H σ)
    (world : σ) {report : Report}
    (hreport : (d.drive b t around source world).1.result = .ok report) :
    let ended := d.drive b t around source world
    let start := d.engaged.session around source world
    let taken := feed.items.take ended.1.pulled
    let counts := report.statistics
    (counts.eventsProcessed = .int ended.1.pulled ∧ ended.1.pulled ≤ feed.items.length ∧
      (report.cancelled = false → taken = feed.items)) ∧
    (counts.elementsOpened = .int (taken.countP Item.enters) ∧
      counts.elementsClosed = .int (taken.countP Item.leaves) ∧
      (∀ front, front <+: taken → front.countP Item.leaves ≤ front.countP Item.enters) ∧
      (start.run b feed).1.stack.frames.length = Item.height taken ∧
      report.TellsOpen (Item.height taken)) ∧
    counts.maxDepth = .int (Item.deepest taken) ∧
    (counts.openHandlerCalls = .int (ended.1.calls.countP fun c => c.phase = .opening) ∧
      counts.closeHandlerCalls = .int (ended.1.calls.countP fun c => c.phase = .closing)) ∧
    ((∃ nodes, ended.2.ledger.seen = d.ledger.seen ++ Ledger.tidings d.ledger.observers nodes ∧
        counts.nodesCreated = .int nodes.length) ∧
      (b.KeepsContents → counts.nodesReleased = counts.nodesCreated)) ∧
    counts.peakLiveNodes =
      .int (((start.trace b feed).map fun r => r.1.ledger.live).foldr max 0) := by
  intro ended start taken counts
  exact ⟨events_of_returns hidle hopen b world hreport,
    elements_of_returns hidle hopen b world hreport, depth_of_returns hidle hopen b world hreport,
    calls_of_returns hidle hopen b world hreport, nodes_of_returns hidle hopen b world hreport,
    peak_of_returns hidle hopen b world hreport⟩

/-- A list that breaks off in its second item. -/
def tornList : Feed :=
  .ofItems [.event (.opened "list" [] 1), .event (.opened "item" [] 2), .event (.closed "item" 2),
    .event (.opened "item" [] 2)]

/-- Of a list that breaks off in its second item three elements were entered and one was left, one
close handler was called, and two nodes were built and given up, one after the other. -/
theorem drive_counts_tornList :
    observed.driving = false ∧
      observed.openSource refusing (observed.identity calm) (.items "list" tornList false) =
        .ok (tornList, false) ∧
      (Behavior.still : Behavior Unit Unit).KeepsContents ∧
      ∃ report,
        (observed.drive Behavior.still refusing calm (.items "list" tornList false) ()).1.result =
          .ok report ∧
        report.cancelled = false ∧ report.statistics.elementsOpened = .int 3 ∧
        report.statistics.elementsClosed = .int 1 ∧ report.TellsOpen 2 ∧
        report.statistics.maxDepth = .int 2 ∧ report.statistics.closeHandlerCalls = .int 1 ∧
        report.statistics.nodesCreated = .int 2 ∧
        report.statistics.nodesReleased = report.statistics.nodesCreated ∧
        report.statistics.peakLiveNodes = .int 1 := by
  have hkeeps : (Behavior.still : Behavior Unit Unit).KeepsContents := fun _ _ _ => rfl
  have hopens : observed.openSource refusing (observed.identity calm)
      (.items "list" tornList false) = .ok (tornList, false) := rfl
  have hreport : ∃ report,
      (observed.drive Behavior.still refusing calm (.items "list" tornList false) ()).1.result =
        .ok report ∧ report.cancelled = false ∧ report.statistics.nodesCreated = .int 2 :=
    ⟨_, rfl, rfl, rfl⟩
  obtain ⟨report, hreport, hgoing, hcreated⟩ := hreport
  obtain ⟨⟨-, -, hall⟩, ⟨hopened, hclosed, -, -, htells⟩, hdepth, ⟨-, hcalls⟩,
    ⟨-, hreleased⟩, hpeak⟩ :=
      drive_counts (d := observed) rfl hopens Behavior.still () hreport
  rw [hall hgoing] at hopened hclosed htells hdepth
  exact ⟨rfl, hopens, hkeeps, report, hreport, hgoing, hopened, hclosed, htells, hdepth, hcalls,
    hcreated, hreleased hkeeps, hpeak.trans (congrArg Value.int (by decide +kernel))⟩

/-- It is not enough that handlers return. The nodes that they put into those they are given are
given up with these, though they were never built. -/
theorem not_even_of_returning :
    ¬ ∀ (d : Dispatcher Unit) (b : Behavior Unit Unit), d.driving = false → b.Returns →
      ∀ (t : Markup.Tokenizer) (around : Surroundings) (typeName : String) (feed : Feed)
        (closable : Bool) (world : Unit) (report : Report),
        (d.drive b t around (.items typeName feed closable) world).1.result = .ok report →
          report.statistics.nodesReleased = report.statistics.nodesCreated := by
  intro h
  have hreturns : stuffing.Returns := fun _ _ t => ⟨rfl, Action.stopPath_append t _⟩
  obtain ⟨ended, hended⟩ : ∃ ended, ended = runSession stuffing
      (lister.engaged.session calm (.items "list" tornList false) ()) tornList := ⟨_, rfl⟩
  have hnone : ended.2 = none := by
    rw [hended]
    exact Option.isNone_iff_eq_none.mp (by decide +kernel)
  have hresult : (lister.drive stuffing refusing calm (.items "list" tornList false) ()).1.result =
      .ok (ended.1.report calm.elapsed) := by
    rw [lister.drive_items rfl, ← hended]
    exact result_outcome_eq_ok.mpr ⟨hnone, rfl⟩
  have hbooks : (ended.1.ledger.freed : Int) = ended.1.ledger.built :=
    Value.int.inj
      (h lister stuffing rfl hreturns refusing calm "list" tornList false () _ hresult)
  rw [hended] at hbooks
  exact absurd hbooks (by decide +kernel)

end Dispatcher

end MarkupRouting
