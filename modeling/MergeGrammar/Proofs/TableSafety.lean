import MergeGrammar.Proofs.NumberedCosts
import MergeGrammar.Proofs.SearchTermination
import MergeGrammar.Proofs.TokenExpansion

/-!
# Safety of the tables

A session is full of numbers: routes are listed under the signals of their roots and point to their
components, edges lead from signal to signal, word parts and features are named by their places in
the graph. Whatever steps, runs and resets have led to a session, each of these numbers is in use
where it is looked up, and every route is listed exactly once.
-/

namespace MergeGrammar

namespace SearchState

variable {read : Array WordPart} {state : SearchState}

lemma part_eq_default {s : Nat} (h : state.parts.size < s) : state.part s = default := by
  rw [part_eq, Array.getElem?_eq_none (by omega), Option.getD_none]

lemma exists_part_of_mem {part : PartState} (h : part ∈ state.parts) :
    ∃ s, 0 < s ∧ s ≤ state.parts.size ∧ state.part s = part := by
  obtain ⟨i, hi, rfl⟩ := Array.mem_iff_getElem.1 h
  exact ⟨i + 1, Nat.succ_pos i, hi, by
    rw [part_eq, Nat.add_sub_cancel, Array.getElem?_eq_getElem hi, Option.getD_some]⟩

namespace Coherent

variable (h : state.Coherent read)
include h

/-- Every stored route is listed once. -/
theorem routesDown_perm :
    (state.parts.toList.flatMap fun part => part.routesDown.toList).Perm
      (List.range state.arena.size) := by
  refine (List.perm_ext_iff_of_nodup (List.nodup_flatMap.2 ⟨fun part hpart => ?_, ?_⟩)
    List.nodup_range).2 fun id => ?_
  · obtain ⟨s, -, -, rfl⟩ := exists_part_of_mem (Array.mem_toList_iff.1 hpart)
    exact (h.ascending s).imp fun hlt => Nat.ne_of_lt hlt
  · refine List.pairwise_iff_getElem.2 fun i j hi hj hij id hfirst hsecond => ?_
    have listed : ∀ k (hk : k < state.parts.toList.length), id ∈ state.parts.toList[k].routesDown.toList →
        (state.arena.route id).root.signal = k + 1 := by
      intro k hk hmem
      have hpart : state.part (k + 1) = state.parts.toList[k] := by
        rw [part_eq, Nat.add_sub_cancel, ← Array.getElem?_toList, List.getElem?_eq_getElem hk,
          Option.getD_some]
      rw [← hpart] at hmem
      exact ((h.mem_routesDown (k + 1) (Nat.succ_pos k) id).1 (Array.mem_toList_iff.1 hmem)).2
    have same := (listed i hi hfirst).symm.trans (listed j hj hsecond)
    exact absurd (Nat.succ.inj same) (Nat.ne_of_lt hij)
  · rw [List.mem_flatMap, List.mem_range]
    constructor
    · rintro ⟨part, hpart, hid⟩
      obtain ⟨s, hpos, -, rfl⟩ := exists_part_of_mem (Array.mem_toList_iff.1 hpart)
      exact ((h.mem_routesDown s hpos id).1 (Array.mem_toList_iff.1 hid)).1
    · intro hid
      have standing := h.root_read id hid
      have hlt := h.root_lt standing
      refine ⟨state.part (state.arena.route id).root.signal, Array.mem_toList_iff.2 ?_,
        Array.mem_toList_iff.2 ((h.mem_routesDown _ standing.1 id).2 ⟨hid, rfl⟩)⟩
      rw [part_eq, Array.getElem?_eq_getElem hlt, Option.getD_some]
      exact Array.getElem_mem hlt

/-- Both ends of an edge have been read. -/
lemma edges_range {part : PartState} (hpart : part ∈ state.parts) {kind : MergeKind} {s : Signal}
    (hs : s ∈ part.below kind ∨ s ∈ part.above kind) : 0 < s ∧ s ≤ read.size := by
  obtain ⟨t, ht, -, rfl⟩ := exists_part_of_mem hpart
  rcases hs with hs | hs
  · have hpos := h.below_pos kind t s ht hs
    have habove := (h.mirrored kind t s ht hpos).1 hs
    refine ⟨hpos, h.size_parts ▸ Nat.le_of_not_lt fun hlt => ?_⟩
    rw [part_eq_default hlt] at habove
    cases kind <;> exact absurd habove List.not_mem_nil
  · have hpos := h.above_pos kind s t ht hs
    have hbelow := (h.mirrored kind s t hpos ht).2 hs
    exact ⟨hpos, h.size_parts ▸ le_size_of_mem_below hpos hbelow⟩

end Coherent

end SearchState

/-! ### Word parts in the graph -/

namespace Reading

variable {graph : Graph} {reading : Reading}

/-- The tokens and the word parts that have been read name nodes of the graph. -/
structure InUse (graph : Graph) (reading : Reading) : Prop where
  tokens_lt : ∀ token ∈ reading.tokens, token < graph.entries.size
  read_lt : ∀ part ∈ reading.wordParts, part.entry < graph.entries.size

lemma inUse_start {tokens : List EntryId} (h : ∀ token ∈ tokens, token < graph.entries.size) :
    (start tokens).InUse graph where
  tokens_lt := h
  read_lt part hpart := absurd hpart (Array.not_mem_empty part)

lemma InUse.push (h : reading.InUse graph) {next : Reading} {part : WordPart}
    (htokens : next.tokens = reading.tokens)
    (hparts : next.wordParts = reading.wordParts.push part)
    (hentry : part.entry < graph.entries.size) : next.InUse graph where
  tokens_lt := htokens ▸ h.tokens_lt
  read_lt other hother := by
    rw [hparts] at hother
    rcases Array.mem_push.1 hother with hother | rfl
    · exact h.read_lt other hother
    · exact hentry

lemma InUse.first (h : reading.InUse graph) : reading.first.2.InUse graph := by
  have started := inUse_start h.tokens_lt
  cases htokens : reading.tokens with
  | nil =>
    rw [Reading.first, htokens]
    exact started
  | cons entry tokens =>
    have hentry := h.tokens_lt entry (htokens ▸ List.mem_cons_self)
    rw [Reading.first, htokens]
    exact started.push rfl rfl hentry

lemma InUse.next (h : reading.InUse graph) (sequenced : graph.Sequenced) :
    (reading.next graph).2.InUse graph := by
  rw [Reading.next]
  split
  · exact h
  · next current hcurrent =>
    have hback := back?_of_current? hcurrent
    split
    · next entry hnext =>
      exact h.push rfl rfl
        (sequenced.next_lt _ (h.read_lt current (Array.mem_of_back? hback)) entry hnext)
    · split
      · next entry hentry => exact h.push rfl rfl (h.tokens_lt entry (List.mem_of_getElem? hentry))
      · exact ⟨h.tokens_lt, h.read_lt⟩

lemma InUse.advance (h : reading.InUse graph) (sequenced : graph.Sequenced) :
    (reading.advance graph).2.InUse graph := by
  rw [Reading.advance]
  split
  · exact h.first
  · exact h.next sequenced

end Reading

namespace Session

variable {session : Session}

lemma Stage.inUse (h : Stage session) (sequenced : session.graph.Sequenced) :
    session.reading.InUse session.graph := by
  induction h with
  | start started =>
    obtain ⟨entries, hentries, rfl⟩ := start_eq_ok started
    exact Reading.inUse_start (lt_of_lookupAll hentries)
  | reset _ ih => exact Reading.inUse_start (ih sequenced).tokens_lt
  | exhaust _ _ ih => exact (ih sequenced).advance sequenced
  | enter _ _ ih => exact (ih sequenced).advance sequenced
  | move _ _ ih => exact ih sequenced
  | record _ _ ih => exact ih sequenced

/-! ### Sequences of operations -/

/-- What can be asked of a session. -/
inductive Operation where
  | step (tracing : Bool)
  | run (tracing : Bool)
  | reset

def perform (session : Session) : Operation → Session
  | .step tracing => (session.stepTracing tracing).2
  | .run tracing => (session.runTracing tracing).2
  | .reset => session.reset

lemma Reachable.runWithin (h : Reachable session) (tracing : Bool) (fuel : Nat) :
    Reachable (session.runWithin tracing fuel).2 := by
  induction fuel generalizing session with
  | zero => exact h
  | succ fuel ih =>
    have stepped := h.step tracing
    rw [Session.runWithin]
    split
    · exact h
    · split
      · next hstep => rwa [hstep] at stepped
      · next hstep =>
        rw [hstep] at stepped
        exact ih stepped

lemma Reachable.perform (h : Reachable session) (operation : Operation) :
    Reachable (session.perform operation) := by
  cases operation with
  | step tracing => exact h.step tracing
  | run tracing => exact h.runWithin tracing _
  | reset => exact h.reset

lemma Reachable.operations (h : Reachable session) (operations : List Operation) :
    Reachable (operations.foldl Session.perform session) := by
  induction operations generalizing session with
  | nil => exact h
  | cons operation operations ih => exact ih (h.perform operation)

/-- Every number that a session holds is in use where it is looked up. -/
structure Indexed (session : Session) : Prop where
  /-- There is a table for each word part. -/
  size_parts : session.search.parts.size = session.consumed
  /-- Every route is listed once. -/
  listed_once : (session.search.parts.toList.flatMap fun part => part.routesDown.toList).Perm
    (List.range session.routeCount)
  /-- It is listed under the signal of its root. -/
  mem_routesAt : ∀ signal id, id ∈ session.routesAt signal ↔
    id < session.routeCount ∧ (session.search.arena.route id).root.signal = signal
  ascending : ∀ signal, (session.routesAt signal).Pairwise (· < ·)
  head_eq : ∀ id < session.routeCount,
    (session.search.arena.route id).span.head = (session.search.arena.route id).root.signal
  root_read : ∀ id < session.routeCount,
    partAt? session.reading.wordParts (session.search.arena.route id).root.signal =
      some (session.search.arena.route id).root
  signals_read : ∀ id < session.routeCount, ∀ s ∈ (session.search.arena.route id).signals,
    1 ≤ s ∧ s ≤ session.consumed
  edges_read : ∀ part ∈ session.search.parts,
    ∀ s ∈ part.headEdges ++ part.argEdges ++ part.adjunctions ++ part.adjunctTo,
      1 ≤ s ∧ s ≤ session.consumed
  /-- A route may climb, the search may pass, and a word part may be entered. -/
  climbs : ∀ tracing, ∀ id < session.routeCount, ∃ trees next,
    Runs (session.setting tracing) (.climb id) (Climb.start session.search) trees next
  settles : ∀ tracing, ∃ passes next,
    Settles (session.setting tracing) (Climb.start session.search) passes next
  enters : ∀ tracing part, session.read.1 = some part → ∃ result planted passes seeded last,
    session.Ends tracing part result planted passes seeded last
  /-- A route may be unfolded and its cost be counted. -/
  unfolds : ∀ id < session.routeCount, ∃ d, session.derivations[id]? = some d ∧
    session.search.arena.unfoldWithin (id + 1) id = some d ∧
    (∀ part ∈ d.wordParts, part ∈ session.reading.wordParts) ∧
    ∀ {α : Type} (scale : CostScale α),
      session.search.arena.costWithin scale session.reading.wordParts (id + 1) id =
        some (d.costOn scale)
  /-- Word parts and their features are nodes of a graph that comes from entries. -/
  nodes : ∀ entries, session.graph = .ofEntries entries → ∀ part ∈ session.reading.wordParts,
    part.entry < session.graph.entries.size ∧
    ∀ feature ∈ (session.graph.entry part.entry).features, feature < session.graph.features.size

lemma routesAt_cases (session : Session) (signal : Nat) :
    0 < signal ∧ signal ≤ session.search.parts.size ∧
        session.routesAt signal = (session.search.part signal).routesDown.toList ∨
      ¬(0 < signal ∧ signal ≤ session.search.parts.size) ∧ session.routesAt signal = [] := by
  by_cases hrange : 0 < signal ∧ signal ≤ session.search.parts.size
  · obtain ⟨hpos, hle⟩ := hrange
    exact Or.inl ⟨hpos, hle, by rw [routesAt, SearchState.part?_eq_part hpos hle]⟩
  · have hnone : session.search.part? signal = none := by
      rw [SearchState.part?]
      split
      · rfl
      · next hpos =>
        have hlt : session.search.parts.size < signal :=
          Nat.lt_of_not_le fun hle => hrange ⟨Nat.pos_of_ne_zero hpos, hle⟩
        exact Array.getElem?_eq_none (by omega)
    exact Or.inr ⟨hrange, by rw [routesAt, hnone]⟩

/-- What is in use stays so from stage to stage. -/
theorem Stage.indexed (h : Stage session) : session.Indexed where
  size_parts := h.coherent.tables.size_parts
  listed_once := h.coherent.tables.routesDown_perm
  mem_routesAt signal id := by
    have tables := h.coherent.tables
    rcases session.routesAt_cases signal with ⟨hpos, -, heq⟩ | ⟨hrange, heq⟩
    · rw [heq, Array.mem_toList_iff]
      exact tables.mem_routesDown signal hpos id
    · rw [heq]
      refine iff_of_false List.not_mem_nil fun ⟨hid, hroot⟩ => hrange ?_
      have standing := tables.root_read id hid
      rw [← hroot, tables.size_parts]
      exact ⟨standing.1, standing.le_size⟩
  ascending signal := by
    rcases session.routesAt_cases signal with ⟨-, -, heq⟩ | ⟨-, heq⟩
    · rw [heq]
      exact h.coherent.tables.ascending signal
    · rw [heq]
      exact List.Pairwise.nil
  head_eq id hid := (h.allBuilt.1.fits hid).head_eq
  root_read id hid := (h.coherent.tables.root_read id hid).partAt?_eq
  signals_read id hid s hs := h.allBuilt.1.signals_range hid hs
  edges_read part hpart s hs := by
    have range := fun kind => @SearchState.Coherent.edges_range _ _ h.coherent.tables part hpart kind s
    simp only [List.mem_append] at hs
    rcases hs with ((hs | hs) | hs) | hs
    · exact range .merge (Or.inr hs)
    · exact range .merge (Or.inl hs)
    · exact range .pairMerge (Or.inl hs)
    · exact range .pairMerge (Or.inr hs)
  climbs tracing id hid := by
    obtain ⟨trees, run, -⟩ := Climb.visit_runs id _ (h.ready tracing) hid (by omega)
    exact ⟨trees, _, run⟩
  settles tracing := by
    obtain ⟨passes, settles, -⟩ := Climb.settle_runs (h.ready tracing)
    exact ⟨passes, _, settles⟩
  enters tracing part hread := by
    obtain ⟨result, planted, passes, seeded, last, ends, -⟩ := exists_ends h hread tracing
    exact ⟨result, planted, passes, seeded, last, ends⟩
  unfolds id hid := by
    have built := h.allBuilt.1
    refine ⟨session.search.tree id, built.getElem?_derivations hid,
      built.unfoldWithin_eq hid (Nat.lt_succ_self id), fun part hpart => ?_, fun scale => ?_⟩
    · exact (built.standsIn_tree hid part hpart).mem
    · exact built.costWithin_eq hid scale (Nat.lt_succ_self id)
  nodes entries hgraph part hpart := by
    have sequenced : session.graph.Sequenced := hgraph ▸ Graph.sequenced_ofEntries entries
    refine ⟨(h.inUse sequenced).read_lt part hpart, fun feature hfeature => ?_⟩
    rw [hgraph] at hfeature ⊢
    exact Graph.lt_size_of_mem_features hfeature

/-- Whatever operations follow the start of a session, every number it holds is in use, and every
route is listed once. -/
theorem operations_indexed {graph : Graph} {tokens : List String} {options : Options}
    (started : Session.start graph tokens options = .ok session) (operations : List Operation) :
    (operations.foldl perform session).Indexed :=
  ((Reachable.start started).operations operations).stage.indexed

/-- A session of the sample that is reset after a step, run to the end and then asked for one step
more. -/
def sampleRerun : Session :=
  [.step false, .reset, .run false, .step true].foldl perform sample

/-- The head of the sample is the root of four routes. -/
theorem sample_rerun_indexed : sampleRerun.Indexed ∧ sampleRerun.routesAt 2 = [1, 2, 4, 5] ∧
    ∀ id ∈ [1, 2, 4, 5], (sampleRerun.search.arena.route id).root.signal = 2 := by
  have indexed : sampleRerun.Indexed := operations_indexed sample_started _
  have listed : sampleRerun.routesAt 2 = [1, 2, 4, 5] := by decide +kernel
  exact ⟨indexed, listed, fun id hid => ((indexed.mem_routesAt 2 id).1 (listed ▸ hid)).2⟩

end Session

end MergeGrammar
