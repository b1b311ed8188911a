import MergeGrammar.Proofs.ContiguousRoutes
import MergeGrammar.Proofs.DerivationRules
import MergeGrammar.Proofs.Outlines
import MergeGrammar.Proofs.SearchClosure

/-!
# Exactness without movers

As long as no word part that has been read is free to move, two stored routes may be attached to each
other exactly if the rules allow it for their derivations. So every stored derivation can be
generated. A search that has tried everything and dropped nothing has stored every derivation that can
be generated, and each of them once, in whatever order it has gone about it.
-/

namespace MergeGrammar

namespace SearchState

variable {graph : Graph} {options : Options} {read : Array WordPart} {state : SearchState}

/-- What the derivations of the stored routes are generated from. -/
def premises (graph : Graph) (options : Options) (read : Array WordPart) (state : SearchState) :
    Premises where
  graph
  checkAgreement := options.checkAgreement
  read
  edge kind s t := (s, t) ∈ state.edges (·.below kind)

/-! ### The derivation of a stored route -/

section Built

variable (h : state.AllBuilt graph options read)
include h

lemma AllBuilt.mem_signals_tree {id : RouteId} (hid : id < state.arena.size) {s : Signal} :
    s ∈ (state.tree id).signals ↔ s ∈ (state.arena.route id).signals := by
  rw [Derivation.signals, SignalSet.mem_ofList, tree, (h.covers hid).signals.mem_iff]
  exact SignalSet.mem_toList

lemma AllBuilt.welcomes_iff {host : RouteId} (hhost : host < state.arena.size) (newcomer : RouteId) :
    (state.tree host).Welcomes graph (state.tree newcomer) ↔
      ∀ other ∈ (state.arena.route host).adjuncts,
        (graph.entry (state.arena.route other).root.entry).clashes graph
          ((graph.entry (state.arena.route host).root.entry).adjunctNames graph)
          (graph.entry (state.arena.route newcomer).root.entry) = false := by
  have hadjuncts : (state.tree host).adjuncts = (state.arena.route host).adjuncts.map state.tree := by
    rw [h.tree_eq hhost]
    rfl
  rw [Derivation.Welcomes, hadjuncts, List.forall_mem_map]
  exact Iff.rfl

lemma AllBuilt.agrees_iff {host adjunct : RouteId} (hhost : host < state.arena.size)
    (hadjunct : adjunct < state.arena.size) :
    (state.tree host).Agrees graph (state.tree adjunct) ↔
      (Climb.start state).adjunctAgrees ⟨graph, options, false⟩ adjunct host = true := by
  rw [Derivation.Agrees, h.welcomes_iff hhost, h.welcomes_iff hadjunct]
  simp [Climb.adjunctAgrees, Climb.rootEntry, Climb.route, Climb.start]

/-! ### Attachment and the rules -/

variable (fixed : Fixed graph read)
include fixed

lemma AllBuilt.isGreatest_tree {id : RouteId} (hid : id < state.arena.size) :
    IsGreatest {s | s ∈ (state.tree id).signals} (state.arena.route id).span.high := by
  simp only [h.mem_signals_tree hid]
  exact (h.contiguous fixed hid).isGreatest (h.fits hid)

lemma AllBuilt.isLeast_tree {id : RouteId} (hid : id < state.arena.size) :
    IsLeast {s | s ∈ (state.tree id).signals} (state.arena.route id).span.low := by
  simp only [h.mem_signals_tree hid]
  exact (h.contiguous fixed hid).isLeast (h.fits hid)

lemma AllBuilt.endsBefore_iff {id other : RouteId} (hid : id < state.arena.size)
    (hother : other < state.arena.size) : (state.tree id).EndsBefore (state.tree other) ↔
      (state.arena.route id).span.high + 1 = (state.arena.route other).span.low := by
  constructor
  · rintro ⟨s, hlast, hfirst⟩
    rw [hlast.unique (h.isGreatest_tree fixed hid)] at hfirst
    exact hfirst.unique (h.isLeast_tree fixed hother)
  · intro heq
    refine ⟨_, h.isGreatest_tree fixed hid, ?_⟩
    rw [heq]
    exact h.isLeast_tree fixed hother

variable {base sub : RouteId} (hbase : base < state.arena.size) (hsub : sub < state.arena.size)
include hbase hsub

lemma AllBuilt.adjacent_iff : (state.tree base).Adjacent (state.tree sub) ↔
    (state.arena.route base).Adjoins (state.arena.route sub) :=
  or_congr (h.endsBefore_iff fixed hbase hsub) (h.endsBefore_iff fixed hsub hbase)

lemma AllBuilt.apart_iff : (state.tree base).Apart (state.tree sub) ↔
    ∀ s ∈ (state.arena.route base).signals, s ∉ (state.arena.route sub).signals := by
  constructor
  · intro apart s hs hs'
    exact apart.signals s ((h.mem_signals_tree hbase).2 hs) ((h.mem_signals_tree hsub).2 hs')
  · intro disjoint
    have contiguous := h.contiguous fixed hbase
    have contiguous' := h.contiguous fixed hsub
    refine ⟨fun s hs hs' => ?_, ?_⟩
    · rw [h.mem_signals_tree hbase] at hs
      rw [h.mem_signals_tree hsub] at hs'
      exact disjoint s hs hs'
    · refine (contiguous.separate contiguous' (h.fits hbase) (h.fits hsub) disjoint).imp ?_ ?_
      · intro hlt s hs t ht
        exact ((h.isGreatest_tree fixed hbase).2 hs).trans_lt
          (hlt.trans_le ((h.isLeast_tree fixed hsub).2 ht))
      · intro hlt s hs t ht
        exact ((h.isGreatest_tree fixed hsub).2 hs).trans_lt
          (hlt.trans_le ((h.isLeast_tree fixed hbase).2 ht))

/-- Two stored routes may be attached to each other exactly if the rules allow it for their
derivations. -/
theorem AllBuilt.attachable_iff (relation : Relation) :
    state.Attachable graph options base sub relation ↔
      (premises graph options read state).Allows (state.tree base) (state.tree sub) relation := by
  constructor
  · intro attachable
    have licensed := attachable.licensed
    refine ⟨Route.hasRoom_of_unfilled _ attachable.unfilled,
      (h.apart_iff fixed hbase hsub).2 attachable.disjoint, ?_⟩
    have adjacent := (h.adjacent_iff fixed hbase hsub).2
      (attachable.adjoins h fixed (h.contiguous fixed hbase) (h.contiguous fixed hsub))
    cases relation with
    | argument => exact ⟨licensed.1, adjacent⟩
    | adjunction =>
      exact ⟨licensed.1, adjacent, fun hcheck =>
        (h.agrees_iff hbase hsub).2 (licensed.2.2.2 hcheck)⟩
    | part => exact ⟨licensed.1, licensed.2.1⟩
  · rintro ⟨room, apart, licensed⟩
    have disjoint := (h.apart_iff fixed hbase hsub).1 apart
    have contiguous := h.contiguous fixed hbase
    have contiguous' := h.contiguous fixed hsub
    have root_apart : (state.arena.route base).root.signal ∉ (state.arena.route sub).signals :=
      disjoint _ (h.fits hbase).root_mem
    have neighbors := h.neighbors_iff fixed hbase hsub disjoint
    rw [← h.adjacent_iff fixed hbase hsub] at neighbors
    refine ⟨hbase, hsub, disjoint,
      contiguous.not_overlaps contiguous' (h.fits hbase) (h.fits hsub) disjoint, ?_⟩
    rw [h.tree_eq hbase] at room
    cases relation with
    | argument =>
      refine ⟨licensed.1, Option.map_eq_none_iff.1 room, ?_, neighbors.2 licensed.2⟩
      rw [contiguous.used]
      exact SignalSet.not_mem_empty _
    | adjunction =>
      exact ⟨licensed.1, root_apart, neighbors.2 licensed.2.1, fun hcheck =>
        (h.agrees_iff hbase hsub).1 (licensed.2.2 hcheck)⟩
    | part => exact ⟨licensed.1, licensed.2, root_apart, Option.map_eq_none_iff.1 room⟩

end Built

/-! ### Soundness, completeness and uniqueness -/

theorem AllBuilt.derives (h : state.AllBuilt graph options read) (fixed : Fixed graph read)
    {id : RouteId} (hid : id < state.arena.size) :
    (premises graph options read state).Derives (state.tree id) := by
  refine h.induct (motive := fun _ route => (premises graph options read state).Derives
    (route.unfold state.arena.derivations)) (fun id part standing => .leaf standing) ?_ hid
  intro id base sub relation _ _ attachable hbase hsub
  rw [attach, Route.unfold_extend (h.getElem?_derivations attachable.sub_lt)]
  exact .attach hbase hsub
    ((h.attachable_iff fixed attachable.base_lt attachable.sub_lt relation).1 attachable)

/-- Routes at the same word part with the same key have the same derivation. -/
lemma tree_eq_of_key (coherent : state.Coherent read) {id : RouteId} (hid : id < state.arena.size)
    {route : Route} (standing : route.root.StandsIn read)
    (heq : (state.arena.route id).key = route.key) :
    state.tree id = route.unfold state.arena.derivations := by
  obtain ⟨hsignal, hpart, harg, hadjuncts⟩ := Route.key_eq_iff.1 heq
  rw [tree, Route.unfold, Route.unfold, (coherent.root_read id hid).eq standing hsignal, hpart, harg,
    hadjuncts]

/-- A search that has tried everything and dropped nothing has stored all derivations. -/
theorem AllBuilt.exists_tree (h : state.AllBuilt graph options read) (fixed : Fixed graph read)
    (coherent : state.Coherent read) (keyed : state.Keyed) (closed : state.Closed graph options read)
    (uncapped : state.capped = 0) {d : Derivation}
    (derived : (premises graph options read state).Derives d) :
    ∃ id, id < state.arena.size ∧ state.tree id = d := by
  have stored : ∀ route : Route, state.Candidate graph options read route →
      ∃ id, id < state.arena.size ∧ state.tree id = route.unfold state.arena.derivations := by
    intro route candidate
    obtain ⟨id, hid, heq⟩ := keyed.exists_of_known uncapped (closed route candidate)
    exact ⟨id, hid, tree_eq_of_key coherent hid (coherent.root_of_candidate candidate) heq⟩
  induction derived with
  | leaf standing => exact stored _ (.leaf standing)
  | @attach _ _ relation _ _ allowed ihbase ihsub =>
    obtain ⟨base, hbase, rfl⟩ := ihbase
    obtain ⟨sub, hsub, rfl⟩ := ihsub
    obtain ⟨id, hid, heq⟩ :=
      stored _ (.attach ((h.attachable_iff fixed hbase hsub relation).2 allowed))
    rw [attach, Route.unfold_extend (h.getElem?_derivations hsub)] at heq
    exact ⟨id, hid, heq⟩

/-- No derivation is stored twice. -/
theorem AllBuilt.tree_injective (h : state.AllBuilt graph options read) (keyed : state.Keyed)
    {id other : RouteId} (hid : id < state.arena.size) (hother : other < state.arena.size)
    (heq : state.tree id = state.tree other) : id = other :=
  h.outline_injective keyed hid hother (congrArg Derivation.outline heq)

end SearchState

namespace Session

variable {session : Session}

/-- The word parts that have been read, the edges between them and the choice about agreement. -/
def premises (session : Session) : Premises :=
  session.search.premises session.graph session.options session.reading.wordParts

/-- The search has tried everything, in whatever order, and dropped nothing. -/
structure Saturated (session : Session) : Prop where
  stage : Stage session
  closed : session.search.Closed session.graph session.options session.reading.wordParts
  uncapped : session.capped = 0

lemma Stage.mem_derivations (h : Stage session) {d : Derivation} :
    d ∈ session.derivations ↔
      ∃ id, id < session.search.arena.size ∧ session.search.tree id = d := by
  rw [Array.mem_iff_getElem?]
  exact exists_congr fun id => h.getElem?_iff

lemma Stage.derivations_unique (h : Stage session) {id other : RouteId} {d : Derivation}
    (hid : session.derivations[id]? = some d) (hother : session.derivations[other]? = some d) :
    id = other := by
  obtain ⟨hlt, heq⟩ := h.getElem?_iff.1 hid
  obtain ⟨hlt', heq'⟩ := h.getElem?_iff.1 hother
  exact h.allBuilt.1.tree_injective h.keyed hlt hlt' (heq.trans heq'.symm)

theorem Saturated.mem_derivations_iff (h : session.Saturated)
    (fixed : Fixed session.graph session.reading.wordParts) {d : Derivation} :
    d ∈ session.derivations ↔ session.premises.Derives d := by
  have built := h.stage.allBuilt.1
  rw [h.stage.mem_derivations]
  constructor
  · rintro ⟨id, hid, rfl⟩
    exact built.derives fixed hid
  · exact built.exists_tree fixed h.stage.coherent.tables h.stage.keyed h.closed h.uncapped

/-- Without free word parts every stored route covers a stretch without a gap, and its derivation can
be generated from the edges. If nothing has been dropped, every derivation that can be generated is
stored exactly once, and any other search that drops nothing finds the same, in whatever order it
tries and however the edges are listed and the features are numbered. -/
theorem derivations_exact (reachable : Reachable session)
    (fixed : Fixed session.graph session.reading.wordParts) :
    (∀ id, id < session.search.arena.size →
      let route := session.search.arena.route id
      (∀ s, s ∈ route.signals ↔ route.span.low ≤ s ∧ s ≤ route.span.high) ∧
        IsLeast {s | s ∈ route.signals} route.span.low ∧
        IsGreatest {s | s ∈ route.signals} route.span.high ∧
        route.span.movers = ∅ ∧ route.span.usedMovers = ∅) ∧
    (∀ d ∈ session.derivations, session.premises.Derives d) ∧
    (session.capped = 0 →
      (∀ d, session.premises.Derives d ↔ ∃! id : RouteId, session.derivations[id]? = some d) ∧
      ∀ {rename : FeatureId → FeatureId} {other : Session}, other.Saturated →
        Fixed other.graph other.reading.wordParts →
        session.premises.Matches rename other.premises →
        ∀ d, d ∈ other.derivations ↔ d ∈ session.derivations) := by
  have stage := reachable.stage
  have built := stage.allBuilt.1
  refine ⟨fun id hid => ?_, fun d hd => ?_, fun uncapped => ?_⟩
  · have contiguous := built.contiguous fixed hid
    exact ⟨contiguous.mem_iff, contiguous.isLeast (built.fits hid),
      contiguous.isGreatest (built.fits hid), contiguous.movers, contiguous.used⟩
  · obtain ⟨id, hid, rfl⟩ := stage.mem_derivations.1 hd
    exact built.derives fixed hid
  · have saturated : session.Saturated := ⟨stage, reachable.closed, uncapped⟩
    refine ⟨fun d => ?_, fun {_ other} hother fixed' matching d => ?_⟩
    · rw [← saturated.mem_derivations_iff fixed, Array.mem_iff_getElem?]
      exact ⟨fun ⟨id, hid⟩ => ⟨id, hid, fun other hother => stage.derivations_unique hother hid⟩,
        fun ⟨id, hid, _⟩ => ⟨id, hid⟩⟩
    · rw [hother.mem_derivations_iff fixed', saturated.mem_derivations_iff fixed,
        matching.derives_iff]

lemma sampleUnder_reachable (policy : Policy) : Reachable ((sampleUnder policy).stepped 2) :=
  (Reachable.start (sampleUnder_started policy)).stepped 2

lemma sampleUnder_fixed (policy : Policy) : Fixed ((sampleUnder policy).stepped 2).graph
    ((sampleUnder policy).stepped 2).reading.wordParts := by
  unfold Fixed
  cases policy <;> decide +kernel

lemma sampleUnder_found : .node ⟨2, 1, 2⟩ none (some (.node ⟨1, 0, 1⟩ none none [])) [] ∈
    ((sampleUnder .moverAware).stepped 2).derivations := by
  have stage := (sampleUnder_reachable .moverAware).stage
  have noun : (0 : RouteId) < ((sampleUnder .moverAware).stepped 2).search.arena.size ∧
      ((sampleUnder .moverAware).stepped 2).search.arena.route 0 = .leaf ⟨1, 0, 1⟩ false := by
    decide +kernel
  have head : (2 : RouteId) < ((sampleUnder .moverAware).stepped 2).search.arena.size ∧
      ((sampleUnder .moverAware).stepped 2).search.arena.route 2 =
        (Route.leaf ⟨2, 1, 2⟩ false).extend 0 (.leaf ⟨1, 0, 1⟩ false) .argument := by
    decide +kernel
  refine stage.mem_derivations.2 ⟨2, head.1, ?_⟩
  rw [stage.allBuilt.1.tree_eq head.1, head.2]
  simp only [Route.extend, Route.leaf, Option.map_none, Option.map_some, List.map_nil,
    stage.allBuilt.1.tree_eq noun.1, noun.2]

lemma sampleUnder_matches : ((sampleUnder .moverAware).stepped 2).premises.Matches id
    ((sampleUnder .strict).stepped 2).premises := by
  have hgraph : ((sampleUnder .strict).stepped 2).graph =
      ((sampleUnder .moverAware).stepped 2).graph := by
    rw [graph_stepped, graph_stepped]
    rfl
  have hread : ((sampleUnder .strict).stepped 2).reading.wordParts =
      ((sampleUnder .moverAware).stepped 2).reading.wordParts := by decide +kernel
  have hparts : ((sampleUnder .strict).stepped 2).search.parts =
      ((sampleUnder .moverAware).stepped 2).search.parts := by decide +kernel
  have hcheck : ((sampleUnder .strict).stepped 2).options.checkAgreement =
      ((sampleUnder .moverAware).stepped 2).options.checkAgreement := by decide +kernel
  have hpremises : ((sampleUnder .strict).stepped 2).premises =
      ((sampleUnder .moverAware).stepped 2).premises := by
    rw [premises, premises, SearchState.premises, SearchState.premises, hgraph, hread, hcheck]
    simp only [SearchState.edges, hparts]
  rw [hpremises]
  exact .refl _

/-- The head with its noun can be generated from the edge between them. It is stored once, and the
strict policy finds it as well. -/
theorem sample_derivations_exact :
    let d : Derivation := .node ⟨2, 1, 2⟩ none (some (.node ⟨1, 0, 1⟩ none none [])) []
    (∃! id : RouteId, ((sampleUnder .moverAware).stepped 2).derivations[id]? = some d) ∧
      d ∈ ((sampleUnder .strict).stepped 2).derivations := by
  intro d
  obtain ⟨-, sound, exact⟩ := derivations_exact (sampleUnder_reachable .moverAware)
    (sampleUnder_fixed .moverAware)
  have uncapped : ((sampleUnder .moverAware).stepped 2).capped = 0 := by decide +kernel
  have saturated : ((sampleUnder .strict).stepped 2).Saturated :=
    ⟨(sampleUnder_reachable .strict).stage, (sampleUnder_reachable .strict).closed,
      by decide +kernel⟩
  obtain ⟨once, independent⟩ := exact uncapped
  exact ⟨(once d).1 (sound d sampleUnder_found),
    (independent saturated (sampleUnder_fixed .strict) sampleUnder_matches d).2 sampleUnder_found⟩

end Session

end MergeGrammar
