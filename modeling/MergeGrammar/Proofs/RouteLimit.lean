import Mathlib.Data.List.Sort
import MergeGrammar.Proofs.ParallelSearches
import MergeGrammar.Proofs.PolicyAgreement
import MergeGrammar.Proofs.TableGrowth
import MergeGrammar.Proofs.Unfolding

/-!
# The limit on routes

Of two sessions that differ only in their limits on routes, the one with the lower limit stores the
first routes of the other one and has the same edges. Its ranking is that of the other one without
the routes that it has not stored.
-/

namespace MergeGrammar

/-- An arena whose routes are the first ones of another arena. -/
lemma Arena.routes_eq_take {arena other : Arena} {limit : Nat}
    (size_eq : arena.size = min limit other.size)
    (route_eq : ∀ id, id < arena.size → other.route id = arena.route id) :
    arena.routes.toList = other.routes.toList.take (min limit other.size) := by
  have hle : arena.size ≤ other.size := size_eq.le.trans (Nat.min_le_right _ _)
  rw [← size_eq]
  refine List.ext_getElem ?_ fun id hid _ => ?_
  · rw [List.length_take, Array.length_toList, Array.length_toList]
    exact (Nat.min_eq_left hle).symm
  · have hlt : id < arena.routes.size := by simpa using hid
    have hlt' : id < other.routes.size := Nat.lt_of_lt_of_le hlt hle
    have same := route_eq id hlt
    rw [route, route, Array.getD_eq_getD_getElem?, Array.getD_eq_getD_getElem?,
      Array.getElem?_eq_getElem hlt, Array.getElem?_eq_getElem hlt'] at same
    simpa using same.symm

namespace Session

/-- Two sessions that differ only in their limits. The first one has the first routes of the second
one, and all of them if it has not reached its limit. -/
structure Abridges (s t : Session) : Prop where
  graph_eq : t.graph = s.graph
  options_eq : t.options = { s.options with maxRoutes := t.options.maxRoutes }
  maxRoutes_le : s.options.maxRoutes ≤ t.options.maxRoutes
  reading_eq : t.reading = s.reading
  licensing_eq : t.licensing = s.licensing
  edges : s.search.SameEdges t.search
  routes : t.search = s.search ∧ (t.options.maxRoutes = s.options.maxRoutes ∨
      s.search.arena.size < s.options.maxRoutes) ∨
    s.options.maxRoutes < t.options.maxRoutes ∧
      s.search.Cut s.options.maxRoutes t.search

namespace Abridges

variable {s t : Session} (h : s.Abridges t)
include h

lemma read_eq : t.read = s.read := by
  rw [Session.read, Session.read, h.reading_eq, h.graph_eq]

lemma licences_eq (part : WordPart) : t.licences part = s.licences part := by
  rw [licences, licences, h.licensing_eq, h.graph_eq]

lemma within (tracing : Bool) (read : Array WordPart) :
    (s.setting tracing).Within read (t.setting tracing) where
  shares := by
    change s.graph.Shares t.graph read
    rw [h.graph_eq]
    exact .refl _ _
  policy_eq := by
    change t.options.policy = s.options.policy
    rw [h.options_eq]
  profileCap_eq := by
    change t.options.profileCap = s.options.profileCap
    rw [h.options_eq]
  checkAgreement_eq := by
    change t.options.checkAgreement = s.options.checkAgreement
    rw [h.options_eq]
  tracing_eq := rfl
  maxRoutes_le := h.maxRoutes_le

section Entering

variable (stage : Stage s) (stage' : Stage t) {part : WordPart} (hread : s.read.1 = some part)
  (tracing : Bool)
include stage stage' hread

lemma enter_trails : (Climb.start (s.enter part).search).Trails (s.setting tracing)
    (t.setting tracing) (s.enter part).reading.wordParts (Climb.start (t.enter part).search) := by
  have hread' : t.read.1 = some part := by rw [h.read_eq, hread]
  have entered := stage.enter hread
  have entered' := stage'.enter hread'
  have arena_eq : (s.enter part).search.arena = s.search.arena :=
    s.search.openPart.arena_joinAll _
  have arena_eq' : (t.enter part).search.arena = t.search.arena :=
    t.search.openPart.arena_joinAll _
  rcases h.routes with ⟨search_eq, room⟩ | ⟨below, cut⟩
  · have enter_eq : (t.enter part).search = (s.enter part).search := by
      rw [Session.enter, Session.enter, h.licences_eq, search_eq]
    rw [enter_eq]
    refine .same ⟨⟨entered.coherent.tables, entered.allBuilt.1⟩, entered.allBuilt.2, ?_⟩
    rw [← arena_eq] at room
    exact room
  · have read_eq : (t.enter part).reading.wordParts = (s.enter part).reading.wordParts :=
      congrArg (fun read => read.2.wordParts) h.read_eq
    have coherent' := entered'.coherent.tables
    rw [read_eq] at coherent'
    refine .cut below entered.coherent.tables coherent' ?_
    exact ⟨arena_eq ▸ cut.size_eq, arena_eq' ▸ cut.le_size, arena_eq ▸ arena_eq' ▸ cut.route_eq⟩

lemma searched_trails : (s.searched tracing part).1.Trails (s.setting tracing) (t.setting tracing)
    (s.enter part).reading.wordParts (t.searched tracing part).1 := by
  have within := h.within tracing (s.enter part).reading.wordParts
  have seeded := Climb.seed_trails within (h.enter_trails stage stage' hread tracing)
    (standsIn_enter stage.coherent hread)
  exact (Climb.settle_trails within seeded).1

end Entering

/-- A step keeps the routes of one session the first ones of the other. -/
theorem stepTracing (stage : Stage s) (stage' : Stage t) (tracing : Bool) :
    (s.stepTracing tracing).2.Abridges (t.stepTracing tracing).2 := by
  cases hread : s.read.1 with
  | none =>
    have hread' : t.read.1 = none := by rw [h.read_eq, hread]
    rw [stepTracing_none hread, stepTracing_none hread']
    exact { h with reading_eq := congrArg Prod.snd h.read_eq }
  | some part =>
    have hread' : t.read.1 = some part := by rw [h.read_eq, hread]
    obtain ⟨result, -, hstep⟩ := stepTracing_some hread tracing
    obtain ⟨result', -, hstep'⟩ := stepTracing_some hread' tracing
    have moves := searched_moves stage.coherent hread tracing
    have moves' := searched_moves stage'.coherent hread' tracing
    have entered : (s.enter part).search.SameEdges (t.enter part).search := by
      rw [enter, enter, h.licences_eq]
      exact (h.edges.openPart.joinAll _).1
    have trails := h.searched_trails stage stage' hread tracing
    rw [hstep, hstep']
    refine ⟨h.graph_eq, h.options_eq, h.maxRoutes_le, congrArg Prod.snd h.read_eq, ?_, ?_, ?_⟩
    · change (t.licensing.activate t.graph part).1 = (s.licensing.activate s.graph part).1
      rw [h.licensing_eq, h.graph_eq]
    · rw [search_entered, search_entered]
      exact moves.extends.sameEdges.symm.trans (entered.trans moves'.extends.sameEdges)
    · rw [search_entered, search_entered, options_entered, options_entered]
      generalize (t.searched tracing part).1 = next' at trails
      cases trails with
      | same joint => exact Or.inl ⟨rfl, joint.room⟩
      | cut below _ _ cut => exact Or.inr ⟨below, cut⟩

/-! ### Routes, derivations and rankings -/

lemma size_le : s.search.arena.size ≤ t.search.arena.size := by
  rcases h.routes with ⟨search_eq, -⟩ | ⟨-, cut⟩
  · rw [search_eq]
  · exact cut.size_eq.le.trans cut.le_size

lemma route_eq {id : RouteId} (hid : id < s.search.arena.size) :
    t.search.arena.route id = s.search.arena.route id := by
  rcases h.routes with ⟨search_eq, -⟩ | ⟨-, cut⟩
  · rw [search_eq]
  · exact cut.route_eq id (cut.size_eq ▸ hid)

lemma size_eq (stage : Stage s) :
    s.search.arena.size = min s.options.maxRoutes t.search.arena.size := by
  rcases h.routes with ⟨search_eq, -⟩ | ⟨-, cut⟩
  · rw [search_eq, Nat.min_eq_right stage.allBuilt.2]
  · rw [Nat.min_eq_left cut.le_size, cut.size_eq]

lemma derivations_eq (stage : Stage s) (stage' : Stage t) {id : RouteId}
    (hid : id < s.search.arena.size) : t.derivations[id]? = s.derivations[id]? := by
  have built := stage.allBuilt.1
  have built' := stage'.allBuilt.1
  induction id using Nat.strong_induction_on with
  | _ id ih =>
    rw [derivations, derivations, built.getElem?_derivations hid,
      built'.getElem?_derivations (hid.trans_le h.size_le), h.route_eq hid]
    refine congrArg some (Route.unfold_congr fun other hother => ?_)
    have hlt := built.component_lt hid hother
    exact ih other hlt (hlt.trans hid)

lemma rankedRoute_eq (stage : Stage s) (stage' : Stage t) {id : RouteId}
    (hid : id < s.search.arena.size) :
    t.rankedRoute t.derivations id = s.rankedRoute s.derivations id := by
  rw [rankedRoute, rankedRoute, h.route_eq hid, Array.getD_eq_getD_getElem?,
    Array.getD_eq_getD_getElem?, h.derivations_eq stage stage' hid]

lemma completeRoutes_sublist : s.completeRoutes.Sublist t.completeRoutes := by
  obtain ⟨k, hk⟩ := Nat.exists_eq_add_of_le h.size_le
  have covers_eq : ∀ id ∈ List.range s.search.arena.size,
      s.covers (s.search.arena.route id) = t.covers (t.search.arena.route id) := by
    intro id hid
    rw [h.route_eq (List.mem_range.1 hid), covers, covers, consumed, consumed, h.reading_eq]
  rw [completeRoutes, completeRoutes, List.filter_congr covers_eq, hk, List.range_add]
  exact (List.sublist_append_left _ _).filter _

end Abridges

/-- The order in which the routes of a session are ranked. -/
def ranksBefore (session : Session) (id other : RouteId) : Bool :=
  (compare (session.rankedRoute session.derivations id).rank
    (session.rankedRoute session.derivations other).rank).isLE

lemma ranksBefore_trans (session : Session) (a b c : RouteId) (hab : session.ranksBefore a b = true)
    (hbc : session.ranksBefore b c = true) : session.ranksBefore a c = true :=
  Std.TransCmp.isLE_trans hab hbc

lemma ranksBefore_total (session : Session) (a b : RouteId) :
    (session.ranksBefore a b || session.ranksBefore b a) = true := by
  have swapped : compare (session.rankedRoute session.derivations b).rank
      (session.rankedRoute session.derivations a).rank =
        (compare (session.rankedRoute session.derivations a).rank
          (session.rankedRoute session.derivations b).rank).swap := Std.OrientedCmp.eq_swap
  rw [ranksBefore, ranksBefore, swapped]
  cases compare (session.rankedRoute session.derivations a).rank
    (session.rankedRoute session.derivations b).rank <;> rfl

/-- No two routes have the same rank. -/
instance ranksBefore_antisymm (session : Session) :
    Std.Antisymm fun a b : RouteId => session.ranksBefore a b = true where
  antisymm a b hab hba := by
    have same := Std.LawfulEqOrd.eq_of_compare (Std.OrientedCmp.isLE_antisymm hab hba)
    simp only [RankedRoute.rank, rankedRoute, List.cons.injEq, and_true] at same
    exact Int.ofNat_inj.1 same.2.2.2.2

/-- The complete routes, best first. -/
def ranking (session : Session) : List RouteId :=
  session.completeRoutes.mergeSort session.ranksBefore

lemma ranking_perm (session : Session) : session.ranking.Perm session.completeRoutes :=
  List.mergeSort_perm _ _

lemma ranking_pairwise (session : Session) :
    session.ranking.Pairwise fun a b => session.ranksBefore a b = true :=
  List.pairwise_mergeSort session.ranksBefore_trans session.ranksBefore_total _

lemma bestRoutes_eq (session : Session) (complete : session.isComplete = true) :
    session.bestRoutes = .ok (session.ranking.map (session.rankedRoute session.derivations)) := by
  have sorted : session.ranking.map (session.rankedRoute session.derivations) =
      (session.completeRoutes.map (session.rankedRoute session.derivations)).mergeSort
        fun a b => (compare a.rank b.rank).isLE := List.map_mergeSort fun _ _ _ _ => rfl
  rw [bestRoutes, if_pos complete, sorted]

namespace Abridges

variable {s t : Session} (h : s.Abridges t) (stage : Stage s) (stage' : Stage t)
include h stage stage'

lemma rankedRoute_eq_of_ranking {id : RouteId} (hid : id ∈ s.ranking) :
    t.rankedRoute t.derivations id = s.rankedRoute s.derivations id := by
  have complete := s.ranking_perm.mem_iff.1 hid
  exact h.rankedRoute_eq stage stage' (List.mem_range.1 (List.mem_filter.1 complete).1)

/-- Both rankings are sorted, and the order of two routes is the same in both sessions. -/
lemma ranking_sublist : s.ranking.Sublist t.ranking := by
  have subperm : s.ranking.Subperm t.ranking :=
    s.ranking_perm.subperm.trans
      (h.completeRoutes_sublist.subperm.trans t.ranking_perm.symm.subperm)
  have pairwise : s.ranking.Pairwise fun a b => t.ranksBefore a b = true := by
    refine s.ranking_pairwise.imp_of_mem fun ha hb hab => ?_
    rw [ranksBefore, h.rankedRoute_eq_of_ranking stage stage' ha,
      h.rankedRoute_eq_of_ranking stage stage' hb]
    exact hab
  exact List.sublist_of_subperm_of_pairwise subperm pairwise t.ranking_pairwise

lemma bestRoutes_sublist (complete : s.isComplete = true) :
    ∃ best all, s.bestRoutes = .ok best ∧ t.bestRoutes = .ok all ∧ best.Sublist all := by
  have complete' : t.isComplete = true := by
    rw [isComplete, progress, h.reading_eq, h.graph_eq]
    exact complete
  refine ⟨_, _, s.bestRoutes_eq complete, t.bestRoutes_eq complete', ?_⟩
  have ranked : s.ranking.map (s.rankedRoute s.derivations) =
      s.ranking.map (t.rankedRoute t.derivations) :=
    List.map_congr_left fun id hid => (h.rankedRoute_eq_of_ranking stage stage' hid).symm
  rw [ranked]
  exact (h.ranking_sublist stage stage').map _

end Abridges

/-! ### From the start -/

variable {graph : Graph} {tokens : List String} {options : Options} {s t : Session}

lemma abridges_of_start {limit limit' : Nat} (hle : limit ≤ limit')
    (started : Session.start graph tokens { options with maxRoutes := limit } = .ok s)
    (started' : Session.start graph tokens { options with maxRoutes := limit' } = .ok t) :
    s.Abridges t := by
  obtain ⟨entries, found, rfl⟩ := start_eq_ok started
  obtain ⟨entries', found', rfl⟩ := start_eq_ok started'
  rw [found, Except.ok.injEq] at found'
  subst found'
  refine ⟨rfl, rfl, hle, rfl, rfl, .refl _, ?_⟩
  change SearchState.start = SearchState.start ∧ (limit' = limit ∨ 0 < limit) ∨
    limit < limit' ∧ SearchState.start.Cut limit SearchState.start
  by_cases hroom : limit' = limit ∨ 0 < limit
  · exact Or.inl ⟨rfl, hroom⟩
  · have hzero : limit = 0 := by omega
    subst hzero
    exact Or.inr ⟨by omega, rfl, Nat.le_refl _, fun _ _ => rfl⟩

lemma Abridges.stepped (h : s.Abridges t) (reachable : Reachable s) (reachable' : Reachable t)
    (n : Nat) : (s.stepped n).Abridges (t.stepped n) := by
  induction n with
  | zero => exact h
  | succ n ih =>
    exact ih.stepTracing (reachable.stepped n).stage (reachable'.stepped n).stage false

/-- Two sessions that differ only in their limits on routes, after the same number of steps: the one
with the lower limit has stored the first routes of the other one, as many as its limit allows, their
edges are the same, and when the sentence has been read its ranking is part of the other one. -/
theorem limit_truncates {limit limit' : Nat} (hle : limit ≤ limit')
    (started : Session.start graph tokens { options with maxRoutes := limit } = .ok s)
    (started' : Session.start graph tokens { options with maxRoutes := limit' } = .ok t) (n : Nat) :
    let lower := s.stepped n
    let higher := t.stepped n
    lower.search.arena.routes.toList =
        higher.search.arena.routes.toList.take (min limit higher.search.arena.size) ∧
      lower.mergeEdges = higher.mergeEdges ∧ lower.adjunctionEdges = higher.adjunctionEdges ∧
      (lower.isComplete = true → ∃ best all, lower.bestRoutes = .ok best ∧
        higher.bestRoutes = .ok all ∧ best.Sublist all) := by
  have reachable := Reachable.start started
  have reachable' := Reachable.start started'
  have abridges := (abridges_of_start hle started started').stepped reachable reachable' n
  have stage := (reachable.stepped n).stage
  have stage' := (reachable'.stepped n).stage
  have limit_eq : (s.stepped n).options.maxRoutes = limit := by
    rw [options_stepped, (options_of_start started).2]
  refine ⟨?_, (abridges.edges.edges_eq .merge).symm, (abridges.edges.edges_eq .pairMerge).symm,
    abridges.bestRoutes_sublist stage stage'⟩
  have size_eq := abridges.size_eq stage
  rw [limit_eq] at size_eq
  exact Arena.routes_eq_take size_eq fun id => abridges.route_eq

/-- Two words each of which takes the other one. -/
def coupledEntries : List Entry :=
  [⟨"n", [⟨[], [⟨some .select, "V", []⟩], [⟨none, "N", []⟩]⟩]⟩,
    ⟨"v", [⟨[], [⟨some .select, "N", []⟩], [⟨none, "V", []⟩]⟩]⟩]

/-- The session of both words under a limit. -/
def coupled (limit : Nat) : Session :=
  ofEntries (.ofEntries coupledEntries) { Options.standard with maxRoutes := limit } [0, 1]

lemma coupled_started (limit : Nat) :
    Session.start (.ofEntries coupledEntries) ["n", "v"]
      { Options.standard with maxRoutes := limit } = .ok (coupled limit) := by
  have found : lookupAll (.ofEntries coupledEntries) ["n", "v"] = .ok [0, 1] := by decide +kernel
  rw [Session.start, found]
  rfl

/-- Of the two derivations of the sentence three routes leave room for the first one only. -/
theorem coupled_limit_truncates :
    ((coupled 3).stepped 2).completeRoutes = [2] ∧ ((coupled 10).stepped 2).completeRoutes = [2, 3] ∧
      ((coupled 3).stepped 2).search.arena.routes.toList =
        ((coupled 10).stepped 2).search.arena.routes.toList.take 3 ∧
      ∃ best all, ((coupled 3).stepped 2).bestRoutes = .ok best ∧
        ((coupled 10).stepped 2).bestRoutes = .ok all ∧ best.Sublist all := by
  obtain ⟨routes_eq, -, -, ranked⟩ :=
    limit_truncates (by decide) (coupled_started 3) (coupled_started 10) 2
  have size_eq : ((coupled 10).stepped 2).search.arena.size = 4 := by decide +kernel
  rw [size_eq] at routes_eq
  exact ⟨by decide +kernel, by decide +kernel, routes_eq, ranked (by decide +kernel)⟩

end Session

end MergeGrammar
