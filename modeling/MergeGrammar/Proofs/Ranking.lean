import Mathlib.Data.Prod.Lex
import MergeGrammar.Proofs.DerivationSoundness
import MergeGrammar.Proofs.RouteLimit
import MergeGrammar.Proofs.TokenExpansion

/-!
# The ranking of complete routes

Whether a route is complete is decided by the number of its signals alone. The signals of a route are
word parts that have been read, so as many signals as word parts are all of them. Hence all complete
routes are of one size and one weight, and neither says anything in their ranking: it goes by cost,
then by the root and then by the order in which the routes were found.
-/

namespace MergeGrammar

namespace SignalSet

lemma isEmpty_iff {set : SignalSet} : set.isEmpty = true ↔ set = ∅ := by
  rw [isEmpty, List.isEmpty_iff]
  exact ⟨fun h => SignalSet.ext fun s => by rw [← mem_toList, h]; rfl, fun h => h ▸ rfl⟩

/-- Signals in a range are as many as the range has only if they are all of it. -/
lemma size_eq_iff {set : SignalSet} {n : Nat} (range : ∀ s ∈ set, 1 ≤ s ∧ s ≤ n) :
    set.size = n ↔ ∀ s, s ∈ set ↔ 1 ≤ s ∧ s ≤ n := by
  have mem_range : ∀ s, s ∈ List.range' 1 n ↔ 1 ≤ s ∧ s ≤ n := by
    intro s
    rw [List.mem_range'_1]
    omega
  have subperm : set.toList.Subperm (List.range' 1 n) :=
    List.subperm_of_subset set.nodup_toList fun s hs => (mem_range s).2 (range s hs)
  constructor
  · intro size_eq s
    have perm := subperm.perm_of_length_le (List.length_range'.trans size_eq.symm).le
    rw [← mem_range, ← perm.mem_iff]
    rfl
  · intro hmem
    have perm : set.toList.Perm (List.range' 1 n) :=
      (List.perm_ext_iff_of_nodup set.nodup_toList List.nodup_range').2 fun s =>
        (hmem s).trans (mem_range s).symm
    exact perm.length_eq.trans List.length_range'

end SignalSet

namespace RankedRoute

/-- What the place of a route in a ranking goes by. -/
def place (ranked : RankedRoute) : Int ×ₗ Nat ×ₗ Nat :=
  toLex (totalOrder ranked.cost, toLex (ranked.root, ranked.id))

lemma place_lt_iff {a b : RankedRoute} : a.place < b.place ↔
    totalOrder a.cost < totalOrder b.cost ∨ totalOrder a.cost = totalOrder b.cost ∧
      (a.root < b.root ∨ a.root = b.root ∧ a.id < b.id) := by
  rw [place, place, Prod.Lex.toLex_lt_toLex, Prod.Lex.toLex_lt_toLex]

/-- Of two routes of one size and one weight the one with the earlier place is ranked first. -/
lemma compare_rank_iff {a b : RankedRoute} (size_eq : a.size = b.size)
    (weight_eq : a.weight = b.weight) : compare a.rank b.rank = .lt ↔ a.place < b.place := by
  rw [place_lt_iff, rank, rank, size_eq, weight_eq, List.compare_eq_compareLex]
  simp only [List.compareLex_cons_cons, Ordering.then_eq_lt, Std.ReflCmp.compare_self,
    Std.compare_eq_lt, Std.compare_eq_iff_eq, reduceCtorEq, false_or, true_and, and_false, or_false,
    Int.ofNat_lt, Int.ofNat_inj]

end RankedRoute

namespace Session

variable {session : Session}

/-- A stored route that has no movers and whose signals are exactly those that have been read. -/
structure Whole (session : Session) (id : RouteId) : Prop where
  stored : id < session.routeCount
  mem_signals_iff : ∀ s, s ∈ (session.search.arena.route id).signals ↔ 1 ≤ s ∧ s ≤ session.consumed
  movers_eq : (session.search.arena.route id).span.movers = ∅

/-- The number of its signals tells whether a route covers what has been read. -/
lemma Stage.mem_completeRoutes (h : Stage session) {id : RouteId} :
    id ∈ session.completeRoutes ↔ session.Whole id := by
  have size_iff : id < session.routeCount →
      ((session.search.arena.route id).size = session.consumed ↔
        ∀ s, s ∈ (session.search.arena.route id).signals ↔ 1 ≤ s ∧ s ≤ session.consumed) :=
    fun hid => SignalSet.size_eq_iff fun s hs => h.allBuilt.1.signals_range hid hs
  rw [completeRoutes, List.mem_filter, List.mem_range, covers, Bool.and_eq_true, beq_iff_eq,
    SignalSet.isEmpty_iff]
  constructor
  · rintro ⟨hid, hsize, movers⟩
    exact ⟨hid, (size_iff hid).1 hsize, movers⟩
  · rintro ⟨hid, hsignals, movers⟩
    exact ⟨hid, (size_iff hid).2 hsignals, movers⟩

lemma Stage.size_of_complete (h : Stage session) {id : RouteId} (hid : id ∈ session.completeRoutes) :
    (session.search.arena.route id).size = session.consumed ∧
      (session.search.arena.route id).weight + 1 = session.consumed := by
  have whole := h.mem_completeRoutes.1 hid
  have size_eq : (session.search.arena.route id).size = session.consumed :=
    (SignalSet.size_eq_iff fun s hs => h.allBuilt.1.signals_range whole.stored hs).2
      whole.mem_signals_iff
  exact ⟨size_eq, (h.allBuilt.1.covers whole.stored).size.symm.trans size_eq⟩

/-- A ranking has every complete route once and is ordered by cost, root and number. The routes do
not differ in size or weight, so the order by which they are sorted goes by nothing else. -/
structure Ranks (session : Session) (best : List RankedRoute) : Prop where
  nodup : (best.map RankedRoute.id).Nodup
  mem_iff : ∀ id, id ∈ best.map RankedRoute.id ↔ session.Whole id
  root_eq : ∀ ranked ∈ best, ranked.root = (session.search.arena.route ranked.id).root.signal
  cost_eq : ∀ ranked ∈ best, ∃ d, session.derivations[ranked.id]? = some d ∧ ranked.cost = d.cost
  size_eq : ∀ ranked ∈ best, ranked.size = session.consumed
  weight_eq : ∀ ranked ∈ best, ranked.weight + 1 = session.consumed
  ordered : best.Pairwise fun a b => a.place < b.place
  compare_iff : ∀ a ∈ best, ∀ b ∈ best, compare a.rank b.rank = .lt ↔ a.place < b.place

lemma nodup_ranking (session : Session) : session.ranking.Nodup :=
  session.ranking_perm.nodup_iff.2 (List.nodup_range.filter _)

/-- No two complete routes have the same rank, so each one comes strictly before those behind it. -/
lemma ranking_increasing (session : Session) : session.ranking.Pairwise fun a b =>
    compare (session.rankedRoute session.derivations a).rank
      (session.rankedRoute session.derivations b).rank = .lt := by
  refine (session.ranking_pairwise.and session.nodup_ranking).imp fun {a b} ⟨before, hne⟩ => ?_
  cases hcompare : compare (session.rankedRoute session.derivations a).rank
      (session.rankedRoute session.derivations b).rank with
  | lt => rfl
  | eq =>
    have after : session.ranksBefore b a = true := by
      rw [ranksBefore, Std.OrientedCmp.eq_symm hcompare]
      rfl
    exact absurd ((ranksBefore_antisymm session).antisymm a b before after) hne
  | gt =>
    rw [ranksBefore, hcompare] at before
    cases before

/-- What is ranked, best first. -/
def ranked (session : Session) : List RankedRoute :=
  session.ranking.map (session.rankedRoute session.derivations)

lemma ids_ranked (session : Session) : session.ranked.map RankedRoute.id = session.ranking := by
  rw [ranked, List.map_map]
  exact List.map_id _

section Ranked

variable (h : Stage session)
include h

lemma Stage.mem_ranking {id : RouteId} : id ∈ session.ranking ↔ session.Whole id :=
  session.ranking_perm.mem_iff.trans h.mem_completeRoutes

lemma Stage.size_of_ranked {route : RankedRoute} (hroute : route ∈ session.ranked) :
    route.size = session.consumed ∧ route.weight + 1 = session.consumed := by
  obtain ⟨id, hid, rfl⟩ := List.mem_map.1 hroute
  exact h.size_of_complete (session.ranking_perm.mem_iff.1 hid)

lemma Stage.compare_ranked_iff {a b : RankedRoute} (ha : a ∈ session.ranked)
    (hb : b ∈ session.ranked) : compare a.rank b.rank = .lt ↔ a.place < b.place := by
  obtain ⟨size_eq, weight_eq⟩ := h.size_of_ranked ha
  obtain ⟨size_eq', weight_eq'⟩ := h.size_of_ranked hb
  exact RankedRoute.compare_rank_iff (size_eq.trans size_eq'.symm)
    (Nat.succ.inj (weight_eq.trans weight_eq'.symm))

lemma Stage.cost_of_ranked {route : RankedRoute} (hroute : route ∈ session.ranked) :
    ∃ d, session.derivations[route.id]? = some d ∧ route.cost = d.cost := by
  obtain ⟨id, hid, rfl⟩ := List.mem_map.1 hroute
  have found := h.allBuilt.1.getElem?_derivations (h.mem_ranking.1 hid).stored
  refine ⟨_, found, ?_⟩
  rw [rankedRoute, Array.getD_eq_getD_getElem?, derivations, found, Option.getD_some]

lemma Stage.ranks : session.Ranks session.ranked where
  nodup := by
    rw [ids_ranked]
    exact session.nodup_ranking
  mem_iff id := by rw [ids_ranked, h.mem_ranking]
  root_eq route hroute := by
    obtain ⟨id, -, rfl⟩ := List.mem_map.1 hroute
    rfl
  cost_eq _ := h.cost_of_ranked
  size_eq _ hroute := (h.size_of_ranked hroute).1
  weight_eq _ hroute := (h.size_of_ranked hroute).2
  ordered := by
    refine List.pairwise_map.2 (session.ranking_increasing.imp_of_mem fun ha hb hlt => ?_)
    exact (h.compare_ranked_iff (List.mem_map_of_mem ha) (List.mem_map_of_mem hb)).1 hlt
  compare_iff _ ha _ hb := h.compare_ranked_iff ha hb

end Ranked

/-- The complete routes of a session are those with exactly the signals that have been read and
without movers. When the sentence has been read they are ranked by cost, root and number, each of
them once, and the ranking is empty only if there are none. Before, the ranking fails and tells how
many word parts of how many have been read. -/
theorem complete_ranked (reachable : Reachable session) :
    (∀ id, id ∈ session.completeRoutes ↔ session.Whole id) ∧
      (∀ id ∈ session.completeRoutes, (session.search.arena.route id).size = session.consumed ∧
        (session.search.arena.route id).weight + 1 = session.consumed) ∧
      (session.isComplete = true → ∃ best, session.bestRoutes = .ok best ∧ session.Ranks best ∧
        (best = [] ↔ ∀ id, ¬ session.Whole id)) ∧
      (session.isComplete = false → session.bestRoutes = .error
        (.incomplete session.consumed (Reading.expansion session.graph session.reading.tokens))) := by
  have stage := reachable.stage
  refine ⟨fun _ => stage.mem_completeRoutes, fun _ => stage.size_of_complete, fun complete => ?_,
    fun incomplete => ?_⟩
  · have ranks := stage.ranks
    refine ⟨_, session.bestRoutes_eq complete, ranks, ?_⟩
    rw [← List.map_eq_nil_iff (f := RankedRoute.id), List.eq_nil_iff_forall_not_mem]
    exact forall_congr' fun id => not_congr (ranks.mem_iff id)
  · rw [bestRoutes, if_neg (by rw [incomplete]; exact Bool.false_ne_true), signalCount,
      Reading.signalCount_eq]

/-- Both derivations of the coupled words are ranked when both have been read, and none before. -/
theorem coupled_ranked : ((coupled 10).stepped 1).bestRoutes = .error (.incomplete 1 2) ∧
    ∃ best, ((coupled 10).stepped 2).bestRoutes = .ok best ∧
      (best.map RankedRoute.id).Perm [2, 3] ∧ best.Pairwise fun a b => a.place < b.place := by
  have reachable := Reachable.start (coupled_started 10)
  obtain ⟨-, -, -, incomplete⟩ := complete_ranked (reachable.stepped 1)
  obtain ⟨complete_iff, -, complete, -⟩ := complete_ranked (reachable.stepped 2)
  obtain ⟨best, hbest, ranks, -⟩ := complete (by decide +kernel)
  have routes_eq : ((coupled 10).stepped 2).completeRoutes = [2, 3] := by decide +kernel
  refine ⟨incomplete (by decide +kernel), best, hbest, ?_, ranks.ordered⟩
  refine (List.perm_ext_iff_of_nodup ranks.nodup (by decide)).2 fun id => ?_
  rw [ranks.mem_iff, ← complete_iff, routes_eq]

end Session

end MergeGrammar
