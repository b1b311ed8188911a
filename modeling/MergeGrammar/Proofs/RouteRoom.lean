import Mathlib.Data.Finset.Card
import Mathlib.Data.Finset.Range
import MergeGrammar.Proofs.DerivationExactness
import MergeGrammar.Proofs.TableGrowth

/-!
# Room for routes

A search counts the routes of every span and keeps these counts below a limit. Without movers the
span of a route is told by its derivation. So if another search has stored all derivations that can be
generated without reaching a limit, this one does not reach the same limits either.
-/

namespace MergeGrammar

namespace SearchState

variable {graph : Graph} {options : Options} {read : Array WordPart} {state : SearchState}

/-! ### The counts -/

/-- The stored routes that have a span. -/
def routesWith (state : SearchState) (span : Span) : Finset RouteId :=
  (Finset.range state.arena.size).filter fun id => (state.arena.route id).span = span

lemma mem_routesWith {span : Span} {id : RouteId} : id ∈ state.routesWith span ↔
    id < state.arena.size ∧ (state.arena.route id).span = span := by
  rw [routesWith, Finset.mem_filter, Finset.mem_range]

lemma card_routesWith_add (state : SearchState) (route : Route) (span : Span) :
    ((state.add route).routesWith span).card =
      (state.routesWith span).card + if route.span = span then 1 else 0 := by
  have earlier : (Finset.range state.arena.size).filter
      (fun id => ((state.add route).arena.route id).span = span) = state.routesWith span := by
    refine Finset.filter_congr fun id hid => ?_
    rw [arena_add, Arena.route_push_of_lt (Finset.mem_range.1 hid)]
  have fresh : state.arena.size ∉ state.routesWith span := fun hmem =>
    Nat.lt_irrefl _ (mem_routesWith.1 hmem).1
  rw [routesWith, arena_add, Arena.size_push, Finset.range_add_one, Finset.filter_insert, ← arena_add,
    earlier, arena_add, Arena.route_push_size]
  split
  · rw [Finset.card_insert_of_notMem fresh]
  · rw [Nat.add_zero]

lemma profileCount_add (state : SearchState) (route : Route) (span : Span) :
    (state.add route).profileCount span =
      state.profileCount span + if route.span = span then 1 else 0 := by
  rw [profileCount, add, Std.TreeMap.getD_insert]
  by_cases heq : route.span = span
  · rw [heq, if_pos Std.ReflCmp.compare_self, if_pos rfl]
  · have hne : compare route.span.code span.code ≠ .eq := fun h =>
      heq (Span.code_injective (Std.LawfulEqCmp.eq_of_compare h))
    rw [if_neg hne, if_neg heq]
    rfl

/-- The routes of every span are counted, and none has more of them than are allowed. -/
structure Tallied (options : Options) (state : SearchState) : Prop where
  count_eq : ∀ span, state.profileCount span = (state.routesWith span).card
  count_le : ∀ span, state.profileCount span ≤ options.profileCap

namespace Tallied

lemma start (options : Options) : SearchState.start.Tallied options where
  count_eq span := by
    rw [profileCount, SearchState.start, Std.TreeMap.getD_emptyc]
    rfl
  count_le span := by
    rw [profileCount, SearchState.start, Std.TreeMap.getD_emptyc]
    exact Nat.zero_le _

lemma move (h : state.Tallied options) {next : SearchState}
    (move : state.Move graph options read next) : next.Tallied options := by
  cases move with
  | drop => exact ⟨h.count_eq, h.count_le⟩
  | @add route admits =>
    refine ⟨fun span => ?_, fun span => ?_⟩
    · rw [profileCount_add, card_routesWith_add, h.count_eq]
    · have uncrowded := admits.uncrowded
      rw [profileCount_add]
      split
      · next heq =>
        rw [← heq]
        exact uncrowded
      · exact h.count_le span

end Tallied

/-! ### Counterparts in another search -/

/-- Every derivation that can be generated has a stored counterpart of its own, with the same signals
and its root at the same one. -/
structure HousedIn (premises : Premises) (target : SearchState)
    (Stands : Derivation → Derivation → Prop) : Prop where
  stored : ∀ d, premises.Derives d → ∃ id, id < target.arena.size ∧ Stands d (target.tree id)
  unique : ∀ d d' e, premises.Derives d → premises.Derives d' → Stands d e → Stands d' e → d = d'
  signals_eq : ∀ d e, Stands d e → e.signals = d.signals
  root_eq : ∀ d e, Stands d e → e.root.signal = d.root.signal

lemma premises_eq_of_sameEdges {other : SearchState} (h : state.SameEdges other) :
    premises graph options read other = premises graph options read state := by
  rw [premises, premises]
  simp only [h.edges_eq]

section Room

variable {graph' : Graph} {read' : Array WordPart} {target : SearchState}
  (built : state.AllBuilt graph options read) (fixed : Fixed graph read)
  (built' : target.AllBuilt graph' options read') (fixed' : Fixed graph' read')
include built fixed built' fixed'

/-- Without movers the span of a route is told by its derivation. -/
lemma AllBuilt.span_eq_of_tree {id id' : RouteId} (hid : id < state.arena.size)
    (hid' : id' < target.arena.size)
    (signals_eq : (target.tree id').signals = (state.tree id).signals)
    (root_eq : (target.tree id').root.signal = (state.tree id).root.signal) :
    (target.arena.route id').span = (state.arena.route id).span := by
  have contiguous := built.contiguous fixed hid
  have contiguous' := built'.contiguous fixed' hid'
  have least' := built'.isLeast_tree fixed' hid'
  have greatest' := built'.isGreatest_tree fixed' hid'
  rw [signals_eq] at least' greatest'
  have low_eq := least'.unique (built.isLeast_tree fixed hid)
  have high_eq := greatest'.unique (built.isGreatest_tree fixed hid)
  have head_eq : (target.arena.route id').span.head = (state.arena.route id).span.head := by
    rw [(built'.fits hid').head_eq, (built.fits hid).head_eq]
    exact root_eq
  have movers_eq := contiguous'.movers.trans contiguous.movers.symm
  have used_eq := contiguous'.used.trans contiguous.used.symm
  generalize (target.arena.route id').span = span' at *
  generalize (state.arena.route id).span = span at *
  obtain ⟨head, low, high, movers, used⟩ := span
  obtain ⟨head', low', high', movers', used'⟩ := span'
  rw [Span.mk.injEq]
  exact ⟨head_eq, low_eq, high_eq, movers_eq, used_eq⟩

variable {Stands : Derivation → Derivation → Prop} (keyed : state.Keyed)
  (housed : HousedIn (premises graph options read state) target Stands)
include keyed housed

/-- The other search has at least as many routes, in all and of every span. -/
lemma AllBuilt.card_le : state.arena.size ≤ target.arena.size ∧
    ∀ span, (state.routesWith span).card ≤ (target.routesWith span).card := by
  have counterpart : ∀ id, id < state.arena.size →
      ∃ id', id' < target.arena.size ∧ Stands (state.tree id) (target.tree id') :=
    fun id hid => housed.stored _ (built.derives fixed hid)
  choose! house house_lt house_stands using counterpart
  have injective : ∀ id, id < state.arena.size → ∀ other, other < state.arena.size →
      house id = house other → id = other := by
    intro id hid other hother heq
    have stands := house_stands other hother
    rw [← heq] at stands
    exact built.tree_injective keyed hid hother (housed.unique _ _ _ (built.derives fixed hid)
      (built.derives fixed hother) (house_stands id hid) stands)
  constructor
  · rw [← Finset.card_range state.arena.size, ← Finset.card_range target.arena.size]
    refine Finset.card_le_card_of_injOn house (fun id hid => ?_) fun id hid other hother => ?_
    · exact Finset.mem_range.2 (house_lt id (Finset.mem_range.1 hid))
    · exact injective id (Finset.mem_range.1 hid) other (Finset.mem_range.1 hother)
  · intro span
    refine Finset.card_le_card_of_injOn house (fun id hid => ?_) fun id hid other hother => ?_
    · obtain ⟨hlt, rfl⟩ := mem_routesWith.1 hid
      have stands := house_stands id hlt
      exact mem_routesWith.2 ⟨house_lt id hlt, built.span_eq_of_tree fixed built' fixed' hlt
        (house_lt id hlt) (housed.signals_eq _ _ stands) (housed.root_eq _ _ stands)⟩
    · exact injective id (mem_routesWith.1 hid).1 other (mem_routesWith.1 hother).1

/-- Nothing that the other search has had room for is refused. -/
lemma AllBuilt.not_refuses (tallied : state.Tallied options) (tallied' : target.Tallied options)
    (bounded' : target.arena.size ≤ options.maxRoutes) (route : Route) :
    ¬ state.Refuses graph options read route := by
  rintro ⟨candidate, unknown, full⟩
  have same := (state.extends_add route).sameEdges
  have housed_add := housed
  rw [← premises_eq_of_sameEdges same] at housed_add
  obtain ⟨size_le, card_le⟩ :=
    (built.add candidate).card_le fixed built' fixed' (keyed.add unknown) housed_add
  rcases full with full | crowded
  · rw [arena_add, Arena.size_push] at size_le
    exact absurd (size_le.trans bounded') (Nat.not_le_of_lt (Nat.lt_succ_of_le full))
  · have count := card_le route.span
    rw [card_routesWith_add, if_pos rfl, ← tallied.count_eq, ← tallied'.count_eq] at count
    have cap := tallied'.count_le route.span
    omega

end Room

end SearchState

namespace Session

variable {session : Session}

lemma Stage.tallied (h : Stage session) : session.search.Tallied session.options := by
  induction h with
  | start started =>
    obtain ⟨entries, -, rfl⟩ := start_eq_ok started
    exact .start _
  | reset => exact .start _
  | exhaust _ _ ih => exact ih
  | @enter session part _ _ ih =>
    have opened : session.search.openPart.Tallied session.options := ⟨ih.count_eq, ih.count_le⟩
    exact SearchState.joinAll_preserves (P := SearchState.Tallied session.options)
      (fun _ _ hs => ⟨hs.count_eq, hs.count_le⟩) opened
  | move _ move ih => exact ih.move move
  | record _ _ ih => exact ih

lemma capped_enter (session : Session) (part : WordPart) :
    (session.enter part).search.capped = session.search.capped :=
  SearchState.joinAll_preserves (P := fun s => s.capped = session.search.capped)
    (fun _ _ hs => hs) rfl

/-- What has been dropped stays counted. -/
lemma Stage.capped_le (h : Stage session) (tracing : Bool) :
    session.capped ≤ (session.stepTracing tracing).2.capped := by
  cases hread : session.read.1 with
  | none =>
    rw [stepTracing_none hread]
    exact le_rfl
  | some part =>
    obtain ⟨result, -, hstep⟩ := stepTracing_some hread tracing
    rw [hstep, capped, capped, search_entered, ← session.capped_enter part]
    refine (searched_moves h.coherent hread tracing).preserves
      (P := fun s => (session.enter part).search.capped ≤ s.capped) (fun hs move => ?_) le_rfl
    cases move with
    | add => exact hs
    | drop => exact hs.trans (Nat.le_succ _)

/-- A step drops nothing if all that can be generated then has its counterpart in a search with the
same limits. -/
theorem Stage.uncapped_stepTracing (h : Stage session) (uncapped : session.capped = 0)
    {target : Session} (h' : Stage target) (options_eq : target.options = session.options)
    (fixed' : Fixed target.graph target.reading.wordParts) {tracing : Bool}
    (fixed : Fixed session.graph (session.stepTracing tracing).2.reading.wordParts)
    {Stands : Derivation → Derivation → Prop}
    (housed : SearchState.HousedIn (session.stepTracing tracing).2.premises target.search Stands) :
    (session.stepTracing tracing).2.capped = 0 := by
  cases hread : session.read.1 with
  | none =>
    rw [stepTracing_none hread]
    exact uncapped
  | some part =>
    obtain ⟨result, -, hstep⟩ := stepTracing_some hread tracing
    have entered := h.enter hread
    have moves := searched_moves h.coherent hread tracing
    have searched : (session.enter part).search.SameEdges (session.searched tracing part).1.state :=
      moves.extends.sameEdges
    rw [hstep, premises, graph_entered, options_entered, reading_entered, search_entered,
      SearchState.premises_eq_of_sameEdges searched] at housed
    rw [hstep, reading_entered] at fixed
    have built' := h'.allBuilt
    have tallied' := h'.tallied
    rw [options_eq] at built' tallied'
    rw [hstep, capped, search_entered]
    -- The edges stay the same during the step, so the counterparts do for every state it passes.
    have kept := moves.preserves (P := fun s =>
      (s.AllBuilt session.graph session.options (session.enter part).reading.wordParts ∧ s.Keyed ∧
        s.Tallied session.options ∧ (session.enter part).search.SameEdges s) ∧ s.capped = 0)
      (fun hs move => ?_) ⟨⟨entered.allBuilt.1, entered.keyed, entered.tallied, .refl _⟩, ?_⟩
    · exact kept.2
    · obtain ⟨⟨built, keyed, tallied, same⟩, none⟩ := hs
      refine ⟨⟨built.move move, keyed.move move, tallied.move move,
        same.trans move.extends.sameEdges⟩, ?_⟩
      cases move with
      | add => exact none
      | drop refuses =>
        rw [← SearchState.premises_eq_of_sameEdges same] at housed
        exact absurd refuses
          (built.not_refuses fixed built'.1 fixed' keyed housed tallied tallied' built'.2 _)
    · exact (session.capped_enter part).trans uncapped

end Session

end MergeGrammar
