import MergeGrammar.Proofs.Outlines
import MergeGrammar.Proofs.SearchClosure
import MergeGrammar.Proofs.SearchRuns

/-!
# Termination of the search

Every search has a run, whatever the limits are. A route that is stored while another one climbs has
all of its signals and at least one more, so climbs nest no deeper than there are word parts. A list
of routes ends, as no outline is stored twice and there are finitely many. Each pass before the last
one stores a route, so there is one more of them than the routes that they store at most.
-/

namespace MergeGrammar

namespace SignalSet

instance : HasSSubset SignalSet := ⟨fun set other => (∀ s ∈ set, s ∈ other) ∧ ∃ s ∈ other, s ∉ set⟩

lemma ssubset_iff {set other : SignalSet} :
    set ⊂ other ↔ (∀ s ∈ set, s ∈ other) ∧ ∃ s ∈ other, s ∉ set := Iff.rfl

lemma size_lt_of_ssubset {set other : SignalSet} (h : set ⊂ other) : set.size < other.size := by
  obtain ⟨hsub, s, hs, hnew⟩ := h
  have nodup : (s :: set.toList).Nodup := List.nodup_cons.2 ⟨hnew, nodup_toList set⟩
  have hle := List.Nodup.length_le_of_subset nodup (List.cons_subset.2 ⟨hs, hsub⟩)
  rwa [List.length_cons] at hle

lemma empty_ssubset_of_mem {set : SignalSet} {s : Signal} (h : s ∈ set) : ∅ ⊂ set :=
  ⟨fun x hx => absurd hx (not_mem_empty x), s, h, not_mem_empty s⟩

end SignalSet

namespace SearchState

lemma part?_eq_part {state : SearchState} {signal : Nat} (hpos : 0 < signal)
    (hle : signal ≤ state.parts.size) : state.part? signal = some (state.part signal) := by
  have hlt : signal - 1 < state.parts.size := by omega
  rw [SearchState.part?, if_neg hpos.ne', SearchState.part_eq, Array.getElem?_eq_getElem hlt,
    Option.getD_some]

end SearchState

/-! ### Chains of climbs -/

namespace CallTree

/-- Along every chain of a call tree the signals grow, and they contain those given. -/
def Widens (size : Nat) (outer : SignalSet) (tree : CallTree) : Prop :=
  ∀ chain, tree.Chain chain → (∀ route ∈ chain.head?, outer ⊂ route.signals) ∧
    chain.IsChain (fun route next => route.signals ⊂ next.signals) ∧
    outer.size + chain.length ≤ size

variable {size : Nat} {outer : SignalSet}

lemma widens_node {route : Route} {nested : List CallTree} (wider : outer ⊂ route.signals)
    (hsize : route.size ≤ size) (hnested : ∀ tree ∈ nested, tree.Widens size route.signals) :
    (node route nested).Widens size outer := by
  have hlt := SignalSet.size_lt_of_ssubset wider
  rw [Route.size] at hsize
  intro chain hchain
  cases hchain with
  | last =>
    refine ⟨fun first hfirst => ?_, .singleton route, by rw [List.length_singleton]; omega⟩
    rw [List.head?_cons, Option.mem_some_iff] at hfirst
    exact hfirst ▸ wider
  | deeper mem rest =>
    obtain ⟨hhead, hrest, hle⟩ := hnested _ mem _ rest
    refine ⟨fun first hfirst => ?_, List.isChain_cons.2 ⟨hhead, hrest⟩,
      by rw [List.length_cons]; omega⟩
    rw [List.head?_cons, Option.mem_some_iff] at hfirst
    exact hfirst ▸ wider

lemma Widens.of_empty {tree : CallTree} (h : tree.Widens size outer) : tree.Widens size ∅ := by
  intro chain hchain
  obtain ⟨hhead, hrest, hle⟩ := h chain hchain
  refine ⟨fun first hfirst => ?_, hrest, ?_⟩
  · obtain ⟨-, s, hs, -⟩ := hhead first hfirst
    exact SignalSet.empty_ssubset_of_mem hs
  · have hempty : (∅ : SignalSet).size = 0 := rfl
    omega

end CallTree

namespace Climb

variable {setting : Setting} {read : Array WordPart}

/-- What holds of the tables during a search. -/
structure Ready (setting : Setting) (read : Array WordPart) (climb : Climb) : Prop where
  coherent : climb.state.Coherent read
  built : climb.state.AllBuilt setting.graph setting.options read
  bounded : climb.Bounded setting

variable {climb next start : Climb}

lemma Ready.moves (h : climb.Ready setting read)
    (moves : climb.Moves setting.graph setting.options read next) : next.Ready setting read :=
  ⟨moves.coherent h.coherent, moves.allBuilt h.built, moves.bounded h.bounded⟩

lemma Ready.resolves (h : climb.Ready setting read) {id : RouteId}
    (hid : id < climb.state.arena.size) : climb.Resolves id where
  stored := hid
  root_pos := (h.coherent.root_read id hid).1
  root_le := h.coherent.size_parts ▸ (h.coherent.root_read id hid).le_size
  components _ hother := h.built.component_lt_size hid hother

/-! ### Tours -/

/-- What acts runs a task, and what it stores has more signals than those given. -/
def ActRuns (setting : Setting) (read : Array WordPart) (start : Climb) (outer : SignalSet)
    (task : Task) (act : Climb → Climb) : Prop :=
  ∀ climb : Climb, start.state.Extends climb.state → climb.Ready setting read →
    ∃ trees, Runs setting task climb trees (act climb) ∧ ∀ tree ∈ trees, tree.Widens read.size outer

/-- What acts on the routes rooted at a signal runs an errand. -/
def OfferRuns (setting : Setting) (read : Array WordPart) (start : Climb) (outer : SignalSet)
    (errand : Errand) (signal : Signal) (act : RouteId → Climb → Climb) : Prop :=
  ∀ (other : RouteId) (climb : Climb), start.state.Extends climb.state →
    climb.Ready setting read → other < climb.state.arena.size →
    (climb.route other).root.signal = signal →
    ∃ trees, Runs setting (errand.task other) climb trees (act other climb) ∧
      ∀ tree ∈ trees, tree.Widens read.size outer

variable {outer : SignalSet} {errand : Errand}

/-- The list of routes ends before the offers do. -/
lemma offer_runs {signal : Signal} {act : RouteId → Climb → Climb} (hpos : 0 < signal)
    (hle : signal ≤ read.size) (moves : OfferMoves setting read start signal act)
    (runs : OfferRuns setting read start outer errand signal act) {fuel i : Nat}
    (enough : setting.options.maxRoutes ≤ i + fuel) :
    ActRuns setting read start outer (.follow errand signal i) (offer act signal fuel i) := by
  induction fuel generalizing i with
  | zero =>
    intro climb _ ready
    have hsize := ready.coherent.routesDown_size_le hpos
    have hbounded := ready.bounded
    rw [Bounded] at hbounded
    have last : (climb.state.part signal).routesDown[i]? = none :=
      Array.getElem?_eq_none (by omega)
    exact ⟨[], .finish (SearchState.part?_eq_part hpos (ready.coherent.size_parts ▸ hle)) last,
      List.forall_mem_nil _⟩
  | succ fuel ih =>
    intro climb hextends ready
    have lookup := SearchState.part?_eq_part hpos (ready.coherent.size_parts ▸ hle)
    rw [offer]
    cases hget : (climb.state.part signal).routesDown[i]? with
    | none =>
      exact ⟨[], .finish lookup hget, List.forall_mem_nil _⟩
    | some other =>
      obtain ⟨hlt, hroot⟩ :=
        (ready.coherent.mem_routesDown signal hpos other).1 (Array.mem_of_getElem? hget)
      have moved := moves other climb hextends ready.coherent hlt hroot
      obtain ⟨first, hfirst, hwide⟩ := runs other climb hextends ready hlt hroot
      obtain ⟨rest, hrest, hwider⟩ := ih (i := i + 1) (by omega) _
        (hextends.trans moved.extends) (ready.moves moved)
      exact ⟨first ++ rest, .follow lookup hget hfirst hrest,
        List.forall_mem_append.2 ⟨hwide, hwider⟩⟩

lemma tour_runs {act : Climb → Signal → Climb} {signals : List Signal}
    (moves : ∀ signal ∈ signals, ActMoves setting read start (act · signal))
    (runs : ∀ signal ∈ signals,
      ActRuns setting read start outer (.follow errand signal 0) (act · signal)) :
    ActRuns setting read start outer (.tour errand signals) (signals.foldl act) := by
  induction signals with
  | nil => exact fun climb _ _ => ⟨[], .nil, List.forall_mem_nil _⟩
  | cons signal signals ih =>
    intro climb hextends ready
    have moved := moves signal List.mem_cons_self climb hextends ready.coherent
    obtain ⟨first, hfirst, hwide⟩ := runs signal List.mem_cons_self climb hextends ready
    obtain ⟨rest, hrest, hwider⟩ := ih (fun s hs => moves s (List.mem_cons_of_mem _ hs))
      (fun s hs => runs s (List.mem_cons_of_mem _ hs)) _ (hextends.trans moved.extends)
      (ready.moves moved)
    exact ⟨first ++ rest, .cons hfirst hrest, List.forall_mem_append.2 ⟨hwide, hwider⟩⟩

/-! ### Trials -/

/-- Climbs of the routes that have enough signals for the depth that is left. -/
def VisitRuns (setting : Setting) (read : Array WordPart) (depth : Nat)
    (visit : RouteId → Climb → Climb) : Prop :=
  ∀ (id : RouteId) (climb : Climb), climb.Ready setting read → id < climb.state.arena.size →
    read.size < depth + (climb.route id).size →
    ∃ trees, Runs setting (.climb id) climb trees (visit id climb) ∧
      ∀ tree ∈ trees, tree.Widens read.size (climb.route id).signals

/-- The combination of two routes has more signals than the second one. -/
lemma Ready.wider (h : climb.Ready setting read) {relation : Relation} {id other : RouteId}
    {route : Route} (hother : other < climb.state.arena.size)
    (gives : (Trial.attach relation id other).Gives setting climb route) :
    (climb.route id).signals ⊂ route.signals := by
  obtain ⟨rfl, apart⟩ := gives
  have disjoint := (conflict_eq_false.1 apart).2
  have hroot := (h.built.fits hother).root_mem
  rw [SignalSet.ssubset_iff, SearchState.attach, Route.signals_extend]
  exact ⟨fun s hs => SignalSet.mem_union.2 (Or.inr hs), (climb.route other).root.signal,
    SignalSet.mem_union.2 (Or.inl hroot), disjoint _ hroot⟩

lemma attempt_runs {trial : Trial} {depth : Nat} {visit : RouteId → Climb → Climb}
    (visits : VisitRuns setting read depth visit) (ready : climb.Ready setting read)
    (resolves : trial.Resolves climb)
    (moves : climb.Moves setting.graph setting.options read
      (climb.attempt setting (fun _ c => c) trial))
    (wider : ∀ route, trial.Gives setting climb route → outer ⊂ route.signals)
    (deep : read.size ≤ depth + outer.size) :
    ∃ trees, Runs setting (.attempt trial) climb trees (climb.attempt setting visit trial) ∧
      ∀ tree ∈ trees, tree.Widens read.size outer := by
  rcases climb.attempt_cases setting trial with ⟨next, -, idle⟩ | ⟨route, gives, store⟩
  · refine ⟨[], ?_, List.forall_mem_nil _⟩
    rw [idle visit]
    exact .idle resolves idle
  · -- The tables right after the route is stored are those of a trial without a climb.
    rw [store fun _ c => c] at moves
    let entered := climb.entering trial route
    have hentered : entered.state = climb.state.add route := climb.state_entering trial route
    have harena : entered.state.arena = climb.state.arena.push route := by
      rw [hentered, SearchState.arena_add]
    have after := ready.moves moves
    have entering : entered.Ready setting read := by
      have hstate := state_leaving setting trial climb.state.arena.size entered
      exact ⟨hstate ▸ after.coherent, hstate ▸ after.built, by
        have hbounded := after.bounded
        rw [Bounded, hstate] at hbounded
        exact hbounded⟩
    have hnew : climb.state.arena.size < entered.state.arena.size := by
      rw [harena, Arena.size_push]
      exact Nat.lt_succ_self _
    have hroute : entered.route climb.state.arena.size = route := by
      rw [Climb.route, harena, Arena.route_push_size]
    have hsize := entering.built.size_le_size hnew
    change (entered.route climb.state.arena.size).size ≤ read.size at hsize
    rw [hroute] at hsize
    have hlt := SignalSet.size_lt_of_ssubset (wider route gives)
    obtain ⟨nested, hnested, hwide⟩ := visits climb.state.arena.size entered entering hnew (by
      rw [hroute, Route.size]
      omega)
    rw [hroute] at hwide
    refine ⟨[.node route nested], ?_, fun tree htree => ?_⟩
    · rw [store visit]
      exact .store resolves store hnested
    · rw [List.mem_singleton.1 htree]
      exact CallTree.widens_node (wider route gives) hsize hwide

/-! ### Climbs -/

section Offers

variable {visit : RouteId → Climb → Climb} {id : RouteId} {relation : Relation}

/-- Offers a route to the routes of all its targets. -/
def offering (setting : Setting) (visit : RouteId → Climb → Climb) (id : RouteId)
    (relation : Relation) (climb : Climb) : Climb :=
  (climb.targets setting id relation).foldl (fun climb signal => offerAll setting
    (fun other climb => climb.attempt setting visit (.attach relation id other)) signal climb) climb

lemma mem_targets_part {signal : Signal} (h : signal ∈ climb.targets setting id .part) :
    (climb.rootEntry setting id).isFirstPart = false ∧ ¬(climb.route id).root.signal < 2 ∧
      (climb.route id).root.signal - 1 ∉ (climb.route id).signals ∧
      signal = (climb.route id).root.signal - 1 := by
  rw [targets] at h
  split at h
  · exact absurd h List.not_mem_nil
  · next guard =>
    simp only [Bool.or_eq_true, decide_eq_true_eq, not_or, Bool.not_eq_true] at guard
    obtain ⟨⟨hfirst, htwo⟩, uncovered⟩ := guard
    exact ⟨hfirst, htwo, uncovered, List.mem_singleton.1 h⟩

variable (coherent : climb.state.Coherent read) (hid : id < climb.state.arena.size)
include coherent hid

lemma targets_range {signal : Signal} (h : signal ∈ climb.targets setting id relation) :
    0 < signal ∧ signal ≤ read.size := by
  have standing := coherent.root_read id hid
  have above : ∀ kind, signal ∈ (climb.state.part (climb.route id).root.signal).above kind →
      0 < signal ∧ signal ≤ read.size := fun kind hsignal => by
    have hpos := coherent.above_pos kind signal _ standing.1 hsignal
    have hbelow := (coherent.mirrored kind signal _ hpos standing.1).2 hsignal
    exact ⟨hpos, coherent.size_parts ▸ SearchState.le_size_of_mem_below hpos hbelow⟩
  cases relation with
  | argument => exact above .merge h
  | adjunction => exact above .pairMerge (List.mem_filter.1 h).1
  | part =>
    obtain ⟨-, htwo, -, rfl⟩ := mem_targets_part h
    have hle : (climb.route id).root.signal ≤ read.size := standing.le_size
    lia

/-- A route may be offered to the routes of each of its targets. -/
lemma attemptOffer_moves (hvisit : VisitMoves setting read visit) {signal : Signal}
    (h : signal ∈ climb.targets setting id relation) :
    OfferMoves setting read climb signal
      fun other climb => climb.attempt setting visit (.attach relation id other) := by
  cases relation with
  | argument => exact argumentOffer_moves hvisit coherent hid h
  | adjunction =>
    obtain ⟨hhost, uncovered⟩ := List.mem_filter.1 h
    exact adjunctOffer_moves hvisit coherent hid hhost (of_decide_eq_true uncovered)
  | part =>
    obtain ⟨hfirst, htwo, uncovered, rfl⟩ := mem_targets_part h
    exact partOffer_moves hvisit hid hfirst htwo uncovered

lemma offering_runs (relation : Relation) {depth : Nat} (visits : VisitRuns setting read depth visit)
    (hvisit : VisitMoves setting read visit) (ready : climb.Ready setting read)
    (deep : read.size ≤ depth + (climb.route id).size) :
    ∃ trees, Runs setting (.tour (.offer relation id) (climb.targets setting id relation)) climb trees
        (climb.offering setting visit id relation) ∧
      ∀ tree ∈ trees, tree.Widens read.size (climb.route id).signals := by
  have still : VisitMoves setting read fun _ c => c := fun _ _ _ _ => .refl
  refine tour_runs (fun signal hsignal => ?_) (fun signal hsignal => ?_) climb (.refl _) ready
  · exact offer_moves (targets_range coherent hid hsignal).1
      (attemptOffer_moves coherent hid hvisit hsignal) _ _
  · obtain ⟨hpos, hle⟩ := targets_range coherent hid hsignal
    refine offer_runs hpos hle (attemptOffer_moves coherent hid hvisit hsignal) ?_
      (Nat.le_of_eq (Nat.zero_add _).symm)
    intro other current hextends hready hother hroot
    have hsame : current.route id = climb.route id := hextends.route_eq id hid
    refine attempt_runs visits hready
      ⟨hready.resolves (hid.trans_le hextends.size_le), hready.resolves hother⟩
      (attemptOffer_moves coherent hid still hsignal other current hextends hready.coherent hother
        hroot) (fun route gives => ?_) deep
    rw [← hsame]
    exact hready.wider hother gives

end Offers

section Climbing

variable {visit : RouteId → Climb → Climb} {id : RouteId}

/-- The route itself stays as it is during its offers, so its hosts can be chosen before the first
one. -/
lemma toHosts_eq (hvisit : VisitMoves setting read visit) (coherent : climb.state.Coherent read)
    (hid : id < climb.state.arena.size) :
    climb.toHosts setting visit id = climb.offering setting visit id .adjunction := by
  have hosts : ∀ (signals : List Signal) (current : Climb), (∀ host ∈ signals,
      host ∈ (climb.state.part (climb.route id).root.signal).adjunctTo) →
      climb.state.Extends current.state → current.state.Coherent read →
      signals.foldl (fun climb host => if host ∈ (climb.route id).signals then climb
        else offerAll setting (tryAdjunct setting visit id) host climb) current =
      (signals.filter fun host => decide (host ∉ (climb.route id).signals)).foldl
        (fun climb host => offerAll setting (tryAdjunct setting visit id) host climb) current := by
    intro signals
    induction signals with
    | nil => exact fun current _ _ _ => rfl
    | cons host signals ih =>
      intro current hhosts hextends hcurrent
      have hsame : current.route id = climb.route id := hextends.route_eq id hid
      have moved := offerToHost_moves hvisit coherent hid (hhosts host List.mem_cons_self) current
        hextends hcurrent
      have rest := ih _ (fun h hmem => hhosts h (List.mem_cons_of_mem _ hmem))
        (hextends.trans moved.extends) (moved.coherent hcurrent)
      rw [List.foldl_cons, rest]
      dsimp only
      by_cases covered : host ∈ (climb.route id).signals
      · rw [if_pos (hsame ▸ covered), List.filter_cons_of_neg (by simpa using covered)]
      · rw [if_neg (hsame ▸ covered), List.filter_cons_of_pos (by simpa using covered),
          List.foldl_cons]
  exact hosts _ climb (fun _ h => h) (.refl _) coherent

lemma toWord_eq (climb : Climb) :
    climb.toWord setting visit id = climb.offering setting visit id .part := by
  rw [toWord, offering, targets]
  split <;> rfl

/-- A climb has a run if the depth that is left is enough for routes with more signals than its own. -/
theorem climbUp_runs (depth : Nat) : VisitRuns setting read depth (climbUp setting depth) := by
  induction depth with
  | zero =>
    intro id climb ready hid deep
    have hsize := ready.built.size_le_size hid
    rw [Nat.zero_add] at deep
    exact absurd hsize (Nat.not_le_of_lt deep)
  | succ depth ih =>
    intro id climb ready hid deep
    have hvisit : VisitMoves setting read (climbUp setting depth) := climbUp_moves depth
    have enough : read.size ≤ depth + (climb.route id).size := by omega
    have sameRoute : ∀ {current : Climb},
        climb.Moves setting.graph setting.options read current → current.route id = climb.route id :=
      fun moves => moves.extends.route_eq id hid
    have noted : climb.Moves setting.graph setting.options read
        (climb.note setting (.climbing (climb.route id).root.signal id)) := note_moves _ _
    have hnoted := ready.moves noted
    have hid' := hid.trans_le noted.extends.size_le
    have headed := noted.trans (toHeads_moves hvisit hnoted.coherent hid')
    have hheaded := ready.moves headed
    have hid'' := hid.trans_le headed.extends.size_le
    have hosted := headed.trans (toHosts_moves hvisit hheaded.coherent hid'')
    have hhosted := ready.moves hosted
    obtain ⟨heads, toHeads, hheads⟩ := offering_runs hnoted.coherent hid' .argument ih
      hvisit hnoted (by rw [sameRoute noted]; exact enough)
    obtain ⟨hosts, toHosts, hhosts⟩ := offering_runs hheaded.coherent hid'' .adjunction
      ih hvisit hheaded (by rw [sameRoute headed]; exact enough)
    obtain ⟨words, toWord, hwords⟩ := offering_runs hhosted.coherent
      (hid.trans_le hosted.extends.size_le) .part ih hvisit hhosted
      (by rw [sameRoute hosted]; exact enough)
    rw [← toHosts_eq hvisit hheaded.coherent hid''] at toHosts
    rw [← toWord_eq] at toWord
    rw [sameRoute noted] at hheads
    rw [sameRoute headed] at hhosts
    rw [sameRoute hosted] at hwords
    exact ⟨heads ++ hosts ++ words, .climb (ready.resolves hid) rfl toHeads toHosts toWord,
      List.forall_mem_append.2 ⟨List.forall_mem_append.2 ⟨hheads, hhosts⟩, hwords⟩⟩

lemma visit_runs : VisitRuns setting read (read.size + 1) (Climb.visit setting) := by
  intro id climb ready hid deep
  rw [visit, ready.coherent.size_parts]
  exact climbUp_runs _ id climb ready hid deep

end Climbing

/-! ### Searches -/

lemma seed_runs {part : WordPart} (ready : climb.Ready setting read)
    (standing : part.StandsIn read) :
    ∃ trees, Runs setting (.attempt (.leaf part)) climb trees (climb.seed setting part) ∧
      ∀ tree ∈ trees, tree.Widens read.size ∅ := by
  have still : VisitMoves setting read fun _ c => c := fun _ _ _ _ => .refl
  refine attempt_runs visit_runs ready ⟨standing.1, ready.coherent.size_parts ▸ standing.le_size⟩
    (store_moves still ready.coherent (.leaf standing)) (fun route gives => ?_) (by omega)
  rw [show route = .leaf part _ from gives]
  exact SignalSet.empty_ssubset_of_mem (SignalSet.mem_singleton.2 rfl)

lemma pass_runs (ready : climb.Ready setting read) :
    ∃ trees, Runs setting (.tour .climb (List.range' 1 climb.state.parts.size)) climb trees
        (climb.pass setting) ∧ ∀ tree ∈ trees, tree.Widens read.size ∅ := by
  refine tour_runs (fun signal hsignal => ?_) (fun signal hsignal => ?_) climb (.refl _) ready
  · exact offer_moves (List.mem_range'_1.1 hsignal).1 (visitOffer_moves climb signal) _ _
  · obtain ⟨hpos, hlt⟩ := List.mem_range'_1.1 hsignal
    rw [ready.coherent.size_parts] at hlt
    refine offer_runs hpos (Nat.lt_one_add_iff.1 hlt) (visitOffer_moves climb signal) ?_
      (Nat.le_of_eq (Nat.zero_add _).symm)
    intro other current _ hready hother _
    obtain ⟨trees, run, hwide⟩ := visit_runs other current hready hother (by omega)
    exact ⟨trees, run, fun tree htree => (hwide tree htree).of_empty⟩

lemma settleWithin_runs (fuel passes : Nat) (ready : climb.Ready setting read)
    (enough : setting.options.maxRoutes < fuel + climb.state.arena.size) :
    ∃ made, Settles setting climb made (settleWithin setting fuel passes climb).1 ∧
      (settleWithin setting fuel passes climb).2 = passes + made.length ∧
      ∀ trees ∈ made, ∀ tree ∈ trees, tree.Widens read.size ∅ := by
  induction fuel generalizing passes climb with
  | zero =>
    have hbounded := ready.bounded
    rw [Bounded] at hbounded
    omega
  | succ fuel ih =>
    obtain ⟨trees, pass, hwide⟩ := pass_runs ready
    rw [settleWithin]
    split
    · next still =>
      refine ⟨[trees], .last pass still, rfl, fun made hmade => ?_⟩
      rw [List.mem_singleton.1 hmade]
      exact hwide
    · next grown =>
      have hsize := pass.size_le
      obtain ⟨rest, settles, count, hwider⟩ :=
        ih (passes + 1) (ready.moves (pass_moves ready.coherent)) (by omega)
      refine ⟨trees :: rest, .again pass grown settles, ?_, fun made hmade => ?_⟩
      · rw [count, List.length_cons]
        omega
      · rcases List.mem_cons.1 hmade with rfl | hmade
        · exact hwide
        · exact hwider made hmade

lemma settle_runs (ready : climb.Ready setting read) :
    ∃ passes, Settles setting climb passes (climb.settle setting).1 ∧
      (climb.settle setting).2 = passes.length ∧
      ∀ trees ∈ passes, ∀ tree ∈ trees, tree.Widens read.size ∅ := by
  obtain ⟨passes, settling, count, hwide⟩ := settleWithin_runs
    (setting.options.maxRoutes + 1) 0 ready (by omega)
  exact ⟨passes, settling, count.trans (Nat.zero_add _), hwide⟩

end Climb

namespace Session

variable {session : Session}

lemma Stage.ready (h : Stage session) (tracing : Bool) :
    (Climb.start session.search).Ready (session.setting tracing) session.reading.wordParts :=
  ⟨h.coherent.tables, h.allBuilt.1, h.allBuilt.2⟩

/-- What a step that enters a word part does, told by the run of its search. -/
structure Ends (session : Session) (tracing : Bool) (part : WordPart) (result : StepResult)
    (planted : List CallTree) (passes : List (List CallTree)) (seeded last : Climb) : Prop where
  seeding : Runs (session.setting tracing) (.attempt (.leaf part))
    (Climb.start (session.enter part).search) planted seeded
  settling : Settles (session.setting tracing) seeded passes last
  succeeds : (session.stepTracing tracing).1 = .ok result
  search_eq : (session.stepTracing tracing).2.search = last.state
  part_eq : result.part = part
  routes_eq : result.routes = last.added.toList
  passes_eq : result.passes = passes.length
  capped_eq : result.capped = last.capped

/-- The search of a step that enters a word part has a run. -/
lemma exists_ends (stage : Stage session) {part : WordPart} (hread : session.read.1 = some part)
    (tracing : Bool) : ∃ result planted passes seeded last,
      session.Ends tracing part result planted passes seeded last ∧
      ∀ tree ∈ planted ++ passes.flatten,
        tree.Widens (session.enter part).reading.wordParts.size ∅ := by
  obtain ⟨result, reports, hstep⟩ := stepTracing_some hread tracing
  have ready : (Climb.start (session.enter part).search).Ready (session.setting tracing)
      (session.enter part).reading.wordParts := (stage.enter hread).ready tracing
  obtain ⟨planted, seeding, hplanted⟩ := Climb.seed_runs ready (standsIn_enter stage.coherent hread)
  obtain ⟨passes, settling, count, hpasses⟩ :=
    Climb.settle_runs (ready.moves (seed_moves stage.coherent hread tracing))
  refine ⟨result, planted, passes, _, (session.searched tracing part).1,
    ⟨seeding, settling, by rw [hstep], by rw [hstep, search_entered], reports.part_eq,
      reports.routes_eq, reports.passes_eq.trans count, reports.capped_eq⟩, fun tree htree => ?_⟩
  rcases List.mem_append.1 htree with htree | htree
  · exact hplanted tree htree
  · obtain ⟨trees, htrees, hmem⟩ := List.mem_flatten.1 htree
    exact hpasses trees htrees tree hmem

/-- A step that finds no word part fails without a search. Otherwise its search has a run, and only
one. In every chain of climbs each stored route has all signals of the one before and at least one
more, and the chain is no longer than the number of word parts that have been read. The last pass
stores nothing, and there is one more of them than the routes they store at most. However large the
limits are, there are no more routes than outlines. -/
theorem step_terminates (reachable : Reachable session) (tracing : Bool) :
    (session.read.1 = none ∧ session.stepTracing tracing =
      (.error .exhausted, { session with reading := session.read.2 })) ∨
    ∃ part result planted passes seeded last,
      session.read.1 = some part ∧
      session.Ends tracing part result planted passes seeded last ∧
      (∀ planted' passes' seeded' last', Runs (session.setting tracing) (.attempt (.leaf part))
          (Climb.start (session.enter part).search) planted' seeded' →
        Settles (session.setting tracing) seeded' passes' last' →
        planted' = planted ∧ passes' = passes ∧ last' = last) ∧
      (∀ tree ∈ planted ++ passes.flatten, ∀ chain, tree.Chain chain →
        chain.IsChain (fun route next => route.signals ⊂ next.signals) ∧
        chain.length ≤ (session.stepTracing tracing).2.consumed) ∧
      passes.getLast? = some [] ∧
      passes.length ≤ last.state.arena.size - seeded.state.arena.size + 1 ∧
      let consumed := (session.stepTracing tracing).2.consumed
      (session.stepTracing tracing).2.routeCount ≤ (consumed + 1) ^ (4 * consumed) := by
  have stage := reachable.stage
  cases hread : session.read.1 with
  | none => exact Or.inl ⟨rfl, stepTracing_none hread tracing⟩
  | some part =>
    obtain ⟨result, planted, passes, seeded, last, ends, wide⟩ := exists_ends stage hread tracing
    have consumed_eq : (session.stepTracing tracing).2.consumed =
        (session.enter part).reading.wordParts.size := by
      obtain ⟨_, -, hstep⟩ := stepTracing_some hread tracing
      rw [hstep, consumed, reading_entered]
    obtain ⟨nothing, hlength⟩ := ends.settling.length_le
    refine Or.inr ⟨part, result, planted, passes, seeded, last, rfl, ends,
      fun planted' passes' seeded' last' seeding settling => ?_,
      fun tree htree chain hchain => ?_, nothing, by omega, ?_⟩
    · obtain ⟨rfl, rfl⟩ := seeding.unique ends.seeding
      obtain ⟨rfl, rfl⟩ := settling.unique ends.settling
      exact ⟨rfl, rfl, rfl⟩
    · obtain ⟨-, widening, hle⟩ := wide tree htree chain hchain
      rw [consumed_eq]
      exact ⟨widening, (Nat.le_add_left _ _).trans hle⟩
    · have reached := (reachable.step tracing).stage
      exact reached.allBuilt.1.arena_size_le reached.keyed

/-- The second step of the sample makes two passes. So it stores a route in the first of them. -/
theorem sample_step_terminates : ∃ result planted passes seeded last,
    (sample.stepped 1).Ends false ⟨2, 1, 2⟩ result planted passes seeded last ∧
      passes.length = 2 ∧ seeded.state.arena.size < last.state.arena.size := by
  have hread : (sample.stepped 1).read.1 = some ⟨2, 1, 2⟩ := by decide +kernel
  have told : ((sample.stepped 1).stepTracing false).1.toOption.map StepResult.passes = some 2 := by
    decide +kernel
  rcases step_terminates (sample_reachable 1) false with ⟨hnone, -⟩ |
    ⟨part, result, planted, passes, seeded, last, hpart, ends, -, -, -, hle, -⟩
  · rw [hread] at hnone
    cases hnone
  · rw [hread] at hpart
    cases hpart
    rw [ends.succeeds] at told
    have count : passes.length = 2 := ends.passes_eq.symm.trans (Option.some.inj told)
    exact ⟨result, planted, passes, seeded, last, ends, count, by omega⟩

end Session

end MergeGrammar
