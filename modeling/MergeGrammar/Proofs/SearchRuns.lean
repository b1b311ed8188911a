import MergeGrammar.Proofs.Lineage

/-!
# Runs of the search

The search bounds how deep climbs nest, how far lists of routes are followed and how many passes are
made. Here it is told without these bounds: the run of a task consists of the runs of the tasks that
it sets, a list of routes is followed to its end, however it grows, and passes go on until one stores
nothing. Numbers are only looked up where they are in use. A run is finite, so a task that has one
ends, and no task has two. The routes that are stored during a run, each with those stored before its
climb has ended, are kept in call trees.
-/

namespace MergeGrammar

/-- A route that is stored, with those that are stored while it climbs. -/
inductive CallTree where
  | node (route : Route) (nested : List CallTree)

/-- Routes that are stored one during the climb of the other, from the root of a call tree on. -/
inductive CallTree.Chain : CallTree → List Route → Prop where
  | last {route : Route} {nested : List CallTree} : Chain (.node route nested) [route]
  | deeper {route : Route} {nested : List CallTree} {tree : CallTree} {chain : List Route}
    (mem : tree ∈ nested) (rest : Chain tree chain) : Chain (.node route nested) (route :: chain)

/-- What may give a new route. -/
inductive Trial where
  | leaf (part : WordPart)
  /-- The first route is attached to the second one. -/
  | attach (relation : Relation) (id other : RouteId)

/-- What is done with the routes rooted at a signal in order. -/
inductive Errand where
  /-- Each of them climbs. -/
  | climb
  /-- A route is offered to each of them. -/
  | offer (relation : Relation) (id : RouteId)

inductive Task where
  | attempt (trial : Trial)
  | climb (id : RouteId)
  /-- An errand to the routes of a signal from a place in their list on. -/
  | follow (errand : Errand) (signal : Signal) (i : Nat)
  /-- An errand to the routes of several signals in order. -/
  | tour (errand : Errand) (signals : List Signal)

/-- What an errand does with one route. -/
def Errand.task : Errand → RouteId → Task
  | climb, other => .climb other
  | offer relation id, other => .attempt (.attach relation id other)

namespace Climb

/-- Tries what may give a new route. -/
def attempt (setting : Setting) (visit : RouteId → Climb → Climb) : Trial → Climb → Climb
  | .leaf part, climb =>
    (climb.store setting visit (.leaf part (setting.graph.entry part.entry).isFree)).1
  | .attach .argument id other, climb => climb.tryArgument setting visit id other
  | .attach .adjunction id other, climb => climb.tryAdjunct setting visit id other
  | .attach .part id other, climb => climb.combine setting visit .part other id

/-- The signals to whose routes a route is offered. -/
def targets (setting : Setting) (id : RouteId) (climb : Climb) : Relation → List Signal
  | .argument => (climb.state.part (climb.route id).root.signal).headEdges
  | .adjunction =>
    (climb.state.part (climb.route id).root.signal).adjunctTo.filter
      fun host => decide (host ∉ (climb.route id).signals)
  | .part =>
    let route := climb.route id
    let signal := route.root.signal
    if (climb.rootEntry setting id).isFirstPart || decide (signal < 2) ||
      decide (signal - 1 ∈ route.signals) then [] else [signal - 1]

/-- The search when a route has just been stored. -/
def entering : Trial → Route → Climb → Climb
  | .leaf _, route, climb =>
    { climb with
      state := climb.state.add route
      added := climb.added.push climb.state.arena.size }
  | .attach _ _ _, route, climb =>
    { climb with
      state := climb.state.add route
      added := climb.added.push climb.state.arena.size
      attempts := climb.attempts + 1 }

/-- What is recorded when a new route has climbed. -/
def leaving (setting : Setting) : Trial → RouteId → Climb → Climb
  | .leaf _, _, climb => climb
  | .attach relation id other, new, climb => climb.note setting (.combined relation other id new)

/-- The numbers that are looked up when a route climbs are in use. -/
structure Resolves (climb : Climb) (id : RouteId) : Prop where
  stored : id < climb.state.arena.size
  root_pos : 0 < (climb.route id).root.signal
  root_le : (climb.route id).root.signal ≤ climb.state.parts.size
  components : ∀ other ∈ (climb.route id).components, other < climb.state.arena.size

end Climb

/-- The numbers that are looked up in a trial are in use. -/
def Trial.Resolves (climb : Climb) : Trial → Prop
  | leaf part => 0 < part.signal ∧ part.signal ≤ climb.state.parts.size
  | attach _ id other => climb.Resolves id ∧ climb.Resolves other

/-- The runs of a task, with what they store. -/
inductive Runs (setting : Setting) : Task → Climb → List CallTree → Climb → Prop where
  /-- Nothing is stored, and no route climbs. -/
  | idle {trial : Trial} {climb next : Climb} (resolves : trial.Resolves climb)
    (outcome : ∀ visit, climb.attempt setting visit trial = next) :
    Runs setting (.attempt trial) climb [] next
  /-- A route is stored and climbs at once. -/
  | store {trial : Trial} {route : Route} {nested : List CallTree} {climb climbed : Climb}
    (resolves : trial.Resolves climb)
    (outcome : ∀ visit, climb.attempt setting visit trial = .leaving setting trial
      climb.state.arena.size (visit climb.state.arena.size (climb.entering trial route)))
    (climbing : Runs setting (.climb climb.state.arena.size) (climb.entering trial route) nested
      climbed) :
    Runs setting (.attempt trial) climb [.node route nested]
      (.leaving setting trial climb.state.arena.size climbed)
  /-- A route is offered to its heads, its hosts and the word part before its own. -/
  | climb {id : RouteId} {heads hosts words : List CallTree} {climb start headed hosted next : Climb}
    (resolves : climb.Resolves id)
    (start_eq : start = climb.note setting (.climbing (climb.route id).root.signal id))
    (toHeads : Runs setting (.tour (.offer .argument id) (start.targets setting id .argument))
      start heads headed)
    (toHosts : Runs setting (.tour (.offer .adjunction id) (headed.targets setting id .adjunction))
      headed hosts hosted)
    (toWord : Runs setting (.tour (.offer .part id) (hosted.targets setting id .part))
      hosted words next) :
    Runs setting (.climb id) climb (heads ++ hosts ++ words) next
  | finish {errand : Errand} {signal : Signal} {i : Nat} {part : PartState} {climb : Climb}
    (lookup : climb.state.part? signal = some part) (last : part.routesDown[i]? = none) :
    Runs setting (.follow errand signal i) climb [] climb
  | follow {errand : Errand} {signal : Signal} {i : Nat} {part : PartState} {other : RouteId}
    {first rest : List CallTree} {climb middle next : Climb}
    (lookup : climb.state.part? signal = some part) (found : part.routesDown[i]? = some other)
    (one : Runs setting (errand.task other) climb first middle)
    (others : Runs setting (.follow errand signal (i + 1)) middle rest next) :
    Runs setting (.follow errand signal i) climb (first ++ rest) next
  | nil {errand : Errand} {climb : Climb} : Runs setting (.tour errand []) climb [] climb
  | cons {errand : Errand} {signal : Signal} {signals : List Signal} {first rest : List CallTree}
    {climb middle next : Climb} (one : Runs setting (.follow errand signal 0) climb first middle)
    (others : Runs setting (.tour errand signals) middle rest next) :
    Runs setting (.tour errand (signal :: signals)) climb (first ++ rest) next

/-- Passes until one stores nothing, with what each of them stores. -/
inductive Settles (setting : Setting) : Climb → List (List CallTree) → Climb → Prop where
  | last {trees : List CallTree} {climb next : Climb}
    (pass : Runs setting (.tour .climb (List.range' 1 climb.state.parts.size)) climb trees next)
    (still : next.state.arena.size = climb.state.arena.size) : Settles setting climb [trees] next
  | again {trees : List CallTree} {passes : List (List CallTree)} {climb middle next : Climb}
    (pass : Runs setting (.tour .climb (List.range' 1 climb.state.parts.size)) climb trees middle)
    (grown : middle.state.arena.size ≠ climb.state.arena.size)
    (rest : Settles setting middle passes next) : Settles setting climb (trees :: passes) next

/-! ### What a run tells -/

namespace Climb

variable (setting : Setting) (trial : Trial) (new : RouteId) (climb : Climb)

lemma state_note (event : Event) : (climb.note setting event).state = climb.state := by
  rw [note]
  split <;> rfl

lemma attempts_note (event : Event) : (climb.note setting event).attempts = climb.attempts := by
  rw [note]
  split <;> rfl

@[simp] lemma state_leaving : (leaving setting trial new climb).state = climb.state := by
  cases trial with
  | leaf => rfl
  | attach => exact state_note setting climb _

lemma attempts_leaving : (leaving setting trial new climb).attempts = climb.attempts := by
  cases trial with
  | leaf => rfl
  | attach => exact attempts_note setting climb _

@[simp] lemma state_entering (route : Route) :
    (climb.entering trial route).state = climb.state.add route := by
  cases trial <;> rfl

end Climb

/-- What is stored in a trial. -/
def Trial.Gives (setting : Setting) (climb : Climb) (route : Route) : Trial → Prop
  | leaf part => route = .leaf part (setting.graph.entry part.entry).isFree
  | attach relation id other => route = climb.state.attach other id relation ∧
    Climb.conflict (climb.route other) (climb.route id) = false

namespace Climb

section Cases

variable (setting : Setting)

lemma store_cases (route : Route) (climb : Climb) :
    (∃ next : Climb, next.state.arena = climb.state.arena ∧
      ∀ visit, climb.store setting visit route = (next, none)) ∨
    ∀ visit, climb.store setting visit route =
      (visit climb.state.arena.size { climb with
        state := climb.state.add route
        added := climb.added.push climb.state.arena.size }, some climb.state.arena.size) := by
  by_cases known : climb.state.isKnown route.key
  · exact Or.inl ⟨climb, rfl, fun visit => by rw [store, if_pos known]⟩
  · by_cases full : setting.options.maxRoutes ≤ climb.state.arena.size
    · exact Or.inl ⟨climb.drop .routes setting.options.maxRoutes route.key, rfl,
        fun visit => by rw [store, if_neg known, if_pos full]⟩
    · by_cases crowded : setting.options.profileCap ≤ climb.state.profileCount route.span
      · exact Or.inl ⟨climb.drop .profile setting.options.profileCap route.key, rfl,
          fun visit => by rw [store, if_neg known, if_neg full, if_pos crowded]⟩
      · exact Or.inr fun visit => by rw [store, if_neg known, if_neg full, if_neg crowded]

lemma combine_cases (relation : Relation) (id other : RouteId) (climb : Climb) :
    (∃ next : Climb, next.state.arena = climb.state.arena ∧
      ∀ visit, climb.combine setting visit relation other id = next) ∨
    conflict (climb.route other) (climb.route id) = false ∧
      ∀ visit, climb.combine setting visit relation other id =
        leaving setting (.attach relation id other) climb.state.arena.size
          (visit climb.state.arena.size (climb.entering (.attach relation id other)
            (climb.state.attach other id relation))) := by
  let tried : Climb := { climb with attempts := climb.attempts + 1 }
  by_cases same : other = id
  · exact Or.inl ⟨tried, rfl, fun visit => by rw [combine, if_pos same]⟩
  · cases crossing : conflict (climb.route other) (climb.route id) with
    | true =>
      refine Or.inl ⟨tried.note setting (.overlapping (climb.route other).span
        (climb.route id).span), by rw [state_note], fun visit => ?_⟩
      rw [combine, if_neg same]
      exact if_pos crossing
    | false =>
      have hcrossing : ¬conflict (tried.route other) (tried.route id) = true := by
        rw [Bool.not_eq_true]
        exact crossing
      by_cases filled : isFilled (tried.route other) (tried.route id) relation = true
      · refine Or.inl ⟨tried, rfl, fun visit => ?_⟩
        rw [combine, if_neg same]
        exact (if_neg hcrossing).trans (if_pos filled)
      · rcases tried.store_cases setting
            ((tried.route other).extend id (tried.route id) relation) with
          ⟨next, harena, hstore⟩ | hstore
        · refine Or.inl ⟨next, harena, fun visit => ?_⟩
          rw [combine, if_neg same]
          refine (if_neg hcrossing).trans ((if_neg filled).trans ?_)
          rw [hstore]
        · refine Or.inr ⟨rfl, fun visit => ?_⟩
          rw [combine, if_neg same]
          refine (if_neg hcrossing).trans ((if_neg filled).trans ?_)
          rw [hstore]
          rfl

/-- A trial stores nothing, or it stores a route and lets it climb at once. -/
theorem attempt_cases (trial : Trial) (climb : Climb) :
    (∃ next : Climb, next.state.arena = climb.state.arena ∧
      ∀ visit, climb.attempt setting visit trial = next) ∨
    ∃ route, trial.Gives setting climb route ∧
      ∀ visit, climb.attempt setting visit trial = leaving setting trial climb.state.arena.size
        (visit climb.state.arena.size (climb.entering trial route)) := by
  have combining : ∀ (relation : Relation) (id other : RouteId),
      (∀ visit, climb.attempt setting visit (.attach relation id other) =
        climb.combine setting visit relation other id) →
      (∃ next : Climb, next.state.arena = climb.state.arena ∧
        ∀ visit, climb.attempt setting visit (.attach relation id other) = next) ∨
      ∃ route, (Trial.attach relation id other).Gives setting climb route ∧
        ∀ visit, climb.attempt setting visit (.attach relation id other) =
          leaving setting (.attach relation id other) climb.state.arena.size
            (visit climb.state.arena.size (climb.entering (.attach relation id other) route)) := by
    intro relation id other heq
    rcases climb.combine_cases setting relation id other with ⟨next, harena, hnext⟩ | ⟨apart, hstore⟩
    · exact Or.inl ⟨next, harena, fun visit => (heq visit).trans (hnext visit)⟩
    · exact Or.inr ⟨_, ⟨rfl, apart⟩, fun visit => (heq visit).trans (hstore visit)⟩
  cases trial with
  | leaf part =>
    rcases climb.store_cases setting (.leaf part (setting.graph.entry part.entry).isFree) with
      ⟨next, harena, hstore⟩ | hstore
    · exact Or.inl ⟨next, harena, fun visit => by rw [attempt, hstore]⟩
    · exact Or.inr ⟨_, rfl, fun visit => by rw [attempt, hstore]; rfl⟩
  | attach relation id other =>
    cases relation with
    | argument =>
      by_cases guard : ((climb.route other).arg.isSome || !climb.areNeighbors setting id other) = true
      · exact Or.inl ⟨climb, rfl, fun visit => by rw [attempt, tryArgument, if_pos guard]⟩
      · exact combining .argument id other fun visit => by
          rw [attempt, tryArgument, if_neg guard]
    | adjunction =>
      by_cases distant : (!climb.areNeighbors setting id other) = true
      · exact Or.inl ⟨climb, rfl, fun visit => by rw [attempt, tryAdjunct, if_pos distant]⟩
      · by_cases clash : (setting.options.checkAgreement &&
            !climb.adjunctAgrees setting id other) = true
        · exact Or.inl ⟨climb.note setting (.disagreeing id other), by rw [state_note],
            fun visit => by rw [attempt, tryAdjunct, if_neg distant, if_pos clash]⟩
        · exact combining .adjunction id other fun visit => by
            rw [attempt, tryAdjunct, if_neg distant, if_neg clash]
    | part => exact combining .part id other fun visit => rfl

end Cases

variable {setting : Setting}

/-- A trial that stores a route does not end alike whatever happens while the route climbs. -/
lemma not_idle_of_store {trial : Trial} {climb next entered : Climb} {new : RouteId}
    (idle : ∀ visit, climb.attempt setting visit trial = next)
    (store : ∀ visit, climb.attempt setting visit trial =
      leaving setting trial new (visit new entered)) : False := by
  have first := (idle fun _ c => c).symm.trans (store fun _ c => c)
  have second := (idle fun _ c => { c with attempts := c.attempts + 1 }).symm.trans
    (store fun _ c => { c with attempts := c.attempts + 1 })
  have attempts_eq := congrArg Climb.attempts (first.symm.trans second)
  rw [attempts_leaving, attempts_leaving] at attempts_eq
  exact absurd attempts_eq (Nat.ne_of_lt (Nat.lt_succ_self _))

end Climb

namespace Runs

variable {setting : Setting} {task : Task} {climb next : Climb} {trees : List CallTree}

/-- Every call tree adds at least the route at its root. -/
lemma size_le (h : Runs setting task climb trees next) :
    climb.state.arena.size + trees.length ≤ next.state.arena.size := by
  induction h with
  | @idle trial climb next _ idle =>
    rcases climb.attempt_cases setting trial with ⟨other, harena, hother⟩ | ⟨_, _, store⟩
    · have heq : next = other := (idle fun _ c => c).symm.trans (hother _)
      rw [heq, harena, List.length_nil]
      exact le_rfl
    · exact (Climb.not_idle_of_store idle store).elim
  | store _ _ _ ih =>
    simp only [Climb.state_entering, SearchState.arena_add, Arena.size_push] at ih
    simp only [Climb.state_leaving, List.length_singleton]
    omega
  | climb _ start_eq _ _ _ ihHeads ihHosts ihWords =>
    rw [start_eq, Climb.state_note] at ihHeads
    simp only [List.length_append]
    omega
  | finish => exact le_rfl
  | follow _ _ _ _ ihOne ihOthers =>
    rw [List.length_append]
    omega
  | nil => exact le_rfl
  | cons _ _ ihOne ihOthers =>
    rw [List.length_append]
    omega

/-- A task has one run at most. -/
theorem unique {next' : Climb} {trees' : List CallTree} (h : Runs setting task climb trees next)
    (h' : Runs setting task climb trees' next') : trees = trees' ∧ next = next' := by
  induction h generalizing trees' next' with
  | idle _ idle =>
    cases h' with
    | idle _ idle' => exact ⟨rfl, (idle fun _ c => c).symm.trans (idle' _)⟩
    | store _ store' => exact (Climb.not_idle_of_store idle store').elim
  | @store trial route nested climb climbed _ store _ ih =>
    cases h' with
    | idle _ idle' => exact (Climb.not_idle_of_store idle' store).elim
    | @store _ route' _ _ _ _ store' climbing' =>
      have entering_eq := congrArg Climb.state ((store fun _ c => c).symm.trans (store' _))
      rw [Climb.state_leaving, Climb.state_leaving, Climb.state_entering,
        Climb.state_entering] at entering_eq
      have route_eq : route = route' := by
        have harena := congrArg (fun state => state.arena.route climb.state.arena.size) entering_eq
        simpa only [SearchState.arena_add, Arena.route_push_size] using harena
      subst route_eq
      obtain ⟨rfl, rfl⟩ := ih climbing'
      exact ⟨rfl, rfl⟩
  | climb _ start_eq _ _ _ ihHeads ihHosts ihWords =>
    cases h' with
    | climb _ start_eq' toHeads' toHosts' toWord' =>
      subst start_eq start_eq'
      obtain ⟨rfl, rfl⟩ := ihHeads toHeads'
      obtain ⟨rfl, rfl⟩ := ihHosts toHosts'
      obtain ⟨rfl, rfl⟩ := ihWords toWord'
      exact ⟨rfl, rfl⟩
  | finish lookup last =>
    cases h' with
    | finish => exact ⟨rfl, rfl⟩
    | follow lookup' found' =>
      rw [Option.some.inj (lookup.symm.trans lookup'), found'] at last
      cases last
  | follow lookup found _ _ ihOne ihOthers =>
    cases h' with
    | finish lookup' last' =>
      rw [Option.some.inj (lookup.symm.trans lookup'), last'] at found
      cases found
    | follow lookup' found' one' others' =>
      rw [Option.some.inj (lookup.symm.trans lookup'), found'] at found
      cases found
      obtain ⟨rfl, rfl⟩ := ihOne one'
      obtain ⟨rfl, rfl⟩ := ihOthers others'
      exact ⟨rfl, rfl⟩
  | nil =>
    cases h' with
    | nil => exact ⟨rfl, rfl⟩
  | cons _ _ ihOne ihOthers =>
    cases h' with
    | cons one' others' =>
      obtain ⟨rfl, rfl⟩ := ihOne one'
      obtain ⟨rfl, rfl⟩ := ihOthers others'
      exact ⟨rfl, rfl⟩

end Runs

namespace Settles

variable {setting : Setting} {climb next : Climb} {passes : List (List CallTree)}

theorem unique {next' : Climb} {passes' : List (List CallTree)} (h : Settles setting climb passes next)
    (h' : Settles setting climb passes' next') : passes = passes' ∧ next = next' := by
  induction h generalizing passes' next' with
  | last pass still =>
    cases h' with
    | last pass' =>
      obtain ⟨rfl, rfl⟩ := pass.unique pass'
      exact ⟨rfl, rfl⟩
    | again pass' grown' =>
      obtain ⟨rfl, rfl⟩ := pass.unique pass'
      exact absurd still grown'
  | again pass grown _ ih =>
    cases h' with
    | last pass' still' =>
      obtain ⟨rfl, rfl⟩ := pass.unique pass'
      exact absurd still' grown
    | again pass' _ rest' =>
      obtain ⟨rfl, rfl⟩ := pass.unique pass'
      obtain ⟨rfl, rfl⟩ := ih rest'
      exact ⟨rfl, rfl⟩

/-- The last pass stores nothing, and each of those before it stores a route. -/
theorem length_le (h : Settles setting climb passes next) : passes.getLast? = some [] ∧
    climb.state.arena.size + passes.length ≤ next.state.arena.size + 1 := by
  induction h with
  | @last trees climb next pass still =>
    have hsize := pass.size_le
    have nothing : trees = [] := List.length_eq_zero_iff.1 (by omega)
    rw [nothing]
    exact ⟨rfl, by simp [still]⟩
  | @again trees passes climb middle next pass grown _ ih =>
    have hsize := pass.size_le
    obtain ⟨hlast, hle⟩ := ih
    refine ⟨?_, by rw [List.length_cons]; omega⟩
    rw [List.getLast?_cons, hlast]
    rfl

end Settles

end MergeGrammar
