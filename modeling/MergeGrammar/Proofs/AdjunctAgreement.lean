import MergeGrammar.Proofs.DerivationRules

/-!
# Agreement of adjuncts

A host asks for adjuncts by the names of its features, and an adjunct answers with positive features
of these names. When agreement is checked, an adjunct must repeat the answers of the adjuncts
attached before it, and a host those of the adjuncts of its adjuncts. Routes are copied whenever
something is attached to them, so what has been checked once is never lost.
-/

namespace MergeGrammar

/-- Among the features of the newcomer are all positive ones of `settled` that have the name of a
feature by which the host takes adjuncts. -/
def LexicalEntry.Concords (graph : Graph) (host settled newcomer : LexicalEntry) : Prop :=
  ∀ id ∈ settled.features, (graph.feature id).feature.isPositive = true →
    ∀ asked ∈ host.features, (graph.feature asked).feature.sign = some .adjoin →
      (graph.feature asked).feature.name = (graph.feature id).feature.name →
      id ∈ newcomer.features

lemma LexicalEntry.concords_iff {graph : Graph} {host settled newcomer : LexicalEntry} :
    Concords graph host settled newcomer ↔
      settled.clashes graph (host.adjunctNames graph) newcomer = false := by
  rw [← Bool.not_eq_true, clashes_iff]
  simp only [mem_adjunctNames]
  constructor
  · rintro concords ⟨id, hid, positive, ⟨asked, hasked, hsign, hname⟩, missing⟩
    exact missing (concords id hid positive asked hasked hsign hname)
  · intro unclashing id hid positive asked hasked hsign hname
    by_contra missing
    exact unclashing ⟨id, hid, positive, ⟨asked, hasked, hsign, hname⟩, missing⟩

namespace SearchState

variable {graph : Graph} {options : Options} {read : Array WordPart} {state : SearchState}

def rootEntry (graph : Graph) (state : SearchState) (id : RouteId) : LexicalEntry :=
  graph.entry (state.arena.route id).root.entry

/-- Each adjunct of a route concords with those attached before it, and the root with the adjuncts
of its adjuncts. -/
structure Concordant (graph : Graph) (state : SearchState) (route : Route) : Prop where
  attached : route.adjuncts.Pairwise fun earlier later =>
    LexicalEntry.Concords graph (graph.entry route.root.entry) (state.rootEntry graph earlier)
      (state.rootEntry graph later)
  nested : ∀ adjunct ∈ route.adjuncts, ∀ inner ∈ (state.arena.route adjunct).adjuncts,
    LexicalEntry.Concords graph (state.rootEntry graph adjunct) (state.rootEntry graph inner)
      (graph.entry route.root.entry)

lemma concordant_leaf (root : WordPart) (free : Bool) :
    state.Concordant graph (.leaf root free) where
  attached := List.Pairwise.nil
  nested _ hadjunct := absurd hadjunct List.not_mem_nil

/-- The check compares the newcomer with the adjuncts of the host, and the host with the adjuncts of
the newcomer. -/
lemma adjunctAgrees_iff {setting : Setting} {adjunct host : RouteId} :
    (Climb.start state).adjunctAgrees setting adjunct host = true ↔
      (∀ settled ∈ (state.arena.route host).adjuncts,
        LexicalEntry.Concords setting.graph (state.rootEntry setting.graph host)
          (state.rootEntry setting.graph settled) (state.rootEntry setting.graph adjunct)) ∧
      ∀ inner ∈ (state.arena.route adjunct).adjuncts,
        LexicalEntry.Concords setting.graph (state.rootEntry setting.graph adjunct)
          (state.rootEntry setting.graph inner) (state.rootEntry setting.graph host) := by
  simp only [LexicalEntry.concords_iff]
  simp [Climb.adjunctAgrees, Climb.rootEntry, Climb.route, Climb.start, rootEntry]

/-- Nothing but an adjunct can disturb the agreement of a route, and an adjunct does so exactly if
the check would refuse it. -/
lemma Concordant.attach_iff (setting : Setting) {base sub : RouteId} {relation : Relation}
    (h : state.Concordant setting.graph (state.arena.route base)) :
    state.Concordant setting.graph (state.attach base sub relation) ↔
      (relation = .adjunction → (Climb.start state).adjunctAgrees setting sub base = true) := by
  cases relation with
  | argument => exact iff_of_true ⟨h.attached, h.nested⟩ (fun heq => nomatch heq)
  | part => exact iff_of_true ⟨h.attached, h.nested⟩ (fun heq => nomatch heq)
  | adjunction =>
    have adjuncts_eq : (state.attach base sub .adjunction).adjuncts =
        (state.arena.route base).adjuncts ++ [sub] := rfl
    have root_eq : (state.attach base sub .adjunction).root = (state.arena.route base).root := rfl
    rw [adjunctAgrees_iff]
    constructor
    · intro concordant _
      have attached := concordant.attached
      rw [adjuncts_eq, root_eq, List.pairwise_append] at attached
      have nested := concordant.nested
      rw [adjuncts_eq, root_eq] at nested
      exact ⟨fun settled hsettled => attached.2.2 settled hsettled sub List.mem_cons_self,
        nested sub List.mem_concat_self⟩
    · intro agrees
      obtain ⟨newcomer, host⟩ := agrees rfl
      constructor
      · rw [adjuncts_eq, root_eq, List.pairwise_append]
        refine ⟨h.attached, List.pairwise_singleton _ _, fun settled hsettled later hlater => ?_⟩
        rw [List.mem_singleton.1 hlater]
        exact newcomer settled hsettled
      · rw [adjuncts_eq, root_eq]
        intro adjunct hadjunct
        rcases List.mem_append.1 hadjunct with hadjunct | hadjunct
        · exact h.nested adjunct hadjunct
        · rw [List.mem_singleton.1 hadjunct]
          exact host

lemma AllBuilt.concordant (h : state.AllBuilt graph options read)
    (checking : options.checkAgreement = true) {id : RouteId} (hid : id < state.arena.size) :
    state.Concordant graph (state.arena.route id) := by
  refine h.induct (motive := fun _ route => state.Concordant graph route)
    (fun _ part _ => concordant_leaf part _) ?_ hid
  intro _ base sub relation _ _ attachable hbase _
  refine (Concordant.attach_iff ⟨graph, options, false⟩ hbase).2 ?_
  rintro rfl
  obtain ⟨-, -, -, agrees⟩ := attachable.licensed
  exact agrees checking

end SearchState

namespace Session

variable {session : Session}

/-- When agreement is checked, the adjuncts of every stored route concord with each other in the
order of their attachment, and its root with the adjuncts of its adjuncts. The check refuses exactly
the adjuncts that would break this, and no other relation can break it. -/
theorem adjuncts_concord (reachable : Reachable session)
    (checking : session.options.checkAgreement = true) :
    (∀ id, id < session.search.arena.size →
      session.search.Concordant session.graph (session.search.arena.route id)) ∧
    ∀ base sub relation tracing, base < session.search.arena.size →
      (session.search.Concordant session.graph (session.search.attach base sub relation) ↔
        (relation = .adjunction → (Climb.start session.search).adjunctAgrees
          (session.setting tracing) sub base = true)) := by
  have concordant : ∀ id, id < session.search.arena.size →
      session.search.Concordant session.graph (session.search.arena.route id) :=
    fun id hid => reachable.stage.allBuilt.1.concordant checking hid
  refine ⟨concordant, fun base sub relation tracing hbase => ?_⟩
  exact SearchState.Concordant.attach_iff (session.setting tracing) (concordant base hbase)

/-- A host of adjuncts, a singular adjunct and a plural one. -/
def hostEntries : List Entry :=
  [⟨"h", [⟨[], [⟨some .adjoin, "A", []⟩], [⟨none, "N", []⟩]⟩]⟩,
    ⟨"s", [⟨[], [], [⟨none, "A", ["sg"]⟩]⟩]⟩,
    ⟨"p", [⟨[], [], [⟨none, "A", ["pl"]⟩]⟩]⟩]

/-- The session of a host that comes after a plural adjunct and two singular ones. -/
def hosting : Session :=
  ofEntries (.ofEntries hostEntries) { Options.standard with maxRoutes := 12 } [2, 1, 1, 0]

lemma hosting_started :
    Session.start (.ofEntries hostEntries) ["p", "s", "s", "h"]
      { Options.standard with maxRoutes := 12 } = .ok hosting := by
  have found : lookupAll (.ofEntries hostEntries) ["p", "s", "s", "h"] = .ok [2, 1, 1, 0] := by
    decide +kernel
  rw [Session.start, found]
  rfl

/-- The host has taken both singular adjuncts, which concord. With the plural one they would not. -/
theorem hosting_concordant :
    ((hosting.stepped 4).search.arena.route 5).adjuncts = [2, 1] ∧
      (hosting.stepped 4).search.Concordant (hosting.stepped 4).graph
        ((hosting.stepped 4).search.arena.route 5) ∧
      ¬(hosting.stepped 4).search.Concordant (hosting.stepped 4).graph
        ((hosting.stepped 4).search.attach 5 0 .adjunction) := by
  have reachable : Reachable (hosting.stepped 4) := (Reachable.start hosting_started).stepped 4
  obtain ⟨concordant, attach_iff⟩ := adjuncts_concord reachable (by decide +kernel)
  have refused : ¬(Climb.start (hosting.stepped 4).search).adjunctAgrees
      ((hosting.stepped 4).setting false) 0 5 = true := by decide +kernel
  refine ⟨by decide +kernel, concordant 5 (by decide +kernel), fun attached => refused ?_⟩
  exact (attach_iff 5 0 .adjunction false (by decide +kernel)).1 attached rfl

end Session

end MergeGrammar
