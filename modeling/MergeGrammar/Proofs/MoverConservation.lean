import MergeGrammar.Proofs.DerivationExactness
import MergeGrammar.Proofs.SpanAccounting

/-!
# Conservation of movers

A span carries its movers, free and used. An argument or a remnant brings what it carries to the
span it is attached to, and neither loses anything. An adjunct brings its used movers only, but if
it has free ones its host becomes a mover. So without adjuncts a route carries exactly the word
parts that are free to move, and whatever it has used was a free mover of an earlier route.
-/

namespace MergeGrammar

namespace Span

/-- The signal is a mover of the span, free or used. -/
def Carries (span : Span) (signal : Signal) : Prop :=
  signal ∈ span.movers ∨ signal ∈ span.usedMovers

instance (span : Span) (signal : Signal) : Decidable (span.Carries signal) :=
  inferInstanceAs (Decidable (_ ∨ _))

variable {span other : Span} {x : Signal}

lemma carries_leaf {head : Signal} {free : Bool} :
    (leaf head free).Carries x ↔ x = head ∧ free = true := by
  cases free <;> simp [Carries, leaf]

lemma carries_withPart : (span.withPart other).Carries x ↔ span.Carries x ∨ other.Carries x := by
  rw [Carries, mem_movers_withPart, mem_usedMovers_withPart, Carries, Carries]
  tauto

/-- The head of either side is used if it is no longer free, so nothing is lost. -/
lemma carries_withArg : (span.withArg other).Carries x ↔ span.Carries x ∨ other.Carries x := by
  rw [Carries, mem_movers_withArg, mem_usedMovers_withArg, Carries, Carries, Consumes]
  grind

lemma carries_withAdjunct : (span.withAdjunct other).Carries x ↔
    span.Carries x ∨ x ∈ other.usedMovers ∨ x = span.head ∧ other.movers.isEmpty = false := by
  rw [Carries, mem_movers_withAdjunct, mem_usedMovers_withAdjunct, Carries]
  tauto

end Span

/-- What a route carries after something has been attached to it other than an adjunct. -/
lemma Route.carries_extend {base sub : Route} {id : RouteId} {relation : Relation}
    (h : relation ≠ .adjunction) {x : Signal} :
    (base.extend id sub relation).span.Carries x ↔ base.span.Carries x ∨ sub.span.Carries x := by
  cases relation with
  | argument => exact Span.carries_withArg
  | adjunction => exact absurd rfl h
  | part => exact Span.carries_withPart

/-! ### Derivations without adjuncts -/

/-- No adjunct is attached anywhere in the derivation. -/
inductive Derivation.Bare : Derivation → Prop where
  | node {root : WordPart} {part arg : Option Derivation} (part_bare : ∀ d, part = some d → d.Bare)
    (arg_bare : ∀ d, arg = some d → d.Bare) : Bare (.node root part arg [])

namespace Derivation

lemma bare_leaf (root : WordPart) : (node root none none []).Bare :=
  .node (fun _ h => by cases h) fun _ h => by cases h

lemma Bare.of_attach {base sub : Derivation} {relation : Relation} (room : base.HasRoom relation)
    (bare : (base.attach sub relation).Bare) : relation ≠ .adjunction ∧ base.Bare ∧ sub.Bare := by
  obtain ⟨root, part, arg, adjuncts⟩ := base
  cases relation with
  | argument =>
    rw [HasRoom] at room
    subst room
    cases bare with
    | node part_bare arg_bare =>
      exact ⟨by simp, .node part_bare (fun _ h => by cases h), arg_bare sub rfl⟩
  | adjunction =>
    generalize hwhole : (Derivation.node root part arg adjuncts).attach sub .adjunction = whole
      at bare
    cases bare with
    | node => simp [attach] at hwhole
  | part =>
    rw [HasRoom] at room
    subst room
    cases bare with
    | node part_bare arg_bare =>
      exact ⟨by simp, .node (fun _ h => by cases h) arg_bare, part_bare sub rfl⟩

end Derivation

/-! ### Stored routes -/

/-- The word part read at a signal is free to move. -/
def Graph.FreeAt (graph : Graph) (read : Array WordPart) (signal : Signal) : Prop :=
  ∃ part : WordPart, part.StandsIn read ∧ part.signal = signal ∧
    (graph.entry part.entry).isFree = true

namespace SearchState

variable {graph : Graph} {options : Options} {read : Array WordPart} {state : SearchState}
  (h : state.AllBuilt graph options read)
include h

/-- What is used was a free mover of an earlier route that is part of this one. -/
lemma AllBuilt.exists_mover {id : RouteId} (hid : id < state.arena.size) {s : Signal}
    (hs : s ∈ (state.arena.route id).span.usedMovers) :
    ∃ earlier < id, s ∈ (state.arena.route earlier).span.movers ∧
      ∀ t ∈ (state.arena.route earlier).signals, t ∈ (state.arena.route id).signals := by
  refine h.induct (motive := fun id route => ∀ s ∈ route.span.usedMovers,
    ∃ earlier < id, s ∈ (state.arena.route earlier).span.movers ∧
      ∀ t ∈ (state.arena.route earlier).signals, t ∈ route.signals) ?_ ?_ hid s hs
  · intro id part _ s hs
    exact absurd hs (SignalSet.not_mem_empty s)
  · intro id base sub relation base_lt sub_lt attachable ihbase ihsub s hs
    have attaching := attachable.attaching h
    have base_sub : ∀ t ∈ (state.arena.route base).signals,
        t ∈ (state.attach base sub relation).signals := by
      intro t ht
      rw [attach, Route.signals_extend, SignalSet.mem_union]
      exact Or.inl ht
    have sub_sub : ∀ t ∈ (state.arena.route sub).signals,
        t ∈ (state.attach base sub relation).signals := by
      intro t ht
      rw [attach, Route.signals_extend, SignalSet.mem_union]
      exact Or.inr ht
    -- Used before in one of the two, or one of their heads that is used now.
    have origin : s ∈ (state.arena.route base).span.usedMovers ∨
        s ∈ (state.arena.route sub).span.usedMovers ∨
        s ∈ (state.arena.route base).span.movers ∨ s ∈ (state.arena.route sub).span.movers := by
      cases relation with
      | argument =>
        rcases Span.mem_usedMovers_withArg.1 hs with hs | hs | ⟨hmover, rfl⟩ | ⟨hconsumes, rfl⟩
        · exact Or.inl hs
        · exact Or.inr (Or.inl hs)
        · exact Or.inr (Or.inr (Or.inl hmover))
        · exact Or.inr (Or.inr (Or.inr (attaching.consumes_iff.1 hconsumes)))
      | adjunction => exact (Span.mem_usedMovers_withAdjunct.1 hs).imp_right Or.inl
      | part => exact (Span.mem_usedMovers_withPart.1 hs).imp_right Or.inl
    rcases origin with hs | hs | hs | hs
    · obtain ⟨earlier, hlt, hmover, hsub⟩ := ihbase s hs
      exact ⟨earlier, hlt.trans base_lt, hmover, fun t ht => base_sub t (hsub t ht)⟩
    · obtain ⟨earlier, hlt, hmover, hsub⟩ := ihsub s hs
      exact ⟨earlier, hlt.trans sub_lt, hmover, fun t ht => sub_sub t (hsub t ht)⟩
    · exact ⟨base, base_lt, hs, base_sub⟩
    · exact ⟨sub, sub_lt, hs, sub_sub⟩

/-- Without adjuncts a route carries what is free to move, and nothing else. -/
lemma AllBuilt.carries_iff {id : RouteId} (hid : id < state.arena.size)
    (bare : (state.tree id).Bare) {s : Signal} : (state.arena.route id).span.Carries s ↔
      s ∈ (state.arena.route id).signals ∧ graph.FreeAt read s := by
  refine h.induct (motive := fun _ route => (route.unfold state.arena.derivations).Bare →
    ∀ s, route.span.Carries s ↔ s ∈ route.signals ∧ graph.FreeAt read s) ?_ ?_ hid bare s
  · intro id part standing _ s
    have hfree : graph.FreeAt read part.signal ↔ (graph.entry part.entry).isFree = true := by
      constructor
      · rintro ⟨other, standing', hsignal, hfree⟩
        rwa [standing'.eq standing hsignal] at hfree
      · exact fun hfree => ⟨part, standing, rfl, hfree⟩
    rw [Route.leaf, Span.carries_leaf, SignalSet.mem_singleton]
    refine and_congr_right fun hs => ?_
    rw [hs, hfree]
  · intro id base sub relation _ _ attachable ihbase ihsub bare s
    rw [attach, Route.unfold_extend (h.getElem?_derivations attachable.sub_lt)] at bare
    obtain ⟨hrelation, bare_base, bare_sub⟩ :=
      bare.of_attach (Route.hasRoom_of_unfilled _ attachable.unfilled)
    rw [attach, Route.carries_extend hrelation, Route.signals_extend, SignalSet.mem_union,
      ihbase bare_base, ihsub bare_sub, or_and_right]

end SearchState

namespace Session

variable {session : Session}

/-- The free movers and the used movers of a stored route are separate sets of its signals. It has
used whatever its components have used, and each used mover was free in an earlier route inside it.
Whatever two routes are joined, an argument or a remnant adds what it carries to what the base
carries, and an adjunct its used movers and, if it has free ones, the head of its host. A route
without adjuncts carries exactly those of its signals that are free to move. -/
theorem movers_conserved (reachable : Reachable session) {id : RouteId}
    (hid : id < session.search.arena.size) :
    let state := session.search
    let route := state.arena.route id
    ((∀ s ∈ route.span.movers, s ∈ route.signals) ∧
      (∀ s ∈ route.span.usedMovers, s ∈ route.signals) ∧
      ∀ s ∈ route.span.movers, s ∉ route.span.usedMovers) ∧
    (∀ component ∈ route.components, ∀ s ∈ (state.arena.route component).span.usedMovers,
      s ∈ route.span.usedMovers) ∧
    (∀ s ∈ route.span.usedMovers, ∃ earlier < id, s ∈ (state.arena.route earlier).span.movers ∧
      ∀ t ∈ (state.arena.route earlier).signals, t ∈ route.signals) ∧
    (∀ base sub relation, relation ≠ .adjunction → ∀ s,
      (state.attach base sub relation).span.Carries s ↔
        (state.arena.route base).span.Carries s ∨ (state.arena.route sub).span.Carries s) ∧
    (∀ base sub s, (state.attach base sub .adjunction).span.Carries s ↔
      (state.arena.route base).span.Carries s ∨ s ∈ (state.arena.route sub).span.usedMovers ∨
        s = (state.arena.route base).span.head ∧
          (state.arena.route sub).span.movers.isEmpty = false) ∧
    ∀ d, session.derivations[id]? = some d → d.Bare → ∀ s,
      route.span.Carries s ↔ s ∈ route.signals ∧
        session.graph.FreeAt session.reading.wordParts s := by
  have stage := reachable.stage
  have built := stage.allBuilt.1
  have fits := built.fits hid
  obtain ⟨free, consumed, scope⟩ := (built.settled hid).scope
  refine ⟨⟨fits.movers_mem, fits.used_mem, fits.unused⟩, fun component hcomponent s hs => ?_,
    fun s hs => built.exists_mover hid hs, fun base sub relation hrelation s => ?_,
    fun base sub s => Span.carries_withAdjunct, fun d hd bare s => ?_⟩
  · exact (scope.used s).2 (Or.inl ⟨component, hcomponent, hs⟩)
  · exact Route.carries_extend hrelation
  · obtain ⟨-, rfl⟩ := stage.getElem?_iff.1 hd
    exact built.carries_iff hid bare

/-- The head has used its noun, which was free when it stood alone, and carries nothing else. -/
theorem fronted_noun_conserved :
    2 ∈ ((fronted.stepped 3).search.arena.route 4).span.usedMovers ∧
      (∃ earlier < 4, 2 ∈ ((fronted.stepped 3).search.arena.route earlier).span.movers) ∧
      ∀ s, ((fronted.stepped 3).search.arena.route 4).span.Carries s ↔
        s ∈ ((fronted.stepped 3).search.arena.route 4).signals ∧
          (fronted.stepped 3).graph.FreeAt (fronted.stepped 3).reading.wordParts s := by
  have stage := (fronted_reachable 3).stage
  have noun : (1 : RouteId) < (fronted.stepped 3).search.arena.size ∧
      (fronted.stepped 3).search.arena.route 1 = .leaf ⟨2, 1, 2⟩ true := by
    decide +kernel
  have head : (4 : RouteId) < (fronted.stepped 3).search.arena.size ∧
      (fronted.stepped 3).search.arena.route 4 =
        (Route.leaf ⟨3, 2, 3⟩ false).extend 1 (.leaf ⟨2, 1, 2⟩ true) .argument := by
    decide +kernel
  have hused : 2 ∈ ((fronted.stepped 3).search.arena.route 4).span.usedMovers := by
    decide +kernel
  have htree : (fronted.stepped 3).search.tree 4 =
      .node ⟨3, 2, 3⟩ none (some (.node ⟨2, 1, 2⟩ none none [])) [] := by
    rw [stage.allBuilt.1.tree_eq head.1, head.2]
    simp only [Route.extend, Route.leaf, Option.map_none, Option.map_some, List.map_nil,
      stage.allBuilt.1.tree_eq noun.1, noun.2]
  have hbare : ((fronted.stepped 3).search.tree 4).Bare := by
    rw [htree]
    refine .node (fun _ h => by cases h) fun d hd => ?_
    cases hd
    exact Derivation.bare_leaf _
  obtain ⟨-, -, hearlier, -, -, hcarries⟩ := movers_conserved (fronted_reachable 3) head.1
  obtain ⟨earlier, hlt, hmover, -⟩ := hearlier 2 hused
  exact ⟨hused, ⟨earlier, hlt, hmover⟩, hcarries _ (stage.getElem?_iff.2 ⟨head.1, rfl⟩) hbare⟩

end Session

end MergeGrammar
