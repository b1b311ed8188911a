import MergeGrammar.Proofs.Lineage

/-!
# Searches in lock-step

Two searches whose policies agree on disjoint routes go through the same tables. They may differ in
what they try: a pair of routes that share a signal can be neighbors under one policy only, but
nothing comes of trying it.
-/

namespace MergeGrammar

/-- Two policies say the same of stored routes without a common signal. -/
def Policy.Interchangeable (graph : Graph) (options : Options) (read : Array WordPart)
    (p q : Policy) : Prop :=
  ∀ state : SearchState, state.AllBuilt graph options read → ∀ x y,
    x < state.arena.size → y < state.arena.size →
    (∀ s ∈ (state.arena.route x).signals, s ∉ (state.arena.route y).signals) →
    q.areNeighbors (state.arena.route x).span (state.arena.route y).span =
      p.areNeighbors (state.arena.route x).span (state.arena.route y).span

/-- Two settings that differ in interchangeable policies at most. -/
structure Setting.Alike (read : Array WordPart) (a b : Setting) : Prop where
  graph_eq : b.graph = a.graph
  maxRoutes_eq : b.options.maxRoutes = a.options.maxRoutes
  profileCap_eq : b.options.profileCap = a.options.profileCap
  checkAgreement_eq : b.options.checkAgreement = a.options.checkAgreement
  interchangeable : Policy.Interchangeable a.graph a.options read a.options.policy b.options.policy

namespace Climb

/-- Two searches that have found the same, whatever they have tried. -/
structure InStep (c d : Climb) : Prop where
  state_eq : d.state = c.state
  added_eq : d.added = c.added
  capped_eq : d.capped = c.capped

namespace InStep

variable {c d e : Climb}

lemma refl (c : Climb) : c.InStep c := ⟨rfl, rfl, rfl⟩

lemma symm (h : c.InStep d) : d.InStep c := ⟨h.state_eq.symm, h.added_eq.symm, h.capped_eq.symm⟩

lemma trans (h : c.InStep d) (h' : d.InStep e) : c.InStep e :=
  ⟨h'.state_eq.trans h.state_eq, h'.added_eq.trans h.added_eq, h'.capped_eq.trans h.capped_eq⟩

lemma route_eq (h : c.InStep d) (id : RouteId) : d.route id = c.route id := by
  rw [route, route, h.state_eq]

end InStep

lemma note_inStep (setting : Setting) (event : Event) (c : Climb) :
    c.InStep (c.note setting event) := by
  constructor <;> (rw [note]; split <;> rfl)

variable {a b : Setting} {read : Array WordPart} {va vb : RouteId → Climb → Climb}

/-- The tables of a search are coherent, and its routes are built. -/
structure Grounded (setting : Setting) (read : Array WordPart) (c : Climb) : Prop where
  coherent : c.state.Coherent read
  built : c.state.AllBuilt setting.graph setting.options read

lemma Grounded.moves {setting : Setting} {c next : Climb} (h : c.Grounded setting read)
    (moves : c.Moves setting.graph setting.options read next) : next.Grounded setting read :=
  ⟨moves.coherent h.coherent, moves.allBuilt h.built⟩

def VisitsInStep (a : Setting) (read : Array WordPart) (va vb : RouteId → Climb → Climb) : Prop :=
  ∀ (id : RouteId) (c d : Climb), c.InStep d → c.Grounded a read → id < c.state.arena.size →
    (va id c).InStep (vb id d)

section Combining

variable {setting : Setting} {relation : Relation} {base sub id other : RouteId} {c : Climb}

def tried (c : Climb) : Climb := { c with attempts := c.attempts + 1 }

lemma tried_inStep (c : Climb) : c.InStep c.tried := ⟨rfl, rfl, rfl⟩

/-- Nothing comes of trying what may not be combined. -/
lemma combine_of_barred (barred : base = sub ∨ conflict (c.route base) (c.route sub) = true ∨
    isFilled (c.route base) (c.route sub) relation = true) :
    c.InStep (c.combine setting va relation base sub) := by
  rw [combine]
  dsimp only
  split
  · exact c.tried_inStep
  · next hne =>
    split
    · exact c.tried_inStep.trans (note_inStep _ _ _)
    · next hconflict =>
      split
      · exact c.tried_inStep
      · next hfilled =>
        rcases barred with h | h | h
        · exact absurd h hne
        · exact absurd h hconflict
        · exact absurd h hfilled

lemma combine_of_open (hne : base ≠ sub) (hconflict : conflict (c.route base) (c.route sub) = false)
    (hfilled : isFilled (c.route base) (c.route sub) relation = false) :
    (c.tried.store setting va (c.state.attach base sub relation)).1.InStep
      (c.combine setting va relation base sub) := by
  have hconflict' : ¬conflict (c.tried.route base) (c.tried.route sub) = true :=
    Bool.eq_false_iff.1 hconflict
  have hfilled' : ¬isFilled (c.tried.route base) (c.tried.route sub) relation = true :=
    Bool.eq_false_iff.1 hfilled
  rw [combine]
  change InStep _ (if base = sub then c.tried else _)
  rw [if_neg hne]
  change InStep _ (if conflict (c.tried.route base) (c.tried.route sub) = true then _ else _)
  rw [if_neg hconflict']
  change InStep _ (if isFilled (c.tried.route base) (c.tried.route sub) relation = true then _
    else _)
  rw [if_neg hfilled']
  split
  · next next hstore =>
    have stored : c.tried.store setting va (c.state.attach base sub relation) = (next, none) :=
      hstore
    rw [stored]
    exact .refl next
  · next next new hstore =>
    have stored : c.tried.store setting va (c.state.attach base sub relation) = (next, some new) :=
      hstore
    rw [stored]
    exact note_inStep _ _ _

lemma tryArgument_of_conflict (hconflict : conflict (c.route other) (c.route id) = true) :
    c.InStep (c.tryArgument setting va id other) := by
  rw [tryArgument]
  split
  · exact .refl c
  · exact combine_of_barred (Or.inr (Or.inl hconflict))

lemma tryAdjunct_of_conflict (hconflict : conflict (c.route other) (c.route id) = true) :
    c.InStep (c.tryAdjunct setting va id other) := by
  rw [tryAdjunct]
  split
  · exact .refl c
  · split
    · exact note_inStep _ _ _
    · exact combine_of_barred (Or.inr (Or.inl hconflict))

end Combining

section Trying

variable (alike : a.Alike read b) (hvisit : VisitsInStep a read va vb) {c d : Climb}
  (h : c.InStep d) (grounded : c.Grounded a read)
include alike hvisit h grounded

lemma store_inStep {route : Route}
    (candidate : c.state.Candidate a.graph a.options read route) :
    (c.store a va route).1.InStep (d.store b vb route).1 := by
  rw [store, store]
  dsimp only
  rw [h.state_eq, alike.maxRoutes_eq, alike.profileCap_eq]
  by_cases hknown : c.state.isKnown route.key = true
  · rw [if_pos hknown, if_pos hknown]
    exact h
  rw [if_neg hknown, if_neg hknown]
  by_cases hroutes : a.options.maxRoutes ≤ c.state.arena.size
  · rw [if_pos hroutes, if_pos hroutes]
    exact ⟨congrArg (·.drop route.key) h.state_eq, h.added_eq, congrArg (· + 1) h.capped_eq⟩
  rw [if_neg hroutes, if_neg hroutes]
  by_cases hprofile : a.options.profileCap ≤ c.state.profileCount route.span
  · rw [if_pos hprofile, if_pos hprofile]
    exact ⟨congrArg (·.drop route.key) h.state_eq, h.added_eq, congrArg (· + 1) h.capped_eq⟩
  rw [if_neg hprofile, if_neg hprofile]
  have admits : c.state.Admits a.graph a.options read route :=
    ⟨candidate, by simpa using hknown, Nat.lt_of_not_le hroutes, Nat.lt_of_not_le hprofile⟩
  refine hvisit _ _ _ ⟨rfl, ?_, h.capped_eq⟩ ?_ ?_
  · exact congrArg (·.push c.state.arena.size) h.added_eq
  · exact ⟨grounded.coherent.move (.add admits), grounded.built.add candidate⟩
  · change c.state.arena.size < (c.state.add route).arena.size
    rw [SearchState.arena_add, Arena.size_push]
    exact Nat.lt_succ_self _

lemma combine_inStep {relation : Relation} {base sub : RouteId}
    (attachable : conflict (c.route base) (c.route sub) = false →
      isFilled (c.route base) (c.route sub) relation = false →
      c.state.Attachable a.graph a.options base sub relation) :
    (c.combine a va relation base sub).InStep (d.combine b vb relation base sub) := by
  by_cases barred : base = sub ∨ conflict (c.route base) (c.route sub) = true ∨
      isFilled (c.route base) (c.route sub) relation = true
  · refine (combine_of_barred barred).symm.trans (h.trans (combine_of_barred ?_))
    rw [h.route_eq, h.route_eq]
    exact barred
  · simp only [not_or, Bool.not_eq_true] at barred
    obtain ⟨hne, hconflict, hfilled⟩ := barred
    have tried : c.tried.InStep d.tried := c.tried_inStep.symm.trans (h.trans d.tried_inStep)
    have stored := store_inStep alike hvisit tried ⟨grounded.coherent, grounded.built⟩
      (.attach (attachable hconflict hfilled))
    refine (combine_of_open hne hconflict hfilled).symm.trans (stored.trans ?_)
    have opened := @combine_of_open vb b relation base sub d hne
    rw [h.route_eq, h.route_eq, h.state_eq] at opened
    exact opened hconflict hfilled

omit hvisit in
lemma neighbors_inStep {id other : RouteId} (hid : id < c.state.arena.size)
    (hother : other < c.state.arena.size)
    (hconflict : ¬conflict (c.route other) (c.route id) = true) :
    d.areNeighbors b id other = c.areNeighbors a id other := by
  have disjoint := (conflict_eq_false.1 (Bool.eq_false_iff.2 hconflict)).2
  rw [areNeighbors, areNeighbors, h.route_eq, h.route_eq]
  exact alike.interchangeable _ grounded.built id other hid hother fun s hs hs' => disjoint s hs' hs

lemma tryArgument_inStep {id other : RouteId} (hid : id < c.state.arena.size)
    (hother : other < c.state.arena.size)
    (edge : ((c.route other).root.signal, (c.route id).root.signal) ∈
      c.state.edges PartState.argEdges) :
    (c.tryArgument a va id other).InStep (d.tryArgument b vb id other) := by
  -- The policies are asked before the signals are compared, so on conflicting routes one search may
  -- try what the other does not.
  by_cases hconflict : conflict (c.route other) (c.route id) = true
  · refine (tryArgument_of_conflict hconflict).symm.trans (h.trans (tryArgument_of_conflict ?_))
    rw [h.route_eq, h.route_eq]
    exact hconflict
  · have neighbors := neighbors_inStep alike h grounded hid hother hconflict
    rw [tryArgument, tryArgument, neighbors, h.route_eq]
    split
    · exact h
    · next hguard =>
      exact combine_inStep alike hvisit h grounded (attachable_argument hid hother edge hguard)

lemma tryAdjunct_inStep {id other : RouteId} (hid : id < c.state.arena.size)
    (hother : other < c.state.arena.size)
    (edge : ((c.route other).root.signal, (c.route id).root.signal) ∈
      c.state.edges PartState.adjunctions)
    (uncovered : (c.route other).root.signal ∉ (c.route id).signals) :
    (c.tryAdjunct a va id other).InStep (d.tryAdjunct b vb id other) := by
  by_cases hconflict : conflict (c.route other) (c.route id) = true
  · refine (tryAdjunct_of_conflict hconflict).symm.trans (h.trans (tryAdjunct_of_conflict ?_))
    rw [h.route_eq, h.route_eq]
    exact hconflict
  · have neighbors := neighbors_inStep alike h grounded hid hother hconflict
    have agrees : d.adjunctAgrees b id other = c.adjunctAgrees a id other := by
      unfold adjunctAgrees rootEntry route
      rw [alike.graph_eq, h.state_eq]
    rw [tryAdjunct, tryAdjunct, neighbors, agrees, alike.checkAgreement_eq]
    split
    · exact h
    · next hneighbors =>
      split
      · exact (note_inStep _ _ _).symm.trans (h.trans (note_inStep _ _ _))
      · next hagrees =>
        exact combine_inStep alike hvisit h grounded fun hconflict _ =>
          attachable_adjunct hid hother edge uncovered hneighbors hagrees hconflict

end Trying

/-! ### Offers -/

/-- Two acts stay in step on grounded tables that extend those of `start`. -/
def ActsInStep (setting : Setting) (read : Array WordPart) (start : Climb)
    (act act' : Climb → Climb) : Prop :=
  ∀ c d : Climb, c.InStep d → start.state.Extends c.state → c.Grounded setting read →
    (act c).InStep (act' d)

/-- Two acts on the routes rooted at a signal stay in step on such tables. -/
def OffersInStep (setting : Setting) (read : Array WordPart) (start : Climb) (signal : Nat)
    (act act' : RouteId → Climb → Climb) : Prop :=
  ∀ (other : RouteId) (c d : Climb), c.InStep d → start.state.Extends c.state →
    c.Grounded setting read → other < c.state.arena.size → (c.route other).root.signal = signal →
    (act other c).InStep (act' other d)

variable {start : Climb}

lemma foldl_inStep {α : Type} {act act' : Climb → α → Climb} {items : List α}
    (hmoves : ∀ item ∈ items, ActMoves a read start (act · item))
    (hact : ∀ item ∈ items, ActsInStep a read start (act · item) (act' · item)) :
    ActsInStep a read start (items.foldl act) (items.foldl act') := by
  induction items with
  | nil => exact fun c d h _ _ => h
  | cons item items ih =>
    intro c d h hextends grounded
    have moves := hmoves item List.mem_cons_self c hextends grounded.coherent
    have first := hact item List.mem_cons_self c d h hextends grounded
    exact ih (fun i hi => hmoves i (List.mem_cons_of_mem _ hi))
      (fun i hi => hact i (List.mem_cons_of_mem _ hi)) _ _ first
      (hextends.trans moves.extends) (grounded.moves moves)

lemma offer_inStep {act act' : RouteId → Climb → Climb} {signal : Nat} (hpos : 0 < signal)
    (hmoves : OfferMoves a read start signal act)
    (hact : OffersInStep a read start signal act act') (fuel i : Nat) :
    ActsInStep a read start (offer act signal fuel i) (offer act' signal fuel i) := by
  induction fuel generalizing i with
  | zero => exact fun c d h _ _ => h
  | succ fuel ih =>
    intro c d h hextends grounded
    rw [offer, offer, h.state_eq]
    split
    · exact h
    · next id hid =>
      obtain ⟨hlt, hroot⟩ :=
        (grounded.coherent.mem_routesDown signal hpos id).1 (Array.mem_of_getElem? hid)
      have moves := hmoves id c hextends grounded.coherent hlt hroot
      have first := hact id c d h hextends grounded hlt hroot
      exact ih (i + 1) _ _ first (hextends.trans moves.extends) (grounded.moves moves)

variable (alike : a.Alike read b)

include alike in
lemma offerAll_inStep {act act' : RouteId → Climb → Climb} {signal : Nat} (hpos : 0 < signal)
    (hmoves : OfferMoves a read start signal act)
    (hact : OffersInStep a read start signal act act') :
    ActsInStep a read start (offerAll a act signal) (offerAll b act' signal) := by
  intro c d h hextends grounded
  rw [offerAll, offerAll, alike.maxRoutes_eq]
  exact offer_inStep hpos hmoves hact _ _ c d h hextends grounded

/-! ### Climbs, passes and searches -/

section Climbing

variable (hmoves : VisitMoves a read va) (hvisit : VisitsInStep a read va vb) {id : RouteId}
  {c d : Climb} (h : c.InStep d) (grounded : c.Grounded a read) (hid : id < c.state.arena.size)
include alike hmoves hvisit h grounded hid

lemma toHeads_inStep : (c.toHeads a va id).InStep (d.toHeads b vb id) := by
  rw [toHeads, toHeads, h.state_eq, h.route_eq]
  refine foldl_inStep
    (fun _ hhead => offerToHead_moves hmoves grounded.coherent hid hhead)
    (fun head hhead => ?_) c d h (.refl _) grounded
  refine offerAll_inStep alike
    (grounded.coherent.above_pos .merge head _ (grounded.coherent.root_read id hid).1 hhead)
    (argumentOffer_moves hmoves grounded.coherent hid hhead) ?_
  intro other c' d' h' hextends grounded' hother hsignal
  exact tryArgument_inStep alike hvisit h' grounded' (hid.trans_le hextends.size_le) hother
    (offer_argEdge grounded.coherent hid hextends grounded'.coherent hhead hsignal)

lemma toHosts_inStep : (c.toHosts a va id).InStep (d.toHosts b vb id) := by
  rw [toHosts, toHosts, h.state_eq, h.route_eq]
  refine foldl_inStep
    (fun _ hhost => offerToHost_moves hmoves grounded.coherent hid hhost)
    (fun host hhost => ?_) c d h (.refl _) grounded
  intro middle middle' hmiddle hextends grounded'
  have hsub : middle.route id = c.route id := hextends.route_eq id hid
  dsimp only
  rw [hmiddle.route_eq]
  split
  · exact hmiddle
  · next uncovered =>
    rw [hsub] at uncovered
    refine offerAll_inStep alike
      (grounded.coherent.above_pos .pairMerge host _ (grounded.coherent.root_read id hid).1 hhost)
      (adjunctOffer_moves hmoves grounded.coherent hid hhost uncovered) ?_ middle middle' hmiddle
      hextends grounded'
    intro other c' d' h' hextends grounded' hother hsignal
    refine tryAdjunct_inStep alike hvisit h' grounded' (hid.trans_le hextends.size_le) hother
      (offer_adjunctEdge grounded.coherent hid hextends grounded'.coherent hhost hsignal) ?_
    have hsub : c'.route id = c.route id := hextends.route_eq id hid
    rwa [hsignal, hsub]

lemma toWord_inStep : (c.toWord a va id).InStep (d.toWord b vb id) := by
  have entry : d.rootEntry b id = c.rootEntry a id := by
    rw [rootEntry, rootEntry, alike.graph_eq, h.route_eq]
  rw [toWord, toWord, entry, h.route_eq]
  split
  · exact h
  · next hguard =>
    simp only [Bool.or_eq_true, decide_eq_true_eq, not_or, Bool.not_eq_true] at hguard
    obtain ⟨⟨hfirst, htwo⟩, uncovered⟩ := hguard
    have hpos : 0 < (c.route id).root.signal - 1 := by lia
    refine offerAll_inStep alike hpos
      (partOffer_moves hmoves hid hfirst htwo uncovered) ?_ c d h (.refl _) grounded
    intro other c' d' h' hextends grounded' hother hsignal
    exact combine_inStep alike hvisit h' grounded'
      (attachable_part hid hextends hother hfirst htwo uncovered hsignal)

end Climbing

include alike

lemma climbUp_inStep (depth : Nat) :
    VisitsInStep a read (climbUp a depth) (climbUp b depth) := by
  induction depth with
  | zero => exact fun _ _ _ h _ _ => h
  | succ depth ih =>
    intro id c d h grounded hid
    rw [climbUp, climbUp]
    -- Only the first search is known to stay grounded, which is enough: the tables are the same.
    have hmoves : VisitMoves a read (climbUp a depth) := climbUp_moves depth
    let event : Event := .climbing (c.route id).root.signal id
    have noted : (c.note a event).InStep (d.note b (.climbing (d.route id).root.signal id)) :=
      (note_inStep _ _ _).symm.trans (h.trans (note_inStep _ _ _))
    have noting : c.Moves a.graph a.options read (c.note a event) := note_moves event c
    have grounded₁ := grounded.moves noting
    have hid₁ := hid.trans_le noting.extends.size_le
    have heads := toHeads_moves hmoves grounded₁.coherent hid₁
    have grounded₂ := grounded₁.moves heads
    have hid₂ := hid₁.trans_le heads.extends.size_le
    have hosts := toHosts_moves hmoves grounded₂.coherent hid₂
    have headed := toHeads_inStep alike hmoves ih noted grounded₁ hid₁
    have hosted := toHosts_inStep alike hmoves ih headed grounded₂ hid₂
    exact toWord_inStep alike hmoves ih hosted (grounded₂.moves hosts)
      (hid₂.trans_le hosts.extends.size_le)

lemma visit_inStep : VisitsInStep a read (Climb.visit a) (Climb.visit b) := by
  intro id c d h grounded hid
  rw [visit, visit, h.state_eq]
  exact climbUp_inStep alike _ id c d h grounded hid

lemma seed_inStep {c d : Climb} (h : c.InStep d) (grounded : c.Grounded a read) {part : WordPart}
    (standing : part.StandsIn read) : (c.seed a part).InStep (d.seed b part) := by
  rw [seed, seed, alike.graph_eq]
  exact store_inStep alike (visit_inStep alike) h grounded (.leaf standing)

lemma pass_inStep {c d : Climb} (h : c.InStep d) (grounded : c.Grounded a read) :
    (c.pass a).InStep (d.pass b) := by
  rw [pass, pass, h.state_eq]
  refine foldl_inStep (fun signal hsignal => ?_) (fun signal hsignal => ?_) c d h (.refl _) grounded
  · exact offer_moves (List.mem_range'_1.1 hsignal).1 (visitOffer_moves c signal) _ _
  · refine offerAll_inStep alike (List.mem_range'_1.1 hsignal).1 (visitOffer_moves c signal) ?_
    exact fun id c' d' h' _ grounded' hid _ => visit_inStep alike id c' d' h' grounded' hid

lemma settleWithin_inStep (fuel passes : Nat) {c d : Climb} (h : c.InStep d)
    (grounded : c.Grounded a read) :
    (settleWithin a fuel passes c).1.InStep (settleWithin b fuel passes d).1 ∧
      (settleWithin b fuel passes d).2 = (settleWithin a fuel passes c).2 := by
  induction fuel generalizing passes c d with
  | zero => exact ⟨h, rfl⟩
  | succ fuel ih =>
    have passed := pass_inStep alike h grounded
    have grounded' := grounded.moves (pass_moves grounded.coherent)
    rw [settleWithin, settleWithin]
    rw [h.state_eq, passed.state_eq]
    split
    · exact ⟨passed, rfl⟩
    · exact ih (passes + 1) passed grounded'

/-- Two searches stay in step until they come to rest, with the same number of passes. -/
theorem settle_inStep {c d : Climb} (h : c.InStep d) (grounded : c.Grounded a read) :
    (c.settle a).1.InStep (d.settle b).1 ∧ (d.settle b).2 = (c.settle a).2 := by
  rw [settle, settle, alike.maxRoutes_eq]
  exact settleWithin_inStep alike _ _ h grounded

end Climb

end MergeGrammar
