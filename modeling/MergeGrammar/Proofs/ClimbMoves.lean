import MergeGrammar.Proofs.SearchCoherence

/-!
# Climbs make moves

Whatever a climb, a pass or a whole search does to coherent tables is a sequence of moves. So an
invariant of the tables has to be checked for the two kinds of moves only, and not for every loop of
the search.
-/

namespace MergeGrammar

namespace Climb

lemma conflict_eq_false {base sub : Route} : conflict base sub = false ↔
    base.span.overlaps sub.span = false ∧ ∀ x ∈ base.signals, x ∉ sub.signals := by
  rw [conflict, Bool.or_eq_false_iff, Bool.not_eq_false', SignalSet.isDisjoint_iff]

lemma isFilled_argument {base sub : Route} : isFilled base sub .argument = false ↔
    base.arg = none ∧ sub.span.head ∉ base.span.usedMovers := by
  simp [isFilled]

lemma isFilled_part {base sub : Route} : isFilled base sub .part = false ↔ base.part = none := by
  simp [isFilled]

variable {setting : Setting} {read : Array WordPart} {visit : RouteId → Climb → Climb}

lemma note_moves (event : Event) (climb : Climb) :
    climb.Moves setting.graph setting.options read (climb.note setting event) := by
  refine .single (.idle ?_ ?_ ?_) <;> (rw [note]; split <;> rfl)

def VisitMoves (setting : Setting) (read : Array WordPart) (visit : RouteId → Climb → Climb) :
    Prop :=
  ∀ (id : RouteId) (climb : Climb), climb.state.Coherent read → id < climb.state.arena.size →
    climb.Moves setting.graph setting.options read (visit id climb)

lemma store_moves (hvisit : VisitMoves setting read visit) {route : Route} {climb : Climb}
    (coherent : climb.state.Coherent read)
    (candidate : climb.state.Candidate setting.graph setting.options read route) :
    climb.Moves setting.graph setting.options read (climb.store setting visit route).1 := by
  rw [store]
  dsimp only
  split
  · exact .refl
  · next hknown =>
    have unknown : climb.state.isKnown route.key = false := by simpa using hknown
    split
    · next hroutes =>
      exact .single (.drop ⟨candidate, unknown, Or.inl hroutes⟩ rfl rfl rfl)
    · next hroutes =>
      split
      · next hprofile =>
        exact .single (.drop ⟨candidate, unknown, Or.inr hprofile⟩ rfl rfl rfl)
      · next hprofile =>
        have admits : climb.state.Admits setting.graph setting.options read route :=
          ⟨candidate, unknown, Nat.lt_of_not_le hroutes, Nat.lt_of_not_le hprofile⟩
        let stored : Climb := { climb with
          state := climb.state.add route
          added := climb.added.push climb.state.arena.size }
        refine .head (b := stored) (.add admits rfl rfl rfl) ?_
        refine hvisit _ _ (coherent.move (.add admits)) ?_
        rw [SearchState.arena_add, Arena.size_push]
        exact Nat.lt_succ_self _

lemma combine_moves (hvisit : VisitMoves setting read visit) {relation : Relation}
    {base sub : RouteId} {climb : Climb} (coherent : climb.state.Coherent read)
    (attachable : conflict (climb.route base) (climb.route sub) = false →
      isFilled (climb.route base) (climb.route sub) relation = false →
      climb.state.Attachable setting.graph setting.options base sub relation) :
    climb.Moves setting.graph setting.options read
      (climb.combine setting visit relation base sub) := by
  rw [combine]
  let tried : Climb := { climb with attempts := climb.attempts + 1 }
  have trying : climb.Moves setting.graph setting.options read tried := .single (.idle rfl rfl rfl)
  refine trying.trans ?_
  dsimp only
  split
  · exact .refl
  · split
    · exact note_moves _ _
    · next hconflict =>
      split
      · exact .refl
      · next hfilled =>
        have candidate : climb.state.Candidate setting.graph setting.options read
            (climb.state.attach base sub relation) :=
          .attach (attachable (Bool.eq_false_iff.2 hconflict)
            (Bool.eq_false_iff.2 hfilled))
        have stored : tried.Moves setting.graph setting.options read
            (tried.store setting visit (climb.state.attach base sub relation)).1 :=
          store_moves hvisit coherent candidate
        split
        · next next hstore =>
          change Climb.Moves _ _ _ _ (next, (none : Option RouteId)).1
          rw [← hstore]
          exact stored
        · next next id hstore =>
          refine Relation.ReflTransGen.trans (b := (next, some id).1) ?_ (note_moves _ _)
          rw [← hstore]
          exact stored

/-! ### Offers -/

/-- What acts make moves on coherent tables that extend those of `start`. -/
def ActMoves (setting : Setting) (read : Array WordPart) (start : Climb) (act : Climb → Climb) :
    Prop :=
  ∀ climb : Climb, start.state.Extends climb.state → climb.state.Coherent read →
    climb.Moves setting.graph setting.options read (act climb)

/-- What acts on the routes rooted at a signal make moves on such tables. -/
def OfferMoves (setting : Setting) (read : Array WordPart) (start : Climb) (signal : Nat)
    (act : RouteId → Climb → Climb) : Prop :=
  ∀ (other : RouteId) (climb : Climb), start.state.Extends climb.state →
    climb.state.Coherent read → other < climb.state.arena.size →
    (climb.route other).root.signal = signal →
    climb.Moves setting.graph setting.options read (act other climb)

variable {start : Climb}

lemma foldl_moves {α : Type} {act : Climb → α → Climb} {items : List α}
    (hact : ∀ item ∈ items, ActMoves setting read start (act · item)) :
    ActMoves setting read start (items.foldl act) := by
  induction items with
  | nil => exact fun climb _ _ => .refl
  | cons item items ih =>
    intro climb hextends coherent
    have first := hact item List.mem_cons_self climb hextends coherent
    exact first.trans (ih (fun i hi => hact i (List.mem_cons_of_mem _ hi)) _
      (hextends.trans first.extends) (first.coherent coherent))

lemma offer_moves {act : RouteId → Climb → Climb} {signal : Nat} (hpos : 0 < signal)
    (hact : OfferMoves setting read start signal act) (fuel i : Nat) :
    ActMoves setting read start (offer act signal fuel i) := by
  induction fuel generalizing i with
  | zero => exact fun climb _ _ => .refl
  | succ fuel ih =>
    intro climb hextends coherent
    rw [offer]
    split
    · exact .refl
    · next id hid =>
      obtain ⟨hlt, hroot⟩ :=
        (coherent.mem_routesDown signal hpos id).1 (Array.mem_of_getElem? hid)
      have first := hact id climb hextends coherent hlt hroot
      exact first.trans (ih (i + 1) _ (hextends.trans first.extends) (first.coherent coherent))

section Trying

variable {id other : RouteId} {climb : Climb} (hid : id < climb.state.arena.size)
  (hother : other < climb.state.arena.size)
include hid hother

lemma attachable_argument
    (edge : ((climb.route other).root.signal, (climb.route id).root.signal) ∈
      climb.state.edges PartState.argEdges)
    (hguard : ¬((climb.route other).arg.isSome || !climb.areNeighbors setting id other) = true)
    (hconflict : conflict (climb.route other) (climb.route id) = false)
    (hfilled : isFilled (climb.route other) (climb.route id) .argument = false) :
    climb.state.Attachable setting.graph setting.options other id .argument := by
  simp only [Bool.or_eq_true, Bool.not_eq_true', not_or, Bool.not_eq_false] at hguard
  obtain ⟨apart, disjoint⟩ := conflict_eq_false.1 hconflict
  obtain ⟨free, unused⟩ := isFilled_argument.1 hfilled
  exact ⟨hother, hid, disjoint, apart, edge, free, unused, hguard.2⟩

lemma attachable_adjunct
    (edge : ((climb.route other).root.signal, (climb.route id).root.signal) ∈
      climb.state.edges PartState.adjunctions)
    (uncovered : (climb.route other).root.signal ∉ (climb.route id).signals)
    (hneighbors : ¬(!climb.areNeighbors setting id other) = true)
    (hagrees : ¬(setting.options.checkAgreement && !climb.adjunctAgrees setting id other) = true)
    (hconflict : conflict (climb.route other) (climb.route id) = false) :
    climb.state.Attachable setting.graph setting.options other id .adjunction := by
  obtain ⟨apart, disjoint⟩ := conflict_eq_false.1 hconflict
  have neighbors : climb.areNeighbors setting id other = true := by simpa using hneighbors
  have agrees : setting.options.checkAgreement = true →
      climb.adjunctAgrees setting id other = true := by
    intro hcheck
    simpa [hcheck] using hagrees
  exact ⟨hother, hid, disjoint, apart, edge, uncovered, neighbors, agrees⟩

variable (hvisit : VisitMoves setting read visit) (coherent : climb.state.Coherent read)
include hvisit coherent

lemma tryArgument_moves
    (edge : ((climb.route other).root.signal, (climb.route id).root.signal) ∈
      climb.state.edges PartState.argEdges) :
    climb.Moves setting.graph setting.options read
      (climb.tryArgument setting visit id other) := by
  rw [tryArgument]
  split
  · exact .refl
  · next hguard =>
    exact combine_moves hvisit coherent (attachable_argument hid hother edge hguard)

lemma tryAdjunct_moves
    (edge : ((climb.route other).root.signal, (climb.route id).root.signal) ∈
      climb.state.edges PartState.adjunctions)
    (uncovered : (climb.route other).root.signal ∉ (climb.route id).signals) :
    climb.Moves setting.graph setting.options read
      (climb.tryAdjunct setting visit id other) := by
  rw [tryAdjunct]
  split
  · exact .refl
  · next hneighbors =>
    split
    · exact note_moves _ _
    · next hagrees =>
      exact combine_moves hvisit coherent fun hconflict _ =>
        attachable_adjunct hid hother edge uncovered hneighbors hagrees hconflict

end Trying

/-! ### Climbs, passes and searches -/

section Offers

variable {id : RouteId} {climb current : Climb} (hvisit : VisitMoves setting read visit)
  (coherent : climb.state.Coherent read) (hid : id < climb.state.arena.size)
  (hextends : climb.state.Extends current.state)
  (hcurrent : current.state.Coherent read) {other : RouteId}
  (hother : other < current.state.arena.size)

section Edges

include coherent hid hextends hcurrent

/-- The edge by which a route is offered to the routes of a head later on. -/
lemma offer_argEdge {head : Signal}
    (hhead : head ∈ (climb.state.part (climb.route id).root.signal).headEdges)
    (hsignal : (current.route other).root.signal = head) :
    ((current.route other).root.signal, (current.route id).root.signal) ∈
      current.state.edges PartState.argEdges := by
  have hroot := (coherent.root_read id hid).1
  have hpos : 0 < head := coherent.above_pos .merge head _ hroot hhead
  have hsub : current.route id = climb.route id := hextends.route_eq id hid
  rw [hsignal, hsub]
  refine (hcurrent.mem_edges .merge hpos hroot).2 ?_
  rw [hextends.above_eq]
  exact hhead

/-- The edge by which a route is offered to the routes of a host later on. -/
lemma offer_adjunctEdge {host : Signal}
    (hhost : host ∈ (climb.state.part (climb.route id).root.signal).adjunctTo)
    (hsignal : (current.route other).root.signal = host) :
    ((current.route other).root.signal, (current.route id).root.signal) ∈
      current.state.edges PartState.adjunctions := by
  have hroot := (coherent.root_read id hid).1
  have hpos : 0 < host := coherent.above_pos .pairMerge host _ hroot hhost
  have hsub : current.route id = climb.route id := hextends.route_eq id hid
  rw [hsignal, hsub]
  refine (hcurrent.mem_edges .pairMerge hpos hroot).2 ?_
  rw [hextends.above_eq]
  exact hhost

end Edges

include hid hextends hother in
lemma attachable_part (hfirst : (climb.rootEntry setting id).isFirstPart = false)
    (htwo : ¬(climb.route id).root.signal < 2)
    (uncovered : (climb.route id).root.signal - 1 ∉ (climb.route id).signals)
    (hsignal : (current.route other).root.signal = (climb.route id).root.signal - 1)
    (hconflict : conflict (current.route other) (current.route id) = false)
    (hfilled : isFilled (current.route other) (current.route id) .part = false) :
    current.state.Attachable setting.graph setting.options other id .part := by
  have hsub : current.route id = climb.route id := hextends.route_eq id hid
  obtain ⟨apart, disjoint⟩ := conflict_eq_false.1 hconflict
  refine ⟨hother, hid.trans_le hextends.size_le, disjoint, apart, ?_, ?_, ?_,
    isFilled_part.1 hfilled⟩
  · change (setting.graph.entry (current.route id).root.entry).isFirstPart = false
    rw [hsub]
    exact hfirst
  · change (current.route other).root.signal + 1 = (current.route id).root.signal
    rw [hsignal, hsub]
    lia
  · change (current.route other).root.signal ∉ (current.route id).signals
    rwa [hsignal, hsub]

section Offering

include hvisit hid

include coherent in
lemma argumentOffer_moves {head : Signal}
    (hhead : head ∈ (climb.state.part (climb.route id).root.signal).headEdges) :
    OfferMoves setting read climb head (tryArgument setting visit id) :=
  fun _ _ hextends hcurrent hother hsignal =>
    tryArgument_moves (hid.trans_le hextends.size_le) hother hvisit hcurrent
      (offer_argEdge coherent hid hextends hcurrent hhead hsignal)

include coherent in
lemma adjunctOffer_moves {host : Signal}
    (hhost : host ∈ (climb.state.part (climb.route id).root.signal).adjunctTo)
    (uncovered : host ∉ (climb.route id).signals) :
    OfferMoves setting read climb host (tryAdjunct setting visit id) := by
  intro other current hextends hcurrent hother hsignal
  refine tryAdjunct_moves (hid.trans_le hextends.size_le) hother hvisit hcurrent
    (offer_adjunctEdge coherent hid hextends hcurrent hhost hsignal) ?_
  have hsub : current.route id = climb.route id := hextends.route_eq id hid
  rwa [hsignal, hsub]

lemma partOffer_moves (hfirst : (climb.rootEntry setting id).isFirstPart = false)
    (htwo : ¬(climb.route id).root.signal < 2)
    (uncovered : (climb.route id).root.signal - 1 ∉ (climb.route id).signals) :
    OfferMoves setting read climb ((climb.route id).root.signal - 1)
      fun other => combine setting visit .part other id :=
  fun _ _ hextends hcurrent hother hsignal =>
    combine_moves hvisit hcurrent
      (attachable_part hid hextends hother hfirst htwo uncovered hsignal)

include coherent

lemma offerToHead_moves {head : Signal}
    (hhead : head ∈ (climb.state.part (climb.route id).root.signal).headEdges) :
    ActMoves setting read climb (offerAll setting (tryArgument setting visit id) head) :=
  offer_moves (coherent.above_pos .merge head _ (coherent.root_read id hid).1 hhead)
    (argumentOffer_moves hvisit coherent hid hhead) _ _

lemma offerToHost_moves {host : Signal}
    (hhost : host ∈ (climb.state.part (climb.route id).root.signal).adjunctTo) :
    ActMoves setting read climb fun current =>
      if host ∈ (current.route id).signals then current
      else offerAll setting (tryAdjunct setting visit id) host current := by
  intro middle hmiddle hcoherent
  have hsub : middle.route id = climb.route id := hmiddle.route_eq id hid
  dsimp only
  split
  · exact .refl
  · next uncovered =>
    exact offer_moves (coherent.above_pos .pairMerge host _ (coherent.root_read id hid).1 hhost)
      (adjunctOffer_moves hvisit coherent hid hhost (hsub ▸ uncovered)) _ _ middle hmiddle hcoherent

lemma toHeads_moves :
    climb.Moves setting.graph setting.options read (climb.toHeads setting visit id) :=
  foldl_moves (fun _ hhead => offerToHead_moves hvisit coherent hid hhead) climb (.refl _) coherent

lemma toHosts_moves :
    climb.Moves setting.graph setting.options read (climb.toHosts setting visit id) :=
  foldl_moves (fun _ hhost => offerToHost_moves hvisit coherent hid hhost) climb (.refl _) coherent

lemma toWord_moves :
    climb.Moves setting.graph setting.options read (climb.toWord setting visit id) := by
  rw [toWord]
  split
  · exact .refl
  · next hguard =>
    simp only [Bool.or_eq_true, decide_eq_true_eq, not_or, Bool.not_eq_true] at hguard
    obtain ⟨⟨hfirst, htwo⟩, uncovered⟩ := hguard
    have hpos : 0 < (climb.route id).root.signal - 1 := by lia
    exact offer_moves hpos (partOffer_moves hvisit hid hfirst htwo uncovered) _ _ climb
      (.refl _) coherent

end Offering

end Offers

lemma climbUp_moves (depth : Nat) : VisitMoves setting read (climbUp setting depth) := by
  induction depth with
  | zero => exact fun _ _ _ _ => .refl
  | succ depth ih =>
    intro id climb coherent hid
    rw [climbUp]
    let event : Event := .climbing (climb.route id).root.signal id
    have noted : climb.Moves setting.graph setting.options read (climb.note setting event) :=
      note_moves event climb
    have heads := toHeads_moves ih (noted.coherent coherent)
      (hid.trans_le noted.extends.size_le)
    have headed := noted.trans heads
    have hosts := toHosts_moves ih (headed.coherent coherent)
      (hid.trans_le headed.extends.size_le)
    have hosted := headed.trans hosts
    exact hosted.trans (toWord_moves ih (hosted.coherent coherent)
      (hid.trans_le hosted.extends.size_le))

lemma visit_moves : VisitMoves setting read (Climb.visit setting) :=
  fun id climb => climbUp_moves _ id climb

/-- Every route may climb at any time. -/
lemma visitOffer_moves (start : Climb) (signal : Nat) :
    OfferMoves setting read start signal (Climb.visit setting) :=
  fun id climb _ coherent hid _ => visit_moves id climb coherent hid

lemma seed_moves {part : WordPart} {climb : Climb} (coherent : climb.state.Coherent read)
    (standing : part.StandsIn read) :
    climb.Moves setting.graph setting.options read (climb.seed setting part) :=
  store_moves visit_moves coherent (.leaf standing)

lemma pass_moves {climb : Climb} (coherent : climb.state.Coherent read) :
    climb.Moves setting.graph setting.options read (climb.pass setting) := by
  refine foldl_moves (fun signal hsignal => ?_) climb (.refl _) coherent
  exact offer_moves (List.mem_range'_1.1 hsignal).1 (visitOffer_moves climb signal) _ _

lemma settleWithin_moves (fuel passes : Nat) {climb : Climb}
    (coherent : climb.state.Coherent read) :
    climb.Moves setting.graph setting.options read (settleWithin setting fuel passes climb).1 := by
  induction fuel generalizing passes climb with
  | zero => exact .refl
  | succ fuel ih =>
    have passed : climb.Moves setting.graph setting.options read (climb.pass setting) :=
      pass_moves coherent
    rw [settleWithin]
    split
    · exact passed
    · exact passed.trans (ih (passes + 1) (passed.coherent coherent))

lemma settle_moves {climb : Climb} (coherent : climb.state.Coherent read) :
    climb.Moves setting.graph setting.options read (climb.settle setting).1 :=
  settleWithin_moves _ _ coherent

end Climb

end MergeGrammar
