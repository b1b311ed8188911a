import MergeGrammar.Proofs.LockStep
import MergeGrammar.Proofs.SearchClosure

/-!
# Searches side by side

Two searches start from the same tables, in graphs that say the same of the word parts that have
been read. As long as neither reaches its limit on routes they do exactly the same. Once the lower
limit has been reached, the search that is held to it stores nothing any more, so it keeps the first
routes of the other one, whatever that one goes on to do.
-/

namespace MergeGrammar

/-- Another graph says the same of the word parts that have been read. -/
structure Graph.Shares (graph other : Graph) (read : Array WordPart) : Prop where
  entry_eq : ∀ part : WordPart, part.StandsIn read →
    other.entry part.entry = graph.entry part.entry
  feature_eq : ∀ part : WordPart, part.StandsIn read →
    ∀ id ∈ (graph.entry part.entry).features,
      (other.feature id).feature = (graph.feature id).feature

namespace Graph.Shares

variable {graph other : Graph} {read : Array WordPart}

lemma refl (graph : Graph) (read : Array WordPart) : graph.Shares graph read :=
  ⟨fun _ _ => rfl, fun _ _ _ _ => rfl⟩

variable (h : graph.Shares other read) {part : WordPart} (standing : part.StandsIn read)
include h standing

lemma adjunctNames_eq : (other.entry part.entry).adjunctNames other =
    (graph.entry part.entry).adjunctNames graph := by
  rw [LexicalEntry.adjunctNames, LexicalEntry.adjunctNames, h.entry_eq part standing,
    List.map_congr_left (h.feature_eq part standing)]

lemma clashes_eq (names : List String) (newcomer : LexicalEntry) :
    (other.entry part.entry).clashes other names newcomer =
      (graph.entry part.entry).clashes graph names newcomer := by
  have feature_eq := h.feature_eq part standing
  rw [LexicalEntry.clashes, LexicalEntry.clashes, h.entry_eq part standing, Bool.eq_iff_iff,
    List.any_eq_true, List.any_eq_true]
  refine exists_congr fun id => and_congr_right fun hid => ?_
  simp only [feature_eq id hid]

end Graph.Shares

/-- Another setting asks for the same of the word parts that have been read, with a limit that is no
lower. -/
structure Setting.Within (read : Array WordPart) (a b : Setting) : Prop where
  shares : a.graph.Shares b.graph read
  policy_eq : b.options.policy = a.options.policy
  profileCap_eq : b.options.profileCap = a.options.profileCap
  checkAgreement_eq : b.options.checkAgreement = a.options.checkAgreement
  tracing_eq : b.tracing = a.tracing
  maxRoutes_le : a.options.maxRoutes ≤ b.options.maxRoutes

/-- The tables are full and hold the first routes of other ones. -/
structure SearchState.Cut (limit : Nat) (state other : SearchState) : Prop where
  size_eq : state.arena.size = limit
  le_size : limit ≤ other.arena.size
  route_eq : ∀ id, id < limit → other.arena.route id = state.arena.route id

lemma SearchState.Cut.extends {limit : Nat} {state other state' other' : SearchState}
    (h : state.Cut limit other) (hextends : state.Extends state')
    (bounded : state'.arena.size ≤ limit) (hextends' : other.Extends other') :
    state'.Cut limit other' where
  size_eq := bounded.antisymm (h.size_eq.symm.le.trans hextends.size_le)
  le_size := h.le_size.trans hextends'.size_le
  route_eq id hid := by
    rw [hextends.route_eq id (hid.trans_eq h.size_eq.symm),
      hextends'.route_eq id (hid.trans_le h.le_size), h.route_eq id hid]

namespace Climb

variable {a b : Setting} {read : Array WordPart} {va vb : RouteId → Climb → Climb}

/-- What two searches have in common while both have room, or the same limit. -/
structure Joint (a b : Setting) (read : Array WordPart) (c : Climb) : Prop where
  grounded : c.Grounded a read
  bounded : c.Bounded a
  room : b.options.maxRoutes = a.options.maxRoutes ∨ c.state.arena.size < a.options.maxRoutes

/-- Two searches are the same, or the first one has reached its limit. -/
inductive Trails (a b : Setting) (read : Array WordPart) (c : Climb) : Climb → Prop where
  | same (joint : c.Joint a b read) : Trails a b read c c
  | cut {d : Climb} (below : a.options.maxRoutes < b.options.maxRoutes)
    (coherent : c.state.Coherent read) (coherent' : d.state.Coherent read)
    (cut : c.state.Cut a.options.maxRoutes d.state) : Trails a b read c d

section Absorbing

variable {c d next next' : Climb}

lemma Joint.idle (h : c.Joint a b read) (state : next.state = c.state) : next.Joint a b read := by
  obtain ⟨⟨coherent, built⟩, bounded, room⟩ := h
  rw [Bounded, ← state] at bounded
  rw [← state] at coherent built room
  exact ⟨⟨coherent, built⟩, bounded, room⟩

lemma Joint.moves (h : c.Joint a b read)
    (moves : c.Moves a.graph a.options read next)
    (room : b.options.maxRoutes = a.options.maxRoutes ∨
      next.state.arena.size < a.options.maxRoutes) : next.Joint a b read :=
  ⟨h.grounded.moves moves, moves.bounded h.bounded, room⟩

lemma Trails.coherent (h : c.Trails a b read d) : c.state.Coherent read := by
  cases h with
  | same joint => exact joint.grounded.coherent
  | cut _ coherent => exact coherent

lemma Trails.coherent' (h : c.Trails a b read d) : d.state.Coherent read := by
  cases h with
  | same joint => exact joint.grounded.coherent
  | cut _ _ coherent' => exact coherent'

lemma Trails.size_le (h : c.Trails a b read d) : c.state.arena.size ≤ d.state.arena.size := by
  cases h with
  | same => exact le_rfl
  | cut _ _ _ cut => exact cut.size_eq.le.trans cut.le_size

/-- What is full stays full. -/
lemma Trails.of_cut (below : a.options.maxRoutes < b.options.maxRoutes)
    (coherent : c.state.Coherent read) (coherent' : d.state.Coherent read)
    (cut : c.state.Cut a.options.maxRoutes d.state)
    (moves : c.Moves a.graph a.options read next) (moves' : d.Moves b.graph b.options read next') :
    next.Trails a b read next' :=
  .cut below (moves.coherent coherent) (moves'.coherent coherent')
    (cut.extends moves.extends (moves.bounded cut.size_eq.le) moves'.extends)

/-- Moves need to be compared only while both searches have room. -/
lemma Trails.moves (h : c.Trails a b read d) (moves : c.Moves a.graph a.options read next)
    (moves' : d.Moves b.graph b.options read next')
    (same : c.Joint a b read → d = c → next.Trails a b read next') : next.Trails a b read next' := by
  cases h with
  | same joint => exact same joint rfl
  | cut below coherent coherent' cut => exact .of_cut below coherent coherent' cut moves moves'

end Absorbing

/-- Records that a combination has been stored, if it has. -/
def noteStored (setting : Setting) (relation : Relation) (base sub : RouteId)
    (stored : Climb × Option RouteId) : Climb :=
  stored.2.elim stored.1 fun id => stored.1.note setting (.combined relation base sub id)

lemma combine_stored {setting : Setting} {relation : Relation} {base sub : RouteId} {c : Climb}
    (hne : base ≠ sub) (hconflict : conflict (c.route base) (c.route sub) = false)
    (hfilled : isFilled (c.route base) (c.route sub) relation = false) :
    c.combine setting va relation base sub = noteStored setting relation base sub
      (c.tried.store setting va (c.state.attach base sub relation)) := by
  have hconflict' : ¬conflict (c.tried.route base) (c.tried.route sub) = true :=
    Bool.eq_false_iff.1 hconflict
  have hfilled' : ¬isFilled (c.tried.route base) (c.tried.route sub) relation = true :=
    Bool.eq_false_iff.1 hfilled
  rw [combine]
  change (if base = sub then c.tried else _) = _
  rw [if_neg hne]
  change (if conflict (c.tried.route base) (c.tried.route sub) = true then _ else _) = _
  rw [if_neg hconflict']
  change (if isFilled (c.tried.route base) (c.tried.route sub) relation = true then _ else _) = _
  rw [if_neg hfilled']
  split
  · next next hstore =>
    have stored : c.tried.store setting va (c.state.attach base sub relation) = (next, none) :=
      hstore
    rw [stored]
    rfl
  · next next new hstore =>
    have stored : c.tried.store setting va (c.state.attach base sub relation) = (next, some new) :=
      hstore
    rw [stored]
    rfl

def VisitsTrail (a b : Setting) (read : Array WordPart) (va vb : RouteId → Climb → Climb) : Prop :=
  ∀ (id : RouteId) (c d : Climb), c.Trails a b read d → id < c.state.arena.size →
    (va id c).Trails a b read (vb id d)

section Trying

variable (within : a.Within read b) {c d : Climb}
include within

omit within in
lemma note_eq (tracing_eq : b.tracing = a.tracing) (event : Event) (c : Climb) :
    c.note b event = c.note a event := by
  rw [note, note, tracing_eq]

lemma note_trails (h : c.Trails a b read d) (event : Event) :
    (c.note a event).Trails a b read (d.note b event) := by
  refine h.moves (note_moves event c) (note_moves event d) fun joint heq => ?_
  subst heq
  rw [note_eq within.tracing_eq]
  refine .same (joint.idle ?_)
  rw [note]
  split <;> rfl

variable (hvisit : VisitsTrail a b read va vb) (joint : c.Joint a b read)
include hvisit joint

lemma store_trails {route : Route} (candidate : c.state.Candidate a.graph a.options read route) :
    (c.store a va route).1.Trails a b read (c.store b vb route).1 ∧
      (c.store b vb route).2 = (c.store a va route).2 := by
  rw [store, store]
  dsimp only
  rw [within.profileCap_eq]
  by_cases hknown : c.state.isKnown route.key = true
  · rw [if_pos hknown, if_pos hknown]
    exact ⟨.same joint, rfl⟩
  rw [if_neg hknown, if_neg hknown]
  have unknown : c.state.isKnown route.key = false := by simpa using hknown
  have dropped : ∀ limit amount, a.options.maxRoutes ≤ c.state.arena.size ∨
      a.options.profileCap ≤ c.state.profileCount route.span →
      (c.drop limit amount route.key).Joint a b read := fun limit amount full =>
    joint.moves (.single (.drop ⟨candidate, unknown, full⟩ rfl rfl rfl)) joint.room
  by_cases hroutes : a.options.maxRoutes ≤ c.state.arena.size
  · have equal := joint.room.resolve_right (Nat.not_lt.2 hroutes)
    rw [equal, if_pos hroutes, if_pos hroutes]
    exact ⟨.same (dropped _ _ (Or.inl hroutes)), rfl⟩
  have room := Nat.lt_of_not_le hroutes
  have room' : ¬b.options.maxRoutes ≤ c.state.arena.size :=
    Nat.not_le.2 (room.trans_le within.maxRoutes_le)
  rw [if_neg hroutes, if_neg room']
  by_cases hprofile : a.options.profileCap ≤ c.state.profileCount route.span
  · rw [if_pos hprofile, if_pos hprofile]
    exact ⟨.same (dropped _ _ (Or.inr hprofile)), rfl⟩
  rw [if_neg hprofile, if_neg hprofile]
  have admits : c.state.Admits a.graph a.options read route :=
    ⟨candidate, unknown, room, Nat.lt_of_not_le hprofile⟩
  let stored : Climb := { c with
    state := c.state.add route
    added := c.added.push c.state.arena.size }
  have storing : c.Moves a.graph a.options read stored := .single (.add admits rfl rfl rfl)
  have size_eq : stored.state.arena.size = c.state.arena.size + 1 := Arena.size_push _ _
  -- The limit may be reached with this very route.
  have trails : stored.Trails a b read stored := by
    by_cases hroom : b.options.maxRoutes = a.options.maxRoutes ∨
        stored.state.arena.size < a.options.maxRoutes
    · exact .same (joint.moves storing hroom)
    · simp only [not_or, Nat.not_lt] at hroom
      have below := Nat.lt_of_le_of_ne within.maxRoutes_le (Ne.symm hroom.1)
      have coherent := storing.coherent joint.grounded.coherent
      exact .cut below coherent coherent ⟨by omega, hroom.2, fun _ _ => rfl⟩
  exact ⟨hvisit _ _ _ trails (size_eq ▸ Nat.lt_succ_self _), rfl⟩

lemma combine_trails {relation : Relation} {base sub : RouteId}
    (attachable : conflict (c.route base) (c.route sub) = false →
      isFilled (c.route base) (c.route sub) relation = false →
      c.state.Attachable a.graph a.options base sub relation) :
    (c.combine a va relation base sub).Trails a b read (c.combine b vb relation base sub) := by
  have tried : c.tried.Joint a b read := joint.idle rfl
  by_cases unbarred : base ≠ sub ∧ conflict (c.route base) (c.route sub) = false ∧
      isFilled (c.route base) (c.route sub) relation = false
  · obtain ⟨hne, hconflict, hfilled⟩ := unbarred
    have candidate : c.tried.state.Candidate a.graph a.options read
        (c.state.attach base sub relation) := .attach (attachable hconflict hfilled)
    obtain ⟨trails, id_eq⟩ := store_trails within hvisit tried candidate
    rw [combine_stored hne hconflict hfilled, combine_stored hne hconflict hfilled, noteStored,
      noteStored, id_eq]
    cases (c.tried.store a va (c.state.attach base sub relation)).2 with
    | none => exact trails
    | some id => exact note_trails within trails _
  · rw [combine, combine]
    dsimp only
    split
    · exact .same tried
    · next hne =>
      split
      · exact note_trails within (.same tried) _
      · next hconflict =>
        split
        · exact .same tried
        · next hfilled =>
          exact absurd ⟨hne, Bool.eq_false_iff.2 hconflict, Bool.eq_false_iff.2 hfilled⟩ unbarred

omit hvisit in
lemma adjunctAgrees_eq {id other : RouteId} (hid : id < c.state.arena.size)
    (hother : other < c.state.arena.size) :
    c.adjunctAgrees b id other = c.adjunctAgrees a id other := by
  have standing : ∀ x, x < c.state.arena.size → (c.route x).root.StandsIn read :=
    joint.grounded.coherent.root_read
  have hany : ∀ host, host < c.state.arena.size → ∀ (names : List String) (newcomer : LexicalEntry),
      ((c.route host).adjuncts.any fun x => (c.rootEntry b x).clashes b.graph names newcomer) =
        (c.route host).adjuncts.any fun x => (c.rootEntry a x).clashes a.graph names newcomer := by
    intro host hhost names newcomer
    rw [Bool.eq_iff_iff, List.any_eq_true, List.any_eq_true]
    refine exists_congr fun x => and_congr_right fun hx => ?_
    have hlt := joint.grounded.built.component_lt hhost (Route.mem_components.2 (Or.inr (Or.inr hx)))
    have clashes_eq := within.shares.clashes_eq (standing x (hlt.trans hhost)) names newcomer
    exact Bool.eq_iff_iff.1 clashes_eq
  have entry_eq : ∀ x, x < c.state.arena.size → c.rootEntry b x = c.rootEntry a x := fun x hx =>
    within.shares.entry_eq _ (standing x hx)
  have names_eq : ∀ x, x < c.state.arena.size →
      (c.rootEntry b x).adjunctNames b.graph = (c.rootEntry a x).adjunctNames a.graph := fun x hx =>
    within.shares.adjunctNames_eq (standing x hx)
  unfold adjunctAgrees
  dsimp only
  rw [hany other hother, hany id hid, names_eq other hother, names_eq id hid, entry_eq other hother,
    entry_eq id hid]

lemma tryArgument_trails {id other : RouteId} (hid : id < c.state.arena.size)
    (hother : other < c.state.arena.size)
    (edge : ((c.route other).root.signal, (c.route id).root.signal) ∈
      c.state.edges PartState.argEdges) :
    (c.tryArgument a va id other).Trails a b read (c.tryArgument b vb id other) := by
  have neighbors : c.areNeighbors b id other = c.areNeighbors a id other := by
    rw [areNeighbors, areNeighbors, within.policy_eq]
  rw [tryArgument, tryArgument, neighbors]
  split
  · exact .same joint
  · next hguard =>
    exact combine_trails within hvisit joint (attachable_argument hid hother edge hguard)

lemma tryAdjunct_trails {id other : RouteId} (hid : id < c.state.arena.size)
    (hother : other < c.state.arena.size)
    (edge : ((c.route other).root.signal, (c.route id).root.signal) ∈
      c.state.edges PartState.adjunctions)
    (uncovered : (c.route other).root.signal ∉ (c.route id).signals) :
    (c.tryAdjunct a va id other).Trails a b read (c.tryAdjunct b vb id other) := by
  have neighbors : c.areNeighbors b id other = c.areNeighbors a id other := by
    rw [areNeighbors, areNeighbors, within.policy_eq]
  rw [tryAdjunct, tryAdjunct, neighbors, within.checkAgreement_eq,
    adjunctAgrees_eq within joint hid hother]
  split
  · exact .same joint
  · next hneighbors =>
    split
    · exact note_trails within (.same joint) _
    · next hagrees =>
      exact combine_trails within hvisit joint fun hconflict _ =>
        attachable_adjunct hid hother edge uncovered hneighbors hagrees hconflict

end Trying

/-! ### Offers -/

/-- Two acts keep one search behind the other in tables that extend those of `start`. -/
def ActsTrail (a b : Setting) (read : Array WordPart) (start : Climb) (act act' : Climb → Climb) :
    Prop :=
  ∀ c d : Climb, c.Trails a b read d → start.state.Extends c.state →
    start.state.Extends d.state → (act c).Trails a b read (act' d)

variable {start : Climb}

/-- Acts on the routes rooted at a signal that make the same moves while both searches have room. -/
structure OffersTrail (a b : Setting) (read : Array WordPart) (start : Climb) (signal : Nat)
    (act act' : RouteId → Climb → Climb) : Prop where
  moves : OfferMoves a read start signal act
  moves' : OfferMoves b read start signal act'
  trails : ∀ (other : RouteId) (c : Climb), c.Joint a b read → start.state.Extends c.state →
    other < c.state.arena.size → (c.route other).root.signal = signal →
    (act other c).Trails a b read (act' other c)

lemma foldl_trails {α : Type} {act act' : Climb → α → Climb} {items : List α}
    (hmoves : ∀ item ∈ items, ActMoves a read start (act · item))
    (hmoves' : ∀ item ∈ items, ActMoves b read start (act' · item))
    (hact : ∀ item ∈ items, ActsTrail a b read start (act · item) (act' · item)) :
    ActsTrail a b read start (items.foldl act) (items.foldl act') := by
  induction items with
  | nil => exact fun c d h _ _ => h
  | cons item items ih =>
    intro c d h hextends hextends'
    have first := hact item List.mem_cons_self c d h hextends hextends'
    have moves := hmoves item List.mem_cons_self c hextends h.coherent
    have moves' := hmoves' item List.mem_cons_self d hextends' h.coherent'
    exact ih (fun i hi => hmoves i (List.mem_cons_of_mem _ hi))
      (fun i hi => hmoves' i (List.mem_cons_of_mem _ hi))
      (fun i hi => hact i (List.mem_cons_of_mem _ hi)) _ _ first
      (hextends.trans moves.extends) (hextends'.trans moves'.extends)

lemma offer_of_none {act : RouteId → Climb → Climb} {signal i : Nat} {c : Climb}
    (hnone : (c.state.part signal).routesDown[i]? = none) (fuel : Nat) :
    offer act signal fuel i c = c := by
  cases fuel with
  | zero => rfl
  | succ fuel =>
    rw [offer]
    simp only [hnone]

/-- Both searches reach the end of a list of routes, whatever the number of offers they have left. -/
lemma offer_trails {act act' : RouteId → Climb → Climb} {signal : Nat} (hpos : 0 < signal)
    (hact : OffersTrail a b read start signal act act')
    (maxRoutes_le : a.options.maxRoutes ≤ b.options.maxRoutes) {fuel fuel' i : Nat}
    (enough : a.options.maxRoutes ≤ i + fuel) (enough' : b.options.maxRoutes ≤ i + fuel') :
    ActsTrail a b read start (offer act signal fuel i) (offer act' signal fuel' i) := by
  have ended : ∀ (c : Climb) (j : Nat), c.Joint a b read → a.options.maxRoutes ≤ j →
      (c.state.part signal).routesDown[j]? = none := by
    intro c j joint hle
    have hsize := joint.grounded.coherent.routesDown_size_le hpos
    have bounded := joint.bounded
    rw [Bounded] at bounded
    exact Array.getElem?_eq_none (hsize.trans (bounded.trans hle))
  induction fuel generalizing fuel' i with
  | zero =>
    intro c d h _ hextends'
    refine h.moves .refl (offer_moves hpos hact.moves' fuel' i d hextends' h.coherent')
      fun joint heq => ?_
    subst heq
    rw [offer, offer_of_none (ended d i joint enough)]
    exact .same joint
  | succ fuel ih =>
    intro c d h hextends hextends'
    refine h.moves (offer_moves hpos hact.moves (fuel + 1) i c hextends h.coherent)
      (offer_moves hpos hact.moves' fuel' i d hextends' h.coherent') fun joint heq => ?_
    subst heq
    cases hget : (d.state.part signal).routesDown[i]? with
    | none =>
      rw [offer_of_none hget, offer_of_none hget]
      exact .same joint
    | some id =>
      cases fuel' with
      | zero =>
        rw [ended d i joint (maxRoutes_le.trans enough')] at hget
        cases hget
      | succ fuel' =>
        obtain ⟨hlt, hroot⟩ := (joint.grounded.coherent.mem_routesDown signal hpos id).1
          (Array.mem_of_getElem? hget)
        have first := hact.trails id d joint hextends hlt hroot
        have moves := hact.moves id d hextends h.coherent hlt hroot
        have moves' := hact.moves' id d hextends h.coherent hlt hroot
        rw [offer, offer]
        simp only [hget]
        exact ih (by omega) (by omega) _ _ first
          (hextends.trans moves.extends) (hextends.trans moves'.extends)

section Climbing

variable (within : a.Within read b)
include within

lemma offerAll_trails {act act' : RouteId → Climb → Climb} {signal : Nat} (hpos : 0 < signal)
    (hact : OffersTrail a b read start signal act act') :
    ActsTrail a b read start (offerAll a act signal) (offerAll b act' signal) :=
  offer_trails hpos hact within.maxRoutes_le (Nat.le_add_left _ _) (Nat.le_add_left _ _)

/-! ### Climbs, passes and searches -/

variable (hmoves : VisitMoves a read va) (hmoves' : VisitMoves b read vb)
  (hvisit : VisitsTrail a b read va vb) {id : RouteId} {c d : Climb} (h : c.Trails a b read d)
  (hid : id < c.state.arena.size)
include hmoves hmoves' hvisit h hid

lemma toHeads_trails : (c.toHeads a va id).Trails a b read (d.toHeads b vb id) := by
  refine h.moves (toHeads_moves hmoves h.coherent hid)
    (toHeads_moves hmoves' h.coherent' (hid.trans_le h.size_le)) fun joint heq => ?_
  subst heq
  have coherent := h.coherent
  rw [toHeads, toHeads]
  refine foldl_trails (fun _ hhead => offerToHead_moves hmoves coherent hid hhead)
    (fun _ hhead => offerToHead_moves hmoves' coherent hid hhead) (fun head hhead => ?_) d d h
    (.refl _) (.refl _)
  refine offerAll_trails within
    (coherent.above_pos .merge head _ (coherent.root_read id hid).1 hhead)
    ⟨argumentOffer_moves hmoves coherent hid hhead, argumentOffer_moves hmoves' coherent hid hhead,
      fun other c joint hextends hother hsignal => ?_⟩
  exact tryArgument_trails within hvisit joint (hid.trans_le hextends.size_le) hother
    (offer_argEdge coherent hid hextends joint.grounded.coherent hhead hsignal)

lemma toHosts_trails : (c.toHosts a va id).Trails a b read (d.toHosts b vb id) := by
  refine h.moves (toHosts_moves hmoves h.coherent hid)
    (toHosts_moves hmoves' h.coherent' (hid.trans_le h.size_le)) fun joint heq => ?_
  subst heq
  have coherent := h.coherent
  rw [toHosts, toHosts]
  refine foldl_trails (fun _ hhost => offerToHost_moves hmoves coherent hid hhost)
    (fun _ hhost => offerToHost_moves hmoves' coherent hid hhost) (fun host hhost => ?_) d d h
    (.refl _) (.refl _)
  intro middle middle' hmiddle hextends hextends'
  have hsub : middle.route id = d.route id := hextends.route_eq id hid
  have hsub' : middle'.route id = d.route id := hextends'.route_eq id hid
  dsimp only
  rw [hsub, hsub']
  split
  · exact hmiddle
  · next uncovered =>
    refine offerAll_trails within
      (coherent.above_pos .pairMerge host _ (coherent.root_read id hid).1 hhost)
      ⟨adjunctOffer_moves hmoves coherent hid hhost uncovered,
        adjunctOffer_moves hmoves' coherent hid hhost uncovered,
        fun other c joint hextends hother hsignal => ?_⟩ middle middle' hmiddle hextends hextends'
    refine tryAdjunct_trails within hvisit joint (hid.trans_le hextends.size_le) hother
      (offer_adjunctEdge coherent hid hextends joint.grounded.coherent hhost hsignal) ?_
    have hsub : c.route id = d.route id := hextends.route_eq id hid
    rwa [hsignal, hsub]

lemma toWord_trails : (c.toWord a va id).Trails a b read (d.toWord b vb id) := by
  refine h.moves (toWord_moves hmoves h.coherent hid)
    (toWord_moves hmoves' h.coherent' (hid.trans_le h.size_le)) fun joint heq => ?_
  subst heq
  have entry_eq : d.rootEntry b id = d.rootEntry a id :=
    within.shares.entry_eq _ (h.coherent.root_read id hid)
  rw [toWord, toWord, entry_eq]
  split
  · exact h
  · next hguard =>
    simp only [Bool.or_eq_true, decide_eq_true_eq, not_or, Bool.not_eq_true] at hguard
    obtain ⟨⟨hfirst, htwo⟩, uncovered⟩ := hguard
    have hpos : 0 < (d.route id).root.signal - 1 := by lia
    have hfirst' : (d.rootEntry b id).isFirstPart = false := entry_eq ▸ hfirst
    refine offerAll_trails within hpos
      ⟨partOffer_moves hmoves hid hfirst htwo uncovered,
        partOffer_moves hmoves' hid hfirst' htwo uncovered,
        fun other c joint hextends hother hsignal => ?_⟩ d d h (.refl _) (.refl _)
    exact combine_trails within hvisit joint
      (attachable_part hid hextends hother hfirst htwo uncovered hsignal)

end Climbing

variable (within : a.Within read b)
include within

lemma climbUp_trails (depth : Nat) : VisitsTrail a b read (climbUp a depth) (climbUp b depth) := by
  induction depth with
  | zero => exact fun _ _ _ h _ => h
  | succ depth ih =>
    intro id c d h hid
    refine h.moves (climbUp_moves (depth + 1) id c h.coherent hid)
      (climbUp_moves (depth + 1) id d h.coherent' (hid.trans_le h.size_le)) fun joint heq => ?_
    subst heq
    rw [climbUp, climbUp]
    have hmoves : VisitMoves a read (climbUp a depth) := climbUp_moves depth
    have hmoves' : VisitMoves b read (climbUp b depth) := climbUp_moves depth
    let event : Event := .climbing (d.route id).root.signal id
    have noted : (d.note a event).Trails a b read (d.note b event) := note_trails within h event
    have noting : d.Moves a.graph a.options read (d.note a event) := note_moves event d
    have hid₁ := hid.trans_le noting.extends.size_le
    have headed := toHeads_trails within hmoves hmoves' ih noted hid₁
    have hid₂ := hid₁.trans_le (toHeads_moves hmoves noted.coherent hid₁).extends.size_le
    have hosted := toHosts_trails within hmoves hmoves' ih headed hid₂
    have hid₃ := hid₂.trans_le (toHosts_moves hmoves headed.coherent hid₂).extends.size_le
    exact toWord_trails within hmoves hmoves' ih hosted hid₃

lemma visit_trails : VisitsTrail a b read (Climb.visit a) (Climb.visit b) := by
  intro id c d h hid
  refine h.moves (visit_moves id c h.coherent hid)
    (visit_moves id d h.coherent' (hid.trans_le h.size_le)) fun joint heq => ?_
  subst heq
  exact climbUp_trails within _ id d d h hid

lemma seed_trails {c d : Climb} (h : c.Trails a b read d) {part : WordPart}
    (standing : part.StandsIn read) : (c.seed a part).Trails a b read (d.seed b part) := by
  refine h.moves (seed_moves h.coherent standing) (seed_moves h.coherent' standing)
    fun joint heq => ?_
  subst heq
  rw [seed, seed, within.shares.entry_eq part standing]
  exact (store_trails within (visit_trails within) joint (.leaf standing)).1

lemma pass_trails {c d : Climb} (h : c.Trails a b read d) :
    (c.pass a).Trails a b read (d.pass b) := by
  refine h.moves (pass_moves h.coherent) (pass_moves h.coherent') fun joint heq => ?_
  subst heq
  rw [pass, pass]
  refine foldl_trails (fun signal hsignal => ?_) (fun signal hsignal => ?_) (fun signal hsignal => ?_)
    d d h (.refl _) (.refl _)
  · exact offer_moves (List.mem_range'_1.1 hsignal).1 (visitOffer_moves d signal) _ _
  · exact offer_moves (List.mem_range'_1.1 hsignal).1 (visitOffer_moves d signal) _ _
  · exact offerAll_trails within (List.mem_range'_1.1 hsignal).1
      ⟨visitOffer_moves d signal, visitOffer_moves d signal,
        fun id c joint _ hid _ => visit_trails within id c c (.same joint) hid⟩

/-- Both searches come to rest before they run out of passes. -/
lemma settleWithin_trails {fuel fuel' : Nat} (passes : Nat) {c : Climb} (joint : c.Joint a b read)
    (enough : a.options.maxRoutes < fuel + c.state.arena.size)
    (enough' : b.options.maxRoutes < fuel' + c.state.arena.size) :
    (settleWithin a fuel passes c).1.Trails a b read (settleWithin b fuel' passes c).1 ∧
      (b.options.maxRoutes = a.options.maxRoutes →
        (settleWithin b fuel' passes c).2 = (settleWithin a fuel passes c).2) := by
  have limits := within.maxRoutes_le
  induction fuel generalizing fuel' passes c with
  | zero =>
    have bounded := joint.bounded
    rw [Bounded] at bounded
    omega
  | succ fuel ih =>
    have bounded := joint.bounded
    rw [Bounded] at bounded
    obtain ⟨fuel', rfl⟩ : ∃ n, fuel' = n + 1 := ⟨fuel' - 1, by omega⟩
    have passed := pass_trails within (.same joint)
    have moves : c.Moves a.graph a.options read (c.pass a) := pass_moves joint.grounded.coherent
    have hsize := moves.extends.size_le
    rw [settleWithin, settleWithin]
    generalize c.pass a = after at *
    generalize c.pass b = after' at *
    cases passed with
    | same joint' =>
      split
      · exact ⟨.same joint', fun _ => rfl⟩
      · exact ih (passes + 1) joint' (by omega) (by omega)
    | cut below coherent coherent' cut =>
      refine ⟨.of_cut below coherent coherent' cut ?_ ?_, fun equal => absurd equal below.ne'⟩
      · split
        · exact .refl
        · exact settleWithin_moves _ _ coherent
      · split
        · exact .refl
        · exact settleWithin_moves _ _ coherent'

/-- The search with the lower limit keeps the first routes of the other one. With the same limit both
do the same, in the same number of passes. -/
theorem settle_trails {c d : Climb} (h : c.Trails a b read d) :
    (c.settle a).1.Trails a b read (d.settle b).1 ∧
      (b.options.maxRoutes = a.options.maxRoutes → (d.settle b).2 = (c.settle a).2) := by
  cases h with
  | same joint => exact settleWithin_trails within 0 joint (by omega) (by omega)
  | cut below coherent coherent' cut =>
    exact ⟨.of_cut below coherent coherent' cut (settle_moves coherent) (settle_moves coherent'),
      fun equal => absurd equal below.ne'⟩

end Climb

end MergeGrammar
