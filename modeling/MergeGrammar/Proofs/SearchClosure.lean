import MergeGrammar.Proofs.Lineage

/-!
# Closure of the search

A search ends with a pass that stores nothing. Whatever was tried in such a pass was tried in the
same tables, so every pair of routes was tried in the tables at the end of the search, and the key of
each combination that they allow has been stored or dropped. Nothing is left to do for a further
search.
-/

namespace MergeGrammar

namespace Climb

variable {setting : Setting} {read : Array WordPart} {visit : RouteId → Climb → Climb}
  {start climb next : Climb}

/-! ### Moves that store nothing -/

/-- Moves that store nothing. -/
def Rests (setting : Setting) (read : Array WordPart) (climb next : Climb) : Prop :=
  climb.Moves setting.graph setting.options read next ∧
    next.state.arena.size = climb.state.arena.size

lemma Rests.refl (climb : Climb) : climb.Rests setting read climb := ⟨.refl, rfl⟩

lemma Rests.trans {middle : Climb} (h : climb.Rests setting read middle)
    (h' : middle.Rests setting read next) : climb.Rests setting read next :=
  ⟨h.1.trans h'.1, h'.2.trans h.2⟩

lemma Rests.of_moves {middle : Climb}
    (first : climb.Moves setting.graph setting.options read middle)
    (second : middle.Moves setting.graph setting.options read next)
    (still : next.state.arena.size = climb.state.arena.size) :
    climb.Rests setting read middle ∧ middle.Rests setting read next := by
  have hfirst := first.extends.size_le
  have hsecond := second.extends.size_le
  exact ⟨⟨first, by omega⟩, second, by omega⟩

lemma Rests.arena_eq (h : climb.Rests setting read next) : next.state.arena = climb.state.arena :=
  (h.1.extends.still h.2).1

lemma Rests.parts_eq (h : climb.Rests setting read next) : next.state.parts = climb.state.parts :=
  (h.1.extends.still h.2).2

lemma Rests.route_eq (h : climb.Rests setting read next) (id : RouteId) :
    next.route id = climb.route id := by
  unfold Climb.route
  rw [h.arena_eq]

lemma Rests.part_eq (h : climb.Rests setting read next) (signal : Signal) :
    next.state.part signal = climb.state.part signal := by
  rw [SearchState.part_eq, SearchState.part_eq, h.parts_eq]

lemma Rests.attachable (h : climb.Rests setting read next) {base sub : RouteId}
    {relation : Relation}
    (attachable : climb.state.Attachable setting.graph setting.options base sub relation) :
    next.state.Attachable setting.graph setting.options base sub relation :=
  attachable.of_eq h.arena_eq h.parts_eq

lemma Rests.attach_eq (h : climb.Rests setting read next) (base sub : RouteId)
    (relation : Relation) :
    next.state.attach base sub relation = climb.state.attach base sub relation := by
  rw [SearchState.attach, SearchState.attach, h.arena_eq]

lemma Rests.coherent (h : climb.Rests setting read next) (coherent : climb.state.Coherent read) :
    next.state.Coherent read :=
  h.1.coherent coherent

/-- Something was done between two states without storing anything. -/
def Ran (setting : Setting) (read : Array WordPart) (act : Climb → Climb) (climb next : Climb) :
    Prop :=
  ∃ middle : Climb, climb.Rests setting read middle ∧ middle.Rests setting read (act middle) ∧
    (act middle).Rests setting read next

lemma foldl_ran {α : Type} {act : Climb → α → Climb} {items : List α}
    (hact : ∀ item ∈ items, ActMoves setting read start (act · item))
    (hextends : start.state.Extends climb.state) (coherent : climb.state.Coherent read)
    (still : (items.foldl act climb).state.arena.size = climb.state.arena.size) {item : α}
    (hitem : item ∈ items) : Ran setting read (act · item) climb (items.foldl act climb) := by
  induction items generalizing climb with
  | nil => exact absurd hitem List.not_mem_nil
  | cons head items ih =>
    have first : climb.Moves setting.graph setting.options read (act climb head) :=
      hact head List.mem_cons_self climb hextends coherent
    have htail : ∀ item ∈ items, ActMoves setting read start (act · item) :=
      fun i hi => hact i (List.mem_cons_of_mem _ hi)
    have rest := foldl_moves htail (act climb head) (hextends.trans first.extends)
      (first.coherent coherent)
    obtain ⟨hfirst, hrest⟩ := Rests.of_moves first rest still
    rcases List.mem_cons.1 hitem with rfl | hitem
    · exact ⟨climb, .refl climb, hfirst, hrest⟩
    · obtain ⟨middle, before, ran, after⟩ :=
        ih htail (hextends.trans first.extends) (first.coherent coherent) hrest.2 hitem
      exact ⟨middle, hfirst.trans before, ran, after⟩

lemma offer_ran {act : RouteId → Climb → Climb} {signal : Nat} (hpos : 0 < signal)
    (hact : OfferMoves setting read start signal act) {fuel i k : Nat}
    (hextends : start.state.Extends climb.state) (coherent : climb.state.Coherent read)
    (still : (offer act signal fuel i climb).state.arena.size = climb.state.arena.size)
    (enough : (climb.state.part signal).routesDown.size ≤ i + fuel) (hk : i ≤ k) {id : RouteId}
    (hid : (climb.state.part signal).routesDown[k]? = some id) :
    Ran setting read (act id) climb (offer act signal fuel i climb) := by
  obtain ⟨hlt, -⟩ := Array.getElem?_eq_some_iff.1 hid
  induction fuel generalizing i climb with
  | zero => omega
  | succ fuel ih =>
    have hi : i < (climb.state.part signal).routesDown.size := by omega
    obtain ⟨other, hget⟩ : ∃ other, (climb.state.part signal).routesDown[i]? = some other :=
      ⟨_, Array.getElem?_eq_getElem hi⟩
    obtain ⟨hstored, hroot⟩ :=
      (coherent.mem_routesDown signal hpos _).1 (Array.mem_of_getElem? hget)
    have first := hact _ climb hextends coherent hstored hroot
    have rest := offer_moves hpos hact fuel (i + 1) _ (hextends.trans first.extends)
      (first.coherent coherent)
    rw [offer] at still ⊢
    simp only [hget] at still ⊢
    obtain ⟨hfirst, hrest⟩ := Rests.of_moves first rest still
    by_cases heq : k = i
    · subst heq
      rw [hget] at hid
      cases hid
      exact ⟨climb, .refl climb, hfirst, hrest⟩
    · have hpart := hfirst.part_eq signal
      obtain ⟨middle, before, ran, after⟩ :=
        ih (hextends.trans first.extends) (first.coherent coherent) hrest.2
          (by rw [hpart]; omega) (by omega) (by rw [hpart]; exact hid) (by rw [hpart]; exact hlt)
      exact ⟨middle, hfirst.trans before, ran, after⟩

/-! ### What is known after an attempt -/

lemma store_known (hvisit : VisitMoves setting read visit) {route : Route}
    (coherent : climb.state.Coherent read)
    (candidate : climb.state.Candidate setting.graph setting.options read route) :
    (climb.store setting visit route).1.state.isKnown route.key = true := by
  rw [store]
  dsimp only
  split
  · assumption
  · next hknown =>
    split
    · change (climb.state.drop route.key).isKnown route.key = true
      simp [SearchState.isKnown_drop]
    · next hroutes =>
      split
      · change (climb.state.drop route.key).isKnown route.key = true
        simp [SearchState.isKnown_drop]
      · next hprofile =>
        have admits : climb.state.Admits setting.graph setting.options read route :=
          ⟨candidate, by simpa using hknown, Nat.lt_of_not_le hroutes, Nat.lt_of_not_le hprofile⟩
        have climbed := hvisit climb.state.arena.size
          { climb with
            state := climb.state.add route
            added := climb.added.push climb.state.arena.size }
          (coherent.move (.add admits))
          (by rw [SearchState.arena_add, Arena.size_push]; exact Nat.lt_succ_self _)
        refine climbed.extends.known route.key ?_
        simp [SearchState.isKnown_add]

section Attempts

variable (hvisit : VisitMoves setting read visit) (coherent : climb.state.Coherent read)
  {base sub : RouteId} (hne : base ≠ sub)
include hvisit coherent hne

lemma combine_known {relation : Relation}
    (attachable : climb.state.Attachable setting.graph setting.options base sub relation)
    (unfilled : isFilled (climb.route base) (climb.route sub) relation = false) :
    (climb.combine setting visit relation base sub).state.isKnown
      (climb.state.attach base sub relation).key = true := by
  have unconflicted : conflict (climb.route base) (climb.route sub) = false :=
    conflict_eq_false.2 ⟨attachable.apart, attachable.disjoint⟩
  let tried : Climb := { climb with attempts := climb.attempts + 1 }
  have stored : (tried.store setting visit (climb.state.attach base sub relation)).1.state.isKnown
      (climb.state.attach base sub relation).key = true :=
    store_known hvisit coherent (.attach attachable)
  rw [combine, if_neg hne]
  dsimp only
  split
  · next hconflict => exact absurd hconflict (Bool.eq_false_iff.1 unconflicted)
  · split
    · next hfilled => exact absurd hfilled (Bool.eq_false_iff.1 unfilled)
    · split
      · next next hstore =>
        change (next, (none : Option RouteId)).1.state.isKnown _ = true
        rw [← hstore]
        exact stored
      · next next id hstore =>
        have noted : next.Moves setting.graph setting.options read
            (next.note setting (.combined relation base sub id)) := note_moves _ _
        refine noted.extends.known _ ?_
        change (next, some id).1.state.isKnown _ = true
        rw [← hstore]
        exact stored

lemma tryArgument_known
    (attachable : climb.state.Attachable setting.graph setting.options base sub .argument) :
    (climb.tryArgument setting visit sub base).state.isKnown
      (climb.state.attach base sub .argument).key = true := by
  obtain ⟨-, free, unused, neighbors⟩ := attachable.licensed
  have hfree : (climb.route base).arg.isSome = false := by
    rw [Climb.route, free]
    rfl
  have hneighbors : climb.areNeighbors setting sub base = true := neighbors
  rw [tryArgument, if_neg (by simp [hfree, hneighbors])]
  exact combine_known hvisit coherent hne attachable (isFilled_argument.2 ⟨free, unused⟩)

lemma tryAdjunct_known
    (attachable : climb.state.Attachable setting.graph setting.options base sub .adjunction) :
    (climb.tryAdjunct setting visit sub base).state.isKnown
      (climb.state.attach base sub .adjunction).key = true := by
  obtain ⟨-, -, neighbors, agrees⟩ := attachable.licensed
  have hneighbors : climb.areNeighbors setting sub base = true := neighbors
  have hagrees : ¬(setting.options.checkAgreement &&
      !climb.adjunctAgrees setting sub base) = true := by
    intro h
    obtain ⟨hcheck, hclash⟩ := Bool.and_eq_true_iff.1 h
    have hagree : climb.adjunctAgrees setting sub base = true := agrees hcheck
    rw [hagree] at hclash
    cases hclash
  rw [tryAdjunct, if_neg (by simp [hneighbors]), if_neg hagrees]
  exact combine_known hvisit coherent hne attachable rfl

end Attempts

/-! ### What is known after a climb, a pass and a search -/

/-- The room that all offers of a search need. -/
def Bounded (setting : Setting) (climb : Climb) : Prop :=
  climb.state.arena.size ≤ setting.options.maxRoutes

lemma Rests.bounded (h : climb.Rests setting read next) (bounded : climb.Bounded setting) :
    next.Bounded setting := by
  rw [Bounded, h.2]
  exact bounded

section Climbs

variable (coherent : climb.state.Coherent read) (bounded : climb.Bounded setting)
include coherent bounded

/-- An offer to the routes of a signal that stores nothing reaches each of them. -/
lemma offerAll_ran {act : RouteId → Climb → Climb} {signal : Nat} (hpos : 0 < signal)
    (hact : OfferMoves setting read start signal act)
    (hextends : start.state.Extends climb.state)
    (still : (offerAll setting act signal climb).state.arena.size = climb.state.arena.size)
    {id : RouteId} (hid : id < climb.state.arena.size) (hroot : (climb.route id).root.signal = signal) :
    Ran setting read (act id) climb (offerAll setting act signal climb) := by
  have hmem : id ∈ (climb.state.part signal).routesDown :=
    (coherent.mem_routesDown signal hpos id).2 ⟨hid, hroot⟩
  obtain ⟨k, hk⟩ := Array.mem_iff_getElem?.1 hmem
  have hsize := coherent.routesDown_size_le hpos
  refine offer_ran hpos hact hextends coherent still ?_ (Nat.zero_le k) hk
  rw [Bounded] at bounded
  omega

variable (hvisit : VisitMoves setting read visit) {base sub : RouteId} (hne : base ≠ sub)
include hvisit hne

lemma toHeads_known
    (attachable : climb.state.Attachable setting.graph setting.options base sub .argument)
    (still : (climb.toHeads setting visit sub).state.arena.size = climb.state.arena.size) :
    (climb.toHeads setting visit sub).state.isKnown
      (climb.state.attach base sub .argument).key = true := by
  have hsub := (coherent.root_read sub attachable.sub_lt).1
  have hbase := (coherent.root_read base attachable.base_lt).1
  have hhead : (climb.route base).root.signal ∈
      (climb.state.part (climb.route sub).root.signal).headEdges :=
    (coherent.mem_edges .merge hbase hsub).1 attachable.licensed.1
  obtain ⟨first, hfirst, hoffer, hlast⟩ := foldl_ran
    (fun _ hhead => offerToHead_moves hvisit coherent attachable.sub_lt hhead) (.refl _) coherent
    still hhead
  have hroot : (first.route base).root.signal = (climb.route base).root.signal := by
    rw [hfirst.route_eq]
  obtain ⟨second, hsecond, htry, hrest⟩ := offerAll_ran (hfirst.coherent coherent)
    (hfirst.bounded bounded) hbase (argumentOffer_moves hvisit coherent attachable.sub_lt hhead)
    hfirst.1.extends hoffer.2 (by rw [hfirst.2]; exact attachable.base_lt) hroot
  have known := tryArgument_known hvisit ((hfirst.trans hsecond).coherent coherent) hne
    ((hfirst.trans hsecond).attachable attachable)
  rw [(hfirst.trans hsecond).attach_eq] at known
  exact (hrest.trans hlast).1.extends.known _ known

lemma toHosts_known
    (attachable : climb.state.Attachable setting.graph setting.options base sub .adjunction)
    (still : (climb.toHosts setting visit sub).state.arena.size = climb.state.arena.size) :
    (climb.toHosts setting visit sub).state.isKnown
      (climb.state.attach base sub .adjunction).key = true := by
  have hsub := (coherent.root_read sub attachable.sub_lt).1
  have hbase := (coherent.root_read base attachable.base_lt).1
  obtain ⟨edge, uncovered, -⟩ := attachable.licensed
  have hhost : (climb.route base).root.signal ∈
      (climb.state.part (climb.route sub).root.signal).adjunctTo :=
    (coherent.mem_edges .pairMerge hbase hsub).1 edge
  obtain ⟨first, hfirst, hoffer, hlast⟩ := foldl_ran
    (fun _ hhost => offerToHost_moves hvisit coherent attachable.sub_lt hhost) (.refl _) coherent
    still hhost
  have hroot : (first.route base).root.signal = (climb.route base).root.signal := by
    rw [hfirst.route_eq]
  have huncovered : (climb.route base).root.signal ∉ (first.route sub).signals := by
    rw [hfirst.route_eq]
    exact uncovered
  dsimp only at hoffer hlast
  rw [if_neg huncovered] at hoffer hlast
  obtain ⟨second, hsecond, htry, hrest⟩ := offerAll_ran (hfirst.coherent coherent)
    (hfirst.bounded bounded) hbase
    (adjunctOffer_moves hvisit coherent attachable.sub_lt hhost uncovered) hfirst.1.extends
    hoffer.2 (by rw [hfirst.2]; exact attachable.base_lt) hroot
  have known := tryAdjunct_known hvisit ((hfirst.trans hsecond).coherent coherent) hne
    ((hfirst.trans hsecond).attachable attachable)
  rw [(hfirst.trans hsecond).attach_eq] at known
  exact (hrest.trans hlast).1.extends.known _ known

lemma toWord_known
    (attachable : climb.state.Attachable setting.graph setting.options base sub .part)
    (still : (climb.toWord setting visit sub).state.arena.size = climb.state.arena.size) :
    (climb.toWord setting visit sub).state.isKnown
      (climb.state.attach base sub .part).key = true := by
  have hbase := (coherent.root_read base attachable.base_lt).1
  obtain ⟨hfirst, hnext, uncovered, free⟩ := attachable.licensed
  have hsignal : (climb.route base).root.signal = (climb.route sub).root.signal - 1 := by
    change (climb.route base).root.signal + 1 = (climb.route sub).root.signal at hnext
    lia
  have htwo : ¬(climb.route sub).root.signal < 2 := by
    change (climb.route base).root.signal + 1 = (climb.route sub).root.signal at hnext
    change 0 < (climb.route base).root.signal at hbase
    lia
  have huncovered : (climb.route sub).root.signal - 1 ∉ (climb.route sub).signals :=
    hsignal ▸ uncovered
  have hguard : ¬((climb.rootEntry setting sub).isFirstPart ||
      decide ((climb.route sub).root.signal < 2) ||
      decide ((climb.route sub).root.signal - 1 ∈ (climb.route sub).signals)) = true := by
    simp only [Bool.or_eq_true, decide_eq_true_eq, not_or, Bool.not_eq_true]
    exact ⟨⟨hfirst, htwo⟩, huncovered⟩
  rw [toWord, if_neg hguard] at still ⊢
  obtain ⟨second, hsecond, htry, hrest⟩ := offerAll_ran coherent bounded (by lia)
    (partOffer_moves hvisit attachable.sub_lt hfirst htwo huncovered) (.refl _) still
    attachable.base_lt hsignal
  have hfree : isFilled (second.route base) (second.route sub) .part = false := by
    rw [isFilled_part, Climb.route, hsecond.arena_eq]
    exact free
  have known := combine_known hvisit (hsecond.coherent coherent) hne
    (hsecond.attachable attachable) hfree
  rw [hsecond.attach_eq] at known
  exact hrest.1.extends.known _ known

end Climbs

/-- A climb that stores nothing has tried the route with every route it may be attached to. -/
lemma climbUp_known {depth : Nat} (coherent : climb.state.Coherent read)
    (bounded : climb.Bounded setting) {base sub : RouteId} (hne : base ≠ sub) {relation : Relation}
    (attachable : climb.state.Attachable setting.graph setting.options base sub relation)
    (still : (climbUp setting (depth + 1) sub climb).state.arena.size = climb.state.arena.size) :
    (climbUp setting (depth + 1) sub climb).state.isKnown
      (climb.state.attach base sub relation).key = true := by
  have hvisit : VisitMoves setting read (climbUp setting depth) := climbUp_moves depth
  rw [climbUp] at still ⊢
  let event : Event := .climbing (climb.route sub).root.signal sub
  have noting : climb.Rests setting read (climb.note setting event) := ⟨note_moves _ _, by
    rw [note]
    split <;> rfl⟩
  have hid := attachable.sub_lt
  have heads := toHeads_moves hvisit (noting.coherent coherent) (noting.2 ▸ hid)
  have hosts := toHosts_moves hvisit (heads.coherent (noting.coherent coherent))
    ((noting.2 ▸ hid).trans_le heads.extends.size_le)
  have words := toWord_moves hvisit (hosts.coherent (heads.coherent (noting.coherent coherent)))
    ((noting.2 ▸ hid).trans_le (heads.trans hosts).extends.size_le)
  obtain ⟨hhosted, hword⟩ := Rests.of_moves (noting.1.trans (heads.trans hosts)) words still
  obtain ⟨hheaded, hhost⟩ := Rests.of_moves (noting.1.trans heads) hosts hhosted.2
  obtain ⟨hnoted, hhead⟩ := Rests.of_moves noting.1 heads hheaded.2
  cases relation with
  | argument =>
    have known := toHeads_known (hnoted.coherent coherent) (hnoted.bounded bounded) hvisit hne
      (hnoted.attachable attachable) hhead.2
    rw [hnoted.attach_eq] at known
    exact (hhost.trans hword).1.extends.known _ known
  | adjunction =>
    have known := toHosts_known (hheaded.coherent coherent) (hheaded.bounded bounded) hvisit hne
      (hheaded.attachable attachable) hhost.2
    rw [hheaded.attach_eq] at known
    exact hword.1.extends.known _ known
  | part =>
    have known := toWord_known (hhosted.coherent coherent) (hhosted.bounded bounded) hvisit hne
      (hhosted.attachable attachable) hword.2
    rw [hhosted.attach_eq] at known
    exact known

/-- After a pass that stores nothing, the key of every allowed combination is known. -/
lemma pass_known (coherent : climb.state.Coherent read) (bounded : climb.Bounded setting)
    {base sub : RouteId} (hne : base ≠ sub) {relation : Relation}
    (attachable : climb.state.Attachable setting.graph setting.options base sub relation)
    (still : (climb.pass setting).state.arena.size = climb.state.arena.size) :
    (climb.pass setting).state.isKnown (climb.state.attach base sub relation).key = true := by
  have standing := coherent.root_read sub attachable.sub_lt
  have hmem : (climb.route sub).root.signal ∈ List.range' 1 climb.state.parts.size := by
    have hle := standing.le_size
    have hsize := coherent.size_parts
    have hpos := standing.1
    rw [List.mem_range'_1]
    change 1 ≤ (climb.state.arena.route sub).root.signal ∧
      (climb.state.arena.route sub).root.signal < 1 + climb.state.parts.size
    lia
  obtain ⟨first, hfirst, hoffer, hlast⟩ := foldl_ran
    (fun signal hsignal => offer_moves (List.mem_range'_1.1 hsignal).1 (visitOffer_moves climb signal) _ _)
    (.refl _) coherent still hmem
  have hroot : (first.route sub).root.signal = (climb.route sub).root.signal := by
    rw [hfirst.route_eq]
  obtain ⟨second, hsecond, hclimb, hrest⟩ := offerAll_ran (hfirst.coherent coherent)
    (hfirst.bounded bounded) standing.1 (visitOffer_moves climb _) hfirst.1.extends hoffer.2
    (by rw [hfirst.2]; exact attachable.sub_lt) hroot
  have known := climbUp_known ((hfirst.trans hsecond).coherent coherent)
    ((hfirst.trans hsecond).bounded bounded) hne ((hfirst.trans hsecond).attachable attachable)
    hclimb.2
  rw [(hfirst.trans hsecond).attach_eq] at known
  exact (hrest.trans hlast).1.extends.known _ known

lemma settleWithin_last (fuel passes : Nat) (coherent : climb.state.Coherent read)
    (bounded : climb.Bounded setting)
    (enough : setting.options.maxRoutes < fuel + climb.state.arena.size) :
    ∃ last : Climb, climb.Moves setting.graph setting.options read last ∧
      (settleWithin setting fuel passes climb).1 = last.pass setting ∧
      (last.pass setting).state.arena.size = last.state.arena.size := by
  -- Every pass but the last one stores a route, so the fuel outlasts the room that is left.
  induction fuel generalizing passes climb with
  | zero =>
    rw [Bounded] at bounded
    omega
  | succ fuel ih =>
    have passed : climb.Moves setting.graph setting.options read (climb.pass setting) :=
      pass_moves coherent
    rw [settleWithin]
    split
    · next still => exact ⟨climb, .refl, rfl, still⟩
    · next hnew =>
      have hsize := passed.extends.size_le
      obtain ⟨last, moves, heq, still⟩ :=
        ih (passes + 1) (passed.coherent coherent) (passed.bounded bounded) (by omega)
      exact ⟨last, passed.trans moves, heq, still⟩

end Climb

/-- The keys of all candidates have been stored or dropped. -/
def SearchState.Closed (graph : Graph) (options : Options) (read : Array WordPart)
    (state : SearchState) : Prop :=
  ∀ route, state.Candidate graph options read route → state.isKnown route.key = true

namespace Climb

variable {setting : Setting} {read : Array WordPart} {climb next : Climb}

lemma settle_closed (coherent : climb.state.Coherent read) (bounded : climb.Bounded setting)
    (built : climb.state.AllBuilt setting.graph setting.options read)
    (leaves : ∀ part : WordPart, part.StandsIn read →
      climb.state.isKnown (Route.leaf part (setting.graph.entry part.entry).isFree).key = true) :
    (climb.settle setting).1.state.Closed setting.graph setting.options read := by
  intro route candidate
  cases candidate with
  | leaf standing => exact (settle_moves coherent).extends.known _ (leaves _ standing)
  | @attach base sub relation attachable =>
    obtain ⟨last, moves, heq, still⟩ :=
      settleWithin_last (setting.options.maxRoutes + 1) 0 coherent bounded (by omega)
    rw [settle, heq] at attachable ⊢
    -- The last pass stores nothing, so the routes could be attached before it as well.
    have rests : last.Rests setting read (last.pass setting) :=
      ⟨pass_moves (moves.coherent coherent), still⟩
    have before : last.state.Attachable setting.graph setting.options base sub relation :=
      attachable.of_eq rests.arena_eq.symm rests.parts_eq.symm
    have hne : base ≠ sub := by
      rintro rfl
      have hroot := ((moves.allBuilt built).fits before.base_lt).root_mem
      exact before.disjoint _ hroot hroot
    have known := pass_known (moves.coherent coherent) (moves.bounded bounded) hne before still
    rwa [rests.attach_eq]

lemma Moves.of_closed (h : climb.Moves setting.graph setting.options read next)
    (closed : climb.state.Closed setting.graph setting.options read) :
    next.state = climb.state ∧ next.added = climb.added ∧ next.capped = climb.capped := by
  induction h with
  | refl => exact ⟨rfl, rfl, rfl⟩
  | @tail middle last _ move ih =>
    obtain ⟨hstate, hadded, hcapped⟩ := ih
    cases move with
    | idle state added capped =>
      exact ⟨state.trans hstate, added.trans hadded, capped.trans hcapped⟩
    | add admits =>
      rw [hstate] at admits
      have unknown := admits.unknown
      rw [closed _ admits.candidate] at unknown
      cases unknown
    | drop refuses =>
      rw [hstate] at refuses
      have unknown := refuses.unknown
      rw [closed _ refuses.candidate] at unknown
      cases unknown

/-- A search in closed tables is a single pass that changes nothing. -/
lemma settle_of_closed (coherent : climb.state.Coherent read)
    (closed : climb.state.Closed setting.graph setting.options read) :
    (climb.settle setting).1.state = climb.state ∧ (climb.settle setting).1.added = climb.added ∧
      (climb.settle setting).1.capped = climb.capped ∧ (climb.settle setting).2 = 1 := by
  obtain ⟨hstate, hadded, hcapped⟩ := (pass_moves coherent).of_closed closed
  rw [settle, settleWithin, if_pos (by rw [hstate])]
  exact ⟨hstate, hadded, hcapped, rfl⟩

end Climb

namespace Session

variable {session next : Session}

section Entering

variable {part : WordPart} (h : session.Coherent) (hread : session.read.1 = some part)
include h hread

/-- When the leaf of a new word part has been stored or dropped, the keys of all leaves are known. -/
lemma leaf_known_of_seed (tracing : Bool)
    (closed : session.search.Closed session.graph session.options session.reading.wordParts)
    {other : WordPart} (standing : other.StandsIn (session.enter part).reading.wordParts) :
    ((Climb.start (session.enter part).search).seed (session.setting tracing) part).state.isKnown
      (Route.leaf other (session.graph.entry other.entry).isFree).key = true := by
  obtain ⟨hparts, -, -⟩ := read_some h.ordered hread
  change other.StandsIn session.read.2.wordParts at standing
  rw [hparts] at standing
  rcases standing.or_eq_of_push with hold | rfl
  · have known := closed _ (.leaf hold)
    exact (seed_moves h hread tracing).extends.known _ ((h.grows_enter hread).known _ known)
  · have hvisit : Climb.VisitMoves (session.setting tracing) (session.enter other).reading.wordParts
        (Climb.visit (session.setting tracing)) := Climb.visit_moves
    exact Climb.store_known hvisit (h.enter hread).tables (.leaf (standsIn_enter h hread))

end Entering

lemma searched_closed (h : Stage session) {part : WordPart} (hread : session.read.1 = some part)
    (tracing : Bool)
    (closed : session.search.Closed session.graph session.options session.reading.wordParts) :
    (session.searched tracing part).1.state.Closed session.graph session.options
      (session.enter part).reading.wordParts := by
  have entered := h.enter hread
  have seeded := seed_moves h.coherent hread tracing
  have bounded : Climb.Bounded (session.setting tracing)
      ((Climb.start (session.enter part).search).seed (session.setting tracing) part) :=
    seeded.bounded entered.allBuilt.2
  rw [searched]
  exact Climb.settle_closed (seeded.coherent entered.coherent.tables) bounded
    (seeded.allBuilt entered.allBuilt.1)
    fun other standing => leaf_known_of_seed h.coherent hread tracing closed standing

/-- Every session that can be reached is closed. -/
theorem Reachable.closed (h : Reachable session) :
    session.search.Closed session.graph session.options session.reading.wordParts := by
  have nothing : ∀ (graph : Graph) (options : Options),
      SearchState.start.Closed graph options #[] := by
    intro graph options route candidate
    cases candidate with
    | leaf standing => exact absurd standing.mem (Array.not_mem_empty _)
    | attach attachable => exact absurd attachable.base_lt (Nat.not_lt_zero _)
  induction h with
  | start started =>
    obtain ⟨entries, -, rfl⟩ := start_eq_ok started
    exact nothing _ _
  | reset => exact nothing _ _
  | @step session reachable tracing ih =>
    have stage := reachable.stage
    cases hread : session.read.1 with
    | none =>
      rw [stepTracing_none hread]
      change session.search.Closed session.graph session.options session.read.2.wordParts
      rw [(read_none stage.coherent.ordered hread).1]
      exact ih
    | some part =>
      obtain ⟨result, -, hstep⟩ := stepTracing_some hread tracing
      rw [hstep]
      simpa only [graph_entered, options_entered, reading_entered, search_entered] using
        searched_closed stage hread tracing ih

/-- After a step the key of every allowed combination of two stored routes has been stored or
dropped, every stored route is a leaf or comes from two earlier routes that allow it, and a further
search stores and drops nothing. -/
theorem closed_of_step {session next : Session} {tracing : Bool} {result : StepResult}
    (reachable : Reachable session) (stepped : session.stepTracing tracing = (.ok result, next)) :
    (∀ base sub relation, next.search.Attachable next.graph next.options base sub relation →
      next.search.isKnown (next.search.attach base sub relation).key = true) ∧
    (∀ id, id < next.search.arena.size →
      next.search.Built next.graph next.options next.reading.wordParts id) ∧
    ∀ tracing, let further := (Climb.start next.search).settle (next.setting tracing)
      further.1.state = next.search ∧ further.1.added = #[] ∧ further.1.capped = 0 ∧
        further.2 = 1 := by
  have reached : Reachable next := by
    have step := reachable.step tracing
    rwa [stepped] at step
  have stage := reached.stage
  refine ⟨fun base sub relation attachable => reached.closed _ (.attach attachable),
    stage.allBuilt.1, fun tracing => ?_⟩
  have coherent : (Climb.start next.search).state.Coherent next.reading.wordParts :=
    stage.coherent.tables
  have closed : (Climb.start next.search).state.Closed (next.setting tracing).graph
      (next.setting tracing).options next.reading.wordParts := reached.closed
  exact Climb.settle_of_closed coherent closed

/-- The third step of the sample has tried the host of the adjunct with the noun. -/
theorem sample_step_closed :
    ∃ result, (sample.stepped 2).stepTracing false = (.ok result, sample.stepped 3) ∧
      (sample.stepped 3).search.isKnown
        ((sample.stepped 3).search.attach 4 0 .argument).key = true := by
  have hread : (sample.stepped 2).read.1 = some ⟨3, 2, 3⟩ := by decide +kernel
  obtain ⟨result, -, hstep⟩ := stepTracing_some hread false
  have hnext : (sample.stepped 2).stepTracing false = (.ok result, sample.stepped 3) := by
    rw [sample.stepped_succ 2, hstep]
  have attachable : (sample.stepped 3).search.Attachable (sample.stepped 3).graph
      (sample.stepped 3).options 4 0 .argument :=
    ⟨by decide +kernel, by decide +kernel, SignalSet.isDisjoint_iff.1 (by decide +kernel),
      by decide +kernel, by decide +kernel, by decide +kernel, by decide +kernel,
      by decide +kernel⟩
  exact ⟨result, hnext, (closed_of_step (sample_reachable 2) hnext).1 4 0 .argument attachable⟩

end Session

end MergeGrammar
