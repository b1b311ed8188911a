import MergeGrammar.Proofs.SpanScope
import MergeGrammar.Proofs.Stages

/-!
# Lineage of the routes

Every stored route is the leaf of a word part that has been read or comes from two earlier routes
that may be attached to each other. Tables only grow, so this stays true, and what passes from two
attachable routes to their combination holds of every stored route.
-/

namespace MergeGrammar

namespace Route

/-- The numbers of the routes a route is made of. -/
def components (route : Route) : List RouteId :=
  route.part.toList ++ route.arg.toList ++ route.adjuncts

lemma mem_components {route : Route} {id : RouteId} : id ∈ route.components ↔
    route.part = some id ∨ route.arg = some id ∨ id ∈ route.adjuncts := by
  simp [components]

lemma components_leaf (root : WordPart) (free : Bool) : (leaf root free).components = [] := rfl

lemma mem_components_extend {base sub : Route} {id other : RouteId} {relation : Relation}
    (unfilled : Climb.isFilled base sub relation = false) :
    other ∈ (base.extend id sub relation).components ↔ other = id ∨ other ∈ base.components := by
  rw [mem_components, mem_components]
  cases relation with
  | argument =>
    have hnone : base.arg = none := (Climb.isFilled_argument.1 unfilled).1
    simp only [extend, hnone, Option.some.injEq]
    grind
  | adjunction =>
    simp only [extend, List.mem_append, List.mem_singleton]
    grind
  | part =>
    have hnone : base.part = none := Climb.isFilled_part.1 unfilled
    simp only [extend, hnone, Option.some.injEq]
    grind

end Route

namespace SearchState

/-- Later tables keep the routes, the edges and the known keys of earlier ones. -/
structure Grows (earlier later : SearchState) : Prop where
  size_le : earlier.arena.size ≤ later.arena.size
  route_eq : ∀ id, id < earlier.arena.size → later.arena.route id = earlier.arena.route id
  edges : ∀ kind s t, (s, t) ∈ earlier.edges (·.below kind) → (s, t) ∈ later.edges (·.below kind)
  known : ∀ key, earlier.isKnown key = true → later.isKnown key = true

lemma Extends.grows {earlier later : SearchState} (h : earlier.Extends later) :
    earlier.Grows later where
  size_le := h.size_le
  route_eq := h.route_eq
  edges _ _ _ := h.mem_edges.2
  known := h.known

lemma Grows.trans {a b c : SearchState} (h : a.Grows b) (h' : b.Grows c) : a.Grows c where
  size_le := h.size_le.trans h'.size_le
  route_eq id hid := (h'.route_eq id (hid.trans_le h.size_le)).trans (h.route_eq id hid)
  edges kind s t hedge := h'.edges kind s t (h.edges kind s t hedge)
  known key hkey := h'.known key (h.known key hkey)

lemma grows_openPart (state : SearchState) : state.Grows state.openPart where
  size_le := le_rfl
  route_eq _ _ := rfl
  edges kind s t := by
    rw [mem_edges, mem_edges, part_openPart]
    intro ⟨hpos, hle, hedge⟩
    refine ⟨hpos, ?_, hedge⟩
    simp only [openPart, Array.size_push]
    omega
  known _ h := h

variable {graph : Graph} {options : Options} {read : Array WordPart} {state : SearchState}

lemma grows_joined {licence : Licence} (ranges : licence.Ranges state.parts.size) :
    state.Grows (state.joined licence) where
  size_le := le_rfl
  route_eq _ _ := rfl
  edges kind s t := by
    rw [mem_edges, mem_edges, size_parts_joined]
    intro ⟨hpos, hle, hedge⟩
    exact ⟨hpos, hle, (mem_below_joined ranges hpos).2 (Or.inl hedge)⟩
  known _ h := h

lemma grows_joinAll {licences : List Licence}
    (ranges : ∀ licence ∈ licences, licence.Ranges state.parts.size) :
    state.Grows (state.joinAll licences).1 :=
  joinAll_preserves_ranged (P := state.Grows) ranges
    (fun _ _ ranges hgrows => hgrows.trans (grows_joined ranges)) (Extends.refl state).grows

/-! ### Attachment in later tables -/

lemma Attachable.unfilled {base sub : RouteId} {relation : Relation}
    (attachable : state.Attachable graph options base sub relation) :
    Climb.isFilled (state.arena.route base) (state.arena.route sub) relation = false := by
  have licensed := attachable.licensed
  cases relation with
  | argument => exact Climb.isFilled_argument.2 ⟨licensed.2.1, licensed.2.2.1⟩
  | adjunction => rfl
  | part => exact Climb.isFilled_part.2 licensed.2.2.2

/-- A route is a leaf or comes from two earlier ones. -/
inductive Built (graph : Graph) (options : Options) (read : Array WordPart) (state : SearchState)
    (id : RouteId) : Prop where
  | leaf {part : WordPart} (standing : part.StandsIn read)
    (route_eq : state.arena.route id = .leaf part (graph.entry part.entry).isFree)
  | attach {base sub : RouteId} {relation : Relation} (base_lt : base < id) (sub_lt : sub < id)
    (attachable : state.Attachable graph options base sub relation)
    (route_eq : state.arena.route id = state.attach base sub relation)

def AllBuilt (graph : Graph) (options : Options) (read : Array WordPart) (state : SearchState) :
    Prop :=
  ∀ id, id < state.arena.size → state.Built graph options read id

/-- What passes from two attachable routes to their combination holds of every stored route. -/
theorem AllBuilt.induct (h : state.AllBuilt graph options read) {motive : RouteId → Route → Prop}
    (leaf : ∀ id (part : WordPart), part.StandsIn read →
      motive id (.leaf part (graph.entry part.entry).isFree))
    (attach : ∀ id base sub relation, base < id → sub < id →
      state.Attachable graph options base sub relation → motive base (state.arena.route base) →
      motive sub (state.arena.route sub) → motive id (state.attach base sub relation))
    {id : RouteId} (hid : id < state.arena.size) : motive id (state.arena.route id) := by
  induction id using Nat.strong_induction_on with
  | _ id ih =>
    cases h id hid with
    | leaf standing route_eq =>
      rw [route_eq]
      exact leaf id _ standing
    | attach base_lt sub_lt attachable route_eq =>
      rw [route_eq]
      exact attach id _ _ _ base_lt sub_lt attachable (ih _ base_lt (base_lt.trans hid))
        (ih _ sub_lt (sub_lt.trans hid))

lemma AllBuilt.component_lt (h : state.AllBuilt graph options read) {id other : RouteId}
    (hid : id < state.arena.size) (hother : other ∈ (state.arena.route id).components) :
    other < id := by
  refine h.induct (motive := fun id route => ∀ other ∈ route.components, other < id) ?_ ?_ hid
    other hother
  · intro id part _ other hother
    rw [Route.components_leaf] at hother
    exact absurd hother List.not_mem_nil
  · intro id base sub relation hbase hsub attachable ih _ other hother
    rcases (Route.mem_components_extend attachable.unfilled).1 hother with rfl | hother
    · exact hsub
    · exact (ih other hother).trans hbase

lemma AllBuilt.fits (h : state.AllBuilt graph options read) {id : RouteId}
    (hid : id < state.arena.size) : (state.arena.route id).Fits :=
  h.induct (motive := fun _ route => route.Fits) (fun _ part _ => Route.fits_leaf part _)
    (fun _ _ sub relation _ _ _ hbase hsub => hbase.extend hsub sub relation) hid

lemma AllBuilt.root_standsIn (h : state.AllBuilt graph options read) {id : RouteId}
    (hid : id < state.arena.size) : (state.arena.route id).root.StandsIn read :=
  h.induct (motive := fun _ route => route.root.StandsIn read) (fun _ _ standing => standing)
    (fun _ base sub relation _ _ _ hbase _ => by
      rw [attach, Route.root_extend]
      exact hbase) hid

/-- The signals of a route are those of word parts that have been read. -/
lemma AllBuilt.signals_range (h : state.AllBuilt graph options read) {id : RouteId}
    (hid : id < state.arena.size) {s : Signal} (hs : s ∈ (state.arena.route id).signals) :
    0 < s ∧ s ≤ read.size := by
  refine h.induct (motive := fun _ route => ∀ s ∈ route.signals, 0 < s ∧ s ≤ read.size) ?_ ?_ hid
    s hs
  · intro id part standing s hs
    rw [SignalSet.mem_singleton.1 hs]
    exact ⟨standing.1, standing.le_size⟩
  · intro id base sub relation _ _ _ hbase hsub s hs
    rw [attach, Route.signals_extend, SignalSet.mem_union] at hs
    exact hs.elim (hbase s) (hsub s)

lemma adjunctAgrees_eq {later : SearchState} {sub base : RouteId}
    (hroute : ∀ id, id = base ∨ id = sub ∨ id ∈ (state.arena.route base).adjuncts ∨
      id ∈ (state.arena.route sub).adjuncts → later.arena.route id = state.arena.route id)
    (setting : Setting) : (Climb.start later).adjunctAgrees setting sub base =
      (Climb.start state).adjunctAgrees setting sub base := by
  have hentry : ∀ id, later.arena.route id = state.arena.route id →
      (Climb.start later).rootEntry setting id = (Climb.start state).rootEntry setting id := by
    intro id hid
    rw [Climb.rootEntry, Climb.rootEntry]
    exact congrArg (fun route : Route => setting.graph.entry route.root.entry) hid
  have hany : ∀ (ids : List RouteId) (names : List String) (newcomer : LexicalEntry),
      (∀ id ∈ ids, later.arena.route id = state.arena.route id) →
      (ids.any fun other =>
        ((Climb.start later).rootEntry setting other).clashes setting.graph names newcomer) =
      ids.any fun other =>
        ((Climb.start state).rootEntry setting other).clashes setting.graph names newcomer := by
    intro ids names newcomer hids
    induction ids with
    | nil => rfl
    | cons id ids ih =>
      rw [List.any_cons, List.any_cons, hentry id (hids id List.mem_cons_self),
        ih fun other hother => hids other (List.mem_cons_of_mem _ hother)]
  have hadjuncts : ∀ id, later.arena.route id = state.arena.route id →
      ((Climb.start later).route id).adjuncts = ((Climb.start state).route id).adjuncts :=
    fun id hid => congrArg Route.adjuncts hid
  have hbase := hroute base (Or.inl rfl)
  have hsub := hroute sub (Or.inr (Or.inl rfl))
  simp only [Climb.adjunctAgrees, hentry sub hsub, hentry base hbase, hadjuncts sub hsub,
    hadjuncts base hbase]
  rw [hany ((Climb.start state).route base).adjuncts _ _ fun id hid =>
      hroute id (Or.inr (Or.inr (Or.inl hid))),
    hany ((Climb.start state).route sub).adjuncts _ _ fun id hid =>
      hroute id (Or.inr (Or.inr (Or.inr hid)))]

/-- Two routes stay attachable in tables with the same routes and at least the same edges. -/
lemma Attachable.transfer {later : SearchState} {base sub : RouteId} {relation : Relation}
    (attachable : state.Attachable graph options base sub relation)
    (hsize : state.arena.size ≤ later.arena.size)
    (hedges : ∀ kind s t, (s, t) ∈ state.edges (·.below kind) → (s, t) ∈ later.edges (·.below kind))
    (hroute : ∀ id, id = base ∨ id = sub ∨ id ∈ (state.arena.route base).adjuncts ∨
      id ∈ (state.arena.route sub).adjuncts → later.arena.route id = state.arena.route id) :
    later.Attachable graph options base sub relation := by
  have hbase := hroute base (Or.inl rfl)
  have hsub := hroute sub (Or.inr (Or.inl rfl))
  refine ⟨attachable.base_lt.trans_le hsize, attachable.sub_lt.trans_le hsize, ?_, ?_, ?_⟩
  · rw [hbase, hsub]
    exact attachable.disjoint
  · rw [hbase, hsub]
    exact attachable.apart
  · have licensed := attachable.licensed
    cases relation with
    | argument =>
      rw [Licensed, hbase, hsub]
      exact ⟨hedges .merge _ _ licensed.1, licensed.2⟩
    | adjunction =>
      rw [Licensed, hbase, hsub, adjunctAgrees_eq hroute]
      exact ⟨hedges .pairMerge _ _ licensed.1, licensed.2⟩
    | part =>
      rw [Licensed, hbase, hsub]
      exact licensed

lemma Attachable.of_eq {later : SearchState} {base sub : RouteId} {relation : Relation}
    (attachable : state.Attachable graph options base sub relation)
    (harena : later.arena = state.arena) (hparts : later.parts = state.parts) :
    later.Attachable graph options base sub relation := by
  refine attachable.transfer ?_ (fun kind s t hedge => ?_) fun id _ => ?_
  · rw [harena]
  · rw [edges, hparts]
    exact hedge
  · rw [harena]

lemma Attachable.grows {later : SearchState} (h : state.AllBuilt graph options read)
    (hgrows : state.Grows later) {base sub : RouteId} {relation : Relation}
    (attachable : state.Attachable graph options base sub relation) :
    later.Attachable graph options base sub relation := by
  have hadjuncts : ∀ id, id < state.arena.size → ∀ other ∈ (state.arena.route id).adjuncts,
      later.arena.route other = state.arena.route other := by
    intro id hid other hother
    have hlt := h.component_lt hid (Route.mem_components.2 (Or.inr (Or.inr hother)))
    exact hgrows.route_eq other (hlt.trans hid)
  refine attachable.transfer hgrows.size_le hgrows.edges fun id hid => ?_
  rcases hid with rfl | rfl | hid | hid
  · exact hgrows.route_eq _ attachable.base_lt
  · exact hgrows.route_eq _ attachable.sub_lt
  · exact hadjuncts base attachable.base_lt id hid
  · exact hadjuncts sub attachable.sub_lt id hid

lemma Grows.attach_eq {later : SearchState} (hgrows : state.Grows later) {base sub : RouteId}
    (hbase : base < state.arena.size) (hsub : sub < state.arena.size) (relation : Relation) :
    later.attach base sub relation = state.attach base sub relation := by
  rw [attach, attach, hgrows.route_eq base hbase, hgrows.route_eq sub hsub]

lemma Built.grows {later : SearchState} (h : state.AllBuilt graph options read)
    (hgrows : state.Grows later) {readLater : Array WordPart}
    (hread : ∀ part : WordPart, part.StandsIn read → part.StandsIn readLater) {id : RouteId}
    (hid : id < state.arena.size) (built : state.Built graph options read id) :
    later.Built graph options readLater id := by
  have hroute := hgrows.route_eq id hid
  cases built with
  | leaf standing route_eq => exact .leaf (hread _ standing) (hroute.trans route_eq)
  | attach base_lt sub_lt attachable route_eq =>
    refine .attach base_lt sub_lt (attachable.grows h hgrows) ?_
    rw [hroute, hgrows.attach_eq attachable.base_lt attachable.sub_lt]
    exact route_eq

lemma AllBuilt.add (h : state.AllBuilt graph options read) {route : Route}
    (candidate : state.Candidate graph options read route) :
    (state.add route).AllBuilt graph options read := by
  intro id hid
  have hgrows : state.Grows (state.add route) := (state.extends_add route).grows
  rw [arena_add, Arena.size_push] at hid
  rcases Nat.lt_succ_iff_lt_or_eq.1 hid with hlt | rfl
  · exact (h id hlt).grows h hgrows (fun _ standing => standing) hlt
  · have hnew : (state.add route).arena.route state.arena.size = route :=
      state.arena.route_push_size route
    cases candidate with
    | leaf standing => exact .leaf standing hnew
    | attach attachable =>
      refine .attach attachable.base_lt attachable.sub_lt (attachable.grows h hgrows) ?_
      rw [hnew, hgrows.attach_eq attachable.base_lt attachable.sub_lt]

lemma AllBuilt.drop (h : state.AllBuilt graph options read) (key : List Nat) :
    (state.drop key).AllBuilt graph options read := fun id hid =>
  (h id hid).grows h (state.extends_drop key).grows (fun _ standing => standing) hid

lemma AllBuilt.move (h : state.AllBuilt graph options read) {next : SearchState}
    (move : state.Move graph options read next) : next.AllBuilt graph options read := by
  cases move with
  | add admits => exact h.add admits.candidate
  | drop refuses => exact h.drop _

lemma Move.size_le {next : SearchState} (move : state.Move graph options read next)
    (bounded : state.arena.size ≤ options.maxRoutes) : next.arena.size ≤ options.maxRoutes := by
  cases move with
  | add admits =>
    have room := admits.room
    rw [arena_add, Arena.size_push]
    omega
  | drop refuses => exact bounded

end SearchState

section Moves

variable {graph : Graph} {options : Options} {read : Array WordPart} {climb next : Climb}

lemma Climb.Moves.allBuilt (h : Climb.Moves graph options read climb next)
    (built : climb.state.AllBuilt graph options read) : next.state.AllBuilt graph options read :=
  h.preserves (fun hs move => hs.move move) built

lemma Climb.Moves.bounded (h : Climb.Moves graph options read climb next)
    (bounded : climb.state.arena.size ≤ options.maxRoutes) :
    next.state.arena.size ≤ options.maxRoutes :=
  h.preserves (P := fun s => s.arena.size ≤ options.maxRoutes) (fun hs move => move.size_le hs)
    bounded

end Moves

namespace Session

variable {session : Session}

lemma Coherent.grows_enter (h : session.Coherent) {part : WordPart}
    (hread : session.read.1 = some part) : session.search.Grows (session.enter part).search := by
  have hsize : session.search.openPart.parts.size = (session.reading.wordParts.push part).size :=
    (SearchState.openPart_coherent h.tables part).size_parts
  refine session.search.grows_openPart.trans (SearchState.grows_joinAll fun licence hl => ?_)
  rw [hsize]
  exact (h.licence_sound hread licence hl).ranges

/-- The routes of every stage are built, and they keep to the limit. -/
theorem Stage.allBuilt (h : Stage session) :
    session.search.AllBuilt session.graph session.options session.reading.wordParts ∧
      session.search.arena.size ≤ session.options.maxRoutes := by
  induction h with
  | start started =>
    obtain ⟨entries, -, rfl⟩ := start_eq_ok started
    exact ⟨fun id hid => absurd hid (Nat.not_lt_zero id), Nat.zero_le _⟩
  | reset => exact ⟨fun id hid => absurd hid (Nat.not_lt_zero id), Nat.zero_le _⟩
  | exhaust stage hread ih =>
    obtain ⟨hparts, -⟩ := read_none stage.coherent.ordered hread
    exact ⟨hparts ▸ ih.1, ih.2⟩
  | @enter session part stage hread ih =>
    obtain ⟨hparts, -, -⟩ := read_some stage.coherent.ordered hread
    have hgrows := stage.coherent.grows_enter hread
    have harena := session.arena_enter part
    refine ⟨fun id hid => ?_, harena ▸ ih.2⟩
    rw [harena] at hid
    refine (ih.1 id hid).grows ih.1 hgrows (fun other standing => ?_) hid
    change other.StandsIn session.read.2.wordParts
    rw [hparts]
    exact standing.push part
  | move _ move ih => exact ⟨ih.1.move move, move.size_le ih.2⟩
  | record _ _ ih => exact ih

end Session

end MergeGrammar
