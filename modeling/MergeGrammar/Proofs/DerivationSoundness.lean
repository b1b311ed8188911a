import MergeGrammar.Proofs.FeatureWiring
import MergeGrammar.Proofs.Unfolding

/-!
# Soundness of derivations

In a graph made from entries every derivation is licensed node by node: an argument or an adjunct is
joined to its head or host by an edge, which goes back to a negative feature of the one and a
positive feature of the other that satisfies it, and a remnant is the next part of the same word at
the next signal. Each signal of a route stands at exactly one node of its derivation.
-/

namespace MergeGrammar

namespace SignalSet

lemma nodup_toList (set : SignalSet) : set.toList.Nodup :=
  set.ascending.imp fun h => Nat.ne_of_lt h

lemma toList_union_perm {set other : SignalSet} (h : ∀ x ∈ set, x ∉ other) :
    (set.union other).toList.Perm (set.toList ++ other.toList) := by
  have hnodup : (set.toList ++ other.toList).Nodup :=
    List.nodup_append.2 ⟨set.nodup_toList, other.nodup_toList, fun x hx y hy heq =>
      h x hx (heq ▸ hy)⟩
  refine (List.perm_ext_iff_of_nodup (nodup_toList _) hnodup).2 fun x => ?_
  rw [List.mem_append]
  exact mem_union

lemma size_union {set other : SignalSet} (h : ∀ x ∈ set, x ∉ other) :
    (set.union other).size = set.size + other.size := by
  have hlength := (toList_union_perm h).length_eq
  rwa [List.length_append] at hlength

end SignalSet

/-! ### Edges -/

/-- Every edge comes from features of the word parts that it joins. -/
def SearchState.EdgesWired (graph : Graph) (read : Array WordPart) (state : SearchState) : Prop :=
  ∀ kind s t, 0 < s → t ∈ (state.part s).below kind → Wired graph read kind s t

lemma SearchState.joinAll_wired {graph : Graph} {read : Array WordPart} {state : SearchState}
    (wired : state.EdgesWired graph read) {licences : List Licence}
    (sound : ∀ licence ∈ licences, licence.Sound graph read ∧ licence.Ranges state.parts.size) :
    (state.joinAll licences).1.EdgesWired graph read := by
  refine joinAll_preserves_ranged (P := fun s => s.EdgesWired graph read)
    (fun licence hlicence => (sound licence hlicence).2) (fun licence hlicence ranges hwired => ?_)
    wired
  intro kind s t hpos ht
  rcases (mem_below_joined ranges hpos).1 ht with hold | ⟨rfl, rfl, rfl⟩
  · exact hwired kind s t hpos hold
  · exact (sound licence hlicence).1

namespace Session

variable {session : Session}

theorem Stage.edge_wired (h : Stage session) {kind : MergeKind} {s t : Signal}
    (edge : (s, t) ∈ session.search.edges (·.below kind)) :
    Wired session.graph session.reading.wordParts kind s t := by
  induction h generalizing kind s t with
  | start started =>
    obtain ⟨entries, -, rfl⟩ := start_eq_ok started
    exact absurd edge List.not_mem_nil
  | reset => exact absurd edge List.not_mem_nil
  | exhaust stage hread ih =>
    obtain ⟨hparts, -⟩ := read_none stage.coherent.ordered hread
    exact hparts ▸ ih edge
  | @enter session part stage hread ih =>
    obtain ⟨hparts, -, -⟩ := read_some stage.coherent.ordered hread
    change Wired session.graph session.read.2.wordParts kind s t
    rw [hparts]
    have opened : session.search.openPart.EdgesWired session.graph
        (session.reading.wordParts.push part) := fun kind s t hs ht => by
      rw [SearchState.part_openPart] at ht
      have hle := SearchState.le_size_of_mem_below hs ht
      exact (ih (SearchState.mem_edges.2 ⟨hs, hle, ht⟩)).push part
    have hsize := (SearchState.openPart_coherent stage.coherent.tables part).size_parts
    have joined := SearchState.joinAll_wired opened fun licence hlicence => by
      have sound := stage.coherent.licence_sound hread licence hlicence
      exact ⟨sound, hsize ▸ sound.ranges⟩
    obtain ⟨hs, -, ht⟩ := SearchState.mem_edges.1 edge
    exact joined kind s t hs ht
  | move _ move ih => exact ih (move.extends.mem_edges.1 edge)
  | record _ _ ih => exact ih edge

def edges (session : Session) : MergeKind → List (Signal × Signal)
  | .merge => session.mergeEdges
  | .pairMerge => session.adjunctionEdges

/-- An edge joins two word parts, and a negative feature of the upper one is satisfied by a positive
feature of the lower one. -/
structure Merges (session : Session) (kind : MergeKind) (upper lower : WordPart) : Prop where
  edge : (upper.signal, lower.signal) ∈ session.edges kind
  features : ∃ negative ∈ (session.graph.entry upper.entry).features,
    ∃ positive ∈ (session.graph.entry lower.entry).features,
      (session.graph.feature negative).feature.sign = some kind.sign ∧
      (session.graph.feature positive).feature.satisfies
        (session.graph.feature negative).feature = true

/-- The lower word part stands right behind the upper one and is the next part of its word. -/
structure Continued (session : Session) (upper lower : WordPart) : Prop where
  signal : upper.signal + 1 = lower.signal
  entry : (session.graph.entry upper.entry).nextPart? = some lower.entry
  word : lower.wordIndex = upper.wordIndex

/-- A relation may hold between a word part and another one below it. -/
def Joins (session : Session) : Relation → WordPart → WordPart → Prop
  | .argument => session.Merges .merge
  | .adjunction => session.Merges .pairMerge
  | .part => session.Continued

lemma Stage.merges (h : Stage session) {entries : List Entry}
    (hgraph : session.graph = .ofEntries entries) {kind : MergeKind} {upper lower : WordPart}
    (hupper : upper.StandsIn session.reading.wordParts)
    (hlower : lower.StandsIn session.reading.wordParts)
    (edge : (upper.signal, lower.signal) ∈ session.search.edges (·.below kind)) :
    session.Merges kind upper lower := by
  obtain ⟨negative, hkind, ⟨host, hhost, hsignal, hnegative⟩, positive, ⟨part, hpart, hsignal',
    hpositive⟩, hpartner⟩ := h.edge_wired edge
  rw [hhost.eq hupper hsignal] at hnegative
  rw [hpart.eq hlower hsignal'] at hpositive
  rw [hgraph] at hkind hpartner
  refine ⟨?_, negative, hnegative, positive, hpositive, ?_, ?_⟩
  · cases kind <;> exact edge
  · rw [hgraph]
    exact Graph.target_eq_some.1 hkind
  · rw [hgraph]
    exact Graph.satisfies_of_mem_partners hpartner

lemma Stage.continued (h : Stage session) {upper lower : WordPart}
    (hupper : upper.StandsIn session.reading.wordParts)
    (hlower : lower.StandsIn session.reading.wordParts)
    (hfirst : (session.graph.entry lower.entry).isFirstPart = false)
    (hsignal : upper.signal + 1 = lower.signal) : session.Continued upper lower := by
  have hnext : session.reading.wordParts[upper.signal - 1 + 1]? = some lower := by
    have hpos := hupper.1
    rw [show upper.signal - 1 + 1 = lower.signal - 1 by lia]
    exact hlower.2
  rcases h.coherent.ordered.continues _ _ _ hupper.2 hnext with hpart | ⟨hentry, hword⟩
  · rw [hfirst] at hpart
    cases hpart
  · exact ⟨hsignal, hentry, hword⟩

lemma Stage.joins (h : Stage session) {entries : List Entry}
    (hgraph : session.graph = .ofEntries entries) {base sub : RouteId} {relation : Relation}
    (attachable : session.search.Attachable session.graph session.options base sub relation) :
    session.Joins relation (session.search.arena.route base).root
      (session.search.arena.route sub).root := by
  have hbase := h.coherent.tables.root_read base attachable.base_lt
  have hsub := h.coherent.tables.root_read sub attachable.sub_lt
  have licensed := attachable.licensed
  cases relation with
  | argument => exact h.merges hgraph hbase hsub licensed.1
  | adjunction => exact h.merges hgraph hbase hsub licensed.1
  | part => exact h.continued hbase hsub licensed.1 licensed.2.1

end Session

/-! ### Derivations -/

/-- Every relation in a derivation may hold. -/
inductive Derivation.Sound (session : Session) : Derivation → Prop where
  | node {root : WordPart} {part arg : Option Derivation} {adjuncts : List Derivation}
    (standing : root.StandsIn session.reading.wordParts)
    (part_joins : ∀ d, part = some d → session.Joins .part root d.root)
    (arg_joins : ∀ d, arg = some d → session.Joins .argument root d.root)
    (adjunct_joins : ∀ d ∈ adjuncts, session.Joins .adjunction root d.root)
    (part_sound : ∀ d, part = some d → Sound session d)
    (arg_sound : ∀ d, arg = some d → Sound session d)
    (adjunct_sound : ∀ d ∈ adjuncts, Sound session d) : Sound session (.node root part arg adjuncts)

namespace Derivation

variable {session : Session}

lemma Sound.attach {base sub : Derivation} {relation : Relation} (hbase : base.Sound session)
    (hsub : sub.Sound session) (joins : session.Joins relation base.root sub.root) :
    (base.attach sub relation).Sound session := by
  obtain ⟨standing, part_joins, arg_joins, adjunct_joins, part_sound, arg_sound, adjunct_sound⟩ :=
    hbase
  cases relation with
  | argument =>
    refine .node standing part_joins ?_ adjunct_joins part_sound ?_ adjunct_sound
    · rintro d ⟨⟩
      exact joins
    · rintro d ⟨⟩
      exact hsub
  | adjunction =>
    refine .node standing part_joins arg_joins ?_ part_sound arg_sound ?_
    · intro d hd
      rcases List.mem_append.1 hd with hd | hd
      · exact adjunct_joins d hd
      · rw [List.mem_singleton.1 hd]
        exact joins
    · intro d hd
      rcases List.mem_append.1 hd with hd | hd
      · exact adjunct_sound d hd
      · rw [List.mem_singleton.1 hd]
        exact hsub
  | part =>
    refine .node standing ?_ arg_joins adjunct_joins ?_ arg_sound adjunct_sound
    · rintro d ⟨⟩
      exact joins
    · rintro d ⟨⟩
      exact hsub

end Derivation

/-- What the signals and the weight of a route say about its derivation. -/
structure Derivation.Covers (d : Derivation) (route : Route) : Prop where
  signals : (d.wordParts.map WordPart.signal).Perm route.signals.toList
  size : route.size = route.weight + 1

lemma Derivation.covers_leaf (root : WordPart) (free : Bool) :
    (Derivation.node root none none []).Covers (.leaf root free) := by
  refine ⟨?_, rfl⟩
  rw [wordParts_node]
  exact List.Perm.refl [root.signal]

lemma Derivation.Covers.attach {base sub : Route} {d e : Derivation} (hbase : d.Covers base)
    (hsub : e.Covers sub) (disjoint : ∀ x ∈ base.signals, x ∉ sub.signals) {relation : Relation}
    (room : d.HasRoom relation) (id : RouteId) :
    (d.attach e relation).Covers (base.extend id sub relation) := by
  constructor
  · rw [Route.signals_extend]
    have parts : ((d.attach e relation).wordParts.map WordPart.signal).Perm
        ((d.wordParts ++ e.wordParts).map WordPart.signal) := (wordParts_attach room).map _
    rw [List.map_append] at parts
    have joined := hbase.signals.append hsub.signals
    exact parts.trans (joined.trans (SignalSet.toList_union_perm disjoint).symm)
  · have hsize := SignalSet.size_union disjoint
    have hbase_size := hbase.size
    have hsub_size := hsub.size
    have hweight : (base.extend id sub relation).weight = base.weight + sub.weight + 1 := by
      cases relation <;> rfl
    rw [Route.size, Route.signals_extend, hsize, hweight]
    rw [Route.size] at hbase_size hsub_size
    omega

lemma Route.hasRoom_of_unfilled {base sub : Route} {relation : Relation} (built : Array Derivation)
    (unfilled : Climb.isFilled base sub relation = false) : (base.unfold built).HasRoom relation := by
  cases relation with
  | argument =>
    rw [unfold, (Climb.isFilled_argument.1 unfilled).1]
    rfl
  | adjunction => trivial
  | part =>
    rw [unfold, Climb.isFilled_part.1 unfilled]
    rfl

/-- The derivation of every stored route has the signals of the route. -/
lemma SearchState.AllBuilt.covers {graph : Graph} {options : Options} {read : Array WordPart}
    {state : SearchState} (h : state.AllBuilt graph options read) {id : RouteId}
    (hid : id < state.arena.size) :
    ((state.arena.route id).unfold state.arena.derivations).Covers (state.arena.route id) := by
  refine h.induct (motive := fun _ route => (route.unfold state.arena.derivations).Covers route)
    (fun id part _ => Derivation.covers_leaf part _) ?_ hid
  intro id base sub relation _ _ attachable hbase hsub
  rw [attach, Route.unfold_extend (h.getElem?_derivations attachable.sub_lt)]
  exact hbase.attach hsub attachable.disjoint (Route.hasRoom_of_unfilled _ attachable.unfilled) sub

namespace Session

variable {session : Session}

/-- The derivation of every stored route is licensed node by node, and each signal of the route
stands at exactly one of its nodes. -/
theorem derivation_sound (reachable : Reachable session) {entries : List Entry}
    (hgraph : session.graph = .ofEntries entries) {id : RouteId}
    (hid : id < session.search.arena.size) :
    ∃ d, session.derivations[id]? = some d ∧ d.root = (session.search.arena.route id).root ∧
      d.Sound session ∧ (d.wordParts.map WordPart.signal).Nodup ∧
      (∀ signal, signal ∈ d.wordParts.map WordPart.signal ↔
        signal ∈ (session.search.arena.route id).signals) ∧
      (session.search.arena.route id).size = (session.search.arena.route id).weight + 1 := by
  have stage := reachable.stage
  have built := stage.allBuilt.1
  have covers := built.covers hid
  have sound : ((session.search.arena.route id).unfold session.derivations).Sound session := by
    refine built.induct (motive := fun _ route => (route.unfold session.derivations).Sound session)
      (fun id part standing => ?_) ?_ hid
    · rw [Route.unfold_leaf]
      refine .node standing ?_ ?_ ?_ ?_ ?_ ?_ <;> simp
    · intro id base sub relation _ _ attachable hbase hsub
      have hget : session.derivations[sub]? =
          some ((session.search.arena.route sub).unfold session.derivations) :=
        built.getElem?_derivations attachable.sub_lt
      rw [SearchState.attach, Route.unfold_extend hget]
      exact hbase.attach hsub (stage.joins hgraph attachable)
  refine ⟨_, built.getElem?_derivations hid, rfl, sound, covers.signals.nodup_iff.2 (SignalSet.nodup_toList _),
    fun signal => ?_, covers.size⟩
  rw [covers.signals.mem_iff]
  exact SignalSet.mem_toList

/-- The last route of the sample is the head with its noun and its adjunct. -/
theorem sample_derivation_sound :
    ∃ d, (sample.stepped 3).derivations[5]? = some d ∧ d.Sound (sample.stepped 3) ∧
      (∀ signal, signal ∈ d.wordParts.map WordPart.signal ↔ signal ∈ [1, 2, 3]) := by
  have hid : 5 < (sample.stepped 3).search.arena.size := by decide +kernel
  have hsignals : ((sample.stepped 3).search.arena.route 5).signals = .ofList [1, 2, 3] := by
    decide +kernel
  obtain ⟨d, hd, -, sound, -, signals, -⟩ :=
    derivation_sound (sample_reachable 3) (sample.graph_stepped 3) hid
  refine ⟨d, hd, sound, fun signal => (signals signal).trans ?_⟩
  simp only [hsignals, SignalSet.mem_ofList]

end Session

end MergeGrammar
