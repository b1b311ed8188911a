import MergeGrammar.Proofs.PartLicences
import MergeGrammar.Proofs.TableGrowth
import MergeGrammar.Proofs.WordTwins

/-!
# The same steps in two graphs

Two sessions read the same sentence, each in a graph of its own. Licences come from the features of the
parts, so at every step the two get the same ones, though not in the same order, and add the same
edges.
-/

namespace MergeGrammar

lemma Licence.of_eq_iff {kind : MergeKind} {s t : Signal} {licence : Licence} :
    Licence.of kind s t = licence ↔
      s = licence.upper ∧ kind = licence.kind ∧ t = licence.lower := by
  constructor
  · rintro rfl
    simp
  · rintro ⟨rfl, rfl, rfl⟩
    exact licence.of_kind

namespace SearchState

variable {state other : SearchState} {licences : List Licence}

/-! ### Edges as a set -/

/-- The edges after several licences are the earlier ones and those of the licences, but none from a
word part to itself. -/
lemma mem_below_joinAll (ranges : ∀ licence ∈ licences, licence.Ranges state.parts.size)
    {kind : MergeKind} {s t : Signal} (hs : 0 < s) :
    t ∈ ((state.joinAll licences).1.part s).below kind ↔
      t ∈ (state.part s).below kind ∨ s ≠ t ∧ Licence.of kind s t ∈ licences := by
  induction licences generalizing state with
  | nil => simp [joinAll]
  | cons licence licences ih =>
    obtain ⟨first, rest⟩ := List.forall_mem_cons.1 ranges
    rw [joinAll_cons, List.mem_cons, Licence.of_eq_iff]
    split
    · next hskip =>
      rw [ih rest]
      constructor
      · rintro (hold | ⟨hne, hmem⟩)
        · exact Or.inl hold
        · exact Or.inr ⟨hne, Or.inr hmem⟩
      · rintro (hold | ⟨hne, ⟨rfl, rfl, rfl⟩ | hmem⟩)
        · exact Or.inl hold
        · exact Or.inl (hskip.resolve_left hne)
        · exact Or.inr ⟨hne, hmem⟩
    · next htake =>
      rw [@ih (state.joined licence) (by rwa [size_parts_joined]),
        mem_below_joined first hs, or_assoc]
      refine or_congr_right ?_
      constructor
      · rintro (⟨rfl, rfl, rfl⟩ | ⟨hne, hmem⟩)
        · exact ⟨(not_or.1 htake).1, Or.inl ⟨rfl, rfl, rfl⟩⟩
        · exact ⟨hne, Or.inr hmem⟩
      · rintro ⟨hne, hnew | hmem⟩
        · exact Or.inl hnew
        · exact Or.inr ⟨hne, hmem⟩

/-- The new edges are those of the licences that are no edges yet, but none from a word part to
itself. -/
lemma mem_joinAll (ranges : ∀ licence ∈ licences, licence.Ranges state.parts.size)
    {licence : Licence} : licence ∈ (state.joinAll licences).2 ↔
      licence ∈ licences ∧ licence.upper ≠ licence.lower ∧
        licence.lower ∉ (state.part licence.upper).below licence.kind := by
  induction licences generalizing state with
  | nil => simp [joinAll]
  | cons first licences ih =>
    obtain ⟨first_ranges, rest⟩ := List.forall_mem_cons.1 ranges
    rw [joinAll_cons, List.mem_cons]
    split
    · next hskip =>
      rw [ih rest]
      constructor
      · rintro ⟨hmem, hnew⟩
        exact ⟨Or.inr hmem, hnew⟩
      · rintro ⟨rfl | hmem, hne, hnot⟩
        · exact absurd hskip (not_or.2 ⟨hne, hnot⟩)
        · exact ⟨hmem, hne, hnot⟩
    · next htake =>
      obtain ⟨hne, hnot⟩ := not_or.1 htake
      rw [List.mem_cons, @ih (state.joined first) (by rwa [size_parts_joined])]
      have joined_iff : ∀ l ∈ licences, l.lower ∈ ((state.joined first).part l.upper).below l.kind ↔
          l.lower ∈ (state.part l.upper).below l.kind ∨ l = first := by
        intro l hl
        rw [mem_below_joined first_ranges (rest l hl).1.1, ← Licence.of_eq_iff, Licence.of_kind]
      constructor
      · rintro (rfl | ⟨hmem, hne', hnot'⟩)
        · exact ⟨Or.inl rfl, hne, hnot⟩
        · rw [joined_iff licence hmem, not_or] at hnot'
          exact ⟨Or.inr hmem, hne', hnot'.1⟩
      · rintro ⟨rfl | hmem, hne', hnot'⟩
        · exact Or.inl rfl
        · by_cases heq : licence = first
          · exact Or.inl heq
          · refine Or.inr ⟨hmem, hne', ?_⟩
            rw [joined_iff licence hmem]
            exact not_or.2 ⟨hnot', heq⟩

/-- Two searches have the same edges, in whatever order they are listed. -/
structure EdgesMatch (state other : SearchState) : Prop where
  size_parts : other.parts.size = state.parts.size
  mem_below_iff : ∀ kind s t, 0 < s →
    (t ∈ (other.part s).below kind ↔ t ∈ (state.part s).below kind)

namespace EdgesMatch

lemma symm (h : state.EdgesMatch other) : other.EdgesMatch state :=
  ⟨h.size_parts.symm, fun kind s t hs => (h.mem_below_iff kind s t hs).symm⟩

lemma trans {third : SearchState} (h : state.EdgesMatch other) (h' : other.EdgesMatch third) :
    state.EdgesMatch third where
  size_parts := h'.size_parts.trans h.size_parts
  mem_below_iff kind s t hs := (h'.mem_below_iff kind s t hs).trans (h.mem_below_iff kind s t hs)

lemma of_same (h : state.SameEdges other) : state.EdgesMatch other where
  size_parts := h.size_parts
  mem_below_iff kind s t _ := by rw [h.below_eq]

lemma openPart (h : state.EdgesMatch other) : state.openPart.EdgesMatch other.openPart where
  size_parts := by
    rw [SearchState.openPart, SearchState.openPart, Array.size_push, Array.size_push, h.size_parts]
  mem_below_iff kind s t hs := by
    rw [part_openPart, part_openPart]
    exact h.mem_below_iff kind s t hs

lemma mem_edges_iff (h : state.EdgesMatch other) {kind : MergeKind} {s t : Signal} :
    (s, t) ∈ other.edges (·.below kind) ↔ (s, t) ∈ state.edges (·.below kind) := by
  rw [mem_edges, mem_edges, h.size_parts]
  exact and_congr_right fun hs => and_congr_right fun _ => h.mem_below_iff kind s t hs

variable (h : state.EdgesMatch other) {licences' : List Licence}
  (ranges : ∀ licence ∈ licences, licence.Ranges state.parts.size)
  (mem_iff : ∀ licence, licence ∈ licences' ↔ licence ∈ licences)
include h ranges mem_iff

/-- The same licences in whatever order give the same edges. -/
lemma joinAll : (state.joinAll licences).1.EdgesMatch (other.joinAll licences').1 where
  size_parts := by
    rw [size_parts_joinAll, size_parts_joinAll, h.size_parts]
  mem_below_iff kind s t hs := by
    have ranges' : ∀ licence ∈ licences', licence.Ranges other.parts.size := fun licence hl =>
      h.size_parts ▸ ranges licence ((mem_iff licence).1 hl)
    rw [mem_below_joinAll ranges hs, mem_below_joinAll ranges' hs, h.mem_below_iff kind s t hs,
      mem_iff]

lemma mem_joinAll_iff (licence : Licence) :
    licence ∈ (other.joinAll licences').2 ↔ licence ∈ (state.joinAll licences).2 := by
  have ranges' : ∀ licence ∈ licences', licence.Ranges other.parts.size := fun licence hl =>
    h.size_parts ▸ ranges licence ((mem_iff licence).1 hl)
  rw [mem_joinAll ranges, mem_joinAll ranges', mem_iff]
  refine and_congr_right fun hmem => and_congr_right fun _ => not_congr ?_
  exact h.mem_below_iff _ _ _ (ranges licence hmem).1.1

end EdgesMatch

end SearchState

lemma Reading.Ordered.nodup_signals {graph : Graph} {reading : Reading} (h : reading.Ordered graph) :
    (reading.wordParts.toList.map WordPart.signal).Nodup := by
  have signals_eq : reading.wordParts.toList.map WordPart.signal =
      List.range' 1 reading.wordParts.size := by
    refine List.ext_getElem? fun i => ?_
    rw [List.getElem?_map, Array.getElem?_toList]
    cases hget : reading.wordParts[i]? with
    | none =>
      have hle := Array.getElem?_eq_none_iff.1 hget
      rw [List.getElem?_eq_none (List.length_range'.trans_le hle)]
      rfl
    | some part =>
      have hlt := (Array.getElem?_eq_some_iff.1 hget).1
      rw [List.getElem?_range' hlt, Option.map_some, h.numbered i part hget, Nat.one_mul,
        Nat.add_comm]
  rw [signals_eq]
  exact List.nodup_range'

lemma Reading.Twins.exists_mem {graph other : Graph} {reading reading' : Reading}
    (h : reading.Twins graph other reading') {part : WordPart} (hpart : part ∈ reading.wordParts) :
    ∃ part' ∈ reading'.wordParts, part.Twins graph other part' := by
  obtain ⟨i, hi, rfl⟩ := Array.mem_iff_getElem.1 hpart
  have hi' : i < reading'.wordParts.size := hi.trans_eq h.size_eq.symm
  exact ⟨_, Array.getElem_mem hi',
    h.parts i _ _ (Array.getElem?_eq_getElem hi) (Array.getElem?_eq_getElem hi')⟩

namespace StepResult

/-- The edges of a kind that a step has added. -/
def newEdges (result : StepResult) : MergeKind → List (Signal × Signal)
  | .merge => result.merges
  | .pairMerge => result.adjunctions

lemma mem_newEdges {result : StepResult} {kind : MergeKind} {s t : Signal} :
    (s, t) ∈ result.newEdges kind ↔ Licence.of kind s t ∈ result.edges := by
  -- The two kinds differ only in the constructor that is kept.
  cases kind
  all_goals
    simp only [newEdges, merges, adjunctions, List.mem_filterMap]
    constructor
    · rintro ⟨licence, hmem, heq⟩
      cases licence <;> cases heq
      exact hmem
    · exact fun hmem => ⟨_, hmem, rfl⟩

end StepResult

namespace Session

/-- The session has activated all word parts that it has read, in a graph of written entries. -/
structure Spelled (entries : List Entry) (session : Session) : Prop where
  graph_eq : session.graph = .ofEntries entries
  licensing_eq : session.licensing = .after session.graph session.reading.wordParts.toList

section Spelled

variable {entries : List Entry} {session : Session}

lemma Spelled.stepTracing (h : session.Spelled entries) (stage : Stage session) (tracing : Bool) :
    (session.stepTracing tracing).2.Spelled entries := by
  cases hread : session.read.1 with
  | none =>
    obtain ⟨hparts, -⟩ := read_none stage.coherent.ordered hread
    rw [stepTracing_none hread]
    refine ⟨h.graph_eq, ?_⟩
    change session.licensing = .after session.graph session.read.2.wordParts.toList
    rw [hparts]
    exact h.licensing_eq
  | some part =>
    obtain ⟨hparts, -⟩ := read_some stage.coherent.ordered hread
    obtain ⟨result, -, hstep⟩ := stepTracing_some hread tracing
    rw [hstep]
    refine ⟨h.graph_eq, ?_⟩
    change (session.licensing.activate session.graph part).1 =
      .after session.graph session.read.2.wordParts.toList
    rw [hparts, Array.toList_push, Licensing.after, Licensing.activateAll_concat, h.licensing_eq]
    rfl

/-- Which licences the next word part gets depends on the features of the parts alone. -/
lemma Spelled.mem_licences_iff (h : session.Spelled entries) (written : Written entries)
    (stage : Stage session) {part : WordPart} (hread : session.read.1 = some part)
    {kind : MergeKind} {s t : Signal} :
    Licence.of kind s t ∈ session.licences part ↔ ∃ other ∈ session.reading.wordParts,
      (s = part.signal ∧ t = other.signal ∧
        Part.Licenses kind (session.graph.entry part.entry).part
          (session.graph.entry other.entry).part) ∨
      (s = other.signal ∧ t = part.signal ∧
        Part.Licenses kind (session.graph.entry other.entry).part
          (session.graph.entry part.entry).part) := by
  obtain ⟨hparts, -, ordered⟩ := read_some stage.coherent.ordered hread
  have distinct := ordered.nodup_signals
  rw [hparts, Array.toList_push] at distinct
  have given_iff := @Licensing.exists_given_iff entries _ part written distinct kind s t
  rw [← h.graph_eq, Licensing.given, ← h.licensing_eq] at given_iff
  simp only [Array.mem_toList_iff] at given_iff
  rw [← given_iff, licences, List.mem_map]
  constructor
  · rintro ⟨⟨id, licence⟩, hmem, rfl⟩
    exact ⟨id, hmem⟩
  · rintro ⟨id, hmem⟩
    exact ⟨_, hmem, rfl⟩

end Spelled

/-- Two sessions have read the same words of their graphs and have the same edges. -/
structure Mirrors (entries others : List Entry) (s t : Session) : Prop where
  spelled : s.Spelled entries
  spelled' : t.Spelled others
  options_eq : t.options = s.options
  reading : s.reading.Twins s.graph t.graph t.reading
  edges : s.search.EdgesMatch t.search

lemma Coherent.licence_ranges {session : Session} (h : session.Coherent) {part : WordPart}
    (hread : session.read.1 = some part) : ∀ licence ∈ session.licences part,
      licence.Ranges session.search.openPart.parts.size := by
  intro licence hlicence
  rw [(SearchState.openPart_coherent h.tables part).size_parts]
  exact (h.licence_sound hread licence hlicence).ranges

/-- Two steps have failed alike or have read the same part of the same word and added the same
edges. -/
inductive StepsMirror (graph other : Graph) : Except SessionError StepResult →
    Except SessionError StepResult → Prop where
  | failed (cause : SessionError) : StepsMirror graph other (.error cause) (.error cause)
  | passed {result result' : StepResult} (part : result.part.Twins graph other result'.part)
    (mem_edges_iff : ∀ licence, licence ∈ result'.edges ↔ licence ∈ result.edges) :
    StepsMirror graph other (.ok result) (.ok result')

namespace Mirrors

variable {entries others : List Entry} {s t : Session}

lemma symm (h : s.Mirrors entries others t) : t.Mirrors others entries s :=
  ⟨h.spelled', h.spelled, h.options_eq.symm, h.reading.symm, h.edges.symm⟩

lemma mem_licences (h : s.Mirrors entries others t) (written : Written entries)
    (written' : Written others) (stage : Stage s) (stage' : Stage t) {part part' : WordPart}
    (twins : part.Twins s.graph t.graph part') (hread : s.read.1 = some part)
    (hread' : t.read.1 = some part') {licence : Licence} (hlicence : licence ∈ s.licences part) :
    licence ∈ t.licences part' := by
  rw [← Licence.of_kind licence] at hlicence ⊢
  obtain ⟨other, hother, licensed⟩ :=
    (h.spelled.mem_licences_iff written stage hread).1 hlicence
  obtain ⟨other', hother', twins'⟩ := h.reading.exists_mem hother
  refine (h.spelled'.mem_licences_iff written' stage' hread').2 ⟨other', hother', ?_⟩
  rwa [twins.signal_eq, twins'.signal_eq, twins.entry.part_eq, twins'.entry.part_eq]

/-- Both sessions read the same part of the same word, or none. -/
lemma reads (h : s.Mirrors entries others t) :
    (s.read.1 = none ∧ t.read.1 = none ∨ ∃ part part', s.read.1 = some part ∧
      t.read.1 = some part' ∧ part.Twins s.graph t.graph part') ∧
      s.read.2.Twins s.graph t.graph t.read.2 := by
  obtain ⟨parts, reading⟩ := h.reading.advance
  rw [← read_eq_advance, ← read_eq_advance] at parts reading
  refine ⟨?_, reading⟩
  generalize s.read.1 = part? at parts ⊢
  generalize t.read.1 = part?' at parts ⊢
  cases parts with
  | none => exact Or.inl ⟨rfl, rfl⟩
  | some twins => exact Or.inr ⟨_, _, rfl, rfl, twins⟩

section Read

variable (h : s.Mirrors entries others t) (written : Written entries) (written' : Written others)
  (stage : Stage s) (stage' : Stage t) {part part' : WordPart}
  (twins : part.Twins s.graph t.graph part') (hread : s.read.1 = some part)
  (hread' : t.read.1 = some part')
include h written written' stage stage' twins hread hread'

lemma mem_licences_iff (licence : Licence) :
    licence ∈ t.licences part' ↔ licence ∈ s.licences part :=
  ⟨h.symm.mem_licences written' written stage' stage twins.symm hread' hread,
    h.mem_licences written written' stage stage' twins hread hread'⟩

/-- The same part of the same word that is read in both sessions brings the same edges. -/
lemma stepTracing_some (tracing : Bool) :
    StepsMirror s.graph t.graph (s.stepTracing tracing).1 (t.stepTracing tracing).1 ∧
      (s.stepTracing tracing).2.search.EdgesMatch (t.stepTracing tracing).2.search := by
  obtain ⟨result, reports, hstep⟩ := Session.stepTracing_some hread tracing
  obtain ⟨result', reports', hstep'⟩ := Session.stepTracing_some hread' tracing
  have mem_iff := h.mem_licences_iff written written' stage stage' twins hread hread'
  have ranges := stage.coherent.licence_ranges hread
  have opened := h.edges.openPart
  have joined := opened.joinAll ranges mem_iff
  have moved := (searched_moves stage.coherent hread tracing).extends.sameEdges
  have moved' := (searched_moves stage'.coherent hread' tracing).extends.sameEdges
  rw [hstep, hstep']
  refine ⟨.passed ?_ fun licence => ?_, ?_⟩
  · rw [reports.part_eq, reports'.part_eq]
    exact twins
  · rw [reports.edges_eq, reports'.edges_eq]
    exact opened.mem_joinAll_iff ranges mem_iff licence
  · rw [search_entered, search_entered]
    exact (SearchState.EdgesMatch.of_same moved).symm.trans (joined.trans (.of_same moved'))

end Read

/-- A step does the same in both sessions. -/
theorem stepTracing (h : s.Mirrors entries others t) (written : Written entries)
    (written' : Written others) (stage : Stage s) (stage' : Stage t) (tracing : Bool) :
    StepsMirror s.graph t.graph (s.stepTracing tracing).1 (t.stepTracing tracing).1 ∧
      (s.stepTracing tracing).2.Mirrors entries others (t.stepTracing tracing).2 := by
  obtain ⟨parts, reading⟩ := h.reads
  have told : StepsMirror s.graph t.graph (s.stepTracing tracing).1 (t.stepTracing tracing).1 ∧
      (s.stepTracing tracing).2.search.EdgesMatch (t.stepTracing tracing).2.search := by
    rcases parts with ⟨hread, hread'⟩ | ⟨part, part', hread, hread', twins⟩
    · rw [stepTracing_none hread, stepTracing_none hread']
      exact ⟨.failed _, h.edges⟩
    · exact h.stepTracing_some written written' stage stage' twins hread hread' tracing
  refine ⟨told.1, h.spelled.stepTracing stage tracing, h.spelled'.stepTracing stage' tracing, ?_, ?_,
    told.2⟩
  · rw [options_stepTracing, options_stepTracing, h.options_eq]
  · rw [graph_stepTracing, graph_stepTracing, reading_stepTracing, reading_stepTracing]
    exact reading

theorem stepped (h : s.Mirrors entries others t) (written : Written entries)
    (written' : Written others) (reachable : Reachable s) (reachable' : Reachable t) (n : Nat) :
    (s.stepped n).Mirrors entries others (t.stepped n) := by
  induction n with
  | zero => exact h
  | succ n ih =>
    exact (ih.stepTracing written written' (reachable.stepped n).stage (reachable'.stepped n).stage
      false).2

end Mirrors

end Session

end MergeGrammar
