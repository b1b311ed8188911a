import MergeGrammar.Proofs.LimitAccounts
import MergeGrammar.Proofs.MirroredSteps
import MergeGrammar.Proofs.SearchTermination

/-!
# Edge tables

An edge is written at both of its ends, but whether it is there already is asked only at one of them,
and whether a licence has been granted already is asked of another table altogether. The three agree:
an edge is listed once at either end if its licence has been granted, and not at all otherwise. So
every licence that a step is given becomes a new edge of that step.
-/

namespace MergeGrammar

namespace Licensing

variable {graph : Graph} {state : Licensing}

lemma not_granted_reset (state : Licensing) (licence : Licence) : ¬ state.reset.Granted licence := by
  cases licence <;> exact List.not_mem_nil

/-- The licences given at a signal have not been granted before and are given once. Each of them is
for the word part at this signal and another one. -/
structure Gives (state : Licensing) (signal : Signal) (licences : List Licence) (next : Licensing) :
    Prop where
  granted_iff : ∀ licence, next.Granted licence ↔ state.Granted licence ∨ licence ∈ licences
  fresh : ∀ licence ∈ licences, ¬ state.Granted licence
  nodup : licences.Nodup
  apart : ∀ licence ∈ licences, licence.upper ≠ licence.lower
  current : ∀ licence ∈ licences, licence.upper = signal ∨ licence.lower = signal

lemma activate_gives (passed : state.PassedOn graph) (part : WordPart) :
    state.Gives part.signal ((state.activate graph part).2.map Prod.snd)
      (state.activate graph part).1 := by
  rcases activate_cases passed part with ⟨-, heq⟩ | ⟨-, reached, activates⟩
  · rw [heq]
    exact ⟨by simp, by simp, List.nodup_nil, by simp, by simp⟩
  · have met : ∀ licence ∈ (state.activate graph part).2.map Prod.snd, ¬ state.Granted licence ∧
        licence.upper ≠ licence.lower ∧
        (licence.upper = part.signal ∨ licence.lower = part.signal) := by
      intro licence hlicence
      obtain ⟨given, hgiven, rfl⟩ := List.mem_map.1 hlicence
      obtain ⟨hnew, met, hmet, -, hlicence⟩ := activates.accepts.from_meeting given hgiven
      obtain ⟨-, hupper, hlower⟩ := Meeting.licence?_eq_some.1 hlicence
      obtain ⟨hne, side⟩ := activates.spread.met_sound met hmet
      rw [activates.granted_iff] at hnew
      rw [hupper, hlower]
      exact ⟨hnew, hne, side.imp And.left And.left⟩
    refine ⟨fun licence => ?_, fun licence hlicence => (met licence hlicence).1,
      activates.accepts.nodup, fun licence hlicence => (met licence hlicence).2.1,
      fun licence hlicence => (met licence hlicence).2.2⟩
    rw [activates.accepts.granted_iff, activates.granted_iff]

end Licensing

namespace SearchState

variable {read : Array WordPart} {state : SearchState} {licences : List Licence} {licence : Licence}

/-! ### Edges and licences -/

/-- The edge of a licence is there. -/
def HasEdge (state : SearchState) (licence : Licence) : Prop :=
  (licence.upper, licence.lower) ∈ state.edges (·.below licence.kind)

lemma hasEdge_iff : state.HasEdge licence ↔ 0 < licence.upper ∧
    licence.lower ∈ (state.part licence.upper).below licence.kind := by
  rw [HasEdge, mem_edges]
  exact and_congr_right fun hpos => and_iff_right_of_imp (le_size_of_mem_below hpos)

lemma not_hasEdge_start (licence : Licence) : ¬ SearchState.start.HasEdge licence :=
  List.not_mem_nil

lemma hasEdge_openPart : state.openPart.HasEdge licence ↔ state.HasEdge licence := by
  rw [hasEdge_iff, hasEdge_iff, part_openPart]

lemma Extends.hasEdge_iff {next : SearchState} (h : state.Extends next) :
    next.HasEdge licence ↔ state.HasEdge licence := h.mem_edges

lemma hasEdge_joinAll (ranges : ∀ licence ∈ licences, licence.Ranges state.parts.size) :
    (state.joinAll licences).1.HasEdge licence ↔
      state.HasEdge licence ∨ licence.upper ≠ licence.lower ∧ licence ∈ licences := by
  rw [hasEdge_iff, hasEdge_iff]
  constructor
  · rintro ⟨hpos, hmem⟩
    rw [mem_below_joinAll ranges hpos, Licence.of_kind] at hmem
    exact hmem.imp_left fun hold => ⟨hpos, hold⟩
  · rintro (⟨hpos, hold⟩ | ⟨hne, hmem⟩)
    · exact ⟨hpos, (mem_below_joinAll ranges hpos).2 (Or.inl hold)⟩
    · have hpos := (ranges licence hmem).1.1
      refine ⟨hpos, (mem_below_joinAll ranges hpos).2 (Or.inr ⟨hne, ?_⟩)⟩
      rwa [Licence.of_kind]

lemma joinAll_sublist (state : SearchState) (licences : List Licence) :
    (state.joinAll licences).2.Sublist licences := by
  induction licences generalizing state with
  | nil => exact List.Sublist.slnil
  | cons licence licences ih =>
    rw [joinAll_cons]
    split
    · exact (ih state).cons licence
    · exact (ih _).cons_cons licence

/-- Licences of which none is an edge yet and none joins a word part to itself are all taken up. -/
lemma joinAll_eq_of_fresh (ranges : ∀ licence ∈ licences, licence.Ranges state.parts.size)
    (nodup : licences.Nodup) (apart : ∀ licence ∈ licences, licence.upper ≠ licence.lower)
    (fresh : ∀ licence ∈ licences, ¬ state.HasEdge licence) :
    (state.joinAll licences).2 = licences := by
  have subset : licences ⊆ (state.joinAll licences).2 := by
    intro licence hlicence
    refine (mem_joinAll ranges).2 ⟨hlicence, apart licence hlicence, fun hmem => ?_⟩
    exact fresh licence hlicence (hasEdge_iff.2 ⟨(ranges licence hlicence).1.1, hmem⟩)
  have sublist := state.joinAll_sublist licences
  exact sublist.eq_of_length
    (le_antisymm sublist.length_le (List.Nodup.length_le_of_subset nodup subset))

/-! ### No edge twice -/

/-- No edge is listed twice at either of its ends, and none joins a word part to itself. -/
structure Simple (state : SearchState) : Prop where
  below_nodup : ∀ kind s, ((state.part s).below kind).Nodup
  above_nodup : ∀ kind s, ((state.part s).above kind).Nodup
  loopless : ∀ kind s, 0 < s → s ∉ (state.part s).below kind

/-- What each new edge preserves holds after the joining of several licences. -/
lemma joinAll_preserves_new {P : SearchState → Prop}
    (step : ∀ {s : SearchState}, ∀ licence ∈ licences, licence.upper ≠ licence.lower →
      licence.lower ∉ (s.part licence.upper).below licence.kind → P s → P (s.joined licence))
    (start : P state) : P (state.joinAll licences).1 := by
  induction licences generalizing state with
  | nil => exact start
  | cons licence licences ih =>
    have rest : ∀ {s : SearchState}, ∀ l ∈ licences, l.upper ≠ l.lower →
        l.lower ∉ (s.part l.upper).below l.kind → P s → P (s.joined l) :=
      fun l hl => step l (List.mem_cons_of_mem _ hl)
    rw [joinAll_cons]
    split
    · exact ih rest start
    · next hnew =>
      obtain ⟨hne, hnot⟩ := not_or.1 hnew
      exact ih rest (step licence List.mem_cons_self hne hnot start)

namespace Simple

lemma start : SearchState.start.Simple where
  below_nodup kind s := by
    rw [part_eq]
    cases kind <;> exact List.nodup_nil
  above_nodup kind s := by
    rw [part_eq]
    cases kind <;> exact List.nodup_nil
  loopless kind s _ := by
    rw [part_eq]
    cases kind <;> exact List.not_mem_nil

lemma of_same {next : SearchState} (h : state.Simple) (same : state.SameEdges next) :
    next.Simple where
  below_nodup kind s := same.below_eq kind s ▸ h.below_nodup kind s
  above_nodup kind s := same.above_eq kind s ▸ h.above_nodup kind s
  loopless kind s hs := same.below_eq kind s ▸ h.loopless kind s hs

lemma openPart (h : state.Simple) : state.openPart.Simple where
  below_nodup kind s := by
    rw [part_openPart]
    exact h.below_nodup kind s
  above_nodup kind s := by
    rw [part_openPart]
    exact h.above_nodup kind s
  loopless kind s hs := by
    rw [part_openPart]
    exact h.loopless kind s hs

section Joined

variable (h : state.Simple) (coherent : state.Coherent read)
  (ranges : licence.Ranges state.parts.size) (apart : licence.upper ≠ licence.lower)
  (fresh : licence.lower ∉ (state.part licence.upper).below licence.kind)
include h coherent ranges apart fresh

/-- An edge that is missing at its upper end is missing at its lower end as well. -/
lemma joined : (state.joined licence).Simple where
  below_nodup kind s := by
    rw [below_joined]
    split
    · next hnew =>
      obtain ⟨⟨hs, -⟩, rfl⟩ := hnew
      rw [part_eq, ← hs, ← part_eq]
      exact (h.below_nodup _ _).append (List.nodup_singleton _)
        (List.disjoint_singleton.2 fresh)
    · rw [List.append_nil]
      exact h.below_nodup kind s
  above_nodup kind s := by
    have missing : licence.upper ∉ (state.part licence.lower).above licence.kind := fun hmem =>
      fresh ((coherent.mirrored _ _ _ ranges.1.1 ranges.2.1).2 hmem)
    rw [above_joined]
    split
    · next hnew =>
      obtain ⟨⟨hs, -⟩, rfl⟩ := hnew
      rw [part_eq, ← hs, ← part_eq]
      exact (h.above_nodup _ _).append (List.nodup_singleton _)
        (List.disjoint_singleton.2 missing)
    · rw [List.append_nil]
      exact h.above_nodup kind s
  loopless kind s hs hmem := by
    rcases (mem_below_joined ranges hs).1 hmem with hold | ⟨hupper, -, hlower⟩
    · exact h.loopless kind s hs hold
    · exact apart (hupper.symm.trans hlower)

end Joined

lemma joinAll (h : state.Simple) (coherent : state.Coherent read)
    (ranges : ∀ licence ∈ licences, licence.Ranges read.size) :
    (state.joinAll licences).1.Simple := by
  have both : (state.joinAll licences).1.Coherent read ∧ (state.joinAll licences).1.Simple :=
    joinAll_preserves_new (P := fun s => s.Coherent read ∧ s.Simple)
      (fun licence hlicence apart fresh ⟨coherent, simple⟩ => by
        have hranges := ranges licence hlicence
        rw [← coherent.size_parts] at hranges
        exact ⟨joined_coherent hranges coherent, simple.joined coherent hranges apart fresh⟩)
      ⟨coherent, h⟩
  exact both.2

lemma nodup_edges (h : state.Simple) (kind : MergeKind) : (state.edges (·.below kind)).Nodup := by
  rw [edges_eq, List.nodup_flatMap]
  refine ⟨fun s _ => (h.below_nodup kind s).map (Prod.mk_right_injective s), ?_⟩
  refine List.Pairwise.imp (fun hne edge hedge hedge' => ?_) List.nodup_range'
  obtain ⟨_, -, rfl⟩ := List.mem_map.1 hedge
  obtain ⟨_, -, heq⟩ := List.mem_map.1 hedge'
  exact hne (congrArg Prod.fst heq).symm

end Simple

end SearchState

namespace Session

variable {session next : Session} {told : List StepResult}

lemma Stage.simple (h : Stage session) : session.search.Simple := by
  induction h with
  | start started =>
    obtain ⟨entries, -, rfl⟩ := start_eq_ok started
    exact .start
  | reset => exact .start
  | exhaust _ _ ih => exact ih
  | @enter session part stage hread ih =>
    have coherent := SearchState.openPart_coherent stage.coherent.tables part
    exact ih.openPart.joinAll coherent fun licence hlicence =>
      (stage.coherent.licence_sound hread licence hlicence).ranges
  | move _ move ih => exact ih.of_same move.extends.sameEdges
  | record _ _ ih => exact ih

/-- The edges are those whose licences have been granted. -/
lemma Stage.granted_iff (h : Stage session) (licence : Licence) :
    session.licensing.Granted licence ↔ session.search.HasEdge licence := by
  induction h with
  | start started =>
    obtain ⟨entries, -, rfl⟩ := start_eq_ok started
    exact iff_of_false (Licensing.not_granted_start licence)
      (SearchState.not_hasEdge_start licence)
  | reset =>
    exact iff_of_false (Licensing.not_granted_reset _ licence)
      (SearchState.not_hasEdge_start licence)
  | exhaust _ _ ih => exact ih
  | @enter session part stage hread ih =>
    have gives := Licensing.activate_gives stage.coherent.licensing.passed part
    change (session.licensing.activate session.graph part).1.Granted licence ↔
      (session.search.openPart.joinAll (session.licences part)).1.HasEdge licence
    rw [gives.granted_iff, SearchState.hasEdge_joinAll (stage.coherent.licence_ranges hread),
      SearchState.hasEdge_openPart, ih]
    exact or_congr_right (and_iff_right_of_imp (gives.apart licence)).symm
  | move _ move ih => exact ih.trans move.extends.hasEdge_iff.symm
  | record _ _ ih => exact ih

/-! ### The edges of a step -/

lemma mem_edges_iff {kind : MergeKind} {s t : Signal} :
    (s, t) ∈ session.edges kind ↔ session.search.HasEdge (.of kind s t) := by
  cases kind <;> rfl

lemma Stage.nodup_edges (h : Stage session) (kind : MergeKind) : (session.edges kind).Nodup := by
  have nodup := h.simple.nodup_edges kind
  cases kind <;> exact nodup

/-- A step turns each of its licences into one new edge of the word part that it activates. -/
structure Connects (session : Session) (result : StepResult) (next : Session) : Prop where
  edges_eq : result.edges =
    (session.licensing.activate session.graph result.part).2.map Prod.snd
  edges_nodup : result.edges.Nodup
  perm : ∀ kind, (next.edges kind).Perm (session.edges kind ++ result.newEdges kind)
  latest : ∀ licence ∈ result.edges, max licence.upper licence.lower = result.part.signal

lemma nodup_newEdges {result : StepResult} (nodup : result.edges.Nodup) (kind : MergeKind) :
    (result.newEdges kind).Nodup := by
  cases kind
  all_goals
    refine nodup.filterMap fun licence other edge hedge hedge' => ?_
    cases licence <;> cases other <;> cases hedge <;> cases hedge'
    rfl

section Given

variable (stage : Stage session) {part : WordPart} (hread : session.read.1 = some part)
include stage hread

/-- None of the licences is an edge yet, so all of them are new. -/
lemma Reports.edges_eq_licences {tracing : Bool} {result : StepResult}
    (reports : session.Reports tracing part result) : result.edges = session.licences part := by
  have gives := Licensing.activate_gives stage.coherent.licensing.passed part
  rw [reports.edges_eq]
  refine SearchState.joinAll_eq_of_fresh (stage.coherent.licence_ranges hread) gives.nodup
    gives.apart fun licence hlicence hedge => gives.fresh licence hlicence ?_
  rwa [stage.granted_iff, ← SearchState.hasEdge_openPart]

/-- One end of a licence is the word part that is read, the other one has been read before. -/
lemma max_eq_of_licence {licence : Licence} (hlicence : licence ∈ session.licences part) :
    max licence.upper licence.lower = part.signal := by
  obtain ⟨-, hsignal, -⟩ := read_some stage.coherent.ordered hread
  have gives := Licensing.activate_gives stage.coherent.licensing.passed part
  obtain ⟨⟨-, hupper⟩, -, hlower⟩ := (stage.coherent.licence_sound hread licence hlicence).ranges
  rw [Array.size_push, ← hsignal] at hupper hlower
  rcases gives.current licence hlicence with heq | heq
  · rw [heq, Nat.max_eq_left hlower]
  · rw [heq, Nat.max_eq_right hupper]

end Given

lemma Reachable.connects (reachable : Reachable session) {tracing : Bool} {result : StepResult}
    (step : session.stepTracing tracing = (.ok result, next)) : session.Connects result next := by
  have stage := reachable.stage
  have stage' : Stage next := by
    have reached := (reachable.step tracing).stage
    rwa [step] at reached
  obtain ⟨part, hread, reports, rfl⟩ := stepTracing_ok step
  have gives := Licensing.activate_gives stage.coherent.licensing.passed part
  have edges_eq := reports.edges_eq_licences stage hread
  have edges_nodup : result.edges.Nodup := edges_eq ▸ gives.nodup
  have fresh : ∀ kind, (session.edges kind).Disjoint (result.newEdges kind) := by
    rintro kind ⟨s, t⟩ hold hnew
    rw [StepResult.mem_newEdges, edges_eq] at hnew
    rw [mem_edges_iff, ← stage.granted_iff] at hold
    exact gives.fresh _ hnew hold
  refine ⟨?_, edges_nodup, fun kind => ?_, fun licence hlicence => ?_⟩
  · rw [edges_eq, reports.part_eq]
    rfl
  · refine (List.perm_ext_iff_of_nodup (stage'.nodup_edges kind)
      ((stage.nodup_edges kind).append (nodup_newEdges edges_nodup kind) (fresh kind))).2 ?_
    rintro ⟨s, t⟩
    rw [List.mem_append, mem_edges_iff, mem_edges_iff, ← stage'.granted_iff, ← stage.granted_iff,
      StepResult.mem_newEdges, edges_eq]
    exact gives.granted_iff _
  · rw [reports.part_eq]
    exact max_eq_of_licence stage hread (edges_eq ▸ hlicence)

/-! ### The edges of a session -/

/-- The word parts that a head selects or a host takes, in the order in which they are listed. A signal
that has not been read has none. -/
def below (session : Session) (kind : MergeKind) (signal : Signal) : List Signal :=
  (session.search.part? signal).elim [] (·.below kind)

/-- The heads that select an argument or the hosts that take an adjunct. -/
def above (session : Session) (kind : MergeKind) (signal : Signal) : List Signal :=
  (session.search.part? signal).elim [] (·.above kind)

lemma below_eq (session : Session) (kind : MergeKind) (signal : Signal) :
    session.below kind signal = if signal = 0 then [] else (session.search.part signal).below kind := by
  rw [below, SearchState.part?]
  split
  · rfl
  · rw [SearchState.part_eq]
    cases session.search.parts[signal - 1]? <;> cases kind <;> rfl

lemma above_eq (session : Session) (kind : MergeKind) (signal : Signal) :
    session.above kind signal = if signal = 0 then [] else (session.search.part signal).above kind := by
  rw [above, SearchState.part?]
  split
  · rfl
  · rw [SearchState.part_eq]
    cases session.search.parts[signal - 1]? <;> cases kind <;> rfl

/-- Both ends of every edge list it once, no word part is joined to itself, and the steps since the
sentence was started over have told every edge once, each at the later one of its ends. -/
structure Linked (session : Session) (told : List StepResult) : Prop where
  mirrored : ∀ kind s t, t ∈ session.below kind s ↔ s ∈ session.above kind t
  below_nodup : ∀ kind s, (session.below kind s).Nodup
  above_nodup : ∀ kind s, (session.above kind s).Nodup
  loopless : ∀ kind s, s ∉ session.below kind s
  told_parts : told.map StepResult.part = session.reading.wordParts.toList
  told_nodup : ∀ kind, (told.flatMap (·.newEdges kind)).Nodup
  told_perm : ∀ kind, (told.flatMap (·.newEdges kind)).Perm (session.edges kind)
  told_latest : ∀ result ∈ told, ∀ kind s t, (s, t) ∈ result.newEdges kind →
    max s t = result.part.signal

lemma Told.edges_perm (h : Told session told) (kind : MergeKind) :
    (told.flatMap (·.newEdges kind)).Perm (session.edges kind) := by
  induction h with
  | start started =>
    obtain ⟨entries, -, rfl⟩ := start_eq_ok started
    cases kind <;> exact List.Perm.refl []
  | step earlier step ih =>
    have connects := earlier.reachable.connects step
    rw [List.flatMap_append, List.flatMap_singleton]
    exact (ih.append_right _).trans (connects.perm kind).symm
  | fail _ step ih =>
    obtain ⟨-, rfl⟩ := stepTracing_error step
    exact ih
  | reset => cases kind <;> exact List.Perm.refl []

lemma Told.latest (h : Told session told) : ∀ result ∈ told, ∀ kind s t,
    (s, t) ∈ result.newEdges kind → max s t = result.part.signal := by
  induction h with
  | start => exact fun _ hresult => absurd hresult List.not_mem_nil
  | step earlier step ih =>
    intro result hresult kind s t hedge
    rcases List.mem_append.1 hresult with hresult | hresult
    · exact ih result hresult kind s t hedge
    · rw [List.mem_singleton] at hresult
      subst hresult
      have latest := (earlier.reachable.connects step).latest _ (StepResult.mem_newEdges.1 hedge)
      rwa [Licence.upper_of, Licence.lower_of] at latest
  | fail _ _ ih => exact ih
  | reset => exact fun _ hresult => absurd hresult List.not_mem_nil

/-- The tables at the two ends of an edge agree. A signal that has not been read is in none of them. -/
lemma Stage.mem_below_iff (h : Stage session) (kind : MergeKind) (s t : Signal) :
    t ∈ session.below kind s ↔ s ∈ session.above kind t := by
  have coherent := h.coherent.tables
  rw [below_eq, above_eq]
  by_cases hs : s = 0 <;> by_cases ht : t = 0
  · simp [hs, ht]
  · rw [if_pos hs, if_neg ht]
    refine iff_of_false List.not_mem_nil fun hmem => ?_
    exact (coherent.above_pos kind s t (Nat.pos_of_ne_zero ht) hmem).ne' hs
  · rw [if_neg hs, if_pos ht]
    refine iff_of_false (fun hmem => ?_) List.not_mem_nil
    exact (coherent.below_pos kind s t (Nat.pos_of_ne_zero hs) hmem).ne' ht
  · rw [if_neg hs, if_neg ht]
    exact coherent.mirrored kind s t (Nat.pos_of_ne_zero hs) (Nat.pos_of_ne_zero ht)

lemma Told.linked (h : Told session told) : session.Linked told := by
  have stage := h.reachable.stage
  have simple := stage.simple
  refine ⟨stage.mem_below_iff, fun kind s => ?_, fun kind s => ?_, fun kind s => ?_, h.parts_eq,
    fun kind => (h.edges_perm kind).nodup_iff.2 (stage.nodup_edges kind), h.edges_perm, h.latest⟩
  · rw [below_eq]
    split
    · exact List.nodup_nil
    · exact simple.below_nodup kind s
  · rw [above_eq]
    split
    · exact List.nodup_nil
    · exact simple.above_nodup kind s
  · rw [below_eq]
    split
    · exact List.not_mem_nil
    · next hs => exact simple.loopless kind s (Nat.pos_of_ne_zero hs)

/-- In every session the tables at the two ends of the edges agree and list each edge once, the steps
since the sentence was started over have told each edge once and at its later end, and the licences
that a step is given are its new edges. -/
theorem edges_linked (reachable : Reachable session) :
    (∃ told, Told session told) ∧ (∀ told, Told session told → session.Linked told) ∧
      ∀ tracing result next, session.stepTracing tracing = (.ok result, next) →
        session.Connects result next :=
  ⟨reachable.exists_told, fun _ earlier => earlier.linked, fun _ _ _ step =>
    reachable.connects step⟩

/-- The adjunct of the sample is joined to its host when it is read, after the head and its
argument. -/
theorem sample_edges_linked : ∃ told, Told (sample.stepped 3) told ∧
    (told.flatMap (·.newEdges .merge)).Perm [(2, 1)] ∧
    (∃ result ∈ told, (2, 3) ∈ result.newEdges .pairMerge ∧ result.part.signal = 3) ∧
    2 ∈ (sample.stepped 3).above .pairMerge 3 := by
  obtain ⟨⟨told, earlier⟩, linked, -⟩ := edges_linked (sample_reachable 3)
  have tables := linked told earlier
  have merges : (sample.stepped 3).edges .merge = [(2, 1)] := by decide +kernel
  have adjunctions : (sample.stepped 3).edges .pairMerge = [(2, 3)] := by decide +kernel
  have hmem : (2, 3) ∈ told.flatMap (·.newEdges .pairMerge) := by
    rw [(tables.told_perm .pairMerge).mem_iff, adjunctions]
    exact List.mem_singleton_self _
  obtain ⟨result, hresult, hedge⟩ := List.mem_flatMap.1 hmem
  refine ⟨told, earlier, merges ▸ tables.told_perm .merge, ⟨result, hresult, hedge, ?_⟩, ?_⟩
  · exact (tables.told_latest result hresult .pairMerge 2 3 hedge).symm
  · exact (tables.mirrored .pairMerge 2 3).1 (by decide +kernel)

end Session

end MergeGrammar
