import MergeGrammar.Proofs.Resets
import MergeGrammar.Proofs.SentenceExpansion

/-!
# The end of a sentence

A step reads the next part of what the tokens expand to, and a run reads all parts that remain. A
step behind the end is refused: the session forgets which part is the current one, and everything
else stays as it was until the session is reset.
-/

namespace MergeGrammar

namespace Reading

variable {graph : Graph} {reading later : Reading} {tokens : List EntryId}

lemma exhaust_eq_self (h : reading.exhausted = true) :
    { reading with exhausted := true } = reading := by
  cases reading
  cases h
  rfl

/-- What goes on from a reading that has been reset goes on from one that has read nothing. -/
lemma Appends.of_reset {part : WordPart} (appends : Appends graph reading.reset part later)
    (hempty : reading.wordParts = #[]) : Appends graph reading part later := by
  have remaining_eq : reading.remaining graph = reading.reset.remaining graph := by
    rw [remaining, hempty]
    rfl
  have wordParts_eq : reading.wordParts = reading.reset.wordParts := hempty
  refine ⟨appends.tokens_eq, appends.patient, ?_, ?_, ?_⟩
  · rw [wordParts_eq]
    exact appends.wordParts_eq
  · rw [wordParts_eq]
    exact appends.signal_eq
  · rw [remaining_eq]
    exact appends.remaining_eq

namespace Tracks

variable (h : reading.Tracks graph tokens)
include h

/-- The parts that were read and those that remain are as many as the sentence has. -/
lemma size_add_remaining :
    reading.wordParts.size + (reading.remaining graph).length = reading.signalCount graph := by
  obtain ⟨read, hread, hsplit⟩ := h.split
  have hsize : reading.wordParts.size = read.length := by
    rw [← Array.length_toList, hread, length_numbered]
  rw [Reading.signalCount_eq, h.tokens_eq, ← length_occurrences 1, ← hsplit, List.length_append,
    hsize]

variable (chained : graph.Chained)
include chained

lemma advance : (reading.advance graph).2.Tracks graph tokens := by
  rw [Reading.advance]
  split
  · exact h.first chained
  · exact h.next chained

variable (counted : 0 < reading.signalCount graph)
include counted

lemma complete_iff_finished :
    reading.progress graph = .complete ↔ reading.remaining graph = [] := by
  have hsum := h.size_add_remaining
  rw [h.progress_eq chained]
  split_ifs with hempty hfinished
  · refine iff_of_false (fun heq => by cases heq) fun hfinished => ?_
    rw [← Array.length_toList, hempty, hfinished] at hsum
    exact absurd hsum counted.ne
  · exact iff_of_true rfl hfinished
  · exact iff_of_false (fun heq => by cases heq) hfinished

/-- Either nothing remains, or the next part is read. -/
lemma advance_cases :
    (reading.remaining graph = [] ∧
      reading.advance graph = (none, { reading with exhausted := true })) ∨
    ∃ part later, reading.advance graph = (some part, later) ∧
      Appends graph reading part later := by
  rw [Reading.advance]
  by_cases hempty : reading.wordParts = #[]
  · rw [if_pos (Array.isEmpty_iff.2 hempty)]
    rcases h.first_cases chained with ⟨rfl, -⟩ | ⟨part, hpart, appends⟩
    · rw [Reading.signalCount_eq, h.tokens_eq] at counted
      exact absurd counted (lt_irrefl 0)
    · exact Or.inr ⟨part, _, Prod.ext hpart rfl, appends.of_reset hempty⟩
  · rw [if_neg (mt Array.isEmpty_iff.1 hempty)]
    have continues := h.continues chained
    generalize reading.next graph = result at continues ⊢
    cases continues with
    | still unset =>
      -- Something has been read, so the current part is missing only behind the end.
      have exhausted : reading.exhausted = true := by
        by_contra patient
        rw [current?, if_neg patient] at unset
        exact hempty (Array.back?_eq_none_iff.1 unset)
      exact Or.inl ⟨(h.used_up exhausted).1, by rw [exhaust_eq_self exhausted]⟩
    | stop _ finished => exact Or.inl ⟨finished, rfl⟩
    | read _ appends => exact Or.inr ⟨_, _, rfl, appends⟩

end Tracks

end Reading

namespace Session

variable {session next : Session}

/-- The sentence of a session has a word part, and its reading goes through the expansion. -/
structure Tracking (session : Session) : Prop where
  chained : session.graph.Chained
  tracks : session.reading.Tracks session.graph session.reading.tokens
  counted : 0 < session.signalCount

/-- A session whose reading is the next one of another session. -/
lemma Tracking.read (h : session.Tracking) (graph_eq : next.graph = session.graph)
    (reading_eq : next.reading = session.read.2) : next.Tracking := by
  have tokens_eq : session.read.2.tokens = session.reading.tokens :=
    session.reading.tokens_advance session.graph
  refine ⟨graph_eq ▸ h.chained, ?_, ?_⟩
  · rw [graph_eq, reading_eq, tokens_eq]
    exact h.tracks.advance h.chained
  · have counted := h.counted
    rw [signalCount, Reading.signalCount_eq] at counted ⊢
    rw [graph_eq, reading_eq, tokens_eq]
    exact counted

lemma Stage.tracking (stage : Stage session) {entries : List Entry}
    (hgraph : session.graph = .ofEntries entries) : session.Tracking := by
  induction stage with
  | start started =>
    obtain ⟨found, hfound, rfl⟩ := start_eq_ok started
    obtain rfl := hgraph
    exact ⟨Graph.chained_ofEntries entries,
      Reading.tracks_start (lt_of_lookupAll hfound) (isFirstPart_of_lookupAll hfound),
      signalCount_pos started⟩
  | reset _ ih => exact ⟨(ih hgraph).chained, (ih hgraph).tracks.reset, (ih hgraph).counted⟩
  | exhaust _ _ ih => exact (ih hgraph).read rfl rfl
  | enter _ _ ih => exact (ih hgraph).read rfl rfl
  | move _ _ ih => exact ⟨(ih hgraph).chained, (ih hgraph).tracks, (ih hgraph).counted⟩
  | record _ _ ih => exact ⟨(ih hgraph).chained, (ih hgraph).tracks, (ih hgraph).counted⟩

/-- The session after a step that was refused. -/
def stalled (session : Session) : Session :=
  { session with reading := { session.reading with exhausted := true } }

namespace Tracking

variable (h : session.Tracking)
include h

lemma isComplete_iff :
    session.isComplete = true ↔ session.reading.remaining session.graph = [] := by
  rw [isComplete, beq_iff_eq, progress]
  exact h.tracks.complete_iff_finished h.chained h.counted

/-- When everything has been read nothing remains of the expansion. -/
lemma drop_consumed (complete : session.isComplete = true) :
    (Reading.expanded session.graph session.reading.tokens).drop session.consumed = [] := by
  have whole := h.tracks.wordParts_eq_iff.2 (h.isComplete_iff.1 complete)
  rw [← whole, consumed, List.drop_eq_nil_iff, Array.length_toList]

lemma stepTracing_of_complete (complete : session.isComplete = true) (tracing : Bool) :
    session.stepTracing tracing = (.error .exhausted, session.stalled) := by
  have finished := h.isComplete_iff.1 complete
  rcases h.tracks.advance_cases h.chained h.counted with ⟨-, hread⟩ | ⟨part, later, -, appends⟩
  · rw [← read_eq_advance] at hread
    rw [stepTracing_none (congrArg Prod.fst hread), hread, stalled]
  · have remaining_eq := appends.remaining_eq
    rw [finished] at remaining_eq
    cases remaining_eq

/-- A step before the end reads the next part. -/
lemma stepTracing_of_incomplete (incomplete : ¬session.isComplete = true) (tracing : Bool) :
    ∃ result next, session.stepTracing tracing = (.ok result, next) ∧
      next.graph = session.graph ∧ next.Tracking ∧
      Reading.Appends session.graph session.reading result.part next.reading := by
  rcases h.tracks.advance_cases h.chained h.counted with
    ⟨finished, -⟩ | ⟨part, later, hread, appends⟩
  · exact absurd (h.isComplete_iff.2 finished) incomplete
  · rw [← read_eq_advance] at hread
    obtain ⟨result, reports, hstep⟩ := stepTracing_some (congrArg Prod.fst hread) tracing
    have reading_eq : (session.entered tracing part result).reading = session.read.2 := rfl
    refine ⟨result, _, hstep, rfl, h.read rfl reading_eq, ?_⟩
    rw [reading_eq, hread, reports.part_eq]
    exact appends

/-- A run with enough steps reads the parts that remain, in order. -/
lemma runWithin (tracing : Bool) {fuel : Nat}
    (hfuel : (session.reading.remaining session.graph).length ≤ fuel) :
    ∃ results last, session.runWithin tracing fuel = (.ok results, last) ∧
      results.map StepResult.part =
        (Reading.expanded session.graph session.reading.tokens).drop session.consumed ∧
      last.isComplete = true := by
  induction fuel generalizing session with
  | zero =>
    have complete := h.isComplete_iff.2 (List.eq_nil_of_length_eq_zero (Nat.le_zero.1 hfuel))
    exact ⟨[], session, rfl, (h.drop_consumed complete).symm, complete⟩
  | succ fuel ih =>
    by_cases complete : session.isComplete = true
    · refine ⟨[], session, ?_, (h.drop_consumed complete).symm, complete⟩
      rw [Session.runWithin, if_pos complete]
    · obtain ⟨result, next, hstep, graph_eq, tracking, appends⟩ :=
        h.stepTracing_of_incomplete complete tracing
      have next_fuel : (next.reading.remaining next.graph).length ≤ fuel := by
        rw [appends.remaining_eq, List.length_cons] at hfuel
        rw [graph_eq]
        exact Nat.le_of_succ_le_succ hfuel
      have consumed_eq : next.consumed = session.consumed + 1 := by
        rw [consumed, appends.wordParts_eq, Array.size_push, consumed]
      obtain ⟨results, last, hrun, parts_eq, last_complete⟩ := ih tracking next_fuel
      refine ⟨result :: results, last, ?_, ?_, last_complete⟩
      · rw [Session.runWithin, if_neg complete, hstep]
        simp only [hrun]
        rfl
      · obtain ⟨hlt, hpart⟩ :=
          List.getElem?_eq_some_iff.1 (h.tracks.getElem?_of_appends appends)
        rw [graph_eq, appends.tokens_eq, consumed_eq] at parts_eq
        rw [List.map_cons, parts_eq, ← hpart]
        exact (List.drop_eq_getElem_cons hlt).symm

end Tracking

/-- What a session answers behind the end of its sentence. -/
def Operation.atEnd : Operation → Answer
  | .step _ => .stepped (.error .exhausted)
  | .run _ => .ran (.ok [])
  | .reset => .started

/-- A session that has been asked for a step behind the end. Only the current part is forgotten, and
until it is reset the session stays as it is, whatever it is asked for. -/
structure Stalls (session next : Session) : Prop where
  next_eq : next = { session with reading := { session.reading with exhausted := true } }
  unset : next.reading.current? = none
  complete : next.isComplete = true
  bestRoutes_eq : ∃ best, session.bestRoutes = .ok best ∧ next.bestRoutes = .ok best
  stays : ∀ operations : List Operation, (∀ operation ∈ operations, operation ≠ .reset) →
    operations.foldl perform next = next ∧
      next.answers operations = operations.map Operation.atEnd

namespace Tracking

variable (h : session.Tracking) (complete : session.isComplete = true)
include h complete

lemma perform_of_exhausted (exhausted : session.reading.exhausted = true) {operation : Operation}
    (hreset : operation ≠ .reset) :
    session.perform operation = session ∧ session.respond operation = operation.atEnd := by
  cases operation with
  | reset => exact absurd rfl hreset
  | step tracing =>
    have hstep := h.stepTracing_of_complete complete tracing
    rw [stalled, Reading.exhaust_eq_self exhausted] at hstep
    rw [perform, respond, hstep]
    exact ⟨rfl, rfl⟩
  | run tracing =>
    have hrun : session.runTracing tracing = (.ok [], session) := by
      rw [runTracing]
      cases session.signalCount with
      | zero => rfl
      | succ fuel => rw [Session.runWithin, if_pos complete]
    rw [perform, respond, hrun]
    exact ⟨rfl, rfl⟩

lemma operations_of_exhausted (exhausted : session.reading.exhausted = true)
    {operations : List Operation} (unreset : ∀ operation ∈ operations, operation ≠ .reset) :
    operations.foldl perform session = session ∧
      session.answers operations = operations.map Operation.atEnd := by
  induction operations with
  | nil => exact ⟨rfl, rfl⟩
  | cons operation operations ih =>
    obtain ⟨stays, answers_eq⟩ :=
      ih fun other hother => unreset other (List.mem_cons_of_mem _ hother)
    obtain ⟨perform_eq, respond_eq⟩ :=
      h.perform_of_exhausted complete exhausted (unreset operation List.mem_cons_self)
    rw [List.foldl_cons, answers, List.map_cons, perform_eq, respond_eq, answers_eq]
    exact ⟨stays, rfl⟩

lemma stalls : session.Stalls session.stalled := by
  have tracking : session.stalled.Tracking := by
    have step_eq := h.stepTracing_of_complete complete false
    obtain ⟨-, next_eq⟩ := stepTracing_error step_eq
    exact h.read rfl (congrArg Session.reading next_eq)
  have stalled_complete : session.stalled.isComplete = true :=
    tracking.isComplete_iff.2 (h.isComplete_iff.1 complete)
  exact ⟨rfl, rfl, stalled_complete, ⟨_, if_pos complete, if_pos stalled_complete⟩,
    fun operations unreset => tracking.operations_of_exhausted stalled_complete rfl unreset⟩

end Tracking

/-- A step fails exactly if the sentence has been read, and then the session is exhausted: nothing
changes but that there is no current part any more, the same derivations are ranked best, and
whatever is asked of the session until it is reset is refused or has nothing to do. A run succeeds
from everywhere: its steps read the parts that remain, in order, and the sentence has been read
then. -/
theorem step_past_end (reachable : Reachable session) {entries : List Entry}
    (hgraph : session.graph = .ofEntries entries) (tracing : Bool) :
    ((∃ cause next, session.stepTracing tracing = (.error cause, next)) ↔
      session.isComplete = true) ∧
    (∀ cause next, session.stepTracing tracing = (.error cause, next) →
      cause = .exhausted ∧ session.Stalls next) ∧
    ∃ results last, session.runTracing tracing = (.ok results, last) ∧
      results.length = session.signalCount - session.consumed ∧
      results.map StepResult.part =
        (Reading.expanded session.graph session.reading.tokens).drop session.consumed ∧
      last.isComplete = true := by
  have tracking := reachable.stage.tracking hgraph
  refine ⟨⟨?_, fun complete => ?_⟩, ?_, ?_⟩
  · rintro ⟨cause, next, failed⟩
    by_contra incomplete
    obtain ⟨result, after, hstep, -⟩ := tracking.stepTracing_of_incomplete incomplete tracing
    rw [hstep] at failed
    cases failed
  · exact ⟨_, _, tracking.stepTracing_of_complete complete tracing⟩
  · intro cause next failed
    by_cases complete : session.isComplete = true
    · rw [tracking.stepTracing_of_complete complete] at failed
      cases failed
      exact ⟨rfl, tracking.stalls complete⟩
    · obtain ⟨result, after, hstep, -⟩ := tracking.stepTracing_of_incomplete complete tracing
      rw [hstep] at failed
      cases failed
  · have hsum := tracking.tracks.size_add_remaining
    obtain ⟨results, last, hrun, parts_eq, complete⟩ :=
      tracking.runWithin tracing (Nat.le_of_add_left_le hsum.le)
    refine ⟨results, last, hrun, ?_, parts_eq, complete⟩
    rw [← List.length_map StepResult.part, parts_eq, List.length_drop, Reading.length_expanded,
      ← Reading.signalCount_eq]
    rfl

/-- Behind its last word the sample refuses a step and stalls. From its first word on a run reads
the two others. -/
theorem sample_step_past_end :
    (∃ cause next, (sample.stepped 3).stepTracing true = (.error cause, next) ∧
      cause = .exhausted ∧ (sample.stepped 3).Stalls next) ∧
    ∃ results last, (sample.stepped 1).runTracing true = (.ok results, last) ∧
      results.map StepResult.part = [⟨2, 1, 2⟩, ⟨3, 2, 3⟩] ∧ last.isComplete = true := by
  have hgraph : ∀ n, (sample.stepped n).graph = .ofEntries sampleEntries := fun n =>
    sample.graph_stepped n
  obtain ⟨fails_iff, refused, -⟩ := step_past_end (sample_reachable 3) (hgraph 3) true
  obtain ⟨-, -, results, last, hrun, -, parts_eq, complete⟩ :=
    step_past_end (sample_reachable 1) (hgraph 1) true
  constructor
  · obtain ⟨cause, next, failed⟩ := fails_iff.2 (by decide +kernel)
    exact ⟨cause, next, failed, refused cause next failed⟩
  · refine ⟨results, last, hrun, parts_eq.trans ?_, complete⟩
    decide +kernel

end Session

end MergeGrammar
