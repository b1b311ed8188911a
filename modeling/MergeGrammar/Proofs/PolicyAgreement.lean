import MergeGrammar.Proofs.NeighborSymmetry

/-!
# Agreement of the policies

On two spans that contain their heads, and whose movers and used movers lie apart, the two policies
with movement say the same. Without movers they say the same as the strict policy. So sessions under
these policies find the same routes step by step.
-/

namespace MergeGrammar

namespace Policy

variable {x y : Route}

lemma head_ne (hx : x.Fits) (hy : y.Fits) (apart : ∀ s ∈ x.signals, s ∉ y.signals) :
    x.span.head ≠ y.span.head := by
  intro heq
  exact apart _ hx.head_mem (heq ▸ hy.head_mem)

/-- A mover of one route is none of another one without a common signal. -/
lemma moverAware_bridges_iff (hx : x.Fits) (hy : y.Fits)
    (apart : ∀ s ∈ x.signals, s ∉ y.signals) :
    moverAware.Bridges x.span y.span ↔ movementLicensed.Bridges x.span y.span := by
  have hother : y.span.head ∉ x.span.movers := fun hmover =>
    apart _ (hx.movers_mem _ hmover) hy.head_mem
  have hdisjoint : ∀ s ∈ x.span.movers, s ∉ y.span.movers := fun s hs hs' =>
    apart s (hx.movers_mem s hs) (hy.movers_mem s hs')
  have hunused : x.span.head ∉ y.span.usedMovers := fun hused =>
    apart _ hx.head_mem (hy.used_mem _ hused)
  have hunmoved : x.span.head ∉ y.span.movers := fun hmover =>
    apart _ hx.head_mem (hy.movers_mem _ hmover)
  constructor
  · rintro ⟨hmover, -⟩
    exact ⟨hmover.resolve_right hother, hunused, hunmoved⟩
  · rintro ⟨hmover, -⟩
    exact ⟨Or.inl hmover, hdisjoint⟩

lemma moverAware_eq_movementLicensed (hx : x.Fits) (hy : y.Fits)
    (apart : ∀ s ∈ x.signals, s ∉ y.signals) :
    moverAware.areNeighbors x.span y.span = movementLicensed.areNeighbors x.span y.span :=
  areNeighbors_congr hx.holdsHead hy.holdsHead (moverAware_bridges_iff hx hy apart)
    (moverAware_bridges_iff hy hx fun s hs hs' => apart s hs' hs)

/-- Without movers nothing reaches over a gap. -/
lemma moverAware_eq_strict (hx : x.Fits) (hy : y.Fits) (hxs : ∀ s, s ∉ x.span.movers)
    (hys : ∀ s, s ∉ y.span.movers) :
    moverAware.areNeighbors x.span y.span = strict.areNeighbors x.span y.span := by
  have grounded : ∀ {a b : Span}, (∀ s, s ∉ a.movers) → ¬moverAware.Bridges a b := fun ha h =>
    h.1.elim (ha _) (ha _)
  exact areNeighbors_congr hx.holdsHead hy.holdsHead (iff_of_false (grounded hxs) id)
    (iff_of_false (grounded hys) id)

variable {graph : Graph} {options : Options} {read : Array WordPart}

lemma interchangeable_movementLicensed :
    Interchangeable graph options read moverAware movementLicensed :=
  fun _ built _ _ hx hy apart =>
    (moverAware_eq_movementLicensed (built.fits hx) (built.fits hy) apart).symm

end Policy

/-- No word part that has been read is free to move. -/
def Fixed (graph : Graph) (read : Array WordPart) : Prop :=
  ∀ part ∈ read, (graph.entry part.entry).isFree = false

variable {graph : Graph} {options : Options} {read : Array WordPart}

/-- Routes without movers make up a route without movers. -/
lemma Route.unmoved_extend {base sub : Route} (hbase : ∀ s, s ∉ base.span.movers)
    (hsub : ∀ s, s ∉ sub.span.movers) (id : RouteId) (relation : Relation) :
    ∀ s, s ∉ (base.extend id sub relation).span.movers := by
  intro s hmover
  cases relation with
  | argument =>
    rcases (Span.mem_movers_withArg.1 hmover).1 with h | h
    · exact hbase s h.1
    · exact hsub s h
  | adjunction =>
    rcases (Span.mem_movers_withAdjunct.1 hmover).1 with h | ⟨-, h⟩
    · exact hbase s h
    · have hempty : sub.span.movers = ∅ :=
        SignalSet.ext fun t => iff_of_false (hsub t) (SignalSet.not_mem_empty t)
      rw [hempty] at h
      cases h
  | part =>
    rcases (Span.mem_movers_withPart.1 hmover).1 with h | h
    · exact hbase s h
    · exact hsub s h

lemma SearchState.AllBuilt.unmoved {state : SearchState} (h : state.AllBuilt graph options read)
    (fixed : Fixed graph read) {id : RouteId} (hid : id < state.arena.size) :
    ∀ s, s ∉ (state.arena.route id).span.movers := by
  refine h.induct (motive := fun _ route => ∀ s, s ∉ route.span.movers) ?_ ?_ hid
  · intro id part standing s
    rw [fixed part standing.mem]
    exact SignalSet.not_mem_empty s
  · intro id base sub relation _ _ _ hbase hsub
    exact Route.unmoved_extend hbase hsub sub relation

/-- Without a free word part every policy is as good as the strict one. -/
lemma Policy.interchangeable_strict (fixed : Fixed graph read) (policy : Policy) :
    Policy.Interchangeable graph options read policy strict := by
  intro state built x y hx hy apart
  have aware := moverAware_eq_strict (built.fits hx) (built.fits hy) (built.unmoved fixed hx)
    (built.unmoved fixed hy)
  cases policy with
  | moverAware => exact aware.symm
  | strict => rfl
  | movementLicensed =>
    rw [← moverAware_eq_movementLicensed (built.fits hx) (built.fits hy) apart]
    exact aware.symm

def Options.under (options : Options) (policy : Policy) : Options := { options with policy }

/-- The result without what depends on the number of attempts. -/
def StepResult.untried (result : StepResult) : StepResult :=
  { result with attempts := 0, events := [] }

def StepMetrics.untried (step : StepMetrics) : StepMetrics := { step with attempts := 0 }

def RunMetrics.untried (metrics : RunMetrics) : RunMetrics :=
  { metrics with steps := metrics.steps.map StepMetrics.untried }

lemma RunMetrics.untried_record (metrics : RunMetrics) (step : StepMetrics) :
    (metrics.record step).untried = metrics.untried.record step.untried := by
  simp [record, untried, StepMetrics.untried]

namespace Session

/-- Two sessions that have found the same and go on in the same way, except for their policies and
for what they have tried. -/
structure InStep (s t : Session) : Prop where
  graph_eq : t.graph = s.graph
  options_eq : t.options = s.options.under t.options.policy
  reading_eq : t.reading = s.reading
  licensing_eq : t.licensing = s.licensing
  search_eq : t.search = s.search
  metrics_eq : t.metrics.untried = s.metrics.untried

namespace InStep

variable {s t : Session}

lemma read_eq (h : s.InStep t) : t.read = s.read := by
  rw [Session.read, Session.read, h.reading_eq, h.graph_eq]

lemma enter (h : s.InStep t) (part : WordPart) : (s.enter part).InStep (t.enter part) where
  graph_eq := h.graph_eq
  options_eq := h.options_eq
  reading_eq := congrArg Prod.snd h.read_eq
  licensing_eq := by
    unfold Session.enter
    rw [h.licensing_eq, h.graph_eq]
  search_eq := by
    unfold Session.enter licences
    rw [h.licensing_eq, h.graph_eq, h.search_eq]
  metrics_eq := h.metrics_eq

lemma alike (h : s.InStep t) (tracing tracing' : Bool)
    (agree : Policy.Interchangeable s.graph s.options read s.options.policy t.options.policy) :
    (s.setting tracing).Alike read (t.setting tracing') where
  graph_eq := h.graph_eq
  maxRoutes_eq := by
    change t.options.maxRoutes = s.options.maxRoutes
    rw [h.options_eq, Options.under]
  profileCap_eq := by
    change t.options.profileCap = s.options.profileCap
    rw [h.options_eq, Options.under]
  checkAgreement_eq := by
    change t.options.checkAgreement = s.options.checkAgreement
    rw [h.options_eq, Options.under]
  interchangeable := agree

lemma searched (h : s.InStep t) (stage : Stage s) {part : WordPart}
    (hread : s.read.1 = some part)
    (agree : Policy.Interchangeable s.graph s.options (s.enter part).reading.wordParts
      s.options.policy t.options.policy) (tracing tracing' : Bool) :
    (s.searched tracing part).1.InStep (t.searched tracing' part).1 ∧
      (t.searched tracing' part).2 = (s.searched tracing part).2 := by
  have entered := stage.enter hread
  have alike := h.alike tracing tracing' agree
  have start : (Climb.start (s.enter part).search).InStep (Climb.start (t.enter part).search) :=
    ⟨(h.enter part).search_eq, rfl, rfl⟩
  have grounded : (Climb.start (s.enter part).search).Grounded (s.setting tracing)
      (s.enter part).reading.wordParts := ⟨entered.coherent.tables, entered.allBuilt.1⟩
  have seeded := Climb.seed_inStep alike start grounded (standsIn_enter stage.coherent hread)
  rw [Session.searched, Session.searched]
  exact Climb.settle_inStep alike seeded
    (grounded.moves (seed_moves stage.coherent hread tracing))

lemma reports (h : s.InStep t) {part : WordPart} {tracing tracing' : Bool}
    {result result' : StepResult} (reports : s.Reports tracing part result)
    (reports' : t.Reports tracing' part result')
    (searched : (s.searched tracing part).1.InStep (t.searched tracing' part).1)
    (passes : (t.searched tracing' part).2 = (s.searched tracing part).2) :
    result'.untried = result.untried := by
  have edges : result'.edges = result.edges := by
    rw [reports'.edges_eq, reports.edges_eq, licences, licences, h.licensing_eq, h.graph_eq,
      h.search_eq]
  have routes : result'.routes = result.routes := by
    rw [reports'.routes_eq, reports.routes_eq, searched.added_eq]
  have capped : result'.capped = result.capped := by
    rw [reports'.capped_eq, reports.capped_eq, searched.capped_eq]
  rw [StepResult.untried, StepResult.untried, reports'.part_eq, reports.part_eq, edges, routes,
    reports'.passes_eq, reports.passes_eq, passes, capped]

/-- A step leads two sessions in step to sessions in step, with the same result. -/
theorem stepTracing (h : s.InStep t) (stage : Stage s) (tracing tracing' : Bool)
    (agree : ∀ part, s.read.1 = some part →
      Policy.Interchangeable s.graph s.options (s.enter part).reading.wordParts
        s.options.policy t.options.policy) :
    (s.stepTracing tracing).2.InStep (t.stepTracing tracing').2 ∧
      (t.stepTracing tracing').1.map StepResult.untried =
        (s.stepTracing tracing).1.map StepResult.untried := by
  cases hread : s.read.1 with
  | none =>
    have hread' : t.read.1 = none := by rw [h.read_eq, hread]
    rw [stepTracing_none hread, stepTracing_none hread']
    exact ⟨⟨h.graph_eq, h.options_eq, congrArg Prod.snd h.read_eq, h.licensing_eq, h.search_eq,
      h.metrics_eq⟩, rfl⟩
  | some part =>
    have hread' : t.read.1 = some part := by rw [h.read_eq, hread]
    obtain ⟨searched, passes⟩ := h.searched stage hread (agree part hread) tracing tracing'
    obtain ⟨result, told, hstep⟩ := stepTracing_some hread tracing
    obtain ⟨result', told', hstep'⟩ := stepTracing_some hread' tracing'
    have results := h.reports told told' searched passes
    have entered := h.enter part
    rw [hstep, hstep']
    refine ⟨⟨h.graph_eq, h.options_eq, entered.reading_eq, entered.licensing_eq, ?_, ?_⟩, ?_⟩
    · rw [search_entered, search_entered, searched.state_eq]
    · have steps : result'.metrics.untried = result.metrics.untried :=
        congrArg StepResult.metrics results
      rw [metrics_entered, metrics_entered, RunMetrics.untried_record, RunMetrics.untried_record,
        h.metrics_eq, steps]
    · exact congrArg Except.ok results

lemma completeRoutes_eq (h : s.InStep t) : t.completeRoutes = s.completeRoutes := by
  unfold completeRoutes covers consumed
  rw [h.reading_eq, h.search_eq]

lemma bestRoutes_eq (h : s.InStep t) : t.bestRoutes = s.bestRoutes := by
  unfold bestRoutes isComplete progress rankedRoute derivations consumed signalCount
  rw [h.completeRoutes_eq, h.reading_eq, h.search_eq, h.graph_eq]

end InStep

def results (session : Session) : Nat → List (Except SessionError StepResult)
  | 0 => []
  | n + 1 => session.results n ++ [(session.stepped n).step.1]

/-- Two sessions find the same in a number of steps: the same routes with the same numbers, the same
edges, counts and results, and the same complete routes in the same ranking. -/
structure Concurs (s t : Session) (n : Nat) : Prop where
  inStep : (s.stepped n).InStep (t.stepped n)
  results_eq : (t.results n).map (Except.map StepResult.untried) =
    (s.results n).map (Except.map StepResult.untried)
  completeRoutes_eq : (t.stepped n).completeRoutes = (s.stepped n).completeRoutes
  bestRoutes_eq : (t.stepped n).bestRoutes = (s.stepped n).bestRoutes

variable {s t : Session}

lemma options_stepTracing (session : Session) (tracing : Bool) :
    (session.stepTracing tracing).2.options = session.options := by
  cases hread : session.read.1 with
  | none => rw [stepTracing_none hread]
  | some part =>
    obtain ⟨result, -, hstep⟩ := stepTracing_some hread tracing
    rw [hstep, options_entered]

lemma reading_stepTracing (session : Session) (tracing : Bool) :
    (session.stepTracing tracing).2.reading = session.read.2 := by
  cases hread : session.read.1 with
  | none => rw [stepTracing_none hread]
  | some part =>
    obtain ⟨result, -, hstep⟩ := stepTracing_some hread tracing
    rw [hstep, reading_entered]
    rfl

lemma options_stepped (session : Session) (n : Nat) :
    (session.stepped n).options = session.options := by
  induction n with
  | zero => rfl
  | succ n ih => rw [stepped_succ, options_stepTracing, ih]

lemma mem_wordParts_stepped (h : Reachable s) {m n : Nat} (hle : m ≤ n) {part : WordPart}
    (hpart : part ∈ (s.stepped m).reading.wordParts) : part ∈ (s.stepped n).reading.wordParts := by
  induction n, hle using Nat.le_induction with
  | base => exact hpart
  | succ n _ ih =>
    have ordered := (h.stepped n).stage.coherent.ordered
    rw [stepped_succ, reading_stepTracing]
    cases hread : (s.stepped n).read.1 with
    | none =>
      rw [(read_none ordered hread).1]
      exact ih
    | some next =>
      rw [(read_some ordered hread).1]
      exact Array.mem_push_of_mem next ih

/-- Sessions whose policies stay interchangeable find the same. -/
theorem InStep.concurs (h : s.InStep t) (reachable : Reachable s) (n : Nat)
    (agree : ∀ m, m ≤ n → Policy.Interchangeable s.graph s.options
      (s.stepped m).reading.wordParts s.options.policy t.options.policy) : s.Concurs t n := by
  have run : (s.stepped n).InStep (t.stepped n) ∧
      (t.results n).map (Except.map StepResult.untried) =
        (s.results n).map (Except.map StepResult.untried) := by
    induction n with
    | zero => exact ⟨h, rfl⟩
    | succ n ih =>
      obtain ⟨inStep, results_eq⟩ := ih fun m hm => agree m (Nat.le_succ_of_le hm)
      -- What the next step enters is what has been read after it.
      have step := inStep.stepTracing (reachable.stepped n).stage false false fun part hread => by
        have last := agree (n + 1) le_rfl
        rw [stepped_succ, reading_stepTracing] at last
        rw [graph_stepped, options_stepped, options_stepped]
        exact last
      refine ⟨step.1, ?_⟩
      rw [results, results, List.map_append, List.map_append, results_eq]
      exact congrArg (fun result => _ ++ [result]) step.2
  exact ⟨run.1, run.2, run.1.completeRoutes_eq, run.1.bestRoutes_eq⟩

lemma inStep_of_start {tokens : List String} {policy other : Policy}
    (started : Session.start graph tokens (options.under policy) = .ok s)
    (started' : Session.start graph tokens (options.under other) = .ok t) : s.InStep t := by
  obtain ⟨entries, found, rfl⟩ := start_eq_ok started
  obtain ⟨entries', found', rfl⟩ := start_eq_ok started'
  rw [found, Except.ok.injEq] at found'
  subst found'
  exact ⟨rfl, rfl, rfl, rfl, rfl, rfl⟩

lemma options_of_start {tokens : List String}
    (started : Session.start graph tokens options = .ok s) :
    s.graph = graph ∧ s.options = options := by
  obtain ⟨entries, -, rfl⟩ := start_eq_ok started
  exact ⟨rfl, rfl⟩

/-- The two policies with movement find the same in any number of steps, and so does the strict
policy as long as no word part that has been read is free. -/
theorem policies_concur {tokens : List String} {aware licensed strict : Session}
    (aware_started : Session.start graph tokens (options.under .moverAware) = .ok aware)
    (licensed_started : Session.start graph tokens (options.under .movementLicensed) = .ok licensed)
    (strict_started : Session.start graph tokens (options.under .strict) = .ok strict) (n : Nat) :
    aware.Concurs licensed n ∧
      (Fixed graph (aware.stepped n).reading.wordParts →
        aware.Concurs strict n ∧ licensed.Concurs strict n) := by
  obtain ⟨hgraph, haware⟩ := options_of_start aware_started
  obtain ⟨hgraph', hlicensed⟩ := options_of_start licensed_started
  obtain ⟨-, hstrict⟩ := options_of_start strict_started
  have concurs : aware.Concurs licensed n := by
    refine (inStep_of_start aware_started licensed_started).concurs (.start aware_started) n
      fun m _ => ?_
    rw [haware, hlicensed]
    exact Policy.interchangeable_movementLicensed
  refine ⟨concurs, fun fixed => ⟨?_, ?_⟩⟩
  · refine (inStep_of_start aware_started strict_started).concurs (.start aware_started) n
      fun m hm => ?_
    rw [hstrict, hgraph]
    exact Policy.interchangeable_strict
      (fun part hpart => fixed part (mem_wordParts_stepped (.start aware_started) hm hpart)) _
  · refine (inStep_of_start licensed_started strict_started).concurs (.start licensed_started) n
      fun m hm => ?_
    rw [hstrict, hgraph']
    rw [← concurs.inStep.reading_eq] at fixed
    exact Policy.interchangeable_strict
      (fun part hpart => fixed part (mem_wordParts_stepped (.start licensed_started) hm hpart)) _

/-- The first two words of the sample, neither of which is free, under a policy. -/
def sampleUnder (policy : Policy) : Session :=
  ofEntries (.ofEntries sampleEntries) ({ Options.standard with maxRoutes := 10 }.under policy) [0, 1]

lemma sampleUnder_started (policy : Policy) :
    Session.start (.ofEntries sampleEntries) ["a", "h"]
      ({ Options.standard with maxRoutes := 10 }.under policy) = .ok (sampleUnder policy) := by
  have found : lookupAll (.ofEntries sampleEntries) ["a", "h"] = .ok [0, 1] := by decide +kernel
  rw [Session.start, found]
  rfl

/-- All three policies find the head with its noun. -/
theorem sample_policies_concur :
    ((sampleUnder .moverAware).Concurs (sampleUnder .movementLicensed) 2 ∧
      (sampleUnder .moverAware).Concurs (sampleUnder .strict) 2 ∧
      (sampleUnder .movementLicensed).Concurs (sampleUnder .strict) 2) ∧
      ((sampleUnder .strict).stepped 2).completeRoutes = [2] := by
  have fixed : Fixed (.ofEntries sampleEntries)
      ((sampleUnder .moverAware).stepped 2).reading.wordParts := by
    unfold Fixed
    decide +kernel
  obtain ⟨licensed, strict⟩ := policies_concur (sampleUnder_started .moverAware)
    (sampleUnder_started .movementLicensed) (sampleUnder_started .strict) 2
  exact ⟨⟨licensed, strict fixed⟩, by decide +kernel⟩

end Session

end MergeGrammar
