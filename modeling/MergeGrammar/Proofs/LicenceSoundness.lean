import MergeGrammar.Proofs.Activations

/-!
# Where licences come from

A negative feature remembers signals of word parts that carry it and of word parts that carry one of
the positive features wired to it. So the two word parts of a licence always carry a pair of features
that are wired to each other, and in a graph made from entries the positive one of them satisfies the
negative one.
-/

namespace MergeGrammar

variable {graph : Graph} {read : Array WordPart}

/-- The word part that was read at a signal carries a feature. -/
def Carries (graph : Graph) (read : Array WordPart) (signal : Signal) (id : FeatureId) : Prop :=
  ∃ part : WordPart, part.StandsIn read ∧ part.signal = signal ∧
    id ∈ (graph.entry part.entry).features

/-- The word part that was read at a signal carries a feature wired to the given one. -/
def Answers (graph : Graph) (read : Array WordPart) (signal : Signal) (id : FeatureId) : Prop :=
  ∃ positive, Carries graph read signal positive ∧ id ∈ (graph.feature positive).partners

lemma Carries.push {signal : Signal} {id : FeatureId} (h : Carries graph read signal id)
    (next : WordPart) : Carries graph (read.push next) signal id := by
  obtain ⟨part, standing, hsignal, hid⟩ := h
  exact ⟨part, standing.push next, hsignal, hid⟩

lemma Answers.push {signal : Signal} {id : FeatureId} (h : Answers graph read signal id)
    (next : WordPart) : Answers graph (read.push next) signal id := by
  obtain ⟨positive, carried, wired⟩ := h
  exact ⟨positive, carried.push next, wired⟩

def Meeting.Sound (graph : Graph) (read : Array WordPart) (met : Meeting) : Prop :=
  Carries graph read met.host met.feature ∧ Answers graph read met.announced met.feature

/-- A word part carries a feature that leads to a kind of merge and that another word part
answers. -/
def Wired (graph : Graph) (read : Array WordPart) (kind : MergeKind) (upper lower : Signal) : Prop :=
  ∃ id, (graph.feature id).target = some kind ∧ Carries graph read upper id ∧
    Answers graph read lower id

lemma Wired.push {kind : MergeKind} {upper lower : Signal} (h : Wired graph read kind upper lower)
    (next : WordPart) : Wired graph (read.push next) kind upper lower := by
  obtain ⟨id, hkind, carried, answered⟩ := h
  exact ⟨id, hkind, carried.push next, answered.push next⟩

/-- A licence comes from a feature that leads to its kind of merge. -/
def Licence.Sound (graph : Graph) (read : Array WordPart) (licence : Licence) : Prop :=
  Wired graph read licence.kind licence.upper licence.lower

lemma Licence.Sound.ranges {licence : Licence} (h : licence.Sound graph read) :
    licence.Ranges read.size := by
  obtain ⟨id, -, ⟨host, hhost, hupper, -⟩, positive, ⟨part, hpart, hlower, -⟩, -⟩ := h
  rw [Licence.Ranges, ← hupper, ← hlower]
  exact ⟨⟨hhost.1, hhost.le_size⟩, hpart.1, hpart.le_size⟩

namespace Licensing

/-- The signals that have reached a feature are those of word parts that carry or answer it, and every
signal has been passed on to all partners. -/
structure Sound (graph : Graph) (read : Array WordPart) (state : Licensing) : Prop where
  hosts : ∀ id signal, signal ∈ (state.activation id).hosts → Carries graph read signal id
  announced : ∀ id signal, signal ∈ (state.activation id).announced → Answers graph read signal id
  passed : state.PassedOn graph

variable {state : Licensing} {signal : Signal}

lemma sound_of_unreached (unreached : ∀ id, state.activation id = default) :
    state.Sound graph #[] where
  hosts id signal h := by
    rw [unreached] at h
    exact absurd h (SignalSet.not_mem_empty signal)
  announced id signal h := by
    rw [unreached] at h
    exact absurd h (SignalSet.not_mem_empty signal)
  passed := passedOn_of_unreached unreached

lemma sound_start : (start graph).Sound graph #[] := sound_of_unreached activation_start

lemma sound_reset (state : Licensing) : state.reset.Sound graph #[] :=
  sound_of_unreached state.activation_reset

lemma Sound.push (h : state.Sound graph read) (next : WordPart) :
    state.Sound graph (read.push next) where
  hosts id signal hsignal := (h.hosts id signal hsignal).push next
  announced id signal hsignal := (h.announced id signal hsignal).push next
  passed := h.passed

lemma Sound.of_features (h : state.Sound graph read) {changed : Licensing}
    (hfeatures : changed.features = state.features) : changed.Sound graph read := by
  have hactivation := activation_congr hfeatures
  refine ⟨?_, ?_, ?_⟩
  · rw [hactivation]
    exact h.hosts
  · rw [hactivation]
    exact h.announced
  · rw [PassedOn, hactivation, hfeatures]
    exact h.passed

lemma Sound.of_spread (h : state.Sound graph read) {asked offered : FeatureId → Prop}
    {result : Licensing × List Meeting} (spread : Spread graph signal asked offered state result)
    (carried : ∀ id, asked id → Carries graph read signal id)
    (answered : ∀ id, offered id → Answers graph read signal id) :
    result.1.Sound graph read where
  hosts id s hs := by
    rcases (spread.mem_hosts id s).1 hs with hs | ⟨rfl, hid, -⟩
    · exact h.hosts id s hs
    · exact carried id hid
  announced id s hs := by
    rcases spread.announced_new id s hs with hs | ⟨rfl, hid, -⟩
    · exact h.announced id s hs
    · exact answered id hid
  passed := h.passed.of_spread spread

lemma Spread.met_of_sound {asked offered : FeatureId → Prop} {result : Licensing × List Meeting}
    (spread : Spread graph signal asked offered state result) (h : result.1.Sound graph read)
    (carried : ∀ id, asked id → Carries graph read signal id)
    (answered : ∀ id, offered id → Answers graph read signal id) {met : Meeting}
    (hmet : met ∈ result.2) : met.Sound graph read := by
  obtain ⟨-, ⟨hhost, hid, hannounced⟩ | ⟨hannounced, hid, -, hhost⟩⟩ := spread.met_sound met hmet
  · exact ⟨hhost ▸ carried _ hid, h.announced _ _ hannounced⟩
  · exact ⟨h.hosts _ _ hhost, hannounced ▸ answered _ hid⟩

/-- Activating the next word part keeps the licensing state sound and gives sound licences. -/
lemma activate_sound (h : state.Sound graph read) {part : WordPart}
    (hsignal : part.signal = read.size + 1) :
    (state.activate graph part).1.Sound graph (read.push part) ∧
      ∀ entry ∈ (state.activate graph part).2, entry.2.Sound graph (read.push part) := by
  have pushed := h.push part
  rcases activate_cases h.passed part with ⟨-, heq⟩ | ⟨-, reached, activates⟩
  · rw [heq]
    exact ⟨pushed, fun _ hentry => absurd hentry List.not_mem_nil⟩
  · have carried : ∀ id, Asks graph (graph.entry part.entry).features id →
        Carries graph (read.push part) part.signal id := fun id hid =>
      ⟨part, .of_push part hsignal, rfl, hid.1⟩
    have answered : ∀ id, Offers graph (graph.entry part.entry).features id →
        Answers graph (read.push part) part.signal id := fun id ⟨positive, hpositive, _, hid⟩ =>
      ⟨positive, ⟨part, .of_push part hsignal, rfl, hpositive⟩, hid⟩
    have entered : (state.entered part).Sound graph (read.push part) :=
      ⟨pushed.hosts, pushed.announced, pushed.passed⟩
    have reached_sound := entered.of_spread activates.spread carried answered
    refine ⟨reached_sound.of_features activates.accepts.features_eq, fun entry hentry => ?_⟩
    obtain ⟨-, met, hmet, -, hlicence⟩ := activates.accepts.from_meeting entry hentry
    obtain ⟨hkind, hupper, hlower⟩ := Meeting.licence?_eq_some.1 hlicence
    rw [Licence.Sound, hupper, hlower]
    exact ⟨met.feature, hkind, activates.spread.met_of_sound reached_sound carried answered hmet⟩

end Licensing

end MergeGrammar
