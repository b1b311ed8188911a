import MergeGrammar.Proofs.Activations
import MergeGrammar.Proofs.FeatureWiring

/-!
# Runs of activations

Word parts are activated one after another, each at a signal of its own choice. What the licensing
state knows is then a function of the word parts activated so far, and what it grants is what it has
given. A reset empties the sets one by one. As no activation adds or removes any, that gives back the
state of the start, and a run after a reset is a run from the start.
-/

namespace MergeGrammar

variable {graph : Graph}

/-- A word part carries a negative feature. -/
abbrev WordPart.Asks (graph : Graph) (part : WordPart) (id : FeatureId) : Prop :=
  MergeGrammar.Asks graph (graph.entry part.entry).features id

/-- A word part carries a positive feature that is wired to a negative one. -/
abbrev WordPart.Offers (graph : Graph) (part : WordPart) (id : FeatureId) : Prop :=
  MergeGrammar.Offers graph (graph.entry part.entry).features id

namespace Licensing

/-- Activates word parts one after another and gives all licences in order. -/
def activateAll (graph : Graph) (state : Licensing) :
    List WordPart → Licensing × List (FeatureId × Licence)
  | [] => (state, [])
  | part :: parts =>
    let (state, given) := state.activate graph part
    let (state, others) := activateAll graph state parts
    (state, given ++ others)

lemma activateAll_concat (state : Licensing) (parts : List WordPart) (part : WordPart) :
    state.activateAll graph (parts ++ [part]) =
      (((state.activateAll graph parts).1.activate graph part).1,
        (state.activateAll graph parts).2 ++
          ((state.activateAll graph parts).1.activate graph part).2) := by
  induction parts generalizing state with
  | nil => simp [activateAll]
  | cons first parts ih => simp [activateAll, ih]

/-- What a state knows of the word parts that have been activated. -/
structure Tracks (graph : Graph) (parts : List WordPart) (state : Licensing) : Prop where
  size_entries : state.entries.size = graph.entries.size
  size_features : state.features.size = graph.features.size
  entered : ∀ entry x, x ∈ state.entries.getD entry ∅ ↔
    entry < graph.entries.size ∧ ∃ part ∈ parts, part.entry = entry ∧ part.signal = x
  hosts : ∀ id x, x ∈ (state.activation id).hosts ↔
    id < graph.features.size ∧ ∃ part ∈ parts, part.signal = x ∧ part.Asks graph id
  announced : ∀ id, ∀ x ∈ (state.activation id).announced,
    ∃ part ∈ parts, part.signal = x ∧ part.Offers graph id
  reached : ∀ part ∈ parts, ∀ id < graph.features.size, part.Offers graph id →
    part.signal ∈ (state.activation id).hosts ∨ part.signal ∈ (state.activation id).announced
  passed : state.PassedOn graph

lemma tracks_start : (start graph).Tracks graph [] where
  size_entries := Array.size_replicate
  size_features := Array.size_replicate
  entered entry x := by
    refine iff_of_false (fun hx => ?_) (by simp)
    simp only [start, Array.getD_eq_getD_getElem?, Array.getElem?_replicate] at hx
    split at hx <;> exact SignalSet.not_mem_empty x hx
  hosts id x := by
    rw [activation_start]
    exact iff_of_false (SignalSet.not_mem_empty x) (by simp)
  announced id x hx := by
    rw [activation_start] at hx
    exact absurd hx (SignalSet.not_mem_empty x)
  reached _ hpart := absurd hpart List.not_mem_nil
  passed := passedOn_start

variable {state : Licensing} {parts : List WordPart} {part : WordPart}

lemma exists_mem_concat {P : WordPart → Prop} :
    (∃ p ∈ parts ++ [part], P p) ↔ (∃ p ∈ parts, P p) ∨ P part := by
  simp [or_and_right, exists_or]

lemma mem_entered {entry : EntryId} {x : Signal} :
    x ∈ (state.entered part).entries.getD entry ∅ ↔ x ∈ state.entries.getD entry ∅ ∨
      entry < state.entries.size ∧ part.entry = entry ∧ part.signal = x := by
  rw [Licensing.entered]
  simp only [Array.getD_eq_getD_getElem?, Array.getElem?_modify]
  by_cases hlt : entry < state.entries.size
  · by_cases heq : part.entry = entry
    · simp [heq, hlt, eq_comm, or_comm]
    · simp [heq]
  · simp [hlt]

namespace Tracks

variable (h : state.Tracks graph parts)
include h

/-- An activation that has happened before teaches nothing new. -/
lemma again {earlier : WordPart} (hearlier : earlier ∈ parts) (hentry : earlier.entry = part.entry)
    (hsignal : earlier.signal = part.signal) : state.Tracks graph (parts ++ [part]) where
  size_entries := h.size_entries
  size_features := h.size_features
  entered entry x := by
    rw [h.entered, exists_mem_concat, or_iff_left_of_imp]
    exact fun ⟨heq, hx⟩ => ⟨earlier, hearlier, hentry.trans heq, hsignal.trans hx⟩
  hosts id x := by
    rw [h.hosts, exists_mem_concat, or_iff_left_of_imp]
    rw [WordPart.Asks, ← hentry]
    exact fun ⟨hx, asks⟩ => ⟨earlier, hearlier, hsignal.trans hx, asks⟩
  announced id x hx := exists_mem_concat.2 (Or.inl (h.announced id x hx))
  reached p hp id hlt offers := by
    rcases List.mem_append.1 hp with hp | hp
    · exact h.reached p hp id hlt offers
    · rw [List.mem_singleton.1 hp, WordPart.Offers, ← hentry] at offers
      rw [List.mem_singleton.1 hp, ← hsignal]
      exact h.reached earlier hearlier id hlt offers
  passed := h.passed

section Activates

variable {reached : Licensing × List Meeting} {result : Licensing × List (FeatureId × Licence)}
  (activates : Activates graph state part reached result)
include activates

/-- The word parts that meet are the one just activated and one with another signal. -/
lemma met {met : Meeting} (hmet : met ∈ reached.2) :
    ∃ other ∈ parts, other.signal ≠ part.signal ∧
      (met.host = part.signal ∧ met.announced = other.signal ∧ part.Asks graph met.feature ∧
          other.Offers graph met.feature ∨
        met.host = other.signal ∧ met.announced = part.signal ∧ other.Asks graph met.feature ∧
          part.Offers graph met.feature) := by
  obtain ⟨hne, ⟨hhost, asks, hannounced⟩ | ⟨hannounced, offers, -, hhost⟩⟩ :=
    activates.spread.met_sound met hmet
  · rcases activates.spread.announced_new _ _ hannounced with hold | ⟨heq, -⟩
    · obtain ⟨other, hother, hsignal, offers⟩ := h.announced _ _ hold
      exact ⟨other, hother, fun heq => hne (by rw [hhost, ← hsignal, heq]),
        Or.inl ⟨hhost, hsignal.symm, asks, offers⟩⟩
    · exact absurd (hhost.trans heq.symm) hne
  · rcases (activates.spread.mem_hosts _ _).1 hhost with hold | ⟨heq, -⟩
    · obtain ⟨-, other, hother, hsignal, asks⟩ := (h.hosts _ _).1 hold
      exact ⟨other, hother, fun heq => hne (by rw [hannounced, ← hsignal, heq]),
        Or.inr ⟨hsignal.symm, hannounced, asks, offers⟩⟩
    · exact absurd (heq.trans hannounced.symm) hne

lemma push : result.1.Tracks graph (parts ++ [part]) where
  size_entries := activates.size_entries.trans h.size_entries
  size_features := activates.size_features.trans h.size_features
  entered entry x := by
    rw [activates.entries_eq, mem_entered, h.entered, exists_mem_concat, h.size_entries, and_or_left]
  hosts id x := by
    rw [activates.activation_eq, activates.spread.mem_hosts, exists_mem_concat, and_or_left]
    refine or_congr (h.hosts id x) ?_
    rw [← h.size_features]
    exact ⟨fun ⟨heq, asks, hlt⟩ => ⟨hlt, heq.symm, asks⟩,
      fun ⟨hlt, heq, asks⟩ => ⟨heq.symm, asks, hlt⟩⟩
  announced id x hx := by
    rw [activates.activation_eq] at hx
    rw [exists_mem_concat]
    rcases activates.spread.announced_new id x hx with hx | ⟨heq, offers, -⟩
    · exact Or.inl (h.announced id x hx)
    · exact Or.inr ⟨heq.symm, offers⟩
  reached p hp id hlt offers := by
    rw [activates.activation_eq]
    rcases List.mem_append.1 hp with hp | hp
    · exact (h.reached p hp id hlt offers).imp activates.spread.hosts_mono
        (activates.spread.announced_mono id _)
    · rw [List.mem_singleton.1 hp] at offers ⊢
      exact activates.spread.reached id offers (h.size_features ▸ hlt)
  passed := activates.passedOn h.passed

end Activates

/-- The step of a run: either the word part has been activated before, or its features are reached. -/
lemma activate_cases (part : WordPart) :
    ((∃ earlier ∈ parts, earlier.entry = part.entry ∧ earlier.signal = part.signal) ∧
      state.activate graph part = (state, [])) ∨
    ∃ reached, Activates graph state part reached (state.activate graph part) := by
  rcases Licensing.activate_cases h.passed part with ⟨hentered, heq⟩ | ⟨-, reached⟩
  · exact Or.inl ⟨((h.entered _ _).1 hentered).2, heq⟩
  · exact Or.inr reached

/-- A fresh signal has not reached any negative feature. -/
lemma unreached (fresh : ∀ earlier ∈ parts, earlier.signal ≠ part.signal) (id : FeatureId) :
    part.signal ∉ (state.activation id).hosts ∧ part.signal ∉ (state.activation id).announced := by
  constructor
  · intro hx
    obtain ⟨-, earlier, hearlier, hsignal, -⟩ := (h.hosts id _).1 hx
    exact fresh earlier hearlier hsignal
  · intro hx
    obtain ⟨earlier, hearlier, hsignal, -⟩ := h.announced id _ hx
    exact fresh earlier hearlier hsignal

/-- An activation at a fresh signal is not passed over. -/
lemma activate_fresh (fresh : ∀ earlier ∈ parts, earlier.signal ≠ part.signal) :
    ∃ reached, Activates graph state part reached (state.activate graph part) := by
  rcases h.activate_cases part with ⟨⟨earlier, hearlier, -, hsignal⟩, -⟩ | reached
  · exact absurd hsignal (fresh earlier hearlier)
  · exact reached

/-- An activation that has happened before does nothing, whether or not its entry exists. -/
lemma activate_again {earlier : WordPart} (hearlier : earlier ∈ parts)
    (hentry : earlier.entry = part.entry) (hsignal : earlier.signal = part.signal) :
    state.activate graph part = (state, []) := by
  by_cases hlt : part.entry < graph.entries.size
  · rw [Licensing.activate, if_pos]
    exact (h.entered _ _).2 ⟨hlt, earlier, hearlier, hentry, hsignal⟩
  · have hnone : graph.entry part.entry = default := by
      rw [Graph.entry, Array.getD_eq_getD_getElem?, Array.getElem?_eq_none (Nat.le_of_not_lt hlt)]
      rfl
    have hkept : state.entries.modify part.entry (·.insert part.signal) = state.entries := by
      rw [← h.size_entries] at hlt
      simp [Array.modify, Array.modifyM, hlt]
    rw [Licensing.activate, hnone, hkept]
    split <;> rfl

end Tracks

/-- What a run has given is what it has granted, once, to word parts it has activated. -/
structure Records (graph : Graph) (parts : List WordPart)
    (run : Licensing × List (FeatureId × Licence)) : Prop where
  tracks : run.1.Tracks graph parts
  granted_iff : ∀ licence, run.1.Granted licence ↔ licence ∈ run.2.map Prod.snd
  nodup : (run.2.map Prod.snd).Nodup
  activated : ∀ given ∈ run.2, (∃ part ∈ parts, part.signal = given.2.upper) ∧
    ∃ part ∈ parts, part.signal = given.2.lower

lemma records_start : Records graph [] (start graph, []) where
  tracks := tracks_start
  granted_iff licence := iff_of_false (not_granted_start licence) List.not_mem_nil
  nodup := List.nodup_nil
  activated _ hgiven := absurd hgiven List.not_mem_nil

/-- A feature of the host leads to a kind of merge, and some feature of its partner satisfies it. -/
def Suits (graph : Graph) (id : FeatureId) (kind : MergeKind) (host partner : WordPart) : Prop :=
  id ∈ (graph.entry host.entry).features ∧ (graph.feature id).feature.sign = some kind.sign ∧
    ∃ positive ∈ (graph.entry partner.entry).features,
      (graph.feature positive).feature.satisfies (graph.feature id).feature = true

instance (graph : Graph) (id : FeatureId) (kind : MergeKind) (host partner : WordPart) :
    Decidable (Suits graph id kind host partner) :=
  inferInstanceAs (Decidable (_ ∧ _ ∧ _))

lemma Records.activate {run : Licensing × List (FeatureId × Licence)} (h : Records graph parts run)
    (part : WordPart) : Records graph (parts ++ [part])
      ((run.1.activate graph part).1, run.2 ++ (run.1.activate graph part).2) := by
  have activated : ∀ given ∈ run.2, (∃ p ∈ parts ++ [part], p.signal = given.2.upper) ∧
      ∃ p ∈ parts ++ [part], p.signal = given.2.lower := fun given hgiven =>
    (h.activated given hgiven).imp (fun hp => exists_mem_concat.2 (Or.inl hp))
      fun hp => exists_mem_concat.2 (Or.inl hp)
  rcases h.tracks.activate_cases part with
    ⟨⟨earlier, hearlier, hentry, hsignal⟩, heq⟩ | ⟨reached, activates⟩
  · rw [heq, List.append_nil]
    exact ⟨h.tracks.again hearlier hentry hsignal, h.granted_iff, h.nodup, activated⟩
  · have tracks := h.tracks.push activates
    refine ⟨tracks, fun licence => ?_, ?_, fun given hgiven => ?_⟩
    · rw [activates.accepts.granted_iff, activates.granted_iff, h.granted_iff, List.map_append,
        List.mem_append]
    · rw [List.map_append, List.nodup_append]
      refine ⟨h.nodup, activates.accepts.nodup, fun licence hold other hnew heq => ?_⟩
      obtain ⟨given, hgiven, rfl⟩ := List.mem_map.1 hnew
      rw [heq, ← h.granted_iff, ← activates.granted_iff] at hold
      exact (activates.accepts.from_meeting given hgiven).1 hold
    · rcases List.mem_append.1 hgiven with hgiven | hgiven
      · exact activated given hgiven
      · obtain ⟨-, met, hmet, -, hlicence⟩ := activates.accepts.from_meeting given hgiven
        obtain ⟨-, hupper, hlower⟩ := Meeting.licence?_eq_some.1 hlicence
        rw [exists_mem_concat, exists_mem_concat, hupper, hlower]
        obtain ⟨other, hother, -, ⟨hhost, hannounced, -⟩ | ⟨hhost, hannounced, -⟩⟩ :=
          h.tracks.met activates hmet
        · exact ⟨Or.inr hhost.symm, Or.inl ⟨other, hother, hannounced.symm⟩⟩
        · exact ⟨Or.inl ⟨other, hother, hhost.symm⟩, Or.inr hannounced.symm⟩

theorem records_run (graph : Graph) (parts : List WordPart) :
    Records graph parts ((start graph).activateAll graph parts) := by
  induction parts using List.reverseRecOn with
  | nil => exact records_start
  | append_singleton parts part ih =>
    rw [activateAll_concat]
    exact ih.activate part

/-- The state after a run of activations. -/
def after (graph : Graph) (parts : List WordPart) : Licensing :=
  ((start graph).activateAll graph parts).1

/-- What the activation of a word part gives after a run. -/
def given (graph : Graph) (parts : List WordPart) (part : WordPart) : List (FeatureId × Licence) :=
  ((after graph parts).activate graph part).2

lemma suits_iff (wired : ∃ entries, graph = .ofEntries entries) {id : FeatureId} {kind : MergeKind}
    {host partner : WordPart} : Suits graph id kind host partner ↔
      (graph.feature id).target = some kind ∧ host.Asks graph id ∧
        partner.Offers graph id := by
  obtain ⟨entries, rfl⟩ := wired
  rw [Graph.target_eq_some]
  constructor
  · rintro ⟨hid, hsign, positive, hpositive, hsatisfies⟩
    have hkind := Feature.mergeKind_eq_some.2 hsign
    refine ⟨hsign, ⟨hid, Feature.not_isPositive_of_mergeKind hkind⟩, positive, hpositive,
      Feature.isPositive_of_satisfies hsatisfies, ?_⟩
    exact Graph.mem_partners.2 ⟨Graph.lt_size_of_mem_features hpositive, ⟨kind, hkind⟩, hsatisfies⟩
  · rintro ⟨hsign, ⟨hid, -⟩, positive, hpositive, -, hpartner⟩
    exact ⟨hid, hsign, positive, hpositive, Graph.satisfies_of_mem_partners hpartner⟩

/-! ### Resets -/

/-- There is a set for each node of the graph. -/
structure Fits (graph : Graph) (state : Licensing) : Prop where
  entries : state.entries.size = graph.entries.size
  categories : state.categories.size = graph.categories.size
  features : state.features.size = graph.features.size

lemma fits_start : (start graph).Fits graph :=
  ⟨Array.size_replicate, Array.size_replicate, Array.size_replicate⟩

lemma size_categories_tag (signal : Signal) (state : Licensing) (ids : List CategoryId) :
    (state.tag signal ids).categories.size = state.categories.size := by
  have kept : ∀ sets : Array SignalSet,
      (ids.foldl (fun sets id => sets.modify id (·.insert signal)) sets).size = sets.size := by
    induction ids with
    | nil => exact fun _ => rfl
    | cons id ids ih => exact fun sets => (ih _).trans Array.size_modify
  exact kept state.categories

lemma categories_accept (state : Licensing) (met : Meeting) :
    (state.accept graph met).1.categories = state.categories := by
  rw [accept]
  split
  · split <;> rfl
  · split <;> rfl
  · rfl

lemma categories_acceptAll (state : Licensing) (meetings : List Meeting) :
    (state.acceptAll graph meetings).1.categories = state.categories := by
  induction meetings generalizing state with
  | nil => rfl
  | cons met meetings ih => exact (ih _).trans (state.categories_accept met)

lemma size_categories_activate (passed : state.PassedOn graph) (part : WordPart) :
    (state.activate graph part).1.categories.size = state.categories.size := by
  by_cases hentered : part.signal ∈ state.entries.getD part.entry ∅
  · rw [activate, if_pos hentered]
  · have kept := congrArg Licensing.categories (reached_spread passed part).only_features
    rw [activate_eq passed hentered, categories_acceptAll, size_categories_tag, kept]
    rfl

namespace Fits

variable (h : state.Fits graph)
include h

/-- Sets that fit are emptied to those of the start. -/
lemma reset_eq : state.reset = start graph := by
  rw [reset, start, Array.map_const', Array.map_const', Array.map_const', h.entries, h.categories,
    h.features]

lemma reset : state.reset.Fits graph := h.reset_eq ▸ fits_start

lemma activate (passed : state.PassedOn graph) (part : WordPart) :
    (state.activate graph part).1.Fits graph := by
  have categories := (size_categories_activate passed part).trans h.categories
  rcases Licensing.activate_cases passed part with ⟨-, heq⟩ | ⟨-, reached, activates⟩
  · rw [heq]
    exact h
  · exact ⟨activates.size_entries.trans h.entries, categories,
      activates.size_features.trans h.features⟩

end Fits

/-- The states that activations and resets lead to, in any order and any number. -/
inductive Reached (graph : Graph) : Licensing → Prop where
  | start : Reached graph (start graph)
  | activate {state : Licensing} (earlier : Reached graph state) (part : WordPart) :
    Reached graph (state.activate graph part).1
  | reset {state : Licensing} (earlier : Reached graph state) : Reached graph state.reset

namespace Reached

lemma activateAll (h : Reached graph state) (parts : List WordPart) :
    Reached graph (state.activateAll graph parts).1 := by
  induction parts generalizing state with
  | nil => exact h
  | cons part parts ih => exact ih (h.activate part)

lemma passedOn (h : Reached graph state) : state.PassedOn graph := by
  induction h with
  | start => exact passedOn_start
  | @activate state _ part ih =>
    rcases Licensing.activate_cases ih part with ⟨-, heq⟩ | ⟨-, reached, activates⟩
    · rwa [heq]
    · exact activates.passedOn ih
  | @reset state _ _ => exact passedOn_of_unreached state.activation_reset

lemma fits (h : Reached graph state) : state.Fits graph := by
  induction h with
  | start => exact fits_start
  | activate earlier part ih => exact ih.activate earlier.passedOn part
  | reset _ ih => exact ih.reset

end Reached

/-- A state is new, or it has just been reset after any activations and resets. -/
inductive Fresh (graph : Graph) : Licensing → Prop where
  | new : Fresh graph (start graph)
  | reset {state : Licensing} (earlier : Reached graph state) : Fresh graph state.reset

lemma Fresh.eq_start (h : Fresh graph state) : state = start graph := by
  cases h with
  | new => rfl
  | reset earlier => exact earlier.fits.reset_eq

/-- Word parts are activated in a state that is new or has just been reset. Every licence that an
activation gives names the signal just activated and an earlier one, of word parts with features that
suit each other. No run gives a licence twice, and an activation that has happened before gives none
and changes nothing. -/
theorem given_sound (wired : ∃ entries, graph = .ofEntries entries) {fresh : Licensing}
    (hfresh : Fresh graph fresh) (parts : List WordPart) (part : WordPart) :
    let state := (fresh.activateAll graph parts).1
    (∀ granted ∈ (state.activate graph part).2, ∃ other ∈ parts, other.signal ≠ part.signal ∧
      (granted.2 = .of granted.2.kind part.signal other.signal ∧
          Suits graph granted.1 granted.2.kind part other ∨
        granted.2 = .of granted.2.kind other.signal part.signal ∧
          Suits graph granted.1 granted.2.kind other part)) ∧
    ((fresh.activateAll graph (parts ++ [part])).2.map Prod.snd).Nodup ∧
    ((∃ earlier ∈ parts, earlier.entry = part.entry ∧ earlier.signal = part.signal) →
      state.activate graph part = (state, [])) := by
  obtain rfl := hfresh.eq_start
  have tracks := (records_run graph parts).tracks
  refine ⟨fun granted hgranted => ?_, (records_run graph _).nodup,
    fun ⟨earlier, hearlier, hentry, hsignal⟩ => tracks.activate_again hearlier hentry hsignal⟩
  rcases tracks.activate_cases part with ⟨-, heq⟩ | ⟨reached, activates⟩
  · rw [heq] at hgranted
    exact absurd hgranted List.not_mem_nil
  · obtain ⟨-, met, hmet, hfeature, hlicence⟩ := activates.accepts.from_meeting granted hgranted
    obtain ⟨hkind, hupper, hlower⟩ := Meeting.licence?_eq_some.1 hlicence
    obtain ⟨other, hother, hne, sides⟩ := tracks.met activates hmet
    rw [hfeature] at hkind sides
    refine ⟨other, hother, hne, sides.imp ?_ ?_⟩
    · rintro ⟨hhost, hannounced, asks, offers⟩
      refine ⟨?_, (suits_iff wired).2 ⟨hkind, asks, offers⟩⟩
      rw [← hhost, ← hannounced, ← hupper, ← hlower, Licence.of_kind]
    · rintro ⟨hhost, hannounced, asks, offers⟩
      refine ⟨?_, (suits_iff wired).2 ⟨hkind, asks, offers⟩⟩
      rw [← hhost, ← hannounced, ← hupper, ← hlower, Licence.of_kind]

/-- Two words ask for the category of a third one, and one of the two has it as well. -/
def echoEntries : List Entry :=
  [⟨"b", [⟨[], [⟨some .select, "N", []⟩], []⟩]⟩,
    ⟨"n", [⟨[], [], [⟨none, "N", []⟩]⟩]⟩,
    ⟨"echo", [⟨[], [⟨some .select, "N", []⟩], [⟨none, "N", []⟩]⟩]⟩]

/-- A state in which the same words have been activated, the other way round. -/
def echoUsed : Licensing := after (.ofEntries echoEntries) [⟨1, 1, 1⟩, ⟨2, 0, 2⟩]

/-- The licence of a head and the argument after it comes from the feature of the head, also if the
two have been licensed the other way round before a reset. -/
theorem echo_noun_suits :
    echoUsed.merged = [(2, 1)] ∧ Fresh (.ofEntries echoEntries) echoUsed.reset ∧
      ((echoUsed.reset.activateAll (.ofEntries echoEntries) [⟨1, 0, 1⟩]).1.activate
        (.ofEntries echoEntries) ⟨2, 1, 2⟩).2 = [(0, .merge 1 2)] ∧
      Suits (.ofEntries echoEntries) 0 .merge ⟨1, 0, 1⟩ ⟨2, 1, 2⟩ := by
  have fresh : Fresh (.ofEntries echoEntries) echoUsed.reset := .reset (Reached.start.activateAll _)
  have hgiven : ((echoUsed.reset.activateAll (.ofEntries echoEntries) [⟨1, 0, 1⟩]).1.activate
      (.ofEntries echoEntries) ⟨2, 1, 2⟩).2 = [(0, .merge 1 2)] := by
    decide +kernel
  obtain ⟨sound, -, -⟩ := given_sound ⟨echoEntries, rfl⟩ fresh [⟨1, 0, 1⟩] ⟨2, 1, 2⟩
  obtain ⟨other, hother, -, ⟨hlicence, -⟩ | ⟨-, suits⟩⟩ :=
    sound (0, .merge 1 2) (hgiven ▸ List.mem_cons_self)
  · cases hlicence
  · rw [List.mem_singleton.1 hother] at suits
    exact ⟨by decide +kernel, fresh, hgiven, suits⟩

end Licensing

end MergeGrammar
