import MergeGrammar.Proofs.SearchCoherence

/-!
# Activations

What an activation adds to the sets of a feature, and who meets there, depends only on which features
the word part asks for and which ones it offers to: all of them are reached, and nothing else changes.
Of the meetings that come of it, those whose feature leads to a merge give one licence for each pair
that has none of the kind yet.
-/

namespace MergeGrammar

/-- A negative feature is one of the given ones. -/
def Asks (graph : Graph) (ids : List FeatureId) (id : FeatureId) : Prop :=
  id ∈ ids ∧ (graph.feature id).feature.isPositive = false

/-- A positive feature among the given ones is wired to a feature. -/
def Offers (graph : Graph) (ids : List FeatureId) (id : FeatureId) : Prop :=
  ∃ positive ∈ ids, (graph.feature positive).feature.isPositive = true ∧
    id ∈ (graph.feature positive).partners

lemma asks_append {graph : Graph} {id : FeatureId} (first rest : List FeatureId) :
    Asks graph (first ++ rest) id ↔ Asks graph first id ∨ Asks graph rest id := by
  rw [Asks, List.mem_append, or_and_right]
  rfl

lemma offers_append {graph : Graph} {id : FeatureId} (first rest : List FeatureId) :
    Offers graph (first ++ rest) id ↔ Offers graph first id ∨ Offers graph rest id := by
  simp only [Offers, List.mem_append, or_and_right, exists_or]

namespace Licensing

variable {graph : Graph} {signal : Signal} {state : Licensing}

/-! ### The sets of the features -/

lemma activation_modify {changed : Licensing} {id : FeatureId} {f : Activation → Activation}
    (h : changed.features = state.features.modify id f) (other : FeatureId) :
    changed.activation other = state.activation other ∨
      other = id ∧ changed.activation other = f (state.activation other) := by
  simp only [activation, h, Array.getD_eq_getD_getElem?, Array.getElem?_modify]
  split
  · next heq =>
    cases hget : state.features[other]? with
    | none => exact Or.inl rfl
    | some a => exact Or.inr ⟨heq.symm, rfl⟩
  · exact Or.inl rfl

lemma activation_start (id : FeatureId) : (start graph).activation id = default := by
  simp only [activation, start, Array.getD_eq_getD_getElem?, Array.getElem?_replicate]
  split <;> rfl

lemma activation_reset (state : Licensing) (id : FeatureId) :
    state.reset.activation id = default := by
  simp only [activation, reset, Array.getD_eq_getD_getElem?, Array.getElem?_map]
  cases state.features[id]? <;> rfl

lemma activation_modify_self {changed : Licensing} {id : FeatureId} {f : Activation → Activation}
    (h : changed.features = state.features.modify id f) (hid : id < state.features.size) :
    changed.activation id = f (state.activation id) := by
  simp only [activation, h, Array.getD_eq_getD_getElem?, Array.getElem?_modify,
    Array.getElem?_eq_getElem hid]
  rfl

lemma activation_modify_of_ne {changed : Licensing} {id other : FeatureId}
    {f : Activation → Activation} (h : changed.features = state.features.modify id f)
    (hne : other ≠ id) : changed.activation other = state.activation other :=
  (activation_modify h other).resolve_right fun heq => hne heq.1

lemma activation_of_ge {id : FeatureId} (h : state.features.size ≤ id) :
    state.activation id = default := by
  rw [activation, Array.getD_eq_getD_getElem?, Array.getElem?_eq_none h]
  rfl

lemma activation_congr {changed : Licensing} (h : changed.features = state.features) :
    changed.activation = state.activation := by
  funext id
  rw [activation, activation, h]

/-- A feature that a signal has reached is in use. -/
lemma lt_size_of_reached {id : FeatureId} {x : Signal}
    (h : x ∈ (state.activation id).hosts ∨ x ∈ (state.activation id).announced) :
    id < state.features.size := by
  by_contra hge
  rw [activation_of_ge (Nat.le_of_not_lt hge)] at h
  exact h.elim (SignalSet.not_mem_empty x) (SignalSet.not_mem_empty x)

/-- What comes of sending a signal to features that the word part asks for and to features that it
offers to: the sets grow by this signal alone, and the signal meets those on the other side. -/
structure Spread (graph : Graph) (signal : Signal) (asked offered : FeatureId → Prop) (state : Licensing)
    (result : Licensing × List Meeting) : Prop where
  only_features : result.1 = { state with features := result.1.features }
  size_eq : result.1.features.size = state.features.size
  mem_hosts : ∀ id x, x ∈ (result.1.activation id).hosts ↔
    x ∈ (state.activation id).hosts ∨ x = signal ∧ asked id ∧ id < state.features.size
  announced_mono : ∀ id x, x ∈ (state.activation id).announced →
    x ∈ (result.1.activation id).announced
  announced_new : ∀ id x, x ∈ (result.1.activation id).announced →
    x ∈ (state.activation id).announced ∨
      x = signal ∧ offered id ∧ signal ∉ (state.activation id).hosts
  reached : ∀ id, offered id → id < state.features.size →
    signal ∈ (result.1.activation id).hosts ∨ signal ∈ (result.1.activation id).announced
  met_sound : ∀ met ∈ result.2, met.host ≠ met.announced ∧
    (met.host = signal ∧ asked met.feature ∧
        met.announced ∈ (result.1.activation met.feature).announced ∨
      met.announced = signal ∧ offered met.feature ∧
        signal ∉ (state.activation met.feature).hosts ∧
        met.host ∈ (result.1.activation met.feature).hosts)
  met_host : ∀ id, asked id → signal ∉ (state.activation id).hosts →
    ∀ x ∈ (state.activation id).announced, x ≠ signal → ⟨id, signal, x⟩ ∈ result.2
  met_announced : ∀ id, offered id → signal ∉ (result.1.activation id).hosts →
    signal ∉ (state.activation id).announced →
    ∀ x ∈ (state.activation id).hosts, ⟨id, x, signal⟩ ∈ result.2
  passed_on : ∀ positive x, x ∈ (result.1.activation positive).positive →
    x ∈ (state.activation positive).positive ∨
      x = signal ∧ ∀ id ∈ (graph.feature positive).partners, offered id

namespace Spread

variable {asked asked' offered offered' : FeatureId → Prop} {result : Licensing × List Meeting}

lemma hosts_mono (h : Spread graph signal asked offered state result) {id : FeatureId} {x : Signal}
    (hx : x ∈ (state.activation id).hosts) : x ∈ (result.1.activation id).hosts :=
  (h.mem_hosts id x).2 (Or.inl hx)

/-- The signal is involved in every meeting that it brings about, so all of them count. -/
lemma filter_involves (h : Spread graph signal asked offered state result) :
    result.2.filter (·.involves signal) = result.2 := by
  refine List.filter_eq_self.2 fun met hmet => ?_
  rw [Meeting.involves, Bool.or_eq_true, beq_iff_eq, beq_iff_eq]
  exact (h.met_sound met hmet).2.imp And.left And.left

/-- Features that the signal has reached before do not change anything. -/
lemma idle (hasked : ∀ id, asked id → id < state.features.size →
      signal ∈ (state.activation id).hosts)
    (hoffered : ∀ id, offered id → id < state.features.size →
      signal ∈ (state.activation id).hosts ∨ signal ∈ (state.activation id).announced) :
    Spread graph signal asked offered state (state, []) where
  only_features := rfl
  size_eq := rfl
  mem_hosts id x := by
    refine ⟨Or.inl, ?_⟩
    rintro (hx | ⟨rfl, hid, hlt⟩)
    · exact hx
    · exact hasked id hid hlt
  announced_mono _ _ hx := hx
  announced_new _ _ hx := Or.inl hx
  reached := hoffered
  met_sound _ hmet := absurd hmet List.not_mem_nil
  met_host id hid hnot x hx _ :=
    absurd (hasked id hid (lt_size_of_reached (Or.inr hx))) hnot
  met_announced id hid hhosts hannounced x hx :=
    absurd (hoffered id hid (lt_size_of_reached (Or.inl hx))) (not_or.2 ⟨hhosts, hannounced⟩)
  passed_on _ _ hx := Or.inl hx

lemma congr (h : Spread graph signal asked offered state result) (hasked : ∀ id, asked' id ↔ asked id)
    (hoffered : ∀ id, offered' id ↔ offered id) : Spread graph signal asked' offered' state result := by
  rwa [funext fun id => propext (hasked id), funext fun id => propext (hoffered id)]

/-- One sending after another. -/
lemma trans (h : Spread graph signal asked offered state result) {next : Licensing × List Meeting}
    (h' : Spread graph signal asked' offered' result.1 next) :
    Spread graph signal (fun id => asked id ∨ asked' id) (fun id => offered id ∨ offered' id) state
      (next.1, result.2 ++ next.2) where
  only_features := by
    rw [h'.only_features, h.only_features]
  size_eq := h'.size_eq.trans h.size_eq
  mem_hosts id x := by
    rw [h'.mem_hosts, h.mem_hosts, h.size_eq, or_assoc, ← and_or_left, ← or_and_right]
  announced_mono id x hx := h'.announced_mono id x (h.announced_mono id x hx)
  announced_new id x hx := by
    rcases h'.announced_new id x hx with hx | ⟨rfl, hid, hnot⟩
    · exact (h.announced_new id x hx).imp_right fun ⟨heq, hid, hnot⟩ => ⟨heq, Or.inl hid, hnot⟩
    · exact Or.inr ⟨rfl, Or.inr hid, fun hhost => hnot (h.hosts_mono hhost)⟩
  reached id hid hlt := by
    rcases hid with hid | hid
    · exact (h.reached id hid hlt).imp h'.hosts_mono (h'.announced_mono id signal)
    · exact h'.reached id hid (h.size_eq.symm ▸ hlt)
  met_sound met hmet := by
    rcases List.mem_append.1 hmet with hmet | hmet
    · obtain ⟨hne, hside⟩ := h.met_sound met hmet
      refine ⟨hne, hside.imp ?_ ?_⟩
      · exact fun ⟨heq, hid, hx⟩ => ⟨heq, Or.inl hid, h'.announced_mono _ _ hx⟩
      · exact fun ⟨heq, hid, hnot, hx⟩ => ⟨heq, Or.inl hid, hnot, h'.hosts_mono hx⟩
    · obtain ⟨hne, hside⟩ := h'.met_sound met hmet
      refine ⟨hne, hside.imp ?_ ?_⟩
      · exact fun ⟨heq, hid, hx⟩ => ⟨heq, Or.inr hid, hx⟩
      · exact fun ⟨heq, hid, hnot, hx⟩ => ⟨heq, Or.inr hid, fun hhost => hnot (h.hosts_mono hhost), hx⟩
  -- A feature may be asked for in both sendings: the one that reaches it first meets the others there.
  met_host id hid hnot x hx hne := by
    rw [List.mem_append]
    by_cases hfirst : asked id ∧ id < state.features.size
    · exact Or.inl (h.met_host id hfirst.1 hnot x hx hne)
    · have hnot' : signal ∉ (result.1.activation id).hosts := fun hhost =>
        ((h.mem_hosts id signal).1 hhost).elim hnot fun hnew => hfirst hnew.2
      rcases hid with hid | hid
      · exact Or.inl (h.met_host id hid hnot x hx hne)
      · exact Or.inr (h'.met_host id hid hnot' x (h.announced_mono id x hx) hne)
  met_announced id hid hhosts hannounced x hx := by
    have hhosts' : signal ∉ (result.1.activation id).hosts := fun hhost => hhosts (h'.hosts_mono hhost)
    rw [List.mem_append]
    by_cases hfirst : signal ∈ (result.1.activation id).announced
    · rcases h.announced_new id signal hfirst with hold | ⟨-, hid, -⟩
      · exact absurd hold hannounced
      · exact Or.inl (h.met_announced id hid hhosts' hannounced x hx)
    · rcases hid with hid | hid
      · exact Or.inl (h.met_announced id hid hhosts' hannounced x hx)
      · exact Or.inr (h'.met_announced id hid hhosts hfirst x (h.hosts_mono hx))
  passed_on positive x hx := by
    rcases h'.passed_on positive x hx with hx | ⟨heq, hall⟩
    · exact (h.passed_on positive x hx).imp_right fun ⟨heq, hall⟩ =>
        ⟨heq, fun id hid => Or.inl (hall id hid)⟩
    · exact Or.inr ⟨heq, fun id hid => Or.inr (hall id hid)⟩

end Spread

lemma host_spread (signal : Signal) (state : Licensing) (id : FeatureId) :
    Spread graph signal (· = id) (fun _ => False) state (state.host signal id) := by
  rw [host]
  split
  · next hhost =>
    exact .idle (fun other hother _ => hother ▸ hhost) fun _ hfalse _ => hfalse.elim
  · next hhost =>
    let changed : Licensing := { state with
      features := state.features.modify id fun a => { a with hosts := a.hosts.insert signal } }
    have hfeatures : changed.features = state.features.modify id
        fun a => { a with hosts := a.hosts.insert signal } := rfl
    have hannounced : ∀ other, (changed.activation other).announced =
        (state.activation other).announced := by
      intro other
      rcases activation_modify hfeatures other with heq | ⟨-, heq⟩ <;> rw [heq]
    refine ⟨rfl, Array.size_modify, fun other x => ?_, fun other x hx => ?_, fun other x hx => ?_,
      fun _ hfalse => hfalse.elim, fun met hmet => ?_, ?_, fun _ hfalse => hfalse.elim,
      fun other x hx => Or.inl ?_⟩
    · by_cases hother : other = id
      · subst hother
        by_cases hlt : other < state.features.size
        · rw [activation_modify_self hfeatures hlt, SignalSet.mem_insert]
          simp [hlt, or_comm]
        · have hge : changed.features.size ≤ other := by simpa [changed] using hlt
          rw [activation_of_ge hge, activation_of_ge (Nat.le_of_not_lt hlt)]
          simp [hlt]
      · rw [activation_modify_of_ne hfeatures hother]
        simp [hother]
    · exact (hannounced other).symm ▸ hx
    · exact Or.inl (hannounced other ▸ hx)
    · obtain ⟨x, hx, rfl⟩ := List.mem_map.1 hmet
      obtain ⟨hmem, hne⟩ := List.mem_filter.1 hx
      have hne' : x ≠ signal := by simpa using hne
      exact ⟨hne'.symm, Or.inl ⟨rfl, rfl, (hannounced id).symm ▸ hmem⟩⟩
    · rintro other rfl - x hx hne
      exact List.mem_map.2 ⟨x, List.mem_filter.2 ⟨hx, by simpa using hne⟩, rfl⟩
    · rcases activation_modify hfeatures other with heq | ⟨-, heq⟩ <;> rwa [heq] at hx

lemma announce_spread (signal : Signal) (state : Licensing) (id : FeatureId) :
    Spread graph signal (fun _ => False) (· = id) state (state.announce signal id) := by
  rw [announce]
  split
  · next hreached =>
    exact .idle (fun _ hfalse _ => hfalse.elim) fun other hother _ => hother ▸ hreached
  · next hreached =>
    obtain ⟨hhost, hannounced⟩ := not_or.1 hreached
    let changed : Licensing := { state with
      features := state.features.modify id
        fun a => { a with announced := a.announced.insert signal } }
    have hfeatures : changed.features = state.features.modify id
        fun a => { a with announced := a.announced.insert signal } := rfl
    have hhosts : ∀ other, (changed.activation other).hosts = (state.activation other).hosts := by
      intro other
      rcases activation_modify hfeatures other with heq | ⟨-, heq⟩ <;> rw [heq]
    refine ⟨rfl, Array.size_modify, fun other x => ?_, fun other x hx => ?_, fun other x hx => ?_,
      ?_, fun met hmet => ?_, fun _ hfalse => hfalse.elim, ?_, fun other x hx => Or.inl ?_⟩
    · rw [hhosts other]
      simp
    · rcases activation_modify hfeatures other with heq | ⟨-, heq⟩
      · rwa [heq]
      · rw [heq]
        exact SignalSet.mem_insert.2 (Or.inr hx)
    · rcases activation_modify hfeatures other with heq | ⟨rfl, heq⟩
      · exact Or.inl (heq ▸ hx)
      · rw [heq] at hx
        rcases SignalSet.mem_insert.1 hx with rfl | hx
        · exact Or.inr ⟨rfl, rfl, hhost⟩
        · exact Or.inl hx
    · rintro other rfl hlt
      rw [activation_modify_self hfeatures hlt]
      exact Or.inr (SignalSet.mem_insert.2 (Or.inl rfl))
    · obtain ⟨x, hx, rfl⟩ := List.mem_map.1 hmet
      have hne : x ≠ signal := fun heq => hhost (heq ▸ hx)
      exact ⟨hne, Or.inr ⟨rfl, rfl, hhost, (hhosts id).symm ▸ hx⟩⟩
    · rintro other rfl - - x hx
      exact List.mem_map.2 ⟨x, hx, rfl⟩
    · rcases activation_modify hfeatures other with heq | ⟨-, heq⟩ <;> rwa [heq] at hx

lemma announceAll_spread (signal : Signal) (state : Licensing) (ids : List FeatureId) :
    Spread graph signal (fun _ => False) (· ∈ ids) state (state.announceAll signal ids) := by
  induction ids generalizing state with
  | nil =>
    exact .idle (fun _ hfalse _ => hfalse.elim) fun _ hmem _ => absurd hmem List.not_mem_nil
  | cons id ids ih =>
    have both := (announce_spread signal state id).trans (ih (state.announce signal id).1)
    exact both.congr (fun _ => (or_self_iff).symm) fun _ => List.mem_cons

/-- Marking a positive feature as passed on changes nothing for the negative ones. -/
lemma Spread.of_marked {asked offered : FeatureId → Prop} (marked : Licensing)
    {result : Licensing × List Meeting} {features : Array Activation}
    (hmarked : marked = { state with features }) (size_eq : features.size = state.features.size)
    (hosts_eq : ∀ id, (marked.activation id).hosts = (state.activation id).hosts)
    (announced_eq : ∀ id, (marked.activation id).announced = (state.activation id).announced)
    (marks : ∀ positive x, x ∈ (marked.activation positive).positive →
      x ∈ (state.activation positive).positive ∨
        x = signal ∧ ∀ id ∈ (graph.feature positive).partners, offered id)
    (h : Spread graph signal asked offered marked result) :
    Spread graph signal asked offered state result where
  only_features := by
    rw [h.only_features, hmarked]
  size_eq := h.size_eq.trans (by rw [hmarked, size_eq])
  mem_hosts id x := by
    rw [h.mem_hosts, hosts_eq, hmarked, size_eq]
  announced_mono id x hx := h.announced_mono id x (announced_eq id ▸ hx)
  announced_new id x hx := by
    rw [← announced_eq, ← hosts_eq]
    exact h.announced_new id x hx
  reached id hid hlt := h.reached id hid (by rwa [hmarked, size_eq])
  met_sound met hmet := by
    rw [← hosts_eq]
    exact h.met_sound met hmet
  met_host id hid hnot x hx hne := by
    rw [← announced_eq] at hx
    rw [← hosts_eq] at hnot
    exact h.met_host id hid hnot x hx hne
  met_announced id hid hhosts hannounced x hx := by
    rw [← hosts_eq] at hx
    rw [← announced_eq] at hannounced
    exact h.met_announced id hid hhosts hannounced x hx
  passed_on positive x hx := (h.passed_on positive x hx).elim (marks positive x) Or.inr

/-- Once a positive feature has passed a signal on, the signal has reached all its partners. -/
def PassedOn (graph : Graph) (state : Licensing) : Prop :=
  ∀ positive x, x ∈ (state.activation positive).positive →
    ∀ id ∈ (graph.feature positive).partners, id < state.features.size →
      x ∈ (state.activation id).hosts ∨ x ∈ (state.activation id).announced

lemma passedOn_of_unreached (unreached : ∀ id, state.activation id = default) :
    state.PassedOn graph := by
  intro positive x hx
  rw [unreached] at hx
  exact absurd hx (SignalSet.not_mem_empty x)

lemma passedOn_start : (start graph).PassedOn graph := passedOn_of_unreached activation_start

lemma PassedOn.of_spread (passed : state.PassedOn graph) {asked offered : FeatureId → Prop}
    {result : Licensing × List Meeting} (h : Spread graph signal asked offered state result) :
    result.1.PassedOn graph := by
  intro positive x hx id hid hlt
  rw [h.size_eq] at hlt
  rcases h.passed_on positive x hx with hx | ⟨rfl, hall⟩
  · exact (passed positive x hx id hid hlt).imp h.hosts_mono (h.announced_mono id x)
  · exact h.reached id (hall id hid) hlt

lemma reach_spread (passed : state.PassedOn graph) (signal : Signal) (id : FeatureId) :
    Spread graph signal (Asks graph [id]) (Offers graph [id]) state
      (state.reach graph signal id) := by
  rw [reach]
  cases hpositive : (graph.feature id).feature.isPositive with
  | false =>
    refine (host_spread signal state id).congr (fun other => ?_) fun other => ?_
    · rw [Asks, List.mem_singleton]
      exact ⟨And.left, fun heq => ⟨heq, heq ▸ hpositive⟩⟩
    · refine iff_of_false ?_ not_false
      rintro ⟨positive, hmem, htrue, -⟩
      rw [List.mem_singleton.1 hmem, hpositive] at htrue
      cases htrue
  | true =>
    have hasked : ∀ other, Asks graph [id] other ↔ False := by
      refine fun other => iff_of_false ?_ not_false
      rintro ⟨hmem, hfalse⟩
      rw [List.mem_singleton.1 hmem, hpositive] at hfalse
      cases hfalse
    have hoffered : ∀ other, Offers graph [id] other ↔ other ∈ (graph.feature id).partners := by
      intro other
      rw [Offers]
      simp [hpositive]
    rw [if_pos rfl]
    split
    · next hmarked =>
      exact (Spread.idle (fun _ hfalse _ => hfalse.elim) (passed id signal hmarked)).congr
        hasked hoffered
    · let marked : Licensing := { state with
        features := state.features.modify id fun a =>
          { a with positive := a.positive.insert signal } }
      have hfeatures : marked.features = state.features.modify id fun a =>
          { a with positive := a.positive.insert signal } := rfl
      refine Spread.congr (.of_marked marked rfl Array.size_modify (fun other => ?_)
        (fun other => ?_) (fun other x hx => ?_) (announceAll_spread signal marked _))
        hasked hoffered
      · rcases activation_modify hfeatures other with heq | ⟨-, heq⟩ <;> rw [heq]
      · rcases activation_modify hfeatures other with heq | ⟨-, heq⟩ <;> rw [heq]
      · rcases activation_modify hfeatures other with heq | ⟨rfl, heq⟩
        · exact Or.inl (heq ▸ hx)
        · rw [heq] at hx
          rcases SignalSet.mem_insert.1 hx with rfl | hx
          · exact Or.inr ⟨rfl, fun _ hid => hid⟩
          · exact Or.inl hx

lemma reachAll_append (signal : Signal) (state : Licensing) (first rest : List FeatureId) :
    state.reachAll graph signal (first ++ rest) =
      (((state.reachAll graph signal first).1.reachAll graph signal rest).1,
        (state.reachAll graph signal first).2 ++
          ((state.reachAll graph signal first).1.reachAll graph signal rest).2) := by
  induction first generalizing state with
  | nil => simp [reachAll]
  | cons id first ih => simp [reachAll, ih]

lemma reachAll_spread (passed : state.PassedOn graph) (signal : Signal) (ids : List FeatureId) :
    Spread graph signal (Asks graph ids) (Offers graph ids) state
      (state.reachAll graph signal ids) := by
  induction ids generalizing state with
  | nil =>
    refine .idle ?_ ?_
    · exact fun _ hasked _ => absurd hasked.1 List.not_mem_nil
    · rintro _ ⟨_, hmem, -⟩
      exact absurd hmem List.not_mem_nil
  | cons id ids ih =>
    have first := reach_spread passed signal id
    -- Every feature reached restores the invariant that the next one relies on.
    have both := first.trans (ih (passed.of_spread first))
    exact both.congr (fun other => asks_append [id] ids) fun other => offers_append [id] ids

end Licensing

namespace Licence

def of : MergeKind → Signal → Signal → Licence
  | .merge => merge
  | .pairMerge => adjunction

@[simp] lemma kind_of (kind : MergeKind) (s t : Signal) : (of kind s t).kind = kind := by
  cases kind <;> rfl

@[simp] lemma upper_of (kind : MergeKind) (s t : Signal) : (of kind s t).upper = s := by
  cases kind <;> rfl

@[simp] lemma lower_of (kind : MergeKind) (s t : Signal) : (of kind s t).lower = t := by
  cases kind <;> rfl

lemma of_kind (licence : Licence) : of licence.kind licence.upper licence.lower = licence := by
  cases licence <;> rfl

end Licence

/-- What the feature at which two word parts met leads to. -/
def Meeting.licence? (graph : Graph) (met : Meeting) : Option Licence :=
  (graph.feature met.feature).target.map fun kind => .of kind met.host met.announced

lemma Meeting.licence?_eq_some {graph : Graph} {met : Meeting} {licence : Licence} :
    met.licence? graph = some licence ↔
      (graph.feature met.feature).target = some licence.kind ∧
      licence.upper = met.host ∧ licence.lower = met.announced := by
  rw [licence?, Option.map_eq_some_iff]
  constructor
  · rintro ⟨kind, hkind, rfl⟩
    simp [hkind]
  · rintro ⟨hkind, hupper, hlower⟩
    refine ⟨licence.kind, hkind, ?_⟩
    rw [← hupper, ← hlower, Licence.of_kind]

namespace Licensing

variable {graph : Graph} {state : Licensing}

def Granted (state : Licensing) : Licence → Prop
  | .merge head arg => (head, arg) ∈ state.merged
  | .adjunction host adjunct => (host, adjunct) ∈ state.pairMerged

lemma not_granted_start (licence : Licence) : ¬ (start graph).Granted licence := by
  cases licence <;> exact List.not_mem_nil

/-- A meeting is passed over if its feature leads to nothing or its licence has been granted. -/
lemma accept_cases (graph : Graph) (state : Licensing) (met : Meeting) :
    (∃ licence, met.licence? graph = some licence ∧ ¬ state.Granted licence ∧
      (state.accept graph met).2 = some licence ∧
      ∀ other, (state.accept graph met).1.Granted other ↔ other = licence ∨ state.Granted other) ∨
    (∀ licence, met.licence? graph = some licence → state.Granted licence) ∧
      state.accept graph met = (state, none) := by
  rw [accept, Meeting.licence?]
  cases (graph.feature met.feature).target with
  | none => exact Or.inr ⟨(fun _ h => nomatch h), rfl⟩
  | some kind =>
    cases kind with
    | merge =>
      by_cases hpair : (met.host, met.announced) ∈ state.merged
      · refine Or.inr ⟨fun licence h => ?_, if_pos hpair⟩
        cases h
        exact hpair
      · refine Or.inl ⟨_, rfl, hpair, ?_⟩
        dsimp only
        rw [if_neg hpair]
        refine ⟨rfl, fun other => ?_⟩
        cases other <;> simp [Granted, Licence.of]
    | pairMerge =>
      by_cases hpair : (met.host, met.announced) ∈ state.pairMerged
      · refine Or.inr ⟨fun licence h => ?_, if_pos hpair⟩
        cases h
        exact hpair
      · refine Or.inl ⟨_, rfl, hpair, ?_⟩
        dsimp only
        rw [if_neg hpair]
        refine ⟨rfl, fun other => ?_⟩
        cases other <;> simp [Granted, Licence.of]

lemma accept_keeps (graph : Graph) (state : Licensing) (met : Meeting) :
    (state.accept graph met).1.features = state.features ∧
    (state.accept graph met).1.entries = state.entries := by
  rw [accept]
  split
  · split <;> exact ⟨rfl, rfl⟩
  · split <;> exact ⟨rfl, rfl⟩
  · exact ⟨rfl, rfl⟩

/-- What comes of several meetings: each licence they lead to is granted afterwards, and those that
were not granted before are given once. -/
structure Accepts (graph : Graph) (state : Licensing) (meetings : List Meeting)
    (result : Licensing × List (FeatureId × Licence)) : Prop where
  features_eq : result.1.features = state.features
  entries_eq : result.1.entries = state.entries
  granted_iff : ∀ licence, result.1.Granted licence ↔
    state.Granted licence ∨ licence ∈ result.2.map Prod.snd
  from_meeting : ∀ given ∈ result.2, ¬ state.Granted given.2 ∧
    ∃ met ∈ meetings, met.feature = given.1 ∧ met.licence? graph = some given.2
  grants : ∀ met ∈ meetings, ∀ licence, met.licence? graph = some licence → result.1.Granted licence
  nodup : (result.2.map Prod.snd).Nodup

lemma acceptAll_accepts (graph : Graph) (state : Licensing) (meetings : List Meeting) :
    Accepts graph state meetings (state.acceptAll graph meetings) := by
  induction meetings generalizing state with
  | nil => exact ⟨rfl, rfl, by simp [acceptAll], by simp [acceptAll], by simp, List.nodup_nil⟩
  | cons met meetings ih =>
    rw [acceptAll]
    dsimp only
    rcases accept_cases graph state met with
      ⟨licence, hmet, hnew, hgiven, hgranted⟩ | ⟨hold, heq⟩
    · have rest := ih (state.accept graph met).1
      have keeps := accept_keeps graph state met
      rw [hgiven]
      refine ⟨rest.features_eq.trans keeps.1, rest.entries_eq.trans keeps.2, fun other => ?_,
        fun given hmem => ?_, fun other hmem found hfound => ?_, List.nodup_cons.2 ⟨?_, rest.nodup⟩⟩
      · simp only [rest.granted_iff, hgranted, Option.toList_some, List.map_cons, List.map_nil,
          List.cons_append, List.nil_append, List.mem_cons]
        rw [or_assoc, or_left_comm]
      · rcases List.mem_cons.1 hmem with rfl | hmem
        · exact ⟨hnew, met, List.mem_cons_self, rfl, hmet⟩
        · obtain ⟨hnot, other, hother, hfound⟩ := rest.from_meeting given hmem
          exact ⟨fun hgiven => hnot ((hgranted _).2 (Or.inr hgiven)), other,
            List.mem_cons_of_mem _ hother, hfound⟩
      · rcases List.mem_cons.1 hmem with rfl | hmem
        · rw [hmet] at hfound
          cases hfound
          exact (rest.granted_iff _).2 (Or.inl ((hgranted _).2 (Or.inl rfl)))
        · exact rest.grants other hmem found hfound
      · rw [List.mem_map]
        rintro ⟨given, hmem, rfl⟩
        exact (rest.from_meeting given hmem).1 ((hgranted _).2 (Or.inl rfl))
    · have rest := ih state
      rw [heq]
      refine ⟨rest.features_eq, rest.entries_eq, rest.granted_iff, fun given hmem => ?_,
        fun other hmem found hfound => ?_, rest.nodup⟩
      · obtain ⟨hnot, other, hother, hfound⟩ := rest.from_meeting given hmem
        exact ⟨hnot, other, List.mem_cons_of_mem _ hother, hfound⟩
      · rcases List.mem_cons.1 hmem with rfl | hmem
        · exact (rest.granted_iff _).2 (Or.inl (hold found hfound))
        · exact rest.grants other hmem found hfound

/-- Tagging categories has nothing to do with licences. -/
lemma Accepts.of_tag {signal : Signal} {ids : List CategoryId} {meetings : List Meeting}
    {result : Licensing × List (FeatureId × Licence)}
    (h : Accepts graph (state.tag signal ids) meetings result) :
    Accepts graph state meetings result := by
  have hgranted : ∀ licence, (state.tag signal ids).Granted licence ↔ state.Granted licence := by
    intro licence
    cases licence <;> exact Iff.rfl
  refine ⟨h.features_eq, h.entries_eq, fun licence => ?_, fun given hgiven => ?_, h.grants, h.nodup⟩
  · rw [h.granted_iff, hgranted]
  · rw [← hgranted]
    exact h.from_meeting given hgiven

/-- The state in which the features of a word part are reached. -/
def entered (state : Licensing) (part : WordPart) : Licensing :=
  { state with entries := state.entries.modify part.entry (·.insert part.signal) }

/-- The state in which the features of a word part have been reached, with what met there. -/
def reached (graph : Graph) (state : Licensing) (part : WordPart) : Licensing × List Meeting :=
  (state.entered part).reachAll graph part.signal (graph.entry part.entry).features

lemma PassedOn.entered (passed : state.PassedOn graph) (part : WordPart) :
    (state.entered part).PassedOn graph := passed

/-- The features of a word part have been reached, and what met there is licensed. -/
structure Activates (graph : Graph) (state : Licensing) (part : WordPart)
    (reached : Licensing × List Meeting) (result : Licensing × List (FeatureId × Licence)) : Prop where
  reached_eq : reached =
    (state.entered part).reachAll graph part.signal (graph.entry part.entry).features
  spread : Spread graph part.signal (Asks graph (graph.entry part.entry).features)
    (Offers graph (graph.entry part.entry).features) (state.entered part) reached
  accepts : Accepts graph reached.1 reached.2 result

lemma reached_spread (passed : state.PassedOn graph) (part : WordPart) :
    Spread graph part.signal (Asks graph (graph.entry part.entry).features)
      (Offers graph (graph.entry part.entry).features) (state.entered part)
      (state.reached graph part) :=
  reachAll_spread (passed.entered part) part.signal (graph.entry part.entry).features

lemma activate_of_notMem {part : WordPart}
    (hfresh : part.signal ∉ state.entries.getD part.entry ∅) : state.activate graph part =
      ((state.reached graph part).1.tag part.signal (graph.entry part.entry).categories).acceptAll
        graph ((state.reached graph part).2.filter (·.involves part.signal)) := by
  rw [activate, if_neg hfresh]
  rfl

/-- An activation that has not happened before takes up everything that its signal brings about. -/
lemma activate_eq (passed : state.PassedOn graph) {part : WordPart}
    (hfresh : part.signal ∉ state.entries.getD part.entry ∅) : state.activate graph part =
      ((state.reached graph part).1.tag part.signal (graph.entry part.entry).categories).acceptAll
        graph (state.reached graph part).2 := by
  rw [activate_of_notMem hfresh, (reached_spread passed part).filter_involves]

/-- An activation that has happened before does nothing, another one reaches the features. -/
lemma activate_cases (passed : state.PassedOn graph) (part : WordPart) :
    (part.signal ∈ state.entries.getD part.entry ∅ ∧ state.activate graph part = (state, [])) ∨
      part.signal ∉ state.entries.getD part.entry ∅ ∧
        ∃ reached, Activates graph state part reached (state.activate graph part) := by
  by_cases hentered : part.signal ∈ state.entries.getD part.entry ∅
  · exact Or.inl ⟨hentered, by rw [activate, if_pos hentered]⟩
  · rw [activate_eq passed hentered]
    exact Or.inr ⟨hentered, _, rfl, reached_spread passed part,
      (acceptAll_accepts graph _ _).of_tag⟩

namespace Activates

variable {part : WordPart} {reached : Licensing × List Meeting}
  {result : Licensing × List (FeatureId × Licence)}

/-- Reaching features grants nothing. -/
lemma granted_iff (h : Activates graph state part reached result) (licence : Licence) :
    reached.1.Granted licence ↔ state.Granted licence := by
  rw [h.spread.only_features]
  cases licence <;> rfl

lemma entries_eq (h : Activates graph state part reached result) :
    result.1.entries = (state.entered part).entries := by
  rw [h.accepts.entries_eq, h.spread.only_features]

lemma size_entries (h : Activates graph state part reached result) :
    result.1.entries.size = state.entries.size := by
  rw [h.entries_eq]
  exact Array.size_modify

lemma size_features (h : Activates graph state part reached result) :
    result.1.features.size = state.features.size := by
  rw [h.accepts.features_eq, h.spread.size_eq]
  rfl

lemma activation_eq (h : Activates graph state part reached result) :
    result.1.activation = reached.1.activation :=
  activation_congr h.accepts.features_eq

lemma passedOn (h : Activates graph state part reached result) (passed : state.PassedOn graph) :
    result.1.PassedOn graph := by
  have passed_reached := (passed.entered part).of_spread h.spread
  rwa [PassedOn, h.activation_eq, h.accepts.features_eq]

end Activates

end Licensing

end MergeGrammar
