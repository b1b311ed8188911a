import MergeGrammar.Proofs.Activations
import MergeGrammar.Proofs.GraphGrowth

/-!
# Licences in a larger graph

A word part is activated in a graph and in a larger one that begins with it. In the larger graph its
signal is also announced to new features, but no word part that hosts one of them has been activated.
So nothing is met there, and both activations give the same licences.
-/

namespace MergeGrammar

lemma modify_append_left {α : Type} {xs ys : Array α} {i : Nat} (h : i < xs.size) (f : α → α) :
    (xs ++ ys).modify i f = xs.modify i f ++ ys := by
  refine Array.ext (by simp) fun j _ _ => ?_
  simp only [Array.getElem_modify, Array.getElem_append, Array.size_modify]
  split <;> split <;> first | rfl | omega

lemma modify_append_right {α : Type} {xs ys : Array α} {i : Nat} (h : xs.size ≤ i) (f : α → α) :
    (xs ++ ys).modify i f = xs ++ ys.modify (i - xs.size) f := by
  refine Array.ext (by simp) fun j _ _ => ?_
  simp only [Array.getElem_modify, Array.getElem_append]
  split <;> split <;> first | rfl | omega | (split <;> first | rfl | omega)

namespace Licensing

variable {graph longer : Graph} {state other : Licensing}

/-- The sets of a graph are those that a longer graph begins with. No word part hosts a feature that
only the longer graph has, and none is filed under a category that only this one has. -/
structure Embeds (graph : Graph) (state other : Licensing) : Prop where
  entries_size : state.entries.size = graph.entries.size
  features_size : state.features.size = graph.features.size
  categories_size : state.categories.size = graph.categories.size
  entries : ∃ later, other.entries = state.entries ++ later
  features : ∃ later : Array Activation, other.features = state.features ++ later ∧
    ∀ a ∈ later, a.hosts = ∅
  categories : ∃ later : Array SignalSet, other.categories = state.categories ++ later ∧
    ∀ signals ∈ later, signals = ∅
  merged_eq : other.merged = state.merged
  pairMerged_eq : other.pairMerged = state.pairMerged

lemma embeds_start (begins : graph.Begins longer) : (start graph).Embeds graph (start longer) where
  entries_size := Array.size_replicate
  features_size := Array.size_replicate
  categories_size := Array.size_replicate
  entries := by
    refine ⟨.replicate (longer.entries.size - graph.entries.size) ∅, ?_⟩
    rw [start, start, Array.replicate_append_replicate, Nat.add_sub_cancel' begins.entries_le]
  features := by
    refine ⟨.replicate (longer.features.size - graph.features.size) default, ?_, ?_⟩
    · rw [start, start, Array.replicate_append_replicate, Nat.add_sub_cancel' begins.features_le]
    · intro a ha
      rw [(Array.mem_replicate.1 ha).2]
      rfl
  categories := by
    refine ⟨.replicate (longer.categories.size - graph.categories.size) ∅, ?_, ?_⟩
    · rw [start, start, Array.replicate_append_replicate,
        Nat.add_sub_cancel' begins.categories_le]
    · exact fun signals h => (Array.mem_replicate.1 h).2
  merged_eq := rfl
  pairMerged_eq := rfl

namespace Embeds

variable (h : state.Embeds graph other) {id : FeatureId}
include h

lemma activation_eq (hid : id < graph.features.size) : other.activation id = state.activation id := by
  obtain ⟨later, hlater, -⟩ := h.features
  rw [activation, activation, hlater, Array.getD_eq_getD_getElem?, Array.getD_eq_getD_getElem?,
    Array.getElem?_append_left (h.features_size ▸ hid)]

lemma unhosted (hid : graph.features.size ≤ id) : (other.activation id).hosts = ∅ := by
  obtain ⟨later, hlater, unhosted⟩ := h.features
  rw [activation, hlater, Array.getD_eq_getD_getElem?,
    Array.getElem?_append_right (h.features_size ▸ hid)]
  cases hget : later[id - state.features.size]? with
  | none => rfl
  | some a => exact unhosted a (Array.mem_of_getElem? hget)

lemma modify (hid : id < graph.features.size) (f : Activation → Activation) :
    ({ state with features := state.features.modify id f } : Licensing).Embeds graph
      { other with features := other.features.modify id f } where
  entries_size := h.entries_size
  features_size := Array.size_modify.trans h.features_size
  categories_size := h.categories_size
  entries := h.entries
  features := by
    obtain ⟨later, hlater, unhosted⟩ := h.features
    refine ⟨later, ?_, unhosted⟩
    rw [hlater, modify_append_left (h.features_size ▸ hid)]
  categories := h.categories
  merged_eq := h.merged_eq
  pairMerged_eq := h.pairMerged_eq

lemma modify_later (hid : graph.features.size ≤ id) {f : Activation → Activation}
    (hosts_eq : ∀ a, (f a).hosts = a.hosts) :
    state.Embeds graph { other with features := other.features.modify id f } where
  entries_size := h.entries_size
  features_size := h.features_size
  categories_size := h.categories_size
  entries := h.entries
  features := by
    obtain ⟨later, hlater, unhosted⟩ := h.features
    refine ⟨later.modify (id - state.features.size) f, ?_, fun a ha => ?_⟩
    · rw [hlater, modify_append_right (h.features_size ▸ hid)]
    · obtain ⟨i, hi⟩ := Array.getElem?_of_mem ha
      rw [Array.getElem?_modify] at hi
      split at hi
      · obtain ⟨b, hb, rfl⟩ := Option.map_eq_some_iff.1 hi
        rw [hosts_eq, unhosted b (Array.mem_of_getElem? hb)]
      · exact unhosted a (Array.mem_of_getElem? hi)
  categories := h.categories
  merged_eq := h.merged_eq
  pairMerged_eq := h.pairMerged_eq

end Embeds

/-- Signals sent in both graphs meet the same, at features of the smaller graph. -/
structure Parallel (graph : Graph) (result result' : Licensing × List Meeting) : Prop where
  embeds : result.1.Embeds graph result'.1
  met_eq : result'.2 = result.2
  met_lt : ∀ met ∈ result.2, met.feature < graph.features.size

lemma Parallel.idle (h : state.Embeds graph other) : Parallel graph (state, []) (other, []) :=
  ⟨h, rfl, fun _ hmet => absurd hmet List.not_mem_nil⟩

lemma Parallel.followed {result result' next next' : Licensing × List Meeting}
    (h : Parallel graph result result') (h' : Parallel graph next next') :
    Parallel graph (next.1, result.2 ++ next.2) (next'.1, result'.2 ++ next'.2) where
  embeds := h'.embeds
  met_eq := by rw [h.met_eq, h'.met_eq]
  met_lt met hmet := (List.mem_append.1 hmet).elim (h.met_lt met) (h'.met_lt met)

lemma host_parallel (signal : Signal) (h : state.Embeds graph other) {id : FeatureId}
    (hid : id < graph.features.size) :
    Parallel graph (state.host signal id) (other.host signal id) := by
  rw [host, host, h.activation_eq hid]
  split
  · exact .idle h
  · refine ⟨h.modify hid _, rfl, fun met hmet => ?_⟩
    obtain ⟨x, -, rfl⟩ := List.mem_map.1 hmet
    exact hid

lemma announce_parallel (signal : Signal) (h : state.Embeds graph other) {id : FeatureId}
    (hid : id < graph.features.size) :
    Parallel graph (state.announce signal id) (other.announce signal id) := by
  rw [announce, announce, h.activation_eq hid]
  split
  · exact .idle h
  · refine ⟨h.modify hid _, rfl, fun met hmet => ?_⟩
    obtain ⟨x, -, rfl⟩ := List.mem_map.1 hmet
    exact hid

/-- Nothing is met at a feature that only the longer graph has. -/
lemma announce_later (signal : Signal) (h : state.Embeds graph other) {id : FeatureId}
    (hid : graph.features.size ≤ id) :
    Parallel graph (state, []) (other.announce signal id) := by
  rw [announce, h.unhosted hid]
  split
  · exact .idle h
  · refine ⟨h.modify_later hid ?_, rfl, fun _ hmet => absurd hmet List.not_mem_nil⟩
    exact fun _ => rfl

lemma announceAll_parallel (signal : Signal) (h : state.Embeds graph other) {ids further : List FeatureId}
    (hids : ∀ id ∈ ids, id < graph.features.size)
    (hfurther : ∀ id ∈ further, graph.features.size ≤ id) :
    Parallel graph (state.announceAll signal ids) (other.announceAll signal (ids ++ further)) := by
  induction ids generalizing state other with
  | nil =>
    rw [List.nil_append, announceAll]
    induction further generalizing other with
    | nil => exact .idle h
    | cons id further ih =>
      have first := announce_later signal h (hfurther id List.mem_cons_self)
      exact first.followed (ih (fun i hi => hfurther i (List.mem_cons_of_mem _ hi)) first.embeds)
  | cons id ids ih =>
    have first := announce_parallel signal h (hids id List.mem_cons_self)
    exact first.followed (ih first.embeds fun i hi => hids i (List.mem_cons_of_mem _ hi))

section Reaching

variable (begins : graph.Begins longer) (enclosed : graph.Enclosed)
include begins enclosed

lemma reach_parallel (signal : Signal) (h : state.Embeds graph other) {id : FeatureId}
    (hid : id < graph.features.size) :
    Parallel graph (state.reach graph signal id) (other.reach longer signal id) := by
  obtain ⟨further, hpartners, hfurther⟩ := begins.partners id hid
  rw [reach, reach, begins.feature_eq id hid, hpartners, h.activation_eq hid]
  split
  · split
    · exact .idle h
    · exact announceAll_parallel signal (h.modify hid _) (enclosed.partners_lt id) hfurther
  · exact host_parallel signal h hid

lemma reachAll_parallel (signal : Signal) (h : state.Embeds graph other) {ids : List FeatureId}
    (hids : ∀ id ∈ ids, id < graph.features.size) :
    Parallel graph (state.reachAll graph signal ids) (other.reachAll longer signal ids) := by
  induction ids generalizing state other with
  | nil => exact .idle h
  | cons id ids ih =>
    have first := reach_parallel begins enclosed signal h (hids id List.mem_cons_self)
    exact first.followed (ih first.embeds fun i hi => hids i (List.mem_cons_of_mem _ hi))

end Reaching

lemma Embeds.tag (signal : Signal) (h : state.Embeds graph other) {ids : List CategoryId}
    (hids : ∀ id ∈ ids, id < graph.categories.size) :
    (state.tag signal ids).Embeds graph (other.tag signal ids) := by
  induction ids generalizing state other with
  | nil => exact h
  | cons id ids ih =>
    have hid := hids id List.mem_cons_self
    have tagged : ({ state with categories := state.categories.modify id (·.insert signal) } :
        Licensing).Embeds graph
          { other with categories := other.categories.modify id (·.insert signal) } := by
      obtain ⟨later, hlater, empty⟩ := h.categories
      refine { h with categories_size := Array.size_modify.trans h.categories_size,
                      categories := ⟨later, ?_, empty⟩ }
      rw [hlater, modify_append_left (h.categories_size ▸ hid)]
    exact ih tagged fun i hi => hids i (List.mem_cons_of_mem _ hi)

section Accepting

variable (begins : graph.Begins longer)
include begins

lemma accept_embeds (h : state.Embeds graph other) {met : Meeting}
    (hmet : met.feature < graph.features.size) :
    (state.accept graph met).1.Embeds graph (other.accept longer met).1 ∧
      (other.accept longer met).2 = (state.accept graph met).2 := by
  rw [accept, accept, begins.target_eq _ hmet, h.merged_eq, h.pairMerged_eq]
  split
  · split
    · exact ⟨h, rfl⟩
    · exact ⟨{ h with merged_eq := rfl, pairMerged_eq := rfl }, rfl⟩
  · split
    · exact ⟨h, rfl⟩
    · exact ⟨{ h with merged_eq := rfl, pairMerged_eq := rfl }, rfl⟩
  · exact ⟨h, rfl⟩

lemma acceptAll_embeds (h : state.Embeds graph other) {meetings : List Meeting}
    (hmet : ∀ met ∈ meetings, met.feature < graph.features.size) :
    (state.acceptAll graph meetings).1.Embeds graph (other.acceptAll longer meetings).1 ∧
      (other.acceptAll longer meetings).2 = (state.acceptAll graph meetings).2 := by
  induction meetings generalizing state other with
  | nil => exact ⟨h, rfl⟩
  | cons met meetings ih =>
    obtain ⟨embeds, licence_eq⟩ := accept_embeds begins h (hmet met List.mem_cons_self)
    obtain ⟨rest, licences_eq⟩ := ih embeds fun m hm => hmet m (List.mem_cons_of_mem _ hm)
    refine ⟨rest, ?_⟩
    change (other.accept longer met).2.toList.map (met.feature, ·) ++
      ((other.accept longer met).1.acceptAll longer meetings).2 = _
    rw [licence_eq, licences_eq]
    rfl

end Accepting

/-- Activating a word part that both graphs have gives the same licences. -/
theorem activate_embeds (begins : graph.Begins longer) (enclosed : graph.Enclosed)
    (h : state.Embeds graph other) {part : WordPart} (hpart : part.entry < graph.entries.size) :
    (state.activate graph part).1.Embeds graph (other.activate longer part).1 ∧
      (other.activate longer part).2 = (state.activate graph part).2 := by
  obtain ⟨later, hlater⟩ := h.entries
  have seen : other.entries.getD part.entry ∅ = state.entries.getD part.entry ∅ := by
    rw [hlater, Array.getD_eq_getD_getElem?, Array.getD_eq_getD_getElem?,
      Array.getElem?_append_left (h.entries_size ▸ hpart)]
  by_cases hentered : part.signal ∈ state.entries.getD part.entry ∅
  · rw [activate, activate, if_pos hentered, if_pos (seen ▸ hentered)]
    exact ⟨h, rfl⟩
  · have marked : (state.entered part).Embeds graph (other.entered part) := by
      refine { h with entries_size := Array.size_modify.trans h.entries_size,
                      entries := ⟨later, ?_⟩ }
      rw [entered, entered, hlater, modify_append_left (h.entries_size ▸ hpart)]
    have reached : Parallel graph (state.reached graph part) (other.reached longer part) := by
      rw [Licensing.reached, Licensing.reached, begins.entry_eq hpart]
      exact reachAll_parallel begins enclosed part.signal marked (enclosed.features_lt part.entry)
    have tagged := reached.embeds.tag part.signal (enclosed.categories_lt part.entry)
    rw [activate_of_notMem hentered, activate_of_notMem (seen ▸ hentered), begins.entry_eq hpart,
      reached.met_eq]
    exact acceptAll_embeds begins tagged fun met hmet =>
      reached.met_lt met (List.mem_of_mem_filter hmet)

/-- A category that no word part is filed under is not active. -/
lemma Embeds.activeCategories_eq (begins : graph.Begins longer) (h : state.Embeds graph other) :
    other.activeCategories longer = state.activeCategories graph := by
  obtain ⟨later, hlater, empty⟩ := h.categories
  have named : ∀ (signals : SignalSet) (id : Nat), (signals, id) ∈ state.categories.toList.zipIdx →
      longer.category id = graph.category id := by
    intro signals id hmem
    refine begins.category_eq ?_
    rw [← h.categories_size]
    have hget := List.mk_mem_zipIdx_iff_getElem?.1 hmem
    simpa using (List.getElem?_eq_some_iff.1 hget).1
  rw [activeCategories, activeCategories, hlater, Array.toList_append, List.zipIdx_append,
    List.filterMap_append]
  have hnone : (later.toList.zipIdx (0 + state.categories.toList.length)).filterMap
      (fun x : SignalSet × Nat =>
        if x.1.isEmpty then none else some (longer.category x.2, x.1)) = [] := by
    refine List.filterMap_eq_nil_iff.2 ?_
    rintro ⟨signals, id⟩ hmem
    have hsignals : signals ∈ later := by
      obtain ⟨-, hget⟩ := List.mk_mem_zipIdx_iff_le_and_getElem?_sub.1 hmem
      exact Array.mem_toList_iff.1 (List.mem_of_getElem? hget)
    rw [empty signals hsignals]
    rfl
  rw [hnone, List.append_nil]
  refine List.filterMap_congr ?_
  rintro ⟨signals, id⟩ hmem
  simp only [named signals id hmem]

end Licensing

end MergeGrammar
