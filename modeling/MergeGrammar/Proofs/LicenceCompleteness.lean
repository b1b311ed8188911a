import Mathlib.Data.List.Nodup
import MergeGrammar.Proofs.LicenceRuns
import MergeGrammar.Proofs.WrittenFeatures

/-!
# Which pairs are licensed

In a graph of a written lexicon every word part reaches the features it asks for before those it
offers to. When all signals differ, two word parts therefore meet at every feature that one of them
asks for and the other one offers to, with one exception: a word part that asks for a feature itself
is not announced to its other hosts.
-/

namespace MergeGrammar

variable {graph : Graph}

/-- Every word part has the features it asks for before those it offers, and all are in use. -/
structure Graph.Regular (graph : Graph) : Prop where
  asks_first : ∀ entry, ∃ asked offered, (graph.entry entry).features = asked ++ offered ∧
    (∀ id ∈ asked, (graph.feature id).feature.isPositive = false) ∧
    ∀ id ∈ offered, (graph.feature id).feature.isPositive = true
  in_use : ∀ entry, ∀ id ∈ (graph.entry entry).features, id < graph.features.size

lemma Graph.regular_ofEntries {entries : List Entry} (written : Written entries) :
    (ofEntries entries).Regular :=
  ⟨features_ofEntries written, fun _ _ => lt_size_of_mem_features⟩

/-- A word part that asks for a feature meets one that offers to it without asking for it. -/
def WordPart.Meets (graph : Graph) (id : FeatureId) (host partner : WordPart) : Prop :=
  host.Asks graph id ∧ partner.Offers graph id ∧ ¬ partner.Asks graph id

namespace Licensing

variable {state : Licensing} {parts : List WordPart} {part : WordPart}

/-- Nobody has been announced to a feature that they ask for. -/
def Parted (graph : Graph) (parts : List WordPart) (state : Licensing) : Prop :=
  ∀ part ∈ parts, ∀ id, part.signal ∈ (state.activation id).announced → ¬ part.Asks graph id

section Step

variable (regular : graph.Regular) (h : state.Tracks graph parts)
  (fresh : ∀ earlier ∈ parts, earlier.signal ≠ part.signal)
  {reached : Licensing × List Meeting} {result : Licensing × List (FeatureId × Licence)}
  (activates : Activates graph state part reached result)
include regular h fresh activates

/-- A word part reaches what it asks for before it is announced anywhere. -/
lemma announced_last :
    (∀ id, part.signal ∈ (reached.1.activation id).announced → ¬ part.Asks graph id) ∧
      ∀ met ∈ reached.2, met.announced = part.signal → ¬ part.Asks graph met.feature := by
  obtain ⟨asked, offered, hfeatures, hasked, hoffered⟩ := regular.asks_first part.entry
  have hreached := activates.reached_eq
  rw [hfeatures, reachAll_append] at hreached
  have passed := h.passed.entered part
  have first := reachAll_spread passed part.signal asked
  have rest := reachAll_spread (passed.of_spread first) part.signal offered
  have not_offers : ∀ id, ¬ Offers graph asked id := by
    rintro id ⟨positive, hmem, htrue, -⟩
    rw [hasked positive hmem] at htrue
    cases htrue
  have hosted : ∀ id < state.features.size, part.Asks graph id → part.signal ∈
      (((state.entered part).reachAll graph part.signal asked).1.activation id).hosts := by
    rintro id hlt ⟨hmem, hfalse⟩
    refine (first.mem_hosts id _).2 (Or.inr ⟨rfl, ⟨?_, hfalse⟩, hlt⟩)
    rw [hfeatures, List.mem_append] at hmem
    refine hmem.resolve_right fun hmem => ?_
    rw [hoffered id hmem] at hfalse
    cases hfalse
  have hsize : reached.1.features.size = state.features.size := by
    rw [hreached]
    exact rest.size_eq.trans first.size_eq
  refine ⟨fun id hx asks => ?_, fun met hmet hannounced asks => ?_⟩
  · have hlt := hsize ▸ lt_size_of_reached (Or.inr hx)
    rw [hreached] at hx
    rcases rest.announced_new id _ hx with hx | ⟨-, -, hnot⟩
    · rcases first.announced_new id _ hx with hx | ⟨-, hid, -⟩
      · exact (h.unreached fresh id).2 hx
      · exact not_offers id hid
    · exact hnot (hosted id hlt asks)
  · rw [hreached, List.mem_append] at hmet
    rcases hmet with hmet | hmet
    · obtain ⟨hne, ⟨hhost, -⟩ | ⟨-, hid, -⟩⟩ := first.met_sound met hmet
      · exact hne (hhost.trans hannounced.symm)
      · exact not_offers met.feature hid
    · obtain ⟨hne, ⟨hhost, -⟩ | ⟨-, -, hnot, hhost⟩⟩ := rest.met_sound met hmet
      · exact hne (hhost.trans hannounced.symm)
      · have hlt : met.feature < reached.1.features.size := by
          rw [hreached]
          exact lt_size_of_reached (Or.inl hhost)
        exact hnot (hosted met.feature (hsize ▸ hlt) asks)

lemma Parted.push (parted : state.Parted graph parts) :
    result.1.Parted graph (parts ++ [part]) := by
  intro p hp id hx
  rw [activates.activation_eq] at hx
  rcases List.mem_append.1 hp with hp | hp
  · rcases activates.spread.announced_new id _ hx with hx | ⟨heq, -⟩
    · exact parted p hp id hx
    · exact absurd heq (fresh p hp)
  · rw [List.mem_singleton.1 hp] at hx ⊢
    exact (announced_last regular h fresh activates).1 id hx

section Other

variable (parted : state.Parted graph parts) (distinct : (parts.map WordPart.signal).Nodup)
  {other : WordPart} (hother : other ∈ parts) (id : FeatureId)
include parted distinct hother

/-- Whom the word part just activated meets as a host. -/
lemma mem_meetings_host_iff :
    ⟨id, part.signal, other.signal⟩ ∈ reached.2 ↔ part.Meets graph id other := by
  have hne := fresh other hother
  constructor
  · intro hmet
    obtain ⟨-, ⟨-, asks, hx⟩ | ⟨heq, -⟩⟩ := activates.spread.met_sound _ hmet
    · rcases activates.spread.announced_new id _ hx with hx | ⟨heq, -⟩
      · obtain ⟨p, hp, hsignal, offers⟩ := h.announced id _ hx
        rw [List.inj_on_of_nodup_map distinct hp hother hsignal] at offers
        exact ⟨asks, offers, parted other hother id hx⟩
      · exact absurd heq hne
    · exact absurd heq hne
  · rintro ⟨asks, offers, hnot⟩
    refine activates.spread.met_host id asks (h.unreached fresh id).1 _ ?_ hne
    have hlt := regular.in_use part.entry id asks.1
    refine (h.reached other hother id hlt offers).resolve_left fun hx => ?_
    obtain ⟨-, p, hp, hsignal, asks'⟩ := (h.hosts id _).1 hx
    rw [List.inj_on_of_nodup_map distinct hp hother hsignal] at asks'
    exact hnot asks'

omit parted in
/-- Whom the word part just activated meets when it is announced. -/
lemma mem_meetings_announced_iff :
    ⟨id, other.signal, part.signal⟩ ∈ reached.2 ↔ other.Meets graph id part := by
  have hne := fresh other hother
  constructor
  · intro hmet
    have hnot := (announced_last regular h fresh activates).2 _ hmet rfl
    obtain ⟨-, ⟨heq, -⟩ | ⟨-, offers, -, hx⟩⟩ := activates.spread.met_sound _ hmet
    · exact absurd heq hne
    · rcases (activates.spread.mem_hosts id _).1 hx with hx | ⟨heq, -⟩
      · obtain ⟨-, p, hp, hsignal, asks⟩ := (h.hosts id _).1 hx
        rw [List.inj_on_of_nodup_map distinct hp hother hsignal] at asks
        exact ⟨asks, offers, hnot⟩
      · exact absurd heq hne
  · rintro ⟨asks, offers, hnot⟩
    refine activates.spread.met_announced id offers ?_ (h.unreached fresh id).2 _ ?_
    · intro hx
      exact ((activates.spread.mem_hosts id _).1 hx).elim (h.unreached fresh id).1
        fun hnew => hnot hnew.2.1
    · exact (h.hosts id _).2 ⟨regular.in_use other.entry id asks.1, other, hother, rfl, asks⟩

end Other

end Step

lemma distinct_concat (distinct : ((parts ++ [part]).map WordPart.signal).Nodup) :
    (parts.map WordPart.signal).Nodup ∧ ∀ earlier ∈ parts, earlier.signal ≠ part.signal := by
  rw [List.map_append, List.nodup_append] at distinct
  exact ⟨distinct.1, fun earlier hearlier =>
    distinct.2.2 _ (List.mem_map_of_mem hearlier) _ (List.mem_singleton.2 rfl)⟩

lemma parted_run (regular : graph.Regular) (distinct : (parts.map WordPart.signal).Nodup) :
    (after graph parts).Parted graph parts := by
  induction parts using List.reverseRecOn with
  | nil => exact fun _ hpart => absurd hpart List.not_mem_nil
  | append_singleton parts part ih =>
    obtain ⟨distinct, fresh⟩ := distinct_concat distinct
    have tracks := (records_run graph parts).tracks
    obtain ⟨reached, activates⟩ := tracks.activate_fresh fresh
    have parted := Parted.push regular tracks fresh activates (ih distinct)
    rwa [after, activateAll_concat]

lemma suits_apart_iff (wired : ∃ entries, graph = .ofEntries entries) {kind : MergeKind}
    {host partner : WordPart} :
    (∃ id, Suits graph id kind host partner ∧ id ∉ (graph.entry partner.entry).features) ↔
      ∃ id, (graph.feature id).target = some kind ∧ host.Meets graph id partner := by
  refine exists_congr fun id => ?_
  rw [suits_iff wired, WordPart.Meets, and_assoc, and_assoc]
  refine and_congr_right fun _ => and_congr_right fun asks => and_congr_right fun _ => not_congr ?_
  exact ⟨fun hid => ⟨hid, asks.2⟩, And.left⟩

/-- What was not granted before is given exactly if two word parts meet that it names. -/
lemma mem_given_iff (fresh : ∀ earlier ∈ parts, earlier.signal ≠ part.signal)
    {reached : Licensing × List Meeting}
    (activates : Activates graph (after graph parts) part reached
      ((after graph parts).activate graph part))
    {kind : MergeKind} {s t : Signal} (hnew : s = part.signal ∨ t = part.signal) :
    (∃ id, (id, Licence.of kind s t) ∈ given graph parts part) ↔
      ∃ id, (graph.feature id).target = some kind ∧ ⟨id, s, t⟩ ∈ reached.2 := by
  constructor
  · rintro ⟨id, hgiven⟩
    obtain ⟨-, met, hmet, -, hlicence⟩ := activates.accepts.from_meeting _ hgiven
    obtain ⟨hkind, hupper, hlower⟩ := Meeting.licence?_eq_some.1 hlicence
    simp only [Licence.kind_of, Licence.upper_of, Licence.lower_of] at hkind hupper hlower
    subst hupper hlower
    exact ⟨met.feature, hkind, hmet⟩
  · rintro ⟨id, hkind, hmet⟩
    have hlicence : Meeting.licence? graph ⟨id, s, t⟩ = some (.of kind s t) := by
      rw [Meeting.licence?, hkind]
      rfl
    have hgranted := activates.accepts.grants _ hmet _ hlicence
    rw [activates.accepts.granted_iff, activates.granted_iff] at hgranted
    rcases hgranted with hold | hgiven
    · obtain ⟨granted, hmem, heq⟩ :=
        List.mem_map.1 (((records_run graph parts).granted_iff _).1 hold)
      obtain ⟨⟨p, hp, hupper⟩, q, hq, hlower⟩ := (records_run graph parts).activated _ hmem
      rw [heq, Licence.upper_of] at hupper
      rw [heq, Licence.lower_of] at hlower
      rcases hnew with hs | ht
      · exact absurd (hupper.trans hs) (fresh p hp)
      · exact absurd (hlower.trans ht) (fresh q hq)
    · obtain ⟨⟨id, licence⟩, hmem, rfl⟩ := List.mem_map.1 hgiven
      exact ⟨id, hmem⟩

/-- In a graph of a written lexicon, with signals that all differ, an activation licenses the word part
with an earlier one exactly if the features of the two suit each other at a feature that the partner
does not ask for as well. -/
theorem licensed_iff {text : String} {lexicon : Lexicon} (parsed : Lexicon.parse text = .ok lexicon)
    (spells : graph.Spells lexicon) (parts : List WordPart) (part : WordPart)
    (distinct : ((parts ++ [part]).map WordPart.signal).Nodup)
    {other : WordPart} (hother : other ∈ parts) (kind : MergeKind) :
    ((∃ id, (id, Licence.of kind part.signal other.signal) ∈ given graph parts part) ↔
      ∃ id, Suits graph id kind part other ∧ id ∉ (graph.entry other.entry).features) ∧
    ((∃ id, (id, Licence.of kind other.signal part.signal) ∈ given graph parts part) ↔
      ∃ id, Suits graph id kind other part ∧ id ∉ (graph.entry part.entry).features) := by
  obtain ⟨entries, rfl, hsubset⟩ := spells.exists_entries
  have regular : (Graph.ofEntries entries).Regular :=
    Graph.regular_ofEntries fun entry hentry =>
      Lexicon.written_of_parse parsed entry (hsubset hentry)
  obtain ⟨distinct, fresh⟩ := distinct_concat distinct
  have tracks := (records_run (Graph.ofEntries entries) parts).tracks
  obtain ⟨reached, activates⟩ := tracks.activate_fresh fresh
  constructor
  · rw [mem_given_iff fresh activates (Or.inl rfl), suits_apart_iff ⟨entries, rfl⟩]
    exact exists_congr fun id => and_congr_right fun _ => mem_meetings_host_iff regular tracks fresh
      activates (parted_run regular distinct) distinct hother id
  · rw [mem_given_iff fresh activates (Or.inr rfl), suits_apart_iff ⟨entries, rfl⟩]
    exact exists_congr fun id => and_congr_right fun _ => mem_meetings_announced_iff regular tracks
      fresh activates distinct hother id

def echoText : String := "b :: =N\nn :: N\necho :: =N N\n"

def echoLexicon : Lexicon := ⟨echoEntries, by decide⟩

lemma echo_parsed : Lexicon.parse echoText = .ok echoLexicon := by
  have hentries : Lexicon.readEntries ((Text.lines echoText.toList).zipIdx 1) = .ok echoEntries := by
    decide +kernel
  rw [Lexicon.parse, hentries]
  rfl

/-- The noun is licensed as the argument of the word after it, which asks for its own category. -/
theorem echo_takes_noun :
    ∃ id, (id, Licence.merge 2 1) ∈ given (.build echoLexicon) [⟨1, 1, 1⟩] ⟨2, 2, 2⟩ := by
  have suits : Suits (.build echoLexicon) 0 .merge ⟨2, 2, 2⟩ ⟨1, 1, 1⟩ := by decide +kernel
  have licensed := licensed_iff echo_parsed .all [⟨1, 1, 1⟩] ⟨2, 2, 2⟩
    (by decide) List.mem_cons_self .merge
  exact licensed.1.2 ⟨0, suits, by decide +kernel⟩

/-- That word has the category that the first word asks for, but is not licensed as its argument,
because it is a host of the same feature. -/
theorem echo_unlicensed :
    Lexicon.parse echoText = .ok echoLexicon ∧ (Graph.build echoLexicon).Spells echoLexicon ∧
      Suits (.build echoLexicon) 0 .merge ⟨1, 0, 1⟩ ⟨2, 2, 2⟩ ∧
      given (.build echoLexicon) [⟨1, 0, 1⟩] ⟨2, 2, 2⟩ = [] :=
  ⟨echo_parsed, .all, by decide +kernel⟩

end Licensing

end MergeGrammar
