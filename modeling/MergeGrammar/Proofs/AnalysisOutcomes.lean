import MergeGrammar.Analysis
import MergeGrammar.Proofs.LimitAccounts
import MergeGrammar.Proofs.PrefixStability
import MergeGrammar.Proofs.RouteLimit
import MergeGrammar.Proofs.WordTwins

/-!
# The outcomes of an analysis

An analysis may fail where its words are collected, where they are looked up, where they are stepped
through and where the derivations are ranked. A word that the lexicon has is in the graph of the
sentence, and as many steps as the words have parts lead to its end, so only a sentence without
words and a word that the lexicon lacks are ever reported.
-/

namespace MergeGrammar

namespace Lexicon

variable {lexicon : Lexicon} {tokens : List String} {token : String}

/-- The number of parts of a word, none if the lexicon lacks it. -/
def partCount (lexicon : Lexicon) (token : String) : Nat :=
  (lexicon.get? token).elim 0 fun entry => entry.parts.length

/-- The first of some tokens that is not a word of the lexicon. -/
def FirstUnknown (lexicon : Lexicon) (tokens : List String) (token : String) : Prop :=
  ∃ before after, tokens = before ++ token :: after ∧
    (∀ known ∈ before, lexicon.get? known ≠ none) ∧ lexicon.get? token = none

lemma get?_ne_none_iff :
    lexicon.get? token ≠ none ↔ ∃ entry ∈ lexicon.entries, entry.word = token := by
  rw [Option.ne_none_iff_exists']
  exact exists_congr fun entry => get?_eq_some_iff

/-- Either all tokens are words of the lexicon or one is the first that is not. -/
lemma known_or_firstUnknown (lexicon : Lexicon) (tokens : List String) :
    (∀ token ∈ tokens, lexicon.get? token ≠ none) ∨
      ∃ token, lexicon.FirstUnknown tokens token := by
  induction tokens with
  | nil => exact Or.inl fun _ htoken => absurd htoken List.not_mem_nil
  | cons token tokens ih =>
    by_cases hget : lexicon.get? token = none
    · exact Or.inr ⟨token, [], tokens, rfl, fun _ h => absurd h List.not_mem_nil, hget⟩
    · refine ih.imp (fun known => List.forall_mem_cons.2 ⟨hget, known⟩) ?_
      rintro ⟨first, before, after, rfl, known, unknown⟩
      exact ⟨first, token :: before, after, rfl, List.forall_mem_cons.2 ⟨hget, known⟩, unknown⟩

lemma FirstUnknown.mem (h : lexicon.FirstUnknown tokens token) :
    token ∈ tokens ∧ lexicon.get? token = none := by
  obtain ⟨before, after, rfl, -, unknown⟩ := h
  exact ⟨List.mem_append_right _ List.mem_cons_self, unknown⟩

end Lexicon

namespace Graph

variable {lexicon : Lexicon} {tokens : List String}

/-- The words before the first unknown one are chosen, and it is none of them. -/
lemma forSentence_unknown {token : String} (unknown : lexicon.FirstUnknown tokens token) :
    forSentence lexicon tokens = .error (.unknownWord token) := by
  obtain ⟨before, after, rfl, known, hget⟩ := unknown
  obtain ⟨chosen, hchosen, subset, -⟩ := @chooseEntries_ok lexicon [] before
    fun token htoken => Lexicon.get?_ne_none_iff.1 (known token htoken)
  rw [List.nil_append] at hchosen
  have absent : (chosen.any fun entry => entry.word == token) = false := by
    refine List.any_eq_false.2 fun entry hentry hword => ?_
    rw [← eq_of_beq hword, Lexicon.get?_eq_some (subset hentry)] at hget
    cases hget
  rw [forSentence, chooseEntries_append, hchosen]
  change (chooseEntries lexicon chosen (token :: after)).map ofEntries = _
  rw [chooseEntries, absent, hget]
  rfl

/-- The graph of known words finds all of them. -/
lemma forSentence_known (known : ∀ token ∈ tokens, lexicon.get? token ≠ none) :
    ∃ entries, forSentence lexicon tokens = .ok (ofEntries entries) ∧ entries ⊆ lexicon.entries ∧
      ∀ token ∈ tokens, ∃ id, (ofEntries entries).lookup token = some id := by
  obtain ⟨entries, chosen, subset, cover⟩ := @chooseEntries_ok lexicon [] tokens
    fun token htoken => Lexicon.get?_ne_none_iff.1 (known token htoken)
  rw [List.nil_append] at chosen cover
  refine ⟨entries, ?_, subset, fun token htoken => lookup_of_word subset (cover token htoken)⟩
  rw [forSentence, chosen]
  rfl

/-- The node at which a word is found has as many siblings as the word has parts. -/
lemma length_siblings_of_lookup {entries : List Entry} (subset : entries ⊆ lexicon.entries)
    {token : String} {id : EntryId} (found : (ofEntries entries).lookup token = some id) :
    ((ofEntries entries).entry id).siblings.length = lexicon.partCount token := by
  obtain ⟨entry, hentry, rfl, part, hpart, _, _, nodes⟩ := holds_of_lookup found
  have hnode := (nodes 0 part hpart).2
  rw [Nat.add_zero] at hnode
  rw [hnode, Lexicon.partCount, Lexicon.get?_eq_some (subset hentry)]
  exact List.length_range'

end Graph

lemma Lexicon.FirstUnknown.unique {lexicon : Lexicon} {tokens : List String} {token other : String}
    (h : lexicon.FirstUnknown tokens token) (h' : lexicon.FirstUnknown tokens other) :
    token = other := by
  have same := (Graph.forSentence_unknown h).symm.trans (Graph.forSentence_unknown h')
  cases same
  rfl

namespace Session

variable {session : Session}

/-- What is found for some tokens expands to all parts of their words. -/
lemma expansion_of_lookupAll {lexicon : Lexicon} {entries : List Entry}
    (subset : entries ⊆ lexicon.entries) {tokens : List String}
    (found : ∀ token ∈ tokens, ∃ id, (Graph.ofEntries entries).lookup token = some id) :
    ∃ ids, lookupAll (.ofEntries entries) tokens = .ok ids ∧
      Reading.expansion (.ofEntries entries) ids = (tokens.map lexicon.partCount).sum := by
  induction tokens with
  | nil => exact ⟨[], rfl, rfl⟩
  | cons token tokens ih =>
    obtain ⟨⟨id, hid⟩, found⟩ := List.forall_mem_cons.1 found
    obtain ⟨ids, hids, count_eq⟩ := ih found
    refine ⟨id :: ids, ?_, ?_⟩
    · rw [lookupAll, hid]
      simp only [hids]
      rfl
    · rw [Reading.expansion, Graph.length_siblings_of_lookup subset hid, count_eq, List.map_cons,
        List.sum_cons]

/-! ### The session of a sentence -/

section Sentence

variable {lexicon : Lexicon} {sentence : String} (options : Options)

lemma ofSentence_empty (empty : Text.tokens sentence = []) :
    ofSentence lexicon options sentence = .error .emptySentence := by
  rw [ofSentence, empty]
  rfl

lemma ofSentence_unknown {token : String}
    (unknown : lexicon.FirstUnknown (Text.tokens sentence) token) :
    ofSentence lexicon options sentence = .error (.unknownWord token) := by
  rw [ofSentence, Graph.forSentence_unknown unknown]

/-- Known words have a session, which counts all their parts. -/
lemma ofSentence_known (nonempty : Text.tokens sentence ≠ [])
    (known : ∀ token ∈ Text.tokens sentence, lexicon.get? token ≠ none) :
    ∃ entries session,
      Session.start (.ofEntries entries) (Text.tokens sentence) options = .ok session ∧
      ofSentence lexicon options sentence = .ok session ∧
      session.signalCount = ((Text.tokens sentence).map lexicon.partCount).sum := by
  obtain ⟨entries, chosen, subset, found⟩ := Graph.forSentence_known known
  obtain ⟨ids, hids, count_eq⟩ := expansion_of_lookupAll subset found
  have started := start_of_lookupAll nonempty hids options
  refine ⟨entries, _, started, ?_, ?_⟩
  · rw [ofSentence, chosen]
    exact started
  · rw [signalCount, Reading.signalCount_eq]
    exact count_eq

/-- Known words are read to their end and their derivations are ranked. -/
lemma runTracing_known (nonempty : Text.tokens sentence ≠ [])
    (known : ∀ token ∈ Text.tokens sentence, lexicon.get? token ≠ none) (tracing : Bool) :
    ∃ session told last best, ofSentence lexicon options sentence = .ok session ∧
      session.runTracing tracing = (.ok told, last) ∧ last.isComplete = true ∧
      last.bestRoutes = .ok best ∧ Told last told ∧
      last.consumed = ((Text.tokens sentence).map lexicon.partCount).sum := by
  obtain ⟨entries, session, started, hsession, count_eq⟩ := ofSentence_known options nonempty known
  obtain ⟨told, last, hrun, complete, consumed_eq⟩ := runTracing_completes started tracing
  exact ⟨session, told, last, _, hsession, hrun, complete, last.bestRoutes_eq complete,
    (Told.start started).runWithin hrun, consumed_eq.trans count_eq⟩

end Sentence

end Session

namespace Analysis

variable {lexicon : Lexicon} {options : Options} {sentence : String} {session : Session}
  {told : List StepResult} {best : List RankedRoute} {analysis : Analysis}

/-- An account tells of a session that has read its sentence: it draws the complete routes as they
are ranked and sums up each step, and the parts, the categories and the numbers are the session's. -/
structure Reports (sentence : String) (session : Session) (told : List StepResult)
    (best : List RankedRoute) (analysis : Analysis) : Prop where
  sentence_eq : analysis.sentence = sentence
  policy_eq : analysis.policy = session.options.policy
  parses_eq : analysis.parses = best.map (parseOf session session.derivations)
  complete_eq : analysis.complete = best.length
  steps_eq : analysis.steps = told.map (summaryOf session session.derivations)
  wordParts_eq : analysis.wordParts = session.reading.wordParts.toList.map fun part =>
    session.partName part ++ "-" ++ toString part.signal
  categories_eq : analysis.categories = session.activeCategories
  routes_eq : analysis.routes = session.routeCount
  capped_eq : analysis.capped = session.capped

lemma exists_reports (sentence : String) (told : List StepResult)
    (hbest : session.bestRoutes = .ok best) :
    ∃ analysis, ofSession sentence session told = .ok analysis ∧
      analysis.Reports sentence session told best := by
  rw [ofSession, hbest]
  exact ⟨_, rfl, rfl, rfl, rfl, rfl, rfl, rfl, rfl, rfl, rfl⟩

/-- An account reports on the session of a sentence that has been read to its end. There is a step for
each part of each word, and the numbers that the account gives are those of the parses and the steps
that it lists. -/
structure Tallies (lexicon : Lexicon) (options : Options) (sentence : String)
    (analysis : Analysis) : Prop where
  reports : ∃ session told last best, Session.ofSentence lexicon options sentence = .ok session ∧
    session.run = (.ok told, last) ∧ last.isComplete = true ∧ last.bestRoutes = .ok best ∧
    analysis.Reports sentence last told best
  length_steps : analysis.steps.length = ((Text.tokens sentence).map lexicon.partCount).sum
  length_wordParts : analysis.wordParts.length = ((Text.tokens sentence).map lexicon.partCount).sum
  complete_eq : analysis.complete = analysis.parses.length
  routes_eq : analysis.routes = (analysis.steps.map StepSummary.routesAdded).sum
  capped_eq : analysis.capped = (analysis.steps.map StepSummary.capped).sum

namespace Reports

variable (h : analysis.Reports sentence session told best)
include h

lemma length_parses : analysis.parses.length = analysis.complete := by
  rw [h.parses_eq, h.complete_eq, List.length_map]

lemma length_wordParts : analysis.wordParts.length = session.consumed := by
  rw [h.wordParts_eq, List.length_map, Array.length_toList]
  rfl

variable (earlier : Session.Told session told)
include earlier

lemma length_steps : analysis.steps.length = session.consumed := by
  have same := congrArg List.length earlier.parts_eq
  rw [h.steps_eq, List.length_map]
  rwa [List.length_map, Array.length_toList] at same

lemma sum_routesAdded : (analysis.steps.map StepSummary.routesAdded).sum = analysis.routes := by
  have routes_eq := congrArg List.length earlier.sums.told_routes
  rw [List.length_flatMap, List.length_range] at routes_eq
  rw [h.steps_eq, h.routes_eq, List.map_map]
  exact routes_eq

lemma sum_capped : (analysis.steps.map StepSummary.capped).sum = analysis.capped := by
  rw [h.steps_eq, h.capped_eq, List.map_map]
  exact earlier.sums.told_capped

end Reports

/-- An analysis of known words comes to its end. -/
lemma analyse_known (options : Options) (nonempty : Text.tokens sentence ≠ [])
    (known : ∀ token ∈ Text.tokens sentence, lexicon.get? token ≠ none) :
    ∃ analysis, analyse lexicon options sentence = .ok analysis ∧
      analysis.Tallies lexicon options sentence := by
  obtain ⟨session, told, last, best, hsession, hrun, complete, hbest, earlier, consumed_eq⟩ :=
    Session.runTracing_known options nonempty known false
  obtain ⟨analysis, drawn, reports⟩ := exists_reports sentence told hbest
  refine ⟨analysis, ?_, ?_⟩
  · rw [analyse, trace, hsession]
    simp only [hrun, drawn]
    rfl
  · exact ⟨⟨session, told, last, best, hsession, hrun, complete, hbest, reports⟩,
      (reports.length_steps earlier).trans consumed_eq, reports.length_wordParts.trans consumed_eq,
      reports.length_parses.symm, (reports.sum_routesAdded earlier).symm,
      (reports.sum_capped earlier).symm⟩

/-- An analysis reports a sentence without words or its first unknown word. Any other sentence it
gives an account of. -/
structure Outcome (lexicon : Lexicon) (options : Options) (sentence : String)
    (outcome : Except SessionError Analysis) : Prop where
  empty_iff : outcome = .error .emptySentence ↔ Text.tokens sentence = []
  unknown_iff : ∀ token, outcome = .error (.unknownWord token) ↔
    lexicon.FirstUnknown (Text.tokens sentence) token
  ok_iff : (∃ analysis, outcome = .ok analysis) ↔ Text.tokens sentence ≠ [] ∧
    ∀ token, ¬ lexicon.FirstUnknown (Text.tokens sentence) token
  tallies : ∀ analysis, outcome = .ok analysis → analysis.Tallies lexicon options sentence

namespace Outcome

lemma of_empty (empty : Text.tokens sentence = []) :
    Outcome lexicon options sentence (.error .emptySentence) where
  empty_iff := iff_of_true rfl empty
  unknown_iff token := by
    refine iff_of_false (fun h => by cases h) fun unknown => ?_
    exact List.ne_nil_of_mem unknown.mem.1 empty
  ok_iff := iff_of_false (fun ⟨_, h⟩ => by cases h) fun h => h.1 empty
  tallies _ h := by cases h

lemma of_unknown {first : String} (unknown : lexicon.FirstUnknown (Text.tokens sentence) first) :
    Outcome lexicon options sentence (.error (.unknownWord first)) where
  empty_iff := iff_of_false (fun h => by cases h) (List.ne_nil_of_mem unknown.mem.1)
  unknown_iff token := by
    constructor
    · rintro ⟨⟩
      exact unknown
    · intro other
      rw [unknown.unique other]
  ok_iff := iff_of_false (fun ⟨_, h⟩ => by cases h) fun h => h.2 first unknown
  tallies _ h := by cases h

lemma of_known (nonempty : Text.tokens sentence ≠ [])
    (known : ∀ token ∈ Text.tokens sentence, lexicon.get? token ≠ none)
    (tallies : analysis.Tallies lexicon options sentence) :
    Outcome lexicon options sentence (.ok analysis) := by
  have none_unknown : ∀ token, ¬ lexicon.FirstUnknown (Text.tokens sentence) token :=
    fun token unknown => known token unknown.mem.1 unknown.mem.2
  refine ⟨?_, fun token => ?_, iff_of_true ⟨analysis, rfl⟩ ⟨nonempty, none_unknown⟩, ?_⟩
  · exact iff_of_false (fun h => by cases h) nonempty
  · exact iff_of_false (fun h => by cases h) (none_unknown token)
  · rintro _ ⟨⟩
    exact tallies

end Outcome

lemma outcome (lexicon : Lexicon) (options : Options) (sentence : String) :
    Outcome lexicon options sentence (analyse lexicon options sentence) := by
  by_cases empty : Text.tokens sentence = []
  · rw [analyse, trace, Session.ofSentence_empty options empty]
    exact .of_empty empty
  · rcases lexicon.known_or_firstUnknown (Text.tokens sentence) with known | ⟨first, unknown⟩
    · obtain ⟨analysis, analysed, tallies⟩ := analyse_known options empty known
      rw [analysed]
      exact .of_known empty known tallies
    · rw [analyse, trace, Session.ofSentence_unknown options unknown]
      exact .of_unknown unknown

/-- The outcome of an analysis is settled by the words of the sentence. If the sentence has a session,
then it is read to its end and its derivations are ranked, whatever the limits are, and the account
is one of that session. -/
theorem analyse_outcome (lexicon : Lexicon) (options : Options) (sentence : String) :
    Outcome lexicon options sentence (analyse lexicon options sentence) ∧
      ∀ session, Session.ofSentence lexicon options sentence = .ok session →
        ∀ tracing, ∃ steps last best, session.runTracing tracing = (.ok steps, last) ∧
          last.isComplete = true ∧ last.bestRoutes = .ok best := by
  refine ⟨outcome lexicon options sentence, fun session hsession tracing => ?_⟩
  have nonempty : Text.tokens sentence ≠ [] := by
    intro empty
    rw [Session.ofSentence_empty options empty] at hsession
    cases hsession
  rcases lexicon.known_or_firstUnknown (Text.tokens sentence) with known | ⟨first, unknown⟩
  · obtain ⟨other, steps, last, best, hother, hrun, complete, hbest, -, -⟩ :=
      Session.runTracing_known options nonempty known tracing
    rw [hsession] at hother
    cases hother
    exact ⟨steps, last, best, hrun, complete, hbest⟩
  · rw [Session.ofSentence_unknown options unknown] at hsession
    cases hsession

/-- The words of the sample the other way round. -/
def sampleReversed : Session :=
  .ofEntries (.ofEntries Session.sampleEntries.reverse) { Options.standard with maxRoutes := 10 }
    [0, 1, 2]

lemma ofSentence_sampleReversed : Session.ofSentence Session.sampleLexicon
    { Options.standard with maxRoutes := 10 } "d h a" = .ok sampleReversed := by
  have tokens_eq : Text.tokens "d h a" = ["d", "h", "a"] := by decide +kernel
  have chosen : Graph.chooseEntries Session.sampleLexicon [] ["d", "h", "a"] =
      .ok Session.sampleEntries.reverse := by
    decide +kernel
  have found : Session.lookupAll (.ofEntries Session.sampleEntries.reverse) ["d", "h", "a"] =
      .ok [0, 1, 2] := by
    decide +kernel
  rw [Session.ofSentence, tokens_eq, Graph.forSentence, chosen]
  exact Session.start_of_lookupAll (List.cons_ne_nil _ _) found _

/-- The words of the sample have a parse the other way round, out of six routes. With no room for any
route they are stepped through all the same, and a word that their lexicon lacks is reported. -/
theorem sample_analyse_outcome :
    (∃ analysis, analyse Session.sampleLexicon { Options.standard with maxRoutes := 10 } "d h a" =
      .ok analysis ∧ analysis.parses.length = 1 ∧ analysis.routes = 6) ∧
    (∃ analysis, analyse Session.sampleLexicon { Options.standard with maxRoutes := 0 } "a h d" =
      .ok analysis ∧ analysis.steps.length = 3) ∧
    analyse Session.sampleLexicon { Options.standard with maxRoutes := 0 } "a x d y" =
      .error (.unknownWord "x") := by
  obtain ⟨roomy, -⟩ := analyse_outcome Session.sampleLexicon
    { Options.standard with maxRoutes := 10 } "d h a"
  obtain ⟨outcome, -⟩ := analyse_outcome Session.sampleLexicon
    { Options.standard with maxRoutes := 0 } "a h d"
  obtain ⟨failing, -⟩ := analyse_outcome Session.sampleLexicon
    { Options.standard with maxRoutes := 0 } "a x d y"
  have tokens_eq : Text.tokens "d h a" = ["d", "h", "a"] := by decide +kernel
  have tokens_eq' : Text.tokens "a h d" = ["a", "h", "d"] := by decide +kernel
  have tokens_eq'' : Text.tokens "a x d y" = ["a", "x", "d", "y"] := by decide +kernel
  have known : ∀ token ∈ ["d", "h", "a"], Session.sampleLexicon.get? token ≠ none := by
    decide +kernel
  have none_unknown : ∀ tokens ⊆ ["d", "h", "a"], ∀ token,
      ¬ Session.sampleLexicon.FirstUnknown tokens token := by
    rintro tokens subset token unknown
    obtain ⟨hmem, hnone⟩ := unknown.mem
    exact known token (subset hmem) hnone
  obtain ⟨parsed, hparsed⟩ := roomy.ok_iff.2
    ⟨by rw [tokens_eq]; decide, none_unknown _ (by rw [tokens_eq]; decide)⟩
  obtain ⟨analysis, hanalysis⟩ := outcome.ok_iff.2
    ⟨by rw [tokens_eq']; decide, none_unknown _ (by rw [tokens_eq']; decide)⟩
  refine ⟨⟨parsed, hparsed, ?_⟩, ⟨analysis, hanalysis, ?_⟩,
    (failing.unknown_iff "x").2 ⟨["a"], ["d", "y"], tokens_eq'', ?_, ?_⟩⟩
  · obtain ⟨session, told, last, best, hsession, hrun, complete, hbest, reports⟩ :=
      (roomy.tallies parsed hparsed).reports
    cases ofSentence_sampleReversed.symm.trans hsession
    obtain rfl : sampleReversed.run.2 = last := congrArg Prod.snd hrun
    rw [Session.bestRoutes_eq _ complete] at hbest
    cases hbest
    rw [reports.length_parses, reports.complete_eq, List.length_map,
      (Session.ranking_perm _).length_eq, reports.routes_eq]
    decide +kernel
  · rw [(outcome.tallies analysis hanalysis).length_steps, tokens_eq']
    decide +kernel
  · decide +kernel
  · decide +kernel

end Analysis

end MergeGrammar
