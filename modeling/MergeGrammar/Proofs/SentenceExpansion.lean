import MergeGrammar.Proofs.TableSafety
import MergeGrammar.Proofs.WordTwins

/-!
# The expansion of a sentence

The tokens of a sentence expand to the parts of their words in order. A reading goes through this
expansion from the front, one part at a request, and starts over when it is asked to.
-/

namespace MergeGrammar

namespace Graph

/-- The parts of a word lead to each other in order, and each one stands at its own place. -/
structure Chained (graph : Graph) : Prop extends graph.Sequenced where
  own : ∀ id < graph.entries.size, (graph.entry id).siblings[(graph.entry id).index]? = some id

lemma chained_ofEntries (entries : List Entry) : (ofEntries entries).Chained where
  toSequenced := sequenced_ofEntries entries
  own id hid := by
    obtain ⟨entry, -, first, j, part, ⟨_, _, nodes⟩, hpart, rfl⟩ := exists_holds hid
    have hlt : j < entry.parts.length := (List.getElem?_eq_some_iff.1 hpart).1
    rw [(nodes j part hpart).2, partNode, List.getElem?_range' hlt, Nat.one_mul]

end Graph

namespace Reading

variable {graph : Graph} {reading later : Reading} {tokens : List EntryId}

/-! ### What the tokens expand to -/

/-- The parts of some tokens with the numbers of the tokens, which are counted from `number` on. -/
def occurrences (graph : Graph) (number : Nat) (tokens : List EntryId) : List (EntryId × Nat) :=
  (tokens.zipIdx number).flatMap fun (token, wordIndex) =>
    (graph.entry token).siblings.map (·, wordIndex)

/-- Gives each part its signal. -/
def numbered (parts : List (EntryId × Nat)) : List WordPart :=
  parts.mapIdx fun i (entry, wordIndex) => ⟨i + 1, entry, wordIndex⟩

/-- The word parts that the tokens of a sentence expand to. -/
def expanded (graph : Graph) (tokens : List EntryId) : List WordPart :=
  numbered (occurrences graph 1 tokens)

lemma occurrences_cons (number : Nat) (token : EntryId) (tokens : List EntryId) :
    occurrences graph number (token :: tokens) =
      (graph.entry token).siblings.map (·, number) ++ occurrences graph (number + 1) tokens := rfl

lemma length_occurrences (number : Nat) (tokens : List EntryId) :
    (occurrences graph number tokens).length = expansion graph tokens := by
  induction tokens generalizing number with
  | nil => rfl
  | cons token tokens ih =>
    rw [occurrences_cons, List.length_append, List.length_map, ih, expansion]

lemma length_numbered (parts : List (EntryId × Nat)) : (numbered parts).length = parts.length :=
  List.length_mapIdx

lemma length_expanded (tokens : List EntryId) :
    (expanded graph tokens).length = expansion graph tokens := by
  rw [expanded, length_numbered, length_occurrences]

lemma numbered_concat (parts : List (EntryId × Nat)) (part : EntryId × Nat) :
    numbered (parts ++ [part]) = numbered parts ++ [⟨parts.length + 1, part.1, part.2⟩] :=
  List.mapIdx_concat

lemma isPrefix_numbered (parts more : List (EntryId × Nat)) :
    numbered parts <+: numbered (parts ++ more) := by
  rw [numbered, numbered, List.mapIdx_append]
  exact List.prefix_append _ _

lemma getElem?_numbered_append (parts : List (EntryId × Nat)) (part : EntryId × Nat)
    (more : List (EntryId × Nat)) :
    (numbered (parts ++ part :: more))[parts.length]? =
      some ⟨parts.length + 1, part.1, part.2⟩ := by
  rw [numbered, List.getElem?_mapIdx, List.getElem?_append_right (Nat.le_refl _), Nat.sub_self]
  rfl

lemma signal_of_getLast? {parts : List (EntryId × Nat)} {part : WordPart}
    (h : (numbered parts).getLast? = some part) : part.signal = parts.length := by
  cases parts using List.reverseRecOn with
  | nil => cases h
  | append_singleton parts other _ =>
    rw [numbered_concat, List.getLast?_concat] at h
    cases h
    rw [List.length_append, List.length_singleton]

/-! ### What remains to be read -/

/-- The parts of the word that come after one of its parts. -/
def following (graph : Graph) (part : WordPart) : List (EntryId × Nat) :=
  ((graph.entry part.entry).siblings.drop ((graph.entry part.entry).index + 1)).map
    (·, part.wordIndex)

/-- The parts that come after the one read last. -/
def remaining (graph : Graph) (reading : Reading) : List (EntryId × Nat) :=
  match reading.wordParts.back? with
  | none => occurrences graph 1 reading.tokens
  | some part =>
    following graph part ++
      occurrences graph (part.wordIndex + 1) (reading.tokens.drop reading.entered)

lemma remaining_of_back? {part : WordPart} (h : reading.wordParts.back? = some part) :
    reading.remaining graph = following graph part ++
      occurrences graph (part.wordIndex + 1) (reading.tokens.drop reading.entered) := by
  rw [remaining, h]

section Following

variable (chained : graph.Chained) (part other : WordPart)
include chained

lemma following_of_nextPart?_some (hlt : part.entry < graph.entries.size)
    (hnext : (graph.entry part.entry).nextPart? = some other.entry)
    (hword : other.wordIndex = part.wordIndex) :
    following graph part = (other.entry, other.wordIndex) :: following graph other := by
  obtain ⟨hindex, hget⟩ := List.getElem?_eq_some_iff.1 hnext
  unfold following
  rw [chained.next_index _ hlt _ hnext, chained.next_siblings _ hlt _ hnext, hword,
    List.drop_eq_getElem_cons hindex, hget, List.map_cons]

/-- A word begins with its first part. -/
lemma siblings_of_isFirstPart (hlt : part.entry < graph.entries.size)
    (hfirst : (graph.entry part.entry).isFirstPart = true) :
    (graph.entry part.entry).siblings.map (·, part.wordIndex) =
      (part.entry, part.wordIndex) :: following graph part := by
  have hindex : (graph.entry part.entry).index = 0 := eq_of_beq hfirst
  have hown := chained.own _ hlt
  rw [hindex] at hown
  unfold following
  cases hsiblings : (graph.entry part.entry).siblings with
  | nil => rw [hsiblings] at hown; cases hown
  | cons sibling siblings =>
    rw [hsiblings] at hown
    cases hown
    rw [hindex]
    rfl

end Following

lemma following_of_nextPart?_none {part : WordPart}
    (hnext : (graph.entry part.entry).nextPart? = none) : following graph part = [] := by
  rw [following, List.drop_eq_nil_of_le (List.getElem?_eq_none_iff.1 hnext), List.map_nil]

/-! ### The position of a reading -/

lemma exhausted_of_current? {current : WordPart} (h : reading.current? = some current) :
    reading.exhausted = false := by
  rw [current?] at h
  split at h
  · cases h
  · next hpatient => exact Bool.eq_false_iff.2 hpatient

/-- The parts that were read and the ones that remain make up the expansion of the tokens. -/
structure Tracks (graph : Graph) (tokens : List EntryId) (reading : Reading) : Prop where
  tokens_eq : reading.tokens = tokens
  inUse : reading.InUse graph
  opening : ∀ token ∈ tokens, (graph.entry token).isFirstPart = true
  split : ∃ read, reading.wordParts.toList = numbered read ∧
    read ++ reading.remaining graph = occurrences graph 1 tokens
  used_up : reading.exhausted = true → reading.remaining graph = [] ∧ reading.wordParts ≠ #[]

lemma tracks_start (tokens_lt : ∀ token ∈ tokens, token < graph.entries.size)
    (opening : ∀ token ∈ tokens, (graph.entry token).isFirstPart = true) :
    (start tokens).Tracks graph tokens where
  tokens_eq := rfl
  inUse := inUse_start tokens_lt
  opening := opening
  split := ⟨[], rfl, rfl⟩
  used_up hused := Bool.noConfusion hused

/-- A reading goes on with the first of the parts that remain. -/
structure Appends (graph : Graph) (reading : Reading) (part : WordPart) (later : Reading) :
    Prop where
  tokens_eq : later.tokens = reading.tokens
  patient : later.exhausted = false
  wordParts_eq : later.wordParts = reading.wordParts.push part
  signal_eq : part.signal = reading.wordParts.size + 1
  remaining_eq :
    reading.remaining graph = (part.entry, part.wordIndex) :: later.remaining graph

/-- What a request for the next part leads to. -/
inductive Continues (graph : Graph) (reading : Reading) : Option WordPart × Reading → Prop where
  | still (unset : reading.current? = none) : Continues graph reading (none, reading)
  | stop (present : reading.current?.isSome) (finished : reading.remaining graph = []) :
    Continues graph reading (none, { reading with exhausted := true })
  | read {part : WordPart} {later : Reading} (present : reading.current?.isSome)
    (appends : Appends graph reading part later) : Continues graph reading (some part, later)

namespace Continues

variable {result : Option WordPart × Reading} (h : Continues graph reading result)
include h

lemma eq_none_iff :
    result.1 = none ↔ reading.current? = none ∨ reading.remaining graph = [] := by
  cases h with
  | still unset => simp [unset]
  | stop _ finished => simp [finished]
  | read present appends =>
    rw [Option.isSome_iff_ne_none] at present
    simp [appends.remaining_eq, present]

lemma wordParts_eq (hnone : result.1 = none) : result.2.wordParts = reading.wordParts := by
  cases h with
  | still _ => rfl
  | stop _ _ => rfl
  | read _ _ => cases hnone

lemma appends {part : WordPart} (hsome : result.1 = some part) :
    Appends graph reading part result.2 := by
  cases h with
  | still _ => cases hsome
  | stop _ _ => cases hsome
  | read _ appends =>
    cases hsome
    exact appends

end Continues

lemma Appends.toList_eq {part : WordPart} (appends : Appends graph reading part later)
    {read : List (EntryId × Nat)} (hread : reading.wordParts.toList = numbered read) :
    later.wordParts.toList = numbered (read ++ [(part.entry, part.wordIndex)]) := by
  rw [appends.wordParts_eq, Array.toList_push, hread, numbered_concat, ← length_numbered, ← hread,
    Array.length_toList, ← appends.signal_eq]

namespace Tracks

variable (h : reading.Tracks graph tokens)
include h

lemma signal_of_current? {current : WordPart} (hcurrent : reading.current? = some current) :
    current.signal = reading.wordParts.size := by
  obtain ⟨read, hread, -⟩ := h.split
  have hback : reading.wordParts.toList.getLast? = some current := by
    rw [Array.getLast?_toList]
    exact back?_of_current? hcurrent
  rw [hread] at hback
  rw [signal_of_getLast? hback, ← Array.length_toList, hread, length_numbered]

lemma appends {part : WordPart} (appends : Appends graph reading part later)
    (inUse : later.InUse graph) : later.Tracks graph tokens := by
  obtain ⟨read, hread, hsplit⟩ := h.split
  refine ⟨appends.tokens_eq.trans h.tokens_eq, inUse, h.opening,
    ⟨_, appends.toList_eq hread, ?_⟩, fun hused => ?_⟩
  · rw [List.append_assoc, List.singleton_append, ← appends.remaining_eq, hsplit]
  · rw [appends.patient] at hused
    cases hused

lemma getElem?_of_appends {part : WordPart} (appends : Appends graph reading part later) :
    (expanded graph tokens)[reading.wordParts.size]? = some part := by
  obtain ⟨read, hread, hsplit⟩ := h.split
  have hsize : reading.wordParts.size = read.length := by
    rw [← Array.length_toList, hread, length_numbered]
  rw [expanded, ← hsplit, appends.remaining_eq, hsize, getElem?_numbered_append, ← hsize,
    ← appends.signal_eq]

lemma reset : reading.reset.Tracks graph tokens := by
  rw [Reading.reset, h.tokens_eq]
  exact tracks_start (h.tokens_eq ▸ h.inUse.tokens_lt) h.opening

section Chained

variable (chained : graph.Chained)
include chained

/-- The parts of the tokens from some place on begin with the first part of the next token. -/
lemma occurrences_drop (part : WordPart) (htoken : tokens[reading.entered]? = some part.entry) :
    occurrences graph part.wordIndex (tokens.drop reading.entered) =
      (part.entry, part.wordIndex) ::
        (following graph part ++
          occurrences graph (part.wordIndex + 1) (tokens.drop (reading.entered + 1))) := by
  obtain ⟨hlt, htoken⟩ := List.getElem?_eq_some_iff.1 htoken
  have hmem : part.entry ∈ tokens := htoken ▸ List.getElem_mem hlt
  have hpart := h.inUse.tokens_lt _ (h.tokens_eq ▸ hmem)
  rw [List.drop_eq_getElem_cons hlt, htoken, occurrences_cons,
    siblings_of_isFirstPart chained part hpart (h.opening _ hmem), List.cons_append]

/-- Nothing remains behind the last part of the last token only. -/
lemma isLast_iff {current : WordPart} (hcurrent : reading.current? = some current) :
    reading.isLast graph = true ↔ reading.remaining graph = [] := by
  have hback := back?_of_current? hcurrent
  have hlt := h.inUse.read_lt current (Array.mem_of_back? hback)
  have hindex := chained.index_lt _ hlt
  have hlast : (graph.entry current.entry).isLastPart = true ↔ following graph current = [] := by
    rw [LexicalEntry.isLastPart, beq_iff_eq, following, List.map_eq_nil_iff,
      List.drop_eq_nil_iff]
    omega
  have hover : tokens.length ≤ reading.entered ↔
      occurrences graph (current.wordIndex + 1) (tokens.drop reading.entered) = [] := by
    constructor
    · intro hle
      rw [List.drop_eq_nil_of_le hle]
      rfl
    · intro hnil
      by_contra hlt
      rw [Nat.not_le] at hlt
      have htoken : tokens[reading.entered]? = some tokens[reading.entered] :=
        List.getElem?_eq_getElem hlt
      rw [h.occurrences_drop chained ⟨0, _, _⟩ htoken] at hnil
      cases hnil
  rw [isLast, hcurrent, remaining_of_back? hback, h.tokens_eq, List.append_eq_nil_iff,
    ← hlast, ← hover, Bool.and_eq_true, decide_eq_true_iff, and_comm]

lemma continues : Continues graph reading (reading.next graph) := by
  unfold Reading.next
  cases hcurrent : reading.current? with
  | none => exact .still hcurrent
  | some current =>
    have present : reading.current?.isSome := hcurrent ▸ rfl
    have patient := exhausted_of_current? hcurrent
    have hback := back?_of_current? hcurrent
    have hlt := h.inUse.read_lt current (Array.mem_of_back? hback)
    have hsignal := congrArg (· + 1) (h.signal_of_current? hcurrent)
    simp only
    split
    · next entry hnext =>
      let part : WordPart := ⟨current.signal + 1, entry, current.wordIndex⟩
      apply Continues.read present
      refine ⟨rfl, patient, rfl, hsignal, ?_⟩
      rw [remaining_of_back? hback, remaining_of_back? Array.back?_push,
        following_of_nextPart?_some chained current part hlt hnext rfl]
      rfl
    · next hnext =>
      split
      · next entry htoken =>
        let part : WordPart := ⟨current.signal + 1, entry, current.wordIndex + 1⟩
        rw [h.tokens_eq] at htoken
        apply Continues.read present
        refine ⟨rfl, patient, rfl, hsignal, ?_⟩
        rw [remaining_of_back? hback, remaining_of_back? Array.back?_push,
          following_of_nextPart?_none hnext, List.nil_append, h.tokens_eq]
        exact h.occurrences_drop chained part htoken
      · next htoken =>
        apply Continues.stop present
        rw [remaining_of_back? hback, following_of_nextPart?_none hnext,
          List.drop_eq_nil_of_le (List.getElem?_eq_none_iff.1 htoken)]
        rfl

/-- Starting over reads the first part of the first token, if there is one. -/
lemma first_cases : (tokens = [] ∧ reading.first = (none, reading.reset)) ∨
    ∃ part, reading.first.1 = some part ∧
      Appends graph reading.reset part reading.first.2 := by
  have hreset := h.reset
  obtain ⟨ids, entered, wordParts, exhausted⟩ := reading
  obtain rfl : ids = tokens := h.tokens_eq
  cases ids with
  | nil => exact .inl ⟨rfl, rfl⟩
  | cons token ids =>
    let part : WordPart := ⟨1, token, 1⟩
    exact .inr ⟨part, rfl, rfl, rfl, rfl, rfl, hreset.occurrences_drop chained part rfl⟩

lemma first : reading.first.2.Tracks graph tokens := by
  rcases h.first_cases chained with ⟨-, heq⟩ | ⟨part, -, appends⟩
  · rw [heq]
    exact h.reset
  · exact h.reset.appends appends h.inUse.first

lemma next : (reading.next graph).2.Tracks graph tokens := by
  have inUse := h.inUse.next chained.toSequenced
  have continues := h.continues chained
  generalize reading.next graph = result at inUse continues ⊢
  cases continues with
  | still _ => exact h
  | stop present finished =>
    refine ⟨h.tokens_eq, inUse, h.opening, h.split, fun _ => ⟨finished, fun hempty => ?_⟩⟩
    obtain ⟨current, hcurrent⟩ := Option.isSome_iff_exists.1 present
    have hback := back?_of_current? hcurrent
    rw [hempty] at hback
    cases hback
  | read _ appends => exact h.appends appends inUse

end Chained

end Tracks

/-! ### Requests -/

/-- What a reading can be asked for. -/
inductive Request where
  | first
  | next
  | reset

def perform (graph : Graph) (reading : Reading) : Request → Reading
  | .first => reading.first.2
  | .next => (reading.next graph).2
  | .reset => reading.reset

namespace Tracks

variable (chained : graph.Chained)
include chained

lemma perform (h : reading.Tracks graph tokens) (request : Request) :
    (reading.perform graph request).Tracks graph tokens := by
  cases request with
  | first => exact h.first chained
  | next => exact h.next chained
  | reset => exact h.reset

lemma requests (h : reading.Tracks graph tokens) (requests : List Request) :
    (requests.foldl (Reading.perform graph) reading).Tracks graph tokens := by
  induction requests generalizing reading with
  | nil => exact h
  | cons request requests ih => exact ih (h.perform chained request)

end Tracks

/-- What has been read of a sentence is the beginning of what its tokens expand to. -/
structure FollowsExpansion (graph : Graph) (tokens : List EntryId) (reading : Reading) :
    Prop where
  tokens_eq : reading.tokens = tokens
  beginning : reading.wordParts.toList <+: expanded graph tokens
  idle_iff : reading.progress graph = .idle ↔ reading.wordParts.toList = []
  complete_iff : reading.progress graph = .complete ↔
    reading.wordParts.toList = expanded graph tokens ∧ expanded graph tokens ≠ []
  advancing_iff : reading.progress graph = .advancing ↔
    reading.wordParts.toList ≠ [] ∧ reading.wordParts.toList ≠ expanded graph tokens
  next_eq_none_iff : (reading.next graph).1 = none ↔
    reading.current? = none ∨ reading.wordParts.toList = expanded graph tokens
  kept : (reading.next graph).1 = none →
    (reading.next graph).2.wordParts = reading.wordParts
  /-- A part that is read is the next one of the expansion. -/
  appended : ∀ part, (reading.next graph).1 = some part →
    (expanded graph tokens)[reading.wordParts.size]? = some part ∧
      (reading.next graph).2.wordParts = reading.wordParts.push part
  first_eq : reading.first.1 = (expanded graph tokens).head?
  first_wordParts_eq : reading.first.2.wordParts.toList = (expanded graph tokens).take 1
  signalCount_eq : reading.signalCount graph = (expanded graph tokens).length

namespace Tracks

variable (h : reading.Tracks graph tokens)
include h

/-- Everything has been read when nothing remains. -/
lemma wordParts_eq_iff :
    reading.wordParts.toList = expanded graph tokens ↔ reading.remaining graph = [] := by
  obtain ⟨read, hread, hsplit⟩ := h.split
  rw [hread, expanded, ← hsplit]
  constructor
  · intro heq
    have hlength := congrArg List.length heq
    rw [length_numbered, length_numbered, List.length_append] at hlength
    exact List.eq_nil_of_length_eq_zero (by omega)
  · intro hnil
    rw [hnil, List.append_nil]

variable (chained : graph.Chained)
include chained

lemma complete_iff (nonempty : reading.wordParts ≠ #[]) :
    (reading.exhausted || reading.isLast graph) = true ↔ reading.remaining graph = [] := by
  by_cases hexhausted : reading.exhausted = true
  · have finished := (h.used_up hexhausted).1
    simp [hexhausted, finished]
  · have hcurrent : reading.current? = reading.wordParts.back? := by
      rw [current?, if_neg hexhausted]
    cases hback : reading.wordParts.back? with
    | none => exact absurd (Array.back?_eq_none_iff.1 hback) nonempty
    | some current =>
      rw [Bool.eq_false_iff.2 hexhausted, Bool.false_or]
      exact h.isLast_iff chained (hcurrent.trans hback)

lemma progress_eq : reading.progress graph =
    if reading.wordParts.toList = [] then .idle
    else if reading.remaining graph = [] then .complete else .advancing := by
  unfold progress
  by_cases hempty : reading.wordParts = #[]
  · simp [hempty]
  · simp [hempty, h.complete_iff chained hempty]

lemma first_expanded : reading.first.1 = (expanded graph tokens).head? ∧
    reading.first.2.wordParts.toList = (expanded graph tokens).take 1 := by
  rw [List.take_one]
  rcases h.first_cases chained with ⟨rfl, heq⟩ | ⟨part, hpart, appends⟩
  · rw [heq]
    exact ⟨rfl, rfl⟩
  · have hhead := h.reset.getElem?_of_appends appends
    rw [List.head?_eq_getElem?, hpart, appends.wordParts_eq]
    exact ⟨hhead.symm, (congrArg Option.toList hhead).symm⟩

lemma followsExpansion : FollowsExpansion graph tokens reading where
  tokens_eq := h.tokens_eq
  beginning := by
    obtain ⟨read, hread, hsplit⟩ := h.split
    rw [hread, expanded, ← hsplit]
    exact isPrefix_numbered _ _
  idle_iff := by
    rw [h.progress_eq chained]
    split_ifs <;> simp [*]
  complete_iff := by
    have hwhole : (reading.wordParts.toList = expanded graph tokens ∧
        expanded graph tokens ≠ []) ↔
          (reading.remaining graph = [] ∧ reading.wordParts.toList ≠ []) := by
      rw [← h.wordParts_eq_iff]
      exact and_congr_right fun heq => by rw [heq]
    rw [h.progress_eq chained, hwhole]
    split_ifs <;> simp [*]
  advancing_iff := by
    rw [h.progress_eq chained, ne_eq, ne_eq, h.wordParts_eq_iff]
    split_ifs <;> simp [*]
  next_eq_none_iff := by
    rw [h.wordParts_eq_iff, (h.continues chained).eq_none_iff]
  kept hnone := (h.continues chained).wordParts_eq hnone
  appended part hsome := by
    have appends := (h.continues chained).appends hsome
    exact ⟨h.getElem?_of_appends appends, appends.wordParts_eq⟩
  first_eq := (h.first_expanded chained).1
  first_wordParts_eq := (h.first_expanded chained).2
  signalCount_eq := by
    rw [Reading.signalCount_eq, h.tokens_eq, length_expanded]

end Tracks

/-- Whatever a reading is asked for, it goes through the expansion of its tokens. Every graph is
made from entries, those of a lexicon or those of the words of a sentence. -/
theorem requests_followExpansion (entries : List Entry) (tokens : List EntryId)
    (tokens_lt : ∀ token ∈ tokens, token < (Graph.ofEntries entries).entries.size)
    (opening : ∀ token ∈ tokens, ((Graph.ofEntries entries).entry token).isFirstPart = true)
    (requests : List Request) :
    FollowsExpansion (.ofEntries entries) tokens
      (requests.foldl (perform (.ofEntries entries)) (start tokens)) := by
  have chained := Graph.chained_ofEntries entries
  exact ((tracks_start tokens_lt opening).requests chained requests).followsExpansion chained

/-- A noun, and a head in two parts. -/
def pairedEntries : List Entry :=
  [⟨"n", [⟨[], [], [⟨none, "N", []⟩]⟩]⟩,
    ⟨"v", [⟨[], [⟨some .select, "N", []⟩], [⟨none, "T", []⟩]⟩,
      ⟨[], [⟨some .select, "N", []⟩], []⟩]⟩]

/-- A sentence that has the noun on both sides of the head is read to its end and beyond it, and
from its beginning again. -/
theorem paired_followExpansion :
    expanded (.ofEntries pairedEntries) [0, 1, 0] =
      [⟨1, 0, 1⟩, ⟨2, 1, 2⟩, ⟨3, 2, 2⟩, ⟨4, 0, 3⟩] ∧
    FollowsExpansion (.ofEntries pairedEntries) [0, 1, 0]
      ([.next, .first, .next, .next, .next, .next, .next].foldl
        (perform (.ofEntries pairedEntries)) (start [0, 1, 0])) ∧
    FollowsExpansion (.ofEntries pairedEntries) [0, 1, 0]
      ([.first, .next, .next, .next, .next, .reset, .first, .next, .next].foldl
        (perform (.ofEntries pairedEntries)) (start [0, 1, 0])) := by
  have follow := requests_followExpansion pairedEntries [0, 1, 0] (by decide +kernel)
    (by decide +kernel)
  exact ⟨by decide +kernel, follow _, follow _⟩

end Reading

end MergeGrammar
