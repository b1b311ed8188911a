import Mathlib.Data.List.Forall2
import Mathlib.Data.List.Nodup
import Mathlib.Data.Prod.Basic
import MergeGrammar.Proofs.GraphGrowth

/-!
# The same words in two graphs

Graphs that are made from words of one lexicon have the parts of a common word in the same order,
each graph under numbers of its own. So a sentence is read in all of them in the same way.
-/

namespace MergeGrammar

namespace Graph

/-- The parts of a word are nodes one after another, from a number on. -/
def Holds (graph : Graph) (first : EntryId) (entry : Entry) : Prop :=
  ∃ categories texts, ∀ j part, entry.parts[j]? = some part →
    first + j < graph.entries.size ∧
      graph.entry (first + j) = partNode categories texts first entry j part

/-- Every node is a part of a word that the graph holds. -/
lemma exists_holds {entries : List Entry} {id : EntryId}
    (hid : id < (ofEntries entries).entries.size) : ∃ entry ∈ entries, ∃ first j part,
      (ofEntries entries).Holds first entry ∧ entry.parts[j]? = some part ∧ id = first + j := by
  obtain ⟨entry, hentry, before, hplace, hnode, hall⟩ :=
    getElem?_lexicalEntries (getElem?_partNodes hid)
  rw [Nat.zero_add] at hnode hall
  rw [getElem?_wordEntries, Option.map_eq_some_iff] at hnode
  obtain ⟨part, hpart, -⟩ := hnode
  refine ⟨entry, hentry, before, _, part, ⟨nodeCategories entries,
    (nodeFeatures entries).map Feature.text, fun j other hother => ?_⟩, hpart, hplace⟩
  have hget := hall j (List.getElem?_eq_some_iff.1 hother).1
  rw [getElem?_wordEntries, hother, Option.map_some] at hget
  have hlt : before + j < (ofEntries entries).entries.size := (List.getElem?_eq_some_iff.1 hget).1
  exact ⟨hlt, Option.some.inj ((getElem?_partNodes hlt).symm.trans hget)⟩

/-- Two nodes stand for the same part of the same word. -/
inductive Twins (graph other : Graph) : EntryId → EntryId → Prop where
  | of {entry : Entry} {first first' : EntryId} {j : Nat} {part : Part}
    (holds : graph.Holds first entry) (holds' : other.Holds first' entry)
    (hpart : entry.parts[j]? = some part) : Twins graph other (first + j) (first' + j)

namespace Twins

variable {graph other : Graph} {id id' : EntryId} (h : graph.Twins other id id')
include h

lemma symm : other.Twins graph id' id := by
  cases h with
  | of holds holds' hpart => exact .of holds' holds hpart

lemma lt : id < graph.entries.size := by
  cases h with
  | of holds _ hpart =>
    obtain ⟨_, _, nodes⟩ := holds
    exact (nodes _ _ hpart).1

/-- The nodes agree in everything but numbers. -/
lemma alike : (other.entry id').word = (graph.entry id).word ∧
    (other.entry id').index = (graph.entry id).index ∧
    (other.entry id').part = (graph.entry id).part ∧
    (other.entry id').siblings.length = (graph.entry id).siblings.length := by
  cases h with
  | of holds holds' hpart =>
    obtain ⟨_, _, nodes⟩ := holds
    obtain ⟨_, _, nodes'⟩ := holds'
    rw [(nodes _ _ hpart).2, (nodes' _ _ hpart).2]
    exact ⟨rfl, rfl, rfl, List.length_range'.trans List.length_range'.symm⟩

lemma word_eq : (other.entry id').word = (graph.entry id).word := h.alike.1

lemma index_eq : (other.entry id').index = (graph.entry id).index := h.alike.2.1

lemma part_eq : (other.entry id').part = (graph.entry id).part := h.alike.2.2.1

lemma name_eq : (other.entry id').name = (graph.entry id).name := by
  rw [LexicalEntry.name, LexicalEntry.name, h.word_eq, h.index_eq]

lemma isFirstPart_eq : (other.entry id').isFirstPart = (graph.entry id).isFirstPart := by
  rw [LexicalEntry.isFirstPart, LexicalEntry.isFirstPart, h.index_eq]

lemma isFree_eq : (other.entry id').isFree = (graph.entry id).isFree := by
  rw [LexicalEntry.isFree, LexicalEntry.isFree, h.part_eq]

/-- Both lead to the next part of the word, or to none. -/
lemma nextPart : Option.Rel (graph.Twins other) (graph.entry id).nextPart?
    (other.entry id').nextPart? := by
  cases h with
  | @of entry first first' j part holds holds' hpart =>
    have next_of : ∀ {graph : Graph} {first : EntryId}, graph.Holds first entry →
        (graph.entry (first + j)).nextPart? =
          if j + 1 < entry.parts.length then some (first + (j + 1)) else none := by
      rintro graph first ⟨_, _, nodes⟩
      rw [(nodes _ _ hpart).2]
      change (List.range' first entry.parts.length)[j + 1]? = _
      split
      · next hlt => rw [List.getElem?_range' hlt, Nat.one_mul]
      · next hlt =>
        exact List.getElem?_eq_none (List.length_range'.trans_le (Nat.le_of_not_lt hlt))
    rw [next_of holds, next_of holds']
    split
    · next hlt => exact .some (.of holds holds' (List.getElem?_eq_getElem hlt))
    · exact .none

end Twins

/-! ### The counterpart of a node -/

/-- The node of another graph that has the same word and the same place in it. -/
def counterpart (graph other : Graph) (id : EntryId) : EntryId :=
  other.entries.findIdx fun node =>
    node.word == (graph.entry id).word && node.index == (graph.entry id).index

lemma places_lexicalEntries {categories texts : List String} {first : EntryId}
    {entries : List Entry} :
    (lexicalEntries categories texts first entries).map (fun node => (node.word, node.index)) =
      entries.flatMap fun entry => (List.range entry.parts.length).map (Prod.mk entry.word) := by
  induction entries generalizing first with
  | nil => rfl
  | cons entry entries ih =>
    rw [lexicalEntries, List.map_append, ih, List.flatMap_cons, List.range_eq_range',
      ← List.zipIdx_map_snd, List.map_map, wordEntries, List.map_map]
    rfl

/-- If no word stands twice, no two nodes have the same word and the same place in it. -/
lemma nodup_places {entries : List Entry} (words : (entries.map Entry.word).Nodup) :
    ((partNodes entries).map fun node => (node.word, node.index)).Nodup := by
  rw [partNodes, places_lexicalEntries, List.nodup_flatMap]
  refine ⟨fun entry _ => List.nodup_range.map (Prod.mk_right_injective _), ?_⟩
  refine (List.pairwise_map.1 words).imp fun hne => ?_
  intro place hplace hplace'
  obtain ⟨_, -, rfl⟩ := List.mem_map.1 hplace
  obtain ⟨_, -, heq⟩ := List.mem_map.1 hplace'
  exact hne (congrArg Prod.fst heq).symm

lemma getElem_entries {graph : Graph} {id : EntryId} (hid : id < graph.entries.size) :
    graph.entries[id] = graph.entry id := by
  rw [Graph.entry, Array.getD_eq_getD_getElem?, Array.getElem?_eq_getElem hid]
  rfl

lemma Twins.counterpart_eq {graph : Graph} {others : List Entry} {id id' : EntryId}
    (h : graph.Twins (ofEntries others) id id') (words : (others.map Entry.word).Nodup) :
    graph.counterpart (ofEntries others) id = id' := by
  have places := nodup_places words
  rw [counterpart, Array.findIdx_eq h.symm.lt]
  refine ⟨?_, fun j hj => ?_⟩
  · rw [getElem_entries h.symm.lt, Bool.and_eq_true_iff]
    exact ⟨beq_iff_eq.2 h.word_eq, beq_iff_eq.2 h.index_eq⟩
  · have hlt : j < (ofEntries others).entries.size := hj.trans h.symm.lt
    rw [getElem_entries hlt, Bool.eq_false_iff]
    rintro hplace
    obtain ⟨hword, hindex⟩ := Bool.and_eq_true_iff.1 hplace
    -- A node before the counterpart at the same place would be a second one.
    refine hj.ne ((List.getElem?_inj ?_ places).1 ?_)
    · rwa [List.length_map]
    · rw [List.getElem?_map, List.getElem?_map, getElem?_partNodes hlt,
        getElem?_partNodes h.symm.lt, Option.map_some, Option.map_some, eq_of_beq hword,
        eq_of_beq hindex, h.word_eq, h.index_eq]

/-- A word that is looked up is found at its first part. -/
lemma holds_of_lookup {entries : List Entry} {word : String} {id : EntryId}
    (found : (ofEntries entries).lookup word = some id) : ∃ entry ∈ entries, entry.word = word ∧
      ∃ part, entry.parts[0]? = some part ∧ (ofEntries entries).Holds id entry := by
  obtain ⟨hlt, hfound, -⟩ := Array.findIdx?_eq_some_iff_getElem.1 found
  rw [getElem_entries hlt] at hfound
  obtain ⟨hword, hfirst⟩ := Bool.and_eq_true_iff.1 hfound
  obtain ⟨entry, hentry, first, j, part, holds, hpart, rfl⟩ := exists_holds hlt
  have held := holds
  obtain ⟨_, _, nodes⟩ := held
  rw [(nodes _ _ hpart).2] at hword hfirst
  have hzero : j = 0 := eq_of_beq hfirst
  subst hzero
  exact ⟨entry, hentry, eq_of_beq hword, part, hpart, holds⟩

/-- If no word stands twice, a word with a part is found, at the first part of its only entry. -/
lemma exists_lookup_holds {entries : List Entry} (words : (entries.map Entry.word).Nodup)
    {entry : Entry} (hentry : entry ∈ entries) (hparts : entry.parts ≠ []) :
    ∃ id, (ofEntries entries).lookup entry.word = some id ∧
      (ofEntries entries).Holds id entry := by
  obtain ⟨id, found⟩ := exists_lookup hentry hparts
  obtain ⟨other, hother, hword, -, -, holds⟩ := holds_of_lookup found
  obtain rfl := List.inj_on_of_nodup_map words hother hentry hword
  exact ⟨id, found, holds⟩

section Common

variable {entries others : List Entry}

/-- A common word is found in both graphs at its first part. -/
lemma lookup_twins (agree : ∀ entry ∈ entries, ∀ other ∈ others,
      entry.word = other.word → entry = other) {word : String} {id id' : EntryId}
    (found : (ofEntries entries).lookup word = some id)
    (found' : (ofEntries others).lookup word = some id') :
    (ofEntries entries).Twins (ofEntries others) id id' := by
  obtain ⟨entry, hentry, hword, part, hpart, holds⟩ := holds_of_lookup found
  obtain ⟨other, hother, hword', -, -, holds'⟩ := holds_of_lookup found'
  obtain rfl := agree entry hentry other hother (hword.trans hword'.symm)
  exact .of holds holds' hpart

/-- If the other graph has all words as well, every node has a counterpart. -/
lemma counterpart_twins (subset : entries ⊆ others) (words : (others.map Entry.word).Nodup)
    {id : EntryId} (hid : id < (ofEntries entries).entries.size) :
    (ofEntries entries).Twins (ofEntries others) id
      ((ofEntries entries).counterpart (ofEntries others) id) := by
  obtain ⟨entry, hentry, first, j, part, holds, hpart, rfl⟩ := exists_holds hid
  have hparts : entry.parts ≠ [] := by
    rintro hnil
    rw [hnil] at hpart
    cases hpart
  obtain ⟨first', -, holds'⟩ := exists_lookup_holds words (subset hentry) hparts
  have twins : (ofEntries entries).Twins (ofEntries others) (first + j) (first' + j) :=
    .of holds holds' hpart
  rwa [twins.counterpart_eq words]

end Common

end Graph

/-- The same part of the same word is read at the same place. -/
structure WordPart.Twins (graph other : Graph) (part part' : WordPart) : Prop where
  signal_eq : part'.signal = part.signal
  wordIndex_eq : part'.wordIndex = part.wordIndex
  entry : graph.Twins other part.entry part'.entry

lemma WordPart.Twins.symm {graph other : Graph} {part part' : WordPart}
    (h : part.Twins graph other part') : part'.Twins other graph part :=
  ⟨h.signal_eq.symm, h.wordIndex_eq.symm, h.entry.symm⟩

namespace Reading

/-- The same sentence has been read as far. -/
structure Twins (graph other : Graph) (reading reading' : Reading) : Prop where
  tokens : List.Forall₂ (graph.Twins other) reading.tokens reading'.tokens
  entered_eq : reading'.entered = reading.entered
  exhausted_eq : reading'.exhausted = reading.exhausted
  size_eq : reading'.wordParts.size = reading.wordParts.size
  parts : ∀ (i : Nat) (part part' : WordPart), reading.wordParts[i]? = some part →
    reading'.wordParts[i]? = some part' → part.Twins graph other part'

namespace Twins

lemma start {graph other : Graph} {ids ids' : List EntryId}
    (twins : List.Forall₂ (graph.Twins other) ids ids') :
    (Reading.start ids).Twins graph other (Reading.start ids') :=
  ⟨twins, rfl, rfl, rfl, fun i part part' hpart => by simp [Reading.start] at hpart⟩

variable {graph other : Graph} {reading reading' : Reading}
  (h : reading.Twins graph other reading')
include h

lemma symm : reading'.Twins other graph reading where
  tokens := h.tokens.flip.imp fun _ _ twins => twins.symm
  entered_eq := h.entered_eq.symm
  exhausted_eq := h.exhausted_eq.symm
  size_eq := h.size_eq.symm
  parts i part part' hpart hpart' := (h.parts i part' part hpart' hpart).symm

lemma push {part part' : WordPart} (twins : part.Twins graph other part') (entered : Nat) :
    ({ reading with entered, wordParts := reading.wordParts.push part } : Reading).Twins graph other
      { reading' with entered, wordParts := reading'.wordParts.push part' } where
  tokens := h.tokens
  entered_eq := rfl
  exhausted_eq := h.exhausted_eq
  size_eq := by rw [Array.size_push, Array.size_push, h.size_eq]
  parts i p p' hp hp' := by
    rw [Array.getElem?_push] at hp hp'
    rw [h.size_eq] at hp'
    split at hp
    · next hi =>
      rw [if_pos hi] at hp'
      cases hp
      cases hp'
      exact twins
    · next hi =>
      rw [if_neg hi] at hp'
      exact h.parts i p p' hp hp'

lemma back : Option.Rel (WordPart.Twins graph other) reading.wordParts.back?
    reading'.wordParts.back? := by
  rw [Array.back?_eq_getElem?, Array.back?_eq_getElem?, h.size_eq]
  cases hget : reading.wordParts[reading.wordParts.size - 1]? with
  | none =>
    have hle := Array.getElem?_eq_none_iff.1 hget
    rw [Array.getElem?_eq_none (h.size_eq.trans_le hle)]
    exact .none
  | some part =>
    obtain ⟨hlt, -⟩ := Array.getElem?_eq_some_iff.1 hget
    have hlt' : reading.wordParts.size - 1 < reading'.wordParts.size := hlt.trans_eq h.size_eq.symm
    have hget' := Array.getElem?_eq_getElem hlt'
    rw [hget']
    exact .some (h.parts _ _ _ hget hget')

lemma token {i : Nat} : Option.Rel (graph.Twins other) reading.tokens[i]? reading'.tokens[i]? := by
  have tokens := h.tokens
  generalize reading.tokens = ids at tokens
  generalize reading'.tokens = ids' at tokens
  induction tokens generalizing i with
  | nil => exact .none
  | cons twins _ ih =>
    cases i with
    | zero => exact .some twins
    | succ i => exact ih

lemma current : Option.Rel (WordPart.Twins graph other) reading.current? reading'.current? := by
  rw [current?, current?, h.exhausted_eq]
  split
  · exact .none
  · exact h.back

lemma first : Option.Rel (WordPart.Twins graph other) reading.first.1 reading'.first.1 ∧
    reading.first.2.Twins graph other reading'.first.2 := by
  have tokens := h.tokens
  obtain ⟨ids, entered, wordParts, exhausted⟩ := reading
  obtain ⟨ids', entered', wordParts', exhausted'⟩ := reading'
  have unread : (Reading.start ids).Twins graph other (Reading.start ids') := .start tokens
  cases tokens with
  | nil => exact ⟨.none, unread⟩
  | @cons token token' _ _ twins _ =>
    have part_twins : WordPart.Twins graph other ⟨1, token, 1⟩ ⟨1, token', 1⟩ := ⟨rfl, rfl, twins⟩
    exact ⟨.some part_twins, unread.push part_twins 1⟩

lemma next : Option.Rel (WordPart.Twins graph other) (reading.next graph).1
      (reading'.next other).1 ∧
    (reading.next graph).2.Twins graph other (reading'.next other).2 := by
  have current := h.current
  rw [Reading.next, Reading.next]
  generalize reading.current? = part? at current
  generalize reading'.current? = part?' at current
  cases current with
  | none => exact ⟨.none, h⟩
  | @some part part' twins =>
    dsimp only
    have following := twins.entry.nextPart
    generalize (graph.entry part.entry).nextPart? = next? at following
    generalize (other.entry part'.entry).nextPart? = next?' at following
    cases following with
    | @some entry entry' entry_twins =>
      have next_twins : WordPart.Twins graph other ⟨part.signal + 1, entry, part.wordIndex⟩
          ⟨part'.signal + 1, entry', part'.wordIndex⟩ :=
        ⟨congrArg (· + 1) twins.signal_eq, twins.wordIndex_eq, entry_twins⟩
      have pushed := h.push next_twins reading.entered
      refine ⟨.some next_twins, ?_⟩
      exact ⟨pushed.tokens, h.entered_eq, pushed.exhausted_eq, pushed.size_eq, pushed.parts⟩
    | none =>
      have token := h.token (i := reading.entered)
      rw [h.entered_eq]
      generalize reading.tokens[reading.entered]? = token? at token
      generalize reading'.tokens[reading.entered]? = token?' at token
      cases token with
      | @some entry entry' entry_twins =>
        have next_twins : WordPart.Twins graph other
            ⟨part.signal + 1, entry, part.wordIndex + 1⟩
            ⟨part'.signal + 1, entry', part'.wordIndex + 1⟩ :=
          ⟨congrArg (· + 1) twins.signal_eq, congrArg (· + 1) twins.wordIndex_eq, entry_twins⟩
        exact ⟨.some next_twins, h.push next_twins _⟩
      | none =>
        refine ⟨.none, ?_⟩
        exact ⟨h.tokens, rfl, rfl, h.size_eq, h.parts⟩

/-- Both give the same part of the same word, or none. -/
lemma advance : Option.Rel (WordPart.Twins graph other) (reading.advance graph).1
      (reading'.advance other).1 ∧
    (reading.advance graph).2.Twins graph other (reading'.advance other).2 := by
  have empty_iff : reading'.wordParts.isEmpty = reading.wordParts.isEmpty := by
    rw [Array.isEmpty, Array.isEmpty, h.size_eq]
  rw [Reading.advance, Reading.advance, empty_iff]
  split
  · exact h.first
  · exact h.next

end Twins

end Reading

end MergeGrammar
