import MergeGrammar.Proofs.FeatureWiring
import MergeGrammar.Proofs.PolicyAgreement

/-!
# Expansion of tokens

In a graph made from entries the parts of a word stand one after another, and each of them leads to
the next one. So a token is read in as many steps as its word has parts, and a sentence in as many as
its tokens have together.
-/

namespace MergeGrammar

namespace Graph

variable {categories texts : List String} {first : EntryId} {entry : Entry} {entries : List Entry}

/-- The node of one part of a word whose first part gets the number `first`. -/
def partNode (categories texts : List String) (first : EntryId) (entry : Entry) (index : Nat)
    (part : Part) : LexicalEntry where
  word := entry.word
  index
  part
  siblings := List.range' first entry.parts.length
  categories := part.categories.map (categories.idxOf ·)
  features := part.features.map fun feature => texts.idxOf feature.text

lemma getElem?_wordEntries (i : Nat) : (wordEntries categories texts first entry)[i]? =
    entry.parts[i]?.map (partNode categories texts first entry i) := by
  rw [wordEntries, List.getElem?_map, List.getElem?_zipIdx, Option.map_map, Nat.zero_add]
  rfl

lemma length_wordEntries :
    (wordEntries categories texts first entry).length = entry.parts.length := by
  rw [wordEntries, List.length_map, List.length_zipIdx]

/-- A node is a part of some word, and the parts of this word stand around it in order. -/
lemma getElem?_lexicalEntries {i : Nat} {node : LexicalEntry}
    (h : (lexicalEntries categories texts first entries)[i]? = some node) :
    ∃ entry ∈ entries, ∃ before, i = before + node.index ∧
      (wordEntries categories texts (first + before) entry)[node.index]? = some node ∧
      ∀ j < entry.parts.length, (lexicalEntries categories texts first entries)[before + j]? =
        (wordEntries categories texts (first + before) entry)[j]? := by
  induction entries generalizing first i with
  | nil => cases h
  | cons head entries ih =>
    have hlength := @length_wordEntries categories texts first head
    by_cases hi : i < head.parts.length
    · rw [lexicalEntries, List.getElem?_append_left (by omega)] at h
      have hindex : node.index = i := by
        rw [getElem?_wordEntries, Option.map_eq_some_iff] at h
        obtain ⟨part, -, rfl⟩ := h
        rfl
      refine ⟨head, List.mem_cons_self, 0, by omega, by rwa [hindex], fun j hj => ?_⟩
      rw [lexicalEntries, List.getElem?_append_left (by omega), Nat.zero_add]
      rfl
    · rw [lexicalEntries, List.getElem?_append_right (by omega), hlength] at h
      obtain ⟨entry, hentry, before, heq, hnode, hall⟩ := ih h
      refine ⟨entry, List.mem_cons_of_mem _ hentry, head.parts.length + before, by omega, ?_,
        fun j hj => ?_⟩
      · rwa [← Nat.add_assoc]
      · rw [lexicalEntries, List.getElem?_append_right (by omega), hlength, ← Nat.add_assoc,
          ← hall j hj]
        congr 1
        omega

/-- The categories of the nodes that some entries give rise to. -/
def nodeCategories (entries : List Entry) : List String :=
  distinctBy id ((entries.flatMap Entry.parts).flatMap Part.categories)

/-- The nodes of the word parts of some entries. -/
def partNodes (entries : List Entry) : List LexicalEntry :=
  lexicalEntries (nodeCategories entries) ((nodeFeatures entries).map Feature.text) 0 entries

lemma entries_ofEntries : (ofEntries entries).entries = (partNodes entries).toArray := rfl

lemma getElem?_partNodes {id : EntryId} (hid : id < (ofEntries entries).entries.size) :
    (partNodes entries)[id]? = some ((ofEntries entries).entry id) := by
  have hlt : id < (partNodes entries).length := hid
  rw [entry, entries_ofEntries, Array.getD_eq_getD_getElem?, List.getElem?_toArray,
    List.getElem?_eq_getElem hlt]
  rfl

/-- The parts of a word lead to each other in order. -/
structure Sequenced (graph : Graph) : Prop where
  index_lt : ∀ id < graph.entries.size,
    (graph.entry id).index < (graph.entry id).siblings.length
  next_lt : ∀ id < graph.entries.size, ∀ next, (graph.entry id).nextPart? = some next →
    next < graph.entries.size
  next_index : ∀ id < graph.entries.size, ∀ next, (graph.entry id).nextPart? = some next →
    (graph.entry next).index = (graph.entry id).index + 1
  next_siblings : ∀ id < graph.entries.size, ∀ next, (graph.entry id).nextPart? = some next →
    (graph.entry next).siblings = (graph.entry id).siblings

lemma sequenced_ofEntries (entries : List Entry) : (ofEntries entries).Sequenced := by
  have placed : ∀ id < (ofEntries entries).entries.size,
      ((ofEntries entries).entry id).index < ((ofEntries entries).entry id).siblings.length ∧
      ∀ next, ((ofEntries entries).entry id).nextPart? = some next →
        next < (ofEntries entries).entries.size ∧
        ((ofEntries entries).entry next).index = ((ofEntries entries).entry id).index + 1 ∧
        ((ofEntries entries).entry next).siblings = ((ofEntries entries).entry id).siblings := by
    intro id hid
    obtain ⟨entry, -, before, hplace, hnode, hall⟩ :=
      getElem?_lexicalEntries (getElem?_partNodes hid)
    rw [Nat.zero_add] at hnode hall
    rw [getElem?_wordEntries, Option.map_eq_some_iff] at hnode
    obtain ⟨part, hpart, heq⟩ := hnode
    have hsiblings : ((ofEntries entries).entry id).siblings =
        List.range' before entry.parts.length := by
      rw [← heq]
      rfl
    obtain ⟨hlt, -⟩ := List.getElem?_eq_some_iff.1 hpart
    refine ⟨by rwa [hsiblings, List.length_range'], fun next hnext => ?_⟩
    rw [LexicalEntry.nextPart?, hsiblings] at hnext
    obtain ⟨hlt', rfl⟩ := List.getElem?_eq_some_iff.1 hnext
    rw [List.length_range'] at hlt'
    rw [List.getElem_range', Nat.one_mul]
    have hget := hall _ hlt'
    rw [getElem?_wordEntries, List.getElem?_eq_getElem hlt', Option.map_some] at hget
    obtain ⟨hsize, -⟩ := List.getElem?_eq_some_iff.1 hget
    have hnode := @getElem?_partNodes entries _ hsize
    have hfound := Option.some.inj (hnode.symm.trans hget)
    rw [hfound, hsiblings]
    exact ⟨hsize, rfl, rfl⟩
  exact ⟨fun id hid => (placed id hid).1, fun id hid next h => ((placed id hid).2 next h).1,
    fun id hid next h => ((placed id hid).2 next h).2.1,
    fun id hid next h => ((placed id hid).2 next h).2.2⟩

end Graph

/-! ### Reading the parts of the tokens -/

namespace Reading

variable {graph : Graph} {reading : Reading}

/-- Reads the next word part: the first one if nothing has been read. -/
def advance (graph : Graph) (reading : Reading) : Option WordPart × Reading :=
  if reading.wordParts.isEmpty then reading.first else reading.next graph

/-- The number of parts of the words of some tokens. -/
def expansion (graph : Graph) : List EntryId → Nat
  | [] => 0
  | token :: tokens => (graph.entry token).siblings.length + expansion graph tokens

/-- The number of parts of the current word that have not been read. -/
def pending (graph : Graph) (reading : Reading) : Nat :=
  reading.wordParts.back?.elim 0 fun part =>
    (graph.entry part.entry).siblings.length - ((graph.entry part.entry).index + 1)

/-- The number of word parts that have not been read. -/
def left (graph : Graph) (reading : Reading) : Nat :=
  expansion graph (reading.tokens.drop reading.entered) + reading.pending graph

lemma signalCount_eq (graph : Graph) (reading : Reading) :
    reading.signalCount graph = expansion graph reading.tokens := by
  have counted : ∀ (tokens : List EntryId) (count : Nat),
      tokens.foldl (fun count entry => count + (graph.entry entry).siblings.length) count =
        count + expansion graph tokens := by
    intro tokens
    induction tokens with
    | nil => exact fun _ => rfl
    | cons token tokens ih =>
      intro count
      rw [List.foldl_cons, ih, expansion, Nat.add_assoc]
  rw [signalCount, counted, Nat.zero_add]

lemma pending_push (part : WordPart) (h : reading.wordParts.back? = some part) :
    reading.pending graph =
      (graph.entry part.entry).siblings.length - ((graph.entry part.entry).index + 1) := by
  rw [pending, h, Option.elim_some]

/-- A reading of entries in use that has not been asked for more than there is. -/
structure Steady (graph : Graph) (reading : Reading) : Prop where
  patient : reading.exhausted = false
  tokens_lt : ∀ token ∈ reading.tokens, token < graph.entries.size
  first : ∀ token ∈ reading.tokens, (graph.entry token).isFirstPart = true
  read_lt : ∀ part ∈ reading.wordParts, part.entry < graph.entries.size
  entered_eq : reading.wordParts = #[] → reading.entered = 0

lemma steady_start {tokens : List EntryId} (tokens_lt : ∀ token ∈ tokens, token < graph.entries.size)
    (first : ∀ token ∈ tokens, (graph.entry token).isFirstPart = true) :
    (start tokens).Steady graph where
  patient := rfl
  tokens_lt := tokens_lt
  first := first
  read_lt part hpart := absurd hpart (Array.not_mem_empty part)
  entered_eq _ := rfl

/-- A part is read, and one less is left then. -/
structure Advances (graph : Graph) (reading : Reading) (part : WordPart) (next : Reading) :
    Prop where
  read_eq : reading.advance graph = (some part, next)
  entry_lt : part.entry < graph.entries.size
  steady : next.Steady graph
  size_eq : next.wordParts.size = reading.wordParts.size + 1
  left_eq : next.left graph + 1 = reading.left graph

lemma Steady.advances (h : reading.Steady graph) {part : WordPart} {entered : Nat}
    (read_eq : reading.advance graph =
      (some part, { reading with entered, wordParts := reading.wordParts.push part }))
    (hlt : part.entry < graph.entries.size)
    (hleft : ({ reading with entered, wordParts := reading.wordParts.push part } : Reading).left
      graph + 1 = reading.left graph) :
    reading.Advances graph part
      { reading with entered, wordParts := reading.wordParts.push part } where
  read_eq := read_eq
  entry_lt := hlt
  steady := by
    refine ⟨h.patient, h.tokens_lt, h.first, fun other hother => ?_, fun hempty =>
      absurd hempty Array.push_ne_empty⟩
    rcases Array.mem_push.1 hother with hother | rfl
    · exact h.read_lt other hother
    · exact hlt
  size_eq := Array.size_push _
  left_eq := hleft

lemma Steady.advance_empty (h : reading.Steady graph) (hempty : reading.wordParts = #[])
    {token : EntryId} (htoken : reading.tokens[reading.entered]? = some token) :
    reading.advance graph = (some ⟨1, token, 1⟩,
      { reading with
        entered := reading.entered + 1, wordParts := reading.wordParts.push ⟨1, token, 1⟩ }) := by
  obtain ⟨tokens, entered, wordParts, exhausted⟩ := reading
  have patient : exhausted = false := h.patient
  have hentered : entered = 0 := h.entered_eq hempty
  subst hempty patient hentered
  cases tokens with
  | nil => cases htoken
  | cons first tokens =>
    cases htoken
    rfl

lemma Steady.advance_of_back (h : reading.Steady graph) {current : WordPart}
    (hback : reading.wordParts.back? = some current) :
    reading.advance graph = reading.next graph ∧ reading.current? = some current := by
  have hempty : reading.wordParts.isEmpty = false := by
    rw [Bool.eq_false_iff, ne_eq, Array.isEmpty_iff]
    rintro hnone
    rw [hnone] at hback
    cases hback
  rw [advance, hempty, current?, h.patient]
  exact ⟨rfl, hback⟩

section Pushing

variable (h : reading.Steady graph) (sequenced : graph.Sequenced) {token : EntryId}
include h sequenced

/-- The first part of the next token is read. -/
lemma Steady.left_opened (htoken : reading.tokens[reading.entered]? = some token)
    (hpending : reading.pending graph = 0) (part : WordPart) (hpart : part.entry = token) :
    ({ reading with
        entered := reading.entered + 1, wordParts := reading.wordParts.push part } : Reading).left
      graph + 1 = reading.left graph := by
  obtain ⟨hlt, rfl⟩ := List.getElem?_eq_some_iff.1 htoken
  have hmem : reading.tokens[reading.entered] ∈ reading.tokens := List.getElem_mem hlt
  have hparts := sequenced.index_lt _ (h.tokens_lt _ hmem)
  have hfirst : (graph.entry reading.tokens[reading.entered]).index = 0 :=
    eq_of_beq (h.first _ hmem)
  rw [left, left, hpending, pending_push part Array.back?_push, hpart, hfirst,
    List.drop_eq_getElem_cons hlt, expansion]
  dsimp only
  omega

omit h in
/-- The next part of the current word is read. -/
lemma left_continued {current : WordPart} (hback : reading.wordParts.back? = some current)
    (hcurrent : current.entry < graph.entries.size)
    (hnext : (graph.entry current.entry).nextPart? = some token) (part : WordPart)
    (hpart : part.entry = token) :
    ({ reading with wordParts := reading.wordParts.push part } : Reading).left graph + 1 =
      reading.left graph := by
  have hindex := sequenced.next_index _ hcurrent _ hnext
  have hsiblings := sequenced.next_siblings _ hcurrent _ hnext
  obtain ⟨hlt, -⟩ := List.getElem?_eq_some_iff.1 hnext
  rw [left, left, pending_push part Array.back?_push, pending_push current hback, hpart, hindex,
    hsiblings]
  dsimp only
  omega

/-- As long as something is left a part can be read. -/
lemma Steady.advance (more : 0 < reading.left graph) :
    ∃ part next, reading.Advances graph part next := by
  have entered_lt : reading.pending graph = 0 → reading.entered < reading.tokens.length := by
    intro hpending
    rw [left, hpending, Nat.add_zero] at more
    refine Nat.lt_of_not_le fun hle => ?_
    rw [List.drop_eq_nil_of_le hle] at more
    exact absurd more (Nat.lt_irrefl 0)
  cases hback : reading.wordParts.back? with
  | none =>
    have hempty : reading.wordParts = #[] := Array.back?_eq_none_iff.1 hback
    have hpending : reading.pending graph = 0 := by rw [pending, hback, Option.elim_none]
    have hlt := entered_lt hpending
    have htoken := List.getElem?_eq_getElem hlt
    have token_lt := h.tokens_lt _ (List.getElem_mem hlt)
    have hleft := h.left_opened sequenced htoken hpending ⟨1, _, 1⟩ rfl
    exact ⟨_, _, h.advances (h.advance_empty hempty htoken) token_lt hleft⟩
  | some current =>
    obtain ⟨hadvance, hcurrent⟩ := h.advance_of_back hback
    have current_lt := h.read_lt current (Array.mem_of_back? hback)
    rw [Reading.next, hcurrent] at hadvance
    cases hnext : (graph.entry current.entry).nextPart? with
    | some entry =>
      have entry_lt := sequenced.next_lt _ current_lt _ hnext
      have hleft := left_continued sequenced hback current_lt hnext
        ⟨current.signal + 1, entry, current.wordIndex⟩ rfl
      simp only [hnext] at hadvance
      exact ⟨_, _, h.advances hadvance entry_lt hleft⟩
    | none =>
      have hpending : reading.pending graph = 0 := by
        rw [LexicalEntry.nextPart?, List.getElem?_eq_none_iff] at hnext
        rw [pending_push current hback]
        omega
      have hlt := entered_lt hpending
      have htoken := List.getElem?_eq_getElem hlt
      have token_lt := h.tokens_lt _ (List.getElem_mem hlt)
      have hleft := h.left_opened sequenced htoken hpending
        ⟨current.signal + 1, _, current.wordIndex + 1⟩ rfl
      simp only [hnext, htoken] at hadvance
      exact ⟨_, _, h.advances hadvance token_lt hleft⟩

/-- A sentence is complete when something has been read and nothing is left. -/
lemma Steady.complete_iff : reading.progress graph = .complete ↔
    reading.wordParts ≠ #[] ∧ reading.left graph = 0 := by
  cases hback : reading.wordParts.back? with
  | none =>
    have hempty : reading.wordParts = #[] := Array.back?_eq_none_iff.1 hback
    rw [progress, Array.isEmpty_iff.2 hempty, if_pos rfl]
    exact iff_of_false (fun h => by cases h) fun h => h.1 hempty
  | some current =>
    obtain ⟨-, hcurrent⟩ := h.advance_of_back hback
    have nonempty : reading.wordParts ≠ #[] := by
      rintro hempty
      rw [hempty] at hback
      cases hback
    have parts_lt := sequenced.index_lt _ (h.read_lt current (Array.mem_of_back? hback))
    have expanded : expansion graph (reading.tokens.drop reading.entered) = 0 ↔
        reading.tokens.length ≤ reading.entered := by
      refine ⟨fun hzero => Nat.le_of_not_lt fun hlt => ?_, fun hle => ?_⟩
      · have hparts := sequenced.index_lt _ (h.tokens_lt _ (List.getElem_mem hlt))
        rw [List.drop_eq_getElem_cons hlt, expansion] at hzero
        omega
      · rw [List.drop_eq_nil_of_le hle]
        rfl
    have last : (graph.entry current.entry).isLastPart = true ↔ reading.pending graph = 0 := by
      rw [LexicalEntry.isLastPart, beq_iff_eq, pending_push current hback]
      omega
    have isLast : reading.isLast graph = true ↔ reading.left graph = 0 := by
      rw [isLast, hcurrent, left, Nat.add_eq_zero_iff, expanded, ← last, Bool.and_eq_true,
        decide_eq_true_iff]
    rw [progress, if_neg (by rwa [Array.isEmpty_iff]), h.patient, Bool.false_or, ← isLast]
    simp [nonempty]

end Pushing

end Reading

namespace Session

variable {session : Session}

lemma read_eq_advance (session : Session) :
    session.read = session.reading.advance session.graph := rfl

lemma lt_of_lookupAll {graph : Graph} {tokens : List String} {entries : List EntryId}
    (h : lookupAll graph tokens = .ok entries) : ∀ entry ∈ entries, entry < graph.entries.size := by
  induction tokens generalizing entries with
  | nil =>
    cases h
    exact fun _ hentry => absurd hentry List.not_mem_nil
  | cons token tokens ih =>
    rw [lookupAll] at h
    split at h
    · cases h
    · next found hfound =>
      cases hrest : lookupAll graph tokens with
      | error cause =>
        rw [hrest] at h
        cases h
      | ok rest =>
        rw [hrest] at h
        cases h
        intro entry hentry
        rcases List.mem_cons.1 hentry with rfl | hentry
        · exact (Array.findIdx?_eq_some_iff_getElem.1 hfound).1
        · exact ih hrest entry hentry

/-- A step that reads a word part and leaves one fewer. -/
structure Proceeds (session : Session) (tracing : Bool) (result : StepResult) (next : Session) :
    Prop where
  step_eq : session.stepTracing tracing = (.ok result, next)
  graph_eq : next.graph = session.graph
  steady : next.reading.Steady session.graph
  size_eq : next.consumed = session.consumed + 1
  left_eq : next.reading.left session.graph + 1 = session.reading.left session.graph

section Steady

variable (sequenced : session.graph.Sequenced) (steady : session.reading.Steady session.graph)
include sequenced steady

lemma isComplete_iff_of_steady : session.isComplete = true ↔
    0 < session.consumed ∧ session.reading.left session.graph = 0 := by
  rw [isComplete, beq_iff_eq, Session.progress, steady.complete_iff sequenced, consumed,
    Nat.pos_iff_ne_zero, ne_eq, ne_eq, Array.size_eq_zero_iff]

lemma exists_proceeds (more : 0 < session.reading.left session.graph) (tracing : Bool) :
    ∃ result next, session.Proceeds tracing result next := by
  obtain ⟨part, reading, advances⟩ := steady.advance sequenced more
  have hread : session.read = (some part, reading) := by rw [read_eq_advance, advances.read_eq]
  obtain ⟨result, -, hstep⟩ := stepTracing_some (congrArg Prod.fst hread) tracing
  have reading_eq : (session.entered tracing part result).reading = reading :=
    congrArg Prod.snd hread
  refine ⟨result, _, hstep, rfl, ?_, ?_, ?_⟩
  · rw [reading_eq]
    exact advances.steady
  · rw [consumed, reading_eq, advances.size_eq, consumed]
  · rw [reading_eq, advances.left_eq]

/-- A run of as many steps as there are word parts left reads all of them. -/
lemma runWithin_reads (tracing : Bool) {fuel : Nat}
    (left_eq : session.reading.left session.graph = fuel) :
    ∃ steps last, session.runWithin tracing fuel = (.ok steps, last) ∧
      last.graph = session.graph ∧ last.reading.Steady session.graph ∧
      last.reading.left session.graph = 0 ∧ last.consumed = session.consumed + fuel := by
  induction fuel generalizing session with
  | zero => exact ⟨[], session, rfl, rfl, steady, left_eq, rfl⟩
  | succ fuel ih =>
    have incomplete : session.isComplete = false := by
      rw [Bool.eq_false_iff, ne_eq, isComplete_iff_of_steady sequenced steady, left_eq]
      exact fun h => Nat.succ_ne_zero fuel h.2
    obtain ⟨result, next, proceeds⟩ :=
      exists_proceeds sequenced steady (left_eq ▸ Nat.succ_pos fuel) tracing
    have graph_eq := proceeds.graph_eq
    have next_left : next.reading.left session.graph = fuel :=
      Nat.succ.inj (proceeds.left_eq.trans left_eq)
    rw [← graph_eq] at sequenced next_left
    obtain ⟨steps, last, hrun, last_graph, last_steady, none_left, size_eq⟩ :=
      ih sequenced (graph_eq ▸ proceeds.steady) next_left
    rw [graph_eq] at last_graph last_steady none_left
    refine ⟨result :: steps, last, ?_, last_graph, last_steady, none_left, ?_⟩
    · rw [runWithin, incomplete]
      simp only [Bool.false_eq_true, if_false, proceeds.step_eq, hrun]
      rfl
    · rw [size_eq, proceeds.size_eq, Nat.add_assoc, Nat.add_comm 1]

end Steady

/-- A session of which as many word parts have been read as steps have been made. -/
structure Paced (session : Session) (n : Nat) : Prop where
  sequenced : (session.stepped n).graph.Sequenced
  steady : (session.stepped n).reading.Steady (session.stepped n).graph
  size_eq : (session.stepped n).reading.wordParts.size = n
  left_eq : n + (session.stepped n).reading.left (session.stepped n).graph = session.signalCount

namespace Paced

variable {n : Nat} (h : session.Paced n)
include h

lemma advance (hn : n < session.signalCount) : ∃ part next,
    (session.stepped n).reading.Advances (session.stepped n).graph part next := by
  have left_eq := h.left_eq
  exact h.steady.advance h.sequenced (by omega)

lemma exists_proceeds (hn : n < session.signalCount) :
    ∃ result, (session.stepped n).Proceeds false result (session.stepped (n + 1)) := by
  have left_eq := h.left_eq
  obtain ⟨result, next, proceeds⟩ :=
    Session.exists_proceeds h.sequenced h.steady (by omega) false
  have next_eq : session.stepped (n + 1) = next := by rw [stepped_succ, proceeds.step_eq]
  exact ⟨result, next_eq ▸ proceeds⟩

lemma succ (hn : n < session.signalCount) : session.Paced (n + 1) := by
  obtain ⟨result, proceeds⟩ := h.exists_proceeds hn
  have graph_eq := proceeds.graph_eq
  have left_eq := h.left_eq
  have next_left := proceeds.left_eq
  refine ⟨graph_eq ▸ h.sequenced, graph_eq ▸ proceeds.steady, ?_, ?_⟩
  · exact proceeds.size_eq.trans (congrArg Nat.succ h.size_eq)
  · rw [graph_eq]
    omega

/-- The sentence has been read after a step for each word part. -/
lemma isComplete_iff (hpos : 0 < session.signalCount) :
    (session.stepped n).isComplete = true ↔ n = session.signalCount := by
  have left_eq := h.left_eq
  rw [isComplete_iff_of_steady h.sequenced h.steady, consumed, h.size_eq]
  omega

end Paced

variable {entries : List Entry} {tokens : List String} {options : Options}

/-- A sentence has a word part. -/
lemma signalCount_pos (started : Session.start (.ofEntries entries) tokens options = .ok session) :
    0 < session.signalCount := by
  obtain ⟨found, hfound, rfl⟩ := start_eq_ok started
  have lt_size := lt_of_lookupAll hfound
  rw [signalCount, Reading.signalCount_eq]
  cases found with
  | nil =>
    cases tokens with
    | nil => cases started
    | cons token tokens =>
      rw [lookupAll] at hfound
      split at hfound
      · cases hfound
      · cases hrest : lookupAll (.ofEntries entries) tokens <;> rw [hrest] at hfound <;> cases hfound
  | cons entry found =>
    have hparts := (Graph.sequenced_ofEntries entries).index_lt entry
      (lt_size entry List.mem_cons_self)
    change 0 < Reading.expansion (.ofEntries entries) (entry :: found)
    rw [Reading.expansion]
    omega

/-- A session keeps pace with its steps until the sentence has been read. -/
theorem paced (started : Session.start (.ofEntries entries) tokens options = .ok session) {n : Nat}
    (hn : n ≤ session.signalCount) : session.Paced n := by
  induction n with
  | zero =>
    obtain ⟨found, hfound, rfl⟩ := start_eq_ok started
    refine ⟨Graph.sequenced_ofEntries entries, Reading.steady_start (lt_of_lookupAll hfound)
      (isFirstPart_of_lookupAll hfound), rfl, ?_⟩
    rw [signalCount, Reading.signalCount_eq, Nat.zero_add]
    rfl
  | succ n ih => exact (ih (Nat.le_of_succ_le hn)).succ hn

lemma results_eq_map (session : Session) (n : Nat) :
    session.results n = (List.range' 0 n).map fun k => (session.stepped k).step.1 := by
  induction n with
  | zero => rfl
  | succ n ih =>
    rw [results, List.range'_1_concat, List.map_append, ← ih, Nat.zero_add]
    rfl

lemma runWithin_eq (started : Session.start (.ofEntries entries) tokens options = .ok session)
    {k fuel : Nat} (hsum : k + fuel = session.signalCount) :
    ∃ told, runWithin false fuel (session.stepped k) =
        (.ok told, session.stepped session.signalCount) ∧
      told.map .ok = (List.range' k fuel).map fun i => (session.stepped i).step.1 := by
  induction fuel generalizing k with
  | zero =>
    refine ⟨[], ?_, rfl⟩
    rw [← hsum]
    rfl
  | succ fuel ih =>
    have paced := paced started (n := k) (by omega)
    have incomplete : (session.stepped k).isComplete = false := by
      rw [Bool.eq_false_iff, ne_eq, paced.isComplete_iff (signalCount_pos started)]
      omega
    obtain ⟨result, proceeds⟩ := paced.exists_proceeds (by omega)
    obtain ⟨told, hrun, htold⟩ := ih (k := k + 1) (by omega)
    have hfirst : (session.stepped k).step.1 = .ok result := congrArg Prod.fst proceeds.step_eq
    refine ⟨result :: told, ?_, ?_⟩
    · rw [runWithin, incomplete]
      simp only [Bool.false_eq_true, if_false, proceeds.step_eq, hrun]
      rfl
    · rw [List.map_cons, List.range'_succ, List.map_cons, htold, hfirst]

/-- A run makes a step for each word part, and no step fails. -/
theorem run_eq (started : Session.start (.ofEntries entries) tokens options = .ok session) :
    ∃ told, session.run = (.ok told, session.stepped session.signalCount) ∧
      told.map .ok = session.results session.signalCount := by
  obtain ⟨told, hrun, htold⟩ := runWithin_eq started (Nat.zero_add session.signalCount)
  exact ⟨told, hrun, htold.trans (session.results_eq_map _).symm⟩

/-- A run of a session that has just been started reads the sentence to its end. -/
lemma runTracing_completes (started : Session.start (.ofEntries entries) tokens options = .ok session)
    (tracing : Bool) :
    ∃ steps last, session.runTracing tracing = (.ok steps, last) ∧ last.isComplete = true ∧
      last.consumed = session.signalCount := by
  have paced := paced started (Nat.zero_le session.signalCount)
  have left_eq := paced.left_eq
  rw [Nat.zero_add] at left_eq
  obtain ⟨steps, last, hrun, graph_eq, steady, none_left, size_eq⟩ :=
    runWithin_reads paced.sequenced paced.steady tracing left_eq
  have consumed_eq : last.consumed = session.signalCount := by
    rw [size_eq, consumed, paced.size_eq, Nat.zero_add]
  refine ⟨steps, last, hrun, ?_, consumed_eq⟩
  have sequenced : last.graph.Sequenced := graph_eq ▸ paced.sequenced
  rw [← graph_eq] at steady none_left
  rw [isComplete_iff_of_steady sequenced steady, consumed_eq]
  exact ⟨signalCount_pos started, none_left⟩

end Session

end MergeGrammar
