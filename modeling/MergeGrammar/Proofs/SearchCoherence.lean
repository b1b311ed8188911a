import MergeGrammar.Proofs.SearchMoves

/-!
# Coherence of the tables

The tables of a search point to each other: a word part lists the routes rooted at it, a route is
rooted at a word part that has been read, and every edge is listed at both of its ends. Reading a
word part, joining licensed word parts and every move of the search keep this up.
-/

namespace MergeGrammar

namespace WordPart.StandsIn

variable {part : WordPart} {read : Array WordPart}

lemma le_size (h : part.StandsIn read) : part.signal ≤ read.size := by
  obtain ⟨hlt, -⟩ := Array.getElem?_eq_some_iff.1 h.2
  have hpos := h.1
  lia

lemma mem (h : part.StandsIn read) : part ∈ read := Array.mem_of_getElem? h.2

lemma push (h : part.StandsIn read) (next : WordPart) : part.StandsIn (read.push next) := by
  obtain ⟨hlt, -⟩ := Array.getElem?_eq_some_iff.1 h.2
  refine ⟨h.1, ?_⟩
  rw [Array.getElem?_push, if_neg (Nat.ne_of_lt hlt)]
  exact h.2

lemma of_push (next : WordPart) (h : next.signal = read.size + 1) :
    next.StandsIn (read.push next) := by
  refine ⟨by lia, ?_⟩
  rw [h]
  exact Array.getElem?_push_size

lemma or_eq_of_push {next : WordPart} (h : part.StandsIn (read.push next)) :
    part.StandsIn read ∨ part = next := by
  have hpart := h.2
  rw [Array.getElem?_push] at hpart
  split at hpart
  · exact Or.inr (Option.some.inj hpart).symm
  · exact Or.inl ⟨h.1, hpart⟩

lemma eq {other : WordPart} (h : part.StandsIn read) (h' : other.StandsIn read)
    (hsignal : part.signal = other.signal) : part = other := by
  have hget := h.2
  rw [hsignal, h'.2] at hget
  exact (Option.some.inj hget).symm

end WordPart.StandsIn

/-- The tables of a search fit together and to the word parts read so far. -/
structure SearchState.Coherent (read : Array WordPart) (state : SearchState) : Prop where
  size_parts : state.parts.size = read.size
  root_read : ∀ id, id < state.arena.size → (state.arena.route id).root.StandsIn read
  mem_routesDown : ∀ signal, 0 < signal → ∀ id, id ∈ (state.part signal).routesDown ↔
    id < state.arena.size ∧ (state.arena.route id).root.signal = signal
  ascending : ∀ signal, (state.part signal).routesDown.toList.Pairwise (· < ·)
  mirrored : ∀ kind s t, 0 < s → 0 < t →
    (t ∈ (state.part s).below kind ↔ s ∈ (state.part t).above kind)
  below_pos : ∀ kind s t, 0 < s → t ∈ (state.part s).below kind → 0 < t
  above_pos : ∀ kind s t, 0 < t → s ∈ (state.part t).above kind → 0 < s

lemma Arena.route_push_iff {arena : Arena} {route : Route} {id : RouteId} (P : Route → Prop) :
    id < (arena.push route).size ∧ P ((arena.push route).route id) ↔
      id < arena.size ∧ P (arena.route id) ∨ id = arena.size ∧ P route := by
  rw [Arena.size_push, Nat.lt_succ_iff_lt_or_eq, or_and_right]
  refine or_congr (and_congr_right fun hlt => ?_) (and_congr_right fun heq => ?_)
  · rw [Arena.route_push_of_lt hlt]
  · rw [heq, Arena.route_push_size]

namespace SearchState

variable {graph : Graph} {options : Options} {read : Array WordPart} {state : SearchState}

lemma coherent_start : SearchState.start.Coherent #[] where
  size_parts := rfl
  root_read id hid := absurd hid (Nat.not_lt_zero id)
  mem_routesDown signal _ id := by
    rw [part_eq]
    exact ⟨fun h => absurd h (Array.not_mem_empty id), fun h => absurd h.1 (Nat.not_lt_zero id)⟩
  ascending signal := by
    rw [part_eq]
    exact List.Pairwise.nil
  mirrored kind s t _ _ := by
    rw [part_eq, part_eq]
    cases kind <;> exact ⟨fun h => absurd h List.not_mem_nil, fun h => absurd h List.not_mem_nil⟩
  below_pos kind s t _ h := by
    rw [part_eq] at h
    cases kind <;> exact absurd h List.not_mem_nil
  above_pos kind s t _ h := by
    rw [part_eq] at h
    cases kind <;> exact absurd h List.not_mem_nil

lemma le_size_of_mem_below {kind : MergeKind} {s t : Nat} (hs : 0 < s)
    (ht : t ∈ (state.part s).below kind) : s ≤ state.parts.size := by
  by_contra hlt
  have hnone : state.parts[s - 1]? = none := Array.getElem?_eq_none (by omega)
  rw [part_eq, hnone] at ht
  cases kind <;> exact absurd ht List.not_mem_nil

namespace Coherent

lemma routesDown_size_le (h : state.Coherent read) {signal : Signal} (hpos : 0 < signal) :
    (state.part signal).routesDown.size ≤ state.arena.size := by
  have hnodup : (state.part signal).routesDown.toList.Nodup :=
    (h.ascending signal).imp fun hlt => Nat.ne_of_lt hlt
  have hsub : (state.part signal).routesDown.toList ⊆ List.range state.arena.size := by
    intro id hid
    exact List.mem_range.2 ((h.mem_routesDown signal hpos id).1 (by simpa using hid)).1
  simpa using List.Nodup.length_le_of_subset hnodup hsub

lemma mem_edges (h : state.Coherent read) (kind : MergeKind) {s t : Nat} (hs : 0 < s)
    (ht : 0 < t) : (s, t) ∈ state.edges (·.below kind) ↔ s ∈ (state.part t).above kind := by
  rw [SearchState.mem_edges, ← h.mirrored kind s t hs ht]
  constructor
  · exact fun hedge => hedge.2.2
  · exact fun hedge => ⟨hs, le_size_of_mem_below hs hedge, hedge⟩

lemma root_lt (h : state.Coherent read) {part : WordPart} (standing : part.StandsIn read) :
    part.signal - 1 < state.parts.size := by
  have hle := standing.le_size
  have hsize := h.size_parts
  have hpos := standing.1
  lia

lemma routesDown_add (h : state.Coherent read) {route : Route}
    (hroot : route.root.StandsIn read) (signal : Signal) :
    ((state.add route).part signal).routesDown =
      if route.root.signal - 1 = signal - 1 then
        (state.part signal).routesDown.push state.arena.size
      else (state.part signal).routesDown := by
  rw [part_add]
  split
  · next hs =>
    have hpart : ∀ s : SearchState, s.part signal = s.part route.root.signal := by
      intro s
      rw [part_eq, part_eq, hs]
    rw [hpart, hpart, part_modifyPart_self (h.root_lt hroot)]
  · next hs => rw [part_modifyPart_of_ne hs]

lemma mem_routesDown_add (h : state.Coherent read) {route : Route}
    (hroot : route.root.StandsIn read) {signal : Signal} (hpos : 0 < signal) (id : RouteId) :
    id ∈ ((state.add route).part signal).routesDown ↔
      id < (state.add route).arena.size ∧ ((state.add route).arena.route id).root.signal = signal := by
  rw [h.routesDown_add hroot, arena_add, Arena.route_push_iff (fun r => r.root.signal = signal),
    ← h.mem_routesDown signal hpos id]
  have hroot_pos := hroot.1
  split
  · next hs =>
    have heq : route.root.signal = signal := by lia
    rw [Array.mem_push, and_iff_left heq]
  · next hs =>
    have hne : route.root.signal ≠ signal := fun heq => hs (by rw [heq])
    rw [or_iff_left fun hnew => hne hnew.2]

lemma ascending_add (h : state.Coherent read) {route : Route}
    (hroot : route.root.StandsIn read) (signal : Signal) :
    ((state.add route).part signal).routesDown.toList.Pairwise (· < ·) := by
  rw [h.routesDown_add hroot]
  split
  · next hs =>
    have hpart : state.part signal = state.part route.root.signal := by rw [part_eq, part_eq, hs]
    rw [hpart, Array.toList_push, List.pairwise_append]
    refine ⟨h.ascending _, List.pairwise_singleton _ _, fun id hid new hnew => ?_⟩
    rw [List.mem_singleton.1 hnew]
    exact ((h.mem_routesDown _ hroot.1 id).1 (by simpa using hid)).1
  · exact h.ascending signal

lemma add (h : state.Coherent read) {route : Route} (hroot : route.root.StandsIn read) :
    (state.add route).Coherent read where
  size_parts := (state.extends_add route).size_parts.trans h.size_parts
  root_read id hid := by
    rw [arena_add, Arena.size_push] at hid
    rcases Nat.lt_succ_iff_lt_or_eq.1 hid with hlt | rfl
    · rw [arena_add, Arena.route_push_of_lt hlt]
      exact h.root_read id hlt
    · rwa [arena_add, Arena.route_push_size]
  mem_routesDown _ hpos id := h.mem_routesDown_add hroot hpos id
  ascending := h.ascending_add hroot
  mirrored kind s t hs ht := by
    rw [below_part_add, above_part_add]
    exact h.mirrored kind s t hs ht
  below_pos kind s t := by
    rw [below_part_add]
    exact h.below_pos kind s t
  above_pos kind s t := by
    rw [above_part_add]
    exact h.above_pos kind s t

lemma drop (h : state.Coherent read) (key : List Nat) : (state.drop key).Coherent read := { h with }

lemma root_of_candidate (h : state.Coherent read) {route : Route}
    (candidate : state.Candidate graph options read route) : route.root.StandsIn read := by
  cases candidate with
  | leaf standing => exact standing
  | @attach base sub relation attachable =>
    have hroot : (state.attach base sub relation).root = (state.arena.route base).root := by
      cases relation <;> rfl
    rw [hroot]
    exact h.root_read base attachable.base_lt

lemma move (h : state.Coherent read) {next : SearchState}
    (move : state.Move graph options read next) : next.Coherent read := by
  cases move with
  | add admits => exact h.add (h.root_of_candidate admits.candidate)
  | drop refuses => exact h.drop _

end Coherent

/-! ### Joining word parts -/

lemma openPart_coherent (h : state.Coherent read) (next : WordPart) :
    state.openPart.Coherent (read.push next) where
  size_parts := by simp [openPart, h.size_parts]
  root_read id hid := (h.root_read id hid).push next
  mem_routesDown signal hpos id := by
    rw [part_openPart]
    exact h.mem_routesDown signal hpos id
  ascending signal := by
    rw [part_openPart]
    exact h.ascending signal
  mirrored kind s t hs ht := by
    rw [part_openPart, part_openPart]
    exact h.mirrored kind s t hs ht
  below_pos kind s t := by
    rw [part_openPart]
    exact h.below_pos kind s t
  above_pos kind s t := by
    rw [part_openPart]
    exact h.above_pos kind s t

end SearchState

namespace Licence

def kind : Licence → MergeKind
  | merge _ _ => .merge
  | adjunction _ _ => .pairMerge

def upper : Licence → Signal
  | merge head _ => head
  | adjunction host _ => host

def lower : Licence → Signal
  | merge _ arg => arg
  | adjunction _ adjunct => adjunct

/-- Both word parts of a licence have been read. -/
def Ranges (licence : Licence) (size : Nat) : Prop :=
  (0 < licence.upper ∧ licence.upper ≤ size) ∧ 0 < licence.lower ∧ licence.lower ≤ size

end Licence

namespace PartState

def addBelow (part : PartState) : MergeKind → Signal → PartState
  | .merge, signal => { part with argEdges := part.argEdges ++ [signal] }
  | .pairMerge, signal => { part with adjunctions := part.adjunctions ++ [signal] }

def addAbove (part : PartState) : MergeKind → Signal → PartState
  | .merge, signal => { part with headEdges := part.headEdges ++ [signal] }
  | .pairMerge, signal => { part with adjunctTo := part.adjunctTo ++ [signal] }

variable (part : PartState) (kind other : MergeKind) (signal : Signal)

lemma mem_below_addBelow {t : Signal} : t ∈ (part.addBelow kind signal).below other ↔
    t ∈ part.below other ∨ other = kind ∧ t = signal := by
  cases kind <;> cases other <;> simp [addBelow, below]

lemma mem_above_addAbove {t : Signal} : t ∈ (part.addAbove kind signal).above other ↔
    t ∈ part.above other ∨ other = kind ∧ t = signal := by
  cases kind <;> cases other <;> simp [addAbove, above]

lemma above_addBelow : (part.addBelow kind signal).above other = part.above other := by
  cases kind <;> cases other <;> rfl

lemma below_addAbove : (part.addAbove kind signal).below other = part.below other := by
  cases kind <;> cases other <;> rfl

lemma routesDown_addBelow : (part.addBelow kind signal).routesDown = part.routesDown := by
  cases kind <;> rfl

lemma routesDown_addAbove : (part.addAbove kind signal).routesDown = part.routesDown := by
  cases kind <;> rfl

end PartState

namespace SearchState

variable {graph : Graph} {options : Options} {read : Array WordPart} {state : SearchState}

/-- Writes the edge of a licence at both of its ends. -/
def joined (state : SearchState) (licence : Licence) : SearchState :=
  (state.modifyPart licence.upper (·.addBelow licence.kind licence.lower)).modifyPart
    licence.lower (·.addAbove licence.kind licence.upper)

lemma join?_eq_some {licence : Licence} {next : SearchState}
    (h : state.join? licence = some next) : next = state.joined licence := by
  cases licence with
  | merge head arg =>
    simp only [join?] at h
    split at h
    · cases h
    · exact (Option.some.inj h).symm
  | adjunction host adjunct =>
    simp only [join?] at h
    split at h
    · cases h
    · exact (Option.some.inj h).symm

lemma size_parts_joined (state : SearchState) (licence : Licence) :
    (state.joined licence).parts.size = state.parts.size := by
  simp [joined, modifyPart]

lemma routesDown_joined (state : SearchState) (licence : Licence) (s : Signal) :
    ((state.joined licence).part s).routesDown = (state.part s).routesDown := by
  have hupper : ((state.modifyPart licence.upper
      (·.addBelow licence.kind licence.lower)).part s).routesDown = (state.part s).routesDown := by
    rcases state.part_modifyPart_eq_or licence.upper s _ with h | h
    · rw [h]
    · rw [h, PartState.routesDown_addBelow]
  rw [joined]
  rcases part_modifyPart_eq_or _ licence.lower s (·.addAbove licence.kind licence.upper) with h | h
  · rw [h, hupper]
  · rw [h, PartState.routesDown_addAbove, hupper]

section Joined

variable {licence : Licence} (ranges : licence.Ranges state.parts.size) {s t : Signal}
  {kind : MergeKind}
include ranges

lemma mem_below_joined (hs : 0 < s) : t ∈ ((state.joined licence).part s).below kind ↔
    t ∈ (state.part s).below kind ∨ s = licence.upper ∧ kind = licence.kind ∧ t = licence.lower := by
  obtain ⟨⟨hpos, hle⟩, -⟩ := ranges
  have hlower : ((state.joined licence).part s).below kind = ((state.modifyPart licence.upper
      (·.addBelow licence.kind licence.lower)).part s).below kind := by
    rw [joined]
    rcases part_modifyPart_eq_or _ licence.lower s (·.addAbove licence.kind licence.upper)
      with h | h
    · rw [h]
    · rw [h, PartState.below_addAbove]
  rw [hlower]
  by_cases hupper : s = licence.upper
  · subst hupper
    rw [part_modifyPart_self (by lia), PartState.mem_below_addBelow]
    simp
  · rw [part_modifyPart_of_ne (by lia)]
    simp [hupper]

lemma mem_above_joined (ht : 0 < t) : s ∈ ((state.joined licence).part t).above kind ↔
    s ∈ (state.part t).above kind ∨ s = licence.upper ∧ kind = licence.kind ∧ t = licence.lower := by
  obtain ⟨-, hpos, hle⟩ := ranges
  have hupper : ((state.modifyPart licence.upper
      (·.addBelow licence.kind licence.lower)).part t).above kind = (state.part t).above kind := by
    rcases state.part_modifyPart_eq_or licence.upper t _ with h | h
    · rw [h]
    · rw [h, PartState.above_addBelow]
  rw [joined]
  by_cases hlower : t = licence.lower
  · subst hlower
    rw [part_modifyPart_self (by simp [modifyPart]; lia), PartState.mem_above_addAbove, hupper]
    simp [and_comm]
  · rw [part_modifyPart_of_ne (by lia), hupper]
    simp [hlower]

lemma joined_coherent (h : state.Coherent read) : (state.joined licence).Coherent read where
  size_parts := (state.size_parts_joined licence).trans h.size_parts
  root_read id hid := h.root_read id hid
  mem_routesDown signal hpos id := by
    rw [routesDown_joined]
    exact h.mem_routesDown signal hpos id
  ascending signal := by
    rw [routesDown_joined]
    exact h.ascending signal
  mirrored kind s t hs ht := by
    rw [mem_below_joined ranges hs, mem_above_joined ranges ht, h.mirrored kind s t hs ht]
  below_pos kind s t hs ht := by
    rcases (mem_below_joined ranges hs).1 ht with hold | ⟨-, -, rfl⟩
    · exact h.below_pos kind s t hs hold
    · exact ranges.2.1
  above_pos kind s t ht hs := by
    rcases (mem_above_joined ranges ht).1 hs with hold | ⟨rfl, -, -⟩
    · exact h.above_pos kind s t ht hold
    · exact ranges.1.1

end Joined

/-- What each joining preserves holds after the joining of several licences. -/
lemma joinAll_preserves {P : SearchState → Prop} {licences : List Licence}
    (step : ∀ {s : SearchState}, ∀ licence ∈ licences, P s → P (s.joined licence))
    (start : P state) : P (state.joinAll licences).1 := by
  induction licences generalizing state with
  | nil => exact start
  | cons licence licences ih =>
    rw [joinAll]
    split
    · exact ih (fun l hl => step l (List.mem_cons_of_mem _ hl)) start
    · next next hnext =>
      rw [join?_eq_some hnext]
      exact ih (fun l hl => step l (List.mem_cons_of_mem _ hl))
        (step licence List.mem_cons_self start)

lemma size_parts_joinAll (state : SearchState) (licences : List Licence) :
    (state.joinAll licences).1.parts.size = state.parts.size :=
  joinAll_preserves (P := fun s => s.parts.size = state.parts.size)
    (fun licence _ hs => (size_parts_joined _ licence).trans hs) rfl

/-- Licences for word parts that have been opened stay so during the joinings. -/
lemma joinAll_preserves_ranged {P : SearchState → Prop} {licences : List Licence}
    (ranges : ∀ licence ∈ licences, licence.Ranges state.parts.size)
    (step : ∀ {s : SearchState}, ∀ licence ∈ licences, licence.Ranges s.parts.size → P s →
      P (s.joined licence))
    (start : P state) : P (state.joinAll licences).1 := by
  have kept : (state.joinAll licences).1.parts.size = state.parts.size ∧
      P (state.joinAll licences).1 := by
    refine joinAll_preserves (P := fun s => s.parts.size = state.parts.size ∧ P s)
      (fun licence hlicence hs => ?_) ⟨rfl, start⟩
    obtain ⟨hsize, holds⟩ := hs
    exact ⟨(size_parts_joined _ licence).trans hsize,
      step licence hlicence (hsize ▸ ranges licence hlicence) holds⟩
  exact kept.2

lemma arena_joinAll (state : SearchState) (licences : List Licence) :
    (state.joinAll licences).1.arena = state.arena :=
  joinAll_preserves (P := fun s => s.arena = state.arena) (fun _ _ hs => hs) rfl

lemma joinAll_coherent (h : state.Coherent read) {licences : List Licence}
    (ranges : ∀ licence ∈ licences, licence.Ranges read.size) :
    (state.joinAll licences).1.Coherent read :=
  joinAll_preserves
    (fun licence hl hs => joined_coherent (hs.size_parts ▸ ranges licence hl) hs) h

end SearchState

lemma Climb.Moves.coherent {graph : Graph} {options : Options} {read : Array WordPart}
    {climb next : Climb} (h : Climb.Moves graph options read climb next)
    (coherent : climb.state.Coherent read) : next.state.Coherent read :=
  h.preserves (fun hs move => hs.move move) coherent

end MergeGrammar
