/-!
# Sets of signals

A signal is the position of a word part in the sentence, counted from one. A finite set of signals
is kept as its ascending list, so two sets with the same members are equal.
-/

namespace MergeGrammar

/-- The position of a word part in the sentence, counted from one. -/
abbrev Signal := Nat

/-- A finite set of signals as an ascending list. -/
structure SignalSet where
  toList : List Signal
  ascending : toList.Pairwise (· < ·)
deriving DecidableEq, Repr

namespace SignalSet

/-- Puts a signal into its place in an ascending list, unless it is there already. -/
def insertInto (s : Signal) : List Signal → List Signal
  | [] => [s]
  | a :: rest =>
    if s < a then s :: a :: rest else if s = a then a :: rest else a :: insertInto s rest

theorem mem_insertInto {s x : Signal} {xs : List Signal} :
    x ∈ insertInto s xs ↔ x = s ∨ x ∈ xs := by
  induction xs with
  | nil => simp [insertInto]
  | cons a rest ih =>
    rw [insertInto]
    split
    · simp
    · split
      · next h => simp [h]
      · simp only [List.mem_cons, ih]
        exact or_left_comm

theorem pairwise_insertInto {s : Signal} {xs : List Signal} (h : xs.Pairwise (· < ·)) :
    (insertInto s xs).Pairwise (· < ·) := by
  induction xs with
  | nil => simp [insertInto]
  | cons a rest ih =>
    obtain ⟨ha, hrest⟩ := List.pairwise_cons.1 h
    rw [insertInto]
    split
    · next hs =>
      refine List.pairwise_cons.2 ⟨fun x hx => ?_, h⟩
      rcases List.mem_cons.1 hx with rfl | hx
      · exact hs
      · exact Nat.lt_trans hs (ha x hx)
    · next hlt =>
      split
      · exact h
      · next hne =>
        refine List.pairwise_cons.2 ⟨fun x hx => ?_, ih hrest⟩
        rcases mem_insertInto.1 hx with rfl | hx
        · exact Nat.lt_of_le_of_ne (Nat.le_of_not_lt hlt) (Ne.symm hne)
        · exact ha x hx

instance : Membership Signal SignalSet := ⟨fun set s => s ∈ set.toList⟩

instance (s : Signal) (set : SignalSet) : Decidable (s ∈ set) :=
  inferInstanceAs (Decidable (s ∈ set.toList))

theorem mem_toList {s : Signal} {set : SignalSet} : s ∈ set.toList ↔ s ∈ set := Iff.rfl

instance : EmptyCollection SignalSet := ⟨⟨[], List.Pairwise.nil⟩⟩

instance : Inhabited SignalSet := ⟨∅⟩

@[simp] theorem not_mem_empty (s : Signal) : s ∉ (∅ : SignalSet) := List.not_mem_nil

def singleton (s : Signal) : SignalSet := ⟨[s], List.pairwise_singleton _ s⟩

@[simp] theorem mem_singleton {s x : Signal} : x ∈ singleton s ↔ x = s := List.mem_singleton

def insert (set : SignalSet) (s : Signal) : SignalSet :=
  ⟨insertInto s set.toList, pairwise_insertInto set.ascending⟩

@[simp] theorem mem_insert {set : SignalSet} {s x : Signal} : x ∈ set.insert s ↔ x = s ∨ x ∈ set :=
  mem_insertInto

def filter (p : Signal → Bool) (set : SignalSet) : SignalSet :=
  ⟨set.toList.filter p, set.ascending.filter p⟩

@[simp] theorem mem_filter {p : Signal → Bool} {set : SignalSet} {x : Signal} :
    x ∈ set.filter p ↔ x ∈ set ∧ p x = true := List.mem_filter

def erase (set : SignalSet) (s : Signal) : SignalSet := set.filter (fun x => !(x == s))

@[simp] theorem mem_erase {set : SignalSet} {s x : Signal} : x ∈ set.erase s ↔ x ∈ set ∧ x ≠ s := by
  simp [erase]

def diff (set other : SignalSet) : SignalSet := set.filter fun x => decide (x ∉ other)

@[simp] theorem mem_diff {set other : SignalSet} {x : Signal} :
    x ∈ set.diff other ↔ x ∈ set ∧ x ∉ other := by
  simp [diff]

def union (set other : SignalSet) : SignalSet := other.toList.foldl insert set

theorem mem_foldl_insert {xs : List Signal} {set : SignalSet} {x : Signal} :
    x ∈ xs.foldl insert set ↔ x ∈ set ∨ x ∈ xs := by
  induction xs generalizing set with
  | nil => simp
  | cons a rest ih =>
    simp only [List.foldl_cons, ih, mem_insert, List.mem_cons]
    constructor
    · rintro ((h | h) | h) <;> simp [h]
    · rintro (h | h | h) <;> simp [h]

@[simp] theorem mem_union {set other : SignalSet} {x : Signal} :
    x ∈ set.union other ↔ x ∈ set ∨ x ∈ other := mem_foldl_insert

def ofList (signals : List Signal) : SignalSet := signals.foldl insert ∅

@[simp] theorem mem_ofList {signals : List Signal} {x : Signal} :
    x ∈ ofList signals ↔ x ∈ signals := by
  rw [ofList, mem_foldl_insert]
  simp

def isDisjoint (set other : SignalSet) : Bool := set.toList.all fun x => decide (x ∉ other)

theorem isDisjoint_iff {set other : SignalSet} :
    set.isDisjoint other = true ↔ ∀ x ∈ set, x ∉ other := by
  simp [isDisjoint, mem_toList]

def isEmpty (set : SignalSet) : Bool := set.toList.isEmpty

def size (set : SignalSet) : Nat := set.toList.length

theorem eq_of_ascending {xs ys : List Signal} (hxs : xs.Pairwise (· < ·))
    (hys : ys.Pairwise (· < ·)) (h : ∀ x, x ∈ xs ↔ x ∈ ys) : xs = ys := by
  induction xs generalizing ys with
  | nil =>
    cases ys with
    | nil => rfl
    | cons b ys => exact absurd ((h b).2 List.mem_cons_self) List.not_mem_nil
  | cons a xs ih =>
    cases ys with
    | nil => exact absurd ((h a).1 List.mem_cons_self) List.not_mem_nil
    | cons b ys =>
      obtain ⟨ha, hxs⟩ := List.pairwise_cons.1 hxs
      obtain ⟨hb, htail⟩ := List.pairwise_cons.1 hys
      have hab : a = b := by
        rcases List.mem_cons.1 ((h a).1 List.mem_cons_self) with h1 | h1
        · exact h1
        · rcases List.mem_cons.1 ((h b).2 List.mem_cons_self) with h2 | h2
          · exact h2.symm
          · exact absurd (Nat.lt_trans (ha b h2) (hb a h1)) (Nat.lt_irrefl a)
      subst hab
      refine congrArg (a :: ·) (ih hxs htail fun x => ⟨fun hx => ?_, fun hx => ?_⟩)
      · rcases List.mem_cons.1 ((h x).1 (List.mem_cons_of_mem a hx)) with rfl | hy
        · exact absurd (ha x hx) (Nat.lt_irrefl x)
        · exact hy
      · rcases List.mem_cons.1 ((h x).2 (List.mem_cons_of_mem a hx)) with rfl | hy
        · exact absurd (hb x hx) (Nat.lt_irrefl x)
        · exact hy

@[ext] theorem ext {set other : SignalSet} (h : ∀ x, x ∈ set ↔ x ∈ other) : set = other := by
  cases set
  cases other
  congr
  exact eq_of_ascending (by assumption) (by assumption) h

/-- The written form of a set: its signals in ascending order between braces. -/
def text (set : SignalSet) : String :=
  "\x7b" ++ ", ".intercalate (set.toList.map toString) ++ "\x7d"

end SignalSet

end MergeGrammar
