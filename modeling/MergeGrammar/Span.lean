import MergeGrammar.SignalSet

/-!
# Spans

A span sums up what a route covers: the signal of its head, the stretch from `low` to `high` that it
governs directly, the movers that are still free to land elsewhere and the movers that have been
consumed as an argument. A new span comes from attaching the remnant of the same word, an argument
or an adjunct.
-/

namespace MergeGrammar

structure Span where
  head : Signal
  low : Signal
  high : Signal
  /-- Signals that may still attach at a distance. -/
  movers : SignalSet
  /-- Signals that moved and were consumed. -/
  usedMovers : SignalSet
deriving DecidableEq, Repr

namespace Span

instance : Inhabited Span := ⟨⟨0, 0, 0, ∅, ∅⟩⟩

def leaf (head : Signal) (free : Bool) : Span :=
  ⟨head, head, head, if free then .singleton head else ∅, ∅⟩

/-- A consumed mover is no longer free. -/
def settled (span : Span) : Span := { span with movers := span.movers.diff span.usedMovers }

def withPart (span part : Span) : Span :=
  settled
    { span with
      low := min span.low part.low
      high := max span.high part.high
      movers := span.movers.union part.movers
      usedMovers := span.usedMovers.union part.usedMovers }

/-- Attaches an argument. A free head is consumed by taking an argument. An argument whose head is
free is consumed as well, and `low` stays where it is; any other argument extends the stretch to its
own start. Movers further down in the argument stay free. -/
def withArg (span arg : Span) : Span :=
  let used := (if span.head ∈ span.movers then span.usedMovers.insert span.head
    else span.usedMovers).union arg.usedMovers
  let pending := (span.movers.erase span.head).diff arg.usedMovers
  let consumed := arg.head ∈ pending ∨ arg.head ∈ arg.movers
  settled
    { span with
      low := if consumed then span.low else min span.low arg.low
      high := max span.high arg.high
      movers := (pending.erase arg.head).union (arg.movers.erase arg.head)
      usedMovers := if consumed then used.insert arg.head else used }

/-- Attaches an adjunct. A host whose adjunct has free movers becomes a mover itself. -/
def withAdjunct (span adjunct : Span) : Span :=
  settled
    { span with
      low := min span.low adjunct.low
      high := max span.high adjunct.high
      movers := if adjunct.movers.isEmpty then span.movers else span.movers.insert span.head
      usedMovers := span.usedMovers.union adjunct.usedMovers }

/-- Whether two stretches cross: the one that starts earlier ends after the start of the other.
Stretches with the same start never cross. -/
def overlaps (a b : Span) : Bool :=
  if a.low < b.low then b.low < a.high
  else if b.low < a.low then a.low < b.high
  else false

def sameScope (a b : Span) : Bool :=
  a.low == b.low && a.high == b.high && a.movers == b.movers && a.usedMovers == b.usedMovers

def text (span : Span) : String :=
  "<" ++ toString span.low ++ ".." ++ toString span.high ++ " head:" ++ toString span.head ++
    " movers:" ++ span.movers.text ++ " used:" ++ span.usedMovers.text ++ ">"

/-- A span as a list of numbers. The number of movers comes before the movers, so the list
determines the span. -/
def code (span : Span) : List Nat :=
  span.head :: span.low :: span.high :: span.movers.size ::
    (span.movers.toList ++ span.usedMovers.toList)

theorem code_injective {a b : Span} (h : a.code = b.code) : a = b := by
  obtain ⟨head, low, high, ⟨movers, hm⟩, ⟨used, hu⟩⟩ := a
  obtain ⟨head', low', high', ⟨movers', hm'⟩, ⟨used', hu'⟩⟩ := b
  simp only [code, List.cons.injEq, SignalSet.size] at h
  obtain ⟨rfl, rfl, rfl, hlen, h⟩ := h
  obtain ⟨rfl, rfl⟩ := List.append_inj h hlen
  rfl

end Span

end MergeGrammar
