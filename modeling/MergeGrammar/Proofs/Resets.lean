import MergeGrammar.Proofs.LicenceRuns
import MergeGrammar.Proofs.PrefixStability
import MergeGrammar.Proofs.TableSafety

/-!
# Resets

The licensing state of a session is one that activations and resets lead to, so a reset gives back
the state of the start. The words, the graph and the options of a session are never written, so after
a reset nothing is left of what has been asked before.
-/

namespace MergeGrammar

namespace Session

variable {session : Session}

lemma Stage.reached (h : Stage session) : session.licensing.Reached session.graph := by
  induction h with
  | start started =>
    obtain ⟨entries, -, rfl⟩ := start_eq_ok started
    exact .start
  | reset _ ih => exact ih.reset
  | exhaust _ _ ih => exact ih
  | enter _ _ ih => exact ih.activate _
  | move _ _ ih => exact ih
  | record _ _ ih => exact ih

lemma Stage.reset_eq (h : Stage session) :
    session.reset = ofEntries session.graph session.options session.reading.tokens := by
  rw [Session.reset, h.reached.fits.reset_eq]
  rfl

/-! ### What is never written -/

/-- Two sessions read the same sentence in the same graph under the same options. -/
structure SameTask (session next : Session) : Prop where
  graph_eq : next.graph = session.graph
  options_eq : next.options = session.options
  tokens_eq : next.reading.tokens = session.reading.tokens

namespace SameTask

lemma refl (session : Session) : session.SameTask session := ⟨rfl, rfl, rfl⟩

lemma trans {s t u : Session} (h : s.SameTask t) (h' : t.SameTask u) : s.SameTask u :=
  ⟨h'.graph_eq.trans h.graph_eq, h'.options_eq.trans h.options_eq, h'.tokens_eq.trans h.tokens_eq⟩

lemma stepTracing (session : Session) (tracing : Bool) :
    session.SameTask (session.stepTracing tracing).2 where
  graph_eq := session.graph_stepTracing tracing
  options_eq := session.options_stepTracing tracing
  tokens_eq := by
    rw [reading_stepTracing, read_eq_advance, Reading.tokens_advance]

lemma runWithin (session : Session) (tracing : Bool) (fuel : Nat) :
    session.SameTask (session.runWithin tracing fuel).2 := by
  induction fuel generalizing session with
  | zero => exact refl session
  | succ fuel ih =>
    have stepped := stepTracing session tracing
    rw [Session.runWithin]
    split
    · exact refl session
    · split
      · next hstep => rwa [hstep] at stepped
      · next hstep =>
        rw [hstep] at stepped
        exact stepped.trans (ih _)

lemma perform (session : Session) (operation : Operation) :
    session.SameTask (session.perform operation) := by
  cases operation with
  | step tracing => exact stepTracing session tracing
  | run tracing => exact runWithin session tracing _
  | reset => exact ⟨rfl, rfl, rfl⟩

lemma operations (session : Session) (operations : List Operation) :
    session.SameTask (operations.foldl Session.perform session) := by
  induction operations generalizing session with
  | nil => exact refl session
  | cons operation operations ih => exact (perform session operation).trans (ih _)

end SameTask

/-! ### Answers -/

/-- What a session tells when something is asked of it. -/
inductive Answer where
  | stepped (outcome : Except SessionError StepResult)
  | ran (outcome : Except SessionError (List StepResult))
  | started

def respond (session : Session) : Operation → Answer
  | .step tracing => .stepped (session.stepTracing tracing).1
  | .run tracing => .ran (session.runTracing tracing).1
  | .reset => .started

/-- The answers to several operations in order. -/
def answers (session : Session) : List Operation → List Answer
  | [] => []
  | operation :: operations =>
    session.respond operation :: (session.perform operation).answers operations

lemma answers_append (session : Session) (operations further : List Operation) :
    session.answers (operations ++ further) =
      session.answers operations ++ (operations.foldl perform session).answers further := by
  induction operations generalizing session with
  | nil => rfl
  | cons operation operations ih =>
    rw [List.cons_append, answers, answers, ih, List.cons_append, List.foldl_cons]

/-- Whatever has been asked of a session, a reset gives it back as it started. So everything after the
reset is answered as if nothing had been asked before. -/
theorem reset_forgets {graph : Graph} {tokens : List String} {options : Options}
    (started : Session.start graph tokens options = .ok session) (operations : List Operation) :
    (operations.foldl perform session).reset = session ∧
      ∀ further, session.answers (operations ++ .reset :: further) =
        session.answers operations ++ .started :: session.answers further := by
  have stage := ((Reachable.start started).operations operations).stage
  have same := SameTask.operations session operations
  have reset_eq : (operations.foldl perform session).reset = session := by
    rw [stage.reset_eq, same.graph_eq, same.options_eq, same.tokens_eq]
    obtain ⟨entries, -, rfl⟩ := start_eq_ok started
    rfl
  refine ⟨reset_eq, fun further => ?_⟩
  rw [answers_append, answers, perform, reset_eq]
  rfl

/-- The sample is read to the end and asked for a step more before it is reset. -/
theorem sample_reset_forgets :
    let asked := [Operation.step false, .run true, .step false].foldl perform sample
    asked.routeCount = 6 ∧ asked.reading.exhausted = true ∧ asked.reset = sample :=
  ⟨by decide +kernel, by decide +kernel, (reset_forgets sample_started _).1⟩

end Session

end MergeGrammar
