import Mathlib.Data.List.Infix
import Mathlib.Tactic.Lemma
import MergeGrammar.CommandLine.Program

/-!
# Spellings of options

An option takes its value from the next argument or from behind its own equals sign. The second
spelling drops every repetition of the option that the value begins with, so the two spellings agree
exactly on the values that do not begin with the option itself.
-/

namespace MergeGrammar.CommandLine

/-! ### Repeated marks -/

section Marks

variable {mark text : List Char}

lemma dropMarks_of_unmarked (h : ¬mark <+: text) (fuel : Nat) :
    dropMarks mark fuel text = text := by
  cases fuel with
  | zero => rfl
  | succ fuel => rw [dropMarks, if_neg (mt List.isPrefixOf_iff_prefix.1 h)]

lemma dropMarks_append (mark text : List Char) (fuel : Nat) :
    dropMarks mark (fuel + 1) (mark ++ text) = dropMarks mark fuel text := by
  rw [dropMarks, if_pos (List.isPrefixOf_iff_prefix.2 (List.prefix_append mark text)),
    List.drop_left]

/-- A text is some repetitions of the mark and what is left of it, which the mark does not begin. -/
lemma dropMarks_spec (nonempty : mark ≠ []) {fuel : Nat} (enough : text.length ≤ fuel) :
    (∃ n, text = (List.replicate n mark).flatten ++ dropMarks mark fuel text) ∧
      ¬mark <+: dropMarks mark fuel text := by
  induction fuel generalizing text with
  | zero =>
    obtain rfl : text = [] := List.eq_nil_of_length_eq_zero (Nat.le_zero.1 enough)
    exact ⟨⟨0, rfl⟩, fun h => nonempty (List.prefix_nil.1 h)⟩
  | succ fuel ih =>
    by_cases h : mark <+: text
    · obtain ⟨rest, rfl⟩ := h
      rw [dropMarks_append]
      have shorter : rest.length ≤ fuel := by
        have hpos := List.length_pos_iff.2 nonempty
        rw [List.length_append] at enough
        omega
      obtain ⟨⟨n, hn⟩, hfree⟩ := ih shorter
      refine ⟨⟨n + 1, ?_⟩, hfree⟩
      rw [List.replicate_succ, List.flatten_cons, List.append_assoc, ← hn]
    · rw [dropMarks_of_unmarked h]
      exact ⟨⟨0, rfl⟩, h⟩

end Marks

namespace ValuedOption

variable (option : ValuedOption) (value : String)

/-- The spelling of an option with its value in one argument. -/
def inline : String := option.name ++ "=" ++ value

/-- The value that this spelling stands for. -/
def bare : String :=
  String.ofList (dropMarks option.mark (option.inline value).toList.length (option.inline value).toList)

lemma toList_inline : (option.inline value).toList = option.mark ++ value.toList := by
  simp [inline, mark]

lemma mark_ne_nil : option.mark ≠ [] := by
  cases option <;> decide

lemma toList_bare : ∃ fuel, value.toList.length ≤ fuel ∧
    (option.bare value).toList = dropMarks option.mark fuel value.toList := by
  obtain ⟨n, hn⟩ := Nat.exists_eq_succ_of_ne_zero (List.length_pos_iff.2 option.mark_ne_nil).ne'
  refine ⟨n + value.toList.length, Nat.le_add_left _ _, ?_⟩
  rw [bare, String.toList_ofList, toList_inline, List.length_append, hn, Nat.succ_add,
    dropMarks_append]

/-- The value is read without the repetitions of the mark in front of it. -/
lemma bare_spec : (∃ n, value.toList =
      (List.replicate n option.mark).flatten ++ (option.bare value).toList) ∧
    ¬option.mark <+: (option.bare value).toList := by
  obtain ⟨fuel, enough, heq⟩ := option.toList_bare value
  rw [heq]
  exact dropMarks_spec option.mark_ne_nil enough

lemma bare_eq_iff : option.bare value = value ↔ ¬option.mark <+: value.toList := by
  constructor
  · intro heq
    have hfree := (option.bare_spec value).2
    rwa [heq] at hfree
  · intro hfree
    obtain ⟨fuel, -, heq⟩ := option.toList_bare value
    rw [dropMarks_of_unmarked hfree] at heq
    exact String.toList_injective heq

/-! ### Arguments with an equals sign -/

lemma equals_mem_inline : '=' ∈ (option.inline value).toList := by
  rw [toList_inline, mark]
  simp

lemma equals_not_mem {argument : String}
    (h : argument = option.name ∨ some argument = option.shortName?) : '=' ∉ argument.toList := by
  rcases h with rfl | hshort
  · cases option <;> decide
  · cases option with
    | lexicon | sentences =>
      cases hshort
      decide
    | policy | profileCap | maxRoutes => cases hshort

lemma ofArgument?_of_equals {argument : String} (h : '=' ∈ argument.toList) :
    ofArgument? argument = none := by
  refine List.find?_eq_none.2 fun option _ hnamed => option.equals_not_mem ?_ h
  rwa [Bool.or_eq_true, beq_iff_eq, beq_iff_eq] at hnamed

/-- No option begins with the mark of another one. -/
lemma find?_mark (text : List Char) :
    (all.find? fun other => other.mark.isPrefixOf (option.mark ++ text)) = some option := by
  cases option <;> rfl

lemma split?_inline : split? (option.inline value) = some (option, option.bare value) := by
  rw [split?, toList_inline, find?_mark, Option.map_some, bare, toList_inline]

lemma exists_inline {argument : String} (h : split? argument = some (option, value)) :
    ∃ written, argument = option.inline written := by
  obtain ⟨other, hfound, heq⟩ := Option.map_eq_some_iff.1 h
  cases heq
  have hmark : option.mark.isPrefixOf argument.toList = true :=
    List.find?_some (p := fun option : ValuedOption => option.mark.isPrefixOf argument.toList) hfound
  obtain ⟨rest, hrest⟩ := List.isPrefixOf_iff_prefix.1 hmark
  refine ⟨String.ofList rest, String.toList_injective ?_⟩
  rw [toList_inline, String.toList_ofList, hrest]

end ValuedOption

lemma Request.flag?_of_equals (request : Request) {argument : String}
    (h : '=' ∈ argument.toList) : request.flag? argument = none := by
  unfold flag?
  split <;> first | rfl | exact absurd h (by decide)

/-! ### The arguments one by one -/

section Arguments

variable {request next later : Request} {argument value : String} {option : ValuedOption}
  {before : List String}

/-- Goes on if the value of an option could be taken in. -/
def proceed (rest : List String) : Except String Request → Except String Command
  | .error cause => .error cause
  | .ok request => readFrom request rest

lemma readFrom_flag (hflag : request.flag? argument = some next) (rest : List String) :
    readFrom request (argument :: rest) = readFrom next rest := by
  unfold Request.flag? at hflag
  split at hflag <;> cases hflag <;> rfl

lemma named_of_ofArgument? (hoption : ValuedOption.ofArgument? argument = some option) :
    argument = option.name ∨ some argument = option.shortName? := by
  have hnamed := List.find?_some hoption
  rwa [Bool.or_eq_true, beq_iff_eq, beq_iff_eq] at hnamed

lemma readFrom_unvalued (hoption : ValuedOption.ofArgument? argument = some option) :
    readFrom request [argument] = .error option.missingValue := by
  rcases named_of_ofArgument? hoption with rfl | hshort
  · cases option <;> rfl
  · cases option <;> cases hshort <;> rfl

lemma readFrom_separate (hoption : ValuedOption.ofArgument? argument = some option)
    (rest : List String) : readFrom request (argument :: value :: rest) =
      proceed rest (request.set option value) := by
  rcases named_of_ofArgument? hoption with rfl | hshort
  · cases option <;> rfl
  · cases option <;> cases hshort <;> rfl

lemma readFrom_inline (rest : List String) : readFrom request (option.inline value :: rest) =
    proceed rest (request.set option (option.bare value)) := by
  have hequals := option.equals_mem_inline value
  have other : ∀ name : String, '=' ∉ name.toList → (option.inline value == name) = false :=
    fun name hname => beq_eq_false_iff_ne.2 fun heq => hname (heq ▸ hequals)
  rw [readFrom, other "-h" (by decide), other "--help" (by decide), other "-V" (by decide),
    other "--version" (by decide), request.flag?_of_equals hequals,
    ValuedOption.ofArgument?_of_equals hequals, other "--" (by decide), ValuedOption.split?_inline]
  rfl

/-- The arguments are options with their values, and reading them leads from one request to another
one. -/
inductive Passes : Request → List String → Request → Prop where
  | nil (request : Request) : Passes request [] request
  | flag {request next later : Request} {argument : String} {rest : List String}
    (hflag : request.flag? argument = some next) (passes : Passes next rest later) :
    Passes request (argument :: rest) later
  | separate {request next later : Request} {argument value : String} {option : ValuedOption}
    {rest : List String} (hoption : ValuedOption.ofArgument? argument = some option)
    (hset : request.set option value = .ok next) (passes : Passes next rest later) :
    Passes request (argument :: value :: rest) later
  | inline {request next later : Request} {value : String} {option : ValuedOption}
    {rest : List String} (hset : request.set option (option.bare value) = .ok next)
    (passes : Passes next rest later) : Passes request (option.inline value :: rest) later

lemma Passes.readFrom_append (passes : Passes request before later) (rest : List String) :
    readFrom request (before ++ rest) = readFrom later rest := by
  induction passes with
  | nil => rfl
  | flag hflag _ ih => exact (readFrom_flag hflag _).trans ih
  | separate hoption hset _ ih =>
    refine (readFrom_separate hoption _).trans ?_
    rw [hset]
    exact ih
  | inline hset _ ih =>
    refine (readFrom_inline _).trans ?_
    rw [hset]
    exact ih

/-- An argument is an option, or reading ends with it. -/
lemma argument_cases (request : Request) (argument : String) :
    (∃ next, request.flag? argument = some next) ∨
    (∃ option, ValuedOption.ofArgument? argument = some option) ∨
    (∃ (option : ValuedOption) (value : String), argument = option.inline value) ∨
    (∀ rest later, readFrom request (argument :: rest) ≠ .ok (.analyse later)) ∨
    ∀ rest, readFrom request (argument :: rest) ≠ .ok .showHelp := by
  cases hflag : request.flag? argument with
  | some next => exact Or.inl ⟨next, rfl⟩
  | none =>
    cases hoption : ValuedOption.ofArgument? argument with
    | some option => exact Or.inr (Or.inl ⟨option, rfl⟩)
    | none =>
      cases hsplit : ValuedOption.split? argument with
      | some found =>
        obtain ⟨value, hvalue⟩ := found.1.exists_inline found.2 hsplit
        exact Or.inr (Or.inr (Or.inl ⟨found.1, value, hvalue⟩))
      | none =>
        refine Or.inr (Or.inr (Or.inr ?_))
        simp only [readFrom, hflag, hoption, hsplit]
        split_ifs
        · exact Or.inl fun rest later h => by cases h
        · exact Or.inl fun rest later h => by cases h
        · exact Or.inr fun rest h => by cases h
        · exact Or.inl fun rest later h => by cases h
        · exact Or.inr fun rest h => by cases h

lemma proceed_eq_ok {rest : List String} {result : Except String Request} {command : Command}
    (h : proceed rest result = .ok command) : ∃ next, result = .ok next := by
  cases result with
  | error cause => cases h
  | ok next => exact ⟨next, rfl⟩

/-- Arguments are passed exactly if whatever follows them is read with the request that they have
made. -/
lemma passes_iff : Passes request before later ↔
    ∀ rest, readFrom request (before ++ rest) = readFrom later rest := by
  refine ⟨Passes.readFrom_append, fun h => ?_⟩
  induction hn : before.length using Nat.strong_induction_on generalizing before request with
  | _ n ih =>
    subst hn
    have stop : readFrom request before = .ok (.analyse later) := by
      rw [← List.append_nil before, h]
      rfl
    have help : readFrom request (before ++ ["-h"]) = .ok .showHelp := h ["-h"]
    cases before with
    | nil =>
      cases stop
      exact .nil later
    | cons argument before =>
      rcases argument_cases request argument with
        ⟨next, hflag⟩ | ⟨option, hoption⟩ | ⟨option, value, rfl⟩ | ends | ends
      · refine .flag hflag (ih before.length (Nat.lt_succ_self _) (fun rest => ?_) rfl)
        exact (readFrom_flag hflag _).symm.trans (h rest)
      · cases before with
        | nil =>
          rw [readFrom_unvalued hoption] at stop
          cases stop
        | cons value before =>
          rw [readFrom_separate hoption] at stop
          obtain ⟨next, hset⟩ := proceed_eq_ok stop
          refine .separate hoption hset (ih before.length ?_ (fun rest => ?_) rfl)
          · simp only [List.length_cons]
            omega
          · refine Eq.trans ?_ (h rest)
            rw [List.cons_append, List.cons_append, readFrom_separate hoption, hset]
            rfl
      · rw [readFrom_inline] at stop
        obtain ⟨next, hset⟩ := proceed_eq_ok stop
        refine .inline hset (ih before.length (Nat.lt_succ_self _) (fun rest => ?_) rfl)
        refine Eq.trans ?_ (h rest)
        rw [List.cons_append, readFrom_inline, hset]
        rfl
      · exact absurd stop (ends _ _)
      · exact absurd help (ends _)

end Arguments

/-! ### Configurations -/

/-- What the program has to work on, before it loads a lexicon. -/
structure Configuration where
  sentences : List String
  lexicon : Option String
  options : Options
  exporting : Bool
  color : Bool
  verbosity : Nat
deriving DecidableEq

def Request.configuration (request : Request) (surroundings : Surroundings)
    (sentences : List String) : Configuration where
  sentences
  lexicon := request.lexicon
  options := request.options
  exporting := request.exporting
  color := request.color.getD surroundings.outputIsTerminal
  verbosity := request.verbosity

/-- The configuration that the arguments ask for, or the end of the program if there is none. -/
def configure (surroundings : Surroundings) (arguments : List String) :
    Except Outcome Configuration :=
  match requestOf arguments with
  | .error outcome => .error outcome
  | .ok request =>
    match request.sentences surroundings with
    | .error cause => .error (.misuse cause)
    | .ok sentences => .ok (request.configuration surroundings sentences)

/-- Requests with the same configuration lead to the same job. -/
lemma Request.prepare_eq {request other : Request} {surroundings : Surroundings}
    {sentences sentences' : List String} (hrequest : request.sentences surroundings = .ok sentences)
    (hother : other.sentences surroundings = .ok sentences')
    (h : request.configuration surroundings sentences =
      other.configuration surroundings sentences') :
    request.prepare surroundings = other.prepare surroundings := by
  simp only [configuration, Configuration.mk.injEq] at h
  obtain ⟨rfl, lexicon_eq, options_eq, exporting_eq, color_eq, verbosity_eq⟩ := h
  have load_eq : request.loadLexicon surroundings = other.loadLexicon surroundings := by
    unfold loadLexicon
    rw [lexicon_eq]
  have threshold_eq : request.threshold = other.threshold := by
    unfold threshold
    rw [verbosity_eq]
  unfold prepare
  rw [hrequest, hother, load_eq, options_eq, exporting_eq, color_eq, threshold_eq]

/-- The end of the program with a request. -/
def Request.outcome (request : Request) (surroundings : Surroundings) (times : Times)
    (connection : Viewer.Connection) : Outcome :=
  match request.prepare surroundings with
  | .error cause => .misuse cause
  | .ok job => .ofOutput (job.answerAll times connection .start job.sentences)

/-- Without a configuration the program ends at once. -/
lemma run_cases (surroundings : Surroundings) (times : Times) (connection : Viewer.Connection)
    (arguments : List String) :
    (∃ outcome, configure surroundings arguments = .error outcome ∧
      run surroundings times connection arguments = outcome) ∨
    ∃ (request : Request) (sentences : List String),
      request.sentences surroundings = .ok sentences ∧
      configure surroundings arguments = .ok (request.configuration surroundings sentences) ∧
      run surroundings times connection arguments =
        request.outcome surroundings times connection := by
  unfold configure run
  cases requestOf arguments with
  | error outcome => exact Or.inl ⟨outcome, rfl, rfl⟩
  | ok request =>
    cases hsentences : request.sentences surroundings with
    | error cause =>
      refine Or.inl ⟨.misuse cause, ?_, ?_⟩
      · simp only [hsentences]
      · simp only [Request.prepare, hsentences]
    | ok sentences =>
      refine Or.inr ⟨request, sentences, hsentences, ?_, rfl⟩
      simp only [hsentences]

/-- What the program does is determined by its configuration. -/
theorem run_eq_of_configure_eq {surroundings : Surroundings} {arguments others : List String}
    (h : configure surroundings arguments = configure surroundings others) (times : Times)
    (connection : Viewer.Connection) :
    run surroundings times connection arguments = run surroundings times connection others := by
  rcases run_cases surroundings times connection arguments with
    ⟨outcome, hconfigure, hrun⟩ | ⟨request, sentences, hsentences, hconfigure, hrun⟩ <;>
  rcases run_cases surroundings times connection others with
    ⟨outcome', hconfigure', hrun'⟩ | ⟨request', sentences', hsentences', hconfigure', hrun'⟩ <;>
  rw [hconfigure, hconfigure'] at h
  · rw [hrun, hrun', Except.error.inj h]
  · cases h
  · cases h
  · rw [hrun, hrun', Request.outcome, Request.outcome,
      Request.prepare_eq hsentences hsentences' (Except.ok.inj h)]

/-! ### The two spellings -/

lemma eq_of_enclosed {before after text other : String}
    (h : before ++ text ++ after = before ++ other ++ after) : text = other :=
  (String.append_right_inj before).1 ((String.append_left_inj after).1 h)

lemma misuse_injective : Function.Injective Outcome.misuse := fun _ _ h =>
  (String.append_left_inj "\n").1 (congrArg Outcome.err h)

/-- Wherever options stand before them, the arguments can be replaced by the others without a change
in what the program is asked for or in the text that it is refused with. -/
def Interchangeable (arguments others : List String) : Prop :=
  ∀ (surroundings : Surroundings) (request : Request) (before after : List String),
    Passes .standard before request →
      configure surroundings (before ++ (arguments ++ after)) =
        configure surroundings (before ++ (others ++ after))

lemma interchangeable_of_readFrom {arguments others : List String}
    (h : ∀ request after, readFrom request (arguments ++ after) =
      readFrom request (others ++ after)) : Interchangeable arguments others := by
  intro surroundings request before after passes
  have same : read (before ++ (arguments ++ after)) = read (before ++ (others ++ after)) := by
    rw [read, read, passes.readFrom_append, passes.readFrom_append, h]
  unfold configure requestOf
  rw [same]

namespace ValuedOption

variable (option : ValuedOption) {value other : String}

lemma ofArgument?_name : ofArgument? option.name = some option := by
  cases option <;> rfl

/-- One argument with an equals sign stands for the option and the value without repetitions. -/
lemma interchangeable_bare (value : String) :
    Interchangeable [option.inline value] [option.name, option.bare value] := by
  refine interchangeable_of_readFrom fun request after => ?_
  exact (readFrom_inline after).trans (readFrom_separate option.ofArgument?_name after).symm

/-- The text with which a value is refused. Paths are not refused. -/
def refusal (value : String) : String :=
  match option with
  | policy => "error: " ++ ("unknown neighbor policy '" ++ value ++
      "' (expected mover-aware, strict or movement-licensed)")
  | option => "error: invalid " ++ option.name ++ " '" ++ value ++
      "' (expected a non-negative integer)"

lemma refusal_injective : Function.Injective option.refusal := by
  intro value other h
  cases option with
  | policy => exact eq_of_enclosed ((String.append_right_inj _).1 h)
  | lexicon | sentences | profileCap | maxRoutes => exact eq_of_enclosed h

/-- A value is taken in or refused by its own text. -/
lemma set_cases (request : Request) (value : String) :
    (∃ next, request.set option value = .ok next) ∨
      request.set option value = .error (option.refusal value) := by
  have counted : ∀ make : Nat → Request,
      (∃ next, (readCount option value).map make = .ok next) ∨
        (readCount option value).map make = .error ("error: invalid " ++ option.name ++ " '" ++
          value ++ "' (expected a non-negative integer)") := by
    intro make
    unfold readCount
    cases count? value with
    | some n => exact Or.inl ⟨make n, rfl⟩
    | none => exact Or.inr rfl
  cases option with
  | lexicon | sentences => exact Or.inl ⟨_, rfl⟩
  | policy =>
    unfold Request.set Policy.ofName
    split_ifs
    · exact Or.inl ⟨_, rfl⟩
    · exact Or.inl ⟨_, rfl⟩
    · exact Or.inl ⟨_, rfl⟩
    · exact Or.inr rfl
  | profileCap | maxRoutes => exact counted _

/-- What begins with a dash is neither the name of a policy nor a number. -/
lemma set_of_mark (request : Request) (marked : option.mark <+: value.toList) :
    option = lexicon ∨ option = sentences ∨
      request.set option value = .error (option.refusal value) := by
  obtain ⟨rest, hrest⟩ : ∃ rest, value.toList = '-' :: rest := by
    obtain ⟨rest, hrest⟩ := marked
    rw [← hrest]
    cases option <;> exact ⟨_, rfl⟩
  have uncounted : count? value = none := by
    unfold count?
    rw [hrest]
    rfl
  have unnamed : ∀ policy : Policy, value ≠ policy.name := by
    rintro policy rfl
    cases policy <;> cases hrest
  cases option with
  | lexicon => exact Or.inl rfl
  | sentences => exact Or.inr (Or.inl rfl)
  | policy =>
    refine Or.inr (Or.inr ?_)
    unfold Request.set Policy.ofName
    rw [if_neg (unnamed _), if_neg (unnamed _), if_neg (unnamed _)]
    rfl
  | profileCap | maxRoutes =>
    refine Or.inr (Or.inr ?_)
    unfold Request.set readCount
    rw [uncounted]
    rfl

/-- The end of a program that is asked for help behind an option. -/
lemma configure_help (surroundings : Surroundings) (value : String) :
    configure surroundings [option.name, value, "-h"] =
      match Request.standard.set option value with
      | .error cause => .error (.misuse cause)
      | .ok _ => .error ⟨0, helpText ++ "\n", ""⟩ := by
  unfold configure requestOf
  rw [read, readFrom_separate option.ofArgument?_name]
  cases Request.standard.set option value with
  | error cause => rfl
  | ok next => rfl

/-- A value that begins with the option itself does not stand for any other value. -/
lemma not_interchangeable (marked : option.mark <+: value.toList) (ne : other ≠ value) :
    ¬Interchangeable [option.name, other] [option.name, value] := by
  intro h
  -- The program reads neither files nor input.
  let surroundings : Surroundings := ⟨fun _ => .error "", .error "", none, false⟩
  have same : ∀ after, configure surroundings (option.name :: other :: after) =
      configure surroundings (option.name :: value :: after) := fun after =>
    h surroundings .standard [] after (.nil _)
  rcases option.set_of_mark .standard marked with rfl | rfl | refused
  · have configuration_eq := Except.ok.inj (same ["a"])
    exact ne (Option.some.inj (congrArg Configuration.lexicon configuration_eq))
  · have cause_eq : unreadable other "" = unreadable value "" :=
      misuse_injective (Except.error.inj (same []))
    exact ne (eq_of_enclosed ((String.append_left_inj "").1 cause_eq))
  · have ends := same ["-h"]
    rw [configure_help, configure_help, refused] at ends
    rcases option.set_cases .standard other with ⟨next, hnext⟩ | hrefused
    · rw [hnext] at ends
      have exit_eq : 0 = 2 := congrArg Outcome.exit (Except.error.inj ends)
      cases exit_eq
    · rw [hrefused] at ends
      exact ne (option.refusal_injective (misuse_injective (Except.error.inj ends)))

/-- In one argument an option takes its value without the repetitions of itself in front of it, and
in two arguments it takes the whole value. So the two spellings agree, whatever stands around them,
exactly if the value does not begin with the option and its equals sign. -/
theorem spellings_agree_iff (value : String) :
    Interchangeable [option.inline value] [option.name, option.bare value] ∧
    (∃ n, value.toList = (List.replicate n option.mark).flatten ++ (option.bare value).toList) ∧
    ¬option.mark <+: (option.bare value).toList ∧
    (Interchangeable [option.inline value] [option.name, value] ↔ ¬option.mark <+: value.toList) := by
  have bare := option.interchangeable_bare value
  obtain ⟨repeated, unmarked⟩ := option.bare_spec value
  refine ⟨bare, repeated, unmarked, fun agree marked => ?_, fun unmarked => ?_⟩
  · have ne : option.bare value ≠ value := fun heq => (option.bare_eq_iff value).1 heq marked
    refine option.not_interchangeable marked ne fun surroundings request before after passes => ?_
    exact (bare surroundings request before after passes).symm.trans
      (agree surroundings request before after passes)
  · rwa [(option.bare_eq_iff value).2 unmarked] at bare

end ValuedOption

/-- A program without files, input and terminal. -/
def Surroundings.bare : Surroundings where
  file _ := .error "No such file or directory (os error 2)"
  input := .ok ""
  logSetting := none
  outputIsTerminal := false

/-- A path that begins with another option is taken as it is in both spellings. -/
theorem path_spellings_agree :
    configure .bare ["-v", "-l", "--policy=strict", "--profile-cap=7", "--lexicon=--policy=--lexicon=",
        "a", "b"] =
      configure .bare ["-v", "-l", "--policy=strict", "--profile-cap=7", "--lexicon",
        "--policy=--lexicon=", "a", "b"] := by
  obtain ⟨-, -, -, agree_iff⟩ := ValuedOption.lexicon.spellings_agree_iff "--policy=--lexicon="
  have passes : Passes .standard ["-v", "-l", "--policy=strict", "--profile-cap=7"]
      { Request.standard with
        verbosity := 1
        lexicon := some "--policy=strict"
        options := { Options.standard with profileCap := 7 } } :=
    .flag rfl (.separate rfl rfl (@Passes.inline _ _ _ "7" .profileCap _ rfl (.nil _)))
  exact agree_iff.2 (by decide) .bare _ _ ["a", "b"] passes

/-- A limit that begins with its own option is read in one argument and refused in two. -/
theorem repeated_limit_read :
    configure .bare ["--max-routes=--max-routes=5", "a"] =
      .ok ⟨["a"], none, { Options.standard with maxRoutes := 5 }, false, false, 0⟩ ∧
    configure .bare ["--max-routes", "--max-routes=5", "a"] =
      .error (.misuse
        "error: invalid --max-routes '--max-routes=5' (expected a non-negative integer)") ∧
    ¬Interchangeable ["--max-routes=--max-routes=5"] ["--max-routes", "--max-routes=5"] := by
  have read_inline : configure .bare ["--max-routes=--max-routes=5", "a"] =
      .ok ⟨["a"], none, { Options.standard with maxRoutes := 5 }, false, false, 0⟩ := rfl
  have refused : configure .bare ["--max-routes", "--max-routes=5", "a"] = .error (.misuse
      "error: invalid --max-routes '--max-routes=5' (expected a non-negative integer)") := rfl
  refine ⟨read_inline, refused, fun h => ?_⟩
  have same := h .bare .standard [] ["a"] (.nil _)
  cases read_inline.symm.trans (same.trans refused)

end MergeGrammar.CommandLine
