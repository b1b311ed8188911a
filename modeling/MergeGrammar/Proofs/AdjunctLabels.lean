import MergeGrammar.Proofs.AcyclicArenas
import MergeGrammar.Proofs.DrawnTrees

/-!
# Labels of adjuncts

The label of a host is gathered from those of its adjuncts, once while its tree is drawn and once
more for the host that it is an adjunct of. Both times the same is gathered: what a derivation adds to
the label of its host stands at the top of its own label tree. In the signal tree this is so for hosts
without an argument, but the mark of a root that can move is not carried on.
-/

namespace MergeGrammar

namespace Bracketing

/-- The label at the top of a tree. -/
def top : Bracketing → String
  | leaf label => label
  | branch label _ _ => label

end Bracketing

namespace Derivation

variable {graph : Graph} {α β : Type}

/-! ### The two sides of a host -/

/-- The adjuncts on the left of their host, from left to right. The one attached last stands
first. -/
def leftAdjuncts (host : Signal) (adjuncts : List Derivation) : List Derivation :=
  (adjuncts.filter fun d => ¬host < d.root.signal).reverse

/-- The adjuncts on the right of their host, from left to right. -/
def rightAdjuncts (host : Signal) (adjuncts : List Derivation) : List Derivation :=
  adjuncts.filter fun d => host < d.root.signal

/-- What adjuncts add to what is their host's own, on both sides of it. -/
def around (host : Signal) (added : Derivation → List α) (own : List α)
    (adjuncts : List Derivation) : List α :=
  (leftAdjuncts host adjuncts).flatMap added ++ own ++ (rightAdjuncts host adjuncts).flatMap added

section Around

variable {host : Signal} {added : Derivation → List α} {own : List α} {d : Derivation}
  {ds : List Derivation}

@[simp] lemma around_nil : around host added own [] = own := by
  simp [around, leftAdjuncts, rightAdjuncts]

lemma around_cons_of_lt (h : host < d.root.signal) :
    around host added own (d :: ds) = around host added (own ++ added d) ds := by
  simp [around, leftAdjuncts, rightAdjuncts, h]

lemma around_cons_of_not_lt (h : ¬host < d.root.signal) :
    around host added own (d :: ds) = around host added (added d ++ own) ds := by
  simp [around, leftAdjuncts, rightAdjuncts, not_lt.1 h]

/-- What adjuncts add to a single item stands before and after it. -/
lemma around_own {own : α} : around host added [own] ds =
    (leftAdjuncts host ds).flatMap added ++ own :: (rightAdjuncts host ds).flatMap added := by
  rw [around, List.append_assoc, List.singleton_append]

lemma around_singleton {added : Derivation → α} {own : α} :
    around host (fun d => [added d]) [own] ds =
      (leftAdjuncts host ds).map added ++ own :: (rightAdjuncts host ds).map added := by
  rw [around_own, List.map_eq_flatMap, List.map_eq_flatMap]

lemma map_around (f : α → β) :
    (around host added own ds).map f = around host (fun d => (added d).map f) (own.map f) ds := by
  simp [around, List.map_flatMap]

lemma around_congr {other : Derivation → List α} (h : ∀ d ∈ ds, added d = other d) :
    around host added own ds = around host other own ds := by
  induction ds generalizing own with
  | nil => rw [around_nil, around_nil]
  | cons d ds ih =>
    have hd := h d List.mem_cons_self
    have hds := fun own => @ih own fun e he => h e (List.mem_cons_of_mem _ he)
    by_cases hlt : host < d.root.signal
    · rw [around_cons_of_lt hlt, around_cons_of_lt hlt, hd, hds]
    · rw [around_cons_of_not_lt hlt, around_cons_of_not_lt hlt, hd, hds]

/-- The texts that an adjunct adds may be joined before they are added. -/
lemma intercalate_around {separator : String} {added : Derivation → List String}
    {own joined : List String} (ne : own ≠ []) (ne' : joined ≠ [])
    (heq : separator.intercalate joined = separator.intercalate own)
    (hadded : ∀ d ∈ ds, added d ≠ []) :
    separator.intercalate (around host (fun d => [separator.intercalate (added d)]) joined ds) =
      separator.intercalate (around host added own ds) := by
  induction ds generalizing own joined with
  | nil => rwa [around_nil, around_nil]
  | cons d ds ih =>
    have hd := hadded d List.mem_cons_self
    have hds : ∀ e ∈ ds, added e ≠ [] := fun e he => hadded e (List.mem_cons_of_mem _ he)
    by_cases hlt : host < d.root.signal
    · rw [around_cons_of_lt hlt, around_cons_of_lt hlt]
      refine ih (List.append_ne_nil_of_left_ne_nil ne _) (List.append_ne_nil_of_left_ne_nil ne' _)
        ?_ hds
      rw [String.intercalate_append_of_ne_nil ne' (List.cons_ne_nil _ _),
        String.intercalate_append_of_ne_nil ne hd, String.intercalate_singleton, heq]
    · rw [around_cons_of_not_lt hlt, around_cons_of_not_lt hlt]
      refine ih (List.append_ne_nil_of_right_ne_nil _ ne)
        (List.append_ne_nil_of_right_ne_nil _ ne') ?_ hds
      rw [String.intercalate_append_of_ne_nil (List.cons_ne_nil _ _) ne',
        String.intercalate_append_of_ne_nil hd ne, String.intercalate_singleton, heq]

end Around

/-! ### What is gathered -/

lemma joinAdjunctSignals_eq_around (host : Signal) (own : List Signal) (ds : List Derivation) :
    joinAdjunctSignals host own ds = around host adjunctSignals own ds := by
  induction ds generalizing own with
  | nil => rw [joinAdjunctSignals, around_nil]
  | cons d ds ih =>
    rw [joinAdjunctSignals]
    split
    case isTrue h => rw [ih, around_cons_of_lt h]
    case isFalse h => rw [ih, around_cons_of_not_lt h]

lemma joinAdjunctLabels_eq_around (host : Signal) {own : List String} (ne : own ≠ [])
    (ds : List Derivation) : joinAdjunctLabels graph host ("+".intercalate own) ds =
      "+".intercalate (around host (fun d => [adjunctLabel graph d]) own ds) := by
  induction ds generalizing own with
  | nil => rw [joinAdjunctLabels, around_nil]
  | cons d ds ih =>
    rw [joinAdjunctLabels]
    split
    case isTrue h =>
      rw [around_cons_of_lt h, ← ih (List.append_ne_nil_of_left_ne_nil ne _),
        String.intercalate_append_of_ne_nil ne (List.cons_ne_nil _ _), String.intercalate_singleton]
    case isFalse h =>
      rw [around_cons_of_not_lt h, ← ih (List.append_ne_nil_of_right_ne_nil _ ne),
        String.intercalate_append_of_ne_nil (List.cons_ne_nil _ _) ne, String.intercalate_singleton]

lemma adjunctSignals_node (root : WordPart) (part arg : Option Derivation)
    (adjuncts : List Derivation) : adjunctSignals (.node root part arg adjuncts) =
      around root.signal adjunctSignals [root.signal] adjuncts :=
  joinAdjunctSignals_eq_around root.signal [root.signal] adjuncts

lemma adjunctLabel_node (root : WordPart) (part arg : Option Derivation)
    (adjuncts : List Derivation) : adjunctLabel graph (.node root part arg adjuncts) =
      "+".intercalate (around root.signal (fun d => [adjunctLabel graph d]) [root.named graph]
        adjuncts) := by
  rw [← joinAdjunctLabels_eq_around root.signal (List.cons_ne_nil _ _), String.intercalate_singleton]
  rfl

/-! ### What is drawn -/

lemma labelAdjuncts_fst (host : Signal) (label : String) (tree : Bracketing)
    (ds : List Derivation) :
    (labelAdjuncts graph host label tree ds).1 = joinAdjunctLabels graph host label ds := by
  induction ds generalizing label tree with
  | nil => rfl
  | cons d ds ih =>
    rw [labelAdjuncts, joinAdjunctLabels]
    dsimp only
    split
    · exact ih _ _
    · exact ih _ _

/-- The label that is carried on is always that of the outermost bracket. -/
lemma labelAdjuncts_branch (host : Signal) (label : String) (left right : Bracketing)
    (ds : List Derivation) :
    ∃ left' right', (labelAdjuncts graph host label (.branch label left right) ds).2 =
      .branch (joinAdjunctLabels graph host label ds) left' right' := by
  induction ds generalizing label left right with
  | nil => exact ⟨left, right, rfl⟩
  | cons d ds ih =>
    rw [labelAdjuncts, joinAdjunctLabels]
    dsimp only
    split
    · exact ih _ _ _
    · exact ih _ _ _

lemma labelAdjuncts_of_ne_nil (host : Signal) (label : String) (tree : Bracketing)
    {ds : List Derivation} (ne : ds ≠ []) :
    ∃ left right, (labelAdjuncts graph host label tree ds).2 =
      .branch (joinAdjunctLabels graph host label ds) left right := by
  cases ds with
  | nil => exact absurd rfl ne
  | cons d ds =>
    rw [labelAdjuncts, joinAdjunctLabels]
    dsimp only
    split
    · exact labelAdjuncts_branch host _ _ _ ds
    · exact labelAdjuncts_branch host _ _ _ ds

lemma signalAdjuncts_branch (host : Signal) (own : List String) (left right : Bracketing)
    (ds : List Derivation) :
    ∃ left' right', signalAdjuncts graph host own (.branch (joinSignals own) left right) ds =
      .branch (joinSignals (around host (fun d => d.adjunctSignals.map toString) own ds)) left'
        right' := by
  induction ds generalizing own left right with
  | nil =>
    rw [around_nil]
    exact ⟨left, right, rfl⟩
  | cons d ds ih =>
    rw [signalAdjuncts]
    dsimp only
    split
    case isTrue h =>
      rw [around_cons_of_lt h]
      exact ih _ _ _
    case isFalse h =>
      rw [around_cons_of_not_lt h]
      exact ih _ _ _

lemma signalAdjuncts_of_ne_nil (host : Signal) (own : List String) (tree : Bracketing)
    {ds : List Derivation} (ne : ds ≠ []) :
    ∃ left right, signalAdjuncts graph host own tree ds =
      .branch (joinSignals (around host (fun d => d.adjunctSignals.map toString) own ds)) left
        right := by
  cases ds with
  | nil => exact absurd rfl ne
  | cons d ds =>
    rw [signalAdjuncts]
    dsimp only
    split
    case isTrue h =>
      rw [around_cons_of_lt h]
      exact signalAdjuncts_branch host _ _ _ ds
    case isFalse h =>
      rw [around_cons_of_not_lt h]
      exact signalAdjuncts_branch host _ _ _ ds

/-- The outermost bracket of a label tree has the label that the derivation adds to its host's. -/
theorem labelTree_eq_branch (graph : Graph) (root : WordPart) {part arg : Option Derivation}
    {adjuncts : List Derivation} (composed : part ≠ none ∨ arg ≠ none ∨ adjuncts ≠ []) :
    let d := node root part arg adjuncts
    ∃ left right, d.labelTree graph = .branch (d.adjunctLabel graph) left right := by
  dsimp only
  rw [labelTree_node, adjunctLabel]
  dsimp only
  rw [labelAdjuncts_fst]
  cases arg with
  | some d =>
    rw [Option.elim_some]
    split
    · exact ⟨_, _, rfl⟩
    · exact ⟨_, _, rfl⟩
  | none =>
    rw [Option.elim_none]
    cases adjuncts with
    | cons d ds => exact labelAdjuncts_of_ne_nil _ _ _ (List.cons_ne_nil d ds)
    | nil =>
      cases part with
      | some d => exact ⟨_, _, rfl⟩
      | none => simp at composed

/-- The label at the top of a label tree is the one that the derivation adds to its host's. -/
theorem top_labelTree (d : Derivation) : (d.labelTree graph).top = d.adjunctLabel graph := by
  obtain ⟨root, part, arg, adjuncts⟩ := d
  by_cases composed : part ≠ none ∨ arg ≠ none ∨ adjuncts ≠ []
  · obtain ⟨left, right, heq⟩ := labelTree_eq_branch graph root composed
    rw [heq, Bracketing.top]
  · obtain ⟨rfl, rfl, rfl⟩ : part = none ∧ arg = none ∧ adjuncts = [] := by
      simpa only [ne_eq, not_or, not_not] using composed
    rfl

/-- How the signal of the root is written at the top of a signal tree. -/
def headText (graph : Graph) (d : Derivation) : String :=
  if d.canMove graph then toString d.root.signal ++ "M" else toString d.root.signal

/-- The outermost bracket of a signal tree without an argument lists the signals of the adjuncts
around that of the root. -/
theorem signalTree_eq_branch (graph : Graph) (root : WordPart) (part : Option Derivation)
    {adjuncts : List Derivation} (hosting : adjuncts ≠ []) :
    let d := node root part none adjuncts
    ∃ left right, d.signalTree graph = .branch (joinSignals (around root.signal
      (fun d => d.adjunctSignals.map toString) [d.headText graph] adjuncts)) left right := by
  dsimp only
  rw [signalTree_node]
  exact signalAdjuncts_of_ne_nil _ _ _ hosting

/-! ### Word parts of a label -/

mutual

/-- The word parts that the label of a derivation shows, from left to right. -/
def labelParts : Derivation → List WordPart
  | .node root _ _ adjuncts => joinLabelParts root.signal [root] adjuncts
termination_by structural d => d

def joinLabelParts (host : Signal) (own : List WordPart) : List Derivation → List WordPart
  | [] => own
  | d :: ds =>
    let others := labelParts d
    joinLabelParts host (if host < d.root.signal then own ++ others else others ++ own) ds
termination_by structural ds => ds

end

lemma labelParts_node (root : WordPart) (part arg : Option Derivation)
    (adjuncts : List Derivation) :
    labelParts (.node root part arg adjuncts) = around root.signal labelParts [root] adjuncts := by
  rw [labelParts]
  generalize [root] = own
  induction adjuncts generalizing own with
  | nil => rw [joinLabelParts, around_nil]
  | cons d ds ih =>
    rw [joinLabelParts]
    split
    case isTrue h => rw [ih, around_cons_of_lt h]
    case isFalse h => rw [ih, around_cons_of_not_lt h]

lemma labelParts_ne_nil (d : Derivation) : d.labelParts ≠ [] := by
  obtain ⟨root, part, arg, adjuncts⟩ := d
  simp [labelParts_node, around]

/-- The signals of a label are those of its word parts. -/
theorem adjunctSignals_eq_map (d : Derivation) :
    d.adjunctSignals = d.labelParts.map WordPart.signal := by
  induction d using Derivation.induct with
  | node root part arg adjuncts _ _ hadjuncts =>
    rw [adjunctSignals_node, labelParts_node, map_around]
    exact around_congr hadjuncts

lemma signalTexts_ne_nil (d : Derivation) : d.adjunctSignals.map toString ≠ [] := by
  simpa [adjunctSignals_eq_map] using d.labelParts_ne_nil

/-- The list of an adjunct may be joined before it is added to that of its host. -/
lemma joinSignals_around (host : Signal) (own : String) (ds : List Derivation) :
    joinSignals (around host (fun d => [joinSignals (d.adjunctSignals.map toString)]) [own] ds) =
      joinSignals (around host (fun d => d.adjunctSignals.map toString) [own] ds) := by
  have own_ne_nil := List.cons_ne_nil own []
  exact intercalate_around own_ne_nil own_ne_nil rfl fun d _ => d.signalTexts_ne_nil

/-- The label of a derivation shows the names of its word parts. -/
theorem adjunctLabel_eq_intercalate (d : Derivation) :
    d.adjunctLabel graph = "+".intercalate (d.labelParts.map (WordPart.named graph)) := by
  induction d using Derivation.induct with
  | node root part arg adjuncts _ _ hadjuncts =>
    have named_ne_nil : ∀ d ∈ adjuncts, d.labelParts.map (WordPart.named graph) ≠ [] :=
      fun d _ => mt List.map_eq_nil_iff.1 d.labelParts_ne_nil
    have own_ne_nil := List.cons_ne_nil (root.named graph) []
    rw [adjunctLabel_node, labelParts_node, map_around, List.map_singleton,
      ← intercalate_around own_ne_nil own_ne_nil rfl named_ne_nil]
    refine congrArg _ (around_congr fun d hd => ?_)
    rw [hadjuncts d hd]

end Derivation

namespace Arena

variable {arena : Arena}

/-- The trees of every route of an acyclic arena show at the top what the route adds to the label of
its host. The outermost bracket of the label tree has just that label. In the signal tree of a host
without an argument it lists the same signals, and the one of the root is marked if the route can
move. On both sides an adjunct adds to the names the label at the top of its own label tree and to
the signals its own list without the mark. -/
theorem Acyclic.labels_agree (acyclic : arena.Acyclic) (graph : Graph) {id : RouteId}
    (hid : id < arena.size) :
    let route := arena.route id
    let d := arena.unfolding id
    let host := route.root.signal
    let left := Derivation.leftAdjuncts host (route.adjuncts.map arena.unfolding)
    let right := Derivation.rightAdjuncts host (route.adjuncts.map arena.unfolding)
    let before := left.flatMap Derivation.adjunctSignals
    let after := right.flatMap Derivation.adjunctSignals
    let head := if d.canMove graph then toString host ++ "M" else toString host
    let shown (e : Derivation) := (e.labelTree graph).top
    let listed (e : Derivation) := Derivation.joinSignals (e.adjunctSignals.map toString)
    (route.part ≠ none ∨ route.arg ≠ none ∨ route.adjuncts ≠ [] →
      ∃ l r, d.labelTree graph = .branch (d.adjunctLabel graph) l r) ∧
    d.adjunctSignals = before ++ host :: after ∧
    (route.adjuncts ≠ [] → route.arg = none → ∃ l r, d.signalTree graph =
      .branch (Derivation.joinSignals (before.map toString ++ head :: after.map toString)) l r) ∧
    d.adjunctLabel graph =
      "+".intercalate (left.map shown ++ route.root.named graph :: right.map shown) ∧
    Derivation.joinSignals (before.map toString ++ head :: after.map toString) =
      Derivation.joinSignals (left.map listed ++ head :: right.map listed) := by
  intro route d host left right before after head shown listed
  have node_eq : d = .node route.root (route.part.map arena.unfolding)
      (route.arg.map arena.unfolding) (route.adjuncts.map arena.unfolding) :=
    acyclic.unfolding_eq hid
  have spelled_eq : before.map toString ++ head :: after.map toString =
      Derivation.around host (fun e => e.adjunctSignals.map toString) [head]
        (route.adjuncts.map arena.unfolding) := by
    rw [Derivation.around_own, List.map_flatMap, List.map_flatMap]
  refine ⟨fun composed => ?_, ?_, fun hosting unheaded => ?_, ?_, ?_⟩
  · rw [node_eq]
    refine Derivation.labelTree_eq_branch graph route.root ?_
    simpa only [ne_eq, Option.map_eq_none_iff, List.map_eq_nil_iff] using composed
  · rw [node_eq, Derivation.adjunctSignals_node, Derivation.around_own]
  · have head_eq : head = d.headText graph := by
      rw [Derivation.headText, acyclic.root_unfolding hid]
    rw [spelled_eq, head_eq, node_eq, unheaded, Option.map_none]
    exact Derivation.signalTree_eq_branch graph _ _ (mt List.map_eq_nil_iff.1 hosting)
  · have shown_eq : shown = Derivation.adjunctLabel graph := funext Derivation.top_labelTree
    rw [node_eq, Derivation.adjunctLabel_node, Derivation.around_singleton, shown_eq]
  · rw [spelled_eq, ← Derivation.joinSignals_around, Derivation.around_singleton]

/-- A host between two adjuncts, of which the left one stands between two of its own. Hosts come
before their adjuncts, and the outermost words are free to move. -/
def nested : Arena :=
  let leaf (signal : Signal) (entry : EntryId) := Route.leaf ⟨signal, entry, signal⟩ (entry == 2)
  ⟨#[{ leaf 3 1 with adjuncts := [1, 4] }, { leaf 2 0 with adjuncts := [2, 3] }, leaf 1 2, leaf 4 0,
    leaf 5 2]⟩

lemma nested_ranks : nested.Ranks fun id => 4 - id := by
  have components : ∀ id < nested.size, ∀ sub ∈ (nested.route id).components,
      id < sub ∧ sub < nested.size := by decide +kernel
  have size_eq : nested.size = 5 := rfl
  refine ⟨fun {id} _ => ?_, fun {id sub} uses => ?_, fun {id sub} uses => ?_⟩
  · rw [size_eq]
    omega
  · exact (components id uses.1 sub uses.2).2
  · obtain ⟨hlt, hsub⟩ := components id uses.1 sub uses.2
    rw [size_eq] at hsub
    lia

/-- The label of the left adjunct is found again within that of the host, its mark is not. -/
theorem nested_labels_agree :
    (∃ l r, (nested.unfolding 0).labelTree Session.sample.graph = .branch "d+a+a+h+d" l r) ∧
    ((nested.unfolding 1).labelTree Session.sample.graph).top = "d+a+a" ∧
    (∃ l r, (nested.unfolding 0).signalTree Session.sample.graph = .branch "1-2-4-3M-5" l r) ∧
    ∃ l r, (nested.unfolding 1).signalTree Session.sample.graph = .branch "1-2M-4" l r := by
  have acyclic := nested_ranks.acyclic
  have hosts : ∀ id < 2, (nested.route id).adjuncts ≠ [] ∧ (nested.route id).arg = none := by
    decide +kernel
  obtain ⟨named, -, marked, -, -⟩ := acyclic.labels_agree Session.sample.graph
    (show (0 : RouteId) < nested.size by decide)
  obtain ⟨-, -, inner, -, -⟩ := acyclic.labels_agree Session.sample.graph
    (show (1 : RouteId) < nested.size by decide)
  obtain ⟨l, r, hnamed⟩ := named (Or.inr (Or.inr (hosts 0 (by decide)).1))
  obtain ⟨l', r', hmarked⟩ := marked (hosts 0 (by decide)).1 (hosts 0 (by decide)).2
  obtain ⟨l'', r'', hinner⟩ := inner (hosts 1 (by decide)).1 (hosts 1 (by decide)).2
  refine ⟨⟨l, r, hnamed.trans ?_⟩, by decide +kernel, ⟨l', r', hmarked.trans ?_⟩, l'', r'',
    hinner.trans ?_⟩
  · exact congrArg (Bracketing.branch · l r) (by decide +kernel)
  · exact congrArg (Bracketing.branch · l' r') (by decide +kernel)
  · exact congrArg (Bracketing.branch · l'' r'') (by decide +kernel)

end Arena

end MergeGrammar
