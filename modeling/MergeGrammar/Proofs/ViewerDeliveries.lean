import Mathlib.Data.List.Basic
import Mathlib.Tactic.Lemma
import MergeGrammar.Viewer.Exporter

/-!
# Deliveries to the viewer

An exporter is offered lists of trees one after another. It stops at the first list that finds no
viewer, and what it has delivered until then are the lists themselves: no other list is written as
the text that the viewer receives.
-/

namespace MergeGrammar.Viewer

/-! ### What a text says -/

/-- The characters that are not written as they are. -/
def escaped : List Char := '"' :: '\\' :: (List.range 0x20).map Char.ofNat

/-- A character that is written as it is neither ends a string nor begins an escape. -/
lemma escape_cases (c : Char) : c ∈ escaped ∨ escape c = [c] ∧ c ≠ '"' ∧ c ≠ '\\' := by
  by_cases hlow : c.toNat < 0x20
  · left
    refine List.mem_cons_of_mem _ (List.mem_cons_of_mem _ ?_)
    exact List.mem_map.2 ⟨c.toNat, List.mem_range.2 hlow, Char.ofNat_toNat c⟩
  · by_cases hquote : c = '"'
    · exact Or.inl (List.mem_cons.2 (Or.inl hquote))
    · by_cases hslash : c = '\\'
      · exact Or.inl (List.mem_cons_of_mem _ (List.mem_cons.2 (Or.inl hslash)))
      · refine Or.inr ⟨?_, hquote, hslash⟩
        unfold escape
        split <;> simp_all

lemma escape_of_mem {c : Char} (h : c ∈ escaped) : ∃ code, escape c = '\\' :: code := by
  have all : escaped.all (fun c => (escape c).head? == some '\\') = true := by decide +kernel
  exact List.head?_eq_some_iff.1 (eq_of_beq (List.all_eq_true.1 all c h))

lemma eq_of_escape_begins {c d : Char} (hc : c ∈ escaped) (hd : d ∈ escaped)
    (h : escape c <+: escape d) : c = d := by
  have all : escaped.all (fun c => escaped.all fun d =>
      !(escape c).isPrefixOf (escape d) || c == d) = true := by decide +kernel
  have pair := List.all_eq_true.1 (List.all_eq_true.1 all c hc) d hd
  rw [List.isPrefixOf_iff_prefix.2 h, Bool.not_true, Bool.false_or] at pair
  exact eq_of_beq pair

lemma escape_append_ne (c : Char) (rest other : List Char) : escape c ++ rest ≠ '"' :: other := by
  intro heq
  rcases escape_cases c with hmem | ⟨hself, hquote, -⟩
  · obtain ⟨code, hcode⟩ := escape_of_mem hmem
    rw [hcode] at heq
    exact absurd (List.cons.inj heq).1 (by decide)
  · rw [hself] at heq
    exact hquote (List.cons.inj heq).1

/-- No escape begins another one, so the first character can be read off a text. -/
lemma escape_append_inj {c d : Char} {rest other : List Char}
    (h : escape c ++ rest = escape d ++ other) : c = d ∧ rest = other := by
  have same : c = d := by
    rcases escape_cases c with hc | ⟨hc, -, hslash⟩ <;> rcases escape_cases d with hd | ⟨hd, -, hslash'⟩
    · have prefixes : escape c <+: escape d ∨ escape d <+: escape c :=
        List.prefix_or_prefix_of_prefix (List.prefix_append _ rest) (h ▸ List.prefix_append _ other)
      rcases prefixes with hbegins | hbegins
      · exact eq_of_escape_begins hc hd hbegins
      · exact (eq_of_escape_begins hd hc hbegins).symm
    · obtain ⟨code, hcode⟩ := escape_of_mem hc
      rw [hcode, hd] at h
      exact absurd (List.cons.inj h).1.symm hslash'
    · obtain ⟨code, hcode⟩ := escape_of_mem hd
      rw [hcode, hc] at h
      exact absurd (List.cons.inj h).1 hslash
    · rw [hc, hd] at h
      exact (List.cons.inj h).1
  subst same
  exact ⟨rfl, List.append_cancel_left h⟩

/-- The characters of a string that is written between quotes. -/
def quoted (text : List Char) : List Char := '"' :: (text.flatMap escape ++ ['"'])

lemma quoted_append_inj {text text' rest other : List Char}
    (h : quoted text ++ rest = quoted text' ++ other) : text = text' ∧ rest = other := by
  have body : ∀ text text' : List Char,
      text.flatMap escape ++ '"' :: rest = text'.flatMap escape ++ '"' :: other →
        text = text' ∧ rest = other := by
    intro text
    induction text with
    | nil =>
      intro text' h
      cases text' with
      | nil => exact ⟨rfl, (List.cons.inj h).2⟩
      | cons d text' =>
        rw [List.flatMap_cons, List.append_assoc] at h
        exact absurd h.symm (escape_append_ne d _ _)
    | cons c text ih =>
      intro text' h
      cases text' with
      | nil =>
        rw [List.flatMap_cons, List.append_assoc] at h
        exact absurd h (escape_append_ne c _ _)
      | cons d text' =>
        rw [List.flatMap_cons, List.flatMap_cons, List.append_assoc, List.append_assoc] at h
        obtain ⟨rfl, htail⟩ := escape_append_inj h
        obtain ⟨rfl, hrest⟩ := ih text' htail
        exact ⟨rfl, hrest⟩
  simp only [quoted, List.cons_append, List.append_assoc, List.nil_append, List.cons.injEq,
    true_and] at h
  exact body text text' h

/-- What follows the first string of an array. -/
def others : List (List Char) → List Char
  | [] => [']']
  | text :: texts => ',' :: (quoted text ++ others texts)

lemma others_inj {texts texts' : List (List Char)} (h : others texts = others texts') :
    texts = texts' := by
  induction texts generalizing texts' with
  | nil =>
    cases texts' with
    | nil => rfl
    | cons text' texts' => exact absurd (List.cons.inj h).1 (by decide)
  | cons text texts ih =>
    cases texts' with
    | nil => exact absurd (List.cons.inj h).1 (by decide)
    | cons text' texts' =>
      obtain ⟨rfl, hrest⟩ := quoted_append_inj (List.cons.inj h).2
      rw [ih hrest]

lemma toList_stringText (text : String) : (stringText text).toList = quoted text.toList := by
  simp [stringText, quoted]

lemma toList_payload_nil : (payload []).toList = ['[', ']'] := by decide

lemma toList_payload_cons (tree : String) (trees : List String) :
    (payload (tree :: trees)).toList =
      '[' :: (quoted tree.toList ++ others (trees.map String.toList)) := by
  have joined : ∀ trees : List String,
      [','].intercalate ((tree :: trees).map fun text => quoted text.toList) ++ [']'] =
        quoted tree.toList ++ others (trees.map String.toList) := by
    intro trees
    induction trees generalizing tree with
    | nil => simp [others]
    | cons next trees ih =>
      rw [List.map_cons, List.map_cons, List.intercalate_cons_cons, List.append_assoc,
        List.append_assoc]
      exact congrArg (fun rest => quoted tree.toList ++ (',' :: rest)) (ih next)
  rw [← joined]
  simp [payload, String.toList_intercalate, toList_stringText, Function.comp_def]

/-- A viewer can tell from the text which trees were sent. -/
theorem payload_injective : Function.Injective payload := by
  intro trees trees' h
  have chars := congrArg String.toList h
  cases trees with
  | nil =>
    cases trees' with
    | nil => rfl
    | cons tree' trees' =>
      rw [toList_payload_nil, toList_payload_cons] at chars
      exact absurd (List.cons.inj (List.cons.inj chars).2).1 (by decide)
  | cons tree trees =>
    cases trees' with
    | nil =>
      rw [toList_payload_nil, toList_payload_cons] at chars
      exact absurd (List.cons.inj (List.cons.inj chars).2).1 (by decide)
    | cons tree' trees' =>
      rw [toList_payload_cons, toList_payload_cons] at chars
      obtain ⟨htree, hrest⟩ := quoted_append_inj (List.cons.inj chars).2
      have trees_eq : trees = trees' :=
        List.map_injective_iff.2 (fun _ _ => String.toList_injective) (others_inj hrest)
      rw [String.toList_injective htree, trees_eq]

/-! ### One offer -/

/-- Whether something was sent. -/
def Delivery.isSent : Delivery → Bool
  | sent _ => true
  | _ => false

/-- A list of trees at a moment at which the viewer listens or not. -/
structure Offer where
  connection : Connection
  trees : List String

/-- There are trees, and nobody takes them. -/
def Offer.Missed (offer : Offer) : Prop := offer.trees ≠ [] ∧ offer.connection ≠ .listening

namespace Exporter

variable (exporter : Exporter) (offer : Offer)

lemma send_nil (connection : Connection) : exporter.send connection [] = (exporter, .skipped) := by
  unfold send
  rw [List.isEmpty_nil, Bool.or_true, if_pos rfl]

lemma send_cases :
    (exporter.disabled = true ∨ offer.trees = []) ∧
      exporter.send offer.connection offer.trees = (exporter, .skipped) ∨
    exporter.disabled = false ∧ offer.trees ≠ [] ∧ (offer.connection = .listening ∧
        exporter.send offer.connection offer.trees = (exporter, .sent offer.trees) ∨
      offer.connection ≠ .listening ∧ exporter.send offer.connection offer.trees =
        (⟨true⟩, .undelivered offer.connection)) := by
  unfold send
  split
  · next hskip =>
    rw [Bool.or_eq_true, List.isEmpty_iff] at hskip
    exact Or.inl ⟨hskip, rfl⟩
  · next hskip =>
    rw [Bool.or_eq_true, List.isEmpty_iff, not_or, Bool.not_eq_true] at hskip
    refine Or.inr ⟨hskip.1, hskip.2, ?_⟩
    cases hconnection : offer.connection with
    | listening => exact Or.inl ⟨rfl, rfl⟩
    | refused => exact Or.inr ⟨by simp, rfl⟩
    | failed cause => exact Or.inr ⟨by simp, rfl⟩

/-- Only a failure turns an exporter off, and nothing turns it on again. -/
lemma disabled_send_iff : (exporter.send offer.connection offer.trees).1.disabled = true ↔
    exporter.disabled = true ∨ offer.Missed := by
  rcases exporter.send_cases offer with ⟨hskip, heq⟩ | ⟨on, full, ⟨listens, heq⟩ | ⟨deaf, heq⟩⟩
  · rw [heq]
    constructor
    · exact Or.inl
    · rintro (hdisabled | hmissed)
      · exact hdisabled
      · exact hskip.resolve_right hmissed.1
  · rw [heq]
    exact ⟨Or.inl, fun h => h.resolve_right fun hmissed => hmissed.2 listens⟩
  · rw [heq]
    exact iff_of_true rfl (Or.inr ⟨full, deaf⟩)

lemma isSent_send_iff : (exporter.send offer.connection offer.trees).2.isSent = true ↔
    exporter.disabled = false ∧ offer.trees ≠ [] ∧ offer.connection = .listening := by
  rcases exporter.send_cases offer with ⟨hskip, heq⟩ | ⟨on, full, ⟨listens, heq⟩ | ⟨deaf, heq⟩⟩
  · rw [heq]
    refine iff_of_false Bool.false_ne_true fun h => ?_
    rcases hskip with hdisabled | hnone
    · rw [h.1] at hdisabled
      cases hdisabled
    · exact h.2.1 hnone
  · rw [heq]
    exact iff_of_true rfl ⟨on, full, listens⟩
  · rw [heq]
    exact iff_of_false Bool.false_ne_true fun h => deaf h.2.2

/-- The viewer receives the trees of the offer if something is sent, and nothing otherwise. -/
lemma payload?_send : (exporter.send offer.connection offer.trees).2.payload? =
    if (exporter.send offer.connection offer.trees).2.isSent then some (payload offer.trees)
    else none := by
  rcases exporter.send_cases offer with ⟨-, heq⟩ | ⟨-, -, ⟨-, heq⟩ | ⟨-, heq⟩⟩
  · rw [heq]
    rfl
  · rw [heq]
    rfl
  · rw [heq]
    rfl

/-! ### Offers one after another -/

/-- The exporter after some offers. -/
def after (exporter : Exporter) (offers : List Offer) : Exporter :=
  offers.foldl (fun exporter offer => (exporter.send offer.connection offer.trees).1) exporter

/-- What comes of each offer, with the exporter after it. -/
def sendAll (exporter : Exporter) : List Offer → List (Exporter × Delivery)
  | [] => []
  | offer :: offers =>
    let sent := exporter.send offer.connection offer.trees
    sent :: sent.1.sendAll offers

lemma getElem?_sendAll (offers : List Offer) (i : Nat) : (exporter.sendAll offers)[i]? =
    offers[i]?.map fun offer =>
      (exporter.after (offers.take i)).send offer.connection offer.trees := by
  induction offers generalizing exporter i with
  | nil => rfl
  | cons offer offers ih =>
    cases i with
    | zero => rfl
    | succ i => exact ih _ i

lemma after_concat (offers : List Offer) : exporter.after (offers ++ [offer]) =
    ((exporter.after offers).send offer.connection offer.trees).1 := List.foldl_concat ..

/-- An exporter is off exactly if it was off from the start or an offer has been missed. -/
lemma disabled_after_iff (offers : List Offer) : (exporter.after offers).disabled = true ↔
    exporter.disabled = true ∨ ∃ offer ∈ offers, offer.Missed := by
  induction offers generalizing exporter with
  | nil => simp [after]
  | cons offer offers ih =>
    refine (ih _).trans ?_
    rw [disabled_send_iff, or_assoc, List.exists_mem_cons_iff]

/-- An exporter is still on exactly if every list that was not empty found a viewer. -/
lemma enabled_after_iff (offers : List Offer) : (start.after offers).disabled = false ↔
    ∀ offer ∈ offers, offer.trees ≠ [] → offer.connection = .listening := by
  rw [← Bool.not_eq_true, disabled_after_iff]
  constructor
  · intro on offer hoffer full
    by_contra deaf
    exact on (Or.inr ⟨offer, hoffer, full, deaf⟩)
  · rintro found (hoff | ⟨offer, hoffer, full, deaf⟩)
    · cases hoff
    · exact deaf (found offer hoffer full)

/-- Whatever lists of trees an exporter is offered, one of them is sent exactly if it is not empty,
the viewer listens, and it has listened whenever there was something to send before. The viewer then
receives this list and no other, and otherwise nothing. The exporter is off exactly if a list that
was not empty has found no viewer. Empty lists do not change an exporter. -/
theorem deliveries_by_history (offers : List Offer) (i : Nat) (hi : i < offers.length) :
    ∃ exporter delivery, (start.sendAll offers)[i]? = some (exporter, delivery) ∧
      (delivery.isSent = true ↔ offers[i].trees ≠ [] ∧ offers[i].connection = .listening ∧
        ∀ earlier ∈ offers.take i, earlier.trees ≠ [] → earlier.connection = .listening) ∧
      (∀ trees, delivery.payload? = some (payload trees) ↔
        delivery.isSent = true ∧ trees = offers[i].trees) ∧
      (delivery.isSent = false → delivery.payload? = none) ∧
      (exporter.disabled = true ↔ ∃ offer ∈ offers.take (i + 1),
        offer.trees ≠ [] ∧ offer.connection ≠ .listening) ∧
      ∀ (other : Exporter) (connection : Connection), (other.send connection []).1 = other := by
  let before := start.after (offers.take i)
  let outcome := before.send offers[i].connection offers[i].trees
  have got : (start.sendAll offers)[i]? = some outcome := by
    rw [getElem?_sendAll, List.getElem?_eq_getElem hi]
    rfl
  have received : outcome.2.payload? = if outcome.2.isSent then some (payload offers[i].trees)
      else none := before.payload?_send offers[i]
  refine ⟨outcome.1, outcome.2, got, ?_, fun trees => ?_, fun unsent => ?_, ?_,
    fun other connection => ?_⟩
  · rw [← enabled_after_iff]
    exact (before.isSent_send_iff offers[i]).trans
      ⟨fun ⟨on, full, listens⟩ => ⟨full, listens, on⟩, fun ⟨full, listens, on⟩ => ⟨on, full, listens⟩⟩
  · rw [received]
    cases outcome.2.isSent with
    | false => simp
    | true => simp [payload_injective.eq_iff, eq_comm]
  · rw [received, unsent]
    rfl
  · have concat : offers.take (i + 1) = offers.take i ++ [offers[i]] :=
      (List.take_append_getElem hi).symm
    have off := start.disabled_after_iff (offers.take (i + 1))
    rw [concat, after_concat] at off
    rw [concat]
    exact off.trans (or_iff_right Bool.false_ne_true)
  · rw [send_nil]

/-- Lists that find a viewer or not: the fourth one is the first that finds none. -/
def mixedOffers : List Offer :=
  [⟨.refused, []⟩, ⟨.listening, ["[.h+d h d]"]⟩, ⟨.refused, []⟩, ⟨.failed "timed out", ["a"]⟩,
    ⟨.listening, []⟩, ⟨.listening, ["a"]⟩]

/-- The second list is sent, as only an empty one came before it. The last one is not, though the
viewer listens. -/
theorem mixedOffers_deliveries :
    (∃ exporter delivery, (start.sendAll mixedOffers)[1]? = some (exporter, delivery) ∧
      delivery.isSent = true ∧ exporter.disabled = false) ∧
    ∃ exporter delivery, (start.sendAll mixedOffers)[5]? = some (exporter, delivery) ∧
      delivery.isSent = false ∧ delivery.payload? = none ∧ exporter.disabled = true := by
  constructor
  · obtain ⟨exporter, delivery, got, sent_iff, -, -, off_iff, -⟩ :=
      deliveries_by_history mixedOffers 1 (by decide)
    refine ⟨exporter, delivery, got, sent_iff.2 (by decide), ?_⟩
    exact Bool.eq_false_iff.2 fun off => absurd (off_iff.1 off) (by decide)
  · obtain ⟨exporter, delivery, got, sent_iff, -, unsent, off_iff, -⟩ :=
      deliveries_by_history mixedOffers 5 (by decide)
    have lost : delivery.isSent = false :=
      Bool.eq_false_iff.2 fun sent => absurd (sent_iff.1 sent) (by decide)
    exact ⟨exporter, delivery, got, lost, unsent lost, off_iff.2 (by decide)⟩

end Exporter

end MergeGrammar.Viewer
