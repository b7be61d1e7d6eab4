-- Patterns and how they are searched for. A pattern is a row of pieces that
-- together cover a text. A search tries the ways to read a piece in the order
-- in which the piece prefers them, and for each of them the pieces behind it.
-- So it finds something exactly if there is a cover at all, and what it finds
-- is what the pieces in front prefer.
import Mathlib.Data.List.Forall2
import Stepwise.Text

namespace Stepwise.Text

/-! ## Pieces -/

inductive Piece where
  /-- Characters of a class, at least so many and as many as possible. -/
  | most (least : Nat) (p : Char → Bool)
  /-- Characters of a class, at least so many and as few as possible. -/
  | fewest (least : Nat) (p : Char → Bool)
  /-- One of some texts, the first of them if possible. -/
  | oneOf (texts : List (List Char))

/-- The ways to cut a text behind characters of a class, the shortest first. -/
def splits (p : Char → Bool) : List Char → List (List Char × List Char)
  | [] => [([], [])]
  | c :: rest =>
    ([], c :: rest) :: if p c then (splits p rest).map fun s => (c :: s.1, s.2) else []

namespace Piece

/-- The ways to read a piece off the front of a text, in the order in which
they are tried. -/
def choices (text : List Char) : Piece → List (List Char × List Char)
  | most least p => ((splits p text).filter fun s => least ≤ s.1.length).reverse
  | fewest least p => (splits p text).filter fun s => least ≤ s.1.length
  | oneOf texts => texts.filterMap fun t =>
    if t.isPrefixOf text then some (t, text.drop t.length) else none

/-- What can be read as a piece. -/
def Fits (cs : List Char) : Piece → Prop
  | most least p | fewest least p => least ≤ cs.length ∧ ∀ c ∈ cs, p c = true
  | oneOf texts => cs ∈ texts

end Piece

/-- The first way to cover the whole text with the pieces. -/
def search : List Piece → List Char → Option (List (List Char))
  | [], text => if text.isEmpty then some [] else none
  | piece :: rest, text =>
    (piece.choices text).findSome? fun s => (search rest s.2).map (s.1 :: ·)

/-! ## The choices of a piece -/

theorem mem_splits {p : Char → Bool} {text taken left : List Char} :
    (taken, left) ∈ splits p text ↔ taken ++ left = text ∧ ∀ c ∈ taken, p c = true := by
  induction text generalizing taken with
  | nil =>
    rw [splits, List.mem_singleton, Prod.mk.injEq, List.append_eq_nil_iff]
    refine ⟨fun h => ⟨h, ?_⟩, fun h => h.1⟩
    rw [h.1]
    exact fun c hc => absurd hc List.not_mem_nil
  | cons d rest ih =>
    cases taken with
    | nil =>
      have hlonger : ∀ ss : List (List Char × List Char),
          ([], left) ∉ ss.map fun s => (d :: s.1, s.2) := by
        intro ss h
        obtain ⟨s, -, heq⟩ := List.mem_map.mp h
        cases heq
      rw [splits, List.mem_cons, or_iff_left]
      · simp
      · split
        · exact hlonger _
        · exact List.not_mem_nil
    | cons c taken =>
      simp only [splits, List.mem_cons, Prod.mk.injEq, reduceCtorEq, false_and, false_or,
        List.cons_append, List.cons.injEq, forall_eq_or_imp]
      constructor
      · intro h
        split at h
        · obtain ⟨⟨taken', left'⟩, hmem, heq⟩ := List.mem_map.mp h
          cases heq
          obtain ⟨htext, hall⟩ := ih.mp hmem
          exact ⟨⟨rfl, htext⟩, ‹_›, hall⟩
        · cases h
      · rintro ⟨⟨rfl, htext⟩, hc, hall⟩
        rw [if_pos hc]
        exact List.mem_map.mpr ⟨(taken, left), ih.mpr ⟨htext, hall⟩, rfl⟩

theorem splits_pairwise (p : Char → Bool) (text : List Char) :
    (splits p text).Pairwise fun s t => s.1.length < t.1.length := by
  induction text with
  | nil => exact List.pairwise_singleton _ _
  | cons c rest ih =>
    rw [splits, List.pairwise_cons]
    split
    · refine ⟨?_, ?_⟩
      · intro s hs
        obtain ⟨t, -, rfl⟩ := List.mem_map.mp hs
        exact Nat.zero_lt_succ _
      · exact List.pairwise_map.mpr (ih.imp fun h => Nat.succ_lt_succ h)
    · exact ⟨fun _ h => absurd h List.not_mem_nil, List.Pairwise.nil⟩

theorem Piece.mem_choices {piece : Piece} {text taken left : List Char} :
    (taken, left) ∈ piece.choices text ↔ taken ++ left = text ∧ piece.Fits taken := by
  cases piece with
  | most least p =>
    simp only [choices, Fits, List.mem_reverse, List.mem_filter, mem_splits, decide_eq_true_eq]
    rw [and_assoc, and_comm (b := least ≤ _)]
  | fewest least p =>
    simp only [choices, Fits, List.mem_filter, mem_splits, decide_eq_true_eq]
    rw [and_assoc, and_comm (b := least ≤ _)]
  | oneOf texts =>
    simp only [choices, Fits, List.mem_filterMap, Option.ite_none_right_eq_some, Option.some.injEq,
      Prod.mk.injEq, List.isPrefixOf_iff_prefix]
    constructor
    · rintro ⟨t, ht, hprefix, rfl, rfl⟩
      exact ⟨List.prefix_iff_eq_append.mp hprefix, ht⟩
    · rintro ⟨rfl, ht⟩
      exact ⟨taken, ht, List.prefix_append taken left, rfl, List.drop_left⟩

/-! ## What a search finds -/

/-- Texts that are read as the pieces, one for each, and cover a text. -/
def Covers (pieces : List Piece) (text : List Char) (parts : List (List Char)) : Prop :=
  parts.flatten = text ∧ List.Forall₂ (fun piece part => piece.Fits part) pieces parts

theorem covers_nil_iff {text : List Char} {parts : List (List Char)} :
    Covers [] text parts ↔ text = [] ∧ parts = [] := by
  unfold Covers
  rw [List.forall₂_nil_left_iff]
  constructor
  · rintro ⟨rfl, rfl⟩
    exact ⟨rfl, rfl⟩
  · rintro ⟨rfl, rfl⟩
    exact ⟨rfl, rfl⟩

theorem covers_cons_iff {piece : Piece} {rest : List Piece} {text : List Char}
    {parts : List (List Char)} : Covers (piece :: rest) text parts ↔ ∃ taken left parts',
      taken ++ left = text ∧ piece.Fits taken ∧ Covers rest left parts' ∧
        parts = taken :: parts' := by
  unfold Covers
  rw [List.forall₂_cons_left_iff]
  constructor
  · rintro ⟨rfl, taken, parts', htaken, hrest, rfl⟩
    exact ⟨taken, parts'.flatten, parts', rfl, htaken, ⟨rfl, hrest⟩, rfl⟩
  · rintro ⟨taken, left, parts', rfl, htaken, ⟨rfl, hrest⟩, rfl⟩
    exact ⟨rfl, taken, parts', htaken, hrest, rfl⟩

variable {piece : Piece} {pieces rest : List Piece} {text : List Char} {parts : List (List Char)}

theorem covers_append_iff : Covers (pieces ++ rest) text parts ↔ ∃ taken left ps qs,
    taken ++ left = text ∧ Covers pieces taken ps ∧ Covers rest left qs ∧ parts = ps ++ qs := by
  induction pieces generalizing text parts with
  | nil =>
    constructor
    · intro h
      exact ⟨[], text, [], parts, rfl, covers_nil_iff.mpr ⟨rfl, rfl⟩, h, rfl⟩
    · rintro ⟨taken, left, ps, qs, rfl, hps, hqs, rfl⟩
      obtain ⟨rfl, rfl⟩ := covers_nil_iff.mp hps
      exact hqs
  | cons piece pieces ih =>
    rw [List.cons_append, covers_cons_iff]
    constructor
    · rintro ⟨c, _, _, rfl, hc, hrest, rfl⟩
      obtain ⟨taken, left, ps, qs, rfl, hps, hqs, rfl⟩ := ih.mp hrest
      exact ⟨c ++ taken, left, c :: ps, qs, List.append_assoc c taken left,
        covers_cons_iff.mpr ⟨c, taken, ps, rfl, hc, hps, rfl⟩, hqs, rfl⟩
    · rintro ⟨_, left, _, qs, rfl, hps, hqs, rfl⟩
      obtain ⟨c, taken, ps, rfl, hc, hrest, rfl⟩ := covers_cons_iff.mp hps
      exact ⟨c, taken ++ left, ps ++ qs, (List.append_assoc c taken left).symm, hc,
        ih.mpr ⟨taken, left, ps, qs, rfl, hrest, hqs, rfl⟩, rfl⟩

/-- What is found was chosen for the first piece, and nothing that was tried
before it leads on. -/
theorem search_cons_eq_some (h : search (piece :: rest) text = some parts) :
    ∃ earlier taken left later parts', piece.choices text = earlier ++ (taken, left) :: later ∧
      (taken ++ left = text ∧ piece.Fits taken) ∧ search rest left = some parts' ∧
      parts = taken :: parts' ∧ ∀ s ∈ earlier, search rest s.2 = none := by
  obtain ⟨earlier, ⟨taken, left⟩, later, hchoices, hsome, hnone⟩ := List.findSome?_eq_some_iff.mp h
  obtain ⟨parts', hparts', rfl⟩ := Option.map_eq_some_iff.mp hsome
  have hmem : (taken, left) ∈ piece.choices text := by
    rw [hchoices]
    exact List.mem_append_right earlier List.mem_cons_self
  refine ⟨earlier, taken, left, later, parts', hchoices, Piece.mem_choices.mp hmem, hparts', rfl,
    fun s hs => ?_⟩
  exact Option.map_eq_none_iff.mp (hnone s hs)

/-- What is found for a row of pieces is a cover for those in front and what is
found for those behind. -/
theorem search_append (h : search (pieces ++ rest) text = some parts) : ∃ taken left ps qs,
    taken ++ left = text ∧ Covers pieces taken ps ∧ search rest left = some qs ∧
      parts = ps ++ qs := by
  induction pieces generalizing text parts with
  | nil => exact ⟨[], text, [], parts, rfl, covers_nil_iff.mpr ⟨rfl, rfl⟩, h, rfl⟩
  | cons piece pieces ih =>
    obtain ⟨-, c, others, -, parts', -, ⟨rfl, hc⟩, hsearch, rfl, -⟩ := search_cons_eq_some h
    obtain ⟨taken, left, ps, qs, rfl, hps, hqs, rfl⟩ := ih hsearch
    exact ⟨c ++ taken, left, c :: ps, qs, List.append_assoc c taken left,
      covers_cons_iff.mpr ⟨c, taken, ps, rfl, hc, hps, rfl⟩, hqs, rfl⟩

theorem covers_of_search (h : search pieces text = some parts) : Covers pieces text parts := by
  rw [← List.append_nil pieces] at h ⊢
  obtain ⟨taken, left, ps, qs, rfl, hps, hqs, rfl⟩ := search_append h
  rw [search, Option.ite_none_right_eq_some, Option.some.injEq, List.isEmpty_iff] at hqs
  exact covers_append_iff.mpr
    ⟨taken, left, ps, qs, rfl, hps, covers_nil_iff.mpr ⟨hqs.1, hqs.2.symm⟩, rfl⟩

/-- A search goes through all there is, so it finds something if it can. -/
theorem search_isSome_iff : (search pieces text).isSome = true ↔ ∃ parts, Covers pieces text parts := by
  constructor
  · intro h
    obtain ⟨parts, hparts⟩ := Option.isSome_iff_exists.mp h
    exact ⟨parts, covers_of_search hparts⟩
  · rintro ⟨parts, hparts⟩
    induction pieces generalizing text parts with
    | nil =>
      rw [(covers_nil_iff.mp hparts).1]
      rfl
    | cons piece rest ih =>
      obtain ⟨taken, left, parts', htext, hfits, hrest, -⟩ := covers_cons_iff.mp hparts
      refine List.findSome?_isSome_iff.mpr
        ⟨(taken, left), Piece.mem_choices.mpr ⟨htext, hfits⟩, ?_⟩
      rw [Option.isSome_map]
      exact ih parts' hrest

/-- If the choices of a piece are in some order, the one that is found is the
first in this order of those that lead on. -/
theorem rel_of_search {R : List Char × List Char → List Char × List Char → Prop}
    (hrefl : ∀ s, R s s) (hR : (piece.choices text).Pairwise R)
    (h : search (piece :: rest) text = some parts) : ∃ taken left parts',
      (taken ++ left = text ∧ piece.Fits taken) ∧
      search rest left = some parts' ∧ parts = taken :: parts' ∧
      ∀ other left', other ++ left' = text → piece.Fits other →
        (search rest left').isSome = true → R (taken, left) (other, left') := by
  obtain ⟨earlier, taken, left, later, parts', hchoices, hfirst, hsearch, rfl, hnone⟩ :=
    search_cons_eq_some h
  refine ⟨taken, left, parts', hfirst, hsearch, rfl, ?_⟩
  intro other left' hother hfits hsome
  have hmem := Piece.mem_choices.mpr ⟨hother, hfits⟩
  rw [hchoices, List.pairwise_append] at hR
  rw [hchoices, List.mem_append, List.mem_cons] at hmem
  rcases hmem with hearlier | heq | hlater
  · rw [hnone (other, left') hearlier] at hsome
    cases hsome
  · rw [heq]
    exact hrefl (taken, left)
  · exact (List.pairwise_cons.mp hR.2.1).1 _ hlater

theorem choices_fewest_pairwise (least : Nat) (p : Char → Bool) (text : List Char) :
    ((Piece.fewest least p).choices text).Pairwise fun s t => s.1.length ≤ t.1.length :=
  ((splits_pairwise p text).imp Nat.le_of_lt).sublist List.filter_sublist

/-- No longer run of the class leads on. -/
theorem search_most {least : Nat} {p : Char → Bool}
    (h : search (.most least p :: rest) text = some parts) : ∃ taken left parts',
      (taken ++ left = text ∧ (Piece.most least p).Fits taken) ∧
      search rest left = some parts' ∧ parts = taken :: parts' ∧
      ∀ other left', other ++ left' = text → (Piece.most least p).Fits other →
        (search rest left').isSome = true → other.length ≤ taken.length :=
  rel_of_search (fun _ => Nat.le_refl _)
    (List.pairwise_reverse.mpr (choices_fewest_pairwise least p text)) h

/-- No shorter run of the class leads on. -/
theorem search_fewest {least : Nat} {p : Char → Bool}
    (h : search (.fewest least p :: rest) text = some parts) : ∃ taken left parts',
      (taken ++ left = text ∧ (Piece.fewest least p).Fits taken) ∧
      search rest left = some parts' ∧ parts = taken :: parts' ∧
      ∀ other left', other ++ left' = text → (Piece.fewest least p).Fits other →
        (search rest left').isSome = true → taken.length ≤ other.length :=
  rel_of_search (fun _ => Nat.le_refl _) (choices_fewest_pairwise least p text) h

end Stepwise.Text
