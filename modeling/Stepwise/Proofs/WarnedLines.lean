-- Where the warnings of a description point. They are numbered in the rewritten
-- text, in which a line may be missing or stand as several. So a number is that of a
-- line which was left out only where the rewriting has not moved the lines before it.
import Mathlib.Data.List.Sort
import Stepwise.Proofs.LeftLines

namespace Stepwise

open Text

/-! ## Numbers of wrong lines -/

namespace TransitionText

theorem wrongNumbers_append (number : Nat) (ls ms : List (List Char)) :
    wrongNumbers number (ls ++ ms) =
      wrongNumbers number ls ++ wrongNumbers (number + ls.length) ms := by
  induction ls generalizing number with
  | nil => rfl
  | cons l ls ih =>
    have hnumber : number + (l :: ls).length = number + 1 + ls.length := by
      rw [List.length_cons]
      omega
    rw [List.cons_append, wrongNumbers, wrongNumbers, ih, hnumber, List.append_assoc]

theorem le_of_mem_wrongNumbers {number n : Nat} {ls : List (List Char)}
    (h : n ∈ wrongNumbers number ls) : number ≤ n := by
  induction ls generalizing number with
  | nil => cases h
  | cons l ls ih =>
    rw [wrongNumbers, List.mem_append] at h
    rcases h with h | h
    · split at h
      · rw [List.mem_singleton.mp h]
      · cases h
    · have hle := ih h
      omega

theorem wrongNumbers_pairwise (number : Nat) (ls : List (List Char)) :
    (wrongNumbers number ls).Pairwise (· < ·) := by
  induction ls generalizing number with
  | nil => exact List.Pairwise.nil
  | cons l ls ih =>
    rw [wrongNumbers]
    split
    · refine List.pairwise_cons.mpr ⟨fun n hn => ?_, ih (number + 1)⟩
      have hle := le_of_mem_wrongNumbers hn
      omega
    · exact ih (number + 1)

theorem wrongNumbers_ne_nil_iff {number : Nat} {ls : List (List Char)} :
    wrongNumbers number ls ≠ [] ↔ ∃ l ∈ ls, isWrong l = true := by
  induction ls generalizing number with
  | nil => simp [wrongNumbers]
  | cons l ls ih =>
    have hrest : wrongNumbers (number + 1) ls ≠ [] ↔ ∃ l ∈ ls, isWrong l = true := ih
    cases hl : isWrong l with
    | true => simp [wrongNumbers, hl]
    | false =>
      simp only [wrongNumbers, hl, Bool.false_eq_true, if_false, List.nil_append, List.mem_cons,
        exists_eq_or_imp, false_or]
      exact hrest

end TransitionText

namespace Description

open TransitionText

/-! ## The warnings of one line -/

/-- How many lines of the rewritten text come from the first lines of the description. -/
def linesBefore (d : Description) (i : Nat) : Nat :=
  ((d.givenLines.take i).flatMap d.leftOf).length

/-- The numbers of the warnings for what is left of one line, which is counted from
zero. -/
def numbersOf (d : Description) (i : Nat) : List Nat :=
  wrongNumbers (d.linesBefore i + 1) ((d.givenLines[i]?).toList.flatMap d.leftOf)

/-- The line with this number, counted from one, is left out in whole or in part, for
what it was rewritten to is wrong. -/
def IgnoresLine (d : Description) (number : Nat) : Prop :=
  ∃ i line, number = i + 1 ∧ d.givenLines[i]? = some line ∧
    ∃ l ∈ d.leftOf line, isWrong l = true

variable {d : Description}

theorem numbersOf_ne_nil_iff {i : Nat} : d.numbersOf i ≠ [] ↔ d.IgnoresLine (i + 1) := by
  unfold numbersOf IgnoresLine
  rw [wrongNumbers_ne_nil_iff]
  constructor
  · rintro ⟨l, hl, hwrong⟩
    obtain ⟨line, hline, hl⟩ := List.mem_flatMap.mp hl
    exact ⟨i, line, rfl, Option.mem_toList.mp hline, l, hl, hwrong⟩
  · rintro ⟨j, line, hij, hline, l, hl, hwrong⟩
    obtain rfl : i = j := by omega
    exact ⟨l, List.mem_flatMap.mpr ⟨line, Option.mem_toList.mpr hline, hl⟩, hwrong⟩

theorem lt_length_of_numbersOf_ne_nil {i : Nat} (h : d.numbersOf i ≠ []) :
    i < d.givenLines.length := by
  obtain ⟨j, line, hij, hline, -⟩ := numbersOf_ne_nil_iff.mp h
  obtain rfl : i = j := by omega
  exact (List.getElem?_eq_some_iff.mp hline).1

/-- The wrong lines of the first lines of a description, one line after the other. -/
theorem wrongNumbers_take (d : Description) (n : Nat) :
    wrongNumbers 1 ((d.givenLines.take n).flatMap d.leftOf) =
      (List.range n).flatMap d.numbersOf := by
  induction n with
  | zero => rfl
  | succ n ih =>
    rw [List.range_succ, List.flatMap_append, ← ih, List.take_add_one, List.flatMap_append,
      wrongNumbers_append, Nat.add_comm 1]
    simp only [List.flatMap_singleton]
    rfl

theorem wrongNumbers_leftLines (d : Description) :
    wrongNumbers 1 d.leftLines = (List.range d.givenLines.length).flatMap d.numbersOf := by
  rw [← wrongNumbers_take, List.take_length, leftLines_eq_flatMap]

/-! ## Counting warnings and lines -/

theorem length_filter_le_length_flatMap {f : Nat → List Nat} (is : List Nat) :
    (is.filter fun i => decide (f i ≠ [])).length ≤ (is.flatMap f).length := by
  induction is with
  | nil => exact Nat.le_refl 0
  | cons i is ih =>
    rw [List.filter_cons, List.flatMap_cons, List.length_append]
    split
    · rename_i hne
      have hpos : 0 < (f i).length := List.length_pos_iff.mpr (of_decide_eq_true hne)
      rw [List.length_cons]
      omega
    · omega

/-- If the lists together are one number for each list that is not empty, each of
these lists is its number. -/
theorem eq_singleton_of_flatMap_eq {f : Nat → List Nat} {g : Nat → Nat} {is : List Nat}
    (h : is.flatMap f = (is.filter fun i => decide (f i ≠ [])).map g) :
    ∀ i ∈ is, f i ≠ [] → f i = [g i] := by
  induction is with
  | nil => exact fun i hi => by cases hi
  | cons j is ih =>
    by_cases hj : f j = []
    · rw [List.flatMap_cons, hj, List.nil_append, List.filter_cons_of_neg (by simpa using hj)] at h
      intro i hi hne
      rcases List.mem_cons.mp hi with rfl | hi
      · exact absurd hj hne
      · exact ih h i hi hne
    · rw [List.flatMap_cons, List.filter_cons_of_pos (by simpa using hj), List.map_cons] at h
      -- the other lists hold a number each, so this one holds no second
      have hlength := congrArg List.length h
      have hrest := length_filter_le_length_flatMap (f := f) is
      have hpos : 0 < (f j).length := List.length_pos_iff.mpr hj
      simp only [List.length_append, List.length_cons, List.length_map] at hlength
      obtain ⟨n, hn⟩ := List.length_eq_one_iff.mp (show (f j).length = 1 by omega)
      rw [hn, List.singleton_append, List.cons.injEq] at h
      intro i hi hne
      rcases List.mem_cons.mp hi with rfl | hi
      · rw [hn, h.1]
      · exact ih h.2 i hi hne

/-- Numbers in ascending order, at least one for each ignored line and each the number
of an ignored line: then they are the numbers of those lines, each its own. -/
theorem eq_singleton_of_subset {f : Nat → List Nat} {is : List Nat}
    (his : is.Pairwise (· < ·)) (hf : (is.flatMap f).Pairwise (· < ·))
    (h : ∀ n ∈ is.flatMap f, ∃ i ∈ is, f i ≠ [] ∧ n = i + 1) :
    ∀ i ∈ is, f i ≠ [] → f i = [i + 1] := by
  apply eq_singleton_of_flatMap_eq (g := (· + 1))
  have hnumbers : ((is.filter fun i => decide (f i ≠ [])).map (· + 1)).Pairwise (· < ·) := by
    rw [List.pairwise_map]
    exact (his.filter _).imp fun hlt => Nat.add_lt_add_right hlt 1
  have hsubset : is.flatMap f ⊆ (is.filter fun i => decide (f i ≠ [])).map (· + 1) := by
    intro n hn
    obtain ⟨i, hi, hne, rfl⟩ := h n hn
    exact List.mem_map_of_mem (List.mem_filter.mpr ⟨hi, decide_eq_true hne⟩)
  have hperm := (List.subperm_of_subset (hf.imp Nat.ne_of_lt) hsubset).perm_of_length_le (by
    rw [List.length_map]
    exact length_filter_le_length_flatMap is)
  exact hperm.eq_of_pairwise (fun a b _ _ hab hba => absurd hab (Nat.lt_asymm hba)) hf hnumbers

/-! ## Where the warnings point -/

/-- The warnings point at ignored lines only if each ignored line has one warning, and
that with its own number. -/
theorem numbers_are_ignored_iff (d : Description) :
    (∀ n ∈ wrongNumbers 1 d.leftLines, d.IgnoresLine n) ↔
      ∀ i, d.numbersOf i ≠ [] → d.numbersOf i = [i + 1] := by
  rw [wrongNumbers_leftLines]
  constructor
  · intro h i hi
    refine eq_singleton_of_subset List.pairwise_lt_range ?_ ?_ i
      (List.mem_range.mpr (lt_length_of_numbersOf_ne_nil hi)) hi
    · rw [← wrongNumbers_leftLines]
      exact wrongNumbers_pairwise 1 d.leftLines
    · intro n hn
      obtain ⟨j, line, rfl, hline, l, hl⟩ := h n hn
      have hne : d.numbersOf j ≠ [] := numbersOf_ne_nil_iff.mpr ⟨j, line, rfl, hline, l, hl⟩
      exact ⟨j, List.mem_range.mpr (lt_length_of_numbersOf_ne_nil hne), hne, rfl⟩
  · intro h n hn
    obtain ⟨i, -, hi⟩ := List.mem_flatMap.mp hn
    have hne := List.ne_nil_of_mem hi
    rw [h i hne, List.mem_singleton] at hi
    rw [hi]
    exact numbersOf_ne_nil_iff.mp hne

theorem length_flatMap_eq_length {α β : Type} {f : α → List β} {ls : List α}
    (h : ∀ l ∈ ls, (f l).length = 1) : (ls.flatMap f).length = ls.length := by
  induction ls with
  | nil => rfl
  | cons l ls ih =>
    rw [List.flatMap_cons, List.length_append, h l List.mem_cons_self,
      ih fun k hk => h k (List.mem_cons_of_mem l hk), List.length_cons, Nat.add_comm]

/-- Where no line up to an ignored one is dropped or taken apart, its number is right. -/
theorem numbersOf_eq_of_steady {i : Nat} (hi : d.numbersOf i ≠ [])
    (h : ∀ line ∈ d.givenLines.take (i + 1), (d.leftOf line).length = 1) :
    d.numbersOf i = [i + 1] := by
  have hlt := lt_length_of_numbersOf_ne_nil hi
  have hbefore : d.linesBefore i = i := by
    unfold linesBefore
    rw [length_flatMap_eq_length, List.length_take_of_le (Nat.le_of_lt hlt)]
    intro line hline
    exact h line ((List.take_prefix_take_left (Nat.le_succ i)).subset hline)
  have hmem : d.givenLines[i] ∈ d.givenLines.take (i + 1) := by
    rw [List.take_add_one, List.getElem?_eq_getElem hlt]
    exact List.mem_append_right _ (List.mem_singleton_self _)
  obtain ⟨l, hl⟩ := List.length_eq_one_iff.mp (h _ hmem)
  unfold numbersOf at hi ⊢
  rw [hbefore, List.getElem?_eq_getElem hlt, Option.toList_some, List.flatMap_singleton, hl] at hi ⊢
  cases hwrong : isWrong l with
  | true => simp [wrongNumbers, hwrong]
  | false => simp [wrongNumbers, hwrong] at hi

/-- The warnings of a decoded description have the numbers that the wrong lines have
in the rewritten text. They are numbers of ignored lines of the description if and
only if each ignored line brings one warning, with its own number; so it is if up to
each ignored line every line leaves just one behind. -/
theorem warnings_are_numbered_in_the_rewritten_text {d : Description} {kind : Kind} {r : Decoded}
    (hdecode : d.decode kind = .ok r) :
    r.warnings.map LineWarning.line = (List.range d.givenLines.length).flatMap d.numbersOf ∧
    (∀ i, d.numbersOf i ≠ [] ↔ d.IgnoresLine (i + 1)) ∧
    ((∀ w ∈ r.warnings, d.IgnoresLine w.line) ↔
      ∀ i, d.numbersOf i ≠ [] → d.numbersOf i = [i + 1]) ∧
    ((∀ i, d.IgnoresLine (i + 1) →
        ∀ line ∈ d.givenLines.take (i + 1), (d.leftOf line).length = 1) →
      ∀ w ∈ r.warnings, d.IgnoresLine w.line) := by
  obtain ⟨initial, rfl⟩ := exists_decodeFrom hdecode
  rw [decodeFrom_warnings]
  have hnumbers := map_line_warnings_plain d
  have hiff : (∀ w ∈ (parse d.plainTransitions).warnings, d.IgnoresLine w.line) ↔
      ∀ i, d.numbersOf i ≠ [] → d.numbersOf i = [i + 1] := by
    rw [← numbers_are_ignored_iff, ← hnumbers, List.forall_mem_map]
  refine ⟨hnumbers.trans (wrongNumbers_leftLines d), fun i => numbersOf_ne_nil_iff, hiff, ?_⟩
  intro hsteady
  rw [hiff]
  exact fun i hi => numbersOf_eq_of_steady hi (hsteady i (numbersOf_ne_nil_iff.mp hi))

/-- A line without a comma, and one with a target that is no name. -/
def misspelled : Description :=
  ⟨"q0, q1", "a", "q0", "q1", "q0 a\nq0,a → q1\nq1,a -> q-1"⟩

theorem misspelled_is_warned_of_at_its_lines :
    misspelled.decode .nfa = .ok (misspelled.decodeFrom .nfa ['q', '0']) ∧
    (misspelled.decodeFrom .nfa ['q', '0']).warnings.map LineWarning.line = [1, 3] ∧
    ∀ w ∈ (misspelled.decodeFrom .nfa ['q', '0']).warnings, misspelled.IgnoresLine w.line := by
  have hdecode : misspelled.decode .nfa = .ok (misspelled.decodeFrom .nfa ['q', '0']) :=
    decode_of_single (by decide) (by decide)
  obtain ⟨hnumbers, -, -, hsteady⟩ := warnings_are_numbered_in_the_rewritten_text hdecode
  have hone : ∀ line ∈ misspelled.givenLines, (misspelled.leftOf line).length = 1 := by decide
  refine ⟨hdecode, hnumbers.trans (by decide), hsteady fun i _ line hline => ?_⟩
  exact hone line (List.mem_of_mem_take hline)

/-- A line without a comma behind a blank one. -/
def blankFirst : Description := ⟨"q0", "a", "q0", "q0", "\nq0 a"⟩

/-- The blank line is not rewritten, so the warning has the number of that line and
not of the one that was left out. -/
theorem blankFirst_is_warned_of_at_the_blank_line :
    ∃ r, blankFirst.decode .nfa = .ok r ∧ r.warnings = [⟨1, "q0 a".toList, .missingArrow⟩] ∧
      ¬blankFirst.IgnoresLine 1 ∧ blankFirst.IgnoresLine 2 := by
  refine ⟨blankFirst.decodeFrom .nfa ['q', '0'], decode_of_single (by decide) (by decide), by decide,
    ?_, ?_⟩
  · rw [← numbersOf_ne_nil_iff]
    decide
  · rw [← numbersOf_ne_nil_iff]
    decide

end Description

end Stepwise
