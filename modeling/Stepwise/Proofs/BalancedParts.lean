-- Balanced texts and their parts. While a balanced text is read, the depth is the
-- number of brackets that are open, so it never has to stop at zero. Where it is
-- zero, all is closed: what a comma parts there is balanced on either side.
import Stepwise.Proofs.CommaLists
import Stepwise.Proofs.WellNested

namespace Stepwise.Text

/-- The start of a balanced text leaves as many brackets open as its depth says. -/
theorem exists_open_of_balancedFrom {openOnes a b : List Char}
    (h : balancedFrom openOnes (a ++ b) = true) :
    ∃ left : List Char, left.length = depthAt openOnes.length a ∧
      ∀ rest, balancedFrom openOnes (a ++ rest) = balancedFrom left rest := by
  induction a generalizing openOnes with
  | nil => exact ⟨openOnes, rfl, fun _ => rfl⟩
  | cons c a ih =>
    simp only [List.cons_append] at h ⊢
    show ∃ left : List Char, left.length = depthAt (depthAfter openOnes.length c) a ∧ _
    by_cases ho : isOpening c = true
    · rw [balancedFrom_opening ho] at h
      simp only [balancedFrom_opening ho, depthAfter_opening _ ho]
      exact ih h
    · by_cases hc : isClosing c = true
      · cases openOnes with
        | nil => simp [balancedFrom_nil_closing hc] at h
        | cons o openOnes =>
          rw [balancedFrom_closing hc, Bool.and_eq_true] at h
          simp only [balancedFrom_closing hc, h.1, Bool.true_and, depthAfter_closing _ hc]
          exact ih h.2
      · have hplain : isBracket c = false := by simp [isBracket, ho, hc]
        rw [balancedFrom_other hplain] at h
        simp only [balancedFrom_other hplain, depthAfter_of_not_bracket _ hplain]
        exact ih h

theorem balanced_comma (rest : List Char) : balanced (',' :: rest) = balanced rest :=
  balancedFrom_other (by decide) [] rest

/-- A comma at depth zero parts a balanced text into balanced ones. -/
theorem balanced_append_comma_iff {part rest : List Char} (h : depthAt 0 part = 0) :
    balanced (part ++ ',' :: rest) = true ↔ balanced part = true ∧ balanced rest = true := by
  constructor
  · intro hall
    obtain ⟨left, hlength, hleft⟩ := exists_open_of_balancedFrom hall
    have hnil : left = [] := List.eq_nil_of_length_eq_zero (hlength.trans h)
    subst hnil
    have hpart : balanced (part ++ []) = true := hleft []
    have hrest : balanced (part ++ ',' :: rest) = balanced (',' :: rest) := hleft (',' :: rest)
    rw [List.append_nil] at hpart
    rw [hrest, balanced_comma] at hall
    exact ⟨hpart, hall⟩
  · rintro ⟨hpart, hrest⟩
    exact balanced_append hpart ((balanced_comma rest).trans hrest)

theorem brackets_eq_nil {cs : List Char} (h : Plain cs) : brackets cs = [] := by
  unfold brackets
  rw [List.filter_eq_nil_iff]
  intro c hc
  simp [h c hc]

theorem balanced_trim (cs : List Char) : balanced (trim cs) = balanced cs := by
  obtain ⟨v, w, hv, hw, hcs⟩ := exists_eq_trim cs
  have hbrackets : brackets (trim cs) = brackets cs := by
    calc brackets (trim cs)
        = brackets v ++ brackets (trim cs) ++ brackets w := by
          simp [brackets_eq_nil (plain_of_allBlank hv), brackets_eq_nil (plain_of_allBlank hw)]
      _ = brackets (v ++ trim cs ++ w) := by simp [brackets]
      _ = brackets cs := by rw [← hcs]
  unfold balanced
  rw [← balancedFrom_brackets, hbrackets, balancedFrom_brackets]

/-- The elements of a balanced list are balanced. -/
theorem balanced_of_mem_listItems {cs : List Char} (h : balanced cs = true) :
    ∀ item ∈ listItems cs, balanced item = true := by
  have hpart : ∀ part, cutAtComma 0 part = none → balanced part = true →
      ∀ item ∈ listItems part, balanced item = true := by
    intro part hcut hbalanced item hitem
    rw [listItems_of_no_comma hcut] at hitem
    split at hitem
    · cases hitem
    · rw [List.mem_singleton.mp hitem, balanced_trim, hbalanced]
  induction cs using comma_induction with
  | last cs hcut => exact hpart cs hcut h
  | cons part rest hwhole ih =>
    obtain ⟨hstart, hrest⟩ := (balanced_append_comma_iff hwhole.depth_eq).mp h
    rw [listItems_append_comma hwhole]
    intro item hitem
    rcases List.mem_append.mp hitem with hitem | hitem
    · exact hpart part hwhole.no_comma hstart item hitem
    · exact ih hrest item hitem

end Stepwise.Text
