-- Texts and their lines. Joining lines and splitting them again gives the
-- lines back, but for one empty line at the very end, which leaves no trace.
import Mathlib.Data.List.Infix
import Stepwise.Text

namespace Stepwise.Text

/-! ## Splitting -/

theorem lines_newline (rest : List Char) : lines ('\n' :: rest) = [] :: lines rest := rfl

theorem lines_return_newline (rest : List Char) :
    lines ('\r' :: '\n' :: rest) = [] :: lines rest := rfl

/-- A character that ends no line belongs to the first one. -/
theorem lines_cons {c : Char} {rest : List Char}
    (hr : ∀ more, c = '\r' → rest = '\n' :: more → False) (hc : c = '\n' → False) :
    lines (c :: rest) = match lines rest with
      | [] => [[c]]
      | line :: more => (c :: line) :: more := lines.eq_4 c rest hr hc

/-- What a line can be written as: it holds no line feed and no carriage
return at its end, which would go with the line feed. -/
def IsLine (l : List Char) : Prop := '\n' ∉ l ∧ l.getLast? ≠ some '\r'

theorem lines_append_newline {l : List Char} (h : IsLine l) (rest : List Char) :
    lines (l ++ '\n' :: rest) = l :: lines rest := by
  induction l with
  | nil => exact lines_newline rest
  | cons c l ih =>
    obtain ⟨hn, hr⟩ := h
    rw [List.mem_cons, not_or] at hn
    have hl : IsLine l := by
      refine ⟨hn.2, fun hlast => hr ?_⟩
      cases l with
      | nil => cases hlast
      | cons d l => exact hlast
    rw [List.cons_append, lines_cons ?_ (fun he => hn.1 he.symm), ih hl]
    rintro more rfl hmore
    cases l with
    | nil => exact hr rfl
    | cons d l =>
      cases hmore
      exact hn.2 List.mem_cons_self

theorem lines_of_ne_nil {l : List Char} (h : '\n' ∉ l) (hne : l ≠ []) : lines l = [l] := by
  induction l with
  | nil => exact absurd rfl hne
  | cons c l ih =>
    rw [List.mem_cons, not_or] at h
    rw [lines_cons ?_ (fun he => h.1 he.symm)]
    · cases l with
      | nil => rfl
      | cons d l => rw [ih h.2 (by simp)]
    · rintro more - rfl
      exact h.2 List.mem_cons_self

/-! ## Joining and splitting -/

theorem unlines_singleton (l : List Char) : unlines [l] = l := List.intercalate_singleton

theorem unlines_cons_cons (l m : List Char) (ls : List (List Char)) :
    unlines (l :: m :: ls) = l ++ '\n' :: unlines (m :: ls) := by
  unfold unlines
  rw [List.intercalate_cons_cons, List.append_assoc, List.singleton_append]

theorem unlines_append {ls ms : List (List Char)} (hls : ls ≠ []) (hms : ms ≠ []) :
    unlines (ls ++ ms) = unlines ls ++ '\n' :: unlines ms := by
  induction ls with
  | nil => exact absurd rfl hls
  | cons l ls ih =>
    cases ls with
    | nil =>
      obtain ⟨m, ms, rfl⟩ := List.exists_cons_of_ne_nil hms
      rw [unlines_singleton]
      exact unlines_cons_cons l m ms
    | cons k ls =>
      have hrest := ih (by simp)
      rw [List.cons_append] at hrest
      rw [List.cons_append, List.cons_append, unlines_cons_cons, unlines_cons_cons, hrest,
        List.append_assoc, List.cons_append]

/-- Only an empty line at the very end is lost. -/
theorem lines_unlines_or {ls : List (List Char)} (h : ∀ l ∈ ls, IsLine l) :
    lines (unlines ls) = ls ∨ lines (unlines ls) ++ [[]] = ls := by
  induction ls with
  | nil => exact Or.inl rfl
  | cons l ls ih =>
    cases ls with
    | nil =>
      by_cases hl : l = []
      · subst hl
        exact Or.inr rfl
      · left
        rw [unlines_singleton]
        exact lines_of_ne_nil (h l List.mem_cons_self).1 hl
    | cons m ls =>
      rw [unlines_cons_cons, lines_append_newline (h l List.mem_cons_self)]
      rcases ih fun k hk => h k (List.mem_cons_of_mem l hk) with hls | hls
      · exact Or.inl (congrArg _ hls)
      · exact Or.inr (congrArg (l :: ·) hls)

theorem lines_unlines {ls : List (List Char)} (h : ∀ l ∈ ls, IsLine l) (hne : [] ∉ ls) :
    lines (unlines ls) = ls := by
  rcases lines_unlines_or h with hls | hls
  · exact hls
  · refine absurd ?_ hne
    rw [← hls]
    exact List.mem_append_right _ (List.mem_singleton_self [])

theorem mem_of_mem_lines_unlines {ls : List (List Char)} (h : ∀ l ∈ ls, IsLine l) {l : List Char}
    (hl : l ∈ lines (unlines ls)) : l ∈ ls := by
  rcases lines_unlines_or h with hls | hls
  · exact hls ▸ hl
  · rw [← hls]
    exact List.mem_append_left _ hl

/-- The empty line that may be lost does not count where empty lines say nothing. -/
theorem filterMap_lines_unlines {α : Type} {ls : List (List Char)} (h : ∀ l ∈ ls, IsLine l)
    {f : List Char → Option α} (hf : f [] = none) :
    (lines (unlines ls)).filterMap f = ls.filterMap f := by
  rcases lines_unlines_or h with hls | hls
  · rw [hls]
  · conv_rhs => rw [← hls, List.filterMap_append]
    simp [hf]

/-- Texts of several lines each are joined line by line. -/
theorem unlines_map_unlines {lss : List (List (List Char))} (h : [] ∉ lss) :
    unlines (lss.map unlines) = unlines lss.flatten := by
  induction lss with
  | nil => rfl
  | cons ls lss ih =>
    rw [List.mem_cons, not_or] at h
    have hrest := ih h.2
    cases lss with
    | nil => rw [List.flatten_singleton, List.map_singleton, unlines_singleton]
    | cons ms lss =>
      have hne : (ms :: lss).flatten ≠ [] := by
        intro hnil
        rw [List.flatten_eq_nil_iff] at hnil
        exact h.2 (hnil ms List.mem_cons_self ▸ List.mem_cons_self)
      rw [List.flatten_cons, unlines_append (Ne.symm h.1) hne, ← hrest, List.map_cons,
        List.map_cons, unlines_cons_cons]

/-! ## The lines of a text -/

theorem prefix_of_lines_eq_cons {cs l : List Char} {more : List (List Char)}
    (h : lines cs = l :: more) : l <+: cs := by
  induction cs using lines.induct generalizing l more with
  | case1 => cases h
  | case2 rest ih =>
    rw [lines_return_newline] at h
    cases h
    exact List.nil_prefix
  | case3 rest ih =>
    rw [lines_newline] at h
    cases h
    exact List.nil_prefix
  | case4 c rest hcr hc hnil ih =>
    rw [lines_cons hcr hc, hnil] at h
    cases h
    exact List.cons_prefix_cons.mpr ⟨rfl, List.nil_prefix⟩
  | case5 c rest hcr hc line more' hlines ih =>
    rw [lines_cons hcr hc, hlines] at h
    cases h
    exact List.cons_prefix_cons.mpr ⟨rfl, ih hlines⟩

theorem infix_of_mem_lines {cs l : List Char} (h : l ∈ lines cs) : l <:+: cs := by
  induction cs using lines.induct generalizing l with
  | case1 => cases h
  | case2 rest ih =>
    rw [lines_return_newline] at h
    rcases List.mem_cons.mp h with rfl | h
    · exact List.nil_infix
    · exact ((ih h).trans (List.infix_cons (List.infix_refl rest))).trans
        (List.infix_cons (List.infix_refl _))
  | case3 rest ih =>
    rw [lines_newline] at h
    rcases List.mem_cons.mp h with rfl | h
    · exact List.nil_infix
    · exact (ih h).trans (List.infix_cons (List.infix_refl rest))
  | case4 c rest hcr hc hnil ih =>
    rw [lines_cons hcr hc, hnil] at h
    rw [List.mem_singleton] at h
    subst h
    exact (List.cons_prefix_cons.mpr ⟨rfl, List.nil_prefix⟩).isInfix
  | case5 c rest hcr hc line more hlines ih =>
    rw [lines_cons hcr hc, hlines] at h
    rcases List.mem_cons.mp h with rfl | h
    · exact (List.cons_prefix_cons.mpr ⟨rfl, prefix_of_lines_eq_cons hlines⟩).isInfix
    · have hmem : l ∈ lines rest := by
        rw [hlines]
        exact List.mem_cons_of_mem line h
      exact (ih hmem).trans (List.infix_cons (List.infix_refl rest))

theorem newline_not_mem_of_mem_lines {cs l : List Char} (h : l ∈ lines cs) : '\n' ∉ l := by
  induction cs using lines.induct generalizing l with
  | case1 => cases h
  | case2 rest ih =>
    rw [lines_return_newline] at h
    rcases List.mem_cons.mp h with rfl | h
    · exact List.not_mem_nil
    · exact ih h
  | case3 rest ih =>
    rw [lines_newline] at h
    rcases List.mem_cons.mp h with rfl | h
    · exact List.not_mem_nil
    · exact ih h
  | case4 c rest hcr hc hnil ih =>
    rw [lines_cons hcr hc, hnil] at h
    rw [List.mem_singleton] at h
    subst h
    rw [List.mem_singleton]
    exact fun he => hc he.symm
  | case5 c rest hcr hc line more hlines ih =>
    rw [lines_cons hcr hc, hlines] at h
    rw [hlines] at ih
    rcases List.mem_cons.mp h with rfl | h
    · rw [List.mem_cons, not_or]
      exact ⟨fun he => hc he.symm, ih List.mem_cons_self⟩
    · exact ih (List.mem_cons_of_mem line h)

end Stepwise.Text
