-- From the lines of a description to its table. The plain text that a
-- description is rewritten to is read line by line again, so its table and
-- its warnings follow from what each line on its own leaves behind.
import Stepwise.Description
import Stepwise.Proofs.LineGrammar

namespace Stepwise.Description

open Text

/-! ## Broken arrows -/

/-- What is left of an arrow whose three bytes were read one by one. -/
def brokenArrow : List Char := ['\u00e2', '\u2020', '\u2019']

theorem mendArrows_eq_self {cs : List Char} (h : ¬brokenArrow <:+: cs) : mendArrows cs = cs := by
  induction cs using mendArrows.induct with
  | case1 rest ih => exact absurd (List.prefix_append brokenArrow rest).isInfix h
  | case2 c rest hc ih =>
    rw [mendArrows.eq_2 c rest hc, ih fun hrest => h (List.infix_cons hrest)]
  | case3 => rfl

/-- A pattern stands on one side of a character that it does not hold. -/
theorem infix_of_infix_append_cons {pattern a b : List Char} {c : Char} (hc : c ∉ pattern)
    (h : pattern <:+: a ++ c :: b) : pattern <:+: a ∨ pattern <:+: b := by
  have hstarts : ∀ p, p <+: c :: b → c ∉ p → p = [] := by
    intro p hp hcp
    rcases List.prefix_cons_iff.mp hp with hnil | ⟨t, rfl, -⟩
    · exact hnil
    · exact absurd List.mem_cons_self hcp
  rcases List.infix_append_iff.mp h with ha | hb | ⟨p, q, rfl, hp, hq⟩
  · exact Or.inl ha
  · rcases List.infix_cons_iff.mp hb with hb | hb
    · rw [hstarts pattern hb hc]
      exact Or.inl List.nil_infix
    · exact Or.inr hb
  · rw [hstarts q hq fun hmem => hc (List.mem_append_right p hmem), List.append_nil]
    exact Or.inl hp.isInfix

/-! ## What a line leaves behind -/

/-- The lines of the plain text that come from one line. -/
def Rewritten.left : Rewritten → List (List Char)
  | blank | emptySymbol _ => []
  | untouched line => [line]
  | expanded [] => [[]]
  | expanded xs => xs.map TransitionLine.write

theorem Rewritten.left_expanded_singleton (x : Triple) :
    (expanded [x]).left = [TransitionLine.write x] := rfl

theorem Rewritten.mem_left_expanded {xs : List Triple} {line : List Char}
    (h : line ∈ (expanded xs).left) : line = [] ∨ ∃ x ∈ xs, TransitionLine.write x = line := by
  cases xs with
  | nil => exact Or.inl (List.mem_singleton.mp h)
  | cons x xs => exact Or.inr (List.mem_map.mp h)

/-- Reading what is left of a line is reading its transitions, written one by one. -/
theorem Rewritten.readings_expanded (xs : List Triple) :
    (expanded xs).left.filterMap TransitionLine.read =
      xs.filterMap fun x => TransitionLine.read (TransitionLine.write x) := by
  cases xs with
  | nil => rfl
  | cons x xs => exact List.filterMap_map

theorem Rewritten.plain_eq (r : Rewritten) :
    r.plain = if r.left = [] then none else some (unlines r.left) := by
  match r with
  | blank | emptySymbol _ => rfl
  | untouched line => exact congrArg some (unlines_singleton line).symm
  | expanded [] => rfl
  | expanded (x :: xs) => rfl

theorem unlines_filterMap_plain (rs : List Rewritten) :
    unlines (rs.filterMap Rewritten.plain) = unlines (rs.flatMap Rewritten.left) := by
  have hplain : rs.filterMap Rewritten.plain =
      ((rs.map Rewritten.left).filter (· ≠ [])).map unlines := by
    induction rs with
    | nil => rfl
    | cons r rs ih =>
      rw [List.filterMap_cons, r.plain_eq, List.map_cons, ih]
      by_cases hr : r.left = []
      · simp [hr]
      · simp [hr]
  rw [hplain, unlines_map_unlines (by simp), List.flatMap_def]
  congr 1
  exact List.flatten_filter_ne_nil

/-! ## Reading the plain text -/

/-- The lines of the plain text of a description. -/
def leftLines (d : Description) : List (List Char) :=
  (rewriteLines (stateSet d.states) d.transitions.toList).flatMap Rewritten.left

theorem plainTransitions_eq (d : Description) : d.plainTransitions = unlines d.leftLines :=
  unlines_filterMap_plain _

theorem table_parse_plain {d : Description} (h : ∀ line ∈ d.leftLines, IsLine line) :
    (TransitionText.parse d.plainTransitions).table =
      .ofTriples (d.leftLines.filterMap TransitionLine.read) := by
  rw [TransitionText.table_parse, TransitionText.readings, plainTransitions_eq,
    filterMap_lines_unlines h (TransitionLine.read_of_allBlank rfl)]

theorem warnings_parse_plain {d : Description} (h : ∀ line ∈ d.leftLines, IsLine line)
    (hread : ∀ line ∈ d.leftLines, line = [] ∨ (TransitionLine.read line).isSome = true) :
    (TransitionText.parse d.plainTransitions).warnings = [] := by
  apply TransitionText.warnings_parse_eq_nil
  intro line hline
  rw [plainTransitions_eq] at hline
  rcases hread line (mem_of_mem_lines_unlines h hline) with rfl | hsome
  · exact Or.inl rfl
  · exact Or.inr hsome

/-! ## What is decoded -/

theorem decodeFrom_table (d : Description) (kind : Kind) (initial : List Char) :
    (d.decodeFrom kind initial).automaton.table =
      (TransitionText.parse d.plainTransitions).table := by
  simp only [decodeFrom]

theorem decodeFrom_warnings (d : Description) (kind : Kind) (initial : List Char) :
    (d.decodeFrom kind initial).warnings =
      (TransitionText.parse d.plainTransitions).warnings := by
  simp only [decodeFrom]

theorem decode_of_single {d : Description} {kind : Kind} {initial : List Char}
    (hbrackets : d.unbalancedField = none) (hinitial : listItems d.initialState.toList = [initial]) :
    d.decode kind = .ok (d.decodeFrom kind initial) := by
  unfold decode
  rw [hbrackets, hinitial]

theorem exists_decodeFrom {d : Description} {kind : Kind} {r : Decoded} (h : d.decode kind = .ok r) :
    ∃ initial, r = d.decodeFrom kind initial := by
  unfold decode at h
  split at h
  · cases h
  · split at h
    · cases h
    · rename_i single _
      cases h
      exact ⟨single, rfl⟩
    · cases h

end Stepwise.Description
