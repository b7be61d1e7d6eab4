-- The transition table in color. Only the cells of accepting states differ from the
-- plain table, by sequences that take no column, so the two have the same columns and
-- the same frame. Whoever takes the sequences out has the plain table. Of the measure of
-- a cell nothing is used but that a style around a text does not count.
import Mathlib.Data.List.Forall2
import Stepwise.Proofs.Operations
import Stepwise.Proofs.StyledText
import Stepwise.Report

namespace Stepwise

open Terminal

/-! ## Grids with the same cells -/

namespace Terminal

theorem Shows.intercalate {separator : List Char} {ls shown : List (List Char)}
    (hsep : escapeChar ∉ separator) (h : List.Forall₂ Shows ls shown) :
    Shows (List.intercalate separator ls) (List.intercalate separator shown) := by
  induction h with
  | nil => exact .nil
  | cons hfirst hrest ih =>
    cases hrest with
    | nil => simpa using hfirst
    | cons =>
      rw [List.intercalate_cons_cons, List.intercalate_cons_cons]
      exact (hfirst.append (shows_self hsep)).append ih

namespace Grid

variable {measure : Cell → Nat} {g plain : Grid} {row row' : List Cell}

/-- Every cell is dressed as the cell at its place in the plain grid. -/
structure Dressed (measure : Cell → Nat) (g plain : Grid) : Prop where
  header : List.Forall₂ (Terminal.Dressed measure) g.header plain.header
  rows : List.Forall₂ (List.Forall₂ (Terminal.Dressed measure)) g.rows plain.rows

theorem map_eq_of_forall₂ {α β : Type} {R : α → α → Prop} {f : α → β} {xs ys : List α}
    (hf : ∀ x y, R x y → f x = f y) (h : List.Forall₂ R xs ys) : xs.map f = ys.map f := by
  induction h with
  | nil => rfl
  | cons hfirst _ ih => rw [List.map_cons, List.map_cons, hf _ _ hfirst, ih]

theorem columnWidths_eq_foldl (measure : Cell → Nat) (g : Grid) :
    g.columnWidths measure =
      ((g.header :: g.rows).map (List.map measure)).foldl maxWidths [] := by
  rw [List.foldl_map]
  rfl

theorem Dressed.columnWidths_eq (h : Dressed measure g plain) :
    g.columnWidths measure = plain.columnWidths measure := by
  have hrow (row row' : List Cell) (h : List.Forall₂ (Terminal.Dressed measure) row row') :
      row.map measure = row'.map measure :=
    map_eq_of_forall₂ (fun _ _ hcell => hcell.measure_eq) h
  rw [columnWidths_eq_foldl, columnWidths_eq_foldl, List.map_cons, List.map_cons,
    hrow _ _ h.header, map_eq_of_forall₂ hrow h.rows]

theorem shows_pad {cell shown : Cell} (h : Terminal.Dressed measure cell shown) (w : Nat) :
    Shows (pad measure w cell) (pad measure w shown) := by
  have hblanks : escapeChar ∉ List.replicate (w - measure shown + 1) ' ' := fun hblank =>
    absurd (List.eq_of_mem_replicate hblank) (by decide)
  unfold pad
  rw [h.measure_eq]
  exact (Shows.char (by decide) h.shows).append (shows_self hblanks)

theorem shows_line (h : List.Forall₂ (Terminal.Dressed measure) row row') (ws : List Nat) :
    Shows (line measure ws row) (line measure ws row') := by
  have hbar : '│' ≠ escapeChar := by decide
  -- on the columns, for the cells of a row may be fewer or more
  induction ws generalizing row row' with
  | nil => exact .char hbar .nil
  | cons w ws ih =>
    cases h with
    | nil => exact (Shows.char hbar (shows_pad (dressed_self .nil) w)).append (ih .nil)
    | cons hcell hcells => exact (Shows.char hbar (shows_pad hcell w)).append (ih hcells)

theorem shows_rule {left between right : Char} (hleft : left ≠ escapeChar)
    (hbetween : between ≠ escapeChar) (hright : right ≠ escapeChar) (ws : List Nat) :
    Shows (rule left between right ws) (rule left between right ws) := by
  have hdashes : ∀ l ∈ ws.map fun w => List.replicate (w + 2) '─', Shows l l := by
    intro l hl
    obtain ⟨w, _, rfl⟩ := List.mem_map.mp hl
    exact shows_self fun hdash => absurd (List.eq_of_mem_replicate hdash) (by decide)
  have hbetween : escapeChar ∉ [between] := fun hmem =>
    hbetween (List.mem_singleton.mp hmem).symm
  have hinner := Shows.intercalate hbetween (List.forall₂_same.mpr hdashes)
  exact (Shows.char hleft hinner).append (.char hright .nil)

theorem Dressed.shows_lines (h : Dressed measure g plain) :
    List.Forall₂ Shows (g.lines measure) (plain.lines measure) := by
  have hempty : g.rows.isEmpty = plain.rows.isEmpty := by
    rw [Bool.eq_iff_iff, List.isEmpty_iff_length_eq_zero, List.isEmpty_iff_length_eq_zero,
      h.rows.length_eq]
  have hrows (ws : List Nat) :
      List.Forall₂ Shows (g.rows.map (line measure ws)) (plain.rows.map (line measure ws)) := by
    rw [List.forall₂_map_left_iff, List.forall₂_map_right_iff]
    exact h.rows.imp fun _ _ hrow => shows_line hrow ws
  unfold lines
  rw [h.columnWidths_eq, hempty]
  refine List.rel_append (List.rel_append ?_ (hrows _)) ?_
  · exact .cons (shows_rule (by decide) (by decide) (by decide) _) <|
      .cons (shows_line h.header _) <|
      .cons (shows_rule (by decide) (by decide) (by decide) _) .nil
  · split
    · exact .nil
    · exact .cons (shows_rule (by decide) (by decide) (by decide) _) .nil

/-- The whole table, drawn from cells in color, shows the one drawn without. -/
theorem Dressed.shows_render (h : Dressed measure g plain) :
    Shows (g.render measure).toList (plain.render measure).toList := by
  unfold render
  rw [String.toList_ofList, String.toList_ofList]
  exact Shows.intercalate (by decide) h.shows_lines

end Grid

end Terminal

/-! ## The table of an automaton -/

/-- A text that takes one line of a cell as it is. -/
def FitsCell (text : String) : Prop :=
  escapeChar ∉ text.toList ∧ '\n' ∉ text.toList ∧ '\t' ∉ text.toList

instance {text : String} : Decidable (FitsCell text) := inferInstanceAs (Decidable (_ ∧ _))

theorem FitsCell.shows {text : String} (h : FitsCell text) : Shows text.toList text.toList :=
  shows_self h.1

theorem shows_inBraces {texts : List String} (h : ∀ text ∈ texts, FitsCell text) :
    Shows (inBraces texts).toList (inBraces texts).toList := by
  have htexts : List.Forall₂ Shows (texts.map String.toList) (texts.map String.toList) := by
    refine List.forall₂_same.mpr fun cs hcs => ?_
    obtain ⟨text, hmem, rfl⟩ := List.mem_map.mp hcs
    exact (h text hmem).shows
  unfold inBraces
  rw [String.toList_append, String.toList_append, String.toList_intercalate]
  exact ((shows_self (by decide)).append (Shows.intercalate (by decide) htexts)).append
    (shows_self (by decide))

namespace Automaton

/-- What the transition table shows fits into its cells. -/
structure FitsTable (a : Automaton) : Prop where
  states : ∀ q ∈ a.states, FitsCell q
  symbols : ∀ x ∈ a.alphabet, FitsCell x
  targets : ∀ x ∈ a.table.triples, FitsCell x.target

variable {a : Automaton} {q : StateName} {symbol : Symbol} {measure : Cell → Nat}

theorem shows_markedState (h : FitsCell q) :
    Shows (a.markedState q).toList (a.markedState q).toList := by
  unfold markedState
  rw [String.toList_append, String.toList_append]
  refine Shows.append (Shows.append ?_ ?_) h.shows
  · split <;> exact shows_self (by decide)
  · split <;> exact shows_self (by decide)

theorem dressed_coloredState (hmeasure : IgnoresStyles measure) (h : FitsCell q) :
    Dressed measure (a.coloredState q).toList (a.markedState q).toList := by
  have hmarked : Dressed measure (a.markedState q).toList (a.markedState q).toList :=
    dressed_self (shows_markedState h)
  unfold coloredState
  split
  · exact (hmarked.styled hmeasure 32 39).styled hmeasure 1 0
  · exact hmarked

theorem FitsTable.shows_destinationCell (h : a.FitsTable) :
    Shows (a.destinationCell q symbol).toList (a.destinationCell q symbol).toList := by
  have hfits : ∀ r ∈ (a.destinations q symbol).toList, FitsCell r := by
    intro r hr
    obtain ⟨e, he, hkey, hr⟩ := Table.mem_destinations.mp (OrderedSet.mem_toList.mp hr)
    exact h.targets ⟨q, symbol, r⟩ (Table.mem_triples.mpr ⟨e, he, hkey, hr⟩)
  unfold destinationCell
  split
  · exact shows_self (by decide)
  · rename_i r hone
    exact (hfits r (hone ▸ List.mem_singleton_self r)).shows
  · exact shows_inBraces hfits

/-- Whatever the measure of a cell is, if only styles do not count. -/
theorem FitsTable.dressed_grid (h : a.FitsTable) (hmeasure : IgnoresStyles measure) :
    (a.transitionGrid a.coloredState).Dressed measure (a.transitionGrid a.markedState) := by
  refine ⟨?_, ?_⟩
  · refine List.forall₂_same.mpr fun cell hcell => dressed_self ?_
    obtain ⟨text, htext, rfl⟩ := List.mem_map.mp hcell
    rcases List.mem_cons.mp htext with rfl | hsymbol
    · exact shows_self (by decide)
    · exact (h.symbols text hsymbol).shows
  · show List.Forall₂ _ ((a.states.toList.map _).map _) ((a.states.toList.map _).map _)
    rw [List.map_map, List.map_map, List.forall₂_map_left_iff, List.forall₂_map_right_iff]
    refine List.forall₂_same.mpr fun q hq => ?_
    refine .cons (dressed_coloredState hmeasure (h.states q hq)) ?_
    refine List.forall₂_same.mpr fun cell hcell => dressed_self ?_
    obtain ⟨text, htext, rfl⟩ := List.mem_map.mp hcell
    obtain ⟨symbol, _, rfl⟩ := List.mem_map.mp htext
    exact h.shows_destinationCell

/-- The colors put sequences into the table and change nothing else: the columns are as
wide as without them, and without them the text is the plain table. -/
theorem coloring_adds_only_styles (h : a.FitsTable) :
    (a.transitionGrid a.coloredState).columnWidths width =
        (a.transitionGrid a.markedState).columnWidths width ∧
      Shows a.coloredTransitionTable.toList a.transitionTable.toList ∧
      visible a.coloredTransitionTable.toList = a.transitionTable.toList :=
  have hdressed := h.dressed_grid ignoresStyles_width
  ⟨hdressed.columnWidths_eq, hdressed.shows_render, hdressed.shows_render.visible_eq⟩

/-- The initial state accepts, takes two columns and leads to two states. -/
def wideNamed : Automaton :=
  ⟨.nfa, .ofList ["日", "q"], .ofList ["a", "λ"],
    .ofTriples [⟨"日", "a", "q"⟩, ⟨"日", "a", "日"⟩, ⟨"q", "λ", "日"⟩], "日", .ofList ["日"]⟩

theorem wideNamed_colored_adds_only_styles :
    wideNamed.FitsTable ∧
      (wideNamed.transitionGrid wideNamed.coloredState).columnWidths width =
        (wideNamed.transitionGrid wideNamed.markedState).columnWidths width ∧
      Shows wideNamed.coloredTransitionTable.toList wideNamed.transitionTable.toList ∧
      visible wideNamed.coloredTransitionTable.toList = wideNamed.transitionTable.toList :=
  have hfits : wideNamed.FitsTable := by
    refine ⟨?_, ?_, ?_⟩
    · show ∀ q ∈ wideNamed.states.toList, FitsCell q
      decide
    · show ∀ x ∈ wideNamed.alphabet.toList, FitsCell x
      decide
    · decide
  ⟨hfits, coloring_adds_only_styles hfits⟩

end Automaton

end Stepwise
