-- Transition texts line by line. Two texts with a line feed between them are read
-- one after the other: the transitions of the second go into the table of the
-- first, and the warnings of the second count on from the lines of the first. A
-- line that adds nothing may be taken out. The line feed takes a carriage return
-- at the end of the first text along, so a warning may lose that character.
import Stepwise.Proofs.LineGrammar
import Stepwise.Proofs.NormalForm

namespace Stepwise

namespace Text

/-! ## Texts and their last line -/

/-- A text is one line without an end, or it has a line before another text. -/
@[elab_as_elim]
theorem line_induction {P : List Char → Prop} (last : ∀ l, '\n' ∉ l → P l)
    (more : ∀ l rest, '\n' ∉ l → P rest → P (l ++ '\n' :: rest)) (cs : List Char) : P cs := by
  suffices h : ∀ l, '\n' ∉ l → P (l ++ cs) from h [] List.not_mem_nil
  induction cs with
  | nil =>
    intro l hl
    rw [List.append_nil]
    exact last l hl
  | cons c cs ih =>
    intro l hl
    by_cases hc : c = '\n'
    · subst hc
      exact more l cs hl (ih [] List.not_mem_nil)
    · rw [List.append_cons]
      apply ih
      simp [hl, Ne.symm hc]

/-- The line that a line feed ends, without the carriage return before it. -/
def dropReturn (l : List Char) : List Char := if l.getLast? = some '\r' then l.dropLast else l

theorem dropReturn_cases (l : List Char) :
    l.getLast? ≠ some '\r' ∧ dropReturn l = l ∨ l = dropReturn l ++ ['\r'] := by
  by_cases h : l.getLast? = some '\r'
  · right
    obtain ⟨k, rfl⟩ := List.getLast?_eq_some_iff.mp h
    rw [dropReturn, if_pos h, List.dropLast_concat]
  · left
    exact ⟨h, if_neg h⟩

/-- What a carriage return at the end does not change is the same without it. -/
theorem apply_dropReturn {α : Type} {f : List Char → α} (h : ∀ l, f (l ++ ['\r']) = f l)
    (l : List Char) : f (dropReturn l) = f l := by
  rcases dropReturn_cases l with ⟨-, heq⟩ | heq
  · rw [heq]
  · conv_rhs => rw [heq, h]

theorem allBlank_dropReturn (l : List Char) : allBlank (dropReturn l) = allBlank l := by
  apply apply_dropReturn
  intro l
  rw [allBlank_append, show allBlank ['\r'] = true by decide, Bool.and_true]

theorem dropReturn_eq_self_iff {l : List Char} : dropReturn l = l ↔ l.getLast? ≠ some '\r' := by
  refine ⟨fun h hr => ?_, fun h => if_neg h⟩
  obtain ⟨k, rfl⟩ := List.getLast?_eq_some_iff.mp hr
  rw [dropReturn, if_pos hr, List.dropLast_concat] at h
  simp at h

theorem lines_append_line_feed {l : List Char} (h : '\n' ∉ l) (rest : List Char) :
    lines (l ++ '\n' :: rest) = dropReturn l :: lines rest := by
  rcases dropReturn_cases l with ⟨hr, heq⟩ | heq
  · rw [heq, lines_append_newline ⟨h, hr⟩]
  · generalize dropReturn l = k at heq ⊢
    subst heq
    induction k with
    | nil => rw [List.nil_append, List.singleton_append, lines]
    | cons c k ih =>
      rw [List.cons_append, List.mem_cons, not_or] at h
      rw [List.cons_append, List.cons_append, lines_cons ?_ (fun he => h.1 he.symm), ih h.2]
      rintro more - hmore
      -- the carriage return belongs to the line feed behind it, not to another one
      cases k with
      | nil => cases hmore
      | cons d k =>
        cases hmore
        exact h.2 List.mem_cons_self

theorem lines_last {l : List Char} (h : '\n' ∉ l) : lines l = if l = [] then [] else [l] := by
  by_cases hl : l = []
  · rw [if_pos hl, hl, lines]
  · rw [if_neg hl, lines_of_ne_nil h hl]

/-! ## Taking a line out -/

/-- The text without one of its lines and the end of that line. Lines are counted
from zero. -/
def withoutLine : Nat → List Char → List Char
  | _, [] => []
  | 0, c :: rest => if c = '\n' then rest else withoutLine 0 rest
  | n + 1, c :: rest => c :: withoutLine (if c = '\n' then n else n + 1) rest

theorem withoutLine_last {l : List Char} (h : '\n' ∉ l) (n : Nat) :
    withoutLine n l = if n = 0 then [] else l := by
  induction l with
  | nil => cases n <;> rfl
  | cons c l ih =>
    rw [List.mem_cons, not_or] at h
    cases n with
    | zero => rw [withoutLine, if_neg (Ne.symm h.1), ih h.2, if_pos rfl, if_pos rfl]
    | succ n =>
      rw [withoutLine, if_neg (Ne.symm h.1), ih h.2, if_neg n.succ_ne_zero, if_neg n.succ_ne_zero]

theorem withoutLine_append_line_feed {l : List Char} (h : '\n' ∉ l) (n : Nat) (rest : List Char) :
    withoutLine n (l ++ '\n' :: rest) =
      if n = 0 then rest else l ++ '\n' :: withoutLine (n - 1) rest := by
  induction l with
  | nil => cases n <;> rfl
  | cons c l ih =>
    rw [List.mem_cons, not_or] at h
    cases n with
    | zero => rw [List.cons_append, withoutLine, if_neg (Ne.symm h.1), ih h.2, if_pos rfl, if_pos rfl]
    | succ n =>
      rw [List.cons_append, withoutLine, if_neg (Ne.symm h.1), ih h.2, if_neg n.succ_ne_zero,
        if_neg n.succ_ne_zero, List.cons_append]

theorem lines_withoutLine (n : Nat) (cs : List Char) :
    lines (withoutLine n cs) = (lines cs).eraseIdx n := by
  induction cs using line_induction generalizing n with
  | last l h =>
    rw [withoutLine_last h, lines_last h]
    by_cases hl : l = []
    · subst hl
      cases n <;> rfl
    · cases n with
      | zero => rw [if_pos rfl, if_neg hl, lines, List.eraseIdx_cons_zero]
      | succ n => rw [if_neg n.succ_ne_zero, lines_last h, if_neg hl]; rfl
  | more l rest h ih =>
    rw [withoutLine_append_line_feed h, lines_append_line_feed h]
    cases n with
    | zero => rfl
    | succ n =>
      rw [if_neg n.succ_ne_zero, lines_append_line_feed h, Nat.add_sub_cancel, ih,
        List.eraseIdx_cons_succ]

end Text

open Text

namespace TransitionLine

/-! ## White space at the end of a line -/

theorem cutAtFirstComma_of_not_mem {cs : List Char} (h : ',' ∉ cs) : cutAtFirstComma cs = none := by
  cases hcut : cutAtFirstComma cs with
  | none => rfl
  | some p =>
    rw [eq_of_cutAtFirstComma hcut] at h
    exact absurd (List.mem_append_right _ List.mem_cons_self) h

theorem readTail_append_blank {tail w : List Char} (hw : allBlank w = true) :
    readTail (tail ++ w) = readTail tail := by
  have hback : (tail ++ w).reverse.dropWhile isBlank = tail.reverse.dropWhile isBlank :=
    List.reverse_inj.mp (trimEnd_append_blank hw)
  unfold readTail
  rw [hback]

theorem read_append_blank {line w : List Char} (hw : allBlank w = true) :
    read (line ++ w) = read line := by
  by_cases hcomma : ',' ∈ line
  · obtain ⟨front, tail, rfl, hfront⟩ := List.eq_append_cons_of_mem hcomma
    unfold read
    rw [List.append_assoc, List.cons_append, cutAtFirstComma_append hfront,
      cutAtFirstComma_append hfront]
    simp only [readTail_append_blank hw]
  · have hboth : ',' ∉ line ++ w := by
      rw [List.mem_append, not_or]
      exact ⟨hcomma, not_mem_of_allBlank hw (by decide)⟩
    unfold read
    rw [cutAtFirstComma_of_not_mem hcomma, cutAtFirstComma_of_not_mem hboth]

theorem hasArrow_append_return (line : List Char) :
    hasArrow (line ++ ['\r']) = hasArrow line := by
  induction line using hasArrow.induct with
  | case1 => rfl
  | case2 rest => rfl
  | case3 rest => rfl
  | case4 c rest hsign hletters ih =>
    rw [List.cons_append, hasArrow.eq_4 c rest hsign hletters, hasArrow.eq_4 c _ hsign ?_, ih]
    rintro tail rfl htail
    cases rest with
    | nil => cases htail
    | cons d rest =>
      cases htail
      exact hletters rest rfl rfl

theorem fault_append_return (line : List Char) : fault (line ++ ['\r']) = fault line := by
  unfold fault
  rw [hasArrow_append_return]
  simp

theorem read_dropReturn (line : List Char) : read (dropReturn line) = read line :=
  apply_dropReturn (fun _ => read_append_blank (by decide)) line

theorem fault_dropReturn (line : List Char) : fault (dropReturn line) = fault line :=
  apply_dropReturn fault_append_return line

end TransitionLine

/-! ## The warnings of a text -/

namespace LineWarning

/-- The warning for a line that stands some lines further down. -/
def lower (k : Nat) (w : LineWarning) : LineWarning := { w with line := w.line + k }

/-- The warning after a line feed was put at the end of the line with this number. -/
def endLine (number : Nat) (w : LineWarning) : LineWarning :=
  if w.line = number then { w with text := dropReturn w.text } else w

/-- Only the warning for the line with this number changes, if its text ends in a
carriage return. -/
theorem endLine_eq_self_iff {number : Nat} {w : LineWarning} :
    w.endLine number = w ↔ (w.line = number → w.text.getLast? ≠ some '\r') := by
  unfold endLine
  split
  · rename_i hline
    rw [← dropReturn_eq_self_iff]
    refine ⟨fun h _ => congrArg LineWarning.text h, fun h => ?_⟩
    rw [h hline]
  · rename_i hline
    exact iff_of_true rfl fun h => absurd h hline

@[simp]
theorem line_endLine (number : Nat) (w : LineWarning) : (w.endLine number).line = w.line := by
  unfold endLine
  split <;> rfl

@[simp]
theorem fault_endLine (number : Nat) (w : LineWarning) : (w.endLine number).fault = w.fault := by
  unfold endLine
  split <;> rfl

end LineWarning

namespace TransitionText

/-- The warnings of a text whose first line has the given number. -/
def warningsFrom (number : Nat) (cs : List Char) : List LineWarning :=
  ((lines cs).zipIdx number).filterMap warning?

theorem warnings_parse (cs : List Char) : (parse cs).warnings = warningsFrom 1 cs := by
  unfold parse warningsFrom
  rw [foldl_addLine, List.nil_append]

theorem warning?_of_blank {line : List Char} (h : allBlank line = true) (number : Nat) :
    warning? (line, number) = none := by
  simp [warning?, h]

theorem eq_of_warning? {line : List Char} {number : Nat} {w : LineWarning}
    (h : warning? (line, number) = some w) : w = ⟨number, line, TransitionLine.fault line⟩ := by
  unfold warning? at h
  split at h
  · cases h
  · exact (Option.some.inj h).symm

theorem line_of_warning? {line : List Char} {number : Nat} {w : LineWarning}
    (h : warning? (line, number) = some w) : w.line = number := by
  rw [eq_of_warning? h]

theorem warning?_dropReturn (line : List Char) (number : Nat) :
    warning? (dropReturn line, number) = (warning? (line, number)).map (.endLine number) := by
  unfold warning?
  rw [allBlank_dropReturn, TransitionLine.read_dropReturn, TransitionLine.fault_dropReturn]
  split
  · rfl
  · simp [LineWarning.endLine]

theorem warning?_add (line : List Char) (number k : Nat) :
    warning? (line, number + k) = (warning? (line, number)).map (.lower k) := by
  unfold warning?
  dsimp only
  split <;> rfl

theorem warningsFrom_last {l : List Char} (h : '\n' ∉ l) (number : Nat) :
    warningsFrom number l = (warning? (l, number)).toList := by
  unfold warningsFrom
  rw [lines_last h]
  by_cases hl : l = []
  · rw [if_pos hl, hl, warning?_of_blank rfl]
    rfl
  · rw [if_neg hl]
    simp only [List.zipIdx_singleton, List.filterMap_cons, List.filterMap_nil]
    cases warning? (l, number) <;> rfl

theorem warningsFrom_append_line_feed {l : List Char} (h : '\n' ∉ l) (number : Nat)
    (rest : List Char) : warningsFrom number (l ++ '\n' :: rest) =
      ((warning? (l, number)).map (.endLine number)).toList ++ warningsFrom (number + 1) rest := by
  unfold warningsFrom
  rw [lines_append_line_feed h, List.zipIdx_cons, List.filterMap_cons, ← warning?_dropReturn]
  cases warning? (dropReturn l, number) <;> rfl

/-- Further down a text has the same warnings, with other numbers. -/
theorem warningsFrom_add (number k : Nat) (cs : List Char) :
    warningsFrom (number + k) cs = (warningsFrom number cs).map (.lower k) := by
  induction cs using line_induction generalizing number with
  | last l h =>
    rw [warningsFrom_last h, warningsFrom_last h, warning?_add]
    cases warning? (l, number) <;> rfl
  | more l rest h ih =>
    rw [warningsFrom_append_line_feed h, warningsFrom_append_line_feed h, List.map_append, ← ih,
      ← warning?_dropReturn, ← warning?_dropReturn, warning?_add, Nat.add_right_comm]
    cases warning? (dropReturn l, number) <;> rfl

/-- The second text counts on from the line that the line feed between the two
texts ends. -/
theorem warningsFrom_append (number : Nat) (t u : List Char) :
    warningsFrom number (t ++ '\n' :: u) =
      (warningsFrom number t).map (.endLine (number + t.count '\n')) ++
        warningsFrom (number + t.count '\n' + 1) u := by
  induction t using line_induction generalizing number with
  | last l h =>
    rw [warningsFrom_append_line_feed h, warningsFrom_last h, List.count_eq_zero.mpr h, Nat.add_zero]
    cases warning? (l, number) <;> rfl
  | more l rest h ih =>
    have hcount : (l ++ '\n' :: rest).count '\n' = rest.count '\n' + 1 := by
      rw [List.count_append, List.count_eq_zero.mpr h, List.count_cons_self, Nat.zero_add]
    have hnumber : number + (rest.count '\n' + 1) = number + 1 + rest.count '\n' := by omega
    -- the warning for the first line stands above the line that the line feed ends
    have hfirst : ∀ w ∈ ((warning? (l, number)).map (LineWarning.endLine number)).toList,
        w.endLine (number + 1 + rest.count '\n') = w := by
      intro w hw
      rw [← warning?_dropReturn, Option.mem_toList] at hw
      have hline := line_of_warning? hw
      rw [LineWarning.endLine_eq_self_iff]
      omega
    rw [List.append_assoc, List.cons_append, warningsFrom_append_line_feed h,
      warningsFrom_append_line_feed h, ih, List.map_append, hcount, hnumber,
      List.map_congr_left hfirst, List.map_id', List.append_assoc]

/-! ## The transitions of a text -/

theorem readings_last {l : List Char} (h : '\n' ∉ l) :
    readings l = (TransitionLine.read l).toList := by
  unfold readings
  rw [lines_last h]
  by_cases hl : l = []
  · rw [if_pos hl, hl, TransitionLine.read_of_allBlank rfl]
    rfl
  · rw [if_neg hl, List.filterMap_cons, List.filterMap_nil]
    cases TransitionLine.read l <;> rfl

theorem readings_append_line_feed {l : List Char} (h : '\n' ∉ l) (rest : List Char) :
    readings (l ++ '\n' :: rest) = (TransitionLine.read l).toList ++ readings rest := by
  unfold readings
  rw [lines_append_line_feed h, List.filterMap_cons, TransitionLine.read_dropReturn]
  cases TransitionLine.read l <;> rfl

theorem readings_append (t u : List Char) :
    readings (t ++ '\n' :: u) = readings t ++ readings u := by
  induction t using line_induction with
  | last l h => rw [readings_append_line_feed h, readings_last h]
  | more l rest h ih =>
    rw [List.append_assoc, List.cons_append, readings_append_line_feed h,
      readings_append_line_feed h, ih, List.append_assoc]

/-- A text that has all lines of another one but for one that is not read. -/
theorem readings_of_lines_eraseIdx {u cs line : List Char} {n : Nat}
    (hu : lines u = (lines cs).eraseIdx n) (hline : (lines cs)[n]? = some line)
    (hread : TransitionLine.read line = none) : readings u = readings cs := by
  obtain ⟨hlt, rfl⟩ := List.getElem?_eq_some_iff.mp hline
  have hsplit : lines cs = (lines cs).take n ++ (lines cs)[n] :: (lines cs).drop (n + 1) := by
    rw [List.getElem_cons_drop, List.take_append_drop]
  unfold readings
  rw [hu, List.eraseIdx_eq_take_drop_succ, List.filterMap_append]
  conv_rhs => rw [hsplit, List.filterMap_append, List.filterMap_cons_none hread]

/-! ## The warnings of a line -/

/-- The warnings for the line with a number. -/
def warningsAt (r : TransitionText) (number : Nat) : List LineWarning :=
  r.warnings.filter fun w => decide (w.line = number)

theorem le_line_of_mem_filterMap {ls : List (List Char)} {number : Nat} {w : LineWarning}
    (h : w ∈ (ls.zipIdx number).filterMap warning?) : number ≤ w.line := by
  obtain ⟨⟨line, k⟩, hmem, hw⟩ := List.mem_filterMap.mp h
  rw [line_of_warning? hw]
  exact List.le_snd_of_mem_zipIdx hmem

theorem filter_line_filterMap (ls : List (List Char)) (number n : Nat) :
    ((ls.zipIdx number).filterMap warning?).filter (fun w => decide (w.line = number + n)) =
      (ls[n]?.bind fun line => warning? (line, number + n)).toList := by
  induction ls generalizing number n with
  | nil => rfl
  | cons l ls ih =>
    have hcons : ((l :: ls).zipIdx number).filterMap warning? =
        (warning? (l, number)).toList ++ (ls.zipIdx (number + 1)).filterMap warning? := by
      rw [List.zipIdx_cons, List.filterMap_cons]
      cases warning? (l, number) <;> rfl
    rw [hcons, List.filter_append]
    cases n with
    | zero =>
      have hhere : ∀ w ∈ (warning? (l, number)).toList, decide (w.line = number + 0) = true :=
        fun w hw => decide_eq_true (line_of_warning? (Option.mem_toList.mp hw))
      have hbelow : ∀ w ∈ (ls.zipIdx (number + 1)).filterMap warning?,
          ¬ decide (w.line = number + 0) = true := by
        intro w hw
        have hline := le_line_of_mem_filterMap hw
        rw [decide_eq_true_iff]
        omega
      rw [List.filter_eq_self.mpr hhere, List.filter_eq_nil_iff.mpr hbelow, List.append_nil]
      rfl
    | succ n =>
      have habove : ∀ w ∈ (warning? (l, number)).toList,
          ¬ decide (w.line = number + (n + 1)) = true := by
        intro w hw
        have hline := line_of_warning? (Option.mem_toList.mp hw)
        rw [decide_eq_true_iff]
        omega
      have hnumber : number + (n + 1) = number + 1 + n := by omega
      rw [List.filter_eq_nil_iff.mpr habove, List.nil_append, hnumber, ih, List.getElem?_cons_succ]

theorem warningsAt_parse {t line : List Char} {n : Nat} (h : (lines t)[n]? = some line) :
    (parse t).warningsAt (n + 1) = (warning? (line, n + 1)).toList := by
  unfold warningsAt
  rw [warnings_parse, warningsFrom, Nat.add_comm n 1, filter_line_filterMap, h]
  rfl

theorem mem_warnings_parse {t : List Char} {w : LineWarning} (h : w ∈ (parse t).warnings) :
    ∃ n line, (lines t)[n]? = some line ∧ w = ⟨n + 1, line, TransitionLine.fault line⟩ := by
  rw [warnings_parse] at h
  obtain ⟨⟨line, number⟩, hmem, hw⟩ := List.mem_filterMap.mp h
  obtain ⟨hle, hline⟩ := List.mem_zipIdx_iff_le_and_getElem?_sub.mp hmem
  refine ⟨number - 1, line, hline, ?_⟩
  rw [Nat.sub_add_cancel hle]
  exact eq_of_warning? hw

theorem read_of_warningsAt_ne_nil {t line : List Char} {n : Nat} (h : (lines t)[n]? = some line)
    (hw : (parse t).warningsAt (n + 1) ≠ []) : TransitionLine.read line = none := by
  rw [warningsAt_parse h] at hw
  cases hread : TransitionLine.read line with
  | none => rfl
  | some x => exact absurd (by simp [warning?, hread]) hw

/-! ## Texts -/

/-- With a line feed between them, the first text is read and then the second one.
The transitions of the second are added to the table of the first in the order of
its own table, and its warnings follow with the numbers of the lines raised. Of the
warnings of the first text, one for its last line loses a carriage return at its
end, and so they are the same as before only if there is none to lose. -/
structure ReadInTurn (t u : List Char) : Prop where
  table_eq : (parse (t ++ '\n' :: u)).table = (parse t).table.addAll (parse u).table.triples
  warnings_eq : (parse (t ++ '\n' :: u)).warnings =
    (parse t).warnings.map (.endLine (t.count '\n' + 1)) ++
      (parse u).warnings.map (.lower (t.count '\n' + 1))
  faults_eq : (parse (t ++ '\n' :: u)).warnings.map (fun w => (w.line, w.fault)) =
    (parse t).warnings.map (fun w => (w.line, w.fault)) ++
      (parse u).warnings.map fun w => (w.line + (t.count '\n' + 1), w.fault)
  same_iff : (parse (t ++ '\n' :: u)).warnings =
      (parse t).warnings ++ (parse u).warnings.map (.lower (t.count '\n' + 1)) ↔
    ∀ w ∈ (parse t).warnings, w.line = t.count '\n' + 1 → w.text.getLast? ≠ some '\r'

/-- Each line of the text adds its transition, or has a warning of its own, or is
blank. A line of the last two kinds may be taken out: a text of the other lines,
such as that without the line and its end, has the same table. -/
structure ReadLineByLine (t : List Char) : Prop where
  table_eq : (parse t).table = .ofTriples ((lines t).filterMap TransitionLine.read)
  of_blank : ∀ n line, (lines t)[n]? = some line → allBlank line = true →
    TransitionLine.read line = none ∧ (parse t).warningsAt (n + 1) = []
  of_not_blank : ∀ n line, (lines t)[n]? = some line → allBlank line = false →
    (∃ x, TransitionLine.read line = some x ∧ (parse t).warningsAt (n + 1) = []) ∨
    TransitionLine.read line = none ∧
      (parse t).warningsAt (n + 1) = [⟨n + 1, line, TransitionLine.fault line⟩]
  of_warning : ∀ w ∈ (parse t).warnings, ∃ n line, (lines t)[n]? = some line ∧
    w = ⟨n + 1, line, TransitionLine.fault line⟩
  without_line : ∀ n line, (lines t)[n]? = some line →
    allBlank line = true ∨ (parse t).warningsAt (n + 1) ≠ [] →
    lines (withoutLine n t) = (lines t).eraseIdx n ∧
      ∀ u, lines u = (lines t).eraseIdx n → (parse u).table = (parse t).table

theorem warnings_append (t u : List Char) : (parse (t ++ '\n' :: u)).warnings =
    (parse t).warnings.map (.endLine (t.count '\n' + 1)) ++
      (parse u).warnings.map (.lower (t.count '\n' + 1)) := by
  rw [warnings_parse, warnings_parse, warnings_parse, warningsFrom_append, ← warningsFrom_add,
    Nat.add_comm 1 (t.count '\n'), Nat.add_comm 1 (t.count '\n' + 1)]

theorem readInTurn (t u : List Char) : ReadInTurn t u := by
  refine ⟨?_, warnings_append t u, ?_, ?_⟩
  · rw [table_parse, table_parse, table_parse, readings_append, Table.addAll_triples_ofTriples]
  · rw [warnings_append, List.map_append, List.map_map, List.map_map]
    congr 1
    apply List.map_congr_left
    intro w _
    simp
  · rw [warnings_append, List.append_cancel_right_eq]
    conv_lhs => rhs; rw [← List.map_id (parse t).warnings]
    rw [List.map_inj_left]
    simp only [id_eq, LineWarning.endLine_eq_self_iff]

theorem readLineByLine (t : List Char) : ReadLineByLine t := by
  refine ⟨table_parse t, fun n line hline hblank => ?_, fun n line hline hblank => ?_,
    fun _ => mem_warnings_parse, fun n line hline hout => ?_⟩
  · rw [warningsAt_parse hline, warning?_of_blank hblank]
    exact ⟨TransitionLine.read_of_allBlank hblank, rfl⟩
  · rw [warningsAt_parse hline]
    unfold warning?
    cases hread : TransitionLine.read line with
    | some x => exact Or.inl ⟨x, rfl, by simp⟩
    | none => exact Or.inr ⟨rfl, by simp [hblank]⟩
  · have hread : TransitionLine.read line = none :=
      hout.elim TransitionLine.read_of_allBlank (read_of_warningsAt_ne_nil hline)
    refine ⟨lines_withoutLine n t, fun u hu => ?_⟩
    rw [table_parse, table_parse, readings_of_lines_eraseIdx hu hline hread]

/-- A text is read line by line, and with a line feed between them two texts are
read one after the other. -/
theorem texts_are_read_line_by_line (t u : List Char) : ReadLineByLine t ∧ ReadInTurn t u :=
  ⟨readLineByLine t, readInTurn t u⟩

/-- The carriage return at the end of the first text is in its warning, and is not
when a line feed comes behind it. -/
theorem a_line_feed_takes_a_carriage_return_along :
    (parse ['x', '\r']).warnings = [⟨1, ['x', '\r'], .missingArrow⟩] ∧
    (parse (['x', '\r'] ++ '\n' :: [])).warnings = [⟨1, ['x'], .missingArrow⟩] ∧
    (parse (['x', '\r'] ++ '\n' :: [])).warnings ≠ (parse ['x', '\r']).warnings ++
      (parse []).warnings.map (.lower (['x', '\r'].count '\n' + 1)) := by decide

end TransitionText

end Stepwise
