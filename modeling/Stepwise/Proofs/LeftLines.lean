-- The plain text of a description, line by line. Nothing that is rewritten brings a
-- line feed along, so the lines that are read again are the lines that were left,
-- in their order; a carriage return at the end of one is all that can be lost.
import Stepwise.Proofs.InnerArrows
import Stepwise.Proofs.LineByLine

namespace Stepwise

open Text

namespace Text

/-! ## Pieces of a text -/

variable {cs : List Char}

theorem trim_isInfix (cs : List Char) : trim cs <:+: cs := by
  obtain ⟨v, w, -, -, hcs⟩ := exists_eq_trim cs
  exact ⟨v, w, hcs.symm⟩

theorem infix_of_mem_listItems {item : List Char} (h : item ∈ listItems cs) : item <:+: cs := by
  obtain ⟨part, hpart, rfl⟩ := List.mem_map.mp (List.mem_filter.mp h).1
  exact (trim_isInfix part).trans (of_mem_commaParts hpart).2

end Text

namespace Description

/-! ## Characters of names -/

theorem unquote_isInfix (cs : List Char) : unquote cs <:+: cs :=
  (List.rdropWhile_prefix isQuote _).isInfix.trans (List.dropWhile_suffix isQuote).isInfix

theorem infix_of_stripStart {start cs rest : List Char} (h : stripStart start cs = some rest) :
    rest <:+: cs := by
  rw [← List.isPrefixOf?_eq_some_iff_append_eq.mp h]
  exact (List.suffix_append start rest).isInfix

theorem infix_of_stripLast {c : Char} {cs rest : List Char} (h : stripLast c cs = some rest) :
    rest <:+: cs := by
  unfold stripLast at h
  split at h
  · cases h
    exact (List.dropLast_prefix cs).isInfix
  · cases h

theorem infix_of_setBody {cs body : List Char} (h : setBody cs = some body) : body <:+: cs := by
  unfold setBody at h
  cases hstart : stripStart ['{'] cs with
  | some inner =>
    rw [hstart] at h
    exact (infix_of_stripLast h).trans (infix_of_stripStart hstart)
  | none =>
    rw [hstart] at h
    obtain ⟨⟨word, rest⟩, hcut, hbody⟩ := Option.bind_eq_some_iff.mp h
    dsimp only at hbody
    split at hbody
    · obtain ⟨args, hargs, rfl⟩ := Option.map_eq_some_iff.mp hbody
      have hrest : rest <:+: cs := by
        rw [(eq_of_cutAt hcut).1]
        exact ((List.suffix_cons '(' rest).trans (List.suffix_append word _)).isInfix
      have hargsInfix := (infix_of_stripLast hargs).trans hrest
      cases hbraces : (stripStart ['{'] args).bind (stripLast '}') with
      | none => exact hargsInfix
      | some inner =>
        obtain ⟨middle, hmiddle, hinner⟩ := Option.bind_eq_some_iff.mp hbraces
        exact ((infix_of_stripLast hinner).trans (infix_of_stripStart hmiddle)).trans hargsInfix
    · cases hbody

theorem infix_of_mem_setElements {cs e : List Char} {elements : List (List Char)}
    (h : setElements cs = some elements) (he : e ∈ elements) : e <:+: cs := by
  obtain ⟨body, hbody, rfl⟩ := Option.map_eq_some_iff.mp h
  obtain ⟨item, hitem, rfl⟩ := List.mem_map.mp he
  exact ((unquote_isInfix item).trans (infix_of_mem_listItems hitem)).trans (infix_of_setBody hbody)

/-- A name holds the characters of its token, and word characters beside them. -/
theorem mem_subsetName {elements : List (List Char)} {c : Char} (h : c ∈ subsetName elements) :
    TransitionLine.isWordChar c = true ∨ ∃ e ∈ elements, c ∈ e := by
  unfold subsetName at h
  split at h
  · have hall : ['q', '_', 'e', 'm', 'p', 't', 'y'].all TransitionLine.isWordChar = true := by decide
    exact Or.inl (List.all_eq_true.mp hall c h)
  · rcases List.mem_append.mp h with h | h
    · have hall : ['q', '_'].all TransitionLine.isWordChar = true := by decide
      exact Or.inl (List.all_eq_true.mp hall c h)
    · rcases mem_of_mem_intercalate h with hsep | helement
      · rw [List.mem_singleton.mp hsep]
        exact Or.inl rfl
      · exact Or.inr helement

theorem mem_stateName {token : List Char} {c : Char} (h : c ∈ stateName token) :
    TransitionLine.isWordChar c = true ∨ c ∈ token := by
  unfold stateName at h
  dsimp only at h
  split at h
  · split at h
    · rename_i elements helements
      rcases mem_subsetName h with hword | ⟨e, he, hc⟩
      · exact Or.inl hword
      · have hinside := (infix_of_mem_setElements helements he).trans
          ((List.drop_suffix 1 (trim token)).isInfix.trans (trim_isInfix token))
        exact Or.inr (hinside.subset hc)
    · exact Or.inr (mem_of_mem_trim h)
  · exact Or.inr (mem_of_mem_trim h)

theorem mem_of_mem_destinationNames {states : OrderedSet StateName} {token name : List Char}
    {c : Char} (hname : name ∈ destinationNames states token) (hc : c ∈ name) :
    TransitionLine.isWordChar c = true ∨ c ∈ token := by
  have hstate : c ∈ stateName (trim token) → TransitionLine.isWordChar c = true ∨ c ∈ token :=
    fun h => (mem_stateName h).imp_right mem_of_mem_trim
  unfold destinationNames at hname
  dsimp only at hname
  split at hname
  · exact hstate (List.mem_singleton.mp hname ▸ hc)
  · split at hname
    · rename_i elements helements
      obtain ⟨rest, hrest, helements⟩ := Option.bind_eq_some_iff.mp helements
      obtain ⟨e, he, rfl⟩ := List.mem_map.mp hname
      rcases List.mem_cons.mp hc with rfl | hc
      · exact Or.inl rfl
      · have hinside := (infix_of_mem_setElements helements he).trans
          ((infix_of_stripStart hrest).trans (trim_isInfix token))
        exact Or.inr (hinside.subset hc)
    · exact hstate (List.mem_singleton.mp hname ▸ hc)

/-! ## Lines without a line feed -/

theorem mem_of_mem_mendArrows {cs : List Char} {c : Char} (h : c ∈ mendArrows cs) :
    c = '→' ∨ c ∈ cs := by
  induction cs using mendArrows.induct with
  | case1 rest ih =>
    rw [mendArrows] at h
    rcases List.mem_cons.mp h with rfl | h
    · exact Or.inl rfl
    · exact (ih h).imp_right fun h =>
        List.mem_cons_of_mem _ (List.mem_cons_of_mem _ (List.mem_cons_of_mem _ h))
  | case2 d rest hd ih =>
    rw [mendArrows.eq_2 d rest hd] at h
    rcases List.mem_cons.mp h with rfl | h
    · exact Or.inr List.mem_cons_self
    · exact (ih h).imp_right (List.mem_cons_of_mem d)
  | case3 => cases h

/-- The three pieces of a line: what stands before its comma, between the comma and
the arrow, and behind the arrow. -/
def pieces (line : List Char) : Option (List Char × List Char × List Char) :=
  (cutAtArrow line).bind fun (front, destination) =>
    (cutAtComma 0 front).map fun (source, symbol) => (source, symbol, destination)

theorem rewriteLine_eq (states : OrderedSet StateName) (line : List Char) :
    rewriteLine states line =
      if allBlank line then .blank
      else match pieces line with
        | none => .untouched line
        | some (source, symbol, destination) =>
          if allBlank symbol then .emptySymbol line
          else .expanded ((destinationNames states destination).map fun q =>
            ⟨String.ofList (stateName source), String.ofList (trim symbol), String.ofList q⟩) := by
  unfold rewriteLine pieces
  cases cutAtArrow line with
  | none => rfl
  | some cut =>
    obtain ⟨front, destination⟩ := cut
    dsimp only [Option.bind_some]
    cases cutAtComma 0 front <;> rfl

theorem mem_of_pieces {line source symbol destination : List Char}
    (h : pieces line = some (source, symbol, destination)) {c : Char}
    (hc : c ∈ source ∨ c ∈ symbol ∨ c ∈ destination) : c ∈ line := by
  obtain ⟨⟨front, behind⟩, hcut, hcomma⟩ := Option.bind_eq_some_iff.mp h
  obtain ⟨⟨a, b⟩, hfront, hp⟩ := Option.map_eq_some_iff.mp hcomma
  cases hp
  have hin : c ∈ front ∨ c ∈ destination := by
    rw [(of_cutAtComma hfront).1]
    simpa [or_assoc] using hc.imp_right fun h => h.imp_left Or.inr
  unfold cutAtArrow at hcut
  rcases Option.or_eq_some_iff.mp hcut with hcut | ⟨-, hcut⟩
  · rw [(eq_of_cutAt hcut).1]
    simpa using hin.imp_right Or.inr
  · rw [eq_of_cutAtPlainArrow hcut]
    simpa using hin.imp_right fun h => Or.inr (Or.inr h)

theorem newline_not_mem_of_mem_left {states : OrderedSet StateName} {line l : List Char}
    (hline : '\n' ∉ line) (h : l ∈ (rewriteLine states line).left) : '\n' ∉ l := by
  rw [rewriteLine_eq] at h
  split at h
  · cases h
  · split at h
    · rw [List.mem_singleton.mp h]
      exact hline
    · rename_i source symbol destination hpieces
      split at h
      · cases h
      · have hin := fun hc => hline (mem_of_pieces hpieces (c := '\n') hc)
        rcases Rewritten.mem_left_expanded h with rfl | ⟨x, hx, rfl⟩
        · exact List.not_mem_nil
        · obtain ⟨q, hq, rfl⟩ := List.mem_map.mp hx
          have hsource : '\n' ∉ stateName source := fun hc =>
            (mem_stateName hc).elim (by decide) fun hc => hin (Or.inl hc)
          have hsymbol : '\n' ∉ trim symbol := fun hc => hin (Or.inr (Or.inl (mem_of_mem_trim hc)))
          have htarget : '\n' ∉ q := fun hc =>
            (mem_of_mem_destinationNames hq hc).elim (by decide) fun hc => hin (Or.inr (Or.inr hc))
          simp [TransitionLine.write, hsource, hsymbol, htarget]

/-- The lines that are left of one of the given lines. -/
def leftOf (d : Description) (line : List Char) : List (List Char) :=
  (rewriteLine (stateSet d.states) (mendArrows line)).left

/-- The lines of the description itself. -/
def givenLines (d : Description) : List (List Char) := lines d.transitions.toList

theorem leftLines_eq_flatMap (d : Description) : d.leftLines = d.givenLines.flatMap d.leftOf := by
  unfold leftLines rewriteLines
  rw [List.flatMap_map]
  rfl

theorem newline_not_mem_of_mem_leftLines {d : Description} {l : List Char} (h : l ∈ d.leftLines) :
    '\n' ∉ l := by
  rw [leftLines_eq_flatMap] at h
  obtain ⟨line, hline, hl⟩ := List.mem_flatMap.mp h
  refine newline_not_mem_of_mem_left (fun hmem => ?_) hl
  rcases mem_of_mem_mendArrows hmem with harrow | hmem
  · exact absurd harrow (by decide)
  · exact newline_not_mem_of_mem_lines hline hmem

end Description

/-! ## Reading joined lines -/

namespace TransitionText

variable {ls : List (List Char)}

theorem readings_unlines (h : ∀ l ∈ ls, '\n' ∉ l) :
    readings (unlines ls) = ls.filterMap TransitionLine.read := by
  induction ls with
  | nil => rfl
  | cons l ls ih =>
    have hl := h l List.mem_cons_self
    have hrest := ih fun k hk => h k (List.mem_cons_of_mem l hk)
    cases ls with
    | nil =>
      rw [unlines_singleton, readings_last hl, List.filterMap_cons, List.filterMap_nil]
      cases TransitionLine.read l <;> rfl
    | cons m ls =>
      rw [unlines_cons_cons, readings_append_line_feed hl, hrest, List.filterMap_cons (a := l)]
      cases TransitionLine.read l <;> rfl

/-- Whether a line is left out of a text with a warning. -/
def isWrong (line : List Char) : Bool := !allBlank line && (TransitionLine.read line).isNone

/-- The numbers of the wrong ones among some lines, the first of which has the given
number. -/
def wrongNumbers (number : Nat) : List (List Char) → List Nat
  | [] => []
  | l :: ls => (if isWrong l then [number] else []) ++ wrongNumbers (number + 1) ls

theorem map_line_warning? (line : List Char) (number : Nat) :
    (warning? (line, number)).toList.map LineWarning.line = if isWrong line then [number] else [] := by
  unfold warning? isWrong
  cases allBlank line <;> cases TransitionLine.read line <;> rfl

theorem map_line_warningsFrom_unlines (h : ∀ l ∈ ls, '\n' ∉ l) (number : Nat) :
    (warningsFrom number (unlines ls)).map LineWarning.line = wrongNumbers number ls := by
  induction ls generalizing number with
  | nil => rfl
  | cons l ls ih =>
    have hl := h l List.mem_cons_self
    have hrest := ih fun k hk => h k (List.mem_cons_of_mem l hk)
    cases ls with
    | nil =>
      rw [unlines_singleton, warningsFrom_last hl, map_line_warning?, wrongNumbers, wrongNumbers,
        List.append_nil]
    | cons m ls =>
      have hmap : ((warning? (l, number)).map (LineWarning.endLine number)).toList.map
          LineWarning.line = (warning? (l, number)).toList.map LineWarning.line := by
        cases warning? (l, number) <;> simp
      rw [unlines_cons_cons, warningsFrom_append_line_feed hl, List.map_append, hmap,
        map_line_warning?, hrest, wrongNumbers.eq_2 number l]

end TransitionText

namespace Description

/-! ## Reading the plain text of any description -/

theorem table_plain (d : Description) : (TransitionText.parse d.plainTransitions).table =
    .ofTriples (d.givenLines.flatMap fun line => (d.leftOf line).filterMap TransitionLine.read) := by
  rw [TransitionText.table_parse, plainTransitions_eq,
    TransitionText.readings_unlines fun _ => newline_not_mem_of_mem_leftLines, leftLines_eq_flatMap,
    List.filterMap_flatMap]

theorem map_line_warnings_plain (d : Description) :
    (TransitionText.parse d.plainTransitions).warnings.map LineWarning.line =
      TransitionText.wrongNumbers 1 d.leftLines := by
  rw [TransitionText.warnings_parse, plainTransitions_eq,
    TransitionText.map_line_warningsFrom_unlines fun _ => newline_not_mem_of_mem_leftLines]

end Description

end Stepwise
