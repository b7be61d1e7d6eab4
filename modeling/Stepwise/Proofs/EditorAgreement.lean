-- One text in two readers. A text that an editor reads without a warning is
-- decoded without a warning too. Both tables are the same if every symbol
-- keeps its arrows, and if no transition is spelled out twice only then.
import Mathlib.Data.List.Pairwise
import Stepwise.Proofs.PlainLines

namespace Stepwise.Description

open Text TransitionLine

/-! ## What a description makes of a text -/

/-- An editor reads every line that is not blank, on a symbol that is not
white space only. -/
def Readable (text : List Char) : Prop :=
  ∀ line ∈ lines text, allBlank line = false →
    ∃ x, read line = some x ∧ allBlank x.symbol.toList = false

instance (text : List Char) : Decidable (Readable text) :=
  decidable_of_iff (∀ line ∈ lines text, allBlank line = false →
    (read line).any (fun x => !allBlank x.symbol.toList) = true) (by
      unfold Readable
      simp only [Option.any_eq_true, Bool.not_eq_true'])

theorem Readable.between_not_blank {text : List Char} (h : Readable text) {p : Parts}
    (hp : p.text ∈ lines text) : allBlank p.between = false := by
  obtain ⟨x, hx, hsymbol⟩ := h p.text hp p.text_not_blank
  rw [p.read_text, Option.some.injEq] at hx
  rw [Bool.eq_false_iff]
  intro hbetween
  have hall : allBlank p.symbol = true := allBlank_symbolOf hbetween
  rw [← hx, show p.triple.symbol = String.ofList p.symbol from rfl, String.toList_ofList, hall]
    at hsymbol
  cases hsymbol

theorem Readable.exists_parts {text line : List Char} (h : Readable text) (hline : line ∈ lines text)
    (hblank : allBlank line = false) : ∃ p : Parts, p.text = line ∧ allBlank p.between = false := by
  obtain ⟨x, hread, -⟩ := h line hline hblank
  obtain ⟨p, rfl, -⟩ := read_eq_some_iff.mp hread
  exact ⟨p, rfl, h.between_not_blank hline⟩

theorem rewriteLine_of_allBlank {line : List Char} (h : allBlank line = true)
    (states : OrderedSet StateName) : rewriteLine states line = .blank := if_pos h

section

variable {d : Description} (hwhole : ¬brokenArrow <:+: d.transitions.toList)
  (hread : Readable d.transitions.toList)

include hwhole

/-- Without broken arrows, the lines are rewritten as they are. -/
theorem leftLines_eq : d.leftLines = (lines d.transitions.toList).flatMap fun line =>
    (rewriteLine (stateSet d.states) line).left := by
  unfold leftLines rewriteLines
  rw [List.flatMap_map]
  apply List.flatMap_congr
  intro line hline
  rw [mendArrows_eq_self fun h => hwhole (h.trans (infix_of_mem_lines hline))]

include hread

theorem of_mem_leftLines {line : List Char} (h : line ∈ d.leftLines) :
    IsLine line ∧ (read line).isSome = true := by
  rw [leftLines_eq hwhole] at h
  obtain ⟨whole, hmem, hleft⟩ := List.mem_flatMap.mp h
  cases hblank : allBlank whole with
  | true =>
    rw [rewriteLine_of_allBlank hblank] at hleft
    cases hleft
  | false =>
    obtain ⟨p, rfl, hbetween⟩ := hread.exists_parts hmem hblank
    exact Parts.of_mem_left_text hbetween (newline_not_mem_of_mem_lines hmem) hleft

theorem warnings_eq_nil : (TransitionText.parse d.plainTransitions).warnings = [] :=
  warnings_parse_plain (fun _ h => (of_mem_leftLines hwhole hread h).1)
    fun _ h => Or.inr (of_mem_leftLines hwhole hread h).2

theorem table_eq : (TransitionText.parse d.plainTransitions).table =
    .ofTriples (d.leftLines.filterMap read) :=
  table_parse_plain fun _ h => (of_mem_leftLines hwhole hread h).1

/-- If every symbol keeps its arrows, the description reads what the editor reads. -/
theorem readings_eq (hkeeps : ∀ p : Parts, p.text ∈ lines d.transitions.toList → p.KeepsSymbol) :
    d.leftLines.filterMap read = TransitionText.readings d.transitions.toList := by
  unfold TransitionText.readings
  rw [leftLines_eq hwhole, List.filterMap_flatMap, List.filterMap_eq_flatMap_toList]
  apply List.flatMap_congr
  intro line hline
  cases hblank : allBlank line with
  | true =>
    rw [rewriteLine_of_allBlank hblank, read_of_allBlank hblank]
    rfl
  | false =>
    obtain ⟨p, rfl, hbetween⟩ := hread.exists_parts hline hblank
    rw [Parts.readings_left_text hbetween, p.read_text,
      (Parts.decoded_eq_iff hbetween).mpr (hkeeps p hline)]

/-- A transition of the description was decoded from some line. -/
theorem exists_decoded {x : Triple} (h : x ∈ d.leftLines.filterMap read) :
    ∃ p : Parts, p.text ∈ lines d.transitions.toList ∧ allBlank p.between = false ∧
      p.decoded = some x := by
  rw [leftLines_eq hwhole, List.filterMap_flatMap] at h
  obtain ⟨line, hline, hx⟩ := List.mem_flatMap.mp h
  cases hblank : allBlank line with
  | true =>
    rw [rewriteLine_of_allBlank hblank] at hx
    cases hx
  | false =>
    obtain ⟨p, rfl, hbetween⟩ := hread.exists_parts hline hblank
    rw [Parts.readings_left_text hbetween] at hx
    exact ⟨p, hline, hbetween, Option.mem_toList.mp hx⟩

end

/-! ## Texts without repetitions -/

/-- Two lines that spell out the same transition are the same line. -/
theorem eq_of_read_eq {text line other : List Char} {x : Triple}
    (hnodup : (TransitionText.readings text).Nodup) (hline : line ∈ lines text)
    (hother : other ∈ lines text) (hx : read line = some x) (hx' : read other = some x) :
    line = other := by
  by_contra hne
  have hpair : (lines text).Pairwise fun a b => ¬(read a = some x ∧ read b = some x) :=
    (List.pairwise_filterMap.mp hnodup).imp fun hab hboth => hab x hboth.1 x hboth.2 rfl
  have hsymm : Std.Symm fun a b => ¬(read a = some x ∧ read b = some x) :=
    ⟨fun _ _ hab hboth => hab hboth.symm⟩
  exact hpair.forall hline hother hne ⟨hx, hx'⟩

/-- If both tables agree, every symbol keeps its arrows. -/
theorem keepsSymbol_of_beq {d : Description} (hwhole : ¬brokenArrow <:+: d.transitions.toList)
    (hread : Readable d.transitions.toList)
    (hnodup : (TransitionText.readings d.transitions.toList).Nodup)
    (h : ((TransitionText.parse d.plainTransitions).table ==
      (TransitionText.parse d.transitions.toList).table) = true)
    {p : Parts} (hp : p.text ∈ lines d.transitions.toList) : p.KeepsSymbol := by
  have hbetween := hread.between_not_blank hp
  -- the transition of the line is decoded from some line of the text
  have hmem : p.triple ∈ (TransitionText.parse d.transitions.toList).table.triples := by
    rw [TransitionText.table_parse, Table.mem_triples_ofTriples]
    exact List.mem_filterMap.mpr ⟨p.text, hp, p.read_text⟩
  have hdecoded := Table.mem_triples_of_beq h hmem
  rw [table_eq hwhole hread, Table.mem_triples_ofTriples] at hdecoded
  obtain ⟨q, hq, hqbetween, hqx⟩ := exists_decoded hwhole hread hdecoded
  by_cases hkeeps : q.KeepsSymbol
  · -- that line spells it out itself, so it is the line in question
    have hqp : q.triple = p.triple := by
      rw [(Parts.decoded_eq_iff hqbetween).mpr hkeeps, Option.some.injEq] at hqx
      exact hqx
    have hsame : q.text = p.text :=
      eq_of_read_eq hnodup hq hp q.read_text (hqp ▸ p.read_text)
    have hlist := Parts.readings_left_text hbetween (stateSet d.states)
    rw [← hsame, Parts.readings_left_text hqbetween, hqx] at hlist
    exact (Parts.decoded_eq_iff hbetween).mp (Option.mem_toList.mp (hlist ▸ List.mem_singleton_self _))
  · right
    have hspaced := Parts.spacedArrow_of_decoded hqx hkeeps
    rwa [show p.triple.symbol = String.ofList p.symbol from rfl, String.toList_ofList] at hspaced

/-! ## Both readers -/

/-- A description brings no warning on a text that an editor reads. If every
symbol keeps its arrows, the tables are equal. If they agree, every symbol
keeps its arrows, unless the text spells out a transition twice. -/
theorem plain_lines_are_decoded_as_an_editor_reads_them {d : Description} {kind : Kind} {r : Decoded}
    (hdecode : d.decode kind = .ok r) (hwhole : ¬brokenArrow <:+: d.transitions.toList)
    (hread : Readable d.transitions.toList) :
    r.warnings = [] ∧
    ((∀ p : Parts, p.text ∈ lines d.transitions.toList → p.KeepsSymbol) →
      r.automaton.table = (TransitionText.parse d.transitions.toList).table) ∧
    ((TransitionText.readings d.transitions.toList).Nodup →
      (r.automaton.table == (TransitionText.parse d.transitions.toList).table) = true →
      ∀ p : Parts, p.text ∈ lines d.transitions.toList → p.KeepsSymbol) := by
  obtain ⟨initial, rfl⟩ := exists_decodeFrom hdecode
  rw [decodeFrom_table, decodeFrom_warnings]
  refine ⟨warnings_eq_nil hwhole hread, ?_, ?_⟩
  · intro hkeeps
    rw [table_eq hwhole hread, readings_eq hwhole hread hkeeps, TransitionText.table_parse]
  · intro hnodup hbeq p hp
    exact keepsSymbol_of_beq hwhole hread hnodup hbeq hp

/-- Letters before a sign are kept, and so is a spaced sign before letters. -/
def straight : Description :=
  ⟨"q0, q1", "a", "q0", "q1", "q0,a->b → q1\nq1,a → b -> q0"⟩

theorem straight_is_decoded_as_an_editor_reads_it :
    straight.decode .nfa = .ok (straight.decodeFrom .nfa ['q', '0']) ∧
    ¬brokenArrow <:+: straight.transitions.toList ∧ Readable straight.transitions.toList ∧
    (straight.decodeFrom .nfa ['q', '0']).warnings = [] ∧
    (straight.decodeFrom .nfa ['q', '0']).automaton.table =
      (TransitionText.parse straight.transitions.toList).table ∧
    ∀ p : Parts, p.text ∈ lines straight.transitions.toList → p.KeepsSymbol := by
  have hdecode : straight.decode .nfa = .ok (straight.decodeFrom .nfa ['q', '0']) := by rfl
  have hwhole : ¬brokenArrow <:+: straight.transitions.toList := by decide
  have hread : Readable straight.transitions.toList := by decide
  obtain ⟨hwarnings, htable, hkeeps⟩ :=
    plain_lines_are_decoded_as_an_editor_reads_them hdecode hwhole hread
  have hall := hkeeps (by decide) (by decide)
  exact ⟨hdecode, hwhole, hread, hwarnings, htable hall, hall⟩

/-- Letters inside the symbol, and letters behind it. -/
def bent : Description := ⟨"q0, q1", "a->b", "q0", "q1", "q0,a->b -> q1"⟩

/-- The description finds the first letters and spells the symbol anew. -/
theorem bent_is_decoded_on_another_symbol :
    ¬brokenArrow <:+: bent.transitions.toList ∧ Readable bent.transitions.toList ∧
    (TransitionText.parse bent.transitions.toList).table.triples = [⟨"q0", "a->b", "q1"⟩] ∧
    ∃ r, bent.decode .nfa = .ok r ∧ r.automaton.table.triples = [⟨"q0", "a → b", "q1"⟩] ∧
      (r.automaton.table == (TransitionText.parse bent.transitions.toList).table) = false := by
  refine ⟨by decide, by decide, by decide, bent.decodeFrom .nfa ['q', '0'], rfl, ?_, ?_⟩
  · decide
  · decide

end Stepwise.Description
