-- Tables written out as lines and read again. A symbol comes back unless it is
-- white space: then the space that is written in front of the arrow is read in
-- its place. All other symbols may hold commas and arrows as they like.
import Stepwise.Proofs.Collecting
import Stepwise.Proofs.LineGrammar

namespace Stepwise

open Text TransitionLine

/-! ## Transitions that can be written -/

namespace Triple

variable {x y : Triple}

/-- A transition between names, on a symbol of one line. -/
structure Writable (x : Triple) : Prop where
  source_word : isWord x.source.toList = true
  target_word : isWord x.target.toList = true
  one_line : '\n' ∉ x.symbol.toList

/-- A transition whose symbol has no white space around it. -/
structure Printable (x : Triple) : Prop extends Writable x where
  symbol_ne_nil : x.symbol.toList ≠ []
  trimmed : trim x.symbol.toList = x.symbol.toList

instance : DecidablePred Printable := fun x =>
  decidable_of_iff ((isWord x.source.toList = true ∧ isWord x.target.toList = true ∧
      '\n' ∉ x.symbol.toList) ∧ x.symbol.toList ≠ [] ∧ trim x.symbol.toList = x.symbol.toList)
    ⟨fun ⟨⟨hsource, htarget, hline⟩, hne, htrim⟩ => ⟨⟨hsource, htarget, hline⟩, hne, htrim⟩,
      fun h => ⟨⟨h.source_word, h.target_word, h.one_line⟩, h.symbol_ne_nil, h.trimmed⟩⟩

/-- What is read of a transition that was written. -/
def reread (x : Triple) : Triple :=
  { x with symbol := String.ofList (symbolOf (x.symbol.toList ++ [' '])) }

theorem eq_ofList (x : Triple) :
    x = ⟨String.ofList x.source.toList, String.ofList x.symbol.toList,
      String.ofList x.target.toList⟩ := by
  simp only [String.ofList_toList]

theorem Writable.read_write (h : x.Writable) : read (write x) = some x.reread := by
  conv_lhs => rw [x.eq_ofList]
  rw [read_write_eq h.source_word h.target_word]
  simp only [reread, String.ofList_toList]

theorem Writable.isLine_write (h : x.Writable) : IsLine (write x) := by
  rw [x.eq_ofList]
  apply TransitionLine.isLine_write (not_mem_of_isWord h.source_word (by decide)) h.one_line
    (not_mem_of_isWord h.target_word (by decide)) (isWord_iff.mp h.target_word).1
  intro c hc
  exact not_blank_of_isWordChar ((isWord_iff.mp h.target_word).2 c (List.mem_of_getLast? hc))

theorem Printable.reread_eq (h : x.Printable) : x.reread = x := by
  unfold reread
  rw [symbolOf_append_space h.trimmed h.symbol_ne_nil, String.ofList_toList]

/-- Of a symbol of white space only the space is left that is written behind it. -/
theorem reread_of_blank (h : allBlank x.symbol.toList = true) :
    x.reread = { x with symbol := " " } := by
  have hall : allBlank (x.symbol.toList ++ [' ']) = true := by
    rw [allBlank_append, h]
    decide
  unfold reread
  rw [symbolOf_of_blank hall, List.getLast?_concat]
  rfl

/-- No other blank symbol than the space is ever read again. -/
theorem symbol_reread_of_blank (h : allBlank x.reread.symbol.toList = true) :
    x.reread.symbol = " " := by
  cases hblank : allBlank x.symbol.toList with
  | true => rw [reread_of_blank hblank]
  | false =>
    have hnot : allBlank (x.symbol.toList ++ [' ']) = false := by
      rw [allBlank_append, hblank, Bool.false_and]
    rw [reread, String.toList_ofList, symbolOf_of_not_blank hnot, allBlank_trim, hnot] at h
    cases h

end Triple

/-! ## Written tables -/

section

variable {t : Table} (h : ∀ x ∈ t.triples, x.Writable)

include h

theorem Table.lines_format : lines t.format = t.triples.map write := by
  unfold format
  apply lines_unlines
  · intro line hline
    obtain ⟨x, hx, rfl⟩ := List.mem_map.mp hline
    exact (h x hx).isLine_write
  · intro hnil
    obtain ⟨x, -, hx⟩ := List.mem_map.mp hnil
    unfold write at hx
    simp at hx

theorem TransitionText.table_parse_format :
    (parse t.format).table = .ofTriples (t.triples.map Triple.reread) := by
  rw [table_parse, readings, Table.lines_format h, List.filterMap_map]
  congr 1
  rw [← List.filterMap_eq_map]
  exact List.filterMap_congr fun x hx => (h x hx).read_write

theorem TransitionText.warnings_parse_format : (parse t.format).warnings = [] := by
  apply warnings_parse_eq_nil
  intro line hline
  rw [Table.lines_format h] at hline
  obtain ⟨x, hx, rfl⟩ := List.mem_map.mp hline
  rw [(h x hx).read_write]
  exact Or.inr rfl

end

/-- A table of transitions that can be printed is read back without a warning,
as the table that is made of its transitions. It leads from every state on
every symbol to the same states in the same order. -/
theorem Table.a_printed_table_is_read_back (t : Table) (h : ∀ x ∈ t.triples, x.Printable) :
    (TransitionText.parse t.format).warnings = [] ∧
    (TransitionText.parse t.format).table = .ofTriples t.triples ∧
    ∀ key, (TransitionText.parse t.format).table.destinations key = t.destinations key := by
  have hwritable : ∀ x ∈ t.triples, x.Writable := fun x hx => (h x hx).toWritable
  have htable : (TransitionText.parse t.format).table = .ofTriples t.triples := by
    rw [TransitionText.table_parse_format hwritable,
      List.map_congr_left fun x hx => (h x hx).reread_eq, List.map_id']
  refine ⟨TransitionText.warnings_parse_format hwritable, htable, fun key => ?_⟩
  rw [htable, destinations_ofTriples_triples]

/-- Commas and arrows in the symbols, a key with two entries and one with none. -/
def Table.bristling : Table :=
  ofEntries [⟨⟨"p", "a,b"⟩, .ofList ["q", "r"]⟩, ⟨⟨"p", "→"⟩, ∅⟩, ⟨⟨"p", "a,b"⟩, .ofList ["s_1", "r"]⟩,
    ⟨⟨"s_1", "x -> ,y→"⟩, .ofList ["p"]⟩]

theorem Table.bristling_is_read_back :
    (∀ x ∈ bristling.triples, x.Printable) ∧
    (TransitionText.parse bristling.format).warnings = [] ∧
    (TransitionText.parse bristling.format).table = .ofTriples
      [⟨"p", "a,b", "q"⟩, ⟨"p", "a,b", "r"⟩, ⟨"p", "a,b", "s_1"⟩, ⟨"s_1", "x -> ,y→", "p"⟩] := by
  have hprintable : ∀ x ∈ bristling.triples, x.Printable := by decide
  obtain ⟨hwarnings, htable, -⟩ := a_printed_table_is_read_back bristling hprintable
  refine ⟨hprintable, hwarnings, htable.trans (Table.ext_entries ?_)⟩
  rfl

/-! ## Read, written and read again -/

/-- What is read from a line can be written again. Its symbol is printable or
one character of white space. -/
theorem TransitionLine.writable_of_read {line : List Char} {x : Triple} (hnl : '\n' ∉ line)
    (h : read line = some x) : x.Writable ∧ (allBlank x.symbol.toList = false → x.Printable) := by
  obtain ⟨p, rfl, rfl⟩ := read_eq_some_iff.mp h
  have hbetween := Parts.not_mem_between hnl
  have hwritable : p.triple.Writable := by
    refine ⟨?_, ?_, ?_⟩
    · rw [Parts.triple, String.toList_ofList]
      exact p.source_word
    · rw [Parts.triple, String.toList_ofList]
      exact p.target_word
    · rw [Parts.triple, String.toList_ofList, Parts.symbol, symbolOf]
      split
      · exact fun hmem => hbetween (List.mem_of_mem_drop hmem)
      · exact fun hmem => hbetween (mem_of_mem_trim hmem)
  refine ⟨hwritable, fun hblank => ?_⟩
  rw [Parts.triple, String.toList_ofList, Parts.symbol] at hblank
  cases hall : allBlank p.between with
  | true =>
    rw [allBlank_symbolOf hall] at hblank
    cases hblank
  | false =>
    refine ⟨hwritable, ?_, ?_⟩
    · rw [Parts.triple, String.toList_ofList, Parts.symbol, symbolOf_of_not_blank hall]
      exact trim_ne_nil_iff.mpr hall
    · rw [Parts.triple, String.toList_ofList, Parts.symbol, symbolOf_of_not_blank hall, trim_trim]

/-- The space is the only symbol of white space. -/
def Table.BlankIsSpace (t : Table) : Prop :=
  ∀ x ∈ t.triples, allBlank x.symbol.toList = true → x.symbol = " "

namespace TransitionText

theorem writable_of_mem_parse {text : List Char} {x : Triple} (h : x ∈ (parse text).table.triples) :
    x.Writable ∧ (allBlank x.symbol.toList = false → x.Printable) := by
  rw [table_parse, Table.mem_triples_ofTriples] at h
  obtain ⟨line, hline, hread⟩ := List.mem_filterMap.mp h
  exact writable_of_read (newline_not_mem_of_mem_lines hline) hread

/-- What was read, written out and read again. -/
def again (r : TransitionText) : TransitionText := parse r.table.format

theorem warnings_again (text : List Char) : (parse text).again.warnings = [] :=
  warnings_parse_format fun _ hx => (writable_of_mem_parse hx).1

theorem table_again (text : List Char) : (parse text).again.table =
    .ofTriples ((parse text).table.triples.map Triple.reread) :=
  table_parse_format fun _ hx => (writable_of_mem_parse hx).1

theorem blankIsSpace_again (text : List Char) : (parse text).again.table.BlankIsSpace := by
  intro x hx hblank
  rw [table_again, Table.mem_triples_ofTriples] at hx
  obtain ⟨y, -, rfl⟩ := List.mem_map.mp hx
  exact Triple.symbol_reread_of_blank hblank

theorem again_of_blankIsSpace {text : List Char} (h : (parse text).table.BlankIsSpace) :
    (parse text).again.table = (parse text).table := by
  have hsame : ∀ x ∈ (parse text).table.triples, x.reread = id x := by
    intro x hx
    cases hblank : allBlank x.symbol.toList with
    | true =>
      rw [Triple.reread_of_blank hblank, ← h x hx hblank]
      rfl
    | false => exact ((writable_of_mem_parse hx).2 hblank).reread_eq
  rw [table_again, List.map_congr_left hsame, List.map_id]
  apply Table.ofTriples_triples
  rw [table_parse]
  exact collected_ofTriples _

/-- What was read of a text is written without loss if the space is its only
symbol of white space, and else it is not. In any case every written line is
read again, and what comes back once comes back the same from then on. -/
theorem formatting_loses_blank_symbols_only (text : List Char) :
    (parse text).again.warnings = [] ∧
    ((parse text).again.table = (parse text).table ↔ (parse text).table.BlankIsSpace) ∧
    (((parse text).again.table == (parse text).table) = true → (parse text).table.BlankIsSpace) ∧
    (parse text).again.again.table = (parse text).again.table := by
  refine ⟨warnings_again text, ⟨?_, again_of_blankIsSpace⟩, ?_, ?_⟩
  · intro h
    rw [← h]
    exact blankIsSpace_again text
  · intro h x hx
    exact blankIsSpace_again text x (Table.mem_triples_of_beq h hx)
  · exact again_of_blankIsSpace (blankIsSpace_again text)

/-- A tab between comma and arrow is read as a symbol. Written with a space
behind it, it is the space that is read. -/
theorem a_tab_is_not_read_again :
    (parse "q0,\t-> q1".toList).warnings = [] ∧
    (parse "q0,\t-> q1".toList).table.triples = [⟨"q0", "\t", "q1"⟩] ∧
    (parse "q0,\t-> q1".toList).again.table.triples = [⟨"q0", " ", "q1"⟩] ∧
    ((parse "q0,\t-> q1".toList).again.table == (parse "q0,\t-> q1".toList).table) = false := by
  decide

end TransitionText

end Stepwise
