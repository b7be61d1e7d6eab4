-- Symbols that a description spells as its alphabet does. The quotes around a name of
-- the alphabet are taken off and those in a line are not, and a line is read from its
-- last arrow though it was cut at the first. But for that, a symbol that is spelled as
-- in the alphabet is a symbol of the automaton.
import Stepwise.Proofs.NormalForm
import Stepwise.Proofs.Reporting
import Stepwise.Proofs.SymbolTexts

namespace Stepwise

open Text

namespace TransitionLine

open Description

/-! ## Lines that are read -/

/-- A line that is read can be taken apart. -/
theorem Parts.pieces_text (p : Parts) : pieces p.text = some (p.front, p.cut.1, p.cut.2) := by
  unfold pieces
  rw [p.cutAtArrow_text, Option.bind_some]
  dsimp only
  rw [cutAtComma_of_whole p.whole_front]
  rfl

theorem read_of_pieces_eq_none {line : List Char} (h : pieces line = none) : read line = none := by
  cases hread : read line with
  | none => rfl
  | some x =>
    obtain ⟨p, rfl, -⟩ := read_eq_some_iff.mp hread
    rw [p.pieces_text] at h
    cases h

end TransitionLine

namespace Description

open TransitionLine

variable {d : Description} {line t : List Char}

/-! ## The symbols of a line -/

/-- The transitions that a line brings. -/
def contributed (d : Description) (line : List Char) : List Triple := (d.leftOf line).filterMap read

/-- The symbol of a line as it is spelled, between the comma and the arrow. -/
def symbolText (line : List Char) : Option (List Char) :=
  (pieces (mendArrows line)).map fun (_, symbol, _) => trim symbol

/-- The line brings a transition on this symbol. -/
def ReadsSymbol (d : Description) (line t : List Char) : Prop :=
  ∃ source symbol destination, pieces (mendArrows line) = some (source, symbol, destination) ∧
    allBlank symbol = false ∧ isWord (trim (stateName source)) = true ∧
    ∃ q ∈ destinationNames (stateSet d.states) destination, ReadAs (trim symbol) q t

/-- No destination of the line has an arrow of its own. -/
def PlainDestinations (d : Description) (line : List Char) : Prop :=
  ∀ source symbol destination, pieces (mendArrows line) = some (source, symbol, destination) →
    ∀ q ∈ destinationNames (stateSet d.states) destination, ∀ arrow : Arrow, ¬arrow.text <:+: q

theorem not_blank_of_pieces {source symbol destination : List Char}
    (h : pieces line = some (source, symbol, destination)) (hsymbol : allBlank symbol = false) :
    allBlank line = false := by
  rw [Bool.eq_false_iff] at hsymbol ⊢
  intro hline
  refine hsymbol (allBlank_iff.mpr fun c hc => ?_)
  exact allBlank_iff.mp hline c (mem_of_pieces h (Or.inr (Or.inl hc)))

/-- The transitions of a line that is taken apart, one for each destination. -/
theorem contributed_eq {source symbol destination : List Char}
    (h : pieces (mendArrows line) = some (source, symbol, destination))
    (hsymbol : allBlank symbol = false) :
    d.contributed line = (destinationNames (stateSet d.states) destination).filterMap fun q =>
      read (plainLine (stateName source) (trim symbol) q) := by
  unfold contributed leftOf
  rw [rewriteLine_eq, if_neg (Bool.eq_false_iff.mp (not_blank_of_pieces h hsymbol)), h]
  simp only [hsymbol, Bool.false_eq_true, if_false]
  rw [Rewritten.readings_expanded, List.filterMap_map]
  simp only [Function.comp_def, plainLine]

/-- Any other line brings none. -/
theorem exists_pieces_of_mem_contributed {x : Triple} (hx : x ∈ d.contributed line) :
    ∃ source symbol destination, pieces (mendArrows line) = some (source, symbol, destination) ∧
      allBlank symbol = false := by
  unfold contributed leftOf at hx
  rw [rewriteLine_eq] at hx
  split at hx
  · cases hx
  · split at hx
    · rename_i hpieces
      obtain ⟨l, hl, hread⟩ := List.mem_filterMap.mp hx
      rw [List.mem_singleton.mp hl, read_of_pieces_eq_none hpieces] at hread
      cases hread
    · rename_i source symbol destination hpieces
      split at hx
      · cases hx
      · rename_i hblank
        exact ⟨source, symbol, destination, hpieces, Bool.eq_false_iff.mpr hblank⟩

/-- The symbols of the transitions that a line brings can be told from its text. -/
theorem exists_contributed_iff :
    (∃ x ∈ d.contributed line, x.symbol = String.ofList t) ↔ d.ReadsSymbol line t := by
  have hread : ∀ {source symbol destination q : List Char},
      pieces (mendArrows line) = some (source, symbol, destination) → allBlank symbol = false →
      ((∃ x, read (plainLine (stateName source) (trim symbol) q) = some x ∧
          x.symbol = String.ofList t) ↔
        isWord (trim (stateName source)) = true ∧ ReadAs (trim symbol) q t) := by
    intro source symbol destination q hpieces hsymbol
    refine read_plainLine_iff (guarded_stateName ?_) (trim_trim symbol)
      (trim_ne_nil_iff.mpr hsymbol)
    obtain ⟨⟨front, behind⟩, -, hcomma⟩ := Option.bind_eq_some_iff.mp hpieces
    obtain ⟨⟨a, b⟩, hfront, hp⟩ := Option.map_eq_some_iff.mp hcomma
    cases hp
    exact (of_cutAtComma hfront).2.1
  constructor
  · rintro ⟨x, hx, ht⟩
    obtain ⟨source, symbol, destination, hpieces, hsymbol⟩ := exists_pieces_of_mem_contributed hx
    rw [contributed_eq hpieces hsymbol, List.mem_filterMap] at hx
    obtain ⟨q, hq, hx⟩ := hx
    obtain ⟨hsource, hreadAs⟩ := (hread hpieces hsymbol).mp ⟨x, hx, ht⟩
    exact ⟨source, symbol, destination, hpieces, hsymbol, hsource, q, hq, hreadAs⟩
  · rintro ⟨source, symbol, destination, hpieces, hsymbol, hsource, q, hq, hreadAs⟩
    obtain ⟨x, hx, ht⟩ := (hread hpieces hsymbol).mpr ⟨hsource, hreadAs⟩
    refine ⟨x, ?_, ht⟩
    rw [contributed_eq hpieces hsymbol]
    exact List.mem_filterMap.mpr ⟨q, hq, hx⟩

theorem contributed_ne_nil_iff : d.contributed line ≠ [] ↔ ∃ t, d.ReadsSymbol line t := by
  simp only [← exists_contributed_iff]
  constructor
  · intro hne
    obtain ⟨x, hx⟩ := List.exists_mem_of_ne_nil _ hne
    exact ⟨x.symbol.toList, x, hx, String.ofList_toList.symm⟩
  · rintro ⟨t, x, hx, -⟩
    exact List.ne_nil_of_mem hx

/-- Where no destination has an arrow, the symbol is read as it is spelled. -/
theorem ReadsSymbol.symbolText_eq (h : d.ReadsSymbol line t) (hplain : d.PlainDestinations line) :
    symbolText line = some t := by
  obtain ⟨source, symbol, destination, hpieces, -, -, q, hq, hreadAs⟩ := h
  cases hreadAs with
  | whole _ =>
    unfold symbolText
    rw [hpieces]
    rfl
  | joined arrow hdestination _ =>
    refine absurd ?_ (hplain source symbol destination hpieces q hq arrow)
    rw [hdestination, List.infix_append_iff]
    exact Or.inr (Or.inl (List.prefix_append _ _).isInfix)

/-! ## The symbols of the automaton -/

theorem ofList_mem_symbolSet {text : String} :
    String.ofList t ∈ symbolSet text ↔ t ∈ (listItems text.toList).map unquote := by
  unfold symbolSet
  rw [OrderedSet.mem_ofList, List.mem_map, List.mem_map]
  simp only [String.ofList_inj]

/-- What the alphabet lists is a symbol of the automaton unless it is in quotes. -/
theorem mem_map_unquote_iff {items : List (List Char)} (h : t ∈ items) :
    t ∈ items.map unquote ↔ unquote t = t := by
  constructor
  · intro hmem
    obtain ⟨item, -, rfl⟩ := List.mem_map.mp hmem
    exact unquote_unquote item
  · intro heq
    exact List.mem_map.mpr ⟨t, h, heq⟩

/-- The table has entries for the symbols that are read from the lines, and no others. -/
theorem exists_entry_iff {kind : Kind} {initial : List Char} {s : Symbol} :
    (∃ e ∈ (d.decodeFrom kind initial).automaton.table.entries, e.key.symbol = s) ↔
      ∃ line ∈ d.givenLines, d.ReadsSymbol line s.toList := by
  have htable : (d.decodeFrom kind initial).automaton.table =
      .ofTriples (d.givenLines.flatMap d.contributed) :=
    (d.decodeFrom_table kind initial).trans d.table_plain
  have hkeys : ∀ key, key ∈ (d.decodeFrom kind initial).automaton.table.entries.map Entry.key ↔
      key ∈ (d.givenLines.flatMap d.contributed).map Triple.key := by
    intro key
    rw [htable, Table.map_key_ofTriples]
    exact OrderedSet.mem_ofList
  simp only [← exists_contributed_iff, String.ofList_toList]
  constructor
  · rintro ⟨e, he, rfl⟩
    obtain ⟨x, hx, hkey⟩ := List.mem_map.mp ((hkeys e.key).mp (List.mem_map_of_mem he))
    obtain ⟨line, hline, hx⟩ := List.mem_flatMap.mp hx
    exact ⟨line, hline, x, hx, congrArg Key.symbol hkey⟩
  · rintro ⟨line, hline, x, hx, rfl⟩
    have hx : x ∈ d.givenLines.flatMap d.contributed := List.mem_flatMap.mpr ⟨line, hline, hx⟩
    obtain ⟨e, he, hkey⟩ := List.mem_map.mp ((hkeys x.key).mpr (List.mem_map_of_mem hx))
    exact ⟨e, he, congrArg Key.symbol hkey⟩

/-- Every symbol is declared exactly if all that is read from the lines stands in the
alphabet, its quotes taken off. -/
theorem no_undefinedSymbol_iff {kind : Kind} {r : Decoded} (hdecode : d.decode kind = .ok r) :
    (∀ s, .undefinedSymbol s ∉ r.automaton.validate) ↔
      ∀ line ∈ d.givenLines, ∀ t, d.ReadsSymbol line t →
        t ∈ (listItems d.alphabet.toList).map unquote := by
  obtain ⟨initial, rfl⟩ := exists_decodeFrom hdecode
  have halphabet : (d.decodeFrom kind initial).automaton.alphabet = symbolSet d.alphabet := by
    simp only [decodeFrom]
  simp only [Automaton.undefinedSymbol_mem_validate_iff, exists_entry_iff, halphabet]
  constructor
  · intro h line hline t hread
    by_contra hnot
    refine h (String.ofList t) ⟨fun hmem => hnot (ofList_mem_symbolSet.mp hmem), line, hline, ?_⟩
    rwa [String.toList_ofList]
  · rintro h s ⟨hnot, line, hline, hread⟩
    refine hnot ?_
    rw [← String.ofList_toList (s := s)]
    exact ofList_mem_symbolSet.mpr (h line hline _ hread)

/-! ## Symbols that are spelled the same -/

/-- Each line that brings a transition spells its symbol as the alphabet does. -/
def SpellsSymbols (d : Description) : Prop :=
  ∀ line ∈ d.givenLines, d.contributed line ≠ [] →
    ∃ symbol ∈ listItems d.alphabet.toList, symbolText line = some symbol

/-- Where each symbol is spelled as in the alphabet, all are declared if and only if
those that are read as they are spelled have no quotes around them and those that are
read together with an arrow are in the alphabet as well. Without arrows in the
destinations it is a matter of the quotes alone. -/
theorem spelled_symbols_are_declared_unless_quoted {d : Description} {kind : Kind} {r : Decoded}
    (hdecode : d.decode kind = .ok r) (hspelled : d.SpellsSymbols) :
    ((∀ s, .undefinedSymbol s ∉ r.automaton.validate) ↔
      ∀ line ∈ d.givenLines, ∀ t, d.ReadsSymbol line t →
        (symbolText line = some t → unquote t = t) ∧
        (symbolText line ≠ some t → t ∈ (listItems d.alphabet.toList).map unquote)) ∧
    ((∀ line ∈ d.givenLines, d.contributed line ≠ [] → d.PlainDestinations line) →
      ((∀ s, .undefinedSymbol s ∉ r.automaton.validate) ↔
        ∀ line ∈ d.givenLines, d.contributed line ≠ [] →
          ∀ t, symbolText line = some t → unquote t = t)) := by
  have hlisted : ∀ line ∈ d.givenLines, ∀ t, d.ReadsSymbol line t → symbolText line = some t →
      (t ∈ (listItems d.alphabet.toList).map unquote ↔ unquote t = t) := by
    intro line hline t hread htext
    obtain ⟨symbol, hsymbol, htext'⟩ :=
      hspelled line hline (contributed_ne_nil_iff.mpr ⟨t, hread⟩)
    cases htext.symm.trans htext'
    exact mem_map_unquote_iff hsymbol
  rw [no_undefinedSymbol_iff hdecode]
  refine ⟨?_, fun hplain => ?_⟩
  · refine forall₂_congr fun line hline => forall₂_congr fun t hread => ?_
    by_cases htext : symbolText line = some t
    · simp [htext, hlisted line hline t hread htext]
    · simp [htext]
  · constructor
    · intro h line hline hne t htext
      obtain ⟨u, hread⟩ := contributed_ne_nil_iff.mp hne
      cases htext.symm.trans (hread.symbolText_eq (hplain line hline hne))
      exact (hlisted line hline t hread htext).mp (h line hline t hread)
    · intro h line hline t hread
      have hne : d.contributed line ≠ [] := contributed_ne_nil_iff.mpr ⟨t, hread⟩
      have htext := hread.symbolText_eq (hplain line hline hne)
      exact (hlisted line hline t hread htext).mpr (h line hline hne t htext)

/-- A symbol of two words, and one line with two destinations. -/
def wordy : Description :=
  ⟨"q0, q1", "a, go on", "q0", "q1", "q0,a → q\x7b0, 1\x7d\nq1, go on -> q1"⟩

theorem wordy_declares_its_symbols :
    wordy.decode .nfa = .ok (wordy.decodeFrom .nfa ['q', '0']) ∧ wordy.SpellsSymbols ∧
    wordy.givenLines.map symbolText = [some ['a'], some "go on".toList] ∧
    ∀ s, .undefinedSymbol s ∉ (wordy.decodeFrom .nfa ['q', '0']).automaton.validate := by
  have hdecode : wordy.decode .nfa = .ok (wordy.decodeFrom .nfa ['q', '0']) :=
    decode_of_single (by decide) (by decide)
  have htexts : ∀ line ∈ wordy.givenLines,
      symbolText line = some ['a'] ∨ symbolText line = some "go on".toList := by decide
  have hspelled : wordy.SpellsSymbols := by
    intro line hline _
    rcases htexts line hline with htext | htext
    · exact ⟨_, by decide, htext⟩
    · exact ⟨_, by decide, htext⟩
  have hnames : ∀ line ∈ wordy.givenLines, ∀ cut ∈ pieces (mendArrows line),
      ∀ q ∈ destinationNames (stateSet wordy.states) cut.2.2,
        ¬Arrow.sign.text <:+: q ∧ ¬Arrow.letters.text <:+: q := by decide
  obtain ⟨-, hplain⟩ := spelled_symbols_are_declared_unless_quoted hdecode hspelled
  refine ⟨hdecode, hspelled, by decide, (hplain ?_).mpr ?_⟩
  · intro line hline _ source symbol destination hpieces q hq arrow
    obtain ⟨hsign, hletters⟩ := hnames line hline _ hpieces q hq
    cases arrow with
    | sign => exact hsign
    | letters => exact hletters
  · intro line hline _ t htext
    rcases htexts line hline with htext' | htext'
    · cases htext.symm.trans htext'
      decide
    · cases htext.symm.trans htext'
      decide

/-- The only symbol is in quotes, in the alphabet and in the line. -/
def quoted : Description := ⟨"q0, q1", "'a'", "q0", "q1", "q0,'a' → q1"⟩

/-- The alphabet loses the quotes and the line keeps them, so the symbol is reported
though it is spelled the same. -/
theorem quoted_does_not_declare_its_symbol :
    ∃ r, quoted.decode .nfa = .ok r ∧ quoted.SpellsSymbols ∧
      .undefinedSymbol "'a'" ∈ r.automaton.validate := by
  refine ⟨quoted.decodeFrom .nfa ['q', '0'], decode_of_single (by decide) (by decide), ?_, by decide⟩
  have htexts : ∀ line ∈ quoted.givenLines, symbolText line = some "'a'".toList := by decide
  intro line hline _
  exact ⟨_, by decide, htexts line hline⟩

end Description

end Stepwise
