-- Decoding undoes the writing. A service writes an automaton as five texts of
-- state tokens, symbols and lines. Whatever it wrote, the decoder gives the
-- named states, the symbols and the transitions back, and no warning.
import Stepwise.Proofs.Rewriting
import Stepwise.Proofs.StateTokens

namespace Stepwise.Description

open Text

/-! ## What a service writes -/

/-- A symbol as it can stand in a list of symbols. -/
structure ListedSymbol where
  chars : List Char
  ne_nil : chars ≠ []
  trimmed : trim chars = chars
  plain : Plain chars
  no_comma : ',' ∉ chars
  no_quote : ∀ c ∈ chars, isQuote c = false

/-- A symbol as it can stand in a line. It may hold commas, and arrows of
plain letters too. -/
structure LineSymbol where
  chars : List Char
  ne_nil : chars ≠ []
  trimmed : trim chars = chars
  plain : Plain chars
  one_line : '\n' ∉ chars
  no_arrow : '→' ∉ chars
  no_broken_arrow : ¬brokenArrow <:+: chars

/-- A line, which leads from one state to any number of them. -/
structure WrittenLine where
  source : StateToken
  symbol : LineSymbol
  destination : Destination

/-- An automaton as a service writes it, with the white space that it puts
behind the commas of its lists and of its set literals. -/
structure Written where
  states : List StateToken
  alphabet : List ListedSymbol
  initial : StateToken
  accepting : List StateToken
  lines : List WrittenLine
  listGap : List Char
  setGap : List Char
  listGap_blank : allBlank listGap = true
  setGap_blank : allBlank setGap = true
  setGap_one_line : '\n' ∉ setGap

/-- What stands in front of the arrow of a line. -/
def WrittenLine.front (gap : List Char) (l : WrittenLine) : List Char :=
  l.source.text gap ++ ',' :: (l.symbol.chars ++ [' '])

def WrittenLine.text (gap : List Char) (l : WrittenLine) : List Char :=
  l.front gap ++ '→' :: ' ' :: l.destination.text gap

/-- The transitions that a line was written for, one for each destination. -/
def WrittenLine.triples (states : OrderedSet StateName) (l : WrittenLine) : List Triple :=
  (l.destination.names states).map fun q =>
    ⟨String.ofList l.source.name, String.ofList l.symbol.chars, String.ofList q⟩

namespace Written

/-- The tokens with commas between. -/
def listText (w : Written) (items : List (List Char)) : String :=
  String.ofList (List.intercalate (',' :: w.listGap) items)

def tokenList (w : Written) (tokens : List StateToken) : String :=
  w.listText (tokens.map (StateToken.text w.setGap))

/-- The five texts. -/
def describe (w : Written) : Description where
  states := w.tokenList w.states
  alphabet := w.listText (w.alphabet.map ListedSymbol.chars)
  initialState := String.ofList (w.initial.text w.setGap)
  acceptingStates := w.tokenList w.accepting
  transitions := String.ofList (unlines (w.lines.map (WrittenLine.text w.setGap)))

/-- The states that tokens name, each at its first place. -/
def named (tokens : List StateToken) : OrderedSet StateName :=
  .ofList (tokens.map fun t => String.ofList t.name)

/-- The automaton that the texts were written for. -/
def automaton (w : Written) (kind : Kind) : Automaton where
  kind
  states := named w.states
  alphabet := .ofList (w.alphabet.map fun s => String.ofList s.chars)
  table := .ofTriples (w.lines.flatMap (WrittenLine.triples (named w.states)))
  initial := String.ofList w.initial.name
  accepting := named w.accepting

end Written

/-! ## Lists -/

theorem ListedSymbol.isItem (s : ListedSymbol) : IsItem s.chars where
  whole := whole_of_plain s.plain fun _ => s.no_comma
  trimmed := s.trimmed
  ne_nil := s.ne_nil

variable (w : Written)

theorem stateSet_tokenList (tokens : List StateToken) :
    stateSet (w.tokenList tokens) = Written.named tokens := by
  have hitems : ∀ i ∈ tokens.map (StateToken.text w.setGap), IsItem i := by
    intro i hi
    obtain ⟨t, -, rfl⟩ := List.mem_map.mp hi
    exact t.isItem_text w.setGap_blank
  unfold stateSet Written.tokenList Written.listText Written.named
  rw [String.toList_ofList, listItems_intercalate w.listGap_blank hitems, List.map_map]
  congr 1
  apply List.map_congr_left
  intro t _
  exact congrArg String.ofList (stateName_text w.setGap_blank t)

theorem symbolSet_listText (symbols : List ListedSymbol) :
    symbolSet (w.listText (symbols.map ListedSymbol.chars)) =
      .ofList (symbols.map fun s => String.ofList s.chars) := by
  have hitems : ∀ i ∈ symbols.map ListedSymbol.chars, IsItem i := by
    intro i hi
    obtain ⟨s, -, rfl⟩ := List.mem_map.mp hi
    exact s.isItem
  unfold symbolSet Written.listText
  rw [String.toList_ofList, listItems_intercalate w.listGap_blank hitems, List.map_map]
  congr 1
  apply List.map_congr_left
  intro s _
  exact congrArg String.ofList (unquote_eq_self s.no_quote)

theorem listItems_initial :
    listItems w.describe.initialState.toList = [w.initial.text w.setGap] := by
  have hitems : ∀ i ∈ [w.initial.text w.setGap], IsItem i := by
    intro i hi
    rw [List.mem_singleton.mp hi]
    exact w.initial.isItem_text w.setGap_blank
  have hone := listItems_intercalate w.listGap_blank hitems
  rw [List.intercalate_singleton] at hone
  show listItems (String.ofList (w.initial.text w.setGap)).toList = _
  rw [String.toList_ofList, hone]

/-! ## Balance -/

theorem balanced_listText {items : List (List Char)} (h : ∀ i ∈ items, balanced i = true) :
    balanced (w.listText items).toList = true := by
  unfold Written.listText
  rw [String.toList_ofList]
  apply balanced_intercalate _ h
  have hgap := balanced_of_plain (plain_of_allBlank w.listGap_blank)
  exact balanced_append (show balanced [','] = true from rfl) hgap

theorem balanced_tokenList (tokens : List StateToken) :
    balanced (w.tokenList tokens).toList = true := by
  apply balanced_listText
  intro i hi
  obtain ⟨t, -, rfl⟩ := List.mem_map.mp hi
  exact t.balanced_text w.setGap_blank

theorem WrittenLine.balanced_text {gap : List Char} (hgap : allBlank gap = true) (l : WrittenLine) :
    balanced (l.text gap) = true := by
  have hsymbol := balanced_of_plain l.symbol.plain
  have hfront : balanced (l.front gap) = true :=
    balanced_append (l.source.balanced_text hgap)
      (balanced_append (a := [',']) rfl (balanced_append hsymbol rfl))
  exact balanced_append hfront
    (balanced_append (a := ['→', ' ']) rfl (l.destination.balanced_text hgap))

theorem unbalancedField_describe : w.describe.unbalancedField = none := by
  unfold unbalancedField
  rw [List.find?_eq_none]
  intro field _
  rw [Bool.not_eq_true, Bool.not_eq_false']
  cases field with
  | states => exact balanced_tokenList w w.states
  | alphabet =>
    apply balanced_listText
    intro i hi
    obtain ⟨s, -, rfl⟩ := List.mem_map.mp hi
    exact balanced_of_plain s.plain
  | initialState =>
    show balanced (String.ofList _).toList = true
    rw [String.toList_ofList]
    exact w.initial.balanced_text w.setGap_blank
  | acceptingStates => exact balanced_tokenList w w.accepting
  | transitions =>
    show balanced (String.ofList _).toList = true
    rw [String.toList_ofList]
    apply balanced_intercalate rfl
    intro i hi
    obtain ⟨l, -, rfl⟩ := List.mem_map.mp hi
    exact l.balanced_text w.setGap_blank

/-! ## Lines -/

section

variable {gap : List Char} (hgap : allBlank gap = true)

/-- A character that no token is made of comes from the white space. -/
theorem not_mem_of_tokens {cs : List Char} (h : ∀ c ∈ cs, isTokenChar c = true ∨ c ∈ gap) {c : Char}
    (ht : isTokenChar c = false) (hc : c ∉ gap) : c ∉ cs := by
  intro hmem
  rcases h c hmem with hchar | hin
  · rw [ht] at hchar
    cases hchar
  · exact hc hin

theorem WrittenLine.newline_not_mem_text (hline : '\n' ∉ gap) (l : WrittenLine) :
    '\n' ∉ l.text gap := by
  have hsource := not_mem_of_tokens (fun c => l.source.mem_text (c := c)) (by decide) hline
  have hdestination :=
    not_mem_of_tokens (fun c => l.destination.mem_text (c := c)) (by decide) hline
  unfold text front
  simp [hsource, hdestination, l.symbol.one_line]

include hgap

theorem WrittenLine.arrow_not_mem_front (l : WrittenLine) : '→' ∉ l.front gap := by
  have hsource := not_mem_of_tokens (fun c => l.source.mem_text (c := c)) (c := '→') (by decide)
    (not_mem_of_allBlank hgap (by decide))
  unfold front
  simp [hsource, l.symbol.no_arrow]

theorem WrittenLine.no_broken_arrow (l : WrittenLine) : ¬brokenArrow <:+: l.text gap := by
  -- a broken arrow starts with a character that is in no token
  have htoken : ∀ cs : List Char, (∀ c ∈ cs, isTokenChar c = true ∨ c ∈ gap) →
      ¬brokenArrow <:+: cs := by
    intro cs hcs hinfix
    have hmem : '\u00e2' ∈ cs := hinfix.subset List.mem_cons_self
    exact not_mem_of_tokens hcs (by decide) (not_mem_of_allBlank hgap (by decide)) hmem
  intro h
  rcases infix_of_infix_append_cons (by decide) h with h | h
  · rcases infix_of_infix_append_cons (by decide) h with h | h
    · exact htoken _ (fun c => l.source.mem_text) h
    · rcases infix_of_infix_append_cons (by decide) h with h | h
      · exact l.symbol.no_broken_arrow h
      · cases List.infix_nil.mp h
  · rcases infix_of_infix_append_cons (a := []) (by decide) h with h | h
    · cases List.infix_nil.mp h
    · exact htoken _ (fun c => l.destination.mem_text) h

/-- The decoder makes of a line the transitions that it was written for. -/
theorem rewriteLine_text (states : OrderedSet StateName) (l : WrittenLine) :
    rewriteLine states (l.text gap) = .expanded (l.triples states) := by
  have hspace : allBlank [' '] = true := by decide
  have hblank : allBlank (l.text gap) = false :=
    allBlank_eq_false_of_mem (c := '→') (List.mem_append_right _ List.mem_cons_self) (by decide)
  have harrow : cutAtArrow (l.text gap) = some (l.front gap, ' ' :: l.destination.text gap) := by
    unfold cutAtArrow WrittenLine.text
    rw [cutAt_append (l.arrow_not_mem_front hgap)]
    rfl
  have hcomma : cutAtComma 0 (l.front gap) = some (l.source.text gap, l.symbol.chars ++ [' ']) :=
    cutAtComma_of_whole (l.source.isItem_text hgap).whole _
  have hsymbol : trim (l.symbol.chars ++ [' ']) = l.symbol.chars := by
    rw [trim_append_blank hspace, l.symbol.trimmed]
  have hnot : allBlank (l.symbol.chars ++ [' ']) = false :=
    trim_ne_nil_iff.mp (hsymbol.symm ▸ l.symbol.ne_nil)
  have hnames : destinationNames states (' ' :: l.destination.text gap) =
      l.destination.names states := by
    rw [← List.singleton_append, destinationNames_blank_append states hspace,
      destinationNames_text hgap]
  unfold rewriteLine
  simp only [hblank, harrow, hcomma, hnot, hnames, hsymbol, stateName_text hgap, if_false,
    Bool.false_eq_true]
  rfl

theorem WrittenLine.isLine_text (hline : '\n' ∉ gap) (l : WrittenLine) : IsLine (l.text gap) := by
  refine ⟨l.newline_not_mem_text hline, ?_⟩
  have hlast : ∀ c, (l.destination.text gap).getLast? = some c → isBlank c = false := by
    intro c hc
    rw [← l.destination.trim_text hgap] at hc
    exact not_blank_of_getLast?_trim hc
  unfold text
  rw [List.getLast?_append_of_ne_nil _ (by simp), List.getLast?_cons, List.getLast?_cons]
  intro h
  cases hend : (l.destination.text gap).getLast? with
  | none => simp [hend] at h
  | some c =>
    simp only [hend, Option.getD_some, Option.some.injEq] at h
    exact absurd (h ▸ hlast c hend) (by decide)

theorem rewriteLines_unlines (hline : '\n' ∉ gap) (states : OrderedSet StateName)
    (ls : List WrittenLine) : rewriteLines states (unlines (ls.map (WrittenLine.text gap))) =
      ls.map fun l => .expanded (l.triples states) := by
  have hlines : lines (unlines (ls.map (WrittenLine.text gap))) = ls.map (WrittenLine.text gap) := by
    apply lines_unlines
    · intro line hmem
      obtain ⟨l, -, rfl⟩ := List.mem_map.mp hmem
      exact l.isLine_text hgap hline
    · intro hmem
      obtain ⟨l, -, hnil⟩ := List.mem_map.mp hmem
      exact absurd hnil (by simp [WrittenLine.text])
  unfold rewriteLines
  rw [hlines, List.map_map]
  apply List.map_congr_left
  intro l _
  show rewriteLine states (mendArrows (l.text gap)) = _
  rw [mendArrows_eq_self (l.no_broken_arrow hgap), rewriteLine_text hgap]

end

/-! ## Reading the lines again -/

/-- A transition between names, on the symbol of a line. -/
theorem WrittenLine.of_mem_triples {states : OrderedSet StateName} {l : WrittenLine} {x : Triple}
    (h : x ∈ l.triples states) : TransitionLine.read (TransitionLine.write x) = some x ∧
      IsLine (TransitionLine.write x) := by
  obtain ⟨q, hq, rfl⟩ := List.mem_map.mp h
  have hsource := l.source.isWord_name
  have htarget := Destination.isWord_of_mem_names hq
  constructor
  · exact TransitionLine.read_write hsource l.symbol.trimmed l.symbol.ne_nil htarget
  · apply TransitionLine.isLine_write (TransitionLine.not_mem_of_isWord hsource (by decide))
      l.symbol.one_line (TransitionLine.not_mem_of_isWord htarget (by decide))
      (TransitionLine.isWord_iff.mp htarget).1
    intro c hc
    have hword := (TransitionLine.isWord_iff.mp htarget).2 c (List.mem_of_getLast? hc)
    exact TransitionLine.not_blank_of_isWordChar hword

theorem Rewritten.readings_left_expanded {xs : List Triple}
    (h : ∀ x ∈ xs, TransitionLine.read (TransitionLine.write x) = some x) :
    (expanded xs).left.filterMap TransitionLine.read = xs := by
  rw [readings_expanded]
  conv_rhs => rw [← List.filterMap_some (l := xs)]
  exact List.filterMap_congr h

theorem rewriteLines_describe :
    rewriteLines (stateSet w.describe.states) w.describe.transitions.toList =
      w.lines.map fun l => .expanded (l.triples (Written.named w.states)) := by
  show rewriteLines (stateSet (w.tokenList w.states)) (String.ofList _).toList = _
  rw [stateSet_tokenList, String.toList_ofList,
    rewriteLines_unlines w.setGap_blank w.setGap_one_line]

theorem leftLines_describe :
    w.describe.leftLines = w.lines.flatMap fun l =>
      (Rewritten.expanded (l.triples (Written.named w.states))).left := by
  unfold leftLines
  rw [rewriteLines_describe, List.flatMap_map]

theorem of_mem_leftLines_describe {line : List Char} (h : line ∈ w.describe.leftLines) :
    IsLine line ∧ (line = [] ∨ (TransitionLine.read line).isSome = true) := by
  rw [leftLines_describe] at h
  obtain ⟨l, -, hl⟩ := List.mem_flatMap.mp h
  rcases Rewritten.mem_left_expanded hl with rfl | ⟨x, hx, rfl⟩
  · exact ⟨⟨by decide, by decide⟩, Or.inl rfl⟩
  · obtain ⟨hread, hline⟩ := WrittenLine.of_mem_triples hx
    exact ⟨hline, Or.inr (by rw [hread]; rfl)⟩

theorem readings_describe :
    w.describe.leftLines.filterMap TransitionLine.read =
      w.lines.flatMap (WrittenLine.triples (Written.named w.states)) := by
  rw [leftLines_describe, List.filterMap_flatMap]
  congr 1
  funext l
  exact Rewritten.readings_left_expanded fun x hx => (WrittenLine.of_mem_triples hx).1

/-! ## The round trip -/

theorem droppedLines_describe : w.describe.droppedLines = [] := by
  unfold droppedLines
  rw [rewriteLines_describe, List.filterMap_map]
  exact List.filterMap_eq_nil_iff.mpr fun l _ => rfl

/-- The five texts of an automaton are decoded to that automaton. No line is
dropped, and none brings a warning. -/
theorem decoding_undoes_the_writing (w : Written) (kind : Kind) :
    w.describe.decode kind = .ok ⟨w.automaton kind, [], []⟩ := by
  have hline : ∀ line ∈ w.describe.leftLines, IsLine line :=
    fun line h => (of_mem_leftLines_describe w h).1
  have htable := table_parse_plain hline
  rw [readings_describe] at htable
  have hwarnings := warnings_parse_plain hline fun line h => (of_mem_leftLines_describe w h).2
  have hstates : stateSet w.describe.states = Written.named w.states := stateSet_tokenList w w.states
  have haccepting : stateSet w.describe.acceptingStates = Written.named w.accepting :=
    stateSet_tokenList w w.accepting
  have halphabet : symbolSet w.describe.alphabet = _ := symbolSet_listText w w.alphabet
  unfold decode
  simp only [unbalancedField_describe, listItems_initial]
  unfold decodeFrom Written.automaton
  simp only [htable, hwarnings, hstates, haccepting, halphabet, droppedLines_describe,
    stateName_text w.setGap_blank]

end Stepwise.Description
