-- The ways a service writes states. A state is a word, or the subset that it
-- was made from; the destination of a line may also be a set. Whatever the
-- white space in a literal, it is read as the states that it was written for.
import Stepwise.Description
import Stepwise.Proofs.LineGrammar

namespace Stepwise.Description

open Text

/-! ## Taking texts apart -/

theorem stripStart_append (start rest : List Char) : stripStart start (start ++ rest) = some rest := by
  unfold stripStart
  exact List.isPrefixOf?_eq_some_iff_append_eq.mpr rfl

theorem stripStart_eq_none {c d : Char} (h : c ≠ d) (rest : List Char) :
    stripStart [c] (d :: rest) = none := by
  unfold stripStart
  simp [List.isPrefixOf?, h]

theorem stripLast_concat (c : Char) (cs : List Char) : stripLast c (cs ++ [c]) = some cs := by
  unfold stripLast
  rw [List.getLast?_concat, if_pos rfl, List.dropLast_concat]

theorem stripLast_eq_none {c : Char} {cs : List Char} (h : cs.getLast? ≠ some c) :
    stripLast c cs = none := if_neg h

theorem cutAt_append {c : Char} {a : List Char} (h : c ∉ a) (b : List Char) :
    cutAt c (a ++ c :: b) = some (a, b) := by
  have hne : ∀ d ∈ a, decide (d ≠ c) = true := by
    intro d hd
    rw [decide_eq_true_eq]
    rintro rfl
    exact h hd
  unfold cutAt
  rw [List.dropWhile_append_of_pos hne, List.takeWhile_append_of_pos hne]
  simp

theorem cutAt_eq_none {c : Char} {cs : List Char} (h : c ∉ cs) : cutAt c cs = none := by
  unfold cutAt
  rw [List.dropWhile_eq_nil_iff.mpr]
  intro d hd
  rw [decide_eq_true_eq]
  rintro rfl
  exact h hd

theorem eq_of_cutAt {c : Char} {cs a b : List Char} (h : cutAt c cs = some (a, b)) :
    cs = a ++ c :: b ∧ c ∉ a := by
  by_cases hc : c ∈ cs
  · obtain ⟨a', b', rfl, hna⟩ := List.eq_append_cons_of_mem hc
    rw [cutAt_append hna] at h
    cases h
    exact ⟨rfl, hna⟩
  · rw [cutAt_eq_none hc] at h
    cases h

theorem quote_cases {c : Char} (h : isQuote c = true) : c = '\'' ∨ c = '"' := by
  unfold isQuote at h
  rwa [Bool.or_eq_true, decide_eq_true_eq, decide_eq_true_eq] at h

theorem not_bracket_of_isQuote {c : Char} (h : isQuote c = true) :
    isBracket c = false ∧ isBlank c = false ∧ c ≠ ',' := by
  rcases quote_cases h with rfl | rfl <;> decide

theorem unquote_eq_self {cs : List Char} (h : ∀ c ∈ cs, isQuote c = false) : unquote cs = cs := by
  have hdrop : ∀ l : List Char, (∀ c ∈ l, isQuote c = false) → l.dropWhile isQuote = l := by
    intro l hl
    cases l with
    | nil => rfl
    | cons c l => rw [List.dropWhile_cons_of_neg (by simp [hl c List.mem_cons_self])]
  unfold unquote
  rw [hdrop cs h, hdrop cs.reverse fun c hc => h c (List.mem_reverse.mp hc), List.reverse_reverse]

/-- Once the quotes are off, there are none to take off. -/
theorem unquote_unquote (cs : List Char) : unquote (unquote cs) = unquote cs := by
  have hstart : (unquote cs).dropWhile isQuote = unquote cs := by
    have hprefix : unquote cs <+: cs.dropWhile isQuote := List.rdropWhile_prefix isQuote _
    cases hcs : unquote cs with
    | nil => rfl
    | cons c rest =>
      obtain ⟨w, hw⟩ := hcs ▸ hprefix
      have hhead := List.head?_dropWhile_not isQuote cs
      rw [← hw] at hhead
      exact List.dropWhile_cons_of_neg (by simpa using hhead)
  show ((unquote cs).dropWhile isQuote).rdropWhile isQuote = unquote cs
  rw [hstart]
  exact List.rdropWhile_idempotent isQuote _

/-! ## Set literals -/

/-- A set literal ends with a closing bracket. -/
theorem setElements_eq_none {cs : List Char} (h : ∀ c, cs.getLast? = some c → isClosing c = false) :
    setElements cs = none := by
  have hlast : ∀ (c : Char) (a b : List Char), isClosing c = true → cs = a ++ b →
      b.getLast? ≠ some c := by
    rintro c a b hc rfl hb
    rw [h c (by rw [List.getLast?_append, hb]; rfl)] at hc
    cases hc
  unfold setElements setBody
  rw [Option.map_eq_none_iff]
  cases hstart : stripStart ['{'] cs with
  | some inner =>
    have hcs : cs = ['{'] ++ inner := (List.isPrefixOf?_eq_some_iff_append_eq.mp hstart).symm
    exact stripLast_eq_none (hlast '}' _ inner rfl hcs)
  | none =>
    cases hcut : cutAt '(' cs with
    | none => rfl
    | some p =>
      obtain ⟨word, rest⟩ := p
      have hcs : cs = (word ++ ['(']) ++ rest := by
        rw [(eq_of_cutAt hcut).1, List.append_assoc, List.singleton_append]
      show (if word = setWord ∨ word = frozensetWord then _ else none) = none
      rw [stripLast_eq_none (hlast ')' _ rest rfl hcs)]
      exact ite_self none

theorem setElements_braces (inner : List Char) :
    setElements ('{' :: (inner ++ ['}'])) = some ((listItems inner).map unquote) := by
  have hstart : stripStart ['{'] ('{' :: (inner ++ ['}'])) = some (inner ++ ['}']) :=
    stripStart_append ['{'] _
  unfold setElements setBody
  rw [hstart]
  simp only [stripLast_concat, Option.map_some]

/-- The parentheses of a frozenset hold its elements, in braces or without. -/
theorem setElements_parentheses (args : List Char) :
    setElements (frozensetWord ++ '(' :: (args ++ [')'])) =
      some ((listItems (((stripStart ['{'] args).bind (stripLast '}')).getD args)).map unquote) := by
  have hcut : cutAt '(' (frozensetWord ++ '(' :: (args ++ [')'])) =
      some (frozensetWord, args ++ [')']) := cutAt_append (by decide) _
  have hstart : stripStart ['{'] (frozensetWord ++ '(' :: (args ++ [')'])) = none :=
    stripStart_eq_none (by decide) _
  unfold setElements setBody
  rw [hstart, hcut]
  simp only [Option.bind_some, or_true, if_true, stripLast_concat, Option.map_some]

theorem setElements_frozenset (inner : List Char) :
    setElements (frozensetWord ++ '(' :: ('{' :: (inner ++ ['}']) ++ [')'])) =
      some ((listItems inner).map unquote) := by
  have hbrace : stripStart ['{'] ('{' :: (inner ++ ['}'])) = some (inner ++ ['}']) :=
    stripStart_append ['{'] _
  rw [setElements_parentheses, hbrace, Option.bind_some, stripLast_concat, Option.getD_some]

/-! ## Tokens -/

/-- A name of letters, digits and underscores. -/
structure Word where
  chars : List Char
  proper : TransitionLine.isWord chars = true

/-- An element of a subset or set: letters and digits, at least one. -/
structure Element where
  chars : List Char
  ne_nil : chars ≠ []
  alphanumeric : ∀ c ∈ chars, c.isAlphanum = true

/-- A state: a name, or a subset that a construction made one state of. -/
inductive StateToken where
  | word (w : Word)
  | subset (elements : List Element)

/-- Where a line leads to: a state, or several at once. -/
inductive Destination where
  | state (token : StateToken)
  | set (elements : List Element)

/-- The elements with commas between, and the given white space behind each comma. -/
def elementList (gap : List Char) (elements : List Element) : List Char :=
  List.intercalate (',' :: gap) (elements.map Element.chars)

def StateToken.text (gap : List Char) : StateToken → List Char
  | word w => w.chars
  | subset [] => subsetStart ++ '(' :: [')']
  | subset elements => subsetStart ++ '(' :: ('{' :: (elementList gap elements ++ ['}']) ++ [')'])

theorem StateToken.text_subset_nil (gap : List Char) :
    (subset []).text gap = subsetStart ++ '(' :: [')'] := rfl

theorem StateToken.text_subset_cons (gap : List Char) (e : Element) (es : List Element) :
    (subset (e :: es)).text gap =
      subsetStart ++ '(' :: ('{' :: (elementList gap (e :: es) ++ ['}']) ++ [')']) := rfl

def Destination.text (gap : List Char) : Destination → List Char
  | state token => token.text gap
  | set elements => 'q' :: '{' :: (elementList gap elements ++ ['}'])

/-- The name of a state. A subset is named by its elements, an underscore in
front of each. -/
def StateToken.name : StateToken → List Char
  | word w => w.chars
  | subset [] => ['q', '_', 'e', 'm', 'p', 't', 'y']
  | subset elements => 'q' :: elements.flatMap fun e => '_' :: e.chars

/-- The states that a destination stands for, beside the given declared ones.
A subset is one state if it is declared and else a set. -/
def Destination.names (states : OrderedSet StateName) : Destination → List (List Char)
  | state (.word w) => [w.chars]
  | state (.subset elements) =>
    if String.ofList (StateToken.subset elements).name ∈ states then
      [(StateToken.subset elements).name]
    else elements.map fun e => 'q' :: e.chars
  | set elements => elements.map fun e => 'q' :: e.chars

/-! ## The characters of a token -/

theorem isWordChar_of_isAlphanum {c : Char} (h : c.isAlphanum = true) :
    TransitionLine.isWordChar c = true := by
  unfold TransitionLine.isWordChar
  rw [h, Bool.true_or]

theorem Element.isWord (e : Element) : TransitionLine.isWord e.chars = true :=
  TransitionLine.isWord_iff.mpr
    ⟨e.ne_nil, fun c hc => isWordChar_of_isAlphanum (e.alphanumeric c hc)⟩

theorem isItem_of_isWord {cs : List Char} (h : TransitionLine.isWord cs = true) : IsItem cs where
  whole := whole_of_plain (TransitionLine.plain_of_isWord h)
    fun _ => TransitionLine.not_mem_of_isWord h (by decide)
  trimmed := TransitionLine.trim_of_isWord h
  ne_nil := (TransitionLine.isWord_iff.mp h).1

theorem not_isQuote_of_isAlphanum {c : Char} (h : c.isAlphanum = true) : isQuote c = false := by
  rw [Bool.eq_false_iff]
  intro hquote
  rcases quote_cases hquote with rfl | rfl <;> exact absurd h (by decide)

theorem Element.unquote_chars (e : Element) : unquote e.chars = e.chars :=
  unquote_eq_self fun c hc => not_isQuote_of_isAlphanum (e.alphanumeric c hc)

/-- The characters that the tokens of a service are made of. -/
def isTokenChar (c : Char) : Bool :=
  TransitionLine.isWordChar c || c = ',' || c = '{' || c = '(' || c = '}' || c = ')'

theorem isTokenChar_of_isWord {cs : List Char} (h : TransitionLine.isWord cs = true) {c : Char}
    (hc : c ∈ cs) : isTokenChar c = true := by
  unfold isTokenChar
  rw [(TransitionLine.isWord_iff.mp h).2 c hc]
  rfl

section

variable {gap : List Char}

theorem mem_elementList {elements : List Element} {c : Char} (hc : c ∈ elementList gap elements) :
    TransitionLine.isWordChar c = true ∨ c = ',' ∨ c ∈ gap := by
  rcases mem_of_mem_intercalate hc with hsep | ⟨chars, hchars, hc⟩
  · exact Or.inr (List.mem_cons.mp hsep)
  · obtain ⟨e, -, rfl⟩ := List.mem_map.mp hchars
    exact Or.inl ((TransitionLine.isWord_iff.mp e.isWord).2 c hc)

theorem isTokenChar_elementList {elements : List Element} {c : Char}
    (hc : c ∈ elementList gap elements) : isTokenChar c = true ∨ c ∈ gap := by
  rcases mem_elementList hc with hc | rfl | hc
  · exact Or.inl (by simp [isTokenChar, hc])
  · exact Or.inl rfl
  · exact Or.inr hc

theorem StateToken.mem_text {token : StateToken} {c : Char} (hc : c ∈ token.text gap) :
    isTokenChar c = true ∨ c ∈ gap := by
  match token, hc with
  | word w, hc => exact Or.inl (isTokenChar_of_isWord w.proper hc)
  | subset [], hc =>
    have hall : (subsetStart ++ '(' :: [')']).all isTokenChar = true := by decide
    exact Or.inl (List.all_eq_true.mp hall c hc)
  | subset (e :: es), hc =>
    have hstart : subsetStart.all isTokenChar = true := by decide
    simp only [text, List.cons_append, List.mem_append, List.mem_cons, List.not_mem_nil,
      or_false] at hc
    rcases hc with hc | rfl | rfl | (hc | rfl) | rfl
    · exact Or.inl (List.all_eq_true.mp hstart c hc)
    · exact Or.inl rfl
    · exact Or.inl rfl
    · exact isTokenChar_elementList hc
    · exact Or.inl rfl
    · exact Or.inl rfl

theorem Destination.mem_text {destination : Destination} {c : Char}
    (hc : c ∈ destination.text gap) : isTokenChar c = true ∨ c ∈ gap := by
  cases destination with
  | state token => exact StateToken.mem_text hc
  | set elements =>
    simp only [text, List.mem_append, List.mem_cons, List.not_mem_nil, or_false] at hc
    rcases hc with rfl | rfl | hc | rfl
    · exact Or.inl rfl
    · exact Or.inl rfl
    · exact isTokenChar_elementList hc
    · exact Or.inl rfl

/-! ## Tokens in one piece -/

variable (hgap : allBlank gap = true)

include hgap

theorem plain_elementList (elements : List Element) : Plain (elementList gap elements) := by
  intro c hc
  rcases mem_elementList hc with hc | rfl | hc
  · have hone : TransitionLine.isWord [c] = true := by simp [TransitionLine.isWord, hc]
    exact TransitionLine.plain_of_isWord hone c (List.mem_singleton_self c)
  · rfl
  · exact plain_of_allBlank hgap c hc

theorem StateToken.isItem_text (token : StateToken) : IsItem (token.text gap) := by
  match token with
  | word w => exact isItem_of_isWord w.proper
  | subset [] =>
    rw [text_subset_nil]
    exact ⟨⟨by decide, by decide⟩, by decide, by decide⟩
  | subset (e :: es) =>
    have hinner : Whole 2 (elementList gap (e :: es)) :=
      whole_of_plain (plain_elementList hgap (e :: es)) fun h => by cases h
    have hstart : Whole 0 subsetStart := ⟨by decide, by decide⟩
    rw [text_subset_cons]
    refine ⟨hstart.append ((hinner.enclose rfl rfl).enclose rfl rfl), ?_, by simp [subsetStart]⟩
    apply trim_eq_self
    · intro c hc
      cases hc
      decide
    · intro c hc
      rw [← List.cons_append, ← List.append_assoc, List.getLast?_concat] at hc
      cases hc
      decide

theorem StateToken.balanced_text (token : StateToken) : balanced (token.text gap) = true := by
  match token with
  | word w => exact balanced_of_plain (TransitionLine.plain_of_isWord w.proper)
  | subset [] =>
    rw [text_subset_nil]
    decide
  | subset (e :: es) =>
    have hinner := balanced_of_plain (plain_elementList hgap (e :: es))
    exact balanced_append (by decide) (balanced_parentheses (balanced_braces hinner))

theorem Destination.balanced_text (destination : Destination) :
    balanced (destination.text gap) = true := by
  cases destination with
  | state token => exact StateToken.balanced_text hgap token
  | set elements =>
    have hinner := balanced_of_plain (plain_elementList hgap elements)
    exact balanced_append (a := ['q']) (by decide) (balanced_braces hinner)

/-! ## The states that tokens name -/

theorem map_unquote_elementList (elements : List Element) :
    (listItems (elementList gap elements)).map unquote = elements.map Element.chars := by
  unfold elementList
  rw [listItems_intercalate hgap, List.map_map]
  · apply List.map_congr_left
    intro e _
    exact e.unquote_chars
  · intro item hitem
    obtain ⟨e, _, rfl⟩ := List.mem_map.mp hitem
    exact isItem_of_isWord e.isWord

end

/-- A text that ends with no closing bracket is its own name. -/
theorem stateName_eq_trim {cs : List Char}
    (h : ∀ c, (trim cs).getLast? = some c → isClosing c = false) : stateName cs = trim cs := by
  have hnone : setElements ((trim cs).drop 1) = none := by
    apply setElements_eq_none
    intro c hc
    rw [List.getLast?_drop] at hc
    split at hc
    · cases hc
    · exact h c hc
  unfold stateName
  simp only [hnone, ite_self]

theorem destinationNames_eq_trim {cs : List Char} (states : OrderedSet StateName)
    (h : ∀ c, (trim cs).getLast? = some c → isClosing c = false) :
    destinationNames states cs = [trim cs] := by
  have hnone : (stripStart ['q'] (trim cs)).bind setElements = none := by
    cases hstart : stripStart ['q'] (trim cs) with
    | none => rfl
    | some rest =>
      apply setElements_eq_none
      intro c hc
      apply h c
      rw [← List.isPrefixOf?_eq_some_iff_append_eq.mp hstart, List.getLast?_append, hc]
      rfl
  have hname : stateName (trim cs) = trim cs := by
    rw [stateName_eq_trim (by rw [trim_trim]; exact h), trim_trim]
  unfold destinationNames
  simp only [hname, hnone, ite_self]

/-- White space in front of a destination does not count. -/
theorem destinationNames_blank_append (states : OrderedSet StateName) {w cs : List Char}
    (h : allBlank w = true) : destinationNames states (w ++ cs) = destinationNames states cs := by
  unfold destinationNames
  simp only [trim_blank_append h]

theorem getLast?_of_isWord {cs : List Char} (h : TransitionLine.isWord cs = true) {c : Char}
    (hc : cs.getLast? = some c) : isClosing c = false :=
  not_closing_of_not_bracket (TransitionLine.plain_of_isWord h c (List.mem_of_getLast? hc))

theorem subsetName_map_chars (elements : List Element) :
    subsetName (elements.map Element.chars) = (StateToken.subset elements).name := by
  cases elements with
  | nil => rfl
  | cons e es =>
    have hjoin : '_' :: List.intercalate ['_'] ((e :: es).map Element.chars) =
        (e :: es).flatMap fun e => '_' :: e.chars := by
      induction es generalizing e with
      | nil => simp [List.intercalate_singleton]
      | cons f es ih =>
        rw [List.flatMap_cons, ← ih f, List.map_cons, List.map_cons, List.intercalate_cons_cons]
        simp
    exact congrArg ('q' :: ·) hjoin

theorem isPrefixOf_text_subset (elements : List Element) (gap : List Char) :
    subsetStart.isPrefixOf ((StateToken.subset elements).text gap) = true := by
  rw [List.isPrefixOf_iff_prefix]
  cases elements with
  | nil => exact List.prefix_append _ _
  | cons e es => exact List.prefix_append _ _

section

variable {gap : List Char} (hgap : allBlank gap = true)

include hgap

theorem setElements_text_subset (elements : List Element) :
    setElements (((StateToken.subset elements).text gap).drop 1) =
      some (elements.map Element.chars) := by
  cases elements with
  | nil => rfl
  | cons e es =>
    rw [StateToken.text_subset_cons]
    show setElements (frozensetWord ++ _) = _
    rw [setElements_frozenset, map_unquote_elementList hgap]

/-- Each token of a service names the state that it was written for. -/
theorem stateName_text (token : StateToken) : stateName (token.text gap) = token.name := by
  have htrim := (token.isItem_text hgap).trimmed
  cases token with
  | word w =>
    show stateName w.chars = w.chars
    rw [stateName_eq_trim, TransitionLine.trim_of_isWord w.proper]
    rw [TransitionLine.trim_of_isWord w.proper]
    exact fun c => getLast?_of_isWord w.proper
  | subset elements =>
    have hstarts := isPrefixOf_text_subset elements gap
    unfold stateName
    simp only [htrim, hstarts, setElements_text_subset hgap, if_true, subsetName_map_chars]

example : stateName "qfrozenset({0, 1})".toList = "q_0_1".toList := by decide

theorem Destination.trim_text (destination : Destination) :
    trim (destination.text gap) = destination.text gap := by
  cases destination with
  | state token => exact (token.isItem_text hgap).trimmed
  | set elements =>
    apply trim_eq_self
    · intro c hc
      cases hc
      decide
    · intro c hc
      rw [text, ← List.cons_append, ← List.cons_append, List.getLast?_concat] at hc
      cases hc
      decide

/-- A destination leads to the states that it was written for. -/
theorem destinationNames_text (states : OrderedSet StateName) (destination : Destination) :
    destinationNames states (destination.text gap) = destination.names states := by
  have htrim := destination.trim_text hgap
  match destination with
  | .state (.word w) =>
    have hword : trim w.chars = w.chars := TransitionLine.trim_of_isWord w.proper
    show destinationNames states w.chars = [w.chars]
    rw [destinationNames_eq_trim states, hword]
    rw [hword]
    exact fun c => getLast?_of_isWord w.proper
  | .state (.subset elements) =>
    have hstarts := isPrefixOf_text_subset elements gap
    have hstrip : stripStart ['q'] ((StateToken.subset elements).text gap) =
        some (((StateToken.subset elements).text gap).drop 1) := by
      cases elements <;> rfl
    have hnames : (setElements (((StateToken.subset elements).text gap).drop 1)) =
        some (elements.map Element.chars) := setElements_text_subset hgap elements
    have htrim' : trim ((StateToken.subset elements).text gap) =
        (StateToken.subset elements).text gap := htrim
    show destinationNames states ((StateToken.subset elements).text gap) = _
    unfold destinationNames
    simp only [htrim', hstarts, true_and, stateName_text hgap, hstrip,
      Option.bind_some, hnames, Destination.names, List.map_map, Function.comp_def]
  | .set elements =>
    have hstrip : stripStart ['q'] ((Destination.set elements).text gap) =
        some ('{' :: (elementList gap elements ++ ['}'])) := stripStart_append ['q'] _
    have hstarts : subsetStart.isPrefixOf ((Destination.set elements).text gap) = false := rfl
    unfold destinationNames
    simp only [htrim, hstarts, Bool.false_eq_true, false_and, if_false, hstrip, Option.bind_some,
      setElements_braces, map_unquote_elementList hgap, Destination.names, List.map_map,
      Function.comp_def]

end

/-! ## Names are words -/

theorem isWord_cons {c : Char} {cs : List Char} (hc : TransitionLine.isWordChar c = true)
    (hcs : ∀ d ∈ cs, TransitionLine.isWordChar d = true) : TransitionLine.isWord (c :: cs) = true := by
  rw [TransitionLine.isWord_iff]
  refine ⟨by simp, fun d hd => ?_⟩
  rcases List.mem_cons.mp hd with rfl | hd
  · exact hc
  · exact hcs d hd

theorem StateToken.isWord_name (token : StateToken) : TransitionLine.isWord token.name = true := by
  match token with
  | word w => exact w.proper
  | subset [] => rfl
  | subset (e :: es) =>
    apply isWord_cons (by decide)
    intro c hc
    obtain ⟨f, _, hf⟩ := List.mem_flatMap.mp hc
    rcases List.mem_cons.mp hf with rfl | hf
    · decide
    · exact isWordChar_of_isAlphanum (f.alphanumeric c hf)

theorem Destination.isWord_of_mem_names {destination : Destination} {states : OrderedSet StateName}
    {name : List Char} (h : name ∈ destination.names states) :
    TransitionLine.isWord name = true := by
  have helements : ∀ elements : List Element, name ∈ elements.map (fun e => 'q' :: e.chars) →
      TransitionLine.isWord name = true := by
    intro elements hname
    obtain ⟨e, _, rfl⟩ := List.mem_map.mp hname
    exact isWord_cons (by decide) fun c hc => isWordChar_of_isAlphanum (e.alphanumeric c hc)
  match destination with
  | .state (.word w) =>
    rw [Destination.names, List.mem_singleton] at h
    exact h ▸ w.proper
  | .state (.subset elements) =>
    rw [Destination.names] at h
    split at h
    · rw [List.mem_singleton] at h
      exact h ▸ StateToken.isWord_name _
    · exact helements elements h
  | .set elements => exact helements elements h

end Stepwise.Description
