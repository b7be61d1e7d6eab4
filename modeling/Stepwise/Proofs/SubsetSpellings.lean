-- The many spellings of a subset state. White space may stand around a token and
-- around its elements, and quotes around an element; the name does not show them,
-- and no two subsets share a name. White space next to the brackets themselves is
-- another matter: the literal is then read in another way, or not at all.
import Stepwise.Proofs.StateTokens

namespace Stepwise.Description

open Text TransitionLine

/-! ## Names of subsets -/

theorem Element.ext {e f : Element} (h : e.chars = f.chars) : e = f := by
  cases e
  cases f
  cases h
  rfl

/-- The element whose subset would have the name of the empty subset. -/
def emptyElement : Element := ⟨['e', 'm', 'p', 't', 'y'], by decide, List.all_eq_true.mp rfl⟩

theorem Element.underscore_not_mem (e : Element) : '_' ∉ e.chars := by
  intro h
  exact absurd (e.alphanumeric '_' h) (by decide)

/-- What the elements make of a name can be taken apart again. -/
theorem eq_of_flatMap_chars_eq {xs ys : List Element}
    (h : (xs.flatMap fun e => '_' :: e.chars) = ys.flatMap fun e => '_' :: e.chars) : xs = ys := by
  induction xs generalizing ys with
  | nil =>
    cases ys with
    | nil => rfl
    | cons y ys => cases h
  | cons x xs ih =>
    cases ys with
    | nil => cases h
    | cons y ys =>
      rw [List.flatMap_cons, List.flatMap_cons, List.cons_append, List.cons_append,
        List.cons.injEq] at h
      -- an underscore ends the first element
      have hall : ∀ e : Element, ∀ c ∈ e.chars, decide (c ≠ '_') = true := by
        intro e c hc
        rw [decide_eq_true_eq]
        rintro rfl
        exact e.underscore_not_mem hc
      have hstop : ∀ zs : List Element, ∀ c, (zs.flatMap fun e => '_' :: e.chars).head? = some c →
          decide (c ≠ '_') = false := by
        intro zs c hc
        cases zs with
        | nil => cases hc
        | cons z zs =>
          cases hc
          rfl
      have hfirst := congrArg (List.takeWhile fun c => decide (c ≠ '_')) h.2
      have hrest := congrArg (List.dropWhile fun c => decide (c ≠ '_')) h.2
      rw [takeWhile_append_exact (hall x) (hstop xs), takeWhile_append_exact (hall y) (hstop ys)]
        at hfirst
      rw [dropWhile_append_exact (hall x) (hstop xs), dropWhile_append_exact (hall y) (hstop ys)]
        at hrest
      rw [Element.ext hfirst, ih hrest]

/-- Subsets have the same name only if they have the same elements, but for the
empty one and that of the word `empty`. -/
theorem StateToken.name_subset_inj {xs ys : List Element} (hxs : xs ≠ [emptyElement])
    (hys : ys ≠ [emptyElement]) : (subset xs).name = (subset ys).name ↔ xs = ys := by
  refine ⟨fun h => ?_, fun h => by rw [h]⟩
  have hempty : (subset []).name = (subset [emptyElement]).name := rfl
  have hcons : ∀ {z w : Element} {zs ws : List Element},
      (subset (z :: zs)).name = (subset (w :: ws)).name → z :: zs = w :: ws := by
    intro z w zs ws heq
    exact eq_of_flatMap_chars_eq (List.cons.inj heq).2
  match xs, ys with
  | [], [] => rfl
  | [], y :: ys =>
    rw [hempty] at h
    exact absurd (hcons h).symm hys
  | x :: xs, [] =>
    rw [hempty] at h
    exact absurd (hcons h) hxs
  | x :: xs, y :: ys => exact hcons h

/-! ## Spellings -/

/-- White space of any length. -/
structure Gap where
  chars : List Char
  blank : allBlank chars = true

/-- An element with quotes directly around it and white space outside of them. -/
structure SpelledElement where
  before : Gap
  opening : List Char
  element : Element
  closing : List Char
  after : Gap
  opening_quotes : ∀ c ∈ opening, isQuote c = true
  closing_quotes : ∀ c ∈ closing, isQuote c = true

/-- An element without quotes. -/
def SpelledElement.bare (before : Gap) (element : Element) (after : Gap) : SpelledElement where
  before := before
  opening := []
  element := element
  closing := []
  after := after
  opening_quotes := by simp
  closing_quotes := by simp

/-- The element in its quotes. -/
def SpelledElement.quoted (e : SpelledElement) : List Char :=
  e.opening ++ (e.element.chars ++ e.closing)

def SpelledElement.text (e : SpelledElement) : List Char :=
  e.before.chars ++ e.quoted ++ e.after.chars

/-- What stands between the parentheses of a subset: nothing, or its elements in
braces, with white space outside of the braces and behind the first one. -/
inductive Arguments where
  | bare (gap : Gap)
  | braced (outerStart innerStart : Gap) (elements : List SpelledElement) (outerEnd : Gap)

namespace Arguments

def elements : Arguments → List Element
  | bare _ => []
  | braced _ _ es _ => es.map SpelledElement.element

/-- The elements between the braces. -/
def innerText (start : Gap) (es : List SpelledElement) : List Char :=
  start.chars ++ List.intercalate [','] (es.map SpelledElement.text)

def text : Arguments → List Char
  | bare gap => gap.chars
  | braced outerStart innerStart es outerEnd =>
    outerStart.chars ++ ('{' :: (innerText innerStart es ++ ['}'])) ++ outerEnd.chars

theorem text_braced (outerStart innerStart : Gap) (es : List SpelledElement) (outerEnd : Gap) :
    (braced outerStart innerStart es outerEnd).text =
      outerStart.chars ++ ('{' :: (innerText innerStart es ++ ['}'])) ++ outerEnd.chars := rfl

/-- There is no white space between the parentheses and the braces. -/
def Tight : Arguments → Prop
  | bare _ => True
  | braced outerStart _ _ outerEnd => outerStart.chars = [] ∧ outerEnd.chars = []

end Arguments

/-- A subset token, with white space wherever its spelling leaves room for it. -/
structure Spelling where
  start : Gap
  wordGap : Gap
  arguments : Arguments
  stop : Gap

namespace Spelling

def elements (s : Spelling) : List Element := s.arguments.elements

/-- The token without the white space around it. -/
def token (s : Spelling) : List Char :=
  subsetStart ++ s.wordGap.chars ++ '(' :: (s.arguments.text ++ [')'])

def text (s : Spelling) : List Char := s.start.chars ++ s.token ++ s.stop.chars

/-- There is no white space between the word, the parentheses and the braces. -/
def Tight (s : Spelling) : Prop := s.wordGap.chars = [] ∧ s.arguments.Tight

end Spelling

/-! ## Elements in quotes -/

namespace SpelledElement

variable (e : SpelledElement)

theorem mem_quoted {c : Char} (hc : c ∈ e.quoted) : isQuote c = true ∨ c ∈ e.element.chars := by
  unfold quoted at hc
  rw [List.mem_append, List.mem_append] at hc
  rcases hc with hc | hc | hc
  · exact Or.inl (e.opening_quotes c hc)
  · exact Or.inr hc
  · exact Or.inl (e.closing_quotes c hc)

theorem quoted_char {c : Char} (hc : c ∈ e.quoted) :
    isBracket c = false ∧ isBlank c = false ∧ c ≠ ',' := by
  rcases e.mem_quoted hc with hquote | hchar
  · exact not_bracket_of_isQuote hquote
  · have hword := isWordChar_of_isAlphanum (e.element.alphanumeric c hchar)
    refine ⟨plain_of_isWord e.element.isWord c hchar, not_blank_of_isWordChar hword, ?_⟩
    rintro rfl
    exact absurd hword (by decide)

theorem unquote_quoted : unquote e.quoted = e.element.chars := by
  have hchar : ∀ c ∈ e.element.chars, isQuote c = false :=
    fun c hc => not_isQuote_of_isAlphanum (e.element.alphanumeric c hc)
  have hne := e.element.ne_nil
  have hopen : (e.opening ++ (e.element.chars ++ e.closing)).dropWhile isQuote =
      e.element.chars ++ e.closing := by
    apply dropWhile_append_exact e.opening_quotes
    intro c hc
    rw [List.head?_append_of_ne_nil _ hne] at hc
    exact hchar c (List.mem_of_head? hc)
  have hclose : (e.element.chars ++ e.closing).reverse.dropWhile isQuote =
      e.element.chars.reverse := by
    rw [List.reverse_append]
    apply dropWhile_append_exact
    · exact fun c hc => e.closing_quotes c (List.mem_reverse.mp hc)
    · exact fun c hc => hchar c (List.mem_reverse.mp (List.mem_of_head? hc))
  unfold unquote quoted
  rw [hopen, hclose, List.reverse_reverse]

theorem trim_text : trim e.text = e.quoted := by
  unfold text
  rw [trim_append_blank e.after.blank, trim_blank_append e.before.blank]
  exact trim_eq_self_of_forall fun c hc => (e.quoted_char hc).2.1

theorem quoted_ne_nil : e.quoted ≠ [] := by
  simp [quoted, e.element.ne_nil]

theorem whole_text : Whole 0 e.text := by
  have hquoted : Whole 0 e.quoted :=
    whole_of_plain (fun c hc => (e.quoted_char hc).1) fun _ h => (e.quoted_char h).2.2 rfl
  exact ((whole_of_allBlank e.before.blank).append hquoted).append (whole_of_allBlank e.after.blank)

theorem listItems_text : listItems e.text = [e.quoted] := by
  have hblank : allBlank e.text = false := by
    rw [← trim_ne_nil_iff, e.trim_text]
    exact e.quoted_ne_nil
  rw [listItems_of_no_comma e.whole_text.no_comma, hblank, if_neg Bool.false_ne_true, e.trim_text]

theorem plain_text : Plain e.text := by
  intro c hc
  unfold text at hc
  rw [List.mem_append, List.mem_append] at hc
  rcases hc with (hc | hc) | hc
  · exact plain_of_allBlank e.before.blank c hc
  · exact (e.quoted_char hc).1
  · exact plain_of_allBlank e.after.blank c hc

end SpelledElement

/-! ## What stands between the parentheses -/

namespace Arguments

variable {innerStart : Gap} {es : List SpelledElement}

theorem plain_innerText : Plain (innerText innerStart es) := by
  intro c hc
  rcases List.mem_append.mp hc with hc | hc
  · exact plain_of_allBlank innerStart.blank c hc
  · rcases mem_of_mem_intercalate hc with hcomma | ⟨text, htext, hc⟩
    · rw [List.mem_singleton.mp hcomma]
      rfl
    · obtain ⟨e, -, rfl⟩ := List.mem_map.mp htext
      exact e.plain_text c hc

/-- The white space does not show, and neither do the quotes. -/
theorem map_unquote_innerText :
    (listItems (innerText innerStart es)).map unquote = es.map fun e => e.element.chars := by
  have hwhole : ∀ p ∈ es.map SpelledElement.text, Whole 0 p := by
    intro p hp
    obtain ⟨e, -, rfl⟩ := List.mem_map.mp hp
    exact e.whole_text
  unfold innerText
  rw [listItems_blank_append innerStart.blank, listItems_join hwhole]
  induction es with
  | nil => rfl
  | cons e es ih => simp_all [SpelledElement.listItems_text, SpelledElement.unquote_quoted]

/-- The elements in their braces, as one element of a list. -/
theorem isItem_braces : IsItem ('{' :: (innerText innerStart es ++ ['}'])) where
  whole := by
    have hinner : Whole 1 (innerText innerStart es) :=
      whole_of_plain plain_innerText fun h => by cases h
    exact hinner.enclose rfl rfl
  trimmed := by
    apply trim_eq_self
    · intro c hc
      cases hc
      decide
    · intro c hc
      rw [← List.cons_append, List.getLast?_concat] at hc
      cases hc
      decide
  ne_nil := by simp

theorem unquote_braces : unquote ('{' :: (innerText innerStart es ++ ['}'])) =
    '{' :: (innerText innerStart es ++ ['}']) := by
  have hstart : ('{' :: (innerText innerStart es ++ ['}'])).dropWhile isQuote =
      '{' :: (innerText innerStart es ++ ['}']) := List.dropWhile_cons_of_neg (by decide)
  unfold unquote
  rw [hstart, ← List.cons_append, List.reverse_append, List.reverse_singleton,
    List.singleton_append, List.dropWhile_cons_of_neg (by decide), List.reverse_cons,
    List.reverse_reverse]

theorem stripStart_eq_none_of_head? {c : Char} {cs : List Char} (h : cs.head? ≠ some c) :
    stripStart [c] cs = none := by
  cases cs with
  | nil => rfl
  | cons d cs =>
    apply stripStart_eq_none
    rintro rfl
    exact h rfl

/-- Blank text neither starts nor ends a literal in braces. -/
theorem not_brace_of_blank {w : List Char} (h : allBlank w = true) :
    w.head? ≠ some '{' ∧ w.getLast? ≠ some '}' := by
  constructor
  · intro hhead
    exact not_mem_of_allBlank h (c := '{') (by decide) (List.mem_of_head? hhead)
  · intro hlast
    exact not_mem_of_allBlank h (c := '}') (by decide) (List.mem_of_getLast? hlast)

theorem setElements_bare (gap : Gap) :
    setElements (frozensetWord ++ '(' :: ((bare gap).text ++ [')'])) = some [] := by
  have hstart : stripStart ['{'] gap.chars = none :=
    stripStart_eq_none_of_head? (not_brace_of_blank gap.blank).1
  rw [setElements_parentheses]
  show some ((listItems (((stripStart ['{'] gap.chars).bind (stripLast '}')).getD gap.chars)).map
    unquote) = some []
  rw [hstart, Option.bind_none, Option.getD_none, listItems_of_allBlank gap.blank]
  rfl

/-- Directly between the parentheses, the braces are taken off. -/
theorem setElements_tight {outerStart outerEnd : Gap}
    (h : (braced outerStart innerStart es outerEnd).Tight) :
    setElements (frozensetWord ++ '(' :: ((braced outerStart innerStart es outerEnd).text ++ [')'])) =
      some (es.map fun e => e.element.chars) := by
  obtain ⟨hstart, hend⟩ := h
  have htext : (braced outerStart innerStart es outerEnd).text =
      '{' :: (innerText innerStart es ++ ['}']) := by
    rw [text_braced, hstart, hend, List.nil_append, List.append_nil]
  rw [htext, setElements_frozenset, map_unquote_innerText]

/-- With white space outside of the braces, they stay and make one element. -/
theorem setElements_loose {outerStart outerEnd : Gap}
    (h : ¬(braced outerStart innerStart es outerEnd).Tight) :
    setElements (frozensetWord ++ '(' :: ((braced outerStart innerStart es outerEnd).text ++ [')'])) =
      some ['{' :: (innerText innerStart es ++ ['}'])] := by
  have hargs : (stripStart ['{'] (braced outerStart innerStart es outerEnd).text).bind
      (stripLast '}') = none := by
    rw [text_braced]
    by_cases hstart : outerStart.chars = []
    · have hend : outerEnd.chars ≠ [] := fun hend => h ⟨hstart, hend⟩
      have hbrace : stripStart ['{']
          ('{' :: (innerText innerStart es ++ ['}']) ++ outerEnd.chars) =
            some (innerText innerStart es ++ ['}'] ++ outerEnd.chars) := stripStart_append ['{'] _
      rw [hstart, List.nil_append, hbrace, Option.bind_some]
      apply stripLast_eq_none
      rw [List.getLast?_append_of_ne_nil _ hend]
      exact (not_brace_of_blank outerEnd.blank).2
    · rw [stripStart_eq_none_of_head?, Option.bind_none]
      rw [List.append_assoc, List.head?_append_of_ne_nil _ hstart]
      exact (not_brace_of_blank outerStart.blank).1
  have hitem : IsItem ('{' :: (innerText innerStart es ++ ['}'])) := isItem_braces
  have hwhole : Whole 0 (braced outerStart innerStart es outerEnd).text :=
    ((whole_of_allBlank outerStart.blank).append hitem.whole).append
      (whole_of_allBlank outerEnd.blank)
  have htrim : trim (braced outerStart innerStart es outerEnd).text =
      '{' :: (innerText innerStart es ++ ['}']) := by
    rw [text_braced, trim_append_blank outerEnd.blank, trim_blank_append outerStart.blank, hitem.trimmed]
  have hblank : allBlank (braced outerStart innerStart es outerEnd).text = false := by
    rw [← trim_ne_nil_iff, htrim]
    exact List.cons_ne_nil _ _
  rw [setElements_parentheses, hargs, Option.getD_none, listItems_of_no_comma hwhole.no_comma,
    hblank, if_neg Bool.false_ne_true, htrim, List.map_singleton, unquote_braces]

end Arguments

/-! ## The name of a spelling -/

namespace Spelling

variable (s : Spelling)

theorem trim_token : trim s.token = s.token := by
  apply trim_eq_self
  · intro c hc
    cases hc
    decide
  · intro c hc
    unfold token at hc
    rw [← List.cons_append, ← List.append_assoc, List.getLast?_concat] at hc
    cases hc
    decide

theorem stateName_eq : stateName s.text =
    ((setElements (frozensetWord ++ s.wordGap.chars ++ '(' :: (s.arguments.text ++ [')']))).map
      subsetName).getD s.token := by
  have htrim : trim s.text = s.token := by
    unfold text
    rw [trim_append_blank s.stop.blank, trim_blank_append s.start.blank, s.trim_token]
  have hstarts : subsetStart.isPrefixOf s.token = true := by
    rw [List.isPrefixOf_iff_prefix]
    unfold token
    rw [List.append_assoc]
    exact List.prefix_append _ _
  have hdrop : s.token.drop 1 =
      frozensetWord ++ s.wordGap.chars ++ '(' :: (s.arguments.text ++ [')']) := rfl
  unfold stateName
  simp only [htrim, hstarts, hdrop, if_true]
  cases setElements (frozensetWord ++ s.wordGap.chars ++ '(' :: (s.arguments.text ++ [')'])) <;> rfl

/-- White space behind the word hides the set from the reader. -/
theorem stateName_of_wordGap (h : s.wordGap.chars ≠ []) : stateName s.text = s.token := by
  have hword : '(' ∉ frozensetWord ++ s.wordGap.chars := by
    rw [List.mem_append, not_or]
    exact ⟨by decide, not_mem_of_allBlank s.wordGap.blank (by decide)⟩
  have hset : frozensetWord ++ s.wordGap.chars ≠ setWord := fun he => by
    have hlength : 9 + s.wordGap.chars.length = 3 := by
      simpa [frozensetWord, setWord] using congrArg List.length he
    omega
  have hfrozen : frozensetWord ++ s.wordGap.chars ≠ frozensetWord := by simpa using h
  have hnone : setElements
      (frozensetWord ++ s.wordGap.chars ++ '(' :: (s.arguments.text ++ [')'])) = none := by
    have hstart : stripStart ['{']
        (frozensetWord ++ s.wordGap.chars ++ '(' :: (s.arguments.text ++ [')'])) = none :=
      stripStart_eq_none (by decide) _
    unfold setElements setBody
    rw [hstart, cutAt_append hword]
    simp only [Option.bind_some, hset, hfrozen, or_self, if_false, Option.map_none]
  rw [stateName_eq, hnone, Option.map_none, Option.getD_none]

theorem stateName_of_tight (h : s.Tight) :
    stateName s.text = (StateToken.subset s.elements).name := by
  obtain ⟨hgap, hargs⟩ := h
  rw [stateName_eq, hgap, List.append_nil, ← subsetName_map_chars]
  unfold elements
  cases harguments : s.arguments with
  | bare gap =>
    rw [Arguments.setElements_bare]
    rfl
  | braced outerStart innerStart es outerEnd =>
    rw [harguments] at hargs
    rw [Arguments.setElements_tight hargs]
    simp only [Arguments.elements, List.map_map, Function.comp_def, Option.map_some,
      Option.getD_some]

/-- A bracket that stays in the name makes it no name. -/
theorem isWord_stateName_of_not_tight (h : ¬s.Tight) : isWord (stateName s.text) = false := by
  have hbracket : ∀ {cs : List Char} (c : Char), isWordChar c = false → c ∈ cs →
      isWord cs = false := by
    intro cs c hc hmem
    rw [Bool.eq_false_iff]
    exact fun hword => not_mem_of_isWord hword hc hmem
  by_cases hgap : s.wordGap.chars = []
  · have hargs : ¬s.arguments.Tight := fun hargs => h ⟨hgap, hargs⟩
    cases harguments : s.arguments with
    | bare gap =>
      rw [harguments] at hargs
      exact absurd trivial hargs
    | braced outerStart innerStart es outerEnd =>
      rw [harguments] at hargs
      rw [stateName_eq, hgap, List.append_nil, harguments, Arguments.setElements_loose hargs]
      apply hbracket '{' (by decide)
      simp [subsetName]
  · rw [s.stateName_of_wordGap hgap]
    apply hbracket '(' (by decide)
    simp [token]

/-- Spellings without white space next to the parentheses, and no others, are read
as names. -/
theorem isWord_stateName_iff : isWord (stateName s.text) = true ↔ s.Tight := by
  constructor
  · intro h
    by_contra htight
    rw [s.isWord_stateName_of_not_tight htight] at h
    cases h
  · intro h
    rw [s.stateName_of_tight h]
    exact StateToken.isWord_name _

end Spelling

/-! ## No two subsets share a name -/

/-- However two subsets are spelled without white space next to the parentheses,
they have the same name only if they are the same, and this name can stand on
either side of a line. With white space there, a token is no name at all. -/
theorem subset_states_are_never_merged (s t : Spelling) (hs : s.Tight) (ht : t.Tight)
    (hxs : s.elements ≠ [emptyElement]) (hys : t.elements ≠ [emptyElement]) :
    (stateName s.text = stateName t.text ↔ s.elements = t.elements) ∧
    (∀ u : Spelling, isWord (stateName u.text) = true ↔ u.Tight) ∧
    ∀ symbol : List Char, trim symbol = symbol → symbol ≠ [] → '\n' ∉ symbol →
      TransitionText.parse (write ⟨String.ofList (stateName s.text), String.ofList symbol,
          String.ofList (stateName t.text)⟩) =
        ⟨.ofTriples [⟨String.ofList (stateName s.text), String.ofList symbol,
          String.ofList (stateName t.text)⟩], []⟩ := by
  refine ⟨?_, Spelling.isWord_stateName_iff, fun symbol htrim hne hline => ?_⟩
  · rw [s.stateName_of_tight hs, t.stateName_of_tight ht, StateToken.name_subset_inj hxs hys]
  · exact TransitionText.parse_write (s.isWord_stateName_iff.mpr hs) htrim hne hline
      (t.isWord_stateName_iff.mpr ht)

def Gap.none : Gap := ⟨[], rfl⟩

def Gap.space : Gap := ⟨[' '], by decide⟩

def zero : Element := ⟨['0'], by decide, List.all_eq_true.mp rfl⟩

def one : Element := ⟨['1'], by decide, List.all_eq_true.mp rfl⟩

/-- White space around the token, behind the brace and around the elements, and two
kinds of quotes around one of them. -/
def airy : Spelling where
  start := .space
  wordGap := .none
  arguments := .braced .none .space
    [⟨.space, ['\''], zero, ['"'], .space, List.all_eq_true.mp rfl, List.all_eq_true.mp rfl⟩,
      .bare .none one .space] .none
  stop := .space

def emptySubset : Spelling := ⟨.none, .none, .bare .space, .none⟩

theorem airy_and_emptySubset_are_kept_apart :
    airy.text = " qfrozenset(\x7b  '0\" ,1 \x7d) ".toList ∧
    emptySubset.text = "qfrozenset( )".toList ∧ airy.Tight ∧ emptySubset.Tight ∧
    airy.elements ≠ [emptyElement] ∧ emptySubset.elements ≠ [emptyElement] ∧
    airy.elements ≠ emptySubset.elements ∧ stateName airy.text ≠ stateName emptySubset.text ∧
    (TransitionText.parse (write ⟨String.ofList (stateName airy.text), "a",
      String.ofList (stateName emptySubset.text)⟩)).warnings = [] := by
  have htight : airy.Tight := ⟨rfl, rfl, rfl⟩
  have htight' : emptySubset.Tight := ⟨rfl, trivial⟩
  have hairy : airy.elements ≠ [emptyElement] := fun h => by
    have hlength : 2 = 1 := congrArg List.length h
    omega
  have hempty : emptySubset.elements ≠ [emptyElement] := (List.cons_ne_nil _ _).symm
  have hne : airy.elements ≠ emptySubset.elements := List.cons_ne_nil _ _
  obtain ⟨hname, -, hparse⟩ :=
    subset_states_are_never_merged airy emptySubset htight htight' hairy hempty
  have hwritten := congrArg TransitionText.warnings (hparse ['a'] (by decide) (by decide) (by decide))
  exact ⟨by decide, by decide, htight, htight', hairy, hempty, hne, fun h => hne (hname.mp h),
    hwritten⟩

/-- Two elements as they are, with a space in front of the brace. -/
def loose : Spelling where
  start := .none
  wordGap := .none
  arguments := .braced .space .none
    [.bare .none zero .none, .bare .space one .none] .none
  stop := .none

/-- Two spellings of one subset that differ in quotes and white space alone have
different names, and one of them is no name. -/
theorem loose_is_another_state_than_airy :
    loose.text = "qfrozenset( \x7b0, 1\x7d)".toList ∧ loose.elements = airy.elements ∧
    loose.elements ≠ [emptyElement] ∧ stateName loose.text = "q_\x7b0, 1\x7d".toList ∧
    stateName airy.text = "q_0_1".toList ∧ stateName loose.text ≠ stateName airy.text ∧
    isWord (stateName loose.text) = false := by
  refine ⟨by decide, rfl, fun h => ?_, by decide, by decide, by decide, by decide⟩
  have hlength : 2 = 1 := congrArg List.length h
  omega

end Stepwise.Description
