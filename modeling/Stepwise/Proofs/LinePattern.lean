-- The pattern of a transition line, searched for with backtracking and with a
-- symbol that is as short as will do. It matches the lines that are spelled as
-- transitions and captures what they spell, so it says the same as reading a
-- line from its two ends.
import Stepwise.Proofs.LineSpelling
import Stepwise.Proofs.PatternSearch

namespace Stepwise.TransitionLine

open Text

/-! ## The pattern of a line -/

/-- A name with any white space around it. -/
def namePattern : List Piece := [.most 0 isBlank, .most 1 isWordChar, .most 0 isBlank]

/-- White space, an arrow and a name. -/
def arrowPattern : List Piece :=
  [.most 0 isBlank, .oneOf [Arrow.letters.text, Arrow.sign.text]] ++ namePattern

/-- White space and a symbol that goes no further than it has to. -/
def tailPattern : List Piece := .most 0 isBlank :: .fewest 1 (· ≠ '\n') :: arrowPattern

def linePattern : List Piece := namePattern ++ .oneOf [[',']] :: tailPattern

/-- The three pieces of a match that name a transition. -/
def captured : List (List Char) → Option Triple
  | [_, source, _, _, _, symbol, _, _, _, target, _] =>
    some ⟨String.ofList source, String.ofList symbol, String.ofList target⟩
  | _ => none

/-- The transition of a line that the pattern matches. -/
def matched (line : List Char) : Option Triple := (search linePattern line).bind captured

/-! ## What the pattern covers -/

theorem fits_blank_iff {cs : List Char} : (Piece.most 0 isBlank).Fits cs ↔ allBlank cs = true := by
  rw [allBlank_iff]
  exact and_iff_right (Nat.zero_le _)

theorem fits_word_iff {cs : List Char} : (Piece.most 1 isWordChar).Fits cs ↔ isWord cs = true := by
  rw [isWord_iff]
  exact and_congr_left fun _ => List.length_pos_iff

theorem fits_symbol_iff {cs : List Char} :
    (Piece.fewest 1 (· ≠ '\n')).Fits cs ↔ cs ≠ [] ∧ '\n' ∉ cs := by
  unfold Piece.Fits
  simp only [decide_eq_true_eq]
  refine and_congr List.length_pos_iff ⟨fun h hmem => h '\n' hmem rfl, ?_⟩
  rintro h c hc rfl
  exact h hc

theorem fits_arrow_iff {cs : List Char} :
    (Piece.oneOf [Arrow.letters.text, Arrow.sign.text]).Fits cs ↔ ∃ arrow : Arrow, cs = arrow.text := by
  unfold Piece.Fits
  simp only [List.mem_cons, List.not_mem_nil, or_false]
  constructor
  · rintro (h | h)
    · exact ⟨.letters, h⟩
    · exact ⟨.sign, h⟩
  · rintro ⟨arrow, h⟩
    cases arrow with
    | sign => exact Or.inr h
    | letters => exact Or.inl h

theorem covers_name_iff {text : List Char} {parts : List (List Char)} :
    Covers namePattern text parts ↔
      ∃ n : Padded, n.text = text ∧ parts = [n.before, n.word, n.after] := by
  unfold namePattern
  simp only [covers_cons_iff, covers_nil_iff, fits_blank_iff, fits_word_iff]
  constructor
  · rintro ⟨v, _, _, rfl, hv, ⟨word, _, _, rfl, hword, ⟨w, _, _, rfl, hw, ⟨rfl, rfl⟩, rfl⟩, rfl⟩, rfl⟩
    refine ⟨⟨v, word, w, hv, hword, hw⟩, ?_, rfl⟩
    rw [List.append_nil]
    rfl
  · rintro ⟨n, rfl, rfl⟩
    exact ⟨n.before, n.word ++ n.after, _, rfl, n.before_blank, ⟨n.word, n.after, _, rfl, n.word_isWord,
      ⟨n.after, [], [], List.append_nil _, n.after_blank, ⟨rfl, rfl⟩, rfl⟩, rfl⟩, rfl⟩

theorem covers_arrow_iff {text : List Char} {parts : List (List Char)} :
    Covers arrowPattern text parts ↔ ∃ (w : List Char) (arrow : Arrow) (n : Padded),
      allBlank w = true ∧ w ++ (arrow.text ++ n.text) = text ∧
        parts = [w, arrow.text, n.before, n.word, n.after] := by
  unfold arrowPattern
  rw [List.cons_append, List.singleton_append]
  simp only [covers_cons_iff, fits_blank_iff, fits_arrow_iff, covers_name_iff]
  constructor
  · rintro ⟨w, _, _, rfl, hw, ⟨_, _, _, rfl, ⟨arrow, rfl⟩, ⟨n, rfl, rfl⟩, rfl⟩, rfl⟩
    exact ⟨w, arrow, n, hw, rfl, rfl⟩
  · rintro ⟨w, arrow, n, hw, rfl, rfl⟩
    exact ⟨w, _, _, rfl, hw, ⟨arrow.text, _, _, rfl, ⟨arrow, rfl⟩, ⟨n, rfl, rfl⟩, rfl⟩, rfl⟩

theorem search_arrow_isSome (w : List Char) (hw : allBlank w = true) (arrow : Arrow) (n : Padded) :
    (search arrowPattern (w ++ (arrow.text ++ n.text))).isSome = true :=
  search_isSome_iff.mpr ⟨_, covers_arrow_iff.mpr ⟨w, arrow, n, hw, rfl, rfl⟩⟩

theorem search_symbol_isSome {m : List Char} (hm : m ≠ []) (hnl : '\n' ∉ m) (arrow : Arrow)
    (n : Padded) : (search (.fewest 1 (· ≠ '\n') :: arrowPattern)
      (m ++ (arrow.text ++ n.text))).isSome = true := by
  obtain ⟨parts, hparts⟩ := search_isSome_iff.mp (search_arrow_isSome [] rfl arrow n)
  exact search_isSome_iff.mpr
    ⟨m :: parts, covers_cons_iff.mpr ⟨m, _, parts, rfl, fits_symbol_iff.mpr ⟨hm, hnl⟩, hparts, rfl⟩⟩

/-! ## What the pattern captures -/

/-- Of the ways to leave blank text on both sides of a symbol, one is taken
that leaves most in front, and of these one with the shortest symbol. -/
theorem eq_symbolOf {between v m w : List Char} (hbetween : v ++ (m ++ w) = between)
    (hv : allBlank v = true) (hm : m ≠ []) (hw : allBlank w = true)
    (hmost : ∀ v' x, v' ++ x = between → allBlank v' = true → x ≠ [] → v'.length ≤ v.length)
    (hfewest : ∀ m' w', m' ++ w' = m ++ w → m' ≠ [] → allBlank w' = true →
      m.length ≤ m'.length) : m = symbolOf between := by
  subst hbetween
  cases hblank : allBlank (m ++ w) with
  | true =>
    -- all but the last character stands in front
    have hne : v ++ (m ++ w) ≠ [] := by simp [hm]
    have hall : allBlank (v ++ (m ++ w)) = true := by rw [allBlank_append, hv, hblank]; rfl
    have hinit : allBlank (v ++ (m ++ w)).dropLast = true :=
      allBlank_iff.mpr fun c hc => allBlank_iff.mp hall c ((List.dropLast_sublist _).mem hc)
    have hlength := hmost (v ++ (m ++ w)).dropLast [(v ++ (m ++ w)).getLast hne]
      (List.dropLast_append_getLast hne) hinit (by simp)
    have hpos := List.length_pos_iff.mpr hm
    rw [List.length_dropLast, List.length_append, List.length_append] at hlength
    have hw0 : w = [] := List.eq_nil_of_length_eq_zero (by omega)
    have hm1 : m.length = 1 := by omega
    subst hw0
    unfold symbolOf
    rw [if_pos hall, List.append_nil, List.length_append, hm1, Nat.add_sub_cancel, List.drop_left]
  | false =>
    -- all the white space stands in front, and what is left of it behind
    have hnot : allBlank (v ++ (m ++ w)) = false := by rw [allBlank_append, hblank, Bool.and_false]
    obtain ⟨u, hu, hstart⟩ := exists_eq_trimStart (m ++ w)
    have hstartne : trimStart (m ++ w) ≠ [] := by
      rw [Ne, trimStart_eq_nil_iff, hblank]
      exact Bool.false_ne_true
    have hvu : (v ++ u).length ≤ v.length := by
      refine hmost (v ++ u) (trimStart (m ++ w)) ?_ ?_ hstartne
      · rw [List.append_assoc, ← hstart]
      · rw [allBlank_append, hv, hu]
        rfl
    have hu0 : u = [] := by
      rw [List.length_append] at hvu
      exact List.eq_nil_of_length_eq_zero (by omega)
    rw [hu0, List.nil_append] at hstart
    have hmblank : allBlank m = false := by
      rw [allBlank_append, hw, Bool.and_true] at hblank
      exact hblank
    obtain ⟨z, hz, hend⟩ := exists_eq_trimEnd m
    have hm' : m.length ≤ (trimEnd m).length := by
      refine hfewest (trimEnd m) (z ++ w) ?_ ?_ ?_
      · rw [← List.append_assoc, ← hend]
      · rw [Ne, trimEnd_eq_nil_iff, hmblank]
        exact Bool.false_ne_true
      · rw [allBlank_append, hz, hw]
        rfl
    have hz0 : z = [] := by
      have hsum := congrArg List.length hend
      rw [List.length_append] at hsum
      exact List.eq_nil_of_length_eq_zero (by omega)
    rw [hz0, List.append_nil] at hend
    rw [symbolOf_of_not_blank hnot, trim_blank_append hv]
    unfold trim
    rw [← hstart, trimEnd_append_blank hw, ← hend]

theorem parts_of_search_tail {between : List Char} {arrow : Arrow} {n : Padded}
    {parts : List (List Char)} (hnl : '\n' ∉ between)
    (h : search tailPattern (between ++ (arrow.text ++ n.text)) = some parts) :
    ∃ v w, parts = [v, symbolOf between, w, arrow.text, n.before, n.word, n.after] := by
  obtain ⟨v, left, ps, ⟨hv, hvblank⟩, hps, rfl, hmost⟩ := search_most h
  obtain ⟨m, left', qs, ⟨rfl, hm⟩, hqs, rfl, hfewest⟩ := search_fewest hps
  obtain ⟨w, arrow', n', hw, rfl, rfl⟩ := covers_arrow_iff.mp (covers_of_search hqs)
  -- the arrow that was found is the one that is there
  have hsame : (v ++ (m ++ w)) ++ (arrow'.text ++ n'.text) = between ++ (arrow.text ++ n.text) := by
    rw [← hv]
    simp only [List.append_assoc]
  obtain ⟨hbetween, rfl, rfl⟩ := eq_of_arrow hsame
  refine ⟨v, w, ?_⟩
  rw [eq_symbolOf hbetween (fits_blank_iff.mp hvblank) (fits_symbol_iff.mp hm).1 hw ?_ ?_]
  · intro v' x hx hv' hne
    refine hmost v' (x ++ (arrow'.text ++ n'.text)) ?_ (fits_blank_iff.mpr hv') ?_
    · rw [← hx, List.append_assoc]
    · refine search_symbol_isSome hne (fun hmem => hnl ?_) arrow' n'
      rw [← hx]
      exact List.mem_append_right v' hmem
  · intro m' w' hx hne hw'
    refine hfewest m' (w' ++ (arrow'.text ++ n'.text)) ?_ (fits_symbol_iff.mpr ⟨hne, ?_⟩) ?_
    · rw [← List.append_assoc, hx, List.append_assoc]
    · intro hmem
      refine hnl ?_
      rw [← hbetween, ← hx]
      exact List.mem_append_right v (List.mem_append_left w' hmem)
    · exact search_arrow_isSome w' hw' arrow' n'

theorem search_line_isSome {s : Spelling} (hnl : '\n' ∉ s.text) :
    (search linePattern s.text).isSome = true := by
  have hbetween := s.not_mem_between hnl
  rw [s.text_eq]
  obtain ⟨ps, hps⟩ :=
    search_isSome_iff.mp (search_symbol_isSome s.between_ne_nil hbetween s.arrow s.target)
  have htail : Covers tailPattern (s.between ++ (s.arrow.text ++ s.target.text)) ([] :: ps) :=
    covers_cons_iff.mpr ⟨[], _, ps, rfl, fits_blank_iff.mpr rfl, hps, rfl⟩
  refine search_isSome_iff.mpr ⟨_, covers_append_iff.mpr ⟨s.source.text, _, _, _, rfl,
    covers_name_iff.mpr ⟨s.source, rfl, rfl⟩, covers_cons_iff.mpr ⟨[','], _, _, rfl, ?_, htail, rfl⟩,
    rfl⟩⟩
  exact List.mem_singleton_self _

/-- A line that the pattern matches is spelled, and its transition is captured. -/
theorem exists_spelling_of_search {line : List Char} (hnl : '\n' ∉ line) {parts : List (List Char)}
    (h : search linePattern line = some parts) :
    ∃ s : Spelling, s.text = line ∧ captured parts = some s.triple := by
  obtain ⟨_, left, _, qs, rfl, hname, hqs, rfl⟩ := search_append h
  obtain ⟨source, rfl, rfl⟩ := covers_name_iff.mp hname
  obtain ⟨-, _, tail, -, ps, -, ⟨rfl, hcomma⟩, hps, rfl, -⟩ := search_cons_eq_some hqs
  rw [Piece.Fits, List.mem_singleton] at hcomma
  subst hcomma
  -- what is covered behind the comma tells where the arrow is
  obtain ⟨v, _, _, rfl, -, hsymbol, -⟩ := covers_cons_iff.mp (covers_of_search hps)
  obtain ⟨m, _, _, rfl, hm, harrow, -⟩ := covers_cons_iff.mp hsymbol
  obtain ⟨w, arrow, target, -, rfl, -⟩ := covers_arrow_iff.mp harrow
  have htail : v ++ (m ++ (w ++ (arrow.text ++ target.text))) =
      (v ++ (m ++ w)) ++ (arrow.text ++ target.text) := by simp only [List.append_assoc]
  rw [htail] at hps hnl ⊢
  have hne : v ++ (m ++ w) ≠ [] := by simp [(fits_symbol_iff.mp hm).1]
  let s : Spelling := ⟨source, v ++ (m ++ w), arrow, target, hne⟩
  have htext : s.text = source.text ++ ([','] ++ ((v ++ (m ++ w)) ++ (arrow.text ++ target.text))) :=
    s.text_eq
  obtain ⟨v', w', rfl⟩ := parts_of_search_tail (s.not_mem_between (htext ▸ hnl)) hps
  exact ⟨s, htext, rfl⟩

theorem matched_eq_some_iff {line : List Char} (hnl : '\n' ∉ line) {x : Triple} :
    matched line = some x ↔ ∃ s : Spelling, s.text = line ∧ s.triple = x := by
  unfold matched
  constructor
  · intro h
    obtain ⟨parts, hparts, hx⟩ := Option.bind_eq_some_iff.mp h
    obtain ⟨s, hs, hcaptured⟩ := exists_spelling_of_search hnl hparts
    rw [hcaptured, Option.some.injEq] at hx
    exact ⟨s, hs, hx⟩
  · rintro ⟨s, rfl, rfl⟩
    obtain ⟨parts, hparts⟩ := Option.isSome_iff_exists.mp (search_line_isSome hnl)
    obtain ⟨t, ht, hcaptured⟩ := exists_spelling_of_search hnl hparts
    rw [hparts, Option.bind_some, hcaptured, Spelling.eq_of_text ht]

/-- The line is read as the pattern matches it. -/
theorem read_eq_matched {line : List Char} (hnl : '\n' ∉ line) : read line = matched line := by
  apply Option.ext
  intro x
  rw [read_eq_some_iff_spelled, matched_eq_some_iff hnl]

/-! ## What a line adds -/

/-- A transition named as a line spells it. The symbol is the text between
comma and arrow without the white space around it, or the last character of
white space if there is nothing else. -/
structure Spelling.Names (s : Spelling) (x : Triple) : Prop where
  source : x.source.toList = s.source.word
  target : x.target.toList = s.target.word
  trimmed : allBlank s.between = false → x.symbol.toList = trim s.between
  blank : allBlank s.between = true → x.symbol.toList = s.between.getLast?.toList

theorem Spelling.names_triple (s : Spelling) : s.Names s.triple where
  source := String.toList_ofList
  target := String.toList_ofList
  trimmed := fun h => String.toList_ofList.trans (symbolOf_of_not_blank h)
  blank := fun h => String.toList_ofList.trans (symbolOf_of_blank h)

/-- A line adds what the pattern captures in it, and the pattern matches
exactly the lines that are spelled. There is one spelling then: the comma is
the first of the line, the arrow the last, and the transition is named as the
line spells it. -/
theorem a_line_adds_the_transition_that_it_spells {line : List Char} (hnl : '\n' ∉ line) :
    (∀ sofar number, (TransitionText.addLine sofar (line, number)).table =
      sofar.table.addAll (matched line).toList) ∧
    ((matched line).isSome = true ↔ ∃ s : Spelling, s.text = line) ∧
    ∀ s : Spelling, s.text = line →
      (∀ t : Spelling, t.text = line → t = s) ∧
      (∀ before after, line = before ++ ',' :: after → s.source.text.length ≤ before.length) ∧
      (∀ before (arrow : Arrow) after, line = before ++ (arrow.text ++ after) →
        before.length ≤ s.lead.length) ∧
      ∃ x, matched line = some x ∧ s.Names x := by
  refine ⟨?_, ?_, ?_⟩
  · intro sofar number
    rw [TransitionText.addLine_eq, ← read_eq_matched hnl]
  · constructor
    · intro h
      obtain ⟨x, hx⟩ := Option.isSome_iff_exists.mp h
      obtain ⟨s, hs, -⟩ := (matched_eq_some_iff hnl).mp hx
      exact ⟨s, hs⟩
    · rintro ⟨s, hs⟩
      rw [(matched_eq_some_iff hnl).mpr ⟨s, hs, rfl⟩]
      rfl
  · rintro s rfl
    exact ⟨fun _ => Spelling.eq_of_text, fun _ _ => s.first_comma, fun _ _ _ => s.last_arrow,
      s.triple, (matched_eq_some_iff hnl).mpr ⟨s, rfl, rfl⟩, s.names_triple⟩

/-- Commas and arrows in the symbol, and white space of several kinds. -/
def crowdedLine : List Char := "\t q0\u3000,\u2003a, b->→ \t-> q_1\r".toList

theorem crowded_line_adds_its_transition : '\n' ∉ crowdedLine ∧
    (∀ sofar number, (TransitionText.addLine sofar (crowdedLine, number)).table =
      sofar.table.add ⟨"q0", "a, b->→", "q_1"⟩) ∧
    ∃ s : Spelling, s.text = crowdedLine ∧ s.Names ⟨"q0", "a, b->→", "q_1"⟩ := by
  have hnl : '\n' ∉ crowdedLine := by decide
  obtain ⟨hadds, hspelled, hnames⟩ := a_line_adds_the_transition_that_it_spells hnl
  have hmatched : matched crowdedLine = some ⟨"q0", "a, b->→", "q_1"⟩ := by
    rw [← read_eq_matched hnl]
    decide
  obtain ⟨s, hs⟩ := hspelled.mp (by rw [hmatched]; rfl)
  obtain ⟨-, -, -, x, hx, hsx⟩ := hnames s hs
  rw [hmatched, Option.some.injEq] at hx
  subst hx
  refine ⟨hnl, ?_, s, hs, hsx⟩
  intro sofar number
  rw [hadds, hmatched]
  rfl

/-- Of white space alone the last character is the symbol. -/
example : read "p, \t→q".toList = some ⟨"p", "\t", "q"⟩ := by decide

end Stepwise.TransitionLine
