-- The symbols that the lines of a description are read on. A line is cut at its
-- comma and its arrow, and is written again and read once more for each destination.
-- The symbol comes back as it was cut, but for a destination with an arrow of its
-- own: the reader goes by the last arrow and takes what is before it to the symbol.
import Stepwise.Proofs.LeftLines
import Stepwise.Proofs.PlainLines

namespace Stepwise

open Text

namespace Text

/-! ## Commas inside of brackets -/

/-- Every comma of the text has a bracket somewhere before it. -/
def Guarded (cs : List Char) : Prop := ∀ a b, cs = a ++ ',' :: b → ¬Plain a

theorem Plain.append {a b : List Char} (ha : Plain a) (hb : Plain b) : Plain (a ++ b) := by
  intro c hc
  exact (List.mem_append.mp hc).elim (ha c) (hb c)

theorem guarded_of_cutAtComma {cs : List Char} (h : cutAtComma 0 cs = none) : Guarded cs := by
  intro a b heq hplain
  exact cutAtComma_eq_none_iff.mp h a b heq (depthAt_of_plain hplain 0)

theorem guarded_of_not_mem {cs : List Char} (h : ',' ∉ cs) : Guarded cs := by
  rintro a b rfl
  exact absurd (List.mem_append_right a List.mem_cons_self) h

/-- What has no bracket can be taken off in front. -/
theorem Guarded.of_append {v cs w : List Char} (h : Guarded (v ++ cs ++ w)) (hv : Plain v) :
    Guarded cs := by
  rintro a b rfl hplain
  exact h (v ++ a) (b ++ w) (by simp) (hv.append hplain)

theorem Guarded.append {x y : List Char} (hx : Guarded x) (hy : Guarded y) : Guarded (x ++ y) := by
  intro a b heq hplain
  rcases List.append_eq_append_iff.mp heq with ⟨a', rfl, hy'⟩ | ⟨b', rfl, hb'⟩
  · exact hy a' b hy' fun c hc => hplain c (List.mem_append_right x hc)
  · cases b' with
    | nil =>
      rw [List.nil_append] at hb'
      exact hy [] b hb'.symm (fun c hc => by cases hc)
    | cons c b' =>
      cases hb'
      exact hx a b' rfl hplain

theorem guarded_intercalate {sep : List Char} (hsep : Guarded sep) {parts : List (List Char)}
    (h : ∀ p ∈ parts, Guarded p) : Guarded (List.intercalate sep parts) := by
  induction parts with
  | nil => exact guarded_of_not_mem List.not_mem_nil
  | cons p parts ih =>
    have hp := h p List.mem_cons_self
    cases parts with
    | nil => rwa [List.intercalate_singleton]
    | cons q parts =>
      rw [List.intercalate_cons_cons]
      exact (hp.append hsep).append (ih fun r hr => h r (List.mem_cons_of_mem p hr))

theorem Guarded.trim {cs : List Char} (h : Guarded cs) : Guarded (trim cs) := by
  obtain ⟨v, w, hv, -, hcs⟩ := exists_eq_trim cs
  rw [hcs] at h
  exact h.of_append (plain_of_allBlank hv)

theorem guarded_of_mem_listItems {cs item : List Char} (h : item ∈ listItems cs) : Guarded item := by
  obtain ⟨part, hpart, rfl⟩ := List.mem_map.mp (List.mem_filter.mp h).1
  exact (guarded_of_cutAtComma (of_mem_commaParts hpart).1).trim

end Text

namespace Description

/-! ## Commas in names -/

theorem guarded_unquote {cs : List Char} (h : Guarded cs) : Guarded (unquote cs) := by
  have hstart : cs = cs.takeWhile isQuote ++ cs.dropWhile isQuote :=
    List.takeWhile_append_dropWhile.symm
  have hend : cs.dropWhile isQuote =
      unquote cs ++ (cs.dropWhile isQuote).rtakeWhile isQuote :=
    List.rdropWhile_append_rtakeWhile.symm
  rw [hend, ← List.append_assoc] at hstart
  rw [hstart] at h
  exact h.of_append fun c hc => (not_bracket_of_isQuote (List.mem_takeWhile_imp hc)).1

theorem guarded_subsetName {elements : List (List Char)} (h : ∀ e ∈ elements, Guarded e) :
    Guarded (subsetName elements) := by
  unfold subsetName
  split
  · exact guarded_of_not_mem (by decide)
  · exact (guarded_of_not_mem (by decide)).append
      (guarded_intercalate (guarded_of_not_mem (by decide)) h)

/-- A name without commas outside of brackets has none where a word could end. -/
theorem guarded_stateName {source : List Char} (h : cutAtComma 0 source = none) :
    Guarded (stateName source) := by
  have htrim : Guarded (trim source) := (guarded_of_cutAtComma h).trim
  unfold stateName
  dsimp only
  split
  · split
    · rename_i elements helements
      apply guarded_subsetName
      intro e he
      obtain ⟨body, -, rfl⟩ := Option.map_eq_some_iff.mp helements
      obtain ⟨item, hitem, rfl⟩ := List.mem_map.mp he
      exact guarded_unquote (guarded_of_mem_listItems hitem)
    · exact htrim
  · exact htrim

end Description

/-! ## Reading a written line -/

namespace TransitionLine

/-- The symbol that is read where this symbol and this destination were written. A
destination that is a name leaves the symbol alone. Of any other, what is before its
last arrow is read as part of the symbol. -/
inductive ReadAs (symbol destination : List Char) : List Char → Prop
  | whole : isWord (trim destination) = true → ReadAs symbol destination symbol
  | joined {before back : List Char} (arrow : Arrow) :
      destination = before ++ (arrow.text ++ back) → isWord (trim back) = true →
      ReadAs symbol destination (trim (symbol ++ [' ', '→', ' '] ++ before))

/-- A line as the description writes it again. -/
def plainLine (source symbol destination : List Char) : List Char :=
  write ⟨String.ofList source, String.ofList symbol, String.ofList destination⟩

theorem plainLine_eq (source symbol destination : List Char) :
    plainLine source symbol destination =
      source ++ ',' :: (symbol ++ [' ', '→', ' '] ++ destination) := by
  simp [plainLine, write]

namespace Parts

/-- The line is taken apart at the comma behind the source. -/
theorem eq_of_text_eq_plainLine {p : Parts} {source symbol destination : List Char}
    (hsource : Guarded source) (h : p.text = plainLine source symbol destination) :
    p.front = source ∧ p.tail = symbol ++ [' ', '→', ' '] ++ destination := by
  have hcut := congrArg cutAtFirstComma h
  rw [plainLine_eq, show p.text = p.front ++ ',' :: p.tail from rfl,
    cutAtFirstComma_append p.comma_not_mem_front] at hcut
  by_cases hcomma : ',' ∈ source
  · obtain ⟨a, b, rfl, ha⟩ := List.eq_append_cons_of_mem hcomma
    rw [List.append_assoc, List.cons_append, cutAtFirstComma_append ha, Option.some.injEq,
      Prod.mk.injEq] at hcut
    exact absurd (hcut.1 ▸ plain_of_isWord_trim p.source_word) (hsource a b rfl)
  · rw [cutAtFirstComma_append hcomma, Option.some.injEq, Prod.mk.injEq] at hcut
    exact hcut

/-- The arrow of the line is the written one, or one inside of the destination. -/
theorem readAs_of_tail_eq {p : Parts} {symbol destination : List Char}
    (hsymbol : trim symbol = symbol) (hne : symbol ≠ [])
    (h : p.tail = symbol ++ [' ', '→', ' '] ++ destination) :
    ReadAs symbol destination p.symbol := by
  have hsplit : p.between ++ (p.arrow.text ++ p.back) =
      (symbol ++ [' ']) ++ '→' :: ' ' :: destination := by
    rw [show p.between ++ (p.arrow.text ++ p.back) = p.tail from rfl, h]
    simp
  have hsign := p.arrow_not_mem_back
  have hwhole : p.between = symbol ++ [' '] → p.back = ' ' :: destination →
      ReadAs symbol destination p.symbol := by
    intro hbetween hback
    have hword := p.target_word
    rw [hback, ← List.singleton_append, trim_blank_append (by decide)] at hword
    have hread : p.symbol = symbol := by
      unfold Parts.symbol
      rw [hbetween, symbolOf_append_space hsymbol hne]
    rw [hread]
    exact .whole hword
  -- where the arrow of the line starts, beside the written one
  rcases List.append_eq_append_iff.mp hsplit with ⟨a, hbefore, hbehind⟩ | ⟨a, hbefore, hbehind⟩
  · cases a with
    | nil =>
      cases harrow : p.arrow with
      | sign =>
        rw [harrow] at hbehind
        exact hwhole (by simpa using hbefore.symm) (List.cons.inj hbehind).2
      | letters =>
        rw [harrow] at hbehind
        exact absurd (List.cons.inj hbehind).1 (by decide)
    | cons c a =>
      -- an earlier arrow leaves the written one to the name behind it
      refine absurd ?_ hsign
      cases harrow : p.arrow with
      | sign =>
        rw [harrow] at hbehind
        have hrest : p.back = a ++ '→' :: ' ' :: destination := (List.cons.inj hbehind).2
        rw [hrest]
        simp
      | letters =>
        rw [harrow] at hbehind
        have hrest : '>' :: p.back = a ++ '→' :: ' ' :: destination := (List.cons.inj hbehind).2
        have hmem : '→' ∈ '>' :: p.back := by
          rw [hrest]
          simp
        simpa using hmem
  · match a, hbehind with
    | [], hbehind =>
      cases harrow : p.arrow with
      | sign =>
        rw [harrow] at hbehind
        exact hwhole (by simpa using hbefore) (List.cons.inj hbehind).2.symm
      | letters =>
        rw [harrow] at hbehind
        exact absurd (List.cons.inj hbehind).1 (by decide)
    | [c], hbehind =>
      cases harrow : p.arrow with
      | sign =>
        rw [harrow] at hbehind
        exact absurd (List.cons.inj (List.cons.inj hbehind).2).1 (by decide)
      | letters =>
        rw [harrow] at hbehind
        exact absurd (List.cons.inj (List.cons.inj hbehind).2).1 (by decide)
    | c :: d :: before, hbehind =>
      have hc := (List.cons.inj hbehind).1
      have hd := (List.cons.inj (List.cons.inj hbehind).2).1
      have hdestination := (List.cons.inj (List.cons.inj hbehind).2).2
      have hbetween : p.between = symbol ++ [' ', '→', ' '] ++ before := by
        rw [hbefore, ← hc, ← hd]
        simp
      have hnot : allBlank p.between = false := by
        rw [hbetween]
        exact allBlank_eq_false_of_mem (c := '→') (by simp) (by decide)
      have hread : p.symbol = trim (symbol ++ [' ', '→', ' '] ++ before) := by
        rw [symbol_eq hnot, hbetween]
      rw [hread]
      exact .joined p.arrow hdestination p.target_word

end Parts

/-- A written line is read exactly if its source is a name, on a symbol that the
written one is read as. -/
theorem read_plainLine_iff {source symbol destination : List Char} (hsource : Guarded source)
    (hsymbol : trim symbol = symbol) (hne : symbol ≠ []) {t : List Char} :
    (∃ x, read (plainLine source symbol destination) = some x ∧ x.symbol = String.ofList t) ↔
      isWord (trim source) = true ∧ ReadAs symbol destination t := by
  constructor
  · rintro ⟨x, hread, ht⟩
    obtain ⟨p, htext, rfl⟩ := read_eq_some_iff.mp hread
    obtain ⟨hfront, htail⟩ := Parts.eq_of_text_eq_plainLine hsource htext
    have hp : p.symbol = t := String.ofList_inj.mp ht
    refine ⟨hfront ▸ p.source_word, ?_⟩
    rw [← hp]
    exact Parts.readAs_of_tail_eq hsymbol hne htail
  · rintro ⟨hword, hreadAs⟩
    obtain ⟨p, htext, hp⟩ : ∃ p : Parts, p.text = plainLine source symbol destination ∧
        p.symbol = t := by
      cases hreadAs with
      | whole hdestination =>
        have hback : trim (' ' :: destination) = trim destination := by
          rw [← List.singleton_append, trim_blank_append (by decide)]
        refine ⟨⟨source, symbol ++ [' '], .sign, ' ' :: destination, hword,
          hback ▸ hdestination, by simp⟩, ?_, symbolOf_append_space hsymbol hne⟩
        simp [plainLine_eq, Parts.text, Parts.tail, Arrow.text]
      | @joined before back arrow hdestination hback =>
        refine ⟨⟨source, symbol ++ [' ', '→', ' '] ++ before, arrow, back, hword, hback, by simp⟩,
          ?_, symbolOf_of_not_blank (allBlank_eq_false_of_mem (c := '→') (by simp) (by decide))⟩
        rw [plainLine_eq, hdestination]
        simp [Parts.text, Parts.tail]
    exact ⟨p.triple, htext ▸ p.read_text, congrArg String.ofList hp⟩

/-- A piece of the destination goes to the symbol. -/
example : read (plainLine ['q', '0'] ['a'] "b -> q1".toList) = some ⟨"q0", "a → b", "q1"⟩ := by
  decide

end TransitionLine

end Stepwise
