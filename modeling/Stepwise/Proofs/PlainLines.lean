-- Plain lines in a description. A line that an editor reads is rewritten to
-- one line again, which is read without a warning. Its transition is the one
-- of the line, with the two pieces of a cut symbol joined again.
import Stepwise.Proofs.InnerArrows

namespace Stepwise

open Text

namespace TransitionLine.Parts

open Description

variable {p : Parts}

/-! ## Cutting a line -/

theorem arrow_not_mem_back (p : Parts) : '→' ∉ p.back :=
  not_mem_of_isWord_trim p.target_word (by decide) (by decide)

theorem cutAtArrow_tail_of_none (h : p.innerCut = none) :
    cutAtArrow p.tail = some (p.between, p.back) := by
  obtain ⟨hsign, hletters⟩ := innerCut_eq_none_iff.mp h
  unfold cutAtArrow tail
  cases harrow : p.arrow with
  | sign =>
    rw [show Arrow.sign.text ++ p.back = '→' :: p.back from rfl, cutAt_append hsign]
    rfl
  | letters =>
    have hnone : cutAt '→' (p.between ++ '-' :: '>' :: p.back) = none := by
      apply cutAt_eq_none
      simp [hsign, p.arrow_not_mem_back]
    rw [show Arrow.letters.text ++ p.back = '-' :: '>' :: p.back from rfl, hnone,
      cutAtPlainArrow_append (cutAtPlainArrow_eq_none_iff.mpr (hletters harrow))]
    rfl

theorem cutAtArrow_tail_of_some {before after : List Char}
    (h : p.innerCut = some (before, after)) :
    cutAtArrow p.tail = some (before, after ++ (p.arrow.text ++ p.back)) := by
  unfold innerCut at h
  unfold tail cutAtArrow
  cases harrow : p.arrow with
  | sign =>
    simp only [harrow] at h
    rw [cutAt_append_of_some h]
    rfl
  | letters =>
    simp only [harrow] at h
    unfold cutAtArrow at h
    rcases Option.or_eq_some_iff.mp h with hcut | ⟨hnone, hcut⟩
    · rw [cutAt_append_of_some hcut]
      rfl
    · have hno : cutAt '→' (p.between ++ (Arrow.letters.text ++ p.back)) = none := by
        apply cutAt_eq_none
        simp [cutAt_eq_none_iff.mp hnone, p.arrow_not_mem_back, Arrow.text]
      rw [hno, cutAtPlainArrow_append_of_some hcut]
      rfl

/-- What stands before and after the arrow that a description finds, behind
the comma. -/
def cut (p : Parts) : List Char × List Char :=
  match p.innerCut with
  | none => (p.between, p.back)
  | some (before, after) => (before, after ++ (p.arrow.text ++ p.back))

theorem cutAtArrow_tail (p : Parts) : cutAtArrow p.tail = some p.cut := by
  unfold cut
  cases hcut : p.innerCut with
  | none => exact cutAtArrow_tail_of_none hcut
  | some c => exact cutAtArrow_tail_of_some hcut

theorem exists_cut_snd (p : Parts) : ∃ a, p.cut.2 = a ++ p.back := by
  unfold cut
  cases p.innerCut with
  | none => exact ⟨[], rfl⟩
  | some c => exact ⟨c.2 ++ p.arrow.text, (List.append_assoc _ _ _).symm⟩

theorem mem_tail_of_mem_cut {c : Char} (h : c ∈ p.cut.1 ∨ c ∈ p.cut.2) : c ∈ p.tail := by
  have hcut : cutAtArrow p.tail = some (p.cut.1, p.cut.2) := p.cutAtArrow_tail
  unfold cutAtArrow at hcut
  rcases Option.or_eq_some_iff.mp hcut with hcut | ⟨-, hcut⟩
  · rw [(eq_of_cutAt hcut).1]
    simpa using h.imp_right Or.inr
  · rw [eq_of_cutAtPlainArrow hcut]
    simpa using h.imp_right fun h => Or.inr (Or.inr h)

theorem cutAtArrow_text (p : Parts) :
    cutAtArrow p.text = some (p.front ++ ',' :: p.cut.1, p.cut.2) := by
  have hsign : '→' ∉ p.front ++ [','] := by
    simp [not_mem_of_isWord_trim p.source_word (c := '→') (by decide) (by decide)]
  have hletters : '-' ∉ p.front ++ [','] := by
    simp [not_mem_of_isWord_trim p.source_word (c := '-') (by decide) (by decide)]
  have htext : p.text = (p.front ++ [',']) ++ p.tail := by simp [text]
  have htail := p.cutAtArrow_tail
  unfold cutAtArrow at htail ⊢
  rw [htext, cutAt_append_of_not_mem hsign, cutAtPlainArrow_append_of_not_mem hletters,
    ← Option.map_or, htail]
  simp

/-! ## Rewriting a line -/

theorem whole_front (p : Parts) : Whole 0 p.front :=
  whole_of_plain (plain_of_isWord_trim p.source_word) fun _ => p.comma_not_mem_front

theorem stateName_front (p : Parts) : stateName p.front = p.source := by
  apply stateName_eq_trim
  exact fun c => getLast?_of_isWord p.source_word

theorem destinationNames_cut (p : Parts) (states : OrderedSet StateName) :
    destinationNames states p.cut.2 = [trim p.cut.2] := by
  obtain ⟨a, ha⟩ := p.exists_cut_snd
  apply destinationNames_eq_trim
  rw [ha, getLast?_trim_append (not_blank_of_isWord_trim p.target_word)]
  exact fun c => getLast?_of_isWord p.target_word

/-- The transition of the plain line that a line is rewritten to. -/
def plainTriple (p : Parts) : Triple :=
  ⟨String.ofList p.source, String.ofList (trim p.cut.1), String.ofList (trim p.cut.2)⟩

theorem rewriteLine_text (p : Parts) (states : OrderedSet StateName) :
    rewriteLine states p.text =
      if allBlank p.cut.1 then .emptySymbol p.text else .expanded [p.plainTriple] := by
  unfold rewriteLine
  simp only [p.text_not_blank, p.cutAtArrow_text, cutAtComma_of_whole p.whole_front, stateName_front,
    destinationNames_cut, List.map_singleton, Bool.false_eq_true, if_false]
  rfl

/-! ## Reading the plain line -/

/-- What stands behind the cut, as the plain line writes it. -/
theorem trim_append_arrow (p : Parts) (after : List Char) :
    trim (after ++ (p.arrow.text ++ p.back)) =
      trimStart after ++ (p.arrow.text ++ trimEnd p.back) := by
  cases p.arrow with
  | sign => exact trim_append_cons (by decide)
  | letters =>
    have hend : trimEnd ('>' :: p.back) = '>' :: trimEnd p.back := by
      rw [← List.nil_append ('>' :: p.back), trimEnd_append_cons (by decide)]
      rfl
    show trim (after ++ '-' :: ('>' :: p.back)) = trimStart after ++ '-' :: '>' :: trimEnd p.back
    rw [trim_append_cons (by decide), hend]

/-- The plain line of a cut symbol is read as the two pieces joined. -/
theorem read_write_cut (p : Parts) (before after : List Char) :
    read (write ⟨String.ofList p.source, String.ofList (trim before),
      String.ofList (trim (after ++ (p.arrow.text ++ p.back)))⟩) =
      some { p.triple with symbol := String.ofList (joined before after) } := by
  have hsource : trim p.source = p.source := trim_trim p.front
  have htarget : trim (trimEnd p.back) = p.target := trim_trimEnd p.back
  have hnot : allBlank (trim before ++ [' ', '→', ' '] ++ trimStart after) = false :=
    allBlank_eq_false_of_mem (c := '→') (by simp) (by decide)
  have hsymbol : symbolOf (trim before ++ [' ', '→', ' '] ++ trimStart after) =
      joined before after := by
    obtain ⟨w, hw, hafter⟩ := exists_eq_trimEnd (trimStart after)
    rw [symbolOf_of_not_blank hnot, hafter, ← List.append_assoc, trim_append_blank hw]
    rfl
  refine read_eq_some_iff.mpr ⟨⟨p.source, trim before ++ [' ', '→', ' '] ++ trimStart after, p.arrow,
    trimEnd p.back, ?_, ?_, by simp⟩, ?_, ?_⟩
  · rw [hsource]
    exact p.source_word
  · rw [htarget]
    exact p.target_word
  · rw [trim_append_arrow]
    simp [text, tail, write]
  · simp only [triple, source, symbol, target, trim_trim, trim_trimEnd, hsymbol]

theorem read_write_triple (h : allBlank p.between = false) :
    read (write p.triple) = some p.triple := by
  unfold triple
  rw [symbol_eq h]
  exact read_write p.source_word (trim_trim _) (trim_ne_nil_iff.mpr h) p.target_word

/-- What an editor reads from the plain line is the decoded transition. -/
theorem decoded_eq (h : allBlank p.between = false) :
    p.decoded = if allBlank p.cut.1 then none else read (write p.plainTriple) := by
  unfold plainTriple
  cases hcut : p.innerCut with
  | none =>
    have hparts : p.cut = (p.between, p.back) := by
      unfold cut
      rw [hcut]
    rw [(decoded_eq_iff h).mpr (Or.inl (innerCut_eq_none_iff.mp hcut)), hparts, if_neg (by simp [h]),
      ← symbol_eq h]
    exact (read_write_triple h).symm
  | some c =>
    obtain ⟨before, after⟩ := c
    have hparts : p.cut = (before, after ++ (p.arrow.text ++ p.back)) := by
      unfold cut
      rw [hcut]
    unfold decoded
    rw [hparts, hcut, read_write_cut]

theorem decoded_isSome (hblank : allBlank p.cut.1 = false) : p.decoded.isSome = true := by
  unfold cut at hblank
  unfold decoded
  cases hcut : p.innerCut with
  | none => rfl
  | some c =>
    rw [hcut] at hblank
    simp [hblank]

/-- The plain line stays one line. -/
theorem isLine_plain (hline : '\n' ∉ p.text) : IsLine (write p.plainTriple) := by
  have htext : ∀ c, c ∈ p.front ∨ c ∈ p.tail → c ∈ p.text := by
    intro c hc
    unfold text
    simpa using hc.imp_right Or.inr
  apply isLine_write
  · exact fun hn => hline (htext _ (Or.inl (mem_of_mem_trim hn)))
  · exact fun hn => hline (htext _ (Or.inr (mem_tail_of_mem_cut (Or.inl (mem_of_mem_trim hn)))))
  · exact fun hn => hline (htext _ (Or.inr (mem_tail_of_mem_cut (Or.inr (mem_of_mem_trim hn)))))
  · obtain ⟨a, ha⟩ := p.exists_cut_snd
    rw [trim_ne_nil_iff, ha, allBlank_append, not_blank_of_isWord_trim p.target_word,
      Bool.and_false]
  · exact fun c => not_blank_of_getLast?_trim

/-- A line that an editor reads leaves the decoded transition behind. -/
theorem readings_left_text (h : allBlank p.between = false) (states : OrderedSet StateName) :
    (rewriteLine states p.text).left.filterMap read = p.decoded.toList := by
  rw [rewriteLine_text, decoded_eq h]
  cases allBlank p.cut.1 with
  | true => rfl
  | false =>
    rw [if_neg Bool.false_ne_true, if_neg Bool.false_ne_true, Rewritten.left_expanded_singleton]
    cases hread : read (write p.plainTriple) with
    | none => simp [hread]
    | some x => simp [hread]

theorem of_mem_left_text (h : allBlank p.between = false) (hline : '\n' ∉ p.text)
    {states : OrderedSet StateName} {line : List Char}
    (hmem : line ∈ (rewriteLine states p.text).left) :
    IsLine line ∧ (read line).isSome = true := by
  rw [rewriteLine_text] at hmem
  cases hblank : allBlank p.cut.1 with
  | true =>
    rw [hblank, if_pos rfl] at hmem
    cases hmem
  | false =>
    rw [hblank, if_neg Bool.false_ne_true, Rewritten.left_expanded_singleton,
      List.mem_singleton] at hmem
    have hsome := decoded_isSome hblank
    rw [decoded_eq h, hblank, if_neg Bool.false_ne_true] at hsome
    rw [hmem]
    exact ⟨isLine_plain hline, hsome⟩

end TransitionLine.Parts

end Stepwise
