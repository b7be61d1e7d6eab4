-- How a transition line is spelled, down to the white space: two names, a
-- comma, an arrow and the text between them. A line is spelled in one way at
-- most, for its first comma and its last arrow are the only ones that count.
import Stepwise.Proofs.LineGrammar

namespace Stepwise.TransitionLine

open Text

/-! ## Names with white space around them -/

structure Padded where
  before : List Char
  word : List Char
  after : List Char
  before_blank : allBlank before = true
  word_isWord : isWord word = true
  after_blank : allBlank after = true

namespace Padded

variable {n m : Padded}

def text (n : Padded) : List Char := n.before ++ (n.word ++ n.after)

theorem trim_text (n : Padded) : trim n.text = n.word := by
  unfold text
  rw [trim_blank_append n.before_blank, trim_append_blank n.after_blank, trim_of_isWord n.word_isWord]

theorem isWord_trim_text (n : Padded) : isWord (trim n.text) = true := by
  rw [trim_text]
  exact n.word_isWord

theorem trimStart_text (n : Padded) : trimStart n.text = n.word ++ n.after := by
  unfold text
  rw [trimStart_blank_append n.before_blank]
  obtain ⟨c, cs, hcs⟩ := List.exists_cons_of_ne_nil (isWord_iff.mp n.word_isWord).1
  have hc : isBlank c = false :=
    not_blank_of_isWordChar ((isWord_iff.mp n.word_isWord).2 c (hcs ▸ List.mem_cons_self))
  rw [hcs, List.cons_append, trimStart_of_not_blank hc]

/-- The name and the white space on either side can be told apart. -/
theorem eq_of_text (h : n.text = m.text) : n = m := by
  have hword : n.word = m.word := by rw [← trim_text, ← trim_text, h]
  have hend : n.word ++ n.after = m.word ++ m.after := by
    rw [← trimStart_text, ← trimStart_text, h]
  have hbefore : n.before = m.before := by
    have htext : n.before ++ (n.word ++ n.after) = m.before ++ (m.word ++ m.after) := h
    rw [hend] at htext
    exact List.append_cancel_right htext
  have hafter : n.after = m.after := by
    rw [hword] at hend
    exact List.append_cancel_left hend
  cases n
  cases m
  cases hword
  cases hbefore
  cases hafter
  rfl

theorem exists_of_isWord_trim {cs : List Char} (h : isWord (trim cs) = true) :
    ∃ n : Padded, n.text = cs := by
  obtain ⟨v, w, hv, hw, hcs⟩ := exists_eq_trim cs
  refine ⟨⟨v, trim cs, w, hv, h, hw⟩, ?_⟩
  rw [List.append_assoc] at hcs
  exact hcs.symm

theorem not_mem_text (n : Padded) {c : Char} (hb : isBlank c = false) (hw : isWordChar c = false) :
    c ∉ n.text := not_mem_of_isWord_trim n.isWord_trim_text hb hw

end Padded

/-! ## The last arrow -/

/-- The character that an arrow ends with. -/
def Arrow.head : Arrow → Char
  | sign => '→'
  | letters => '>'

theorem Arrow.head_mem_text (arrow : Arrow) : arrow.head ∈ arrow.text := by
  cases arrow <;> decide

theorem Arrow.head_not_mem (arrow : Arrow) (n : Padded) : arrow.head ∉ n.text := by
  cases arrow <;> exact n.not_mem_text (by decide) (by decide)

/-- No arrow begins behind the arrow that a name ends the line after. -/
theorem length_le_of_arrow {lead before after : List Char} {arrow other : Arrow} {n : Padded}
    (h : lead ++ (arrow.text ++ n.text) = before ++ (other.text ++ after)) :
    before.length ≤ lead.length := by
  by_contra hlt
  -- the other arrow begins at least one character behind the start of this one
  obtain ⟨as, hbefore, hrest⟩ | ⟨as, hlead, -⟩ := List.append_eq_append_iff.mp h
  · have hhead : ∀ bs : List Char, n.text = bs ++ (other.text ++ after) → False := by
      intro bs hbs
      refine other.head_not_mem n ?_
      rw [hbs]
      exact List.mem_append_right bs (List.mem_append_left after other.head_mem_text)
    cases as with
    | nil =>
      rw [hbefore, List.append_nil] at hlt
      exact hlt (Nat.le_refl _)
    | cons c as =>
      cases arrow with
      | sign =>
        rw [Arrow.text, List.singleton_append, List.cons_append, List.cons.injEq] at hrest
        exact hhead as hrest.2
      | letters =>
        rw [Arrow.text, List.cons_append, List.singleton_append, List.cons_append,
          List.cons.injEq] at hrest
        cases as with
        | nil =>
          -- then it would have to begin with the head of this one
          rw [List.nil_append] at hrest
          cases other <;> simp [Arrow.text] at hrest
        | cons d as =>
          rw [List.cons_append, List.cons.injEq] at hrest
          exact hhead as hrest.2.2
  · rw [hlead, List.length_append] at hlt
    exact hlt (Nat.le_add_right _ _)

theorem eq_of_arrow {x y : List Char} {a b : Arrow} {n m : Padded}
    (h : x ++ (a.text ++ n.text) = y ++ (b.text ++ m.text)) : x = y ∧ a = b ∧ n = m := by
  have hlength : x.length = y.length :=
    Nat.le_antisymm (length_le_of_arrow h.symm) (length_le_of_arrow h)
  obtain ⟨rfl, hrest⟩ := List.append_inj h hlength
  have hab : a = b := by
    cases a <;> cases b <;> simp [Arrow.text] at hrest ⊢
  subst hab
  exact ⟨rfl, rfl, Padded.eq_of_text (List.append_cancel_left hrest)⟩

/-! ## Spellings -/

/-- A line as it is spelled. -/
structure Spelling where
  source : Padded
  between : List Char
  arrow : Arrow
  target : Padded
  between_ne_nil : between ≠ []

namespace Spelling

variable {s t : Spelling}

/-- What stands in front of the arrow. -/
def lead (s : Spelling) : List Char := s.source.text ++ ',' :: s.between

def text (s : Spelling) : List Char := s.lead ++ (s.arrow.text ++ s.target.text)

def triple (s : Spelling) : Triple :=
  ⟨String.ofList s.source.word, String.ofList (symbolOf s.between), String.ofList s.target.word⟩

/-- The same line in its parts. -/
def parts (s : Spelling) : Parts :=
  ⟨s.source.text, s.between, s.arrow, s.target.text, s.source.isWord_trim_text,
    s.target.isWord_trim_text, s.between_ne_nil⟩

theorem text_eq (s : Spelling) :
    s.text = s.source.text ++ ',' :: (s.between ++ (s.arrow.text ++ s.target.text)) := by
  unfold text lead
  rw [List.append_assoc, List.cons_append]

theorem text_parts (s : Spelling) : s.parts.text = s.text := s.text_eq.symm

theorem not_mem_between (s : Spelling) {c : Char} (h : c ∉ s.text) : c ∉ s.between :=
  Parts.not_mem_between (s.text_parts ▸ h)

theorem triple_parts (s : Spelling) : s.parts.triple = s.triple := by
  unfold Parts.triple Parts.source Parts.target parts triple
  rw [Padded.trim_text, Padded.trim_text]
  rfl

theorem exists_parts (p : Parts) : ∃ s : Spelling, s.parts = p := by
  obtain ⟨source, hsource⟩ := Padded.exists_of_isWord_trim p.source_word
  obtain ⟨target, htarget⟩ := Padded.exists_of_isWord_trim p.target_word
  refine ⟨⟨source, p.between, p.arrow, target, p.between_ne_nil⟩, ?_⟩
  obtain ⟨front, between, arrow, back, _, _, _⟩ := p
  cases hsource
  cases htarget
  rfl

theorem first_comma (s : Spelling) {before after : List Char} (h : s.text = before ++ ',' :: after) :
    s.source.text.length ≤ before.length := by
  rw [text_eq] at h
  rcases List.append_eq_append_iff.mp h with ⟨as, rfl, -⟩ | ⟨as, hsource, hrest⟩
  · rw [List.length_append]
    exact Nat.le_add_right _ _
  · -- otherwise the comma stands in the name or in the white space around it
    cases as with
    | nil => rw [hsource, List.append_nil]
    | cons c as =>
      rw [List.cons_append, List.cons.injEq] at hrest
      refine absurd ?_ (s.source.not_mem_text (c := ',') (by decide) (by decide))
      rw [hsource, hrest.1]
      exact List.mem_append_right before List.mem_cons_self

theorem last_arrow (s : Spelling) {before after : List Char} {arrow : Arrow}
    (h : s.text = before ++ (arrow.text ++ after)) : before.length ≤ s.lead.length :=
  length_le_of_arrow h

/-- A line is spelled in one way at most. -/
theorem eq_of_text (h : s.text = t.text) : s = t := by
  have hfront : s.source.text = t.source.text ∧
      s.between ++ (s.arrow.text ++ s.target.text) = t.between ++ (t.arrow.text ++ t.target.text) := by
    have hlength : s.source.text.length = t.source.text.length :=
      Nat.le_antisymm (s.first_comma (h.trans t.text_eq)) (t.first_comma (h.symm.trans s.text_eq))
    rw [text_eq, text_eq] at h
    obtain ⟨hsource, hrest⟩ := List.append_inj h hlength
    exact ⟨hsource, (List.cons.inj hrest).2⟩
  have hsource : s.source = t.source := Padded.eq_of_text hfront.1
  obtain ⟨hbetween, harrow, htarget⟩ := eq_of_arrow hfront.2
  cases s
  cases t
  cases hsource
  cases hbetween
  cases harrow
  cases htarget
  rfl

end Spelling

theorem read_eq_some_iff_spelled {line : List Char} {x : Triple} :
    read line = some x ↔ ∃ s : Spelling, s.text = line ∧ s.triple = x := by
  rw [read_eq_some_iff]
  constructor
  · rintro ⟨p, rfl, rfl⟩
    obtain ⟨s, rfl⟩ := Spelling.exists_parts p
    exact ⟨s, s.text_parts.symm, s.triple_parts.symm⟩
  · rintro ⟨s, rfl, rfl⟩
    exact ⟨s.parts, s.text_parts, s.triple_parts⟩

end Stepwise.TransitionLine
