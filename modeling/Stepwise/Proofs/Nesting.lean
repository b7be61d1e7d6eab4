-- Brackets and the commas between them. A text that closes what it opens can
-- stand next to another one: neither changes where the other is cut, and a
-- list joined with commas is taken apart into the same elements again.
import Stepwise.Proofs.Trimming
import Stepwise.Text

namespace Stepwise.Text

/-! ## Characters that matter -/

def isBracket (c : Char) : Bool := isOpening c || isClosing c

/-- A text without brackets. -/
def Plain (cs : List Char) : Prop := ∀ c ∈ cs, isBracket c = false

theorem not_opening_of_not_bracket {c : Char} (h : isBracket c = false) : isOpening c = false :=
  (Bool.or_eq_false_iff.mp h).1

theorem not_closing_of_not_bracket {c : Char} (h : isBracket c = false) : isClosing c = false :=
  (Bool.or_eq_false_iff.mp h).2

theorem not_opening_of_closing {c : Char} (h : isClosing c = true) : isOpening c = false := by
  unfold isClosing at h
  rw [Bool.or_eq_true, decide_eq_true_eq, decide_eq_true_eq] at h
  rcases h with rfl | rfl <;> rfl

theorem bracket_cases {c : Char} (h : isBracket c = true) :
    c = '{' ∨ c = '(' ∨ c = '}' ∨ c = ')' := by
  unfold isBracket isOpening isClosing at h
  simpa [or_assoc] using h

theorem not_bracket_of_blank {c : Char} (h : isBlank c = true) : isBracket c = false := by
  rw [Bool.eq_false_iff]
  intro hc
  rcases bracket_cases hc with rfl | rfl | rfl | rfl <;> exact absurd h (by decide)

theorem plain_of_allBlank {w : List Char} (h : allBlank w = true) : Plain w :=
  fun c hc => not_bracket_of_blank (allBlank_iff.mp h c hc)

theorem not_mem_of_allBlank {w : List Char} (h : allBlank w = true) {c : Char}
    (hc : isBlank c = false) : c ∉ w := by
  intro hmem
  rw [allBlank_iff.mp h c hmem] at hc
  cases hc

/-! ## Depth -/

/-- The depth behind a text that starts at the given depth. -/
def depthAt (depth : Nat) (cs : List Char) : Nat := cs.foldl depthAfter depth

theorem depthAt_append (depth : Nat) (a b : List Char) :
    depthAt depth (a ++ b) = depthAt (depthAt depth a) b := List.foldl_append

theorem depthAfter_of_not_bracket (depth : Nat) {c : Char} (h : isBracket c = false) :
    depthAfter depth c = depth := by
  unfold depthAfter
  rw [not_opening_of_not_bracket h, not_closing_of_not_bracket h]
  rfl

theorem depthAfter_opening (depth : Nat) {c : Char} (h : isOpening c = true) :
    depthAfter depth c = depth + 1 := by
  unfold depthAfter
  rw [if_pos h]

theorem depthAfter_closing (depth : Nat) {c : Char} (h : isClosing c = true) :
    depthAfter depth c = depth - 1 := by
  unfold depthAfter
  rw [not_opening_of_closing h, if_neg Bool.false_ne_true, if_pos h]

theorem depthAt_of_plain {cs : List Char} (h : Plain cs) (depth : Nat) :
    depthAt depth cs = depth := by
  induction cs with
  | nil => rfl
  | cons c cs ih =>
    show depthAt (depthAfter depth c) cs = depth
    rw [depthAfter_of_not_bracket depth (h c List.mem_cons_self)]
    exact ih fun d hd => h d (List.mem_cons_of_mem c hd)

/-! ## Commas that separate -/

theorem cutAtComma_comma (rest : List Char) : cutAtComma 0 (',' :: rest) = some ([], rest) := rfl

theorem cutAtComma_cons {depth : Nat} {c : Char} (h : ¬(c = ',' ∧ depth = 0)) (rest : List Char) :
    cutAtComma depth (c :: rest) =
      (cutAtComma (depthAfter depth c) rest).map fun p => (c :: p.1, p.2) := if_neg h

theorem cutAtComma_cons_eq_none {depth : Nat} {c : Char} {rest : List Char} :
    cutAtComma depth (c :: rest) = none ↔
      ¬(c = ',' ∧ depth = 0) ∧ cutAtComma (depthAfter depth c) rest = none := by
  by_cases h : c = ',' ∧ depth = 0
  · obtain ⟨rfl, rfl⟩ := h
    simp [cutAtComma_comma]
  · rw [cutAtComma_cons h, Option.map_eq_none_iff]
    simp [h]

/-- Without a separating comma in the first part, the cut is in the second. -/
theorem cutAtComma_append {depth : Nat} {a : List Char} (h : cutAtComma depth a = none)
    (b : List Char) : cutAtComma depth (a ++ b) =
      (cutAtComma (depthAt depth a) b).map fun p => (a ++ p.1, p.2) := by
  induction a generalizing depth with
  | nil => simp [depthAt]
  | cons c a ih =>
    obtain ⟨hc, ha⟩ := cutAtComma_cons_eq_none.mp h
    rw [List.cons_append, cutAtComma_cons hc, ih ha, Option.map_map]
    rfl

theorem commaParts_cons {depth : Nat} {c : Char} (h : ¬(c = ',' ∧ depth = 0)) (rest : List Char) :
    commaParts depth (c :: rest) = match commaParts (depthAfter depth c) rest with
      | [] => [[c]]
      | part :: parts => (c :: part) :: parts := if_neg h

theorem commaParts_of_no_comma {depth : Nat} {a : List Char} (h : cutAtComma depth a = none) :
    commaParts depth a = [a] := by
  induction a generalizing depth with
  | nil => rfl
  | cons c a ih =>
    obtain ⟨hc, ha⟩ := cutAtComma_cons_eq_none.mp h
    rw [commaParts_cons hc, ih ha]

/-- The first comma that separates ends the first part. -/
theorem commaParts_append_comma {depth : Nat} {a : List Char} (h : cutAtComma depth a = none)
    (hdepth : depthAt depth a = 0) (rest : List Char) :
    commaParts depth (a ++ ',' :: rest) = a :: commaParts 0 rest := by
  induction a generalizing depth with
  | nil =>
    have hzero : depth = 0 := hdepth
    subst hzero
    rfl
  | cons c a ih =>
    obtain ⟨hc, ha⟩ := cutAtComma_cons_eq_none.mp h
    rw [List.cons_append, commaParts_cons hc, ih ha hdepth]

/-- The comma that is cut at is the first that separates. -/
theorem of_cutAtComma {depth : Nat} {cs a b : List Char} (h : cutAtComma depth cs = some (a, b)) :
    cs = a ++ ',' :: b ∧ cutAtComma depth a = none ∧ depthAt depth a = 0 := by
  induction cs generalizing depth a with
  | nil => cases h
  | cons c cs ih =>
    by_cases hc : c = ',' ∧ depth = 0
    · obtain ⟨rfl, rfl⟩ := hc
      cases h
      exact ⟨rfl, rfl, rfl⟩
    · rw [cutAtComma_cons hc] at h
      obtain ⟨⟨a', b'⟩, hcut, hp⟩ := Option.map_eq_some_iff.mp h
      cases hp
      obtain ⟨rfl, hnone, hdepth⟩ := ih hcut
      exact ⟨rfl, cutAtComma_cons_eq_none.mpr ⟨hc, hnone⟩, hdepth⟩

/-- No comma of the text has depth zero when the depth starts at the given one. -/
def Sheltered (depth : Nat) (cs : List Char) : Prop :=
  ∀ before after, cs = before ++ ',' :: after → depthAt depth before ≠ 0

theorem cutAtComma_eq_none_iff {depth : Nat} {cs : List Char} :
    cutAtComma depth cs = none ↔ Sheltered depth cs := by
  constructor
  · rintro h before after rfl
    induction before generalizing depth with
    | nil =>
      rintro rfl
      simp [cutAtComma_comma] at h
    | cons c before ih => exact ih (cutAtComma_cons_eq_none.mp h).2
  · intro h
    rw [Option.eq_none_iff_forall_ne_some]
    rintro ⟨a, b⟩ hcut
    obtain ⟨heq, -, hdepth⟩ := of_cutAtComma hcut
    exact h a b heq hdepth

/-! ## Texts in one piece -/

/-- From the given depth on, no comma of the text separates, and the text
ends at the depth where it started. -/
structure Whole (depth : Nat) (cs : List Char) : Prop where
  no_comma : cutAtComma depth cs = none
  depth_eq : depthAt depth cs = depth

theorem Whole.append {depth : Nat} {a b : List Char} (ha : Whole depth a) (hb : Whole depth b) :
    Whole depth (a ++ b) := by
  refine ⟨?_, ?_⟩
  · rw [cutAtComma_append ha.no_comma, ha.depth_eq, hb.no_comma]
    rfl
  · rw [depthAt_append, ha.depth_eq, hb.depth_eq]

/-- The comma behind a text in one piece is the first that separates. -/
theorem cutAtComma_of_whole {a : List Char} (h : Whole 0 a) (b : List Char) :
    cutAtComma 0 (a ++ ',' :: b) = some (a, b) := by
  rw [cutAtComma_append h.no_comma, h.depth_eq, cutAtComma_comma, Option.map_some, List.append_nil]

theorem whole_of_plain {depth : Nat} {cs : List Char} (h : Plain cs)
    (hcomma : depth = 0 → ',' ∉ cs) : Whole depth cs := by
  refine ⟨cutAtComma_eq_none_iff.mpr ?_, depthAt_of_plain h depth⟩
  rintro before after rfl hdepth
  rw [depthAt_of_plain fun c hc => h c (List.mem_append_left _ hc)] at hdepth
  exact hcomma hdepth (by simp)

/-- Brackets around a text keep it in one piece. -/
theorem Whole.enclose {depth : Nat} {cs : List Char} {o c : Char} (ho : isOpening o = true)
    (hc : isClosing c = true) (h : Whole (depth + 1) cs) : Whole depth (o :: (cs ++ [c])) := by
  have hin := depthAfter_opening depth ho
  refine ⟨?_, ?_⟩
  · rw [cutAtComma_cons_eq_none, hin, cutAtComma_append h.no_comma, h.depth_eq,
      Option.map_eq_none_iff, cutAtComma_cons_eq_none]
    refine ⟨?_, ?_, rfl⟩
    · rintro ⟨rfl, -⟩
      cases ho
    · rintro ⟨-, hz⟩
      cases hz
  · show depthAt (depthAfter depth o) (cs ++ [c]) = depth
    rw [hin, depthAt_append, h.depth_eq]
    exact depthAfter_closing (depth + 1) hc

theorem whole_of_allBlank {depth : Nat} {w : List Char} (h : allBlank w = true) : Whole depth w :=
  whole_of_plain (plain_of_allBlank h) fun _ => not_mem_of_allBlank h (by decide)

/-- A text is in one piece, or it is a piece that ends at a comma and a text behind it. -/
theorem comma_induction {motive : List Char → Prop}
    (last : ∀ cs, cutAtComma 0 cs = none → motive cs)
    (cons : ∀ part rest, Whole 0 part → motive rest → motive (part ++ ',' :: rest))
    (cs : List Char) : motive cs := by
  cases hcut : cutAtComma 0 cs with
  | none => exact last cs hcut
  | some p =>
    obtain ⟨heq, hpart, hdepth⟩ := of_cutAtComma hcut
    rw [heq]
    exact cons p.1 p.2 ⟨hpart, hdepth⟩ (comma_induction last cons p.2)
termination_by cs.length
decreasing_by
  rw [heq, List.length_append, List.length_cons]
  omega

/-- A part of a list stands in its text, and no comma of it separates. -/
theorem of_mem_commaParts {cs part : List Char} (h : part ∈ commaParts 0 cs) :
    cutAtComma 0 part = none ∧ part <:+: cs := by
  induction cs using comma_induction with
  | last cs hcut =>
    rw [commaParts_of_no_comma hcut, List.mem_singleton] at h
    rw [h]
    exact ⟨hcut, List.infix_rfl⟩
  | cons first rest hwhole ih =>
    rw [commaParts_append_comma hwhole.no_comma hwhole.depth_eq] at h
    rcases List.mem_cons.mp h with rfl | h
    · exact ⟨hwhole.no_comma, (List.prefix_append part _).isInfix⟩
    · have hrest : rest <:+ first ++ ',' :: rest :=
        (List.suffix_cons ',' rest).trans (List.suffix_append first _)
      exact ⟨(ih h).1, (ih h).2.trans hrest.isInfix⟩

/-! ## Lists -/

/-- An element that a list can hold. -/
structure IsItem (item : List Char) : Prop where
  whole : Whole 0 item
  trimmed : trim item = item
  ne_nil : item ≠ []

theorem mem_of_mem_intercalate {sep : List Char} {parts : List (List Char)} {c : Char}
    (h : c ∈ List.intercalate sep parts) : c ∈ sep ∨ ∃ p ∈ parts, c ∈ p := by
  induction parts with
  | nil => cases h
  | cons p parts ih =>
    cases parts with
    | nil =>
      rw [List.intercalate_singleton] at h
      exact Or.inr ⟨p, List.mem_cons_self, h⟩
    | cons q parts =>
      rw [List.intercalate_cons_cons, List.mem_append, List.mem_append] at h
      rcases h with (h | h) | h
      · exact Or.inr ⟨p, List.mem_cons_self, h⟩
      · exact Or.inl h
      · rcases ih h with hsep | ⟨r, hr, hc⟩
        · exact Or.inl hsep
        · exact Or.inr ⟨r, List.mem_cons_of_mem p hr, hc⟩

/-- A text in one piece is the only element, if there is anything in it. -/
theorem listItems_of_no_comma {cs : List Char} (h : cutAtComma 0 cs = none) :
    listItems cs = if allBlank cs then [] else [trim cs] := by
  unfold listItems
  rw [commaParts_of_no_comma h]
  by_cases hb : allBlank cs = true
  · simp [hb, trim_eq_nil_iff.mpr hb]
  · simp [hb, trim_eq_nil_iff]

/-- A comma behind a text in one piece ends its elements. -/
theorem listItems_append_comma {part : List Char} (h : Whole 0 part) (rest : List Char) :
    listItems (part ++ ',' :: rest) = listItems part ++ listItems rest := by
  unfold listItems
  rw [commaParts_append_comma h.no_comma h.depth_eq, commaParts_of_no_comma h.no_comma,
    List.map_cons, ← List.singleton_append, List.filter_append, List.map_singleton]

theorem listItems_of_allBlank {w : List Char} (h : allBlank w = true) : listItems w = [] := by
  rw [listItems_of_no_comma (whole_of_allBlank h).no_comma, if_pos h]

theorem cutAtComma_blank_append {v cs : List Char} (hv : allBlank v = true) :
    cutAtComma 0 (v ++ cs) = (cutAtComma 0 cs).map fun p => (v ++ p.1, p.2) := by
  have hwhole : Whole 0 v := whole_of_allBlank hv
  rw [cutAtComma_append hwhole.no_comma, hwhole.depth_eq]

/-- White space in front of a list does not show. -/
theorem listItems_blank_append {v cs : List Char} (hv : allBlank v = true) :
    listItems (v ++ cs) = listItems cs := by
  have hpiece : ∀ part, cutAtComma 0 part = none → listItems (v ++ part) = listItems part := by
    intro part hpart
    have hpad : cutAtComma 0 (v ++ part) = none := by rw [cutAtComma_blank_append hv, hpart]; rfl
    rw [listItems_of_no_comma hpart, listItems_of_no_comma hpad, allBlank_append, hv,
      Bool.true_and, trim_blank_append hv]
  induction cs using comma_induction with
  | last cs hcut => exact hpiece cs hcut
  | cons part rest hwhole _ =>
    rw [← List.append_assoc, listItems_append_comma ((whole_of_allBlank hv).append hwhole),
      hpiece part hwhole.no_comma, listItems_append_comma hwhole]

theorem IsItem.listItems_eq {item : List Char} (h : IsItem item) : listItems item = [item] := by
  have hblank : allBlank item = false := by
    rw [← trim_ne_nil_iff, h.trimmed]
    exact h.ne_nil
  rw [listItems_of_no_comma h.whole.no_comma, hblank, if_neg Bool.false_ne_true, h.trimmed]

/-- A list joined with commas, and white space behind each, is taken apart
into the same elements. -/
theorem listItems_intercalate {gap : List Char} (hgap : allBlank gap = true)
    {items : List (List Char)} (h : ∀ i ∈ items, IsItem i) :
    listItems (List.intercalate (',' :: gap) items) = items := by
  induction items with
  | nil => rfl
  | cons item items ih =>
    have hitem := h item List.mem_cons_self
    have hrest := ih fun i hi => h i (List.mem_cons_of_mem item hi)
    cases items with
    | nil => rw [List.intercalate_singleton, hitem.listItems_eq]
    | cons next items =>
      rw [List.intercalate_cons_cons, List.append_assoc, List.cons_append,
        listItems_append_comma hitem.whole, hitem.listItems_eq, listItems_blank_append hgap, hrest,
        List.singleton_append]

/-- Texts in one piece, joined with commas, have the elements that each of them has. -/
theorem listItems_join {parts : List (List Char)} (h : ∀ p ∈ parts, Whole 0 p) :
    listItems (List.intercalate [','] parts) = parts.flatMap listItems := by
  induction parts with
  | nil => rfl
  | cons p parts ih =>
    have hrest := ih fun q hq => h q (List.mem_cons_of_mem p hq)
    cases parts with
    | nil => simp
    | cons q parts =>
      rw [List.intercalate_cons_cons, List.append_assoc, List.singleton_append,
        listItems_append_comma (h p List.mem_cons_self), hrest]
      rfl

/-! ## Balance -/

theorem balancedFrom_opening {c : Char} (h : isOpening c = true) (outer rest : List Char) :
    balancedFrom outer (c :: rest) = balancedFrom (c :: outer) rest := if_pos h

theorem balancedFrom_closing {c : Char} (h : isClosing c = true) (o : Char)
    (outer rest : List Char) :
    balancedFrom (o :: outer) (c :: rest) =
      ((o = '{' && c = '}' || o = '(' && c = ')') && balancedFrom outer rest) := by
  have ho : ¬isOpening c = true := by simp [not_opening_of_closing h]
  exact (if_neg ho).trans (if_pos h)

theorem balancedFrom_nil_closing {c : Char} (h : isClosing c = true) (rest : List Char) :
    balancedFrom [] (c :: rest) = false := by
  have ho : ¬isOpening c = true := by simp [not_opening_of_closing h]
  exact (if_neg ho).trans (if_pos h)

theorem balancedFrom_other {c : Char} (h : isBracket c = false) (outer rest : List Char) :
    balancedFrom outer (c :: rest) = balancedFrom outer rest := by
  have ho : ¬isOpening c = true := by simp [not_opening_of_not_bracket h]
  have hc : ¬isClosing c = true := by simp [not_closing_of_not_bracket h]
  exact (if_neg ho).trans (if_neg hc)

/-- A text that closes what it opens, and the brackets that were open before
it, leaves the others to the text behind it. -/
theorem balancedFrom_append {inner a : List Char} (h : balancedFrom inner a = true)
    (outer b : List Char) : balancedFrom (inner ++ outer) (a ++ b) = balancedFrom outer b := by
  induction a generalizing inner with
  | nil =>
    have hnil : inner = [] := List.isEmpty_iff.mp h
    rw [hnil]
    rfl
  | cons c a ih =>
    rw [List.cons_append]
    by_cases ho : isOpening c = true
    · rw [balancedFrom_opening ho] at h ⊢
      exact ih h
    · by_cases hc : isClosing c = true
      · cases inner with
        | nil =>
          rw [balancedFrom_nil_closing hc] at h
          cases h
        | cons o inner =>
          rw [balancedFrom_closing hc, Bool.and_eq_true] at h
          rw [List.cons_append, balancedFrom_closing hc, h.1, Bool.true_and]
          exact ih h.2
      · have hplain : isBracket c = false := by simp [isBracket, ho, hc]
        rw [balancedFrom_other hplain] at h ⊢
        exact ih h

theorem balanced_append {a b : List Char} (ha : balanced a = true) (hb : balanced b = true) :
    balanced (a ++ b) = true := (balancedFrom_append ha [] b).trans hb

theorem balancedFrom_of_plain {a : List Char} (h : Plain a) (outer : List Char) :
    balancedFrom outer a = outer.isEmpty := by
  induction a with
  | nil => rfl
  | cons c a ih =>
    rw [balancedFrom_other (h c List.mem_cons_self)]
    exact ih fun d hd => h d (List.mem_cons_of_mem c hd)

theorem balanced_of_plain {a : List Char} (h : Plain a) : balanced a = true :=
  balancedFrom_of_plain h []

theorem balanced_braces {a : List Char} (h : balanced a = true) :
    balanced ('{' :: (a ++ ['}'])) = true :=
  balancedFrom_append h ['{'] ['}']

theorem balanced_parentheses {a : List Char} (h : balanced a = true) :
    balanced ('(' :: (a ++ [')'])) = true :=
  balancedFrom_append h ['('] [')']

theorem balanced_intercalate {sep : List Char} (hsep : balanced sep = true)
    {parts : List (List Char)} (h : ∀ p ∈ parts, balanced p = true) :
    balanced (List.intercalate sep parts) = true := by
  induction parts with
  | nil => rfl
  | cons p parts ih =>
    have hp := h p List.mem_cons_self
    have hparts := ih fun q hq => h q (List.mem_cons_of_mem p hq)
    cases parts with
    | nil => rw [List.intercalate_singleton, hp]
    | cons q parts =>
      rw [List.intercalate_cons_cons]
      exact balanced_append (balanced_append hp hsep) hparts

end Stepwise.Text
