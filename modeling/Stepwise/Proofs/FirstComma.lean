-- The first comma that separates. A text can be cut there, or all of its elements can
-- be taken at once: the first part is the first element, and the rest of the text,
-- read from depth zero again, has the others. In a balanced text the depth is never
-- held at zero, for as many brackets are open as the check has on its stack.
import Stepwise.Proofs.BalancedParts

namespace Stepwise.Text

variable {cs a b : List Char} {text : String}

/-! ## Cutting and listing -/

/-- The elements of a text in which no comma separates: the text itself, trimmed, if
it is not blank. -/
def onlyItem (cs : List Char) : List String :=
  if allBlank cs then [] else [String.ofList (trim cs)]

theorem whole_of_cutAtComma (h : cutAtComma 0 cs = some (a, b)) :
    cs = a ++ ',' :: b ∧ Whole 0 a := by
  obtain ⟨heq, hnone, hdepth⟩ := of_cutAtComma h
  exact ⟨heq, hnone, hdepth⟩

theorem parseList_ofList (cs : List Char) :
    parseList (String.ofList cs) = (listItems cs).map String.ofList := by
  unfold parseList
  rw [String.toList_ofList]

theorem map_listItems_of_no_comma (h : cutAtComma 0 cs = none) :
    (listItems cs).map String.ofList = onlyItem cs := by
  unfold onlyItem
  rw [listItems_of_no_comma h]
  split <;> rfl

/-- To cut a text at its first comma is to take its first element off. -/
structure CutsAsListed (text : String) : Prop where
  cut : ∀ a b, cutAtComma 0 text.toList = some (a, b) →
    parseList text = parseList (String.ofList a) ++ parseList (String.ofList b) ∧
      parseList (String.ofList a) = onlyItem a
  uncut : cutAtComma 0 text.toList = none → parseList text = onlyItem text.toList

theorem cutsAsListed (text : String) : CutsAsListed text where
  cut := by
    intro a b hcut
    obtain ⟨heq, hwhole⟩ := whole_of_cutAtComma hcut
    refine ⟨?_, (parseList_ofList a).trans (map_listItems_of_no_comma hwhole.no_comma)⟩
    rw [parseList_ofList, parseList_ofList, ← List.map_append, ← listItems_append_comma hwhole,
      ← heq]
    rfl
  uncut := map_listItems_of_no_comma

/-! ## The depth in a balanced text -/

/-- From depth zero on, every closing bracket is met at a depth that it lowers. So at
every place the depth is the number of brackets opened, less those closed. -/
structure CountsExactly (cs : List Char) : Prop where
  lowered : ∀ before c after, cs = before ++ c :: after → isClosing c = true →
    depthAt 0 before ≠ 0
  depth_eq : ∀ before after, cs = before ++ after →
    depthAt 0 before + before.countP isClosing = before.countP isOpening

/-- The check has a bracket on its stack for each closing one, so the depth is not zero. -/
theorem depthAt_ne_zero_of_balanced {before after : List Char} {c : Char}
    (h : balanced (before ++ c :: after) = true) (hc : isClosing c = true) :
    depthAt 0 before ≠ 0 := by
  obtain ⟨left, hlength, hleft⟩ := exists_open_of_balancedFrom h
  have hrest : balancedFrom left (c :: after) = true := (hleft (c :: after)).symm.trans h
  cases left with
  | nil =>
    rw [balancedFrom_nil_closing hc] at hrest
    cases hrest
  | cons o left =>
    intro hzero
    cases hlength.trans hzero

/-- Where no closing bracket meets depth zero, the depth counts. -/
theorem depthAt_add_countP (hlowered : ∀ before c after, cs = before ++ c :: after →
    isClosing c = true → depthAt 0 before ≠ 0) :
    depthAt 0 cs + cs.countP isClosing = cs.countP isOpening := by
  -- from the end, for the last character is met at the depth of all before it
  induction cs using List.reverseRecOn with
  | nil => rfl
  | append_singleton cs c ih =>
    have hcount := ih fun before d after heq => hlowered before d (after ++ [c]) (by simp [heq])
    have hdepth : depthAt 0 (cs ++ [c]) = depthAfter (depthAt 0 cs) c := depthAt_append 0 cs [c]
    rw [hdepth, List.countP_append, List.countP_append, List.countP_singleton,
      List.countP_singleton]
    by_cases ho : isOpening c = true
    · have hc : isClosing c = false := by
        rw [Bool.eq_false_iff]
        intro hc
        rw [not_opening_of_closing hc] at ho
        cases ho
      rw [depthAfter_opening _ ho, if_pos ho, hc, if_neg Bool.false_ne_true]
      omega
    · by_cases hc : isClosing c = true
      · have hpos := hlowered cs c [] rfl hc
        rw [depthAfter_closing _ hc, if_pos hc, if_neg ho]
        omega
      · have hplain : isBracket c = false := by simp [isBracket, ho, hc]
        rw [depthAfter_of_not_bracket _ hplain, if_neg hc, if_neg ho]
        omega

theorem countsExactly_of_balanced (h : balanced cs = true) : CountsExactly cs where
  lowered := by
    rintro before c after rfl
    exact depthAt_ne_zero_of_balanced h
  depth_eq := by
    rintro before after rfl
    apply depthAt_add_countP
    rintro start c rest rfl hc
    rw [List.append_assoc, List.cons_append] at h
    exact depthAt_ne_zero_of_balanced h hc

/-! ## Balanced texts -/

/-- What is made of a balanced text is balanced as well. -/
structure StaysBalanced (text : String) : Prop where
  counts : CountsExactly text.toList
  items : ∀ item ∈ parseList text, balanced item.toList = true
  parts : ∀ a b, cutAtComma 0 text.toList = some (a, b) → balanced a = true ∧ balanced b = true

theorem staysBalanced (h : balanced text.toList = true) : StaysBalanced text where
  counts := countsExactly_of_balanced h
  items := by
    intro item hitem
    apply balanced_of_mem_listItems h
    rw [← map_toList_parseList]
    exact List.mem_map_of_mem hitem
  parts := by
    intro a b hcut
    obtain ⟨heq, hwhole⟩ := whole_of_cutAtComma hcut
    rw [heq] at h
    exact (balanced_append_comma_iff hwhole.depth_eq).mp h

/-- The cut at the first comma, the list of all elements and the check of the brackets
read a text alike. -/
theorem cutting_listing_and_checking_agree (text : String) :
    CutsAsListed text ∧ (balanced text.toList = true → StaysBalanced text) :=
  ⟨cutsAsListed text, staysBalanced⟩

/-- The first comma that separates is the one behind both brackets. -/
def nested : String := "(\x7b0, 1\x7d,) , q2,\x7b,\x7d"

theorem nested_is_cut_as_listed :
    cutAtComma 0 nested.toList = some ("(\x7b0, 1\x7d,) ".toList, " q2,\x7b,\x7d".toList) ∧
    balanced nested.toList = true ∧
    parseList nested = "(\x7b0, 1\x7d,)" :: parseList " q2,\x7b,\x7d" ∧
    cutAtComma 0 "q\x7b1, 2\x7d ".toList = none ∧ parseList "q\x7b1, 2\x7d " = ["q\x7b1, 2\x7d"] ∧
    StaysBalanced nested := by
  have hcut : cutAtComma 0 nested.toList =
      some ("(\x7b0, 1\x7d,) ".toList, " q2,\x7b,\x7d".toList) := by decide
  have huncut : cutAtComma 0 "q\x7b1, 2\x7d ".toList = none := by decide
  have hbalanced : balanced nested.toList = true := by decide
  have hparts := (cutting_listing_and_checking_agree nested).1.cut _ _ hcut
  refine ⟨hcut, hbalanced, ?_, huncut,
    (cutting_listing_and_checking_agree "q\x7b1, 2\x7d ").1.uncut huncut,
    (cutting_listing_and_checking_agree nested).2 hbalanced⟩
  rw [hparts.1, hparts.2]
  rfl

end Stepwise.Text
