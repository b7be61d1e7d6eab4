-- Comma separated lists, put together and taken apart. The depth of the
-- brackets runs on from one element to the next, so an element may hold
-- brackets that close nothing, but only the last one may leave one open.
import Stepwise.Proofs.Nesting

namespace Stepwise.Text

variable {cs v w item : List Char} {items : List (List Char)}

/-! ## Tokens -/

/-- An element at the end of a list: only the end of the text ends it. -/
structure OpenToken (item : List Char) : Prop where
  ne_nil : item ≠ []
  trimmed : trim item = item
  sheltered : Sheltered 0 item

/-- An element that closes what it opens, so that a comma behind it ends it. -/
structure Token (item : List Char) : Prop extends OpenToken item where
  depth_eq : depthAt 0 item = 0

/-- Tokens, of which the last one may be left open. -/
inductive TokenList : List (List Char) → Prop
  | nil : TokenList []
  | last {item : List Char} : OpenToken item → TokenList [item]
  | cons {item : List Char} {items : List (List Char)} :
      Token item → TokenList items → TokenList (item :: items)

/-- The text is the elements with a comma between each two, and with white
space around each comma and at both ends. -/
inductive Joined : List (List Char) → List Char → Prop
  | nil {v : List Char} : allBlank v = true → Joined [] v
  | last {v item w : List Char} :
      allBlank v = true → allBlank w = true → Joined [item] (v ++ item ++ w)
  | cons {v item w next text : List Char} {items : List (List Char)} :
      allBlank v = true → allBlank w = true → Joined (next :: items) text →
        Joined (item :: next :: items) (v ++ item ++ w ++ ',' :: text)

theorem Token.whole (h : Token item) : Whole 0 item :=
  ⟨cutAtComma_eq_none_iff.mpr h.sheltered, h.depth_eq⟩

theorem OpenToken.allBlank_eq (h : OpenToken item) : allBlank item = false := by
  rw [← trim_ne_nil_iff, h.trimmed]
  exact h.ne_nil

/-! ## Taking a text apart -/

/-- White space around a text does not shelter commas, and it opens none. -/
theorem sheltered_trim (h : cutAtComma 0 cs = none) : Sheltered 0 (trim cs) := by
  obtain ⟨v, w, hv, -, hcs⟩ := exists_eq_trim cs
  intro before after heq
  have hblank : depthAt 0 v = 0 := (whole_of_allBlank hv).depth_eq
  have hall : cs = (v ++ before) ++ ',' :: (after ++ w) := by
    rw [hcs, heq]
    simp
  have hdepth := cutAtComma_eq_none_iff.mp h (v ++ before) (after ++ w) hall
  rwa [depthAt_append, hblank] at hdepth

theorem depthAt_trim (cs : List Char) : depthAt 0 (trim cs) = depthAt 0 cs := by
  obtain ⟨v, w, hv, hw, hcs⟩ := exists_eq_trim cs
  conv_rhs => rw [hcs, depthAt_append, depthAt_append, (whole_of_allBlank hv).depth_eq,
    (whole_of_allBlank hw).depth_eq]

theorem openToken_trim (h : cutAtComma 0 cs = none) (hb : allBlank cs = false) :
    OpenToken (trim cs) :=
  ⟨trim_ne_nil_iff.mpr hb, trim_trim cs, sheltered_trim h⟩

/-- Whatever brackets a text has, its elements are tokens. -/
theorem tokenList_listItems (cs : List Char) : TokenList (listItems cs) := by
  induction cs using comma_induction with
  | last cs h =>
    rw [listItems_of_no_comma h]
    split
    · exact .nil
    · rename_i hb
      exact .last (openToken_trim h (by simpa using hb))
  | cons part rest h ih =>
    rw [listItems_append_comma h, listItems_of_no_comma h.no_comma]
    split
    · exact ih
    · rename_i hb
      refine .cons ⟨openToken_trim h.no_comma (by simpa using hb), ?_⟩ ih
      rw [depthAt_trim, h.depth_eq]

/-! ## Putting a list together -/

/-- White space around an element shelters no comma of it. -/
theorem OpenToken.cutAtComma_pad (h : OpenToken item) (hv : allBlank v = true)
    (hw : allBlank w = true) : cutAtComma 0 (v ++ item ++ w) = none := by
  have hpad : Whole 0 v := whole_of_allBlank hv
  rw [List.append_assoc, cutAtComma_append hpad.no_comma, hpad.depth_eq,
    cutAtComma_append (cutAtComma_eq_none_iff.mpr h.sheltered), (whole_of_allBlank hw).no_comma]
  rfl

theorem OpenToken.listItems_pad (h : OpenToken item) (hv : allBlank v = true)
    (hw : allBlank w = true) : listItems (v ++ item ++ w) = [item] := by
  rw [listItems_of_no_comma (h.cutAtComma_pad hv hw), allBlank_append, allBlank_append,
    h.allBlank_eq, trim_append_blank hw, trim_blank_append hv, h.trimmed]
  simp

/-- An element stands for itself. -/
theorem OpenToken.listItems_eq (h : OpenToken item) : listItems item = [item] := by
  simpa using h.listItems_pad (v := []) (w := []) rfl rfl

theorem Token.listItems_cons (h : Token item) (hv : allBlank v = true) (hw : allBlank w = true)
    (rest : List Char) : listItems (v ++ item ++ w ++ ',' :: rest) = item :: listItems rest := by
  have hwhole := ((whole_of_allBlank hv).append h.whole).append (whole_of_allBlank hw)
  rw [listItems_append_comma hwhole, h.listItems_pad hv hw, List.singleton_append]

theorem TokenList.openToken (h : TokenList (item :: items)) : OpenToken item := by
  cases h with
  | last h => exact h
  | cons h _ => exact h.toOpenToken

/-- A joined list of tokens comes apart into these tokens. -/
theorem Joined.listItems_eq {text : List Char} (h : Joined items text) (htokens : TokenList items) :
    listItems text = items := by
  induction h with
  | nil hv => exact listItems_of_allBlank hv
  | last hv hw => exact htokens.openToken.listItems_pad hv hw
  | cons hv hw _ ih =>
    cases htokens with
    | cons htoken htokens => rw [htoken.listItems_cons hv hw, ih htokens]

/-- White space in front goes to the first element. -/
theorem Joined.blank_append {text : List Char} (h : Joined items text) (hv : allBlank v = true) :
    Joined items (v ++ text) := by
  have hboth : ∀ {w : List Char}, allBlank w = true → allBlank (v ++ w) = true := by
    intro w hw
    rw [allBlank_append, hv, hw]
    rfl
  cases h with
  | nil hw => exact .nil (hboth hw)
  | last hw hw' => simpa using Joined.last (hboth hw) hw'
  | cons hw hw' hrest => simpa using Joined.cons (hboth hw) hw' hrest

theorem joined_intercalate {gap : List Char} (hgap : allBlank gap = true)
    (items : List (List Char)) : Joined items (List.intercalate (',' :: gap) items) := by
  induction items with
  | nil => exact .nil rfl
  | cons item items ih =>
    cases items with
    | nil =>
      have hlast : Joined [item] ([] ++ item ++ []) := .last rfl rfl
      simpa using hlast
    | cons next items =>
      have hcons : Joined (item :: next :: items)
          ([] ++ item ++ [] ++ ',' :: (gap ++ List.intercalate (',' :: gap) (next :: items))) :=
        .cons rfl rfl (ih.blank_append hgap)
      simpa using hcons

/-! ## Lists as texts -/

theorem map_toList_parseList (text : String) :
    (parseList text).map String.toList = listItems text.toList := by
  simp [parseList, Function.comp_def]

theorem parseList_eq_iff {text : String} {items : List String} :
    parseList text = items ↔ listItems text.toList = items.map String.toList := by
  rw [← map_toList_parseList]
  exact ((List.map_injective_iff.mpr fun _ _ => String.toList_inj.mp).eq_iff).symm

theorem tokenList_parseList (text : String) : TokenList ((parseList text).map String.toList) := by
  rw [map_toList_parseList]
  exact tokenList_listItems text.toList

/-- A list that is joined with commas is read back exactly if its elements are
tokens. What is read from any text is such a list, so it can be joined and read
again without a change. -/
theorem splitting_undoes_joining :
    (∀ (items : List String) (text : String), Joined (items.map String.toList) text.toList →
      (parseList text = items ↔ TokenList (items.map String.toList))) ∧
    (∀ text : String, TokenList ((parseList text).map String.toList)) ∧
    ∀ text : String, parseList (", ".intercalate (parseList text)) = parseList text := by
  refine ⟨fun items text hjoined => ⟨?_, fun h => ?_⟩, tokenList_parseList, fun text => ?_⟩
  · rintro rfl
    exact tokenList_parseList text
  · exact parseList_eq_iff.mpr (hjoined.listItems_eq h)
  · have hgap : allBlank [' '] = true := by decide
    rw [parseList_eq_iff, String.toList_intercalate]
    exact (joined_intercalate hgap _).listItems_eq (tokenList_parseList text)

/-- The comma in the set and the one behind the open parenthesis part nothing. -/
def stray : List String := ["q\x7b0, 1\x7d", "b)", "(c , d"]

theorem stray_is_split : Joined (stray.map String.toList) " q\x7b0, 1\x7d ,b),\t(c , d".toList ∧
    TokenList (stray.map String.toList) ∧ parseList " q\x7b0, 1\x7d ,b),\t(c , d" = stray := by
  have hjoined : Joined (stray.map String.toList) " q\x7b0, 1\x7d ,b),\t(c , d".toList :=
    .cons (v := [' ']) (w := [' ']) (by decide) (by decide)
      (.cons (v := []) (w := []) rfl rfl (.last (v := ['\t']) (w := []) (by decide) rfl))
  have htokens : TokenList (stray.map String.toList) :=
    .cons ⟨⟨by decide, by decide, cutAtComma_eq_none_iff.mp (by decide)⟩, by decide⟩
      (.cons ⟨⟨by decide, by decide, cutAtComma_eq_none_iff.mp (by decide)⟩, by decide⟩
        (.last ⟨by decide, by decide, cutAtComma_eq_none_iff.mp (by decide)⟩))
  exact ⟨hjoined, htokens, (splitting_undoes_joining.1 stray _ hjoined).mpr htokens⟩

end Stepwise.Text
