import Logbook.Proofs.Query.Literal

/-!
# Lists of literals in a query

A list is read item by item, and how much fuel the reader has does not matter (`items?_cons`).
Behind a readable item and its comma the reader is where it was before, with one item more
(`items?_of_readable`), so a list of readable literals is read back, and in any other list the
reader gets as far as the first literal that is not readable.
-/

namespace Logbook

namespace Query

/-- Literals, each with the comma and the space behind it. -/
def itemsText (literals : List Value) : List Char :=
  literals.flatMap fun literal => (Predicate.renderLiteral literal).toList ++ [',', ' ']

/-- What stands behind a literal of a list, up to the closing bracket. -/
def restText : List Value → List Char
  | [] => []
  | literal :: literals =>
      [',', ' '] ++ (Predicate.renderLiteral literal).toList ++ restText literals

theorem intercalate_cons (literal : Value) (literals : List Value) :
    (", ".intercalate ((literal :: literals).map Predicate.renderLiteral)).toList =
      (Predicate.renderLiteral literal).toList ++ restText literals := by
  induction literals generalizing literal with
  | nil => simp [restText]
  | cons next literals ih =>
    rw [List.map_cons, List.map_cons, String.intercalate_cons_cons, String.toList_append,
      String.toList_append, ← List.map_cons, ih, restText]
    simp

/-- The text of a list at one of its literals. -/
theorem intercalate_append (before : List Value) (literal : Value) (after : List Value) :
    (", ".intercalate ((before ++ literal :: after).map Predicate.renderLiteral)).toList =
      itemsText before ++ ((Predicate.renderLiteral literal).toList ++ restText after) := by
  rw [← intercalate_cons]
  induction before with
  | nil => rfl
  | cons first before ih =>
    rw [List.cons_append, List.map_cons, String.intercalate_cons_of_ne_nil (by simp),
      String.toList_append, String.toList_append, ih]
    simp [itemsText]

theorem boundary_restText (literals : List Value) (rest : List Char) :
    Boundary (restText literals ++ ']' :: rest) := by
  cases literals <;>
  · rintro c ⟨⟩
    decide

/-! ## The items of a list -/

/-- The items of a list up to its closing bracket, and the text behind it; `none` if the list
is faulty. -/
def items? (expectItem : Bool) (items : List Value) (input : List Char) :
    Option (List Value × List Char) :=
  (listItems [] (input.length + 1) expectItem items input).toOption

/-- An item takes at least its first character. -/
theorem listItem_length {input left : List Char} {item : Value}
    (h : listItem input = .ok (item, left)) : left.length < input.length := (listItem_spec h).1

/-- The items do not depend on the fuel, if there is enough. -/
theorem toOption_listItems (start : List Char) {input : List Char} {fuel : Nat}
    (h : input.length < fuel) (expectItem : Bool) (items : List Value) :
    (listItems start fuel expectItem items input).toOption = items? expectItem items input := by
  induction hlength : input.length using Nat.strongRecOn
      generalizing start fuel expectItem items input with
  | ind length ih =>
    subst hlength
    obtain ⟨fuel, rfl⟩ := Nat.exists_eq_add_one_of_ne_zero (Nat.ne_of_gt (Nat.zero_lt_of_lt h))
    have hsame {left : List Char} (hleft : left.length < input.length) (expectItem : Bool)
        (items : List Value) : (listItems start fuel expectItem items left).toOption =
          (listItems [] input.length expectItem items left).toOption := by
      rw [ih _ hleft start (by omega) expectItem items rfl,
        ih _ hleft [] hleft expectItem items rfl]
    unfold items? listItems
    cases input with
    | nil => rfl
    | cons c rest =>
      have hrest := hsame (Nat.lt_succ_self rest.length)
      dsimp only
      split
      · exact hrest _ _
      · split
        · split <;> rfl
        · split
          · exact hrest _ _
          · split
            · split
              · next hitem =>
                exact hsame (listItem_length hitem) _ _
              · rfl
            · rfl

/-- Whether a character may stand between the items of a list. -/
def isPadding (c : Char) : Bool := c == ' ' || c == '\t'

@[simp]
theorem items?_nil (expectItem : Bool) (items : List Value) : items? expectItem items [] = none :=
  rfl

/-- One step of the reader of lists. -/
theorem items?_cons (expectItem : Bool) (items : List Value) (c : Char) (rest : List Char) :
    items? expectItem items (c :: rest) =
      if isPadding c then items? expectItem items rest
      else if c == ']' then
        if expectItem && !items.isEmpty then none else some (items, rest)
      else if c == ',' && !expectItem then items? true items rest
      else if expectItem then
        (listItem (c :: rest)).toOption.bind fun (item, left) => items? false (items ++ [item]) left
      else none := by
  have hrest := toOption_listItems [] (Nat.lt_succ_self rest.length)
  rw [items?, List.length_cons, listItems]
  simp only [isPadding, apply_ite Except.toOption, hrest]
  split_ifs
  all_goals try rfl
  cases hitem : listItem (c :: rest) with
  | error fault => rfl
  | ok pair => exact toOption_listItems _ (listItem_length hitem) _ _

theorem items?_padding {padding : List Char} (h : ∀ c ∈ padding, isPadding c = true)
    (expectItem : Bool) (items : List Value) (rest : List Char) :
    items? expectItem items (padding ++ rest) = items? expectItem items rest := by
  induction padding with
  | nil => rfl
  | cons c padding ih =>
    obtain ⟨hc, hpadding⟩ := List.forall_mem_cons.mp h
    rw [List.cons_append, items?_cons, if_pos hc, ih hpadding]

/-- Where an item is due and can be read, it is read. -/
theorem items?_item {input left : List Char} {item : Value} (h : listItem input = .ok (item, left))
    (items : List Value) : items? true items input = items? false (items ++ [item]) left := by
  cases input with
  | nil => cases h
  | cons c rest =>
    -- no character that a list gives a meaning begins an item
    have hpadding : isPadding c = false := by
      by_contra hc
      simp only [isPadding, Bool.not_eq_false, Bool.or_eq_true, beq_iff_eq] at hc
      rcases hc with rfl | rfl <;> cases h
    have hclosing : (c == ']') = false := by
      refine beq_eq_false_iff_ne.mpr ?_
      rintro rfl
      cases h
    rw [items?_cons, hpadding, hclosing, h]
    simp [Except.toOption]

/-- Where an item is due and cannot be read, the list is faulty. -/
theorem items?_fault {c : Char} {rest : List Char} {fault : Fault} (hpadding : isPadding c = false)
    (hclosing : (c == ']') = false) (h : listItem (c :: rest) = .error fault)
    (items : List Value) : items? true items (c :: rest) = none := by
  rw [items?_cons, hpadding, hclosing, h]
  simp [Except.toOption]

/-- A list is an opening bracket with its items. -/
theorem toOption_tokenFrom_list (rest : List Char) :
    (tokenFrom '[' rest).toOption =
      (items? true [] rest).map fun (items, left) => (.list items, left) := by
  have htoken : tokenFrom '[' rest = (listItems ('[' :: rest) (rest.length + 1) true [] rest).map
      fun (items, left) => (.list items, left) := rfl
  rw [htoken, ← toOption_listItems ('[' :: rest) (Nat.lt_succ_self rest.length)]
  cases listItems ('[' :: rest) (rest.length + 1) true [] rest <;> rfl

/-! ## Lists that are read back -/

/-- Behind readable literals, each with a comma, a list goes on as it would without them. -/
theorem items?_of_readable {before : List Value}
    (hliteral : ∀ literal ∈ before, isLiteral literal = true)
    (hreadable : ∀ literal ∈ before, isReadable literal = true) (items : List Value)
    (tail : List Char) :
    items? true items (itemsText before ++ tail) = items? true (items ++ before) tail := by
  induction before generalizing items with
  | nil =>
    rw [List.append_nil]
    rfl
  | cons literal before ih =>
    obtain ⟨hfirst, hothers⟩ := List.forall_mem_cons.mp hliteral
    obtain ⟨hreadFirst, hreadOthers⟩ := List.forall_mem_cons.mp hreadable
    have hitem := listItem_renderLiteral hfirst hreadFirst
      (',' :: ' ' :: (itemsText before ++ tail)) (by rintro c ⟨⟩; decide)
    have htext : itemsText (literal :: before) ++ tail =
        (Predicate.renderLiteral literal).toList ++ ',' :: ' ' :: (itemsText before ++ tail) := by
      simp [itemsText]
    calc items? true items (itemsText (literal :: before) ++ tail)
        = items? false (items ++ [literal]) (',' :: ' ' :: (itemsText before ++ tail)) := by
          rw [htext, items?_item hitem]
      _ = items? true (items ++ [literal]) (itemsText before ++ tail) := by
          rw [items?_cons, items?_cons]
          rfl
      _ = items? true (items ++ literal :: before) tail := by
          rw [ih hothers hreadOthers, List.append_assoc, List.singleton_append]

theorem items?_renderLiterals {literals : List Value}
    (hliteral : ∀ literal ∈ literals, isLiteral literal = true)
    (hreadable : ∀ literal ∈ literals, isReadable literal = true) (rest : List Char) :
    items? true []
      ((", ".intercalate (literals.map Predicate.renderLiteral)).toList ++ ']' :: rest) =
        some (literals, rest) := by
  rcases List.eq_nil_or_concat literals with rfl | ⟨before, last, rfl⟩
  · rfl
  · rw [List.concat_eq_append] at hliteral hreadable ⊢
    have hlast : last ∈ before ++ [last] := List.mem_append_right _ (List.mem_cons_self ..)
    have hitem := listItem_renderLiteral (hliteral last hlast) (hreadable last hlast) (']' :: rest)
      (boundary_restText [] rest)
    rw [intercalate_append, List.append_assoc, restText, List.append_nil,
      items?_of_readable (fun l hl => hliteral l (List.mem_append_left _ hl))
        (fun l hl => hreadable l (List.mem_append_left _ hl)), items?_item hitem]
    rfl

/-- **A list of readable literals is read as a token.** -/
theorem kinds?_list {literals : List Value}
    (hliteral : ∀ literal ∈ literals, isLiteral literal = true)
    (hreadable : ∀ literal ∈ literals, isReadable literal = true) (rest : List Char) :
    kinds? ('[' ::
        ((", ".intercalate (literals.map Predicate.renderLiteral)).toList ++ ']' :: rest)) =
      (kinds? rest).map (.list literals :: ·) := by
  rw [kinds?_token rfl, toOption_tokenFrom_list, items?_renderLiterals hliteral hreadable]
  rfl

end Query

end Logbook
