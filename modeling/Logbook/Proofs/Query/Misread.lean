import Logbook.Proofs.Query.Items

/-!
# Literals that are not read back

The quote of a text ends it at the first quote inside, so a shorter text is read.  The
language has no exponents and no infinities: a number ends in front of the exponent, and
what is left starts a key.  In either case the tokens are none that the predicate has, or
none that any query has (`Misread`).
-/

namespace Logbook

namespace Query

open Decimal FloatStyle

/-- The literals that a token holds, if it is a literal or a list of literals. -/
def TokenKind.literals? : TokenKind → Option (List Value)
  | .scalar literal => some [literal]
  | .list literals => some literals
  | _ => none

/-- Where literals are due, the first token holds none or other ones, or a key follows it. -/
def Misread (literals : List Value) (kinds : List TokenKind) : Prop :=
  ∃ found more, kinds = found :: more ∧
    (found.literals? = none ∨ (∃ key rest, more = .key key :: rest) ∨
      ∃ values, found.literals? = some values ∧ Value.sameItems values literals = false)

/-! ## Words that are keys -/

theorem toLower_of_isDigit {c : Char} (hc : c.isDigit = true) : c.toLower = c := by
  unfold Char.toLower
  rw [dif_neg]
  rintro ⟨hge, -⟩
  have hle := (Char.isDigit_iff_toNat.mp hc).2
  have hge : 'A'.toNat ≤ c.toNat := UInt32.le_iff_toNat_le.mp hge
  exact absurd (Nat.le_trans hge hle) (by decide)

/-- A word that begins like no keyword is a key. -/
theorem wordKind_of_head {c : Char} (hc : c.toLower ∉ ['i', 't', 'f']) (word : List Char) :
    wordKind (String.ofList (c :: word)) = .key (String.ofList (c :: word)) := by
  have hkeyword {keyword : String}
      (h : Text.sameIgnoringCase (String.ofList (c :: word)) keyword = true) :
      ∃ d rest, keyword.toList.map Char.toLower = d :: rest ∧ c.toLower = d := by
    simp only [Text.sameIgnoringCase, Text.lowerAscii, beq_iff_eq, String.ofList_inj,
      String.toList_ofList, List.map_cons] at h
    exact ⟨_, _, h.symm, rfl⟩
  unfold wordKind
  rw [if_neg, if_neg, if_neg]
  · intro h
    obtain ⟨d, rest, hd, rfl⟩ := hkeyword h
    obtain ⟨heq, -⟩ := List.cons.inj hd
    exact hc (by rw [← heq]; decide)
  · intro h
    obtain ⟨d, rest, hd, rfl⟩ := hkeyword h
    obtain ⟨heq, -⟩ := List.cons.inj hd
    exact hc (by rw [← heq]; decide)
  · intro h
    have hin := congrArg String.toList (beq_iff_eq.mp h)
    rw [String.toList_ofList] at hin
    obtain ⟨rfl, -⟩ := List.cons.inj hin
    exact hc (by decide)

/-- Where a word begins with such a character, a key is read. -/
theorem kinds?_of_key {c : Char} {rest : List Char} {kinds : List TokenKind}
    (hc : isWordChar c = true) (hkey : c.toLower ∉ ['i', 't', 'f'])
    (hword : tokenFrom c rest = word (c :: rest))
    (h : kinds? (c :: rest) = some kinds) : ∃ key more, kinds = .key key :: more := by
  have hseparator : isSeparator c = false := by
    by_contra hc'
    simp only [isSeparator, Bool.not_eq_false, Bool.or_eq_true, beq_iff_eq] at hc'
    rcases hc' with ((rfl | rfl) | rfl) | rfl <;> cases hc
  obtain ⟨kind, left, more, htoken, -, rfl⟩ := (kinds?_cons_eq_some hseparator).mp h
  rw [hword] at htoken
  obtain ⟨-, rfl, -⟩ := word_eq_ok htoken
  rw [keyChars_cons (by rw [hc]; rfl)]
  exact ⟨_, more, by rw [wordKind_of_head hkey]⟩

/-! ## Numbers -/

theorem ofDigits_lt_of_digit {c : Char} (hc : c.isDigit = true) : Decimal.ofDigits [c] < 10 := by
  have hle : c.toNat ≤ '9'.toNat := (Char.isDigit_iff_toNat.mp hc).2
  have hnine : '9'.toNat = '0'.toNat + 9 := rfl
  simp only [Decimal.ofDigits, List.foldl_cons, List.foldl_nil, Decimal.digitValue]
  omega

theorem exists_int64?_of_lt {magnitude : Nat} (h : magnitude < 10) (negative : Bool) :
    ∃ integer, Integer.int64? (if negative then -(magnitude : Int) else magnitude) =
      some integer := by
  unfold Integer.int64?
  rw [if_pos]
  · exact ⟨_, rfl⟩
  · simp only [Integer.int64Bound, Bool.and_eq_true]
    cases negative <;> simp <;> omega

/-- A number with an exponent is read up to the exponent. -/
theorem number_scientific (negative : Bool) (number : Decimal) (exponent : Int) (rest : List Char) :
    ∃ value tail, Query.number (signText negative ++ (FloatStyle.scientific false
      (Nat.toDigits 10 number.digits) exponent ++ rest)) = .ok (value, 'e' :: tail) := by
  have hspelled := FloatStyle.spelled_scientific number
  have hmark {tail : List Char} :
      ∀ c, ('e' :: tail).head? = some c → c.isDigit = false ∧ c ≠ '.' := by
    rintro c ⟨⟩
    decide
  unfold FloatStyle.scientific
  dsimp only
  split
  · next hlength =>
    obtain ⟨c, hc⟩ : ∃ c, Nat.toDigits 10 number.digits = [c] :=
      List.length_eq_one_iff.mp (Nat.le_antisymm hlength Nat.length_toDigits_pos)
    have hdigit : c.isDigit = true :=
      Decimal.isDigit_of_mem_toDigits (hc ▸ List.mem_singleton_self c)
    obtain ⟨integer, hinteger⟩ := exists_int64?_of_lt (ofDigits_lt_of_digit hdigit) negative
    rw [hc]
    simp only [List.take_succ_cons, List.take_zero, List.append_nil, List.append_assoc,
      List.cons_append]
    have hdigits : ∀ d ∈ [c], d.isDigit = true := by simpa using hdigit
    have hne : [c] ≠ [] := List.cons_ne_nil _ _
    refine ⟨.int integer, _, number_of_digits (sign_signText negative [c] hdigits hne) hdigits hne
      hmark ?_⟩
    rw [signText_beq]
    exact hinteger
  · next hlength =>
    simp only [List.append_assoc, List.cons_append]
    exact ⟨_, _, number_spelled negative hspelled fun c hc => (hmark c hc).1⟩

/-- A finite double that is not read back has an exponent in its text. -/
theorem number_misread {number : Binary64} (hfinite : number.isFinite = true)
    (hunreadable : isReadable (.float number) = false) (rest : List Char) :
    ∃ value tail, Query.number ((number.render .display).toList ++ rest) =
      .ok (value, 'e' :: tail) := by
  cases number with
  | nan => cases hfinite
  | infinite => cases hfinite
  | finite negative mantissa exponent hcanonical =>
    have hmark : 'e' ∈ signText negative ++
        display.decimal (Binary64.shortest display.tie mantissa exponent) := by
      rw [← render_finite display negative mantissa exponent hcanonical]
      simpa [isReadable, hfinite] using hunreadable
    rw [render_finite, List.append_assoc]
    unfold FloatStyle.decimal at hmark ⊢
    dsimp only at hmark ⊢
    split at hmark
    · obtain ⟨whole, fraction, -, hdecimal, hspelled⟩ :=
        FloatStyle.spelled_plain (Binary64.shortest_zero display.tie hcanonical)
      have hdigit : 'e' ∈ whole ++ fraction := by
        rw [hdecimal] at hmark
        cases negative <;> simpa [signText] using hmark
      cases hspelled.isDigit 'e' hdigit
    · next hexponent =>
      rw [if_neg hexponent]
      exact number_scientific negative _ _ rest

/-! ## Texts -/

/-- A text with a quote inside ends there. -/
theorem text_misread {content : String} (h : '\'' ∈ content.toList) (rest start : List Char) :
    ∃ shorter left, text '\'' (content.toList ++ '\'' :: rest) start = .ok (shorter, left) ∧
      shorter ≠ content := by
  obtain ⟨before, after, hcontent, hbefore⟩ := List.eq_append_cons_of_mem h
  refine ⟨String.ofList before, after ++ '\'' :: rest, ?_, ?_⟩
  · rw [hcontent, List.append_assoc, List.cons_append]
    exact text_of_content hbefore
  · intro heq
    have hlength := congrArg (List.length ∘ String.toList) heq
    simp only [Function.comp_apply, String.toList_ofList, hcontent, List.length_append,
      List.length_cons] at hlength
    omega

/-! ## Scalars -/

theorem misread_of_key {literals : List Value} {kinds : List TokenKind}
    (h : ∃ key more, kinds = .key key :: more) : Misread literals kinds := by
  obtain ⟨key, more, rfl⟩ := h
  exact ⟨_, more, rfl, .inl rfl⟩

/-- **A literal that is not readable is misread.** -/
theorem misread_of_scalar {literal : Value} (hliteral : isLiteral literal = true)
    (hunreadable : isReadable literal = false) {rest : List Char} (hrest : Boundary rest)
    {kinds : List TokenKind}
    (h : kinds? ((Predicate.renderLiteral literal).toList ++ rest) = some kinds) :
    Misread [literal] kinds := by
  cases literal with
  | null => cases hliteral
  | list => cases hliteral
  | map => cases hliteral
  | artifact => cases hliteral
  | bool => cases hunreadable
  | int => cases hunreadable
  | str content =>
    have hquote : '\'' ∈ content.toList := by simpa [isReadable] using hunreadable
    have htext : (Predicate.renderLiteral (.str content)).toList ++ rest =
        '\'' :: (content.toList ++ '\'' :: rest) := by
      simp [Predicate.renderLiteral]
    obtain ⟨shorter, left, hshorter, hne⟩ := text_misread hquote rest
      ('\'' :: (content.toList ++ '\'' :: rest))
    have htoken : tokenFrom '\'' (content.toList ++ '\'' :: rest) =
        .ok (.scalar (.str shorter), left) :=
      (map_eq_ok (f := fun content => TokenKind.scalar (.str content))).mpr ⟨shorter, hshorter, rfl⟩
    rw [htext, kinds?_of_token htoken] at h
    obtain ⟨more, -, rfl⟩ := Option.map_eq_some_iff.mp h
    refine ⟨_, more, rfl, .inr (.inr ⟨_, rfl, ?_⟩)⟩
    simpa [Value.sameItems, Value.same] using hne
  | float number =>
    by_cases hfinite : number.isFinite = true
    · obtain ⟨value, tail, hnumber⟩ := number_misread hfinite hunreadable rest
      have htext :
          (Predicate.renderLiteral (.float number)).toList = (number.render .display).toList :=
        rfl
      rw [htext] at h
      cases hinput : (number.render .display).toList ++ rest with
      | nil =>
        rw [hinput] at hnumber
        cases hnumber
      | cons c input =>
        rw [hinput] at hnumber h
        by_cases hword : c.isDigit = true ∧ digitsStartWord (c :: input) = true
        · -- the digits in front of the exponent start a word
          obtain ⟨hdigit, hword⟩ := hword
          refine misread_of_key (kinds?_of_key (isWordChar_of_isDigit hdigit) ?_ ?_ h)
          · rw [toLower_of_isDigit hdigit]
            intro hmem
            simp only [List.mem_cons, List.not_mem_nil, or_false] at hmem
            rcases hmem with rfl | rfl | rfl <;> cases hdigit
          · rw [tokenFrom_of_isWordChar (isWordChar_of_isDigit hdigit), hdigit, hword]
            rfl
        · have htoken := tokenFrom_of_number hnumber fun hdigit => by simpa [hdigit] using hword
          rw [kinds?_of_token htoken] at h
          obtain ⟨more, hmore, rfl⟩ := Option.map_eq_some_iff.mp h
          exact ⟨_, more, rfl, .inr (.inl (kinds?_of_key rfl (by decide) rfl hmore))⟩
    · cases number with
      | finite => exact absurd rfl hfinite
      | nan => cases hliteral
      | infinite negative =>
        cases negative with
        | true =>
          obtain ⟨_, _, _, htoken, -⟩ := (kinds?_cons_eq_some rfl).mp h
          cases htoken
        | false =>
          have htoken : tokenFrom 'i' ('n' :: 'f' :: rest) = .ok (.key "inf", rest) :=
            word_append ['i', 'n', 'f'] rfl rfl hrest
          have hkinds : kinds? ('i' :: 'n' :: 'f' :: rest) = some kinds := h
          rw [kinds?_of_token htoken] at hkinds
          obtain ⟨more, -, rfl⟩ := Option.map_eq_some_iff.mp hkinds
          exact misread_of_key ⟨_, more, rfl⟩

/-! ## Lists -/

/-- What has been read of a list stays. -/
theorem exists_items?_append {expectItem : Bool} {items result : List Value}
    {input left : List Char} (h : items? expectItem items input = some (result, left)) :
    ∃ more, result = items ++ more := by
  unfold items? at h
  cases hitems : listItems [] (input.length + 1) expectItem items input with
  | error fault =>
    rw [hitems] at h
    cases h
  | ok pair =>
    rw [hitems] at h
    cases h
    obtain ⟨-, more, rfl, -⟩ := listItems_spec hitems
    exact ⟨more, rfl⟩

/-- An item that is not readable gives no list, or one with another item in its place. -/
theorem items?_misread {literal : Value} (hliteral : isLiteral literal = true)
    (hunreadable : isReadable literal = false) {rest left : List Char} (hrest : Boundary rest)
    {items result : List Value}
    (h : items? true items ((Predicate.renderLiteral literal).toList ++ rest) =
      some (result, left)) :
    ∃ other more, result = items ++ other :: more ∧ other.same literal = false := by
  cases literal with
  | null => cases hliteral
  | list => cases hliteral
  | map => cases hliteral
  | artifact => cases hliteral
  | bool => cases hunreadable
  | int => cases hunreadable
  | str content =>
    have hquote : '\'' ∈ content.toList := by simpa [isReadable] using hunreadable
    have htext : (Predicate.renderLiteral (.str content)).toList ++ rest =
        '\'' :: (content.toList ++ '\'' :: rest) := by
      simp [Predicate.renderLiteral]
    obtain ⟨shorter, after, hshorter, hne⟩ := text_misread hquote rest
      ('\'' :: (content.toList ++ '\'' :: rest))
    have hitem : listItem ('\'' :: (content.toList ++ '\'' :: rest)) = .ok (.str shorter, after) :=
      map_eq_ok.mpr ⟨shorter, hshorter, rfl⟩
    rw [htext, items?_item hitem] at h
    obtain ⟨more, rfl⟩ := exists_items?_append h
    refine ⟨.str shorter, more, by simp, ?_⟩
    simpa [Value.same] using hne
  | float number =>
    by_cases hfinite : number.isFinite = true
    · obtain ⟨value, tail, hnumber⟩ := number_misread hfinite hunreadable rest
      have hbehind := (items?_item (listItem_of_number hnumber) items).symm.trans h
      rw [items?_cons] at hbehind
      cases hbehind
    · cases number with
      | finite => exact absurd rfl hfinite
      | nan => cases hliteral
      | infinite negative =>
        cases negative with
        | true => cases h
        | false =>
          have hword : word ('i' :: 'n' :: 'f' :: rest) = .ok (.key "inf", rest) :=
            word_append ['i', 'n', 'f'] rfl rfl hrest
          have hfault : listItem ('i' :: 'n' :: 'f' :: rest) =
              .error ⟨.nonScalarItem, 'i' :: 'n' :: 'f' :: rest⟩ :=
            listItem_of_word rfl rfl rfl hword
          cases (items?_fault rfl rfl hfault items).symm.trans h

theorem sameItems_append_cons {before more after : List Value} {other literal : Value}
    (h : other.same literal = false) :
    Value.sameItems (before ++ other :: more) (before ++ literal :: after) = false := by
  induction before with
  | nil => simp [Value.sameItems, h]
  | cons first before ih => simp [Value.sameItems, ih]

/-- **A list with a literal that is not readable is misread.** -/
theorem misread_of_list {literals : List Value}
    (hliteral : ∀ literal ∈ literals, isLiteral literal = true)
    (hunreadable : ∃ literal ∈ literals, isReadable literal = false) {rest : List Char}
    {kinds : List TokenKind} (h : kinds? ('[' :: ((", ".intercalate
      (literals.map Predicate.renderLiteral)).toList ++ ']' :: rest)) = some kinds) :
    Misread literals kinds := by
  obtain ⟨first, hfirst⟩ :
      ∃ first, literals.find? (fun literal => !isReadable literal) = some first := by
    rw [← Option.isSome_iff_exists, List.find?_isSome]
    simpa using hunreadable
  obtain ⟨hfirstUnreadable, before, after, rfl, hbefore⟩ := List.find?_eq_some_iff_append.mp hfirst
  simp only [Bool.not_eq_true', Bool.not_not] at hfirstUnreadable hbefore
  rw [kinds?_token rfl, toOption_tokenFrom_list, Option.bind_eq_some_iff] at h
  obtain ⟨⟨kind, left⟩, htoken, hkinds⟩ := h
  obtain ⟨⟨items, _⟩, hitems, hpair⟩ := Option.map_eq_some_iff.mp htoken
  obtain ⟨rfl, rfl⟩ := Prod.mk.inj hpair
  obtain ⟨more, -, rfl⟩ := Option.map_eq_some_iff.mp hkinds
  rw [intercalate_append, List.append_assoc, List.append_assoc,
    items?_of_readable (fun l hl => hliteral l (List.mem_append_left _ hl)) hbefore] at hitems
  obtain ⟨other, others, rfl, hother⟩ := items?_misread
    (hliteral first (List.mem_append_right _ (List.mem_cons_self ..))) hfirstUnreadable
    (boundary_restText after rest) hitems
  exact ⟨_, more, rfl, .inr (.inr ⟨_, rfl, sameItems_append_cons hother⟩)⟩

end Query

end Logbook
