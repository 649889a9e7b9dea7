import Logbook.Proofs.Query.Offset

/-!
# Reading undoes writing

Tokens written one after another, with white space between them, are read as these tokens,
each at the byte where it was written (`tokenize_written`).

What texts write a token is a relation (`Spells`), which leaves the writer every freedom that
the language has: an integer may have a sign and leading zeros, a double may be any decimal
with a point that rounds to it, a truth value may be in any case, a text may stand between
either quote that it does not contain, and a list may have spaces and tabs around its items.

The text of a token is read whole where it stands alone, and where nothing goes on behind it
more text makes no difference; so each token comes down to its own text (`tokenFrom_spelled`)
and the sequence to an induction over its tokens.
-/

namespace Logbook

namespace Query

/-! ## How a token is written -/

/-- The sign in front of a number, none if it is not negative. -/
inductive SpellsSign : Bool → List Char → Prop
  | none : SpellsSign false []
  | plus : SpellsSign false ['+']
  | minus : SpellsSign true ['-']

/-- How a literal that is not a list is written.  A double is written as any decimal of the
interval of numbers that are rounded to it. -/
inductive SpellsScalar : Value → List Char → Prop
  | int {negative : Bool} {signs digits : List Char} {integer : Int64}
      (hsign : SpellsSign negative signs) (hne : digits ≠ [])
      (hdigits : ∀ c ∈ digits, c.isDigit = true)
      (hvalue : integer.toInt = Binary64.signed negative (Decimal.ofDigits digits)) :
      SpellsScalar (.int integer) (signs ++ digits)
  | float {negative : Bool} {signs whole fraction : List Char} {mantissa exponent : Nat}
      (hcanonical : Binary64.Canonical mantissa exponent) (hsign : SpellsSign negative signs)
      (hne : whole ++ fraction ≠ []) (hdigits : ∀ c ∈ whole ++ fraction, c.isDigit = true)
      (hvalue : (Binary64.roundingInterval mantissa exponent).Holds
        (4 * (Binary64.unitsPerOne *
          (Decimal.mk (Decimal.ofDigits (whole ++ fraction)) (-(fraction.length : Int))).value))) :
      SpellsScalar (.float (.finite negative mantissa exponent hcanonical))
        (signs ++ (whole ++ '.' :: fraction))
  | bool {truth : Bool} {word : String}
      (hword : Text.sameIgnoringCase word (if truth then "true" else "false") = true) :
      SpellsScalar (.bool truth) word.toList
  | text {quote : Char} {content : String} (hquote : quote = '\'' ∨ quote = '"')
      (hcontent : quote ∉ content.toList) :
      SpellsScalar (.str content) (quote :: (content.toList ++ [quote]))

/-- How the items of a list are written. -/
inductive SpellsItems : List Value → List Char → Prop
  | empty {blanks : List Char} (hblanks : ∀ c ∈ blanks, isPadding c = true) :
      SpellsItems [] blanks
  | last {value : Value} {before text after : List Char}
      (hbefore : ∀ c ∈ before, isPadding c = true) (htext : SpellsScalar value text)
      (hafter : ∀ c ∈ after, isPadding c = true) :
      SpellsItems [value] (before ++ (text ++ after))
  | cons {value : Value} {before text after rest : List Char} {values : List Value}
      (hbefore : ∀ c ∈ before, isPadding c = true) (htext : SpellsScalar value text)
      (hafter : ∀ c ∈ after, isPadding c = true) (hne : values ≠ [])
      (hrest : SpellsItems values rest) :
      SpellsItems (value :: values) (before ++ (text ++ (after ++ ',' :: rest)))

/-- A segment of a key. -/
structure IsSegment (segment : List Char) : Prop where
  ne_nil : segment ≠ []
  isWordChar : ∀ c ∈ segment, isWordChar c = true

/-- The text of a key with these segments. -/
def keyText (first : List Char) (others : List (List Char)) : List Char :=
  first ++ others.flatMap ('.' :: ·)

/-- How a token is written. -/
inductive Spells : TokenKind → List Char → Prop
  | conjunction : Spells .conjunction ['&']
  | disjunction : Spells .disjunction ['|']
  | negation : Spells .negation ['~']
  | opening : Spells .opening ['(']
  | closing : Spells .closing [')']
  | comparison (sign : Comparison) : Spells (.comparison sign) sign.symbol.toList
  | membership : Spells .membership ['i', 'n']
  | key {key : String} {first : List Char} {others : List (List Char)}
      (hkey : key.toList = keyText first others) (hfirst : IsSegment first)
      (hothers : ∀ segment ∈ others, IsSegment segment)
      (hletter : ∃ c ∈ first, c.isDigit = false) (hin : key ≠ "in")
      (htrue : Text.sameIgnoringCase key "true" = false)
      (hfalse : Text.sameIgnoringCase key "false" = false) : Spells (.key key) key.toList
  | scalar {value : Value} {text : List Char} (h : SpellsScalar value text) :
      Spells (.scalar value) text
  | list {values : List Value} {text : List Char} (h : SpellsItems values text) :
      Spells (.list values) ('[' :: (text ++ [']']))

/-! ## Words -/

theorem keyChars_segment {segment : List Char} (h : ∀ c ∈ segment, isWordChar c = true)
    (rest : List Char) :
    keyChars (segment ++ rest) = (segment ++ (keyChars rest).1, (keyChars rest).2) := by
  induction segment with
  | nil => rfl
  | cons c segment ih =>
    obtain ⟨hc, hsegment⟩ := List.forall_mem_cons.mp h
    rw [List.cons_append, keyChars_cons (by rw [hc]; rfl), ih hsegment]
    rfl

/-- The text of a key is taken whole. -/
theorem keyChars_keyText {first : List Char} {others : List (List Char)} (hfirst : IsSegment first)
    (hothers : ∀ segment ∈ others, IsSegment segment) :
    keyChars (keyText first others) = (keyText first others, []) := by
  unfold keyText
  rw [keyChars_segment hfirst.isWordChar]
  suffices hrest : keyChars (others.flatMap ('.' :: ·)) = (others.flatMap ('.' :: ·), []) by
    rw [hrest]
  clear hfirst
  induction others with
  | nil => rfl
  | cons segment others ih =>
    obtain ⟨hsegment, hmore⟩ := List.forall_mem_cons.mp hothers
    obtain ⟨c, rest, rfl⟩ := List.exists_cons_of_ne_nil hsegment.ne_nil
    have hc : isWordChar c = true := hsegment.isWordChar c (List.mem_cons_self ..)
    have hdot : (isWordChar '.' || ('.' == '.' &&
        (((c :: rest) ++ others.flatMap ('.' :: ·)).head?.map isWordChar).getD false)) = true := by
      simp [hc]
    rw [List.flatMap_cons, List.cons_append, keyChars_cons hdot,
      keyChars_segment hsegment.isWordChar, ih hmore]

theorem wordKind_key {key : String} (hin : key ≠ "in")
    (htrue : Text.sameIgnoringCase key "true" = false)
    (hfalse : Text.sameIgnoringCase key "false" = false) : wordKind key = .key key := by
  simp [wordKind, hin, htrue, hfalse]

/-- A segment that is not all digits is no number. -/
theorem digitsStartWord_of_segment {segment : List Char} (h : IsSegment segment)
    (hletter : ∃ c ∈ segment, c.isDigit = false) (rest : List Char) :
    digitsStartWord (segment ++ rest) = true := by
  obtain ⟨letter, hmem, hletter⟩ := hletter
  unfold digitsStartWord
  rw [List.dropWhile_append]
  cases hdrop : segment.dropWhile Char.isDigit with
  | nil =>
    have hall := List.dropWhile_eq_nil_iff.mp hdrop letter hmem
    cases hletter.symm.trans hall
  | cons c left =>
    have hdigit : c.isDigit = false := by
      have := List.head?_dropWhile_not Char.isDigit segment
      simpa [hdrop] using this
    have hword : isWordChar c = true :=
      h.isWordChar c ((List.dropWhile_suffix _).subset (hdrop ▸ List.mem_cons_self ..))
    simpa [isWordChar, Char.isAlphanum, hdigit] using hword

theorem tokenFrom_key {key : String} {first : List Char} {others : List (List Char)}
    (hkey : key.toList = keyText first others) (hfirst : IsSegment first)
    (hothers : ∀ segment ∈ others, IsSegment segment) (hletter : ∃ c ∈ first, c.isDigit = false)
    (hkind : wordKind key = .key key) :
    ∃ c rest, key.toList = c :: rest ∧ isWordChar c = true ∧
      tokenFrom c rest = .ok (.key key, []) := by
  obtain ⟨c, rest, rfl⟩ := List.exists_cons_of_ne_nil hfirst.ne_nil
  have hc := hfirst.isWordChar c (List.mem_cons_self ..)
  have hword : word key.toList = .ok (.key key, []) := by
    have hchars : keyChars key.toList = (key.toList, []) := by
      rw [hkey, keyChars_keyText hfirst hothers]
    have hhead : (key.toList.head?.map isWordChar).getD false = true := by
      rw [hkey]
      simpa [keyText] using hc
    have hread := word_append key.toList hchars hhead boundary_nil
    rwa [List.append_nil, String.ofList_toList, hkind] at hread
  have hstarts := digitsStartWord_of_segment hfirst hletter (others.flatMap ('.' :: ·))
  refine ⟨c, rest ++ others.flatMap ('.' :: ·), hkey, hc, ?_⟩
  rw [hkey] at hword
  rw [tokenFrom_of_isWordChar hc]
  rw [List.cons_append] at hstarts
  rw [hstarts, Bool.not_true, Bool.and_false]
  exact hword

/-! ## Literals -/

theorem sign_spelled {negative : Bool} {signs : List Char} (h : SpellsSign negative signs)
    (rest : List Char) (hrest : ∀ c, rest.head? = some c → c ≠ '+' ∧ c ≠ '-') :
    sign (signs ++ rest) = (signs, rest) ∧ (signs == ['-']) = negative := by
  cases h with
  | plus => exact ⟨rfl, rfl⟩
  | minus => exact ⟨rfl, rfl⟩
  | none =>
    refine ⟨?_, rfl⟩
    exact sign_of_head hrest

/-- An integer is read as itself. -/
theorem number_int {negative : Bool} {signs digits : List Char} {integer : Int64}
    (hsign : SpellsSign negative signs) (hne : digits ≠ [])
    (hdigits : ∀ c ∈ digits, c.isDigit = true)
    (hvalue : integer.toInt = Binary64.signed negative (Decimal.ofDigits digits)) :
    number (signs ++ digits) = .ok (.int integer, []) := by
  obtain ⟨hsplit, hnegative⟩ := sign_spelled hsign digits fun c hc =>
    not_sign_of_isDigit (hdigits c (List.mem_of_head? hc))
  have hread : sign (signs ++ digits) = (signs, digits ++ []) := by rw [hsplit, List.append_nil]
  refine number_of_digits hread hdigits hne (by simp) ?_
  rw [hnegative, ← Integer.int64?_toInt integer, hvalue]
  rfl

/-- A decimal with a point is read as the double that it is rounded to. -/
theorem number_float {negative : Bool} {signs whole fraction : List Char}
    {mantissa exponent : Nat} (hcanonical : Binary64.Canonical mantissa exponent)
    (hsign : SpellsSign negative signs) (hne : whole ++ fraction ≠ [])
    (hdigits : ∀ c ∈ whole ++ fraction, c.isDigit = true)
    (hvalue : (Binary64.roundingInterval mantissa exponent).Holds
      (4 * (Binary64.unitsPerOne *
        (Decimal.mk (Decimal.ofDigits (whole ++ fraction)) (-(fraction.length : Int))).value))) :
    number (signs ++ (whole ++ '.' :: fraction)) =
      .ok (.float (.finite negative mantissa exponent hcanonical), []) := by
  have hwhole : ∀ c ∈ whole, c.isDigit = true := fun c hc => hdigits c (by simp [hc])
  obtain ⟨hsplit, hnegative⟩ := sign_spelled hsign (whole ++ '.' :: fraction) fun c hc => by
    cases whole with
    | nil => cases hc; decide
    | cons d whole => exact not_sign_of_isDigit (hwhole c (List.mem_of_head? (by simpa using hc)))
  have hread : sign (signs ++ (whole ++ '.' :: fraction)) =
      (signs, whole ++ '.' :: (fraction ++ [])) := by rw [hsplit, List.append_nil]
  rw [number_of_point hread hdigits hne (by simp), hnegative]
  rw [show Binary64.ofDecimal negative (Decimal.ofDigits (whole ++ fraction))
    (-(fraction.length : Int)) = .finite negative mantissa exponent hcanonical from
      Binary64.toBinary64_of_interval negative hcanonical hvalue]

theorem not_isDigit_of_isAlpha {c : Char} (h : c.isAlpha = true) : c.isDigit = false := by
  have halpha : (65 ≤ c.val ∧ c.val ≤ 90) ∨ (97 ≤ c.val ∧ c.val ≤ 122) := by
    rcases Bool.or_eq_true_iff.mp h with hupper | hlower
    · exact .inl (of_decide_eq_true hupper)
    · exact .inr ((Bool.and_eq_true_iff.mp hlower).imp of_decide_eq_true of_decide_eq_true)
  show (decide (48 ≤ c.val) && decide (c.val ≤ 57)) = false
  simp only [Bool.and_eq_false_iff, decide_eq_false_iff_not, UInt32.le_iff_toNat_le,
    UInt32.reduceToNat] at halpha ⊢
  omega

theorem isAlpha_of_toLower {c : Char} (h : c.toLower.isAlpha = true) : c.isAlpha = true := by
  unfold Char.toLower at h
  split at h
  · next hupper =>
    have hcapital : c.isUpper = true := decide_eq_true hupper
    exact Bool.or_eq_true_iff.mpr (.inl hcapital)
  · exact h

theorem wordKind_truth {truth : Bool} {text : String}
    (h : Text.sameIgnoringCase text (if truth then "true" else "false") = true) :
    wordKind text = .scalar (.bool truth) := by
  have hlower := eq_of_beq h
  have hin : (text == "in") = false := by
    refine beq_eq_false_iff_ne.mpr fun heq => ?_
    subst heq
    cases truth <;> revert hlower <;> decide
  unfold wordKind Text.sameIgnoringCase
  rw [hin, hlower]
  cases truth <;> rfl

theorem isAlpha_of_truth {truth : Bool} {text : String}
    (h : Text.sameIgnoringCase text (if truth then "true" else "false") = true) :
    ∀ c ∈ text.toList, c.isAlpha = true := by
  intro c hc
  have hlower := congrArg String.toList (eq_of_beq h)
  simp only [Text.lowerAscii, String.toList_ofList] at hlower
  have hall : ∀ d ∈ (if truth then "true" else "false").toList.map Char.toLower,
      d.isAlpha = true := by
    cases truth <;> exact List.all_eq_true.mp rfl
  exact isAlpha_of_toLower (hall _ (hlower ▸ List.mem_map_of_mem hc))

/-- A truth value is read in any case. -/
theorem word_truth {truth : Bool} {text : String}
    (h : Text.sameIgnoringCase text (if truth then "true" else "false") = true) :
    ∃ c rest, text.toList = c :: rest ∧ c.isAlpha = true ∧
      word (c :: rest) = .ok (.scalar (.bool truth), []) := by
  have hletters := isAlpha_of_truth h
  cases htext : text.toList with
  | nil =>
    obtain rfl : text = "" := String.toList_eq_nil_iff.mp htext
    cases truth <;> cases h
  | cons c rest =>
    rw [htext] at hletters
    have hc := hletters c (List.mem_cons_self ..)
    have hchars : keyChars (c :: rest) = (c :: rest, []) := by
      have hword : ∀ d ∈ c :: rest, isWordChar d = true :=
        fun d hd => isWordChar_of_isAlpha (hletters d hd)
      have hsegment := keyChars_segment hword []
      simpa [keyChars] using hsegment
    refine ⟨c, rest, rfl, hc, ?_⟩
    have hread := word_append (c :: rest) hchars (isWordChar_of_isAlpha hc) boundary_nil
    rwa [List.append_nil, ← htext, String.ofList_toList, wordKind_truth h, htext] at hread

theorem text_spelled {quote : Char} {content : String} (h : quote ∉ content.toList)
    {start : List Char} : text quote (content.toList ++ [quote]) start = .ok (content, []) := by
  rw [text_of_content h, String.ofList_toList]

/-! ## Tokens that stand alone -/

/-- A text that is read whole as a token where it stands alone. -/
structure ReadAlone (kind : TokenKind) (c : Char) (rest : List Char) : Prop where
  not_list : c ≠ '['
  closed : (c == '\'' || c == '"') = true → c ∈ rest
  token : tokenFrom c rest = .ok (kind, [])

theorem readAlone_of_isWordChar {kind : TokenKind} {c : Char} {rest : List Char}
    (hc : isWordChar c = true) (h : tokenFrom c rest = .ok (kind, [])) :
    ReadAlone kind c rest where
  not_list := by rintro rfl; cases hc
  closed hquote := by
    rw [Bool.or_eq_true, beq_iff_eq, beq_iff_eq] at hquote
    rcases hquote with rfl | rfl <;> cases hc
  token := h

theorem readAlone_of_number {text : List Char} {value : Value}
    (h : number text = .ok (value, [])) :
    ∃ c rest, text = c :: rest ∧ ReadAlone (.scalar value) c rest := by
  cases text with
  | nil => cases h
  | cons c rest =>
    have hhead := head_of_number h
    refine ⟨c, rest, rfl, ?_, fun hquote => ?_,
      tokenFrom_of_number h (digitsStartWord_of_number h boundary_nil)⟩
    · rintro rfl
      cases hhead
    · rw [Bool.or_eq_true, beq_iff_eq, beq_iff_eq] at hquote
      rcases hquote with rfl | rfl <;> cases hhead

theorem readAlone_of_scalar {value : Value} {text : List Char} (h : SpellsScalar value text) :
    ∃ c rest, text = c :: rest ∧ ReadAlone (.scalar value) c rest := by
  cases h with
  | int hsign hne hdigits hvalue => exact readAlone_of_number (number_int hsign hne hdigits hvalue)
  | float hcanonical hsign hne hdigits hvalue =>
    exact readAlone_of_number (number_float hcanonical hsign hne hdigits hvalue)
  | bool hword =>
    obtain ⟨c, rest, htext, hc, hread⟩ := word_truth hword
    have hletter : isWordChar c = true := isWordChar_of_isAlpha hc
    refine ⟨c, rest, htext, readAlone_of_isWordChar hletter ?_⟩
    rw [tokenFrom_of_isWordChar hletter, not_isDigit_of_isAlpha hc]
    exact hread
  | @text quote content hquote hcontent =>
    refine ⟨quote, content.toList ++ [quote], rfl, ?_, fun _ => by simp, ?_⟩
    · rcases hquote with rfl | rfl <;> decide
    · rw [tokenFrom_text (by simpa using hquote), text_spelled hcontent]
      rfl

/-- **A token that is no list is read whole where it stands alone.** -/
theorem readAlone_of_spells {kind : TokenKind} {text : List Char} (h : Spells kind text)
    (hlist : ∀ values, kind ≠ .list values) :
    ∃ c rest, text = c :: rest ∧ ReadAlone kind c rest := by
  have hmark {c : Char} {rest : List Char} {kind : TokenKind}
      (hc : (c == '[' || c == '\'' || c == '"') = false)
      (htoken : tokenFrom c rest = .ok (kind, [])) : ReadAlone kind c rest := by
    simp only [Bool.or_eq_false_iff, beq_eq_false_iff_ne] at hc
    exact ⟨hc.1.1, by simp [hc.1.2, hc.2], htoken⟩
  cases h with
  | conjunction => exact ⟨'&', [], rfl, hmark rfl rfl⟩
  | disjunction => exact ⟨'|', [], rfl, hmark rfl rfl⟩
  | negation => exact ⟨'~', [], rfl, hmark rfl rfl⟩
  | opening => exact ⟨'(', [], rfl, hmark rfl rfl⟩
  | closing => exact ⟨')', [], rfl, hmark rfl rfl⟩
  | comparison sign => cases sign <;> exact ⟨_, _, rfl, hmark rfl rfl⟩
  | membership => exact ⟨'i', ['n'], rfl, hmark rfl rfl⟩
  | key hkey hfirst hothers hletter hin htrue hfalse =>
    obtain ⟨c, rest, htext, hc, htoken⟩ :=
      tokenFrom_key hkey hfirst hothers hletter (wordKind_key hin htrue hfalse)
    exact ⟨c, rest, htext, readAlone_of_isWordChar hc htoken⟩
  | scalar hscalar => exact readAlone_of_scalar hscalar
  | list => exact absurd rfl (hlist _)

/-! ## Lists -/

/-- A literal is read as an item of a list, where nothing goes on. -/
theorem listItem_spelled {value : Value} {text rest : List Char} (h : SpellsScalar value text)
    (hrest : Boundary rest) : listItem (text ++ rest) = .ok (value, rest) := by
  obtain ⟨c, front, rfl, halone⟩ := readAlone_of_scalar h
  have hitem : listItem (c :: front) = .ok (value, []) := by
    generalize htext : c :: front = text at h
    cases h with
    | int hsign hne hdigits hvalue =>
      exact listItem_of_number (number_int hsign hne hdigits hvalue)
    | float hcanonical hsign hne hdigits hvalue =>
      exact listItem_of_number (number_float hcanonical hsign hne hdigits hvalue)
    | bool hword =>
      obtain ⟨d, more, htruth, hd, hread⟩ := word_truth hword
      rw [htruth]
      have hletter : isWordChar d = true := isWordChar_of_isAlpha hd
      rw [listItem_of_word _ _ hd hread]
      · simp only [beq_of_isWordChar hletter (d := '\'') rfl,
          beq_of_isWordChar hletter (d := '"') rfl, Bool.or_self]
      · simp only [beq_of_isWordChar hletter (d := '+') rfl,
          beq_of_isWordChar hletter (d := '-') rfl, beq_of_isWordChar hletter (d := '.') rfl,
          not_isDigit_of_isAlpha hd, Bool.or_self]
    | @text quote content hquote hcontent =>
      rw [listItem_text (by simpa using hquote), text_spelled hcontent]
      rfl
  rw [List.cons_append, listItem_behind hrest halone.closed, hitem]
  rfl

/-- Behind an item and the blanks around it a list goes on. -/
theorem items?_spelled_item {value : Value} {before text after rest : List Char}
    (hbefore : ∀ c ∈ before, isPadding c = true) (htext : SpellsScalar value text)
    (hafter : ∀ c ∈ after, isPadding c = true) (hrest : Boundary rest) (items : List Value) :
    items? true items (before ++ (text ++ (after ++ rest))) =
      items? false (items ++ [value]) rest := by
  have hboundary : Boundary (after ++ rest) := by
    cases after with
    | nil => exact hrest
    | cons c after =>
      rintro d ⟨⟩
      have hc := hafter c (List.mem_cons_self ..)
      simp only [isPadding, Bool.or_eq_true, beq_iff_eq] at hc
      rcases hc with rfl | rfl <;> decide
  rw [items?_padding hbefore, items?_item (listItem_spelled htext hboundary),
    items?_padding hafter]

/-- **The items of a list are read back.** -/
theorem items?_spelled {values : List Value} {text : List Char} (h : SpellsItems values text)
    {items : List Value} (hitems : values = [] → items = []) (rest : List Char) :
    items? true items (text ++ ']' :: rest) = some (items ++ values, rest) := by
  have hclose : Boundary (']' :: rest) := by
    rintro d ⟨⟩
    decide
  induction h generalizing items with
  | empty hblanks =>
    rw [items?_padding hblanks, hitems rfl]
    rfl
  | last hbefore htext hafter =>
    rw [List.append_assoc, List.append_assoc, items?_spelled_item hbefore htext hafter hclose]
    rfl
  | @cons value before text after more values hbefore htext hafter hne _ ih =>
    have hcomma : Boundary (',' :: (more ++ ']' :: rest)) := by
      rintro d ⟨⟩
      decide
    have htext' : before ++ (text ++ (after ++ ',' :: more)) ++ ']' :: rest =
        before ++ (text ++ (after ++ ',' :: (more ++ ']' :: rest))) := by simp
    rw [htext', items?_spelled_item hbefore htext hafter hcomma]
    refine (items?_cons ..).trans ((ih fun hnil => absurd hnil hne).trans ?_)
    rw [List.append_assoc]
    rfl

/-! ## Tokens with text behind them -/

/-- **A token is read whole where nothing goes on behind it.** -/
theorem tokenFrom_spelled {kind : TokenKind} {text rest : List Char} (h : Spells kind text)
    (hrest : Stop rest) :
    ∃ c front, text = c :: front ∧ tokenFrom c (front ++ rest) = .ok (kind, rest) := by
  by_cases hlist : ∃ values, kind = .list values
  · obtain ⟨values, rfl⟩ := hlist
    cases h with
    | @list _ text hitems =>
      refine ⟨'[', text ++ [']'], rfl, ?_⟩
      have hread := toOption_tokenFrom_list (text ++ ']' :: rest)
      rw [items?_spelled hitems fun _ => rfl] at hread
      rw [List.append_assoc, List.singleton_append]
      cases htoken : tokenFrom '[' (text ++ ']' :: rest) with
      | error fault =>
        rw [htoken] at hread
        cases hread
      | ok pair =>
        rw [htoken] at hread
        exact congrArg Except.ok (Option.some.inj hread)
  · obtain ⟨c, front, rfl, halone⟩ := readAlone_of_spells h fun values heq => hlist ⟨values, heq⟩
    refine ⟨c, front, rfl, ?_⟩
    rw [tokenFrom_behind hrest halone.not_list halone.closed, halone.token]
    rfl

/-! ## Sequences of tokens -/

/-- A token with its text and the white space in front of it. -/
structure Written where
  /-- The white space in front of the token. -/
  gap : List Char
  /-- The token. -/
  kind : TokenKind
  /-- Its text. -/
  text : List Char
  isGap : ∀ c ∈ gap, isSeparator c = true
  spells : Spells kind text

/-- The text of tokens written one after another. -/
def writtenText (written : List Written) : List Char :=
  written.flatMap fun token => token.gap ++ token.text

/-- Tokens written one after another, the first white space at the given byte. -/
def writtenTokens : Nat → List Written → List Token
  | _, [] => []
  | start, token :: written =>
      let offset := start + byteLength token.gap
      ⟨token.kind, offset⟩ :: writtenTokens (offset + byteLength token.text) written

theorem lexemes_gap {gap : List Char} (h : ∀ c ∈ gap, isSeparator c = true) (rest : List Char) :
    lexemes (gap ++ rest).length (gap ++ rest) = lexemes rest.length rest := by
  induction gap with
  | nil => rfl
  | cons c gap ih =>
    obtain ⟨hc, hgap⟩ := List.forall_mem_cons.mp h
    rw [List.cons_append, lexemes_separator hc, ih hgap]

theorem lexemes_spelled {kind : TokenKind} {text rest : List Char} (h : Spells kind text)
    (hrest : Stop rest) :
    lexemes (text ++ rest).length (text ++ rest) =
      (lexemes rest.length rest).map ((kind, text ++ rest) :: ·) := by
  obtain ⟨c, front, rfl, htoken⟩ := tokenFrom_spelled h hrest
  rw [List.cons_append, lexemes_token htoken]

theorem stop_of_gap {gap : List Char} (h : ∀ c ∈ gap, isSeparator c = true) (rest : List Char)
    (hrest : gap = [] → rest = []) : Stop (gap ++ rest) := by
  cases gap with
  | nil =>
    rw [hrest rfl]
    exact ⟨boundary_nil, by simp⟩
  | cons c gap =>
    have hc := h c (List.mem_cons_self ..)
    simp only [isSeparator, Bool.or_eq_true, beq_iff_eq] at hc
    constructor
    · rintro d ⟨⟩
      rcases hc with ((rfl | rfl) | rfl) | rfl <;> decide
    · rw [List.cons_append, List.head?_cons]
      rcases hc with ((rfl | rfl) | rfl) | rfl <;> decide

/-- Behind a token that is followed by another one or by nothing, nothing goes on. -/
theorem stop_of_written {written : List Written} (h : ∀ token ∈ written.head?, token.gap ≠ [])
    {trailing : List Char} (htrailing : ∀ c ∈ trailing, isSeparator c = true) :
    Stop (writtenText written ++ trailing) := by
  cases written with
  | nil => simpa [writtenText] using stop_of_gap htrailing [] fun _ => rfl
  | cons token written =>
    have hgap := h token rfl
    have htext : writtenText (token :: written) ++ trailing =
        token.gap ++ (token.text ++ (writtenText written ++ trailing)) := by
      simp [writtenText]
    rw [htext]
    exact stop_of_gap token.isGap _ fun hnil => absurd hnil hgap

/-- The tokens of written text that stands behind so many bytes. -/
theorem lexemes_written {written : List Written} (hapart : ∀ token ∈ written.tail, token.gap ≠ [])
    {trailing : List Char} (htrailing : ∀ c ∈ trailing, isSeparator c = true) (start : Nat) :
    ((lexemes (writtenText written ++ trailing).length (writtenText written ++ trailing)).map
      (List.map fun (kind, rest) => (Token.mk kind
        (start + byteLength (writtenText written ++ trailing) - byteLength rest)))) =
      .ok (writtenTokens start written) := by
  induction written generalizing start with
  | nil =>
    have hnothing := lexemes_gap htrailing []
    rw [List.append_nil] at hnothing
    simp only [writtenText, List.flatMap_nil, List.nil_append, hnothing]
    rfl
  | cons token written ih =>
    have htext : writtenText (token :: written) ++ trailing =
        token.gap ++ (token.text ++ (writtenText written ++ trailing)) := by
      simp [writtenText]
    have hstop : Stop (writtenText written ++ trailing) :=
      stop_of_written (fun next hnext => hapart next (List.mem_of_mem_head? hnext)) htrailing
    have hrest := ih (fun next hnext => hapart next (List.mem_of_mem_tail hnext))
      (start + byteLength token.gap + byteLength token.text)
    rw [htext, lexemes_gap token.isGap, lexemes_spelled token.spells hstop]
    cases hfound : lexemes (writtenText written ++ trailing).length
        (writtenText written ++ trailing) with
    | error fault =>
      rw [hfound] at hrest
      cases hrest
    | ok found =>
      rw [hfound] at hrest
      have hmore := Except.ok.inj hrest
      have hoffset : start + byteLength (token.gap ++ (token.text ++
          (writtenText written ++ trailing))) -
            byteLength (token.text ++ (writtenText written ++ trailing)) =
          start + byteLength token.gap := by
        rw [byteLength_append token.gap]
        omega
      have htotal : start + byteLength (token.gap ++ (token.text ++
          (writtenText written ++ trailing))) =
          start + byteLength token.gap + byteLength token.text +
            byteLength (writtenText written ++ trailing) := by
        rw [byteLength_append token.gap, byteLength_append token.text]
        omega
      simp only [Except.map, List.map_cons, hoffset]
      rw [htotal, hmore]
      rfl

/-- **Reading undoes writing.**  Tokens written one after another, with white space between
any two of them and possibly in front and behind, are read as these tokens, each at the byte
where its text begins. -/
theorem tokenize_written {written : List Written} {trailing : List Char}
    (hapart : ∀ token ∈ written.tail, token.gap ≠ [])
    (htrailing : ∀ c ∈ trailing, isSeparator c = true) :
    tokenize (String.ofList (writtenText written ++ trailing)) =
      .ok (writtenTokens 0 written) := by
  have hread := lexemes_written hapart htrailing 0
  unfold tokenize
  rw [String.toList_ofList]
  dsimp only
  cases hfound : lexemes (writtenText written ++ trailing).length
      (writtenText written ++ trailing) with
  | error fault =>
    rw [hfound] at hread
    cases hread
  | ok found =>
    rw [hfound, Nat.zero_add] at hread
    exact congrArg Except.ok (Except.ok.inj hread)

/-- One half may be written with no digit in front of its point. -/
theorem spellsScalar_half :
    SpellsScalar (.float (.finite false (2 ^ 52) 1021 (by decide))) ['.', '5'] := by
  have hvalue : (Decimal.mk (Decimal.ofDigits ['5']) (-1)).value = 1 / 2 := by
    rw [Decimal.value, show Decimal.ofDigits ['5'] = 5 from rfl]
    norm_num
  have hlow : (Binary64.roundingInterval (2 ^ 52) 1021).low < 2 * Binary64.unitsPerOne := by
    decide +kernel
  have hhigh : 2 * Binary64.unitsPerOne < (Binary64.roundingInterval (2 ^ 52) 1021).high := by
    decide +kernel
  have hunits : 4 * (Binary64.unitsPerOne * (1 / 2 : ℚ)) = (2 * Binary64.unitsPerOne : Nat) := by
    push_cast
    ring
  have hdecimal : (Binary64.roundingInterval (2 ^ 52) 1021).Holds
      (4 * (Binary64.unitsPerOne * (Decimal.mk (Decimal.ofDigits ['5']) (-1)).value)) := by
    rw [hvalue, hunits]
    exact ⟨⟨by exact_mod_cast hlow.le, by exact_mod_cast hhigh.le⟩,
      fun _ => ⟨by exact_mod_cast hlow, by exact_mod_cast hhigh⟩⟩
  exact @SpellsScalar.float _ _ [] ['5'] _ _ _ .none (by simp) (List.all_eq_true.mp rfl) hdecimal

/-- A key that begins with digits, a comparison, a signed integer, a connective, the word
`in` and a list, the tokens kept apart by spaces, tabs and line ends. -/
theorem tokenize_written_line :
    tokenize "3d.x\t>= -7\n|  loss in [ .5 ,'a b',TRUE]\r" = .ok
      [⟨.key "3d.x", 0⟩, ⟨.comparison .greaterEqual, 5⟩, ⟨.scalar (.int (-7)), 8⟩,
        ⟨.disjunction, 11⟩, ⟨.key "loss", 14⟩, ⟨.membership, 19⟩,
        ⟨.list [.float (.finite false (2 ^ 52) 1021 (by decide)), .str "a b", .bool true],
          22⟩] := by
  have hkey : Spells (.key "3d.x") "3d.x".toList :=
    .key (show "3d.x".toList = keyText ['3', 'd'] [['x']] from rfl)
      ⟨by simp, List.all_eq_true.mp rfl⟩
      (by simpa using ⟨by simp, List.all_eq_true.mp rfl⟩) ⟨'d', by simp, rfl⟩ (by decide) rfl rfl
  have hloss : Spells (.key "loss") "loss".toList :=
    .key (show "loss".toList = keyText ['l', 'o', 's', 's'] [] from rfl)
      ⟨by simp, List.all_eq_true.mp rfl⟩      (by simp) ⟨'l', by simp, rfl⟩ (by decide) rfl rfl
  have hseven : SpellsScalar (.int (-7)) (['-'] ++ ['7']) :=
    .int .minus (by simp) (List.all_eq_true.mp rfl) rfl
  have htrue : SpellsItems [.bool true] ([] ++ ("TRUE".toList ++ [])) :=
    .last (by simp) (.bool rfl) (by simp)
  have htext : SpellsItems [.str "a b", .bool true]
      ([] ++ (('\'' :: ("a b".toList ++ ['\''])) ++ ([] ++ ',' :: "TRUE".toList))) :=
    .cons (by simp) (.text (.inl rfl) (by decide)) (by simp) (by simp) htrue
  have hitems : SpellsItems
      [.float (.finite false (2 ^ 52) 1021 (by decide)), .str "a b", .bool true]
      ([' '] ++ (['.', '5'] ++ ([' '] ++ ',' :: "'a b',TRUE".toList))) :=
    .cons (List.all_eq_true.mp rfl) spellsScalar_half (List.all_eq_true.mp rfl) (by simp) htext
  have hgap (c : Char) (hc : isSeparator c = true) : ∀ d ∈ [c], isSeparator d = true := by
    simpa using hc
  exact @tokenize_written
    [⟨[], _, _, by simp, hkey⟩, ⟨['\t'], _, _, hgap _ rfl, .comparison .greaterEqual⟩,
      ⟨[' '], _, _, hgap _ rfl, .scalar hseven⟩, ⟨['\n'], _, _, hgap _ rfl, .disjunction⟩,
      ⟨[' ', ' '], _, _, List.all_eq_true.mp rfl, hloss⟩, ⟨[' '], _, _, hgap _ rfl, .membership⟩,
      ⟨[' '], _, _, hgap _ rfl, .list hitems⟩]
    ['\r'] (by simp) (hgap _ rfl)

end Query

end Logbook
