import Logbook.Proofs.Binary64.Layout
import Logbook.Proofs.Key
import Logbook.Proofs.Query.Token

/-!
# Literals in a query

A literal is written in a predicate as messages write values.  Most literals are read back
from there: truth values, integers, texts without a single quote, and doubles whose text has
no exponent.  The others are not, and here is what is read in their place.
-/

namespace Logbook

namespace Query

open Decimal FloatStyle

/-- Whether a literal is read back from its text. -/
def isReadable : Value → Bool
  | .str text => !text.toList.contains '\''
  | .float number => number.isFinite && !(number.render .display).toList.contains 'e'
  | _ => true

theorem isWordChar_of_isDigit {c : Char} (h : c.isDigit = true) : isWordChar c = true := by
  simp [isWordChar, Char.isAlphanum, h]

theorem isWordChar_of_isAlpha {c : Char} (h : c.isAlpha = true) : isWordChar c = true := by
  simp [isWordChar, Char.isAlphanum, h]

/-- What begins a word that is not a number is a character of words. -/
theorem isWordChar_of_letter {c : Char} (h : (c.isAlpha || c == '_') = true) :
    isWordChar c = true := by
  simp only [Bool.or_eq_true] at h
  simp only [isWordChar, Char.isAlphanum, Bool.or_eq_true]
  exact h.imp_left .inl

/-- No word and no number goes on here. -/
def Boundary (rest : List Char) : Prop := ∀ c, rest.head? = some c → isWordChar c = false ∧ c ≠ '.'

theorem boundary_nil : Boundary [] := nofun

theorem Boundary.not_isDigit {rest : List Char} (h : Boundary rest) {c : Char}
    (hc : rest.head? = some c) : c.isDigit = false := by
  obtain ⟨hword, -⟩ := h c hc
  simp only [isWordChar, Char.isAlphanum, Bool.or_eq_false_iff] at hword
  exact hword.1.2

/-! ## Words -/

theorem keyChars_of_boundary {rest : List Char} (h : Boundary rest) :
    keyChars rest = ([], rest) := by
  cases rest with
  | nil => rfl
  | cons c rest =>
    obtain ⟨hword, hdot⟩ := h c rfl
    rw [keyChars, if_neg]
    simp [hword, hdot]

/-- A key is taken whole where no word goes on behind it. -/
theorem keyChars_append {key rest : List Char} (hkey : keyChars key = (key, []))
    (h : Boundary rest) : keyChars (key ++ rest) = (key, rest) := by
  induction key with
  | nil => exact keyChars_of_boundary h
  | cons c key ih =>
    by_cases hc : (isWordChar c || (c == '.' && (key.head?.map isWordChar).getD false)) = true
    · rw [keyChars_cons hc, Prod.mk.injEq, List.cons.injEq] at hkey
      have hagain : (isWordChar c ||
          (c == '.' && ((key ++ rest).head?.map isWordChar).getD false)) = true := by
        cases key with
        | nil =>
          have hword : isWordChar c = true := by simpa using hc
          rw [hword]
          rfl
        | cons d key => exact hc
      rw [List.cons_append, keyChars_cons hagain, ih (Prod.ext hkey.1.2 hkey.2)]
    · rw [keyChars, if_neg hc] at hkey
      cases hkey

theorem word_append (key : List Char) {rest : List Char} (hkey : keyChars key = (key, []))
    (hne : (key.head?.map isWordChar).getD false = true) (h : Boundary rest) :
    word (key ++ rest) = .ok (wordKind (String.ofList key), rest) := by
  have hhead : ((key ++ rest).head?.map isWordChar).getD false = true := by
    cases key with
    | nil => cases hne
    | cons c key => exact hne
  rw [word, if_pos hhead, keyChars_append hkey h]

/-! ## Numbers -/

theorem sign_signText (negative : Bool) (digits : List Char) {rest : List Char}
    (hdigits : ∀ c ∈ digits, c.isDigit = true) (hne : digits ≠ []) :
    sign (signText negative ++ (digits ++ rest)) = (signText negative, digits ++ rest) := by
  cases negative with
  | true => rfl
  | false =>
    refine sign_of_head fun c hc => not_sign_of_isDigit (hdigits c (List.mem_of_head? ?_))
    rwa [signText, if_neg Bool.false_ne_true, List.nil_append, List.head?_append_of_ne_nil _ hne]
      at hc

theorem signText_beq (negative : Bool) : (signText negative == ['-']) = negative := by
  cases negative <;> rfl

/-- Digits with a point are read as the double nearest to them. -/
theorem number_of_point {input signs whole fraction rest : List Char}
    (hsign : sign input = (signs, whole ++ '.' :: (fraction ++ rest)))
    (hdigits : ∀ c ∈ whole ++ fraction, c.isDigit = true) (hne : whole ++ fraction ≠ [])
    (hrest : ∀ c, rest.head? = some c → c.isDigit = false) :
    number input = .ok (.float (Binary64.ofDecimal (signs == ['-'])
      (Decimal.ofDigits (whole ++ fraction)) (-(fraction.length : Int))), rest) := by
  have hwhole : ∀ c ∈ whole, c.isDigit = true := fun c hc => hdigits c (by simp [hc])
  have hfraction : ∀ c ∈ fraction, c.isDigit = true := fun c hc => hdigits c (by simp [hc])
  have hpoint : ∀ c, ('.' :: (fraction ++ rest)).head? = some c → c.isDigit = false := by
    rintro c ⟨⟩
    rfl
  have hafter : (sign input).2.dropWhile Char.isDigit = '.' :: (fraction ++ rest) := by
    rw [hsign, dropWhile_stop hpoint, List.dropWhile_eq_nil_iff.mpr hwhole, List.nil_append]
  rw [number_point hafter, hsign]
  dsimp only
  rw [takeWhile_digits hwhole hpoint, takeWhile_digits hfraction hrest, dropWhile_stop hrest,
    List.dropWhile_eq_nil_iff.mpr hfraction, List.nil_append, if_neg (by simpa using hne)]

/-- Digits without a point are an integer, which may be too large. -/
theorem number_of_whole {input signs whole rest : List Char}
    (hsign : sign input = (signs, whole ++ rest))
    (hdigits : ∀ c ∈ whole, c.isDigit = true) (hne : whole ≠ [])
    (hrest : ∀ c, rest.head? = some c → c.isDigit = false ∧ c ≠ '.') :
    number input =
      match Integer.int64? (if signs == ['-'] then -(Decimal.ofDigits whole : Int)
        else Decimal.ofDigits whole) with
      | some integer => .ok (.int integer, rest)
      | none => fail (.invalidNumber (String.ofList (signs ++ whole))) input := by
  have hstop : ∀ c, rest.head? = some c → c.isDigit = false := fun c hc => (hrest c hc).1
  have hafter : (sign input).2.dropWhile Char.isDigit = rest := by
    rw [hsign, dropWhile_stop hstop, List.dropWhile_eq_nil_iff.mpr hdigits, List.nil_append]
  rw [number_whole (hafter ▸ fun hpoint => (hrest '.' hpoint).2 rfl), hafter, hsign]
  dsimp only
  rw [takeWhile_digits hdigits hstop]
  exact if_neg (by simpa using hne)

/-- Digits without a point are read as an integer, if it is one of 64 bits. -/
theorem number_of_digits {input signs whole rest : List Char} {integer : Int64}
    (hsign : sign input = (signs, whole ++ rest))
    (hdigits : ∀ c ∈ whole, c.isDigit = true) (hne : whole ≠ [])
    (hrest : ∀ c, rest.head? = some c → c.isDigit = false ∧ c ≠ '.')
    (hinteger : Integer.int64? (if signs == ['-'] then -(Decimal.ofDigits whole : Int)
      else Decimal.ofDigits whole) = some integer) :
    number input = .ok (.int integer, rest) := by
  rw [number_of_whole hsign hdigits hne hrest, hinteger]

/-! ## The texts of literals -/

theorem number_repr (integer : Int64) {rest : List Char} (h : Boundary rest) :
    number (integer.toInt.repr.toList ++ rest) = .ok (.int integer, rest) := by
  rw [repr_toList, List.append_assoc]
  have hdigits : ∀ c ∈ Nat.toDigits 10 integer.toInt.natAbs, c.isDigit = true :=
    fun c => Decimal.isDigit_of_mem_toDigits
  refine number_of_digits (sign_signText _ _ hdigits Nat.toDigits_ne_nil) hdigits
    Nat.toDigits_ne_nil (fun c hc => ⟨h.not_isDigit hc, (h c hc).2⟩) ?_
  rw [signText_beq, Decimal.ofDigits_toDigits, ← Integer.int64?_toInt integer]
  congr 1
  by_cases hnegative : integer.toInt < 0
  · rw [if_pos (by simpa using hnegative)]
    omega
  · rw [if_neg (by simpa using hnegative)]
    omega

theorem number_spelled (negative : Bool) {whole fraction rest : List Char} {power : Int}
    {decimal : Decimal} (hspelled : Spelled whole fraction power decimal)
    (hrest : ∀ c, rest.head? = some c → c.isDigit = false) :
    number (signText negative ++ (whole ++ '.' :: (fraction ++ rest))) =
      .ok (.float (Binary64.ofDecimal negative (Decimal.ofDigits (whole ++ fraction))
        (-(fraction.length : Int))), rest) := by
  have hsign : sign (signText negative ++ (whole ++ '.' :: (fraction ++ rest))) =
      (signText negative, whole ++ '.' :: (fraction ++ rest)) :=
    sign_signText negative whole (fun c hc => hspelled.isDigit c (List.mem_append_left _ hc))
      hspelled.ne_nil
  rw [number_of_point hsign hspelled.isDigit (by simp [hspelled.ne_nil]) hrest, signText_beq]

/-- A double without an exponent in its text is read back. -/
theorem number_render {number : Binary64} (hreadable : isReadable (.float number) = true)
    {rest : List Char} (h : Boundary rest) :
    Query.number ((number.render .display).toList ++ rest) = .ok (.float number, rest) := by
  simp only [isReadable, Bool.and_eq_true, Bool.not_eq_true'] at hreadable
  obtain ⟨hfinite, hplain⟩ := hreadable
  cases number with
  | nan => cases hfinite
  | infinite => cases hfinite
  | finite negative mantissa exponent hcanonical =>
    rw [render_finite] at hplain ⊢
    unfold FloatStyle.decimal at hplain ⊢
    dsimp only at hplain ⊢
    split at hplain
    · next hexponent =>
      rw [if_pos hexponent]
      obtain ⟨whole, fraction, hne, hdecimal, hspelled⟩ :=
        FloatStyle.spelled_plain (Binary64.shortest_zero display.tie hcanonical)
      rw [hdecimal, List.append_assoc, List.append_assoc, List.cons_append,
        number_spelled negative hspelled fun c => h.not_isDigit,
        ← Binary64.toBinary64_of_spelled negative hcanonical hspelled, Int.zero_sub]
    · simp [FloatStyle.scientific] at hplain

/-! ## Items and scalars -/

theorem text_of_content {content rest start : List Char} {quote : Char} (h : quote ∉ content) :
    text quote (content ++ quote :: rest) start = .ok (String.ofList content, rest) := by
  have hcontent : (content ++ quote :: rest).takeWhile (· != quote) = content := by
    rw [List.takeWhile_append_of_pos]
    · simp
    · intro c hc
      simpa using fun heq : c = quote => h (heq ▸ hc)
  unfold text
  simp only [hcontent, List.drop_left]

/-- What begins a number. -/
theorem head_of_number {c : Char} {rest left : List Char} {value : Value}
    (h : number (c :: rest) = .ok (value, left)) :
    (c == '+' || c == '-' || c == '.' || c.isDigit) = true := by
  by_contra hnot
  simp only [Bool.not_eq_true, Bool.or_eq_false_iff, beq_eq_false_iff_ne] at hnot
  obtain ⟨⟨⟨hplus, hminus⟩, hdot⟩, hdigit⟩ := hnot
  have hsign : sign (c :: rest) = ([], c :: rest) :=
    sign_of_head (by rintro d ⟨⟩; exact ⟨hplus, hminus⟩)
  have hdrop : (sign (c :: rest)).2.dropWhile Char.isDigit = c :: rest := by
    rw [hsign, List.dropWhile_cons, if_neg (by simp [hdigit])]
  rcases number_eq_ok h with ⟨_, _, hafter, -⟩ | ⟨_, hne, -⟩
  · exact hdot (List.cons.inj (hdrop.symm.trans hafter)).1
  · exact hne (by rw [hsign, List.takeWhile_cons, if_neg (by simp [hdigit])])

theorem listItem_of_number {input left : List Char} {value : Value}
    (h : number input = .ok (value, left)) : listItem input = .ok (value, left) := by
  cases input with
  | nil => cases h
  | cons c rest =>
    have hhead := head_of_number h
    have hquote : (c == '\'' || c == '"') = false := by
      by_contra hc
      simp only [Bool.not_eq_false, Bool.or_eq_true, beq_iff_eq] at hc
      rcases hc with rfl | rfl <;> cases hhead
    rw [listItem, hquote]
    simp only [Bool.false_eq_true, if_false]
    rw [if_pos hhead, h]

theorem listItem_of_word {c : Char} {rest left : List Char} {kind : TokenKind}
    (hquote : (c == '\'' || c == '"') = false)
    (hsign : (c == '+' || c == '-' || c == '.' || c.isDigit) = false)
    (hletter : c.isAlpha = true) :
    word (c :: rest) = .ok (kind, left) → listItem (c :: rest) = match kind with
      | .scalar value => .ok (value, left)
      | _ => fail .nonScalarItem (c :: rest) := by
  intro h
  rw [listItem, hquote, hsign, hletter]
  simp only [Bool.false_eq_true, if_false, if_true]
  rw [h]
  cases kind <;> rfl

theorem word_bool (truth : Bool) {rest : List Char} (h : Boundary rest) :
    word ((Predicate.renderLiteral (.bool truth)).toList ++ rest) =
      .ok (.scalar (.bool truth), rest) := by
  cases truth with
  | true => exact word_append ['t', 'r', 'u', 'e'] rfl rfl h
  | false => exact word_append ['f', 'a', 'l', 's', 'e'] rfl rfl h

/-- **A readable literal is read as an item of a list.** -/
theorem listItem_renderLiteral {literal : Value} (hliteral : isLiteral literal = true)
    (hreadable : isReadable literal = true) (rest : List Char) (h : Boundary rest) :
    listItem ((Predicate.renderLiteral literal).toList ++ rest) = .ok (literal, rest) := by
  cases literal with
  | null => cases hliteral
  | list => cases hliteral
  | map => cases hliteral
  | artifact => cases hliteral
  | bool truth =>
    have hword := word_bool truth h
    cases truth with
    | true => exact listItem_of_word rfl rfl rfl hword
    | false => exact listItem_of_word rfl rfl rfl hword
  | int integer => exact listItem_of_number (number_repr integer h)
  | float number => exact listItem_of_number (number_render hreadable h)
  | str content =>
    have hquote : '\'' ∉ content.toList := by simpa [isReadable] using hreadable
    have htext : (Predicate.renderLiteral (.str content)).toList ++ rest =
        '\'' :: (content.toList ++ '\'' :: rest) := by
      simp [Predicate.renderLiteral]
    rw [htext]
    refine map_eq_ok.mpr ⟨content, ?_, rfl⟩
    rw [text_of_content hquote, String.ofList_toList]

/-! ## Tokens -/

theorem kinds?_of_token {c : Char} {rest left : List Char} {kind : TokenKind}
    (h : tokenFrom c rest = .ok (kind, left)) :
    kinds? (c :: rest) = (kinds? left).map (kind :: ·) := by
  rw [kinds?_token (not_isSeparator_of_tokenFrom h), h]
  rfl

theorem beq_of_isWordChar {c d : Char} (hc : isWordChar c = true) (hd : isWordChar d = false) :
    (c == d) = false := by
  refine beq_eq_false_iff_ne.mpr fun heq => ?_
  rw [heq, hd] at hc
  cases hc

/-- Where a token begins with a character of words, it is a number or a word. -/
theorem tokenFrom_of_isWordChar {c : Char} (hc : isWordChar c = true) (rest : List Char) :
    tokenFrom c rest =
      if c.isDigit && !digitsStartWord (c :: rest) then
        (number (c :: rest)).map fun (value, rest) => (.scalar value, rest)
      else word (c :: rest) := by
  unfold tokenFrom
  -- A character of words is none of the marks that a token may begin with.
  simp only [beq_of_isWordChar hc (d := '&') rfl, beq_of_isWordChar hc (d := '|') rfl,
    beq_of_isWordChar hc (d := '~') rfl, beq_of_isWordChar hc (d := '(') rfl,
    beq_of_isWordChar hc (d := ')') rfl, beq_of_isWordChar hc (d := '=') rfl,
    beq_of_isWordChar hc (d := '!') rfl, beq_of_isWordChar hc (d := '<') rfl,
    beq_of_isWordChar hc (d := '>') rfl, beq_of_isWordChar hc (d := '[') rfl,
    beq_of_isWordChar hc (d := '\'') rfl, beq_of_isWordChar hc (d := '"') rfl,
    beq_of_isWordChar hc (d := '+') rfl, beq_of_isWordChar hc (d := '-') rfl,
    beq_of_isWordChar hc (d := '.') rfl, Bool.or_self, Bool.false_eq_true, if_false]
  cases hdigit : c.isDigit with
  | true => cases digitsStartWord (c :: rest) <;> rfl
  | false =>
    have hletter : (c.isAlpha || c == '_') = true := by
      simpa [isWordChar, Char.isAlphanum, hdigit] using hc
    rw [hletter]
    rfl

/-- A number that starts no word is a token. -/
theorem tokenFrom_of_number {c : Char} {rest left : List Char} {value : Value}
    (h : number (c :: rest) = .ok (value, left))
    (hword : c.isDigit = true → digitsStartWord (c :: rest) = false) :
    tokenFrom c rest = .ok (.scalar value, left) := by
  have hmap : ((number (c :: rest)).map fun (value, rest) => (TokenKind.scalar value, rest)) =
      .ok (.scalar value, left) := map_eq_ok.mpr ⟨value, h, rfl⟩
  have hhead := head_of_number h
  simp only [Bool.or_eq_true, beq_iff_eq] at hhead
  rcases hhead with ((rfl | rfl) | rfl) | hdigit
  · exact hmap
  · exact hmap
  · exact hmap
  · rw [tokenFrom_of_isWordChar (isWordChar_of_isDigit hdigit), hdigit, hword hdigit]
    exact hmap

theorem digitsStartWord_of_number {c : Char} {rest left : List Char} {value : Value}
    (h : number (c :: rest) = .ok (value, left)) (hleft : Boundary left)
    (hdigit : c.isDigit = true) : digitsStartWord (c :: rest) = false := by
  have hsign : sign (c :: rest) = ([], c :: rest) :=
    sign_of_head (by rintro d ⟨⟩; exact not_sign_of_isDigit hdigit)
  unfold digitsStartWord
  rcases number_eq_ok h with ⟨_, _, hafter, -⟩ | ⟨_, -, -, rfl, -⟩
  · rw [hsign] at hafter
    rw [hafter]
    rfl
  · rw [hsign] at hleft
    cases hnext : (c :: rest).dropWhile Char.isDigit with
    | nil => rfl
    | cons d _ =>
      have hword := (hleft d (by rw [hnext]; rfl)).1
      simp only [isWordChar, Char.isAlphanum, Bool.or_eq_false_iff] at hword
      simp [hword.1.1, hword.2]

/-- **A key that can be searched is read as a token.** -/
theorem kinds?_key {key : String} (hkey : keyChars key.toList = (key.toList, []))
    (hkind : wordKind key = .key key) (hsearchable : Key.isSearchable key = true)
    {rest : List Char} (h : Boundary rest) :
    kinds? (key.toList ++ rest) = (kinds? rest).map (.key key :: ·) := by
  have hword (hhead : (key.toList.head?.map isWordChar).getD false = true) :
      word (key.toList ++ rest) = .ok (.key key, rest) := by
    rw [word_append key.toList hkey hhead h, String.ofList_toList, hkind]
  simp only [Key.isSearchable, Key.searchableBeginnings, List.any_cons, List.any_nil, Bool.or_false,
    Key.startsWith, Bool.or_eq_true, Option.isSome_iff_exists,
    Key.after?_eq_some_iff] at hsearchable
  rcases hsearchable with ⟨name, rfl⟩ | ⟨name, rfl⟩
  · have htext : ("info." ++ name).toList ++ rest =
        'i' :: ("nfo.".toList ++ name.toList ++ rest) := by simp
    have hinput := hword (by simp; rfl)
    rw [htext] at hinput ⊢
    exact kinds?_of_token hinput
  · have htext : ("config." ++ name).toList ++ rest =
        'c' :: ("onfig.".toList ++ name.toList ++ rest) := by simp
    have hinput := hword (by simp; rfl)
    rw [htext] at hinput ⊢
    exact kinds?_of_token hinput

/-- **A readable literal is read as a token.** -/
theorem kinds?_renderLiteral {literal : Value} (hliteral : isLiteral literal = true)
    (hreadable : isReadable literal = true) {rest : List Char} (h : Boundary rest) :
    kinds? ((Predicate.renderLiteral literal).toList ++ rest) =
      (kinds? rest).map (.scalar literal :: ·) := by
  have hnumber {text : List Char} (htext : number (text ++ rest) = .ok (literal, rest)) :
      kinds? (text ++ rest) = (kinds? rest).map (.scalar literal :: ·) := by
    cases hinput : text ++ rest with
    | nil =>
      rw [hinput] at htext
      cases htext
    | cons c tail =>
      rw [hinput] at htext
      exact kinds?_of_token (tokenFrom_of_number htext (digitsStartWord_of_number htext h))
  cases literal with
  | null => cases hliteral
  | list => cases hliteral
  | map => cases hliteral
  | artifact => cases hliteral
  | bool truth =>
    have hword := word_bool truth h
    cases truth <;> exact kinds?_of_token hword
  | int integer => exact hnumber (number_repr integer h)
  | float number => exact hnumber (number_render hreadable h)
  | str content =>
    have hquote : '\'' ∉ content.toList := by simpa [isReadable] using hreadable
    have htext : (Predicate.renderLiteral (.str content)).toList ++ rest =
        '\'' :: (content.toList ++ '\'' :: rest) := by
      simp [Predicate.renderLiteral]
    rw [htext]
    refine kinds?_of_token (map_eq_ok (f := fun content => TokenKind.scalar (.str content)).mpr
      ⟨content, ?_, rfl⟩)
    rw [text_of_content hquote, String.ofList_toList]

end Query

end Logbook
