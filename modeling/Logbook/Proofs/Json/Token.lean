import Logbook.Json.Draft
import Logbook.Proofs.Binary64.Layout

/-!
# Tokens of a printed document

Strings, numbers and punctuation as a document is printed with them, and the tokens that
are read from there.

## Strategy

A string is read character by character, so one lemma about the written form of a character
(`pieces?_escape`) is enough.  A number is read up to where it cannot go on (`Stops`), which
depends on what follows it in the text.  `Lexed` says what part of an input some tokens are
read from; it is transitive, so that a document is read part by part, and nothing is said
about fuel anywhere else.
-/

namespace Logbook

namespace Json

open Decimal FloatStyle

/-! ## Strings -/

/-- What the written form of a character is read as: a character of its own, unless it is
spelled by its number. -/
def piece (c : Char) : Piece :=
  match escape c with
  | '\\' :: 'u' :: _ => .unit c.toNat
  | _ => .char c

/-- A character is written as itself, by a letter, or by its number. -/
theorem escape_cases (c : Char) :
    (escape c = [c] ∧ piece c = .char c ∧ c ≠ '"' ∧ c ≠ '\\' ∧ ¬ c.toNat < 0x20) ∨
    (∃ letter, escape c = ['\\', letter] ∧ piece c = .char c ∧ letter ≠ 'u' ∧
      simpleEscape? letter = some c) ∨
    (escape c = ['\\', 'u', '0', '0', hexDigit (c.toNat / 16), hexDigit (c.toNat % 16)] ∧
      piece c = .unit c.toNat ∧ c.toNat < 0x20) := by
  unfold piece escape
  split
  · exact .inr (.inl ⟨_, rfl, rfl, by decide, rfl⟩)
  · exact .inr (.inl ⟨_, rfl, rfl, by decide, rfl⟩)
  · exact .inr (.inl ⟨_, rfl, rfl, by decide, rfl⟩)
  · exact .inr (.inl ⟨_, rfl, rfl, by decide, rfl⟩)
  · exact .inr (.inl ⟨_, rfl, rfl, by decide, rfl⟩)
  · exact .inr (.inl ⟨_, rfl, rfl, by decide, rfl⟩)
  · exact .inr (.inl ⟨_, rfl, rfl, by decide, rfl⟩)
  · next hquote hslash _ _ _ _ _ =>
    by_cases hcontrol : c.toNat < 0x20
    · rw [if_pos hcontrol]
      exact .inr (.inr ⟨rfl, rfl, hcontrol⟩)
    · rw [if_neg hcontrol]
      refine .inl ⟨rfl, ?_, hquote, hslash, hcontrol⟩
      split
      · next heq => cases (List.cons.inj heq).2
      · rfl

/-- The text of a string is read back, whatever characters it has. -/
theorem chars?_map_piece (chars : List Char) : chars? (chars.map piece) = some chars := by
  have hcons : ∀ (c : Char) (rest : List Piece),
      chars? (piece c :: rest) = (chars? rest).map (c :: ·) := by
    intro c rest
    rcases escape_cases c with ⟨-, hpiece, -⟩ | ⟨_, -, hpiece, -⟩ | ⟨-, hpiece, hcontrol⟩
    · rw [hpiece, chars?]
    · rw [hpiece, chars?]
    · -- The number of a control character is no half of a pair.
      have hhigh : (decide (0xD800 ≤ c.toNat) && decide (c.toNat < 0xDC00)) = false := by grind
      have hlow : (decide (0xDC00 ≤ c.toNat) && decide (c.toNat < 0xE000)) = false := by grind
      have hunit : (decide (0xD800 ≤ c.toNat) && decide (c.toNat < 0xE000)) = false := by grind
      rcases rest with _ | ⟨next | low, rest⟩ <;>
        simp only [hpiece, chars?, hhigh, hlow, hunit, Bool.false_eq_true, if_false,
          Char.ofNat_toNat]
  induction chars with
  | nil => rfl
  | cons c chars ih => rw [List.map_cons, hcons, ih, Option.map_some]

theorem ofHex?_control : ∀ number < 0x20,
    ofHex? ['0', '0', hexDigit (number / 16), hexDigit (number % 16)] = some number := by
  decide

theorem pieces?_escape (c : Char) (before : List Piece) (rest : List Char) :
    pieces? before (escape c ++ rest) = pieces? (piece c :: before) rest := by
  rcases escape_cases c with ⟨hescape, hpiece, hquote, hslash, hcontrol⟩ |
    ⟨letter, hescape, hpiece, hletter, hsimple⟩ | ⟨hescape, hpiece, hcontrol⟩
  · rw [hescape, hpiece, List.singleton_append, pieces?]
    · simp [hslash, hcontrol]
    all_goals simp_all
  · rw [hescape, hpiece]
    show pieces? before ('\\' :: letter :: rest) = _
    rw [pieces?, hsimple]
    simp_all
  · rw [hescape, hpiece]
    show pieces? before ('\\' :: 'u' :: '0' :: '0' :: _ :: _ :: rest) = _
    rw [pieces?, ofHex?_control _ hcontrol]

/-- The parts that the written form of a text is read as. -/
def pieces (text : String) : List Piece := text.toList.map piece

/-! ## Numbers -/

/-- No number goes on here. -/
def Stops (rest : List Char) : Prop :=
  ∀ c, rest.head? = some c → c.isDigit = false ∧ c ≠ '.' ∧ c ≠ 'e' ∧ c ≠ 'E'

/-- The exponent part of a number with its sign. -/
def powerText (power : Int) : List Char :=
  'e' :: (if power < 0 then ['-'] else ['+']) ++ Nat.toDigits 10 power.natAbs

theorem stops_nil : Stops [] := by
  rintro c ⟨⟩

theorem exponent?_of_stops {rest : List Char} (h : Stops rest) :
    exponent? rest = some (none, rest) := by
  cases rest with
  | nil => rfl
  | cons c rest =>
    obtain ⟨-, -, hlower, hupper⟩ := h c rfl
    unfold exponent?
    dsimp only
    rw [if_neg (by simp [hlower, hupper])]

theorem exponent?_powerText (power : Int) {rest : List Char} (h : Stops rest) :
    exponent? (powerText power ++ rest) = some (some power, rest) := by
  have hdigits : (Nat.toDigits 10 power.natAbs ++ rest).takeWhile Char.isDigit =
      Nat.toDigits 10 power.natAbs :=
    takeWhile_digits (fun c => isDigit_of_mem_toDigits) fun c hc => (h c hc).1
  have hne : (Nat.toDigits 10 power.natAbs).isEmpty = false := by simp [Nat.toDigits_ne_nil]
  unfold powerText
  by_cases hnegative : power < 0
  · rw [if_pos hnegative]
    show exponent? ('e' :: '-' :: (Nat.toDigits 10 power.natAbs ++ rest)) = _
    have hpower : -(power.natAbs : Int) = power := by omega
    simp only [exponent?, beq_self_eq_true, Bool.true_or, if_true, hdigits, hne, Bool.false_eq_true,
      if_false, List.drop_left, ofDigits_toDigits, hpower]
  · rw [if_neg hnegative]
    show exponent? ('e' :: '+' :: (Nat.toDigits 10 power.natAbs ++ rest)) = _
    have hpower : (power.natAbs : Int) = power := by omega
    simp only [exponent?, beq_self_eq_true, Bool.true_or, if_true, hdigits, hne, Bool.false_eq_true,
      if_false, List.drop_left, ofDigits_toDigits, hpower]

/-- The point and the digits behind it; without digits there is no point. -/
def fractionText (fraction : List Char) : List Char :=
  if fraction.isEmpty then [] else '.' :: fraction

theorem fraction?_fractionText {fraction rest : List Char}
    (hdigits : ∀ c ∈ fraction, c.isDigit = true)
    (hrest : ∀ c, rest.head? = some c → c.isDigit = false ∧ c ≠ '.') :
    fraction? (fractionText fraction ++ rest) = some (fraction, rest) := by
  cases fraction with
  | nil =>
    show fraction? rest = _
    unfold fraction?
    split
    · exact absurd rfl (hrest '.' rfl).2
    · rfl
  | cons digit fraction =>
    have htake := takeWhile_digits hdigits fun c hc => (hrest c hc).1
    show fraction? ('.' :: (digit :: fraction ++ rest)) = _
    simp only [fraction?, htake, List.isEmpty_cons, Bool.false_eq_true, if_false, List.drop_left]

/-- A number is read up to where its parts end. -/
theorem numeral?_append {whole fraction behind rest : List Char} {power : Option Int}
    (hdigits : ∀ c ∈ whole ++ fraction, c.isDigit = true) (hne : whole ≠ [])
    (hleading : whole.head? = some '0' → whole = ['0'])
    (hbehind : ∀ c, behind.head? = some c → c.isDigit = false ∧ c ≠ '.')
    (hpower : exponent? behind = some (power, rest)) (negative : Bool) :
    numeral? negative (whole ++ (fractionText fraction ++ behind)) =
      some (⟨negative, whole, fraction, power⟩, rest) := by
  have hwhole : ∀ c ∈ whole, c.isDigit = true := fun c hc => hdigits c (by simp [hc])
  have hfraction : ∀ c ∈ fraction, c.isDigit = true := fun c hc => hdigits c (by simp [hc])
  have hpoint : ∀ c, (fractionText fraction ++ behind).head? = some c → c.isDigit = false := by
    intro c hc
    cases fraction with
    | nil => exact (hbehind c hc).1
    | cons digit fraction =>
      cases hc
      rfl
  have hzero : (whole.isEmpty || (whole.head? == some '0' && whole.length != 1)) = false := by
    by_cases hhead : whole.head? = some '0'
    · rw [hleading hhead]
      rfl
    · simp [hne, hhead]
  unfold numeral?
  dsimp only
  rw [takeWhile_digits hwhole hpoint, hzero, if_neg (by decide), List.drop_left,
    fraction?_fractionText hfraction hbehind]
  show (exponent? behind).bind _ = _
  rw [hpower]
  rfl

/-- The numeral that an integer is written as. -/
def numeralOfInteger (number : Int) : Numeral :=
  ⟨decide (number < 0), Nat.toDigits 10 number.natAbs, [], none⟩

/-- The numeral that a decimal is written as: with a power of ten where the layout has one. -/
def numeralOfDecimal (negative : Bool) (number : Decimal) : Numeral :=
  let digits := Nat.toDigits 10 number.digits
  let exponent := number.power + digits.length - 1
  if FloatStyle.json.leastPlain ≤ exponent && exponent < firstLarge then
    let text := plain digits number.power
    ⟨negative, text.takeWhile Char.isDigit, (text.dropWhile Char.isDigit).drop 1, none⟩
  else ⟨negative, digits.take 1, digits.drop 1, some exponent⟩

theorem numeral?_integer (number : Int) {rest : List Char} (h : Stops rest) :
    numeral? (decide (number < 0)) (Nat.toDigits 10 number.natAbs ++ rest) =
      some (numeralOfInteger number, rest) := by
  have hdigits : ∀ c ∈ Nat.toDigits 10 number.natAbs ++ [], c.isDigit = true := by
    rw [List.append_nil]
    exact fun c => isDigit_of_mem_toDigits
  exact numeral?_append hdigits Nat.toDigits_ne_nil (leading_toDigits (List.prefix_refl _))
    (fun c hc => ⟨(h c hc).1, (h c hc).2.1⟩) (exponent?_of_stops h) _

theorem json_scientific (digits : List Char) (exponent : Int) :
    scientific FloatStyle.json.plusSign digits exponent =
      digits.take 1 ++ fractionText (digits.drop 1) ++ powerText exponent := by
  rcases digits with _ | ⟨digit, _ | ⟨next, digits⟩⟩ <;>
    simp [scientific, fractionText, powerText, FloatStyle.json]

/-- What a decimal is written as, and what the digits mean. -/
theorem numeral?_decimal (negative : Bool) {number : Decimal}
    (hzero : number.digits = 0 → number.power = 0) {rest : List Char} (h : Stops rest) :
    numeral? negative (FloatStyle.json.decimal number ++ rest) =
      some (numeralOfDecimal negative number, rest) ∧
      ((numeralOfDecimal negative number).power.isNone &&
        (numeralOfDecimal negative number).fraction.isEmpty) = false ∧
      Spelled (numeralOfDecimal negative number).whole (numeralOfDecimal negative number).fraction
        ((numeralOfDecimal negative number).power.getD 0) number := by
  unfold FloatStyle.decimal numeralOfDecimal
  dsimp only
  split
  · obtain ⟨whole, fraction, hne, hplain, hspelled⟩ := spelled_plain hzero
    have hwhole : (whole ++ '.' :: fraction).takeWhile Char.isDigit = whole :=
      takeWhile_digits (fun c hc => hspelled.isDigit c (by simp [hc])) (by rintro c ⟨⟩; rfl)
    have hfraction : ((whole ++ '.' :: fraction).dropWhile Char.isDigit).drop 1 = fraction := by
      rw [List.dropWhile_append_of_pos fun c hc => hspelled.isDigit c (by simp [hc])]
      rfl
    have htext : fractionText fraction = '.' :: fraction := by
      cases fraction with
      | nil => exact absurd rfl hne
      | cons => rfl
    rw [hplain, hwhole, hfraction, ← htext, List.append_assoc]
    refine ⟨numeral?_append hspelled.isDigit hspelled.ne_nil hspelled.leading
      (fun c hc => ⟨(h c hc).1, (h c hc).2.1⟩) (exponent?_of_stops h) negative, ?_, hspelled⟩
    simp [hne]
  · -- With one digit there is neither a point nor a fraction, but a power of ten always.
    have hspelled := spelled_scientific number
    rw [json_scientific, List.append_assoc, List.append_assoc]
    refine ⟨numeral?_append hspelled.isDigit hspelled.ne_nil hspelled.leading
      ?_ (exponent?_powerText _ h) negative, rfl, hspelled⟩
    rintro c ⟨⟩
    decide

/-- An integer of 64 bits is read exactly. -/
theorem value?_numeralOfInteger {number : Int} (h : Integer.fits64 number = true) :
    (numeralOfInteger number).value? = some (.integer number) := by
  have hnumber : (if decide (number < 0) = true then -(number.natAbs : Int) else number.natAbs) =
      number := by
    split
    · next hnegative => have := of_decide_eq_true hnegative; omega
    · next hnegative => simp only [decide_eq_true_eq] at hnegative; omega
  have hzero : (decide (number < 0) && number.natAbs == 0) = false := by
    by_cases hnegative : number < 0
    · have hne : number.natAbs ≠ 0 := by omega
      simp [hne]
    · simp [hnegative]
  unfold Numeral.value? numeralOfInteger
  dsimp only
  rw [ofDigits_toDigits, hnumber, h, hzero]
  rfl

/-- A decimal is never written as an integer. -/
theorem value?_numeralOfDecimal (negative : Bool) {number : Decimal}
    (hzero : number.digits = 0 → number.power = 0) :
    (numeralOfDecimal negative number).value? =
      (numeralOfDecimal negative number).double?.map .float := by
  obtain ⟨-, hfloat, -⟩ := numeral?_decimal negative hzero stops_nil
  unfold Numeral.value?
  dsimp only
  rw [hfloat]
  rfl

/-! ## Reading tokens -/

/-- The input is read as some tokens, and this is left of it. -/
def Lexed (input : List Char) (tokens : List Token) (rest : List Char) : Prop :=
  ∀ fuel before, input.length < fuel → ∃ left, rest.length < left ∧
    tokensFrom? fuel before input = tokensFrom? left (tokens.reverse ++ before) rest

theorem Lexed.refl (input : List Char) : Lexed input [] input :=
  fun fuel _ hfuel => ⟨fuel, hfuel, rfl⟩

theorem Lexed.trans {first second third : List Char} {tokens more : List Token}
    (h : Lexed first tokens second) (hmore : Lexed second more third) :
    Lexed first (tokens ++ more) third := by
  intro fuel before hfuel
  obtain ⟨between, hbetween, hfirst⟩ := h fuel before hfuel
  obtain ⟨left, hleft, hsecond⟩ := hmore between (tokens.reverse ++ before) hbetween
  refine ⟨left, hleft, ?_⟩
  rw [hfirst, hsecond, List.reverse_append, List.append_assoc]

theorem lexed_space {c : Char} (h : isSpace c = true) (rest : List Char) :
    Lexed (c :: rest) [] rest := by
  intro fuel before hfuel
  obtain ⟨left, rfl⟩ : ∃ left, fuel = left + 1 := ⟨fuel - 1, by omega⟩
  refine ⟨left, by simpa using hfuel, ?_⟩
  rw [tokensFrom?, if_pos h]
  rfl

theorem lexed_newLine (level : Nat) (rest : List Char) : Lexed (newLine level ++ rest) [] rest := by
  have hblanks : ∀ count, Lexed (List.replicate count ' ' ++ rest) [] rest := by
    intro count
    induction count with
    | zero => exact Lexed.refl rest
    | succ count ih => exact (lexed_space rfl _).trans ih
  exact (lexed_space rfl _).trans (hblanks (2 * level))

theorem lexed_token {c : Char} {rest left : List Char} {token : Token} (hspace : isSpace c = false)
    (h : token? c rest = some (token, left)) (hle : left.length ≤ rest.length) :
    Lexed (c :: rest) [token] left := by
  intro fuel before hfuel
  obtain ⟨fuel, rfl⟩ : ∃ less, fuel = less + 1 := ⟨fuel - 1, by omega⟩
  have hlength : left.length < fuel := by
    simp only [List.length_cons] at hfuel
    omega
  refine ⟨fuel, hlength, ?_⟩
  rw [tokensFrom?, hspace, h]
  rfl

theorem tokens?_of_lexed {text : String} {tokens : List Token} (h : Lexed text.toList tokens []) :
    tokens? text = some tokens := by
  obtain ⟨left, -, htokens⟩ := h (text.toList.length + 1) [] (Nat.lt_succ_self _)
  show tokensFrom? _ [] text.toList = _
  rw [htokens, tokensFrom?]
  simp

/-! ## The tokens of leaves -/

theorem pieces?_flatMap_escape (chars : List Char) (before : List Piece) (rest : List Char) :
    pieces? before (chars.flatMap escape ++ '"' :: rest) =
      some (before.reverse ++ chars.map piece, rest) := by
  induction chars generalizing before with
  | nil => simp [pieces?]
  | cons c chars ih =>
    rw [List.flatMap_cons, List.append_assoc, pieces?_escape, ih]
    simp

theorem lexed_quote (text : String) (rest : List Char) :
    Lexed (quote text ++ rest) [.string (pieces text)] rest := by
  have hquote : quote text ++ rest = '"' :: (text.toList.flatMap escape ++ '"' :: rest) := by
    simp [quote]
  rw [hquote]
  refine lexed_token rfl ?_ (by simp; omega)
  show (pieces? [] _).map _ = _
  rw [pieces?_flatMap_escape]
  rfl

/-- A number without a sign begins with no other token. -/
theorem token?_digit {c : Char} (h : c.isDigit = true) (rest : List Char) :
    isSpace c = false ∧
      token? c rest =
        (numeral? false (c :: rest)).map fun (numeral, rest) => (.number numeral, rest) := by
  constructor
  · by_contra hspace
    simp only [isSpace, Bool.not_eq_false, Bool.or_eq_true, beq_iff_eq] at hspace
    rcases hspace with ((rfl | rfl) | rfl) | rfl <;> cases h
  · unfold token?
    split <;> first | rfl | cases h

theorem head_of_numeral? {negative : Bool} {input rest : List Char} {numeral : Numeral}
    (h : numeral? negative input = some (numeral, rest)) :
    ∃ c behind, input = c :: behind ∧ c.isDigit = true := by
  cases input with
  | nil => cases h
  | cons c behind =>
    refine ⟨c, behind, rfl, ?_⟩
    by_contra hdigit
    simp [numeral?, hdigit] at h

theorem lexed_number {negative : Bool} {digits rest : List Char} {numeral : Numeral}
    (hne : digits ≠ []) (h : numeral? negative (digits ++ rest) = some (numeral, rest)) :
    Lexed (signText negative ++ digits ++ rest) [.number numeral] rest := by
  obtain ⟨c, behind, hinput, hdigit⟩ := head_of_numeral? h
  have hlength : rest.length ≤ behind.length := by
    have htotal := congrArg List.length hinput
    have hpos := List.length_pos_iff.mpr hne
    simp only [List.length_append, List.length_cons] at htotal
    omega
  cases negative with
  | true =>
    refine lexed_token rfl ?_ (by simp)
    show (numeral? true (digits ++ rest)).map _ = _
    rw [h]
    rfl
  | false =>
    obtain ⟨hspace, htoken⟩ := token?_digit hdigit behind
    show Lexed (digits ++ rest) _ rest
    rw [hinput]
    refine lexed_token hspace (htoken.trans ?_) hlength
    rw [← hinput, h]
    rfl

end Json

end Logbook
