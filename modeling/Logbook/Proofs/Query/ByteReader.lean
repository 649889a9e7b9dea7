import Logbook.Proofs.Query.Bytes

/-!
# Reading a query byte by byte

The tokens of a query can be read from its bytes, with a position that moves on, and without
looking at characters at all but in the message about one that is illegal.  Each reader here goes
through bytes as the scanner of the same piece goes through characters, and is proved to give what
that gives, at the places in the query (`located`).  So it never halts but for a fault of the
query, and it goes from place to place.

## Strategy

All characters that mean something to a query have one byte, and the bytes of the others are none
of these.  So a test on a byte says the same as the test on the character (`test_lead`), and loops
over bytes stop where loops over characters do (`skip_place`).
-/

namespace Logbook

namespace Query

/-! ## Faults -/

/-- A fault that the message tells without a character. -/
def reject {α : Type} (cause : LexicalCause) (position : Nat) : Except Halt α :=
  .error (.rejected (QueryError.lexical cause '?' position).message)

/-- A fault at a character, which is cut out for the message. -/
def rejectCharacter {α : Type} (query : String) (position : Nat) : Except Halt α := do
  let rest ← slice query position query.utf8ByteSize
  .error (.rejected
    (QueryError.lexical .illegalCharacter (rest.toList.head?.getD '?') position).message)

/-- A fault that a scanner gives, as the query is told of it. -/
def halted (query : String) (fault : Fault) : Halt :=
  .rejected (QueryError.lexical fault.cause (fault.rest.head?.getD '?')
    (place query fault.rest)).message

/-- What a scanner gives, with places instead of the text that is left. -/
def located {α : Type} (query : String) : Scan α → Except Halt (α × Nat)
  | .ok (read, left) => .ok (read, place query left)
  | .error fault => .error (halted query fault)

theorem located_map {α β : Type} (query : String) (f : α → β) (scan : Scan α) :
    located query (scan.map fun (read, left) => (f read, left)) =
      (located query scan).map fun (read, position) => (f read, position) := by
  rcases scan with fault | ⟨read, left⟩ <;> rfl

theorem reject_place {α : Type} {cause : LexicalCause} (h : cause ≠ .illegalCharacter)
    (query : String) (rest : List Char) :
    (reject cause (place query rest) : Except Halt (α × Nat)) = located query (fail cause rest) := by
  cases cause with
  | illegalCharacter => exact absurd rfl h
  | _ => rfl

theorem rejectCharacter_place {α : Type} {query : String} {rest : List Char}
    (h : rest <:+ query.toList) :
    (rejectCharacter query (place query rest) : Except Halt (α × Nat)) =
      located query (fail .illegalCharacter rest) := by
  have hwhole : rest ++ [] <:+ query.toList := by rwa [List.append_nil]
  have hcut := slice_place hwhole
  rw [List.append_nil, place_nil] at hcut
  rw [rejectCharacter, hcut]
  show (Except.error _ : Except Halt (α × Nat)) = _
  rw [String.toList_ofList]
  rfl

/-! ## Words -/

theorem le_skip (query : String) (test : Char → Bool) (position : Nat) :
    position ≤ skip query test position := by
  fun_induction skip with
  | case1 position byte hbyte htest ih => omega
  | case2 position byte hbyte htest => exact Nat.le_refl _
  | case3 position hbyte => exact Nat.le_refl _

/-- The end of the key at a position.  A dot with a segment behind it goes on with the key. -/
def wordEnd (query : String) (position : Nat) : Except Halt Nat :=
  let stop := skip query isWordChar position
  if stop = position then reject .emptySegment position
  else if h : byteAt? query stop = some '.' ∧ (byteAt? query (stop + 1)).any isWordChar then
    wordEnd query (stop + 1)
  else .ok stop
termination_by query.utf8ByteSize - position
decreasing_by
  have hlt := lt_of_byteAt? h.1
  have hle := le_skip query isWordChar position
  omega

/-- A key, a truth value or the word `in`. -/
def wordAt (query : String) (position : Nat) : Except Halt (TokenKind × Nat) := do
  let stop ← wordEnd query position
  let text ← slice query position stop
  return (wordKind text, stop)

theorem utf8Size_of_le {c : Char} {high : UInt32} (h : c.val ≤ high) (hhigh : high ≤ 127) :
    c.utf8Size = 1 :=
  Char.utf8Size_eq_one_iff.mpr (UInt32.le_trans h hhigh)

theorem utf8Size_of_isWordChar {c : Char} (h : isWordChar c = true) : c.utf8Size = 1 := by
  simp only [isWordChar, Char.isAlphanum, Bool.or_eq_true, beq_iff_eq] at h
  rcases h with (hletter | hdigit) | rfl
  · have hcase : (c.isUpper || c.isLower) = true := hletter
    rcases Bool.or_eq_true_iff.mp hcase with hupper | hlower
    · exact utf8Size_of_le (of_decide_eq_true hupper).2 (by decide)
    · exact utf8Size_of_le (of_decide_eq_true (Bool.and_eq_true_iff.mp hlower).2) (by decide)
  · exact utf8Size_of_le (of_decide_eq_true (Bool.and_eq_true_iff.mp hdigit).2) (by decide)
  · decide

/-- A test that only characters of one byte pass does not tell the others apart. -/
theorem coarse_of_single {test : Char → Bool}
    (h : ∀ c, test c = true → c.utf8Size = 1) : Coarse test := by
  have hfalse (c : Char) (hc : c.utf8Size ≠ 1) : test c = false :=
    Bool.eq_false_iff.mpr fun htest => hc (h c htest)
  intro c d hc hd
  rw [hfalse c hc, hfalse d hd]

theorem coarse_isWordChar : Coarse isWordChar := coarse_of_single fun _ => utf8Size_of_isWordChar

theorem coarse_beq {d : Char} (hd : d.utf8Size = 1) : Coarse (· == d) := by
  refine coarse_of_single fun c hc => ?_
  rw [eq_of_beq hc, hd]

theorem Coarse.or {test other : Char → Bool} (h : Coarse test) (hother : Coarse other) :
    Coarse fun c => test c || other c := fun c d hc hd => by
  dsimp only
  rw [h c d hc hd, hother c d hc hd]

theorem lead_eq_iff {c d : Char} (hd : d.utf8Size = 1) : lead c = d ↔ c = d := by
  have htest := test_lead (coarse_beq hd) c
  rw [Bool.eq_iff_iff, beq_iff_eq, beq_iff_eq] at htest
  exact htest

theorem lead_beq {c d : Char} (hd : d.utf8Size = 1) : (lead c == d) = (c == d) :=
  test_lead (coarse_beq hd) c

theorem keyChars_split (input : List Char) : (keyChars input).1 ++ (keyChars input).2 = input := by
  induction input with
  | nil => rfl
  | cons c rest ih =>
    by_cases h : (isWordChar c || (c == '.' && (rest.head?.map isWordChar).getD false)) = true
    · rw [keyChars_cons h, List.cons_append, ih]
    · rw [keyChars, if_neg h]
      rfl

/-- A key goes on where its first segment ends. -/
theorem keyChars_dropWhile (input : List Char) :
    (keyChars (input.dropWhile isWordChar)).2 = (keyChars input).2 := by
  induction input with
  | nil => rfl
  | cons c rest ih =>
    cases hc : isWordChar c with
    | true =>
      rw [List.dropWhile_cons_of_pos hc, ih, keyChars_cons (by rw [hc]; rfl)]
    | false => rw [List.dropWhile_cons_of_neg (by rw [hc]; exact Bool.false_ne_true)]

/-- What starts with a character that passes a test gets shorter when such are dropped. -/
theorem length_dropWhile_lt {test : Char → Bool} {rest : List Char}
    (h : (rest.head?.map test).getD false = true) :
    (rest.dropWhile test).length < rest.length := by
  cases rest with
  | nil => cases h
  | cons c rest =>
    have hc : test c = true := h
    rw [List.dropWhile_cons_of_pos hc]
    exact Nat.lt_succ_of_le (List.dropWhile_suffix test).length_le

theorem place_lt {query : String} {rest left : List Char} (h : rest <:+ query.toList)
    (hleft : left <:+ rest) (hlength : left.length < rest.length) :
    place query rest < place query left := by
  have hlt := byteLength_lt hleft hlength
  obtain ⟨taken, rfl⟩ := hleft
  rw [place_append h]
  rw [byteLength_append] at hlt
  omega

theorem wordEnd_eq {query : String} {position stop : Nat}
    (hstop : skip query isWordChar position = stop) (hne : stop ≠ position) :
    wordEnd query position =
      if byteAt? query stop = some '.' ∧ (byteAt? query (stop + 1)).any isWordChar then
        wordEnd query (stop + 1)
      else .ok stop := by
  subst hstop
  rw [wordEnd, if_neg hne, dite_eq_ite]

/-- A byte behind a place is as the character there, if a test tells nothing more. -/
theorem any_byteAt?_place {query : String} {rest : List Char} (h : rest <:+ query.toList)
    {test : Char → Bool} (htest : Coarse test) :
    (byteAt? query (place query rest)).any test = (rest.head?.map test).getD false := by
  rw [byteAt?_place h]
  cases rest with
  | nil => rfl
  | cons c rest => exact test_lead htest c

theorem byteAt?_place_eq_iff {query : String} {rest : List Char} (h : rest <:+ query.toList)
    {d : Char} (hd : d.utf8Size = 1) :
    byteAt? query (place query rest) = some d ↔ rest.head? = some d := by
  rw [byteAt?_place h]
  cases rest with
  | nil => simp
  | cons c rest => simp [lead_eq_iff hd]

theorem wordEnd_place {query : String} {rest : List Char} (h : rest <:+ query.toList)
    (hword : (rest.head?.map isWordChar).getD false = true) :
    wordEnd query (place query rest) = .ok (place query (keyChars rest).2) := by
  induction hlength : rest.length using Nat.strongRecOn generalizing rest with
  | ind length ih =>
    subst hlength
    have hend := List.dropWhile_suffix isWordChar (l := rest)
    have hshort := length_dropWhile_lt hword
    have hdotAt := byteAt?_place_eq_iff (hend.trans h) (d := '.') rfl
    rw [wordEnd_eq (skip_place coarse_isWordChar h) (Nat.ne_of_gt (place_lt h hend hshort)),
      ← keyChars_dropWhile]
    by_cases hdot : (rest.dropWhile isWordChar).head? = some '.'
    · obtain ⟨after, hafter⟩ := List.head?_eq_some_iff.mp hdot
      rw [hafter] at hend hshort hdotAt ⊢
      have hquery : after <:+ query.toList := ((List.suffix_cons _ after).trans hend).trans h
      have hnext : place query ('.' :: after) + 1 = place query after :=
        (place_cons (hend.trans h)).symm
      rw [hnext, any_byteAt?_place hquery coarse_isWordChar]
      by_cases hgoes : (after.head?.map isWordChar).getD false = true
      · rw [if_pos ⟨hdotAt.mpr rfl, hgoes⟩, keyChars_cons (by rw [hgoes]; rfl)]
        exact ih _ (Nat.lt_of_succ_lt hshort) hquery hgoes rfl
      · rw [if_neg fun hboth => hgoes hboth.2, keyChars, if_neg]
        have hpoint : isWordChar '.' = false := rfl
        simpa [hpoint] using hgoes
    · rw [if_neg fun hboth => hdot (hdotAt.mp hboth.1)]
      have hstop : keyChars (rest.dropWhile isWordChar) = ([], rest.dropWhile isWordChar) := by
        have hnot := List.head?_dropWhile_not isWordChar rest
        cases hafter : rest.dropWhile isWordChar with
        | nil => rfl
        | cons c after =>
          rw [hafter] at hdot hnot
          have hc : isWordChar c = false := hnot
          have hother : c ≠ '.' := by simpa using hdot
          rw [keyChars, if_neg]
          simp [hc, hother]
      rw [hstop]

theorem wordAt_place {query : String} {rest : List Char} (h : rest <:+ query.toList)
    (hword : (rest.head?.map isWordChar).getD false = true) :
    wordAt query (place query rest) = located query (word rest) := by
  have hsplit : (keyChars rest).1 ++ (keyChars rest).2 <:+ query.toList := by rwa [keyChars_split]
  have hcut := slice_place hsplit
  rw [keyChars_split] at hcut
  rw [wordAt, wordEnd_place h hword, word, if_pos hword]
  show (slice query _ _ >>= fun text => _) = _
  rw [hcut]
  rfl

/-- The end of the digits at a position. -/
def digitsEnd (query : String) (position : Nat) : Except Halt Nat :=
  if h : position < query.utf8ByteSize then do
    let byte ← byteAt query position
    if byte.isDigit then digitsEnd query (position + 1) else return position
  else return position
termination_by query.utf8ByteSize - position

/-- Whether the digits at a position run on into a word. -/
def digitsStartWordAt (query : String) (position : Nat) : Except Halt Bool := do
  let stop ← digitsEnd query position
  return (byteAt? query stop).any fun byte => byte.isAlpha || byte == '_'

theorem byteAt?_eq_none_iff {query : String} {position : Nat} :
    byteAt? query position = none ↔ query.utf8ByteSize ≤ position := by
  rw [byteAt?, Option.map_eq_none_iff, Array.getElem?_eq_none_iff]
  rfl

/-- No digit is asked for behind the end. -/
theorem digitsEnd_eq (query : String) (position : Nat) :
    digitsEnd query position = .ok (skip query Char.isDigit position) := by
  induction hlength : query.utf8ByteSize - position using Nat.strongRecOn generalizing position with
  | ind length ih =>
    subst hlength
    rw [digitsEnd, skip_eq]
    cases hbyte : byteAt? query position with
    | none => rw [dif_neg (Nat.not_lt.mpr (byteAt?_eq_none_iff.mp hbyte))]; rfl
    | some byte =>
      have hlt := lt_of_byteAt? hbyte
      rw [dif_pos hlt, byteAt, hbyte]
      show (if byte.isDigit = true then digitsEnd query (position + 1) else Except.ok position) = _
      rw [ih _ (by omega) (position + 1) rfl, ← apply_ite]

theorem coarse_isDigit : Coarse Char.isDigit :=
  coarse_of_single fun _ h => utf8Size_of_isWordChar (isWordChar_of_isDigit h)

theorem digitsStartWordAt_place {query : String} {rest : List Char} (h : rest <:+ query.toList) :
    digitsStartWordAt query (place query rest) = .ok (digitsStartWord rest) := by
  have hend := (List.dropWhile_suffix Char.isDigit (l := rest)).trans h
  have hcoarse : Coarse fun c => c.isAlpha || c == '_' :=
    coarse_of_single fun _ hc => utf8Size_of_isWordChar (isWordChar_of_letter hc)
  rw [digitsStartWordAt, digitsEnd_eq, skip_place coarse_isDigit h]
  show Except.ok _ = _
  rw [any_byteAt?_place hend hcoarse, digitsStartWord]
  cases rest.dropWhile Char.isDigit <;> rfl

/-! ## Numbers -/

/-- The number that a text is. -/
def numeral? (text : String) : Option Value :=
  match number text.toList with
  | .ok (value, []) => some value
  | _ => none

/-- The number that has been found between two positions. -/
def cutNumber (query : String) (start stop : Nat) : Except Halt (Value × Nat) := do
  let text ← slice query start stop
  match numeral? text with
  | some value => return (value, stop)
  | none => reject (.invalidNumber text) start

/-- A number: a sign, digits and a point, with a digit on at least one side of it. -/
def numberAt (query : String) (position : Nat) : Except Halt (Value × Nat) :=
  let signed := (byteAt? query position).any fun byte => byte == '+' || byte == '-'
  let afterSign := if signed then position + 1 else position
  let afterWhole := skip query Char.isDigit afterSign
  if byteAt? query afterWhole = some '.' then
    let afterFraction := skip query Char.isDigit (afterWhole + 1)
    if afterWhole = afterSign ∧ afterFraction = afterWhole + 1 then rejectCharacter query position
    else cutNumber query position afterFraction
  else if afterWhole = afterSign then rejectCharacter query position
  else cutNumber query position afterWhole

theorem cutNumber_place {query : String} {text left : List Char}
    (h : text ++ left <:+ query.toList) :
    cutNumber query (place query (text ++ left)) (place query left) =
      match numeral? (String.ofList text) with
      | some value => .ok (value, place query left)
      | none => located query (fail (.invalidNumber (String.ofList text)) (text ++ left)) := by
  rw [cutNumber, slice_place h]
  show (match numeral? (String.ofList text) with
    | some value => Except.ok (value, place query left)
    | none => reject (.invalidNumber (String.ofList text)) (place query (text ++ left))) = _
  rw [reject_place (by simp)]

theorem place_dropWhile_eq_iff {query : String} {rest : List Char} (h : rest <:+ query.toList)
    (test : Char → Bool) :
    place query (rest.dropWhile test) = place query rest ↔ rest.takeWhile test = [] := by
  have hsplit := List.takeWhile_append_dropWhile (p := test) (l := rest)
  have hplace := place_append (hsplit.symm ▸ h)
  rw [hsplit] at hplace
  rw [hplace]
  constructor
  · intro heq
    by_contra hne
    have hpos := byteLength_pos hne
    omega
  · intro hnil
    rw [hnil]
    rfl

/-- The sign of a text that is a beginning of another one. -/
theorem sign_of_append {text left signs digits : List Char} (hne : text ≠ [])
    (h : sign (text ++ left) = (signs, digits ++ left)) : sign text = (signs, digits) := by
  rw [sign_behind hne, Prod.mk.injEq] at h
  exact Prod.ext h.1 (List.append_cancel_right h.2)

theorem head?_dropWhile_isDigit {input : List Char} {c : Char}
    (h : (input.dropWhile Char.isDigit).head? = some c) : c.isDigit = false := by
  have hstop := List.head?_dropWhile_not Char.isDigit input
  rw [h] at hstop
  exact hstop

/-- A sign, digits and a point are cut out and read as the double that stands there. -/
theorem cutNumber_pointed {query : String} {signs whole fraction left rest : List Char}
    (h : rest <:+ query.toList) (hsign : sign rest = (signs, whole ++ '.' :: (fraction ++ left)))
    (hdigits : ∀ c ∈ whole ++ fraction, c.isDigit = true) (hne : whole ++ fraction ≠ [])
    (hleft : ∀ c, left.head? = some c → c.isDigit = false) :
    cutNumber query (place query rest) (place query left) = located query (number rest) := by
  have hrest := sign_append rest
  rw [hsign] at hrest
  have htext : rest = (signs ++ whole ++ '.' :: fraction) ++ left := by simp [← hrest]
  have halone : sign (signs ++ whole ++ '.' :: fraction) =
      (signs, whole ++ '.' :: (fraction ++ [])) := by
    have hwhole : sign ((signs ++ whole ++ '.' :: fraction) ++ left) =
        (signs, whole ++ '.' :: (fraction ++ []) ++ left) := by
      rw [← htext, hsign]
      simp
    exact sign_of_append (by simp) hwhole
  have hnumber := number_of_point hsign hdigits hne hleft
  rw [htext] at h hnumber ⊢
  rw [cutNumber_place h, hnumber, numeral?, String.toList_ofList,
    number_of_point halone hdigits hne nofun]
  rfl

/-- A sign and digits are cut out and read as the integer that stands there. -/
theorem cutNumber_whole {query : String} {signs whole left rest : List Char}
    (h : rest <:+ query.toList) (hsign : sign rest = (signs, whole ++ left))
    (hdigits : ∀ c ∈ whole, c.isDigit = true) (hne : whole ≠ [])
    (hleft : ∀ c, left.head? = some c → c.isDigit = false ∧ c ≠ '.') :
    cutNumber query (place query rest) (place query left) = located query (number rest) := by
  have hrest := sign_append rest
  rw [hsign] at hrest
  have htext : rest = (signs ++ whole) ++ left := by simp [← hrest]
  have halone : sign (signs ++ whole) = (signs, whole ++ []) := by
    have hwhole : sign ((signs ++ whole) ++ left) = (signs, whole ++ [] ++ left) := by
      rw [← htext, hsign]
      simp
    exact sign_of_append (by simp [hne]) hwhole
  have hnumber := number_of_whole hsign hdigits hne hleft
  rw [htext] at h hnumber ⊢
  rw [cutNumber_place h, hnumber, numeral?, String.toList_ofList,
    number_of_whole halone hdigits hne nofun]
  generalize Integer.int64? _ = integer
  cases integer <;> rfl

theorem sign_afterSign {query : String} {rest : List Char} (h : rest <:+ query.toList) :
    place query (sign rest).2 =
      if (byteAt? query (place query rest)).any fun byte => byte == '+' || byte == '-' then
        place query rest + 1
      else place query rest := by
  have hsigned : Coarse fun c => c == '+' || c == '-' := (coarse_beq rfl).or (coarse_beq rfl)
  rw [any_byteAt?_place h hsigned]
  by_cases hhead : ∃ c, rest.head? = some c ∧ (c == '+' || c == '-') = true
  · obtain ⟨c, hc, hsign⟩ := hhead
    obtain ⟨after, rfl⟩ := List.head?_eq_some_iff.mp hc
    have hplace := place_cons h
    rw [Bool.or_eq_true, beq_iff_eq, beq_iff_eq] at hsign
    rcases hsign with rfl | rfl <;> exact hplace
  · have hplain : sign rest = ([], rest) := sign_of_head fun c hc => by
      have hnot : ¬(c == '+' || c == '-') = true := fun hsign => hhead ⟨c, hc, hsign⟩
      simpa using hnot
    have hfalse : (rest.head?.map fun c => c == '+' || c == '-').getD false = false := by
      cases rest with
      | nil => rfl
      | cons c rest => exact Bool.eq_false_iff.mpr fun hsign => hhead ⟨c, rfl, hsign⟩
    rw [hplain, hfalse]
    rfl

theorem numberAt_place {query : String} {rest : List Char} (h : rest <:+ query.toList) :
    numberAt query (place query rest) = located query (number rest) := by
  have hafterSign : (sign rest).2 <:+ query.toList := (takes_sign rest).suffix.trans h
  have hafterWhole := (List.dropWhile_suffix Char.isDigit).trans hafterSign
  have hsplit := List.takeWhile_append_dropWhile (p := Char.isDigit) (l := (sign rest).2)
  have hwhole : ∀ c ∈ (sign rest).2.takeWhile Char.isDigit, c.isDigit = true :=
    fun c hc => List.mem_takeWhile_imp hc
  unfold numberAt
  dsimp only
  rw [← sign_afterSign h, skip_place coarse_isDigit hafterSign]
  simp only [byteAt?_place_eq_iff hafterWhole (d := '.') rfl,
    place_dropWhile_eq_iff hafterSign Char.isDigit]
  by_cases hpoint : ((sign rest).2.dropWhile Char.isDigit).head? = some '.'
  · obtain ⟨afterPoint, hafter⟩ := List.head?_eq_some_iff.mp hpoint
    rw [hafter] at hafterWhole hsplit
    have hafterPoint := (List.suffix_cons '.' afterPoint).trans hafterWhole
    have hnext : place query ('.' :: afterPoint) + 1 = place query afterPoint :=
      (place_cons hafterWhole).symm
    rw [if_pos hpoint, hafter, hnext, skip_place coarse_isDigit hafterPoint]
    simp only [place_dropWhile_eq_iff hafterPoint Char.isDigit]
    by_cases hempty : (sign rest).2.takeWhile Char.isDigit = [] ∧
        afterPoint.takeWhile Char.isDigit = []
    · rw [if_pos hempty, rejectCharacter_place h, number_point hafter, hempty.1, hempty.2]
      rfl
    · rw [if_neg hempty]
      have hsign : sign rest = ((sign rest).1, (sign rest).2.takeWhile Char.isDigit ++
          '.' :: (afterPoint.takeWhile Char.isDigit ++ afterPoint.dropWhile Char.isDigit)) := by
        rw [List.takeWhile_append_dropWhile, hsplit]
      refine cutNumber_pointed h hsign ?_ ?_ ?_
      · intro c hc
        rcases List.mem_append.mp hc with hc | hc
        · exact hwhole c hc
        · exact List.mem_takeWhile_imp hc
      · simpa using hempty
      · exact fun c => head?_dropWhile_isDigit
  · rw [if_neg hpoint]
    by_cases hempty : (sign rest).2.takeWhile Char.isDigit = []
    · rw [if_pos hempty, rejectCharacter_place h, number_whole hpoint, hempty]
      rfl
    · rw [if_neg hempty]
      refine cutNumber_whole h (Prod.ext rfl hsplit.symm) hwhole hempty fun c hc =>
        ⟨head?_dropWhile_isDigit hc, ?_⟩
      rintro rfl
      exact hpoint hc

/-! ## Texts -/

/-- A text between two quotes of the kind that stands at a position. -/
def textAt (query : String) (position : Nat) : Except Halt (String × Nat) := do
  let quote ← byteAt query position
  let stop := skip query (· != quote) (position + 1)
  if (byteAt? query stop).isSome then
    let content ← slice query (position + 1) stop
    return (content, stop + 1)
  else reject .unterminatedText position

theorem byteAt_place {query : String} {c : Char} {rest : List Char} (h : c :: rest <:+ query.toList) :
    byteAt query (place query (c :: rest)) = .ok (lead c) := by
  rw [byteAt, byteAt?_place h]
  rfl

theorem coarse_bne {d : Char} (hd : d.utf8Size = 1) : Coarse (· != d) := fun c e hc he =>
  congrArg Bool.not (coarse_beq hd c e hc he)

theorem textAt_place {query : String} {quote : Char} {rest : List Char}
    (h : quote :: rest <:+ query.toList) (hquote : quote.utf8Size = 1) :
    textAt query (place query (quote :: rest)) = located query (text quote rest (quote :: rest)) := by
  have hrest := (List.suffix_cons quote rest).trans h
  have hsplit := List.takeWhile_append_dropWhile (p := (· != quote)) (l := rest)
  have hstop := (List.dropWhile_suffix (· != quote)).trans hrest
  have hnext : place query (quote :: rest) + 1 = place query rest := by
    rw [place_cons h, hquote]
  rw [textAt, byteAt_place h, lead_of_single hquote]
  show (if (byteAt? query (skip query (· != quote) (place query (quote :: rest) + 1))).isSome then
      _ else _) = _
  rw [hnext, skip_place (coarse_bne hquote) hrest, byteAt?_place hstop, Option.isSome_map]
  unfold text
  simp only [drop_takeWhile]
  cases hleft : rest.dropWhile (· != quote) with
  | nil =>
    rw [if_neg (by simp)]
    exact reject_place (by simp) query _
  | cons d left =>
    rw [hleft] at hsplit hstop
    have hclosing : d = quote := by
      have hnot := List.head?_dropWhile_not (· != quote) rest
      rw [hleft] at hnot
      simpa using hnot
    have hcut := slice_place (hsplit.symm ▸ hrest)
    rw [hsplit] at hcut
    rw [List.head?_cons, Option.isSome_some, if_pos rfl, hcut]
    have hafter : place query (d :: left) + 1 = place query left := by
      rw [place_cons hstop, hclosing, hquote]
    show Except.ok (_, place query (d :: left) + 1) = _
    rw [hafter]
    rfl

/-! ## Lists -/

/-- An item of a list. -/
def itemAt (query : String) (position : Nat) : Except Halt (Value × Nat) :=
  match byteAt? query position with
  | none => rejectCharacter query position
  | some byte =>
      if byte == '\'' || byte == '"' then
        (textAt query position).map fun (content, position) => (.str content, position)
      else if byte == '+' || byte == '-' || byte == '.' || byte.isDigit then numberAt query position
      else if byte.isAlpha then
        (wordAt query position).bind fun
          | (.scalar value, position) => .ok (value, position)
          | _ => reject .nonScalarItem position
      else rejectCharacter query position

/-- The items of a list up to its closing bracket, in at most the given number of rounds. -/
def itemsAt (query : String) (start : Nat) :
    Nat → (expectItem : Bool) → List Value → Nat → Except Halt (List Value × Nat)
  | 0, _, _, _ => .error .unfinished
  | rounds + 1, expectItem, items, position =>
      let position := skip query isPadding position
      match byteAt? query position with
      | none => reject .unterminatedList start
      | some byte =>
          if byte == ']' then
            if expectItem && !items.isEmpty then reject .trailingComma position
            else .ok (items, position + 1)
          else if byte == ',' && !expectItem then
            itemsAt query start rounds true items (position + 1)
          else if expectItem then
            (itemAt query position).bind fun (item, position) =>
              itemsAt query start rounds false (items ++ [item]) position
          else rejectCharacter query position

theorem lead_isDigit (c : Char) : (lead c).isDigit = c.isDigit := test_lead coarse_isDigit c

theorem lead_isAlpha (c : Char) : (lead c).isAlpha = c.isAlpha :=
  test_lead (coarse_of_single fun _ hc => utf8Size_of_isWordChar (isWordChar_of_isAlpha hc)) c

theorem utf8Size_of_quote {c : Char} (h : (c == '\'' || c == '"') = true) : c.utf8Size = 1 := by
  rw [Bool.or_eq_true, beq_iff_eq, beq_iff_eq] at h
  rcases h with rfl | rfl <;> rfl

theorem itemAt_place {query : String} {rest : List Char} (h : rest <:+ query.toList) :
    itemAt query (place query rest) = located query (listItem rest) := by
  unfold itemAt listItem
  rw [byteAt?_place h]
  cases rest with
  | nil => exact rejectCharacter_place h
  | cons c rest =>
    simp (disch := decide) only [List.head?_cons, Option.map_some, lead_beq, lead_isDigit,
      lead_isAlpha]
    split_ifs with hquote hnumber hletter
    · rw [textAt_place h (utf8Size_of_quote hquote)]
      exact (located_map query Value.str _).symm
    · exact numberAt_place h
    · rw [wordAt_place h (isWordChar_of_isAlpha hletter)]
      rcases word (c :: rest) with fault | ⟨kind, left⟩
      · rfl
      · have hfault : (reject .nonScalarItem (place query (c :: rest)) : Except Halt (Value × Nat)) =
            located query (fail .nonScalarItem (c :: rest)) := reject_place (by simp) query _
        cases kind with
        | scalar => rfl
        | _ => exact hfault
    · exact rejectCharacter_place h

theorem coarse_isPadding : Coarse isPadding := (coarse_beq rfl).or (coarse_beq rfl)

theorem itemsAt_padding {query : String} {c : Char} {rest : List Char}
    (h : c :: rest <:+ query.toList) (hc : isPadding c = true) (start rounds : Nat)
    (expectItem : Bool) (items : List Value) :
    itemsAt query start rounds expectItem items (place query (c :: rest)) =
      itemsAt query start rounds expectItem items (place query rest) := by
  cases rounds with
  | zero => rfl
  | succ rounds =>
    unfold itemsAt
    rw [skip_cons coarse_isPadding h hc]

/-- A list is read with one round for every character that is left, or fewer. -/
theorem itemsAt_place {query : String} (bracket : List Char) {rest : List Char}
    (h : rest <:+ query.toList) {rounds fuel : Nat} (hrounds : rest.length < rounds)
    (hfuel : rest.length < fuel) (expectItem : Bool) (items : List Value) :
    itemsAt query (place query bracket) rounds expectItem items (place query rest) =
      located query (listItems bracket fuel expectItem items rest) := by
  induction hlength : rest.length using Nat.strongRecOn
      generalizing rounds fuel expectItem items rest with
  | ind length ih =>
    subst hlength
    obtain ⟨fuel, rfl⟩ := Nat.exists_eq_add_one_of_ne_zero (Nat.ne_of_gt (Nat.zero_lt_of_lt hfuel))
    cases rest with
    | nil =>
      obtain ⟨rounds, rfl⟩ :=
        Nat.exists_eq_add_one_of_ne_zero (Nat.ne_of_gt (Nat.zero_lt_of_lt hrounds))
      unfold itemsAt listItems
      rw [skip_place coarse_isPadding h]
      dsimp only [List.dropWhile_nil]
      rw [byteAt?_place h, List.head?_nil, Option.map_none]
      exact reject_place (by simp) query bracket
    | cons c rest =>
      have hrest := (List.suffix_cons c rest).trans h
      rw [List.length_cons] at hrounds hfuel ih
      rw [listItems]
      change _ = located query (if isPadding c = true then _ else _)
      by_cases hpadding : isPadding c = true
      · rw [itemsAt_padding h hpadding, if_pos hpadding]
        exact ih _ (Nat.lt_succ_self _) hrest (by omega) (by omega) _ _ rfl
      · rw [if_neg hpadding]
        obtain ⟨rounds, rfl⟩ :=
          Nat.exists_eq_add_one_of_ne_zero (Nat.ne_of_gt (Nat.zero_lt_of_lt hrounds))
        unfold itemsAt
        rw [skip_place coarse_isPadding h, List.dropWhile_cons_of_neg hpadding]
        dsimp only
        rw [byteAt?_place h]
        simp (disch := decide) only [List.head?_cons, Option.map_some, lead_beq]
        split_ifs with hclosing htrailing hcomma hexpect
        · rw [reject_place (by simp)]
        · obtain rfl := eq_of_beq hclosing
          exact congrArg (fun next => Except.ok (items, next)) (place_cons h).symm
        · rw [Bool.and_eq_true] at hcomma
          obtain rfl := eq_of_beq hcomma.1
          have hnext : place query (',' :: rest) + 1 = place query rest := (place_cons h).symm
          rw [hnext]
          exact ih _ (Nat.lt_succ_self _) hrest (by omega) (by omega) _ _ rfl
        · rw [itemAt_place h]
          cases hitem : listItem (c :: rest) with
          | error fault => rfl
          | ok pair =>
            obtain ⟨item, left⟩ := pair
            have hshort : left.length < rest.length + 1 := listItem_length hitem
            exact ih _ hshort ((listItem_suffix hitem).trans h) (by omega) (by omega) _ _ rfl
        · exact rejectCharacter_place h

end Query

end Logbook
