import Logbook.Proofs.Query.Items

/-!
# What a scanner takes

A scanner takes a piece off the front of a text and looks at no more than the character
behind it.  Two facts follow for every scanner.

* What it takes is an initial piece of the text, and but for quotes and brackets it takes
  none of the characters that open or close a text or a list (`Takes`).
* Where no word or number goes on, more text behind what a scanner was given does not change
  what it reads (`behind`).
-/

namespace Logbook

namespace Query

/-- Whether a character opens or closes a text or a list. -/
def isDelimiter (c : Char) : Bool := c == '\'' || c == '"' || c == '[' || c == ']'

/-- What is left of a text when characters have been taken that delimit nothing. -/
def Takes (input left : List Char) : Prop :=
  ∃ taken, input = taken ++ left ∧ ∀ c ∈ taken, isDelimiter c = false

theorem Takes.nil (input : List Char) : Takes input input := ⟨[], rfl, by simp⟩

theorem Takes.cons {c : Char} {input left : List Char} (hc : isDelimiter c = false)
    (h : Takes input left) : Takes (c :: input) left := by
  obtain ⟨taken, rfl, htaken⟩ := h
  exact ⟨c :: taken, rfl, by simpa [hc] using htaken⟩

theorem Takes.trans {input between left : List Char} (h : Takes input between)
    (hleft : Takes between left) : Takes input left := by
  obtain ⟨first, rfl, hfirst⟩ := h
  obtain ⟨second, rfl, hsecond⟩ := hleft
  refine ⟨first ++ second, (List.append_assoc ..).symm, fun c hc => ?_⟩
  exact (List.mem_append.mp hc).elim (hfirst c) (hsecond c)

theorem Takes.suffix {input left : List Char} (h : Takes input left) : left <:+ input := by
  obtain ⟨taken, rfl, -⟩ := h
  exact List.suffix_append taken left

/-! ## What is taken -/

theorem isDelimiter_of_isWordChar {c : Char} (h : isWordChar c = true) : isDelimiter c = false := by
  by_contra hc
  simp only [isDelimiter, Bool.not_eq_false, Bool.or_eq_true, beq_iff_eq] at hc
  rcases hc with ((rfl | rfl) | rfl) | rfl <;> cases h

theorem isDelimiter_of_isDigit {c : Char} (h : c.isDigit = true) : isDelimiter c = false :=
  isDelimiter_of_isWordChar (isWordChar_of_isDigit h)

theorem takes_keyChars (input : List Char) : Takes input (keyChars input).2 := by
  induction input with
  | nil => exact .nil _
  | cons c rest ih =>
    by_cases h : (isWordChar c || (c == '.' && (rest.head?.map isWordChar).getD false)) = true
    · rw [keyChars_cons h]
      refine ih.cons ?_
      rw [Bool.or_eq_true, Bool.and_eq_true, beq_iff_eq] at h
      rcases h with hc | ⟨rfl, -⟩
      · exact isDelimiter_of_isWordChar hc
      · rfl
    · rw [keyChars, if_neg h]
      exact .nil _

theorem takes_word {input left : List Char} {kind : TokenKind} (h : word input = .ok (kind, left)) :
    Takes input left := by
  obtain ⟨-, -, rfl⟩ := word_eq_ok h
  exact takes_keyChars input

theorem takes_sign (input : List Char) : Takes input (sign input).2 := by
  unfold sign
  split
  · exact (Takes.nil _).cons rfl
  · exact (Takes.nil _).cons rfl
  · exact .nil _

theorem takes_digits (input : List Char) : Takes input (input.dropWhile Char.isDigit) :=
  ⟨_, List.takeWhile_append_dropWhile.symm, fun _ hc =>
    isDelimiter_of_isDigit (List.mem_takeWhile_imp hc)⟩

theorem takes_number {input left : List Char} {value : Value}
    (h : number input = .ok (value, left)) : Takes input left := by
  have hwhole := (takes_sign input).trans (takes_digits (sign input).2)
  rcases number_eq_ok h with ⟨afterPoint, _, hafter, -, -, rfl⟩ | ⟨_, -, -, rfl, -⟩
  · rw [hafter] at hwhole
    exact hwhole.trans ((takes_digits afterPoint).cons rfl)
  · exact hwhole

theorem takes_comparison {input left : List Char} {kind : TokenKind}
    (h : comparison input = .ok (kind, left)) : Takes input left := by
  unfold comparison at h
  split at h
  all_goals cases h
  all_goals
    first
    | exact ((Takes.nil _).cons rfl).cons rfl
    | exact (Takes.nil _).cons rfl

theorem takes_scalar {input left : List Char} {kind : TokenKind}
    (h : ((number input).map fun (value, rest) => (TokenKind.scalar value, rest)) =
      .ok (kind, left)) : Takes input left := by
  obtain ⟨value, hvalue, -⟩ := map_eq_ok.mp h
  exact takes_number hvalue

/-- A token that is neither a text nor a list delimits nothing. -/
theorem takes_token {c : Char} (hc : (c == '\'' || c == '"' || c == '[') = false)
    {rest left : List Char} {kind : TokenKind} (h : tokenFrom c rest = .ok (kind, left)) :
    Takes (c :: rest) left := by
  have hmark {mark : Char} {found : TokenKind} (hmark : isDelimiter mark = false)
      (hbeq : (c == mark) = true)
      (hpair : (.ok (found, rest) : Scan TokenKind) = .ok (kind, left)) :
      Takes (c :: rest) left := by
    obtain rfl := eq_of_beq hbeq
    obtain ⟨-, rfl⟩ := Prod.mk.inj (Except.ok.inj hpair)
    exact (Takes.nil rest).cons hmark
  unfold tokenFrom at h
  simp only [Bool.or_eq_false_iff] at hc
  simp only [hc, Bool.or_self, Bool.false_eq_true, if_false] at h
  split at h
  · next hbeq => exact hmark rfl hbeq h
  split at h
  · next hbeq => exact hmark rfl hbeq h
  split at h
  · next hbeq => exact hmark rfl hbeq h
  split at h
  · next hbeq => exact hmark rfl hbeq h
  split at h
  · next hbeq => exact hmark rfl hbeq h
  split at h
  · exact takes_comparison h
  split at h
  · exact takes_scalar h
  split at h
  · split at h
    · exact takes_word h
    · exact takes_scalar h
  split at h
  · exact takes_word h
  · cases h

/-! ## What stands behind -/

/-- What a scanner gives where more text stands behind what it was given. -/
def behind {α : Type} (rest : List Char) : Scan α → Scan α
  | .ok (read, left) => .ok (read, left ++ rest)
  | .error fault => .error ⟨fault.cause, fault.rest ++ rest⟩

theorem behind_map {α β : Type} (rest : List Char) (f : α → β) (scan : Scan α) :
    behind rest (scan.map fun (read, left) => (f read, left)) =
      (behind rest scan).map fun (read, left) => (f read, left) := by
  rcases scan with fault | ⟨read, left⟩ <;> rfl

theorem keyChars_behind {rest : List Char} (h : Boundary rest) (front : List Char) :
    keyChars (front ++ rest) = ((keyChars front).1, (keyChars front).2 ++ rest) := by
  induction front with
  | nil => exact keyChars_of_boundary h
  | cons c front ih =>
    have hnext : ((front ++ rest).head?.map isWordChar).getD false =
        (front.head?.map isWordChar).getD false := by
      cases front with
      | nil =>
        cases rest with
        | nil => rfl
        | cons d rest => simpa using (h d rfl).1
      | cons d front => rfl
    rw [List.cons_append, keyChars, keyChars, hnext, ih]
    split <;> rfl

theorem word_behind {rest : List Char} (h : Boundary rest) {front : List Char} (hne : front ≠ []) :
    word (front ++ rest) = behind rest (word front) := by
  have hhead : (front ++ rest).head? = front.head? := List.head?_append_of_ne_nil _ hne
  unfold word
  rw [keyChars_behind h, hhead]
  split <;> rfl

theorem digitsStartWord_behind {rest : List Char} (h : Boundary rest) (front : List Char) :
    digitsStartWord (front ++ rest) = digitsStartWord front := by
  unfold digitsStartWord
  rw [dropWhile_stop fun c => h.not_isDigit]
  cases front.dropWhile Char.isDigit with
  | cons c left => rfl
  | nil =>
    cases rest with
    | nil => rfl
    | cons c rest =>
      have hc := (h c rfl).1
      simp only [isWordChar, Char.isAlphanum, Bool.or_eq_false_iff] at hc
      simp [hc.1.1, hc.2]

theorem sign_behind {front : List Char} (hne : front ≠ []) (rest : List Char) :
    sign (front ++ rest) = ((sign front).1, (sign front).2 ++ rest) := by
  obtain ⟨c, front, rfl⟩ := List.exists_cons_of_ne_nil hne
  unfold sign
  split <;> split <;> simp_all

theorem number_behind {rest : List Char} (h : Boundary rest) {front : List Char}
    (hne : front ≠ []) : number (front ++ rest) = behind rest (number front) := by
  have hstop : ∀ c, rest.head? = some c → c.isDigit = false := fun c => h.not_isDigit
  have hsign := sign_behind hne rest
  have hdrop : (sign (front ++ rest)).2.dropWhile Char.isDigit =
      (sign front).2.dropWhile Char.isDigit ++ rest := by
    rw [hsign, dropWhile_stop hstop]
  by_cases hpoint : ((sign front).2.dropWhile Char.isDigit).head? = some '.'
  · obtain ⟨afterPoint, hafter⟩ := List.head?_eq_some_iff.mp hpoint
    have hbehind : (sign (front ++ rest)).2.dropWhile Char.isDigit =
        '.' :: (afterPoint ++ rest) := by
      rw [hdrop, hafter]
      rfl
    rw [number_point hafter, number_point hbehind, hsign, takeWhile_stop hstop,
      takeWhile_stop hstop, dropWhile_stop hstop]
    split <;> rfl
  · have hwhole : ((sign (front ++ rest)).2.dropWhile Char.isDigit).head? ≠ some '.' := by
      rw [hdrop]
      cases hleft : (sign front).2.dropWhile Char.isDigit with
      | nil => exact fun hdot => (h '.' hdot).2 rfl
      | cons c left =>
        rw [hleft] at hpoint
        exact hpoint
    rw [number_whole hpoint, number_whole hwhole, hdrop, hsign, takeWhile_stop hstop]
    dsimp only
    split
    · rfl
    · generalize Integer.int64? _ = read
      cases read <;> rfl

/-- Neither a word nor a comparison goes on here. -/
structure Stop (rest : List Char) : Prop where
  boundary : Boundary rest
  not_equal : rest.head? ≠ some '='

theorem comparison_double (c : Char) (rest : List Char) :
    comparison (c :: '=' :: rest) =
      if c = '=' then .ok (.comparison .equal, rest)
      else if c = '!' then .ok (.comparison .notEqual, rest)
      else if c = '<' then .ok (.comparison .lessEqual, rest)
      else if c = '>' then .ok (.comparison .greaterEqual, rest)
      else fail .illegalCharacter (c :: '=' :: rest) := by
  split_ifs with hequal hnot hless hgreater
  · rw [hequal]
    rfl
  · rw [hnot]
    rfl
  · rw [hless]
    rfl
  · rw [hgreater]
    rfl
  · unfold comparison
    split <;> simp_all

theorem comparison_single (c : Char) {rest : List Char} (h : rest.head? ≠ some '=') :
    comparison (c :: rest) =
      if c = '<' then .ok (.comparison .less, rest)
      else if c = '>' then .ok (.comparison .greater, rest)
      else fail .illegalCharacter (c :: rest) := by
  unfold comparison
  split <;> simp_all

theorem comparison_behind {rest : List Char} (h : Stop rest) {front : List Char}
    (hne : front ≠ []) : comparison (front ++ rest) = behind rest (comparison front) := by
  obtain ⟨c, front, rfl⟩ := List.exists_cons_of_ne_nil hne
  by_cases hsecond : front.head? = some '='
  · obtain ⟨after, rfl⟩ := List.head?_eq_some_iff.mp hsecond
    simp only [List.cons_append, comparison_double]
    repeat (split; · rfl)
    rfl
  · have hfront : (front ++ rest).head? ≠ some '=' := by
      cases front with
      | nil => exact h.not_equal
      | cons d front => exact hsecond
    rw [List.cons_append, comparison_single c hfront, comparison_single c hsecond]
    repeat (split; · rfl)
    rfl

/-- A quote begins a text. -/
theorem tokenFrom_text {c : Char} (h : (c == '\'' || c == '"') = true) (rest : List Char) :
    tokenFrom c rest =
      (text c rest (c :: rest)).map fun (content, left) => (.scalar (.str content), left) := by
  rw [Bool.or_eq_true, beq_iff_eq, beq_iff_eq] at h
  rcases h with rfl | rfl <;> rfl

/-- A quote begins a text in a list, too. -/
theorem listItem_text {c : Char} (h : (c == '\'' || c == '"') = true) (rest : List Char) :
    listItem (c :: rest) =
      (text c rest (c :: rest)).map fun (content, left) => (.str content, left) := by
  rw [listItem, if_pos h]

/-- A text that is closed is read up to its closing quote. -/
theorem text_behind {quote : Char} {front : List Char} (h : quote ∈ front)
    (rest start longer : List Char) :
    text quote (front ++ rest) longer = behind rest (text quote front start) := by
  obtain ⟨content, left, rfl, hcontent⟩ := List.eq_append_cons_of_mem h
  rw [List.append_assoc, List.cons_append, text_of_content hcontent, text_of_content hcontent]
  rfl

/-- **Where nothing goes on, a token does not depend on what stands behind it**, but for lists
and for texts that are not closed. -/
theorem tokenFrom_behind {rest : List Char} (h : Stop rest) {c : Char} (hlist : c ≠ '[')
    {front : List Char} (htext : (c == '\'' || c == '"') = true → c ∈ front) :
    tokenFrom c (front ++ rest) = behind rest (tokenFrom c front) := by
  have hnumber := number_behind h.boundary (List.cons_ne_nil c front)
  have hword := word_behind h.boundary (List.cons_ne_nil c front)
  have hcomparison := comparison_behind h (List.cons_ne_nil c front)
  have hdigits := digitsStartWord_behind h.boundary (c :: front)
  simp only [List.cons_append] at hnumber hword hcomparison hdigits
  unfold tokenFrom
  simp only [hnumber, hword, hcomparison, hdigits, ← behind_map, apply_ite (behind rest),
    beq_eq_false_iff_ne.mpr hlist, Bool.false_eq_true, if_false]
  by_cases hquote : (c == '\'' || c == '"') = true
  · have hread := behind_map rest (fun content => TokenKind.scalar (.str content))
      (text c front (c :: front))
    rw [text_behind (htext hquote) rest (c :: front), hread]
    rfl
  · simp only [hquote, Bool.false_eq_true, if_false]
    rfl

/-- An item of a list does not depend on what stands behind it, where nothing goes on. -/
theorem listItem_behind {rest : List Char} (h : Boundary rest) {c : Char} {front : List Char}
    (htext : (c == '\'' || c == '"') = true → c ∈ front) :
    listItem (c :: (front ++ rest)) = behind rest (listItem (c :: front)) := by
  have hnumber := number_behind h (List.cons_ne_nil c front)
  have hword := word_behind h (List.cons_ne_nil c front)
  rw [List.cons_append] at hnumber hword
  unfold listItem
  simp only [hnumber, hword, apply_ite (behind rest)]
  split_ifs with hquote
  · rw [text_behind (htext hquote) rest (c :: front), behind_map]
  · rfl
  · rcases word (c :: front) with fault | ⟨kind, left⟩
    · rfl
    · cases kind <;> rfl
  · rfl

end Query

end Logbook
