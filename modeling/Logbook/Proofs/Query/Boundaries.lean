import Logbook.Proofs.Query.ByteReader

/-!
# The tokenizer is safe

The bytes of a query are read token by token (`readBytes`), and the reading halts where a byte is
asked for behind the end, where a text is cut out between the bytes of one character, and where a
loop goes round more often than there are characters.  None of this ever happens
(`readBytes_eq`): what is read from the bytes is what the tokenizer gives, or the message of its
error.

The scanners fail only at ends of the text they are given, and never for a missing segment of a
key, since a word is only read where one begins (`lexemes_fault`).  So all positions that the
tokenizer names are between characters of the query, or at its end (`tokenize_safe`).
-/

namespace Logbook

namespace Query

/-! ## Tokens -/

/-- A comparison of one or two characters. -/
def comparisonAt (query : String) (position : Nat) : Except Halt (TokenKind × Nat) := do
  let first ← byteAt query position
  if byteAt? query (position + 1) = some '=' then
    if first = '=' then return (.comparison .equal, position + 2)
    else if first = '!' then return (.comparison .notEqual, position + 2)
    else if first = '<' then return (.comparison .lessEqual, position + 2)
    else if first = '>' then return (.comparison .greaterEqual, position + 2)
    else rejectCharacter query position
  else if first = '<' then return (.comparison .less, position + 1)
  else if first = '>' then return (.comparison .greater, position + 1)
  else rejectCharacter query position

/-- The token at a position where the given byte stands. -/
def tokenAt (query : String) (rounds : Nat) (byte : Char) (position : Nat) :
    Except Halt (TokenKind × Nat) :=
  if byte == '&' then .ok (.conjunction, position + 1)
  else if byte == '|' then .ok (.disjunction, position + 1)
  else if byte == '~' then .ok (.negation, position + 1)
  else if byte == '(' then .ok (.opening, position + 1)
  else if byte == ')' then .ok (.closing, position + 1)
  else if byte == '=' || byte == '!' || byte == '<' || byte == '>' then comparisonAt query position
  else if byte == '[' then
    (itemsAt query position rounds true [] (position + 1)).map fun (items, position) =>
      (.list items, position)
  else if byte == '\'' || byte == '"' then
    (textAt query position).map fun (content, position) => (.scalar (.str content), position)
  else if byte == '+' || byte == '-' || byte == '.' then
    (numberAt query position).map fun (value, position) => (.scalar value, position)
  else if byte.isDigit then
    (digitsStartWordAt query position).bind fun startsWord =>
      if startsWord then wordAt query position
      else (numberAt query position).map fun (value, position) => (.scalar value, position)
  else if byte.isAlpha || byte == '_' then wordAt query position
  else rejectCharacter query position

/-- The tokens from a position on, behind those that have been read, in at most the given numbers
of rounds through a list and through the query. -/
def tokensAt (query : String) (rounds : Nat) : Nat → List Token → Nat → Except Halt (List Token)
  | 0, _, _ => .error .unfinished
  | left + 1, tokens, position =>
      match byteAt? query position with
      | none => .ok tokens
      | some byte =>
          if isSeparator byte then tokensAt query rounds left tokens (position + 1)
          else
            (tokenAt query rounds byte position).bind fun (kind, next) =>
              tokensAt query rounds left (tokens ++ [⟨kind, position⟩]) next

/-- The tokens of a query, read from its bytes with no loop over tokens or items going round more
often than the given number. -/
def readBytes (query : String) (rounds : Nat) : Except Halt (List Token) :=
  tokensAt query rounds rounds [] 0

section Place

variable {query : String} {rest : List Char}

theorem place_cons_single {c : Char} (h : c :: rest <:+ query.toList) (hc : c.utf8Size = 1) :
    place query (c :: rest) + 1 = place query rest := by
  rw [place_cons h, hc]

theorem comparisonAt_place {c : Char} (h : c :: rest <:+ query.toList) (hc : c.utf8Size = 1) :
    comparisonAt query (place query (c :: rest)) = located query (comparison (c :: rest)) := by
  have hrest := (List.suffix_cons c rest).trans h
  have hnext := place_cons_single h hc
  have hsecond := byteAt?_place_eq_iff hrest (d := '=') rfl
  rw [comparisonAt, byteAt_place h, lead_of_single hc, hnext]
  change (if byteAt? query (place query rest) = some '=' then _ else _) = _
  by_cases hequal : rest.head? = some '='
  · obtain ⟨after, rfl⟩ := List.head?_eq_some_iff.mp hequal
    have hafter : place query (c :: '=' :: after) + 2 = place query after := by
      rw [← place_cons_single hrest rfl, ← hnext]
    rw [if_pos (hsecond.mpr rfl), comparison_double, hafter]
    split_ifs
    · rfl
    · rfl
    · rfl
    · rfl
    · exact rejectCharacter_place h
  · rw [if_neg (mt hsecond.mp hequal), comparison_single c hequal]
    split_ifs
    · rfl
    · rfl
    · exact rejectCharacter_place h

theorem utf8Size_of_comparison {c : Char}
    (h : (c == '=' || c == '!' || c == '<' || c == '>') = true) : c.utf8Size = 1 := by
  simp only [Bool.or_eq_true, beq_iff_eq] at h
  rcases h with ((rfl | rfl) | rfl) | rfl <;> rfl

/-- Two readers agree on a choice if they agree on either side of it. -/
theorem eq_located_ite {α : Type} {condition : Prop} [Decidable condition]
    {yes no : Except Halt (α × Nat)} {scanYes scanNo : Scan α}
    (hyes : condition → yes = located query scanYes)
    (hno : ¬condition → no = located query scanNo) :
    (if condition then yes else no) = located query (if condition then scanYes else scanNo) := by
  by_cases h : condition
  · rw [if_pos h, if_pos h, hyes h]
  · rw [if_neg h, if_neg h, hno h]

theorem scalarAt_place (h : rest <:+ query.toList) :
    ((numberAt query (place query rest)).map fun (value, position) =>
      (TokenKind.scalar value, position)) =
    located query ((number rest).map fun (value, rest) => (.scalar value, rest)) := by
  rw [numberAt_place h, located_map]

/-- **A token is read from the bytes as from the characters.** -/
theorem tokenAt_place {c : Char} (h : c :: rest <:+ query.toList) {rounds : Nat}
    (hrounds : rest.length < rounds) :
    tokenAt query rounds (lead c) (place query (c :: rest)) = located query (tokenFrom c rest) := by
  have hrest := (List.suffix_cons c rest).trans h
  have hmark {mark : Char} {kind : TokenKind} (hbeq : (c == mark) = true)
      (hsingle : mark.utf8Size = 1) :
      (.ok (kind, place query (c :: rest) + 1) : Except Halt (TokenKind × Nat)) =
        located query (.ok (kind, rest)) := by
    rw [place_cons_single h (by rw [eq_of_beq hbeq, hsingle])]
    rfl
  unfold tokenAt tokenFrom
  -- All tests on the byte become the tests on the character, and both readers branch alike.
  simp only [lead_beq (d := '&') rfl, lead_beq (d := '|') rfl, lead_beq (d := '~') rfl,
    lead_beq (d := '(') rfl, lead_beq (d := ')') rfl, lead_beq (d := '=') rfl,
    lead_beq (d := '!') rfl, lead_beq (d := '<') rfl, lead_beq (d := '>') rfl,
    lead_beq (d := '[') rfl, lead_beq (d := '\'') rfl, lead_beq (d := '"') rfl,
    lead_beq (d := '+') rfl, lead_beq (d := '-') rfl, lead_beq (d := '.') rfl,
    lead_beq (d := '_') rfl, lead_isDigit, lead_isAlpha]
  have hscalar := scalarAt_place h
  have hword (hc : isWordChar c = true) :
      wordAt query (place query (c :: rest)) = located query (word (c :: rest)) :=
    wordAt_place h hc
  refine eq_located_ite (fun hand => hmark hand rfl) fun _ => ?_
  refine eq_located_ite (fun hor => hmark hor rfl) fun _ => ?_
  refine eq_located_ite (fun hnot => hmark hnot rfl) fun _ => ?_
  refine eq_located_ite (fun hopening => hmark hopening rfl) fun _ => ?_
  refine eq_located_ite (fun hclosing => hmark hclosing rfl) fun _ => ?_
  refine eq_located_ite (fun hcomparison =>
    comparisonAt_place h (utf8Size_of_comparison hcomparison)) fun _ => ?_
  refine eq_located_ite (fun hlist => ?_) fun _ => ?_
  · rw [place_cons_single h (by rw [eq_of_beq hlist]; rfl), located_map,
      itemsAt_place (c :: rest) hrest hrounds (Nat.lt_succ_self _)]
  refine eq_located_ite (fun hquote => ?_) fun _ => ?_
  · rw [textAt_place h (utf8Size_of_quote hquote)]
    exact (located_map query (fun content => TokenKind.scalar (.str content)) _).symm
  refine eq_located_ite (fun _ => hscalar) fun _ => ?_
  refine eq_located_ite (fun hdigit => ?_) fun _ => ?_
  · rw [digitsStartWordAt_place h]
    exact eq_located_ite (fun _ => hword (isWordChar_of_isDigit hdigit)) fun _ => hscalar
  exact eq_located_ite (fun hletter => hword (isWordChar_of_letter hletter)) fun _ =>
    rejectCharacter_place h

/-! ## The whole query -/

/-- What the tokenizer has found, behind tokens that have been read. -/
def tokensOf (query : String) (before : List Token) :
    Except Fault (List (TokenKind × List Char)) → Except Halt (List Token)
  | .ok found => .ok (before ++ found.map fun (kind, rest) => ⟨kind, place query rest⟩)
  | .error fault => .error (halted query fault)

theorem utf8Size_of_isSeparator {c : Char} (h : isSeparator c = true) : c.utf8Size = 1 := by
  simp only [isSeparator, Bool.or_eq_true, beq_iff_eq] at h
  rcases h with ((rfl | rfl) | rfl) | rfl <;> rfl

theorem tokensAt_place (h : rest <:+ query.toList) {rounds left : Nat}
    (hrounds : rest.length < rounds) (hleft : rest.length < left) (tokens : List Token) :
    tokensAt query rounds left tokens (place query rest) =
      tokensOf query tokens (lexemes rest.length rest) := by
  -- By the length of the rest: a token leaves a shorter one, and so more rounds than are needed.
  induction hlength : rest.length using Nat.strongRecOn generalizing rest left tokens with
  | ind length ih =>
    subst hlength
    obtain ⟨left, rfl⟩ := Nat.exists_eq_add_one_of_ne_zero (Nat.ne_of_gt (Nat.zero_lt_of_lt hleft))
    unfold tokensAt
    rw [byteAt?_place h]
    cases rest with
    | nil => exact congrArg Except.ok (List.append_nil tokens).symm
    | cons c rest =>
      have hrest := (List.suffix_cons c rest).trans h
      rw [List.length_cons] at hrounds hleft ih
      dsimp only [List.head?_cons, Option.map_some]
      rw [test_lead (coarse_of_single fun _ => utf8Size_of_isSeparator)]
      cases hc : isSeparator c with
      | true =>
        rw [if_pos rfl, place_cons_single h (utf8Size_of_isSeparator hc), lexemes_separator hc]
        exact ih _ (Nat.lt_succ_self _) hrest (by omega) (by omega) tokens rfl
      | false =>
        rw [if_neg Bool.false_ne_true, tokenAt_place h (by omega)]
        cases htoken : tokenFrom c rest with
        | error fault =>
          rw [List.length_cons, lexemes_cons, hc, htoken]
          rfl
        | ok pair =>
          obtain ⟨kind, after⟩ := pair
          have hafter := (tokenFrom_suffix htoken).trans hrest
          have hshort := (tokenFrom_spec htoken).1
          have hfewer : after.length < left := by omega
          have hmore := ih after.length (Nat.lt_succ_of_le hshort) hafter (by omega) hfewer
            (tokens ++ [⟨kind, place query (c :: rest)⟩]) rfl
          rw [lexemes_token htoken]
          refine hmore.trans ?_
          cases lexemes after.length after with
          | error fault => rfl
          | ok found => exact congrArg Except.ok (List.append_assoc ..)

end Place

/-- **What is read from the bytes is what the tokenizer gives**: no byte behind the end is asked
for, no character is cut through, and no loop goes round more often than there are characters. -/
theorem readBytes_eq {query : String} {rounds : Nat} (h : query.length < rounds) :
    readBytes query rounds =
      (tokenize query).mapError fun error => Halt.rejected error.message := by
  rw [← String.length_toList] at h
  rw [readBytes, ← place_toList query, tokensAt_place (List.suffix_refl _) h h, tokenize]
  cases lexemes query.toList.length query.toList with
  | error fault => rfl
  | ok found => rfl

/-! ## Faults -/

/-- A fault at an end of a text, and not for a missing segment of a key. -/
structure Fault.LiesIn (fault : Fault) (input : List Char) : Prop where
  suffix : fault.rest <:+ input
  cause_ne : fault.cause ≠ .emptySegment

section Faults

variable {input : List Char} {fault : Fault}

theorem Fault.LiesIn.trans {longer : List Char} (h : fault.LiesIn input) (hlonger : input <:+ longer) :
    fault.LiesIn longer := ⟨h.suffix.trans hlonger, h.cause_ne⟩

theorem liesIn_of_fail {α : Type} {cause : LexicalCause} (hcause : cause ≠ .emptySegment)
    (h : (fail cause input : Scan α) = .error fault) : fault.LiesIn input := by
  obtain rfl := Except.error.inj h
  exact ⟨List.suffix_refl _, hcause⟩

theorem map_eq_error {α β : Type} {f : α → β} {scan : Scan α}
    (h : (scan.map fun (read, rest) => (f read, rest)) = .error fault) : scan = .error fault := by
  cases scan with
  | error other => exact congrArg Except.error (Except.error.inj h)
  | ok pair => cases h

theorem number_fault (h : number input = .error fault) : fault.LiesIn input := by
  by_cases hpoint : ((sign input).2.dropWhile Char.isDigit).head? = some '.'
  · obtain ⟨afterPoint, hafter⟩ := List.head?_eq_some_iff.mp hpoint
    rw [number_point hafter] at h
    split at h
    · exact liesIn_of_fail (by simp) h
    · cases h
  · rw [number_whole hpoint] at h
    split at h
    · exact liesIn_of_fail (by simp) h
    · split at h
      · cases h
      · exact liesIn_of_fail (by simp) h

theorem text_fault {quote : Char} {start : List Char} (h : text quote input start = .error fault) :
    fault.LiesIn start := by
  unfold text at h
  dsimp only at h
  split at h
  · cases h
  · exact liesIn_of_fail (by simp) h

theorem word_ne_error {c : Char} {rest : List Char} (hc : isWordChar c = true) :
    word (c :: rest) ≠ .error fault := by
  unfold word
  rw [List.head?_cons, Option.map_some, Option.getD_some, if_pos hc]
  exact nofun

theorem listItem_fault (h : listItem input = .error fault) : fault.LiesIn input := by
  unfold listItem at h
  cases input with
  | nil => exact liesIn_of_fail (by simp) h
  | cons c rest =>
    dsimp only at h
    split_ifs at h with hquote hnumber hletter
    · exact text_fault (map_eq_error h)
    · exact number_fault h
    · split at h
      · cases h
      · exact liesIn_of_fail (by simp) h
      · next hword => exact absurd hword (word_ne_error (isWordChar_of_isAlpha hletter))
    · exact liesIn_of_fail (by simp) h

theorem listItems_fault {start : List Char} {fuel : Nat} {expectItem : Bool} {items : List Value}
    (hinput : input <:+ start) (h : listItems start fuel expectItem items input = .error fault) :
    fault.LiesIn start := by
  induction fuel generalizing expectItem items input with
  | zero => exact liesIn_of_fail (by simp) h
  | succ fuel ih =>
    unfold listItems at h
    cases input with
    | nil => exact liesIn_of_fail (by simp) h
    | cons c rest =>
      have hrest := (List.suffix_cons c rest).trans hinput
      dsimp only at h
      split_ifs at h
      · exact ih hrest h
      · exact (liesIn_of_fail (by simp) h).trans hinput
      · exact ih hrest h
      · cases hitem : listItem (c :: rest) with
        | error other =>
          rw [hitem] at h
          obtain rfl := Except.error.inj h
          exact (listItem_fault hitem).trans hinput
        | ok pair =>
          obtain ⟨item, left⟩ := pair
          rw [hitem] at h
          exact ih ((listItem_suffix hitem).trans hinput) h
      · exact (liesIn_of_fail (by simp) h).trans hinput

theorem comparison_fault (h : comparison input = .error fault) : fault.LiesIn input := by
  unfold comparison at h
  split at h
  all_goals
    first
    | exact liesIn_of_fail (by simp) h
    | cases h

/-- **A token fails at an end of its text**, and never for an empty segment: a word is only read
where one begins. -/
theorem tokenFrom_fault {c : Char} {rest : List Char} (h : tokenFrom c rest = .error fault) :
    fault.LiesIn (c :: rest) := by
  refine cases_of_ite h nofun fun h => ?_
  refine cases_of_ite h nofun fun h => ?_
  refine cases_of_ite h nofun fun h => ?_
  refine cases_of_ite h nofun fun h => ?_
  refine cases_of_ite h nofun fun h => ?_
  refine cases_of_ite h comparison_fault fun h => ?_
  refine cases_of_ite h
    (fun h => listItems_fault (List.suffix_cons c rest) (map_eq_error h)) fun h => ?_
  refine cases_of_ite h (fun h => ?_) fun h => ?_
  · exact text_fault (map_eq_error (f := fun content => TokenKind.scalar (.str content)) h)
  refine cases_of_ite h (fun h => number_fault (map_eq_error h)) fun h => ?_
  by_cases hdigit : c.isDigit = true
  · rw [if_pos hdigit] at h
    exact cases_of_ite h (fun h => absurd h (word_ne_error (isWordChar_of_isDigit hdigit)))
      fun h => number_fault (map_eq_error h)
  · rw [if_neg hdigit] at h
    by_cases hletter : (c.isAlpha || c == '_') = true
    · rw [if_pos hletter] at h
      exact absurd h (word_ne_error (isWordChar_of_letter hletter))
    · rw [if_neg hletter] at h
      exact liesIn_of_fail (by simp) h

theorem lexemes_fault {fuel : Nat} (h : lexemes fuel input = .error fault) :
    fault.LiesIn input := by
  induction fuel generalizing input with
  | zero => cases h
  | succ fuel ih =>
    cases input with
    | nil => cases h
    | cons c rest =>
      have hrest := List.suffix_cons c rest
      rw [lexemes_cons] at h
      split at h
      · exact (ih h).trans hrest
      · split at h
        · next htoken =>
          obtain rfl := Except.error.inj h
          exact tokenFrom_fault htoken
        · next kind left htoken =>
          cases hleft : lexemes fuel left with
          | error other =>
            rw [hleft] at h
            obtain rfl := Except.error.inj h
            exact (ih hleft).trans ((tokenFrom_suffix htoken).trans hrest)
          | ok found =>
            rw [hleft] at h
            cases h

end Faults

/-! ## Positions -/

/-- Whether a position is between two characters of a query, or at one of its ends. -/
abbrev IsBoundary (query : String) (position : Nat) : Prop :=
  (String.Pos.Raw.mk position).IsValid query

theorem offset_isBoundary {query : String} {tokens : List Token} (h : tokenize query = .ok tokens) :
    ∀ token ∈ tokens, IsBoundary query token.offset := by
  obtain ⟨found, hfound, rfl⟩ := tokenize_eq_ok h
  intro token htoken
  obtain ⟨lexeme, hlexeme, rfl⟩ := List.mem_map.mp htoken
  exact isValid_place ((lexemes_nested hfound).2 lexeme hlexeme).1

theorem tokenize_fault {query : String} {error : QueryError} (h : tokenize query = .error error) :
    ∃ cause character position, error = .lexical cause character position ∧
      cause ≠ .emptySegment ∧ IsBoundary query position ∧ position ≤ query.utf8ByteSize := by
  unfold tokenize at h
  dsimp only at h
  split at h
  · cases h
  · next fault hfault =>
    have hlies := lexemes_fault hfault
    obtain rfl := Except.error.inj h
    exact ⟨_, _, _, rfl, hlies.cause_ne, isValid_place hlies.suffix, place_le query _⟩

/-- **The tokenizer is safe on every text.**  Read from its bytes, with loops that go round no
more often than there are characters, a query gives its tokens or its error, and so the reader
never looks behind the end and never cuts a character in two.  The tokens start at ascending
boundaries of characters before the end, and an error names such a boundary, which may be the
end, and is never that a key has an empty segment. -/
theorem tokenize_safe (query : String) :
    (∀ rounds, query.length < rounds →
      readBytes query rounds =
        (tokenize query).mapError fun error => Halt.rejected error.message) ∧
    (∀ tokens, tokenize query = .ok tokens →
      tokens.Pairwise (fun before after => before.offset < after.offset) ∧
      ∀ token ∈ tokens, IsBoundary query token.offset ∧ token.offset < query.utf8ByteSize) ∧
    (∀ error, tokenize query = .error error →
      ∃ cause character position, error = .lexical cause character position ∧
        cause ≠ .emptySegment ∧ IsBoundary query position ∧ position ≤ query.utf8ByteSize) := by
  refine ⟨fun rounds => readBytes_eq, fun tokens htokens => ?_, fun error => tokenize_fault⟩
  obtain ⟨hascending, hbelow⟩ := tokenize_ascending htokens
  exact ⟨hascending, fun token htoken =>
    ⟨offset_isBoundary htokens token htoken, hbelow token htoken⟩⟩

/-- Behind and at characters of several bytes, tokens and faults are where characters begin. -/
theorem tokenize_safe_of_wide_text :
    (∃ tokens, readBytes "'é' & 1" 8 = .ok tokens ∧ tokens.map Token.offset = [0, 5, 7] ∧
      ∀ token ∈ tokens, IsBoundary "'é' & 1" token.offset) ∧
    tokenize "['é', ☃]" = .error (.lexical .illegalCharacter '☃' 7) ∧
      IsBoundary "['é', ☃]" 7 := by
  have htokens : tokenize "'é' & 1" =
      .ok [⟨.scalar (.str "é"), 0⟩, ⟨.conjunction, 5⟩, ⟨.scalar (.int 1), 7⟩] := by rfl
  have herror : tokenize "['é', ☃]" = .error (.lexical .illegalCharacter '☃' 7) := by rfl
  obtain ⟨hbytes, hoffsets, -⟩ := tokenize_safe "'é' & 1"
  have hread := hbytes 8 (by decide)
  rw [htokens] at hread
  obtain ⟨_, _, position, hposition, -, hboundary, -⟩ := (tokenize_safe "['é', ☃]").2.2 _ herror
  obtain ⟨-, -, rfl⟩ := QueryError.lexical.inj hposition
  exact ⟨⟨_, hread, rfl, fun token htoken => ((hoffsets _ htokens).2 token htoken).1⟩, herror,
    hboundary⟩

end Query

end Logbook
