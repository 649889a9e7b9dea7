import Mathlib.Data.List.TakeWhile
import Logbook.Proofs.Query.Parser

/-!
# The tokens of a text

The tokenizer takes one token after another off the front of a text, and every token takes
at least its first character.  So how much fuel there is does not matter, and the kinds of
the tokens obey two equations, one for white space and one for a token
(`kinds?_separator`, `kinds?_token`).  With them a query is accepted exactly if the kinds
are a sentence with searchable keys (`parse_eq_ok_iff`).
-/

namespace Logbook

namespace Query

/-! ## What a token can be -/

/-- Whether a value can be a literal of a query. -/
def isLiteral : Value → Bool
  | .bool _ | .int _ | .str _ => true
  | .float number => !number.isNaN
  | _ => false

/-- What holds of the kind of every token: a key is one word, and a literal is a truth
value, a number or a text. -/
def WellSpelled : TokenKind → Prop
  | .key key => keyChars key.toList = (key.toList, []) ∧ wordKind key = .key key
  | .scalar literal => isLiteral literal = true
  | .list literals => ∀ literal ∈ literals, isLiteral literal = true
  | _ => True

theorem keyChars_cons {c : Char} {rest : List Char}
    (h : (isWordChar c || (c == '.' && (rest.head?.map isWordChar).getD false)) = true) :
    keyChars (c :: rest) = (c :: (keyChars rest).1, (keyChars rest).2) := by
  rw [keyChars, if_pos h]

/-- What starts with a character of words goes on with it. -/
theorem head_keyChars {rest : List Char} (h : (rest.head?.map isWordChar).getD false = true) :
    (keyChars rest).1.head? = rest.head? := by
  cases rest with
  | nil => cases h
  | cons c rest =>
    have hc : isWordChar c = true := h
    rw [keyChars_cons (by rw [hc]; rfl)]
    rfl

/-- A key is taken whole where it stands alone. -/
theorem keyChars_keyChars (input : List Char) :
    keyChars (keyChars input).1 = ((keyChars input).1, []) := by
  induction input with
  | nil => rfl
  | cons c rest ih =>
    by_cases h : (isWordChar c || (c == '.' && (rest.head?.map isWordChar).getD false)) = true
    · have hagain : (isWordChar c ||
          (c == '.' && ((keyChars rest).1.head?.map isWordChar).getD false)) = true := by
        rw [Bool.or_eq_true, Bool.and_eq_true] at h ⊢
        rcases h with hc | ⟨hdot, hnext⟩
        · exact .inl hc
        · exact .inr ⟨hdot, by rw [head_keyChars hnext]; exact hnext⟩
      rw [keyChars_cons h, keyChars_cons hagain, ih]
    · rw [keyChars, if_neg h]
      rfl

theorem wordKind_wellSpelled (input : List Char) :
    WellSpelled (wordKind (String.ofList (keyChars input).1)) := by
  unfold wordKind
  split
  · trivial
  · split
    · rfl
    · split
      · rfl
      · refine ⟨?_, ?_⟩
        · rw [String.toList_ofList]
          exact keyChars_keyChars input
        · simp_all [wordKind]

theorem isNaN_ofDecimal (negative : Bool) (digits : Nat) (power : Int) :
    (Binary64.ofDecimal negative digits power).isNaN = false := by
  unfold Binary64.ofDecimal
  dsimp only
  split
  · rfl
  · split
    · rfl
    · exact Binary64.isNaN_ofUnits _ _ _

/-! ## What a scanner leaves -/

theorem map_eq_ok {α β : Type} {f : α → β} {scan : Scan α} {result : β} {left : List Char} :
    (scan.map fun (read, rest) => (f read, rest)) = .ok (result, left) ↔
      ∃ read, scan = .ok (read, left) ∧ f read = result := by
  rcases scan with fault | ⟨read, rest⟩
  · simp [Except.map]
  · simp only [Except.map, Except.ok.injEq, Prod.mk.injEq]
    constructor
    · rintro ⟨rfl, rfl⟩
      exact ⟨read, ⟨rfl, rfl⟩, rfl⟩
    · rintro ⟨_, ⟨rfl, rfl⟩, rfl⟩
      exact ⟨rfl, rfl⟩

theorem keyChars_length (input : List Char) : (keyChars input).2.length ≤ input.length := by
  induction input with
  | nil => exact Nat.le_refl _
  | cons c rest ih =>
    unfold keyChars
    split
    · exact Nat.le_succ_of_le ih
    · exact Nat.le_refl _

/-- A word is what `keyChars` takes, which is not nothing. -/
theorem word_eq_ok {input left : List Char} {kind : TokenKind} (h : word input = .ok (kind, left)) :
    (input.head?.map isWordChar).getD false = true ∧
      kind = wordKind (String.ofList (keyChars input).1) ∧ left = (keyChars input).2 := by
  unfold word at h
  split at h
  · next hword =>
    obtain ⟨rfl, rfl⟩ := Prod.mk.inj (Except.ok.inj h)
    exact ⟨hword, rfl, rfl⟩
  · cases h

theorem word_length {input left : List Char} {kind : TokenKind}
    (h : word input = .ok (kind, left)) :
    left.length < input.length := by
  obtain ⟨hword, -, rfl⟩ := word_eq_ok h
  cases input with
  | nil => cases hword
  | cons c rest =>
    have hc : isWordChar c = true := hword
    unfold keyChars
    simp only [hc, Bool.true_or, if_true]
    exact Nat.lt_succ_of_le (keyChars_length rest)

theorem sign_append (input : List Char) : (sign input).1 ++ (sign input).2 = input := by
  unfold sign
  split <;> rfl

theorem sign_of_head {input : List Char}
    (h : ∀ c, input.head? = some c → c ≠ '+' ∧ c ≠ '-') : sign input = ([], input) := by
  unfold sign
  split
  · exact absurd rfl (h '+' rfl).1
  · exact absurd rfl (h '-' rfl).2
  · rfl

theorem not_sign_of_isDigit {c : Char} (h : c.isDigit = true) : c ≠ '+' ∧ c ≠ '-' := by
  constructor <;> rintro rfl <;> cases h

theorem takeWhile_stop {p : Char → Bool} {rest : List Char}
    (h : ∀ c, rest.head? = some c → p c = false) (front : List Char) :
    (front ++ rest).takeWhile p = front.takeWhile p := by
  induction front with
  | nil =>
    cases rest with
    | nil => rfl
    | cons c rest => simp [h c rfl]
  | cons c front ih => simp only [List.cons_append, List.takeWhile_cons, ih]

theorem dropWhile_stop {p : Char → Bool} {rest : List Char}
    (h : ∀ c, rest.head? = some c → p c = false) (front : List Char) :
    (front ++ rest).dropWhile p = front.dropWhile p ++ rest := by
  induction front with
  | nil =>
    cases rest with
    | nil => rfl
    | cons c rest => simp [h c rfl]
  | cons c front ih =>
    simp only [List.cons_append, List.dropWhile_cons, ih]
    split <;> rfl

theorem drop_takeWhile (p : Char → Bool) (input : List Char) :
    input.drop (input.takeWhile p).length = input.dropWhile p := by
  have hsplit := congrArg (List.drop (input.takeWhile p).length)
    (List.takeWhile_append_dropWhile (p := p) (l := input))
  rw [List.drop_left] at hsplit
  exact hsplit.symm

/-- Where a point follows the first digits, a double is read. -/
theorem number_point {input afterPoint : List Char}
    (h : (sign input).2.dropWhile Char.isDigit = '.' :: afterPoint) :
    number input =
      if ((sign input).2.takeWhile Char.isDigit).isEmpty &&
        (afterPoint.takeWhile Char.isDigit).isEmpty then fail .illegalCharacter input
      else .ok (.float (Binary64.ofDecimal ((sign input).1 == ['-'])
          (Decimal.ofDigits ((sign input).2.takeWhile Char.isDigit ++
            afterPoint.takeWhile Char.isDigit))
          (-((afterPoint.takeWhile Char.isDigit).length : Int))),
        afterPoint.dropWhile Char.isDigit) := by
  unfold number
  simp only [drop_takeWhile, h]

/-- Where no point follows the first digits, an integer is read. -/
theorem number_whole {input : List Char}
    (h : ((sign input).2.dropWhile Char.isDigit).head? ≠ some '.') :
    number input =
      if ((sign input).2.takeWhile Char.isDigit).isEmpty then fail .illegalCharacter input
      else
        match Integer.int64? (if (sign input).1 == ['-'] then
            -(Decimal.ofDigits ((sign input).2.takeWhile Char.isDigit) : Int)
          else Decimal.ofDigits ((sign input).2.takeWhile Char.isDigit)) with
        | some integer => .ok (.int integer, (sign input).2.dropWhile Char.isDigit)
        | none => fail (.invalidNumber (String.ofList
            ((sign input).1 ++ (sign input).2.takeWhile Char.isDigit))) input := by
  unfold number
  simp only [drop_takeWhile]
  split
  · next hpoint =>
    rw [hpoint] at h
    exact absurd rfl h
  · rfl

/-- What has been read is a double up to the end of its fraction, or an integer of at least one
digit with no point behind it. -/
theorem number_eq_ok {input left : List Char} {value : Value}
    (h : number input = .ok (value, left)) :
    (∃ afterPoint double, (sign input).2.dropWhile Char.isDigit = '.' :: afterPoint ∧
      value = .float double ∧ double.isNaN = false ∧ left = afterPoint.dropWhile Char.isDigit) ∨
    ∃ integer, (sign input).2.takeWhile Char.isDigit ≠ [] ∧ value = .int integer ∧
      left = (sign input).2.dropWhile Char.isDigit ∧ left.head? ≠ some '.' := by
  by_cases hpoint : ((sign input).2.dropWhile Char.isDigit).head? = some '.'
  · obtain ⟨afterPoint, hafter⟩ := List.head?_eq_some_iff.mp hpoint
    rw [number_point hafter] at h
    split at h
    · cases h
    · obtain ⟨rfl, rfl⟩ := Prod.mk.inj (Except.ok.inj h)
      exact .inl ⟨afterPoint, _, hafter, rfl, isNaN_ofDecimal .., rfl⟩
  · rw [number_whole hpoint] at h
    split at h
    · cases h
    · next hdigits =>
      split at h
      · obtain ⟨rfl, rfl⟩ := Prod.mk.inj (Except.ok.inj h)
        exact .inr ⟨_, mt List.isEmpty_iff.mpr hdigits, rfl, rfl, hpoint⟩
      · cases h

theorem number_length {input left : List Char} {value : Value}
    (h : number input = .ok (value, left)) : left.length < input.length := by
  have hsign := congrArg List.length (sign_append input)
  have hdigits := congrArg List.length
    (List.takeWhile_append_dropWhile (p := Char.isDigit) (l := (sign input).2))
  rw [List.length_append] at hsign hdigits
  rcases number_eq_ok h with ⟨afterPoint, _, hafter, -, -, rfl⟩ | ⟨_, hne, -, rfl, -⟩
  · have hle := (List.dropWhile_suffix Char.isDigit (l := afterPoint)).length_le
    rw [hafter, List.length_cons] at hdigits
    omega
  · have hpos := List.length_pos_iff.mpr hne
    omega

theorem isLiteral_of_number {input left : List Char} {value : Value}
    (h : number input = .ok (value, left)) : isLiteral value = true := by
  rcases number_eq_ok h with ⟨_, _, -, rfl, hnan, -⟩ | ⟨_, -, rfl, -, -⟩
  · rw [isLiteral, hnan]
    rfl
  · rfl

/-- A text is taken up to its closing quote. -/
theorem text_eq_ok {quote : Char} {input start left : List Char} {content : String}
    (h : text quote input start = .ok (content, left)) :
    input = content.toList ++ quote :: left ∧ quote ∉ content.toList := by
  unfold text at h
  simp only [drop_takeWhile] at h
  split at h
  · next closing rest hdrop =>
    obtain ⟨rfl, rfl⟩ := Prod.mk.inj (Except.ok.inj h)
    have hclosing : closing = quote := by
      have := List.head?_dropWhile_not (· != quote) input
      simpa [hdrop] using this
    rw [String.toList_ofList]
    refine ⟨?_, fun hmem => ?_⟩
    · rw [← hclosing, ← hdrop, hclosing]
      exact List.takeWhile_append_dropWhile.symm
    · simpa using List.mem_takeWhile_imp hmem
  · cases h

theorem text_length {quote : Char} {input start left : List Char} {content : String}
    (h : text quote input start = .ok (content, left)) : left.length < input.length := by
  rw [(text_eq_ok h).1, List.length_append, List.length_cons]
  omega

theorem listItem_spec {input left : List Char} {value : Value}
    (h : listItem input = .ok (value, left)) :
    left.length < input.length ∧ isLiteral value = true := by
  unfold listItem at h
  cases input with
  | nil => cases h
  | cons c rest =>
    dsimp only at h
    split at h
    · obtain ⟨content, htext, rfl⟩ := map_eq_ok.mp h
      exact ⟨Nat.lt_succ_of_lt (text_length htext), rfl⟩
    · split at h
      · exact ⟨number_length h, isLiteral_of_number h⟩
      · split at h
        · split at h
          · next hword =>
            obtain ⟨rfl, rfl⟩ := Prod.mk.inj (Except.ok.inj h)
            obtain ⟨-, hkind, -⟩ := word_eq_ok hword
            have := wordKind_wellSpelled (c :: rest)
            rw [← hkind] at this
            exact ⟨word_length hword, this⟩
          · cases h
          · cases h
        · cases h

theorem listItems_spec {start input left : List Char} {fuel : Nat} {expectItem : Bool}
    {items result : List Value}
    (h : listItems start fuel expectItem items input = .ok (result, left)) :
    left.length < input.length ∧
      ∃ more, result = items ++ more ∧ ∀ literal ∈ more, isLiteral literal = true := by
  induction fuel generalizing expectItem items input with
  | zero => cases h
  | succ fuel ih =>
    unfold listItems at h
    cases input with
    | nil => cases h
    | cons c rest =>
      dsimp only at h
      split at h
      · obtain ⟨hlength, hmore⟩ := ih h
        exact ⟨Nat.lt_succ_of_lt hlength, hmore⟩
      · split at h
        · split at h
          · cases h
          · obtain ⟨rfl, rfl⟩ := Prod.mk.inj (Except.ok.inj h)
            exact ⟨Nat.lt_succ_self _, [], (List.append_nil _).symm, by simp⟩
        · split at h
          · obtain ⟨hlength, hmore⟩ := ih h
            exact ⟨Nat.lt_succ_of_lt hlength, hmore⟩
          · split at h
            · split at h
              · next hitem =>
                obtain ⟨hitemLength, hliteral⟩ := listItem_spec hitem
                obtain ⟨hlength, more, rfl, hmore⟩ := ih h
                refine ⟨Nat.lt_trans hlength hitemLength, _, List.append_assoc _ _ _, ?_⟩
                simp only [List.cons_append, List.nil_append, List.mem_cons, forall_eq_or_imp]
                exact ⟨hliteral, hmore⟩
              · cases h
            · cases h

theorem comparison_spec {input left : List Char} {kind : TokenKind}
    (h : comparison input = .ok (kind, left)) : left.length < input.length ∧ WellSpelled kind := by
  unfold comparison at h
  split at h
  all_goals cases h
  all_goals exact ⟨by simp only [List.length_cons]; omega, trivial⟩

theorem scalar_spec {input left : List Char} {kind : TokenKind}
    (h : ((number input).map fun (value, rest) => (TokenKind.scalar value, rest)) =
      .ok (kind, left)) : left.length < input.length ∧ WellSpelled kind := by
  obtain ⟨value, hvalue, rfl⟩ := map_eq_ok.mp h
  exact ⟨number_length hvalue, isLiteral_of_number hvalue⟩

theorem cases_of_ite {α : Type} {condition goal : Prop} [Decidable condition] {yes no result : α}
    (h : (if condition then yes else no) = result) (hyes : yes = result → goal)
    (hno : no = result → goal) : goal := by
  by_cases hcondition : condition
  · exact hyes ((if_pos hcondition).symm.trans h)
  · exact hno ((if_neg hcondition).symm.trans h)

/-- **A token takes at least its first character**, and is spelled as one. -/
theorem tokenFrom_spec {c : Char} {rest left : List Char} {kind : TokenKind}
    (h : tokenFrom c rest = .ok (kind, left)) : left.length ≤ rest.length ∧ WellSpelled kind := by
  have hsign {found : TokenKind} (hpair : (.ok (found, rest) : Scan TokenKind) = .ok (kind, left))
      (hfound : WellSpelled found) : left.length ≤ rest.length ∧ WellSpelled kind := by
    obtain ⟨rfl, rfl⟩ := Prod.mk.inj (Except.ok.inj hpair)
    exact ⟨Nat.le_refl _, hfound⟩
  have hword (hinput : word (c :: rest) = .ok (kind, left)) :
      left.length ≤ rest.length ∧ WellSpelled kind := by
    have hlength := word_length hinput
    obtain ⟨-, rfl, -⟩ := word_eq_ok hinput
    exact ⟨Nat.lt_succ_iff.mp hlength, wordKind_wellSpelled _⟩
  refine cases_of_ite h (fun h => hsign h trivial) fun h => ?_
  refine cases_of_ite h (fun h => hsign h trivial) fun h => ?_
  refine cases_of_ite h (fun h => hsign h trivial) fun h => ?_
  refine cases_of_ite h (fun h => hsign h trivial) fun h => ?_
  refine cases_of_ite h (fun h => hsign h trivial) fun h => ?_
  refine cases_of_ite h (fun hcomparison => ?_) fun h => cases_of_ite h (fun hlist => ?_) fun h =>
    cases_of_ite h (fun htext => ?_) fun h => cases_of_ite h (fun hnumber => ?_) fun h =>
    cases_of_ite h (fun h => cases_of_ite h hword fun hnumber => ?_) fun h =>
    cases_of_ite h hword fun h => ?_
  · obtain ⟨hlength, hspelled⟩ := comparison_spec hcomparison
    exact ⟨Nat.lt_succ_iff.mp hlength, hspelled⟩
  · obtain ⟨items, hitems, rfl⟩ := map_eq_ok.mp hlist
    obtain ⟨hlength, more, rfl, hmore⟩ := listItems_spec hitems
    exact ⟨Nat.le_of_lt hlength, hmore⟩
  · obtain ⟨content, hcontent, rfl⟩ :=
      (map_eq_ok (f := fun content => TokenKind.scalar (.str content))).mp htext
    exact ⟨Nat.le_of_lt (text_length hcontent), rfl⟩
  · exact (scalar_spec hnumber).imp_left Nat.lt_succ_iff.mp
  · exact (scalar_spec hnumber).imp_left Nat.lt_succ_iff.mp
  · cases h

/-! ## The kinds of the tokens -/

theorem lexemes_cons (fuel : Nat) (c : Char) (rest : List Char) :
    lexemes (fuel + 1) (c :: rest) =
      if isSeparator c then lexemes fuel rest
      else match tokenFrom c rest with
        | .error fault => .error fault
        | .ok (kind, left) => (lexemes fuel left).map ((kind, c :: rest) :: ·) := rfl

/-- The lexemes do not depend on the fuel, if there is enough. -/
theorem lexemes_fuel {fuel : Nat} {input : List Char} (h : input.length ≤ fuel) :
    lexemes fuel input = lexemes input.length input := by
  induction hlength : input.length using Nat.strongRecOn generalizing fuel input with
  | ind length ih =>
    subst hlength
    cases input with
    | nil => cases fuel <;> rfl
    | cons c rest =>
      obtain ⟨fuel, rfl⟩ := Nat.exists_eq_add_one_of_ne_zero (Nat.ne_of_gt (Nat.lt_of_lt_of_le
        (Nat.succ_pos _) h))
      rw [List.length_cons] at h ih ⊢
      rw [lexemes_cons, lexemes_cons]
      split
      · exact ih rest.length (Nat.lt_succ_self _) (Nat.le_of_succ_le_succ h) rfl
      · split
        · rfl
        · next kind left htoken =>
          have hle := (tokenFrom_spec htoken).1
          have hsame {enough : Nat} (henough : left.length ≤ enough) :
              lexemes enough left = lexemes left.length left :=
            ih left.length (Nat.lt_succ_of_le hle) henough rfl
          rw [hsame hle, hsame (Nat.le_trans hle (Nat.le_of_succ_le_succ h))]

/-- The kinds of the tokens of a text; `none` if it has a lexical fault. -/
def kinds? (input : List Char) : Option (List TokenKind) :=
  (lexemes input.length input).toOption.map (List.map Prod.fst)

@[simp]
theorem kinds?_nil : kinds? [] = some [] := rfl

theorem kinds?_separator {c : Char} (hc : isSeparator c = true) (rest : List Char) :
    kinds? (c :: rest) = kinds? rest := by
  simp [kinds?, lexemes, hc]

theorem kinds?_token {c : Char} (hc : isSeparator c = false) (rest : List Char) :
    kinds? (c :: rest) =
      (tokenFrom c rest).toOption.bind fun (kind, left) => (kinds? left).map (kind :: ·) := by
  rw [kinds?, List.length_cons, lexemes_cons, hc]
  cases htoken : tokenFrom c rest with
  | error fault => rfl
  | ok pair =>
    obtain ⟨kind, left⟩ := pair
    have hsame := lexemes_fuel (tokenFrom_spec htoken).1
    simp only [Bool.false_eq_true, if_false, hsame, Except.toOption, Option.bind_some, kinds?]
    cases lexemes left.length left <;> rfl

theorem not_isSeparator_of_tokenFrom {c : Char} {rest left : List Char} {kind : TokenKind}
    (h : tokenFrom c rest = .ok (kind, left)) : isSeparator c = false := by
  by_contra hc
  simp only [Bool.not_eq_false, isSeparator, Bool.or_eq_true, beq_iff_eq] at hc
  rcases hc with ((rfl | rfl) | rfl) | rfl <;> cases h

theorem kinds?_cons_eq_some {c : Char} (hc : isSeparator c = false) {rest : List Char}
    {kinds : List TokenKind} :
    kinds? (c :: rest) = some kinds ↔
      ∃ kind left more, tokenFrom c rest = .ok (kind, left) ∧ kinds? left = some more ∧
        kinds = kind :: more := by
  rw [kinds?_token hc]
  cases tokenFrom c rest with
  | error fault => simp [Except.toOption]
  | ok pair =>
    obtain ⟨kind, left⟩ := pair
    simp only [Except.toOption, Option.bind_some, Option.map_eq_some_iff, Except.ok.injEq,
      Prod.mk.injEq]
    constructor
    · rintro ⟨more, hmore, rfl⟩
      exact ⟨kind, left, more, ⟨rfl, rfl⟩, hmore, rfl⟩
    · rintro ⟨_, _, more, ⟨rfl, rfl⟩, hmore, rfl⟩
      exact ⟨more, hmore, rfl⟩

/-- The kinds of all tokens are spelled as they have to be. -/
theorem wellSpelled_of_kinds {input : List Char} {kinds : List TokenKind}
    (h : kinds? input = some kinds) {kind : TokenKind} (hkind : kind ∈ kinds) :
    WellSpelled kind := by
  induction hlength : input.length using Nat.strongRecOn generalizing input kinds with
  | ind length ih =>
    subst hlength
    cases input with
    | nil =>
      rw [kinds?_nil] at h
      obtain rfl := Option.some.inj h
      cases hkind
    | cons c rest =>
      cases hc : isSeparator c with
      | true =>
        rw [kinds?_separator hc] at h
        exact ih rest.length (Nat.lt_succ_self _) h hkind rfl
      | false =>
        obtain ⟨found, left, more, htoken, hmore, rfl⟩ := (kinds?_cons_eq_some hc).mp h
        obtain ⟨hlength, hspelled⟩ := tokenFrom_spec htoken
        rcases List.mem_cons.mp hkind with rfl | hkind
        · exact hspelled
        · exact ih left.length (Nat.lt_succ_of_le hlength) hmore hkind rfl

/-! ## Accepted texts -/

theorem kinds?_eq_tokenize (query : String) :
    kinds? query.toList = (tokenize query).toOption.map (List.map Token.kind) := by
  unfold kinds? tokenize
  dsimp only
  cases lexemes query.toList.length query.toList with
  | error fault => rfl
  | ok found => simp [Except.toOption]

theorem sentence_ne_nil {kinds : List TokenKind} {predicate : Predicate}
    (h : Sentence kinds predicate) : kinds ≠ [] := by
  rintro rfl
  obtain ⟨last, hfollow, hfinish⟩ := sentence_iff.mp h
  obtain rfl := Option.some.inj hfollow
  cases hfinish

/-- **A text is accepted exactly if the kinds of its tokens are a sentence with searchable
keys.** -/
theorem parse_eq_ok_iff {query : String} {predicate : Predicate} :
    parse query = .ok predicate ↔
      ∃ kinds, kinds? query.toList = some kinds ∧ Sentence kinds predicate ∧
        ∀ key, .key key ∈ kinds → Key.isSearchable key = true := by
  rw [kinds?_eq_tokenize]
  cases htokens : tokenize query with
  | error error => simp [parse, htokens, Except.bind, Except.toOption]
  | ok tokens =>
    rw [parse_of_tokens htokens]
    constructor
    · intro hok
      have hne : tokens ≠ [] := by
        rintro rfl
        cases hok
      exact ⟨_, rfl, (parseTokens_eq_ok_iff hne _ _).mp hok⟩
    · rintro ⟨_, hkinds, haccepted⟩
      obtain rfl := Option.some.inj hkinds
      have hne : tokens ≠ [] := fun hnil => sentence_ne_nil haccepted.1 (by rw [hnil]; rfl)
      exact (parseTokens_eq_ok_iff hne _ _).mpr haccepted

end Query

end Logbook
