import Logbook.Error
import Logbook.Proofs.Query.Grammar

/-!
# The parser accepts the grammar

The parser moves as the grammar says, and in addition looks at the key of every atom as
soon as the atom is complete.  So what it answers depends on two things only: how far the
tokens are the beginning of a query, and whether one of the atoms that are complete by then
has a key that cannot be searched (`parseTokens_of_fails`).  From this follow what is
accepted, with which predicate, and which of the two kinds of error is given
(`parse_iff_sentence`).
-/

namespace Logbook

namespace Query

/-- The keys of the atoms that are complete, from left to right. -/
def atomKeys : List TokenKind → List String
  | .key key :: .comparison _ :: .scalar _ :: rest => key :: atomKeys rest
  | .key key :: .membership :: .list _ :: rest => key :: atomKeys rest
  | _ :: rest => atomKeys rest
  | [] => []

/-- The tokens can be followed so far and no further: they begin a query, and either there
are no more or they do not begin one together with the next. -/
structure FailsAfter (before after : List TokenKind) : Prop where
  viable : Viable before
  stuck (found : TokenKind) (rest : List TokenKind) (h : after = found :: rest) :
    ¬ Viable (before ++ [found])

namespace Progress

/-- The key that a token makes the key of a complete atom. -/
def completed? (progress : Progress) (found : TokenKind) : Option String :=
  match progress.expectation, found with
  | .scalar key _, .scalar _ => some key
  | .list key, .list _ => some key
  | _, _ => none

/-! ## One token -/

theorem step_of_advance {progress next : Progress} {token : Token}
    (h : progress.advance? token.kind = some next) :
    progress.step token =
      match progress.completed? token.kind with
      | some key => if Key.isSearchable key then .ok next else .error (.unsearchable key)
      | none => .ok next := by
  obtain ⟨kind, offset⟩ := token
  obtain ⟨level, outer, expectation⟩ := progress
  cases expectation <;> cases kind <;> cases outer <;> first | cases h; rfl | cases h

theorem step_of_stuck {progress : Progress} {token : Token}
    (h : progress.advance? token.kind = none) :
    ∃ error, progress.step token = .error error ∧ error.isMalformed = true := by
  obtain ⟨kind, offset⟩ := token
  obtain ⟨level, outer, expectation⟩ := progress
  cases expectation <;> cases kind <;> cases outer <;> first | exact ⟨_, rfl, rfl⟩ | cases h

/-- A token completes an atom exactly where the tokens of the atom end. -/
theorem atomKeys_begun {progress next : Progress} {found : TokenKind}
    (h : progress.advance? found = some next) (rest : List TokenKind) :
    atomKeys (progress.expectation.begun ++ found :: rest) =
      (progress.completed? found).toList ++ atomKeys (next.expectation.begun ++ rest) := by
  obtain ⟨level, outer, expectation⟩ := progress
  cases expectation <;> cases found <;> cases outer <;> first | cases h; rfl | cases h

/-! ## Many tokens -/

theorem run_append (progress : Progress) (lefts rights : List Token) :
    progress.run (lefts ++ rights) = (progress.run lefts).bind (·.run rights) := by
  induction lefts generalizing progress with
  | nil => rfl
  | cons token lefts ih =>
    simp only [List.cons_append, run]
    cases progress.step token with
    | error error => rfl
    | ok next => exact ih next

/-- Tokens that can be followed are read up to the first atom with a key that cannot be
searched. -/
theorem run_of_follow {progress last : Progress} {tokens : List Token}
    (h : progress.follow? (tokens.map Token.kind) = some last) :
    progress.run tokens =
      match (atomKeys (progress.expectation.begun ++ tokens.map Token.kind)).find?
        fun key => !Key.isSearchable key with
      | some key => .error (.unsearchable key)
      | none => .ok last := by
  induction tokens generalizing progress with
  | nil =>
    obtain rfl := Option.some.inj h
    obtain ⟨level, outer, expectation⟩ := progress
    cases expectation <;> rfl
  | cons token tokens ih =>
    rw [List.map_cons, follow?_cons] at h
    obtain ⟨next, hnext, hrest⟩ := Option.bind_eq_some_iff.mp h
    rw [List.map_cons, atomKeys_begun hnext, run, step_of_advance hnext]
    cases progress.completed? token.kind with
    | none => exact ih hrest
    | some key =>
      cases hkey : Key.isSearchable key with
      | false => simp [hkey, Except.bind]
      | true => simpa [hkey, Except.bind] using ih hrest

end Progress

/-! ## The answer of the parser -/

/-- The parser can go on with no token that the grammar does not go on with. -/
theorem failsAfter_iff {before after : List TokenKind} :
    FailsAfter before after ↔ ∃ last, Progress.start.follow? before = some last ∧
      ∀ found rest, after = found :: rest → last.advance? found = none := by
  constructor
  · intro h
    obtain ⟨last, hlast⟩ := viable_iff.mp h.viable
    refine ⟨last, hlast, fun found rest hafter => ?_⟩
    cases hnext : last.advance? found with
    | none => rfl
    | some next =>
      refine absurd (viable_iff.mpr ⟨next, ?_⟩) (h.stuck found rest hafter)
      simp [Progress.follow?_append, hlast, hnext]
  · rintro ⟨last, hlast, hstuck⟩
    refine ⟨viable_iff.mpr ⟨last, hlast⟩, fun found rest hafter hviable => ?_⟩
    obtain ⟨next, hnext⟩ := viable_iff.mp hviable
    simp [Progress.follow?_append, hlast, hstuck found rest hafter] at hnext

/-- Every list of tokens can be followed up to some point. -/
theorem exists_failsAfter (kinds : List TokenKind) :
    ∃ before after, kinds = before ++ after ∧ FailsAfter before after := by
  have hfrom : ∀ (after before : List TokenKind) (progress : Progress),
      Progress.start.follow? before = some progress →
      ∃ more rest, after = more ++ rest ∧ FailsAfter (before ++ more) rest := by
    intro after
    induction after with
    | nil =>
      intro before progress hbefore
      refine ⟨[], [], rfl, failsAfter_iff.mpr ⟨progress, by simpa using hbefore, ?_⟩⟩
      intro found rest h
      cases h
    | cons found after ih =>
      intro before progress hbefore
      cases hnext : progress.advance? found with
      | none =>
        refine ⟨[], found :: after, rfl,
          failsAfter_iff.mpr ⟨progress, by simpa using hbefore, ?_⟩⟩
        rintro _ _ ⟨⟩
        exact hnext
      | some next =>
        have hbetween : Progress.start.follow? (before ++ [found]) = some next := by
          simp [Progress.follow?_append, hbefore, hnext]
        obtain ⟨more, rest, rfl, hfails⟩ := ih _ next hbetween
        exact ⟨found :: more, rest, rfl, by simpa using hfails⟩
  obtain ⟨before, after, hkinds, hfails⟩ := hfrom kinds [] Progress.start rfl
  exact ⟨before, after, hkinds, hfails⟩

/-- **What the parser answers**: where the tokens can be followed no further, it has
reported the first atom with a key that cannot be searched, if there is one, and else
reports the tokens, unless they are a sentence. -/
theorem parseTokens_of_fails {tokens : List Token} (hne : tokens ≠ []) (length : Nat)
    {before after : List TokenKind} (hkinds : tokens.map Token.kind = before ++ after)
    (h : FailsAfter before after) :
    match (atomKeys before).find? fun key => !Key.isSearchable key with
    | some key => parseTokens length tokens = .error (.unsearchable key)
    | none =>
        (∃ predicate, Sentence (before ++ after) predicate ∧
          parseTokens length tokens = .ok predicate) ∨
        (¬ ∃ predicate, Sentence (before ++ after) predicate) ∧
          ∃ error, parseTokens length tokens = .error error ∧ error.isMalformed = true := by
  obtain ⟨lefts, rights, rfl, rfl, rfl⟩ := List.map_eq_append_iff.mp hkinds
  obtain ⟨last, hlast, hstuck⟩ := failsAfter_iff.mp h
  have hrun := Progress.run_of_follow hlast
  have hparse : parseTokens length (lefts ++ rights) =
      ((Progress.start.run lefts).bind (·.run rights)).bind fun progress =>
        progress.finish?.elim (.error (.unexpectedEnd length)) .ok := by
    rewrite [parseTokens, if_neg (by simpa using hne), Progress.run_append]
    refine congrArg (Except.bind _) (funext fun progress => ?_)
    cases progress.finish? <;> rfl
  rw [show Progress.start.expectation.begun = [] from rfl, List.nil_append] at hrun
  cases hkey : (atomKeys (lefts.map Token.kind)).find? fun key => !Key.isSearchable key with
  | some key =>
    rw [hkey] at hrun
    rw [hparse, hrun]
    rfl
  | none =>
    rw [hkey] at hrun
    cases rights with
    | nil =>
      have hrest : parseTokens length (lefts ++ []) =
          last.finish?.elim (.error (.unexpectedEnd length)) .ok := by
        rw [hparse, hrun]
        rfl
      rw [hrest, List.map_nil, List.append_nil]
      cases hfinish : last.finish? with
      | some predicate =>
        exact .inl ⟨predicate, sentence_iff.mpr ⟨last, hlast, hfinish⟩, rfl⟩
      | none =>
        refine .inr ⟨?_, _, rfl, rfl⟩
        rintro ⟨predicate, hsentence⟩
        obtain ⟨other, hother, hpredicate⟩ := sentence_iff.mp hsentence
        obtain rfl := Option.some.inj (hlast.symm.trans hother)
        rw [hfinish] at hpredicate
        cases hpredicate
    | cons token rights =>
      obtain ⟨error, hstep, hmalformed⟩ := Progress.step_of_stuck (hstuck _ _ rfl)
      refine .inr ⟨?_, error, ?_, hmalformed⟩
      · rintro ⟨predicate, hsentence⟩
        refine h.stuck _ _ rfl ⟨rights.map Token.kind, predicate, ?_⟩
        simpa using hsentence
      · rw [hparse, hrun]
        simp [Except.bind, Progress.run, hstep]

/-! ## The keys of a sentence -/

/-- The complete atoms of what a list of tokens spells are those of its predicate. -/
theorem atomKeys_of_derives {category : Category} {kinds : List TokenKind} {predicate : Predicate}
    (h : Derives category kinds predicate) (rest : List TokenKind) :
    atomKeys (kinds ++ rest) = predicate.atomKeys ++ atomKeys rest := by
  induction h generalizing rest with
  | conjunction _ ih => exact ih rest
  | negation _ ih => exact ih rest
  | primary _ ih => exact ih rest
  | or _ _ ihleft ihright => simp [ihleft, ihright, atomKeys, Predicate.atomKeys]
  | and _ _ ihleft ihright => simp [ihleft, ihright, atomKeys, Predicate.atomKeys]
  | not _ ih => simp [ih, atomKeys, Predicate.atomKeys]
  | parentheses _ ih => simp [ih, atomKeys]
  | compare key comparison literal => rfl
  | oneOf key literals => rfl

theorem key_mem_of_derives {category : Category} {kinds : List TokenKind} {predicate : Predicate}
    (h : Derives category kinds predicate) (key : String) :
    TokenKind.key key ∈ kinds ↔ key ∈ predicate.atomKeys := by
  induction h with
  | conjunction _ ih => exact ih
  | negation _ ih => exact ih
  | primary _ ih => exact ih
  | or _ _ ihleft ihright => simp [ihleft, ihright, Predicate.atomKeys]
  | and _ _ ihleft ihright => simp [ihleft, ihright, Predicate.atomKeys]
  | not _ ih => simp [ih, Predicate.atomKeys]
  | parentheses _ ih => simp [ih]
  | compare key comparison literal => simp [Predicate.atomKeys]
  | oneOf key literals => simp [Predicate.atomKeys]

/-- The keys in the tokens of a sentence are those of its complete atoms. -/
theorem key_mem_of_sentence {kinds : List TokenKind} {predicate : Predicate}
    (h : Sentence kinds predicate) (key : String) :
    TokenKind.key key ∈ kinds ↔ key ∈ atomKeys kinds := by
  have hkeys := atomKeys_of_derives h []
  rw [List.append_nil] at hkeys
  rw [key_mem_of_derives h, hkeys]
  simp [atomKeys]

/-- A sentence can be followed to its end. -/
theorem failsAfter_of_sentence {kinds : List TokenKind} {predicate : Predicate}
    (h : Sentence kinds predicate) : FailsAfter kinds [] where
  viable := ⟨[], predicate, by rwa [List.append_nil]⟩
  stuck _ _ hafter := by cases hafter

/-! ## Accepted and rejected -/

theorem parse_of_tokens {query : String} {tokens : List Token}
    (htokens : tokenize query = .ok tokens) :
    parse query = parseTokens query.utf8ByteSize tokens := by
  rw [parse, htokens]
  rfl

/-- A sentence whose keys are all searchable is accepted with its predicate. -/
theorem parseTokens_of_searchable {tokens : List Token} (hne : tokens ≠ []) (length : Nat)
    {predicate : Predicate} (h : Sentence (tokens.map Token.kind) predicate)
    (hkeys : ∀ key, .key key ∈ tokens.map Token.kind → Key.isSearchable key = true) :
    parseTokens length tokens = .ok predicate := by
  have hnone :
      ((atomKeys (tokens.map Token.kind)).find? fun key => !Key.isSearchable key) = none := by
    refine List.find?_eq_none.mpr fun key hkey => ?_
    simp [hkeys key ((key_mem_of_sentence h key).mpr hkey)]
  have hparse := parseTokens_of_fails hne length (List.append_nil _).symm (failsAfter_of_sentence h)
  rw [hnone, List.append_nil] at hparse
  rcases hparse with ⟨other, hother, hok⟩ | ⟨hno, -⟩
  · rw [sentence_unique h hother]
    exact hok
  · exact absurd ⟨predicate, h⟩ hno

/-- A sentence with a key that cannot be searched is refused for such a key. -/
theorem parseTokens_of_unsearchable {tokens : List Token} (hne : tokens ≠ []) (length : Nat)
    {predicate : Predicate} (h : Sentence (tokens.map Token.kind) predicate) {key : String}
    (hkey : .key key ∈ tokens.map Token.kind) (hunsearchable : Key.isSearchable key = false) :
    ∃ first, parseTokens length tokens = .error (.unsearchable first) := by
  have hparse := parseTokens_of_fails hne length (List.append_nil _).symm (failsAfter_of_sentence h)
  cases hfind : (atomKeys (tokens.map Token.kind)).find? fun key => !Key.isSearchable key with
  | some first =>
    rw [hfind] at hparse
    exact ⟨first, hparse⟩
  | none =>
    have hsearchable := List.find?_eq_none.mp hfind key ((key_mem_of_sentence h key).mp hkey)
    simp [hunsearchable] at hsearchable

/-- Tokens that are no sentence are refused where they can be followed no further. -/
theorem parseTokens_of_no_sentence {tokens : List Token} (hne : tokens ≠ []) (length : Nat)
    (h : ¬ ∃ predicate, Sentence (tokens.map Token.kind) predicate) :
    ∃ before after error, tokens.map Token.kind = before ++ after ∧ FailsAfter before after ∧
      parseTokens length tokens = .error error ∧
      error.isMalformed = (atomKeys before).all Key.isSearchable := by
  obtain ⟨before, after, hkinds, hfails⟩ := exists_failsAfter (tokens.map Token.kind)
  have hparse := parseTokens_of_fails hne length hkinds hfails
  rw [← hkinds] at hparse
  cases hfind : (atomKeys before).find? fun key => !Key.isSearchable key with
  | some key =>
    rw [hfind] at hparse
    refine ⟨before, after, _, hkinds, hfails, hparse, ?_⟩
    refine (List.all_eq_false.mpr ⟨key, List.mem_of_find?_eq_some hfind, ?_⟩).symm
    simpa using List.find?_some hfind
  | none =>
    rw [hfind] at hparse
    rcases hparse with ⟨predicate, hsentence, -⟩ | ⟨-, error, herror, hmalformed⟩
    · exact absurd ⟨predicate, hsentence⟩ h
    · refine ⟨before, after, error, hkinds, hfails, herror, hmalformed.trans ?_⟩
      refine (List.all_eq_true.mpr fun key hkey => ?_).symm
      simpa using List.find?_eq_none.mp hfind key hkey

/-- Tokens are accepted exactly if they are a sentence whose keys are all searchable. -/
theorem parseTokens_eq_ok_iff {tokens : List Token} (hne : tokens ≠ []) (length : Nat)
    (predicate : Predicate) :
    parseTokens length tokens = .ok predicate ↔
      Sentence (tokens.map Token.kind) predicate ∧
        ∀ key, .key key ∈ tokens.map Token.kind → Key.isSearchable key = true := by
  constructor
  · intro hok
    by_cases hsentence : ∃ other, Sentence (tokens.map Token.kind) other
    · obtain ⟨other, hother⟩ := hsentence
      have hkeys : ∀ key, .key key ∈ tokens.map Token.kind → Key.isSearchable key = true := by
        intro key hkey
        cases hsearchable : Key.isSearchable key with
        | true => rfl
        | false =>
          obtain ⟨first, herror⟩ := parseTokens_of_unsearchable hne _ hother hkey hsearchable
          cases hok.symm.trans herror
      have haccepted := parseTokens_of_searchable hne length hother hkeys
      obtain rfl := Except.ok.inj (hok.symm.trans haccepted)
      exact ⟨hother, hkeys⟩
    · obtain ⟨_, _, error, -, -, herror, -⟩ := parseTokens_of_no_sentence hne _ hsentence
      cases hok.symm.trans herror
  · rintro ⟨hsentence, hkeys⟩
    exact parseTokens_of_searchable hne _ hsentence hkeys

/-- **A query is accepted exactly if its tokens are a sentence of the grammar with
searchable keys**, and the predicate is the one that the tokens spell.  A sentence with
another key is refused for the key.  Tokens that are no sentence are refused for a key if
one that cannot be searched stands in an atom which is complete where they can be followed
no further, and for the grammar if none does. -/
theorem parse_iff_sentence {query : String} {tokens : List Token}
    (htokens : tokenize query = .ok tokens) (hne : tokens ≠ []) :
    (∀ predicate, parse query = .ok predicate ↔
      Sentence (tokens.map Token.kind) predicate ∧
        ∀ key, .key key ∈ tokens.map Token.kind → Key.isSearchable key = true) ∧
    (∀ predicate other, Sentence (tokens.map Token.kind) predicate →
      Sentence (tokens.map Token.kind) other → predicate = other) ∧
    (∀ predicate, Sentence (tokens.map Token.kind) predicate →
      (∃ key, .key key ∈ tokens.map Token.kind ∧ Key.isSearchable key = false) →
      ∃ error, parse query = .error error ∧ (Error.query error).kind = .key) ∧
    ((¬ ∃ predicate, Sentence (tokens.map Token.kind) predicate) →
      ∃ before after error, tokens.map Token.kind = before ++ after ∧ FailsAfter before after ∧
        parse query = .error error ∧
        (Error.query error).kind =
          if (atomKeys before).all Key.isSearchable then .grammar else .key) := by
  rw [parse_of_tokens htokens]
  refine ⟨parseTokens_eq_ok_iff hne _, fun _ _ => sentence_unique, ?_, ?_⟩
  · rintro predicate hsentence ⟨key, hkey, hunsearchable⟩
    obtain ⟨first, herror⟩ := parseTokens_of_unsearchable hne _ hsentence hkey hunsearchable
    exact ⟨_, herror, rfl⟩
  · intro hno
    obtain ⟨before, after, error, hkinds, hfails, herror, hmalformed⟩ :=
      parseTokens_of_no_sentence hne _ hno
    refine ⟨before, after, error, hkinds, hfails, herror, ?_⟩
    rw [Error.kind, hmalformed]

/-- A negation takes the nearest atom, and of two disjunctions the left one is the inner. -/
theorem parse_of_four_atoms :
    (∃ tokens, tokenize "~config.a == 1 | info.b in ['x'] | config.c < 2 & info.d != true" =
        .ok tokens ∧ tokens ≠ []) ∧
      parse "~config.a == 1 | info.b in ['x'] | config.c < 2 & info.d != true" = .ok (.or
        (.or (.not (.compare "config.a" .equal (.int 1))) (.oneOf "info.b" [.str "x"]))
        (.and (.compare "config.c" .less (.int 2)) (.compare "info.d" .notEqual (.bool true)))) := by
  have htokens :
      tokenize "~config.a == 1 | info.b in ['x'] | config.c < 2 & info.d != true" = .ok
        [⟨.negation, 0⟩, ⟨.key "config.a", 1⟩, ⟨.comparison .equal, 10⟩, ⟨.scalar (.int 1), 13⟩,
          ⟨.disjunction, 15⟩, ⟨.key "info.b", 17⟩, ⟨.membership, 24⟩, ⟨.list [.str "x"], 27⟩,
          ⟨.disjunction, 33⟩, ⟨.key "config.c", 35⟩, ⟨.comparison .less, 44⟩, ⟨.scalar (.int 2), 46⟩,
          ⟨.conjunction, 48⟩, ⟨.key "info.d", 50⟩, ⟨.comparison .notEqual, 57⟩,
          ⟨.scalar (.bool true), 60⟩] := by rfl
  refine ⟨⟨_, htokens, List.cons_ne_nil _ _⟩,
    ((parse_iff_sentence htokens (List.cons_ne_nil _ _)).1 _).mpr ⟨?_, ?_⟩⟩
  · exact sentence_iff.mpr ⟨_, rfl, rfl⟩
  · intro key hkey
    simp only [List.map_cons, List.map_nil, List.mem_cons, TokenKind.key.injEq, reduceCtorEq,
      List.not_mem_nil, false_or, or_false] at hkey
    rcases hkey with rfl | rfl | rfl | rfl <;> decide +kernel

end Query

end Logbook
