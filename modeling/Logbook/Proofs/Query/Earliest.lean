import Logbook.Proofs.Query.Offset

/-!
# The position of an error

The parser reports the first token that no query goes on with, and the end of the query only
where a query could go on but cannot stop (`parse_error_earliest`).

A step that is refused for the grammar reports the offset of its token, and it is refused
only where the grammar does not advance (`step_of_malformed`).  So a run that is refused has
followed the grammar up to the token that it reports (`run_of_malformed`).  Every state can
be led on to the end of some query by tokens that can be written (`extensible_of_follow`),
and the offsets tell the tokens apart.
-/

namespace Logbook

namespace QueryError

/-- The position that an error reports, if it has one. -/
def position? : QueryError → Option Nat
  | lexical _ _ position => some position
  | unexpected _ position => some position
  | unexpectedEnd position => some position
  | expectedClosing _ position => some position
  | expectedScalar _ _ position => some position
  | expectedList _ position => some position
  | expectedOperator _ _ position => some position
  | empty => none
  | unsearchable _ => none

/-- An error is about a position, and its message ends with it. -/
structure ReportsAt (error : QueryError) (position : Nat) : Prop where
  isAt : error.position? = some position
  message : ∃ words, error.message = words ++ place position

end QueryError

namespace Query

/-- Some sentence begins with these tokens and goes on behind them, with tokens that can be
written. -/
def Extensible (kinds : List TokenKind) : Prop :=
  ∃ rest predicate, rest ≠ [] ∧ (∀ kind ∈ rest, WellSpelled kind) ∧
    Sentence (kinds ++ rest) predicate

namespace Progress

/-! ## One token -/

theorem advance_of_step {progress next : Progress} {token : Token}
    (h : progress.step token = .ok next) : progress.advance? token.kind = some next := by
  cases hadvance : progress.advance? token.kind with
  | none =>
    obtain ⟨error, herror, -⟩ := step_of_stuck hadvance
    cases h.symm.trans herror
  | some other =>
    rw [step_of_advance hadvance] at h
    split at h
    · split at h
      · rw [Except.ok.inj h]
      · cases h
    · rw [Except.ok.inj h]

/-- **A step that is refused for the grammar reports its token**, with which the grammar does
not go on. -/
theorem step_of_malformed {progress : Progress} {token : Token} {error : QueryError}
    (h : progress.step token = .error error) (hmalformed : error.isMalformed = true) :
    progress.advance? token.kind = none ∧ error.ReportsAt token.offset := by
  cases hadvance : progress.advance? token.kind with
  | some next =>
    rw [step_of_advance hadvance] at h
    split at h
    · split at h
      · cases h
      · obtain rfl := Except.error.inj h
        cases hmalformed
    · cases h
  | none =>
    refine ⟨rfl, ?_⟩
    obtain ⟨kind, offset⟩ := token
    obtain ⟨level, outer, expectation⟩ := progress
    cases expectation <;> cases kind <;> cases outer <;>
      first
      | cases hadvance; done
      | (obtain rfl := Except.error.inj h; exact ⟨rfl, _, rfl⟩)

/-! ## Many tokens -/

theorem follow_of_run {progress last : Progress} {tokens : List Token}
    (h : progress.run tokens = .ok last) :
    progress.follow? (tokens.map Token.kind) = some last := by
  induction tokens generalizing progress with
  | nil => rw [Except.ok.inj h]; rfl
  | cons token tokens ih =>
    unfold run at h
    cases hstep : progress.step token with
    | error error =>
      rw [hstep] at h
      cases h
    | ok next =>
      rw [hstep] at h
      rw [List.map_cons, follow?_cons, advance_of_step hstep]
      exact ih h

/-- **A run that is refused for the grammar has followed it up to the token that it
reports.** -/
theorem run_of_malformed {progress : Progress} {tokens : List Token} {error : QueryError}
    (h : progress.run tokens = .error error) (hmalformed : error.isMalformed = true) :
    ∃ before token after between, tokens = before ++ token :: after ∧
      progress.follow? (before.map Token.kind) = some between ∧
      between.advance? token.kind = none ∧ error.ReportsAt token.offset := by
  induction tokens generalizing progress with
  | nil => cases h
  | cons token tokens ih =>
    unfold run at h
    cases hstep : progress.step token with
    | error found =>
      rw [hstep] at h
      obtain rfl := Except.error.inj h
      obtain ⟨hstuck, hreports⟩ := step_of_malformed hstep hmalformed
      exact ⟨[], token, tokens, progress, rfl, rfl, hstuck, hreports⟩
    | ok next =>
      rw [hstep] at h
      obtain ⟨before, found, after, between, rfl, hfollow, hstuck, hreports⟩ := ih h
      refine ⟨token :: before, found, after, between, rfl, ?_, hstuck, hreports⟩
      rw [List.map_cons, follow?_cons, advance_of_step hstep]
      exact hfollow

end Progress

/-! ## Beginnings of sentences -/

theorem wellSpelled_fillers : ∀ kind ∈ Progress.fillers, WellSpelled kind := by
  have hkey : keyChars "info.status".toList = ("info.status".toList, []) ∧
      wordKind "info.status" = .key "info.status" := ⟨by decide +kernel, rfl⟩
  simp only [Progress.fillers, List.forall_mem_cons]
  exact ⟨hkey, trivial, by simp [WellSpelled], rfl, trivial, trivial, by simp⟩

/-- What can be followed is a proper beginning of some sentence. -/
theorem extensible_of_follow {kinds : List TokenKind} {last : Progress}
    (h : Progress.start.follow? kinds = some last) : Extensible kinds := by
  obtain ⟨rest, final, predicate, hrest, hfinish, hne, hfillers⟩ := last.exists_finish
  refine ⟨rest, predicate, hne, fun kind hkind => wellSpelled_fillers kind (hfillers hkind),
    sentence_iff.mpr ⟨final, ?_, hfinish⟩⟩
  rw [Progress.follow?_append, h]
  exact hrest

theorem not_viable_of_stuck {kinds : List TokenKind} {last : Progress} {found : TokenKind}
    (h : Progress.start.follow? kinds = some last) (hstuck : last.advance? found = none) :
    ¬ Viable (kinds ++ [found]) := by
  rw [viable_iff, Progress.follow?_append, h]
  simp [hstuck]

/-! ## The error of a query -/

/-- Tokens that ascend in their offsets are told apart by them. -/
theorem eq_of_offset {tokens before lefts after rights : List Token} {token found : Token}
    (h : tokens.Pairwise (fun before after => before.offset < after.offset))
    (htokens : tokens = before ++ token :: after) (hfound : tokens = lefts ++ found :: rights)
    (hoffset : token.offset = found.offset) : before = lefts ∧ token = found := by
  subst htokens
  rw [List.pairwise_append, List.pairwise_cons] at h
  rcases List.append_eq_append_iff.mp hfound with ⟨between, rfl, hrest⟩ | ⟨between, rfl, hrest⟩
  · cases between with
    | nil => exact ⟨(List.append_nil _).symm, (List.cons.inj hrest).1⟩
    | cons first between =>
      obtain ⟨rfl, rfl⟩ := List.cons.inj hrest
      have hlt := h.2.1.1 found (by simp)
      omega
  · cases between with
    | nil => exact ⟨List.append_nil _, (List.cons.inj hrest).1.symm⟩
    | cons first between =>
      obtain ⟨rfl, -⟩ := List.cons.inj hrest
      have hlt := h.2.2 found (by simp) token (List.mem_cons_self ..)
      omega

/-- **An error is reported as early as it can be.**  A query with tokens that is refused for
the grammar is refused at a token or at the end of its text.  Where it is at a token, the
tokens in front of it are a proper beginning of some sentence, and together with it they are
the beginning of none.  Where it is at the end, all tokens are a proper beginning of some
sentence, but not a sentence. -/
theorem parse_error_earliest {query : String} {tokens : List Token} {error : QueryError}
    (htokens : tokenize query = .ok tokens) (hne : tokens ≠ [])
    (herror : parse query = .error error) (hkind : (Error.query error).kind = .grammar) :
    ∃ position, error.ReportsAt position ∧
      ((∃ token ∈ tokens, position = token.offset) ∨ position = query.utf8ByteSize) ∧
      (∀ before token after, tokens = before ++ token :: after → position = token.offset →
        Extensible (before.map Token.kind) ∧ ¬ Viable ((before ++ [token]).map Token.kind)) ∧
      (position = query.utf8ByteSize → Extensible (tokens.map Token.kind) ∧
        ¬ ∃ predicate, Sentence (tokens.map Token.kind) predicate) := by
  have hmalformed : error.isMalformed = true := by
    by_contra hkey
    rw [Error.kind, if_neg hkey] at hkind
    cases hkind
  obtain ⟨hascending, hbelow⟩ := tokenize_ascending htokens
  rw [parse_of_tokens htokens, parseTokens, if_neg (by simpa using hne)] at herror
  cases hrun : Progress.start.run tokens with
  | error found =>
    rw [hrun] at herror
    obtain rfl := Except.error.inj herror
    obtain ⟨lefts, found, rights, between, hsplit, hfollow, hstuck, hreports⟩ :=
      Progress.run_of_malformed hrun hmalformed
    have hfound : found ∈ tokens := by simp [hsplit]
    refine ⟨found.offset, hreports, .inl ⟨found, hfound, rfl⟩,
      fun before token after hcut hoffset => ?_,
      fun hend => absurd (hbelow found hfound) (by omega)⟩
    obtain ⟨rfl, rfl⟩ := eq_of_offset hascending hcut hsplit hoffset.symm
    refine ⟨extensible_of_follow hfollow, ?_⟩
    rw [List.map_append]
    exact not_viable_of_stuck hfollow hstuck
  | ok last =>
    rw [hrun] at herror
    have hfollow := Progress.follow_of_run hrun
    cases hfinish : last.finish? with
    | some predicate => simp [hfinish, Except.bind] at herror
    | none =>
      have hend : error = .unexpectedEnd query.utf8ByteSize := by
        simpa [hfinish, Except.bind] using herror.symm
      subst hend
      refine ⟨query.utf8ByteSize, ⟨rfl, _, rfl⟩, .inr rfl,
        fun before token after hcut hoffset => ?_, fun _ => ⟨extensible_of_follow hfollow, ?_⟩⟩
      · have := hbelow token (by simp [hcut])
        omega
      · rintro ⟨predicate, hsentence⟩
        obtain ⟨other, hother, hpredicate⟩ := sentence_iff.mp hsentence
        obtain rfl := Option.some.inj (hfollow.symm.trans hother)
        rw [hfinish] at hpredicate
        cases hpredicate

/-- Behind a complete comparison another literal is the first token that does not fit. -/
theorem parse_error_second_literal :
    parse "info.a == 1 2" = .error (.unexpected (.scalar (.int 2)) 12) ∧
      Extensible [.key "info.a", .comparison .equal, .scalar (.int 1)] ∧
      ¬ Viable [.key "info.a", .comparison .equal, .scalar (.int 1), .scalar (.int 2)] := by
  have htokens : tokenize "info.a == 1 2" = .ok [⟨.key "info.a", 0⟩, ⟨.comparison .equal, 7⟩,
      ⟨.scalar (.int 1), 10⟩, ⟨.scalar (.int 2), 12⟩] := by rfl
  have herror : parse "info.a == 1 2" = .error (.unexpected (.scalar (.int 2)) 12) := by
    rw [parse_of_tokens htokens]
    rfl
  obtain ⟨position, hreports, -, hearliest, -⟩ :=
    parse_error_earliest htokens (List.cons_ne_nil _ _) herror rfl
  obtain rfl : 12 = position := Option.some.inj hreports.isAt
  exact ⟨herror, hearliest [_, _, _] _ [] rfl rfl⟩

end Query

end Logbook
