import Logbook.Query.Parser

/-!
# The grammar of queries

The grammar is a relation `Derives` between a category, a list of tokens and the predicate
that the tokens spell.  Both connectives of two operands take what is on their left as one
operand, and a negation takes the nearest operand on its right.

The parser reads one token at a time and keeps a stack of open levels.  Leaving aside
which keys are searchable, it moves from state to state by `Progress.advance?`, and these
moves are compared with the grammar in both directions:

* `reads_follow`: what has been read in a state is spelled by the levels of the state, an
  invariant that every token keeps;
* `accepted_of_derives`: a list of tokens of any category leads from every state in which
  an operand may come to the state in which it has been read, by induction on the
  derivation.

So the lists that lead to a state where the query may end are the sentences
(`sentence_iff`), each with one predicate, and those that lead anywhere at all are the
beginnings of sentences (`viable_iff`).
-/

namespace Logbook

namespace Query

/-- A category of the grammar, from the loosest connective to the tightest. -/
inductive Category where
  /-- Conjunctions, joined by the sign of disjunction. -/
  | disjunction
  /-- Negations, joined by the sign of conjunction. -/
  | conjunction
  /-- An operand under signs of negation. -/
  | negation
  /-- An atom, or a disjunction in parentheses. -/
  | primary

/-- A list of tokens of a category spells a predicate. -/
inductive Derives : Category → List TokenKind → Predicate → Prop
  | conjunction {kinds : List TokenKind} {predicate : Predicate}
      (h : Derives .conjunction kinds predicate) : Derives .disjunction kinds predicate
  | or {lefts rights : List TokenKind} {left right : Predicate}
      (hleft : Derives .disjunction lefts left) (hright : Derives .conjunction rights right) :
      Derives .disjunction (lefts ++ .disjunction :: rights) (.or left right)
  | negation {kinds : List TokenKind} {predicate : Predicate}
      (h : Derives .negation kinds predicate) : Derives .conjunction kinds predicate
  | and {lefts rights : List TokenKind} {left right : Predicate}
      (hleft : Derives .conjunction lefts left) (hright : Derives .negation rights right) :
      Derives .conjunction (lefts ++ .conjunction :: rights) (.and left right)
  | primary {kinds : List TokenKind} {predicate : Predicate}
      (h : Derives .primary kinds predicate) : Derives .negation kinds predicate
  | not {kinds : List TokenKind} {inner : Predicate}
      (h : Derives .negation kinds inner) : Derives .negation (.negation :: kinds) (.not inner)
  | parentheses {kinds : List TokenKind} {predicate : Predicate}
      (h : Derives .disjunction kinds predicate) :
      Derives .primary (.opening :: kinds ++ [.closing]) predicate
  | compare (key : String) (comparison : Comparison) (literal : Value) :
      Derives .primary [.key key, .comparison comparison, .scalar literal]
        (.compare key comparison literal)
  | oneOf (key : String) (literals : List Value) :
      Derives .primary [.key key, .membership, .list literals] (.oneOf key literals)

/-- The tokens of a query and the predicate that they spell. -/
abbrev Sentence : List TokenKind → Predicate → Prop := Derives .disjunction

/-- Some query begins with these tokens. -/
def Viable (kinds : List TokenKind) : Prop := ∃ rest predicate, Sentence (kinds ++ rest) predicate

/-! ## Reading tokens without looking at keys -/

namespace Progress

/-- Reads one token, whatever the keys are. -/
def advance? (progress : Progress) (found : TokenKind) : Option Progress :=
  match progress.expectation, found with
  | .operand, .negation =>
      some { progress with level.negations := progress.level.negations + 1 }
  | .operand, .opening => some ⟨{}, progress.level :: progress.outer, .operand⟩
  | .operand, .key key => some { progress with expectation := .operator key }
  | .operator key, .comparison comparison =>
      some { progress with expectation := .scalar key comparison }
  | .operator key, .membership => some { progress with expectation := .list key }
  | .scalar key comparison, .scalar literal =>
      some { progress with
        expectation := .connective (progress.level.conjoin (.compare key comparison literal)) }
  | .list key, .list literals =>
      some { progress with
        expectation := .connective (progress.level.conjoin (.oneOf key literals)) }
  | .connective conjunction, .conjunction =>
      some { progress with
        level := { progress.level with conjunction := some conjunction, negations := 0 }
        expectation := .operand }
  | .connective conjunction, .disjunction =>
      some { progress with
        level := { disjunction := some (progress.level.disjoin conjunction) }
        expectation := .operand }
  | .connective conjunction, .closing =>
      match progress.outer with
      | level :: outer =>
          some ⟨level, outer, .connective (level.conjoin (progress.level.disjoin conjunction))⟩
      | [] => none
  | _, _ => none

/-- Reads tokens one after another, whatever the keys are. -/
def follow? (progress : Progress) (kinds : List TokenKind) : Option Progress :=
  kinds.foldlM advance? progress

@[simp] theorem follow?_nil (progress : Progress) : progress.follow? [] = some progress := rfl

@[simp] theorem follow?_cons (progress : Progress) (kind : TokenKind) (kinds : List TokenKind) :
    progress.follow? (kind :: kinds) = (progress.advance? kind).bind (·.follow? kinds) := rfl

theorem follow?_append (progress : Progress) (lefts rights : List TokenKind) :
    progress.follow? (lefts ++ rights) = (progress.follow? lefts).bind (·.follow? rights) := by
  simp [follow?, List.foldlM_append]

end Progress

/-! ## What a state has read -/

namespace Level

theorem negate_not (count : Nat) (operand : Predicate) :
    negate count (.not operand) = negate (count + 1) operand := by
  induction count with
  | zero => rfl
  | succ count ih => exact congrArg Predicate.not ih

/-- The tokens of a finished left operand with its connective, none if there is none. -/
def LeftSide (category : Category) (sign : TokenKind) : Option Predicate → List TokenKind → Prop
  | none, kinds => kinds = []
  | some left, kinds => ∃ lefts, Derives category lefts left ∧ kinds = lefts ++ [sign]

/-- The tokens of a level up to the operand that is still to come. -/
def Reads (level : Level) (kinds : List TokenKind) : Prop :=
  ∃ ors ands, LeftSide .disjunction .disjunction level.disjunction ors ∧
    LeftSide .conjunction .conjunction level.conjunction ands ∧
    kinds = ors ++ (ands ++ List.replicate level.negations .negation)

/-- Of a level that has just been opened nothing has been read. -/
theorem reads_nil : Reads {} [] := ⟨[], [], rfl, rfl, rfl⟩

/-- The tokens of open levels, each followed by its opening parenthesis. -/
def ReadsAll : List Level → List TokenKind → Prop
  | [], kinds => kinds = []
  | level :: outer, kinds => ∃ outers inners, ReadsAll outer outers ∧ level.Reads inners ∧
      kinds = outers ++ (inners ++ [.opening])

theorem derives_negate {kinds : List TokenKind} {operand : Predicate}
    (h : Derives .negation kinds operand) (count : Nat) :
    Derives .negation (List.replicate count .negation ++ kinds) (negate count operand) := by
  induction count with
  | zero => exact h
  | succ count ih => exact ih.not

/-- An operand completes the conjunction of its level. -/
theorem derives_conjoin {level : Level} {ands kinds : List TokenKind} {operand : Predicate}
    (hands : LeftSide .conjunction .conjunction level.conjunction ands)
    (h : Derives .negation kinds operand) :
    Derives .conjunction (ands ++ (List.replicate level.negations .negation ++ kinds))
      (level.conjoin operand) := by
  have hnegated := derives_negate h level.negations
  unfold conjoin
  cases hleft : level.conjunction with
  | none =>
    rw [hleft] at hands
    rw [show ands = [] from hands]
    exact .negation hnegated
  | some left =>
    rw [hleft] at hands
    obtain ⟨lefts, hlefts, rfl⟩ := hands
    simpa using hlefts.and hnegated

/-- A conjunction completes the disjunction of its level. -/
theorem derives_disjoin {level : Level} {ors ands : List TokenKind} {conjunction : Predicate}
    (hors : LeftSide .disjunction .disjunction level.disjunction ors)
    (h : Derives .conjunction ands conjunction) :
    Derives .disjunction (ors ++ ands) (level.disjoin conjunction) := by
  unfold disjoin
  cases hleft : level.disjunction with
  | none =>
    rw [hleft] at hors
    rw [show ors = [] from hors]
    exact .conjunction h
  | some left =>
    rw [hleft] at hors
    obtain ⟨lefts, hlefts, rfl⟩ := hors
    simpa using hlefts.or h

end Level

/-- The tokens of an atom that has been begun. -/
def Expectation.begun : Expectation → List TokenKind
  | .operator key => [.key key]
  | .scalar key comparison => [.key key, .comparison comparison]
  | .list key => [.key key, .membership]
  | .operand | .connective _ => []

namespace Progress

/-- The tokens that have been read when a state is reached. -/
def Reads (progress : Progress) (kinds : List TokenKind) : Prop :=
  ∃ outers inners, Level.ReadsAll progress.outer outers ∧ kinds = outers ++ inners ∧
    match progress.expectation with
    | .connective conjunction => ∃ ors ands,
        Level.LeftSide .disjunction .disjunction progress.level.disjunction ors ∧
        Derives .conjunction ands conjunction ∧ inners = ors ++ ands
    | expectation => ∃ lefts, progress.level.Reads lefts ∧ inners = lefts ++ expectation.begun

theorem reads_start : start.Reads [] :=
  ⟨[], [], rfl, rfl, [], Level.reads_nil, rfl⟩

/-- An operand that follows the tokens of a level takes the level to its connective. -/
theorem reads_connective {level : Level} {outer : List Level} {outers lefts kinds : List TokenKind}
    {operand : Predicate} (houter : Level.ReadsAll outer outers) (hlevel : level.Reads lefts)
    (h : Derives .negation kinds operand) :
    Reads ⟨level, outer, .connective (level.conjoin operand)⟩ (outers ++ (lefts ++ kinds)) := by
  obtain ⟨ors, ands, hors, hands, rfl⟩ := hlevel
  refine ⟨outers, _, houter, rfl, ors, _, hors, Level.derives_conjoin hands h, ?_⟩
  simp only [List.append_assoc]

/-- **Every token keeps the invariant.** -/
theorem reads_advance {progress next : Progress} {kinds : List TokenKind} {found : TokenKind}
    (h : progress.Reads kinds) (hnext : progress.advance? found = some next) :
    next.Reads (kinds ++ [found]) := by
  obtain ⟨level, outer, expectation⟩ := progress
  obtain ⟨outers, inners, houter, rfl, hinners⟩ := h
  cases expectation with
  | operand =>
    obtain ⟨lefts, hlevel, rfl⟩ := hinners
    cases found with
    | negation =>
      obtain rfl := Option.some.inj hnext
      obtain ⟨ors, ands, hors, hands, rfl⟩ := hlevel
      refine ⟨outers, _, houter, List.append_assoc .., _, ⟨ors, ands, hors, hands, rfl⟩, ?_⟩
      simp [Expectation.begun, List.replicate_succ']
    | opening =>
      obtain rfl := Option.some.inj hnext
      refine ⟨_, [], ⟨outers, lefts, houter, hlevel, rfl⟩, ?_, [], Level.reads_nil, rfl⟩
      simp [Expectation.begun]
    | key key =>
      obtain rfl := Option.some.inj hnext
      refine ⟨outers, _, houter, List.append_assoc .., lefts, hlevel, ?_⟩
      simp [Expectation.begun]
    | _ => cases hnext
  | operator key =>
    obtain ⟨lefts, hlevel, rfl⟩ := hinners
    cases found with
    | comparison comparison =>
      obtain rfl := Option.some.inj hnext
      refine ⟨outers, _, houter, List.append_assoc .., lefts, hlevel, ?_⟩
      simp [Expectation.begun]
    | membership =>
      obtain rfl := Option.some.inj hnext
      refine ⟨outers, _, houter, List.append_assoc .., lefts, hlevel, ?_⟩
      simp [Expectation.begun]
    | _ => cases hnext
  | scalar key comparison =>
    obtain ⟨lefts, hlevel, rfl⟩ := hinners
    cases found with
    | scalar literal =>
      obtain rfl := Option.some.inj hnext
      simpa [Expectation.begun] using
        reads_connective houter hlevel (.primary (.compare key comparison literal))
    | _ => cases hnext
  | list key =>
    obtain ⟨lefts, hlevel, rfl⟩ := hinners
    cases found with
    | list literals =>
      obtain rfl := Option.some.inj hnext
      simpa [Expectation.begun] using
        reads_connective houter hlevel (.primary (.oneOf key literals))
    | _ => cases hnext
  | connective conjunction =>
    obtain ⟨ors, ands, hors, hands, rfl⟩ := hinners
    cases found with
    | conjunction =>
      obtain rfl := Option.some.inj hnext
      refine ⟨outers, _, houter, List.append_assoc .., _,
        ⟨ors, ands ++ [.conjunction], hors, ⟨ands, hands, rfl⟩, rfl⟩, ?_⟩
      simp [Expectation.begun]
    | disjunction =>
      obtain rfl := Option.some.inj hnext
      refine ⟨outers, _, houter, List.append_assoc .., _,
        ⟨_, [], ⟨_, Level.derives_disjoin hors hands, rfl⟩, rfl, rfl⟩, ?_⟩
      simp [Expectation.begun]
    | closing =>
      cases outer with
      | nil => cases hnext
      | cons outside outer =>
        obtain rfl := Option.some.inj hnext
        obtain ⟨outers, lefts, houter, houtside, rfl⟩ := houter
        simpa using reads_connective houter houtside
          (.primary (.parentheses (Level.derives_disjoin hors hands)))
    | _ => cases hnext

theorem reads_follow {progress next : Progress} {kinds more : List TokenKind}
    (h : progress.Reads kinds) (hnext : progress.follow? more = some next) :
    next.Reads (kinds ++ more) := by
  induction more generalizing progress kinds with
  | nil =>
    obtain rfl := Option.some.inj hnext
    simpa using h
  | cons found more ih =>
    rw [follow?_cons] at hnext
    obtain ⟨between, hfound, hmore⟩ := Option.bind_eq_some_iff.mp hnext
    simpa using ih (reads_advance h hfound) hmore

/-- Where a query may end, a sentence has been read. -/
theorem sentence_of_finish {progress : Progress} {kinds : List TokenKind} {predicate : Predicate}
    (h : progress.Reads kinds) (hfinish : progress.finish? = some predicate) :
    Sentence kinds predicate := by
  obtain ⟨level, outer, expectation⟩ := progress
  obtain ⟨outers, inners, houter, rfl, hinners⟩ := h
  unfold finish? at hfinish
  split at hfinish
  · next conjunction hexpectation houtside =>
    obtain rfl := Option.some.inj hfinish
    cases hexpectation
    cases houtside
    obtain ⟨ors, ands, hors, hands, rfl⟩ := hinners
    rw [show outers = [] from houter, List.nil_append]
    exact Level.derives_disjoin hors hands
  · contradiction

/-! ## Where a list of tokens leads -/

/-- From wherever a list of a category may come, reading it leads to where its predicate
has become an operand. -/
def Accepted : Category → List TokenKind → Predicate → Prop
  | .primary, kinds, predicate | .negation, kinds, predicate => ∀ level outer, ∃ negations,
      (Progress.mk level outer .operand).follow? kinds =
        some ⟨{ level with negations }, outer, .connective (level.conjoin predicate)⟩
  | .conjunction, kinds, predicate => ∀ disjunction outer, ∃ conjunction negations,
      (Progress.mk { disjunction } outer .operand).follow? kinds =
        some ⟨{ disjunction, conjunction, negations }, outer, .connective predicate⟩
  | .disjunction, kinds, predicate => ∀ outer, ∃ level conjunction,
      (Progress.mk {} outer .operand).follow? kinds =
        some ⟨level, outer, .connective conjunction⟩ ∧ level.disjoin conjunction = predicate

theorem accepted_of_derives {category : Category} {kinds : List TokenKind} {predicate : Predicate}
    (h : Derives category kinds predicate) : Accepted category kinds predicate := by
  induction h with
  | conjunction _ ih =>
    intro outer
    obtain ⟨conjunction, negations, hfollow⟩ := ih none outer
    exact ⟨_, _, hfollow, rfl⟩
  | @or lefts rights left right _ _ ihleft ihright =>
    intro outer
    obtain ⟨level, conjunction, hleft, rfl⟩ := ihleft outer
    obtain ⟨_, _, hright⟩ := ihright (some (level.disjoin conjunction)) outer
    have hfollow := follow?_append (.mk {} outer .operand) lefts (.disjunction :: rights)
    rw [hleft] at hfollow
    exact ⟨_, right, hfollow.trans hright, rfl⟩
  | negation _ ih =>
    intro disjunction outer
    obtain ⟨negations, hfollow⟩ := ih { disjunction } outer
    exact ⟨_, _, hfollow⟩
  | @and lefts rights left right _ _ ihleft ihright =>
    intro disjunction outer
    obtain ⟨_, _, hleft⟩ := ihleft disjunction outer
    obtain ⟨_, hright⟩ := ihright { disjunction, conjunction := some left } outer
    have hfollow := follow?_append (.mk { disjunction } outer .operand) lefts
      (.conjunction :: rights)
    rw [hleft] at hfollow
    exact ⟨_, _, hfollow.trans hright⟩
  | primary _ ih => exact ih
  | @not kinds inner _ ih =>
    intro level outer
    obtain ⟨negations, hfollow⟩ := ih { level with negations := level.negations + 1 } outer
    refine ⟨negations, hfollow.trans ?_⟩
    have hconjoin : Level.conjoin { level with negations := level.negations + 1 } inner =
        level.conjoin (.not inner) := by
      unfold Level.conjoin
      rw [← Level.negate_not]
    rw [hconjoin]
  | @parentheses kinds predicate _ ih =>
    intro level outer
    obtain ⟨inside, conjunction, hfollow, rfl⟩ := ih (level :: outer)
    refine ⟨level.negations, ?_⟩
    rw [List.cons_append, follow?_cons, show advance? ⟨level, outer, .operand⟩ .opening =
      some ⟨{}, level :: outer, .operand⟩ from rfl, Option.bind_some, follow?_append, hfollow]
    rfl
  | compare key comparison literal => exact fun level outer => ⟨level.negations, rfl⟩
  | oneOf key literals => exact fun level outer => ⟨level.negations, rfl⟩

/-- Tokens that are enough to complete a query. -/
def fillers : List TokenKind :=
  [.key "info.status", .membership, .list [], .scalar (.bool true), .conjunction, .closing]

/-- Every state can be led on to one where the query may end. -/
theorem exists_finish (progress : Progress) :
    ∃ rest last predicate, progress.follow? rest = some last ∧ last.finish? = some predicate ∧
      rest ≠ [] ∧ rest ⊆ fillers := by
  -- A connective closes its parentheses; any other expectation is first led to a connective.
  have hconnective : ∀ outer level conjunction, ∃ rest last predicate,
      (Progress.mk level outer (.connective conjunction)).follow? rest = some last ∧
        last.finish? = some predicate ∧ rest ⊆ fillers := by
    intro outer
    induction outer with
    | nil => exact fun level conjunction => ⟨[], _, _, rfl, rfl, List.nil_subset _⟩
    | cons outside outer ih =>
      intro level conjunction
      obtain ⟨rest, last, predicate, hrest, hlast, hfillers⟩ :=
        ih outside (outside.conjoin (level.disjoin conjunction))
      exact ⟨.closing :: rest, last, predicate, hrest, hlast,
        List.cons_subset.mpr ⟨by simp [fillers], hfillers⟩⟩
  have hled : ∀ first level outer conjunction,
      progress.follow? first = some ⟨level, outer, .connective conjunction⟩ →
      first ≠ [] → first ⊆ fillers →
      ∃ rest last predicate, progress.follow? rest = some last ∧
        last.finish? = some predicate ∧ rest ≠ [] ∧ rest ⊆ fillers := by
    intro first level outer conjunction hfirst hne hfirstFillers
    obtain ⟨rest, last, predicate, hrest, hlast, hfillers⟩ := hconnective outer level conjunction
    refine ⟨first ++ rest, last, predicate, ?_, hlast, by simp [hne],
      List.append_subset.mpr ⟨hfirstFillers, hfillers⟩⟩
    rw [follow?_append, hfirst]
    exact hrest
  obtain ⟨level, outer, expectation⟩ := progress
  cases expectation with
  | operand =>
    exact hled [.key "info.status", .membership, .list []] _ _ _ rfl (by simp) (by simp [fillers])
  | operator key => exact hled [.membership, .list []] _ _ _ rfl (by simp) (by simp [fillers])
  | scalar key comparison =>
    exact hled [.scalar (.bool true)] _ _ _ rfl (by simp) (by simp [fillers])
  | list key => exact hled [.list []] _ _ _ rfl (by simp) (by simp [fillers])
  | connective conjunction =>
    exact hled [.conjunction, .key "info.status", .membership, .list []] _ _ _ rfl (by simp)
      (by simp [fillers])

end Progress

/-! ## Sentences and their beginnings -/

theorem sentence_iff {kinds : List TokenKind} {predicate : Predicate} :
    Sentence kinds predicate ↔
      ∃ last, Progress.start.follow? kinds = some last ∧ last.finish? = some predicate := by
  constructor
  · intro h
    obtain ⟨level, conjunction, hfollow, hdisjoin⟩ := Progress.accepted_of_derives h []
    exact ⟨_, hfollow, congrArg some hdisjoin⟩
  · rintro ⟨last, hfollow, hfinish⟩
    exact Progress.sentence_of_finish (Progress.reads_follow Progress.reads_start hfollow) hfinish

/-- The tokens of a query spell one predicate. -/
theorem sentence_unique {kinds : List TokenKind} {predicate other : Predicate}
    (h : Sentence kinds predicate) (hother : Sentence kinds other) : predicate = other := by
  obtain ⟨last, hfollow, hfinish⟩ := sentence_iff.mp h
  obtain ⟨otherLast, hotherFollow, hotherFinish⟩ := sentence_iff.mp hother
  obtain rfl := Option.some.inj (hfollow.symm.trans hotherFollow)
  exact Option.some.inj (hfinish.symm.trans hotherFinish)

theorem viable_iff {kinds : List TokenKind} :
    Viable kinds ↔ ∃ last, Progress.start.follow? kinds = some last := by
  constructor
  · rintro ⟨rest, predicate, h⟩
    obtain ⟨last, hfollow, -⟩ := sentence_iff.mp h
    rw [Progress.follow?_append] at hfollow
    obtain ⟨between, hbetween, -⟩ := Option.bind_eq_some_iff.mp hfollow
    exact ⟨between, hbetween⟩
  · rintro ⟨between, hbetween⟩
    obtain ⟨rest, last, predicate, hrest, hlast, -⟩ := between.exists_finish
    refine ⟨rest, predicate, sentence_iff.mpr ⟨last, ?_, hlast⟩⟩
    rw [Progress.follow?_append, hbetween]
    exact hrest

end Query

end Logbook
