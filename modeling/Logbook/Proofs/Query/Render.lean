import Logbook.Proofs.Query.Misread
import Logbook.Proofs.Value.Meaning

/-!
# Predicates are read back from their text

The text of a predicate has parentheses around every connective of two conditions, so its
tokens are a sentence for the predicate, whatever precedence the connectives have.  What may
be lost are literals.  If all of them are readable, the text of a predicate that comes from
a query is accepted and gives the predicate again; otherwise it is rejected or gives
another one (`parse_render_iff`).

## Strategy

`Predicate.kinds` are the tokens as they should be.  If all literals are readable the
tokens of the text are just these (`hasKinds_of_isReadable`).  Otherwise they agree with them up to
the first literal that is not readable, and go on with a token that does not belong there
(`misrendered_of_unreadable`): it is no literal, or a key follows it, neither of which happens in
a sentence, or it holds other literals, and literals stand in a sentence in the order in
which the predicate has them (`literals_of_derives`).
-/

namespace Logbook

/-- A key that is one token and can be searched. -/
structure Query.IsKey (key : String) : Prop where
  /-- It is taken whole. -/
  keyChars_eq : keyChars key.toList = (key.toList, [])
  /-- It is no keyword. -/
  wordKind_eq : wordKind key = .key key
  /-- It can be searched. -/
  searchable : Key.isSearchable key = true

namespace Predicate

/-- Whether two predicates are equal, literals being equal if they are the same value. -/
def same : Predicate → Predicate → Bool
  | compare key comparison literal, compare otherKey otherComparison other =>
      key == otherKey && comparison == otherComparison && literal.same other
  | oneOf key literals, oneOf otherKey others => key == otherKey && Value.sameItems literals others
  | and left right, and otherLeft otherRight => left.same otherLeft && right.same otherRight
  | or left right, or otherLeft otherRight => left.same otherLeft && right.same otherRight
  | not inner, not other => inner.same other
  | _, _ => false

/-- The literals of the atoms, from left to right. -/
def literals : Predicate → List (List Value)
  | compare _ _ literal => [[literal]]
  | oneOf _ literals => [literals]
  | and left right => left.literals ++ right.literals
  | or left right => left.literals ++ right.literals
  | not inner => inner.literals

open Query in
/-- The tokens of the text of a predicate, if all its literals are readable. -/
def kinds : Predicate → List TokenKind
  | compare key comparison literal => [.key key, .comparison comparison, .scalar literal]
  | oneOf key literals => [.key key, .membership, .list literals]
  | and left right => .opening :: (left.kinds ++ .conjunction :: right.kinds ++ [.closing])
  | or left right => .opening :: (left.kinds ++ .disjunction :: right.kinds ++ [.closing])
  | not inner => .negation :: inner.kinds

/-- Whether all literals of a predicate are read back from their text. -/
def isReadable : Predicate → Bool
  | compare _ _ literal => Query.isReadable literal
  | oneOf _ literals => literals.all Query.isReadable
  | and left right => left.isReadable && right.isReadable
  | or left right => left.isReadable && right.isReadable
  | not inner => inner.isReadable

/-- What is known of a predicate that comes from a query. -/
def Queried : Predicate → Prop
  | compare key _ literal => Query.IsKey key ∧ Query.isLiteral literal = true
  | oneOf key literals => Query.IsKey key ∧ ∀ literal ∈ literals, Query.isLiteral literal = true
  | and left right => left.Queried ∧ right.Queried
  | or left right => left.Queried ∧ right.Queried
  | not inner => inner.Queried

theorem same_refl (predicate : Predicate) : predicate.same predicate = true := by
  induction predicate with
  | compare key comparison literal => simp [same]
  | oneOf key literals => simp [same, Value.sameItems_refl]
  | and left right ihleft ihright => simp [same, ihleft, ihright]
  | or left right ihleft ihright => simp [same, ihleft, ihright]
  | not inner ih => simp [same, ih]

end Predicate

namespace Query

/-! ## The tokens that should be read -/

/-- They spell the predicate, in parentheses where it is a connective of two conditions. -/
theorem derives_kinds (predicate : Predicate) : Derives .negation predicate.kinds predicate := by
  induction predicate with
  | compare key comparison literal => exact .primary (.compare key comparison literal)
  | oneOf key literals => exact .primary (.oneOf key literals)
  | and left right ihleft ihright =>
    exact .primary (.parentheses (.conjunction (.and (.negation ihleft) ihright)))
  | or left right ihleft ihright =>
    exact .primary (.parentheses (.or (.conjunction (.negation ihleft)) (.negation ihright)))
  | not inner ih => exact .not ih

/-- A sentence has the literals of its predicate, in their order. -/
theorem literals_of_derives {category : Category} {kinds : List TokenKind} {predicate : Predicate}
    (h : Derives category kinds predicate) :
    kinds.filterMap TokenKind.literals? = predicate.literals := by
  induction h with
  | conjunction _ ih => exact ih
  | negation _ ih => exact ih
  | primary _ ih => exact ih
  | or _ _ ihleft ihright | and _ _ ihleft ihright =>
    simp [List.filterMap_append, List.filterMap_cons, TokenKind.literals?, ihleft, ihright,
      Predicate.literals]
  | not _ ih => simp [List.filterMap_cons, TokenKind.literals?, ih, Predicate.literals]
  | parentheses _ ih => simp [List.filterMap_cons, TokenKind.literals?, ih]
  | compare key comparison literal => rfl
  | oneOf key literals => rfl

theorem queried_of_derives {category : Category} {kinds : List TokenKind} {predicate : Predicate}
    (h : Derives category kinds predicate) (hspelled : ∀ kind ∈ kinds, WellSpelled kind)
    (hkeys : ∀ key, .key key ∈ kinds → Key.isSearchable key = true) : predicate.Queried := by
  induction h with
  | conjunction _ ih => exact ih hspelled hkeys
  | negation _ ih => exact ih hspelled hkeys
  | primary _ ih => exact ih hspelled hkeys
  | or _ _ ihleft ihright | and _ _ ihleft ihright =>
    refine ⟨ihleft ?_ ?_, ihright ?_ ?_⟩
    · exact fun kind hkind => hspelled kind (by simp [hkind])
    · exact fun key hkey => hkeys key (by simp [hkey])
    · exact fun kind hkind => hspelled kind (by simp [hkind])
    · exact fun key hkey => hkeys key (by simp [hkey])
  | not _ ih | parentheses _ ih =>
    refine ih ?_ ?_
    · exact fun kind hkind => hspelled kind (by simp [hkind])
    · exact fun key hkey => hkeys key (by simp [hkey])
  | compare key comparison literal =>
    obtain ⟨hchars, hkind⟩ := hspelled (.key key) (by simp)
    exact ⟨⟨hchars, hkind, hkeys key (by simp)⟩, hspelled (.scalar literal) (by simp)⟩
  | oneOf key literals =>
    obtain ⟨hchars, hkind⟩ := hspelled (.key key) (by simp)
    exact ⟨⟨hchars, hkind, hkeys key (by simp)⟩, hspelled (.list literals) (by simp)⟩

/-! ## Readable literals -/

theorem boundary_of_head {c : Char} (hc : (!isWordChar c && c != '.') = true) (rest : List Char) :
    Boundary (c :: rest) := by
  rintro d ⟨⟩
  simpa using hc

theorem kinds?_comparison (comparison : Comparison) (rest : List Char) :
    kinds? (comparison.symbol.toList ++ ' ' :: rest) =
      (kinds? rest).map (.comparison comparison :: ·) := by
  rw [← kinds?_separator (c := ' ') rfl rest]
  cases comparison <;> exact kinds?_of_token rfl

theorem boundary_space (rest : List Char) : Boundary (' ' :: rest) := boundary_of_head (by decide) _

theorem kinds?_membership (rest : List Char) :
    kinds? ('i' :: 'n' :: ' ' :: rest) = (kinds? rest).map (.membership :: ·) := by
  rw [← kinds?_separator (c := ' ') rfl rest]
  exact kinds?_of_token (word_append ['i', 'n'] rfl rfl (boundary_space rest))

/-- What an atom has in front of its literals. -/
theorem kinds?_compare {key : String} (hkey : IsKey key) (comparison : Comparison) (literal : Value)
    (rest : List Char) :
    kinds? ((Predicate.compare key comparison literal).render.toList ++ rest) =
      (kinds? ((Predicate.renderLiteral literal).toList ++ rest)).map
        ([.key key, .comparison comparison] ++ ·) := by
  have htext : (Predicate.compare key comparison literal).render.toList ++ rest =
      key.toList ++ ' ' :: (comparison.symbol.toList ++
        ' ' :: ((Predicate.renderLiteral literal).toList ++ rest)) := by
    simp [Predicate.render]
  rw [htext, kinds?_key hkey.keyChars_eq hkey.wordKind_eq hkey.searchable (boundary_space _),
    kinds?_separator rfl, kinds?_comparison, Option.map_map]
  rfl

theorem kinds?_oneOf {key : String} (hkey : IsKey key) (literals : List Value) (rest : List Char) :
    kinds? ((Predicate.oneOf key literals).render.toList ++ rest) =
      (kinds? ('[' :: ((", ".intercalate (literals.map Predicate.renderLiteral)).toList ++
        ']' :: rest))).map ([.key key, .membership] ++ ·) := by
  have htext : (Predicate.oneOf key literals).render.toList ++ rest =
      key.toList ++ ' ' :: 'i' :: 'n' :: ' ' :: '[' :: ((", ".intercalate
        (literals.map Predicate.renderLiteral)).toList ++ ']' :: rest) := by
    simp [Predicate.render]
  rw [htext, kinds?_key hkey.keyChars_eq hkey.wordKind_eq hkey.searchable (boundary_space _),
    kinds?_separator rfl, kinds?_membership, Option.map_map]
  rfl

/-- A connective between two conditions, with the blanks around it. -/
theorem kinds?_connective {c : Char} {connective : TokenKind}
    (htoken : ∀ rest, tokenFrom c rest = .ok (connective, rest)) (rest : List Char) :
    kinds? (' ' :: c :: ' ' :: rest) = (kinds? rest).map (connective :: ·) := by
  rw [kinds?_separator rfl, kinds?_of_token (htoken _), kinds?_separator rfl]

theorem kinds?_conjunction (rest : List Char) :
    kinds? (' ' :: '&' :: ' ' :: rest) = (kinds? rest).map (.conjunction :: ·) :=
  kinds?_connective (fun _ => rfl) rest

theorem kinds?_disjunction (rest : List Char) :
    kinds? (' ' :: '|' :: ' ' :: rest) = (kinds? rest).map (.disjunction :: ·) :=
  kinds?_connective (fun _ => rfl) rest

theorem render_and (left right : Predicate) (rest : List Char) :
    (Predicate.and left right).render.toList ++ rest = '(' :: (left.render.toList ++
      ' ' :: '&' :: ' ' :: (right.render.toList ++ ')' :: rest)) := by
  simp [Predicate.render]

theorem render_or (left right : Predicate) (rest : List Char) :
    (Predicate.or left right).render.toList ++ rest = '(' :: (left.render.toList ++
      ' ' :: '|' :: ' ' :: (right.render.toList ++ ')' :: rest)) := by
  simp [Predicate.render]

theorem render_not (inner : Predicate) (rest : List Char) :
    (Predicate.not inner).render.toList ++ rest = '~' :: (inner.render.toList ++ rest) := by
  simp [Predicate.render]

/-- Wherever its text stands, a predicate has the tokens that it should have. -/
def HasKinds (predicate : Predicate) : Prop :=
  ∀ rest, Boundary rest →
    kinds? (predicate.render.toList ++ rest) = (kinds? rest).map (predicate.kinds ++ ·)

/-- Two texts in parentheses have their tokens, with a connective between. -/
theorem kinds?_parentheses {left right : List Char} {lefts rights : List TokenKind}
    {connective : TokenKind} {c : Char}
    (hconnective : ∀ rest, kinds? (' ' :: c :: ' ' :: rest) = (kinds? rest).map (connective :: ·))
    (hleft : ∀ rest, kinds? (left ++ ' ' :: rest) = (kinds? (' ' :: rest)).map (lefts ++ ·))
    (hright : ∀ rest, kinds? (right ++ ')' :: rest) = (kinds? (')' :: rest)).map (rights ++ ·))
    (rest : List Char) :
    kinds? ('(' :: (left ++ ' ' :: c :: ' ' :: (right ++ ')' :: rest))) =
      (kinds? rest).map ((.opening :: (lefts ++ connective :: rights ++ [.closing])) ++ ·) := by
  rw [kinds?_of_token rfl, hleft, hconnective, hright, kinds?_of_token rfl]
  simp [Option.map_map, Function.comp_def]

/-- Two conditions in parentheses have their tokens, with a connective between. -/
theorem kinds?_between {left right : Predicate} {connective : TokenKind} {c : Char}
    (hconnective : ∀ rest, kinds? (' ' :: c :: ' ' :: rest) = (kinds? rest).map (connective :: ·))
    (hleft : HasKinds left) (hright : HasKinds right) (rest : List Char) :
    kinds? ('(' ::
        (left.render.toList ++ ' ' :: c :: ' ' :: (right.render.toList ++ ')' :: rest))) =
      (kinds? rest).map
        ((.opening :: (left.kinds ++ connective :: right.kinds ++ [.closing])) ++ ·) :=
  kinds?_parentheses hconnective (fun rest => hleft _ (boundary_space rest))
    (fun rest => hright _ (boundary_of_head (by decide) rest)) rest

/-- **The text of a predicate whose literals are all readable has the tokens that it should
have.** -/
theorem hasKinds_of_isReadable {predicate : Predicate} (hqueried : predicate.Queried)
    (hreadable : predicate.isReadable = true) : HasKinds predicate := by
  induction predicate with
  | compare key comparison literal =>
    intro rest hrest
    obtain ⟨hkey, hliteral⟩ := hqueried
    rw [kinds?_compare hkey, kinds?_renderLiteral hliteral hreadable hrest, Option.map_map]
    rfl
  | oneOf key literals =>
    intro rest hrest
    obtain ⟨hkey, hliterals⟩ := hqueried
    rw [kinds?_oneOf hkey, kinds?_list hliterals (List.all_eq_true.mp hreadable), Option.map_map]
    rfl
  | and left right ihleft ihright =>
    intro rest hrest
    obtain ⟨hleft, hright⟩ := hqueried
    obtain ⟨hreadLeft, hreadRight⟩ := Bool.and_eq_true_iff.mp hreadable
    rw [render_and]
    exact kinds?_between kinds?_conjunction (ihleft hleft hreadLeft)
      (ihright hright hreadRight) rest
  | or left right ihleft ihright =>
    intro rest hrest
    obtain ⟨hleft, hright⟩ := hqueried
    obtain ⟨hreadLeft, hreadRight⟩ := Bool.and_eq_true_iff.mp hreadable
    rw [render_or]
    exact kinds?_between kinds?_disjunction (ihleft hleft hreadLeft)
      (ihright hright hreadRight) rest
  | not inner ih =>
    intro rest hrest
    rw [render_not, kinds?_of_token rfl, ih hqueried hreadable rest hrest, Option.map_map]
    rfl

/-! ## Literals that are not readable -/

/-- The tokens of a text agree with those that it should have up to literals that are
misread. -/
def Diverges (predicate : Predicate) (kinds : List TokenKind) : Prop :=
  ∃ before expected after misread literals, predicate.kinds = before ++ expected :: after ∧
    kinds = before ++ misread ∧ expected.literals? = some literals ∧ Misread literals misread

theorem Diverges.within {inner outer : Predicate} {kinds : List TokenKind}
    (h : Diverges inner kinds) (front back : List TokenKind)
    (houter : outer.kinds = front ++ (inner.kinds ++ back)) :
    Diverges outer (front ++ kinds) := by
  obtain ⟨before, expected, after, misread, literals, hkinds, rfl, hmisread⟩ := h
  refine ⟨front ++ before, expected, after ++ back, misread, literals, ?_, ?_, hmisread⟩
  · rw [houter, hkinds]
    simp
  · simp

/-- Wherever its text stands, the tokens of a predicate diverge from those it should have. -/
def Misrendered (predicate : Predicate) : Prop :=
  ∀ rest, Boundary rest → ∀ kinds, kinds? (predicate.render.toList ++ rest) = some kinds →
    Diverges predicate kinds

/-- Of two conditions in parentheses, the first that is not readable makes the tokens diverge. -/
theorem diverges_between {outer left right : Predicate} {connective : TokenKind} {c : Char}
    (houter : outer.kinds = .opening :: (left.kinds ++ connective :: right.kinds ++ [.closing]))
    (hconnective : ∀ rest, kinds? (' ' :: c :: ' ' :: rest) = (kinds? rest).map (connective :: ·))
    (hsome : Misrendered left ∨ HasKinds left ∧ Misrendered right)
    {rest : List Char} {kinds : List TokenKind}
    (h : kinds? ('(' :: (left.render.toList ++
      ' ' :: c :: ' ' :: (right.render.toList ++ ')' :: rest))) = some kinds) :
    Diverges outer kinds := by
  rw [kinds?_of_token rfl] at h
  obtain ⟨more, hmore, rfl⟩ := Option.map_eq_some_iff.mp h
  rcases hsome with hleft | ⟨hleft, hright⟩
  · have hdiverges := hleft _ (boundary_space _) more hmore
    exact hdiverges.within [.opening] (connective :: right.kinds ++ [.closing])
      (by rw [houter]; simp)
  · rw [hleft _ (boundary_space _), hconnective, Option.map_map] at hmore
    obtain ⟨others, hothers, rfl⟩ := Option.map_eq_some_iff.mp hmore
    have hdiverges := hright _ (boundary_of_head (by decide) _) others hothers
    have houterDiverges : Diverges outer (.opening :: left.kinds ++ [connective] ++ others) :=
      hdiverges.within _ [.closing] (by rw [houter]; simp)
    simpa using houterDiverges

/-- If not both of two conditions are readable, the first or the second is at fault. -/
theorem misrendered_or {left right : Predicate} (hqueried : left.Queried ∧ right.Queried)
    (hunreadable : (left.isReadable && right.isReadable) = false)
    (hleft : left.Queried → left.isReadable = false → Misrendered left)
    (hright : right.Queried → right.isReadable = false → Misrendered right) :
    Misrendered left ∨ HasKinds left ∧ Misrendered right := by
  cases hreadable : left.isReadable with
  | false => exact .inl (hleft hqueried.1 hreadable)
  | true =>
    have hunreadableRight : right.isReadable = false := by simpa [hreadable] using hunreadable
    exact .inr ⟨hasKinds_of_isReadable hqueried.1 hreadable, hright hqueried.2 hunreadableRight⟩

/-- **The tokens of a predicate with a literal that is not readable diverge there.** -/
theorem misrendered_of_unreadable {predicate : Predicate} (hqueried : predicate.Queried)
    (hunreadable : predicate.isReadable = false) : Misrendered predicate := by
  induction predicate with
  | compare key comparison literal =>
    intro rest hrest kinds h
    obtain ⟨hkey, hliteral⟩ := hqueried
    rw [kinds?_compare hkey] at h
    obtain ⟨more, hmore, rfl⟩ := Option.map_eq_some_iff.mp h
    exact ⟨_, _, [], more, _, rfl, rfl, rfl, misread_of_scalar hliteral hunreadable hrest hmore⟩
  | oneOf key literals =>
    intro rest hrest kinds h
    obtain ⟨hkey, hliterals⟩ := hqueried
    rw [kinds?_oneOf hkey] at h
    obtain ⟨more, hmore, rfl⟩ := Option.map_eq_some_iff.mp h
    have hsome : ∃ literal ∈ literals, Query.isReadable literal = false := by
      simpa [Predicate.isReadable] using hunreadable
    exact ⟨_, _, [], more, _, rfl, rfl, rfl, misread_of_list hliterals hsome hmore⟩
  | and left right ihleft ihright =>
    intro rest hrest kinds h
    rw [render_and] at h
    refine diverges_between rfl kinds?_conjunction ?_ h
    exact misrendered_or hqueried hunreadable ihleft ihright
  | or left right ihleft ihright =>
    intro rest hrest kinds h
    rw [render_or] at h
    refine diverges_between rfl kinds?_disjunction ?_ h
    exact misrendered_or hqueried hunreadable ihleft ihright
  | not inner ih =>
    intro rest hrest kinds h
    rw [render_not, kinds?_of_token rfl] at h
    obtain ⟨more, hmore, rfl⟩ := Option.map_eq_some_iff.mp h
    exact (ih hqueried hunreadable rest hrest more hmore).within [.negation] []
      (by simp [Predicate.kinds])

/-! ## Diverging tokens spell another predicate, if any -/

/-- Whether a literal or a list of literals comes next. -/
def Expectation.isLiterals : Expectation → Bool
  | .scalar .. | .list _ => true
  | _ => false

/-- Literals are read just where they are expected. -/
theorem isSome_literals?_of_advance {progress next : Progress} {found : TokenKind}
    (h : progress.advance? found = some next) :
    found.literals?.isSome = progress.expectation.isLiterals := by
  obtain ⟨level, outer, expectation⟩ := progress
  cases expectation <;> cases found <;> first | rfl | cases h

/-- No key follows a literal. -/
theorem advance?_key_of_literals {progress next : Progress} {found : TokenKind}
    (h : progress.advance? found = some next) (hliterals : found.literals?.isSome = true)
    (key : String) : next.advance? (.key key) = none := by
  obtain ⟨level, outer, expectation⟩ := progress
  cases found with
  | scalar literal =>
    cases expectation <;> cases h
    rfl
  | list literals =>
    cases expectation <;> cases h
    rfl
  | _ => cases hliterals

/-- Equal predicates have as many lists of literals, and the same ones. -/
theorem sameItems_of_same {left right : Predicate} (h : left.same right = true) :
    List.Forall₂ (fun items others => Value.sameItems items others = true) left.literals
      right.literals := by
  induction left generalizing right with
  | compare => cases right <;> simp_all [Predicate.same, Predicate.literals, Value.sameItems]
  | oneOf => cases right <;> simp_all [Predicate.same, Predicate.literals]
  | and _ _ ihleft ihright =>
    cases right with
    | and otherLeft otherRight =>
      obtain ⟨hleft, hright⟩ := Bool.and_eq_true_iff.mp h
      exact List.rel_append (ihleft hleft) (ihright hright)
    | _ => cases h
  | or _ _ ihleft ihright =>
    cases right with
    | or otherLeft otherRight =>
      obtain ⟨hleft, hright⟩ := Bool.and_eq_true_iff.mp h
      exact List.rel_append (ihleft hleft) (ihright hright)
    | _ => cases h
  | not inner ih =>
    cases right with
    | not other =>
      have hinner : List.Forall₂ _ inner.literals other.literals := ih h
      exact hinner
    | _ => cases h

theorem rel_of_forall₂_append_cons {α : Type} {relation : α → α → Prop}
    {front lefts rights : List α} {left right : α}
    (h : List.Forall₂ relation (front ++ left :: lefts) (front ++ right :: rights)) :
    relation left right := by
  induction front with
  | nil => exact (List.forall₂_cons.mp h).1
  | cons first front ih => exact ih (List.forall₂_cons.mp h).2

/-- **Where tokens diverge from those of a predicate they spell no equal one.** -/
theorem not_same_of_diverges {predicate other : Predicate} {kinds : List TokenKind}
    (h : Diverges predicate kinds) (hother : Sentence kinds other) :
    other.same predicate = false := by
  obtain ⟨before, expected, after, _, literals, hkinds, rfl, hliterals, hmisreads⟩ := h
  obtain ⟨found, more, rfl, hmisread⟩ := hmisreads
  have hsentence : Sentence predicate.kinds predicate :=
    .conjunction (.negation (derives_kinds predicate))
  obtain ⟨last, hfollow, -⟩ := sentence_iff.mp hsentence
  obtain ⟨otherLast, hotherFollow, -⟩ := sentence_iff.mp hother
  rw [hkinds] at hfollow
  rw [Progress.follow?_append, Option.bind_eq_some_iff] at hfollow hotherFollow
  obtain ⟨progress, hbefore, hexpected⟩ := hfollow
  obtain ⟨_, hagain, hfound⟩ := hotherFollow
  obtain rfl := Option.some.inj (hbefore.symm.trans hagain)
  rw [Progress.follow?_cons, Option.bind_eq_some_iff] at hexpected hfound
  obtain ⟨next, hexpected, -⟩ := hexpected
  obtain ⟨otherNext, hfound, hmore⟩ := hfound
  have hsome : found.literals?.isSome = true := by
    rw [isSome_literals?_of_advance hfound, ← isSome_literals?_of_advance hexpected, hliterals]
    rfl
  -- Literals are due where the tokens diverge: `found` is none, or stands before a key, or differs.
  rcases hmisread with hnone | ⟨key, rest, rfl⟩ | ⟨values, hvalues, hdiffer⟩
  · rw [hnone] at hsome
    cases hsome
  · rw [Progress.follow?_cons, advance?_key_of_literals hfound hsome] at hmore
    cases hmore
  · cases hsame : other.same predicate with
    | false => rfl
    | true =>
      have hall := sameItems_of_same hsame
      rw [← literals_of_derives hsentence, ← literals_of_derives hother, hkinds,
        List.filterMap_append, List.filterMap_append, List.filterMap_cons_some hvalues,
        List.filterMap_cons_some hliterals] at hall
      have hitems := rel_of_forall₂_append_cons hall
      cases hdiffer.symm.trans hitems

/-- **Only a predicate with readable literals is read back from its text.** -/
theorem parse_render_iff {query : String} {predicate : Predicate}
    (h : parse query = .ok predicate) :
    ((∃ other, parse predicate.render = .ok other ∧ other.same predicate = true) ↔
      predicate.isReadable = true) ∧
    (predicate.isReadable = true → parse predicate.render = .ok predicate) := by
  obtain ⟨kinds, hkinds, hsentence, hkeys⟩ := parse_eq_ok_iff.mp h
  have hqueried := queried_of_derives hsentence (fun _ => wellSpelled_of_kinds hkinds) hkeys
  have hrendered : Sentence predicate.kinds predicate :=
    .conjunction (.negation (derives_kinds predicate))
  have hback (hreadable : predicate.isReadable = true) :
      parse predicate.render = .ok predicate := by
    refine parse_eq_ok_iff.mpr ⟨predicate.kinds, ?_, hrendered, fun key hkey => hkeys key ?_⟩
    · have htokens := hasKinds_of_isReadable hqueried hreadable [] boundary_nil
      rw [List.append_nil] at htokens
      rw [htokens, kinds?_nil]
      simp
    · rw [key_mem_of_derives hsentence, ← key_mem_of_derives hrendered]
      exact hkey
  refine ⟨⟨?_, fun hreadable => ⟨predicate, hback hreadable, predicate.same_refl⟩⟩, hback⟩
  rintro ⟨other, hother, hsame⟩
  cases hreadable : predicate.isReadable with
  | true => rfl
  | false =>
    obtain ⟨otherKinds, hotherKinds, hotherSentence, -⟩ := parse_eq_ok_iff.mp hother
    rw [← List.append_nil predicate.render.toList] at hotherKinds
    have hdiverges := misrendered_of_unreadable hqueried hreadable [] boundary_nil _ hotherKinds
    rw [not_same_of_diverges hdiverges hotherSentence] at hsame
    cases hsame

/-- Spellings of numbers and truth values that the text of a predicate does not have. -/
theorem parse_render_of_mixed_atoms :
    ∃ predicate,
      parse "~config.a == -1.50 & (info.b in ['x', TRUE, .25] | config.c <= \"y z\")" =
        .ok predicate ∧
      predicate.isReadable = true ∧ parse predicate.render = .ok predicate := by
  have hparse :
      parse "~config.a == -1.50 & (info.b in ['x', TRUE, .25] | config.c <= \"y z\")" = .ok
        (.and (.not (.compare "config.a" .equal (.float (.ofDecimal true 150 (-2)))))
          (.or (.oneOf "info.b" [.str "x", .bool true, .float (.ofDecimal false 25 (-2))])
            (.compare "config.c" .lessEqual (.str "y z")))) := by
    rfl
  have hreadable := (parse_render_iff hparse).2 (by decide +kernel)
  exact ⟨_, hparse, by decide +kernel, hreadable⟩

/-- A text with a single quote inside is written between single quotes, where it ends too
early. -/
theorem not_forall_parse_render :
    ¬ ∀ query predicate, parse query = .ok predicate →
      ∃ other, parse predicate.render = .ok other ∧ other.same predicate = true := by
  intro hall
  have hparse : parse "config.name == \"it's\"" =
      .ok (.compare "config.name" .equal (.str "it's")) := by rfl
  obtain ⟨other, hother, -⟩ := hall _ _ hparse
  have hrender : (Predicate.compare "config.name" .equal (.str "it's")).render =
      "config.name == 'it's'" := by rfl
  have hrejected : (parse "config.name == 'it's'").toOption.isNone = true := by rfl
  rw [hrender] at hother
  rw [hother] at hrejected
  cases hrejected

end Query

end Logbook
