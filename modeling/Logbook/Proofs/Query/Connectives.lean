import Logbook.Proofs.Query.Render
import Logbook.Proofs.Query.Scanning

/-!
# Connectives in the text of a predicate

The text of a predicate has parentheses around every connective of two conditions and a sign in
front of every negated one.  So only atoms can keep it from being read back: if the text of each
atom alone is read as an atom equal to it, the whole text is read as a predicate equal to the whole
(`readsBack_of_atoms`).  Nothing is assumed of the keys and literals of the atoms but that.

## Strategy

What is read of a text that is free of faults stays the same where a blank, a connective or a
parenthesis stands behind it (`kinds?_append`).  The tokens of an atom's text are an operand,
because a sentence for an atom joins nothing (`derives_of_isAtom`).  Both are kept by every
connective (`ReadsAs`), with parentheses where a connective of two conditions is to become an
operand itself.
-/

namespace Logbook

namespace Predicate

/-- The comparisons and memberships that a predicate joins, from left to right. -/
def atoms : Predicate → List Predicate
  | compare key comparison literal => [.compare key comparison literal]
  | oneOf key literals => [.oneOf key literals]
  | and left right => left.atoms ++ right.atoms
  | or left right => left.atoms ++ right.atoms
  | not inner => inner.atoms

/-- Whether a predicate is a comparison or a membership. -/
def isAtom : Predicate → Bool
  | compare .. | oneOf .. => true
  | _ => false

theorem isAtom_of_same {left right : Predicate} (h : left.same right = true)
    (hright : right.isAtom = true) : left.isAtom = true := by
  cases left <;> cases right <;> first | rfl | cases h | cases hright

end Predicate

namespace Query

/-! ## More text behind -/

/-- An item that has been read is read the same with more text behind. -/
theorem listItem_append {rest : List Char} (h : Boundary rest) {input left : List Char}
    {item : Value} (hitem : listItem input = .ok (item, left)) :
    listItem (input ++ rest) = .ok (item, left ++ rest) := by
  cases input with
  | nil => cases hitem
  | cons c input =>
    have hclosed (hquote : (c == '\'' || c == '"') = true) : c ∈ input := by
      rw [listItem_text hquote] at hitem
      obtain ⟨content, hcontent, -⟩ := map_eq_ok.mp hitem
      rw [(text_eq_ok hcontent).1]
      simp
    rw [List.cons_append, listItem_behind h hclosed, hitem]
    rfl

/-- A list that is closed is read the same with more text behind. -/
theorem items?_append {rest : List Char} (h : Boundary rest) {expectItem : Bool}
    {items values : List Value} {input left : List Char}
    (hread : items? expectItem items input = some (values, left)) :
    items? expectItem items (input ++ rest) = some (values, left ++ rest) := by
  induction hlength : input.length using Nat.strongRecOn generalizing expectItem items input with
  | ind length ih =>
    subst hlength
    cases input with
    | nil => cases hread
    | cons c input =>
      have hshort := Nat.lt_succ_self input.length
      rw [items?_cons] at hread
      rw [List.cons_append, items?_cons]
      split_ifs at hread ⊢
      · exact ih _ hshort hread rfl
      · obtain ⟨rfl, rfl⟩ := Prod.mk.inj (Option.some.inj hread)
        rfl
      · exact ih _ hshort hread rfl
      · cases hitem : listItem (c :: input) with
        | error fault =>
          rw [hitem] at hread
          cases hread
        | ok pair =>
          have hlonger := listItem_append h hitem
          rw [hitem] at hread
          rw [List.cons_append] at hlonger
          rw [hlonger]
          exact ih _ (listItem_length hitem) hread rfl

/-- A token that has been read is read the same with more text behind. -/
theorem tokenFrom_append {rest : List Char} (h : Stop rest) {c : Char} {front left : List Char}
    {kind : TokenKind} (htoken : tokenFrom c front = .ok (kind, left)) :
    (tokenFrom c (front ++ rest)).toOption = some (kind, left ++ rest) := by
  by_cases hlist : c = '['
  · subst hlist
    have hitems := toOption_tokenFrom_list front
    rw [htoken] at hitems
    obtain ⟨⟨values, after⟩, hread, hpair⟩ := Option.map_eq_some_iff.mp hitems.symm
    obtain ⟨rfl, rfl⟩ := Prod.mk.inj hpair
    rw [toOption_tokenFrom_list, items?_append h.boundary hread]
    rfl
  · have hclosed (hquote : (c == '\'' || c == '"') = true) : c ∈ front := by
      rw [tokenFrom_text hquote] at htoken
      obtain ⟨content, hcontent, -⟩ :=
        (map_eq_ok (f := fun content => TokenKind.scalar (.str content))).mp htoken
      rw [(text_eq_ok hcontent).1]
      simp
    rw [tokenFrom_behind h hlist hclosed, htoken]
    rfl

/-- **A text without faults has its tokens also where more text stands behind it.** -/
theorem kinds?_append {front rest : List Char} {kinds : List TokenKind}
    (hfront : kinds? front = some kinds) (hrest : Stop rest) :
    kinds? (front ++ rest) = (kinds? rest).map (kinds ++ ·) := by
  induction hlength : front.length using Nat.strongRecOn generalizing front kinds with
  | ind length ih =>
    subst hlength
    cases front with
    | nil =>
      obtain rfl := Option.some.inj hfront
      simp
    | cons c front =>
      cases hc : isSeparator c with
      | true =>
        rw [kinds?_separator hc] at hfront
        rw [List.cons_append, kinds?_separator hc]
        exact ih _ (Nat.lt_succ_self _) hfront rfl
      | false =>
        obtain ⟨kind, left, more, htoken, hmore, rfl⟩ := (kinds?_cons_eq_some hc).mp hfront
        have hleft := Nat.lt_succ_of_le (tokenFrom_spec htoken).1
        rw [List.cons_append, kinds?_token hc, tokenFrom_append hrest htoken, Option.bind_some]
        dsimp only
        rw [ih _ hleft hmore rfl, Option.map_map]
        rfl

/-! ## Operands -/

/-- The tokens of an atom, with or without parentheses, are an operand. -/
theorem derives_of_isAtom {kinds : List TokenKind} {atom : Predicate} (hatom : atom.isAtom = true)
    (h : Sentence kinds atom) : Derives .negation kinds atom := by
  cases h with
  | conjunction h =>
    cases h with
    | negation h => exact h
    | and _ _ => cases hatom
  | or _ _ => cases hatom

/-- Where nothing goes on behind it, the text of a predicate is read as an operand that is the
other predicate. -/
structure ReadsAs (predicate other : Predicate) (kinds : List TokenKind) : Prop where
  derives : Derives .negation kinds other
  searchable (key : String) (h : .key key ∈ kinds) : Key.isSearchable key = true
  kinds_eq (rest : List Char) (h : Stop rest) :
    kinds? (predicate.render.toList ++ rest) = (kinds? rest).map (kinds ++ ·)

theorem stop_nil : Stop [] := ⟨boundary_nil, nofun⟩

theorem stop_space (rest : List Char) : Stop (' ' :: rest) := ⟨boundary_space rest, by simp⟩

theorem stop_closing (rest : List Char) : Stop (')' :: rest) :=
  ⟨boundary_of_head (by decide) rest, by simp⟩

theorem readsAs_of_parse {atom read : Predicate} (h : parse atom.render = .ok read)
    (hatom : read.isAtom = true) : ∃ kinds, ReadsAs atom read kinds := by
  obtain ⟨kinds, hkinds, hsentence, hkeys⟩ := parse_eq_ok_iff.mp h
  exact ⟨kinds, derives_of_isAtom hatom hsentence, hkeys, fun _ => kinds?_append hkinds⟩

theorem ReadsAs.not {inner other : Predicate} {kinds : List TokenKind}
    (h : ReadsAs inner other kinds) : ReadsAs (.not inner) (.not other) (.negation :: kinds) where
  derives := h.derives.not
  searchable key hkey := h.searchable key (by simpa using hkey)
  kinds_eq rest hrest := by
    rw [render_not, kinds?_of_token rfl, h.kinds_eq rest hrest, Option.map_map]
    rfl

section Between

variable {left right otherLeft otherRight : Predicate} {lefts rights : List TokenKind}

theorem ReadsAs.searchable_between (hleft : ReadsAs left otherLeft lefts)
    (hright : ReadsAs right otherRight rights) {connective : TokenKind}
    (hconnective : ∀ key, connective ≠ .key key) (key : String)
    (h : .key key ∈ .opening :: (lefts ++ connective :: rights ++ [.closing])) :
    Key.isSearchable key = true := by
  have hkey : .key key ∈ lefts ∨ .key key ∈ rights := by
    simpa [(hconnective key).symm] using h
  exact hkey.elim (hleft.searchable key) (hright.searchable key)

theorem ReadsAs.and (hleft : ReadsAs left otherLeft lefts)
    (hright : ReadsAs right otherRight rights) :
    ReadsAs (.and left right) (.and otherLeft otherRight)
      (.opening :: (lefts ++ .conjunction :: rights ++ [.closing])) where
  derives := .primary (.parentheses (.conjunction (.and (.negation hleft.derives) hright.derives)))
  searchable := hleft.searchable_between hright nofun
  kinds_eq rest _ := by
    rw [render_and]
    exact kinds?_parentheses kinds?_conjunction (fun rest => hleft.kinds_eq _ (stop_space rest))
      (fun rest => hright.kinds_eq _ (stop_closing rest)) rest

theorem ReadsAs.or (hleft : ReadsAs left otherLeft lefts)
    (hright : ReadsAs right otherRight rights) :
    ReadsAs (.or left right) (.or otherLeft otherRight)
      (.opening :: (lefts ++ .disjunction :: rights ++ [.closing])) where
  derives := .primary (.parentheses
    (.or (.conjunction (.negation hleft.derives)) (.negation hright.derives)))
  searchable := hleft.searchable_between hright nofun
  kinds_eq rest _ := by
    rw [render_or]
    exact kinds?_parentheses kinds?_disjunction (fun rest => hleft.kinds_eq _ (stop_space rest))
      (fun rest => hright.kinds_eq _ (stop_closing rest)) rest

end Between

/-- An operand that is alone is the whole query. -/
theorem ReadsAs.parse_render {predicate other : Predicate} {kinds : List TokenKind}
    (h : ReadsAs predicate other kinds) : parse predicate.render = .ok other := by
  have hkinds := h.kinds_eq [] stop_nil
  rw [List.append_nil, kinds?_nil, Option.map_some, List.append_nil] at hkinds
  exact parse_eq_ok_iff.mpr ⟨kinds, hkinds, .conjunction (.negation h.derives), h.searchable⟩

/-- The text of a predicate is accepted, and the predicate that it gives is equal to it. -/
def ReadsBack (predicate : Predicate) : Prop :=
  ∃ read, parse predicate.render = .ok read ∧ read.same predicate = true

theorem ReadsBack.readsAs {atom : Predicate} (h : ReadsBack atom) (hatom : atom.isAtom = true) :
    ∃ other kinds, other.same atom = true ∧ ReadsAs atom other kinds := by
  obtain ⟨read, hparse, hsame⟩ := h
  obtain ⟨kinds, hreads⟩ := readsAs_of_parse hparse (Predicate.isAtom_of_same hsame hatom)
  exact ⟨read, kinds, hsame, hreads⟩

theorem exists_readsAs {predicate : Predicate} (h : ∀ atom ∈ predicate.atoms, ReadsBack atom) :
    ∃ other kinds, other.same predicate = true ∧ ReadsAs predicate other kinds := by
  induction predicate with
  | compare key comparison literal => exact (h _ (List.mem_singleton_self _)).readsAs rfl
  | oneOf key literals => exact (h _ (List.mem_singleton_self _)).readsAs rfl
  | and left right ihleft ihright =>
    obtain ⟨hatomsLeft, hatomsRight⟩ := List.forall_mem_append.mp h
    obtain ⟨otherLeft, lefts, hsameLeft, hleft⟩ := ihleft hatomsLeft
    obtain ⟨otherRight, rights, hsameRight, hright⟩ := ihright hatomsRight
    exact ⟨.and otherLeft otherRight, _, Bool.and_eq_true_iff.mpr ⟨hsameLeft, hsameRight⟩,
      hleft.and hright⟩
  | or left right ihleft ihright =>
    obtain ⟨hatomsLeft, hatomsRight⟩ := List.forall_mem_append.mp h
    obtain ⟨otherLeft, lefts, hsameLeft, hleft⟩ := ihleft hatomsLeft
    obtain ⟨otherRight, rights, hsameRight, hright⟩ := ihright hatomsRight
    exact ⟨.or otherLeft otherRight, _, Bool.and_eq_true_iff.mpr ⟨hsameLeft, hsameRight⟩,
      hleft.or hright⟩
  | not inner ih =>
    obtain ⟨other, kinds, hsame, hreads⟩ := ih h
    exact ⟨.not other, _, hsame, hreads.not⟩

/-- **A predicate is read back from its text if each of its atoms is.** -/
theorem readsBack_of_atoms {predicate : Predicate}
    (h : ∀ atom ∈ predicate.atoms, ReadsBack atom) : ReadsBack predicate := by
  obtain ⟨other, kinds, hsame, hreads⟩ := exists_readsAs h
  exact ⟨other, hreads.parse_render, hsame⟩

/-- Two negations, a chain to the right, and both connectives inside each other. -/
theorem readsBack_of_nested_connectives :
    let first : Predicate := .compare "config.lr" .less (.float (.ofDecimal false 5 (-1)))
    let second : Predicate := .oneOf "info.status" [.str "(a | b)", .bool true]
    let third : Predicate := .compare "config.seed" .notEqual (.int (-7))
    let predicate : Predicate := .not (.not (.and first (.and (.or second (.not third)) third)))
    predicate.render = "~~(config.lr < 0.5 & ((info.status in ['(a | b)', true] | " ++
        "~config.seed != -7) & config.seed != -7))" ∧
      (∀ atom ∈ predicate.atoms, ReadsBack atom) ∧ ReadsBack predicate := by
  intro first second third predicate
  have hback (atom : Predicate) (text : String) (hrender : atom.render = text)
      (hparse : parse text = .ok atom) : ReadsBack atom :=
    ⟨atom, hrender ▸ hparse, atom.same_refl⟩
  have hfirst := hback first "config.lr < 0.5" (by decide +kernel) (by rfl)
  have hsecond := hback second "info.status in ['(a | b)', true]" (by decide +kernel) (by rfl)
  have hthird := hback third "config.seed != -7" (by decide +kernel) (by rfl)
  have hatoms : ∀ atom ∈ predicate.atoms, ReadsBack atom := by
    have hparts : predicate.atoms = [first, second, third, third] := rfl
    rw [hparts]
    simp [hfirst, hsecond, hthird]
  exact ⟨by decide +kernel, hatoms, readsBack_of_atoms hatoms⟩

end Query

end Logbook
