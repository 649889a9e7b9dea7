import Logbook.Json.Reader
import Logbook.Proofs.Json.Token

/-!
# Printed documents are read back

A document is printed over several lines, and what is read from there is the document with
each double as its digits are read, as long as it is not nested too deep (`Json.read_pretty`).
Its numbers have to be such as a reader gives: integers of 64 bits and finite doubles.  Reading
rounds twice, so some doubles come back as a neighbour; the document itself is read exactly if
it has none of these (`Json.read_pretty_iff`).

## Strategy

The tokens and the draft of a document are given by recursion on the document.  Each of the
three stages of reading, to tokens, to a draft and to a document, is inverted by a lemma for
documents together with one for the items of arrays and one for the members of objects.
-/

namespace Logbook

namespace Json

open Decimal FloatStyle

/-! ## Shapes of documents -/

mutual

/-- All numbers are integers of 64 bits or finite doubles. -/
def Exact : Json → Prop
  | integer number => Integer.fits64 number = true
  | float number => number.isFinite = true
  | array items => ExactItems items
  | object members => ExactMembers members
  | _ => True

def ExactItems : List Json → Prop
  | [] => True
  | item :: items => item.Exact ∧ ExactItems items

def ExactMembers : List (String × Json) → Prop
  | [] => True
  | (_, value) :: members => value.Exact ∧ ExactMembers members

end

mutual

/-- How deep arrays and objects are nested. -/
def nesting : Json → Nat
  | array items => nestingOfItems items + 1
  | object members => nestingOfMembers members + 1
  | _ => 0

def nestingOfItems : List Json → Nat
  | [] => 0
  | item :: items => max item.nesting (nestingOfItems items)

def nestingOfMembers : List (String × Json) → Nat
  | [] => 0
  | (_, value) :: members => max value.nesting (nestingOfMembers members)

end

/-- The numeral of a double, as long as it is finite. -/
def numeralOfDouble : Binary64 → Numeral
  | .finite negative mantissa exponent _ =>
      numeralOfDecimal negative (Binary64.shortest .even mantissa exponent)
  | _ => numeralOfInteger 0

/-- What the digits of a double are read as; none if that is too large for a double. -/
def readBack? (number : Binary64) : Option Binary64 := (numeralOfDouble number).double?

mutual

/-- Whether the digits of all doubles can be read. -/
def isLegible : Json → Bool
  | float number => (readBack? number).isSome
  | array items => itemsAreLegible items
  | object members => membersAreLegible members
  | _ => true

def itemsAreLegible : List Json → Bool
  | [] => true
  | item :: items => item.isLegible && itemsAreLegible items

def membersAreLegible : List (String × Json) → Bool
  | [] => true
  | (_, value) :: members => value.isLegible && membersAreLegible members

end

mutual

/-- Whether all doubles are what their digits are read as. -/
def isFaithful : Json → Bool
  | float number => decide (readBack? number = some number)
  | array items => itemsAreFaithful items
  | object members => membersAreFaithful members
  | _ => true

def itemsAreFaithful : List Json → Bool
  | [] => true
  | item :: items => item.isFaithful && itemsAreFaithful items

def membersAreFaithful : List (String × Json) → Bool
  | [] => true
  | (_, value) :: members => value.isFaithful && membersAreFaithful members

end

mutual

/-- The document with each double as its digits are read. -/
def reread : Json → Json
  | float number => float ((readBack? number).getD number)
  | array items => array (rereadItems items)
  | object members => object (rereadMembers members)
  | document => document

def rereadItems : List Json → List Json
  | [] => []
  | item :: items => item.reread :: rereadItems items

def rereadMembers : List (String × Json) → List (String × Json)
  | [] => []
  | (key, value) :: members => (key, value.reread) :: rereadMembers members

end

mutual

def tokens : Json → List Token
  | null => [.null]
  | bool truth => [.bool truth]
  | integer number => [.number (numeralOfInteger number)]
  | float number => [.number (numeralOfDouble number)]
  | string text => [.string (pieces text)]
  | array [] => [.openArray, .closeArray]
  | array (item :: items) => .openArray :: (item.tokens ++ (tokensOfItems items ++ [.closeArray]))
  | object [] => [.openObject, .closeObject]
  | object ((key, value) :: members) =>
      .openObject :: .string (pieces key) :: .colon ::
        (value.tokens ++ (tokensOfMembers members ++ [.closeObject]))

/-- The tokens of the items after the first. -/
def tokensOfItems : List Json → List Token
  | [] => []
  | item :: items => .comma :: (item.tokens ++ tokensOfItems items)

/-- The tokens of the members after the first. -/
def tokensOfMembers : List (String × Json) → List Token
  | [] => []
  | (key, value) :: members =>
      .comma :: .string (pieces key) :: .colon :: (value.tokens ++ tokensOfMembers members)

end

mutual

def draft : Json → Draft
  | null => .null
  | bool truth => .bool truth
  | integer number => .number (numeralOfInteger number)
  | float number => .number (numeralOfDouble number)
  | string text => .string (pieces text)
  | array items => .array (draftOfItems items)
  | object members => .object (draftOfMembers members)

def draftOfItems : List Json → List Draft
  | [] => []
  | item :: items => item.draft :: draftOfItems items

def draftOfMembers : List (String × Json) → List (List Piece × Draft)
  | [] => []
  | (key, value) :: members => (pieces key, value.draft) :: draftOfMembers members

end

/-! ## From the text to tokens -/

theorem stops_cons {c : Char} (h : c.isDigit = false ∧ c ≠ '.' ∧ c ≠ 'e' ∧ c ≠ 'E')
    (rest : List Char) : Stops (c :: rest) := by
  rintro d ⟨⟩
  exact h

theorem stops_newLine (level : Nat) (rest : List Char) : Stops (newLine level ++ rest) :=
  stops_cons (by decide) _

theorem lexed_float {number : Binary64} (hfinite : number.isFinite = true) {rest : List Char}
    (h : Stops rest) :
    Lexed ((number.render .json).toList ++ rest) [.number (numeralOfDouble number)] rest := by
  cases number with
  | nan => cases hfinite
  | infinite => cases hfinite
  | finite negative mantissa exponent hcanonical =>
    have hnumeral := (numeral?_decimal negative (Binary64.shortest_zero .even hcanonical) h).1
    have hne : FloatStyle.json.decimal (Binary64.shortest .even mantissa exponent) ≠ [] := by
      unfold FloatStyle.decimal plain scientific
      dsimp only
      split_ifs <;> simp
    rw [render_finite]
    exact lexed_number hne hnumeral

theorem lexed_integer (number : Int) {rest : List Char} (h : Stops rest) :
    Lexed (number.repr.toList ++ rest) [.number (numeralOfInteger number)] rest := by
  rw [repr_toList]
  exact lexed_number Nat.toDigits_ne_nil (numeral?_integer number h)

theorem lexed_mark {c : Char} {token : Token} (hspace : isSpace c = false)
    (h : ∀ rest, token? c rest = some (token, rest)) (rest : List Char) :
    Lexed (c :: rest) [token] rest :=
  lexed_token hspace (h rest) le_rfl

theorem lexed_null (rest : List Char) : Lexed ("null".toList ++ rest) [.null] rest := by
  show Lexed ('n' :: 'u' :: 'l' :: 'l' :: rest) _ rest
  refine lexed_token rfl rfl ?_
  simp only [List.length_cons]
  omega

theorem lexed_bool (truth : Bool) (rest : List Char) :
    Lexed ((if truth then "true" else "false").toList ++ rest) [.bool truth] rest := by
  cases truth with
  | true =>
    show Lexed ('t' :: 'r' :: 'u' :: 'e' :: rest) _ rest
    refine lexed_token rfl rfl ?_
    simp only [List.length_cons]
    omega
  | false =>
    show Lexed ('f' :: 'a' :: 'l' :: 's' :: 'e' :: rest) _ rest
    refine lexed_token rfl rfl ?_
    simp only [List.length_cons]
    omega

/-- The key of a member with the colon behind it. -/
theorem lexed_key (key : String) (rest : List Char) :
    Lexed (quote key ++ ':' :: ' ' :: rest) [.string (pieces key), .colon] rest := by
  have hcolon := lexed_mark (c := ':') rfl (fun _ => rfl) (' ' :: rest)
  exact ((lexed_quote key _).trans hcolon).trans (lexed_space rfl rest)

theorem stops_prettyItems (level : Nat) (items : List Json) {rest : List Char} (h : Stops rest) :
    Stops (prettyItems level items ++ rest) := by
  cases items with
  | nil => exact h
  | cons item items => exact stops_cons (by decide) _

theorem stops_prettyMembers (level : Nat) (members : List (String × Json)) {rest : List Char}
    (h : Stops rest) : Stops (prettyMembers level members ++ rest) := by
  cases members with
  | nil => exact h
  | cons member members => exact stops_cons (by decide) _

mutual

/-- A printed document is read as its tokens. -/
theorem lexed_prettyChars (level : Nat) (document : Json) (hexact : document.Exact)
    {rest : List Char} (h : Stops rest) :
    Lexed (document.prettyChars level ++ rest) document.tokens rest := by
  cases document with
  | null => exact lexed_null rest
  | bool truth =>
    rw [prettyChars, tokens]
    exact lexed_bool truth rest
  | integer number =>
    rw [prettyChars, tokens]
    exact lexed_integer number h
  | float number =>
    rw [prettyChars, tokens]
    exact lexed_float hexact h
  | string text =>
    rw [prettyChars, tokens]
    exact lexed_quote text rest
  | array items =>
    have hopen := lexed_mark (c := '[') rfl fun _ => rfl
    have hclose := lexed_mark (c := ']') rfl (fun _ => rfl) rest
    cases items with
    | nil => exact (hopen _).trans hclose
    | cons item items =>
      obtain ⟨hitem, hitems⟩ := hexact
      simp only [prettyChars, tokens, List.append_assoc, List.cons_append, List.nil_append]
      -- Behind the items stands a line end, where no number goes on.
      have hend := stops_newLine level (']' :: rest)
      have hfirst :=
        lexed_prettyChars (level + 1) item hitem (stops_prettyItems (level + 1) items hend)
      have hmore := lexed_prettyItems (level + 1) items hitems hend
      exact (hopen _).trans ((lexed_newLine _ _).trans
        (hfirst.trans (hmore.trans ((lexed_newLine _ _).trans hclose))))
  | object members =>
    have hopen := lexed_mark (c := '\x7b') rfl fun _ => rfl
    have hclose := lexed_mark (c := '\x7d') rfl (fun _ => rfl) rest
    cases members with
    | nil => exact (hopen _).trans hclose
    | cons member members =>
      obtain ⟨key, value⟩ := member
      obtain ⟨hvalue, hmembers⟩ := hexact
      simp only [prettyChars, tokens, List.append_assoc, List.cons_append, List.nil_append]
      have hend := stops_newLine level ('\x7d' :: rest)
      have hfirst :=
        lexed_prettyChars (level + 1) value hvalue (stops_prettyMembers (level + 1) members hend)
      have hmore := lexed_prettyMembers (level + 1) members hmembers hend
      exact (hopen _).trans ((lexed_newLine _ _).trans ((lexed_key key _).trans
        (hfirst.trans (hmore.trans ((lexed_newLine _ _).trans hclose)))))

theorem lexed_prettyItems (level : Nat) (items : List Json) (hexact : ExactItems items)
    {rest : List Char} (h : Stops rest) :
    Lexed (prettyItems level items ++ rest) (tokensOfItems items) rest := by
  cases items with
  | nil => exact Lexed.refl rest
  | cons item items =>
    obtain ⟨hitem, hitems⟩ := hexact
    simp only [prettyItems, tokensOfItems, List.append_assoc, List.cons_append]
    have hcomma := lexed_mark (c := ',') rfl fun _ => rfl
    have hfirst := lexed_prettyChars level item hitem (stops_prettyItems level items h)
    have hmore := lexed_prettyItems level items hitems h
    exact (hcomma _).trans ((lexed_newLine _ _).trans (hfirst.trans hmore))

theorem lexed_prettyMembers (level : Nat) (members : List (String × Json))
    (hexact : ExactMembers members) {rest : List Char} (h : Stops rest) :
    Lexed (prettyMembers level members ++ rest) (tokensOfMembers members) rest := by
  cases members with
  | nil => exact Lexed.refl rest
  | cons member members =>
    obtain ⟨key, value⟩ := member
    obtain ⟨hvalue, hmembers⟩ := hexact
    simp only [prettyMembers, tokensOfMembers, List.append_assoc, List.cons_append]
    have hcomma := lexed_mark (c := ',') rfl fun _ => rfl
    have hfirst := lexed_prettyChars level value hvalue (stops_prettyMembers level members h)
    have hmore := lexed_prettyMembers level members hmembers h
    exact (hcomma _).trans ((lexed_newLine _ _).trans ((lexed_key key _).trans
      (hfirst.trans hmore)))

end

/-! ## From tokens to the draft -/

/-- No document begins with the end of an array. -/
theorem tokens_ne_closeArray (document : Json) (rest more : List Token) :
    document.tokens ++ rest ≠ .closeArray :: more := by
  rcases document with _ | _ | _ | _ | _ | (_ | ⟨_, _⟩) | (_ | ⟨_, _⟩) <;> simp [tokens]

theorem ofTokens?_openArray {rest : List Token} (h : ∀ more, rest ≠ .closeArray :: more)
    (frames : List Draft.Frame) :
    Draft.ofTokens? none frames (.openArray :: rest) =
      Draft.ofTokens? none (.array [] :: frames) rest := by
  cases rest with
  | nil => rfl
  | cons token rest =>
    cases token with
    | closeArray => exact absurd rfl (h rest)
    | _ => rfl

mutual

/-- The tokens of a document are read as its draft, wherever they stand. -/
theorem ofTokens?_tokens (document : Json) (frames : List Draft.Frame) (rest : List Token) :
    Draft.ofTokens? none frames (document.tokens ++ rest) =
      Draft.ofTokens? (some document.draft) frames rest := by
  cases document with
  | null => rfl
  | bool truth => rfl
  | integer number => rfl
  | float number => rfl
  | string text => rfl
  | array items =>
    cases items with
    | nil => rfl
    | cons item items =>
      simp only [tokens, List.cons_append, List.append_assoc, List.nil_append]
      rw [ofTokens?_openArray (tokens_ne_closeArray item _), ofTokens?_tokens item,
        ofTokens?_tokensOfItems items]
      rfl
  | object members =>
    cases members with
    | nil => rfl
    | cons member members =>
      obtain ⟨key, value⟩ := member
      simp only [tokens, List.cons_append, List.append_assoc, List.nil_append]
      show Draft.ofTokens? none (.object [] (pieces key) :: frames) _ = _
      rw [ofTokens?_tokens value, ofTokens?_tokensOfMembers members]
      rfl

theorem ofTokens?_tokensOfItems (items : List Json) (last : Draft) (before : List Draft)
    (frames : List Draft.Frame) (rest : List Token) :
    Draft.ofTokens? (some last) (.array before :: frames)
        (tokensOfItems items ++ .closeArray :: rest) =
      Draft.ofTokens? (some (.array ((last :: before).reverse ++ draftOfItems items)))
        frames rest := by
  cases items with
  | nil =>
    rw [draftOfItems, List.append_nil]
    rfl
  | cons item items =>
    simp only [tokensOfItems, List.cons_append, List.append_assoc]
    show Draft.ofTokens? none (.array (last :: before) :: frames) _ = _
    rw [ofTokens?_tokens item, ofTokens?_tokensOfItems items, draftOfItems]
    simp

theorem ofTokens?_tokensOfMembers (members : List (String × Json)) (last : Draft)
    (before : List (List Piece × Draft)) (key : List Piece)
    (frames : List Draft.Frame) (rest : List Token) :
    Draft.ofTokens? (some last) (.object before key :: frames)
        (tokensOfMembers members ++ .closeObject :: rest) =
      Draft.ofTokens? (some (.object (((key, last) :: before).reverse ++ draftOfMembers members)))
        frames rest := by
  cases members with
  | nil =>
    rw [draftOfMembers, List.append_nil]
    rfl
  | cons member members =>
    obtain ⟨next, value⟩ := member
    simp only [tokensOfMembers, List.cons_append, List.append_assoc]
    show Draft.ofTokens? none (.object ((key, last) :: before) (pieces next) :: frames) _ = _
    rw [ofTokens?_tokens value, ofTokens?_tokensOfMembers members, draftOfMembers]
    simp

end

/-- The text of a document is read as its draft, however deep it is nested. -/
theorem read_draft {document : Json} (hexact : document.Exact) :
    Draft.read document.pretty = some document.draft := by
  have hlexed : Lexed document.pretty.toList document.tokens [] := by
    have h := lexed_prettyChars 0 document hexact stops_nil
    rwa [List.append_nil, ← String.toList_ofList (l := document.prettyChars 0)] at h
  have hdraft := ofTokens?_tokens document [] []
  rw [List.append_nil] at hdraft
  rw [Draft.read, tokens?_of_lexed hlexed, Option.bind_some, hdraft]
  rfl

/-! ## From the draft to the document -/

theorem text?_pieces (text : String) : text? (pieces text) = some text := by
  rw [text?, pieces, chars?_map_piece, Option.map_some, String.ofList_toList]

theorem value?_numeralOfDouble {number : Binary64} (hfinite : number.isFinite = true) :
    (numeralOfDouble number).value? = (readBack? number).map .float := by
  cases number with
  | nan => cases hfinite
  | infinite => cases hfinite
  | finite negative mantissa exponent hcanonical =>
    exact value?_numeralOfDecimal negative (Binary64.shortest_zero .even hcanonical)

/-- What is asked of a first part and of the rest, part by part. -/
theorem max_le_and_iff {first rest depth : Nat} {left right : Bool} :
    max first rest ≤ depth ∧ (left && right) = true ↔
      (first ≤ depth ∧ left = true) ∧ rest ≤ depth ∧ right = true := by
  rw [Nat.max_le, Bool.and_eq_true]
  exact and_and_and_comm

mutual

/-- A draft gives its document with the doubles that are read, as long as all can be read and
the document may nest so deep. -/
theorem resolve?_draft (document : Json) (hexact : document.Exact) (depth : Nat) :
    document.draft.resolve? depth =
      if document.nesting ≤ depth ∧ document.isLegible = true then some document.reread
      else none := by
  cases document with
  | null => exact (if_pos ⟨Nat.zero_le depth, rfl⟩).symm
  | bool truth => exact (if_pos ⟨Nat.zero_le depth, rfl⟩).symm
  | integer number =>
    exact (value?_numeralOfInteger hexact).trans (if_pos ⟨Nat.zero_le depth, rfl⟩).symm
  | float number =>
    refine (value?_numeralOfDouble hexact).trans ?_
    rw [isLegible, reread]
    cases readBack? number <;> simp [nesting]
  | string text =>
    show (text? (pieces text)).map _ = _
    rw [text?_pieces]
    exact (if_pos ⟨Nat.zero_le depth, rfl⟩).symm
  | array items =>
    have hitems := resolveItems?_draft items hexact
    rw [draft, Draft.resolve?, nesting, isLegible, reread]
    cases depth with
    | zero => simp
    | succ depth =>
      rw [if_neg (by simp), Nat.add_sub_cancel, hitems]
      simp only [Nat.add_le_add_iff_right]
      split <;> rfl
  | object members =>
    have hmembers := resolveMembers?_draft members hexact
    rw [draft, Draft.resolve?, nesting, isLegible, reread]
    cases depth with
    | zero => simp
    | succ depth =>
      rw [if_neg (by simp), Nat.add_sub_cancel, hmembers]
      simp only [Nat.add_le_add_iff_right]
      split <;> rfl

theorem resolveItems?_draft (items : List Json) (hexact : ExactItems items) (depth : Nat) :
    Draft.resolveItems? depth (draftOfItems items) =
      if nestingOfItems items ≤ depth ∧ itemsAreLegible items = true then some (rereadItems items)
      else none := by
  cases items with
  | nil => exact (if_pos ⟨Nat.zero_le depth, rfl⟩).symm
  | cons item items =>
    obtain ⟨hitem, hitems⟩ := hexact
    rw [draftOfItems, Draft.resolveItems?, resolve?_draft item hitem,
      resolveItems?_draft items hitems, nestingOfItems, itemsAreLegible, rereadItems]
    simp only [max_le_and_iff]
    by_cases hfirst : item.nesting ≤ depth ∧ item.isLegible = true
    · by_cases hmore : nestingOfItems items ≤ depth ∧ itemsAreLegible items = true
      · simp [hfirst, hmore]
      · simp only [hfirst, hmore, and_false, if_true, if_false, Option.bind_eq_bind,
          Option.bind_some, Option.bind_none, and_self]
    · simp only [hfirst, false_and, if_false, Option.bind_eq_bind, Option.bind_none]

theorem resolveMembers?_draft (members : List (String × Json)) (hexact : ExactMembers members)
    (depth : Nat) :
    Draft.resolveMembers? depth (draftOfMembers members) =
      if nestingOfMembers members ≤ depth ∧ membersAreLegible members = true then
        some (rereadMembers members)
      else none := by
  cases members with
  | nil => exact (if_pos ⟨Nat.zero_le depth, rfl⟩).symm
  | cons member members =>
    obtain ⟨key, value⟩ := member
    obtain ⟨hvalue, hmembers⟩ := hexact
    rw [draftOfMembers, Draft.resolveMembers?, resolve?_draft value hvalue,
      resolveMembers?_draft members hmembers, text?_pieces, nestingOfMembers, membersAreLegible,
      rereadMembers]
    simp only [max_le_and_iff]
    by_cases hfirst : value.nesting ≤ depth ∧ value.isLegible = true
    · by_cases hmore : nestingOfMembers members ≤ depth ∧ membersAreLegible members = true
      · simp [hfirst, hmore]
      · simp only [hfirst, hmore, and_false, if_true, if_false, Option.bind_eq_bind,
          Option.bind_some, Option.bind_none, and_self]
    · simp only [hfirst, false_and, if_false, Option.bind_eq_bind, Option.bind_some,
        Option.bind_none]

end

/-- **A printed document is read with its doubles as their digits are read**, unless one of them
is too large then or the document is nested too deep. -/
theorem read_pretty {document : Json} (hexact : document.Exact) :
    read document.pretty =
      if document.nesting ≤ maxDepth ∧ document.isLegible = true then some document.reread
      else none := by
  rw [read, read_draft hexact, Option.bind_some, resolve?_draft document hexact]

/-! ## Documents that are read back -/

mutual

/-- Reading changes nothing in a document exactly if all its doubles are read as themselves. -/
theorem isFaithful_iff (document : Json) : document.isFaithful = true ↔
    document.isLegible = true ∧ document.reread = document := by
  cases document with
  | float number =>
    rw [isFaithful, isLegible, reread, decide_eq_true_eq]
    cases readBack? number <;> simp
  | array items =>
    rw [isFaithful, isLegible, reread, array.injEq]
    exact itemsAreFaithful_iff items
  | object members =>
    rw [isFaithful, isLegible, reread, object.injEq]
    exact membersAreFaithful_iff members
  | _ => simp [isFaithful, isLegible, reread]

theorem itemsAreFaithful_iff (items : List Json) : itemsAreFaithful items = true ↔
    itemsAreLegible items = true ∧ rereadItems items = items := by
  cases items with
  | nil => simp [itemsAreFaithful, itemsAreLegible, rereadItems]
  | cons item items =>
    rw [itemsAreFaithful, itemsAreLegible, rereadItems, Bool.and_eq_true, Bool.and_eq_true,
      List.cons.injEq, isFaithful_iff item, itemsAreFaithful_iff items]
    exact and_and_and_comm

theorem membersAreFaithful_iff (members : List (String × Json)) :
    membersAreFaithful members = true ↔
      membersAreLegible members = true ∧ rereadMembers members = members := by
  cases members with
  | nil => simp [membersAreFaithful, membersAreLegible, rereadMembers]
  | cons member members =>
    obtain ⟨key, value⟩ := member
    rw [membersAreFaithful, membersAreLegible, rereadMembers, Bool.and_eq_true, Bool.and_eq_true,
      List.cons.injEq, Prod.mk.injEq, isFaithful_iff value, membersAreFaithful_iff members,
      eq_self_iff_true, true_and]
    exact and_and_and_comm

end

/-- **A printed document is read back** exactly if it is not nested too deep and its doubles are
read as themselves. -/
theorem read_pretty_iff {document : Json} (hexact : document.Exact) :
    read document.pretty = some document ↔
      document.nesting ≤ maxDepth ∧ document.isFaithful = true := by
  rw [read_pretty hexact, isFaithful_iff]
  split
  · next h => simp [h]
  · next h => simp [← and_assoc, h]

end Json

end Logbook
