import Mathlib.Tactic.FinCases
import Logbook.Proofs.Query.Scanning

/-!
# White space in a query

White space is skipped in two places, between the tokens and between the items of a list,
and not by the same rule: between the tokens a line end counts as white space, in a list it
does not.  So a run of white space can be replaced by any other, as long as a run in a list
stays on its line (`parse_of_blanks`).

Behind any beginning of a text the scanner is in one of four situations (`Cut`): between two
tokens, in a list, in a text, or past a fault.  In the first two, what it makes of the rest
depends on the beginning only through what has been read so far, provided that nothing that
is being read goes on, and white space lets nothing go on.  Which situation it is can be told
from the quotes and brackets alone (`Place`).
-/

namespace Logbook

namespace Query

/-! ## Places -/

/-- Where a character of a query stands, as far as quotes and brackets tell. -/
inductive Place where
  /-- Outside of texts and lists. -/
  | between
  /-- In a text that this quote closes. -/
  | text (quote : Char)
  /-- In a list, but not in a text of it. -/
  | list
  /-- In a text of a list. -/
  | listText (quote : Char)
  deriving DecidableEq

namespace Place

/-- The place behind a character. -/
def next : Place → Char → Place
  | between, c =>
      if c == '\'' || c == '"' then text c else if c == '[' then list else between
  | text quote, c => if c == quote then between else text quote
  | list, c => if c == '\'' || c == '"' then listText c else if c == ']' then between else list
  | listText quote, c => if c == quote then list else listText quote

/-- The place behind a text. -/
def after (place : Place) (front : List Char) : Place := front.foldl next place

@[simp] theorem after_nil (place : Place) : place.after [] = place := rfl

@[simp] theorem after_cons (place : Place) (c : Char) (front : List Char) :
    place.after (c :: front) = (place.next c).after front := rfl

@[simp] theorem after_append (place : Place) (front rest : List Char) :
    place.after (front ++ rest) = (place.after front).after rest := List.foldl_append

/-- Whether the place is in a text. -/
def isText : Place → Bool
  | text _ | listText _ => true
  | between | list => false

/-- Characters that delimit nothing do not lead out of a place. -/
theorem after_of_plain {place : Place} (hplace : place.isText = false) {front : List Char}
    (h : ∀ c ∈ front, isDelimiter c = false) : place.after front = place := by
  induction front with
  | nil => rfl
  | cons c front ih =>
    obtain ⟨hc, hfront⟩ := List.forall_mem_cons.mp h
    simp only [isDelimiter, Bool.or_eq_false_iff] at hc
    have hnext : place.next c = place := by
      cases place <;> simp_all [next, isText]
    rw [after_cons, hnext]
    exact ih hfront

theorem after_text {quote : Char} {content : List Char} (h : quote ∉ content) :
    (text quote).after content = text quote := by
  induction content with
  | nil => rfl
  | cons c content ih =>
    rw [List.mem_cons, not_or] at h
    have hnext : (text quote).next c = text quote := by
      simp [next, Ne.symm h.1]
    rw [after_cons, hnext]
    exact ih h.2

theorem after_listText {quote : Char} {content : List Char} (h : quote ∉ content) :
    (listText quote).after content = listText quote := by
  induction content with
  | nil => rfl
  | cons c content ih =>
    rw [List.mem_cons, not_or] at h
    have hnext : (listText quote).next c = listText quote := by
      simp [next, Ne.symm h.1]
    rw [after_cons, hnext]
    exact ih h.2

end Place

/-! ## Runs of white space -/

theorem exists_of_blank {c : Char} (h : Text.isBlank c = true) :
    ∃ code ∈ Text.blanks, c = Char.ofNat code :=
  ⟨c.toNat, List.contains_iff_mem.mp h, (Char.ofNat_toNat c).symm⟩

/-- Behind white space nothing goes on. -/
theorem stop_of_blank {c : Char} (h : Text.isBlank c = true) (rest : List Char) :
    Stop (c :: rest) := by
  have hall : ∀ code ∈ Text.blanks, isWordChar (Char.ofNat code) = false ∧
      Char.ofNat code ≠ '.' ∧ Char.ofNat code ≠ '=' := by decide
  obtain ⟨code, hcode, rfl⟩ := exists_of_blank h
  obtain ⟨hword, hdot, hequal⟩ := hall code hcode
  constructor
  · rintro d ⟨⟩
    exact ⟨hword, hdot⟩
  · simpa using hequal

/-- White space starts no token. -/
theorem toOption_tokenFrom_blank {c : Char} (h : Text.isBlank c = true) (rest : List Char) :
    (tokenFrom c rest).toOption = none := by
  obtain ⟨code, hcode, rfl⟩ := exists_of_blank h
  fin_cases hcode <;> rfl

/-- White space that may not stand in a list is a fault of the list. -/
theorem items?_blank {c : Char} (h : Text.isBlank c = true) (hc : isPadding c = false)
    (expectItem : Bool) (items : List Value) (rest : List Char) :
    items? expectItem items (c :: rest) = none := by
  obtain ⟨code, hcode, rfl⟩ := exists_of_blank h
  rw [items?_cons]
  cases expectItem <;> fin_cases hcode <;> first | rfl | cases hc

/-- Between tokens, a run of white space is skipped if all of it separates tokens, and is a
fault otherwise. -/
theorem kinds?_run {run : List Char} (h : ∀ c ∈ run, Text.isBlank c = true) (rest : List Char) :
    kinds? (run ++ rest) = if run.all isSeparator then kinds? rest else none := by
  induction run with
  | nil => rfl
  | cons c run ih =>
    obtain ⟨hc, hrun⟩ := List.forall_mem_cons.mp h
    cases hseparator : isSeparator c with
    | true =>
      rw [List.cons_append, kinds?_separator hseparator, ih hrun, List.all_cons, hseparator,
        Bool.true_and]
    | false =>
      rw [List.cons_append, kinds?_token hseparator, toOption_tokenFrom_blank hc,
        List.all_cons, hseparator]
      rfl

/-- In a list, a run of white space is skipped if it stays on its line, and is a fault
otherwise. -/
theorem items?_run {run : List Char} (h : ∀ c ∈ run, Text.isBlank c = true) (expectItem : Bool)
    (items : List Value) (rest : List Char) :
    items? expectItem items (run ++ rest) =
      if run.all isPadding then items? expectItem items rest else none := by
  induction run with
  | nil => rfl
  | cons c run ih =>
    obtain ⟨hc, hrun⟩ := List.forall_mem_cons.mp h
    cases hpadding : isPadding c with
    | true =>
      rw [List.cons_append, items?_cons, if_pos hpadding, ih hrun, List.all_cons, hpadding,
        Bool.true_and]
    | false =>
      rw [List.cons_append, items?_blank hc hpadding, List.all_cons, hpadding]
      rfl

/-! ## Behind a beginning -/

/-- What a beginning of the text behind an opening bracket means for the list. -/
inductive ListCut (expectItem : Bool) (items : List Value) (front : List Char) : Prop
  /-- The list goes on. -/
  | within (nowExpectItem : Bool) (nowItems : List Value) (hplace : Place.list.after front = .list)
      (hitems : ∀ rest, Stop rest →
        items? expectItem items (front ++ rest) = items? nowExpectItem nowItems rest)
  /-- A text of the list goes on. -/
  | text (quote : Char) (hplace : Place.list.after front = .listText quote)
  /-- The list is closed. -/
  | closed (values : List Value) (taken left : List Char) (hfront : front = taken ++ left)
      (hlength : left.length < front.length) (hplace : Place.list.after taken = .between)
      (hitems : ∀ rest, Stop rest →
        items? expectItem items (front ++ rest) = some (values, left ++ rest))
  /-- There is a fault. -/
  | faulty (hitems : ∀ rest, Stop rest → items? expectItem items (front ++ rest) = none)

/-- A step of the reader of lists takes the situation behind a shorter text over. -/
theorem ListCut.step {expectItem nowExpectItem : Bool} {items nowItems : List Value}
    {front left : List Char} (taken : List Char) (hfront : front = taken ++ left)
    (hlength : left.length < front.length) (hplace : Place.list.after taken = .list)
    (hitems : ∀ rest, Stop rest →
      items? expectItem items (front ++ rest) = items? nowExpectItem nowItems (left ++ rest))
    (h : ListCut nowExpectItem nowItems left) : ListCut expectItem items front := by
  have hafter (more : List Char) : Place.list.after (taken ++ more) = Place.list.after more := by
    rw [Place.after_append, hplace]
  cases h with
  | within lastExpectItem lastItems hin hlast =>
    exact .within lastExpectItem lastItems (by rw [hfront, hafter, hin])
      fun rest hrest => (hitems rest hrest).trans (hlast rest hrest)
  | text quote hin => exact .text quote (by rw [hfront, hafter, hin])
  | closed values more after hleft hshort hin hlast =>
    refine .closed values (taken ++ more) after (by rw [hfront, hleft, List.append_assoc])
      (Nat.lt_trans hshort hlength) (by rw [hafter, hin])
      fun rest hrest => (hitems rest hrest).trans (hlast rest hrest)
  | faulty hlast => exact .faulty fun rest hrest => (hitems rest hrest).trans (hlast rest hrest)

/-- An item of a list leads to no other place. -/
theorem after_of_listItem {input left : List Char} {item : Value}
    (h : listItem input = .ok (item, left)) :
    ∃ taken, input = taken ++ left ∧ Place.list.after taken = .list := by
  have hplain (htakes : Takes input left) :
      ∃ taken, input = taken ++ left ∧ Place.list.after taken = .list := by
    obtain ⟨taken, htaken, hdelimiter⟩ := htakes
    exact ⟨taken, htaken, Place.after_of_plain rfl hdelimiter⟩
  cases input with
  | nil => cases h
  | cons c front =>
    unfold listItem at h
    dsimp only at h
    split_ifs at h with hquote
    · obtain ⟨content, hcontent, -⟩ := map_eq_ok.mp h
      obtain ⟨hfront, hclosing⟩ := text_eq_ok hcontent
      refine ⟨c :: content.toList ++ [c], by simp [hfront], ?_⟩
      have hopening : Place.list.next c = .listText c := if_pos hquote
      rw [List.cons_append, Place.after_cons, hopening, Place.after_append,
        Place.after_listText hclosing]
      simp [Place.next]
    · exact hplain (takes_number h)
    · cases hword : word (c :: front) with
      | error fault =>
        rw [hword] at h
        cases h
      | ok pair =>
        obtain ⟨kind, after⟩ := pair
        rw [hword] at h
        cases kind <;> cases h
        exact hplain (takes_word hword)
    · cases h

theorem listCut (front : List Char) (expectItem : Bool) (items : List Value) :
    ListCut expectItem items front := by
  induction hlength : front.length using Nat.strongRecOn generalizing expectItem items front with
  | ind length ih =>
    subst hlength
    cases front with
    | nil => exact .within expectItem items rfl fun rest _ => rfl
    | cons c front =>
      have hshort := Nat.lt_succ_self front.length
      by_cases hpadding : isPadding c = true
      · refine .step [c] rfl hshort ?_ (fun rest _ => ?_)
          (ih _ hshort front expectItem items rfl)
        · simp only [isPadding, Bool.or_eq_true, beq_iff_eq] at hpadding
          rcases hpadding with rfl | rfl <;> rfl
        · rw [List.cons_append, items?_cons, if_pos hpadding]
      by_cases hclosing : (c == ']') = true
      · obtain rfl := eq_of_beq hclosing
        by_cases htrailing : (expectItem && !items.isEmpty) = true
        · refine .faulty fun rest _ => ?_
          rw [List.cons_append, items?_cons, if_neg hpadding, if_pos hclosing, if_pos htrailing]
        · refine .closed items [']'] front rfl hshort rfl fun rest _ => ?_
          rw [List.cons_append, items?_cons, if_neg hpadding, if_pos hclosing, if_neg htrailing]
      by_cases hcomma : (c == ',' && !expectItem) = true
      · refine .step [c] rfl hshort ?_ (fun rest _ => ?_)
          (ih _ hshort front true items rfl)
        · rw [Bool.and_eq_true, beq_iff_eq] at hcomma
          rw [hcomma.1]
          rfl
        · rw [List.cons_append, items?_cons, if_neg hpadding, if_neg hclosing, if_pos hcomma]
      cases expectItem with
      | false =>
        refine .faulty fun rest _ => ?_
        rw [List.cons_append, items?_cons, if_neg hpadding, if_neg hclosing, if_neg hcomma]
        rfl
      | true =>
        by_cases hopen : (c == '\'' || c == '"') = true ∧ c ∉ front
        · refine .text c ?_
          have hopening : Place.list.next c = .listText c := if_pos hopen.1
          rw [Place.after_cons, hopening, Place.after_listText hopen.2]
        · have hbehind (rest : List Char) (hrest : Stop rest) :
              listItem (c :: (front ++ rest)) = behind rest (listItem (c :: front)) :=
            listItem_behind hrest.boundary fun hquote => by_contra fun hmem => hopen ⟨hquote, hmem⟩
          cases hread : listItem (c :: front) with
          | error fault =>
            refine .faulty fun rest hrest => ?_
            have hfault := (hbehind rest hrest).trans (congrArg (behind rest) hread)
            exact items?_fault (by simpa using hpadding) (by simpa using hclosing) hfault items
          | ok pair =>
            obtain ⟨item, left⟩ := pair
            obtain ⟨taken, htaken, hplace⟩ := after_of_listItem hread
            have hleft := listItem_length hread
            refine .step taken htaken hleft hplace (fun rest hrest => ?_)
              (ih _ hleft left false (items ++ [item]) rfl)
            exact items?_item ((hbehind rest hrest).trans (congrArg (behind rest) hread)) items

/-- What a beginning of a query means for its tokens. -/
inductive Cut (front : List Char) : Prop
  /-- Tokens have been read and none is being read. -/
  | between (kinds : List TokenKind) (hplace : Place.between.after front = .between)
      (hkinds : ∀ rest, Stop rest → kinds? (front ++ rest) = (kinds? rest).map (kinds ++ ·))
  /-- A list goes on behind the tokens that have been read. -/
  | list (kinds : List TokenKind) (expectItem : Bool) (items : List Value)
      (hplace : Place.between.after front = .list)
      (hkinds : ∀ rest, Stop rest → kinds? (front ++ rest) =
        (items? expectItem items rest).bind fun (values, left) =>
          (kinds? left).map (kinds ++ .list values :: ·))
  /-- A text goes on. -/
  | text (hplace : (Place.between.after front).isText = true)
  /-- There is a fault. -/
  | faulty (hkinds : ∀ rest, Stop rest → kinds? (front ++ rest) = none)

/-- A token takes the situation behind the rest of the text over. -/
theorem Cut.step {front left : List Char} (first : List TokenKind) (taken : List Char)
    (hfront : front = taken ++ left) (hplace : Place.between.after taken = .between)
    (hkinds : ∀ rest, Stop rest →
      kinds? (front ++ rest) = (kinds? (left ++ rest)).map (first ++ ·))
    (h : Cut left) : Cut front := by
  have hafter : Place.between.after front = Place.between.after left := by
    rw [hfront, Place.after_append, hplace]
  cases h with
  | between kinds hin hlast =>
    refine .between (first ++ kinds) (hafter.trans hin) fun rest hrest => ?_
    rw [hkinds rest hrest, hlast rest hrest]
    simp [Function.comp_def]
  | list kinds expectItem items hin hlast =>
    refine .list (first ++ kinds) expectItem items (hafter.trans hin) fun rest hrest => ?_
    rw [hkinds rest hrest, hlast rest hrest]
    simp [Function.comp_def, Option.map_bind]
  | text hin => exact .text (by rw [hafter, hin])
  | faulty hlast =>
    refine .faulty fun rest hrest => ?_
    rw [hkinds rest hrest, hlast rest hrest]
    rfl

/-- A token that is no list leads to no other place. -/
theorem after_of_token {c : Char} {front left : List Char} {kind : TokenKind} (hlist : c ≠ '[')
    (h : tokenFrom c front = .ok (kind, left)) :
    ∃ taken, c :: front = taken ++ left ∧ Place.between.after taken = .between := by
  by_cases hquote : (c == '\'' || c == '"') = true
  · rw [tokenFrom_text hquote] at h
    obtain ⟨content, hcontent, -⟩ :=
      (map_eq_ok (f := fun content => TokenKind.scalar (.str content))).mp h
    obtain ⟨hfront, hclosing⟩ := text_eq_ok hcontent
    refine ⟨c :: content.toList ++ [c], by simp [hfront], ?_⟩
    have hopening : Place.between.next c = .text c := if_pos hquote
    rw [List.cons_append, Place.after_cons, hopening, Place.after_append,
      Place.after_text hclosing]
    simp [Place.next]
  · obtain ⟨taken, htaken, hdelimiter⟩ := takes_token (by simpa [hlist] using hquote) h
    exact ⟨taken, htaken, Place.after_of_plain rfl hdelimiter⟩

theorem cut (front : List Char) : Cut front := by
  induction hlength : front.length using Nat.strongRecOn generalizing front with
  | ind length ih =>
    subst hlength
    cases front with
    | nil => exact .between [] rfl fun rest _ => by simp
    | cons c front =>
      have hshort := Nat.lt_succ_self front.length
      cases hc : isSeparator c with
      | true =>
        refine .step [] [c] rfl ?_ (fun rest _ => ?_) (ih _ hshort front rfl)
        · simp only [isSeparator, Bool.or_eq_true, beq_iff_eq] at hc
          rcases hc with ((rfl | rfl) | rfl) | rfl <;> rfl
        · rw [List.cons_append, kinds?_separator hc]
          simp
      | false =>
        by_cases hlist : c = '['
        · subst hlist
          have hread (rest : List Char) : kinds? ('[' :: front ++ rest) =
              (items? true [] (front ++ rest)).bind fun (values, left) =>
                (kinds? left).map (.list values :: ·) := by
            rw [List.cons_append, kinds?_token hc, toOption_tokenFrom_list, Option.bind_map]
            rfl
          cases listCut front true [] with
          | within expectItem items hplace hitems =>
            refine .list [] expectItem items hplace fun rest hrest => ?_
            rw [hread, hitems rest hrest]
            rfl
          | text quote hplace =>
            exact .text (by rw [Place.after_cons]; exact congrArg Place.isText hplace)
          | closed values taken left hfront hleft hplace hitems =>
            refine .step [.list values] ('[' :: taken) (by rw [hfront]; rfl) hplace
              (fun rest hrest => ?_) (ih _ (Nat.lt_trans hleft hshort) left rfl)
            rw [hread, hitems rest hrest]
            rfl
          | faulty hitems =>
            refine .faulty fun rest hrest => ?_
            rw [hread, hitems rest hrest]
            rfl
        · by_cases hopen : (c == '\'' || c == '"') = true ∧ c ∉ front
          · have hopening : Place.between.next c = .text c := if_pos hopen.1
            exact .text (by rw [Place.after_cons, hopening, Place.after_text hopen.2]; rfl)
          · have hbehind (rest : List Char) (hrest : Stop rest) :
                tokenFrom c (front ++ rest) = behind rest (tokenFrom c front) :=
              tokenFrom_behind hrest hlist fun hquote =>
                by_contra fun hmem => hopen ⟨hquote, hmem⟩
            cases htoken : tokenFrom c front with
            | error fault =>
              refine .faulty fun rest hrest => ?_
              rw [List.cons_append, kinds?_token hc, hbehind rest hrest, htoken]
              rfl
            | ok pair =>
              obtain ⟨kind, left⟩ := pair
              obtain ⟨taken, htaken, hplace⟩ := after_of_token hlist htoken
              have hleft := Nat.lt_succ_of_le (tokenFrom_spec htoken).1
              refine .step [kind] taken htaken hplace (fun rest hrest => ?_) (ih _ hleft left rfl)
              rw [List.cons_append, kinds?_token hc, hbehind rest hrest, htoken]
              rfl

/-! ## Replacing a run -/

/-- Whether white space is skipped at a place: a list ends with its line. -/
def Place.skips : Place → Char → Bool
  | list, c => isPadding c
  | _, c => isSeparator c

theorem stop_of_run {run : List Char} (hne : run ≠ []) (h : ∀ c ∈ run, Text.isBlank c = true)
    (rest : List Char) : Stop (run ++ rest) := by
  obtain ⟨c, run, rfl⟩ := List.exists_cons_of_ne_nil hne
  exact stop_of_blank (h c (List.mem_cons_self ..)) (run ++ rest)

/-- Outside of texts, what is read behind a beginning does not depend on which white space
follows it, as long as the white space is skipped there. -/
theorem exists_kinds?_run (front back : List Char)
    (hplace : (Place.between.after front).isText = false) :
    ∃ found, ∀ run : List Char, run ≠ [] → (∀ c ∈ run, Text.isBlank c = true) →
      kinds? (front ++ (run ++ back)) =
        if run.all (Place.between.after front).skips then found else none := by
  cases cut front with
  | between kinds hin hkinds =>
    refine ⟨(kinds? back).map (kinds ++ ·), fun run hne hblank => ?_⟩
    rw [hkinds _ (stop_of_run hne hblank back), kinds?_run hblank, hin]
    exact apply_ite (Option.map (kinds ++ ·)) _ _ _
  | list kinds expectItem items hin hkinds =>
    refine ⟨(items? expectItem items back).bind fun (values, left) =>
      (kinds? left).map (kinds ++ .list values :: ·), fun run hne hblank => ?_⟩
    rw [hkinds _ (stop_of_run hne hblank back), items?_run hblank, hin]
    exact apply_ite (Option.bind · _) _ _ _
  | text hin => rw [hin] at hplace; cases hplace
  | faulty hkinds =>
    refine ⟨none, fun run hne hblank => ?_⟩
    rw [hkinds _ (stop_of_run hne hblank back), ite_self]

theorem parse_of_kinds_none {query : String} (h : kinds? query.toList = none) :
    ∃ error, parse query = .error error ∧ (Error.query error).kind = .grammar := by
  rw [kinds?_eq_tokenize] at h
  cases htokens : tokenize query with
  | ok tokens =>
    rw [htokens] at h
    cases h
  | error error =>
    refine ⟨error, by rw [parse, htokens]; rfl, ?_⟩
    unfold tokenize at htokens
    dsimp only at htokens
    split at htokens
    · cases htokens
    · obtain rfl := Except.error.inj htokens
      rfl

theorem isBlank_of_isSeparator {c : Char} (h : isSeparator c = true) : Text.isBlank c = true := by
  simp only [isSeparator, Bool.or_eq_true, beq_iff_eq] at h
  rcases h with ((rfl | rfl) | rfl) | rfl <;> rfl

/-- **White space can be replaced by white space.**  In a query that is accepted, a run of
white space outside of texts can be replaced by any other run of spaces, tabs and line ends,
and the predicate stays the same, unless the run is in a list and the other run has a line
end: then the query is refused. -/
theorem parse_of_blanks {front run other back : List Char} {predicate : Predicate}
    (h : parse (String.ofList (front ++ (run ++ back))) = .ok predicate)
    (hplace : (Place.between.after front).isText = false)
    (hrun : run ≠ []) (hblank : ∀ c ∈ run, Text.isBlank c = true)
    (hother : other ≠ []) (hseparator : ∀ c ∈ other, isSeparator c = true) :
    ((Place.between.after front = .list → ∀ c ∈ other, isPadding c = true) →
      parse (String.ofList (front ++ (other ++ back))) = .ok predicate) ∧
    ((Place.between.after front = .list ∧ ∃ c ∈ other, isPadding c = false) →
      ∃ error, parse (String.ofList (front ++ (other ++ back))) = .error error ∧
        (Error.query error).kind = .grammar) := by
  obtain ⟨found, hfound⟩ := exists_kinds?_run front back hplace
  obtain ⟨kinds, hkinds, hsentence, hkeys⟩ := parse_eq_ok_iff.mp h
  rw [String.toList_ofList, hfound run hrun hblank] at hkinds
  obtain ⟨-, rfl⟩ : _ ∧ found = some kinds := by simpa using hkinds
  have hread := hfound other hother fun c hc => isBlank_of_isSeparator (hseparator c hc)
  constructor
  · intro hfits
    refine parse_eq_ok_iff.mpr ⟨kinds, ?_, hsentence, hkeys⟩
    have hskips : other.all (Place.between.after front).skips = true := by
      refine List.all_eq_true.mpr fun c hc => ?_
      cases hin : Place.between.after front with
      | list => exact hfits hin c hc
      | _ => exact hseparator c hc
    rw [String.toList_ofList, hread, if_pos hskips]
  · rintro ⟨hlist, c, hc, hpadding⟩
    have hskips : ¬ other.all (Place.between.after front).skips = true := by
      intro hall
      have hc := List.all_eq_true.mp hall c hc
      rw [hlist] at hc
      cases hpadding.symm.trans hc
    refine parse_of_kinds_none ?_
    rw [String.toList_ofList, hread, if_neg hskips]

/-- Around a key any white space will do, in a list only what stays on the line. -/
theorem parse_of_line_end :
    parse "info.a\n\t in [1, 2]" = .ok (.oneOf "info.a" [.int 1, .int 2]) ∧
      ∃ error, parse "info.a in [1,\r\n2]" = .error error := by
  have haccepted : parse "info.a in [1, 2]" = .ok (.oneOf "info.a" [.int 1, .int 2]) := by rfl
  have hbetween := @parse_of_blanks "info.a".toList [' '] ['\n', '\t', ' '] "in [1, 2]".toList _
    haccepted rfl (by simp) (List.all_eq_true.mp rfl) (by simp) (List.all_eq_true.mp rfl)
  have hlist := @parse_of_blanks "info.a in [1,".toList [' '] ['\r', '\n'] "2]".toList _
    haccepted rfl (by simp) (List.all_eq_true.mp rfl) (by simp) (List.all_eq_true.mp rfl)
  obtain ⟨error, herror, -⟩ := hlist.2 ⟨rfl, '\r', by simp, rfl⟩
  exact ⟨hbetween.1 (fun hin => by cases hin), error, herror⟩

/-- A line end cannot stand for the space between two items of a list. -/
theorem not_parse_of_line_end_in_list :
    ¬ ∀ (front run other back : List Char) (predicate : Predicate),
      parse (String.ofList (front ++ (run ++ back))) = .ok predicate →
      (Place.between.after front).isText = false →
      run ≠ [] → (∀ c ∈ run, Text.isBlank c = true) →
      other ≠ [] → (∀ c ∈ other, isSeparator c = true) →
      parse (String.ofList (front ++ (other ++ back))) = .ok predicate := by
  intro hall
  have haccepted : parse "config.a in [1, 2]" = .ok (.oneOf "config.a" [.int 1, .int 2]) := by rfl
  have hrefused : parse "config.a in [1,\n2]" =
      .error (.lexical .illegalCharacter '\n' 15) := by rfl
  have hok := hall "config.a in [1,".toList [' '] ['\n'] "2]".toList _ haccepted rfl (by simp)
    (List.all_eq_true.mp rfl) (by simp) (List.all_eq_true.mp rfl)
  cases hrefused.symm.trans hok

end Query

end Logbook
