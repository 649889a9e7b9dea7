import Logbook.Proofs.Query.Scanning

/-!
# Where tokens stand

What a token leaves of a text is a proper end of it, so the texts from the tokens on are
nested and get shorter from one token to the next (`lexemes_nested`).  The offset of a token
is the number of bytes in front of its text, and every character has a byte: the offsets
ascend strictly and stay below the length of the query (`tokenize_ascending`).
-/

namespace Logbook

namespace Query

/-! ## Bytes -/

theorem byteLength_cons (c : Char) (text : List Char) :
    byteLength (c :: text) = c.utf8Size + byteLength text := rfl

@[simp]
theorem byteLength_append (front rest : List Char) :
    byteLength (front ++ rest) = byteLength front + byteLength rest := by
  induction front with
  | nil => exact (Nat.zero_add _).symm
  | cons c front ih => rw [List.cons_append, byteLength_cons, byteLength_cons, ih, Nat.add_assoc]

theorem byteLength_pos {text : List Char} (h : text ≠ []) : 0 < byteLength text := by
  obtain ⟨c, rest, rfl⟩ := List.exists_cons_of_ne_nil h
  rw [byteLength_cons]
  exact Nat.add_pos_left c.utf8Size_pos _

theorem utf8ByteSize_ofList (text : List Char) :
    (String.ofList text).utf8ByteSize = byteLength text := by
  induction text with
  | nil => rfl
  | cons c rest ih =>
    have hcons : String.ofList (c :: rest) = String.singleton c ++ String.ofList rest := by simp
    rw [hcons, String.utf8ByteSize_append, String.utf8ByteSize_singleton, ih, byteLength_cons]

theorem byteLength_toList (query : String) : byteLength query.toList = query.utf8ByteSize := by
  rw [← utf8ByteSize_ofList, String.ofList_toList]

/-- A proper end of a text has fewer bytes. -/
theorem byteLength_lt {left input : List Char} (h : left <:+ input)
    (hlength : left.length < input.length) : byteLength left < byteLength input := by
  obtain ⟨taken, rfl⟩ := h
  rw [byteLength_append]
  refine Nat.lt_add_of_pos_left (byteLength_pos fun hnil => ?_)
  rw [hnil] at hlength
  exact Nat.lt_irrefl _ hlength

/-! ## What a token leaves -/

theorem text_suffix {quote : Char} {input start left : List Char} {content : String}
    (h : text quote input start = .ok (content, left)) : left <:+ input :=
  ⟨content.toList ++ [quote], by rw [(text_eq_ok h).1, List.append_assoc]; rfl⟩

theorem listItem_suffix {input left : List Char} {item : Value}
    (h : listItem input = .ok (item, left)) : left <:+ input := by
  cases input with
  | nil => cases h
  | cons c rest =>
    unfold listItem at h
    dsimp only at h
    split_ifs at h
    · obtain ⟨content, hcontent, -⟩ := map_eq_ok.mp h
      exact (text_suffix hcontent).trans (List.suffix_cons c rest)
    · exact (takes_number h).suffix
    · cases hword : word (c :: rest) with
      | error fault =>
        rw [hword] at h
        cases h
      | ok pair =>
        obtain ⟨kind, after⟩ := pair
        rw [hword] at h
        cases kind <;> cases h
        exact (takes_word hword).suffix
    · cases h

theorem items?_suffix {expectItem : Bool} {items values : List Value} {input left : List Char}
    (h : items? expectItem items input = some (values, left)) : left <:+ input := by
  induction hlength : input.length using Nat.strongRecOn generalizing expectItem items input with
  | ind length ih =>
    subst hlength
    cases input with
    | nil => cases h
    | cons c rest =>
      rw [items?_cons] at h
      split_ifs at h
      · exact (ih _ (Nat.lt_succ_self _) h rfl).trans (List.suffix_cons c rest)
      · obtain ⟨-, rfl⟩ := Prod.mk.inj (Option.some.inj h)
        exact List.suffix_cons c rest
      · exact (ih _ (Nat.lt_succ_self _) h rfl).trans (List.suffix_cons c rest)
      · cases hitem : listItem (c :: rest) with
        | error fault =>
          rw [hitem] at h
          cases h
        | ok pair =>
          rw [hitem] at h
          exact (ih _ (listItem_length hitem) h rfl).trans (listItem_suffix hitem)

theorem tokenFrom_suffix {c : Char} {rest left : List Char} {kind : TokenKind}
    (h : tokenFrom c rest = .ok (kind, left)) : left <:+ rest := by
  by_cases hlist : c = '['
  · subst hlist
    have hitems := toOption_tokenFrom_list rest
    rw [h] at hitems
    obtain ⟨pair, hpair, heq⟩ := Option.map_eq_some_iff.mp hitems.symm
    obtain ⟨-, rfl⟩ := Prod.mk.inj heq
    exact items?_suffix hpair
  · by_cases hquote : (c == '\'' || c == '"') = true
    · rw [tokenFrom_text hquote] at h
      obtain ⟨content, hcontent, -⟩ :=
        (map_eq_ok (f := fun content => TokenKind.scalar (.str content))).mp h
      exact text_suffix hcontent
    · obtain ⟨taken, htaken, -⟩ := takes_token (by simpa [hlist] using hquote) h
      cases taken with
      | nil =>
        have hlength := (tokenFrom_spec h).1
        rw [← List.nil_append left, ← htaken, List.length_cons] at hlength
        omega
      | cons d taken =>
        rw [(List.cons.inj htaken).2]
        exact List.suffix_append taken left

/-! ## The texts from the tokens on -/

theorem lexemes_separator {c : Char} (hc : isSeparator c = true) (rest : List Char) :
    lexemes (c :: rest).length (c :: rest) = lexemes rest.length rest := by
  rw [List.length_cons, lexemes_cons, if_pos hc]

theorem lexemes_token {c : Char} {rest left : List Char} {kind : TokenKind}
    (h : tokenFrom c rest = .ok (kind, left)) :
    lexemes (c :: rest).length (c :: rest) =
      (lexemes left.length left).map ((kind, c :: rest) :: ·) := by
  rw [List.length_cons, lexemes_cons, not_isSeparator_of_tokenFrom h, h]
  simp only [Bool.false_eq_true, if_false, lexemes_fuel (tokenFrom_spec h).1]

/-- The texts from the tokens on are ends of the text, each a proper end of the one before. -/
theorem lexemes_nested {input : List Char} {found : List (TokenKind × List Char)}
    (h : lexemes input.length input = .ok found) :
    found.Pairwise (fun before after =>
      after.2 <:+ before.2 ∧ after.2.length < before.2.length) ∧
    ∀ lexeme ∈ found, lexeme.2 <:+ input ∧ lexeme.2 ≠ [] := by
  induction hlength : input.length using Nat.strongRecOn generalizing input found with
  | ind length ih =>
    subst hlength
    cases input with
    | nil =>
      obtain rfl := Except.ok.inj h
      exact ⟨.nil, by simp⟩
    | cons c rest =>
      cases hc : isSeparator c with
      | true =>
        rw [lexemes_separator hc] at h
        obtain ⟨hnested, hends⟩ := ih _ (Nat.lt_succ_self _) h rfl
        exact ⟨hnested, fun lexeme hmem =>
          ⟨(hends lexeme hmem).1.trans (List.suffix_cons c rest), (hends lexeme hmem).2⟩⟩
      | false =>
        cases htoken : tokenFrom c rest with
        | error fault =>
          rw [List.length_cons, lexemes_cons, hc, htoken] at h
          cases h
        | ok pair =>
          obtain ⟨kind, left⟩ := pair
          rw [lexemes_token htoken] at h
          cases hleft : lexemes left.length left with
          | error fault =>
            rw [hleft] at h
            cases h
          | ok more =>
            rw [hleft] at h
            obtain rfl := Except.ok.inj h
            have hend := tokenFrom_suffix htoken
            have hshorter := Nat.lt_succ_of_le (tokenFrom_spec htoken).1
            obtain ⟨hnested, hends⟩ := ih _ hshorter hleft rfl
            have hinput : left <:+ c :: rest := hend.trans (List.suffix_cons c rest)
            refine ⟨List.pairwise_cons.mpr ⟨fun lexeme hmem => ?_, hnested⟩,
              List.forall_mem_cons.mpr
                ⟨⟨List.suffix_refl _, List.cons_ne_nil _ _⟩, fun lexeme hmem => ?_⟩⟩
            · exact ⟨(hends lexeme hmem).1.trans hinput,
                Nat.lt_of_le_of_lt (hends lexeme hmem).1.length_le hshorter⟩
            · exact ⟨(hends lexeme hmem).1.trans hinput, (hends lexeme hmem).2⟩

/-! ## Offsets -/

theorem tokenize_eq_ok {query : String} {tokens : List Token} (h : tokenize query = .ok tokens) :
    ∃ found, lexemes query.toList.length query.toList = .ok found ∧
      tokens = found.map fun (kind, rest) =>
        ⟨kind, byteLength query.toList - byteLength rest⟩ := by
  unfold tokenize at h
  dsimp only at h
  split at h
  · next found hfound => exact ⟨found, hfound, (Except.ok.inj h).symm⟩
  · cases h

/-- **The offsets of the tokens ascend strictly, and no token starts at the end.** -/
theorem tokenize_ascending {query : String} {tokens : List Token}
    (h : tokenize query = .ok tokens) :
    tokens.Pairwise (fun before after => before.offset < after.offset) ∧
      ∀ token ∈ tokens, token.offset < query.utf8ByteSize := by
  obtain ⟨found, hfound, rfl⟩ := tokenize_eq_ok h
  obtain ⟨hnested, hends⟩ := lexemes_nested hfound
  rw [List.pairwise_map]
  constructor
  · refine List.Pairwise.imp_of_mem (fun {before after} hbefore hafter hpair => ?_) hnested
    have hlt := byteLength_lt hpair.1 hpair.2
    have hle : byteLength before.2 ≤ byteLength query.toList := by
      obtain ⟨front, hfront⟩ := (hends before hbefore).1
      rw [← hfront, byteLength_append]
      exact Nat.le_add_left _ _
    dsimp only
    omega
  · intro token htoken
    obtain ⟨lexeme, hlexeme, rfl⟩ := List.mem_map.mp htoken
    obtain ⟨⟨front, hfront⟩, hne⟩ := hends lexeme hlexeme
    have hpos := byteLength_pos hne
    rw [← byteLength_toList, ← hfront, byteLength_append]
    dsimp only
    omega

end Query

end Logbook
