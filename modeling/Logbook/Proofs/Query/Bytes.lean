import Logbook.Proofs.Query.Offset

/-!
# Queries as bytes

A query is stored as its bytes, and a place in it is the number of bytes in front.  This file has
what can be done at a place: look at a byte, skip bytes, and cut a text out.  Looking behind the
last byte is a halt, and so is cutting a text between the bytes of one character.

The places that matter are those from which an end of the query goes on (`place`).  There the byte
tells what the next character is, if that has one byte, and otherwise that it has more
(`byteAt?_place`); bytes are skipped as characters are, as long as the test does not tell
characters of several bytes apart (`skip_place`); and what stands between two such places can be
cut out (`slice_place`).
-/

namespace Logbook

namespace Query

/-- Why reading a query does not go on. -/
inductive Halt where
  /-- A byte was asked for where there is none. -/
  | outOfBounds (position : Nat)
  /-- A text was to be cut out that does not begin and end between characters. -/
  | offBoundary (start stop : Nat)
  /-- A loop was to go round more often than it may. -/
  | unfinished
  /-- The query is no sequence of tokens, for the reason in the message. -/
  | rejected (message : String)

/-- A byte of a query, as the character with that code. -/
def byteAt? (query : String) (position : Nat) : Option Char :=
  query.toByteArray.data[position]?.map Char.ofUInt8

/-- A byte of a query that has to be there. -/
def byteAt (query : String) (position : Nat) : Except Halt Char :=
  match byteAt? query position with
  | some byte => .ok byte
  | none => .error (.outOfBounds position)

/-- The text between two positions, which have to be between characters. -/
def slice (query : String) (start stop : Nat) : Except Halt String :=
  if h : start ≤ stop ∧ (String.Pos.Raw.mk start).IsValid query ∧
      (String.Pos.Raw.mk stop).IsValid query then
    .ok (String.extract (query.pos ⟨start⟩ h.2.1) (query.pos ⟨stop⟩ h.2.2))
  else .error (.offBoundary start stop)

theorem lt_of_byteAt? {query : String} {position : Nat} {byte : Char}
    (h : byteAt? query position = some byte) : position < query.utf8ByteSize := by
  obtain ⟨_, hdata, -⟩ := Option.map_eq_some_iff.mp h
  exact (Array.getElem?_eq_some_iff.mp hdata).1

/-- The first position from the given one on where the byte fails a test, or the end. -/
def skip (query : String) (test : Char → Bool) (position : Nat) : Nat :=
  match h : byteAt? query position with
  | some byte => if test byte then skip query test (position + 1) else position
  | none => position
termination_by query.utf8ByteSize - position
decreasing_by
  have := lt_of_byteAt? h
  omega

theorem skip_eq (query : String) (test : Char → Bool) (position : Nat) :
    skip query test position =
      match byteAt? query position with
      | some byte => if test byte then skip query test (position + 1) else position
      | none => position := by
  rw [skip]
  split <;> simp_all

/-! ## Characters of one byte and of several -/

/-- The first byte of a character, as the character with that code. -/
def lead (c : Char) : Char :=
  Char.ofUInt8 ((String.utf8EncodeChar c).head String.utf8EncodeChar_ne_nil)

theorem toNat_ofUInt8 (byte : UInt8) : (Char.ofUInt8 byte).val.toNat = byte.toNat :=
  UInt8.toNat_toUInt32 byte

theorem lead_of_single {c : Char} (h : c.utf8Size = 1) : lead c = c := by
  have hbyte : lead c = Char.ofUInt8 c.val.toUInt8 := by
    simp only [lead, String.utf8EncodeChar_eq_singleton h, List.head_cons]
  have hval : c.val.toNat ≤ 127 := UInt32.le_iff_toNat_le.mp (Char.utf8Size_eq_one_iff.mp h)
  rw [hbyte]
  refine Char.ext (UInt32.toNat_inj.mp ?_)
  rw [toNat_ofUInt8, UInt32.toNat_toUInt8]
  omega

/-- No byte of a character of several bytes is a character of one byte. -/
theorem utf8Size_ofUInt8_ne_one {c : Char} (h : c.utf8Size ≠ 1) {byte : UInt8}
    (hbyte : byte ∈ String.utf8EncodeChar c) : (Char.ofUInt8 byte).utf8Size ≠ 1 := by
  rw [ne_eq, Char.utf8Size_eq_one_iff, UInt32.le_iff_toNat_le] at h ⊢
  have hval : (127 : UInt32).toNat = 127 := rfl
  have hofUInt8 := toNat_ofUInt8 byte
  have hhigh : 128 ≤ byte.toNat := by
    unfold String.utf8EncodeChar at hbyte
    dsimp only at hbyte
    rw [if_neg (by omega)] at hbyte
    split_ifs at hbyte <;> simp only [List.mem_cons, List.not_mem_nil, or_false] at hbyte <;>
      rcases hbyte with rfl | rfl | rfl | rfl <;> simp <;> omega
  omega

/-! ## Places -/

/-- The position from which the given end of a query goes on. -/
def place (query : String) (rest : List Char) : Nat := byteLength query.toList - byteLength rest

section Place

variable {query : String} {rest : List Char}

theorem place_of_split {front : List Char} (h : query.toList = front ++ rest) :
    place query rest = byteLength front := by
  rw [place, h, byteLength_append, Nat.add_sub_cancel]

theorem place_append {front : List Char} (h : front ++ rest <:+ query.toList) :
    place query rest = place query (front ++ rest) + byteLength front := by
  obtain ⟨before, hbefore⟩ := h
  have hsplit : query.toList = (before ++ front) ++ rest := by rw [List.append_assoc, hbefore]
  rw [place_of_split hbefore.symm, place_of_split hsplit, byteLength_append]

theorem place_cons {c : Char} (h : c :: rest <:+ query.toList) :
    place query rest = place query (c :: rest) + c.utf8Size := by
  have hfront : [c] ++ rest <:+ query.toList := h
  exact place_append hfront

theorem place_nil (query : String) : place query [] = query.utf8ByteSize := by
  rw [place, byteLength_toList]
  rfl

theorem place_toList (query : String) : place query query.toList = 0 := Nat.sub_self _

/-- An end of a query goes on from between two characters, or from one end. -/
theorem isValid_place (h : rest <:+ query.toList) :
    (String.Pos.Raw.mk (place query rest)).IsValid query := by
  obtain ⟨front, hfront⟩ := h
  refine String.Pos.Raw.isValid_iff_exists_append.mpr ⟨.ofList front, .ofList rest, ?_, ?_⟩
  · rw [← String.ofList_append, hfront, String.ofList_toList]
  · rw [place_of_split hfront.symm, ← utf8ByteSize_ofList]
    rfl

theorem place_le (query : String) (rest : List Char) : place query rest ≤ query.utf8ByteSize := by
  rw [place, byteLength_toList]
  exact Nat.sub_le _ _

/-! ## Looking at bytes -/

theorem length_flatMap_utf8EncodeChar (text : List Char) :
    (text.flatMap String.utf8EncodeChar).length = byteLength text := by
  induction text with
  | nil => rfl
  | cons c text ih =>
    rw [List.flatMap_cons, List.length_append, ih, String.length_utf8EncodeChar, byteLength_cons]

theorem byteAt?_eq (query : String) (position : Nat) :
    byteAt? query position =
      (query.toList.flatMap String.utf8EncodeChar)[position]?.map Char.ofUInt8 := by
  have hdata : query.toByteArray.data.toList = query.toList.flatMap String.utf8EncodeChar := by
    conv_lhs => rw [← String.ofList_toList (s := query), String.toByteArray_ofList]
    exact List.toList_data_toByteArray
  rw [byteAt?, ← hdata, Array.getElem?_toList]

/-- The bytes from a place on are those of the text there. -/
theorem byteAt?_place_add (h : rest <:+ query.toList) (number : Nat) :
    byteAt? query (place query rest + number) =
      (rest.flatMap String.utf8EncodeChar)[number]?.map Char.ofUInt8 := by
  obtain ⟨front, hfront⟩ := h
  rw [byteAt?_eq, place_of_split hfront.symm, ← hfront, List.flatMap_append,
    List.getElem?_append_right (by rw [length_flatMap_utf8EncodeChar]; exact Nat.le_add_right _ _),
    length_flatMap_utf8EncodeChar, Nat.add_sub_cancel_left]

/-- At a place stands the first byte of the next character. -/
theorem byteAt?_place (h : rest <:+ query.toList) :
    byteAt? query (place query rest) = rest.head?.map lead := by
  have hbyte := byteAt?_place_add h 0
  rw [Nat.add_zero] at hbyte
  rw [hbyte]
  cases rest with
  | nil => rfl
  | cons c rest =>
    have hne := String.utf8EncodeChar_ne_nil (c := c)
    have hhead : (String.utf8EncodeChar c ++ rest.flatMap String.utf8EncodeChar).head? =
        some ((String.utf8EncodeChar c).head hne) := by
      rw [List.head?_append_of_ne_nil _ hne, List.head?_eq_some_head hne]
    rw [List.flatMap_cons, ← List.head?_eq_getElem?, hhead]
    rfl

/-! ## Skipping -/

/-- A test that does not tell characters of several bytes apart. -/
def Coarse (test : Char → Bool) : Prop :=
  ∀ c d : Char, c.utf8Size ≠ 1 → d.utf8Size ≠ 1 → test c = test d

/-- Bytes that pass the test are skipped one by one. -/
theorem skip_add {test : Char → Bool} {position number : Nat}
    (h : ∀ k, k < number → ∃ byte, byteAt? query (position + k) = some byte ∧ test byte = true) :
    skip query test position = skip query test (position + number) := by
  induction number with
  | zero => rfl
  | succ number ih =>
    obtain ⟨byte, hbyte, htest⟩ := h number (Nat.lt_succ_self _)
    rw [ih fun k hk => h k (Nat.lt_succ_of_lt hk), skip_eq, hbyte]
    dsimp only
    rw [if_pos htest, Nat.add_assoc]

/-- All bytes of a character of several bytes pass a test if one such character does. -/
theorem skip_cons {test : Char → Bool} (htest : Coarse test) {c : Char}
    (h : c :: rest <:+ query.toList) (hc : test c = true) :
    skip query test (place query (c :: rest)) = skip query test (place query rest) := by
  rw [place_cons h]
  refine skip_add fun k hk => ?_
  have hlt : k < (String.utf8EncodeChar c).length := by rwa [String.length_utf8EncodeChar]
  refine ⟨Char.ofUInt8 (String.utf8EncodeChar c)[k], ?_, ?_⟩
  · rw [byteAt?_place_add h, List.flatMap_cons, List.getElem?_append_left hlt,
      List.getElem?_eq_getElem hlt]
    rfl
  · by_cases hsingle : c.utf8Size = 1
    · obtain rfl : k = 0 := by omega
      rw [← List.head_eq_getElem String.utf8EncodeChar_ne_nil]
      exact (congrArg test (lead_of_single hsingle)).trans hc
    · rw [← hc]
      exact htest _ _ (utf8Size_ofUInt8_ne_one hsingle (List.getElem_mem hlt)) hsingle

theorem test_lead {test : Char → Bool} (htest : Coarse test) (c : Char) :
    test (lead c) = test c := by
  by_cases hsingle : c.utf8Size = 1
  · rw [lead_of_single hsingle]
  · exact htest _ _ (utf8Size_ofUInt8_ne_one hsingle (List.head_mem _)) hsingle

/-- **Bytes are skipped as the characters are.** -/
theorem skip_place {test : Char → Bool} (htest : Coarse test) (h : rest <:+ query.toList) :
    skip query test (place query rest) = place query (rest.dropWhile test) := by
  induction rest with
  | nil => rw [skip_eq, byteAt?_place h]; rfl
  | cons c rest ih =>
    cases hc : test c with
    | true =>
      rw [List.dropWhile_cons_of_pos hc, skip_cons htest h hc]
      exact ih ((List.suffix_cons c rest).trans h)
    | false =>
      have hstop : ¬test (lead c) = true := by rw [test_lead htest, hc]; exact Bool.false_ne_true
      rw [List.dropWhile_cons_of_neg (by rw [hc]; exact Bool.false_ne_true), skip_eq,
        byteAt?_place h]
      dsimp only [List.head?_cons, Option.map_some]
      rw [if_neg hstop]

/-! ## Cutting -/

/-- **What stands between two places can be cut out.** -/
theorem slice_place {text : List Char} (h : text ++ rest <:+ query.toList) :
    slice query (place query (text ++ rest)) (place query rest) = .ok (String.ofList text) := by
  have hrest : rest <:+ query.toList := (List.suffix_append text rest).trans h
  have hle : place query (text ++ rest) ≤ place query rest := by
    rw [place_append h]
    exact Nat.le_add_right _ _
  rw [slice, dif_pos ⟨hle, isValid_place h, isValid_place hrest⟩]
  refine congrArg Except.ok (String.toByteArray_inj.mp ?_)
  obtain ⟨front, hfront⟩ := h
  have hquery : query.toByteArray = front.utf8Encode ++ (text.utf8Encode ++ rest.utf8Encode) := by
    conv_lhs => rw [← String.ofList_toList (s := query), ← hfront, String.toByteArray_ofList]
    simp
  have hsize (part : List Char) : part.utf8Encode.size = byteLength part := by
    rw [← utf8ByteSize_ofList, ← String.size_toByteArray, String.toByteArray_ofList]
  have hstart := place_of_split hfront.symm
  have hstop : place query rest = byteLength front + byteLength text := by
    rw [place_append ⟨front, hfront⟩, hstart]
  have hbytes := ByteArray.extract_append_size_add (a := front.utf8Encode)
    (b := text.utf8Encode ++ rest.utf8Encode) (i := 0) (j := text.utf8Encode.size)
  rw [Nat.add_zero, ByteArray.extract_append_eq_left rfl, hsize, hsize, ← hstop, ← hstart,
    ← hquery] at hbytes
  rw [String.toByteArray_extract, String.toByteArray_ofList]
  exact hbytes

end Place

end Query

end Logbook
