import Logbook.Path

/-!
# Pieces of a path

A path that is joined to another ends with the same name.  Names that are joined to a path one
below the other are the last pieces of what comes out, behind those of the path.
-/

namespace Logbook

namespace Path

theorem splitChars_cons (separator c : Char) (rest : List Char) :
    ∃ piece pieces, splitChars separator rest = piece :: pieces ∧
      splitChars separator (c :: rest) =
        if c == separator then [] :: piece :: pieces else (c :: piece) :: pieces := by
  have hne : splitChars separator rest ≠ [] := by
    cases rest with
    | nil => simp [splitChars]
    | cons d rest =>
      rw [splitChars]
      split
      · simp
      · split <;> simp
  obtain ⟨piece, pieces, hpieces⟩ := List.exists_cons_of_ne_nil hne
  refine ⟨piece, pieces, hpieces, ?_⟩
  rw [splitChars, hpieces]

theorem splitChars_append_separator (separator : Char) (first second : List Char) :
    splitChars separator (first ++ separator :: second) =
      splitChars separator first ++ splitChars separator second := by
  induction first with
  | nil =>
    obtain ⟨piece, pieces, hsecond, hcons⟩ := splitChars_cons separator separator second
    rw [List.nil_append, hcons, hsecond, if_pos (beq_self_eq_true separator)]
    rfl
  | cons c first ih =>
    obtain ⟨piece, pieces, hfirst, hcons⟩ := splitChars_cons separator c first
    obtain ⟨whole, others, hwhole, hall⟩ :=
      splitChars_cons separator c (first ++ separator :: second)
    rw [ih, hfirst, List.cons_append, List.cons.injEq] at hwhole
    obtain ⟨rfl, rfl⟩ := hwhole
    rw [List.cons_append, hall, hcons]
    split <;> rfl

theorem splitChars_of_notMem {separator : Char} {text : List Char} (h : separator ∉ text) :
    splitChars separator text = [text] := by
  induction text with
  | nil => rfl
  | cons c text ih =>
    rw [List.mem_cons, not_or] at h
    rw [splitChars, ih h.2]
    dsimp only
    rw [if_neg (by simpa using Ne.symm h.1)]

/-- A text without separators goes on with the last piece of the text before it. -/
theorem getLast?_splitChars_append {separator : Char} (first : List Char) {second : List Char}
    (h : separator ∉ second) :
    ∃ start, (splitChars separator (first ++ second)).getLast? = some (start ++ second) := by
  induction first with
  | nil =>
    refine ⟨[], ?_⟩
    rw [List.nil_append, splitChars_of_notMem h]
    rfl
  | cons c first ih =>
    obtain ⟨start, hstart⟩ := ih
    obtain ⟨piece, pieces, hfirst, hcons⟩ := splitChars_cons separator c (first ++ second)
    rw [hfirst] at hstart
    rw [List.cons_append, hcons]
    cases pieces with
    | nil =>
      -- The only piece so far is the last one; the character is in front of it or cuts it off.
      cases hstart
      split
      · exact ⟨start, rfl⟩
      · exact ⟨c :: start, rfl⟩
    | cons next pieces =>
      rw [List.getLast?_cons_cons] at hstart
      refine ⟨start, ?_⟩
      split <;> simpa [List.getLast?_cons_cons] using hstart

/-- The path ends with a name. -/
def EndsWith (path : Path) (name : String) : Prop := (pieces '/' path.text).getLast? = some name

theorem endsWith_join (base : Path) {part name : String}
    (h : (pieces '/' part).getLast? = some name) : (base.join part).EndsWith name := by
  have hafter : ∀ before : List Char,
      (⟨String.ofList (before ++ '/' :: part.toList)⟩ : Path).EndsWith name := by
    intro before
    have hlast : ((splitChars '/' part.toList).map String.ofList).getLast? = some name := h
    rw [EndsWith, pieces, String.toList_ofList, splitChars_append_separator, List.map_append,
      List.getLast?_append, hlast]
    rfl
  unfold join
  split
  · exact h
  · split
    · next hbase =>
      rw [Bool.or_eq_true, beq_iff_eq, beq_iff_eq] at hbase
      rcases hbase with hempty | hslash
      · rw [hempty, String.empty_append]
        exact h
      · obtain ⟨before, hbefore⟩ := List.getLast?_eq_some_iff.mp hslash
        have htext : base.text ++ part = String.ofList (before ++ '/' :: part.toList) := by
          rw [String.ext_iff, String.toList_append, hbefore, String.toList_ofList]
          simp
        rw [htext]
        exact hafter before
    · have htext : base.text ++ "/" ++ part =
          String.ofList (base.text.toList ++ '/' :: part.toList) := by
        rw [String.ext_iff]
        simp
      rw [htext]
      exact hafter base.text.toList

/-- What is added to a name without a slash ends the last name of the path. -/
theorem exists_endsWith_join (base : Path) (start : String) {ending : String}
    (h : '/' ∉ ending.toList) :
    ∃ front, (base.join (start ++ ending)).EndsWith (front ++ ending) := by
  obtain ⟨front, hfront⟩ := getLast?_splitChars_append start.toList h
  refine ⟨String.ofList front, endsWith_join base ?_⟩
  rw [pieces, List.getLast?_map, String.toList_append, hfront, Option.map_some,
    String.ofList_append, String.ofList_toList]

/-! ## Names joined to a path -/

theorem pieces_ofList_append (separator : Char) (first second : List Char) :
    pieces separator (String.ofList (first ++ separator :: second)) =
      (splitChars separator first).map String.ofList ++
        (splitChars separator second).map String.ofList := by
  rw [pieces, String.toList_ofList, splitChars_append_separator, List.map_append]

/-- A name without a slash is one more piece, in the place of an empty last one. -/
theorem exists_pieces_join (base : Path) {part : String} (h : '/' ∉ part.toList) :
    ∃ front, (pieces '/' base.text = front ++ [""] ∨ pieces '/' base.text = front) ∧
      pieces '/' (base.join part).text = front ++ [part] := by
  have hpart : (splitChars '/' part.toList).map String.ofList = [part] := by
    rw [splitChars_of_notMem h, List.map_singleton, String.ofList_toList]
  have hrelative : ¬ (part.toList.head? == some '/') = true := by
    intro hhead
    exact h (List.mem_of_head? (eq_of_beq hhead))
  unfold join
  rw [if_neg hrelative]
  split
  · next hbase =>
    rw [Bool.or_eq_true, beq_iff_eq, beq_iff_eq] at hbase
    rcases hbase with hempty | hslash
    · refine ⟨[], .inl ?_, ?_⟩
      · rw [hempty]
        rfl
      · rw [hempty, String.empty_append]
        exact hpart
    · obtain ⟨before, hbefore⟩ := List.getLast?_eq_some_iff.mp hslash
      have htext : base.text ++ part = String.ofList (before ++ '/' :: part.toList) := by
        rw [String.ext_iff, String.toList_append, hbefore, String.toList_ofList]
        simp
      refine ⟨(splitChars '/' before).map String.ofList, .inl ?_, ?_⟩
      · rw [pieces, hbefore, splitChars_append_separator, List.map_append]
        rfl
      · rw [htext, pieces_ofList_append, hpart]
  · have htext : base.text ++ "/" ++ part =
        String.ofList (base.text.toList ++ '/' :: part.toList) := by
      rw [String.ext_iff]
      simp
    refine ⟨pieces '/' base.text, .inr rfl, ?_⟩
    rw [htext, pieces_ofList_append, hpart]
    rfl

/-- A name of an entry, as a piece of a path. -/
def IsPiece (part : String) : Prop := part ≠ "" ∧ '/' ∉ part.toList

theorem exists_pieces_foldl_join {parts : List String} (hparts : ∀ part ∈ parts, IsPiece part)
    (hne : parts ≠ []) (base : Path) :
    ∃ front, (pieces '/' base.text = front ++ [""] ∨ pieces '/' base.text = front) ∧
      pieces '/' (parts.foldl join base).text = front ++ parts := by
  induction parts generalizing base with
  | nil => exact absurd rfl hne
  | cons part parts ih =>
    obtain ⟨hpart, hslash⟩ := hparts part List.mem_cons_self
    obtain ⟨front, hbase, hjoin⟩ := exists_pieces_join base hslash
    refine ⟨front, hbase, ?_⟩
    cases parts with
    | nil => exact hjoin
    | cons next parts =>
      obtain ⟨longer, hlonger, hall⟩ := ih (fun other hother =>
        hparts other (List.mem_cons_of_mem _ hother)) (List.cons_ne_nil _ _) (base.join part)
      -- The last piece so far is not empty, so nothing takes its place.
      have hfront : longer = front ++ [part] := by
        rcases hlonger with hempty | hsame
        · rw [hjoin] at hempty
          exact absurd (List.append_inj_right' hempty rfl) (by simpa using hpart)
        · exact hsame.symm.trans hjoin
      rw [List.foldl_cons, hall, hfront, List.append_assoc]
      rfl

end Path

end Logbook
