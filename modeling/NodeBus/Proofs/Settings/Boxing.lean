import Mathlib.Data.List.Forall2
import NodeBus.Settings.Box

/-!
# Messages in boxes

A message is boxed line by line: each of its lines becomes one line of the box, and all of these
are equally wide (`Boxed`). Lines are cut after a number of bytes and padded to a number of
characters, which goes together since no character has less than a byte. What does not go together
is a cut and the end of a character: there is no box for a message with a long line in which a
character lies across the place of the cut (`boxed_unless_cut_inside`).
-/

namespace NodeBus.Settings

open List (Forall₂)

/-! ## Lines of a text -/

/-- A line that is read from a text as it stands in it. -/
structure Plain (line : List Char) : Prop where
  unbroken : '\n' ∉ line
  unreturned : line.getLast? ≠ some '\r'

section Lines

variable {line : List Char}

theorem plain_concat {c : Char} (h : '\n' ∉ line) (hbreak : c ≠ '\n') (hreturn : c ≠ '\r') :
    Plain (line ++ [c]) :=
  ⟨by simp [h, hbreak.symm], by simp [hreturn]⟩

theorem linesFrom_append (h : '\n' ∉ line) (front rest : List Char) :
    linesFrom front (line ++ rest) = linesFrom (line.reverse ++ front) rest := by
  induction line generalizing front with
  | nil => rfl
  | cons c line ih =>
    obtain ⟨hc, hline⟩ := not_or.mp (mt List.mem_cons.mpr h)
    have hstep : linesFrom front (c :: (line ++ rest)) = linesFrom (c :: front) (line ++ rest) :=
      linesFrom.eq_3 _ _ _ (Ne.symm hc)
    rw [List.cons_append, hstep, ih hline, List.reverse_cons, List.append_assoc]
    rfl

/-- A line feed ends a line. -/
theorem linesFrom_plain (h : Plain line) (rest : List Char) :
    linesFrom [] (line ++ '\n' :: rest) = line :: linesFrom [] rest := by
  have hkept : dropReturn line.reverse = line.reverse := by
    unfold dropReturn
    split
    · rename_i front hfront
      have hlast : line.getLast? = some '\r' := by
        rw [← List.head?_reverse, hfront, List.head?_cons]
      exact absurd hlast h.unreturned
    · rfl
  rw [linesFrom_append h.unbroken, List.append_nil, linesFrom, hkept, List.reverse_reverse]

/-- The lines that a text consists of are read from it. -/
theorem linesFrom_flatMap {lines : List (List Char)} (h : ∀ line ∈ lines, Plain line) :
    linesFrom [] (lines.flatMap (· ++ ['\n'])) = lines := by
  induction lines with
  | nil => rfl
  | cons line lines ih =>
    rw [List.forall_mem_cons] at h
    rw [List.flatMap_cons, List.append_assoc, List.singleton_append, linesFrom_plain h.1, ih h.2]

theorem textLines_join {lines : List String} (h : ∀ line ∈ lines, Plain line.toList) :
    textLines (String.join (lines.map (· ++ "\n"))) = lines.map String.toList := by
  have htext : (String.join (lines.map (· ++ "\n"))).toList =
      (lines.map String.toList).flatMap (· ++ ['\n']) := by
    simp [String.toList_join, List.flatMap_map]
  rw [textLines, htext, linesFrom_flatMap (List.forall_mem_map.mpr h)]

theorem linesFrom_last (h : '\n' ∉ line) (hne : line ≠ []) : linesFrom [] line = [line] := by
  have hlast := linesFrom_append h [] []
  rw [List.append_nil, List.append_nil, linesFrom, List.isEmpty_reverse, List.reverse_reverse,
    if_neg (by simpa using hne)] at hlast
  exact hlast

theorem unbroken_of_mem_linesFrom {front text : List Char} (hfront : '\n' ∉ front)
    (h : line ∈ linesFrom front text) : '\n' ∉ line := by
  fun_induction linesFrom front text with
  | case1 front hempty => cases h
  | case2 front hempty =>
    rw [List.mem_singleton] at h
    simpa [h] using hfront
  | case3 front rest ih =>
    rcases List.mem_cons.mp h with rfl | hrest
    -- A carriage return that is dropped takes no line feed with it.
    · unfold dropReturn
      split
      · simp_all
      · simpa using hfront
    · exact ih List.not_mem_nil hrest
  | case4 front c rest hc ih =>
    exact ih (mt List.mem_cons.mp (not_or.mpr ⟨fun heq => hc heq.symm, hfront⟩)) h

/-- The lines that a text is joined of are read from it. -/
theorem linesFrom_intercalate {lines : List (List Char)} (h : ∀ line ∈ lines, Plain line)
    (hne : ∀ line ∈ lines, line ≠ []) : linesFrom [] (['\n'].intercalate lines) = lines := by
  induction lines with
  | nil => rfl
  | cons line lines ih =>
    have hplain := h line List.mem_cons_self
    cases lines with
    | nil =>
      rw [List.intercalate_singleton]
      exact linesFrom_last hplain.unbroken (hne line List.mem_cons_self)
    | cons next lines =>
      rw [List.intercalate_cons_cons, List.append_assoc, List.singleton_append,
        linesFrom_plain hplain, ih (fun l hl => h l (List.mem_cons_of_mem _ hl))
          fun l hl => hne l (List.mem_cons_of_mem _ hl)]

end Lines

/-! ## Bytes of a line -/

section Bytes

variable {line front : List Char} {n : Nat}

/-- Every character has a byte at least. -/
theorem length_le_byteLength (line : List Char) : line.length ≤ byteLength line := by
  induction line with
  | nil => exact Nat.le_refl _
  | cons c line ih =>
    have hc := c.utf8Size_pos
    rw [List.length_cons, byteLength]
    omega

/-- The bytes of a line can be taken up to where a character ends. -/
theorem takeBytes_eq_some_iff (h : n ≤ byteLength line) :
    takeBytes n line = some front ↔ front <+: line ∧ byteLength front = n := by
  -- Taking stops where no bytes are left, goes on past a character that fits, and fails at one
  -- that does not, whose bytes are what no front can end between.
  fun_induction takeBytes n line generalizing front with
  | case1 n =>
    obtain rfl : n = 0 := Nat.le_zero.mp h
    cases front <;> simp [byteLength]
  | case2 c rest =>
    cases front with
    | nil => simp [byteLength]
    | cons c' front =>
      have hc := c'.utf8Size_pos
      simp [byteLength]
      omega
  | case3 n c rest hn hfits ih =>
    rw [byteLength] at h
    cases front with
    | nil => simp [byteLength, Ne.symm hn]
    | cons c' front =>
      simp only [Option.map_eq_some_iff, List.cons.injEq, List.cons_prefix_cons, byteLength]
      constructor
      · rintro ⟨front, htake, rfl, rfl⟩
        obtain ⟨hbegins, hlength⟩ := (ih (by omega)).mp htake
        exact ⟨⟨rfl, hbegins⟩, by omega⟩
      · rintro ⟨⟨rfl, hbegins⟩, hlength⟩
        exact ⟨front, (ih (by omega)).mpr ⟨hbegins, by omega⟩, rfl, rfl⟩
  | case4 n c rest hn hwide =>
    cases front with
    | nil => simp [byteLength, Ne.symm hn]
    | cons c' front =>
      simp only [byteLength, List.cons_prefix_cons, reduceCtorEq, false_iff, not_and]
      rintro ⟨rfl, _⟩
      omega

end Bytes

/-! ## Boxes -/

/-- What is shown of a line: all of it, or its first 61 bytes and dots if it has more than 64. -/
inductive Shown : List Char → List Char → Prop where
  | whole {line : List Char} (short : byteLength line ≤ 64) : Shown line line
  | cut {front back : List Char} (long : 64 < byteLength (front ++ back))
      (place : byteLength front = 61) : Shown (front ++ back) (front ++ ['.', '.', '.'])

/-- A line of a box around what is shown of a line. -/
structure Boxed (line boxed : List Char) : Prop where
  shows : ∃ shown, Shown line shown ∧
    boxed = "║  ".toList ++ shown ++ List.replicate (64 - shown.length) ' ' ++ " ║".toList
  width : boxed.length = 69

section Boxed

variable {line shown boxed : List Char}

theorem fit_eq_some_iff : fit line = some shown ↔ Shown line shown := by
  rw [fit]
  by_cases hshort : byteLength line ≤ lineWidth
  · rw [if_pos hshort, Option.some.injEq]
    constructor
    · rintro rfl
      exact .whole hshort
    · rintro (_ | ⟨long, _⟩)
      · rfl
      · exact absurd hshort (Nat.not_le_of_lt long)
  · have hlong : 64 < byteLength line := Nat.lt_of_not_le hshort
    have htake (front : List Char) :
        takeBytes 61 line = some front ↔ front <+: line ∧ byteLength front = 61 :=
      takeBytes_eq_some_iff (by omega)
    rw [if_neg hshort, Option.map_eq_some_iff]
    constructor
    · rintro ⟨front, hfront, rfl⟩
      obtain ⟨⟨back, rfl⟩, place⟩ := (htake front).mp hfront
      exact .cut hlong place
    · rintro (short | ⟨_, place⟩)
      · exact absurd short hshort
      · exact ⟨_, (htake _).mpr ⟨List.prefix_append .., place⟩, rfl⟩

theorem Shown.length_le (h : Shown line shown) : shown.length ≤ 64 := by
  cases h with
  | whole short => exact Nat.le_trans (length_le_byteLength line) short
  | @cut front back _ place =>
    have hfront := length_le_byteLength front
    rw [List.length_append, List.length_cons, List.length_cons, List.length_singleton]
    omega

theorem boxLine_eq_some_iff : boxLine line = some boxed ↔ Boxed line boxed := by
  simp only [boxLine, Option.map_eq_some_iff, fit_eq_some_iff, padTo, lineWidth,
    ← List.append_assoc]
  constructor
  · rintro ⟨shown, hshown, rfl⟩
    refine ⟨⟨shown, hshown, rfl⟩, ?_⟩
    have hlength := hshown.length_le
    have hleft : "║  ".toList.length = 3 := rfl
    have hright : " ║".toList.length = 2 := rfl
    simp only [List.length_append, List.length_replicate, hleft, hright]
    omega
  · rintro ⟨⟨shown, hshown, rfl⟩, _⟩
    exact ⟨shown, hshown, rfl⟩

theorem Boxed.plain (h : Boxed line boxed) (hline : '\n' ∉ line) : Plain boxed ∧ boxed ≠ [] := by
  obtain ⟨⟨shown, hshown, rfl⟩, _⟩ := h
  have hright : " ║".toList = [' ', '║'] := rfl
  have hleft : "║  ".toList = ['║', ' ', ' '] := rfl
  -- Dots and blanks break no line either.
  have hunbroken : '\n' ∉ shown := by
    cases hshown with
    | whole => exact hline
    | cut => simp_all
  rw [hleft, hright, ← List.singleton_append (l := ['║']), ← List.append_assoc]
  exact ⟨plain_concat (by simp [hunbroken]) (by decide) (by decide), by simp⟩

theorem exists_boxed_iff :
    (∃ boxed, Boxed line boxed) ↔
      (64 < byteLength line → ∃ front, front <+: line ∧ byteLength front = 61) := by
  have hboxed : (∃ boxed, Boxed line boxed) ↔ ∃ shown, Shown line shown := by
    simp only [← boxLine_eq_some_iff, ← fit_eq_some_iff, boxLine, Option.map_eq_some_iff]
    exact ⟨fun ⟨_, shown, hshown, _⟩ => ⟨shown, hshown⟩,
      fun ⟨shown, hshown⟩ => ⟨_, shown, hshown, rfl⟩⟩
  rw [hboxed]
  constructor
  · rintro ⟨_, (short | ⟨_, place⟩)⟩ hlong
    · omega
    · exact ⟨_, List.prefix_append .., place⟩
  · intro h
    by_cases hlong : 64 < byteLength line
    · obtain ⟨front, ⟨back, rfl⟩, place⟩ := h hlong
      exact ⟨_, .cut hlong place⟩
    · exact ⟨line, .whole (Nat.le_of_not_lt hlong)⟩

end Boxed

/-! ## Messages -/

theorem mapM_boxLine_eq_some_iff {lines boxes : List (List Char)} :
    lines.mapM boxLine = some boxes ↔ Forall₂ Boxed lines boxes := by
  induction lines generalizing boxes with
  | nil => simp [eq_comm]
  | cons line lines ih =>
    simp only [List.mapM_cons, Option.bind_eq_bind, Option.bind_eq_some_iff, Option.pure_def,
      Option.some.injEq, boxLine_eq_some_iff, ih, List.forall₂_cons_left_iff]
    constructor
    · rintro ⟨boxed, hboxed, rest, hrest, rfl⟩
      exact ⟨boxed, rest, hboxed, hrest, rfl⟩
    · rintro ⟨boxed, rest, hboxed, hrest, rfl⟩
      exact ⟨boxed, hboxed, rest, hrest, rfl⟩

theorem exists_forall_boxed_iff {lines : List (List Char)} :
    (∃ boxes, Forall₂ Boxed lines boxes) ↔ ∀ line ∈ lines, ∃ boxed, Boxed line boxed := by
  induction lines with
  | nil => simp
  | cons line lines ih =>
    simp only [List.forall₂_cons_left_iff, List.forall_mem_cons, ← ih]
    constructor
    · rintro ⟨_, boxed, rest, hboxed, hrest, rfl⟩
      exact ⟨⟨boxed, hboxed⟩, rest, hrest⟩
    · rintro ⟨⟨boxed, hboxed⟩, rest, hrest⟩
      exact ⟨_, boxed, rest, hboxed, hrest, rfl⟩

theorem forall_plain_of_forall_boxed {lines boxes : List (List Char)}
    (h : Forall₂ Boxed lines boxes) (hlines : ∀ line ∈ lines, '\n' ∉ line) :
    ∀ boxed ∈ boxes, Plain boxed ∧ boxed ≠ [] := by
  induction h with
  | nil => exact fun _ h => absurd h List.not_mem_nil
  | cons hboxed _ ih =>
    rw [List.forall_mem_cons] at hlines ⊢
    exact ⟨hboxed.plain hlines.1, ih hlines.2⟩

theorem forall_boxed_textLines {message boxed : String} (h : boxLines message = some boxed) :
    Forall₂ Boxed (textLines message) (textLines boxed) := by
  obtain ⟨boxes, hboxes, rfl⟩ := Option.map_eq_some_iff.mp h
  have hboxed : Forall₂ Boxed (textLines message) boxes := mapM_boxLine_eq_some_iff.mp hboxes
  have hplain : ∀ b ∈ boxes, Plain b ∧ b ≠ [] :=
    forall_plain_of_forall_boxed hboxed fun _ => unbroken_of_mem_linesFrom List.not_mem_nil
  -- Read as a text again, the joined boxes fall apart into the boxes.
  have hlines : textLines ("\n".intercalate (boxes.map String.ofList)) = boxes := by
    have htext : (boxes.map String.ofList).map String.toList = boxes := by simp
    rw [textLines, String.toList_intercalate, htext]
    exact linesFrom_intercalate (fun b hb => (hplain b hb).1) fun b hb => (hplain b hb).2
  rwa [hlines]

/-- A message is boxed line by line unless a long line has a character across the place where it
would be cut. -/
theorem boxed_unless_cut_inside (message : String) :
    ((∃ boxed, boxLines message = some boxed) ↔
      ∀ line ∈ textLines message, 64 < byteLength line →
        ∃ front, front <+: line ∧ byteLength front = 61) ∧
    ∀ boxed, boxLines message = some boxed →
      Forall₂ Boxed (textLines message) (textLines boxed) := by
  have hexists : (∃ boxed, boxLines message = some boxed) ↔
      ∃ boxes, Forall₂ Boxed (textLines message) boxes := by
    simp only [boxLines, Option.map_eq_some_iff, mapM_boxLine_eq_some_iff]
    exact ⟨fun ⟨_, boxes, h, _⟩ => ⟨boxes, h⟩, fun ⟨boxes, h⟩ => ⟨_, boxes, h, rfl⟩⟩
  refine ⟨?_, fun boxed => forall_boxed_textLines⟩
  simp only [hexists, exists_forall_boxed_iff, exists_boxed_iff]

/-- A line of one byte more than fits, with a character across the place of the cut. -/
theorem no_box_for_character_at_cut :
    textLines "aaaaaaaaaaaaaaaaaaaaaaaaaaaaaaaaaaaaaaaaaaaaaaaaaaaaaaaaaaaaéaaa" =
      [List.replicate 60 'a' ++ 'é' :: List.replicate 3 'a'] ∧
    boxLines "aaaaaaaaaaaaaaaaaaaaaaaaaaaaaaaaaaaaaaaaaaaaaaaaaaaaaaaaaaaaéaaa" = none := by
  decide

/-! ## Boxes around rows -/

theorem plain_border {left right : String} {corner : Char} (hleft : '\n' ∉ left.toList)
    (hright : right.toList = [corner]) (hbreak : corner ≠ '\n') (hreturn : corner ≠ '\r') :
    Plain (border left right).toList := by
  rw [border, String.toList_append, String.toList_append, String.toList_ofList, hright]
  exact plain_concat (by simp [hleft]) hbreak hreturn

/-- A box has a line for each row, and begins with a line that is empty. -/
theorem textLines_box {rows : List String} (h : ∀ row ∈ rows, Plain row.toList) :
    textLines (box rows) =
      [] :: (border "╔" "╗" :: rows ++ [border "╚" "╝"]).map String.toList := by
  have htop : Plain (border "╔" "╗").toList :=
    plain_border (by decide) rfl (by decide) (by decide)
  have hbottom : Plain (border "╚" "╝").toList :=
    plain_border (by decide) rfl (by decide) (by decide)
  have hplain : ∀ line ∈ border "╔" "╗" :: rows ++ [border "╚" "╝"], Plain line.toList := by
    simp only [List.cons_append, List.forall_mem_cons, List.forall_mem_append]
    exact ⟨htop, h, hbottom, by simp⟩
  have hbreak : "\n".toList = ['\n'] := rfl
  rw [← textLines_join hplain, textLines, box, String.toList_append, hbreak]
  rfl

end NodeBus.Settings
