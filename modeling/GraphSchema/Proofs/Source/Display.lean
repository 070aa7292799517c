import GraphSchema.Proofs.Source.Address
import GraphSchema.Proofs.Source.Excerpt
import Mathlib.Data.List.Forall2

/-!
# What an excerpt displays

An excerpt displays the lines around an offset, with their numbers flush right in columns of one
width, and puts a caret below the line of the offset, under the code point at the offset.

## Main definitions

* `Source.IsLine`: a text is the line with a number.
* `Source.ShowsLine`: a row shows a line behind its number.
* `Source.Displays`: the rows of a view.

## Main statements

* `Source.lines_eq_map`: lines go from the line starts up to the next separators.
* `Source.forall₂_rows`: the rows of an excerpt.
* `Source.excerpt?_displays`: the excerpt for an offset.
-/

namespace GraphSchema

namespace Source

/-- What stands in front of the first code point that ends a line. -/
def lineFrom (t : Text) : Text := t.takeWhile fun c => ¬IsBreak c

/-- The text is the line of `body` with the number `n`, counted from one: it goes from a line start
to the next code point that ends a line. -/
def IsLine (body : Text) (n : Nat) (line : Text) : Prop :=
  1 ≤ n ∧ ∃ first, (lineStarts body)[n - 1]? = some first ∧ line = lineFrom (body.drop first)

/-- The row shows the line with the number `n`: the number, with blanks in front of it so that both
take up `width` columns, then a colon and the line. -/
def ShowsLine (body : Text) (width n : Nat) (row : Text) : Prop :=
  ∃ line pad, IsLine body n line ∧ pad + (Text.ofNat n).length = width ∧
    row = Text.spaces pad ++ Text.ofNat n ++ ":" ++ line

/-- The view consists of a heading, rows that show the lines from `first` to `last`, and a caret
right below `row`, which shows the line `own`. The caret has `blanks` blanks in front of it, so that
it points at the code point with the number `column` of the line. -/
def Displays (body view : Text) (first own last column : Nat) (row : Text) (blanks : Nat) : Prop :=
  ∃ (width : Nat) (above below : List Text),
    view = (heading own column :: (above ++ [row, Text.spaces blanks ++ "^"] ++ below)).flatMap
      (· ++ Text.ofString "\n") ∧
    (∀ shown ∈ above ++ row :: below, ∀ c ∈ shown, ¬IsBreak c) ∧
    List.Forall₂ (ShowsLine body width) (List.range' first (own - first)) above ∧
    ShowsLine body width own row ∧ blanks = width + column ∧
    List.Forall₂ (ShowsLine body width) (List.range' (own + 1) (last - own)) below

variable {body t line : Text} {start p k first width lo hi : Nat}

/-! ## Lines by their starts -/

@[simp] theorem lineFrom_nil : lineFrom [] = [] := rfl

theorem lineFrom_break {c : CodePoint} (hc : IsBreak c) : lineFrom (c :: t) = [] := by
  simp [lineFrom, hc]

theorem lineFrom_cons {c : CodePoint} (hc : ¬IsBreak c) : lineFrom (c :: t) = c :: lineFrom t := by
  simp [lineFrom, hc]

/-- Lines that start behind `w` are the same in a text without `w`. -/
theorem map_lineFrom_drop (start : Nat) (w rest : Text) {starts : List Nat}
    (h : ∀ s ∈ starts, start + w.length ≤ s) :
    (starts.map fun s => lineFrom (rest.drop (s - (start + w.length)))) =
      starts.map fun s => lineFrom ((w ++ rest).drop (s - start)) := by
  refine List.map_congr_left fun s hs => ?_
  have hle := h s hs
  rw [show s - start = w.length + (s - (start + w.length)) by omega, List.drop_length_add_append]

/-- Cutting at separators gives the same lines as cutting at the line starts. -/
theorem lines_eq_map (start : Nat) (t : Text) :
    lines t = (start :: separatorEnds start t).map fun s => lineFrom (t.drop (s - start)) := by
  have hfront : ∀ n rest, ∀ s ∈ n :: separatorEnds n rest, n ≤ s := fun n rest =>
    List.forall_mem_cons.2 ⟨Nat.le_refl n, fun _ hs => Nat.le_of_lt (lt_of_mem_separatorEnds hs)⟩
  -- The line starts that follow are those of the rest, with what was read put in front of it.
  fun_induction separatorEnds start t with
  | case1 start => simp [lines]
  | case2 start c hc => simp [lines, hc, lineFrom_break hc]
  | case3 start c hc => simp [lines, hc, lineFrom_cons hc]
  | case4 start c d rest hc ih =>
    have hshift := map_lineFrom_drop start [c, d] rest (hfront _ rest)
    have hbreak : IsBreak c := .inr hc.1
    rw [lines, if_pos hc, ih]
    refine List.cons_eq_cons.2 ⟨?_, hshift⟩
    simp [lineFrom_break hbreak]
  | case5 start c d rest hcrlf hc ih =>
    have hshift := map_lineFrom_drop start [c] (d :: rest) (hfront _ (d :: rest))
    rw [lines, if_neg hcrlf, if_pos hc, ih]
    refine List.cons_eq_cons.2 ⟨?_, hshift⟩
    simp [lineFrom_break hc]
  | case6 start c d rest hcrlf hc ih =>
    have hshift := map_lineFrom_drop start [c] (d :: rest)
      (List.forall_mem_cons.1 (hfront _ (d :: rest))).2
    rw [lines, if_neg hcrlf, if_neg hc, ih]
    refine List.cons_eq_cons.2 ⟨?_, hshift⟩
    simp [lineFrom_cons hc]

theorem isLine_of_getElem? (h : (lines body)[k]? = some line) : IsLine body (k + 1) line := by
  rw [lines_eq_map 0, List.getElem?_map, Option.map_eq_some_iff] at h
  obtain ⟨first, hfirst, rfl⟩ := h
  exact ⟨Nat.le_add_left 1 k, first, hfirst, rfl⟩

theorem length_lines : (lines body).length = (lineStarts body).length := by
  rw [lines_eq_map 0, List.length_map, lineStarts]

/-! ## Rows -/

theorem showsLine_numbered (h : (lines body)[k]? = some line)
    (hwidth : (Text.ofNat (k + 1)).length ≤ width) :
    ShowsLine body (2 + width) (k + 1) (numbered (lines body) width k) := by
  refine ⟨line, 2 + (width - (Text.ofNat (k + 1)).length), isLine_of_getElem? h, by omega, ?_⟩
  rw [numbered_eq h, ← Text.spaces_append, label, lineNumber]
  simp only [List.append_assoc]
  rfl

/-- Rows with consecutive numbers. -/
theorem forall₂_rows (hhi : hi ≤ (lines body).length)
    (hwidth : ∀ i < hi, (Text.ofNat (i + 1)).length ≤ width) :
    List.Forall₂ (ShowsLine body (2 + width)) (List.range' (lo + 1) (hi - lo))
      (rows body width lo hi) := by
  rw [rows, List.range'_eq_map_range, List.range'_eq_map_range, List.forall₂_map_left_iff,
    List.map_map, List.forall₂_map_right_iff, List.forall₂_same]
  intro i hi'
  have hi' := List.mem_range.1 hi'
  have hline := List.getElem?_eq_getElem (show lo + i < (lines body).length by omega)
  rw [Nat.add_right_comm]
  exact showsLine_numbered hline (hwidth _ (by omega))

theorem not_isBreak_numbered {c : CodePoint} (hk : k < (lines body).length)
    (hc : c ∈ numbered (lines body) width k) : ¬IsBreak c := by
  rw [numbered_eq (List.getElem?_eq_getElem hk)] at hc
  rcases List.mem_append.1 hc with hc | hc
  · exact not_isBreak_label hc
  · exact not_isBreak_of_mem_lines (List.getElem_mem hk) hc

/-! ## Excerpts -/

/-- An excerpt for an offset of a text displays the lines whose numbers differ from that of the
line of the offset by at most `n`, as far as there are such. The caret is in the column of the
offset, and if the offset is not within a line separator, under its code point. -/
theorem excerpt?_displays {body : Text} {p : Nat} (hp : p ≤ body.length) (n : Nat) :
    ∃ (view row : Text) (line column blanks : Nat),
      excerpt? body p n = some view ∧ locate? body p = some ((line : Int), (column : Int)) ∧
      Displays body view (max 1 (line - n)) line (min (line + n) (lineStarts body).length) column
        row blanks ∧
      ∀ c, body[p]? = some c → (¬∃ i j, IsSeparator body i j ∧ i ≤ p ∧ p < j) →
        row[blanks]? = some c := by
  obtain ⟨k, first, line, h⟩ := exists_stands hp
  have hk : k < (lines body).length := (List.getElem?_eq_some_iff.1 h.reads).1
  obtain ⟨last, hlast⟩ : ∃ last, last = min (k + n) ((lines body).length - 1) := ⟨_, rfl⟩
  obtain ⟨width, hwidth⟩ : ∃ width, width = (Text.ofNat (last + 1)).length := ⟨_, rfl⟩
  have hnumber : ∀ i ≤ last, (Text.ofNat (i + 1)).length ≤ width := by
    intro i hi
    rw [hwidth]
    exact Text.length_ofNat_mono (by omega)
  have hrow : numbered (lines body) width k = label width k ++ line := numbered_eq h.reads
  have hrows : max 1 (k + 1 - n) = k - n + 1 ∧ k + 1 - (k - n + 1) = k - (k - n) ∧
      min (k + 1 + n) (lineStarts body).length - (k + 1) = last + 1 - (k + 1) := by
    rw [← length_lines]
    omega
  refine ⟨_, label width k ++ line, k + 1, p - first + 1, 2 + width + (p - first + 1),
    h.toLies.excerpt?_eq hp n hlast hwidth, h.toLies.locate?_eq hp, ⟨2 + width, _, _,
    Text.intercalate_append (List.cons_ne_nil _ _), ?_, ?_, ?_, rfl, ?_⟩, ?_⟩
  · intro shown hshown
    have hof : ∀ {lo hi}, hi ≤ (lines body).length → shown ∈ rows body width lo hi →
        ∀ c ∈ shown, ¬IsBreak c := by
      intro lo hi hhi hmem
      obtain ⟨i, hi', rfl⟩ := List.mem_map.1 hmem
      have := List.mem_range'_1.1 hi'
      exact fun c => not_isBreak_numbered (by omega)
    rw [List.mem_append, List.mem_cons] at hshown
    rcases hshown with hshown | rfl | hshown
    · exact hof (Nat.le_of_lt hk) hshown
    · rw [← hrow]
      exact fun c => not_isBreak_numbered hk
    · exact hof (by omega) hshown
  · rw [hrows.1, hrows.2.1]
    exact forall₂_rows (Nat.le_of_lt hk) fun i hi => hnumber i (by omega)
  · rw [← hrow]
    exact showsLine_numbered h.reads (hnumber k (by omega))
  · rw [hrows.2.2]
    exact forall₂_rows (by omega) fun i hi => hnumber i (by omega)
  · intro c hc hsep
    have hbreak : ¬IsBreak c := fun hbreak => hsep (exists_isSeparator hc hbreak)
    have hlabel := length_label (hnumber k (by omega))
    rw [List.getElem?_append_right (by omega), hlabel,
      show 2 + width + (p - first + 1) - (2 + width + 1) = p - first by omega]
    exact (h.inner c hc hbreak).1

/-- Ten lines, so that the numbers of the lines in front of the last one are set further right. -/
theorem excerpt?_displays_ten :
    18 ≤ ("a\nb\nc\nd\ne\nf\ng\nh\ni\nj" : Text).length ∧
    ∃ (view row : Text) (line column blanks : Nat),
      excerpt? "a\nb\nc\nd\ne\nf\ng\nh\ni\nj" (18 : Nat) (2 : Nat) = some view ∧
      locate? "a\nb\nc\nd\ne\nf\ng\nh\ni\nj" (18 : Nat) = some ((line : Int), (column : Int)) ∧
      Displays "a\nb\nc\nd\ne\nf\ng\nh\ni\nj" view (max 1 (line - 2)) line
        (min (line + 2) (lineStarts "a\nb\nc\nd\ne\nf\ng\nh\ni\nj").length) column row blanks ∧
      ∀ c, ("a\nb\nc\nd\ne\nf\ng\nh\ni\nj" : Text)[18]? = some c →
        (¬∃ i j, IsSeparator "a\nb\nc\nd\ne\nf\ng\nh\ni\nj" i j ∧ i ≤ 18 ∧ 18 < j) →
        row[blanks]? = some c :=
  ⟨by decide, excerpt?_displays (by decide) 2⟩

end Source

end GraphSchema
