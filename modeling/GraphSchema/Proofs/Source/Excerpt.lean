import GraphSchema.Proofs.Source.Line
import GraphSchema.Source.Excerpt
import Mathlib.Data.List.Basic

/-!
# The caret of an excerpt

The view of an offset of a text shows the line of the offset behind a label, and below it a caret
in the column of the offset.

## Main definitions

* `Source.Points`: a view has a caret below a line.
* `Source.InColumn`: a code point stands in a column of a line.

## Main statements

* `Source.length_lineNumber`: line numbers are set in columns of the same width.
* `Source.Lies.excerpt?_eq`: what an excerpt is made of.
* `Source.Lies.exists_excerpt`: the caret stands below the line of the offset, in its column.
-/

namespace GraphSchema

namespace Text

variable {n m : Nat} {sep : Text}

/-- Texts with a separator behind each of them. -/
theorem intercalate_append {ts : List Text} (h : ts ≠ []) :
    intercalate sep ts ++ sep = ts.flatMap (· ++ sep) := by
  induction ts with
  | nil => exact absurd rfl h
  | cons t rest ih =>
    cases rest with
    | nil => simp [intercalate]
    | cons u rest =>
      rw [List.flatMap_cons, ← ih (List.cons_ne_nil u rest), intercalate, List.append_assoc]
      exact List.cons_ne_nil u rest

/-- Two texts among others, each with a separator in front of it and behind it. -/
theorem intercalate_pair (t x y : Text) (ts us : List Text) :
    intercalate sep (t :: (ts ++ [x, y] ++ us)) ++ sep =
      intercalate sep (t :: ts) ++ sep ++ x ++ sep ++ y ++ sep ++ us.flatMap (· ++ sep) := by
  rw [intercalate_append (List.cons_ne_nil _ _), intercalate_append (List.cons_ne_nil _ _)]
  simp [List.flatMap_append]

theorem spaces_append (n m : Nat) : spaces n ++ spaces m = spaces (n + m) :=
  List.replicate_append_replicate

theorem ofNat_eq (n : Nat) : ofNat n = (Nat.toDigits 10 n).map CodePoint.ofChar := by
  rw [ofNat, Nat.toString_eq_ofList_toDigits, ofString, String.toList_ofList]

/-- Greater numbers have at least as many digits. -/
theorem length_ofNat_mono (h : n ≤ m) : (ofNat n).length ≤ (ofNat m).length := by
  have hdigits := fun n k => Nat.length_toDigits_le_iff (b := 10) (n := n) (k := k) (by decide)
  rw [ofNat_eq, ofNat_eq, List.length_map, List.length_map]
  rw [hdigits _ _ Nat.length_toDigits_pos]
  exact Nat.lt_of_le_of_lt h ((hdigits m _ Nat.length_toDigits_pos).1 (Nat.le_refl _))

end Text

namespace Source

/-- The view shows `shown` right above a caret that has `n` columns in front of it. -/
def Points (view shown : Text) (n : Nat) : Prop :=
  (∀ c ∈ shown, ¬IsBreak c) ∧ ∃ before after,
    view = before ++ "\n" ++ shown ++ "\n" ++ (Text.spaces n ++ "^") ++ "\n" ++ after

/-- The code point stands in column `n` of the line: it is shown there, or it is a line break and
the line ends in front of the column. -/
def InColumn (shown : Text) (n : Nat) (c : CodePoint) : Prop :=
  shown[n]? = some c ∨ IsBreak c ∧ shown.length ≤ n

variable {p k first width : Nat} {body line : Text} {delta : Int}

theorem length_lineNumber {n : Int} (h : (Text.ofInt n).length ≤ width) :
    (lineNumber width n).length = width := by
  simp only [lineNumber, Text.spaces, List.length_append, List.length_replicate]
  omega

/-- What is in front of a displayed line. -/
def label (width : Nat) (i : Int) : Text := Text.spaces 2 ++ lineNumber width (i + 1) ++ ":"

theorem length_label {k : Nat} (h : (Text.ofNat (k + 1)).length ≤ width) :
    (label width k).length = 2 + width + 1 := by
  simp only [label, List.length_append, length_lineNumber (n := (k : Int) + 1) h]
  rfl

theorem not_isBreak_ofNat {n : Nat} {c : CodePoint} (hc : c ∈ Text.ofNat n) : ¬IsBreak c := by
  rw [Text.ofNat_eq] at hc
  obtain ⟨d, hd, rfl⟩ := List.mem_map.1 hc
  have hdigit := Nat.isDigit_of_mem_toDigits (by decide) (by decide) hd
  rintro (h | h)
  · rw [Char.toNat_inj.1 (congrArg CodePoint.val h)] at hdigit
    exact absurd hdigit (by decide)
  · rw [Char.toNat_inj.1 (congrArg CodePoint.val h)] at hdigit
    exact absurd hdigit (by decide)

theorem not_isBreak_spaces {n : Nat} {c : CodePoint} (hc : c ∈ Text.spaces n) : ¬IsBreak c := by
  rw [List.eq_of_mem_replicate hc]
  decide

theorem not_isBreak_label {k : Nat} {c : CodePoint} (hc : c ∈ label width k) : ¬IsBreak c := by
  simp only [label, lineNumber, List.mem_append] at hc
  rcases hc with (hc | hc | hc) | hc
  · exact not_isBreak_spaces hc
  · exact not_isBreak_spaces hc
  · exact not_isBreak_ofNat (n := k + 1) hc
  · rw [List.mem_singleton.1 hc]
    decide

theorem numbered_eq (h : (lines body)[k]? = some line) :
    numbered (lines body) width k = label width k ++ line := by
  simp [numbered, label, h]

/-- The heading of an excerpt: line and column of the offset. -/
def heading (line column : Nat) : Text :=
  "(" ++ Text.ofNat line ++ ":" ++ Text.ofNat column ++ "):"

/-- The displayed lines with the indices from `lo` up to and without `hi`. -/
def rows (body : Text) (width lo hi : Nat) : List Text :=
  (List.range' lo (hi - lo)).map fun i : Nat => numbered (lines body) width i

theorem map_numbered_between (lo hi : Nat) :
    (between lo hi).map (numbered (lines body) width) = rows body width lo hi := by
  rw [between, rows, List.map_map, List.range'_eq_map_range, List.map_map,
    show ((hi : Int) - lo).toNat = hi - lo by omega]
  rfl

/-- What an excerpt is made of: a heading, the displayed lines in front of the line of the offset,
this line, the line of the caret, and the displayed lines behind. -/
theorem Lies.excerpt?_eq (h : Lies 0 body p k first line) (hp : p ≤ body.length) (n : Nat)
    {last : Nat} (hlast : last = min (k + n) ((lines body).length - 1))
    (hwidth : width = (Text.ofNat (last + 1)).length) :
    excerpt? body p n = some (Text.intercalate "\n" (heading (k + 1) (p - first + 1) ::
      (rows body width (k - n) k ++
        [label width k ++ line, Text.spaces (2 + width + (p - first + 1)) ++ "^"] ++
        rows body width (k + 1) (last + 1))) ++ "\n") := by
  have hk : k < (lines body).length := (List.getElem?_eq_some_iff.1 h.reads).1
  have hwidth : (Text.ofInt ((last : Int) + 1)).length = width := hwidth.symm
  rw [excerpt?, h.locate?_eq hp, Option.map_some]
  simp only [show ((k + 1 : Nat) : Int) - 1 = k by omega, Int.toNat_natCast,
    show max 0 ((k : Int) - n) = (k - n : Nat) by omega,
    show min ((k : Int) + n) ((lines body).length - 1) = last by omega, hwidth, Text.spaces_append,
    ← Nat.add_assoc, map_numbered_between, numbered_eq h.reads]
  rw [show ((k : Int) + 1) = (k + 1 : Nat) from rfl,
    show ((last : Int) + 1) = (last + 1 : Nat) from rfl, map_numbered_between]
  rfl

/-- The caret stands below the line of the offset, in its column. -/
theorem Lies.exists_excerpt (h : Lies 0 body p k first line) (hp : p ≤ body.length)
    (hdelta : 0 ≤ delta) :
    ∃ view label, excerpt? body p delta = some view ∧
      Points view (label ++ line) (label.length + (p - first)) := by
  have hk : k < (lines body).length := (List.getElem?_eq_some_iff.1 h.reads).1
  obtain ⟨n, rfl⟩ := Int.eq_ofNat_of_zero_le hdelta
  obtain ⟨width, hwidth⟩ :
      ∃ width, width = (Text.ofNat (min (k + n) ((lines body).length - 1) + 1)).length := ⟨_, rfl⟩
  refine ⟨_, label width k, h.excerpt?_eq hp n rfl hwidth, fun c hc => ?_, ?_⟩
  · rcases List.mem_append.1 hc with hc | hc
    · exact not_isBreak_label hc
    · exact not_isBreak_of_mem_lines (List.mem_of_getElem? h.reads) hc
  · have hlabel : (Text.ofNat (k + 1)).length ≤ width := by
      rw [hwidth]
      exact Text.length_ofNat_mono (by omega)
    rw [length_label hlabel,
      show 2 + width + 1 + (p - first) = 2 + width + (p - first + 1) by omega]
    exact ⟨_, _, Text.intercalate_pair _ _ _ _ _⟩

variable {i : Nat} {c : CodePoint}

/-- The caret of a code point stands in its column. -/
theorem exists_excerpt_at (hc : body[i]? = some c) (hdelta : 0 ≤ delta) :
    ∃ view shown n, excerpt? body i delta = some view ∧ Points view shown n ∧
      InColumn shown n c := by
  have hi : i < body.length := (List.getElem?_eq_some_iff.1 hc).1
  obtain ⟨k, first, line, h⟩ := exists_stands (Nat.le_of_lt hi)
  obtain ⟨view, label, hview, hpoints⟩ := h.toLies.exists_excerpt (Nat.le_of_lt hi) hdelta
  refine ⟨view, label ++ line, _, hview, hpoints, ?_⟩
  by_cases hbreak : IsBreak c
  · refine .inr ⟨hbreak, ?_⟩
    rw [List.length_append]
    exact Nat.add_le_add_left (h.outer c hc hbreak) _
  · refine .inl ?_
    rw [List.getElem?_append_right (Nat.le_add_right _ _), Nat.add_sub_cancel_left]
    exact (h.inner c hc hbreak).1

/-- The caret of the offset behind it stands one column further on. -/
theorem exists_excerpt_behind (hc : body[i]? = some c) (hdelta : 0 ≤ delta) :
    ∃ view shown n, excerpt? body (i + 1 : Nat) delta = some view ∧ Points view shown n ∧
      (¬IsBreak c → ∃ m, n = m + 1 ∧ shown[m]? = some c) := by
  have hi : i < body.length := (List.getElem?_eq_some_iff.1 hc).1
  by_cases hbreak : IsBreak c
  · obtain ⟨k, first, line, h⟩ := exists_stands (Nat.succ_le_of_lt hi)
    obtain ⟨view, label, hview, hpoints⟩ := h.toLies.exists_excerpt hi hdelta
    exact ⟨view, _, _, hview, hpoints, fun hnot => absurd hbreak hnot⟩
  · obtain ⟨k, first, line, h⟩ := exists_stands (Nat.le_of_lt hi)
    obtain ⟨view, label, hview, hpoints⟩ := (h.next hc hbreak).exists_excerpt hi hdelta
    have := h.le
    refine ⟨view, label ++ line, _, hview, hpoints, fun _ =>
      ⟨label.length + (i - first), by omega, ?_⟩⟩
    rw [List.getElem?_append_right (Nat.le_add_right _ _), Nat.add_sub_cancel_left]
    exact (h.inner c hc hbreak).1

theorem Points.append {view shown : Text} {n : Nat} (h : Points view shown n) (t : Text) :
    Points (t ++ view) shown n := by
  obtain ⟨hshown, before, after, rfl⟩ := h
  exact ⟨hshown, t ++ before, after, by simp only [List.append_assoc]⟩

end Source

end GraphSchema
