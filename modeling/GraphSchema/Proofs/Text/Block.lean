import GraphSchema.Text.Block
import GraphSchema.Text.Margin
import Mathlib.Data.List.DropRight
import Mathlib.Data.List.MinMax

/-!
# The value of a block string

A block string is cut into lines, loses the indentation that its further lines have in common, and
loses blank lines at both ends. What is a line break and what is a space are parameters of this
algorithm: the language takes carriage returns and line feeds for the one and spaces and tabs for
the other, `Text.blockValue` takes the wider sets of Unicode. Both give the same value for the raw
texts of which the wider sets take nothing else away.

## Main definitions

* `Text.blockOf`: the value of a raw text, for given line breaks and spaces.
* `Text.blockStringValue`: the value that the language defines.
* `Text.lost`: what is lost of a raw text.
* `CodePoint.isInk`: what the language keeps of a raw text.

## Main statements

* `Text.le_leastLead_iff`: which indentation the lines have in common.
* `Text.lost_perm`: a raw text is what is lost of it and what its value is made of.
* `Text.countP_blockOf_iff`: what a value keeps.
-/

namespace GraphSchema

namespace CodePoint

/-- A line feed or a carriage return. -/
def endsLine (c : CodePoint) : Bool := c = '\n' || c = '\r'

/-- Neither a space or tab nor the end of a line. -/
def isInk (c : CodePoint) : Bool := !(Text.isMarginal c || c.endsLine)

end CodePoint

namespace Text

open CodePoint

variable (isBreak isSpace keep : CodePoint → Bool)

/-- The lines of a text; a carriage return with a line feed after it is one break, and a break at
the end opens an empty line. -/
def lines : Text → List Text
  | [] => [[]]
  | c :: rest =>
    if c = '\r' ∧ rest.head? = some ('\n' : CodePoint) then lines rest
    else if isBreak c then [] :: lines rest
    else consLine c (lines rest)

/-- The number of spaces in front of a line. -/
def lead (line : Text) : Nat := (line.takeWhile isSpace).length

/-- The least number of spaces in front of a line that holds anything else. -/
def leastLead (ls : List Text) : Nat :=
  ((ls.filter fun line => !line.all isSpace).map (lead isSpace)).min?.getD 0

/-- The lines after the first without the spaces that they have in common. -/
def shifted : List Text → List Text
  | [] => []
  | first :: rest => first :: rest.map (List.drop (leastLead isSpace rest))

/-- Without the lines of spaces at both ends. -/
def trimmed (ls : List Text) : List Text :=
  (ls.dropWhile (·.all isSpace)).rdropWhile (·.all isSpace)

/-- The value of a raw block string. -/
def blockOf (raw : Text) : Text :=
  intercalate "\n" (trimmed isSpace (shifted isSpace (lines isBreak raw)))

/-- The value of a raw block string in the language: lines end at carriage returns and line feeds,
and are indented by spaces and tabs. -/
def blockStringValue : Text → Text := blockOf endsLine isMarginal

variable {isBreak isSpace keep}

/-! ### Lines -/

@[simp]
theorem flatten_consLine (c : CodePoint) (ls : List Text) :
    (consLine c ls).flatten = c :: ls.flatten := by
  cases ls <;> simp [consLine]

/-- The lines of a text hold all of it but the breaks. -/
theorem flatten_lines (hcr : isBreak '\r') (raw : Text) :
    (lines isBreak raw).flatten = raw.filter (!isBreak ·) := by
  induction raw with
  | nil => rfl
  | cons c rest ih => grind [lines, flatten_consLine]

/-- No line holds a break. -/
theorem isBreak_eq_false_of_mem_lines (hcr : isBreak '\r') {raw : Text} {c : CodePoint}
    (h : c ∈ (lines isBreak raw).flatten) : isBreak c = false := by
  rw [flatten_lines hcr, List.mem_filter] at h
  simpa using h.2

/-- Only the breaks that occur in a text count. -/
theorem lines_congr {isBreak' : CodePoint → Bool} {raw : Text}
    (h : ∀ c ∈ raw, isBreak c = isBreak' c) : lines isBreak raw = lines isBreak' raw := by
  induction raw with
  | nil => rfl
  | cons c rest ih =>
    have hrest := ih fun d hd => h d (List.mem_cons_of_mem _ hd)
    simp only [lines, hrest, h c List.mem_cons_self]

/-! ### The common indentation -/

/-- A line has `n` spaces in front if its first `n` code points are spaces. -/
theorem le_lead_iff {n : Nat} {line : Text} (h : ¬ line.all isSpace) :
    n ≤ lead isSpace line ↔ (line.take n).all isSpace := by
  induction line generalizing n with
  | nil => simp at h
  | cons c line ih =>
    cases n with
    | zero => simp
    | succ n =>
      by_cases hc : isSpace c
      · have hline : ¬ line.all isSpace := by simpa [hc] using h
        simpa [lead, hc] using ih hline
      · simp [lead, hc]

/-- The lines have `n` spaces in common if the first `n` code points of each are spaces; a line of
spaces only may be shorter. -/
theorem le_leastLead_iff {n : Nat} {ls : List Text} (h : ∃ line ∈ ls, ¬ line.all isSpace) :
    n ≤ leastLead isSpace ls ↔ ∀ line ∈ ls, (line.take n).all isSpace := by
  obtain ⟨inked, hinked, hno⟩ := h
  obtain ⟨m, hm⟩ : ∃ m,
      ((ls.filter fun line => !line.all isSpace).map (lead isSpace)).min? = some m := by
    apply Option.ne_none_iff_exists'.1
    simpa [List.filter_eq_nil_iff] using ⟨inked, hinked, by simpa using hno⟩
  rw [leastLead, hm, Option.getD_some, List.le_min?_iff hm]
  constructor
  · intro hle line hline
    by_cases hblank : line.all isSpace
    · exact List.all_eq_true.2 fun c hc => List.all_eq_true.1 hblank c (List.mem_of_mem_take hc)
    · apply (le_lead_iff hblank).1
      exact hle _ (List.mem_map_of_mem (List.mem_filter.2 ⟨hline, by simpa using hblank⟩))
  · intro hall b hb
    obtain ⟨line, hline, rfl⟩ := List.mem_map.1 hb
    obtain ⟨hline, hblank⟩ := List.mem_filter.1 hline
    exact (le_lead_iff (by simpa using hblank)).2 (hall line hline)

theorem leastLead_eq_zero {ls : List Text} (h : ∀ line ∈ ls, line.all isSpace) :
    leastLead isSpace ls = 0 := by
  have hnone : (ls.filter fun line => !line.all isSpace) = [] := by simpa using h
  simp [leastLead, hnone]

/-- What is taken off the front of a line are spaces. -/
theorem all_take_leastLead {ls : List Text} {line : Text} (hline : line ∈ ls) :
    (line.take (leastLead isSpace ls)).all isSpace := by
  by_cases h : ∃ line ∈ ls, ¬ line.all isSpace
  · exact (le_leastLead_iff h).1 (Nat.le_refl _) line hline
  · have hzero := leastLead_eq_zero fun line hline => by_contra fun hno => h ⟨line, hline, hno⟩
    simp [hzero]

/-! ### What is lost

A value is its raw text without the breaks, without what stands in front of the further lines, and
without the lines at both ends. -/

variable (isSpace) in
/-- What is taken off the front of the lines after the first. -/
def fronts (ls : List Text) : List Text := ls.tail.map (List.take (leastLead isSpace ls.tail))

variable (isSpace) in
/-- The lines that are trimmed at both ends. -/
def ends (ls : List Text) : List Text :=
  ls.takeWhile (·.all isSpace) ++ (ls.dropWhile (·.all isSpace)).rtakeWhile (·.all isSpace)

variable (isBreak isSpace) in
/-- What is lost of a raw text. -/
def lost (raw : Text) : Text :=
  let ls := lines isBreak raw
  raw.filter isBreak ++ (fronts isSpace ls).flatten ++ (ends isSpace (shifted isSpace ls)).flatten

theorem all_of_mem_fronts {ls : List Text} {front : Text} (h : front ∈ fronts isSpace ls) :
    front.all isSpace := by
  obtain ⟨line, hline, rfl⟩ := List.mem_map.1 h
  exact all_take_leastLead hline

theorem all_of_mem_ends {ls : List Text} {line : Text} (h : line ∈ ends isSpace ls) :
    line.all isSpace := by
  rcases List.mem_append.1 h with h | h
  · exact List.mem_takeWhile_imp (p := fun line : Text => line.all isSpace) h
  · exact List.mem_rtakeWhile_imp (p := fun line : Text => line.all isSpace) h

/-- Lines of spaces after the first line go at the end. -/
theorem mem_ends_of_all {first line : Text} {rest : List Text}
    (h : ∀ line ∈ rest, line.all isSpace) (hline : line ∈ rest) :
    line ∈ ends isSpace (first :: rest) := by
  by_cases hfirst : first.all isSpace
  · apply List.mem_append_left
    have hall : ∀ line ∈ first :: rest, line.all isSpace := List.forall_mem_cons.2 ⟨hfirst, h⟩
    rw [List.takeWhile_eq_self_iff.2 hall]
    exact List.mem_cons_of_mem _ hline
  · apply List.mem_append_right
    have hrest : ∀ line ∈ rest.reverse, line.all isSpace :=
      fun line hline => h line (List.mem_reverse.1 hline)
    rw [List.dropWhile_cons_of_neg (p := fun line : Text => line.all isSpace) hfirst,
      List.rtakeWhile, List.reverse_cons, List.takeWhile_append_of_pos hrest]
    simp [hline]

theorem lines_perm (hcr : isBreak '\r') (raw : Text) :
    (raw.filter isBreak ++ (lines isBreak raw).flatten).Perm raw := by
  rw [flatten_lines hcr]
  exact List.filter_append_perm isBreak raw

variable (isSpace) in
theorem shifted_perm (ls : List Text) :
    ((fronts isSpace ls).flatten ++ (shifted isSpace ls).flatten).Perm ls.flatten := by
  have hcut (n : Nat) (rest : List Text) : ((rest.map (List.take n)).flatten ++
      (rest.map (List.drop n)).flatten).Perm rest.flatten := by
    induction rest with
    | nil => rfl
    | cons line rest ih =>
      refine List.perm_iff_count.2 fun c => ?_
      have hline := congrArg (List.count c) (List.take_append_drop n line)
      have hrest := List.perm_iff_count.1 ih c
      grind
  cases ls with
  | nil => rfl
  | cons first rest =>
    refine List.perm_iff_count.2 fun c => ?_
    have hrest := List.perm_iff_count.1 (hcut (leastLead isSpace rest) rest) c
    grind [fronts, shifted]

variable (isSpace) in
theorem trimmed_perm (ls : List Text) :
    ((ends isSpace ls).flatten ++ (trimmed isSpace ls).flatten).Perm ls.flatten := by
  have hend (m : List Text) :
      m.rdropWhile (·.all isSpace) ++ m.rtakeWhile (·.all isSpace) = m := by
    simp [List.rdropWhile, List.rtakeWhile, ← List.reverse_append]
  have hls : ls.takeWhile (·.all isSpace) ++ (trimmed isSpace ls ++
      (ls.dropWhile (·.all isSpace)).rtakeWhile (·.all isSpace)) = ls := by
    rw [trimmed, hend, List.takeWhile_append_dropWhile]
  refine List.perm_iff_count.2 fun c => ?_
  have hcount := congrArg (List.count c ∘ List.flatten) hls
  grind [ends]

variable (isSpace) in
/-- A raw text is what is lost of it and what its value is made of. -/
theorem lost_perm (hcr : isBreak '\r') (raw : Text) :
    (lost isBreak isSpace raw ++
      (trimmed isSpace (shifted isSpace (lines isBreak raw))).flatten).Perm raw := by
  refine List.perm_iff_count.2 fun c => ?_
  have hlines := List.perm_iff_count.1 (lines_perm hcr raw) c
  have hshifted := List.perm_iff_count.1 (shifted_perm isSpace (lines isBreak raw)) c
  have htrimmed := List.perm_iff_count.1
    (trimmed_perm isSpace (shifted isSpace (lines isBreak raw))) c
  grind [lost]

theorem countP_intercalate (h : keep '\n' = false) (ls : List Text) :
    (intercalate "\n" ls).countP keep = ls.flatten.countP keep := by
  have hsep : List.countP keep (("\n" : String) : Text) = 0 := by simpa [ofString] using h
  fun_induction intercalate <;> simp_all

/-- A value keeps what is not a line feed if none of it is lost. -/
theorem countP_blockOf_iff (hcr : isBreak '\r') (hlf : keep '\n' = false) (raw : Text) :
    (blockOf isBreak isSpace raw).countP keep = raw.countP keep ↔
      ∀ c ∈ lost isBreak isSpace raw, keep c = false := by
  have h := (lost_perm isSpace hcr raw).countP_eq keep
  rw [List.countP_append] at h
  rw [blockOf, countP_intercalate hlf, ← h, Nat.right_eq_add]
  simp [List.countP_eq_zero]

/-- What is lost are breaks and spaces. -/
theorem of_mem_lost {raw : Text} {c : CodePoint} (h : c ∈ lost isBreak isSpace raw) :
    isBreak c ∨ isSpace c := by
  rcases List.mem_append.1 h with h | h
  · rcases List.mem_append.1 h with h | h
    · exact .inl (List.mem_filter.1 h).2
    · obtain ⟨front, hfront, hc⟩ := List.mem_flatten.1 h
      exact .inr (List.all_eq_true.1 (all_of_mem_fronts hfront) c hc)
  · obtain ⟨line, hline, hc⟩ := List.mem_flatten.1 h
    exact .inr (List.all_eq_true.1 (all_of_mem_ends hline) c hc)

end Text

end GraphSchema
