import GraphSchema.Proofs.Text.Block

/-!
# Block strings of the language

The line breaks and blanks of `Text.blockValue` are those of Unicode, more than the language has.
A raw text in which they take nothing away but spaces, tabs and ends of lines has the value that the
language defines, and no other.

## Main statements

* `Text.blockValue_eq_blockOf`: `blockValue` is the algorithm for breaks and blanks of Unicode.
* `Text.blockOf_eq_of_lost`: a raw text of which no ink is lost.
* `Text.blockValue_computes`: when `blockValue` is the value that the language defines.
-/

namespace GraphSchema

namespace Text

open CodePoint

variable {isSpace : CodePoint → Bool}

/-! ### The value that is computed -/

theorem brokenLines_cons_ne_nil (c : CodePoint) (rest : Text) : brokenLines (c :: rest) ≠ [] := by
  have hcons (d : CodePoint) (ls : List Text) : consLine d ls ≠ [] := by
    cases ls <;> simp [consLine]
  cases rest <;> grind [brokenLines]

/-- The lines of `brokenLines`: a break at the end opens no line there. -/
theorem lines_isLineBreak (raw : Text) :
    lines isLineBreak raw = brokenLines raw ∨ lines isLineBreak raw = brokenLines raw ++ [[]] := by
  have hlf : isLineBreak '\n' := by decide
  have hne : ('\n' : CodePoint) ≠ '\r' := by decide
  fun_induction brokenLines raw with
  | case1 => exact .inr rfl
  | case2 c hc => grind [lines]
  | case3 c hc => grind [lines, consLine]
  | case4 c d rest h ih => grind [lines]
  | case5 c d rest h hc ih => grind [lines]
  | case6 c d rest h hc ih =>
    have hcons : lines isLineBreak (c :: d :: rest) =
        consLine c (lines isLineBreak (d :: rest)) := by grind [lines]
    have := brokenLines_cons_ne_nil d rest
    cases hlines : brokenLines (d :: rest) <;> grind [consLine]

theorem indent?_eq (line : Text) :
    indent? line =
      if line.all CodePoint.isBlank then none else some (lead CodePoint.isBlank line) := by
  have hlength := congrArg List.length
    (List.takeWhile_append_dropWhile (p := CodePoint.isBlank) (l := line))
  grind [indent?, trimStart, lead, List.dropWhile_eq_nil_iff]

theorem unindent_eq (rest : List Text) :
    unindent rest = rest.map (List.drop (leastLead CodePoint.isBlank rest)) := by
  have hindents : rest.filterMap indent? =
      (rest.filter fun line => !line.all CodePoint.isBlank).map (lead CodePoint.isBlank) := by
    induction rest with
    | nil => rfl
    | cons line rest ih => grind [indent?_eq]
  rw [unindent, commonIndent?, hindents, leastLead]
  split <;> rename_i h <;> rw [h]
  · exact (List.map_id rest).symm
  · rfl

/-- A blank line at the end changes nothing. -/
theorem trimmed_shifted_append (ls : List Text) :
    trimmed isSpace (shifted isSpace (ls ++ [[]])) = trimmed isSpace (shifted isSpace ls) := by
  have htrim (ms : List Text) : trimmed isSpace (ms ++ [[]]) = trimmed isSpace ms := by
    simp only [trimmed, List.dropWhile_append]
    split
    · rename_i h
      rw [List.isEmpty_iff.1 h]
      rfl
    · exact List.rdropWhile_concat_pos _ _ _ rfl
  cases ls with
  | nil => exact htrim []
  | cons first rest =>
    have hlead : leastLead isSpace (rest ++ [[]]) = leastLead isSpace rest := by simp [leastLead]
    simpa [shifted, hlead] using htrim (first :: rest.map (List.drop (leastLead isSpace rest)))

/-- `blockValue` is the algorithm for the line breaks and the blanks of Unicode. -/
theorem blockValue_eq_blockOf (raw : Text) :
    raw.blockValue = blockOf isLineBreak CodePoint.isBlank raw := by
  have htrim : trimmed CodePoint.isBlank (shifted CodePoint.isBlank (lines isLineBreak raw)) =
      trimmed CodePoint.isBlank (shifted CodePoint.isBlank (brokenLines raw)) := by
    rcases lines_isLineBreak raw with h | h <;> rw [h]
    exact trimmed_shifted_append _
  rw [blockOf, htrim, blockValue]
  split
  · rename_i h
    rw [h]
    rfl
  · rename_i first rest h
    rw [h, unindent_eq]
    rfl

/-! ### The two notions of breaks and spaces -/

theorem isLineBreak_of_endsLine {c : CodePoint} (h : c.endsLine) : c.isLineBreak := by
  simp only [endsLine, Bool.or_eq_true, decide_eq_true_eq] at h
  rcases h with rfl | rfl <;> decide

theorem isBlank_of_isMarginal {c : CodePoint} (h : isMarginal c) : c.isBlank := by
  simp only [isMarginal, Bool.or_eq_true, decide_eq_true_eq] at h
  rcases h with rfl | rfl <;> decide

theorem all_isBlank {line : Text} (h : line.all isMarginal) : line.all CodePoint.isBlank :=
  List.all_eq_true.2 fun c hc => isBlank_of_isMarginal (List.all_eq_true.1 h c hc)

theorem isLineBreak_eq_false_of_isMarginal {c : CodePoint} (h : isMarginal c) :
    c.isLineBreak = false := by
  simp only [isMarginal, Bool.or_eq_true, decide_eq_true_eq] at h
  rcases h with rfl | rfl <;> decide

theorem isMarginal_of_not_isInk {c : CodePoint} (hink : c.isInk = false)
    (hend : c.endsLine = false) : isMarginal c := by
  simpa [isInk, hend] using hink

theorem endsLine_of_isLineBreak {c : CodePoint} (hink : c.isInk = false)
    (hbreak : c.isLineBreak) : c.endsLine := by
  cases hend : c.endsLine
  · rw [isLineBreak_eq_false_of_isMarginal (isMarginal_of_not_isInk hink hend)] at hbreak
    exact hbreak
  · rfl

/-- The language's value holds all the ink of the raw text. -/
theorem countP_blockStringValue (raw : Text) :
    (blockStringValue raw).countP isInk = raw.countP isInk := by
  refine (countP_blockOf_iff (by decide) (by decide) raw).2 fun c hc => ?_
  rcases of_mem_lost hc with h | h <;> simp [isInk, h]

/-- Lines of a text that loses no ink are cut where the language cuts them. -/
theorem lines_eq_of_lost {raw : Text}
    (h : ∀ c ∈ lost isLineBreak CodePoint.isBlank raw, c.isInk = false) :
    lines isLineBreak raw = lines endsLine raw := by
  refine lines_congr fun c hc => ?_
  by_cases hbreak : c.isLineBreak
  · have hlost : c ∈ lost isLineBreak CodePoint.isBlank raw := by simp [lost, hc, hbreak]
    rw [hbreak, endsLine_of_isLineBreak (h c hlost) hbreak]
  · have hend : ¬ c.endsLine := fun hend => hbreak (isLineBreak_of_endsLine hend)
    simp_all

/-- A narrower notion takes as much off the front of a list if all that the wider one takes off
satisfies it. -/
theorem dropWhile_eq_of_takeWhile {p q : Text → Bool} (ls : List Text)
    (hqp : ∀ line, q line → p line) (h : ∀ line ∈ ls.takeWhile p, q line) :
    ls.dropWhile p = ls.dropWhile q := by
  induction ls with
  | nil => rfl
  | cons line ls ih =>
    by_cases hp : p line
    · rw [List.takeWhile_cons_of_pos hp, List.forall_mem_cons] at h
      rw [List.dropWhile_cons_of_pos hp, List.dropWhile_cons_of_pos h.1, ih h.2]
    · rw [List.dropWhile_cons_of_neg hp, List.dropWhile_cons_of_neg fun hq => hp (hqp line hq)]

/-- Lines are trimmed alike if the lines of blanks that go are lines of spaces and tabs. -/
theorem trimmed_eq_of_ends {ls : List Text}
    (h : ∀ line ∈ ends CodePoint.isBlank ls, line.all isMarginal) :
    trimmed CodePoint.isBlank ls = trimmed isMarginal ls := by
  have hfront := dropWhile_eq_of_takeWhile ls (fun _ => all_isBlank) fun line hline =>
    h line (List.mem_append_left _ hline)
  have hback := dropWhile_eq_of_takeWhile (ls.dropWhile (·.all CodePoint.isBlank)).reverse
    (fun _ => all_isBlank) fun line hline =>
      h line (List.mem_append_right _ (List.mem_reverse.2 hline))
  rw [trimmed, List.rdropWhile, hback, hfront]
  rfl

/-- The common indentation is the same if the blanks that go are spaces and tabs. Where lines of
blanks only follow the first line there is none, and those lines go at the end. -/
theorem leastLead_eq_of_fronts {first : Text} {rest : List Text}
    (hfront : ∀ front ∈ fronts CodePoint.isBlank (first :: rest), front.all isMarginal)
    (hends : ∀ line ∈ ends CodePoint.isBlank (shifted CodePoint.isBlank (first :: rest)),
      line.all isMarginal) :
    leastLead CodePoint.isBlank rest = leastLead isMarginal rest := by
  by_cases h : ∃ line ∈ rest, ¬ line.all CodePoint.isBlank
  · have hmarginal : ∃ line ∈ rest, ¬ line.all isMarginal := by
      obtain ⟨line, hline, hno⟩ := h
      exact ⟨line, hline, fun hall => hno (all_isBlank hall)⟩
    apply Nat.le_antisymm
    · apply (le_leastLead_iff hmarginal).2
      exact fun line hline => hfront _ (List.mem_map_of_mem hline)
    · apply (le_leastLead_iff h).2
      exact fun line hline => all_isBlank (all_take_leastLead hline)
  · have hblank : ∀ line ∈ rest, line.all CodePoint.isBlank :=
      fun line hline => by_contra fun hno => h ⟨line, hline, hno⟩
    have hzero := leastLead_eq_zero hblank
    rw [hzero, leastLead_eq_zero]
    intro line hline
    apply hends
    have hshifted : shifted CodePoint.isBlank (first :: rest) = first :: rest := by
      rw [shifted, hzero]
      exact congrArg _ (List.map_id rest)
    rw [hshifted]
    exact mem_ends_of_all hblank hline

/-- Lines that go, or that are taken off, hold no line break. -/
theorem all_isMarginal_of_lost {raw line : Text}
    (h : ∀ c ∈ lost isLineBreak CodePoint.isBlank raw, c.isInk = false)
    (hline : line ∈ fronts CodePoint.isBlank (lines isLineBreak raw) ∨
      line ∈ ends CodePoint.isBlank (shifted CodePoint.isBlank (lines isLineBreak raw))) :
    line.all isMarginal := by
  refine List.all_eq_true.2 fun c hc => ?_
  set ls := lines isLineBreak raw with hls
  have hmem : c ∈ (fronts CodePoint.isBlank ls).flatten ∨
      c ∈ (ends CodePoint.isBlank (shifted CodePoint.isBlank ls)).flatten :=
    hline.imp (fun hline => List.mem_flatten.2 ⟨line, hline, hc⟩)
      fun hline => List.mem_flatten.2 ⟨line, hline, hc⟩
  have hlost : c ∈ lost isLineBreak CodePoint.isBlank raw := by
    rw [lost, List.append_assoc]
    exact List.mem_append_right _ (List.mem_append.2 hmem)
  have hin : c ∈ ls.flatten := by
    rcases hmem with hmem | hmem
    · exact (shifted_perm CodePoint.isBlank ls).mem_iff.1 (List.mem_append_left _ hmem)
    · have hshifted := (trimmed_perm CodePoint.isBlank _).mem_iff.1 (List.mem_append_left _ hmem)
      exact (shifted_perm CodePoint.isBlank ls).mem_iff.1 (List.mem_append_right _ hshifted)
  have hbreak : c.isLineBreak = false := isBreak_eq_false_of_mem_lines (by decide) hin
  apply isMarginal_of_not_isInk (h c hlost)
  exact Bool.eq_false_iff.2 fun hend => by simp [isLineBreak_of_endsLine hend] at hbreak

/-- A raw text of which no ink is lost has the value that the language defines. -/
theorem blockOf_eq_of_lost {raw : Text}
    (h : ∀ c ∈ lost isLineBreak CodePoint.isBlank raw, c.isInk = false) :
    blockOf isLineBreak CodePoint.isBlank raw = blockStringValue raw := by
  have hends : ∀ line ∈ ends CodePoint.isBlank (shifted CodePoint.isBlank (lines isLineBreak raw)),
      line.all isMarginal := fun line hline => all_isMarginal_of_lost h (.inr hline)
  have hshifted : shifted CodePoint.isBlank (lines isLineBreak raw) =
      shifted isMarginal (lines isLineBreak raw) := by
    have hfronts : ∀ front ∈ fronts CodePoint.isBlank (lines isLineBreak raw),
        front.all isMarginal := fun front hfront => all_isMarginal_of_lost h (.inl hfront)
    cases hls : lines isLineBreak raw with
    | nil => rfl
    | cons first rest =>
      rw [hls] at hfronts hends
      rw [shifted, shifted, leastLead_eq_of_fronts hfronts hends]
  rw [blockOf, trimmed_eq_of_ends hends, hshifted, lines_eq_of_lost h]
  rfl

/-- A raw block string has the value that the language defines exactly if its value holds all of it
but spaces, tabs and ends of lines; the wider line breaks and blanks take something else away from
the other raw texts. -/
theorem blockValue_computes (raw : Text) :
    raw.blockValue = blockOf isLineBreak CodePoint.isBlank raw ∧
      (raw.blockValue = blockStringValue raw ↔
        raw.blockValue.countP isInk = raw.countP isInk) := by
  refine ⟨blockValue_eq_blockOf raw, ?_, ?_⟩
  · intro h
    rw [h, countP_blockStringValue]
  · intro h
    rw [blockValue_eq_blockOf] at h ⊢
    exact blockOf_eq_of_lost ((countP_blockOf_iff (by decide) (by decide) raw).1 h)

example : blockValue "a\u2028b" = "a\nb" ∧ blockStringValue "a\u2028b" = "a\u2028b" := by
  decide

/-- Raw texts without other line breaks and blanks than those of the language are among them. -/
theorem blockValue_eq_blockStringValue {raw : Text}
    (h : ∀ c ∈ raw, c.isLineBreak ∨ c.isBlank → c.isInk = false) :
    raw.blockValue = blockStringValue raw := by
  rw [blockValue_eq_blockOf]
  refine blockOf_eq_of_lost fun c hc => h c ?_ (of_mem_lost hc)
  exact (lost_perm CodePoint.isBlank (by decide) raw).mem_iff.1 (List.mem_append_left _ hc)

end Text

end GraphSchema
