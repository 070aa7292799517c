import GraphSchema.Source.Line
import Mathlib.Data.List.Basic

/-!
# The line of an offset

The lines of a text start at the line starts in order, and each offset of the text lies in one of
them: the last one that does not start behind it. Bisection finds this line.

## Main definitions

* `Source.IsBreak`: the code points that end lines.
* `Source.Lies`, `Source.Stands`: an offset lies in a line, which shows what stands there.

## Main statements

* `Source.pairwise_lineStarts`: line starts are in order.
* `Source.bisect_eq`: what bisection finds.
* `Source.exists_stands`, `Source.Lies.locate?_eq`: the line of an offset, and its address.
* `Source.isSome_locate?`: which offsets have an address.
* `Source.not_isBreak_of_mem_lines`: no line goes on behind its end.
-/

namespace GraphSchema

namespace Source

/-- The code point ends a line. -/
def IsBreak (c : CodePoint) : Prop := c = '\n' ∨ c = '\r'

instance (c : CodePoint) : Decidable (IsBreak c) := inferInstanceAs (Decidable (_ ∨ _))

variable {start first p k : Nat} {t line : Text} {c : CodePoint}

/-! ## Line starts -/

theorem lt_of_mem_separatorEnds {s : Nat} (h : s ∈ separatorEnds start t) : start < s := by
  fun_induction separatorEnds start t with
  | case1 => cases h
  | case2 start c hc =>
    rw [List.mem_singleton.1 h]
    exact Nat.lt_succ_self start
  | case3 => cases h
  | case4 start c d rest hc ih =>
    rcases List.mem_cons.1 h with rfl | h
    · omega
    · have := ih h
      omega
  | case5 start c d rest _ hc ih =>
    rcases List.mem_cons.1 h with rfl | h
    · exact Nat.lt_succ_self start
    · exact Nat.lt_of_succ_lt (ih h)
  | case6 start c d rest _ hc ih => exact Nat.lt_of_succ_lt (ih h)

theorem pairwise_separatorEnds (start : Nat) (t : Text) :
    (start :: separatorEnds start t).Pairwise (· < ·) := by
  refine .cons (fun s hs => lt_of_mem_separatorEnds hs) ?_
  fun_induction separatorEnds start t with
  | case1 => exact .nil
  | case2 => exact List.pairwise_singleton _ _
  | case3 => exact .nil
  | case4 start c d rest hc ih => exact .cons (fun s hs => lt_of_mem_separatorEnds hs) ih
  | case5 start c d rest _ hc ih => exact .cons (fun s hs => lt_of_mem_separatorEnds hs) ih
  | case6 start c d rest _ hc ih => exact ih

/-- The lines of a text start one behind the other. -/
theorem pairwise_lineStarts (body : Text) : (lineStarts body).Pairwise (· < ·) :=
  pairwise_separatorEnds 0 body

theorem lineStarts_lt {body : Text} {i j s s' : Nat} (h : i < j)
    (hs : (lineStarts body)[i]? = some s) (hs' : (lineStarts body)[j]? = some s') : s < s' := by
  obtain ⟨hi, rfl⟩ := List.getElem?_eq_some_iff.1 hs
  obtain ⟨hj, rfl⟩ := List.getElem?_eq_some_iff.1 hs'
  exact List.pairwise_iff_getElem.1 (pairwise_lineStarts body) i j hi hj h

/-! ## The line of an offset -/

/-- In the text `t`, which starts at the offset `start`, the offset `p` lies in the line with the
index `k`, which starts at `first` and shows the text `shown`. -/
structure Lies (start : Nat) (t : Text) (p k first : Nat) (shown : Text) : Prop where
  starts : (start :: separatorEnds start t)[k]? = some first
  reads : (lines t)[k]? = some shown
  le : first ≤ p
  lt : ∀ s ∈ (separatorEnds start t).drop k, p < s

/-- The line shows the code point at the offset, and the next offset lies in the same line. A code
point that ends the line stands behind what is shown. -/
structure Stands (start : Nat) (t : Text) (p k first : Nat) (shown : Text) : Prop
    extends Lies start t p k first shown where
  inner : ∀ c, t[p - start]? = some c → ¬IsBreak c →
    shown[p - first]? = some c ∧ ∀ s ∈ (separatorEnds start t).drop k, p + 1 < s
  outer : ∀ c, t[p - start]? = some c → IsBreak c → shown.length ≤ p - first

theorem lines_ne_nil (t : Text) : lines t ≠ [] := by
  have hcons : ∀ c ls, consLine c ls ≠ [] := fun c ls => by cases ls <;> exact nofun
  fun_cases lines t with
  | case1 => exact nofun
  | case2 => exact nofun
  | case3 => exact nofun
  | case4 => exact nofun
  | case5 => exact nofun
  | case6 => exact hcons _ _

/-- Offsets in front of, or behind, the end of an empty line. -/
theorem exists_stands_break {w rest : Text} (hw : ∀ c ∈ w, IsBreak c)
    (hstarts : separatorEnds start (w ++ rest) =
      (start + w.length) :: separatorEnds (start + w.length) rest)
    (hlines : lines (w ++ rest) = [] :: lines rest) (h : start ≤ p)
    (ih : start + w.length ≤ p → ∃ k first line, Stands (start + w.length) rest p k first line) :
    ∃ k first line, Stands start (w ++ rest) p k first line := by
  by_cases hp : start + w.length ≤ p
  · obtain ⟨k, first, line, hstands⟩ := ih hp
    have hget : (w ++ rest)[p - start]? = rest[p - (start + w.length)]? := by
      rw [List.getElem?_append_right (by omega), Nat.sub_add_eq]
    refine ⟨k + 1, first, line, ⟨?_, ?_, hstands.le, ?_⟩, fun c hc hbreak => ?_,
      fun c hc => hstands.outer c (hget ▸ hc)⟩
    · rw [hstarts]
      exact hstands.starts
    · rw [hlines]
      exact hstands.reads
    · rw [hstarts]
      exact hstands.lt
    · rw [hstarts]
      exact hstands.inner c (hget ▸ hc) hbreak
  · refine ⟨0, start, [], ⟨rfl, by rw [hlines]; rfl, h, ?_⟩, fun c hc hbreak => ?_,
      fun _ _ _ => Nat.zero_le _⟩
    · rw [hstarts]
      intro s hs
      rcases List.mem_cons.1 hs with rfl | hs
      · omega
      · have := lt_of_mem_separatorEnds hs
        omega
    · rw [List.getElem?_append_left (by omega)] at hc
      exact absurd (hw c (List.mem_of_getElem? hc)) hbreak

/-- Offsets in front of, or behind, a code point that does not end a line. -/
theorem exists_stands_cons {rest : Text} (hc : ¬IsBreak c)
    (hstarts : separatorEnds start (c :: rest) = separatorEnds (start + 1) rest)
    (hlines : lines (c :: rest) = consLine c (lines rest)) (h : start ≤ p)
    (ih : start + 1 ≤ p → ∃ k first line, Stands (start + 1) rest p k first line) :
    ∃ k first line, Stands start (c :: rest) p k first line := by
  obtain ⟨line, more, hrest⟩ : ∃ line more, lines rest = line :: more :=
    List.exists_cons_of_ne_nil (lines_ne_nil rest)
  rw [hrest, consLine] at hlines
  -- The code point is put in front of the first line of the rest; all other lines stay.
  by_cases hp : start + 1 ≤ p
  · obtain ⟨k, first, line', hstands⟩ := ih hp
    have hget : (c :: rest)[p - start]? = rest[p - (start + 1)]? := by
      rw [show p - start = p - (start + 1) + 1 by omega, List.getElem?_cons_succ]
    cases k with
    | zero =>
      obtain rfl : start + 1 = first := Option.some.inj hstands.starts
      have hline := hstands.reads
      rw [hrest] at hline
      obtain rfl : line = line' := Option.some.inj hline
      refine ⟨0, start, c :: line, ⟨rfl, by rw [hlines]; rfl, h, by rw [hstarts]; exact hstands.lt⟩,
        fun d hd hbreak => ?_, fun d hd hbreak => ?_⟩
      · rw [hstarts, show p - start = p - (start + 1) + 1 by omega]
        exact hstands.inner d (hget ▸ hd) hbreak
      · have := hstands.outer d (hget ▸ hd) hbreak
        rw [List.length_cons]
        omega
    | succ k =>
      refine ⟨k + 1, first, line', ⟨by rw [hstarts]; exact hstands.starts, ?_, hstands.le,
        by rw [hstarts]; exact hstands.lt⟩, fun d hd hbreak => ?_,
        fun d hd => hstands.outer d (hget ▸ hd)⟩
      · have hline := hstands.reads
        rw [hrest] at hline
        rw [hlines]
        exact hline
      · rw [hstarts]
        exact hstands.inner d (hget ▸ hd) hbreak
  · obtain rfl : start = p := by omega
    have hbehind : ∀ s ∈ separatorEnds start (c :: rest), start + 1 < s := by
      rw [hstarts]
      exact fun s hs => lt_of_mem_separatorEnds hs
    refine ⟨0, start, c :: line, ⟨rfl, by rw [hlines]; rfl, h,
      fun s hs => Nat.lt_of_succ_lt (hbehind s hs)⟩, fun d hd hbreak => ⟨?_, hbehind⟩,
      fun d hd hbreak => ?_⟩
    · rw [Nat.sub_self] at hd ⊢
      exact hd
    · rw [Nat.sub_self] at hd
      obtain rfl : c = d := Option.some.inj hd
      exact absurd hbreak hc

theorem exists_stands_from (h : start ≤ p) (hp : p ≤ start + t.length) :
    ∃ k first line, Stands start t p k first line := by
  have hempty : ∀ {start}, start ≤ p → p ≤ start → ∃ k first line, Stands start [] p k first line :=
    fun {start} h hp => ⟨0, start, [], ⟨rfl, rfl, h, by simp [separatorEnds]⟩, by simp, by simp⟩
  fun_induction separatorEnds start t with
  | case1 start => exact hempty h hp
  | case2 start c hc =>
    exact exists_stands_break (w := [c]) (by simpa [IsBreak] using hc) (by simp [separatorEnds, hc])
      (by simp [lines, hc]) h fun h => hempty h hp
  | case3 start c hc =>
    exact exists_stands_cons hc (by simp [separatorEnds, hc]) (by simp [lines, hc, consLine]) h
      fun h => hempty h hp
  | case4 start c d rest hc ih =>
    obtain ⟨rfl, rfl⟩ := hc
    refine exists_stands_break (w := ['\r', '\n']) (by simp [IsBreak]) (by simp [separatorEnds])
      (by simp [lines]) h fun h => ih h ?_
    simp only [List.length_cons] at hp
    omega
  | case5 start c d rest hcrlf hc ih =>
    refine exists_stands_break (w := [c]) (by simpa [IsBreak] using hc)
      (by simp [separatorEnds, hcrlf, hc]) (by simp [lines, hcrlf, hc]) h fun h => ih h ?_
    simp only [List.length_cons] at hp ⊢
    omega
  | case6 start c d rest hcrlf hc ih =>
    refine exists_stands_cons hc (by simp [separatorEnds, hcrlf, hc]) (by simp [lines, hcrlf, hc])
      h fun h => ih h ?_
    simp only [List.length_cons] at hp ⊢
    omega

/-- Each offset of a text lies in a line. -/
theorem exists_stands {body : Text} (h : p ≤ body.length) :
    ∃ k first line, Stands 0 body p k first line :=
  exists_stands_from (Nat.zero_le p) (by rwa [Nat.zero_add])

/-- Behind a code point that does not end the line, the line goes on. -/
theorem Stands.next (h : Stands start t p k first line) (hc : t[p - start]? = some c)
    (hbreak : ¬IsBreak c) : Lies start t (p + 1) k first line :=
  ⟨h.starts, h.reads, Nat.le_succ_of_le h.le, (h.inner c hc hbreak).2⟩

/-- No line goes on behind its end. -/
theorem not_isBreak_of_mem_lines (hline : line ∈ lines t) (hc : c ∈ line) : ¬IsBreak c := by
  have hcons : ∀ {d : CodePoint} {ls : List Text}, ¬(d = '\n' ∨ d = '\r') →
      (∀ line ∈ ls, ∀ c ∈ line, ¬IsBreak c) → ∀ line ∈ consLine d ls, ∀ c ∈ line, ¬IsBreak c := by
    intro d ls hd hls
    cases ls with
    | nil => simpa [consLine, IsBreak] using hd
    | cons first ls =>
      obtain ⟨hfirst, hls⟩ := List.forall_mem_cons.1 hls
      exact List.forall_mem_cons.2 ⟨List.forall_mem_cons.2 ⟨hd, hfirst⟩, hls⟩
  suffices h : ∀ line ∈ lines t, ∀ c ∈ line, ¬IsBreak c from h line hline c hc
  clear hline hc
  fun_induction lines t with
  | case1 => simp
  | case2 d hd => simp
  | case3 d hd => simpa [IsBreak] using hd
  | case4 d e rest hd ih => exact List.forall_mem_cons.2 ⟨nofun, ih⟩
  | case5 d e rest _ hd ih => exact List.forall_mem_cons.2 ⟨nofun, ih⟩
  | case6 d e rest _ hd ih => exact hcons hd ih

/-! ## Bisection -/

/-- Bisection between bounds finds the number of the entries that are at most `p`, if these come
before the others. -/
theorem bisect_eq {starts : Array Int} {p : Int} {lo hi n : Nat} (hlo : lo ≤ n) (hhi : n ≤ hi)
    (hle : ∀ j < n, starts.getD j 0 ≤ p) (hlt : ∀ j, n ≤ j → j < hi → p < starts.getD j 0) :
    bisect starts p lo hi = n := by
  fun_induction bisect starts p lo hi with
  | case1 lo hi h mid hmid ih =>
    have hn : n ≤ mid := Nat.le_of_not_lt fun hn => absurd (hle mid hn) (Int.not_le.2 hmid)
    exact ih hlo hn fun j hj hjmid => hlt j hj (by omega)
  | case2 lo hi h mid hmid ih =>
    have hn : mid < n := Nat.lt_of_not_le fun hn => hmid (hlt mid hn (by omega))
    exact ih hn hhi hlt
  | case3 lo hi h => omega

theorem getD_index {body : Text} {j s : Nat} (h : (lineStarts body)[j]? = some s) :
    (index body).getD j 0 = s := by
  simp [index, Array.getD_eq_getD_getElem?, h]

/-- The address of an offset that lies in a line. -/
theorem Lies.locate?_eq {body : Text} (h : Lies 0 body p k first line) (hp : p ≤ body.length) :
    locate? body p = some (((k + 1 : Nat) : Int), ((p - first + 1 : Nat) : Int)) := by
  have hsize : (index body).size = (lineStarts body).length := by simp [index]
  have hget : ∀ j < (lineStarts body).length,
      ∃ s, (lineStarts body)[j]? = some s ∧ (index body).getD j 0 = s :=
    fun j hj => ⟨_, List.getElem?_eq_getElem hj, getD_index (List.getElem?_eq_getElem hj)⟩
  have hk : k < (lineStarts body).length := (List.getElem?_eq_some_iff.1 h.starts).1
  have hline : bisect (index body) p 0 (index body).size = k + 1 := by
    refine bisect_eq (Nat.zero_le _) (by omega) (fun j hj => ?_) fun j hj hlength => ?_
    · obtain ⟨s, hs, heq⟩ := hget j (by omega)
      have hle : s ≤ first := by
        rcases Nat.lt_or_eq_of_le (Nat.le_of_lt_succ hj) with hlt | rfl
        · exact Nat.le_of_lt (lineStarts_lt hlt hs h.starts)
        · exact Nat.le_of_eq (Option.some.inj (hs.symm.trans h.starts))
      have := h.le
      omega
    · obtain ⟨s, hs, heq⟩ := hget j (by omega)
      obtain ⟨i, rfl⟩ := Nat.exists_eq_add_of_le hj
      have hlt := h.lt s (List.mem_of_getElem? (i := i) (by
        rw [List.getElem?_drop, ← hs, lineStarts, Nat.add_right_comm, List.getElem?_cons_succ]))
      omega
  have hempty : (index body).isEmpty = false := by simp [index, lineStarts]
  have hin : ¬((p : Int) < 0 ∨ (body.length : Int) < p) := by omega
  have := h.le
  simp only [locate?, if_neg hin, address?, hempty, hline, getD_index h.starts, Bool.false_eq_true,
    if_false, Nat.succ_ne_zero, Nat.add_sub_cancel, Option.some.injEq, Prod.mk.injEq, true_and]
  omega

/-- Just the offsets of the text have addresses, its end included. -/
theorem isSome_locate? {body : Text} {p : Int} :
    (locate? body p).isSome ↔ 0 ≤ p ∧ p ≤ body.length := by
  unfold locate?
  split
  · rename_i h
    simp only [Option.isSome_none, Bool.false_eq_true, false_iff]
    omega
  · have hstarts : (index body).isEmpty = false := by simp [index, lineStarts]
    simp only [address?, hstarts, Bool.false_eq_true, if_false, Option.isSome_some, true_iff]
    omega

end Source

end GraphSchema
