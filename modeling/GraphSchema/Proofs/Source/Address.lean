import GraphSchema.Proofs.Source.Line
import Mathlib.Data.Prod.Lex
import Mathlib.Data.Set.Card

/-!
# Addresses

Line and column say exactly where an offset lies: the line is counted by the line separators in
front of the offset, the column from the start of the line. So addresses are in the order of the
offsets, and no two offsets have the same one.

## Main definitions

* `Source.IsSeparator`: a line separator stands somewhere in a text.
* `Source.separatorsBefore`: the line separators that end in front of an offset.

## Main statements

* `Source.mem_separatorEnds_iff`: where line separators end.
* `Source.Lies.index_eq`: the index of a line is the number of line separators in front of it.
* `Source.Lies.index_le`: lines are in the order of the offsets in them.
* `Source.locate?_exact`: what the address of an offset says.
-/

namespace GraphSchema

namespace Source

/-- A carriage return stands at an offset of a text. -/
def ReturnAt (t : Text) (i : Nat) : Prop := t[i]? = some ('\r' : CodePoint)

/-- A line feed stands at an offset of a text. -/
def FeedAt (t : Text) (i : Nat) : Prop := t[i]? = some ('\n' : CodePoint)

/-- A line separator stands in the text from the offset `i` up to the offset `j`: a carriage return
and a line feed, or one of them that does not stand next to the other in this way. -/
inductive IsSeparator (body : Text) : (i j : Nat) → Prop
  | crlf {i : Nat} (hcr : ReturnAt body i) (hlf : FeedAt body (i + 1)) :
    IsSeparator body i (i + 2)
  | cr {i : Nat} (hcr : ReturnAt body i) (hlf : ¬FeedAt body (i + 1)) :
    IsSeparator body i (i + 1)
  | lf {i : Nat} (hlf : FeedAt body i) (hcr : ∀ k, i = k + 1 → ¬ReturnAt body k) :
    IsSeparator body i (i + 1)

/-- The line separators that end at or in front of an offset. -/
def separatorsBefore (body : Text) (p : Nat) : Set (Nat × Nat) :=
  {s | IsSeparator body s.1 s.2 ∧ s.2 ≤ p}

variable {body t line line' : Text} {c d : CodePoint} {start i j p q k l first first' : Nat}

/-! ## Where line separators stand -/

/-- Different separators end at different offsets. -/
theorem IsSeparator.start_unique (h : IsSeparator body i j) {i' : Nat}
    (h' : IsSeparator body i' j) : i = i' := by
  have hne : some ('\r' : CodePoint) ≠ some ('\n' : CodePoint) := by decide
  generalize hj : j = j' at h'
  cases h with
  | crlf hcr hlf =>
    cases h' with
    | crlf => omega
    | cr hcr' =>
      obtain rfl := Nat.succ.inj hj
      exact absurd (hcr'.symm.trans hlf) hne
    | lf _ halone =>
      obtain rfl := Nat.succ.inj hj
      exact absurd hcr (halone i rfl)
  | cr hcr hlf =>
    cases h' with
    | crlf _ hlf' =>
      obtain rfl := Nat.succ.inj hj
      exact absurd (hcr.symm.trans hlf') hne
    | cr => omega
    | lf => omega
  | lf hlf halone =>
    cases h' with
    | crlf hcr' =>
      obtain rfl := Nat.succ.inj hj
      exact absurd hcr' (halone _ rfl)
    | cr => omega
    | lf => omega

/-- Behind a code point the separators are the same as without it, if it does not form one together
with the next code point. -/
theorem isSeparator_cons (h : i = 0 → c = '\r' → ¬FeedAt t 0) :
    IsSeparator (c :: t) (i + 1) j ↔ ∃ k, IsSeparator t i k ∧ j = k + 1 := by
  constructor
  · intro hsep
    generalize hi : i + 1 = i' at hsep
    cases hsep with
    | crlf hcr hlf =>
      subst hi
      exact ⟨i + 2, .crlf hcr hlf, rfl⟩
    | cr hcr hlf =>
      subst hi
      exact ⟨i + 1, .cr hcr hlf, rfl⟩
    | lf hlf hcr =>
      subst hi
      refine ⟨i + 1, .lf hlf fun k hk => ?_, rfl⟩
      exact hcr (k + 1) (congrArg (· + 1) hk)
  · rintro ⟨k, hsep, rfl⟩
    cases hsep with
    | crlf hcr hlf => exact .crlf hcr hlf
    | cr hcr hlf => exact .cr hcr hlf
    | lf hlf hcr =>
      refine .lf hlf fun k hk => ?_
      cases k with
      | zero =>
        obtain rfl : i = 0 := Nat.succ.inj hk
        intro hc
        exact h rfl (Option.some.inj hc) hlf
      | succ k => exact hcr k (Nat.succ.inj hk)

/-- The separators at the beginning of a text. -/
theorem isSeparator_zero :
    IsSeparator (c :: t) 0 j ↔
      c = '\r' ∧ FeedAt t 0 ∧ j = 2 ∨ IsBreak c ∧ ¬(c = '\r' ∧ FeedAt t 0) ∧ j = 1 := by
  have hne : ('\n' : CodePoint) ≠ '\r' := by decide
  constructor
  · intro hsep
    cases hsep with
    | crlf hcr hlf => exact .inl ⟨Option.some.inj hcr, hlf, rfl⟩
    | cr hcr hlf => exact .inr ⟨.inr (Option.some.inj hcr), fun h => hlf h.2, rfl⟩
    | lf hlf =>
      obtain rfl := Option.some.inj hlf
      exact .inr ⟨.inl rfl, fun h => hne h.1, rfl⟩
  · rintro (⟨rfl, hlf, rfl⟩ | ⟨rfl | rfl, hcrlf, rfl⟩)
    · exact .crlf rfl hlf
    · exact .lf rfl fun k hk => absurd hk (Nat.succ_ne_zero k).symm
    · exact .cr rfl fun hlf => hcrlf ⟨rfl, hlf⟩

/-- A line feed behind a carriage return does not begin a separator. -/
theorem not_isSeparator_one : ¬IsSeparator ('\r' :: '\n' :: t) 1 j := by
  have hnot : ¬ReturnAt ('\r' :: '\n' :: t) 1 := fun h => absurd (Option.some.inj h) (by decide)
  intro hsep
  generalize hi : 1 = i at hsep
  cases hsep with
  | crlf hcr => exact hnot (hi ▸ hcr)
  | cr hcr => exact hnot (hi ▸ hcr)
  | lf _ halone => exact halone 0 hi.symm rfl

/-- Each code point that ends a line is part of a separator. -/
theorem exists_isSeparator (hc : body[p]? = some c) (hbreak : IsBreak c) :
    ∃ i j, IsSeparator body i j ∧ i ≤ p ∧ p < j := by
  rcases hbreak with rfl | rfl
  · by_cases hcr : ∃ k, p = k + 1 ∧ ReturnAt body k
    · obtain ⟨k, rfl, hcr⟩ := hcr
      exact ⟨k, k + 2, .crlf hcr hc, by omega, by omega⟩
    · exact ⟨p, p + 1, .lf hc fun k hk hcr' => hcr ⟨k, hk, hcr'⟩, Nat.le_refl p, Nat.lt_succ_self p⟩
  · by_cases hlf : FeedAt body (p + 1)
    · exact ⟨p, p + 2, .crlf hc hlf, Nat.le_refl p, by omega⟩
    · exact ⟨p, p + 1, .cr hc hlf, Nat.le_refl p, Nat.lt_succ_self p⟩

/-- In the text `t`, which starts at the offset `start`, a separator ends at the offset `s`. -/
def EndsAt (start : Nat) (t : Text) (s : Nat) : Prop := ∃ i j, IsSeparator t i j ∧ s = start + j

theorem not_endsAt_nil {s : Nat} : ¬EndsAt start [] s := by
  rintro ⟨i, j, hsep, -⟩
  cases hsep <;> rename_i h _ <;> cases h

theorem endsAt_cons {s : Nat} (h : c = '\r' → ¬FeedAt t 0) :
    EndsAt start (c :: t) s ↔ (IsBreak c ∧ s = start + 1) ∨ EndsAt (start + 1) t s := by
  constructor
  · rintro ⟨i, j, hsep, rfl⟩
    cases i with
    | zero =>
      rcases isSeparator_zero.1 hsep with ⟨hc, hlf, -⟩ | ⟨hbreak, -, rfl⟩
      · exact absurd hlf (h hc)
      · exact .inl ⟨hbreak, rfl⟩
    | succ i =>
      obtain ⟨k, hk, rfl⟩ := (isSeparator_cons fun _ => h).1 hsep
      exact .inr ⟨i, k, hk, by omega⟩
  · rintro (⟨hbreak, rfl⟩ | ⟨i, j, hsep, rfl⟩)
    · exact ⟨0, 1, isSeparator_zero.2 (.inr ⟨hbreak, fun hcrlf => h hcrlf.1 hcrlf.2, rfl⟩), rfl⟩
    · exact ⟨i + 1, j + 1, (isSeparator_cons fun _ => h).2 ⟨j, hsep, rfl⟩, by omega⟩

theorem endsAt_crlf {s : Nat} :
    EndsAt start ('\r' :: '\n' :: t) s ↔ s = start + 2 ∨ EndsAt (start + 2) t s := by
  have hshift : ∀ {i j}, IsSeparator ('\r' :: '\n' :: t) (i + 2) j ↔
      ∃ k, IsSeparator t i k ∧ j = k + 2 := by
    intro i j
    have hlf : ('\n' : CodePoint) ≠ '\r' := by decide
    rw [isSeparator_cons fun hi => absurd hi (Nat.succ_ne_zero i)]
    simp only [isSeparator_cons fun _ hc => absurd hc hlf]
    constructor
    · rintro ⟨_, ⟨k, hk, rfl⟩, rfl⟩
      exact ⟨k, hk, rfl⟩
    · rintro ⟨k, hk, rfl⟩
      exact ⟨k + 1, ⟨k, hk, rfl⟩, rfl⟩
  constructor
  · rintro ⟨i, j, hsep, rfl⟩
    -- A separator begins with the carriage return or behind the line feed, but not between them.
    match i with
    | 0 =>
      rcases isSeparator_zero.1 hsep with ⟨-, -, rfl⟩ | ⟨-, hcrlf, -⟩
      · exact .inl rfl
      · exact absurd ⟨rfl, rfl⟩ hcrlf
    | 1 => exact absurd hsep not_isSeparator_one
    | i + 2 =>
      obtain ⟨k, hk, rfl⟩ := hshift.1 hsep
      exact .inr ⟨i, k, hk, by omega⟩
  · rintro (rfl | ⟨i, j, hsep, rfl⟩)
    · exact ⟨0, 2, .crlf rfl rfl, rfl⟩
    · exact ⟨i + 2, j + 2, hshift.2 ⟨j, hsep, rfl⟩, by omega⟩

/-- What is found from left to right are the ends of the separators. -/
theorem mem_separatorEnds_iff {s : Nat} : s ∈ separatorEnds start t ↔ EndsAt start t s := by
  fun_induction separatorEnds start t with
  | case1 start => simp [not_endsAt_nil]
  | case2 start c hc =>
    rw [endsAt_cons (by simp [FeedAt]), List.mem_singleton]
    simp [not_endsAt_nil, IsBreak, hc]
  | case3 start c hc =>
    rw [endsAt_cons (by simp [FeedAt])]
    simp [not_endsAt_nil, IsBreak, hc]
  | case4 start c d rest hc ih =>
    obtain ⟨rfl, rfl⟩ := hc
    rw [List.mem_cons, ih, endsAt_crlf]
  | case5 start c d rest hcrlf hc ih =>
    have hcons : c = '\r' → ¬FeedAt (d :: rest) 0 := by simpa [FeedAt] using hcrlf
    rw [List.mem_cons, ih, endsAt_cons hcons]
    simp [IsBreak, hc]
  | case6 start c d rest hcrlf hc ih =>
    have hcons : c = '\r' → ¬FeedAt (d :: rest) 0 := by simpa [FeedAt] using hcrlf
    rw [ih, endsAt_cons hcons]
    simp [IsBreak, hc]

/-- No line starts behind the end of the text. -/
theorem le_length_of_mem_lineStarts {s : Nat} (h : s ∈ lineStarts body) : s ≤ body.length := by
  rcases List.mem_cons.1 h with rfl | h
  · exact Nat.zero_le _
  · obtain ⟨i, j, hsep, rfl⟩ := mem_separatorEnds_iff.1 h
    have hlt : ∀ {m} {c : CodePoint}, body[m]? = some c → m < body.length :=
      fun hc => (List.getElem?_eq_some_iff.1 hc).1
    cases hsep with
    | crlf _ hlf =>
      have := hlt hlf
      omega
    | cr hcr =>
      have := hlt hcr
      omega
    | lf hlf =>
      have := hlt hlf
      omega

/-! ## Lines and columns of offsets -/

/-- The separators in front of an offset are those in front of its line. -/
theorem Lies.mem_take_iff (h : Lies 0 body p k first line) {s : Nat} :
    s ∈ (separatorEnds 0 body).take k ↔ s ∈ separatorEnds 0 body ∧ s ≤ p := by
  constructor
  · intro hs
    obtain ⟨i, hi⟩ := List.mem_iff_getElem?.1 hs
    rw [List.getElem?_take] at hi
    split at hi
    · rename_i hik
      have hstart : (lineStarts body)[i + 1]? = some s := hi
      have hle : s ≤ first := by
        rcases Nat.lt_or_eq_of_le (Nat.succ_le_of_lt hik) with hlt | rfl
        · exact Nat.le_of_lt (lineStarts_lt hlt hstart h.starts)
        · exact Nat.le_of_eq (Option.some.inj (hstart.symm.trans h.starts))
      exact ⟨List.mem_of_getElem? hi, Nat.le_trans hle h.le⟩
    · cases hi
  · rintro ⟨hs, hle⟩
    rw [← List.take_append_drop k (separatorEnds 0 body), List.mem_append] at hs
    exact hs.resolve_right fun hs => absurd (h.lt s hs) (Nat.not_lt.2 hle)

/-- The index of a line is the number of line separators in front of each offset in it. -/
theorem Lies.index_eq (h : Lies 0 body p k first line) : (separatorsBefore body p).ncard = k := by
  have himage : Prod.snd '' separatorsBefore body p =
      (((separatorEnds 0 body).take k).toFinset : Set Nat) := by
    ext s
    rw [Finset.mem_coe, List.mem_toFinset, h.mem_take_iff, mem_separatorEnds_iff]
    constructor
    · rintro ⟨⟨i, j⟩, ⟨hsep, hle⟩, rfl⟩
      exact ⟨⟨i, j, hsep, (Nat.zero_add j).symm⟩, hle⟩
    · rintro ⟨⟨i, j, hsep, rfl⟩, hle⟩
      rw [Nat.zero_add] at hle ⊢
      exact ⟨(i, j), ⟨hsep, hle⟩, rfl⟩
  have hinj : Set.InjOn Prod.snd (separatorsBefore body p) := by
    rintro ⟨i, j⟩ ⟨hsep, -⟩ ⟨i', j'⟩ ⟨hsep', -⟩ rfl
    obtain rfl : i = i' := hsep.start_unique hsep'
    rfl
  have hnodup : ((separatorEnds 0 body).take k).Nodup :=
    ((List.pairwise_cons.1 (pairwise_lineStarts body)).2.imp Nat.ne_of_lt).sublist
      (List.take_sublist _ _)
  have hk : k < (lineStarts body).length := (List.getElem?_eq_some_iff.1 h.starts).1
  rw [← hinj.ncard_image, himage, Set.ncard_coe_finset,
    List.toFinset_card_of_nodup hnodup, List.length_take]
  exact Nat.min_eq_left (Nat.le_of_lt_succ hk)

/-- An offset further on lies in the same line, or in one further on. -/
theorem Lies.index_le (h : Lies 0 body p k first line) (h' : Lies 0 body q l first' line')
    (hpq : p ≤ q) : k ≤ l := by
  refine Nat.le_of_not_lt fun hlk => ?_
  obtain ⟨m, rfl⟩ := Nat.exists_eq_add_of_lt hlk
  have hstart : first ∈ (separatorEnds 0 body).drop l := by
    refine List.mem_of_getElem? (i := m) ?_
    rw [List.getElem?_drop]
    exact h.starts
  have := h'.lt first hstart
  have := h.le
  omega

/-- Addresses are in the order of the offsets, lines before columns. -/
theorem locate?_lt {p q : Int} {a b : Int × Int} (hpq : p < q) (ha : locate? body p = some a)
    (hb : locate? body q = some b) : toLex a < toLex b := by
  obtain ⟨hp, hp'⟩ := isSome_locate?.1 (Option.isSome_of_eq_some ha)
  obtain ⟨hq, hq'⟩ := isSome_locate?.1 (Option.isSome_of_eq_some hb)
  obtain ⟨p, rfl⟩ := Int.eq_ofNat_of_zero_le hp
  obtain ⟨q, rfl⟩ := Int.eq_ofNat_of_zero_le hq
  obtain ⟨k, first, line, h⟩ := exists_stands (Int.ofNat_le.1 hp')
  obtain ⟨l, first', line', h'⟩ := exists_stands (Int.ofNat_le.1 hq')
  rw [h.toLies.locate?_eq (Int.ofNat_le.1 hp')] at ha
  rw [h'.toLies.locate?_eq (Int.ofNat_le.1 hq')] at hb
  cases ha
  cases hb
  rw [Prod.Lex.toLex_lt_toLex]
  rcases Nat.lt_or_eq_of_le (h.toLies.index_le h'.toLies (by omega)) with hlt | rfl
  · exact .inl (by simpa using hlt)
  · obtain rfl : first = first' := Option.some.inj (h.starts.symm.trans h'.starts)
    have := h.le
    refine .inr ⟨rfl, ?_⟩
    simp only
    omega

/-- What the address of an offset says. The line is one more than the number of line separators in
front of the offset, and the column counts the code points from the start of the line. It is what
is found among the line starts, it grows with the offset, and only offsets outside of the text
have none. The line starts begin at zero, grow, and stay within the text. -/
theorem locate?_exact (body : Text) :
    (∀ p : Nat, p ≤ body.length → ∃ line column first : Nat,
      locate? body p = some ((line : Int), (column : Int)) ∧
      line = 1 + (separatorsBefore body p).ncard ∧
      (lineStarts body)[line - 1]? = some first ∧ first + column - 1 = p ∧ 1 ≤ column) ∧
    (∀ p : Int, 0 ≤ p → p ≤ body.length → locate? body p = address? (index body) p) ∧
    (∀ (p q : Int) (a b : Int × Int), p < q → locate? body p = some a → locate? body q = some b →
      toLex a < toLex b) ∧
    (∀ (p q : Int) (a : Int × Int), locate? body p = some a → locate? body q = some a → p = q) ∧
    (lineStarts body).Pairwise (· < ·) ∧ (lineStarts body).head? = some 0 ∧
    (∀ s ∈ lineStarts body, s ≤ body.length) ∧
    ∀ p : Int, locate? body p = none ↔ p < 0 ∨ (body.length : Int) < p := by
  refine ⟨fun p hp => ?_, fun p hp hlength => ?_, fun p q a b => locate?_lt, fun p q a hp hq => ?_,
    pairwise_lineStarts body, rfl, fun s => le_length_of_mem_lineStarts, fun p => ?_⟩
  · obtain ⟨k, first, line, h⟩ := exists_stands hp
    have hle := h.le
    refine ⟨k + 1, p - first + 1, first, h.toLies.locate?_eq hp, ?_, h.starts, by omega, by omega⟩
    rw [h.toLies.index_eq, Nat.add_comm]
  · rw [locate?, if_neg (by omega)]
  · rcases Int.lt_trichotomy p q with hlt | heq | hlt
    · exact absurd (locate?_lt hlt hp hq) (lt_irrefl _)
    · exact heq
    · exact absurd (locate?_lt hlt hq hp) (lt_irrefl _)
  · rw [← Option.not_isSome_iff_eq_none, isSome_locate?]
    omega

/-- An offset between a carriage return and its line feed. -/
theorem locate?_exact_crlf :
    2 ≤ ("a\r\nb" : Text).length ∧ ∃ line column first : Nat,
      locate? "a\r\nb" 2 = some ((line : Int), (column : Int)) ∧
      line = 1 + (separatorsBefore "a\r\nb" 2).ncard ∧
      (lineStarts "a\r\nb")[line - 1]? = some first ∧ first + column - 1 = 2 ∧ 1 ≤ column :=
  ⟨by decide, (locate?_exact "a\r\nb").1 2 (by decide)⟩

end Source

end GraphSchema
