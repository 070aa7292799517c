import GraphSchema.Proofs.Text.Hexadecimal
import GraphSchema.Proofs.Token.Local
import GraphSchema.Proofs.Token.Quoted

/-!
# Reading strings

A string is a sequence of characters between quotation marks: code points that stand for themselves,
escape sequences of one letter, and escape sequences of four digits. Which four digits there may be
is a parameter of its grammar.

## Main definitions

* `Scan.StringChar`: a character of a string, with its `text` and its `value`.
* `Scan.StringChar.Fits`: the grammar of characters; `Conforms` and `IsRead` are two cases of it.
* `Scan.literal`: a string between its quotation marks.

## Main statements

* `Scan.accepts_unicodeEscape`, `Scan.accepts_escape`: escape sequences.
* `Scan.stringBody_eq_ok_iff`, `Scan.string_eq_ok_iff`: the strings that are read.
* `Scan.StringChar.eq_of_append`: a text has one reading only as characters.
-/

namespace GraphSchema

namespace Scan

/-! ## The grammar -/

/-- A character of a string as it is written, and what it stands for. -/
inductive StringChar
  | plain (c : CodePoint)
  | short (letter c : CodePoint)
  | code (digits : Text) (c : CodePoint)

/-- The letters of escape sequences, with what they stand for. -/
def shortEscapes : List (CodePoint × CodePoint) :=
  [('"', '"'), ('\\', '\\'), ('/', '/'), ('b', '\x08'), ('f', '\x0c'), ('n', '\n'), ('r', '\r'),
    ('t', '\t')]

/-- Four ASCII digits of base 16, which write `c`. -/
structure IsHexCode (digits : Text) (c : CodePoint) : Prop where
  length : digits.length = 4
  all : ∀ d ∈ digits, d.isHexDigit
  value : c = CodePoint.ofNat (Numeral.wideNumber 0 digits)

/-- Four code points that are read as a numeral, which writes `c`. -/
structure IsWideCode (digits : Text) (c : CodePoint) : Prop where
  length : digits.length = 4
  value : ∃ n, Numeral.Denotes digits n ∧ c = CodePoint.ofNat n

namespace StringChar

/-- The character as it is written. -/
def text : StringChar → Text
  | plain c => [c]
  | short letter _ => [CodePoint.ofChar '\\', letter]
  | code digits _ => CodePoint.ofChar '\\' :: CodePoint.ofChar 'u' :: digits

/-- What the character stands for. -/
def value : StringChar → CodePoint
  | plain c => c
  | short _ c => c
  | code _ c => c

/-- The grammar of characters; which digits stand for which code point is a parameter. -/
inductive Fits (isCode : Text → CodePoint → Prop) : StringChar → Prop
  | plain {c : CodePoint} (h : IsPlain c) : Fits isCode (plain c)
  | short {letter c : CodePoint} (h : (letter, c) ∈ shortEscapes) : Fits isCode (short letter c)
  | code {digits : Text} {c : CodePoint} (h : isCode digits c) : Fits isCode (code digits c)

/-- The grammar of the language: four hexadecimal digits. -/
abbrev Conforms (ch : StringChar) : Prop := ch.Fits IsHexCode

/-- The grammar that is read: four code points that a numeral may consist of. -/
abbrev IsRead (ch : StringChar) : Prop := ch.Fits IsWideCode

end StringChar

/-- Characters one after the other, as they are written. -/
def written (chars : List StringChar) : Text := chars.flatMap StringChar.text

/-- A string: characters between quotation marks. -/
def literal (chars : List StringChar) : Text := quotationMark :: (written chars ++ [quotationMark])

namespace StringChar

variable {ch : StringChar} {c : CodePoint} {r t : Text} {isCode : Text → CodePoint → Prop}

theorem length_text_pos (ch : StringChar) : 0 < ch.text.length := by
  cases ch <;> simp [text]

/-- No quotation mark starts a character. -/
theorem Fits.text_ne (h : ch.Fits isCode) : quotationMark :: t ≠ ch.text ++ r := by
  intro heq
  cases h with
  | plain h => exact h.not_quote (List.cons.inj heq).1.symm
  | short _ => exact absurd (List.cons.inj heq).1 (by decide)
  | code _ => exact absurd (List.cons.inj heq).1 (by decide)

/-- Only a backslash starts an escape sequence. -/
theorem Fits.eq_plain (h : ch.Fits isCode) (hc : c ≠ '\\') (heq : c :: t = ch.text ++ r) :
    ch = .plain c ∧ IsPlain c ∧ r = t := by
  cases h with
  | plain h =>
    cases heq
    exact ⟨rfl, h, rfl⟩
  | short _ => exact absurd (List.cons.inj heq).1 hc
  | code _ => exact absurd (List.cons.inj heq).1 hc

end StringChar

@[simp]
theorem written_nil : written [] = [] := rfl

@[simp]
theorem written_cons (ch : StringChar) (chars : List StringChar) :
    written (ch :: chars) = ch.text ++ written chars := rfl

theorem literal_append (chars : List StringChar) (r : Text) :
    literal chars ++ r = quotationMark :: (written chars ++ quotationMark :: r) := by
  simp [literal]

theorem length_literal (chars : List StringChar) :
    (literal chars).length = (written chars).length + 2 := by
  simp [literal]

/-! ## Escape sequences -/

variable {digits s t : Text} {c d : CodePoint} {i : Nat}

theorem mem_shortEscapes : (c, d) ∈ shortEscapes ↔ shortEscape? c = some d := by
  have htable : ∀ e ∈ shortEscapes, shortEscape? e.1 = some e.2 := by decide
  refine ⟨htable (c, d), fun h => ?_⟩
  unfold shortEscape? at h
  split at h
  · cases h
    rename_i hc
    rcases hc with rfl | rfl | rfl <;> simp [shortEscapes]
  · repeat' split at h
    all_goals cases h
    all_goals simp_all [shortEscapes]

theorem IsHexCode.isWideCode (h : IsHexCode digits c) : IsWideCode digits c := by
  have hne : digits ≠ [] := by
    rintro rfl
    exact absurd h.length (by decide)
  refine ⟨h.length, _, ⟨[], digits, none, by simp, .none, hne, fun d hd => ?_, rfl, by simp⟩,
    h.value⟩
  obtain ⟨n, -, hn⟩ := CodePoint.isHexDigit_iff.1 (h.all d hd)
  rw [CodePoint.wideHexValue?, if_pos (h.all d hd), hn]
  rfl

/-- The codes of the language are those that are read and have ASCII digits only. -/
theorem isHexCode_iff :
    IsHexCode digits c ↔ IsWideCode digits c ∧ ∀ d ∈ digits, d.isHexDigit := by
  refine ⟨fun h => ⟨h.isWideCode, h.all⟩, ?_⟩
  rintro ⟨⟨hlength, n, ⟨mark, ds, blank, rfl, hmark, -, -, rfl, hblank⟩, rfl⟩, hall⟩
  refine ⟨hlength, hall, ?_⟩
  obtain rfl : mark = [] := by
    cases hmark with
    | none => rfl
    | @hexadecimal z x hz hx =>
      have := hall x (by simp)
      rcases hx with rfl | rfl <;> exact absurd this (by decide)
  obtain rfl : blank = none := by
    cases blank with
    | none => rfl
    | some b =>
      have := CodePoint.isAlphanumeric_of_isHexDigit (hall b (by simp))
      exact absurd this (CodePoint.not_isAlphanumeric_of_isNumeralBlank (hblank b rfl))
  simp

theorem readsDigits_cons {n : Nat} : ReadsDigits (n + 1) (c :: s) ↔
    if c.isAlphanumeric then ReadsDigits n s else s = [] := by
  split
  · rename_i hc
    refine ⟨fun h => ⟨Nat.le_of_succ_le_succ h.length, ?_, ?_⟩, fun h => h.cons hc⟩
    · cases s with
      | nil => simp
      | cons d s => exact (List.forall_mem_cons.1 h.read).2
    · refine h.stop.imp Nat.succ.inj ?_
      rintro ⟨d, hd, hn⟩
      cases s with
      | nil =>
        obtain rfl : c = d := by simpa using hd
        exact absurd hc hn
      | cons e s => exact ⟨d, by simpa using hd, hn⟩
  · rename_i hc
    constructor
    · intro h
      cases s with
      | nil => rfl
      | cons d s => exact absurd (h.read c (by simp)) hc
    · rintro rfl
      exact ⟨by simp, by simp, .inr ⟨c, rfl, hc⟩⟩

/-- The digits that are taken: no more than `n`, up to the first that is not alphanumeric. -/
theorem accepts_escapeDigits (n : Nat) :
    Accepts (escapeDigits n) fun _ s _ => ReadsDigits n s := by
  induction n with
  | zero =>
    refine (accepts_pure ()).congr fun _ s _ => ⟨?_, fun h => ⟨rfl, ?_⟩⟩
    · rintro ⟨-, rfl⟩
      exact ⟨Nat.le_refl _, by simp, .inl rfl⟩
    · exact List.eq_nil_of_length_eq_zero (Nat.le_zero.1 h.length)
  | succ n ih =>
    have hnext (c : CodePoint) : Accepts (if c.isAlphanumeric then escapeDigits n else pure ())
        fun _ s _ => if c.isAlphanumeric then ReadsDigits n s else s = [] := by
      split
      · exact ih
      · exact (accepts_pure ()).congr fun _ _ _ => and_iff_right rfl
    refine (accepts_next (by rintro i a q ⟨⟩) (fun _ _ _ => rfl) hnext).congr fun _ s _ => ?_
    constructor
    · rintro ⟨c, s, rfl, h⟩
      exact readsDigits_cons.2 h
    · intro h
      cases s with
      | nil => simpa using h.stop
      | cons c s => exact ⟨c, s, rfl, readsDigits_cons.1 h⟩

/-- A code is read as its number if the first three of its code points are taken as digits. -/
theorem isWideCode_iff (h : ReadsDigits 4 digits) :
    IsWideCode digits c ↔ ∃ k, code? digits = some k ∧ c = CodePoint.ofNat k.toNat := by
  by_cases hlength : digits.length = 4
  · obtain ⟨a, b, c', d, rfl⟩ : ∃ a b c' d, digits = [a, b, c', d] := List.length_eq_four.1 hlength
    have hread {k : Int} := Numeral.readHexadecimal?_iff (d := d) (k := k) (h.read a (by simp))
      (h.read b (by simp)) (h.read c' (by simp))
    rw [code?, if_pos hlength]
    constructor
    · rintro ⟨-, n, hn, rfl⟩
      exact ⟨n, hread.2 ⟨n, rfl, hn⟩, rfl⟩
    · rintro ⟨k, hk, rfl⟩
      obtain ⟨n, rfl, hn⟩ := hread.1 hk
      exact ⟨hlength, n, hn, rfl⟩
  · rw [code?, if_neg hlength]
    exact ⟨fun h => absurd h.length hlength, by simp⟩

theorem IsWideCode.readsDigits (h : IsWideCode digits c) : ReadsDigits 4 digits := by
  obtain ⟨hlength, n, hn, -⟩ := h
  exact ⟨Nat.le_of_eq hlength, hn.isAlphanumeric, .inl hlength⟩

theorem accepts_unicodeEscape : Accepts unicodeEscape fun c s _ => IsWideCode s c := by
  intro i t c q
  constructor
  · intro h
    have hrun : (escapeDigits 4 >>= fun _ => _ : Scan CodePoint) ⟨i, t⟩ = .ok c q := h
    obtain ⟨⟨⟩, p, hp, -⟩ := bind_eq_ok.1 hrun
    obtain ⟨s, r, rfl, rfl, hs⟩ := (accepts_escapeDigits 4).of_ok hp
    rw [unicodeEscape_eq hp rfl] at h
    cases hk : code? s with
    | none =>
      rw [hk] at h
      cases h
    | some k =>
      rw [hk] at h
      cases h
      exact ⟨s, r, rfl, rfl, (isWideCode_iff hs).2 ⟨k, hk, rfl⟩⟩
  · rintro ⟨s, r, rfl, rfl, hs⟩
    obtain ⟨k, hk, rfl⟩ := (isWideCode_iff hs.readsDigits).1 hs
    rw [unicodeEscape_eq ((accepts_escapeDigits 4).ok hs.readsDigits) rfl, hk]
    rfl

/-- What follows the letter of an escape sequence is read. -/
def escapeFrom (letter : CodePoint) : Scan CodePoint :=
  match shortEscape? letter with
  | some c => return c
  | none => if letter = 'u' then unicodeEscape else fail (.invalidEscape [letter]) 1

theorem escape_cons : escape ⟨i, c :: t⟩ = escapeFrom c ⟨i + 1, t⟩ := rfl

theorem accepts_escapeFrom (letter : CodePoint) : Accepts (escapeFrom letter) fun c s _ =>
    (s = [] ∧ (letter, c) ∈ shortEscapes) ∨ (letter = 'u' ∧ IsWideCode s c) := by
  simp only [escapeFrom, mem_shortEscapes]
  cases hletter : shortEscape? letter with
  | some d =>
    have hu : letter ≠ 'u' := by
      rintro rfl
      rw [shortEscape?_u] at hletter
      cases hletter
    exact (accepts_pure d).congr fun c s _ => by simp [hu, eq_comm, and_comm]
  | none =>
    dsimp only
    split
    · exact accepts_unicodeEscape.congr fun c s _ => by simp [*]
    · exact (accepts_of_ne (by rintro p a q ⟨⟩)).congr fun c s _ => by simp [*]

/-- What may stand behind a backslash, and what it stands for. -/
theorem accepts_escape : Accepts escape fun c s _ =>
    (∃ letter, s = [letter] ∧ (letter, c) ∈ shortEscapes) ∨
      ∃ digits, s = CodePoint.ofChar 'u' :: digits ∧ IsWideCode digits c := by
  refine (accepts_next (by rintro i a q ⟨⟩) (fun _ _ _ => escape_cons) accepts_escapeFrom).congr
    fun c s _ => ?_
  constructor
  · rintro ⟨letter, s, rfl, ⟨rfl, h⟩ | ⟨rfl, h⟩⟩
    · exact .inl ⟨letter, rfl, h⟩
    · exact .inr ⟨s, rfl, h⟩
  · rintro (⟨letter, rfl, h⟩ | ⟨digits, rfl, h⟩)
    · exact ⟨letter, [], rfl, .inl ⟨rfl, h⟩⟩
    · exact ⟨_, digits, rfl, .inr ⟨rfl, h⟩⟩

/-- A backslash and what is read behind it make up a character. -/
theorem escape_eq_ok_iff {q : Place} : escape ⟨i + 1, t⟩ = .ok c q ↔
    ∃ (ch : StringChar) (r : Text), ch.IsRead ∧ CodePoint.ofChar '\\' :: t = ch.text ++ r ∧
      q = ⟨i + ch.text.length, r⟩ ∧ c = ch.value := by
  have hplace {s r : Text} : (⟨i + 1 + s.length, r⟩ : Place) =
      ⟨i + (CodePoint.ofChar '\\' :: s).length, r⟩ := by
    rw [List.length_cons, Nat.add_assoc, Nat.add_comm 1]
  rw [accepts_escape]
  constructor
  · rintro ⟨s, r, rfl, rfl, ⟨letter, rfl, h⟩ | ⟨digits, rfl, h⟩⟩
    · exact ⟨.short letter c, r, .short h, rfl, hplace, rfl⟩
    · exact ⟨.code digits c, r, .code h, rfl, hplace, rfl⟩
  · rintro ⟨ch, r, h, heq, rfl, rfl⟩
    cases h with
    | plain h =>
      obtain rfl := (List.cons.inj heq).1
      exact absurd h not_isPlain_escape
    | @short letter c h =>
      exact ⟨[letter], r, (List.cons.inj heq).2, hplace.symm, .inl ⟨letter, rfl, h⟩⟩
    | @code digits c h =>
      exact ⟨_ :: digits, r, (List.cons.inj heq).2, hplace.symm, .inr ⟨digits, rfl, h⟩⟩

/-! ## Strings -/

variable {x : Scan Text} {v : Text} {q : Place}

theorem cons_eq_ok_iff {p : Place} : (return c :: (← x) : Scan Text) p = .ok v q ↔
    ∃ w, x p = .ok w q ∧ v = c :: w := by
  rw [bind_eq_ok]
  constructor
  · rintro ⟨w, p', hw, ⟨⟩⟩
    exact ⟨w, hw, rfl⟩
  · rintro ⟨w, hw, rfl⟩
    exact ⟨w, q, hw, rfl⟩

/-- What stands for itself is read as it is, and all else is refused. -/
theorem stringFrom_plain {p : Place} (hc : c ≠ quotationMark ∧ c ≠ '\\') :
    stringFrom x c p = .ok v q ↔ IsPlain c ∧ ∃ w, x p = .ok w q ∧ v = c :: w := by
  rw [stringFrom, if_neg hc.1, if_neg hc.2]
  split
  · rename_i hbreak
    refine ⟨by rintro ⟨⟩, fun h => absurd h.1.visible ?_⟩
    rcases hbreak with rfl | rfl <;> decide
  split
  · rename_i hvisible
    rw [cons_eq_ok_iff, and_iff_right ⟨hvisible, hc.1, hc.2⟩]
  · rename_i hvisible
    exact ⟨by rintro ⟨⟩, fun h => absurd h.1.visible hvisible⟩

/-- One character is read, or the closing quotation mark. -/
theorem stringFrom_eq_ok_iff :
    stringFrom x c ⟨i + 1, t⟩ = .ok v q ↔ (c = quotationMark ∧ v = [] ∧ q = ⟨i + 1, t⟩) ∨
      ∃ (ch : StringChar) (r w : Text), ch.IsRead ∧ c :: t = ch.text ++ r ∧
        x ⟨i + ch.text.length, r⟩ = .ok w q ∧ v = ch.value :: w := by
  by_cases hquote : c = quotationMark
  · subst hquote
    constructor
    · rintro ⟨⟩
      exact .inl ⟨rfl, rfl, rfl⟩
    · rintro (⟨-, rfl, rfl⟩ | ⟨ch, r, w, hch, heq, -⟩)
      · rfl
      · exact absurd heq hch.text_ne
  rw [or_iff_right fun h => hquote h.1]
  by_cases hescape : c = '\\'
  · subst hescape
    rw [stringFrom, if_neg hquote, if_pos rfl, bind_eq_ok]
    constructor
    · rintro ⟨d, p, hd, hrest⟩
      obtain ⟨ch, r, hch, heq, rfl, rfl⟩ := escape_eq_ok_iff.1 hd
      obtain ⟨w, hw, rfl⟩ := cons_eq_ok_iff.1 hrest
      exact ⟨ch, r, w, hch, heq, hw, rfl⟩
    · rintro ⟨ch, r, w, hch, heq, hw, rfl⟩
      exact ⟨_, _, escape_eq_ok_iff.2 ⟨ch, r, hch, heq, rfl, rfl⟩, cons_eq_ok_iff.2 ⟨w, hw, rfl⟩⟩
  · rw [stringFrom_plain ⟨hquote, hescape⟩]
    constructor
    · rintro ⟨hc, w, hw, rfl⟩
      exact ⟨.plain c, t, w, .plain hc, rfl, hw, rfl⟩
    · rintro ⟨ch, r, w, hch, heq, hw, rfl⟩
      obtain ⟨rfl, hc, rfl⟩ := hch.eq_plain hescape heq
      exact ⟨hc, w, hw, rfl⟩

/-- A string is read up to its closing quotation mark. -/
theorem stringBody_eq_ok_iff {fuel : Text} (hfuel : t.length ≤ fuel.length) :
    stringBody fuel ⟨i, t⟩ = .ok v q ↔ ∃ (chars : List StringChar) (r : Text),
      (∀ ch ∈ chars, ch.IsRead) ∧ t = written chars ++ quotationMark :: r ∧
        q = ⟨i + (written chars).length + 1, r⟩ ∧ v = chars.map StringChar.value := by
  -- Each character that is read shortens the text ahead, so that the fuel is never used up first.
  induction fuel generalizing i t v with
  | nil =>
    obtain rfl := List.eq_nil_of_length_eq_zero (Nat.le_zero.1 hfuel)
    exact ⟨by rintro ⟨⟩, by simp⟩
  | cons d fuel ih =>
    rw [stringBody_cons]
    cases t with
    | nil => exact ⟨by rintro ⟨⟩, by simp⟩
    | cons c t =>
      change stringFrom (stringBody fuel) c ⟨i + 1, t⟩ = _ ↔ _
      rw [stringFrom_eq_ok_iff]
      have hless {ch : StringChar} {r : Text} (heq : c :: t = ch.text ++ r) :
          r.length ≤ fuel.length := by
        have := congrArg List.length heq
        have := ch.length_text_pos
        simp only [List.length_cons, List.length_append] at *
        omega
      constructor
      · rintro (⟨rfl, rfl, rfl⟩ | ⟨ch, r, w, hch, heq, hw, rfl⟩)
        · exact ⟨[], t, by simp, rfl, rfl, rfl⟩
        · obtain ⟨chars, r, hchars, rfl, rfl, rfl⟩ := (ih (hless heq)).1 hw
          exact ⟨ch :: chars, r, List.forall_mem_cons.2 ⟨hch, hchars⟩, by simp [heq],
            by simp [Nat.add_assoc], rfl⟩
      · rintro ⟨chars, r, hchars, heq, rfl, rfl⟩
        cases chars with
        | nil =>
          obtain ⟨rfl, rfl⟩ := List.cons.inj heq
          exact .inl ⟨rfl, rfl, rfl⟩
        | cons ch chars =>
          obtain ⟨hch, hchars⟩ := List.forall_mem_cons.1 hchars
          rw [written_cons, List.append_assoc] at heq
          refine .inr ⟨ch, _, _, hch, heq, (ih (hless heq)).2 ⟨chars, r, hchars, rfl, ?_, rfl⟩, rfl⟩
          simp [Nat.add_assoc]

/-- The strings that are read, with their places and values. -/
theorem string_eq_ok_iff {a : Token} : string ⟨i, quotationMark :: t⟩ = .ok a q ↔
    ∃ (chars : List StringChar) (r : Text), (∀ ch ∈ chars, ch.IsRead) ∧
      quotationMark :: t = literal chars ++ r ∧ q = ⟨i + (literal chars).length, r⟩ ∧
      a = .placed .string i (i + (literal chars).length) (chars.map StringChar.value) := by
  have hrun : string ⟨i, quotationMark :: t⟩ = (stringBody t >>= fun v =>
      tokenSince ⟨i, quotationMark :: t⟩ .string v) ⟨i + 1, t⟩ := rfl
  have hstop (chars : List StringChar) :
      i + 1 + (written chars).length + 1 = i + (literal chars).length := by
    rw [length_literal]
    omega
  simp only [literal_append, List.cons.injEq, true_and]
  rw [hrun, bind_eq_ok]
  constructor
  · rintro ⟨v, p, hbody, ⟨⟩⟩
    obtain ⟨chars, r, hchars, heq, rfl, rfl⟩ := (stringBody_eq_ok_iff (Nat.le_refl _)).1 hbody
    rw [hstop]
    exact ⟨chars, r, hchars, heq, rfl, rfl⟩
  · rintro ⟨chars, r, hchars, heq, rfl, rfl⟩
    refine ⟨chars.map StringChar.value, _, (stringBody_eq_ok_iff (Nat.le_refl _)).2
      ⟨chars, r, hchars, heq, rfl, rfl⟩, ?_⟩
    rw [hstop]
    rfl

/-! ## A text as characters -/

/-- What a character stands for is given by how it is written. -/
theorem IsWideCode.inj (h : IsWideCode digits c) (h' : IsWideCode digits d) : c = d := by
  have hc := accepts_unicodeEscape.ok (i := 0) (r := []) h
  rw [accepts_unicodeEscape.ok h'] at hc
  cases hc
  rfl

namespace StringChar

variable {ch ch' : StringChar} {r r' : Text}

/-- The letter in front of digits is no other one. -/
theorem not_short_code {letter c d : CodePoint} {digits : Text}
    (h : (letter, c) ∈ shortEscapes) :
    (short letter c).text ++ r ≠ (code digits d).text ++ r' := by
  intro heq
  obtain rfl := (List.cons.inj (List.cons.inj heq).2).1
  rw [mem_shortEscapes, shortEscape?_u] at h
  cases h

/-- A text has one character in front. -/
theorem eq_of_append (h : ch.IsRead) (h' : ch'.IsRead) (heq : ch.text ++ r = ch'.text ++ r') :
    ch = ch' ∧ r = r' := by
  cases h with
  | plain h =>
    obtain ⟨rfl, -, rfl⟩ := h'.eq_plain h.not_escape heq
    exact ⟨rfl, rfl⟩
  | short h =>
    cases h' with
    | plain h' => exact absurd ((List.cons.inj heq).1 ▸ h') not_isPlain_escape
    | short h' =>
      obtain ⟨rfl, rfl⟩ := List.cons.inj (List.cons.inj heq).2
      rw [mem_shortEscapes] at h h'
      rw [Option.some.inj (h.symm.trans h')]
      exact ⟨rfl, rfl⟩
    | code h' => exact absurd heq (not_short_code h)
  | code h =>
    cases h' with
    | plain h' => exact absurd ((List.cons.inj heq).1 ▸ h') not_isPlain_escape
    | short h' => exact absurd heq.symm (not_short_code h')
    | code h' =>
      obtain ⟨rfl, rfl⟩ := List.append_inj (List.cons.inj (List.cons.inj heq).2).2
        (h.length.trans h'.length.symm)
      rw [h.inj h']
      exact ⟨rfl, rfl⟩

end StringChar

/-- A text starts with one string only. -/
theorem literal_inj {chars chars' : List StringChar} {r r' : Text} (h : ∀ ch ∈ chars, ch.IsRead)
    (h' : ∀ ch ∈ chars', ch.IsRead) (heq : literal chars ++ r = literal chars' ++ r') :
    chars = chars' := by
  rw [literal_append, literal_append, List.cons.injEq, and_iff_right rfl] at heq
  induction chars generalizing chars' with
  | nil =>
    cases chars' with
    | nil => rfl
    | cons ch chars' =>
      rw [written_cons, List.append_assoc] at heq
      exact absurd heq (h' ch List.mem_cons_self).text_ne
  | cons ch chars ih =>
    obtain ⟨hch, h⟩ := List.forall_mem_cons.1 h
    rw [written_cons, List.append_assoc] at heq
    cases chars' with
    | nil => exact absurd heq.symm hch.text_ne
    | cons ch' chars' =>
      obtain ⟨hch', hchars'⟩ := List.forall_mem_cons.1 h'
      rw [written_cons, List.append_assoc] at heq
      obtain ⟨rfl, hrest⟩ := StringChar.eq_of_append hch hch' heq
      rw [ih h hchars' hrest]

/-! ## Encoding -/

/-- A code point below `0x10000` as an escape sequence of four digits. -/
def StringChar.encode (c : CodePoint) : StringChar := .code (CodePoint.fourDigits c.val) c

theorem StringChar.conforms_encode (hc : c.val ≤ 0xFFFF) : (encode c).Conforms :=
  .code ⟨rfl, CodePoint.isHexDigit_of_mem_fourDigits, by
    rw [CodePoint.wideNumber_fourDigits hc, CodePoint.ofNat_val]⟩

end Scan

end GraphSchema
