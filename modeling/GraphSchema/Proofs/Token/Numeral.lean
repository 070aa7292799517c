import GraphSchema.Proofs.Token.Ahead

/-!
# Reading numbers

A number is a sign, digits, a fraction and an exponent. Which digits there are, and what may be the
digits of an exponent, are parameters of its grammar. Reading takes the numbers of one such grammar,
each up to where it ends.

## Main definitions

* `Scan.NumberLiteral`: the parts of a number, with `text` and `kind`.
* `Scan.NumberLiteral.Fits`: the grammar of numbers; `Conforms` and `IsRead` are two cases of it.
* `Scan.NumberLiteral.Ends`: what may follow a number that is read.

## Main statements

* `Scan.accepts_mantissa`, `Scan.accepts_exponent`, `Scan.accepts_numeral`: the parts of numbers.
* `Scan.number_eq_ok_iff`: the numbers that are read.
* `Scan.number_leadingZero`: an exponent with a leading zero is refused.
-/

namespace GraphSchema

namespace Scan

open CodePoint (isDigit isAsciiDigit)

/-! ## The grammar -/

/-- The exponent of a number. -/
structure ExponentPart where
  mark : CodePoint
  sign : Option CodePoint
  digits : Text

/-- A number: a sign, digits, a fraction and an exponent. -/
structure NumberLiteral where
  negative : Bool
  whole : Text
  fraction : Option Text
  exponent : Option ExponentPart

variable (digit : CodePoint → Bool)

/-- One digit or more. -/
structure IsRun (ds : Text) : Prop where
  ne_nil : ds ≠ []
  all : ∀ c ∈ ds, digit c

/-- A zero on its own, or digits that do not start with zero. -/
structure IsWhole (ds : Text) : Prop extends IsRun digit ds where
  zero : ds.head? = some ('0' : CodePoint) → ds = [('0' : CodePoint)]

namespace ExponentPart

/-- The exponent as it is written. -/
def text (e : ExponentPart) : Text := e.mark :: (e.sign.toList ++ e.digits)

/-- The exponent is written with one of the two letters, and its digits are as `power` says. -/
structure Fits (power : Text → Prop) (e : ExponentPart) : Prop where
  mark : e.mark = 'e' ∨ e.mark = 'E'
  sign : ∀ c ∈ e.sign, c = '+' ∨ c = '-'
  digits : power e.digits

end ExponentPart

namespace NumberLiteral

/-- A minus sign, if there is one. -/
def signText (negative : Bool) : Text := if negative then [('-' : CodePoint)] else []

/-- A dot with digits behind it, if there is a fraction. -/
def fractionText (fraction : Option Text) : Text :=
  fraction.elim [] fun ds => CodePoint.ofChar '.' :: ds

/-- The exponent, if there is one. -/
def exponentText (exponent : Option ExponentPart) : Text := exponent.elim [] ExponentPart.text

/-- What stands in front of the exponent. -/
def mantissa (n : NumberLiteral) : Text :=
  signText n.negative ++ (n.whole ++ fractionText n.fraction)

/-- The number as it is written. -/
def text (n : NumberLiteral) : Text := n.mantissa ++ exponentText n.exponent

/-- A number with a fraction or an exponent is no integer. -/
def kind (n : NumberLiteral) : Token.Kind :=
  if n.fraction.isSome || n.exponent.isSome then .float else .integer

/-- The grammar of numbers: what counts as a digit, and what may be the digits of an exponent. -/
structure Fits (power : Text → Prop) (n : NumberLiteral) : Prop where
  whole : IsWhole digit n.whole
  fraction : ∀ ds ∈ n.fraction, IsRun digit ds
  exponent : ∀ e ∈ n.exponent, e.Fits power

/-- The grammar of the language: an exponent has one ASCII digit or more. -/
abbrev Conforms (n : NumberLiteral) : Prop := n.Fits isAsciiDigit (IsRun isAsciiDigit)

/-- The grammar that is read: digits of any script, and an exponent that does not start with zero
unless it is zero. -/
abbrev IsRead (n : NumberLiteral) : Prop := n.Fits isDigit (IsWhole isDigit)

/-- What may follow a number that is read. -/
structure Ends (n : NumberLiteral) (r : Text) : Prop where
  digit : ∀ c ∈ r.head?, ¬c.isDigit
  name : ∀ c ∈ r.head?, ¬startsName c
  dot : n.kind = .integer → ∀ c ∈ r.head?, c ≠ '.'

end NumberLiteral

open NumberLiteral (signText fractionText exponentText)

variable {digit} {ds r s t : Text} {i : Nat}

/-! ## Parts of numbers -/

theorem IsRun.of_head (h : IsRun digit ds) : ∀ c ∈ (ds ++ r).head?, digit c := by
  intro c hc
  cases ds with
  | nil => exact absurd rfl h.ne_nil
  | cons d ds =>
    cases hc
    exact h.all _ List.mem_cons_self

theorem accepts_digits :
    Accepts digits fun _ s r => IsRun isDigit s ∧ ∀ c ∈ r.head?, ¬c.isDigit := by
  refine accepts_of_cons (by rintro i a q ⟨⟩) (fun _ _ _ h => h.1.ne_nil) fun i c t a q => ?_
  have hrun : digits ⟨i, c :: t⟩ = (if c.isDigit then skipWhile isDigit else
    fail (.unexpectedCharacter c) 0) ⟨i, c :: t⟩ := rfl
  rw [hrun]
  split
  · rename_i hc
    rw [accepts_skipWhile isDigit]
    refine exists_congr fun s => exists_congr fun r => and_congr_right fun hsr =>
      and_congr_right fun _ => and_congr_left fun hr => ⟨fun hs => ⟨?_, hs⟩, IsRun.all⟩
    rintro rfl
    obtain rfl : c :: t = r := hsr
    exact hr c rfl hc
  · rename_i hc
    constructor
    · rintro ⟨⟩
    · rintro ⟨s, r, hsr, -, hs, -⟩
      exact absurd (hs.of_head c (by rw [← hsr]; rfl)) hc

theorem wholeDigits_of_ne {c : CodePoint} (hc : c ≠ '0') :
    wholeDigits ⟨i, c :: t⟩ = digits ⟨i, c :: t⟩ := by
  change (if c = '0' then _ else digits : Scan Unit) _ = _
  rw [if_neg hc]

theorem wholeDigits_zero (h : ∀ c ∈ t.head?, ¬c.isDigit) :
    wholeDigits ⟨i, CodePoint.ofChar '0' :: t⟩ = .ok () ⟨i + 1, t⟩ := by
  cases t with
  | nil => rfl
  | cons d t =>
    change (if d.isDigit then _ else _ : Scan Unit) _ = _
    rw [if_neg (h d rfl)]
    rfl

/-- A zero with another digit behind it is refused. -/
theorem wholeDigits_leadingZero {d : CodePoint} (hd : d.isDigit) :
    wholeDigits ⟨i, CodePoint.ofChar '0' :: d :: t⟩ =
      .error ⟨.unexpectedCharacter d, (i + 1 : Nat)⟩ ⟨i + 1, d :: t⟩ := by
  change (if d.isDigit then _ else _ : Scan Unit) _ = _
  rw [if_pos hd]
  rfl

theorem accepts_wholeDigits : Accepts wholeDigits fun _ s r =>
    IsWhole isDigit s ∧ ∀ c ∈ r.head?, ¬c.isDigit := by
  refine accepts_of_cons (by rintro i a q ⟨⟩) (fun _ _ _ h => h.1.ne_nil) fun i c t a q => ?_
  by_cases hc : c = '0'
  · subst hc
    constructor
    · intro h
      have hstop : ∀ c ∈ t.head?, ¬c.isDigit := by
        intro d hd hdigit
        obtain ⟨t, rfl⟩ := List.head?_eq_some_iff.1 hd
        rw [wholeDigits_leadingZero hdigit] at h
        cases h
      rw [wholeDigits_zero hstop] at h
      cases h
      exact ⟨[CodePoint.ofChar '0'], t, rfl, rfl, ⟨⟨by simp, by simpa using by decide⟩, by simp⟩,
        hstop⟩
    · rintro ⟨s, r, hsr, rfl, hs, hr⟩
      obtain rfl : s = [CodePoint.ofChar '0'] := by
        refine hs.zero ?_
        cases s with
        | nil => exact absurd rfl hs.ne_nil
        | cons d s => rw [(List.cons.inj hsr).1]; rfl
      obtain rfl : t = r := (List.cons.inj hsr).2
      exact wholeDigits_zero hr
  · rw [wholeDigits_of_ne hc, accepts_digits]
    refine exists_congr fun s => exists_congr fun r => and_congr_right fun hsr =>
      and_congr_right fun _ => and_congr_left fun hr => ⟨fun hs => ⟨hs, fun hzero => ?_⟩,
        IsWhole.toIsRun⟩
    obtain ⟨s, rfl⟩ := List.head?_eq_some_iff.1 hzero
    exact absurd (List.cons.inj hsr).1 hc

/-- A fraction is read if there is a dot. -/
theorem accepts_fraction : Accepts fraction fun found s r => ∃ part : Option Text,
    found = part.isSome ∧ s = fractionText part ∧
      (∀ ds ∈ part, IsRun isDigit ds ∧ ∀ c ∈ r.head?, ¬c.isDigit) ∧
      (part = none → ∀ c ∈ r.head?, c ≠ '.') := by
  refine (accepts_optional _ accepts_digits).congr fun found s r => ?_
  constructor
  · rintro (⟨rfl, c, ds, rfl, hc, hds⟩ | ⟨rfl, rfl, hr⟩)
    · obtain rfl := of_decide_eq_true hc
      exact ⟨some ds, rfl, rfl, by simpa using hds, by simp⟩
    · exact ⟨none, rfl, rfl, by simp, fun _ => by simpa using hr⟩
  · rintro ⟨part, rfl, rfl, hds, hr⟩
    cases part with
    | some ds => exact .inl ⟨rfl, _, ds, rfl, decide_eq_true rfl, hds ds rfl⟩
    | none => exact .inr ⟨rfl, rfl, by simpa using hr rfl⟩

/-- The sign and the digits of an exponent. -/
def power : Scan Unit := do
  let _ ← accept fun c => c = '+' || c = '-'
  wholeDigits

theorem accepts_power : Accepts power fun _ s r => ∃ (sign : Option CodePoint) (ds : Text),
    s = sign.toList ++ ds ∧ (∀ c ∈ sign, c = '+' ∨ c = '-') ∧ IsWhole isDigit ds ∧
      ∀ c ∈ r.head?, ¬c.isDigit := by
  refine ((accepts_accept _).bind fun _ => accepts_wholeDigits).congr fun _ s r => ?_
  constructor
  · rintro ⟨found, s₁, ds, rfl, ⟨-, c, rfl, hc⟩ | ⟨-, rfl, -⟩, hds⟩
    · exact ⟨some c, ds, rfl, by simpa using hc, hds⟩
    · exact ⟨none, ds, rfl, by simp, hds⟩
  · rintro ⟨sign, ds, rfl, hsign, hds⟩
    cases sign with
    | some c => exact ⟨true, [c], ds, rfl, .inl ⟨rfl, c, rfl, by simpa using hsign⟩, hds⟩
    | none =>
      refine ⟨false, [], ds, rfl, .inr ⟨rfl, rfl, fun c hc hsign => ?_⟩, hds⟩
      have hdigit := hds.1.of_head c hc
      simp only [Bool.or_eq_true, decide_eq_true_eq] at hsign
      rcases hsign with rfl | rfl <;> exact absurd hdigit (by decide)

theorem exponent_eq : exponent = (do
    if ← accept (fun c => c = 'e' || c = 'E') then
      power
      return true
    else return false) := by
  simp only [exponent, power, bind_assoc]

/-- An exponent is read if there is one of its letters. -/
theorem accepts_exponent : Accepts exponent fun found s r => ∃ part : Option ExponentPart,
    found = part.isSome ∧ s = exponentText part ∧
      (∀ e ∈ part, e.Fits (IsWhole isDigit) ∧ ∀ c ∈ r.head?, ¬c.isDigit) ∧
      (part = none → ∀ c ∈ r.head?, ¬(c = 'e' ∨ c = 'E')) := by
  rw [exponent_eq]
  refine (accepts_optional _ accepts_power).congr fun found s r => ?_
  constructor
  · rintro (⟨rfl, c, _, rfl, hc, sign, ds, rfl, hsign, hds, hr⟩ | ⟨rfl, rfl, hr⟩)
    · refine ⟨some ⟨c, sign, ds⟩, rfl, rfl, ?_, by simp⟩
      rintro _ ⟨⟩
      exact ⟨⟨by simpa using hc, hsign, hds⟩, hr⟩
    · exact ⟨none, rfl, rfl, by simp, fun _ => by simpa using hr⟩
  · rintro ⟨part, rfl, rfl, he, hr⟩
    cases part with
    | some e =>
      obtain ⟨he, hr⟩ := he e rfl
      exact .inl ⟨rfl, e.mark, _, rfl, by simpa using he.mark, e.sign, e.digits, rfl, he.sign,
        he.digits, hr⟩
    | none => exact .inr ⟨rfl, rfl, by simpa using hr rfl⟩

/-! ## Numbers -/

/-- What ends a number: no letter stands right behind it. -/
def numberEnd (kind : Token.Kind) : Scan Token.Kind := do
  match ← peek? with
  | none => return kind
  | some c => if startsName c then fail (.unexpectedCharacter c) 0 else return kind

/-- What stands in front of an exponent. -/
def mantissa : Scan Bool := do
  let _ ← accept (· = '-')
  wholeDigits
  fraction

theorem numeral_eq : numeral = (do
    let hasFraction ← mantissa
    let hasExponent ← exponent
    numberEnd (if hasFraction || hasExponent then .float else .integer)) := by
  simp only [numeral, mantissa, bind_assoc]
  refine bind_congr fun _ => bind_congr fun _ => bind_congr fun _ => bind_congr fun _ =>
    bind_congr fun c => ?_
  cases c with
  | none => rfl
  | some c =>
    dsimp only
    split <;> rfl

theorem accepts_numberEnd (kind : Token.Kind) : Accepts (numberEnd kind) fun k s r =>
    k = kind ∧ s = [] ∧ ∀ c ∈ r.head?, ¬startsName c := by
  intro i t k q
  cases t with
  | nil =>
    constructor
    · rintro ⟨⟩
      exact ⟨[], [], rfl, rfl, rfl, rfl, by simp⟩
    · rintro ⟨s, r, hsr, rfl, rfl, rfl, -⟩
      cases hsr
      rfl
  | cons c t =>
    have hrun : numberEnd kind ⟨i, c :: t⟩ = (if startsName c then fail (.unexpectedCharacter c) 0
      else pure kind : Scan Token.Kind) ⟨i, c :: t⟩ := rfl
    rw [hrun]
    split
    · rename_i hc
      constructor
      · rintro ⟨⟩
      · rintro ⟨s, r, hsr, -, -, rfl, hr⟩
        obtain rfl : c :: t = r := hsr
        exact absurd hc (hr c rfl)
    · rename_i hc
      rw [accepts_pure kind]
      refine exists_congr fun s => exists_congr fun r => and_congr_right fun hsr =>
        and_congr_right fun _ => and_congr_right fun _ => ⟨fun hs => ⟨hs, ?_⟩, And.left⟩
      subst hs
      obtain rfl : c :: t = r := hsr
      simpa using hc

/-- What starts an exponent, or follows in its place. -/
theorem head_exponentText {p : CodePoint → Prop} {power : Text → Prop} {part : Option ExponentPart}
    (hmark : p 'e' ∧ p 'E') (hpart : ∀ e ∈ part, e.Fits power)
    (hr : part = none → ∀ c ∈ r.head?, p c) : ∀ c ∈ (exponentText part ++ r).head?, p c := by
  intro c hc
  cases part with
  | none => exact hr rfl c hc
  | some e =>
    obtain rfl : e.mark = c := Option.some.inj hc
    rcases (hpart e rfl).mark with h | h <;> rw [h]
    · exact hmark.1
    · exact hmark.2

/-- What starts a fraction, or follows in its place. -/
theorem head_fractionText {p : CodePoint → Prop} {part : Option Text} (hdot : p '.')
    (hr : part = none → ∀ c ∈ r.head?, p c) : ∀ c ∈ (fractionText part ++ r).head?, p c := by
  intro c hc
  cases part with
  | none => exact hr rfl c hc
  | some ds =>
    obtain rfl : CodePoint.ofChar '.' = c := Option.some.inj hc
    exact hdot

theorem NumberLiteral.kind_eq_integer {n : NumberLiteral} (hf : n.fraction = none)
    (he : n.exponent = none) : n.kind = .integer := by
  simp [kind, hf, he]

theorem accepts_mantissa : Accepts mantissa fun found s r => ∃ n : NumberLiteral,
    found = n.fraction.isSome ∧ s = n.mantissa ∧ IsWhole isDigit n.whole ∧
      (∀ ds ∈ n.fraction, IsRun isDigit ds) ∧ (∀ c ∈ r.head?, ¬c.isDigit) ∧
      (n.fraction = none → ∀ c ∈ r.head?, c ≠ '.') := by
  refine ((accepts_accept _).bind fun _ => accepts_wholeDigits.bind fun _ =>
    accepts_fraction).congr fun found s r => ?_
  constructor
  · rintro ⟨negative, s₁, _, rfl, hsign, -, whole, _, rfl, ⟨hwhole, hstop⟩, part, rfl, rfl, hpart,
      hdot⟩
    have hsign : s₁ = signText negative := by
      rcases hsign with ⟨rfl, c, rfl, hc⟩ | ⟨rfl, rfl, -⟩
      · rw [of_decide_eq_true hc]
        rfl
      · rfl
    refine ⟨⟨negative, whole, part, none⟩, rfl, by simp [NumberLiteral.mantissa, hsign], hwhole,
      fun ds h => (hpart ds h).1, ?_, hdot⟩
    cases part with
    | some ds => exact (hpart ds rfl).2
    | none => exact hstop
  · rintro ⟨n, rfl, rfl, hwhole, hfraction, hstop, hdot⟩
    refine ⟨n.negative, signText n.negative, _, rfl, ?_, (), n.whole, _, rfl, ⟨hwhole, ?_⟩,
      n.fraction, rfl, rfl, fun ds h => ⟨hfraction ds h, hstop⟩, hdot⟩
    · cases n.negative with
      | true => exact .inl ⟨rfl, _, rfl, decide_eq_true rfl⟩
      | false =>
        refine .inr ⟨rfl, rfl, fun c hc hsign => ?_⟩
        rw [List.append_assoc] at hc
        have hdigit := hwhole.of_head c hc
        rw [of_decide_eq_true hsign] at hdigit
        exact absurd hdigit (by decide)
    · exact head_fractionText (by decide) fun _ => hstop

/-- A number is read up to where it ends. -/
theorem accepts_numeral : Accepts numeral fun kind s r =>
    ∃ n : NumberLiteral, s = n.text ∧ n.IsRead ∧ n.Ends r ∧ kind = n.kind := by
  rw [numeral_eq]
  refine (accepts_mantissa.bind fun _ => accepts_exponent.bind fun _ => accepts_numberEnd _).congr
    fun kind s r => ?_
  constructor
  · rintro ⟨_, _, _, rfl, ⟨n, rfl, rfl, hwhole, hfraction, hstop, hdot⟩, _, _, _, rfl,
      ⟨part, rfl, rfl, hpart, -⟩, rfl, rfl, hname⟩
    refine ⟨⟨n.negative, n.whole, n.fraction, part⟩, by simp [NumberLiteral.text]; rfl,
      ⟨hwhole, hfraction, fun e h => (hpart e h).1⟩, ⟨?_, hname, ?_⟩, rfl⟩
    · cases part with
      | some e => exact (hpart e rfl).2
      | none => exact hstop
    · intro hkind
      cases part with
      | some e => simp [NumberLiteral.kind] at hkind
      | none => exact hdot (by simpa [NumberLiteral.kind] using hkind)
  · rintro ⟨n, rfl, hn, hends, rfl⟩
    refine ⟨n.fraction.isSome, n.mantissa, exponentText n.exponent, rfl,
      ⟨n, rfl, rfl, hn.whole, hn.fraction, ?_, ?_⟩, n.exponent.isSome, exponentText n.exponent, [],
      by simp, ⟨n.exponent, rfl, rfl, fun e h => ⟨hn.exponent e h, hends.digit⟩, ?_⟩, rfl, rfl,
      hends.name⟩
    · exact head_exponentText (by decide) hn.exponent fun _ => hends.digit
    · intro hf
      exact head_exponentText (by decide) hn.exponent fun he =>
        hends.dot (NumberLiteral.kind_eq_integer hf he)
    · intro _ c hc hletter
      have hname := hends.name c hc
      rcases hletter with rfl | rfl <;> exact absurd hname (by decide)

theorem readSince_append {j : Nat} (s r : Text) (hj : j = i + s.length) :
    readSince ⟨i, s ++ r⟩ ⟨j, r⟩ = .ok s ⟨j, r⟩ := by
  subst hj
  change EStateM.Result.ok ((s ++ r).take (i + s.length - i)) _ = _
  rw [Nat.add_sub_cancel_left, List.take_left]

/-- The numbers that are read. -/
theorem number_eq_ok_iff {a : Token} {q : Place} : number ⟨i, t⟩ = .ok a q ↔
    ∃ (n : NumberLiteral) (r : Text), t = n.text ++ r ∧ q = ⟨i + n.text.length, r⟩ ∧ n.IsRead ∧
      n.Ends r ∧ a = .placed n.kind i (i + n.text.length) n.text := by
  have hrun : number ⟨i, t⟩ = (numeral >>= fun kind => readSince ⟨i, t⟩ >>= fun v =>
      tokenSince ⟨i, t⟩ kind v) ⟨i, t⟩ := by rw [number_eq]; rfl
  rw [hrun]
  constructor
  · intro h
    obtain ⟨kind, p, hp, h⟩ := bind_eq_ok.1 h
    obtain ⟨s, r, rfl, rfl, n, rfl, hn, hends, rfl⟩ := accepts_numeral.of_ok hp
    rw [bind_of_ok (readSince_append _ _ rfl)] at h
    cases h
    exact ⟨n, r, rfl, rfl, hn, hends, rfl⟩
  · rintro ⟨n, r, rfl, rfl, hn, hends, rfl⟩
    rw [bind_of_ok (accepts_numeral.ok ⟨n, rfl, hn, hends, rfl⟩),
      bind_of_ok (readSince_append _ _ rfl)]
    rfl

/-- An exponent with a leading zero is refused at the digit behind the zero. -/
theorem exponent_leadingZero {e : ExponentPart} {power : Text → Prop} (he : e.Fits power)
    {d : CodePoint} (hz : e.digits = CodePoint.ofChar '0' :: d :: ds) (hd : d.isDigit) :
    ∃ q, exponent ⟨i, e.text ++ r⟩ =
      .error ⟨.unexpectedCharacter d, (i + e.text.length - (ds.length + 1) : Nat)⟩ q := by
  have htext : e.text ++ r = [e.mark] ++ (e.sign.toList ++ (e.digits ++ r)) := by
    simp [ExponentPart.text]
  have hlength : e.text.length = e.sign.toList.length + ds.length + 3 := by
    simp [ExponentPart.text, hz]
    omega
  have hmark : accept (fun c => c = 'e' || c = 'E')
      ⟨i, [e.mark] ++ (e.sign.toList ++ (e.digits ++ r))⟩ = .ok true _ :=
    (accepts_accept _).ok (.inl ⟨rfl, e.mark, rfl, by simpa using he.mark⟩)
  obtain ⟨found, hsign⟩ : ∃ found, accept (fun c => c = '+' || c = '-')
      ⟨i + 1, e.sign.toList ++ (e.digits ++ r)⟩ =
        .ok found ⟨i + 1 + e.sign.toList.length, e.digits ++ r⟩ := by
    cases hsign : e.sign with
    | some c =>
      exact ⟨true, (accepts_accept _).ok (.inl ⟨rfl, c, rfl, by simpa using he.sign c hsign⟩)⟩
    | none =>
      refine ⟨false, (accepts_accept _).ok (.inr ⟨rfl, rfl, ?_⟩)⟩
      rw [hz]
      rintro _ ⟨⟩
      decide
  refine ⟨⟨i + 1 + e.sign.toList.length + 1, d :: (ds ++ r)⟩, ?_⟩
  unfold exponent
  rw [htext, bind_of_ok hmark, if_pos rfl]
  change (accept (fun c => c = '+' || c = '-') >>= _) ⟨i + 1, _⟩ = _
  rw [bind_of_ok hsign, hz]
  rw [show i + e.text.length - (ds.length + 1) = i + 1 + e.sign.toList.length + 1 by omega]
  exact bind_of_error (wholeDigits_leadingZero hd)

theorem IsRun.mono {digit' : CodePoint → Bool} (h : IsRun digit ds)
    (hd : ∀ c ∈ ds, digit c → digit' c) : IsRun digit' ds :=
  ⟨h.ne_nil, fun c hc => hd c hc (h.all c hc)⟩

theorem IsWhole.mono {digit' : CodePoint → Bool} (h : IsWhole digit ds)
    (hd : ∀ c ∈ ds, digit c → digit' c) : IsWhole digit' ds := ⟨h.toIsRun.mono hd, h.zero⟩

theorem isDigit_of_isAsciiDigit {c : CodePoint} (h : c.isAsciiDigit) : c.isDigit := by
  simp only [CodePoint.isAsciiDigit, CodePoint.between, Char.reduceToNat, Bool.and_eq_true,
    decide_eq_true_eq] at h
  have hzero : CodePoint.zeros.find? (fun z => z ≤ c.val && c.val < z + 10) = some 0x30 := by
    apply List.find?_cons_of_pos
    simp only [Bool.and_eq_true, decide_eq_true_eq]
    omega
  simp [CodePoint.isDigit, CodePoint.decimal?, hzero]

namespace NumberLiteral

variable {n : NumberLiteral}

/-- A number of the language whose exponent has no leading zero is one that is read. -/
theorem Conforms.isRead (hn : n.Conforms)
    (he : ∀ e ∈ n.exponent, IsWhole isAsciiDigit e.digits) : n.IsRead where
  whole := hn.whole.mono fun _ _ => isDigit_of_isAsciiDigit
  fraction ds h := (hn.fraction ds h).mono fun _ _ => isDigit_of_isAsciiDigit
  exponent e h := ⟨(hn.exponent e h).mark, (hn.exponent e h).sign,
    (he e h).mono fun _ _ => isDigit_of_isAsciiDigit⟩

end NumberLiteral

/-- A number whose exponent has a leading zero is refused. -/
theorem number_leadingZero {n : NumberLiteral} (hn : n.Conforms) {e : ExponentPart}
    (he : n.exponent = some e) {d : CodePoint} (hz : e.digits = CodePoint.ofChar '0' :: d :: ds) :
    ∃ q, number ⟨i, n.text ++ r⟩ =
      .error ⟨.unexpectedCharacter d, (i + n.text.length - (ds.length + 1) : Nat)⟩ q := by
  have hd : d.isDigit := by
    apply isDigit_of_isAsciiDigit
    exact (hn.exponent e he).digits.all d (by simp [hz])
  have hstart : ∀ c ∈ (e.text ++ r).head?, ¬c.isDigit ∧ c ≠ '.' := by
    rintro _ ⟨⟩
    rcases (hn.exponent e he).mark with h | h <;> rw [h] <;> decide
  have hmantissa : mantissa ⟨i, n.mantissa ++ (e.text ++ r)⟩ = .ok n.fraction.isSome _ :=
    accepts_mantissa.ok ⟨n, rfl, rfl, hn.whole.mono fun _ _ => isDigit_of_isAsciiDigit,
      fun ds h => (hn.fraction ds h).mono fun _ _ => isDigit_of_isAsciiDigit,
      fun c hc => (hstart c hc).1, fun _ c hc => (hstart c hc).2⟩
  obtain ⟨q, hexponent⟩ := exponent_leadingZero (i := i + n.mantissa.length) (r := r)
    (hn.exponent e he) hz hd
  have htext : n.text ++ r = n.mantissa ++ (e.text ++ r) := by
    simp [NumberLiteral.text, he, exponentText]
  refine ⟨q, ?_⟩
  have hnumeral : numeral ⟨i, n.text ++ r⟩ =
      .error ⟨.unexpectedCharacter d, (i + n.text.length - (ds.length + 1) : Nat)⟩ q := by
    have hlength : n.text.length = n.mantissa.length + e.text.length := by
      simp [NumberLiteral.text, he, exponentText]
    rw [numeral_eq, htext, bind_of_ok hmantissa, hlength, ← Nat.add_assoc]
    exact bind_of_error hexponent
  have hget : (get : Scan Place) ⟨i, n.text ++ r⟩ = .ok ⟨i, n.text ++ r⟩ ⟨i, n.text ++ r⟩ := rfl
  rw [number_eq, bind_of_ok hget]
  exact bind_of_error hnumeral

end Scan

end GraphSchema
