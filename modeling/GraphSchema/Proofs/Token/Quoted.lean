import GraphSchema.Proofs.Token.Place

/-!
# Strings that break off

A string that the text ends in is an error at the end of the text. If the text ends within an escape
sequence of the string, the error is reported one code point too far, behind the end of the text,
and this is the only error of a token that does not lie in the text.

## Main definitions

* `Scan.BreaksOff`: what follows an opening quotation mark ends within an escape sequence.
* `Scan.IsCut`: a string that ends so is ahead.
* `Scan.Misses`: which error there is if a text ends so, and which ones if it does not.

## Main statements

* `Scan.yields_escapeDigits`, `Scan.yields_escape`, `Scan.yields_stringBody`: parts of strings.
* `Scan.yields_token`: tokens.
-/

namespace GraphSchema

namespace Scan

/-! ## Escape sequences -/

/-- Four digits that name a code point. The reading of digits stops at the first code point that is
not alphanumeric, which may still be the fourth. -/
structure IsCode (digits : Text) : Prop where
  length : digits.length = 4
  read : ∀ c ∈ digits.dropLast, c.isAlphanumeric
  value : (Numeral.readHexadecimal? digits).isSome

/-- The digits of an escape sequence are cut off by the end of the text. -/
structure IsShort (n : Nat) (rest : Text) : Prop where
  length : rest.length < n
  read : ∀ c ∈ rest, c.isAlphanumeric

/-- A code point that stands for itself in a string. -/
structure IsPlain (c : CodePoint) : Prop where
  visible : isVisible c
  not_quote : c ≠ '"'
  not_escape : c ≠ '\\'

/-- What follows an opening quotation mark ends within an escape sequence of the string. -/
inductive BreaksOff : Text → Prop
  | escape : BreaksOff [CodePoint.ofChar '\\']
  | digits {rest : Text} (h : IsShort 4 rest) :
      BreaksOff (CodePoint.ofChar '\\' :: CodePoint.ofChar 'u' :: rest)
  | plain {c : CodePoint} {rest : Text} (hc : IsPlain c) (h : BreaksOff rest) :
      BreaksOff (c :: rest)
  | short {c : CodePoint} {rest : Text} (hc : (shortEscape? c).isSome) (h : BreaksOff rest) :
      BreaksOff (CodePoint.ofChar '\\' :: c :: rest)
  | code {digits rest : Text} (hd : IsCode digits) (h : BreaksOff rest) :
      BreaksOff (CodePoint.ofChar '\\' :: CodePoint.ofChar 'u' :: (digits ++ rest))

theorem not_isPlain_escape : ¬IsPlain (CodePoint.ofChar '\\') := fun h => h.not_escape rfl

theorem shortEscape?_u : shortEscape? (CodePoint.ofChar 'u') = none := by decide

theorem not_breaksOff_nil : ¬BreaksOff [] := nofun

theorem breaksOff_plain {c : CodePoint} {rest : Text} (hc : IsPlain c) :
    BreaksOff (c :: rest) ↔ BreaksOff rest := by
  constructor
  · intro h
    cases h with
    | plain _ h => exact h
    | _ => exact absurd hc not_isPlain_escape
  · exact .plain hc

/-- Neither a code point that stands for itself nor an escape sequence is ahead. -/
theorem not_breaksOff_cons {c : CodePoint} {rest : Text} (hc : ¬IsPlain c) (hne : c ≠ '\\') :
    ¬BreaksOff (c :: rest) := by
  intro h
  cases h with
  | plain h _ => exact hc h
  | _ => exact hne rfl

theorem breaksOff_short {c : CodePoint} {rest : Text} (hc : (shortEscape? c).isSome) :
    BreaksOff (CodePoint.ofChar '\\' :: c :: rest) ↔ BreaksOff rest := by
  have hu : ∀ {c : CodePoint}, (shortEscape? c).isSome → c ≠ CodePoint.ofChar 'u' := by
    rintro c hc rfl
    rw [shortEscape?_u] at hc
    cases hc
  constructor
  · intro h
    cases h with
    | digits _ => exact absurd rfl (hu hc)
    | plain h _ => exact absurd h not_isPlain_escape
    | short _ h => exact h
    | code _ _ => exact absurd rfl (hu hc)
  · exact .short hc

theorem not_breaksOff_escape {c : CodePoint} {rest : Text} (hc : shortEscape? c = none)
    (hu : c ≠ 'u') : ¬BreaksOff (CodePoint.ofChar '\\' :: c :: rest) := by
  intro h
  cases h with
  | digits _ => exact hu rfl
  | plain h _ => exact not_isPlain_escape h
  | short h _ =>
    rw [hc] at h
    cases h
  | code _ _ => exact hu rfl

/-- What follows the letter of an escape sequence of digits. -/
theorem breaksOff_digits {rest : Text} :
    BreaksOff (CodePoint.ofChar '\\' :: CodePoint.ofChar 'u' :: rest) ↔
      IsShort 4 rest ∨
        ∃ digits after, rest = digits ++ after ∧ IsCode digits ∧ BreaksOff after := by
  constructor
  · intro h
    cases h with
    | digits h => exact .inl h
    | plain h _ => exact absurd h not_isPlain_escape
    | short h _ =>
      rw [shortEscape?_u] at h
      cases h
    | code hd h => exact .inr ⟨_, _, rfl, hd, h⟩
  · rintro (h | ⟨digits, after, rfl, hd, h⟩)
    · exact .digits h
    · exact .code hd h

/-! ## Errors at the end of the text -/

/-- The error that there is if the text ends within an escape sequence, and those that there may be
if it does not. -/
def Misses (source : Text) (cut : Prop) (e : SyntaxError) : Prop :=
  cut ∧ e = ⟨.nonTerminatedString, source.length + 1⟩ ∨ ¬cut ∧ e.IsIn source

variable {source : Text} {p : Place} {cut : Prop}

/-- An error of a text that does not end within an escape sequence. -/
theorem misses_of_isIn {e : SyntaxError} (hc : ¬cut) (h : e.IsIn source) : Misses source cut e :=
  .inr ⟨hc, h⟩

theorem yields_fail_misses {α : Type} {Q : α → Place → Prop} (hp : p.In source) (hc : ¬cut)
    {cause : SyntaxError.Cause} {back : Nat} (hback : back ≤ p.position) :
    Yields source (fail cause back : Scan α) p Q (Misses source cut) :=
  (yields_fail hp hback).conseq (fun _ _ _ h => h) fun _ => misses_of_isIn hc

/-- At the end of the text an escape sequence fails one code point behind it. -/
theorem yields_throw_behind {α : Type} {Q : α → Place → Prop} (hp : p.In source)
    (hr : p.rest = []) :
    Yields source
      (get >>= fun q => throw { cause := .nonTerminatedString, position := q.position + 1 } :
      Scan α) p Q (· = ⟨.nonTerminatedString, source.length + 1⟩) := by
  refine yields_get_bind (yields_throw hp ?_)
  have := hp.position_add_length
  simp only [hr, List.length_nil, Nat.add_zero] at this
  rw [this]

/-! ## Parts of strings -/

/-- The digits that were read: no more than `n`, and fewer only if the last one is not
alphanumeric. -/
structure ReadsDigits (n : Nat) (digits : Text) : Prop where
  length : digits.length ≤ n
  read : ∀ c ∈ digits.dropLast, c.isAlphanumeric
  stop : digits.length = n ∨ ∃ c ∈ digits.getLast?, ¬c.isAlphanumeric

theorem ReadsDigits.cons {n : Nat} {c : CodePoint} {digits : Text} (h : ReadsDigits n digits)
    (hc : c.isAlphanumeric) : ReadsDigits (n + 1) (c :: digits) where
  length := Nat.succ_le_succ h.length
  read := by
    cases digits with
    | nil => simp
    | cons d digits => simpa [hc] using h.read
  stop := by
    refine h.stop.imp (congrArg (· + 1)) ?_
    rintro ⟨d, hd, hn⟩
    exact ⟨d, by simp [List.getLast?_cons, Option.mem_def.1 hd], hn⟩

theorem yields_escapeDigits (n : Nat) (hp : p.In source) :
    Yields source (escapeDigits n) p
      (fun _ q => ∃ digits, ReadsDigits n digits ∧ p.rest = digits ++ q.rest ∧
        q.position = p.position + digits.length)
      (fun e => IsShort n p.rest ∧ e = ⟨.nonTerminatedString, source.length + 1⟩) := by
  induction n generalizing p with
  | zero => exact yields_pure hp ⟨[], ⟨Nat.le_refl _, by simp, .inl rfl⟩, rfl, rfl⟩
  | succ n ih =>
    refine yields_peek?_bind (fun hr => ?_) fun c rest hr => yields_skip_bind ?_
    · refine (yields_throw_behind hp hr).conseq (fun _ _ _ h => h) fun e he => ?_
      exact ⟨⟨by simp [hr], by simp [hr]⟩, he⟩
    have hnext := In.next hp hr
    split
    · rename_i hc
      refine (ih hnext).conseq ?_ ?_
      · rintro - q - ⟨digits, hd, hrest, hpos⟩
        refine ⟨c :: digits, hd.cons hc, ?_, ?_⟩
        · rw [hr, List.cons_append, ← hrest, rest_next hr]
        · rw [hpos, Place.position_skip, List.length_cons]
          omega
      · rintro e ⟨hs, he⟩
        rw [rest_next hr] at hs
        refine ⟨⟨?_, ?_⟩, he⟩
        · rw [hr]
          exact Nat.succ_lt_succ hs.length
        · rw [hr]
          exact List.forall_mem_cons.2 ⟨hc, hs.read⟩
    · rename_i hc
      exact yields_pure hnext ⟨[c], ⟨by simp, by simp, .inr ⟨c, rfl, hc⟩⟩, by simp [hr], rfl⟩

/-- Digits that are followed by more of the text are not cut off. -/
theorem ReadsDigits.not_isShort {n : Nat} {digits rest : Text} (h : ReadsDigits n digits) :
    ¬IsShort n (digits ++ rest) := by
  intro hs
  rcases h.stop with hl | ⟨c, hc, hn⟩
  · have := hs.length
    rw [List.length_append] at this
    omega
  · exact hn (hs.read c (List.mem_append_left _ (List.mem_of_getLast? hc)))

/-- The digits of a code are those that are read. -/
theorem ReadsDigits.eq_of_isCode {digits rest code after : Text} (h : ReadsDigits 4 digits)
    (hc : IsCode code) (heq : digits ++ rest = code ++ after) : digits = code := by
  obtain ⟨t, rfl⟩ : digits <+: code :=
    List.prefix_of_prefix_length_le ⟨rest, heq⟩ ⟨after, rfl⟩ (by rw [hc.length]; exact h.length)
  rcases h.stop with hl | ⟨c, hlast, hn⟩
  · have := hc.length
    rw [List.length_append, hl] at this
    rw [List.eq_nil_of_length_eq_zero (Nat.add_left_cancel this), List.append_nil]
  · cases ht : t with
    | nil => rw [List.append_nil]
    | cons d t =>
      refine absurd (hc.read c ?_) hn
      rw [ht, List.dropLast_append_of_ne_nil (List.cons_ne_nil d t)]
      exact List.mem_append_left _ (List.mem_of_getLast? hlast)

theorem yields_unicodeEscape (hp : p.In source) (hpos : 1 ≤ p.position) :
    Yields source unicodeEscape p
      (fun _ q => BreaksOff (CodePoint.ofChar '\\' :: CodePoint.ofChar 'u' :: p.rest) ↔
        BreaksOff q.rest)
      (Misses source (BreaksOff (CodePoint.ofChar '\\' :: CodePoint.ofChar 'u' :: p.rest))) := by
  refine yields_get_bind (Yields.bind ((yields_escapeDigits 4 hp).conseq (fun _ _ _ h => h) ?_) ?_)
  · rintro e ⟨hs, he⟩
    exact .inl ⟨.digits hs, he⟩
  rintro - q hq ⟨digits, hd, hrest, hstop⟩
  have hread : p.rest.take (q.position - p.position) = digits := by
    rw [hstop, Nat.add_sub_cancel_left, hrest, List.take_left]
  have hshort : ¬IsShort 4 p.rest := hrest ▸ hd.not_isShort
  refine yields_readSince_bind ?_
  rw [hread]
  split
  · rename_i n hn
    have hcode : IsCode digits := by
      split at hn
      · exact ⟨‹_›, hd.read, by rw [hn]; rfl⟩
      · cases hn
    refine yields_pure hq ?_
    rw [breaksOff_digits, or_iff_right hshort]
    constructor
    · rintro ⟨code, after, heq, hc, h⟩
      rw [hrest] at heq
      obtain rfl := hd.eq_of_isCode hc heq
      rwa [List.append_cancel_left heq]
    · exact fun h => ⟨digits, q.rest, hrest, hcode, h⟩
  · rename_i hn
    refine yields_throw hq (misses_of_isIn ?_ ?_)
    · rw [breaksOff_digits, or_iff_right hshort]
      rintro ⟨code, after, heq, hc, -⟩
      rw [hrest] at heq
      obtain rfl := hd.eq_of_isCode hc heq
      have := hc.value
      rw [if_pos hc.length] at hn
      rw [hn] at this
      cases this
    · exact hp.isIn hpos

theorem yields_escape (hp : p.In source) :
    Yields source escape p
      (fun _ q => BreaksOff (CodePoint.ofChar '\\' :: p.rest) ↔ BreaksOff q.rest)
      (Misses source (BreaksOff (CodePoint.ofChar '\\' :: p.rest))) := by
  refine yields_peek?_bind (fun hr => ?_) fun c rest hr => ?_
  · exact (yields_throw_behind hp hr).conseq (fun _ _ _ h => h)
      fun _ he => .inl ⟨by rw [hr]; exact .escape, he⟩
  have hnext := In.next hp hr
  have hrest : (p.skip 1).rest = rest := rest_next hr
  rw [hr]
  refine yields_skip_bind ?_
  split
  · rename_i d hd
    exact yields_pure hnext (by rw [breaksOff_short (by rw [hd]; rfl), hrest])
  · rename_i hd
    split
    · rename_i hu
      subst hu
      have := yields_unicodeEscape hnext (Nat.le_add_left _ _)
      rwa [hrest] at this
    · rename_i hu
      exact yields_fail_misses hnext (not_breaksOff_escape hd hu) (Nat.le_add_left _ _)

theorem not_isPlain {c : CodePoint} (hc : ¬isVisible c) : ¬IsPlain c := fun h => hc h.visible

/-- The value of a string; `fuel` is as long as the text ahead. -/
theorem yields_stringBody (fuel : Text) (hp : p.In source)
    (hfuel : p.rest.length ≤ fuel.length) :
    Yields source (stringBody fuel) p (fun _ _ => ¬BreaksOff p.rest)
      (Misses source (BreaksOff p.rest)) := by
  have hend : ∀ {q : Place}, q.rest = [] → ¬BreaksOff q.rest := by
    intro q hq
    rw [hq]
    exact not_breaksOff_nil
  -- Each code point that is read shortens the text ahead, so that the fuel is never used up first.
  induction fuel generalizing p with
  | nil =>
    have hr := List.eq_nil_of_length_eq_zero (Nat.le_zero.1 hfuel)
    exact yields_fail_misses hp (hend hr) (Nat.zero_le _)
  | cons _ fuel ih =>
    refine yields_peek?_bind (fun hr => yields_fail_misses hp (hend hr) (Nat.zero_le _))
      fun c rest hr => yields_skip_bind ?_
    have hnext := In.next hp hr
    have hrest : (p.skip 1).rest = rest := rest_next hr
    have hless : rest.length ≤ fuel.length := by
      rw [hr] at hfuel
      exact Nat.le_of_succ_le_succ hfuel
    rw [hr]
    split
    · rename_i hc
      exact yields_pure hnext (not_breaksOff_cons (fun h => h.not_quote hc) (by rw [hc]; decide))
    split
    · rename_i hc
      subst hc
      have hesc := (yields_escape hnext).shrinks shrinks_escape
      rw [hrest] at hesc
      refine hesc.bind ?_
      rintro d q hq ⟨hd, hle⟩
      rw [hd]
      exact (ih hq (Nat.le_trans hle hless)).bind fun _ _ h hb => yields_pure h hb
    split
    · rename_i hc
      refine yields_fail_misses hnext (not_breaksOff_cons (not_isPlain ?_) ‹_›)
        (Nat.le_add_left _ _)
      rcases hc with rfl | rfl <;> decide
    split
    · rename_i hc
      rw [breaksOff_plain ⟨hc, ‹_›, ‹_›⟩, ← hrest]
      exact (ih hnext (by rw [hrest]; exact hless)).bind fun _ _ h hb => yields_pure h hb
    · exact yields_fail_misses hnext (not_breaksOff_cons (not_isPlain ‹_›) ‹_›)
        (Nat.le_add_left _ _)

/-! ## Tokens -/

/-- A string is ahead that the text ends in, within an escape sequence. -/
structure IsCut (rest : Text) : Prop where
  single : ¬tripleQuote.isPrefixOf rest
  body : ∃ t, rest = CodePoint.ofChar '"' :: t ∧ BreaksOff t

theorem isCut_quote {t : Text} (h : ¬tripleQuote.isPrefixOf (CodePoint.ofChar '"' :: t)) :
    IsCut (CodePoint.ofChar '"' :: t) ↔ BreaksOff t := by
  constructor
  · rintro ⟨-, u, heq, hu⟩
    cases heq
    exact hu
  · exact fun ht => ⟨h, t, rfl, ht⟩

theorem not_isCut {c : CodePoint} {rest : Text} (h : c ≠ '"') : ¬IsCut (c :: rest) := by
  rintro ⟨-, t, heq, -⟩
  cases heq
  exact h rfl

theorem yields_string (hp : p.In source) {t : Text} (hr : p.rest = CodePoint.ofChar '"' :: t) :
    Yields source string p (fun a q => Spans p a q ∧ ¬BreaksOff t)
      (Misses source (BreaksOff t)) := by
  have hnext := In.next hp hr
  have hbody := yields_stringBody (p.skip 1).rest hnext (Nat.le_refl _)
  rw [rest_next hr] at hbody
  refine yields_get_bind (yields_skip_bind (yields_get_bind (Yields.bind ?_ fun _ q hq hb =>
    (yields_tokenSince hq (by decide)).conseq (fun _ _ _ h => ⟨h, hb⟩) fun _ h => h)))
  rw [rest_next hr]
  exact hbody

/-- A token starts where it is read, and is read to its end unless the text ends in it. -/
theorem yields_token (hp : p.In source) {c : CodePoint} {rest : Text} (hr : p.rest = c :: rest) :
    Yields source (token c) p (fun t q => Spans p t q ∧ isVisible c ∧ ¬IsCut p.rest)
      (Misses source (IsCut p.rest)) := by
  unfold token
  rw [hr]
  split
  · rename_i hvisible
    -- Only at a quotation mark can there be a string that the text breaks off.
    have hother : ∀ {x : Scan Token}, c ≠ '"' →
        Yields source x p (Spans p) (SyntaxError.IsIn · source) →
        Yields source x p (fun t q => Spans p t q ∧ isVisible c ∧ ¬IsCut (c :: rest))
          (Misses source (IsCut (c :: rest))) :=
      fun hc h => h.conseq (fun _ _ _ h => ⟨h, hvisible, not_isCut hc⟩)
        fun _ => misses_of_isIn (not_isCut hc)
    split
    · rename_i kind hkind
      refine hother ?_ (yields_symbol hp hr hkind)
      rintro rfl
      rw [show Token.Kind.ofSymbol? (CodePoint.ofChar '"') = none by decide] at hkind
      cases hkind
    split
    · exact hother (by rintro rfl; exact absurd ‹_› (by decide)) (yields_ellipsis hp)
    refine yields_ahead_bind ?_
    split
    · rename_i hquotes
      refine (yields_blockString hp hquotes).conseq (fun _ _ _ h => ⟨h, hvisible, ?_⟩)
        fun _ => misses_of_isIn ?_
      all_goals exact fun h => h.single (hr ▸ hquotes)
    rename_i hquotes
    rw [hr] at hquotes
    split
    · rename_i hc
      subst hc
      rw [isCut_quote hquotes]
      exact (yields_string hp hr).conseq (fun _ _ _ h => ⟨h.1, hvisible, h.2⟩) fun _ h => h
    rename_i hc
    split
    · exact hother hc (yields_number hp)
    split
    · exact hother hc (yields_name hp)
    · exact yields_fail_misses hp (not_isCut hc) (Nat.zero_le _)
  · rename_i hvisible
    refine yields_skip_bind (yields_fail_misses (In.next hp hr) (not_isCut ?_) (Nat.zero_le _))
    rintro rfl
    exact hvisible (by decide)

end Scan

end GraphSchema
