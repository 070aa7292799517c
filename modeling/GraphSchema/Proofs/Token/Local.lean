import GraphSchema.Proofs.Token.Accepts

/-!
# Tokens and what follows them

Whether a text is read as a token does not depend on where it stands, and on what follows it only as
far as the next code point goes: where a token ends, it also ends in front of anything that
separates tokens, and at the end of a text.

## Main definitions

* `Scan.Alike`: texts that may follow a token in place of one another.
* `Scan.Local`: reading that depends on no more than what it reads and what follows.
* `Scan.Spells`: a text is read as a token.

## Main statements

* `Scan.Local.bind`: readings in sequence.
* `Scan.spells_token`: what is read as a token spells it.
* `Scan.Spells.alike`: it does so in front of any other text that may follow.
-/

namespace GraphSchema

namespace Scan

variable {α β : Type} {t u r s : Text} {i : Nat}

/-- The code points that may stand right behind any token. -/
def separators : List CodePoint := ['\n', '\r', '\uFEFF', '\t', ' ', ',', '#']

/-- Nothing of the text belongs to a token in front of it. -/
def Separates (t : Text) : Prop := ∀ c ∈ t.head?, c ∈ separators

/-- No token in front of the first text shows whether this one or the second one follows. -/
def Alike (t u : Text) : Prop := u.head? = t.head? ∨ Separates u

/-- The test fails for what separates tokens. -/
def Stops (p : CodePoint → Bool) : Prop := ∀ c ∈ separators, ¬p c

instance (p : CodePoint → Bool) : Decidable (Stops p) :=
  inferInstanceAs (Decidable (∀ c ∈ separators, ¬p c))

/-- What `x` reads, and with what result, depends on this part of the text only, and on what may
follow it. -/
def Local (x : Scan α) : Prop :=
  ∀ ⦃i t a q⦄, x ⟨i, t⟩ = .ok a q → ∃ s r, t = s ++ r ∧ q = ⟨i + s.length, r⟩ ∧
    ∀ j u, Alike r u → x ⟨j, s ++ u⟩ = .ok a ⟨j + s.length, u⟩

namespace Alike

theorem refl (t : Text) : Alike t t := .inl rfl

theorem of_separates (h : Separates u) : Alike t u := .inr h

/-- In front of texts that may replace one another the same text may stand. -/
theorem append (h : Alike r u) (s : Text) : Alike (s ++ r) (s ++ u) := by
  cases s with
  | nil => exact h
  | cons c s => exact .inl rfl

/-- What a test says of the next code point. -/
theorem not_head {p : CodePoint → Bool} (h : Alike r u) (hp : Stops p)
    (hr : ∀ c ∈ r.head?, ¬p c) : ∀ c ∈ u.head?, ¬p c := by
  intro c hc
  rcases h with h | h
  · exact hr c (h ▸ hc)
  · exact hp c (h c hc)

end Alike

/-! ## Readings in sequence -/

theorem local_pure (a : α) : Local (pure a) := by
  intro i t b q h
  cases h
  exact ⟨[], t, rfl, rfl, fun _ _ _ => rfl⟩

theorem local_fail {cause : SyntaxError.Cause} {back : Nat} :
    Local (fail cause back : Scan α) := by
  intro i t a q h
  cases h

/-- One reading after the other: what the second one reads follows what the first one reads. -/
theorem Local.bind {x : Scan α} {f : α → Scan β} (hx : Local x) (hf : ∀ a, Local (f a)) :
    Local (x >>= f) := by
  intro i t b q h
  obtain ⟨a, p, hx', hf'⟩ := bind_eq_ok.1 h
  obtain ⟨s, r, rfl, rfl, hs⟩ := hx hx'
  obtain ⟨s', r', rfl, rfl, hs'⟩ := hf a hf'
  refine ⟨s ++ s', r', by simp, by simp [Nat.add_assoc], fun j u hu => ?_⟩
  rw [List.append_assoc, bind_of_ok (hs j (s' ++ u) (hu.append s')), hs' _ u hu]
  simp [Nat.add_assoc]

/-- With the code point `c` ahead `x` takes it, and depends on no more than what it reads and what
may follow that. -/
def LocalFrom (c : CodePoint) (x : Scan α) : Prop :=
  ∀ ⦃i t a q⦄, x ⟨i, c :: t⟩ = .ok a q → ∃ s r, t = s ++ r ∧ q = ⟨i + 1 + s.length, r⟩ ∧
    ∀ j u, Alike r u → x ⟨j, c :: (s ++ u)⟩ = .ok a ⟨j + 1 + s.length, u⟩

variable {c : CodePoint}

theorem localFrom_fail {cause : SyntaxError.Cause} {back : Nat} :
    LocalFrom c (fail cause back : Scan α) := by
  intro i t a q h
  cases h

theorem localFrom_skip_bind {x : Scan α} (hx : Local x) :
    LocalFrom c (skip 1 >>= fun _ => x) := by
  intro i t a q h
  obtain ⟨s, r, rfl, rfl, hs⟩ := hx (i := i + 1) (t := t) h
  exact ⟨s, r, rfl, rfl, fun j u hu => hs (j + 1) u hu⟩

/-- Reading that takes the code point ahead. -/
theorem Local.from {x : Scan α} (hx : Local x) (hc : Takes c x) : LocalFrom c x := by
  intro i t a q h
  have hless := hc _ t _ _ rfl h
  obtain ⟨s, r, heq, rfl, hs⟩ := hx h
  cases s with
  | nil =>
    rw [heq] at hless
    exact absurd hless (Nat.lt_irrefl _)
  | cons d s =>
    obtain ⟨rfl, rfl⟩ := List.cons.inj heq
    refine ⟨s, r, rfl, ?_, fun j u hu => ?_⟩
    · rw [List.length_cons, Nat.add_assoc, Nat.add_comm 1]
    · rw [Nat.add_assoc, Nat.add_comm 1, ← List.length_cons, ← hs j u hu, List.cons_append]

/-- Reading that looks at the code point ahead and takes it. -/
theorem local_peek?_bind {f : Option CodePoint → Scan α} (hnone : ∀ p a q, f none p ≠ .ok a q)
    (hsome : ∀ c, LocalFrom c (f (some c))) : Local (peek? >>= f) := by
  intro i t a q h
  cases t with
  | nil => exact absurd h (hnone _ _ _)
  | cons c t =>
    obtain ⟨s, r, rfl, rfl, hs⟩ := hsome c h
    refine ⟨c :: s, r, rfl, ?_, fun j u hu => ?_⟩
    · rw [List.length_cons, Nat.add_assoc, Nat.add_comm 1]
    · rw [List.length_cons, Nat.add_comm s.length, ← Nat.add_assoc]
      exact hs j u hu

/-- Reading that looks at what follows only as far as the next code point goes. -/
theorem Accepts.local {x : Scan α} {L : α → Text → Text → Prop} (h : Accepts x L)
    (hL : ∀ a s r u, Alike r u → L a s r → L a s u) : Local x := by
  intro i t a q hx
  obtain ⟨s, r, rfl, rfl, hs⟩ := h.of_ok hx
  exact ⟨s, r, rfl, rfl, fun j u hu => h.ok (hL a s r u hu hs)⟩

theorem local_skipWhile {p : CodePoint → Bool} (hp : Stops p) : Local (skipWhile p) :=
  (accepts_skipWhile p).local fun _ _ _ _ hu h => ⟨h.1, hu.not_head hp h.2⟩

theorem local_accept {p : CodePoint → Bool} (hp : Stops p) : Local (accept p) :=
  (accepts_accept p).local fun _ _ _ _ hu h =>
    h.imp_right fun h => ⟨h.1, h.2.1, hu.not_head hp h.2.2⟩

/-- Reading that goes on unless a test holds of the code point ahead. -/
theorem local_unless {p : CodePoint → Bool} (hp : Stops p) {f : Option CodePoint → Scan α}
    {x : Scan α} (hx : Local x) (hnone : f none = x) (hneg : ∀ c, ¬p c → f (some c) = x)
    (hpos : ∀ c, p c → ∀ q a r, f (some c) q ≠ .ok a r) : Local (peek? >>= f) := by
  intro i t a q h
  have hahead : ∀ {j u}, (∀ c ∈ u.head?, ¬p c) → (peek? >>= f) ⟨j, u⟩ = x ⟨j, u⟩ := by
    intro j u hu
    change f u.head? ⟨j, u⟩ = _
    cases u with
    | nil => rw [List.head?_nil, hnone]
    | cons c u => rw [List.head?_cons, hneg c (hu c rfl)]
  have hhead : ∀ c ∈ t.head?, ¬p c := by
    intro c hc hpc
    change f t.head? ⟨i, t⟩ = _ at h
    rw [Option.mem_def.1 hc] at h
    exact hpos c hpc _ _ _ h
  rw [hahead hhead] at h
  obtain ⟨s, r, rfl, rfl, hs⟩ := hx h
  exact ⟨s, r, rfl, rfl, fun j u hu => by rw [hahead ((hu.append s).not_head hp hhead), hs j u hu]⟩

/-! ## Parts of tokens -/

theorem local_dots (n : Nat) : Local (dots n) := by
  induction n with
  | zero => exact local_pure _
  | succ n ih =>
    refine local_peek?_bind (by rintro p a q ⟨⟩) fun c => localFrom_skip_bind ?_
    split
    · exact ih
    · exact local_fail

theorem local_escapeDigits (n : Nat) : Local (escapeDigits n) := by
  induction n with
  | zero => exact local_pure _
  | succ n ih =>
    refine local_peek?_bind (by rintro p a q ⟨⟩) fun c => localFrom_skip_bind ?_
    split
    · exact ih
    · exact local_pure _

/-- The code point that the digits behind `\u` name, if they do; they stand behind `start`. -/
def named (start : Nat) (digits : Text) : Option Int → Scan CodePoint
  | some n => return CodePoint.ofNat n.toNat
  | none => throw { cause := .invalidEscape (CodePoint.ofChar 'u' :: digits),
                    position := (start : Int) - 1 }

/-- What the digits behind `\u` write, which have to be four. -/
def code? (digits : Text) : Option Int :=
  if digits.length = 4 then Numeral.readHexadecimal? digits else none

theorem unicodeEscape_eq {i : Nat} {s t : Text} {p : Place}
    (h : escapeDigits 4 ⟨i, s ++ t⟩ = .ok () p) (hp : p = ⟨i + s.length, t⟩) :
    unicodeEscape ⟨i, s ++ t⟩ = named i s (code? s) p := by
  subst hp
  have hrun : unicodeEscape ⟨i, s ++ t⟩ =
      named i ((s ++ t).take (i + s.length - i)) (code? ((s ++ t).take (i + s.length - i)))
        ⟨i + s.length, t⟩ :=
    bind_of_ok h
  rwa [Nat.add_sub_cancel_left, List.take_left] at hrun

theorem local_unicodeEscape : Local unicodeEscape := by
  intro i t a q h
  have hrun : (escapeDigits 4 >>= fun _ => _ : Scan CodePoint) ⟨i, t⟩ = .ok a q := h
  obtain ⟨⟨⟩, p, hp, -⟩ := bind_eq_ok.1 hrun
  obtain ⟨s, r, rfl, rfl, hs⟩ := local_escapeDigits 4 hp
  -- The value depends on the digits only, and these are what was read.
  rw [unicodeEscape_eq hp rfl] at h
  cases hcode : code? s with
  | none =>
    rw [hcode] at h
    cases h
  | some n =>
    rw [hcode] at h
    cases h
    refine ⟨s, r, rfl, rfl, fun j u hu => ?_⟩
    rw [unicodeEscape_eq (hs j u hu) rfl, hcode]
    rfl

theorem local_escape : Local escape := by
  refine local_peek?_bind (by rintro p a q ⟨⟩) fun c => localFrom_skip_bind ?_
  split
  · exact local_pure _
  · split
    · exact local_unicodeEscape
    · exact local_fail

theorem takes_skipWhile {p : CodePoint → Bool} (hc : p c) : Takes c (skipWhile p) := by
  intro q rest a q' hq h
  cases h
  simp only [hq, hc, List.takeWhile_cons_of_pos, List.length_cons, List.drop_succ_cons,
    List.length_drop]
  omega

theorem local_digits : Local digits := by
  refine local_peek?_bind (by rintro p a q ⟨⟩) fun c => ?_
  dsimp only
  split
  · exact (local_skipWhile (by decide)).from (takes_skipWhile ‹_›)
  · exact localFrom_fail

theorem local_wholeDigits : Local wholeDigits := by
  refine local_peek?_bind (by rintro p a q ⟨⟩) fun c => ?_
  dsimp only
  split
  · refine localFrom_skip_bind (local_unless (p := CodePoint.isDigit) (by decide)
      (local_pure ()) rfl (fun d hd => if_neg hd) fun d hd q a r => ?_)
    dsimp only
    rw [if_pos hd]
    rintro ⟨⟩
  · exact local_digits.from (shrinks_digits.takes c)

theorem local_fraction : Local fraction := by
  refine (local_accept (by decide)).bind fun found => ?_
  split
  · exact local_digits.bind fun _ => local_pure _
  · exact local_pure _

theorem local_exponent : Local exponent := by
  refine (local_accept (by decide)).bind fun found => ?_
  split
  · exact (local_accept (by decide)).bind fun _ => local_wholeDigits.bind fun _ => local_pure _
  · exact local_pure _

/-- A number without its place: whether it has a fraction or an exponent. -/
def numeral : Scan Token.Kind := do
  let _ ← accept (· = '-')
  wholeDigits
  let hasFraction ← fraction
  let hasExponent ← exponent
  match ← peek? with
  | none => pure ()
  | some c => if startsName c then fail (.unexpectedCharacter c) 0
  return if hasFraction || hasExponent then .float else .integer

theorem number_eq : number = (do
    let start ← get
    let kind ← numeral
    tokenSince start kind (← readSince start)) := by
  simp only [number, numeral, bind_assoc]
  refine bind_congr fun start => bind_congr fun _ => bind_congr fun _ => bind_congr fun _ =>
    bind_congr fun _ => bind_congr fun c => ?_
  cases c with
  | none => rw [pure_bind]
  | some c =>
    dsimp only
    split
    · rw [bind_assoc]
      refine bind_congr fun _ => (pure_bind _ _).symm
    · rw [pure_bind]

theorem local_numeral : Local numeral := by
  refine (local_accept (by decide)).bind fun _ => local_wholeDigits.bind fun _ =>
    local_fraction.bind fun _ => local_exponent.bind fun _ =>
      local_unless (p := startsName) (by decide) (local_pure _) rfl (fun c hc => if_neg hc)
        fun c hc q a r => ?_
  dsimp only
  rw [if_pos hc]
  rintro ⟨⟩

/-! ## Quoted texts -/

/-- What `x` reads is `n` code points at least, and `y` reads the same with fuel for that much,
whatever follows. -/
def Settles (n : Nat) (x : Scan α) (y : Text → Scan α) : Prop :=
  ∀ ⦃i t a q⦄, x ⟨i, t⟩ = .ok a q → ∃ s r, t = s ++ r ∧ q = ⟨i + s.length, r⟩ ∧ n ≤ s.length ∧
    ∀ fuel j u, s.length ≤ fuel.length → Alike r u →
      y fuel ⟨j, s ++ u⟩ = .ok a ⟨j + s.length, u⟩

theorem Local.settles {x : Scan α} (hx : Local x) : Settles 0 x fun _ => x := by
  intro i t a q h
  obtain ⟨s, r, rfl, rfl, hs⟩ := hx h
  exact ⟨s, r, rfl, rfl, Nat.zero_le _, fun _ j u _ hu => hs j u hu⟩

theorem settles_fail {cause : SyntaxError.Cause} {back n : Nat} {y : Text → Scan α} :
    Settles n (fail cause back) y := by
  intro i t a q h
  cases h

namespace Settles

variable {m n : Nat} {x : Scan α} {y : Text → Scan α}

theorem bind {f : α → Scan β} {g : α → Text → Scan β} (hx : Settles m x y)
    (hf : ∀ a, Settles n (f a) (g a)) :
    Settles (m + n) (x >>= f) fun fuel => y fuel >>= fun a => g a fuel := by
  intro i t b q h
  obtain ⟨a, p, hx', hf'⟩ := bind_eq_ok.1 h
  obtain ⟨s, r, rfl, rfl, hm, hs⟩ := hx hx'
  obtain ⟨s', r', rfl, rfl, hn, hs'⟩ := hf a hf'
  refine ⟨s ++ s', r', by simp, by simp [Nat.add_assoc], by grind, fun fuel j u hl hu => ?_⟩
  rw [List.length_append] at hl
  change (y fuel >>= fun a => g a fuel) _ = _
  rw [List.append_assoc, bind_of_ok (hs fuel j (s' ++ u) (by omega) (hu.append s')),
    hs' fuel _ u (by omega) hu]
  simp [Nat.add_assoc]

theorem mono (h : Settles n x y) (hm : m ≤ n) : Settles m x y := by
  intro i t a q hx
  obtain ⟨s, r, rfl, rfl, hn, hs⟩ := h hx
  exact ⟨s, r, rfl, rfl, Nat.le_trans hm hn, hs⟩

/-- With something to read no fuel at all is too little. -/
theorem congr {y' : Text → Scan α} (h : Settles (n + 1) x y)
    (hy : ∀ d fuel, y' (d :: fuel) = y (d :: fuel)) : Settles (n + 1) x y' := by
  intro i t a q hx
  obtain ⟨s, r, rfl, rfl, hn, hs⟩ := h hx
  refine ⟨s, r, rfl, rfl, hn, fun fuel j u hl hu => ?_⟩
  cases fuel with
  | nil => exact absurd (Nat.le_trans hn hl) (Nat.not_succ_le_zero n)
  | cons d fuel => rw [hy, hs (d :: fuel) j u hl hu]

/-- A code point in front of what is read next. -/
theorem cons {c : CodePoint} {x : Scan Text} {y : Text → Scan Text} (h : Settles n x y) :
    Settles n (return c :: (← x)) fun fuel => return c :: (← y fuel) :=
  h.bind fun _ => (local_pure _).settles

/-- Reading that takes the code point ahead and a unit of the fuel. -/
theorem next {f : Option CodePoint → Scan α} {g : Text → Option CodePoint → Scan α}
    {k : CodePoint → Scan α} {k' : CodePoint → Text → Scan α} (hk : ∀ c, Settles n (k c) (k' c))
    (hnone : ∀ p a q, f none p ≠ .ok a q) (hsome : ∀ c, f (some c) = skip 1 >>= fun _ => k c)
    (hsome' : ∀ c d fuel, g (d :: fuel) (some c) = skip 1 >>= fun _ => k' c fuel) :
    Settles (n + 1) (peek? >>= f) fun fuel => peek? >>= g fuel := by
  intro i t a q h
  cases t with
  | nil => exact absurd h (hnone _ _ _)
  | cons c t =>
    change f (some c) ⟨i, c :: t⟩ = _ at h
    rw [hsome] at h
    obtain ⟨s, r, rfl, rfl, hn, hs⟩ := hk c (i := i + 1) (t := t) h
    refine ⟨c :: s, r, rfl, ?_, Nat.succ_le_succ hn, fun fuel j u hl hu => ?_⟩
    · rw [List.length_cons, Nat.add_assoc, Nat.add_comm 1]
    · cases fuel with
      | nil => cases hl
      | cons d fuel =>
        change g (d :: fuel) (some c) ⟨j, c :: (s ++ u)⟩ = _
        rw [hsome', List.length_cons, Nat.add_comm s.length, ← Nat.add_assoc]
        exact hs fuel (j + 1) u (Nat.le_of_succ_le_succ hl) hu

theorem isPrefixOf_append {w s : Text} (h : w.length ≤ s.length) (r u : Text) :
    w.isPrefixOf (s ++ r) = w.isPrefixOf (s ++ u) := by
  have hself : ∀ v : Text, w.isPrefixOf (s ++ v) ↔ w <+: s := fun v =>
    List.isPrefixOf_iff_prefix.trans ⟨fun hw => List.prefix_of_prefix_length_le hw
      (List.prefix_append s v) h, fun hw => hw.trans (List.prefix_append s v)⟩
  exact Bool.eq_iff_iff.2 ((hself r).trans (hself u).symm)

/-- Reading that takes a word if it is ahead, and reads as much as that otherwise. -/
theorem ahead {w : Text} {x' : Scan α} {y' : Text → Scan α} (hx : Settles m x y)
    (hx' : Settles w.length x' y') :
    Settles w.length
      (Scan.ahead w >>= fun b => if b then skip w.length >>= fun _ => x else x')
      fun fuel => Scan.ahead w >>= fun b =>
        if b then skip w.length >>= fun _ => y fuel else y' fuel := by
  intro i t a q h
  change (if w.isPrefixOf t then skip w.length >>= fun _ => x else x') ⟨i, t⟩ = _ at h
  by_cases hw : w.isPrefixOf t
  · obtain ⟨t, rfl⟩ := List.isPrefixOf_iff_prefix.1 hw
    rw [if_pos hw] at h
    change x ⟨i + w.length, (w ++ t).drop w.length⟩ = _ at h
    rw [List.drop_left] at h
    obtain ⟨s, r, rfl, rfl, hm, hs⟩ := hx h
    refine ⟨w ++ s, r, by simp, by simp [Nat.add_assoc], by simp, fun fuel j u hl hu => ?_⟩
    change (if w.isPrefixOf (w ++ s ++ u) then skip w.length >>= fun _ => y fuel else y' fuel) _ = _
    rw [List.append_assoc, if_pos (by simp)]
    change y fuel ⟨j + w.length, (w ++ (s ++ u)).drop w.length⟩ = _
    rw [List.length_append] at hl
    rw [List.drop_left, hs fuel _ u (by omega) hu, List.length_append, Nat.add_assoc]
  · rw [if_neg hw] at h
    obtain ⟨s, r, rfl, rfl, hn, hs⟩ := hx' h
    refine ⟨s, r, rfl, rfl, hn, fun fuel j u hl hu => ?_⟩
    change (if w.isPrefixOf (s ++ u) then skip w.length >>= fun _ => y fuel else y' fuel) _ = _
    rw [isPrefixOf_append hn u r, if_neg hw]
    exact hs fuel j u hl hu

end Settles

/-- What stands in a string from the code point `c` on; `rest` reads what follows it. -/
def stringFrom (rest : Scan Text) (c : CodePoint) : Scan Text := do
  if c = '"' then return []
  else if c = '\\' then
    let d ← escape
    return d :: (← rest)
  else if c = '\n' ∨ c = '\r' then fail .nonTerminatedString 1
  else if isVisible c then return c :: (← rest)
  else fail (.invalidCharacter c) 1

/-- A code point is taken, with which `read` goes on. -/
def takeThen (read : CodePoint → Scan Text) : Option CodePoint → Scan Text
  | none => fail .nonTerminatedString 0
  | some c => do
    skip 1
    read c

theorem stringBody_cons (d : CodePoint) (fuel : Text) :
    stringBody (d :: fuel) = peek? >>= takeThen (stringFrom (stringBody fuel)) := by
  rw [stringBody]
  exact bind_congr fun c => by cases c <;> rfl

theorem settles_stringFrom {x : Scan Text} {y : Text → Scan Text} (h : Settles 1 x y)
    (c : CodePoint) : Settles 0 (stringFrom x c) fun fuel => stringFrom (y fuel) c := by
  unfold stringFrom
  split
  · exact (local_pure _).settles
  split
  · exact (local_escape.settles.bind fun _ => h.cons).mono (Nat.zero_le _)
  split
  · exact settles_fail
  split
  · exact h.cons.mono (Nat.zero_le _)
  · exact settles_fail

/-- A string is read in the same way whatever follows it. -/
theorem settles_stringBody (fuel : Text) : Settles 1 (stringBody fuel) stringBody := by
  induction fuel with
  | nil => exact settles_fail
  | cons d fuel ih =>
    rw [stringBody_cons]
    refine (Settles.next (g := fun fuel => takeThen (stringFrom (stringBody fuel.tail)))
      (settles_stringFrom ih) (by rintro p a q ⟨⟩) (fun c => rfl) fun c d fuel => rfl).congr
        fun d fuel => stringBody_cons d fuel

/-- What stands in a block string from the code point `c` on, where it is not closed. -/
def blockFrom (rest : Scan Text) (c : CodePoint) : Scan Text := do
  if c = '\\' then
    if ← ahead tripleQuote then
      skip 3
      return tripleQuote ++ (← rest)
    else return c :: (← rest)
  else if isVisible c ∨ c = '\n' ∨ c = '\r' then return c :: (← rest)
  else fail (.invalidCharacter c) 1

/-- What stands in a block string; it ends where it is closed. -/
def blockStep (rest : Scan Text) : Scan Text := do
  if ← ahead tripleQuote then
    skip 3
    return []
  else do
    takeThen (blockFrom rest) (← peek?)

theorem blockBody_cons (d : CodePoint) (fuel : Text) :
    blockBody (d :: fuel) = blockStep (blockBody fuel) := by
  rw [blockBody]
  refine bind_congr fun b => ?_
  split
  · rfl
  · exact bind_congr fun c => by cases c <;> rfl

theorem settles_blockFrom {x : Scan Text} {y : Text → Scan Text} (h : Settles 3 x y)
    (c : CodePoint) : Settles 3 (blockFrom x c) fun fuel => blockFrom (y fuel) c := by
  unfold blockFrom
  split
  · exact Settles.ahead (w := tripleQuote) (h.bind fun _ => (local_pure _).settles) h.cons
  split
  · exact h.cons
  · exact settles_fail

/-- A block string is read in the same way whatever follows it. -/
theorem settles_blockBody (fuel : Text) : Settles 3 (blockBody fuel) blockBody := by
  induction fuel with
  | nil => exact settles_fail
  | cons d fuel ih =>
    have hnext : Settles 3 (peek? >>= takeThen (blockFrom (blockBody fuel)))
        fun fuel => peek? >>= takeThen (blockFrom (blockBody fuel.tail)) :=
      (Settles.next (g := fun fuel => takeThen (blockFrom (blockBody fuel.tail)))
        (settles_blockFrom ih) (by rintro p a q ⟨⟩) (fun c => rfl) fun c d fuel => rfl).mono
          (Nat.le_succ 3)
    rw [blockBody_cons]
    exact ((local_pure []).settles.ahead (w := tripleQuote) hnext).congr
      fun d fuel => blockBody_cons d fuel

/-! ## Tokens -/

/-- The text `s` is read as a token of a kind with a value when `u` follows, wherever it stands. -/
structure Spells (s : Text) (kind : Token.Kind) (value u : Text) : Prop where
  ne_nil : s ≠ []
  read : ∀ c ∈ s.head?, ∀ j, token c ⟨j, s ++ u⟩ =
    .ok (.placed kind j (j + s.length) value) ⟨j + s.length, u⟩

/-- What `x` reads from `c` on as a token is read as one wherever it stands. -/
def LocalToken (c : CodePoint) (x : Scan Token) : Prop :=
  ∀ ⦃i t a q⦄, x ⟨i, c :: t⟩ = .ok a q → ∃ s r kind value, t = s ++ r ∧
    q = ⟨i + 1 + s.length, r⟩ ∧ a = .placed kind i (i + 1 + s.length) value ∧
    ∀ j u, Alike r u → x ⟨j, c :: (s ++ u)⟩ =
      .ok (.placed kind j (j + 1 + s.length) value) ⟨j + 1 + s.length, u⟩

variable {c : CodePoint}

/-- A token of a kind that is read by `x`, with the text that was read for a value. -/
theorem LocalFrom.token {x : Scan α} (h : LocalFrom c x) {f : Place → α → Scan Token}
    {k : α → Token.Kind} {v : α → Text → Text}
    (hf : ∀ start a q, f start a q = .ok (.placed (k a) start.position q.position
      (v a (start.rest.take (q.position - start.position)))) q) :
    LocalToken c (get >>= fun start => x >>= f start) := by
  intro i t a q hrun
  have hrun : (x >>= f ⟨i, c :: t⟩) ⟨i, c :: t⟩ = .ok a q := hrun
  obtain ⟨b, p, hx, hp⟩ := bind_eq_ok.1 hrun
  obtain ⟨s, r, rfl, rfl, hs⟩ := h hx
  have htake : ∀ (j : Nat) (u : Text), (c :: (s ++ u)).take (j + 1 + s.length - j) = c :: s := by
    intro j u
    rw [Nat.add_assoc, Nat.add_sub_cancel_left, Nat.add_comm, List.take_succ_cons, List.take_left]
  rw [hf, htake] at hp
  cases hp
  refine ⟨s, r, k b, v b (c :: s), rfl, rfl, rfl, fun j u hu => ?_⟩
  change (x >>= f ⟨j, c :: (s ++ u)⟩) ⟨j, c :: (s ++ u)⟩ = _
  rw [bind_of_ok (hs j u hu), hf, htake]

theorem localToken_fail {cause : SyntaxError.Cause} {back : Nat} :
    LocalToken c (fail cause back) := by
  intro i t a q h
  cases h

theorem localToken_symbol {kind : Token.Kind} : LocalToken c (do
    let start ← get
    skip 1
    tokenSince start kind []) :=
  (localFrom_skip_bind (local_pure ())).token (k := fun _ => kind) (v := fun _ _ => [])
    fun _ _ _ => rfl

theorem localToken_ellipsis : LocalToken c ellipsis :=
  ((local_dots 3).from (takes_dots c 2)).token (k := fun _ => .ellipsis)
    (v := fun _ _ => []) fun _ _ _ => rfl

theorem localToken_name (hc : startsName c) : LocalToken c name :=
  ((local_skipWhile (p := inName) (by decide)).from
    (takes_skipWhile (by simp [inName, hc]))).token (k := fun _ => .name)
      (v := fun _ v => v) fun _ _ _ => rfl

theorem shrinks_numeral : Shrinks 1 numeral := by
  refine (shrinks_accept _).bind (n := 1) fun _ => shrinks_wholeDigits.bind (n := 0) fun _ =>
    shrinks_fraction.then fun _ => shrinks_exponent.then fun _ => shrinks_peek?.then fun c => ?_
  cases c with
  | none => exact shrinks_pure _
  | some c =>
    dsimp only
    split
    · exact shrinks_fail.then fun _ => shrinks_pure _
    · exact shrinks_pure _

theorem localToken_number : LocalToken c number := by
  rw [number_eq]
  refine (local_numeral.from (shrinks_numeral.takes c)).token (k := fun k => k)
    (v := fun _ v => v) fun _ _ _ => rfl

/-- What is read with fuel for all of the text ahead. -/
theorem Settles.local {n : Nat} {y : Text → Scan α} (h : ∀ fuel, Settles n (y fuel) y) :
    Local (get >>= fun p => y p.rest) := by
  intro i t a q hrun
  obtain ⟨s, r, rfl, rfl, -, hs⟩ := h t (show y t ⟨i, t⟩ = .ok a q from hrun)
  exact ⟨s, r, rfl, rfl, fun j u hu => hs (s ++ u) j u (by simp) hu⟩

/-- A string as its text, with the place where it starts. -/
theorem string_eq : string = (do
    let start ← get
    let value ← (do skip 1; stringBody (← get).rest)
    tokenSince start .string value) := by
  simp only [string, bind_assoc]

theorem localToken_string : LocalToken c string := by
  rw [string_eq]
  exact (localFrom_skip_bind (Settles.local settles_stringBody)).token (k := fun _ => .string)
    (v := fun v _ => v) fun _ _ _ => rfl

theorem Settles.shrinks {n : Nat} {x : Scan α} {y : Text → Scan α} (h : Settles n x y) :
    Shrinks n x := by
  rintro ⟨i, t⟩ a q hx
  obtain ⟨s, r, rfl, rfl, hn, -⟩ := h hx
  simp only [List.length_append]
  omega

/-- A string takes up two code points at least. -/
theorem length_lt_of_string {t : Text} {a : Token} {q : Place}
    (h : string ⟨i, c :: t⟩ = .ok a q) : q.rest.length < t.length := by
  have h : (stringBody t >>= fun v => tokenSince ⟨i, c :: t⟩ .string v) ⟨i + 1, t⟩ = .ok a q := h
  obtain ⟨v, p, hp, ⟨⟩⟩ := bind_eq_ok.1 h
  exact (settles_stringBody t).shrinks _ _ _ hp

/-- What opens and closes strings. -/
abbrev quotationMark : CodePoint := '"'

theorem isPrefixOf_tripleQuote {t : Text} : tripleQuote.isPrefixOf t ↔
    ∃ u, t = quotationMark :: quotationMark :: quotationMark :: u := by
  rw [List.isPrefixOf_iff_prefix]
  exact exists_congr fun u => eq_comm

/-- What does not open a block string still does not if something else follows it. -/
theorem not_isPrefixOf_tripleQuote {d : CodePoint} (hu : Alike r u)
    (hr : ¬tripleQuote.isPrefixOf (c :: d :: (s ++ r))) :
    ¬tripleQuote.isPrefixOf (c :: d :: (s ++ u)) := by
  rw [isPrefixOf_tripleQuote] at hr ⊢
  rintro ⟨v, hv⟩
  simp only [List.cons.injEq] at hv
  obtain ⟨rfl, rfl, hv⟩ := hv
  cases s with
  | cons e s =>
    obtain rfl : e = quotationMark := (List.cons.inj hv).1
    exact hr ⟨s ++ r, rfl⟩
  | nil =>
    obtain rfl : u = quotationMark :: v := hv
    rcases hu with hhead | hsep
    · obtain ⟨r, rfl⟩ := List.head?_eq_some_iff.1 hhead.symm
      exact hr ⟨r, rfl⟩
    · exact absurd (hsep _ rfl) (by decide)

theorem localToken_blockString {t : Text} {a : Token} {q : Place}
    (h : blockString ⟨i, tripleQuote ++ t⟩ = .ok a q) : ∃ s r value, t = s ++ r ∧
      q = ⟨i + 3 + s.length, r⟩ ∧ a = .placed .blockString i (i + 3 + s.length) value ∧
      ∀ j u, Alike r u → blockString ⟨j, tripleQuote ++ (s ++ u)⟩ =
        .ok (.placed .blockString j (j + 3 + s.length) value) ⟨j + 3 + s.length, u⟩ := by
  have hopen : ∀ j u, blockString ⟨j, tripleQuote ++ u⟩ = (blockBody u >>= fun raw =>
      tokenSince ⟨j, tripleQuote ++ u⟩ .blockString raw.blockValue) ⟨j + 3, u⟩ := fun _ _ => rfl
  rw [hopen] at h
  obtain ⟨raw, p, hp, ⟨⟩⟩ := bind_eq_ok.1 h
  obtain ⟨s, r, rfl, rfl, -, hs⟩ := settles_blockBody t hp
  refine ⟨s, r, raw.blockValue, rfl, rfl, rfl, fun j u hu => ?_⟩
  rw [hopen, bind_of_ok (hs (s ++ u) (j + 3) u (by simp) hu)]
  rfl

/-- A block string if triple quotation marks are ahead, and another token otherwise. -/
theorem localToken_ahead {x : Scan Token} (hx : LocalToken c x)
    (hquote : c = quotationMark → ∀ i t a q, x ⟨i, c :: t⟩ = .ok a q → q.rest.length < t.length) :
    LocalToken c (ahead tripleQuote >>= fun b => if b then blockString else x) := by
  intro i t a q h
  change (if tripleQuote.isPrefixOf (c :: t) then blockString else x) _ = _ at h
  by_cases hw : tripleQuote.isPrefixOf (c :: t)
  · obtain ⟨t', ht⟩ := isPrefixOf_tripleQuote.1 hw
    obtain ⟨rfl, rfl⟩ := List.cons.inj ht
    rw [if_pos hw] at h
    obtain ⟨s, r, value, rfl, rfl, rfl, hs⟩ := localToken_blockString (t := t') h
    have hlength : ∀ j, j + 3 + s.length =
        j + 1 + (quotationMark :: quotationMark :: s).length := fun j => by
      simp only [List.length_cons]
      omega
    refine ⟨quotationMark :: quotationMark :: s, r, _, value, rfl, by rw [hlength], by rw [hlength],
      fun j u hu => ?_⟩
    change (if tripleQuote.isPrefixOf (tripleQuote ++ (s ++ u)) then blockString else x)
      ⟨j, tripleQuote ++ (s ++ u)⟩ = _
    rw [if_pos (by simp), hs j u hu, hlength]
  · rw [if_neg hw] at h
    obtain ⟨s, r, kind, value, rfl, hq, rfl, hs⟩ := hx h
    refine ⟨s, r, kind, value, rfl, hq, rfl, fun j u hu => ?_⟩
    change (if tripleQuote.isPrefixOf (c :: (s ++ u)) then blockString else x) _ = _
    have hnot : ¬tripleQuote.isPrefixOf (c :: (s ++ u)) := by
      by_cases hc : c = quotationMark
      · have hless := hquote hc _ _ _ _ h
        cases s with
        | nil =>
          rw [hq] at hless
          exact absurd hless (Nat.lt_irrefl _)
        | cons d s => exact not_isPrefixOf_tripleQuote hu hw
      · rw [isPrefixOf_tripleQuote]
        rintro ⟨v, hv⟩
        exact hc (List.cons.inj hv).1
    rw [if_neg hnot]
    exact hs j u hu

/-- What is read as a token is read as one wherever it stands, and whatever else may follow it. -/
theorem localToken_token (c : CodePoint) : LocalToken c (token c) := by
  unfold token
  split
  · split
    · exact localToken_symbol
    split
    · exact localToken_ellipsis
    refine localToken_ahead ?_ ?_
    · split
      · exact localToken_string
      split
      · exact localToken_number
      split
      · exact localToken_name ‹_›
      · exact localToken_fail
    · intro hc i t a q h
      rw [if_pos hc] at h
      exact length_lt_of_string h
  · intro i t a q h
    cases h

/-- A token that is read is spelled by what it takes up. -/
theorem spells_token {t : Text} {a : Token} {q : Place} (h : token c ⟨i, c :: t⟩ = .ok a q) :
    ∃ s r kind value, c :: t = s ++ r ∧ q = ⟨i + s.length, r⟩ ∧
      a = .placed kind i (i + s.length) value ∧ Spells s kind value r := by
  obtain ⟨s, r, kind, value, rfl, rfl, rfl, hs⟩ := localToken_token c h
  have hlength : ∀ j, j + 1 + s.length = j + (c :: s).length := fun j => by
    rw [List.length_cons]
    omega
  refine ⟨c :: s, r, kind, value, rfl, by rw [hlength], by rw [hlength], by simp, ?_⟩
  rintro _ ⟨⟩ j
  rw [← hlength]
  exact hs j r (.refl r)

namespace Spells

variable {kind : Token.Kind} {value : Text}

/-- The same text is read in the same way in front of any other text that may follow it. -/
theorem alike (h : Spells s kind value r) (hu : Alike r u) : Spells s kind value u := by
  obtain ⟨c, s, rfl⟩ := List.exists_cons_of_ne_nil h.ne_nil
  refine ⟨h.ne_nil, ?_⟩
  rintro _ ⟨⟩ j
  obtain ⟨s', r', kind', value', heq, hq, ha, hs⟩ := localToken_token c (h.read c rfl j)
  obtain ⟨hlength, rfl⟩ := Place.mk.inj hq
  obtain rfl : s = s' := List.append_cancel_right heq
  rw [ha, hlength]
  exact hs j u hu

end Spells

end Scan

end GraphSchema
