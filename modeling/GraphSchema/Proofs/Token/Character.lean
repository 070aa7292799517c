import GraphSchema.Proofs.Token.Local

/-!
# Errors about a code point

Some errors are about a code point that was met and cannot stand where it does. That there is such
an error depends on the text up to this code point only: it is the same one whatever follows, and
there is none if the text ends in front of the code point.

## Main definitions

* `SyntaxError.AboutCharacter`: the errors about a code point.
* `Scan.Mute`, `Scan.Spares`: readings without such errors.
* `Scan.Forces`: a code point behind a text is met, with this error.
* `Scan.Blames`: a reading whose errors about code points are forced.

## Main statements

* `Scan.Blames.bind`: readings in sequence.
* `Scan.blames_number`, `Scan.blames_stringBody` and the like: the parts of a text that are read.
-/

namespace GraphSchema

/-- The error is that some code point was met. -/
def SyntaxError.AboutCharacter (e : SyntaxError) : Prop :=
  e.cause.category = .invalidCharacter ∨ e.cause.category = .unexpectedCharacter

namespace Scan

open SyntaxError (Cause)

variable {α β : Type}

/-- The reading has no errors about code points. -/
def Mute (x : Scan α) : Prop := ∀ ⦃p e q⦄, x p = .error e q → ¬e.AboutCharacter

/-- From this place the reading reads all of the text, or meets the end of it. -/
structure Spares (x : Scan α) (p : Place) : Prop where
  ok : ∀ ⦃a q⦄, x p = .ok a q → q.rest = []
  error : ∀ ⦃e q⦄, x p = .error e q → ¬e.AboutCharacter

/-- The reading is not about a code point where there is no text. -/
def Quiet (x : Scan α) : Prop := ∀ j, Spares x ⟨j, []⟩

/-- Behind `s` the code point `d` is met: `shift` code points behind it there is an error of this
cause, whatever follows, and without `d` there is none. What is read has fuel for all of the
text. -/
structure Forces (shift : Nat) (cause : Cause) (y : Text → Scan α) (s : Text) (d : CodePoint) :
    Prop where
  met : ∀ fuel j u, s.length < fuel.length →
    ∃ q, y fuel ⟨j, s ++ d :: u⟩ = .error ⟨cause, (j + s.length + shift : Nat)⟩ q
  spared : s ≠ [] → ∀ fuel j, s.length ≤ fuel.length → Spares (y fuel) ⟨j, s⟩

/-- The reading met a code point of the text `t` at `i`. -/
def Met (shift : Nat) (P : CodePoint → Cause → Prop) (y : Text → Scan α) (i : Nat) (t : Text)
    (e : SyntaxError) : Prop :=
  ∃ s d r, t = s ++ d :: r ∧ P d e.cause ∧ e.position = (i + s.length + shift : Nat) ∧
    Forces shift e.cause y s d

/-- All errors of `x` about code points are forced by them. -/
def Blames (shift : Nat) (P : CodePoint → Cause → Prop) (x : Scan α) (y : Text → Scan α) : Prop :=
  ∀ ⦃i t e q⦄, x ⟨i, t⟩ = .error e q → e.AboutCharacter → Met shift P y i t e

/-- So are those with the code point `c` ahead. -/
def BlamesAt (c : CodePoint) (shift : Nat) (P : CodePoint → Cause → Prop) (x : Scan α)
    (y : Text → Scan α) : Prop :=
  ∀ ⦃i t e q⦄, x ⟨i, c :: t⟩ = .error e q → e.AboutCharacter → Met shift P y i (c :: t) e

/-! ## Readings without such errors -/

theorem mute_pure (a : α) : Mute (pure a) := nofun

theorem mute_get : Mute (get : Scan Place) := nofun

theorem mute_skip (n : Nat) : Mute (skip n) := nofun

theorem mute_peek? : Mute peek? := nofun

theorem mute_skipWhile (p : CodePoint → Bool) : Mute (skipWhile p) := nofun

theorem mute_readSince (earlier : Place) : Mute (readSince earlier) := nofun

theorem mute_throw {e : SyntaxError} (h : e.cause.category ≠ .invalidCharacter)
    (h' : e.cause.category ≠ .unexpectedCharacter) : Mute (throw e : Scan α) := by
  rintro p _ q ⟨⟩ hc
  exact hc.elim h h'

theorem Mute.bind {x : Scan α} {f : α → Scan β} (hx : Mute x) (hf : ∀ a, Mute (f a)) :
    Mute (x >>= f) := by
  intro p e q h
  rcases bind_eq_error.1 h with h | ⟨a, r, -, h⟩
  · exact hx h
  · exact hf a h

theorem mute_fail {cause : Cause} {back : Nat} (h : cause.category ≠ .invalidCharacter)
    (h' : cause.category ≠ .unexpectedCharacter) : Mute (fail cause back : Scan α) :=
  mute_get.bind fun _ => mute_throw h h'

theorem mute_escapeDigits (n : Nat) : Mute (escapeDigits n) := by
  induction n with
  | zero => exact mute_pure _
  | succ n ih =>
    refine mute_peek?.bind fun c => ?_
    cases c with
    | none => exact mute_get.bind fun _ => mute_throw nofun nofun
    | some c =>
      refine (mute_skip 1).bind fun _ => ?_
      split
      · exact ih
      · exact mute_pure _

theorem mute_unicodeEscape : Mute unicodeEscape := by
  refine mute_get.bind fun start => (mute_escapeDigits 4).bind fun _ =>
    (mute_readSince start).bind fun digits => ?_
  split
  · exact mute_pure _
  · exact mute_throw nofun nofun

theorem mute_escape : Mute escape := by
  refine mute_peek?.bind fun c => ?_
  cases c with
  | none => exact mute_get.bind fun _ => mute_throw nofun nofun
  | some c =>
    refine (mute_skip 1).bind fun _ => ?_
    split
    · exact mute_pure _
    · split
      · exact mute_unicodeEscape
      · exact mute_fail nofun nofun

/-! ## Readings in sequence -/

variable {c : CodePoint} {k n : Nat} {P : CodePoint → Cause → Prop}

theorem quiet_pure (a : α) : Quiet (pure a) := fun _ => ⟨by rintro a q ⟨⟩; rfl, nofun⟩

theorem quiet_fail {cause : Cause} {back : Nat} (h : cause.category ≠ .invalidCharacter)
    (h' : cause.category ≠ .unexpectedCharacter) : Quiet (fail cause back : Scan α) :=
  fun _ => ⟨nofun, fun _ _ he => mute_fail h h' he⟩

theorem Spares.of_eq {x y : Scan α} {p q : Place} (h : Spares y q) (heq : x p = y q) :
    Spares x p := ⟨fun _ _ hx => h.ok (heq ▸ hx), fun _ _ hx => h.error (heq ▸ hx)⟩

/-- What is read behind a text that is read to its end. -/
theorem Spares.bind {x : Scan α} {f : α → Scan β} {p : Place} (hx : Spares x p)
    (hf : ∀ a, Quiet (f a)) : Spares (x >>= f) p where
  ok b q h := by
    obtain ⟨a, ⟨j, t⟩, hr, hq⟩ := bind_eq_ok.1 h
    obtain rfl : t = [] := hx.ok hr
    exact (hf a j).ok hq
  error e q h := by
    rcases bind_eq_error.1 h with h | ⟨a, ⟨j, t⟩, hr, hq⟩
    · exact hx.error h
    · obtain rfl : t = [] := hx.ok hr
      exact (hf a j).error hq

theorem Quiet.bind {x : Scan α} {f : α → Scan β} (hx : Quiet x) (hf : ∀ a, Quiet (f a)) :
    Quiet (x >>= f) := fun j => (hx j).bind hf

theorem Mute.blames {x : Scan α} {y : Text → Scan α} (h : Mute x) : Blames k P x y :=
  fun _ _ _ _ he hc => absurd hc (h he)

/-- The text in front of the code point that is met ends there, or goes on in the same way. -/
theorem alike_met (s : Text) (d : CodePoint) (r u : Text) : Alike (s ++ d :: r) (s ++ d :: u) :=
  Alike.append (r := d :: r) (u := d :: u) (.inl rfl) s

theorem alike_cut (s : Text) (d : CodePoint) (r : Text) : Alike (s ++ d :: r) s := by
  have h : Alike (d :: r) [] := .of_separates nofun
  simpa using h.append s

theorem Blames.bind {x : Scan α} {y : Text → Scan α} {f : α → Scan β} {g : α → Text → Scan β}
    (hx : Blames k P x y) (hs : Settles n x y) (hf : ∀ a, Blames k P (f a) (g a))
    (hg : ∀ a fuel, Quiet (g a fuel)) :
    Blames k P (x >>= f) fun fuel => y fuel >>= fun a => g a fuel := by
  intro i t e q h hc
  rcases bind_eq_error.1 h with h | ⟨a, p, ha, h⟩
  · obtain ⟨s, d, r, rfl, hP, hpos, hforces⟩ := hx h hc
    refine ⟨s, d, r, rfl, hP, hpos, fun fuel j u hl => ?_, fun hne fuel j hl =>
      (hforces.spared hne fuel j hl).bind fun a => hg a fuel⟩
    obtain ⟨q', hq'⟩ := hforces.met fuel j u hl
    exact ⟨q', bind_of_error hq'⟩
  · obtain ⟨s, r, rfl, rfl, -, hs⟩ := hs ha
    obtain ⟨s', d, r', rfl, hP, hpos, hforces⟩ := hf a h hc
    refine ⟨s ++ s', d, r', by simp, hP, by rw [hpos]; simp only [List.length_append]; omega,
      fun fuel j u hl => ?_, fun _ fuel j hl => ?_⟩
    · rw [List.length_append] at hl
      obtain ⟨q', hq'⟩ := hforces.met fuel (j + s.length) u (by omega)
      refine ⟨q', ?_⟩
      rw [List.append_assoc, bind_of_ok (hs fuel j _ (by omega) (alike_met s' d r' u)), hq',
        List.length_append, Nat.add_assoc j]
    · rw [List.length_append] at hl
      have hread := hs fuel j s' (by omega) (alike_cut s' d r')
      have hspared : Spares (g a fuel) ⟨j + s.length, s'⟩ := by
        cases s' with
        | nil => exact hg a fuel _
        | cons c s' => exact hforces.spared (List.cons_ne_nil c s') fuel _ (by omega)
      exact hspared.of_eq (bind_of_ok hread)

theorem Blames.at {x : Scan α} {y : Text → Scan α} (h : Blames k P x y) : BlamesAt c k P x y :=
  fun _ _ _ _ he hc => h he hc

/-- Reading that looks at the code point ahead. -/
theorem blames_peek?_bind {f : Option CodePoint → Scan α} {g : Text → Option CodePoint → Scan α}
    (hnone : Mute (f none))
    (hsome : ∀ c, BlamesAt c k P (f (some c)) fun fuel => g fuel (some c)) :
    Blames k P (peek? >>= f) fun fuel => peek? >>= g fuel := by
  intro i t e q h hc
  cases t with
  | nil => exact absurd hc (hnone (show f none ⟨i, []⟩ = .error e q from h))
  | cons c t =>
    obtain ⟨s, d, r, heq, hP, hpos, hforces⟩ := hsome c h hc
    have hhead : ∀ v, (s ++ d :: v).head? = some c := fun v => by
      cases s <;> exact congrArg some (List.cons.inj heq).1.symm
    refine ⟨s, d, r, heq, hP, hpos, fun fuel j u hl => ?_, fun hne fuel j hl => ?_⟩
    · change ∃ q, g fuel (s ++ d :: u).head? _ = _
      rw [hhead]
      exact hforces.met fuel j u hl
    · cases s with
      | nil => exact absurd rfl hne
      | cons b s =>
        obtain rfl : c = b := (List.cons.inj heq).1
        exact (hforces.spared hne fuel j hl).of_eq rfl

theorem quiet_peek?_bind {f : Option CodePoint → Scan α} (h : Quiet (f none)) :
    Quiet (peek? >>= f) := fun j => (h j).of_eq rfl

/-- A word that is taken, and what is met behind it. Taking it can take up fuel. -/
theorem Met.of_word {i : Nat} {t w : Text} {e : SyntaxError} {y z : Text → Scan α}
    {left : Text → Text} (h : Met k P y (i + w.length) t e) (hq : ∀ fuel, Quiet (y fuel))
    (hleft : ∀ fuel, fuel.length ≤ (left fuel).length + w.length)
    (hz : ∀ fuel j u, z fuel ⟨j, w ++ u⟩ = y (left fuel) ⟨j + w.length, u⟩) :
    Met k P z i (w ++ t) e := by
  obtain ⟨s, d, r, rfl, hP, hpos, hforces⟩ := h
  refine ⟨w ++ s, d, r, by simp, hP, by rw [hpos, List.length_append, Nat.add_assoc i],
    fun fuel j u hl => ?_, fun _ fuel j hl => ?_⟩
  · rw [List.length_append] at hl
    obtain ⟨q, hq⟩ := hforces.met (left fuel) (j + w.length) u (by have := hleft fuel; omega)
    refine ⟨q, ?_⟩
    rw [List.append_assoc, hz, hq, List.length_append, Nat.add_assoc j]
  · rw [List.length_append] at hl
    have hspared : Spares (y (left fuel)) ⟨j + w.length, s⟩ := by
      cases s with
      | nil => exact hq _ _
      | cons b s =>
        exact hforces.spared (List.cons_ne_nil b s) _ _ (by have := hleft fuel; omega)
    exact hspared.of_eq (hz fuel j s)

/-- A code point that is taken, with which the reading goes on; it takes up fuel. -/
theorem blamesAt_skip_bind {x : Scan α} {y : Text → Scan α} (h : Blames k P x y)
    (hq : ∀ fuel, Quiet (y fuel)) :
    BlamesAt c k P (skip 1 >>= fun _ => x) fun fuel => skip 1 >>= fun _ => y fuel.tail :=
  fun i t e q he hc => (h (i := i + 1) (t := t) he hc).of_word (w := [c]) hq
    (fun fuel => by simp only [List.length_tail, List.length_singleton]; omega) fun _ _ _ => rfl

/-- A code point that is met right away. -/
theorem blamesAt_of_eq {x : Scan α} {cause : Cause} (hP : P c cause)
    (hx : ∀ j u, ∃ q, x ⟨j, c :: u⟩ = .error ⟨cause, (j + k : Nat)⟩ q) :
    BlamesAt c k P x fun _ => x := by
  intro i t e q h _
  obtain ⟨q', hq'⟩ := hx i t
  rw [h] at hq'
  cases hq'
  exact ⟨[], c, t, rfl, hP, rfl, fun _ j u _ => hx j u, fun hne => absurd rfl hne⟩

/-- The code point that was taken cannot stand there. -/
theorem blamesAt_skip_fail {cause : Cause} {back : Nat} (hk : k + back = 1) (hP : P c cause) :
    BlamesAt c k P (skip 1 >>= fun _ => (fail cause back : Scan α))
      fun _ => skip 1 >>= fun _ => fail cause back :=
  blamesAt_of_eq hP fun j u => ⟨⟨j + 1, u⟩, by
    rw [show ((j + k : Nat) : Int) = ((j + 1 : Nat) : Int) - back by omega]
    rfl⟩

/-! ## Dots and numbers -/

theorem quiet_dots (n : Nat) : Quiet (dots n) := by
  cases n with
  | zero => exact quiet_pure _
  | succ n => exact quiet_peek?_bind (quiet_fail nofun nofun)

theorem blames_dots (n : Nat) :
    Blames 1 (fun d cause => cause = .expectedDot d) (dots n) fun _ => dots n := by
  induction n with
  | zero => exact (mute_pure _).blames
  | succ n ih =>
    refine blames_peek?_bind (g := fun _ => _) (mute_fail nofun nofun) fun c => ?_
    by_cases hc : c = '.'
    · simp only [hc, if_true]
      exact blamesAt_skip_bind ih fun _ => quiet_dots n
    · simp only [hc, if_false]
      exact blamesAt_skip_fail rfl rfl

/-- The code point is no part of a number. -/
def Unexpected (d : CodePoint) (cause : Cause) : Prop := cause = .unexpectedCharacter d

/-- A part of a number: it depends on what follows no further than its errors do. -/
structure Careful (x : Scan α) : Prop where
  isLocal : Local x
  blames : Blames 0 Unexpected x fun _ => x
  quiet : Quiet x

theorem Careful.bind {x : Scan α} {f : α → Scan β} (hx : Careful x) (hf : ∀ a, Careful (f a)) :
    Careful (x >>= f) where
  isLocal := hx.isLocal.bind fun a => (hf a).isLocal
  blames := hx.blames.bind hx.isLocal.settles (fun a => (hf a).blames) fun a _ => (hf a).quiet
  quiet := hx.quiet.bind fun a => (hf a).quiet

theorem Careful.skip {x : Scan α} (h : Careful x) :
    BlamesAt c 0 Unexpected (skip 1 >>= fun _ => x) fun _ => skip 1 >>= fun _ => x :=
  blamesAt_skip_bind h.blames fun _ => h.quiet

theorem careful_pure (a : α) : Careful (pure a) :=
  ⟨local_pure a, (mute_pure a).blames, quiet_pure a⟩

theorem careful_accept {p : CodePoint → Bool} (hp : Stops p) : Careful (accept p) where
  isLocal := local_accept hp
  blames := by
    refine Mute.blames (mute_peek?.bind fun c => ?_)
    cases c with
    | none => exact mute_pure _
    | some c =>
      dsimp only
      split
      · exact (mute_skip 1).bind fun _ => mute_pure _
      · exact mute_pure _
  quiet := quiet_peek?_bind (quiet_pure _)

/-- Reading that goes on unless a test holds of the code point ahead. -/
theorem careful_unless {p : CodePoint → Bool} (hp : Stops p) {f : Option CodePoint → Scan α} {a : α}
    (hnone : f none = pure a) (hneg : ∀ c, ¬p c → f (some c) = pure a)
    (hpos : ∀ c, p c → ∀ q, f (some c) q = .error ⟨.unexpectedCharacter c, q.position⟩ q) :
    Careful (peek? >>= f) where
  isLocal := local_unless hp (local_pure a) hnone hneg fun c hc q b r => by
    rw [hpos c hc]
    exact nofun
  blames := by
    refine blames_peek?_bind (g := fun _ => f) (hnone ▸ mute_pure a) fun c => ?_
    by_cases hc : p c
    · exact blamesAt_of_eq rfl fun j u => ⟨_, hpos c hc ⟨j, c :: u⟩⟩
    · simp only [hneg c hc]
      exact (mute_pure a).blames.at
  quiet := quiet_peek?_bind (hnone ▸ quiet_pure a)

theorem unexpected_eq (c : CodePoint) (q : Place) :
    (fail (.unexpectedCharacter c) 0 : Scan α) q =
      .error ⟨.unexpectedCharacter c, q.position⟩ q := by
  rw [← Int.sub_zero (q.position : Int)]
  rfl

theorem careful_digits : Careful digits where
  isLocal := local_digits
  blames := by
    refine blames_peek?_bind (g := fun _ => _) (mute_fail nofun nofun) fun c => ?_
    dsimp only
    split
    · exact (mute_skipWhile _).blames.at
    · exact blamesAt_of_eq rfl fun j u => ⟨_, unexpected_eq c _⟩
  quiet := quiet_peek?_bind (quiet_fail nofun nofun)

theorem careful_wholeDigits : Careful wholeDigits where
  isLocal := local_wholeDigits
  blames := by
    refine blames_peek?_bind (g := fun _ => _) (mute_fail nofun nofun) fun c => ?_
    dsimp only
    split
    · refine Careful.skip (careful_unless (p := CodePoint.isDigit) (by decide) rfl
        (fun d hd => if_neg hd) fun d hd q => ?_)
      dsimp only
      rw [if_pos hd, unexpected_eq]
    · exact careful_digits.blames.at
  quiet := quiet_peek?_bind (quiet_fail nofun nofun)

theorem careful_fraction : Careful fraction := by
  refine (careful_accept (by decide)).bind fun found => ?_
  split
  · exact careful_digits.bind fun _ => careful_pure _
  · exact careful_pure _

theorem careful_exponent : Careful exponent := by
  refine (careful_accept (by decide)).bind fun found => ?_
  split
  · exact (careful_accept (by decide)).bind fun _ => careful_wholeDigits.bind fun _ =>
      careful_pure _
  · exact careful_pure _

theorem careful_numeral : Careful numeral := by
  refine (careful_accept (by decide)).bind fun _ => careful_wholeDigits.bind fun _ =>
    careful_fraction.bind fun _ => careful_exponent.bind fun _ =>
      careful_unless (p := startsName) (by decide) rfl (fun c hc => if_neg hc) fun c hc q => ?_
  dsimp only
  rw [if_pos hc]
  exact bind_of_error (unexpected_eq c q)

/-! ## Quoted texts -/

/-- The code point is a control that no text has. -/
def Invalid (d : CodePoint) (cause : Cause) : Prop := cause = .invalidCharacter d ∧ ¬isVisible d

theorem ahead_bind_append {w t : Text} {x x' : Scan α} {i : Nat} :
    (Scan.ahead w >>= fun b => if b then skip w.length >>= fun _ => x else x') ⟨i, w ++ t⟩ =
      x ⟨i + w.length, t⟩ := by
  change (if w.isPrefixOf (w ++ t) then skip w.length >>= fun _ => x else x') ⟨i, w ++ t⟩ = _
  rw [if_pos (List.isPrefixOf_iff_prefix.2 (List.prefix_append w t))]
  change x ⟨i + w.length, (w ++ t).drop w.length⟩ = _
  rw [List.drop_left]

theorem ahead_bind_of_not {w t : Text} {x x' : Scan α} {i : Nat} (h : ¬w <+: t) :
    (Scan.ahead w >>= fun b => if b then x else x') ⟨i, t⟩ = x' ⟨i, t⟩ := by
  change (if w.isPrefixOf t then x else x') ⟨i, t⟩ = _
  rw [if_neg fun hw => h (List.isPrefixOf_iff_prefix.1 hw)]

/-- A word without a code point that is ahead is ahead in front of it. -/
theorem prefix_of_not_mem {w s u : Text} {d : CodePoint} (hd : d ∉ w) (h : w <+: s ++ d :: u) :
    w <+: s := by
  refine List.prefix_of_prefix_length_le h (List.prefix_append s _)
    (Nat.le_of_not_lt fun hl => hd ?_)
  have hget := h.getElem hl
  rw [List.getElem_append_right (Nat.le_refl _)] at hget
  simp only [Nat.sub_self, List.getElem_cons_zero] at hget
  exact hget ▸ List.getElem_mem hl

/-- What is met where a word is not ahead. -/
theorem Met.of_not_ahead {i : Nat} {t w : Text} {e : SyntaxError} {y y' : Text → Scan α}
    (h : Met k P y' i t e) (hw : ∀ d cause, P d cause → d ∉ w) (ht : ¬w <+: t) :
    Met k P (fun fuel => Scan.ahead w >>= fun b => if b then y fuel else y' fuel) i t e := by
  obtain ⟨s, d, r, rfl, hP, hpos, hforces⟩ := h
  have hcut : ¬w <+: s := fun hs => ht (hs.trans (List.prefix_append s _))
  have hmet : ∀ u, ¬w <+: s ++ d :: u := fun u hu => hcut (prefix_of_not_mem (hw d _ hP) hu)
  refine ⟨s, d, r, rfl, hP, hpos, fun fuel j u hl => ?_, fun hne fuel j hl =>
    (hforces.spared hne fuel j hl).of_eq (ahead_bind_of_not hcut)⟩
  obtain ⟨q, hq⟩ := hforces.met fuel j u hl
  exact ⟨q, (ahead_bind_of_not (hmet u)).trans hq⟩

namespace Blames

variable {x x' : Scan α} {y y' : Text → Scan α}

/-- With something to read no fuel at all is too little. -/
theorem congr (h : Blames k P x y) (hy : ∀ d fuel, y' (d :: fuel) = y (d :: fuel)) :
    Blames k P x y' := by
  intro i t e q he hc
  obtain ⟨s, d, r, rfl, hP, hpos, hforces⟩ := h he hc
  refine ⟨s, d, r, rfl, hP, hpos, fun fuel j u hl => ?_, fun hne fuel j hl => ?_⟩
  · obtain ⟨b, fuel, rfl⟩ := List.exists_cons_of_length_pos (Nat.zero_lt_of_lt hl)
    rw [hy]
    exact hforces.met _ j u hl
  · obtain ⟨b, fuel, rfl⟩ := List.exists_cons_of_length_pos
      (Nat.lt_of_lt_of_le (List.length_pos_iff.2 hne) hl)
    rw [hy]
    exact hforces.spared hne _ j hl

/-- A text in front of what is read next. -/
theorem cons {x : Scan Text} {y : Text → Scan Text} (h : Blames k P x y) (hs : Settles n x y)
    (w : Text) : Blames k P (return w ++ (← x)) fun fuel => return w ++ (← y fuel) :=
  h.bind hs (fun _ => (mute_pure _).blames) fun _ _ => quiet_pure _

/-- What is read with fuel for all of the text ahead. -/
theorem ofFuel {y : Text → Scan α} (h : ∀ fuel, Blames k P (y fuel) y) :
    Blames k P (get >>= fun p => y p.rest) fun _ => get >>= fun p => y p.rest := by
  intro i t e q he hc
  obtain ⟨s, d, r, rfl, hP, hpos, hforces⟩ := h t (show y t ⟨i, t⟩ = .error e q from he) hc
  refine ⟨s, d, r, rfl, hP, hpos, fun _ j u _ => hforces.met (s ++ d :: u) j u (by simp),
    fun hne _ j _ => ?_⟩
  exact (hforces.spared hne s j (Nat.le_refl _)).of_eq rfl

/-- A word that is ahead is taken; otherwise the reading goes on with something else. -/
theorem ahead {w : Text} (hw : ∀ d cause, P d cause → d ∉ w) (hx : Blames k P x y)
    (hq : ∀ fuel, Quiet (y fuel)) (hx' : Blames k P x' y') :
    Blames k P (Scan.ahead w >>= fun b => if b then skip w.length >>= fun _ => x else x')
      fun fuel => Scan.ahead w >>= fun b =>
        if b then skip w.length >>= fun _ => y fuel else y' fuel := by
  intro i t e q he hc
  by_cases hwt : w <+: t
  · obtain ⟨t, rfl⟩ := hwt
    rw [ahead_bind_append] at he
    exact (hx he hc).of_word hq (fun fuel => Nat.le_add_right _ _) fun _ _ _ => ahead_bind_append
  · rw [ahead_bind_of_not hwt] at he
    exact (hx' he hc).of_not_ahead hw hwt

end Blames

theorem Quiet.cons {x : Scan Text} (h : Quiet x) (w : Text) : Quiet (return w ++ (← x)) :=
  h.bind fun _ => quiet_pure _

theorem quiet_escape : Quiet escape := by
  have hend : Mute (do throw { cause := .nonTerminatedString, position := (← get).position + 1 } :
      Scan CodePoint) := mute_get.bind fun _ => mute_throw nofun nofun
  exact quiet_peek?_bind fun _ => ⟨nofun, fun _ _ he => hend he⟩

theorem quiet_stringBody (fuel : Text) : Quiet (stringBody fuel) := by
  cases fuel with
  | nil => exact quiet_fail nofun nofun
  | cons d fuel =>
    rw [stringBody_cons]
    exact quiet_peek?_bind (quiet_fail nofun nofun)

theorem blamesAt_stringFrom {x : Scan Text} {y : Text → Scan Text} (h : Blames 0 Invalid x y)
    (hs : Settles n x y) (hq : ∀ fuel, Quiet (y fuel)) (c : CodePoint) :
    BlamesAt c 0 Invalid (skip 1 >>= fun _ => stringFrom x c)
      fun fuel => skip 1 >>= fun _ => stringFrom (y fuel.tail) c := by
  unfold stringFrom
  split
  · exact ((mute_skip 1).bind fun _ => mute_pure _).blames.at
  split
  · refine blamesAt_skip_bind ?_ fun fuel => quiet_escape.bind fun d => (hq fuel).cons [d]
    exact mute_escape.blames.bind local_escape.settles (fun d => h.cons hs [d]) fun d fuel =>
      (hq fuel).cons [d]
  split
  · exact Blames.at (Mute.blames ((mute_skip 1).bind fun _ => mute_fail nofun nofun))
  split
  · exact blamesAt_skip_bind (h.cons hs [c]) fun fuel => (hq fuel).cons [c]
  · exact blamesAt_skip_fail rfl ⟨rfl, by assumption⟩

theorem blames_stringBody (fuel : Text) : Blames 0 Invalid (stringBody fuel) stringBody := by
  induction fuel with
  | nil => exact Mute.blames (mute_fail nofun nofun)
  | cons d fuel ih =>
    rw [stringBody_cons]
    have hnext : Blames 0 Invalid (peek? >>= takeThen (stringFrom (stringBody fuel)))
        fun fuel => peek? >>= takeThen (stringFrom (stringBody fuel.tail)) :=
      blames_peek?_bind (g := fun fuel => takeThen (stringFrom (stringBody fuel.tail)))
        (mute_fail nofun nofun) (blamesAt_stringFrom ih (settles_stringBody fuel) quiet_stringBody)
    exact hnext.congr fun d fuel => stringBody_cons d fuel

theorem quiet_ahead_bind {w : Text} {x x' : Scan α} (hw : w ≠ []) (h : Quiet x') :
    Quiet (Scan.ahead w >>= fun b => if b then x else x') :=
  fun j => (h j).of_eq (ahead_bind_of_not (by simpa using hw))

theorem quiet_blockBody (fuel : Text) : Quiet (blockBody fuel) := by
  cases fuel with
  | nil => exact quiet_fail nofun nofun
  | cons d fuel =>
    rw [blockBody_cons]
    exact quiet_ahead_bind nofun (quiet_peek?_bind (quiet_fail nofun nofun))

theorem not_mem_tripleQuote {d : CodePoint} {cause : Cause} (h : Invalid d cause) :
    d ∉ tripleQuote := by
  intro hd
  have hvisible : ∀ c ∈ tripleQuote, isVisible c := by decide
  exact h.2 (hvisible d hd)

theorem blamesAt_blockFrom {x : Scan Text} {y : Text → Scan Text} (h : Blames 0 Invalid x y)
    (hs : Settles n x y) (hq : ∀ fuel, Quiet (y fuel)) (c : CodePoint) :
    BlamesAt c 0 Invalid (skip 1 >>= fun _ => blockFrom x c)
      fun fuel => skip 1 >>= fun _ => blockFrom (y fuel.tail) c := by
  unfold blockFrom
  split
  · exact blamesAt_skip_bind (Blames.ahead (w := tripleQuote) (fun _ _ => not_mem_tripleQuote)
      (h.cons hs tripleQuote) (fun fuel => (hq fuel).cons tripleQuote) (h.cons hs [c])) fun fuel =>
        quiet_ahead_bind nofun ((hq fuel).cons [c])
  split
  · exact blamesAt_skip_bind (h.cons hs [c]) fun fuel => (hq fuel).cons [c]
  · rename_i hc
    exact blamesAt_skip_fail rfl ⟨rfl, fun hv => hc (.inl hv)⟩

theorem blames_blockBody (fuel : Text) : Blames 0 Invalid (blockBody fuel) blockBody := by
  induction fuel with
  | nil => exact Mute.blames (mute_fail nofun nofun)
  | cons d fuel ih =>
    have hnext : Blames 0 Invalid (peek? >>= takeThen (blockFrom (blockBody fuel)))
        fun fuel => peek? >>= takeThen (blockFrom (blockBody fuel.tail)) :=
      blames_peek?_bind (g := fun fuel => takeThen (blockFrom (blockBody fuel.tail)))
        (mute_fail nofun nofun) (blamesAt_blockFrom ih (settles_blockBody fuel) quiet_blockBody)
    have hstep : Blames 0 Invalid (blockStep (blockBody fuel))
        fun fuel => blockStep (blockBody fuel.tail) :=
      Blames.ahead (w := tripleQuote) (fun _ _ => not_mem_tripleQuote) (mute_pure []).blames
        (fun _ => quiet_pure []) hnext
    rw [blockBody_cons]
    exact hstep.congr fun d fuel => blockBody_cons d fuel

/-! ## Tokens -/

namespace BlamesAt

variable {x x' : Scan α}

/-- What is read with `c` ahead decides. -/
theorem congr (h : BlamesAt c k P x fun _ => x) (heq : ∀ i t, x' ⟨i, c :: t⟩ = x ⟨i, c :: t⟩) :
    BlamesAt c k P x' fun _ => x' := by
  intro i t e q he hc
  rw [heq] at he
  obtain ⟨s, d, r, hs, hP, hpos, hforces⟩ := h he hc
  refine ⟨s, d, r, hs, hP, hpos, ?_⟩
  cases s with
  | nil =>
    obtain rfl : c = d := (List.cons.inj hs).1
    refine ⟨fun fuel j u hl => ?_, fun hne => absurd rfl hne⟩
    rw [List.nil_append, heq]
    exact hforces.met fuel j u hl
  | cons b s =>
    obtain rfl : c = b := (List.cons.inj hs).1
    refine ⟨fun fuel j u hl => ?_, fun hne fuel j hl =>
      (hforces.spared hne fuel j hl).of_eq (heq j s)⟩
    rw [List.cons_append, heq]
    exact hforces.met fuel j u hl

/-- A token of what is read by `x`. -/
theorem token (h : BlamesAt c k P x fun _ => x) {f : Place → α → Scan Token}
    (hf : ∀ start a q, ∃ t, f start a q = .ok t q) :
    BlamesAt c k P (get >>= fun start => x >>= f start)
      fun _ => get >>= fun start => x >>= f start := by
  have hquiet : ∀ start a, Quiet (f start a) := fun start a j => by
    obtain ⟨t, ht⟩ := hf start a ⟨j, []⟩
    constructor
    · intro t' q h
      rw [ht] at h
      cases h
      rfl
    · intro e q h
      rw [ht] at h
      cases h
  intro i t e q he hc
  have he : (x >>= f ⟨i, c :: t⟩) ⟨i, c :: t⟩ = .error e q := he
  rcases bind_eq_error.1 he with he | ⟨a, p, -, he⟩
  · obtain ⟨s, d, r, hs, hP, hpos, hforces⟩ := h he hc
    refine ⟨s, d, r, hs, hP, hpos, fun fuel j u hl => ?_, fun hne fuel j hl => ?_⟩
    · obtain ⟨q', hq'⟩ := hforces.met fuel j u hl
      exact ⟨q', show (x >>= f ⟨j, s ++ d :: u⟩) _ = _ from bind_of_error hq'⟩
    · exact ((hforces.spared hne fuel j hl).bind (hquiet ⟨j, s⟩)).of_eq rfl
  · obtain ⟨t', ht'⟩ := hf ⟨i, c :: t⟩ a p
    rw [ht'] at he
    cases he

end BlamesAt

theorem blamesAt_ellipsis :
    BlamesAt c 1 (fun d cause => cause = .expectedDot d) ellipsis fun _ => ellipsis :=
  (blames_dots 3).at.token fun _ _ _ => ⟨_, rfl⟩

theorem blamesAt_number : BlamesAt c 0 Unexpected number fun _ => number := by
  rw [number_eq]
  exact careful_numeral.blames.at.token fun _ _ _ => ⟨_, rfl⟩

theorem blamesAt_string : BlamesAt c 0 Invalid string fun _ => string := by
  rw [string_eq]
  exact (blamesAt_skip_bind (Blames.ofFuel blames_stringBody) fun _ j =>
    (quiet_stringBody [] j).of_eq rfl).token fun _ _ _ => ⟨_, rfl⟩

/-- A block string where one is opened, and a string on one line otherwise. -/
theorem blamesAt_quotationMark :
    BlamesAt quotationMark 0 Invalid
      (ahead tripleQuote >>= fun b => if b then blockString else string)
      fun _ => ahead tripleQuote >>= fun b => if b then blockString else string := by
  have hopen : ∀ j u, (ahead tripleQuote >>= fun b => if b then blockString else string)
      ⟨j, tripleQuote ++ u⟩ = (blockBody u >>= fun raw =>
        tokenSince ⟨j, tripleQuote ++ u⟩ .blockString raw.blockValue) ⟨j + 3, u⟩ := by
    intro j u
    change (if tripleQuote.isPrefixOf (tripleQuote ++ u) then blockString else string) _ = _
    rw [if_pos (List.isPrefixOf_iff_prefix.2 (List.prefix_append _ u))]
    rfl
  intro i t e q he hc
  by_cases ht : tripleQuote <+: quotationMark :: t
  · obtain ⟨t', ht'⟩ := ht
    rw [← ht'] at he ⊢
    rw [hopen] at he
    rcases bind_eq_error.1 he with he | ⟨raw, p, -, he⟩
    · obtain ⟨s, d, r, rfl, hP, hpos, hforces⟩ := blames_blockBody t' he hc
      refine ⟨tripleQuote ++ s, d, r, by simp, hP, ?_, fun _ j u _ => ?_, fun _ _ j _ => ?_⟩
      · rw [hpos, List.length_append]
        change ((i + 3 + s.length + 0 : Nat) : Int) = (i + (3 + s.length) + 0 : Nat)
        omega
      · obtain ⟨q', hq'⟩ := hforces.met (s ++ d :: u) (j + 3) u (by simp)
        refine ⟨q', ?_⟩
        rw [List.append_assoc, hopen, bind_of_error hq', List.length_append, ← Nat.add_assoc j]
        rfl
      · have hspared : Spares (blockBody s) ⟨j + 3, s⟩ := by
          cases s with
          | nil => exact quiet_blockBody [] _
          | cons b s => exact hforces.spared (List.cons_ne_nil b s) _ _ (Nat.le_refl _)
        have hquiet : ∀ start raw, Quiet (tokenSince start .blockString raw) :=
          fun start raw j => ⟨by rintro a q ⟨⟩; rfl, nofun⟩
        exact (hspared.bind fun raw => hquiet _ _).of_eq (hopen j s)
    · cases he
  · rw [ahead_bind_of_not ht] at he
    exact (blamesAt_string he hc).of_not_ahead (fun _ _ => not_mem_tripleQuote) ht

/-- How far behind the code point `d` its error is reported, which was met behind `s` in a token:
none where it stands in a string or a number, and one code point where it stands in place of a
dot or where no token starts with it. -/
inductive Shift (s : Text) (d : CodePoint) : Cause → Nat → Prop
  | dot : Shift s d (.expectedDot d) 1
  | first (hs : s = []) : Shift s d (.invalidCharacter d) 1
  | inner (hs : s ≠ []) : Shift s d (.invalidCharacter d) 0
  | unexpected : Shift s d (.unexpectedCharacter d) 0

/-- The errors of `x` about code points, with `c` ahead, are forced by them. -/
def BlamesToken (c : CodePoint) (x : Scan Token) : Prop :=
  ∀ ⦃i t e q⦄, x ⟨i, c :: t⟩ = .error e q → e.AboutCharacter → ∃ s d r k, c :: t = s ++ d :: r ∧
    Shift s d e.cause k ∧ e.position = (i + s.length + k : Nat) ∧
    Forces k e.cause (fun _ => x) s d

theorem BlamesAt.blamesToken {x : Scan Token} (h : BlamesAt c k P x fun _ => x)
    (hP : ∀ s d r t cause, c :: t = s ++ d :: r → P d cause → Shift s d cause k) :
    BlamesToken c x := by
  intro i t e q he hc
  obtain ⟨s, d, r, hs, hd, hpos, hforces⟩ := h he hc
  exact ⟨s, d, r, k, hs, hP s d r t _ hs hd, hpos, hforces⟩

theorem blamesToken_of_unexpected {x : Scan Token} (h : BlamesAt c 0 Unexpected x fun _ => x) :
    BlamesToken c x :=
  h.blamesToken fun s d r t cause _ hd => by
    rw [show cause = _ from hd]
    exact .unexpected

/-- What is read as a token is about a code point only if this is met. -/
theorem blamesToken_token (c : CodePoint) : BlamesToken c (token c) := by
  unfold token
  split
  · rename_i hvisible
    split
    · have hsymbol : ∀ kind, Mute (do
          let start ← get
          skip 1
          tokenSince start kind []) := fun _ => nofun
      exact fun i t e q he hc => absurd hc (hsymbol _ he)
    split
    · refine blamesAt_ellipsis.blamesToken fun s d r t cause _ hd => ?_
      rw [hd]
      exact .dot
    by_cases hquote : c = quotationMark
    · subst hquote
      rw [if_pos rfl]
      refine blamesAt_quotationMark.blamesToken fun s d r t cause hs hd => ?_
      rw [hd.1]
      refine .inner fun hnil => hd.2 ?_
      subst hnil
      exact (List.cons.inj hs).1 ▸ hvisible
    · rw [if_neg hquote]
      refine blamesToken_of_unexpected (BlamesAt.congr (x := (if c = '-' ∨ c.isDigit then number
        else if startsName c then name else fail (.unexpectedCharacter c) 0)) ?_ fun i t => ?_)
      · split
        · exact blamesAt_number
        split
        · exact (Mute.blames (show Mute name from nofun)).at
        · exact blamesAt_of_eq rfl fun j u => ⟨_, unexpected_eq c _⟩
      · refine ahead_bind_of_not ?_
        rintro ⟨u, hu⟩
        exact hquote (List.cons.inj hu).1.symm
  · have hfirst : ∀ j u, (skip 1 >>= fun _ => (fail (.invalidCharacter c) 0 : Scan Token))
        ⟨j, c :: u⟩ = .error ⟨.invalidCharacter c, (j + 1 : Nat)⟩ ⟨j + 1, u⟩ := fun j u => by
      rw [← Int.sub_zero ((j + 1 : Nat) : Int)]
      rfl
    intro i t e q he hc
    rw [hfirst] at he
    cases he
    exact ⟨[], c, t, 1, rfl, .first rfl, rfl, fun _ j u _ => ⟨_, hfirst j u⟩, fun h => absurd rfl h⟩

end Scan

end GraphSchema
