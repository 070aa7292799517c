import GraphSchema.Token.Lexer

/-!
# Progress of the lexer

Reading never gives text back, and every token between the two ends of a document takes up at least
one code point of it.

## Main definitions

* `Scan.Shrinks`: reading that leaves less text than there was.
* `Scan.Takes`: reading that takes up the code point ahead.

## Main statements

* `Scan.splitIgnored_append`: nothing of what is ignored is lost.
* `Scan.takes_token`: a token takes up text.
-/

namespace GraphSchema

variable {α β : Type}

/-- Two steps succeed if the first one does, and the second one from where the first one ends. -/
theorem bind_eq_ok {ε σ : Type} {x : EStateM ε σ α} {f : α → EStateM ε σ β} {s t : σ} {b : β} :
    (x >>= f) s = .ok b t ↔ ∃ a r, x s = .ok a r ∧ f a r = .ok b t := by
  change EStateM.bind x f s = _ ↔ _
  unfold EStateM.bind
  constructor
  · intro h
    split at h
    · exact ⟨_, _, ‹_›, h⟩
    · cases h
  · intro hrun
    obtain ⟨a, r, hx, hf⟩ := hrun
    rw [hx]
    exact hf

/-- The second step starts where the first one ends. -/
theorem bind_of_ok {ε σ : Type} {x : EStateM ε σ α} {f : α → EStateM ε σ β} {s t : σ} {a : α}
    (h : x s = .ok a t) : (x >>= f) s = f a t := by
  change EStateM.bind x f s = _
  simp only [EStateM.bind, h]

/-- There is no second step if the first one fails. -/
theorem bind_of_error {ε σ : Type} {x : EStateM ε σ α} {f : α → EStateM ε σ β} {s t : σ} {e : ε}
    (h : x s = .error e t) : (x >>= f) s = .error e t := by
  change EStateM.bind x f s = _
  simp only [EStateM.bind, h]

/-- Two steps fail if the first one does, or the second one from where the first one ends. -/
theorem bind_eq_error {ε σ : Type} {x : EStateM ε σ α} {f : α → EStateM ε σ β} {s t : σ} {e : ε} :
    (x >>= f) s = .error e t ↔
      x s = .error e t ∨ ∃ a r, x s = .ok a r ∧ f a r = .error e t := by
  cases hx : x s with
  | ok a r =>
    rw [bind_of_ok hx]
    constructor
    · intro h
      exact .inr ⟨a, r, rfl, h⟩
    · intro h
      rcases h with h | ⟨b, q, hx, hf⟩
      · cases h
      · cases hx
        exact hf
  | error e' r => simp [bind_of_error hx]

namespace Scan

/-- Where `x` succeeds, the text ahead has become shorter by `n` code points at least. -/
def Shrinks (n : Nat) (x : Scan α) : Prop :=
  ∀ p a q, x p = .ok a q → q.rest.length + n ≤ p.rest.length

theorem Shrinks.mono {m n : Nat} {x : Scan α} (h : Shrinks n x) (hm : m ≤ n) : Shrinks m x := by
  intro p a q hx
  have := h p a q hx
  omega

theorem Shrinks.bind {m n : Nat} {x : Scan α} {f : α → Scan β} (hx : Shrinks m x)
    (hf : ∀ a, Shrinks n (f a)) : Shrinks (m + n) (x >>= f) := by
  intro p b q h
  obtain ⟨a, r, hr, hq⟩ := bind_eq_ok.1 h
  have := hx p a r hr
  have := hf a r b q hq
  omega

/-- The common case of `Shrinks.bind`: neither part gives text back. -/
theorem Shrinks.then {x : Scan α} {f : α → Scan β} (hx : Shrinks 0 x)
    (hf : ∀ a, Shrinks 0 (f a)) : Shrinks 0 (x >>= f) := hx.bind hf

theorem shrinks_pure (a : α) : Shrinks 0 (pure a : Scan α) := by
  intro p b q h
  cases h
  simp

theorem shrinks_throw {e : SyntaxError} {n : Nat} : Shrinks n (throw e : Scan α) := by
  intro p a q h
  cases h

theorem shrinks_fail {cause : SyntaxError.Cause} {back n : Nat} :
    Shrinks n (fail cause back : Scan α) := by
  intro p a q h
  cases h

theorem shrinks_get : Shrinks 0 (get : Scan Place) := by
  intro p a q h
  cases h
  simp

theorem shrinks_skip (n : Nat) : Shrinks 0 (skip n) := by
  intro p a q h
  cases h
  simp

theorem shrinks_peek? : Shrinks 0 peek? := shrinks_get.then fun _ => shrinks_pure _

theorem shrinks_ahead (word : Text) : Shrinks 0 (ahead word) :=
  shrinks_get.then fun _ => shrinks_pure _

theorem shrinks_readSince (earlier : Place) : Shrinks 0 (readSince earlier) :=
  shrinks_get.then fun _ => shrinks_pure _

theorem shrinks_tokenSince (earlier : Place) (kind : Token.Kind) (value : Text) :
    Shrinks 0 (tokenSince earlier kind value) :=
  shrinks_get.then fun _ => shrinks_pure _

/-- Where the code point `c` is ahead and `x` succeeds, the text ahead has become shorter. -/
def Takes (c : CodePoint) (x : Scan α) : Prop :=
  ∀ p rest a q, p.rest = c :: rest → x p = .ok a q → q.rest.length < p.rest.length

theorem Shrinks.takes {x : Scan α} (h : Shrinks 1 x) (c : CodePoint) : Takes c x :=
  fun p _ a q _ hx => h p a q hx

theorem takes_skip (c : CodePoint) (n : Nat) : Takes c (skip (n + 1)) := by
  intro p rest a q hp h
  cases h
  simp only [hp, List.drop_succ_cons, List.length_drop, List.length_cons]
  omega

theorem takes_throw {c : CodePoint} {e : SyntaxError} : Takes c (throw e : Scan α) := by
  intro p rest a q hp h
  cases h

theorem Takes.then {c : CodePoint} {x : Scan α} {f : α → Scan β} (hx : Takes c x)
    (hf : ∀ a, Shrinks 0 (f a)) : Takes c (x >>= f) := by
  intro p rest b q hp h
  obtain ⟨a, r, hr, hq⟩ := bind_eq_ok.1 h
  exact Nat.lt_of_le_of_lt (hf a r b q hq) (hx p rest a r hp hr)

theorem takes_get_bind {c : CodePoint} {f : Place → Scan β} (hf : ∀ p, Takes c (f p)) :
    Takes c (get >>= f) := fun p rest b q hp h => hf p p rest b q hp h

theorem takes_ahead_bind {c : CodePoint} {word : Text} {f : Bool → Scan β}
    (hf : ∀ b, Takes c (f b)) : Takes c (ahead word >>= f) := fun p rest b q hp h =>
  hf _ p rest b q hp h

theorem takes_peek?_bind {c : CodePoint} {f : Option CodePoint → Scan β}
    (hf : Takes c (f (some c))) : Takes c (peek? >>= f) := by
  intro p rest b q hp h
  change f p.rest.head? p = _ at h
  rw [hp] at h
  exact hf p rest b q hp h

/-! ## Parts of tokens -/

/-- What stands behind a longest run does not go on with it. -/
theorem not_of_mem_head?_dropWhile {p : CodePoint → Bool} {t : Text} {c : CodePoint}
    (hc : c ∈ (t.dropWhile p).head?) : ¬p c := by
  have hnot := List.head?_dropWhile_not p t
  rw [Option.mem_def.1 hc] at hnot
  simpa using hnot

/-- What is ignored, and what follows it. -/
theorem splitIgnored_append (t : Text) : (splitIgnored t).2.1 ++ (splitIgnored t).2.2 = t := by
  fun_induction splitIgnored t with
  | case1 => rfl
  | case2 c rest hc comments ignored left heq ih =>
    rw [heq] at ih
    exact congrArg (c :: ·) ih
  | case3 rest comment comments ignored left heq hc ih =>
    rw [heq] at ih
    simp only [List.cons_append, List.append_assoc, List.cons.injEq, true_and]
    rw [ih]
    exact List.takeWhile_append_dropWhile
  | case4 => rfl

theorem shrinks_dots (n : Nat) : Shrinks 0 (dots n) := by
  induction n with
  | zero => exact shrinks_pure _
  | succ n ih =>
    refine shrinks_peek?.then fun c => ?_
    match c with
    | none => exact shrinks_fail
    | some c =>
      refine (shrinks_skip 1).then fun _ => ?_
      split
      · exact ih
      · exact shrinks_fail

theorem takes_dots (c : CodePoint) (n : Nat) : Takes c (dots (n + 1)) := by
  refine takes_peek?_bind ((takes_skip c 0).then fun _ => ?_)
  split
  · exact shrinks_dots n
  · exact shrinks_fail

theorem shrinks_escapeDigits (n : Nat) : Shrinks 0 (escapeDigits n) := by
  induction n with
  | zero => exact shrinks_pure _
  | succ n ih =>
    refine shrinks_peek?.then fun c => ?_
    match c with
    | none => exact shrinks_get.then fun _ => shrinks_throw
    | some c =>
      refine (shrinks_skip 1).then fun _ => ?_
      split
      · exact ih
      · exact shrinks_pure _

theorem shrinks_unicodeEscape : Shrinks 0 unicodeEscape := by
  refine shrinks_get.then fun start => (shrinks_escapeDigits 4).then fun _ =>
    (shrinks_readSince start).then fun digits => ?_
  split
  · exact shrinks_pure _
  · exact shrinks_throw

theorem shrinks_escape : Shrinks 0 escape := by
  refine shrinks_peek?.then fun c => ?_
  match c with
  | none => exact shrinks_get.then fun _ => shrinks_throw
  | some c =>
    refine (shrinks_skip 1).then fun _ => ?_
    split
    · exact shrinks_pure _
    · split
      · exact shrinks_unicodeEscape
      · exact shrinks_fail

theorem shrinks_stringBody (fuel : Text) : Shrinks 0 (stringBody fuel) := by
  induction fuel with
  | nil => exact shrinks_fail
  | cons _ fuel ih =>
    refine shrinks_peek?.then fun c => ?_
    match c with
    | none => exact shrinks_fail
    | some c =>
      refine (shrinks_skip 1).then fun _ => ?_
      split
      · exact shrinks_pure _
      split
      · exact shrinks_escape.then fun _ => ih.then fun _ => shrinks_pure _
      split
      · exact shrinks_fail
      split
      · exact ih.then fun _ => shrinks_pure _
      · exact shrinks_fail

theorem shrinks_blockBody (fuel : Text) : Shrinks 0 (blockBody fuel) := by
  induction fuel with
  | nil => exact shrinks_fail
  | cons _ fuel ih =>
    refine (shrinks_ahead _).then fun closed => ?_
    split
    · exact (shrinks_skip 3).then fun _ => shrinks_pure _
    refine shrinks_peek?.then fun c => ?_
    match c with
    | none => exact shrinks_fail
    | some c =>
      refine (shrinks_skip 1).then fun _ => ?_
      split
      · refine (shrinks_ahead _).then fun quoted => ?_
        split
        · exact (shrinks_skip 3).then fun _ => ih.then fun _ => shrinks_pure _
        · exact ih.then fun _ => shrinks_pure _
      split
      · exact ih.then fun _ => shrinks_pure _
      · exact shrinks_fail

/-! ## Tokens -/

theorem shrinks_digits : Shrinks 1 digits := by
  intro p a q h
  obtain ⟨c, r, ⟨⟩, h⟩ := bind_eq_ok.1 h
  obtain ⟨position, rest⟩ := p
  cases rest with
  | nil => cases h
  | cons c rest =>
    change (if c.isDigit then _ else _ : Scan Unit) _ = _ at h
    split at h
    · cases h
      simp_all
    · cases h

theorem shrinks_wholeDigits : Shrinks 1 wholeDigits := by
  intro p a q h
  have hd := shrinks_digits p a q
  obtain ⟨c, r, ⟨⟩, h⟩ := bind_eq_ok.1 h
  obtain ⟨position, rest⟩ := p
  cases rest with
  | nil => cases h
  | cons c rest =>
    change (if c = CodePoint.ofChar '0' then _ else digits : Scan Unit) _ = _ at h
    split at h
    · refine (takes_skip c 0).then (fun _ => shrinks_peek?.then fun d => ?_) _ rest _ _ rfl h
      match d with
      | none => exact shrinks_pure _
      | some d =>
        dsimp only
        split
        · exact shrinks_fail
        · exact shrinks_pure _
    · exact hd h

theorem shrinks_accept (test : CodePoint → Bool) : Shrinks 0 (accept test) := by
  refine shrinks_peek?.then fun c => ?_
  match c with
  | none => exact shrinks_pure _
  | some c =>
    dsimp only
    split
    · exact (shrinks_skip 1).then fun _ => shrinks_pure _
    · exact shrinks_pure _

theorem shrinks_fraction : Shrinks 0 fraction := by
  refine (shrinks_accept _).then fun found => ?_
  split
  · exact (shrinks_digits.mono (Nat.zero_le _)).then fun _ => shrinks_pure _
  · exact shrinks_pure _

theorem shrinks_exponent : Shrinks 0 exponent := by
  refine (shrinks_accept _).then fun found => ?_
  split
  · exact (shrinks_accept _).then fun _ =>
      (shrinks_wholeDigits.mono (Nat.zero_le _)).then fun _ => shrinks_pure _
  · exact shrinks_pure _

theorem shrinks_number : Shrinks 1 number := by
  refine shrinks_get.bind (n := 1) fun start => (shrinks_accept _).bind (n := 1) fun _ =>
    shrinks_wholeDigits.bind (n := 0) fun _ => shrinks_fraction.then fun _ =>
      shrinks_exponent.then fun _ => shrinks_peek?.then fun c => ?_
  have finish := fun kind => (shrinks_readSince start).then fun value =>
    shrinks_tokenSince start kind value
  match c with
  | none => exact finish _
  | some c =>
    dsimp only
    split
    · exact shrinks_fail.then fun _ => finish _
    · exact finish _

theorem takes_name {c : CodePoint} (hc : startsName c) : Takes c name := by
  intro p rest t q hp h
  cases h
  have hn : inName c := by simp [inName, hc]
  simp only [hp, hn, List.takeWhile_cons_of_pos, List.length_cons, List.drop_succ_cons,
    List.length_drop]
  omega

/-- A token takes up at least one code point. -/
theorem takes_token (c : CodePoint) : Takes c (token c) := by
  unfold token
  split
  · cases Token.Kind.ofSymbol? c with
    | some kind =>
      exact takes_get_bind fun _ => (takes_skip c 0).then fun _ => shrinks_tokenSince _ _ _
    | none =>
      dsimp only
      split
      · exact takes_get_bind fun start => (takes_dots c 2).then fun _ => shrinks_tokenSince _ _ _
      refine takes_ahead_bind fun quoted => ?_
      split
      · exact takes_get_bind fun start => (takes_skip c 2).then fun _ => shrinks_get.then fun _ =>
          (shrinks_blockBody _).then fun _ => shrinks_tokenSince _ _ _
      split
      · exact takes_get_bind fun start => (takes_skip c 0).then fun _ => shrinks_get.then fun _ =>
          (shrinks_stringBody _).then fun _ => shrinks_tokenSince _ _ _
      split
      · exact shrinks_number.takes c
      split
      · exact takes_name ‹_›
      · exact takes_get_bind fun _ => takes_throw
  · exact (takes_skip c 0).then fun _ => shrinks_fail

end Scan

end GraphSchema
