import GraphSchema.Proofs.Token.Progress

/-!
# Places of a text

Reading goes from place to place of one text. Whatever is read from a place of the text, the reading
ends at a place of the text again, also if it meets an error, and the offset of the error is one of
the text.

## Main definitions

* `Place.In`: the places of a text.
* `SyntaxError.IsIn`: the errors whose offset is one of the text.
* `Scan.Yields`: where a reading ends, with what result, and with which errors.

## Main statements

* `Scan.Yields.bind`: readings in sequence.
* `Scan.yields_number`, `Scan.yields_blockString` and the like: the parts of a text that are read.
-/

namespace GraphSchema

/-- The error lies in the text, or right behind its last code point. -/
def SyntaxError.IsIn (e : SyntaxError) (source : Text) : Prop :=
  0 ≤ e.position ∧ e.position ≤ source.length

namespace Place

/-- The place is one of the text: what is ahead of it is the text from its offset on. -/
structure In (p : Place) (source : Text) : Prop where
  le : p.position ≤ source.length
  rest : p.rest = source.drop p.position

/-- The place `n` code points further on. -/
def skip (p : Place) (n : Nat) : Place := ⟨p.position + n, p.rest.drop n⟩

@[simp] theorem position_skip (p : Place) (n : Nat) : (p.skip n).position = p.position + n := rfl

@[simp] theorem rest_skip (p : Place) (n : Nat) : (p.skip n).rest = p.rest.drop n := rfl

variable {p : Place} {source : Text}

theorem in_start (source : Text) : In ⟨0, source⟩ source := ⟨Nat.zero_le _, rfl⟩

theorem In.position_add_length (h : p.In source) :
    p.position + p.rest.length = source.length := by
  have := h.le
  rw [h.rest, List.length_drop]
  omega

theorem In.skip (h : p.In source) {n : Nat} (hn : n ≤ p.rest.length) : (p.skip n).In source where
  le := by
    have := h.position_add_length
    simp only [position_skip]
    omega
  rest := by rw [rest_skip, position_skip, h.rest, List.drop_drop]

/-- An error at the place, or as many code points in front of it as there are. -/
theorem In.isIn (h : p.In source) {cause : SyntaxError.Cause} {back : Nat}
    (hback : back ≤ p.position) : SyntaxError.IsIn ⟨cause, (p.position : Int) - back⟩ source := by
  have := h.le
  simp only [SyntaxError.IsIn]
  omega

end Place

namespace Scan

variable {α β : Type} {source : Text} {p : Place} {Q R : α → Place → Prop}
  {E F : SyntaxError → Prop}

/-- The reading `x` from `p` ends at a place of the text; there `Q` holds of the result, or `E` of
the error. -/
structure Yields (source : Text) (x : Scan α) (p : Place) (Q : α → Place → Prop)
    (E : SyntaxError → Prop) : Prop where
  ok : ∀ {a q}, x p = .ok a q → q.In source ∧ Q a q
  error : ∀ {e q}, x p = .error e q → q.In source ∧ E e

/-- Nothing is said of the result. -/
def Any (_ : α) (_ : Place) : Prop := True

namespace Yields

theorem conseq {x : Scan α} (h : Yields source x p Q E) (hQ : ∀ a q, q.In source → Q a q → R a q)
    (hE : ∀ e, E e → F e) : Yields source x p R F where
  ok hx := by
    obtain ⟨hq, ha⟩ := h.ok hx
    exact ⟨hq, hQ _ _ hq ha⟩
  error hx := by
    obtain ⟨hq, he⟩ := h.error hx
    exact ⟨hq, hE _ he⟩

/-- Where a reading takes up text, less of it is ahead at the end. -/
theorem shrinks {x : Scan α} {n : Nat} (h : Yields source x p Q E) (hx : Shrinks n x) :
    Yields source x p (fun a q => Q a q ∧ q.rest.length + n ≤ p.rest.length) E where
  ok hr := by
    obtain ⟨hq, ha⟩ := h.ok hr
    exact ⟨hq, ha, hx _ _ _ hr⟩
  error hr := h.error hr

/-- One reading after the other. -/
theorem bind {x : Scan α} {f : α → Scan β} {R : β → Place → Prop} (hx : Yields source x p Q E)
    (hf : ∀ a q, q.In source → Q a q → Yields source (f a) q R E) :
    Yields source (x >>= f) p R E where
  ok h := by
    obtain ⟨a, r, hr, hq⟩ := bind_eq_ok.1 h
    obtain ⟨hin, ha⟩ := hx.ok hr
    exact (hf a r hin ha).ok hq
  error h := by
    rcases bind_eq_error.1 h with h | ⟨a, r, hr, hq⟩
    · exact hx.error h
    · obtain ⟨hin, ha⟩ := hx.ok hr
      exact (hf a r hin ha).error hq

end Yields

/-! ## Single steps -/

theorem yields_pure (hp : p.In source) {a : α} (h : Q a p) :
    Yields source (pure a) p Q E where
  ok hx := by
    cases hx
    exact ⟨hp, h⟩
  error hx := by cases hx

theorem yields_throw (hp : p.In source) {e : SyntaxError} (h : E e) :
    Yields source (throw e : Scan α) p Q E where
  ok hx := by cases hx
  error hx := by
    cases hx
    exact ⟨hp, h⟩

theorem yields_get_bind {f : Place → Scan α} (h : Yields source (f p) p Q E) :
    Yields source (get >>= f) p Q E where
  ok hx := h.ok hx
  error hx := h.error hx

theorem yields_fail (hp : p.In source) {cause : SyntaxError.Cause} {back : Nat}
    (hback : back ≤ p.position) :
    Yields source (fail cause back : Scan α) p Q fun e => e.IsIn source :=
  yields_get_bind (yields_throw hp (hp.isIn hback))

theorem yields_skip_bind {n : Nat} {f : Unit → Scan α} (h : Yields source (f ()) (p.skip n) Q E) :
    Yields source (skip n >>= f) p Q E where
  ok hx := h.ok hx
  error hx := h.error hx

/-- A step that depends on what is ahead. -/
theorem yields_peek?_bind {f : Option CodePoint → Scan α}
    (hnone : p.rest = [] → Yields source (f none) p Q E)
    (hsome : ∀ c rest, p.rest = c :: rest → Yields source (f (some c)) p Q E) :
    Yields source (peek? >>= f) p Q E := by
  have h : Yields source (f p.rest.head?) p Q E := by
    cases hr : p.rest with
    | nil => exact hnone hr
    | cons c rest => exact hsome c rest hr
  exact ⟨fun hx => h.ok hx, fun hx => h.error hx⟩

theorem yields_ahead_bind {word : Text} {f : Bool → Scan α}
    (h : Yields source (f (word.isPrefixOf p.rest)) p Q E) :
    Yields source (ahead word >>= f) p Q E where
  ok hx := h.ok hx
  error hx := h.error hx

theorem yields_readSince_bind {start : Place} {f : Text → Scan α}
    (h : Yields source (f (start.rest.take (p.position - start.position))) p Q E) :
    Yields source (readSince start >>= f) p Q E where
  ok hx := h.ok hx
  error hx := h.error hx

theorem yields_skipWhile (hp : p.In source) (test : CodePoint → Bool) :
    Yields source (skipWhile test) p Any E where
  ok hx := by
    cases hx
    exact ⟨hp.skip (List.takeWhile_prefix test).length_le, trivial⟩
  error hx := by cases hx

/-- The place one code point further on. -/
theorem In.next (hp : p.In source) {c : CodePoint} {rest : Text} (h : p.rest = c :: rest) :
    (p.skip 1).In source :=
  hp.skip (by simp [h])

theorem rest_next {c : CodePoint} {rest : Text} (h : p.rest = c :: rest) :
    (p.skip 1).rest = rest := by
  rw [Place.rest_skip, h, List.drop_succ_cons, List.drop_zero]

/-! ## Parts of tokens -/

theorem yields_dots (n : Nat) (hp : p.In source) :
    Yields source (dots n) p Any fun e => e.IsIn source := by
  induction n generalizing p with
  | zero => exact yields_pure hp trivial
  | succ n ih =>
    refine yields_peek?_bind (fun _ => yields_fail hp (Nat.zero_le _)) fun c rest hr => ?_
    refine yields_skip_bind ?_
    split
    · exact ih (In.next hp hr)
    · exact yields_fail (In.next hp hr) (Nat.zero_le _)

theorem yields_blockBody (fuel : Text) (hp : p.In source) :
    Yields source (blockBody fuel) p Any fun e => e.IsIn source := by
  induction fuel generalizing p with
  | nil => exact yields_fail hp (Nat.zero_le _)
  | cons _ fuel ih =>
    have hquotes : ∀ {q : Place}, q.In source → tripleQuote.isPrefixOf q.rest →
        (q.skip 3).In source := by
      intro q hq h
      exact hq.skip (List.isPrefixOf_iff_prefix.1 h).length_le
    refine yields_ahead_bind ?_
    split
    · exact yields_skip_bind (yields_pure (hquotes hp ‹_›) trivial)
    refine yields_peek?_bind (fun _ => yields_fail hp (Nat.zero_le _)) fun c rest hr => ?_
    refine yields_skip_bind ?_
    have hnext := In.next hp hr
    split
    · refine yields_ahead_bind ?_
      split
      · refine yields_skip_bind ?_
        exact (ih (hquotes hnext ‹_›)).bind fun _ _ hq _ => yields_pure hq trivial
      · exact (ih hnext).bind fun _ _ hq _ => yields_pure hq trivial
    split
    · exact (ih hnext).bind fun _ _ hq _ => yields_pure hq trivial
    · exact yields_fail hnext (Nat.le_add_left _ _)

theorem yields_digits (hp : p.In source) :
    Yields source digits p Any fun e => e.IsIn source := by
  refine yields_peek?_bind (fun _ => yields_fail hp (Nat.zero_le _)) fun c rest hr => ?_
  dsimp only
  split
  · exact yields_skipWhile hp _
  · exact yields_fail hp (Nat.zero_le _)

theorem yields_wholeDigits (hp : p.In source) :
    Yields source wholeDigits p Any fun e => e.IsIn source := by
  refine yields_peek?_bind (fun _ => yields_fail hp (Nat.zero_le _)) fun c rest hr => ?_
  dsimp only
  split
  · have hnext := In.next hp hr
    refine yields_skip_bind (yields_peek?_bind (fun _ => yields_pure hnext trivial) fun d _ _ => ?_)
    dsimp only
    split
    · exact yields_fail hnext (Nat.zero_le _)
    · exact yields_pure hnext trivial
  · exact yields_digits hp

theorem yields_accept (test : CodePoint → Bool) (hp : p.In source) :
    Yields source (accept test) p Any E := by
  refine yields_peek?_bind (fun _ => yields_pure hp trivial) fun c rest hr => ?_
  dsimp only
  split
  · exact yields_skip_bind (yields_pure (In.next hp hr) trivial)
  · exact yields_pure hp trivial

theorem yields_fraction (hp : p.In source) :
    Yields source fraction p Any fun e => e.IsIn source := by
  refine (yields_accept _ hp).bind fun found q hq _ => ?_
  split
  · exact (yields_digits hq).bind fun _ _ h _ => yields_pure h trivial
  · exact yields_pure hq trivial

theorem yields_exponent (hp : p.In source) :
    Yields source exponent p Any fun e => e.IsIn source := by
  refine (yields_accept _ hp).bind fun found q hq _ => ?_
  split
  · exact (yields_accept _ hq).bind fun _ _ h _ =>
      (yields_wholeDigits h).bind fun _ _ h _ => yields_pure h trivial
  · exact yields_pure hq trivial

/-! ## Tokens -/

/-- The token reaches from one place to another, and is none of those for the ends of a text. -/
structure Spans (start : Place) (t : Token) (q : Place) : Prop where
  start : t.start = start.position
  stop : t.stop = q.position
  inner : t.kind ≠ .start ∧ t.kind ≠ .finish

theorem yields_tokenSince (hp : p.In source) {start : Place} {kind : Token.Kind} {value : Text}
    (h : kind ≠ .start ∧ kind ≠ .finish) :
    Yields source (tokenSince start kind value) p (Spans start) E :=
  yields_get_bind (yields_pure hp ⟨rfl, rfl, h⟩)

theorem yields_symbol (hp : p.In source) {c : CodePoint} {rest : Text} (hr : p.rest = c :: rest)
    {kind : Token.Kind} (h : Token.Kind.ofSymbol? c = some kind) :
    Yields source (do
      let start ← get
      skip 1
      tokenSince start kind []) p (Spans p) E := by
  have hkind : kind ≠ .start ∧ kind ≠ .finish := by
    have hmem := List.mem_of_find?_eq_some h
    constructor
    · rintro rfl
      exact absurd hmem (by decide)
    · rintro rfl
      exact absurd hmem (by decide)
  exact yields_get_bind (yields_skip_bind (yields_tokenSince (In.next hp hr) hkind))

theorem yields_ellipsis (hp : p.In source) :
    Yields source ellipsis p (Spans p) fun e => e.IsIn source :=
  yields_get_bind ((yields_dots 3 hp).bind fun _ _ hq _ => yields_tokenSince hq (by decide))

theorem yields_blockString (hp : p.In source) (h : tripleQuote.isPrefixOf p.rest) :
    Yields source blockString p (Spans p) fun e => e.IsIn source := by
  have hopen := hp.skip (List.isPrefixOf_iff_prefix.1 h).length_le
  exact yields_get_bind (yields_skip_bind (yields_get_bind
    ((yields_blockBody _ hopen).bind fun _ _ hq _ => yields_tokenSince hq (by decide))))

theorem yields_number (hp : p.In source) :
    Yields source number p (Spans p) fun e => e.IsIn source := by
  refine yields_get_bind ((yields_accept _ hp).bind fun _ _ hp _ =>
    (yields_wholeDigits hp).bind fun _ _ hp _ => (yields_fraction hp).bind fun hasFraction _ hp _ =>
      (yields_exponent hp).bind fun hasExponent q hp _ => ?_)
  have hlast : Yields source (readSince p >>= fun digits =>
      tokenSince p (if hasFraction || hasExponent then .float else .integer) digits) q (Spans p)
        fun e => e.IsIn source := by
    refine yields_readSince_bind (yields_tokenSince hp ?_)
    split <;> decide
  refine yields_peek?_bind (fun _ => hlast) fun c _ _ => ?_
  dsimp only
  split
  · exact (yields_fail hp (Nat.zero_le _)).bind fun _ _ _ h => False.elim h
  · exact hlast

theorem yields_name (hp : p.In source) : Yields source name p (Spans p) E :=
  yields_get_bind ((yields_skipWhile hp _).bind fun _ _ hq _ =>
    yields_readSince_bind (yields_tokenSince hq (by decide)))

end Scan

end GraphSchema
