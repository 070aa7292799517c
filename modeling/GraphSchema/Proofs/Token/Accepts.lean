import GraphSchema.Proofs.Token.Progress

/-!
# What a reading accepts

A reading that succeeds takes a part of the text ahead. Whether it does, and with what result,
depends on this part and on what follows it, and not on where it stands.

## Main definitions

* `Scan.Accepts`: which part of a text a reading takes, in front of which rest, with what result.

## Main statements

* `Scan.Accepts.bind`: readings in sequence.
* `Scan.accepts_accept`, `Scan.accepts_skipWhile`: single steps.
-/

namespace GraphSchema

namespace Scan

variable {α β : Type} {i : Nat} {s r t : Text} {c : CodePoint}

/-- The reading `x` takes `s` in front of `r` with the result `a` exactly if `L a s r`. -/
def Accepts (x : Scan α) (L : α → Text → Text → Prop) : Prop :=
  ∀ i t a q, x ⟨i, t⟩ = .ok a q ↔ ∃ s r, t = s ++ r ∧ q = ⟨i + s.length, r⟩ ∧ L a s r

namespace Accepts

variable {x : Scan α} {L : α → Text → Text → Prop} {a : α}

theorem of_ok (h : Accepts x L) {q : Place} (hx : x ⟨i, t⟩ = .ok a q) :
    ∃ s r, t = s ++ r ∧ q = ⟨i + s.length, r⟩ ∧ L a s r := (h i t a q).1 hx

theorem ok (h : Accepts x L) (hs : L a s r) : x ⟨i, s ++ r⟩ = .ok a ⟨i + s.length, r⟩ :=
  (h _ _ _ _).2 ⟨s, r, rfl, rfl, hs⟩

theorem congr {M : α → Text → Text → Prop} (h : Accepts x L) (hM : ∀ a s r, L a s r ↔ M a s r) :
    Accepts x M := by
  obtain rfl : L = M := funext fun a => funext fun s => funext fun r => propext (hM a s r)
  exact h

/-- Another step takes what follows the part that the first one takes. -/
theorem bind {f : α → Scan β} {M : α → β → Text → Text → Prop} (h : Accepts x L)
    (hf : ∀ a, Accepts (f a) (M a)) : Accepts (x >>= f) fun b s r =>
      ∃ a s₁ s₂, s = s₁ ++ s₂ ∧ L a s₁ (s₂ ++ r) ∧ M a b s₂ r := by
  intro i t b q
  rw [bind_eq_ok]
  constructor
  · rintro ⟨a, p, hx, hfx⟩
    obtain ⟨s₁, r₁, rfl, rfl, h₁⟩ := h.of_ok hx
    obtain ⟨s₂, r, rfl, rfl, h₂⟩ := (hf a).of_ok hfx
    exact ⟨s₁ ++ s₂, r, by simp, by simp [Nat.add_assoc], a, s₁, s₂, rfl, h₁, h₂⟩
  · rintro ⟨s, r, rfl, rfl, a, s₁, s₂, rfl, h₁, h₂⟩
    refine ⟨a, ⟨i + s₁.length, s₂ ++ r⟩, ?_, ?_⟩
    · rw [List.append_assoc]
      exact h.ok h₁
    · rw [List.length_append, ← Nat.add_assoc]
      exact (hf a).ok h₂

end Accepts

/-- A reading that takes the code point ahead. -/
theorem accepts_of_cons {x : Scan α} {L : α → Text → Text → Prop}
    (hnil : ∀ i a q, x ⟨i, []⟩ ≠ .ok a q) (hne : ∀ a s r, L a s r → s ≠ [])
    (hcons : ∀ i c t a q, x ⟨i, c :: t⟩ = .ok a q ↔
      ∃ s r, c :: t = s ++ r ∧ q = ⟨i + s.length, r⟩ ∧ L a s r) : Accepts x L := by
  intro i t a q
  cases t with
  | cons c t => exact hcons i c t a q
  | nil =>
    refine ⟨fun h => absurd h (hnil i a q), ?_⟩
    rintro ⟨s, r, hsr, -, hs⟩
    exact absurd (List.append_eq_nil_iff.1 hsr.symm).1 (hne a s r hs)

/-- A reading that takes the code point ahead, and goes on as this one says. -/
theorem accepts_next {x : Scan α} {f : CodePoint → Scan α}
    {L : CodePoint → α → Text → Text → Prop} (hnil : ∀ i a q, x ⟨i, []⟩ ≠ .ok a q)
    (hcons : ∀ i c t, x ⟨i, c :: t⟩ = f c ⟨i + 1, t⟩) (hf : ∀ c, Accepts (f c) (L c)) :
    Accepts x fun a s r => ∃ c s', s = c :: s' ∧ L c a s' r := by
  refine accepts_of_cons hnil (by rintro a _ r ⟨c, s', rfl, -⟩; simp) fun i c t a q => ?_
  rw [hcons, hf c]
  constructor
  · rintro ⟨s, r, rfl, rfl, hs⟩
    exact ⟨c :: s, r, rfl, by simp [Nat.add_comm, Nat.add_left_comm], c, s, rfl, hs⟩
  · rintro ⟨_, r, hsr, rfl, d, s, rfl, hs⟩
    obtain ⟨rfl, rfl⟩ := List.cons.inj hsr
    exact ⟨s, r, rfl, by simp [Nat.add_comm, Nat.add_left_comm], hs⟩

/-- A reading that fails. -/
theorem accepts_of_ne {x : Scan α} (h : ∀ p a q, x p ≠ .ok a q) :
    Accepts x fun _ _ _ => False := by
  intro i t a q
  simp [h]

/-! ## Single steps -/

theorem accepts_pure (a : α) : Accepts (pure a) fun b s _ => b = a ∧ s = [] := by
  intro i t b q
  constructor
  · rintro ⟨⟩
    exact ⟨[], t, rfl, rfl, rfl, rfl⟩
  · rintro ⟨s, r, rfl, rfl, rfl, rfl⟩
    rfl

/-- A test for the code point ahead. -/
theorem accepts_accept (p : CodePoint → Bool) : Accepts (accept p) fun found s r =>
    (found = true ∧ ∃ c, s = [c] ∧ p c) ∨ (found = false ∧ s = [] ∧ ∀ c ∈ r.head?, ¬p c) := by
  intro i t found q
  cases t with
  | nil =>
    constructor
    · rintro ⟨⟩
      exact ⟨[], [], rfl, rfl, .inr ⟨rfl, rfl, by simp⟩⟩
    · rintro ⟨s, r, hsr, rfl, ⟨-, c, rfl, -⟩ | ⟨rfl, rfl, -⟩⟩
      · cases hsr
      · cases hsr
        rfl
  | cons c t =>
    have hrun : accept p ⟨i, c :: t⟩ =
        if p c then .ok true ⟨i + 1, t⟩ else .ok false ⟨i, c :: t⟩ := by
      change (if p c then _ else _ : Scan Bool) _ = _
      split <;> rfl
    rw [hrun]
    constructor
    · intro h
      split at h <;> cases h
      · exact ⟨[c], t, rfl, rfl, .inl ⟨rfl, c, rfl, ‹_›⟩⟩
      · exact ⟨[], c :: t, rfl, rfl, .inr ⟨rfl, rfl, by simp [*]⟩⟩
    · rintro ⟨s, r, hsr, rfl, ⟨rfl, d, rfl, hd⟩ | ⟨rfl, rfl, hd⟩⟩
      · obtain ⟨rfl, rfl⟩ := List.cons.inj hsr
        rw [if_pos hd]
        rfl
      · obtain rfl : c :: t = r := hsr
        rw [if_neg (hd c rfl)]
        rfl

/-- A part of the text is read if the code point ahead passes a test. -/
theorem accepts_optional (p : CodePoint → Bool) {x : Scan Unit} {L : Text → Text → Prop}
    (hx : Accepts x fun _ => L) :
    Accepts (accept p >>= fun found => if found then x >>= fun _ => pure true else pure false)
      fun found s r => (found = true ∧ ∃ c s', s = c :: s' ∧ p c ∧ L s' r) ∨
        (found = false ∧ s = [] ∧ ∀ c ∈ r.head?, ¬p c) := by
  have hpart (found : Bool) :
      Accepts (if found then x >>= fun _ => pure true else pure false) fun b s r =>
        b = found ∧ if found then L s r else s = [] := by
    cases found with
    | true =>
      refine (hx.bind fun _ => accepts_pure true).congr fun b s r => ?_
      constructor
      · rintro ⟨-, s₁, s₂, rfl, h, rfl, rfl⟩
        exact ⟨rfl, by simpa using h⟩
      · rintro ⟨rfl, h⟩
        exact ⟨(), s, [], by simp, h, rfl, rfl⟩
    | false => exact accepts_pure false
  refine ((accepts_accept p).bind hpart).congr fun b s r => ?_
  constructor
  · rintro ⟨found, s₁, s₂, rfl, ⟨rfl, c, rfl, hc⟩ | ⟨rfl, rfl, hstop⟩, rfl, h⟩
    · exact .inl ⟨rfl, c, s₂, rfl, hc, h⟩
    · obtain rfl : s₂ = [] := h
      exact .inr ⟨rfl, rfl, hstop⟩
  · rintro (⟨rfl, c, s', rfl, hc, h⟩ | ⟨rfl, rfl, hstop⟩)
    · exact ⟨true, [c], s', rfl, .inl ⟨rfl, c, rfl, hc⟩, rfl, h⟩
    · exact ⟨false, [], [], rfl, .inr ⟨rfl, rfl, hstop⟩, rfl, rfl⟩

theorem takeWhile_append_of_stop {p : CodePoint → Bool} (hs : ∀ c ∈ s, p c)
    (hu : ∀ c ∈ r.head?, ¬p c) : (s ++ r).takeWhile p = s := by
  rw [List.takeWhile_append_of_pos hs]
  cases r with
  | nil => simp
  | cons c r => simp [hu c rfl]

/-- A run of code points that is as long as can be. -/
theorem accepts_skipWhile (p : CodePoint → Bool) :
    Accepts (skipWhile p) fun _ s r => (∀ c ∈ s, p c) ∧ ∀ c ∈ r.head?, ¬p c := by
  intro i t a q
  constructor
  · rintro ⟨⟩
    have hsplit : t = t.takeWhile p ++ t.dropWhile p := List.takeWhile_append_dropWhile.symm
    refine ⟨t.takeWhile p, t.dropWhile p, hsplit, ?_, List.all_eq_true.1 List.all_takeWhile,
      fun _ => not_of_mem_head?_dropWhile⟩
    simp only [Place.mk.injEq, true_and]
    conv => lhs; arg 2; rw [hsplit]
    rw [List.drop_left]
  · rintro ⟨s, r, rfl, rfl, hs, hr⟩
    change EStateM.Result.ok () (⟨i + ((s ++ r).takeWhile p).length,
      (s ++ r).drop ((s ++ r).takeWhile p).length⟩ : Place) = _
    rw [takeWhile_append_of_stop hs hr, List.drop_left]

end Scan

end GraphSchema
