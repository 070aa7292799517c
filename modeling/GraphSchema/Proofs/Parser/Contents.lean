import GraphSchema.Proofs.Parser.Member

/-!
# The rules for the members of types

What the rules for interfaces, for members of unions and for all directives and members of a type
read is what their trees write.

## Main definitions

* `Parse.Contents`: the directives and the members of a type.

## Main statements

* `Parse.reads_allMembers`: the directives and the members of a type of each kind.
-/

namespace GraphSchema.Parse

open Grammar Lexeme

variable {β : Type} {d : Parser.Document}

/-- What opens a further part of a definition. -/
def definitionParts : List Lexeme :=
  [symbol .parenOpen, symbol .sign, symbol .curlyOpen, symbol .equals, symbol .pipe,
   symbol .ampersand, word "implements"]

/-! ## Interfaces and members of unions -/

/-- Without names it does not matter whether there is a delimiter in front. -/
theorem reads_noNames :
    ReadsExactly d (pure [] : Parse (List Node))
      (fun ns (x : Bool × List Text) => List.Forall₂ (Shows namedTypeNode) ns x.2)
      fun ls x rest => x.2 = [] ∧ rest = ls :=
  reads_pure_of ⟨(false, []), rfl⟩ (by rintro ⟨_, _⟩ rfl; exact .nil)

theorem reads_names {k : Token.Kind} (hk : IsSymbol k) (hne : ∀ w, word w ≠ symbol k) :
    Reads d (delimited k namedType)
      (fun ns (x : Bool × List Text) => List.Forall₂ (Shows namedTypeNode) ns x.2)
      (fun ls x rest => x.2 ≠ [] ∧ ls = Grammar.delimited k x.1 (x.2.map word) ++ rest)
      fun ls x rest => x.2 ≠ [] ∧ ls = Grammar.delimited k x.1 (x.2.map word) ++ rest ∧
        Avoids (symbol k) rest :=
  Writes.delimited reads_namedType hk hne

/-- The names that an opening lexeme introduces; none without it. -/
def introduced (l : Lexeme) (k : Token.Kind) (x : Bool × List Text) : List Lexeme :=
  if x.2.isEmpty then [] else l :: Grammar.delimited k x.1 (x.2.map word)

theorem introduced_eq_nil {l : Lexeme} {k : Token.Kind} {x : Bool × List Text} (h : x.2 = []) :
    introduced l k x = [] := by
  simp [introduced, h]

theorem introduced_eq {l : Lexeme} {k : Token.Kind} {x : Bool × List Text} (h : x.2 ≠ []) :
    introduced l k x = l :: Grammar.delimited k x.1 (x.2.map word) := by
  simp [introduced, h]

theorem reads_interfaces :
    Reads d interfaces (fun ns (x : Bool × List Text) => List.Forall₂ (Shows namedTypeNode) ns x.2)
      (fun ls x rest => ls = introduced (word "implements") .ampersand x ++ rest)
      fun ls x rest => ls = introduced (word "implements") .ampersand x ++ rest ∧
        Avoids (symbol .ampersand) rest ∧ Avoids (word "implements") rest := by
  refine (reads_peek.bind fun t l h => .ite (h.isWord_iff "implements")
    (fun _ => reads_advance.bind fun _ _ _ =>
      reads_names (k := .ampersand) rfl (by simp [word, symbol]))
    fun _ => reads_noNames).conseq ?_ ?_
  · intro ls x rest hread
    obtain ⟨l, mid, ⟨rfl, hl⟩, ⟨rfl, l', mid', rfl, hne, rfl⟩ | ⟨-, hx, rfl⟩⟩ := hread
    · obtain rfl : l' = word "implements" := by simpa using hl
      rw [introduced_eq hne]
      rfl
    · simp [introduced, hx]
  · intro ls x rest _ hread
    obtain ⟨rfl, ha, m, hm, hne⟩ := hread
    by_cases hx : x.2 = []
    · rw [introduced_eq_nil hx, List.nil_append]
      exact ⟨m, rest, ⟨rfl, hm⟩, .inr ⟨hne, hx, rfl⟩⟩
    · rw [introduced_eq hx]
      exact ⟨_, _, ⟨rfl, rfl⟩, .inl ⟨rfl, _, _, rfl, hx, rfl, ha⟩⟩

theorem reads_unionMembers :
    Reads d unionMembers
      (fun ns (x : Bool × List Text) => List.Forall₂ (Shows namedTypeNode) ns x.2)
      (fun ls x rest => ls = introduced (symbol .equals) .pipe x ++ rest)
      fun ls x rest => ls = introduced (symbol .equals) .pipe x ++ rest ∧
        Avoids (symbol .pipe) rest ∧ Avoids (symbol .equals) rest := by
  refine ((reads_skip (k := .equals) rfl).bind fun b b' h => .ite (Bool.coe_iff_coe.2 h)
    (fun _ => reads_names (k := .pipe) rfl (by simp [word, symbol]))
    fun _ => reads_noNames).conseq ?_ ?_
  · intro ls x rest hread
    obtain ⟨b, mid, hb, ⟨rfl, hne, rfl⟩ | ⟨hf, hx, rfl⟩⟩ := hread
    · rw [introduced_eq hne]
      exact hb
    · rw [if_neg hf] at hb
      simpa [introduced, hx] using hb.1.symm
  · intro ls x rest _ hread
    obtain ⟨rfl, ha, he⟩ := hread
    by_cases hx : x.2 = []
    · rw [introduced_eq_nil hx, List.nil_append]
      exact ⟨false, rest, ⟨rfl, he⟩, .inr ⟨by simp, hx, rfl⟩⟩
    · rw [introduced_eq hx]
      exact ⟨true, _, rfl, .inl ⟨rfl, hx, rfl, ha⟩⟩

/-! ## Members of types -/

/-- The directives and the members of a type; `leading` belongs to its names with delimiters. -/
structure Contents where
  leading : Bool
  directives : List Directive
  body : Body

namespace Contents

/-- The lexemes of the directives and the members of a type. -/
def lexemes (c : Contents) : List Lexeme :=
  c.body.front c.leading ++ (applied c.directives ++ c.body.back c.leading)

end Contents

/-- The slots show the directives and the members. -/
def ShowsContents (slots : List Slot) (c : Contents) : Prop :=
  slots.map Slot.plain = c.body.slots c.directives

/-- What the rule for the directives and members of a type of some kind reads. -/
abbrev ReadsContents (d : Parser.Document) (k : TypeKind) (rule : Parse (List Slot)) : Prop :=
  Reads d rule ShowsContents (fun ls c rest => c.body.kind = k ∧ ls = c.lexemes ++ rest)
    fun ls c rest => c.body.kind = k ∧ ls = c.lexemes ++ rest ∧ AvoidsAll definitionParts rest

/-- A body that is one list of members. -/
structure Listed {γ : Type} (mk : List γ → Body) (k : TypeKind) (r : Role) (f : γ → Node)
    (W : γ → List Lexeme) : Prop where
  kind : ∀ {b : Body}, b.kind = k ↔ ∃ gs, b = mk gs
  slots : ∀ ds gs, (mk gs).slots ds = [directivesSlot ds, .children r (gs.map f)]
  front : ∀ leading gs, (mk gs).front leading = []
  back : ∀ leading gs, (mk gs).back leading = enclosed .curlyOpen .curlyClose W gs

theorem Listed.reads {mk : List β → Body} {k : TypeKind} {r : Role} {f : β → Node}
    {W : β → List Lexeme} (h : Listed mk k r f W) {rule : Parse (List Node)}
    (hrule : Writes d d.budget rule (List.Forall₂ (Shows f))
      (enclosed .curlyOpen .curlyClose W) (Avoids (symbol .curlyOpen))) :
    ReadsContents d k (directives >>= fun ds => rule >>= fun ns =>
      pure [.children .directives ds, .children r ns]) := by
  refine (writes_directives.reads.bind fun ds ds' hds => hrule.reads.bind fun ns gs hgs =>
    reads_pure_of (V := ShowsContents) (p := fun c => c.directives = ds' ∧ c.body = mk gs)
      ⟨⟨false, ds', mk gs⟩, rfl, rfl⟩ ?_).conseq ?_ ?_
  · intro hread hwritten
    obtain ⟨leading, ds, body⟩ := hread
    obtain ⟨rfl, rfl⟩ := hwritten
    simp [ShowsContents, h.slots, directivesSlot, Forall₂.map_plain hds, Forall₂.map_plain hgs]
  · intro ls x rest hwritten
    obtain ⟨leading, ds, body⟩ := x
    obtain ⟨ds, ls₁, rfl, gs, ls₂, rfl, ⟨rfl, rfl⟩, rfl⟩ := hwritten
    exact ⟨h.kind.2 ⟨gs, rfl⟩, by simp [Contents.lexemes, h.front, h.back]⟩
  · intro ls x rest _ hwritten
    obtain ⟨leading, ds, body⟩ := x
    obtain ⟨hk, rfl, hF⟩ := hwritten
    obtain ⟨gs, rfl⟩ := h.kind.1 hk
    have hparen := avoids_enclosed (c := .curlyClose) (W := W) gs
      (hF.avoids (l := symbol .parenOpen) (by decide)) (o := .curlyOpen) (by decide)
    have hsign := avoids_enclosed (c := .curlyClose) (W := W) gs
      (hF.avoids (l := symbol .sign) (by decide)) (o := .curlyOpen) (by decide)
    simp only [Contents.lexemes, h.front, h.back, List.nil_append, List.append_assoc]
    exact ⟨ds, _, ⟨rfl, hparen, hsign⟩, gs, rest, ⟨rfl, hF.avoids (by decide)⟩, ⟨rfl, rfl⟩, rfl⟩

theorem reads_scalarContents : ReadsContents d .scalar
    (directives >>= fun ds => pure [.children .directives ds]) := by
  refine (writes_directives.reads.bind fun ds ds' hds => reads_pure_of (V := ShowsContents)
    (p := fun c => c.directives = ds' ∧ c.body = .scalar) ⟨⟨false, ds', .scalar⟩, rfl, rfl⟩
    ?_).conseq ?_ ?_
  · intro h hread
    obtain ⟨leading, ds, body⟩ := h
    obtain ⟨rfl, rfl⟩ := hread
    simp [ShowsContents, Body.slots, directivesSlot, Forall₂.map_plain hds]
  · intro ls x rest hread
    obtain ⟨leading, ds, body⟩ := x
    obtain ⟨ds, mid, rfl, ⟨rfl, rfl⟩, rfl⟩ := hread
    exact ⟨rfl, by simp [Contents.lexemes, Body.front, Body.back]⟩
  · intro ls x rest _ hread
    obtain ⟨leading, ds, body⟩ := x
    obtain ⟨hk, rfl, hF⟩ := hread
    cases body <;> cases hk
    exact ⟨ds, rest, ⟨by simp [Contents.lexemes, Body.front, Body.back],
      hF.avoids (by decide), hF.avoids (by decide)⟩, ⟨rfl, rfl⟩, rfl⟩

theorem Contents.lexemes_union (leading : Bool) (ds : List Directive) (types : List Text) :
    (Contents.mk leading ds (.union types)).lexemes =
      applied ds ++ introduced (symbol .equals) .pipe (leading, types) := rfl

theorem reads_unionContents : ReadsContents d .union
    (directives >>= fun ds => unionMembers >>= fun ns =>
      pure [.children .directives ds, .children .types ns]) := by
  refine (writes_directives.reads.bind fun ds ds' hds => reads_unionMembers.bind fun ns x hx =>
    reads_pure (V := ShowsContents) (b := ⟨x.1, ds', .union x.2⟩) ?_).conseq ?_ ?_
  · simp [ShowsContents, Body.slots, directivesSlot, Forall₂.map_plain hds, Forall₂.map_plain hx]
  · intro ls c rest h
    obtain ⟨ds, ls₁, rfl, x, ls₂, rfl, rfl, rfl⟩ := h
    exact ⟨rfl, by rw [Contents.lexemes_union, List.append_assoc]⟩
  · intro ls x rest _ hread
    obtain ⟨leading, ds, body⟩ := x
    obtain ⟨hk, rfl, hF⟩ := hread
    cases body with
    | union types =>
      have hmid : ∀ l, symbol .equals ≠ l → Avoids l rest →
          Avoids l (introduced (symbol .equals) .pipe (leading, types) ++ rest) := by
        intro l hl ha
        cases types with
        | nil => exact ha
        | cons t ts => simpa [introduced] using hl
      rw [Contents.lexemes_union, List.append_assoc]
      exact ⟨ds, _, ⟨rfl, hmid _ (by decide) (hF.avoids (by decide)),
        hmid _ (by decide) (hF.avoids (by decide))⟩, (leading, types), rest,
        ⟨rfl, hF.avoids (by decide), hF.avoids (by decide)⟩, rfl, rfl⟩
    | _ => cases hk

theorem Contents.lexemes_object (leading : Bool) (ds : List Directive) (interfaces : List Text)
    (fields : List Field) :
    (Contents.mk leading ds (.object interfaces fields)).lexemes =
      introduced (word "implements") .ampersand (leading, interfaces) ++
        (applied ds ++ enclosed .curlyOpen .curlyClose Field.lexemes fields) := rfl

theorem reads_objectContents : ReadsContents d .object
    (interfaces >>= fun is => directives >>= fun ds => fields >>= fun ns =>
      pure [.children .interfaces is, .children .directives ds, .children .fields ns]) := by
  refine (reads_interfaces.bind fun is x hx => writes_directives.reads.bind fun ds ds' hds =>
    writes_fields.reads.bind fun fs fs' hfs =>
    reads_pure (V := ShowsContents) (b := ⟨x.1, ds', .object x.2 fs'⟩) ?_).conseq ?_ ?_
  · simp [ShowsContents, Body.slots, directivesSlot, Forall₂.map_plain hds, Forall₂.map_plain hx,
      Forall₂.map_plain hfs]
  · intro ls c rest h
    obtain ⟨x, ls₁, rfl, ds, ls₂, rfl, fs, ls₃, rfl, rfl, rfl⟩ := h
    exact ⟨rfl, by simp only [Contents.lexemes_object, List.append_assoc]⟩
  · intro ls x rest _ hread
    obtain ⟨leading, ds, body⟩ := x
    obtain ⟨hk, rfl, hF⟩ := hread
    cases body with
    | object interfaces fields =>
      have hfields : ∀ l, l ∈ definitionParts → symbol .curlyOpen ≠ l →
          Avoids l (enclosed .curlyOpen .curlyClose Field.lexemes fields ++ rest) :=
        fun l hl hne => avoids_enclosed fields (hF.avoids hl) hne
      have hds : ∀ l, l ∈ definitionParts → symbol .curlyOpen ≠ l → symbol .sign ≠ l → Avoids l
          (applied ds ++ (enclosed .curlyOpen .curlyClose Field.lexemes fields ++ rest)) :=
        fun l hl hne hs => avoids_applied ds (hfields l hl hne) hs
      simp only [Contents.lexemes_object, List.append_assoc]
      exact ⟨(leading, interfaces), _, ⟨rfl, hds _ (by decide) (by decide) (by decide),
        hds _ (by decide) (by decide) (by decide)⟩, ds, _, ⟨rfl, hfields _ (by decide) (by decide),
        hfields _ (by decide) (by decide)⟩, fields, rest, ⟨rfl, hF.avoids (by decide)⟩, rfl, rfl⟩
    | _ => cases hk

theorem listed_interface :
    Listed .interface .interface .fields Field.node Field.lexemes :=
  ⟨by rintro b; cases b <;> simp [Body.kind], fun _ _ => rfl, fun _ _ => rfl, fun _ _ => rfl⟩

theorem listed_enum : Listed .enum .enum .values EnumValue.node EnumValue.lexemes :=
  ⟨by rintro b; cases b <;> simp [Body.kind], fun _ _ => rfl, fun _ _ => rfl, fun _ _ => rfl⟩

theorem listed_inputObject :
    Listed .inputObject .inputObject .fields InputValue.node InputValue.lexemes :=
  ⟨by rintro b; cases b <;> simp [Body.kind], fun _ _ => rfl, fun _ _ => rfl, fun _ _ => rfl⟩

/-- The directives and the members of a type. -/
theorem reads_allMembers (k : TypeKind) : ReadsContents d k (allMembers k) := by
  have heq : allMembers k = (Kind.members k).mapM fun r => return .children r (← members k r) := rfl
  cases k with
  | scalar => simpa [heq, Kind.members, members] using reads_scalarContents
  | object => simpa [heq, Kind.members, members] using reads_objectContents
  | interface =>
    simpa [heq, Kind.members, members] using listed_interface.reads (d := d) writes_fields
  | union => simpa [heq, Kind.members, members] using reads_unionContents
  | enum => simpa [heq, Kind.members, members] using listed_enum.reads (d := d) writes_enumValues
  | inputObject =>
    simpa [heq, Kind.members, members] using listed_inputObject.reads (d := d) writes_inputFields

end GraphSchema.Parse
