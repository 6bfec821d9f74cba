import Fixture.Proofs.Grammar.Skim
import Fixture.Proofs.RoundTrip
/-!
# Ways that keep to a language

A way through the tokens keeps to a language, `Obeys`, if all that it consumes
can be completed to a word of the language, and if it stops on the first token
for which that is no longer so. Three things are in that. What was consumed when
it succeeds is a word. What was consumed when it fails can be completed. And it
looks at what it consumes and at one token behind it, at nothing else: another
way of the same making, on other tokens that agree up to there, goes as far, and
fails on the same token.

Keeping to a language goes through all the pieces that ways are made of. So for
each reader it only remains to see that the language of its pieces is the
language of its nonterminal.

## Main results

* `Obeys.seq`: one way behind the other.
* `Obeys.among`, `Obeys.expect`, `Obeys.advance`: single tokens.
* `Obeys.optionally`: a way that the next token decides on.
-/

namespace Fixture

/-! ## Tokens, places aside -/

/-- The same tokens, places aside. -/
def Alike (us vs : List Token) : Prop :=
  us.map Token.unplaced = vs.map Token.unplaced

namespace Alike

variable {t : Token} {us vs ws us' vs' : List Token}

private theorem refl (us : List Token) : Alike us us := rfl

private theorem append (h : Alike us us') (h' : Alike vs vs') :
    Alike (us ++ vs) (us' ++ vs') := by
  rw [Alike, List.map_append, List.map_append, h, h']

theorem of_append (h : Alike (us ++ vs) ws) :
    ∃ us' vs', ws = us' ++ vs' ∧ Alike us us' ∧ Alike vs vs' := by
  rw [Alike, List.map_append] at h
  obtain ⟨us', vs', rfl, hus, hvs⟩ := List.map_eq_append_iff.1 h.symm
  exact ⟨us', vs', rfl, hus.symm, hvs.symm⟩

private theorem of_cons (h : Alike (t :: us) ws) :
    ∃ t' us', ws = t' :: us' ∧ t.unplaced = t'.unplaced ∧ Alike us us' := by
  obtain ⟨t', us', rfl, ht, hus⟩ := List.map_eq_cons_iff.1 (Eq.symm h)
  exact ⟨t', us', rfl, ht.symm, hus.symm⟩

private theorem of_nil (h : Alike [] ws) : ws = [] :=
  List.map_eq_nil_iff.1 (Eq.symm h)

end Alike

/-- Tokens that begin with these, places aside. -/
def Along (seen ts : List Token) : Prop :=
  ∃ us more, ts = us ++ more ∧ Alike seen us

namespace Along

variable {t : Token} {us vs ts : List Token}

private theorem of_append (h : Along (us ++ vs) ts) :
    ∃ us' ts', ts = us' ++ ts' ∧ Alike us us' ∧ Along vs ts' := by
  obtain ⟨ws, more, rfl, hws⟩ := h
  obtain ⟨us', vs', rfl, hus, hvs⟩ := hws.of_append
  exact ⟨us', vs' ++ more, List.append_assoc .., hus, vs', more, rfl, hvs⟩

theorem of_cons (h : Along (t :: us) ts) :
    ∃ t' ts', ts = t' :: ts' ∧ t.unplaced = t'.unplaced ∧ Along us ts' := by
  obtain ⟨ws, more, rfl, hws⟩ := h
  obtain ⟨t', us', rfl, ht, hus⟩ := hws.of_cons
  exact ⟨t', us' ++ more, rfl, ht, us', more, rfl, hus⟩

private theorem append (h : Alike us vs) {seen ts : List Token}
    (hts : Along seen ts) : Along (us ++ seen) (vs ++ ts) := by
  obtain ⟨ws, more, rfl, hws⟩ := hts
  exact ⟨vs ++ ws, more, (List.append_assoc ..).symm, h.append hws⟩

/-- Less to agree with. -/
private theorem left (h : Along (us ++ vs) ts) : Along us ts := by
  obtain ⟨us', ts', rfl, hus, -⟩ := h.of_append
  exact ⟨us', ts', rfl, hus⟩

/-- What agrees up to some token agrees in the first one. -/
private theorem head {front rest : List Token}
    (h : Along (front ++ rest.take 1) ts) :
    Along ((front ++ rest).take 1) ts := by
  cases front with
  | nil => exact h
  | cons f front =>
      have hsingle : Along ([f] ++ (front ++ rest.take 1)) ts := h
      exact hsingle.left

private theorem head_cons {pre post : List Token} (h : Along (pre ++ [t]) ts) :
    Along ((pre ++ t :: post).take 1) ts :=
  head h

end Along

namespace Parse

/-! ## Languages -/

/-- The tokens are a word of the language, and so are all that are the same. -/
def Derives (L : Set (List Token)) (us : List Token) : Prop :=
  ∀ us', Alike us us' → us' ∈ L

/-- The tokens begin a word of the language, with tokens behind them that can be
written. -/
def Completes (L : Set (List Token)) (us : List Token) : Prop :=
  ∃ w : List Token, (∀ t ∈ w, t.Sound) ∧ Derives L (us ++ w)

/-- One token of a class. -/
def oneOf (p : Kind → Prop) : Set (List Token) :=
  {us | ∃ t : Token, p t.kind ∧ us = [t]}

/-- A word of one language and a word of another behind it. -/
def chain (L₁ L₂ : Set (List Token)) : Set (List Token) :=
  {us | ∃ u v, u ∈ L₁ ∧ v ∈ L₂ ∧ us = u ++ v}

/-- A word of the language, or none. -/
def maybe (L : Set (List Token)) : Set (List Token) := {us | us = [] ∨ us ∈ L}

section Languages

variable {L L' L₁ L₂ : Set (List Token)} {us vs : List Token} {t : Token}
    {p : Kind → Prop}

private theorem Derives.mem (h : Derives L us) : us ∈ L := h us (.refl us)

private theorem Derives.mono (h : Derives L us) (hL : L ⊆ L') : Derives L' us :=
  fun us' hus => hL (h us' hus)

theorem derives_nil (h : [] ∈ L) : Derives L [] := by
  intro us hus
  rwa [hus.of_nil]

theorem derives_maybe : Derives (maybe L) [] := derives_nil (.inl rfl)

theorem Derives.completes (h : Derives L us) : Completes L us :=
  ⟨[], by simp, by rwa [List.append_nil]⟩

private theorem Derives.chain (h : Derives L₁ us) (h' : Derives L₂ vs) :
    Derives (chain L₁ L₂) (us ++ vs) := by
  intro ws hws
  obtain ⟨us', vs', rfl, hus, hvs⟩ := hws.of_append
  exact ⟨us', vs', h us' hus, h' vs' hvs, rfl⟩

private theorem derives_oneOf (h : p t.kind) : Derives (oneOf p) [t] := by
  intro us hus
  obtain ⟨t', us', rfl, ht, hnil⟩ := hus.of_cons
  rw [hnil.of_nil]
  exact ⟨t', Token.kind_eq_of_unplaced ht ▸ h, rfl⟩

theorem Completes.mono (h : Completes L us) (hL : L ⊆ L') :
    Completes L' us := by
  obtain ⟨w, hw, hderives⟩ := h
  exact ⟨w, hw, hderives.mono hL⟩

theorem completes_oneOf (ht : t.Sound) (h : p t.kind) :
    Completes (oneOf p) [] :=
  ⟨[t], by simpa using ht, derives_oneOf h⟩

/-- What begins a word begins a longer one, if there is anything to go on
with. -/
theorem Completes.left (h : Completes L₁ us) (h' : Completes L₂ []) :
    Completes (Parse.chain L₁ L₂) us := by
  obtain ⟨w, hw, hderives⟩ := h
  obtain ⟨w', hw', hderives'⟩ := h'
  refine ⟨w ++ w', List.forall_mem_append.2 ⟨hw, hw'⟩, ?_⟩
  rw [← List.append_assoc]
  exact hderives.chain hderives'

/-- Behind a word, what begins a word of the other language goes on. -/
private theorem Completes.right (h : Derives L₁ us) (h' : Completes L₂ vs) :
    Completes (Parse.chain L₁ L₂) (us ++ vs) := by
  obtain ⟨w, hw, hderives⟩ := h'
  refine ⟨w, hw, ?_⟩
  rw [List.append_assoc]
  exact h.chain hderives

end Languages

/-! ## Keeping to a language -/

/-- The tokens in front of `rest` are a word, and the other way goes as far on
tokens that agree with them and with the one behind them. -/
structure Passes (L : Set (List Token)) (Y : Skim)
    (ts front rest : List Token) : Prop where
  consumes : Consumes ts front rest
  derives : Derives L front
  again : ∀ front' rest', Alike front front' → Along (rest.take 1) rest' →
    Y (front' ++ rest') = .ok rest'

/-- How a way fails that keeps to a language; `b` is the error that stands
behind the last token. -/
inductive Stuck (b : ParseError) (L : Set (List Token)) (Y : Skim)
    (ts : List Token) : ParseError → Prop where
  /-- All tokens were consumed, and another one is needed. -/
  | out {front : List Token} {last : Token} (split : ts = front ++ [last])
      (more : last.kind ≠ .eof) (fits : ∀ t ∈ ts, t.Fits)
      (completes : Completes L ts) : Stuck b L Y ts b
  /-- A token does not fit in, and neither does it for the other way. -/
  | refused {expected : String} {t : Token} {pre post : List Token}
      (split : ts = pre ++ t :: post) (fits : ∀ u ∈ pre, u.Fits)
      (completes : Completes L pre)
      (again : ∀ ts', Along (pre ++ [t]) ts' → ∃ err, Y ts' = .error err) :
      Stuck b L Y ts (.unexpected ⟨expected, t⟩)
  /-- A numeral has no value, where another one would do. -/
  | tooLarge {use : NumberUse} {t : Token} {pre post : List Token}
      (split : ts = pre ++ t :: post) (fits : ∀ u ∈ pre, u.Fits)
      (numeral : t.kind = .integerConst ∨ t.kind = .realConst)
      (unfit : ¬ t.Fits)
      (completes : ∀ s : Token, s.kind = t.kind → Completes L (pre ++ [s])) :
      Stuck b L Y ts (.outOfRange use t)

/-- The way `X` keeps to the language on these tokens, and the way `Y` does the
same on tokens that agree. -/
structure Obeys (b : ParseError) (L : Set (List Token)) (X Y : Skim)
    (ts : List Token) : Prop where
  ok : ∀ {rest}, X ts = .ok rest → ∃ front, Passes L Y ts front rest
  error : ∀ {err}, X ts = .error err → Stuck b L Y ts err

namespace Obeys

variable {b : ParseError} {L L' L₁ L₂ : Set (List Token)}
    {X Y X₁ Y₁ X₂ Y₂ : Skim} {ts us : List Token} {t : Token}

theorem mono (h : Obeys b L X Y ts) (hL : L ⊆ L') : Obeys b L' X Y ts where
  ok hok := by
    obtain ⟨front, hpass⟩ := h.ok hok
    exact ⟨front, hpass.consumes, hpass.derives.mono hL, hpass.again⟩
  error herr := by
    cases h.error herr with
    | out split more fits completes =>
        exact .out split more fits (completes.mono hL)
    | refused split fits completes again =>
        exact .refused split fits (completes.mono hL) again
    | tooLarge split fits numeral unfit completes =>
        exact .tooLarge split fits numeral unfit fun s hs =>
          (completes s hs).mono hL

/-- Ways may be exchanged for others that do the same on tokens with this one at
the front. -/
theorem congr (hX : X (t :: us) = X₁ (t :: us))
    (hY : ∀ t' us', t.unplaced = t'.unplaced → Y (t' :: us') = Y₁ (t' :: us'))
    (h : Obeys b L X₁ Y₁ (t :: us)) : Obeys b L X Y (t :: us) where
  ok {rest} hok := by
    obtain ⟨front, hpass⟩ := h.ok (hX ▸ hok)
    refine ⟨front, hpass.consumes, hpass.derives,
      fun front' rest' hfront hrest => ?_⟩
    have hhead := (Along.append hfront hrest).head
    rw [← hpass.consumes.split] at hhead
    obtain ⟨t', us', heq, ht, -⟩ := hhead.of_cons
    rw [heq, hY t' us' ht, ← heq]
    exact hpass.again front' rest' hfront hrest
  error herr := by
    cases h.error (hX ▸ herr) with
    | out split more fits completes => exact .out split more fits completes
    | @refused expected s pre post split fits completes again =>
        refine .refused split fits completes fun ts' hts' => ?_
        have hhead : Along ((pre ++ s :: post).take 1) ts' := hts'.head_cons
        rw [← split] at hhead
        obtain ⟨t', us', rfl, ht, -⟩ := hhead.of_cons
        rw [hY t' us' ht]
        exact again _ hts'
    | tooLarge split fits numeral unfit completes =>
        exact .tooLarge split fits numeral unfit completes

/-- **One way behind the other.** Wherever the first one fails, something can be
put for the second one. -/
theorem seq (hX : Obeys b L₁ X₁ Y₁ ts) (hL : Completes L₂ [])
    (h : ∀ front rest, Consumes ts front rest → Derives L₁ front →
      Obeys b L₂ X₂ Y₂ rest) :
    Obeys b (chain L₁ L₂) (X₁ >=> X₂) (Y₁ >=> Y₂) ts where
  ok {rest} hok := by
    obtain ⟨mid, hmid, hrest⟩ := of_bind_eq_ok hok
    obtain ⟨front, hpass⟩ := hX.ok hmid
    obtain ⟨front', hpass'⟩ :=
      (h front mid hpass.consumes hpass.derives).ok hrest
    refine ⟨front ++ front', hpass.consumes.append hpass'.consumes,
      hpass.derives.chain hpass'.derives, ?_⟩
    intro us rest' hus hrest'
    obtain ⟨us₁, us₂, rfl, hus₁, hus₂⟩ := hus.of_append
    have hhead := (Along.append hus₂ hrest').head
    rw [← hpass'.consumes.split] at hhead
    have hfirst : Y₁ (us₁ ++ (us₂ ++ rest')) = .ok (us₂ ++ rest') :=
      hpass.again us₁ _ hus₁ hhead
    rw [List.append_assoc, kleisli_eq]
    simp only [hfirst, ok_bind]
    exact hpass'.again us₂ rest' hus₂ hrest'
  error {err} herr := by
    cases hmid : X₁ ts with
    | error e =>
        obtain rfl : e = err := by
          rw [kleisli_eq] at herr
          simp only [hmid] at herr
          exact Except.error.inj herr
        have hfail {ts' : List Token} (hts' : ∃ e, Y₁ ts' = .error e) :
            ∃ e, (Y₁ >=> Y₂) ts' = .error e := by
          obtain ⟨e, he⟩ := hts'
          refine ⟨e, ?_⟩
          rw [kleisli_eq]
          simp only [he]
          rfl
        cases hX.error hmid with
        | out split more fits completes =>
            exact .out split more fits (completes.left hL)
        | refused split fits completes again =>
            exact .refused split fits (completes.left hL) fun ts' hts' =>
              hfail (again ts' hts')
        | tooLarge split fits numeral unfit completes =>
            exact .tooLarge split fits numeral unfit fun s hs =>
              (completes s hs).left hL
    | ok mid =>
        obtain ⟨front, hpass⟩ := hX.ok hmid
        have hsplit := hpass.consumes.split
        have herr : X₂ mid = .error err := by
          rw [kleisli_eq] at herr
          simpa only [hmid, ok_bind] using herr
        cases (h front mid hpass.consumes hpass.derives).error herr with
        | @out front' last split more fits completes =>
            have hts : ts = (front ++ front') ++ [last] := by
              rw [hsplit, split, List.append_assoc]
            refine .out hts more ?_ ?_
            · rw [hsplit]
              exact List.forall_mem_append.2 ⟨hpass.consumes.fits, fits⟩
            · rw [hsplit]
              exact completes.right hpass.derives
        | @refused expected t pre post split fits completes again =>
            have hts : ts = (front ++ pre) ++ t :: post := by
              rw [hsplit, split, List.append_assoc]
            refine .refused hts ?_ ?_ ?_
            · exact List.forall_mem_append.2 ⟨hpass.consumes.fits, fits⟩
            · exact completes.right hpass.derives
            · intro ts' hts'
              rw [List.append_assoc] at hts'
              obtain ⟨us, ts', rfl, hus, hts'⟩ := hts'.of_append
              have hhead : Along ((pre ++ t :: post).take 1) ts' :=
                hts'.head_cons
              rw [← split] at hhead
              obtain ⟨e, he⟩ := again ts' hts'
              refine ⟨e, ?_⟩
              rw [kleisli_eq]
              simp only [hpass.again us ts' hus hhead, ok_bind, he]
        | @tooLarge use t pre post split fits numeral unfit completes =>
            have hts : ts = (front ++ pre) ++ t :: post := by
              rw [hsplit, split, List.append_assoc]
            refine .tooLarge hts ?_ numeral unfit fun s hs => ?_
            · exact List.forall_mem_append.2 ⟨hpass.consumes.fits, fits⟩
            · rw [List.append_assoc]
              exact (completes s hs).right hpass.derives

/-- One way behind the other, where the first one does not stay where it is. -/
theorem seq_lt (hX : Obeys b L₁ X₁ Y₁ ts) (hpos : [] ∉ L₁)
    (hL : Completes L₂ [])
    (h : ∀ rest, rest ≠ [] → rest.length < ts.length → Obeys b L₂ X₂ Y₂ rest) :
    Obeys b (chain L₁ L₂) (X₁ >=> X₂) (Y₁ >=> Y₂) ts := by
  refine hX.seq hL fun front rest hconsumes hderives => h rest hconsumes.more ?_
  have hfront : front ≠ [] := by
    rintro rfl
    exact hpos hderives.mem
  rw [hconsumes.split, List.length_append]
  have := List.length_pos_iff.2 hfront
  omega

/-- One way behind the other, where the first one may stay where it is. -/
theorem seq_le (hX : Obeys b L₁ X₁ Y₁ ts) (hL : Completes L₂ [])
    (h : ∀ rest, rest ≠ [] → rest.length ≤ ts.length → Obeys b L₂ X₂ Y₂ rest) :
    Obeys b (chain L₁ L₂) (X₁ >=> X₂) (Y₁ >=> Y₂) ts := by
  refine hX.seq hL fun front rest hconsumes _ => h rest hconsumes.more ?_
  rw [hconsumes.split, List.length_append]
  omega

/-- A way that is not taken leads nowhere, and needs the empty word. -/
theorem stay (hL : Derives L []) (hts : ts ≠ []) (hX : X ts = .ok ts)
    (hY : ∀ ts', Along (ts.take 1) ts' → Y ts' = .ok ts') :
    Obeys b L X Y ts where
  ok {rest} hok := by
    rw [hX] at hok
    cases hok
    refine ⟨[], .none hts, hL, fun front' rest' hfront hrest => ?_⟩
    rw [hfront.of_nil]
    exact hY rest' hrest
  error herr := by
    rw [hX] at herr
    cases herr

/-! ### Single tokens -/

variable {b' : ParseError}

/-- Consuming a token that is known. -/
theorem advance {p : Kind → Prop} (hp : p t.kind) (heof : t.kind ≠ .eof)
    (hfits : t.Fits) :
    Obeys b (oneOf p) (Parse.advance b) (Parse.advance b') (t :: us) where
  ok {rest} hok := by
    refine ⟨[t], consumes_of_advance hok hfits, derives_oneOf hp,
      fun front' rest' hfront hrest => ?_⟩
    obtain ⟨t', us', rfl, -, hnil⟩ := hfront.of_cons
    rw [hnil.of_nil]
    obtain ⟨-, -, hne⟩ := advance_eq_ok hok
    obtain ⟨r, rest, rfl⟩ := List.exists_cons_of_ne_nil hne
    obtain ⟨r', more, rfl, -, -⟩ := hrest.of_cons
    rfl
  error herr := by
    cases us with
    | nil =>
        cases herr
        exact .out (List.nil_append _).symm heof (by simpa using hfits)
          (derives_oneOf hp).completes
    | cons u us => cases herr

/-- A numeral without a value, where a numeral may stand. -/
theorem tooLarge {use : NumberUse}
    (hX : X (t :: us) = .error (.outOfRange use t))
    (hnumeral : t.kind = .integerConst ∨ t.kind = .realConst)
    (hunfit : ¬ t.Fits) (hL : oneOf (· = t.kind) ⊆ L) :
    Obeys b L X Y (t :: us) where
  ok hok := by
    rw [hX] at hok
    cases hok
  error herr := by
    rw [hX] at herr
    cases herr
    exact .tooLarge (List.nil_append _).symm (by simp) hnumeral hunfit
      fun s hs => ((derives_oneOf (p := (· = t.kind)) hs).mono hL).completes

/-- A token that is refused for its kind and text, where something else can be
written. -/
theorem refuse {expected : String}
    (hX : X (t :: us) = .error (.unexpected ⟨expected, t⟩))
    (hL : Completes L [])
    (hY : ∀ t' us', t.unplaced = t'.unplaced →
      ∃ err, Y (t' :: us') = .error err) : Obeys b L X Y (t :: us) where
  ok hok := by
    rw [hX] at hok
    cases hok
  error herr := by
    rw [hX] at herr
    cases herr
    refine .refused (List.nil_append _).symm (by simp) hL fun ts' hts' => ?_
    obtain ⟨t', us', rfl, ht, -⟩ := hts'.of_cons
    exact hY t' us' ht

/-- A token of a class is consumed, and any other token is refused, if something
of the class can be written. -/
theorem among {p : Kind → Bool} {expected : String} {s : Token} (hs : s.Sound)
    (hps : p s.kind = true) (heof : p .eof = false)
    (hfits : p t.kind = true → t.Fits) :
    Obeys b (oneOf (p · = true)) (Parse.among b p expected)
      (Parse.among b' p expected) (t :: us) := by
  by_cases hp : p t.kind = true
  · have heof' : t.kind ≠ .eof := by
      intro heq
      rw [heq, heof] at hp
      cases hp
    have hsame : ∀ t' us', t.unplaced = t'.unplaced →
        Parse.among b' p expected (t' :: us') =
          Parse.advance b' (t' :: us') := by
      intro t' us' ht
      rw [Token.kind_eq_of_unplaced ht] at hp
      exact if_pos hp
    exact .congr (if_pos hp) hsame (advance hp heof' (hfits hp))
  · refine .refuse (if_neg hp) (completes_oneOf hs hps) fun t' us' ht => ?_
    rw [Token.kind_eq_of_unplaced ht] at hp
    exact ⟨_, if_neg hp⟩

/-- A token of a kind is consumed, and any other token is refused. -/
theorem expect {k : Kind} {s : Token} (hs : s.Sound) (hk : s.kind = k)
    (heof : k ≠ .eof) (hfits : t.kind = k → t.Fits) :
    Obeys b (oneOf (· = k)) (skim (Parse.expect b k)) (skim (Parse.expect b' k))
      (t :: us) := by
  have hobeys : Obeys b (oneOf ((· == k) · = true))
      (Parse.among b (· == k) k.name) (Parse.among b' (· == k) k.name)
      (t :: us) :=
    among hs (beq_iff_eq.2 hk) (beq_false_of_ne heof.symm) fun h =>
      hfits (eq_of_beq h)
  refine .congr skim_expect (fun t' us' _ => skim_expect) (hobeys.mono ?_)
  rintro us ⟨u, hu, rfl⟩
  exact ⟨u, eq_of_beq hu, rfl⟩

/-- A way that the next token decides on. -/
theorem optionally {p : Kind → Prop} [DecidablePred p] (hts : ts ≠ [])
    (h : p (peek ts) → Obeys b L X Y ts) :
    Obeys b (maybe L) (Parse.optionally p X) (Parse.optionally p Y) ts := by
  obtain ⟨t, us, rfl⟩ := List.exists_cons_of_ne_nil hts
  by_cases hp : p t.kind
  · have hsame : ∀ t' us', t.unplaced = t'.unplaced →
        Parse.optionally p Y (t' :: us') = Y (t' :: us') := by
      intro t' us' ht
      rw [Token.kind_eq_of_unplaced ht] at hp
      exact if_pos hp
    exact .congr (if_pos hp) hsame ((h hp).mono fun _ => .inr)
  · refine .stay derives_maybe hts (if_neg hp) fun ts' hts' => ?_
    obtain ⟨t', us', rfl, ht, -⟩ := hts'.of_cons
    rw [Token.kind_eq_of_unplaced ht] at hp
    exact if_neg hp

end Obeys

end Parse

end Fixture
