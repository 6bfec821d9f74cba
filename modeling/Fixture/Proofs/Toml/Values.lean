import Fixture.Proofs.Toml
import Fixture.Toml.Package
/-!
# Texts of values read back

A value stands behind an equals sign, and a line end follows it. A text is
read up to its closing quote, since the quotes and backslashes within it are
escaped; it is not taken for a text over several lines, which begins with
three quotes. A number is read up to the line end, since its digits, its point
and its exponent go on for as long as they can, and none of them goes on with
a line end; it is not taken for a date, whose digits end in a dash or a colon.

## Main results

* `exists_spells`: a text that stands for a value is read as a literal that
  means the value.
* `fill_of_means`: a field takes a literal that means a value of its type.
-/

namespace Fixture.Toml

namespace Document

attribute [local simp] quotedText digitRun digits? sign whole? fraction
  exponent number? just? digit? twoDigits? nextTwo? timeOfDay? day? date?
  longText? shortText? text? truth? simple?

/-- A text is read as a literal, up to the line end that follows. -/
def Spells (text : List Char) (v : Literal) : Prop :=
  ∀ line rest, simple? line (dropBlanks (text ++ '\n' :: rest)) =
    some (.literal v, line, '\n' :: rest)

theorem dropBlanks_cons {c : Char} (hc : isGapChar c = false)
    (cs : List Char) : dropBlanks (c :: cs) = c :: cs := by
  rw [dropBlanks, List.dropWhile_cons, hc]
  rfl

/-! ## Texts -/

private theorem quotedText_of_unescapes {body cs : List Char}
    (h : Unescapes body cs) (rest : List Char) :
    quotedText .plain (body ++ '"' :: rest) = some (some cs, rest) := by
  induction h with
  | nil => simp
  | plain low quote slash _ ih =>
      simp [low, quote, slash, ih, ReadText.push]
  | quote _ ih => simp [escape?, ih, ReadText.push]
  | slash _ ih => simp [escape?, ih, ReadText.push]

/-- A text on one line does not begin with three quotes. -/
private theorem longText?_of_unescapes {body cs : List Char}
    (h : Unescapes body cs) (line : Nat) (rest : List Char) :
    longText? line ('"' :: (body ++ '"' :: '\n' :: rest)) = none := by
  cases h with
  | nil | quote | slash => rfl
  | plain low quote slash _ =>
      unfold longText?
      split
      next heq =>
        rw [List.cons_append, List.cons.injEq, List.cons.injEq] at heq
        exact absurd heq.2.1 quote
      next => rfl

private theorem date?_of_head {c : Char} (hc : c.isDigit = false)
    (cs : List Char) : date? (c :: cs) = none := by
  simp [hc]

private theorem number?_quote (cs : List Char) : number? ('"' :: cs) = none :=
  rfl

private theorem spells_text {body cs : List Char} (h : Unescapes body cs) :
    Spells ('"' :: (body ++ ['"'])) (.text (String.ofList cs)) := by
  intro line rest
  have htext : '"' :: (body ++ ['"']) ++ '\n' :: rest =
      '"' :: (body ++ '"' :: '\n' :: rest) := by simp
  have hdate : date? ('"' :: (body ++ '"' :: '\n' :: rest)) = none :=
    date?_of_head (by decide) _
  rw [htext, dropBlanks_cons (by decide)]
  simp only [simple?, hdate, number?_quote, text?, shortText?, if_true,
    longText?_of_unescapes h, quotedText_of_unescapes h]
  rfl

/-! ## Numbers are no dates -/

private theorem dropWhile_of_twoDigits? {cs rest : List Char}
    (h : twoDigits? cs = some rest) :
    rest.dropWhile Char.isDigit = cs.dropWhile Char.isDigit := by
  have hdigit {cs rest : List Char} (h : digit? cs = some rest) :
      rest.dropWhile Char.isDigit = cs.dropWhile Char.isDigit := by
    cases cs with
    | nil => cases h
    | cons c cs =>
        rw [digit?] at h
        split at h
        next hc =>
          cases h
          rw [List.dropWhile_cons_of_pos hc]
        next => cases h
  obtain ⟨mid, hmid, hrest⟩ := Option.bind_eq_some_iff.1 h
  exact (hdigit hrest).trans (hdigit hmid)

/-- Digits that end in something else are not followed by a separator. -/
private theorem bind_nextTwo?_eq_none {o : Option (List Char)} {c : Char}
    {stop : List Char} (hc : c.isDigit = false) (hstop : stop.head? ≠ some c)
    (ho : ∀ rest ∈ o, rest.dropWhile Char.isDigit = stop) :
    o.bind (nextTwo? c) = none := by
  cases o with
  | none => rfl
  | some rest =>
      have hrest := ho rest rfl
      cases rest with
      | nil => rfl
      | cons d rest =>
          have hne : d ≠ c := by
            rintro rfl
            rw [List.dropWhile_cons_of_neg (by simp [hc])] at hrest
            rw [← hrest] at hstop
            exact hstop rfl
          simp [hne]

/-- Digits are no date if neither a dash nor a colon follows them. -/
private theorem date?_digits {ds stop : List Char} (hds : AllDigits ds)
    (hstop : ∀ c ∈ stop.head?, c.isDigit = false ∧ c ≠ '-' ∧ c ≠ ':') :
    date? (ds ++ stop) = none := by
  have hdrop : (ds ++ stop).dropWhile Char.isDigit = stop :=
    (span_append hds fun c hc => (hstop c hc).1).2
  have hdash : stop.head? ≠ some '-' := fun h => (hstop _ h).2.1 rfl
  have hcolon : stop.head? ≠ some ':' := fun h => (hstop _ h).2.2 rfl
  have htwo : ∀ rest ∈ twoDigits? (ds ++ stop),
      rest.dropWhile Char.isDigit = stop :=
    fun rest hrest => (dropWhile_of_twoDigits? hrest).trans hdrop
  have hfour : ∀ rest ∈ (twoDigits? (ds ++ stop)).bind twoDigits?,
      rest.dropWhile Char.isDigit = stop := by
    intro rest hrest
    obtain ⟨mid, hmid, hrest⟩ := Option.bind_eq_some_iff.1 hrest
    exact (dropWhile_of_twoDigits? hrest).trans (htwo mid hmid)
  simp only [date?, day?, timeOfDay?,
    bind_nextTwo?_eq_none (by decide) hdash hfour,
    bind_nextTwo?_eq_none (by decide) hcolon htwo]
  rfl

/-! ## Numbers -/

/-- What digits do not go on with. -/
private def Ends (cs : List Char) : Prop :=
  ∀ c ∈ cs.head?, c.isDigit = false ∧ c ≠ '_'

private theorem ends_cons {c : Char} (h : c.isDigit = false ∧ c ≠ '_')
    (cs : List Char) : Ends (c :: cs) := by
  rintro d ⟨⟩
  exact h

section Digits

variable {ds cs : List Char} (hds : AllDigits ds) (hcs : Ends cs)
include hds hcs

private theorem digitRun_append : digitRun (ds ++ cs) = (ds, cs) := by
  induction ds with
  | nil =>
      cases cs with
      | nil => rfl
      | cons c cs =>
          obtain ⟨hdigit, hscore⟩ := hcs c rfl
          simp [hdigit, hscore]
  | cons d ds ih =>
      obtain ⟨hd, hds⟩ := List.forall_mem_cons.1 hds
      have hscore : d ≠ '_' :=
        ne_of_apply_ne Char.isDigit (by rw [hd]; decide)
      simp [hd, hscore, ih hds]

private theorem digits?_append (hne : ds ≠ []) :
    digits? (ds ++ cs) = some (ds, cs) := by
  obtain ⟨d, ds, rfl⟩ := List.exists_cons_of_ne_nil hne
  obtain ⟨hd, hds⟩ := List.forall_mem_cons.1 hds
  simp [hd, digitRun_append hds hcs]

end Digits

/-- A whole number is read to its end. -/
private theorem whole?_append {ds cs : List Char} (hds : WholeDigits ds)
    (hcs : Ends cs) : whole? (ds ++ cs) = some (ds, cs) := by
  obtain ⟨hdigits, hne, hzero⟩ := hds
  obtain ⟨d, ds, rfl⟩ := List.exists_cons_of_ne_nil hne
  by_cases hd : d = '0'
  · subst hd
    rw [hzero rfl]
    rfl
  · rw [← digits?_append hdigits hcs hne]
    simp [hd]

private theorem sign_signText (negative : Bool) {d : Char}
    (hd : d.isDigit = true) (cs : List Char) :
    sign (signText negative ++ d :: cs) = (signText negative, d :: cs) := by
  have hother (c : Char) (hc : c.isDigit = false) : d ≠ c :=
    ne_of_apply_ne Char.isDigit (by simp [hd, hc])
  cases negative with
  | true => rfl
  | false =>
      simp [signText, hother '-' (by decide), hother '+' (by decide)]

/--
What a numeral with digits first is read as, if there is something behind them
that belongs to it.
-/
private theorem number?_eq (negative : Bool) {ds f e cs : List Char}
    (hds : WholeDigits ds) (hends : Ends (f ++ (e ++ cs)))
    (hf : fraction (f ++ (e ++ cs)) = (f, e ++ cs))
    (he : exponent (e ++ cs) = (e, cs)) :
    number? (signText negative ++ ds ++ (f ++ (e ++ cs))) =
      some (if f.isEmpty && e.isEmpty then
        .integer (String.ofList (signText negative ++ ds))
        else .float (String.ofList (signText negative ++ ds ++ f ++ e)),
          cs) := by
  have hwhole := whole?_append hds hends
  obtain ⟨d, ds, rfl⟩ := List.exists_cons_of_ne_nil hds.ne_nil
  have hsign := sign_signText negative (hds.digits d List.mem_cons_self)
    (ds ++ (f ++ (e ++ cs)))
  rw [← List.cons_append] at hsign
  rw [List.append_assoc]
  simp only [number?, hsign, hwhole, hf, he]
  split <;> rfl

/-- A numeral is read as a number, unless it goes on as a date does. -/
private theorem spells_of_number? (negative : Bool) {ds tail : List Char}
    {v : Literal} (hds : AllDigits ds) (hne : ds ≠ [])
    (htail : ∀ c ∈ (tail ++ ['\n']).head?,
      c.isDigit = false ∧ c ≠ '-' ∧ c ≠ ':')
    (h : ∀ rest, number? (signText negative ++ ds ++ (tail ++ '\n' :: rest)) =
      some (v, '\n' :: rest)) : Spells (signText negative ++ ds ++ tail) v := by
  intro line rest
  have hstop : ∀ c ∈ (tail ++ '\n' :: rest).head?,
      c.isDigit = false ∧ c ≠ '-' ∧ c ≠ ':' := by
    cases tail with
    | nil => exact htail
    | cons c tail => exact htail
  have hdate : date? (signText negative ++ ds ++ (tail ++ '\n' :: rest)) =
      none := by
    cases negative with
    | true => exact date?_of_head (by decide) _
    | false => exact date?_digits hds hstop
  have hblank : dropBlanks (signText negative ++ ds ++ (tail ++ '\n' :: rest))
      = signText negative ++ ds ++ (tail ++ '\n' :: rest) := by
    cases negative with
    | true => rfl
    | false =>
        obtain ⟨d, ds, rfl⟩ := List.exists_cons_of_ne_nil hne
        have hd : d.isDigit = true := hds d List.mem_cons_self
        have hother (c : Char) (hc : c.isDigit = false) : d ≠ c :=
          ne_of_apply_ne Char.isDigit (by simp [hd, hc])
        refine dropBlanks_cons ?_ _
        simp [isGapChar, hother ' ' (by decide), hother '\t' (by decide)]
  rw [List.append_assoc, hblank]
  simp only [simple?, hdate, h rest]

private theorem spells_integer (negative : Bool) {ds : List Char}
    (hds : WholeDigits ds) : Spells (signText negative ++ ds)
      (.integer (String.ofList (signText negative ++ ds))) := by
  have hread (rest : List Char) :
      number? (signText negative ++ ds ++ ([] ++ '\n' :: rest)) =
        some (.integer (String.ofList (signText negative ++ ds)),
          '\n' :: rest) :=
    number?_eq negative (f := []) (e := []) hds
      (ends_cons (by decide) rest) rfl rfl
  have hstop : ∀ c ∈ ([] ++ ['\n']).head?,
      c.isDigit = false ∧ c ≠ '-' ∧ c ≠ ':' := by
    rintro c ⟨⟩
    decide
  rw [← List.append_nil (signText negative ++ ds)]
  simpa using spells_of_number? negative hds.digits hds.ne_nil hstop hread

private theorem spells_scientific (s : Scientific) :
    Spells s.text (.float (String.ofList s.text)) := by
  have hfirst : WholeDigits [s.first] := by
    refine ⟨List.forall_mem_singleton.2 s.first_isDigit, by simp, ?_⟩
    simp
  have hmark (cs : List Char) : Ends (s.exponent ++ cs) :=
    ends_cons (by decide) _
  have hexponent (rest : List Char) : exponent (s.exponent ++ '\n' :: rest) =
      (s.exponent, '\n' :: rest) := by
    have hpower := digits?_append s.power_digits
      (ends_cons (c := '\n') (by decide) rest) s.power_ne_nil
    rw [Scientific.exponent]
    cases s.below <;> simp [-digits?, hpower]
  have hfraction (rest : List Char) :
      fraction (s.fraction ++ (s.exponent ++ '\n' :: rest)) =
        (s.fraction, s.exponent ++ '\n' :: rest) := by
    rw [Scientific.fraction]
    by_cases hempty : s.behind = []
    · simp [hempty, Scientific.exponent]
    · simp [-digits?, hempty, digits?_append s.behind_digits (hmark _)]
  have hends (rest : List Char) :
      Ends (s.fraction ++ (s.exponent ++ '\n' :: rest)) := by
    rw [Scientific.fraction]
    split
    · exact hmark _
    · exact ends_cons (by decide) _
  have htext : s.text =
      signText s.negative ++ [s.first] ++ (s.fraction ++ s.exponent) := by
    simp [Scientific.text]
  have hread (rest : List Char) : number? (signText s.negative ++ [s.first] ++
      (s.fraction ++ s.exponent ++ '\n' :: rest)) =
        some (.float (String.ofList s.text), '\n' :: rest) := by
    have h := number?_eq s.negative hfirst (hends rest) (hfraction rest)
      (hexponent rest)
    rw [htext]
    simpa [Scientific.exponent] using h
  have hstop : ∀ c ∈ (s.fraction ++ s.exponent ++ ['\n']).head?,
      c.isDigit = false ∧ c ≠ '-' ∧ c ≠ ':' := by
    rw [Scientific.fraction, Scientific.exponent]
    split
    · rintro c ⟨⟩
      decide
    · rintro c ⟨⟩
      decide
  have hspells := spells_of_number? s.negative hfirst.digits hfirst.ne_nil
    hstop hread
  rwa [← htext] at hspells

private theorem spells_true : Spells "true".toList (.truth true) :=
  fun _ _ => rfl

private theorem spells_false : Spells "false".toList (.truth false) :=
  fun _ _ => rfl

end Document

/-! ## What literals mean -/

open Document

/-- The value that a literal stands for. -/
inductive Means : Literal → Scalar → Prop where
  | text (s : String) : Means (.text s) (.text s)
  | integer {digits : String} {n : Int64}
      (h : Numeral.signedInteger? digits.toList = some n) :
      Means (.integer digits) (.integer n)
  | float {digits : String} {x : Float}
      (h : Numeral.decimal? digits.toList = some x) :
      Means (.float digits) (.float x)
  | truth (b : Bool) : Means (.truth b) (.truth b)

/-- **A text that stands for a value** is read as a literal that means it. -/
theorem exists_spells {text : String} {v : Scalar}
    (h : package.Reads text v) :
    ∃ lit, Spells text.toList lit ∧ Means lit v := by
  cases h with
  | text h =>
      rw [String.toList_ofList]
      exact ⟨_, spells_text h, .text _⟩
  | integer negative hds hn =>
      rw [← String.toList_ofList (l := signText negative ++ _)] at hn
      rw [String.toList_ofList]
      exact ⟨_, spells_integer negative hds, .integer hn⟩
  | float s hx =>
      rw [String.toList_ofList]
      exact ⟨_, spells_scientific s, .float hx⟩
  | isTrue => exact ⟨_, spells_true, .truth true⟩
  | isFalse => exact ⟨_, spells_false, .truth false⟩

/-- **A field takes a literal** that means a value of its type. -/
theorem fill_of_means {α : Type} {f : FieldShape α} {c c' : α} {v : Scalar}
    {lit : Literal} (h : Means lit v) (hset : f.access.set? c v = some c')
    (owner : String) (line : Nat) :
    f.fill owner c (.value line lit) = .ok c' := by
  obtain ⟨name, type, kind, omitEmpty, access⟩ := f
  cases h <;> cases access <;> cases hset
  case text.text => rfl
  case integer.integer h _ _ => simp only [FieldShape.fill, h]
  case float.float h _ _ => simp only [FieldShape.fill, h]
  case truth.truth => rfl

end Fixture.Toml
