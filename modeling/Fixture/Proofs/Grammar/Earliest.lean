import Fixture.Proofs.Grammar.Viable
import Fixture.Proofs.Layout
/-!
# Errors come as early as they can

A source that is no program is refused at the first token that no program goes
on with. Everything in front of the token at fault begins some program, and
together with it nothing does. If the scanner stopped, or if a numeral has no
value, then all that was read up to there still begins some program.

Both halves come from `Parse.program_obeys`. What was consumed begins a word of
the grammar, and a word of tokens that can be written is written as a source, so
it begins a program. On the other hand the reader looks no further than at the
token it refuses. Had a program the same tokens up to there, it would be refused
as well.

## Main results

* `completable_of_completes`: what begins a word of the grammar begins a
  program.
* `parse_error_timely`: an error comes as early as it can.
-/

namespace Fixture

open Grammar Parse

/-! ## Beginnings of programs -/

/-- The tokens begin those of a program, places aside. The end of the source
counts as a token. -/
def Completable (us : List Token) : Prop :=
  ∃ src p, parse src = .ok p ∧ Along us (scan src).tokens

/-- Tokens written one behind the other, with a blank behind each. -/
def spaced (us : List Token) : List UInt8 :=
  us.flatMap fun t => bytesOf t.literal ++ [32]

private theorem reads_spaced {us : List Token} (h : ∀ t ∈ us, t.Spelt) :
    Reads (spaced us) (us.map Token.unplaced) := by
  induction us with
  | nil => exact .nil
  | cons t us ih =>
      obtain ⟨ht, hus⟩ := List.forall_mem_cons.1 h
      have hrest : Reads (32 :: spaced us) (us.map Token.unplaced) :=
        (ih hus).blank rfl
      have hread := Writes.token ht _ _ (.cons rfl _) hrest
      rwa [spaced, List.flatMap_cons, List.append_assoc]

private theorem Alike.fits {us vs : List Token} (h : Alike us vs)
    (hus : ∀ t ∈ us, t.Fits) : ∀ t ∈ vs, t.Fits := by
  intro t ht
  have hmem : t.unplaced ∈ us.map Token.unplaced := h ▸ List.mem_map_of_mem ht
  obtain ⟨s, hs, heq⟩ := List.mem_map.1 hmem
  exact Token.fits_of_unplaced heq.symm (hus s hs).unplaced

/-- **What begins a word of the grammar begins a program,** if it can be
written. -/
theorem completable_of_completes {us : List Token} (hus : ∀ t ∈ us, t.Sound)
    (h : Completes (Set.range Grammar.Program.tokens) us) : Completable us := by
  obtain ⟨w, hw, hderives⟩ := h
  have hsound : ∀ t ∈ us ++ w, t.Sound := List.forall_mem_append.2 ⟨hus, hw⟩
  obtain ⟨-, hread⟩ := (reads_spaced fun t ht => (hsound t ht).1).scan
  obtain ⟨vs, es, hscan, hvs, hes⟩ := List.map_eq_append_iff.1 hread
  obtain ⟨e, rfl, he⟩ := List.map_eq_singleton_iff.1 hes
  have hkind : e.kind = .eof := congrArg Token.kind he
  have halike : Alike (us ++ w) vs := hvs.symm
  obtain ⟨d, rfl⟩ := hderives vs halike
  have hfits : ∀ t ∈ d.tokens ++ [e], t.Fits :=
    List.forall_mem_append.2 ⟨halike.fits fun t ht => (hsound t ht).2, by
      simpa using fits_of_kind hkind rfl⟩
  refine ⟨_, d.tree, parse_complete (d := ⟨d, ⟨e, hkind⟩⟩) hscan.symm hfits, ?_⟩
  obtain ⟨us', w', hsplit, hus', -⟩ := halike.of_append
  exact ⟨us', w' ++ [e], by rw [hscan, hsplit, List.append_assoc], hus'⟩

/-! ## The reader on a source -/

/-- An answer that is an error whatever is made of it. -/
theorem error_of_map {α β : Type} {x : Except ParseError α} {f : α → β}
    {e : ParseError} (h : f <$> x = .error e) : x = .error e := by
  cases x with
  | ok a => cases h
  | error e' =>
      cases h
      rfl

/-- The error that stands behind the last token. -/
def Scan.behind (s : Scan) : ParseError :=
  match s.failure with
  | some e => .lexical e
  | none => .exhausted

private theorem Scan.behind_ne_unexpected (s : Scan) (e : SyntaxError) :
    s.behind ≠ .unexpected e := by
  rw [Scan.behind]
  split <;> exact ParseError.noConfusion

theorem parse_eq (src : List UInt8) :
    parse src =
      program (scan src).behind (budget (scan src).tokens.length)
        (scan src).tokens := rfl

/-- Without an error the end of the source is the last token. -/
theorem scan_last {src : List UInt8} (h : (scan src).failure = none) :
    ∃ (us : List Token) (t : Token), (scan src).tokens = us ++ [t] ∧
      t.kind = .eof := by
  obtain ⟨l, hl, -, htokens⟩ :=
    Layout.exists_of_upTo _ (.ofSource src) (Nat.lt_succ_self _) h
  obtain ⟨us, heq, -⟩ := Layout.tokens_eq hl (Cursor.ofSource src).pos
  exact ⟨us, _, htokens.symm.trans heq, rfl⟩

/-- Where a source is refused, at any budget for the programs that it is
compared with. -/
private theorem stuck_of_parse {src : List UInt8} {err : ParseError}
    (h : parse src = .error err) (hne : (scan src).tokens ≠ []) {m : Nat}
    (hm : budget (scan src).tokens.length ≤ m) :
    Stuck (scan src).behind (Set.range Grammar.Program.tokens)
      (frame .exhausted m >=> atEnd .exhausted) (scan src).tokens err := by
  refine (program_obeys hm hne (by rw [budget]; omega)).error ?_
  have hway : (fun _ => ()) <$> parse src = _ := skim_program
  rw [h] at hway
  exact error_of_map hway.symm

/-- A program is not refused at a budget that is large enough for it. -/
private theorem not_refused_of_parse {src : List UInt8} {p : Program}
    (h : parse src = .ok p) {m : Nat} (hm : 4 * (scan src).tokens.length ≤ m)
    {err : ParseError} :
    (frame .exhausted m >=> atEnd .exhausted) (scan src).tokens ≠
      .error err := by
  obtain ⟨d, hd, hfits, -, -⟩ := parse_sound h
  rw [Source.tokens] at hd hfits
  rw [← hd] at hm ⊢
  rw [List.length_append] at hm
  intro hres
  have hread : program .exhausted m (d.program.tokens ++ [d.eof.val]) =
      .ok d.program.tree :=
    program_complete _ d.program d.eof [] m (by omega) fun t ht =>
      hfits t (List.mem_append_left _ ht)
  have hway : (fun _ => ()) <$>
        program .exhausted m (d.program.tokens ++ [d.eof.val]) = _ :=
    skim_program
  rw [hread, hres] at hway
  cases hway

/-- Without a token there is an error of the scanner, and it is the answer. -/
private theorem parse_nil {src : List UInt8} (h : (scan src).tokens = []) :
    ∃ e, (scan src).failure = some e ∧ parse src = .error (.lexical e) := by
  cases hfailure : (scan src).failure with
  | none =>
      obtain ⟨us, t, hlast, -⟩ := scan_last hfailure
      rw [h] at hlast
      exact absurd hlast.symm (by simp)
  | some e =>
      refine ⟨e, rfl, ?_⟩
      rw [parse_eq, h, Scan.behind, hfailure]
      rfl

/-! ## Errors -/

/-- A real to go on with. -/
def anyReal : Token := ⟨.realConst, "0.0", .nowhere⟩

private theorem sound_anyReal : anyReal.Sound := by
  have hvalue : (Numeral.real? anyReal.literal).isSome = true := by
    decide +kernel
  obtain ⟨x, hx⟩ := Option.isSome_iff_exists.1 hvalue
  refine ⟨⟨[48, 46, 48], ?_, rfl⟩, fits_of_real? rfl hx⟩
  exact Lexeme.Spelt.real (b := 48) (d := 48) (w := []) (v := [])
    (List.forall_mem_singleton.2 rfl) (List.forall_mem_singleton.2 rfl)

/-- There are numerals of both kinds that fit. -/
private theorem exists_numeral {k : Kind}
    (hk : k = .integerConst ∨ k = .realConst) :
    ∃ s : Token, s.kind = k ∧ s.Sound := by
  rcases hk with rfl | rfl
  · exact ⟨anyNumber, rfl, sound_anyNumber⟩
  · exact ⟨anyReal, rfl, sound_anyReal⟩

/-- The error of a source comes as early as it can. -/
def ParseError.Timely (src : List UInt8) : ParseError → Prop
  -- The tokens in front of the one that is reported begin a program, and
  -- together with it they do not.
  | .unexpected e =>
    ∃ pre post, (scan src).tokens = pre ++ e.found :: post ∧ Completable pre ∧
      ¬ Completable (pre ++ [e.found])
  -- The error is where the scanner stopped, and all tokens up to there begin a
  -- program.
  | .lexical e => (scan src).failure = some e ∧ Completable (scan src).tokens
  -- The tokens in front of the numeral begin a program, with any numeral of its
  -- kind behind them that fits.
  | .outOfRange _ t =>
    ∃ pre post, (scan src).tokens = pre ++ t :: post ∧ ¬ t.Fits ∧
      (∃ s : Token, s.kind = t.kind ∧ s.Sound) ∧
      ∀ s : Token, s.kind = t.kind → s.Sound → Completable (pre ++ [s])
  | .exhausted => False

/-- A source that ends in an error of the scanner, where all its tokens begin a
word of the grammar. -/
private theorem timely_behind {src : List UInt8} {front : List Token}
    {last : Token} (hsplit : (scan src).tokens = front ++ [last])
    (hlast : last.kind ≠ .eof) (hfits : ∀ t ∈ (scan src).tokens, t.Fits)
    (h : Completes (Set.range Grammar.Program.tokens) (scan src).tokens) :
    (scan src).behind.Timely src := by
  cases hfailure : (scan src).failure with
  | none =>
      obtain ⟨us, t, hend, heof⟩ := scan_last hfailure
      obtain rfl : last = t :=
        List.singleton_inj.1
          (List.append_inj_right' (hsplit.symm.trans hend) rfl)
      exact absurd heof hlast
  | some e =>
      have hsound : ∀ t ∈ (scan src).tokens, t.Sound := by
        refine fun t ht =>
          ⟨Token.spelt_of_mem_scan ht fun heof => ?_, hfits t ht⟩
        obtain ⟨pre, post, hmem⟩ := List.append_of_mem ht
        cases hfailure.symm.trans (Scan.upTo_eof _ _ hmem heof).2
      rw [Scan.behind, hfailure]
      exact ⟨hfailure, completable_of_completes hsound h⟩

/--
**Errors come as early as they can.** If a source is no program, then the token
that the error reports is the first one with which its tokens do not begin a
program any more. All that comes before an error of the scanner begins a
program, and so does all that comes before a numeral out of range, with a
numeral in range for it.
-/
theorem parse_error_timely {src : List UInt8} {err : ParseError}
    (h : parse src = .error err) : err.Timely src := by
  by_cases hne : (scan src).tokens = []
  · obtain ⟨e, hfailure, hlexical⟩ := parse_nil hne
    cases h.symm.trans hlexical
    refine ⟨hfailure, ?_⟩
    rw [hne]
    exact completable_of_completes (by simp) completes_program
  · cases stuck_of_parse h hne le_rfl with
    | out split more fits completes =>
        exact timely_behind split more fits completes
    | @refused expected t pre post split fits completes again =>
        have hsound : ∀ u ∈ pre, u.Sound :=
          fun u hu => ⟨spelt_of_scan_eq split u hu, fits u hu⟩
        refine ⟨pre, post, split, completable_of_completes hsound completes, ?_⟩
        rintro ⟨src', p, hp, halong⟩
        -- At a budget that does for both sources the refusal is at the same
        -- token, and goes for the other source too.
        have hbudget := le_max_left (budget (scan src).tokens.length)
          (4 * (scan src').tokens.length)
        have hstuck := stuck_of_parse h hne hbudget
        generalize hb : (scan src).behind = b at hstuck
        cases hstuck with
        | out => exact absurd hb (Scan.behind_ne_unexpected _ _)
        | refused split' fits' completes' again' =>
            rw [← Scan.split_unique split split'] at again'
            obtain ⟨e, he⟩ := again' _ halong
            exact not_refused_of_parse hp (le_max_right _ _) he
    | @tooLarge use t pre post split fits numeral unfit completes =>
        have hsound : ∀ u ∈ pre, u.Sound :=
          fun u hu => ⟨spelt_of_scan_eq split u hu, fits u hu⟩
        refine ⟨pre, post, split, unfit, exists_numeral numeral,
          fun s hk hs => ?_⟩
        exact completable_of_completes
          (List.forall_mem_append.2 ⟨hsound, by simpa using hs⟩)
          (completes s hk)

/-- A source with a number too many inside a branch. -/
def strayNumber : List UInt8 :=
  asciiBytes "PROGRAM p; BEGIN IF x > 1: x := 1 2 ENDIF END."

/-- The number that is too many. -/
def strayToken : Token := ⟨.integerConst, "2", ⟨1, 35⟩⟩

theorem parse_error_timely_strayNumber :
    parse strayNumber = .error (.unexpected ⟨"ENDIF", strayToken⟩) ∧
    ∃ pre post, (scan strayNumber).tokens = pre ++ strayToken :: post ∧
      Completable pre ∧ ¬ Completable (pre ++ [strayToken]) := by
  have hfail : (fun _ => ()) <$> parse strayNumber =
      .error (.unexpected ⟨"ENDIF", strayToken⟩) := by decide +kernel
  exact ⟨error_of_map hfail, parse_error_timely (error_of_map hfail)⟩

end Fixture
