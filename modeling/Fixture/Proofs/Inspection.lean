import Fixture.Proofs.Decimal.Positional
import Fixture.Proofs.Evaluation.Order
import Fixture.Proofs.Grammar.Earliest
/-!
# Values read back as they are shown

A listing shows a value as a text, and the text is an expression of the
language: a literal, or a sign with a literal behind it. Put into a program, it
is read and evaluated to the value it came from, with its kind and, for a zero,
with its sign.

Three things could go wrong and do not. A double is shown with a fraction, so it
is no integer when it is read, and with so many digits that no other double is
nearer to them. A negative number is not one token but two, so its size has to
be read by itself and has to fit by itself. The one value for which it does not
is the least integer, whose size is one more than the greatest.

## Main results

* `Value.shown_inspect`: the text of a value is a literal with or without a
  sign.
* `parse_inspect`: what is shown can be assigned, and is the value again.
-/

namespace Fixture

open Grammar

attribute [local simp] Expr.render Expr.eval Value.withSign

/-! ## Tokens -/

/-- Two rows of digits with a point between them are a numeral. -/
private theorem Token.spelt_real {whole fraction : List Char}
    (hwhole : AllDigits whole) (hfraction : AllDigits fraction)
    (hne : whole ≠ []) (hne' : fraction ≠ []) :
    Token.Spelt
      ⟨.realConst, String.ofList (whole ++ '.' :: fraction), .nowhere⟩ := by
  obtain ⟨b, bs, rfl⟩ := List.exists_cons_of_ne_nil hne
  obtain ⟨c, cs, rfl⟩ := List.exists_cons_of_ne_nil hne'
  have hbytes {ds : List Char} (hds : AllDigits ds) :
      ∀ b ∈ ds.map (fun c => UInt8.ofNat c.toNat), isDigit b = true := by
    intro b hb
    obtain ⟨d, hd, rfl⟩ := List.mem_map.1 hb
    exact (isDigit_byte (hds d hd)).2
  have hascii : ∀ d ∈ (String.ofList (b :: bs ++ '.' :: c :: cs)).toList,
      d.toNat < 128 := by
    intro d hd
    rw [String.toList_ofList] at hd
    rcases List.mem_append.1 hd with hd | hd
    · exact (isDigit_byte (hwhole d hd)).1
    · rcases List.mem_cons.1 hd with rfl | hd
      · decide
      · exact (isDigit_byte (hfraction d hd)).1
  refine ⟨asciiBytes (String.ofList (b :: bs ++ '.' :: c :: cs)), ?_,
    (textOf_asciiBytes hascii).symm⟩
  rw [asciiBytes, String.toList_ofList, List.map_append]
  exact Lexeme.Spelt.real (hbytes hwhole) (hbytes hfraction)

/-- The token of a truth value. -/
def truthToken (b : Bool) : Token :=
  ⟨.boolConst, if b then "TRUE" else "FALSE", .nowhere⟩

private theorem spelt_truthToken (b : Bool) : (truthToken b).Spelt := by
  cases b with
  | true =>
      exact ⟨[84, 82, 85, 69],
        .word (b := 84) (w := [82, 85, 69]) rfl (by decide +kernel), rfl⟩
  | false =>
      exact ⟨[70, 65, 76, 83, 69],
        .word (b := 70) (w := [65, 76, 83, 69]) rfl (by decide +kernel), rfl⟩

/-! ## Literals -/

/-- The value of an expression that is a literal. -/
@[simp] def Expr.literal? : Expr → Option Value
  | .integer _ n => some (.integer n)
  | .real _ x => some (.real x)
  | .boolean _ b => some (.boolean b)
  | _ => none

private theorem Expr.literal?_unplaced (e : Expr) :
    e.unplaced.literal? = e.literal? := by
  cases e <;> rfl

/-- Literals are evaluated without tables. -/
private theorem Expr.eval_of_literal? {e : Expr} {v : Value}
    (h : e.literal? = some v) (values : Table Value) :
    e.eval values = .ok v := by
  cases e with
  | integer | real | boolean =>
      cases h
      rfl
  | name | signed | binary => cases h

namespace Value

/-- Values whose text is an expression: all but waypoints, the least integer and
doubles that are no numbers. -/
def Writable : Value → Prop
  | integer n => n ≠ Int64.minValue
  | real x => x.isFinite = true
  | boolean _ => True
  | waypoint _ _ => False

/-- Texts that show a value: a literal with that value, or a minus sign and a
literal with the opposite value. -/
inductive Shown (v : Value) : String → Prop where
  | plain {e : Expr} (legible : e.Legible) (value : e.literal? = some v) :
      Shown v e.render
  | minus {e : Expr} {u : Value} (legible : e.Legible)
      (value : e.literal? = some u)
      (sign : ∀ op : Token, op.kind = .minus → u.withSign op = .ok v) :
      Shown v ("-" ++ e.render)

private theorem shown_integer {n : Int64} (h : n ≠ Int64.minValue) :
    (integer n).Shown (toString n.toInt) := by
  have hmin : n.toInt ≠ -2 ^ 63 :=
    fun hn => h (Int64.toInt_inj.1 (hn.trans Int64.toInt_minValue.symm))
  have hlow := n.le_toInt
  have hhigh := n.toInt_lt
  have hlegible {k : Nat} (hk : k < 2 ^ 63) : (Expr.integer
      ⟨.integerConst, toString k, .nowhere⟩ (Int64.ofNat k)).Legible := by
    refine ⟨rfl, Token.spelt_numeral k _, ⟨fun _ => ?_, Kind.noConfusion⟩, ?_⟩
    · rwa [digits_toString]
    · rw [digits_toString]
  cases hn : n.toInt with
  | ofNat k =>
      have hk : k < 2 ^ 63 := Int.ofNat_lt.1 (lt_of_eq_of_lt hn.symm hhigh)
      have hvalue : Int64.ofNat k = n :=
        Int64.toInt_inj.1 (by rw [Int64.toInt_ofNat_of_lt hk, hn]; rfl)
      exact .plain (hlegible hk) (by rw [Expr.literal?, hvalue])
  | negSucc k =>
      have hk : k + 1 < 2 ^ 63 := by omega
      have hvalue : -Int64.ofNat (k + 1) = n := by
        rw [← Int64.ofInt_toInt n, hn, Int.negSucc_eq, Int64.ofInt_neg]
        rfl
      exact .minus (hlegible hk) rfl fun op hop => by
        rw [withSign, if_pos hop, hvalue]

private theorem shown_real {x : Float} (h : x.isFinite = true) :
    (real x).Shown (inspectReal x) := by
  obtain ⟨whole, fraction, hne, hne', hwhole, hfraction, htext, hread⟩ :=
    inspectReal_eq h
  have hsign := Decimal.withSign_abs h
  have hlegible : (Expr.real
      ⟨.realConst, String.ofList (whole ++ '.' :: fraction), .nowhere⟩
      x.abs).Legible := by
    refine ⟨rfl, Token.spelt_real hwhole hfraction hne hne',
      ⟨Kind.noConfusion, fun _ => ?_⟩, ?_⟩
    · rw [hread]
      rfl
    · rw [hread]
      rfl
  rw [htext]
  cases hnegative : Decimal.isNegative x with
  | true =>
      rw [hnegative] at hsign
      exact .minus hlegible rfl fun op hop => by
        rw [withSign, if_pos hop]; exact congrArg _ (congrArg _ hsign)
  | false =>
      rw [hnegative] at hsign
      have hplain :=
        Shown.plain hlegible (v := real x) (congrArg _ (congrArg _ hsign))
      simpa using hplain

/-- **The text of a value is a literal,** with a sign if it has one. -/
theorem shown_inspect {v : Value} (h : v.Writable) : v.Shown v.inspect := by
  cases v with
  | integer n => exact shown_integer h
  | real x => exact shown_real h
  | boolean b =>
      have hplain : (boolean b).Shown (Expr.boolean (truthToken b) b).render :=
        .plain ⟨rfl, spelt_truthToken b, by cases b <;> rfl⟩ rfl
      cases b <;> exact hplain
  | waypoint d s => exact absurd h id

/-! ## Reading -/

/-- A text that shows a value is written as tokens that derive a factor with
that value. -/
private theorem Shown.derived {v : Value} {s : String} (h : v.Shown s) :
    ∃ ts : List Token, Writes s ts ∧ (∀ t ∈ ts, t.Fits) ∧
      ∀ us : List Token, us.map Token.unplaced = ts →
        ∃ d : Factor, d.tokens = us ∧
          ∀ values : Table Value, d.tree.eval values = .ok v := by
  have hliteral {e : Expr} {u : Value} (hlegible : e.Legible)
      (hvalue : e.literal? = some u) (us : List Token)
      (hus : us.map Token.unplaced = e.written) : ∃ d : Factor,
      d.tokens = us ∧ ∀ values : Table Value, d.tree.eval values = .ok u := by
    obtain ⟨d, htokens, htree⟩ := Expr.derived hlegible us hus
    refine ⟨d, htokens, Expr.eval_of_literal? ?_⟩
    rw [← d.tree.literal?_unplaced, htree, e.literal?_unplaced, hvalue]
  cases h with
  | plain hlegible hvalue =>
      exact ⟨_, Expr.writes hlegible, Expr.fits hlegible,
        hliteral hlegible hvalue⟩
  | @minus e u hlegible hvalue hsign =>
      have hminus : Opens "-" [.fixed .minus] :=
        Opens.lone (b := 45) (by decide) (by decide)
      refine ⟨.fixed .minus :: e.written, hminus.writes (Expr.writes hlegible),
        ?_, fun us hus => ?_⟩
      · rw [List.forall_mem_cons]
        exact ⟨Token.fits_fixed rfl, Expr.fits hlegible⟩
      · rw [List.map_eq_cons_iff] at hus
        obtain ⟨op, us, rfl, hop, hus⟩ := hus
        obtain ⟨d, htokens, htree⟩ := hliteral hlegible hvalue us hus
        have hkind : op.kind = .minus := Token.kind_of_unplaced hop
        refine ⟨.signed ⟨op, by rw [hkind]; rfl⟩ d, by
          rw [Factor.tokens, htokens], fun values => ?_⟩
        rw [Factor.tree, Expr.eval, htree]
        exact hsign op hkind

end Value

/-- A program that assigns the text of an expression. -/
def assigning (text : String) : List UInt8 :=
  bytesOf ("PROGRAM P; BEGIN x := " ++ text ++ " END.")

/-- A name as a token without a place. -/
def Token.ofName (name : String) : Token := ⟨.ident, name, .nowhere⟩

/-- The tokens of such a program. -/
def assigningTokens (ts : List Token) : List Token :=
  .fixed .kwProgram :: .ofName "P" :: .fixed .semi :: .fixed .kwBegin ::
    .ofName "x" :: .fixed .assign :: (ts ++ [.fixed .kwEnd, .fixed .dot])

private theorem reads_assigning {s : String} {ts : List Token}
    (h : Writes s ts) : Reads (assigning s) (assigningTokens ts) := by
  have hprogram : Opens "PROGRAM " [.fixed .kwProgram] :=
    opens_spaced (k := .kwProgram) rfl
  have hp : Writes "P" [.ofName "P"] :=
    Writes.token (t := .ofName "P")
      ⟨[80], .word (b := 80) (w := []) rfl (by decide +kernel), rfl⟩
  have hbegin : Opens "BEGIN " [.fixed .kwBegin] :=
    opens_spaced (k := .kwBegin) rfl
  have hx : Writes "x" [.ofName "x"] :=
    Writes.token (t := .ofName "x")
      ⟨[120], .word (b := 120) (w := []) rfl (by decide +kernel), rfl⟩
  have hhead :=
    ((hprogram.writes hp).opens opens_semi_space closes_semi_space).append
      hbegin
  have hopen : Opens "PROGRAM P; BEGIN x := " _ :=
    (hhead.writes hx).opens opens_assign closes_assign
  have hread := hopen _ _ ((h.opens opens_space closes_space) _ _ reads_end)
  have hend : bytesOf " END." =
      bytesOf " " ++ (bytesOf "END" ++ bytesOf ".") := by
    rw [← bytesOf_append, ← bytesOf_append]
    rfl
  rw [List.append_nil, bytesOf_append, List.append_assoc] at hread
  rwa [assigning, bytesOf_append, bytesOf_append, hend, List.append_assoc]

private theorem fits_assigning {ts : List Token} (h : ∀ t ∈ ts, t.Fits) :
    ∀ t ∈ assigningTokens ts, t.Fits := by
  have hname (name : String) : (Token.ofName name).Fits :=
    Parse.fits_of_kind (k := .ident) rfl rfl
  have hend : ∀ t ∈ [Token.fixed .kwEnd, .fixed .dot], t.Fits := by
    simp only [List.forall_mem_cons]
    exact ⟨Token.fits_fixed rfl, Token.fits_fixed rfl, by simp⟩
  simp only [assigningTokens, List.forall_mem_cons]
  exact ⟨Token.fits_fixed rfl, hname _, Token.fits_fixed rfl,
    Token.fits_fixed rfl, hname _, Token.fits_fixed rfl,
    List.forall_mem_append.2 ⟨h, hend⟩⟩

/-- What is written behind the assignment sign is read as the value of the
assignment. -/
private theorem parse_assigning {s : String} {ts : List Token}
    (hwrites : Writes s ts) (hfits : ∀ t ∈ ts, t.Fits) {P : Expr → Prop}
    (hderived : ∀ us : List Token, us.map Token.unplaced = ts →
      ∃ d : Factor, d.tokens = us ∧ P d.tree) :
    ∃ (p : Program) (op target : Token) (e : Expr),
      parse (assigning s) = .ok p ∧ p.block.body = [.assign op target e] ∧
      target.literal = "x" ∧ P e := by
  obtain ⟨-, hread⟩ := (reads_assigning hwrites).scan
  have hfit : ∀ t ∈ (scan (assigning s)).tokens, t.Fits := by
    intro t ht
    have hmem : t.unplaced ∈ assigningTokens ts ++ [Token.ending] :=
      hread ▸ List.mem_map_of_mem ht
    refine Token.fits_of_unplaced rfl ?_
    rcases List.mem_append.1 hmem with hmem | hmem
    · exact fits_assigning hfits _ hmem
    · rw [List.mem_singleton.1 hmem]
      exact Parse.fits_of_kind (k := .eof) rfl rfl
  simp only [assigningTokens, List.append_assoc, List.cons_append,
    List.nil_append, List.map_eq_cons_iff, List.map_eq_append_iff,
    List.map_eq_nil_iff] at hread
  obtain ⟨program, _, hscan, hprogram, name, _, rfl, hname, semi, _, rfl, hsemi,
    opening, _, rfl, hopening, x, _, rfl, hx, op, _, rfl, hop, us, _, rfl, hus,
    closing, _, rfl, hclosing, dot, _, rfl, hdot, eof, _, rfl, heof, rfl⟩ :=
    hread
  obtain ⟨d, rfl, hd⟩ := hderived us hus
  have hnameKind : name.kind = .ident := congrArg Token.kind hname
  have hxKind : x.kind = .ident := congrArg Token.kind hx
  have heofKind : eof.kind = .eof := congrArg Token.kind heof
  let body : Statement :=
    .assign ⟨x, hxKind⟩ ⟨op, Token.kind_of_unplaced hop⟩ d.toExpression
  let block : Grammar.Block :=
    ⟨.absent, .absent, .absent, ⟨opening, Token.kind_of_unplaced hopening⟩,
      .one body, ⟨closing, Token.kind_of_unplaced hclosing⟩⟩
  let source : Source :=
    ⟨⟨⟨program, Token.kind_of_unplaced hprogram⟩, ⟨name, hnameKind⟩,
      ⟨semi, Token.kind_of_unplaced hsemi⟩, block,
      ⟨dot, Token.kind_of_unplaced hdot⟩⟩, ⟨eof, heofKind⟩⟩
  have htokens : source.tokens = (scan (assigning s)).tokens := by
    rw [hscan]
    simp [source, block, body]
  refine ⟨source.tree, op, x, d.tree, parse_complete htokens (htokens ▸ hfit),
    ?_, congrArg Token.literal hx, hd⟩
  simp [source, block, body]

/-! ## The least integer -/

/-- The size of the least integer, which no integer has. -/
def tooLargeToken : Token := ⟨.integerConst, "9223372036854775808", ⟨1, 24⟩⟩

private theorem parse_least :
    parse (assigning (Value.integer Int64.minValue).inspect) =
      .error (.outOfRange .integer tooLargeToken) := by
  have hshown : (Value.integer Int64.minValue).inspect =
      "-9223372036854775808" := by decide +kernel
  have hsource : "PROGRAM P; BEGIN x := " ++ "-9223372036854775808" ++ " END." =
      textOf
        (asciiBytes "PROGRAM P; BEGIN x := -9223372036854775808 END.") := by
    decide +kernel
  rw [hshown, assigning, hsource, bytesOf_textOf (by decide +kernel)]
  refine error_of_map (f := fun _ => ()) ?_
  decide +kernel

/-- **Values read back as they are shown.** The text of a number or a truth
value is the right-hand side of an assignment that is read, and what is read
there is evaluated to the same value by every host, whatever the names of the
program are bound to. Only the least integer is refused, since its size is out
of range. -/
theorem parse_inspect :
    (∀ v : Value, v.Writable →
      ∃ (p : Program) (op target : Token) (e : Expr),
        parse (assigning v.inspect) = .ok p ∧
        p.block.body = [.assign op target e] ∧ target.literal = "x" ∧
        ∀ (σ ε : Type) (h : Host σ ε) (passes : Nat) (w : World σ),
          (Run.visit h passes (.expression e)).outcome w = .ok (some v)) ∧
    parse (assigning (Value.integer Int64.minValue).inspect) =
      .error (.outOfRange .integer tooLargeToken) := by
  refine ⟨fun v hv => ?_, parse_least⟩
  obtain ⟨ts, hwrites, hfits, hderived⟩ := (Value.shown_inspect hv).derived
  obtain ⟨p, op, target, e, hparse, hbody, htarget, heval⟩ :=
    parse_assigning
      (P := fun e => ∀ values : Table Value, e.eval values = .ok v) hwrites
      hfits hderived
  refine ⟨p, op, target, e, hparse, hbody, htarget, fun σ ε h passes w => ?_⟩
  have hrun : (Run.visit h passes (.expression e)).run w =
      .ok (some v) (w.told h (.evaluating e w.tables.values)) := by
    rw [run_visit_expression, heval, Run.run_ofEval_ok]
    rfl
  exact Run.outcome_ok hrun

/-- The zero with a sign. -/
def negativeZero : Float := -0

theorem parse_inspect_negativeZero :
    (Value.real negativeZero).Writable ∧
    (Value.real negativeZero).inspect = "-0.0" ∧
    negativeZero.toBits ≠ Float.toBits 0 ∧
    ∃ (p : Program) (op target : Token) (e : Expr),
      parse (assigning (Value.real negativeZero).inspect) = .ok p ∧
      p.block.body = [.assign op target e] ∧ target.literal = "x" ∧
      ∀ (σ ε : Type) (h : Host σ ε) (passes : Nat) (w : World σ),
        (Run.visit h passes (.expression e)).outcome w =
          .ok (some (.real negativeZero)) := by
  have hwritable : (Value.real negativeZero).Writable := by
    show negativeZero.isFinite = true
    decide +kernel
  exact ⟨hwritable, by decide +kernel, by decide +kernel,
    parse_inspect.1 _ hwritable⟩

end Fixture
