import Fixture.Proofs.Grammar.Calls
import Fixture.Proofs.Grammar.Earliest
/-!
# Reading ends

A source is read to its end whatever it is, within a budget that is linear in
its length. From one call of a reader to the next call of the same one a token
is consumed at least, and no call is made behind the end of the source. So what
the reader answers is not a matter of its budget, nor of anything that stands
behind the end.

## Main results

* `way_end`: readers do not look behind the end of the source.
* `follow_ne_exhausted`: a plan is not given up for want of a budget.
* `parse_terminates`: reading a source ends.
-/

namespace Fixture.Parse

variable {b b' : ParseError} {n m : Nat} {ts more : List Token} {e : Token}
    {way way' : Reader → Skim} {p : Plan}

/-! ## The end of the source -/

/-- The plan consumes a token only if it has seen that this is not the end of
the source. -/
def Plan.MindsEnd : Bool → Plan → Prop
  | _, stop | _, refuse _ => True
  | _, look choose => ∀ k, (choose k).MindsEnd (decide (k ≠ .eof))
  | seen, take _ p => seen = true ∧ p.MindsEnd false
  | _, call _ p => p.MindsEnd false

private theorem Plan.MindsEnd.mono (h : p.MindsEnd false) (seen : Bool) :
    p.MindsEnd seen := by
  cases p with
  | stop | refuse => trivial
  | look choose => exact h
  | take use p => cases h.1
  | call r p => exact h

section

variable {q : Kind → Prop} [DecidablePred q] {rest : Plan} {k : Kind}
    {seen : Bool}

private theorem Plan.mindsEnd_branch (hq : ¬ q .eof) (hp : p.MindsEnd true)
    (hrest : rest.MindsEnd false) : (Plan.branch q p rest).MindsEnd seen := by
  intro k
  by_cases hk : q k
  · have hne : k ≠ .eof := fun h => hq (h ▸ hk)
    simp only [if_pos hk, decide_eq_true hne, hp]
  · simp only [if_neg hk, hrest.mono]

private theorem Plan.mindsEnd_call {r : Reader} (hp : p.MindsEnd false) :
    (Plan.call r p).MindsEnd seen := hp

private theorem Plan.mindsEnd_among {q : Kind → Bool} {expected : String}
    (hq : q .eof = false) (hp : p.MindsEnd false) :
    (Plan.among q expected p).MindsEnd seen :=
  mindsEnd_branch (by simp [hq]) ⟨rfl, hp⟩ trivial

private theorem Plan.mindsEnd_expect (hk : k ≠ .eof) (hp : p.MindsEnd false) :
    (Plan.expect k p).MindsEnd seen :=
  mindsEnd_among (beq_false_of_ne hk.symm) hp

private theorem Plan.mindsEnd_section {decls : Reader} (hk : k ≠ .eof)
    (hp : p.MindsEnd false) : (Plan.optionalSection k decls p).MindsEnd seen :=
  mindsEnd_branch hk.symm ⟨rfl, hp⟩ hp

end

/-- Readers mind the end of the source. -/
private theorem Reader.mindsEnd (r : Reader) : r.plan.MindsEnd false := by
  open Plan in
  cases r with
  | factor =>
      intro k
      cases k with
      | lparen =>
          exact ⟨rfl, mindsEnd_call (mindsEnd_expect (by decide) trivial)⟩
      | integerConst | realConst | boolConst | plus | minus =>
          exact ⟨rfl, trivial⟩
      | _ => exact mindsEnd_expect (by decide) trivial
  | statement =>
      intro k
      cases k with
      | kwBegin =>
          exact ⟨rfl, mindsEnd_call (mindsEnd_expect (by decide) trivial)⟩
      | ident => exact ⟨rfl, mindsEnd_expect (by decide) trivial⟩
      | kwIf =>
          have hend : (Plan.expect .kwEndif .stop).MindsEnd false :=
            mindsEnd_expect (by decide) trivial
          exact ⟨rfl, mindsEnd_call (mindsEnd_expect (by decide)
            (mindsEnd_call (mindsEnd_branch (by decide)
              ⟨rfl, mindsEnd_expect (by decide) hend⟩ hend)))⟩
      | kwLoop =>
          exact ⟨rfl, mindsEnd_expect (by decide)
            (mindsEnd_call (mindsEnd_expect (by decide) trivial))⟩
      | kwMoveto | kwRotate =>
          exact ⟨rfl,
            mindsEnd_call (mindsEnd_branch (by decide) ⟨rfl, trivial⟩ trivial)⟩
      | kwWait | kwHome | kwStop => exact ⟨rfl, trivial⟩
      | _ => exact trivial
  | term | sum | expression => exact trivial
  | statements =>
      exact mindsEnd_call (mindsEnd_branch (by decide) ⟨rfl, trivial⟩ trivial)
  | termTail | sumTail | comparison =>
      exact mindsEnd_branch (by decide) ⟨rfl, trivial⟩ trivial
  | names =>
      exact mindsEnd_expect (by decide)
        (mindsEnd_branch (by decide) ⟨rfl, trivial⟩ trivial)
  | varDecls =>
      exact mindsEnd_branch (by decide)
        (mindsEnd_call (mindsEnd_expect (by decide)
          (mindsEnd_among rfl (mindsEnd_expect (by decide) trivial)))) trivial
  | pinDecls =>
      exact mindsEnd_branch (by decide)
        (mindsEnd_expect (by decide) (mindsEnd_expect (by decide)
          (mindsEnd_among rfl (mindsEnd_branch (by decide)
            ⟨rfl, mindsEnd_expect (by decide) trivial⟩ trivial)))) trivial
  | waypointDecls =>
      exact mindsEnd_branch (by decide)
        (mindsEnd_expect (by decide) (mindsEnd_expect (by decide)
          (mindsEnd_call (mindsEnd_expect (by decide)
            (mindsEnd_call (mindsEnd_expect (by decide) trivial)))))) trivial

private theorem Plan.mindsEnd_program : Plan.program.MindsEnd false := by
  have hend : (branch (· = .eof) .stop (.refuse (Kind.name .eof))).MindsEnd
      false := by
    intro k
    by_cases hk : k = .eof
    · simp only [if_pos hk, MindsEnd]
    · simp only [if_neg hk, MindsEnd]
  have hblock : (expect .kwBegin (call .statements (expect .kwEnd (expect .dot
      (branch (· = .eof) .stop (.refuse (Kind.name .eof))))))).MindsEnd false :=
    mindsEnd_expect (by decide) (mindsEnd_call
      (mindsEnd_expect (by decide) (mindsEnd_expect (by decide) hend)))
  exact mindsEnd_expect (by decide) (mindsEnd_expect (by decide)
    (mindsEnd_expect (by decide) (mindsEnd_section (by decide)
      (mindsEnd_section (by decide) (mindsEnd_section (by decide) hblock)))))

private theorem consume_append (use : Option NumberUse)
    (hts : ts.getLast? = some e) (he : e.kind = .eof) (hpeek : peek ts ≠ .eof) :
    consume b' use (ts ++ more) = (· ++ more) <$> consume b use ts := by
  cases ts with
  | nil => cases hts
  | cons t us =>
      have hadvance : advance b' (t :: us ++ more) =
          (· ++ more) <$> advance b (t :: us) := by
        cases us with
        | nil =>
            cases hts
            exact absurd he hpeek
        | cons s us => rfl
      cases use with
      | none => exact hadvance
      | some use =>
          simp only [consume, List.cons_append]
          split
          · exact hadvance
          · rfl

/-- Readers that do not look behind the end of the source do not when they are
called by a plan that minds the end. -/
private theorem follow_end (honward : ∀ r, Onward (way r))
    (hway : ∀ r ts, ts.getLast? = some e →
      way' r (ts ++ more) = (· ++ more) <$> way r ts) (he : e.kind = .eof)
    {seen : Bool} (hp : p.MindsEnd seen) (hts : ts.getLast? = some e)
    (hseen : seen = true → peek ts ≠ .eof) :
    p.follow b' way' (ts ++ more) = (· ++ more) <$> p.follow b way ts := by
  have hne {ts : List Token} (hts : ts.getLast? = some e) : ts ≠ [] := by
    rintro rfl
    cases hts
  induction p generalizing ts seen with
  | stop => rfl
  | refuse expected =>
      obtain ⟨t, us, rfl⟩ := List.exists_cons_of_ne_nil (hne hts)
      rfl
  | look choose ih =>
      have hpeek : peek (ts ++ more) = peek ts := by
        obtain ⟨t, us, rfl⟩ := List.exists_cons_of_ne_nil (hne hts)
        rfl
      simp only [Plan.follow, hpeek]
      exact ih (peek ts) (hp _) hts of_decide_eq_true
  | take use p ih =>
      simp only [Plan.follow, kleisli_eq,
        consume_append (b := b) use hts he (hseen hp.1)]
      cases hus : consume b use ts with
      | error err => rfl
      | ok us =>
          obtain ⟨t, rfl, hsome⟩ := consume_eq_ok hus
          refine ih hp.2 ?_ fun h => absurd h Bool.false_ne_true
          rwa [List.getLast?_cons_of_ne_nil hsome] at hts
  | call r p ih =>
      simp only [Plan.follow, kleisli_eq, hway r ts hts]
      cases hus : way r ts with
      | error err => rfl
      | ok us =>
          obtain ⟨hsome, front, rfl⟩ := honward r ts us (hne hts) hus
          refine ih hp ?_ fun h => absurd h Bool.false_ne_true
          rwa [List.getLast?_append_of_ne_nil _ hsome] at hts

/-- **Readers do not look behind the end of the source.** -/
theorem way_end (he : e.kind = .eof) (r : Reader) (hts : ts.getLast? = some e) :
    r.way b' n (ts ++ more) = (· ++ more) <$> r.way b n ts := by
  induction n generalizing r ts with
  | zero => rw [way_zero, way_zero]; rfl
  | succ n ih =>
      obtain ⟨t, us, rfl⟩ :=
        List.exists_cons_of_ne_nil (l := ts) (by rintro rfl; cases hts)
      rw [way_succ, List.cons_append, way_succ, ← List.cons_append]
      exact follow_end onward_way (fun r ts => ih r) he r.mindsEnd hts fun h =>
        absurd h Bool.false_ne_true

/-! ## Programs -/

/-- A plan is not given up for want of a budget, if there are four to spend for
each token, and four more. -/
theorem follow_ne_exhausted (hb : b ≠ .exhausted) (p : Plan) (hts : ts ≠ [])
    (hn : 4 * ts.length + 4 ≤ n) :
    p.follow b (Reader.way b n) ts ≠ .error .exhausted := by
  intro hout
  obtain ⟨s, hcall, hs⟩ := (follow_exhausted_iff hb p ts).1 hout
  obtain ⟨hne, hsuffix⟩ := hcall.onward onward_way hts
  have hle := hsuffix.length_le
  exact not_exhausted hb s.reader hne (by omega) hs

/-- The same program is read, whatever stands behind it, if both readers are
done. -/
private theorem program_congr (hm : 4 * ts.length ≤ m)
    (h : (fun _ => ()) <$> program b' m (ts ++ more) =
      (fun _ => ()) <$> program b n ts) :
    program b' m (ts ++ more) = program b n ts := by
  cases hread : program b n ts with
  | error err =>
      rw [hread] at h
      exact error_of_map h
  | ok tree =>
      obtain ⟨d, eof, rest, rfl, hsplit, hfits, -⟩ := program_sound hread
      subst hsplit
      rw [List.append_assoc, List.cons_append]
      exact program_complete b' d eof (rest ++ more) m
        (by rw [List.length_append] at hm; omega) hfits

/-- **Programs are read alike** whatever the budget is, if it is enough. -/
theorem program_budget (hb : b ≠ .exhausted) (hts : ts ≠ [])
    (hn : 4 * ts.length + 4 ≤ n) (hm : 4 * ts.length + 4 ≤ m) :
    program b m ts = program b n ts := by
  have hfollow : Plan.program.follow b (Reader.way b m) ts =
      Plan.program.follow b (Reader.way b n) ts := by
    rcases concur_follow onward_way (fun r ts hts => concur_way n r hts)
      Plan.program hts with hout | hout | hsame
    · exact absurd hout (follow_ne_exhausted hb _ hts hm)
    · exact absurd hout (follow_ne_exhausted hb _ hts hn)
    · exact hsame
  have h : program b m (ts ++ []) = program b n ts := by
    refine program_congr (by omega) ?_
    rw [List.append_nil, program_follow, program_follow, hfollow]
  rwa [List.append_nil] at h

/-- **Programs are read alike** whatever stands behind the end of the source. -/
theorem program_end (he : e.kind = .eof) (hts : ts.getLast? = some e)
    (hn : 4 * ts.length ≤ n) : program b' n (ts ++ more) = program b n ts := by
  refine program_congr hn ?_
  have hend : Plan.program.follow b' (Reader.way b' n) (ts ++ more) =
      (· ++ more) <$> Plan.program.follow b (Reader.way b n) ts :=
    follow_end onward_way (fun r ts => way_end he r) he Plan.mindsEnd_program
      hts fun h => absurd h Bool.false_ne_true
  rw [program_follow, program_follow, hend]
  cases Plan.program.follow b (Reader.way b n) ts <;> rfl

/-- A program is not given up for want of a budget. -/
private theorem program_ne_exhausted (hb : b ≠ .exhausted) (hts : ts ≠ [])
    (hn : 4 * ts.length + 4 ≤ n) : program b n ts ≠ .error .exhausted := by
  intro hout
  have hfollow : (fun _ => ()) <$> program b n ts = _ := program_follow
  rw [hout] at hfollow
  exact follow_ne_exhausted hb Plan.program hts hn (error_of_map hfollow.symm)

end Fixture.Parse

namespace Fixture

open Parse

/-! ## Sources -/

private theorem Scan.length_upTo_le (n : Nat) (c : Cursor) :
    (Scan.upTo n c).tokens.length ≤ n := by
  induction n generalizing c with
  | zero => exact Nat.le_refl 0
  | succ n ih =>
      rw [Scan.upTo]
      split
      · exact Nat.zero_le _
      · split
        · exact Nat.succ_le_succ (Nat.zero_le n)
        · exact Nat.succ_le_succ (ih _)

private theorem length_scan_le (src : List UInt8) :
    (scan src).tokens.length ≤ src.length + 1 :=
  Scan.length_upTo_le _ _

/-- A source that the scanner reads to its end is read alike, whatever the
budget is and whatever stands behind. -/
private theorem program_scan_append {src : List UInt8}
    (h : (scan src).failure = none) (behind : ParseError) (more : List Token)
    {n : Nat} (hn : 4 * src.length + 8 ≤ n) :
    program behind n ((scan src).tokens ++ more) = parse src ∧
    parse src ≠ .error .exhausted := by
  obtain ⟨us, e, hsplit, he⟩ := scan_last h
  have hlast : (scan src).tokens.getLast? = some e := by
    rw [hsplit, List.getLast?_concat]
  have hne : (scan src).tokens ≠ [] := by simp [hsplit]
  have hlength := length_scan_le src
  -- The error behind the end does not matter, so it can be one that is not the
  -- want of a budget.
  have hb : ParseError.unexpected ⟨"", e⟩ ≠ .exhausted := ParseError.noConfusion
  have hparse : parse src =
      program (.unexpected ⟨"", e⟩) n (scan src).tokens := by
    rw [parse_eq,
      program_budget hb hne (n := budget (scan src).tokens.length)
        (by rw [budget]; omega) (by omega),
      ← program_end he hlast (by rw [budget]; omega), List.append_nil]
  rw [hparse]
  exact ⟨program_end he hlast (by omega),
    program_ne_exhausted hb hne (by omega)⟩

/-- A source is read alike, whatever the budget is, and not given up for want of
one. -/
private theorem program_scan (src : List UInt8) {n : Nat}
    (hn : 4 * src.length + 8 ≤ n) :
    program (scan src).behind n (scan src).tokens = parse src ∧
    parse src ≠ .error .exhausted := by
  cases hfailure : (scan src).failure with
  | none =>
      have h := program_scan_append hfailure (scan src).behind [] hn
      rwa [List.append_nil] at h
  | some e =>
      have hbehind : (scan src).behind = .lexical e := by
        rw [Scan.behind, hfailure]
      have hb : (scan src).behind ≠ .exhausted :=
        hbehind ▸ ParseError.noConfusion
      have hlength := length_scan_le src
      rw [parse_eq]
      by_cases hne : (scan src).tokens = []
      · have hnil (n : Nat) : program (.lexical e) n [] = .error (.lexical e) :=
          rfl
        rw [hne, hbehind, hnil, hnil]
        exact ⟨rfl, by simp⟩
      · have hbudget : 4 * (scan src).tokens.length + 4 ≤
            budget (scan src).tokens.length := by
          rw [budget]
          omega
        exact ⟨program_budget hb hne hbudget (by omega),
          program_ne_exhausted hb hne hbudget⟩

/--
**Reading ends.** Every source is read within a budget that is linear in its
length, whether it is a program or not. All larger budgets give the same answer,
and if the scanner reaches the end of the source, so does everything that may
stand behind that end. The reason is that a reader which is called again,
through whatever other calls, has consumed a token at least since it was called
before, and that only nested calls use a budget up: it runs out if and only if
there are as many of them.
-/
theorem parse_terminates (src : List UInt8) :
    parse src ≠ .error .exhausted ∧
    (∀ n, 4 * src.length + 8 ≤ n →
      program (scan src).behind n (scan src).tokens = parse src) ∧
    ((scan src).failure = none →
      ∀ behind more n, 4 * src.length + 8 ≤ n →
        program behind n ((scan src).tokens ++ more) = parse src) ∧
    (∀ behind (s s' : Stage), s.tokens ≠ [] →
      Relation.TransGen (Stage.Enters behind) s s' → s'.reader = s.reader →
      ∃ front, front ≠ [] ∧ s.tokens = front ++ s'.tokens) ∧
    ∀ behind, behind ≠ .exhausted →
      ∀ n (s : Stage), s.tokens ≠ [] →
        (s.reader.way behind n s.tokens = .error .exhausted ↔
          ∃ ss : List Stage, ss.length = n ∧
            List.IsChain (Stage.Enters behind) (s :: ss)) := by
  refine ⟨(program_scan src le_rfl).2, fun n hn => (program_scan src hn).1, ?_,
    ?_, ?_⟩
  · exact fun h behind more n hn => (program_scan_append h behind more hn).1
  · exact fun behind s s' hs h hreader =>
      Stage.consumed_of_transGen h hs hreader
  · exact fun behind hb n s hs => exhausted_iff hb n s hs

end Fixture
