import Fixture.Proofs.Grammar.Plans
/-!
# Calls between readers

A reader with a budget runs out of it exactly if as many calls are nested in one
another, the reader's own included. So the question whether a budget is enough
is a question about chains of calls, and those are bounded. A call is made on
tokens that are left, so there are never more of them than before. If nothing
was consumed in between, the reader that is called is of a lower rank:
expressions call sums, sums call terms, terms call factors, and a factor calls
nothing before it has consumed a token. Rank and tokens together go down with
every call.

## Main results

* `exhausted_iff`: a budget runs out if and only if as many calls are nested.
* `Stage.Enters.size_lt`: a call is made on fewer tokens, or to a reader of a
  lower rank.
* `Stage.consumed_of_transGen`: a reader that is called again has consumed a
  token since.
* `not_exhausted`: a budget of four for each token, and four more, does not run
  out.
-/

namespace Fixture.Parse

variable {b : ParseError} {n : Nat} {ts us : List Token}
    {way way' : Reader → Skim} {p : Plan}

/-! ## Calls -/

/-- A reader and the tokens that it is called on. -/
structure Stage where
  reader : Reader
  tokens : List Token

/-- The calls that are made when a plan is followed. -/
def Plan.Calls (b : ParseError) (way : Reader → Skim) :
    Plan → List Token → Stage → Prop
  | stop, _, _ | refuse _, _, _ => False
  | look choose, ts, s => (choose (peek ts)).Calls b way ts s
  | take use p, ts, s => ∃ us, consume b use ts = .ok us ∧ p.Calls b way us s
  | call r p, ts, s =>
    s = ⟨r, ts⟩ ∨ ∃ us, way r ts = .ok us ∧ p.Calls b way us s

/-- The second reader is called by the first one. What the first one has read
before is read with some budget. -/
def Stage.Enters (b : ParseError) (s s' : Stage) : Prop :=
  ∃ n, s.reader.plan.Calls b (Reader.way b n) s.tokens s'

/-! ## Tokens that are left -/

/-- Some tokens are left, if there were any, and they are the last ones. -/
def Onward (X : Skim) : Prop :=
  ∀ ts us, ts ≠ [] → X ts = .ok us → us ≠ [] ∧ us <:+ ts

theorem consume_eq_ok {use : Option NumberUse} (h : consume b use ts = .ok us) :
    ∃ t, ts = t :: us ∧ us ≠ [] := by
  unfold consume at h
  split at h
  · split at h
    · exact advance_eq_ok h
    · cases h
  · exact advance_eq_ok h

private theorem onward_follow (h : ∀ r, Onward (way r)) (p : Plan) :
    Onward (p.follow b way) := by
  induction p with
  | stop =>
      intro ts us hts hok
      cases hok
      exact ⟨hts, List.suffix_refl ts⟩
  | refuse expected =>
      intro ts us hts hok
      cases hok
  | look choose ih => exact fun ts us hts hok => ih (peek ts) ts us hts hok
  | take use p ih =>
      intro ts us hts hok
      obtain ⟨mid, hmid, hrest⟩ := of_bind_eq_ok hok
      obtain ⟨t, rfl, hne⟩ := consume_eq_ok hmid
      obtain ⟨hne', hsuffix⟩ := ih mid us hne hrest
      exact ⟨hne', hsuffix.trans (List.suffix_cons t mid)⟩
  | call r p ih =>
      intro ts us hts hok
      obtain ⟨mid, hmid, hrest⟩ := of_bind_eq_ok hok
      obtain ⟨hne, hmid⟩ := h r ts mid hts hmid
      obtain ⟨hne', hsuffix⟩ := ih mid us hne hrest
      exact ⟨hne', hsuffix.trans hmid⟩

theorem way_zero (r : Reader) (ts : List Token) :
    r.way b 0 ts = .error .exhausted := by
  cases r <;> rfl

theorem onward_way (r : Reader) : Onward (r.way b n) := by
  induction n generalizing r with
  | zero =>
      intro ts us hts hok
      rw [way_zero] at hok
      cases hok
  | succ n ih =>
      intro ts us hts hok
      obtain ⟨t, ts, rfl⟩ := List.exists_cons_of_ne_nil hts
      rw [way_succ] at hok
      exact onward_follow ih r.plan _ _ hts hok

/-- Calls are made on tokens that are left. -/
theorem Plan.Calls.onward {s : Stage} (h : ∀ r, Onward (way r))
    (hcall : p.Calls b way ts s) (hts : ts ≠ []) :
    s.tokens ≠ [] ∧ s.tokens <:+ ts := by
  induction p generalizing ts with
  | stop | refuse => cases hcall
  | look choose ih => exact ih (peek ts) hcall hts
  | take use p ih =>
      obtain ⟨us, hus, hcall⟩ := hcall
      obtain ⟨t, rfl, hne⟩ := consume_eq_ok hus
      exact ⟨(ih hcall hne).1, (ih hcall hne).2.trans (List.suffix_cons t us)⟩
  | call r p ih =>
      rcases hcall with rfl | ⟨us, hus, hcall⟩
      · exact ⟨hts, List.suffix_refl ts⟩
      · obtain ⟨hne, hsuffix⟩ := h r ts us hts hus
        exact ⟨(ih hcall hne).1, (ih hcall hne).2.trans hsuffix⟩

/-! ## Ranks -/

/-- The rank of a reader: how many calls can follow one another before a token
is consumed. -/
def Reader.rank : Reader → Nat
  | expression => 3
  | sum => 2
  | term | statements | varDecls => 1
  | _ => 0

private theorem Reader.rank_le (r : Reader) : r.rank ≤ 3 := by
  cases r <;> decide

/-- What is called before a token is consumed is of a lower rank. -/
def Plan.Sinks (rank : Nat) : Plan → Prop
  | stop | refuse _ | take _ _ => True
  | look choose => ∀ k, (choose k).Sinks rank
  | call r p => r.rank < rank ∧ p.Sinks rank

private theorem Plan.sinks_branch {q : Kind → Prop} [DecidablePred q]
    {rest : Plan} {rank : Nat} (hp : p.Sinks rank) (hrest : rest.Sinks rank) :
    (Plan.branch q p rest).Sinks rank := by
  intro k
  by_cases hq : q k
  · simp only [if_pos hq, hp]
  · simp only [if_neg hq, hrest]

private theorem Plan.sinks_expect (k : Kind) (p : Plan) (rank : Nat) :
    (Plan.expect k p).Sinks rank :=
  Plan.sinks_branch trivial trivial

/-- Plans call readers of lower ranks only, until they consume a token. -/
private theorem Reader.sinks (r : Reader) : r.plan.Sinks r.rank := by
  cases r with
  | factor =>
      intro k; cases k <;> first | exact trivial | exact Plan.sinks_expect _ _ _
  | statement => intro k; cases k <;> exact trivial
  | term | sum | expression => exact ⟨by decide, by decide, trivial⟩
  | termTail | sumTail | comparison => exact Plan.sinks_branch trivial trivial
  | statements => exact ⟨by decide, Plan.sinks_branch trivial trivial⟩
  | names => exact Plan.sinks_expect _ _ _
  | varDecls =>
      exact Plan.sinks_branch ⟨by decide, Plan.sinks_expect _ _ _⟩ trivial
  | pinDecls | waypointDecls =>
      exact Plan.sinks_branch (Plan.sinks_expect _ _ _) trivial

/-- What is called is of a lower rank, or a token was consumed. -/
private theorem Plan.Calls.sinks {s : Stage} {rank : Nat}
    (h : ∀ r, Onward (way r)) (hcall : p.Calls b way ts s) (hts : ts ≠ [])
    (hsinks : p.Sinks rank) :
    s.tokens.length < ts.length ∨ s.reader.rank < rank := by
  induction p generalizing ts with
  | stop | refuse => cases hcall
  | look choose ih => exact ih (peek ts) hcall hts (hsinks _)
  | take use p ih =>
      obtain ⟨us, hus, hcall⟩ := hcall
      obtain ⟨t, rfl, hne⟩ := consume_eq_ok hus
      exact .inl (Nat.lt_succ_of_le (hcall.onward h hne).2.length_le)
  | call r p ih =>
      rcases hcall with rfl | ⟨us, hus, hcall⟩
      · exact .inr hsinks.1
      · obtain ⟨hne, hsuffix⟩ := h r ts us hts hus
        exact (ih hcall hne hsinks.2).imp_left fun hlt =>
          lt_of_lt_of_le hlt hsuffix.length_le

namespace Stage

/-- Tokens count more than ranks. -/
def size (s : Stage) : Nat := 4 * s.tokens.length + s.reader.rank

variable {s s' : Stage}

private theorem Enters.onward (h : s.Enters b s') (hs : s.tokens ≠ []) :
    s'.tokens ≠ [] ∧ s'.tokens <:+ s.tokens := by
  obtain ⟨n, hcall⟩ := h
  exact hcall.onward onward_way hs

/-- **A call is made on fewer tokens, or to a reader of a lower rank.** -/
theorem Enters.size_lt (h : s.Enters b s') (hs : s.tokens ≠ []) :
    s'.size < s.size := by
  have hle := (h.onward hs).2.length_le
  obtain ⟨n, hcall⟩ := h
  have hrank := s'.reader.rank_le
  unfold size
  rcases hcall.sinks onward_way hs s.reader.sinks with hlt | hlt <;> omega

/-- Calls within calls are made on tokens that are left, and lead down. -/
private theorem onward_of_transGen (h : Relation.TransGen (Enters b) s s')
    (hs : s.tokens ≠ []) :
    s'.tokens ≠ [] ∧ s'.tokens <:+ s.tokens ∧ s'.size < s.size := by
  induction h with
  | single h => exact ⟨(h.onward hs).1, (h.onward hs).2, h.size_lt hs⟩
  | tail _ h ih =>
      obtain ⟨hne, hsuffix, hlt⟩ := ih
      exact ⟨(h.onward hne).1, (h.onward hne).2.trans hsuffix,
        (h.size_lt hne).trans hlt⟩

/-- **A reader that is called again** has consumed a token at least since it was
called. -/
theorem consumed_of_transGen (h : Relation.TransGen (Enters b) s s')
    (hs : s.tokens ≠ []) (hreader : s'.reader = s.reader) :
    ∃ front, front ≠ [] ∧ s.tokens = front ++ s'.tokens := by
  obtain ⟨-, ⟨front, hfront⟩, hlt⟩ := onward_of_transGen h hs
  refine ⟨front, ?_, hfront.symm⟩
  rintro rfl
  rw [List.nil_append] at hfront
  rw [size, size, hfront, hreader] at hlt
  exact Nat.lt_irrefl _ hlt

end Stage

/-! ## Running out of the budget -/

private theorem error_bind {α β : Type} (e : ParseError)
    (f : α → Except ParseError β) : (Except.error e >>= f) = .error e := rfl

private theorem consume_ne_exhausted (hb : b ≠ .exhausted)
    (use : Option NumberUse) (ts : List Token) :
    consume b use ts ≠ .error .exhausted := by
  have hadvance : advance b ts ≠ .error .exhausted := by
    unfold advance
    split <;> simp [hb]
  unfold consume
  split
  · split
    · exact hadvance
    · simp
  · exact hadvance

/-- A plan is given up for want of a budget exactly if a call is that it
makes. -/
theorem follow_exhausted_iff (hb : b ≠ .exhausted) (p : Plan)
    (ts : List Token) :
    p.follow b way ts = .error .exhausted ↔
      ∃ s, p.Calls b way ts s ∧ way s.reader s.tokens = .error .exhausted := by
  induction p generalizing ts with
  | stop => simp [Plan.follow, Plan.Calls]
  | refuse expected => cases ts <;> simp [Plan.follow, Plan.Calls, refuse, hb]
  | look choose ih => exact ih (peek ts) ts
  | take use p ih =>
      simp only [Plan.follow, Plan.Calls, kleisli_eq]
      cases hus : consume b use ts with
      | error e =>
          have hne : e ≠ .exhausted :=
            fun he => consume_ne_exhausted hb use ts (he ▸ hus)
          simp [error_bind, hne]
      | ok us =>
          rw [ok_bind, ih us]
          simp
  | call r p ih =>
      simp only [Plan.follow, Plan.Calls, kleisli_eq]
      cases hus : way r ts with
      | error e =>
          have hcall : (∃ s,
              (s = ⟨r, ts⟩ ∨
                ∃ us, Except.error e = Except.ok us ∧ p.Calls b way us s) ∧
              way s.reader s.tokens = .error .exhausted) ↔
              way r ts = .error .exhausted := by
            simp
          rw [hcall, hus, error_bind]
      | ok us =>
          rw [ok_bind, ih us]
          constructor
          · rintro ⟨s, hcall, hs⟩
            exact ⟨s, .inr ⟨us, rfl, hcall⟩, hs⟩
          · rintro ⟨s, rfl | ⟨vs, hvs, hcall⟩, hs⟩
            · cases hs.symm.trans hus
            · cases hvs
              exact ⟨s, hcall, hs⟩

/-- The answers are the same, unless one of them is that the budget ran out. -/
def Concur (x y : Except ParseError (List Token)) : Prop :=
  x = .error .exhausted ∨ y = .error .exhausted ∨ x = y

theorem concur_follow (h : ∀ r, Onward (way r))
    (hway : ∀ r ts, ts ≠ [] → Concur (way r ts) (way' r ts)) (p : Plan)
    (hts : ts ≠ []) : Concur (p.follow b way ts) (p.follow b way' ts) := by
  induction p generalizing ts with
  | stop | refuse => exact .inr (.inr rfl)
  | look choose ih => exact ih (peek ts) hts
  | take use p ih =>
      simp only [Plan.follow, kleisli_eq]
      cases hus : consume b use ts with
      | error e => exact .inr (.inr rfl)
      | ok us =>
          obtain ⟨t, -, hne⟩ := consume_eq_ok hus
          exact ih hne
  | call r p ih =>
      simp only [Plan.follow, kleisli_eq]
      rcases hway r ts hts with hout | hout | hsame
      · exact .inl (by rw [hout, error_bind])
      · exact .inr (.inl (by rw [hout, error_bind]))
      · rw [← hsame]
        cases hus : way r ts with
        | error e => exact .inr (.inr rfl)
        | ok us => exact ih (h r ts us hts hus).1

/-- **Budgets make no difference,** unless they run out. -/
theorem concur_way (m : Nat) (r : Reader) (hts : ts ≠ []) :
    Concur (r.way b n ts) (r.way b m ts) := by
  induction n generalizing m r ts with
  | zero => exact .inl (way_zero r ts)
  | succ n ih =>
      cases m with
      | zero => exact .inr (.inl (way_zero r ts))
      | succ m =>
          obtain ⟨t, ts, rfl⟩ := List.exists_cons_of_ne_nil hts
          rw [way_succ, way_succ]
          exact concur_follow onward_way (fun r ts hts => ih m r hts) r.plan hts

/-- A call that is made with other budgets is made, unless a budget runs out
before. -/
private theorem Plan.Calls.concur {s : Stage} (h : ∀ r, Onward (way r))
    (hway : ∀ r ts, ts ≠ [] → Concur (way r ts) (way' r ts))
    (hcall : p.Calls b way ts s) (hts : ts ≠ []) :
    p.follow b way' ts = .error .exhausted ∨ p.Calls b way' ts s := by
  induction p generalizing ts with
  | stop | refuse => cases hcall
  | look choose ih => exact ih (peek ts) hcall hts
  | take use p ih =>
      obtain ⟨us, hus, hcall⟩ := hcall
      obtain ⟨t, -, hne⟩ := consume_eq_ok hus
      simp only [Plan.follow, Plan.Calls, kleisli_eq, hus, ok_bind]
      exact (ih hcall hne).imp_right fun hcall => ⟨us, rfl, hcall⟩
  | call r p ih =>
      rcases hcall with rfl | ⟨us, hus, hcall⟩
      · exact .inr (.inl rfl)
      · simp only [Plan.follow, Plan.Calls, kleisli_eq]
        rcases hway r ts hts with hout | hout | hsame
        · cases hus.symm.trans hout
        · exact .inl (by rw [hout, error_bind])
        · rw [← hsame, hus, ok_bind]
          exact (ih hcall (h r ts us hts hus).1).imp_right fun hcall =>
            .inr ⟨us, rfl, hcall⟩

/-- **A budget runs out if and only if as many calls are nested.** -/
theorem exhausted_iff (hb : b ≠ .exhausted) (n : Nat) (s : Stage)
    (hs : s.tokens ≠ []) :
    s.reader.way b n s.tokens = .error .exhausted ↔
      ∃ ss : List Stage, ss.length = n ∧
        List.IsChain (Stage.Enters b) (s :: ss) := by
  induction n generalizing s with
  | zero =>
      rw [way_zero]
      exact ⟨fun _ => ⟨[], rfl, .singleton s⟩, fun _ => rfl⟩
  | succ n ih =>
      obtain ⟨t, ts, hcons⟩ := List.exists_cons_of_ne_nil hs
      rw [hcons, way_succ, ← hcons]
      constructor
      · intro h
        obtain ⟨s', hcall, hout⟩ := (follow_exhausted_iff hb _ _).1 h
        have henters : s.Enters b s' := ⟨n, hcall⟩
        obtain ⟨ss, hlength, hchain⟩ := (ih s' (henters.onward hs).1).1 hout
        exact ⟨s' :: ss, congrArg Nat.succ hlength, .cons_cons henters hchain⟩
      · rintro ⟨ss, hlength, hchain⟩
        obtain ⟨s', ss, rfl⟩ := List.exists_cons_of_length_eq_add_one hlength
        obtain ⟨⟨m, hcall⟩, hchain⟩ := List.isChain_cons_cons.1 hchain
        have hne := (hcall.onward onward_way hs).1
        have hout := (ih s' hne).2 ⟨ss, Nat.succ.inj hlength, hchain⟩
        rcases hcall.concur onward_way (fun r ts hts => concur_way n r hts)
          hs with h | hcall
        · exact h
        · exact (follow_exhausted_iff hb _ _).2 ⟨s', hcall, hout⟩

/-- There are not more calls nested than tokens and ranks allow. -/
private theorem chain_length_le {s : Stage} {ss : List Stage}
    (h : List.IsChain (Stage.Enters b) (s :: ss)) (hs : s.tokens ≠ []) :
    ss.length ≤ s.size := by
  induction ss generalizing s with
  | nil => exact Nat.zero_le _
  | cons s' ss ih =>
      obtain ⟨henters, hchain⟩ := List.isChain_cons_cons.1 h
      have hlength := ih hchain (henters.onward hs).1
      have hlt := henters.size_lt hs
      rw [List.length_cons]
      omega

/-- A budget of four for each token, and four more, does not run out. -/
theorem not_exhausted (hb : b ≠ .exhausted) (r : Reader) (hts : ts ≠ [])
    (hn : 4 * ts.length + 4 ≤ n) : r.way b n ts ≠ .error .exhausted := by
  intro hout
  obtain ⟨ss, hlength, hchain⟩ := (exhausted_iff hb n ⟨r, ts⟩ hts).1 hout
  have hle : ss.length ≤ 4 * ts.length + r.rank := chain_length_le hchain hts
  have hrank := r.rank_le
  omega

end Fixture.Parse
