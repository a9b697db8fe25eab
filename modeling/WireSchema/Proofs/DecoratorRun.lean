import WireSchema.Proofs.ReaderSpan

/-! # Runs of decorators and doc comments

What stands before a declaration, a member or a field is a run of decorators and doc comments
(`IsRun`). A run is read from its tokens alone, up to the first token that belongs to none
(`preamble_append`), so that it comes apart at each of its marks, and the name behind a mark is the
name of a decorator that has been read (`preamble_mark`). -/

namespace WireSchema

namespace Parse

/-! ### Readers -/

/-- The kinds of tokens that stand between the parentheses of a decorator. -/
def argumentKinds : List TokenKind := [.number, .string, .identifier, .comma]

theorem argument?_eq_none_iff {t : Token} :
    argument? t = .ok none ↔ t.kind ∉ [TokenKind.number, .string, .identifier] := by
  unfold argument?
  split
  · split <;> simp_all
  · simp_all
  · split_ifs <;> simp_all
  · simp_all

theorem arguments_of_peek {ts : Tokens} (h : peek ts ∉ [TokenKind.number, .string, .identifier]) :
    arguments ts = .ok ([], ts) := by
  cases ts with
  | nil => rw [arguments]
  | cons t ts => rw [arguments, argument?_eq_none_iff.2 h]

theorem arguments_spans (ts : Tokens) :
    SpansAt arguments (fun _ u => ∀ t ∈ u, t.kind ∈ argumentKinds) ts := by
  intro args rest h
  fun_induction arguments ts generalizing args rest with
  | case1 =>
    cases h
    refine ⟨[], rfl, by simp, fun rest' hpeek => ?_⟩
    rw [List.nil_append]
    exact arguments_of_peek (hpeek ▸ by decide)
  | case2 => cases h
  | case3 t ts hnone =>
    cases h
    refine ⟨[], rfl, by simp, fun rest' hpeek => ?_⟩
    rw [List.nil_append]
    exact arguments_of_peek (hpeek ▸ argument?_eq_none_iff.1 hnone)
  | case4 => cases h
  | case5 t ts arg harg args rest h' ih =>
    cases h
    obtain ⟨used, hused, hkinds, hframe⟩ := ih args rest h'
    have hspan : SpansAt (fun ts => .ok ((), skip .comma ts)) (fun _ u => ∀ t ∈ u, t.kind = .comma)
        ts := spansAt_skip (by decide) fun _ h => h
    obtain ⟨comma, hts, hcomma, hskip⟩ := hspan () (skip .comma ts) rfl
    rw [hused] at hts hskip
    refine ⟨t :: (comma ++ used), by rw [hts]; simp, ?_, fun rest' hpeek => ?_⟩
    · have ht : t.kind ∈ [TokenKind.number, .string, .identifier] := by
        by_contra hkind
        rw [argument?_eq_none_iff.2 hkind] at harg
        cases harg
      have hcomma : ∀ t ∈ comma, t.kind ∈ argumentKinds := fun t ht => hcomma t ht ▸ by decide
      refine List.forall_mem_cons.2 ⟨List.mem_append_left [TokenKind.comma] ht, ?_⟩
      exact List.forall_mem_append.2 ⟨hcomma, hkinds⟩
    · have hskip := hskip (used ++ rest') (peek_append used hpeek)
      have hskip : skip .comma (comma ++ (used ++ rest')) = used ++ rest' := by
        injection hskip with hskip
        exact congrArg Prod.snd hskip
      rw [List.cons_append, arguments_some harg, List.append_assoc, hskip, hframe rest' hpeek]
      rfl

/-- What may stand behind the name of a decorator: nothing, or arguments in parentheses. -/
inductive IsArguments : Tokens → Prop
  | none : IsArguments []
  | list {opening closing : Token} {inner : Tokens} (hopening : opening.kind = .leftParen)
    (hinner : ∀ t ∈ inner, t.kind ∈ argumentKinds) (hclosing : closing.kind = .rightParen) :
    IsArguments (opening :: (inner ++ [closing]))

theorem argumentList_spans (ts : Tokens) :
    SpansAt argumentList (fun _ u => IsArguments u) ts := by
  refine SpansAt.of_eq (SpansAt.ite (c := (· = .leftParen)) (fun hopen => ?_) fun _ => ?_)
    fun ts' _ => argumentList_eq ts'
  · refine SpansAt.tail (r := fun ts => arguments ts >>= _) hopen (by decide)
      fun opening hopening => ?_
    refine (arguments_spans ts.tail).bind fun args inner mid hinner _ => ?_
    refine SpansAt.expect fun closing mid' hclosing _ => ?_
    exact spansAt_ok (.list hopening hinner hclosing)
  · exact spansAt_ok .none

/-- A run of decorators and doc comments. -/
inductive IsRun : Tokens → Prop
  | nil : IsRun []
  | doc {t : Token} {run : Tokens} (ht : t.kind = .docComment) (hrun : IsRun run) : IsRun (t :: run)
  | decorator {mark name : Token} {args run : Tokens} (hmark : mark.kind = .at)
    (hname : name.kind = .identifier) (hargs : IsArguments args) (hrun : IsRun run) :
    IsRun (mark :: name :: (args ++ run))

theorem IsRun.append {run run' : Tokens} (h : IsRun run) (h' : IsRun run') :
    IsRun (run ++ run') := by
  induction h with
  | nil => exact h'
  | doc ht _ ih => exact .doc ht ih
  | @decorator mark name args run hmark hname hargs _ ih =>
    rw [List.cons_append, List.cons_append, List.append_assoc]
    exact .decorator hmark hname hargs ih

theorem decorator_spans (ts : Tokens) : SpansAt decorator (fun _ u => IsRun u) ts := by
  refine SpansAt.of_eq ?_ fun ts' _ => decorator_eq ts'
  refine SpansAt.expect fun mark mid hmark _ => ?_
  refine SpansAt.expect fun name mid' hname _ => ?_
  refine (argumentList_spans mid').bind fun args u mid'' hargs _ => ?_
  exact spansAt_ok (.decorator hmark hname hargs .nil)

theorem preamble_eq (doc : Option String) (ts : Tokens) :
    preamble doc ts = if peek ts = .docComment then do
        let (t, left) ← expect .docComment "" ts
        preamble (some t.text) left
      else if peek ts = .at then do
        let (d, left) ← decorator ts
        let (p, left) ← preamble doc left
        return (⟨d :: p.decorators, p.doc⟩, left)
      else .ok (⟨[], doc⟩, ts) := by
  split_ifs with hdoc hat
  · cases ts with
    | nil => cases hdoc
    | cons t ts =>
      rw [preamble_doc hdoc, expect_cons hdoc]
      rfl
  · cases ts with
    | nil => cases hat
    | cons t ts => exact preamble_at hat ts
  · exact preamble_end ts hdoc hat

theorem preamble_spans (doc : Option String) (ts : Tokens) :
    SpansAt (preamble doc) (fun _ u => IsRun u) ts := by
  refine SpansAt.of_eq (SpansAt.ite (c := (· = .docComment)) (fun _ => ?_) fun _ =>
    SpansAt.ite (c := (· = .at)) (fun _ => ?_) fun _ => ?_) fun ts' _ => preamble_eq doc ts'
  · refine SpansAt.expect fun t mid ht h => ?_
    have hlen := expect_length h
    exact (preamble_spans (some t.text) mid).mono fun _ _ hrun => .doc ht hrun
  · refine (decorator_spans ts).bind fun d u mid hd h => ?_
    have hlen := decorator_length h
    refine (preamble_spans doc mid).bind fun p run left hrun _ => ?_
    refine spansAt_ok ?_
    rw [List.append_nil]
    exact hd.append hrun
  · exact spansAt_ok .nil
termination_by ts.length

/-! ### Runs of decorators -/

/-- Two lists put together, cut at a token: it stands in the first or in the second. -/
theorem append_eq_append_cons {u v front back : Tokens} {t : Token}
    (h : u ++ v = front ++ t :: back) :
    (∃ mid, u = front ++ t :: mid ∧ back = mid ++ v) ∨
      ∃ mid, front = u ++ mid ∧ v = mid ++ t :: back := by
  rcases List.append_eq_append_iff.1 h with ⟨mid, hfront, hv⟩ | ⟨mid, hu, hv⟩
  · exact .inr ⟨mid, hfront, hv⟩
  · cases mid with
    | nil => exact .inr ⟨[], by rw [hu, List.append_nil, List.append_nil], hv.symm⟩
    | cons c mid =>
      cases hv
      exact .inl ⟨mid, hu, rfl⟩

theorem IsArguments.kind {args : Tokens} (h : IsArguments args) :
    ∀ t ∈ args, t.kind ∈ TokenKind.leftParen :: .rightParen :: argumentKinds := by
  cases h with
  | none => simp
  | list hopening hinner hclosing =>
    refine List.forall_mem_cons.2 ⟨by simp [hopening], List.forall_mem_append.2 ⟨?_, ?_⟩⟩
    · exact fun t ht => .tail _ (.tail _ (hinner t ht))
    · exact List.forall_mem_singleton.2 (by simp [hclosing])

theorem IsRun.kind {run : Tokens} (h : IsRun run) : ∀ t ∈ run,
    t.kind ∈ TokenKind.docComment :: .at :: .leftParen :: .rightParen :: argumentKinds := by
  induction h with
  | nil => simp
  | doc ht hrun ih => exact List.forall_mem_cons.2 ⟨by simp [ht], ih⟩
  | decorator hmark hname hargs hrun ih =>
    refine List.forall_mem_cons.2 ⟨by simp [hmark], List.forall_mem_cons.2 ⟨?_, ?_⟩⟩
    · simp [hname, argumentKinds]
    · exact List.forall_mem_append.2 ⟨fun t ht => .tail _ (.tail _ (hargs.kind t ht)), ih⟩

/-- At a mark a run comes apart into a run, a decorator and a run. -/
theorem IsRun.split {front mid : Tokens} {mark : Token} (h : IsRun (front ++ mark :: mid))
    (hmark : mark.kind = .at) : IsRun front ∧ ∃ name args run, mid = name :: (args ++ run) ∧
      name.kind = .identifier ∧ IsArguments args ∧ IsRun run := by
  generalize hts : front ++ mark :: mid = ts at h
  induction h generalizing front with
  | nil => simp at hts
  | doc ht hrun ih =>
    cases front with
    | nil =>
      cases hts
      rw [hmark] at ht
      cases ht
    | cons t front =>
      cases hts
      obtain ⟨hfront, hmid⟩ := ih rfl
      exact ⟨.doc ht hfront, hmid⟩
  | @decorator m n args run hm hn hargs hrun ih =>
    rcases front with _ | ⟨t, _ | ⟨t', front⟩⟩
    · cases hts
      exact ⟨.nil, n, args, run, rfl, hn, hargs, hrun⟩
    · cases hts
      rw [hmark] at hn
      cases hn
    · simp only [List.cons_append, List.cons.injEq] at hts
      obtain ⟨rfl, rfl, hts⟩ := hts
      rcases append_eq_append_cons hts.symm with ⟨rest, rfl, -⟩ | ⟨rest, rfl, hrest⟩
      · have hkind := hargs.kind mark (by simp)
        rw [hmark] at hkind
        exact absurd hkind (by decide)
      · obtain ⟨hfront, hmid⟩ := ih hrest.symm
        exact ⟨.decorator hm hn hargs hfront, hmid⟩

/-- The first token with a property is at one place. -/
theorem append_cons_inj {p : Token → Prop} {u u' v v' : Tokens} {t t' : Token}
    (h : u ++ t :: v = u' ++ t' :: v') (hu : ∀ c ∈ u, ¬ p c) (hu' : ∀ c ∈ u', ¬ p c) (ht : p t)
    (ht' : p t') : u = u' ∧ t = t' ∧ v = v' := by
  rcases append_eq_append_cons h with ⟨mid, rfl, -⟩ | ⟨mid, rfl, hmid⟩
  · exact absurd ht' (hu t' (by simp))
  · cases mid with
    | nil =>
      cases hmid
      simp
    | cons c mid =>
      cases hmid
      exact absurd ht (hu' t (by simp))

/-- An opening parenthesis is never left. -/
theorem argumentList_ne_nil {ts left : Tokens} {as : List Argument} (hopen : peek ts = .leftParen)
    (h : argumentList ts = .ok (as, left)) : left ≠ ts := by
  rw [argumentList_eq, if_pos hopen] at h
  obtain ⟨⟨as', mid⟩, hmid, h⟩ := bind_ok h
  obtain ⟨⟨closing, left'⟩, hclosing, h⟩ := bind_ok h
  cases h
  have hlen := arguments_length hmid
  have hlen' := expect_length hclosing
  rintro rfl
  rw [List.length_tail] at hlen
  omega

/-- Arguments are read up to where they end. -/
theorem argumentList_append {args rest left : Tokens} {as : List Argument}
    (hargs : IsArguments args) (hrest : peek rest ≠ .leftParen)
    (h : argumentList (args ++ rest) = .ok (as, left)) :
    left = rest ∧
      ∀ rest', peek rest' = peek rest → argumentList (args ++ rest') = .ok (as, rest') := by
  obtain ⟨used, hused, hread, hframe⟩ := argumentList_spans _ as left h
  have heq : used = args ∧ left = rest := by
    cases hargs with
    | none =>
      cases hread with
      | none => exact ⟨rfl, hused.symm⟩
      | list hopening =>
        rw [List.nil_append] at hused
        rw [hused] at hrest
        exact absurd hopening hrest
    | list hopening hinner hclosing =>
      cases hread with
      | none => exact absurd hused.symm (argumentList_ne_nil hopening h)
      | list hopening' hinner' hclosing' =>
        have hnot : ∀ u : Tokens, (∀ t ∈ u, t.kind ∈ argumentKinds) →
            ∀ t ∈ u, ¬ t.kind = .rightParen := by
          intro u hu t ht hkind
          exact absurd (hkind ▸ hu t ht) (by decide)
        simp only [List.cons_append, List.append_assoc, List.cons.injEq] at hused
        obtain ⟨rfl, rfl, rfl⟩ := append_cons_inj hused.2 (hnot _ hinner) (hnot _ hinner') hclosing
          hclosing'
        exact ⟨by rw [hused.1], rfl⟩
  obtain ⟨rfl, rfl⟩ := heq
  exact ⟨rfl, hframe⟩

/-- A decorator behind its name. -/
theorem decorator_cons {mark name : Token} (hmark : mark.kind = .at)
    (hname : name.kind = .identifier) (rest : Tokens) :
    decorator (mark :: name :: rest) = do
      let (args, left) ← argumentList rest
      return (⟨name.text, args, mark.position⟩, left) := by
  rw [decorator_eq, expect_cons hmark]
  show expect _ _ _ >>= _ = _
  rw [expect_cons hname]
  rfl

/-- A run that is read with something behind it is read first, and it is read in the same way with
anything of the same kind behind it. -/
theorem preamble_append {run rest left : Tokens} {doc : Option String} {p : Preamble}
    (hrun : IsRun run) (hrest : peek rest ≠ .leftParen)
    (h : preamble doc (run ++ rest) = .ok (p, left)) :
    ∃ (ds : List Decorator) (doc' : Option String) (q : Preamble),
      preamble doc' rest = .ok (q, left) ∧ p = ⟨ds ++ q.decorators, q.doc⟩ ∧
        ∀ rest' q' left', peek rest' = peek rest → preamble doc' rest' = .ok (q', left') →
          preamble doc (run ++ rest') = .ok (⟨ds ++ q'.decorators, q'.doc⟩, left') := by
  induction hrun generalizing doc p with
  | nil => exact ⟨[], doc, p, h, rfl, fun _ _ _ _ h' => h'⟩
  | doc ht hrun ih =>
    rw [List.cons_append, preamble_doc ht] at h
    obtain ⟨ds, doc', q, hq, hp, hframe⟩ := ih h
    refine ⟨ds, doc', q, hq, hp, fun rest' q' left' hpeek hq' => ?_⟩
    rw [List.cons_append, preamble_doc ht]
    exact hframe rest' q' left' hpeek hq'
  | @decorator mark name args run hmark hname hargs hrun ih =>
    -- so that a decorator without arguments does not take them from what stands behind it
    have hne : peek (run ++ rest) ≠ .leftParen := by
      cases hrun with
      | nil => exact hrest
      | doc ht => rw [List.cons_append, peek_cons, ht]; decide
      | decorator hm => rw [List.cons_append, peek_cons, hm]; decide
    simp only [List.cons_append, List.append_assoc] at h ⊢
    rw [preamble_at hmark, decorator_cons hmark hname] at h
    obtain ⟨⟨d, mid⟩, hd, h⟩ := bind_ok h
    obtain ⟨⟨as, mid'⟩, has, hd⟩ := bind_ok hd
    obtain ⟨⟨p', left'⟩, hp', h⟩ := bind_ok h
    cases hd
    cases h
    obtain ⟨rfl, hargs⟩ := argumentList_append hargs hne has
    obtain ⟨ds, doc', q, hq, rfl, hframe⟩ := ih hp'
    refine ⟨⟨name.text, as, mark.position⟩ :: ds, doc', q, hq, rfl, ?_⟩
    intro rest' q' left' hpeek hq'
    rw [preamble_at hmark, decorator_cons hmark hname, hargs _ (peek_append run hpeek)]
    show preamble doc (run ++ rest') >>= _ = _
    rw [hframe rest' q' left' hpeek hq']
    rfl

/-- A mark in a run stands before the name of a decorator that has been read. With another name in
its place the run is read up to the same token. -/
theorem preamble_mark {front mid left : Tokens} {mark : Token} {doc : Option String} {p : Preamble}
    (hrun : IsRun (front ++ mark :: mid)) (hmark : mark.kind = .at)
    (h : preamble doc (front ++ mark :: (mid ++ left)) = .ok (p, left)) :
    ∃ name rest, mid = name :: rest ∧ name.kind = .identifier ∧
      name.text ∈ p.decorators.map Decorator.name ∧ IsRun (mark :: mid) ∧
        ∀ other, ∃ ds,
          preamble doc (front ++ mark :: { name with text := other } :: (rest ++ left)) =
            .ok (⟨ds, p.doc⟩, left) := by
  obtain ⟨hfront, name, args, run, rfl, hname, hargs, hrun⟩ := hrun.split hmark
  have hpeek : ∀ rest, peek (mark :: rest) ≠ .leftParen := by
    intro rest
    rw [peek_cons, hmark]
    decide
  obtain ⟨ds, doc', q, hq, rfl, hframe⟩ := preamble_append hfront (hpeek _) h
  rw [List.cons_append, preamble_at hmark, decorator_cons hmark hname] at hq
  obtain ⟨⟨d, mid⟩, hd, hq⟩ := bind_ok hq
  obtain ⟨⟨as, mid'⟩, has, hd⟩ := bind_ok hd
  obtain ⟨⟨p', left'⟩, hp', hq⟩ := bind_ok hq
  cases hd
  cases hq
  refine ⟨name, args ++ run, rfl, hname, by simp, .decorator hmark hname hargs hrun, ?_⟩
  intro other
  have hq' : preamble doc' (mark :: { name with text := other } :: (args ++ run ++ left)) =
      .ok (⟨⟨other, as, mark.position⟩ :: p'.decorators, p'.doc⟩, left) := by
    rw [preamble_at hmark, decorator_cons hmark (by exact hname), has]
    show preamble doc' mid >>= _ = _
    rw [hp']
    rfl
  have hother := hframe _ _ _ (by rfl) hq'
  exact ⟨_, hother⟩

/-- The kinds of tokens that a declaration starts with. -/
def declarationKinds : List TokenKind := [.namespaceWord, .enumWord, .modelWord]

/-- A run before a declaration is read up to there. -/
theorem left_of_preamble {run rest left : Tokens} {doc : Option String} {p : Preamble}
    (hrun : IsRun run) (hrest : peek rest ∈ declarationKinds)
    (h : preamble doc (run ++ rest) = .ok (p, left)) : left = rest := by
  have hkinds : ∀ kind ∈ declarationKinds,
      kind ≠ .docComment ∧ kind ≠ .at ∧ kind ≠ .leftParen := by decide
  obtain ⟨hdoc, hat, hparen⟩ := hkinds _ hrest
  obtain ⟨_, _, _, hq, -, -⟩ := preamble_append hrun hparen h
  rw [preamble_end rest hdoc hat] at hq
  cases hq
  rfl

/-! ### Marks -/

/-- Every mark stands before one of the names. -/
def Marks (names : List String) (u : Tokens) : Prop :=
  ∀ front mark back, u = front ++ mark :: back → mark.kind = .at →
    ∃ name rest, back = name :: rest ∧ name.kind = .identifier ∧ name.text ∈ names

theorem Marks.append {names : List String} {u v : Tokens} (hu : Marks names u)
    (hv : Marks names v) : Marks names (u ++ v) := by
  intro front mark back h hmark
  rcases append_eq_append_cons h with ⟨mid, rfl, rfl⟩ | ⟨mid, -, rfl⟩
  · obtain ⟨name, rest, rfl, hname, hmem⟩ := hu front mark mid rfl hmark
    exact ⟨name, rest ++ v, rfl, hname, hmem⟩
  · exact hv mid mark back rfl hmark

theorem Marks.mono {names names' : List String} {u : Tokens} (h : Marks names u)
    (hnames : names ⊆ names') : Marks names' u := by
  intro front mark back hu hmark
  obtain ⟨name, rest, hback, hname, hmem⟩ := h front mark back hu hmark
  exact ⟨name, rest, hback, hname, hnames hmem⟩

theorem marks_of_forall {names : List String} {u : Tokens} (h : ∀ t ∈ u, t.kind ≠ .at) :
    Marks names u := by
  rintro front mark back rfl hmark
  exact absurd hmark (h mark (by simp))

theorem preamble_marks (doc : Option String) (ts : Tokens) :
    SpansAt (preamble doc) (fun p u => IsRun u ∧ Marks (p.decorators.map Decorator.name) u) ts := by
  intro p left h
  obtain ⟨used, rfl, hrun, hframe⟩ := preamble_spans doc ts p left h
  refine ⟨used, rfl, ⟨hrun, ?_⟩, hframe⟩
  rintro front mark mid rfl hmark
  rw [List.append_assoc, List.cons_append] at h
  obtain ⟨name, rest, hmid, hname, hmem, -⟩ := preamble_mark hrun hmark h
  exact ⟨name, rest, hmid, hname, hmem⟩

end Parse

end WireSchema
