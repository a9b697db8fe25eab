import WireSchema.Proofs.Allowed
import WireSchema.Proofs.DecoratorRun

/-! # Which decorators are checked

Tokens that are read as a schema hold marks of decorators in two places: in the bodies of enums and
models, and between declarations. A mark stands before a name. In a body the name is known
(`Checked`), for members and fields are read only behind decorators that pass. Between declarations
it belongs to a run of decorators and doc comments (`IsRun`), and it is known if the run stands
before a declaration; any other run is passed over. `Guarded` says this of a mark from the tokens
before and behind it, and `Schema.ofTokens_mark` that it decides whether the name counts. -/

namespace WireSchema

namespace Parse

variable {α : Type}

/-! ### Bodies -/

/-- The names of the decorators that there are. -/
def knownNames : List String := KnownDecorator.all.map KnownDecorator.name

theorem names_subset_of_check {ds : List Decorator} {target : Target}
    (h : check ds target = .ok ()) : ds.map Decorator.name ⊆ knownNames := by
  intro name hname
  obtain ⟨d, hd, rfl⟩ := List.mem_map.1 hname
  obtain ⟨known, -, hknown, -⟩ := Decorator.allowed_iff.1 ((check_eq_ok_iff.1 h).2 d hd)
  rw [hknown]
  cases known <;> decide

/-- The kinds of tokens with which a body starts or ends. -/
def bodyKinds : List TokenKind := [.enumWord, .modelWord, .rightBrace]

theorem mem_bodyKinds {t : Token} (h : t.kind = .enumWord ∨ t.kind = .modelWord) :
    t.kind ∈ bodyKinds := by
  rcases h with h | h <;> simp [h, bodyKinds]

/-- Tokens of a body: no other body starts and none ends among them, and all names are known. -/
structure Checked (u : Tokens) : Prop where
  quiet : ∀ t ∈ u, t.kind ∉ bodyKinds
  marks : Marks knownNames u

theorem Checked.append {u v : Tokens} (hu : Checked u) (hv : Checked v) : Checked (u ++ v) :=
  ⟨List.forall_mem_append.2 ⟨hu.quiet, hv.quiet⟩, hu.marks.append hv.marks⟩

theorem IsRun.quiet {run : Tokens} (h : IsRun run) : ∀ t ∈ run, t.kind ∉ bodyKinds := by
  have hkinds : ∀ kind ∈ TokenKind.docComment :: .at :: .leftParen :: .rightParen :: argumentKinds,
      kind ∉ bodyKinds := by decide
  exact fun t ht => hkinds t.kind (h.kind t ht)

/-- The kinds of the tokens that members, fields and namespaces consist of. -/
def plainKinds : List TokenKind :=
  [.identifier, .dot, .semicolon, .comma, .colon, .leftBracket, .rightBracket, .leftBrace]

theorem checked_of_plain {u : Tokens} (h : ∀ t ∈ u, t.kind ∈ plainKinds) : Checked u := by
  have hkinds : ∀ kind ∈ plainKinds, kind ∉ bodyKinds ∧ kind ≠ .at := by decide
  exact ⟨fun t ht => (hkinds t.kind (h t ht)).1,
    marks_of_forall fun t ht => (hkinds t.kind (h t ht)).2⟩

theorem member_spans (p : Preamble) (next : Nat) (ts : Tokens) :
    SpansAt (member p next) (fun _ u => (∀ t ∈ u, t.kind ∈ plainKinds) ∧
      p.decorators.map Decorator.name ⊆ knownNames) ts := by
  refine SpansAt.of_eq ?_ fun ts' _ => member_eq p next ts'
  refine SpansAt.test fun hcheck => ?_
  refine SpansAt.expect fun name mid hname _ => ?_
  dsimp only
  split_ifs with hvalue
  · intro _ _ h
    cases h
  · refine spansAt_skip (by decide) fun u hu => ⟨?_, names_subset_of_check hcheck⟩
    have hu : ∀ t ∈ u, t.kind ∈ plainKinds := fun t ht => by simp [hu t ht, plainKinds]
    exact List.forall_mem_cons.2 ⟨by simp [hname, plainKinds], hu⟩

theorem typeRef_spans (ts : Tokens) :
    SpansAt typeRef (fun _ u => ∀ t ∈ u, t.kind ∈ plainKinds) ts := by
  refine SpansAt.of_eq ?_ fun ts' _ => typeRef_eq ts'
  refine SpansAt.expect fun name mid hname _ => ?_
  refine SpansAt.ite (c := (· = .leftBracket)) (fun hopen => ?_) fun _ => ?_
  · refine SpansAt.tail (r := fun ts => expect _ _ ts >>= _) hopen (by decide) fun t ht => ?_
    refine SpansAt.expect fun t' mid' ht' _ => spansAt_ok ?_
    simp [plainKinds, hname, ht, ht']
  · refine spansAt_ok ?_
    simp [plainKinds, hname]

theorem field_spans (p : Preamble) (ts : Tokens) :
    SpansAt (field p) (fun _ u => (∀ t ∈ u, t.kind ∈ plainKinds) ∧
      p.decorators.map Decorator.name ⊆ knownNames) ts := by
  refine SpansAt.of_eq ?_ fun ts' _ => field_eq p ts'
  refine SpansAt.expect fun name mid hname _ => ?_
  refine SpansAt.reject ?_
  refine SpansAt.expect fun colon mid' hcolon _ => ?_
  refine (typeRef_spans mid').bind fun type u mid'' htype _ => ?_
  refine SpansAt.reject ?_
  refine SpansAt.test fun hcheck => ?_
  refine spansAt_skip (by decide) fun v hv => ⟨?_, names_subset_of_check hcheck⟩
  have hv : ∀ t ∈ v, t.kind ∈ plainKinds := fun t ht => by simp [hv t ht, plainKinds]
  refine List.forall_mem_cons.2 ⟨by simp [hname, plainKinds], ?_⟩
  refine List.forall_mem_cons.2 ⟨by simp [hcolon, plainKinds], ?_⟩
  exact List.forall_mem_append.2 ⟨htype, hv⟩

/-- What stands behind an opening brace, up to the closing one. -/
inductive IsBlock : Tokens → Prop
  | intro {inner : Tokens} {closing : Token} (hinner : Checked inner)
    (hclosing : closing.kind = .rightBrace) : IsBlock (inner ++ [closing])

theorem IsBlock.append {u v : Tokens} (hu : Checked u) (hv : IsBlock v) : IsBlock (u ++ v) := by
  obtain ⟨hinner, hclosing⟩ := hv
  rw [← List.append_assoc]
  exact .intro (hu.append hinner) hclosing

theorem checked_nil : Checked [] := checked_of_plain (by simp)

/-- A reader of this form reads what stands in braces if it does so on items. -/
theorem block_spans {σ : Type} {q : σ → Tokens → Except ParseError (List α × Tokens)}
    (after : α → σ) {r : Preamble → σ → Tokens → Except ParseError (α × Tokens)}
    (hq : ∀ state ts, q state ts = if peek ts = .rightBrace then .ok ([], ts.tail) else do
      let (p, left) ← preamble none ts
      if p.decorators.isEmpty && peek left = .rightBrace then return ([], left.tail)
      let (a, left) ← r p state left
      let (as, left) ← q (after a) left
      return (a :: as, left))
    (hitem : ∀ p state ts, SpansAt (r p state) (fun _ u => (∀ t ∈ u, t.kind ∈ plainKinds) ∧
      p.decorators.map Decorator.name ⊆ knownNames) ts)
    (hlen : ∀ {p state ts a rest}, r p state ts = .ok (a, rest) → rest.length < ts.length)
    (state : σ) (ts : Tokens) : SpansAt (q state) (fun _ u => IsBlock u) ts := by
  refine SpansAt.of_eq (SpansAt.ite (c := (· = .rightBrace)) (fun hclose => ?_) fun _ => ?_)
    fun ts' _ => hq state ts'
  · exact SpansAt.tail (r := fun ts => .ok ([], ts)) hclose (by decide) fun t ht =>
      spansAt_ok (.intro checked_nil ht)
  · refine (preamble_marks none ts).bind fun p run mid hrun hp => ?_
    obtain ⟨hrun, hmarks⟩ := hrun
    have hp := preamble_length hp
    refine SpansAt.ite (c := fun kind => (p.decorators.isEmpty && kind = .rightBrace) = true)
      (fun hclose => ?_) fun _ => ?_
    · -- only doc comments stand before the brace
      simp only [Bool.and_eq_true, List.isEmpty_iff, decide_eq_true_eq] at hclose
      rw [hclose.1] at hmarks
      exact SpansAt.tail (r := fun ts => .ok ([], ts)) hclose.2 (by decide) fun t ht =>
        spansAt_ok (.intro ⟨hrun.quiet, hmarks.mono (List.nil_subset _)⟩ ht)
    · -- the names in the run are known because the item behind it has been read
      refine (hitem p state mid).bind fun a u mid' hu ha => ?_
      have ha := hlen ha
      refine (block_spans after hq hitem hlen (after a) mid').bind fun as v left hv _ => ?_
      refine spansAt_ok ?_
      rw [List.append_nil]
      exact .append ⟨hrun.quiet, hmarks.mono hu.2⟩ (.append (checked_of_plain hu.1) hv)
termination_by ts.length

theorem members_spans (next : Nat) (ts : Tokens) :
    SpansAt (members next) (fun _ u => IsBlock u) ts :=
  block_spans (fun m => m.value.toNat + 1) members_eq member_spans member_length next ts

theorem fields_spans (ts : Tokens) : SpansAt fields (fun _ u => IsBlock u) ts :=
  block_spans (fun _ => ()) (fun _ => fields_eq) (fun p _ => field_spans p) field_length () ts

/-- A word, a name and a block. -/
theorem body_spans {β : Type} {q : Tokens → Except ParseError (List α × Tokens)}
    (hq : ∀ ts, SpansAt q (fun _ u => IsBlock u) ts) (kind : TokenKind) (what what' : String)
    (f : Token → List α → β) (ts : Tokens) :
    SpansAt (fun ts => do
      let (_, ts) ← expect kind what ts
      let (name, ts) ← expect .identifier what' ts
      let (_, ts) ← expect .leftBrace "\"\x7b\"" ts
      let (as, ts) ← q ts
      return (f name as, ts))
      (fun _ u => ∃ word block, u = word :: block ∧ word.kind = kind ∧ IsBlock block) ts := by
  refine SpansAt.expect fun word mid hword _ => ?_
  refine SpansAt.expect fun name mid' hname _ => ?_
  refine SpansAt.expect fun opening mid'' hopening _ => ?_
  refine (hq mid'').bind fun as block left hblock _ => spansAt_ok ?_
  rw [List.append_nil]
  have hhead : Checked [name, opening] := checked_of_plain (by simp [plainKinds, hname, hopening])
  exact ⟨word, name :: opening :: block, rfl, hword, .append hhead hblock⟩

theorem enumDecl_spans (p : Preamble) (ts : Tokens) :
    SpansAt (enumDecl p) (fun _ u => ∃ word block, u = word :: block ∧ word.kind = .enumWord ∧
      IsBlock block) ts :=
  body_spans (members_spans 0) .enumWord "\"enum\"" "enum name"
    (fun name ms => Enum.mk name.text ms p.decorators p.doc name.position) ts

theorem modelDecl_spans (p : Preamble) (ts : Tokens) :
    SpansAt (modelDecl p) (fun _ u => ∃ word block, u = word :: block ∧ word.kind = .modelWord ∧
      IsBlock block) ts :=
  body_spans fields_spans .modelWord "\"model\"" "model name"
    (fun name fs => Model.mk name.text fs p.decorators p.doc (commandId p.decorators) .varying
      name.position) ts

theorem nameParts_eq (ts : Tokens) :
    nameParts ts = if peek ts = .dot then do
      let (part, left) ← expect .identifier "namespace part" ts.tail
      let (parts, left) ← nameParts left
      return (part.text :: parts, left)
    else .ok ([], ts) := by
  split_ifs with hdot
  · cases ts with
    | nil => cases hdot
    | cons t ts => exact nameParts_dot hdot ts
  · exact nameParts_end ts hdot

theorem nameParts_spans (ts : Tokens) :
    SpansAt nameParts (fun _ u => ∀ t ∈ u, t.kind ∈ plainKinds) ts := by
  refine SpansAt.of_eq (SpansAt.ite (c := (· = .dot)) (fun hdot => ?_) fun _ => ?_)
    fun ts' _ => nameParts_eq ts'
  · refine SpansAt.tail (r := fun ts => expect _ _ ts >>= _) hdot (by decide) fun dot hdot => ?_
    refine SpansAt.expect fun part mid hpart h => ?_
    have hlen := expect_length h
    have htail := List.length_tail (l := ts)
    refine (nameParts_spans mid).bind fun parts u left hu _ => spansAt_ok ?_
    rw [List.append_nil]
    refine List.forall_mem_cons.2 ⟨by simp [hdot, plainKinds], ?_⟩
    exact List.forall_mem_cons.2 ⟨by simp [hpart, plainKinds], hu⟩
  · exact spansAt_ok (by simp)
termination_by ts.length

theorem namespaceDecl_spans (ts : Tokens) :
    SpansAt namespaceDecl
      (fun _ u => ∀ t ∈ u, t.kind ∈ TokenKind.namespaceWord :: plainKinds) ts := by
  refine SpansAt.expect fun word mid hword _ => ?_
  refine SpansAt.expect fun name mid' hname _ => ?_
  refine (nameParts_spans mid').bind fun parts u mid'' hu _ => ?_
  refine spansAt_skip (by decide) fun v hv => ?_
  have hu : ∀ t ∈ u, t.kind ∈ TokenKind.namespaceWord :: plainKinds := fun t ht => .tail _ (hu t ht)
  have hv : ∀ t ∈ v, t.kind ∈ TokenKind.namespaceWord :: plainKinds :=
    fun t ht => by simp [hv t ht, plainKinds]
  refine List.forall_mem_cons.2 ⟨by simp [hword], ?_⟩
  refine List.forall_mem_cons.2 ⟨by simp [hname, plainKinds], ?_⟩
  exact List.forall_mem_append.2 ⟨hu, hv⟩

/-! ### Declarations -/

/-- The tokens end in the body of an enum or a model. -/
def InBody (front : Tokens) : Prop :=
  ∃ u word v, front = u ++ word :: v ∧ (word.kind = .enumWord ∨ word.kind = .modelWord) ∧
    ∀ t ∈ v, t.kind ≠ .rightBrace

theorem InBody.append_left {front : Tokens} (h : InBody front) (u : Tokens) :
    InBody (u ++ front) := by
  obtain ⟨u', word, v, rfl, hword, hv⟩ := h
  exact ⟨u ++ u', word, v, (List.append_assoc u u' _).symm, hword, hv⟩

/-- Tokens in which all bodies are closed can be left out. -/
theorem InBody.of_append {u front : Tokens} (h : InBody (u ++ front))
    (hu : ∀ a word v, u = a ++ word :: v → (word.kind = .enumWord ∨ word.kind = .modelWord) →
      ∃ t ∈ v, t.kind = .rightBrace) : InBody front := by
  obtain ⟨a, word, v, heq, hword, hv⟩ := h
  rcases append_eq_append_cons heq with ⟨mid, hmid, rfl⟩ | ⟨mid, -, rfl⟩
  · obtain ⟨t, ht, hkind⟩ := hu a word mid hmid hword
    exact absurd hkind (hv t (List.mem_append_left front ht))
  · exact ⟨mid, word, v, rfl, hword, hv⟩

/-- Whether the names of decorators are looked at behind `front` and before the rest: in a body, and
in a run that stands before a declaration. -/
def Guarded (front ts : Tokens) : Prop :=
  InBody front ∨ ∃ run rest, ts = run ++ rest ∧ IsRun run ∧ peek rest ∈ declarationKinds

/-- Tokens that a declaration consists of: marks stand in its body only, which is closed. -/
structure Settled (u : Tokens) : Prop where
  marks : ∀ front mark back, u = front ++ mark :: back → mark.kind = .at →
    InBody front ∧ ∃ name rest, back = name :: rest ∧ name.kind = .identifier ∧
      name.text ∈ knownNames
  closed : ∀ front, InBody (u ++ front) → InBody front

theorem settled_of_forall {u : Tokens}
    (h : ∀ t ∈ u, t.kind ∉ [TokenKind.at, .enumWord, .modelWord]) : Settled u where
  marks := by
    rintro front mark back rfl hmark
    exact absurd (h mark (by simp)) (by simp [hmark])
  closed front hfront := by
    refine hfront.of_append ?_
    rintro a word v rfl hword
    refine absurd (h word (by simp)) ?_
    rcases hword with hword | hword <;> simp [hword]

theorem IsBlock.settled {word : Token} {block : Tokens} (hblock : IsBlock block)
    (hword : word.kind = .enumWord ∨ word.kind = .modelWord) : Settled (word :: block) := by
  obtain @⟨inner, closing, hinner, hclosing⟩ := hblock
  constructor
  · intro front mark back h hmark
    have hne : ∀ t, t.kind ∈ bodyKinds → mark ∉ [t] := by
      intro t ht hmem
      rw [← List.mem_singleton.1 hmem, hmark] at ht
      exact absurd ht (by decide)
    rcases append_eq_append_cons (u := [word]) (v := inner ++ [closing]) h with
      ⟨mid, hmid, -⟩ | ⟨front, rfl, h'⟩
    · exact absurd (hmid ▸ by simp) (hne word (mem_bodyKinds hword))
    · rcases append_eq_append_cons h' with ⟨mid, rfl, rfl⟩ | ⟨mid, -, hmid⟩
      · obtain ⟨name, rest, rfl, hname⟩ := hinner.marks front mark mid rfl hmark
        have hfront : ∀ t ∈ front, t.kind ≠ .rightBrace := by
          intro t ht hkind
          exact hinner.quiet t (List.mem_append_left _ ht) (by simp [hkind, bodyKinds])
        exact ⟨⟨[], word, front, rfl, hword, hfront⟩, name, rest ++ [closing], rfl, hname⟩
      · exact absurd (hmid ▸ by simp) (hne closing (by simp [hclosing, bodyKinds]))
  · -- the only word is the first token, and the closing brace stands behind it
    intro front hfront
    refine hfront.of_append fun a word' v h hword' => ?_
    rcases append_eq_append_cons (u := [word]) (v := inner ++ [closing]) h with
      ⟨mid, -, rfl⟩ | ⟨mid, -, h'⟩
    · exact ⟨closing, by simp, hclosing⟩
    · have hmem : word' ∈ inner ++ [closing] := h' ▸ by simp
      rcases List.mem_append.1 hmem with hmem | hmem
      · exact absurd (mem_bodyKinds hword') (hinner.quiet word' hmem)
      · rw [List.mem_singleton.1 hmem, hclosing] at hword'
        simp at hword'

theorem declaration_of_peek {ts : Tokens} (h : peek ts ∉ declarationKinds) (p : Preamble) :
    declaration p ts = .ok (none, ts.tail) := by
  simp only [declarationKinds, List.mem_cons, List.not_mem_nil, or_false, not_or] at h
  rw [declaration_eq]
  split
  · next hpeek => exact absurd hpeek h.1
  · next hpeek => exact absurd hpeek h.2.1
  · next hpeek => exact absurd hpeek h.2.2
  · rfl

theorem declaration_spans (p : Preamble) {ts : Tokens} (hat : peek ts ≠ .at)
    (heof : peek ts ≠ .eof) :
    SpansAt (declaration p) (fun _ u => Settled u ∧
      (peek ts ∈ declarationKinds → p.decorators.map Decorator.name ⊆ knownNames)) ts := by
  by_cases hkind : peek ts ∈ declarationKinds
  · simp only [declarationKinds, List.mem_cons, List.not_mem_nil, or_false] at hkind
    rcases hkind with hkind | hkind | hkind
    · refine SpansAt.of_eq (SpansAt.test fun hcheck => ?_) fun ts' hpeek => by
        rw [declaration_eq, hpeek, hkind]
      refine (namespaceDecl_spans ts).bind fun name u left hu _ => spansAt_ok ?_
      rw [List.append_nil]
      have hkinds : ∀ kind ∈ TokenKind.namespaceWord :: plainKinds,
          kind ∉ [TokenKind.at, .enumWord, .modelWord] := by decide
      exact ⟨settled_of_forall fun t ht => hkinds t.kind (hu t ht),
        fun _ => names_subset_of_check hcheck⟩
    · refine SpansAt.of_eq (SpansAt.test fun hcheck => ?_) fun ts' hpeek => by
        rw [declaration_eq, hpeek, hkind]
      refine (enumDecl_spans p ts).bind fun name u left hu _ => spansAt_ok ?_
      obtain ⟨word, block, rfl, hword, hblock⟩ := hu
      rw [List.append_nil]
      exact ⟨hblock.settled (.inl hword), fun _ => names_subset_of_check hcheck⟩
    · refine SpansAt.of_eq (SpansAt.test fun hcheck => ?_) fun ts' hpeek => by
        rw [declaration_eq, hpeek, hkind]
      refine (modelDecl_spans p ts).bind fun name u left hu _ => spansAt_ok ?_
      obtain ⟨word, block, rfl, hword, hblock⟩ := hu
      rw [List.append_nil]
      exact ⟨hblock.settled (.inr hword), fun _ => names_subset_of_check hcheck⟩
  · refine SpansAt.of_eq (SpansAt.tail (r := fun ts => .ok (none, ts)) rfl heof fun t ht => ?_)
      fun ts' hpeek => declaration_of_peek (hpeek ▸ hkind) p
    refine spansAt_ok ?_
    refine ⟨settled_of_forall (List.forall_mem_singleton.2 ?_), fun h => absurd h hkind⟩
    rw [ht]
    simp only [declarationKinds, List.mem_cons, List.not_mem_nil, or_false, not_or] at hkind ⊢
    exact ⟨hat, hkind.2⟩

/-- What is left by a preamble does not start with a mark. -/
theorem peek_of_preamble {doc : Option String} {ts left : Tokens} {p : Preamble}
    (h : preamble doc ts = .ok (p, left)) : peek left ≠ .at := by
  fun_induction preamble doc ts generalizing p left with
  | case1 =>
    cases h
    decide
  | case2 doc t ts _ ih => exact ih h
  | case3 => cases h
  | case4 => cases h
  | case5 doc t ts _ _ d mid _ p' left' hp' ih =>
    cases h
    exact ih hp'
  | case6 doc t ts _ hat =>
    cases h
    exact hat

/-- A turn of the loop over declarations. -/
theorem declarations_of_declaration {doc : Option String} {ts left rest : Tokens} {p : Preamble}
    {d : Option Declaration} (hp : preamble doc ts = .ok (p, left)) (heof : peek left ≠ .eof)
    (hd : declaration p left = .ok (d, rest)) :
    declarations doc ts = do
      let ds ← declarations (d.elim p.doc fun _ => none) rest
      return d.toList ++ ds := by
  rw [declarations_eq, hp]
  show (if peek left = .eof then _ else _) = _
  rw [if_neg heof, hd]
  cases d with
  | none =>
    show declarations p.doc rest = declarations p.doc rest >>= _
    cases declarations p.doc rest <;> rfl
  | some d => rfl

theorem InBody.of_run {run front : Tokens} (hrun : IsRun run) (h : InBody (run ++ front)) :
    InBody front := by
  refine h.of_append ?_
  rintro a word v rfl hword
  exact absurd (mem_bodyKinds hword) (hrun.quiet word (by simp))

theorem exists_declaration {doc : Option String} {ts left : Tokens} {p : Preamble}
    {ds : List Declaration} (hp : preamble doc ts = .ok (p, left)) (heof : peek left ≠ .eof)
    (h : declarations doc ts = .ok ds) :
    ∃ d rest ds', declaration p left = .ok (d, rest) ∧
      declarations (d.elim p.doc fun _ => none) rest = .ok ds' ∧ ds = d.toList ++ ds' := by
  cases hd : declaration p left with
  | error e =>
    rw [declarations_eq, hp] at h
    change (if peek left = .eof then _ else _) = _ at h
    rw [if_neg heof, hd] at h
    cases h
  | ok r =>
    rw [declarations_of_declaration hp heof hd] at h
    obtain ⟨ds', hds', h⟩ := bind_ok h
    cases h
    exact ⟨r.1, r.2, ds', rfl, hds', rfl⟩

/-- Where no declaration starts, nothing is made of decorators. -/
theorem declarations_of_peek {doc : Option String} {ts left : Tokens} {p : Preamble}
    (hp : preamble doc ts = .ok (p, left)) (h : peek left ∉ declarationKinds) :
    declarations doc ts = if peek left = .eof then .ok [] else declarations p.doc left.tail := by
  rw [declarations_eq, hp]
  show (if peek left = .eof then _ else _) = _
  rw [declaration_of_peek h]
  rfl

theorem names_subset_of_declarations {doc : Option String} {ts left : Tokens} {p : Preamble}
    {ds : List Declaration} (hp : preamble doc ts = .ok (p, left))
    (hleft : peek left ∈ declarationKinds) (h : declarations doc ts = .ok ds) :
    p.decorators.map Decorator.name ⊆ knownNames := by
  have heof : peek left ≠ .eof := by
    intro heof
    rw [heof] at hleft
    exact absurd hleft (by decide)
  obtain ⟨d, rest, -, hd, -⟩ := exists_declaration hp heof h
  obtain ⟨-, -, ⟨-, hnames⟩, -⟩ := declaration_spans p (peek_of_preamble hp) heof d rest hd
  exact hnames hleft

/-- What is to be shown of a mark: it stands before a name, which is known where the mark is guarded
and could be any other where it is not. -/
def MarkRead (doc : Option String) (ds : List Declaration) (front : Tokens) (mark : Token)
    (back : Tokens) : Prop :=
  ∃ name rest, back = name :: rest ∧ name.kind = .identifier ∧
    (Guarded front (mark :: back) → name.text ∈ knownNames) ∧
    (¬ Guarded front (mark :: back) → ∀ other,
      declarations doc (front ++ mark :: { name with text := other } :: rest) = .ok ds)

theorem markRead_of_run {doc : Option String} {front mid left : Tokens} {mark : Token}
    {p : Preamble} {ds : List Declaration} (hrun : IsRun (front ++ mark :: mid))
    (hmark : mark.kind = .at)
    (hp : preamble doc (front ++ mark :: (mid ++ left)) = .ok (p, left))
    (h : declarations doc (front ++ mark :: (mid ++ left)) = .ok ds) :
    MarkRead doc ds front mark (mid ++ left) := by
  have hfront := (hrun.split hmark).1
  obtain ⟨name, rest, rfl, hname, hmem, hrun', hother⟩ := preamble_mark hrun hmark hp
  refine ⟨name, rest ++ left, rfl, hname, ?_⟩
  by_cases hkind : peek left ∈ declarationKinds
  · have hguarded : Guarded front (mark :: (name :: rest ++ left)) :=
      .inr ⟨mark :: name :: rest, left, rfl, hrun', hkind⟩
    exact ⟨fun _ => names_subset_of_declarations hp hkind h hmem, fun hnot => absurd hguarded hnot⟩
  · have hnot : ¬ Guarded front (mark :: (name :: rest ++ left)) := by
      rintro (hbody | ⟨run, rest', heq, hisRun, hpeek⟩)
      · -- there is no word in a run
        rw [← List.append_nil front] at hbody
        obtain ⟨u, word, v, heq, -⟩ := hbody.of_run hfront
        simp at heq
      · -- the run goes on to a declaration, so that it is read up to there
        rw [heq, ← List.append_assoc] at hp
        rw [left_of_preamble (hfront.append hisRun) hpeek hp] at hkind
        exact hkind hpeek
    refine ⟨fun hguarded => absurd hguarded hnot, fun _ other => ?_⟩
    obtain ⟨ds', hp'⟩ := hother other
    rw [declarations_of_peek hp hkind] at h
    rw [declarations_of_peek hp' hkind]
    exact h

/-- A declaration is read in front of the mark. -/
theorem MarkRead.of_declaration {doc : Option String} {run used front back : Tokens}
    {mark : Token} {p : Preamble} {d : Option Declaration} {ds : List Declaration}
    (hrun : IsRun run) (hsettled : Settled used)
    (hp : ∀ rest, peek rest = peek (used ++ (front ++ mark :: back)) →
      preamble doc (run ++ rest) = .ok (p, rest))
    (hpeek : peek (used ++ (front ++ mark :: back)) ≠ .eof)
    (hd : ∀ rest, peek rest = peek (front ++ mark :: back) →
      declaration p (used ++ rest) = .ok (d, rest))
    (h : MarkRead (d.elim p.doc fun _ => none) ds front mark back) :
    MarkRead doc (d.toList ++ ds) (run ++ (used ++ front)) mark back := by
  obtain ⟨name, rest', rfl, hname, hknown, hother⟩ := h
  have hguarded : Guarded (run ++ (used ++ front)) (mark :: name :: rest') →
      Guarded front (mark :: name :: rest') :=
    Or.imp_left fun hbody => hsettled.closed front (hbody.of_run hrun)
  have hguarded' : Guarded front (mark :: name :: rest') →
      Guarded (run ++ (used ++ front)) (mark :: name :: rest') :=
    Or.imp_left fun hbody => (hbody.append_left used).append_left run
  refine ⟨name, rest', rfl, hname, fun h => hknown (hguarded h), fun hnot other => ?_⟩
  have hsame : peek (front ++ mark :: { name with text := other } :: rest') =
      peek (front ++ mark :: name :: rest') := peek_append front rfl
  have hp := hp _ (peek_append used hsame)
  have hpeek : peek (used ++ (front ++ mark :: { name with text := other } :: rest')) ≠ .eof := by
    rwa [peek_append used hsame]
  rw [List.append_assoc, List.append_assoc, declarations_of_declaration hp hpeek (hd _ hsame),
    hother (fun h => hnot (hguarded' h)) other]
  rfl

/-- **A mark among tokens that are read stands before a name.** Where it is guarded the name is
known, and where it is not, any other name would do. -/
theorem markRead_of_declarations {doc : Option String} {ts front back : Tokens} {mark : Token}
    {ds : List Declaration} (h : declarations doc ts = .ok ds) (hts : ts = front ++ mark :: back)
    (hmark : mark.kind = .at) (heof : ∀ t ∈ front, t.kind ≠ .eof) :
    MarkRead doc ds front mark back := by
  obtain ⟨⟨p, left⟩, hp, -⟩ := bind_ok (declarations_eq doc ts ▸ h)
  obtain ⟨run, hrun, hisRun, hframe⟩ := preamble_spans doc ts p left hp
  rcases append_eq_append_cons (hrun.symm.trans hts) with ⟨mid, rfl, rfl⟩ | ⟨front, rfl, hleft⟩
  · -- the mark stands in the run
    subst hts
    exact markRead_of_run hisRun hmark hp h
  · have hpeek : peek left ≠ .eof := by
      rw [hleft]
      cases front with
      | nil => simp [peek_cons, hmark]
      | cons t front => exact heof t (by simp)
    obtain ⟨d, rest, ds', hd, hds', rfl⟩ := exists_declaration hp hpeek h
    obtain ⟨used, hused, ⟨hsettled, -⟩, hdframe⟩ :=
      declaration_spans p (peek_of_preamble hp) hpeek d rest hd
    rcases append_eq_append_cons (hused.symm.trans hleft) with ⟨mid, rfl, rfl⟩ | ⟨front, rfl, hrest⟩
    · -- the mark stands in the declaration behind the run
      obtain ⟨hbody, name, rest', rfl, hname, hknown⟩ := hsettled.marks front mark mid rfl hmark
      refine ⟨name, rest' ++ rest, rfl, hname, fun _ => hknown, fun hnot => ?_⟩
      exact absurd (.inl (hbody.append_left run)) hnot
    · -- the mark stands behind the declaration
      have hlen := declaration_length hpeek hd
      have hlen' := preamble_length hp
      have hread := markRead_of_declarations hds' hrest hmark fun t ht => heof t (by simp [ht])
      subst hrest
      subst hused
      exact hread.of_declaration hisRun hsettled hframe hpeek hdframe
termination_by ts.length

end Parse

namespace Schema

open Parse

/-- **Names of decorators in tokens that are read.** Every mark stands before a name. In the body of
an enum or a model, and in a run of decorators and doc comments that stands before a declaration,
the name is one of four. In a run that stands before anything else it is not looked at: with any
other name the schema is the same. -/
theorem ofTokens_mark (sourceFile : String) (parsedAt : Nat) {ts front back : Tokens} {mark : Token}
    {s : Schema} (hend : ∃ t ∈ ts, t.kind = .eof) (h : ofTokens sourceFile parsedAt ts = .ok s)
    (hts : ts = front ++ mark :: back) (hmark : mark.kind = .at)
    (hfront : ∀ t ∈ front, t.kind ≠ .eof) :
    ∃ name rest, back = name :: rest ∧ name.kind = .identifier ∧
      (Guarded front (mark :: back) →
        name.text ∈ ["command_id", "size", "length_prefix", "value"]) ∧
      (¬ Guarded front (mark :: back) → ∀ other,
        ofTokens sourceFile parsedAt (front ++ mark :: { name with text := other } :: rest) =
          .ok s) := by
  have hread : ∀ {ts}, (∃ t ∈ ts, t.kind = .eof) → ofTokens sourceFile parsedAt ts =
      ofDeclarations ⟨sourceFile, parsedAt, none⟩ <$> declarations none ts := by
    intro ts hend
    rw [ofTokens, endless_of_marked (exists_mem_eof_iff.1 hend)]
    cases declarations none ts <;> rfl
  rw [hread hend] at h
  cases hds : declarations none ts with
  | error e =>
    rw [hds] at h
    cases h
  | ok ds =>
    rw [hds] at h
    cases h
    obtain ⟨name, rest, rfl, hname, hknown, hother⟩ :=
      markRead_of_declarations hds hts hmark hfront
    refine ⟨name, rest, rfl, hname, hknown, fun hnot other => ?_⟩
    have hend' : ∃ t ∈ front ++ mark :: { name with text := other } :: rest, t.kind = .eof := by
      obtain ⟨t, ht, heof⟩ := hend
      rw [hts] at ht
      simp only [List.mem_append, List.mem_cons] at ht
      rcases ht with ht | rfl | rfl | ht
      · exact absurd heof (hfront t ht)
      · rw [hmark] at heof
        cases heof
      · rw [hname] at heof
        cases heof
      · exact ⟨t, by simp [ht], heof⟩
    rw [hread hend', hother hnot other]
    rfl

/-- `@packed ; enum E { @value(1) A }` -/
def strayTokens : Tokens :=
  [⟨.at, "@", ⟨1, 1⟩⟩, ⟨.identifier, "packed", ⟨1, 2⟩⟩, ⟨.semicolon, ";", ⟨1, 9⟩⟩,
    ⟨.enumWord, "enum", ⟨1, 11⟩⟩, ⟨.identifier, "E", ⟨1, 16⟩⟩, ⟨.leftBrace, "\x7b", ⟨1, 18⟩⟩,
    ⟨.at, "@", ⟨1, 20⟩⟩, ⟨.identifier, "value", ⟨1, 21⟩⟩, ⟨.leftParen, "(", ⟨1, 26⟩⟩,
    ⟨.number, "1", ⟨1, 27⟩⟩, ⟨.rightParen, ")", ⟨1, 28⟩⟩, ⟨.identifier, "A", ⟨1, 30⟩⟩,
    ⟨.rightBrace, "\x7d", ⟨1, 32⟩⟩, ⟨.eof, "", ⟨1, 33⟩⟩]

/-- The schema with the enum alone. -/
def straySchema : Schema where
  namespaceName := ""
  enums := [⟨"E", [⟨"A", 1, none⟩], [], none, ⟨1, 16⟩⟩]
  models := []
  metadata := ⟨"", 0, none⟩

theorem not_guarded_strayTokens : ¬ Guarded [] strayTokens := by
  rintro (⟨u, word, v, h, -⟩ | ⟨run, rest, h, hrun, hpeek⟩)
  · simp at h
  · have hp : preamble none strayTokens =
        .ok (⟨[⟨"packed", [], ⟨1, 1⟩⟩], none⟩, strayTokens.drop 2) := by cbv
    rw [h] at hp
    rw [← left_of_preamble hrun hpeek hp, ← h] at hpeek
    exact absurd hpeek (by decide)

theorem ofTokens_mark_strayTokens :
    ofTokens "" 0 strayTokens = .ok straySchema ∧
      ∀ other,
        ofTokens "" 0 (strayTokens.set 1 ⟨.identifier, other, ⟨1, 2⟩⟩) = .ok straySchema := by
  have h : ofTokens "" 0 strayTokens = .ok straySchema := by decide +kernel
  have hend : ∃ t ∈ strayTokens, t.kind = .eof := ⟨⟨.eof, "", ⟨1, 33⟩⟩, by decide +kernel, rfl⟩
  have hts : strayTokens = [] ++ ⟨.at, "@", ⟨1, 1⟩⟩ :: strayTokens.tail := rfl
  obtain ⟨name, rest, hback, -, -, hother⟩ := ofTokens_mark "" 0 hend h hts rfl (by simp)
  cases hback
  exact ⟨h, hother not_guarded_strayTokens⟩

/-- A decorator that is not known gets through before a semicolon. -/
theorem ofTokens_packed :
    ∃ mark name rest, strayTokens = mark :: name :: rest ∧ mark.kind = .at ∧
      name.kind = .identifier ∧ name.text ∉ ["command_id", "size", "length_prefix", "value"] ∧
      ofTokens "" 0 strayTokens = .ok straySchema :=
  ⟨_, _, _, rfl, rfl, rfl, by decide, by decide +kernel⟩

end Schema

end WireSchema
