import WireSchema.Parse.Schema
import Mathlib.Tactic.SplitIfs

/-! # Tokens and schemas without places

A schema takes its places from the places of its tokens, and nothing else depends on them: reading
tokens whose places are forgotten gives the schema whose places are forgotten, or the same fault
(`ofTokens_plain`). Each reader has a lemma of this form, from the inside out. -/

namespace WireSchema

/-! ### Forgetting places -/

/-- A token as if it stood at the start of the text. -/
def Token.plain (t : Token) : Token := { t with position := Position.start }

theorem Token.kind_plain (t : Token) : t.plain.kind = t.kind := rfl

/-- A decorator as if it stood at the start of the text. -/
def Decorator.plain (d : Decorator) : Decorator := { d with position := Position.start }

/-- An enum without places. -/
def Enum.plain (e : Enum) : Enum :=
  { e with decorators := e.decorators.map Decorator.plain, position := Position.start }

/-- A field without places. -/
def Field.plain (f : Field) : Field :=
  { f with decorators := f.decorators.map Decorator.plain, position := Position.start }

/-- A model without places. -/
def Model.plain (m : Model) : Model :=
  { m with
    fields := m.fields.map Field.plain
    decorators := m.decorators.map Decorator.plain
    position := Position.start }

/-- A schema without places. -/
def Schema.plain (s : Schema) : Schema :=
  { s with enums := s.enums.map Enum.plain, models := s.models.map Model.plain }

/-- An error as if it were at the start of the text. -/
def ParseError.plain (e : ParseError) : ParseError := { e with position := Position.start }

/-- A declaration without places. -/
def Declaration.plain : Declaration → Declaration
  | .nameSpace name => .nameSpace name
  | .enum e => .enum e.plain
  | .model m => .model m.plain

namespace Parse

/-- A preamble without places. -/
def Preamble.plain (p : Preamble) : Preamble :=
  { p with decorators := p.decorators.map Decorator.plain }

variable {α β : Type}

/-- What a reader returns, without places; `f` forgets those in the value. -/
def plain (f : α → β) : Except ParseError (α × Tokens) → Except ParseError (β × Tokens)
  | .error e => .error e.plain
  | .ok (a, rest) => .ok (f a, rest.map Token.plain)

/-! ### Tokens and decorators -/

theorem peek_plain (ts : Tokens) : peek (ts.map Token.plain) = peek ts := by
  cases ts <;> rfl

theorem expect_plain (kind : TokenKind) (what : String) (ts : Tokens) :
    expect kind what (ts.map Token.plain) = plain Token.plain (expect kind what ts) := by
  cases ts with
  | nil => rfl
  | cons t ts =>
    rw [List.map_cons, expect, expect, Token.kind_plain]
    split_ifs <;> rfl

theorem skip_plain (kind : TokenKind) (ts : Tokens) :
    skip kind (ts.map Token.plain) = (skip kind ts).map Token.plain := by
  cases ts with
  | nil => rfl
  | cons t ts =>
    rw [List.map_cons, skip, skip, Token.kind_plain]
    split_ifs <;> rfl

theorem argument?_plain (t : Token) :
    argument? t.plain = (argument? t).mapError ParseError.plain := by
  obtain ⟨kind, text, position⟩ := t
  cases kind with
  | number =>
    simp only [argument?, Token.plain]
    cases Literal.value? text.toList <;> rfl
  | identifier =>
    dsimp only [argument?, Token.plain]
    split_ifs <;> rfl
  | _ => rfl

theorem arguments_plain (ts : Tokens) :
    arguments (ts.map Token.plain) = plain id (arguments ts) := by
  fun_induction arguments ts with
  | case1 => rw [List.map_nil, arguments]; rfl
  | case2 t ts e h => rw [List.map_cons, arguments, argument?_plain, h]; rfl
  | case3 t ts h => rw [List.map_cons, arguments, argument?_plain, h]; rfl
  | case4 t ts arg h e h' ih =>
    rw [List.map_cons, arguments, argument?_plain, h, Except.mapError, skip_plain, ih, h']
    rfl
  | case5 t ts arg h args rest h' ih =>
    rw [List.map_cons, arguments, argument?_plain, h, Except.mapError, skip_plain, ih, h']
    rfl

theorem argumentList_plain (ts : Tokens) :
    argumentList (ts.map Token.plain) = plain id (argumentList ts) := by
  unfold argumentList
  rw [peek_plain, ← List.map_tail, arguments_plain]
  split_ifs with h
  · cases arguments ts.tail with
    | error e => rfl
    | ok r =>
      obtain ⟨args, rest⟩ := r
      simp only [plain]
      rw [expect_plain]
      cases expect .rightParen _ rest <;> rfl
  · rfl

theorem decorator_plain (ts : Tokens) :
    decorator (ts.map Token.plain) = plain Decorator.plain (decorator ts) := by
  unfold decorator
  rw [expect_plain]
  cases expect .at _ ts with
  | error e => rfl
  | ok r =>
    obtain ⟨mark, rest⟩ := r
    simp only [plain]
    rw [expect_plain]
    cases expect .identifier _ rest with
    | error e => rfl
    | ok r =>
      obtain ⟨name, rest⟩ := r
      simp only [plain]
      rw [argumentList_plain]
      cases argumentList rest <;> rfl

/-! ### One turn of each loop -/

theorem preamble_doc {doc : Option String} {t : Token} (h : t.kind = .docComment) (ts : Tokens) :
    preamble doc (t :: ts) = preamble (some t.text) ts := by
  rw [preamble, if_pos h]

theorem preamble_at {doc : Option String} {t : Token} (h : t.kind = .at) (ts : Tokens) :
    preamble doc (t :: ts) = do
      let (d, left) ← decorator (t :: ts)
      let (p, left) ← preamble doc left
      return (⟨d :: p.decorators, p.doc⟩, left) := by
  rw [preamble, if_neg (by simp [h]), if_pos h]
  split
  · next e hd => rw [hd]; rfl
  · next d left hd =>
    rw [hd]
    show _ = preamble doc left >>= _
    cases preamble doc left <;> rfl

theorem preamble_end {doc : Option String} (ts : Tokens) (h1 : peek ts ≠ .docComment)
    (h2 : peek ts ≠ .at) : preamble doc ts = .ok (⟨[], doc⟩, ts) := by
  cases ts with
  | nil => rw [preamble]
  | cons t ts =>
    rw [preamble, if_neg (show t.kind ≠ .docComment from h1), if_neg (show t.kind ≠ .at from h2)]

theorem nameParts_dot {t : Token} (h : t.kind = .dot) (ts : Tokens) :
    nameParts (t :: ts) = do
      let (part, left) ← expect .identifier "namespace part" ts
      let (parts, left) ← nameParts left
      return (part.text :: parts, left) := by
  rw [nameParts, if_pos h]
  split
  · next e hd => rw [hd]; rfl
  · next d left hd =>
    rw [hd]
    show _ = nameParts left >>= _
    cases nameParts left <;> rfl

theorem nameParts_end (ts : Tokens) (h : peek ts ≠ .dot) : nameParts ts = .ok ([], ts) := by
  cases ts with
  | nil => rw [nameParts]
  | cons t ts => rw [nameParts, if_neg (show t.kind ≠ .dot from h)]

theorem members_eq (next : Nat) (ts : Tokens) :
    members next ts = if peek ts = .rightBrace then .ok ([], ts.tail) else do
      let (p, left) ← preamble none ts
      if p.decorators.isEmpty && peek left = .rightBrace then return ([], left.tail)
      let (m, left) ← member p next left
      let (ms, left) ← members (m.value.toNat + 1) left
      return (m :: ms, left) := by
  rw [members]
  split_ifs with h
  · rfl
  split
  · next e hp => rw [hp]; rfl
  next p left hp =>
  rw [hp]
  show _ = if (p.decorators.isEmpty && peek left = .rightBrace) = true then _ else _
  split_ifs with hend
  · rfl
  split
  · next e hm => rw [hm]; rfl
  next m left hm =>
  rw [hm]
  show _ = members (m.value.toNat + 1) left >>= _
  cases members (m.value.toNat + 1) left <;> rfl

theorem fields_eq (ts : Tokens) :
    fields ts = if peek ts = .rightBrace then .ok ([], ts.tail) else do
      let (p, left) ← preamble none ts
      if p.decorators.isEmpty && peek left = .rightBrace then return ([], left.tail)
      let (f, left) ← field p left
      let (fs, left) ← fields left
      return (f :: fs, left) := by
  rw [fields]
  split_ifs with h
  · rfl
  split
  · next e hp => rw [hp]; rfl
  next p left hp =>
  rw [hp]
  show _ = if (p.decorators.isEmpty && peek left = .rightBrace) = true then _ else _
  split_ifs with hend
  · rfl
  split
  · next e hf => rw [hf]; rfl
  next f left hf =>
  rw [hf]
  show _ = fields left >>= _
  cases fields left <;> rfl

theorem declarations_eq (doc : Option String) (ts : Tokens) :
    declarations doc ts = do
      let (p, left) ← preamble doc ts
      if peek left = .eof then return []
      match ← declaration p left with
      | (none, rest) => declarations p.doc rest
      | (some d, rest) => return d :: (← declarations none rest) := by
  rw [declarations]
  split
  · next e hp => rw [hp]; rfl
  next p left hp =>
  rw [hp]
  show _ = if peek left = .eof then _ else _
  split_ifs with h
  · rfl
  split
  · next e hd => rw [hd]; rfl
  · next rest hd => rw [hd]; rfl
  · next d rest hd =>
    rw [hd]
    show _ = declarations none rest >>= _
    cases declarations none rest <;> rfl

theorem field_eq (p : Preamble) (ts : Tokens) :
    field p ts = do
      let (name, left) ← expect .identifier "field name" ts
      rejectOptional left
      let (_, left) ← expect .colon "\":\"" left
      let (type, left) ← typeRef left
      rejectOptional left
      check p.decorators (.field type)
      return (⟨name.text, type, fieldSize p.decorators type, p.decorators, p.doc, none,
        name.position⟩, skip .semicolon left) := by
  unfold field
  cases expect .identifier "field name" ts with
  | error e => rfl
  | ok r =>
    dsimp only [bind, Except.bind]
    cases rejectOptional r.2 with
    | error e => rfl
    | ok _ =>
      cases expect .colon "\":\"" r.2 with
      | error e => rfl
      | ok r =>
        dsimp only
        cases typeRef r.2 with
        | error e => rfl
        | ok r =>
          dsimp only
          cases rejectOptional r.2 with
          | error e => rfl
          | ok _ => cases check p.decorators (.field r.1) <;> rfl

/-! ### Preambles, names and types -/

/-- A reader behind another. -/
theorem bind_plain {γ δ : Type} {r : Except ParseError (α × Tokens)} {f : α → β} {g : γ → δ}
    {k : α × Tokens → Except ParseError (γ × Tokens)}
    {k' : β × Tokens → Except ParseError (δ × Tokens)}
    (h : ∀ a rest, r = .ok (a, rest) →
      k' (f a, rest.map Token.plain) = plain g (k (a, rest))) :
    (plain f r >>= k') = plain g (r >>= k) := by
  cases r with
  | error e => rfl
  | ok r => exact h r.1 r.2 rfl

/-- A reader behind a test. -/
theorem mapError_bind_plain {r : Except ParseError Unit} {f : α → β}
    {k : Unit → Except ParseError (α × Tokens)} {k' : Unit → Except ParseError (β × Tokens)}
    (h : k' () = plain f (k ())) :
    (r.mapError ParseError.plain >>= k') = plain f (r >>= k) := by
  cases r with
  | error e => rfl
  | ok _ => exact h

theorem preamble_plain (doc : Option String) (ts : Tokens) :
    preamble doc (ts.map Token.plain) = plain Preamble.plain (preamble doc ts) := by
  cases ts with
  | nil => rw [List.map_nil, preamble]; rfl
  | cons t ts =>
    rw [List.map_cons]
    by_cases hdoc : t.kind = .docComment
    · rw [preamble_doc (t := t.plain) hdoc, preamble_doc hdoc]
      exact preamble_plain (some t.text) ts
    by_cases hat : t.kind = .at
    · rw [preamble_at (t := t.plain) hat, preamble_at hat, ← List.map_cons, decorator_plain]
      refine bind_plain fun d left hd => ?_
      simp only [preamble_plain doc left]
      exact bind_plain fun p left _ => rfl
    · rw [preamble_end (t.plain :: ts.map Token.plain) hdoc hat, preamble_end (t :: ts) hdoc hat]
      rfl
termination_by ts.length
decreasing_by
  · simp
  · exact decorator_length hd

theorem nameParts_plain (ts : Tokens) :
    nameParts (ts.map Token.plain) = plain id (nameParts ts) := by
  cases ts with
  | nil => rw [List.map_nil, nameParts]; rfl
  | cons t ts =>
    rw [List.map_cons]
    by_cases hdot : t.kind = .dot
    · rw [nameParts_dot (t := t.plain) hdot, nameParts_dot hdot, expect_plain]
      refine bind_plain fun part left hpart => ?_
      have := expect_length hpart
      simp only [nameParts_plain left]
      exact bind_plain fun parts left _ => rfl
    · rw [nameParts_end (t.plain :: ts.map Token.plain) hdot, nameParts_end (t :: ts) hdot]
      rfl
termination_by ts.length

theorem namespaceDecl_plain (ts : Tokens) :
    namespaceDecl (ts.map Token.plain) = plain id (namespaceDecl ts) := by
  unfold namespaceDecl
  rw [expect_plain]
  refine bind_plain fun _ ts _ => ?_
  simp only [expect_plain]
  refine bind_plain fun name ts _ => ?_
  simp only [nameParts_plain]
  refine bind_plain fun parts ts _ => ?_
  simp only [skip_plain]
  rfl

theorem rejectOptional_plain (ts : Tokens) :
    rejectOptional (ts.map Token.plain) = (rejectOptional ts).mapError ParseError.plain := by
  cases ts with
  | nil => rfl
  | cons t ts =>
    rw [List.map_cons, rejectOptional, rejectOptional, Token.kind_plain]
    split_ifs <;> rfl

theorem typeRef_plain (ts : Tokens) : typeRef (ts.map Token.plain) = plain id (typeRef ts) := by
  unfold typeRef
  rw [expect_plain]
  cases expect .identifier _ ts with
  | error e => rfl
  | ok r =>
    obtain ⟨name, rest⟩ := r
    simp only [plain, peek_plain, ← List.map_tail, expect_plain]
    split_ifs with h
    · cases expect .rightBracket _ rest.tail <;> rfl
    · rfl

/-! ### Decorators have the same meaning and the same faults -/

theorem find?_plain (ds : List Decorator) (name : String) :
    Decorator.find? (ds.map Decorator.plain) name = (Decorator.find? ds name).map Decorator.plain :=
  List.find?_map

theorem decoratorArgument?_plain (ds : List Decorator) (name : String) :
    Decorator.argument? (ds.map Decorator.plain) name = Decorator.argument? ds name := by
  unfold Decorator.argument?
  rw [find?_plain]
  cases Decorator.find? ds name <;> rfl

theorem argumentFault?_plain (all : List Decorator) (target : Target) (arg : Argument)
    (known : KnownDecorator) :
    known.argumentFault? (all.map Decorator.plain) target arg =
      known.argumentFault? all target arg := by
  cases known with
  | size => simp only [KnownDecorator.argumentFault?, find?_plain, Option.isSome_map]
  | _ => rfl

theorem fault?_plain (all before : List Decorator) (target : Target) (d : Decorator) :
    Decorator.fault? (all.map Decorator.plain) (before.map Decorator.plain) target d.plain =
      Decorator.fault? all before target d := by
  have hany : (before.map Decorator.plain).any (·.name == d.name) =
      before.any (·.name == d.name) := List.any_map
  unfold Decorator.fault?
  simp only [show d.plain.name = d.name from rfl, show d.plain.args = d.args from rfl, hany,
    argumentFault?_plain]

theorem firstFault?_plain (all : List Decorator) (target : Target) (before ds : List Decorator) :
    Decorator.firstFault? (all.map Decorator.plain) target (before.map Decorator.plain)
        (ds.map Decorator.plain) =
      (Decorator.firstFault? all target before ds).map fun r => (Position.start, r.2) := by
  induction ds generalizing before with
  | nil => rfl
  | cons d ds ih =>
    rw [List.map_cons, Decorator.firstFault?, Decorator.firstFault?, fault?_plain]
    cases Decorator.fault? all before target d with
    | some fault => rfl
    | none =>
      have := ih (before ++ [d])
      rwa [List.map_append] at this

theorem check_plain (ds : List Decorator) (target : Target) :
    check (ds.map Decorator.plain) target = (check ds target).mapError ParseError.plain := by
  have hfirst := firstFault?_plain ds target [] ds
  rw [List.map_nil] at hfirst
  rw [check, check, Decorator.check, Decorator.check, hfirst]
  cases Decorator.firstFault? ds target [] ds <;> rfl

theorem memberValue_plain (ds : List Decorator) (next : Nat) :
    memberValue (ds.map Decorator.plain) next = memberValue ds next := by
  unfold memberValue
  rw [find?_plain]
  cases Decorator.find? ds "value" <;> rfl

theorem isEmpty_plain (p : Preamble) : p.plain.decorators.isEmpty = p.decorators.isEmpty :=
  List.isEmpty_map

/-! ### Declarations -/

theorem member_plain (p : Preamble) (next : Nat) (ts : Tokens) :
    member p.plain next (ts.map Token.plain) = plain id (member p next ts) := by
  unfold member
  simp only [Preamble.plain, check_plain, memberValue_plain, expect_plain]
  cases check p.decorators .enumMember with
  | error e => rfl
  | ok _ =>
    cases expect .identifier _ ts with
    | error e => rfl
    | ok r =>
      simp only [Except.mapError, plain, skip_plain]
      split_ifs <;> rfl

theorem members_plain (next : Nat) (ts : Tokens) :
    members next (ts.map Token.plain) = plain id (members next ts) := by
  rw [members_eq, members_eq next ts, peek_plain, ← List.map_tail]
  split_ifs with h
  · rfl
  rw [preamble_plain]
  refine bind_plain fun p left hp => ?_
  have := preamble_length hp
  simp only [peek_plain, isEmpty_plain, member_plain, ← List.map_tail]
  split_ifs with hend
  · rfl
  refine bind_plain fun m left' hm => ?_
  have := member_length hm
  simp only [id, members_plain _ left']
  exact bind_plain fun ms left _ => rfl
termination_by ts.length

theorem enumDecl_plain (p : Preamble) (ts : Tokens) :
    enumDecl p.plain (ts.map Token.plain) = plain Enum.plain (enumDecl p ts) := by
  unfold enumDecl
  rw [expect_plain]
  refine bind_plain fun _ ts _ => ?_
  simp only [expect_plain]
  refine bind_plain fun name ts _ => ?_
  simp only [expect_plain]
  refine bind_plain fun _ ts _ => ?_
  simp only [members_plain]
  exact bind_plain fun ms ts _ => rfl

theorem fieldSize_plain (ds : List Decorator) (type : TypeRef) :
    fieldSize (ds.map Decorator.plain) type = fieldSize ds type := by
  unfold fieldSize
  rw [decoratorArgument?_plain, decoratorArgument?_plain]

theorem field_plain (p : Preamble) (ts : Tokens) :
    field p.plain (ts.map Token.plain) = plain Field.plain (field p ts) := by
  rw [field_eq, field_eq, expect_plain]
  refine bind_plain fun name ts _ => ?_
  simp only [rejectOptional_plain]
  refine mapError_bind_plain ?_
  simp only [expect_plain]
  refine bind_plain fun _ ts _ => ?_
  simp only [typeRef_plain]
  refine bind_plain fun type ts _ => ?_
  simp only [rejectOptional_plain]
  refine mapError_bind_plain ?_
  simp only [Preamble.plain, check_plain, fieldSize_plain, skip_plain, id]
  exact mapError_bind_plain rfl

theorem fields_plain (ts : Tokens) :
    fields (ts.map Token.plain) = plain (List.map Field.plain) (fields ts) := by
  rw [fields_eq, fields_eq ts, peek_plain, ← List.map_tail]
  split_ifs with h
  · rfl
  rw [preamble_plain]
  refine bind_plain fun p left hp => ?_
  have := preamble_length hp
  simp only [peek_plain, isEmpty_plain, field_plain, ← List.map_tail]
  split_ifs with hend
  · rfl
  refine bind_plain fun f left' hf => ?_
  have := field_length hf
  simp only [fields_plain left']
  exact bind_plain fun fs left _ => rfl
termination_by ts.length

theorem commandId_plain (ds : List Decorator) :
    commandId (ds.map Decorator.plain) = commandId ds := by
  rw [commandId, decoratorArgument?_plain, commandId]

theorem modelDecl_plain (p : Preamble) (ts : Tokens) :
    modelDecl p.plain (ts.map Token.plain) = plain Model.plain (modelDecl p ts) := by
  have hid : commandId p.plain.decorators = commandId p.decorators := commandId_plain _
  unfold modelDecl
  rw [hid, expect_plain]
  refine bind_plain fun _ ts _ => ?_
  simp only [expect_plain]
  refine bind_plain fun name ts _ => ?_
  simp only [expect_plain]
  refine bind_plain fun _ ts _ => ?_
  simp only [fields_plain]
  exact bind_plain fun fs ts _ => rfl

theorem declaration_plain (p : Preamble) (ts : Tokens) :
    declaration p.plain (ts.map Token.plain) =
      plain (Option.map Declaration.plain) (declaration p ts) := by
  have hcheck (target : Target) : check p.plain.decorators target =
      (check p.decorators target).mapError ParseError.plain := check_plain _ _
  unfold declaration
  simp only [peek_plain, hcheck, namespaceDecl_plain, enumDecl_plain, modelDecl_plain,
    ← List.map_tail]
  cases peek ts with
  | namespaceWord =>
    cases check p.decorators .nameSpace with
    | error e => rfl
    | ok _ => cases namespaceDecl ts <;> rfl
  | enumWord =>
    cases check p.decorators .enum with
    | error e => rfl
    | ok _ => cases enumDecl p ts <;> rfl
  | modelWord =>
    cases check p.decorators .model with
    | error e => rfl
    | ok _ => cases modelDecl p ts <;> rfl
  | _ => rfl

/-- Declarations without places, or the error without its place. -/
theorem declarations_plain (doc : Option String) (ts : Tokens) :
    declarations doc (ts.map Token.plain) =
      ((declarations doc ts).map (List.map Declaration.plain)).mapError ParseError.plain := by
  rw [declarations_eq, declarations_eq doc ts, preamble_plain]
  cases hp : preamble doc ts with
  | error e => rfl
  | ok r =>
    obtain ⟨p, left⟩ := r
    have := preamble_length hp
    show (if peek (left.map Token.plain) = .eof then _
      else declaration p.plain (left.map Token.plain) >>= _) =
        Except.mapError _ (Except.map _ (if peek left = .eof then _ else declaration p left >>= _))
    rw [peek_plain, declaration_plain]
    split_ifs with hend
    · rfl
    cases hd : declaration p left with
    | error e => rfl
    | ok r =>
      obtain ⟨d, rest⟩ := r
      have := declaration_length hend hd
      cases d with
      | none => exact declarations_plain p.doc rest
      | some d =>
        show (declarations none (rest.map Token.plain) >>= _) = _
        rw [declarations_plain none rest]
        show _ = Except.mapError _ (Except.map _ (declarations none rest >>= _))
        cases declarations none rest <;> rfl
termination_by ts.length

theorem endless_plain (ts : Tokens) :
    endless (ts.map Token.plain) = (endless ts).map Token.plain := by
  have hany : (ts.map Token.plain).any (·.kind == .eof) = ts.any (·.kind == .eof) := List.any_map
  unfold endless
  rw [List.getLast?_map, hany]
  cases ts.getLast? with
  | none => rfl
  | some last =>
    dsimp only [Option.map_some]
    split_ifs
    · rfl
    · rw [List.map_append, List.map_replicate]

end Parse

namespace Schema

theorem ofDeclarations_plain (metadata : Metadata) (ds : List Declaration) :
    ofDeclarations metadata (ds.map Declaration.plain) = (ofDeclarations metadata ds).plain := by
  simp only [ofDeclarations, Schema.plain, List.filterMap_map, List.map_filterMap]
  congr 1
  · congr 2
    funext d
    cases d <;> rfl
  · congr 1
    funext d
    cases d <;> rfl
  · congr 1
    funext d
    cases d <;> rfl

/-- A schema takes only its places from the places of its tokens. -/
theorem ofTokens_plain (sourceFile : String) (parsedAt : Nat) (ts : Tokens) :
    ofTokens sourceFile parsedAt (ts.map Token.plain) =
      ((ofTokens sourceFile parsedAt ts).map Schema.plain).mapError ParseError.plain := by
  unfold ofTokens
  rw [Parse.endless_plain, Parse.declarations_plain]
  cases Parse.declarations none (Parse.endless ts) with
  | error e => rfl
  | ok ds => exact congrArg Except.ok (ofDeclarations_plain _ ds)

end Schema

end WireSchema
