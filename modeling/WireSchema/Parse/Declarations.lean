import WireSchema.Parse.Decorators

/-! # Reading declarations

A schema text declares its namespace, enums and models. Anything else between declarations is
passed over, and a doc comment passed over on the way belongs to the next declaration. -/

namespace WireSchema

/-- A declaration of a schema text. -/
inductive Declaration where
  | nameSpace (name : String)
  | enum (e : Enum)
  | model (m : Model)

namespace Parse

/-! ### Namespaces -/

/-- Reads the parts of a name that stand behind points. -/
def nameParts (ts : Tokens) : Except ParseError (List String × Tokens) :=
  match ts with
  | [] => .ok ([], [])
  | t :: rest =>
    if t.kind = .dot then
      match _h : expect .identifier "namespace part" rest with
      | .error e => .error e
      | .ok (part, left) =>
        match nameParts left with
        | .error e => .error e
        | .ok (parts, left) => .ok (part.text :: parts, left)
    else .ok ([], ts)
termination_by ts.length
decreasing_by
  have := expect_length _h
  simp only [List.length_cons]
  omega

/-- Reads a namespace declaration. -/
def namespaceDecl (ts : Tokens) : Except ParseError (String × Tokens) := do
  let (_, ts) ← expect .namespaceWord "\"namespace\"" ts
  let (name, ts) ← expect .identifier "namespace name" ts
  let (parts, ts) ← nameParts ts
  return (String.intercalate "." (name.text :: parts), skip .semicolon ts)

/-! ### Enums -/

/-- The value of a member: the one it is decorated with, or the one that follows in order. -/
def memberValue (decorators : List Decorator) (next : Nat) : Nat :=
  match Decorator.find? decorators "value" with
  | some d => (d.args.head?.bind Argument.integer?).getD 0
  | none => next

/-- Reads a member behind its preamble. -/
def member (p : Preamble) (next : Nat) (ts : Tokens) : Except ParseError (Member × Tokens) :=
  match check p.decorators .enumMember with
  | .error e => .error e
  | .ok () =>
    match expect .identifier "enum member name" ts with
    | .error e => .error e
    | .ok (name, rest) =>
      let value := memberValue p.decorators next
      if 255 < value then .error ⟨name.position, .memberValue value name.text⟩
      else .ok (⟨name.text, UInt8.ofNat value, p.doc⟩, skip .comma rest)

theorem member_length {p : Preamble} {next : Nat} {ts rest : Tokens} {m : Member}
    (h : member p next ts = .ok (m, rest)) : rest.length < ts.length := by
  unfold member at h
  split at h
  · cases h
  · split at h
    · cases h
    · rename_i name left h'
      simp only at h
      split at h
      · cases h
      · cases h
        have h1 := expect_length h'
        have h2 := skip_length .comma left
        omega

/-- Reads members up to the closing brace, the first with the value `next` unless decorated. -/
def members (next : Nat) (ts : Tokens) : Except ParseError (List Member × Tokens) :=
  if peek ts = .rightBrace then .ok ([], ts.tail)
  else
    match _h : preamble none ts with
    | .error e => .error e
    | .ok (p, left) =>
      if p.decorators.isEmpty && peek left = .rightBrace then .ok ([], left.tail)
      else
        match _h' : member p next left with
        | .error e => .error e
        | .ok (m, left) =>
          match members (m.value.toNat + 1) left with
          | .error e => .error e
          | .ok (ms, left) => .ok (m :: ms, left)
termination_by ts.length
decreasing_by
  have := preamble_length _h
  have := member_length _h'
  omega

/-- Reads an enum behind its preamble. -/
def enumDecl (p : Preamble) (ts : Tokens) : Except ParseError (Enum × Tokens) := do
  let (_, ts) ← expect .enumWord "\"enum\"" ts
  let (name, ts) ← expect .identifier "enum name" ts
  let (_, ts) ← expect .leftBrace "\"\x7b\"" ts
  let (ms, ts) ← members 0 ts
  return (⟨name.text, ms, p.decorators, p.doc, name.position⟩, ts)

/-! ### Models -/

/-- What decorators and type say about the size of a field. -/
def fieldSize (decorators : List Decorator) (type : TypeRef) : FieldSize where
  fixed := ((Decorator.argument? decorators "size").bind Argument.integer?).or
    (type.primitive?.bind Primitive.naturalSize)
  lengthPrefix :=
    (Decorator.argument? decorators "length_prefix").bind fun arg =>
      arg.text?.bind Primitive.ofName?

/-- There are no optional fields. -/
def rejectOptional : Tokens → Except ParseError Unit
  | [] => .ok ()
  | t :: _ => if t.kind = .question then .error ⟨t.position, .optionalField⟩ else .ok ()

/-- Reads a type: a name, with brackets behind it for an array. -/
def typeRef (ts : Tokens) : Except ParseError (TypeRef × Tokens) :=
  match expect .identifier "type name" ts with
  | .error e => .error e
  | .ok (name, rest) =>
    if peek rest = .leftBracket then
      match expect .rightBracket "\"]\"" rest.tail with
      | .error e => .error e
      | .ok (_, rest) => .ok (.array (TypeRef.ofName name.text), rest)
    else .ok (TypeRef.ofName name.text, rest)

/-- Reads a field behind its preamble. -/
def field (p : Preamble) (ts : Tokens) : Except ParseError (Field × Tokens) :=
  match expect .identifier "field name" ts with
  | .error e => .error e
  | .ok (name, rest) =>
    match rejectOptional rest with
    | .error e => .error e
    | .ok () =>
      match expect .colon "\":\"" rest with
      | .error e => .error e
      | .ok (_, rest) =>
        match typeRef rest with
        | .error e => .error e
        | .ok (type, rest) =>
          match rejectOptional rest with
          | .error e => .error e
          | .ok () =>
            match check p.decorators (.field type) with
            | .error e => .error e
            | .ok () =>
              .ok (⟨name.text, type, fieldSize p.decorators type, p.decorators, p.doc, none,
                name.position⟩, skip .semicolon rest)

theorem typeRef_length {ts rest : Tokens} {t : TypeRef} (h : typeRef ts = .ok (t, rest)) :
    rest.length < ts.length := by
  unfold typeRef at h
  split at h
  · cases h
  · rename_i name left h1
    have l1 := expect_length h1
    split at h
    · split at h
      · cases h
      · rename_i bracket left' h2
        cases h
        have l2 := expect_length h2
        simp only [List.length_tail] at l2
        omega
    · cases h
      omega

theorem field_length {p : Preamble} {ts rest : Tokens} {f : Field}
    (h : field p ts = .ok (f, rest)) : rest.length < ts.length := by
  unfold field at h
  split at h
  · cases h
  · rename_i name rest1 h1
    split at h
    · cases h
    · split at h
      · cases h
      · rename_i colon rest2 h2
        split at h
        · cases h
        · rename_i type rest3 h3
          split at h
          · cases h
          · split at h
            · cases h
            · cases h
              have l1 := expect_length h1
              have l2 := expect_length h2
              have l3 := typeRef_length h3
              have l4 := skip_length .semicolon rest3
              omega

/-- Reads fields up to the closing brace. -/
def fields (ts : Tokens) : Except ParseError (List Field × Tokens) :=
  if peek ts = .rightBrace then .ok ([], ts.tail)
  else
    match _h : preamble none ts with
    | .error e => .error e
    | .ok (p, left) =>
      if p.decorators.isEmpty && peek left = .rightBrace then .ok ([], left.tail)
      else
        match _h' : field p left with
        | .error e => .error e
        | .ok (f, left) =>
          match fields left with
          | .error e => .error e
          | .ok (fs, left) => .ok (f :: fs, left)
termination_by ts.length
decreasing_by
  have := preamble_length _h
  have := field_length _h'
  omega

/-- The command id that a model is decorated with. -/
def commandId (decorators : List Decorator) : Option UInt8 :=
  ((Decorator.argument? decorators "command_id").bind Argument.integer?).map UInt8.ofNat

/-- Reads a model behind its preamble. -/
def modelDecl (p : Preamble) (ts : Tokens) : Except ParseError (Model × Tokens) := do
  let (_, ts) ← expect .modelWord "\"model\"" ts
  let (name, ts) ← expect .identifier "model name" ts
  let (_, ts) ← expect .leftBrace "\"\x7b\"" ts
  let (fs, ts) ← fields ts
  return (⟨name.text, fs, p.decorators, p.doc, commandId p.decorators, .varying, name.position⟩, ts)

end Parse

end WireSchema
