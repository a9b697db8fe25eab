import WireSchema.Parse.Declarations

/-! # Reading schemas

`Schema.ofTokens` reads the declarations in a list of tokens up to the mark of the end. A list
without that mark is read as if its last token came again and again. -/

namespace WireSchema

namespace Parse

theorem nameParts_length {ts rest : Tokens} {parts : List String}
    (h : nameParts ts = .ok (parts, rest)) : rest.length ≤ ts.length := by
  fun_induction nameParts ts generalizing parts rest with
  | case1 =>
    cases h
    exact Nat.le_refl _
  | case2 => cases h
  | case3 => cases h
  | case4 t ts' _ part left h1 parts' left' h2 ih =>
    cases h
    have l1 := expect_length h1
    have l2 := ih h2
    simp only [List.length_cons]
    omega
  | case5 =>
    cases h
    exact Nat.le_refl _

theorem members_length {next : Nat} {ts rest : Tokens} {ms : List Member}
    (h : members next ts = .ok (ms, rest)) : rest.length ≤ ts.length := by
  fun_induction members next ts generalizing ms rest with
  | case1 =>
    cases h
    simp
  | case2 => cases h
  | case3 next ts _ p left h1 _ =>
    cases h
    have l1 := preamble_length h1
    simp only [List.length_tail]
    omega
  | case4 => cases h
  | case5 => cases h
  | case6 next ts _ p left h1 _ m left' h2 ms' left'' h3 ih =>
    cases h
    have l1 := preamble_length h1
    have l2 := member_length h2
    have l3 := ih h3
    omega

theorem fields_length {ts rest : Tokens} {fs : List Field}
    (h : fields ts = .ok (fs, rest)) : rest.length ≤ ts.length := by
  fun_induction fields ts generalizing fs rest with
  | case1 =>
    cases h
    simp
  | case2 => cases h
  | case3 ts _ p left h1 _ =>
    cases h
    have l1 := preamble_length h1
    simp only [List.length_tail]
    omega
  | case4 => cases h
  | case5 => cases h
  | case6 ts _ p left h1 _ f left' h2 fs' left'' h3 ih =>
    cases h
    have l1 := preamble_length h1
    have l2 := field_length h2
    have l3 := ih h3
    omega

/-- Reads the declaration behind a preamble. A token that starts none is passed over. -/
def declaration (p : Preamble) (ts : Tokens) : Except ParseError (Option Declaration × Tokens) :=
  match peek ts with
  | .namespaceWord =>
    match check p.decorators .nameSpace, namespaceDecl ts with
    | .error e, _ => .error e
    | .ok (), .error e => .error e
    | .ok (), .ok (name, rest) => .ok (some (.nameSpace name), rest)
  | .enumWord =>
    match check p.decorators .enum, enumDecl p ts with
    | .error e, _ => .error e
    | .ok (), .error e => .error e
    | .ok (), .ok (e, rest) => .ok (some (.enum e), rest)
  | .modelWord =>
    match check p.decorators .model, modelDecl p ts with
    | .error e, _ => .error e
    | .ok (), .error e => .error e
    | .ok (), .ok (m, rest) => .ok (some (.model m), rest)
  | _ => .ok (none, ts.tail)

/-- A bind that succeeds has two steps that succeed. -/
theorem bind_ok {α β : Type} {x : Except ParseError α} {f : α → Except ParseError β} {b : β}
    (h : x >>= f = .ok b) : ∃ a, x = .ok a ∧ f a = .ok b := by
  cases x with
  | error e => cases h
  | ok a => exact ⟨a, rfl, h⟩

theorem namespaceDecl_length {ts rest : Tokens} {name : String}
    (h : namespaceDecl ts = .ok (name, rest)) : rest.length < ts.length := by
  obtain ⟨⟨t1, ts1⟩, h1, h⟩ := bind_ok h
  obtain ⟨⟨t2, ts2⟩, h2, h⟩ := bind_ok h
  obtain ⟨⟨parts, ts3⟩, h3, h⟩ := bind_ok h
  cases h
  have l1 := expect_length h1
  have l2 := expect_length h2
  have l3 := nameParts_length h3
  have l4 := skip_length .semicolon ts3
  omega

theorem enumDecl_length {p : Preamble} {ts rest : Tokens} {e : Enum}
    (h : enumDecl p ts = .ok (e, rest)) : rest.length < ts.length := by
  obtain ⟨⟨t1, ts1⟩, h1, h⟩ := bind_ok h
  obtain ⟨⟨t2, ts2⟩, h2, h⟩ := bind_ok h
  obtain ⟨⟨t3, ts3⟩, h3, h⟩ := bind_ok h
  obtain ⟨⟨ms, ts4⟩, h4, h⟩ := bind_ok h
  cases h
  have l1 := expect_length h1
  have l2 := expect_length h2
  have l3 := expect_length h3
  have l4 := members_length h4
  omega

theorem modelDecl_length {p : Preamble} {ts rest : Tokens} {m : Model}
    (h : modelDecl p ts = .ok (m, rest)) : rest.length < ts.length := by
  obtain ⟨⟨t1, ts1⟩, h1, h⟩ := bind_ok h
  obtain ⟨⟨t2, ts2⟩, h2, h⟩ := bind_ok h
  obtain ⟨⟨t3, ts3⟩, h3, h⟩ := bind_ok h
  obtain ⟨⟨fs, ts4⟩, h4, h⟩ := bind_ok h
  cases h
  have l1 := expect_length h1
  have l2 := expect_length h2
  have l3 := expect_length h3
  have l4 := fields_length h4
  omega

/-- Something is read before the end. -/
theorem declaration_length {p : Preamble} {ts rest : Tokens} {d : Option Declaration}
    (hts : peek ts ≠ .eof) (h : declaration p ts = .ok (d, rest)) : rest.length < ts.length := by
  unfold declaration at h
  split at h
  · split at h
    · cases h
    · cases h
    · rename_i h'
      cases h
      exact namespaceDecl_length h'
  · split at h
    · cases h
    · cases h
    · rename_i h'
      cases h
      exact enumDecl_length h'
  · split at h
    · cases h
    · cases h
    · rename_i h'
      cases h
      exact modelDecl_length h'
  · cases h
    cases ts with
    | nil => exact absurd rfl hts
    | cons t ts => simp

/-- Reads declarations up to the end. The doc comment `doc` has been read before the first. -/
def declarations (doc : Option String) (ts : Tokens) : Except ParseError (List Declaration) :=
  match _h : preamble doc ts with
  | .error e => .error e
  | .ok (p, left) =>
    if _hl : peek left = .eof then .ok []
    else
      match _h' : declaration p left with
      | .error e => .error e
      | .ok (none, rest) => declarations p.doc rest
      | .ok (some d, rest) =>
        match declarations none rest with
        | .error e => .error e
        | .ok ds => .ok (d :: ds)
termination_by ts.length
decreasing_by
  all_goals
    have l1 := preamble_length _h
    have l2 := declaration_length _hl _h'
    omega

/-- The tokens as they are read. A list without an end mark goes on with its last token; since an
enum has at most 256 members, this many copies of it are enough to meet a mistake. -/
def endless (ts : Tokens) : Tokens :=
  match ts.getLast? with
  | none => []
  | some last => if ts.any (·.kind == .eof) then ts else ts ++ List.replicate 257 last

end Parse

namespace Schema

/-- The schema with the given declarations. The last namespace counts. -/
def ofDeclarations (metadata : Metadata) (ds : List Declaration) : Schema where
  namespaceName := (ds.filterMap fun
    | .nameSpace name => some name
    | _ => none).getLastD ""
  enums := ds.filterMap fun
    | .enum e => some e
    | _ => none
  models := ds.filterMap fun
    | .model m => some m
    | _ => none
  metadata := metadata

/-- The schema that a list of tokens declares. Names have not been resolved, and no field has its
place. -/
def ofTokens (sourceFile : String) (parsedAt : Nat) (ts : Tokens) : Except ParseError Schema :=
  match Parse.declarations none (Parse.endless ts) with
  | .error e => .error e
  | .ok ds => .ok (ofDeclarations ⟨sourceFile, parsedAt, none⟩ ds)

end Schema

end WireSchema
