import WireSchema.Name.Snake
import Mathlib.Data.List.Chain
import Mathlib.Tactic.MkIffOfInductiveProp
import Mathlib.Tactic.SplitIfs

/-! # Snake case cuts a name into words

A word starts at a capital, but not behind an underscore, and within a run of capitals only where a
lower-case letter follows (`BeginsWord`). Cut exactly there, a name falls into its words
(`IsWords`). For a text in ASCII, so for every identifier, snake case is these words in lower case
with an underscore between every two of them (`exists_words`). The relation `SnakeOf` says what one
character adds to the snake case of those behind it, and what snake case keeps of a name follows by
induction on it; `snake_separates` puts this together. -/

namespace WireSchema

/-! ### Letters of ASCII -/

namespace Text

/-- What can be checked of all the 128 characters of ASCII holds of each. -/
theorem forall_ascii {P : Char → Prop} (h : ∀ n < 128, P (Char.ofNat n)) {c : Char}
    (hc : c.toNat < 128) : P c :=
  Char.ofNat_toNat c ▸ h c.toNat hc

theorem toLower_of_lt {c : Char} (hc : c.toNat < 128) : toLower c = [c.toLower] :=
  forall_ascii (P := fun c => toLower c = [c.toLower]) (by decide +kernel) hc

theorem toLower_of_not_isUpper {c : Char} (hc : c.toNat < 128) :
    isUpper c = false → c.toLower = c :=
  forall_ascii (P := fun c => isUpper c = false → c.toLower = c) (by decide +kernel) hc

theorem toNat_toLower_lt {c : Char} (hc : c.toNat < 128) : c.toLower.toNat < 128 :=
  forall_ascii (P := fun c => c.toLower.toNat < 128) (by decide +kernel) hc

theorem isUpper_toLower {c : Char} (hc : c.toNat < 128) : isUpper c.toLower = false :=
  forall_ascii (P := fun c => isUpper c.toLower = false) (by decide +kernel) hc

theorem map_toLower_toUpper {c : Char} (hc : c.toNat < 128) :
    isUpper c = false → (toUpper c).map Char.toLower = [c] :=
  forall_ascii (P := fun c => isUpper c = false → (toUpper c).map Char.toLower = [c])
    (by decide +kernel) hc

theorem toLower_eq_underscore {c : Char} : c.toLower = '_' ↔ c = '_' := by
  by_cases hc : c.toNat < 128
  · exact forall_ascii (P := fun c => c.toLower = '_' ↔ c = '_') (by decide +kernel) hc
  · have hsame : c.toLower = c :=
      dif_neg fun h => hc (Nat.lt_of_le_of_lt (UInt32.le_iff_toNat_le.1 h.2) (by decide))
    rw [hsame]

/-- A text in ASCII goes to lower case one by one. -/
theorem lowerFrom_of_lt {before cs : List Char} (h : ∀ c ∈ cs, c.toNat < 128) :
    lowerFrom before cs = cs.map Char.toLower := by
  induction cs generalizing before with
  | nil => rfl
  | cons c cs ih =>
    obtain ⟨hc, hcs⟩ := List.forall_mem_cons.1 h
    have hsigma : c ≠ 'Σ' := by
      rintro rfl
      exact absurd hc (by decide)
    rw [lowerFrom, if_neg hsigma, toLower_of_lt hc, ih hcs]
    rfl

theorem toList_lower {s : String} (h : ∀ c ∈ s.toList, c.toNat < 128) :
    (lower s).toList = s.toList.map Char.toLower := by
  rw [lower, String.toList_ofList, lowerFrom_of_lt h]

/-- Lower case takes back upper case, of a text without capitals. -/
theorem map_toLower_upper {s : String} (hs : ∀ c ∈ s.toList, c.toNat < 128 ∧ isUpper c = false) :
    (upper s).toList.map Char.toLower = s.toList := by
  have hback : ∀ c ∈ s.toList, (toUpper c).map Char.toLower = [c] := by
    intro c hc
    obtain ⟨hlt, hupper⟩ := hs c hc
    exact map_toLower_toUpper hlt hupper
  rw [upper, String.toList_ofList, List.map_flatMap, List.flatMap_congr hback,
    List.flatMap_singleton']

end Text

namespace Name

open Text

/-! ### Words -/

/-- A word starts at the capital `c`, behind `p` and before `after`: not behind an underscore, and
behind a capital only if a lower-case letter follows. -/
@[mk_iff]
structure BeginsWord (p c : Char) (after : List Char) : Prop where
  capital : isUpper c = true
  apart : p ≠ '_'
  acronym : isUpper p = true → after.head?.any isLower = true

instance (p c : Char) (after : List Char) : Decidable (BeginsWord p c after) :=
  decidable_of_iff _ (beginsWord_iff p c after).symm

/-- The words of a name: put together they are the name, none is empty, and one ends between two
characters of the name exactly if the next starts there. -/
structure IsWords (name : List Char) (words : List (List Char)) : Prop where
  flatten : words.flatten = name
  ne_nil : [] ∉ words
  cut_iff : ∀ front p c after, name = front ++ p :: c :: after →
    ((∃ ws, ws <+: words ∧ ws.flatten = front ++ [p]) ↔ BeginsWord p c after)

/-- A capital is no underscore. -/
theorem BeginsWord.ne_underscore {p c : Char} {after : List Char} (h : BeginsWord p c after) :
    c ≠ '_' := by
  rintro rfl
  exact absurd h.capital (by decide)

/-- Words that make up the beginning of a name are the first word and words behind it. -/
theorem exists_prefix_cons {w : List Char} {words : List (List Char)} {cs : List Char}
    (h : cs ≠ []) : (∃ ws, ws <+: w :: words ∧ ws.flatten = cs) ↔
      ∃ ws, ws <+: words ∧ w ++ ws.flatten = cs := by
  constructor
  · rintro ⟨ws, hws, rfl⟩
    rcases List.prefix_cons_iff.1 hws with rfl | ⟨t, rfl, ht⟩
    · exact absurd rfl h
    · exact ⟨t, ht, rfl⟩
  · rintro ⟨ws, hws, rfl⟩
    exact ⟨w :: ws, List.cons_prefix_cons.2 ⟨rfl, hws⟩, rfl⟩

namespace IsWords

theorem nil : IsWords [] [] where
  flatten := rfl
  ne_nil := List.not_mem_nil
  cut_iff front p c after h := by simp at h

theorem singleton (c : Char) : IsWords [c] [[c]] where
  flatten := rfl
  ne_nil := by simp
  cut_iff front p d after h := by
    have := congrArg List.length h
    simp only [List.length_append, List.length_cons, List.length_nil] at this
    omega

variable {p c : Char} {cs : List Char} {words : List (List Char)}

/-- Before a word that starts, a character is a word of its own. -/
theorem cut (hp : BeginsWord p c cs) (h : IsWords (c :: cs) words) :
    IsWords (p :: c :: cs) ([p] :: words) where
  flatten := by rw [List.flatten_cons, h.flatten, List.singleton_append]
  ne_nil := by simp [h.ne_nil]
  cut_iff front q d after hname := by
    rw [exists_prefix_cons (by simp)]
    cases front with
    | nil =>
      obtain ⟨rfl, rfl, rfl⟩ : p = q ∧ c = d ∧ cs = after := by simpa using hname
      exact iff_of_true ⟨[], List.nil_prefix, rfl⟩ hp
    | cons x front =>
      obtain ⟨rfl, htail⟩ := List.cons.inj hname
      rw [← h.cut_iff front q d after htail]
      simp

/-- Elsewhere a character belongs to the word behind it. -/
theorem join {w : List Char} (hp : ¬ BeginsWord p c cs) (h : IsWords (c :: cs) (w :: words)) :
    IsWords (p :: c :: cs) ((p :: w) :: words) where
  flatten := by rw [List.flatten_cons, List.cons_append, ← List.flatten_cons, h.flatten]
  ne_nil := by simpa using fun hnil => h.ne_nil (List.mem_cons_of_mem w hnil)
  cut_iff front q d after hname := by
    rw [exists_prefix_cons (by simp)]
    cases front with
    | nil =>
      obtain ⟨rfl, rfl, rfl⟩ : p = q ∧ c = d ∧ cs = after := by simpa using hname
      refine iff_of_false ?_ hp
      rintro ⟨ws, -, hws⟩
      -- the first word would be empty
      obtain ⟨rfl, -⟩ := List.append_eq_nil_iff.1 (List.cons.inj hws).2
      exact h.ne_nil List.mem_cons_self
    | cons x front =>
      obtain ⟨rfl, htail⟩ := List.cons.inj hname
      rw [← h.cut_iff front q d after htail, exists_prefix_cons (by simp)]
      simp

theorem ne_nil_of_cons (h : IsWords (c :: cs) words) : words ≠ [] := by
  rintro rfl
  exact absurd h.flatten (by simp)

/-- Where one word ends and the next starts there is no underscore on either side. -/
theorem isChain {name : List Char} (h : IsWords name words) :
    words.IsChain fun u v => ∃ p ∈ u.getLast?, ∃ c ∈ v.head?, p ≠ '_' ∧ c ≠ '_' := by
  rw [List.isChain_iff_forall_rel_of_append_cons_cons]
  rintro u v before behind rfl
  have hu : u ≠ [] := fun hu => h.ne_nil (by simp [hu])
  have hv : v ≠ [] := fun hv => h.ne_nil (by simp [hv])
  obtain ⟨u, p, rfl⟩ := (List.eq_nil_or_concat' u).resolve_left hu
  obtain ⟨c, v, rfl⟩ := List.exists_cons_of_ne_nil hv
  have hname : name = (before.flatten ++ u) ++ p :: c :: (v ++ behind.flatten) := by
    rw [← h.flatten]
    simp
  have hbegins : BeginsWord p c (v ++ behind.flatten) := by
    refine (h.cut_iff _ _ _ _ hname).1 ⟨before ++ [u ++ [p]], ⟨(c :: v) :: behind, by simp⟩, ?_⟩
    simp
  exact ⟨p, by simp, c, rfl, hbegins.apart, hbegins.ne_underscore⟩

end IsWords

/-! ### The recursion -/

/-- What snake case makes of a name in ASCII: all characters go to lower case, and an underscore
follows on a character exactly if a word starts behind it. -/
inductive SnakeOf : List Char → List Char → Prop
  | nil : SnakeOf [] []
  | single {c : Char} (hc : c.toNat < 128) : SnakeOf [c] [c.toLower]
  | cut {p c : Char} {cs out : List Char} (hp : p.toNat < 128) (hbegins : BeginsWord p c cs)
    (h : SnakeOf (c :: cs) (c.toLower :: out)) :
    SnakeOf (p :: c :: cs) (p.toLower :: '_' :: c.toLower :: out)
  | join {p c : Char} {cs out : List Char} (hp : p.toNat < 128) (hbegins : ¬ BeginsWord p c cs)
    (h : SnakeOf (c :: cs) (c.toLower :: out)) :
    SnakeOf (p :: c :: cs) (p.toLower :: c.toLower :: out)

theorem startsWord_some_iff {p : Char} {after : List Char} :
    startsWord (some p) after = true ↔
      p ≠ '_' ∧ (isUpper p = true → after.head?.any isLower = true) := by
  cases hp : isUpper p with
  | false => simp [startsWord, hp]
  | true =>
    have hne : p ≠ '_' := by
      rintro rfl
      exact absurd hp (by decide)
    cases after <;> simp [startsWord, hp, hne]

theorem snakeFrom_none_cons {c : Char} {cs : List Char} (hc : c.toNat < 128) :
    snakeFrom none (c :: cs) = c.toLower :: snakeFrom (some c) cs := by
  by_cases h : isUpper c = true
  · rw [snakeFrom, if_pos h, toLower_of_lt hc]
    rfl
  · rw [snakeFrom, if_neg h, toLower_of_not_isUpper hc (by simpa using h)]

/-- What stands before a text counts for an underscore at its front only. -/
theorem snakeFrom_some_cons (p c : Char) (cs : List Char) :
    snakeFrom (some p) (c :: cs) =
      (if BeginsWord p c cs then ['_'] else []) ++ snakeFrom none (c :: cs) := by
  by_cases h : isUpper c = true
  · have hstarts : startsWord (some p) cs = true ↔ BeginsWord p c cs := by
      rw [startsWord_some_iff, beginsWord_iff, and_iff_right h]
    rw [snakeFrom, snakeFrom, if_pos h, if_pos h, List.append_assoc]
    simp only [hstarts]
    rfl
  · have hnot : ¬ BeginsWord p c cs := fun hbegins => h hbegins.capital
    rw [snakeFrom, snakeFrom, if_neg h, if_neg h, if_neg hnot, List.nil_append]

theorem snakeOf_snakeFrom {cs : List Char} (h : ∀ c ∈ cs, c.toNat < 128) :
    SnakeOf cs (snakeFrom none cs) := by
  induction cs with
  | nil => exact .nil
  | cons p cs ih =>
    obtain ⟨hp, hcs⟩ := List.forall_mem_cons.1 h
    rw [snakeFrom_none_cons hp]
    cases cs with
    | nil => exact .single hp
    | cons c cs =>
      have hc := hcs c List.mem_cons_self
      have hsnake := ih hcs
      rw [snakeFrom_none_cons hc] at hsnake
      rw [snakeFrom_some_cons, snakeFrom_none_cons hc]
      split_ifs with hbegins
      · exact .cut hp hbegins hsnake
      · exact .join hp hbegins hsnake

/-- Snake case changes nothing in a text without capitals. -/
theorem snakeFrom_of_not_isUpper {before : Option Char} {cs : List Char}
    (h : ∀ c ∈ cs, isUpper c = false) : snakeFrom before cs = cs := by
  induction cs generalizing before with
  | nil => rfl
  | cons c cs ih =>
    obtain ⟨hc, hcs⟩ := List.forall_mem_cons.1 h
    rw [snakeFrom, if_neg (by simp [hc]), ih hcs]

/-! ### What snake case keeps -/

/-- How often two underscores stand side by side. -/
def doubled (cs : List Char) : Nat := (cs.zip cs.tail).count ('_', '_')

theorem doubled_cons_cons (a b : Char) (cs : List Char) :
    doubled (a :: b :: cs) = doubled (b :: cs) + if a = '_' ∧ b = '_' then 1 else 0 := by
  simp [doubled, List.count_cons]

namespace SnakeOf

variable {name out : List Char}

theorem lt_and_not_isUpper (h : SnakeOf name out) :
    ∀ d ∈ out, d.toNat < 128 ∧ isUpper d = false := by
  have hlower : ∀ {c : Char}, c.toNat < 128 →
      c.toLower.toNat < 128 ∧ isUpper c.toLower = false := fun hc =>
    ⟨toNat_toLower_lt hc, isUpper_toLower hc⟩
  induction h with
  | nil => exact List.forall_mem_nil _
  | single hc => exact List.forall_mem_singleton.2 (hlower hc)
  | cut hp _ _ ih =>
    exact List.forall_mem_cons.2 ⟨hlower hp, List.forall_mem_cons.2 ⟨by decide, ih⟩⟩
  | join hp _ _ ih => exact List.forall_mem_cons.2 ⟨hlower hp, ih⟩

/-- Without its underscores, snake case is lower case without underscores. -/
theorem filter_eq (h : SnakeOf name out) :
    out.filter (· ≠ '_') = (name.map Char.toLower).filter (· ≠ '_') := by
  induction h with
  | nil => rfl
  | single => rfl
  | cut _ _ _ ih =>
    rw [List.map_cons, List.filter_cons, List.filter_cons_of_neg (a := '_') (by decide), ih,
      List.filter_cons]
  | join _ _ _ ih => rw [List.map_cons, List.filter_cons, ih, List.filter_cons]

/-- The words of the name follow each other with an underscore between every two. -/
theorem exists_isWords (h : SnakeOf name out) :
    ∃ words, IsWords name words ∧ out = ['_'].intercalate (words.map (List.map Char.toLower)) := by
  induction h with
  | nil => exact ⟨[], .nil, rfl⟩
  | @single c => exact ⟨[[c]], .singleton c, rfl⟩
  | @cut p _ _ _ _ hbegins _ ih =>
    obtain ⟨words, hwords, hout⟩ := ih
    obtain ⟨w, words, rfl⟩ := List.exists_cons_of_ne_nil hwords.ne_nil_of_cons
    exact ⟨[p] :: w :: words, hwords.cut hbegins, by simp [hout]⟩
  | @join p _ _ _ _ hbegins _ ih =>
    obtain ⟨words, hwords, hout⟩ := ih
    obtain ⟨w, words, rfl⟩ := List.exists_cons_of_ne_nil hwords.ne_nil_of_cons
    refine ⟨(p :: w) :: words, hwords.join hbegins, ?_⟩
    rw [hout, List.map_cons, List.map_cons, List.map_cons, List.intercalate_cons_cons_left]

/-- No underscore comes to stand before the name. -/
theorem head?_eq (h : SnakeOf name out) : out.head? = name.head?.map Char.toLower := by
  cases h <;> rfl

/-- No two underscores come to stand side by side. -/
theorem doubled_eq (h : SnakeOf name out) : doubled out = doubled name := by
  induction h with
  | nil => rfl
  | single => rfl
  | cut _ hbegins _ ih =>
    -- the underscore stands between two characters that are none
    have hp := hbegins.apart
    have hc := hbegins.ne_underscore
    simp [doubled_cons_cons, toLower_eq_underscore, hp, hc, ih]
  | join _ _ _ ih => simp [doubled_cons_cons, toLower_eq_underscore, ih]

end SnakeOf

theorem snakeOf_snake {s : String} (hs : ∀ c ∈ s.toList, c.toNat < 128) :
    SnakeOf s.toList (snake s).toList := by
  rw [snake, String.toList_ofList]
  exact snakeOf_snakeFrom hs

/-- **Snake case is the words of a name** in lower case, with an underscore between every two. -/
theorem exists_words {s : String} (hs : ∀ c ∈ s.toList, c.toNat < 128) :
    ∃ words, IsWords s.toList words ∧
      snake s = "_".intercalate (words.map fun w => lower (String.ofList w)) := by
  obtain ⟨words, hwords, hout⟩ := (snakeOf_snake hs).exists_isWords
  have hlower : ∀ w ∈ words, (lower (String.ofList w)).toList = w.map Char.toLower := by
    intro w hw
    have hlt : ∀ c ∈ w, c.toNat < 128 := fun c hc =>
      hs c (hwords.flatten ▸ List.mem_flatten_of_mem hw hc)
    rw [toList_lower (by rwa [String.toList_ofList]), String.toList_ofList]
  refine ⟨words, hwords, ?_⟩
  rw [← String.toList_inj, hout, String.toList_intercalate, List.map_map,
    List.map_congr_left (f := String.toList ∘ _) hlower]
  rfl

/-- Snake case has no capitals, so lower case takes back what upper snake case does to it. -/
theorem upperSnake_inj {s t : String} (hs : ∀ c ∈ s.toList, c.toNat < 128)
    (ht : ∀ c ∈ t.toList, c.toNat < 128) : upperSnake s = upperSnake t ↔ snake s = snake t := by
  constructor
  · intro h
    rw [← String.toList_inj, ← map_toLower_upper (snakeOf_snake hs).lt_and_not_isUpper,
      ← map_toLower_upper (snakeOf_snake ht).lt_and_not_isUpper, ← upperSnake, ← upperSnake, h]
  · intro h
    rw [upperSnake, h, upperSnake]

/-- **Snake case lowers letters and separates words.** The snake case of a name in ASCII has no
capitals. Without underscores it is the lower case of the name without underscores. It consists of
the words of the name in lower case with one underscore between every two of them, and on neither
side of such an underscore the name has one: none is new at the front, and none makes a double one.
Snake case of snake case is the same, and two names agree in upper snake case exactly if they agree
in snake case. -/
theorem snake_separates {s : String} (hs : ∀ c ∈ s.toList, c.toNat < 128) :
    (∀ c ∈ (snake s).toList, isUpper c = false) ∧
      (snake s).toList.filter (· ≠ '_') = (lower s).toList.filter (· ≠ '_') ∧
      (∃ words, IsWords s.toList words ∧
        snake s = "_".intercalate (words.map fun w => lower (String.ofList w)) ∧
        words.IsChain fun u v => ∃ p ∈ u.getLast?, ∃ c ∈ v.head?, p ≠ '_' ∧ c ≠ '_') ∧
      ((snake s).toList.head? = some '_' ↔ s.toList.head? = some '_') ∧
      doubled (snake s).toList = doubled s.toList ∧
      snake (snake s) = snake s ∧
      ∀ t : String, (∀ c ∈ t.toList, c.toNat < 128) →
        (upperSnake s = upperSnake t ↔ snake s = snake t) := by
  have hsnake := snakeOf_snake hs
  have hupper : ∀ c ∈ (snake s).toList, isUpper c = false := fun c hc =>
    (hsnake.lt_and_not_isUpper c hc).2
  refine ⟨hupper, ?_, ?_, ?_, hsnake.doubled_eq, ?_, fun t ht => upperSnake_inj hs ht⟩
  · rw [hsnake.filter_eq, toList_lower hs]
  · obtain ⟨words, hwords, hjoin⟩ := exists_words hs
    exact ⟨words, hwords, hjoin, hwords.isChain⟩
  · rw [hsnake.head?_eq, Option.map_eq_some_iff]
    simp only [toLower_eq_underscore, exists_eq_right]
  · rw [snake, snakeFrom_of_not_isUpper hupper, String.ofList_toList]

/-- Two names that differ in the capitals of an acronym. The underscores that they have stay as they
are, and words are separated behind the acronym and behind a digit. -/
theorem snake_separates_acronym :
    (∀ c ∈ "_HTTPServer2D__Id".toList, c.toNat < 128) ∧
      (∀ c ∈ "_HttpServer2D__Id".toList, c.toNat < 128) ∧
      snake "_HTTPServer2D__Id" = "_http_server2_d__id" ∧
      (∃ words, IsWords "_HTTPServer2D__Id".toList words ∧
        "_http_server2_d__id" = "_".intercalate (words.map fun w => lower (String.ofList w))) ∧
      snake "_http_server2_d__id" = "_http_server2_d__id" ∧
      upperSnake "_HTTPServer2D__Id" = upperSnake "_HttpServer2D__Id" := by
  have hall : ∀ {cs : List Char}, cs.all (·.toNat < 128) = true → ∀ c ∈ cs, c.toNat < 128 :=
    fun h c hc => of_decide_eq_true (List.all_eq_true.1 h c hc)
  have hs : ∀ c ∈ "_HTTPServer2D__Id".toList, c.toNat < 128 := hall (by decide +kernel)
  have ht : ∀ c ∈ "_HttpServer2D__Id".toList, c.toNat < 128 := hall (by decide +kernel)
  have hsnake : snake "_HTTPServer2D__Id" = "_http_server2_d__id" := by decide +kernel
  have hsame : snake "_HttpServer2D__Id" = "_http_server2_d__id" := by decide +kernel
  obtain ⟨-, -, ⟨words, hwords, hjoin, -⟩, -, -, hagain, hupper⟩ := snake_separates hs
  rw [hsnake] at hjoin hagain
  exact ⟨hs, ht, hsnake, ⟨words, hwords, hjoin⟩, hagain, (hupper _ ht).2 (by rw [hsnake, hsame])⟩

end Name

end WireSchema
