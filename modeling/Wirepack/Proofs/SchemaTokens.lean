import Wirepack.Proofs.SchemaGrammar

/-!
# Matching words and gaps

A word is matched exactly where it is spelled. Blanks are skipped as far as they go, so a gap
is skipped whole if what follows it cannot belong to a gap.
-/

namespace Wirepack.Schema.Text
set_option autoImplicit false

/-! ## Characters -/

theorem isBlank_iff {c : Char} : isBlank c = true ↔ c ∈ [' ', '\t', '\r', '\n'] := by
  simp [isBlank, or_assoc]

theorem isLetter_eq : isLetter = Char.isAlpha := by
  funext c
  have upper : c.isUpper = decide (c.val ≥ 'A'.val ∧ c.val ≤ 'Z'.val) := rfl
  have lower : c.isLower = (c.val ≥ 'a'.val && c.val ≤ 'z'.val) := rfl
  show isLetter c = (c.isUpper || c.isLower)
  rw [isLetter, upper, lower, Bool.or_comm]
  simp [Char.le_def]

theorem isIdentStart_eq : isIdentStart = identStart := by
  funext c
  rw [isIdentStart, identStart, isLetter_eq]

theorem isIdentChar_eq : isIdentChar = identChar := by
  funext c
  rw [isIdentChar, identChar, isIdentStart_eq, identStart, Char.isAlphanum, Char.isDigit,
    Bool.or_right_comm]
  simp [Char.le_def]

theorem isTagChar_eq : isTagChar = tagChar := by
  funext c
  rw [isTagChar, tagChar, isIdentChar_eq]

theorem tagChar_of_identStart {c : Char} (start : identStart c) : tagChar c := by
  rw [identStart, Bool.or_eq_true] at start
  rcases start with letter | underscore
  · simp [tagChar, identChar, Char.isAlphanum, letter]
  · simp [tagChar, identChar, underscore]

/-! ## Gaps -/

/-- No gap starts here. -/
def Solid (text : List Char) : Prop := ∀ c ∈ text.head?, isBlank c = false ∧ c ≠ '/'

theorem solid_of_tagChar {c : Char} {rest : List Char} (tag : tagChar c) : Solid (c :: rest) := by
  rintro x ⟨⟩
  constructor
  · refine Bool.eq_false_iff.2 fun blank => ?_
    have listed := isBlank_iff.1 blank
    simp only [List.mem_cons, List.not_mem_nil, or_false] at listed
    rcases listed with rfl | rfl | rfl | rfl <;> exact absurd tag (by decide)
  · rintro rfl
    exact absurd tag (by decide)

theorem Gap.length_le {text rest : List Char} (gap : Gap text rest) :
    rest.length ≤ text.length := by
  induction gap with
  | none => exact Nat.le_refl _
  | blank _ _ ih => exact Nat.le_succ_of_le ih
  | comment _ _ _ ih =>
    simp only [List.length_cons, List.length_append]
    omega

/-- The rest of a comment, up to the end of its line, and the gap that goes on from there. -/
def InComment (text rest : List Char) : Prop :=
  ∃ words after, text = words ++ after ∧ '\n' ∉ words ∧ (∀ c ∈ after.head?, c = '\n') ∧
    Gap after rest

theorem InComment.cons {c : Char} {text rest : List Char} (other : c ≠ '\n')
    (inside : InComment text rest) : InComment (c :: text) rest := by
  obtain ⟨words, after, rfl, line, ends, gap⟩ := inside
  exact ⟨c :: words, after, rfl, by simp [other.symm, line], ends, gap⟩

theorem InComment.newline {text rest : List Char} (gap : Gap text rest) :
    InComment ('\n' :: text) rest :=
  ⟨[], '\n' :: text, rfl, by simp, by simp, .blank (by simp) gap⟩

/-- What is skipped is a gap, or the rest of a comment with the gap behind it. -/
theorem gap_skipBlanks (inComment : Bool) (offset : Nat) (text : List Char) :
    if inComment then InComment text (skipBlanks inComment offset text).rest
    else Gap text (skipBlanks inComment offset text).rest := by
  fun_induction skipBlanks inComment offset text with
  | case1 inComment offset =>
    cases inComment
    · exact .none []
    · exact ⟨[], [], rfl, by simp, by simp, .none []⟩
  | case2 inComment offset rest ih =>
    cases inComment
    · obtain ⟨words, after, rfl, line, ends, gap⟩ := ih
      exact .comment line ends gap
    · exact .cons (by decide) (.cons (by decide) ih)
  | case3 offset c rest _ ih =>
    by_cases newline : c = '\n'
    · subst newline
      exact .newline ih
    · simp only [bne_iff_ne.2 newline] at ih ⊢
      exact .cons newline ih
  | case4 inComment offset c rest _ outside blank ih =>
    simp only [outside]
    exact .blank (isBlank_iff.1 blank) ih
  | case5 inComment offset c rest _ outside =>
    simp only [outside]
    exact .none (c :: rest)

/-- Inside a comment two slashes are skipped as any two characters are. -/
theorem skipBlanks_inside (offset : Nat) (c : Char) (rest : List Char) :
    skipBlanks true offset (c :: rest) = skipBlanks (c != '\n') (offset + 1) rest := by
  induction rest generalizing offset c with
  | nil => simp [skipBlanks]
  | cons d rest ih =>
    by_cases slashes : c = '/' ∧ d = '/'
    · obtain ⟨rfl, rfl⟩ := slashes
      rw [skipBlanks]
      exact (ih (offset + 1) '/').symm
    · rw [skipBlanks]
      · simp
      · rintro rest' rfl shape
        cases shape
        exact slashes ⟨rfl, rfl⟩

theorem skipBlanks_line {words text : List Char} (line : '\n' ∉ words)
    (ends : ∀ c ∈ text.head?, c = '\n') (offset : Nat) :
    skipBlanks true offset (words ++ text) = skipBlanks false (offset + words.length) text := by
  induction words generalizing offset with
  | nil =>
    cases text with
    | nil => simp [skipBlanks]
    | cons c text =>
      obtain rfl := ends c rfl
      simp [skipBlanks, isBlank]
  | cons c words ih =>
    simp only [List.mem_cons, not_or] at line
    rw [List.cons_append, skipBlanks_inside, bne_iff_ne.2 (Ne.symm line.1), ih line.2,
      List.length_cons, Nat.add_right_comm, Nat.add_assoc]

/-- A gap is skipped whole where no gap goes on. -/
theorem rest_skipBlanks {text rest : List Char} (gap : Gap text rest) (solid : Solid rest)
    (offset : Nat) : (skipBlanks false offset text).rest = rest := by
  induction gap generalizing offset with
  | none text =>
    cases text with
    | nil => rfl
    | cons c text =>
      obtain ⟨blank, slash⟩ := solid c rfl
      rw [skipBlanks]
      · simp [blank]
      · exact fun _ isSlash => absurd isSlash slash
  | @blank c text rest blank _ ih =>
    rw [skipBlanks]
    · simpa [isBlank_iff.2 blank] using ih solid (offset + 1)
    · rintro _ rfl
      exact absurd blank (by decide)
  | comment line ends _ ih =>
    rw [skipBlanks, skipBlanks_line line ends]
    exact ih solid _

/-! ## Steps of a match -/

theorem Match.bind_eq_some {α β : Type} {rule : Match α} {next : α → Match β} {i j : Input} {b : β} :
    (rule >>= next) i = some (b, j) ↔
      ∃ a k, rule i = some (a, k) ∧ next a k = some (b, j) := by
  simp [bind, StateT.bind, Option.bind_eq_some_iff]

theorem Match.bind_eq_none {α β : Type} {rule : Match α} {next : α → Match β} {i : Input}
    (failed : rule i = none) : (rule >>= next) i = none := by
  simp [bind, StateT.bind, failed]

theorem Match.orElse_eq_some {α : Type} {rule other : Match α} {i j : Input} {a : α} :
    (rule <|> other) i = some (a, j) ↔
      rule i = some (a, j) ∨ rule i = none ∧ other i = some (a, j) := by
  change (rule i <|> other i) = some (a, j) ↔ _
  cases rule i <;> simp

theorem blanks_eq_some {i j : Input} :
    (blanks : Match Unit) i = some ((), j) ↔ j = skipBlanks false i.offset i.rest := by
  constructor
  · rintro ⟨⟩
    rfl
  · rintro rfl
    rfl

theorem run_eq_some {first more : Char → Bool} {i j : Input} {word : List Char} :
    (run first more : Match (List Char)) i = some (word, j) ↔
      ∃ rest, Word first more word i.rest rest ∧ j = i.advance word.length rest := by
  obtain ⟨offset, text⟩ := i
  rw [run, Match.bind_eq_some]
  constructor
  · rintro ⟨_, _, ⟨⟩, matched⟩
    cases text with
    | nil => cases matched
    | cons c text =>
      dsimp only at matched
      split at matched
      · next start =>
        cases matched
        refine ⟨text.dropWhile more, ⟨?_, ⟨c, _, rfl, start, ?_⟩, ?_⟩, rfl⟩
        · rw [List.cons_append, List.takeWhile_append_dropWhile]
        · exact List.all_eq_true.1 List.all_takeWhile
        · intro d head
          have := List.head?_dropWhile_not more text
          rw [Option.mem_def.1 head] at this
          exact this
      · cases matched
  · rintro ⟨rest, ⟨rfl, ⟨c, tail, rfl, start, others⟩, ends⟩, rfl⟩
    have stop : rest.takeWhile more = [] ∧ rest.dropWhile more = rest := by
      cases rest with
      | nil => exact ⟨rfl, rfl⟩
      | cons d rest => simp [ends d rfl]
    refine ⟨_, _, rfl, ?_⟩
    dsimp only [List.cons_append]
    rw [if_pos start, List.takeWhile_append_of_pos others, List.dropWhile_append_of_pos others,
      stop.1, stop.2, List.append_nil]
    rfl

theorem literal_eq_some {word : List Char} {i j : Input} :
    (literal word : Match Unit) i = some ((), j) ↔
      ∃ rest, i.rest = word ++ rest ∧ j = i.advance word.length rest := by
  obtain ⟨offset, text⟩ := i
  rw [literal, Match.bind_eq_some]
  constructor
  · rintro ⟨here, k, ⟨⟩, matched⟩
    dsimp only at matched
    split at matched
    · next found =>
      obtain ⟨rest, rfl⟩ := List.isPrefixOf_iff_prefix.1 found
      cases matched
      exact ⟨rest, rfl, by rw [List.drop_left]⟩
    · cases matched
  · rintro ⟨rest, rfl, rfl⟩
    refine ⟨_, _, rfl, ?_⟩
    dsimp only
    rw [if_pos (List.isPrefixOf_iff_prefix.2 ⟨rest, rfl⟩), List.drop_left]
    rfl

theorem keyword_eq_some {word : List Char} {i j : Input} :
    (keyword word : Match Unit) i = some ((), j) ↔
      ∃ rest, Keyword word i.rest rest ∧ j = i.advance word.length rest := by
  have boundary (rest : List Char) :
      rest.head?.any isIdentChar = true ↔ ¬ ∀ c ∈ rest.head?, identChar c = false := by
    cases rest <;> simp [isIdentChar_eq]
  rw [keyword, Match.bind_eq_some]
  constructor
  · rintro ⟨_, _, matched, ended⟩
    obtain ⟨rest, spelled, rfl⟩ := literal_eq_some.1 matched
    obtain ⟨_, _, ⟨⟩, ended⟩ := Match.bind_eq_some.1 ended
    split at ended
    · cases ended
    · next ends =>
      cases ended
      exact ⟨rest, ⟨spelled, Decidable.not_not.1 (mt (boundary rest).2 ends)⟩, rfl⟩
  · rintro ⟨rest, ⟨spelled, ends⟩, rfl⟩
    refine ⟨(), _, literal_eq_some.2 ⟨rest, spelled, rfl⟩, ?_⟩
    refine Match.bind_eq_some.2 ⟨_, _, rfl, ?_⟩
    change (if rest.head?.any isIdentChar then failure else pure () : Match Unit) _ = _
    rw [if_neg fun continued => (boundary rest).1 continued ends]
    rfl

theorem word_eq_some {first more : Char → Bool} {i j : Input} {name : String} :
    (do return String.ofList (← run first more) : Match String) i = some (name, j) ↔
      ∃ word rest, Word first more word i.rest rest ∧ name = String.ofList word ∧
        j = i.advance word.length rest := by
  rw [Match.bind_eq_some]
  constructor
  · rintro ⟨word, _, matched, ⟨⟩⟩
    obtain ⟨rest, spelled, rfl⟩ := run_eq_some.1 matched
    exact ⟨word, rest, spelled, rfl, rfl⟩
  · rintro ⟨word, rest, spelled, rfl, rfl⟩
    exact ⟨word, _, run_eq_some.2 ⟨rest, spelled, rfl⟩, rfl⟩

theorem ident_eq_some {i j : Input} {name : String} :
    (ident : Match String) i = some (name, j) ↔
      ∃ word rest, Ident word i.rest rest ∧ name = String.ofList word ∧
        j = i.advance word.length rest := by
  rw [Ident, ← isIdentStart_eq, ← isIdentChar_eq]
  exact word_eq_some

theorem versionTag_eq_some {i j : Input} {tag : String} :
    (versionTag : Match String) i = some (tag, j) ↔
      ∃ word rest, Word tagChar tagChar word i.rest rest ∧ tag = String.ofList word ∧
        j = i.advance word.length rest := by
  rw [← isTagChar_eq]
  exact word_eq_some

@[simp] theorem brackets_succ (pairs : Nat) : brackets (pairs + 1) = '[' :: ']' :: brackets pairs := rfl

/-- Pairs are taken as long as there are any. -/
theorem takePairs_spec (count : Nat) (text : List Char) :
    ∃ pairs rest, takePairs count text = (count + pairs, rest) ∧
      text = brackets pairs ++ rest ∧ ¬ ['[', ']'] <+: rest := by
  fun_induction takePairs count text with
  | case1 count text ih =>
    obtain ⟨pairs, rest, taken, rfl, ends⟩ := ih
    exact ⟨pairs + 1, rest, by rw [taken, Nat.add_assoc, Nat.add_comm 1], rfl, ends⟩
  | case2 count text other =>
    refine ⟨0, text, rfl, rfl, ?_⟩
    rintro ⟨rest, rfl⟩
    exact other rest rfl

theorem takePairs_brackets {rest : List Char} (ends : ¬ ['[', ']'] <+: rest) (count pairs : Nat) :
    takePairs count (brackets pairs ++ rest) = (count + pairs, rest) := by
  induction pairs generalizing count with
  | zero =>
    change takePairs count rest = (count, rest)
    rw [takePairs]
    rintro tail rfl
    exact ends ⟨tail, rfl⟩
  | succ pairs ih =>
    rw [brackets_succ, List.cons_append, List.cons_append, takePairs, ih, Nat.add_assoc, Nat.add_comm 1]

theorem typeRef_eq_some {i j : Input} {name : String} :
    (typeRef : Match String) i = some (name, j) ↔
      ∃ base pairs rest, TypeName base pairs i.rest rest ∧
        name = String.ofList (base ++ brackets pairs) ∧
        j = (i.advance base.length (brackets pairs ++ rest)).advance (2 * pairs) rest := by
  constructor
  · intro matched
    obtain ⟨base, _, matched, others⟩ := Match.bind_eq_some.1 matched
    obtain ⟨middle, spelled, rfl⟩ := run_eq_some.1 matched
    obtain ⟨_, _, ⟨⟩, others⟩ := Match.bind_eq_some.1 others
    obtain ⟨pairs, rest, taken, rfl, ends⟩ := takePairs_spec 0 middle
    rw [isIdentStart_eq, isIdentChar_eq] at spelled
    dsimp only [Input.advance] at others
    rw [taken, Nat.zero_add] at others
    cases others
    exact ⟨base, pairs, rest, ⟨spelled, ends⟩, rfl, rfl⟩
  · rintro ⟨base, pairs, rest, ⟨spelled, ends⟩, rfl, rfl⟩
    rw [Ident, ← isIdentStart_eq, ← isIdentChar_eq] at spelled
    refine Match.bind_eq_some.2 ⟨base, _, run_eq_some.2 ⟨_, spelled, rfl⟩, ?_⟩
    refine Match.bind_eq_some.2 ⟨_, _, rfl, ?_⟩
    dsimp only [Input.advance]
    rw [takePairs_brackets ends, Nat.zero_add]
    rfl

/-! ## What words leave -/

theorem Word.solid {first more : Char → Bool} {word text rest : List Char}
    (spelled : Word first more word text rest) (kind : ∀ c, first c → tagChar c) : Solid text := by
  obtain ⟨rfl, ⟨c, tail, rfl, start, _⟩, _⟩ := spelled
  exact solid_of_tagChar (kind c start)

theorem Word.length_lt {first more : Char → Bool} {word text rest : List Char}
    (spelled : Word first more word text rest) : rest.length < text.length := by
  obtain ⟨rfl, ⟨c, tail, rfl, _⟩, _⟩ := spelled
  simp only [List.length_append, List.length_cons]
  omega

theorem Keyword.length_le {word text rest : List Char} (spelled : Keyword word text rest) :
    rest.length ≤ text.length := by
  rw [spelled.spelled, List.length_append]
  exact Nat.le_add_left ..

theorem TypeName.length_lt {base text rest : List Char} {pairs : Nat}
    (type : TypeName base pairs text rest) : rest.length < text.length := by
  have := type.ident.length_lt
  rw [List.length_append] at this
  omega

theorem solid_cons {c : Char} {rest : List Char} :
    Solid (c :: rest) ↔ isBlank c = false ∧ c ≠ '/' := by
  simp [Solid]

theorem gap_of_blanks {i j : Input} (matched : (blanks : Match Unit) i = some ((), j)) :
    Gap i.rest j.rest := by
  obtain rfl := blanks_eq_some.1 matched
  exact gap_skipBlanks false i.offset i.rest

theorem blanks_of_gap {i : Input} {rest : List Char} (gap : Gap i.rest rest) (solid : Solid rest) :
    ∃ offset, (blanks : Match Unit) i = some ((), ⟨offset, rest⟩) := by
  refine ⟨(skipBlanks false i.offset i.rest).offset, blanks_eq_some.2 ?_⟩
  rw [← rest_skipBlanks gap solid i.offset]

theorem gap_of_sign {c : Char} {i j k : Input}
    (skipped : (blanks : Match Unit) i = some ((), j))
    (matched : (literal [c] : Match Unit) j = some ((), k)) : Gap i.rest (c :: k.rest) := by
  obtain ⟨rest, spelled, rfl⟩ := literal_eq_some.1 matched
  have gap := gap_of_blanks skipped
  rw [spelled] at gap
  exact gap

theorem sign_of_gap {c : Char} {i : Input} {rest : List Char} (gap : Gap i.rest (c :: rest))
    (solid : isBlank c = false ∧ c ≠ '/') :
    ∃ j offset, (blanks : Match Unit) i = some ((), j) ∧
      (literal [c] : Match Unit) j = some ((), ⟨offset, rest⟩) := by
  obtain ⟨offset, skipped⟩ := blanks_of_gap gap (solid_cons.2 solid)
  exact ⟨_, _, skipped, literal_eq_some.2 ⟨rest, rfl, rfl⟩⟩

end Wirepack.Schema.Text
