import Mathlib.Data.List.Forall2
import Wirepack.Proofs.SchemaTokens

/-!
# Matching decides the language of schema texts

A rule matches exactly where the phrase is spelled that its result stands for. A repetition
goes on as long as its item matches, so it takes a whole sequence if no item starts behind it:
fields end at a brace and declarations at the end of the text. Which alternative applies is
settled by the first character of the keywords.
-/

namespace Wirepack.Schema.Text
set_option autoImplicit false

/-! ## Rules and repetitions -/

/-- The results of a rule stand for phrases. It matches where such a phrase is spelled and
nowhere else; a phrase starts with no gap and is not empty. -/
structure Realises {α β : Type} (rule : Match α) (Means : α → β → Prop)
    (Spelled : β → List Char → List Char → Prop) : Prop where
  sound {i j : Input} {a : α} : rule i = some (a, j) → ∃ x, Means a x ∧ Spelled x i.rest j.rest
  complete {i : Input} {x : β} {rest : List Char} : Spelled x i.rest rest →
    ∃ a offset, rule i = some (a, ⟨offset, rest⟩) ∧ Means a x
  solid {x : β} {text rest : List Char} : Spelled x text rest → Solid text
  shorter {x : β} {text rest : List Char} : Spelled x text rest → rest.length < text.length

section Repetition

variable {α β : Type} {rule : Match α} {Means : α → β → Prop}
  {Spelled : β → List Char → List Char → Prop}

theorem Realises.after_blanks_sound (item : Realises rule Means Spelled) {i j : Input} {a : α}
    (matched : (blanks *> rule) i = some (a, j)) :
    ∃ x start, Means a x ∧ Gap i.rest start ∧ Spelled x start j.rest := by
  obtain ⟨_, k, skipped, matched⟩ := Match.bind_eq_some.1 matched
  obtain ⟨x, means, spelled⟩ := item.sound matched
  exact ⟨x, k.rest, means, gap_of_blanks skipped, spelled⟩

theorem Realises.after_blanks_complete (item : Realises rule Means Spelled) {i : Input} {x : β}
    {start rest : List Char} (gap : Gap i.rest start) (spelled : Spelled x start rest) :
    ∃ a offset, (blanks *> rule) i = some (a, ⟨offset, rest⟩) ∧ Means a x := by
  obtain ⟨offset, skipped⟩ := blanks_of_gap gap (item.solid spelled)
  obtain ⟨a, after, matched, means⟩ := item.complete (i := ⟨offset, start⟩) spelled
  exact ⟨a, after, Match.bind_eq_some.2 ⟨(), _, skipped, matched⟩, means⟩

theorem Realises.stuck (item : Realises rule Means Spelled) {i : Input} {start : List Char}
    (gap : Gap i.rest start) (solid : Solid start) (ends : ∀ x rest, ¬ Spelled x start rest) :
    (blanks *> rule) i = none := by
  refine Option.eq_none_iff_forall_ne_some.2 fun ⟨a, j⟩ matched => ?_
  obtain ⟨offset, skipped⟩ := blanks_of_gap gap solid
  obtain ⟨_, k, again, matched⟩ := Match.bind_eq_some.1 matched
  cases skipped.symm.trans again
  obtain ⟨x, _, spelled⟩ := item.sound matched
  exact ends x _ spelled

theorem many_sound (item : Realises rule Means Spelled) (bound : Nat) {i j : Input} {as : List α}
    (matched : many (blanks *> rule) bound i = some (as, j)) :
    ∃ xs, List.Forall₂ Means as xs ∧ Sequence Spelled xs i.rest j.rest := by
  induction bound generalizing i as with
  | zero =>
    cases matched
    exact ⟨[], .nil, .none _⟩
  | succ bound ih =>
    rcases Match.orElse_eq_some.1 matched with more | ⟨_, done⟩
    · obtain ⟨a, _, first, others⟩ := Match.bind_eq_some.1 more
      obtain ⟨others', _, others, ⟨⟩⟩ := Match.bind_eq_some.1 others
      obtain ⟨x, start, means, gap, spelled⟩ := item.after_blanks_sound first
      obtain ⟨xs, meanings, sequence⟩ := ih others
      exact ⟨x :: xs, .cons means meanings, .next gap spelled sequence⟩
    · cases done
      exact ⟨[], .nil, .none _⟩

/-- A repetition takes the whole sequence, if no item starts behind it and the bound allows
for as many items. -/
theorem many_complete (item : Realises rule Means Spelled) {xs : List β}
    {text middle start : List Char} (sequence : Sequence Spelled xs text middle)
    (gap : Gap middle start) (solid : Solid start) (ends : ∀ x rest, ¬ Spelled x start rest)
    (bound : Nat) (enough : xs.length ≤ bound) (offset : Nat) :
    ∃ as after, many (blanks *> rule) bound ⟨offset, text⟩ = some (as, ⟨after, middle⟩) ∧
      List.Forall₂ Means as xs := by
  induction sequence generalizing bound offset with
  | none middle =>
    -- Whether the bound is used up or not, nothing more is taken here.
    refine ⟨[], offset, ?_, .nil⟩
    cases bound with
    | zero => rfl
    | succ bound =>
      exact Match.orElse_eq_some.2 (.inr ⟨Match.bind_eq_none (item.stuck gap solid ends), rfl⟩)
  | @next x xs text start after middle before spelled _ ih =>
    cases bound with
    | zero => cases enough
    | succ bound =>
      obtain ⟨a, here, first, means⟩ := item.after_blanks_complete (i := ⟨offset, text⟩) before spelled
      obtain ⟨as, there, others, meanings⟩ := ih gap bound (Nat.le_of_succ_le_succ enough) here
      refine ⟨a :: as, there, Match.orElse_eq_some.2 (.inl ?_), .cons means meanings⟩
      exact Match.bind_eq_some.2 ⟨a, _, first, Match.bind_eq_some.2 ⟨as, _, others, rfl⟩⟩

theorem Sequence.length_le (item : Realises rule Means Spelled) {xs : List β}
    {text rest : List Char} (sequence : Sequence Spelled xs text rest) :
    xs.length + rest.length ≤ text.length := by
  induction sequence with
  | none => simp
  | next gap first _ ih =>
    have := gap.length_le
    have := item.shorter first
    rw [List.length_cons]
    omega

theorem items_sound (item : Realises rule Means Spelled) {i j : Input} {as : List α}
    (matched : items rule i = some (as, j)) :
    ∃ xs, List.Forall₂ Means as xs ∧ Sequence Spelled xs i.rest j.rest := by
  obtain ⟨_, _, ⟨⟩, matched⟩ := Match.bind_eq_some.1 matched
  exact many_sound item _ matched

theorem items_complete (item : Realises rule Means Spelled) {i : Input} {xs : List β}
    {middle start : List Char} (sequence : Sequence Spelled xs i.rest middle)
    (gap : Gap middle start) (solid : Solid start) (ends : ∀ x rest, ¬ Spelled x start rest) :
    ∃ as offset, items rule i = some (as, ⟨offset, middle⟩) ∧ List.Forall₂ Means as xs := by
  have enough : xs.length ≤ i.rest.length + 1 := by
    have := sequence.length_le item
    omega
  obtain ⟨as, offset, matched, meanings⟩ :=
    many_complete item sequence gap solid ends _ enough i.offset
  exact ⟨as, offset, Match.bind_eq_some.2 ⟨i, i, rfl, matched⟩, meanings⟩

end Repetition

/-! ## Declarations -/

theorem brackets_succ' (pairs : Nat) : brackets (pairs + 1) = brackets pairs ++ ['[', ']'] := by
  simp [brackets, List.replicate_succ']

theorem stripPairs_brackets (pairs count : Nat) (rest : List Char) :
    FieldType.stripPairs count ((brackets pairs).reverse ++ rest) =
      FieldType.stripPairs (count + pairs) rest := by
  induction pairs generalizing count with
  | zero => rfl
  | succ pairs ih =>
    rw [brackets_succ', List.reverse_append]
    change FieldType.stripPairs (count + 1) ((brackets pairs).reverse ++ rest) = _
    rw [ih, Nat.add_assoc, Nat.add_comm 1]

/-- A type name splits where its base ends, if that does not end in a pair itself. -/
theorem split_append_brackets {base : List Char} (ends : ¬ ['[', ']'] <:+ base) (pairs : Nat) :
    FieldType.split (String.ofList (base ++ brackets pairs)) = (String.ofList base, pairs) := by
  have stop : FieldType.stripPairs pairs base.reverse = (base.reverse, pairs) := by
    rw [FieldType.stripPairs]
    intro tail shape
    refine ends ⟨tail.reverse, ?_⟩
    rw [← List.reverse_reverse base, shape]
    simp
  simp only [FieldType.split, String.toList_ofList, List.reverse_append, stripPairs_brackets, Nat.zero_add,
    stop, List.reverse_reverse]

/-- No bracket belongs to an identifier. -/
theorem bare_of_ident {base : List Char}
    (starts : ∃ c tail, base = c :: tail ∧ identStart c ∧ ∀ x ∈ tail, identChar x) : ¬ ['[', ']'] <:+ base := by
  have noBracket : ']' ∉ base := by
    obtain ⟨c, tail, rfl, start, others⟩ := starts
    rintro (_ | ⟨_, member⟩)
    · exact absurd start (by decide)
    · exact absurd (others _ member) (by decide)
  intro ends
  exact noBracket (ends.subset (by simp))

theorem split_brackets {base : List Char}
    (starts : ∃ c tail, base = c :: tail ∧ identStart c ∧ ∀ x ∈ tail, identChar x) (pairs : Nat) :
    FieldType.split (String.ofList (base ++ brackets pairs)) = (String.ofList base, pairs) :=
  split_append_brackets (bare_of_ident starts) pairs

theorem split_typeName {base text rest : List Char} (ident : Ident base text rest) (pairs : Nat) :
    (FieldType.split (String.ofList (base ++ brackets pairs))).2 = pairs := by
  rw [split_brackets ident.starts pairs]

/-- A field that was matched is the field of a phrase. -/
structure FieldText.Means (f : FieldText) (phrase : FieldPhrase) : Prop where
  typeName : f.typeName = phrase.typeName
  name : f.name = String.ofList phrase.name
  dims : (FieldType.split f.typeName).2 = phrase.pairs

/-- A declaration that was matched is the one of a phrase. -/
inductive Declaration.Means : Declaration → Phrase → Prop where
  | version (tag : List Char) : Means (.version (String.ofList tag)) (.version tag)
  | message (name : List Char) {fields : List FieldText} {phrases : List FieldPhrase}
      (same : List.Forall₂ FieldText.Means fields phrases) :
      Means (.message (String.ofList name) fields) (.message name phrases)

theorem fieldDecl_realises : Realises fieldDecl FieldText.Means FieldPhrase.Spelled where
  sound {i j f} matched := by
    obtain ⟨_, _, ⟨⟩, matched⟩ := Match.bind_eq_some.1 matched
    obtain ⟨_, _, first, matched⟩ := Match.bind_eq_some.1 matched
    obtain ⟨_, _, gap, matched⟩ := Match.bind_eq_some.1 matched
    obtain ⟨_, _, second, matched⟩ := Match.bind_eq_some.1 matched
    obtain ⟨_, _, skipped, matched⟩ := Match.bind_eq_some.1 matched
    obtain ⟨_, _, semicolon, ⟨⟩⟩ := Match.bind_eq_some.1 matched
    obtain ⟨base, pairs, _, type, rfl, rfl⟩ := typeRef_eq_some.1 first
    obtain ⟨name, _, named, rfl, rfl⟩ := ident_eq_some.1 second
    refine ⟨⟨base, pairs, name⟩, ⟨rfl, rfl, split_typeName type.ident pairs⟩, ?_⟩
    exact .mk type (gap_of_blanks gap) named (gap_of_sign skipped semicolon)
  complete {i f rest} spelled := by
    obtain @⟨base, name, _, afterType, toName, afterName, _, pairs, type, gap, named, close⟩ := spelled
    have first := typeRef_eq_some.2 ⟨base, pairs, afterType, type, rfl, rfl⟩
    obtain ⟨there, skipped⟩ := blanks_of_gap
      (i := (i.advance base.length _).advance (2 * pairs) afterType) gap
      (named.solid fun _ => tagChar_of_identStart)
    have second := (ident_eq_some (i := ⟨there, toName⟩)).2 ⟨name, afterName, named, rfl, rfl⟩
    obtain ⟨_, offset, closing, semicolon⟩ := sign_of_gap
      (i := Input.advance ⟨there, toName⟩ name.length afterName) close (by decide)
    refine ⟨⟨i.offset, _, _⟩, offset, ?_, rfl, rfl, split_typeName type.ident pairs⟩
    refine Match.bind_eq_some.2 ⟨i, i, rfl, Match.bind_eq_some.2 ⟨_, _, first, ?_⟩⟩
    refine Match.bind_eq_some.2 ⟨(), _, skipped, Match.bind_eq_some.2 ⟨_, _, second, ?_⟩⟩
    exact Match.bind_eq_some.2 ⟨(), _, closing, Match.bind_eq_some.2 ⟨(), _, semicolon, rfl⟩⟩
  solid spelled := by
    obtain ⟨type, _, _, _⟩ := spelled
    exact type.ident.solid fun _ => tagChar_of_identStart
  shorter spelled := by
    obtain ⟨type, gap, named, close⟩ := spelled
    have := type.length_lt
    have := gap.length_le
    have := named.length_lt
    have := close.length_le
    simp only [List.length_cons] at this
    omega

theorem versionDecl_sound {i j : Input} {d : Declaration}
    (matched : (versionDecl : Match Declaration) i = some (d, j)) :
    ∃ tag, d.Means (.version tag) ∧ (Phrase.version tag).Spelled i.rest j.rest := by
  obtain ⟨_, _, first, matched⟩ := Match.bind_eq_some.1 matched
  obtain ⟨_, _, skipped, matched⟩ := Match.bind_eq_some.1 matched
  obtain ⟨_, _, equals, matched⟩ := Match.bind_eq_some.1 matched
  obtain ⟨_, _, gap, matched⟩ := Match.bind_eq_some.1 matched
  obtain ⟨_, _, last, ⟨⟩⟩ := Match.bind_eq_some.1 matched
  obtain ⟨_, keyword, rfl⟩ := keyword_eq_some.1 first
  obtain ⟨tag, _, tagged, rfl, rfl⟩ := versionTag_eq_some.1 last
  exact ⟨tag, .version tag,
    .version keyword (gap_of_sign skipped equals) (gap_of_blanks gap) tagged⟩

theorem versionDecl_complete {i : Input} {tag rest : List Char}
    (spelled : (Phrase.version tag).Spelled i.rest rest) :
    ∃ d offset, (versionDecl : Match Declaration) i = some (d, ⟨offset, rest⟩) ∧
      d.Means (.version tag) := by
  obtain @⟨_, _, afterKeyword, afterSign, toTag, _, keyword, sign, gap, tagged⟩ := spelled
  have first := keyword_eq_some.2 ⟨afterKeyword, keyword, rfl⟩
  obtain ⟨_, here, skipped, equals⟩ := sign_of_gap (i := i.advance 7 afterKeyword) sign (by decide)
  obtain ⟨there, before⟩ := blanks_of_gap (i := ⟨here, afterSign⟩) gap (tagged.solid fun _ => id)
  have last := (versionTag_eq_some (i := ⟨there, toTag⟩)).2 ⟨tag, rest, tagged, rfl, rfl⟩
  refine ⟨_, there + tag.length, ?_, .version tag⟩
  refine Match.bind_eq_some.2 ⟨(), _, first, Match.bind_eq_some.2 ⟨(), _, skipped, ?_⟩⟩
  refine Match.bind_eq_some.2 ⟨(), _, equals, Match.bind_eq_some.2 ⟨(), _, before, ?_⟩⟩
  exact Match.bind_eq_some.2 ⟨_, _, last, rfl⟩

theorem classDecl_sound {i j : Input} {d : Declaration}
    (matched : (classDecl : Match Declaration) i = some (d, j)) :
    ∃ name fields, d.Means (.message name fields) ∧
      (Phrase.message name fields).Spelled i.rest j.rest := by
  obtain ⟨_, _, first, matched⟩ := Match.bind_eq_some.1 matched
  obtain ⟨_, _, gap, matched⟩ := Match.bind_eq_some.1 matched
  obtain ⟨_, _, second, matched⟩ := Match.bind_eq_some.1 matched
  obtain ⟨_, _, skipped, matched⟩ := Match.bind_eq_some.1 matched
  obtain ⟨_, _, opening, matched⟩ := Match.bind_eq_some.1 matched
  obtain ⟨_, _, members, matched⟩ := Match.bind_eq_some.1 matched
  obtain ⟨_, _, behind, matched⟩ := Match.bind_eq_some.1 matched
  obtain ⟨_, _, closing, ⟨⟩⟩ := Match.bind_eq_some.1 matched
  obtain ⟨_, keyword, rfl⟩ := keyword_eq_some.1 first
  obtain ⟨name, _, named, rfl, rfl⟩ := ident_eq_some.1 second
  obtain ⟨fields, same, sequence⟩ := items_sound fieldDecl_realises members
  exact ⟨name, fields, .message name same,
    .message keyword (gap_of_blanks gap) named (gap_of_sign skipped opening) sequence
      (gap_of_sign behind closing)⟩

/-- No field starts with the brace that ends the fields. -/
theorem not_spelled_brace (f : FieldPhrase) (text rest : List Char) :
    ¬ f.Spelled ('\x7d' :: text) rest := by
  rintro ⟨⟨⟨shape, ⟨c, tail, rfl, start, _⟩, _⟩, _⟩, _⟩
  cases shape
  exact absurd start (by decide)

theorem classDecl_complete {i : Input} {name rest : List Char} {fields : List FieldPhrase}
    (spelled : (Phrase.message name fields).Spelled i.rest rest) :
    ∃ d offset, (classDecl : Match Declaration) i = some (d, ⟨offset, rest⟩) ∧
      d.Means (.message name fields) := by
  obtain ⟨⟩ | @⟨_, _, afterKeyword, toName, afterName, body, afterFields, _, _, keyword, gap, named,
    opening, members, close⟩ := spelled
  have first := keyword_eq_some.2 ⟨afterKeyword, keyword, rfl⟩
  obtain ⟨here, before⟩ := blanks_of_gap (i := i.advance 5 afterKeyword) gap
    (named.solid fun _ => tagChar_of_identStart)
  have second := (ident_eq_some (i := ⟨here, toName⟩)).2 ⟨name, afterName, named, rfl, rfl⟩
  obtain ⟨_, there, skipped, opened⟩ :=
    sign_of_gap (i := Input.advance ⟨here, toName⟩ name.length afterName) opening (by decide)
  -- The brace behind the fields starts no field, so the repetition ends with them.
  obtain ⟨texts, last, listed, same⟩ := items_complete fieldDecl_realises (i := ⟨there, body⟩)
    members close (solid_cons.2 (by decide)) fun f after => not_spelled_brace f rest after
  obtain ⟨_, offset, behind, closed⟩ := sign_of_gap (i := ⟨last, afterFields⟩) close (by decide)
  refine ⟨_, offset, ?_, .message name same⟩
  refine Match.bind_eq_some.2 ⟨(), _, first, Match.bind_eq_some.2 ⟨(), _, before, ?_⟩⟩
  refine Match.bind_eq_some.2 ⟨_, _, second, Match.bind_eq_some.2 ⟨(), _, skipped, ?_⟩⟩
  refine Match.bind_eq_some.2 ⟨(), _, opened, Match.bind_eq_some.2 ⟨texts, _, listed, ?_⟩⟩
  exact Match.bind_eq_some.2 ⟨(), _, behind, Match.bind_eq_some.2 ⟨(), _, closed, rfl⟩⟩

theorem declaration_realises :
    Realises (versionDecl <|> classDecl) Declaration.Means Phrase.Spelled where
  sound matched := by
    rcases Match.orElse_eq_some.1 matched with version | ⟨_, message⟩
    · obtain ⟨tag, means, spelled⟩ := versionDecl_sound version
      exact ⟨_, means, spelled⟩
    · obtain ⟨name, fields, means, spelled⟩ := classDecl_sound message
      exact ⟨_, means, spelled⟩
  complete {i phrase rest} spelled := by
    cases phrase with
    | version tag =>
      obtain ⟨d, offset, matched, means⟩ := versionDecl_complete spelled
      exact ⟨d, offset, Match.orElse_eq_some.2 (.inl matched), means⟩
    | message name fields =>
      obtain ⟨d, offset, matched, means⟩ := classDecl_complete spelled
      refine ⟨d, offset, Match.orElse_eq_some.2 (.inr ⟨?_, matched⟩), means⟩
      -- The keywords differ in their first character.
      refine Option.eq_none_iff_forall_ne_some.2 fun ⟨_, _⟩ version => ?_
      obtain ⟨_, _, ⟨⟨other, _⟩, _⟩⟩ := versionDecl_sound version
      obtain ⟨⟩ | ⟨⟨shape, _⟩⟩ := spelled
      cases other.symm.trans shape
  solid spelled := by
    obtain ⟨⟨rfl, _⟩⟩ | ⟨⟨rfl, _⟩⟩ := spelled
    · exact solid_of_tagChar (by decide)
    · exact solid_of_tagChar (by decide)
  shorter spelled := by
    obtain ⟨keyword, sign, gap, tagged⟩ | ⟨keyword, gap, named, opening, members, close⟩ := spelled
    · have := keyword.length_le
      have := sign.length_le
      have := gap.length_le
      have := tagged.length_lt
      simp only [List.length_cons] at *
      omega
    · have := keyword.length_le
      have := gap.length_le
      have := named.length_lt
      have := opening.length_le
      have := members.length_le fieldDecl_realises
      have := close.length_le
      simp only [List.length_cons] at *
      omega

/-! ## Texts -/

theorem declarations?_sound {text : List Char} {declarations : List Declaration}
    (matched : declarations? text = some declarations) :
    ∃ phrases, List.Forall₂ Declaration.Means declarations phrases ∧ Spelled phrases text := by
  obtain ⟨⟨_, _⟩, whole, rfl⟩ := Option.map_eq_some_iff.1 matched
  obtain ⟨_, k, listed, matched⟩ := Match.bind_eq_some.1 whole
  obtain ⟨_, j, skipped, matched⟩ := Match.bind_eq_some.1 matched
  obtain ⟨_, _, ended, ⟨⟩⟩ := Match.bind_eq_some.1 matched
  obtain ⟨phrases, same, sequence⟩ := items_sound declaration_realises listed
  obtain ⟨_, _, ⟨⟩, ended⟩ := Match.bind_eq_some.1 ended
  split at ended
  · next empty =>
    have gap := gap_of_blanks skipped
    rw [List.isEmpty_iff.1 empty] at gap
    exact ⟨phrases, same, k.rest, sequence, gap⟩
  · cases ended

theorem declarations?_complete {text : List Char} {phrases : List Phrase}
    (spelled : Spelled phrases text) :
    ∃ declarations, declarations? text = some declarations ∧
      List.Forall₂ Declaration.Means declarations phrases := by
  obtain ⟨rest, sequence, gap⟩ := spelled
  have solid : Solid [] := by simp [Solid]
  have ends : ∀ phrase rest, ¬ Phrase.Spelled phrase [] rest := by
    intro phrase rest spelled
    exact Nat.not_lt_zero _ (declaration_realises.shorter spelled)
  obtain ⟨declarations, here, listed, same⟩ :=
    items_complete declaration_realises (i := ⟨0, text⟩) sequence gap solid ends
  obtain ⟨there, skipped⟩ := blanks_of_gap (i := ⟨here, rest⟩) gap solid
  refine ⟨declarations, Option.map_eq_some_iff.2 ⟨(declarations, ⟨there, []⟩), ?_, rfl⟩, same⟩
  refine Match.bind_eq_some.2 ⟨declarations, _, listed, Match.bind_eq_some.2 ⟨(), _, skipped, ?_⟩⟩
  exact Match.bind_eq_some.2 ⟨(), _, rfl, rfl⟩

end Wirepack.Schema.Text
