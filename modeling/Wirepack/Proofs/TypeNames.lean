import Wirepack.Keyed
import Wirepack.Proofs.SchemaPrinting

/-!
# Type names and what they stand for

A name is read by taking pairs of brackets off its end and putting as many layers around its base; it is
written by going down the layers and putting a pair behind the base for each. Whatever the characters
of a name, both count the same pairs. So every name gives a type whose own name is the same up to an
alias, and a type comes back from its name unless the message at its base is named like something else.
-/

namespace Wirepack.FieldType
set_option autoImplicit false

open Schema.Text (brackets brackets_succ')

/-- The names that scalars are written by. -/
def keywords : List String := ["int", "long", "float", "double", "bool", "string"]

/-- The other names of scalars, each with the keyword it stands for. -/
def aliases : Keyed String :=
  [("int32", "int"), ("int64", "long"), ("float32", "float"), ("float64", "double"), ("boolean", "bool")]

/-- The keyword of an alias; any other name as it is. -/
def canonical (name : String) : String := (aliases.get? name).getD name

/-- The name ends in a pair of brackets. -/
def EndsInPair (name : String) : Prop := ['[', ']'] <:+ name.toList

/-- The name is that of no scalar and does not end in a pair, so that a message can be told by it. -/
structure Telling (name : String) : Prop where
  keyword : name ∉ keywords
  unaliased : name ∉ aliases.map Prod.fst
  bare : ¬ EndsInPair name

section Pairs

/-- Pairs are stripped as long as there are any. -/
theorem stripPairs_spec (count : Nat) (text : List Char) :
    ∃ pairs rest, stripPairs count text = (rest, count + pairs) ∧
      text = (brackets pairs).reverse ++ rest ∧ ¬ [']', '['] <+: rest := by
  fun_induction stripPairs count text with
  | case1 count text ih =>
    obtain ⟨pairs, rest, stripped, rfl, ends⟩ := ih
    refine ⟨pairs + 1, rest, by rw [stripped, Nat.add_assoc, Nat.add_comm 1], ?_, ends⟩
    rw [brackets_succ', List.reverse_append]
    rfl
  | case2 count text other =>
    refine ⟨0, text, rfl, rfl, ?_⟩
    rintro ⟨rest, rfl⟩
    exact other rest rfl

theorem split_spec (text : String) :
    text.toList = (split text).1.toList ++ brackets (split text).2 ∧ ¬ EndsInPair (split text).1 := by
  obtain ⟨pairs, rest, stripped, spelled, ends⟩ := stripPairs_spec 0 text.toList.reverse
  have parts : split text = (String.ofList rest.reverse, pairs) := by rw [split, stripped, Nat.zero_add]
  rw [parts, EndsInPair, String.toList_ofList]
  constructor
  · rw [← List.reverse_reverse text.toList, spelled, List.reverse_append, List.reverse_reverse]
  · intro pair
    exact ends (List.reverse_suffix.1 pair)

end Pairs

section Bases

theorem scalar?_eq_none_iff {name : String} :
    scalar? name = none ↔ name ∉ keywords ∧ name ∉ aliases.map Prod.fst := by
  unfold scalar?
  split <;> simp_all [keywords, aliases]

theorem baseOf_eq_message_iff {name : String} :
    baseOf name = .message name ↔ name ∉ keywords ∧ name ∉ aliases.map Prod.fst := by
  rw [← scalar?_eq_none_iff, baseOf]
  cases found : scalar? name with
  | none => simp
  | some type =>
    have scalar := isScalar_of_scalar? found
    constructor
    · rintro rfl
      cases scalar
    · rintro ⟨⟩

theorem canonical_of_unaliased {name : String} (unaliased : name ∉ aliases.map Prod.fst) : canonical name = name := by
  have missing : aliases.get? name = none := by
    apply List.lookup_eq_none_iff.2
    intro entry member
    rw [bne_iff_ne]
    rintro rfl
    exact unaliased (List.mem_map_of_mem member)
  rw [canonical, missing, Option.getD_none]

/-- A scalar is written by its keyword, whichever of its names was read. -/
theorem name_baseOf (name : String) : (baseOf name).name = canonical name := by
  cases found : scalar? name with
  | none =>
    rw [canonical_of_unaliased (scalar?_eq_none_iff.1 found).2, baseOf, found]
    rfl
  | some type =>
    rw [baseOf, found]
    unfold scalar? at found
    split at found <;> cases found <;> rfl

theorem base_baseOf (name : String) : (baseOf name).base = baseOf name := by
  have flat := nest_dimensions_base (baseOf name)
  rwa [dimensions_baseOf] at flat

end Bases

section Names

theorem base_ofName (text : String) : (ofName text).base = baseOf (split text).1 :=
  (base_nest _ _).trans (base_baseOf _)

theorem dimensions_ofName (text : String) : (ofName text).dimensions = (split text).2 := by
  refine (dimensions_nest (split text).2 (baseOf (split text).1)).trans ?_
  rw [dimensions_baseOf, Nat.zero_add]

theorem toList_name_ofName (text : String) :
    (ofName text).name.toList = (canonical (split text).1).toList ++ brackets (split text).2 := by
  rw [toList_name, base_ofName, dimensions_ofName, name_baseOf]

theorem base_name_of_ofName_name {type : FieldType} (same : ofName type.name = type) :
    (split type.name).1 = type.base.name := by
  have pairs : (split type.name).2 = type.dimensions := by rw [← dimensions_ofName, same]
  have spelled := (split_spec type.name).1
  rw [toList_name, pairs] at spelled
  exact String.toList_inj.1 (List.append_cancel_right spelled).symm

/-- What is below all layers is a message or a scalar. -/
theorem base_cases (type : FieldType) : (∃ name, type.base = .message name) ∨ type.base.isScalar = true := by
  induction type with
  | repeated item ih => exact ih
  | message name => exact .inl ⟨name, rfl⟩
  | _ => exact .inr rfl

theorem base_base (type : FieldType) : type.base.base = type.base := by
  rcases base_cases type with ⟨name, message⟩ | scalar
  · rw [message, base]
    simp
  · have flat := nest_dimensions_base type.base
    rwa [dimensions_of_isScalar scalar] at flat

theorem bare_of_isScalar {type : FieldType} (scalar : type.isScalar = true) : ¬ EndsInPair type.name := by
  cases type with
  | message _ | repeated _ => cases scalar
  | _ =>
    unfold EndsInPair FieldType.name
    decide

/-- Exactly the types whose message, if they have one, can be told by its name come back. -/
theorem ofName_name_iff (type : FieldType) :
    ofName type.name = type ↔ ∀ name, type.base = .message name → Telling name := by
  constructor
  · intro same name message
    -- As many pairs are taken off the name as there are layers, so that what is left is the base's own name.
    have first : (split type.name).1 = name := by rw [base_name_of_ofName_name same, message, FieldType.name]
    have stands : baseOf name = .message name := by rw [← first, ← base_ofName, same, message, first]
    obtain ⟨keyword, unaliased⟩ := baseOf_eq_message_iff.1 stands
    exact ⟨keyword, unaliased, first ▸ (split_spec type.name).2⟩
  · intro telling
    rcases base_cases type with ⟨name, message⟩ | scalar
    · have told := telling name message
      apply ofName_name_of_base
      · rw [message]
        exact told.bare
      · rw [message]
        exact baseOf_eq_message_iff.2 ⟨told.keyword, told.unaliased⟩
    · have stands := (writable_of_isScalar scalar).stands
      rw [base_base] at stands
      exact ofName_name_of_base (bare_of_isScalar scalar) stands

/-- Nothing that was read from a name is named like something else. -/
theorem telling_of_base_ofName {text name : String} (message : (ofName text).base = .message name) : Telling name := by
  rw [base_ofName] at message
  have same : (split text).1 = name := by
    rcases baseOf_cases (split text).1 with itself | scalar
    · exact FieldType.message.inj (itself.symm.trans message)
    · rw [message] at scalar
      cases scalar
  rw [same] at message
  obtain ⟨keyword, unaliased⟩ := baseOf_eq_message_iff.1 message
  exact ⟨keyword, unaliased, same ▸ (split_spec text).2⟩

end Names

/-- Names and types are inverse, over every type and every text. A type comes back from its name exactly
if its base is no message that is named by a keyword, by an alias or by a name that ends in a pair of
brackets. A text splits into a base that does not end in a pair and the pairs behind it; the type it stands
for has as many layers, is named like the text with the keyword in place of an alias, and comes back
from that name. -/
theorem type_names_inverse :
    (∀ type : FieldType, ofName type.name = type ↔ ∀ name, type.base = .message name → Telling name) ∧
    ∀ text : String,
      text.toList = (split text).1.toList ++ brackets (split text).2 ∧ ¬ EndsInPair (split text).1 ∧
      (ofName text).dimensions = (split text).2 ∧
      (ofName text).name.toList = (canonical (split text).1).toList ++ brackets (split text).2 ∧
      ofName (ofName text).name = ofName text := by
  refine ⟨ofName_name_iff, fun text => ?_⟩
  obtain ⟨spelled, bare⟩ := split_spec text
  refine ⟨spelled, bare, dimensions_ofName text, toList_name_ofName text, ?_⟩
  exact (ofName_name_iff _).2 fun name message => telling_of_base_ofName message

/-- A message named by a keyword with more behind it comes back; one named by an alias does not. -/
theorem odd_names_come_back :
    ofName (FieldType.repeated (.repeated (.message "int]["))).name = .repeated (.repeated (.message "int][")) ∧
    ofName (FieldType.repeated (.message "int64")).name ≠ .repeated (.message "int64") := by
  obtain ⟨comesBack, -⟩ := type_names_inverse
  constructor
  · apply (comesBack _).2
    rintro name ⟨⟩
    exact ⟨by decide, by decide, by unfold EndsInPair; decide⟩
  · intro same
    exact ((comesBack _).1 same "int64" rfl).unaliased (by decide)

-- Brackets that are not a pair at the end belong to the base, which may be empty.
example : split "[]" = ("", 1) ∧ split "a[][" = ("a[][", 0) ∧ split "int][][]" = ("int]", 2) := by
  decide +kernel

end Wirepack.FieldType
