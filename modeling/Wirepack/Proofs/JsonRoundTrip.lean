import Wirepack.Proofs.ExactTypes

/-!
# JSON comes back from a payload

A JSON value that is encoded as a message without floats comes back with its declared members only, in
declared order; numbers, switches, texts and the order of arrays are as they were. Which members an
object has besides, in which order it has them and how deep it is does not matter.
-/

namespace Wirepack
set_option autoImplicit false

/-- No array that counts has more than `limit` elements, and all lengths are those of 64-bit signed
integers. -/
def Json.Fits (limit : Nat) : Json → Prop
  | .string text => (Utf8.encode text).length < Written.lengthBound
  | .array items => items.length ≤ limit ∧ items.length < Written.lengthBound ∧ ∀ json ∈ items, json.Fits limit
  | .object members => ∀ key json, Json.member? members key = some json → json.Fits limit
  | _ => True
decreasing_by
  · decreasing_tactic
  · have := Json.sizeOf_member_lt ‹_›
    decreasing_tactic

theorem Json.fits_object {members : List (String × Json)} {limit : Nat}
    (all : ∀ entry ∈ members, entry.2.Fits limit) : (Json.object members).Fits limit := by
  rw [Fits]
  intro key json has
  exact all (key, json) (List.mem_reverse.1 (Keyed.mem_of_get? has))

theorem Json.StandsFor.fits {lookup : String → Option Definition} {type : FieldType} {json : Json} {v : Value}
    (stands : json.StandsFor lookup type v) {limit : Nat} (fits : json.Fits limit) : v.Fits limit := by
  induction stands with
  | string text => simpa [Json.Fits, Value.Fits] using fits
  | @array item items values same all ih =>
    rw [Json.Fits] at fits
    obtain ⟨counted, small, each⟩ := fits
    rw [Value.Fits]
    refine ⟨by omega, by omega, fun v member => ?_⟩
    obtain ⟨json, paired⟩ := exists_mem_zip same member
    exact ih (json, v) paired (each json (List.of_mem_zip paired).1)
  | @object name d members fields found named present all ih =>
    rw [Json.Fits] at fits
    rw [Value.Fits]
    intro field member
    obtain ⟨f, paired⟩ := Value.Typed.exists_declared named member
    obtain ⟨part, has⟩ := Option.isSome_iff_exists.1 (present f (List.of_mem_zip paired).1)
    exact ih (f, field) paired part has (fits f.name part has)
  | _ => simp [Value.Fits]

namespace Message

mutual

/-- The declared part of a JSON value. -/
def projected (schema : Schema) : FieldType → Json → Json
  | .repeated item, .array items => .array (items.map (projected schema item))
  | .message name, .object members => .object (projectedMembers schema name members)
  | _, json => json
termination_by _ json => (sizeOf json, 0)

/-- The declared members of an object, in declared order. -/
def projectedMembers (schema : Schema) (type : String) (members : List (String × Json)) : List (String × Json) :=
  match schema.get? type with
  | none => members
  | some d => d.fields.filterMap fun f =>
    match found : Json.member? members f.name with
    | none => none
    | some json =>
      have := Json.sizeOf_member_lt found
      some (f.name, projected schema f.type json)
termination_by (sizeOf members, 0)

end

variable {schema : Schema}

theorem projectedMembers_eq {type : String} {d : Definition} (members : List (String × Json))
    (found : schema.get? type = some d) :
    projectedMembers schema type members = d.fields.filterMap fun f =>
      ((Json.member? members f.name).map (projected schema f.type)).map fun json => (f.name, json) := by
  rw [projectedMembers, found]
  show d.fields.filterMap _ = _
  congr 1
  funext f
  split <;> simp_all

/-- Converting back gives the declared part of the JSON value. Induction on what it stands for. -/
theorem valueToJson_of_standsFor (distinct : ∀ d ∈ schema.messages, (d.fields.map Field.name).Nodup)
    {type : FieldType} {json : Json} {v : Value} (stands : json.StandsFor schema.get? type v)
    (none : ∀ inner, type.Reaches schema.get? inner → inner.isFloat = false) (path : Path) :
    valueToJson schema path type v = .ok (projected schema type json) := by
  induction stands generalizing path with
  | bool v => simp [valueToJson, projected, scalarToJson?]
  | @int json n v integer fits =>
    obtain rfl := narrow?_eq_some.1 fits
    obtain rfl := Json.asInt64?_eq_some.1 integer
    simp [valueToJson, projected, scalarToJson?, Value.asInt?_int]
  | long integer =>
    obtain rfl := Json.asInt64?_eq_some.1 integer
    simp [valueToJson, projected, scalarToJson?, Value.asLong?]
  | float number => cases none .float (.self _)
  | double number => cases none .double (.self _)
  | string text => simp [valueToJson, projected, scalarToJson?]
  | @array item items values same all ih =>
    rw [valueToJson, itemsToJson_eq, projected]
    refine Check.bind_eq_ok.2 ⟨_, eachItem_eq_ok.2 ⟨by simp [same], ?_⟩, rfl⟩
    intro pair member
    have inside := List.fst_mem_of_mem_zipIdx member
    -- Swapped, the pairs of values with projected items are pairs of items with what they stand for.
    rw [← List.zip_swap, List.zip_map_left, List.map_map, List.mem_map] at inside
    obtain ⟨parts, paired, same⟩ := inside
    rw [← same]
    exact ih parts paired (fun inner below => none inner (.item below)) (path.index pair.2)
  | @object name d members fields found named present all ih =>
    have different := distinct d (List.mem_of_find?_eq_some found)
    rw [valueToJson, projected]
    apply (recordToJson_eq_ok distinct).2
    obtain ⟨names, parts⟩ := (filterMap_eq_iff (by simpa using present)).1 (projectedMembers_eq members found).symm
    refine ⟨d, _, found, rfl, names, fun pair member => ?_⟩
    have inside := (List.of_mem_zip member).1
    obtain ⟨part, has, same⟩ := Option.map_eq_some_iff.1 (parts pair member)
    obtain ⟨field, paired⟩ := Value.Typed.exists_field named inside
    refine ⟨field.2, Value.Typed.get?_of_mem_zip named different paired, ?_⟩
    rw [← same]
    exact ih (pair.1, field) paired part has (fun inner below => none inner (.field found inside below)) _

section Payload

variable {type : String}

theorem decode_of_typed (distinct : ∀ d ∈ schema.messages, (d.fields.map Field.name).Nodup)
    (none : ∀ inner, (FieldType.message type).Reaches schema.get? inner → inner.isFloat = false) {record : Record}
    (typed : (Value.record record).Typed schema.get? (.message type)) {writing reading : Config} {payload : Bytes}
    (encoded : encode schema writing type record = .ok payload) (fits : (Value.record record).Fits reading.maxCollection)
    (tag : ∀ d, schema.get? type = some d → (Utf8.encode d.version).length < Written.lengthBound) :
    decode schema reading type payload = .ok record := by
  obtain ⟨d, found, -, within, rfl⟩ := encode_wrote encoded
  -- A typed record is its own declared part, and without floats reading changes nothing in it.
  have same : declaredRecord schema type record = record := by
    have whole := declared_of_typed distinct typed
    rw [declared] at whole
    exact Value.record.inj whole
  have unchanged := (typed.floatless none).requantized_fields
  rw [same] at within ⊢
  rw [Value.Fits] at fits
  cases typed with
  | record known named all =>
    cases found.symm.trans known
    have accepted : Record.Accepted schema.get? reading.maxCollection Schema.maxDepth d.fields record _ :=
      ⟨named, all, within, fits, fun _ => Nat.le_refl _⟩
    have reads := reads_of_accepted distinct found accepted (tag d found)
    rw [unchanged] at reads
    have back := reads 0 []
    rw [List.append_nil] at back
    rw [decode, Value.wire]
    simp only [Cursor.start, back]

/-- If the message in a JSON text can be encoded, decoding its payload to JSON gives the declared part
of what the text says, whatever reader tells that. -/
theorem decodeJson_encodeJson (distinct : ∀ d ∈ schema.messages, (d.fields.map Field.name).Nodup)
    (none : ∀ inner, (FieldType.message type).Reaches schema.get? inner → inner.isFloat = false)
    {parse : String → Except String Json} {text : String} {json : Json} (parsed : parse text = .ok json)
    {writing reading : Config} {payload : Bytes}
    (encoded : encodeJsonWith parse schema writing type text = .ok payload) (fits : json.Fits reading.maxCollection)
    (tag : ∀ d, schema.get? type = some d → (Utf8.encode d.version).length < Written.lengthBound) :
    decodeJson schema reading type payload = .ok (projected schema (.message type) json) := by
  obtain ⟨record, converted, encoded⟩ := Check.bind_eq_ok.1 encoded
  rw [ofJsonTextWith, parsed] at converted
  have stands := (ofJson_eq_ok distinct).1 converted
  have decoded := decode_of_typed distinct none stands.typed encoded (stands.fits fits) tag
  have back := valueToJson_of_standsFor distinct stands none .top
  rw [valueToJson] at back
  exact Check.bind_eq_ok.2 ⟨record, decoded, back⟩

end Payload

/-- Other orders than declared, and members that are not declared. -/
def treeText : String :=
  "\x7b\"children\": [\x7b\"children\": [], \"mark\": null, \"id\": 7\x7d], \"spare\": [true], \"id\": -300\x7d"

def treeJson : Json :=
  .object [("children", .array [.object [("children", .array []), ("mark", .null), ("id", .ofInt 7)]]),
    ("spare", .array [.bool true]), ("id", .ofInt (-300))]

theorem get?_node : node.get? "Node" =
    some ⟨"Node", "n1", [⟨"id", .int⟩, ⟨"children", .repeated (.message "Node")⟩]⟩ := rfl

/-- An object with an id and children stands for a node, whatever else it has. -/
theorem standsFor_node {members : List (String × Json)} {id children : Json} {n : Int64} {v : Int32} {items : List Value}
    (hasId : Json.member? members "id" = some id) (integer : id.asInt64? = some n) (fits : narrow? n = some v)
    (hasChildren : Json.member? members "children" = some children)
    (below : children.StandsFor node.get? (.repeated (.message "Node")) (.array items)) :
    (Json.object members).StandsFor node.get? (.message "Node")
      (.record [("id", .int v), ("children", .array items)]) := by
  refine .object get?_node rfl ?_ (List.forall_mem_cons.2 ⟨?_, List.forall_mem_cons.2 ⟨?_, by simp⟩⟩)
  · simp [hasId, hasChildren]
  · intro part has
    cases hasId.symm.trans has
    exact .int integer fits
  · intro part has
    cases hasChildren.symm.trans has
    exact below

def treeNode : Record :=
  [("id", .int (-300)), ("children", .array [.record [("id", .int 7), ("children", .array [])]])]

theorem standsFor_treeNode : treeJson.StandsFor node.get? (.message "Node") (.record treeNode) := by
  refine standsFor_node rfl rfl rfl rfl (.array rfl (List.forall_mem_cons.2 ⟨?_, by simp⟩))
  exact standsFor_node rfl rfl rfl rfl (.array rfl (by simp))

theorem parse_treeText : Json.parse treeText = .ok treeJson := by
  decide +kernel

theorem encodeJson_treeText : encodeJson node ⟨0, 0⟩ "Node" treeText = .ok [4, 110, 49, 215, 4, 2, 14, 0] := by
  refine Check.bind_eq_ok.2 ⟨treeNode, ?_, by decide +kernel⟩
  rw [ofJsonTextWith, parse_treeText]
  exact (ofJson_eq_ok (by decide)).2 standsFor_treeNode

theorem projected_treeJson : projected node (.message "Node") treeJson =
    .object [("id", .ofInt (-300)), ("children", .array [.object [("id", .ofInt 7), ("children", .array [])]])] := by
  simp [treeJson, projected, projectedMembers_eq _ get?_node, Json.member?, Keyed.get?_cons]

theorem fits_treeJson : treeJson.Fits 1 := by
  have child : (Json.object [("children", .array []), ("mark", .null), ("id", .ofInt 7)]).Fits 1 := by
    apply Json.fits_object
    simp [Json.Fits, Json.ofInt, Written.lengthBound]
  apply Json.fits_object
  simpa [Json.Fits, Json.ofInt, Written.lengthBound] using child

theorem node_floatless (inner : FieldType) (reaches : (FieldType.message "Node").Reaches node.get? inner) :
    inner.isFloat = false := by
  have stays : inner = .message "Node" ∨ inner = .int ∨ inner = .repeated (.message "Node") := by
    apply FieldType.Reaches.passes _ _ reaches (.inl rfl)
    · rintro type (same | same | same) <;> cases same
      exact .inl rfl
    · rintro name d f (same | same | same) known member <;> cases same
      cases get?_node.symm.trans known
      simp only [List.mem_cons, List.not_mem_nil, or_false] at member
      rcases member with rfl | rfl
      · exact .inr (.inl rfl)
      · exact .inr (.inr rfl)
  rcases stays with rfl | rfl | rfl <;> rfl

theorem decodeJson_encodeJson_tree :
    encodeJson node ⟨0, 0⟩ "Node" treeText = .ok [4, 110, 49, 215, 4, 2, 14, 0] ∧
    decodeJson node ⟨0, 1⟩ "Node" [4, 110, 49, 215, 4, 2, 14, 0] =
      .ok (.object [("id", .ofInt (-300)),
        ("children", .array [.object [("id", .ofInt 7), ("children", .array [])]])]) := by
  have tag : ∀ d, node.get? "Node" = some d → (Utf8.encode d.version).length < Written.lengthBound := by
    intro d found
    cases found
    decide
  refine ⟨encodeJson_treeText, ?_⟩
  rw [← projected_treeJson]
  exact decodeJson_encodeJson (by decide) node_floatless parse_treeText encodeJson_treeText fits_treeJson tag

end Message

end Wirepack
