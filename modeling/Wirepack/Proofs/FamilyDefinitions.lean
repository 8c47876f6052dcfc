import Wirepack.Proofs.FamilySchema
import Wirepack.Proofs.SchemaDefects

/-!
# The schema of a declared type is complete

What is collected for a type is the type and the types that it reaches, each once. The list that
grows is also the record of what has been entered, and a type is put on it before the types that it
refers to. So a type on the list is finished or still being walked, and in the end everything that
it refers to is on the list too. The walk is given as many levels as there are types, which is always
enough: it ends by itself and not where the levels do.

A schema made of such a list can only be refused for what the types themselves say, which is too many
layers of arrays, or a ring.
-/

namespace Wirepack
set_option autoImplicit false

namespace Family

/-! ## The walk -/

/-- Walking the types `names` in turn, depth first, makes `known` into the last list. This is the
collection without a bound on its levels. -/
inductive Collected (family : Family) : List Definition → List String → List Definition → Prop where
  | done (known : List Definition) : Collected family known [] known
  | listed {known after : List Definition} {name : String} {names : List String}
      (old : name ∈ known.map Definition.name) (others : Collected family known names after) :
      Collected family known (name :: names) after
  | undeclared {known after : List Definition} {name : String} {names : List String}
      (fresh : name ∉ known.map Definition.name) (missing : family.get? name = none)
      (others : Collected family known names after) : Collected family known (name :: names) after
  | entered {known below after : List Definition} {name : String} {names : List String} {d : Definition}
      (fresh : name ∉ known.map Definition.name) (found : family.get? name = some d)
      (inside : Collected family (known ++ [d]) d.references below)
      (others : Collected family below names after) : Collected family known (name :: names) after

variable {family : Family} {known after : List Definition} {names : List String}

theorem name_of_get? {name : String} {d : Definition} (found : family.get? name = some d) : d.name = name := by
  have whole : family.whole.get? name = some d := found
  exact Schema.name_of_get? whole

namespace Collected

theorem cons {middle : List Definition} {name : String} (first : family.Collected known [name] middle)
    (others : family.Collected middle names after) : family.Collected known (name :: names) after := by
  cases first with
  | listed old rest =>
    cases rest
    exact .listed old others
  | undeclared fresh missing rest =>
    cases rest
    exact .undeclared fresh missing others
  | entered fresh found inside rest =>
    cases rest
    exact .entered fresh found inside others

theorem grows (collected : family.Collected known names after) : known <+: after := by
  induction collected with
  | done known => exact List.prefix_rfl
  | listed _ _ ih => exact ih
  | undeclared _ _ _ ih => exact ih
  | entered _ _ _ _ inside others => exact ((List.prefix_append _ _).trans inside).trans others

theorem names_nodup (collected : family.Collected known names after) (distinct : (known.map Definition.name).Nodup) :
    (after.map Definition.name).Nodup := by
  induction collected with
  | done known => exact distinct
  | listed _ _ ih => exact ih distinct
  | undeclared _ _ _ ih => exact ih distinct
  | @entered known _ _ name _ d fresh found _ _ inside others =>
    refine others (inside ?_)
    rw [List.map_append, List.map_singleton, name_of_get? found, ← List.concat_eq_append]
    exact distinct.concat fresh

/-- What is walked is on the list in the end. -/
theorem lists (collected : family.Collected known names after) {name : String} (walked : name ∈ names)
    (declared : family.get? name ≠ none) : name ∈ after.map Definition.name := by
  induction collected with
  | done known => cases walked
  | listed old others ih =>
    rcases List.mem_cons.1 walked with rfl | later
    · exact List.map_subset _ others.grows.subset old
    · exact ih later
  | undeclared _ missing _ ih =>
    rcases List.mem_cons.1 walked with rfl | later
    · exact absurd missing declared
    · exact ih later
  | @entered known _ _ first _ d _ found inside others _ ih =>
    rcases List.mem_cons.1 walked with rfl | later
    · have there : d ∈ known ++ [d] := List.mem_append_right known List.mem_cons_self
      exact name_of_get? found ▸ List.mem_map_of_mem (others.grows.subset (inside.grows.subset there))
    · exact ih later

/-- What is new on the list has what it refers to on the list. -/
theorem closed (collected : family.Collected known names after) {d : Definition} (new : d ∈ after)
    (absent : d ∉ known) {target : String} (refers : target ∈ d.references) (declared : family.get? target ≠ none) :
    target ∈ after.map Definition.name := by
  induction collected with
  | done known => exact absurd new absent
  | listed _ _ ih => exact ih new absent
  | undeclared _ _ _ ih => exact ih new absent
  | @entered known below after name names e _ _ inside others ihInside ihOthers =>
    by_cases earlier : d ∈ below
    · refine List.map_subset _ others.grows.subset ?_
      by_cases self : d ∈ known ++ [e]
      · obtain rfl : d = e := by simpa [absent] using self
        exact inside.lists refers declared
      · exact ihInside earlier self
    · exact ihOthers new earlier

/-- What is new on the list is declared, and reached from what was walked. -/
theorem reached (collected : family.Collected known names after) {d : Definition} (new : d ∈ after)
    (absent : d ∉ known) : family.get? d.name = some d ∧
      ∃ name ∈ names, Relation.ReflTransGen family.whole.Refers name d.name := by
  induction collected with
  | done known => exact absurd new absent
  | listed _ _ ih | undeclared _ _ _ ih =>
    obtain ⟨declared, name, walked, path⟩ := ih new absent
    exact ⟨declared, name, List.mem_cons_of_mem _ walked, path⟩
  | @entered known below after name names e _ found inside others ihInside ihOthers =>
    have named := name_of_get? found
    by_cases earlier : d ∈ below
    · by_cases self : d ∈ known ++ [e]
      · obtain rfl : d = e := by simpa [absent] using self
        exact ⟨named ▸ found, name, List.mem_cons_self, named ▸ .refl⟩
      · obtain ⟨declared, target, refers, path⟩ := ihInside earlier self
        exact ⟨declared, name, List.mem_cons_self, path.head (Schema.refers_of_mem_references found refers)⟩
    · obtain ⟨declared, other, walked, path⟩ := ihOthers new earlier
      exact ⟨declared, other, List.mem_cons_of_mem _ walked, path⟩

theorem first {name : String} {d : Definition} (collected : family.Collected [] [name] after)
    (found : family.get? name = some d) : ∃ rest, after = d :: rest := by
  cases collected with
  | listed old _ => cases old
  | undeclared _ missing _ => cases found.symm.trans missing
  | entered _ entry inside others =>
    cases others
    obtain rfl := Option.some.inj (found.symm.trans entry)
    obtain ⟨rest, whole⟩ := inside.grows
    exact ⟨rest, whole.symm⟩

end Collected

/-! ## Levels -/

/-- The number of declared types that are not on the list. -/
def unlisted (family : Family) (known : List Definition) : Nat :=
  (family.whole.offPath (known.map Definition.name)).length

theorem unlisted_le (family : Family) (grows : known <+: after) : family.unlisted after ≤ family.unlisted known := by
  refine (List.monotone_filter_right family.declarations fun d off => ?_).length_le
  have absent : d.name ∉ after.map Definition.name := of_decide_eq_true off
  exact decide_eq_true fun there => absent (List.map_subset _ grows.subset there)

theorem unlisted_enter {name : String} {d : Definition} (fresh : name ∉ known.map Definition.name)
    (found : family.get? name = some d) : family.unlisted (known ++ [d]) < family.unlisted known := by
  have named := name_of_get? found
  have same : family.whole.offPath ((known ++ [d]).map Definition.name) =
      family.whole.offPath (name :: known.map Definition.name) := by
    refine List.filter_congr fun e _ => decide_eq_decide.2 (not_congr ?_)
    rw [List.map_append, List.mem_append, List.map_singleton, List.mem_singleton, List.mem_cons, named, or_comm]
  rw [unlisted, same]
  exact Schema.offPath_cons_lt found fresh

theorem collect_foldl {levels : Nat} {known : List Definition} (enough : family.unlisted known ≤ levels)
    (collects : ∀ known name, family.unlisted known ≤ levels →
      family.Collected known [name] (family.collect levels known name)) (names : List String) :
    family.Collected known names (names.foldl (family.collect levels) known) := by
  induction names generalizing known with
  | nil => exact .done known
  | cons name names ih =>
    have first := collects known name enough
    exact first.cons (ih (Nat.le_trans (family.unlisted_le first.grows) enough))

/-- Every level enters a type, so as many levels are enough as there are types to enter. -/
theorem collect_collected {levels : Nat} {known : List Definition} (name : String)
    (enough : family.unlisted known ≤ levels) :
    family.Collected known [name] (family.collect levels known name) := by
  induction levels generalizing known name with
  | zero =>
    by_cases old : name ∈ known.map Definition.name
    · exact .listed old (.done known)
    · cases found : family.get? name with
      | none => exact .undeclared old found (.done known)
      | some d =>
        have := unlisted_enter old found
        omega
  | succ levels ih =>
    rw [collect]
    by_cases old : name ∈ known.map Definition.name
    · rw [if_pos (by simpa using old)]
      exact .listed old (.done known)
    · rw [if_neg (by simpa using old)]
      cases found : family.get? name with
      | none => exact .undeclared old found (.done known)
      | some d =>
        have fewer := unlisted_enter old found
        have below : family.unlisted (known ++ [d]) ≤ levels := by omega
        exact .entered old found (collect_foldl below (fun _ name => ih name) d.references) (.done _)

theorem definitions_collected (family : Family) (name : String) :
    family.Collected [] [name] (family.definitions name) :=
  collect_collected name (family.length_offPath_le _)

/-! ## The schema -/

/-- The types are told apart by name, as the fields of each are, and refer to types of the family. -/
structure WellFormed (family : Family) : Prop where
  distinct : (family.declarations.map Definition.name).Nodup
  fields : ∀ d ∈ family.declarations, (d.fields.map Field.name).Nodup
  closed : ∀ source target, family.whole.Refers source target → ∃ d ∈ family.declarations, d.name = target

/-- A chain of references, which may be empty, leads from the one type to the other. -/
def Reaches (family : Family) (source target : String) : Prop :=
  Relation.ReflTransGen family.whole.Refers source target

namespace WellFormed

variable {d : Definition}

theorem get?_eq_some_iff (formed : family.WellFormed) {name : String} :
    family.get? name = some d ↔ d ∈ family.declarations ∧ d.name = name := by
  have distinct : (family.whole.messages.map Definition.name).Nodup := formed.distinct
  exact Schema.get?_eq_some_iff distinct

theorem eq_of_name (formed : family.WellFormed) {e : Definition} (first : d ∈ family.declarations)
    (second : e ∈ family.declarations) (same : d.name = e.name) : d = e :=
  List.inj_on_of_nodup_map formed.distinct first second same

theorem mem_definitions_iff (formed : family.WellFormed) (member : d ∈ family.declarations) {e : Definition} :
    e ∈ family.definitions d.name ↔ e ∈ family.declarations ∧ family.Reaches d.name e.name := by
  have collected := family.definitions_collected d.name
  have declared : ∀ {e}, e ∈ family.definitions d.name → e ∈ family.declarations :=
    fun inside => (formed.get?_eq_some_iff.1 (declared_of_mem_definitions inside)).1
  constructor
  · intro inside
    obtain ⟨-, name, walked, path⟩ := collected.reached inside List.not_mem_nil
    obtain rfl := List.mem_singleton.1 walked
    exact ⟨declared inside, path⟩
  · rintro ⟨there, path⟩
    suffices listed : e.name ∈ (family.definitions d.name).map Definition.name by
      obtain ⟨g, inside, same⟩ := List.mem_map.1 listed
      exact formed.eq_of_name (declared inside) there same ▸ inside
    clear there
    generalize e.name = target at path
    -- Induction on the chain: a type on the list has what it refers to on the list.
    induction path with
    | refl => exact List.mem_map_of_mem (mem_definitions_self (formed.get?_eq_some_iff.2 ⟨member, rfl⟩))
    | @tail source target _ refers ih =>
      obtain ⟨g, inside, named⟩ := List.mem_map.1 ih
      obtain ⟨h, there, same, f, field, mentions⟩ := refers
      obtain rfl : g = h := formed.eq_of_name (declared inside) there (named.trans same.symm)
      obtain ⟨t, known, tname⟩ := formed.closed g.name target ⟨g, there, rfl, f, field, mentions⟩
      have mentioned : target ∈ g.references :=
        List.mem_filterMap.2 ⟨f, field, FieldType.messageName?_eq_some_iff.2 mentions⟩
      refine collected.closed inside List.not_mem_nil mentioned ?_
      rw [formed.get?_eq_some_iff.2 ⟨known, tname⟩]
      exact Option.some_ne_none t

end WellFormed

/-- A type and the types it contains as a schema, before it is checked. -/
def described (family : Family) (d : Definition) : Schema :=
  ⟨d.version, family.definitions d.name⟩

theorem definitions_names_nodup (family : Family) (name : String) :
    ((family.definitions name).map Definition.name).Nodup :=
  (family.definitions_collected name).names_nodup List.nodup_nil

theorem addAll_definitions (family : Family) (d : Definition) :
    (family.definitions d.name).foldlM Schema.add (.empty d.version) = .ok (family.described d) := by
  have distinct : (((Schema.empty d.version).messages ++ family.definitions d.name).map Definition.name).Nodup :=
    family.definitions_names_nodup d.name
  exact Schema.addAll_of_nodup distinct

theorem schema_eq (family : Family) (d : Definition) :
    family.schema d = (family.described d).validate >>= fun _ => .ok (family.described d) := by
  rw [schema, Schema.ofDefinitions, addAll_definitions]
  rfl

theorem described_built (family : Family) (d : Definition) : (family.described d).Built :=
  (Schema.Built.empty d.version).addAll (family.addAll_definitions d)

namespace WellFormed

variable {d : Definition}

theorem refers_described_iff (formed : family.WellFormed) (member : d ∈ family.declarations)
    {source target : String} : (family.described d).Refers source target ↔
      family.Reaches d.name source ∧ family.whole.Refers source target := by
  constructor
  · rintro ⟨e, inside, rfl, mentions⟩
    obtain ⟨there, path⟩ := (formed.mem_definitions_iff member).1 inside
    exact ⟨path, e, there, rfl, mentions⟩
  · rintro ⟨path, e, there, rfl, mentions⟩
    exact ⟨e, (formed.mem_definitions_iff member).2 ⟨there, path⟩, rfl, mentions⟩

theorem transGen_described_iff (formed : family.WellFormed) (member : d ∈ family.declarations)
    {source target : String} : Relation.TransGen (family.described d).Refers source target ↔
      family.Reaches d.name source ∧ Relation.TransGen family.whole.Refers source target := by
  constructor
  · intro chain
    induction chain with
    | single refers =>
      obtain ⟨path, refers⟩ := (formed.refers_described_iff member).1 refers
      exact ⟨path, .single refers⟩
    | tail _ refers ih => exact ⟨ih.1, ih.2.tail ((formed.refers_described_iff member).1 refers).2⟩
  · rintro ⟨path, chain⟩
    induction chain with
    | single refers => exact .single ((formed.refers_described_iff member).2 ⟨path, refers⟩)
    | tail before refers ih =>
      exact ih.tail ((formed.refers_described_iff member).2 ⟨path.trans before.to_reflTransGen, refers⟩)

theorem contains_described (formed : family.WellFormed) (member : d ∈ family.declarations) {e : Definition}
    (inside : e ∈ family.definitions d.name) {f : Field} (field : f ∈ e.fields) {target : String}
    (mentions : f.type.Mentions target) : (family.described d).contains target = true := by
  obtain ⟨path, refers⟩ := (formed.refers_described_iff member).1 ⟨e, inside, rfl, f, field, mentions⟩
  obtain ⟨t, there, rfl⟩ := formed.closed e.name target refers
  exact Schema.contains_iff.2 ⟨t, (formed.mem_definitions_iff member).2 ⟨there, path.tail refers⟩, rfl⟩

theorem definitions_ne_nil (formed : family.WellFormed) (member : d ∈ family.declarations) :
    family.definitions d.name ≠ [] :=
  List.ne_nil_of_mem ((formed.mem_definitions_iff member).2 ⟨member, .refl⟩)

theorem validate_described_iff (formed : family.WellFormed) (member : d ∈ family.declarations) :
    (family.described d).validate = .ok () ↔
      (∀ name, family.Reaches d.name name → ¬ Relation.TransGen family.whole.Refers name name) ∧
      ∀ e ∈ family.declarations, family.Reaches d.name e.name → ∀ f ∈ e.fields, f.type.dimensions ≤ 64 := by
  rw [Schema.validate_eq_ok, Schema.checkRings_eq_ok (family.described_built d)]
  constructor
  · rintro ⟨-, pass, acyclic⟩
    constructor
    · intro name path ring
      exact acyclic name ((formed.transGen_described_iff member).2 ⟨path, ring⟩)
    · intro e there path
      exact (pass e ((formed.mem_definitions_iff member).2 ⟨there, path⟩)).dimensions
  · rintro ⟨acyclic, flat⟩
    refine ⟨formed.definitions_ne_nil member, fun e inside => ?_, fun name ring => ?_⟩
    · obtain ⟨there, path⟩ := (formed.mem_definitions_iff member).1 inside
      exact ⟨by simp, formed.fields e there, flat e there path,
        fun f field target mentions => formed.contains_described member inside field mentions⟩
    · obtain ⟨path, ring⟩ := (formed.transGen_described_iff member).1 ring
      exact acyclic name path ring

theorem fault_cases (formed : family.WellFormed) (member : d ∈ family.declarations) {fault : Fault}
    (failed : (family.described d).validate = .error fault) :
    (∃ owner field, fault = .invalidSchema owner (.tooManyDimensions field)) ∨
      ∃ owner names, fault = .invalidSchema owner (.cycle names) := by
  cases Schema.validate_eq_error failed with
  | empty none => exact absurd none (formed.definitions_ne_nil member)
  | @fields e _ inside wrong =>
    cases wrong with
    | duplicate name again =>
      have there := ((formed.mem_definitions_iff member).1 inside).1
      rcases again with repeated | ⟨f, _, old⟩
      · exact absurd (formed.fields e there) repeated
      · cases old
    | dimensions _ _ => exact .inl ⟨e.name, _, rfl⟩
    | unknown field mentions missing =>
      rw [formed.contains_described member inside field mentions] at missing
      cases missing
  | ring _ _ _ => exact .inr ⟨_, _, rfl⟩

end WellFormed

/-- The collection for a type ends, with the type first and then every type that it reaches, each once
and nothing else. Its schema is refused only for its layers or for a ring, and exactly if a type that
it reaches has too many layers or lies on a ring. -/
theorem collection_complete (formed : family.WellFormed) {d : Definition} (member : d ∈ family.declarations) :
    family.Collected [] [d.name] (family.definitions d.name) ∧
    (∃ rest, family.definitions d.name = d :: rest) ∧
    ((family.definitions d.name).map Definition.name).Nodup ∧
    (∀ e, e ∈ family.definitions d.name ↔ e ∈ family.declarations ∧ family.Reaches d.name e.name) ∧
    (∀ fault, family.schema d = .error fault →
      (∃ owner field, fault = .invalidSchema owner (.tooManyDimensions field)) ∨
        ∃ owner names, fault = .invalidSchema owner (.cycle names)) ∧
    ((∃ schema, family.schema d = .ok schema) ↔
      (∀ name, family.Reaches d.name name → ¬ Relation.TransGen family.whole.Refers name name) ∧
      ∀ e ∈ family.declarations, family.Reaches d.name e.name → ∀ f ∈ e.fields, f.type.dimensions ≤ 64) := by
  have collected := family.definitions_collected d.name
  have found : family.get? d.name = some d := formed.get?_eq_some_iff.2 ⟨member, rfl⟩
  refine ⟨collected, collected.first found, family.definitions_names_nodup d.name,
    fun e => formed.mem_definitions_iff member, ?_, ?_⟩
  · intro fault failed
    rw [schema_eq] at failed
    rcases Check.bind_eq_error.1 failed with refused | ⟨⟨⟩, -, stopped⟩
    · exact formed.fault_cases member refused
    · cases stopped
  · rw [← formed.validate_described_iff member, schema_eq]
    constructor
    · rintro ⟨schema, accepted⟩
      obtain ⟨⟨⟩, passed, -⟩ := Check.bind_eq_ok.1 accepted
      exact passed
    · intro passed
      exact ⟨family.described d, Check.bind_eq_ok.2 ⟨(), passed, rfl⟩⟩

def author : Definition :=
  ⟨"Author", "a1", [⟨"name", .string⟩]⟩

def post : Definition :=
  ⟨"Post", "p1", [⟨"author", .message "Author"⟩, ⟨"replies", .repeated (.repeated (.message "Post"))⟩,
    ⟨"moved", .repeated (.message "Thread")⟩]⟩

def thread : Definition :=
  ⟨"Thread", "t1", [⟨"posts", .repeated (.message "Post")⟩, ⟨"opener", .message "Author"⟩]⟩

/-- A thread and a post reach each other, both reach the author, and nobody reaches the ban. -/
def forum : Family :=
  ⟨[author, ⟨"Ban", "b1", [⟨"whom", .message "Author"⟩]⟩, post, thread]⟩

theorem forum_wellFormed : forum.WellFormed where
  distinct := by decide
  fields := by decide
  closed := by
    have all : ∀ d ∈ forum.declarations, ∀ target ∈ d.references, ∃ e ∈ forum.declarations, e.name = target := by
      decide
    rintro source target ⟨d, member, -, f, inside, mentions⟩
    exact all d member target (List.mem_filterMap.2 ⟨f, inside, FieldType.messageName?_eq_some_iff.2 mentions⟩)

theorem forum_collected : forum.WellFormed ∧ forum.definitions "Thread" = [thread, post, author] ∧
    forum.Reaches "Thread" "Author" ∧
    forum.schema thread = .error (.invalidSchema "Post" (.cycle ["Post", "Post"])) ∧
    forum.schema author = .ok ⟨"a1", [author]⟩ ∧ ¬ Relation.TransGen forum.whole.Refers "Author" "Author" := by
  have listed : forum.definitions "Thread" = [thread, post, author] := by decide
  have accepted : forum.schema author = .ok ⟨"a1", [author]⟩ := by cbv
  have inThread : thread ∈ forum.declarations := by decide
  have inAuthor : author ∈ forum.declarations := by decide
  obtain ⟨-, -, -, exactly, -, -⟩ := collection_complete forum_wellFormed inThread
  obtain ⟨-, -, -, -, -, sound⟩ := collection_complete forum_wellFormed inAuthor
  have reaches : forum.Reaches "Thread" "Author" := by
    refine ((exactly author).1 ?_).2
    rw [show thread.name = "Thread" from rfl, listed]
    decide
  exact ⟨forum_wellFormed, listed, reaches, by cbv, accepted, (sound.1 ⟨_, accepted⟩).1 "Author" .refl⟩

end Family
end Wirepack
