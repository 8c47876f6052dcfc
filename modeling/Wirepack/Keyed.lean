/-!
# Values by key

An association list without repeated keys. Inserting under a key that is there replaces the
value and keeps its place; a new key goes to the end.
-/

namespace Wirepack
set_option autoImplicit false

/-- Values by key, in order of first insertion. -/
abbrev Keyed (α : Type) := List (String × α)

namespace Keyed

variable {α : Type}

def get? (entries : Keyed α) (key : String) : Option α := entries.lookup key

def insert (entries : Keyed α) (key : String) (value : α) : Keyed α :=
  match entries with
  | [] => [(key, value)]
  | (k, v) :: rest => if k = key then (key, value) :: rest else (k, v) :: insert rest key value

/-- The entries inserted one after another. -/
def ofList (entries : List (String × α)) : Keyed α :=
  entries.foldl (fun acc (key, value) => acc.insert key value) []

theorem get?_cons (entry : String × α) (rest : Keyed α) (key : String) :
    get? (entry :: rest) key = if key = entry.1 then some entry.2 else rest.get? key := by
  unfold get?
  by_cases same : key = entry.1
  · rw [if_pos same, List.lookup_cons, beq_iff_eq.2 same]
  · rw [if_neg same, List.lookup_cons, beq_eq_false_iff_ne.2 same]

theorem get?_insert (entries : Keyed α) (key other : String) (value : α) :
    (entries.insert key value).get? other = if other = key then some value else entries.get? other := by
  induction entries with
  | nil => exact get?_cons (key, value) [] other
  | cons entry rest ih =>
    unfold insert
    by_cases here : entry.1 = key
    · rw [if_pos here, get?_cons, get?_cons, here]
      split <;> rfl
    · rw [if_neg here, get?_cons, get?_cons, ih]
      by_cases first : other = entry.1
      · have elsewhere : ¬ other = key := fun same => here (first ▸ same)
        rw [if_pos first, if_neg elsewhere, if_pos first]
      · rw [if_neg first, if_neg first]

theorem mem_of_get? {entries : Keyed α} {key : String} {value : α}
    (found : entries.get? key = some value) : (key, value) ∈ entries := by
  induction entries with
  | nil => simp [get?] at found
  | cons entry rest ih =>
    obtain ⟨k, v⟩ := entry
    simp only [get?, List.lookup_cons] at found
    split at found
    · next same => simp_all
    · exact List.mem_cons_of_mem _ (ih found)

end Keyed

end Wirepack
