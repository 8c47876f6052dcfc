import Wirepack.Command.Files
import Wirepack.Proofs.Runs

/-!
# Writing one file

Several paths can lead to one place, and a place is known by the text of its key. A path never leads
through a file, so what a write does to one place is seen by the paths that lead there and by no other:
all of them read the new content, and every other path reads what it read before.
-/

namespace Wirepack
set_option autoImplicit false

namespace Location

/-- A place that a path can lead to: each name is one part of a path, and none is the way up. Nothing is
above the root. -/
structure Proper (l : Location) : Prop where
  names : ∀ name ∈ l.names, name ≠ "" ∧ name ≠ ".." ∧ '/' ∉ name.toList
  rooted : l.absolute = true → l.climb = 0

theorem proper_follow {l : Location} {part : String} (proper : l.Proper) (some : part ≠ "")
    (whole : '/' ∉ part.toList) : (l.follow part).Proper := by
  unfold follow parent
  split
  · exact proper
  · split
    · split
      · exact ⟨fun name member => proper.names name (List.dropLast_subset _ member), proper.rooted⟩
      · split
        · exact proper
        · next relative => exact ⟨proper.names, fun absolute => absurd absolute relative⟩
    · next up =>
      refine ⟨?_, proper.rooted⟩
      intro name member
      rcases List.mem_append.1 member with before | last
      · exact proper.names name before
      · obtain rfl := List.mem_singleton.1 last
        exact ⟨some, up, whole⟩

section Keys

/-- What stands between the slashes of a key. -/
def pieces (l : Location) : List String :=
  (if l.absolute then [""] else List.replicate l.climb "..") ++ if l.names.isEmpty then [""] else l.names

theorem intercalate_climb (count : Nat) {rest : List String} (some : rest ≠ []) :
    "/".intercalate (List.replicate count ".." ++ rest) =
      String.join (List.replicate count "../") ++ "/".intercalate rest := by
  induction count with
  | zero => simp
  | succ count ih =>
    have others : List.replicate count ".." ++ rest ≠ [] := by simp [some]
    rw [List.replicate_succ, List.cons_append, String.intercalate_cons_of_ne_nil others, ih, List.replicate_succ,
      String.join_cons, String.append_assoc]
    rfl

theorem key_eq_intercalate (l : Location) : l.key = "/".intercalate l.pieces := by
  have down : "/".intercalate (if l.names.isEmpty then [""] else l.names) = "/".intercalate l.names := by
    cases l.names <;> rfl
  have some : (if l.names.isEmpty then [""] else l.names) ≠ [] := by
    cases l.names <;> simp
  unfold key pieces
  split
  · rw [List.singleton_append, String.intercalate_cons_of_ne_nil some, down, String.empty_append]
  · rw [intercalate_climb _ some, down]

theorem Proper.slashless {l : Location} (proper : l.Proper) : ∀ piece ∈ l.pieces, '/' ∉ piece.toList := by
  intro piece member
  unfold pieces at member
  rcases List.mem_append.1 member with above | below
  · split at above
    · obtain rfl := List.mem_singleton.1 above
      simp
    · obtain rfl := List.eq_of_mem_replicate above
      decide
  · split at below
    · obtain rfl := List.mem_singleton.1 below
      simp
    · exact (proper.names piece below).2.2

theorem pieces_ne_nil (l : Location) : l.pieces ≠ [] := by
  unfold pieces
  cases l.names <;> simp

/-- No piece holds a slash, so the key falls apart into its pieces again. -/
theorem Proper.pieces_eq {l l' : Location} (proper : l.Proper) (proper' : l'.Proper) (same : l.key = l'.key) :
    l.pieces = l'.pieces := by
  have apart : ∀ {l : Location}, l.Proper → l.key.toList.splitOn '/' = l.pieces.map String.toList := by
    intro l proper
    rw [key_eq_intercalate, String.toList_intercalate]
    apply List.splitOn_intercalate
    · intro text member
      obtain ⟨piece, inside, rfl⟩ := List.mem_map.1 member
      exact proper.slashless piece inside
    · simp [pieces_ne_nil]
  have texts : l.pieces.map String.toList = l'.pieces.map String.toList := by
    rw [← apart proper, ← apart proper', same]
  exact (List.map_inj_right fun _ _ => String.toList_inj.1).1 texts

theorem Proper.names_eq {l : Location} (proper : l.Proper) :
    l.pieces.filter (fun piece => piece ≠ "" ∧ piece ≠ "..") = l.names := by
  have kept : l.names.filter (fun piece => piece ≠ "" ∧ piece ≠ "..") = l.names := by
    apply List.filter_eq_self.2
    intro name member
    have fit := proper.names name member
    simp [fit.1, fit.2.1]
  unfold pieces
  rw [List.filter_append]
  by_cases none : l.names.isEmpty
  · have nil := List.isEmpty_iff.1 none
    split <;> simp [nil]
  · rw [if_neg none, kept]
    split <;> simp

theorem Proper.climb_eq {l : Location} (proper : l.Proper) : l.pieces.count ".." = l.climb := by
  have below : (if l.names.isEmpty then [""] else l.names).count ".." = 0 := by
    apply List.count_eq_zero.2
    intro member
    split at member
    · simp at member
    · exact (proper.names ".." member).2.1 rfl
  unfold pieces
  rw [List.count_append, below]
  split
  · next absolute =>
    rw [proper.rooted absolute]
    rfl
  · rw [List.count_replicate_self, Nat.add_zero]

/-- The root has a slash in front of it and nothing before that. -/
theorem Proper.absolute_iff {l : Location} (proper : l.Proper) :
    l.absolute = true ↔ l.pieces.head? = some "" ∧ l.pieces ≠ [""] := by
  unfold pieces
  constructor
  · intro absolute
    rw [if_pos absolute]
    cases l.names <;> simp
  · intro ⟨first, more⟩
    by_cases absolute : l.absolute = true
    · exact absolute
    · rw [if_neg absolute] at first more
      cases count : l.climb with
      | succ above => simp [count, List.replicate_succ] at first
      | zero =>
        cases names : l.names with
        | nil => simp [count, names] at more
        | cons name rest =>
          have fit := proper.names name (by simp [names])
          simp [count, names, fit.1] at first

/-- Places are told apart by their keys. -/
theorem Proper.eq_of_key {l l' : Location} (proper : l.Proper) (proper' : l'.Proper) (same : l.key = l'.key) :
    l = l' := by
  have pieces := proper.pieces_eq proper' same
  have names : l.names = l'.names := by rw [← proper.names_eq, ← proper'.names_eq, pieces]
  have climb : l.climb = l'.climb := by rw [← proper.climb_eq, ← proper'.climb_eq, pieces]
  have absolute : l.absolute = l'.absolute := by
    rw [Bool.eq_iff_iff, proper.absolute_iff, proper'.absolute_iff, pieces]
  obtain ⟨_, _, _⟩ := l
  obtain ⟨_, _, _⟩ := l'
  simp only at names climb absolute
  rw [names, climb, absolute]

end Keys

end Location

theorem Route.not_mem_of_mem_splitOn {mark : Char} {text piece : List Char} (member : piece ∈ text.splitOn mark) :
    mark ∉ piece := by
  induction text generalizing piece with
  | nil =>
    obtain rfl : piece = [] := by simpa using member
    exact List.not_mem_nil
  | cons first text ih =>
    rw [List.splitOn_cons_eq_if_modifyHead] at member
    split at member
    · rcases List.mem_cons.1 member with rfl | later
      · exact List.not_mem_nil
      · exact ih later
    · next other =>
      obtain ⟨head, tail, pieces⟩ := List.exists_cons_of_ne_nil (List.splitOn_ne_nil mark text)
      rw [pieces] at ih member
      rcases List.mem_cons.1 member with rfl | later
      · rw [List.mem_cons, not_or]
        exact ⟨fun same => other (beq_iff_eq.2 same.symm), ih List.mem_cons_self⟩
      · exact ih (List.mem_cons_of_mem _ later)

theorem Route.mem_split {path part : String} (member : part ∈ Route.split path) : part ≠ "" ∧ '/' ∉ part.toList := by
  obtain ⟨inside, some⟩ := List.mem_filter.1 member
  obtain ⟨piece, cut, rfl⟩ := List.mem_map.1 inside
  rw [String.toList_ofList]
  exact ⟨by simpa using some, not_mem_of_mem_splitOn cut⟩

namespace Files

section Walks

theorem enter_eq_ok {files : Files} {l : Location} : files.enter l = .ok () ↔ files.entry? l = some .directory := by
  unfold enter
  split <;> simp_all

theorem step_eq_ok {files : Files} {l next : Location} {part : String} :
    files.step l part = .ok next ↔
      files.entry? l = some .directory ∧ part.utf8ByteSize ≤ maxName ∧ l.follow part = next := by
  unfold step
  constructor
  · intro run
    obtain ⟨⟨⟩, entered, checked⟩ := Check.bind_eq_ok.1 run
    refine ⟨enter_eq_ok.1 entered, ?_⟩
    split at checked
    · cases checked
    · next short => exact ⟨Nat.not_lt.1 short, Except.ok.inj checked⟩
  · intro ⟨directory, short, followed⟩
    refine Check.bind_eq_ok.2 ⟨(), enter_eq_ok.2 directory, ?_⟩
    rw [if_neg (Nat.not_lt.2 short), followed]
    rfl

/-- Parts as paths have them. -/
def Parted (parts : List String) : Prop := ∀ part ∈ parts, part ≠ "" ∧ '/' ∉ part.toList

theorem proper_of_walk {files : Files} {start l : Location} {parts : List String} (proper : start.Proper)
    (parted : Parted parts) (run : files.walk start parts = .ok l) : l.Proper := by
  refine (Check.foldlM_eq_ok run proper ?_).1
  intro part member here next fit stepped
  obtain ⟨-, -, rfl⟩ := step_eq_ok.1 stepped
  exact Location.proper_follow fit (parted part member).1 (parted part member).2

/-- Only directories decide where a path leads. Induction on its parts. -/
theorem walk_of_same {files after : Files} {start l : Location} {parts : List String}
    (same : ∀ l : Location, l.Proper → files.entry? l = some .directory → after.entry? l = some .directory)
    (proper : start.Proper) (parted : Parted parts) (run : files.walk start parts = .ok l) :
    after.walk start parts = .ok l := by
  induction parts generalizing start with
  | nil => exact run
  | cons part parts ih =>
    unfold walk at run
    rw [List.foldlM_cons] at run
    obtain ⟨next, first, others⟩ := Check.bind_eq_ok.1 run
    obtain ⟨directory, short, rfl⟩ := step_eq_ok.1 first
    have fit := parted part List.mem_cons_self
    have further := ih (Location.proper_follow proper fit.1 fit.2)
      (fun other member => parted other (List.mem_cons_of_mem part member)) others
    unfold walk
    rw [List.foldlM_cons]
    exact Check.bind_eq_ok.2 ⟨_, step_eq_ok.2 ⟨same start proper directory, short, rfl⟩, further⟩

end Walks

section Paths

/-- The path leads to a place at which a file can stand. -/
structure Leads (files : Files) (path : String) (l : Location) : Prop where
  short : path.utf8ByteSize ≤ maxPath
  unslashed : (Route.ofPath path).slashed = false
  reached : files.walk (Route.ofPath path).start (Route.ofPath path).parts = .ok l

/-- Both paths lead to one place. -/
def SamePlace (files : Files) (path other : String) : Prop := ∃ l, files.Leads path l ∧ files.Leads other l

theorem proper_start (path : String) : (Route.ofPath path).start.Proper :=
  ⟨fun _ member => absurd member List.not_mem_nil, fun _ => rfl⟩

theorem parted_parts (path : String) : Parted (Route.ofPath path).parts := fun _ member => Route.mem_split member

theorem Leads.proper {files : Files} {path : String} {l : Location} (leads : files.Leads path l) : l.Proper :=
  proper_of_walk (proper_start path) (parted_parts path) leads.reached

theorem Leads.unique {files : Files} {path : String} {l l' : Location} (leads : files.Leads path l)
    (leads' : files.Leads path l') : l = l' :=
  Except.ok.inj (leads.reached.symm.trans leads'.reached)

theorem Leads.of_same {files after : Files} {path : String} {l : Location}
    (same : ∀ l : Location, l.Proper → files.entry? l = some .directory → after.entry? l = some .directory)
    (leads : files.Leads path l) : after.Leads path l :=
  ⟨leads.short, leads.unslashed, walk_of_same same (proper_start path) (parted_parts path) leads.reached⟩

theorem route_eq_ok {path : String} {r : Route} :
    route path = .ok r ↔ path.utf8ByteSize ≤ maxPath ∧ Route.ofPath path = r := by
  unfold route
  by_cases long : maxPath < path.utf8ByteSize
  · simp [long, Nat.not_le.2 long]
  · simp [long, Nat.not_lt.1 long]

theorem read_eq_ok {files : Files} {path : String} {data : Bytes} :
    files.read path = .ok data ↔ ∃ l, files.Leads path l ∧ files.entry? l = some (.file data) := by
  unfold read
  constructor
  · intro run
    obtain ⟨r, routed, rest⟩ := Check.bind_eq_ok.1 run
    obtain ⟨short, rfl⟩ := route_eq_ok.1 routed
    obtain ⟨l, reached, found⟩ := Check.bind_eq_ok.1 rest
    split at found
    · next entry =>
      split at found
      · cases found
      · next unslashed =>
        cases found
        exact ⟨l, ⟨short, Bool.eq_false_iff.2 unslashed, reached⟩, entry⟩
    · cases found
    · cases found
  · intro ⟨l, leads, entry⟩
    refine Check.bind_eq_ok.2 ⟨_, route_eq_ok.2 ⟨leads.short, rfl⟩, Check.bind_eq_ok.2 ⟨l, leads.reached, ?_⟩⟩
    rw [entry, leads.unslashed]
    rfl

theorem leads_of_target {files : Files} {path : String} {l : Location} (found : files.target path = .ok l) :
    files.Leads path l := by
  unfold target at found
  obtain ⟨r, routed, rest⟩ := Check.bind_eq_ok.1 found
  obtain ⟨short, rfl⟩ := route_eq_ok.1 routed
  obtain ⟨directory, walked, rest⟩ := Check.bind_eq_ok.1 rest
  obtain ⟨⟨⟩, entered, rest⟩ := Check.bind_eq_ok.1 rest
  split at rest
  · cases rest
  · cases rest
  · cases rest
  · next name _ _ last =>
    split at rest
    · cases rest
    · next unslashed =>
      obtain ⟨front, parts⟩ := List.getLast?_eq_some_iff.1 last
      rw [parts, List.dropLast_concat] at walked
      refine ⟨short, Bool.eq_false_iff.2 unslashed, ?_⟩
      rw [parts]
      unfold walk
      rw [List.foldlM_append]
      refine Check.bind_eq_ok.2 ⟨directory, walked, ?_⟩
      rw [List.foldlM_cons]
      exact Check.bind_eq_ok.2 ⟨l, rest, rfl⟩

end Paths

section Writes

/-- A file can be written at the path: it leads to a new name, or to a file, in a directory. -/
def Writable (files : Files) (path : String) : Prop :=
  ∃ place, files.target path = .ok place ∧ files.entry? place ≠ some .directory

theorem write_eq_ok {files after : Files} {path : String} {data : Bytes} :
    files.write path data = .ok after ↔
      ∃ place, files.target path = .ok place ∧ files.entry? place ≠ some .directory ∧
        after = files.insert place.key (.file data) := by
  unfold write
  constructor
  · intro run
    obtain ⟨place, found, rest⟩ := Check.bind_eq_ok.1 run
    split at rest
    · cases rest
    · next free =>
      cases rest
      exact ⟨place, found, free, rfl⟩
  · intro ⟨place, found, free, inserted⟩
    refine Check.bind_eq_ok.2 ⟨place, found, ?_⟩
    split
    · next directory => exact absurd directory free
    · rw [inserted]
      rfl

/-- What stands at each place once a file was put in one of them. -/
theorem entry?_insert {files : Files} {place l : Location} (data : Bytes) (named : place.names ≠ [])
    (fit : place.Proper) (proper : l.Proper) :
    Files.entry? (files.insert place.key (.file data)) l =
      if l = place then some (.file data) else files.entry? l := by
  unfold entry?
  by_cases none : l.names.isEmpty
  · have elsewhere : l ≠ place := fun same => named (same ▸ List.isEmpty_iff.1 none)
    rw [if_pos none, if_neg elsewhere, if_pos none]
  · rw [if_neg none, if_neg none, Keyed.get?_insert]
    by_cases same : l = place
    · rw [if_pos same, same, if_pos rfl]
    · rw [if_neg same, if_neg fun key => same (proper.eq_of_key fit key)]

/-- Afterwards the file at the path holds the data, whichever path it is read by, and nothing else has
changed: neither what another path reads nor what is kept under another key. -/
structure Replaced (files : Files) (path : String) (data : Bytes) (after : Files) : Prop where
  place : ∃ l, files.Leads path l ∧
    ∀ key, after.get? key = if key = l.key then some (.file data) else files.get? key
  content : ∀ other, files.SamePlace other path → after.read other = .ok data
  others : ∀ other, ¬ files.SamePlace other path →
    ∀ content, after.read other = .ok content ↔ files.read other = .ok content

theorem replaced_of_write {files after : Files} {path : String} {data : Bytes}
    (wrote : files.write path data = .ok after) : Replaced files path data after := by
  obtain ⟨place, found, free, rfl⟩ := write_eq_ok.1 wrote
  have leads := leads_of_target found
  have named : place.names ≠ [] := by
    intro none
    apply free
    unfold entry?
    rw [none]
    rfl
  have entries : ∀ l : Location, l.Proper → Files.entry? (files.insert place.key (.file data)) l =
      if l = place then some (.file data) else files.entry? l :=
    fun l => entry?_insert data named leads.proper
  -- A file took the place of a file or of nothing, so paths lead where they led before.
  have kept : ∀ l : Location, l.Proper →
      (files.entry? l = some .directory ↔
        Files.entry? (files.insert place.key (.file data)) l = some .directory) := by
    intro l proper
    rw [entries l proper]
    by_cases same : l = place
    · rw [if_pos same, same]
      simp [free]
    · rw [if_neg same]
  have onward : ∀ {other l}, files.Leads other l → Files.Leads (files.insert place.key (.file data)) other l :=
    fun leads => leads.of_same fun l proper => (kept l proper).1
  have back : ∀ {other l}, Files.Leads (files.insert place.key (.file data)) other l → files.Leads other l :=
    fun leads => leads.of_same fun l proper => (kept l proper).2
  refine ⟨⟨place, leads, fun key => Keyed.get?_insert ..⟩, ?_, ?_⟩
  · intro other ⟨l, there, here⟩
    obtain rfl := here.unique leads
    exact read_eq_ok.2 ⟨l, onward there, by rw [entries l there.proper, if_pos rfl]⟩
  · intro other apart content
    have elsewhere : ∀ {l}, files.Leads other l → ¬ l = place := by
      intro l there same
      exact apart ⟨place, same ▸ there, leads⟩
    rw [read_eq_ok, read_eq_ok]
    constructor
    · intro ⟨l, there, entry⟩
      rw [entries l there.proper, if_neg (elsewhere (back there))] at entry
      exact ⟨l, back there, entry⟩
    · intro ⟨l, there, entry⟩
      refine ⟨l, onward there, ?_⟩
      rw [entries l there.proper, if_neg (elsewhere there)]
      exact entry

end Writes

end Files

end Wirepack
