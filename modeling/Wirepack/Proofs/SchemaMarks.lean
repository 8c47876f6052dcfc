import Wirepack.Proofs.SchemaIndex

/-!
# The search for rings by marks

Rings can be looked for by position: a mark on every message says whether it is unvisited, in progress or
done, and those in progress are on a stack. The marks are shared by all visits and change in place, where
`walk` hands on lists of names. As long as positions are in step with the list, both stop with the same
fault or find no ring, and no position leads out of the list.
-/

namespace Wirepack.Schema.Indexed
set_option autoImplicit false

/-- How far a search has come with a message. -/
inductive Mark where
  | unvisited
  | inProgress
  | done
  deriving DecidableEq, Repr

/-- What stops a search: a fault to report, or a position that leads out of the list. -/
inductive Halt where
  | fault (fault : Fault)
  | outside (position : Nat)
  deriving DecidableEq, Repr

/-- A search for rings: a mark on every message, and the positions of those in progress, the innermost
last. -/
structure Search (s : Indexed) where
  marks : Vector Mark s.messages.length
  stack : List (Fin s.messages.length)

variable {s : Indexed}

/-- The name at a position. -/
def named (s : Indexed) (i : Fin s.messages.length) : String := s.messages[i].name

namespace Search

def start (s : Indexed) : Search s := ⟨Vector.replicate _ .unvisited, []⟩

def unvisited (w : Search s) : Nat := w.marks.count .unvisited

/-- A visit begins: its message goes on the stack. -/
def enter (w : Search s) (here : Fin s.messages.length) : Search s :=
  ⟨w.marks.set here .inProgress, w.stack ++ [here]⟩

/-- A visit ends: what is last on the stack is taken off. -/
def leave (w : Search s) (here : Fin s.messages.length) : Search s :=
  ⟨w.marks.set here .done, w.stack.dropLast⟩

/-- The names on the stack from where the message is first met, and its name once more. -/
def ring (w : Search s) (here : Fin s.messages.length) : List String :=
  (w.stack.drop ((w.stack.idxOf? here).getD 0)).map s.named ++ [s.named here]

theorem unvisited_enter_lt {w : Search s} {here : Fin s.messages.length} (marked : w.marks[here] = .unvisited) :
    (w.enter here).unvisited < w.unvisited := by
  have positive : 0 < w.marks.count .unvisited := Vector.count_pos_iff.2 (marked ▸ Vector.getElem_mem here.2)
  have marked : w.marks[(here : Nat)] = .unvisited := marked
  show (w.marks.set here .inProgress).count .unvisited < w.marks.count .unvisited
  rw [Vector.count_set, marked]
  show w.marks.count .unvisited - 1 + 0 < w.marks.count .unvisited
  omega

theorem unvisited_leave_le (w : Search s) (here : Fin s.messages.length) :
    (w.leave here).unvisited ≤ w.unvisited := by
  show (w.marks.set here .done).count .unvisited ≤ w.marks.count .unvisited
  rw [Vector.count_set]
  exact Nat.sub_le _ _

/-- A search that has come as far as another, or further. -/
abbrev Later (w : Search s) : Type := { after : Search s // after.unvisited ≤ w.unvisited }

/-- A visit has come further when it ends than where it began. -/
theorem unvisited_of_below {w : Search s} {here : Fin s.messages.length} (marked : w.marks[here] = .unvisited)
    (below : (w.enter here).Later) : (below.1.leave here).unvisited ≤ w.unvisited := by
  have later := below.2
  have fewer := unvisited_enter_lt marked
  have left := unvisited_leave_le below.1 here
  omega

mutual

/-- Visits a message and all that it refers to. -/
def visit (here : Fin s.messages.length) (w : Search s) : Except Halt w.Later :=
  match marked : w.marks[here] with
  | .done => .ok ⟨w, Nat.le_refl _⟩
  | .inProgress => .error (.fault (.invalidSchema (s.named here) (.cycle (w.ring here))))
  | .unvisited => do
    have fewer := unvisited_enter_lt marked
    let below ← visitAll s.messages[here].references (w.enter here)
    return ⟨below.1.leave here, unvisited_of_below marked below⟩
termination_by (w.unvisited, 0)

/-- Visits the messages of these names, as far as there is a position under them. -/
def visitAll (targets : List String) (w : Search s) : Except Halt w.Later :=
  match targets with
  | [] => .ok ⟨w, Nat.le_refl _⟩
  | target :: rest =>
    match s.index.get? target with
    | none => visitAll rest w
    | some next =>
      if inside : next < s.messages.length then do
        let first ← visit ⟨next, inside⟩ w
        have kept := first.2
        let others ← visitAll rest first.1
        return ⟨others.1, by
          have later := others.2
          omega⟩
      else .error (.outside next)
termination_by (w.unvisited, targets.length + 1)
decreasing_by
  · exact Prod.Lex.right _ (Nat.succ_lt_succ (Nat.lt_succ_self _))
  · exact Prod.Lex.right _ (Nat.succ_pos _)
  · rcases Nat.lt_or_eq_of_le kept with fewer | same
    · exact Prod.Lex.left _ _ fewer
    · rw [same]
      exact Prod.Lex.right _ (Nat.succ_lt_succ (Nat.lt_succ_self _))

end

end Search

/-- Refuses references that form a ring, by marks. -/
def checkMarks (s : Indexed) : Except Halt Unit := do
  let _ ← (List.finRange s.messages.length).foldlM (fun w here => return (← w.visit here).1) (Search.start s)

section Positions

/-- A position under a name is that of the message of this name. -/
theorem InStep.named_eq (inStep : s.InStep) {target : String} {next : Nat} (found : s.index.get? target = some next) :
    ∃ inside : next < s.messages.length, s.named ⟨next, inside⟩ = target := by
  rw [inStep] at found
  obtain ⟨inside, same, -⟩ := List.findIdx?_eq_some_iff_getElem.1 found
  exact ⟨inside, beq_iff_eq.1 same⟩

theorem InStep.get?_eq_none (inStep : s.InStep) {target : String} (missing : s.index.get? target = none) :
    s.toSchema.get? target = none := by
  rw [inStep, List.findIdx?_eq_none_iff] at missing
  simpa [get?] using missing

theorem named_inj (distinct : (s.messages.map Definition.name).Nodup) {i j : Fin s.messages.length} :
    s.named i = s.named j ↔ i = j := by
  have inside : ∀ k : Fin s.messages.length, (k : Nat) < (s.messages.map Definition.name).length := by
    intro k
    rw [List.length_map]
    exact k.2
  constructor
  · intro same
    have names : (s.messages.map Definition.name).get ⟨i, inside i⟩ =
        (s.messages.map Definition.name).get ⟨j, inside j⟩ := by
      simpa [named] using same
    exact Fin.ext (Fin.mk.inj (List.nodup_iff_injective_get.1 distinct names))
  · rintro rfl
    rfl

theorem get?_named (distinct : (s.messages.map Definition.name).Nodup) (i : Fin s.messages.length) :
    s.toSchema.get? (s.named i) = some s.messages[i] :=
  (Schema.get?_eq_some_iff distinct).2 ⟨List.getElem_mem i.2, rfl⟩

end Positions

namespace Search

/-- What a search has marked, by name: `path` leads from the innermost message in progress outwards. -/
structure Tracks (path done : List String) (w : Search s) : Prop where
  stack : (w.stack.map s.named).reverse = path
  once : path.Nodup
  finished : ∀ i : Fin s.messages.length, w.marks[i] = .done ↔ s.named i ∈ done
  started : ∀ i : Fin s.messages.length, w.marks[i] = .inProgress ↔ s.named i ∈ path

/-- Both have stopped with the same fault, or both have a result and the two are related. -/
inductive Agrees {α β : Type} (R : α → β → Prop) : Except Fault α → Except Halt β → Prop where
  | error (fault : Fault) : Agrees R (.error fault) (.error (.fault fault))
  | ok {a : α} {b : β} (related : R a b) : Agrees R (.ok a) (.ok b)

theorem Agrees.bind {α β α' β' : Type} {R : α → β → Prop} {S : α' → β' → Prop} {x : Except Fault α} {y : Except Halt β}
    {f : α → Except Fault α'} {g : β → Except Halt β'} (agrees : Agrees R x y)
    (next : ∀ a b, R a b → Agrees S (f a) (g b)) : Agrees S (x >>= f) (y >>= g) := by
  cases agrees with
  | error fault => exact .error fault
  | ok related => exact next _ _ related

theorem Agrees.foldlM {α β γ : Type} {R : α → β → Prop} {f : α → γ → Except Fault α} {g : β → γ → Except Halt β}
    (step : ∀ c a b, R a b → Agrees R (f a c) (g b c)) (xs : List γ) {a : α} {b : β} (related : R a b) :
    Agrees R (xs.foldlM f a) (xs.foldlM g b) := by
  induction xs generalizing a b with
  | nil => exact .ok related
  | cons c xs ih =>
    rw [List.foldlM_cons, List.foldlM_cons]
    exact (step c a b related).bind fun _ _ => ih

theorem Agrees.eq_mapError {α : Type} {x : Except Fault α} {y : Except Halt α} (agrees : Agrees Eq x y) :
    y = x.mapError .fault := by
  cases agrees with
  | error fault => rfl
  | ok related => exact congrArg Except.ok related.symm

section Steps

variable {w : Search s} {path done : List String} {here : Fin s.messages.length}

theorem getElem_set_mark {n : Nat} (marks : Vector Mark n) (mark : Mark) (here i : Fin n) :
    (marks.set here mark)[i] = if i = here then mark else marks[i] := by
  refine (Vector.getElem_set here.2 i.2).trans ?_
  simp only [eq_comm, Fin.ext_iff]
  rfl

theorem marks_enter (w : Search s) (here i : Fin s.messages.length) :
    (w.enter here).marks[i] = if i = here then .inProgress else w.marks[i] :=
  getElem_set_mark w.marks .inProgress here i

theorem marks_leave (w : Search s) (here i : Fin s.messages.length) :
    (w.leave here).marks[i] = if i = here then .done else w.marks[i] :=
  getElem_set_mark w.marks .done here i

theorem tracks_start (s : Indexed) : Tracks [] [] (start s) := by
  have unvisited : ∀ i : Fin s.messages.length, (start s).marks[i] = .unvisited :=
    fun i => Vector.getElem_replicate i.2
  refine ⟨rfl, List.nodup_nil, fun i => ?_, fun i => ?_⟩
  · simp [unvisited i]
  · simp [unvisited i]

theorem Tracks.enter (distinct : (s.messages.map Definition.name).Nodup) (tracks : Tracks path done w)
    (marked : w.marks[here] = .unvisited) : Tracks (s.named here :: path) done (w.enter here) := by
  have unfinished : s.named here ∉ done := by
    rw [← tracks.finished, marked]
    simp
  have fresh : s.named here ∉ path := by
    rw [← tracks.started, marked]
    simp
  refine ⟨?_, List.nodup_cons.2 ⟨fresh, tracks.once⟩, fun i => ?_, fun i => ?_⟩
  · rw [← tracks.stack, Search.enter, List.map_append, List.reverse_append]
    rfl
  · rw [marks_enter]
    by_cases same : i = here
    · simp [same, unfinished]
    · rw [if_neg same, tracks.finished]
  · rw [marks_enter, List.mem_cons, named_inj distinct]
    by_cases same : i = here
    · simp [same]
    · rw [if_neg same, tracks.started]
      simp [same]

theorem Tracks.leave (distinct : (s.messages.map Definition.name).Nodup)
    (tracks : Tracks (s.named here :: path) done w) : Tracks path (s.named here :: done) (w.leave here) := by
  obtain ⟨fresh, once⟩ := List.nodup_cons.1 tracks.once
  refine ⟨?_, once, fun i => ?_, fun i => ?_⟩
  · rw [Search.leave, List.map_dropLast, ← List.tail_reverse, tracks.stack]
    rfl
  · rw [marks_leave, List.mem_cons, named_inj distinct]
    by_cases same : i = here
    · simp [same]
    · rw [if_neg same, tracks.finished]
      simp [same]
  · rw [marks_leave]
    by_cases same : i = here
    · simp [same, fresh]
    · rw [if_neg same, tracks.started, List.mem_cons, named_inj distinct]
      simp [same]

/-- The stack is cut where the message is first met on it. -/
theorem drop_idxOf? {stack : List (Fin s.messages.length)} (member : here ∈ stack) : ∃ outer inner,
    stack = outer ++ here :: inner ∧ stack.drop ((stack.idxOf? here).getD 0) = here :: inner := by
  cases found : stack.idxOf? here with
  | none => exact absurd member (List.idxOf?_eq_none_iff.1 found)
  | some first =>
    obtain ⟨inside, met, -⟩ := List.idxOf?_eq_some_iff.1 found
    have cut : stack.drop first = here :: stack.drop (first + 1) := by rw [List.drop_eq_getElem_cons inside, met]
    exact ⟨stack.take first, _, by rw [← cut, List.take_append_drop], cut⟩

/-- No message is on the stack twice, so the ring is the same from whichever end the stack is searched. -/
theorem Tracks.ring_eq (distinct : (s.messages.map Definition.name).Nodup) (tracks : Tracks path done w)
    (onPath : s.named here ∈ path) : w.ring here = Schema.ring path (s.named here) := by
  have member : here ∈ w.stack := by
    rw [← tracks.stack, List.mem_reverse] at onPath
    obtain ⟨i, inside, same⟩ := List.mem_map.1 onPath
    rwa [← (named_inj distinct).1 same]
  obtain ⟨outer, inner, whole, cut⟩ := drop_idxOf? member
  have split : path = (inner.map s.named).reverse ++ s.named here :: (outer.map s.named).reverse := by
    rw [← tracks.stack, whole]
    simp
  have fresh : s.named here ∉ (inner.map s.named).reverse := by
    have once := tracks.once
    rw [split, List.nodup_append] at once
    intro again
    exact once.2.2 _ again _ List.mem_cons_self rfl
  rw [split, ring_append fresh, List.reverse_reverse, Search.ring, cut]
  rfl

end Steps

section Visits

variable {w : Search s} {path done : List String} {here : Fin s.messages.length}

theorem visit_of_done (marked : w.marks[here] = .done) : w.visit here = .ok ⟨w, Nat.le_refl _⟩ := by
  rw [visit]
  split <;> simp_all

theorem visit_of_inProgress (marked : w.marks[here] = .inProgress) :
    w.visit here = .error (.fault (.invalidSchema (s.named here) (.cycle (w.ring here)))) := by
  rw [visit]
  split <;> simp_all

theorem visit_of_unvisited (marked : w.marks[here] = .unvisited) :
    w.visit here = (do
      let below ← visitAll s.messages[here].references (w.enter here)
      return ⟨below.1.leave here, unvisited_of_below marked below⟩) := by
  rw [visit]
  split <;> simp_all

/-- A name without a position is not on the path, whose messages all have one, so a walk passes it over. -/
theorem Tracks.walk_of_missing (distinct : (s.messages.map Definition.name).Nodup) (tracks : Tracks path done w)
    {target : String} (missing : s.toSchema.get? target = none) : s.toSchema.walk path done target = .ok done := by
  have offPath : target ∉ path := by
    rw [← tracks.stack, List.mem_reverse]
    intro onPath
    obtain ⟨i, -, rfl⟩ := List.mem_map.1 onPath
    rw [get?_named distinct] at missing
    cases missing
  by_cases finished : target ∈ done
  · rw [walk, if_pos finished]
  · exact walk_of_undefined finished offPath missing

/-- Along the references of one message: the first is visited, then the others from where that leaves off. -/
theorem visitAll_agrees (inStep : s.InStep) (distinct : (s.messages.map Definition.name).Nodup)
    (visits : ∀ done (w : Search s) here, Tracks path done w →
      Agrees (fun done after => Tracks path done after.1) (s.toSchema.walk path done (s.named here)) (w.visit here))
    (targets : List String) (tracks : Tracks path done w) :
    Agrees (fun done after => Tracks path done after.1)
      (targets.foldlM (fun done target => s.toSchema.walk path done target) done) (visitAll targets w) := by
  induction targets generalizing done w with
  | nil =>
    rw [visitAll]
    exact .ok tracks
  | cons target rest ih =>
    rw [List.foldlM_cons, visitAll]
    cases found : s.index.get? target with
    | none =>
      rw [tracks.walk_of_missing distinct (inStep.get?_eq_none found)]
      exact ih tracks
    | some next =>
      obtain ⟨inside, rfl⟩ := inStep.named_eq found
      simp only [dif_pos inside]
      refine (visits done w ⟨next, inside⟩ tracks).bind fun done first tracks => ?_
      rw [← bind_pure (List.foldlM _ _ _)]
      exact (ih tracks).bind fun done others tracks => .ok tracks

/-- A visit does what a walk does. Induction along the walk, whose path grows as the stack does. -/
theorem visit_agrees (inStep : s.InStep) (distinct : (s.messages.map Definition.name).Nodup)
    (path done : List String) (name : String) (w : Search s) (here : Fin s.messages.length)
    (met : s.named here = name) (tracks : Tracks path done w) :
    Agrees (fun done after => Tracks path done after.1) (s.toSchema.walk path done name) (w.visit here) := by
  induction path, done, name using walk.induct s.toSchema generalizing w here with
  | case1 path done name finished =>
    subst met
    rw [walk, if_pos finished, visit_of_done ((tracks.finished here).2 finished)]
    exact .ok tracks
  | case2 path done name unfinished onPath =>
    subst met
    rw [walk, if_neg unfinished, dif_pos onPath, visit_of_inProgress ((tracks.started here).2 onPath),
      tracks.ring_eq distinct onPath]
    exact .error _
  | case3 path done name unfinished offPath missing =>
    subst met
    rw [get?_named distinct] at missing
    cases missing
  | case4 path done name unfinished offPath d found shorter ih =>
    subst met
    have marked : w.marks[here] = .unvisited := by
      cases mark : w.marks[here] with
      | unvisited => rfl
      | inProgress => exact absurd ((tracks.started here).1 mark) offPath
      | done => exact absurd ((tracks.finished here).1 mark) unfinished
    rw [get?_named distinct] at found
    cases found
    rw [walk_eq unfinished offPath (get?_named distinct here), visit_of_unvisited marked]
    refine (visitAll_agrees inStep distinct ?_ _ (tracks.enter distinct marked)).bind fun done below tracks => ?_
    · intro done w here tracks
      exact ih done (s.named here) w here rfl tracks
    · exact .ok (tracks.leave distinct)

end Visits

end Search

/-- Where positions are in step with the list, the search by marks answers as the walk by names does. In
particular no position leads out of the list. -/
theorem InStep.checkMarks_eq (inStep : s.InStep) (built : s.toSchema.Built) :
    s.checkMarks = s.toSchema.checkRings.mapError .fault := by
  have distinct := built.names_nodup
  have walked : s.messages.foldlM (fun done d => s.toSchema.walk [] done d.name) [] =
      (List.finRange s.messages.length).foldlM (fun done i => s.toSchema.walk [] done (s.named i)) [] := by
    calc s.messages.foldlM (fun done d => s.toSchema.walk [] done d.name) []
      _ = ((List.finRange s.messages.length).map fun i : Fin _ => s.messages[(i : Nat)]).foldlM
          (fun done d => s.toSchema.walk [] done d.name) [] := by rw [List.map_getElem_finRange]
      _ = _ := List.foldlM_map
  apply Search.Agrees.eq_mapError
  rw [checkRings, walked, checkMarks]
  refine (Search.Agrees.foldlM ?_ _ (Search.tracks_start s)).bind fun _ _ _ => .ok rfl
  intro here done w tracks
  rw [← bind_pure (walk _ _ _ _)]
  exact (Search.visit_agrees inStep distinct [] done _ w here rfl tracks).bind fun _ _ tracks => .ok tracks

/-- So it does for every schema that messages are added to, whichever of them are refused. -/
theorem checkMarks_of_addEach {version : String} {calls added : List Definition} {final : Indexed}
    (run : addEach calls (empty version) = (added, final)) :
    final.checkMarks = final.toSchema.checkRings.mapError .fault := by
  obtain ⟨inStep, built, -, -⟩ := (inStep_empty version).addEach (.empty version) run
  exact inStep.checkMarks_eq built

end Wirepack.Schema.Indexed
