import Wirepack.Proofs.CursorRuns

/-!
# What each read of several takes

Reads that follow one another take the bytes one after another, so whatever a sequence of reads takes falls
into what each of them takes, and any of the pieces may be put in the place of another that gives something else.
-/

namespace Wirepack
set_option autoImplicit false

theorem Local.mapM {α β : Type} {read : α → Read β} (each : ∀ x, Local (read x)) (xs : List α) :
    Local (xs.mapM read) := by
  induction xs with
  | nil => exact .pure []
  | cons x xs ih =>
    rw [List.mapM_cons]
    exact (each x).bind fun y => ih.bind fun ys => .pure (y :: ys)

theorem Cursor.times_eq_mapM {α : Type} (read : Read α) (count : Nat) :
    Cursor.times read count = (List.replicate count ()).mapM fun _ => read := by
  induction count with
  | zero => rfl
  | succ count ih => rw [Cursor.times, List.replicate_succ, List.mapM_cons, ih]

namespace Reads

variable {α β : Type} {data : Bytes}

/-- What a read in two steps takes falls into what each of them takes. -/
theorem of_bind {first : Read α} {next : α → Read β} (start : Local first) (goesOn : ∀ a, Local (next a)) {b : β}
    (reads : Reads (first >>= next) data b) :
    ∃ front back a, data = front ++ back ∧ Reads first front a ∧ Reads (next a) back b := by
  obtain ⟨a, middle, begun, rest⟩ := Run.bind_eq_ok.1 (reads 0 [])
  obtain ⟨front, starts, -, readsFirst⟩ := start _ _ _ begun
  obtain ⟨back, ends, -, readsNext⟩ := goesOn a _ _ _ rest
  refine ⟨front, back, a, ?_, readsFirst, readsNext⟩
  simpa [ends] using starts

theorem of_pure {a b : α} (reads : Reads (Pure.pure a) data b) : data = [] ∧ a = b := by
  obtain ⟨same, stays⟩ := Run.pure_eq_ok.1 (reads 0 [])
  exact ⟨by simpa using congrArg Cursor.rest stays, same⟩

theorem of_map {read : Read α} {f : α → β} (start : Local read) {b : β}
    (reads : Reads (do return f (← read)) data b) : ∃ a, Reads read data a ∧ f a = b := by
  obtain ⟨front, back, a, rfl, readsFirst, rest⟩ := of_bind start (fun a => .pure (f a)) reads
  obtain ⟨rfl, same⟩ := of_pure rest
  exact ⟨a, by simpa using readsFirst, same⟩

section Sequences

variable {read : α → Read β}

theorem of_mapM_cons (each : ∀ x, Local (read x)) {x : α} {xs : List α} {ys : List β}
    (reads : Reads ((x :: xs).mapM read) data ys) :
    ∃ front back y rest, data = front ++ back ∧ ys = y :: rest ∧ Reads (read x) front y ∧
      Reads (xs.mapM read) back rest := by
  rw [List.mapM_cons] at reads
  obtain ⟨front, back, y, rfl, first, others⟩ :=
    of_bind (each x) (fun y => (Local.mapM each xs).bind fun ys => .pure (y :: ys)) reads
  obtain ⟨rest, goesOn, rfl⟩ := of_map (Local.mapM each xs) others
  exact ⟨front, back, y, rest, rfl, rfl, first, goesOn⟩

theorem mapM_cons {x : α} {xs : List α} {front back : Bytes} {y : β} {rest : List β}
    (first : Reads (read x) front y) (others : Reads (xs.mapM read) back rest) :
    Reads ((x :: xs).mapM read) (front ++ back) (y :: rest) := by
  rw [List.mapM_cons]
  exact first.bind (others.map (y :: ·))

/-- What is read in a row falls into what comes before one of the reads, what it takes, and what comes after. -/
theorem of_mapM_append (each : ∀ x, Local (read x)) {before after : List α} {x : α} {ys : List β}
    (reads : Reads ((before ++ x :: after).mapM read) data ys) :
    ∃ front middle back first y last, data = front ++ (middle ++ back) ∧ ys = first ++ y :: last ∧
      first.length = before.length ∧ Reads (before.mapM read) front first ∧ Reads (read x) middle y ∧
      Reads (after.mapM read) back last := by
  induction before generalizing data ys with
  | nil =>
    obtain ⟨middle, back, y, last, rfl, rfl, here, rest⟩ := of_mapM_cons each reads
    exact ⟨[], middle, back, [], y, last, rfl, rfl, rfl, .pure [], here, rest⟩
  | cons z before ih =>
    obtain ⟨start, others, w, rest, rfl, rfl, begun, goesOn⟩ := of_mapM_cons each reads
    obtain ⟨front, middle, back, first, y, last, rfl, rfl, same, ahead, here, behind⟩ := ih goesOn
    refine ⟨start ++ front, middle, back, w :: first, y, last, ?_, rfl, ?_, mapM_cons begun ahead, here, behind⟩
    · rw [List.append_assoc]
    · simp [same]

theorem mapM_append {before after : List α} {x : α} {front middle back : Bytes} {first last : List β} {y : β}
    (ahead : Reads (before.mapM read) front first) (here : Reads (read x) middle y)
    (behind : Reads (after.mapM read) back last) :
    Reads ((before ++ x :: after).mapM read) (front ++ (middle ++ back)) (first ++ y :: last) := by
  rw [List.mapM_append]
  exact ahead.bind ((mapM_cons here behind).map (first ++ ·))

theorem length_of_mapM (each : ∀ x, Local (read x)) {xs : List α} {ys : List β}
    (reads : Reads (xs.mapM read) data ys) : ys.length = xs.length := by
  induction xs generalizing data ys with
  | nil =>
    obtain ⟨-, rfl⟩ := of_pure reads
    rfl
  | cons x xs ih =>
    obtain ⟨_, _, _, rest, -, rfl, -, others⟩ := of_mapM_cons each reads
    simp [ih others]

/-- Reads that take a byte each take as many bytes as they are. -/
theorem length_le_of_mapM (each : ∀ x, Local (read x)) {xs : List α} {ys : List β}
    (some : ∀ x ∈ xs, ∀ data y, Reads (read x) data y → data ≠ []) (reads : Reads (xs.mapM read) data ys) :
    xs.length ≤ data.length := by
  induction xs generalizing data ys with
  | nil => exact Nat.zero_le _
  | cons x xs ih =>
    obtain ⟨front, back, y, rest, rfl, -, first, others⟩ := of_mapM_cons each reads
    have taken := List.length_pos_iff.2 (some x List.mem_cons_self front y first)
    have fewer := ih (fun z member => some z (List.mem_cons_of_mem x member)) others
    rw [List.length_cons, List.length_append]
    omega

theorem eq_nil_of_mapM (each : ∀ x, Local (read x)) {xs : List α} {ys : List β}
    (none : ∀ x ∈ xs, ∀ data y, Reads (read x) data y → data = []) (reads : Reads (xs.mapM read) data ys) :
    data = [] := by
  induction xs generalizing data ys with
  | nil => exact (of_pure reads).1
  | cons x xs ih =>
    obtain ⟨front, back, y, rest, rfl, -, first, others⟩ := of_mapM_cons each reads
    rw [none x List.mem_cons_self front y first, ih (fun z member => none z (List.mem_cons_of_mem x member)) others]
    rfl

end Sequences

section Repeats

variable {read : Read α}

theorem length_of_times (each : Local read) {count : Nat} {xs : List α}
    (reads : Reads (Cursor.times read count) data xs) : xs.length = count := by
  rw [Cursor.times_eq_mapM] at reads
  simpa using length_of_mapM (fun _ => each) reads

/-- What is read in repeats falls into what comes before the one at `i`, what it takes, and what comes after. -/
theorem of_times (each : Local read) {i count : Nat} {xs : List α} {x : α}
    (reads : Reads (Cursor.times read count) data xs) (there : xs[i]? = some x) :
    ∃ front middle back first last, data = front ++ (middle ++ back) ∧ xs = first ++ x :: last ∧ first.length = i ∧
      Reads (Cursor.times read first.length) front first ∧ Reads read middle x ∧
      Reads (Cursor.times read last.length) back last := by
  have size := length_of_times each reads
  obtain ⟨inside, -⟩ := List.getElem?_eq_some_iff.1 there
  have whole : List.replicate count () = List.replicate i () ++ () :: List.replicate (count - i - 1) () := by
    rw [← List.replicate_succ, List.replicate_append_replicate]
    congr 1
    omega
  rw [Cursor.times_eq_mapM, whole] at reads
  obtain ⟨front, middle, back, first, y, last, rfl, rfl, same, ahead, here, behind⟩ :=
    of_mapM_append (fun _ => each) reads
  rw [← Cursor.times_eq_mapM] at ahead behind
  rw [List.length_replicate] at same
  obtain rfl : y = x := by simpa [← same] using there
  refine ⟨front, middle, back, first, last, rfl, rfl, same, same ▸ ahead, here, ?_⟩
  rwa [length_of_times each behind]

theorem times_append {front middle back : Bytes} {first last : List α} {x : α}
    (ahead : Reads (Cursor.times read first.length) front first) (here : Reads read middle x)
    (behind : Reads (Cursor.times read last.length) back last) :
    Reads (Cursor.times read (first ++ x :: last).length) (front ++ (middle ++ back)) (first ++ x :: last) := by
  rw [Cursor.times_eq_mapM] at ahead behind ⊢
  rw [List.length_append, List.length_cons, ← List.replicate_append_replicate, List.replicate_succ]
  exact mapM_append ahead here behind

theorem times_of_nil {a : α} (reads : Reads read [] a) (count : Nat) :
    Reads (Cursor.times read count) [] (List.replicate count a) := by
  induction count with
  | zero => exact .pure []
  | succ count ih => exact reads.bind (ih.map (a :: ·))

end Repeats

end Reads

end Wirepack
