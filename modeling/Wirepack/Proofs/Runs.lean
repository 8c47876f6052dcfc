import Wirepack.Bytes

/-!
# Runs that succeed

Reads and writes run on a state, checks only answer. A sequence of either succeeds exactly if
each part does; these lemmas take it apart, so that no proof has to open `bind`.
-/

namespace Wirepack
set_option autoImplicit false

namespace Run

variable {ε σ α β : Type}

theorem bind_eq_ok {first : EStateM ε σ α} {next : α → EStateM ε σ β} {s s' : σ} {b : β} :
    (first >>= next) s = .ok b s' ↔ ∃ a t, first s = .ok a t ∧ next a t = .ok b s' := by
  simp only [bind, EStateM.bind]
  cases first s <;> simp [and_assoc]

theorem bind_eq_error {first : EStateM ε σ α} {next : α → EStateM ε σ β} {s s' : σ} {e : ε} :
    (first >>= next) s = .error e s' ↔
      first s = .error e s' ∨ ∃ a t, first s = .ok a t ∧ next a t = .error e s' := by
  simp only [bind, EStateM.bind]
  cases first s <;> simp [and_assoc]

theorem pure_eq_ok {a b : α} {s s' : σ} :
    (pure a : EStateM ε σ α) s = .ok b s' ↔ a = b ∧ s = s' := by
  simp [pure, EStateM.pure]

theorem forM_cons_eq_ok {action : α → EStateM ε σ PUnit} {x : α} {xs : List α} {s s' : σ} :
    (x :: xs).forM action s = .ok () s' ↔
      ∃ t, action x s = .ok () t ∧ xs.forM action t = .ok () s' := by
  have split : (x :: xs).forM action = (action x >>= fun _ => xs.forM action) := rfl
  rw [split, bind_eq_ok]
  constructor
  · rintro ⟨⟨⟩, t, first, rest⟩
    exact ⟨t, first, rest⟩
  · rintro ⟨t, first, rest⟩
    exact ⟨(), t, first, rest⟩

end Run

namespace Check

variable {ε σ α β : Type}

theorem bind_eq_ok {first : Except ε α} {next : α → Except ε β} {b : β} :
    (first >>= next) = .ok b ↔ ∃ a, first = .ok a ∧ next a = .ok b := by
  cases first <;> simp [bind, Except.bind]

theorem bind_eq_error {first : Except ε α} {next : α → Except ε β} {e : ε} :
    (first >>= next) = .error e ↔ first = .error e ∨ ∃ a, first = .ok a ∧ next a = .error e := by
  cases first <;> simp [bind, Except.bind]

theorem forM_eq_ok {check : α → Except ε Unit} {xs : List α} :
    xs.forM check = .ok () ↔ ∀ x ∈ xs, check x = .ok () := by
  induction xs with
  | nil => simp [pure, Except.pure]
  | cons x xs ih =>
    have split : (x :: xs).forM check = (check x >>= fun _ => xs.forM check) := rfl
    rw [split, bind_eq_ok, List.forall_mem_cons]
    constructor
    · rintro ⟨⟨⟩, first, rest⟩
      exact ⟨first, ih.1 rest⟩
    · rintro ⟨first, rest⟩
      exact ⟨(), first, ih.2 rest⟩

theorem forM_eq_error {check : α → Except ε Unit} {xs : List α} {e : ε} (failed : xs.forM check = .error e) :
    ∃ x ∈ xs, check x = .error e := by
  induction xs with
  | nil => cases failed
  | cons x xs ih =>
    have split : (x :: xs).forM check = (check x >>= fun _ => xs.forM check) := rfl
    rw [split] at failed
    rcases bind_eq_error.1 failed with first | ⟨⟨⟩, -, others⟩
    · exact ⟨x, List.mem_cons_self, first⟩
    · obtain ⟨y, later, wrong⟩ := ih others
      exact ⟨y, List.mem_cons_of_mem x later, wrong⟩

/-- A list of answers none of which can fail is an answer. -/
theorem mapM_ok {answer : α → Except ε β} {xs : List α} (succeeds : ∀ x ∈ xs, ∃ y, answer x = .ok y) :
    ∃ ys, xs.mapM answer = .ok ys := by
  induction xs with
  | nil => exact ⟨[], rfl⟩
  | cons x xs ih =>
    obtain ⟨y, first⟩ := succeeds x List.mem_cons_self
    obtain ⟨ys, rest⟩ := ih fun z later => succeeds z (List.mem_cons_of_mem x later)
    refine ⟨y :: ys, ?_⟩
    rw [List.mapM_cons]
    exact bind_eq_ok.2 ⟨y, first, bind_eq_ok.2 ⟨ys, rest, rfl⟩⟩

/-- Each step of a fold that succeeds ran, and succeeded, in a state with every property that
holds at the start and that steps preserve. -/
theorem foldlM_eq_ok {step : σ → α → Except ε σ} {I : σ → Prop} {xs : List α} {s s' : σ}
    (run : xs.foldlM step s = .ok s') (start : I s)
    (preserve : ∀ x ∈ xs, ∀ t t', I t → step t x = .ok t' → I t') :
    I s' ∧ ∀ x ∈ xs, ∃ t t', I t ∧ step t x = .ok t' := by
  induction xs generalizing s with
  | nil =>
    obtain rfl : s = s' := by simpa [pure, Except.pure] using run
    exact ⟨start, by simp⟩
  | cons x xs ih =>
    rw [List.foldlM_cons] at run
    obtain ⟨t, first, rest⟩ := bind_eq_ok.1 run
    have kept := preserve x List.mem_cons_self s t start first
    obtain ⟨final, others⟩ := ih rest kept fun y member => preserve y (List.mem_cons_of_mem x member)
    refine ⟨final, fun y member => ?_⟩
    rcases List.mem_cons.1 member with rfl | later
    · exact ⟨s, t, start, first⟩
    · exact others y later

theorem foldlM_eq_error {step : σ → α → Except ε σ} {xs : List α} {s : σ} {e : ε}
    (failed : xs.foldlM step s = .error e) : ∃ x ∈ xs, ∃ t, step t x = .error e := by
  induction xs generalizing s with
  | nil => cases failed
  | cons x xs ih =>
    rw [List.foldlM_cons] at failed
    rcases bind_eq_error.1 failed with first | ⟨t, -, others⟩
    · exact ⟨x, List.mem_cons_self, s, first⟩
    · obtain ⟨y, later, wrong⟩ := ih others
      exact ⟨y, List.mem_cons_of_mem x later, wrong⟩

/-- A fold none of whose steps can fail succeeds. -/
theorem foldlM_ok {step : σ → α → Except ε σ} {xs : List α}
    (succeeds : ∀ x ∈ xs, ∀ t, ∃ t', step t x = .ok t') (s : σ) : ∃ s', xs.foldlM step s = .ok s' := by
  induction xs generalizing s with
  | nil => exact ⟨s, rfl⟩
  | cons x xs ih =>
    obtain ⟨t, first⟩ := succeeds x List.mem_cons_self s
    obtain ⟨s', rest⟩ := ih (fun y member => succeeds y (List.mem_cons_of_mem x member)) t
    exact ⟨s', by rw [List.foldlM_cons]; exact bind_eq_ok.2 ⟨t, first, rest⟩⟩

end Check

end Wirepack
