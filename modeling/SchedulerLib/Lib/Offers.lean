import Mathlib.Data.List.Basic

/-!
Offering the front of a list, item by item, to a partner that may refuse. `take` is the
partner: it answers, and its own state changes.
-/

namespace SchedulerLib.Lib

variable {α σ S : Type}

def refused (take : α → σ → Bool × σ) : Nat → σ → List α → Option (α × List α)
  | 0, _, _ => none
  | _, _, [] => none
  | n + 1, env, a :: rest =>
    let answer := take a env
    if answer.1 then refused take n answer.2 rest else some (a, rest)

/-- The items taken out of the first `n`, and the list left behind; `back` says what becomes
of a refused item and those behind it. -/
def offered (take : α → σ → Bool × σ) (back : α → List α → List α) :
    Nat → σ → List α → List α × List α
  | 0, _, items => ([], items)
  | _, _, [] => ([], [])
  | n + 1, env, a :: rest =>
    let answer := take a env
    if answer.1 then
      let others := offered take back n answer.2 rest
      (a :: others.1, others.2)
    else ([], back a rest)

@[simp] theorem refused_zero (take : α → σ → Bool × σ) (env : σ) (items : List α) :
    refused take 0 env items = none := rfl

theorem refused_cons_of_taken (take : α → σ → Bool × σ) (n : Nat) (env : σ) (a : α)
    (rest : List α) (taken : (take a env).1 = true) :
    refused take (n + 1) env (a :: rest) = refused take n (take a env).2 rest := by
  simp [refused, taken]

theorem refused_cons_of_not_taken (take : α → σ → Bool × σ) (n : Nat) (env : σ) (a : α)
    (rest : List α) (ref : (take a env).1 ≠ true) :
    refused take (n + 1) env (a :: rest) = some (a, rest) := by
  simp [refused, ref]

section Offered

variable (take : α → σ → Bool × σ) (back : α → List α → List α)

@[simp] theorem offered_zero (env : σ) (items : List α) :
    offered take back 0 env items = ([], items) := rfl

@[simp] theorem offered_nil (n : Nat) (env : σ) : offered take back n env [] = ([], []) := by
  cases n <;> rfl

theorem offered_cons_of_taken (n : Nat) (env : σ) (a : α) (rest : List α)
    (taken : (take a env).1 = true) :
    offered take back (n + 1) env (a :: rest) =
      (a :: (offered take back n (take a env).2 rest).1,
        (offered take back n (take a env).2 rest).2) := by
  simp [offered, taken]

theorem offered_cons_of_not_taken (n : Nat) (env : σ) (a : α) (rest : List α)
    (ref : (take a env).1 ≠ true) :
    offered take back (n + 1) env (a :: rest) = ([], back a rest) := by
  simp [offered, ref]

theorem offered_of_refused_none (n : Nat) (env : σ) (items : List α)
    (none_refused : refused take n env items = none) :
    (offered take back n env items).1 ++ (offered take back n env items).2 = items := by
  induction n generalizing env items with
  | zero => rfl
  | succ n ih =>
    cases items with
    | nil => rfl
    | cons a rest =>
      by_cases taken : (take a env).1 = true
      · rw [refused_cons_of_taken _ _ _ _ _ taken] at none_refused
        rw [offered_cons_of_taken _ _ _ _ _ _ taken, List.cons_append, ih _ _ none_refused]
      · rw [refused_cons_of_not_taken _ _ _ _ _ taken] at none_refused
        cases none_refused

theorem offered_of_refused_some (n : Nat) (env : σ) (items : List α) (a : α) (behind : List α)
    (some_refused : refused take n env items = some (a, behind)) :
    ∃ before, items = before ++ a :: behind ∧
      (offered take back n env items).1 ++ (offered take back n env items).2 =
        before ++ back a behind := by
  induction n generalizing env items with
  | zero => cases some_refused
  | succ n ih =>
    cases items with
    | nil => cases some_refused
    | cons b rest =>
      by_cases taken : (take b env).1 = true
      · rw [refused_cons_of_taken _ _ _ _ _ taken] at some_refused
        obtain ⟨before, split, order⟩ := ih _ _ some_refused
        refine ⟨b :: before, by rw [split, List.cons_append], ?_⟩
        rw [offered_cons_of_taken _ _ _ _ _ _ taken, List.cons_append, order, List.cons_append]
      · rw [refused_cons_of_not_taken _ _ _ _ _ taken] at some_refused
        obtain ⟨rfl, rfl⟩ : b = a ∧ rest = behind := by simpa using some_refused
        rw [offered_cons_of_not_taken _ _ _ _ _ _ taken]
        exact ⟨[], rfl, rfl⟩

/-- Items taken and items left are the items in order just if the refused one ends up in front of
those behind it again. -/
theorem offered_append_eq_iff (n : Nat) (env : σ) (items : List α) :
    (offered take back n env items).1 ++ (offered take back n env items).2 = items ↔
      ∀ a behind, refused take n env items = some (a, behind) → back a behind = a :: behind := by
  cases ref : refused take n env items with
  | none => simp [offered_of_refused_none take back n env items ref]
  | some found =>
    obtain ⟨a, behind⟩ := found
    obtain ⟨before, split, order⟩ := offered_of_refused_some take back n env items a behind ref
    rw [order, split, List.append_right_inj]
    simp

end Offered

/-- A loop that offers the items a state holds, one each pass: an item that is taken joins those
that are gone, and one that is refused ends the loop. -/
structure Offering (take : α → σ → Bool × σ) (back : α → List α → List α)
    (env : S → σ) (gone : S → List α) (holds : List α → S → Prop) (loop : Nat → S → S) :
    Prop where
  zero : ∀ s, loop 0 s = s
  empty : ∀ n s, holds [] s → loop n s = s
  taken : ∀ n s a rest, holds (a :: rest) s → (take a (env s)).1 = true →
    ∃ s', loop (n + 1) s = loop n s' ∧ env s' = (take a (env s)).2 ∧ gone s' = gone s ++ [a] ∧
      holds rest s'
  refused : ∀ n s a rest, holds (a :: rest) s → (take a (env s)).1 ≠ true →
    gone (loop (n + 1) s) = gone s ∧ holds (back a rest) (loop (n + 1) s)

theorem Offering.after {take : α → σ → Bool × σ} {back : α → List α → List α}
    {env : S → σ} {gone : S → List α} {holds : List α → S → Prop} {loop : Nat → S → S}
    (h : Offering take back env gone holds loop) (n : Nat) (s : S) (items : List α)
    (held : holds items s) :
    gone (loop n s) = gone s ++ (offered take back n (env s) items).1 ∧
      holds (offered take back n (env s) items).2 (loop n s) := by
  induction n generalizing s items with
  | zero =>
    rw [h.zero, offered_zero, List.append_nil]
    exact ⟨rfl, held⟩
  | succ n ih =>
    cases items with
    | nil =>
      rw [h.empty _ _ held, offered_nil, List.append_nil]
      exact ⟨rfl, held⟩
    | cons a rest =>
      by_cases taken : (take a (env s)).1 = true
      · -- the item is gone; the rest is the shorter loop
        obtain ⟨s', again, env', gone', held'⟩ := h.taken n s a rest held taken
        obtain ⟨others, left⟩ := ih s' rest held'
        rw [env'] at others left
        rw [again, offered_cons_of_taken _ _ _ _ _ _ taken]
        refine ⟨?_, left⟩
        rw [others, gone', List.append_assoc, List.singleton_append]
      · rw [offered_cons_of_not_taken _ _ _ _ _ _ taken, List.append_nil]
        exact h.refused n s a rest held taken

theorem append_singleton_eq_cons_iff (a : α) (behind : List α) :
    behind ++ [a] = a :: behind ↔ ∀ x ∈ behind, x = a := by
  induction behind with
  | nil => simp
  | cons y rest ih =>
    simp only [List.cons_append, List.cons.injEq, List.mem_cons, forall_eq_or_imp]
    constructor
    · rintro ⟨rfl, same⟩
      exact ⟨rfl, ih.mp same⟩
    · rintro ⟨rfl, same⟩
      exact ⟨rfl, ih.mpr same⟩

end SchedulerLib.Lib
