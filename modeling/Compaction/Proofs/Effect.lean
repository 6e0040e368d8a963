import Compaction.Effect
import Mathlib.Data.List.Forall2

/-!
# Sequences of operations

How a sequence of operations runs: each kind of first step hands its result and its state to the next one
(`bind_apply` and its cases). A result of a sequence that does not fail comes from results of its parts
(`Except.bind_eq_ok`, `Effect.bind_eq_ok`), and results for all elements of a list come from one for each
(`Except.mapM_eq_ok`). One that fails does so at its first step that fails (`Except.foldlM_eq_error`,
`Except.mapM_eq_error`).
-/

namespace Compaction

theorem Except.bind_eq_ok {ε α β : Type} {x : Except ε α} {next : α → Except ε β} {y : β} :
    (x >>= next) = .ok y ↔ ∃ a, x = .ok a ∧ next a = .ok y := by
  cases x with
  | error f => simp [bind, Except.bind]
  | ok a => simp [bind, Except.bind]

theorem Except.bind_eq_error {ε α β : Type} {x : Except ε α} {next : α → Except ε β} {e : ε} :
    (x >>= next) = .error e ↔ x = .error e ∨ ∃ a, x = .ok a ∧ next a = .error e := by
  cases x with
  | error f => simp [bind, Except.bind]
  | ok a => simp [bind, Except.bind]

/-- A step that only returns something does not fail. -/
theorem Except.bind_pure_eq_error {ε α β : Type} {x : Except ε α} {g : α → β} {e : ε} :
    (x >>= fun a => pure (g a)) = .error e ↔ x = .error e := by
  cases x with
  | error f => simp [bind, Except.bind]
  | ok a => simp [bind, Except.bind, pure, Except.pure]

theorem Except.map_eq_ok {ε α β : Type} {x : Except ε α} {g : α → β} {y : β} :
    x.map g = .ok y ↔ ∃ a, x = .ok a ∧ g a = y := by
  cases x <;> simp [Except.map]

theorem Except.map_eq_error {ε α β : Type} {x : Except ε α} {g : α → β} {e : ε} :
    x.map g = .error e ↔ x = .error e := by
  cases x <;> simp [Except.map]

theorem Except.mapM_eq_ok {ε α β : Type} {f : α → Except ε β} {xs : List α} {ys : List β} :
    xs.mapM f = .ok ys ↔ List.Forall₂ (fun x y => f x = .ok y) xs ys := by
  induction xs generalizing ys with
  | nil => simp [pure, Except.pure, eq_comm]
  | cons x rest ih =>
    rw [List.mapM_cons, Except.bind_eq_ok, List.forall₂_cons_left_iff]
    constructor
    · rintro ⟨y, hx, h⟩
      obtain ⟨ys', hrest, h⟩ := Except.bind_eq_ok.1 h
      cases h
      exact ⟨y, ys', hx, ih.1 hrest, rfl⟩
    · rintro ⟨y, ys', hx, hrest, rfl⟩
      exact ⟨y, hx, Except.bind_eq_ok.2 ⟨ys', ih.2 hrest, rfl⟩⟩

theorem Except.exists_mapM_eq_ok {ε α β : Type} {f : α → Except ε β} {xs : List α} :
    (∃ ys, xs.mapM f = .ok ys) ↔ ∀ x ∈ xs, ∃ y, f x = .ok y := by
  induction xs with
  | nil => simp [pure, Except.pure]
  | cons x rest ih =>
    rw [List.forall_mem_cons, ← ih, List.mapM_cons]
    constructor
    · rintro ⟨ys, h⟩
      obtain ⟨y, hx, h⟩ := Except.bind_eq_ok.1 h
      obtain ⟨ys', hrest, -⟩ := Except.bind_eq_ok.1 h
      exact ⟨⟨y, hx⟩, ys', hrest⟩
    · rintro ⟨⟨y, hx⟩, ys, hrest⟩
      exact ⟨y :: ys, by rw [hx, hrest]; rfl⟩

theorem Except.exists_of_mapM_eq_ok {ε α β : Type} {f : α → Except ε β} {xs : List α} {ys : List β}
    (h : xs.mapM f = .ok ys) {y : β} (hy : y ∈ ys) : ∃ x ∈ xs, f x = .ok y := by
  have hall := Except.mapM_eq_ok.1 h
  clear h
  induction hall with
  | nil => simp at hy
  | cons hx _ ih =>
    rcases List.mem_cons.1 hy with rfl | hy
    · exact ⟨_, by simp, hx⟩
    · obtain ⟨x', hx', e⟩ := ih hy
      exact ⟨x', List.mem_cons_of_mem _ hx', e⟩

theorem Except.mapM_congr {ε α β : Type} {f g : α → Except ε β} {xs : List α} (h : ∀ x ∈ xs, f x = g x) :
    xs.mapM f = xs.mapM g := by
  induction xs with
  | nil => rfl
  | cons x rest ih =>
    rw [List.forall_mem_cons] at h
    rw [List.mapM_cons, List.mapM_cons, h.1, ih h.2]

/-- Lists that are run one after another are run as a whole. -/
theorem Except.mapM_flatMap {ε α β γ : Type} (f : β → Except ε γ) (g : α → List β) (xs : List α) :
    (xs.flatMap g).mapM f = (xs.mapM fun x => (g x).mapM f).map List.flatten := by
  induction xs with
  | nil => rfl
  | cons x rest ih =>
    rw [List.flatMap_cons, List.mapM_append, List.mapM_cons, ih]
    cases (g x).mapM f with
    | error e => rfl
    | ok ys => cases rest.mapM fun x => (g x).mapM f <;> rfl

theorem Except.length_of_mapM_eq_ok {ε α β : Type} {f : α → Except ε β} {xs : List α} {ys : List β}
    (h : xs.mapM f = .ok ys) : ys.length = xs.length := (Except.mapM_eq_ok.1 h).length_eq.symm

/-- A fold fails at the first step that does. -/
theorem Except.foldlM_eq_error {ε α β : Type} {step : β → α → Except ε β} {xs : List α} {b : β} {e : ε} :
    xs.foldlM step b = .error e ↔
      ∃ before x after b', xs = before ++ x :: after ∧ before.foldlM step b = .ok b' ∧ step b' x = .error e := by
  induction xs generalizing b with
  | nil => simp [pure, Except.pure]
  | cons x rest ih =>
    constructor
    · intro h
      rw [List.foldlM_cons] at h
      cases hx : step b x with
      | error e' =>
        rw [hx] at h
        cases h
        exact ⟨[], x, rest, b, rfl, rfl, hx⟩
      | ok b₁ =>
        rw [hx] at h
        obtain ⟨before, y, after, b', rfl, hbefore, hy⟩ := ih.1 h
        exact ⟨x :: before, y, after, b', rfl, by rw [List.foldlM_cons, hx]; exact hbefore, hy⟩
    · rintro ⟨before, y, after, b', hsplit, hbefore, hy⟩
      rw [hsplit, List.foldlM_append, hbefore]
      change (y :: after).foldlM step b' = _
      rw [List.foldlM_cons, hy]
      rfl

theorem Except.mapM_eq_error {ε α β : Type} {f : α → Except ε β} {xs : List α} {e : ε} :
    xs.mapM f = .error e ↔
      ∃ before x after, xs = before ++ x :: after ∧ (∀ y ∈ before, ∃ z, f y = .ok z) ∧ f x = .error e := by
  induction xs with
  | nil => simp [pure, Except.pure]
  | cons x rest ih =>
    rw [List.mapM_cons]
    cases hx : f x with
    | error e' =>
      constructor
      · intro h
        cases h
        exact ⟨[], x, rest, rfl, by simp, hx⟩
      · rintro ⟨before, y, after, hsplit, hbefore, hy⟩
        cases before with
        | nil =>
          obtain ⟨rfl, -⟩ := List.cons.inj hsplit
          rw [hx] at hy
          cases hy
          rfl
        | cons x' before =>
          obtain ⟨rfl, -⟩ := List.cons.inj hsplit
          obtain ⟨z, hz⟩ := hbefore x (by simp)
          rw [hx] at hz
          cases hz
    | ok z =>
      have hrest : (do let y ← Except.ok z; let ys ← rest.mapM f; pure (y :: ys) : Except ε (List β)) = .error e ↔
          rest.mapM f = .error e := by
        cases rest.mapM f with
        | error e' => simp [bind, Except.bind]
        | ok ys => simp [bind, Except.bind, pure, Except.pure]
      rw [hrest, ih]
      constructor
      · rintro ⟨before, y, after, rfl, hbefore, hy⟩
        exact ⟨x :: before, y, after, rfl, List.forall_mem_cons.2 ⟨⟨z, hx⟩, hbefore⟩, hy⟩
      · rintro ⟨before, y, after, hsplit, hbefore, hy⟩
        cases before with
        | nil =>
          obtain ⟨rfl, -⟩ := List.cons.inj hsplit
          rw [hx] at hy
          cases hy
        | cons x' before =>
          obtain ⟨-, rfl⟩ := List.cons.inj hsplit
          exact ⟨before, y, after, rfl, fun w hw => hbefore w (List.mem_cons_of_mem _ hw), hy⟩

namespace Effect

variable {σ α β : Type}

theorem bind_apply (first : Effect σ α) (next : α → Effect σ β) (s : σ) :
    (first >>= next) s = match first s with
      | (.ok x, s') => next x s'
      | (.error f, s') => (.error f, s') := by
  rcases h : first s with ⟨_ | x, s'⟩
  · exact bind_of_error h
  · exact bind_of_ok h

theorem bind_eq_ok {first : Effect σ α} {next : α → Effect σ β} {s s'' : σ} {y : β} :
    (first >>= next) s = (.ok y, s'') ↔ ∃ x s', first s = (.ok x, s') ∧ next x s' = (.ok y, s'') := by
  rw [bind_apply]
  rcases first s with ⟨f | x, s'⟩
  · constructor
    · intro h
      cases h
    · rintro ⟨x, s₁, e, -⟩
      cases e
  · constructor
    · intro h
      exact ⟨x, s', rfl, h⟩
    · rintro ⟨x', s₁, e, h⟩
      cases e
      exact h

@[simp] theorem ofRead_bind (read : σ → Except Fault α) (next : α → Effect σ β) (s : σ) :
    (ofRead read >>= next) s = match read s with
      | .ok x => next x s
      | .error f => (.error f, s) := by
  rw [bind_apply, ofRead]
  cases read s <;> rfl

@[simp] theorem ofExcept_bind (result : Except Fault α) (next : α → Effect σ β) (s : σ) :
    (ofExcept result >>= next) s = match result with
      | .ok x => next x s
      | .error f => (.error f, s) := by
  rw [ofExcept, ofRead_bind]

@[simp] theorem ofChange_bind (change : σ → α × σ) (next : α → Effect σ β) (s : σ) :
    (ofChange change >>= next) s = next (change s).1 (change s).2 := rfl

@[simp] theorem get_bind (next : σ → Effect σ β) (s : σ) : ((get : Effect σ σ) >>= next) s = next s s := rfl

@[simp] theorem ofChange_apply (change : σ → α × σ) (s : σ) :
    ofChange change s = (.ok (change s).1, (change s).2) := rfl

@[simp] theorem pure_apply (x : α) (s : σ) : (pure x : Effect σ α) s = (.ok x, s) := rfl

@[simp] theorem map_apply (f : α → β) (action : Effect σ α) (s : σ) :
    (f <$> action) s = ((action s).1.map f, (action s).2) := by
  change (action >>= pure ∘ f) s = _
  rw [bind_apply]
  rcases action s with ⟨_ | x, s'⟩ <;> rfl

theorem mapFault_eq_ok {f : Fault → Fault} {action : Effect σ α} {s s' : σ} {x : α} :
    action.mapFault f s = (.ok x, s') ↔ action s = (.ok x, s') := by
  unfold mapFault
  rcases action s with ⟨_ | y, s₁⟩
  · constructor <;> intro h <;> cases h
  · exact Iff.rfl

@[simp] theorem mapFault_apply (f : Fault → Fault) (action : Effect σ α) (s : σ) :
    action.mapFault f s = ((action s).1.mapError f, (action s).2) := by
  unfold mapFault
  rcases action s with ⟨_ | x, s'⟩ <;> rfl

end Effect

end Compaction
