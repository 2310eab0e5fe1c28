/-
Runs of a fallible step function.

`run step s xs` feeds the list `xs` to `step`, one element at a time, and stops
at the first fault.  An invariant of a run may speak about the part of the list
consumed so far, so the two induction rules are indexed by it:

* `run_invariant` — what every successful step preserves holds at the end of
  every successful run;
* `run_total` — if, moreover, a step from a state with the invariant cannot
  fail, the run succeeds.

Both are relative to a prefix-closed predicate on the input list (`V`), the
assumption under which the steps are taken.
-/
import Mathlib.Tactic

namespace Run

variable {ε σ α β : Type}

theorem bind_eq_ok {x : Except ε α} {f : α → Except ε β} {b : β} :
    x >>= f = .ok b ↔ ∃ a, x = .ok a ∧ f a = .ok b := by
  cases x with
  | error e =>
    constructor
    · intro h
      cases h
    · rintro ⟨_, h, _⟩
      cases h
  | ok a =>
    constructor
    · intro h
      exact ⟨a, rfl, h⟩
    · rintro ⟨a', ha, hf⟩
      cases ha
      exact hf

@[simp] theorem ok_bind (a : α) (f : α → Except ε β) : (Except.ok a >>= f) = f a := rfl

theorem exists_ok {x : Except ε α} (h : x.toOption.isSome) : ∃ a, x = .ok a := by
  cases x with
  | error e => cases h
  | ok a => exact ⟨a, rfl⟩

theorem exists_ok_of_any {x : Except ε α} {p : α → Bool} (h : x.toOption.any p) :
    ∃ a, x = .ok a ∧ p a := by
  cases x with
  | error e => cases h
  | ok a => exact ⟨a, rfl, h⟩

instance decidableForallOk {x : Except ε α} {P : α → Prop} [DecidablePred P] :
    Decidable (∀ a, x = .ok a → P a) :=
  match x with
  | .ok a => decidable_of_iff (P a) ⟨fun h _ hb => Except.ok.inj hb ▸ h, fun h => h a rfl⟩
  | .error _ => isTrue nofun

instance decidableExistsOk {x : Except ε α} {P : α → Prop} [DecidablePred P] :
    Decidable (∃ a, x = .ok a ∧ P a) :=
  match x with
  | .ok a => decidable_of_iff (P a) ⟨fun h => ⟨a, rfl, h⟩, fun ⟨_, hb, h⟩ => Except.ok.inj hb ▸ h⟩
  | .error _ => isFalse nofun

/-- A `mapM` succeeds when every element does. -/
theorem mapM_eq_ok {f : α → Except ε β} {xs : List α} {ys : List β} :
    xs.mapM f = .ok ys ↔ List.Forall₂ (fun x y => f x = .ok y) xs ys := by
  induction xs generalizing ys with
  | nil =>
    rw [List.mapM_nil, List.forall₂_nil_left_iff]
    exact ⟨fun h => (Except.ok.inj h).symm, fun h => h ▸ rfl⟩
  | cons x xs ih =>
    rw [List.mapM_cons, List.forall₂_cons_left_iff, bind_eq_ok]
    constructor
    · rintro ⟨y, hy, h⟩
      obtain ⟨ys', hys, hcons⟩ := bind_eq_ok.mp h
      exact ⟨y, ys', hy, ih.mp hys, (Except.ok.inj hcons).symm⟩
    · rintro ⟨y, ys', hy, hys, rfl⟩
      exact ⟨y, hy, bind_eq_ok.mpr ⟨ys', ih.mpr hys, rfl⟩⟩

theorem mem_mapM_ok {f : α → Except ε β} {xs : List α} {ys : List β} (h : xs.mapM f = .ok ys)
    {y : β} : y ∈ ys ↔ ∃ x ∈ xs, f x = .ok y := by
  induction xs generalizing ys with
  | nil =>
    rw [List.mapM_nil] at h
    cases h
    simp
  | cons x xs ih =>
    rw [mapM_eq_ok, List.forall₂_cons_left_iff] at h
    obtain ⟨z, zs, hxz, hzs, rfl⟩ := h
    rw [List.mem_cons, List.exists_mem_cons_iff, hxz, Except.ok.injEq, ih (mapM_eq_ok.mpr hzs),
      eq_comm]

/-! ### Computations that return -/

def Returns (x : Except ε α) : Prop := ∃ a, x = .ok a

theorem returns_ok (a : α) : Returns (.ok a : Except ε α) := ⟨a, rfl⟩

theorem returns_bind {x : Except ε α} {f : α → Except ε β} (hx : Returns x)
    (hf : ∀ a, x = .ok a → Returns (f a)) : Returns (x >>= f) := by
  obtain ⟨a, ha⟩ := hx
  obtain ⟨b, hb⟩ := hf a ha
  exact ⟨b, bind_eq_ok.mpr ⟨a, ha, hb⟩⟩

theorem returns_bind_iff {x : Except ε α} {f : α → Except ε β} (hf : ∀ a, Returns (f a)) :
    Returns (x >>= f) ↔ Returns x := by
  refine ⟨fun ⟨b, hb⟩ => ?_, fun hx => returns_bind hx fun a _ => hf a⟩
  obtain ⟨a, ha, -⟩ := bind_eq_ok.mp hb
  exact ⟨a, ha⟩

theorem returns_mapM_iff {f : α → Except ε β} {xs : List α} :
    Returns (xs.mapM f) ↔ ∀ x ∈ xs, Returns (f x) := by
  induction xs with
  | nil => exact iff_of_true ⟨[], rfl⟩ nofun
  | cons x xs ih =>
    rw [List.mapM_cons, List.forall_mem_cons]
    constructor
    · rintro ⟨ys, hys⟩
      obtain ⟨y, hy, h⟩ := bind_eq_ok.mp hys
      obtain ⟨zs, hzs, -⟩ := bind_eq_ok.mp h
      exact ⟨⟨y, hy⟩, ih.mp ⟨zs, hzs⟩⟩
    · rintro ⟨hx, hxs⟩
      exact returns_bind hx fun y _ => returns_bind (ih.mpr hxs) fun ys _ => ⟨y :: ys, rfl⟩

theorem returns_ite {c : Prop} [Decidable c] {x y : Except ε α} (hx : c → Returns x)
    (hy : ¬ c → Returns y) : Returns (if c then x else y) := by
  split
  · rename_i hc
    exact hx hc
  · rename_i hc
    exact hy hc

/-- The second test is made when the first one holds. -/
theorem returns_andM {x y : Except ε Bool} (hx : Returns x) (hy : x = .ok true → Returns y) :
    Returns (x <&&> y) :=
  returns_bind hx fun b hb => by
    cases b with
    | true => exact hy hb
    | false => exact returns_ok false

theorem returns_orM {x y : Except ε Bool} (hx : Returns x) (hy : x = .ok false → Returns y) :
    Returns (x <||> y) :=
  returns_bind hx fun b hb => by
    cases b with
    | true => exact returns_ok true
    | false => exact hy hb

theorem left_of_andM {x y : Except ε Bool} (h : (x <&&> y) = .ok true) : x = .ok true := by
  obtain ⟨b, hb, h⟩ := bind_eq_ok.mp h
  cases b with
  | true => exact hb
  | false => cases h

/-! ### Tests that return -/

theorem andM_decide {P Q : Prop} [Decidable P] [Decidable Q] {x y : Except ε Bool}
    (hx : x = .ok (decide P)) (hy : P → y = .ok (decide Q)) :
    (x <&&> y) = .ok (decide (P ∧ Q)) := by
  subst hx
  by_cases hP : P
  · simp only [hP, true_and, decide_true]
    exact hy hP
  · simp only [hP, false_and, decide_false]
    rfl

theorem orM_decide {P Q : Prop} [Decidable P] [Decidable Q] {x y : Except ε Bool}
    (hx : x = .ok (decide P)) (hy : ¬ P → y = .ok (decide Q)) :
    (x <||> y) = .ok (decide (P ∨ Q)) := by
  subst hx
  by_cases hP : P
  · simp only [hP, true_or, decide_true]
    rfl
  · simp only [hP, false_or, decide_false]
    exact hy hP

theorem if_decide {P : Prop} [Decidable P] {x : Except ε Bool} (hx : x = .ok (decide P))
    (y z : Except ε α) : (do if ← x then y else z) = if P then y else z := by
  subst hx
  by_cases hP : P
  · simp [hP]
  · simp [hP]

/-! ### Faults that do not occur -/

/-- The computation does not end with the fault `e`. -/
def Avoids (e : ε) (x : Except ε α) : Prop := x ≠ .error e

theorem avoids_ok (e : ε) (a : α) : Avoids e (.ok a) := fun h => by cases h

theorem avoids_error {e e' : ε} (h : e' ≠ e) : Avoids e (.error e' : Except ε α) :=
  fun herr => h (Except.error.inj herr)

theorem avoids_of_returns {e : ε} {x : Except ε α} (h : Returns x) : Avoids e x := by
  obtain ⟨a, rfl⟩ := h
  exact avoids_ok e a

theorem avoids_bind {e : ε} {x : Except ε α} {f : α → Except ε β} (hx : Avoids e x)
    (hf : ∀ a, x = .ok a → Avoids e (f a)) : Avoids e (x >>= f) := by
  cases x with
  | error e' =>
    intro h
    exact hx (congrArg _ (Except.error.inj h))
  | ok a => exact hf a rfl

theorem avoids_ite {e : ε} {c : Prop} [Decidable c] {x y : Except ε α} (hx : Avoids e x)
    (hy : Avoids e y) : Avoids e (if c then x else y) := by
  split
  · exact hx
  · exact hy

theorem avoids_mapM {e : ε} {f : α → Except ε β} (h : ∀ x, Avoids e (f x)) (xs : List α) :
    Avoids e (xs.mapM f) := by
  induction xs with
  | nil => exact avoids_ok e []
  | cons x xs ih =>
    rw [List.mapM_cons]
    exact avoids_bind (h x) fun _ _ => avoids_bind ih fun _ _ => avoids_ok e _

/-! ### Runs -/

/-- Feed a list to a fallible step function. -/
def run (step : σ → α → Except ε σ) (s : σ) (xs : List α) : Except ε σ := xs.foldlM step s

variable {step : σ → α → Except ε σ}

@[simp] theorem run_nil (s : σ) : run step s [] = .ok s := rfl

@[simp] theorem run_cons (s : σ) (x : α) (xs : List α) :
    run step s (x :: xs) = step s x >>= fun t => run step t xs := by
  rw [run, List.foldlM_cons]
  rfl

theorem avoids_run {e : ε} (h : ∀ s x, Avoids e (step s x)) (s : σ) (xs : List α) :
    Avoids e (run step s xs) := by
  induction xs generalizing s with
  | nil => exact avoids_ok e s
  | cons x xs ih =>
    rw [run, List.foldlM_cons]
    exact avoids_bind (h s x) fun t _ => ih t

theorem run_append (s : σ) (xs ys : List α) :
    run step s (xs ++ ys) = run step s xs >>= fun t => run step t ys := by
  rw [run, List.foldlM_append]
  rfl

theorem run_append_ok {s t : σ} {xs ys : List α} :
    run step s (xs ++ ys) = .ok t ↔ ∃ u, run step s xs = .ok u ∧ run step u ys = .ok t := by
  rw [run_append, bind_eq_ok]

theorem run_snoc_ok {s t : σ} {xs : List α} {x : α} :
    run step s (xs ++ [x]) = .ok t ↔ ∃ u, run step s xs = .ok u ∧ step u x = .ok t := by
  rw [run_append_ok]
  simp only [run_cons, run_nil, bind_eq_ok, Except.ok.injEq, exists_eq_right]

/-- What every step keeps, every successful run keeps. -/
theorem run_invariant {V : List α → Prop} {P : List α → σ → Prop} {s : σ}
    (hV : ∀ xs x, V (xs ++ [x]) → V xs) (hinit : P [] s)
    (hstep : ∀ xs u x t, V (xs ++ [x]) → P xs u → step u x = .ok t → P (xs ++ [x]) t) :
    ∀ {xs : List α} {t : σ}, V xs → run step s xs = .ok t → P xs t := by
  intro xs
  induction xs using List.reverseRecOn with
  | nil =>
    intro t _ h
    cases h
    exact hinit
  | append_singleton xs x ih =>
    intro t hv h
    obtain ⟨u, hu, hx⟩ := run_snoc_ok.mp h
    exact hstep xs u x t hv (ih (hV xs x hv) hu) hx

/-- A run whose steps cannot fail succeeds, and ends in a state with the
invariant. -/
theorem run_total {V : List α → Prop} {P : List α → σ → Prop} {s : σ}
    (hV : ∀ xs x, V (xs ++ [x]) → V xs) (hinit : P [] s)
    (hstep : ∀ xs u x, V (xs ++ [x]) → P xs u → ∃ t, step u x = .ok t ∧ P (xs ++ [x]) t) :
    ∀ {xs : List α}, V xs → ∃ t, run step s xs = .ok t ∧ P xs t := by
  intro xs
  induction xs using List.reverseRecOn with
  | nil => exact fun _ => ⟨s, rfl, hinit⟩
  | append_singleton xs x ih =>
    intro hv
    obtain ⟨u, hu, hP⟩ := ih (hV xs x hv)
    obtain ⟨t, ht, hP'⟩ := hstep xs u x hv hP
    exact ⟨t, run_snoc_ok.mpr ⟨u, hu, ht⟩, hP'⟩

/-- A run follows another one whose steps its own steps follow. -/
theorem run_simulation {τ : Type} {step' : τ → α → Except ε τ} {R : σ → τ → Prop}
    (hstep : ∀ {s t x s'}, R s t → step s x = .ok s' → ∃ t', step' t x = .ok t' ∧ R s' t') :
    ∀ {xs : List α} {s : σ} {t : τ} {s' : σ}, R s t → run step s xs = .ok s' →
      ∃ t', run step' t xs = .ok t' ∧ R s' t' := by
  intro xs
  induction xs with
  | nil =>
    intro s t s' hR h
    cases h
    exact ⟨t, rfl, hR⟩
  | cons x xs ih =>
    intro s t s' hR h
    rw [run_cons] at h
    obtain ⟨u, hu, h⟩ := bind_eq_ok.mp h
    obtain ⟨v, hv, hRv⟩ := hstep hR hu
    obtain ⟨t', ht', hR'⟩ := ih hRv h
    refine ⟨t', ?_, hR'⟩
    rw [run_cons]
    exact bind_eq_ok.mpr ⟨v, hv, ht'⟩

/-- `P` holds of every element together with the part of the list before it. -/
def AtEvery (P : List α → α → Prop) (xs : List α) : Prop :=
  ∀ pre x post, xs = pre ++ x :: post → P pre x

theorem atEvery_nil (P : List α → α → Prop) : AtEvery P [] := by
  intro pre x post h
  exact absurd h.symm (by simp)

theorem atEvery_snoc {P : List α → α → Prop} {xs : List α} {x : α} :
    AtEvery P (xs ++ [x]) ↔ AtEvery P xs ∧ P xs x := by
  constructor
  · intro h
    refine ⟨fun pre y post hxs => h pre y (post ++ [x]) ?_, h xs x [] rfl⟩
    rw [hxs, List.append_assoc, List.cons_append]
  · rintro ⟨h, hx⟩ pre y post heq
    rcases List.eq_nil_or_concat post with rfl | ⟨post', z, rfl⟩
    · obtain ⟨rfl, hy⟩ := List.append_inj' heq rfl
      cases hy
      exact hx
    · rw [List.concat_eq_append, ← List.cons_append, ← List.append_assoc] at heq
      obtain ⟨hxs, -⟩ := List.append_inj' heq rfl
      exact h pre y post' hxs

theorem AtEvery.of_initial {P : List α → α → Prop} {xs ys : List α} (h : AtEvery P ys)
    (hp : xs <+: ys) : AtEvery P xs := by
  obtain ⟨t, rfl⟩ := hp
  intro pre x post hxs
  refine h pre x (post ++ t) ?_
  rw [hxs, List.append_assoc, List.cons_append]

theorem AtEvery.mono {P Q : List α → α → Prop} {xs : List α} (h : AtEvery P xs)
    (hPQ : ∀ pre x, P pre x → Q pre x) : AtEvery Q xs :=
  fun pre x post hxs => hPQ pre x (h pre x post hxs)

theorem atEvery_iff_take {P : List α → α → Prop} {xs : List α} :
    AtEvery P xs ↔ ∀ k : Fin xs.length, P (xs.take k) xs[k] := by
  constructor
  · intro h k
    refine h _ _ (xs.drop (k + 1)) ?_
    rw [Fin.getElem_fin, ← List.drop_eq_getElem_cons k.isLt, List.take_append_drop]
  · rintro h pre x post rfl
    have hlen : pre.length < (pre ++ x :: post).length := by simp
    have hk := h ⟨pre.length, hlen⟩
    simpa using hk

instance (P : List α → α → Prop) [∀ pre x, Decidable (P pre x)] (xs : List α) :
    Decidable (AtEvery P xs) :=
  @decidable_of_iff _ _ atEvery_iff_take.symm (Nat.decidableForallFin _)

end Run
