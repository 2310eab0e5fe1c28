/-
Programs that act on their store through a handler only.

Such a program can be run on any store.  Run on a list, with a handler that
writes down what it is asked to do (`record`), it gives its trace, and on every
other store it does what its trace says (`Traced`).  The rules build this up
along the program.
-/
import BitcoinAnalysis.Run

open Run

namespace Trace

variable {ε E ρ τ σ : Type}

def record (evs : List E) (e : E) : Except ε (List E) := .ok (evs ++ [e])

theorem run_record (evs es : List E) :
    run record evs es = (.ok (evs ++ es) : Except ε (List E)) := by
  induction es generalizing evs with
  | nil => rw [run_nil, List.append_nil]
  | cons e es ih =>
    rw [run_cons, record, ok_bind, ih, List.append_assoc]
    rfl

/-- A program over any store `σ`, with its handler. -/
abbrev Prog (ε E ρ : Type) :=
  (σ : Type) → (σ → E → Except ε σ) → σ → Except ε (σ × ρ)

/-- On every store the program does what its trace says, and returns what it
returns with its trace. -/
def Traced (F : Prog ε E ρ) : Prop :=
  ∀ (σ : Type) (handle : σ → E → Except ε σ) (st st' : σ) (r : ρ),
    F σ handle st = .ok (st', r) ↔
      ∃ evs, F (List E) record [] = .ok (evs, r) ∧ run handle st evs = .ok st'

/-- A program that lists its events beforehand, in some way, is traced. -/
theorem traced_of_events {F : Prog ε E ρ} {Q : List E → ρ → Prop}
    (h : ∀ (σ : Type) (handle : σ → E → Except ε σ) (st st' : σ) (r : ρ),
      F σ handle st = .ok (st', r) ↔ ∃ evs, Q evs r ∧ run handle st evs = .ok st') :
    Traced F := by
  intro σ handle st st' r
  rw [h]
  refine exists_congr fun evs => and_congr_left fun _ => ?_
  rw [h]
  constructor
  · intro hQ
    exact ⟨evs, hQ, run_record [] evs⟩
  · rintro ⟨es, hQ, hrec⟩
    rw [run_record, Except.ok.injEq, List.nil_append] at hrec
    exact hrec ▸ hQ

theorem traced_ok (r : ρ) : Traced (fun _ _ st => .ok (st, r) : Prog ε E ρ) := by
  intro σ handle st st' r'
  simp only [Except.ok.injEq, Prod.mk.injEq]
  constructor
  · rintro ⟨rfl, rfl⟩
    exact ⟨[], ⟨rfl, rfl⟩, rfl⟩
  · rintro ⟨evs, ⟨rfl, rfl⟩, h⟩
    exact ⟨Except.ok.inj h, rfl⟩

theorem traced_error (e : ε) : Traced (fun _ _ _ => .error e : Prog ε E ρ) := by
  intro σ handle st st' r
  constructor
  · intro h
    cases h
  · rintro ⟨evs, h, -⟩
    cases h

/-- A trace that starts from a list that is not empty. -/
theorem Traced.record_eq_ok {F : Prog ε E ρ} (hF : Traced F) {evs evs' : List E} {r : ρ} :
    F (List E) record evs = .ok (evs', r) ↔
      ∃ es, F (List E) record [] = .ok (es, r) ∧ evs' = evs ++ es := by
  rw [hF]
  refine exists_congr fun es => and_congr_right fun _ => ?_
  rw [run_record, Except.ok.injEq]
  exact eq_comm

theorem Traced.bind {F : Prog ε E ρ} {G : ρ → Prog ε E τ} (hF : Traced F)
    (hG : ∀ r, Traced (G r)) :
    Traced fun σ handle st => F σ handle st >>= fun x => G x.2 σ handle x.1 := by
  intro σ handle st st' r
  simp only [bind_eq_ok, Prod.exists]
  constructor
  · rintro ⟨u, q, hu, hst'⟩
    obtain ⟨evs, hevs, hrun⟩ := (hF σ handle st u q).mp hu
    obtain ⟨es, hes, hrun'⟩ := (hG q σ handle u st' r).mp hst'
    exact ⟨evs ++ es, ⟨evs, q, hevs, (hG q).record_eq_ok.mpr ⟨es, hes, rfl⟩⟩,
      run_append_ok.mpr ⟨u, hrun, hrun'⟩⟩
  · rintro ⟨all, ⟨evs, q, hevs, hall⟩, hrun⟩
    obtain ⟨es, hes, rfl⟩ := (hG q).record_eq_ok.mp hall
    obtain ⟨u, hu, hrun'⟩ := run_append_ok.mp hrun
    exact ⟨u, q, (hF σ handle st u q).mpr ⟨evs, hevs, hu⟩,
      (hG q σ handle u st' r).mpr ⟨es, hes, hrun'⟩⟩

/-- A part that does not look at the store. -/
theorem Traced.after {x : Except ε ρ} {G : ρ → Prog ε E τ} (hG : ∀ r, Traced (G r)) :
    Traced fun σ handle st => x >>= fun r => G r σ handle st := by
  cases x with
  | ok r => exact hG r
  | error e => exact traced_error e

end Trace
