/-
Readers that move a cursor over a sequence.

A `Source` says which elements stand where.  Two kinds of statements about a reader
are built from statements about its parts, in the order in which it reads:

* `Reads src r bs v` — wherever `bs` stands in `src`, the reader `r` gives the value
  `v` and moves the cursor behind `bs`;
* `Accepts src limit r Form` — what `r` gives, if it starts in front of the limit,
  was spelled by the elements the cursor has moved over, and it ends in front of the
  limit.
-/
import BitcoinAnalysis.Run

namespace Cursor

variable {ε α β γ : Type}

/-- A value and the position behind it, or a failure. -/
abbrev Reader (ε α : Type) := StateT ℕ (Except ε) α

/-- What stands where: two pieces side by side are one piece. -/
structure Source (β : Type) where
  At : ℕ → List β → Prop
  nil : ∀ pos, At pos []
  append : ∀ {pos bs cs}, At pos (bs ++ cs) ↔ At pos bs ∧ At (pos + bs.length) cs

variable {src : Source β} {bs cs : List β} {pos : ℕ}

/-- The reader reads `bs` as `v`. -/
def Reads (src : Source β) (r : Reader ε α) (bs : List β) (v : α) : Prop :=
  ∀ pos, src.At pos bs → r pos = .ok (v, pos + bs.length)

theorem Reads.pure (v : α) : Reads src (Pure.pure v : Reader ε α) [] v := fun _ _ => rfl

/-- What is left to read behind a first part. -/
theorem Reads.bind_eq {r : Reader ε α} {v : α} (hr : Reads src r bs v) (h : src.At pos bs)
    (f : α → Reader ε γ) : (r >>= f) pos = f v (pos + bs.length) := by
  show (r pos >>= fun p => f p.1 p.2) = _
  rw [hr pos h, Run.ok_bind]

theorem Reads.bind {r : Reader ε α} {f : α → Reader ε γ} {v : α} {u : γ} (hr : Reads src r bs v)
    (hf : Reads src (f v) cs u) : Reads src (r >>= f) (bs ++ cs) u := by
  intro pos h
  obtain ⟨hbs, hcs⟩ := src.append.mp h
  rw [hr.bind_eq hbs, hf _ hcs, List.length_append, Nat.add_assoc]

/-- A last step that reads nothing. -/
theorem Reads.bind_pure {r : Reader ε α} {f : α → γ} {v : α} (hr : Reads src r bs v) :
    Reads src (r >>= fun a => Pure.pure (f a)) bs (f v) := by
  have h := Reads.bind (f := fun a => Pure.pure (f a)) hr (Reads.pure (f v))
  rwa [List.append_nil] at h

/-- A step that does not move the cursor and returns. -/
theorem Reads.lift {x : Except ε α} {v : α} (h : x = .ok v) :
    Reads src (StateT.lift x : Reader ε α) [] v := by
  intro pos _
  rw [h]
  rfl

/-- `n` times the same reader. -/
def times (r : Reader ε α) : (n : ℕ) → Reader ε { l : List α // l.length = n }
  | 0 => Pure.pure ⟨[], rfl⟩
  | n + 1 => do
    let x ← r
    let l ← times r n
    Pure.pure ⟨x :: l.1, by rw [List.length_cons, l.2]⟩

theorem Reads.times {r : Reader ε α} {xs : List α} {pieces : List (List β)} {n : ℕ}
    (h : List.Forall₂ (fun x piece => Reads src r piece x) xs pieces) (hn : xs.length = n) :
    Reads src (times r n) pieces.flatten ⟨xs, hn⟩ := by
  induction h generalizing n with
  | nil =>
    subst hn
    exact Reads.pure _
  | @cons x piece xs pieces hx _ ih =>
    subst hn
    refine hx.bind ?_
    exact (ih rfl).bind_pure (f := fun l : { l : List α // l.length = xs.length } =>
      (⟨x :: l.1, by rw [List.length_cons, l.2]⟩ : { l : List α // l.length = xs.length + 1 }))

/-! ### Faults that do not occur -/

/-- The reader does not end with the fault `e`, wherever it starts. -/
def Avoids (e : ε) (r : Reader ε α) : Prop := ∀ pos, Run.Avoids e (r pos)

theorem avoids_pure (e : ε) (v : α) : Avoids e (Pure.pure v : Reader ε α) :=
  fun _ => Run.avoids_ok e _

theorem avoids_bind {e : ε} {r : Reader ε α} {f : α → Reader ε γ} (hr : Avoids e r)
    (hf : ∀ v, Avoids e (f v)) : Avoids e (r >>= f) :=
  fun pos => Run.avoids_bind (hr pos) fun p _ => hf p.1 p.2

theorem avoids_ite {e : ε} {c : Prop} [Decidable c] {r r' : Reader ε α} (hr : Avoids e r)
    (hr' : Avoids e r') : Avoids e (if c then r else r') := by
  split
  · exact hr
  · exact hr'

theorem avoids_lift {e : ε} {x : Except ε α} (h : Run.Avoids e x) :
    Avoids e (StateT.lift x : Reader ε α) :=
  fun _ => Run.avoids_bind h fun _ _ => Run.avoids_ok e _

theorem avoids_times {e : ε} {r : Reader ε α} (hr : Avoids e r) (n : ℕ) : Avoids e (times r n) := by
  induction n with
  | zero => exact avoids_pure e _
  | succ n ih => exact avoids_bind hr fun _ => avoids_bind ih fun _ => avoids_pure e _

/-! ### What a reader accepts -/

/-- Whatever the reader gives, from a position in front of `limit` on, it was
spelled by what the cursor has moved over. -/
def Accepts (src : Source β) (limit : ℕ) (r : Reader ε α) (Form : α → List β → Prop) : Prop :=
  ∀ ⦃pos v p⦄, pos ≤ limit → r pos = .ok (v, p) →
    p ≤ limit ∧ ∃ bs, src.At pos bs ∧ p = pos + bs.length ∧ Form v bs

variable {limit : ℕ} {F : α → List β → Prop}

theorem Accepts.mono {G : α → List β → Prop} {r : Reader ε α} (h : Accepts src limit r F)
    (hFG : ∀ v bs, F v bs → G v bs) : Accepts src limit r G := by
  intro pos v p hpos hv
  obtain ⟨hp, bs, hat, hlen, hform⟩ := h hpos hv
  exact ⟨hp, bs, hat, hlen, hFG v bs hform⟩

theorem Accepts.pure (v : α) :
    Accepts src limit (Pure.pure v : Reader ε α) fun u bs => u = v ∧ bs = [] := by
  intro pos u p hpos h
  cases h
  exact ⟨hpos, [], src.nil pos, rfl, rfl, rfl⟩

theorem Accepts.bind {G : α → γ → List β → Prop} {r : Reader ε α} {f : α → Reader ε γ}
    (hr : Accepts src limit r F) (hf : ∀ v, Accepts src limit (f v) (G v)) :
    Accepts src limit (r >>= f) fun u bs => ∃ v bs₁ bs₂, F v bs₁ ∧ G v u bs₂ ∧ bs = bs₁ ++ bs₂ := by
  intro pos u p hpos h
  obtain ⟨⟨v, q⟩, hv, hu⟩ := Run.bind_eq_ok.mp h
  obtain ⟨hq, bs₁, hat₁, rfl, hF⟩ := hr hpos hv
  obtain ⟨hp, bs₂, hat₂, rfl, hG⟩ := hf v hq hu
  refine ⟨hp, bs₁ ++ bs₂, src.append.mpr ⟨hat₁, hat₂⟩, ?_, v, bs₁, bs₂, hF, hG, rfl⟩
  rw [List.length_append, Nat.add_assoc]

theorem Accepts.bind_pure {f : α → γ} {r : Reader ε α} (hr : Accepts src limit r F) :
    Accepts src limit (r >>= fun v => Pure.pure (f v)) fun u bs => ∃ v, F v bs ∧ u = f v := by
  refine (hr.bind fun v => Accepts.pure (f v)).mono ?_
  rintro u bs ⟨v, bs₁, bs₂, hF, ⟨hu, rfl⟩, rfl⟩
  rw [List.append_nil]
  exact ⟨v, hF, hu⟩

theorem Accepts.lift (x : Except ε α) :
    Accepts src limit (StateT.lift x : Reader ε α) fun v bs => x = .ok v ∧ bs = [] := by
  intro pos v p hpos h
  obtain ⟨u, hu, h⟩ := Run.bind_eq_ok.mp h
  cases h
  exact ⟨hpos, [], src.nil pos, rfl, hu, rfl⟩

theorem Accepts.times {r : Reader ε α} (h : Accepts src limit r F) (n : ℕ) :
    Accepts src limit (times r n) fun l bs => ∃ pieces, List.Forall₂ F l.1 pieces ∧
      bs = pieces.flatten := by
  induction n with
  | zero =>
    refine (Accepts.pure _).mono ?_
    rintro l bs ⟨rfl, rfl⟩
    exact ⟨[], .nil, rfl⟩
  | succ n ih =>
    refine (h.bind fun _ => ih.bind_pure).mono ?_
    rintro l bs ⟨x, piece, rest, hx, ⟨l', ⟨pieces, hl', rfl⟩, rfl⟩, rfl⟩
    exact ⟨piece :: pieces, .cons hx hl', rfl⟩

end Cursor
