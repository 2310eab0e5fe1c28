/-
Clusters kept by relabelling.

Every member gets a label of its own when it enters; merging a set of members
gives the least of their labels to everything that carries one of them.  The
relation merged so far is `R`, and the clusters are the classes of its
equivalence closure.  `Labelling R first label` says that the label of a member
is the least label given to a member of its class.

* `Labelling.label_eq_iff` — two members have the same label exactly when they
  are in one class;
* `Labelling.merge` — merging keeps the invariant, for `R` with a clique added;
* `Labelling.enter` — so does entering a member under a label above all others.
-/
import Mathlib.Tactic
import Mathlib.Order.Bounds.Basic

open Relation

namespace Clusters

variable {α ι : Type} {R R' : α → α → Prop}

/-- `R` and all pairs of members of a set. -/
def withClique (R : α → α → Prop) (xs : Set α) (a b : α) : Prop := R a b ∨ (a ∈ xs ∧ b ∈ xs)

/-- A clique joins the classes of its members and no others. -/
theorem eqvGen_withClique {xs : Set α} {a b : α} :
    EqvGen (withClique R xs) a b ↔
      EqvGen R a b ∨ (∃ x ∈ xs, EqvGen R a x) ∧ ∃ y ∈ xs, EqvGen R b y := by
  constructor
  · intro h
    induction h with
    | rel a b hab =>
      rcases hab with hab | ⟨ha, hb⟩
      · exact .inl (.rel a b hab)
      · exact .inr ⟨⟨a, ha, .refl a⟩, ⟨b, hb, .refl b⟩⟩
    | refl a => exact .inl (.refl a)
    | symm a b _ ih => exact ih.imp (.symm a b) And.symm
    | trans a b c _ _ ihab ihbc =>
      rcases ihab with hab | ⟨ha, y, hy, hby⟩
      · rcases ihbc with hbc | ⟨⟨x, hx, hbx⟩, hc⟩
        · exact .inl (.trans a b c hab hbc)
        · exact .inr ⟨⟨x, hx, .trans a b x hab hbx⟩, hc⟩
      · rcases ihbc with hbc | ⟨-, hc⟩
        · exact .inr ⟨ha, y, hy, .trans c b y (.symm b c hbc) hby⟩
        · exact .inr ⟨ha, hc⟩
  · rintro (h | ⟨⟨x, hx, hax⟩, y, hy, hby⟩)
    · exact h.mono fun a b hab => .inl hab
    · have hax' : EqvGen (withClique R xs) a x := hax.mono fun a b hab => .inl hab
      have hby' : EqvGen (withClique R xs) b y := hby.mono fun a b hab => .inl hab
      exact .trans a x b hax' (.trans x y b (.rel x y (.inr ⟨hx, hy⟩)) (.symm b y hby'))

/-- A clique of one member joins nothing. -/
theorem eqvGen_withClique_singleton {c a b : α} :
    EqvGen (withClique R {c}) a b ↔ EqvGen R a b := by
  rw [eqvGen_withClique]
  constructor
  · rintro (h | ⟨⟨x, rfl, hax⟩, y, rfl, hby⟩)
    · exact h
    · exact .trans a y b hax (.symm b y hby)
  · exact .inl

variable [LinearOrder ι]

/-- `first a i`: the member `a` has entered under the label `i`.  `label` is
the label a member has now, if it has entered. -/
structure Labelling (R : α → α → Prop) (first : α → ι → Prop) (label : α → Option ι) : Prop where
  entered : ∀ a, (∃ e, label a = some e) ↔ ∃ i, first a i
  least : ∀ a e, label a = some e → IsLeast {i | ∃ b, EqvGen R a b ∧ first b i} e
  inj : ∀ a b i, first a i → first b i → a = b
  alone : ∀ a b, EqvGen R a b → a = b ∨ (∃ e, label a = some e) ∧ ∃ e, label b = some e

variable {first : α → ι → Prop} {label label' : α → Option ι}

/-- **Same label, same cluster.** -/
theorem Labelling.label_eq_iff (h : Labelling R first label) {a b : α} {e e' : ι}
    (ha : label a = some e) (hb : label b = some e') : e = e' ↔ EqvGen R a b := by
  have hla := h.least a e ha
  have hlb := h.least b e' hb
  constructor
  · rintro rfl
    obtain ⟨c, hac, hc⟩ := hla.1
    obtain ⟨d, hbd, hd⟩ := hlb.1
    obtain rfl := h.inj c d e hc hd
    exact .trans a c b hac (.symm b c hbd)
  · intro hab
    have hsets : {i | ∃ c, EqvGen R a c ∧ first c i} = {i | ∃ c, EqvGen R b c ∧ first c i} := by
      ext i
      constructor
      · rintro ⟨c, hac, hc⟩
        exact ⟨c, .trans b a c (.symm a b hab) hac, hc⟩
      · rintro ⟨c, hbc, hc⟩
        exact ⟨c, .trans a b c hab hbc, hc⟩
    rw [hsets] at hla
    exact hla.unique hlb

theorem Labelling.congr (h : Labelling R first label)
    (hR : ∀ a b, EqvGen R' a b ↔ EqvGen R a b) : Labelling R' first label where
  entered := h.entered
  least a e ha := by simpa only [hR] using h.least a e ha
  inj := h.inj
  alone a b hab := h.alone a b ((hR a b).mp hab)

/-- **Merging.**  Everything that carries the label of a member of `xs` gets the
least of these labels. -/
theorem Labelling.merge (h : Labelling R first label) {xs : Set α} {e0 : ι}
    (hxs : ∀ x ∈ xs, ∃ e, label x = some e) (he0 : IsLeast {e | ∃ x ∈ xs, label x = some e} e0)
    (hin : ∀ a e, label a = some e → (∃ x ∈ xs, label x = some e) → label' a = some e0)
    (hout : ∀ a e, label a = some e → (¬ ∃ x ∈ xs, label x = some e) → label' a = some e)
    (hnone : ∀ a, label a = none → label' a = none) :
    Labelling (withClique R xs) first label' := by
  -- a merge labels nobody new and takes no label away
  have hsome : ∀ a, (∃ e, label' a = some e) ↔ ∃ e, label a = some e := by
    intro a
    constructor
    · rintro ⟨e', he'⟩
      cases ha : label a with
      | none => rw [hnone a ha] at he'; cases he'
      | some e => exact ⟨e, rfl⟩
    · rintro ⟨e, he⟩
      by_cases hL : ∃ x ∈ xs, label x = some e
      · exact ⟨e0, hin a e he hL⟩
      · exact ⟨e, hout a e he hL⟩
  refine ⟨fun a => (hsome a).trans (h.entered a), fun a e' ha' => ?_, h.inj, fun a b hab => ?_⟩
  · obtain ⟨e, ha⟩ := (hsome a).mp ⟨e', ha'⟩
    by_cases hL : ∃ x ∈ xs, label x = some e
    · -- the class of `a` becomes the union of the classes of `xs`
      obtain rfl : e0 = e' := Option.some.inj ((hin a e ha hL).symm.trans ha')
      obtain ⟨x, hx, hxe⟩ := hL
      have hax : EqvGen R a x := (h.label_eq_iff ha hxe).mp rfl
      obtain ⟨⟨y, hy, hye⟩, hmin⟩ := he0
      refine ⟨?_, ?_⟩
      · obtain ⟨c, hyc, hc⟩ := (h.least y e0 hye).1
        exact ⟨c, eqvGen_withClique.mpr (.inr ⟨⟨x, hx, hax⟩, y, hy, .symm y c hyc⟩), hc⟩
      · rintro i ⟨c, hac, hc⟩
        obtain ⟨z, hz, hcz⟩ : ∃ z ∈ xs, EqvGen R c z := by
          rcases eqvGen_withClique.mp hac with hac | ⟨-, hcz⟩
          · exact ⟨x, hx, .trans c a x (.symm a c hac) hax⟩
          · exact hcz
        obtain ⟨ez, hez⟩ := hxs z hz
        exact (hmin ⟨z, hz, hez⟩).trans ((h.least z ez hez).2 ⟨c, .symm c z hcz, hc⟩)
    · -- no member of `xs` is in the class of `a`
      obtain rfl : e = e' := Option.some.inj ((hout a e ha hL).symm.trans ha')
      have hfar : ¬ ∃ x ∈ xs, EqvGen R a x := by
        rintro ⟨x, hx, hax⟩
        obtain ⟨ex, hex⟩ := hxs x hx
        exact hL ⟨x, hx, by rw [hex, (h.label_eq_iff ha hex).mpr hax]⟩
      have hclass : ∀ c, EqvGen (withClique R xs) a c ↔ EqvGen R a c := fun c => by
        rw [eqvGen_withClique, or_iff_left fun hc => hfar hc.1]
      simpa only [hclass] using h.least a e ha
  · rcases eqvGen_withClique.mp hab with hab | ⟨⟨x, hx, hax⟩, y, hy, hby⟩
    · exact (h.alone a b hab).imp_right fun hl => ⟨(hsome a).mpr hl.1, (hsome b).mpr hl.2⟩
    · refine .inr ⟨(hsome a).mpr ?_, (hsome b).mpr ?_⟩
      · rcases h.alone a x hax with rfl | hl
        · exact hxs a hx
        · exact hl.1
      · rcases h.alone b y hby with rfl | hl
        · exact hxs b hy
        · exact hl.1

/-- **Entering.**  A new member gets a label above all labels given so far. -/
theorem Labelling.enter [DecidableEq α] (h : Labelling R first label) {a : α} {i : ι}
    (ha : label a = none) (hi : ∀ b j, first b j → j < i) :
    Labelling R (fun b j => first b j ∨ b = a ∧ j = i)
      (fun b => if b = a then some i else label b) := by
  have hnot : ∀ j, ¬ first a j := by
    intro j hj
    obtain ⟨e, he⟩ := (h.entered a).mpr ⟨j, hj⟩
    rw [ha] at he
    cases he
  -- so far `a` is related to nobody, since a relation to another would label it
  have hself : ∀ b, EqvGen R a b → a = b := by
    intro b hab
    rcases h.alone a b hab with hab | ⟨⟨e, he⟩, -⟩
    · exact hab
    · rw [ha] at he
      cases he
  -- the old labels stay least because `i` is above all of them
  refine ⟨fun b => ?_, fun b e hb => ?_, ?_, fun b c hbc => ?_⟩
  · by_cases hba : b = a
    · subst hba
      simp
    · simp only [hba, if_false, false_and, or_false]
      exact h.entered b
  · by_cases hba : b = a
    · subst hba
      rw [if_pos rfl] at hb
      obtain rfl := Option.some.inj hb
      refine ⟨⟨b, .refl b, .inr ⟨rfl, rfl⟩⟩, ?_⟩
      rintro j ⟨c, hbc, hc⟩
      obtain rfl := hself c hbc
      rcases hc with hc | ⟨-, rfl⟩
      · exact absurd hc (hnot j)
      · exact le_refl _
    · rw [if_neg hba] at hb
      obtain ⟨⟨c, hbc, hc⟩, hmin⟩ := h.least b e hb
      refine ⟨⟨c, hbc, .inl hc⟩, ?_⟩
      rintro j ⟨d, hbd, hd | ⟨-, rfl⟩⟩
      · exact hmin ⟨d, hbd, hd⟩
      · exact (hi c e hc).le
  · intro b c j hb hc
    rcases hb with hb | ⟨rfl, rfl⟩
    · rcases hc with hc | ⟨-, rfl⟩
      · exact h.inj b c j hb hc
      · exact absurd (hi b j hb) (lt_irrefl j)
    · rcases hc with hc | ⟨rfl, -⟩
      · exact absurd (hi c j hc) (lt_irrefl j)
      · rfl
  · refine (h.alone b c hbc).imp_right ?_
    rintro ⟨⟨e, he⟩, ⟨e', he'⟩⟩
    constructor
    · by_cases hba : b = a
      · exact ⟨i, if_pos hba⟩
      · exact ⟨e, (if_neg hba).trans he⟩
    · by_cases hca : c = a
      · exact ⟨i, if_pos hca⟩
      · exact ⟨e', (if_neg hca).trans he'⟩

end Clusters
