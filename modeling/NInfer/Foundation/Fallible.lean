import Mathlib

/-!
# Functions that refuse their input

Pure code that throws returns an `Except`.  A check that throws is `refuseIf`, and what a call
guarantees is read off its success: `ok_bind_iff` takes a sequence apart, `refuseIf_bind_iff` a
sequence that starts with a check.  That a call does not throw is `Succeeds`, which is proved along
the sequence (`Succeeds.bind`).
-/

namespace NInfer

variable {ε α β : Type}

/-- `if (refused) { throw message; }`. -/
def refuseIf (refused : Prop) [Decidable refused] (message : ε) : Except ε Unit :=
  if refused then .error message else .ok ()

lemma ok_bind_iff {x : Except ε α} {f : α → Except ε β} {b : β} :
    (x >>= f) = .ok b ↔ ∃ a, x = .ok a ∧ f a = .ok b := by
  cases x with
  | error e => exact ⟨fun h => (by cases h), fun ⟨_, h, _⟩ => (by cases h)⟩
  | ok a => exact ⟨fun h => ⟨a, rfl, h⟩, fun ⟨_, h, hf⟩ => by cases h; exact hf⟩

lemma ok_pure_iff {a b : α} : (pure a : Except ε α) = .ok b ↔ a = b :=
  ⟨fun h => by cases h; rfl, fun h => by rw [h]; rfl⟩

variable {refused : Prop} {f : Unit → Except ε β} {as : List α}

lemma refuseIf_iff [Decidable refused] {message : ε} {u : Unit} :
    refuseIf refused message = .ok u ↔ ¬refused := by
  unfold refuseIf
  by_cases h : refused
  · rw [if_pos h]
    exact ⟨fun h => (by cases h), fun hn => absurd h hn⟩
  · rw [if_neg h]
    exact ⟨fun _ => h, fun _ => rfl⟩

lemma refuseIf_bind_iff [Decidable refused] {message : ε} {b : β} :
    (refuseIf refused message >>= f) = .ok b ↔ ¬refused ∧ f () = .ok b := by
  rw [ok_bind_iff]
  exact ⟨fun ⟨_, h, hf⟩ => ⟨refuseIf_iff.mp h, hf⟩, fun ⟨h, hf⟩ => ⟨(), refuseIf_iff.mpr h, hf⟩⟩

lemma error_of_refuseIf_bind [Decidable refused] {message e : ε}
    (h : (refuseIf refused message >>= f) = .error e) :
    e = message ∨ ¬refused ∧ f () = .error e := by
  unfold refuseIf at h
  by_cases hrefused : refused
  · rw [if_pos hrefused] at h
    exact .inl (Except.error.inj h).symm
  · rw [if_neg hrefused] at h
    exact .inr ⟨hrefused, h⟩

lemma ok_map_iff {x : Except ε α} {f : α → β} {b : β} :
    f <$> x = .ok b ↔ ∃ a, x = .ok a ∧ f a = b := by
  cases x with
  | error e => exact ⟨fun h => (by cases h), fun ⟨_, h, _⟩ => (by cases h)⟩
  | ok a => exact ⟨fun h => ⟨a, rfl, Except.ok.inj h⟩, fun ⟨_, h, hf⟩ => by cases h; rw [← hf]; rfl⟩

lemma ok_of_mem_toOption {x : Except ε α} {a : α} (h : a ∈ x.toOption) : x = .ok a := by
  cases x with
  | error message => cases h
  | ok b =>
    cases h
    rfl

lemma ok_none_of_any {x : Except ε (Option α)} (h : x.toOption.any (·.isNone) = true) :
    x = .ok none := by
  cases x with
  | error message => cases h
  | ok found =>
    cases found with
    | none => rfl
    | some a => cases h

/-- What every accepted step keeps, an accepted run keeps. -/
lemma foldlM_ok_induction {f : β → α → Except ε β} {P : β → Prop}
    (hstep : ∀ {b a b'}, P b → f b a = .ok b' → P b') {steps : List α} {b b' : β} (hb : P b)
    (h : steps.foldlM f b = .ok b') : P b' := by
  induction steps generalizing b with
  | nil => exact ok_pure_iff.mp h ▸ hb
  | cons a steps ih =>
    obtain ⟨b₁, hfirst, hrest⟩ := ok_bind_iff.mp h
    exact ih (hstep hb hfirst) hrest

/-- The call returns, and returns a value with `P`. -/
def Succeeds (x : Except ε α) (P : α → Prop) : Prop := ∃ a, x = .ok a ∧ P a

namespace Succeeds

variable {x : Except ε α} {P : α → Prop}

lemma pure {a : α} (h : P a) : Succeeds (Pure.pure a : Except ε α) P := ⟨a, rfl, h⟩

lemma bind {f : α → Except ε β} {Q : β → Prop} (hx : Succeeds x P)
    (hf : ∀ a, P a → Succeeds (f a) Q) : Succeeds (x >>= f) Q := by
  obtain ⟨a, rfl, ha⟩ := hx
  exact hf a ha

lemma refuse {refused : Prop} [Decidable refused] {message : ε} (h : ¬refused) :
    Succeeds (refuseIf refused message) fun _ => True :=
  ⟨(), refuseIf_iff.mpr h, trivial⟩

end Succeeds

/-! ## Calls for all elements of a list -/

/-- All calls succeed, with these results. -/
lemma mapM_ok_iff {f : α → Except ε β} {bs : List β} :
    as.mapM f = .ok bs ↔ List.Forall₂ (fun a b => f a = .ok b) as bs := by
  induction as generalizing bs with
  | nil =>
    rw [List.mapM_nil, ok_pure_iff, List.forall₂_nil_left_iff]
    exact eq_comm
  | cons a as ih =>
    rw [List.mapM_cons, ok_bind_iff, List.forall₂_cons_left_iff]
    constructor
    · rintro ⟨b, hb, h⟩
      obtain ⟨bs', hbs', h⟩ := ok_bind_iff.mp h
      exact ⟨b, bs', hb, ih.mp hbs', (ok_pure_iff.mp h).symm⟩
    · rintro ⟨b, bs', hb, hbs', rfl⟩
      exact ⟨b, hb, ok_bind_iff.mpr ⟨bs', ih.mpr hbs', rfl⟩⟩

lemma mapM_congr {f g : α → Except ε β} (h : ∀ a ∈ as, f a = g a) :
    as.mapM f = as.mapM g := by
  induction as with
  | nil => rfl
  | cons a as ih =>
    obtain ⟨ha, has⟩ := List.forall_mem_cons.mp h
    rw [List.mapM_cons, List.mapM_cons, ha, ih has]

/-- The partner of an element. -/
lemma forall₂_getElem? {R : α → β → Prop} {bs : List β} (h : List.Forall₂ R as bs) {i : ℕ} {a : α}
    (ha : as[i]? = some a) : ∃ b, bs[i]? = some b ∧ R a b := by
  induction h generalizing i with
  | nil => exact absurd ha (by simp)
  | cons hab _ ih =>
    match i with
    | 0 => exact ⟨_, rfl, by rwa [← Option.some.inj ha]⟩
    | i + 1 => exact ih (by simpa using ha)

end NInfer
