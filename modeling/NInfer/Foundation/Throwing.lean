import Mathlib

/-!
# Stateful programs whose writes survive a throw

The code modelled in this development mutates objects in place and reports failure by throwing.
A throw unwinds the call but undoes none of the writes made before it, so the value of a program
is a function from a state to an outcome *and* a state, on both exits: `ExceptT ε (StateM σ)`.

`Throwing.wp m Q E s` is the weakest precondition of `m` at `s` for a normal postcondition `Q` and
an exceptional one `E`.  The `simp` set below computes it through `pure`, `>>=`, `throw`, `get`,
`modify` and the guard `throwIf`; `wp_tryCatch` is the rule for a handler that cleans up, and
`wp_forEach` is the loop rule.  `Keeps I m` is the special case used throughout: `m` preserves `I`
whichever way it exits.
-/

namespace NInfer

/-- A program over states `σ` that returns an `α` or throws an `ε`; the state reached is kept on
both exits. -/
abbrev Throwing (σ ε α : Type) := ExceptT ε (StateM σ) α

namespace Throwing

variable {σ ε α β : Type}

/-- Run a program: the outcome, and the state it leaves behind. -/
def exec (m : Throwing σ ε α) (s : σ) : Except ε α × σ := m s

/-- The state left behind by a program, thrown or not. -/
def after (m : Throwing σ ε α) (s : σ) : σ := (m.exec s).2

/-- `if (c) { throw e; }`. -/
def throwIf (c : Prop) [Decidable c] (e : ε) : Throwing σ ε Unit :=
  if c then throw e else pure ()

/-- A loop over a list whose body may throw, leaving the loop. -/
def forEach : List α → (α → Throwing σ ε Unit) → Throwing σ ε Unit
  | [], _ => pure ()
  | x :: xs, body => body x >>= fun _ => forEach xs body

/-- The outcome of a call that changes no state; its exceptions are wrapped by `f`. -/
def ofExcept {δ : Type} (f : δ → ε) : Except δ α → Throwing σ ε α
  | .ok a => pure a
  | .error e => throw (f e)

/-- Weakest precondition of `m` for the normal postcondition `Q` and the exceptional one `E`. -/
def wp (m : Throwing σ ε α) (Q : α → σ → Prop) (E : ε → σ → Prop) (s : σ) : Prop :=
  match m.exec s with
  | (.ok a, s') => Q a s'
  | (.error e, s') => E e s'

variable {Q : α → σ → Prop} {E : ε → σ → Prop} {s : σ}

@[simp] lemma wp_pure (a : α) : wp (pure a : Throwing σ ε α) Q E s ↔ Q a s := Iff.rfl

@[simp] lemma wp_throw (e : ε) : wp (throw e : Throwing σ ε α) Q E s ↔ E e s := Iff.rfl

@[simp] lemma wp_get {Q : σ → σ → Prop} :
    wp (get : Throwing σ ε σ) Q E s ↔ Q s s := Iff.rfl

@[simp] lemma wp_modify (f : σ → σ) {Q : Unit → σ → Prop} :
    wp (modify f : Throwing σ ε Unit) Q E s ↔ Q () (f s) := Iff.rfl

@[simp] lemma wp_bind (m : Throwing σ ε α) (f : α → Throwing σ ε β) {Q : β → σ → Prop} :
    wp (m >>= f) Q E s ↔ wp m (fun a => wp (f a) Q E) E s := by
  have hrun : exec (m >>= f) s =
      match m.exec s with
      | (.ok a, s') => (f a).exec s'
      | (.error e, s') => (.error e, s') := by
    show (ExceptT.bindCont f (m s).1) (m s).2 = _
    unfold exec
    rcases m s with ⟨_ | _, _⟩ <;> rfl
  unfold wp
  rw [hrun]
  rcases m.exec s with ⟨_ | _, _⟩ <;> rfl

lemma wp_ite (c : Prop) [Decidable c] (m n : Throwing σ ε α) :
    wp (if c then m else n) Q E s ↔ (c → wp m Q E s) ∧ (¬c → wp n Q E s) := by
  by_cases h : c <;> simp [h]

@[simp] lemma wp_throwIf (c : Prop) [Decidable c] (e : ε) {Q : Unit → σ → Prop} :
    wp (throwIf c e) Q E s ↔ (c → E e s) ∧ (¬c → Q () s) := by
  rw [throwIf, wp_ite, wp_throw, wp_pure]

@[simp] lemma wp_ofExcept {δ : Type} (f : δ → ε) (x : Except δ α) :
    wp (ofExcept f x) Q E s ↔ (∀ a, x = .ok a → Q a s) ∧ ∀ e, x = .error e → E (f e) s := by
  cases x <;> simp [ofExcept]

/-- A handler runs in the state its exception left behind. -/
lemma wp_tryCatch (m : Throwing σ ε α) (handler : ε → Throwing σ ε α) :
    wp (tryCatch m handler) Q E s ↔ wp m Q (fun e => wp (handler e) Q E) s := by
  have hrun : exec (tryCatch m handler) s =
      match m.exec s with
      | (.ok a, s') => (.ok a, s')
      | (.error e, s') => (handler e).exec s' := by
    show (ExceptT.tryCatch m handler) s = _
    unfold exec ExceptT.tryCatch
    show (match (m s).1 with
      | .ok a => (pure (.ok a) : StateM σ (Except ε α))
      | .error e => handler e) (m s).2 = _
    rcases m s with ⟨_ | _, _⟩ <;> rfl
  unfold wp
  rw [hrun]
  rcases m.exec s with ⟨_ | _, _⟩ <;> rfl

variable {m : Throwing σ ε α} {body : α → Throwing σ ε Unit} {I : σ → Prop} {Q' : α → σ → Prop}

lemma wp_mono {E' : ε → σ → Prop} (h : wp m Q E s) (hQ : ∀ a s', Q a s' → Q' a s')
    (hE : ∀ e s', E e s' → E' e s') :
    wp m Q' E' s := by
  unfold wp at h ⊢
  split at h
  · exact hQ _ _ h
  · exact hE _ _ h

lemma wp_imp (h : wp m Q E s) (hQ : ∀ a s', Q a s' → Q' a s') : wp m Q' E s :=
  wp_mono h hQ fun _ _ he => he

/-- The loop rule: an invariant kept by every iteration holds after the loop. -/
lemma wp_forEach (xs : List α) (hbody : ∀ x ∈ xs, ∀ s, I s → wp (body x) (fun _ => I) E s)
    (hs : I s) :
    wp (forEach xs body) (fun _ => I) E s := by
  induction xs generalizing s with
  | nil => exact hs
  | cons x xs ih =>
    rw [forEach, wp_bind]
    have hx := hbody x List.mem_cons_self s hs
    refine wp_imp hx fun _ s' hs' => ?_
    exact ih (fun y hy => hbody y (List.mem_cons_of_mem _ hy)) hs'

@[simp] lemma wp_discard (m : Throwing σ ε α) {Q : Unit → σ → Prop} :
    wp (discard m) Q E s ↔ wp m (fun _ => Q ()) E s := by
  have hbind : discard m = m >>= fun _ => pure () := map_eq_pure_bind (fun _ => ()) m
  rw [hbind, wp_bind]
  rfl

lemma wp_after (h : wp m (fun _ => I) (fun _ => I) s) :
    I (m.after s) := by
  unfold wp at h
  unfold after
  split at h <;> simp_all

/-- `m` preserves `I` on both exits. -/
def Keeps (I : σ → Prop) (m : Throwing σ ε α) : Prop :=
  ∀ s, I s → wp m (fun _ => I) (fun _ => I) s

end Throwing

end NInfer
