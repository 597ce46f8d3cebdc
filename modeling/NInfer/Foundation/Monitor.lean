import Mathlib

/-!
# Monitors

A monitor reads a log of actions one at a time and either moves on or refuses: `step : σ → α →
Option σ`.  A system keeps to a protocol when a monitor for the protocol accepts everything the
system logs.

`Monitor.runFrom` is the monitor along a log.  `runFrom_append_singleton` extends an accepted log by
one action, which is how a handler is shown to keep to the protocol; `runFrom_induction` carries an
invariant between the monitor's state and the log it has read, which is how a promise of the
protocol is read off; `exists_step_of_runFrom` looks at one action in the middle of a log.
`Latest p a log` says that `a` is the last action of the log among those that satisfy `p`.
-/

/-- A guarded action is taken exactly when its guard holds. -/
lemma NInfer.taken_iff {σ : Type} {c : Prop} [Decidable c] {s t : σ} :
    (if c then some s else none) = some t ↔ c ∧ s = t := by
  simp

namespace NInfer.Monitor

variable {σ α : Type} {step : σ → α → Option σ} {s t u : σ} {a : α} {log rest : List α}

/-- The state of a monitor after a log, if it accepts the log. -/
def runFrom (step : σ → α → Option σ) (s : σ) (log : List α) : Option σ := log.foldlM step s

@[simp] lemma runFrom_nil : runFrom step s [] = some s := rfl

lemma runFrom_cons : runFrom step s (a :: log) = some u ↔
    ∃ t, step s a = some t ∧ runFrom step t log = some u :=
  Option.bind_eq_some_iff

lemma runFrom_append : runFrom step s (log ++ rest) = some u ↔
    ∃ t, runFrom step s log = some t ∧ runFrom step t rest = some u := by
  unfold runFrom
  rw [List.foldlM_append]
  exact Option.bind_eq_some_iff

lemma runFrom_append_singleton (h : runFrom step s log = some t) (hstep : step t a = some u) :
    runFrom step s (log ++ [a]) = some u :=
  runFrom_append.mpr ⟨t, h, runFrom_cons.mpr ⟨u, hstep, rfl⟩⟩

/-- What holds at the start and survives every accepted action holds after an accepted log. -/
lemma runFrom_induction {P : σ → List α → Prop} (hstart : P s [])
    (hstep : ∀ log t a u, P t log → step t a = some u → P u (log ++ [a]))
    (h : runFrom step s log = some t) : P t log := by
  induction log using List.reverseRecOn generalizing t with
  | nil => exact Option.some.inj h ▸ hstart
  | append_singleton log a ih =>
    obtain ⟨r, hlog, hrest⟩ := runFrom_append.mp h
    obtain ⟨u, hu, hnil⟩ := runFrom_cons.mp hrest
    exact Option.some.inj hnil ▸ hstep log r a u (ih hlog) hu

/-- A monitor that accepts a log accepts each action of it, after what came before. -/
lemma exists_step_of_runFrom (h : runFrom step s (log ++ a :: rest) = some u) :
    ∃ t v, runFrom step s log = some t ∧ step t a = some v := by
  obtain ⟨t, hlog, hrest⟩ := runFrom_append.mp h
  obtain ⟨v, hv, -⟩ := runFrom_cons.mp hrest
  exact ⟨t, v, hlog, hv⟩

/-- The action occurs in the log, and nothing after it satisfies `p`. -/
def Latest (p : α → Prop) (a : α) (log : List α) : Prop :=
  ∃ before after, log = before ++ a :: after ∧ ∀ b ∈ after, ¬p b

variable {p : α → Prop} {b : α}

lemma Latest.append_self : Latest p a (log ++ [a]) := ⟨log, [], rfl, by simp⟩

lemma Latest.append_singleton (h : Latest p a log) (hb : ¬p b) : Latest p a (log ++ [b]) := by
  obtain ⟨before, after, rfl, hafter⟩ := h
  refine ⟨before, after ++ [b], by simp, fun d hd => ?_⟩
  rcases List.mem_append.mp hd with hd | hd
  · exact hafter d hd
  · exact List.mem_singleton.mp hd ▸ hb

end NInfer.Monitor
