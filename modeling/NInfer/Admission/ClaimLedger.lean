import NInfer.Admission.HostClaims

/-!
# The ledger of claims

`Ledger` is the book a careful owner of claims would keep: at most one claim per tier is open, a
release or a consumption closes the claim that is open, a request leaves with nothing open, and an
entry is dropped only if the same attempt captured it or if its restore was found invalid.

A log that the ledger accepts balances: `claimed_eq` counts claims against settlements, and
`remembers` says that what allows an entry to be dropped is really in the log.
-/

namespace NInfer.HostClaims

open Monitor

/-! ## The ledger -/

/-- Claims, as they are meant to be. -/
structure Ledger where
  /-- The open claim on each tier: the request and the entry. -/
  held : Tier → Option (ℕ × ℕ) := fun _ => none
  /-- The latest claim on each tier. -/
  source : Tier → Option (ℕ × ℕ) := fun _ => none
  /-- What the current attempt captured. -/
  captured : List ℕ := []
  /-- The latest classification of a failed restore. -/
  failed : Option (ℕ × CacheRestoreFailureKind) := none

namespace Ledger

def setHeld (c : Ledger) (t : Tier) (claim : Option (ℕ × ℕ)) : Ledger :=
  { c with held := Function.update c.held t claim }

/-- Open a claim. -/
def claim (c : Ledger) (r : ℕ) (t : Tier) (i : ℕ) : Ledger :=
  { c.setHeld t (some (r, i)) with source := Function.update c.source t (some (r, i)) }

/-- The entry on a tier that was found invalid. -/
def invalidSource (c : Ledger) (t : Tier) : Option ℕ :=
  match c.source t, c.failed with
  | some (r, i), some (r', .invalidSource) => if r = r' then some i else none
  | _, _ => none

/-- Whether an entry may be dropped. -/
def mayDrop (c : Ledger) (t : Tier) (i : ℕ) : Prop :=
  t = .ram ∧ i ∈ c.captured ∨ c.invalidSource t = some i

instance (c : Ledger) (t : Tier) (i : ℕ) : Decidable (c.mayDrop t i) :=
  inferInstanceAs (Decidable (_ ∨ _))

/-- Close a claim. -/
def settle (c : Ledger) (r : ℕ) (t : Tier) (i : ℕ) : Option Ledger :=
  if c.held t = some (r, i) then some (c.setHeld t none) else none

/-- Nothing is open for a request. -/
def Clear (c : Ledger) (r : ℕ) : Prop :=
  (c.held .ram).map Prod.fst ≠ some r ∧ (c.held .disk).map Prod.fst ≠ some r

instance (c : Ledger) (r : ℕ) : Decidable (c.Clear r) := inferInstanceAs (Decidable (_ ∧ _))

/-- Which actions are allowed. -/
def step (c : Ledger) : Action → Option Ledger
  | .begins => some { c with captured := [] }
  | .captures i => some { c with captured := i :: c.captured }
  | .claims r t i => if c.held t = none then some (c.claim r t i) else none
  | .releases r t i => c.settle r t i
  | .consumes r t i => c.settle r t i
  | .fails r kind => some { c with failed := some (r, kind) }
  | .drops t i => if c.mayDrop t i then some c else none
  | .leaves r => if c.Clear r then some c else none
  | .stops => if c.held .ram = none ∧ c.held .disk = none then some c else none

/-- The ledger after a log, if the log keeps to it. -/
def run (log : List Action) : Option Ledger := runFrom step {} log

variable {c c' : Ledger} {r i : ℕ} {t t' : Tier} {log : List Action}

@[simp] lemma setHeld_held_self (claim : Option (ℕ × ℕ)) : (c.setHeld t claim).held t = claim :=
  Function.update_self ..

lemma setHeld_held_of_ne (claim : Option (ℕ × ℕ)) (h : t' ≠ t) :
    (c.setHeld t claim).held t' = c.held t' :=
  Function.update_of_ne h ..

lemma setHeld_none_of_none (h : c.held t = none) : c.setHeld t none = c := by
  unfold setHeld
  rw [← h, Function.update_eq_self]

@[simp] lemma claim_held : (c.claim r t i).held = (c.setHeld t (some (r, i))).held := rfl

@[simp] lemma claim_source_self : (c.claim r t i).source t = some (r, i) := Function.update_self ..

lemma claim_source_of_ne (h : t' ≠ t) : (c.claim r t i).source t' = c.source t' :=
  Function.update_of_ne h ..

lemma invalidSource_eq_some : c.invalidSource t = some i ↔
    ∃ r, c.source t = some (r, i) ∧ c.failed = some (r, .invalidSource) := by
  unfold invalidSource
  split
  next r j r' hsource hfailed =>
    rw [hsource, hfailed]
    split_ifs with h
    · subst h
      simp
    · simp only [Option.some.injEq, Prod.mk.injEq, and_true, false_iff]
      rintro ⟨q, ⟨rfl, -⟩, rfl⟩
      exact h rfl
  next hother =>
    simp only [reduceCtorEq, false_iff]
    rintro ⟨r, hsource, hfailed⟩
    exact hother r i r hsource hfailed

lemma clear_of_forall (h : ∀ t, c.held t = none) : c.Clear r := by
  simp [Clear, h]

lemma Clear.not_held (h : c.Clear r) : ∀ t i, c.held t ≠ some (r, i) := by
  rintro (_ | _) i hheld
  · exact h.1 (by rw [hheld]; rfl)
  · exact h.2 (by rw [hheld]; rfl)

lemma clear_iff : c.Clear r ↔ ∀ t i, c.held t ≠ some (r, i) := by
  refine ⟨Clear.not_held, fun h => ⟨?_, ?_⟩⟩ <;>
  · rw [Ne, Option.map_eq_some_iff]
    rintro ⟨⟨q, i⟩, hheld, rfl⟩
    exact h _ i hheld

/-! ### What the ledger promises -/

/-- How often an entry was claimed for a request. -/
def claimed (r : ℕ) (t : Tier) (i : ℕ) (log : List Action) : ℕ := log.count (.claims r t i)

/-- How often such a claim was released or consumed. -/
def settled (r : ℕ) (t : Tier) (i : ℕ) (log : List Action) : ℕ :=
  log.count (.releases r t i) + log.count (.consumes r t i)

lemma held_settle {r' i' : ℕ} {t' : Tier} (h : c.settle r' t' i' = some c') :
    c.held t' = some (r', i') ∧ c' = c.setHeld t' none := by
  unfold settle at h
  split_ifs at h with hheld
  exact ⟨hheld, (Option.some.inj h).symm⟩

/-- Claims and settlements of an entry balance up to the claim that is open. -/
lemma claimed_eq (h : run log = some c) (r : ℕ) (t : Tier) (i : ℕ) :
    claimed r t i log = settled r t i log + if c.held t = some (r, i) then 1 else 0 := by
  refine runFrom_induction (P := fun c log => claimed r t i log =
    settled r t i log + if c.held t = some (r, i) then 1 else 0) rfl
    (fun log c a c' ih hstep => ?_) h
  simp only [claimed, settled, List.count_append, List.count_singleton] at ih ⊢
  -- a settlement closes exactly the claim it names
  have hsettles : ∀ {r' t' i'}, c.settle r' t' i' = some c' →
      (if c.held t = some (r, i) then 1 else 0) =
        (if (r' = r ∧ t' = t ∧ i' = i) then 1 else 0) +
          if c'.held t = some (r, i) then 1 else 0 := by
    intro r' t' i' hsettle
    obtain ⟨hheld, rfl⟩ := held_settle hsettle
    by_cases ht : t' = t
    · subst ht
      simp [hheld]
    · rw [setHeld_held_of_ne _ (Ne.symm ht)]
      simp [ht]
  cases a with
  | claims r' t' i' =>
    simp only [step] at hstep
    split_ifs at hstep with hnone
    obtain rfl := Option.some.inj hstep
    by_cases ht : t' = t
    · subst ht
      simp [hnone] at ih ⊢
      omega
    · rw [claim_held, setHeld_held_of_ne _ (Ne.symm ht)]
      simpa [ht] using ih
  | releases r' t' i' =>
    have := hsettles hstep
    simp only [beq_iff_eq, Action.releases.injEq, reduceCtorEq, if_false] at this ⊢
    omega
  | consumes r' t' i' =>
    have := hsettles hstep
    simp only [beq_iff_eq, Action.consumes.injEq, reduceCtorEq, if_false] at this ⊢
    omega
  | drops | leaves | stops =>
    simp only [step] at hstep
    split_ifs at hstep
    obtain rfl := Option.some.inj hstep
    simpa using ih
  | begins | captures | fails =>
    obtain rfl := Option.some.inj hstep
    simpa using ih

/-- Claims on a tier. -/
def IsClaimOn (t : Tier) (a : Action) : Prop := ∃ r i, a = .claims r t i

/-- Classifications of failed restores. -/
def IsClassification (a : Action) : Prop := ∃ r kind, a = .fails r kind

/-- What the ledger remembers is what the log says last. -/
structure Remembers (c : Ledger) (log : List Action) : Prop where
  source : ∀ t r i, c.source t = some (r, i) → Latest (IsClaimOn t) (.claims r t i) log
  failed : ∀ r kind, c.failed = some (r, kind) → Latest IsClassification (.fails r kind) log
  captured : ∀ i ∈ c.captured, Latest (· = .begins) (.captures i) log

lemma Remembers.append (h : Remembers c log) {a : Action} (hclaim : ∀ t, ¬IsClaimOn t a)
    (hfail : ¬IsClassification a) (hbegin : a ≠ .begins) (hsource : c'.source = c.source)
    (hfailed : c'.failed = c.failed) (hcaptured : c'.captured = c.captured) :
    Remembers c' (log ++ [a]) where
  source t r i hs := (h.source t r i (hsource ▸ hs)).append_singleton (hclaim t)
  failed r kind hf := (h.failed r kind (hfailed ▸ hf)).append_singleton hfail
  captured i hi := (h.captured i (hcaptured ▸ hi)).append_singleton hbegin

lemma remembers (h : run log = some c) : Remembers c log := by
  refine runFrom_induction (P := Remembers) ⟨by simp, by simp, by simp⟩
    (fun log c a c' ih hstep => ?_) h
  have hsettles : ∀ {r' t' i'}, c.settle r' t' i' = some c' →
      c'.source = c.source ∧ c'.failed = c.failed ∧ c'.captured = c.captured := by
    intro r' t' i' hsettle
    obtain ⟨-, rfl⟩ := held_settle hsettle
    exact ⟨rfl, rfl, rfl⟩
  cases a with
  | begins =>
    obtain rfl := Option.some.inj hstep
    refine ⟨fun t r i hs => ?_, fun r kind hf => ?_, by simp⟩
    · exact (ih.source t r i hs).append_singleton (by simp [IsClaimOn])
    · exact (ih.failed r kind hf).append_singleton (by simp [IsClassification])
  | captures j =>
    obtain rfl := Option.some.inj hstep
    refine ⟨fun t r i hs => ?_, fun r kind hf => ?_, fun i hi => ?_⟩
    · exact (ih.source t r i hs).append_singleton (by simp [IsClaimOn])
    · exact (ih.failed r kind hf).append_singleton (by simp [IsClassification])
    · rcases List.mem_cons.mp hi with rfl | hi
      · exact Latest.append_self
      · exact (ih.captured i hi).append_singleton (by simp)
  | claims r' t' i' =>
    simp only [step] at hstep
    split_ifs at hstep
    obtain rfl := Option.some.inj hstep
    refine ⟨fun t r i hs => ?_, fun r kind hf => ?_, fun i hi => ?_⟩
    · by_cases ht : t = t'
      · subst ht
        rw [claim_source_self, Option.some.injEq, Prod.mk.injEq] at hs
        obtain ⟨rfl, rfl⟩ := hs
        exact Latest.append_self
      · rw [claim_source_of_ne ht] at hs
        refine (ih.source t r i hs).append_singleton ?_
        rintro ⟨q, j, hq⟩
        simp only [Action.claims.injEq] at hq
        exact ht hq.2.1.symm
    · exact (ih.failed r kind hf).append_singleton (by simp [IsClassification])
    · exact (ih.captured i hi).append_singleton (by simp)
  | fails r' kind' =>
    obtain rfl := Option.some.inj hstep
    refine ⟨fun t r i hs => ?_, fun r kind hf => ?_, fun i hi => ?_⟩
    · exact (ih.source t r i hs).append_singleton (by simp [IsClaimOn])
    · obtain ⟨rfl, rfl⟩ := hf
      exact Latest.append_self
    · exact (ih.captured i hi).append_singleton (by simp)
  | releases | consumes =>
    obtain ⟨hs, hf, hc⟩ := hsettles hstep
    exact ih.append (by simp [IsClaimOn]) (by simp [IsClassification]) (by simp) hs hf hc
  | drops | leaves | stops =>
    simp only [step] at hstep
    split_ifs at hstep
    obtain rfl := Option.some.inj hstep
    exact ih.append (by simp [IsClaimOn]) (by simp [IsClassification]) (by simp) rfl rfl rfl

end Ledger

end NInfer.HostClaims
