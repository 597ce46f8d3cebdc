import NInfer.Prefill.Suspension

/-!
# Suspended prefills resume

`Sound` ties the executor to the protocol: after every handler the log has been accepted, and the
protocol's owner and suspended owner are the executor's.  The handlers of a pass are peeled one by
one; each lemma says what one of them does to `Sound`.

Two more facts are carried for the sake of progress.  While an owner is suspended, the admission in
progress and the prefill it leads to are short, so the short request is never paced and never
restored from a host tier: every pass then brings the resumption closer (`distance`), except that
copies may be waited for.
-/

namespace NInfer.Suspension

open Prefill

variable {n : ℕ} {past : List (Action n)} {e : Executor} {p : Protocol n} {s : State n}

/-- The lane holds a staged prefill. -/
def State.Prefilling (s : State n) (lane : Fin n) : Prop :=
  ∃ staged, s.slots lane = some (.prefilling staged)

/-- The executor after a log that goes on from `past` and keeps to the protocol. -/
structure Sound (past : List (Action n)) (e : Executor) (p : Protocol n) (s : State n) :
    Prop where
  accepted : Protocol.Accepts past s.log p
  owner : p.owner = s.prefillLane
  suspended : p.suspended = s.suspendedPrefillLane
  pass : s.suspendedPrefillLane ≠ none → ∀ hold ∈ s.copyHold, p.pass = .bound hold.lane
  owes : ∀ a, p.owes = some a →
    (s.suspendedPrefillLane = some a ∧ s.suspendedPrefillMustAdvance = true) ∨
      (s.prefillLane = some a ∧ s.prefillInterruptible = false)
  owner_prefilling : ∀ a, s.prefillLane = some a → s.Prefilling a
  suspended_prefilling : ∀ a, s.suspendedPrefillLane = some a →
    s.prefillSuspendable a = true ∧ s.prefillLane ≠ some a
  held : ∀ hold ∈ s.copyHold, s.slots hold.lane = some .held ∧ s.prefillLane = none
  guest_hold : s.suspendedPrefillLane ≠ none → ∀ hold ∈ s.copyHold,
    hold.hostHit = false ∧ hold.recoveryBase = false ∧ hold.restoreFailed = false ∧
      remainingTokens (stagedAt hold.plan) < e.mixedForwardMinTokens
  guest_owner : s.suspendedPrefillLane ≠ none → ∀ b, s.prefillLane = some b →
    s.prefillRemainingTokens b < e.mixedForwardMinTokens
  stable : s.stableDecodeEpoch = true → s.suspendedPrefillLane = none

/-- The log has been accepted so far. -/
abbrev Accepted (past : List (Action n)) (e : Executor) (s : State n) : Prop :=
  ∃ p, Sound past e p s

/-! ## Lanes that own nothing -/

/-- The lane takes part in neither ownership nor admission. -/
structure State.Idle (s : State n) (lane : Fin n) : Prop where
  owner : s.prefillLane ≠ some lane
  suspended : s.suspendedPrefillLane ≠ some lane
  held : ∀ hold ∈ s.copyHold, hold.lane ≠ lane

section Frame

variable {lane : Fin n}

lemma State.exists_of_prefillSuspendable (h : s.prefillSuspendable lane = true) :
    ∃ staged, s.slots lane = some (.prefilling staged) ∧
      staged.plan.prompt.shape.hasMedia = false := by
  unfold prefillSuspendable at h
  split at h
  · next staged hslot => exact ⟨staged, hslot, of_decide_eq_true h⟩
  · cases h

lemma State.prefillSuspendable_congr {s' : State n} (h : s'.slots lane = s.slots lane) :
    s'.prefillSuspendable lane = s.prefillSuspendable lane := by
  unfold prefillSuspendable
  rw [h]

lemma State.prefillRemainingTokens_congr {s' : State n} (h : s'.slots lane = s.slots lane) :
    s'.prefillRemainingTokens lane = s.prefillRemainingTokens lane := by
  unfold prefillRemainingTokens
  rw [h]

section

variable (h : Sound past e p s)

include h

/-- A lane whose occupant neither prefills nor is held owns nothing. -/
lemma Sound.idle (lane : Fin n) (hprefilling : ∀ staged, s.slots lane ≠ some (.prefilling staged))
    (hheld : s.slots lane ≠ some .held) : s.Idle lane where
  owner howner := by
    obtain ⟨staged, hslot⟩ := h.owner_prefilling lane howner
    exact hprefilling staged hslot
  suspended hsuspended := by
    obtain ⟨staged, hslot, -⟩ :=
      State.exists_of_prefillSuspendable (h.suspended_prefilling lane hsuspended).1
    exact hprefilling staged hslot
  held hold hhold := by
    rintro rfl
    exact hheld (h.held hold hhold).1

lemma Sound.owner_ne_held {hold : CopyHold n} (hhold : hold ∈ s.copyHold) :
    s.suspendedPrefillLane ≠ some hold.lane := by
  intro hsuspended
  obtain ⟨staged, hslot, -⟩ :=
    State.exists_of_prefillSuspendable (h.suspended_prefilling _ hsuspended).1
  rw [(h.held hold hhold).1] at hslot
  cases hslot

/-- While a prefill runs, no admission is in progress. -/
lemma Sound.noHold (howner : s.prefillLane = some lane) : s.copyHold = none := by
  rw [Option.eq_none_iff_forall_not_mem]
  intro hold hhold
  have hnone := (h.held hold hhold).2
  rw [howner] at hnone
  cases hnone

/-- What happens in a lane that owns nothing does not matter. -/
lemma Sound.update_idle (hidle : s.Idle lane) (occupant : Option Occupant) :
    Sound past e p { s with slots := Function.update s.slots lane occupant } := by
  have hslot : ∀ other, other ≠ lane →
      Function.update s.slots lane occupant other = s.slots other :=
    fun other hne => Function.update_of_ne hne _ _
  have howner : ∀ a, s.prefillLane = some a → a ≠ lane := by
    rintro a ha rfl
    exact hidle.owner ha
  have hsuspended : ∀ a, s.suspendedPrefillLane = some a → a ≠ lane := by
    rintro a ha rfl
    exact hidle.suspended ha
  refine ⟨h.accepted, h.owner, h.suspended, h.pass, h.owes, fun a ha => ?_, fun a ha => ?_,
    fun hold hhold => ?_, h.guest_hold, fun hs b hb => ?_, h.stable⟩
  · obtain ⟨staged, hstaged⟩ := h.owner_prefilling a ha
    exact ⟨staged, (hslot a (howner a ha)).trans hstaged⟩
  · refine ⟨?_, (h.suspended_prefilling a ha).2⟩
    rw [State.prefillSuspendable_congr (hslot a (hsuspended a ha))]
    exact (h.suspended_prefilling a ha).1
  · exact ⟨(hslot _ (hidle.held hold hhold)).trans (h.held hold hhold).1, (h.held hold hhold).2⟩
  · rw [State.prefillRemainingTokens_congr (hslot b (howner b hb))]
    exact h.guest_owner hs b hb

lemma Sound.vacate (hidle : s.Idle lane) : Accepted past e (s.vacate lane) := by
  have hframe := h.update_idle hidle none
  have hstep : p.step (.leaves lane) = some { p with owes := Protocol.clear p.owes lane } := by
    have howner : p.owner ≠ some lane := h.owner ▸ hidle.owner
    have hsuspended : p.suspended ≠ some lane := h.suspended ▸ hidle.suspended
    simp only [Protocol.step, if_pos howner, Protocol.clear_of_ne hsuspended]
  exact ⟨_, { hframe with
    accepted := h.accepted.step hstep
    owes := fun a ha => h.owes a (Protocol.clear_eq_some.mp ha).1 }⟩

/-- `retire_request` also forgets a suspended owner. -/
lemma Sound.retireRequest (howner : s.prefillLane ≠ some lane)
    (hheld : ∀ hold ∈ s.copyHold, hold.lane ≠ lane) : Accepted past e (s.retireRequest lane) := by
  by_cases hsuspended : s.suspendedPrefillLane = some lane
  · -- Without a suspended owner nothing is asked of the admission in progress.
    have hforgets : Sound past e { p with suspended := none, owes := Protocol.clear p.owes lane }
        { s.vacate lane with suspendedPrefillLane := none } := by
      refine ⟨h.accepted.step ?_, h.owner, rfl, fun hs => absurd rfl hs,
        fun a ha => ?_, fun a ha => ?_, fun a ha => (by cases ha), fun hold hhold => ?_,
        fun hs => absurd rfl hs, fun hs => absurd rfl hs, fun _ => rfl⟩
      · have hne : p.owner ≠ some lane := h.owner ▸ howner
        simp [Protocol.step, hne, h.suspended, hsuspended, Protocol.clear]
      · obtain ⟨howes, hne⟩ := Protocol.clear_eq_some.mp ha
        rcases h.owes a howes with ⟨hs, -⟩ | hp
        · exact absurd (Option.some.inj (hs.symm.trans hsuspended)) hne
        · exact .inr hp
      · obtain ⟨staged, hstaged⟩ := h.owner_prefilling a ha
        have hne : a ≠ lane := by
          rintro rfl
          exact howner ha
        exact ⟨staged, (Function.update_of_ne hne _ _).trans hstaged⟩
      · exact ⟨(Function.update_of_ne (hheld hold hhold) _ _).trans (h.held hold hhold).1,
          (h.held hold hhold).2⟩
    refine ⟨{ p with suspended := none, owes := Protocol.clear p.owes lane }, ?_⟩
    rw [State.retireRequest, if_pos hsuspended]
    exact hforgets
  · obtain ⟨p', hp'⟩ := h.vacate ⟨howner, hsuspended, hheld⟩
    refine ⟨p', ?_⟩
    rw [State.retireRequest, if_neg hsuspended]
    exact hp'

lemma Sound.dropHold : Sound past e p { s with copyHold := none } :=
  { h with
    pass := fun _ hold hhold => (by cases hhold)
    held := fun hold hhold => (by cases hhold)
    guest_hold := fun _ hold hhold => (by cases hhold) }

/-- Without a suspended owner the admission in progress may change. -/
lemma Sound.rehold (hsuspended : s.suspendedPrefillLane = none) {hold hold' : CopyHold n}
    (hhold : s.copyHold = some hold) (hlane : hold'.lane = hold.lane) :
    Sound past e p { s with copyHold := some hold' } := by
  refine { h with
    pass := fun hs => absurd hsuspended hs
    held := fun other hother => ?_
    guest_hold := fun hs => absurd hsuspended hs }
  obtain rfl := Option.some.inj hother
  rw [hlane]
  exact h.held hold hhold

lemma Sound.drainCopyHold (lane : Fin n) : Sound past e p (s.drainCopyHold lane) := by
  unfold State.drainCopyHold
  split_ifs
  · exact h.dropHold
  · exact h

end

lemma State.drainCopyHold_lane {hold : CopyHold n} (h : hold ∈ (s.drainCopyHold lane).copyHold) :
    hold ∈ s.copyHold ∧ hold.lane ≠ lane := by
  unfold drainCopyHold at h
  split_ifs at h with hany
  · cases h
  · refine ⟨h, fun hlane => hany ?_⟩
    rw [Option.mem_def.mp h]
    exact decide_eq_true hlane

lemma Sound.releaseOwner (h : Sound past e p s) (lane : Fin n) :
    Accepted past e (s.releaseOwner lane) := by
  unfold State.releaseOwner
  split_ifs with howner
  · refine ⟨{ p with owner := none, owes := Protocol.clear p.owes lane },
      h.accepted.step ?_, rfl, h.suspended, h.pass, fun a ha => ?_,
      fun a ha => (by cases ha), fun a ha => ⟨(h.suspended_prefilling a ha).1, nofun⟩,
      fun hold hhold => ⟨(h.held hold hhold).1, rfl⟩, h.guest_hold, fun _ b hb => (by cases hb),
      h.stable⟩
    · simp [Protocol.step, h.owner, howner]
    · obtain ⟨howes, hne⟩ := Protocol.clear_eq_some.mp ha
      rcases h.owes a howes with hs | ⟨hp, -⟩
      · exact .inl hs
      · exact absurd (Option.some.inj (hp.symm.trans howner)) hne
  · exact ⟨p, h⟩

lemma State.releaseOwner_prefillLane : (s.releaseOwner lane).prefillLane ≠ some lane := by
  unfold releaseOwner
  split_ifs with howner
  · nofun
  · exact howner

@[simp] lemma State.releaseOwner_copyHold : (s.releaseOwner lane).copyHold = s.copyHold := by
  unfold releaseOwner
  split_ifs <;> rfl

@[simp] lemma State.releaseOwner_suspended :
    (s.releaseOwner lane).suspendedPrefillLane = s.suspendedPrefillLane := by
  unfold releaseOwner
  split_ifs <;> rfl

lemma Sound.releaseOwner_retire (h : Sound past e p s)
    (hheld : ∀ hold ∈ s.copyHold, hold.lane ≠ lane) :
    Accepted past e ((s.releaseOwner lane).retireRequest lane) := by
  obtain ⟨p', hp'⟩ := h.releaseOwner lane
  exact hp'.retireRequest State.releaseOwner_prefillLane (by simpa using hheld)

lemma Sound.abandon (h : Sound past e p s) : Accepted past e (s.abandon lane) :=
  (h.drainCopyHold lane).releaseOwner_retire fun _ hhold =>
    (State.drainCopyHold_lane hhold).2

lemma Sound.cancelAt (h : Sound past e p s) (cancelled : Fin n → Bool) :
    Accepted past e (s.cancelAt cancelled lane) := by
  unfold State.cancelAt
  split_ifs
  · exact ⟨p, h⟩
  · split
    · next hold hhold =>
      split_ifs
      · refine ⟨p, { h with
          pass := fun hs other hother => ?_
          held := fun other hother => ?_
          guest_hold := fun hs other hother => ?_ }⟩
        · obtain rfl := Option.some.inj hother
          exact h.pass hs hold hhold
        · obtain rfl := Option.some.inj hother
          exact h.held hold hhold
        · obtain rfl := Option.some.inj hother
          exact h.guest_hold hs hold hhold
      · exact h.abandon
    · exact h.abandon

end Frame

/-- A loop over the lanes keeps what each lane keeps. -/
lemma foldl_lanes {P : State n → Prop} {f : State n → Fin n → State n}
    (hf : ∀ s lane, P s → P (f s lane)) (lanes : List (Fin n)) {s : State n} (h : P s) :
    P (lanes.foldl f s) := by
  induction lanes generalizing s with
  | nil => exact h
  | cons lane _ ih => exact ih (hf s lane h)

lemma Sound.cancelActiveRequests (h : Sound past e p s) (cancelled : Fin n → Bool) :
    Accepted past e (s.cancelActiveRequests cancelled) :=
  foldl_lanes (P := Accepted past e) (fun _ _ ⟨_, hp⟩ => hp.cancelAt cancelled) _ ⟨p, h⟩

/-! ## Prefill steps -/

section Steps

variable {lane : Fin n}

section

variable (h : Sound past e p s)

include h

lemma Sound.chunk (howner : s.prefillLane = some lane) :
    Sound past e { p with owes := Protocol.clear p.owes lane }
      { s with log := s.log ++ [.chunk lane] } :=
  { h with
    accepted := h.accepted.step
      (by simp [Protocol.step, h.owner, howner])
    owes := fun a ha => h.owes a (Protocol.clear_eq_some.mp ha).1 }

/-- A finished step gives the lane over to what the request does next. -/
lemma Sound.releaseOwner_occupy {occupant : Occupant}
    (hsuspended : s.suspendedPrefillLane ≠ some lane)
    (hheld : ∀ hold ∈ s.copyHold, hold.lane ≠ lane) :
    Accepted past e ((s.releaseOwner lane).occupy lane occupant) := by
  obtain ⟨p', hp'⟩ := h.releaseOwner lane
  exact ⟨p', hp'.update_idle
    ⟨State.releaseOwner_prefillLane, by simpa using hsuspended, by simpa using hheld⟩ _⟩

/-- Both ways a step can end leave the executor sound. -/
lemma Sound.finishStep (hsuspended : s.suspendedPrefillLane ≠ some lane)
    (hheld : ∀ hold ∈ s.copyHold, hold.lane ≠ lane) (staged : Staged) (outcome : Outcome) :
    Accepted past e (s.resolvePrefillStep lane staged 0 true outcome) := by
  simp only [State.resolvePrefillStep, ne_eq, not_true_eq_false, if_false, Bool.true_eq_false]
  split_ifs
  · exact h.releaseOwner_retire hheld
  · cases outcome with
    | continues | repeats => exact h.releaseOwner_occupy hsuspended hheld
    | finishes | cancelled => exact h.releaseOwner_retire hheld

/-- The owner's lane may be overwritten by a prefill that has come further. -/
lemma Sound.advanceOwner (howner : s.prefillLane = some lane) (staged : Staged)
    (hshort : s.suspendedPrefillLane ≠ none → remainingTokens staged < e.mixedForwardMinTokens) :
    Sound past e p (s.occupy lane (.prefilling staged)) := by
  have hslot : ∀ other, other ≠ lane →
      (s.occupy lane (.prefilling staged)).slots other = s.slots other :=
    fun other hne => Function.update_of_ne hne _ _
  have hlane : (s.occupy lane (.prefilling staged)).slots lane = some (.prefilling staged) :=
    Function.update_self _ _ _
  refine ⟨h.accepted, h.owner, h.suspended, h.pass, h.owes, fun a ha => ?_, fun a ha => ?_,
    by simp [State.occupy, h.noHold howner], h.guest_hold, fun hs b hb => ?_, h.stable⟩
  · obtain rfl := Option.some.inj (howner.symm.trans ha)
    exact ⟨staged, hlane⟩
  · refine ⟨?_, (h.suspended_prefilling a ha).2⟩
    have hne : a ≠ lane := by
      rintro rfl
      exact (h.suspended_prefilling a ha).2 howner
    rw [State.prefillSuspendable_congr (hslot a hne)]
    exact (h.suspended_prefilling a ha).1
  · obtain rfl := Option.some.inj (howner.symm.trans hb)
    unfold State.prefillRemainingTokens
    rw [hlane]
    exact hshort hs

/-- The owner's step, resolved. -/
lemma Sound.resolvePrefillStep (howner : s.prefillLane = some lane)
    (staged : Staged) (processed : ℕ) (complete : Bool) (outcome : Outcome)
    (hshort : s.suspendedPrefillLane ≠ none → remainingTokens staged < e.mixedForwardMinTokens) :
    Accepted past e (s.resolvePrefillStep lane staged processed complete outcome) := by
  have hne : s.suspendedPrefillLane ≠ some lane := fun hs =>
    (h.suspended_prefilling lane hs).2 howner
  -- After the chunk is logged, the owner owes nothing if the chunk was nonempty.
  obtain ⟨p₁, h₁, hpaid⟩ : ∃ p₁, Sound past e p₁
      (if processed ≠ 0 then { s with log := s.log ++ [.chunk lane] } else s) ∧
      (processed ≠ 0 → p₁.owes ≠ some lane) := by
    split_ifs with hprocessed
    · exact ⟨_, h.chunk howner, fun _ howes => (Protocol.clear_eq_some.mp howes).2 rfl⟩
    · exact ⟨p, h, fun hp => absurd hp hprocessed⟩
  set s₁ := if processed ≠ 0 then { s with log := s.log ++ [.chunk lane] } else s with hs₁
  have howner₁ : s₁.prefillLane = some lane := by
    rw [hs₁]
    split_ifs <;> exact howner
  have hsuspended₁ : s₁.suspendedPrefillLane = s.suspendedPrefillLane := by
    rw [hs₁]
    split_ifs <;> rfl
  have hheld₁ : ∀ hold ∈ s₁.copyHold, hold.lane ≠ lane := by simp [h₁.noHold howner₁]
  cases complete with
  | true =>
    exact h₁.finishStep (by rwa [hsuspended₁]) hheld₁ staged outcome
  | false =>
    simp only [State.resolvePrefillStep]
    rw [← hs₁]
    split_ifs with hcancelled hinterruptible
    · exact h₁.releaseOwner_retire hheld₁
    · have hadvanced := h₁.advanceOwner howner₁ staged
        (fun hs => absurd hinterruptible.2 hs)
      refine ⟨p₁, { hadvanced with owes := fun a ha => ?_ }⟩
      rcases h₁.owes a ha with hs | ⟨hp, -⟩
      · exact .inl hs
      · obtain rfl := Option.some.inj (howner₁.symm.trans hp)
        exact absurd ha (hpaid hinterruptible.1)
    · exact ⟨p₁, h₁.advanceOwner howner₁ staged fun hs => hshort (hsuspended₁ ▸ hs)⟩

end

variable {pace : PrefillPace} {outcome : Outcome} {staged : Staged}

lemma advancePrefill_spec {p : Program} {staged next : Staged} {complete : Bool}
    (h : advancePrefill p staged pace = .ok (next, complete)) :
    (complete = false → remainingTokens next < remainingTokens staged) ∧
      remainingTokens next ≤ remainingTokens staged ∧
      (¬staged.cursor < staged.plan.prompt.shape.tokens → next = staged ∧ complete = true) := by
  unfold advancePrefill at h
  simp only at h
  split_ifs at h with hcursor
  · obtain ⟨hprogress, h⟩ := refuseIf_bind_iff.mp h
    obtain ⟨-, h⟩ := refuseIf_bind_iff.mp h
    obtain ⟨-, h⟩ := refuseIf_bind_iff.mp h
    obtain ⟨-, h⟩ := refuseIf_bind_iff.mp h
    obtain ⟨rfl, -⟩ := Prod.mk.inj (ok_pure_iff.mp h)
    simp only [remainingTokens]
    refine ⟨fun _ => ?_, ?_, fun hnot => absurd hcursor hnot⟩ <;> omega
  · obtain ⟨rfl, rfl⟩ := Prod.mk.inj (ok_pure_iff.mp h)
    exact ⟨(fun hne => by cases hne), le_rfl, fun _ => ⟨rfl, rfl⟩⟩

/-- What a step of the prefill slot's owner comes to. -/
lemma prefillStep_spec {s' : State n} (h : s.prefillStep e lane staged pace outcome = .ok s') :
    ∃ next processed complete, s' = s.resolvePrefillStep lane next processed complete outcome ∧
      (complete = false → remainingTokens next < remainingTokens staged) ∧
      remainingTokens next ≤ remainingTokens staged ∧
      (complete = false → s.prefillLane = some lane) ∧
      (¬staged.cursor < staged.plan.prompt.shape.tokens → processed = 0 ∧ complete = true) := by
  obtain ⟨⟨next, complete⟩, hadvance, h⟩ := ok_bind_iff.mp h
  obtain ⟨howner, h⟩ := refuseIf_bind_iff.mp h
  obtain ⟨hless, hle, hdone⟩ := advancePrefill_spec hadvance
  refine ⟨next, _, complete, (ok_pure_iff.mp h).symm, hless, hle, fun hcomplete => ?_,
    fun hnot => ?_⟩
  · by_contra hne
    exact howner ⟨hcomplete, hne⟩
  · obtain ⟨rfl, rfl⟩ := hdone hnot
    exact ⟨Nat.sub_self _, rfl⟩

lemma runPrefillStep_spec {s' : State n} (h : s.runPrefillStep e pace outcome = .ok s') :
    ∃ lane staged, s.prefillLane = some lane ∧ s.slots lane = some (.prefilling staged) ∧
      s.prefillStep e lane staged pace outcome = .ok s' := by
  unfold State.runPrefillStep at h
  split at h
  · cases h
  · next lane howner =>
    split at h
    · next staged hslot => exact ⟨lane, staged, howner, hslot, h⟩
    · cases h

lemma State.prefillRemainingTokens_eq (h : s.slots lane = some (.prefilling staged)) :
    s.prefillRemainingTokens lane = remainingTokens staged := by
  unfold prefillRemainingTokens
  rw [h]

lemma Sound.runPrefillStep (h : Sound past e p s) {s' : State n}
    (hrun : s.runPrefillStep e pace outcome = .ok s') :
    Accepted past e s' := by
  obtain ⟨lane, staged, howner, hslot, hstep⟩ := runPrefillStep_spec hrun
  obtain ⟨next, processed, complete, rfl, -, hle, -, -⟩ := prefillStep_spec hstep
  refine h.resolvePrefillStep howner next processed complete outcome fun hs => ?_
  have hshort := h.guest_owner hs lane howner
  rw [State.prefillRemainingTokens_eq hslot] at hshort
  omega

/-- A step overwrites its lane. -/
lemma State.resolvePrefillStep_occupy (occupant : Occupant) (staged : Staged) (processed : ℕ)
    (complete : Bool) (outcome : Outcome) :
    (s.occupy lane occupant).resolvePrefillStep lane staged processed complete outcome =
      s.resolvePrefillStep lane staged processed complete outcome := by
  unfold resolvePrefillStep releaseOwner retireRequest vacate occupy
  by_cases hprocessed : processed = 0 <;> by_cases howner : s.prefillLane = some lane <;>
    simp [hprocessed, howner]

lemma Sound.takeOver (h : Sound past e p s) (howner : s.prefillLane = none)
    (hhold : s.copyHold = none) (hsuspended : s.suspendedPrefillLane ≠ some lane)
    (hpass : s.suspendedPrefillLane ≠ none → p.pass = .bound lane)
    (hshort : s.suspendedPrefillLane ≠ none → remainingTokens staged < e.mixedForwardMinTokens) :
    Accepted past e ((s.occupy lane (.prefilling staged)).takeOver lane) := by
  have hidle : s.Idle lane := ⟨by simp [howner], hsuspended, by simp [hhold]⟩
  have hframe := h.update_idle hidle (some (.prefilling staged))
  have hlane : (s.occupy lane (.prefilling staged)).slots lane = some (.prefilling staged) :=
    Function.update_self _ _ _
  have hnotHeld : ∀ hold, hold ∉ s.copyHold := by simp [hhold]
  refine ⟨{ p with owner := some lane, pass := .used },
    h.accepted.step ?_, rfl, h.suspended,
    fun _ hold hmem => absurd hmem (hnotHeld hold), fun a ha => ?_, fun a ha => ?_, fun a ha => ?_,
    fun hold hmem => absurd hmem (hnotHeld hold), fun _ hold hmem => absurd hmem (hnotHeld hold),
    fun hs b hb => ?_, h.stable⟩
  · have hallowed : p.suspended = none ∨ p.suspended ≠ some lane ∧ p.pass = .bound lane := by
      rw [h.suspended]
      by_cases hs : s.suspendedPrefillLane = none
      · exact .inl hs
      · exact .inr ⟨hsuspended, hpass hs⟩
    simp [Protocol.step, h.owner, howner, hallowed]
  · rcases h.owes a ha with hs | ⟨hp, -⟩
    · exact .inl hs
    · rw [howner] at hp
      cases hp
  · obtain rfl := Option.some.inj ha
    exact ⟨staged, hlane⟩
  · refine ⟨(hframe.suspended_prefilling a ha).1, fun hsome => ?_⟩
    obtain rfl := Option.some.inj hsome
    exact hsuspended ha
  · obtain rfl := Option.some.inj hb
    exact (State.prefillRemainingTokens_eq hlane).trans_lt (hshort hs)

/-- The first step of a prefill that may take the slot. -/
lemma Sound.startPrefill (h : Sound past e p s) (howner : s.prefillLane = none)
    (hhold : s.copyHold = none) (hsuspended : s.suspendedPrefillLane ≠ some lane)
    (hpass : s.suspendedPrefillLane ≠ none → p.pass = .bound lane) {plan : RequestPlan}
    (hshort : s.suspendedPrefillLane ≠ none →
      remainingTokens (stagedAt plan) < e.mixedForwardMinTokens)
    {owns : Bool} (howns : owns = false → ¬plan.reuseBase < plan.prompt.shape.tokens) {s' : State n}
    (hstart : s.startPrefill e lane plan owns outcome = .ok s') :
    Accepted past e s' := by
  obtain ⟨next, processed, complete, rfl, -, hle, -, hdone⟩ := prefillStep_spec hstart
  cases owns with
  | true =>
    obtain ⟨p', hp'⟩ := h.takeOver howner hhold hsuspended hpass hshort
    have hresolved := hp'.resolvePrefillStep rfl next processed complete outcome
      fun hs => hle.trans_lt (hshort hs)
    have hsame : (s.occupy lane (.prefilling (stagedAt plan))).takeOver lane =
        (s.takeOver lane).occupy lane (.prefilling (stagedAt plan)) := rfl
    rwa [hsame, State.resolvePrefillStep_occupy] at hresolved
  | false =>
    obtain ⟨rfl, rfl⟩ := hdone (howns rfl)
    exact h.finishStep hsuspended (by simp [hhold]) next outcome

end Steps

/-! ## Admissions and interruptions -/

section Admissions

variable {lane : Fin n}

lemma Sound.bindLane (h : Sound past e p s) (howner : s.prefillLane = none)
    (hfree : s.slots lane = none) {plan : RequestPlan} {hostHit : Bool}
    (hguest : s.suspendedPrefillLane ≠ none → p.pass = .unused ∧ hostHit = false ∧
      s.suspendedPrefillMustAdvance = true ∧
      remainingTokens (stagedAt plan) < e.mixedForwardMinTokens) :
    Accepted past e (s.bindLane lane plan hostHit) := by
  have hidle := h.idle lane (by simp [hfree]) (by simp [hfree])
  have hframe := h.dropHold.update_idle ⟨hidle.owner, hidle.suspended, by simp⟩ (some .held)
  have hheld : (s.bindLane lane plan hostHit).slots lane = some .held := Function.update_self _ _ _
  cases hs : s.suspendedPrefillLane with
  | none =>
    refine ⟨p, { hframe with
      accepted := h.accepted.step
        (by simp [Protocol.step, h.owner, howner, h.suspended, hs])
      pass := fun hne => absurd hs hne
      held := fun hold hmem => ?_
      guest_hold := fun hne => absurd hs hne }⟩
    obtain rfl := Option.some.inj hmem
    exact ⟨hheld, howner⟩
  | some a =>
    have hne : s.suspendedPrefillLane ≠ none := by simp [hs]
    obtain ⟨hunused, hhost, hadvance, hshort⟩ := hguest hne
    have hlane : lane ≠ a := by
      rintro rfl
      exact hidle.suspended hs
    refine ⟨{ p with pass := .bound lane, owes := some a }, { hframe with
      accepted := h.accepted.step
        (by simp [Protocol.step, h.owner, howner, h.suspended, hs, hunused, hlane])
      pass := fun _ hold hmem => ?_
      owes := fun b hb => ?_
      held := fun hold hmem => ?_
      guest_hold := fun _ hold hmem => ?_ }⟩
    · obtain rfl := Option.some.inj hmem
      rfl
    · obtain rfl := Option.some.inj hb
      exact .inl ⟨hs, hadvance⟩
    · obtain rfl := Option.some.inj hmem
      exact ⟨hheld, howner⟩
    · obtain rfl := Option.some.inj hmem
      exact ⟨hhost, rfl, rfl, hshort⟩

lemma Sound.admitPlannedRequest (h : Sound past e p s) (howner : s.prefillLane = none)
    {c : Candidate n} (hfree : s.slots c.lane = none) (hostHit : Bool)
    (hguest : s.suspendedPrefillLane ≠ none → c.binding ≠ .refused → p.pass = .unused ∧
      hostHit = false ∧ s.suspendedPrefillMustAdvance = true ∧
      remainingTokens (stagedAt c.plan) < e.mixedForwardMinTokens) :
    Accepted past e (s.admitPlannedRequest c hostHit).1 := by
  unfold State.admitPlannedRequest
  cases hbinding : c.binding with
  | refused => exact ⟨p, h⟩
  | fails =>
    obtain ⟨p', hp'⟩ := h.bindLane howner hfree fun hs => hguest hs (by simp [hbinding])
    exact hp'.abandon
  | holds => exact h.bindLane howner hfree fun hs => hguest hs (by simp [hbinding])

/-- The chunk that an interrupted owner owes may be noted before the admission. -/
lemma State.admitPlannedRequest_mustAdvance (c : Candidate n) (hostHit mustAdvance : Bool) :
    { (s.admitPlannedRequest c hostHit).1 with suspendedPrefillMustAdvance := mustAdvance } =
      ({ s with suspendedPrefillMustAdvance := mustAdvance }.admitPlannedRequest c hostHit).1 := by
  unfold admitPlannedRequest
  cases c.binding with
  | refused => rfl
  | holds => rfl
  | fails =>
    unfold abandon drainCopyHold releaseOwner bindLane
    by_cases howner : s.prefillLane = some c.lane
    · simp [occupy, retireRequest, vacate, howner]
    · simp [occupy, retireRequest, vacate, howner]

lemma State.mayInterrupt_spec {owner : Fin n} {c : Candidate n}
    (h : s.mayInterrupt e owner c = true) :
    s.suspendedPrefillLane = none ∧ s.prefillInterruptible = true ∧
      s.prefillSuspendable owner = true ∧ s.slots c.lane = none ∧
      remainingTokens (stagedAt c.plan) < e.mixedForwardMinTokens := by
  obtain ⟨hs, hi, -, -, -, hsuspendable, hfree, -, hshort⟩ := of_decide_eq_true h
  exact ⟨Option.isNone_iff_eq_none.mp hs, hi, hsuspendable, Option.isNone_iff_eq_none.mp hfree,
    hshort⟩

/-- An interruptible owner owes nothing, so it may be suspended. -/
lemma Sound.suspendOwner (h : Sound past e p s) {owner : Fin n}
    (howner : s.prefillLane = some owner) (hsuspended : s.suspendedPrefillLane = none)
    (hinterruptible : s.prefillInterruptible = true)
    (hsuspendable : s.prefillSuspendable owner = true) (hstable : s.stableDecodeEpoch = false)
    (mustAdvance : Bool) :
    ∃ p', Sound past e p' { s.suspendOwner owner with suspendedPrefillMustAdvance := mustAdvance } ∧
      p'.pass = .unused := by
  have hnone : p.owes = none := by
    cases howes : p.owes with
    | none => rfl
    | some a =>
      rcases h.owes a howes with ⟨hs, -⟩ | ⟨-, hi⟩
      · rw [hsuspended] at hs
        cases hs
      · rw [hinterruptible] at hi
        cases hi
  have hnotHeld : ∀ hold, hold ∉ s.copyHold := by simp [h.noHold howner]
  refine ⟨{ p with owner := none, suspended := some owner, pass := .unused },
    ⟨h.accepted.step ?_, rfl, rfl,
      fun _ hold hmem => absurd hmem (hnotHeld hold), fun a ha => ?_, nofun, fun a ha => ?_,
      fun hold hmem => absurd hmem (hnotHeld hold), fun _ hold hmem => absurd hmem (hnotHeld hold),
      nofun, fun hs => ?_⟩, rfl⟩
  · simp [Protocol.step, h.owner, howner, h.suspended, hsuspended, hnone]
  · rw [hnone] at ha
    cases ha
  · obtain rfl := Option.some.inj ha
    exact ⟨hsuspendable, fun hlane => by cases hlane⟩
  · rw [show ({ s.suspendOwner owner with
        suspendedPrefillMustAdvance := mustAdvance } : State n).stableDecodeEpoch =
      s.stableDecodeEpoch from rfl, hstable] at hs
    cases hs

lemma Sound.tryInterruptPrefill (h : Sound past e p s) (hstable : s.stableDecodeEpoch = false)
    (candidate : Option (Candidate n)) :
    Accepted past e (s.tryInterruptPrefill e candidate).1 := by
  unfold State.tryInterruptPrefill
  split
  · next owner c howner =>
    split_ifs with hmay
    · obtain ⟨hs, hi, hsuspendable, hfree, hshort⟩ := State.mayInterrupt_spec hmay
      obtain ⟨p₁, h₁, hunused⟩ := h.suspendOwner howner hs hi hsuspendable hstable
        ((s.suspendOwner owner).admitPlannedRequest c false).2
      have hcompleted := h₁.admitPlannedRequest rfl hfree false fun _ hbinding => by
        refine ⟨hunused, rfl, ?_, hshort⟩
        unfold State.admitPlannedRequest
        cases hc : c.binding with
        | refused => exact absurd hc hbinding
        | fails => rfl
        | holds => rfl
      rwa [← State.admitPlannedRequest_mustAdvance] at hcompleted
    · exact ⟨p, h⟩
  · exact ⟨p, h⟩

/-- A suspended owner is always there to resume. -/
lemma Sound.resumeSuspendedPrefill (h : Sound past e p s) :
    ∃ s', s.resumeSuspendedPrefill = .ok s' ∧ Accepted past e s' := by
  unfold State.resumeSuspendedPrefill
  split
  · next lane hsuspended howner hhold =>
    obtain ⟨hsuspendable, -⟩ := h.suspended_prefilling lane hsuspended
    rw [if_pos hsuspendable]
    refine ⟨_, rfl, { p with owner := some lane, suspended := none },
      h.accepted.step ?_, rfl, rfl, fun hs => absurd rfl hs,
      fun a ha => ?_, fun a ha => ?_, nofun, fun hold hmem => ?_, fun hs => absurd rfl hs,
      fun hs => absurd rfl hs, fun _ => rfl⟩
    · simp [Protocol.step, h.owner, howner, h.suspended, hsuspended]
    · rcases h.owes a ha with ⟨hs, hadvance⟩ | ⟨hp, -⟩
      · obtain rfl := Option.some.inj (hsuspended.symm.trans hs)
        exact .inr ⟨rfl, by rw [hadvance]; rfl⟩
      · rw [howner] at hp
        cases hp
    · obtain rfl := Option.some.inj ha
      obtain ⟨staged, hslot, -⟩ := State.exists_of_prefillSuspendable hsuspendable
      exact ⟨staged, hslot⟩
    · have hmem' : hold ∈ s.copyHold := hmem
      rw [hhold] at hmem'
      cases hmem'
  · exact ⟨s, rfl, p, h⟩

end Admissions

/-! ## Decode rounds -/

/-- A decode round only touches lanes that own nothing. -/
lemma Sound.decodeRow (h : Sound past e p s) (rows : Fin n → Row) (lane : Fin n) :
    Accepted past e (s.decodeRow rows lane) := by
  unfold State.decodeRow
  split
  · next hslot =>
    have hidle := h.idle lane (by simp [hslot]) (by simp [hslot])
    split
    · exact ⟨p, h⟩
    · exact ⟨p, h.update_idle hidle _⟩
    · exact h.retireRequest hidle.owner hidle.held
  · exact ⟨p, h⟩

lemma Sound.runDecodeRound (h : Sound past e p s) (rows : Fin n → Row) :
    Accepted past e (s.runDecodeRound rows) :=
  foldl_lanes (P := Accepted past e) (fun _ lane ⟨_, hp⟩ => hp.decodeRow rows lane) _
    ⟨p, h⟩

/-! ## A pass of the loop -/

section Pass

variable {s' : State n} {input : Input n}

variable {hold : CopyHold n}

lemma Sound.finishFailedRestore (h : Sound past e p s) (hhold : s.copyHold = some hold)
    (hsuspended : s.suspendedPrefillLane = none) {fallback : Fallback}
    (hfinish : s.finishFailedRestore e hold fallback = .ok s') : Accepted past e s' := by
  have hdrop := h.dropHold
  have hnone : ¬s.suspendedPrefillLane ≠ none := not_not.mpr hsuspended
  have hne : s.suspendedPrefillLane ≠ some hold.lane := by simp [hsuspended]
  unfold State.finishFailedRestore at hfinish
  split_ifs at hfinish with hrecovery
  · split at hfinish
    · obtain rfl := ok_pure_iff.mp hfinish
      exact ⟨p, h.rehold hsuspended hhold rfl⟩
    · exact hdrop.startPrefill (h.held hold hhold).2 rfl hne (fun hs => absurd hs hnone)
        (fun hs => absurd hs hnone) (fun howns => (by cases howns)) hfinish
    · obtain rfl := ok_pure_iff.mp hfinish
      exact hdrop.abandon
  · obtain rfl := ok_pure_iff.mp hfinish
    refine hdrop.vacate ⟨?_, hne, by simp⟩
    rw [(h.held hold hhold).2]
    nofun

lemma Sound.admitComplete (h : Sound past e p s) (hhold : s.copyHold = some hold)
    {outcome : HoldOutcome} (hcompleted : s.admitComplete e hold outcome = .ok s') :
    Accepted past e s' := by
  cases outcome with
  | waits =>
    obtain rfl := ok_pure_iff.mp hcompleted
    exact ⟨p, h⟩
  | fails =>
    obtain rfl := ok_pure_iff.mp hcompleted
    exact h.abandon
  | starts outcome =>
    refine h.dropHold.startPrefill (h.held hold hhold).2 rfl (h.owner_ne_held hhold)
      (fun hs => h.pass hs hold hhold) (fun hs => (h.guest_hold hs hold hhold).2.2.2)
      (fun howns => of_decide_eq_false howns) hcompleted
  | restoreFails fallback =>
    -- A request from a host tier does not interrupt anybody.
    have hsuspended : hold.hostHit = true → s.suspendedPrefillLane = none := by
      intro hhost
      by_contra hs
      rw [(h.guest_hold hs hold hhold).1] at hhost
      cases hhost
    simp only [State.admitComplete] at hcompleted
    split_ifs at hcompleted with hhost hmembers
    · obtain rfl := ok_pure_iff.mp hcompleted
      exact ⟨p, h.rehold (hsuspended hhost) hhold rfl⟩
    · exact h.finishFailedRestore hhold (hsuspended hhost) hcompleted
    · obtain rfl := ok_pure_iff.mp hcompleted
      exact h.abandon

lemma Sound.serveHold (h : Sound past e p s) (hhold : s.copyHold = some hold)
    (hserve : s.serveHold e hold input = .ok s') : Accepted past e s' := by
  unfold State.serveHold at hserve
  split_ifs at hserve with hsettling hwait hcancel hwait
  · obtain rfl := ok_pure_iff.mp hserve
    exact h.runDecodeRound input.rows
  · obtain rfl := ok_pure_iff.mp hserve
    exact h.abandon
  · refine h.finishFailedRestore hhold ?_ hserve
    by_contra hs
    have hfailed := (h.guest_hold hs hold hhold).2.2.1
    rcases hsettling with hc | hf
    · exact hcancel hc
    · rw [hf] at hfailed
      cases hfailed
  · obtain rfl := ok_pure_iff.mp hserve
    exact h.runDecodeRound input.rows
  · obtain ⟨next, hnext, hserve⟩ := ok_bind_iff.mp hserve
    obtain ⟨p', hp'⟩ := h.admitComplete hhold hnext
    split_ifs at hserve
    · obtain rfl := ok_pure_iff.mp hserve
      exact hp'.runDecodeRound input.rows
    · obtain rfl := ok_pure_iff.mp hserve
      exact ⟨p', hp'⟩

/-- The counter of decode rounds is not read by the invariant. -/
lemma Sound.countRounds (h : Sound past e p s) (rounds : ℕ) :
    Sound past e p { s with decodeRoundsSincePrefill := rounds } :=
  { h with }

/-- A paced owner lets the others decode first; any other takes a step. -/
lemma serveOwner_spec (h : s.serveOwner e input = .ok s') :
    (s.prefillPace e (s.prefillLane.elim 0 s.prefillRemainingTokens) = .shared ∧
      ((∃ rounds, s' = { s.runDecodeRound input.rows with decodeRoundsSincePrefill := rounds }) ∨
        ∃ next, s.runMixedRound e input.rows input.outcome = .ok next ∧
          s' = { next with decodeRoundsSincePrefill := 0 })) ∨
      ∃ pace next, s.runPrefillStep e pace input.outcome = .ok next ∧
        s' = { next with decodeRoundsSincePrefill := 0 } := by
  unfold State.serveOwner at h
  by_cases hshared : s.prefillPace e (s.prefillLane.elim 0 s.prefillRemainingTokens) = .shared ∧
      s.hasMembers = true
  · rw [if_pos hshared] at h
    split at h
    · exact .inl ⟨hshared.1, .inl ⟨_, (ok_pure_iff.mp h).symm⟩⟩
    · split at h
      · obtain ⟨next, hnext, h⟩ := ok_bind_iff.mp h
        exact .inl ⟨hshared.1, .inr ⟨next, hnext, (ok_pure_iff.mp h).symm⟩⟩
      · obtain ⟨next, hnext, h⟩ := ok_bind_iff.mp h
        exact .inr ⟨_, next, hnext, (ok_pure_iff.mp h).symm⟩
  · rw [if_neg hshared] at h
    obtain ⟨next, hnext, h⟩ := ok_bind_iff.mp h
    exact .inr ⟨_, next, hnext, (ok_pure_iff.mp h).symm⟩

lemma Sound.serveOwner (h : Sound past e p s) (hserve : s.serveOwner e input = .ok s') :
    Accepted past e s' := by
  rcases serveOwner_spec hserve with ⟨-, ⟨rounds, rfl⟩ | ⟨next, hnext, rfl⟩⟩ |
    ⟨pace, next, hnext, rfl⟩
  · obtain ⟨p', hp'⟩ := h.runDecodeRound input.rows
    exact ⟨p', hp'.countRounds rounds⟩
  · obtain ⟨p₁, h₁⟩ := h.runDecodeRound input.rows
    obtain ⟨p', hp'⟩ := h₁.runPrefillStep hnext
    exact ⟨p', hp'.countRounds 0⟩
  · obtain ⟨p', hp'⟩ := h.runPrefillStep hnext
    exact ⟨p', hp'.countRounds 0⟩

lemma Sound.servePrefill (h : Sound past e p s) (hstable : s.stableDecodeEpoch = false)
    (hserve : s.servePrefill e input = .ok s') : Accepted past e s' := by
  unfold State.servePrefill at hserve
  split_ifs at hserve with hadmits
  · obtain ⟨p₁, h₁⟩ := h.tryInterruptPrefill hstable input.interrupter
    simp only at hserve
    split_ifs at hserve
    · obtain rfl := ok_pure_iff.mp hserve
      exact ⟨p₁, h₁⟩
    · obtain ⟨next, hnext, p₂, h₂⟩ := h₁.resumeSuspendedPrefill
      rw [hnext] at hserve
      exact h₂.serveOwner hserve
  · exact h.serveOwner hserve

/-- A decode round changes neither ownership nor admissions. -/
structure SameOwners (s s' : State n) : Prop where
  owner : s'.prefillLane = s.prefillLane
  suspended : s'.suspendedPrefillLane = s.suspendedPrefillLane
  hold : s'.copyHold = s.copyHold

lemma Sound.sameOwners_decodeRow (h : Sound past e p s) (rows : Fin n → Row) (lane : Fin n) :
    SameOwners s (s.decodeRow rows lane) := by
  unfold State.decodeRow
  split
  · next hslot =>
    have hidle := h.idle lane (by simp [hslot]) (by simp [hslot])
    split
    · exact ⟨rfl, rfl, rfl⟩
    · exact ⟨rfl, rfl, rfl⟩
    · exact ⟨rfl, if_neg hidle.suspended, rfl⟩
  · exact ⟨rfl, rfl, rfl⟩

lemma Sound.sameOwners (h : Sound past e p s) (rows : Fin n → Row) :
    SameOwners s (s.runDecodeRound rows) := by
  have hfold : Accepted past e (s.runDecodeRound rows) ∧
      SameOwners s (s.runDecodeRound rows) := by
    refine foldl_lanes (P := fun t => Accepted past e t ∧ SameOwners s t) ?_ _
      ⟨⟨p, h⟩, rfl, rfl, rfl⟩
    rintro t lane ⟨⟨p', hp'⟩, howner, hsuspended, hhold⟩
    have hrow := hp'.sameOwners_decodeRow rows lane
    exact ⟨hp'.decodeRow rows lane, hrow.owner.trans howner, hrow.suspended.trans hsuspended,
      hrow.hold.trans hhold⟩
  exact hfold.2

lemma Sound.decodeMembers (h : Sound past e p s) (hsuspended : s.suspendedPrefillLane = none) :
    Accepted past e (s.decodeMembers input) := by
  unfold State.decodeMembers
  split_ifs
  · obtain ⟨p', hp'⟩ := h.runDecodeRound input.rows
    exact ⟨p', { hp' with
      stable := fun _ => (h.sameOwners input.rows).suspended.trans hsuspended }⟩
  · exact ⟨p, h⟩

lemma State.admitPlannedRequest_suspended {c : Candidate n} {hostHit : Bool}
    (hsuspended : s.suspendedPrefillLane = none) :
    (s.admitPlannedRequest c hostHit).1.suspendedPrefillLane = none := by
  unfold admitPlannedRequest
  cases c.binding with
  | refused => exact hsuspended
  | holds => exact hsuspended
  | fails =>
    unfold abandon drainCopyHold retireRequest
    simp only [releaseOwner_suspended]
    split_ifs
    · rfl
    · exact hsuspended
    · rfl
    · exact hsuspended

lemma Sound.serveQueue (h : Sound past e p s) (howner : s.prefillLane = none)
    (hsuspended : s.suspendedPrefillLane = none) : Accepted past e (s.serveQueue input) := by
  unfold State.serveQueue
  split
  · next c _ =>
    split_ifs with hadmits
    · obtain ⟨p', hp'⟩ := h.admitPlannedRequest howner
        (Option.isNone_iff_eq_none.mp hadmits.2) c.hostHit fun hs => absurd hsuspended hs
      split
      · exact ⟨p', hp'⟩
      · exact hp'.decodeMembers (State.admitPlannedRequest_suspended hsuspended)
    · exact h.decodeMembers hsuspended
  · exact h.decodeMembers hsuspended

lemma Sound.startRecoveryAttempt (h : Sound past e p s) (howner : s.prefillLane = none)
    (hsuspended : s.suspendedPrefillLane = none) (hhold : s.copyHold = none) {lane : Fin n}
    {route : Route} (hstart : s.startRecoveryAttempt e lane route = .ok s') :
    Accepted past e s' := by
  have hnone : ¬s.suspendedPrefillLane ≠ none := not_not.mpr hsuspended
  have hidle : s.Idle lane :=
    ⟨by simp [howner], by simp [hsuspended], by simp [hhold]⟩
  cases route with
  | exhausts =>
    obtain rfl := ok_pure_iff.mp hstart
    exact h.abandon
  | holds plan =>
    obtain rfl := ok_pure_iff.mp hstart
    refine ⟨p, { h.update_idle hidle (some .held) with
      pass := fun hs => absurd hs hnone
      held := fun hold hmem => ?_
      guest_hold := fun hs => absurd hs hnone }⟩
    obtain rfl := Option.some.inj hmem
    exact ⟨Function.update_self _ _ _, howner⟩
  | prefills plan outcome =>
    exact h.startPrefill howner hhold hidle.suspended (fun hs => absurd hs hnone)
      (fun hs => absurd hs hnone) (fun howns => (by cases howns)) hstart

/-- After the first handlers of a pass, a suspended owner is there only beside an owner or an
admission. -/
lemma State.suspended_none_of_resumed (h : s.resumeSuspendedPrefill = .ok s')
    (howner : s'.prefillLane = none) (hhold : s'.copyHold = none) :
    s'.suspendedPrefillLane = none := by
  unfold resumeSuspendedPrefill at h
  split at h
  · split_ifs at h
    obtain rfl := ok_pure_iff.mp h
    rfl
  · next hcases =>
    obtain rfl := ok_pure_iff.mp h
    cases hs : s.suspendedPrefillLane with
    | none => rfl
    | some lane => exact (hcases lane hs howner hhold).elim

lemma State.stable_of_resumed (h : s.resumeSuspendedPrefill = .ok s') :
    s'.stableDecodeEpoch = s.stableDecodeEpoch := by
  unfold resumeSuspendedPrefill at h
  split at h
  · split_ifs at h
    obtain rfl := ok_pure_iff.mp h
    rfl
  · obtain rfl := ok_pure_iff.mp h
    rfl

lemma State.stable_abandon (lane : Fin n) :
    (s.abandon lane).stableDecodeEpoch = s.stableDecodeEpoch := by
  unfold abandon drainCopyHold releaseOwner retireRequest vacate
  split_ifs <;> rfl

lemma State.stable_cancelActiveRequests (cancelled : Fin n → Bool) :
    (s.cancelActiveRequests cancelled).stableDecodeEpoch = s.stableDecodeEpoch := by
  refine foldl_lanes (P := fun t => t.stableDecodeEpoch = s.stableDecodeEpoch)
    (fun t lane ht => ?_) _ rfl
  unfold cancelAt
  split_ifs
  · exact ht
  · split
    · split_ifs
      · exact ht
      · exact (stable_abandon lane).trans ht
    · exact (stable_abandon lane).trans ht

lemma Sound.dispatch (h : Sound past e p s) (hstable : s.stableDecodeEpoch = false)
    (hfree : s.prefillLane = none → s.copyHold = none → s.suspendedPrefillLane = none)
    (hdispatch : s.dispatch e input = .ok s') : Accepted past e s' := by
  unfold State.dispatch at hdispatch
  split at hdispatch
  · next hold hhold => exact h.serveHold hhold hdispatch
  · next hhold =>
    split at hdispatch
    · exact h.servePrefill hstable hdispatch
    · next howner =>
      have hsuspended := hfree howner hhold
      unfold State.serveFree at hdispatch
      split at hdispatch
      · split_ifs at hdispatch
        · exact h.startRecoveryAttempt howner hsuspended hhold hdispatch
        · obtain rfl := ok_pure_iff.mp hdispatch
          exact h.serveQueue howner hsuspended
      · obtain rfl := ok_pure_iff.mp hdispatch
        exact h.serveQueue howner hsuspended

/-- What the handlers before the dispatch come to. -/
lemma iterate_spec (h : s.iterate e input = .ok s') :
    (s.stableDecodeEpoch = true ∧ s' = s.runDecodeRound input.rows) ∨
      ∃ resumed, ({ s with stableDecodeEpoch := false }.cancelActiveRequests
          input.cancelled).resumeSuspendedPrefill = .ok resumed ∧
        resumed.dispatch e input = .ok s' := by
  unfold State.iterate at h
  split_ifs at h with hstable
  · exact .inl ⟨hstable.1, (ok_pure_iff.mp h).symm⟩
  · obtain ⟨resumed, hresumed, h⟩ := ok_bind_iff.mp h
    exact .inr ⟨resumed, hresumed, h⟩

/-- A pass of the loop keeps to the protocol. -/
lemma Sound.iterate (h : Sound past e p s) (hiterate : s.iterate e input = .ok s') :
    Accepted past e s' := by
  rcases iterate_spec hiterate with ⟨-, rfl⟩ | ⟨resumed, hresumed, hdispatch⟩
  · exact h.runDecodeRound input.rows
  · have hunstable : Sound past e p { s with stableDecodeEpoch := false } :=
      { h with stable := nofun }
    obtain ⟨p₁, h₁⟩ := hunstable.cancelActiveRequests input.cancelled
    obtain ⟨_, hsame, p₂, h₂⟩ := h₁.resumeSuspendedPrefill
    obtain rfl := Except.ok.inj (hresumed.symm.trans hsame)
    refine h₂.dispatch ?_ (State.suspended_none_of_resumed hresumed) hdispatch
    rw [State.stable_of_resumed hresumed, State.stable_cancelActiveRequests]

lemma Reachable.sound (h : Reachable e s) : Accepted [] e s := by
  induction h with
  | start => exact ⟨{}, ⟨List.nil_prefix, rfl⟩, rfl, rfl, by simp, by simp, by simp, by simp,
      by simp, by simp, by simp, by simp⟩
  | iterate _ hiterate ih =>
    obtain ⟨p, hp⟩ := ih
    exact hp.iterate hiterate

end Pass

end NInfer.Suspension
