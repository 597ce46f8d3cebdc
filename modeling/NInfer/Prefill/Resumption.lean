import NInfer.Prefill.Interruption

/-!
# A suspended prefill does not wait for ever

While an owner is suspended, the executor is at most one short prefill away from resuming it.
`distance` counts what is left: the admission in progress, then the tokens of the short prompt.  No
pass of the loop adds to it, and every pass lowers it whose copies have landed, so in a run whose
copies land again and again the owner resumes, or its request leaves.
-/

namespace NInfer.Suspension

open Prefill

variable {n : ℕ} {past : List (Action n)} {e : Executor} {p : Protocol n} {s s' t : State n}
  {a lane : Fin n}

/-! ## The log only grows -/

/-- `t` comes after `s`. -/
def Extends (s t : State n) : Prop := s.log <+: t.log

lemma Extends.refl : Extends s s := List.prefix_rfl

lemma Extends.trans (h : Extends s t) (h' : Extends t s') : Extends s s' :=
  List.IsPrefix.trans h h'

/-- What a handler accepts from here on. -/
lemma Sound.onward (h : Sound past e p s) : Sound s.log e p s :=
  { h with accepted := ⟨List.prefix_rfl, h.accepted.2⟩ }

lemma extends_of_accepted (h : Accepted s.log e t) : Extends s t := by
  obtain ⟨p, hp⟩ := h
  exact hp.accepted.1

/-! ## Passing -/

/-- Between `s` and `t` the suspended request resumed or left. -/
def Passed (a : Fin n) (s t : State n) : Prop :=
  ∃ actions, t.log = s.log ++ actions ∧ (Action.resumes a ∈ actions ∨ Action.leaves a ∈ actions)

lemma Passed.extends (h : Passed a s t) (ht : Extends t s') : Passed a s s' := by
  obtain ⟨actions, hactions, hmem⟩ := h
  obtain ⟨more, hmore⟩ := ht
  refine ⟨actions ++ more, by rw [← hmore, hactions, List.append_assoc], ?_⟩
  exact hmem.imp (List.mem_append_left _) (List.mem_append_left _)

lemma Extends.passed (h : Extends s t) (ht : Passed a t s') : Passed a s s' := by
  obtain ⟨before, hbefore⟩ := h
  obtain ⟨actions, hactions, hmem⟩ := ht
  refine ⟨before ++ actions, by rw [hactions, ← hbefore, List.append_assoc], ?_⟩
  exact hmem.imp (List.mem_append_right _) (List.mem_append_right _)

/-! ## The distance to the resumption -/

/-- What has to happen before a suspended owner resumes: an admission in progress, then the prefill
it leads to. -/
def distance (e : Executor) (s : State n) : ℕ :=
  match s.copyHold, s.prefillLane with
  | some _, _ => e.mixedForwardMinTokens + 1
  | none, some b => s.prefillRemainingTokens b + 1
  | none, none => 0

lemma distance_of_hold {hold : CopyHold n} (h : s.copyHold = some hold) :
    distance e s = e.mixedForwardMinTokens + 1 := by
  simp [distance, h]

lemma distance_of_owner {b : Fin n} (hhold : s.copyHold = none) (howner : s.prefillLane = some b) :
    distance e s = s.prefillRemainingTokens b + 1 := by
  simp [distance, hhold, howner]

lemma distance_of_free (hhold : s.copyHold = none) (howner : s.prefillLane = none) :
    distance e s = 0 := by
  simp [distance, hhold, howner]

/-- Either the suspended request has passed on, or it is still suspended and no further away. -/
def Keeps (e : Executor) (a : Fin n) (s t : State n) : Prop :=
  Passed a s t ∨ Extends s t ∧ t.suspendedPrefillLane = some a ∧ distance e t ≤ distance e s

lemma Keeps.trans (h : Keeps e a s t)
    (ht : Extends s t → t.suspendedPrefillLane = some a → distance e t ≤ distance e s →
      Keeps e a t s') (hextends : Extends t s') : Keeps e a s s' := by
  rcases h with hpassed | ⟨hst, hsuspended, hle⟩
  · exact .inl (hpassed.extends hextends)
  · rcases ht hst hsuspended hle with hpassed | ⟨hts, hs, hle'⟩
    · exact .inl (hst.passed hpassed)
    · exact .inr ⟨hst.trans hts, hs, hle'.trans hle⟩

lemma State.abandon_prefillLane : (s.abandon lane).prefillLane =
    if s.prefillLane = some lane then none else s.prefillLane := by
  unfold abandon drainCopyHold releaseOwner retireRequest vacate
  split_ifs <;> rfl

lemma State.abandon_slots :
    (s.abandon lane).slots = Function.update s.slots lane none := by
  unfold abandon drainCopyHold releaseOwner retireRequest vacate
  split_ifs <;> rfl

lemma State.abandon_copyHold : (s.abandon lane).copyHold =
    if s.copyHold.any (·.lane = lane) then none else s.copyHold := by
  unfold abandon drainCopyHold releaseOwner retireRequest vacate
  split_ifs <;> rfl

lemma Sound.distance_abandon (h : Sound past e p s) :
    distance e (s.abandon lane) ≤ distance e s := by
  cases hhold : s.copyHold with
  | some hold =>
    have hnone := (h.held hold hhold).2
    by_cases hlane : hold.lane = lane
    · have hdrained : (s.abandon lane).copyHold = none := by
        rw [State.abandon_copyHold, hhold]
        simp [hlane]
      rw [distance_of_free hdrained (by rw [State.abandon_prefillLane, hnone]; simp)]
      exact Nat.zero_le _
    · have hkept : (s.abandon lane).copyHold = some hold := by
        rw [State.abandon_copyHold, hhold]
        simp [hlane]
      rw [distance_of_hold hkept, distance_of_hold hhold]
  | none =>
    have hkept : (s.abandon lane).copyHold = none := by
      rw [State.abandon_copyHold, hhold]
      simp
    cases howner : s.prefillLane with
    | none =>
      rw [distance_of_free hkept (by rw [State.abandon_prefillLane, howner]; simp)]
      exact Nat.zero_le _
    | some b =>
      by_cases hlane : b = lane
      · rw [distance_of_free hkept (by rw [State.abandon_prefillLane, howner]; simp [hlane])]
        exact Nat.zero_le _
      · have hstill : (s.abandon lane).prefillLane = some b := by
          rw [State.abandon_prefillLane, howner]
          simp [hlane]
        have hslot : (s.abandon lane).slots b = s.slots b := by
          rw [State.abandon_slots, Function.update_of_ne hlane]
        rw [distance_of_owner hkept hstill, distance_of_owner hhold howner,
          State.prefillRemainingTokens_congr hslot]

lemma State.abandon_suspended (hne : s.suspendedPrefillLane ≠ some lane) :
    (s.abandon lane).suspendedPrefillLane = s.suspendedPrefillLane := by
  have hsame : ((s.drainCopyHold lane).releaseOwner lane).suspendedPrefillLane =
      s.suspendedPrefillLane := by
    rw [releaseOwner_suspended]
    unfold drainCopyHold
    split_ifs <;> rfl
  simp only [abandon, retireRequest, hsame, hne, if_false]

/-- A request that leaves beside the suspended one brings its resumption no further away. -/
lemma Sound.keeps_abandon (h : Sound past e p s) (hsuspended : s.suspendedPrefillLane = some a) :
    Keeps e a s (s.abandon lane) := by
  by_cases hlane : lane = a
  · obtain rfl := hlane
    refine .inl ?_
    have hrelease : Extends s ((s.drainCopyHold lane).releaseOwner lane) :=
      extends_of_accepted ((h.onward.drainCopyHold lane).releaseOwner lane)
    exact hrelease.passed ⟨[.leaves lane], rfl, .inr (List.mem_singleton_self _)⟩
  · refine .inr ⟨extends_of_accepted h.onward.abandon, ?_, h.distance_abandon⟩
    have hne : s.suspendedPrefillLane ≠ some lane := by
      rw [hsuspended]
      exact fun ha => hlane (Option.some.inj ha).symm
    rw [State.abandon_suspended hne, hsuspended]

lemma Sound.keeps_cancelAt (h : Sound past e p s) (hsuspended : s.suspendedPrefillLane = some a)
    (cancelled : Fin n → Bool) : Keeps e a s (s.cancelAt cancelled lane) := by
  unfold State.cancelAt
  split_ifs
  · exact .inr ⟨Extends.refl, hsuspended, le_rfl⟩
  · split
    · next hold hhold =>
      split_ifs
      · refine .inr ⟨Extends.refl, hsuspended, ?_⟩
        exact (distance_of_hold hhold).symm.le
      · exact h.keeps_abandon hsuspended
    · exact h.keeps_abandon hsuspended

lemma Sound.keeps_cancelActiveRequests (h : Sound past e p s)
    (hsuspended : s.suspendedPrefillLane = some a) (cancelled : Fin n → Bool) :
    Keeps e a s (s.cancelActiveRequests cancelled) := by
  have hfold : Accepted past e (s.cancelActiveRequests cancelled) ∧
      Keeps e a s (s.cancelActiveRequests cancelled) := by
    refine foldl_lanes (P := fun t => Accepted past e t ∧ Keeps e a s t) ?_ _
      ⟨⟨p, h⟩, .inr ⟨Extends.refl, hsuspended, le_rfl⟩⟩
    rintro t lane ⟨⟨p', hp'⟩, hkeeps⟩
    exact ⟨hp'.cancelAt cancelled, hkeeps.trans
      (fun _ hs _ => hp'.keeps_cancelAt hs cancelled)
      (extends_of_accepted (hp'.onward.cancelAt cancelled))⟩
  exact hfold.2

/-! ## Steps towards the resumption -/

/-- What a resolved step leaves of ownership. -/
lemma State.resolvePrefillStep_owners (staged : Staged) (processed : ℕ) {complete : Bool}
    (outcome : Outcome) (howner : s.prefillLane = none ∨ s.prefillLane = some lane)
    (hcomplete : complete = false → s.prefillLane = some lane)
    (hsuspended : s.suspendedPrefillLane ≠ some lane) :
    let t := s.resolvePrefillStep lane staged processed complete outcome
    t.suspendedPrefillLane = s.suspendedPrefillLane ∧ t.copyHold = s.copyHold ∧
      (t.prefillLane = none ∨ complete = false ∧ t.prefillLane = some lane ∧
        t.slots lane = some (.prefilling staged)) := by
  unfold resolvePrefillStep
  have hchunk : ∀ {u}, u = (if processed ≠ 0 then { s with log := s.log ++ [.chunk lane] } else s) →
      u.suspendedPrefillLane = s.suspendedPrefillLane ∧ u.copyHold = s.copyHold ∧
        u.prefillLane = s.prefillLane := by
    rintro u rfl
    split_ifs <;> exact ⟨rfl, rfl, rfl⟩
  generalize hu : (if processed ≠ 0 then { s with log := s.log ++ [.chunk lane] } else s) = u
  obtain ⟨hs, hh, ho⟩ := hchunk hu.symm
  have hrelease : (u.releaseOwner lane).prefillLane = none := by
    unfold releaseOwner
    rw [ho]
    rcases howner with hnone | hsome
    · simp [hnone, ho]
    · simp [hsome]
  have hkept : (u.releaseOwner lane).suspendedPrefillLane = s.suspendedPrefillLane := by
    rw [releaseOwner_suspended, hs]
  have hretire : ((u.releaseOwner lane).retireRequest lane).suspendedPrefillLane =
      s.suspendedPrefillLane := by
    simp only [retireRequest, hkept, hsuspended, if_false]
  have hhold : (u.releaseOwner lane).copyHold = s.copyHold := by rw [releaseOwner_copyHold, hh]
  split
  · exact ⟨hretire, hhold, .inl hrelease⟩
  · split
    · next hincomplete =>
      exact ⟨hs, hh, .inr ⟨hincomplete, ho.trans (hcomplete hincomplete),
        Function.update_self _ _ _⟩⟩
    · split
      · exact ⟨hkept, hhold, .inl hrelease⟩
      · exact ⟨hkept, hhold, .inl hrelease⟩
      · exact ⟨hretire, hhold, .inl hrelease⟩

/-- A step of a prefill that nothing is held beside comes closer to its end. -/
lemma distance_prefillStep (hhold : s.copyHold = none)
    (howner : s.prefillLane = none ∨ s.prefillLane = some lane)
    (hsuspended : s.suspendedPrefillLane ≠ some lane) {staged : Staged} {pace : PrefillPace}
    {outcome : Outcome} (hstep : s.prefillStep e lane staged pace outcome = .ok s') :
    s'.suspendedPrefillLane = s.suspendedPrefillLane ∧ s'.copyHold = none ∧
      distance e s' ≤ remainingTokens staged := by
  obtain ⟨next, processed, complete, rfl, hless, -, hcomplete, -⟩ := prefillStep_spec hstep
  obtain ⟨hs, hh, hfree | ⟨hincomplete, hsame, hslot⟩⟩ :=
    State.resolvePrefillStep_owners next processed outcome howner hcomplete hsuspended
  · refine ⟨hs, hh.trans hhold, ?_⟩
    rw [distance_of_free (hh.trans hhold) hfree]
    exact Nat.zero_le _
  · refine ⟨hs, hh.trans hhold, ?_⟩
    rw [distance_of_owner (hh.trans hhold) hsame, State.prefillRemainingTokens_eq hslot]
    exact hless hincomplete

/-- The copies that an admission waits for have landed. -/
def Lands (input : Input n) : Prop :=
  input.settled = true ∧ input.ramReady = true ∧ input.holdOutcome.waiting = false

/-- The suspended request is still suspended, no further away, and closer if copies landed. -/
structure Nears (e : Executor) (a : Fin n) (input : Input n) (s t : State n) : Prop where
  extends' : Extends s t
  suspended : t.suspendedPrefillLane = some a
  le : distance e t ≤ distance e s
  lt : Lands input → distance e t < distance e s

section Passes

variable {input : Input n}

section

variable (h : Sound past e p s)

include h

variable {hold : CopyHold n}

/-- While copies are in flight the others decode. -/
lemma Sound.nears_decode (hsuspended : s.suspendedPrefillLane = some a)
    (hhold : s.copyHold = some hold) (hwaits : ¬Lands input) :
    Nears e a input s (s.runDecodeRound input.rows) := by
  obtain ⟨-, hs, hh⟩ := h.sameOwners input.rows
  refine ⟨extends_of_accepted (h.onward.runDecodeRound input.rows), hs.trans hsuspended, ?_,
    fun hlands => absurd hlands hwaits⟩
  rw [distance_of_hold hhold, distance_of_hold (hh.trans hhold)]

/-- An admission that is given up leaves the suspended request next. -/
lemma Sound.nears_abandon (hsuspended : s.suspendedPrefillLane = some a)
    (hhold : s.copyHold = some hold) :
    Nears e a input s (s.abandon hold.lane) := by
  have hfree : distance e (s.abandon hold.lane) = 0 := by
    refine distance_of_free ?_ ?_
    · rw [State.abandon_copyHold, hhold]
      simp
    · rw [State.abandon_prefillLane, (h.held hold hhold).2]
      simp
  have hpos : 0 < distance e s := by
    rw [distance_of_hold hhold]
    omega
  refine ⟨extends_of_accepted h.onward.abandon, ?_, by omega, fun _ => by omega⟩
  rw [State.abandon_suspended (h.owner_ne_held hhold), hsuspended]

lemma Sound.nears_admitComplete (input : Input n) (hsuspended : s.suspendedPrefillLane = some a)
    (hhold : s.copyHold = some hold) {outcome : HoldOutcome} (hlanded : outcome.waiting = false)
    (hcompleted : s.admitComplete e hold outcome = .ok s') :
    Nears e a input s s' ∧ s'.copyHold = none := by
  have hne : s.suspendedPrefillLane ≠ none := by simp [hsuspended]
  have hdrained : (s.abandon hold.lane).copyHold = none := by
    rw [State.abandon_copyHold, hhold]
    simp
  cases outcome with
  | waits => cases hlanded
  | fails =>
    obtain rfl := ok_pure_iff.mp hcompleted
    exact ⟨h.nears_abandon hsuspended hhold, hdrained⟩
  | restoreFails fallback =>
    have hhost := (h.guest_hold hne hold hhold).1
    simp only [State.admitComplete, hhost] at hcompleted
    obtain rfl := ok_pure_iff.mp hcompleted
    exact ⟨h.nears_abandon hsuspended hhold, hdrained⟩
  | starts outcome =>
    have hextends : Extends s s' :=
      extends_of_accepted (h.onward.admitComplete hhold hcompleted)
    have hshort := (h.guest_hold hne hold hhold).2.2.2
    have howner : s.prefillLane = none := (h.held hold hhold).2
    have hother := h.owner_ne_held hhold
    have hclose : s'.suspendedPrefillLane = s.suspendedPrefillLane ∧ s'.copyHold = none ∧
        distance e s' ≤ remainingTokens (stagedAt hold.plan) := by
      simp only [State.admitComplete, State.startPrefill] at hcompleted
      split_ifs at hcompleted
      · exact distance_prefillStep (s := ({ s with copyHold := none } : State n).takeOver hold.lane)
          rfl (.inr rfl) hother hcompleted
      · exact distance_prefillStep (s := { s with copyHold := none })
          rfl (.inl howner) hother hcompleted
    obtain ⟨hs, hh, hle⟩ := hclose
    have hbefore := distance_of_hold (e := e) hhold
    exact ⟨⟨hextends, hs.trans hsuspended, by omega, fun _ => by omega⟩, hh⟩

lemma Sound.nears_serveHold (hsuspended : s.suspendedPrefillLane = some a)
    (hhold : s.copyHold = some hold) (hserve : s.serveHold e hold input = .ok s') : Nears e a input
    s s' := by
  have hne : s.suspendedPrefillLane ≠ none := by simp [hsuspended]
  unfold State.serveHold at hserve
  split_ifs at hserve with hsettling hwait hcancel hwait
  · obtain rfl := ok_pure_iff.mp hserve
    refine h.nears_decode hsuspended hhold fun hlands => ?_
    rw [hlands.1] at hwait
    exact absurd hwait.2 (by simp)
  · obtain rfl := ok_pure_iff.mp hserve
    exact h.nears_abandon hsuspended hhold
  · -- A short request is not restored, so its restore has not failed.
    have hfailed := (h.guest_hold hne hold hhold).2.2.1
    rcases hsettling with hc | hf
    · exact absurd hc hcancel
    · rw [hf] at hfailed
      cases hfailed
  · obtain rfl := ok_pure_iff.mp hserve
    refine h.nears_decode hsuspended hhold fun hlands => ?_
    rw [hlands.2.1] at hwait
    exact absurd hwait.2 (by simp)
  · obtain ⟨next, hnext, hserve⟩ := ok_bind_iff.mp hserve
    cases hwaiting : input.holdOutcome.waiting with
    | false =>
      obtain ⟨hnears, hfree⟩ := h.nears_admitComplete input hsuspended hhold hwaiting hnext
      rw [if_neg (by simp [hfree])] at hserve
      obtain rfl := ok_pure_iff.mp hserve
      exact hnears
    | true =>
      have hwaits : ¬Lands input := fun hlands => by
        rw [hlands.2.2] at hwaiting
        cases hwaiting
      have hsame : next = s := by
        cases houtcome : input.holdOutcome with
        | waits =>
          rw [houtcome] at hnext
          exact (ok_pure_iff.mp hnext).symm
        | fails | restoreFails | starts => simp [houtcome, HoldOutcome.waiting] at hwaiting
      obtain rfl := hsame
      split_ifs at hserve
      · obtain rfl := ok_pure_iff.mp hserve
        exact h.nears_decode hsuspended hhold hwaits
      · obtain rfl := ok_pure_iff.mp hserve
        exact ⟨Extends.refl, hsuspended, le_rfl, fun hlands => absurd hlands hwaits⟩

/-- The short request is not interrupted and not paced: each pass takes a step of it. -/
lemma Sound.nears_servePrefill (hsuspended : s.suspendedPrefillLane = some a)
    {b : Fin n} (hhold : s.copyHold = none) (howner : s.prefillLane = some b)
    (hserve : s.servePrefill e input = .ok s') : Nears e a input s s' := by
  have hne : s.suspendedPrefillLane ≠ none := by simp [hsuspended]
  have hstable : s.stableDecodeEpoch = false :=
    Bool.eq_false_iff.mpr fun hstable => hne (h.stable hstable)
  have hextends : Extends s s' := extends_of_accepted (h.onward.servePrefill hstable hserve)
  have hserve' : s.serveOwner e input = .ok s' := by
    have htry : s.tryInterruptPrefill e input.interrupter = (s, false) := by
      cases hc : input.interrupter with
      | none => simp only [State.tryInterruptPrefill, howner]
      | some c =>
        have hmay : s.mayInterrupt e b c = false := by simp [State.mayInterrupt, hsuspended]
        simp only [State.tryInterruptPrefill, howner, hmay, Bool.false_eq_true, if_false]
    have hresume : s.resumeSuspendedPrefill = .ok s := by
      simp only [State.resumeSuspendedPrefill, howner, hsuspended]
      rfl
    simp only [State.servePrefill, htry, Bool.false_eq_true, if_false, hresume] at hserve
    split_ifs at hserve
    · exact hserve
    · exact hserve
  have hpace : s.prefillPace e (s.prefillLane.elim 0 s.prefillRemainingTokens) = .exclusive := by
    rw [howner]
    exact if_pos (.inr (h.guest_owner hne b howner))
  rcases serveOwner_spec hserve' with ⟨hshared, -⟩ | ⟨pace, next, hnext, rfl⟩
  · rw [hpace] at hshared
    cases hshared
  · obtain ⟨lane, staged, hlane, hslot, hstep⟩ := runPrefillStep_spec hnext
    obtain rfl := Option.some.inj (howner.symm.trans hlane)
    have hother : s.suspendedPrefillLane ≠ some b := fun hs =>
      (h.suspended_prefilling b hs).2 howner
    obtain ⟨hs, -, hle⟩ := distance_prefillStep hhold (.inr howner) hother hstep
    have hbefore := distance_of_owner (e := e) hhold howner
    rw [State.prefillRemainingTokens_eq hslot] at hbefore
    have hafter : distance e { next with decodeRoundsSincePrefill := 0 } = distance e next := rfl
    exact ⟨hextends, hs.trans hsuspended, by omega, fun _ => by omega⟩

/-- A pass lets the suspended request pass on or brings its resumption closer. -/
lemma Sound.nears_iterate (hsuspended : s.suspendedPrefillLane = some a)
    (hiterate : s.iterate e input = .ok s') : Passed a s s' ∨ Nears e a input s s' := by
  rcases iterate_spec hiterate with ⟨hstable, -⟩ | ⟨resumed, hresumed, hdispatch⟩
  · rw [h.stable hstable] at hsuspended
    cases hsuspended
  · have hunstable : Sound past e p { s with stableDecodeEpoch := false } :=
      { h with stable := nofun }
    obtain ⟨p₁, h₁⟩ := hunstable.cancelActiveRequests input.cancelled
    have hdispatched : ∀ {past' p'}, Sound past' e p' resumed → Accepted past' e s' := fun h' =>
      h'.dispatch (by rw [State.stable_of_resumed hresumed, State.stable_cancelActiveRequests])
        (State.suspended_none_of_resumed hresumed) hdispatch
    obtain ⟨_, hsame, p₂, h₂⟩ := h₁.onward.resumeSuspendedPrefill
    obtain rfl := Except.ok.inj (hresumed.symm.trans hsame)
    rcases hunstable.keeps_cancelActiveRequests hsuspended input.cancelled with
      hpassed | ⟨hcancels, hs, hle⟩
    · exact .inl (hpassed.extends (extends_of_accepted (hdispatched h₂)))
    · set u :=
        ({ s with stableDecodeEpoch := false } : State n).cancelActiveRequests input.cancelled
      have hcancels' : Extends s u := hcancels
      have hle' : distance e u ≤ distance e s := hle
      -- Unless the resumption is due, the pass goes on with an admission or with its prefill.
      have hnears : Nears e a input u s' → Nears e a input s s' := fun hn =>
        ⟨hcancels'.trans hn.extends', hn.suspended, hn.le.trans hle',
          fun hlands => (hn.lt hlands).trans_le hle'⟩
      cases hhold : u.copyHold with
      | some hold =>
        have hsame : resumed = u := by
          simp only [State.resumeSuspendedPrefill, hs, (h₁.held hold hhold).2, hhold] at hresumed
          exact (ok_pure_iff.mp hresumed).symm
        rw [hsame] at hdispatch
        simp only [State.dispatch, hhold] at hdispatch
        exact .inr (hnears (h₁.nears_serveHold hs hhold hdispatch))
      | none =>
        cases howner : u.prefillLane with
        | some b =>
          have hsame : resumed = u := by
            simp only [State.resumeSuspendedPrefill, hs, howner] at hresumed
            exact (ok_pure_iff.mp hresumed).symm
          rw [hsame] at hdispatch
          simp only [State.dispatch, hhold, howner] at hdispatch
          exact .inr (hnears (h₁.nears_servePrefill hs hhold howner hdispatch))
        | none =>
          refine .inl ((hcancels'.passed ?_).extends (extends_of_accepted (hdispatched h₂.onward)))
          simp only [State.resumeSuspendedPrefill, hs, howner, hhold] at hresumed
          split_ifs at hresumed
          obtain rfl := ok_pure_iff.mp hresumed
          exact ⟨[.resumes a], rfl, .inl (List.mem_singleton_self _)⟩

end

end Passes

/-! ## Runs -/

variable {states : ℕ → State n} {inputs : ℕ → Input n}

lemma reachable_of_run (hstart : Reachable e (states 0))
    (hrun : ∀ i, (states i).iterate e (inputs i) = .ok (states (i + 1))) (i : ℕ) :
    Reachable e (states i) := by
  induction i with
  | zero => exact hstart
  | succ i ih => exact .iterate ih (hrun i)

/-- In a run whose copies land again and again, a suspended request passes on. -/
lemma passed_of_run (hstart : Reachable e (states 0))
    (hrun : ∀ i, (states i).iterate e (inputs i) = .ok (states (i + 1)))
    (hlands : ∀ i, ∃ j, i ≤ j ∧ Lands (inputs j)) {i : ℕ} {a : Fin n}
    (hsuspended : (states i).suspendedPrefillLane = some a) :
    ∃ j, i < j ∧ Passed a (states i) (states j) := by
  -- Until it passes on, the request stays suspended.
  have hwaits : ∀ d, Passed a (states i) (states (i + d)) ∨
      Extends (states i) (states (i + d)) ∧ (states (i + d)).suspendedPrefillLane = some a := by
    intro d
    induction d with
    | zero => exact .inr ⟨Extends.refl, hsuspended⟩
    | succ d ih =>
      obtain ⟨p, hp⟩ := (reachable_of_run hstart hrun (i + d)).sound
      rcases ih with hpassed | ⟨hextends, hs⟩
      · refine .inl (hpassed.extends ?_)
        exact extends_of_accepted (hp.onward.iterate (hrun (i + d)))
      · rcases hp.nears_iterate hs (hrun (i + d)) with hpassed | hnears
        · exact .inl (hextends.passed hpassed)
        · exact .inr ⟨hextends.trans hnears.extends', hnears.suspended⟩
  obtain ⟨d, hd⟩ := exists_of_fair_descent (Q := fun d => Passed a (states i) (states (i + d)))
    (μ := fun d => distance e (states (i + d))) (F := fun d => Lands (inputs (i + d)))
    (fun d hnot hnot' => by
      obtain ⟨p, hp⟩ := (reachable_of_run hstart hrun (i + d)).sound
      obtain ⟨hextends, hs⟩ := (hwaits d).resolve_left hnot
      rcases hp.nears_iterate hs (hrun (i + d)) with hpassed | hnears
      · exact absurd (hextends.passed hpassed) hnot'
      · exact ⟨hnears.le, hnears.lt⟩)
    (fun d => by
      obtain ⟨j, hj, hland⟩ := hlands (i + d)
      obtain ⟨k, rfl⟩ := Nat.exists_eq_add_of_le hj
      exact ⟨d + k, by omega, by rwa [← Nat.add_assoc]⟩)
  refine ⟨i + d, ?_, hd⟩
  rcases Nat.eq_zero_or_pos d with rfl | hpos
  · obtain ⟨actions, hactions, hmem⟩ := hd
    have hnil : actions = [] := List.self_eq_append_right.mp hactions
    rw [hnil] at hmem
    exact absurd hmem (by simp)
  · omega

/-- **The suspension protocol.**  In every state the worker loop reaches, the suspended owner is
still prefilling in its lane and is not the owner, and the log keeps to the protocol: until a
suspended owner resumes or leaves, one other request takes the prefill slot at most; and between two
interruptions, during the first of which a request was admitted, the owner completes a nonempty
chunk, or its prefill ends.  In every run whose copies land again and again, a suspended owner
resumes, or its request leaves. -/
theorem prefill_suspension (e : Executor) :
    (∀ s : State n, Reachable e s →
      (∀ a, s.suspendedPrefillLane = some a → s.Prefilling a ∧ s.prefillLane ≠ some a) ∧
      (∃ p, Protocol.run s.log = some p ∧ p.owner = s.prefillLane ∧
        p.suspended = s.suspendedPrefillLane) ∧
      (∀ before log a, s.log = before ++ .suspends a :: log → .resumes a ∉ log →
        .leaves a ∉ log → (log.filter Protocol.isStart).length ≤ 1) ∧
      ∀ before between rest a,
        s.log = before ++ .suspends a :: between ++ .suspends a :: rest →
        (∃ b, .binds b ∈ between) → ∃ action ∈ between, Protocol.Settles a action) ∧
    ∀ (states : ℕ → State n) (inputs : ℕ → Input n), Reachable e (states 0) →
      (∀ i, (states i).iterate e (inputs i) = .ok (states (i + 1))) →
      (∀ i, ∃ j, i ≤ j ∧ Lands (inputs j)) →
      ∀ i a, (states i).suspendedPrefillLane = some a →
        ∃ j, i < j ∧ Passed a (states i) (states j) := by
  refine ⟨fun s hs => ?_, fun states inputs hstart hrun hlands i a hsuspended =>
    passed_of_run hstart hrun hlands hsuspended⟩
  obtain ⟨p, hp⟩ := hs.sound
  refine ⟨fun a ha => ?_, ⟨p, hp.accepted.2, hp.owner, hp.suspended⟩,
    fun before log a hlog hresumes hleaves => ?_, fun before between rest a hlog hbinds => ?_⟩
  · obtain ⟨hsuspendable, hne⟩ := hp.suspended_prefilling a ha
    obtain ⟨staged, hslot, -⟩ := State.exists_of_prefillSuspendable hsuspendable
    exact ⟨⟨staged, hslot⟩, hne⟩
  · exact Protocol.starts_le_one (hlog ▸ hp.accepted.2) hresumes hleaves
  · exact Protocol.settles_between (hlog ▸ hp.accepted.2) hbinds

/-- Two lanes, and prefill steps of 1024 tokens. -/
def twoLanes : Executor where
  program :=
    { target := .qwen3627b
      options := { maxContext := 8192, prefillChunk := 1024, mixedForward := 256,
                   maxConcurrency := 2 }
      valid := rfl }
  mixedForwardMinTokens := 512

/-- The plan of a cold text prompt. -/
def coldPlan (tokens : ℕ) : RequestPlan where
  base := ⟨tokens, 1, ⟨1, pagesForTokens tokens, 0⟩, none, 1⟩
  prompt := { shape := { tokens }, sorted := sorted_nil }
  reuseBase := 0
  visionUses := []
  rewriteCheckpointCapture := none
  serviceWorkQuanta := 1

/-- Passes that follow one another. -/
def passes (e : Executor) : List (Input n) → State n → Except String (State n)
  | [], s => return s
  | input :: inputs, s => s.iterate e input >>= passes e inputs

lemma Reachable.passes {inputs : List (Input n)} (hs : Reachable e s)
    (h : Suspension.passes e inputs s = .ok s') : Reachable e s' := by
  induction inputs generalizing s with
  | nil => exact ok_pure_iff.mp h ▸ hs
  | cons input inputs ih =>
    obtain ⟨t, ht, h⟩ := ok_bind_iff.mp h
    exact ih (.iterate hs ht) h

/-- A long prompt is prefilled in lane 0 and interrupted twice by short ones in lane 1. -/
def interruptedTwice : List (Input 2) :=
  let short : Candidate 2 := ⟨1, coldPlan 100, false, .holds⟩
  [{ havePending := true, admission := some ⟨0, coldPlan 5000, false, .holds⟩ }, {},
    { havePending := true, interrupter := some short }, { holdOutcome := .starts .finishes }, {},
    { havePending := true, interrupter := some short }]

theorem prefill_suspension_interruptedTwice : ∃ s : State 2, Reachable twoLanes s ∧
    s.suspendedPrefillLane = some 0 ∧ s.Prefilling 0 ∧ s.prefillLane ≠ some 0 ∧
      ∃ action ∈ [Action.binds 1, .starts 1, .chunk 1, .stops 1, .leaves 1, .resumes 0, .chunk 0],
        Protocol.Settles (0 : Fin 2) action := by
  obtain ⟨s, hs, hsuspended, hlog⟩ : ∃ s ∈ (passes twoLanes interruptedTwice {}).toOption,
      s.suspendedPrefillLane = some 0 ∧
      s.log = [.binds 0, .starts 0, .chunk 0] ++ .suspends 0 ::
        [.binds 1, .starts 1, .chunk 1, .stops 1, .leaves 1, .resumes 0, .chunk 0] ++
        .suspends 0 :: [.binds 1] := by
    decide +kernel
  have hreachable : Reachable twoLanes s := Reachable.start.passes (ok_of_mem_toOption hs)
  obtain ⟨hprefilling, -, -, hsettles⟩ := (prefill_suspension twoLanes).1 s hreachable
  obtain ⟨hprefilling, howner⟩ := hprefilling 0 hsuspended
  exact ⟨s, hreachable, hsuspended, hprefilling, howner, hsettles _ _ _ 0 hlog ⟨1, by simp⟩⟩

end NInfer.Suspension
