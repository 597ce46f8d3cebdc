import NInfer.Admission.Safety

/-!
# Fairness

What the queue promises to the requests in it.  A request that is not a backfill is admitted in the
order of the queue (`admitted_in_order`).  A protected head waits for its donors and for the
requests that overtook it for a time: once they are gone, it fits (`protected_head_fits`), and what
overtook it for a time was no more work than the last donor had left when the head was protected.
-/

namespace NInfer.Admission

open NInfer.Prefill

variable {e : Engine} {s : State e} {q : Queued e} {progress : AdmissionProgress}
  {backfillClass : BackfillClass} {active : List ActiveAdmissionSnapshot}

/-! ## Who is admitted -/

/-- The request that an event admits: its hold is new. -/
def admitted (s s' : State e) : Option (Slot e) :=
  if s.copyHold.isSome then none else s'.copyHold.bind fun hold => s'.slots hold.lane

section Admitted

variable {s s₁ s' : State e}

lemma admitted_eq_none (h : ∀ hold ∈ s'.copyHold, hold ∈ s.copyHold) : admitted s s' = none := by
  unfold admitted
  split
  · rfl
  · rename_i hfree
    have hnone : s'.copyHold = none := by
      rw [Option.eq_none_iff_forall_not_mem]
      intro hold hhold
      exact hfree (Option.isSome_iff_exists.mpr ⟨hold, h hold hhold⟩)
    rw [hnone]
    rfl

lemma Carries.admitted_eq_none (h : Carries s s') : admitted s s' = none := by
  apply NInfer.Admission.admitted_eq_none
  cases h with
  | submits submission heq =>
    rw [heq]
    exact fun _ h => h
  | stays _ _ hhold => exact hhold
  | requeues _ _ _ _ _ hhold => simp [hhold]

lemma Waits.admitted_eq_none (h : Waits s s') : admitted s s' = none := by
  apply NInfer.Admission.admitted_eq_none
  rw [h.copyHold]
  exact fun _ h => h

lemma bindLane_admitted {c : Candidate e q.prompt} {victimLanes : List e.Lane} {backfillEpoch : ℕ}
    (hhold : s.copyHold = none)
    (h : bindLane s₁ q c victimLanes backfillClass backfillEpoch = .ok s') :
    admitted s s' = some { queued := q, plan := c.plan, request := (q.admission c.plan).request
                           backfillEpoch, backfillClass } := by
  obtain ⟨_, -, -, -, hslots, ⟨hold, hnew, hlane⟩, -⟩ := bindLane_cases h
  simp [admitted, hhold, hnew, hslots, hlane]

end Admitted

/-! ## The order of the queue -/

/-- Nobody is admitted before an earlier request that could be served. -/
structure InOrder (s s' : State e) (env : Env e) (q : Queued e) : Prop where
  queued : ∃ r ∈ s.pending, q.Same r
  live : State.gone env q = false ∧ env.late q.id = false
  earliest : ∀ r ∈ s'.pending, r.queueOrder < q.queueOrder → State.gone env r = true

variable {c : Candidate e q.prompt} {backfillEpoch : ℕ} {env : Env e} {slot : Slot e}

/-- A request that is bound is in order if those before it are gone. -/
lemma admitPlannedRequest_inOrder {s₁ s' : State e} (hhold : s.copyHold = none)
    (hwaits : Waits s s₁) (hq : q ∈ s₁.pending)
    (hearliest : ∀ r ∈ s₁.pending, r.queueOrder < q.queueOrder → State.gone env r = true)
    (h : admitPlannedRequest s₁ env q c backfillClass backfillEpoch = .ok (s', progress))
    (hslot : slot ∈ admitted s s') :
    slot.backfillClass = backfillClass ∧ InOrder s s' env slot.queued := by
  obtain ⟨hwaits', -⟩ | ⟨-, hlive, hlate, victimLanes, hbind⟩ := admitPlannedRequest_cases h
  · rw [(hwaits.trans hwaits').admitted_eq_none] at hslot
    cases hslot
  · rw [bindLane_admitted hhold hbind] at hslot
    obtain rfl := Option.some.inj hslot
    obtain ⟨_, -, -, hpending, -⟩ := bindLane_cases hbind
    refine ⟨rfl, hwaits.pending.mem q hq, ⟨hlive, hlate⟩, fun r hr => hearliest r ?_⟩
    rw [hpending] at hr
    exact List.mem_of_mem_filter hr

lemma Ordered.head_earliest (h : Ordered s) {head : Queued e} {rest : List (Queued e)}
    (hpending : s.pending = head :: rest) : ∀ r ∈ s.pending, head.queueOrder ≤ r.queueOrder := by
  have hsorted := h.sorted
  rw [hpending, List.map_cons, List.pairwise_cons] at hsorted
  intro r hr
  rw [hpending] at hr
  rcases List.mem_cons.mp hr with rfl | hr
  · exact le_rfl
  · exact (hsorted.1 _ (List.mem_map_of_mem hr)).le

lemma Ordered.found_earliest (h : Ordered s)
    (hfound : s.pending.find? (State.gone env · = false) = some q) :
    ∀ r ∈ s.pending, r.queueOrder < q.queueOrder → State.gone env r = true := by
  obtain ⟨-, before, after, hsplit, hbefore⟩ := List.find?_eq_some_iff_append.mp hfound
  have hsorted := h.sorted
  rw [hsplit, List.map_append, List.map_cons, List.pairwise_append, List.pairwise_cons] at hsorted
  intro r hr hlt
  rw [hsplit] at hr
  rcases List.mem_append.mp hr with hr | hr
  · simpa using hbefore r hr
  · rcases List.mem_cons.mp hr with rfl | hr
    · exact absurd hlt (lt_irrefl _)
    · have := hsorted.2.1.1 _ (List.mem_map_of_mem hr)
      omega

/-- In every state the queue is strictly sorted by `queue_order`, and a request which is admitted,
and is not a backfill, is the earliest one that is neither cancelled nor expired. -/
theorem admitted_in_order {s : State e} (h : Reachable s) :
    (s.pending.map (·.queueOrder)).Pairwise (· < ·) ∧
      ∀ event s', s.Enabled event → s.step event = .ok s' → ∀ slot ∈ admitted s s',
        slot.backfillClass = .none → ∃ env, event.looks = some env ∧
          InOrder s s' env slot.queued := by
  have hordered := h.ordered
  refine ⟨hordered.sorted, fun event s' henabled hstep slot hslot hclass => ?_⟩
  cases event with
  | tryAdmit env =>
    refine ⟨env, rfl, ?_⟩
    have hhold := Option.isNone_iff_eq_none.mp henabled.1
    obtain ⟨⟨_, progress⟩, hok, rfl⟩ := ok_map_iff.mp hstep
    cases tryAdmitOne_cases hordered.nodup hok with
    | empty hwaits =>
      rw [hwaits.admitted_eq_none] at hslot
      cases hslot
    | admits hwaits hpending _ _ _ hadmits =>
      refine (admitPlannedRequest_inOrder hhold hwaits ?_ ?_ hadmits hslot).2
      · rw [hpending]
        exact List.mem_cons_self
      · intro r hr hlt
        have := (hordered.waits hwaits).head_earliest hpending r hr
        omega
    | protects hwaits =>
      rw [hwaits.admitted_eq_none] at hslot
      cases hslot
    | overtakes hwaits _ _ _ hbackfill hadmits =>
      obtain ⟨hwaits', -⟩ | ⟨-, -, -, _, hbind⟩ := admitPlannedRequest_cases hadmits
      · rw [(hwaits.trans hwaits').admitted_eq_none] at hslot
        cases hslot
      · rw [bindLane_admitted hhold hbind] at hslot
        obtain rfl := Option.some.inj hslot
        exact absurd hclass hbackfill
  | tryInterrupt env =>
    refine ⟨env, rfl, ?_⟩
    have hhold := Option.isNone_iff_eq_none.mp henabled.1
    obtain ⟨⟨_, progress⟩, hok, rfl⟩ := ok_map_iff.mp hstep
    rcases tryInterruptPrefill_cases hok with heq | ⟨q, hfound, c, hadmits⟩
    · cases heq
      rw [(Waits.refl s).admitted_eq_none] at hslot
      cases hslot
    · exact (admitPlannedRequest_inOrder hhold (.refl s) (List.mem_of_find?_eq_some hfound)
        (hordered.found_earliest hfound) hadmits hslot).2
  | submit | leave | endHold | advance | startRecovery =>
    rw [(step_carries rfl hstep).admitted_eq_none] at hslot
    cases hslot

/-- Two requests are submitted and the first is admitted. -/
theorem admitted_in_order_first :
    ∃ s s' : State twoLanes, Reachable s ∧ s.step (.tryAdmit coldEnv) = .ok s' ∧ s'.pending ≠ [] ∧
      ∃ slot ∈ admitted s s', slot.backfillClass = .none ∧ InOrder s s' coldEnv slot.queued := by
  have hrun : ∃ s ∈ State.run {} [.submit (shortRequest 300 5 false (by decide +kernel)),
        .submit longRequest], s.Enabled (.tryAdmit coldEnv) ∧
      ∃ s' ∈ (s.step (.tryAdmit coldEnv)).toOption, s'.pending.isEmpty = false ∧
        ∃ slot ∈ admitted s s', slot.backfillClass = .none := by
    decide +kernel
  obtain ⟨s, hs, henabled, s', hs', hpending, slot, hslot, hclass⟩ := hrun
  have hreachable := (Admissible.init.run hs).reachable
  have hstep := ok_of_mem_toOption hs'
  obtain ⟨env, henv, horder⟩ :=
    (admitted_in_order hreachable).2 _ s' henabled hstep slot hslot hclass
  cases henv
  exact ⟨s, s', hreachable, hstep, by simpa using hpending, slot, hslot, hclass, horder⟩

/-! ## The resources of the bound requests -/

/-- The resources of the bound requests of a kind. -/
def State.totalsOf (s : State e) (kind : Slot e → Bool) : ResourceTotals :=
  ∑ lane, (s.slots lane).elim 0 fun slot => if kind slot then totals slot.request.admission else 0

namespace State

variable {s s' : State e} {kind : Slot e → Bool}

lemma totals_nonneg (t : ResourceTotals) : 0 ≤ t :=
  ⟨Nat.zero_le _, Nat.zero_le _, Nat.zero_le _⟩

lemma totalsOf_mono
    (h : ∀ lane, ∀ slot' ∈ s'.slots lane, kind slot' = true → ∃ slot ∈ s.slots lane,
      kind slot = true ∧ slot'.request.admission = slot.request.admission) :
    s'.totalsOf kind ≤ s.totalsOf kind := by
  refine Finset.sum_le_sum fun lane _ => ?_
  cases hslot' : s'.slots lane with
  | none => exact totals_nonneg _
  | some slot' =>
    rw [Option.elim_some]
    split
    · rename_i hkind
      obtain ⟨slot, hslot, hkind, hadmission⟩ := h lane slot' hslot' hkind
      rw [Option.mem_def.mp hslot, Option.elim_some, if_pos hkind, hadmission]
    · exact totals_nonneg _

/-- A request that is bound adds its resources. -/
lemma totalsOf_update_le {lane : e.Lane} {slot : Slot e}
    (h : s'.slots = Function.update s.slots lane (some slot)) :
    s'.totalsOf kind ≤ s.totalsOf kind +
      if kind slot then totals slot.request.admission else 0 := by
  have hsingle : s.totalsOf kind + (if kind slot then totals slot.request.admission else 0) =
      ∑ other, ((s.slots other).elim 0 (fun slot =>
        if kind slot then totals slot.request.admission else 0) +
          if other = lane then (if kind slot then totals slot.request.admission else 0)
          else 0) := by
    rw [Finset.sum_add_distrib, Finset.sum_ite_eq' Finset.univ lane, if_pos (Finset.mem_univ lane)]
    rfl
  rw [hsingle]
  refine Finset.sum_le_sum fun other _ => ?_
  rw [h]
  by_cases hother : other = lane
  · subst hother
    rw [Function.update_self, if_pos rfl]
    exact le_add_of_nonneg_left (totals_nonneg _)
  · rw [Function.update_of_ne hother, if_neg hother, add_zero]

end State

/-- The snapshot that `active_admission_set` takes of a bound request. -/
def Slot.snapshot (slot : Slot e) : ActiveAdmissionSnapshot where
  requestId := slot.queued.id
  resources := slot.request.admission
  remainingWorkQuanta := slot.request.remainingServiceWork
  backfillEpoch := slot.backfillEpoch
  backfillClass := slot.backfillClass

lemma mem_activeAdmissionSet (h : s.activeAdmissionSet = .ok active) {lane : e.Lane}
    (hslot : s.slots lane = some slot) : slot.snapshot ∈ active := by
  rw [State.activeAdmissionSet, refuseIf_bind_iff] at h
  rw [← ok_pure_iff.mp h.2]
  refine List.mem_map.mpr ⟨slot, List.mem_filterMap.mpr ⟨lane, ?_, hslot⟩, rfl⟩
  exact List.mem_finRange lane

lemma of_mem_activeAdmissionSet (h : s.activeAdmissionSet = .ok active)
    {request : ActiveAdmissionSnapshot} (hrequest : request ∈ active) :
    ∃ lane, ∃ slot ∈ s.slots lane, slot.snapshot = request := by
  rw [State.activeAdmissionSet, refuseIf_bind_iff] at h
  rw [← ok_pure_iff.mp h.2] at hrequest
  obtain ⟨slot, hslot, rfl⟩ := List.mem_map.mp hrequest
  obtain ⟨lane, -, hlane⟩ := List.mem_filterMap.mp hslot
  exact ⟨lane, slot, hlane, rfl⟩

/-- The active requests of a kind hold the resources of the bound ones of that kind. -/
lemma activeTotals_filter (h : s.activeAdmissionSet = .ok active)
    (kind : ActiveAdmissionSnapshot → Bool) :
    activeTotals (active.filter kind) = s.totalsOf fun slot => kind slot.snapshot := by
  rw [State.activeAdmissionSet, refuseIf_bind_iff] at h
  rw [← ok_pure_iff.mp h.2]
  have hlist : ∀ slots : List (Slot e),
      activeTotals ((slots.map Slot.snapshot).filter kind) =
        (slots.map fun slot =>
          if kind slot.snapshot then totals slot.request.admission else 0).sum := by
    intro slots
    induction slots with
    | nil => rfl
    | cons slot slots ih =>
      rw [List.map_cons, List.map_cons, List.sum_cons, ← ih]
      by_cases hkind : kind slot.snapshot = true
      · rw [List.filter_cons_of_pos hkind, if_pos hkind]
        rfl
      · rw [List.filter_cons_of_neg hkind, if_neg hkind, zero_add]
  refine (hlist _).trans ?_
  rw [sum_filterMap]
  rfl

/-! ## Epochs are numbered -/

/-- An admission makes no protection. -/
lemma protection_of_admits {s' : State e}
    (h : admitPlannedRequest s env q c backfillClass backfillEpoch = .ok (s', progress))
    {current' : AdmissionProtection} (hcurrent' : current' ∈ s'.protection) :
    ∃ current ∈ s.protection, current.epochId = current'.epochId ∧
      current.headRequestId = current'.headRequestId := by
  obtain ⟨-, hguarded, -⟩ | ⟨-, -, -, _, hbind⟩ := admitPlannedRequest_cases h
  · exact ⟨current', hguarded.protection _ hcurrent', rfl, rfl⟩
  · obtain ⟨protection, hcredit, hprotection, -⟩ := bindLane_cases hbind
    rw [hprotection] at hcurrent'
    have hcurrent' := (Option.mem_filter_iff.mp hcurrent').1
    unfold spendCredit at hcredit
    split at hcredit
    swap
    · rw [ok_pure_iff.mp hcredit]
      exact ⟨current', hcurrent', rfl, rfl⟩
    split at hcredit
    · rename_i before hbefore
      rw [refuseIf_bind_iff] at hcredit
      rw [← ok_pure_iff.mp hcredit.2] at hcurrent'
      cases hcurrent'
      exact ⟨before, hbefore, rfl, rfl⟩
    · cases hcredit

lemma nextProtectionEpoch_of_admits {s' : State e}
    (h : admitPlannedRequest s env q c backfillClass backfillEpoch = .ok (s', progress)) :
    s'.nextProtectionEpoch = s.nextProtectionEpoch := by
  obtain ⟨-, hguarded, -⟩ | ⟨-, -, -, _, hbind⟩ := admitPlannedRequest_cases h
  · exact hguarded.epoch
  · obtain ⟨_, -, -, -, -, -, -, -, hepoch⟩ := bindLane_cases hbind
    exact hepoch

/-- The epochs of protections were handed out before. -/
def State.EpochsBelow (s : State e) : Prop :=
  ∀ protection ∈ s.protection, protection.epochId < s.nextProtectionEpoch

namespace State.EpochsBelow

variable {s s' : State e}

lemma admits (h : s.EpochsBelow) {env : Env e} {c : Candidate e q.prompt} {backfillEpoch : ℕ}
    (hadmits : admitPlannedRequest s env q c backfillClass backfillEpoch = .ok (s', progress)) :
    s'.EpochsBelow := by
  intro current' hcurrent'
  obtain ⟨current, hcurrent, hepoch, -⟩ := protection_of_admits hadmits hcurrent'
  rw [nextProtectionEpoch_of_admits hadmits, ← hepoch]
  exact h current hcurrent

lemma guards (h : s.EpochsBelow) {head : Queued e} {protection : AdmissionProtection}
    (hguards : Guards s s' head active protection) : s'.EpochsBelow := by
  intro current hcurrent
  rw [hguards.guarded] at hcurrent
  cases hcurrent
  rcases hguards.origin with ⟨before, hbefore, hphase, hnext⟩ | ⟨made, hmade, hphase, hnext⟩
  · rw [hnext, hphase]
    exact h before hbefore
  · rw [hnext, hphase]
    exact (makeAdmissionProtection_spec hmade).epoch.trans_lt (Nat.lt_succ_self _)

lemma tryAdmit (h : s.EpochsBelow) {env : Env e} {result : State e × AdmissionProgress}
    (hcases : TryAdmit env s (.ok result)) : result.1.EpochsBelow := by
  cases hcases with
  | empty _ hnone => simp [EpochsBelow, hnone]
  | admits _ _ hnext hsub _ hadmits =>
    refine admits (fun current hcurrent => ?_) hadmits
    rw [hnext]
    exact h current (hsub current hcurrent)
  | protects _ _ hguards => exact h.guards hguards
  | overtakes _ _ hguards _ _ hadmits => exact (h.guards hguards).admits hadmits

lemma guarded (h : s.EpochsBelow) (hguarded : Guarded s s') : s'.EpochsBelow := by
  intro current hcurrent
  rw [hguarded.epoch]
  exact h current (hguarded.protection current hcurrent)

lemma carries (h : s.EpochsBelow) (hcarries : Carries s s') : s'.EpochsBelow := by
  cases hcarries with
  | submits submission heq =>
    rw [heq]
    exact h
  | stays _ _ _ hguarded => exact h.guarded hguarded
  | requeues _ _ _ _ _ _ hguarded => exact h.guarded hguarded

end State.EpochsBelow

lemma Reachable.epochsBelow (h : Reachable s) : s.EpochsBelow := by
  induction h with
  | init => exact fun _ h => by cases h
  | step event hreachable _ hstep ih =>
    cases event with
    | tryAdmit env =>
      obtain ⟨result, hok, rfl⟩ := ok_map_iff.mp hstep
      exact ih.tryAdmit (tryAdmitOne_cases hreachable.ordered.nodup hok)
    | tryInterrupt env =>
      obtain ⟨⟨_, progress⟩, hok, rfl⟩ := ok_map_iff.mp hstep
      rcases tryInterruptPrefill_cases hok with heq | ⟨q, -, c, hadmits⟩
      · cases heq
        exact ih
      · exact ih.admits hadmits
    | submit | leave | endHold | advance | startRecovery =>
      exact ih.carries (step_carries rfl hstep)

/-! ## Protection epochs -/

/-- What an event admits as a temporal backfill of an epoch. -/
def temporalWork (epochId : ℕ) (s s' : State e) : ℕ :=
  (admitted s s').elim 0 fun slot =>
    if slot.backfillClass = .temporal ∧ slot.backfillEpoch = epochId then
      slot.queued.serviceWork slot.plan
    else 0

/-- The request is neither cancelled nor expired when an event looks for a request to admit. -/
def State.Wanted (s : State e) (id : ℕ) (event : Event e) : Prop :=
  ∀ env ∈ event.looks, ∀ q ∈ s.pending, q.id = id → State.gone env q = false

/-- The states of one epoch, with the work of the temporal backfills admitted so far.  It opens when
`try_admit_one` protects a head, and lasts while the head is protected and still wanted. -/
inductive Epoch (opening : AdmissionProtection) : State e → ℕ → Prop
  | opens {s s' : State e} {env : Env e} {head : Queued e}
      {active : List ActiveAdmissionSnapshot} : Reachable s → s.Enabled (.tryAdmit env) →
      s.step (.tryAdmit env) = .ok s' → head ∈ s.pending → s.activeAdmissionSet = .ok active →
      makeAdmissionProtection s.nextProtectionEpoch head.id head.base.admission active
        e.admissionCapacity = .ok opening →
      (∃ current ∈ s'.protection, current.epochId = opening.epochId ∧
        current.headRequestId = head.id) → Epoch opening s' (temporalWork opening.epochId s s')
  | step {s s' : State e} {spent : ℕ} (event : Event e) : Epoch opening s spent →
      s.Enabled event → s.Wanted opening.headRequestId event → s.step event = .ok s' →
      (∃ current ∈ s'.protection, current.epochId = opening.epochId) →
      Epoch opening s' (spent + temporalWork opening.epochId s s')

namespace AdmissionProtection

variable (opening : AdmissionProtection)

/-- The epoch goes on. -/
abbrev Lasts (s : State e) : Prop := ∃ current ∈ s.protection, current.epochId = opening.epochId

/-- The protection as it is now: credit is spent, and the phase may have changed. -/
def Spent (current : AdmissionProtection) (spent : ℕ) : Prop :=
  current = { opening with temporalCredit := current.temporalCredit, phase := current.phase } ∧
    spent + current.temporalCredit = opening.temporalCredit

/-- The active requests that the head has to fit next to in the end. -/
def counts (request : ActiveAdmissionSnapshot) : Bool :=
  if request.requestId ∈ opening.incumbentIds then request.requestId ∉ opening.donorIds
  else request.backfillEpoch = opening.epochId ∧ request.backfillClass = .persistent

/-- A request that came after the head. -/
structure Behind (order : ℕ) (q : Queued e) : Prop where
  notIncumbent : q.id ∉ opening.incumbentIds
  notHead : q.id ≠ opening.headRequestId
  later : order < q.queueOrder

/-- A request in the queue is the head, or it came after the head. -/
structure Waiting (order : ℕ) (q : Queued e) : Prop where
  notIncumbent : q.id ∉ opening.incumbentIds
  place : q.id = opening.headRequestId ∧ q.base.admission = opening.headResources ∧
      q.queueOrder = order ∨
    q.id ≠ opening.headRequestId ∧ order < q.queueOrder

variable {opening} {order : ℕ} {q r : Queued e}

lemma Behind.waiting (h : opening.Behind order q) : opening.Waiting order q :=
  ⟨h.notIncumbent, .inr ⟨h.notHead, h.later⟩⟩

lemma Behind.same (h : opening.Behind order r) (hsame : q.Same r) : opening.Behind order q := by
  refine ⟨?_, ?_, ?_⟩
  · rw [hsame.id]
    exact h.notIncumbent
  · rw [hsame.id]
    exact h.notHead
  · rw [hsame.order]
    exact h.later

lemma Waiting.same (h : opening.Waiting order r) (hsame : q.Same r) : opening.Waiting order q := by
  refine ⟨?_, ?_⟩
  · rw [hsame.id]
    exact h.notIncumbent
  · rw [hsame.id, hsame.order, hsame.submission]
    exact h.place

lemma Waiting.behind (h : opening.Waiting order q) (hne : q.id ≠ opening.headRequestId) :
    opening.Behind order q := by
  rcases h.place with ⟨heq, -⟩ | ⟨-, hlater⟩
  · exact absurd heq hne
  · exact ⟨h.notIncumbent, hne, hlater⟩

lemma Spent.epochId_eq {current : AdmissionProtection} {spent : ℕ}
    (h : opening.Spent current spent) : current.epochId = opening.epochId := by rw [h.1]

lemma Spent.headRequestId_eq {current : AdmissionProtection} {spent : ℕ}
    (h : opening.Spent current spent) : current.headRequestId = opening.headRequestId := by rw [h.1]

lemma Spent.phase {current : AdmissionProtection} {spent : ℕ} (h : opening.Spent current spent)
    (phase : ProtectionPhase) : opening.Spent { current with phase } spent := by
  refine ⟨?_, h.2⟩
  have heq := h.1
  rw [heq]

/-- A persistent backfill leaves room for the head. -/
lemma Spent.safe_iff {current : AdmissionProtection} {spent : ℕ} (h : opening.Spent current spent)
    {candidate capacity : AdmissionResources} :
    persistentBackfillIsSafe current active candidate capacity = true ↔
      totals opening.headResources + activeTotals (active.filter opening.counts) +
        totals candidate ≤ totals capacity := by
  rw [h.1, persistentBackfillIsSafe, fits, decide_eq_true_eq]
  rfl

end AdmissionProtection

lemma backfillClassOf_persistent {protection : AdmissionProtection} {plan : Reuse q.prompt}
    (h : backfillClassOf protection active q plan = .persistent) :
    persistentBackfillIsSafe protection active q.base.admission e.admissionCapacity = true := by
  unfold backfillClassOf at h
  split at h
  · assumption
  · split at h
    · cases h
    · cases h

/-- What holds throughout an epoch. -/
structure Keeps (opening : AdmissionProtection) (order : ℕ) (s : State e) (spent : ℕ) : Prop where
  ordered : Ordered s
  fresh : opening.epochId < s.nextProtectionEpoch
  incumbents : ∀ id ∈ opening.incumbentIds, id < s.nextRequestId
  order_lt : order < s.nextQueueOrder
  current : ∃ current ∈ s.protection, opening.Spent current spent
  present : ∃ q ∈ s.pending, q.id = opening.headRequestId
  waiting : ∀ q ∈ s.pending, opening.Waiting order q
  held : ∀ hold ∈ s.copyHold, ∀ slot ∈ s.slots hold.lane, opening.Behind order slot.queued
  bound : ∀ lane, ∀ slot ∈ s.slots lane, slot.queued.id ∈ opening.incumbentIds ∨
    slot.backfillEpoch = opening.epochId ∧ slot.backfillClass ≠ .none
  room : totals opening.headResources + s.totalsOf (fun slot => opening.counts slot.snapshot) ≤
    totals e.admissionCapacity

lemma Slot.Follows.counts_eq {slot slot' : Slot e} (h : slot'.Follows slot)
    (opening : AdmissionProtection) :
    opening.counts slot'.snapshot = opening.counts slot.snapshot := by
  have hsnapshot : slot'.snapshot = { slot.snapshot with
      remainingWorkQuanta := slot'.request.remainingServiceWork } := by
    simp only [Slot.snapshot, h.queued, h.admission, h.backfillEpoch, h.backfillClass]
  rw [hsnapshot]
  rfl

namespace Keeps

variable {opening protection current : AdmissionProtection} {order spent : ℕ} {s s₁ s' : State e}
  {progress : AdmissionProgress} {active : List ActiveAdmissionSnapshot} {rest : List (Queued e)}

section

variable (h : Keeps opening order s spent)

include h

lemma waits (hwaits : Waits s s') (hepoch : s.nextProtectionEpoch ≤ s'.nextProtectionEpoch)
    (hcurrent : ∃ current ∈ s'.protection, opening.Spent current spent)
    (hpresent : ∃ q ∈ s'.pending, q.id = opening.headRequestId) :
    Keeps opening order s' spent where
  ordered := h.ordered.waits hwaits
  fresh := h.fresh.trans_le hepoch
  incumbents := by
    rw [hwaits.nextRequest]
    exact h.incumbents
  order_lt := by
    rw [hwaits.nextOrder]
    exact h.order_lt
  current := hcurrent
  present := hpresent
  waiting := by
    intro q hq
    obtain ⟨r, hr, hsame⟩ := hwaits.pending.mem q hq
    exact (h.waiting r hr).same hsame
  held := by
    rw [hwaits.copyHold, hwaits.slots]
    exact h.held
  bound := by
    rw [hwaits.slots]
    exact h.bound
  room := by
    unfold State.totalsOf
    rw [hwaits.slots]
    exact h.room

/-- The protection of the epoch is the only one. -/
lemma spent_of_mem (hcurrent : current ∈ s.protection) : opening.Spent current spent := by
  obtain ⟨current', hcurrent', hspent⟩ := h.current
  cases Option.mem_unique hcurrent hcurrent'
  exact hspent

/-- The head stays in the queue as long as it is protected. -/
lemma present_guarded (hguarded : Guarded s s')
    (hlasts : opening.Lasts s') :
    (∃ current ∈ s'.protection, opening.Spent current spent) ∧
      ∃ q ∈ s'.pending, q.id = opening.headRequestId := by
  obtain ⟨current, hcurrent, -⟩ := hlasts
  have hspent := h.spent_of_mem (hguarded.protection current hcurrent)
  obtain ⟨q, hq, hid⟩ := h.present
  obtain ⟨q', hq', hsame⟩ :=
    hguarded.head current hcurrent q hq (hid.trans hspent.headRequestId_eq.symm)
  exact ⟨⟨current, hcurrent, hspent⟩, q', hq', hsame.id.trans hid⟩

lemma guarded (hwaits : Waits s s') (hguarded : Guarded s s')
    (hlasts : opening.Lasts s') :
    Keeps opening order s' spent := by
  obtain ⟨hcurrent, hpresent⟩ := h.present_guarded hguarded hlasts
  exact h.waits hwaits hguarded.epoch.ge hcurrent hpresent

/-- A new request comes after the head, and is no incumbent. -/
lemma submit (submission : Submission e) : Keeps opening order (s.submit submission) spent where
  ordered := h.ordered.carries (.submits submission rfl)
  fresh := h.fresh
  incumbents := fun id hid => (h.incumbents id hid).trans (Nat.lt_succ_self _)
  order_lt := h.order_lt.trans (Nat.lt_succ_self _)
  current := h.current
  present := by
    obtain ⟨q, hq, hid⟩ := h.present
    exact ⟨q, List.mem_append_left _ hq, hid⟩
  waiting := by
    intro q hq
    rcases List.mem_append.mp hq with hq | hq
    · exact h.waiting q hq
    · rw [List.mem_singleton.mp hq]
      refine ⟨fun hmem => lt_irrefl _ (h.incumbents _ hmem), .inr ⟨?_, h.order_lt⟩⟩
      obtain ⟨head, hhead, hid⟩ := h.present
      have hlt := (h.ordered.ids.ticketed.fresh _ (List.mem_map_of_mem hhead)).2
      simp only at hlt ⊢
      omega
  held := h.held
  bound := h.bound
  room := h.room

section

variable (hslots : ∀ lane, ∀ slot' ∈ s'.slots lane, ∃ slot ∈ s.slots lane, slot'.Follows slot)

include hslots

lemma room_mono :
    totals opening.headResources + s'.totalsOf (fun slot => opening.counts slot.snapshot) ≤
      totals e.admissionCapacity := by
  refine (add_le_add_right (State.totalsOf_mono fun lane slot' hslot' hcounts => ?_) _).trans h.room
  obtain ⟨slot, hslot, hfollows⟩ := hslots lane slot' hslot'
  refine ⟨slot, hslot, ?_, hfollows.admission⟩
  rw [← hfollows.counts_eq]
  exact hcounts

lemma bound_mono : ∀ lane, ∀ slot ∈ s'.slots lane, slot.queued.id ∈ opening.incumbentIds ∨
      slot.backfillEpoch = opening.epochId ∧ slot.backfillClass ≠ .none := by
  intro lane slot' hslot'
  obtain ⟨slot, hslot, hfollows⟩ := hslots lane slot' hslot'
  rw [hfollows.queued, hfollows.backfillEpoch, hfollows.backfillClass]
  exact h.bound lane slot hslot

end

/-- Events that look for nobody keep the head's prospects. -/
lemma carries (hcarries : Carries s s')
    (hlasts : opening.Lasts s') :
    Keeps opening order s' spent := by
  have hordered := h.ordered.carries hcarries
  cases hcarries with
  | submits submission heq =>
    rw [heq]
    exact h.submit submission
  | stays hpending hslots hhold hguarded hid horder =>
    obtain ⟨hcurrent, hpresent⟩ := h.present_guarded hguarded hlasts
    refine ⟨hordered, hguarded.epoch.ge.trans_lt' h.fresh, hid ▸ h.incumbents, horder ▸ h.order_lt,
      hcurrent, hpresent, fun q hq => ?_, fun hold hmem slot' hslot' => ?_, h.bound_mono hslots,
      h.room_mono hslots⟩
    · obtain ⟨r, hr, hsame⟩ := hpending.mem q hq
      exact (h.waiting r hr).same hsame
    · obtain ⟨slot, hslot, hfollows⟩ := hslots _ slot' hslot'
      rw [hfollows.queued]
      exact h.held hold (hhold hold hmem) slot hslot
  | requeues hheld hslot hsame hpending hslots hhold hguarded hid horder =>
    obtain ⟨hcurrent, hpresent⟩ := h.present_guarded hguarded hlasts
    have hfollows := follows_update hslot fun slot' (h : slot' ∈ none) => (by cases h)
    rw [← hslots] at hfollows
    refine ⟨hordered, hguarded.epoch.ge.trans_lt' h.fresh, hid ▸ h.incumbents, horder ▸ h.order_lt,
      hcurrent, hpresent, fun q hq => ?_, by simp [hhold], h.bound_mono hfollows,
      h.room_mono hfollows⟩
    rw [hpending] at hq
    rcases List.mem_cons.mp ((requeued_perm ..).subset hq) with rfl | hq
    · exact ((h.held _ hheld _ hslot).same hsame).waiting
    · exact h.waiting q hq

/-- A backfill of the epoch, at the moment it is bound. -/
lemma bindLane (hcurrent : s.protection = some current)
    (hactive : s.activeAdmissionSet = .ok active) (hq : q ∈ s.pending)
    (hne : q.id ≠ opening.headRequestId) {c : Candidate e q.prompt} {victimLanes : List e.Lane}
    (hclass : backfillClassOf current active q c.plan ≠ .none)
    (hbind : bindLane s q c victimLanes (backfillClassOf current active q c.plan) current.epochId =
      .ok s') :
    Keeps opening order s' (spent +
      if backfillClassOf current active q c.plan = .temporal then q.serviceWork c.plan else 0) := by
  have hspent := h.spent_of_mem hcurrent
  have hbehind := (h.waiting q hq).behind hne
  have hordered := h.ordered.looks (.binds (.refl s) hq hbind)
  obtain ⟨protection, hcredit, hprotection, hpending, hslots, ⟨hold, hhold, hlane⟩, hid, horder,
    hepoch⟩ := bindLane_cases hbind
  have hnew : ∀ lane, ∀ slot ∈ s'.slots lane, lane = hold.lane ∧ slot =
      { queued := q, plan := c.plan, request := (q.admission c.plan).request
        backfillEpoch := current.epochId
        backfillClass := backfillClassOf current active q c.plan } ∨
      lane ≠ hold.lane ∧ slot ∈ s.slots lane := by
    intro lane slot hslot
    rw [hslots, ← hlane] at hslot
    obtain ⟨rfl, hsome⟩ | ⟨hother, hsome⟩ := update_cases hslot
    · exact .inl ⟨rfl, (Option.some.inj hsome).symm⟩
    · exact .inr ⟨hother, hsome⟩
  constructor
  case ordered => exact hordered
  case fresh => exact hepoch ▸ h.fresh
  case incumbents => exact hid ▸ h.incumbents
  case order_lt => exact horder ▸ h.order_lt
  case current =>
    rw [hcurrent] at hcredit
    unfold spendCredit at hcredit
    split at hcredit
    · rename_i htemporal
      rw [refuseIf_bind_iff] at hcredit
      obtain ⟨hwork, hcredit⟩ := hcredit
      rw [← ok_pure_iff.mp hcredit] at hprotection
      refine ⟨{ current with temporalCredit := current.temporalCredit - q.serviceWork c.plan }, ?_,
        ?_, ?_⟩
      · rw [hprotection]
        refine Option.mem_filter_iff.mpr ⟨rfl, ?_⟩
        simpa [hspent.headRequestId_eq] using hne.symm
      · have heq := hspent.1
        rw [heq]
      · have hsum := hspent.2
        rw [if_pos htemporal]
        simp only
        omega
    · rename_i hpersistent
      rw [← ok_pure_iff.mp hcredit] at hprotection
      refine ⟨current, ?_, hspent.1, ?_⟩
      · rw [hprotection]
        refine Option.mem_filter_iff.mpr ⟨rfl, ?_⟩
        simpa [hspent.headRequestId_eq] using hne.symm
      · rw [if_neg hpersistent]
        exact hspent.2
  case present =>
    obtain ⟨head, hhead, hheadId⟩ := h.present
    refine ⟨head, ?_, hheadId⟩
    rw [hpending]
    exact List.mem_filter.mpr ⟨hhead, by simpa [hheadId] using hne.symm⟩
  case waiting =>
    intro r hr
    rw [hpending] at hr
    exact h.waiting r (List.mem_of_mem_filter hr)
  case held =>
    intro hold' hhold' slot hslot
    rw [hhold] at hhold'
    cases hhold'
    obtain ⟨-, rfl⟩ | ⟨hother, -⟩ := hnew _ slot hslot
    · exact hbehind
    · exact absurd rfl hother
  case bound =>
    intro lane slot hslot
    obtain ⟨-, rfl⟩ | ⟨-, hslot⟩ := hnew lane slot hslot
    · exact .inr ⟨hspent.epochId_eq, hclass⟩
    · exact h.bound lane slot hslot
  case room =>
    refine (add_le_add_right (State.totalsOf_update_le hslots) _).trans ?_
    cases hbackfill : backfillClassOf current active q c.plan with
    | none => exact absurd hbackfill hclass
    | persistent =>
      -- The test that admitted the request is about these very totals.
      have hsafe := hspent.safe_iff.mp (backfillClassOf_persistent hbackfill)
      rw [activeTotals_filter hactive] at hsafe
      refine le_trans ?_ hsafe
      rw [← add_assoc]
      refine add_le_add_right ?_ _
      split
      · exact le_rfl
      · exact State.totals_nonneg _
    | temporal =>
      rw [if_neg]
      · exact h.room
      · simp [AdmissionProtection.counts, Slot.snapshot, hbehind.notIncumbent]

end

variable {c : Candidate e q.prompt} {head : Queued e}

/-- A request that overtakes the head leaves it its prospects. -/
lemma overtakes (h : Keeps opening order s₁ spent) (hhold : s.copyHold = none)
    (hwaits : Waits s s₁) (hcurrent : s₁.protection = some current)
    (hactive : s₁.activeAdmissionSet = .ok active) (hq : q ∈ s₁.pending)
    (hne : q.id ≠ opening.headRequestId)
    (hclass : backfillClassOf current active q c.plan ≠ .none) {env : Env e}
    (hadmits : admitPlannedRequest s₁ env q c (backfillClassOf current active q c.plan)
      current.epochId = .ok (s', progress))
    (hlasts : opening.Lasts s') :
    Keeps opening order s' (spent + temporalWork opening.epochId s s') := by
  obtain ⟨hwaits', hguarded, -⟩ | ⟨-, -, -, _, hbind⟩ := admitPlannedRequest_cases hadmits
  · rw [temporalWork, (hwaits.trans hwaits').admitted_eq_none]
    exact h.guarded hwaits' hguarded hlasts
  · have hwork : temporalWork opening.epochId s s' =
        if backfillClassOf current active q c.plan = .temporal then q.serviceWork c.plan
        else 0 := by
      rw [temporalWork, bindLane_admitted hhold hbind]
      simp [(h.spent_of_mem hcurrent).epochId_eq]
    rw [hwork]
    exact h.bindLane hcurrent hactive hq hne hclass hbind

/-- While `try_admit_one` finds the head protected, it stays so. -/
lemma guards (h : Keeps opening order s spent) (hwaits : Waits s s₁)
    (hpending : s₁.pending = head :: rest) (hguards : Guards s s₁ head active protection)
    (hepoch : protection.epochId = opening.epochId) : Keeps opening order s₁ spent := by
  rcases hguards.origin with ⟨before, hbefore, hphase, hnext⟩ | ⟨made, hmade, hphase, -⟩
  · have hspent : opening.Spent protection spent := by
      rw [hphase]
      exact (h.spent_of_mem hbefore).phase _
    refine h.waits hwaits hnext.ge ⟨protection, hguards.guarded, hspent⟩ ⟨head, ?_, ?_⟩
    · rw [hpending]
      exact List.mem_cons_self
    · rw [← hguards.ofHead, hspent.headRequestId_eq]
  · -- A new protection has a new number.
    have hnew := (makeAdmissionProtection_spec hmade).epoch
    have hfresh := h.fresh
    rw [hphase] at hepoch
    simp only at hepoch
    omega

/-- A request behind the protected head is not the head. -/
lemma overtaken (h : Keeps opening order s₁ spent) (hhold : s.copyHold = none)
    (hwaits : Waits s s₁) (hpending : s₁.pending = head :: rest)
    (hguards : Guards s s₁ head active protection) (hq : q ∈ rest)
    (hclass : backfillClassOf protection active q c.plan ≠ .none) {env : Env e}
    (hadmits : admitPlannedRequest s₁ env q c (backfillClassOf protection active q c.plan)
      protection.epochId = .ok (s', progress))
    (hlasts : opening.Lasts s') :
    Keeps opening order s' (spent + temporalWork opening.epochId s s') := by
  have hactive : s₁.activeAdmissionSet = .ok active := by
    rw [hwaits.activeAdmissionSet_eq]
    exact hguards.activeSet
  refine h.overtakes hhold hwaits hguards.guarded hactive ?_ ?_ hclass hadmits hlasts
  · rw [hpending]
    exact List.mem_cons_of_mem _ hq
  · -- The ids of the queue differ.
    have hnodup := h.ordered.nodup
    rw [hpending, List.map_cons, List.nodup_cons] at hnodup
    rw [← (h.spent_of_mem hguards.guarded).headRequestId_eq, hguards.ofHead]
    exact fun heq => hnodup.1 (heq ▸ List.mem_map_of_mem hq)

section

variable (h : Keeps opening order s spent)

include h

variable {env : Env e}

lemma tryAdmit (hhold : s.copyHold = none) (hok : tryAdmitOne s env = .ok (s', progress))
    (hlasts : opening.Lasts s') :
    Keeps opening order s' (spent + temporalWork opening.epochId s s') := by
  cases tryAdmitOne_cases h.ordered.nodup hok with
  | empty _ hnone =>
    obtain ⟨current, hcurrent, -⟩ := hlasts
    rw [hnone] at hcurrent
    cases hcurrent
  | @admits s₁ head rest c _ hwaits hpending hnext hsub hhead hadmits =>
    obtain ⟨current', hcurrent', hepoch⟩ := hlasts
    obtain ⟨current, hcurrent, -, hofHead⟩ := protection_of_admits hadmits hcurrent'
    have hspent := h.spent_of_mem (hsub current hcurrent)
    have hmem : head ∈ s₁.pending := by
      rw [hpending]
      exact List.mem_cons_self
    have h₁ : Keeps opening order s₁ spent := by
      refine h.waits hwaits hnext.ge ⟨current, hcurrent, hspent⟩ ⟨head, hmem, ?_⟩
      rw [← hhead current hcurrent, hspent.headRequestId_eq]
    obtain ⟨hwaits', hguarded, -⟩ | ⟨-, -, -, _, hbind⟩ := admitPlannedRequest_cases hadmits
    · rw [temporalWork, (hwaits.trans hwaits').admitted_eq_none]
      exact h₁.guarded hwaits' hguarded ⟨current', hcurrent', hepoch⟩
    · -- The head itself is bound, and the protection ends.
      obtain ⟨_, -, hprotection, -⟩ := bindLane_cases hbind
      rw [hprotection] at hcurrent'
      have hne := (Option.mem_filter_iff.mp hcurrent').2
      rw [← hofHead, hhead current hcurrent] at hne
      simp at hne
  | protects hwaits hpending hguards =>
    obtain ⟨current, hcurrent, hepoch⟩ := hlasts
    rw [hguards.guarded] at hcurrent
    cases hcurrent
    rw [temporalWork, hwaits.admitted_eq_none]
    exact h.guards hwaits hpending hguards hepoch
  | overtakes hwaits hpending hguards hq hclass hadmits =>
    obtain ⟨current', hcurrent', hepoch'⟩ := hlasts
    obtain ⟨current, hcurrent, hepoch, -⟩ := protection_of_admits hadmits hcurrent'
    rw [hguards.guarded] at hcurrent
    cases hcurrent
    exact (h.guards hwaits hpending hguards (hepoch.trans hepoch')).overtaken hhold hwaits hpending
      hguards hq hclass hadmits ⟨current', hcurrent', hepoch'⟩

/-- The first request that is wanted is the head. -/
lemma found_head
    (hwanted : ∀ q ∈ s.pending, q.id = opening.headRequestId → State.gone env q = false)
    (hfound : s.pending.find? (State.gone env · = false) = some q) :
    q.id = opening.headRequestId := by
  obtain ⟨head, hhead, hid⟩ := h.present
  have hgone := h.ordered.found_earliest hfound head hhead
  rw [hwanted head hhead hid] at hgone
  rcases (h.waiting q (List.mem_of_find?_eq_some hfound)).place with ⟨heq, -⟩ | ⟨-, hlater⟩
  · exact heq
  · rcases (h.waiting head hhead).place with ⟨-, -, horder⟩ | ⟨hne, -⟩
    · rw [← horder] at hlater
      cases hgone hlater
    · exact absurd hid hne

lemma tryInterrupt
    (hwanted : ∀ q ∈ s.pending, q.id = opening.headRequestId → State.gone env q = false)
    (hok : tryInterruptPrefill s env = .ok (s', progress)) (hlasts : opening.Lasts s') :
    Keeps opening order s' (spent + temporalWork opening.epochId s s') := by
  rcases tryInterruptPrefill_cases hok with heq | ⟨q, hfound, c, hadmits⟩
  · cases heq
    rw [temporalWork, (Waits.refl s).admitted_eq_none]
    exact h
  · obtain ⟨hwaits, hguarded, -⟩ | ⟨-, -, -, _, hbind⟩ := admitPlannedRequest_cases hadmits
    · rw [temporalWork, hwaits.admitted_eq_none]
      exact h.guarded hwaits hguarded hlasts
    · obtain ⟨current', hcurrent', -⟩ := hlasts
      obtain ⟨current, hcurrent, -, hofHead⟩ := protection_of_admits hadmits hcurrent'
      obtain ⟨_, -, hprotection, -⟩ := bindLane_cases hbind
      rw [hprotection] at hcurrent'
      have hne := (Option.mem_filter_iff.mp hcurrent').2
      rw [← hofHead, (h.spent_of_mem hcurrent).headRequestId_eq, h.found_head hwanted hfound] at hne
      simp at hne

/-- Every event of the epoch keeps the head's prospects. -/
lemma step {event : Event e} (henabled : s.Enabled event)
    (hwanted : s.Wanted opening.headRequestId event) (hstep : s.step event = .ok s')
    (hlasts : opening.Lasts s') :
    Keeps opening order s' (spent + temporalWork opening.epochId s s') := by
  cases event with
  | tryAdmit env =>
    obtain ⟨⟨_, progress⟩, hok, rfl⟩ := ok_map_iff.mp hstep
    exact h.tryAdmit (Option.isNone_iff_eq_none.mp henabled.1) hok hlasts
  | tryInterrupt env =>
    obtain ⟨⟨_, progress⟩, hok, rfl⟩ := ok_map_iff.mp hstep
    exact h.tryInterrupt (hwanted env rfl) hok hlasts
  | submit | leave | endHold | advance | startRecovery =>
    have hcarries := step_carries rfl hstep
    rw [temporalWork, hcarries.admitted_eq_none]
    exact h.carries hcarries hlasts

end

/-- A protection that is made gives its head the prospects. -/
lemma opens (hordered : Ordered s) (hhold : s.copyHold = none) (hwaits : Waits s s₁)
    (hpending : s₁.pending = head :: rest) (hguards : Guards s s₁ head active protection)
    (hmade : makeAdmissionProtection s.nextProtectionEpoch head.id head.base.admission active
      e.admissionCapacity = .ok opening)
    (hphase : protection = { opening with phase := protection.phase })
    (hnext : s₁.nextProtectionEpoch = s.nextProtectionEpoch + 1) :
    Keeps opening head.queueOrder s₁ 0 := by
  have hspec := makeAdmissionProtection_spec hmade
  have hordered₁ := hordered.waits hwaits
  have hhead : head ∈ s₁.pending := by
    rw [hpending]
    exact List.mem_cons_self
  have hactive : s₁.activeAdmissionSet = .ok active := by
    rw [hwaits.activeAdmissionSet_eq]
    exact hguards.activeSet
  have hincumbent : ∀ id, id ∈ opening.incumbentIds ↔ ∃ lane, id ∈ s₁.bound (·.id) lane := by
    intro id
    rw [hspec.incumbents, List.mem_map]
    constructor
    · rintro ⟨request, hrequest, rfl⟩
      obtain ⟨lane, slot, hslot, rfl⟩ := of_mem_activeAdmissionSet hactive hrequest
      exact ⟨lane, Option.mem_map_of_mem _ hslot⟩
    · rintro ⟨lane, hid⟩
      obtain ⟨slot, hslot, rfl⟩ := Option.mem_map.mp hid
      exact ⟨slot.snapshot, mem_activeAdmissionSet hactive hslot, rfl⟩
  constructor
  case ordered => exact hordered₁
  case fresh =>
    rw [hnext, hspec.epoch]
    exact Nat.lt_succ_self _
  case incumbents =>
    intro id hid
    obtain ⟨lane, hid⟩ := (hincumbent id).mp hid
    exact (hordered₁.ids.ticketed.bound lane id hid).1.2
  case order_lt => exact (hordered₁.orders.ticketed.fresh _ (List.mem_map_of_mem hhead)).2
  case current =>
    refine ⟨protection, hguards.guarded, ?_, ?_⟩
    · rw [hphase]
    · rw [hphase, Nat.zero_add]
  case present => exact ⟨head, hhead, hspec.head.symm⟩
  case waiting =>
    intro q hq
    constructor
    · intro hmem
      obtain ⟨lane, hmem⟩ := (hincumbent q.id).mp hmem
      exact (hordered₁.ids.ticketed.bound lane q.id hmem).2.1 (List.mem_map_of_mem hq)
    · rw [hspec.head, hspec.resources]
      by_cases hid : q.id = head.id
      · obtain rfl := List.inj_on_of_nodup_map hordered₁.nodup hq hhead hid
        exact .inl ⟨rfl, rfl, rfl⟩
      · refine .inr ⟨hid, lt_of_le_of_ne (hordered₁.head_earliest hpending q hq) fun heq => hid ?_⟩
        rw [List.inj_on_of_nodup_map hordered₁.orders.ticketed.nodup hq hhead heq.symm]
  case held =>
    rw [hwaits.copyHold, hhold]
    exact fun _ h => by cases h
  case bound =>
    intro lane slot hslot
    exact .inl ((hincumbent _).mpr ⟨lane, Option.mem_map_of_mem _ hslot⟩)
  case room =>
    rw [← activeTotals_filter hactive opening.counts, hspec.resources]
    refine le_of_eq_of_le ?_ hspec.fits
    congr 2
    refine List.filter_congr fun request hrequest => ?_
    have hmem : request.requestId ∈ opening.incumbentIds := by
      rw [hspec.incumbents]
      exact List.mem_map_of_mem hrequest
    rw [AdmissionProtection.counts, if_pos hmem]

/-- The protection that opens the epoch is the one that was made for its head. -/
lemma of_guards (hreachable : Reachable s) (hhold : s.copyHold = none) (hwaits : Waits s s₁)
    {head head' : Queued e} (hpending : s₁.pending = head' :: rest)
    {active' : List ActiveAdmissionSnapshot} (hguards : Guards s s₁ head' active' protection)
    (hhead : head ∈ s.pending) (hactive : s.activeAdmissionSet = .ok active)
    (hmade : makeAdmissionProtection s.nextProtectionEpoch head.id head.base.admission active
      e.admissionCapacity = .ok opening) (hepoch : protection.epochId = opening.epochId)
    (hofHead : protection.headRequestId = head.id) : Keeps opening head'.queueOrder s₁ 0 := by
  have hnew := (makeAdmissionProtection_spec hmade).epoch
  rcases hguards.origin with ⟨before, hbefore, hphase, -⟩ | ⟨made, hmade', hphase, hnext⟩
  · have hbelow := hreachable.epochsBelow before hbefore
    rw [hphase] at hepoch
    simp only at hepoch
    omega
  · have hsame : head'.toSubmission = head.toSubmission := by
      obtain ⟨r, hr, hsame⟩ := hwaits.pending.mem head' (by rw [hpending]; exact List.mem_cons_self)
      have hid : r.id = head.id := by rw [← hsame.id, ← hguards.ofHead, hofHead]
      rw [hsame.submission, List.inj_on_of_nodup_map hreachable.ordered.nodup hr hhead hid]
    have hid : head'.id = head.id := by rw [← hguards.ofHead, hofHead]
    have hactives : active' = active := Except.ok.inj (hguards.activeSet.symm.trans hactive)
    have hmade'' := hmade
    rw [← hid, ← hsame, ← hactives] at hmade''
    have heq : made = opening := Except.ok.inj (hmade'.symm.trans hmade'')
    exact opens hreachable.ordered hhold hwaits hpending hguards hmade'' (heq ▸ hphase) hnext

end Keeps

lemma Epoch.keeps {opening : AdmissionProtection} {spent : ℕ} (h : Epoch opening s spent) :
    ∃ order, Keeps opening order s spent := by
  induction h with
  | step event _ henabled hwanted hstep hcontinues ih =>
    obtain ⟨order, ih⟩ := ih
    exact ⟨order, ih.step henabled hwanted hstep hcontinues⟩
  | opens hreachable henabled hstep hhead hactive hmade hcontinues =>
    have hhold := Option.isNone_iff_eq_none.mp henabled.1
    obtain ⟨⟨_, progress⟩, hok, rfl⟩ := ok_map_iff.mp hstep
    obtain ⟨current', hcurrent', hepoch, hofHead⟩ := hcontinues
    cases tryAdmitOne_cases hreachable.ordered.nodup hok with
    | empty _ hnone =>
      rw [hnone] at hcurrent'
      cases hcurrent'
    | admits _ _ _ hsub _ hadmits =>
      obtain ⟨current, hcurrent, hsame, -⟩ := protection_of_admits hadmits hcurrent'
      have hbelow := hreachable.epochsBelow current (hsub current hcurrent)
      rw [hsame, hepoch, (makeAdmissionProtection_spec hmade).epoch] at hbelow
      exact absurd hbelow (lt_irrefl _)
    | protects hwaits hpending hguards =>
      rw [hguards.guarded] at hcurrent'
      cases hcurrent'
      rw [temporalWork, hwaits.admitted_eq_none]
      exact ⟨_, .of_guards hreachable hhold hwaits hpending hguards hhead hactive hmade hepoch
        hofHead⟩
    | overtakes hwaits hpending hguards hq hclass hadmits =>
      obtain ⟨current, hcurrent, hepoch', hofHead'⟩ := protection_of_admits hadmits hcurrent'
      rw [hguards.guarded] at hcurrent
      cases hcurrent
      have h₁ := Keeps.of_guards hreachable hhold hwaits hpending hguards hhead hactive hmade
        (hepoch'.trans hepoch) (hofHead'.trans hofHead)
      have hovertakes := h₁.overtaken hhold hwaits hpending hguards hq hclass hadmits
        ⟨current', hcurrent', hepoch⟩
      rw [Nat.zero_add] at hovertakes
      exact ⟨_, hovertakes⟩

/-- When donors and temporal backfills are gone, every bound request counts. -/
lemma Keeps.counts_of_gone {opening : AdmissionProtection} {order spent : ℕ}
    (h : Keeps opening order s spent) {lane : e.Lane} (hslot : s.slots lane = some slot)
    (hdonor : slot.queued.id ∉ opening.donorIds)
    (htemporal : ¬(slot.backfillClass = .temporal ∧ slot.backfillEpoch = opening.epochId)) :
    opening.counts slot.snapshot = true := by
  unfold AdmissionProtection.counts
  split
  · exact decide_eq_true hdonor
  · rename_i hincumbent
    rcases h.bound lane slot hslot with hmem | ⟨hepoch, hclass⟩
    · exact absurd hmem hincumbent
    · refine decide_eq_true ⟨hepoch, ?_⟩
      cases hbackfill : slot.backfillClass with
      | none => exact absurd hbackfill hclass
      | persistent => exact hbackfill
      | temporal => exact absurd ⟨hbackfill, hepoch⟩ htemporal

/-- Throughout an epoch, the temporal backfills stay within the credit it opened with, and as soon
as no donor and no temporal backfill is bound, the head fits next to every bound request. -/
theorem protected_head_fits {opening : AdmissionProtection} {s : State e} {spent : ℕ}
    (h : Epoch opening s spent) :
    spent ≤ opening.temporalCredit ∧
      (∃ head ∈ s.pending, head.id = opening.headRequestId ∧
        head.base.admission = opening.headResources) ∧
      ((∀ lane, ∀ slot ∈ s.slots lane, slot.queued.id ∉ opening.donorIds ∧
          ¬(slot.backfillClass = .temporal ∧ slot.backfillEpoch = opening.epochId)) →
        fits (totals opening.headResources + s.boundTotals) e.admissionCapacity = true) := by
  obtain ⟨order, hkeeps⟩ := h.keeps
  refine ⟨?_, ?_, fun hgone => ?_⟩
  · obtain ⟨current, -, hspent⟩ := hkeeps.current
    have := hspent.2
    omega
  · obtain ⟨head, hhead, hid⟩ := hkeeps.present
    refine ⟨head, hhead, hid, ?_⟩
    rcases (hkeeps.waiting head hhead).place with ⟨-, hresources, -⟩ | ⟨hne, -⟩
    · exact hresources
    · exact absurd hid hne
  · have htotals : s.boundTotals = s.totalsOf fun slot => opening.counts slot.snapshot := by
      refine Finset.sum_congr rfl fun lane _ => ?_
      cases hslot : s.slots lane with
      | none => rfl
      | some slot =>
        obtain ⟨hdonor, htemporal⟩ := hgone lane slot hslot
        rw [Option.elim_some, Option.elim_some,
          if_pos (hkeeps.counts_of_gone hslot hdonor htemporal)]
    rw [fits, decide_eq_true_eq, htotals]
    exact hkeeps.room

/-- A text request for four tokens, with three pages. -/
def briefRequest : Submission twoLanes where
  prompt := { shape := { tokens := 150 }, sorted := sorted_nil }
  options := { requestedOutputTokens := 4, cacheWrite := true }
  recovery := false
  base := ⟨150, 4, ⟨1, 3, 0⟩, none, 4⟩
  planned := by decide +kernel
  output_pos := Nat.succ_pos _

/-- A brief request overtakes the long one that is blocked by the first. -/
def overtaken : List (Event twoLanes) :=
  [.submit (shortRequest 300 5 true (by decide +kernel)), .tryAdmit coldEnv, .endHold .starts,
    .advance firstLane (.prefillStep .shared .continues) none, .submit longRequest,
    .submit briefRequest]

theorem protected_head_fits_overtaken :
    ∃ (opening : AdmissionProtection) (s : State twoLanes),
      Epoch opening s 4 ∧ 4 ≤ opening.temporalCredit := by
  have hrun : ∃ s ∈ State.run {} overtaken, s.Enabled (.tryAdmit coldEnv) ∧
      ∃ s' ∈ (s.step (.tryAdmit coldEnv)).toOption, ∃ head ∈ s.pending,
        ∃ active ∈ s.activeAdmissionSet.toOption, ∃ opening ∈ (makeAdmissionProtection
          s.nextProtectionEpoch head.id head.base.admission active
          twoLanes.admissionCapacity).toOption,
        (∃ current ∈ s'.protection, current.epochId = opening.epochId ∧
          current.headRequestId = head.id) ∧ temporalWork opening.epochId s s' = 4 := by
    decide +kernel
  obtain ⟨s, hs, henabled, s', hs', head, hhead, active, hactive, opening, hopening, hcurrent,
    hwork⟩ := hrun
  have hepoch : Epoch opening s' (temporalWork opening.epochId s s') :=
    .opens (Admissible.init.run hs).reachable henabled (ok_of_mem_toOption hs') hhead
      (ok_of_mem_toOption hactive) (ok_of_mem_toOption hopening) hcurrent
  rw [hwork] at hepoch
  exact ⟨opening, s', hepoch, (protected_head_fits hepoch).1⟩

end NInfer.Admission
