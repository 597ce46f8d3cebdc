import NInfer.Admission.Executor

/-!
# What an admission comes to

`try_admit_one` takes requests that are gone out of the queue, and then does one of five things: it
finds the queue empty, it admits the head, it protects the head, it admits a request behind a
protected head, or it fails.  `tryAdmitFrom_cases` says so once, with what is known of the state in
which it happened; what is admitted is bound (`admitPlannedRequest_cases`), or stays in the queue.
-/

namespace NInfer.Admission

open NInfer.Prefill

variable {e : Engine}

/-! ## The queue shrinks -/

/-- The same request; only what it remembers of failed attempts may differ. -/
structure Queued.Same (q r : Queued e) : Prop where
  submission : q.toSubmission = r.toSubmission
  id : q.id = r.id
  order : q.queueOrder = r.queueOrder

lemma Queued.Same.refl (q : Queued e) : q.Same q := ⟨rfl, rfl, rfl⟩

lemma Queued.Same.trans {q r t : Queued e} (h : q.Same r) (h' : r.Same t) : q.Same t :=
  ⟨h.submission.trans h'.submission, h.id.trans h'.id, h.order.trans h'.order⟩

/-- A number that a request keeps, such as its id or its place in the order. -/
def Kept (key : Queued e → ℕ) : Prop := ∀ q r, q.Same r → key q = key r

lemma kept_id : Kept (e := e) (·.id) := fun _ _ h => h.id

lemma kept_queueOrder : Kept (e := e) (·.queueOrder) := fun _ _ h => h.order

/-- A queue that holds no more requests than before, in the same order. -/
structure Shrinks (pending pending' : List (Queued e)) : Prop where
  keys : ∀ key, Kept key → (pending'.map key).Sublist (pending.map key)
  mem : ∀ q ∈ pending', ∃ r ∈ pending, q.Same r

lemma Shrinks.refl (pending : List (Queued e)) : Shrinks pending pending :=
  ⟨fun _ _ => .refl _, fun q hq => ⟨q, hq, .refl q⟩⟩

lemma Shrinks.trans {pending pending' pending'' : List (Queued e)} (h : Shrinks pending pending')
    (h' : Shrinks pending' pending'') : Shrinks pending pending'' where
  keys := fun key hkey => (h'.keys key hkey).trans (h.keys key hkey)
  mem := by
    intro q hq
    obtain ⟨r, hr, hsame⟩ := h'.mem q hq
    obtain ⟨t, ht, hsame'⟩ := h.mem r hr
    exact ⟨t, ht, hsame.trans hsame'⟩

lemma shrinks_filter (pending : List (Queued e)) (keep : Queued e → Bool) :
    Shrinks pending (pending.filter keep) :=
  ⟨fun _ _ => List.filter_sublist.map _, fun q hq => ⟨q, List.mem_of_mem_filter hq, .refl q⟩⟩

lemma shrinks_map (pending : List (Queued e)) {f : Queued e → Queued e} (hf : ∀ q, (f q).Same q) :
    Shrinks pending (pending.map f) where
  keys := by
    intro key hkey
    have hcomp : key ∘ f = key := funext fun q => hkey _ _ (hf q)
    rw [List.map_map, hcomp]
  mem := by
    intro q hq
    obtain ⟨r, hr, rfl⟩ := List.mem_map.mp hq
    exact ⟨r, hr, hf r⟩

/-- Nothing is bound: at most, requests leave the queue and the protection changes. -/
structure Waits (s s' : State e) : Prop where
  pending : Shrinks s.pending s'.pending
  lanes : s'.lanes = s.lanes
  slots : s'.slots = s.slots
  copyHold : s'.copyHold = s.copyHold
  versions : s'.lanePlanVersions = s.lanePlanVersions
  nextRequest : s'.nextRequestId = s.nextRequestId
  nextOrder : s'.nextQueueOrder = s.nextQueueOrder
  nextTick : s'.nextUseTick = s.nextUseTick

namespace Waits

variable {s s' s'' : State e}

lemma refl (s : State e) : Waits s s := ⟨.refl _, rfl, rfl, rfl, rfl, rfl, rfl, rfl⟩

lemma trans (h : Waits s s') (h' : Waits s' s'') : Waits s s'' where
  pending := h.pending.trans h'.pending
  lanes := h'.lanes.trans h.lanes
  slots := h'.slots.trans h.slots
  copyHold := h'.copyHold.trans h.copyHold
  versions := h'.versions.trans h.versions
  nextRequest := h'.nextRequest.trans h.nextRequest
  nextOrder := h'.nextOrder.trans h.nextOrder
  nextTick := h'.nextTick.trans h.nextTick

lemma leave (s : State e) (id : ℕ) : Waits s (s.leave id) :=
  ⟨shrinks_filter .., rfl, rfl, rfl, rfl, rfl, rfl, rfl⟩

lemma protect (s : State e) (protection : Option AdmissionProtection) (epoch : ℕ) :
    Waits s { s with protection, nextProtectionEpoch := epoch } :=
  ⟨.refl _, rfl, rfl, rfl, rfl, rfl, rfl, rfl⟩

lemma activeAdmissionSet_eq (h : Waits s s') : s'.activeAdmissionSet = s.activeAdmissionSet := by
  unfold State.activeAdmissionSet
  rw [h.slots]

lemma findLane_eq (h : Waits s s') {env : Env e} {q : Queued e} :
    s'.findLane env q = s.findLane env q := by
  unfold State.findLane State.view State.unavailable
  rw [h.lanes, h.slots, h.versions]

end Waits

/-- Protection is at most lost, and a head that stays protected stays in the queue. -/
structure Guarded (s s' : State e) : Prop where
  protection : ∀ protection ∈ s'.protection, protection ∈ s.protection
  head : ∀ protection ∈ s'.protection, ∀ r ∈ s.pending, r.id = protection.headRequestId →
    ∃ r' ∈ s'.pending, r'.Same r
  epoch : s'.nextProtectionEpoch = s.nextProtectionEpoch

lemma Guarded.of_pending_eq {s s' : State e} (hpending : s'.pending = s.pending)
    (hprotection : s'.protection = s.protection)
    (hepoch : s'.nextProtectionEpoch = s.nextProtectionEpoch) : Guarded s s' where
  protection := by
    rw [hprotection]
    exact fun _ h => h
  head := by
    rw [hpending]
    exact fun _ _ r hr _ => ⟨r, hr, .refl r⟩
  epoch := hepoch

lemma Guarded.leave (s : State e) (id : ℕ) : Guarded s (s.leave id) where
  protection := fun _ h => (Option.mem_filter_iff.mp h).1
  head := by
    intro protection hprotection r hr hhead
    have hne := (Option.mem_filter_iff.mp hprotection).2
    rw [← hhead] at hne
    exact ⟨r, List.mem_filter.mpr ⟨hr, hne⟩, .refl r⟩
  epoch := rfl

/-! ## One request -/

lemma ofControl_ne_copyHold (control : Bool) :
    AdmissionProgress.ofControl control ≠ .copyHold := by
  unfold AdmissionProgress.ofControl
  split <;> exact AdmissionProgress.noConfusion

section Admit

variable {s s' : State e} {env : Env e} {q : Queued e} {c : Candidate e q.prompt}
  {backfillClass : BackfillClass} {backfillEpoch : ℕ} {progress : AdmissionProgress}

/-- A request whose lane was found is bound, if it is still there, or nothing happens to the
lanes. -/
lemma admitPlannedRequest_cases
    (h : admitPlannedRequest s env q c backfillClass backfillEpoch = .ok (s', progress)) :
    (Waits s s' ∧ Guarded s s' ∧ progress ≠ .copyHold) ∨
      progress = .copyHold ∧ State.gone env q = false ∧ env.late q.id = false ∧
        ∃ victimLanes, bindLane s q c victimLanes backfillClass backfillEpoch = .ok s' := by
  have hstays : ∀ {progress' : AdmissionProgress}, progress' ≠ .copyHold →
      (pure (s, progress') : Except String _) = .ok (s', progress) →
      Waits s s' ∧ Guarded s s' ∧ progress ≠ .copyHold := by
    intro progress' hprogress heq
    cases heq
    exact ⟨.refl s, .of_pending_eq rfl rfl rfl, hprogress⟩
  unfold admitPlannedRequest at h
  simp only at h
  split at h
  · cases h
    exact .inl ⟨.leave s q.id, .leave s q.id, AdmissionProgress.noConfusion⟩
  rename_i hlive
  rw [not_or, Bool.not_eq_true, Bool.not_eq_true] at hlive
  split at h
  · exact .inl (hstays AdmissionProgress.noConfusion h)
  split at h
  · exact .inl (hstays AdmissionProgress.noConfusion h)
  · rename_i version _ _
    cases h
    have hsame : ∀ r : Queued e, Queued.Same (if r.id = q.id then
        markUnavailable s env version c.choice.lane r else r) r := by
      intro r
      split
      · exact ⟨rfl, rfl, rfl⟩
      · exact .refl r
    refine .inl ⟨⟨shrinks_map _ hsame, rfl, rfl, rfl, rfl, rfl, rfl, rfl⟩,
      ⟨fun _ h => h, fun _ _ r hr _ => ⟨_, List.mem_map_of_mem hr, hsame r⟩, rfl⟩,
      AdmissionProgress.noConfusion⟩
  split at h
  · exact .inl (hstays AdmissionProgress.noConfusion h)
  rw [ok_bind_iff] at h
  obtain ⟨taken, -, h⟩ := h
  cases taken with
  | none => exact .inl (hstays AdmissionProgress.noConfusion h)
  | some taken =>
    simp only at h
    split at h
    · exact .inl (hstays AdmissionProgress.noConfusion h)
    · rw [ok_bind_iff] at h
      obtain ⟨bound, hbound, h⟩ := h
      cases h
      exact .inr ⟨rfl, hlive.1, hlive.2, _, hbound⟩

/-- What binding does to the queue and the slots. -/
lemma bindLane_cases {victimLanes : List e.Lane}
    (h : bindLane s q c victimLanes backfillClass backfillEpoch = .ok s') :
    ∃ protection, spendCredit s.protection (q.serviceWork c.plan) backfillClass backfillEpoch =
        .ok protection ∧
      s'.protection = protection.filter (·.headRequestId ≠ q.id) ∧
      s'.pending = s.pending.filter (·.id ≠ q.id) ∧
      s'.slots = Function.update s.slots c.choice.lane
        (some { queued := q, plan := c.plan, request := (q.admission c.plan).request
                backfillEpoch, backfillClass }) ∧
      (∃ hold, s'.copyHold = some hold ∧ hold.lane = c.choice.lane) ∧
      s'.nextRequestId = s.nextRequestId ∧ s'.nextQueueOrder = s.nextQueueOrder ∧
      s'.nextProtectionEpoch = s.nextProtectionEpoch := by
  rw [bindLane, ok_bind_iff] at h
  obtain ⟨protection, hspent, h⟩ := h
  cases h
  exact ⟨protection, hspent, rfl, rfl, rfl, ⟨_, rfl, rfl⟩, rfl, rfl, rfl⟩

end Admit

/-! ## The queue -/

/-- The protection of the head, and where it comes from. -/
structure Guards (s s' : State e) (head : Queued e) (active : List ActiveAdmissionSnapshot)
    (protection : AdmissionProtection) : Prop where
  activeSet : s.activeAdmissionSet = .ok active
  guarded : s'.protection = some protection
  ofHead : protection.headRequestId = head.id
  origin : (∃ before ∈ s.protection, protection = { before with phase := protection.phase } ∧
      s'.nextProtectionEpoch = s.nextProtectionEpoch) ∨
    ∃ made, makeAdmissionProtection s.nextProtectionEpoch head.id head.base.admission active
        e.admissionCapacity = .ok made ∧ protection = { made with phase := protection.phase } ∧
      s'.nextProtectionEpoch = s.nextProtectionEpoch + 1

/-- What `try_admit_one` does. It fails only where the head finds no lane and cannot be
protected. -/
inductive TryAdmit (env : Env e) (s : State e) : Except String (State e × AdmissionProgress) → Prop
  | empty {s' : State e} {progress : AdmissionProgress} : Waits s s' → s'.protection = none →
      progress ≠ .copyHold → s'.nextProtectionEpoch = s.nextProtectionEpoch →
      TryAdmit env s (.ok (s', progress))
  | admits {s' : State e} {head : Queued e} {rest : List (Queued e)} {c : Candidate e head.prompt}
      {outcome : Except String (State e × AdmissionProgress)} : Waits s s' →
      s'.pending = head :: rest → s'.nextProtectionEpoch = s.nextProtectionEpoch →
      (∀ protection ∈ s'.protection, protection ∈ s.protection) →
      (∀ protection ∈ s'.protection, protection.headRequestId = head.id) →
      admitPlannedRequest s' env head c .none 0 = outcome →
      s'.findLane env head = .ok (some c) → TryAdmit env s outcome
  | protects {s' : State e} {head : Queued e} {rest : List (Queued e)}
      {active : List ActiveAdmissionSnapshot} {protection : AdmissionProtection}
      {progress : AdmissionProgress} : Waits s s' → s'.pending = head :: rest →
      Guards s s' head active protection → progress ≠ .copyHold →
      TryAdmit env s (.ok (s', progress))
  | overtakes {s' : State e} {head q : Queued e} {rest : List (Queued e)}
      {active : List ActiveAdmissionSnapshot} {protection : AdmissionProtection}
      {c : Candidate e q.prompt} {outcome : Except String (State e × AdmissionProgress)} :
      Waits s s' → s'.pending = head :: rest → Guards s s' head active protection → q ∈ rest →
      backfillClassOf protection active q c.plan ≠ .none →
      admitPlannedRequest s' env q c (backfillClassOf protection active q c.plan)
        protection.epochId = outcome →
      s'.findLane env q = .ok (some c) → TryAdmit env s outcome
  | fails {head : Queued e} {message : String} : head ∈ s.pending →
      admissionResourcesFit head.base.admission e.admissionCapacity = true →
      s.findLane env head = .ok none →
      (∀ active, s.activeAdmissionSet = .ok active → ¬Protectable s.nextProtectionEpoch head.id
        head.base.admission active e.admissionCapacity) → TryAdmit env s (.error message)

lemma TryAdmit.waits {env : Env e} {s s' : State e}
    {outcome : Except String (State e × AdmissionProgress)} (h : TryAdmit env s' outcome)
    (hwaits : Waits s s') (hpending : s'.pending ⊆ s.pending)
    (hprotection : ∀ protection ∈ s'.protection, protection ∈ s.protection)
    (hepoch : s'.nextProtectionEpoch = s.nextProtectionEpoch) : TryAdmit env s outcome := by
  have hguards : ∀ {s'' head active protection}, Guards s' s'' head active protection →
      Guards s s'' head active protection := by
    intro s'' head active protection hguards
    refine ⟨?_, hguards.guarded, hguards.ofHead, ?_⟩
    · rw [← hwaits.activeAdmissionSet_eq]
      exact hguards.activeSet
    · rw [← hepoch]
      rcases hguards.origin with ⟨before, hbefore, heq⟩ | hmade
      · exact .inl ⟨before, hprotection before hbefore, heq⟩
      · exact .inr hmade
  cases h with
  | empty hwaits' hnone hprogress hnext =>
    exact .empty (hwaits.trans hwaits') hnone hprogress (hnext.trans hepoch)
  | admits hwaits' hpending hnext hsub hhead hadmits hlane =>
    exact .admits (hwaits.trans hwaits') hpending (hnext.trans hepoch)
      (fun P hP => hprotection P (hsub P hP)) hhead hadmits hlane
  | protects hwaits' hpending hguard hprogress =>
    exact .protects (hwaits.trans hwaits') hpending (hguards hguard) hprogress
  | overtakes hwaits' hpending hguard hq hclass hadmits hlane =>
    exact .overtakes (hwaits.trans hwaits') hpending (hguards hguard) hq hclass hadmits hlane
  | fails hhead hfit hnone hfails =>
    refine .fails (hpending hhead) hfit (hwaits.findLane_eq.symm.trans hnone) ?_
    rwa [← hwaits.activeAdmissionSet_eq, ← hepoch]

/-! ## The loops -/

section Loops

variable {env : Env e} {s s' : State e} {progress : AdmissionProgress}
  {result : State e × AdmissionProgress} {outcome : Except String (State e × AdmissionProgress)}

/-- What the loop behind a protected head does. -/
inductive Backfills (env : Env e) (protection : AdmissionProtection)
    (active : List ActiveAdmissionSnapshot) (head : Queued e) (s : State e) :
    Except String (State e × AdmissionProgress) → Prop
  | waits {s' : State e} {tail : List (Queued e)} {progress : AdmissionProgress} : Waits s s' →
      s'.pending = head :: tail → s'.protection = some protection →
      s'.nextProtectionEpoch = s.nextProtectionEpoch → progress ≠ .copyHold →
      Backfills env protection active head s (.ok (s', progress))
  | admits {s' : State e} {q : Queued e} {tail : List (Queued e)} {c : Candidate e q.prompt} :
      Waits s s' → s'.pending = head :: tail → s'.protection = some protection →
      s'.nextProtectionEpoch = s.nextProtectionEpoch → q ∈ tail →
      backfillClassOf protection active q c.plan ≠ .none → s'.findLane env q = .ok (some c) →
      Backfills env protection active head s (admitPlannedRequest s' env q c
        (backfillClassOf protection active q c.plan) protection.epochId)

variable {active : List ActiveAdmissionSnapshot} {protection : AdmissionProtection}
    {rest tail : List (Queued e)} {head : Queued e}

lemma Backfills.leave {id : ℕ} (h : Backfills env protection active head (s.leave id) outcome) :
    Backfills env protection active head s outcome := by
  cases h with
  | waits hwaits hpending hguarded hepoch hprogress =>
    exact .waits ((Waits.leave s id).trans hwaits) hpending hguarded hepoch hprogress
  | admits hwaits hpending hguarded hepoch hq hclass hlane =>
    exact .admits ((Waits.leave s id).trans hwaits) hpending hguarded hepoch hq hclass hlane

/-- Requests behind one that leaves stay in the queue. -/
lemma mem_filter_of_nodup {q r : Queued e} (hnodup : ((q :: rest).map (·.id)).Nodup)
    (hrest : ∀ r ∈ q :: rest, r ∈ tail) (hr : r ∈ rest) : r ∈ tail.filter (·.id ≠ q.id) := by
  rw [List.map_cons, List.nodup_cons] at hnodup
  have hne : r.id ≠ q.id := fun heq => hnodup.1 (heq ▸ List.mem_map_of_mem hr)
  exact List.mem_filter.mpr ⟨hrest r (List.mem_cons_of_mem _ hr), by simpa using hne⟩

/-- Behind a protected head, at most one request is admitted. -/
lemma tryBackfill_cases (hhead : protection.headRequestId = head.id)
    (hpending : s.pending = head :: tail) (hnodup : ((head :: rest).map (·.id)).Nodup)
    (hrest : ∀ q ∈ rest, q ∈ tail) (hguarded : s.protection = some protection) (control : Bool) :
    Backfills env protection active head s (tryBackfill env protection active s control rest) := by
  induction rest generalizing s tail control with
  | nil => exact .waits (.refl s) hpending hguarded rfl (ofControl_ne_copyHold _)
  | cons q rest ih =>
    have hnodupRest : ((q :: rest).map (·.id)).Nodup := (List.nodup_cons.mp hnodup).2
    have hnodupHead : ((head :: rest).map (·.id)).Nodup :=
      hnodup.sublist (((List.sublist_cons_self q rest).cons_cons head).map _)
    have hne : head.id ≠ q.id := fun heq =>
      (List.nodup_cons.mp hnodup).1 (List.mem_cons.mpr (.inl heq))
    have hleaves : Backfills env protection active head s
        (tryBackfill env protection active (s.leave q.id) true rest) := by
      refine Backfills.leave (ih ?_ hnodupHead (fun r => mem_filter_of_nodup hnodupRest hrest) ?_ _)
      · simp [State.leave, hpending, hne]
      · simp [State.leave, hguarded, hhead, hne]
    have hstays := ih hpending hnodupHead (fun r hr => hrest r (List.mem_cons_of_mem _ hr))
      hguarded control
    unfold tryBackfill
    split
    · exact hleaves
    cases hlane : s.findLane env q with
    | error message => exact hleaves
    | ok found =>
      cases found with
      | none => exact hstays
      | some c =>
        have hadmits : backfillClassOf protection active q c.plan ≠ .none →
            Backfills env protection active head s (admitPlannedRequest s env q c
              (backfillClassOf protection active q c.plan) protection.epochId) := fun hclass =>
          .admits (.refl s) hpending hguarded rfl (hrest q List.mem_cons_self) hclass hlane
        simp only
        cases hclass : backfillClassOf protection active q c.plan with
        | none => exact hstays
        | persistent | temporal =>
          rw [hclass] at hadmits
          exact hadmits (by simp)

/-- The protection of a head is the one it has, or a fresh one. -/
lemma protectHead_cases (hhead : ∀ protection ∈ s.protection, protection.headRequestId = head.id)
    (h : protectHead s head active = .ok (s', protection)) :
    ∃ epoch, s' = { s with nextProtectionEpoch := epoch } ∧ protection.headRequestId = head.id ∧
      ((∃ before ∈ s.protection, protection = before ∧ epoch = s.nextProtectionEpoch) ∨
        makeAdmissionProtection s.nextProtectionEpoch head.id head.base.admission active
          e.admissionCapacity = .ok protection ∧ epoch = s.nextProtectionEpoch + 1) := by
  unfold protectHead at h
  cases hprotection : s.protection with
  | some before =>
    simp only [hprotection, ok_pure_iff, Prod.mk.injEq] at h
    obtain ⟨rfl, rfl⟩ := h
    refine ⟨s.nextProtectionEpoch, ?_, hhead before hprotection, .inl ⟨before, rfl, rfl, rfl⟩⟩
    rw [← hprotection]
  | none =>
    simp only [hprotection, ok_bind_iff] at h
    obtain ⟨made, hmade, rfl, rfl⟩ := h
    exact ⟨s.nextProtectionEpoch + 1, rfl, (makeAdmissionProtection_spec hmade).head,
      .inr ⟨hmade, rfl⟩⟩

/-- A head that can be protected is. -/
lemma protectHead_fails {message : String} (h : protectHead s head active = .error message) :
    ¬Protectable s.nextProtectionEpoch head.id head.base.admission active
      e.admissionCapacity := by
  intro hprotectable
  obtain ⟨made, hmade⟩ := hprotectable.ok
  unfold protectHead at h
  split at h
  · cases h
  · rw [hmade] at h
    cases h

/-- A head that finds no lane is protected, from then on or still. -/
lemma protectAndBackfill_cases {rest : List (Queued e)} (hpending : s.pending = head :: rest)
    (hnodup : (s.pending.map (·.id)).Nodup)
    (hhead : ∀ protection ∈ s.protection, protection.headRequestId = head.id)
    (hfit : admissionResourcesFit head.base.admission e.admissionCapacity = true)
    (hnone : s.findLane env head = .ok none) (control : Bool) :
    TryAdmit env s (protectAndBackfill env s control head rest) := by
  have hfails : ∀ message, (∀ active, s.activeAdmissionSet = .ok active →
      ¬Protectable s.nextProtectionEpoch head.id head.base.admission active
        e.admissionCapacity) → TryAdmit env s (.error message) := fun message =>
    .fails (hpending ▸ List.mem_cons_self) hfit hnone
  unfold protectAndBackfill
  cases hactive : s.activeAdmissionSet with
  | error message => exact hfails _ (by simp [hactive])
  | ok active =>
  simp only [refuseIf, bind, Except.bind]
  by_cases hidle : active = []
  · rw [if_pos hidle]
    exact hfails _ fun _ heq hprotectable => hprotectable.nonempty (by simp_all)
  rw [if_neg hidle]
  cases hprotect : protectHead s head active with
  | error message =>
    refine hfails _ fun _ heq => ?_
    cases hactive.symm.trans heq
    exact protectHead_fails hprotect
  | ok result =>
  obtain ⟨s₁, protection⟩ := result
  rw [hpending] at hnodup
  obtain ⟨epoch, rfl, hofHead, horigin⟩ := protectHead_cases hhead hprotect
  simp only
  -- The phase is all that changes in the protection before requests may overtake.
  have hphase : ∃ phase, (if protectedHeadSafeWithoutTemporal protection active e.admissionCapacity
      then { protection with phase := .drain } else protection) = { protection with phase } := by
    split
    · exact ⟨.drain, rfl⟩
    · exact ⟨protection.phase, rfl⟩
  obtain ⟨phase, hphase⟩ := hphase
  rw [hphase]
  have hguard : ∀ s' : State e, s'.protection = some { protection with phase } →
      s'.nextProtectionEpoch = epoch → Guards s s' head active { protection with phase } := by
    intro s' hguarded hepoch
    refine ⟨hactive, hguarded, hofHead, ?_⟩
    rcases horigin with ⟨before, hbefore, rfl, rfl⟩ | ⟨hmade, rfl⟩
    · exact .inl ⟨protection, hbefore, rfl, hepoch⟩
    · exact .inr ⟨protection, hmade, rfl, hepoch⟩
  split
  · exact .protects (.protect s _ _) hpending (hguard _ rfl rfl) (ofControl_ne_copyHold _)
  have hends : ∀ {outcome}, Backfills env { protection with phase } active head
      { s with protection := some { protection with phase }, nextProtectionEpoch := epoch }
      outcome → TryAdmit env s outcome := by
    intro outcome h
    cases h with
    | waits hwaits hpending' hguarded hepoch hprogress =>
      exact .protects ((Waits.protect s _ _).trans hwaits) hpending' (hguard _ hguarded hepoch)
        hprogress
    | admits hwaits hpending' hguarded hepoch hq hclass hlane =>
      exact .overtakes ((Waits.protect s _ _).trans hwaits) hpending' (hguard _ hguarded hepoch)
        hq hclass rfl hlane
  exact hends (tryBackfill_cases (by exact hofHead) (by exact hpending) hnodup (fun q hq => hq)
    rfl control)

/-- `try_admit_one` ends in one of five ways. -/
lemma tryAdmitFrom_cases {queue : List (Queued e)} (hpending : s.pending = queue)
    (hnodup : (s.pending.map (·.id)).Nodup) (control : Bool) :
    TryAdmit env s (tryAdmitFrom env s control queue) := by
  induction queue generalizing s control with
  | nil => exact .empty (.protect s _ _) rfl (ofControl_ne_copyHold _) rfl
  | cons head rest ih =>
    have hwaits : Waits s { s with
        protection := s.protection.filter (·.headRequestId = head.id) } := .protect s _ _
    have hsub : ∀ protection ∈ s.protection.filter (·.headRequestId = head.id),
        protection ∈ s.protection := fun protection hprotection =>
      (Option.mem_filter_iff.mp hprotection).1
    have hhead : ∀ protection ∈ s.protection.filter (·.headRequestId = head.id),
        protection.headRequestId = head.id := by
      intro protection hprotection
      simpa using (Option.mem_filter_iff.mp hprotection).2
    have hleaves : TryAdmit env s (tryAdmitFrom env ({ s with
        protection := s.protection.filter (·.headRequestId = head.id) }.leave head.id) true
          rest) := by
      have hnodup' := hnodup
      rw [hpending, List.map_cons, List.nodup_cons] at hnodup'
      have hrest : (s.leave head.id).pending = rest := by
        simp only [State.leave, hpending, List.filter_cons, ne_eq, not_true_eq_false,
          decide_false, Bool.false_eq_true, if_false]
        rw [List.filter_eq_self]
        intro q hq
        have hne : q.id ≠ head.id := fun heq => hnodup'.1 (heq ▸ List.mem_map_of_mem hq)
        simpa using hne
      refine (ih (by exact hrest) ?_ true).waits (hwaits.trans (.leave _ head.id))
        List.filter_sublist.subset ?_ rfl
      · exact hnodup.sublist ((Waits.leave s head.id).pending.keys _ kept_id)
      · exact fun protection hprotection => hsub _ (Option.mem_filter_iff.mp hprotection).1
    unfold tryAdmitFrom
    simp only
    split
    · exact hleaves
    rename_i hlive
    rw [not_or, Bool.not_eq_false] at hlive
    cases hlane : ({ s with
        protection := s.protection.filter (·.headRequestId = head.id) } : State e).findLane env
          head with
    | error message => exact hleaves
    | ok found =>
      cases found with
      | none =>
        exact (protectAndBackfill_cases (by exact hpending) (by exact hnodup) (by exact hhead)
          hlive.2 hlane control).waits hwaits (List.Subset.refl _) hsub rfl
      | some c => exact .admits hwaits (by exact hpending) rfl hsub hhead rfl hlane

lemma tryAdmitOne_cases (hnodup : (s.pending.map (·.id)).Nodup)
    (h : tryAdmitOne s env = .ok result) : TryAdmit env s (.ok result) :=
  h ▸ tryAdmitFrom_cases rfl hnodup false

/-- `try_interrupt_prefill` admits the first request that is not gone, or nobody. -/
lemma tryInterruptPrefill_cases (h : tryInterruptPrefill s env = .ok result) :
    result = (s, .none) ∨ ∃ q, s.pending.find? (State.gone env · = false) = some q ∧
      ∃ c, admitPlannedRequest s env q c .none 0 = .ok result := by
  unfold tryInterruptPrefill at h
  split at h
  · exact .inl (ok_pure_iff.mp h).symm
  rename_i q hfound
  simp only at h
  split at h
  · split at h
    · exact .inl (ok_pure_iff.mp h).symm
    · exact .inr ⟨q, hfound, _, h⟩
  · exact .inl (ok_pure_iff.mp h).symm

end Loops

end NInfer.Admission
