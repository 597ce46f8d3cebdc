import NInfer.Admission.Outcomes
import NInfer.Foundation.Tickets

/-!
# The queue

Requests get their place in the queue when they are submitted (`queue_order`) and keep it: a request
whose restore failed goes back in front of the later ones.  `Ordered` holds in every reachable
state, and `admitted_in_order` says that a request which is not a backfill is admitted only after
every earlier one is cancelled or expired.
-/

namespace NInfer.Admission

open NInfer.Prefill

variable {e : Engine}

/-! ## What an event does to the requests -/

/-- A bound request goes on, with the resources and the class that it was admitted with. -/
structure Slot.Follows (slot' slot : Slot e) : Prop where
  queued : slot'.queued = slot.queued
  admission : slot'.request.admission = slot.request.admission
  backfillEpoch : slot'.backfillEpoch = slot.backfillEpoch
  backfillClass : slot'.backfillClass = slot.backfillClass

lemma Slot.Follows.refl (slot : Slot e) : slot.Follows slot := ⟨rfl, rfl, rfl, rfl⟩

/-- The place in the queue of a request that goes back to it. -/
def requeued (pending : List (Queued e)) (q : Queued e) : List (Queued e) :=
  let before := fun r : Queued e => r.queueOrder < q.queueOrder
  pending.takeWhile before ++ q :: pending.dropWhile before

lemma requeued_perm (pending : List (Queued e)) (q : Queued e) :
    (requeued pending q).Perm (q :: pending) := by
  refine List.perm_middle.trans ?_
  rw [List.takeWhile_append_dropWhile]

/-- What an event that admits nobody does to the queue, the bound requests and the protection. -/
inductive Carries (s s' : State e) : Prop
  | submits (submission : Submission e) : s' = s.submit submission → Carries s s'
  | stays : Shrinks s.pending s'.pending →
      (∀ lane, ∀ slot' ∈ s'.slots lane, ∃ slot ∈ s.slots lane, slot'.Follows slot) →
      (∀ hold ∈ s'.copyHold, hold ∈ s.copyHold) → Guarded s s' →
      s'.nextRequestId = s.nextRequestId → s'.nextQueueOrder = s.nextQueueOrder → Carries s s'
  | requeues {hold : Hold e} {slot : Slot e} {q : Queued e} : s.copyHold = some hold →
      s.slots hold.lane = some slot → q.Same slot.queued → s'.pending = requeued s.pending q →
      s'.slots = Function.update s.slots hold.lane none → s'.copyHold = none → Guarded s s' →
      s'.nextRequestId = s.nextRequestId → s'.nextQueueOrder = s.nextQueueOrder → Carries s s'

/-- An event that looks for a request to admit. -/
def Event.looks : Event e → Option (Env e)
  | .tryAdmit env => some env
  | .tryInterrupt env => some env
  | _ => none

section Carries

variable {s s' : State e}

variable {slot : Slot e} {lane : e.Lane} {after : Option (Slot e)}

lemma follows_update {slots : e.Lane → Option (Slot e)} (hslot : slots lane = some slot)
    (hafter : ∀ slot' ∈ after, slot'.Follows slot) :
    ∀ lane', ∀ slot' ∈ Function.update slots lane after lane',
      ∃ slot ∈ slots lane', slot'.Follows slot := by
  intro lane' slot' hslot'
  by_cases hlane : lane' = lane
  · subst hlane
    rw [Function.update_self] at hslot'
    exact ⟨slot, hslot, hafter slot' hslot'⟩
  · rw [Function.update_of_ne hlane] at hslot'
    exact ⟨slot', hslot', .refl slot'⟩

/-- Only the slot of one lane changes. -/
lemma carries_update (hslot : s.slots lane = some slot)
    (hafter : ∀ slot' ∈ after, slot'.Follows slot)
    (hslots : s'.slots = Function.update s.slots lane after) (hpending : s'.pending = s.pending)
    (hhold : ∀ hold ∈ s'.copyHold, hold ∈ s.copyHold) (hprotection : s'.protection = s.protection)
    (hid : s'.nextRequestId = s.nextRequestId) (horder : s'.nextQueueOrder = s.nextQueueOrder)
    (hepoch : s'.nextProtectionEpoch = s.nextProtectionEpoch) : Carries s s' := by
  refine .stays ?_ ?_ hhold (.of_pending_eq hpending hprotection hepoch) hid horder
  · rw [hpending]
    exact .refl _
  · rw [hslots]
    exact follows_update hslot hafter

lemma settle_carries {request : Prefill.Request} (kept : Option KvPages)
    (hslot : s.slots lane = some slot) (hadmission : request.admission = slot.request.admission) :
    Carries s (settle s lane slot request kept) := by
  have hfollows : ∀ slot' ∈ some { slot with request }, slot'.Follows slot := by
    rintro slot' ⟨⟩
    exact ⟨rfl, hadmission, rfl, rfl⟩
  unfold settle
  split
  · exact carries_update hslot (fun _ h => by cases h) rfl rfl (fun _ h => h) rfl rfl rfl rfl
  · exact carries_update hslot hfollows rfl rfl (fun _ h => h) rfl rfl rfl rfl
  · exact carries_update hslot hfollows rfl rfl (fun _ h => h) rfl rfl rfl rfl
  · exact carries_update hslot hfollows rfl rfl (fun _ h => h) rfl rfl rfl rfl

lemma startRecovery_carries {spliced : Option ℕ} {route : Option ReuseDecision} {resident : Bool}
    (hslot : s.slots lane = some slot)
    (h : startRecovery s lane slot spliced route resident = .ok s') : Carries s s' := by
  have hreleased : Carries s (s.releaseLane lane) :=
    carries_update hslot (fun _ h => by cases h) rfl rfl (fun _ h => h) rfl rfl rfl rfl
  unfold startRecovery at h
  simp only at h
  split at h
  swap
  · rwa [← ok_pure_iff.mp h]
  split at h
  · rwa [← ok_pure_iff.mp h]
  rw [ok_bind_iff] at h
  obtain ⟨s₁, hstarted, h⟩ := h
  rw [State.startPrefillLane, refuseIf_bind_iff, refuseIf_bind_iff] at hstarted
  obtain ⟨-, -, hstarted⟩ := hstarted
  rw [← ok_pure_iff.mp h, ← ok_pure_iff.mp hstarted]
  have hfollows : ∀ slot' ∈ some { slot with
      request := startRecoveryAttempt e.program slot.request spliced route },
      slot'.Follows slot := by
    rintro slot' ⟨⟩
    exact ⟨rfl, startRecoveryAttempt_admission .., rfl, rfl⟩
  exact carries_update hslot hfollows (Function.update_idem ..) rfl (fun _ h => h) rfl rfl rfl rfl

lemma admitComplete_carries {hold : Hold e} (h : s.admitComplete hold slot = .ok s') :
    Carries s s' := by
  rw [State.admitComplete, ok_bind_iff] at h
  obtain ⟨_, -, h⟩ := h
  rw [ok_bind_iff] at h
  obtain ⟨_, -, h⟩ := h
  rw [ok_bind_iff] at h
  obtain ⟨s₁, hstarted, h⟩ := h
  rw [State.startPrefillLane, refuseIf_bind_iff, refuseIf_bind_iff] at hstarted
  obtain ⟨-, -, hstarted⟩ := hstarted
  rw [← ok_pure_iff.mp h, ← ok_pure_iff.mp hstarted]
  exact .stays (.refl _) (fun _ slot hslot => ⟨slot, hslot, .refl slot⟩)
    (fun _ h => by cases h) (.of_pending_eq rfl rfl rfl) rfl rfl

/-- An event that looks for nobody carries the requests over. -/
lemma step_carries {event : Event e} (hlooks : event.looks = none) (h : s.step event = .ok s') :
    Carries s s' := by
  cases event with
  | submit submission => exact .submits submission (ok_pure_iff.mp h).symm
  | leave id =>
    rw [← ok_pure_iff.mp h]
    exact .stays (shrinks_filter ..) (fun _ slot hslot => ⟨slot, hslot, .refl slot⟩)
      (fun _ h => h) (.leave s id) rfl rfl
  | tryAdmit env => cases hlooks
  | tryInterrupt env => cases hlooks
  | endHold outcome =>
    simp only [State.step] at h
    split at h
    · cases h
    rename_i hold hhold
    split at h
    · cases h
    · exact admitComplete_carries h
    · rename_i slot replan hslot
      rw [← ok_pure_iff.mp h]
      have hperm := requeued_perm s.pending
        { slot.queued with cacheFallback := slot.queued.cacheFallback || !replan }
      refine .requeues hhold hslot (q := { slot.queued with
          cacheFallback := slot.queued.cacheFallback || !replan }) ⟨rfl, rfl, rfl⟩ rfl rfl rfl
        ⟨fun _ h => h, fun _ _ r hr _ => ⟨r, ?_, .refl r⟩, rfl⟩ rfl rfl
      exact hperm.mem_iff.mpr (List.mem_cons_of_mem _ hr)
    · rename_i slot hslot
      rw [← ok_pure_iff.mp h]
      exact carries_update hslot (fun _ h => by cases h) rfl rfl (fun _ h => by cases h) rfl rfl rfl
        rfl
  | advance lane event kept =>
    simp only [State.step] at h
    split at h
    · cases h
    rename_i slot hslot
    rw [ok_bind_iff] at h
    obtain ⟨request, hstep, h⟩ := h
    rw [← ok_pure_iff.mp h]
    exact settle_carries kept hslot (step_admission hstep)
  | startRecovery lane spliced route resident =>
    simp only [State.step] at h
    split at h
    · rw [← ok_pure_iff.mp h]
      exact .stays (.refl _) (fun _ slot hslot => ⟨slot, hslot, .refl slot⟩) (fun _ h => h)
        (.of_pending_eq rfl rfl rfl) rfl rfl
    · rename_i slot hslot
      exact startRecovery_carries hslot h

end Carries

/-- What an event that looks for a request comes to: at most one request of the queue is bound. -/
inductive Looks (s s' : State e) : Prop
  | waits : Waits s s' → Looks s s'
  | binds {s₁ : State e} {q : Queued e} {c : Candidate e q.prompt} {victimLanes : List e.Lane}
      {backfillClass : BackfillClass} {backfillEpoch : ℕ} : Waits s s₁ → q ∈ s₁.pending →
      bindLane s₁ q c victimLanes backfillClass backfillEpoch = .ok s' → Looks s s'

section Looks

variable {s s₁ s' : State e} {env : Env e} {progress : AdmissionProgress}

lemma admitPlannedRequest_looks {q : Queued e} {c : Candidate e q.prompt}
    {backfillClass : BackfillClass} {backfillEpoch : ℕ} (hwaits : Waits s s₁)
    (hq : q ∈ s₁.pending)
    (h : admitPlannedRequest s₁ env q c backfillClass backfillEpoch = .ok (s', progress)) :
    Looks s s' := by
  obtain ⟨hwaits', -⟩ | ⟨-, -, -, victimLanes, hbind⟩ := admitPlannedRequest_cases h
  · exact .waits (hwaits.trans hwaits')
  · exact .binds hwaits hq hbind

lemma tryAdmitOne_looks (hnodup : (s.pending.map (·.id)).Nodup)
    (h : tryAdmitOne s env = .ok (s', progress)) : Looks s s' := by
  cases tryAdmitOne_cases hnodup h with
  | empty hwaits => exact .waits hwaits
  | admits hwaits hpending _ _ _ hadmits =>
    refine admitPlannedRequest_looks hwaits ?_ hadmits
    rw [hpending]
    exact List.mem_cons_self
  | protects hwaits => exact .waits hwaits
  | overtakes hwaits hpending _ hq _ hadmits =>
    refine admitPlannedRequest_looks hwaits ?_ hadmits
    rw [hpending]
    exact List.mem_cons_of_mem _ hq

lemma tryInterruptPrefill_looks (h : tryInterruptPrefill s env = .ok (s', progress)) :
    Looks s s' := by
  rcases tryInterruptPrefill_cases h with heq | ⟨q, hfound, c, hadmits⟩
  · cases heq
    exact .waits (.refl s)
  · exact admitPlannedRequest_looks (.refl s) (List.mem_of_find?_eq_some hfound) hadmits

/-- Events either carry the requests over, or bind one of the queue. -/
lemma step_looks {event : Event e} (hlooks : event.looks = some env)
    (hnodup : (s.pending.map (·.id)).Nodup) (h : s.step event = .ok s') : Looks s s' := by
  cases event with
  | tryAdmit env' =>
    obtain ⟨⟨s₁, progress⟩, hok, rfl⟩ := ok_map_iff.mp h
    exact tryAdmitOne_looks hnodup hok
  | tryInterrupt env' =>
    obtain ⟨⟨s₁, progress⟩, hok, rfl⟩ := ok_map_iff.mp h
    exact tryInterruptPrefill_looks hok
  | submit | leave | endHold | advance | startRecovery => cases hlooks

end Looks

/-! ## Numbers -/

/-- The numbers of the bound requests. -/
def State.bound (s : State e) (key : Queued e → ℕ) (lane : e.Lane) : Option ℕ :=
  (s.slots lane).map fun slot => key slot.queued

/-- Requests are numbered as they are submitted. -/
structure Numbering (key : Queued e → ℕ) (next : State e → ℕ) : Prop where
  kept : Kept key
  fresh : ∀ s : State e, ∀ submission : Submission e,
    key { submission with id := s.nextRequestId, queueOrder := s.nextQueueOrder } = next s
  submit : ∀ (s : State e) (submission : Submission e), next (s.submit submission) = next s + 1
  stays : ∀ s s' : State e, s'.nextRequestId = s.nextRequestId →
    s'.nextQueueOrder = s.nextQueueOrder → next s' = next s

lemma numbering_id : Numbering (e := e) (·.id) (·.nextRequestId) :=
  ⟨kept_id, fun _ _ => rfl, fun _ _ => rfl, fun _ _ h _ => h⟩

lemma numbering_queueOrder : Numbering (e := e) (·.queueOrder) (·.nextQueueOrder) :=
  ⟨kept_queueOrder, fun _ _ => rfl, fun _ _ => rfl, fun _ _ _ h => h⟩

/-- No two requests have the same number. -/
structure State.Numbered (s : State e) (key : Queued e → ℕ) (next : State e → ℕ) : Prop where
  ticketed : Ticketed (s.pending.map key) (s.bound key) (next s)
  next_pos : 0 < next s

namespace State.Numbered

variable {s s' : State e} {key : Queued e → ℕ} {next : State e → ℕ}

lemma bound_update {lane : e.Lane} {slot : Option (Slot e)}
    (h : s'.slots = Function.update s.slots lane slot) :
    s'.bound key = Function.update (s.bound key) lane (slot.map fun slot => key slot.queued) := by
  funext lane'
  unfold State.bound
  rw [h]
  by_cases hlane : lane' = lane
  · subst hlane
    simp
  · simp [hlane]

section

variable (h : s.Numbered key next)

include h

/-- Requests that leave take their numbers with them. -/
lemma mono (hkey : Numbering key next) (hpending : Shrinks s.pending s'.pending)
    (hslots : ∀ lane, ∀ slot' ∈ s'.slots lane, ∃ slot ∈ s.slots lane, slot'.queued = slot.queued)
    (hid : s'.nextRequestId = s.nextRequestId) (horder : s'.nextQueueOrder = s.nextQueueOrder) :
    s'.Numbered key next := by
  have hnext : next s' = next s := hkey.stays s s' hid horder
  constructor
  · rw [hnext]
    refine h.ticketed.mono (hpending.keys key hkey.kept) fun lane number hnumber => ?_
    obtain ⟨slot', hslot', rfl⟩ := Option.mem_map.mp hnumber
    obtain ⟨slot, hslot, hqueued⟩ := hslots lane slot' hslot'
    rw [hqueued]
    exact Option.mem_map_of_mem _ hslot
  · rw [hnext]
    exact h.next_pos

lemma waits (hkey : Numbering key next) (hwaits : Waits s s') : s'.Numbered key next := by
  refine h.mono hkey hwaits.pending (fun lane slot hslot => ?_) hwaits.nextRequest hwaits.nextOrder
  rw [hwaits.slots] at hslot
  exact ⟨slot, hslot, rfl⟩

lemma submit (hkey : Numbering key next) (submission : Submission e) :
    (s.submit submission).Numbered key next := by
  constructor
  · rw [hkey.submit, State.submit, List.map_append, List.map_singleton, hkey.fresh s]
    exact h.ticketed.submit h.next_pos
  · rw [hkey.submit]
    exact Nat.succ_pos _

lemma requeues (hkey : Numbering key next) {lane : e.Lane}
    {slot : Slot e} {q : Queued e} (hslot : s.slots lane = some slot) (hsame : q.Same slot.queued)
    (hpending : s'.pending = requeued s.pending q)
    (hslots : s'.slots = Function.update s.slots lane none)
    (hid : s'.nextRequestId = s.nextRequestId) (horder : s'.nextQueueOrder = s.nextQueueOrder) :
    s'.Numbered key next := by
  have hnext : next s' = next s := hkey.stays s s' hid horder
  constructor
  · rw [hnext, hpending, bound_update hslots]
    have hmem : key q ∈ s.bound key lane := by
      rw [hkey.kept q slot.queued hsame]
      exact Option.mem_map_of_mem _ hslot
    exact h.ticketed.requeue hmem ((requeued_perm s.pending q).map key)
  · rw [hnext]
    exact h.next_pos

/-- An event that looks for nobody keeps the numbers. -/
lemma carries (hkey : Numbering key next) (hcarries : Carries s s') : s'.Numbered key next := by
  cases hcarries with
  | submits submission heq =>
    rw [heq]
    exact h.submit hkey submission
  | stays hpending hslots _ _ hid horder =>
    refine h.mono hkey hpending (fun lane slot' hslot' => ?_) hid horder
    obtain ⟨slot, hslot, hfollows⟩ := hslots lane slot' hslot'
    exact ⟨slot, hslot, hfollows.queued⟩
  | requeues _ hslot hsame hpending hslots _ _ hid horder =>
    exact h.requeues hkey hslot hsame hpending hslots hid horder

/-- A request keeps its number when it takes a lane. -/
lemma bindLane (hkey : Numbering key next) {q : Queued e}
    {c : Candidate e q.prompt} {victimLanes : List e.Lane} {backfillClass : BackfillClass}
    {backfillEpoch : ℕ} (hq : q ∈ s.pending)
    (hbind : bindLane s q c victimLanes backfillClass backfillEpoch = .ok s') :
    s'.Numbered key next := by
  obtain ⟨_, -, -, hpending, hslots, -, hid, horder, -⟩ := bindLane_cases hbind
  have hnext : next s' = next s := hkey.stays s s' hid horder
  constructor
  · rw [hnext, hpending, bound_update hslots]
    refine h.ticketed.bind (List.mem_map_of_mem hq) ((shrinks_filter ..).keys key hkey.kept) ?_
    -- Another request with this number would have this id too, and so be this one.
    intro hmem
    obtain ⟨r, hr, hnumber⟩ := List.mem_map.mp hmem
    obtain ⟨hr, hne⟩ := List.mem_filter.mp hr
    have hrq : r = q := List.inj_on_of_nodup_map h.ticketed.nodup hr hq hnumber
    simp [hrq] at hne
  · rw [hnext]
    exact h.next_pos

end

end State.Numbered

/-! ## Order -/

/-- Ids and places are unique, and the queue is in order. -/
structure Ordered (s : State e) : Prop where
  ids : s.Numbered (·.id) (·.nextRequestId)
  orders : s.Numbered (·.queueOrder) (·.nextQueueOrder)
  sorted : (s.pending.map (·.queueOrder)).Pairwise (· < ·)

namespace Ordered

variable {s s' : State e}

lemma init : Ordered ({} : State e) where
  ids := ⟨⟨List.nodup_nil, (fun _ h => by cases h), fun _ _ h => by cases h⟩, Nat.one_pos⟩
  orders := ⟨⟨List.nodup_nil, (fun _ h => by cases h), fun _ _ h => by cases h⟩, Nat.one_pos⟩
  sorted := List.Pairwise.nil

lemma nodup (h : Ordered s) : (s.pending.map (·.id)).Nodup := h.ids.ticketed.nodup

/-- A request that goes back takes its place among the others. -/
lemma sorted_requeued {pending : List (Queued e)} {q : Queued e}
    (hsorted : (pending.map (·.queueOrder)).Pairwise (· < ·))
    (hq : q.queueOrder ∉ pending.map (·.queueOrder)) :
    ((requeued pending q).map (·.queueOrder)).Pairwise (· < ·) := by
  induction pending with
  | nil => simp [requeued]
  | cons r rest ih =>
    rw [List.map_cons, List.pairwise_cons] at hsorted
    rw [List.map_cons, List.mem_cons, not_or] at hq
    by_cases hbefore : r.queueOrder < q.queueOrder
    · have hcons : requeued (r :: rest) q = r :: requeued rest q := by simp [requeued, hbefore]
      rw [hcons, List.map_cons, List.pairwise_cons]
      refine ⟨fun order horder => ?_, ih hsorted.2 hq.2⟩
      rcases List.mem_cons.mp (((requeued_perm rest q).map _).subset horder) with rfl | horder
      · exact hbefore
      · exact hsorted.1 order horder
    · have hcons : requeued (r :: rest) q = q :: r :: rest := by simp [requeued, hbefore]
      have hafter : q.queueOrder < r.queueOrder := by omega
      rw [hcons, List.map_cons, List.pairwise_cons]
      refine ⟨fun order horder => ?_, List.pairwise_cons.mpr hsorted⟩
      rcases List.mem_cons.mp horder with rfl | horder
      · exact hafter
      · exact hafter.trans (hsorted.1 order horder)

lemma waits (h : Ordered s) (hwaits : Waits s s') : Ordered s' where
  ids := h.ids.waits numbering_id hwaits
  orders := h.orders.waits numbering_queueOrder hwaits
  sorted := h.sorted.sublist (hwaits.pending.keys _ kept_queueOrder)

lemma looks (h : Ordered s) (hlooks : Looks s s') : Ordered s' := by
  cases hlooks with
  | waits hwaits => exact h.waits hwaits
  | binds hwaits hq hbind =>
    have h₁ := h.waits hwaits
    refine ⟨h₁.ids.bindLane numbering_id hq hbind,
      h₁.orders.bindLane numbering_queueOrder hq hbind, ?_⟩
    obtain ⟨_, -, -, hpending, -⟩ := bindLane_cases hbind
    rw [hpending]
    exact h₁.sorted.sublist ((shrinks_filter ..).keys _ kept_queueOrder)

lemma carries (h : Ordered s) (hcarries : Carries s s') : Ordered s' where
  ids := h.ids.carries numbering_id hcarries
  orders := h.orders.carries numbering_queueOrder hcarries
  sorted := by
    cases hcarries with
    | submits submission heq =>
      rw [heq, State.submit, List.map_append, List.pairwise_append]
      refine ⟨h.sorted, List.pairwise_singleton .., fun order horder next hnext => ?_⟩
      rw [List.map_singleton, List.mem_singleton] at hnext
      rw [hnext]
      exact (h.orders.ticketed.fresh order horder).2
    | stays hpending => exact h.sorted.sublist (hpending.keys _ kept_queueOrder)
    | requeues _ hslot hsame hpending =>
      rw [hpending]
      refine sorted_requeued h.sorted ?_
      rw [hsame.order]
      exact (h.orders.ticketed.bound _ _ (Option.mem_map_of_mem _ hslot)).2.1

/-- Every event keeps the queue in order. -/
lemma step (h : Ordered s) {event : Event e} (hstep : s.step event = .ok s') : Ordered s' := by
  cases hlooks : event.looks with
  | none => exact h.carries (step_carries hlooks hstep)
  | some env => exact h.looks (step_looks hlooks h.nodup hstep)

end Ordered

lemma Reachable.ordered {s : State e} (h : Reachable s) : Ordered s := by
  induction h with
  | init => exact .init
  | step event _ _ hstep ih => exact ih.step hstep

end NInfer.Admission
