import NInfer.Prefill.ServiceWork

/-!
# Admission policy

A request that finds no lane at the head of the queue is protected (`admission_policy.cpp`): the
active requests are frozen as incumbents, the ones that finish first are its donors, and what may
overtake it is bounded by the work of the last donor.  `make_admission_protection` checks its
preconditions, and `admission_protection_frontier` says that it refuses nothing else and which
incumbents it takes as donors.
-/

namespace NInfer.Admission

open NInfer.Prefill

/-- `ResourceTotals`: lanes, main KV pages, backend KV pages. -/
abbrev ResourceTotals := ℕ × ℕ × ℕ

/-- The summand that `add` adds for a request. -/
def totals (resources : AdmissionResources) : ResourceTotals :=
  (resources.activeLanes, resources.mainKvPages, resources.backendKvPages)

/-- `subtract`. -/
def subtract (total : ResourceTotals) (resources : AdmissionResources) :
    Except String ResourceTotals := do
  refuseIf (¬totals resources ≤ total) "admission resource subtraction underflow"
  pure (total - totals resources)

/-- `fits`. -/
def fits (used : ResourceTotals) (capacity : AdmissionResources) : Bool := used ≤ totals capacity

lemma admissionResourcesFit_iff {used capacity : AdmissionResources} :
    admissionResourcesFit used capacity = true ↔ totals used ≤ totals capacity := by
  simp [admissionResourcesFit, totals, Prod.le_def]

/-- `BackfillClass`. -/
inductive BackfillClass where
  | none
  | persistent
  | temporal
  deriving DecidableEq

/-- `ActiveAdmissionSnapshot`. -/
structure ActiveAdmissionSnapshot where
  requestId : ℕ
  resources : AdmissionResources
  remainingWorkQuanta : ℕ
  backfillEpoch : ℕ
  backfillClass : BackfillClass

/-- `ProtectionPhase`. -/
inductive ProtectionPhase where
  | opened
  | drain
  deriving DecidableEq

/-- `AdmissionProtection`. -/
structure AdmissionProtection where
  epochId : ℕ
  headRequestId : ℕ
  headResources : AdmissionResources
  incumbentIds : List ℕ
  donorIds : List ℕ
  temporalCredit : ℕ
  phase : ProtectionPhase := .opened

/-- The resources of the active requests. -/
def activeTotals (active : List ActiveAdmissionSnapshot) : ResourceTotals :=
  (active.map (totals ·.resources)).sum

/-- The order in which incumbents are projected to finish. -/
def FinishesBefore (a b : ActiveAdmissionSnapshot) : Prop :=
  a.remainingWorkQuanta < b.remainingWorkQuanta ∨
    a.remainingWorkQuanta = b.remainingWorkQuanta ∧ a.requestId ≤ b.requestId

instance : DecidableRel FinishesBefore := fun _ _ => inferInstanceAs (Decidable (_ ∨ _))

/-- The loop of `make_admission_protection` that releases donors until the head fits. -/
def releaseDonors (capacity : AdmissionResources) (survivors : ResourceTotals) (donors : List ℕ) :
    List ActiveAdmissionSnapshot → Except String (List ℕ × ℕ)
  | [] => throw "exclusive-feasible head has no releasing incumbent frontier"
  | donor :: rest => do
    let survivors ← subtract survivors donor.resources
    let donors := donors ++ [donor.requestId]
    if fits survivors capacity then pure (donors, donor.remainingWorkQuanta)
    else releaseDonors capacity survivors donors rest

/-- `make_admission_protection`. -/
def makeAdmissionProtection (epochId headRequestId : ℕ) (headResources : AdmissionResources)
    (active : List ActiveAdmissionSnapshot) (capacity : AdmissionResources) :
    Except String AdmissionProtection := do
  refuseIf (epochId = 0 ∨ headRequestId = 0 ∨ active = [] ∨ active.length > kMaximumConcurrency ∨
      headResources.activeLanes = 0 ∨ admissionResourcesFit headResources capacity = false)
    "invalid protected-admission frontier"
  refuseIf (∃ request ∈ active, request.requestId = 0 ∨ request.remainingWorkQuanta = 0)
    "protected incumbent has invalid progress state"
  let survivors := activeTotals active + totals headResources
  refuseIf (fits survivors capacity = true) "protected head is not blocked by frozen incumbents"
  let (donorIds, temporalCredit) ←
    releaseDonors capacity survivors [] (active.insertionSort FinishesBefore)
  pure
    { epochId, headRequestId, headResources
      incumbentIds := active.map (·.requestId)
      donorIds, temporalCredit }

/-- `persistent_backfill_is_safe`. -/
def persistentBackfillIsSafe (protection : AdmissionProtection)
    (active : List ActiveAdmissionSnapshot) (candidate capacity : AdmissionResources) : Bool :=
  let kept := active.filter fun request =>
    if request.requestId ∈ protection.incumbentIds then request.requestId ∉ protection.donorIds
    else request.backfillEpoch = protection.epochId ∧ request.backfillClass = .persistent
  fits (totals protection.headResources + activeTotals kept + totals candidate) capacity

/-- `protection_frontier_distance`. -/
def protectionFrontierDistance (protection : AdmissionProtection)
    (active : List ActiveAdmissionSnapshot) : ℕ :=
  (active.filter (·.requestId ∈ protection.donorIds)).foldl
    (fun distance request => max distance request.remainingWorkQuanta) 0

/-- `protected_head_safe_without_temporal`. -/
def protectedHeadSafeWithoutTemporal (protection : AdmissionProtection)
    (active : List ActiveAdmissionSnapshot) (capacity : AdmissionResources) : Bool :=
  let kept := active.filter fun request =>
    request.requestId ∈ protection.incumbentIds ∨ request.backfillEpoch ≠ protection.epochId ∨
      request.backfillClass ≠ .temporal
  fits (totals protection.headResources + activeTotals kept) capacity

/-! ## When a head can be protected -/

lemma subtract_add {rest : ResourceTotals} {resources : AdmissionResources} :
    subtract (totals resources + rest) resources = .ok rest := by
  have hle : totals resources ≤ totals resources + rest :=
    ⟨Nat.le_add_right .., Nat.le_add_right .., Nat.le_add_right ..⟩
  rw [subtract, refuseIf, if_neg (not_not.mpr hle)]
  exact congrArg _ (Prod.ext (Nat.add_sub_cancel_left ..)
    (Prod.ext (Nat.add_sub_cancel_left ..) (Nat.add_sub_cancel_left ..)))

/-- The loop stops at the first donor without which the head fits.  A head that fits alone fits at
the latest when every incumbent is gone. -/
lemma releaseDonors_spec {capacity : AdmissionResources} {head : ResourceTotals}
    (hhead : head ≤ totals capacity) (donors : List ℕ) {order : List ActiveAdmissionSnapshot}
    (hne : order ≠ []) :
    ∃ n last, order[n]? = some last ∧
      releaseDonors capacity (activeTotals order + head) donors order =
        .ok (donors ++ (order.take (n + 1)).map (·.requestId), last.remainingWorkQuanta) ∧
      activeTotals (order.drop (n + 1)) + head ≤ totals capacity ∧
      ∀ m < n, ¬activeTotals (order.drop (m + 1)) + head ≤ totals capacity := by
  induction order generalizing donors with
  | nil => exact absurd rfl hne
  | cons donor rest ih =>
    have hsplit : activeTotals (donor :: rest) + head =
        totals donor.resources + (activeTotals rest + head) := by
      rw [activeTotals, List.map_cons, List.sum_cons, add_assoc]
      rfl
    rw [releaseDonors, hsplit, subtract_add]
    simp only [bind, Except.bind]
    by_cases hfits : fits (activeTotals rest + head) capacity = true
    · rw [if_pos hfits]
      exact ⟨0, donor, rfl, rfl, by simpa [fits] using hfits, fun m hm => absurd hm (by omega)⟩
    · rw [if_neg hfits]
      have hrest : rest ≠ [] := by
        rintro rfl
        apply hfits
        simpa [fits, activeTotals] using hhead
      obtain ⟨n, last, hlast, hok, hroom, hfewer⟩ := ih (donors ++ [donor.requestId]) hrest
      refine ⟨n + 1, last, hlast, by simpa using hok, hroom, fun m hm => ?_⟩
      cases m with
      | zero => simpa [fits] using hfits
      | succ m => exact hfewer m (by omega)

section Protection

variable {epochId headRequestId : ℕ} {headResources : AdmissionResources}
  {active : List ActiveAdmissionSnapshot} {capacity : AdmissionResources}

/-- The preconditions of `make_admission_protection`. -/
structure Protectable (epochId headRequestId : ℕ) (headResources : AdmissionResources)
    (active : List ActiveAdmissionSnapshot) (capacity : AdmissionResources) : Prop where
  epoch : epochId ≠ 0
  head : headRequestId ≠ 0
  nonempty : active ≠ []
  length : active.length ≤ kMaximumConcurrency
  lane : headResources.activeLanes ≠ 0
  fits : totals headResources ≤ totals capacity
  progress : ∀ request ∈ active, request.requestId ≠ 0 ∧ request.remainingWorkQuanta ≠ 0
  blocked : ¬activeTotals active + totals headResources ≤ totals capacity

/-- They are what the three checks ask for. -/
lemma protectable_iff : Protectable epochId headRequestId headResources active capacity ↔
    ¬(epochId = 0 ∨ headRequestId = 0 ∨ active = [] ∨ active.length > kMaximumConcurrency ∨
      headResources.activeLanes = 0 ∨ admissionResourcesFit headResources capacity = false) ∧
    (¬∃ request ∈ active, request.requestId = 0 ∨ request.remainingWorkQuanta = 0) ∧
    ¬fits (activeTotals active + totals headResources) capacity = true := by
  simp only [not_or, not_exists, not_and, Bool.not_eq_false, admissionResourcesFit_iff, fits,
    decide_eq_true_eq, not_lt, gt_iff_lt]
  constructor
  · rintro ⟨hepoch, hid, hactive, hlength, hlane, hfit, hprogress, hblocked⟩
    exact ⟨⟨hepoch, hid, hactive, hlength, hlane, hfit⟩, hprogress, hblocked⟩
  · rintro ⟨⟨hepoch, hid, hactive, hlength, hlane, hfit⟩, hprogress, hblocked⟩
    exact ⟨hepoch, hid, hactive, hlength, hlane, hfit, hprogress, hblocked⟩

/-- The incumbents can be released in any order. -/
lemma Protectable.releases (h : Protectable epochId headRequestId headResources active capacity)
    {order : List ActiveAdmissionSnapshot} (hperm : order.Perm active) :
    ∃ n last, order[n]? = some last ∧
      releaseDonors capacity (activeTotals active + totals headResources) [] order =
        .ok ((order.take (n + 1)).map (·.requestId), last.remainingWorkQuanta) ∧
      activeTotals (order.drop (n + 1)) + totals headResources ≤ totals capacity ∧
      ∀ m ≤ n, ¬activeTotals (order.drop m) + totals headResources ≤ totals capacity := by
  have htotals : activeTotals active = activeTotals order := ((hperm.map _).sum_eq).symm
  have hne : order ≠ [] := fun hnil => h.nonempty (hnil ▸ hperm).symm.eq_nil
  have hblocked := h.blocked
  rw [htotals] at hblocked ⊢
  obtain ⟨n, last, hlast, hok, hroom, hfewer⟩ := releaseDonors_spec h.fits [] hne
  refine ⟨n, last, hlast, hok, hroom, fun m hm => ?_⟩
  cases m with
  | zero => exact hblocked
  | succ m => exact hfewer m hm

/-- A call that meets the preconditions is the loop over the sorted incumbents. -/
lemma Protectable.eq_loop (h : Protectable epochId headRequestId headResources active capacity) :
    makeAdmissionProtection epochId headRequestId headResources active capacity =
      (fun (donorIds, temporalCredit) =>
        { epochId, headRequestId, headResources, incumbentIds := active.map (·.requestId), donorIds,
          temporalCredit }) <$>
        releaseDonors capacity (activeTotals active + totals headResources) []
          (active.insertionSort FinishesBefore) := by
  obtain ⟨hwell, hrunning, hblocked⟩ := protectable_iff.mp h
  simp only [makeAdmissionProtection, refuseIf, if_neg hwell, if_neg hrunning, if_neg hblocked]
  rfl

lemma protectable_of_ok {protection : AdmissionProtection}
    (h : makeAdmissionProtection epochId headRequestId headResources active capacity =
      .ok protection) : Protectable epochId headRequestId headResources active capacity := by
  rw [makeAdmissionProtection, refuseIf_bind_iff, refuseIf_bind_iff, refuseIf_bind_iff] at h
  exact protectable_iff.mpr ⟨h.1, h.2.1, h.2.2.1⟩

lemma Protectable.ok (h : Protectable epochId headRequestId headResources active capacity) :
    ∃ protection,
      makeAdmissionProtection epochId headRequestId headResources active capacity =
        .ok protection := by
  obtain ⟨n, last, -, hloop, -⟩ := h.releases (List.perm_insertionSort FinishesBefore active)
  rw [h.eq_loop, hloop]
  exact ⟨_, rfl⟩

/-! ## What a protection promises -/

lemma activeTotals_mono {active kept : List ActiveAdmissionSnapshot} (h : kept.Sublist active) :
    activeTotals kept ≤ activeTotals active :=
  List.Sublist.sum_le_sum (h.map _) fun _ _ => ⟨Nat.zero_le _, Nat.zero_le _, Nat.zero_le _⟩

/-- A protection names its head and its incumbents, and the head fits next to those of them that are
not its donors. -/
structure AdmissionProtection.Made (protection : AdmissionProtection)
    (epochId headRequestId : ℕ) (headResources : AdmissionResources)
    (active : List ActiveAdmissionSnapshot) (capacity : AdmissionResources) : Prop where
  epoch : protection.epochId = epochId
  head : protection.headRequestId = headRequestId
  resources : protection.headResources = headResources
  incumbents : protection.incumbentIds = active.map (·.requestId)
  fits : totals headResources +
    activeTotals (active.filter (·.requestId ∉ protection.donorIds)) ≤ totals capacity

lemma makeAdmissionProtection_spec {protection : AdmissionProtection}
    (h : makeAdmissionProtection epochId headRequestId headResources active capacity =
      .ok protection) :
    protection.Made epochId headRequestId headResources active capacity := by
  have hperm := List.perm_insertionSort FinishesBefore active
  have hprotectable := protectable_of_ok h
  obtain ⟨n, last, -, hloop, hfits, -⟩ := hprotectable.releases hperm
  rw [hprotectable.eq_loop, hloop] at h
  obtain rfl := Except.ok.inj h
  refine ⟨rfl, rfl, rfl, rfl, le_trans (le_of_eq_of_le (add_comm ..) (add_le_add_left ?_ _)) hfits⟩
  generalize active.insertionSort FinishesBefore = order at hperm ⊢
  -- The released ones are donors, so what is kept is among the rest.
  have hreleased : (order.take (n + 1)).filter
      (·.requestId ∉ (order.take (n + 1)).map (·.requestId)) = [] := by
    rw [List.filter_eq_nil_iff]
    intro request hrequest
    have hdonor : request.requestId ∈ (order.take (n + 1)).map (·.requestId) :=
      List.mem_map_of_mem hrequest
    simpa using hdonor
  calc activeTotals (active.filter (·.requestId ∉ (order.take (n + 1)).map (·.requestId)))
      = activeTotals (order.filter (·.requestId ∉ (order.take (n + 1)).map (·.requestId))) :=
        (((hperm.filter _).map _).sum_eq).symm
    _ = activeTotals ((order.drop (n + 1)).filter
          (·.requestId ∉ (order.take (n + 1)).map (·.requestId))) := by
        conv_lhs => rw [← List.take_append_drop (n + 1) order, List.filter_append]
        rw [List.take_append_drop, hreleased, List.nil_append]
    _ ≤ activeTotals (order.drop (n + 1)) := activeTotals_mono List.filter_sublist

/-- The first `n` incumbents in order are the shortest prefix whose release makes room for the head,
and the credit is the most work that any of them has left. -/
structure Frontier (capacity : AdmissionResources) (head : ResourceTotals)
    (order : List ActiveAdmissionSnapshot) (n credit : ℕ) : Prop where
  fits : activeTotals (order.drop n) + head ≤ totals capacity
  shortest : ∀ m < n, ¬activeTotals (order.drop m) + head ≤ totals capacity
  reached : ∃ donor ∈ order.take n, donor.remainingWorkQuanta = credit
  largest : ∀ donor ∈ order.take n, donor.remainingWorkQuanta ≤ credit

/-- What `make_admission_protection` throws when a precondition fails. -/
def invalidArguments : List String :=
  ["invalid protected-admission frontier", "protected incumbent has invalid progress state",
    "protected head is not blocked by frozen incumbents"]

/-- `make_admission_protection` throws only if a precondition fails.  Otherwise it releases
incumbents in the order of their remaining work and id, and whichever way the sort orders equal
ones, the donors are the shortest prefix that lets the head fit. -/
theorem admission_protection_frontier (epochId headRequestId : ℕ)
    (headResources : AdmissionResources) (active : List ActiveAdmissionSnapshot)
    (capacity : AdmissionResources) :
    (∀ message, makeAdmissionProtection epochId headRequestId headResources active capacity =
      .error message → message ∈ invalidArguments) ∧
    (Protectable epochId headRequestId headResources active capacity →
      makeAdmissionProtection epochId headRequestId headResources active capacity =
        (fun (donorIds, temporalCredit) =>
          { epochId, headRequestId, headResources, incumbentIds := active.map (·.requestId),
            donorIds, temporalCredit }) <$>
          releaseDonors capacity (activeTotals active + totals headResources) []
            (active.insertionSort FinishesBefore) ∧
      ∀ order, order.Perm active → order.Pairwise FinishesBefore → ∃ n credit,
        releaseDonors capacity (activeTotals active + totals headResources) [] order =
          .ok ((order.take n).map (·.requestId), credit) ∧
        Frontier capacity (totals headResources) order n credit) := by
  refine ⟨fun message hthrown => ?_, fun h => ⟨h.eq_loop, fun order hperm hsorted => ?_⟩⟩
  · -- The first check that fails throws its own text.
    have hchecks := hthrown
    obtain rfl | ⟨hwell, hchecks⟩ := error_of_refuseIf_bind hchecks
    · exact .head _
    obtain rfl | ⟨hrunning, hchecks⟩ := error_of_refuseIf_bind hchecks
    · exact .tail _ (.head _)
    obtain rfl | ⟨hblocked, -⟩ := error_of_refuseIf_bind hchecks
    · exact .tail _ (.tail _ (.head _))
    have h := protectable_iff.mpr ⟨hwell, hrunning, hblocked⟩
    obtain ⟨protection, hok⟩ := h.ok
    rw [hok] at hthrown
    cases hthrown
  · obtain ⟨n, last, hlast, hok, hroom, hfewer⟩ := h.releases hperm
    have htake : order.take (n + 1) = order.take n ++ [last] := by
      rw [List.take_add_one, hlast]
      rfl
    refine ⟨n + 1, last.remainingWorkQuanta, hok, hroom, fun m hm => hfewer m (by omega),
      ⟨last, by simp [htake], rfl⟩, fun donor hdonor => ?_⟩
    have hprefix := hsorted.sublist (List.take_sublist (n + 1) order)
    rw [htake] at hdonor hprefix
    rcases List.mem_append.mp hdonor with hdonor | hdonor
    · rcases (List.pairwise_append.mp hprefix).2.2 donor hdonor last (by simp) with hlt | ⟨heq, -⟩
      · exact hlt.le
      · exact heq.le
    · rw [List.mem_singleton.mp hdonor]

/-- Three incumbents on eight pages; a head of four pages needs the two that finish first. -/
def crowded : List ActiveAdmissionSnapshot :=
  [⟨7, ⟨1, 4, 0⟩, 9, 0, .none⟩, ⟨8, ⟨1, 3, 0⟩, 2, 0, .none⟩, ⟨9, ⟨1, 1, 0⟩, 5, 0, .none⟩]

theorem admission_protection_frontier_crowded :
    Protectable 1 10 ⟨1, 4, 0⟩ crowded ⟨4, 8, 0⟩ ∧
      releaseDonors ⟨4, 8, 0⟩ (activeTotals crowded + (1, 4, 0)) []
        (crowded.insertionSort FinishesBefore) = .ok ([8, 9], 5) ∧
      ∃ n credit, releaseDonors ⟨4, 8, 0⟩ (activeTotals crowded + (1, 4, 0)) []
          (crowded.insertionSort FinishesBefore) =
            .ok (((crowded.insertionSort FinishesBefore).take n).map (·.requestId), credit) ∧
        Frontier ⟨4, 8, 0⟩ (1, 4, 0) (crowded.insertionSort FinishesBefore) n credit := by
  have h : Protectable 1 10 ⟨1, 4, 0⟩ crowded ⟨4, 8, 0⟩ := protectable_iff.mpr (by decide)
  have hfrontier := (admission_protection_frontier 1 10 ⟨1, 4, 0⟩ crowded ⟨4, 8, 0⟩).2 h
  exact ⟨h, rfl, hfrontier.2 _ (List.perm_insertionSort ..) (by decide)⟩

end Protection

end NInfer.Admission
