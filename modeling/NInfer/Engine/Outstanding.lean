import NInfer.Foundation.Fallible
import NInfer.Foundation.SlotSum

/-!
# Outstanding requests

`submit` reserves one of `max_outstanding_` places for a request, and the place is given back by
whoever comes last: the worker that completes the request, or the consumer that lets go of it
(`concurrent_executor.h`).  Every block under `queue_mutex_` or under the mutex of a request is one
event here, so that the blocks of different threads interleave freely.  A request carries the calls
that are between two of their blocks, and counts how often it was published and given back.
-/

namespace NInfer.Outstanding

variable {α ε : Type} {maxOutstanding : ℕ}

/-! ## State -/

/-- `Request`, as far as its completion reads it. -/
structure Request (α ε : Type) where
  result : Option α := none
  error : Option ε := none
  done : Bool := false
  consumerReleased : Bool := false
  capacityReleased : Bool := false
  /-- Calls of `complete_success` and `complete_error` that have still to mark the completion. -/
  completing : ℕ := 0
  /-- Calls that have still to give the place back. -/
  releasing : ℕ := 0
  /-- How often a result or an error was set. -/
  published : ℕ := 0
  /-- How often the place was given back. -/
  released : ℕ := 0

/-- What became of a call of `submit`. -/
inductive Entry (α ε : Type) where
  /-- It holds a place, and prepares its request. -/
  | reserved
  | accepted (request : Request α ε)
  | rejected
  /-- Its request could not be inserted into `pending_`, and nobody gives the place back. -/
  | lost

structure State (α ε : Type) where
  outstanding : ℕ := 0
  /-- `stopping_ || failed_`. -/
  unavailable : Bool := false
  /-- The calls of `submit` that got an id. -/
  table : List (Entry α ε) := []

/-! ## Blocks -/

namespace Request

variable (r : Request α ε)

/-- The block of `complete_error` and `complete_success` that publishes. -/
def publish (outcome : Except ε α) : Request α ε :=
  if r.done then r
  else
    let r := { r with done := true, completing := r.completing + 1, published := r.published + 1 }
    match outcome with
    | .ok result => { r with result := some result }
    | .error error => { r with error := some error }

/-- `mark_completed`. -/
def markCompleted : Request α ε :=
  let r := { r with completing := r.completing - 1 }
  if r.consumerReleased ∧ r.capacityReleased = false then
    { r with capacityReleased := true, releasing := r.releasing + 1 }
  else r

/-- The block of `release_consumer`. -/
def releaseConsumer : Request α ε :=
  let r := { r with consumerReleased := true }
  if r.done ∧ r.capacityReleased = false then
    { r with capacityReleased := true, releasing := r.releasing + 1 }
  else r

/-- The place of the request is given back. -/
def release : Request α ε :=
  { r with releasing := r.releasing - 1, released := r.released + 1 }

end Request

namespace State

variable (s : State α ε)

/-- The first block of `submit`. -/
def reserve (maxOutstanding : ℕ) : Except String (State α ε) := do
  refuseIf (s.unavailable = true) "inference engine is unavailable"
  refuseIf (s.outstanding ≥ maxOutstanding) "inference request queue is full"
  pure { s with outstanding := s.outstanding + 1, table := s.table ++ [.reserved] }

/-- `release_reserved_capacity`. -/
def releaseReservedCapacity : State α ε :=
  { s with outstanding := if s.outstanding ≠ 0 then s.outstanding - 1 else s.outstanding }

def setEntry (id : ℕ) (entry : Entry α ε) : State α ε := { s with table := s.table.set id entry }

/-- The last block of `submit`; `inserted` is whether `pending_.push_back` returns.  It may throw,
and then the place is still counted. -/
def accept (id : ℕ) (inserted : Bool) : State α ε :=
  if s.unavailable then { s with outstanding := s.outstanding - 1 }.setEntry id .rejected
  else if inserted then s.setEntry id (.accepted {})
  else s.setEntry id .lost

end State

/-! ## Runs -/

inductive Event (α ε : Type) where
  | reserve
  /-- The request could not be prepared. -/
  | discard (id : ℕ)
  | accept (id : ℕ) (inserted : Bool)
  | complete (id : ℕ) (outcome : Except ε α)
  | markCompleted (id : ℕ)
  /-- The consumer is done with the request, or abandons it. -/
  | releaseConsumer (id : ℕ)
  | releaseCapacity (id : ℕ)
  | stop

namespace State

variable (s : State α ε)

def onReserved (id : ℕ) (s' : State α ε) : Option (State α ε) :=
  match s.table[id]? with
  | some .reserved => some s'
  | _ => none

def onAccepted (id : ℕ) (can : Request α ε → Bool) (f : Request α ε → State α ε) :
    Option (State α ε) :=
  match s.table[id]? with
  | some (.accepted r) => if can r then some (f r) else none
  | _ => none

/-- One block of some thread, if it can run; a `reserve` that throws changes nothing. -/
def step (maxOutstanding : ℕ) : Event α ε → Option (State α ε)
  | .reserve => some ((s.reserve maxOutstanding).toOption.getD s)
  | .discard id => s.onReserved id (s.releaseReservedCapacity.setEntry id .rejected)
  | .accept id inserted => s.onReserved id (s.accept id inserted)
  | .complete id outcome =>
    s.onAccepted id (fun _ => true) fun r => s.setEntry id (.accepted (r.publish outcome))
  | .markCompleted id =>
    s.onAccepted id (0 < ·.completing) fun r => s.setEntry id (.accepted r.markCompleted)
  | .releaseConsumer id =>
    s.onAccepted id (fun _ => true) fun r => s.setEntry id (.accepted r.releaseConsumer)
  | .releaseCapacity id =>
    s.onAccepted id (0 < ·.releasing) fun r =>
      s.releaseReservedCapacity.setEntry id (.accepted r.release)
  | .stop => some { s with unavailable := true }

lemma reserve_cases (maxOutstanding : ℕ) : (s.reserve maxOutstanding).toOption.getD s = s ∨
    s.outstanding < maxOutstanding ∧ (s.reserve maxOutstanding).toOption.getD s =
      { s with outstanding := s.outstanding + 1, table := s.table ++ [.reserved] } := by
  cases hreserve : s.reserve maxOutstanding with
  | error message => exact .inl rfl
  | ok s' =>
    rw [State.reserve, refuseIf_bind_iff, refuseIf_bind_iff] at hreserve
    obtain ⟨-, hroom, hreserve⟩ := hreserve
    exact .inr ⟨Nat.lt_of_not_le hroom, (ok_pure_iff.mp hreserve).symm⟩

/-- Some blocks of any threads, one after another. -/
def run (maxOutstanding : ℕ) (s : State α ε) (events : List (Event α ε)) : Option (State α ε) :=
  events.foldlM (fun s event => s.step maxOutstanding event) s

end State

/-! ## One request -/

namespace Request

/-- The request is not both done and released by its consumer. -/
def isOpen (r : Request α ε) : Bool := !(r.done && r.consumerReleased)

/-- What holds of a request between two blocks.  Its place is marked as released at most once, by
the block that finds it done and released by its consumer, and a thread that is still completing it
will find it so if nobody else did. -/
structure Sound (r : Request α ε) : Prop where
  published : r.published = if r.done then 1 else 0
  outcome : r.done = (r.result.isSome ^^ r.error.isSome)
  notBoth : r.result.isSome = true → r.error.isSome = false
  completing : r.done = false → r.completing = 0
  marked : r.capacityReleased = true → r.isOpen = false
  balance : r.releasing + r.released = if r.capacityReleased then 1 else 0
  due : r.isOpen = false → r.capacityReleased = false → 0 < r.completing

/-- The places that the request still holds. -/
def places (r : Request α ε) : ℕ := if r.capacityReleased then r.releasing else 1

namespace Sound

variable {r : Request α ε}

lemma init : ({} : Request α ε).Sound where
  published := rfl
  outcome := rfl
  notBoth := fun h => by cases h
  completing := fun _ => rfl
  marked := fun h => by cases h
  balance := rfl
  due := fun h => by cases h

lemma notMarked (h : r.Sound) (hopen : r.isOpen = true) : r.capacityReleased = false := by
  by_contra hmarked
  rw [h.marked (by simpa using hmarked)] at hopen
  cases hopen

lemma publish (h : r.Sound) (outcome : Except ε α) :
    (r.publish outcome).Sound ∧ (r.publish outcome).places = r.places := by
  unfold Request.publish
  split
  · exact ⟨h, rfl⟩
  rename_i hdone
  have hdone : r.done = false := by simpa using hdone
  have hmarked : r.capacityReleased = false := h.notMarked (by simp [isOpen, hdone])
  have hpublished : r.published = 0 := by simpa [hdone] using h.published
  have hbalance := h.balance
  -- Neither a result nor an error was set before.
  have hnone : r.result.isSome = false ∧ r.error.isSome = false := by
    have houtcome := h.outcome
    have hnotBoth := h.notBoth
    rw [hdone] at houtcome
    cases hresult : r.result.isSome with
    | true => simp [hresult, hnotBoth hresult] at houtcome
    | false => exact ⟨rfl, by simpa [hresult] using houtcome.symm⟩
  cases outcome with
  | ok result =>
    refine ⟨⟨?_, ?_, ?_, ?_, ?_, ?_, ?_⟩, rfl⟩
    · simp [hpublished]
    · simp [hnone.2]
    · exact fun _ => hnone.2
    · exact fun hcontra => by cases hcontra
    · exact fun hcontra => by simp [hmarked] at hcontra
    · simpa [hmarked] using hbalance
    · exact fun _ _ => Nat.succ_pos _
  | error error =>
    refine ⟨⟨?_, ?_, ?_, ?_, ?_, ?_, ?_⟩, rfl⟩
    · simp [hpublished]
    · simp [hnone.1]
    · exact fun hcontra => by simp [hnone.1] at hcontra
    · exact fun hcontra => by cases hcontra
    · exact fun hcontra => by simp [hmarked] at hcontra
    · simpa [hmarked] using hbalance
    · exact fun _ _ => Nat.succ_pos _

/-- The block that finds a request done and released by its consumer takes over its place. -/
lemma mark (h : r.Sound) (hdone : r.done = true) (hmarked : r.capacityReleased = false)
    (completing : ℕ) :
    ({ r with consumerReleased := true, capacityReleased := true, completing
              releasing := r.releasing + 1 } : Request α ε).Sound ∧
      ({ r with consumerReleased := true, capacityReleased := true, completing
                releasing := r.releasing + 1 } : Request α ε).places = r.places := by
  have hbalance := h.balance
  rw [hmarked, if_neg Bool.false_ne_true] at hbalance
  refine ⟨⟨h.published, h.outcome, h.notBoth, ?_, ?_, ?_, ?_⟩, ?_⟩
  · exact fun hcontra => by simp [hdone] at hcontra
  · exact fun _ => by simp [isOpen, hdone]
  · simp only [if_true]
    omega
  · exact fun _ hcontra => by cases hcontra
  · simp only [places, hmarked, if_true, Bool.false_eq_true, if_false]
    omega

lemma markCompleted (h : r.Sound) (hcompleting : 0 < r.completing) :
    r.markCompleted.Sound ∧ r.markCompleted.places = r.places := by
  have hdone : r.done = true := by
    by_contra hdone
    have := h.completing (by simpa using hdone)
    omega
  unfold Request.markCompleted
  simp only
  split
  · rename_i hmark
    have hreleased : r.consumerReleased = true := hmark.1
    rw [hreleased]
    exact h.mark hdone hmark.2 (r.completing - 1)
  · rename_i hmark
    refine ⟨{ h with completing := ?_, due := ?_ }, rfl⟩
    · exact fun hcontra => by simp [hdone] at hcontra
    · intro hclosed hmarked
      have hreleased : r.consumerReleased = true := by simpa [isOpen, hdone] using hclosed
      exact absurd ⟨hreleased, hmarked⟩ hmark

lemma releaseConsumer (h : r.Sound) :
    r.releaseConsumer.Sound ∧ r.releaseConsumer.places = r.places := by
  unfold Request.releaseConsumer
  simp only
  split
  · rename_i hmark
    exact h.mark hmark.1 hmark.2 r.completing
  · rename_i hmark
    refine ⟨{ h with marked := ?_, due := ?_ }, rfl⟩
    · intro hmarked
      have hclosed := h.marked hmarked
      simp only [isOpen, Bool.not_eq_false', Bool.and_eq_true] at hclosed
      simp [isOpen, hclosed.1]
    · intro hclosed hmarked
      have hdone : r.done = true := by simpa [isOpen] using hclosed
      exact absurd ⟨hdone, hmarked⟩ hmark

lemma release (h : r.Sound) (hreleasing : 0 < r.releasing) :
    r.release.Sound ∧ r.release.places + 1 = r.places := by
  have hbalance := h.balance
  have hmarked : r.capacityReleased = true := by
    by_contra hmarked
    rw [if_neg hmarked] at hbalance
    omega
  rw [if_pos hmarked] at hbalance
  refine ⟨{ h with balance := ?_ }, ?_⟩
  · simp only [Request.release, hmarked, if_true]
    omega
  · simp only [Request.release, places, hmarked, if_true]
    omega

end Sound

end Request

/-! ## All requests -/

def Entry.Sound : Entry α ε → Prop
  | .accepted r => r.Sound
  | _ => True

/-- The places that a call of `submit` still holds. -/
def Entry.places : Entry α ε → ℕ
  | .reserved | .lost => 1
  | .accepted r => r.places
  | .rejected => 0

/-- `outstanding_` counts the places that are held. -/
structure Accounted (maxOutstanding : ℕ) (s : State α ε) : Prop where
  sound : ∀ entry ∈ s.table, entry.Sound
  total : s.outstanding = slotSum Entry.places s.table
  le : s.outstanding ≤ maxOutstanding

namespace Accounted

variable {maxOutstanding : ℕ} {s s' : State α ε} {id : ℕ} {entry : Entry α ε}

section

variable (h : Accounted maxOutstanding s)

include h

lemma places_le (hentry : s.table[id]? = some entry) : entry.places ≤ s.outstanding := by
  rw [h.total]
  exact le_slotSum _ (List.mem_of_getElem? hentry)

/-- One call goes on, and the counter follows its places. -/
lemma set (hentry : s.table[id]? = some entry)
    (entry' : Entry α ε) (hsound : entry'.Sound) (htable : s'.table = s.table.set id entry')
    (houtstanding : s'.outstanding + entry.places = s.outstanding + entry'.places)
    (hle : s'.outstanding ≤ s.outstanding) : Accounted maxOutstanding s' where
  sound := by
    intro other hother
    rw [htable] at hother
    rcases List.mem_or_eq_of_mem_set hother with hother | rfl
    · exact h.sound other hother
    · exact hsound
  total := by
    have hset := slotSum_set Entry.places hentry entry'
    have htotal := h.total
    rw [htable]
    omega
  le := hle.trans h.le

lemma request {r : Request α ε} (hentry : s.table[id]? = some (.accepted r)) : r.Sound :=
  h.sound _ (List.mem_of_getElem? hentry)

/-- A request that keeps its places. -/
lemma update {r r' : Request α ε}
    (hentry : s.table[id]? = some (.accepted r)) (hr' : r'.Sound ∧ r'.places = r.places) :
    Accounted maxOutstanding (s.setEntry id (.accepted r')) :=
  h.set hentry (.accepted r') hr'.1 rfl (by simp [State.setEntry, Entry.places, hr'.2]) le_rfl

lemma reserve : Accounted maxOutstanding ((s.reserve maxOutstanding).toOption.getD s) := by
  rcases s.reserve_cases maxOutstanding with heq | ⟨hroom, heq⟩
  · rw [heq]
    exact h
  rw [heq]
  refine ⟨fun entry hentry => ?_, ?_, hroom⟩
  · rcases List.mem_append.mp hentry with hentry | hentry
    · exact h.sound entry hentry
    · rw [List.mem_singleton.mp hentry]
      exact trivial
  · simp [Entry.places, h.total]

end

lemma onReserved_iff {s'' : State α ε} :
    s.onReserved id s' = some s'' ↔ s.table[id]? = some .reserved ∧ s' = s'' := by
  unfold State.onReserved
  split
  · rename_i hentry
    simp [hentry]
  · rename_i hentry
    exact ⟨fun hcontra => (by cases hcontra), fun ⟨hreserved, _⟩ => absurd hreserved hentry⟩

lemma onAccepted_iff {can : Request α ε → Bool} {f : Request α ε → State α ε} :
    s.onAccepted id can f = some s' ↔
      ∃ r, s.table[id]? = some (.accepted r) ∧ can r = true ∧ f r = s' := by
  unfold State.onAccepted
  split
  · rename_i r hentry
    simp [hentry]
  · rename_i hentry
    exact ⟨fun hcontra => (by cases hcontra), fun ⟨r, haccepted, _⟩ => absurd haccepted (hentry r)⟩

/-- A call that gives its place up. -/
lemma releaseReservedCapacity (h : Accounted maxOutstanding s) (hentry : s.table[id]? = some entry)
    {entry' : Entry α ε} (hsound : entry'.Sound) (hplaces : entry'.places + 1 = entry.places) :
    Accounted maxOutstanding (s.releaseReservedCapacity.setEntry id entry') := by
  have hle := h.places_le hentry
  have hne : s.outstanding ≠ 0 := by omega
  refine h.set hentry entry' hsound rfl ?_ ?_
  · simp only [State.releaseReservedCapacity, State.setEntry, if_pos hne]
    omega
  · simp only [State.releaseReservedCapacity, State.setEntry, if_pos hne]
    omega

lemma accept (h : Accounted maxOutstanding s) (hentry : s.table[id]? = some .reserved)
    (inserted : Bool) : Accounted maxOutstanding (s.accept id inserted) := by
  have hle : 1 ≤ s.outstanding := h.places_le hentry
  unfold State.accept
  split
  · refine h.set hentry .rejected trivial rfl ?_ ?_
    · simp only [State.setEntry, Entry.places]
      omega
    · simp only [State.setEntry]
      omega
  split
  · exact h.set hentry (.accepted {}) Request.Sound.init rfl rfl le_rfl
  · exact h.set hentry .lost trivial rfl rfl le_rfl

/-- Every block keeps the account. -/
lemma step (h : Accounted maxOutstanding s) {event : Event α ε}
    (hstep : s.step maxOutstanding event = some s') : Accounted maxOutstanding s' := by
  cases event with
  | reserve =>
    cases hstep
    exact h.reserve
  | discard id =>
    obtain ⟨hentry, rfl⟩ := onReserved_iff.mp hstep
    exact h.releaseReservedCapacity hentry trivial rfl
  | accept id inserted =>
    obtain ⟨hentry, rfl⟩ := onReserved_iff.mp hstep
    exact h.accept hentry inserted
  | complete id outcome =>
    obtain ⟨r, hentry, -, rfl⟩ := onAccepted_iff.mp hstep
    exact h.update hentry ((h.request hentry).publish outcome)
  | markCompleted id =>
    obtain ⟨r, hentry, hcompleting, rfl⟩ := onAccepted_iff.mp hstep
    exact h.update hentry ((h.request hentry).markCompleted (by simpa using hcompleting))
  | releaseConsumer id =>
    obtain ⟨r, hentry, -, rfl⟩ := onAccepted_iff.mp hstep
    exact h.update hentry (h.request hentry).releaseConsumer
  | releaseCapacity id =>
    obtain ⟨r, hentry, hreleasing, rfl⟩ := onAccepted_iff.mp hstep
    obtain ⟨hsound, hplaces⟩ := (h.request hentry).release (by simpa using hreleasing)
    exact h.releaseReservedCapacity hentry hsound hplaces
  | stop =>
    cases hstep
    exact { h with }

end Accounted

/-- A place is lost only where an insertion throws. -/
lemma lost_of_step {s s' : State α ε} {event : Event α ε}
    (hstep : s.step maxOutstanding event = some s') (hlost : .lost ∈ s'.table) :
    .lost ∈ s.table ∨ ∃ id, event = .accept id false := by
  have hset : ∀ {id entry}, .lost ∈ s.table.set id entry → .lost ∈ s.table ∨ .lost = entry :=
    List.mem_or_eq_of_mem_set
  cases event with
  | reserve =>
    cases hstep
    rcases s.reserve_cases maxOutstanding with heq | ⟨-, heq⟩
    all_goals simpa [heq] using hlost
  | discard id =>
    obtain ⟨-, rfl⟩ := Accounted.onReserved_iff.mp hstep
    exact .inl ((hset hlost).resolve_right nofun)
  | accept id inserted =>
    obtain ⟨-, rfl⟩ := Accounted.onReserved_iff.mp hstep
    grind [State.accept, State.setEntry]
  | stop =>
    cases hstep
    exact .inl hlost
  | complete id _ | markCompleted id | releaseConsumer id | releaseCapacity id =>
    obtain ⟨r, -, -, rfl⟩ := Accounted.onAccepted_iff.mp hstep
    exact .inl ((hset hlost).resolve_right nofun)

/-- Any interleaving keeps the account, and loses places only where insertions throw. -/
lemma Accounted.run {s s' : State α ε} {events : List (Event α ε)}
    (h : Accounted maxOutstanding s) (hrun : s.run maxOutstanding events = some s') :
    Accounted maxOutstanding s' ∧
      (.lost ∈ s'.table → .lost ∈ s.table ∨ ∃ id, .accept id false ∈ events) := by
  induction events generalizing s with
  | nil =>
    cases hrun
    exact ⟨h, .inl⟩
  | cons event events ih =>
    rw [State.run, List.foldlM_cons, Option.bind_eq_bind, Option.bind_eq_some_iff] at hrun
    obtain ⟨next, hnext, hrun⟩ := hrun
    obtain ⟨haccounted, hlost⟩ := ih (h.step hnext) hrun
    refine ⟨haccounted, fun hmem => ?_⟩
    rcases hlost hmem with hmem | ⟨id, hid⟩
    · exact (lost_of_step hnext hmem).imp_right fun ⟨id, hid⟩ => ⟨id, hid ▸ List.mem_cons_self⟩
    · exact .inr ⟨id, List.mem_cons_of_mem _ hid⟩

/-! ## Open requests -/

/-- Accepted requests that are not both done and released by their consumer. -/
def Entry.openRequests : Entry α ε → ℕ
  | .accepted r => if r.isOpen then 1 else 0
  | _ => 0

/-- Calls that hold a place for no open request: they prepare one, or have still to give its place
back. -/
def Entry.underWay : Entry α ε → ℕ
  | .reserved => 1
  | .accepted r => if r.isOpen = false ∧ r.released = 0 then 1 else 0
  | _ => 0

/-- Places that are lost. -/
def Entry.losses : Entry α ε → ℕ
  | .lost => 1
  | _ => 0

/-- No thread is between two blocks of a call for this request. -/
def Entry.Settled : Entry α ε → Prop
  | .reserved => False
  | .accepted r => r.completing = 0 ∧ r.releasing = 0
  | _ => True

instance : (entry : Entry α ε) → Decidable entry.Settled
  | .reserved => inferInstanceAs (Decidable False)
  | .accepted _ => inferInstanceAs (Decidable (_ ∧ _))
  | .rejected | .lost => inferInstanceAs (Decidable True)

lemma Request.Sound.places_eq {r : Request α ε} (h : r.Sound) :
    r.places = (Entry.accepted r).openRequests + (Entry.accepted r).underWay := by
  have hbalance := h.balance
  by_cases hmarked : r.capacityReleased = true
  · rw [if_pos hmarked] at hbalance
    simp only [Request.places, Entry.openRequests, Entry.underWay, hmarked, h.marked hmarked,
      if_true, true_and, Bool.false_eq_true, if_false]
    split <;> omega
  · rw [if_neg hmarked] at hbalance
    have hreleased : r.released = 0 := by omega
    simp only [Request.places, Entry.openRequests, Entry.underWay, hmarked, hreleased]
    cases r.isOpen with
    | true => rfl
    | false => rfl

lemma Accounted.outstanding_eq {s : State α ε} (h : Accounted maxOutstanding s) :
    s.outstanding = slotSum Entry.openRequests s.table + slotSum Entry.underWay s.table +
      slotSum Entry.losses s.table := by
  have hpointwise : ∀ entry ∈ s.table,
      entry.places = entry.openRequests + entry.underWay + entry.losses := by
    intro entry hentry
    cases entry with
    | accepted r => exact Request.Sound.places_eq (h.sound _ hentry)
    | _ => rfl
  rw [h.total, slotSum, List.map_congr_left hpointwise]
  simp only [slotSum, List.sum_map_add]

/-- A request that nobody works on has given its place back, if it is not open. -/
lemma Request.Sound.released_eq {r : Request α ε} (h : r.Sound) (hcompleting : r.completing = 0)
    (hreleasing : r.releasing = 0) (hclosed : r.isOpen = false) : r.released = 1 := by
  have hmarked : r.capacityReleased = true := by
    by_contra hmarked
    have := h.due hclosed (by simpa using hmarked)
    omega
  have hbalance := h.balance
  rw [if_pos hmarked] at hbalance
  omega

lemma Accounted.underWay_eq_zero {s : State α ε}
    (h : Accounted maxOutstanding s) (hsettled : ∀ entry ∈ s.table, entry.Settled) :
    slotSum Entry.underWay s.table = 0 := by
  refine slotSum_eq_zero _ fun entry hentry => ?_
  cases entry with
  | reserved => exact (hsettled _ hentry).elim
  | rejected | lost => rfl
  | accepted r =>
    obtain ⟨hcompleting, hreleasing⟩ := hsettled _ hentry
    rw [Entry.underWay, if_neg]
    rintro ⟨hclosed, hreleased⟩
    have := Request.Sound.released_eq (h.sound _ hentry) hcompleting hreleasing hclosed
    omega

/-- Under every interleaving the counter stays within its bound, and counts the open requests, the
calls that are under way and the places that are lost.  If no insertion throws, no place is lost,
and the counter counts the open requests whenever no call is under way.  Every accepted request gets
one outcome, and gives its place back once: not before it is done and released by its consumer, and
at the latest when the last call for it returns. -/
theorem outstanding_accounted {maxOutstanding : ℕ} {s : State α ε} {events : List (Event α ε)}
    (hrun : State.run maxOutstanding {} events = some s) :
    s.outstanding ≤ maxOutstanding ∧
      s.outstanding = slotSum Entry.openRequests s.table + slotSum Entry.underWay s.table +
        slotSum Entry.losses s.table ∧
      ((∀ id, .accept id false ∉ events) → slotSum Entry.losses s.table = 0 ∧
        ((∀ entry ∈ s.table, entry.Settled) →
          s.outstanding = slotSum Entry.openRequests s.table)) ∧
      ∀ r : Request α ε, .accepted r ∈ s.table →
        (r.released ≤ 1 ∧ (r.released = 1 → r.done = true ∧ r.consumerReleased = true) ∧
          (r.done = true → r.consumerReleased = true → (Entry.accepted r).Settled →
            r.released = 1)) ∧
        r.published ≤ 1 ∧ (r.done = true ↔ r.published = 1) ∧
        r.done = (r.result.isSome ^^ r.error.isSome) := by
  obtain ⟨haccounted, hlost⟩ := Accounted.run ⟨by simp, rfl, Nat.zero_le _⟩ hrun
  refine ⟨haccounted.le, haccounted.outstanding_eq, fun hinserted => ?_, fun r hr => ?_⟩
  · have hkept : slotSum Entry.losses s.table = 0 := by
      refine slotSum_eq_zero _ fun entry hentry => ?_
      cases entry with
      | lost => exact absurd (hlost hentry) (by simp [hinserted])
      | _ => rfl
    refine ⟨hkept, fun hsettled => ?_⟩
    rw [haccounted.outstanding_eq, haccounted.underWay_eq_zero hsettled, hkept, add_zero, add_zero]
  have hsound : r.Sound := haccounted.sound _ hr
  have hbalance := hsound.balance
  have hpublished := hsound.published
  refine ⟨⟨?_, fun hreleased => ?_, fun hdone hconsumer hsettled => ?_⟩, ?_, ?_, hsound.outcome⟩
  · split at hbalance <;> omega
  · have hmarked : r.capacityReleased = true := by
      by_contra hmarked
      rw [if_neg hmarked] at hbalance
      omega
    simpa [Request.isOpen] using hsound.marked hmarked
  · exact hsound.released_eq hsettled.1 hsettled.2 (by simp [Request.isOpen, hdone, hconsumer])
  · split at hpublished <;> omega
  · rw [hpublished]
    cases r.done with
    | true => simp
    | false => simp

/-- A request that is accepted, completed and released by its consumer. -/
def served : List (Event Unit String) :=
  [.reserve, .accept 0 true, .releaseConsumer 0, .complete 0 (.ok ()), .markCompleted 0,
    .releaseCapacity 0]

theorem outstanding_accounted_served :
    ∃ s ∈ State.run 1 {} served, s.table ≠ [] ∧ (∀ entry ∈ s.table, entry.Settled) ∧
      s.outstanding = slotSum Entry.openRequests s.table := by
  have hrun : ∃ s ∈ State.run 1 {} served, s.table.isEmpty = false ∧
      ∀ entry ∈ s.table, entry.Settled := by
    decide
  obtain ⟨s, hs, hne, hsettled⟩ := hrun
  exact ⟨s, hs, by simpa using hne, hsettled,
    ((outstanding_accounted hs).2.2.1 (by simp [served])).2 hsettled⟩

/-- Between the block that publishes and the block that gives the place back, the counter still has
a request that is done and released by its consumer. -/
theorem outstanding_lags :
    ∃ s ∈ State.run 1 {} (served.take 4), slotSum Entry.openRequests s.table = 0 ∧
      s.outstanding = 1 := by
  decide

end NInfer.Outstanding
