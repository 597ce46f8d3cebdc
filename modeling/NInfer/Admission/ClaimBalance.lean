import NInfer.Admission.ClaimLedger

/-!
# Claims are settled exactly once

`Books c s` says that the ledger `c` accepts what was logged and agrees with the pins in the tiers.
Each function of the executor is given one rule: which claims may be open when it is called, and
what it leaves open on either exit.  `Inv` is what holds between events: no claim is open, or the
copy-hold owns every open one.
-/

namespace NInfer.HostClaims

open Throwing Monitor Ledger

variable {c c' : Ledger} {s s' : State} {hold : CopyHold} {r i : ℕ} {t : Tier}
  {Q : Unit → State → Prop} {E : Error → State → Prop}

/-! ## Books -/

lemma State.setEntry_entries (s : State) (t t' : Tier) (i i' : ℕ) (entry : Entry) :
    (s.setEntry t i entry).entries t' i' =
      if t' = t ∧ i' = i then entry else s.entries t' i' := by
  unfold State.setEntry
  by_cases ht : t' = t
  · subst ht
    by_cases hi : i' = i <;> simp [hi]
  · simp [ht]

/-- The ledger agrees with the log and with the pins. -/
structure Books (c : Ledger) (s : State) : Prop where
  accepted : Ledger.run s.log = some c
  pinned : ∀ t i, (s.entries t i).pinned = true ↔ ∃ r, c.held t = some (r, i)
  present : ∀ t i, (s.entries t i).pinned = true → (s.entries t i).present = true
  fresh : ∀ i, s.nextRamId ≤ i → (s.entries .ram i).present = false

namespace Books

section

variable (h : Books c s)

include h

variable {entry : Entry} {a : Action}

lemma note (hstep : c.step a = some c') (hheld : c'.held = c.held) :
    Books c' (s.note a) where
  accepted := runFrom_append_singleton h.accepted hstep
  pinned t i := by
    rw [hheld]
    exact h.pinned t i
  present := h.present
  fresh := h.fresh

/-- Rewrite one entry, and with it whether a claim on it is open. -/
lemma rewrite (haccepted : Ledger.run s'.log = some c')
    (hentries : s'.entries = (s.setEntry t i entry).entries) (hnext : s.nextRamId ≤ s'.nextRamId)
    (hother : ∀ t' i' r, ¬(t' = t ∧ i' = i) →
      (c'.held t' = some (r, i') ↔ c.held t' = some (r, i')))
    (hpinned : entry.pinned = true ↔ ∃ r, c'.held t = some (r, i))
    (hpresent : entry.pinned = true → entry.present = true)
    (hfresh : t = .ram → entry.present = true → i < s'.nextRamId) : Books c' s' where
  accepted := haccepted
  pinned t' i' := by
    rw [hentries, State.setEntry_entries]
    split_ifs with hsame
    · obtain ⟨rfl, rfl⟩ := hsame
      exact hpinned
    · rw [h.pinned]
      exact exists_congr fun r => (hother t' i' r hsame).symm
  present t' i' := by
    rw [hentries, State.setEntry_entries]
    split_ifs
    · exact hpresent
    · exact h.present t' i'
  fresh i' hi' := by
    rw [hentries, State.setEntry_entries]
    split_ifs with hsame
    · obtain ⟨rfl, rfl⟩ := hsame
      rw [Bool.eq_false_iff]
      exact fun hp => absurd (hfresh rfl hp) (Nat.not_lt.mpr hi')
    · exact h.fresh i' (Nat.le_trans hnext hi')

lemma lt_nextRamId (hpresent : (s.entries .ram i).present = true) : i < s.nextRamId := by
  by_contra hle
  rw [h.fresh i (Nat.not_lt.mp hle)] at hpresent
  cases hpresent

/-- An action of the ledger on an entry that is there. -/
lemma setEntry (hstep : c.step a = some c')
    (hother : ∀ t' i' r, ¬(t' = t ∧ i' = i) →
      (c'.held t' = some (r, i') ↔ c.held t' = some (r, i')))
    (hpinned : entry.pinned = true ↔ ∃ r, c'.held t = some (r, i))
    (hpresent : entry.pinned = true → entry.present = true)
    (hfresh : entry.present = true → (s.entries t i).present = true) :
    Books c' ((s.setEntry t i entry).note a) := by
  refine h.rewrite (runFrom_append_singleton h.accepted hstep) rfl (Nat.le_refl _) hother hpinned
    hpresent fun ht hp => ?_
  subst ht
  exact h.lt_nextRamId (hfresh hp)

lemma pin (hnone : c.held t = none) (hpresent : (s.entries t i).present = true) :
    Books (c.claim r t i) (s.pin r t i) := by
  refine h.setEntry (if_pos hnone) (fun t' i' q hne => ?_) ?_ (fun _ => hpresent)
    fun _ => hpresent
  · rw [claim_held]
    by_cases ht : t' = t
    · subst ht
      have hi : i ≠ i' := fun he => hne ⟨rfl, he.symm⟩
      simp [hnone, hi]
    · rw [setHeld_held_of_ne _ ht]
  · simp

/-- The claim on an entry is closed by a settlement. -/
lemma unpin (hheld : c.held t = some (r, i)) (retired : Bool) (ha : c.step a = c.settle r t i) :
    Books (c.setHeld t none) ((s.unpin t i retired).note a) := by
  refine h.setEntry (ha.trans (if_pos hheld)) (fun t' i' q hne => ?_) (by simp) (by simp) ?_
  · by_cases ht : t' = t
    · subst ht
      have hi : i ≠ i' := fun he => hne ⟨rfl, he.symm⟩
      simp [hheld, hi]
    · rw [setHeld_held_of_ne _ ht]
  · intro hp
    simp only [Bool.and_eq_true] at hp
    exact hp.1

/-- An entry nobody claimed may be dropped if the ledger allows it. -/
lemma drop (hnone : c.held t = none) (hmay : c.mayDrop t i) (hpinned : entry.pinned = false)
    (hpresent : entry.present = true → (s.entries t i).present = true) :
    Books c ((s.setEntry t i entry).note (.drops t i)) :=
  h.setEntry (if_pos hmay) (fun _ _ _ _ => Iff.rfl) (by simp [hpinned, hnone]) (by simp [hpinned])
    hpresent

/-- Change an entry without touching claims. -/
lemma setUnclaimed (hpinned : entry.pinned = (s.entries t i).pinned)
    (hpresent : entry.pinned = true → entry.present = true)
    (hfresh : t = .ram → entry.present = true → i < s.nextRamId) :
    Books c (s.setEntry t i entry) :=
  h.rewrite h.accepted rfl (Nat.le_refl _) (fun _ _ _ _ => Iff.rfl) (hpinned ▸ h.pinned t i)
    hpresent hfresh

lemma commit (id : ℕ) : Books c (s.setEntry .disk id { s.entries .disk id with present := true }) :=
  h.setUnclaimed rfl (fun _ => rfl) (by simp)

lemma evict {id : ℕ} (hpinned : (s.entries t id).pinned = false) :
    Books c (s.setEntry t id { s.entries t id with present := false, unavailable := false }) :=
  h.setUnclaimed rfl (by simp [hpinned]) (by simp)

/-- A new RAM entry is nobody's yet. -/
lemma insertRam : Books c s.insertRam := by
  refine h.rewrite h.accepted rfl (Nat.le_succ _) (fun _ _ _ _ => Iff.rfl) ?_ (fun _ => rfl)
    fun _ _ => Nat.lt_succ_self _
  rw [← h.pinned]
  exact iff_of_false (by simp) fun hp => Nat.lt_irrefl _ (h.lt_nextRamId (h.present _ _ hp))

lemma pinned_of_held (hheld : c.held t = some (r, i)) : (s.entries t i).pinned = true :=
  (h.pinned t i).mpr ⟨r, hheld⟩

lemma not_pinned_of_none (hnone : c.held t = none) (i : ℕ) : (s.entries t i).pinned = false := by
  rw [Bool.eq_false_iff, Ne, h.pinned, hnone]
  simp

end

/-! ## The tiers -/

/-- What a step on the tiers leaves alone. -/
def Same (s s' : State) : Prop := s'.copyHold = s.copyHold ∧ s'.locals = s.locals

end Books

@[simp] lemma wp_note (a : Action) : wp (note a) Q E s ↔ Q () (s.note a) := Iff.rfl

lemma wp_outcome (o : Option Error) (hQ : o = none → Q () s)
    (hE : ∀ error, o = some error → E error s) : wp (outcome o) Q E s := by
  rcases o with _ | error
  · exact hQ rfl
  · exact hE error rfl

@[simp] lemma wp_runSecondaryCleanup (m : Exec Unit) :
    wp (runSecondaryCleanup m) Q E s ↔ wp m Q (fun _ => Q ()) s := by
  rw [runSecondaryCleanup, wp_tryCatch]
  rfl

namespace Books

/-- Releasing a claim, if it is still open. -/
lemma wp_release (h : Books c s) (hheld : c.held t = none ∨ c.held t = some (r, i))
    (hQ : ∀ s', Books (c.setHeld t none) s' → Same s s' → Q () s') :
    wp (runSecondaryCleanup (releaseEntry r t i)) Q E s := by
  rw [wp_runSecondaryCleanup]
  simp only [releaseEntry, wp_bind, wp_get, wp_throwIf]
  rcases hheld with hnone | hheld
  · have hthrown : Q () s := hQ s (by rwa [setHeld_none_of_none hnone]) ⟨rfl, rfl⟩
    have hpinned := h.not_pinned_of_none hnone i
    exact ⟨fun _ => hthrown, fun _ => ⟨fun _ => hthrown, fun hn => absurd hpinned hn⟩⟩
  · have hpinned := h.pinned_of_held hheld
    refine ⟨fun hp => ?_, fun _ => ⟨fun hp => ?_, fun _ => ?_⟩⟩
    · exact absurd (h.present t i hpinned) (by simp [hp])
    · exact absurd hpinned (by simp [hp])
    · exact hQ _ (h.unpin hheld false rfl) ⟨rfl, rfl⟩

/-- Dropping an entry nobody claims. -/
lemma wp_drop (h : Books c s) (hnone : c.held t = none) (hmay : c.mayDrop t i)
    (hQ : ∀ s', Books c s' → Same s s' → Q () s') :
    wp (runSecondaryCleanup (dropEntry t i)) Q E s := by
  have hpinned := h.not_pinned_of_none hnone i
  rw [wp_runSecondaryCleanup]
  cases t with
  | ram =>
    simp only [dropEntry, discardRamCapture, wp_bind, wp_get, wp_ite, wp_throwIf]
    refine ⟨fun _ => hQ s h ⟨rfl, rfl⟩, fun _ => ⟨fun hp => ?_, fun _ => ?_⟩⟩
    · exact absurd hp (by simp [hpinned])
    · exact hQ _ (h.drop hnone hmay rfl (by simp)) ⟨rfl, rfl⟩
  | disk =>
    simp only [dropEntry, invalidateDiskEntry, wp_bind, wp_get, wp_ite]
    exact ⟨fun _ => hQ s h ⟨rfl, rfl⟩, fun _ =>
      hQ _ (h.drop hnone hmay hpinned fun hp => hp) ⟨rfl, rfl⟩⟩

/-- A RAM claim is taken, or nothing happens. -/
lemma wp_claimRamEntry (h : Books c s) (hnone : c.held .ram = none) (hE : E .engine s)
    (hQ : ∀ s', Books (c.claim r .ram i) s' → Same s s' → Q () s') :
    wp (claimRamEntry r i) Q E s := by
  simp only [claimRamEntry, wp_bind, wp_get, wp_throwIf]
  refine ⟨fun _ => hE, fun hp => ⟨fun _ => hE, fun _ => ?_⟩⟩
  exact hQ _ (h.pin hnone (by simpa using hp)) ⟨rfl, rfl⟩

/-- A disk claim is taken, or nothing happens, if the discard of an idle rewrite does not fail. -/
lemma wp_claimDiskEntry (h : Books c s) (hnone : c.held .disk = none) {lookup : DiskLookup}
    (hdiscard : lookup.discardSpill = none) {Q : Bool → State → Prop}
    (hE : E .engine s) (hmiss : Q false s)
    (hQ : ∀ s', Books (c.claim r .disk i) s' → Same s s' → Q true s') :
    wp (claimDiskEntry r i lookup) Q E s := by
  simp only [claimDiskEntry, wp_bind, wp_get, wp_ite, wp_throwIf, hdiscard]
  refine ⟨fun _ => hmiss, fun hp => ⟨fun _ => hE, fun _ => ⟨fun _ => ?_, fun _ => hmiss⟩⟩⟩
  have hpresent : (s.entries .disk i).present = true := by
    rw [not_or] at hp
    simpa using hp.1
  exact hQ _ (h.pin hnone hpresent) ⟨rfl, rfl⟩

/-- Consuming an open claim closes it, whether or not the call returns. -/
lemma wp_consumeEntry (h : Books c s) (hheld : c.held t = none ∨ c.held t = some (r, i))
    (retires : Bool) (late : Option Error)
    (hE : ∀ error s', Books (c.setHeld t none) s' → Same s s' → E error s')
    (hQ : ∀ s', Books (c.setHeld t none) s' → Same s s' → Q () s') :
    wp (consumeEntry r t i retires late) Q E s := by
  simp only [consumeEntry, wp_bind, wp_get, wp_throwIf]
  rcases hheld with hnone | hheld
  · have hsame : Books (c.setHeld t none) s := by rwa [setHeld_none_of_none hnone]
    have hpinned := h.not_pinned_of_none hnone i
    exact ⟨fun _ => hE _ s hsame ⟨rfl, rfl⟩, fun _ =>
      ⟨fun _ => hE _ s hsame ⟨rfl, rfl⟩, fun hn => absurd hpinned hn⟩⟩
  · have hpinned := h.pinned_of_held hheld
    refine ⟨fun hp => ?_, fun _ => ⟨fun hp => ?_, fun _ => ?_⟩⟩
    · exact absurd (h.present t i hpinned) (by simp [hp])
    · exact absurd hpinned (by simp [hp])
    · have hclosed := h.unpin hheld retires (a := .consumes r t i) rfl
      exact wp_outcome late (fun _ => hQ _ hclosed ⟨rfl, rfl⟩)
        fun error _ => hE error _ hclosed ⟨rfl, rfl⟩

end Books

/-! ## Who owns the open claims -/

/-- Every open claim is the request's, and its flags say so. -/
def Owned (c : Ledger) (r : ℕ) (sources : Tier → HostSource) : Prop :=
  ∀ t, c.held t = none ∨ (sources t).hit = true ∧ (sources t).claimed = true ∧
    (sources t).consumed = false ∧ c.held t = some (r, (sources t).entryId)

/-- Nothing is open, and there is no hold. -/
structure Idle (c : Ledger) (s : State) : Prop where
  books : Books c s
  copyHold : s.copyHold = none
  closed : ∀ t, c.held t = none

/-- The hold owns what is open, and its flags are those of the ledger. -/
structure Held (c : Ledger) (hold : CopyHold) (s : State) : Prop where
  books : Books c s
  copyHold : s.copyHold = some hold
  owned : Owned c hold.request hold.sources
  source : ∀ t, (hold.sources t).hit = true →
    c.source t = some (hold.request, (hold.sources t).entryId)
  invalid : hold.restoreFailed = true → hold.discardFailedSource = true →
    c.failed = some (hold.request, .invalidSource)

/-- What holds between events. -/
def Inv (s : State) : Prop := (∃ c, Idle c s) ∨ ∃ c hold, Held c hold s

lemma Idle.inv (h : Idle c s) : Inv s := .inl ⟨c, h⟩

lemma Held.inv (h : Held c hold s) : Inv s := .inr ⟨c, hold, h⟩

variable {sources : Tier → HostSource}

lemma Owned.held (h : Owned c r sources) (t : Tier) :
    c.held t = none ∨ c.held t = some (r, (sources t).entryId) :=
  (h t).imp_right fun ht => ht.2.2.2

/-- A tier whose flags claim nothing has nothing open. -/
lemma Owned.none_of_flags (h : Owned c r sources)
    (hflags : ¬((sources t).claimed = true ∧ (sources t).consumed = false)) : c.held t = none := by
  rcases h t with hnone | ⟨-, hclaimed, hconsumed, -⟩
  · exact hnone
  · exact absurd ⟨hclaimed, hconsumed⟩ hflags

lemma owned_of_closed (h : ∀ t, c.held t = none) : Owned c r sources := fun t => .inl (h t)

/-- Closing one tier's claim, whatever becomes of its flags. -/
lemma Owned.close (h : Owned c r sources) (t : Tier) (f : HostSource) :
    Owned (c.setHeld t none) r (Function.update sources t f) := by
  intro t'
  by_cases ht : t' = t
  · subst ht
    exact .inl (setHeld_held_self none)
  · rw [setHeld_held_of_ne _ ht, Function.update_of_ne ht]
    exact h t'

/-- What is closed stays closed. -/
lemma setHeld_none_closed (t : Tier) {t' : Tier} (h : c.held t' = none) :
    (c.setHeld t none).held t' = none := by
  by_cases ht : t' = t
  · subst ht
    exact setHeld_held_self none
  · rwa [setHeld_held_of_ne _ ht]

lemma Idle.clear (h : Idle c s) : c.Clear r := clear_of_forall h.closed

lemma Idle.note_leaves (h : Idle c s) (r : ℕ) : Idle c (s.note (.leaves r)) where
  books := h.books.note (if_pos h.clear) rfl
  copyHold := h.copyHold
  closed := h.closed

/-- A request without a hold has nothing open. -/
lemma Inv.note_leaves (h : Inv s) (hr : s.holds r = false) : Inv (s.note (.leaves r)) := by
  rcases h with ⟨c, h⟩ | ⟨c, hold, h⟩
  · exact (h.note_leaves r).inv
  · have hne : hold.request ≠ r := by simpa [State.holds, h.copyHold] using hr
    have hclear : c.Clear r := by
      rw [clear_iff]
      intro t i hheld
      rcases h.owned.held t with hnone | hown
      · simp [hnone] at hheld
      · rw [hown, Option.some.injEq, Prod.mk.injEq] at hheld
        exact hne hheld.1
    exact Held.inv { h with books := h.books.note (if_pos hclear) rfl }

/-! ## Ending a hold -/

lemma Books.same (h : Books c s) (hentries : s'.entries = s.entries)
    (hnext : s'.nextRamId = s.nextRamId) (hlog : s'.log = s.log) : Books c s' where
  accepted := hlog ▸ h.accepted
  pinned := hentries ▸ h.pinned
  present := hentries ▸ h.present
  fresh := by
    rw [hentries, hnext]
    exact h.fresh

namespace Held

section

variable (h : Held c hold s)

include h

/-- A tier's claim is closed, and its flags change but still name the same entry. -/
lemma closeWith {f : HostSource → HostSource}
    (hf : ∀ x, (f x).hit = x.hit ∧ (f x).entryId = x.entryId)
    (hbooks : Books (c.setHeld t none) s') (hcopy : s'.copyHold = some (hold.modifySource t f)) :
    Held (c.setHeld t none) (hold.modifySource t f) s' where
  books := hbooks
  copyHold := hcopy
  owned := h.owned.close t _
  source t' hhit := by
    by_cases ht : t' = t
    · subst ht
      simp only [CopyHold.modifySource, Function.update_self, hf] at hhit ⊢
      exact h.source t' hhit
    · simp only [CopyHold.modifySource, Function.update_of_ne ht] at hhit ⊢
      exact h.source t' hhit
  invalid := h.invalid

lemma modifyHold_copyHold (hsame : Books.Same s s') (f : CopyHold → CopyHold) :
    (s'.modifyHold f).copyHold = some (f hold) := by
  show s'.copyHold.map f = _
  rw [hsame.1, h.copyHold]
  rfl

/-- The hold gives its claim on a tier up. -/
lemma unclaim (hbooks : Books (c.setHeld t none) s') (hsame : Books.Same s s') :
    Held (c.setHeld t none) (hold.modifySource t fun f => { f with claimed := false })
      (s'.modifyHold fun h => h.modifySource t fun f => { f with claimed := false }) :=
  h.closeWith (fun _ => ⟨rfl, rfl⟩) (hbooks.same rfl rfl rfl) (h.modifyHold_copyHold hsame _)

/-- The hold's claim on a tier is consumed. -/
lemma consume (hbooks : Books (c.setHeld t none) s') (hsame : Books.Same s s') :
    Held (c.setHeld t none) (hold.modifySource t fun f => { f with consumed := true })
      ((s'.modifyHold fun h => h.modifySource t fun f => { f with consumed := true }).modifyLocal t
        fun f => { f with consumed := true }) :=
  h.closeWith (fun _ => ⟨rfl, rfl⟩) (hbooks.same rfl rfl rfl) (h.modifyHold_copyHold hsame _)

/-- A failed restore that was classified invalid may drop its source. -/
lemma mayDrop (hfailed : hold.restoreFailed = true)
    (hdiscard : hold.discardFailedSource = true) (hhit : (hold.sources t).hit = true) :
    c.mayDrop t (hold.sources t).entryId :=
  .inr (invalidSource_eq_some.mpr
    ⟨hold.request, h.source t hhit, h.invalid hfailed hdiscard⟩)

/-- The second half of a tier's release: the source of an invalid restore is dropped. -/
lemma wp_dropSource (hnone : c.held t = none) {P : Prop} [Decidable P]
    (hP : P → hold.restoreFailed = true ∧ hold.discardFailedSource = true ∧
      (hold.sources t).hit = true) (hQ : ∀ s', Held c hold s' → Q () s') :
    wp (if P then runSecondaryCleanup (dropEntry t (hold.sources t).entryId) else pure ())
      Q E s := by
  rw [wp_ite]
  refine ⟨fun hp => ?_, fun _ => hQ s h⟩
  obtain ⟨hfailed, hdiscard, hhit⟩ := hP hp
  refine h.books.wp_drop hnone (h.mayDrop hfailed hdiscard hhit) fun s' hbooks hsame => ?_
  exact hQ s' ⟨hbooks, hsame.1.trans h.copyHold, h.owned, h.source, h.invalid⟩

/-- A tier's part of `release_copy_hold_host` closes its claim. -/
lemma wp_releaseHoldSource (t : Tier) (hQ : ∀ c' hold' s', Held c' hold' s' → c'.held t = none →
      (∀ t', c.held t' = none → c'.held t' = none) → hold'.request = hold.request → Q () s') :
    wp (releaseHoldSource t) Q E s := by
  simp only [releaseHoldSource, wp_bind, wp_get, h.copyHold]
  rw [wp_ite]
  constructor
  · intro _
    rw [wp_bind]
    refine h.books.wp_release (h.owned.held t) fun s' hbooks hsame => ?_
    have hreleased := h.unclaim hbooks hsame
    have hsources : (hold.modifySource t fun f => { f with claimed := false }).sources t =
        { hold.sources t with claimed := false } := Function.update_self ..
    have hdrop := hreleased.wp_dropSource (t := t) (E := E) (Q := Q)
      (P := hold.restoreFailed = true ∧ hold.discardFailedSource = true ∧
        (hold.sources t).hit = true ∧ (hold.sources t).consumed = false)
      (setHeld_held_self none) (fun hp => ⟨hp.1, hp.2.1, by rw [hsources]; exact hp.2.2.1⟩)
      (fun s'' hheld => hQ _ _ s'' hheld (setHeld_held_self none)
        (fun _ => setHeld_none_closed t) rfl)
    rw [hsources] at hdrop
    exact hdrop
  · intro hflags
    have hnone := h.owned.none_of_flags hflags
    exact h.wp_dropSource hnone (fun hp => ⟨hp.1, hp.2.1, hp.2.2.1⟩)
      fun s' hheld => hQ c hold s' hheld hnone (fun _ hn => hn) rfl

/-- `release_copy_hold_host` closes every claim of the hold. -/
lemma wp_releaseCopyHoldHost (hQ : ∀ c' hold' s', Held c' hold' s' → (∀ t, c'.held t = none) →
      hold'.request = hold.request → Q () s') : wp releaseCopyHoldHost Q E s := by
  rw [releaseCopyHoldHost, wp_bind]
  refine h.wp_releaseHoldSource .ram fun c₁ hold₁ s₁ h₁ hram _ hrequest₁ => ?_
  refine h₁.wp_releaseHoldSource .disk fun c₂ hold₂ s₂ h₂ hdisk hkept hrequest₂ => ?_
  refine hQ c₂ hold₂ s₂ h₂ (fun t => ?_) (hrequest₂.trans hrequest₁)
  cases t with
  | ram => exact hkept .ram hram
  | disk => exact hdisk

lemma dropHold (hclosed : ∀ t, c.held t = none) : Idle c s.dropHold :=
  ⟨h.books.same rfl rfl rfl, rfl, hclosed⟩

end

end Held

/-- `drain_copy_hold_before_abort` leaves nothing open. -/
lemma Inv.wp_drain (h : Inv s) (hQ : ∀ c s', Idle c s' → Q () s') :
    wp drainCopyHoldBeforeAbort Q E s := by
  rw [drainCopyHoldBeforeAbort, wp_bind]
  rcases h with ⟨c, h⟩ | ⟨c, hold, h⟩
  · simp only [releaseCopyHoldHost, releaseHoldSource, wp_bind, wp_get, h.copyHold, wp_pure]
    exact hQ c _ ⟨h.books.same rfl rfl rfl, rfl, h.closed⟩
  · exact h.wp_releaseCopyHoldHost fun c' _ s' h' hclosed _ => hQ c' _ (h'.dropHold hclosed)

/-- A request's own hold is drained; another's stays. -/
lemma Inv.wp_drainHoldOf (h : Inv s) (r : ℕ) (hQ : ∀ s', Inv s' → s'.holds r = false → Q () s') :
    wp (drainHoldOf r) Q E s := by
  rw [drainHoldOf, wp_bind, wp_get, wp_ite]
  refine ⟨fun _ => h.wp_drain fun c s' hidle => hQ s' hidle.inv ?_, fun hr => ?_⟩
  · simp [State.holds, hidle.copyHold]
  · exact hQ s h (by simpa using hr)

/-- `fail_admitted_request` leaves nothing of the request open. -/
lemma Inv.wp_failAdmittedRequest (h : Inv s) (r : ℕ) (error : Error) :
    wp (failAdmittedRequest r error) (fun _ => Inv) (fun _ => Inv) s := by
  rw [failAdmittedRequest, wp_bind]
  refine h.wp_drainHoldOf r fun s' hinv hr => ?_
  rw [wp_bind, wp_note, wp_throwIf]
  exact ⟨fun _ => hinv.note_leaves hr, fun _ => hinv.note_leaves hr⟩

/-- `cancel_lane` leaves nothing of the request open. -/
lemma Inv.wp_cancelLane (h : Inv s) (r : ℕ) (abort : Option Error) :
    wp (cancelLane r abort) (fun _ => Inv) (fun _ => Inv) s := by
  rw [cancelLane, wp_bind]
  refine h.wp_drainHoldOf r fun s' hinv hr => ?_
  rw [wp_bind]
  exact wp_outcome abort (fun _ => hinv.note_leaves hr) fun _ _ => hinv

/-! ## Restoring for a retry -/

lemma Inv.wp_resolve (h : Inv s) (hr : s.holds r = false) (resolution : Resolution) :
    wp (resolve r resolution) (fun _ => Inv) (fun _ => Inv) s := by
  cases resolution with
  | continues => exact h
  | finishes => exact h.note_leaves hr
  | throws error => exact h

lemma Idle.holds (h : Idle c s) : s.holds r = false := by simp [State.holds, h.copyHold]

/-- A retry's hold owns the claim that was just taken for it. -/
lemma Idle.emplaceRecovery (h : Idle c s) (plan : HostPlan)
    (hbooks : Books (c.claim r plan.tier plan.entryId) s') (staleRetries : ℕ) :
    Held (c.claim r plan.tier plan.entryId) (recoveryHold r plan staleRetries)
      { s' with copyHold := some (recoveryHold r plan staleRetries) } where
  books := hbooks.same rfl rfl rfl
  copyHold := rfl
  owned t := by
    by_cases ht : t = plan.tier
    · subst ht
      simp [recoveryHold, HostPlan.sources]
    · rw [claim_held, setHeld_held_of_ne _ ht]
      exact .inl (h.closed t)
  source t hhit := by
    by_cases ht : t = plan.tier
    · subst ht
      simp [recoveryHold, HostPlan.sources]
    · simp [recoveryHold, HostPlan.sources, ht] at hhit
  invalid hfailed := by simp [recoveryHold] at hfailed

/-- `hold_recovery_restore` takes a claim into a hold, or leaves nothing open. -/
lemma Idle.wp_holdRecoveryRestore (h : Idle c s) {plan : HostPlan}
    (hdiscard : plan.lookup.discardSpill = none) (staleRetries : ℕ) {Q : Bool → State → Prop}
    (hE : ∀ error s', Inv s' → E error s') (hmiss : ∀ s', Inv s' → s'.holds r = false → Q false s')
    (hheld : ∀ s', Inv s' → Q true s') :
    wp (holdRecoveryRestore r plan staleRetries) Q E s := by
  obtain ⟨tier, entryId, lookup, prefetch⟩ := plan
  cases tier with
  | ram =>
    simp only [holdRecoveryRestore, wp_bind]
    refine h.books.wp_claimRamEntry (h.closed .ram) (hE _ s h.inv) fun s' hbooks _ => ?_
    exact hheld _ (h.emplaceRecovery ⟨.ram, entryId, lookup, prefetch⟩ hbooks _).inv
  | disk =>
    simp only [holdRecoveryRestore, wp_bind]
    refine h.books.wp_claimDiskEntry (h.closed .disk) hdiscard (hE _ s h.inv)
      (hmiss s h.inv h.holds) fun s' hbooks hsame => ?_
    simp only [if_true, wp_bind, wp_tryCatch]
    refine wp_outcome prefetch (fun _ => ?_) fun error _ => ?_
    · exact hheld _ (h.emplaceRecovery ⟨.disk, entryId, lookup, prefetch⟩ hbooks _).inv
    · -- a failed prefetch gives the claim back before it is rethrown
      rw [wp_bind]
      refine hbooks.wp_release (.inr (by simp)) fun s'' hbooks' hsame' => ?_
      refine hE error s'' (Idle.inv ⟨hbooks', ?_, fun t => ?_⟩)
      · rw [hsame'.1, hsame.1, h.copyHold]
      · by_cases ht : t = .disk
        · subst ht
          simp
        · rw [setHeld_held_of_ne _ ht, claim_held, setHeld_held_of_ne _ ht]
          exact h.closed t

/-- The disk claim of a fallback does not fail while it discards an idle rewrite. -/
def Fallback.DiscardsSpills (fallback : Fallback) : Prop :=
  ∀ plan ∈ fallback.replanned, plan.lookup.discardSpill = none

variable {fallback : Fallback} {completion : Completion}

lemma Idle.wp_retryRestore (h : Idle c s) (replan : Bool) (hdiscard : fallback.DiscardsSpills) :
    wp (retryRestore r replan fallback) (fun _ => Inv) (fun _ => Inv) s := by
  rw [retryRestore, wp_ite]
  refine ⟨fun _ => ?_, fun _ => h.inv.wp_resolve h.holds _⟩
  rw [wp_bind]
  refine wp_outcome _ (fun _ => ?_) fun _ _ => h.inv
  split
  next => exact h.inv.wp_resolve h.holds _
  next plan hplan =>
    rw [wp_bind]
    refine h.wp_holdRecoveryRestore (hdiscard plan hplan) 1 (fun _ _ hinv => hinv)
      (fun s' hinv hholds => ?_) fun _ hinv => hinv
    exact hinv.wp_resolve hholds _

/-- A request goes back to the queue with nothing open. -/
lemma Held.wp_requeueRequest (h : Held c hold s) (hclosed : ∀ t, c.held t = none)
    (requeue : Option Error) :
    wp (requeueRequest hold.request requeue) (fun _ => Inv) (fun _ => Inv) s := by
  rw [requeueRequest, wp_bind, wp_tryCatch, wp_bind]
  refine wp_outcome _ (fun _ => ?_) fun error _ => ?_
  · exact ((h.dropHold hclosed).note_leaves _).inv
  · rw [wp_bind]
    exact wp_mono (h.inv.wp_failAdmittedRequest _ _) (fun _ _ hinv => hinv) fun _ _ hinv => hinv

/-- `finish_failed_restore`. -/
lemma Inv.wp_finishFailedRestore (h : Inv s) (hdiscard : fallback.DiscardsSpills) :
    wp (finishFailedRestore fallback) (fun _ => Inv) (fun _ => Inv) s := by
  rw [finishFailedRestore, wp_bind, wp_get]
  split
  next => exact h
  next hold hhold =>
    obtain ⟨c, h⟩ | ⟨c, hold', h⟩ := h
    · simp [h.copyHold] at hhold
    · obtain rfl : hold' = hold := by simpa [h.copyHold] using hhold
      rw [wp_bind]
      refine h.wp_releaseCopyHoldHost fun c₁ hold₁ s₁ h₁ hclosed hrequest => ?_
      rw [wp_ite]
      refine ⟨fun _ => ?_, fun _ => ?_⟩
      · rw [wp_bind, wp_modify, wp_tryCatch]
        exact wp_mono ((h₁.dropHold hclosed).wp_retryRestore _ hdiscard) (fun _ _ hinv => hinv)
          fun error s' hinv => hinv.wp_failAdmittedRequest _ error
      · rw [← hrequest]
        exact h₁.wp_requeueRequest hclosed _

/-! ## Completing an admission -/

/-- `admit_complete` has a hold for its request, or nothing is open any more. -/
def Completing (r : ℕ) (s : State) : Prop :=
  (∃ c hold, Held c hold s ∧ hold.request = r) ∨ ∃ c, Idle c s

lemma Completing.inv (h : Completing r s) : Inv s := by
  obtain ⟨c, hold, h, -⟩ | ⟨c, h⟩ := h
  · exact h.inv
  · exact h.inv

/-- A claim that `consume` closed before it threw. -/
lemma Held.closed (h : Held c hold s) (hbooks : Books (c.setHeld t none) s')
    (hsame : Books.Same s s') : Held (c.setHeld t none) hold s' where
  books := hbooks
  copyHold := hsame.1.trans h.copyHold
  owned := by
    have := h.owned.close t (hold.sources t)
    rwa [Function.update_eq_self] at this
  source := h.source
  invalid := h.invalid

/-- The settling part of `admit_complete` closes a tier's claim. -/
lemma Held.wp_consumeHoldSource (h : Held c hold s) (t : Tier) (cacheWrite : Bool)
    (late : Option Error) (hE : ∀ error s', Completing hold.request s' → E error s')
    (hQ : ∀ c' hold' s', Held c' hold' s' → c'.held t = none →
      (∀ t', c.held t' = none → c'.held t' = none) → hold'.request = hold.request → Q () s') :
    wp (consumeHoldSource t cacheWrite late) Q E s := by
  simp only [consumeHoldSource, wp_bind, wp_get, h.copyHold]
  rw [wp_ite]
  constructor
  · intro _
    have hthrown : ∀ error s', Books (c.setHeld t none) s' → Books.Same s s' → E error s' :=
      fun error s' hbooks hsame =>
        hE error s' (.inl ⟨_, hold, h.closed hbooks hsame, rfl⟩)
    have hdone : ∀ s', Books (c.setHeld t none) s' → Books.Same s s' →
        wp (markConsumed t) Q E s' := fun s' hbooks hsame =>
      hQ _ _ _ (h.consume hbooks hsame) (setHeld_held_self none)
        (fun _ => setHeld_none_closed t) rfl
    cases t with
    | ram =>
      rw [wp_bind]
      exact h.books.wp_consumeEntry (h.owned.held .ram) cacheWrite late hthrown hdone
    | disk =>
      rw [wp_bind]
      exact h.books.wp_consumeEntry (h.owned.held .disk) false none hthrown hdone
  · intro hhit
    have hnone : c.held t = none := (h.owned t).resolve_right fun hown => hhit hown.1
    exact hQ c hold s h hnone (fun _ hn => hn) rfl

/-- The body of `admit_complete`. -/
lemma Held.wp_completeCopies (h : Held c hold s) (completion : Completion) :
    wp (completeCopies hold.request completion) (fun _ => Inv)
      (fun _ => Completing hold.request) s := by
  unfold completeCopies
  split
  next => exact h.inv
  next => exact .inl ⟨c, hold, h, rfl⟩
  next =>
    rw [wp_bind]
    refine h.wp_consumeHoldSource .ram _ _ (fun _ _ hs => hs)
      fun c₁ hold₁ s₁ h₁ hram _ hrequest₁ => ?_
    rw [wp_bind]
    refine h₁.wp_consumeHoldSource .disk _ _ (fun _ _ hs => hrequest₁ ▸ hs)
      fun c₂ hold₂ s₂ h₂ hdisk hkept hrequest₂ => ?_
    have hclosed : ∀ t, c₂.held t = none := by
      rintro (_ | _)
      · exact hkept .ram hram
      · exact hdisk
    rw [wp_bind, wp_throwIf]
    refine ⟨fun _ => .inl ⟨c₂, hold₂, h₂, hrequest₂.trans hrequest₁⟩, fun _ => ?_⟩
    have hidle := h₂.dropHold hclosed
    generalize completion.resolution = resolution
    cases resolution with
    | continues => exact hidle.inv
    | finishes => exact (hidle.note_leaves _).inv
    | throws error => exact .inr ⟨c₂, hidle⟩

/-- `release_host_if_needed` closes a tier's claim. -/
lemma Books.wp_releaseLocal (h : Books c s) (howned : Owned c r s.locals.sources) (t : Tier)
    (hQ : ∀ c' s', Books c' s' → Owned c' r s'.locals.sources → c'.held t = none →
      (∀ t', c.held t' = none → c'.held t' = none) → c'.captured = c.captured →
      s'.copyHold = s.copyHold → s'.locals.captured = s.locals.captured → Q () s') :
    wp (releaseLocal r t) Q E s := by
  rw [releaseLocal, wp_bind, wp_get, wp_ite]
  constructor
  · intro _
    rw [wp_bind]
    refine h.wp_release (howned.held t) fun s' hbooks hsame => ?_
    refine hQ (c.setHeld t none) _ (hbooks.same rfl rfl rfl) ?_ (setHeld_held_self none)
      (fun _ => setHeld_none_closed t) rfl hsame.1 ?_
    · show Owned _ r (Function.update s'.locals.sources t _)
      rw [hsame.2]
      exact howned.close t _
    · show s'.locals.captured = _
      rw [hsame.2]
  · intro hflags
    exact hQ c s h howned (howned.none_of_flags hflags) (fun _ hn => hn) rfl rfl rfl

lemma Books.wp_releaseLocals (h : Books c s) (howned : Owned c r s.locals.sources)
    (hQ : ∀ c' s', Books c' s' → (∀ t, c'.held t = none) → c'.captured = c.captured →
      s'.copyHold = s.copyHold → s'.locals.captured = s.locals.captured → Q () s') :
    wp (releaseLocals r) Q E s := by
  rw [releaseLocals, wp_bind]
  refine h.wp_releaseLocal howned .ram fun c₁ s₁ h₁ howned₁ hram _ hcap₁ hcopy₁ hlocal₁ => ?_
  refine h₁.wp_releaseLocal howned₁ .disk fun c₂ s₂ h₂ _ hdisk hkept hcap₂ hcopy₂ hlocal₂ => ?_
  refine hQ c₂ s₂ h₂ ?_ (hcap₂.trans hcap₁) (hcopy₂.trans hcopy₁) (hlocal₂.trans hlocal₁)
  rintro (_ | _)
  · exact hkept .ram hram
  · exact hdisk

lemma Completing.wp_abortCompletion (h : Completing r s) (error : Error) :
    wp (abortCompletion r error) (fun _ => Inv) (fun _ => Inv) s := by
  rw [abortCompletion, wp_bind, wp_get]
  obtain ⟨c, hold, h, -⟩ | ⟨c, h⟩ := h
  · simp only [h.copyHold]
    exact h.inv.wp_failAdmittedRequest r error
  · simp only [h.copyHold, Option.isNone_none, if_true]
    rw [wp_bind]
    refine h.books.wp_releaseLocals (owned_of_closed h.closed)
      fun c' s' hbooks hclosed _ hcopy _ => ?_
    exact (Idle.inv ⟨hbooks, hcopy.trans h.copyHold, hclosed⟩).wp_failAdmittedRequest r error

lemma Held.markRestoreFailure (h : Held c hold s) (kind : CacheRestoreFailureKind) :
    Held { c with failed := some (hold.request, kind) } (hold.markRestoreFailure kind)
      ((s.modifyHold fun h => h.markRestoreFailure kind).note (.fails hold.request kind)) where
  books := by
    have hmarked : Books c (s.modifyHold fun h => h.markRestoreFailure kind) :=
      h.books.same rfl rfl rfl
    exact hmarked.note rfl rfl
  copyHold := by
    show s.copyHold.map _ = _
    rw [h.copyHold]
    rfl
  owned := h.owned
  source := h.source
  invalid _ hdiscard := by
    have hkind : kind = .invalidSource := by simpa [CopyHold.markRestoreFailure] using hdiscard
    rw [hkind]
    rfl

/-- Classifying a failure, if there still is a hold. -/
lemma Completing.wp_markRestoreFailure (h : Completing r s) (kind : CacheRestoreFailureKind)
    (hQ : ∀ s', Completing r s' → Q () s') : wp (markRestoreFailure kind) Q E s := by
  rw [HostClaims.markRestoreFailure, wp_modify]
  obtain ⟨c, hold, h, hrequest⟩ | ⟨c, h⟩ := h
  · rw [h.copyHold]
    exact hQ _ (.inl ⟨_, _, h.markRestoreFailure kind, hrequest⟩)
  · rw [h.copyHold]
    exact hQ s (.inr ⟨c, h⟩)

/-- The handler of `admit_complete`. -/
lemma Completing.wp_completionFailed (h : Completing r s)
    (hdiscard : completion.fallback.DiscardsSpills) (error : Error) :
    wp (completionFailed r completion error) (fun _ => Inv) (fun _ => Inv) s := by
  unfold completionFailed
  split
  next kind =>
    rw [wp_bind, wp_get, wp_bind]
    refine h.wp_markRestoreFailure kind fun s' h' => ?_
    rw [wp_ite]
    refine ⟨fun _ => ?_, fun _ => h'.wp_abortCompletion _⟩
    rw [wp_ite]
    exact ⟨fun _ => h'.inv.wp_finishFailedRestore hdiscard,
      fun _ => wp_outcome _ (fun _ => h'.inv) fun _ _ => h'.inv⟩
  next => exact h.wp_abortCompletion _

/-- `admit_complete`. -/
lemma Inv.wp_admitComplete (h : Inv s) (hdiscard : completion.fallback.DiscardsSpills) :
    wp (admitComplete completion) (fun _ => Inv) (fun _ => Inv) s := by
  rw [admitComplete, wp_bind, wp_get]
  split
  next => exact h
  next hold hhold =>
    obtain ⟨c, h⟩ | ⟨c, hold', h⟩ := h
    · simp [h.copyHold] at hhold
    · obtain rfl : hold' = hold := by simpa [h.copyHold] using hhold
      rw [wp_bind, wp_modify, wp_tryCatch]
      have hlocals : Held c hold' { s with locals := { sources := hold'.sources } } :=
        { h with books := h.books.same rfl rfl rfl }
      exact wp_mono (hlocals.wp_completeCopies completion) (fun _ _ hinv => hinv)
        fun error s' hs => hs.wp_completionFailed hdiscard error

/-! ## Admitting a planned request -/

/-- The locals of `admit_planned_request` own what is open, and there is no hold yet. -/
structure Admitting (c : Ledger) (r : ℕ) (s : State) : Prop where
  books : Books c s
  copyHold : s.copyHold = none
  owned : Owned c r s.locals.sources
  unconsumed : ∀ t, (s.locals.sources t).consumed = false
  source : ∀ t, (s.locals.sources t).claimed = true →
    c.source t = some (r, (s.locals.sources t).entryId)
  captured : ∀ i ∈ s.locals.captured, i ∈ c.captured

/-- Every source the request was planned from is claimed. -/
def AllClaimed (s : State) : Prop :=
  ∀ t, (s.locals.sources t).hit = true → (s.locals.sources t).claimed = true

/-- Where `admit_planned_request` can throw: before its claims pass to the hold, or after. -/
def Failing (r : ℕ) (s : State) : Prop :=
  (∃ c, Admitting c r s) ∨
    ∃ c hold, Held c hold s ∧ hold.request = r ∧ ∀ t, (s.locals.sources t).claimed = false

/-- `rollback_ram_captures` drops only what the attempt captured. -/
lemma Idle.wp_rollbackRamCaptures (h : Idle c s)
    (hcaptured : ∀ i ∈ s.locals.captured, i ∈ c.captured) (hQ : ∀ c s', Idle c s' → Q () s') :
    wp rollbackRamCaptures Q E s := by
  rw [rollbackRamCaptures, wp_bind, wp_get, wp_bind]
  refine wp_mono (Q := fun _ => Idle c) (wp_forEach _ (fun id hid s' h' => ?_) h)
    (fun _ s' h' => ?_) fun _ _ he => he
  · refine h'.books.wp_drop (t := .ram) (h'.closed .ram) (.inl ⟨rfl, hcaptured id hid⟩)
      fun s'' hbooks hsame => ?_
    exact ⟨hbooks, hsame.1.trans h'.copyHold, h'.closed⟩
  · exact hQ c _ ⟨h'.books.same rfl rfl rfl, h'.copyHold, h'.closed⟩

/-- Without flags there is nothing to release. -/
lemma wp_releaseLocals_of_unclaimed (h : ∀ t, (s.locals.sources t).claimed = false) (hQ : Q () s) :
    wp (releaseLocals r) Q E s := by
  have hlocal : ∀ t {Q : Unit → State → Prop}, Q () s → wp (releaseLocal r t) Q E s := by
    intro t Q hQ
    rw [releaseLocal, wp_bind, wp_get, wp_ite]
    exact ⟨fun hflags => absurd hflags.1 (by simp [h t]), fun _ => hQ⟩
  rw [releaseLocals, wp_bind]
  exact hlocal .ram (hlocal .disk hQ)

namespace Admitting

section

variable (h : Admitting c r s)

include h

/-- An attempt that does not go through gives back its claims and its captures. -/
lemma wp_deferForReclaim (hQ : ∀ c s', Idle c s' → Q () s') : wp (deferForReclaim r) Q E s := by
  rw [deferForReclaim, wp_bind]
  refine h.books.wp_releaseLocals h.owned fun c' s' hbooks hclosed hcap hcopy hlocal => ?_
  refine Idle.wp_rollbackRamCaptures ⟨hbooks, hcopy.trans h.copyHold, hclosed⟩ (fun i hi => ?_) hQ
  rw [hcap]
  exact h.captured i (hlocal ▸ hi)

/-- The claims pass to the hold. -/
lemma emplaceHold (hall : AllClaimed s) :
    Held c { request := r, sources := s.locals.sources } { s with
      copyHold := some { request := r, sources := s.locals.sources }
      locals := { s.locals with
        sources := fun t => { s.locals.sources t with claimed := false } } } where
  books := h.books.same rfl rfl rfl
  copyHold := rfl
  owned := h.owned
  source t hhit := h.source t (hall t hhit)
  invalid hfailed := by simp at hfailed

lemma wp_bindRequest (hall : AllClaimed s) (a : Attempt) :
    wp (bindRequest r a) (fun _ => Inv) (fun _ => Failing r) s := by
  rw [bindRequest, wp_bind]
  refine wp_outcome _ (fun _ => ?_) fun _ _ => .inl ⟨c, h⟩
  rw [wp_ite]
  refine ⟨fun _ => ?_, fun _ => h.wp_deferForReclaim fun _ _ hidle => hidle.inv⟩
  rw [wp_bind]
  refine wp_outcome _ (fun _ => ?_) fun _ _ => .inl ⟨c, h⟩
  have hheld := h.emplaceHold hall
  exact wp_outcome _ (fun _ => hheld.inv) fun _ _ => .inr ⟨c, _, hheld, rfl, fun _ => rfl⟩

/-- Saving a lane changes no claim. -/
lemma wp_captureLane {Q : ℕ → State → Prop} (hQ : ∀ c' s' id, Admitting c' r s' → c'.held = c.held →
      s'.locals.sources = s.locals.sources → Q id s') :
    wp captureLane Q E s := by
  have hnoted : Books { c with captured := s.nextRamId :: c.captured }
      (s.insertRam.note (.captures s.nextRamId)) := h.books.insertRam.note rfl rfl
  refine hQ _ _ _ { h with books := hnoted.same rfl rfl rfl, captured := fun i hi => ?_ } rfl rfl
  · rcases List.mem_append.mp hi with hi | hi
    · exact List.mem_cons_of_mem _ (h.captured i hi)
    · exact List.mem_singleton.mp hi ▸ List.mem_cons_self

lemma wp_captureVictims (hall : AllClaimed s) (victims : List Capture) :
    wp (captureVictims victims) (fun _ s' => ∃ c', Admitting c' r s' ∧ AllClaimed s')
      (fun _ => Failing r) s := by
  induction victims generalizing c s with
  | nil => exact ⟨c, h, hall⟩
  | cons victim rest ih =>
    cases victim with
    | deferred => exact ⟨c, h, hall⟩
    | dropped => exact ih h hall
    | throws error => exact .inl ⟨c, h⟩
    | saved =>
      rw [captureVictims, wp_bind]
      refine h.wp_captureLane fun c' s' _ h' _ hsources => ih h' ?_
      intro t
      rw [hsources]
      exact hall t

lemma wp_reclaimAndBind (hall : AllClaimed s) (a : Attempt) :
    wp (reclaimAndBind r a) (fun _ => Inv) (fun _ => Failing r) s := by
  rw [reclaimAndBind, wp_bind]
  refine wp_mono (h.wp_captureVictims hall a.victims) (fun captured s' h' => ?_) fun _ _ he => he
  obtain ⟨c', h', hall'⟩ := h'
  rw [wp_ite]
  exact ⟨fun _ => h'.wp_bindRequest hall' a,
    fun _ => h'.wp_deferForReclaim fun _ _ hidle => hidle.inv⟩

/-- The locals take over a claim that was just taken. -/
lemma claim (hhit : (s.locals.sources t).hit = true)
    (hbooks : Books (c.claim r t (s.locals.sources t).entryId) s') (hsame : Books.Same s s') :
    Admitting (c.claim r t (s.locals.sources t).entryId) r
      (s'.modifyLocal t fun f => { f with claimed := true }) := by
  have hsources : (s'.modifyLocal t fun f => { f with claimed := true }).locals.sources =
      Function.update s.locals.sources t { s.locals.sources t with claimed := true } := by
    show Function.update s'.locals.sources t _ = _
    rw [hsame.2]
  refine ⟨hbooks.same rfl rfl rfl, hsame.1.trans h.copyHold, fun t' => ?_, fun t' => ?_,
    fun t' => ?_, fun i hi => h.captured i ?_⟩
  · rw [hsources]
    by_cases ht : t' = t
    · subst ht
      simp [hhit, h.unconsumed]
    · rw [claim_held, setHeld_held_of_ne _ ht, Function.update_of_ne ht]
      exact h.owned t'
  · rw [hsources]
    by_cases ht : t' = t
    · subst ht
      simpa using h.unconsumed t'
    · rw [Function.update_of_ne ht]
      exact h.unconsumed t'
  · rw [hsources]
    by_cases ht : t' = t
    · subst ht
      simp
    · rw [Function.update_of_ne ht, claim_source_of_ne ht]
      exact h.source t'
  · have hlocals : s'.locals.captured = s.locals.captured := by rw [hsame.2]
    exact hlocals ▸ hi

lemma wp_claimRamAndBind (hnone : c.held .ram = none)
    (hdisk : (s.locals.sources .disk).hit = true → (s.locals.sources .disk).claimed = true)
    (a : Attempt) : wp (claimRamAndBind r a) (fun _ => Inv) (fun _ => Failing r) s := by
  rw [claimRamAndBind, wp_bind, wp_get, wp_ite]
  constructor
  · intro hhit
    rw [wp_bind]
    refine h.books.wp_claimRamEntry hnone (.inl ⟨c, h⟩) fun s' hbooks hsame => ?_
    refine (h.claim hhit hbooks hsame).wp_reclaimAndBind ?_ a
    rintro (_ | _)
    · exact fun _ => rfl
    · show (s'.locals.sources .disk).hit = true → (s'.locals.sources .disk).claimed = true
      rw [hsame.2]
      exact hdisk
  · intro hhit
    refine h.wp_reclaimAndBind ?_ a
    rintro (_ | _)
    · exact fun hram => absurd hram hhit
    · exact hdisk

lemma wp_claimAndBind (hclosed : ∀ t, c.held t = none) {a : Attempt}
    (hdiscard : a.lookup.discardSpill = none) :
    wp (claimAndBind r a) (fun _ => Inv) (fun _ => Failing r) s := by
  rw [claimAndBind, wp_bind, wp_get, wp_ite]
  constructor
  · intro hhit
    rw [wp_bind]
    refine h.books.wp_claimDiskEntry (hclosed .disk) hdiscard (.inl ⟨c, h⟩) ?_
      fun s' hbooks hsame => ?_
    · refine h.books.wp_releaseLocals h.owned fun c' s' hbooks hclosed _ hcopy _ => ?_
      exact Idle.inv ⟨hbooks, hcopy.trans h.copyHold, hclosed⟩
    · have hclaimed := h.claim hhit hbooks hsame
      rw [if_pos rfl, wp_bind, setClaimed, wp_modify, wp_bind]
      refine wp_outcome _ (fun _ => ?_) fun _ _ => .inl ⟨_, hclaimed⟩
      refine hclaimed.wp_claimRamAndBind ?_ (fun _ => rfl) a
      exact hclosed .ram
  · intro hhit
    exact h.wp_claimRamAndBind (hclosed .ram) (fun hdisk => absurd hdisk hhit) a

/-- A lane that was preserved becomes the request's RAM source. -/
lemma useRam (hclosed : ∀ t, c.held t = none)
    (hunclaimed : (s.locals.sources .ram).claimed = false) (id : ℕ) :
    Admitting c r (s.modifyLocal .ram fun f => { f with hit := true, entryId := id }) := by
  refine ⟨h.books.same rfl rfl rfl, h.copyHold, owned_of_closed hclosed, ?_, ?_, h.captured⟩
  · rintro (_ | _)
    · exact h.unconsumed .ram
    · exact h.unconsumed .disk
  · rintro (_ | _) hclaimed
    · exact absurd hclaimed (by simp [State.modifyLocal, hunclaimed])
    · exact h.source .disk hclaimed

lemma wp_admitFromChoice (hclosed : ∀ t, c.held t = none)
    (hunclaimed : (s.locals.sources .ram).claimed = false) (choice : LaneChoice) {a : Attempt}
    (hdiscard : a.lookup.discardSpill = none) :
    wp (admitFromChoice r choice a) (fun _ => Inv) (fun _ => Failing r) s := by
  have hidle : Inv s := Idle.inv ⟨h.books, h.copyHold, hclosed⟩
  rw [admitFromChoice, wp_ite]
  refine ⟨fun _ => ?_, fun _ => h.wp_claimAndBind hclosed hdiscard⟩
  split
  next => exact hidle
  next => exact hidle
  next => exact .inl ⟨c, h⟩
  next =>
    rw [wp_bind]
    refine h.wp_captureLane fun c' s' id h' hheld hsources => ?_
    have hclosed' : ∀ t, c'.held t = none := fun t => hheld ▸ hclosed t
    exact (h'.useRam hclosed' (hsources ▸ hunclaimed) id).wp_claimAndBind hclosed' hdiscard

end

end Admitting

/-- The handler of `admit_planned_request`. -/
lemma Failing.wp_admissionFailed (h : Failing r s) (error : Error) :
    wp (admissionFailed r error) (fun _ => Inv) (fun _ => Inv) s := by
  have hleaves : ∀ c s', Idle c s' →
      wp (do note (.leaves r); throwIf (error.isRequestLocal = false) error) (fun _ => Inv)
        (fun _ => Inv) s' := by
    intro c s' hidle
    rw [wp_bind, wp_note, wp_throwIf]
    exact ⟨fun _ => (hidle.note_leaves r).inv, fun _ => (hidle.note_leaves r).inv⟩
  rw [admissionFailed, wp_bind]
  obtain ⟨c, h⟩ | ⟨c, hold, h, hrequest, hunclaimed⟩ := h
  · refine h.books.wp_releaseLocals h.owned fun c' s' hbooks hclosed hcap hcopy hlocal => ?_
    have hidle : Idle c' s' := ⟨hbooks, hcopy.trans h.copyHold, hclosed⟩
    rw [wp_bind, wp_get, hidle.holds, if_neg (by simp), wp_bind]
    refine hidle.wp_rollbackRamCaptures (fun i hi => ?_) hleaves
    rw [hcap]
    exact h.captured i (hlocal ▸ hi)
  · refine wp_releaseLocals_of_unclaimed hunclaimed ?_
    have hholds : s.holds r = true := by simp [State.holds, h.copyHold, hrequest]
    rw [wp_bind, wp_get, hholds, if_pos rfl, wp_bind]
    exact h.inv.wp_drain hleaves

/-- `admit_planned_request`. -/
lemma Idle.wp_admitPlannedRequest (h : Idle c s) (choice : LaneChoice) {a : Attempt}
    (hdiscard : a.lookup.discardSpill = none) :
    wp (admitPlannedRequest r choice a) (fun _ => Inv) (fun _ => Inv) s := by
  unfold admitPlannedRequest
  split
  next => exact (h.note_leaves r).inv
  next => exact h.inv
  next => exact h.inv
  next =>
    rw [wp_bind, wp_throwIf]
    refine ⟨fun _ => h.inv, fun _ => ?_⟩
    rw [wp_bind, wp_modify, wp_tryCatch]
    have hbegun : Books { c with captured := [] } (s.note .begins) := h.books.note rfl rfl
    have hstart : Admitting { c with captured := [] } r
        { s.note .begins with locals := { sources := choice.sources } } := by
      refine ⟨hbegun.same rfl rfl rfl, h.copyHold, owned_of_closed h.closed, ?_, ?_, by simp⟩
      · rintro (_ | _) <;> rfl
      · rintro (_ | _) hclaimed <;> simp [LaneChoice.sources] at hclaimed
    exact wp_mono (hstart.wp_admitFromChoice h.closed rfl choice hdiscard) (fun _ _ hinv => hinv)
      fun error s' hs => hs.wp_admissionFailed error

/-! ## Every event -/

lemma Idle.of_isNone (h : Inv s) (hnone : s.copyHold.isNone = true) : ∃ c, Idle c s := by
  obtain ⟨c, h⟩ | ⟨c, hold, h⟩ := h
  · exact ⟨c, h⟩
  · simp [h.copyHold] at hnone

lemma Idle.wp_startGenerationRecovery (h : Idle c s) {route : Route}
    (hdiscard : (Event.recovers r route).DiscardsSpills) :
    wp (startGenerationRecovery r route) (fun _ => Inv) (fun _ => Inv) s := by
  rw [startGenerationRecovery, wp_tryCatch]
  refine wp_mono (Q := fun _ => Inv) (E := fun _ => Inv) ?_ (fun _ _ hinv => hinv)
    fun error s' hinv => hinv.wp_failAdmittedRequest r error
  unfold startRecoveryAttempt
  split
  next resolution => exact h.inv.wp_resolve h.holds resolution
  next plan cold =>
    rw [wp_bind]
    refine h.wp_holdRecoveryRestore (hdiscard _ (List.mem_singleton.mpr rfl)) 0
      (fun _ _ hinv => hinv) (fun s' hinv hholds => ?_) fun _ hinv => hinv
    exact hinv.wp_resolve hholds cold

/-- The end of the engine leaves nothing open. -/
lemma Inv.wp_failAll (h : Inv s) : wp failAll (fun _ => Inv) E s := by
  rw [failAll, wp_bind]
  refine h.wp_drain fun c s' hidle => ?_
  have hstep : c.step .stops = some c := if_pos ⟨hidle.closed .ram, hidle.closed .disk⟩
  exact Idle.inv ⟨(hidle.books.note hstep rfl).same rfl rfl rfl, hidle.copyHold, hidle.closed⟩

lemma Inv.wp_shutdown (h : Inv s) (abort : Option Error) :
    wp (shutdown abort) (fun _ => Inv) E s := by
  rw [shutdown, wp_bind, wp_get]
  split
  next => exact h.wp_failAll
  next hold _ =>
    rw [wp_ite]
    refine ⟨fun _ => ?_, fun _ => h.wp_failAll⟩
    rw [wp_bind, wp_runSecondaryCleanup]
    exact wp_mono (h.wp_cancelLane hold.request abort) (fun _ _ hinv => hinv.wp_failAll)
      fun _ _ hinv => hinv.wp_failAll

lemma Inv.of_books (h : Inv s) (hcopy : s'.copyHold = s.copyHold)
    (hbooks : ∀ c, Books c s → Books c s') : Inv s' := by
  obtain ⟨c, h⟩ | ⟨c, hold, h⟩ := h
  · exact Idle.inv ⟨hbooks c h.books, hcopy.trans h.copyHold, h.closed⟩
  · exact Held.inv ⟨hbooks c h.books, hcopy.trans h.copyHold, h.owned, h.source, h.invalid⟩

lemma Fallback.discardsSpills_of_mem
    (h : ∀ lookup ∈ fallback.replanned.toList.map HostPlan.lookup, lookup.discardSpill = none) :
    fallback.DiscardsSpills := by
  intro plan hplan
  exact h _ (List.mem_map_of_mem (Option.mem_toList.mpr hplan))

/-- What the executor does in one event keeps the books, on either exit. -/
lemma Inv.wp_handle (h : Inv s) {e : Event} (hdiscard : e.DiscardsSpills)
    (henabled : enabled s e = true) : wp (handle e) (fun _ => Inv) (fun _ => Inv) s := by
  cases e with
  | inserts => exact h.of_books rfl fun c hbooks => hbooks.insertRam
  | commits id => exact h.of_books rfl fun c hbooks => hbooks.commit id
  | evicts tier id =>
    have hpinned : (s.entries tier id).pinned = false := by simpa [enabled] using henabled
    exact h.of_books rfl fun c hbooks => hbooks.evict hpinned
  | admits request choice attempt =>
    obtain ⟨c, hidle⟩ := Idle.of_isNone h henabled
    exact hidle.wp_admitPlannedRequest choice (hdiscard _ (List.mem_singleton.mpr rfl))
  | recovers request route =>
    obtain ⟨c, hidle⟩ := Idle.of_isNone h henabled
    exact hidle.wp_startGenerationRecovery hdiscard
  | completes completion =>
    exact h.wp_admitComplete (Fallback.discardsSpills_of_mem hdiscard)
  | finishesRestore fallback =>
    exact h.wp_finishFailedRestore (Fallback.discardsSpills_of_mem hdiscard)
  | fences fence =>
    rw [handle, wp_bind]
    refine wp_outcome _ (fun _ => ?_) fun _ _ => h
    obtain ⟨c, h⟩ | ⟨c, hold, h⟩ := h
    · refine Idle.inv ⟨h.books.same rfl rfl rfl, ?_, h.closed⟩
      simp [State.modifyHold, h.copyHold]
    · exact Held.inv ⟨h.books.same rfl rfl rfl, h.modifyHold_copyHold ⟨rfl, rfl⟩ _, h.owned,
        h.source, h.invalid⟩
  | cancels request abort => exact h.wp_cancelLane request abort
  | leaves request => exact h.note_leaves (by simpa [enabled] using henabled)
  | throws error => exact h
  | shutsDown abort => exact h.wp_shutdown abort

lemma Inv.step (h : Inv s) {e : Event} (hdiscard : e.DiscardsSpills)
    (henabled : enabled s e = true) : Inv (s.step e) := by
  unfold State.step
  split_ifs
  · exact h
  · have hhandle := h.wp_handle hdiscard henabled
    unfold wp at hhandle
    split at hhandle <;> rename_i hexec <;> rw [hexec]
    · exact hhandle
    · exact wp_after (wp_mono (hhandle.wp_failAll (E := fun _ => Inv)) (fun _ _ hinv => hinv)
        fun _ _ hinv => hinv)

/-- The books balance in every run. -/
lemma Reachable.inv (h : Reachable Event.DiscardsSpills s) : Inv s := by
  induction h with
  | start => exact Idle.inv ⟨⟨rfl, by simp, by simp, by simp⟩, rfl, fun _ => rfl⟩
  | step _ hdiscard henabled ih => exact ih.step hdiscard henabled

lemma Inv.books (h : Inv s) : ∃ c, Books c s := by
  obtain ⟨c, h⟩ | ⟨c, hold, h⟩ := h
  · exact ⟨c, h.books⟩
  · exact ⟨c, h.books⟩

/-! ## The balance -/

open Ledger in
/-- The claims of a run balance.  An entry is dropped only if the attempt that drops it captured it
itself, or if the latest claim on its tier was on it and the latest failure, of the same request,
was classified as an invalid source. -/
structure Balanced (s : State) : Prop where
  /-- A claim is settled after it was taken, and once. -/
  once : ∀ log, log <+: s.log → ∀ r t i,
    settled r t i log ≤ claimed r t i log ∧ claimed r t i log ≤ settled r t i log + 1
  /-- An entry is pinned exactly while a claim on it is open. -/
  pinned : ∀ t i, (s.entries t i).pinned = true ↔
    ∃ r, claimed r t i s.log = settled r t i s.log + 1
  /-- Only a copy-hold keeps a claim open. -/
  idle : s.copyHold = none → ∀ t i, (s.entries t i).pinned = false
  leaves : ∀ before rest r, s.log = before ++ .leaves r :: rest → ∀ t i,
    claimed r t i before = settled r t i before
  stops : ∀ before rest, s.log = before ++ .stops :: rest → ∀ r t i,
    claimed r t i before = settled r t i before
  drops : ∀ before rest t i, s.log = before ++ .drops t i :: rest →
    t = .ram ∧ Latest (· = .begins) (.captures i) before ∨
    ∃ r, Latest (IsClaimOn t) (.claims r t i) before ∧
      Latest IsClassification (.fails r .invalidSource) before

namespace Books

variable {before rest : List Action}

/-- What the ledger knew when an action was logged. -/
lemma step_of_log (h : Books c s) {a : Action} (hlog : s.log = before ++ a :: rest) :
    ∃ c', Ledger.run before = some c' ∧ (c'.step a).isSome = true := by
  obtain ⟨c', d, hrun, hstep⟩ := exists_step_of_runFrom (hlog ▸ h.accepted)
  exact ⟨c', hrun, by rw [hstep]; rfl⟩

lemma once (h : Books c s) {log : List Action} (hlog : log <+: s.log) (r : ℕ) (t : Tier) (i : ℕ) :
    settled r t i log ≤ claimed r t i log ∧
      claimed r t i log ≤ settled r t i log + 1 := by
  obtain ⟨rest, hrest⟩ := hlog
  obtain ⟨c', hrun, -⟩ := runFrom_append.mp (hrest ▸ h.accepted)
  have hcount := claimed_eq hrun r t i
  split_ifs at hcount <;> omega

lemma pinned_iff_claimed (h : Books c s) (t : Tier) (i : ℕ) :
    (s.entries t i).pinned = true ↔
      ∃ r, claimed r t i s.log = settled r t i s.log + 1 := by
  rw [h.pinned]
  refine exists_congr fun r => ?_
  have hcount := claimed_eq h.accepted r t i
  split_ifs at hcount with hheld
  · exact iff_of_true hheld hcount
  · exact iff_of_false hheld (by omega)

lemma claimed_eq_of_leaves (h : Books c s) (hlog : s.log = before ++ .leaves r :: rest) (t : Tier)
    (i : ℕ) :
    claimed r t i before = settled r t i before := by
  obtain ⟨c', hrun, hstep⟩ := h.step_of_log hlog
  have hclear : c'.Clear r := by
    by_contra hopen
    simp [Ledger.step, hopen] at hstep
  have hcount := claimed_eq hrun r t i
  rwa [if_neg (hclear.not_held t i)] at hcount

lemma claimed_eq_of_stops (h : Books c s) (hlog : s.log = before ++ .stops :: rest) (r : ℕ)
    (t : Tier) (i : ℕ) :
    claimed r t i before = settled r t i before := by
  obtain ⟨c', hrun, hstep⟩ := h.step_of_log hlog
  have hclosed : c'.held .ram = none ∧ c'.held .disk = none := by
    by_contra hopen
    simp [Ledger.step, hopen] at hstep
  have hnone : c'.held t = none := by
    cases t with
    | ram => exact hclosed.1
    | disk => exact hclosed.2
  have hcount := claimed_eq hrun r t i
  rwa [hnone] at hcount

lemma mayDrop_of_drops (h : Books c s) (hlog : s.log = before ++ .drops t i :: rest) :
    t = .ram ∧ Latest (· = .begins) (.captures i) before ∨
    ∃ r, Latest (IsClaimOn t) (.claims r t i) before ∧
      Latest IsClassification (.fails r .invalidSource) before := by
  obtain ⟨c', hrun, hstep⟩ := h.step_of_log hlog
  have hmay : c'.mayDrop t i := by
    by_contra hno
    simp [Ledger.step, hno] at hstep
  have hremembers := remembers hrun
  rcases hmay with ⟨rfl, hcaptured⟩ | hinvalid
  · exact .inl ⟨rfl, hremembers.captured i hcaptured⟩
  · obtain ⟨r, hsource, hfailed⟩ := invalidSource_eq_some.mp hinvalid
    exact .inr ⟨r, hremembers.source t r i hsource, hremembers.failed r _ hfailed⟩

end Books

/-- Whatever happens, in whatever order: each claim is settled once, nothing stays pinned for a
request that has left, and a cached source is dropped only when its failure was classified as an
invalid source.  The run may not contain a disk claim that throws while it discards an idle rewrite
of the entry, because such a claim has pinned the entry already and nobody releases it. -/
theorem host_claims_balanced (h : Reachable Event.DiscardsSpills s) : Balanced s := by
  obtain ⟨c, hbooks⟩ := h.inv.books
  refine ⟨fun log hlog r t i => hbooks.once hlog r t i, hbooks.pinned_iff_claimed,
    fun hnone t i => ?_, fun before rest r hlog => hbooks.claimed_eq_of_leaves hlog,
    fun before rest hlog => hbooks.claimed_eq_of_stops hlog,
    fun before rest t i hlog => hbooks.mayDrop_of_drops hlog⟩
  obtain ⟨c', hidle⟩ := Idle.of_isNone h.inv (by simp [hnone])
  exact hidle.books.not_pinned_of_none (hidle.closed t) i

/-- A RAM source turns out invalid and is dropped, the request comes back, is restored from disk
and finishes. -/
def invalidThenDisk : List Event :=
  [.inserts, .commits 5, .admits 7 { ramEntryId := 1 } { victims := [.saved] },
    .completes { copies := .throws (.cacheRestore .invalidSource) }, .finishesRestore {},
    .admits 7 { diskEntryId := 5 } {}, .completes { resolution := .finishes }]

theorem host_claims_balanced_invalidThenDisk :
    ∃ s, State.run {} invalidThenDisk = some s ∧ Balanced s ∧ .drops .ram 1 ∈ s.log ∧
      .consumes 7 .disk 5 ∈ s.log := by
  obtain ⟨s, hs, hdrops, hconsumes⟩ : ∃ s ∈ State.run {} invalidThenDisk,
      .drops .ram 1 ∈ s.log ∧ .consumes 7 .disk 5 ∈ s.log := by decide +kernel
  exact ⟨s, hs, host_claims_balanced (Reachable.start.run (by decide) hs), hdrops, hconsumes⟩

/-- The entry is pinned, discarding its idle rewrite fails, and the request leaves without its
claim. -/
theorem discardFailure_leaks_claim :
    ∃ s, Reachable (fun _ => True) s ∧ .leaves 7 ∈ s.log ∧ (s.entries .disk 5).pinned = true ∧
      s.copyHold.isNone = true ∧ ¬Balanced s := by
  obtain ⟨s, hs, hleaves, hpinned, hnone⟩ : ∃ s ∈ State.run {}
      [.commits 5, .admits 7 { diskEntryId := 5 } { lookup := { discardSpill := some .engine } }],
      .leaves 7 ∈ s.log ∧ (s.entries .disk 5).pinned = true ∧ s.copyHold.isNone = true := by
    decide +kernel
  refine ⟨s, Reachable.start.run (fun _ _ => trivial) hs, hleaves, hpinned, hnone, ?_⟩
  intro hbalanced
  have hfree := hbalanced.idle (Option.isNone_iff_eq_none.mp hnone) .disk 5
  rw [hpinned] at hfree
  cases hfree

end NInfer.HostClaims
