import Mathlib

/-!
# Tickets

Numbers are handed out in order, and each holder waits in a queue or stands at a place.  Tickets
move between the queue and the places; none is ever held twice.
-/

namespace NInfer

variable {L : Type*}

/-- Every ticket in use was handed out before `next`, and no two holders share one. -/
structure Ticketed (queued : List ℕ) (bound : L → Option ℕ) (next : ℕ) : Prop where
  nodup : queued.Nodup
  fresh : ∀ id ∈ queued, 0 < id ∧ id < next
  bound : ∀ lane, ∀ id ∈ bound lane, (0 < id ∧ id < next) ∧ id ∉ queued ∧
    ∀ lane', id ∈ bound lane' → lane' = lane

namespace Ticketed

variable {queued queued' : List ℕ} {bound bound' : L → Option ℕ} {next id : ℕ} {lane : L}

lemma mono (h : Ticketed queued bound next) (hsub : queued'.Sublist queued)
    (hbound : ∀ lane, ∀ id ∈ bound' lane, id ∈ bound lane) : Ticketed queued' bound' next where
  nodup := h.nodup.sublist hsub
  fresh := fun id hid => h.fresh id (hsub.subset hid)
  bound := by
    intro lane id hid
    obtain ⟨hrange, hnot, hunique⟩ := h.bound lane id (hbound lane id hid)
    exact ⟨hrange, fun hmem => hnot (hsub.subset hmem),
      fun lane' hlane' => hunique lane' (hbound lane' id hlane')⟩

lemma sublist (h : Ticketed queued bound next) (hsub : queued'.Sublist queued) :
    Ticketed queued' bound next :=
  h.mono hsub fun _ _ hid => hid

lemma submit (h : Ticketed queued bound next) (hnext : 0 < next) :
    Ticketed (queued ++ [next]) bound (next + 1) where
  nodup := by
    rw [List.nodup_append]
    refine ⟨h.nodup, List.nodup_singleton _, fun id hid other hother => ?_⟩
    have := (h.fresh id hid).2
    simp only [List.mem_singleton] at hother
    omega
  fresh := by
    intro id hid
    rcases List.mem_append.mp hid with hid | hid
    · have := h.fresh id hid
      omega
    · simp only [List.mem_singleton] at hid
      omega
  bound := by
    intro lane id hid
    obtain ⟨hrange, hnot, hunique⟩ := h.bound lane id hid
    refine ⟨by omega, ?_, hunique⟩
    simp only [List.mem_append, List.mem_singleton, not_or]
    exact ⟨hnot, by omega⟩

variable [DecidableEq L]

lemma release (h : Ticketed queued bound next) (lane : L) :
    Ticketed queued (Function.update bound lane none) next := by
  refine h.mono (.refl _) fun other id hid => ?_
  by_cases hother : other = lane
  · simp [hother] at hid
  · rwa [Function.update_of_ne hother] at hid

/-- A ticket moves from the queue to a place. -/
lemma bind (h : Ticketed queued bound next) (hid : id ∈ queued) (hsub : queued'.Sublist queued)
    (hgone : id ∉ queued') : Ticketed queued' (Function.update bound lane (some id)) next where
  nodup := (h.sublist hsub).nodup
  fresh := (h.sublist hsub).fresh
  bound := by
    have hbound : ∀ other, id ∉ bound other := fun other hother => (h.bound other id hother).2.1 hid
    intro other id' hid'
    by_cases hother : other = lane
    · subst hother
      obtain rfl : id = id' := by simpa using hid'
      refine ⟨h.fresh id hid, hgone, fun lane' hlane' => ?_⟩
      by_contra hne
      rw [Function.update_of_ne hne] at hlane'
      exact hbound lane' hlane'
    · rw [Function.update_of_ne hother] at hid'
      obtain ⟨hrange, hnot, hunique⟩ := (h.sublist hsub).bound other id' hid'
      refine ⟨hrange, hnot, fun lane' hlane' => ?_⟩
      by_cases hlane : lane' = lane
      · subst hlane
        obtain rfl : id = id' := by simpa using hlane'
        exact absurd hid' (hbound other)
      · rw [Function.update_of_ne hlane] at hlane'
        exact hunique lane' hlane'

/-- A ticket goes back from its place to the queue. -/
lemma requeue (h : Ticketed queued bound next) (hid : id ∈ bound lane)
    (hperm : queued'.Perm (id :: queued)) :
    Ticketed queued' (Function.update bound lane none) next where
  nodup := by
    rw [hperm.nodup_iff, List.nodup_cons]
    exact ⟨(h.bound lane id hid).2.1, h.nodup⟩
  fresh := by
    intro id' hid'
    rcases List.mem_cons.mp (hperm.subset hid') with rfl | hid'
    · exact (h.bound lane id' hid).1
    · exact h.fresh id' hid'
  bound := by
    intro other id' hid'
    obtain ⟨hrange, hnot, hunique⟩ := (h.release lane).bound other id' hid'
    refine ⟨hrange, fun hmem => ?_, hunique⟩
    rcases List.mem_cons.mp (hperm.subset hmem) with rfl | hmem
    · by_cases hother : other = lane
      · simp [hother] at hid'
      · rw [Function.update_of_ne hother] at hid'
        exact hother ((h.bound lane id' hid).2.2 other hid')
    · exact hnot hmem

end Ticketed

end NInfer
