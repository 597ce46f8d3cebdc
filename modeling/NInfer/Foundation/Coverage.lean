import Mathlib

/-!
# Extents and how often they cover an address

An extent is a half-open range of addresses inside a region (a file, a segment, an arena).
Disjointness and exhaustiveness of a collection of extents are one statement about how often each
address is covered: `Tiles s size` says that the extents in `s` cover every address below the size
of its region exactly once and no other address at all.

Coverage is additive in the collection and insensitive to where an extent is cut
(`coverage_join`), so allocation, release, splitting and coalescing are all equations between
multisets, and nothing has to be said about the order in which extents are kept.
-/

namespace NInfer

/-- The addresses `start, …, start + length - 1` of a region. -/
structure Extent (κ : Type) where
  region : κ
  start : ℕ
  length : ℕ
  deriving DecidableEq

namespace Extent

variable {κ : Type} [DecidableEq κ]

/-- The address just past the extent. -/
def stop (e : Extent κ) : ℕ := e.start + e.length

def Covers (e : Extent κ) (r : κ) (x : ℕ) : Prop := e.region = r ∧ e.start ≤ x ∧ x < e.stop

instance (e : Extent κ) (r : κ) (x : ℕ) : Decidable (e.Covers r x) :=
  inferInstanceAs (Decidable (_ ∧ _ ∧ _))

end Extent

variable {κ : Type} [DecidableEq κ]

/-- How many extents of `s` cover address `x` of region `r`. -/
def coverage (s : Multiset (Extent κ)) (r : κ) (x : ℕ) : ℕ :=
  (s.map fun e => if e.Covers r x then 1 else 0).sum

@[simp] lemma coverage_zero (r : κ) (x : ℕ) : coverage (0 : Multiset (Extent κ)) r x = 0 := rfl

@[simp] lemma coverage_cons (e : Extent κ) (s : Multiset (Extent κ)) (r : κ) (x : ℕ) :
    coverage (e ::ₘ s) r x = (if e.Covers r x then 1 else 0) + coverage s r x := by
  simp [coverage]

@[simp] lemma coverage_add (s t : Multiset (Extent κ)) (r : κ) (x : ℕ) :
    coverage (s + t) r x = coverage s r x + coverage t r x := by
  induction s using Multiset.induction_on with
  | empty => simp
  | cons e s ih => rw [Multiset.cons_add, coverage_cons, coverage_cons, ih, add_assoc]

/-- Cutting an extent in two does not change what is covered. -/
lemma coverage_join (s : Multiset (Extent κ)) (q : κ) (start m n : ℕ) (r : κ) (x : ℕ) :
    coverage (⟨q, start, m⟩ ::ₘ ⟨q, start + m, n⟩ ::ₘ s) r x =
      coverage (⟨q, start, m + n⟩ ::ₘ s) r x := by
  simp only [coverage_cons, Extent.Covers, Extent.stop]
  by_cases hq : q = r
  · by_cases hx : x < start + m
    · by_cases hs : start ≤ x
      · have : x < start + (m + n) := by omega
        simp [*]
      · simp [*]
    · have : (start ≤ x ∧ x < start + (m + n)) ↔ (start + m ≤ x ∧ x < start + m + n) := by omega
      simp [*]
  · simp [hq]

/-- A member covers its own addresses. -/
lemma one_le_coverage {s : Multiset (Extent κ)} {e : Extent κ} (he : e ∈ s) {r : κ} {x : ℕ}
    (hx : e.Covers r x) : 1 ≤ coverage s r x := by
  obtain ⟨t, rfl⟩ := Multiset.exists_cons_of_mem he
  rw [coverage_cons, if_pos hx]
  omega

/-- Two different members covering one address count twice. -/
lemma two_le_coverage {s : Multiset (Extent κ)} {e f : Extent κ} (he : e ∈ s) (hf : f ∈ s)
    (hne : e ≠ f) {r : κ} {x : ℕ} (hex : e.Covers r x) (hfx : f.Covers r x) :
    2 ≤ coverage s r x := by
  obtain ⟨t, rfl⟩ := Multiset.exists_cons_of_mem he
  have hft : f ∈ t := (Multiset.mem_cons.mp hf).resolve_left hne.symm
  have := one_le_coverage hft hfx
  rw [coverage_cons, if_pos hex]
  omega

lemma coverage_eq_zero {s : Multiset (Extent κ)} {r : κ} {x : ℕ} (h : ∀ e ∈ s, ¬e.Covers r x) :
    coverage s r x = 0 := by
  induction s using Multiset.induction with
  | empty => rfl
  | cons e s ih =>
    rw [coverage_cons, if_neg (h e (Multiset.mem_cons_self ..)),
      ih fun e' he' => h e' (Multiset.mem_cons_of_mem he')]

/-- An extent of length zero covers nothing. -/
@[simp] lemma coverage_cons_empty (q : κ) (start : ℕ) (s : Multiset (Extent κ)) (r : κ) (x : ℕ) :
    coverage (⟨q, start, 0⟩ ::ₘ s) r x = coverage s r x := by
  have hcovers : ¬(⟨q, start, 0⟩ : Extent κ).Covers r x := by
    rintro ⟨-, hle, hlt⟩
    exact absurd hlt (by simpa [Extent.stop] using hle)
  rw [coverage_cons, if_neg hcovers, Nat.zero_add]

/-- Two extents that are nowhere counted twice do not overlap. -/
lemma stop_le_start_or_of_coverage {e f : Extent κ} {s : Multiset (Extent κ)}
    (hs : ∀ r x, coverage (e ::ₘ s) r x ≤ 1) (hf : f ∈ s) (hregion : e.region = f.region)
    (hepos : 0 < e.length) (hfpos : 0 < f.length) : e.stop ≤ f.start ∨ f.stop ≤ e.start := by
  by_contra hover
  push Not at hover
  -- The later of the two starts is covered by both.
  have hex : e.Covers e.region (max e.start f.start) :=
    ⟨rfl, le_max_left _ _, max_lt (by unfold Extent.stop; omega) hover.1⟩
  have hfx : f.Covers e.region (max e.start f.start) :=
    ⟨hregion.symm, le_max_right _ _, max_lt hover.2 (by unfold Extent.stop; omega)⟩
  have hone := one_le_coverage hf hfx
  have htwo := hs e.region (max e.start f.start)
  rw [coverage_cons, if_pos hex] at htwo
  omega

/-- The extents of `s` cut every region `r` into pieces of `[0, size r)`. -/
def Tiles (s : Multiset (Extent κ)) (size : κ → ℕ) : Prop :=
  ∀ r x, coverage s r x = if x < size r then 1 else 0

namespace Tiles

variable {s : Multiset (Extent κ)} {size : κ → ℕ}

lemma coverage_le_one (hs : Tiles s size) (r : κ) (x : ℕ) : coverage s r x ≤ 1 := by
  rw [hs r x]
  split <;> omega

/-- Nonempty pieces occur once. -/
lemma nodup (hs : Tiles s size) (hpos : ∀ e ∈ s, 0 < e.length) : s.Nodup := by
  rw [Multiset.nodup_iff_le]
  intro e hle
  obtain ⟨t, rfl⟩ := Multiset.le_iff_exists_add.mp hle
  have hlength := hpos e (by simp)
  have hcovers : e.Covers e.region e.start := ⟨rfl, le_rfl, by unfold Extent.stop; omega⟩
  have hone := hs.coverage_le_one e.region e.start
  rw [coverage_add, coverage_cons, coverage_cons, if_pos hcovers] at hone
  omega

/-- A nonempty piece lies inside its region. -/
lemma stop_le (hs : Tiles s size) {e : Extent κ} (he : e ∈ s) (hpos : 0 < e.length) :
    e.stop ≤ size e.region := by
  have hlast : e.Covers e.region (e.stop - 1) :=
    ⟨rfl, by unfold Extent.stop; omega, by unfold Extent.stop; omega⟩
  have hcov := one_le_coverage he hlast
  rw [hs] at hcov
  by_contra hlt
  rw [if_neg (by omega)] at hcov
  omega

/-- Two different pieces of a region do not overlap. -/
lemma stop_le_start_or (hs : Tiles s size) {e f : Extent κ} (he : e ∈ s) (hf : f ∈ s)
    (hne : e ≠ f) (hregion : e.region = f.region) (hepos : 0 < e.length) (hfpos : 0 < f.length) :
    e.stop ≤ f.start ∨ f.stop ≤ e.start := by
  obtain ⟨t, rfl⟩ := Multiset.exists_cons_of_mem he
  have hft : f ∈ t := (Multiset.mem_cons.mp hf).resolve_left hne.symm
  exact stop_le_start_or_of_coverage hs.coverage_le_one hft hregion hepos hfpos

/-- A tiling can be extended at the end of a region, and its last piece can be cut off. -/
lemma cons_iff {e : Extent κ} {size' : κ → ℕ} (hsize : size e.region = e.start)
    (hsize' : size' e.region = e.stop) (hother : ∀ r, r ≠ e.region → size' r = size r) :
    Tiles (e ::ₘ s) size' ↔ Tiles s size := by
  have hone : ∀ r x, (if x < size' r then 1 else 0) =
      (if e.Covers r x then 1 else 0) + if x < size r then 1 else 0 := by
    intro r x
    unfold Extent.stop at hsize'
    by_cases hr : r = e.region
    · subst hr
      have hcovers : e.Covers e.region x ↔ e.start ≤ x ∧ x < e.start + e.length := by
        simp [Extent.Covers, Extent.stop]
      rw [hsize, hsize']
      simp only [hcovers]
      by_cases hx : x < e.start
      · rw [if_pos (by omega), if_neg (by omega), if_pos hx]
      · by_cases hx' : x < e.start + e.length
        · rw [if_pos hx', if_pos ⟨by omega, hx'⟩, if_neg hx]
        · rw [if_neg hx', if_neg (by omega), if_neg hx]
    · rw [hother r hr, if_neg (fun h : e.Covers r x => hr h.1.symm), Nat.zero_add]
  refine forall_congr' fun r => forall_congr' fun x => ?_
  rw [coverage_cons, hone, Nat.add_left_cancel_iff]

end Tiles

end NInfer
