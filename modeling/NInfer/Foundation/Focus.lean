import NInfer.Foundation.Throwing

/-!
# Programs on the members of a family

A state that is a family `ι → σ` of independent members is changed member by member.  `focus i m`
runs a program `m` over one member on member `i` of the family, and `wp_focus` reduces it to `m`.

A *batch* runs one program per row on distinct members.  `wp_forEach_focus` says what that
guarantees: each member of the batch ends where its own program leaves it, and no other member
changes (`Within`).  A batch that fails in the middle has changed some members and not others; code
that cannot undo this resets them all (`resettingOnThrow`), and then every member of the batch is in
a state that a reset produces or its program does.

`zoom` runs a program on one field of a record, given how to read and to replace it.
-/

namespace NInfer.Throwing

variable {ι σ ε α ρ : Type}

/-- Only members of `is` changed. -/
def Within (is : List ι) (s s' : ι → σ) : Prop := ∀ i ∉ is, s' i = s i

lemma Within.refl (is : List ι) (s : ι → σ) : Within is s s := fun _ _ => rfl

lemma Within.trans {is : List ι} {s s' s'' : ι → σ} (h : Within is s s') (h' : Within is s' s'') :
    Within is s s'' := fun i hi => (h' i hi).trans (h i hi)

/-- Run `m` on the part of the state that `view` reads and `put` replaces. -/
def zoom {τ : Type} (view : σ → τ) (put : σ → τ → σ) (m : Throwing τ ε α) : Throwing σ ε α :=
  fun s => ((m.exec (view s)).1, put s (m.exec (view s)).2)

lemma wp_zoom {τ : Type} {view : σ → τ} {put : σ → τ → σ} {m : Throwing τ ε α}
    {Q : α → σ → Prop} {E : ε → σ → Prop} {s : σ} :
    wp (zoom view put m) Q E s ↔
      wp m (fun a x => Q a (put s x)) (fun e x => E e (put s x)) (view s) := by
  have hrun : exec (zoom view put m) s = ((m.exec (view s)).1, put s (m.exec (view s)).2) := rfl
  unfold wp
  rw [hrun]
  rcases m.exec (view s) with ⟨_ | _, _⟩ <;> rfl

variable [DecidableEq ι]

/-- Run `m` on member `i` of a family. -/
def focus (i : ι) (m : Throwing σ ε α) : Throwing (ι → σ) ε α := fun s =>
  ((m.exec (s i)).1, Function.update s i (m.exec (s i)).2)

variable {reset : Throwing σ ε Unit} {E : ε → (ι → σ) → Prop} {member : ρ → ι} {Ok : σ → Prop}
    {s : ι → σ}

lemma wp_focus {i : ι} {m : Throwing σ ε α} {Q : α → (ι → σ) → Prop} :
    wp (focus i m) Q E s ↔
      wp m (fun a x => Q a (Function.update s i x)) (fun e x => E e (Function.update s i x))
        (s i) := by
  have hrun : exec (focus i m) s =
      ((m.exec (s i)).1, Function.update s i (m.exec (s i)).2) := rfl
  unfold wp
  rw [hrun]
  rcases m.exec (s i) with ⟨_ | _, _⟩ <;> rfl

lemma Within.update (i : ι) (is : List ι) (s : ι → σ) (x : σ) :
    Within (i :: is) s (Function.update s i x) := fun _ hj =>
  Function.update_of_ne (List.ne_of_not_mem_cons hj) _ _

lemma Within.cons {i : ι} {is : List ι} {s s' : ι → σ} {x : σ}
    (h : Within is (Function.update s i x) s') : Within (i :: is) s s' := by
  intro j hj
  rw [h j (List.not_mem_of_not_mem_cons hj),
    Function.update_of_ne (List.ne_of_not_mem_cons hj)]

/-- A batch on distinct members: each is left as its own program leaves it. -/
lemma wp_forEach_focus {body : ρ → Throwing σ ε Unit} {rows : List ρ}
    (hnodup : (rows.map member).Nodup)
    (hbody : ∀ row ∈ rows, wp (body row) (fun _ => Ok) (fun _ _ => True) (s (member row))) :
    wp (forEach rows fun row => focus (member row) (body row))
      (fun _ s' => (∀ row ∈ rows, Ok (s' (member row))) ∧ Within (rows.map member) s s')
      (fun _ s' => Within (rows.map member) s s') s := by
  induction rows generalizing s with
  | nil => exact ⟨fun _ h => absurd h List.not_mem_nil, Within.refl _ _⟩
  | cons row rows ih =>
    rw [List.map_cons, List.nodup_cons] at hnodup
    obtain ⟨hfresh, hnodup⟩ := hnodup
    rw [forEach, wp_bind, wp_focus]
    refine wp_mono (hbody row List.mem_cons_self) (fun _ x hx => ?_)
      (fun _ x _ => Within.update _ _ _ _)
    -- The remaining rows are on other members, which still are as they were.
    refine wp_mono (ih hnodup fun row' hrow' => ?_) (fun _ s' hs' => ?_)
      (fun _ s' hs' => Within.cons hs')
    · have hne : member row' ≠ member row := fun heq =>
        hfresh (heq ▸ List.mem_map_of_mem hrow')
      rw [Function.update_of_ne hne]
      exact hbody row' (List.mem_cons_of_mem _ hrow')
    · refine ⟨fun row' hrow' => ?_, Within.cons hs'.2⟩
      rcases List.mem_cons.mp hrow' with rfl | hrow'
      · rw [hs'.2 _ hfresh, Function.update_self]
        exact hx
      · exact hs'.1 row' hrow'

/-- A loop of resets leaves every member of the batch reset, in whatever state it found it. -/
lemma wp_forEach_reset (hreset : ∀ x, wp reset (fun _ => Ok) (fun _ _ => False) x) (rows : List ρ)
    (s : ι → σ) :
    wp (forEach rows fun row => focus (member row) reset)
      (fun _ s' => (∀ row ∈ rows, Ok (s' (member row))) ∧ Within (rows.map member) s s') E s := by
  induction rows generalizing s with
  | nil => exact ⟨fun _ h => absurd h List.not_mem_nil, Within.refl _ _⟩
  | cons row rows ih =>
    rw [forEach, wp_bind, wp_focus]
    refine wp_mono (hreset _) (fun _ x hx => ?_) (fun _ _ h => h.elim)
    refine wp_imp (ih _) fun _ s' hs' => ?_
    refine ⟨fun row' hrow' => ?_, Within.cons hs'.2⟩
    rcases List.mem_cons.mp hrow' with rfl | hrow'
    · by_cases hagain : member row' ∈ rows.map member
      · obtain ⟨row, hrow, heq⟩ := List.mem_map.mp hagain
        exact heq ▸ hs'.1 row hrow
      · rw [hs'.2 _ hagain, Function.update_self]
        exact hx
    · exact hs'.1 row' hrow'

/-- `try { m } catch (...) { reset every member of the batch; throw; }`. -/
def resettingOnThrow (rows : List ρ) (member : ρ → ι) (reset : Throwing σ ε Unit)
    (m : Throwing (ι → σ) ε Unit) : Throwing (ι → σ) ε Unit :=
  tryCatch m fun e => do
    forEach rows fun row => focus (member row) reset
    throw e

/-- Whichever way a resetting batch exits, its members are in an `Ok` state and no other member
changed. -/
lemma wp_resettingOnThrow
    {rows : List ρ} {m : Throwing (ι → σ) ε Unit}
    (hreset : ∀ x, wp reset (fun _ => Ok) (fun _ _ => False) x)
    (hm : wp m (fun _ s' => (∀ row ∈ rows, Ok (s' (member row))) ∧ Within (rows.map member) s s')
      (fun _ s' => Within (rows.map member) s s') s) :
    wp (resettingOnThrow rows member reset m)
      (fun _ s' => (∀ row ∈ rows, Ok (s' (member row))) ∧ Within (rows.map member) s s')
      (fun _ s' => (∀ row ∈ rows, Ok (s' (member row))) ∧ Within (rows.map member) s s') s := by
  rw [resettingOnThrow, wp_tryCatch]
  refine wp_mono hm (fun _ _ h => h) (fun e s' hs' => ?_)
  rw [wp_bind]
  refine wp_imp (wp_forEach_reset hreset rows s') fun _ s'' hs'' => ?_
  exact ⟨hs''.1, hs'.trans hs''.2⟩

end NInfer.Throwing
