import Mathlib

/-!
# Files that are replaced by renaming

A file that is only ever replaced as a whole: the new contents are written and synced under another
name, renamed over the old file, and the directory is synced.  Until the directory is synced a
rename may be undone by a crash, so the file has one version on disk and a list of later ones.

`All Q f` says that every version that a crash may leave satisfies `Q`; it is kept by syncs and by
crashes, and by the rename of a version that satisfies `Q`.
-/

namespace NInfer

/-- The version on disk, if any, and the versions renamed since the directory was synced, oldest
first. -/
structure RenamedFile (α : Type) where
  durable : Option α
  pending : List α
  deriving Repr

namespace RenamedFile

variable {α : Type} {Q R : α → Prop} {f : RenamedFile α} {x y : α}

/-- No such file. -/
def absent : RenamedFile α := ⟨none, []⟩

/-- A file with one version, on disk. -/
def settled (x : α) : RenamedFile α := ⟨some x, []⟩

/-- What a reader finds. -/
def visible (f : RenamedFile α) : Option α := f.pending.getLast?.or f.durable

def rename (f : RenamedFile α) (x : α) : RenamedFile α := ⟨f.durable, f.pending ++ [x]⟩

/-- The directory is synced. -/
def sync (f : RenamedFile α) : RenamedFile α := ⟨f.visible, []⟩

/-- A crash that keeps the first `k` renames. -/
def crash (f : RenamedFile α) (k : ℕ) : RenamedFile α :=
  ⟨(f.pending.take k).getLast?.or f.durable, []⟩

/-- Every version that a crash may leave satisfies `Q`. -/
def All (Q : α → Prop) (f : RenamedFile α) : Prop :=
  (∀ x, f.durable = some x → Q x) ∧ ∀ x ∈ f.pending, Q x

@[simp] lemma visible_rename : (f.rename x).visible = some x := by simp [visible, rename]

@[simp] lemma visible_sync : f.sync.visible = f.visible := by simp [visible, sync]

@[simp] lemma sync_settled : (settled x).sync = settled x := by simp [settled, sync, visible]

lemma sync_of_visible (h : f.visible = some x) : f.sync = settled x := by rw [sync, h, settled]

@[simp] lemma all_settled : All Q (settled x) ↔ Q x := by simp [All, settled]

lemma all_absent : All Q (absent : RenamedFile α) := by simp [All, absent]

lemma All.mono (h : All Q f) (hQ : ∀ x, Q x → R x) : All R f :=
  ⟨fun x hx => hQ x (h.1 x hx), fun x hx => hQ x (h.2 x hx)⟩

lemma All.and (h : All Q f) (h' : All R f) : All (fun x => Q x ∧ R x) f :=
  ⟨fun x hx => ⟨h.1 x hx, h'.1 x hx⟩, fun x hx => ⟨h.2 x hx, h'.2 x hx⟩⟩

lemma All.rename (h : All Q f) (hx : Q x) : All Q (f.rename x) := by
  refine ⟨h.1, fun y hy => ?_⟩
  rcases List.mem_append.mp hy with hy | hy
  · exact h.2 y hy
  · exact List.mem_singleton.mp hy ▸ hx

lemma All.visible (h : All Q f) (hx : f.visible = some x) : Q x := by
  rcases Option.or_eq_some_iff.mp hx with hlast | ⟨-, hdurable⟩
  · exact h.2 x (List.mem_of_getLast? hlast)
  · exact h.1 x hdurable

lemma All.sync (h : All Q f) : All Q f.sync :=
  ⟨fun _ hx => h.visible hx, fun _ hx => absurd hx List.not_mem_nil⟩

lemma All.crash (h : All Q f) (k : ℕ) : All Q (f.crash k) := by
  refine ⟨fun x hx => ?_, fun _ hx => absurd hx List.not_mem_nil⟩
  rcases Option.or_eq_some_iff.mp hx with hlast | ⟨-, hdurable⟩
  · exact h.2 x (List.mem_of_mem_take (List.mem_of_getLast? hlast))
  · exact h.1 x hdurable

lemma durable_crash (h : f.durable.isSome = true) (k : ℕ) : (f.crash k).durable.isSome = true := by
  simp [RenamedFile.crash, h]

lemma durable_sync (h : f.durable.isSome = true) : f.sync.durable.isSome = true := by
  simp [RenamedFile.sync, RenamedFile.visible, h]

lemma durable_of_visible (h : f.visible = none) : f.durable = none := by
  rw [RenamedFile.visible, Option.or_eq_none_iff] at h
  exact h.2

end RenamedFile

end NInfer
