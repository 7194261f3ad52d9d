import PostfixSheet.Proofs.Cells
import PostfixSheet.Proofs.Values

/-!
# Values on a path and values to a depth

Two evaluations of a sheet that keep nothing.

* `pathValue` knows the path alone. A cell on the path is a circular reference, and every other cell
  is evaluated from its text each time it is looked up.
* `depthValue` does not even know the path. It follows references to a depth and gives up there; a
  cell where it gives up counts as a circular reference, so a value to a depth is either settled, and
  then it is the same to every greater depth, or not.

`Needs sheet p a` says that `p` is settled only after `a` is, by one less in depth. The cells of a
real path need all that is looked up at its end, so no cell that is settled comes back on a path that
led to it.

Results:
* `depthValue_of_le`: what is settled to a depth is the same to every greater one.
* `depthValue_eq_pathValue`: what is settled on a path is settled to a depth that the number of cells
  off the path bounds, and the same.
* `pathValue_eq_depthValue`: what is settled to a depth is the same on every path that needs it.
* `cellBy_of_settled`, `pathValue_of_settled_cellBy`: the naive values from the empty path solve the
  sheet, where they are settled.
-/

namespace PostfixSheet

/-- **The naive evaluation**: the value of a cell that is looked up on a path. -/
def pathValue (sheet : Sheet) (path : List Address) (a : Address) : Except Fault Float :=
  if _hpath : a ∈ path then .error (.cyclicReference a)
  else
    match _ha : sheet.get? a with
    | none => .error (.invalidReference a.a1)
    | some raw => textBy (fun b => pathValue sheet (a :: path) b) a raw
termination_by sheet.unvisited path
decreasing_by exact Sheet.unvisited_cons_lt _ha _hpath

/-- The value of a cell when references are followed to a depth. -/
def depthValue (sheet : Sheet) : (depth : Nat) → Address → Except Fault Float
  | 0, a => .error (.cyclicReference a)
  | depth + 1, a => cellBy (depthValue sheet depth) sheet a

/-- What is looked up on a cell that is settled to a depth is settled to one less. -/
def Needs (sheet : Sheet) (p a : Address) : Prop :=
  ∀ depth, Settled (depthValue sheet (depth + 1) p) → Settled (depthValue sheet depth a)

variable {sheet : Sheet} {path : List Address} {a b c p : Address} {depth : Nat}

theorem pathValue_of_mem (h : a ∈ path) :
    pathValue sheet path a = .error (.cyclicReference a) := by
  rw [pathValue, dif_pos h]

theorem pathValue_of_not_mem (h : a ∉ path) :
    pathValue sheet path a = cellBy (pathValue sheet (a :: path)) sheet a := by
  rw [pathValue, dif_neg h, cellBy]
  split <;> rename_i ha <;> rw [ha]

/-! ## Depth -/

theorem not_settled_depthValue_zero : ¬ Settled (depthValue sheet 0 a) := fun h => h a rfl

theorem depthValue_succ (depth : Nat) : ∀ {a : Address}, Settled (depthValue sheet depth a) →
    depthValue sheet (depth + 1) a = depthValue sheet depth a := by
  induction depth with
  | zero => exact fun h => absurd h not_settled_depthValue_zero
  | succ depth ih => exact fun h => cellBy_congr fun b hb => ih (settled_of_scans hb h)

/-- What is settled to a depth is the same to every greater one. -/
theorem depthValue_of_le {n m : Nat} (hle : n ≤ m) (h : Settled (depthValue sheet n a)) :
    depthValue sheet m a = depthValue sheet n a := by
  induction hle with
  | refl => rfl
  | step _ ih =>
    rw [depthValue_succ _ (by rw [ih]; exact h), ih]

/-- Two depths to which a cell is settled give it one value. -/
theorem depthValue_unique {n m : Nat} (hn : Settled (depthValue sheet n a))
    (hm : Settled (depthValue sheet m a)) : depthValue sheet n a = depthValue sheet m a := by
  rcases Nat.le_total n m with h | h
  · exact (depthValue_of_le h hn).symm
  · exact depthValue_of_le h hm

theorem settled_depthValue_of_le {n m : Nat} (hle : n ≤ m) (h : Settled (depthValue sheet n a)) :
    Settled (depthValue sheet m a) := by
  rw [depthValue_of_le hle h]
  exact h

/-! ## Needs -/

theorem Needs.trans (hp : Needs sheet p a) (ha : Needs sheet a b) : Needs sheet p b :=
  fun depth h => ha depth (settled_depthValue_of_le (Nat.le_succ depth) (hp depth h))

/-- A cell that needs itself is never settled. -/
theorem Needs.not_settled (h : Needs sheet a a) : ∀ depth, ¬ Settled (depthValue sheet depth a)
  | 0 => not_settled_depthValue_zero
  | depth + 1 => fun hs => h.not_settled depth (h depth hs)

/-- **A cell needs what it looks up**, whatever the values are that it looks it up with, as long as
those that it goes past are values to some depth. -/
theorem needs_of_scans {value : Address → Except Fault Float}
    (hvalue : ∀ c x, value c = .ok x → ∃ depth, depthValue sheet depth c = .ok x)
    (h : Scans value sheet a b) : Needs sheet a b := by
  intro depth hs
  have hscan : Scans (depthValue sheet depth) sheet a b := by
    refine h.transfer (fun c x hx hc => ?_) hs
    obtain ⟨n, hn⟩ := hvalue c x hx
    rw [← hn]
    exact depthValue_unique hc (hn ▸ settled_ok x)
  exact settled_of_scans hscan hs

/-- A path that needs `a` goes on, through `a`, to all that `a` needs. -/
theorem needs_cons (hpath : ∀ p ∈ path, Needs sheet p a) (ha : Needs sheet a b) :
    ∀ p ∈ a :: path, Needs sheet p b := by
  intro p hp
  rcases List.mem_cons.mp hp with rfl | hp
  · exact ha
  · exact (hpath p hp).trans ha

/-! ## Paths and depths -/

/-- **What is settled on a path is settled to a depth**, and the number of cells off the path bounds
it. -/
theorem depthValue_eq_pathValue (depth : Nat) : ∀ {path : List Address} {a : Address},
    Settled (pathValue sheet path a) → sheet.unvisited path < depth →
      depthValue sheet depth a = pathValue sheet path a := by
  induction depth with
  | zero => exact fun _ h => absurd h (Nat.not_lt_zero _)
  | succ depth ih =>
    intro path a hs hlt
    have hmem : a ∉ path := fun h => hs a (pathValue_of_mem h)
    rw [pathValue_of_not_mem hmem] at hs ⊢
    refine cellBy_congr fun b hb => ih (settled_of_scans hb hs) ?_
    obtain ⟨raw, hraw⟩ := hb.inside
    have := Sheet.unvisited_cons_lt hraw hmem
    omega

theorem exists_depthValue_of_pathValue {x : Float} (h : pathValue sheet path a = .ok x) :
    ∃ depth, depthValue sheet depth a = .ok x :=
  ⟨sheet.unvisited path + 1, by
    rw [depthValue_eq_pathValue _ (h ▸ settled_ok x) (Nat.lt_succ_self _), h]⟩

/-- **What is settled to a depth is the same on every path that needs it.** -/
theorem pathValue_eq_depthValue (depth : Nat) : ∀ {path : List Address} {a : Address},
    (∀ p ∈ path, Needs sheet p a) → Settled (depthValue sheet depth a) →
      pathValue sheet path a = depthValue sheet depth a := by
  induction depth with
  | zero => exact fun _ h => absurd h not_settled_depthValue_zero
  | succ depth ih =>
    intro path a hpath hs
    have hmem : a ∉ path := fun h => (hpath a h).not_settled _ hs
    rw [pathValue_of_not_mem hmem]
    refine cellBy_congr fun b hb => ?_
    have hneeds := needs_of_scans (fun c x hx => ⟨depth, hx⟩) hb
    exact ih (needs_cons hpath hneeds) (settled_of_scans hb hs)

theorem cellBy_pathValue_nil (h : Settled (depthValue sheet depth a)) :
    cellBy (pathValue sheet []) sheet a = depthValue sheet depth a := by
  cases depth with
  | zero => exact absurd h not_settled_depthValue_zero
  | succ depth =>
    refine cellBy_congr fun b hb => ?_
    exact pathValue_eq_depthValue depth (List.forall_mem_nil _)
      (settled_of_scans hb h)

/-- **The naive values from the empty path solve the sheet**, where they are settled. -/
theorem cellBy_of_settled (h : Settled (pathValue sheet [] a)) :
    cellBy (pathValue sheet []) sheet a = pathValue sheet [] a := by
  have hdepth := depthValue_eq_pathValue _ h (Nat.lt_succ_self _)
  rw [← hdepth] at h ⊢
  exact cellBy_pathValue_nil h

/-- A cell that is settled by the naive values from the empty path has that naive value. -/
theorem pathValue_of_settled_cellBy (h : Settled (cellBy (pathValue sheet []) sheet a)) :
    pathValue sheet [] a = cellBy (pathValue sheet []) sheet a := by
  have hdepth : depthValue sheet (sheet.unvisited [] + 2) a =
      cellBy (pathValue sheet []) sheet a :=
    cellBy_congr fun b hb =>
      depthValue_eq_pathValue _ (settled_of_scans hb h) (Nat.lt_succ_self _)
  rw [← hdepth] at h ⊢
  exact pathValue_eq_depthValue _ (List.forall_mem_nil _) h

end PostfixSheet
