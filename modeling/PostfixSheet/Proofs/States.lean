import PostfixSheet.Proofs.Paths
import PostfixSheet.Proofs.Walks

/-!
# What states know

A state that was used on one sheet alone knows nothing wrong: each completed cell has a value, and the
values that were kept are those. Such a state is `Sound`. Looking up a completed cell skips the check
against the path, and that is sound because a cell with a value is never led to by a path that it
leads back to (`pathValue_eq_depthValue`).

Results:
* `resolveAt_comesTo`: from every sound state, whatever is completed in it and however completed
  cells are read again, a cell that the path needs comes to its naive value. Two sound states with
  the same completed cells complete the same cells. The depth at which contents nest is bounded by
  the number of cells.
* `contentWithin_new`: so a cell that is walked once more, from a new state, comes to what its text is
  worth naively.
-/

namespace PostfixSheet

/-- A state on a path, with completed cells that all have values and with these kept, if any. -/
structure Sound (sheet : Sheet) (path completed : List Address) (s : State) : Prop where
  path_eq : s.path = path
  completed_eq : s.completed = completed
  settled : ∀ a ∈ completed, ∃ x, pathValue sheet [] a = .ok x
  kept : ∀ a, s.values.lookup a =
    if s.policy = .cache ∧ a ∈ completed then (pathValue sheet [] a).toOption else none

variable {sheet : Sheet} {path completed : List Address} {a : Address} {s : State} {x : Float}

theorem sound_new (sheet : Sheet) (policy : Policy) : Sound sheet [] [] (State.new policy) where
  path_eq := rfl
  completed_eq := rfl
  settled := List.forall_mem_nil _
  kept := fun a => by simp [State.new]

namespace Sound

theorem isCompleted_iff (h : Sound sheet path completed s) :
    s.isCompleted a = true ↔ a ∈ completed := by
  rw [State.isCompleted, h.completed_eq, List.contains_iff_mem]

theorem isInProgress_iff (h : Sound sheet path completed s) :
    s.isInProgress a = true ↔ a ∈ path := by
  rw [State.isInProgress, h.path_eq, List.contains_iff_mem]

/-- What was kept of a completed cell is its value. -/
theorem eq_of_cached? (h : Sound sheet path completed s) (hx : pathValue sheet [] a = .ok x)
    {y : Float} (hy : s.cached? a = some y) : y = x := by
  unfold State.cached? at hy
  split at hy
  · cases hy
  · rw [h.kept, hx] at hy
    split at hy
    · exact (Option.some.inj hy).symm
    · cases hy

theorem enter (h : Sound sheet path completed s) (a : Address) :
    Sound sheet (a :: path) completed (s.enter a) where
  path_eq := congrArg (a :: ·) h.path_eq
  completed_eq := h.completed_eq
  settled := h.settled
  kept := h.kept

theorem leave (h : Sound sheet (a :: path) completed s) :
    Sound sheet path completed (s.leave a) where
  path_eq := by rw [State.leave, h.path_eq, List.erase_cons_head]
  completed_eq := h.completed_eq
  settled := h.settled
  kept := h.kept

/-- Completing a cell with its value keeps a state sound. -/
theorem complete (h : Sound sheet path completed s) (hx : pathValue sheet [] a = .ok x) :
    Sound sheet path (a :: completed) (s.complete a x) where
  path_eq := h.path_eq
  completed_eq := congrArg (a :: ·) h.completed_eq
  settled := by
    intro b hb
    rcases List.mem_cons.mp hb with rfl | hb
    · exact ⟨x, hx⟩
    · exact h.settled b hb
  kept := by
    intro b
    have hold := h.kept b
    obtain ⟨policy, p, c, values⟩ := s
    cases policy with
    | rewalk => simpa [State.complete] using hold
    | cache =>
      simp only [State.complete, List.lookup_cons]
      by_cases hb : b = a
      · subst hb
        simp [hx, Except.toOption]
      · have hne : (b == a) = false := beq_eq_false_iff_ne.mpr hb
        simpa [hb, hne] using hold

end Sound

/-! ## Looking up from sound states -/

/-- A cell with a value has it on every path that needs the cell. -/
theorem pathValue_of_nil (hpath : ∀ p ∈ path, Needs sheet p a)
    (hx : pathValue sheet [] a = .ok x) : pathValue sheet path a = .ok x := by
  obtain ⟨depth, hdepth⟩ := exists_depthValue_of_pathValue hx
  rw [pathValue_eq_depthValue depth hpath (hdepth ▸ settled_ok x), hdepth]

/-- A cell that has a value somewhere has it on the empty path. -/
theorem pathValue_nil (hx : pathValue sheet path a = .ok x) : pathValue sheet [] a = .ok x := by
  obtain ⟨depth, hdepth⟩ := exists_depthValue_of_pathValue hx
  rw [pathValue_eq_depthValue depth (List.forall_mem_nil _)
    (hdepth ▸ settled_ok x), hdepth]

/-- The depth is enough for a cell on a path: it is settled to it, or cells off the path are fewer. -/
def Enough (sheet : Sheet) (path : List Address) (depth : Nat) (a : Address) : Prop :=
  Settled (depthValue sheet depth a) ∨ sheet.unvisited path < depth

/-- What is enough for a cell that is entered leaves enough for the cells that it looks up. -/
theorem Enough.enter {depth : Nat} {b : Address} (h : Enough sheet path (depth + 1) a)
    (hmem : a ∉ path) (hneeds : Needs sheet a b) (hraw : ∃ raw, sheet.get? a = some raw) :
    Enough sheet (a :: path) depth b := by
  refine h.imp (hneeds depth) fun hlt => ?_
  obtain ⟨raw, hraw⟩ := hraw
  have := Sheet.unvisited_cons_lt hraw hmem
  omega

/-- Looking up from sound states on the path, cells to the depth come to their naive values. -/
def Faithful (sheet : Sheet) (depth : Nat) : Prop :=
  ∀ (path : List Address) (a : Address), (∀ p ∈ path, Needs sheet p a) →
    Enough sheet path depth a →
      ComesTo (· = ·) (Sound sheet path) (resolveAt (contentWithin sheet depth) a)
        (pathValue sheet path a)

/-- A content comes to its naive value if its references do. -/
theorem contentWithin_comesTo_path {depth : Nat} (ih : Faithful sheet depth)
    (path : List Address) (a : Address)
    (h : ∀ b, Needs sheet a b → (∃ raw, sheet.get? a = some raw) →
      (∀ p ∈ path, Needs sheet p b) ∧ Enough sheet path depth b) :
    ComesTo (· = ·) (Sound sheet path) (contentWithin sheet (depth + 1) a)
      (cellBy (pathValue sheet path) sheet a) := by
  refine contentWithin_comesTo (fun _ => rfl) fun b hb => ?_
  obtain ⟨hpath, henough⟩ :=
    h b (needs_of_scans (fun _ _ => exists_depthValue_of_pathValue) hb) hb.inside
  exact ih path b hpath henough

/-- **A cell that is walked from a new state comes to what its text is worth naively.** -/
theorem contentWithin_new {depth : Nat} (ih : Faithful sheet depth) (a : Address)
    (h : ∀ b, Needs sheet a b → Enough sheet [] depth b) (policy : Policy) :
    ∃ t, contentWithin sheet (depth + 1) a (State.new policy) =
      .done (cellBy (pathValue sheet []) sheet a) t := by
  have hcontent := contentWithin_comesTo_path ih [] a fun b hb _ =>
    ⟨List.forall_mem_nil _, h b hb⟩
  obtain ⟨completed, hall⟩ := comesTo_eq_iff.mp hcontent []
  obtain ⟨t, hw, -⟩ := hall _ (sound_new sheet policy)
  exact ⟨t, hw⟩

/-- A completed cell comes to its value, and the state stays as it is. -/
theorem resolveAt_of_completed {depth : Nat} (ih : Faithful sheet depth)
    (hpath : ∀ p ∈ path, Needs sheet p a) (henough : Enough sheet path (depth + 1) a)
    (hs : Sound sheet path completed s) (ha : a ∈ completed) :
    resolveAt (contentWithin sheet (depth + 1)) a s = .done (pathValue sheet path a) s := by
  obtain ⟨x, hx⟩ := hs.settled a ha
  have hx' := pathValue_of_nil hpath hx
  have hc := hs.isCompleted_iff.mpr ha
  rw [hx']
  cases hkept : s.cached? a with
  | some y =>
    rw [resolveAt_kept hc hkept, hs.eq_of_cached? hx hkept]
  | none =>
    have hdepth : depthValue sheet (depth + 1) a = .ok x := by
      rcases henough with h | h
      · rw [← pathValue_eq_depthValue _ hpath h, hx']
      · rw [depthValue_eq_pathValue _ (hx' ▸ settled_ok x) h, hx']
    have hsettled : Settled (depthValue sheet (depth + 1) a) := hdepth ▸ settled_ok x
    obtain ⟨t, hw⟩ := contentWithin_new ih a (fun b hb => Or.inl (hb depth hsettled)) s.policy
    rw [cellBy_pathValue_nil hsettled, hdepth] at hw
    exact resolveAt_rewalk hc hkept hw

/-- **From sound states the cells that the path needs come to their naive values**, if the depth is
enough. -/
theorem resolveAt_comesTo (sheet : Sheet) : ∀ depth, Faithful sheet depth
  | 0 => by
    intro path a _ henough
    rcases henough with h | h
    · exact absurd h not_settled_depthValue_zero
    · exact absurd h (Nat.not_lt_zero _)
  | depth + 1 => by
    intro path a hpath henough
    have ih := resolveAt_comesTo sheet depth
    refine comesTo_eq_iff.mpr fun completed => ?_
    by_cases ha : a ∈ completed
    · exact ⟨completed, fun s hs => ⟨s, resolveAt_of_completed ih hpath henough hs ha, hs⟩⟩
    have hnc : ∀ {s}, Sound sheet path completed s → s.isCompleted a = false := fun hs => by
      rw [Bool.eq_false_iff, ne_eq, hs.isCompleted_iff]
      exact ha
    by_cases hp : a ∈ path
    · refine ⟨completed, fun s hs => ⟨s, ?_, hs⟩⟩
      rw [pathValue_of_mem hp]
      exact resolveAt_cyclic (hnc hs) (hs.isInProgress_iff.mpr hp)
    have hnp : ∀ {s}, Sound sheet path completed s → s.isInProgress a = false := fun hs => by
      rw [Bool.eq_false_iff, ne_eq, hs.isInProgress_iff]
      exact hp
    -- the cell is entered: its content is walked on the path that it makes longer
    have hcontent := contentWithin_comesTo_path ih (a :: path) a fun b hb hraw =>
      ⟨needs_cons hpath hb, henough.enter hp hb hraw⟩
    rw [← pathValue_of_not_mem hp] at hcontent
    obtain ⟨learned, hall⟩ := comesTo_eq_iff.mp hcontent completed
    cases hv : pathValue sheet path a with
    | ok x =>
      refine ⟨a :: learned, fun s hs => ?_⟩
      obtain ⟨t, hw, ht⟩ := hall _ (hs.enter a)
      rw [hv] at hw
      exact ⟨_, resolveAt_enter (hnc hs) (hnp hs) hw, ht.leave.complete (pathValue_nil hv)⟩
    | error e =>
      refine ⟨learned, fun s hs => ?_⟩
      obtain ⟨t, hw, ht⟩ := hall _ (hs.enter a)
      rw [hv] at hw
      exact ⟨_, resolveAt_enter (hnc hs) (hnp hs) hw, ht.leave⟩

end PostfixSheet
