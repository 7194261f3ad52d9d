import PostfixSheet.Proofs.Sessions

/-!
# Stale states

A state may have been used on other sheets, so that its completed cells are any cells at all: ones
that have changed, that are on a cycle, or that the sheet does not have. If completed cells are walked
once more, this does no harm. Such a walk starts from a new state and so comes to the naive value from
the empty path, while the cell would otherwise have come to its naive value on the path that led to
it. Both are what the cell is settled to, and if it is not settled, both are circular references; only
the cell that is blamed depends on the path.

Results:
* `cellBy_alike_pathValue`: to evaluate the text of a cell off any path is to look the cell up there,
  but for the cell that is blamed for a cycle.
* `resolveAt_stale`: from a stale state a cell that the path needs comes to its naive value, but for
  the cell that is blamed for a cycle.
* `run_stale_alike_new`: so a call from a stale state returns what it does from a new one.
-/

namespace PostfixSheet

/-- The same fault, or circular references both, whatever cells they blame. -/
def Fault.SameUpToCycle (e f : Fault) : Prop :=
  e = f ∨ (∃ a, e = .cyclicReference a) ∧ ∃ b, f = .cyclicReference b

theorem Fault.SameUpToCycle.refl (e : Fault) : e.SameUpToCycle e := Or.inl rfl

theorem Fault.SameUpToCycle.trans (e f g : Fault) (hef : e.SameUpToCycle f)
    (hfg : f.SameUpToCycle g) : e.SameUpToCycle g := by
  rcases hef with rfl | ⟨he, hf⟩
  · exact hfg
  · rcases hfg with rfl | ⟨-, hg⟩
    · exact Or.inr ⟨he, hf⟩
    · exact Or.inr ⟨he, hg⟩

theorem exists_cyclic_of_not_settled {r : Except Fault Float} (h : ¬ Settled r) :
    ∃ a, r = .error (.cyclicReference a) := by
  simpa [Settled] using h

/-- Results that are equal as soon as one of them is settled are alike. -/
theorem alike_of_settled {r t : Except Fault Float} (hr : Settled r → r = t)
    (ht : Settled t → r = t) : Alike Fault.SameUpToCycle r t := by
  by_cases hsr : Settled r
  · exact hr hsr ▸ .refl Fault.SameUpToCycle.refl r
  by_cases hst : Settled t
  · exact ht hst ▸ .refl Fault.SameUpToCycle.refl r
  obtain ⟨a, rfl⟩ := exists_cyclic_of_not_settled hsr
  obtain ⟨b, rfl⟩ := exists_cyclic_of_not_settled hst
  exact .error (Or.inr ⟨⟨a, rfl⟩, b, rfl⟩)

variable {sheet : Sheet} {path : List Address} {a : Address}

theorem cellBy_alike_pathValue (sheet : Sheet) (a : Address) :
    Alike Fault.SameUpToCycle (cellBy (pathValue sheet []) sheet a) (pathValue sheet [] a) :=
  alike_of_settled (fun h => (pathValue_of_settled_cellBy h).symm) cellBy_of_settled

/-- A cell that a path needs and that is on it is a circular reference from the empty path, too. -/
theorem pathValue_nil_of_mem (hpath : ∀ p ∈ path, Needs sheet p a) (ha : a ∈ path) :
    Alike Fault.SameUpToCycle (.error (.cyclicReference a)) (pathValue sheet [] a) := by
  refine alike_of_settled (fun h => absurd rfl (h a)) fun h => ?_
  have hdepth := depthValue_eq_pathValue _ h (Nat.lt_succ_self _)
  exact absurd (hdepth ▸ h) ((hpath a ha).not_settled _)

/-- A state on a path from which completed cells are walked once more. -/
def Rewalks (path : List Address) (_ : Unit) (s : State) : Prop :=
  s.policy = .rewalk ∧ s.path = path

theorem Rewalks.cached? {s : State} (h : Rewalks path () s) : s.cached? a = none := by
  rw [State.cached?, h.1]

/-- **From a stale state the cells that the path needs come to their naive values**, but for the cell
that is blamed for a cycle. -/
theorem resolveAt_stale (sheet : Sheet) : ∀ (depth : Nat) (path : List Address) (a : Address),
    (∀ p ∈ path, Needs sheet p a) → sheet.unvisited path + sheet.cellCount + 2 ≤ depth →
      ComesTo Fault.SameUpToCycle (Rewalks path) (resolveAt (contentWithin sheet depth) a)
        (pathValue sheet [] a)
  | 0, _, _, _, hle => absurd hle (by omega)
  | depth + 1, path, a, hpath, hle => by
    refine fun _ => ⟨(), fun s hs => ?_⟩
    cases hc : s.isCompleted a with
    | true =>
      -- such a cell may be on the path, or no cell at all: the walk from a new state asks nothing
      have henough : ∀ b, Needs sheet a b → Enough sheet [] depth b := fun b _ =>
        Or.inr (by rw [Sheet.unvisited_nil]; omega)
      obtain ⟨t, hw⟩ := contentWithin_new (resolveAt_comesTo sheet depth) a henough s.policy
      exact ⟨_, s, resolveAt_rewalk hc hs.cached? hw, cellBy_alike_pathValue sheet a, hs⟩
    | false =>
      cases hp : s.isInProgress a with
      | true =>
        have ha : a ∈ path := by
          rwa [State.isInProgress, hs.2, List.contains_iff_mem] at hp
        exact ⟨_, s, resolveAt_cyclic hc hp, pathValue_nil_of_mem hpath ha, hs⟩
      | false =>
        have ha : a ∉ path := by
          rw [← List.contains_iff_mem, ← hs.2, Bool.not_eq_true]
          exact hp
        have hcontent : ComesTo Fault.SameUpToCycle (Rewalks (a :: path))
            (contentWithin sheet (depth + 1) a) (cellBy (pathValue sheet []) sheet a) := by
          refine contentWithin_comesTo Fault.SameUpToCycle.refl fun b hb => ?_
          have hneeds := needs_of_scans (fun _ _ => exists_depthValue_of_pathValue) hb
          obtain ⟨raw, hraw⟩ := hb.inside
          have hlt := Sheet.unvisited_cons_lt hraw ha
          exact resolveAt_stale sheet depth _ b (needs_cons hpath hneeds) (by omega)
        obtain ⟨_, hall⟩ := hcontent ()
        obtain ⟨r, t, hw, hr, ht⟩ := hall (s.enter a) ⟨hs.1, congrArg (a :: ·) hs.2⟩
        refine ⟨r, _, resolveAt_enter hc hp hw,
          Alike.trans Fault.SameUpToCycle.trans hr (cellBy_alike_pathValue sheet a), ?_⟩
        have hleave : (t.leave a).path = path := by
          rw [State.leave, ht.2, List.erase_cons_head]
        cases r with
        | ok x => exact ⟨ht.1, hleave⟩
        | error e => exact ⟨ht.1, hleave⟩

/-- **A stale state is harmless** if completed cells are walked once more: whatever cells it counts as
completed, a call returns the value that it returns from a new state, or the same fault, but for the
cell that is blamed for a cycle. -/
theorem run_stale_alike_new (sheet : Sheet) (completed : List Address)
    (values : List (Address × Float)) (call : Call) :
    Alike Fault.SameUpToCycle (call.run sheet ⟨.rewalk, [], completed, values⟩).1
      (call.run sheet (State.new .rewalk)).1 := by
  have h : ∀ a, Scanned (pathValue sheet []) call.tokens a →
      ComesTo Fault.SameUpToCycle (Rewalks [])
        (resolveAt (contentWithin sheet (depthBound sheet)) a) (pathValue sheet [] a) := by
    intro a _
    refine resolveAt_stale sheet _ [] a (List.forall_mem_nil _) ?_
    rw [Sheet.unvisited_nil, depthBound]
    omega
  obtain ⟨_, hall⟩ := call.run_comesTo Fault.SameUpToCycle.refl h ()
  rw [call.run_new sheet .rewalk]
  exact (hall ⟨.rewalk, [], completed, values⟩ ⟨rfl, rfl⟩).1

end PostfixSheet
