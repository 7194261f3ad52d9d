import PostfixSheet.Proofs.Faults
import PostfixSheet.Proofs.LeastValues
import PostfixSheet.Proofs.ReferenceGraph

/-!
# Circular references are the cycles of the reference graph

Circular references are found by the path alone. The cells of a path refer to one another one by one,
and the last of them refers to the cell that is looked up; so a cell that is looked up on a path that
holds it already lies on a cycle. For the converse no path is needed: a cell with a value has values
for all that it refers to, each to one less in depth, so references from it come to an end.

Results:
* `cyclic_of_pathValue`: a cell that is blamed for a cycle is reached, and lies on a cycle.
* `exists_value_of_refers`: a cell with a value has values for all that it refers to.
* `not_leadsToCycle_of_pathValue`: so no cycle is reached from it.
* `calculateCell_cyclic`: circular references are reported of cells on cycles only, and a cell from
  which a cycle is reached has no value.
-/

namespace PostfixSheet

variable {sheet : Sheet} {a b c : Address} {x : Float}

/-- **A cell that is blamed for a cycle is reached, and lies on a cycle**, if the path that led to the
cell is one of references. -/
theorem cyclic_of_pathValue {path : List Address} {a : Address}
    (hpath : ∀ p ∈ path, Relation.TransGen sheet.Refers p a)
    (h : pathValue sheet path a = .error (.cyclicReference c)) :
    sheet.Reaches a c ∧ sheet.OnCycle c := by
  by_cases ha : a ∈ path
  · rw [pathValue_of_mem ha] at h
    cases h
    exact ⟨.refl, hpath _ ha⟩
  · rw [pathValue_of_not_mem ha] at h
    obtain ⟨b, hb, hv⟩ := exists_scans_of_cyclic h
    have hab := hb.refers
    have hpath' : ∀ p ∈ a :: path, Relation.TransGen sheet.Refers p b := by
      intro p hp
      rcases List.mem_cons.mp hp with rfl | hp
      · exact .single hab
      · exact (hpath p hp).tail hab
    have : sheet.unvisited (a :: path) < sheet.unvisited path := by
      obtain ⟨raw, hraw⟩ := hb.inside
      exact Sheet.unvisited_cons_lt hraw ha
    obtain ⟨hbc, hc⟩ := cyclic_of_pathValue hpath' hv
    exact ⟨hbc.head hab, hc⟩
termination_by sheet.unvisited path

/-! ## Values exclude cycles -/

/-- **A cell with a value has values for all that it refers to.** -/
theorem exists_value_of_refers {value : Address → Except Fault Float}
    (h : cellBy value sheet a = .ok x) (hab : sheet.Refers a b) : ∃ y, value b = .ok y := by
  obtain ⟨tokens, hformula, token, htoken, htarget⟩ := refers_iff_formula.mp hab
  obtain ⟨r, rfl, hr⟩ := target?_eq_some_iff.mp htarget
  rw [cellBy_eq_bind, hformula] at h
  have h' : (substituteBy value tokens >>= reduce) = .ok x := h
  obtain ⟨numbers, hs, -⟩ := exists_of_bind_eq_ok h'
  obtain ⟨b', y, hb', hy⟩ := exists_value_of_substituteBy hs htoken
  rw [hr] at hb'
  cases hb'
  exact ⟨y, hy⟩

theorem not_leadsToCycle_of_depthValue (depth : Nat) : ∀ {a : Address} {x : Float},
    depthValue sheet depth a = .ok x → ¬ sheet.LeadsToCycle a := by
  induction depth with
  | zero => nofun
  | succ depth ih =>
    intro a x h hcycle
    obtain ⟨b, hab, hb⟩ := hcycle.exists_refers
    obtain ⟨y, hy⟩ := exists_value_of_refers h hab
    exact ih hy hb

/-- No cycle is reached from a cell with a value. -/
theorem not_leadsToCycle_of_pathValue (h : pathValue sheet [] a = .ok x) :
    ¬ sheet.LeadsToCycle a := by
  obtain ⟨depth, hdepth⟩ := exists_depthValue_of_pathValue h
  exact not_leadsToCycle_of_depthValue depth hdepth

/-! ## Evaluation -/

/-- A cell that an evaluation blames for a cycle is reached from the evaluated one, and lies on a
cycle. -/
theorem cyclic_of_calculateCell {policy : Policy}
    (h : calculateCell sheet a policy = .error (.cyclicReference c)) :
    sheet.Reaches a c ∧ sheet.OnCycle c := by
  rw [calculateCell_eq_naive] at h
  cases hraw : sheet.get? a with
  | none =>
    rw [hraw] at h
    cases h
  | some raw =>
    simp only [hraw, Call.naive, Call.valueBy_eq, Call.tokens] at h
    -- the evaluated cell is not on the path itself: its references are looked up off any path
    obtain ⟨b, hb, hv⟩ := exists_scanned_of_cyclic h
    obtain ⟨token, htoken, htarget⟩ := hb.exists_mem
    obtain ⟨r, rfl, hr⟩ := target?_eq_some_iff.mp htarget
    obtain ⟨hbc, hc⟩ := cyclic_of_pathValue (List.forall_mem_nil _) hv
    exact ⟨hbc.head ⟨raw, r, hraw, htoken, hr⟩, hc⟩

/-- **Cycle detection is sound and misses nothing**, under both policies: a cell that is blamed for a
cycle is reached from the evaluated one and lies on a cycle, and a cell from which any cycle is reached
has a fault and no value. -/
theorem calculateCell_cyclic (sheet : Sheet) (a : Address) (policy : Policy) :
    (∀ c, calculateCell sheet a policy = .error (.cyclicReference c) →
        sheet.Reaches a c ∧ sheet.OnCycle c) ∧
      (sheet.LeadsToCycle a → ∃ fault, calculateCell sheet a policy = .error fault) := by
  refine ⟨fun c h => cyclic_of_calculateCell h, fun hcycle => ?_⟩
  cases h : calculateCell sheet a policy with
  | ok x =>
    rw [calculateCell_eq_ok_iff] at h
    exact absurd hcycle (not_leadsToCycle_of_pathValue h)
  | error fault => exact ⟨fault, rfl⟩

/-- The evaluated cell is not on the path, so it is not the first one to come back. -/
theorem calculateCell_cyclic_two_cells :
    calculateCell ⟨[["B1", "A1"]]⟩ ⟨0, 0⟩ .rewalk = .error (.cyclicReference ⟨0, 1⟩) ∧
      Sheet.Reaches ⟨[["B1", "A1"]]⟩ ⟨0, 0⟩ ⟨0, 1⟩ ∧ Sheet.OnCycle ⟨[["B1", "A1"]]⟩ ⟨0, 1⟩ :=
  ⟨rfl, (calculateCell_cyclic _ _ .rewalk).1 _ rfl⟩

end PostfixSheet
