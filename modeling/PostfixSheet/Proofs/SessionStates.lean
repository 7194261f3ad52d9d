import PostfixSheet.Proofs.Cycles
import PostfixSheet.Proofs.Learning

/-!
# The states of a session

What holds between the calls of a session on one sheet, whatever the calls were and whether they came to
values or faults. That completed cells have values and that these are kept is what makes a state sound;
that their references are completed, too, is how a state grows.

* `State.Consistent` is the invariant.

Results:
* `Knows.of_reaches`: a state that knows the references of some tokens knows all that these reach.
* `session_consistent`: the states of a session are consistent with the sheet, and after a value all that
  is reached from the references of a call is completed.
-/

namespace PostfixSheet

/-- **The state agrees with the sheet**: no cell is in progress, the completed cells have values and are
closed under references, and the values that are kept are theirs. -/
structure State.Consistent (s : State) (sheet : Sheet) : Prop where
  path_nil : s.path = []
  /-- A completed cell is in the sheet, has a formula, and all its references are completed. -/
  closed : ∀ a, s.isCompleted a = true →
    ∃ raw, sheet.get? a = some raw ∧ Content.classify raw ≠ .other ∧
      ∀ r, Token.reference r ∈ tokenize raw → ∃ b, r.address = some b ∧ s.isCompleted b = true
  /-- No cycle is reached from it. -/
  acyclic : ∀ a, s.isCompleted a = true → ¬ sheet.LeadsToCycle a
  /-- It has a value from any new state, and that is the one that is kept. -/
  value : ∀ a, s.isCompleted a = true → ∃ x,
    (∀ name policy, (resolve sheet ⟨name, some a⟩ (State.new policy)).1 = .ok x) ∧
      (s.policy = .cache → s.values.lookup a = some x)
  /-- Values are kept of completed cells alone. -/
  keys : s.policy = .cache → ∀ a, a ∈ s.values.map Prod.fst ↔ s.isCompleted a = true
  /-- No values are kept of cells that are walked once more. -/
  rewalk : s.policy = .rewalk → s.values = []

variable {sheet : Sheet} {policy : Policy} {s : State} {a b : Address} {tokens : List Token}

/-- A reference to a cell comes to its naive value from a new state. -/
theorem resolve_new (sheet : Sheet) (name : String) (a : Address) (policy : Policy) :
    (resolve sheet ⟨name, some a⟩ (State.new policy)).1 = pathValue sheet [] a :=
  (Call.resolve ⟨name, some a⟩).run_new sheet policy

/-! ## Completed cells are closed under references -/

/-- All references of completed cells are completed. -/
def State.Closed (s : State) (sheet : Sheet) : Prop :=
  ∀ a ∈ s.completed, ∃ tokens, sheet.formula a = .ok tokens ∧ s.Knows tokens

theorem Grows.closed {t : State} (h : Grows sheet s t) (hs : s.Closed sheet) : t.Closed sheet := by
  intro a ha
  by_cases hold : a ∈ s.completed
  · obtain ⟨tokens, hformula, hknows⟩ := hs a hold
    exact ⟨tokens, hformula, h.knows hknows⟩
  · exact h.exists_formula ha hold

theorem State.Closed.of_refers (hs : s.Closed sheet) (ha : a ∈ s.completed)
    (hab : sheet.Refers a b) : b ∈ s.completed := by
  obtain ⟨tokens, hformula, hknows⟩ := hs a ha
  obtain ⟨tokens', hformula', token, htoken, htarget⟩ := refers_iff_formula.mp hab
  rw [hformula] at hformula'
  cases hformula'
  obtain ⟨r, rfl, hr⟩ := target?_eq_some_iff.mp htarget
  exact hknows.mem htoken hr

/-- **All that is reached from a completed cell is completed.** -/
theorem State.Closed.of_reaches (hs : s.Closed sheet) (ha : a ∈ s.completed)
    (hab : sheet.Reaches a b) : b ∈ s.completed := by
  induction hab with
  | refl => exact ha
  | tail _ hstep ih => exact hs.of_refers ih hstep

/-! ## Sessions -/

/-- A sound state that is closed and has the keys of its completed cells is consistent. -/
theorem Sound.consistent {completed : List Address} (h : Sound sheet [] completed s)
    (hclosed : s.Closed sheet) (hkeys : s.HasKeys) : s.Consistent sheet where
  path_nil := h.path_eq
  closed := by
    intro a ha
    obtain ⟨tokens, hformula, hknows⟩ := hclosed a (State.isCompleted_iff_mem.mp ha)
    obtain ⟨raw, hraw, hc, rfl⟩ := formula_eq_ok_iff.mp hformula
    refine ⟨raw, hraw, hc, fun r hr => ?_⟩
    obtain ⟨b, hb, hmem⟩ := hknows r hr
    exact ⟨b, hb, State.isCompleted_iff_mem.mpr hmem⟩
  acyclic := by
    intro a ha
    obtain ⟨x, hx⟩ := h.settled a (h.isCompleted_iff.mp ha)
    exact not_leadsToCycle_of_pathValue hx
  value := by
    intro a ha
    have hmem := h.isCompleted_iff.mp ha
    obtain ⟨x, hx⟩ := h.settled a hmem
    refine ⟨x, fun name policy => (resolve_new sheet name a policy).trans hx, fun hpolicy => ?_⟩
    rw [h.kept, if_pos ⟨hpolicy, hmem⟩, hx]
    rfl
  keys := by
    intro hpolicy a
    rw [State.HasKeys, hpolicy] at hkeys
    rw [hkeys, State.isCompleted_iff_mem]
  rewalk := by
    intro hpolicy
    rwa [State.HasKeys, hpolicy] at hkeys

/-- The state after a session from a new state. -/
def stateAfter (sheet : Sheet) (policy : Policy) (history : List Call) : State :=
  (session sheet history (State.new policy)).2

/-- **The states of a session are consistent with the sheet**, under the policy that it began with, after
any calls and whatever these came to; and after a value all that is reached from the references of a call
is completed. -/
theorem session_consistent (sheet : Sheet) (policy : Policy) (history : List Call) :
    (stateAfter sheet policy history).policy = policy ∧
      (stateAfter sheet policy history).Consistent sheet ∧
        ∀ (call : Call) (x : Float), (call.run sheet (stateAfter sheet policy history)).1 = .ok x →
          ∀ r a b, Token.reference r ∈ call.tokens → r.address = some a → sheet.Reaches a b →
            (call.run sheet (stateAfter sheet policy history)).2.isCompleted b = true := by
  have hgrows : Grows sheet (State.new policy) (stateAfter sheet policy history) :=
    session_grows sheet history (State.new policy)
  have hclosed : (stateAfter sheet policy history).Closed sheet :=
    hgrows.closed (List.forall_mem_nil _)
  obtain ⟨completed, hall⟩ := session_of_sound sheet history []
  have hsound : Sound sheet [] completed (stateAfter sheet policy history) :=
    (hall _ (sound_new sheet policy)).2
  refine ⟨hgrows.policy_eq, hsound.consistent hclosed (hgrows.hasKeys (hasKeys_new policy)), ?_⟩
  intro call x hx r a b hr ha hab
  obtain ⟨hcall, hknows⟩ := run_grows sheet call (stateAfter sheet policy history)
  have hmem := (hcall.closed hclosed).of_reaches ((hknows x hx).mem hr ha) hab
  exact State.isCompleted_iff_mem.mpr hmem

/-- A reference to the second cell completes the first one, though a call for a cell outside has failed
before. -/
theorem session_consistent_two_cells :
    (resolve ⟨[["1", "A1"]]⟩ ⟨"B1", some ⟨0, 1⟩⟩ (stateAfter ⟨[["1", "A1"]]⟩ .cache
      [.resolve ⟨"C1", some ⟨0, 2⟩⟩])).2.isCompleted ⟨0, 0⟩ = true := by
  have hrefers : Sheet.Refers ⟨[["1", "A1"]]⟩ ⟨0, 1⟩ ⟨0, 0⟩ :=
    ⟨"A1", ⟨"A1", some ⟨0, 0⟩⟩, rfl, List.mem_singleton.mpr rfl, rfl⟩
  exact (session_consistent ⟨[["1", "A1"]]⟩ .cache [.resolve ⟨"C1", some ⟨0, 2⟩⟩]).2.2
    (.resolve ⟨"B1", some ⟨0, 1⟩⟩) _ rfl _ ⟨0, 1⟩ ⟨0, 0⟩ (List.mem_singleton.mpr rfl) rfl
    (.single hrefers)

end PostfixSheet
