import PostfixSheet.Proofs.Learning

/-!
# What calls leave behind

A call puts cells on the path and takes them off again, however it ends. What it leaves behind is that
more cells are completed, and none of them is one that was on the path or completed before. So a state
that keeps values keeps one value of a cell for good: a completed cell is read from what was kept and
never walked again, whatever later sheets hold there.

* `stateAcross` is the state after calls that are each made on a sheet of its own.
* `State.KeepsOnce` says that a state has kept one value of each completed cell.

Results:
* `resolve_completes_iff`: a cell that was not completed is completed exactly by coming to a value.
* `run_unwinds`: what a call changes of a state, whatever is in it.
* `Grows.keepsOnce`, `Grows.lookup_values`: completing cells never writes over a value.
* `resolve_of_kept`, `lookup_of_resolve`: a value that was kept is returned, and one that was returned
  was kept.
* `kept_across`, `stateAcross_writes_once`: so values are kept once, across any number of sheets.
-/

namespace PostfixSheet

variable {sheet : Sheet} {s t : State} {a : Address} {r : Reference} {x : Float}

/-! ## One call from any state -/

/-- A cell that was not completed is completed exactly by coming to a value. -/
theorem resolveAt_completes_iff {content : Address → State → Walk Float}
    {result : Except Fault Float} (hcontent : ContentTeaches sheet content)
    (h : resolveAt content a s = .done result t) (ha : a ∉ s.completed) :
    a ∈ t.completed ↔ ∃ x, result = .ok x := by
  constructor
  · intro hmem
    rw [resolveAt_eq_done_iff] at h
    cases h with
    | kept hc hx => exact absurd hmem ha
    | rewalked hc hx h => exact absurd hmem ha
    | cyclic hc hp => exact absurd hmem ha
    | found hc hp h => exact ⟨_, rfl⟩
    | @failed e u hc hp h =>
      -- the cell was on the path all the while, so no walk has completed it
      obtain ⟨hgrows, -⟩ := hcontent a _ _ u h
      exact absurd List.mem_cons_self (hgrows.not_mem_path hmem ha)
  · rintro ⟨x, rfl⟩
    exact (resolveAt_grows hcontent h).2 x rfl

/-- A reference with an address looks at the cell there. -/
theorem resolve_of_address (sheet : Sheet) (hr : r.address = some a) (s : State) :
    resolve sheet r s = (resolveAt (contentWithin sheet (depthBound sheet)) a s).settle s := by
  rw [resolve, resolveWith, hr]

/-- **A reference completes its cell exactly by coming to a value**, if the cell was not completed. -/
theorem resolve_completes_iff (sheet : Sheet) (hr : r.address = some a) (ha : a ∉ s.completed) :
    a ∈ (resolve sheet r s).2.completed ↔ ∃ x, (resolve sheet r s).1 = .ok x := by
  rw [resolve_of_address sheet hr]
  cases h : resolveAt (contentWithin sheet (depthBound sheet)) a s with
  | done result t => exact resolveAt_completes_iff (contentWithin_grows sheet _) h ha
  | cutOff cell =>
    refine iff_of_false ha ?_
    rintro ⟨x, hx⟩
    cases hx

/-- **Every call unwinds its path**, from any state and however it ends: path and policy are as before,
what is completed stays so, and what is completed newly is in the sheet and was not in progress. A
reference to a cell that was not completed completes it exactly by coming to a value. -/
theorem run_unwinds (sheet : Sheet) (call : Call) (s : State) :
    (call.run sheet s).2.path = s.path ∧ (call.run sheet s).2.policy = s.policy ∧
      (∀ a, s.isCompleted a = true → (call.run sheet s).2.isCompleted a = true) ∧
      (∀ a, (call.run sheet s).2.isCompleted a = true → s.isCompleted a = false →
        (∃ raw, sheet.get? a = some raw) ∧ s.isInProgress a = false) ∧
      ∀ r a, call = .resolve r → r.address = some a → s.isCompleted a = false →
        ((call.run sheet s).2.isCompleted a = true ↔ ∃ x, (call.run sheet s).1 = .ok x) := by
  have hgrows : Grows sheet s (call.run sheet s).2 := (run_grows sheet call s).1
  simp only [State.isCompleted_iff_mem, ← Bool.not_eq_true, State.isInProgress_iff_mem]
  refine ⟨hgrows.path_eq, hgrows.policy_eq, fun a => hgrows.mem_completed, fun a ha hs => ?_, ?_⟩
  · obtain ⟨tokens, hformula, -⟩ := hgrows.exists_formula ha hs
    exact ⟨get?_of_formula hformula, hgrows.not_mem_path ha hs⟩
  · rintro r a rfl hr ha
    exact resolve_completes_iff sheet hr ha

/-- From a state with the first cell in progress, a reference to the second one comes back to the first and
fails; the first cell alone is in progress again, and the second one is not completed. -/
theorem run_unwinds_from_inside :
    (resolve ⟨[["B1", "A1"]]⟩ ⟨"B1", some ⟨0, 1⟩⟩ ⟨.cache, [⟨0, 0⟩], [], []⟩).2.path = [⟨0, 0⟩] ∧
      (resolve ⟨[["B1", "A1"]]⟩ ⟨"B1", some ⟨0, 1⟩⟩ ⟨.cache, [⟨0, 0⟩], [], []⟩).2.isCompleted
        ⟨0, 1⟩ = false := by
  obtain ⟨hpath, -, -, -, hcompletes⟩ := run_unwinds ⟨[["B1", "A1"]]⟩
    (.resolve ⟨"B1", some ⟨0, 1⟩⟩) ⟨.cache, [⟨0, 0⟩], [], []⟩
  refine ⟨hpath, Bool.eq_false_iff.mpr fun hcompleted => ?_⟩
  obtain ⟨x, hx⟩ := (hcompletes _ _ rfl rfl rfl).mp hcompleted
  have hcyclic : (resolve ⟨[["B1", "A1"]]⟩ ⟨"B1", some ⟨0, 1⟩⟩ ⟨.cache, [⟨0, 0⟩], [], []⟩).1 =
      .error (.cyclicReference ⟨0, 0⟩) := rfl
  cases hcyclic.symm.trans hx

/-! ## Values that are kept -/

/-- **One value was kept of each completed cell**, and no cell is in progress. -/
structure State.KeepsOnce (s : State) : Prop where
  policy_eq : s.policy = .cache
  path_nil : s.path = []
  /-- The cells of which values were kept are the completed ones. -/
  keys_eq : s.values.map Prod.fst = s.completed
  /-- No value was written over another. -/
  nodup : (s.values.map Prod.fst).Nodup

theorem keepsOnce_new : (State.new .cache).KeepsOnce := ⟨rfl, rfl, rfl, List.nodup_nil⟩

/-- What was kept of a completed cell is read from the state. -/
theorem State.KeepsOnce.cached?_eq (hs : s.KeepsOnce) (a : Address) :
    s.cached? a = s.values.lookup a := by
  rw [State.cached?, hs.policy_eq]

theorem State.KeepsOnce.exists_lookup (hs : s.KeepsOnce) (ha : a ∈ s.completed) :
    ∃ x, s.values.lookup a = some x := by
  rw [← hs.keys_eq] at ha
  obtain ⟨entry, hentry, rfl⟩ := List.mem_map.mp ha
  rw [← Option.isSome_iff_exists, List.lookup_isSome_iff]
  exact ⟨entry, hentry, beq_self_eq_true _⟩

namespace Grows

/-- Completing cells one by one completes none of them twice. -/
theorem nodup_completed (h : Grows sheet s t) (hs : s.completed.Nodup) : t.completed.Nodup := by
  induction h with
  | refl => exact hs
  | tail _ hstep ih =>
    cases hstep with
    | complete x hnew => exact List.nodup_cons.mpr ⟨hnew, ih⟩

theorem keepsOnce (h : Grows sheet s t) (hs : s.KeepsOnce) : t.KeepsOnce := by
  have hpolicy : t.policy = .cache := h.policy_eq.trans hs.policy_eq
  have hkeys : t.values.map Prod.fst = t.completed := by
    have hold : s.HasKeys := by
      rw [State.HasKeys, hs.policy_eq]
      exact hs.keys_eq
    have hnew := h.hasKeys hold
    rwa [State.HasKeys, hpolicy] at hnew
  have hnodup := h.nodup_completed (hs.keys_eq ▸ hs.nodup)
  exact ⟨hpolicy, h.path_eq.trans hs.path_nil, hkeys, hkeys ▸ hnodup⟩

/-- **What was kept of a completed cell stays.** -/
theorem lookup_values (h : Grows sheet s t) (ha : a ∈ s.completed) :
    t.values.lookup a = s.values.lookup a := by
  induction h with
  | refl => rfl
  | @tail u v hgrows hstep ih =>
    have hmem : a ∈ u.completed := mem_completed hgrows ha
    cases hstep with
    | @complete b _ x hnew =>
      have hne : (a == b) = false := beq_eq_false_iff_ne.mpr fun heq => hnew (heq ▸ hmem)
      obtain ⟨policy, path, completed, values⟩ := u
      cases policy with
      | rewalk => exact ih
      | cache => simpa [State.complete, List.lookup_cons, hne] using ih

end Grows

/-- **A value that was kept is returned**, whatever the sheet holds there, and nothing changes. -/
theorem resolve_of_kept (sheet : Sheet) (hs : s.KeepsOnce) (hr : r.address = some a)
    (ha : a ∈ s.completed) (hx : s.values.lookup a = some x) : resolve sheet r s = (.ok x, s) := by
  have hcached : s.cached? a = some x := (hs.cached?_eq a).trans hx
  rw [resolve_of_address sheet hr, resolveAt_kept (State.isCompleted_iff_mem.mpr ha) hcached]
  rfl

/-- **A value that was returned was kept.** -/
theorem lookup_of_resolve (sheet : Sheet) (hs : s.KeepsOnce) (hr : r.address = some a)
    (hx : (resolve sheet r s).1 = .ok x) : (resolve sheet r s).2.values.lookup a = some x := by
  rw [resolve_of_address sheet hr] at hx ⊢
  cases h : resolveAt (contentWithin sheet (depthBound sheet)) a s with
  | cutOff cell =>
    rw [h] at hx
    cases hx
  | done result t =>
    rw [h] at hx
    obtain rfl : result = .ok x := hx
    show t.values.lookup a = some x
    rw [resolveAt_eq_done_iff] at h
    cases h with
    | kept hc hcached => exact (hs.cached?_eq a).symm.trans hcached
    | rewalked hc hcached h =>
      obtain ⟨y, hy⟩ := hs.exists_lookup (State.isCompleted_iff_mem.mp hc)
      rw [hs.cached?_eq, hy] at hcached
      cases hcached
    | @found _ u hc hp h =>
      have hpolicy : u.policy = .cache :=
        (contentWithin_grows sheet _ a _ _ u h).1.policy_eq.trans hs.policy_eq
      simp [State.complete, State.leave, hpolicy]

/-! ## Calls on different sheets -/

/-- The state after calls, each of which is made on a sheet of its own. -/
def runAcross : List (Sheet × Call) → State → State
  | [], s => s
  | (sheet, call) :: rest, s => runAcross rest (call.run sheet s).2

theorem runAcross_append (before after : List (Sheet × Call)) (s : State) :
    runAcross (before ++ after) s = runAcross after (runAcross before s) := by
  induction before generalizing s with
  | nil => rfl
  | cons first rest ih => exact ih _

/-- What states keep as they grow on any sheet, they keep across sheets. -/
theorem runAcross_invariant {P : State → Prop} (hP : ∀ sheet u v, Grows sheet u v → P u → P v)
    (calls : List (Sheet × Call)) (hs : P s) : P (runAcross calls s) := by
  induction calls generalizing s with
  | nil => exact hs
  | cons first rest ih => exact ih (hP first.1 _ _ (run_grows first.1 first.2 s).1 hs)

/-- The state after such calls from a new state that keeps values. -/
def stateAcross (calls : List (Sheet × Call)) : State := runAcross calls (State.new .cache)

theorem keepsOnce_stateAcross (calls : List (Sheet × Call)) : (stateAcross calls).KeepsOnce :=
  runAcross_invariant (fun _ _ _ => Grows.keepsOnce) calls keepsOnce_new

/-- **What was kept of a cell stays so across sheets.** -/
theorem kept_across (before after : List (Sheet × Call)) (ha : a ∈ (stateAcross before).completed)
    (hx : (stateAcross before).values.lookup a = some x) :
    a ∈ (stateAcross (before ++ after)).completed ∧
      (stateAcross (before ++ after)).values.lookup a = some x := by
  rw [stateAcross, runAcross_append]
  refine runAcross_invariant (P := fun u => a ∈ u.completed ∧ u.values.lookup a = some x) ?_ after
    ⟨ha, hx⟩
  rintro sheet u v hgrows ⟨hmem, hlookup⟩
  exact ⟨hgrows.mem_completed hmem, (hgrows.lookup_values hmem).trans hlookup⟩

/-- **Values are kept once, across sheets.** After any calls on a state that keeps values, each of them on
a sheet of its own, no cell is in progress and one value was kept of each completed cell. A reference that
comes to a value then has that value kept. Once a cell is completed, it stays so, its value is never
written over, and after any other calls every reference to it comes to that value, whatever the sheet
holds there. -/
theorem stateAcross_writes_once (before : List (Sheet × Call)) :
    (stateAcross before).KeepsOnce ∧
      (∀ sheet r a x, r.address = some a → (resolve sheet r (stateAcross before)).1 = .ok x →
        (resolve sheet r (stateAcross before)).2.values.lookup a = some x) ∧
      ∀ a, (stateAcross before).isCompleted a = true →
        ∃ x, (stateAcross before).values.lookup a = some x ∧
          ∀ after, (stateAcross (before ++ after)).isCompleted a = true ∧
            (stateAcross (before ++ after)).values.lookup a = some x ∧
            ∀ sheet r, r.address = some a →
              (resolve sheet r (stateAcross (before ++ after))).1 = .ok x := by
  have hbefore := keepsOnce_stateAcross before
  refine ⟨hbefore, fun sheet r a x hr hx => lookup_of_resolve sheet hbefore hr hx, fun a ha => ?_⟩
  rw [State.isCompleted_iff_mem] at ha
  obtain ⟨x, hx⟩ := hbefore.exists_lookup ha
  refine ⟨x, hx, fun after => ?_⟩
  obtain ⟨hmem, hlookup⟩ := kept_across before after ha hx
  refine ⟨State.isCompleted_iff_mem.mpr hmem, hlookup, fun sheet r hr => ?_⟩
  rw [resolve_of_kept sheet (keepsOnce_stateAcross _) hr hmem hlookup]

/-- A cell that was read through an expression keeps its value when a later sheet makes it refer to itself,
after a call on a sheet without any cells. -/
theorem stateAcross_writes_once_before_cycle :
    (resolve ⟨[["B1", "B1"]]⟩ ⟨"B1", some ⟨0, 1⟩⟩ (stateAcross
      [(⟨[["B1 2 *", "3"]]⟩, .evaluateCell "A1"), (⟨[]⟩, .resolve ⟨"C1", some ⟨0, 2⟩⟩)])).1 =
        .ok 3 := by
  obtain ⟨x, hx, hafter⟩ := (stateAcross_writes_once
    [(⟨[["B1 2 *", "3"]]⟩, .evaluateCell "A1")]).2.2 ⟨0, 1⟩ (by decide +kernel)
  have hthree : (stateAcross [(⟨[["B1 2 *", "3"]]⟩, .evaluateCell "A1")]).values.lookup ⟨0, 1⟩ =
      some 3 := by
    decide +kernel
  obtain rfl : x = 3 := Option.some.inj (hx.symm.trans hthree)
  exact (hafter [(⟨[]⟩, .resolve ⟨"C1", some ⟨0, 2⟩⟩)]).2.2 _ _ rfl

end PostfixSheet
