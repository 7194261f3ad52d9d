import Mathlib.Logic.Relation
import PostfixSheet.Proofs.Sessions

/-!
# What walks do to a state

A walk changes a state in one way only: it completes cells, one by one. A cell is completed at the end of
its own walk, when it is off the path again, and that walk had a value, so that all its references have
been completed before. This holds of every state, whatever is in it, and whether the walk comes to a value
or a fault; what a state is like after any calls follows by induction on the cells that they completed.

* `Learns` completes one cell, and `Grows` any number of them, one by one.
* `State.Knows` says that all references of some tokens are completed.

Results:
* `Grows.policy_eq`, `Grows.path_eq`, `Grows.mem_completed`: what stays as it is.
* `Grows.exists_formula`, `Grows.hasKeys`: what is known of completed cells and of kept values.
* `contentWithin_grows`: a walk makes a state grow, and after a value it knows all that it referred to.
* `run_grows`, `session_grows`: so do calls and sessions.
-/

namespace PostfixSheet

/-- All references in the tokens have addresses, and the cells there are completed. -/
def State.Knows (s : State) (tokens : List Token) : Prop :=
  ∀ r, Token.reference r ∈ tokens → ∃ b, r.address = some b ∧ b ∈ s.completed

/-- **One more cell is completed**: one off the path, all of whose references are. -/
inductive Learns (sheet : Sheet) : State → State → Prop
  | complete {s : State} {a : Address} {tokens : List Token} (x : Float) (hnew : a ∉ s.completed)
      (hpath : a ∉ s.path) (hformula : sheet.formula a = .ok tokens) (hknows : s.Knows tokens) :
      Learns sheet s (s.complete a x)

/-- Cells are completed one by one. -/
def Grows (sheet : Sheet) : State → State → Prop := Relation.ReflTransGen (Learns sheet)

variable {sheet : Sheet} {s t : State} {a b : Address} {tokens : List Token}

theorem State.Knows.mem {r : Reference} (h : s.Knows tokens) (hr : Token.reference r ∈ tokens)
    (hb : r.address = some b) : b ∈ s.completed := by
  obtain ⟨b', hb', hmem⟩ := h r hr
  rw [hb] at hb'
  cases hb'
  exact hmem

theorem knows_append {first second : List Token} :
    s.Knows (first ++ second) ↔ s.Knows first ∧ s.Knows second := by
  simp only [State.Knows, List.mem_append]
  constructor
  · exact fun h => ⟨fun r hr => h r (Or.inl hr), fun r hr => h r (Or.inr hr)⟩
  · rintro ⟨hfirst, hsecond⟩ r (hr | hr)
    · exact hfirst r hr
    · exact hsecond r hr

/-! ## Completed cells -/

/-- The values that are kept are those of the completed cells, if values are kept at all. -/
def State.HasKeys (s : State) : Prop :=
  match s.policy with
  | .rewalk => s.values = []
  | .cache => s.values.map Prod.fst = s.completed

theorem hasKeys_new (policy : Policy) : (State.new policy).HasKeys := by
  cases policy <;> rfl

namespace Grows

/-- What the completion of a cell keeps, the completion of any number of them does. -/
theorem invariant (P : State → Prop) (h : Grows sheet s t) (hs : P s)
    (hcomplete : ∀ u a x, P u → P (u.complete a x)) : P t := by
  induction h with
  | refl => exact hs
  | tail _ hstep ih =>
    cases hstep with
    | complete x => exact hcomplete _ _ x ih

theorem policy_eq (h : Grows sheet s t) : t.policy = s.policy :=
  h.invariant (fun u => u.policy = s.policy) rfl fun _ _ _ hu => hu

theorem path_eq (h : Grows sheet s t) : t.path = s.path :=
  h.invariant (fun u => u.path = s.path) rfl fun _ _ _ hu => hu

/-- What is completed stays so. -/
theorem mem_completed (h : Grows sheet s t) (ha : a ∈ s.completed) : a ∈ t.completed :=
  h.invariant (fun u => a ∈ u.completed) ha fun _ _ _ hu => List.mem_cons_of_mem _ hu

/-- What is known stays so. -/
theorem knows (h : Grows sheet s t) (hs : s.Knows tokens) : t.Knows tokens := by
  intro r hr
  obtain ⟨b, hb, hmem⟩ := hs r hr
  exact ⟨b, hb, h.mem_completed hmem⟩

/-- The kept values stay those of the completed cells. -/
theorem hasKeys (h : Grows sheet s t) (hs : s.HasKeys) : t.HasKeys := by
  refine h.invariant State.HasKeys hs fun u a x hu => ?_
  obtain ⟨policy, path, completed, values⟩ := u
  cases policy with
  | rewalk => exact hu
  | cache => exact congrArg (a :: ·) hu

/-- What is completed newly was not on the path. -/
theorem not_mem_path (h : Grows sheet s t) (ha : a ∈ t.completed) (hs : a ∉ s.completed) :
    a ∉ s.path := by
  induction h with
  | refl => exact absurd ha hs
  | tail hgrows hstep ih =>
    cases hstep with
    | complete x _ hpath =>
      rcases List.mem_cons.mp ha with rfl | ha
      · rwa [← path_eq hgrows]
      · exact ih ha

/-- **What is completed newly has a formula, and all its references are completed.** -/
theorem exists_formula (h : Grows sheet s t) (ha : a ∈ t.completed) (hs : a ∉ s.completed) :
    ∃ tokens, sheet.formula a = .ok tokens ∧ t.Knows tokens := by
  induction h with
  | refl => exact absurd ha hs
  | tail _ hstep ih =>
    have hlast : Grows sheet _ _ := Relation.ReflTransGen.single hstep
    cases hstep with
    | complete x hnew hpath hformula hknows =>
      rcases List.mem_cons.mp ha with rfl | ha
      · exact ⟨_, hformula, hlast.knows hknows⟩
      · obtain ⟨tokens, htokens, hk⟩ := ih ha
        exact ⟨tokens, htokens, hlast.knows hk⟩

/-- What a walk that enters a cell adds stays when the cell is left. -/
theorem leave (h : Grows sheet (s.enter a) t) : Grows sheet s (t.leave a) := by
  have hstep : ∀ u v, Learns sheet u v → Learns sheet (u.leave a) (v.leave a) := by
    rintro u _ ⟨x, hnew, hpath, hformula, hknows⟩
    exact .complete x hnew (fun hmem => hpath (List.mem_of_mem_erase hmem)) hformula hknows
  have hleave : Grows sheet ((s.enter a).leave a) (t.leave a) :=
    Relation.ReflTransGen.lift (State.leave · a) hstep _ _ h
  rwa [State.leave_enter] at hleave

end Grows

/-! ## Walks -/

/-- Wherever the walk ends, the state has grown, and after a value it knows the tokens. -/
def Teaches {α : Type} (sheet : Sheet) (walk : State → Walk α) (tokens : List Token) : Prop :=
  ∀ s r t, walk s = .done r t → Grows sheet s t ∧ ∀ x, r = .ok x → t.Knows tokens

/-- The walks through contents make states grow, and after a value all references of the content are
completed. -/
def ContentTeaches (sheet : Sheet) (content : Address → State → Walk Float) : Prop :=
  ∀ a s r t, content a s = .done r t → Grows sheet s t ∧
    ∀ x, r = .ok x → ∃ tokens, sheet.formula a = .ok tokens ∧ t.Knows tokens

section Walks

variable {α β : Type} {content : Address → State → Walk Float}

/-- What mentions nothing is known. -/
theorem teaches_done (sheet : Sheet) (r : Except Fault α) (h : ∀ r, Token.reference r ∉ tokens) :
    Teaches sheet (fun s => .done r s) tokens := by
  rintro s r' t ⟨⟩
  exact ⟨.refl, fun _ _ r hr => absurd hr (h r)⟩

theorem Teaches.andThen {walk : State → Walk α} {next : α → State → Walk β}
    {first second : List Token} (h : Teaches sheet walk first)
    (hnext : ∀ x, Teaches sheet (next x) second) :
    Teaches sheet (fun s => (walk s).andThen next) (first ++ second) := by
  intro s r t hw
  simp only at hw
  cases hwalk : walk s with
  | cutOff cell =>
    rw [hwalk] at hw
    cases hw
  | done result u =>
    obtain ⟨hgrows, hknows⟩ := h s result u hwalk
    rw [hwalk] at hw
    cases result with
    | error e =>
      cases hw
      exact ⟨hgrows, nofun⟩
    | ok x =>
      obtain ⟨hgrows', hknows'⟩ := hnext x u r t hw
      refine ⟨hgrows.trans hgrows', fun y hy => knows_append.mpr ⟨?_, hknows' y hy⟩⟩
      exact hgrows'.knows (hknows x rfl)

/-- **Looking up a cell** makes a state grow, and after a value the cell is completed. -/
theorem resolveAt_grows (hcontent : ContentTeaches sheet content) {r : Except Fault Float}
    (h : resolveAt content a s = .done r t) :
    Grows sheet s t ∧ ∀ x, r = .ok x → a ∈ t.completed := by
  rw [resolveAt_eq_done_iff] at h
  cases h with
  | kept hc hx => exact ⟨.refl, fun _ _ => State.isCompleted_iff_mem.mp hc⟩
  | rewalked hc hx h => exact ⟨.refl, fun _ _ => State.isCompleted_iff_mem.mp hc⟩
  | cyclic hc hp => exact ⟨.refl, nofun⟩
  | @found x u hc hp h =>
    obtain ⟨hgrows, hknows⟩ := hcontent a _ _ u h
    obtain ⟨tokens, hformula, hk⟩ := hknows x rfl
    have hold : a ∉ s.completed := fun hmem =>
      Bool.eq_false_iff.mp hc (State.isCompleted_iff_mem.mpr hmem)
    -- the cell was on the path all the while, so its own walk has not completed it
    have hnew : a ∉ u.completed := fun hmem => hgrows.not_mem_path hmem hold List.mem_cons_self
    have hpath : a ∉ (u.leave a).path := by
      rw [hgrows.leave.path_eq, ← State.isInProgress_iff_mem]
      exact Bool.eq_false_iff.mp hp
    exact ⟨hgrows.leave.tail (.complete x hnew hpath hformula hk), fun _ _ => List.mem_cons_self⟩
  | failed hc hp h => exact ⟨(hcontent a _ _ _ h).1.leave, nofun⟩

theorem resolveWith_teaches (hcontent : ContentTeaches sheet content) (r : Reference) :
    Teaches sheet (resolveWith content r) [.reference r] := by
  intro s result t h
  unfold resolveWith at h
  cases hr : r.address with
  | none =>
    rw [hr] at h
    cases h
    exact ⟨.refl, nofun⟩
  | some a =>
    rw [hr] at h
    obtain ⟨hgrows, hcompleted⟩ := resolveAt_grows hcontent h
    refine ⟨hgrows, fun x hx r' hr' => ?_⟩
    obtain rfl : r' = r := by simpa using hr'
    exact ⟨a, hr, hcompleted x hx⟩

theorem fillWith_teaches (hcontent : ContentTeaches sheet content) (token : Token) :
    Teaches sheet (fillWith content token) [token] := by
  cases token with
  | reference r =>
    exact (resolveWith_teaches hcontent r).andThen fun x =>
      teaches_done sheet (.ok (Token.number x)) fun _ => List.not_mem_nil
  | number x => exact teaches_done sheet _ (by simp)
  | operator op => exact teaches_done sheet _ (by simp)
  | invalid text => exact teaches_done sheet _ (by simp)

theorem substituteWith_teaches (hcontent : ContentTeaches sheet content) (tokens : List Token) :
    Teaches sheet (substituteWith content tokens) tokens := by
  induction tokens with
  | nil => exact teaches_done sheet _ fun _ => List.not_mem_nil
  | cons token rest ih =>
    rw [show substituteWith content (token :: rest) = _ from
      funext (substituteWith_cons content token rest)]
    refine (fillWith_teaches hcontent token).andThen fun filled => ?_
    have hrest := ih.andThen fun numbers =>
      teaches_done sheet (.ok (filled :: numbers)) fun _ => List.not_mem_nil
    rwa [List.append_nil] at hrest

/-- A list of tokens makes a state grow, and after a value all its references are completed. -/
theorem evaluateWith_teaches (hcontent : ContentTeaches sheet content) (tokens : List Token) :
    Teaches sheet (evaluateWith content tokens) tokens := by
  have h := (substituteWith_teaches hcontent tokens).andThen fun numbers =>
    teaches_done sheet (reduce numbers) fun _ => List.not_mem_nil
  rwa [List.append_nil] at h

end Walks

/-- **The walk through a content** makes a state grow, and after a value all references of the content
are completed. -/
theorem contentWithin_grows (sheet : Sheet) : ∀ depth, ContentTeaches sheet (contentWithin sheet depth)
  | 0 => nofun
  | depth + 1 => by
    intro a s r t h
    rw [contentWithin_succ] at h
    cases hformula : sheet.formula a with
    | error e =>
      rw [hformula] at h
      cases h
      exact ⟨.refl, nofun⟩
    | ok tokens =>
      rw [hformula] at h
      obtain ⟨hgrows, hknows⟩ := evaluateWith_teaches (contentWithin_grows sheet depth) tokens s r t h
      exact ⟨hgrows, fun x hx => ⟨tokens, rfl, hknows x hx⟩⟩

/-! ## Calls -/

/-- **A call makes a state grow**, and after a value all its references are completed. -/
theorem run_grows (sheet : Sheet) (call : Call) (s : State) :
    Grows sheet s (call.run sheet s).2 ∧
      ∀ x, (call.run sheet s).1 = .ok x → (call.run sheet s).2.Knows call.tokens := by
  rw [Call.run_eq_evaluate, evaluate]
  cases h : evaluateWith (contentWithin sheet (depthBound sheet)) call.tokens s with
  | done r t =>
    exact evaluateWith_teaches (contentWithin_grows sheet (depthBound sheet)) call.tokens s r t h
  | cutOff cell =>
    refine ⟨.refl, fun x hx => ?_⟩
    cases hx

/-- A session makes a state grow. -/
theorem session_grows (sheet : Sheet) (calls : List Call) (s : State) :
    Grows sheet s (session sheet calls s).2 := by
  induction calls generalizing s with
  | nil => exact .refl
  | cons call rest ih => exact (run_grows sheet call s).1.trans (ih _)

end PostfixSheet
