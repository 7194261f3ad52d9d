import PostfixSheet.Proofs.States

/-!
# Sessions

A state may serve any number of calls, each of which looks for the value of a reference, of a list of
tokens or of a text. A session is a run of calls on one sheet and one state, each from the state in
which the one before it ended, whether with a value or a fault.

Results:
* `Call.run_eq_evaluate`: every call evaluates a list of tokens.
* `Call.run_of_sound`: from a sound state off any path, a call returns its naive value and ends in
  such a state again.
* `session_of_sound`: so does a session.
* `run_after_session`: nothing that was called before shows in what a call returns.
* `session_rewalk_eq_cache`: the two ways of reading a completed cell again make no difference.
-/

namespace PostfixSheet

/-- One use of a state. -/
inductive Call where
  | resolve (r : Reference)
  | evaluate (tokens : List Token)
  | evaluateCell (raw : String)

namespace Call

/-- What a call returns, and the state after it. -/
def run (sheet : Sheet) : Call → State → Except Fault Float × State
  | .resolve r, s => PostfixSheet.resolve sheet r s
  | .evaluate tokens, s => PostfixSheet.evaluate sheet tokens s
  | .evaluateCell raw, s => PostfixSheet.evaluateCell sheet raw s

/-- What a call is worth, when the values of all cells are given. -/
def valueBy (value : Address → Except Fault Float) : Call → Except Fault Float
  | .resolve r => r.valueBy value
  | .evaluate tokens => tokensBy value tokens
  | .evaluateCell raw =>
    match Content.classify raw with
    | .number x => .ok x
    | .reference r => r.valueBy value
    | .expression tokens => tokensBy value tokens
    | .other => tokensBy value (tokenize raw)

/-- What a call returns **naively**, by the path alone and from the empty one. -/
def naive (sheet : Sheet) (call : Call) : Except Fault Float := call.valueBy (pathValue sheet [])

/-- The tokens that a call evaluates. -/
def tokens : Call → List Token
  | .resolve r => [.reference r]
  | .evaluate tokens => tokens
  | .evaluateCell raw => tokenize raw

theorem valueBy_eq (value : Address → Except Fault Float) (call : Call) :
    call.valueBy value = tokensBy value call.tokens := by
  cases call with
  | resolve r => exact (tokensBy_reference value r).symm
  | evaluate tokens => rfl
  | evaluateCell raw =>
    simp only [valueBy, tokens]
    rcases classify_cases raw with ⟨x, ht, hc⟩ | ⟨r, ht, hc⟩ | hc | ⟨hc, -⟩
    · rw [hc, ht, tokensBy_number]
    · rw [hc, ht, tokensBy_reference]
    · rw [hc]
    · rw [hc]

/-- To resolve a reference is to evaluate it as a list of tokens. -/
theorem resolve_eq_evaluate (sheet : Sheet) (r : Reference) (s : State) :
    PostfixSheet.resolve sheet r s = PostfixSheet.evaluate sheet [.reference r] s := by
  rw [PostfixSheet.resolve, PostfixSheet.evaluate, evaluateWith_reference]

/-- **Every call evaluates a list of tokens.** -/
theorem run_eq_evaluate (sheet : Sheet) (call : Call) (s : State) :
    call.run sheet s = PostfixSheet.evaluate sheet call.tokens s := by
  cases call with
  | resolve r => exact resolve_eq_evaluate sheet r s
  | evaluate tokens => rfl
  | evaluateCell raw =>
    simp only [run, tokens, PostfixSheet.evaluateCell]
    rcases classify_cases raw with ⟨x, ht, hc⟩ | ⟨r, ht, hc⟩ | hc | ⟨hc, -⟩
    · rw [hc, ht]
      rfl
    · rw [hc, ht]
      exact resolve_eq_evaluate sheet r s
    · rw [hc]
    · rw [hc]

/-- A call returns what the cells that it looks up come to. -/
theorem run_comesTo {κ : Type} {same : Fault → Fault → Prop} (hsame : ∀ e, same e e)
    {good : κ → State → Prop} {value : Address → Except Fault Float} {sheet : Sheet} (call : Call)
    (h : ∀ a, Scanned value call.tokens a →
      ComesTo same good (resolveAt (contentWithin sheet (depthBound sheet)) a) (value a)) (k : κ) :
    ∃ k', ∀ s, good k s →
      Alike same (call.run sheet s).1 (call.valueBy value) ∧ good k' (call.run sheet s).2 := by
  obtain ⟨k', hall⟩ := evaluateWith_comesTo hsame h k
  refine ⟨k', fun s hs => ?_⟩
  obtain ⟨r, t, hw, hr, ht⟩ := hall s hs
  rw [run_eq_evaluate, valueBy_eq, PostfixSheet.evaluate, hw]
  exact ⟨hr, ht⟩

/-- **From a sound state off any path a call returns its naive value**, and the cells that are
completed before it decide which are after it. -/
theorem run_of_sound (sheet : Sheet) (call : Call) (completed : List Address) :
    ∃ learned, ∀ s, Sound sheet [] completed s →
      (call.run sheet s).1 = call.naive sheet ∧ Sound sheet [] learned (call.run sheet s).2 := by
  have h : ∀ a, Scanned (pathValue sheet []) call.tokens a →
      ComesTo (· = ·) (Sound sheet []) (resolveAt (contentWithin sheet (depthBound sheet)) a)
        (pathValue sheet [] a) := by
    intro a _
    refine resolveAt_comesTo sheet _ [] a (List.forall_mem_nil _) (Or.inr ?_)
    rw [Sheet.unvisited_nil, depthBound]
    omega
  obtain ⟨learned, hall⟩ := call.run_comesTo (fun _ => rfl) h completed
  exact ⟨learned, fun s hs => ⟨(hall s hs).1.eq, (hall s hs).2⟩⟩

/-- A call from a new state returns its naive value. -/
theorem run_new (sheet : Sheet) (call : Call) (policy : Policy) :
    (call.run sheet (State.new policy)).1 = call.naive sheet := by
  obtain ⟨_, hall⟩ := call.run_of_sound sheet []
  exact (hall _ (sound_new sheet policy)).1

end Call

/-- What the calls of a session return, and the state after the last of them. -/
def session (sheet : Sheet) : List Call → State → List (Except Fault Float) × State
  | [], s => ([], s)
  | call :: rest, s =>
    let (result, t) := call.run sheet s
    let (results, u) := session sheet rest t
    (result :: results, u)

/-- **From a sound state off any path a session returns the naive values**, and ends in a sound state
whose completed cells those before it decide. -/
theorem session_of_sound (sheet : Sheet) (calls : List Call) (completed : List Address) :
    ∃ learned, ∀ s, Sound sheet [] completed s →
      (session sheet calls s).1 = calls.map (·.naive sheet) ∧
        Sound sheet [] learned (session sheet calls s).2 := by
  induction calls generalizing completed with
  | nil => exact ⟨completed, fun s hs => ⟨rfl, hs⟩⟩
  | cons call rest ih =>
    obtain ⟨between, hcall⟩ := call.run_of_sound sheet completed
    obtain ⟨learned, hrest⟩ := ih between
    refine ⟨learned, fun s hs => ?_⟩
    obtain ⟨hresult, ht⟩ := hcall s hs
    obtain ⟨hresults, hu⟩ := hrest _ ht
    refine ⟨?_, hu⟩
    rw [List.map_cons, ← hresult, ← hresults]
    rfl

/-- **Nothing that was called before shows in what a call returns**: after any session from a new
state, and whatever the policy, it returns its naive value. -/
theorem run_after_session (sheet : Sheet) (policy : Policy) (history : List Call) (call : Call) :
    (call.run sheet (session sheet history (State.new policy)).2).1 = call.naive sheet := by
  obtain ⟨learned, hall⟩ := session_of_sound sheet history []
  obtain ⟨-, hs⟩ := hall _ (sound_new sheet policy)
  obtain ⟨_, hcall⟩ := call.run_of_sound sheet learned
  exact (hcall _ hs).1

/-- **The two policies run in lockstep**: after any session the calls have returned the same under
both, and the same cells are completed and in progress. -/
theorem session_rewalk_eq_cache (sheet : Sheet) (calls : List Call) :
    (session sheet calls (State.new .rewalk)).1 = (session sheet calls (State.new .cache)).1 ∧
      ∀ a, (session sheet calls (State.new .rewalk)).2.isCompleted a =
          (session sheet calls (State.new .cache)).2.isCompleted a ∧
        (session sheet calls (State.new .rewalk)).2.isInProgress a =
          (session sheet calls (State.new .cache)).2.isInProgress a := by
  obtain ⟨learned, hall⟩ := session_of_sound sheet calls []
  obtain ⟨hrewalk, hr⟩ := hall _ (sound_new sheet .rewalk)
  obtain ⟨hcache, hc⟩ := hall _ (sound_new sheet .cache)
  refine ⟨hrewalk.trans hcache.symm, fun a => ⟨?_, ?_⟩⟩
  · rw [State.isCompleted, State.isCompleted, hr.completed_eq, hc.completed_eq]
  · rw [State.isInProgress, State.isInProgress, hr.path_eq, hc.path_eq]

end PostfixSheet
