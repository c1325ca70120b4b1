import Lisplet.Proofs.Evaluation.Meaning

/-!
# What the depth limit does

The depth limit only ever breaks an evaluation off. With less room an evaluation comes to the same
outcome with the same calls of native functions, or it ends as too deep, after the first of these
calls. So an evaluation that the limit does not break off comes to the same at any lesser depth.
-/

namespace Lisplet

namespace Account

variable {α β : Type} {host : Host}

/-- An account that the depth limit has broken off: it ends in that error, and no function called in
it has reported the error as its own. -/
def ExceedsDepth (host : Host) (c : Account α) : Prop :=
  c.outcome = .error EvalError.tooDeep.toFailure ∧
    ∀ call ∈ c.calls, call.1.apply host call.2 ≠ .error EvalError.tooDeep.toFailure

/-- An account that goes on behind a call only if the call has a value. -/
def GoesOnAfterCalls (host : Host) (c : Account α) : Prop :=
  ∀ a, c.outcome = .ok a → ∀ call ∈ c.calls, ∃ value, call.1.apply host call.2 = .ok value

/-- An account that the depth limit has broken off on the way of another one, or that comes to the
same. -/
def UpToLimit (host : Host) (c c' : Account α) : Prop :=
  (c.ExceedsDepth host ∧ c.calls <+: c'.calls) ∨
    (c.outcome = c'.outcome ∧ c.calls = c'.calls ∧ c.GoesOnAfterCalls host)

/-- An account that ends as too deep at once is broken off on the way of any other. -/
theorem upToLimit_tooDeep (c : Account α) : UpToLimit host (.fail .tooDeep) c :=
  Or.inl ⟨⟨rfl, fun _ h => absurd h (by simp [calls, Event.calls, fail])⟩, List.nil_prefix⟩

/-- Accounts without calls that have the same outcome come to the same. -/
theorem upToLimit_of_no_calls {c c' : Account α} (houtcome : c.outcome = c'.outcome)
    (h : c.calls = []) (h' : c'.calls = []) : UpToLimit host c c' :=
  Or.inr ⟨houtcome, h.trans h'.symm, fun _ _ call hcall => absurd hcall (by simp [h])⟩

/-- A call comes to the same as itself. -/
theorem upToLimit_call (head : String) (f : Native) (args : List Value) :
    UpToLimit host (call host head f args) (call host head f args) := by
  refine Or.inr ⟨rfl, rfl, fun value houtcome call hcall => ?_⟩
  obtain rfl : call = (f, args) := by
    simpa [Account.call, calls, Event.calls, Event.call?] using hcall
  rw [Account.call] at houtcome
  unfold applied at houtcome
  dsimp only at houtcome ⊢
  split at houtcome
  · next value' happly => exact ⟨value', happly⟩
  · cases houtcome
  · cases houtcome

/-- Looking up a name depends on the strictness alone. -/
theorem resolve_congr {settings settings' : Settings}
    (h : settings.strictUnbound = settings'.strictUnbound) :
    resolve settings = resolve settings' := by
  funext name value
  cases value with
  | unbound => rw [resolve, resolve, h]
  | _ => rfl

/-- Looking up a name has no calls. -/
theorem upToLimit_resolve (settings : Settings) (name : String) (value : Value) :
    UpToLimit host (resolve settings name value) (resolve settings name value) := by
  obtain h | ⟨-, -, h⟩ := resolve_pure_or_fail settings name value
  · rw [h]
    exact upToLimit_of_no_calls rfl rfl rfl
  · rw [h]
    exact upToLimit_of_no_calls rfl rfl rfl

/-- A list that applies nothing has no calls. -/
theorem upToLimit_headValue (head : Value) (tail : List Value) :
    UpToLimit host (headValue head tail) (headValue head tail) := by
  have hcalls : (headValue head tail).calls = [] := by rw [calls, events_headValue]; rfl
  exact upToLimit_of_no_calls rfl hcalls hcalls

/-- Where the first of two computations is broken off, both are; otherwise the second can be. -/
theorem UpToLimit.bind {c c' : Account α} {next next' : α → Account β} (hc : UpToLimit host c c')
    (hnext : ∀ a, UpToLimit host (next a) (next' a)) :
    UpToLimit host (c >>= next) (c' >>= next') := by
  obtain ⟨⟨hdeep, hown⟩, hprefix⟩ | ⟨houtcome, hcalls, hgoesOn⟩ := hc
  · left
    rw [ExceedsDepth, calls_bind_of_error hdeep, bind_of_error hdeep]
    exact ⟨⟨rfl, hown⟩, hprefix.trans (calls_prefix_bind c' next')⟩
  · cases hend : c.outcome with
    | error f =>
      have hend' : c'.outcome = .error f := houtcome.symm.trans hend
      right
      rw [calls_bind_of_error hend, calls_bind_of_error hend', bind_of_error hend,
        bind_of_error hend']
      exact ⟨rfl, hcalls, fun a ha => by cases ha⟩
    | ok a =>
      have hend' : c'.outcome = .ok a := houtcome.symm.trans hend
      have hbefore := hgoesOn a hend
      rw [UpToLimit, ExceedsDepth, GoesOnAfterCalls, calls_bind_of_ok hend, calls_bind_of_ok hend',
        bind_of_ok hend, bind_of_ok hend', ← hcalls]
      obtain ⟨⟨hdeep, hown⟩, hprefix⟩ | ⟨houtcome, hcalls, hgoesOn⟩ := hnext a
      · left
        refine ⟨⟨hdeep, List.forall_mem_append.mpr ⟨fun call hcall hfault => ?_, hown⟩⟩,
          (List.prefix_append_right_inj _).mpr hprefix⟩
        obtain ⟨value, hvalue⟩ := hbefore call hcall
        rw [hvalue] at hfault
        cases hfault
      · right
        exact ⟨houtcome, by rw [hcalls], fun b hb =>
          List.forall_mem_append.mpr ⟨hbefore, hgoesOn b hb⟩⟩

/-- That lists are evaluated is recorded without a call. -/
theorem UpToLimit.after_evaluating {form form' : Value} {c c' : Account α}
    (h : UpToLimit host c c') :
    UpToLimit host (record (.evaluating form) >>= fun _ => c)
      (record (.evaluating form') >>= fun _ => c') :=
  UpToLimit.bind (upToLimit_of_no_calls rfl rfl rfl) fun _ => h

/-- That one more list is evaluated on the deeper side makes no difference. -/
theorem UpToLimit.after_evaluating_deeper {form : Value} {c c' : Account α}
    (h : UpToLimit host c c') :
    UpToLimit host (record (.evaluating form) >>= fun _ => c) c' := by
  have hquiet : UpToLimit host (record (.evaluating form)) (pure ()) :=
    upToLimit_of_no_calls rfl rfl rfl
  exact hquiet.bind fun _ => h

/-- An account that the depth limit has not broken off comes to the same. -/
theorem UpToLimit.eq_of_not_exceedsDepth {c c' : Account α} (h : UpToLimit host c c')
    (hwithin : ¬ c.ExceedsDepth host) : c.outcome = c'.outcome ∧ c.calls = c'.calls := by
  obtain ⟨hdeep, -⟩ | ⟨houtcome, hcalls, -⟩ := h
  · exact absurd hdeep hwithin
  · exact ⟨houtcome, hcalls⟩

end Account

namespace Evaluation

open Account

variable {host : Host} {settings settings' : Settings}

/-- Applying the value of a head symbol comes to the same as long as the arguments do. -/
theorem upToLimit_applyHead (head : String) {args args' : Account (List Value)}
    (h : UpToLimit host args args') (value : Value) :
    UpToLimit host (applyHead host head args value) (applyHead host head args' value) := by
  cases value with
  | native f => exact h.bind fun args => upToLimit_call head f args
  | _ => exact upToLimit_of_no_calls rfl rfl rfl

/-- An expression that is within the limit for less room is within it for more, and one that is not
is broken off at once. -/
theorem within_limit {scope scope' : Scope} {depth depth' : Nat} {expr expr' : Value}
    (hroom : settings.maxDepth - depth ≤ settings'.maxDepth - depth')
    (h : (depth : Int) ≤ settings.maxDepth → (depth' : Int) ≤ settings'.maxDepth →
      UpToLimit host (meaning host settings scope depth expr)
        (meaning host settings' scope' depth' expr')) :
    UpToLimit host (meaning host settings scope depth expr)
      (meaning host settings' scope' depth' expr') := by
  by_cases hlevel : (depth : Int) ≤ settings.maxDepth
  · exact h hlevel (by omega)
  · rw [meaning_of_lt (by omega)]
    exact upToLimit_tooDeep _

/-- With no more room up to the depth limit than in other settings, and the same strictness, an
expression means the same in a scope, unless the limit breaks its evaluation off on the way; and so
do arguments and the bindings and the body of a `let`. -/
theorem upToLimit_of_room (host : Host)
    (hstrict : settings.strictUnbound = settings'.strictUnbound) :
    Value.EvaluationInduction
      (fun expr => ∀ scope (depth depth' : Nat),
        settings.maxDepth - depth ≤ settings'.maxDepth - depth' →
        UpToLimit host (meaning host settings scope depth expr)
          (meaning host settings' scope depth' expr))
      (fun args => ∀ scope (depth depth' : Nat),
        settings.maxDepth - depth ≤ settings'.maxDepth - depth' →
        UpToLimit host (meaningAll host settings scope depth args)
          (meaningAll host settings' scope depth' args))
      (fun items => ∀ scope (depth depth' : Nat),
        settings.maxDepth - depth ≤ settings'.maxDepth - depth' →
        UpToLimit host (meaningLet host settings scope depth items)
          (meaningLet host settings' scope depth' items)) where
  symbol name scope depth depth' hroom := by
    refine within_limit hroom fun h h' => ?_
    rw [meaning_symbol h, meaning_symbol h', resolve_congr hstrict]
    exact upToLimit_resolve ..
  empty scope depth depth' hroom := by
    refine within_limit hroom fun h h' => ?_
    rw [meaning_empty h, meaning_empty h']
    exact upToLimit_of_no_calls rfl rfl rfl
  letForm items hitems scope depth depth' hroom := by
    refine within_limit hroom fun h h' => ?_
    rw [meaning_let h, meaning_let h']
    exact (hitems scope (depth + 1) (depth' + 1) (by omega)).after_evaluating
  application name args hname hargs scope depth depth' hroom := by
    refine within_limit hroom fun h h' => ?_
    rw [meaning_application h hname, meaning_application h' hname, resolve_congr hstrict]
    refine ((upToLimit_resolve ..).bind fun value => ?_).after_evaluating
    exact upToLimit_applyHead name (hargs scope (depth + 1) (depth' + 1) (by omega)) value
  headed head tail hhead scope depth depth' hroom := by
    refine within_limit hroom fun h h' => ?_
    rw [meaning_headed h hhead, meaning_headed h' hhead]
    exact (upToLimit_headValue head tail).after_evaluating
  leaf v hsymbol hlist scope depth depth' hroom := by
    refine within_limit hroom fun h h' => ?_
    rw [meaning_leaf h hsymbol hlist, meaning_leaf h' hsymbol hlist]
    exact upToLimit_of_no_calls rfl rfl rfl
  nil scope depth depth' _ := by
    rw [meaningAll, meaningAll]
    exact upToLimit_of_no_calls rfl rfl rfl
  cons v rest hv hrest scope depth depth' hroom := by
    rw [meaningAll_cons, meaningAll_cons]
    refine (hv scope depth depth' hroom).bind fun value => ?_
    exact (hrest scope depth depth' hroom).bind fun values => upToLimit_of_no_calls rfl rfl rfl
  bodyless scope depth depth' _ := by
    rw [meaningLet, meaningLet]
    exact upToLimit_of_no_calls rfl rfl rfl
  body v hv scope depth depth' hroom := by
    rw [meaningLet_body, meaningLet_body]
    exact hv scope depth depth' hroom
  binding name v rest hne hv hrest scope depth depth' hroom := by
    rw [meaningLet_binding name v hne, meaningLet_binding name v hne]
    exact (hv scope depth depth' hroom).bind fun value => hrest _ depth depth' hroom
  malformed v rest hne hmalformed scope depth depth' _ := by
    rw [meaningLet_malformed hne hmalformed, meaningLet_malformed hne hmalformed]
    exact upToLimit_of_no_calls rfl rfl rfl

/-- Raising the depth limit never changes an evaluation that has ended. It comes to the same under
the higher limit, with the same calls of native functions, unless it has been broken off as too
deep, and then after the first of the calls that are made under the higher limit. -/
theorem evaluate_of_limit_le (host : Host) (strict : Bool) {limit limit' : Int}
    (hle : limit ≤ limit') (es : Environments) (env depth : Nat) (expr : Value) :
    let low := (evaluate host ⟨limit, strict⟩ env depth expr).run { environments := es }
    let high := (evaluate host ⟨limit', strict⟩ env depth expr).run { environments := es }
    low.2.environments = high.2.environments ∧
    (low.1 = high.1 ∧ Event.calls low.2.events.toList = Event.calls high.2.events.toList ∨
      low.1 = .error EvalError.tooDeep.toFailure ∧
        Event.calls low.2.events.toList <+: Event.calls high.2.events.toList) := by
  dsimp only
  rw [gives_evaluate host ⟨limit, strict⟩ es env depth expr #[],
    gives_evaluate host ⟨limit', strict⟩ es env depth expr #[]]
  refine ⟨rfl, ?_⟩
  simp only [Array.empty_append]
  have hroom : limit - depth ≤ limit' - depth := Int.sub_le_sub_right hle _
  have hstrict : (⟨limit, strict⟩ : Settings).strictUnbound =
      (⟨limit', strict⟩ : Settings).strictUnbound := rfl
  obtain ⟨⟨hdeep, -⟩, hcalls⟩ | ⟨houtcome, hcalls, -⟩ :=
    (upToLimit_of_room host hstrict).expression expr (es.lookup env) depth depth hroom
  · exact Or.inr ⟨hdeep, hcalls⟩
  · exact Or.inl ⟨houtcome, hcalls⟩

/-- The second argument nests too deep for the lower limit, so only the call in the first argument
is made under it, and it is the first of the five under the higher limit. -/
theorem evaluate_of_limit_le_broken_off :
    let note (args : List Value) : Value := .list (.symbol "note" :: args)
    let f : Native := .host ⟨"note", "<note>"⟩
    let es := (Environments.push {} none).define 0 "note" (.native f)
    let expr := note [note [.text "a"], note [note [note [.text "b"]]]]
    let run (limit : Int) := (evaluate ⟨fun _ args => .ok (.list args)⟩ ⟨limit, false⟩ 0 0 expr).run
      { environments := es }
    (2 : Int) ≤ 4 ∧ (run 2).1 = .error EvalError.tooDeep.toFailure ∧
      Event.calls (run 2).2.events.toList = [(f, [.text "a"])] ∧
      (Event.calls (run 4).2.events.toList).length = 5 ∧
      Event.calls (run 2).2.events.toList <+: Event.calls (run 4).2.events.toList := by
  intro note f es expr run
  have hlow : (run 2).1 = .error EvalError.tooDeep.toFailure := by with_unfolding_all rfl
  have hhigh : (run 4).1.toBool = true := by with_unfolding_all rfl
  refine ⟨by decide, hlow, by with_unfolding_all rfl, by with_unfolding_all rfl, ?_⟩
  obtain ⟨-, ⟨hsame, -⟩ | ⟨-, hcalls⟩⟩ :=
    evaluate_of_limit_le ⟨fun _ args => .ok (.list args)⟩ false
      (show (2 : Int) ≤ 4 by decide) es 0 0 expr
  · change (run 2).1 = (run 4).1 at hsame
    rw [← hsame, hlow] at hhigh
    cases hhigh
  · exact hcalls

end Evaluation

end Lisplet
