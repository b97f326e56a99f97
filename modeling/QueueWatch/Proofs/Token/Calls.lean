import QueueWatch.Proofs.Token.Bytewise

/-!
# What a handler is asked to do

What a token handler is asked to do can be read off a handler that writes down every call before it
does what the other one does (`TokenHandler.observed`). The call that fails is written down as well.
Nothing else changes: a run with the observed handler is the run with the handler itself, together
with the list of the calls.

Handing over tokens one by one goes on until the handler refuses one (`TokenHandler.offer_cases`).
-/

namespace QueueWatch

section

variable {ε σ σ' : Type}

def mapState (f : σ → σ') : EStateM.Result ε σ Unit → EStateM.Result ε σ' Unit
  | .ok u s => .ok u (f s)
  | .error e s => .error e (f s)

end

/-- What a handler can be asked to do. -/
inductive TokenCall where
  | token (t : List UInt8)
  | complete
  deriving DecidableEq, Repr

namespace TokenHandler

variable {ε σ : Type}

/-- Writes down a call and does what it asks for. -/
def noting (call : TokenCall) (action : EStateM ε σ Unit) :
    EStateM ε (σ × List TokenCall) Unit :=
  fun (s, calls) => mapState (·, calls ++ [call]) (action s)

/-- The handler that writes down each call, the last one last. -/
def observed (handler : TokenHandler ε σ) : TokenHandler ε (σ × List TokenCall) where
  token t := noting (.token t) (handler.token t)
  complete := noting .complete handler.complete

theorem noting_apply (call : TokenCall) (action : EStateM ε σ Unit) (s : σ)
    (calls : List TokenCall) :
    noting call action (s, calls) = mapState (·, calls ++ [call]) (action s) := rfl

/-- Tokens are handed over up to the first that is refused. That one has been asked for, and what
the handler did before it refused stays done. -/
theorem offer_cases (handler : TokenHandler ε σ) (ts : List (List UInt8)) (s : σ)
    (calls : List TokenCall) :
    (∃ s', forM ts handler.token s = .ok () s' ∧
      forM ts handler.observed.token (s, calls) = .ok () (s', calls ++ ts.map .token)) ∨
    ∃ before t after s' e s'', ts = before ++ t :: after ∧
      forM before handler.token s = .ok () s' ∧ handler.token t s' = .error e s'' ∧
      forM ts handler.token s = .error e s'' ∧
      forM ts handler.observed.token (s, calls) =
        .error e (s'', calls ++ (before ++ [t]).map .token) := by
  induction ts generalizing s calls with
  | nil => exact Or.inl ⟨s, rfl, by rw [List.map_nil, List.append_nil]; rfl⟩
  | cons t ts ih =>
      have hobserved : handler.observed.token t (s, calls) =
          mapState (·, calls ++ [.token t]) (handler.token t s) := rfl
      rw [List.forM_cons, List.forM_cons, Assembler.bind_apply, Assembler.bind_apply, hobserved]
      cases htoken : handler.token t s with
      | error e s' =>
          exact Or.inr ⟨[], t, ts, s, e, s', rfl, rfl, htoken, rfl, rfl⟩
      | ok u s' =>
          rcases ih s' (calls ++ [.token t]) with
            ⟨last, hplain, hnoted⟩ | ⟨before, refused, after, s₁, e, s₂, hts, hbefore, hrefused,
              hplain, hnoted⟩
          · refine Or.inl ⟨last, hplain, ?_⟩
            rw [List.append_assoc, List.singleton_append] at hnoted
            exact hnoted
          · refine Or.inr ⟨t :: before, refused, after, s₁, e, s₂, ?_, ?_, hrefused, hplain, ?_⟩
            · rw [hts, List.cons_append]
            · rw [List.forM_cons, Assembler.bind_apply, htoken]
              exact hbefore
            · rw [List.append_assoc, List.singleton_append] at hnoted
              exact hnoted

end TokenHandler

end QueueWatch
